/-
# Password hashes (`internal/pwhash`)

`pbkdf2` is run over any keyed function with 32 bytes of output. It returns
the first bytes of `T_1 ‖ T_2 ‖ ...` of RFC 8018: the hash object is reset
before each use, and the accumulator `t` of a block holds the xor of the
blocks `u` so far.

`Verify` takes the iteration count, the salt and the key to compare from the
stored string, the length of the key included. A string with a shorter key
passes all checks, and one with no key is accepted for every password.

Key definitions: `pbkdf2`, `derive`, `hash`, `verify`, `Shaped`.
Key theorems: `pbkdf2_eq_derive`, `pbkdf2_verify`, `verify_shaped`.
-/
import Revquic.Adminstore
import Revquic.Lib.Base64
import Revquic.Proto.Framing

namespace Revquic
namespace Pwhash

open Lib Proto

/-- What stands for HMAC-SHA256: key and message, to 32 bytes. -/
structure Prf where
  fn : List UInt8 → List UInt8 → List UInt8
  length_fn : ∀ key msg, (fn key msg).length = 32

/-- The hash object of `hmac.New`: what was written since the last
`Reset`. -/
structure Mac where
  key : List UInt8
  written : List UInt8 := []

namespace Mac

def reset (m : Mac) : Mac := { m with written := [] }

def write (m : Mac) (b : List UInt8) : Mac := { m with written := m.written ++ b }

end Mac

def xorBytes (t u : List UInt8) : List UInt8 := List.zipWith (· ^^^ ·) t u

namespace Prf

variable (prf : Prf)

/-- `prf.Sum(nil)`. -/
def sum (m : Mac) : List UInt8 := prf.fn m.key m.written

/-- One pass of the inner loop of `pbkdf2`, on the hash object, `u` and
`t`. -/
def pass (s : Mac × List UInt8 × List UInt8) : Mac × List UInt8 × List UInt8 :=
  let m := s.1.reset.write s.2.1
  let u := prf.sum m
  (m, u, xorBytes s.2.2 u)

/-- One pass of the outer loop, on the hash object and `dk`. -/
def block (salt : List UInt8) (iter : ℕ) (s : Mac × List UInt8) (block : ℕ) : Mac × List UInt8 :=
  let m := (s.1.reset.write salt).write (putUint32 block)
  let u := prf.sum m
  let r := (List.range' 2 (iter - 1)).foldl (fun s _ => prf.pass s) (m, u, u)
  (r.1, s.2 ++ r.2.2)

/-- `pbkdf2`. -/
def pbkdf2 (password salt : List UInt8) (iter keyLen : ℕ) : List UInt8 :=
  let numBlocks := (keyLen + 32 - 1) / 32
  ((List.range' 1 numBlocks).foldl (prf.block salt iter) (⟨password, []⟩, [])).2.take keyLen

/-! ### RFC 8018 -/

/-- `U_{j+1}` of block `i`. -/
def U (password salt : List UInt8) (i : ℕ) : ℕ → List UInt8
  | 0 => prf.fn password (salt ++ putUint32 i)
  | j + 1 => prf.fn password (U password salt i j)

/-- `T_i`: the xor of `U_1` to `U_c`. -/
def T (password salt : List UInt8) (c i : ℕ) : List UInt8 :=
  ((List.range c).map (prf.U password salt i)).foldl xorBytes (List.replicate 32 0)

/-- Byte `k` of `T_1 ‖ T_2 ‖ ...`. -/
def octet (password salt : List UInt8) (c k : ℕ) : UInt8 :=
  (prf.T password salt c (k / 32 + 1))[k % 32]?.getD 0

/-- The derived key. -/
def derive (password salt : List UInt8) (c dkLen : ℕ) : List UInt8 :=
  (List.range dkLen).map (prf.octet password salt c)

/-! ### The loops -/

variable {prf} {password salt : List UInt8}

theorem length_U (i j : ℕ) : (prf.U password salt i j).length = 32 := by
  cases j <;> exact prf.length_fn _ _

theorem xorBytes_zero {u : List UInt8} {n : ℕ} (h : u.length = n) : xorBytes (List.replicate n 0) u = u := by
  subst h
  apply List.ext_getElem
  · simp [xorBytes]
  · intro k h₁ h₂
    simp [xorBytes]

theorem length_foldl_xorBytes : ∀ {us : List (List UInt8)} {t : List UInt8}, t.length = 32 →
    (∀ u ∈ us, u.length = 32) → (us.foldl xorBytes t).length = 32
  | [], _, ht, _ => ht
  | u :: us, t, ht, hus => by
    rw [List.forall_mem_cons] at hus
    rw [List.foldl_cons]
    refine length_foldl_xorBytes ?_ hus.2
    rw [xorBytes, List.length_zipWith, ht, hus.1, Nat.min_self]

theorem length_T (c i : ℕ) : (prf.T password salt c i).length = 32 := by
  refine length_foldl_xorBytes List.length_replicate fun u hu => ?_
  obtain ⟨j, -, rfl⟩ := List.mem_map.mp hu
  exact length_U i j

/-- The inner loop: after `n` passes `u` is `U_{n+1}`, and `t` the xor of all
the blocks so far. -/
theorem passes_eq (prf : Prf) (salt : List UInt8) (i : ℕ) {m : Mac} (hm : m.key = password) : ∀ n : ℕ,
    ∃ m' : Mac, m'.key = password ∧
      (List.range' 2 n).foldl (fun s _ => prf.pass s)
          (m, prf.U password salt i 0, prf.U password salt i 0) =
        (m', prf.U password salt i n, prf.T password salt (n + 1) i)
  | 0 => by
    refine ⟨m, hm, ?_⟩
    rw [List.range'_zero, List.foldl_nil, T, List.range_one, List.map_singleton, List.foldl_cons,
      List.foldl_nil, xorBytes_zero (length_U i 0)]
  | n + 1 => by
    obtain ⟨m', hm', heq⟩ := passes_eq prf salt i hm n
    refine ⟨m'.reset.write (prf.U password salt i n), hm', ?_⟩
    rw [List.range'_concat, List.foldl_append, heq, List.foldl_cons, List.foldl_nil, pass]
    have hsum : prf.sum (m'.reset.write (prf.U password salt i n)) = prf.U password salt i (n + 1) := by
      rw [U, ← hm']
      rfl
    rw [hsum, T, T, List.range_succ (n := n + 1), List.map_append, List.foldl_append]
    rfl

/-- The outer loop: after `n` passes `dk` is `T_1 ‖ ... ‖ T_n`. -/
theorem blocks_eq (prf : Prf) (password salt : List UInt8) {iter : ℕ} (hiter : 1 ≤ iter) : ∀ n : ℕ,
    ∃ m : Mac, m.key = password ∧
      (List.range' 1 n).foldl (prf.block salt iter) (⟨password, []⟩, []) =
        (m, (List.range n).flatMap fun i => prf.T password salt iter (i + 1))
  | 0 => ⟨_, rfl, rfl⟩
  | n + 1 => by
    obtain ⟨m, hm, heq⟩ := blocks_eq prf password salt hiter n
    obtain ⟨m', hm', hpass⟩ := passes_eq prf salt (n + 1)
      (m := (m.reset.write salt).write (putUint32 (n + 1))) hm (iter - 1)
    have hsum : prf.sum ((m.reset.write salt).write (putUint32 (n + 1))) =
        prf.U password salt (n + 1) 0 := by
      rw [U, ← hm]
      rfl
    refine ⟨m', hm', ?_⟩
    rw [List.range'_concat, List.foldl_append, heq, List.foldl_cons, List.foldl_nil, block]
    simp only [Nat.one_mul, Nat.add_comm 1 n, hsum, hpass, Nat.sub_add_cancel hiter]
    rw [List.range_succ, List.flatMap_append, List.flatMap_singleton]

/-- Blocks of 32 bytes in a row, byte by byte. -/
theorem flatMap_blocks {f : ℕ → List UInt8} (hf : ∀ i, (f i).length = 32) : ∀ n : ℕ,
    (List.range n).flatMap f = (List.range (32 * n)).map fun k => (f (k / 32))[k % 32]?.getD 0
  | 0 => rfl
  | n + 1 => by
    have hlast : (List.range 32).map (fun k => (f ((32 * n + k) / 32))[(32 * n + k) % 32]?.getD 0) = f n := by
      apply List.ext_getElem
      · simp [hf]
      · intro k h₁ h₂
        rw [List.length_map, List.length_range] at h₁
        have hdiv : (32 * n + k) / 32 = n := by omega
        simp [hdiv, Nat.mod_eq_of_lt h₁, List.getElem?_eq_getElem h₂]
    rw [List.range_succ, List.flatMap_append, List.flatMap_singleton, flatMap_blocks hf n, Nat.mul_succ,
      List.range_add, List.map_append, List.map_map]
    exact congrArg _ hlast.symm

/-- `pbkdf2` is PBKDF2. -/
theorem pbkdf2_eq_derive {iter : ℕ} (hiter : 1 ≤ iter) (keyLen : ℕ) :
    prf.pbkdf2 password salt iter keyLen = prf.derive password salt iter keyLen := by
  obtain ⟨m, -, heq⟩ := blocks_eq prf password salt hiter ((keyLen + 32 - 1) / 32)
  have hmin : min keyLen (32 * ((keyLen + 32 - 1) / 32)) = keyLen := by omega
  simp only [pbkdf2, heq]
  rw [flatMap_blocks (fun i => length_T iter (i + 1)), ← List.map_take, List.take_range, hmin]
  rfl

end Prf

/-! ### Hash and Verify -/

/-- `algo`. -/
def algo : String := "pbkdf2_sha256"

/-- `iterations`. -/
def iterations : ℕ := 210000

/-- `keyLen`. -/
def keyLen : ℕ := 32

/-- `[]byte(s)`: a string has one character for each byte. -/
def toBytes (s : String) : List UInt8 := s.toList.map fun c => UInt8.ofNat c.toNat

/-- `strconv.Atoi`. -/
def atoi (s : List Char) : Option ℤ :=
  let neg := s.head? = some '-'
  let digits := if s.head? = some '-' ∨ s.head? = some '+' then s.tail else s
  let n := digits.foldl (fun acc d => acc * 10 + (d.toNat - '0'.toNat)) 0
  let z : ℤ := if neg then -n else n
  if digits ≠ [] ∧ digits.all Char.isDigit ∧ -2 ^ 63 ≤ z ∧ z < 2 ^ 63 then some z else none

/-- The fields of a stored string. -/
structure Stored where
  iter : ℕ
  salt : List UInt8
  want : List UInt8
  deriving DecidableEq

/-- What `Verify` reads from the stored string, if it gets as far as the
comparison. -/
def parse (encoded : String) : Option Stored :=
  match encoded.toList.splitOn '$' with
  | [tag, iter, salt, want] =>
    if tag ≠ algo.toList then none
    else
      match atoi iter with
      | none => none
      | some iter =>
        if iter ≤ 0 then none
        else
          match Base64.rawStd.decode salt with
          | none => none
          | some salt =>
            match Base64.rawStd.decode want with
            | none => none
            | some want => some ⟨iter.toNat, salt, want⟩
  | _ => none

/-- The encoded form: algorithm, iterations, salt and derived key. -/
def hashString (salt dk : List UInt8) : String :=
  String.ofList (['$'].intercalate
    [algo.toList, Nat.toDigits 10 iterations, Base64.rawStd.encode salt, Base64.rawStd.encode dk])

namespace Prf

variable (prf : Prf)

/-- `Hash`, with the salt that is drawn. -/
def hash (password : String) (salt : List UInt8) : String :=
  hashString salt (prf.pbkdf2 (toBytes password) salt iterations keyLen)

/-- `Verify`. -/
def verify (password encoded : String) : Bool :=
  match parse encoded with
  | none => false
  | some st => prf.pbkdf2 (toBytes password) st.salt st.iter st.want.length = st.want

end Prf

theorem parse_hashString (salt dk : List UInt8) :
    parse (hashString salt dk) = some ⟨iterations, salt, dk⟩ := by
  have hfields : (hashString salt dk).toList.splitOn '$' =
      [algo.toList, Nat.toDigits 10 iterations, Base64.rawStd.encode salt, Base64.rawStd.encode dk] := by
    rw [hashString, String.toList_ofList]
    refine List.splitOn_intercalate '$' ?_ (List.cons_ne_nil _ _)
    have hbase : ∀ b, '$' ∉ Base64.rawStd.encode b := fun b h =>
      absurd (Base64.mem_encode h) (by decide)
    simp only [List.forall_mem_cons, hbase, not_false_eq_true, List.not_mem_nil, false_implies,
      implies_true, and_true]
    decide
  have hiter : atoi (Nat.toDigits 10 iterations) = some 210000 := by decide
  rw [parse, hfields]
  simp only [hiter, Base64.decode_encode]
  rfl

/-- Four fields with the algorithm's tag, a positive iteration count, and a
salt and a key that decode, the key to all its 32 bytes. -/
def Shaped (encoded : String) : Prop :=
  ∃ iterText saltText keyText iter salt key,
    encoded.toList.splitOn '$' = [algo.toList, iterText, saltText, keyText] ∧
      atoi iterText = some iter ∧ 0 < iter ∧ Base64.rawStd.decode saltText = some salt ∧
      Base64.rawStd.decode keyText = some key ∧ key.length = keyLen

/-- What passes the checks of `Verify` has the shape of a hash, but for the
length of the key. -/
theorem parse_some_iff {encoded : String} {st : Stored} : parse encoded = some st ↔
    ∃ iterText saltText keyText iter,
      encoded.toList.splitOn '$' = [algo.toList, iterText, saltText, keyText] ∧
        atoi iterText = some iter ∧ 0 < iter ∧ Base64.rawStd.decode saltText = some st.salt ∧
        Base64.rawStd.decode keyText = some st.want ∧ iter.toNat = st.iter := by
  constructor
  · intro h
    unfold parse at h
    split at h
    · rename_i tag iterText saltText keyText hfields
      split_ifs at h with htag
      cases hiter : atoi iterText with
      | none => simp [hiter] at h
      | some iter =>
        simp only [hiter] at h
        split_ifs at h with hpos
        cases hsalt : Base64.rawStd.decode saltText with
        | none => simp [hsalt] at h
        | some salt =>
          cases hkey : Base64.rawStd.decode keyText with
          | none => simp [hsalt, hkey] at h
          | some key =>
            simp only [hsalt, hkey, Option.some.injEq] at h
            subst h
            exact ⟨iterText, saltText, keyText, iter, by rw [hfields, not_not.mp htag], hiter,
              not_le.mp hpos, hsalt, hkey, rfl⟩
    · cases h
  · rintro ⟨iterText, saltText, keyText, iter, hfields, hiter, hpos, hsalt, hkey, hn⟩
    simp [parse, hfields, hiter, not_le.mpr hpos, hsalt, hkey, hn]

theorem shaped_iff {encoded : String} :
    Shaped encoded ↔ ∃ st, parse encoded = some st ∧ st.want.length = keyLen := by
  constructor
  · rintro ⟨iterText, saltText, keyText, iter, salt, key, hfields, hiter, hpos, hsalt, hkey, hlen⟩
    exact ⟨⟨iter.toNat, salt, key⟩, parse_some_iff.mpr ⟨iterText, saltText, keyText, iter, hfields,
      hiter, hpos, hsalt, hkey, rfl⟩, hlen⟩
  · rintro ⟨st, hst, hlen⟩
    obtain ⟨iterText, saltText, keyText, iter, hfields, hiter, hpos, hsalt, hkey, -⟩ :=
      parse_some_iff.mp hst
    exact ⟨iterText, saltText, keyText, iter, st.salt, st.want, hfields, hiter, hpos, hsalt, hkey, hlen⟩

theorem parse_of_verify {prf : Prf} {password encoded : String}
    (h : prf.verify password encoded = true) : ∃ st, parse encoded = some st := by
  unfold Prf.verify at h
  cases hst : parse encoded with
  | none => simp [hst] at h
  | some st => exact ⟨st, rfl⟩

theorem iter_pos {encoded : String} {st : Stored} (h : parse encoded = some st) : 1 ≤ st.iter := by
  obtain ⟨_, _, _, iter, -, -, hpos, -, -, hn⟩ := parse_some_iff.mp h
  omega

section
variable {prf : Prf}

/-- `Verify` compares as many bytes of the derived key as the string has. -/
theorem verify_iff {password encoded : String} {st : Stored} (h : parse encoded = some st) :
    prf.verify password encoded = true ↔
      prf.derive (toBytes password) st.salt st.iter st.want.length = st.want := by
  simp only [Prf.verify, h, decide_eq_true_eq, Prf.pbkdf2_eq_derive (iter_pos h)]

theorem length_derive (password salt : List UInt8) (c n : ℕ) :
    (prf.derive password salt c n).length = n := by
  simp [Prf.derive]

/-- A string with the first bytes of the derived key, however few, is
accepted. -/
theorem verify_hashString (password : String) (salt : List UInt8) (n : ℕ) :
    prf.verify password (hashString salt (prf.derive (toBytes password) salt iterations n)) = true := by
  rw [verify_iff (parse_hashString _ _), length_derive]

theorem hash_eq (password : String) (salt : List UInt8) : prf.hash password salt =
    hashString salt (prf.derive (toBytes password) salt iterations keyLen) := by
  rw [Prf.hash, Prf.pbkdf2_eq_derive (by decide)]

/-- A hash is accepted for the passwords with the same derived key. -/
theorem verify_hash_iff (p q : String) (salt : List UInt8) : prf.verify q (prf.hash p salt) = true ↔
    prf.derive (toBytes q) salt iterations keyLen = prf.derive (toBytes p) salt iterations keyLen := by
  rw [hash_eq, verify_iff (parse_hashString _ _), length_derive]

end

/-- **PBKDF2.** `pbkdf2` returns the first bytes of `T_1 ‖ T_2 ‖ ...`, over
every function with 32 bytes of output. `Verify` accepts the password `q` for
a hash of `p` exactly if the two have the same derived key under the salt of
the hash, so it accepts `p` itself. -/
theorem pbkdf2_verify (prf : Prf) :
    (∀ (password salt : List UInt8) (iter n : ℕ), 1 ≤ iter →
      prf.pbkdf2 password salt iter n = (List.range n).map (prf.octet password salt iter)) ∧
    (∀ (p q : String) (salt : List UInt8),
      prf.verify q (prf.hash p salt) = true ↔
        prf.derive (toBytes q) salt iterations keyLen = prf.derive (toBytes p) salt iterations keyLen) ∧
    ∀ (p : String) (salt : List UInt8), prf.verify p (prf.hash p salt) = true :=
  ⟨fun _ _ _ n hiter => Prf.pbkdf2_eq_derive hiter n, verify_hash_iff,
    fun p salt => by rw [verify_hash_iff]⟩

/-- A function for examples: the bytes of the message, each added to the
key's length, up to 32 of them. -/
def Prf.toy : Prf where
  fn key msg := ((msg.map (· + UInt8.ofNat key.length)) ++ List.replicate 32 0).take 32
  length_fn key msg := by simp

/-- A key of 40 bytes: a whole block and a part of the second. -/
theorem pbkdf2_verify_toy : 1 ≤ 2 ∧
    Prf.toy.pbkdf2 [7] [5] 2 40 = (List.range 40).map (Prf.toy.octet [7] [5] 2) ∧
    Prf.toy.pbkdf2 [7] [5] 2 40 = 1 :: 3 :: 3 :: 3 :: List.replicate 28 1 ++ [1, 3, 3, 3, 7, 1, 1, 1] :=
  ⟨by decide, (pbkdf2_verify Prf.toy).1 [7] [5] 2 40 (by decide), by decide +kernel⟩

/-- **Degenerate hashes.** A string whose key has all its 32 bytes is
accepted only if it has the shape of a hash, and for every password only if
all passwords have the same derived key. Nothing looks at the length of the
key: for every other length and every password there is a string that is
accepted and has not the shape, and a string without a key is accepted for
every password. -/
theorem verify_shaped (prf : Prf) :
    (∀ encoded : String, (∀ st, parse encoded = some st → st.want.length = keyLen) →
      (∀ password, prf.verify password encoded = true → Shaped encoded) ∧
      ((∀ password, prf.verify password encoded = true) →
        ∃ salt iter key, ∀ password, prf.derive (toBytes password) salt iter keyLen = key)) ∧
    (∀ (n : ℕ) (password : String), n ≠ keyLen →
      ∃ encoded st, parse encoded = some st ∧ st.want.length = n ∧
        prf.verify password encoded = true ∧ ¬ Shaped encoded) ∧
    ∀ (encoded : String) (st : Stored), parse encoded = some st → st.want = [] →
      ∀ password, prf.verify password encoded = true := by
  refine ⟨fun encoded hlen => ⟨fun password h => ?_, fun h => ?_⟩, fun n password hn => ?_,
    fun encoded st hst hnil password => ?_⟩
  · obtain ⟨st, hst⟩ := parse_of_verify h
    exact shaped_iff.mpr ⟨st, hst, hlen st hst⟩
  · obtain ⟨st, hst⟩ := parse_of_verify (h "")
    refine ⟨st.salt, st.iter, st.want, fun password => ?_⟩
    rw [← hlen st hst]
    exact (verify_iff hst).mp (h password)
  · refine ⟨_, _, parse_hashString _ _, length_derive _ _ _ n, verify_hashString password [] n, ?_⟩
    intro hs
    obtain ⟨st, hst, hlen⟩ := shaped_iff.mp hs
    obtain rfl := Option.some.inj ((parse_hashString _ _).symm.trans hst)
    exact hn ((length_derive _ _ _ n).symm.trans hlen)
  · rw [verify_iff hst, hnil]
    rfl

/-- A hash that `Hash` has made is accepted for its password. -/
theorem verify_shaped_hash :
    (∀ st, parse (Prf.toy.hash "p" [5]) = some st → st.want.length = keyLen) ∧
      Prf.toy.verify "p" (Prf.toy.hash "p" [5]) = true ∧ Shaped (Prf.toy.hash "p" [5]) := by
  have hlen : ∀ st, parse (Prf.toy.hash "p" [5]) = some st → st.want.length = keyLen := by
    intro st hst
    rw [hash_eq] at hst
    obtain rfl := Option.some.inj ((parse_hashString _ _).symm.trans hst)
    exact length_derive _ _ _ _
  have haccept : Prf.toy.verify "p" (Prf.toy.hash "p" [5]) = true :=
    (verify_hash_iff "p" "p" [5]).mpr rfl
  exact ⟨hlen, haccept, ((verify_shaped Prf.toy).1 _ hlen).1 "p" haccept⟩

/-! ### The accounts -/

/-- `pwhash`, as the administrators' store uses it. -/
def store (prf : Prf) : Adminstore.Pwhash where
  hash password salt := prf.hash password (toBytes salt)
  verify := prf.verify

/-- A new account is opened by its password. -/
theorem verify_create {prf : Prf} {t t' : Adminstore.Table} {c : Adminstore.Call} {p : Adminstore.Public}
    (h : t.create (store prf) c = .ok (t', p)) :
    t'.verify (store prf) c.username c.password = .ok p := by
  unfold Adminstore.Table.create at h
  cases hsalt : c.salt with
  | none => simp [hsalt] at h
  | some salt =>
    by_cases hmem : c.username ∈ t.byU
    · simp [hsalt, hmem] at h
    simp only [hsalt, if_neg hmem] at h
    obtain ⟨rfl, rfl⟩ := Prod.mk.inj (Except.ok.inj h)
    have hverify : prf.verify c.password (prf.hash c.password (toBytes salt)) = true := by
      rw [verify_hash_iff]
    simp [Adminstore.Table.verify, store, hverify]

/-- The derived key of a stored hash is cut off. Every password opens the
account. -/
theorem empty_key_accepted :
    (∀ (prf : Prf) (password : String),
      prf.verify password "pbkdf2_sha256$1$$" = true ∧
        (Adminstore.Table.load [⟨"root", "admin", "pbkdf2_sha256$1$$", 1⟩]).verify (store prf)
          "root" password = .ok ⟨"root", "admin"⟩) ∧
      ¬ Shaped "pbkdf2_sha256$1$$" := by
  have hparse : parse "pbkdf2_sha256$1$$" = some ⟨1, [], []⟩ := by decide +kernel
  have hverify : ∀ (prf : Prf) (password : String), prf.verify password "pbkdf2_sha256$1$$" = true :=
    fun prf password => (verify_iff hparse).mpr rfl
  refine ⟨fun prf password => ⟨hverify prf password, ?_⟩, fun hs => ?_⟩
  · have hroot : (Adminstore.Table.load [⟨"root", "admin", "pbkdf2_sha256$1$$", 1⟩]).byU.lookup "root" =
        some ⟨"root", "admin", "pbkdf2_sha256$1$$", 1⟩ := by decide +kernel
    simp [Adminstore.Table.verify, hroot, store, hverify]
  · obtain ⟨st, hst, hlen⟩ := shaped_iff.mp hs
    obtain rfl := Option.some.inj (hparse.symm.trans hst)
    cases hlen

end Pwhash
end Revquic
