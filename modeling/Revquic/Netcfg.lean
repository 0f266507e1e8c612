/-
# The network set-up (`internal/netcfg` on Linux)

`AddrUp` gives an interface an address; `Masquerade` and `Isolate` set the
packet filter of an exit. Each runs a few commands of the system, in their
order, and returns at the first that fails. The rules outlive the process:
they are added at every start of an exit, and nothing takes them away.

`Masquerade` appends its ACCEPT rules to the FORWARD chain, `Isolate` inserts
its DROP rules at the head. So the chain always is a list of DROP rules of
`Isolate` over the chain that would be there if it had never run, whatever
the chain was at first, and however far each start got.

Key definitions: `addrUp`, `masquerade`, `isolate`, `machine`, `Layered`.
Key theorems: `layered_of_run`, `isolation`.
-/
import Mathlib.Data.List.TakeWhile
import Revquic.Lib.Chain
import Revquic.Lib.Machine
import Revquic.Netip

namespace Revquic
namespace Netcfg

open Lib Netip

/-! ### Interfaces -/

/-- What `ip` shows of an interface: its addresses with their prefix lengths,
oldest first, the MTU, and whether the link is up. -/
structure Iface where
  addrs : List (Addr × ℕ) := []
  mtu : ℕ := 1500
  up : Bool := false

/-- An address with its prefix length, as `ip` reads it: the length stands
after the first slash. -/
def parseCIDR (cidr : List Char) : Option (Addr × ℕ) :=
  match parseAddr (String.ofList (cidr.takeWhile (· ≠ '/'))),
      parseField ((cidr.dropWhile (· ≠ '/')).drop 1) with
  | some a, some n => if n ≤ a.bitLen then some (a, n) else none
  | _, _ => none

/-- `ip addr add`: the address is appended; one that is there already is
refused. -/
def Iface.addrAdd (cidr : String) (i : Iface) : Except String Iface :=
  match parseCIDR cidr.toList with
  | none => .error "Error: any valid prefix is expected"
  | some a =>
    if a ∈ i.addrs then .error "RTNETLINK answers: File exists"
    else .ok { i with addrs := i.addrs ++ [a] }

/-- The errors of the two `ip link set` commands, if they fail. -/
structure LinkEnv where
  mtuErr : Option String := none
  upErr : Option String := none

/-- `AddrUp`, with the interface after it and the error it returns. -/
def addrUp (cidr : String) (mtu : ℕ) (env : LinkEnv) (i : Iface) : Iface × Option String :=
  match i.addrAdd cidr with
  | .error e => (i, some e)
  | .ok i =>
    match env.mtuErr with
    | some e => (i, some e)
    | none =>
      match env.upErr with
      | some e => ({ i with mtu }, some e)
      | none => ({ i with mtu, up := true }, none)

section
variable {cidr : String} {mtu : ℕ} {env : LinkEnv} {i : Iface}

/-- A text that is no address changes nothing. -/
theorem addrUp_of_none (h : parseCIDR cidr.toList = none) : (addrUp cidr mtu env i).1 = i := by
  simp [addrUp, Iface.addrAdd, h]

/-- Only the first command of `AddrUp` is about addresses: its address is
there afterwards, once. -/
theorem addrUp_addrs {a : Addr × ℕ} (h : parseCIDR cidr.toList = some a) :
    (addrUp cidr mtu env i).1.addrs = if a ∈ i.addrs then i.addrs else i.addrs ++ [a] := by
  unfold addrUp Iface.addrAdd
  by_cases ha : a ∈ i.addrs
  · simp [h, ha]
  · simp only [h, ha, if_false]
    cases env.mtuErr with
    | some e => rfl
    | none =>
      cases env.upErr with
      | some e => rfl
      | none => rfl

end

/-! ### Texts of addresses -/

theorem slash_notMem_of_parseField {f : List Char} {n : ℕ} (h : parseField f = some n) :
    '/' ∉ f := by
  intro hmem
  simp only [parseField] at h
  split at h
  · rename_i hp
    have hd := List.all_eq_true.mp hp.2.2.1 _ hmem
    revert hd
    decide
  · cases h

theorem slash_notMem_of_mapM {fs : List (List Char)} {ns : List ℕ}
    (h : fs.mapM parseField = some ns) : '/' ∉ ['.'].intercalate fs := by
  induction fs generalizing ns with
  | nil => simp
  | cons f fs ih =>
    simp only [List.mapM_cons, Option.bind_eq_bind, Option.bind_eq_some_iff] at h
    obtain ⟨n, hf, ns', hfs, -⟩ := h
    cases fs with
    | nil => simpa using slash_notMem_of_parseField hf
    | cons g fs =>
      rw [List.intercalate_cons_cons]
      simp [slash_notMem_of_parseField hf, ih hfs]

/-- An address is written with digits and dots. -/
theorem slash_notMem_of_parseAddr {s : String} {a : Addr} (h : parseAddr s = some a) :
    '/' ∉ s.toList ∧ ∃ x, a = .v4 x := by
  unfold parseAddr at h
  split at h
  · rename_i hm
    have hs := slash_notMem_of_mapM hm
    rw [List.intercalate_splitOn] at hs
    exact ⟨hs, _, (Option.some.inj h).symm⟩
  · cases h

/-- The length is read up to the end of the text, over a second slash. -/
theorem parseCIDR_of_slash {ip rest : List Char} (hs : '/' ∈ ip) (hrest : '/' ∈ rest) :
    parseCIDR (ip ++ rest) = none := by
  have hmem : '/' ∈ ((ip ++ rest).dropWhile (· ≠ '/')).drop 1 := by
    rw [List.dropWhile_append]
    cases hd : ip.dropWhile (· ≠ '/') with
    | nil =>
      have hne := List.dropWhile_eq_nil_iff.mp hd _ hs
      simp at hne
    | cons c w => simp [hrest]
  have hfield : parseField (((ip ++ rest).dropWhile (· ≠ '/')).drop 1) = none := by
    by_contra hne
    obtain ⟨n, hn⟩ := Option.ne_none_iff_exists'.mp hne
    exact slash_notMem_of_parseField hn hmem
  unfold parseCIDR
  rw [hfield]
  cases parseAddr (String.ofList ((ip ++ rest).takeWhile (· ≠ '/'))) with
  | none => rfl
  | some a => rfl

/-- A text without a slash is the address, and what follows it the length. -/
theorem split_of_noSlash {ip : List Char} (hs : '/' ∉ ip) (rest : List Char) :
    (ip ++ '/' :: rest).takeWhile (· ≠ '/') = ip ∧
      ((ip ++ '/' :: rest).dropWhile (· ≠ '/')).drop 1 = rest := by
  have hall : ∀ c ∈ ip, decide (c ≠ '/') = true := by
    intro c hc
    simp only [decide_eq_true_eq]
    rintro rfl
    exact hs hc
  rw [List.takeWhile_append_of_pos hall, List.dropWhile_append_of_pos hall]
  simp

/-- An address with the prefix length 24 put after it. -/
theorem parseCIDR_append (ip : String) :
    parseCIDR (ip ++ "/24").toList = (parseAddr ip).map (·, 24) := by
  rw [String.toList_append]
  by_cases hs : '/' ∈ ip.toList
  · have hip : parseAddr ip = none := by
      by_contra hne
      obtain ⟨a, ha⟩ := Option.ne_none_iff_exists'.mp hne
      exact (slash_notMem_of_parseAddr ha).1 hs
    rw [hip, parseCIDR_of_slash hs (by decide), Option.map_none]
  · obtain ⟨htake, hdrop⟩ := split_of_noSlash hs ['2', '4']
    have hlen : parseField ['2', '4'] = some 24 := by decide
    change parseCIDR (ip.toList ++ ['/', '2', '4']) = _
    unfold parseCIDR
    rw [htake, hdrop, hlen, String.ofList_toList]
    cases ha : parseAddr ip with
    | none => rfl
    | some a =>
      obtain ⟨x, rfl⟩ := (slash_notMem_of_parseAddr ha).2
      rfl

/-! ### The packet filter -/

/-- What connection tracking says of a packet. -/
inductive CtState
  | new
  | established
  | related
  | invalid
  deriving DecidableEq

/-- A packet on its way through the host; `rest` is what else a rule can look
at. -/
structure Packet (X : Type*) where
  src : BitVec 32
  dst : BitVec 32
  iif : String
  oif : String
  state : CtState
  rest : X

/-- The targets that end the traversal of a chain. -/
inductive Target
  | accept
  | drop
  | masquerade
  | other (name : String)
  deriving DecidableEq

/-- The arguments of a rule of `iptables`: `-s`, `-d`, `-i`, `-o`,
`-m state --state` and `-j`. -/
structure RuleSpec where
  src : Option Prefix := none
  dst : Option Prefix := none
  iif : Option String := none
  oif : Option String := none
  states : Option (List CtState) := none
  target : Target

/-- An interface name, as `iptables` matches it: one that ends in `+` stands
for all that begin with what precedes it. -/
def ifaceMatch (pattern name : String) : Bool :=
  if pattern.toList.getLast? = some '+' then pattern.toList.dropLast.isPrefixOf name.toList
  else pattern = name

/-- The packet meets every condition of the rule. -/
def RuleSpec.hits {X : Type*} (r : RuleSpec) (p : Packet X) : Bool :=
  r.src.all (·.contains (.v4 p.src)) && r.dst.all (·.contains (.v4 p.dst)) &&
    r.iif.all (ifaceMatch · p.iif) && r.oif.all (ifaceMatch · p.oif) &&
    r.states.all (·.contains p.state)

/-- The rule of a chain that the arguments describe. -/
def RuleSpec.rule {X : Type*} (r : RuleSpec) : Rule (Packet X) Target :=
  fun p => if r.hits p then some r.target else none

/-- The two chains of the host that an exit adds rules to: FORWARD of the
filter table and POSTROUTING of the nat table. The rules that others have put
there are arbitrary. -/
structure Host (X : Type*) where
  forward : List (Rule (Packet X) Target) := []
  postrouting : List (Rule (Packet X) Target) := []

/-- The commands of `iptables` that an exit runs. -/
inductive Command
  | appendPostrouting (r : RuleSpec)
  | appendForward (r : RuleSpec)
  | insertForward (r : RuleSpec)

/-- What a command does: `-A` appends the rule, `-I` inserts it at the head. -/
def Command.apply {X : Type*} (h : Host X) : Command → Host X
  | .appendPostrouting r => { h with postrouting := h.postrouting ++ [r.rule] }
  | .appendForward r => { h with forward := h.forward ++ [r.rule] }
  | .insertForward r => { h with forward := r.rule :: h.forward }

/-- Commands in their order, up to the first that fails; `errs i` is the error
of the command at place `i`, if it fails. -/
def runAll {X : Type*} (errs : ℕ → Option String) :
    ℕ → List Command → Host X → Host X × Option String
  | _, [], h => (h, none)
  | i, c :: cs, h =>
    match errs i with
    | some e => (h, some e)
    | none => runAll errs (i + 1) cs (c.apply h)

/-- The commands of `Masquerade`. -/
def masquerade (srcCIDR : Prefix) (uplinkIface : String) : List Command :=
  [.appendPostrouting { src := some srcCIDR, oif := some uplinkIface, target := .masquerade },
    .appendForward { oif := some uplinkIface, target := .accept },
    .appendForward
      { iif := some uplinkIface, states := some [.related, .established], target := .accept }]

/-- An IPv4 prefix. -/
def cidr4 (a : BitVec 32) (bits : Fin 33) : Prefix := ⟨.v4 a, bits, rfl, Nat.le_of_lt_succ bits.isLt⟩

/-- `10.0.0.0/8`, `172.16.0.0/12`, `192.168.0.0/16` and `169.254.0.0/16`. -/
def privateCIDRs : List Prefix :=
  [cidr4 0x0a000000#32 8, cidr4 0xac100000#32 12, cidr4 0xc0a80000#32 16, cidr4 0xa9fe0000#32 16]

/-- The arguments of the rules of `Isolate`: one for the other clients, and
one for each private range. -/
def isolateRules (vpnCIDR : Prefix) : List RuleSpec :=
  { src := some vpnCIDR, dst := some vpnCIDR, target := .drop } ::
    privateCIDRs.map fun cidr => { src := some vpnCIDR, dst := some cidr, target := .drop }

/-- The commands of `Isolate`. -/
def isolate (vpnCIDR : Prefix) : List Command := (isolateRules vpnCIDR).map .insertForward

/-! ### Starts of an exit -/

/-- `10.99.0.0/24`. -/
def vpnCIDR : Prefix := cidr4 0x0a630000#32 24

/-- One start of an exit: its flags, and the errors of the commands of
`Masquerade` and of `Isolate`. A start that is ended from outside between two
commands leaves the same rules as one whose next command fails. -/
structure Start where
  uplink : String := "eth0"
  isolate : Bool := true
  masqueradeErr : ℕ → Option String := fun _ => none
  isolateErr : ℕ → Option String := fun _ => none

/-- How the set-up of the data plane ends. -/
inductive Outcome
  | up
  | isolated
  | fatal (text : String)
  deriving DecidableEq

/-- The set-up of the data plane in `main`. -/
def Start.run {X : Type*} (s : Start) (h : Host X) : Host X × Outcome :=
  match runAll s.masqueradeErr 0 (masquerade vpnCIDR s.uplink) h with
  | (h, some e) => (h, .fatal ("masquerade: " ++ e))
  | (h, none) =>
    if s.isolate then
      match runAll s.isolateErr 0 (Netcfg.isolate vpnCIDR) h with
      | (h, some e) => (h, .fatal ("isolate: " ++ e))
      | (h, none) => (h, .isolated)
    else (h, .up)

/-- The starts on a host, one after the other. -/
def machine {X : Type*} (init : Host X) : Machine (Host X) Start Outcome :=
  ⟨init, fun h s => some ((s.run h).1, [(s.run h).2])⟩

/-- The host after a start that does not run `Isolate`. -/
def withoutIsolate {X : Type*} (h : Host X) (s : Start) : Host X :=
  ({ s with isolate := false }.run h).1

/-! ### The two layers of the chain -/

section
variable {X : Type*} {cs : List Command} {front : List (Rule (Packet X) Target)}
  {h plain init : Host X} {tr : List (Event (Host X) Start Outcome)}

/-- The chain is `front` over the chain of `plain`, and `front` is made of
rules of `Isolate`. -/
structure Layered (front : List (Rule (Packet X) Target)) (h plain : Host X) : Prop where
  forward : h.forward = front ++ plain.forward
  postrouting : h.postrouting = plain.postrouting
  rules : ∀ r ∈ front, ∃ c ∈ isolateRules vpnCIDR, r = c.rule

/-- A sequence of commands that only append acts below the front. -/
theorem Layered.masquerade (hl : Layered front h plain) (errs : ℕ → Option String) (i : ℕ)
    (hcs : ∀ c ∈ cs, ∀ r, c ≠ .insertForward r) :
    Layered front (runAll errs i cs h).1 (runAll errs i cs plain).1 := by
  induction cs generalizing i h plain with
  | nil => exact hl
  | cons c cs ih =>
    cases he : errs i with
    | some e => simpa [runAll, he] using hl
    | none =>
      simp only [runAll, he]
      refine ih ?_ (i + 1) fun c' hc' => hcs c' (List.mem_cons_of_mem _ hc')
      cases c with
      | appendPostrouting r =>
        exact ⟨hl.forward, by simp [Command.apply, hl.postrouting], hl.rules⟩
      | appendForward r => exact ⟨by simp [Command.apply, hl.forward], hl.postrouting, hl.rules⟩
      | insertForward r => exact absurd rfl (hcs _ List.mem_cons_self r)

/-- Inserted rules join the front, and stay above what was there; if all
commands succeed, all of them do. -/
theorem Layered.isolate {rs : List RuleSpec} (hl : Layered front h plain)
    (errs : ℕ → Option String) (i : ℕ) (hrs : rs ⊆ isolateRules vpnCIDR) :
    ∃ new, Layered (new ++ front) (runAll errs i (rs.map .insertForward) h).1 plain ∧
      ((runAll errs i (rs.map .insertForward) h).2 = none → ∀ c ∈ rs, c.rule ∈ new) := by
  induction rs generalizing i h front with
  | nil => exact ⟨[], hl, by simp⟩
  | cons r rs ih =>
    obtain ⟨hr, hrs⟩ := List.cons_subset.mp hrs
    cases he : errs i with
    | some e => exact ⟨[], by simpa [runAll, he] using hl, by simp [runAll, he]⟩
    | none =>
      simp only [runAll, he, List.map_cons]
      have hl' : Layered (r.rule :: front) (Command.apply h (.insertForward r)) plain := by
        refine ⟨by simp [Command.apply, hl.forward], hl.postrouting, fun r' hr' => ?_⟩
        rcases List.mem_cons.mp hr' with rfl | hr'
        · exact ⟨r, hr, rfl⟩
        · exact hl.rules r' hr'
      obtain ⟨new, hnew, hall⟩ := ih hl' (i + 1) hrs
      refine ⟨new ++ [r.rule], by simpa using hnew, fun hok c hc => ?_⟩
      rcases List.mem_cons.mp hc with rfl | hc
      · simp
      · exact List.mem_append_left _ (hall hok c hc)

/-- A start without `Isolate` is its `Masquerade`. -/
theorem withoutIsolate_eq (h : Host X) (s : Start) :
    withoutIsolate h s = (runAll s.masqueradeErr 0 (Netcfg.masquerade vpnCIDR s.uplink) h).1 := by
  unfold withoutIsolate Start.run
  generalize runAll s.masqueradeErr 0 (Netcfg.masquerade vpnCIDR s.uplink) h = r
  obtain ⟨r, e⟩ := r
  cases e with
  | none => rfl
  | some e => rfl

/-- One start. -/
theorem Layered.start (hl : Layered front h plain) (s : Start) :
    ∃ new, Layered (new ++ front) (s.run h).1 (withoutIsolate plain s) ∧
      ((s.run h).2 = .isolated → ∀ c ∈ isolateRules vpnCIDR, c.rule ∈ new) := by
  have happ : ∀ c ∈ Netcfg.masquerade vpnCIDR s.uplink, ∀ r, c ≠ .insertForward r := by
    simp [Netcfg.masquerade]
  have hm := hl.masquerade s.masqueradeErr 0 happ
  rw [withoutIsolate_eq]
  unfold Start.run
  generalize runAll s.masqueradeErr 0 (Netcfg.masquerade vpnCIDR s.uplink) h = r at hm ⊢
  obtain ⟨h', e⟩ := r
  cases e with
  | some e => exact ⟨[], hm, by simp⟩
  | none =>
    cases hi : s.isolate with
    | false => exact ⟨[], hm, by simp⟩
    | true =>
      obtain ⟨new, hnew, hall⟩ :=
        hm.isolate s.isolateErr 0 (List.Subset.refl (isolateRules vpnCIDR))
      refine ⟨new, ?_⟩
      simp only [if_true, Netcfg.isolate]
      generalize runAll s.isolateErr 0 ((isolateRules vpnCIDR).map .insertForward) h' = r
        at hnew hall ⊢
      obtain ⟨h'', e⟩ := r
      cases e with
      | some e => exact ⟨hnew, by simp⟩
      | none => exact ⟨hnew, fun _ => hall rfl⟩

/-- All starts: the chain is a front of `Isolate`'s rules over the chain that
the same starts build without it, and holds all of them once one start has
completed `Isolate`. -/
theorem layered_of_run (hr : (machine init).Run tr h) :
    ∃ front, Layered front h ((tr.map (·.act)).foldl withoutIsolate init) ∧
      ((∃ e ∈ tr, .isolated ∈ e.out) → ∀ c ∈ isolateRules vpnCIDR, c.rule ∈ front) := by
  induction hr with
  | nil => exact ⟨[], ⟨rfl, rfl, by simp⟩, by simp⟩
  | @snoc tr h h' s o _ hs ih =>
    obtain ⟨front, hl, hall⟩ := ih
    obtain ⟨rfl, rfl⟩ : (s.run h).1 = h' ∧ [(s.run h).2] = o := by simpa [machine] using hs
    obtain ⟨new, hnew, hdone⟩ := hl.start s
    refine ⟨new ++ front, by simpa using hnew, ?_⟩
    rintro ⟨e, he, hout⟩ c hc
    rcases List.mem_append.mp he with he | he
    · exact List.mem_append_right _ (hall ⟨e, he, hout⟩ c hc)
    · obtain rfl := List.mem_singleton.mp he
      exact List.mem_append_left _ (hdone (List.mem_singleton.mp hout).symm c hc)

/-! ### Verdicts -/

variable {p : Packet X} {policy : Target} {c : RuleSpec}

/-- The packets that `Isolate` is to stop. -/
def Forbidden (p : Packet X) : Prop :=
  vpnCIDR.contains (.v4 p.src) = true ∧ (vpnCIDR.contains (.v4 p.dst) = true ∨
    ∃ cidr ∈ privateCIDRs, cidr.contains (.v4 p.dst) = true)

/-- A rule of `Isolate` is about packets from the VPN, and drops them. -/
theorem src_of_isolateRules (hc : c ∈ isolateRules vpnCIDR) {v : Target} (hv : c.rule p = some v) :
    vpnCIDR.contains (.v4 p.src) = true ∧ v = .drop := by
  have hsrc : c.src = some vpnCIDR ∧ c.target = .drop := by
    rcases List.mem_cons.mp hc with rfl | hc
    · exact ⟨rfl, rfl⟩
    · obtain ⟨cidr, -, rfl⟩ := List.mem_map.mp hc
      exact ⟨rfl, rfl⟩
  unfold RuleSpec.rule at hv
  split at hv
  · rename_i hit
    obtain rfl := Option.some.inj hv
    simp only [RuleSpec.hits, hsrc.1, Option.all_some, Bool.and_eq_true] at hit
    exact ⟨hit.1.1.1.1, hsrc.2⟩
  · cases hv

/-- Each forbidden packet has a rule. -/
theorem exists_rule_of_forbidden (hp : Forbidden p) :
    ∃ c ∈ isolateRules vpnCIDR, (c.rule p).isSome := by
  obtain ⟨hsrc, hdst | ⟨cidr, hmem, hdst⟩⟩ := hp
  · exact ⟨_, List.mem_cons_self, by simp [RuleSpec.rule, RuleSpec.hits, hsrc, hdst]⟩
  · refine ⟨_, List.mem_cons_of_mem _ (List.mem_map_of_mem hmem), ?_⟩
    simp [RuleSpec.rule, RuleSpec.hits, hsrc, hdst]

/-- **Tenant isolation**, whatever the chain and its policy were before the
first start, and however many starts there were: once one of them has
completed `Isolate`, every forbidden packet is dropped; and the verdict on a
packet from outside the VPN is always the one of the chain that the same
starts build without `Isolate`. -/
theorem isolation (hr : (machine init).Run tr h) (policy : Target) (p : Packet X) :
    ((∃ e ∈ tr, .isolated ∈ e.out) → Forbidden p → verdict policy h.forward p = .drop) ∧
      (vpnCIDR.contains (.v4 p.src) = false → verdict policy h.forward p =
        verdict policy ((tr.map (·.act)).foldl withoutIsolate init).forward p) := by
  obtain ⟨front, hl, hall⟩ := layered_of_run hr
  rw [hl.forward]
  constructor
  · intro hdone hp
    refine verdict_append_of_some (fun r hr' w hw => ?_) ?_
    · obtain ⟨c, hc, rfl⟩ := hl.rules r hr'
      exact (src_of_isolateRules hc hw).2
    · obtain ⟨c, hc, hsome⟩ := exists_rule_of_forbidden hp
      exact ⟨c.rule, hall hdone c hc, hsome⟩
  · intro hsrc
    refine verdict_append_of_none fun r hr' => ?_
    obtain ⟨c, hc, rfl⟩ := hl.rules r hr'
    by_contra hne
    obtain ⟨v, hv⟩ := Option.ne_none_iff_exists'.mp hne
    have hin := (src_of_isolateRules hc hv).1
    rw [hsrc] at hin
    cases hin

/-- A host that accepts everything, and two starts, of which the first fails
in the middle of `Isolate`: a packet from one client to another is dropped,
and one from outside is accepted, as it was. -/
theorem isolation_two_starts :
    ∃ (tr : List (Event (Host Unit) Start Outcome)) (h : Host Unit),
      (machine { forward := [fun _ => some .accept] }).Run tr h ∧
      (tr.map (·.out) = [[.fatal "isolate: Resource temporarily unavailable"], [.isolated]]) ∧
      verdict .accept h.forward ⟨0x0a630002#32, 0x0a630003#32, "tun0", "tun0", .new, ()⟩ = .drop ∧
      verdict .drop h.forward ⟨0x08080808#32, 0x0a630002#32, "eth0", "tun0", .new, ()⟩ =
        .accept := by
  obtain ⟨tr, h, hr, hdone, hout, hacts⟩ :=
    (machine (X := Unit) { forward := [fun _ => some .accept] }).exists_run
      [{ isolateErr := fun i => if i = 2 then some "Resource temporarily unavailable" else none },
        {}]
      (P := fun r => (∃ e ∈ r.1, Outcome.isolated ∈ e.out) ∧
        r.1.map (·.out) = [[.fatal "isolate: Resource temporarily unavailable"], [.isolated]] ∧
        verdict .drop ((r.1.map (·.act)).foldl withoutIsolate
          { forward := [fun _ => some .accept] }).forward
          (⟨0x08080808#32, 0x0a630002#32, "eth0", "tun0", .new, ()⟩ : Packet Unit) = .accept)
      (by decide +kernel)
  refine ⟨tr, h, hr, hout, (isolation hr _ _).1 hdone ?_, ?_⟩
  · exact ⟨by decide, Or.inl (by decide)⟩
  · rw [(isolation hr _ _).2 (by decide)]
    exact hacts

end
end Netcfg
end Revquic
