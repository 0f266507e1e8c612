/-
# One end of a negotiation (`internal/icewire`, `internal/directlink`)

`runDirect` makes an agent and calls `Negotiate`: send the local credentials,
hand out the candidates as the agent finds them, wait for the credentials of
the peer and connect. A goroutine of its own takes the peer's signals from
`incoming`, the first credentials to a channel of one place and every
candidate to the agent; it never ends. The control loop puts a signal into
`incoming` if there is room for it and drops it otherwise.

The agent is the environment: it says which candidates it finds and which
pair its checks select. `BeginChecks` and what becomes of the session
afterwards are in `Exit/Paths`.

Key definitions: `Endpoint`, `Tick`, `deliver`, `tick`, `Ticked`.
Key theorem: `ticked_of_tick`.
-/
import Revquic.Ice

namespace Revquic
namespace Ice

/-- Why a negotiation has failed. -/
inductive Failure
  | agent        -- `NewPionAgent`
  | credentials  -- `LocalCredentials`
  | send
  | gather
  | cancelled    -- the context is done, or the 30 s of the client are over
  | connect
  | relayPair    -- `ErrRelayPair`
  | quic
  deriving DecidableEq

/-- Where `runDirect` stands: what it does next. -/
inductive PC
  | off
  | starting                           -- make the agent
  | offering                           -- send the local credentials
  | gathering                          -- `GatherCandidates`
  | awaiting                           -- wait for the credentials of the peer
  | connecting (remote : Credentials)  -- `agent.Connect`
  | linking (remote : Credentials)     -- QUIC over the selected pair
  | up (remote : Credentials)          -- `Negotiate` has returned a connection
  | failed (err : Failure)
  deriving DecidableEq

/-- The agent may find candidates. -/
def PC.gathers : PC → Bool
  | .awaiting | .connecting _ | .linking _ | .up _ => true
  | _ => false

/-- The agent's credentials have been sent, or the negotiation is over. -/
def PC.offered : PC → Bool
  | .off | .starting | .offering => false
  | _ => true

/-- The credentials it connects with. -/
def PC.remote : PC → Option Credentials
  | .connecting r | .linking r | .up r => some r
  | _ => none

/-- One end. `gathered` and `fed` are the candidates the agent has found and
has been given so far; `offered` says that its credentials have gone out. -/
structure Endpoint where
  pc : PC := .off
  creds : Credentials := {}
  offered : Bool := false
  gathered : List Candidate := []
  incoming : List Signal := []
  reading : Bool := false
  sent : Bool := false
  remoteCreds : Option Credentials := none
  fed : List Candidate := []
  deriving DecidableEq

/-- What the environment decides, or which goroutine takes its next step. -/
inductive Tick
  | agent (creds : Option Credentials)
  | offer (ok sent : Bool)
  | gather (ok : Bool)
  | candidate (c : Candidate) (sent : Bool)  -- the agent has found one
  | read                                     -- the reader takes a signal
  | take                                     -- the credentials have come
  | cancel                                   -- or the context is done
  | connected (pair : Option (Option (CandidateType × CandidateType)))
  | linked (ok : Bool)
  deriving DecidableEq

/-- The places of `incoming`. -/
def incomingCap : ℕ := 64

namespace Endpoint

variable (e : Endpoint)

/-- The control loop has a signal. -/
def deliver (s : Signal) : Endpoint :=
  if e.incoming.length < incomingCap then { e with incoming := e.incoming ++ [s] } else e

/-- The reader has a signal. -/
def handle (s : Signal) : Endpoint :=
  match s.kind with
  | .credentials =>
    match s.creds with
    | some c => if e.sent then e else { e with sent := true, remoteCreds := some c }
    | none => e
  | .candidate =>
    match s.candidate with
    | some c => { e with fed := e.fed ++ [c] }
    | none => e
  | _ => e

/-- The signal that carries the credentials. -/
def credsSignal (sessionID : String) : Signal :=
  { sessionID, kind := .credentials, creds := some e.creds }

/-- The signal that carries a candidate. -/
def candidateSignal (sessionID : String) (c : Candidate) : Signal :=
  { sessionID, kind := .candidate, candidate := some c }

/-- The selected pair goes through a TURN server. -/
def relayed : Option (CandidateType × CandidateType) → Bool
  | some (l, r) => l = .relay || r = .relay
  | none => false

/-- One step, and what it sends. -/
def tick (sessionID : String) (p2pOnly : Bool) : Tick → Option (Endpoint × List Signal)
  | .agent creds =>
    if e.pc = .starting then
      match creds with
      | none => some ({ e with pc := .failed .agent }, [])
      | some creds => some ({ e with pc := .offering, creds }, [])
    else none
  | .offer ok sent =>
    if e.pc = .offering then
      if !ok then some ({ e with pc := .failed .credentials }, [])
      else if !sent then some ({ e with pc := .failed .send }, [])
      else some ({ e with pc := .gathering, offered := true }, [e.credsSignal sessionID])
    else none
  | .gather ok =>
    if e.pc = .gathering then
      if ok then some ({ e with pc := .awaiting, reading := true }, [])
      else some ({ e with pc := .failed .gather }, [])
    else none
  | .candidate c sent =>
    if e.pc.gathers then
      some ({ e with gathered := e.gathered ++ [c] },
        if sent then [candidateSignal sessionID c] else [])
    else none
  | .read =>
    match e.incoming with
    | [] => none
    | s :: rest => if e.reading then some ({ e with incoming := rest }.handle s, []) else none
  | .take =>
    match e.remoteCreds with
    | none => none
    | some r =>
      if e.pc = .awaiting then some ({ e with pc := .connecting r, remoteCreds := none }, [])
      else none
  | .cancel => if e.pc = .awaiting then some ({ e with pc := .failed .cancelled }, []) else none
  | .connected pair =>
    match e.pc with
    | .connecting r =>
      match pair with
      | none => some ({ e with pc := .failed .connect }, [])
      | some pair =>
        if p2pOnly && relayed pair then some ({ e with pc := .failed .relayPair }, [])
        else some ({ e with pc := .linking r }, [])
    | _ => none
  | .linked ok =>
    match e.pc with
    | .linking r => some ({ e with pc := if ok then .up r else .failed .quic }, [])
    | _ => none

end Endpoint

/-! ### What a step can do -/

section
variable {sessionID : String} {p2pOnly : Bool} {e e' : Endpoint} {t : Tick} {out : List Signal}

/-- One step: what it requires, leaves and sends. -/
inductive Ticked (sessionID : String) (p2pOnly : Bool) (e : Endpoint) :
    Tick → Endpoint → List Signal → Prop
  | agent (creds : Credentials) (pc : e.pc = .starting) :
      Ticked sessionID p2pOnly e (.agent (some creds)) { e with pc := .offering, creds } []
  | offer (pc : e.pc = .offering) :
      Ticked sessionID p2pOnly e (.offer true true) { e with pc := .gathering, offered := true }
        [e.credsSignal sessionID]
  | gather (pc : e.pc = .gathering) :
      Ticked sessionID p2pOnly e (.gather true) { e with pc := .awaiting, reading := true } []
  | candidate (c : Candidate) (sent : Bool) (pc : e.pc.gathers = true) :
      Ticked sessionID p2pOnly e (.candidate c sent) { e with gathered := e.gathered ++ [c] }
        (if sent then [Endpoint.candidateSignal sessionID c] else [])
  | read (s : Signal) (rest : List Signal) (reading : e.reading = true)
      (incoming : e.incoming = s :: rest) :
      Ticked sessionID p2pOnly e .read ({ e with incoming := rest }.handle s) []
  | take (r : Credentials) (pc : e.pc = .awaiting) (creds : e.remoteCreds = some r) :
      Ticked sessionID p2pOnly e .take { e with pc := .connecting r, remoteCreds := none } []
  | connected (r : Credentials) (pair : Option (CandidateType × CandidateType))
      (pc : e.pc = .connecting r) (ok : (p2pOnly && Endpoint.relayed pair) = false) :
      Ticked sessionID p2pOnly e (.connected (some pair)) { e with pc := .linking r } []
  | linked (r : Credentials) (pc : e.pc = .linking r) :
      Ticked sessionID p2pOnly e (.linked true) { e with pc := .up r } []
  | fail (t : Tick) (err : Failure) (pc : e.pc ≠ .off) :
      Ticked sessionID p2pOnly e t { e with pc := .failed err } []

theorem ticked_of_tick (h : e.tick sessionID p2pOnly t = some (e', out)) :
    Ticked sessionID p2pOnly e t e' out := by
  -- a step from a program counter other than `off` to `failed`
  have hfail : ∀ {pc : PC} {err : Failure}, e.pc = pc → pc ≠ .off →
      Ticked sessionID p2pOnly e t { e with pc := .failed err } [] := by
    intro pc err hpc hne
    exact .fail t err (hpc ▸ hne)
  cases t with
  | agent creds =>
    simp only [Endpoint.tick] at h
    split_ifs at h with hpc
    cases creds with
    | none => cases h; exact hfail hpc nofun
    | some creds => cases h; exact .agent creds hpc
  | offer ok sent =>
    by_cases hpc : e.pc = .offering
    · simp only [Endpoint.tick, if_pos hpc] at h
      cases ok with
      | false => cases h; exact hfail hpc nofun
      | true =>
        cases sent with
        | false => cases h; exact hfail hpc nofun
        | true => cases h; exact .offer hpc
    · simp only [Endpoint.tick, if_neg hpc] at h
      cases h
  | gather ok =>
    simp only [Endpoint.tick] at h
    split_ifs at h with hpc hok
    · cases h; subst hok; exact .gather hpc
    · cases h; exact hfail hpc nofun
  | candidate c sent =>
    simp only [Endpoint.tick] at h
    split_ifs at h with hpc hs
    · cases h; subst hs; exact .candidate c true hpc
    · cases h
      rw [Bool.not_eq_true] at hs
      subst hs
      exact .candidate c false hpc
  | read =>
    simp only [Endpoint.tick] at h
    split at h
    · cases h
    · rename_i s rest hin
      split_ifs at h with hr
      cases h
      exact .read s rest hr hin
  | take =>
    simp only [Endpoint.tick] at h
    split at h
    · cases h
    · rename_i r hr
      split_ifs at h with hpc
      cases h
      exact .take r hpc hr
  | cancel =>
    simp only [Endpoint.tick] at h
    split_ifs at h with hpc
    cases h
    exact hfail hpc nofun
  | connected pair =>
    simp only [Endpoint.tick] at h
    split at h
    · rename_i r hpc
      split at h
      · cases h; exact hfail hpc nofun
      · rename_i pair
        split_ifs at h with hp
        · cases h; exact hfail hpc nofun
        · cases h
          exact .connected r pair hpc (Bool.eq_false_of_not_eq_true hp)
    · cases h
  | linked ok =>
    simp only [Endpoint.tick] at h
    split at h
    · rename_i r hpc
      cases ok with
      | false => cases h; exact hfail hpc nofun
      | true => cases h; exact .linked r hpc
    · cases h

/-! ### What an end has sent, and what it has heard -/

/-- The end has sent this: its credentials, or a candidate of its agent. -/
def Emitted (e : Endpoint) (s : Signal) : Prop :=
  (s.kind = .credentials ∧ s.creds = some e.creds ∧ e.offered = true ∧ e.pc.offered = true) ∨
    s.kind = .candidate ∧ ∃ c ∈ e.gathered, s.candidate = some c

/-- Everything the end has taken in is from a signal that satisfies `P`. -/
structure Heeds (P : Signal → Prop) (e : Endpoint) : Prop where
  incoming : ∀ s ∈ e.incoming, P s
  creds : ∀ x, e.remoteCreds = some x ∨ e.pc.remote = some x →
    ∃ s, P s ∧ s.kind = .credentials ∧ s.creds = some x
  fed : ∀ c ∈ e.fed, ∃ s, P s ∧ s.kind = .candidate ∧ s.candidate = some c

/-- The reader changes what has been heard only. -/
theorem handle_keeps (e : Endpoint) (s : Signal) : (e.handle s).pc = e.pc ∧
    (e.handle s).creds = e.creds ∧ (e.handle s).offered = e.offered ∧
    (e.handle s).gathered = e.gathered ∧ (e.handle s).incoming = e.incoming := by
  unfold Endpoint.handle
  split
  · split
    · split_ifs <;> exact ⟨rfl, rfl, rfl, rfl, rfl⟩
    · exact ⟨rfl, rfl, rfl, rfl, rfl⟩
  · split <;> exact ⟨rfl, rfl, rfl, rfl, rfl⟩
  · exact ⟨rfl, rfl, rfl, rfl, rfl⟩

theorem deliver_keeps (e : Endpoint) (s : Signal) : ∃ incoming,
    e.deliver s = { e with incoming } ∧ ∀ x ∈ incoming, x ∈ e.incoming ∨ x = s := by
  unfold Endpoint.deliver
  split_ifs
  · exact ⟨_, rfl, fun x hx => by simpa using hx⟩
  · exact ⟨_, rfl, fun x hx => Or.inl hx⟩

theorem Emitted.creds {s : Signal} (h : Emitted e s) (hk : s.kind = .credentials) :
    s.creds = some e.creds ∧ e.offered = true := by
  rcases h with ⟨-, hc, ho, -⟩ | ⟨hk', -⟩
  · exact ⟨hc, ho⟩
  · rw [hk] at hk'
    cases hk'

theorem Emitted.candidate {s : Signal} {k : Candidate} (h : Emitted e s) (hk : s.kind = .candidate)
    (hs : s.candidate = some k) : k ∈ e.gathered := by
  rcases h with ⟨hk', -⟩ | ⟨-, c, hc, hs'⟩
  · rw [hk] at hk'
    cases hk'
  · rwa [Option.some.inj (hs.symm.trans hs')]

theorem emitted_deliver {s s' : Signal} (h : Emitted e s) : Emitted (e.deliver s') s := by
  obtain ⟨incoming, heq, -⟩ := deliver_keeps e s'
  rw [heq]
  exact h

theorem not_emitted_new (s : Signal) : ¬ Emitted {} s := by
  rintro (⟨-, -, h, -⟩ | ⟨-, c, h, -⟩) <;> cases h

/-- What has been sent stays sent. -/
theorem Ticked.emitted (h : Ticked sessionID p2pOnly e t e' out) {s : Signal} (hs : Emitted e s) :
    Emitted e' s := by
  rcases hs with ⟨hk, hc, ho, hpc⟩ | ⟨hk, c, hc, hs⟩
  · -- the credentials of the agent are settled before they are sent
    have hkeep : e'.creds = e.creds ∧ e'.offered = true ∧ e'.pc.offered = true := by
      cases h with
      | agent creds pc | offer pc => rw [pc] at hpc; cases hpc
      | candidate c sent pc => exact ⟨rfl, ho, hpc⟩
      | read s rest =>
        obtain ⟨h1, h2, h3, -⟩ := handle_keeps { e with incoming := rest } s
        exact ⟨h2, h3.trans ho, by rw [h1]; exact hpc⟩
      | _ => exact ⟨rfl, ho, rfl⟩
    exact Or.inl ⟨hk, by rw [hkeep.1]; exact hc, hkeep.2⟩
  · refine Or.inr ⟨hk, c, ?_, hs⟩
    cases h with
    | candidate c' sent pc => exact List.mem_append_left _ hc
    | read s rest =>
      rw [(handle_keeps { e with incoming := rest } s).2.2.2.1]
      exact hc
    | _ => exact hc

/-- What a step sends counts as sent. -/
theorem Ticked.sends (h : Ticked sessionID p2pOnly e t e' out) {s : Signal} (hs : s ∈ out) :
    Emitted e' s := by
  cases h with
  | offer pc =>
    rw [List.mem_singleton.mp hs]
    exact Or.inl ⟨rfl, rfl, rfl, rfl⟩
  | candidate c sent pc =>
    cases sent with
    | false => cases hs
    | true =>
      rw [List.mem_singleton.mp hs]
      exact Or.inr ⟨rfl, c, List.mem_append_right _ (List.mem_singleton_self c), rfl⟩
  | _ => cases hs

variable {P Q : Signal → Prop}

theorem heeds_new (P : Signal → Prop) (pc : PC) (h : pc.remote = none) : Heeds P { pc } where
  incoming := nofun
  creds x hx := by
    rcases hx with hx | hx
    · cases hx
    · rw [h] at hx; cases hx
  fed := nofun

theorem Heeds.mono (h : Heeds P e) (hPQ : ∀ s, P s → Q s) : Heeds Q e where
  incoming s hs := hPQ s (h.incoming s hs)
  creds x hx := by
    obtain ⟨s, hP, hs⟩ := h.creds x hx
    exact ⟨s, hPQ s hP, hs⟩
  fed c hc := by
    obtain ⟨s, hP, hs⟩ := h.fed c hc
    exact ⟨s, hPQ s hP, hs⟩

theorem Heeds.deliver (h : Heeds P e) {s : Signal} (hs : P s) : Heeds P (e.deliver s) := by
  obtain ⟨incoming, heq, hin⟩ := deliver_keeps e s
  rw [heq]
  refine ⟨fun x hx => ?_, h.creds, h.fed⟩
  rcases hin x hx with hx | rfl
  · exact h.incoming x hx
  · exact hs

theorem Heeds.handle (h : Heeds P e) {s : Signal} (hs : P s) : Heeds P (e.handle s) := by
  unfold Endpoint.handle
  split
  · rename_i hkind
    split
    · rename_i c hc
      split_ifs
      · exact h
      · refine ⟨h.incoming, fun x hx => ?_, h.fed⟩
        rcases hx with hx | hx
        · obtain rfl := Option.some.inj hx
          exact ⟨s, hs, hkind, hc⟩
        · exact h.creds x (Or.inr hx)
    · exact h
  · rename_i hkind
    split
    · rename_i c hc
      refine ⟨h.incoming, h.creds, fun x hx => ?_⟩
      rcases List.mem_append.mp hx with hx | hx
      · exact h.fed x hx
      · rw [List.mem_singleton.mp hx]
        exact ⟨s, hs, hkind, hc⟩
    · exact h
  · exact h

/-- An end takes in nothing but what has been delivered. -/
theorem Ticked.heeds (ht : Ticked sessionID p2pOnly e t e' out) (h : Heeds P e) : Heeds P e' := by
  cases ht with
  | read s rest reading incoming =>
    have hall := h.incoming
    rw [incoming, List.forall_mem_cons] at hall
    have hrest : Heeds P { e with incoming := rest } := ⟨hall.2, h.creds, h.fed⟩
    exact hrest.handle hall.1
  | take r pc creds =>
    refine ⟨h.incoming, fun x hx => ?_, h.fed⟩
    rcases hx with hx | hx
    · cases hx
    · obtain rfl := Option.some.inj hx
      exact h.creds r (Or.inl creds)
  | connected r pair pc | linked r pc =>
    refine ⟨h.incoming, fun x hx => h.creds x (hx.imp_right fun hx => ?_), h.fed⟩
    rw [pc]
    exact hx
  | candidate c sent pc => exact ⟨h.incoming, h.creds, h.fed⟩
  | agent creds pc | offer pc | gather pc | fail t err pc =>
    exact ⟨h.incoming, fun x hx => h.creds x (hx.imp_right nofun), h.fed⟩

end
end Ice
end Revquic
