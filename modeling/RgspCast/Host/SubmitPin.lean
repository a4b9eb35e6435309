import RgspCast.Moonshine.Clients

/-!
# The answer of `submit_pin`

`ControlHandle::submit_pin` registers the PIN and then waits for the id to disappear from the
pending map, which it takes to mean that the pairing completed. One call runs beside everything that
happens to the map in `Clients`.

An id also disappears when a guard of its name is dropped while armed, and when a sweep finds its
entry too old, so the answer can be wrong (`submitPin_lies`). `submitPin_truth` gives the runs in
which it is right.
-/

namespace RgspCast.SubmitPin

open Transition Waiters

/-- `PAIRING_TIMEOUT`: three seconds, in nanoseconds. -/
def pairingTimeout : ℕ := 3 * 1000000000

/-- What the call answers. -/
inductive Answer where
  /-- `-32001`, "unknown client". -/
  | unknownClient
  /-- `PinResult { paired: true }`. -/
  | paired
  /-- `-32001`, "pairing did not complete; check the PIN". -/
  | notPaired
  deriving DecidableEq, Repr

/-- Where the call stands, in `submit_pin` and the loop of `wait_until_resolved`. -/
inductive Call where
  | notStarted
  /-- `register_pin` returned `Ok`. -/
  | registered
  /-- At the top of the loop. -/
  | top (deadline : ℕ)
  /-- The waiter is enabled; `still_pending` is to be asked. -/
  | enabled (deadline : ℕ) (w : Notified)
  /-- `pending_clients` has swept the map and is to read it. -/
  | swept (deadline : ℕ) (w : Notified)
  /-- Parked in `timeout_at`. -/
  | parked (deadline : ℕ) (w : Notified)
  /-- The deadline has passed; `still_pending` is asked one last time. -/
  | timedOut
  | lastSwept
  | answered (answer : Answer)
  deriving DecidableEq, Repr

/-- The call has begun and not answered yet. -/
def Call.running : Call → Bool
  | .notStarted | .answered _ => false
  | _ => true

structure State where
  clients : Clients.State
  call : Call
  /-- History: `check_client_pairing_secret` has succeeded for the id since the call began. -/
  checked : Bool

/-- No call yet, and nothing pending. -/
def init : State := ⟨Clients.init, .notStarted, false⟩

inductive Action where
  /-- A step of a pairing handler, of a pairing request, of another sweep, or of the clock. -/
  | env (a : Clients.Action)
  /-- The call runs `register_pin`; `key` is what `create_key` gives. -/
  | begin (key : Option Clients.Bytes)
  /-- `wait_until_resolved` sets its deadline. -/
  | startWait
  | enable
  /-- `still_pending`: the sweep of `pending_clients`. -/
  | sweep
  /-- `still_pending`: the read of `pending_clients`. -/
  | read
  /-- The waiter fired. -/
  | wake
  /-- The deadline passed with the waiter not fired. -/
  | timeout

/-- The check of an environment action succeeds for `id`. -/
def checks (id : String) (s : Clients.State) : Clients.Action → Bool
  | .check id' clientSecret accepted saved =>
    id' == id &&
      (Clients.checkClientPairingSecret s.pending.value id' clientSecret accepted saved).1
  | _ => false

/-- `pending_clients().iter().any(|p| p.id == id)`, once it has swept. -/
def listed (id : String) (s : Clients.State) : Bool := s.pending.value.entries.any (·.id == id)

/-- One step of the system in which the call is `submit_pin(id, _)`. -/
def step (id : String) (s : State) : Action → Option State
  | .env a =>
    (Clients.step s.clients a).map fun c =>
      { s with clients := c, checked := s.checked || checks id s.clients a }
  -- `register_pin` comes first: an unknown id is answered at once
  | .begin key =>
    match s.call, Clients.registerPin s.clients.pending.value id key with
    | .notStarted, some _ =>
      (Clients.step s.clients (.registerPin id key)).map fun c => ⟨c, .registered, false⟩
    | .notStarted, none => some { s with call := .answered .unknownClient }
    | _, _ => none
  | .startWait =>
    match s.call with
    | .registered => some { s with call := .top (s.clients.now + pairingTimeout) }
    | _ => none
  | .enable =>
    match s.call with
    | .top deadline => some { s with call := .enabled deadline s.clients.pending.notify.enable }
    | _ => none
  | .sweep =>
    match s.call with
    | .enabled deadline w =>
      (Clients.step s.clients .expire).map fun c =>
        { s with clients := c, call := .swept deadline w }
    -- the timeout looks once more before it answers
    | .timedOut =>
      (Clients.step s.clients .expire).map fun c => { s with clients := c, call := .lastSwept }
    | _ => none
  | .read =>
    match s.call with
    | .swept deadline w =>
      some { s with call := if listed id s.clients then .parked deadline w else .answered .paired }
    | .lastSwept =>
      some { s with call := .answered (if listed id s.clients then .notPaired else .paired) }
    | _ => none
  | .wake =>
    match s.call with
    | .parked deadline w =>
      -- the notification is looked at before the deadline
      if w.Fired s.clients.pending.notify then some { s with call := .top deadline } else none
    | _ => none
  | .timeout =>
    match s.call with
    | .parked deadline w =>
      if deadline ≤ s.clients.now ∧ ¬ w.Fired s.clients.pending.notify then
        some { s with call := .timedOut }
      else none
    | _ => none

/-! ## What keeps an id listed -/

/-- An id is listed if it has an entry. -/
theorem listed_eq (id : String) (s : Clients.State) :
    listed id s = (s.pending.value.get? id).isSome := by
  rw [Bool.eq_iff_iff, listed, Registry.get?, List.any_eq_true, List.find?_isSome]
  simp

/-- The step takes no entry of `id` away by a guard or by a sweep. -/
def EnvKeeps (id : String) (s : Clients.State) : Clients.Action → Prop
  | .dropGuard k => ∀ r ∈ (s.phase k).guard?, r.id ≠ id
  | .expire => ∀ c ∈ s.pending.value.entries, c.id = id →
      s.now - c.createdAt < Clients.pendingClientTtl
  | _ => True

instance (id : String) (s : Clients.State) : (a : Clients.Action) → Decidable (EnvKeeps id s a)
  | .dropGuard k => inferInstanceAs (Decidable (∀ r ∈ (s.phase k).guard?, r.id ≠ id))
  | .expire => inferInstanceAs (Decidable (∀ c ∈ s.pending.value.entries, c.id = id →
      s.now - c.createdAt < Clients.pendingClientTtl))
  | .addPending .. | .listen .. | .registerPin .. | .disarm .. | .clientChallenge ..
  | .serverChallengeResponse .. | .check .. | .announce | .tick .. => isTrue trivial

/-- A change that keeps the entries keeps the list. -/
theorem isSome_of_kept {m m' : Clients.Pending} (h : Clients.Kept m m') (id : String) :
    (m'.get? id).isSome = (m.get? id).isSome := by
  have hident := congrArg Option.isSome (h.ident id)
  rwa [Option.isSome_map, Option.isSome_map] at hident

/-- Only a guard, a sweep or a successful check takes an id off the list. -/
theorem listed_step {id : String} {s s' : Clients.State} {a : Clients.Action}
    (h : Clients.step s a = some s') (hok : EnvKeeps id s a) (hcheck : checks id s a = false)
    (hs : listed id s = true) : listed id s' = true := by
  rw [listed_eq] at hs ⊢
  cases a with
  | addPending k j pem salt name address =>
    simp only [Clients.step] at h
    split at h
    next =>
      obtain rfl := Option.some.inj h
      change ((Registry.insert _ _).get? id).isSome = true
      rw [Registry.get?_insert]
      split
      · rfl
      · exact hs
    next => cases h
  | listen k | disarm k | announce =>
    simp only [Clients.step] at h
    split at h
    next => exact Option.some.inj h ▸ hs
    next => cases h
  | registerPin j key =>
    simp only [Clients.step] at h
    split at h
    next k m hreg =>
      obtain ⟨b, key', -, -, hm⟩ := Clients.registerPin_eq_some hreg
      have hvalue : s'.pending.value = m := by
        rw [← Option.some.inj h]
        exact Clients.setPending_value _ true m
      rw [hvalue, hm]
      split
      · rfl
      · exact hs
    next => exact Option.some.inj h ▸ hs
  | dropGuard k =>
    simp only [Clients.step] at h
    split at h
    next r hr =>
      obtain rfl := Option.some.inj h
      have hne : r.id ≠ id := hok r hr
      change ((Clients.State.setPending s _ (s.pending.value.remove r.id)).pending.value.get?
        id).isSome = true
      rw [Clients.setPending_value, Registry.get?_remove, if_neg hne]
      exact hs
    next => cases h
  | clientChallenge j serverSecret serverChallenge encrypted =>
    obtain rfl := Option.some.inj h
    rw [Clients.setPending_value]
    exact (isSome_of_kept (Clients.kept_clientChallenge _ _ _ _ _) id).trans hs
  | serverChallengeResponse j decrypted signed =>
    obtain rfl := Option.some.inj h
    rw [Clients.setPending_value]
    exact (isSome_of_kept (Clients.kept_serverChallengeResponse _ _ _ _) id).trans hs
  | check j clientSecret accepted saved =>
    have hvalue : s'.pending.value =
        (Clients.checkClientPairingSecret s.pending.value j clientSecret accepted saved).2 := by
      rw [← Option.some.inj h]
      exact Clients.setPending_value _ _ _
    rw [hvalue]
    rcases Clients.checkClientPairingSecret_cases s.pending.value j clientSecret accepted saved with
      ⟨b, -, -, heq⟩ | heq
    · -- the check of another id succeeded
      have hne : j ≠ id := by
        rintro rfl
        simp [checks, heq] at hcheck
      rw [heq, Registry.get?_remove, if_neg hne]
      exact hs
    · rw [heq]
      exact hs
  | expire =>
    obtain rfl := Option.some.inj h
    rw [Clients.setPending_value, Registry.get?_retain]
    obtain ⟨c, hc⟩ := Option.isSome_iff_exists.mp hs
    obtain ⟨hmem, hid⟩ := Registry.get?_eq_some_iff.mp hc
    have hyoung := hok c hmem hid
    simp [hc, Option.filter, hyoung]
  | tick d => exact Option.some.inj h ▸ hs

/-! ## The answer -/

/-- While the call waits and no check has succeeded for the id, no guard that was registered under
the id is dropped, and no sweep finds its entry too old. -/
def KeepsEntry (id : String) (s : State) : Action → Prop
  | .env a => s.call.running → s.checked = false → EnvKeeps id s.clients a
  | .sweep => s.call.running → s.checked = false → EnvKeeps id s.clients .expire
  | _ => True

instance (id : String) (s : State) : (a : Action) → Decidable (KeepsEntry id s a)
  | .env a => inferInstanceAs (Decidable
      (s.call.running → s.checked = false → EnvKeeps id s.clients a))
  | .sweep => inferInstanceAs (Decidable
      (s.call.running → s.checked = false → EnvKeeps id s.clients .expire))
  | .begin .. | .startWait | .enable | .read | .wake | .timeout => isTrue trivial

/-- `paired: true` is answered only after a check for the id has succeeded. -/
def State.Truthful (s : State) : Prop := s.call = .answered .paired → s.checked = true

structure Inv (id : String) (s : State) : Prop where
  listed : s.call.running → s.checked = false → listed id s.clients = true
  truthful : s.Truthful

/-- No PIN has been submitted. -/
theorem inv_init (id : String) : Inv id init where
  listed := nofun
  truthful := nofun

/-- A step of the call that only moves on keeps the invariant. -/
theorem Inv.of_call {id : String} {s : State} (h : Inv id s) (hrun : s.call.running = true)
    {call : Call} (hcall : call.running = true) : Inv id { s with call := call } where
  listed := fun _ => h.listed hrun
  truthful := by
    rintro rfl
    cases hcall

/-- The id is off the list only if a check has succeeded. -/
theorem Inv.checked_of_not_listed {id : String} {s : State} (h : Inv id s)
    (hrun : s.call.running = true) (hlisted : SubmitPin.listed id s.clients = false) :
    s.checked = true := by
  by_contra hnot
  have hlisted' := h.listed hrun (Bool.eq_false_iff.mpr hnot)
  rw [hlisted] at hlisted'
  cases hlisted'

/-- A sweep of the call keeps the invariant. -/
theorem Inv.of_sweep {id : String} {s : State} (h : Inv id s) (hrun : s.call.running = true)
    (hok : KeepsEntry id s .sweep) {c : Clients.State} {call : Call}
    (hstep : Clients.step s.clients .expire = some c) (hcall : call.running = true) :
    Inv id { s with clients := c, call := call } where
  listed := fun _ hnot => listed_step hstep (hok hrun hnot) rfl (h.listed hrun hnot)
  truthful := by
    rintro rfl
    cases hcall

/-- Every step that keeps the entry keeps the invariant. -/
theorem inv_step (id : String) (s : State) (a : Action) (s' : State) (hok : KeepsEntry id s a)
    (h : step id s a = some s') (hs : Inv id s) : Inv id s' := by
  cases a with
  | env a =>
    obtain ⟨c, hc, rfl⟩ := Option.map_eq_some_iff.mp h
    constructor
    · intro hrun hnot
      -- another client's call: the entry stays listed, unless its own secret was accepted
      obtain ⟨hchecked, hcheck⟩ := Bool.or_eq_false_iff.mp hnot
      exact listed_step hc (hok hrun hchecked) hcheck (hs.listed hrun hchecked)
    · intro hans
      exact Bool.or_eq_true_iff.mpr (Or.inl (hs.truthful hans))
  | begin key =>
    simp only [step] at h
    split at h
    next p hcall hreg =>
      obtain ⟨c, hc, rfl⟩ := Option.map_eq_some_iff.mp h
      obtain ⟨k, m⟩ := p
      obtain ⟨b, key', hb, -, -⟩ := Clients.registerPin_eq_some hreg
      refine ⟨fun _ _ => listed_step hc trivial rfl ?_, nofun⟩
      rw [listed_eq, hb]
      rfl
    next =>
      obtain rfl := Option.some.inj h
      exact ⟨nofun, nofun⟩
    next => cases h
  | startWait | enable =>
    simp only [step] at h
    split at h
    next hcall =>
      obtain rfl := Option.some.inj h
      exact hs.of_call (hcall ▸ rfl) rfl
    next => cases h
  | sweep =>
    simp only [step] at h
    split at h
    next hcall =>
      obtain ⟨c, hc, rfl⟩ := Option.map_eq_some_iff.mp h
      exact hs.of_sweep (hcall ▸ rfl) hok hc rfl
    next hcall =>
      obtain ⟨c, hc, rfl⟩ := Option.map_eq_some_iff.mp h
      exact hs.of_sweep (hcall ▸ rfl) hok hc rfl
    next => cases h
  | read =>
    simp only [step] at h
    split at h
    next hcall =>
      have hrun : s.call.running = true := hcall ▸ rfl
      obtain rfl := Option.some.inj h
      cases hlisted : SubmitPin.listed id s.clients with
      | true => exact hs.of_call hrun rfl
      -- the id is gone: by the invariant its secret was accepted
      | false => exact ⟨nofun, fun _ => hs.checked_of_not_listed hrun hlisted⟩
    next hcall =>
      have hrun : s.call.running = true := hcall ▸ rfl
      obtain rfl := Option.some.inj h
      cases hlisted : SubmitPin.listed id s.clients with
      | true => exact ⟨nofun, nofun⟩
      | false => exact ⟨nofun, fun _ => hs.checked_of_not_listed hrun hlisted⟩
    next => cases h
  | wake | timeout =>
    simp only [step] at h
    split at h
    next hcall =>
      obtain ⟨-, rfl⟩ := Option.ite_some_none_eq_some.mp h
      exact hs.of_call (hcall ▸ rfl) rfl
    next => cases h

/-- A PIN is typed for the second of two clients with one id, and the first one's request is
cancelled. -/
def firstLeaves : List Action :=
  [.env (.addPending 0 "0123456789ABCDEF" "pem" [] none none), .env (.listen 0),
    .env (.addPending 1 "0123456789ABCDEF" "pem" [] none none), .env (.listen 1), .begin (some []),
    .env (.disarm 1), .startWait, .enable, .sweep, .read, .env (.dropGuard 0), .env .announce,
    .wake, .enable, .sweep, .read]

/-- The call answers `paired: true`, and no check was made. -/
theorem submitPin_lies :
    ¬ ∀ (id : String) (as : List Action) (s : State), run (step id) init as = some s →
      s.Truthful := by
  intro h
  exact absurd (h "0123456789ABCDEF" firstLeaves _ rfl rfl) (by decide)

/-- **`submit_pin` tells the truth** in every run in which the entry it waits on leaves the map by a
check only. -/
theorem submitPin_truth {id : String} {as : List Action} {s : State}
    (hok : Guarded (KeepsEntry id) (step id) init as) (hrun : run (step id) init as = some s) :
    s.Truthful :=
  (run_invariant_of_guarded (inv_step id) hok hrun (inv_init id)).truthful

/-- A client pairs while the call waits. -/
def pairs : List Action :=
  [.env (.addPending 0 "AABB" "pem" [] none none), .env (.listen 0), .begin (some [1]), .startWait,
    .enable, .sweep, .read, .env .announce, .env (.disarm 0),
    .env (.clientChallenge "AABB" (some [2]) (some [3]) true),
    .env (.serverChallengeResponse "AABB" (some [4]) true),
    .env (.check "AABB" (List.replicate 16 0) true true), .env .announce, .env .announce, .wake,
    .enable, .sweep, .read]

/-- A PIN that is submitted and leads to a pairing. -/
theorem submitPin_truth_pairs :
    ∃ s, run (step "AABB") init pairs = some s ∧ s.call = .answered .paired ∧ s.checked = true := by
  have hok : Guarded (KeepsEntry "AABB") (step "AABB") init pairs := by decide
  exact ⟨_, rfl, rfl, submitPin_truth hok rfl rfl⟩

end RgspCast.SubmitPin
