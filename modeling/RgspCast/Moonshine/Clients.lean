import RgspCast.Lib.Registry
import RgspCast.Lib.Transition
import RgspCast.Lib.Waiters

/-!
# Clients in the pairing process

`ClientManager` keeps the clients that are being paired in one map, keyed by the id the client
sends. Four paths take entries out of it: a pairing that completes (`check_client_pairing_secret`),
the TTL sweep of `pending_clients`, and a `PendingClientGuard` that is dropped while armed, by the
cancellation of its handler or by shutdown. A step of the system is one locked section of one of
these, so a schedule interleaves any number of `getservercert` handlers and requests.

The guard removes by id, whoever filed the entry. Moonlight clients share one id, so a dropped guard
can take the entry of a later handler that is still waiting (`guard_takes_anothers`);
`guard_takes_own` gives the runs in which it cannot.

What the cryptography and the state file answer is an argument of the action that asks them.
-/

namespace RgspCast.Clients

open Transition Waiters

abbrev Bytes := List UInt8

/-- A run of the `getservercert` handler. -/
abbrev HandlerId := ℕ

/-- A client that is not yet paired, but in the pairing process. -/
structure PendingClient where
  id : String
  name : Option String
  address : Option String
  pem : String
  salt : Bytes
  /-- `pin_notify`, by the handler that `add_pending` returned it to. -/
  pinNotify : HandlerId
  key : Option Bytes
  serverSecret : Option Bytes
  serverChallenge : Option Bytes
  clientHash : Option Bytes
  /-- In nanoseconds of the monotonic clock. -/
  createdAt : ℕ
  deriving DecidableEq, Repr

/-- The pending map. -/
abbrev Pending := Registry PendingClient.id

/-- `PENDING_CLIENT_TTL`: five minutes, in nanoseconds. -/
def pendingClientTtl : ℕ := 5 * 60 * 1000000000

/-! ## `ClientManager`

Each method as what it does to the map under its lock, with what it returns. -/

/-- `add_pending`. -/
def addPending (m : Pending) (id pem : String) (salt : Bytes) (name address : Option String)
    (handler : HandlerId) (now : ℕ) : Pending :=
  m.insert {
    id := id
    name := name
    address := address
    pem := pem
    salt := salt
    pinNotify := handler
    key := none
    serverSecret := none
    serverChallenge := none
    clientHash := none
    createdAt := now }

/-- `expire_stale_pending`: whether anything was removed. -/
def expireStalePending (m : Pending) (now : ℕ) : Bool × Pending :=
  let kept := m.retain fun c => now - c.createdAt < pendingClientTtl
  (kept.entries.length != m.entries.length, kept)

/-- `remove_pending`: whether the id was present. -/
def removePending (m : Pending) (id : String) : Bool × Pending :=
  ((m.get? id).isSome, m.remove id)

/-- `register_pin`, with the key `create_key` derives: the handler whose `pin_notify` it fires. -/
def registerPin (m : Pending) (id : String) (key : Option Bytes) : Option (HandlerId × Pending) :=
  match m.get? id, key with
  | some c, some key => some (c.pinNotify, m.modify id (fun c => { c with key := some key })
      fun _ => rfl)
  | _, _ => none

/-- `client_challenge`: whether it answers. `serverSecret` and `serverChallenge` are what the random
source gives, `none` where a call before it failed; `encrypted` is false where the last one
fails. -/
def clientChallenge (m : Pending) (id : String) (serverSecret serverChallenge : Option Bytes)
    (encrypted : Bool) : Bool × Pending :=
  match (m.get? id).bind (·.key), serverSecret with
  | some _, some secret =>
    let m := m.modify id (fun c => { c with serverSecret := some secret }) fun _ => rfl
    match serverChallenge with
    | some challenge =>
      (encrypted, m.modify id (fun c => { c with serverChallenge := some challenge }) fun _ => rfl)
    | none => (false, m)
  | _, _ => (false, m)

/-- `server_challenge_response`: whether it answers. -/
def serverChallengeResponse (m : Pending) (id : String) (decrypted : Option Bytes)
    (signed : Bool) : Bool × Pending :=
  match m.get? id, decrypted with
  | some c, some hash =>
    if c.key.isSome then
      (c.serverSecret.isSome && signed,
        m.modify id (fun c => { c with clientHash := some hash }) fun _ => rfl)
    else (false, m)
  | _, _ => (false, m)

/-- `verify_pairing_secret`; `accepted` is the comparison of the hashes and the signature check. -/
def verifyPairingSecret (c : PendingClient) (clientSecret : Bytes) (accepted : Bool) : Bool :=
  c.clientHash.isSome && c.serverChallenge.isSome && (16 ≤ clientSecret.length) && accepted

/-- `check_client_pairing_secret`: whether it returns `Ok`. `saved` is false where the state file
cannot be written. -/
def checkClientPairingSecret (m : Pending) (id : String) (clientSecret : Bytes)
    (accepted saved : Bool) : Bool × Pending :=
  match m.get? id with
  | some c =>
    if verifyPairingSecret c clientSecret accepted && saved then (true, m.remove id) else (false, m)
  | none => (false, m)

/-! ## The system -/

/-- What a handler registered: the id, and when. -/
structure Registration where
  id : String
  since : ℕ
  deriving DecidableEq, Repr

/-- Where a `getservercert` handler stands. -/
inductive Phase where
  | idle
  /-- `add_pending` has returned. -/
  | added (r : Registration)
  /-- Its guard is armed, and it is parked on `pin_notify`. -/
  | waiting (r : Registration)
  /-- `pin_notify` has fired; the guard is still armed. -/
  | notified (r : Registration)
  /-- The guard is disarmed and the response sent. -/
  | disarmed (r : Registration)
  /-- The handler was cancelled or shut down, and its guard dropped while armed. -/
  | dropped (r : Registration)
  deriving DecidableEq, Repr

/-- The registration of a handler that still waits for its PIN. -/
def Phase.waits? : Phase → Option Registration
  | .added r | .waiting r => some r
  | _ => none

/-- The registration an armed guard would remove if its handler was dropped now. -/
def Phase.guard? : Phase → Option Registration
  | .waiting r | .notified r => some r
  | _ => none

structure State where
  now : ℕ
  /-- The pending map, with `pending_changed`. -/
  pending : Cell Pending
  phase : HandlerId → Phase
  /-- History: the handler that registered an id last. -/
  latest : String → Option HandlerId
  /-- History: `register_pin` has reached the entry of this handler. -/
  pinned : HandlerId → Bool
  /-- History: a guard that was dropped, and the other, still waiting handler whose entry it
  took. -/
  taken : List (HandlerId × HandlerId)

/-- Nothing is pending, and no handler has started. -/
def init : State where
  now := 0
  pending := Cell.new (Registry.empty _)
  phase := fun _ => .idle
  latest := fun _ => none
  pinned := fun _ => false
  taken := []

inductive Action where
  /-- A handler calls `add_pending`. -/
  | addPending (k : HandlerId) (id pem : String) (salt : Bytes) (name address : Option String)
  /-- The handler arms its guard and waits on its `pin_notify`. -/
  | listen (k : HandlerId)
  | registerPin (id : String) (key : Option Bytes)
  /-- The handler is polled after its `pin_notify` fired, and disarms its guard. -/
  | disarm (k : HandlerId)
  /-- The handler is cancelled, or takes the shutdown branch. -/
  | dropGuard (k : HandlerId)
  | clientChallenge (id : String) (serverSecret serverChallenge : Option Bytes) (encrypted : Bool)
  | serverChallengeResponse (id : String) (decrypted : Option Bytes) (signed : Bool)
  | check (id : String) (clientSecret : Bytes) (accepted saved : Bool)
  /-- The sweep of `pending_clients`. -/
  | expire
  /-- A method that changed the map calls `pending_changed.notify_waiters()`. -/
  | announce
  /-- Time passes. -/
  | tick (d : ℕ)

/-- The map after a method; `announced` where it will call `notify_waiters` for the change. -/
def State.setPending (s : State) (announced : Bool) (m : Pending) : State :=
  { s with pending := if announced then s.pending.mutate fun _ => m
                      else { s.pending with value := m } }

def State.setPhase (s : State) (k : HandlerId) (ph : Phase) : State :=
  { s with phase := Function.update s.phase k ph }

/-- The other handler, if it still waits, whose entry is filed under the id of a guard. -/
def State.victim? (s : State) (k : HandlerId) (r : Registration) : Option HandlerId :=
  ((s.pending.value.get? r.id).map (·.pinNotify)).filter fun j =>
    j ≠ k && (s.phase j).waits?.isSome

/-- One step; `none` where it cannot be taken. -/
def step (s : State) : Action → Option State
  | .addPending k id pem salt name address =>
    match s.phase k with
    | .idle =>
      let m := addPending s.pending.value id pem salt name address k s.now
      some { (s.setPending true m).setPhase k (.added ⟨id, s.now⟩) with
        latest := Function.update s.latest id (some k) }
    | _ => none
  | .listen k =>
    match s.phase k with
    | .added r => some (s.setPhase k (.waiting r))
    | _ => none
  | .registerPin id key =>
    match registerPin s.pending.value id key with
    | some (k, m) =>
      -- a handler that is not parked yet is not woken
      let s := match s.phase k with
        | .waiting r => s.setPhase k (.notified r)
        | _ => s
      some { s.setPending true m with pinned := Function.update s.pinned k true }
    | none => some s
  | .disarm k =>
    match s.phase k with
    | .notified r => some (s.setPhase k (.disarmed r))
    | _ => none
  | .dropGuard k =>
    match (s.phase k).guard? with
    | some r =>
      let (removed, m) := removePending s.pending.value r.id
      some { (s.setPending removed m).setPhase k (.dropped r) with
        taken := ((s.victim? k r).map (k, ·)).toList ++ s.taken }
    | none => none
  | .clientChallenge id serverSecret serverChallenge encrypted =>
    let (ok, m) := clientChallenge s.pending.value id serverSecret serverChallenge encrypted
    some (s.setPending ok m)
  | .serverChallengeResponse id decrypted signed =>
    let (ok, m) := serverChallengeResponse s.pending.value id decrypted signed
    some (s.setPending ok m)
  | .check id clientSecret accepted saved =>
    let (ok, m) := checkClientPairingSecret s.pending.value id clientSecret accepted saved
    some (s.setPending ok m)
  | .expire =>
    let (removed, m) := expireStalePending s.pending.value s.now
    some (s.setPending removed m)
  | .announce => if 0 < s.pending.owed then some { s with pending := s.pending.announce } else none
  | .tick d => some { s with now := s.now + d }

@[simp] theorem setPending_value (s : State) (announced : Bool) (m : Pending) :
    (s.setPending announced m).pending.value = m := by
  cases announced <;> rfl

@[simp] theorem setPending_phase (s : State) (announced : Bool) (m : Pending) :
    (s.setPending announced m).phase = s.phase := rfl

/-! ## What the methods keep -/

/-- What no request changes about an entry once it has a key. -/
def PendingClient.ident (c : PendingClient) : HandlerId × ℕ × Option Bytes :=
  (c.pinNotify, c.createdAt, c.key)

/-- A client hash is only ever stored for a client with a key. -/
def Keyed (m : Pending) : Prop :=
  ∀ id c, m.get? id = some c → c.clientHash.isSome → c.key.isSome

/-- The same clients are pending, and `Keyed` is kept. -/
structure Kept (m m' : Pending) : Prop where
  ident : ∀ id, (m'.get? id).map PendingClient.ident = (m.get? id).map PendingClient.ident
  keyed : Keyed m → Keyed m'

theorem Kept.refl (m : Pending) : Kept m m := ⟨fun _ => rfl, id⟩

/-- One change after the other. -/
theorem Kept.trans {m m' m'' : Pending} (h : Kept m m') (h' : Kept m' m'') : Kept m m'' :=
  ⟨fun id => (h'.ident id).trans (h.ident id), fun hm => h'.keyed (h.keyed hm)⟩

/-- A change of one entry that leaves its identity, and answers only where there is a key. -/
theorem kept_modify {m : Pending} {id : String} (f : PendingClient → PendingClient)
    (hf : ∀ c, (f c).id = c.id) (hident : ∀ c, (f c).ident = c.ident)
    (hkeyed : ∀ c, m.get? id = some c → (f c).clientHash.isSome →
      c.clientHash.isSome ∨ c.key.isSome) :
    Kept m (m.modify id f hf) := by
  have hkey : ∀ c, (f c).key = c.key := fun c => congrArg (fun t => t.2.2) (hident c)
  constructor
  · intro j
    rw [Registry.get?_modify]
    split
    · rw [Option.map_map]
      exact congrArg (fun g => (m.get? j).map g) (funext hident)
    · rfl
  · intro hm j c hget hhash
    rw [Registry.get?_modify] at hget
    split at hget
    next hj =>
      subst hj
      obtain ⟨b, hb, rfl⟩ := Option.map_eq_some_iff.mp hget
      rw [hkey]
      exact (hkeyed b hb hhash).elim (hm id b hb) fun h => h
    next => exact hm j c hget hhash

/-- The challenge changes the entry of its own id at most. -/
theorem kept_clientChallenge (m : Pending) (id : String)
    (serverSecret serverChallenge : Option Bytes) (encrypted : Bool) :
    Kept m (clientChallenge m id serverSecret serverChallenge encrypted).2 := by
  have hmodify : ∀ (m : Pending) (f : PendingClient → PendingClient) (hf : ∀ c, (f c).id = c.id),
      (∀ c, (f c).ident = c.ident) → (∀ c, (f c).clientHash = c.clientHash) →
        Kept m (m.modify id f hf) := by
    intro m f hf hident hhash
    exact kept_modify f hf hident fun c _ h => Or.inl (hhash c ▸ h)
  unfold clientChallenge
  cases (m.get? id).bind (·.key) with
  | none => exact Kept.refl m
  | some _ =>
    cases serverSecret with
    | none => exact Kept.refl m
    | some secret =>
      have hsecret := hmodify m (fun c => { c with serverSecret := some secret }) (fun _ => rfl)
        (fun _ => rfl) (fun _ => rfl)
      cases serverChallenge with
      | none => exact hsecret
      | some challenge =>
        exact hsecret.trans (hmodify _ (fun c => { c with serverChallenge := some challenge })
          (fun _ => rfl) (fun _ => rfl) (fun _ => rfl))

/-- So does the response. -/
theorem kept_serverChallengeResponse (m : Pending) (id : String) (decrypted : Option Bytes)
    (signed : Bool) : Kept m (serverChallengeResponse m id decrypted signed).2 := by
  unfold serverChallengeResponse
  split
  next c hash hget =>
    split
    next hkey =>
      refine kept_modify (fun c => { c with clientHash := some hash }) (fun _ => rfl)
        (fun _ => rfl) fun b hb _ => Or.inr ?_
      rw [hget] at hb
      exact Option.some.inj hb ▸ hkey
    next => exact Kept.refl m
  next => exact Kept.refl m

/-- `register_pin` keeps every client, and gives the one with the id its key. -/
theorem registerPin_eq_some {m m' : Pending} {id : String} {key : Option Bytes} {k : HandlerId}
    (h : registerPin m id key = some (k, m')) :
    ∃ c key', m.get? id = some c ∧ c.pinNotify = k ∧
      ∀ j, m'.get? j = if id = j then some { c with key := some key' } else m.get? j := by
  unfold registerPin at h
  split at h
  next c key' hget =>
    simp only [Option.some.injEq, Prod.mk.injEq] at h
    obtain ⟨hk, rfl⟩ := h
    refine ⟨c, key', hget, hk, fun j => ?_⟩
    rw [Registry.get?_modify]
    split
    next hj => rw [← hj, hget, Option.map_some]
    next => rfl
  next => cases h

/-- A check that succeeds removes its client, which had a hash; one that fails changes nothing. -/
theorem checkClientPairingSecret_cases (m : Pending) (id : String) (clientSecret : Bytes)
    (accepted saved : Bool) :
    (∃ c, m.get? id = some c ∧ c.clientHash.isSome ∧
      checkClientPairingSecret m id clientSecret accepted saved = (true, m.remove id)) ∨
    checkClientPairingSecret m id clientSecret accepted saved = (false, m) := by
  unfold checkClientPairingSecret
  split
  next c hget =>
    split
    next hok =>
      simp only [verifyPairingSecret, Bool.and_eq_true] at hok
      exact Or.inl ⟨c, hget, hok.1.1.1.1, rfl⟩
    next => exact Or.inr rfl
  next => exact Or.inr rfl

/-! ## Whose entry a guard takes -/

/-- The handler still waits for its PIN, which it does as long as none has been registered for its
entry, and its registration has not timed out. -/
structure State.Awaits (s : State) (k : HandlerId) (r : Registration) : Prop where
  waits : (s.phase k).waits? = some r
  noPin : s.pinned k = false
  young : s.now - r.since < pendingClientTtl

structure Inv (s : State) : Prop where
  /-- Only the last registration under an id has an entry. -/
  latest : ∀ id c, s.pending.value.get? id = some c → s.latest id = some c.pinNotify
  keyed : Keyed s.pending.value
  /-- A waiting handler that registered its id last has its entry, and no key in it. -/
  listed : ∀ k r, s.Awaits k r → s.latest r.id = some k →
    ∃ c, s.pending.value.get? r.id = some c ∧ c.ident = (k, r.since, none)
  taken : s.taken = []

theorem inv_init : Inv init where
  latest := by
    intro id c h
    cases h
  keyed := by
    intro id c h
    cases h
  listed := by
    rintro k r ⟨h, -, -⟩ -
    cases h
  taken := rfl

/-- A method that keeps the clients keeps the invariant. -/
theorem Inv.of_kept {s : State} (h : Inv s) {m : Pending} (hm : Kept s.pending.value m)
    (announced : Bool) : Inv (s.setPending announced m) where
  latest := by
    intro id c hget
    rw [setPending_value] at hget
    have hident := hm.ident id
    rw [hget, Option.map_some] at hident
    obtain ⟨b, hb, hbc⟩ := Option.map_eq_some_iff.mp hident.symm
    exact (h.latest id b hb).trans (congrArg (fun t => some t.1) hbc)
  keyed := by
    rw [setPending_value]
    exact hm.keyed h.keyed
  listed := by
    intro k r haw hlatest
    obtain ⟨c, hget, hc⟩ := h.listed k r ⟨haw.waits, haw.noPin, haw.young⟩ hlatest
    have hident := hm.ident r.id
    rw [hget, Option.map_some] at hident
    obtain ⟨b, hb, hbc⟩ := Option.map_eq_some_iff.mp hident
    exact ⟨b, (setPending_value s announced m).symm ▸ hb, hbc.trans hc⟩
  taken := h.taken

/-- So does one that drops clients nobody waits with. -/
theorem Inv.of_retain {s : State} (h : Inv s) {p : PendingClient → Bool}
    (hp : ∀ k r c, s.Awaits k r → s.latest r.id = some k → s.pending.value.get? r.id = some c →
      c.ident = (k, r.since, none) → p c = true) (announced : Bool) :
    Inv (s.setPending announced (s.pending.value.retain p)) where
  latest := by
    intro id c hget
    rw [setPending_value, Registry.get?_retain, Option.filter_eq_some_iff] at hget
    exact h.latest id c hget.1
  keyed := by
    intro id c hget
    rw [setPending_value, Registry.get?_retain, Option.filter_eq_some_iff] at hget
    exact h.keyed id c hget.1
  listed := by
    intro k r haw hlatest
    have haw' : s.Awaits k r := ⟨haw.waits, haw.noPin, haw.young⟩
    obtain ⟨c, hget, hc⟩ := h.listed k r haw' hlatest
    refine ⟨c, ?_, hc⟩
    rw [setPending_value, Registry.get?_retain, Option.filter_eq_some_iff]
    exact ⟨hget, hp k r c haw' hlatest hget hc⟩
  taken := h.taken

/-- A phase change after which a handler waits no more than before keeps the invariant. -/
theorem Inv.of_phase {s : State} (h : Inv s) (k : HandlerId) (ph : Phase)
    (hph : ∀ r, ph.waits? = some r → (s.phase k).waits? = some r) : Inv (s.setPhase k ph) where
  latest := h.latest
  keyed := h.keyed
  listed := by
    intro j r haw hlatest
    refine h.listed j r ⟨?_, haw.noPin, haw.young⟩ hlatest
    have hwaits := haw.waits
    simp only [State.setPhase] at hwaits
    by_cases hj : j = k
    · subst hj
      exact hph r (Function.update_self j ph s.phase ▸ hwaits)
    · rwa [Function.update_of_ne hj] at hwaits
  taken := h.taken

/-- A new entry is that of its handler. -/
theorem Inv.addPending {s : State} (h : Inv s) {k : HandlerId} (hk : s.phase k = .idle)
    (id pem : String) (salt : Bytes) (name address : Option String) :
    Inv { (s.setPending true
        (addPending s.pending.value id pem salt name address k s.now)).setPhase k
          (.added ⟨id, s.now⟩) with latest := Function.update s.latest id (some k) } where
  latest := by
    intro j c hget
    change (Registry.insert _ _).get? j = some c at hget
    rw [Registry.get?_insert] at hget
    split at hget
    next hj =>
      obtain rfl := Option.some.inj hget
      exact hj ▸ Function.update_self id _ s.latest
    next hj =>
      have hne : j ≠ id := fun heq => hj heq.symm
      exact (Function.update_of_ne hne _ _).trans (h.latest j c hget)
  keyed := by
    intro j c hget
    change (Registry.insert _ _).get? j = some c at hget
    rw [Registry.get?_insert] at hget
    split at hget
    next =>
      obtain rfl := Option.some.inj hget
      exact fun hhash => absurd hhash Bool.noConfusion
    next => exact h.keyed j c hget
  listed := by
    intro j r haw hlatest
    have hwaits := haw.waits
    change (Function.update s.phase k (.added ⟨id, s.now⟩) j).waits? = some r at hwaits
    change Function.update s.latest id (some k) r.id = some j at hlatest
    change ∃ c, (Registry.insert _ _).get? r.id = some c ∧ _
    rw [Registry.get?_insert]
    -- the new handler waits for the entry it has just filed
    by_cases hj : j = k
    · subst hj
      rw [Function.update_self] at hwaits
      obtain rfl := Option.some.inj hwaits
      exact ⟨_, if_pos rfl, rfl⟩
    · rw [Function.update_of_ne hj] at hwaits
      -- a handler whose entry was replaced is no longer the latest for its id
      have hne : r.id ≠ id := by
        rintro rfl
        rw [Function.update_self] at hlatest
        exact hj (Option.some.inj hlatest).symm
      rw [Function.update_of_ne hne] at hlatest
      obtain ⟨c, hget, hc⟩ := h.listed j r ⟨hwaits, haw.noPin, haw.young⟩ hlatest
      exact ⟨c, (if_neg fun heq => hne heq.symm).trans hget, hc⟩
  taken := h.taken

/-- A PIN goes to the handler of the entry. -/
theorem Inv.registerPin {s : State} (h : Inv s) {id : String} {key : Option Bytes} {k : HandlerId}
    {m : Pending} (hreg : registerPin s.pending.value id key = some (k, m)) :
    Inv { s.setPending true m with pinned := Function.update s.pinned k true } := by
  obtain ⟨b, key', hb, rfl, hm⟩ := registerPin_eq_some hreg
  refine ⟨?_, ?_, ?_, h.taken⟩
  · intro j c hget
    change m.get? j = some c at hget
    rw [hm] at hget
    split at hget
    next hj =>
      obtain rfl := Option.some.inj hget
      exact hj ▸ h.latest id b hb
    next => exact h.latest j c hget
  · intro j c hget
    change m.get? j = some c at hget
    rw [hm] at hget
    split at hget
    next =>
      obtain rfl := Option.some.inj hget
      exact fun _ => rfl
    next => exact h.keyed j c hget
  · intro j r haw hlatest
    -- the handler of the entry with the id has its PIN now; every other entry is as it was
    have hpin := haw.noPin
    change Function.update s.pinned b.pinNotify true j = false at hpin
    have hj : j ≠ b.pinNotify := by
      rintro rfl
      rw [Function.update_self] at hpin
      cases hpin
    rw [Function.update_of_ne hj] at hpin
    obtain ⟨c, hget, hc⟩ := h.listed j r ⟨haw.waits, hpin, haw.young⟩ hlatest
    refine ⟨c, ?_, hc⟩
    change m.get? r.id = some c
    rw [hm, if_neg, hget]
    rintro rfl
    exact hj (Option.some.inj (hlatest.symm.trans (h.latest r.id b hb)))

/-- The guard a handler drops takes no entry another handler waits with, if the handler that
registered its id last is its own or waits no more. -/
theorem Inv.dropGuard {s : State} (h : Inv s) {k : HandlerId} {r : Registration}
    (hown : ∀ j ∈ s.latest r.id, j ≠ k → (s.phase j).waits? = none) :
    Inv { (s.setPending (removePending s.pending.value r.id).1
        (removePending s.pending.value r.id).2).setPhase k (.dropped r) with
      taken := ((s.victim? k r).map (k, ·)).toList ++ s.taken } := by
  have hvictim : s.victim? k r = none := by
    rw [State.victim?, Option.filter_eq_none_iff]
    intro j hj
    obtain ⟨c, hget, rfl⟩ := Option.map_eq_some_iff.mp hj
    by_cases hne : c.pinNotify = k
    · simp [hne]
    · simp [hown c.pinNotify (h.latest r.id c hget) hne]
  rw [hvictim]
  -- once the handler waits no more, nobody waits with the entry its guard removes
  have hphase := h.of_phase k (.dropped r) (by simp [Phase.waits?])
  refine hphase.of_retain (fun j q c haw hlatest hget hc => ?_) _
  have hwaits := haw.waits
  change (Function.update s.phase k (.dropped r) j).waits? = some q at hwaits
  have hj : j ≠ k := by
    rintro rfl
    rw [Function.update_self] at hwaits
    cases hwaits
  rw [Function.update_of_ne hj] at hwaits
  have hid : c.id = q.id := (Registry.get?_eq_some_iff.mp hget).2
  have hne : q.id ≠ r.id := by
    intro heq
    have hnone := hown j (heq ▸ hlatest) hj
    rw [hnone] at hwaits
    cases hwaits
  simpa [hid] using hne

/-- The last check drops only a client that has its key, and no handler waits with that one. -/
theorem Inv.check {s : State} (h : Inv s) (id : String) (clientSecret : Bytes)
    (accepted saved : Bool) :
    Inv (s.setPending
      (checkClientPairingSecret s.pending.value id clientSecret accepted saved).1
      (checkClientPairingSecret s.pending.value id clientSecret accepted saved).2) := by
  rcases checkClientPairingSecret_cases s.pending.value id clientSecret accepted saved with
    ⟨b, hb, hhash, heq⟩ | heq
  · rw [heq]
    refine h.of_retain (fun j q c haw hlatest hget hc => ?_) _
    have hkey : c.key = none := congrArg (fun t => t.2.2) hc
    -- the entry that is checked has its key, and one awaiting its PIN has none
    have hne : c.id ≠ id := by
      rintro rfl
      have hid : c.id = q.id := (Registry.get?_eq_some_iff.mp hget).2
      rw [hid, hget] at hb
      obtain rfl := Option.some.inj hb
      have := h.keyed _ _ hget hhash
      rw [hkey] at this
      cases this
    simpa using hne
  · rw [heq]
    exact h.of_kept (Kept.refl _) _

/-- The guard that is dropped belongs to the handler that registered its id last, or that handler
does not wait any more. -/
def DropsOwn (s : State) : Action → Prop
  | .dropGuard k =>
    ∀ r ∈ (s.phase k).guard?, ∀ j ∈ s.latest r.id, j ≠ k → (s.phase j).waits? = none
  | _ => True

instance (s : State) : (a : Action) → Decidable (DropsOwn s a)
  | .dropGuard k => inferInstanceAs (Decidable
      (∀ r ∈ (s.phase k).guard?, ∀ j ∈ s.latest r.id, j ≠ k → (s.phase j).waits? = none))
  | .addPending .. | .listen .. | .registerPin .. | .disarm .. | .clientChallenge ..
  | .serverChallengeResponse .. | .check .. | .expire | .announce | .tick .. => isTrue trivial

/-- Every step that drops a handler's own entry only keeps the invariant. -/
theorem inv_step (s : State) (a : Action) (s' : State) (hok : DropsOwn s a)
    (h : step s a = some s') (hs : Inv s) : Inv s' := by
  cases a with
  | addPending k id pem salt name address =>
    simp only [step] at h
    split at h
    next hk =>
      obtain rfl := Option.some.inj h
      exact hs.addPending hk id pem salt name address
    next => cases h
  | listen k =>
    simp only [step] at h
    split at h
    next r hk =>
      obtain rfl := Option.some.inj h
      exact hs.of_phase k _ (by simp [hk, Phase.waits?])
    next => cases h
  | registerPin id key =>
    simp only [step] at h
    split at h
    next k m hreg =>
      obtain rfl := Option.some.inj h
      split
      next r hk =>
        have hphase := hs.of_phase k (.notified r) (by simp [Phase.waits?])
        exact hphase.registerPin hreg
      next => exact hs.registerPin hreg
    next => exact Option.some.inj h ▸ hs
  | disarm k =>
    simp only [step] at h
    split at h
    next r hk =>
      obtain rfl := Option.some.inj h
      exact hs.of_phase k _ (by simp [Phase.waits?])
    next => cases h
  | dropGuard k =>
    simp only [step] at h
    split at h
    next r hk =>
      obtain rfl := Option.some.inj h
      -- the guard takes an entry, which by the condition is nobody else's
      exact hs.dropGuard (hok r hk)
    next => cases h
  | clientChallenge id serverSecret serverChallenge encrypted =>
    obtain rfl := Option.some.inj h
    exact hs.of_kept (kept_clientChallenge _ _ _ _ _) _
  | serverChallengeResponse id decrypted signed =>
    obtain rfl := Option.some.inj h
    exact hs.of_kept (kept_serverChallengeResponse _ _ _ _) _
  | check id clientSecret accepted saved =>
    obtain rfl := Option.some.inj h
    exact hs.check id clientSecret accepted saved
  | expire =>
    obtain rfl := Option.some.inj h
    refine hs.of_retain (fun j q c haw hlatest hget hc => ?_) _
    -- the sweep keeps the entries of those who are young enough to wait
    have hsince : c.createdAt = q.since := congrArg (fun t => t.2.1) hc
    simpa [hsince] using haw.young
  | announce =>
    obtain ⟨-, rfl⟩ := Option.ite_some_none_eq_some.mp h
    exact ⟨hs.latest, hs.keyed, fun k r haw => hs.listed k r ⟨haw.waits, haw.noPin, haw.young⟩,
      hs.taken⟩
  | tick d =>
    obtain rfl := Option.some.inj h
    refine ⟨hs.latest, hs.keyed, fun k r haw => hs.listed k r ⟨haw.waits, haw.noPin, ?_⟩,
      hs.taken⟩
    have hyoung : s.now + d - r.since < pendingClientTtl := haw.young
    omega

/-- What a pairing handler may rely on: no drop of another handler's guard has taken an entry whose
handler still waited, and its own entry is listed as long as it waits for its PIN (none has been
registered for the entry), its registration is young, and no later handler has used the id. -/
structure OwnEntry (s : State) : Prop where
  taken : s.taken = []
  listed : ∀ k r, s.Awaits k r → s.latest r.id = some k →
    ∃ c ∈ s.pending.value.entries, c.id = r.id ∧ c.pinNotify = k

/-- Two handlers register the id every Moonlight client sends, and the first is cancelled. -/
def secondClient : List Action :=
  [.addPending 0 "0123456789ABCDEF" "pem" [] none none, .listen 0,
    .addPending 1 "0123456789ABCDEF" "pem" [] none none, .listen 1, .dropGuard 0]

/-- The guard of the first handler takes the entry of the second. -/
theorem guard_takes_anothers :
    ¬ ∀ (as : List Action) (s : State), run step init as = some s → OwnEntry s := by
  intro h
  exact absurd (h secondClient _ rfl).taken (by decide)

/-- **A guard takes its own entry**, in every run in which no guard is dropped while a later handler
of the same id still waits. -/
theorem guard_takes_own {as : List Action} {s : State} (hok : Guarded DropsOwn step init as)
    (hrun : run step init as = some s) : OwnEntry s := by
  have hinv := run_invariant_of_guarded inv_step hok hrun inv_init
  refine ⟨hinv.taken, fun k r haw hlatest => ?_⟩
  obtain ⟨c, hget, hc⟩ := hinv.listed k r haw hlatest
  obtain ⟨hmem, hid⟩ := Registry.get?_eq_some_iff.mp hget
  exact ⟨c, hmem, hid, congrArg Prod.fst hc⟩

/-- The same two handlers, the second of which is cancelled first. -/
def secondClientLeaves : List Action :=
  [.addPending 0 "0123456789ABCDEF" "pem" [] none none, .listen 0,
    .addPending 1 "0123456789ABCDEF" "pem" [] none none, .listen 1, .dropGuard 1, .announce,
    .addPending 2 "AABB" "pem" [] none none, .dropGuard 0]

theorem guard_takes_own_secondClientLeaves :
    ∃ s, run step init secondClientLeaves = some s ∧ OwnEntry s := by
  have hok : Guarded DropsOwn step init secondClientLeaves := by decide
  exact ⟨_, rfl, guard_takes_own hok rfl⟩

end RgspCast.Clients
