import RgspCast.Lib.Transition
import Mathlib.Data.Nat.Notation

/-!
# The session manager

`SessionManager` keeps one session behind a lock. `launch_session` and `start_session` take the
session out, work on it without the lock, and put back what became of it, without a look at what the
manager has by then; `stop_session` and the watchdog reset the manager in between. The handles for
the host's encoder are put in by one `start_session` and taken out by a reset.

A session is its number. Each handle, key channel and stream context is the number of the session it
was made for, each shutdown manager a number of its own.
-/

namespace RgspCast.SessionManager

abbrev SessionId := ℕ

abbrev StopId := ℕ

inductive SessionState where
  | initialized (x : SessionId)
  | launched (x : SessionId)
  | active (x : SessionId)
  deriving DecidableEq

def SessionState.id : SessionState → SessionId
  | .initialized x | .launched x | .active x => x

/-- `SessionManagerInner`, what the lock protects. -/
structure Inner where
  session : Option SessionState
  stop : StopId
  keysTx : Option SessionId
  videoStreamContext : Option SessionId
  audioStreamContext : Option SessionId
  activeVideoContext : Option SessionId
  videoFrameTx : Option SessionId
  audioFrameTx : Option SessionId
  encoderControlRx : Option SessionId
  inputRx : Option SessionId
  /-- Whether a watchdog runs. -/
  stopWatcher : Bool
  deriving DecidableEq

/-- `reset_session`; the shutdown manager is a new one. -/
def Inner.resetSession (m : Inner) : Inner where
  session := none
  stop := m.stop + 1
  keysTx := none
  videoStreamContext := none
  audioStreamContext := none
  activeVideoContext := none
  videoFrameTx := none
  audioFrameTx := none
  encoderControlRx := none
  inputRx := none
  stopWatcher := false

/-- A `start_session` between its two locks: the launched session and the contexts it took. -/
structure Starting where
  session : SessionId
  videoStreamContext : Option SessionId
  audioStreamContext : Option SessionId
  deriving DecidableEq

/-- The manager, and the calls that are between two locks. `users` tells which sessions, or their
streams, were given which shutdown manager. -/
structure State where
  inner : Inner
  launching : List SessionId
  starting : List Starting
  /-- The number of the next session. -/
  born : SessionId
  users : List (SessionId × StopId)
  deriving DecidableEq

def init : State where
  inner :=
    { session := none, stop := 0, keysTx := none, videoStreamContext := none,
      audioStreamContext := none, activeVideoContext := none, videoFrameTx := none,
      audioFrameTx := none, encoderControlRx := none, inputRx := none, stopWatcher := false }
  launching := []
  starting := []
  born := 0
  users := []

/-- What is done under one lock. `ok` is whether the session could be made, launched or started. -/
inductive Op where
  | initializeSession (ok : Bool)
  /-- `launch_session` takes the session. -/
  | launchSession
  /-- `launch_session` puts back the launched session, or resets. -/
  | launched (x : SessionId) (ok : Bool)
  /-- A `launch_session` that is given up between its locks. -/
  | launchDropped (x : SessionId)
  | setStreamContext
  /-- `start_session` takes the session and the contexts. -/
  | startSession
  /-- `start_session` puts in the active session and its handles, or resets. -/
  | started (t : Starting) (ok : Bool)
  | stopSession
  /-- The watchdog resets the manager. -/
  | watchdog
  deriving DecidableEq

/-- The active session and the handles of its streams. -/
def Inner.activate (m : Inner) (x context : SessionId) : Inner :=
  { m with
    session := some (.active x)
    activeVideoContext := some context
    videoFrameTx := some x
    audioFrameTx := some x
    encoderControlRx := some x
    inputRx := some x }

def initializeSession (s : State) (ok : Bool) : State :=
  if s.inner.session.isSome ∨ s.inner.keysTx.isSome ∨ !ok then s
  else
    { s with
      inner :=
        { s.inner with
          session := some (.initialized s.born)
          keysTx := some s.born
          stopWatcher := true }
      born := s.born + 1
      users := (s.born, s.inner.stop) :: s.users }

def startSession (s : State) : State :=
  let inner := { s.inner with videoStreamContext := none, audioStreamContext := none }
  match s.inner.session with
  | some (.launched x) =>
    { s with
      inner := { inner with session := none }
      starting :=
        ⟨x, s.inner.videoStreamContext, s.inner.audioStreamContext⟩ :: s.starting
      users := (x, s.inner.stop) :: s.users }
  -- a rejection or a resume: the contexts are taken out all the same
  | _ => { s with inner }

def started (s : State) (t : Starting) (ok : Bool) : State :=
  let s := { s with starting := s.starting.erase t }
  match t.videoStreamContext, t.audioStreamContext with
  | some context, some _ =>
    { s with inner := if ok then s.inner.activate t.session context else s.inner.resetSession }
  -- the error drops the launched session, and leaves the rest of the manager as it is
  | _, _ => s

/-- `stop_session`, up to the trigger. -/
def Inner.stopSession (m : Inner) : Inner :=
  if m.session.isSome then m.resetSession else m

def step (s : State) : Op → Option State
  | .initializeSession ok => some (initializeSession s ok)
  | .launchSession =>
    match s.inner.session with
    | some (.initialized x) =>
      some { s with inner := { s.inner with session := none }, launching := x :: s.launching }
    | _ => some s
  | .launched x ok =>
    if x ∈ s.launching then
      some { s with
        inner :=
          if ok then { s.inner with session := some (.launched x) } else s.inner.resetSession
        launching := s.launching.erase x }
    else none
  | .launchDropped x =>
    if x ∈ s.launching then some { s with launching := s.launching.erase x } else none
  | .setStreamContext =>
    match s.inner.session with
    | some (.launched x) =>
      some { s with
        inner := { s.inner with videoStreamContext := some x, audioStreamContext := some x } }
    | _ => some s
  | .startSession => some (startSession s)
  | .started t ok => if t ∈ s.starting then some (started s t ok) else none
  | .stopSession => some { s with inner := s.inner.stopSession }
  | .watchdog =>
    if s.inner.stopWatcher then some { s with inner := s.inner.resetSession } else none

/-- The sessions that a `stop_session` stops: the one the manager drops, and those that were given
the shutdown manager it triggers. -/
def State.stopped (s : State) : List SessionId :=
  match s.inner.session with
  | some st => st.id :: (s.users.filter fun u => u.2 = s.inner.stop).map (·.1)
  | none => []

/-! ## What one operation does -/

variable {s s' : State} {x : SessionId}

/-- The effects an operation can have, and when. -/
inductive Effect (s : State) (op : Op) : State → Prop
  | initialized (hop : op = .initializeSession true) (hsession : s.inner.session = none)
      (hkeys : s.inner.keysTx = none) :
      Effect s op
        { s with
          inner :=
            { s.inner with
              session := some (.initialized s.born)
              keysTx := some s.born
              stopWatcher := true }
          born := s.born + 1
          users := (s.born, s.inner.stop) :: s.users }
  | launching (x : SessionId) (hx : s.inner.session = some (.initialized x)) :
      Effect s op
        { s with inner := { s.inner with session := none }, launching := x :: s.launching }
  | launched (x : SessionId) (hop : op = .launched x true) :
      Effect s op
        { s with
          inner := { s.inner with session := some (.launched x) }
          launching := s.launching.erase x }
  | announced (x : SessionId) (hx : s.inner.session = some (.launched x)) :
      Effect s op
        { s with
          inner := { s.inner with videoStreamContext := some x, audioStreamContext := some x } }
  | starting (x : SessionId) (hx : s.inner.session = some (.launched x)) :
      Effect s op
        { s with
          inner :=
            { s.inner with
              session := none
              videoStreamContext := none
              audioStreamContext := none }
          starting :=
            ⟨x, s.inner.videoStreamContext, s.inner.audioStreamContext⟩ :: s.starting
          users := (x, s.inner.stop) :: s.users }
  | contextsLost :
      Effect s op
        { s with
          inner := { s.inner with videoStreamContext := none, audioStreamContext := none } }
  | started (t : Starting) (context : SessionId) (hop : op = .started t true)
      (ht : t ∈ s.starting) (hvideo : t.videoStreamContext = some context)
      (haudio : t.audioStreamContext ≠ none) :
      Effect s op
        { s with inner := s.inner.activate t.session context, starting := s.starting.erase t }
  | reset (launching : List SessionId) (starting : List Starting)
      (hstarting : starting ⊆ s.starting) :
      Effect s op
        { s with inner := s.inner.resetSession, launching := launching, starting := starting }
  /-- A call is given up, or finds nothing to do. -/
  | dropped (launching : List SessionId) (starting : List Starting)
      (hstarting : starting ⊆ s.starting) :
      Effect s op { s with launching := launching, starting := starting }

/-- What `initialize_session` can do. -/
theorem effect_of_initialize (s : State) (ok : Bool) :
    Effect s (.initializeSession ok) (initializeSession s ok) := by
  unfold initializeSession
  split
  next => exact .dropped s.launching s.starting fun _ => id
  next hfree =>
    simp only [not_or, Bool.not_eq_true, Option.isSome_eq_false_iff, Option.isNone_iff_eq_none]
      at hfree
    obtain ⟨hsession, hkeys, hok⟩ := hfree
    cases ok with
    | true => exact .initialized rfl hsession hkeys
    | false => cases hok

/-- What `start_session` can do. -/
theorem effect_of_start (s : State) : Effect s .startSession (startSession s) := by
  unfold startSession
  split
  next x hx => exact .starting x hx
  next => exact .contextsLost

/-- What the end of a start can do. -/
theorem effect_of_started {t : Starting} {ok : Bool} (ht : t ∈ s.starting) :
    Effect s (.started t ok) (started s t ok) := by
  unfold started
  dsimp only
  split
  next context _ hvideo haudio =>
    cases ok with
    | false => exact .reset s.launching _ List.erase_subset
    | true => exact .started t context rfl ht hvideo (by rw [haudio]; nofun)
  -- announced without one of the streams: the launched session is dropped
  next => exact .dropped s.launching _ List.erase_subset

/-- All that a step can do. -/
theorem effect_of_step {op : Op} (h : step s op = some s') : Effect s op s' := by
  cases op with
  | initializeSession ok =>
    obtain rfl := Option.some.inj h
    exact effect_of_initialize s ok
  | launchSession =>
    simp only [step] at h
    split at h
    next x hx =>
      obtain rfl := Option.some.inj h
      exact .launching x hx
    next =>
      obtain rfl := Option.some.inj h
      exact .dropped s.launching s.starting fun _ => id
  | launched x ok =>
    obtain ⟨-, rfl⟩ := Option.ite_some_none_eq_some.mp h
    cases ok with
    | false => exact .reset _ s.starting fun _ => id
    | true => exact .launched x rfl
  | launchDropped x =>
    obtain ⟨-, rfl⟩ := Option.ite_some_none_eq_some.mp h
    exact .dropped _ s.starting fun _ => id
  | setStreamContext =>
    simp only [step] at h
    split at h
    next x hx =>
      obtain rfl := Option.some.inj h
      exact .announced x hx
    next =>
      obtain rfl := Option.some.inj h
      exact .dropped s.launching s.starting fun _ => id
  | startSession =>
    obtain rfl := Option.some.inj h
    exact effect_of_start s
  | started t ok =>
    obtain ⟨ht, rfl⟩ := Option.ite_some_none_eq_some.mp h
    exact effect_of_started ht
  | stopSession =>
    obtain rfl := Option.some.inj h
    unfold Inner.stopSession
    split
    next => exact .reset s.launching s.starting fun _ => id
    next => exact .dropped s.launching s.starting fun _ => id
  | watchdog =>
    obtain ⟨-, rfl⟩ := Option.ite_some_none_eq_some.mp h
    exact .reset s.launching s.starting fun _ => id

/-! ## Orderly operations -/

/-- Whether the operation puts a session into the manager. -/
def PutsIn (s : State) : Op → Prop
  | .initializeSession true => s.inner.session = none ∧ s.inner.keysTx = none
  | .launched _ true => True
  | .started t true => t.videoStreamContext ≠ none ∧ t.audioStreamContext ≠ none
  | _ => False

/-- A session is put back only into a manager whose key channel is still its own, after a start also
into one that has none; and a launched one only where no streams run. -/
def Orderly (s : State) : Op → Prop
  | .launched x true => s.inner.keysTx = some x ∧ s.inner.videoFrameTx = none
  | .started t true =>
    t.videoStreamContext ≠ none ∧ t.audioStreamContext ≠ none →
      s.inner.keysTx = none ∨ s.inner.keysTx = some t.session
  | _ => True

instance decidablePutsIn (s : State) : (op : Op) → Decidable (PutsIn s op)
  | .initializeSession true => inferInstanceAs (Decidable (_ ∧ _))
  | .started _ true => inferInstanceAs (Decidable (_ ∧ _))
  | .launched _ true => isTrue trivial
  | .initializeSession false | .launched _ false | .started _ false => isFalse id
  | .launchSession | .launchDropped _ | .setStreamContext | .startSession => isFalse id
  | .stopSession | .watchdog => isFalse id

instance decidableOrderly (s : State) : (op : Op) → Decidable (Orderly s op)
  | .launched _ true => inferInstanceAs (Decidable (_ ∧ _))
  | .started _ true => inferInstanceAs (Decidable (_ → _))
  | .launched _ false | .started _ false | .initializeSession _ | .launchSession => isTrue trivial
  | .launchDropped _ | .setStreamContext | .startSession | .stopSession => isTrue trivial
  | .watchdog => isTrue trivial

/-- What orderly operations keep: all handles are of the active session; the key channel is the
session's, and the shutdown manager is used by the owner of the key channel only. -/
structure Tidy (s : State) : Prop where
  handles : ∀ x, s.inner.activeVideoContext = some x ∨ s.inner.audioFrameTx = some x ∨
    s.inner.encoderControlRx = some x ∨ s.inner.inputRx = some x → s.inner.videoFrameTx = some x
  active : ∀ x, s.inner.videoFrameTx = some x → s.inner.session = some (.active x)
  keys : ∀ st, s.inner.session = some st →
    s.inner.keysTx = some st.id ∨ s.inner.keysTx = none ∧ st = .active st.id
  announced : ∀ x, s.inner.videoStreamContext = some x → s.inner.keysTx = some x ∧
    (s.inner.session = some (.launched x) ∨ s.inner.session = some (.active x))
  starting : ∀ t ∈ s.starting, ∀ x, t.videoStreamContext = some x → x = t.session
  users : ∀ u ∈ s.users, u.2 ≤ s.inner.stop ∧ (u.2 = s.inner.stop → s.inner.keysTx = some u.1)

/-- There is nothing to be tidy about. -/
theorem tidy_init : Tidy init :=
  ⟨nofun, nofun, nofun, nofun, nofun, nofun⟩

/-- A reset leaves nothing that could be of the wrong session. -/
theorem Tidy.reset (hs : Tidy s) {launching : List SessionId} {starting : List Starting}
    (hstarting : starting ⊆ s.starting) :
    Tidy { s with
      inner := s.inner.resetSession, launching := launching, starting := starting } where
  handles := nofun
  active := nofun
  keys := nofun
  announced := nofun
  starting := fun t ht => hs.starting t (hstarting ht)
  users := fun u hu => by
    have hle : u.2 ≤ s.inner.stop := (hs.users u hu).1
    exact ⟨Nat.le_succ_of_le hle, fun h => absurd h (Nat.ne_of_lt (Nat.lt_succ_of_le hle))⟩

/-- Where there is no active session there are no handles. -/
theorem Tidy.no_handles (hs : Tidy s) (h : ∀ x, s.inner.session ≠ some (.active x)) :
    s.inner.videoFrameTx = none :=
  Option.eq_none_iff_forall_ne_some.mpr fun x hx => h x (hs.active x hx)

/-- A session that is not active has its key channel in the manager. -/
theorem Tidy.own_keys (hs : Tidy s) {st : SessionState} (hst : s.inner.session = some st)
    (h : st ≠ .active st.id) : s.inner.keysTx = some st.id :=
  (hs.keys st hst).resolve_right fun hnone => h hnone.2

/-- **Orderly operations keep the manager tidy.** -/
theorem tidy_of_step {op : Op} (h : step s op = some s') (hok : Orderly s op) (hs : Tidy s) :
    Tidy s' := by
  cases effect_of_step h with
  -- the shutdown manager the new session gets was nobody's: there was no key channel
  | initialized _ hsession hkeys =>
    have hframe := hs.no_handles (by rw [hsession]; nofun)
    refine ⟨hs.handles, fun y hy => ?_, fun st hst => Or.inl ?_, fun y hy => ?_, hs.starting,
      List.forall_mem_cons.mpr ⟨⟨Nat.le_refl _, fun _ => rfl⟩, fun u hu => ?_⟩⟩
    · exact absurd (hframe.symm.trans hy) nofun
    · obtain rfl := Option.some.inj hst
      rfl
    · exact absurd (hkeys.symm.trans (hs.announced y hy).1) nofun
    · obtain ⟨hle, hkeys'⟩ := hs.users u hu
      exact ⟨hle, fun h => absurd (hkeys.symm.trans (hkeys' h)) nofun⟩
  | launching x hx =>
    have hframe := hs.no_handles (by rw [hx]; nofun)
    refine ⟨hs.handles, fun y hy => ?_, nofun, fun y hy => ?_, hs.starting, hs.users⟩
    · exact absurd (hframe.symm.trans hy) nofun
    · rcases (hs.announced y hy).2 with hsession | hsession
      all_goals
        rw [hx] at hsession
        cases hsession
  | launched x hop =>
    subst hop
    obtain ⟨hkeys, hframe⟩ := hok
    refine ⟨hs.handles, fun y hy => ?_, fun st hst => Or.inl ?_, fun y hy => ?_, hs.starting,
      hs.users⟩
    · exact absurd (hframe.symm.trans hy) nofun
    · obtain rfl := Option.some.inj hst
      exact hkeys
    · obtain ⟨hkeys', -⟩ := hs.announced y hy
      obtain rfl := Option.some.inj (hkeys.symm.trans hkeys')
      exact ⟨hkeys, Or.inl rfl⟩
  | announced x hx =>
    refine ⟨hs.handles, hs.active, hs.keys, fun y hy => ?_, hs.starting, hs.users⟩
    obtain rfl := Option.some.inj hy
    exact ⟨hs.own_keys hx nofun, Or.inl hx⟩
  -- the contexts it takes are its own: they were announced under its key channel
  | starting x hx =>
    have hframe := hs.no_handles (by rw [hx]; nofun)
    have hkeys : s.inner.keysTx = some x := hs.own_keys hx nofun
    refine ⟨hs.handles, fun y hy => ?_, nofun, nofun,
      List.forall_mem_cons.mpr ⟨fun y hy => ?_, hs.starting⟩,
      List.forall_mem_cons.mpr ⟨⟨Nat.le_refl _, fun _ => hkeys⟩, hs.users⟩⟩
    · exact absurd (hframe.symm.trans hy) nofun
    · have hkeys' := (hs.announced y hy).1
      exact Option.some.inj (hkeys'.symm.trans hkeys)
  | contextsLost => exact ⟨hs.handles, hs.active, hs.keys, nofun, hs.starting, hs.users⟩
  | started t context hop ht hvideo haudio =>
    subst hop
    have hkeys := hok ⟨by rw [hvideo]; nofun, haudio⟩
    have hcontext := hs.starting t ht context hvideo
    subst hcontext
    refine ⟨fun y hy => ?_, fun y hy => ?_, fun st hst => ?_, fun y hy => ?_,
      fun u hu => hs.starting u (List.mem_of_mem_erase hu), hs.users⟩
    · simpa [Inner.activate] using hy
    · obtain rfl := Option.some.inj hy
      rfl
    · obtain rfl := Option.some.inj hst
      rcases hkeys with hkeys | hkeys
      · exact Or.inr ⟨hkeys, rfl⟩
      · exact Or.inl hkeys
    · obtain ⟨hkeys', -⟩ := hs.announced y hy
      rcases hkeys with hkeys | hkeys
      · exact absurd (hkeys.symm.trans hkeys') nofun
      · obtain rfl := Option.some.inj (hkeys.symm.trans hkeys')
        exact ⟨hkeys, Or.inr rfl⟩
  | reset launching starting hstarting => exact hs.reset hstarting
  | dropped launching starting hstarting =>
    exact ⟨hs.handles, hs.active, hs.keys, hs.announced,
      fun t ht => hs.starting t (hstarting ht), hs.users⟩

/-- The manager has no session and no handle but those of `x`. -/
structure Only (x : SessionId) (m : Inner) : Prop where
  session : m.session = none ∨ m.session = some (.active x)
  handles : m.videoFrameTx = none ∨ m.videoFrameTx = some x

/-- Up to the next session that is put in, there is no other one. -/
theorem only_of_step {op : Op} (h : step s op = some s') (hno : ¬ PutsIn s op)
    (hs : Only x s.inner) : Only x s'.inner := by
  have hnot : ∀ st, s.inner.session = some st → st = .active x := fun st hst =>
    hs.session.elim (fun hnone => absurd (hnone.symm.trans hst) nofun)
      fun hactive => Option.some.inj (hst.symm.trans hactive)
  cases effect_of_step h with
  | initialized hop hsession hkeys =>
    subst hop
    exact absurd ⟨hsession, hkeys⟩ hno
  | launched y hop =>
    subst hop
    exact absurd trivial hno
  | started t context hop _ hvideo haudio =>
    subst hop
    exact absurd ⟨by rw [hvideo]; nofun, haudio⟩ hno
  -- only a session that is not active is taken out or announced
  | launching y hy | announced y hy | starting y hy => cases hnot _ hy
  | contextsLost | dropped => exact ⟨hs.session, hs.handles⟩
  | reset => exact ⟨Or.inl rfl, Or.inl rfl⟩

/-- A tidy manager that has no other session stops no other session. -/
theorem stopped_of_only (hs : Tidy s) (hx : Only x s.inner) : ∀ y ∈ s.stopped, y = x := by
  intro y hy
  unfold State.stopped at hy
  rcases hx.session with hsession | hsession
  · rw [hsession] at hy
    cases hy
  · rw [hsession] at hy
    rcases List.mem_cons.mp hy with rfl | hy
    · rfl
    · obtain ⟨u, hu, rfl⟩ := List.mem_map.mp hy
      obtain ⟨hu, hstop⟩ := List.mem_filter.mp hu
      have hkeys := (hs.users u hu).2 (of_decide_eq_true hstop)
      rcases hs.keys _ hsession with hown | ⟨hnone, -⟩
      · exact Option.some.inj (hkeys.symm.trans hown)
      · exact absurd (hkeys.symm.trans hnone) nofun

end RgspCast.SessionManager
