import RgspCast.Moonshine.SessionManager

/-!
# The pump and the sessions it serves

`session_pump` collects the handles of a session by five calls to the manager, runs its two hardware
loops on them, and stops the session when one of the loops ends. Each call takes the manager's lock
by itself, and none says which session it is about. A session that is stopped and replaced between
two of the calls leaves the pump with handles of both, and the stop is for whichever session the
manager has by then (`not_coherent`). `coherent_of_undisturbed` says which operations decide this.
-/

namespace RgspCast.SessionPump

open SessionManager Transition

/-- The handles of one iteration, by the session they are of. -/
structure Handles where
  frameTx : SessionId
  context : Option SessionId
  audioTx : Option SessionId
  controlRx : Option SessionId
  inputRx : Option SessionId
  deriving DecidableEq

/-- The accessors behind `video_frame_sender`. -/
inductive Accessor where
  | context
  | audio
  | control
  | input
  deriving DecidableEq

/-- Where `session_pump` is. -/
inductive PumpAt where
  | waiting
  | gathering (next : Accessor) (h : Handles)
  | running (h : Handles)
  /-- Behind `stop_session`, until the other loop has ended. -/
  | joining
  | returned
  deriving DecidableEq

/-- A `stop_session` of the pump: the session of the iteration, and the sessions it stopped. -/
structure Stop where
  session : SessionId
  stopped : List SessionId
  deriving DecidableEq

structure State where
  manager : SessionManager.State
  pump : PumpAt
  /-- The handles of every iteration that ran its loops. -/
  used : List Handles
  stops : List Stop
  deriving DecidableEq

def init : State := ⟨SessionManager.init, .waiting, [], []⟩

/-- An operation on the manager, or the next step of the pump: an accessor, the end of a hardware
loop with the `stop_session` behind it, or the end of the other loop. `shutdown` is what the pump
reads where it looks. -/
inductive Action where
  | manager (op : Op)
  | pump (shutdown : Bool)
  deriving DecidableEq

/-- The next accessor. -/
def gather (s : State) (h : Handles) : Accessor → State
  | .context =>
    match s.manager.inner.activeVideoContext with
    -- the session is gone again: `session_pump` lets go of the frame sender
    | none => { s with pump := .waiting }
    | some x => { s with pump := .gathering .audio { h with context := some x } }
  | .audio =>
    { s with pump := .gathering .control { h with audioTx := s.manager.inner.audioFrameTx } }
  | .control =>
    { s with
      manager := { s.manager with inner := { s.manager.inner with encoderControlRx := none } }
      pump := .gathering .input { h with controlRx := s.manager.inner.encoderControlRx } }
  | .input =>
    let h := { h with inputRx := s.manager.inner.inputRx }
    { s with
      manager := { s.manager with inner := { s.manager.inner with inputRx := none } }
      pump := .running h
      used := h :: s.used }

def stepPump (s : State) (shutdown : Bool) : Option State :=
  match s.pump with
  | .waiting =>
    some { s with
      pump :=
        if shutdown then .returned
        else match s.manager.inner.videoFrameTx with
          | some x => .gathering .context ⟨x, none, none, none, none⟩
          | none => .waiting }
  | .gathering next h => some (gather s h next)
  -- a loop has ended; the stop is for the session that the manager has by now
  | .running h =>
    some { s with
      manager := { s.manager with inner := s.manager.inner.stopSession }
      pump := .joining
      stops := ⟨h.frameTx, s.manager.stopped⟩ :: s.stops }
  | .joining => some { s with pump := if shutdown then .returned else .waiting }
  | .returned => none

def step (s : State) : Action → Option State
  | .manager op => (SessionManager.step s.manager op).map fun manager => { s with manager }
  | .pump shutdown => stepPump s shutdown

/-- All handles are of one session. -/
structure Handles.Coherent (h : Handles) : Prop where
  context : ∀ x, h.context = some x → x = h.frameTx
  audioTx : ∀ x, h.audioTx = some x → x = h.frameTx
  controlRx : ∀ x, h.controlRx = some x → x = h.frameTx
  inputRx : ∀ x, h.inputRx = some x → x = h.frameTx

/-- Every iteration uses handles of one session, and stops no other one. -/
structure Coherent (s : State) : Prop where
  handles : ∀ h ∈ s.used, h.Coherent
  stops : ∀ stop ∈ s.stops, ∀ x ∈ stop.stopped, x = stop.session

/-- The handles of an iteration, from its first accessor to its `stop_session`. -/
def PumpAt.handles? : PumpAt → Option Handles
  | .gathering _ h | .running h => some h
  | _ => none

/-- Operations on the manager are orderly, and put no session in during an iteration. -/
def Undisturbed (s : State) : Action → Prop
  | .manager op => Orderly s.manager op ∧ (s.pump.handles? ≠ none → ¬ PutsIn s.manager op)
  | .pump _ => True

instance decidableUndisturbed (s : State) : (a : Action) → Decidable (Undisturbed s a)
  | .manager _ => inferInstanceAs (Decidable (_ ∧ _))
  | .pump _ => isTrue trivial

/-! ## Undisturbed runs -/

/-- The manager is tidy, and during an iteration it has no session but the one of the iteration. -/
structure Inv (s : State) : Prop where
  tidy : Tidy s.manager
  only : ∀ h, s.pump.handles? = some h → Only h.frameTx s.manager.inner
  gathered : ∀ h, s.pump.handles? = some h → h.Coherent
  coherent : Coherent s

variable {s s' : State}

/-- There is no session yet. -/
theorem inv_init : Inv init :=
  ⟨tidy_init, nofun, nofun, nofun, nofun⟩

/-- A handle that the manager gives out during an iteration is of the iteration's session. -/
theorem eq_of_handle {m : SessionManager.State} {x y : SessionId} (hm : Tidy m)
    (hx : Only x m.inner)
    (hy : m.inner.activeVideoContext = some y ∨ m.inner.audioFrameTx = some y ∨
      m.inner.encoderControlRx = some y ∨ m.inner.inputRx = some y) : y = x := by
  have hframe := hm.handles y hy
  rcases hx.handles with hnone | hsome
  · exact absurd (hnone.symm.trans hframe) nofun
  · exact Option.some.inj (hframe.symm.trans hsome)

/-- Taking a receiver out of the manager leaves it as tidy as it was. -/
theorem tidy_take {m : SessionManager.State} (hm : Tidy m) {control input : Option SessionId}
    (hcontrol : ∀ x, control = some x → m.inner.encoderControlRx = some x)
    (hinput : ∀ x, input = some x → m.inner.inputRx = some x) :
    Tidy { m with inner := { m.inner with encoderControlRx := control, inputRx := input } } where
  handles := by
    rintro x (h | h | h | h)
    · exact hm.handles x (Or.inl h)
    · exact hm.handles x (Or.inr (Or.inl h))
    · exact hm.handles x (Or.inr (Or.inr (Or.inl (hcontrol x h))))
    · exact hm.handles x (Or.inr (Or.inr (Or.inr (hinput x h))))
  active := hm.active
  keys := hm.keys
  announced := hm.announced
  starting := hm.starting
  users := hm.users

/-- A handle that is fetched is one of the session that is current. -/
theorem inv_of_gather {next : Accessor} {h : Handles} (hat : s.pump = .gathering next h)
    (hs : Inv s) : Inv (gather s h next) := by
  -- the handle fetched first ties the rest to its session
  have honly : Only h.frameTx s.manager.inner := hs.only h (by rw [hat]; rfl)
  have hgathered : h.Coherent := hs.gathered h (by rw [hat]; rfl)
  have heq := fun y => eq_of_handle (y := y) hs.tidy honly
  cases next with
  | context =>
    unfold gather
    dsimp only
    split
    -- no context any more: the pump gives up
    next => exact ⟨hs.tidy, nofun, nofun, ⟨hs.coherent.handles, hs.coherent.stops⟩⟩
    next x hx =>
      refine ⟨hs.tidy, fun h' hh => ?_, fun h' hh => ?_, ⟨hs.coherent.handles, hs.coherent.stops⟩⟩
      · obtain rfl := Option.some.inj hh
        exact honly
      · obtain rfl := Option.some.inj hh
        exact { hgathered with
          context := fun y hy => heq y (Or.inl (hx.trans hy)) }
  | audio =>
    refine ⟨hs.tidy, fun h' hh => ?_, fun h' hh => ?_, ⟨hs.coherent.handles, hs.coherent.stops⟩⟩
    · obtain rfl := Option.some.inj hh
      exact honly
    · obtain rfl := Option.some.inj hh
      exact { hgathered with audioTx := fun y hy => heq y (Or.inr (Or.inl hy)) }
  | control =>
    refine ⟨tidy_take hs.tidy nofun fun _ => id, fun h' hh => ?_, fun h' hh => ?_,
      ⟨hs.coherent.handles, hs.coherent.stops⟩⟩
    · obtain rfl := Option.some.inj hh
      exact ⟨honly.session, honly.handles⟩
    · obtain rfl := Option.some.inj hh
      exact { hgathered with controlRx := fun y hy => heq y (Or.inr (Or.inr (Or.inl hy))) }
  | input =>
    have hcoherent : Handles.Coherent { h with inputRx := s.manager.inner.inputRx } :=
      { hgathered with inputRx := fun y hy => heq y (Or.inr (Or.inr (Or.inr hy))) }
    refine ⟨tidy_take hs.tidy (fun _ => id) nofun, fun h' hh => ?_, fun h' hh => ?_,
      ⟨List.forall_mem_cons.mpr ⟨hcoherent, hs.coherent.handles⟩, hs.coherent.stops⟩⟩
    · obtain rfl := Option.some.inj hh
      exact ⟨honly.session, honly.handles⟩
    · obtain rfl := Option.some.inj hh
      exact hcoherent

/-- Every turn of the pump keeps the invariant, by the place it is in. -/
theorem inv_of_pump {shutdown : Bool} (h : stepPump s shutdown = some s') (hs : Inv s) :
    Inv s' := by
  have hcoherent := hs.coherent
  unfold stepPump at h
  split at h
  next hat =>
    rw [Option.some.injEq] at h
    subst h
    cases shutdown with
    | true => exact ⟨hs.tidy, nofun, nofun, ⟨hcoherent.handles, hcoherent.stops⟩⟩
    | false =>
      cases hframe : s.manager.inner.videoFrameTx with
      | none => exact ⟨hs.tidy, nofun, nofun, ⟨hcoherent.handles, hcoherent.stops⟩⟩
      -- a frame sender is an active session's, so there is no other session at the start
      | some x =>
        refine ⟨hs.tidy, fun h hh => ?_, fun h hh => ?_, ⟨hcoherent.handles, hcoherent.stops⟩⟩
        · obtain rfl := Option.some.inj hh
          exact ⟨Or.inr (hs.tidy.active x hframe), Or.inr hframe⟩
        · obtain rfl := Option.some.inj hh
          exact ⟨nofun, nofun, nofun, nofun⟩
  next next h' hat =>
    rw [Option.some.injEq] at h
    exact h ▸ inv_of_gather hat hs
  next h' hat =>
    rw [Option.some.injEq] at h
    subst h
    have hstopped := stopped_of_only hs.tidy (hs.only h' (by rw [hat]; rfl))
    have hstep : SessionManager.step s.manager .stopSession =
        some { s.manager with inner := s.manager.inner.stopSession } := rfl
    have htidy := tidy_of_step hstep trivial hs.tidy
    exact ⟨htidy, nofun, nofun,
      ⟨hcoherent.handles, List.forall_mem_cons.mpr ⟨hstopped, hcoherent.stops⟩⟩⟩
  next hat =>
    rw [Option.some.injEq] at h
    subst h
    cases shutdown <;> exact ⟨hs.tidy, nofun, nofun, ⟨hcoherent.handles, hcoherent.stops⟩⟩
  next => cases h

/-- So does every action that does not disturb the gathering. -/
theorem inv_step {a : Action} (h : step s a = some s') (hok : Undisturbed s a) (hs : Inv s) :
    Inv s' := by
  cases a with
  | manager op =>
    obtain ⟨manager, hstep, rfl⟩ := Option.map_eq_some_iff.mp h
    obtain ⟨horderly, hputs⟩ := hok
    refine ⟨tidy_of_step hstep horderly hs.tidy, fun h hh => ?_, hs.gathered,
      ⟨hs.coherent.handles, hs.coherent.stops⟩⟩
    have hno : ¬ PutsIn s.manager op := hputs (by rw [show s.pump.handles? = some h from hh]; nofun)
    exact only_of_step hstep hno (hs.only h hh)
  | pump shutdown => exact inv_of_pump h hs

/-- **One session an iteration.** In every undisturbed run the handles of each iteration are of one
session, and the pump stops no session but that one. -/
theorem coherent_of_undisturbed {as : List Action} {s : State}
    (hok : Guarded Undisturbed step init as) (hrun : run step init as = some s) : Coherent s :=
  (@run_invariant_of_guarded _ _ step _ Inv (fun _ _ _ hok h hs => inv_step h hok hs) _ _ _ hok
    hrun inv_init).coherent

/-! ## Two clients, one after the other -/

/-- A client that initializes, launches, announces and plays session `x`. -/
def client (x : SessionId) : List Action :=
  [.manager (.initializeSession true), .manager .launchSession, .manager (.launched x true),
   .manager .setStreamContext, .manager .startSession,
   .manager (.started ⟨x, some x, some x⟩ true)]

/-- The first client leaves, and the next one plays, between the first accessor and the second. -/
def replaced : List Action :=
  client 0 ++ [.pump false, .manager .stopSession] ++ client 1 ++
    [.pump false, .pump false, .pump false, .pump false]

/-- The pump feeds the video of the session that is gone, and has everything else of the new one. -/
theorem not_coherent : ¬ ∀ as s, run step init as = some s → Coherent s := by
  intro h
  have hused := (h replaced _ rfl).handles ⟨0, some 1, some 1, some 1, some 1⟩ List.mem_cons_self
  exact absurd (hused.context 1 rfl) (by decide)

/-- The same clients, the second one after the pump's `stop_session`. -/
def inTurn : List Action :=
  client 0 ++ [.pump false, .pump false, .pump false, .pump false, .pump false, .pump false,
    .pump false] ++ client 1 ++ [.pump false, .pump false, .pump false, .pump false, .pump false,
    .pump false, .pump false]

/-- Two sessions one after the other, each with its own handles. -/
theorem coherent_of_undisturbed_inTurn :
    ∃ s, run step init inTurn = some s ∧ s.used.length = 2 ∧
      s.stops = [⟨1, [1, 1, 1]⟩, ⟨0, [0, 0, 0]⟩] ∧ Coherent s := by
  have hok : Guarded Undisturbed step init inTurn := by decide
  exact ⟨_, rfl, rfl, rfl, @coherent_of_undisturbed inTurn _ hok rfl⟩

end RgspCast.SessionPump
