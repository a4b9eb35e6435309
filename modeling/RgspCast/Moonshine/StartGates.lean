import RgspCast.Lib.Permits
import RgspCast.Lib.Transition
import RgspCast.Lib.Waiters

/-!
# The start gates

The tasks of a stream are spawned at once and wait for the client's `StartB`. The audio gate is a
flag beside a `Notify`: a task reads the flag, registers, and reads it again before it waits, so
that whoever comes late finds the flag set (`audio_gate_passes`). The video gate is a bare `Notify`
that `trigger` notifies once for each of its two tasks; with both calls ahead of both tasks one
permit is left for the two, and one of them never starts (`video_started_iff`). -/

namespace RgspCast.StartGates

open Transition Waiters

/-! ## The audio gate -/

/-- Where a task is in `AudioStartGate::wait`. -/
inductive Phase where
  /-- At the condition of the loop. -/
  | check
  /-- The flag was not set; about to call `notified`. -/
  | register
  /-- With a registered waiter, at the second look at the flag. -/
  | recheck (w : Notified)
  | waiting (w : Notified)
  | through
  deriving DecidableEq, Repr

/-- The gate, the tasks that wait at it, and the calls of `open` that have set the flag and not yet
notified. -/
structure Gate where
  started : Bool
  notify : Notify
  owed : ℕ
  tasks : ℕ → Phase

/-- `AudioStartGate::new`. -/
def Gate.new : Gate := ⟨false, ⟨0⟩, 0, fun _ => .check⟩

def Gate.setTask (g : Gate) (i : ℕ) (p : Phase) : Gate :=
  { g with tasks := fun j => if j = i then p else g.tasks j }

/-- The steps: those of `open`, and the next one of a task. -/
inductive Action where
  | store
  | notifyWaiters
  | task (i : ℕ)
  deriving DecidableEq, Repr

def Gate.step (g : Gate) : Action → Option Gate
  | .store => some { g with started := true, owed := g.owed + 1 }
  | .notifyWaiters =>
    if 0 < g.owed then some { g with notify := g.notify.notifyWaiters, owed := g.owed - 1 }
    else none
  | .task i =>
    match g.tasks i with
    | .check => some (g.setTask i (if g.started then .through else .register))
    | .register => some (g.setTask i (.recheck g.notify.enable))
    | .recheck w => some (g.setTask i (if g.started then .through else .waiting w))
    | .waiting w => if w.Fired g.notify then some (g.setTask i .check) else none
    | .through => none

@[simp] theorem Gate.setTask_started (g : Gate) (i : ℕ) (p : Phase) :
    (g.setTask i p).started = g.started := rfl
@[simp] theorem Gate.setTask_notify (g : Gate) (i : ℕ) (p : Phase) :
    (g.setTask i p).notify = g.notify := rfl
@[simp] theorem Gate.setTask_owed (g : Gate) (i : ℕ) (p : Phase) :
    (g.setTask i p).owed = g.owed := rfl
@[simp] theorem Gate.setTask_self (g : Gate) (i : ℕ) (p : Phase) :
    (g.setTask i p).tasks i = p := if_pos rfl
theorem Gate.setTask_of_ne (g : Gate) {i j : ℕ} (p : Phase) (h : j ≠ i) :
    (g.setTask i p).tasks j = g.tasks j := if_neg h

/-- A task's step moves this task and nothing else. -/
theorem Gate.step_task {g g' : Gate} {i : ℕ} (h : g.step (.task i) = some g') :
    ∃ p, g' = g.setTask i p := by
  simp only [Gate.step] at h
  cases hphase : g.tasks i with
  | check | register | recheck w =>
    rw [hphase] at h
    exact ⟨_, (Option.some.inj h).symm⟩
  | waiting w =>
    rw [hphase] at h
    simp only at h
    split_ifs at h
    exact ⟨_, (Option.some.inj h).symm⟩
  | through =>
    rw [hphase] at h
    cases h

/-- What a task may rely on where it is. -/
def Phase.Ok (g : Gate) : Phase → Prop
  | .check | .register => True
  | .recheck w => w.On g.notify
  | .waiting w => w.On g.notify ∧ (g.started → w.Fired g.notify ∨ 0 < g.owed)
  | .through => g.started = true

/-- A call of `open` that has set the flag and not notified is still owed, and no task waits for
another. -/
def Gate.Ok (g : Gate) : Prop := (g.started = false → g.owed = 0) ∧ ∀ i, (g.tasks i).Ok g

/-- A new gate is closed. -/
theorem Gate.new_ok : Gate.new.Ok := ⟨fun _ => rfl, fun _ => trivial⟩

/-- What one task does is no matter to another. -/
theorem Phase.Ok.setTask {g : Gate} {p : Phase} (h : p.Ok g) (i : ℕ) (q : Phase) :
    p.Ok (g.setTask i q) := by
  cases p <;> exact h

/-- A task that moves to a phase that is in order. -/
theorem Gate.Ok.setTask {g : Gate} (hg : g.Ok) {i : ℕ} {p : Phase} (hp : p.Ok g) :
    (g.setTask i p).Ok := by
  refine ⟨hg.1, fun j => ?_⟩
  by_cases hj : j = i
  · subst hj
    rw [Gate.setTask_self]
    exact hp.setTask j p
  · rw [Gate.setTask_of_ne g p hj]
    exact (hg.2 j).setTask i p

/-- Every step keeps the invariant, action by action. -/
theorem Gate.step_ok {g g' : Gate} {a : Action} (h : g.step a = some g') (hg : g.Ok) : g'.Ok := by
  cases a with
  | store =>
    obtain rfl := Option.some.inj h
    refine ⟨nofun, fun i => ?_⟩
    have hi := hg.2 i
    revert hi
    cases g.tasks i with
    | check | register => exact fun _ => trivial
    | recheck w => exact fun hi => hi
    | waiting w => exact fun hi => ⟨hi.1, fun _ => Or.inr (Nat.succ_pos _)⟩
    | through => exact fun _ => rfl
  | notifyWaiters =>
    simp only [Gate.step] at h
    split_ifs at h with howed
    obtain rfl := Option.some.inj h
    have hstarted : g.started = true := by
      by_contra hnot
      have := hg.1 (Bool.eq_false_iff.mpr hnot)
      omega
    refine ⟨fun hnot => absurd (hstarted.symm.trans hnot) nofun, fun i => ?_⟩
    have hi := hg.2 i
    revert hi
    cases g.tasks i with
    | check | register => exact fun _ => trivial
    | recheck w => exact fun hi => hi.notifyWaiters
    | waiting w => exact fun hi => ⟨hi.1.notifyWaiters, fun _ => Or.inl hi.1.fired_notifyWaiters⟩
    | through => exact fun hi => hi
  | task i =>
    have hi := hg.2 i
    simp only [Gate.step] at h
    cases hphase : g.tasks i with
    | check =>
      rw [hphase] at h
      obtain rfl := Option.some.inj h
      apply hg.setTask
      split_ifs with hstarted
      · exact hstarted
      · trivial
    | register =>
      rw [hphase] at h
      obtain rfl := Option.some.inj h
      exact hg.setTask (enable_on g.notify)
    | recheck w =>
      rw [hphase] at h hi
      obtain rfl := Option.some.inj h
      apply hg.setTask
      split_ifs with hstarted
      · exact hstarted
      · exact ⟨hi, fun hs => absurd hs hstarted⟩
    | waiting w =>
      rw [hphase] at h
      simp only at h
      split_ifs at h
      obtain rfl := Option.some.inj h
      exact hg.setTask trivial
    | through =>
      rw [hphase] at h
      cases h

/-- Nobody goes through before the flag is set. -/
theorem Gate.started_of_through {g : Gate} (hg : g.Ok) {i : ℕ} (h : g.tasks i = .through) :
    g.started = true := by
  have hi := hg.2 i
  rw [h] at hi
  exact hi

/-- The flag is set by `open` alone. -/
def SetByOpen (as : List Action) (g : Gate) : Prop := g.started = true → .store ∈ as

/-- The flag is set by `open` alone. -/
theorem SetByOpen.step (as : List Action) (g : Gate) (a : Action) (g' : Gate)
    (hstep : g.step a = some g') (ih : SetByOpen as g) : SetByOpen (as ++ [a]) g' := by
  intro hstarted
  cases a with
  | store => exact List.mem_append_right _ List.mem_cons_self
  | notifyWaiters =>
    simp only [Gate.step] at hstep
    split_ifs at hstep
    obtain rfl := Option.some.inj hstep
    exact List.mem_append_left _ (ih hstarted)
  | task i =>
    obtain ⟨p, rfl⟩ := Gate.step_task hstep
    exact List.mem_append_left _ (ih hstarted)

/-- A gate that has started was opened. -/
theorem mem_of_started {as : List Action} {g : Gate} (hrun : run Gate.step .new as = some g)
    (h : g.started = true) : .store ∈ as :=
  have hset : SetByOpen as g := run_history SetByOpen.step hrun nofun
  hset h

/-- How many steps a task has still to take. -/
def Phase.rank : Phase → ℕ
  | .check | .recheck _ => 1
  | .register | .waiting _ => 2
  | .through => 0

/-- A task is two steps from its end at most. -/
theorem Phase.rank_le (p : Phase) : p.rank ≤ 2 := by
  cases p with
  | check | recheck w | through => exact Nat.le_succ_of_le (by simp [Phase.rank])
  | register | waiting w => exact Nat.le_refl 2

/-- The gate is open: every task can go on. -/
structure Gate.Opened (g : Gate) : Prop where
  started : g.started = true
  fired : ∀ i w, g.tasks i = .waiting w → w.Fired g.notify

/-- A gate whose notification is out is open. -/
theorem Gate.Ok.opened {g : Gate} (hg : g.Ok) (hstarted : g.started = true) (howed : g.owed = 0) :
    g.Opened := by
  refine ⟨hstarted, fun i w hi => ?_⟩
  have hok := hg.2 i
  rw [hi] at hok
  rcases hok.2 hstarted with hfired | hpos
  · exact hfired
  · omega

/-- At an open gate every step of a task brings it forward, and nothing sets it back. -/
theorem Gate.Opened.step {g g' : Gate} {a : Action} (ho : g.Opened) (h : g.step a = some g') :
    g'.Opened ∧ ∀ i, (g'.tasks i).rank + (if a = .task i then 1 else 0) ≤ (g.tasks i).rank := by
  cases a with
  | store =>
    obtain rfl := Option.some.inj h
    exact ⟨⟨rfl, ho.fired⟩, fun i => Nat.le_refl _⟩
  | notifyWaiters =>
    simp only [Gate.step] at h
    split_ifs at h
    obtain rfl := Option.some.inj h
    exact ⟨⟨ho.started, fun i w hi => Nat.lt_succ_of_lt (ho.fired i w hi)⟩,
      fun i => Nat.le_refl _⟩
  | task i =>
    -- in an open gate no task waits any more, wherever it is
    have hmove : ∃ p, g' = g.setTask i p ∧ p.rank + 1 ≤ (g.tasks i).rank ∧
        ∀ w, p ≠ .waiting w := by
      simp only [Gate.step] at h
      cases hphase : g.tasks i with
      | check | recheck w =>
        simp only [hphase, ho.started, if_true] at h
        exact ⟨_, (Option.some.inj h).symm, Nat.le_refl _, nofun⟩
      | register =>
        rw [hphase] at h
        exact ⟨_, (Option.some.inj h).symm, Nat.le_refl _, nofun⟩
      | waiting w =>
        simp only [hphase, if_pos (ho.fired i w hphase)] at h
        exact ⟨_, (Option.some.inj h).symm, Nat.le_refl _, nofun⟩
      | through =>
        rw [hphase] at h
        cases h
    obtain ⟨p, rfl, hrank, hwaiting⟩ := hmove
    constructor
    · refine ⟨ho.started, fun j w hj => ?_⟩
      by_cases hji : j = i
      · subst hji
        rw [Gate.setTask_self] at hj
        exact absurd hj (hwaiting w)
      · rw [Gate.setTask_of_ne g p hji] at hj
        exact ho.fired j w hj
    · intro j
      by_cases hji : j = i
      · subst hji
        rw [Gate.setTask_self, if_pos rfl]
        exact hrank
      · rw [Gate.setTask_of_ne g p hji, if_neg fun heq => hji (Action.task.inj heq).symm]
        exact Nat.le_refl _

/-- An open gate stays open, and each step of a task brings it closer to its end. -/
theorem Gate.Opened.run {g h : Gate} {bs : List Action} (ho : g.Opened)
    (hrun : run Gate.step g bs = some h) :
    h.Opened ∧ ∀ i, (h.tasks i).rank + bs.count (.task i) ≤ (g.tasks i).rank := by
  induction bs generalizing g with
  | nil =>
    obtain rfl := Option.some.inj hrun
    exact ⟨ho, fun i => Nat.le_refl _⟩
  | cons a bs ih =>
    obtain ⟨g', ha, hbs⟩ := run_cons_eq_some.mp hrun
    obtain ⟨ho', hrank⟩ := ho.step ha
    obtain ⟨hopened, hrest⟩ := ih ho' hbs
    refine ⟨hopened, fun i => ?_⟩
    have h₁ := hrank i
    have h₂ := hrest i
    rw [List.count_cons]
    simp only [beq_iff_eq]
    omega

/-- At an open gate a task that is not through can go on. -/
theorem Gate.Opened.enabled {g : Gate} (ho : g.Opened) {i : ℕ} (h : g.tasks i ≠ .through) :
    (g.step (.task i)).isSome := by
  simp only [Gate.step]
  cases hphase : g.tasks i with
  | check | register | recheck w => rfl
  | waiting w =>
    simp only [if_pos (ho.fired i w hphase)]
    rfl
  | through => exact absurd hphase h

/-- **The audio gate lets everybody through.** However many tasks wait and however their steps and
those of `open` are interleaved: once a call of `open` has returned, no task is ever blocked again,
and each is through after two steps of its own; before a call of `open` none is. -/
theorem audio_gate_passes {as bs : List Action} {g h : Gate}
    (hrun : run Gate.step .new as = some g) (hrest : run Gate.step g bs = some h) (i : ℕ) :
    (g.tasks i = .through → .store ∈ as) ∧
      (g.started = true → g.owed = 0 →
        (h.tasks i ≠ .through → (h.step (.task i)).isSome) ∧
          (2 ≤ bs.count (.task i) → h.tasks i = .through)) := by
  have hok : g.Ok := run_invariant (fun _ _ _ hstep => Gate.step_ok hstep) hrun Gate.new_ok
  refine ⟨fun hi => mem_of_started hrun (Gate.started_of_through hok hi), fun hstarted howed => ?_⟩
  obtain ⟨hopened, hrank⟩ := (hok.opened hstarted howed).run hrest
  refine ⟨fun hi => hopened.enabled hi, fun hcount => ?_⟩
  have hle := hrank i
  have hmax := (g.tasks i).rank_le
  cases hi : h.tasks i with
  | through => rfl
  | _ =>
    rw [hi, Phase.rank] at hle
    omega

/-- The flag is set between the first look of task 0 and its registration. -/
theorem audio_gate_passes_late : ∃ g h,
    run Gate.step .new [.task 0, .store, .notifyWaiters] = some g ∧
    run Gate.step g [.task 0, .task 0] = some h ∧
    ((g.tasks 0 = .through → Action.store ∈ [Action.task 0, .store, .notifyWaiters]) ∧
      (g.started = true → g.owed = 0 →
        (h.tasks 0 ≠ .through → (h.step (.task 0)).isSome) ∧
          (2 ≤ [Action.task 0, .task 0].count (.task 0) → h.tasks 0 = .through))) := by
  have hruns : ∃ g h, run Gate.step .new [.task 0, .store, .notifyWaiters] = some g ∧
      run Gate.step g [.task 0, .task 0] = some h := ⟨_, _, rfl, rfl⟩
  obtain ⟨g, h, hrun, hrest⟩ := hruns
  exact ⟨g, h, hrun, hrest, audio_gate_passes hrun hrest 0⟩

/-! ## The video gate -/

open Permits

/-- The tasks behind the video gate. -/
inductive VideoTask where
  | packetHandler
  | packetizeLoop
  deriving DecidableEq, Repr

/-- **When the video tasks start.** The two tasks have come to the gate and `trigger` has been
called at least once, each call as two calls of `notify_one`, between which anything may happen.
Then both tasks have started exactly if some `notify_one` came after one of them. -/
theorem video_started_iff {acts : List (Act VideoTask)} {first second : VideoTask}
    (harrivals : arrivals acts = [first, second]) {triggers : ℕ} (hpos : 0 < triggers)
    (htriggers : acts.count .notifyOne = 2 * triggers) :
    (Permits.run acts).through = [first, second] ↔
      ∃ before task after, acts = before ++ .notified task :: after ∧ .notifyOne ∈ after := by
  rw [← queue_eq_nil_iff harrivals (by omega)]
  have hturn := through_append_queue acts
  rw [harrivals] at hturn
  constructor
  · intro hthrough
    rw [hthrough] at hturn
    exact List.append_right_eq_self.mp hturn
  · intro hqueue
    rwa [hqueue, List.append_nil] at hturn

/-- `trigger` is called before either task has come. -/
theorem video_started_iff_early :
    (Permits.run [Act.notifyOne, Act.notifyOne, Act.notified VideoTask.packetHandler,
      Act.notified .packetizeLoop]).through = [.packetHandler, .packetizeLoop] ↔
      ∃ before task after, [Act.notifyOne, Act.notifyOne, Act.notified VideoTask.packetHandler,
        Act.notified .packetizeLoop] = before ++ Act.notified task :: after ∧
          Act.notifyOne ∈ after :=
  video_started_iff rfl Nat.one_pos rfl

end RgspCast.StartGates
