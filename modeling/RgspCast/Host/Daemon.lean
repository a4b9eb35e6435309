import Mathlib.Data.Nat.Notation
import Mathlib.Logic.Function.Basic
import RgspCast.Lib.Transition

/-!
# The daemon's pidfile

`PidFile::acquire` and `PidFile::release` as the sequence of their system calls, run by any number
of processes. The lock lives on an inode while the exclusion is wanted on a path, so the state has
both: the directory entry `path` and, for each inode, the process whose open descriptor holds its
`flock`.

The exclusion fails. A process that opened the pidfile before its owner unlinked it can still lock
the unlinked inode afterwards, while a third process creates and locks a fresh one
(`not_exclusive`). It holds in every run that never grants the lock of an inode which is no longer
the one at the path (`exclusive_of_locksLinked`).
-/

namespace RgspCast.Daemon

open Transition

/-- A process, by the pid it writes into the file. -/
abbrev Pid := ℕ

/-- An inode. A number is never used for a second file. -/
abbrev Ino := ℕ

/-- How `acquire` failed: the lock is taken (`ErrorKind::AlreadyExists`), or some call failed. -/
inductive AcquireError where
  | alreadyExists
  | os
  deriving DecidableEq, Repr

/-- Where a process stands between the system calls of `acquire` and `release`. -/
inductive Phase where
  /-- No descriptor is open; `acquire` may start. -/
  | idle
  /-- `acquire` returned an error, and the file it had opened is closed. -/
  | failed (e : AcquireError)
  /-- `open` returned a descriptor of `ino`. -/
  | opened (ino : Ino)
  /-- `flock` granted the lock of `ino`. -/
  | locked (ino : Ino)
  /-- `set_len(0)` returned. -/
  | truncated (ino : Ino)
  /-- `acquire` returned `Ok`: the process owns the `PidFile`. -/
  | held (ino : Ino)
  /-- `release` has unlinked the path and not yet closed the descriptor. -/
  | unlinked (ino : Ino)
  deriving DecidableEq, Repr

/-- The inode whose lock a process in this phase was granted. -/
def Phase.lock? : Phase → Option Ino
  | .locked ino | .truncated ino | .held ino | .unlinked ino => some ino
  | _ => none

/-- The phases from the granted lock up to the unlink, in which the process counts on the path. -/
def Phase.linked? : Phase → Option Ino
  | .locked ino | .truncated ino | .held ino => some ino
  | _ => none

/-- The file system around the pidfile and the phase of every process. -/
structure State where
  /-- The inode at the pidfile's path. -/
  path : Option Ino
  /-- The process whose descriptor holds the exclusive `flock` of an inode. -/
  flock : Ino → Option Pid
  /-- The text of an inode. -/
  contents : Ino → String
  /-- The inode the next file gets. -/
  fresh : Ino
  phase : Pid → Phase

/-- No pidfile, and no process has started. -/
def init : State where
  path := none
  flock := fun _ => none
  contents := fun _ => ""
  fresh := 0
  phase := fun _ => .idle

/-- One system call of one process. The `ok` flag of a call is false where the call fails for a
reason of its own (`EACCES`, `ENOSPC`, ...). -/
inductive Call where
  /-- `acquire`: `OpenOptions::open` with `create(true)`. -/
  | openFile (p : Pid) (ok : Bool)
  /-- `acquire`: `flock(fd, LOCK_EX | LOCK_NB)`. -/
  | flock (p : Pid) (ok : Bool)
  /-- `acquire`: `set_len(0)` and the seek. -/
  | setLen (p : Pid) (ok : Bool)
  /-- `acquire`: the write of the pid and the flush. -/
  | writePid (p : Pid) (ok : Bool)
  /-- `release`: `remove_file`, whose error is ignored. -/
  | unlink (p : Pid) (ok : Bool)
  /-- `release`: the close of the descriptor. -/
  | close (p : Pid)
  /-- The process dies; the kernel closes its descriptor and the path stays. -/
  | crash (p : Pid)
  deriving DecidableEq, Repr

/-- Move a process to another phase. -/
def State.setPhase (s : State) (p : Pid) (ph : Phase) : State :=
  { s with phase := Function.update s.phase p ph }

/-- Close the descriptor of a process: the kernel drops its lock. -/
def State.closeFd (s : State) (p : Pid) (ph : Phase) : State :=
  { s with
    flock := fun i => if s.flock i = some p then none else s.flock i
    phase := Function.update s.phase p ph }

/-- `OpenOptions::open`: the inode at the path, or a fresh empty one put there. -/
def State.openOrCreate (s : State) (p : Pid) : State :=
  match s.path with
  | some ino => s.setPhase p (.opened ino)
  | none =>
    { s with
      path := some s.fresh
      contents := Function.update s.contents s.fresh ""
      fresh := s.fresh + 1
      phase := Function.update s.phase p (.opened s.fresh) }

/-- One system call; `none` where the process is not at that call. -/
def step (s : State) : Call → Option State
  | .openFile p ok =>
    match s.phase p with
    -- a retry opens the path anew
    | .idle | .failed _ => some (if ok then s.openOrCreate p else s.setPhase p (.failed .os))
    | _ => none
  | .flock p ok =>
    match s.phase p with
    | .opened ino =>
      some (if !ok then s.closeFd p (.failed .os)
        else match s.flock ino with
          -- `LOCK_NB`: somebody else has it
          | some _ => s.closeFd p (.failed .alreadyExists)
          | none =>
            { s with
              flock := Function.update s.flock ino (some p)
              phase := Function.update s.phase p (.locked ino) })
    | _ => none
  | .setLen p ok =>
    match s.phase p with
    | .locked ino =>
      some (if !ok then s.closeFd p (.failed .os)
        else
          { s with
            contents := Function.update s.contents ino ""
            phase := Function.update s.phase p (.truncated ino) })
    | _ => none
  | .writePid p ok =>
    match s.phase p with
    | .truncated ino =>
      some (if !ok then s.closeFd p (.failed .os)
        else
          { s with
            contents := Function.update s.contents ino (toString p)
            phase := Function.update s.phase p (.held ino) })
    | _ => none
  | .unlink p ok =>
    match s.phase p with
    | .held ino => some { s.setPhase p (.unlinked ino) with path := if ok then none else s.path }
    | _ => none
  | .close p =>
    match s.phase p with
    | .unlinked _ => some (s.closeFd p .idle)
    | _ => none
  -- the kernel closes the descriptor, and with it goes the lock
  | .crash p => some (s.closeFd p .idle)

/-- `acquire` returned `Ok` to the process and it has not given the `PidFile` to `release`. -/
def State.Holds (s : State) (p : Pid) : Prop := ∃ ino, s.phase p = .held ino

/-- At most one process holds a `PidFile`. -/
def State.Exclusive (s : State) : Prop := ∀ p q, s.Holds p → s.Holds q → p = q

/-! ## The lost race

Process 2 opens the pidfile of process 1, process 1 releases, process 2 locks the unlinked inode,
and process 3 creates and locks a new one. -/

/-- Two acquisitions around one release, ending with two owners. -/
def lostRace : List Call :=
  [.openFile 1 true, .flock 1 true, .setLen 1 true, .writePid 1 true,
   .openFile 2 true,
   .unlink 1 true, .close 1,
   .flock 2 true, .setLen 2 true, .writePid 2 true,
   .openFile 3 true, .flock 3 true, .setLen 3 true, .writePid 3 true]

/-- Mutual exclusion does not hold in every run of `acquire` and `release`. -/
theorem not_exclusive :
    ¬ ∀ (as : List Call) (s : State), run step init as = some s → s.Exclusive := by
  intro h
  have h23 := h lostRace _ rfl 2 3 ⟨0, rfl⟩ ⟨1, rfl⟩
  exact absurd h23 (by decide)

/-! ## What one call does -/

/-- The process that makes the call, or dies. -/
def Call.pid : Call → Pid
  | .openFile p _ | .flock p _ | .setLen p _ | .writePid p _ | .unlink p _ | .close p | .crash p =>
    p

/-- The inode of a process's descriptor. -/
def Phase.file? : Phase → Option Ino
  | .opened ino | .locked ino | .truncated ino | .held ino | .unlinked ino => some ino
  | _ => none

/-- What the owner of the lock has made of the file. -/
def Phase.text? (p : Pid) : Phase → Option String
  | .truncated _ => some ""
  | .held _ | .unlinked _ => some (toString p)
  | _ => none

/-- A process that counts on the path holds the lock of that file. -/
theorem Phase.lock?_of_linked? {ph : Phase} {ino : Ino} (h : ph.linked? = some ino) :
    ph.lock? = some ino := by
  cases ph <;> simp_all [Phase.linked?, Phase.lock?]

/-- A process that holds a lock has the file open. -/
theorem Phase.file?_of_lock? {ph : Phase} {ino : Ino} (h : ph.lock? = some ino) :
    ph.file? = some ino := by
  cases ph <;> first | exact h | cases h

/-- A process without a descriptor has no lock. -/
theorem Phase.lock?_eq_none {ph : Phase} (h : ph.file? = none) : ph.lock? = none :=
  Option.eq_none_iff_forall_ne_some.mpr fun _ hi =>
    absurd (h.symm.trans (Phase.file?_of_lock? hi)) nofun

/-- The effects a call can have, and when. -/
inductive Effect (s : State) (c : Call) : State → Prop
  | notOpened (hp : (s.phase c.pid).lock? = none) : Effect s c (s.setPhase c.pid (.failed .os))
  | opened (hp : (s.phase c.pid).lock? = none) : Effect s c (s.openOrCreate c.pid)
  | gaveUp (ph : Phase) (hph : ph.file? = none)
      (hwhy : ph = .failed .alreadyExists → ∃ ino, c = .flock c.pid true ∧
        s.phase c.pid = .opened ino ∧ s.flock ino ≠ none) :
      Effect s c (s.closeFd c.pid ph)
  | granted (ino : Ino) (hc : c = .flock c.pid true) (hp : s.phase c.pid = .opened ino)
      (hfree : s.flock ino = none) :
      Effect s c { s with
        flock := Function.update s.flock ino (some c.pid)
        phase := Function.update s.phase c.pid (.locked ino) }
  | wrote (ino : Ino) (ph : Phase) (text : String) (hp : (s.phase c.pid).linked? = some ino)
      (hlinked : ph.linked? = some ino) (htext : ph.text? c.pid = some text) :
      Effect s c { s with
        contents := Function.update s.contents ino text
        phase := Function.update s.phase c.pid ph }
  | unlinked (ino : Ino) (ok : Bool) (hp : s.phase c.pid = .held ino) :
      Effect s c { s.setPhase c.pid (.unlinked ino) with path := if ok then none else s.path }

/-- All that a step can do, call by call. -/
theorem effect_of_step {s t : State} {c : Call} (hstep : step s c = some t) : Effect s c t := by
  cases c with
  | openFile p ok =>
    simp only [step] at hstep
    have hcase : (s.phase p).lock? = none ∧
        t = if ok then s.openOrCreate p else s.setPhase p (.failed .os) := by
      split at hstep <;> simp_all [Phase.lock?]
    obtain ⟨hp, rfl⟩ := hcase
    cases ok with
    | true => exact .opened hp
    | false => exact .notOpened hp
  | flock p ok =>
    simp only [step] at hstep
    split at hstep
    next ino hp =>
      rw [Option.some.injEq] at hstep
      subst hstep
      cases ok with
      | false => exact .gaveUp (.failed .os) rfl nofun
      | true =>
        -- the lock is granted where nobody has it, and refused elsewhere
        cases hlock : s.flock ino with
        | some q =>
          exact .gaveUp (.failed .alreadyExists) rfl fun _ => ⟨ino, rfl, hp, by rw [hlock]; nofun⟩
        | none => exact .granted ino rfl hp hlock
    next => cases hstep
  | setLen p ok =>
    simp only [step] at hstep
    split at hstep
    next ino hp =>
      rw [Option.some.injEq] at hstep
      subst hstep
      cases ok with
      | false => exact .gaveUp (.failed .os) rfl nofun
      | true => exact .wrote ino (.truncated ino) "" (congrArg Phase.linked? hp) rfl rfl
    next => cases hstep
  | writePid p ok =>
    simp only [step] at hstep
    split at hstep
    next ino hp =>
      rw [Option.some.injEq] at hstep
      subst hstep
      cases ok with
      | false => exact .gaveUp (.failed .os) rfl nofun
      | true => exact .wrote ino (.held ino) (toString p) (congrArg Phase.linked? hp) rfl rfl
    next => cases hstep
  | unlink p ok =>
    simp only [step] at hstep
    split at hstep
    next ino hp =>
      rw [Option.some.injEq] at hstep
      subst hstep
      exact .unlinked ino ok hp
    next => cases hstep
  | close p =>
    simp only [step] at hstep
    split at hstep
    next ino hp =>
      rw [Option.some.injEq] at hstep
      exact hstep ▸ .gaveUp .idle rfl nofun
    next => cases hstep
  | crash p =>
    rw [step, Option.some.injEq] at hstep
    exact hstep ▸ .gaveUp .idle rfl nofun

/-! ## When exclusion holds -/

/-- The lock a process asks for is that of the inode now at the path, or it is taken. -/
def LocksLinked (s : State) : Call → Prop
  | .flock p _ => ∀ ino, s.phase p = .opened ino → s.path = some ino ∨ s.flock ino ≠ none
  | _ => True

/-- What every guarded run keeps: the process that was granted a lock has it, and up to its unlink
the path still names the inode it locked. -/
structure Inv (s : State) : Prop where
  owner : ∀ p ino, (s.phase p).lock? = some ino → s.flock ino = some p
  linked : ∀ p ino, (s.phase p).linked? = some ino → s.path = some ino

/-- No process, no file, no lock. -/
theorem inv_init : Inv init where
  owner := by simp [init, Phase.lock?]
  linked := by simp [init, Phase.linked?]

/-- A process that moves on without a new lock keeps the invariant. -/
theorem Inv.advance {s t : State} {p : Pid} {ph : Phase} (h : Inv s) (hpath : t.path = s.path)
    (hflock : t.flock = s.flock) (hphase : t.phase = Function.update s.phase p ph)
    (hlock : ∀ ino, ph.lock? = some ino → (s.phase p).lock? = some ino)
    (hlinked : ∀ ino, ph.linked? = some ino → (s.phase p).linked? = some ino) : Inv t where
  owner := by
    intro q ino hq
    rw [hflock]
    rw [hphase] at hq
    -- the process that moved keeps at most what it had; the others did not move
    by_cases hqp : q = p
    · subst hqp
      exact h.owner q ino (hlock ino (by simpa using hq))
    · exact h.owner q ino (by simpa [hqp] using hq)
  linked := by
    intro q ino hq
    rw [hpath]
    rw [hphase] at hq
    by_cases hqp : q = p
    · subst hqp
      exact h.linked q ino (hlinked ino (by simpa using hq))
    · exact h.linked q ino (by simpa [hqp] using hq)

/-- A process that closes its descriptor keeps the invariant. -/
theorem Inv.closeFd {s : State} {p : Pid} {ph : Phase} (h : Inv s) (hph : ph.lock? = none) :
    Inv (s.closeFd p ph) where
  owner := by
    intro q ino hq
    simp only [State.closeFd] at hq ⊢
    by_cases hqp : q = p
    · subst hqp
      simp [hph] at hq
    · have hown : s.flock ino = some q := h.owner q ino (by simpa [hqp] using hq)
      simp [hown, hqp]
  linked := by
    intro q ino hq
    simp only [State.closeFd] at hq ⊢
    by_cases hqp : q = p
    · subst hqp
      simp [Phase.lock?_of_linked? (by simpa using hq)] at hph
    · exact h.linked q ino (by simpa [hqp] using hq)

/-- Opening or creating the file keeps the invariant: where a file is created, no process counts
on the path. -/
theorem Inv.openOrCreate {s : State} (h : Inv s) (p : Pid) : Inv (s.openOrCreate p) := by
  unfold State.openOrCreate
  split
  next ino hpath =>
    exact h.advance rfl rfl rfl (by simp [Phase.lock?]) (by simp [Phase.linked?])
  next hpath =>
    constructor
    · intro q ino hq
      by_cases hqp : q = p
      · subst hqp
        simp [Phase.lock?] at hq
      · exact h.owner q ino (by simpa [hqp] using hq)
    · intro q ino hq
      by_cases hqp : q = p
      · subst hqp
        simp [Phase.linked?] at hq
      · have hlink := h.linked q ino (by simpa [hqp] using hq)
        simp [hpath] at hlink

/-- A lock granted on the inode at the path keeps the invariant. -/
theorem Inv.grant {s : State} {p : Pid} {ino : Ino} (h : Inv s) (hfree : s.flock ino = none)
    (hpath : s.path = some ino) :
    Inv { s with
      flock := Function.update s.flock ino (some p)
      phase := Function.update s.phase p (.locked ino) } where
  owner := by
    intro q j hq
    by_cases hqp : q = p
    · subst hqp
      have hj : ino = j := by simpa [Phase.lock?] using hq
      simp [hj]
    · have hown := h.owner q j (by simpa [hqp] using hq)
      -- another holder of this inode would have kept it from being free
      have hj : j ≠ ino := fun hji => by simp [hji, hfree] at hown
      simpa [hj] using hown
  linked := by
    intro q j hq
    by_cases hqp : q = p
    · subst hqp
      have hj : ino = j := by simpa [Phase.linked?] using hq
      exact hj ▸ hpath
    · exact h.linked q j (by simpa [hqp] using hq)

/-- The owner's unlink keeps the invariant: no other process counts on the inode it removes. -/
theorem Inv.unlink {s : State} {p : Pid} {ino : Ino} (h : Inv s) (hp : s.phase p = .held ino) :
    Inv { s.setPhase p (.unlinked ino) with path := none } where
  owner := by
    intro q j hq
    simp only [State.setPhase] at hq ⊢
    by_cases hqp : q = p
    · subst hqp
      exact h.owner q j (by simpa [hp, Phase.lock?] using hq)
    · exact h.owner q j (by simpa [hqp] using hq)
  linked := by
    intro q j hq
    simp only [State.setPhase] at hq
    by_cases hqp : q = p
    · subst hqp
      simp [Phase.linked?] at hq
    -- a second process that counts on the path would have the lock of the same inode
    · have hq' : (s.phase q).linked? = some j := by simpa [hqp] using hq
      have hpj : s.path = some ino := h.linked p ino (by simp [hp, Phase.linked?])
      have hij : ino = j := by simpa [hpj] using h.linked q j hq'
      have hown : s.flock ino = some p := h.owner p ino (by simp [hp, Phase.lock?])
      rw [hij, h.owner q j (Phase.lock?_of_linked? hq'), Option.some.injEq] at hown
      exact absurd hown hqp

/-- The invariant survives every system call that meets the guard. -/
theorem inv_step {s t : State} {a : Call} (hok : LocksLinked s a) (hstep : step s a = some t)
    (h : Inv s) : Inv t := by
  cases effect_of_step hstep with
  | notOpened => exact h.advance rfl rfl rfl nofun nofun
  | opened => exact h.openOrCreate a.pid
  | gaveUp ph hph => exact h.closeFd (Phase.lock?_eq_none hph)
  -- the lock was free, so the guard says that the inode is still the one at the path
  | granted ino ha hp hfree =>
    rw [ha] at hok
    exact h.grant hfree ((hok ino hp).resolve_right (not_not.mpr hfree))
  | wrote ino ph text hp hlinked =>
    refine h.advance rfl rfl rfl (fun i hi => ?_) fun i hi => ?_
    · exact (Phase.lock?_of_linked? hp).trans ((Phase.lock?_of_linked? hlinked).symm.trans hi)
    · exact hp.trans (hlinked.symm.trans hi)
  | unlinked ino ok hp =>
    cases ok with
    | true => exact h.unlink hp
    | false => exact h.advance rfl rfl rfl (fun i hi => (congrArg Phase.lock? hp).trans hi) nofun

/-- Two owners would have the lock of the one inode at the path. -/
theorem Inv.exclusive {s : State} (h : Inv s) : s.Exclusive := by
  rintro p q ⟨i, hp⟩ ⟨j, hq⟩
  have hpi : s.path = some i := h.linked p i (by simp [hp, Phase.linked?])
  have hij : i = j := by simpa [hpi] using h.linked q j (by simp [hq, Phase.linked?])
  have hown : s.flock i = some p := h.owner p i (by simp [hp, Phase.lock?])
  rw [hij, h.owner q j (by simp [hq, Phase.lock?]), Option.some.injEq] at hown
  exact hown.symm

/-- **Mutual exclusion of the daemon.** In every run that grants no lock of an inode which has
been unlinked, at most one process holds a `PidFile`. -/
theorem exclusive_of_locksLinked (as : List Call) (s : State)
    (hok : Guarded LocksLinked step init as) (hrun : run step init as = some s) :
    s.Exclusive :=
  (run_invariant_of_guarded (fun _ _ _ => inv_step) hok hrun inv_init).exclusive

/-- Process 1 starts, process 2 is refused, process 1 releases and process 2 starts. -/
def handover : List Call :=
  [.openFile 1 true, .flock 1 true, .setLen 1 true, .writePid 1 true,
   .openFile 2 true, .flock 2 true,
   .unlink 1 true, .close 1,
   .openFile 2 true, .flock 2 true, .setLen 2 true, .writePid 2 true]

/-- The hand-over meets the guard, and process 2 is the one owner at its end. -/
theorem exclusive_of_locksLinked_handover :
    ∃ s, run step init handover = some s ∧ s.Holds 2 ∧ s.Exclusive := by
  have hok : Guarded LocksLinked step init handover := by
    simp [handover, Guarded, LocksLinked, step, init, State.openOrCreate, State.closeFd,
      State.setPhase]
  exact ⟨_, rfl, ⟨1, rfl⟩, exclusive_of_locksLinked handover _ hok rfl⟩

end RgspCast.Daemon
