import RgspCast.Host.Pidfile
import RgspCast.Host.Processes

/-!
# `Service::stop` and the process it signals

`stop` reads a pid from the pidfile, then asks by a probe of the lock whether the file is a live
daemon's, and signals the pid. The pid and the lock are of different instants: a daemon takes the
lock of a leftover file before it writes its pid there, and a pid may have passed to another process
by the time of the signal (`not_signals_holder`). `signals_holder_of_undisturbed` says at which
steps this is decided.
-/

namespace RgspCast.Service

open Daemon Processes Transition

/-- Where `Service::stop` is. `pid` is what it parsed, and `holder` the process that had the lock
when it was probed. -/
inductive StopAt where
  | idle
  | read (text : String)
  | parsed (pid : ℤ)
  | opened (pid : ℤ)
  /-- The probe got the lock itself and is about to release it. -/
  | granted
  | held (pid : ℤ) (holder : Option Process)
  /-- In `confirm_not_serving`. -/
  | confirming
  /-- In the wait loop. -/
  | waiting
  | returned (ok : Bool)
  deriving DecidableEq

/-- A SIGTERM: the process that had the lock when it was probed, and those that are signalled. -/
structure Signal where
  holder : Option Process
  receivers : List Process
  deriving DecidableEq

/-- The files, the processes, who answers the control socket, and the call of `stop`. -/
structure State where
  files : Daemon.State
  table : List Process
  /-- The `id` of the next process. -/
  born : ℕ
  socket : Option Pid
  stop : StopAt
  sent : List Signal

/-- The calls of `stop`. An `ok` flag is false where a call fails for a reason of its own; `late`
tells whether the deadline has passed. -/
inductive StopCall where
  | read (ok : Bool)
  | parse
  | openFile (ok : Bool)
  | flock (ok : Bool)
  | unlock
  | kill (ok : Bool)
  | poll (late : Bool)
  | confirm
  deriving DecidableEq

def State.process? (s : State) (p : Pid) : Option Process := s.table.find? (·.pid = p)

/-- The probe takes the lock: it is refused, or granted and released at once. -/
def probe (ui : Process) (s : State) (pid : ℤ) (ino : Ino) (ok : Bool) : Option State :=
  (Daemon.step s.files (.flock ui.pid ok)).map fun files =>
    { s with
      files
      stop :=
        if !ok then .returned false
        else match s.files.flock ino with
          | some p => .held pid (s.process? p)
          | none => .granted }

/-- The signal, or `ESRCH` where it addresses nobody. -/
def kill (ui : Process) (s : State) (pid : ℤ) (holder : Option Process) : State :=
  match targets s.table ui pid with
  | [] => { s with stop := .waiting }
  | receivers => { s with stop := .waiting, sent := ⟨holder, receivers⟩ :: s.sent }

/-- One call of `Service::stop`. -/
def stopStep (ui : Process) (s : State) : StopCall → Option State
  | .read ok =>
    match s.stop with
    | .idle | .returned _ =>
      some { s with
        stop :=
          if !ok then .returned false
          else match s.files.path with
            -- no pidfile: nobody to stop, unless the socket still answers
            | none => .confirming
            | some ino => .read (s.files.contents ino) }
    | _ => none
  | .parse =>
    match s.stop with
    | .read text =>
      some { s with
        stop :=
          match parsePid text with
          | none => .returned false
          | some pid => .parsed pid }
    | _ => none
  | .openFile ok =>
    match s.stop with
    | .parsed pid =>
      some (if !ok then { s with stop := .returned false }
        else match s.files.path with
          | none => { s with stop := .confirming }
          | some ino =>
            { s with files := s.files.setPhase ui.pid (.opened ino), stop := .opened pid })
    | _ => none
  | .flock ok =>
    match s.stop, s.files.phase ui.pid with
    | .opened pid, .opened ino => probe ui s pid ino ok
    | _, _ => none
  | .unlock =>
    match s.stop with
    | .granted => some { s with files := s.files.closeFd ui.pid .idle, stop := .confirming }
    | _ => none
  | .kill ok =>
    match s.stop with
    | .held pid holder =>
      some (if !ok then { s with stop := .returned false } else kill ui s pid holder)
    | _ => none
  | .poll late =>
    match s.stop with
    | .waiting =>
      -- the socket is looked at before the clock
      some (if s.socket.isNone then { s with stop := .returned true }
        else if late then { s with stop := .returned false } else s)
    | _ => none
  | .confirm =>
    match s.stop with
    | .confirming => some { s with stop := .returned s.socket.isNone }
    | _ => none

/-- A call of `stop`, a system call or the death of another process, a new process, or a change of
who answers the control socket. -/
inductive Action where
  | stop (c : StopCall)
  | daemon (c : Call)
  | spawn (pid : Pid) (group : ℕ)
  | listen (socket : Option Pid)

/-- The processes after a system call: all but one that died. -/
def survivors (table : List Process) : Call → List Process
  | .crash p => table.filter fun q => q.pid ≠ p
  | _ => table

def step (ui : Process) (s : State) : Action → Option State
  | .stop c => stopStep ui s c
  | .daemon c =>
    if c.pid ≠ ui.pid ∧ (s.process? c.pid).isSome then
      (Daemon.step s.files c).map fun files => { s with files, table := survivors s.table c }
    else none
  | .spawn pid group =>
    if IsPid pid ∧ s.process? pid = none then
      some { s with table := ⟨s.born, pid, group⟩ :: s.table, born := s.born + 1 }
    else none
  | .listen socket => some { s with socket }

/-- A table of processes with the UI in it. -/
structure Boot where
  ui : Process
  others : List Process
  unique : ((ui :: others).map (·.pid)).Nodup
  pids : ∀ p ∈ ui :: others, IsPid p.pid

/-- The UI has started; a pidfile may be left with any text, and no lock is taken. -/
def Boot.start (b : Boot) (leftover : Option String) : State where
  files :=
    match leftover with
    | none => Daemon.init
    | some text => { Daemon.init with path := some 0, contents := fun _ => text, fresh := 1 }
  table := b.ui :: b.others
  born := 1 + ((b.ui :: b.others).map (·.id)).sum
  socket := none
  stop := .idle
  sent := []

/-- Every signal is addressed to the one process that had the lock when it was probed. -/
def State.SignalsHolder (s : State) : Prop :=
  ∀ sig ∈ s.sent, ∃ p, sig.holder = some p ∧ sig.receivers = [p]

/-- The pid that `stop` has read, until the probe. -/
def StopAt.reads? : StopAt → Option ℤ
  | .read text => parsePid text
  | .parsed pid | .opened pid => some pid
  | _ => none

/-- The pid that `stop` is about to signal. -/
def StopAt.signals? : StopAt → Option ℤ
  | .held pid _ => some pid
  | _ => none

/-- The inode whose lock the probe will ask for, unless the path changes before it is opened. -/
def State.probes? (ui : Process) (s : State) : Option Ino :=
  match s.stop with
  | .opened _ => (s.files.phase ui.pid).file?
  | _ => s.files.path

/-- A file that is read while its owner has yet to truncate it names the owner, or nobody; a process
that is granted the lock between the read and the probe is the one whose pid was read; and no
process gets a pid that is about to be signalled. -/
def Undisturbed (ui : Process) (s : State) : Action → Prop
  | .stop (.read true) =>
    ∀ ino ∈ s.files.path, ∀ p ∈ s.files.flock ino, s.files.phase p = .locked ino →
      ∀ n ∈ parsePid (s.files.contents ino), n = p
  | .daemon (.flock p true) =>
    ∀ n ∈ s.stop.reads?, ∀ ino ∈ s.probes? ui,
      s.files.phase p = .opened ino → s.files.flock ino = none → n = p
  | .spawn pid _ => ∀ n ∈ s.stop.signals?, n ≠ pid
  | _ => True

instance decidableUndisturbed (ui : Process) (s : State) : (a : Action) →
    Decidable (Undisturbed ui s a)
  | .stop (.read true) => inferInstanceAs (Decidable (∀ ino ∈ s.files.path, _))
  | .daemon (.flock _ true) => inferInstanceAs (Decidable (∀ n ∈ s.stop.reads?, _))
  | .spawn pid _ => inferInstanceAs (Decidable (∀ n ∈ s.stop.signals?, n ≠ pid))
  | .stop (.read false) | .stop .parse | .stop (.openFile _) | .stop (.flock _) => isTrue trivial
  | .stop .unlock | .stop (.kill _) | .stop (.poll _) | .stop .confirm => isTrue trivial
  | .daemon (.flock _ false) | .daemon (.openFile _ _) | .daemon (.setLen _ _) => isTrue trivial
  | .daemon (.writePid _ _) | .daemon (.unlink _ _) | .daemon (.close _) => isTrue trivial
  | .daemon (.crash _) => isTrue trivial
  | .listen _ => isTrue trivial

/-! ## What one step does -/

variable {ui : Process} {s s' : State} {c : StopCall} {pid : ℤ} {ino : Ino} {ok : Bool}

/-- The effects a call of `stop` can have, and when. -/
inductive StopEffect (ui : Process) (s : State) (c : StopCall) : State → Prop
  | read (ino : Ino) (hc : c = .read true) (hat : s.stop ≠ .granted)
      (hpath : s.files.path = some ino) :
      StopEffect ui s c { s with stop := .read (s.files.contents ino) }
  | parsed (text : String) (pid : ℤ) (hat : s.stop = .read text)
      (hparse : parsePid text = some pid) :
      StopEffect ui s c { s with stop := .parsed pid }
  | opened (pid : ℤ) (ino : Ino) (hat : s.stop = .parsed pid) (hpath : s.files.path = some ino) :
      StopEffect ui s c
        { s with files := s.files.setPhase ui.pid (.opened ino), stop := .opened pid }
  | probed (pid : ℤ) (ino : Ino) (ok : Bool) (s' : State) (hat : s.stop = .opened pid)
      (hphase : s.files.phase ui.pid = .opened ino) (h : probe ui s pid ino ok = some s') :
      StopEffect ui s c s'
  | released (hat : s.stop = .granted) :
      StopEffect ui s c { s with files := s.files.closeFd ui.pid .idle, stop := .confirming }
  | signalled (pid : ℤ) (holder : Option Process) (hat : s.stop = .held pid holder) :
      StopEffect ui s c (kill ui s pid holder)
  | moved (stop : StopAt) (hat : s.stop ≠ .granted) (hreads : stop.reads? = none)
      (hsignals : stop.signals? = none) (hok : stop = .returned true → s.socket = none) :
      StopEffect ui s c { s with stop := stop }

/-- All that a call of `stop` can do. -/
theorem effect_of_stop (h : stopStep ui s c = some s') : StopEffect ui s c s' := by
  cases c with
  | read ok =>
    simp only [stopStep] at h
    have hcase : s.stop ≠ .granted ∧ s' = { s with
        stop :=
          if !ok then .returned false
          else match s.files.path with
            | none => .confirming
            | some ino => .read (s.files.contents ino) } := by
      split at h <;> simp_all
    obtain ⟨hat, rfl⟩ := hcase
    cases ok with
    | false => exact .moved (.returned false) hat rfl rfl nofun
    | true =>
      cases hpath : s.files.path with
      | none => exact .moved .confirming hat rfl rfl nofun
      | some ino => exact .read ino rfl hat hpath
  | parse =>
    simp only [stopStep] at h
    split at h
    next text hat =>
      rw [Option.some.injEq] at h
      subst h
      cases hparse : parsePid text with
      | none => exact .moved (.returned false) (by rw [hat]; nofun) rfl rfl nofun
      | some pid => exact .parsed text pid hat hparse
    next => cases h
  | openFile ok =>
    simp only [stopStep] at h
    split at h
    next pid hat =>
      rw [Option.some.injEq] at h
      subst h
      have hgranted : s.stop ≠ .granted := by rw [hat]; nofun
      cases ok with
      | false => exact .moved (.returned false) hgranted rfl rfl nofun
      | true =>
        cases hpath : s.files.path with
        | none => exact .moved .confirming hgranted rfl rfl nofun
        | some ino => exact .opened pid ino hat hpath
    next => cases h
  | flock ok =>
    simp only [stopStep] at h
    split at h
    next pid ino hat hphase => exact .probed pid ino ok s' hat hphase h
    next => cases h
  | unlock =>
    simp only [stopStep] at h
    split at h
    next hat =>
      rw [Option.some.injEq] at h
      exact h ▸ .released hat
    next => cases h
  | kill ok =>
    simp only [stopStep] at h
    split at h
    next pid holder hat =>
      rw [Option.some.injEq] at h
      subst h
      cases ok with
      | false => exact .moved (.returned false) (by rw [hat]; nofun) rfl rfl nofun
      | true => exact .signalled pid holder hat
    next => cases h
  | poll late =>
    simp only [stopStep] at h
    split at h
    next hat =>
      rw [Option.some.injEq] at h
      subst h
      have hgranted : s.stop ≠ .granted := by rw [hat]; nofun
      split
      next hsocket =>
        exact .moved (.returned true) hgranted rfl rfl fun _ => Option.isNone_iff_eq_none.mp hsocket
      next =>
        split
        next => exact .moved (.returned false) hgranted rfl rfl nofun
        -- the socket still answers: another turn of the loop
        next =>
          have hsame : s = { s with stop := .waiting } := by rw [← hat]
          exact (congrArg (StopEffect ui s _) hsame).mpr (.moved .waiting hgranted rfl rfl nofun)
    next => cases h
  | confirm =>
    simp only [stopStep] at h
    split at h
    next hat =>
      rw [Option.some.injEq] at h
      subst h
      refine .moved (.returned s.socket.isNone) (by rw [hat]; nofun) rfl rfl fun hreturned => ?_
      exact Option.isNone_iff_eq_none.mp (StopAt.returned.inj hreturned)
    next => cases h

/-! ### Calls of other processes -/

variable {call : Call} {files : Daemon.State}

/-- A process table only loses entries. -/
theorem survivors_sublist (table : List Process) (call : Call) :
    (survivors table call).Sublist table := by
  cases call with
  | crash p => exact List.filter_sublist
  | _ => exact List.Sublist.refl _

/-- Everyone but the process that makes the call is there afterwards. -/
theorem mem_survivors {table : List Process} {q : Process} (hq : q ∈ table)
    (hne : q.pid ≠ call.pid) : q ∈ survivors table call := by
  cases call with
  | crash p => exact List.mem_filter.mpr ⟨hq, decide_eq_true hne⟩
  | _ => exact hq

/-- A process that dies has no descriptor left. -/
theorem survivors_of_lock (table : List Process) (hstep : Daemon.step s.files call = some files)
    (hlock : (files.phase call.pid).lock? = some ino) : survivors table call = table := by
  cases call with
  | crash p =>
    rw [Daemon.step, Option.some.injEq] at hstep
    subst hstep
    simp [State.closeFd, Call.pid, Phase.lock?] at hlock
  | _ => rfl

/-- What a step of the daemon needs, and what it does. -/
theorem daemon_eq_some (h : step ui s (.daemon call) = some s') :
    call.pid ≠ ui.pid ∧ (∃ q ∈ s.table, q.pid = call.pid) ∧
      ∃ files, Daemon.step s.files call = some files ∧
        s' = { s with files := files, table := survivors s.table call } := by
  obtain ⟨⟨hne, halive⟩, h⟩ := Option.ite_none_right_eq_some.mp h
  obtain ⟨q, hq⟩ := Option.isSome_iff_exists.mp halive
  obtain ⟨files, hstep, rfl⟩ := Option.map_eq_some_iff.mp h
  exact ⟨hne, ⟨q, List.mem_of_find?_eq_some hq, by simpa using List.find?_some hq⟩,
    files, hstep, rfl⟩

/-- What a new process needs, and what it does. -/
theorem spawn_eq_some {p : Pid} {group : ℕ} (h : step ui s (.spawn p group) = some s') :
    IsPid p ∧ (∀ q ∈ s.table, q.pid ≠ p) ∧
      s' = { s with table := ⟨s.born, p, group⟩ :: s.table, born := s.born + 1 } := by
  obtain ⟨⟨hpid, hunused⟩, rfl⟩ := Option.ite_some_none_eq_some.mp h
  refine ⟨hpid, fun q hq => ?_, rfl⟩
  have := List.find?_eq_none.mp hunused q hq
  simpa using this

/-! ## What every run keeps -/

/-- The files are sound, pids are unique, whoever has a lock is alive, and the UI has one only
between its probe and the release of it. -/
structure Base (ui : Process) (s : State) : Prop where
  sound : Sound s.files
  unique : (s.table.map (·.pid)).Nodup
  pids : ∀ p ∈ s.table, IsPid p.pid
  mem : ui ∈ s.table
  quiet : (s.files.phase ui.pid).lock? = none ∨ s.stop = .granted
  alive : ∀ p ino, s.files.flock ino = some p → ∃ q ∈ s.table, q.pid = p

theorem base_start (b : Boot) (leftover : Option String) : Base b.ui (b.start leftover) where
  sound := by
    cases leftover with
    | none => exact ⟨fun _ _ => ⟨nofun, nofun⟩, nofun, nofun, nofun⟩
    | some text =>
      exact ⟨fun _ _ => ⟨nofun, nofun⟩, nofun, nofun,
        fun ino h => Option.some.inj h ▸ Nat.zero_lt_one⟩
  unique := b.unique
  pids := b.pids
  mem := List.mem_cons_self
  quiet := by cases leftover <;> exact Or.inl rfl
  alive := by cases leftover <;> exact nofun

/-- The process of a pid that is in use. -/
theorem process?_of_mem (hs : Base ui s) {q : Process} (hq : q ∈ s.table) :
    s.process? q.pid = some q := by
  unfold State.process?
  obtain ⟨p, hp⟩ : ∃ p, s.table.find? (fun p => p.pid = q.pid) = some p := by
    rw [← Option.isSome_iff_exists, List.find?_isSome]
    exact ⟨q, hq, decide_eq_true rfl⟩
  have hpid := List.find?_some hp
  simp only [decide_eq_true_eq] at hpid
  have heq : p = q := List.inj_on_of_nodup_map hs.unique (List.mem_of_find?_eq_some hp) hq hpid
  exact heq ▸ hp

/-- Whatever the signal addresses, `stop` goes on to wait. -/
theorem kill_eq (ui : Process) (s : State) (pid : ℤ) (holder : Option Process) :
    ∃ sent, kill ui s pid holder = { s with stop := .waiting, sent := sent } := by
  unfold kill
  split <;> exact ⟨_, rfl⟩

/-- A call that is only about where `stop` is. -/
theorem Base.moved (hs : Base ui s) (hat : s.stop ≠ .granted) (stop : StopAt)
    (sent : List Signal) : Base ui { s with stop := stop, sent := sent } :=
  ⟨hs.sound, hs.unique, hs.pids, hs.mem, Or.inl (hs.quiet.resolve_right hat), hs.alive⟩

/-- The calls of `stop` keep the basic invariant. -/
theorem base_of_stop (h : stopStep ui s c = some s') (hs : Base ui s) : Base ui s' := by
  cases effect_of_stop h with
  | read ino _ hat => exact hs.moved hat _ _
  | parsed text pid hat => exact hs.moved (by simp [hat]) _ _
  | opened pid ino hat hpath =>
    have hquiet := hs.quiet.resolve_right (by simp [hat])
    refine ⟨hs.sound.opened hpath hquiet, hs.unique, hs.pids, hs.mem, Or.inl ?_, hs.alive⟩
    show (Function.update s.files.phase ui.pid (.opened ino) ui.pid).lock? = none
    rw [Function.update_self]
    rfl
  | probed pid ino ok _ hat hphase h =>
    obtain ⟨files, hstep, rfl⟩ := Option.map_eq_some_iff.mp h
    refine ⟨sound_of_step hstep hs.sound, hs.unique, hs.pids, hs.mem, ?_, fun p i hp => ?_⟩
    · simp only [Daemon.step, hphase, Option.some.injEq] at hstep
      subst hstep
      cases ok with
      | false => exact Or.inl (by simp [State.closeFd, Phase.lock?])
      | true =>
        cases hfree : s.files.flock ino with
        | some p => exact Or.inl (by simp [State.closeFd, Phase.lock?])
        | none => exact Or.inr rfl
    -- only the probe itself takes a lock here, and the UI is alive
    · rcases flock_of_step hstep hp with hp | ⟨hc, -, -⟩
      · exact hs.alive p i hp
      · exact ⟨ui, hs.mem, congrArg Call.pid hc⟩
  | released hat =>
    refine ⟨hs.sound.closeFd rfl, hs.unique, hs.pids, hs.mem, Or.inl ?_, fun p i hp => ?_⟩
    · show (Function.update s.files.phase ui.pid .idle ui.pid).lock? = none
      rw [Function.update_self]
      rfl
    · have hp' : (if s.files.flock i = some ui.pid then none else s.files.flock i) = some p := hp
      split at hp'
      next => cases hp'
      next => exact hs.alive p i hp'
  | signalled pid holder hat =>
    obtain ⟨sent, hkill⟩ := kill_eq ui s pid holder
    rw [hkill]
    exact hs.moved (by simp [hat]) _ _
  | moved stop hat => exact hs.moved hat _ _

/-- So does every step. -/
theorem base_of_step {a : Action} (h : step ui s a = some s') (hs : Base ui s) : Base ui s' := by
  cases a with
  | stop c => exact base_of_stop h hs
  | daemon call =>
    obtain ⟨hne, ⟨r, hr, hrpid⟩, files, hstep, rfl⟩ := daemon_eq_some h
    have hsound := sound_of_step hstep hs.sound
    have hsub := survivors_sublist s.table call
    refine ⟨hsound, hs.unique.sublist (hsub.map _), fun p hp => hs.pids p (hsub.subset hp),
      mem_survivors hs.mem (Ne.symm hne), ?_, fun p ino hp => ?_⟩
    · show (files.phase ui.pid).lock? = none ∨ s.stop = .granted
      rw [phase_of_step hstep (Ne.symm hne)]
      exact hs.quiet
    -- whoever has a lock now made this call, and survives it, or had the lock before
    · show ∃ q ∈ survivors s.table call, q.pid = p
      have hlock := (hsound.locks p ino).mp hp
      by_cases hpc : p = call.pid
      · subst hpc
        rw [survivors_of_lock s.table hstep hlock]
        exact ⟨r, hr, hrpid⟩
      · rw [phase_of_step hstep hpc, ← hs.sound.locks p ino] at hlock
        obtain ⟨q, hq, rfl⟩ := hs.alive p ino hlock
        exact ⟨q, mem_survivors hq hpc, rfl⟩
  | spawn p group =>
    obtain ⟨hpid, hnew, rfl⟩ := spawn_eq_some h
    refine ⟨hs.sound, List.nodup_cons.mpr ⟨fun hmem => ?_, hs.unique⟩,
      List.forall_mem_cons.mpr ⟨hpid, hs.pids⟩, List.mem_cons_of_mem _ hs.mem, hs.quiet,
      fun q ino hq => ?_⟩
    · obtain ⟨q, hq, hqpid⟩ := List.mem_map.mp hmem
      exact hnew q hq hqpid
    · obtain ⟨r, hr, hrq⟩ := hs.alive q ino hq
      exact ⟨r, List.mem_cons_of_mem _ hr, hrq⟩
  | listen socket =>
    obtain rfl := Option.some.inj h
    exact { hs with }

/-! ## Undisturbed runs -/

/-- What an undisturbed run keeps: what was read names whoever has the lock, and what is about to be
signalled names the process that had it, or nobody. -/
structure Inv (ui : Process) (s : State) : Prop where
  base : Base ui s
  named : ∀ n ∈ s.stop.reads?, ∀ ino ∈ s.probes? ui, ∀ p ∈ s.files.flock ino, n = p
  signalled : ∀ n holder, s.stop = .held n holder →
    ∃ p, holder = some p ∧ n = p.pid ∧ IsPid p.pid ∧ ∀ q ∈ s.table, q.pid = p.pid → q = p
  sent : s.SignalsHolder

/-- A stop that signals nobody has found no holder. -/
theorem ne_held {stop : StopAt} (h : stop.signals? = none) {n : ℤ} {holder : Option Process} :
    stop ≠ .held n holder := by
  rintro rfl
  cases h

/-- Where `stop` holds no pid, the invariant is about the rest. -/
theorem Inv.of_quiet (hbase : Base ui s) (hreads : s.stop.reads? = none)
    (hsignals : s.stop.signals? = none) (hsent : s.SignalsHolder) : Inv ui s where
  base := hbase
  named := fun n hn => by
    rw [hreads] at hn
    cases hn
  signalled := fun _ _ hheld => absurd hheld (ne_held hsignals)
  sent := hsent

/-- What is read from the file at the path names whoever has its lock. -/
theorem named_of_read (hs : Base ui s) (hok : Undisturbed ui s (.stop (.read true))) {p : Pid}
    (hpath : s.files.path = some ino) (hp : s.files.flock ino = some p) :
    ∀ n ∈ parsePid (s.files.contents ino), n = p := by
  intro n hn
  have hlock := (hs.sound.locks p ino).mp hp
  have htext := hs.sound.texts p ino
  -- by what the owner has done to the file: only a file it has yet to truncate holds another text
  cases hphase : s.files.phase p with
  | idle | failed | opened => simp [hphase, Phase.lock?] at hlock
  | locked i =>
    have hi : i = ino := by simpa [hphase, Phase.lock?] using hlock
    subst hi
    exact hok i hpath p hp hphase n hn
  | truncated i =>
    rw [htext "" hlock (by rw [hphase]; rfl), parsePid_empty] at hn
    cases hn
  | held i | unlinked i =>
    rw [htext (toString p) hlock (by rw [hphase]; rfl)] at hn
    obtain ⟨q, hq, rfl⟩ := hs.alive p ino hp
    rw [parsePid_toString (hs.pids q hq)] at hn
    exact (Option.some.inj hn).symm

/-- The process that has the lock when it is probed is the one whose pid was read. -/
theorem signalled_of_probe (hs : Inv ui s) {p : Pid} (hat : s.stop = .opened pid)
    (hphase : s.files.phase ui.pid = .opened ino) (hp : s.files.flock ino = some p) :
    ∃ q, s.process? p = some q ∧ pid = q.pid ∧ IsPid q.pid ∧
      ∀ r ∈ s.table, r.pid = q.pid → r = q := by
  have hpid : pid = p := by
    refine hs.named pid ?_ ino ?_ p hp
    · rw [hat]
      rfl
    · unfold State.probes?
      rw [hat, hphase]
      rfl
  obtain ⟨q, hq, rfl⟩ := hs.base.alive p ino hp
  exact ⟨q, process?_of_mem hs.base hq, hpid, hs.base.pids q hq,
    fun r hr hrq => List.inj_on_of_nodup_map hs.base.unique hr hq hrq⟩

/-- The signal goes to the process that had the lock, or to nobody. -/
theorem sent_of_kill {holder : Option Process} (hs : Inv ui s) (hat : s.stop = .held pid holder) :
    (kill ui s pid holder).SignalsHolder := by
  obtain ⟨p, rfl, rfl, hpid, hp⟩ := hs.signalled pid holder hat
  unfold kill
  rcases targets_eq_nil_or_singleton hpid.1 hs.base.unique hp with htargets | htargets
  · rw [htargets]
    exact hs.sent
  · rw [htargets]
    exact List.forall_mem_cons.mpr ⟨⟨p, rfl, rfl⟩, hs.sent⟩

/-- The invariant over the calls of `stop`. -/
theorem inv_of_stop (h : stopStep ui s c = some s') (hok : Undisturbed ui s (.stop c))
    (hs : Inv ui s) : Inv ui s' := by
  have hbase := base_of_stop h hs.base
  cases effect_of_stop h with
  | read ino hc _ hpath =>
    subst hc
    refine ⟨hbase, fun n hn i hi p hp => ?_, fun _ _ h => absurd h (ne_held rfl), hs.sent⟩
    have hii : ino = i := Option.some.inj (hpath.symm.trans hi)
    subst hii
    -- under the condition the pid in the file is that of whoever has the lock
    exact named_of_read hs.base hok hpath hp n hn
  | parsed text pid hat hparse =>
    refine ⟨hbase, fun n hn i hi p hp => hs.named n ?_ i ?_ p hp,
      fun _ _ h => absurd h (ne_held rfl), hs.sent⟩
    · rw [hat]
      exact hparse.trans hn
    · unfold State.probes?
      rw [hat]
      exact hi
  | opened pid ino hat hpath =>
    refine ⟨hbase, fun n hn i hi p hp => hs.named n ?_ i ?_ p hp,
      fun _ _ h => absurd h (ne_held rfl), hs.sent⟩
    · rw [hat]
      exact hn
    · have hi' : some ino = some i := by
        simpa [State.probes?, State.setPhase, Phase.file?] using hi
      unfold State.probes?
      rw [hat]
      exact hpath.trans hi'
  | probed pid ino ok _ hat hphase h =>
    obtain ⟨files, hstep, rfl⟩ := Option.map_eq_some_iff.mp h
    refine ⟨hbase, fun n hn => ?_, fun n holder hheld => ?_, hs.sent⟩
    · cases ok with
      | false => cases hn
      | true => cases hfree : s.files.flock ino <;> simp [hfree, StopAt.reads?] at hn
    · cases ok with
      | false => cases hheld
      | true =>
        cases hp : s.files.flock ino with
        | none => simp [hp] at hheld
        | some p =>
          obtain ⟨rfl, rfl⟩ : pid = n ∧ s.process? p = holder := by simpa [hp] using hheld
          -- the probe found the lock held, so the pid that was read is the holder's
          exact signalled_of_probe hs hat hphase hp
  | released hat => exact .of_quiet hbase rfl rfl hs.sent
  | signalled pid holder hat =>
    -- nobody has died and come back as another in between
    have hsent := sent_of_kill hs hat
    obtain ⟨sent, hkill⟩ := kill_eq ui s pid holder
    rw [hkill] at hbase hsent ⊢
    exact .of_quiet hbase rfl rfl hsent
  | moved stop _ hreads hsignals => exact .of_quiet hbase hreads hsignals hs.sent

/-- Where the probe will look after a call of another process: where it would have looked before,
or at a file that is new. -/
theorem probes?_of_step (hstep : Daemon.step s.files call = some files) (hc : call.pid ≠ ui.pid)
    (table : List Process) (h : ino ∈ { s with files := files, table := table }.probes? ui) :
    ino ∈ s.probes? ui ∨ ino = s.files.fresh := by
  unfold State.probes? at h ⊢
  split at h
  next pid hat =>
    dsimp only at hat
    rw [hat]
    rw [phase_of_step hstep (Ne.symm hc)] at h
    exact Or.inl h
  next => exact path_of_step hstep h

/-- Over the steps of the daemons. -/
theorem inv_of_daemon (h : step ui s (.daemon call) = some s')
    (hok : Undisturbed ui s (.daemon call)) (hs : Inv ui s) : Inv ui s' := by
  have hbase := base_of_step h hs.base
  obtain ⟨hne, -, files, hstep, rfl⟩ := daemon_eq_some h
  refine ⟨hbase, fun n hn ino hino p hp => ?_, fun n holder hheld => ?_, hs.sent⟩
  · have hp' : files.flock ino = some p := hp
    -- the lock was there before this call, or this call takes it
    rcases flock_of_step hstep hp' with hlock | ⟨rfl, hopened, hfree⟩
    · rcases probes?_of_step hstep hne _ hino with hino | rfl
      · exact hs.named n hn ino hino p hlock
      · rw [hs.base.sound.flock_fresh] at hlock
        cases hlock
    · rcases probes?_of_step hstep hne _ hino with hino | rfl
      · exact hok n hn ino hino hopened hfree
      · have hlt := hs.base.sound.files p _ (by rw [hopened]; rfl)
        exact absurd hlt (Nat.lt_irrefl _)
  · obtain ⟨p, hp, hn, hpid, huniq⟩ := hs.signalled n holder hheld
    exact ⟨p, hp, hn, hpid, fun q hq => huniq q ((survivors_sublist s.table call).subset hq)⟩

/-- Over new processes. -/
theorem inv_of_spawn {p : Pid} {group : ℕ} (h : step ui s (.spawn p group) = some s')
    (hok : Undisturbed ui s (.spawn p group)) (hs : Inv ui s) : Inv ui s' := by
  have hbase := base_of_step h hs.base
  obtain ⟨-, -, rfl⟩ := spawn_eq_some h
  refine ⟨hbase, hs.named, fun n holder hheld => ?_, hs.sent⟩
  obtain ⟨q, hq, rfl, hqpid, huniq⟩ := hs.signalled n holder hheld
  have hne : (q.pid : ℤ) ≠ p := by
    have hheld' : s.stop = .held q.pid holder := hheld
    exact hok q.pid (by rw [hheld']; rfl)
  refine ⟨q, hq, rfl, hqpid, List.forall_mem_cons.mpr ⟨fun hpq => ?_, huniq⟩⟩
  exact absurd (congrArg Nat.cast hpq.symm) hne

/-- Over every step that meets the condition. -/
theorem inv_step {a : Action} (h : step ui s a = some s') (hok : Undisturbed ui s a)
    (hs : Inv ui s) : Inv ui s' := by
  cases a with
  | stop c => exact inv_of_stop h hok hs
  | daemon call => exact inv_of_daemon h hok hs
  | spawn p group => exact inv_of_spawn h hok hs
  | listen socket =>
    obtain rfl := Option.some.inj h
    exact { hs with base := base_of_step h hs.base }

/-- **Undisturbed, `stop` signals the daemon.** Every signal is addressed to exactly one process,
the one that had the pidfile's lock when the probe found it held. -/
theorem signals_holder_of_undisturbed {b : Boot} {leftover : Option String} {as : List Action}
    {s : State} (hok : Guarded (Undisturbed b.ui) (step b.ui) (b.start leftover) as)
    (hrun : run (step b.ui) (b.start leftover) as = some s) : s.SignalsHolder :=
  (@run_invariant_of_guarded _ _ (step b.ui) _ (fun s => Inv b.ui s)
    (fun _ _ _ hok h hs => inv_step h hok hs) _ _ _ hok hrun
    (.of_quiet (base_start b leftover) rfl rfl fun _ h => absurd h List.not_mem_nil)).sent

/-! ## A leftover that names a stranger -/

/-- The UI and another program, which has got the pid of a daemon that crashed. -/
def bystander : Boot where
  ui := ⟨0, 20, 20⟩
  others := [⟨1, 41, 41⟩]
  unique := by decide
  pids := by decide

/-- A daemon starts while `stop` works on the leftover: it takes the lock between the read and the
probe, and has not written its own pid yet. -/
def overtaken : List Action :=
  [.spawn 57 57, .daemon (.openFile 57 true), .stop (.read true), .stop .parse,
   .daemon (.flock 57 true), .stop (.openFile true), .stop (.flock true), .stop (.kill true)]

/-- The pid of the leftover is signalled, not the daemon. -/
theorem not_signals_holder :
    ¬ ∀ (b : Boot) (leftover : Option String) (as : List Action) (s : State),
      run (step b.ui) (b.start leftover) as = some s → s.SignalsHolder := by
  intro h
  obtain ⟨p, hholder, hreceivers⟩ :=
    h bystander (some "41") overtaken _ rfl ⟨some ⟨2, 57, 57⟩, [⟨1, 41, 41⟩]⟩ List.mem_cons_self
  obtain rfl := Option.some.inj hholder
  exact absurd hreceivers (by decide)

/-- `stop` against a daemon that was up when the pidfile was read, while the next one waits. -/
def answered : List Action :=
  [.spawn 57 57, .daemon (.openFile 57 true), .daemon (.flock 57 true), .daemon (.setLen 57 true),
   .daemon (.writePid 57 true), .listen (some 57), .stop (.read true), .stop .parse,
   .stop (.openFile true), .stop (.flock true), .spawn 60 60, .daemon (.openFile 60 true),
   .stop (.kill true), .listen none, .stop (.poll false)]

theorem signals_holder_of_undisturbed_answered :
    ∃ s, run (step bystander.ui) (bystander.start (some "41")) answered = some s ∧
      s.sent.length = 1 ∧ s.SignalsHolder := by
  have hok : Guarded (Undisturbed bystander.ui) (step bystander.ui) (bystander.start (some "41"))
      answered := by decide
  exact ⟨_, rfl, rfl, @signals_holder_of_undisturbed bystander (some "41") answered _ hok rfl⟩

end RgspCast.Service
