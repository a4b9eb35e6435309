import RgspCast.Ui.Service

/-!
# `Service::stop`, then `Service::start`

`stop` returns when the control socket does not answer any more, but what lets the next daemon start
is the pidfile's lock, which the old one keeps through the shutdown of its runtime and the release
of the audio route. A `start` in between spawns a daemon that is refused (`not_composes`).
`composes_of_released` says at which step this is decided.
-/

namespace RgspCast.Restart

open Daemon Processes Service Transition

/-- Where the daemon that runs at first is in `main`, behind the start of its server. Where it is in
`PidFile::release` is its phase in the files. -/
inductive OldAt where
  | serving
  /-- `control_socket.stop()` was called: the server stops accepting some time from now on. -/
  | stopping
  /-- `runtime.shutdown_timeout` returned. -/
  | down
  /-- `CastSink::release` returned. -/
  | restored
  | exited
  deriving DecidableEq

/-- The call of `Service::start`: `connected` is `Ok`, with the process that answered. -/
inductive StartAt where
  | idle
  | polling
  | connected (p : Pid)
  | failed
  deriving DecidableEq

structure State where
  service : Service.State
  old : OldAt
  start : StartAt
  spawned : Option Pid

/-- A step of the UI, of the old daemon, or of the spawned one. -/
inductive Action where
  | stop (c : StopCall)
  /-- `start` spawns the daemon. -/
  | start (pid : Pid) (group : ℕ)
  /-- A turn of `start`'s loop; `late` tells whether the deadline has passed. -/
  | poll (late : Bool)
  | stopServer
  | hangUp
  | shutdownTimeout
  | releaseSink
  | unlink (ok : Bool)
  | close
  | exit
  /-- A system call of the spawned daemon on its pidfile, or its death. -/
  | spawned (c : Call)
  /-- `ControlHandle::serve` of the spawned daemon, behind `acquire`. -/
  | bind

/-- A process does not answer the control socket any more. -/
def dropSocket (s : Service.State) (p : Pid) : Service.State :=
  { s with socket := if s.socket = some p then none else s.socket }

/-- A system call of a daemon. One that dies answers no more. -/
def daemonStep (ui : Process) (s : Service.State) (c : Call) : Option Service.State :=
  (Service.step ui s (.daemon c)).map fun service =>
    match c with
    | .crash p => dropSocket service p
    | _ => service

/-- Whether the daemon is ready to bind the socket. -/
def ready (s : Service.State) (p : Pid) : Bool :=
  match s.files.phase p with
  | .held _ => true
  | _ => false

def step (ui : Process) (old : Pid) (s : State) : Action → Option State
  | .stop c =>
    if s.start = .idle then
      (stopStep ui s.service c).map fun service => { s with service }
    else none
  | .start pid group =>
    if s.start = .idle ∧ s.service.stop = .returned true then
      (Service.step ui s.service (.spawn pid group)).map fun service =>
        { s with service, start := .polling, spawned := some pid }
    else none
  | .poll late =>
    if s.start = .polling then
      some { s with
        start :=
          match s.service.socket with
          | some p => .connected p
          | none => if late then .failed else .polling }
    else none
  | .stopServer => if s.old = .serving then some { s with old := .stopping } else none
  -- the accept loop may end at any time from `control_socket.stop()` to the exit
  | .hangUp =>
    if s.old ≠ .serving ∧ s.old ≠ .exited then
      some { s with service := dropSocket s.service old }
    else none
  | .shutdownTimeout => if s.old = .stopping then some { s with old := .down } else none
  | .releaseSink => if s.old = .down then some { s with old := .restored } else none
  | .unlink ok =>
    if s.old = .restored then
      (daemonStep ui s.service (.unlink old ok)).map fun service => { s with service }
    else none
  | .close =>
    if s.old = .restored then
      (daemonStep ui s.service (.close old)).map fun service => { s with service }
    else none
  -- `main` returns when `PidFile::release` has closed the file
  | .exit =>
    if s.old = .restored ∧ s.service.files.phase old = .idle then
      (daemonStep ui s.service (.crash old)).map fun service => { s with service, old := .exited }
    else none
  | .spawned c =>
    if s.spawned = some c.pid then
      (daemonStep ui s.service c).map fun service => { s with service }
    else none
  | .bind =>
    match s.spawned with
    -- `serve` removes the path before it binds, so whoever had it answers no more
    | some p =>
      if ready s.service p then some { s with service := { s.service with socket := some p } }
      else none
    | none => none

/-- A table of processes with the UI and a daemon in it. -/
structure Running extends Boot where
  old : Process
  mem : old ∈ others

/-- The daemon holds its pidfile and answers; the UI has called nothing yet. -/
def Running.state (b : Running) : State where
  service :=
    { b.start none with
      files :=
        { path := some 0
          flock := Function.update (fun _ => none) 0 (some b.old.pid)
          contents := fun _ => toString b.old.pid
          fresh := 1
          phase := Function.update (fun _ => .idle) b.old.pid (.held 0) }
      socket := some b.old.pid }
  old := .serving
  start := .idle
  spawned := none

/-- `stop` and `start` compose: the spawned daemon's `acquire` is not refused, no other process has
a `PidFile` when it has one, and who answers `start` is the spawned daemon. -/
structure Composes (s : State) : Prop where
  acquires : ∀ p, s.spawned = some p → s.service.files.phase p ≠ .failed .alreadyExists
  only : ∀ p q, s.spawned = some p → s.service.files.Holds p → s.service.files.Holds q → q = p
  answers : ∀ p q, s.spawned = some p → s.start = .connected q → q = p

/-- When the spawned daemon asks for the lock of the file it opened, the old one has closed that
file, or has never had it. -/
def Released (old : Pid) (s : State) : Action → Prop
  | .spawned (.flock p true) =>
    ∀ ino ∈ (s.service.files.phase p).file?, (s.service.files.phase old).lock? ≠ some ino
  | _ => True

instance decidableReleased (old : Pid) (s : State) : (a : Action) → Decidable (Released old s a)
  | .spawned (.flock p true) =>
    inferInstanceAs (Decidable (∀ ino ∈ (s.service.files.phase p).file?, _))
  | .spawned (.flock _ false) | .spawned (.openFile _ _) | .spawned (.setLen _ _) => isTrue trivial
  | .spawned (.writePid _ _) | .spawned (.unlink _ _) | .spawned (.close _) => isTrue trivial
  | .spawned (.crash _) | .stop _ | .start _ _ | .poll _ | .stopServer | .hangUp => isTrue trivial
  | .shutdownTimeout | .releaseSink | .unlink _ | .close | .exit | .bind => isTrue trivial

/-! ## What the parts change -/

variable {ui : Process} {old p : Pid} {ino : Ino} {v v' : Service.State} {s s' : State}

/-- `stop` moves no other process, and does not touch the path, the processes or the socket. -/
structure StopFrame (ui : Process) (v v' : Service.State) : Prop where
  phase : ∀ p, p ≠ ui.pid → v'.files.phase p = v.files.phase p
  path : v'.files.path = v.files.path
  table : v'.table = v.table
  socket : v'.socket = v.socket
  /-- `Ok` is returned only where nobody answers. -/
  returned : v'.stop = .returned true → v.socket = none

/-- All that a call of `stop` changes. -/
theorem frame_of_stop {c : StopCall} (h : stopStep ui v c = some v') : StopFrame ui v v' := by
  cases effect_of_stop h with
  | read | parsed => exact ⟨fun _ _ => rfl, rfl, rfl, rfl, StopAt.noConfusion⟩
  | opened pid ino =>
    exact ⟨fun p hp => Function.update_of_ne hp _ _, rfl, rfl, rfl, StopAt.noConfusion⟩
  | probed pid ino ok _ hat hphase h =>
    obtain ⟨files, hstep, rfl⟩ := Option.map_eq_some_iff.mp h
    refine ⟨fun p hp => phase_of_step hstep hp, ?_, rfl, rfl, fun hreturned => ?_⟩
    · simp only [Daemon.step, hphase, Option.some.injEq] at hstep
      subst hstep
      split
      next => rfl
      next => split <;> rfl
    · cases ok with
      | false => cases hreturned
      | true => cases hp : v.files.flock ino <;> simp [hp] at hreturned
  | released => exact ⟨fun p hp => Function.update_of_ne hp _ _, rfl, rfl, rfl, StopAt.noConfusion⟩
  | signalled pid holder =>
    obtain ⟨sent, hkill⟩ := kill_eq ui v pid holder
    rw [hkill]
    exact ⟨fun _ _ => rfl, rfl, rfl, rfl, StopAt.noConfusion⟩
  | moved stop _ _ _ hok => exact ⟨fun _ _ => rfl, rfl, rfl, rfl, hok⟩

/-- A daemon's call changes the files, and the socket at most by leaving it. -/
theorem daemonStep_eq_some {c : Call} (h : daemonStep ui v c = some v') :
    c.pid ≠ ui.pid ∧ ∃ files socket, Daemon.step v.files c = some files ∧
      (∀ q, socket = some q → v.socket = some q) ∧
      v' = { v with files := files, table := survivors v.table c, socket := socket } := by
  obtain ⟨service, hservice, rfl⟩ := Option.map_eq_some_iff.mp h
  obtain ⟨hne, -, files, hstep, rfl⟩ := daemon_eq_some hservice
  refine ⟨hne, files, ?_⟩
  cases c with
  | crash p =>
    refine ⟨if v.socket = some p then none else v.socket, hstep, fun q hq => ?_, rfl⟩
    split at hq
    next => cases hq
    next => exact hq
  | _ => exact ⟨v.socket, hstep, fun _ => id, rfl⟩

/-- The daemon's steps keep the basic invariant. -/
theorem base_of_daemonStep {c : Call} (h : daemonStep ui v c = some v') (hv : Base ui v) :
    Base ui v' := by
  obtain ⟨service, hservice, rfl⟩ := Option.map_eq_some_iff.mp h
  have hbase := base_of_step hservice hv
  cases c with
  | crash p => exact { hbase with }
  | _ => exact hbase

/-! ## Runs that release first -/

/-- Up to its exit the old daemon has a pid of its own. No one but the UI, the old daemon and the
spawned one has the file open; while the old daemon has its `PidFile`, it is the one at the path and
the spawned daemon has no more than opened it. Who answers the socket is the spawned daemon, or, up
to the `Ok` of `stop`, the old one. -/
structure Inv (ui : Process) (old : Pid) (s : State) : Prop where
  base : Base ui s.service
  apart : old ≠ ui.pid
  alive : s.old ≠ .exited → ∃ q ∈ s.service.table, q.pid = old
  fresh : ∀ p, s.spawned = some p → p ≠ ui.pid ∧ (s.old ≠ .exited → p ≠ old)
  before : s.start = .idle → s.spawned = none
  stopped : s.start ≠ .idle → s.service.stop = .returned true
  others : ∀ p, p ≠ ui.pid → s.spawned ≠ some p → (p = old → s.old = .exited) →
    s.service.files.phase p = .idle
  held : ∀ i, s.old ≠ .exited → s.service.files.phase old = .held i →
    s.service.files.path = some i ∧ ∀ p j, s.spawned = some p →
      (s.service.files.phase p).file? = some j → s.service.files.phase p = .opened i
  acquires : ∀ p, s.spawned = some p → s.service.files.phase p ≠ .failed .alreadyExists
  socket : ∀ p, s.service.socket = some p →
    s.spawned = some p ∨ s.spawned = none ∧ s.service.stop ≠ .returned true
  connected : ∀ p, s.start = .connected p → s.spawned = some p

/-- The daemon is not the UI. -/
theorem Running.apart (b : Running) : b.old.pid ≠ b.ui.pid := by
  intro h
  have hmem : b.old.pid ∈ b.others.map (·.pid) := List.mem_map_of_mem b.mem
  rw [h] at hmem
  exact (List.nodup_cons.mp b.unique).1 hmem

/-- The phase of a process at the start: the old daemon's, or none. -/
theorem Running.phase_of_ne (b : Running) (hp : p ≠ b.old.pid) :
    b.state.service.files.phase p = .idle := by
  show Function.update (fun _ => Phase.idle) b.old.pid (.held 0) p = .idle
  exact Function.update_of_ne hp _ _

/-- The daemon holds its file. -/
theorem Running.phase_old (b : Running) : b.state.service.files.phase b.old.pid = .held 0 := by
  show Function.update (fun _ => Phase.idle) b.old.pid (.held 0) b.old.pid = .held 0
  exact Function.update_self ..

/-- The state of a running daemon is sound. -/
theorem Running.sound (b : Running) : Sound b.state.service.files := by
  refine ⟨fun q i => ?_, fun q i text hq htext => ?_, fun q i hq => ?_, fun i hi => ?_⟩
  · show Function.update (fun _ => none) 0 (some b.old.pid) i = some q ↔ _
    by_cases hq : q = b.old.pid
    · subst hq
      rw [b.phase_old]
      by_cases hi : i = 0
      · simp [hi, Phase.lock?]
      · simp [hi, Phase.lock?, Ne.symm hi]
    · rw [b.phase_of_ne hq]
      by_cases hi : i = 0
      · simp [hi, Phase.lock?, Ne.symm hq]
      · simp [hi, Phase.lock?]
  · by_cases hqo : q = b.old.pid
    · subst hqo
      rw [b.phase_old] at htext
      exact Option.some.inj htext
    · rw [b.phase_of_ne hqo] at htext
      cases htext
  · by_cases hqo : q = b.old.pid
    · subst hqo
      rw [b.phase_old] at hq
      exact Option.some.inj hq ▸ Nat.zero_lt_one
    · rw [b.phase_of_ne hqo] at hq
      cases hq
  · exact Option.some.inj hi ▸ Nat.zero_lt_one

/-- The invariant at the start. -/
theorem inv_state (b : Running) : Inv b.ui b.old.pid b.state := by
  have hbase := base_start b.toBoot none
  refine ⟨⟨b.sound, hbase.unique, hbase.pids, hbase.mem, Or.inl ?_, fun p i hp => ?_⟩, b.apart,
    fun _ => ⟨b.old, List.mem_cons_of_mem _ b.mem, rfl⟩, nofun, fun _ => rfl,
    fun h => absurd rfl h, fun p _ _ hp => b.phase_of_ne fun h => (nomatch hp h),
    fun i _ hi => ?_, nofun, fun _ _ => Or.inr ⟨rfl, nofun⟩, nofun⟩
  · rw [b.phase_of_ne b.apart.symm]
    rfl
  · have hlock := (b.sound.locks p i).mp hp
    by_cases hpo : p = b.old.pid
    · exact ⟨b.old, List.mem_cons_of_mem _ b.mem, hpo.symm⟩
    · rw [b.phase_of_ne hpo] at hlock
      cases hlock
  · rw [b.phase_old] at hi
    cases hi
    exact ⟨rfl, nofun⟩

/-- Once a daemon is spawned, the UI has no lock any more: its `stop` is over. -/
theorem Inv.ui_quiet (hs : Inv ui old s) (hspawned : s.spawned = some p) :
    (s.service.files.phase ui.pid).lock? = none := by
  have hstart : s.start ≠ .idle := fun hidle => by
    rw [hs.before hidle] at hspawned
    cases hspawned
  exact hs.base.quiet.resolve_right (by rw [hs.stopped hstart]; nofun)

/-- Nobody else has a `PidFile` when the spawned daemon has one, and nobody else answers. -/
theorem Inv.composes (hs : Inv ui old s) : Composes s where
  acquires := hs.acquires
  only := by
    rintro p q hp ⟨i, hpi⟩ ⟨j, hqj⟩
    by_contra hqp
    have hui : q ≠ ui.pid := by
      rintro rfl
      have hquiet := hs.ui_quiet hp
      rw [hqj] at hquiet
      cases hquiet
    -- a process that is none of the three has no file at all, and neither has one that exited
    by_cases hq : q = old → s.old = .exited
    · have hidle := hs.others q hui (fun h => hqp (Option.some.inj (h.symm.trans hp))) hq
      rw [hqj] at hidle
      cases hidle
    -- while the old daemon has its `PidFile`, the spawned one has no more than opened a file
    · obtain ⟨rfl, hold⟩ := Classical.not_imp.mp hq
      obtain ⟨-, hopened⟩ := hs.held j hold hqj
      have hpi' := hopened p i hp (by rw [hpi]; rfl)
      rw [hpi] at hpi'
      cases hpi'
  answers := fun p q hp hq => Option.some.inj ((hs.connected q hq).symm.trans hp)

/-- A step of `stop`. -/
theorem inv_of_stop {c : StopCall} (h : step ui old s (.stop c) = some s') (hs : Inv ui old s) :
    Inv ui old s' := by
  obtain ⟨hstart, h⟩ := Option.ite_none_right_eq_some.mp h
  obtain ⟨v, hv, rfl⟩ := Option.map_eq_some_iff.mp h
  have hframe := frame_of_stop hv
  have hnone := hs.before hstart
  refine ⟨base_of_stop hv hs.base, hs.apart, fun hold => ?_, hs.fresh, hs.before,
    fun h => absurd hstart h, fun p hui hp hpo => ?_, fun i hold hi => ?_, fun p hp => ?_,
    fun p hp => ?_, hs.connected⟩
  · show ∃ q ∈ v.table, q.pid = old
    rw [hframe.table]
    exact hs.alive hold
  · exact (hframe.phase p hui).trans (hs.others p hui hp hpo)
  · have hi' : s.service.files.phase old = .held i := (hframe.phase old hs.apart).symm.trans hi
    refine ⟨hframe.path.trans (hs.held i hold hi').1, fun p j hp => ?_⟩
    exact absurd (hp.symm.trans hnone) nofun
  · exact absurd (hp.symm.trans hnone) nofun
  · have hp' : s.service.socket = some p := hframe.socket.symm.trans hp
    refine Or.inr ⟨hnone, fun hreturned => ?_⟩
    rw [hframe.returned hreturned] at hp'
    cases hp'

/-- `start` spawns a process with a pid that is not in use. -/
theorem inv_of_start {pid : Pid} {group : ℕ} (h : step ui old s (.start pid group) = some s')
    (hs : Inv ui old s) : Inv ui old s' := by
  obtain ⟨hstart, h⟩ := Option.ite_none_right_eq_some.mp h
  obtain ⟨hidle, hreturned⟩ := hstart
  obtain ⟨v, hv, rfl⟩ := Option.map_eq_some_iff.mp h
  have hbase := base_of_step hv hs.base
  obtain ⟨-, hnew, rfl⟩ := spawn_eq_some hv
  have hnone := hs.before hidle
  -- a pid that is new is nobody's who is alive
  have hui : pid ≠ ui.pid := (hnew ui hs.base.mem).symm
  have hold : s.old ≠ .exited → pid ≠ old := by
    intro hrunning hpid
    obtain ⟨q, hq, hqpid⟩ := hs.alive hrunning
    exact hnew q hq (hqpid.trans hpid.symm)
  have hphase : s.service.files.phase pid = .idle := by
    refine hs.others pid hui (by rw [hnone]; nofun) fun hpid => ?_
    by_contra hrunning
    exact hold hrunning hpid
  refine ⟨hbase, hs.apart, fun hrunning => ?_, fun p hp => ?_, nofun, fun _ => hreturned,
    fun p hpui hp hpo => ?_, fun i hrunning hi => ?_, fun p hp => ?_, fun p hp => ?_, nofun⟩
  · obtain ⟨q, hq, hqpid⟩ := hs.alive hrunning
    exact ⟨q, List.mem_cons_of_mem _ hq, hqpid⟩
  · obtain rfl := Option.some.inj hp
    exact ⟨hui, hold⟩
  · exact hs.others p hpui (by rw [hnone]; nofun) hpo
  · refine ⟨(hs.held i hrunning hi).1, fun p j hp hj => ?_⟩
    obtain rfl := Option.some.inj hp
    rw [show s.service.files.phase pid = .idle from hphase] at hj
    cases hj
  · obtain rfl := Option.some.inj hp
    show s.service.files.phase pid ≠ _
    rw [hphase]
    nofun
  -- `stop` has returned, so the old daemon does not answer any more
  · rcases hs.socket p hp with hp | ⟨-, hp⟩
    · exact absurd (hp.symm.trans hnone) nofun
    · exact absurd hreturned hp

/-- The old daemon goes on, or leaves the socket. -/
theorem Inv.advance {at' : OldAt} {socket : Option Pid} (hs : Inv ui old s)
    (hat : s.old ≠ .exited) (hat' : at' ≠ .exited)
    (hsocket : ∀ p, socket = some p → s.service.socket = some p) :
    Inv ui old { s with old := at', service := { s.service with socket := socket } } where
  base := { hs.base with }
  apart := hs.apart
  alive := fun _ => hs.alive hat
  fresh := fun p hp => ⟨(hs.fresh p hp).1, fun _ => (hs.fresh p hp).2 hat⟩
  before := hs.before
  stopped := hs.stopped
  others := fun p hui hp hpo => hs.others p hui hp fun h => absurd (hpo h) hat'
  held := fun i _ => hs.held i hat
  acquires := hs.acquires
  socket := fun p hp => hs.socket p (hsocket p hp)
  connected := hs.connected

/-- A call of the old daemon behind which it has no `PidFile`, or its exit. -/
theorem inv_of_old {c : Call} {at' : OldAt} (h : daemonStep ui s.service c = some v)
    (hc : c.pid = old) (hat : s.old ≠ .exited)
    (hheld : ∀ files, Daemon.step s.service.files c = some files → ∀ i, files.phase old ≠ .held i)
    (hexit : at' ≠ .exited ∧ survivors s.service.table c = s.service.table ∨
      at' = .exited ∧ ∀ files, Daemon.step s.service.files c = some files → files.phase old = .idle)
    (hs : Inv ui old s) : Inv ui old { s with service := v, old := at' } := by
  have hbase := base_of_daemonStep h hs.base
  obtain ⟨-, files, socket, hstep, hsocket, rfl⟩ := daemonStep_eq_some h
  have hother : ∀ p, p ≠ old → files.phase p = s.service.files.phase p := fun p hp =>
    phase_of_step hstep (hc ▸ hp)
  refine ⟨hbase, hs.apart, fun hrunning => ?_,
    fun p hp => ⟨(hs.fresh p hp).1, fun _ => (hs.fresh p hp).2 hat⟩, hs.before, hs.stopped,
    fun p hui hp hpo => ?_, fun i _ hi => absurd hi (hheld files hstep i), fun p hp => ?_,
    fun p hp => hs.socket p (hsocket p hp), hs.connected⟩
  · rcases hexit with ⟨-, htable⟩ | ⟨hexited, -⟩
    · show ∃ q ∈ survivors s.service.table c, q.pid = old
      rw [htable]
      exact hs.alive hat
    · exact absurd hexited hrunning
  · by_cases hpold : p = old
    · subst hpold
      rcases hexit with ⟨hrunning, -⟩ | ⟨-, hidle⟩
      · exact absurd (hpo rfl) hrunning
      · exact hidle files hstep
    · exact (hother p hpold).trans (hs.others p hui hp fun h => absurd h hpold)
  · show files.phase p ≠ _
    rw [hother p ((hs.fresh p hp).2 hat)]
    exact hs.acquires p hp

/-- The spawned daemon finds the lock free where the old one has it no more. -/
theorem free_of_released (hs : Inv ui old s) (hspawned : s.spawned = some p)
    (hok : Released old s (.spawned (.flock p true)))
    (hphase : s.service.files.phase p = .opened ino) (q : Pid) :
    s.service.files.flock ino ≠ some q := by
  intro hq
  have hlock := (hs.base.sound.locks q ino).mp hq
  by_cases hui : q = ui.pid
  · rw [hui, hs.ui_quiet hspawned] at hlock
    cases hlock
  by_cases hqp : q = p
  · rw [hqp, hphase] at hlock
    cases hlock
  by_cases hqold : q = old
  · subst hqold
    exact hok ino (by rw [hphase]; rfl) hlock
  have hidle := hs.others q hui (fun h => hqp (Option.some.inj (h.symm.trans hspawned)))
    fun h => absurd h hqold
  rw [hidle] at hlock
  cases hlock

/-- A call of the spawned daemon. -/
theorem inv_of_spawned {c : Call} (h : step ui old s (.spawned c) = some s')
    (hok : Released old s (.spawned c)) (hs : Inv ui old s) : Inv ui old s' := by
  obtain ⟨hspawned, h⟩ := Option.ite_none_right_eq_some.mp h
  obtain ⟨v, hv, rfl⟩ := Option.map_eq_some_iff.mp h
  have hbase := base_of_daemonStep hv hs.base
  obtain ⟨hne, files, socket, hstep, hsocket, rfl⟩ := daemonStep_eq_some hv
  have hother : ∀ p, p ≠ c.pid → files.phase p = s.service.files.phase p := fun p hp =>
    phase_of_step hstep hp
  refine ⟨hbase, hs.apart, fun hrunning => ?_, hs.fresh, hs.before, hs.stopped,
    fun p hui hp hpo => ?_, fun i hrunning hi => ?_, fun p hp => ?_,
    fun p hp => hs.socket p (hsocket p hp), hs.connected⟩
  · obtain ⟨q, hq, hqpid⟩ := hs.alive hrunning
    have hqc : q.pid ≠ c.pid := hqpid ▸ ((hs.fresh _ hspawned).2 hrunning).symm
    exact ⟨q, mem_survivors hq hqc, hqpid⟩
  · have hpc : p ≠ c.pid := fun h => hp (h ▸ hspawned)
    exact (hother p hpc).trans (hs.others p hui hp hpo)
  -- the old daemon has the lock, so the spawned one cannot get past opening the file
  · have hi' : s.service.files.phase old = .held i :=
      (hother old ((hs.fresh _ hspawned).2 hrunning).symm).symm.trans hi
    obtain ⟨hpath, hopened⟩ := hs.held i hrunning hi'
    have hlocked : s.service.files.flock i = some old :=
      (hs.base.sound.locks old i).mpr (by rw [hi']; rfl)
    obtain ⟨hpath', hopened'⟩ :=
      opened_of_step hstep hpath (by rw [hlocked]; nofun) fun j => hopened c.pid j hspawned
    refine ⟨hpath', fun p j hp hj => ?_⟩
    obtain rfl := Option.some.inj (hspawned.symm.trans hp)
    exact hopened' j hj
  -- a refusal needs somebody who has the lock, and a `Released` run leaves nobody
  · obtain rfl := Option.some.inj (hspawned.symm.trans hp)
    intro hrefused
    rcases refused_of_step hstep hrefused with hbefore | ⟨ino, hflock, hphase, htaken⟩
    · exact hs.acquires _ hspawned hbefore
    · obtain ⟨q, hq⟩ := Option.ne_none_iff_exists'.mp htaken
      exact absurd hq (free_of_released hs hspawned (hflock ▸ hok) hphase q)

/-- The spawned daemon binds the socket, in the place of whoever had it. -/
theorem inv_of_bind (h : step ui old s .bind = some s') (hs : Inv ui old s) : Inv ui old s' := by
  simp only [step] at h
  split at h
  next p hspawned =>
    split at h
    next =>
      rw [Option.some.injEq] at h
      subst h
      refine ⟨{ hs.base with }, hs.apart, hs.alive, hs.fresh, hs.before, hs.stopped, hs.others,
        hs.held, hs.acquires, fun q hq => Or.inl ?_, hs.connected⟩
      exact hspawned.trans hq
    next => cases h
  next => cases h

/-- Every step under the condition keeps the invariant. -/
theorem inv_step {a : Action} (h : step ui old s a = some s') (hok : Released old s a)
    (hs : Inv ui old s) : Inv ui old s' := by
  cases a with
  | stop c => exact inv_of_stop h hs
  | start pid group => exact inv_of_start h hs
  | poll late =>
    obtain ⟨hpolling, rfl⟩ := Option.ite_some_none_eq_some.mp h
    have hstart : s.start ≠ .idle := by rw [hpolling]; nofun
    have hreturned := hs.stopped hstart
    refine ⟨hs.base, hs.apart, hs.alive, hs.fresh, fun hidle => ?_, fun _ => hreturned, hs.others,
      hs.held, hs.acquires, hs.socket, fun p hp => ?_⟩
    · cases hsocket : s.service.socket with
      | some p => simp [hsocket] at hidle
      | none => cases late <;> simp [hsocket] at hidle
    -- who answers is not the old daemon: it left the socket before `stop` returned
    · cases hsocket : s.service.socket with
      | some q =>
        obtain rfl : q = p := by simpa [hsocket] using hp
        exact (hs.socket q hsocket).resolve_right fun h => h.2 hreturned
      | none => cases late <;> simp [hsocket] at hp
  | hangUp =>
    obtain ⟨hat, rfl⟩ := Option.ite_some_none_eq_some.mp h
    refine hs.advance hat.2 hat.2 fun p hp => ?_
    split at hp
    next => cases hp
    next => exact hp
  | stopServer | shutdownTimeout | releaseSink =>
    obtain ⟨hat, rfl⟩ := Option.ite_some_none_eq_some.mp h
    exact hs.advance (by rw [hat]; nofun) nofun fun _ => id
  | unlink ok =>
    obtain ⟨hat, h⟩ := Option.ite_none_right_eq_some.mp h
    obtain ⟨v, hv, rfl⟩ := Option.map_eq_some_iff.mp h
    have hrunning : s.old ≠ .exited := by rw [hat]; nofun
    refine inv_of_old hv rfl hrunning (fun files hstep i hi => ?_) (Or.inl ⟨hrunning, rfl⟩) hs
    obtain ⟨j, hj⟩ := phase_of_unlink hstep
    rw [hj] at hi
    cases hi
  | close =>
    obtain ⟨hat, h⟩ := Option.ite_none_right_eq_some.mp h
    obtain ⟨v, hv, rfl⟩ := Option.map_eq_some_iff.mp h
    have hrunning : s.old ≠ .exited := by rw [hat]; nofun
    refine inv_of_old hv rfl hrunning (fun files hstep i hi => ?_) (Or.inl ⟨hrunning, rfl⟩) hs
    rw [phase_of_close hstep] at hi
    cases hi
  | exit =>
    obtain ⟨hat, h⟩ := Option.ite_none_right_eq_some.mp h
    obtain ⟨v, hv, rfl⟩ := Option.map_eq_some_iff.mp h
    have hrunning : s.old ≠ .exited := by rw [hat.1]; nofun
    refine inv_of_old hv rfl hrunning (fun files hstep i hi => ?_)
      (Or.inr ⟨rfl, fun files hstep => phase_of_crash hstep⟩) hs
    rw [phase_of_crash hstep] at hi
    cases hi
  | spawned c => exact inv_of_spawned h hok hs
  | bind => exact inv_of_bind h hs

/-- **Stop, then start.** Where the spawned daemon asks for the lock only when the old one does not
have it any more, it is not refused, it is the only one with a `PidFile`, and it is the one that
answers `start`. -/
theorem composes_of_released {b : Running} {as : List Action} {s : State}
    (hok : Guarded (Released b.old.pid) (step b.ui b.old.pid) b.state as)
    (hrun : run (step b.ui b.old.pid) b.state as = some s) : Composes s :=
  (@run_invariant_of_guarded _ _ (step b.ui b.old.pid) _ (fun s => Inv b.ui b.old.pid s)
    (fun _ _ _ hok h hs => inv_step h hok hs) _ _ _ hok hrun (inv_state b)).composes

/-! ## A start that comes too early -/

/-- The UI and a daemon. -/
def casting : Running where
  ui := ⟨0, 20, 20⟩
  others := [⟨1, 41, 41⟩]
  unique := Service.bystander.unique
  pids := Service.bystander.pids
  old := ⟨1, 41, 41⟩
  mem := by decide

/-- `stop` signals the daemon and sees the socket closed, and the next daemon comes up to the lock
while the old one is still shutting down its runtime. -/
def tooEarly : List Action :=
  [.stop (.read true), .stop .parse, .stop (.openFile true), .stop (.flock true),
   .stop (.kill true), .stopServer, .hangUp, .stop (.poll false), .start 57 57,
   .spawned (.openFile 57 true), .spawned (.flock 57 true)]

/-- The spawned daemon is refused. -/
theorem not_composes :
    ¬ ∀ (b : Running) (as : List Action) (s : State),
      run (step b.ui b.old.pid) b.state as = some s → Composes s := by
  intro h
  exact (h casting tooEarly _ rfl).acquires 57 rfl rfl

/-- The same, with the old daemon closing its pidfile before the spawned one asks for the lock. -/
def inTime : List Action :=
  [.stop (.read true), .stop .parse, .stop (.openFile true), .stop (.flock true),
   .stop (.kill true), .stopServer, .hangUp, .stop (.poll false), .start 57 57, .poll false,
   .shutdownTimeout, .releaseSink, .unlink true, .spawned (.openFile 57 true), .close,
   .spawned (.flock 57 true), .exit, .spawned (.setLen 57 true), .spawned (.writePid 57 true),
   .bind, .poll false]

theorem composes_of_released_inTime :
    ∃ s, run (step casting.ui casting.old.pid) casting.state inTime = some s ∧
      s.start = .connected 57 ∧ s.service.files.Holds 57 ∧ Composes s := by
  have hok : Guarded (Released casting.old.pid) (step casting.ui casting.old.pid) casting.state
      inTime := by decide
  exact ⟨_, rfl, rfl, ⟨1, rfl⟩, @composes_of_released casting inTime _ hok rfl⟩

end RgspCast.Restart
