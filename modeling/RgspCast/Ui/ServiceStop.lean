import RgspCast.Ui.Service

/-!
# `Service::stop` in any environment

Here nothing is assumed of what `stop` finds. A step is the answer to the system call it is at, so a
schedule is a behaviour of the environment during one call: any pidfile, any lock, any outcome of
the signal, any clock, and a socket that answers as it likes.

`stop_sound` is what holds however the environment behaves: success is reported only on a probe of
the socket that failed to connect, and the one signal there may be comes after the pid was parsed
and the lock seen held. The calls of `stop` in `Service`, where the environment is other processes,
are among these runs (`exists_run_of_service`).
-/

namespace RgspCast.ServiceStop

open Processes Transition

/-- `ErrorKind`, as far as `stop` tells kinds apart. -/
inductive ErrorKind where
  | notFound
  | wouldBlock
  | other
  deriving DecidableEq, Repr

/-- `libc::ESRCH`: no such process. -/
def esrch : ℤ := 3

/-- The errors of `stop`. -/
inductive StopError where
  /-- "reading {pidfile}" -/
  | reading (kind : ErrorKind)
  /-- "{pidfile} does not contain a valid pid: {contents:?}" -/
  | invalidPid (contents : String)
  /-- "opening {pidfile} to probe its lock" -/
  | opening (kind : ErrorKind)
  /-- "probing the lock on {pidfile}" -/
  | probing (kind : ErrorKind)
  /-- "sending SIGTERM to pid {pid}" -/
  | sending (pid : ℤ) (errno : ℤ)
  /-- "pid {pid} did not stop answering on {socket} within {stop_timeout:?}" -/
  | timedOut (pid : ℤ)
  /-- "{reason}, but something is still answering on {socket} — refusing to report the daemon
  stopped" -/
  | stillAnswering (reason : String)
  deriving DecidableEq, Repr

/-- The system call `stop` is at. -/
inductive At where
  /-- `read_to_string` of the pidfile. -/
  | reading
  /-- `pidfile_lock_is_held`: the file is opened, and its lock asked for. -/
  | opening (pid : ℤ)
  | locking (pid : ℤ)
  /-- `kill(pid, SIGTERM)`. -/
  | killing (pid : ℤ)
  /-- The clock is read for the deadline. -/
  | starting (pid : ℤ)
  /-- The wait loop: the socket is probed, and the clock read where it answers. -/
  | polling (pid : ℤ) (deadline : ℕ)
  | answered (pid : ℤ) (deadline : ℕ)
  /-- `confirm_not_serving`. -/
  | confirming (reason : String)
  | returned (result : Except StopError Unit)

/-- What a system call returns. -/
inductive Answer where
  | read (result : Except ErrorKind String)
  | openFile (result : Except ErrorKind Unit)
  | flock (result : Except ErrorKind Unit)
  /-- `none` is success, and otherwise it is the `errno`. -/
  | kill (errno : Option ℤ)
  | now (t : ℕ)
  /-- `socket_answers`: whether a connection was made. -/
  | connect (answers : Bool)

/-- One system call of `stop`; `none` where it is at another. -/
def step (stopTimeout : ℕ) : At → Answer → Option At
  | .reading, .read (.error .notFound) => some (.confirming "there is no pidfile")
  | .reading, .read (.error kind) => some (.returned (.error (.reading kind)))
  | .reading, .read (.ok contents) =>
    match parsePid contents with
    | some pid => some (.opening pid)
    | none => some (.returned (.error (.invalidPid contents)))
  -- vanished since it was read: nothing to hold a lock on
  | .opening _, .openFile (.error .notFound) =>
    some (.confirming "nobody holds the pidfile's lock")
  | .opening _, .openFile (.error kind) => some (.returned (.error (.opening kind)))
  | .opening pid, .openFile (.ok ()) => some (.locking pid)
  -- granted, and released at once
  | .locking _, .flock (.ok ()) => some (.confirming "nobody holds the pidfile's lock")
  | .locking pid, .flock (.error .wouldBlock) => some (.killing pid)
  | .locking _, .flock (.error kind) => some (.returned (.error (.probing kind)))
  | .killing pid, .kill none => some (.starting pid)
  | .killing pid, .kill (some errno) =>
    if errno ≠ esrch then some (.returned (.error (.sending pid errno))) else some (.starting pid)
  | .starting pid, .now t => some (.polling pid (t + stopTimeout))
  | .polling _ _, .connect false => some (.returned (.ok ()))
  | .polling pid deadline, .connect true => some (.answered pid deadline)
  -- before the deadline `stop` sleeps for `POLL_INTERVAL` and goes round
  | .answered pid deadline, .now t =>
    if deadline ≤ t then some (.returned (.error (.timedOut pid))) else some (.polling pid deadline)
  | .confirming reason, .connect answers =>
    some (.returned (if answers then .error (.stillAnswering reason) else .ok ()))
  | _, _ => none

/-- What the probes of the socket found, in order. -/
def probes (as : List Answer) : List Bool :=
  as.filterMap fun
    | .connect answers => some answers
    | _ => none

/-- A signal was sent, or refused. -/
def Answer.isKill : Answer → Bool
  | .kill _ => true
  | _ => false

/-- The answers on the way to a signal: a pidfile with these contents, whose lock is held. -/
def lockHeld (contents : String) : List Answer :=
  [.read (.ok contents), .openFile (.ok ()), .flock (.error .wouldBlock)]

/-! ## What the answers so far were -/

/-- What brought `stop` to the call it is at. -/
def Past (as : List Answer) : At → Prop
  | .reading => as = []
  | .opening pid => ∃ contents, parsePid contents = some pid ∧ as = [.read (.ok contents)]
  | .locking pid =>
    ∃ contents, parsePid contents = some pid ∧ as = [.read (.ok contents), .openFile (.ok ())]
  | .killing pid => ∃ contents, parsePid contents = some pid ∧ as = lockHeld contents
  | .starting _ | .polling _ _ | .answered _ _ | .confirming _ => as.countP Answer.isKill ≤ 1
  | .returned result =>
    as.countP Answer.isKill ≤ 1 ∧ (result = .ok () → (probes as).getLast? = some false)

/-- The last probe is the last answer. -/
theorem probes_concat_connect (as : List Answer) (answers : Bool) :
    (probes (as ++ [.connect answers])).getLast? = some answers := by
  rw [probes, List.filterMap_append]
  exact List.getLast?_concat

/-- An answer that is no signal adds none. -/
theorem countP_concat {as : List Answer} {a : Answer} (h : as.countP Answer.isKill ≤ 1)
    (ha : a.isKill = false) : (as ++ [a]).countP Answer.isKill ≤ 1 := by
  rw [List.countP_append, List.countP_singleton, ha]
  exact h

section Step

variable {stopTimeout : ℕ} {as : List Answer} {s' : At} {pid : ℤ} {deadline : ℕ}

/-- What has happened once the pidfile has been read. -/
theorem past_of_read {result : Except ErrorKind String}
    (h : step stopTimeout .reading (.read result) = some s') : Past [.read result] s' := by
  cases result with
  | error kind =>
    cases kind with
    | notFound =>
      obtain rfl := Option.some.inj h
      exact Nat.zero_le 1
    | wouldBlock | other =>
      obtain rfl := Option.some.inj h
      exact ⟨Nat.zero_le 1, nofun⟩
  | ok contents =>
    simp only [step] at h
    split at h
    next pid hparse =>
      obtain rfl := Option.some.inj h
      exact ⟨contents, hparse, rfl⟩
    next =>
      obtain rfl := Option.some.inj h
      exact ⟨Nat.zero_le 1, nofun⟩

/-- Once it has been opened. -/
theorem past_of_openFile {result : Except ErrorKind Unit}
    (h : step stopTimeout (.opening pid) (.openFile result) = some s')
    (hs : Past as (.opening pid)) : Past (as ++ [.openFile result]) s' := by
  obtain ⟨contents, hparse, rfl⟩ := hs
  cases result with
  | error kind =>
    cases kind with
    | notFound =>
      obtain rfl := Option.some.inj h
      exact Nat.zero_le 1
    | wouldBlock | other =>
      obtain rfl := Option.some.inj h
      exact ⟨Nat.zero_le 1, nofun⟩
  | ok =>
    obtain rfl := Option.some.inj h
    exact ⟨contents, hparse, rfl⟩

/-- Once its lock has been probed. -/
theorem past_of_flock {result : Except ErrorKind Unit}
    (h : step stopTimeout (.locking pid) (.flock result) = some s')
    (hs : Past as (.locking pid)) : Past (as ++ [.flock result]) s' := by
  obtain ⟨contents, hparse, rfl⟩ := hs
  cases result with
  | error kind =>
    cases kind with
    | wouldBlock =>
      obtain rfl := Option.some.inj h
      exact ⟨contents, hparse, rfl⟩
    | notFound | other =>
      obtain rfl := Option.some.inj h
      exact ⟨Nat.zero_le 1, nofun⟩
  | ok =>
    obtain rfl := Option.some.inj h
    exact Nat.zero_le 1

/-- The one signal. -/
theorem past_of_kill {errno : Option ℤ}
    (h : step stopTimeout (.killing pid) (.kill errno) = some s')
    (hs : Past as (.killing pid)) : Past (as ++ [.kill errno]) s' := by
  obtain ⟨contents, -, rfl⟩ := hs
  cases errno with
  | none =>
    obtain rfl := Option.some.inj h
    exact Nat.le_refl 1
  | some errno =>
    simp only [step] at h
    split at h
    next =>
      obtain rfl := Option.some.inj h
      exact ⟨Nat.le_refl 1, nofun⟩
    next =>
      obtain rfl := Option.some.inj h
      exact Nat.le_refl 1

/-- After a probe of the socket. -/
theorem past_of_poll {answers : Bool}
    (h : step stopTimeout (.polling pid deadline) (.connect answers) = some s')
    (hs : Past as (.polling pid deadline)) : Past (as ++ [.connect answers]) s' := by
  cases answers with
  | true =>
    obtain rfl := Option.some.inj h
    exact countP_concat hs rfl
  | false =>
    obtain rfl := Option.some.inj h
    exact ⟨countP_concat hs rfl, fun _ => probes_concat_connect as false⟩

/-- After a look at the clock. -/
theorem past_of_deadline {t : ℕ} (h : step stopTimeout (.answered pid deadline) (.now t) = some s')
    (hs : Past as (.answered pid deadline)) : Past (as ++ [.now t]) s' := by
  simp only [step] at h
  split at h
  next =>
    obtain rfl := Option.some.inj h
    exact ⟨countP_concat hs rfl, nofun⟩
  next =>
    obtain rfl := Option.some.inj h
    exact countP_concat hs rfl

/-- The socket has the last word. -/
theorem past_of_confirm {reason : String} {answers : Bool}
    (h : step stopTimeout (.confirming reason) (.connect answers) = some s')
    (hs : Past as (.confirming reason)) : Past (as ++ [.connect answers]) s' := by
  obtain rfl := Option.some.inj h
  refine ⟨countP_concat hs rfl, fun hok => ?_⟩
  cases answers with
  | true => cases hok
  | false => exact probes_concat_connect as false

end Step

/-- The history at every place of `stop`, answer by answer. -/
theorem past_step (stopTimeout : ℕ) (as : List Answer) (s : At) (a : Answer) (s' : At)
    (h : step stopTimeout s a = some s') (hs : Past as s) : Past (as ++ [a]) s' := by
  cases s with
  | reading =>
    obtain rfl : as = [] := hs
    cases a with
    | read result => exact past_of_read h
    | _ => cases h
  | opening pid =>
    cases a with
    | openFile result => exact past_of_openFile h hs
    | _ => cases h
  | locking pid =>
    cases a with
    | flock result => exact past_of_flock h hs
    | _ => cases h
  | killing pid =>
    cases a with
    | kill errno => exact past_of_kill h hs
    | _ => cases h
  | starting pid =>
    cases a with
    | now t =>
      obtain rfl := Option.some.inj h
      exact countP_concat hs rfl
    | _ => cases h
  | polling pid deadline =>
    cases a with
    | connect answers => exact past_of_poll h hs
    | _ => cases h
  | answered pid deadline =>
    cases a with
    | now t => exact past_of_deadline h hs
    | _ => cases h
  | confirming reason =>
    cases a with
    | connect answers => exact past_of_confirm h hs
    | _ => cases h
  | returned result => cases h

/-- The history of a run. -/
theorem past_of_run {stopTimeout : ℕ} {as : List Answer} {s : At}
    (hrun : run (step stopTimeout) .reading as = some s) : Past as s :=
  run_history (past_step stopTimeout) hrun rfl

/-- Wherever `stop` is, it has sent one signal at most. -/
theorem Past.countP_le {as : List Answer} {s : At} (h : Past as s) :
    as.countP Answer.isKill ≤ 1 := by
  cases s with
  | reading =>
    obtain rfl : as = [] := h
    exact Nat.zero_le 1
  | opening pid | locking pid | killing pid =>
    obtain ⟨contents, -, rfl⟩ := h
    exact Nat.zero_le 1
  | starting pid | polling pid deadline | answered pid deadline | confirming reason => exact h
  | returned result => exact h.1

/-- A signal is sent from one place. -/
theorem killing_of_step {stopTimeout : ℕ} {s s' : At} {errno : Option ℤ}
    (h : step stopTimeout s (.kill errno) = some s') : ∃ pid, s = .killing pid := by
  cases s with
  | killing pid => exact ⟨pid, rfl⟩
  | _ => cases h

/-- **`stop` never claims success over a live socket**, whatever the environment does: it returns
`Ok` only if it has probed the socket and the last probe failed to connect; it sends one signal at
most, to a pid that the pidfile parsed to, with its lock seen held. -/
theorem stop_sound {stopTimeout : ℕ} {as : List Answer} {s : At}
    (hrun : run (step stopTimeout) .reading as = some s) :
    (s = .returned (.ok ()) → (probes as).getLast? = some false) ∧
    as.countP Answer.isKill ≤ 1 ∧
    ∀ as₁ errno as₂, as = as₁ ++ .kill errno :: as₂ → ∃ contents pid,
      parsePid contents = some pid ∧ as₁ = lockHeld contents ∧
      run (step stopTimeout) .reading as₁ = some (.killing pid) := by
  have hpast := past_of_run hrun
  refine ⟨?_, hpast.countP_le, ?_⟩
  · rintro rfl
    exact hpast.2 rfl
  · rintro as₁ errno as₂ rfl
    rw [run_append, Option.bind_eq_some_iff] at hrun
    obtain ⟨s₁, hrun₁, hrest⟩ := hrun
    obtain ⟨s₂, hkill, -⟩ := run_cons_eq_some.mp hrest
    obtain ⟨pid, rfl⟩ := killing_of_step hkill
    obtain ⟨contents, hparse, has⟩ := past_of_run hrun₁
    exact ⟨contents, pid, hparse, has, hrun₁⟩

/-- A daemon that takes two probes to stop. -/
def stops : List Answer :=
  lockHeld "42" ++ [.kill none, .now 100, .connect true, .now 120, .connect false]

theorem stop_sound_stops :
    run (step 5000) .reading stops = some (.returned (.ok ())) ∧
      (probes stops).getLast? = some false := by
  have hrun : run (step 5000) .reading stops = some (.returned (.ok ())) := by rfl
  exact ⟨hrun, (@stop_sound 5000 stops _ hrun).1 rfl⟩

/-! ## The calls of `stop` among other processes

In `Service` the files, the processes and the socket are those that `stop` shares with the daemons.
However they go on, what `stop` does there is a run of the calls above.
-/

open Service (StopAt StopCall stopStep)

/-- The call `stop` is at. A pidfile that has been read and not parsed there is yet to be read
here, where one step does both. -/
def Matches : StopAt → At → Prop
  | .idle, s => s = .reading
  | .read _, s => s = .reading
  | .parsed pid, s => s = .opening pid
  | .opened pid, s => s = .locking pid
  | .granted, s => ∃ reason, s = .confirming reason
  | .held pid _, s => s = .killing pid
  | .confirming, s => ∃ reason, s = .confirming reason
  | .waiting, s => ∃ pid deadline, 0 < deadline ∧ s = .polling pid deadline
  | .returned ok, s => ∃ result, (result = .ok () ↔ ok = true) ∧ s = .returned result

/-- Nothing follows the return. -/
def OneCall (v : Service.State) : Service.Action → Prop
  | .stop _ => ∀ ok, v.stop ≠ .returned ok
  | _ => True

section Simulation

variable {stopTimeout : ℕ} {ui : Process} {v v' : Service.State} {s : At}

/-- The read of the service is a step of `stop`. -/
theorem exists_run_of_read {ok : Bool} (hcall : ∀ ok, v.stop ≠ .returned ok)
    (h : stopStep ui v (.read ok) = some v') (hs : Matches v.stop s) :
    ∃ as s', run (step stopTimeout) s as = some s' ∧ Matches v'.stop s' := by
  simp only [stopStep] at h
  split at h
  next hat =>
    rw [hat] at hs
    obtain rfl : s = .reading := hs
    obtain rfl := Option.some.inj h
    cases ok with
    | false => exact ⟨[.read (.error .other)], _, rfl, _, by simp, rfl⟩
    | true =>
      cases hpath : v.files.path with
      | none => exact ⟨[.read (.error .notFound)], _, rfl, _, rfl⟩
      | some ino => exact ⟨[], _, rfl, rfl⟩
  next ok hat => exact absurd hat (hcall ok)
  next => cases h

/-- So is the parse. -/
theorem exists_run_of_parse (h : stopStep ui v .parse = some v') (hs : Matches v.stop s) :
    ∃ as s', run (step stopTimeout) s as = some s' ∧ Matches v'.stop s' := by
  simp only [stopStep] at h
  split at h
  next text hat =>
    rw [hat] at hs
    obtain rfl : s = .reading := hs
    obtain rfl := Option.some.inj h
    refine ⟨[.read (.ok text)], ?_⟩
    simp only [run_cons, step]
    cases parsePid text with
    | none => exact ⟨_, rfl, _, by simp, rfl⟩
    | some pid => exact ⟨_, rfl, rfl⟩
  next => cases h

/-- So is the open. -/
theorem exists_run_of_openFile {ok : Bool} (h : stopStep ui v (.openFile ok) = some v')
    (hs : Matches v.stop s) :
    ∃ as s', run (step stopTimeout) s as = some s' ∧ Matches v'.stop s' := by
  simp only [stopStep] at h
  split at h
  next pid hat =>
    rw [hat] at hs
    obtain rfl : s = .opening pid := hs
    obtain rfl := Option.some.inj h
    cases ok with
    | false => exact ⟨[.openFile (.error .other)], _, rfl, _, by simp, rfl⟩
    | true =>
      cases hpath : v.files.path with
      | none => exact ⟨[.openFile (.error .notFound)], _, rfl, _, rfl⟩
      | some ino => exact ⟨[.openFile (.ok ())], _, rfl, rfl⟩
  next => cases h

/-- So is the probe of the lock. -/
theorem exists_run_of_flock {ok : Bool} (h : stopStep ui v (.flock ok) = some v')
    (hs : Matches v.stop s) :
    ∃ as s', run (step stopTimeout) s as = some s' ∧ Matches v'.stop s' := by
  simp only [stopStep] at h
  split at h
  next pid ino hat hphase =>
    rw [hat] at hs
    obtain rfl : s = .locking pid := hs
    obtain ⟨files, -, rfl⟩ := Option.map_eq_some_iff.mp h
    cases ok with
    | false => exact ⟨[.flock (.error .other)], _, rfl, _, by simp, rfl⟩
    | true =>
      cases hlock : v.files.flock ino with
      | none => exact ⟨[.flock (.ok ())], _, rfl, _, rfl⟩
      | some p => exact ⟨[.flock (.error .wouldBlock)], _, rfl, rfl⟩
  next => cases h

/-- So is the signal. -/
theorem exists_run_of_kill {ok : Bool} (h : stopStep ui v (.kill ok) = some v')
    (hs : Matches v.stop s) :
    ∃ as s', run (step stopTimeout) s as = some s' ∧ Matches v'.stop s' := by
  simp only [stopStep] at h
  split at h
  next pid holder hat =>
    rw [hat] at hs
    obtain rfl : s = .killing pid := hs
    obtain rfl := Option.some.inj h
    cases ok with
    | false => exact ⟨[.kill (some 1)], _, rfl, _, by simp, rfl⟩
    | true =>
      refine ⟨[.kill none, .now 1], _, rfl, ?_⟩
      have hwaiting : (Service.kill ui v pid holder).stop = .waiting := by
        unfold Service.kill
        split <;> rfl
      show Matches (Service.kill ui v pid holder).stop _
      rw [hwaiting]
      exact ⟨pid, 1 + stopTimeout, by omega, rfl⟩
  next => cases h

/-- So is a poll, with the look at the clock. -/
theorem exists_run_of_poll {late : Bool} (h : stopStep ui v (.poll late) = some v')
    (hs : Matches v.stop s) :
    ∃ as s', run (step stopTimeout) s as = some s' ∧ Matches v'.stop s' := by
  simp only [stopStep] at h
  split at h
  next hat =>
    rw [hat] at hs
    obtain ⟨pid, deadline, hdeadline, rfl⟩ := hs
    obtain rfl := Option.some.inj h
    split
    next => exact ⟨[.connect false], _, rfl, _, by simp, rfl⟩
    next =>
      cases late with
      | true =>
        refine ⟨[.connect true, .now deadline], .returned (.error (.timedOut pid)), ?_, _, ?_, rfl⟩
        · simp [run_cons, step]
        · simp
      -- the socket still answers: another turn of the loop
      | false =>
        refine ⟨[.connect true, .now 0], .polling pid deadline, ?_, ?_⟩
        · simp [run_cons, step, Nat.ne_of_gt hdeadline]
        · show Matches v.stop _
          rw [hat]
          exact ⟨pid, deadline, hdeadline, rfl⟩
  next => cases h

/-- So is the last confirmation. -/
theorem exists_run_of_confirm (h : stopStep ui v .confirm = some v') (hs : Matches v.stop s) :
    ∃ as s', run (step stopTimeout) s as = some s' ∧ Matches v'.stop s' := by
  simp only [stopStep] at h
  split at h
  next hat =>
    rw [hat] at hs
    obtain ⟨reason, rfl⟩ := hs
    obtain rfl := Option.some.inj h
    refine ⟨[.connect v.socket.isSome], _, rfl, _, ?_, rfl⟩
    cases v.socket <;> simp
  next => cases h

/-- Every step of the service within one call is matched. -/
theorem exists_run_of_step (v : Service.State) (a : Service.Action) (v' : Service.State) (s : At)
    (hcall : OneCall v a) (h : Service.step ui v a = some v') (hs : Matches v.stop s) :
    ∃ as s', run (step stopTimeout) s as = some s' ∧ Matches v'.stop s' := by
  cases a with
  | stop c =>
    have h : stopStep ui v c = some v' := h
    cases c with
    | read ok => exact exists_run_of_read hcall h hs
    | parse => exact exists_run_of_parse h hs
    | openFile ok => exact exists_run_of_openFile h hs
    | flock ok => exact exists_run_of_flock h hs
    | unlock =>
      simp only [stopStep] at h
      split at h
      next hat =>
        rw [hat] at hs
        obtain rfl := Option.some.inj h
        exact ⟨[], s, rfl, hs⟩
      next => cases h
    | kill ok => exact exists_run_of_kill h hs
    | poll late => exact exists_run_of_poll h hs
    | confirm => exact exists_run_of_confirm h hs
  -- the others do not touch where `stop` is
  | daemon call =>
    obtain ⟨-, -, files, -, rfl⟩ := Service.daemon_eq_some h
    exact ⟨[], s, rfl, hs⟩
  | spawn p group =>
    obtain ⟨-, -, rfl⟩ := Service.spawn_eq_some h
    exact ⟨[], s, rfl, hs⟩
  | listen socket =>
    obtain rfl := Option.some.inj h
    exact ⟨[], s, rfl, hs⟩

/-- **However the files, the processes and the socket go on**, what one call of `stop` does among
them is a run of the calls above. -/
theorem exists_run_of_service (stopTimeout : ℕ) {as : List Service.Action}
    (hcall : Guarded OneCall (Service.step ui) v as)
    (hrun : run (Service.step ui) v as = some v') (hidle : v.stop = .idle) :
    ∃ bs s, run (step stopTimeout) .reading bs = some s ∧ Matches v'.stop s :=
  run_simulates (R := fun v s => Matches v.stop s) exists_run_of_step hcall hrun
    (by rw [hidle]; rfl)

end Simulation

end RgspCast.ServiceStop
