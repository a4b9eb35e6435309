import RgspCast.Host.Routing
import RgspCast.Ui.Service

/-!
# The hooks, and whether the daemon runs

Three hooks of the pak act while the daemon runs: before sleep they stop it, before a launch they
route the game into it, at boot they keep its route. They ask `kill -0` about whatever the pidfile
says, where the UI asks for the file's lock. The two answers differ on a leftover whose pid names a
process again (`not_hooksAgree`), and `hooksAgree_iff` says for which files they agree.
-/

namespace RgspCast.Hooks

open Daemon Processes Routing Transition

/-- A regular file: its text, and the process that has its `flock`. -/
structure Pidfile where
  text : String
  flock : Option Pid
  deriving DecidableEq

/-- What is at the pidfile's path. -/
inductive Entry where
  | absent
  | file (f : Pidfile)
  /-- A symbolic link, to a regular file or to nothing of the kind. -/
  | link (target : Option Pidfile)
  /-- A directory. -/
  | dir (flock : Option Pid)
  deriving DecidableEq

/-- `Service::pidfile_lock_is_held`; a link is not followed, which is an error. -/
def pidfileLockIsHeld : Entry → Except Unit Bool
  | .absent => .ok false
  | .file f => .ok f.flock.isSome
  | .link _ => .error ()
  | .dir flock => .ok flock.isSome

/-- The file that `[ -f ]` and `cat` find. -/
def Entry.regular? : Entry → Option Pidfile
  | .file f => some f
  | .link target => target
  | _ => none

/-- What a hook finds when it runs. -/
structure Env where
  pidfile : Entry
  table : List Process
  /-- The shell that runs the hook. -/
  shell : Process
  asoundrc : File
  /-- Whether `usleep` is there. -/
  usleep : Bool
  /-- Whether the pidfile is gone at a turn of the pre-sleep hook's wait. -/
  gone : ℕ → Bool
  /-- Whether `snd-aloop.ko` is there, is loaded already, and can be loaded. -/
  module : Bool
  loaded : Bool
  insmod : Bool

/-- What a hook does. -/
inductive Effect where
  | touchWasCasting
  | term (receivers : List Process)
  | sleep
  | logTimeout
  | logForeign
  | writeAsoundrc
  | removeAsoundrc
  | logRecovery
  | insmod
  | logInsmod (ok : Bool)
  deriving DecidableEq

variable (operand : String → Option ℤ) (env : Env)

/-- The processes that `kill` addresses when its operand is `"$(cat FILE)"`; `operand` is what the
shell makes of such a text, and none where it refuses it. -/
def addressees (f : Pidfile) : List Process :=
  match operand f.text with
  | some pid => targets env.table env.shell pid
  | none => []

/-- `[ -f "$PID_FILE" ]` and `kill -0 "$(cat "$PID_FILE")"`. -/
def alive : Bool := env.pidfile.regular?.any fun f => !(addressees operand env f).isEmpty

/-- The wait for the daemon to remove its pidfile. -/
def waitLoop (gone : ℕ → Bool) : (turns i : ℕ) → List Effect
  | 0, _ => [.logTimeout]
  | turns + 1, i => if gone i then [] else .sleep :: waitLoop gone turns (i + 1)

/-- `pre-sleep.d/10-rgsp-stop.sh`. -/
def preSleep : List Effect :=
  match env.pidfile.regular? with
  | none => []
  | some f =>
    match addressees operand env f with
    -- `kill -0` fails
    | [] => []
    | receivers =>
      .touchWasCasting :: .term receivers :: waitLoop env.gone (if env.usleep then 30 else 3) 0

/-- `pre-launch.d/10-rgsp-route.sh`. -/
def preLaunch : List Effect :=
  if alive operand env then
    match env.asoundrc with
    | some body => if grepMarker body then [.writeAsoundrc] else [.logForeign]
    | none => [.writeAsoundrc]
  else []

/-- `boot.d/10-rgsp-aloop.sh`. -/
def boot : List Effect :=
  (if env.asoundrc.any grepMarker ∧ ¬ alive operand env then [.removeAsoundrc, .logRecovery]
    else []) ++
  (if env.module ∧ ¬ env.loaded then [.insmod, .logInsmod env.insmod] else [])

/-- Some process has the pidfile's lock, as the UI sees it. -/
def LockHeld : Prop := pidfileLockIsHeld env.pidfile = .ok true

/-- The hooks take the daemon for running only if the lock is held: the pre-sleep hook records it
and signals, the pre-launch hook writes the route, the boot hook keeps it. -/
structure HooksAgree : Prop where
  preSleep : (.touchWasCasting ∈ preSleep operand env ∨
    ∃ receivers, .term receivers ∈ preSleep operand env) → LockHeld env
  preLaunch : .writeAsoundrc ∈ preLaunch operand env → LockHeld env
  boot : env.asoundrc.any grepMarker = true → .removeAsoundrc ∉ boot operand env → LockHeld env

/-! ## What makes a hook act -/

variable {operand env}

/-- The test of a hook: a readable pidfile, and somebody whom its operand addresses. -/
theorem alive_iff :
    alive operand env = true ↔
      ∃ f, env.pidfile.regular? = some f ∧ addressees operand env f ≠ [] := by
  unfold alive
  rw [Option.any_eq_true]
  simp only [Bool.not_eq_true', List.isEmpty_eq_false_iff]

/-- A pre-sleep hook that finds nobody does nothing. -/
theorem preSleep_of_not_alive (h : ¬ alive operand env = true) : preSleep operand env = [] := by
  rw [alive_iff] at h
  unfold preSleep
  split
  next => rfl
  next f hf =>
    split
    next => rfl
    next hne => exact absurd ⟨f, hf, hne⟩ h

/-- A hook that finds the daemon alive ends it. -/
theorem preSleep_of_alive (h : alive operand env = true) :
    ∃ receivers wait, preSleep operand env = .touchWasCasting :: .term receivers :: wait := by
  obtain ⟨f, hf, hne⟩ := alive_iff.mp h
  unfold preSleep
  rw [hf]
  dsimp only
  split
  next hnil => exact absurd hnil hne
  next => exact ⟨_, _, rfl⟩

/-- When the pre-launch hook writes the route. -/
theorem writeAsoundrc_mem_iff :
    .writeAsoundrc ∈ preLaunch operand env ↔
      alive operand env = true ∧ hookTakes env.asoundrc = true := by
  unfold preLaunch
  cases halive : alive operand env with
  | false => simp
  | true =>
    cases env.asoundrc with
    | none => simp [hookTakes]
    | some body => cases hmarked : grepMarker body <;> simp [hookTakes, hmarked]

/-- When the boot hook removes it. -/
theorem removeAsoundrc_mem_iff :
    .removeAsoundrc ∈ boot operand env ↔
      env.asoundrc.any grepMarker = true ∧ ¬ alive operand env = true := by
  unfold boot
  rw [List.mem_append]
  constructor
  · rintro (h | h)
    · split at h
      next hcond => exact hcond
      next => cases h
    · split at h <;> simp at h
  · intro hcond
    exact Or.inl (by rw [if_pos hcond]; exact List.mem_cons_self)

/-- The hooks and the UI agree where the lock is held, or `kill -0` finds nobody. -/
theorem agree_iff_not_alive :
    HooksAgree operand env ↔ LockHeld env ∨ ¬ alive operand env = true := by
  constructor
  -- the pre-sleep hook decides: whoever it finds, it records and signals
  · intro h
    by_cases halive : alive operand env = true
    · obtain ⟨receivers, wait, heq⟩ := preSleep_of_alive halive
      exact Or.inl (h.preSleep (Or.inl (heq ▸ List.mem_cons_self)))
    · exact Or.inr halive
  -- where nobody is found, no hook acts, and the boot hook removes a marked route
  · rintro (hheld | hdead)
    · exact ⟨fun _ => hheld, fun _ => hheld, fun _ _ => hheld⟩
    · refine ⟨fun h => ?_, fun h => ?_, fun hmarked h => ?_⟩
      · rw [preSleep_of_not_alive hdead] at h
        rcases h with h | ⟨_, h⟩ <;> cases h
      · exact absurd (writeAsoundrc_mem_iff.mp h).1 hdead
      · exact absurd (removeAsoundrc_mem_iff.mpr ⟨hmarked, hdead⟩) h

/-- Nobody is found where there is no regular file, or its text addresses no process. -/
theorem not_alive_iff :
    ¬ alive operand env = true ↔
      ∀ f, env.pidfile.regular? = some f → addressees operand env f = [] := by
  rw [alive_iff]
  push Not
  rfl

/-- **The hooks and the UI agree exactly where** the lock is held, or there is no regular file, or
its text addresses no process. -/
theorem hooksAgree_iff (operand : String → Option ℤ) (env : Env) :
    HooksAgree operand env ↔ LockHeld env ∨
      ∀ f, env.pidfile.regular? = some f → addressees operand env f = [] := by
  rw [agree_iff_not_alive, not_alive_iff]

/-- A leftover that nobody locks misleads the hooks exactly where its pid is in use again. -/
theorem hooksAgree_leftover_iff {n : Pid} (hn : IsPid n)
    (hread : operand (toString n) = some (n : ℤ)) (hfile : env.pidfile = .file ⟨toString n, none⟩) :
    HooksAgree operand env ↔ ∀ p ∈ env.table, p.pid ≠ n := by
  have hfree : ¬ LockHeld env := by
    unfold LockHeld
    rw [hfile]
    nofun
  have haddressees : addressees operand env ⟨toString n, none⟩ = targets env.table env.shell n := by
    unfold addressees
    rw [hread]
  have hpos : (0 : ℤ) < n := by exact_mod_cast hn.1
  rw [agree_iff_not_alive, or_iff_right hfree, not_alive_iff, hfile]
  constructor
  · intro h p hp hpn
    have hnil := haddressees.symm.trans (h _ rfl)
    have haddr : addressed env.shell n p = true := by
      rw [addressed, if_pos hpos]
      exact decide_eq_true (congrArg _ hpn)
    have hmem : p ∈ targets env.table env.shell n := List.mem_filter.mpr ⟨hp, haddr⟩
    rw [hnil] at hmem
    cases hmem
  · rintro h f hf
    obtain rfl := Option.some.inj hf
    rw [haddressees]
    refine List.filter_eq_nil_iff.mpr fun p hp haddr => h p hp ?_
    rw [addressed, if_pos hpos] at haddr
    exact_mod_cast of_decide_eq_true haddr

/-! ## The same things elsewhere -/

/-- What an effect does to `.asoundrc`. -/
def Effect.apply (file : File) : Effect → File
  | .writeAsoundrc => some hookBody
  | .removeAsoundrc => none
  | _ => file

/-- The pre-launch hook leaves `.asoundrc` as the routing has it. -/
theorem preLaunch_file :
    (preLaunch operand env).foldl Effect.apply env.asoundrc =
      Routing.preLaunch (alive operand env) env.asoundrc := by
  unfold preLaunch Routing.preLaunch
  cases alive operand env with
  | false => rfl
  | true =>
    cases hrc : env.asoundrc with
    | none => rfl
    | some body => cases hmarked : grepMarker body <;> simp [hookTakes, hmarked, Effect.apply]

/-- The pidfile among the files of daemons. -/
def entry (files : Daemon.State) : Entry :=
  match files.path with
  | none => .absent
  | some ino => .file ⟨files.contents ino, files.flock ino⟩

/-- The probe of `stop`, undisturbed, is `pidfile_lock_is_held`. -/
theorem held_iff_of_probe {ui : Process} {s s' : Service.State} {pid : ℤ}
    (hat : s.stop = .parsed pid)
    (hrun : run (Service.stopStep ui) s [.openFile true, .flock true] = some s') :
    (∃ holder, s'.stop = .held pid holder) ↔ pidfileLockIsHeld (entry s.files) = .ok true := by
  obtain ⟨s₁, hopen, hrest⟩ := run_cons_eq_some.mp hrun
  obtain ⟨s₂, hflock, hend⟩ := run_cons_eq_some.mp hrest
  obtain rfl := Option.some.inj hend
  clear hrest hrun hend
  simp only [Service.stopStep, hat, Option.some.injEq] at hopen
  unfold entry
  cases hpath : s.files.path with
  | none =>
    simp only [hpath] at hopen
    subst hopen
    simp [Service.stopStep] at hflock
  | some ino =>
    simp only [hpath] at hopen
    subst hopen
    simp [Service.stopStep, State.setPhase, Service.probe, Daemon.step] at hflock
    subst hflock
    cases hlock : s.files.flock ino <;> simp [pidfileLockIsHeld, hlock]

/-! ## A pid in use again -/

/-- A decimal is read as it stands, newlines at the end apart. -/
def decimal (text : String) : Option ℤ :=
  parseInt (text.toList.reverse.dropWhile (· = '\n')).reverse

/-- A crash has left a pidfile and a marked `.asoundrc`; pid 41 is another program by now. -/
def recycled : Env where
  pidfile := .file ⟨"41", none⟩
  table := [⟨0, 20, 20⟩, ⟨1, 41, 41⟩]
  shell := ⟨0, 20, 20⟩
  asoundrc := some hookBody
  usleep := true
  gone := fun _ => false
  module := true
  loaded := false
  insmod := true

/-- The pre-sleep hook signals the program. -/
theorem not_hooksAgree : ¬ ∀ env, HooksAgree decimal env := by
  intro h
  exact absurd ((h recycled).preSleep (Or.inl List.mem_cons_self)) nofun

end RgspCast.Hooks
