import RgspCast.Host.Routing

/-!
# The orderly shutdown against the pre-launch hook

`shutdown` restores `.asoundrc` first and drops the pidfile afterwards. In between, and for a hook
that has looked at the pidfile before, the daemon still counts as casting: such a hook finds no
`.asoundrc`, and writes the route to the loopback that nobody will remove (`not_clean_exit`).
`clean_iff_guarded` names the steps at which this is decided: up to them nothing is lost, and behind
them nothing can be put right.
-/

namespace RgspCast.Shutdown

open Routing Transition

/-- Where an execution of the hook is: its tests in the order of the script, and its write. -/
inductive HookAt where
  | testPid
  | catPid
  /-- With what `cat` gave: the daemon's pid, or nothing. -/
  | killZero (pid : Bool)
  | testRc
  | grepRc
  | write
  | finished
  deriving DecidableEq

/-- Where the daemon is: `CastSink::release` in two steps, `PidFile::release` in two, the exit. -/
inductive DaemonAt where
  | casting
  | restoring
  | released
  | unlinked
  | closed
  | exited
  deriving DecidableEq

/-- `sink` is the daemon's snapshot; `pidfile` is whether the pidfile is at its path, with the
daemon's pid in it. -/
structure State where
  file : File
  pidfile : Bool
  sink : CastSink
  daemon : DaemonAt
  hooks : List HookAt
  deriving DecidableEq

/-- A cast that engaged over the file `before`, at some later time: the file is whatever it is by
then, and `n` hooks are about to run. -/
def State.start (before file : File) (n : ℕ) : State where
  file := file
  pidfile := true
  sink := (engage before).1
  daemon := .casting
  hooks := List.replicate n .testPid

/-- One step of the daemon, or of a hook. Behind the daemon's exit its pid may be another
process's. -/
inductive Action where
  | daemon
  | hook (i : ℕ) (recycled : Bool)
  deriving DecidableEq

def stepDaemon (s : State) : Option State :=
  match s.daemon with
  | .casting =>
    if s.sink.shouldRestore s.file then some { s with daemon := .restoring }
    else some { s with daemon := .released }
  | .restoring => some { s with file := s.sink.previous, daemon := .released }
  | .released => some { s with pidfile := false, daemon := .unlinked }
  | .unlinked => some { s with daemon := .closed }
  | .closed => some { s with daemon := .exited }
  | .exited => none

/-- One step of a hook: what it does next, and the file afterwards. -/
def stepHook (s : State) (recycled : Bool) : HookAt → Option (HookAt × File)
  | .testPid => some (if s.pidfile then .catPid else .finished, s.file)
  | .catPid => some (.killZero s.pidfile, s.file)
  | .killZero pid =>
    some (if pid ∧ (s.daemon ≠ .exited ∨ recycled) then .testRc else .finished, s.file)
  | .testRc => some (if s.file.isSome then .grepRc else .write, s.file)
  | .grepRc => some (if s.file.any grepMarker then .write else .finished, s.file)
  | .write => some (.finished, some hookBody)
  | .finished => none

def step (s : State) : Action → Option State
  | .daemon => stepDaemon s
  | .hook i recycled =>
    (s.hooks[i]?.bind (stepHook s recycled)).map fun (next, file) =>
      { s with hooks := s.hooks.set i next, file := file }

/-- `CastSink::release` has done what it will do to the file. -/
def Released (s : State) : Prop := s.daemon ≠ .casting ∧ s.daemon ≠ .restoring

instance (s : State) : Decidable (Released s) := inferInstanceAs (Decidable (_ ∧ _))

/-- No line of the file carries the marker: as far as the hooks can tell it is not the project's. -/
def Clean (file : File) : Prop := ∀ body, file = some body → grepMarker body = false

instance (file : File) : Decidable (Clean file) :=
  match file with
  | none => isTrue nofun
  | some body =>
    decidable_of_iff (grepMarker body = false)
      ⟨fun h _ hbody => Option.some.inj hbody ▸ h, fun h => h body rfl⟩

/-- When `release` is done with the file, what it leaves there is clean and no hook is past its
tests; and none that comes later finds the file missing. -/
def Undisturbed (s : State) : Action → Prop
  | .daemon =>
    (s.daemon = .restoring → .write ∉ s.hooks ∧ Clean s.sink.previous) ∧
      (s.daemon = .casting ∧ s.sink.shouldRestore s.file = false →
        .write ∉ s.hooks ∧ Clean s.file)
  | .hook i _ => Released s → ¬ (s.hooks[i]? = some .testRc ∧ s.file = none)

instance decidableUndisturbed (s : State) : (a : Action) → Decidable (Undisturbed s a)
  | .daemon => inferInstanceAs (Decidable ((_ → _) ∧ (_ → _)))
  | .hook _ _ => inferInstanceAs (Decidable (_ → _))

/-- The daemon has exited and every hook has finished. -/
def Over (s : State) : Prop := s.daemon = .exited ∧ ∀ h ∈ s.hooks, h = .finished

instance (s : State) : Decidable (Over s) := inferInstanceAs (Decidable (_ ∧ _))

/-- Once everything is over no line of the file carries the marker. -/
def CleanExit : Prop :=
  ∀ before file n as s, run step (.start before file n) as = some s → Over s → Clean s.file

/-! ## Steps behind the release -/

variable {s s' : State}

/-- The daemon's steps, by what they do to the file: up to the release, the release itself (a file
that is left alone, or the snapshot), and behind it. -/
theorem daemon_cases (h : step s .daemon = some s') :
    s.daemon = .casting ∧ s.sink.shouldRestore s.file = true ∧ ¬ Released s' ∨
      s.daemon = .casting ∧ s.sink.shouldRestore s.file = false ∧
        s' = { s with daemon := .released } ∨
      s.daemon = .restoring ∧ s' = { s with file := s.sink.previous, daemon := .released } ∨
      Released s ∧ Released s' ∧ s'.file = s.file ∧ s'.hooks = s.hooks := by
  have hstep : stepDaemon s = some s' := h
  unfold stepDaemon at hstep
  cases hat : s.daemon with
  | casting =>
    rw [hat] at hstep
    dsimp only at hstep
    split at hstep
    next hrestore =>
      obtain rfl := Option.some.inj hstep
      exact Or.inl ⟨rfl, hrestore, fun hr => hr.2 rfl⟩
    next hno =>
      obtain rfl := Option.some.inj hstep
      exact Or.inr (Or.inl ⟨rfl, Bool.eq_false_iff.mpr hno, rfl⟩)
  | restoring =>
    rw [hat] at hstep
    obtain rfl := Option.some.inj hstep
    exact Or.inr (Or.inr (Or.inl ⟨rfl, rfl⟩))
  -- `PidFile::release` and the exit leave the file alone
  | released | unlinked | closed =>
    have hr : Released s := by
      unfold Released
      rw [hat]
      exact ⟨nofun, nofun⟩
    rw [hat] at hstep
    obtain rfl := Option.some.inj hstep
    exact Or.inr (Or.inr (Or.inr ⟨hr, ⟨nofun, nofun⟩, rfl, rfl⟩))
  | exited =>
    rw [hat] at hstep
    cases hstep

/-- The steps of a hook: it writes the file, or leaves it alone, and comes to its write only from
a test that finds the file missing or marked. -/
theorem hook_cases {i : ℕ} {recycled : Bool} (h : step s (.hook i recycled) = some s') :
    ∃ hook next file, s.hooks[i]? = some hook ∧
      s' = { s with hooks := s.hooks.set i next, file := file } ∧
      (hook = .write ∧ next = .finished ∧ file = some hookBody ∨
        hook ≠ .write ∧ file = s.file ∧
          (next = .write ↔ hook = .testRc ∧ s.file = none ∨
            hook = .grepRc ∧ s.file.any grepMarker = true)) := by
  obtain ⟨⟨next, file⟩, hnext, rfl⟩ := Option.map_eq_some_iff.mp h
  obtain ⟨hook, hhook, hstep⟩ := Option.bind_eq_some_iff.mp hnext
  refine ⟨hook, next, file, hhook, rfl, ?_⟩
  -- only the last step writes, and only the two tests of `.asoundrc` lead to it
  cases hook with
  | write =>
    obtain ⟨rfl, rfl⟩ := Prod.mk.inj (Option.some.inj hstep)
    exact Or.inl ⟨rfl, rfl, rfl⟩
  | finished => cases hstep
  | testPid | killZero pid =>
    obtain ⟨rfl, rfl⟩ := Prod.mk.inj (Option.some.inj hstep)
    refine Or.inr ⟨nofun, rfl, iff_of_false ?_ (by simp)⟩
    split <;> nofun
  | catPid =>
    obtain ⟨rfl, rfl⟩ := Prod.mk.inj (Option.some.inj hstep)
    exact Or.inr ⟨nofun, rfl, iff_of_false nofun (by simp)⟩
  | testRc =>
    obtain ⟨rfl, rfl⟩ := Prod.mk.inj (Option.some.inj hstep)
    refine Or.inr ⟨nofun, rfl, ?_⟩
    cases s.file <;> simp
  | grepRc =>
    obtain ⟨rfl, rfl⟩ := Prod.mk.inj (Option.some.inj hstep)
    refine Or.inr ⟨nofun, rfl, ?_⟩
    cases s.file.any grepMarker <;> simp

/-! ## Undisturbed shutdowns -/

/-- `grep` finds the marker in the hook's route. -/
theorem grepMarker_hookBody : grepMarker hookBody = true :=
  grepMarker_of_isOurs isOurs_hookBody

/-- Behind the release the file is clean, and no hook is about to write it. -/
def Inv (s : State) : Prop := Released s → Clean s.file ∧ .write ∉ s.hooks

/-- A clean file does not match. -/
theorem any_grepMarker_of_clean {file : File} (h : Clean file) : file.any grepMarker = false := by
  cases file with
  | none => rfl
  | some body => exact h body rfl

/-- A step of the daemon keeps the invariant, unless it leaves a marker or a hook that will write
one. -/
theorem inv_of_daemon (h : step s .daemon = some s') (hok : Undisturbed s .daemon) (hs : Inv s) :
    Inv s' := by
  rcases daemon_cases h with ⟨-, -, hr'⟩ | ⟨hat, hleft, rfl⟩ | ⟨hat, rfl⟩ | ⟨hr, -, hfile, hhooks⟩
  · exact fun hr => absurd hr hr'
  · exact fun _ => (hok.2 ⟨hat, hleft⟩).symm
  · exact fun _ => (hok.1 hat).symm
  · intro _
    rw [hfile, hhooks]
    exact hs hr

/-- So does a step of a hook, unless it finds the file gone when the daemon is done with it. -/
theorem inv_of_hook {i : ℕ} {recycled : Bool} (h : step s (.hook i recycled) = some s')
    (hok : Undisturbed s (.hook i recycled)) (hs : Inv s) : Inv s' := by
  obtain ⟨hook, next, file, hhook, rfl, hcases⟩ := hook_cases h
  intro hr
  obtain ⟨hclean, hwrite⟩ := hs hr
  rcases hcases with ⟨rfl, -, -⟩ | ⟨-, rfl, hnext⟩
  · exact absurd (List.mem_of_getElem? hhook) hwrite
  · refine ⟨hclean, fun hmem => ?_⟩
    rcases List.mem_or_eq_of_mem_set hmem with hmem | heq
    · exact hwrite hmem
    · rcases hnext.mp heq.symm with ⟨rfl, hnone⟩ | ⟨-, hmarked⟩
      · exact hok hr ⟨hhook, hnone⟩
      · rw [any_grepMarker_of_clean hclean] at hmarked
        cases hmarked

/-- A run without such steps ends clean. -/
theorem clean_of_undisturbed {before file : File} {n : ℕ} {as : List Action}
    (hok : Guarded Undisturbed step (.start before file n) as)
    (hrun : run step (.start before file n) as = some s) (hover : Over s) : Clean s.file := by
  have hinv : Inv s := by
    refine run_invariant_of_guarded (fun s a s' hok h hs => ?_) hok hrun (fun hr => absurd rfl hr.1)
    cases a with
    | daemon => exact inv_of_daemon h hok hs
    | hook i recycled => exact inv_of_hook h hok hs
  refine (hinv ?_).1
  unfold Released
  rw [hover.1]
  exact ⟨nofun, nofun⟩

/-! ## Disturbed ones -/

/-- The release is done, and the file carries the marker or is about to. -/
def Latched (s : State) : Prop := Released s ∧ (.write ∈ s.hooks ∨ ¬ Clean s.file)

/-- What is left of a disturbance never goes away: nobody removes the file any more. -/
theorem latched_of_step {a : Action} (h : step s a = some s') (hs : Latched s) : Latched s' := by
  obtain ⟨hr, hlatched⟩ := hs
  cases a with
  | daemon =>
    rcases daemon_cases h with ⟨hat, -, -⟩ | ⟨hat, -, -⟩ | ⟨hat, -⟩ | ⟨-, hr', hfile, hhooks⟩
    · exact absurd hat hr.1
    · exact absurd hat hr.1
    · exact absurd hat hr.2
    · refine ⟨hr', ?_⟩
      rw [hfile, hhooks]
      exact hlatched
  | hook i recycled =>
    obtain ⟨hook, next, file, hhook, rfl, hcases⟩ := hook_cases h
    refine ⟨hr, ?_⟩
    rcases hcases with ⟨-, -, rfl⟩ | ⟨hne, rfl, -⟩
    · -- the route is written
      refine Or.inr fun hclean => ?_
      have hmarked := hclean hookBody rfl
      rw [grepMarker_hookBody] at hmarked
      cases hmarked
    · refine hlatched.imp_left fun hmem => ?_
      obtain ⟨j, hj⟩ := List.mem_iff_getElem?.mp hmem
      have hji : i ≠ j := by
        rintro rfl
        exact hne (Option.some.inj (hhook.symm.trans hj))
      refine List.mem_of_getElem? (i := j) ?_
      rw [List.getElem?_set_ne hji, hj]

/-- A step that the condition excludes leaves the marker, or a hook that will write it. -/
theorem latched_of_disturbed {a : Action} (hno : ¬ Undisturbed s a) (h : step s a = some s') :
    Latched s' := by
  cases a with
  | daemon =>
    rcases daemon_cases h with ⟨hat, hrestore, -⟩ | ⟨hat, hleft, rfl⟩ | ⟨hat, rfl⟩ | ⟨hr, -, -, -⟩
    · refine absurd ⟨fun hrestoring => ?_, fun hcasting => ?_⟩ hno
      · cases hat.symm.trans hrestoring
      · cases hrestore.symm.trans hcasting.2
    · refine ⟨⟨nofun, nofun⟩, ?_⟩
      have hlost : ¬ (.write ∉ s.hooks ∧ Clean s.file) := fun hok =>
        hno ⟨fun hrestoring => (by cases hat.symm.trans hrestoring), fun _ => hok⟩
      exact (not_and_or.mp hlost).imp_left not_not.mp
    · refine ⟨⟨nofun, nofun⟩, ?_⟩
      have hlost : ¬ (.write ∉ s.hooks ∧ Clean s.sink.previous) := fun hok =>
        hno ⟨fun _ => hok, fun hcasting => by cases hat.symm.trans hcasting.1⟩
      exact (not_and_or.mp hlost).imp_left not_not.mp
    · exact absurd ⟨fun hat => absurd hat hr.2, fun hat => absurd hat.1 hr.1⟩ hno
  | hook i recycled =>
    have hlost : Released s ∧ s.hooks[i]? = some .testRc ∧ s.file = none := by
      simpa [Undisturbed] using hno
    -- a hook that finds no file after the release is going to write one
    obtain ⟨hr, htest, hnone⟩ := hlost
    obtain ⟨hook, next, file, hhook, rfl, hcases⟩ := hook_cases h
    obtain rfl := Option.some.inj (hhook.symm.trans htest)
    rcases hcases with ⟨hat, -, -⟩ | ⟨-, -, hnext⟩
    · cases hat
    · obtain rfl := hnext.mpr (Or.inl ⟨rfl, hnone⟩)
      refine ⟨hr, Or.inl ?_⟩
      refine List.mem_of_getElem? (i := i) ?_
      rw [List.getElem?_set_self', htest]
      rfl

/-- **A shutdown leaves no route behind exactly where no hook disturbs it**, and what it restores or
leaves alone is clean: in every run whose steps all meet the condition no line of the file carries
the marker in the end, and in every other run one does. -/
theorem clean_iff_guarded {before file : File} {n : ℕ} {as : List Action}
    (hrun : run step (.start before file n) as = some s) (hover : Over s) :
    Clean s.file ↔ Guarded Undisturbed step (.start before file n) as := by
  constructor
  · intro hclean
    by_contra hok
    obtain ⟨-, hwrite | hmarked⟩ := run_of_not_guarded (fun _ _ _ => latched_of_disturbed)
      (fun _ _ _ => latched_of_step) hok hrun
    · cases hover.2 _ hwrite
    · exact hmarked hclean
  · exact fun hok => clean_of_undisturbed hok hrun hover

/-- A launch during the cast, and a shutdown. -/
def earlyLaunch : List Action := List.replicate 5 (.hook 0 false) ++ List.replicate 5 .daemon

/-- A game is launched after the file was restored and before the pidfile is gone. -/
def lateLaunch : List Action :=
  List.replicate 2 .daemon ++ List.replicate 5 (.hook 0 false) ++ List.replicate 3 .daemon

/-- A launch while the daemon is casting, whose route the release removes. -/
theorem clean_iff_guarded_early :
    ∃ s ∈ run step (.start none none 1) earlyLaunch, Over s ∧ Clean s.file := by
  have hruns : ∃ s ∈ run step (.start none none 1) earlyLaunch, Over s := by decide
  obtain ⟨s, hrun, hover⟩ := hruns
  exact ⟨s, hrun, hover, (@clean_iff_guarded s none none 1 earlyLaunch hrun hover).mpr (by decide)⟩

/-- The launch at the end of a cast. -/
theorem not_clean_exit : ¬ CleanExit := by
  intro hclean
  have hruns : ∃ s ∈ run step (.start none (some asoundrcBody) 1) lateLaunch,
      Over s ∧ s.file.any isOurs = true := by decide
  obtain ⟨s, hrun, hover, hfile⟩ := hruns
  obtain ⟨body, hbody, hours⟩ := (Option.any_eq_true _ _).mp hfile
  have := hclean none (some asoundrcBody) 1 lateLaunch s hrun hover body hbody
  exact absurd (this.symm.trans (grepMarker_of_isOurs hours)) Bool.false_ne_true

end RgspCast.Shutdown
