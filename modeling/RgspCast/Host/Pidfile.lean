import RgspCast.Host.Daemon

/-!
# What every run keeps of the pidfile

Whatever the order of the system calls, a lock is held by exactly the process that was granted it,
and only its holder writes the file: behind `set_len(0)` the file is empty, and behind the write it
is the holder's pid. Between the granted lock and `set_len(0)` it still says what it said before.
-/

namespace RgspCast.Daemon

open Transition

/-- Locks belong to their holders, texts to the lock's owner, and no descriptor is of an inode that
does not exist yet. -/
structure Sound (s : State) : Prop where
  locks : ∀ p ino, s.flock ino = some p ↔ (s.phase p).lock? = some ino
  texts : ∀ p ino text, (s.phase p).lock? = some ino → (s.phase p).text? p = some text →
    s.contents ino = text
  files : ∀ p ino, (s.phase p).file? = some ino → ino < s.fresh
  path : ∀ ino, s.path = some ino → ino < s.fresh

variable {s t : State} {c : Call} {p q : Pid} {ino : Ino} {ph : Phase}

/-- An inode that does not exist yet is not locked. -/
theorem Sound.flock_fresh (h : Sound s) : s.flock s.fresh = none := by
  refine Option.eq_none_iff_forall_ne_some.mpr fun p hp => ?_
  have hfile := Phase.file?_of_lock? ((h.locks p _).mp hp)
  exact Nat.lt_irrefl _ (h.files p _ hfile)

/-- A lock has one owner. -/
theorem Sound.owner (h : Sound s) (hp : (s.phase p).lock? = some ino)
    (hq : (s.phase q).lock? = some ino) : p = q :=
  Option.some.inj (((h.locks p ino).mpr hp).symm.trans ((h.locks q ino).mpr hq))

/-- A process that gives up its descriptor. -/
theorem Sound.closeFd (h : Sound s) (hph : ph.file? = none) : Sound (s.closeFd p ph) := by
  have hlock : ph.lock? = none :=
    Option.eq_none_iff_forall_ne_some.mpr fun i hi => by
      simp [Phase.file?_of_lock? hi] at hph
  constructor
  · intro q i
    show (if s.flock i = some p then none else s.flock i) = some q ↔
      (Function.update s.phase p ph q).lock? = some i
    -- the one who closes gives its lock up, the others keep theirs
    by_cases hqp : q = p
    · subst hqp
      rw [Function.update_self, hlock]
      simp
    · rw [Function.update_of_ne hqp, ← h.locks q i]
      split
      next hi => simp [hi, Ne.symm hqp]
      next => rfl
  · intro q i text hq htext
    have hq' : (Function.update s.phase p ph q).lock? = some i := hq
    have htext' : (Function.update s.phase p ph q).text? q = some text := htext
    by_cases hqp : q = p
    · subst hqp
      simp [hlock] at hq'
    · rw [Function.update_of_ne hqp] at hq' htext'
      exact h.texts q i text hq' htext'
  · intro q i hq
    have hq' : (Function.update s.phase p ph q).file? = some i := hq
    by_cases hqp : q = p
    · subst hqp
      simp [hph] at hq'
    · rw [Function.update_of_ne hqp] at hq'
      exact h.files q i hq'
  · exact h.path

/-- A process that goes on with the descriptor and the lock it has. It may have written the file,
if it has the lock. -/
theorem Sound.advance (h : Sound s) (hflock : t.flock = s.flock) (hfresh : t.fresh = s.fresh)
    (hphase : t.phase = Function.update s.phase p ph) (hlock : ph.lock? = (s.phase p).lock?)
    (hfile : ∀ i, ph.file? = some i → i < s.fresh)
    (hpath : ∀ i, t.path = some i → i < s.fresh)
    (hother : ∀ i, (s.phase p).lock? ≠ some i → t.contents i = s.contents i)
    (hown : ∀ i text, ph.lock? = some i → ph.text? p = some text → t.contents i = text) :
    Sound t := by
  constructor
  · intro q i
    rw [hflock, hphase, h.locks q i]
    by_cases hqp : q = p
    · subst hqp
      rw [Function.update_self, hlock]
    · rw [Function.update_of_ne hqp]
  · intro q i text hq htext
    rw [hphase] at hq htext
    by_cases hqp : q = p
    · subst hqp
      rw [Function.update_self] at hq htext
      exact hown i text hq htext
    · rw [Function.update_of_ne hqp] at hq htext
      -- nobody else writes into a file that somebody has locked
      have hne : (s.phase p).lock? ≠ some i := fun hp => hqp (h.owner hq hp)
      rw [hother i hne]
      exact h.texts q i text hq htext
  · intro q i hq
    rw [hphase] at hq
    rw [hfresh]
    by_cases hqp : q = p
    · subst hqp
      exact hfile i (by rwa [Function.update_self] at hq)
    · rw [Function.update_of_ne hqp] at hq
      exact h.files q i hq
  · intro i hi
    rw [hfresh]
    exact hpath i hi

/-- A process that writes the file it has locked. -/
theorem Sound.written {text : String} (h : Sound s) (hpath : t.path = s.path)
    (hflock : t.flock = s.flock) (hfresh : t.fresh = s.fresh)
    (hcontents : t.contents = Function.update s.contents ino text)
    (hlocked : (s.phase p).lock? = some ino) (hphase : t.phase = Function.update s.phase p ph)
    (hlock : ph.lock? = some ino) (htext : ∀ text', ph.text? p = some text' → text = text') :
    Sound t := by
  have hino : ino < s.fresh := h.files p ino (Phase.file?_of_lock? hlocked)
  refine h.advance hflock hfresh hphase (hlock.trans hlocked.symm) (fun i hi => ?_)
    (fun i hi => h.path i (hpath ▸ hi)) (fun i hi => ?_) (fun i text' hi htext' => ?_)
  · have hfile := Phase.file?_of_lock? hlock
    exact Option.some.inj (hfile.symm.trans hi) ▸ hino
  · have hne : i ≠ ino := fun hii => hi (hii ▸ hlocked)
    rw [hcontents, Function.update_of_ne hne]
  · have hii : ino = i := Option.some.inj (hlock.symm.trans hi)
    rw [hcontents, ← hii, Function.update_self]
    exact htext text' htext'

/-- A process that opens what is at the path. -/
theorem Sound.opened (h : Sound s) (hpath : s.path = some ino) (hp : (s.phase p).lock? = none) :
    Sound (s.setPhase p (.opened ino)) :=
  h.advance rfl rfl rfl hp.symm
    (fun _ hi => Option.some.inj hi ▸ h.path ino hpath) h.path (fun _ _ => rfl) nofun

/-- Opening or creating the file grants no lock. -/
theorem Sound.openOrCreate (h : Sound s) (hp : (s.phase p).lock? = none) :
    Sound (s.openOrCreate p) := by
  unfold State.openOrCreate
  split
  next ino hpath => exact h.opened hpath hp
  next hpath =>
    -- first the new file appears at the path, then the process has it open
    have hcreated : Sound { s with
        path := some s.fresh
        contents := Function.update s.contents s.fresh ""
        fresh := s.fresh + 1 } := by
      refine ⟨h.locks, fun q i text hq htext => ?_, fun q i hq => ?_, fun i hi => ?_⟩
      · have hi : i ≠ s.fresh := Nat.ne_of_lt (h.files q i (Phase.file?_of_lock? hq))
        show Function.update s.contents s.fresh "" i = text
        rw [Function.update_of_ne hi]
        exact h.texts q i text hq htext
      · exact Nat.lt_succ_of_lt (h.files q i hq)
      · exact Option.some.inj hi ▸ Nat.lt_succ_self _
    exact hcreated.opened rfl hp

/-- A process that is granted a lock nobody has. -/
theorem Sound.grant (h : Sound s) (hp : s.phase p = .opened ino) (hfree : s.flock ino = none) :
    Sound { s with
      flock := Function.update s.flock ino (some p)
      phase := Function.update s.phase p (.locked ino) } := by
  constructor
  · intro q i
    show Function.update s.flock ino (some p) i = some q ↔
      (Function.update s.phase p (.locked ino) q).lock? = some i
    by_cases hqp : q = p
    · subst hqp
      rw [Function.update_self]
      -- the lock that was free has one holder now
      by_cases hi : i = ino
      · subst hi
        simp [Phase.lock?]
      · rw [Function.update_of_ne hi, h.locks q i, hp]
        simp [Phase.lock?, Ne.symm hi]
    · rw [Function.update_of_ne hqp, ← h.locks q i]
      by_cases hi : i = ino
      · subst hi
        simp [hfree, Ne.symm hqp]
      · rw [Function.update_of_ne hi]
  · intro q i text hq htext
    have hq' : (Function.update s.phase p (.locked ino) q).lock? = some i := hq
    have htext' : (Function.update s.phase p (.locked ino) q).text? q = some text := htext
    by_cases hqp : q = p
    · subst hqp
      simp [Phase.text?] at htext'
    · rw [Function.update_of_ne hqp] at hq' htext'
      exact h.texts q i text hq' htext'
  · intro q i hq
    have hq' : (Function.update s.phase p (.locked ino) q).file? = some i := hq
    by_cases hqp : q = p
    · subst hqp
      rw [Function.update_self] at hq'
      exact h.files q i (by rw [hp]; exact hq')
    · rw [Function.update_of_ne hqp] at hq'
      exact h.files q i hq'
  · exact h.path

/-- **Every system call keeps the files sound.** -/
theorem sound_of_step (hstep : step s c = some t) (h : Sound s) : Sound t := by
  cases effect_of_step hstep with
  | notOpened hp => exact h.advance rfl rfl rfl hp.symm nofun h.path (fun _ _ => rfl) nofun
  | opened hp => exact h.openOrCreate hp
  | gaveUp ph hph => exact h.closeFd hph
  | granted ino _ hp hfree => exact h.grant hp hfree
  | wrote ino ph text hp hlinked htext =>
    exact h.written rfl rfl rfl rfl (Phase.lock?_of_linked? hp) rfl (Phase.lock?_of_linked? hlinked)
      fun _ => Option.some.inj ∘ htext.symm.trans
  | unlinked ino ok hp =>
    have hlock : (s.phase c.pid).lock? = some ino := congrArg Phase.lock? hp
    refine h.advance rfl rfl rfl hlock.symm ?_ ?_ (fun _ _ => rfl) ?_
    · exact fun i hi => h.files c.pid i ((congrArg Phase.file? hp).trans hi)
    · intro i hi
      cases ok with
      | true => cases hi
      | false => exact h.path i hi
    · exact fun i text hi htext => h.texts c.pid i text ((congrArg Phase.lock? hp).trans hi)
        ((congrArg (Phase.text? c.pid) hp).trans htext)

/-- Only the process that makes the call moves on. -/
theorem phase_of_step (hstep : step s c = some t) (hq : q ≠ c.pid) : t.phase q = s.phase q := by
  cases effect_of_step hstep with
  | opened =>
    unfold State.openOrCreate
    split <;> exact Function.update_of_ne hq _ _
  | _ => exact Function.update_of_ne hq _ _

/-- A lock is there already, or granted now. -/
theorem flock_of_step (hstep : step s c = some t) (hp : t.flock ino = some p) :
    s.flock ino = some p ∨
      c = .flock p true ∧ s.phase p = .opened ino ∧ s.flock ino = none := by
  cases effect_of_step hstep with
  | notOpened | wrote | unlinked => exact Or.inl hp
  | opened =>
    unfold State.openOrCreate at hp
    split at hp <;> exact Or.inl hp
  | gaveUp ph =>
    have hp' : (if s.flock ino = some c.pid then none else s.flock ino) = some p := hp
    split at hp'
    next => cases hp'
    next => exact Or.inl hp'
  | granted i hc hopened hfree =>
    have hp' : Function.update s.flock i (some c.pid) ino = some p := hp
    -- a lock on another inode is not the one that was granted
    by_cases hi : ino = i
    · subst hi
      rw [Function.update_self, Option.some.injEq] at hp'
      subst hp'
      exact Or.inr ⟨hc, hopened, hfree⟩
    · rw [Function.update_of_ne hi] at hp'
      exact Or.inl hp'

/-- What is at the path was there before, or is a new file. -/
theorem path_of_step (hstep : step s c = some t) (hpath : t.path = some ino) :
    s.path = some ino ∨ ino = s.fresh := by
  cases effect_of_step hstep with
  | notOpened | gaveUp | granted | wrote => exact Or.inl hpath
  | opened =>
    unfold State.openOrCreate at hpath
    split at hpath
    next => exact Or.inl hpath
    next => exact Or.inr (Option.some.inj hpath).symm
  | unlinked i ok =>
    cases ok with
    | true => cases hpath
    | false => exact Or.inl hpath

/-- After the unlink the lock is still there, until the file is closed. -/
theorem phase_of_unlink {ok : Bool} (hstep : step s (.unlink p ok) = some t) :
    ∃ ino, t.phase p = .unlinked ino := by
  simp only [step] at hstep
  split at hstep
  next ino hp =>
    rw [Option.some.injEq] at hstep
    subst hstep
    exact ⟨ino, Function.update_self ..⟩
  next => cases hstep

/-- A process that has closed the file starts over. -/
theorem phase_of_close (hstep : step s (.close p) = some t) : t.phase p = .idle := by
  simp only [step] at hstep
  split at hstep
  next =>
    rw [Option.some.injEq] at hstep
    subst hstep
    exact Function.update_self ..
  next => cases hstep

/-- So does one that crashed. -/
theorem phase_of_crash (hstep : step s (.crash p) = some t) : t.phase p = .idle := by
  rw [step, Option.some.injEq] at hstep
  subst hstep
  exact Function.update_self ..

/-- While the file at the path is locked, a process gets no further than opening it. -/
theorem opened_of_step (hstep : step s c = some t) (hpath : s.path = some ino)
    (hlocked : s.flock ino ≠ none)
    (hopened : ∀ i, (s.phase c.pid).file? = some i → s.phase c.pid = .opened ino) :
    t.path = some ino ∧ ∀ i, (t.phase c.pid).file? = some i → t.phase c.pid = .opened ino := by
  -- a process that only opened the file holds nothing yet
  have hlock : (s.phase c.pid).lock? = none := by
    refine Option.eq_none_iff_forall_ne_some.mpr fun i hi => ?_
    rw [hopened i (Phase.file?_of_lock? hi)] at hi
    cases hi
  cases effect_of_step hstep with
  | notOpened =>
    refine ⟨hpath, fun i hi => ?_⟩
    rw [show State.phase _ _ = _ from Function.update_self ..] at hi
    cases hi
  | opened =>
    unfold State.openOrCreate
    rw [hpath]
    exact ⟨hpath, fun _ _ => Function.update_self ..⟩
  | gaveUp ph hph =>
    refine ⟨hpath, fun i hi => ?_⟩
    rw [show State.phase _ _ = _ from Function.update_self .., hph] at hi
    cases hi
  | granted i _ hi hfree =>
    have hino := hopened i (congrArg Phase.file? hi)
    rw [hi, Phase.opened.injEq] at hino
    exact absurd (hino ▸ hfree) hlocked
  | wrote i ph text hp => exact absurd ((Phase.lock?_of_linked? hp).symm.trans hlock) nofun
  | unlinked i ok hp => exact absurd ((congrArg Phase.lock? hp).symm.trans hlock) nofun

/-- A process is refused where someone else has the lock it asks for. -/
theorem refused_of_step (hstep : step s c = some t) (hq : t.phase q = .failed .alreadyExists) :
    s.phase q = .failed .alreadyExists ∨
      ∃ ino, c = .flock q true ∧ s.phase q = .opened ino ∧ s.flock ino ≠ none := by
  by_cases hqc : q = c.pid
  · subst hqc
    cases effect_of_step hstep with
    | notOpened | granted =>
      rw [show State.phase _ _ = _ from Function.update_self ..] at hq
      cases hq
    | opened =>
      unfold State.openOrCreate at hq
      split at hq
      all_goals
        rw [show State.phase _ _ = _ from Function.update_self ..] at hq
        cases hq
    | gaveUp ph hph hwhy =>
      rw [show State.phase _ _ = _ from Function.update_self ..] at hq
      -- of the ways to give up, only the lock that is held says `AlreadyExists`
      exact Or.inr (hwhy hq)
    | wrote ino ph text _ hlinked =>
      rw [show State.phase _ _ = _ from Function.update_self ..] at hq
      rw [hq] at hlinked
      cases hlinked
    | unlinked =>
      rw [show State.phase _ _ = _ from Function.update_self ..] at hq
      cases hq
  · rw [phase_of_step hstep hqc] at hq
    exact Or.inl hq

end RgspCast.Daemon
