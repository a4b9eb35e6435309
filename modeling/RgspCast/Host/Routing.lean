import RgspCast.Lib.Transition
import Mathlib.Data.List.Basic

/-!
# Who writes `.asoundrc`

`CastSink::engage` and `release`, and the hook that runs before a game is launched. All three decide
by the project's marker whether the file is theirs. The daemon looks for it at the start of the
file, the hook at the start of any line, where `grep` lets a NUL end a line as well as a line feed;
and the hook writes wherever there is no file, so it takes over from a foreign audio manager that
deleted its configuration, and `release` then restores what was there before the cast (`not_wins`).
`wins_iff` says for which histories the last foreign action stands. What always holds is that a
snapshot is never the project's own file, so the route to the loopback never outlives a release
(`never_latches`).
-/

namespace RgspCast.Routing

open Transition

/-- The text of a file. -/
abbrev Body := List Char

/-- `.asoundrc`: absent, or its text. -/
abbrev File := Option Body

/-- `ASOUNDRC_MARKER`. -/
def asoundrcMarker : Body := "# rgsp-cast:".toList

/-- `ASOUNDRC_BODY`. -/
def asoundrcBody : Body :=
  asoundrcMarker ++
    (" routing playback into the kernel loopback while casting.\n" ++
      "# Removed automatically when casting stops.\n" ++
      "pcm.!default \x7b\n    type plug\n    slave.pcm \"hw:Loopback,0,0\"\n\x7d\n").toList

/-- What the pre-launch hook writes. -/
def hookBody : Body :=
  asoundrcMarker ++
    (" routing playback into the kernel loopback while casting.\n" ++
      "pcm.!default \x7b\n    type plug\n    slave.pcm \"hw:Loopback,0,0\"\n\x7d\n").toList

/-- `is_ours`. -/
def isOurs (body : Body) : Bool := asoundrcMarker.isPrefixOf body

/-- Where `grep` ends a line: at a line feed, and at a NUL. -/
def endsLine (c : Char) : Bool := c = '\n' || c = '\x00'

/-- The marker opens a line of the text; the flag tells whether the text starts at a line. -/
def markedLine : Bool → Body → Bool
  | _, [] => false
  | atLine, c :: cs => atLine && isOurs (c :: cs) || markedLine (endsLine c) cs

/-- `grep -q '^# rgsp-cast:'`. -/
def grepMarker (body : Body) : Bool := markedLine true body

/-! ## The daemon and the hook -/

structure CastSink where
  previous : File
  deriving DecidableEq

/-- `CastSink::engage`: the sink, and the file afterwards. Only a foreign text is kept. -/
def engage (file : File) : CastSink × File :=
  (⟨file.filter fun body => !isOurs body⟩, some asoundrcBody)

/-- Whether `release` restores, from what it reads. -/
def CastSink.shouldRestore (sink : CastSink) : File → Bool
  | some current => isOurs current
  | none => sink.previous.isNone

/-- `CastSink::release`: the file afterwards. -/
def CastSink.release (sink : CastSink) (file : File) : File :=
  if sink.shouldRestore file then sink.previous else file

/-- The hook writes where there is no file, or one of ours. -/
def hookTakes : File → Bool
  | some body => grepMarker body
  | none => true

/-- The pre-launch hook, in one piece; `casting` is whether it found the daemon alive. -/
def preLaunch (casting : Bool) (file : File) : File :=
  if casting ∧ hookTakes file then some hookBody else file

/-- The daemon's own route is ours. -/
theorem isOurs_asoundrcBody : isOurs asoundrcBody = true :=
  List.isPrefixOf_iff_prefix.mpr (List.prefix_append _ _)

/-- So is the hook's. -/
theorem isOurs_hookBody : isOurs hookBody = true :=
  List.isPrefixOf_iff_prefix.mpr (List.prefix_append _ _)

/-- What is the daemon's is the hook's. -/
theorem grepMarker_of_isOurs {body : Body} (h : isOurs body = true) : grepMarker body = true := by
  cases body with
  | nil => exact absurd h (by decide)
  | cons c cs =>
    unfold grepMarker markedLine
    rw [h]
    rfl

/-! ## The last foreign action -/

/-- A text that is not the project's. -/
structure ForeignBody where
  body : Body
  foreign : isOurs body = false

/-- What happens to the file during a cast: a foreign write, a foreign deletion, or a launch. -/
inductive Action where
  | foreign (text : Option ForeignBody)
  | hook (casting : Bool)

def ForeignBody.file (text : Option ForeignBody) : File := text.map (·.body)

def Action.apply (file : File) : Action → File
  | .foreign text => ForeignBody.file text
  | .hook casting => preLaunch casting file

/-- The file after a cast: engaged, acted on, released. -/
def cast (before : File) (acts : List Action) : File :=
  let (sink, file) := engage before
  sink.release (acts.foldl Action.apply file)

/-- The file the user is left with should be the one of the last foreign action, or else the one
before the cast, if that was not the project's. -/
def expected (before : File) (acts : List Action) : File :=
  acts.foldl (fun file => fun
    | .foreign text => ForeignBody.file text
    | .hook _ => file) (engage before).1.previous

/-- The last foreign action stands. -/
def Wins (before : File) (acts : List Action) : Prop := cast before acts = expected before acts

instance (before : File) (acts : List Action) : Decidable (Wins before acts) :=
  inferInstanceAs (Decidable (_ = _))

/-- The launches of a run of the hook, one after the other. -/
def launches (castings : List Bool) : List Action := castings.map .hook

/-- Where a hook that found the daemon alive takes the file the last foreign action left, that file
is the one from before the cast. -/
def Respected (before : File) (acts : List Action) : Prop :=
  ∀ pre text castings, acts = pre ++ .foreign text :: launches castings →
    true ∉ castings ∨ hookTakes (ForeignBody.file text) = false ∨
      ForeignBody.file text = (engage before).1.previous

/-- The hook writes its route if the daemon lives and the file is not a foreign one. -/
theorem apply_hook (file : File) (casting : Bool) :
    Action.apply file (.hook casting) =
      if casting = true ∧ hookTakes file = true then some hookBody else file := rfl

/-- Launches that leave the file alone, one by one. -/
theorem foldl_launches_of_stay {castings : List Bool} {file : File}
    (h : ∀ c ∈ castings, Action.apply file (.hook c) = file) :
    (launches castings).foldl Action.apply file = file := by
  induction castings with
  | nil => rfl
  | cons c castings ih =>
    obtain ⟨hc, hrest⟩ := List.forall_mem_cons.mp h
    show (launches castings).foldl Action.apply (Action.apply file (.hook c)) = file
    rw [hc, ih hrest]

/-- The file after some launches: untouched, or the hook's own. -/
theorem foldl_launches (castings : List Bool) (file : File) :
    (launches castings).foldl Action.apply file = file ∧
        (true ∉ castings ∨ hookTakes file = false) ∨
      (launches castings).foldl Action.apply file = some hookBody ∧ true ∈ castings ∧
        hookTakes file = true := by
  cases htakes : hookTakes file with
  | false =>
    refine Or.inl ⟨foldl_launches_of_stay fun c _ => ?_, Or.inr rfl⟩
    rw [apply_hook, htakes]
    exact if_neg fun h => Bool.false_ne_true h.2
  | true =>
    induction castings with
    | nil => exact Or.inl ⟨rfl, Or.inl List.not_mem_nil⟩
    | cons c castings ih =>
      have hcons : (launches (c :: castings)).foldl Action.apply file =
          (launches castings).foldl Action.apply (Action.apply file (.hook c)) := rfl
      rw [hcons, apply_hook, htakes]
      cases c with
      | true =>
        -- launches after this one write the same text again, if they write
        rw [if_pos ⟨rfl, rfl⟩]
        refine Or.inr ⟨foldl_launches_of_stay fun c _ => ?_, List.mem_cons_self, rfl⟩
        rw [apply_hook, ite_self]
      | false =>
        rw [if_neg fun h => Bool.false_ne_true h.1]
        simpa using ih

/-- Launches alone leave what the claim expects as it is. -/
theorem expected_launches (castings : List Bool) (file : File) :
    (launches castings).foldl (fun file => fun
      | .foreign text => ForeignBody.file text
      | .hook _ => file) file = file := by
  induction castings with
  | nil => rfl
  | cons c castings ih => exact ih

/-- A history is launches only, or ends with launches behind a foreign action. -/
theorem split_last (acts : List Action) :
    (∃ castings, acts = launches castings) ∨
      ∃ pre text castings, acts = pre ++ .foreign text :: launches castings := by
  induction acts with
  | nil => exact Or.inl ⟨[], rfl⟩
  | cons a acts ih =>
    rcases ih with ⟨castings, rfl⟩ | ⟨pre, text, castings, rfl⟩
    · cases a with
      | foreign text => exact Or.inr ⟨[], text, castings, rfl⟩
      | hook c => exact Or.inl ⟨c :: castings, rfl⟩
    · exact Or.inr ⟨a :: pre, text, castings, rfl⟩

/-! ### Releases -/

/-- A file that is ours is replaced by the snapshot. -/
theorem release_of_isOurs {sink : CastSink} {body : Body} (h : isOurs body = true) :
    sink.release (some body) = sink.previous :=
  if_pos h

/-- A foreign file, or none, is left alone. -/
theorem release_foreign (sink : CastSink) (text : Option ForeignBody) :
    sink.release (ForeignBody.file text) = ForeignBody.file text := by
  cases text with
  | none =>
    show (if sink.previous.isNone then sink.previous else none) = none
    split
    next h => exact Option.isNone_iff_eq_none.mp h
    next => rfl
  | some text =>
    refine if_neg fun h => ?_
    exact absurd (text.foreign.symm.trans h) Bool.false_ne_true

/-- Without a foreign action the file from before the cast comes back. -/
theorem wins_launches (before : File) (castings : List Bool) : Wins before (launches castings) := by
  unfold Wins cast expected
  rw [expected_launches]
  show (engage before).1.release ((launches castings).foldl Action.apply (some asoundrcBody)) = _
  rcases foldl_launches castings (some asoundrcBody) with ⟨hfile, -⟩ | ⟨hfile, -⟩
  · rw [hfile, release_of_isOurs isOurs_asoundrcBody]
  · rw [hfile, release_of_isOurs isOurs_hookBody]

/-- What matters is what comes behind the last foreign action. -/
theorem wins_split_iff (before : File) (pre : List Action) (text : Option ForeignBody)
    (castings : List Bool) :
    Wins before (pre ++ .foreign text :: launches castings) ↔
      true ∉ castings ∨ hookTakes (ForeignBody.file text) = false ∨
        ForeignBody.file text = (engage before).1.previous := by
  have hexpected : expected before (pre ++ .foreign text :: launches castings) =
      ForeignBody.file text := by
    unfold expected
    rw [List.foldl_append, List.foldl_cons, expected_launches]
  have hcast : cast before (pre ++ .foreign text :: launches castings) =
      (engage before).1.release
        ((launches castings).foldl Action.apply (ForeignBody.file text)) := by
    show (engage before).1.release ((pre ++ .foreign text :: launches castings).foldl
      Action.apply (engage before).2) = _
    rw [List.foldl_append, List.foldl_cons]
    rfl
  unfold Wins
  rw [hexpected, hcast]
  -- either the foreign file is still there at the release, or a hook has taken it over
  rcases foldl_launches castings (ForeignBody.file text) with
    ⟨hfile, hleft⟩ | ⟨hfile, halive, htakes⟩
  · rw [hfile, release_foreign, eq_self_iff_true, true_iff]
    exact hleft.imp id Or.inl
  · rw [hfile, release_of_isOurs isOurs_hookBody, or_iff_right (not_not.mpr halive),
      or_iff_right (by rw [htakes]; decide), eq_comm]

/-- **The last foreign action stands exactly where** no hook takes over what it left, or what it
left is what was there before the cast. -/
theorem wins_iff (before : File) (acts : List Action) :
    Wins before acts ↔ Respected before acts := by
  constructor
  · rintro hwins pre text castings rfl
    exact (wins_split_iff before pre text castings).mp hwins
  · intro hrespected
    rcases split_last acts with ⟨castings, rfl⟩ | ⟨pre, text, castings, rfl⟩
    · exact wins_launches before castings
    · exact (wins_split_iff before pre text castings).mpr (hrespected pre text castings rfl)

/-- The configuration of a headset. -/
def headset : Body := "pcm.!default bluealsa\n".toList

/-- The headset is disconnected during a cast, its manager deletes the file, and a game is
launched: the headset's configuration comes back. -/
theorem not_wins : ¬ ∀ before acts, Wins before acts := by
  intro hwins
  exact absurd (hwins (some headset) [.foreign none, .hook true]) (by decide)

/-! ## Casts that crash -/

/-- The file, and the sinks of the daemons that run. -/
structure Device where
  file : File
  sinks : List CastSink
  deriving DecidableEq

/-- What happens to the file over the life of the device. A crash loses a sink without a release;
anyone else may write anything. -/
inductive Happening where
  | engage
  | crash (i : ℕ)
  | release (i : ℕ)
  | hook (casting : Bool)
  | foreign (file : File)
  deriving DecidableEq

def Device.step (d : Device) : Happening → Option Device
  | .engage =>
    let (sink, file) := engage d.file
    some ⟨file, sink :: d.sinks⟩
  | .crash i => if i < d.sinks.length then some { d with sinks := d.sinks.eraseIdx i } else none
  | .release i => d.sinks[i]?.map fun sink => ⟨sink.release d.file, d.sinks.eraseIdx i⟩
  | .hook casting => some { d with file := preLaunch casting d.file }
  | .foreign file => some { d with file := file }

/-- The file does not exist, or is not the project's. -/
def NotOurs (file : File) : Prop := ∀ body, file = some body → isOurs body = false

/-- No snapshot is the project's. -/
def Foreign (d : Device) : Prop := ∀ sink ∈ d.sinks, NotOurs sink.previous

/-- The snapshot is never one of our own routes. -/
theorem notOurs_previous_engage (file : File) : NotOurs (engage file).1.previous := by
  intro body h
  have := (Option.filter_eq_some_iff.mp h).2
  simpa using this

/-- No step takes one of our own routes as a snapshot. -/
theorem foreign_of_step {d d' : Device} {a : Happening} (h : d.step a = some d')
    (hd : Foreign d) : Foreign d' := by
  cases a with
  | engage =>
    obtain rfl := Option.some.inj h
    -- `engage` remembers only a text that does not start with the marker
    exact List.forall_mem_cons.mpr ⟨notOurs_previous_engage d.file, hd⟩
  | crash i =>
    simp only [Device.step] at h
    split at h
    next =>
      obtain rfl := Option.some.inj h
      exact fun sink hsink => hd sink (List.mem_of_mem_eraseIdx hsink)
    next => cases h
  | release i =>
    obtain ⟨sink, -, rfl⟩ := Option.map_eq_some_iff.mp h
    exact fun sink hsink => hd sink (List.mem_of_mem_eraseIdx hsink)
  | hook casting =>
    obtain rfl := Option.some.inj h
    exact hd
  | foreign file =>
    obtain rfl := Option.some.inj h
    exact hd

/-- A release restores what it kept, or leaves alone what is not the project's. -/
theorem notOurs_release {sink : CastSink} (h : NotOurs sink.previous) (file : File) :
    NotOurs (sink.release file) := by
  unfold CastSink.release
  split
  next => exact h
  next hno =>
    rintro body rfl
    exact Bool.eq_false_iff.mpr hno

/-- **The route never latches.** In every history no snapshot is the project's own file, and behind
every release the file is absent or not the project's. -/
theorem never_latches {before : File} {as : List Happening} {d : Device}
    (hrun : run Device.step ⟨before, []⟩ as = some d) :
    (∀ sink ∈ d.sinks, NotOurs sink.previous) ∧
      ∀ i d', d.step (.release i) = some d' → NotOurs d'.file := by
  have hforeign : Foreign d :=
    run_invariant (fun _ _ _ => foreign_of_step) hrun fun _ h => absurd h List.not_mem_nil
  refine ⟨hforeign, fun i d' h => ?_⟩
  obtain ⟨sink, hsink, rfl⟩ := Option.map_eq_some_iff.mp h
  exact notOurs_release (hforeign sink (List.mem_of_getElem? hsink)) d.file

/-- A daemon is killed during a cast, and the next one engages over its leftover. -/
theorem never_latches_after_kill :
    ∃ d d', run Device.step ⟨none, []⟩ [.engage, .crash 0, .engage] = some d ∧
      d.step (.release 0) = some d' ∧ NotOurs d'.file :=
  ⟨_, _, rfl, rfl, (@never_latches none [.engage, .crash 0, .engage] _ rfl).2 0 _ rfl⟩

end RgspCast.Routing
