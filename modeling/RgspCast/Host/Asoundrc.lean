import RgspCast.Host.Routing
import RgspCast.Lib.Utf8
import Mathlib.Data.Int.Notation

/-!
# `.asoundrc` on disk

`CastSink::engage` and `release` on the bytes of the file, with the calls that can fail. The read
fails on bytes that are no text, as it does on a missing file, and `std::fs::write` truncates before
it writes. On texts, with nothing failing, the two are those of the text model (`engage_encode`,
`release_encode`).

* `file_afterCast_iff`: a foreign file comes back exactly where it is UTF-8.
* `writes_keep_iff`: an error leaves the file whole exactly where no write stops behind its open.
* `accepts_eq_grepMarker_iff`: the daemon and `grep` agree on whose file it is unless a later line,
  or a line of a file that is no text, carries the marker. A line ends at a line feed or at a NUL.
-/

namespace RgspCast.Asoundrc

open Routing (Body asoundrcMarker asoundrcBody isOurs NotOurs)
open Utf8

/-- What is at the path: nothing, or a file with these bytes. -/
abbrev File := Option Bytes

/-! ## The calls -/

/-- How `std::fs::write` fails. -/
inductive WriteFault where
  /-- The open fails, and the file stays. -/
  | opening
  /-- The file is truncated, and the write stops behind this many bytes. -/
  | short (written : ℕ)
  deriving DecidableEq

/-- The calls of `engage` or `release` that fail. -/
structure Faults where
  read : Bool := false
  write : Option WriteFault := none
  remove : Bool := false
  deriving DecidableEq

/-- `std::fs::read_to_string`. -/
def readToString (fault : Bool) (file : File) : Option Body :=
  if fault then none else file.bind decode

/-- `std::fs::write`: whether it succeeds, and the file afterwards. A write that stops behind its
last byte has not failed. -/
def write (fault : Option WriteFault) (body : Bytes) (file : File) : Bool × File :=
  match fault with
  | none => (true, some body)
  | some .opening => (false, file)
  | some (.short k) => if k < body.length then (false, some (body.take k)) else (true, some body)

/-- `std::fs::remove_file`. -/
def removeFile (fault : Bool) (file : File) : File := if fault then file else none

/-- A failed write leaves the file as it was, or cut short. -/
theorem write_eq_false_iff {fault : Option WriteFault} {body : Bytes} {file after : File} :
    write fault body file = (false, after) ↔
      fault = some .opening ∧ file = after ∨
        ∃ k, fault = some (.short k) ∧ k < body.length ∧ some (body.take k) = after := by
  rcases fault with _ | _ | k
  · simp [write]
  · simp [write]
  · by_cases hk : k < body.length <;> simp [write, hk]

/-! ## `CastSink` -/

/-- `AUDIO_SINK_DEFAULT`. -/
def audioSinkDefault : ℤ := 0

/-- `AUDIO_SINK_USBDAC`. -/
def audioSinkUsbdac : ℤ := 2

/-- The file, and what `set_audio_sink` was last called with. -/
structure World where
  file : File
  audioSink : ℤ
  deriving DecidableEq

/-- A sink: its snapshot is not the project's. -/
structure CastSink extends Routing.CastSink where
  asoundrc : String
  foreign : NotOurs previous

/-- `CastSink::engage`, from the joined path. -/
def engage (asoundrc : String) (f : Faults) (w : World) : Except String CastSink × World :=
  let sink := (Routing.engage (readToString f.read w.file)).1
  match write f.write (encode asoundrcBody) w.file with
  | (true, file) =>
    (.ok ⟨sink, asoundrc, Routing.notOurs_previous_engage _⟩, ⟨file, audioSinkUsbdac⟩)
  | (false, file) => (.error ("writing " ++ asoundrc), { w with file })

/-- `CastSink::release`. An error returns before the indicator is put out. -/
def CastSink.release (sink : CastSink) (f : Faults) (w : World) : Except String Unit × World :=
  if sink.shouldRestore (readToString f.read w.file) then
    match sink.previous with
    | some body =>
      match write f.write (encode body) w.file with
      | (true, file) => (.ok (), ⟨file, audioSinkDefault⟩)
      | (false, file) => (.error ("restoring " ++ sink.asoundrc), { w with file })
    | none => (.ok (), ⟨removeFile f.remove w.file, audioSinkDefault⟩)
  else (.ok (), { w with audioSink := audioSinkDefault })

/-! ### On texts, with nothing failing -/

/-- What was written from a text reads back as that text. -/
theorem readToString_encode (text : Routing.File) :
    readToString false (text.map encode) = text := by
  cases text with
  | none => rfl
  | some body => exact decode_encode body

/-- With nothing failing `engage` keeps what it could read. -/
theorem engage_ok (asoundrc : String) (w : World) :
    ∃ sink, engage asoundrc {} w =
        (.ok sink, ⟨(some asoundrcBody).map encode, audioSinkUsbdac⟩) ∧
      sink.toCastSink = (Routing.engage (readToString false w.file)).1 :=
  ⟨_, rfl, rfl⟩

/-- `engage` is the text model's. -/
theorem engage_encode (asoundrc : String) (text : Routing.File) (audioSink : ℤ) :
    ∃ sink, engage asoundrc {} ⟨text.map encode, audioSink⟩ =
        (.ok sink, ⟨(Routing.engage text).2.map encode, audioSinkUsbdac⟩) ∧
      sink.toCastSink = (Routing.engage text).1 := by
  obtain ⟨sink, hengage, hsink⟩ := engage_ok asoundrc ⟨text.map encode, audioSink⟩
  rw [readToString_encode] at hsink
  exact ⟨sink, hengage, hsink⟩

/-- `release` is the text model's. -/
theorem release_encode (sink : CastSink) (text : Routing.File) (audioSink : ℤ) :
    sink.release {} ⟨text.map encode, audioSink⟩ =
      (.ok (), ⟨(sink.toCastSink.release text).map encode, audioSinkDefault⟩) := by
  unfold CastSink.release Routing.CastSink.release
  simp only [readToString_encode]
  split
  next =>
    cases sink.previous with
    | none => rfl
    | some body => rfl
  next => rfl

/-! ## A cast, byte for byte -/

/-- The bytes of `ASOUNDRC_MARKER`. -/
def markerBytes : Bytes := encode asoundrcMarker

/-- The marker is read at the start of a text where its bytes are. -/
theorem isOurs_iff {body : Body} : isOurs body = true ↔ markerBytes <+: encode body := by
  rw [markerBytes, encode_prefix_iff]
  exact List.isPrefixOf_iff_prefix

/-- The rest of a cast: `release`, if there is a sink. -/
def afterEngage : Except String CastSink × World → World
  | (.ok sink, engaged) => (sink.release {} engaged).2
  | (.error _, engaged) => engaged

/-- Engaged and released, with no other writer in between and nothing failing. -/
def afterCast (asoundrc : String) (w : World) : World := afterEngage (engage asoundrc {} w)

/-- A cast that engaged ends with its release. -/
theorem afterCast_of_ok {asoundrc : String} {w engaged : World} {sink : CastSink}
    (h : engage asoundrc {} w = (.ok sink, engaged)) :
    afterCast asoundrc w = (sink.release {} engaged).2 :=
  congrArg afterEngage h

/-- The file a cast leaves is what its `engage` could read of the one before, if that is not the
project's. -/
theorem file_afterCast (asoundrc : String) (w : World) :
    (afterCast asoundrc w).file =
      ((readToString false w.file).filter fun body => !isOurs body).map encode := by
  obtain ⟨sink, hengage, hsink⟩ := engage_ok asoundrc w
  have hrelease : sink.toCastSink.release (some asoundrcBody) = sink.previous :=
    Routing.release_of_isOurs Routing.isOurs_asoundrcBody
  rw [afterCast_of_ok hengage, release_encode, hrelease, hsink]
  rfl

/-- **A foreign file comes back byte for byte exactly where** it is valid UTF-8: what is not cannot
be read, is taken for a missing file, and removed. -/
theorem file_afterCast_iff {content : Bytes} (hforeign : ¬ markerBytes <+: content)
    (asoundrc : String) (audioSink : ℤ) :
    (afterCast asoundrc ⟨some content, audioSink⟩).file = some content ↔ Valid content := by
  rw [file_afterCast]
  show ((decode content).filter _).map encode = some content ↔ _
  cases hdecode : decode content with
  | none =>
    rw [decode_eq_none_iff] at hdecode
    exact iff_of_false (by simp) hdecode
  | some body =>
    obtain rfl := decode_eq_some_iff.mp hdecode
    have hno : isOurs body = false := by
      rw [← Bool.not_eq_true, isOurs_iff]
      exact hforeign
    refine iff_of_true ?_ (valid_encode body)
    rw [Option.filter_some, hno]
    rfl

/-- The configuration of a headset comes back. -/
theorem file_afterCast_headset :
    (afterCast ".asoundrc" ⟨some (encode Routing.headset), audioSinkDefault⟩).file =
      some (encode Routing.headset) :=
  (@file_afterCast_iff (encode Routing.headset) (by decide) ".asoundrc" audioSinkDefault).mpr
    (valid_encode _)

/-- A device name in Latin-1 is not UTF-8, and the file is gone after the cast. -/
theorem not_file_afterCast :
    ¬ ∀ content, ¬ markerBytes <+: content → ∀ (asoundrc : String) (audioSink : ℤ),
      (afterCast asoundrc ⟨some content, audioSink⟩).file = some content := by
  intro hall
  have hfile := hall [0x23, 0xe9, 0x0a] (by decide) ".asoundrc" audioSinkDefault
  rw [file_afterCast] at hfile
  exact absurd hfile (by decide)

/-! ## Errors -/

/-- An `engage` that returns an error leaves the file as it was. -/
def EngageKeeps (asoundrc : String) (f : Faults) (w : World) : Prop :=
  ∀ e w', engage asoundrc f w = (.error e, w') → w'.file = w.file

/-- The file is a copy of the snapshot that is cut short. -/
def Truncated (snapshot : Option Body) (file : File) : Prop :=
  ∃ body k, snapshot = some body ∧ k < (encode body).length ∧ file = some ((encode body).take k)

/-- A `release` that returns an error leaves no truncated snapshot. -/
def CastSink.ReleaseKeeps (sink : CastSink) (f : Faults) (w : World) : Prop :=
  ∀ e w', sink.release f w = (.error e, w') → ¬ Truncated sink.previous w'.file

/-- No write of `engage` stops behind its open, unless that leaves the bytes that were there. -/
def EngageWrites (f : Faults) (w : World) : Prop :=
  ∀ k, f.write = some (.short k) → k < (encode asoundrcBody).length →
    w.file = some ((encode asoundrcBody).take k)

/-- No write of a snapshot, over a file that is still the project's, stops behind its open. -/
def CastSink.ReleaseWrites (sink : CastSink) (f : Faults) (w : World) : Prop :=
  ∀ k body current, f.write = some (.short k) → sink.previous = some body →
    readToString f.read w.file = some current → isOurs current = true → (encode body).length ≤ k

/-- `engage` fails where it cannot write, before it asks for the sink. -/
theorem engage_eq_error_iff {asoundrc : String} {f : Faults} {w w' : World} {e : String} :
    engage asoundrc f w = (.error e, w') ↔
      write f.write (encode asoundrcBody) w.file = (false, w'.file) ∧
        e = "writing " ++ asoundrc ∧ w'.audioSink = w.audioSink := by
  unfold engage
  rcases write f.write (encode asoundrcBody) w.file with ⟨_ | _, file⟩
  · obtain ⟨file', audioSink'⟩ := w'
    simp only [Prod.mk.injEq, Except.error.injEq, World.mk.injEq, true_and, eq_comm]
    exact and_left_comm
  · simp

/-- Only a restoring write over the project's own file makes `release` fail. -/
theorem release_eq_error_iff {sink : CastSink} {f : Faults} {w w' : World} {e : String} :
    sink.release f w = (.error e, w') ↔
      ∃ body current, sink.previous = some body ∧ readToString f.read w.file = some current ∧
        isOurs current = true ∧ write f.write (encode body) w.file = (false, w'.file) ∧
        e = "restoring " ++ sink.asoundrc ∧ w'.audioSink = w.audioSink := by
  unfold CastSink.release
  cases hprevious : sink.previous with
  | none => split <;> simp
  | some body =>
    cases hread : readToString f.read w.file with
    | none => simp [Routing.CastSink.shouldRestore, hprevious]
    | some current =>
      cases hours : isOurs current with
      | false => simp [Routing.CastSink.shouldRestore, hours]
      | true =>
        -- the sink is set back only after the write, so an error leaves it
        rw [if_pos (show sink.shouldRestore (some current) = true from hours)]
        rcases hwrite : write f.write (encode body) w.file with ⟨_ | _, file⟩
        · obtain ⟨file', audioSink'⟩ := w'
          simp only [Prod.mk.injEq, Except.error.injEq, World.mk.injEq, Option.some.injEq,
            exists_and_left, exists_eq_left', hours, true_and, hwrite, eq_comm]
          exact and_left_comm
        · simp [hwrite]

/-- What is read is what is there. -/
theorem eq_encode_of_readToString {fault : Bool} {file : File} {body : Body}
    (h : readToString fault file = some body) : file = some (encode body) := by
  cases fault with
  | true => cases h
  | false =>
    obtain ⟨bytes, rfl, hdecode⟩ := Option.bind_eq_some_iff.mp h
    rw [decode_eq_some_iff.mp hdecode]

/-- The project's file is no beginning of a snapshot. -/
theorem not_truncated_of_isOurs {sink : CastSink} {current : Body} (h : isOurs current = true) :
    ¬ Truncated sink.previous (some (encode current)) := by
  rintro ⟨body, k, hprevious, -, hfile⟩
  have hmarker : markerBytes <+: encode body :=
    (isOurs_iff.mp h).trans (Option.some.inj hfile ▸ List.take_prefix k _)
  exact absurd ((sink.foreign body hprevious).symm.trans (isOurs_iff.mpr hmarker)) (by decide)

/-- `engage` keeps its promise if its write is not cut short over a file that was something else. -/
theorem engageKeeps_iff (asoundrc : String) (f : Faults) (w : World) :
    EngageKeeps asoundrc f w ↔ EngageWrites f w := by
  constructor
  · intro hkeeps k hshort hk
    have herror : engage asoundrc f w = (.error ("writing " ++ asoundrc),
        { w with file := some ((encode asoundrcBody).take k) }) :=
      engage_eq_error_iff.mpr ⟨write_eq_false_iff.mpr (Or.inr ⟨k, hshort, hk, rfl⟩), rfl, rfl⟩
    exact (hkeeps _ _ herror).symm
  · intro hwrites e w' herror
    rcases write_eq_false_iff.mp (engage_eq_error_iff.mp herror).1 with
      ⟨-, hfile⟩ | ⟨k, hshort, hk, hfile⟩
    · exact hfile.symm
    · rw [← hfile, hwrites k hshort hk]

/-- `release` keeps it if no snapshot is cut short over the project's file. -/
theorem releaseKeeps_iff (sink : CastSink) (f : Faults) (w : World) :
    sink.ReleaseKeeps f w ↔ sink.ReleaseWrites f w := by
  constructor
  · intro hkeeps k body current hshort hprevious hread hours
    by_contra hk
    have hk : k < (encode body).length := Nat.lt_of_not_le hk
    have herror : sink.release f w = (.error ("restoring " ++ sink.asoundrc),
        { w with file := some ((encode body).take k) }) :=
      release_eq_error_iff.mpr ⟨body, current, hprevious, hread, hours,
        write_eq_false_iff.mpr (Or.inr ⟨k, hshort, hk, rfl⟩), rfl, rfl⟩
    exact hkeeps _ _ herror ⟨body, k, hprevious, hk, rfl⟩
  · intro hwrites e w' herror
    obtain ⟨body, current, hprevious, hread, hours, hwrite, -, -⟩ := release_eq_error_iff.mp herror
    rcases write_eq_false_iff.mp hwrite with ⟨-, hfile⟩ | ⟨k, hshort, hk, -⟩
    · rw [← hfile, eq_encode_of_readToString hread]
      exact not_truncated_of_isOurs hours
    · exact absurd hk (Nat.not_lt.mpr (hwrites k body current hshort hprevious hread hours))

/-- **Errors lose nothing exactly where** no write stops between its open and its last byte: for
`engage` any such write but the one that leaves what was there, for `release` the one that restores
a snapshot. -/
theorem writes_keep_iff (asoundrc : String) (f g : Faults) (w now : World) (sink : CastSink) :
    (EngageKeeps asoundrc f w ↔ EngageWrites f w) ∧
      (sink.ReleaseKeeps g now ↔ sink.ReleaseWrites g now) :=
  ⟨engageKeeps_iff asoundrc f w, releaseKeeps_iff sink g now⟩

/-- The sink of a cast that began with the headset's configuration. -/
def headsetSink : CastSink where
  previous := some Routing.headset
  asoundrc := ".asoundrc"
  foreign := by
    rintro body hbody
    obtain rfl := Option.some.inj hbody
    decide

/-- The card is full: `engage` fails behind its open and leaves an empty file, `release` writes the
first five bytes of the snapshot. -/
theorem not_writes_keep :
    (¬ ∀ asoundrc f w, EngageKeeps asoundrc f w) ∧
      ¬ ∀ (sink : CastSink) f w, sink.ReleaseKeeps f w := by
  have hbody : 0 < (encode asoundrcBody).length :=
    Nat.lt_of_lt_of_le (by decide) (isOurs_iff.mp Routing.isOurs_asoundrcBody).length_le
  constructor
  · intro hall
    have hwrites := (engageKeeps_iff _ _ _).mp (hall ".asoundrc" { write := some (.short 0) }
      ⟨some (encode Routing.headset), audioSinkDefault⟩)
    exact absurd (hwrites 0 rfl hbody) (by decide)
  · intro hall
    have hwrites := (releaseKeeps_iff _ _ _).mp (hall headsetSink { write := some (.short 5) }
      ⟨some (encode Routing.hookBody), audioSinkUsbdac⟩)
    have hread : readToString false (some (encode Routing.hookBody)) = some Routing.hookBody :=
      readToString_encode (some Routing.hookBody)
    exact absurd (hwrites 5 Routing.headset Routing.hookBody rfl rfl hread Routing.isOurs_hookBody)
      (by decide)

/-! ## Whose file it is -/

/-- `is_ours` accepts what `read_to_string` makes of the file. -/
def accepts (content : Bytes) : Bool := (decode content).any isOurs

/-- Where `grep` ends a line: at a line feed, and at a NUL. -/
def endsLine (b : UInt8) : Bool := b = lineFeed || b = nul

/-- The marker opens a line of the file; the flag tells whether the bytes start at a line. -/
def markedLine : Bool → Bytes → Bool
  | _, [] => false
  | atLine, b :: bs => atLine && markerBytes.isPrefixOf (b :: bs) || markedLine (endsLine b) bs

/-- `grep -q '^# rgsp-cast:'`, which reads bytes. -/
def grepMarker (content : Bytes) : Bool := markedLine true content

/-- A line begins with the marker. -/
def MarkedLine (content : Bytes) : Prop :=
  markerBytes <+: content ∨
    ∃ pre b post, content = pre ++ b :: post ∧ (b = lineFeed ∨ b = nul) ∧ markerBytes <+: post

/-- The two bytes that end a line. -/
theorem endsLine_iff {b : UInt8} : endsLine b = true ↔ b = lineFeed ∨ b = nul := by
  simp [endsLine]

/-- The search finds a marker at the start of a line. -/
theorem markedLine_iff {atLine : Bool} {content : Bytes} :
    markedLine atLine content = true ↔
      atLine = true ∧ markerBytes <+: content ∨
        ∃ pre b post, content = pre ++ b :: post ∧ (b = lineFeed ∨ b = nul) ∧
          markerBytes <+: post := by
  -- along the file, with whether a line starts here
  induction content generalizing atLine with
  | nil =>
    have hnil : ¬ markerBytes <+: [] := by decide
    simp [markedLine, hnil]
  | cons b bs ih =>
    simp only [markedLine, Bool.or_eq_true, Bool.and_eq_true, List.isPrefixOf_iff_prefix, ih,
      endsLine_iff]
    refine or_congr_right ?_
    constructor
    · rintro (⟨hend, hpost⟩ | ⟨pre, e, post, rfl, hend, hpost⟩)
      · exact ⟨[], b, bs, rfl, hend, hpost⟩
      · exact ⟨b :: pre, e, post, rfl, hend, hpost⟩
    · rintro ⟨pre, e, post, hcontent, hend, hpost⟩
      cases pre with
      | nil =>
        obtain ⟨rfl, rfl⟩ := List.cons.inj hcontent
        exact Or.inl ⟨hend, hpost⟩
      | cons c pre =>
        obtain ⟨rfl, rfl⟩ := List.cons.inj hcontent
        exact Or.inr ⟨pre, e, post, rfl, hend, hpost⟩

/-- `grep` succeeds on a file with a marked line. -/
theorem grepMarker_iff {content : Bytes} : grepMarker content = true ↔ MarkedLine content := by
  rw [grepMarker, markedLine_iff, eq_self_iff_true, true_and]
  rfl

/-- A line begins behind a NUL. -/
example : grepMarker ([0x78, nul] ++ markerBytes) = true := by decide

/-- `is_ours` takes a file that is a text and begins with the marker. -/
theorem accepts_iff {content : Bytes} :
    accepts content = true ↔ Valid content ∧ markerBytes <+: content := by
  unfold accepts
  cases hdecode : decode content with
  | none =>
    rw [decode_eq_none_iff] at hdecode
    exact iff_of_false (by simp) fun h => hdecode h.1
  | some body =>
    obtain rfl := decode_eq_some_iff.mp hdecode
    rw [Option.any_some, isOurs_iff]
    exact (and_iff_right (valid_encode body)).symm

/-- **The daemon and the hooks agree on a file exactly where** a marker at the start of any of its
lines stands at the start of the file, and the file is UTF-8. -/
theorem accepts_eq_grepMarker_iff (content : Bytes) :
    accepts content = grepMarker content ↔
      (MarkedLine content → Valid content ∧ markerBytes <+: content) := by
  rw [Bool.eq_iff_iff, accepts_iff, grepMarker_iff]
  constructor
  · exact Iff.mpr
  · intro h
    exact ⟨fun ⟨_, hmarker⟩ => Or.inl hmarker, h⟩

/-- A foreign configuration with a leftover of ours appended: the daemon leaves it alone, the hooks
overwrite or remove it. -/
theorem not_accepts_eq_grepMarker : ¬ ∀ content, accepts content = grepMarker content := by
  intro hall
  exact absurd (hall (encode (Routing.headset ++ asoundrcMarker))) (by decide)

/-! ### On texts -/

/-- On a text it is `isOurs`. -/
theorem accepts_encode (body : Body) : accepts (encode body) = isOurs body := by
  rw [accepts, decode_encode, Option.any_some]

/-- Bytes that end no line are passed by. -/
theorem markedLine_append_of_forall {as : Bytes} (h : ∀ a ∈ as, endsLine a = false) (bs : Bytes) :
    markedLine false (as ++ bs) = markedLine false bs := by
  induction as with
  | nil => rfl
  | cons a as ih =>
    obtain ⟨ha, has⟩ := List.forall_mem_cons.mp h
    rw [List.cons_append, markedLine, Bool.false_and, Bool.false_or, ha, ih has]

/-- The bytes of a character that ends no line end none. -/
theorem endsLine_eq_false_of_mem {c : Char} (hc : Routing.endsLine c = false) {b : UInt8}
    (hb : b ∈ String.utf8EncodeChar c) : endsLine b = false := by
  rw [← Bool.not_eq_true] at hc ⊢
  refine fun hend => hc ?_
  rcases endsLine_iff.mp hend with rfl | rfl
  · rw [eq_newline_of_mem hb]
    rfl
  · rw [eq_nul_of_mem hb]
    rfl

/-- A character that ends a line is one byte that does. -/
theorem endsLine_cases {c : Char} (hc : Routing.endsLine c = true) :
    ∃ b, String.utf8EncodeChar c = [b] ∧ endsLine b = true := by
  rcases Bool.or_eq_true_iff.mp hc with hc | hc
  · obtain rfl := of_decide_eq_true hc
    exact ⟨lineFeed, rfl, rfl⟩
  · obtain rfl := of_decide_eq_true hc
    exact ⟨nul, rfl, rfl⟩

/-- Whether a line carries the marker is the same of a text and of its bytes. -/
theorem markedLine_encode (atLine : Bool) (body : Body) :
    markedLine atLine (encode body) = Routing.markedLine atLine body := by
  induction body generalizing atLine with
  | nil => rfl
  | cons c cs ih =>
    have hours : markerBytes.isPrefixOf (encode (c :: cs)) = isOurs (c :: cs) := by
      rw [Bool.eq_iff_iff, isOurs_iff, List.isPrefixOf_iff_prefix]
    -- a character that ends a line is one byte; of any other no byte does
    cases hc : Routing.endsLine c with
    | true =>
      obtain ⟨b, hbytes, hb⟩ := endsLine_cases hc
      rw [encode_cons, hbytes] at hours ⊢
      rw [List.singleton_append, markedLine, hb, ih, Routing.markedLine, hc]
      exact congrArg (_ && · || _) hours
    | false =>
      obtain ⟨b, bs, hbytes⟩ := List.exists_cons_of_ne_nil (String.utf8EncodeChar_ne_nil (c := c))
      have hfeeds : ∀ b' ∈ b :: bs, endsLine b' = false := fun b' hb' =>
        endsLine_eq_false_of_mem hc (hbytes ▸ hb')
      obtain ⟨hb, hbs⟩ := List.forall_mem_cons.mp hfeeds
      rw [encode_cons, hbytes] at hours ⊢
      rw [List.cons_append, markedLine, hb, markedLine_append_of_forall hbs, ih,
        Routing.markedLine, hc]
      exact congrArg (_ && · || _) hours

/-- `grep` on the bytes of a text and on its characters. -/
theorem grepMarker_encode (body : Body) : grepMarker (encode body) = Routing.grepMarker body :=
  markedLine_encode true body

end RgspCast.Asoundrc
