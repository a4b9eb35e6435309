import Mathlib.Data.Int.Notation
import RgspCast.Lib.Framed
import RgspCast.Lib.Brackets

/-!
# The stream codec of the control socket

The control socket carries JSON documents over a byte stream. `StreamCodec.streamIncoming`, which
both ends use, writes a newline after a document and reads documents with no separator at all: it
counts brackets outside string literals, and cuts where the depth is back at zero. The scan state
is kept across the calls, so that each byte is scanned once.

`streamCodec_machine` connects the codec to a machine that reads the bytes one at a time. From it
come the agreement with the decoder that scans its buffer anew on every call
(`decode_eq_reference`), and what is decoded from a stream of documents that is cut anywhere: the
whitespace before a document counts against it, so that a document is dropped where there is as
much whitespace as there are other bytes in it (`decode_delivered`), and with at most one whitespace
byte before each of them, as both ends write them, none is dropped (`decode_encode_documents`).
-/

namespace RgspCast.Ipc

open Utf8 Brackets

/-! ## The codec -/

/-- `Separator`. -/
inductive Separator where
  | empty
  | byte (separator : UInt8)
  deriving DecidableEq, Repr

/-- `Separator::default`, a newline. -/
def Separator.default : Separator := .byte 0x0A

/-- `ScanState`. -/
structure ScanState where
  depth : ℤ
  inStr : Bool
  isEscaped : Bool
  startIdx : ℕ
  whitespaces : ℕ
  cursor : ℕ
  deriving DecidableEq, Repr

/-- `ScanState::new`. -/
def ScanState.new : ScanState :=
  { depth := 0, inStr := false, isEscaped := false, startIdx := 0, whitespaces := 0, cursor := 0 }

/-- `StreamCodec`. -/
structure StreamCodec where
  incomingSeparator : Separator
  outgoingSeparator : Separator
  scan : ScanState
  deriving DecidableEq, Repr

/-- `StreamCodec::new`. -/
def StreamCodec.new (incomingSeparator outgoingSeparator : Separator) : StreamCodec :=
  { incomingSeparator, outgoingSeparator, scan := .new }

/-- `StreamCodec::stream_incoming`. -/
def StreamCodec.streamIncoming : StreamCodec := .new .empty .default

/-- `is_whitespace`. -/
def isWhitespace (byte : UInt8) : Bool :=
  byte = 0x0D || byte = 0x0A || byte = 0x20 || byte = 0x09

/-- The scan loop's body on the byte at the cursor, up to the update of `is_escaped`. -/
def ScanState.scan (s : ScanState) (byte : UInt8) : ScanState :=
  let s :=
    if opens byte && !s.inStr then
      { s with startIdx := if s.depth = 0 then s.cursor else s.startIdx, depth := s.depth + 1 }
    else if closes byte && !s.inStr then { s with depth := s.depth - 1 }
    else if byte = quote && !s.isEscaped then { s with inStr := !s.inStr }
    else if isWhitespace byte then { s with whitespaces := s.whitespaces + 1 }
    else s
  { s with isEscaped := byte = backslash && !s.isEscaped && s.inStr }

/-- The loop's test for the end of a document, at the cursor. -/
def ScanState.complete (s : ScanState) : Bool :=
  s.depth = 0 && s.cursor ≠ s.startIdx && s.cursor - s.startIdx + 1 > s.whitespaces

/-- The scan loop over the bytes from the cursor on: whether it has come to the end of a
document, which is then the byte at the cursor. -/
def ScanState.scanFrom : ScanState → Bytes → ScanState × Bool
  | s, [] => (s, false)
  | s, byte :: rest =>
    let s := s.scan byte
    if s.complete then (s, true) else ScanState.scanFrom { s with cursor := s.cursor + 1 } rest

/-- `io::Error::other("invalid UTF-8")`. -/
inductive DecodeError where
  | invalidUtf8
  deriving DecidableEq, Repr

/-- `decode`: the item, if any, with the codec and the buffer after the call. -/
def StreamCodec.decode (self : StreamCodec) (buf : Bytes) :
    Except DecodeError (Option (List Char)) × StreamCodec × Bytes :=
  match self.incomingSeparator with
  | .byte separator =>
    match buf.findIdx? (· = separator) with
    | some i =>
      let line := buf.take i
      let buf := (buf.drop i).drop 1
      match Utf8.decode line with
      | some s => (.ok (some s), self, buf)
      | none => (.error .invalidUtf8, self, buf)
    | none => (.ok none, self, buf)
  | .empty =>
    match self.scan.scanFrom (buf.drop self.scan.cursor) with
    | (scan, true) =>
      let start := scan.startIdx
      let stop := scan.cursor + 1
      let buf := buf.drop start
      let bts := buf.take (stop - start)
      -- bytes that are no text are taken out of the buffer, and nothing is returned
      (.ok (Utf8.decode bts), { self with scan := .new }, buf.drop (stop - start))
    | (scan, false) => (.ok none, { self with scan }, buf)

/-- `encode`. -/
def StreamCodec.encode (self : StreamCodec) (msg : List Char) (buf : Bytes) : Bytes :=
  let payload := Utf8.encode msg
  let payload :=
    match self.outgoingSeparator with
    | .byte separator => payload ++ [separator]
    | .empty => payload
  buf ++ payload

/-- The stateless loop of `ReferenceDecoder`: every call scans the buffer from its first byte. -/
def referenceDecode (buf : Bytes) : Option (List Char) × Bytes :=
  match ScanState.new.scanFrom buf with
  | (scan, true) =>
    let buf := buf.drop scan.startIdx
    let stop := scan.cursor + 1 - scan.startIdx
    (Utf8.decode (buf.take stop), buf.drop stop)
  | (_, false) => (none, buf)

/-- The codec and the read buffer of a framed reader; the codec without a separator has no
errors. -/
def codec : Framed.Decoder (StreamCodec × Bytes) UInt8 (List Char) where
  decode s := ((s.1.decode s.2).1.toOption.join, (s.1.decode s.2).2)
  extend s chunk := (s.1, s.2 ++ chunk)
  size s := s.2.length

/-- `ReferenceDecoder` and its buffer. -/
def reference : Framed.Decoder Bytes UInt8 (List Char) where
  decode := referenceDecode
  extend buf chunk := buf ++ chunk
  size := List.length

example : (Framed.feedAll codec (.streamIncoming, [])
    [Utf8.encode "[\"a]\\".toList, Utf8.encode "\"\"]\n[".toList]).1 =
    ["[\"a]\\\"\"]".toList] := by decide

/-! ## The scan as a machine -/

/-- A byte is looked at where the cursor is. -/
@[simp] theorem ScanState.scan_cursor (s : ScanState) (byte : UInt8) :
    (s.scan byte).cursor = s.cursor := by
  simp only [ScanState.scan]
  split_ifs <;> rfl

/-- A document begins no later than the cursor. -/
theorem ScanState.scan_startIdx_le {s : ScanState} (h : s.startIdx ≤ s.cursor) (byte : UInt8) :
    (s.scan byte).startIdx ≤ s.cursor := by
  simp only [ScanState.scan]
  split_ifs <;> simp only [h, Nat.le_refl]

/-- The scan of one byte, with the bytes scanned since the last document. -/
def push (t : ScanState × Bytes) (byte : UInt8) : Option Bytes × ScanState × Bytes :=
  let s := t.1.scan byte
  if s.complete then (some ((t.2 ++ [byte]).drop s.startIdx), .new, [])
  else (none, { s with cursor := s.cursor + 1 }, t.2 ++ [byte])

/-- The byte that completes a document gives it, without the bytes before its start. -/
theorem push_complete {t : ScanState × Bytes} {byte : UInt8}
    (h : (t.1.scan byte).complete = true) :
    push t byte = (some ((t.2 ++ [byte]).drop (t.1.scan byte).startIdx), .new, []) := by
  simp only [push, h, if_true]

/-- Any other byte is held. -/
theorem push_incomplete {t : ScanState × Bytes} {byte : UInt8}
    (h : (t.1.scan byte).complete = false) :
    push t byte = (none, { t.1.scan byte with cursor := t.1.cursor + 1 }, t.2 ++ [byte]) := by
  simp only [push, h, Bool.false_eq_true, if_false, ScanState.scan_cursor]

/-- After a document the scanner starts over. -/
theorem push_reset (t : ScanState × Bytes) (byte : UInt8) (x : Bytes) (t' : ScanState × Bytes)
    (h : push t byte = (some x, t')) : t' = (.new, []) := by
  cases hc : (t.1.scan byte).complete with
  | true =>
    rw [push_complete hc] at h
    exact (Prod.mk.inj h).2.symm
  | false =>
    rw [push_incomplete hc] at h
    cases h

/-- Bytes without the end of a document are scanned to their end. -/
theorem scanFrom_of_first_none {s : ScanState} {held pend : Bytes}
    (h : Framed.first push (s, held) pend = none) :
    s.scanFrom pend = ((Framed.after push (s, held) pend).1, false) ∧
      (Framed.after push (s, held) pend).2 = held ++ pend := by
  induction pend generalizing s held with
  | nil => exact ⟨rfl, (List.append_nil held).symm⟩
  | cons b pend ih =>
    cases hc : (s.scan b).complete with
    | true => simp [Framed.first_cons_some push (push_complete (t := (s, held)) hc)] at h
    | false =>
      have hpush := push_incomplete (t := (s, held)) hc
      rw [Framed.first_cons_none push hpush] at h
      obtain ⟨hscan, hheld⟩ := ih h
      rw [Framed.after_cons, hpush, hheld]
      refine ⟨?_, by simp⟩
      simp only [ScanState.scanFrom, hc, Bool.false_eq_true, if_false, ScanState.scan_cursor]
      exact hscan

/-- The scan stops at the end of the first document. -/
theorem scanFrom_of_first_some {s : ScanState} {held pend x rest : Bytes}
    {t' : ScanState × Bytes} (hs : s.startIdx ≤ s.cursor)
    (h : Framed.first push (s, held) pend = some (x, t', rest)) :
    ∃ as s', pend = as ++ rest ∧ s.scanFrom pend = (s', true) ∧
      s'.cursor + 1 = s.cursor + as.length ∧ s'.startIdx ≤ s'.cursor ∧
      x = (held ++ as).drop s'.startIdx ∧ t' = (.new, []) := by
  -- along the bytes not yet scanned: the one that completes a document, or one more
  induction pend generalizing s held with
  | nil => simp at h
  | cons b pend ih =>
    have hstart := ScanState.scan_startIdx_le hs b
    cases hc : (s.scan b).complete with
    | true =>
      rw [Framed.first_cons_some push (push_complete (t := (s, held)) hc)] at h
      obtain ⟨rfl, rfl, rfl⟩ := h
      refine ⟨[b], s.scan b, rfl, ?_, by simp, by simpa using hstart, rfl, rfl⟩
      simp only [ScanState.scanFrom, hc, if_true]
    | false =>
      rw [Framed.first_cons_none push (push_incomplete (t := (s, held)) hc)] at h
      obtain ⟨as, s', rfl, hscan, hcur, hle, rfl, rfl⟩ := ih (by simp only; omega) h
      refine ⟨b :: as, s', rfl, ?_, ?_, hle, by simp, rfl⟩
      · simp only [ScanState.scanFrom, hc, Bool.false_eq_true, if_false, ScanState.scan_cursor]
        exact hscan
      · simp only at hcur
        rw [List.length_cons]
        omega

/-- The bytes of a document, and the bytes behind it. -/
theorem drop_take_append {as : Bytes} (rest : Bytes) {start stop : ℕ}
    (hstop : stop = as.length) (hle : start ≤ stop) :
    ((as ++ rest).drop start).take (stop - start) = as.drop start ∧
      ((as ++ rest).drop start).drop (stop - start) = rest := by
  subst hstop
  rw [List.drop_append_of_le_length hle]
  constructor
  · exact List.take_left' (by simp)
  · exact List.drop_left' (by simp)

/-- The cursor is behind the bytes scanned, and the document starts among them. -/
structure Aligned (t : ScanState × Bytes) : Prop where
  cursor : t.1.cursor = t.2.length
  start : t.1.startIdx ≤ t.1.cursor

/-- At the start nothing is held. -/
theorem aligned_new : Aligned (.new, []) := ⟨rfl, Nat.le_refl _⟩

/-- The cursor counts the bytes held. -/
theorem aligned_push {t : ScanState × Bytes} (h : Aligned t) (byte : UInt8) :
    Aligned (push t byte).2 := by
  cases hc : (t.1.scan byte).complete with
  | true =>
    rw [push_complete hc]
    exact aligned_new
  | false =>
    rw [push_incomplete hc]
    exact ⟨by simp [h.cursor], Nat.le_succ_of_le (ScanState.scan_startIdx_le h.start byte)⟩

/-- It does so after any bytes. -/
theorem aligned_after {t : ScanState × Bytes} (h : Aligned t) (bs : Bytes) :
    Aligned (Framed.after push t bs) := by
  induction bs generalizing t with
  | nil => exact h
  | cons b bs ih => exact ih (aligned_push h b)

/-- The codec has scanned a part of its buffer. -/
structure Scanned (c : StreamCodec × Bytes) (t : (ScanState × Bytes) × Bytes) : Prop where
  separator : c.1.incomingSeparator = .empty
  scan : c.1.scan = t.1.1
  buffer : c.2 = t.1.2 ++ t.2
  aligned : Aligned t.1

/-- `decode` without a whole document keeps the state of the scan. -/
theorem decode_incomplete {out : Separator} {s s' : ScanState} {buf : Bytes}
    (h : s.scanFrom (buf.drop s.cursor) = (s', false)) :
    codec.decode (⟨.empty, out, s⟩, buf) = (none, ⟨.empty, out, s'⟩, buf) := by
  simp only [codec, StreamCodec.decode, h]
  rfl

/-- `decode` cuts the document out, and drops it where it is no text. -/
theorem decode_complete {out : Separator} {s s' : ScanState} {buf : Bytes}
    (h : s.scanFrom (buf.drop s.cursor) = (s', true)) :
    codec.decode (⟨.empty, out, s⟩, buf) =
      (Utf8.decode ((buf.drop s'.startIdx).take (s'.cursor + 1 - s'.startIdx)),
        ⟨.empty, out, .new⟩, (buf.drop s'.startIdx).drop (s'.cursor + 1 - s'.startIdx)) := by
  simp only [codec, StreamCodec.decode, h]
  rfl

/-- What the codec keeps of its scan is enough to go on with it. -/
theorem streamCodec_machine :
    Framed.Bisimulation codec (Framed.resume push Utf8.decode) Scanned where
  decode := by
    rintro ⟨⟨sep, out, scan⟩, buf⟩ ⟨⟨s, held⟩, pend⟩ ⟨hsep, hscan, hbuf, haligned⟩
    obtain rfl : sep = .empty := hsep
    obtain rfl : scan = s := hscan
    -- the codec keeps one buffer and a cursor, the machine the two halves of it
    obtain rfl : buf = held ++ pend := hbuf
    have hcursor : scan.cursor = held.length := haligned.cursor
    have hdrop : (held ++ pend).drop scan.cursor = pend := List.drop_left' hcursor.symm
    rcases hf : Framed.first push (scan, held) pend with _ | ⟨x, t', rest⟩
    · obtain ⟨hs, hheld⟩ := scanFrom_of_first_none hf
      rw [Framed.resume_decode_none hf, decode_incomplete (by rw [hdrop, hs])]
      refine ⟨rfl, rfl, rfl, ?_, aligned_after haligned pend⟩
      simp only [hheld, List.append_nil]
    · obtain ⟨as, s', rfl, hs, hcur, hle, rfl, rfl⟩ := scanFrom_of_first_some haligned.start hf
      have hstop : s'.cursor + 1 = (held ++ as).length := by
        rw [List.length_append, ← hcursor]
        exact hcur
      obtain ⟨htake, hrest⟩ := drop_take_append rest hstop (Nat.le_succ_of_le hle)
      rw [List.append_assoc] at htake hrest
      rw [Framed.resume_decode_some hf, decode_complete (by rw [hdrop, hs]), htake, hrest]
      exact ⟨rfl, rfl, rfl, rfl, aligned_new⟩
  extend := by
    rintro ⟨c, buf⟩ ⟨t, pend⟩ chunk ⟨hsep, hscan, hbuf, haligned⟩
    obtain rfl : buf = t.2 ++ pend := hbuf
    exact ⟨hsep, hscan, List.append_assoc _ _ _, haligned⟩

/-- A new codec has scanned nothing. -/
theorem scanned_streamIncoming : Scanned (.streamIncoming, []) ((.new, []), []) :=
  ⟨rfl, rfl, rfl, aligned_new⟩

/-- A document takes at least one byte. -/
theorem codec_progress : codec.Progress := by
  rintro ⟨⟨sep, out, scan⟩, buf⟩ x ⟨c', buf'⟩ h
  change buf'.length < buf.length
  cases sep with
  | empty =>
    rcases hs : scan.scanFrom (buf.drop scan.cursor) with ⟨s', _ | _⟩
    · rw [decode_incomplete hs] at h
      cases h
    · rw [decode_complete hs] at h
      obtain rfl := (Prod.mk.inj (Prod.mk.inj h).2).2
      -- an empty buffer holds no document
      have hne : buf ≠ [] := by
        rintro rfl
        simp [ScanState.scanFrom] at hs
      have hlen := List.length_pos_of_ne_nil hne
      simp only [List.length_drop]
      omega
  | byte separator =>
    rcases hi : buf.findIdx? (· = separator) with _ | i
    · simp only [codec, StreamCodec.decode, hi] at h
      cases h
    · have hlt := (List.findIdx?_eq_some_iff_getElem.mp hi).1
      cases hu : Utf8.decode (buf.take i) with
      | none =>
        simp only [codec, StreamCodec.decode, hi, hu] at h
        cases h
      | some line =>
        simp only [codec, StreamCodec.decode, hi, hu] at h
        obtain rfl := (Prod.mk.inj (Prod.mk.inj h).2).2
        simp only [List.length_drop]
        omega

/-! ## The stateless loop -/

/-- The reference decoder is the machine, started again on every call. -/
theorem reference_machine :
    Framed.Bisimulation reference (Framed.restart push Utf8.decode (.new, [])) Eq where
  decode := by
    rintro buf _ rfl
    simp only [reference, referenceDecode, Framed.restart]
    rcases hf : Framed.first push (.new, []) buf with _ | ⟨x, t', rest⟩
    · rw [(scanFrom_of_first_none hf).1]
      exact ⟨rfl, rfl⟩
    · obtain ⟨as, s', rfl, hs, hcur, hle, rfl, rfl⟩ := scanFrom_of_first_some aligned_new.start hf
      have hstop : s'.cursor + 1 = as.length := by rw [hcur]; exact Nat.zero_add _
      obtain ⟨htake, hrest⟩ := drop_take_append rest hstop (Nat.le_succ_of_le hle)
      rw [hs]
      simp only [htake, hrest, List.nil_append, and_self]
  extend := by
    rintro buf _ chunk rfl
    rfl

/-- It does so for the scan from the start, too. -/
theorem reference_progress : reference.Progress := by
  intro buf x buf' h
  have hm := (reference_machine.decode buf buf rfl)
  rcases hr : (Framed.restart push Utf8.decode (.new, [])).decode buf with ⟨y, rest⟩
  rw [h, hr] at hm
  obtain ⟨hy, hrest⟩ := hm
  obtain rfl : some x = y := hy
  obtain rfl : buf' = rest := hrest
  exact Framed.restart_progress _ _ _ hr

/-- **The codec scans each byte once and decodes what the loop decodes that scans its buffer on
every call**, and leaves the same bytes, whatever the stream and wherever it is cut. -/
theorem decode_eq_reference (chunks : List Bytes) :
    (Framed.feedAll codec (.streamIncoming, []) chunks).1 =
      (Framed.feedAll reference [] chunks).1 ∧
    (Framed.feedAll codec (.streamIncoming, []) chunks).2.2 =
      (Framed.feedAll reference [] chunks).2 := by
  have hcodec := streamCodec_machine.feedAll codec_progress Framed.resume_progress chunks
    scanned_streamIncoming
  have hmachine := (Framed.resume_restart Utf8.decode push_reset).feedAll
    Framed.resume_progress Framed.restart_progress chunks
    (s := ((ScanState.new, []), [])) (t := []) ⟨[], rfl, rfl, rfl⟩
  have hreference := reference_machine.feedAll reference_progress Framed.restart_progress chunks
    (s := []) rfl
  refine ⟨hcodec.1.trans (hmachine.1.trans hreference.1.symm), ?_⟩
  obtain ⟨held, hbuf, hnone, hafter⟩ := hmachine.2
  have hheld := (scanFrom_of_first_none hnone).2
  rw [hreference.2, hbuf, hcodec.2.buffer, hafter, hheld, List.nil_append]

/-! ## The scan of a document -/

/-- The scan is past the bytes, which have changed nothing but the counts. -/
def ScanState.past (s : ScanState) (bs : Bytes) : ScanState :=
  { s with whitespaces := s.whitespaces + bs.countP isWhitespace, cursor := s.cursor + bs.length }

@[simp] theorem ScanState.past_nil (s : ScanState) : s.past [] = s := rfl

@[simp] theorem ScanState.past_depth (s : ScanState) (bs : Bytes) :
    (s.past bs).depth = s.depth := rfl

@[simp] theorem ScanState.past_inStr (s : ScanState) (bs : Bytes) :
    (s.past bs).inStr = s.inStr := rfl

@[simp] theorem ScanState.past_isEscaped (s : ScanState) (bs : Bytes) :
    (s.past bs).isEscaped = s.isEscaped := rfl

@[simp] theorem ScanState.past_startIdx (s : ScanState) (bs : Bytes) :
    (s.past bs).startIdx = s.startIdx := rfl

@[simp] theorem ScanState.past_past (s : ScanState) (as bs : Bytes) :
    (s.past as).past bs = s.past (as ++ bs) := by
  simp only [ScanState.past, List.countP_append, List.length_append, Nat.add_assoc]

/-- An opening bracket is no white space. -/
theorem not_isWhitespace_of_opens {b : UInt8} (h : opens b = true) : isWhitespace b = false := by
  simp only [opens, Bool.or_eq_true, decide_eq_true_eq] at h
  rcases h with rfl | rfl <;> rfl

/-- Nor is a closing one. -/
theorem not_isWhitespace_of_closes {b : UInt8} (h : closes b = true) : isWhitespace b = false := by
  simp only [closes, Bool.or_eq_true, decide_eq_true_eq] at h
  rcases h with rfl | rfl <;> rfl

/-- The scan stops behind the byte that completes a document. -/
theorem scanFrom_complete {s s' : ScanState} {b : UInt8} (h : s.scan b = s')
    (hc : s'.complete = true) (bs : Bytes) : s.scanFrom (b :: bs) = (s', true) := by
  subst h
  simp only [ScanState.scanFrom, hc, if_true]

/-- It goes on behind every other byte. -/
theorem scanFrom_incomplete {s s' : ScanState} {b : UInt8} (h : s.scan b = s')
    (hc : s'.complete = false) (bs : Bytes) :
    s.scanFrom (b :: bs) = { s' with cursor := s.cursor + 1 }.scanFrom bs := by
  subst h
  simp only [ScanState.scanFrom, hc, Bool.false_eq_true, if_false, ScanState.scan_cursor]

/-- In brackets no document ends. -/
theorem scanFrom_of_depth {s s' : ScanState} {b : UInt8} (h : s.scan b = s') (hd : s'.depth ≠ 0)
    (bs : Bytes) : s.scanFrom (b :: bs) = { s' with cursor := s.cursor + 1 }.scanFrom bs :=
  scanFrom_incomplete h (by simp [ScanState.complete, hd]) bs

section Scan

variable {s : ScanState} {b : UInt8}

/-- The state with a whitespace byte counted. -/
def ScanState.count (s : ScanState) (b : UInt8) : ScanState :=
  { s with whitespaces := s.whitespaces + [b].countP isWhitespace }

/-- An opening bracket outside a string; the first one starts the document. -/
theorem scan_opens (hin : s.inStr = false) (h : opens b = true) :
    s.scan b = { s with
      startIdx := if s.depth = 0 then s.cursor else s.startIdx
      depth := s.depth + 1
      isEscaped := false } := by
  simp [ScanState.scan, h, hin]

/-- A closing bracket outside a string. -/
theorem scan_closes (hin : s.inStr = false) (h : closes b = true) :
    s.scan b = { s with depth := s.depth - 1, isEscaped := false } := by
  have ho : opens b = false := by
    simp only [closes, Bool.or_eq_true, decide_eq_true_eq] at h
    rcases h with rfl | rfl <;> rfl
  simp [ScanState.scan, h, hin, ho]

/-- A quote begins a string or ends it. -/
theorem scan_quote (he : s.isEscaped = false) :
    s.scan quote = { s with inStr := !s.inStr, isEscaped := false } := by
  have ho : opens quote = false := by decide
  have hc : closes quote = false := by decide
  have hb : quote ≠ backslash := by decide
  simp [ScanState.scan, ho, hc, hb, he]

/-- A byte of the text outside of string literals. -/
theorem scan_byte (hin : s.inStr = false) (ho : opens b = false) (hc : closes b = false)
    (hq : b ≠ quote) : s.scan b = { s.count b with isEscaped := false } := by
  cases hw : isWhitespace b <;> simp [ScanState.scan, ScanState.count, ho, hc, hq, hin, hw]

/-- A byte of a string literal. -/
theorem scan_plain (hin : s.inStr = true) (hq : b ≠ quote) (hb : b ≠ backslash) :
    s.scan b = { s.count b with isEscaped := false } := by
  cases hw : isWhitespace b <;> simp [ScanState.scan, ScanState.count, hq, hb, hin, hw]

/-- A backslash in a string escapes the next byte. -/
theorem scan_backslash (hin : s.inStr = true) (he : s.isEscaped = false) :
    s.scan backslash = { s with isEscaped := true } := by
  have hw : isWhitespace backslash = false := by decide
  have hq : backslash ≠ quote := by decide
  simp [ScanState.scan, hq, hw, hin, he]

/-- The byte behind a backslash. -/
theorem scan_escaped (hin : s.inStr = true) (he : s.isEscaped = true) :
    s.scan b = { s.count b with isEscaped := false } := by
  cases hw : isWhitespace b <;> simp [ScanState.scan, ScanState.count, hw, hin, he]

end Scan

/-- A byte in brackets that only counts. -/
theorem scanFrom_count {s : ScanState} {b : UInt8} (hd : s.depth ≠ 0)
    (h : s.scan b = { s.count b with isEscaped := false }) (he : s.isEscaped = false) (bs : Bytes) :
    s.scanFrom (b :: bs) = (s.past [b]).scanFrom bs := by
  rw [scanFrom_of_depth h hd]
  simp only [ScanState.count, ScanState.past, he, List.length_singleton]

/-- The scan goes through the body of a string, by induction over its characters. -/
theorem scanFrom_strBody {bs : Bytes} (h : StrBody bs) {s : ScanState} (hd : s.depth ≠ 0)
    (hin : s.inStr = true) (he : s.isEscaped = false) (rest : Bytes) :
    s.scanFrom (bs ++ rest) = (s.past bs).scanFrom rest := by
  induction h generalizing s with
  | nil => rfl
  | @plain b bs hq hb _ ih =>
    rw [List.cons_append, scanFrom_count hd (scan_plain hin hq hb) he,
      ih (s := s.past [b]) hd hin he, ScanState.past_past]
    rfl
  | @escape b bs _ ih =>
    rw [List.cons_append, List.cons_append, scanFrom_of_depth (scan_backslash hin he) hd]
    -- the byte behind the backslash is not looked at
    have hw : [backslash, b].countP isWhitespace = [b].countP isWhitespace :=
      List.countP_cons_of_neg (by decide)
    have hesc := scanFrom_of_depth
      (scan_escaped (s := { s with isEscaped := true, cursor := s.cursor + 1 }) (b := b) hin rfl)
      hd (bs ++ rest)
    have hpast : ({ ScanState.count { s with isEscaped := true, cursor := s.cursor + 1 } b with
        isEscaped := false, cursor := s.cursor + 1 + 1 } : ScanState) = s.past [backslash, b] := by
      simp only [ScanState.count, ScanState.past, hw, he, List.length_cons, List.length_nil,
        Nat.add_assoc]
    rw [hesc, hpast, ih (s := s.past [backslash, b]) hd hin he, ScanState.past_past]
    rfl

/-- A string literal only counts. -/
theorem scanFrom_string {str : Bytes} (hs : StrBody str) {s : ScanState} (hd : s.depth ≠ 0)
    (hin : s.inStr = false) (he : s.isEscaped = false) (rest : Bytes) :
    s.scanFrom (quote :: (str ++ quote :: rest)) =
      (s.past (quote :: (str ++ [quote]))).scanFrom rest := by
  let s₁ : ScanState := { s with inStr := true, isEscaped := false, cursor := s.cursor + 1 }
  have hopen : s.scanFrom (quote :: (str ++ quote :: rest)) =
      s₁.scanFrom (str ++ quote :: rest) := by
    rw [scanFrom_of_depth (scan_quote he) hd]
    simp only [hin, Bool.not_false, s₁]
  have hbody := scanFrom_strBody hs (s := s₁) hd rfl rfl (quote :: rest)
  have hclose := scanFrom_of_depth (scan_quote (s := s₁.past str) rfl) hd rest
  rw [hopen, hbody, hclose]
  have hw : (quote :: (str ++ [quote])).countP isWhitespace = str.countP isWhitespace := by
    rw [List.countP_cons_of_neg (by decide), List.countP_append, List.countP_singleton]
    rfl
  simp only [ScanState.past, s₁, hw, hin, he, Bool.not_true, List.length_cons, List.length_append,
    List.length_nil, Nat.add_comm, Nat.add_left_comm]

/-- Balanced text leaves the scan in the brackets it was in. -/
theorem scanFrom_balanced {bs : Bytes} (h : Balanced bs) {s : ScanState} (hd : 1 ≤ s.depth)
    (hin : s.inStr = false) (he : s.isEscaped = false) (rest : Bytes) :
    s.scanFrom (bs ++ rest) = (s.past bs).scanFrom rest := by
  induction h generalizing s rest with
  | nil => rfl
  | @byte b bs ho hc hq _ ih =>
    rw [List.cons_append, scanFrom_count (by omega) (scan_byte hin ho hc hq) he,
      ih (s := s.past [b]) hd hin he, ScanState.past_past]
    rfl
  | @string str bs hs _ ih =>
    have hsplit : quote :: (str ++ quote :: bs) = quote :: (str ++ [quote]) ++ bs := by simp
    rw [hsplit, ← ScanState.past_past, ← ih (s := s.past _) hd hin he,
      ← scanFrom_string hs (by omega) hin he]
    simp
  -- The inner brackets go one level down and up again. The document cannot end inside, since the
  -- depth stays at least one.
  | @nest o c body bs ho _ hc _ ihbody ih =>
    let s₁ : ScanState :=
      { s with depth := s.depth + 1, isEscaped := false, cursor := s.cursor + 1 }
    have hopen : s.scanFrom (o :: (body ++ c :: (bs ++ rest))) =
        s₁.scanFrom (body ++ c :: (bs ++ rest)) := by
      rw [scanFrom_of_depth (scan_opens hin ho) (by simp only; omega)]
      simp only [show s.depth ≠ 0 by omega, if_false, s₁]
    have hbody := ihbody (s := s₁) (by simp only [s₁]; omega) hin rfl (c :: (bs ++ rest))
    have hclose := scanFrom_of_depth (scan_closes (s := s₁.past body) hin hc)
      (by simp only [ScanState.past_depth, s₁]; omega) (bs ++ rest)
    -- behind the closing bracket everything but the counts is as before
    have hpast : ({ s₁.past body with
        depth := (s₁.past body).depth - 1, isEscaped := false,
        cursor := (s₁.past body).cursor + 1 } : ScanState) = s.past (o :: (body ++ [c])) := by
      have hw : (o :: (body ++ [c])).countP isWhitespace = body.countP isWhitespace := by
        rw [List.countP_cons_of_neg (by simp [not_isWhitespace_of_opens ho]), List.countP_append,
          List.countP_singleton, not_isWhitespace_of_closes hc]
        rfl
      simp only [ScanState.past, s₁, hw, hin, he, Int.add_sub_cancel, List.length_cons,
        List.length_append, List.length_nil, Nat.add_comm, Nat.add_left_comm]
    have hsplit : o :: (body ++ c :: bs) = o :: (body ++ [c]) ++ bs := by simp
    rw [List.cons_append, List.append_assoc, List.cons_append, hopen, hbody, hclose, hpast,
      ih (s := s.past _) hd hin he, ScanState.past_past, hsplit]

/-! ## A stream of documents -/

/-- The scan is between two documents: since `start_idx` it has seen whitespace, and documents
outweighed by whitespace. -/
structure Between (s : ScanState) : Prop where
  depth : s.depth = 0
  inStr : s.inStr = false
  isEscaped : s.isEscaped = false
  cursor : s.cursor ≤ s.startIdx + s.whitespaces

/-- A new scanner is between two documents. -/
theorem between_new : Between .new := ⟨rfl, rfl, rfl, Nat.le_refl _⟩

/-- Whitespace between documents only counts. -/
theorem scanFrom_gap {gap : Bytes} (hgap : ∀ b ∈ gap, isWhitespace b = true) {s : ScanState}
    (hs : Between s) (rest : Bytes) :
    s.scanFrom (gap ++ rest) = (s.past gap).scanFrom rest ∧ Between (s.past gap) := by
  induction gap generalizing s with
  | nil => exact ⟨rfl, hs⟩
  | cons b gap ih =>
    obtain ⟨hb, hgap⟩ := List.forall_mem_cons.mp hgap
    have ho : opens b = false := by
      cases ho : opens b with
      | false => rfl
      | true => exact absurd hb (by simp [not_isWhitespace_of_opens ho])
    have hc : closes b = false := by
      cases hc : closes b with
      | false => rfl
      | true => exact absurd hb (by simp [not_isWhitespace_of_closes hc])
    have hq : b ≠ quote := by
      rintro rfl
      revert hb
      decide
    have hscan := scan_byte hs.inStr ho hc hq
    have hcount : [b].countP isWhitespace = 1 := by simp [hb]
    -- a byte of white space moves the cursor and its count together, so nothing is complete
    have hcursor := hs.cursor
    have hnot : ({ s.count b with isEscaped := false } : ScanState).complete = false := by
      simp only [ScanState.complete, ScanState.count, hcount, Bool.and_eq_false_iff,
        decide_eq_false_iff_not]
      right
      omega
    have hnext : s.scanFrom (b :: (gap ++ rest)) = (s.past [b]).scanFrom (gap ++ rest) := by
      rw [scanFrom_incomplete hscan hnot]
      simp only [ScanState.count, ScanState.past, hs.isEscaped, List.length_singleton]
    have hbetween : Between (s.past [b]) := by
      refine ⟨hs.depth, hs.inStr, hs.isEscaped, ?_⟩
      simp only [ScanState.past, hcount, List.length_singleton]
      omega
    obtain ⟨hrest, hend⟩ := ih hgap hbetween
    rw [ScanState.past_past] at hrest hend
    exact ⟨hnext.trans hrest, hend⟩

/-- The scan at the end of a document that it was before. -/
def ScanState.closed (s : ScanState) (m : Bytes) : ScanState :=
  { s with
    startIdx := s.cursor
    whitespaces := s.whitespaces + m.countP isWhitespace
    cursor := s.cursor + (m.length - 1) }

/-- A document ends with its last bracket, unless whitespace outweighs it: then the scan goes
on. -/
theorem scanFrom_envelope {m : Bytes} (hm : Envelope m) {s : ScanState} (hs : Between s)
    (rest : Bytes) :
    s.scanFrom (m ++ rest) =
      if s.whitespaces + m.countP isWhitespace < m.length then (s.closed m, true)
      else { s.closed m with cursor := s.cursor + m.length }.scanFrom rest := by
  obtain @⟨o, c, body, ho, hbody, hc⟩ := hm
  let s₁ : ScanState :=
    { s with startIdx := s.cursor, depth := 1, isEscaped := false, cursor := s.cursor + 1 }
  have hopen : s.scanFrom (o :: (body ++ c :: rest)) = s₁.scanFrom (body ++ c :: rest) := by
    rw [scanFrom_of_depth (scan_opens hs.inStr ho) (by simp [hs.depth])]
    simp only [hs.depth, if_true, Int.zero_add, s₁]
  have hinside := scanFrom_balanced hbody (s := s₁) (Int.le_refl 1) hs.inStr rfl (c :: rest)
  have hlen : (o :: (body ++ [c])).length = body.length + 2 := by simp
  have hw : (o :: (body ++ [c])).countP isWhitespace = body.countP isWhitespace := by
    rw [List.countP_cons_of_neg (by simp [not_isWhitespace_of_opens ho]), List.countP_append,
      List.countP_singleton, not_isWhitespace_of_closes hc]
    rfl
  have hclose : (s₁.past body).scan c = s.closed (o :: (body ++ [c])) := by
    rw [scan_closes (s := s₁.past body) hs.inStr hc]
    simp only [ScanState.past, ScanState.closed, s₁, hw, hlen, hs.depth, hs.isEscaped,
      Int.sub_self, Nat.add_assoc, Nat.add_comm 1, Nat.reduceSubDiff]
  -- `complete` compares the length with all white space seen, that before the document included
  have hcomplete : (s.closed (o :: (body ++ [c]))).complete = true ↔
      s.whitespaces + (o :: (body ++ [c])).countP isWhitespace < (o :: (body ++ [c])).length := by
    simp only [ScanState.complete, ScanState.closed, hs.depth, hlen, hw, Bool.and_eq_true,
      decide_eq_true_eq, true_and]
    constructor
    · rintro ⟨-, h⟩
      omega
    · intro h
      exact ⟨by omega, by omega⟩
  have hm : o :: (body ++ [c]) ++ rest = o :: (body ++ c :: rest) := by simp
  rw [hm, hopen, hinside]
  split_ifs with h
  · exact scanFrom_complete hclose (hcomplete.mpr h) rest
  · rw [scanFrom_incomplete hclose (Bool.eq_false_iff.mpr fun hc => h (hcomplete.mp hc))]
    simp only [ScanState.past, ScanState.closed, s₁, hlen, Nat.add_assoc, Nat.add_comm 1]

/-- A document that white space outweighs leaves the scan between two documents. -/
theorem Between.past {s : ScanState} (hs : Between s) {m : Bytes}
    (hm : ¬ s.whitespaces + m.countP isWhitespace < m.length) :
    Between { s.closed m with cursor := s.cursor + m.length } :=
  ⟨hs.depth, hs.inStr, hs.isEscaped, by simp only [ScanState.closed]; omega⟩

/-! ## What is decoded -/

/-- The machine after bytes that end no document. -/
theorem after_of_scanFrom {s s' : ScanState} (held : Bytes) {bs : Bytes}
    (h : s.scanFrom bs = (s', false)) (hs : s.startIdx ≤ s.cursor) :
    Framed.first push (s, held) bs = none ∧
      Framed.after push (s, held) bs = (s', held ++ bs) := by
  rcases hf : Framed.first push (s, held) bs with _ | ⟨x, t', rest⟩
  · obtain ⟨hscan, hheld⟩ := scanFrom_of_first_none hf
    have hstate : (Framed.after push (s, held) bs).1 = s' := by
      rw [h] at hscan
      exact (Prod.mk.inj hscan).1.symm
    exact ⟨rfl, Prod.ext hstate hheld⟩
  · obtain ⟨as, s'', rfl, hscan, -⟩ := scanFrom_of_first_some hs hf
    rw [h] at hscan
    cases hscan

/-- The machine after bytes that end a document with their last. -/
theorem emitted_of_scanFrom {s s' : ScanState} (held : Bytes) {m : Bytes}
    (h : s.scanFrom m = (s', true)) (hs : s.startIdx ≤ s.cursor)
    (hlen : s'.cursor + 1 = s.cursor + m.length) :
    Framed.emitted push (s, held) m = [(held ++ m).drop s'.startIdx] ∧
      Framed.after push (s, held) m = (.new, []) := by
  rcases hf : Framed.first push (s, held) m with _ | ⟨x, t', rest⟩
  · rw [(scanFrom_of_first_none hf).1] at h
    cases h
  · obtain ⟨as, s'', rfl, hscan, hcur, -, rfl, rfl⟩ := scanFrom_of_first_some hs hf
    rw [h] at hscan
    obtain rfl : s' = s'' := (Prod.mk.inj hscan).1
    obtain rfl : rest = [] := by
      rw [List.length_append] at hlen
      exact List.length_eq_zero_iff.mp (by omega)
    have hafter := Framed.after_eq_of_first push hf
    rw [Framed.emitted_eq_cons push hf, ← hafter, List.append_nil]
    exact ⟨rfl, rfl⟩

/-- The documents that come through, where `w` whitespace bytes have been counted: a document is
decoded if whitespace does not outweigh it, and else it is counted against the next. -/
def delivered : ℕ → List (Bytes × List Char) → List (List Char)
  | _, [] => []
  | w, (gap, text) :: rest =>
    let w := w + gap.length + (encode text).countP isWhitespace
    if w < (encode text).length then text :: delivered 0 rest else delivered w rest

/-- The bytes of a stream: before each document a gap. -/
def stream (items : List (Bytes × List Char)) : Bytes := items.flatMap fun i => i.1 ++ encode i.2

/-- The gaps are whitespace, and the documents are bracketed text. -/
def WellFormed (items : List (Bytes × List Char)) : Prop :=
  ∀ i ∈ items, (∀ b ∈ i.1, isWhitespace b = true) ∧ Envelope (encode i.2)

/-- A document of which the last byte is missing, or no bytes at all. -/
def Partial (part : Bytes) : Prop := ∃ m, Envelope m ∧ part <+: m ∧ part ≠ m

/-- Every byte of a gap is white space. -/
theorem countP_gap {gap : Bytes} (hgap : ∀ b ∈ gap, isWhitespace b = true) :
    gap.countP isWhitespace = gap.length := List.countP_eq_length.mpr hgap

/-- Bytes behind a whole document do not matter. -/
theorem scanFrom_append_of_complete {s s' : ScanState} {as : Bytes}
    (h : s.scanFrom as = (s', true)) (bs : Bytes) : s.scanFrom (as ++ bs) = (s', true) := by
  induction as generalizing s with
  | nil => cases h
  | cons a as ih =>
    cases hc : (s.scan a).complete with
    | true =>
      rw [scanFrom_complete rfl hc] at h
      rw [List.cons_append, scanFrom_complete rfl hc, h]
    | false =>
      rw [scanFrom_incomplete rfl hc] at h
      rw [List.cons_append, scanFrom_incomplete rfl hc, ih h]

/-- No document is put out before its last byte. -/
theorem emitted_partial {part : Bytes} (h : Partial part) {t : ScanState × Bytes}
    (ht : Between t.1) (ha : Aligned t) : Framed.emitted push t part = [] := by
  obtain ⟨m, hm, ⟨more, rfl⟩, hne⟩ := h
  obtain ⟨s, held⟩ := t
  rcases hf : Framed.first push (s, held) part with _ | ⟨x, t', rest⟩
  · exact Framed.emitted_eq_nil push hf
  -- a document found within the part would end before the whole does
  · exfalso
    obtain ⟨as, s', rfl, hscan, hcur, -⟩ := scanFrom_of_first_some ha.start hf
    have hdoc := scanFrom_envelope hm ht []
    have hmore : 0 < more.length := by
      rw [List.length_pos_iff]
      rintro rfl
      exact hne (List.append_nil _).symm
    rw [List.append_nil, scanFrom_append_of_complete hscan more] at hdoc
    split_ifs at hdoc
    · obtain rfl : s' = _ := (Prod.mk.inj hdoc).1
      simp only [ScanState.closed, List.length_append] at hcur
      omega
    · cases hdoc

/-- The scan of a stream puts out the documents that come through. -/
theorem emitted_stream {items : List (Bytes × List Char)} (h : WellFormed items) {gap part : Bytes}
    (hgap : ∀ b ∈ gap, isWhitespace b = true) (hpart : Partial part) {t : ScanState × Bytes}
    (ht : Between t.1) (ha : Aligned t) :
    Framed.emitted push t (stream items ++ (gap ++ part)) =
      (delivered t.1.whitespaces items).map encode := by
  induction items generalizing t with
  | nil =>
    obtain ⟨s, held⟩ := t
    obtain ⟨hscan, hbetween⟩ := scanFrom_gap hgap ht []
    rw [List.append_nil] at hscan
    obtain ⟨hfirst, hafter⟩ := after_of_scanFrom held hscan ha.start
    change Framed.emitted push (s, held) (gap ++ part) = []
    rw [Framed.emitted_append, Framed.emitted_eq_nil push hfirst, hafter,
      emitted_partial hpart hbetween (hafter ▸ aligned_after ha gap), List.append_nil]
  | cons i items ih =>
    obtain ⟨s, held⟩ := t
    obtain ⟨before, text⟩ := i
    obtain ⟨⟨hbefore, hm⟩, hitems⟩ := List.forall_mem_cons.mp h
    have hsplit : stream ((before, text) :: items) ++ (gap ++ part) =
        before ++ (encode text ++ (stream items ++ (gap ++ part))) := by
      simp [stream]
    obtain ⟨hscan, hbetween⟩ := scanFrom_gap hbefore ht []
    rw [List.append_nil] at hscan
    obtain ⟨hfirst, hafter⟩ := after_of_scanFrom held hscan ha.start
    have haligned : Aligned (s.past before, held ++ before) := hafter ▸ aligned_after ha before
    have hdoc := scanFrom_envelope hm hbetween []
    have hws : (s.past before).whitespaces = s.whitespaces + before.length := by
      rw [← countP_gap hbefore]
      rfl
    rw [hsplit, Framed.emitted_append, Framed.emitted_eq_nil push hfirst, hafter, List.nil_append,
      Framed.emitted_append, delivered]
    rw [List.append_nil, hws] at hdoc
    -- a document that the white space outweighs is passed over
    split_ifs at hdoc ⊢ with hlt
    · obtain ⟨hout, hnew⟩ := emitted_of_scanFrom (held ++ before) hdoc haligned.start
        (by simp only [ScanState.closed]; omega)
      have hstart : ((s.past before).closed (encode text)).startIdx = (held ++ before).length :=
        haligned.cursor
      rw [hout, hnew, ih hitems between_new aligned_new, hstart, List.drop_left, List.map_cons]
      rfl
    · obtain ⟨hnone, hgoes⟩ := after_of_scanFrom (held ++ before) hdoc haligned.start
      have hnext := hbetween.past (m := encode text) (by rw [hws]; exact hlt)
      rw [Framed.emitted_eq_nil push hnone, hgoes, List.nil_append,
        ih hitems hnext (hgoes ▸ aligned_after haligned _)]
      simp only [ScanState.closed, hws]

/-- Texts that the scan puts out are decoded, wherever the stream is cut. -/
theorem decoded_of_emitted {texts : List (List Char)} {chunks : List Bytes}
    (hemitted : Framed.emitted push (ScanState.new, []) chunks.flatten = texts.map encode) :
    (Framed.feedAll codec (.streamIncoming, []) chunks).1 = texts := by
  have hcodec := streamCodec_machine.feedAll codec_progress Framed.resume_progress chunks
    scanned_streamIncoming
  have haccepted : ∀ x ∈ Framed.emitted push (ScanState.new, []) chunks.flatten,
      (Utf8.decode x).isSome := by
    rw [hemitted]
    intro x hx
    obtain ⟨text, -, rfl⟩ := List.mem_map.mp hx
    rw [decode_encode]
    rfl
  rw [hcodec.1, Framed.feedAll_resume_of_accepted haccepted, hemitted, List.filterMap_map]
  simp

/-- **What is decoded from a stream of documents**, wherever it is cut and at any moment: each
document whose last byte has come is decoded, unless the whitespace counted since the last decoded
one, in the gaps and in the documents, is at least as much as the document is long. -/
theorem decode_delivered {items : List (Bytes × List Char)} (h : WellFormed items)
    {gap part : Bytes} (hgap : ∀ b ∈ gap, isWhitespace b = true) (hpart : Partial part)
    {chunks : List Bytes} (hchunks : chunks.flatten = stream items ++ (gap ++ part)) :
    (Framed.feedAll codec (.streamIncoming, []) chunks).1 = delivered 0 items := by
  apply decoded_of_emitted
  rw [hchunks]
  exact emitted_stream h hgap hpart between_new aligned_new

/-- No bytes are the part of a document. -/
theorem partial_nil : Partial [] :=
  ⟨[0x5B, 0x5D], .mk (o := 0x5B) (c := 0x5D) rfl .nil rfl, List.nil_prefix,
    List.cons_ne_nil _ _ |>.symm⟩

/-- Two blanks outweigh `{}`; with the next document they do not. -/
theorem decode_delivered_outweighed :
    (Framed.feedAll codec (.streamIncoming, []) [[0x20, 0x20, 0x7B], [0x7D, 0x5B, 0x31, 0x5D]]).1 =
      ["[1]".toList] :=
  @decode_delivered [([0x20, 0x20], ['{', '}']), ([], ['[', '1', ']'])]
    (by
      intro i hi
      rcases List.mem_pair.mp hi with rfl | rfl
      · exact ⟨List.forall_mem_cons.mpr ⟨rfl, List.forall_mem_singleton.mpr rfl⟩,
          .mk (o := 0x7B) (c := 0x7D) rfl .nil rfl⟩
      · have hbody : Balanced [0x31] := .byte rfl rfl (by decide) .nil
        exact ⟨List.forall_mem_nil _, .mk (o := 0x5B) (c := 0x5D) rfl hbody rfl⟩)
    [] [] (List.forall_mem_nil _) partial_nil _ rfl

/-! ## The two ends of the control socket -/

/-- `Sender::send` of the client: the message is written as it is. -/
def send (msg : List Char) (buf : Bytes) : Bytes := buf ++ encode msg

/-- The documents, each behind a gap: the first behind `first`, the others behind `sep`. -/
def spaced (sep : Bytes) : Bytes → List Json → List (Bytes × List Char)
  | _, [] => []
  | first, d :: docs => (first, d.render) :: spaced sep sep docs

/-- Documents with white space between them. -/
theorem wellFormed_spaced {sep first : Bytes} (hsep : ∀ b ∈ sep, isWhitespace b = true)
    (hfirst : ∀ b ∈ first, isWhitespace b = true) {docs : List Json}
    (hdocs : ∀ d ∈ docs, d.IsDocument) : WellFormed (spaced sep first docs) := by
  induction docs generalizing first with
  | nil => exact List.forall_mem_nil _
  | cons d docs ih =>
    obtain ⟨hd, hdocs⟩ := List.forall_mem_cons.mp hdocs
    exact List.forall_mem_cons.mpr ⟨⟨hfirst, envelope_render hd⟩, ih hsep hdocs⟩

/-- A document is longer by two than the whitespace in it. -/
theorem Envelope.whitespaces {m : Bytes} (h : Envelope m) :
    m.countP isWhitespace + 2 ≤ m.length := by
  obtain @⟨o, c, body, ho, hbody, hc⟩ := h
  have hbody := List.countP_le_length (p := isWhitespace) (l := body)
  rw [List.countP_cons_of_neg (by simp [not_isWhitespace_of_opens ho]), List.countP_append,
    List.countP_singleton, not_isWhitespace_of_closes hc]
  simp only [Bool.false_eq_true, if_false, List.length_cons, List.length_append, List.length_nil]
  omega

/-- One whitespace byte before each document outweighs none. -/
theorem delivered_spaced {sep first : Bytes} (hsep : sep.length ≤ 1) (hfirst : first.length ≤ 1)
    {docs : List Json} (hdocs : ∀ d ∈ docs, d.IsDocument) :
    delivered 0 (spaced sep first docs) = docs.map Json.render := by
  induction docs generalizing first with
  | nil => rfl
  | cons d docs ih =>
    obtain ⟨hd, hdocs⟩ := List.forall_mem_cons.mp hdocs
    have hws := Envelope.whitespaces (envelope_render hd)
    rw [spaced, delivered, if_pos (by omega), ih hsep hdocs, List.map_cons]

/-- What `send` writes is such a stream, but for the gap behind the last document. -/
theorem stream_spaced (sep first : Bytes) (docs : List Json) :
    ∃ gap ∈ [first, sep], first ++ docs.flatMap (fun d => encode d.render ++ sep) =
      stream (spaced sep first docs) ++ gap := by
  induction docs generalizing first with
  | nil => exact ⟨first, by simp, by simp [spaced, stream]⟩
  | cons d docs ih =>
    obtain ⟨gap, hgap, heq⟩ := ih sep
    refine ⟨gap, List.mem_cons_of_mem _ (by simpa using hgap), ?_⟩
    simp only [List.flatMap_cons, spaced, stream, List.append_assoc] at heq ⊢
    rw [heq]

/-- What is decoded where at most one whitespace byte is written behind each document. -/
theorem decode_written {sep : Bytes} (hsep : ∀ b ∈ sep, isWhitespace b = true)
    (hlen : sep.length ≤ 1) {docs : List Json} (hdocs : ∀ d ∈ docs, d.IsDocument) {part : Bytes}
    (hpart : Partial part) {chunks : List Bytes}
    (hchunks : chunks.flatten = docs.flatMap (fun d => encode d.render ++ sep) ++ part) :
    (Framed.feedAll codec (.streamIncoming, []) chunks).1 = docs.map Json.render := by
  obtain ⟨gap, hgap, hstream⟩ := stream_spaced sep [] docs
  have hwhite : ∀ b ∈ gap, isWhitespace b = true := by
    rcases List.mem_pair.mp hgap with rfl | rfl
    · exact List.forall_mem_nil _
    · exact hsep
  rw [List.nil_append] at hstream
  rw [hstream, List.append_assoc] at hchunks
  apply decoded_of_emitted
  rw [hchunks, emitted_stream (wellFormed_spaced hsep (List.forall_mem_nil _) hdocs) hwhite hpart
    between_new aligned_new]
  exact congrArg _ (@delivered_spaced sep [] hlen (Nat.zero_le 1) docs hdocs)

/-- Appending one after the other. -/
theorem foldl_append_flatMap (f : Json → Bytes) (docs : List Json) (buf : Bytes) :
    docs.foldl (fun buf d => buf ++ f d) buf = buf ++ docs.flatMap f := by
  induction docs generalizing buf with
  | nil => simp
  | cons d docs ih => rw [List.foldl_cons, ih, List.flatMap_cons, List.append_assoc]

/-- **Both ways of the control socket.** At every moment, wherever the stream is cut, the documents
decoded are those whose last byte has come, in order: the responses, which the server's codec
writes, and the requests, which the client writes back to back. -/
theorem documents_arrive {docs : List Json} (hdocs : ∀ d ∈ docs, d.IsDocument) {next : Json}
    (hnext : next.IsDocument) {part : Bytes} (hpart : part <+: encode next.render)
    (hne : part ≠ encode next.render) (chunks : List Bytes) :
    (chunks.flatten =
        docs.foldl (fun buf d => StreamCodec.streamIncoming.encode d.render buf) [] ++ part →
      (Framed.feedAll codec (.streamIncoming, []) chunks).1 = docs.map Json.render) ∧
    (chunks.flatten = docs.foldl (fun buf d => send d.render buf) [] ++ part →
      (Framed.feedAll codec (.streamIncoming, []) chunks).1 = docs.map Json.render) := by
  have hpartial : Partial part := ⟨_, envelope_render hnext, hpart, hne⟩
  constructor
  · intro hchunks
    -- both writers lay documents end to end, with a line feed between or with nothing
    refine @decode_written [0x0A] (List.forall_mem_singleton.mpr rfl) (Nat.le_refl 1) docs hdocs
      part hpartial _ ?_
    rw [hchunks]
    exact congrArg (· ++ part) (foldl_append_flatMap _ docs [])
  · intro hchunks
    refine @decode_written [] (List.forall_mem_nil _) (Nat.zero_le 1) docs hdocs part hpartial _ ?_
    rw [hchunks]
    simp only [List.append_nil]
    exact congrArg (· ++ part) (foldl_append_flatMap _ docs [])

/-- A response cut in two, and the beginning of the next. -/
theorem documents_arrive_halves :
    (Framed.feedAll codec (.streamIncoming, []) [[0x5B], [0x5D, 0x0A, 0x7B]]).1 =
      [(Json.array []).render] :=
  (@documents_arrive [.array []] (List.forall_mem_singleton.mpr trivial) (.object []) trivial
    [0x7B] ⟨[0x7D], rfl⟩ (by decide) _).1 rfl

end RgspCast.Ipc
