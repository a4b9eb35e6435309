import Mathlib.Data.List.Basic

/-!
# Decoders that are fed in chunks

A framed reader appends each chunk it reads to a buffer and then calls its decoder until this
returns nothing (`feed`). What a decoder computes is best said of a machine that reads the bytes one
at a time and now and then puts out a frame (`first`, `emitted`). Two decoders are made of such a
machine: `resume` keeps the state of the machine between the calls and reads every byte once,
`restart` keeps only the buffer and reads it from the beginning on every call.

`feedAll_resume_eq_restart` says that the two cannot be told apart. `feedAll_resume` says what
either puts out: the frames of the whole stream, wherever it is cut, up to those that still wait
behind a frame that was not accepted; where all are accepted nothing waits
(`feedAll_resume_of_accepted`).
-/

namespace Framed

variable {S T β ω υ : Type*}

/-! ## Reading a stream in chunks -/

/-- A decoder with its buffer. -/
structure Decoder (S β ω : Type*) where
  /-- One call: the item, if any, and the state after it. -/
  decode : S → Option ω × S
  /-- A chunk is appended to the buffer. -/
  extend : S → List β → S
  /-- The bytes in the buffer. -/
  size : S → ℕ

/-- Call the decoder until it returns nothing, at most `n` times. -/
def drain (d : Decoder S β ω) : ℕ → S → List ω × S
  | 0, s => ([], s)
  | n + 1, s =>
    match d.decode s with
    | (none, s') => ([], s')
    | (some x, s') => (x :: (drain d n s').1, (drain d n s').2)

/-- A chunk is read. No item is empty, so the calls are at most one more than the bytes. -/
def feed (d : Decoder S β ω) (s : S) (chunk : List β) : List ω × S :=
  drain d (d.size (d.extend s chunk) + 1) (d.extend s chunk)

/-- The chunks are read, one after the other. -/
def feedAll (d : Decoder S β ω) : S → List (List β) → List ω × S
  | s, [] => ([], s)
  | s, c :: cs =>
    ((feed d s c).1 ++ (feedAll d (feed d s c).2 cs).1, (feedAll d (feed d s c).2 cs).2)

/-- Draining stops where nothing is decoded. -/
theorem drain_none {d : Decoder S β ω} {s s' : S} (h : d.decode s = (none, s')) (n : ℕ) :
    drain d (n + 1) s = ([], s') := by
  rw [drain, h]

/-- It goes on behind a frame. -/
theorem drain_some {d : Decoder S β ω} {s s' : S} {x : ω} (h : d.decode s = (some x, s')) (n : ℕ) :
    drain d (n + 1) s = (x :: (drain d n s').1, (drain d n s').2) := by
  rw [drain, h]

/-- Every item takes bytes out of the buffer. -/
def Decoder.Progress (d : Decoder S β ω) : Prop :=
  ∀ s x s', d.decode s = (some x, s') → d.size s' < d.size s

/-- More calls than there are bytes are enough. -/
theorem drain_eq_of_size_lt {d : Decoder S β ω} (hd : d.Progress) {m n : ℕ} {s : S}
    (hm : d.size s < m) (hn : d.size s < n) : drain d m s = drain d n s := by
  induction m generalizing n s with
  | zero => omega
  | succ m ih =>
    obtain ⟨n, rfl⟩ := Nat.exists_eq_add_one_of_ne_zero (by omega : n ≠ 0)
    rcases hs : d.decode s with ⟨x, s'⟩
    cases x with
    | none => rw [drain_none hs, drain_none hs]
    | some x =>
      have hlt := hd s x s' hs
      rw [drain_some hs, drain_some hs, ih (n := n) (by omega) (by omega)]

section Bisimulation

/-- Two decoders that answer alike and go on alike. -/
structure Bisimulation (d : Decoder S β ω) (e : Decoder T β ω) (R : S → T → Prop) : Prop where
  decode : ∀ s t, R s t → (d.decode s).1 = (e.decode t).1 ∧ R (d.decode s).2 (e.decode t).2
  extend : ∀ s t c, R s t → R (d.extend s c) (e.extend t c)

variable {d : Decoder S β ω} {e : Decoder T β ω} {R : S → T → Prop}

/-- Decoders that are alike drain alike. -/
theorem Bisimulation.drain (h : Bisimulation d e R) (n : ℕ) {s : S} {t : T} (hR : R s t) :
    (drain d n s).1 = (drain e n t).1 ∧ R (drain d n s).2 (drain e n t).2 := by
  induction n generalizing s t with
  | zero => exact ⟨rfl, hR⟩
  | succ n ih =>
    obtain ⟨hout, hnext⟩ := h.decode s t hR
    rcases hs : d.decode s with ⟨x, s'⟩
    rcases ht : e.decode t with ⟨y, t'⟩
    rw [hs, ht] at hout hnext
    obtain rfl : x = y := hout
    cases x with
    | none =>
      rw [drain_none hs, drain_none ht]
      exact ⟨rfl, hnext⟩
    | some x =>
      obtain ⟨hrest, hR'⟩ := ih hnext
      rw [drain_some hs, drain_some ht]
      exact ⟨congrArg (x :: ·) hrest, hR'⟩

/-- And so they do when they are fed. -/
theorem Bisimulation.feed (h : Bisimulation d e R) (hd : d.Progress) (he : e.Progress)
    (c : List β) {s : S} {t : T} (hR : R s t) :
    (feed d s c).1 = (feed e t c).1 ∧ R (feed d s c).2 (feed e t c).2 := by
  have hext := h.extend s t c hR
  rw [Framed.feed, Framed.feed,
    drain_eq_of_size_lt hd (n := d.size (d.extend s c) + e.size (e.extend t c) + 1)
      (by omega) (by omega),
    drain_eq_of_size_lt he (n := d.size (d.extend s c) + e.size (e.extend t c) + 1)
      (by omega) (by omega)]
  exact h.drain _ hext

/-- Decoders that cannot be told apart by a call cannot be told apart by a stream. -/
theorem Bisimulation.feedAll (h : Bisimulation d e R) (hd : d.Progress) (he : e.Progress)
    (cs : List (List β)) {s : S} {t : T} (hR : R s t) :
    (feedAll d s cs).1 = (feedAll e t cs).1 ∧ R (feedAll d s cs).2 (feedAll e t cs).2 := by
  induction cs generalizing s t with
  | nil => exact ⟨rfl, hR⟩
  | cons c cs ih =>
    obtain ⟨hout, hnext⟩ := h.feed hd he c hR
    obtain ⟨hrest, hR'⟩ := ih hnext
    refine ⟨?_, hR'⟩
    rw [Framed.feedAll, Framed.feedAll, hout, hrest]

end Bisimulation

/-! ## A machine that reads byte by byte -/

section Machine

variable {τ : Type*} (push : τ → β → Option ω × τ) (accept : ω → Option υ)

/-- Read up to the first frame: the frame, the machine after it and the bytes not yet read. -/
def first : τ → List β → Option (ω × τ × List β)
  | _, [] => none
  | t, b :: bs =>
    match push t b with
    | (some x, t') => some (x, t', bs)
    | (none, t') => first t' bs

/-- The machine after the bytes. -/
def after : τ → List β → τ
  | t, [] => t
  | t, b :: bs => after (push t b).2 bs

/-- The frames put out while the bytes are read. -/
def emitted : τ → List β → List ω
  | _, [] => []
  | t, b :: bs => (push t b).1.toList ++ emitted (push t b).2 bs

@[simp] theorem first_nil (t : τ) : first push t [] = none := rfl

@[simp] theorem after_nil (t : τ) : after push t [] = t := rfl

@[simp] theorem emitted_nil (t : τ) : emitted push t [] = [] := rfl

/-- One byte after the other. -/
theorem after_cons (t : τ) (b : β) (bs : List β) :
    after push t (b :: bs) = after push (push t b).2 bs := rfl

/-- What the first byte gives, and what the others do. -/
theorem emitted_cons (t : τ) (b : β) (bs : List β) :
    emitted push t (b :: bs) = (push t b).1.toList ++ emitted push (push t b).2 bs := rfl

/-- The first byte completes a frame. -/
theorem first_cons_some {t t' : τ} {b : β} {x : ω} (h : push t b = (some x, t')) (bs : List β) :
    first push t (b :: bs) = some (x, t', bs) := by
  rw [first, h]

/-- The first byte completes none. -/
theorem first_cons_none {t t' : τ} {b : β} (h : push t b = (none, t')) (bs : List β) :
    first push t (b :: bs) = first push t' bs := by
  rw [first, h]

/-- Input one after the other. -/
@[simp] theorem after_append (t : τ) (as bs : List β) :
    after push t (as ++ bs) = after push (after push t as) bs := by
  induction as generalizing t with
  | nil => rfl
  | cons a as ih => exact ih _

/-- The output of the first input, and that of the second. -/
theorem emitted_append (t : τ) (as bs : List β) :
    emitted push t (as ++ bs) = emitted push t as ++ emitted push (after push t as) bs := by
  induction as generalizing t with
  | nil => rfl
  | cons a as ih =>
    rw [List.cons_append, emitted_cons, emitted_cons, ih, List.append_assoc]
    rfl

/-- Bytes that put out no frame are read through. -/
theorem first_append {t : τ} {as : List β} (h : first push t as = none) (bs : List β) :
    first push t (as ++ bs) = first push (after push t as) bs := by
  induction as generalizing t with
  | nil => rfl
  | cons a as ih =>
    rcases ha : push t a with ⟨x, t'⟩
    cases x with
    | some x => simp [first_cons_some push ha] at h
    | none =>
      rw [first_cons_none push ha] at h
      rw [List.cons_append, first_cons_none push ha, ih h, after_cons, ha]

/-- Without a first frame there is none. -/
theorem emitted_eq_nil {t : τ} {bs : List β} (h : first push t bs = none) :
    emitted push t bs = [] := by
  induction bs generalizing t with
  | nil => rfl
  | cons b bs ih =>
    rcases hb : push t b with ⟨x, t'⟩
    cases x with
    | some x => simp [first_cons_some push hb] at h
    | none =>
      rw [first_cons_none push hb] at h
      rw [emitted_cons, hb, ih h]
      rfl

/-- The first frame, and those behind it. -/
theorem emitted_eq_cons {t t' : τ} {bs rest : List β} {x : ω}
    (h : first push t bs = some (x, t', rest)) :
    emitted push t bs = x :: emitted push t' rest := by
  induction bs generalizing t with
  | nil => simp at h
  | cons b bs ih =>
    rcases hb : push t b with ⟨y, u⟩
    cases y with
    | some y =>
      rw [first_cons_some push hb] at h
      obtain ⟨rfl, rfl, rfl⟩ := h
      rw [emitted_cons, hb]
      rfl
    | none =>
      rw [first_cons_none push hb] at h
      rw [emitted_cons, hb, ih h]
      rfl

/-- The first frame leaves the bytes behind it unread. -/
theorem exists_of_first {t t' : τ} {bs rest : List β} {x : ω}
    (h : first push t bs = some (x, t', rest)) :
    ∃ as b, bs = as ++ b :: rest ∧ first push t as = none ∧
      push (after push t as) b = (some x, t') := by
  induction bs generalizing t with
  | nil => simp at h
  | cons b bs ih =>
    rcases hb : push t b with ⟨y, u⟩
    cases y with
    | some y =>
      rw [first_cons_some push hb] at h
      obtain ⟨rfl, rfl, rfl⟩ := h
      exact ⟨[], b, rfl, rfl, hb⟩
    | none =>
      rw [first_cons_none push hb] at h
      obtain ⟨as, c, rfl, has, hc⟩ := ih h
      refine ⟨b :: as, c, rfl, ?_, ?_⟩
      · rw [first_cons_none push hb, has]
      · rw [after_cons, hb, hc]

/-- A frame takes at least one byte. -/
theorem length_lt_of_first {t t' : τ} {bs rest : List β} {x : ω}
    (h : first push t bs = some (x, t', rest)) : rest.length < bs.length := by
  obtain ⟨as, b, rfl, -, -⟩ := exists_of_first push h
  simp only [List.length_append, List.length_cons]
  omega

/-- The input up to the first frame and that behind it are the whole. -/
theorem after_eq_of_first {t t' : τ} {bs rest : List β} {x : ω}
    (h : first push t bs = some (x, t', rest)) : after push t' rest = after push t bs := by
  obtain ⟨as, b, rfl, -, hb⟩ := exists_of_first push h
  rw [after_append, after_cons, hb]

/-! ## The decoder that resumes -/

/-- The decoder that keeps the machine, beside the bytes it has not read yet. -/
def resume : Decoder (τ × List β) β υ where
  decode s :=
    match first push s.1 s.2 with
    | none => (none, after push s.1 s.2, [])
    | some (x, t', rest) => (accept x, t', rest)
  extend s chunk := (s.1, s.2 ++ chunk)
  size s := s.2.length

variable {push accept}

/-- The decoder keeps what it has scanned. -/
theorem resume_decode_none {t : τ} {bs : List β} (h : first push t bs = none) :
    (resume push accept).decode (t, bs) = (none, after push t bs, []) := by
  simp only [resume, h]

/-- It gives the first frame, if that is accepted. -/
theorem resume_decode_some {t t' : τ} {bs rest : List β} {x : ω}
    (h : first push t bs = some (x, t', rest)) :
    (resume push accept).decode (t, bs) = (accept x, t', rest) := by
  simp only [resume, h]

/-- What was put out, and what the bytes left have yet to give, is what `s` had to give; and the
machine will have read the same bytes in the end. -/
def Conserves (push : τ → β → Option ω × τ) (accept : ω → Option υ) (s : τ × List β)
    (out : List υ) (s' : τ × List β) : Prop :=
  out ++ (emitted push s'.1 s'.2).filterMap accept = (emitted push s.1 s.2).filterMap accept ∧
    after push s'.1 s'.2 = after push s.1 s.2

/-- Nothing is lost over two steps. -/
theorem Conserves.trans {s s' s'' : τ × List β} {out out' : List υ}
    (h : Conserves push accept s out s') (h' : Conserves push accept s' out' s'') :
    Conserves push accept s (out ++ out') s'' :=
  ⟨by rw [List.append_assoc, h'.1, h.1], h'.2.trans h.2⟩

/-- Both sides of a conserving step are given more bytes to read. -/
theorem Conserves.extend {s s' : τ × List β} {out : List υ} (h : Conserves push accept s out s')
    (bs : List β) : Conserves push accept (s.1, s.2 ++ bs) out (s'.1, s'.2 ++ bs) := by
  constructor
  · simp only [emitted_append, List.filterMap_append]
    rw [← List.append_assoc, h.1, h.2]
  · simp only [after_append]
    rw [h.2]

/-- One call loses nothing. -/
theorem resume_decode (s : τ × List β) :
    Conserves push accept s ((resume push accept).decode s).1.toList
      ((resume push accept).decode s).2 := by
  obtain ⟨t, bs⟩ := s
  rcases hf : first push t bs with _ | ⟨x, t', rest⟩
  · rw [resume_decode_none hf]
    exact ⟨by simp [emitted_eq_nil push hf], rfl⟩
  · rw [resume_decode_some hf]
    refine ⟨?_, after_eq_of_first push hf⟩
    cases hx : accept x <;> simp [emitted_eq_cons push hf, hx]

/-- Nor does draining. -/
theorem drain_resume (n : ℕ) (s : τ × List β) :
    Conserves push accept s (drain (resume push accept) n s).1
      (drain (resume push accept) n s).2 := by
  induction n generalizing s with
  | zero => exact ⟨rfl, rfl⟩
  | succ n ih =>
    have hcall : Conserves push accept s _ _ := resume_decode s
    rcases hd : (resume push accept).decode s with ⟨x, s'⟩
    rw [hd] at hcall
    cases x with
    | none =>
      rw [drain_none hd]
      exact hcall
    | some x =>
      rw [drain_some hd]
      exact hcall.trans (ih s')

/-- **What a resuming decoder puts out.** The items, and those that wait in the buffer, are the
accepted frames of the whole stream. -/
theorem feedAll_resume (cs : List (List β)) (s : τ × List β) :
    Conserves push accept (s.1, s.2 ++ cs.flatten) (feedAll (resume push accept) s cs).1
      (feedAll (resume push accept) s cs).2 := by
  induction cs generalizing s with
  | nil => simp [feedAll, Conserves]
  | cons c cs ih =>
    have hfeed : Conserves push accept (s.1, s.2 ++ c) (feed (resume push accept) s c).1
        (feed (resume push accept) s c).2 := drain_resume _ _
    have hext := (hfeed.extend cs.flatten).trans (ih _)
    rwa [List.append_assoc] at hext

/-- Where all frames are accepted, enough calls leave nothing unread. -/
theorem drain_resume_eq_nil {n : ℕ} {s : τ × List β}
    (hacc : ∀ x ∈ emitted push s.1 s.2, (accept x).isSome) (hn : s.2.length < n) :
    (drain (resume push accept) n s).2.2 = [] := by
  induction n generalizing s with
  | zero => omega
  | succ n ih =>
    obtain ⟨t, bs⟩ := s
    rcases hf : first push t bs with _ | ⟨x, t', rest⟩
    · rw [drain_none (resume_decode_none hf)]
    · rw [emitted_eq_cons push hf] at hacc
      obtain ⟨hx, hrest⟩ := List.forall_mem_cons.mp hacc
      obtain ⟨y, hy⟩ := Option.isSome_iff_exists.mp hx
      have hd : (resume push accept).decode (t, bs) = (some y, t', rest) := by
        rw [resume_decode_some hf, hy]
      rw [drain_some hd]
      have hlt : rest.length < bs.length := length_lt_of_first push hf
      exact ih hrest (by simp only at hn ⊢; omega)

/-- Where all frames of a stream are accepted, they are put out, wherever the stream is cut. -/
theorem feedAll_resume_of_accepted {t : τ} {cs : List (List β)}
    (hacc : ∀ x ∈ emitted push t cs.flatten, (accept x).isSome) :
    feedAll (resume push accept) (t, []) cs =
      ((emitted push t cs.flatten).filterMap accept, after push t cs.flatten, []) := by
  -- when every item is accepted nothing stays unread at the end of a chunk
  have hnil : (feedAll (resume push accept) (t, []) cs).2.2 = [] := by
    induction cs generalizing t with
    | nil => rfl
    | cons c cs ih =>
      rw [List.flatten_cons, emitted_append, List.forall_mem_append] at hacc
      have hfeed : Conserves push accept (t, c) (feed (resume push accept) (t, []) c).1
          (feed (resume push accept) (t, []) c).2 := drain_resume _ _
      have hread : (feed (resume push accept) (t, []) c).2.2 = [] :=
        drain_resume_eq_nil hacc.1 (Nat.lt_succ_self _)
      rcases hf : feed (resume push accept) (t, []) c with ⟨out, t', rest⟩
      rw [hf] at hfeed hread
      obtain rfl : rest = [] := hread
      obtain rfl : t' = after push t c := hfeed.2
      rw [feedAll, hf]
      exact ih hacc.2
  have hall : Conserves push accept (t, cs.flatten) _ _ := feedAll_resume cs (t, [])
  rcases hf : feedAll (resume push accept) (t, []) cs with ⟨out, t', rest⟩
  rw [hf] at hall hnil
  obtain rfl : rest = [] := hnil
  obtain ⟨hout, rfl⟩ : out ++ [] = (emitted push t cs.flatten).filterMap accept ∧
    t' = after push t cs.flatten := hall
  rw [← hout, List.append_nil]

/-! ## The decoder that starts again -/

/-- The decoder that keeps the bytes since the last frame and reads them from the first on. -/
def restart (push : τ → β → Option ω × τ) (accept : ω → Option υ) (t₀ : τ) :
    Decoder (List β) β υ where
  decode bs :=
    match first push t₀ bs with
    | none => (none, bs)
    | some (x, _, rest) => (accept x, rest)
  extend bs chunk := bs ++ chunk
  size := List.length

/-- A frame takes at least one byte. -/
theorem resume_progress : (resume push accept).Progress := by
  rintro ⟨t, bs⟩ x s' h
  rcases hf : first push t bs with _ | ⟨y, t', rest⟩
  · rw [resume_decode_none hf] at h
    cases h
  · rw [resume_decode_some hf] at h
    obtain ⟨-, rfl⟩ := Prod.mk.inj h
    exact length_lt_of_first push hf

/-- It does so for the decoder that starts over, too. -/
theorem restart_progress {t₀ : τ} : (restart push accept t₀).Progress := by
  intro bs x bs' h
  rcases hf : first push t₀ bs with _ | ⟨y, t', rest⟩
  · simp only [restart, hf] at h
    cases h
  · simp only [restart, hf] at h
    obtain ⟨-, rfl⟩ := Prod.mk.inj h
    exact length_lt_of_first push hf

/-- The machine has read a part of the buffer in which there is no frame. -/
def HasRead (push : τ → β → Option ω × τ) (t₀ : τ) (s : τ × List β) (buf : List β) : Prop :=
  ∃ held, buf = held ++ s.2 ∧ first push t₀ held = none ∧ s.1 = after push t₀ held

/-- A machine that every frame puts back to its first state may be started again at every call. -/
theorem resume_restart (accept : ω → Option υ) {t₀ : τ}
    (hreset : ∀ t b x t', push t b = (some x, t') → t' = t₀) :
    Bisimulation (resume push accept) (restart push accept t₀) (HasRead push t₀) where
  decode := by
    rintro ⟨t, bs⟩ buf ⟨held, rfl, hheld, rfl⟩
    have happ := first_append push hheld bs
    rcases hf : first push (after push t₀ held) bs with _ | ⟨x, t', rest⟩
    · rw [resume_decode_none hf]
      simp only [restart, happ, hf]
      refine ⟨trivial, held ++ bs, by simp, by rw [happ, hf], by simp⟩
    · obtain ⟨as, b, -, -, hb⟩ := exists_of_first push hf
      obtain rfl := hreset _ _ _ _ hb
      rw [resume_decode_some hf]
      simp only [restart, happ, hf]
      exact ⟨trivial, [], rfl, rfl, rfl⟩
  extend := by
    rintro ⟨t, bs⟩ buf c ⟨held, rfl, hheld, rfl⟩
    exact ⟨held, by simp [resume, restart], hheld, rfl⟩

end Machine

end Framed
