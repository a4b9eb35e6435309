import Mathlib.Algebra.GroupWithZero.Nat
import Mathlib.Data.List.Basic
import Mathlib.Data.List.Forall2

/-!
# Fields of a byte buffer

Numbers in a fixed count of bytes (`le`, `be`), writing a field into a buffer (`splice`) and reading
one (`slice`), and cutting a buffer into pieces of one size (`chunks`) or of several. A field reads
back what was written to it, and what is written elsewhere does not touch it; pieces that are joined
are the pieces that the whole is cut into.
-/

namespace Layout

/-- A byte string. -/
abbrev Bytes := List UInt8

/-! ## Numbers -/

/-- The low `w` bytes of a number, the least significant first. -/
def le : ℕ → ℕ → Bytes
  | 0, _ => []
  | w + 1, n => UInt8.ofNat n :: le w (n / 256)

/-- The number that bytes hold, the least significant first. -/
def ofLe : Bytes → ℕ
  | [] => 0
  | b :: bs => b.toNat + 256 * ofLe bs

/-- The low `w` bytes of a number, the most significant first. -/
def be (w n : ℕ) : Bytes := (le w n).reverse

/-- The number that bytes hold, the most significant first. -/
def ofBe (bs : Bytes) : ℕ := ofLe bs.reverse

/-- A field has the width it was given. -/
@[simp] theorem length_le (w n : ℕ) : (le w n).length = w := by
  induction w generalizing n with
  | zero => rfl
  | succ w ih => rw [le, List.length_cons, ih]

/-- It has so in the other order. -/
@[simp] theorem length_be (w n : ℕ) : (be w n).length = w := by
  rw [be, List.length_reverse, length_le]

/-- Reading back what was written gives the number modulo its width. -/
theorem ofLe_le_mod (w n : ℕ) : ofLe (le w n) = n % 256 ^ w := by
  induction w generalizing n with
  | zero => rw [le, ofLe, Nat.pow_zero, Nat.mod_one]
  | succ w ih =>
    have hbyte : (UInt8.ofNat n).toNat = n % 256 := UInt8.toNat_ofNat'
    rw [le, ofLe, ih, hbyte, Nat.pow_succ', Nat.mod_mul]

/-- A number that fits is read back. -/
theorem ofLe_le {w n : ℕ} (h : n < 256 ^ w) : ofLe (le w n) = n := by
  rw [ofLe_le_mod, Nat.mod_eq_of_lt h]

/-- It is so in the other order. -/
theorem ofBe_be {w n : ℕ} (h : n < 256 ^ w) : ofBe (be w n) = n := by
  rw [ofBe, be, List.reverse_reverse, ofLe_le h]

/-- A field holds no more than its width. -/
theorem ofLe_lt (bs : Bytes) : ofLe bs < 256 ^ bs.length := by
  induction bs with
  | nil => exact Nat.one_pos
  | cons b bs ih =>
    have hb := b.toNat_lt
    rw [ofLe, List.length_cons, Nat.pow_succ']
    omega

/-! ## Fields -/

section Fields

variable {α : Type*}

/-- The field of `len` elements from `off` on. -/
def slice (off len : ℕ) (l : List α) : List α := (l.drop off).take len

/-- Write a field. -/
def splice (off : ℕ) (field l : List α) : List α :=
  l.take off ++ field ++ l.drop (off + field.length)

/-- Writing a field leaves the length. -/
theorem length_splice {off : ℕ} {field l : List α} (h : off + field.length ≤ l.length) :
    (splice off field l).length = l.length := by
  simp only [splice, List.length_append, List.length_take, List.length_drop]
  omega

/-- The field is where it was written, and the rest is as it was. -/
theorem getElem?_splice {off : ℕ} {field l : List α} (h : off + field.length ≤ l.length) (i : ℕ) :
    (splice off field l)[i]? =
      if off ≤ i ∧ i < off + field.length then field[i - off]? else l[i]? := by
  have hoff : (l.take off).length = off := List.length_take_of_le (by omega)
  unfold splice
  split_ifs with hi
  · rw [List.getElem?_append_left (by simp only [List.length_append, hoff]; omega),
      List.getElem?_append_right (by omega), hoff]
  · rcases Nat.lt_or_ge i off with hlt | hge
    · rw [List.append_assoc, List.getElem?_append_left (by omega), List.getElem?_take_of_lt hlt]
    · rw [List.getElem?_append_right (by simp only [List.length_append, hoff]; omega),
        List.getElem?_drop, List.length_append, hoff]
      congr 1
      omega

/-- A slice, byte by byte. -/
theorem getElem?_slice (off len : ℕ) (l : List α) (i : ℕ) :
    (slice off len l)[i]? = if i < len then l[off + i]? else none := by
  rw [slice, List.getElem?_take]
  split_ifs with hi
  · rw [List.getElem?_drop]
  · rfl

/-- A field of what is written piece by piece. -/
theorem slice_append {off len : ℕ} {l f r : List α} (hl : l.length = off) (hf : f.length = len) :
    slice off len (l ++ (f ++ r)) = f := by
  rw [slice, List.drop_left' hl, List.take_left' hf]

/-- A slice holds no more than its width, also where it is cut short. -/
theorem ofLe_slice_lt (off len : ℕ) (l : Bytes) : ofLe (slice off len l) < 256 ^ len := by
  refine Nat.lt_of_lt_of_le (ofLe_lt _) (Nat.pow_le_pow_right (by decide) ?_)
  rw [slice, List.length_take]
  exact Nat.min_le_left _ _

/-- A field reads back what was written. -/
theorem slice_splice_self {off : ℕ} {field l : List α} (h : off + field.length ≤ l.length) :
    slice off field.length (splice off field l) = field := by
  have hoff : (l.take off).length = off := List.length_take_of_le (by omega)
  rw [slice, splice, List.append_assoc, List.drop_left' hoff, List.take_left]

/-- A part of a field reads back that part of what was written. -/
theorem slice_splice_of_within {off off' len : ℕ} {field l : List α}
    (h : off + field.length ≤ l.length) (hle : off ≤ off')
    (hlen : off' + len ≤ off + field.length) :
    slice off' len (splice off field l) = slice (off' - off) len field := by
  apply List.ext_getElem?
  intro i
  rw [getElem?_slice, getElem?_slice, getElem?_splice h]
  split_ifs with hi hin
  · congr 1
    omega
  · omega
  · rfl

/-- A field keeps what is written elsewhere. -/
theorem slice_splice_of_disjoint {off off' len : ℕ} {field l : List α}
    (h : off + field.length ≤ l.length) (hd : off' + len ≤ off ∨ off + field.length ≤ off') :
    slice off' len (splice off field l) = slice off' len l := by
  apply List.ext_getElem?
  intro i
  rw [getElem?_slice, getElem?_slice, getElem?_splice h]
  split_ifs with hi hin
  · omega
  · rfl
  · rfl

/-- From its offset on the field is read first. -/
theorem drop_splice_self {off : ℕ} {field l : List α} (h : off + field.length ≤ l.length) :
    (splice off field l).drop off = field ++ l.drop (off + field.length) := by
  have hoff : (l.take off).length = off := List.length_take_of_le (by omega)
  rw [splice, List.append_assoc, List.drop_left' hoff]

/-- Behind the field nothing has changed. -/
theorem drop_splice_of_le {off n : ℕ} {field l : List α} (h : off + field.length ≤ l.length)
    (hn : off + field.length ≤ n) : (splice off field l).drop n = l.drop n := by
  have hlen : (l.take off ++ field).length = off + field.length := by
    rw [List.length_append, List.length_take_of_le (by omega)]
  rw [splice, List.drop_append, List.drop_eq_nil_of_le (by omega), List.nil_append, hlen,
    List.drop_drop]
  congr 1
  omega

/-- A field of what is padded is the padded field. -/
theorem slice_append_replicate {off len z : ℕ} {l : List α} {x : α}
    (h : off + len ≤ l.length + z) :
    slice off len (l ++ List.replicate z x) =
      slice off len l ++ List.replicate (len - (slice off len l).length) x := by
  rw [slice, slice, List.drop_append, List.take_append, List.drop_replicate, List.take_replicate,
    List.length_take, List.length_drop]
  congr 2
  omega

end Fields

/-! ## Pieces of one size -/

section Chunks

variable {α : Type*}

/-- `slice::chunks`: consecutive pieces of `n` elements, the last of what is left. -/
def chunks (n : ℕ) (l : List α) : List (List α) :=
  (List.range ((l.length + n - 1) / n)).map fun i => slice (i * n) n l

/-- The number of chunks, the last one counted. -/
@[simp] theorem length_chunks (n : ℕ) (l : List α) :
    (chunks n l).length = (l.length + n - 1) / n := by
  rw [chunks, List.length_map, List.length_range]

@[simp] theorem chunks_nil (n : ℕ) : chunks n ([] : List α) = [] := by
  have h : (0 + n - 1) / n = 0 := by
    rcases Nat.eq_zero_or_pos n with rfl | hn
    · rfl
    · exact Nat.div_eq_of_lt (by omega)
  simp only [chunks, List.length_nil, h, List.range_zero, List.map_nil]

/-- What fits one chunk is one. -/
theorem chunks_of_le {n : ℕ} {l : List α} (hl : l ≠ []) (hn : l.length ≤ n) : chunks n l = [l] := by
  have hpos := List.length_pos_of_ne_nil hl
  have h : (l.length + n - 1) / n = 1 := by
    rw [Nat.div_eq_iff (by omega)]
    omega
  simp only [chunks, h, List.range_one, List.map_cons, List.map_nil, Nat.zero_mul, slice,
    List.drop_zero, List.take_of_length_le hn]

/-- The pieces of a list are its first `n` elements and the pieces of the rest. -/
theorem chunks_of_lt {n : ℕ} {l : List α} (hn : 0 < n) (hl : n < l.length) :
    chunks n l = l.take n :: chunks n (l.drop n) := by
  have h : (l.length + n - 1) / n = ((l.drop n).length + n - 1) / n + 1 := by
    rw [List.length_drop, ← Nat.add_div_right _ hn]
    congr 1
    omega
  rw [chunks, h, List.range_succ_eq_map, List.map_cons, List.map_map]
  congr 1
  · simp [slice]
  · refine List.map_congr_left fun i _ => ?_
    simp only [Function.comp, slice, List.drop_drop, Nat.succ_mul, Nat.add_comm n]

/-- The first piece, and the pieces of the rest. -/
theorem chunks_eq_cons {n : ℕ} (hn : 0 < n) {l : List α} (hl : l ≠ []) :
    chunks n l = l.take n :: chunks n (l.drop n) := by
  rcases Nat.lt_or_ge n l.length with hlt | hge
  · exact chunks_of_lt hn hlt
  · rw [chunks_of_le hl hge, List.take_of_length_le hge, List.drop_eq_nil_of_le hge, chunks_nil]

/-- The pieces of what begins with whole pieces. -/
theorem chunks_append {n k : ℕ} (hn : 0 < n) {l l' : List α} (hl : l.length = k * n) :
    chunks n (l ++ l') = chunks n l ++ chunks n l' := by
  induction k generalizing l with
  | zero =>
    rw [Nat.zero_mul, List.length_eq_zero_iff] at hl
    rw [hl, chunks_nil, List.nil_append, List.nil_append]
  | succ k ih =>
    rw [Nat.succ_mul] at hl
    have hne : l ≠ [] := List.ne_nil_of_length_pos (by omega)
    have hdrop : (l.drop n).length = k * n := by
      rw [List.length_drop]
      omega
    rw [chunks_eq_cons hn hne, chunks_eq_cons hn (List.append_ne_nil_of_left_ne_nil hne l'),
      List.take_append_of_le_length (by omega), List.drop_append_of_le_length (by omega), ih hdrop,
      List.cons_append]

/-- Cutting into larger pieces first makes no difference. -/
theorem flatMap_chunks {n k : ℕ} (hn : 0 < n) (hk : 0 < k) (l : List α) :
    (chunks (k * n) l).flatMap (chunks n) = chunks n l := by
  have hkn : 0 < k * n := Nat.mul_pos hk hn
  induction hlen : l.length using Nat.strongRecOn generalizing l with
  | ind m ih =>
    subst hlen
    rcases Nat.lt_or_ge (k * n) l.length with hlt | hge
    · have htake : (l.take (k * n)).length = k * n := List.length_take_of_le (Nat.le_of_lt hlt)
      rw [chunks_of_lt hkn hlt, List.flatMap_cons,
        ih (l.drop (k * n)).length (by rw [List.length_drop]; omega) _ rfl,
        ← chunks_append hn htake, List.take_append_drop]
    · by_cases hl : l = []
      · rw [hl, chunks_nil, chunks_nil, List.flatMap_nil]
      · rw [chunks_of_le hl hge, List.flatMap_singleton]

/-- Joined, the pieces are the whole. -/
theorem flatten_chunks {n : ℕ} (hn : 0 < n) (l : List α) : (chunks n l).flatten = l := by
  induction hk : l.length using Nat.strongRecOn generalizing l with
  | ind k ih =>
    subst hk
    rcases Nat.lt_or_ge n l.length with hlt | hge
    · rw [chunks_of_lt hn hlt, List.flatten_cons,
        ih (l.drop n).length (by rw [List.length_drop]; omega) _ rfl, List.take_append_drop]
    · by_cases hl : l = []
      · subst hl
        simp
      · rw [chunks_of_le hl hge]
        simp

/-- Pieces of one size that are joined are cut again at the same places. -/
theorem chunks_flatten {n : ℕ} (hn : 0 < n) {ps : List (List α)} (hps : ∀ p ∈ ps, p.length = n) :
    chunks n ps.flatten = ps := by
  induction ps with
  | nil => simp
  | cons p ps ih =>
    obtain ⟨hp, hps⟩ := List.forall_mem_cons.mp hps
    rw [List.flatten_cons]
    -- `chunks` stops at the last piece without cutting again
    by_cases hrest : ps.flatten = []
    · have hnil : ps = [] := by
        cases ps with
        | nil => rfl
        | cons q ps =>
          have hq := hps q List.mem_cons_self
          rw [List.flatten_cons, List.append_eq_nil_iff] at hrest
          rw [hrest.1] at hq
          exact absurd hq.symm (by simp only [List.length_nil]; omega)
      subst hnil
      rw [List.flatten_nil, List.append_nil,
        chunks_of_le (List.ne_nil_of_length_pos (by omega)) (by omega)]
    · have hpos := List.length_pos_of_ne_nil hrest
      rw [chunks_of_lt hn (by rw [List.length_append]; omega), List.take_left' hp,
        List.drop_left' hp, ih hps]

/-- No piece is longer than the size. -/
theorem length_le_of_mem_chunks {n : ℕ} {l p : List α} (h : p ∈ chunks n l) : p.length ≤ n := by
  obtain ⟨i, -, rfl⟩ := List.mem_map.mp h
  rw [slice, List.length_take]
  exact Nat.min_le_left _ _

/-- The pieces of what the size divides. -/
theorem chunks_of_length_eq {n k : ℕ} (hn : 0 < n) {l : List α} (hl : l.length = k * n) :
    chunks n l = (List.range k).map fun i => slice (i * n) n l := by
  have hk : (k * n + n - 1) / n = k := by
    rw [Nat.div_eq_iff hn]
    omega
  rw [chunks, hl, hk]

/-- The pieces of what the size divides are of that size. -/
theorem length_of_mem_chunks {n k : ℕ} (hn : 0 < n) {l p : List α} (hl : l.length = k * n)
    (h : p ∈ chunks n l) : p.length = n := by
  rw [chunks_of_length_eq hn hl] at h
  obtain ⟨i, hi, rfl⟩ := List.mem_map.mp h
  have hle : (i + 1) * n ≤ k * n := Nat.mul_le_mul_right n (List.mem_range.mp hi)
  rw [slice, List.length_take, List.length_drop, hl]
  rw [Nat.add_mul, Nat.one_mul] at hle
  omega

end Chunks

/-! ## Pieces of different sizes -/

section Pieces

variable {α β : Type*}

/-- A range that is cut at rising bounds. -/
theorem flatMap_range_cut {bound : ℕ → ℕ} (h0 : bound 0 = 0) {k : ℕ}
    (hle : ∀ i < k, bound i ≤ bound (i + 1)) :
    ((List.range k).flatMap fun i =>
      (List.range (bound (i + 1) - bound i)).map (bound i + ·)) = List.range (bound k) := by
  induction k with
  | zero => rw [h0, List.range_zero, List.flatMap_nil]
  | succ k ih =>
    have hstep := hle k (Nat.lt_succ_self k)
    rw [List.range_succ, List.flatMap_append, ih fun i hi => hle i (by omega),
      List.flatMap_singleton, ← List.range_add, Nat.add_sub_cancel' hstep]

/-- A piece stands where those before it end. -/
theorem slice_flatMap_range {g : ℕ → List α} {i m : ℕ} (hi : i < m) :
    slice ((List.range i).map fun j => (g j).length).sum (g i).length
      ((List.range m).flatMap g) = g i := by
  obtain ⟨k, rfl⟩ : ∃ k, m = i + (1 + k) := ⟨m - i - 1, by omega⟩
  have hlen : ((List.range i).flatMap g).length =
      ((List.range i).map fun j => (g j).length).sum := List.length_flatMap
  rw [List.range_add, List.flatMap_append, slice, List.drop_left' hlen, List.range_add,
    List.map_append, List.flatMap_append, List.range_one, List.map_singleton,
    List.flatMap_singleton, Nat.add_zero, List.take_left]

/-- A table whose entries are all there. -/
theorem mapM_eq_some_map {f : α → Option β} {g : α → β} {l : List α}
    (h : ∀ x ∈ l, f x = some (g x)) : l.mapM f = some (l.map g) := by
  induction l with
  | nil => rfl
  | cons x l ih =>
    obtain ⟨hx, hl⟩ := List.forall_mem_cons.mp h
    rw [List.mapM_cons, hx, ih hl]
    rfl

/-- The places of the entries of a kind are as many as these entries. -/
theorem length_filter_places (p : α → Bool) (l : List α) :
    ((List.range l.length).filter fun i => l[i]?.any p).length = (l.filter p).length := by
  induction l with
  | nil => rfl
  | cons x l ih =>
    rw [List.length_cons, List.range_succ_eq_map, List.filter_cons, List.filter_map,
      List.filter_cons]
    have hx : (x :: l)[0]?.any p = p x := rfl
    have hl : (fun i => (x :: l)[i]?.any p) ∘ Nat.succ = fun i => l[i]?.any p := rfl
    rw [hx, hl]
    split_ifs
    · rw [List.length_cons, List.length_cons, List.length_map, ih]
    · rw [List.length_map, ih]

/-- Of two lists that correspond, the second has no more entries of a kind than the first has of the
kind that corresponds to it. -/
theorem length_filter_le_of_forall₂ {R : α → β → Prop} {p : α → Bool} {q : β → Bool}
    (h : ∀ a b, R a b → q b = true → p a = true) {l : List α} {l' : List β}
    (hl : List.Forall₂ R l l') : (l'.filter q).length ≤ (l.filter p).length := by
  induction hl with
  | nil => exact Nat.le_refl _
  | @cons a b l l' hab _ ih =>
    rw [List.filter_cons, List.filter_cons]
    split_ifs with hb ha ha
    · exact Nat.succ_le_succ ih
    · exact absurd (h a b hab hb) ha
    · exact Nat.le_succ_of_le ih
    · exact ih

end Pieces

end Layout
