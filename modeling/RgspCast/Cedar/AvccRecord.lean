import RgspCast.Cedar.Bitstream

/-!
# Cut avcC records

`avcc_record_to_annexb` with the cursor and the index expressions of the source, where an index out
of range is `none` (`avccRecordToAnnexb?`). No input makes it index out of range, and it computes
what `avccRecordToAnnexb` does (`avccRecordToAnnexb?_eq`). On the first `k` bytes of a record it
yields the sets that lie wholly in them, wherever the record is cut (`converts_cut_record`).
-/

namespace RgspCast.AvccRecord

open Nal Bitstream

/-! ## The function with its index expressions -/

/-- The slice `p[start..stop]`: `none` where Rust panics. -/
def slice? (p : Bytes) (start stop : ℕ) : Option Bytes :=
  if start ≤ stop ∧ stop ≤ p.length then some ((p.take stop).drop start) else none

/-- One counted loop, from the cursor `in_` and the output so far: the cursor and the output behind
it, or the output where the source returns early. -/
def readSets (p : Bytes) : ℕ → ℕ → Bytes → Option (Bytes ⊕ ℕ × Bytes)
  | 0, in_, out => some (.inr (in_, out))
  | n + 1, in_, out =>
    if p.length < in_ + 2 then some (.inl out)
    else
      p[in_]?.bind fun hi => p[in_ + 1]?.bind fun lo =>
        let len := hi.toNat * 256 + lo.toNat
        if p.length < in_ + 2 + len then some (.inl out)
        else
          (slice? p (in_ + 2) (in_ + 2 + len)).bind fun set =>
            readSets p n (in_ + 2 + len) (out ++ (startCode ++ set))

/-- `avcc_record_to_annexb`, index by index. -/
def avccRecordToAnnexb? (p : Bytes) : Option Bytes :=
  if p.length ≤ 7 then some []
  else
    p[0]?.bind fun version =>
      if version ≠ 1 then some []
      else
        p[5]?.bind fun count => (readSets p (count &&& 0x1f).toNat 6 []).bind fun
          | .inl out => some out
          | .inr (in_, out) =>
            if p.length ≤ in_ then some out
            else
              p[in_]?.bind fun npps => (readSets p npps.toNat (in_ + 1) out).map fun
                | .inl out => out
                | .inr (_, out) => out

/-- The slice is there where it ends inside the payload. -/
theorem slice?_eq {p : Bytes} {start len : ℕ} (h : start + len ≤ p.length) :
    slice? p start (start + len) = some ((p.drop start).take len) := by
  rw [slice?, if_pos ⟨Nat.le_add_right _ _, h⟩, List.drop_take, Nat.add_sub_cancel_left]

/-- What a loop over `p` makes of the sets read and the bytes behind them. -/
def outcome (p out : Bytes) : List Bytes × Option Bytes → Bytes ⊕ ℕ × Bytes
  | (sets, none) => .inl (out ++ annexB sets)
  | (sets, some rest) => .inr (p.length - rest.length, out ++ annexB sets)

/-- A set that has been appended is the first of the list. -/
theorem outcome_cons (p out set : Bytes) (r : List Bytes × Option Bytes) :
    outcome p (out ++ (startCode ++ set)) r = outcome p out (set :: r.1, r.2) := by
  obtain ⟨sets, _ | rest⟩ := r <;> simp [outcome, annexB_cons]

/-- The cursor reads what `recordSets` reads of the bytes from the cursor on. -/
theorem readSets_eq {p : Bytes} {n in_ : ℕ} (hin : in_ ≤ p.length) (out : Bytes) :
    readSets p n in_ out = some (outcome p out (recordSets n (p.drop in_))) := by
  induction n generalizing in_ out with
  | zero =>
    have hin' : p.length - (p.length - in_) = in_ := Nat.sub_sub_self hin
    simp [readSets, recordSets, outcome, hin']
  | succ n ih =>
    have hlen := List.length_drop (l := p) (i := in_)
    rcases hd : p.drop in_ with _ | ⟨hi, _ | ⟨lo, rest⟩⟩
    case cons.cons =>
      rw [hd, List.length_cons, List.length_cons] at hlen
      have hhi : p[in_]? = some hi := by
        rw [← Nat.add_zero in_, ← List.getElem?_drop, hd]
        rfl
      have hlo : p[in_ + 1]? = some lo := by
        rw [← List.getElem?_drop, hd]
        rfl
      have hrest : p.drop (in_ + 2) = rest := by
        rw [← List.drop_drop, hd]
        rfl
      rw [readSets, if_neg (by omega), hhi, hlo, recordSets]
      simp only [Option.bind_some]
      by_cases hover : rest.length < hi.toNat * 256 + lo.toNat
      · -- the length field reaches past the end
        rw [if_pos (by omega), if_pos hover]
        simp [outcome]
      · have hset : in_ + 2 + (hi.toNat * 256 + lo.toNat) ≤ p.length := by omega
        rw [if_neg (by omega), if_neg hover, slice?_eq hset, hrest, Option.bind_some,
          ih hset, outcome_cons, ← List.drop_drop, hrest]
    -- no length field is left
    all_goals
      rw [hd] at hlen
      simp only [List.length_cons, List.length_nil] at hlen
      rw [readSets, if_pos (by omega)]
      simp [recordSets, outcome]

/-- The bytes behind a counted run are the end of the input. -/
theorem suffix_of_recordSets {n : ℕ} {p rest : Bytes} (h : (recordSets n p).2 = some rest) :
    rest <:+ p := by
  induction n generalizing p with
  | zero =>
    obtain rfl : p = rest := Option.some.inj h
    exact List.suffix_refl p
  | succ n ih =>
    rcases p with _ | ⟨hi, _ | ⟨lo, p⟩⟩
    · cases h
    · cases h
    · rw [recordSets] at h
      simp only at h
      split at h
      next => cases h
      next =>
        refine (ih h).trans ((List.drop_suffix _ p).trans ?_)
        exact (List.suffix_cons lo p).trans (List.suffix_cons hi _)

/-- Behind the SPS comes the count of the PPS, unless the input ends there. -/
theorem pps_eq {p rest : Bytes} (h : rest <:+ p) (sps : List Bytes) :
    (if p.length ≤ p.length - rest.length then some (annexB sps)
      else p[p.length - rest.length]?.bind fun npps =>
        (readSets p npps.toNat (p.length - rest.length + 1) (annexB sps)).map fun
          | .inl out => out
          | .inr (_, out) => out) =
      some (match some rest with
        | none | some [] => annexB sps
        | some (npps :: rest) => annexB sps ++ annexB (recordSets npps.toNat rest).1) := by
  have hdrop := List.suffix_iff_eq_drop.mp h
  have hle := h.length_le
  -- the record may end right after its SPSes: no byte counts the PPSes then
  cases rest with
  | nil => exact if_pos (Nat.le_refl _)
  | cons npps rest =>
    rw [List.length_cons] at hle
    have hnpps : p[p.length - (npps :: rest).length]? = some npps := by
      rw [← Nat.add_zero (p.length - (npps :: rest).length), ← List.getElem?_drop, ← hdrop]
      rfl
    have hbehind : p.drop (p.length - (npps :: rest).length + 1) = rest := by
      rw [← List.drop_drop, ← hdrop]
      rfl
    rw [if_neg (by rw [List.length_cons]; omega), hnpps, Option.bind_some,
      readSets_eq (by rw [List.length_cons]; omega), hbehind, Option.map_some]
    rcases hpps : recordSets npps.toNat rest with ⟨pps, _ | rest'⟩ <;> simp [outcome, hpps]

/-- **No input makes the function index out of range**, and it returns what `avccRecordToAnnexb`
says. -/
theorem avccRecordToAnnexb?_eq (p : Bytes) :
    avccRecordToAnnexb? p = some (avccRecordToAnnexb p) := by
  rw [avccRecordToAnnexb?, avccRecordToAnnexb]
  by_cases hshort : p.length ≤ 7
  · rw [if_pos hshort, if_pos (Or.inl hshort)]
  -- past seven bytes every index the code takes is inside
  · have hversion : p[0]? = some (p.headD 0) := by
      cases p with
      | nil => exact absurd (Nat.zero_le 7) hshort
      | cons b p => rfl
    have hcount : p[5]? = some (p.getD 5 0) := by
      rw [List.getD_eq_getElem?_getD, List.getElem?_eq_getElem (by omega)]
      rfl
    rw [if_neg hshort, hversion, Option.bind_some]
    by_cases hone : p.headD 0 = 1
    · rw [if_neg (not_not.mpr hone), if_neg (not_or.mpr ⟨hshort, not_not.mpr hone⟩), hcount,
        Option.bind_some, readSets_eq (by omega), Option.bind_some]
      generalize hsps : recordSets ((p.getD 5 0) &&& 0x1f).toNat (p.drop 6) = sps
      obtain ⟨sps, _ | rest⟩ := sps
      · simp [outcome]
      · have hrest : rest <:+ p :=
          (suffix_of_recordSets (congrArg Prod.snd hsps)).trans (List.drop_suffix 6 p)
        exact pps_eq hrest sps
    · rw [if_pos hone, if_pos (Or.inr hone)]

/-! ## Records -/

/-- An `AVCDecoderConfigurationRecord`: any header, any sets that its counts and lengths can tell,
and any bytes behind them. -/
structure AvcRecord where
  profile : UInt8
  compat : UInt8
  level : UInt8
  lengthSize : UInt8
  /-- The bits above the SPS count. -/
  reserved : Fin 8
  sps : List Bytes
  pps : List Bytes
  extension : Bytes
  length_sps : sps.length ≤ 31
  length_pps : pps.length ≤ 255
  length_set : ∀ n ∈ sps ++ pps, n.length < 2 ^ 16

def AvcRecord.bytes (r : AvcRecord) : Bytes :=
  1 :: r.profile :: r.compat :: r.level :: r.lengthSize ::
    UInt8.ofNat (32 * r.reserved + r.sps.length) ::
    (sets16 r.sps ++ UInt8.ofNat r.pps.length :: (sets16 r.pps ++ r.extension))

/-- Each set with the place where it ends, where the first length field is at `start`. -/
def placed (start : ℕ) : List Bytes → List (ℕ × Bytes)
  | [] => []
  | n :: ns => (start + 2 + n.length, n) :: placed (start + 2 + n.length) ns

/-- The sets of a record with the places where they end. -/
def AvcRecord.placed (r : AvcRecord) : List (ℕ × Bytes) :=
  AvccRecord.placed 6 r.sps ++ AvccRecord.placed (7 + (sets16 r.sps).length) r.pps

/-- The sets that lie wholly within the first `k` bytes, in order. -/
def within (k : ℕ) (placed : List (ℕ × Bytes)) : List Bytes :=
  (placed.filter (·.1 ≤ k)).map Prod.snd

/-- What is within the first `k` bytes, list by list. -/
theorem within_append (k : ℕ) (as bs : List (ℕ × Bytes)) :
    within k (as ++ bs) = within k as ++ within k bs := by
  simp [within]

/-- A set in front of the cut is kept. -/
theorem within_placed_cons {k start : ℕ} {n : Bytes} (h : start + 2 + n.length ≤ k)
    (ns : List Bytes) :
    within k (placed start (n :: ns)) = n :: within k (placed (start + 2 + n.length) ns) := by
  rw [placed, within, List.filter_cons_of_pos (by simpa using h), List.map_cons]
  rfl

/-- Nothing that begins within two bytes of the cut lies wholly in front of it. -/
theorem within_placed_eq_nil {k start : ℕ} (h : k < start + 2) (ns : List Bytes) :
    within k (placed start ns) = [] := by
  induction ns generalizing start with
  | nil => rfl
  | cons n ns ih =>
    rw [placed, within, List.filter_cons_of_neg (by simp only [decide_eq_true_eq]; omega)]
    exact ih (by omega)

/-- Nor does anything behind a set that the cut falls into. -/
theorem within_placed_cons_eq_nil {k start : ℕ} {n : Bytes} (h : k < start + 2 + n.length)
    (ns : List Bytes) : within k (placed start (n :: ns)) = [] := by
  rw [placed, within, List.filter_cons_of_neg (by simpa using h)]
  exact within_placed_eq_nil (by omega) ns

/-- All sets lie in front of a cut behind them. -/
theorem within_placed_of_le {k start : ℕ} {ns : List Bytes}
    (h : start + (sets16 ns).length ≤ k) : within k (placed start ns) = ns := by
  induction ns generalizing start with
  | nil => rfl
  | cons n ns ih =>
    rw [sets16_cons] at h
    simp only [List.length_cons, List.length_append] at h
    rw [within_placed_cons (by omega), ih (by omega)]

/-- **One counted run on a cut**: the sets that lie wholly in front of the cut are read, and the
loop goes on behind them only where all of them do. -/
theorem recordSets_take {ns : List Bytes} (hns : ∀ n ∈ ns, n.length < 65536) (rest : Bytes)
    (start j : ℕ) :
    recordSets ns.length ((sets16 ns ++ rest).take j) =
      (within (start + j) (placed start ns),
        if (sets16 ns).length ≤ j then some (rest.take (j - (sets16 ns).length)) else none) := by
  induction ns generalizing start j with
  | nil => simp [recordSets, placed, within, sets16]
  | cons n ns ih =>
    obtain ⟨hn, hns⟩ := List.forall_mem_cons.mp hns
    rw [sets16_cons, List.length_cons]
    simp only [List.cons_append, List.append_assoc]
    rcases j with _ | _ | j
    · rw [Nat.add_zero, within_placed_eq_nil (by omega), if_neg (by simp)]
      rfl
    · rw [within_placed_eq_nil (by omega), if_neg (by simp)]
      rfl
    · rw [List.take_succ_cons, List.take_succ_cons, recordSets_of_length hn]
      by_cases hcut : j < n.length
      · -- the cut falls into this set
        rw [within_placed_cons_eq_nil (by omega), if_pos (by rw [List.length_take]; omega),
          if_neg (by simp only [List.length_cons, List.length_append]; omega)]
      · have htake : (n ++ (sets16 ns ++ rest)).take j =
            n ++ (sets16 ns ++ rest).take (j - n.length) := by
          rw [List.take_append, List.take_of_length_le (by omega)]
        have hstop : start + (j + 1 + 1) = start + 2 + n.length + (j - n.length) := by omega
        rw [htake, if_neg (by simp), List.take_left, List.drop_left,
          ih hns (start + 2 + n.length), hstop, within_placed_cons (by omega)]
        have hlen : (sets16 ns).length ≤ j - n.length ↔
            (n ++ sets16 ns).length + 1 + 1 ≤ j + 1 + 1 := by
          rw [List.length_append]
          omega
        have hrest : j - n.length - (sets16 ns).length =
            j + 1 + 1 - ((n ++ sets16 ns).length + 1 + 1) := by
          rw [List.length_append]
          omega
        exact congrArg _ (if_congr hlen (by rw [hrest]; rfl) rfl)

/-! ## The record as a whole -/

namespace AvcRecord

variable (r : AvcRecord)

/-- The count byte tells the number of SPS, whatever the bits above it. -/
theorem count : (UInt8.ofNat (32 * r.reserved + r.sps.length) &&& 0x1f).toNat = r.sps.length := by
  have hsps := r.length_sps
  have hreserved := r.reserved.isLt
  rw [UInt8.toNat_and, UInt8.toNat_ofNat']
  show (32 * r.reserved + r.sps.length) % 256 &&& (2 ^ 5 - 1) = _
  rw [Nat.and_two_pow_sub_one_eq_mod]
  omega

/-- What the encoder writes is a record. -/
theorem record : Record r.bytes r.sps r.pps where
  bytes := ⟨_, _, _, _, _, _, rfl, r.count⟩
  length_pps := Nat.lt_succ_of_le r.length_pps
  length_set := r.length_set

/-- The length of a record, part by part. -/
theorem length_bytes :
    r.bytes.length = 7 + (sets16 r.sps).length + (sets16 r.pps).length + r.extension.length := by
  simp only [bytes, List.length_cons, List.length_append]
  omega

/-- The sets of a record that end before `k`: first the SPS, then the PPS behind their count. -/
theorem within_placed (k : ℕ) : within k r.placed =
    within k (AvccRecord.placed 6 r.sps) ++
      within k (AvccRecord.placed (7 + (sets16 r.sps).length) r.pps) :=
  within_append k _ _

/-- The whole record carries every set. -/
theorem within_of_le {k : ℕ} (h : r.bytes.length ≤ k) : within k r.placed = r.sps ++ r.pps := by
  have hlen := r.length_bytes
  rw [r.within_placed, within_placed_of_le (by omega), within_placed_of_le (by omega)]

/-- The first seven bytes carry no set. -/
theorem within_eq_nil {k : ℕ} (h : (r.bytes.take k).length ≤ 7) : within k r.placed = [] := by
  rw [List.length_take] at h
  by_cases hk : k ≤ 7
  · rw [r.within_placed, within_placed_eq_nil (by omega), within_placed_eq_nil (by omega)]
    rfl
  · have hnone : r.sps ++ r.pps = [] := by
      by_contra hne
      have hlt := r.record.lt_length hne
      omega
    rw [r.within_of_le (by omega), hnone]

/-- Where all SPS are read, the count of the PPS and what is left of them follow. -/
theorem take_eq {k : ℕ} (h : 6 ≤ k) : r.bytes.take k =
    1 :: r.profile :: r.compat :: r.level :: r.lengthSize ::
      UInt8.ofNat (32 * r.reserved + r.sps.length) ::
      (sets16 r.sps ++ UInt8.ofNat r.pps.length :: (sets16 r.pps ++ r.extension)).take (k - 6) := by
  obtain ⟨j, rfl⟩ := Nat.exists_eq_add_of_le h
  rw [Nat.add_comm 6 j, Nat.add_sub_cancel]
  rfl

/-- The number of PPS fits its byte. -/
theorem toNat_length_pps : (UInt8.ofNat r.pps.length).toNat = r.pps.length := by
  rw [UInt8.toNat_ofNat']
  exact Nat.mod_eq_of_lt r.record.length_pps

/-- A cut record is converted up to the cut. -/
theorem converts_take (k : ℕ) :
    avccRecordToAnnexb (r.bytes.take k) = annexB (within k r.placed) := by
  by_cases hshort : (r.bytes.take k).length ≤ 7
  · rw [r.within_eq_nil hshort, avccRecordToAnnexb, if_pos (Or.inl hshort)]
    rfl
  · have hk : 7 < k := by
      rw [List.length_take] at hshort
      omega
    obtain ⟨hsps, hpps⟩ := List.forall_mem_append.mp r.length_set
    have hone : ¬ ((r.bytes.take k).length ≤ 7 ∨ (r.bytes.take k).headD 0 ≠ 1) := by
      rw [r.take_eq (by omega)] at hshort ⊢
      exact not_or.mpr ⟨hshort, not_not.mpr rfl⟩
    rw [avccRecordToAnnexb, if_neg hone, r.take_eq (by omega), r.within_placed, annexB_append]
    simp only [List.getD_cons_succ, List.getD_cons_zero, List.drop_succ_cons, List.drop_zero,
      r.count, recordSets_take hsps _ 6]
    rw [Nat.add_sub_cancel' (by omega)]
    by_cases hall : (sets16 r.sps).length ≤ k - 6
    · rw [if_pos hall]
      obtain ⟨j, hj⟩ := Nat.exists_eq_add_of_le hall
      rw [hj, Nat.add_sub_cancel_left]
      cases j with
      | zero =>
        -- the cut falls in front of the count of the PPS
        rw [within_placed_eq_nil (by omega) r.pps]
        simp
      | succ j =>
        rw [List.take_succ_cons]
        simp only [r.toNat_length_pps, recordSets_take hpps _ (7 + (sets16 r.sps).length)]
        rw [show 7 + (sets16 r.sps).length + j = k by omega]
    · rw [if_neg hall, within_placed_eq_nil (by omega) r.pps]
      simp

end AvcRecord

/-- **Cut at any place, a record yields the sets that lie wholly in front of the cut**, the whole
record every set, and no input at all indexes out of range. -/
theorem converts_cut_record :
    (∀ (r : AvcRecord) (k : ℕ),
      avccRecordToAnnexb? (r.bytes.take k) = some (annexB (within k r.placed))) ∧
    (∀ r : AvcRecord, avccRecordToAnnexb? r.bytes = some (annexB (r.sps ++ r.pps))) ∧
    ∀ p : Bytes, (avccRecordToAnnexb? p).isSome = true := by
  refine ⟨fun r k => ?_, fun r => ?_, fun p => ?_⟩
  · rw [avccRecordToAnnexb?_eq, r.converts_take]
  · have h := r.converts_take r.bytes.length
    rw [List.take_length, r.within_of_le (Nat.le_refl _)] at h
    rw [avccRecordToAnnexb?_eq, h]
  · rw [avccRecordToAnnexb?_eq]
    rfl

end RgspCast.AvccRecord
