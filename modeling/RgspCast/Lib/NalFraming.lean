import Mathlib.Algebra.GroupWithZero.Nat
import Mathlib.Data.List.Infix

/-!
# The two framings of an H.264 NAL list

A list of NAL units travels either with a 4-byte big-endian length before each unit (`avcc`) or
with a start code before each unit (`annexB`). The length framing is prefix-free, so a cut that
leaves a framed list on the left leaves one on the right (`exists_of_append_eq_avcc`). The start
code framing is readable back where no unit contains a start code or ends in a zero byte
(`WellFormed`).
-/

namespace Nal

/-- A byte string. -/
abbrev Bytes := List UInt8

/-- The 4-byte start code. -/
def startCode : Bytes := [0, 0, 0, 1]

/-! ## Big-endian lengths -/

/-- The number a 4-byte big-endian field holds. -/
def ofBe32 (b0 b1 b2 b3 : UInt8) : ℕ :=
  ((b0.toNat * 256 + b1.toNat) * 256 + b2.toNat) * 256 + b3.toNat

/-- The 4-byte big-endian field of a number. -/
def be32 (n : ℕ) : Bytes :=
  [UInt8.ofNat (n / 16777216), UInt8.ofNat (n / 65536), UInt8.ofNat (n / 256), UInt8.ofNat n]

/-- A length field has four bytes. -/
@[simp] theorem length_be32 (n : ℕ) : (be32 n).length = 4 := rfl

/-- The length field of one byte is a start code. -/
@[simp] theorem be32_one : be32 1 = startCode := rfl

/-- Four bytes are the field of the number they are. -/
theorem be32_ofBe32 (b0 b1 b2 b3 : UInt8) : be32 (ofBe32 b0 b1 b2 b3) = [b0, b1, b2, b3] := by
  have h0 := b0.toNat_lt
  have h1 := b1.toNat_lt
  have h2 := b2.toNat_lt
  have h3 := b3.toNat_lt
  simp only [be32, ofBe32, List.cons.injEq, ← UInt8.toNat_inj, UInt8.toNat_ofNat', and_true]
  omega

/-- A number of 32 bits is read back. -/
theorem ofBe32_of_be32 {n : ℕ} (hn : n < 2 ^ 32) :
    ofBe32 (UInt8.ofNat (n / 16777216)) (UInt8.ofNat (n / 65536)) (UInt8.ofNat (n / 256))
      (UInt8.ofNat n) = n := by
  simp only [ofBe32, UInt8.toNat_ofNat']
  omega

/-- Four bytes are a number of 32 bits. -/
theorem ofBe32_lt (b0 b1 b2 b3 : UInt8) : ofBe32 b0 b1 b2 b3 < 2 ^ 32 := by
  have h0 := b0.toNat_lt
  have h1 := b1.toNat_lt
  have h2 := b2.toNat_lt
  have h3 := b3.toNat_lt
  simp only [ofBe32]
  omega

/-- The field determines its number. -/
theorem be32_inj {m n : ℕ} (hm : m < 2 ^ 32) (hn : n < 2 ^ 32) (h : be32 m = be32 n) : m = n := by
  simp only [be32, List.cons.injEq] at h
  rw [← ofBe32_of_be32 hm, ← ofBe32_of_be32 hn, h.1, h.2.1, h.2.2.1, h.2.2.2.1]

/-! ## The framings -/

/-- Each unit behind its 4-byte length. -/
def avcc (ns : List Bytes) : Bytes := ns.flatMap fun n => be32 n.length ++ n

/-- Each unit behind a start code. -/
def annexB (ns : List Bytes) : Bytes := ns.flatMap fun n => startCode ++ n

@[simp] theorem avcc_nil : avcc [] = [] := rfl

/-- A unit behind its length. -/
theorem avcc_cons (n : Bytes) (ns : List Bytes) :
    avcc (n :: ns) = be32 n.length ++ (n ++ avcc ns) := by
  simp [avcc]

@[simp] theorem avcc_append (as bs : List Bytes) : avcc (as ++ bs) = avcc as ++ avcc bs := by
  simp [avcc]

@[simp] theorem annexB_nil : annexB [] = [] := rfl

/-- A unit behind its start code. -/
theorem annexB_cons (n : Bytes) (ns : List Bytes) :
    annexB (n :: ns) = startCode ++ (n ++ annexB ns) := by
  simp [annexB]

@[simp] theorem annexB_append (as bs : List Bytes) :
    annexB (as ++ bs) = annexB as ++ annexB bs := by
  simp [annexB]

/-- Both framings spend four bytes on each unit. -/
theorem length_annexB (ns : List Bytes) : (annexB ns).length = (avcc ns).length := by
  induction ns with
  | nil => rfl
  | cons n ns ih => simp only [annexB_cons, avcc_cons, List.length_append, ih, startCode,
      List.length_cons, List.length_nil, length_be32]

/-- A unit is shorter than the list it is framed in. -/
theorem length_lt_of_mem {ns : List Bytes} {n : Bytes} (h : n ∈ ns) :
    n.length < (avcc ns).length := by
  obtain ⟨as, bs, rfl⟩ := List.append_of_mem h
  simp only [avcc_append, avcc_cons, List.length_append, length_be32]
  omega

/-- Only no units give no bytes. -/
theorem avcc_eq_nil_iff {ns : List Bytes} : avcc ns = [] ↔ ns = [] := by
  cases ns with
  | nil => simp
  | cons n ns => simp [avcc_cons, be32]

/-- The two framings agree exactly on lists of one-byte units, whose length field is a start
code. -/
theorem avcc_eq_annexB_iff_of_units {ns : List Bytes} (hns : ∀ n ∈ ns, n.length < 2 ^ 32) :
    avcc ns = annexB ns ↔ ∀ n ∈ ns, n.length = 1 := by
  induction ns with
  | nil => simp
  | cons n ns ih =>
    obtain ⟨hn, hns⟩ := List.forall_mem_cons.mp hns
    rw [avcc_cons, annexB_cons, List.forall_mem_cons, ← ih hns]
    constructor
    · intro h
      obtain ⟨hhead, hrest⟩ := List.append_inj h rfl
      exact ⟨be32_inj hn (by decide) hhead, List.append_cancel_left hrest⟩
    · rintro ⟨hone, hrest⟩
      rw [hone, be32_one, hrest]

/-- The two formats are the same for units of one byte, and for those only. -/
theorem avcc_eq_annexB_iff {ns : List Bytes} (hlen : (avcc ns).length < 2 ^ 32) :
    avcc ns = annexB ns ↔ ∀ n ∈ ns, n.length = 1 :=
  avcc_eq_annexB_iff_of_units fun _ hn => Nat.lt_trans (length_lt_of_mem hn) hlen

/-- A framed list starts with a start code where its first unit is one byte long. -/
theorem startCode_prefix_avcc_cons_iff {n : Bytes} {ns : List Bytes} (hn : n.length < 2 ^ 32) :
    startCode <+: avcc (n :: ns) ↔ n.length = 1 := by
  rw [avcc_cons]
  constructor
  · rintro ⟨rest, h⟩
    have hhead : be32 1 = be32 n.length := (List.append_inj h rfl).1
    exact (be32_inj (by decide) hn hhead).symm
  · intro hone
    rw [hone, be32_one]
    exact List.prefix_append _ _

/-- The length framing is prefix-free: where a framed list is cut behind a framed list, the rest
is framed too. -/
theorem exists_of_append_eq_avcc {as ns : List Bytes} {r : Bytes} (h : avcc as ++ r = avcc ns)
    (hlen : (avcc ns).length < 2 ^ 32) : ∃ bs, ns = as ++ bs ∧ r = avcc bs := by
  induction as generalizing ns with
  | nil => exact ⟨ns, rfl, h⟩
  | cons a as ih =>
    cases ns with
    | nil => simp [avcc_cons, be32] at h
    | cons n ns =>
      have hn : n.length < 2 ^ 32 := Nat.lt_trans (length_lt_of_mem List.mem_cons_self) hlen
      have ha : a.length < 2 ^ 32 := by
        have := congrArg List.length h
        simp only [avcc_cons, List.length_append] at this hlen
        omega
      simp only [avcc_cons, List.append_assoc] at h
      -- equal length prefixes, so the first units are as long and then equal
      obtain ⟨hhead, hrest⟩ := List.append_inj h rfl
      obtain ⟨rfl, htail⟩ := List.append_inj hrest (be32_inj ha hn hhead)
      have hns : (avcc ns).length < 2 ^ 32 := by
        simp only [avcc_cons, List.length_append] at hlen
        omega
      obtain ⟨bs, rfl, hbs⟩ := ih htail hns
      exact ⟨bs, rfl, hbs⟩

/-- The lengths determine the units. -/
theorem avcc_inj {as bs : List Bytes} (h : avcc as = avcc bs) (hlen : (avcc bs).length < 2 ^ 32) :
    as = bs := by
  obtain ⟨cs, hcs, hnil⟩ := exists_of_append_eq_avcc (r := []) (by simpa using h) hlen
  rw [hcs, avcc_eq_nil_iff.mp hnil.symm, List.append_nil]

/-! ## Start codes of either length -/

/-- The two start codes of Annex-B. -/
inductive Code where
  | three
  | four
  deriving DecidableEq, Repr

def Code.bytes : Code → Bytes
  | .three => [0, 0, 1]
  | .four => startCode

/-- Each unit behind a start code of its own length. -/
def mixed (ns : List (Code × Bytes)) : Bytes := ns.flatMap fun n => n.1.bytes ++ n.2

@[simp] theorem mixed_nil : mixed [] = [] := rfl

/-- A unit behind a start code of either length. -/
theorem mixed_cons (n : Code × Bytes) (ns : List (Code × Bytes)) :
    mixed (n :: ns) = n.1.bytes ++ (n.2 ++ mixed ns) := by
  simp [mixed]

/-- The framing by 4-byte start codes is one of these. -/
theorem annexB_eq_mixed (ns : List Bytes) : annexB ns = mixed (ns.map (Code.four, ·)) := by
  simp [annexB, mixed, Code.bytes, List.flatMap_map]

/-! ## Units that a start-code scan reads back -/

/-- The unit type: the low five bits of the header byte. -/
def typeOf (n : Bytes) : UInt8 := n.headD 0 &&& 0x1f

/-- A unit that a start-code scan neither splits nor runs past: not empty, free of `00 00 00` and
`00 00 01`, and not ending in `00`. -/
structure WellFormed (n : Bytes) : Prop where
  ne_nil : n ≠ []
  no_zeros : ¬ [0, 0, 0] <:+: n
  no_start : ¬ [0, 0, 1] <:+: n
  last_ne : n.getLast? ≠ some 0

instance : DecidablePred WellFormed := fun n =>
  decidable_of_iff (n ≠ [] ∧ ¬ [0, 0, 0] <:+: n ∧ ¬ [0, 0, 1] <:+: n ∧ n.getLast? ≠ some 0)
    ⟨fun ⟨hne, h000, h001, hlast⟩ => ⟨hne, h000, h001, hlast⟩,
      fun h => ⟨h.ne_nil, h.no_zeros, h.no_start, h.last_ne⟩⟩

end Nal
