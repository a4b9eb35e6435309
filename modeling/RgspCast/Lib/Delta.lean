import Mathlib.Logic.Function.Basic
import Mathlib.Data.List.Nodup

/-!
# Delta encoding of a function

A sender that is given absolute states, and a receiver that is given edges: for each state the
sender lists the channels whose value differs from the state before. `diff` is that list and
`patch` is what the receiver does with it. `patch_diff` is the round trip, and `valuesAt_diff` says
that one diff carries a channel at most once, and only where its value is new.
-/

namespace Delta

variable {κ ν : Type*}

/-- The channels of `cs` whose value differs between `f` and `g`, with their value in `g`. -/
def diff [DecidableEq ν] (cs : List κ) (f g : κ → ν) : List (κ × ν) :=
  cs.filterMap fun c => if g c ≠ f c then some (c, g c) else none

/-- Write the changes into a function, in order. -/
def patch [DecidableEq κ] (f : κ → ν) (es : List (κ × ν)) : κ → ν :=
  es.foldl (fun f e => Function.update f e.1 e.2) f

/-- The values a list of changes carries for one channel, in order. -/
def valuesAt [DecidableEq κ] (c : κ) (es : List (κ × ν)) : List ν :=
  es.filterMap fun e => if e.1 = c then some e.2 else none

/-- A difference is a channel whose value has changed, with its new value. -/
theorem mem_diff [DecidableEq ν] {cs : List κ} {f g : κ → ν} {e : κ × ν} :
    e ∈ diff cs f g ↔ e.1 ∈ cs ∧ g e.1 ≠ f e.1 ∧ e.2 = g e.1 := by
  obtain ⟨c, v⟩ := e
  simp only [diff, List.mem_filterMap, Option.ite_none_right_eq_some, Option.some.injEq,
    Prod.mk.injEq]
  constructor
  · rintro ⟨a, ha, hne, rfl, rfl⟩
    exact ⟨ha, hne, rfl⟩
  · rintro ⟨hc, hne, rfl⟩
    exact ⟨c, hc, hne, rfl, rfl⟩

/-- The changed channels come in the order of the channels asked about, each once. -/
theorem nodup_map_fst_diff [DecidableEq ν] {cs : List κ} (hcs : cs.Nodup) (f g : κ → ν) :
    ((diff cs f g).map Prod.fst).Nodup := by
  have hmap : (diff cs f g).map Prod.fst = cs.filter fun c => g c ≠ f c := by
    rw [diff, List.map_filterMap, ← List.filterMap_eq_filter]
    apply List.filterMap_congr
    intro c _
    by_cases h : g c = f c <;> simp [h, Option.guard]
  rw [hmap]
  exact hcs.filter _

/-- A channel that is not listed keeps its value. -/
theorem patch_of_notMem [DecidableEq κ] {f : κ → ν} {es : List (κ × ν)} {c : κ}
    (h : c ∉ es.map Prod.fst) :
    patch f es c = f c := by
  induction es generalizing f with
  | nil => rfl
  | cons e es ih =>
    rw [List.map_cons, List.mem_cons, not_or] at h
    exact (ih (f := Function.update f e.1 e.2) h.2).trans (Function.update_of_ne h.1 _ _)

/-- A channel that is listed once gets the value listed. -/
theorem patch_of_mem [DecidableEq κ] {f : κ → ν} {es : List (κ × ν)} {e : κ × ν}
    (hnodup : (es.map Prod.fst).Nodup) (h : e ∈ es) : patch f es e.1 = e.2 := by
  induction es generalizing f with
  | nil => cases h
  | cons a es ih =>
    rw [List.map_cons, List.nodup_cons] at hnodup
    rcases List.mem_cons.mp h with rfl | h
    · exact (patch_of_notMem hnodup.1).trans (Function.update_self _ _ _)
    · exact ih hnodup.2 h

/-- **Round trip.** The receiver that holds `f` and is sent the changes from `f` to `g` holds `g`,
provided the two agree on the channels nobody asked about. -/
theorem patch_diff [DecidableEq κ] [DecidableEq ν] {cs : List κ} (hcs : cs.Nodup) {f g : κ → ν}
    (h : ∀ c, c ∉ cs → g c = f c) :
    patch f (diff cs f g) = g := by
  funext c
  by_cases hc : c ∈ cs ∧ g c ≠ f c
  · exact patch_of_mem (e := (c, g c)) (nodup_map_fst_diff hcs f g)
      (mem_diff.mpr ⟨hc.1, hc.2, rfl⟩)
  · have heq : g c = f c := by
      by_cases hmem : c ∈ cs
      · exact not_not.mp fun hne => hc ⟨hmem, hne⟩
      · exact h c hmem
    rw [heq]
    apply patch_of_notMem
    rintro hmem
    obtain ⟨e, he, rfl⟩ := List.mem_map.mp hmem
    exact (mem_diff.mp he).2.1 heq

/-- The values that a channel gets, in order. -/
theorem valuesAt_append [DecidableEq κ] (c : κ) (es es' : List (κ × ν)) :
    valuesAt c (es ++ es') = valuesAt c es ++ valuesAt c es' :=
  List.filterMap_append

/-- One diff carries a channel at most once, and only where its value is new. -/
theorem valuesAt_diff [DecidableEq κ] [DecidableEq ν] {cs : List κ} (hcs : cs.Nodup) {c : κ}
    (hc : c ∈ cs) (f g : κ → ν) :
    valuesAt c (diff cs f g) = if g c ≠ f c then [g c] else [] := by
  have hnone : ∀ as : List κ, c ∉ as → valuesAt c (diff as f g) = [] := by
    intro as has
    rw [valuesAt, List.filterMap_eq_nil_iff]
    intro e he
    apply if_neg
    rintro rfl
    exact has (mem_diff.mp he).1
  obtain ⟨as, bs, rfl⟩ := List.append_of_mem hc
  have has : c ∉ as := fun h => (List.disjoint_of_nodup_append hcs) h List.mem_cons_self
  have hbs : c ∉ bs := (List.nodup_cons.mp (List.nodup_append.mp hcs).2.1).1
  have hsplit : diff (as ++ c :: bs) f g =
      diff as f g ++ ((if g c ≠ f c then [(c, g c)] else []) ++ diff bs f g) := by
    simp only [diff, List.filterMap_append, List.filterMap_cons]
    split <;> simp_all
  rw [hsplit, valuesAt_append, valuesAt_append, hnone as has, hnone bs hbs, List.append_nil,
    List.nil_append]
  split <;> simp [valuesAt]

end Delta
