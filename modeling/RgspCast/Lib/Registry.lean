import Mathlib.Data.List.Nodup

/-!
# Values filed under their own key

A map whose values know their key, as the list of the values. That no two values share a key is a
field of `Registry`, so each operation is specified by what it does to `get?`.
-/

variable {κ α : Type*}

/-- A list of values with pairwise different keys. -/
structure Registry (key : α → κ) where
  entries : List α
  nodup : (entries.map key).Nodup

namespace Registry

variable {key : α → κ}

/-- Nothing is filed. -/
def empty (key : α → κ) : Registry key := ⟨[], List.nodup_nil⟩

/-- Keep the values that satisfy `p`. -/
def retain (r : Registry key) (p : α → Bool) : Registry key :=
  ⟨r.entries.filter p, r.nodup.sublist (List.filter_sublist.map key)⟩

variable [DecidableEq κ]

/-- The value filed under a key. -/
def get? (r : Registry key) (k : κ) : Option α := r.entries.find? fun a => key a = k

/-- Drop the value filed under a key. -/
def remove (r : Registry key) (k : κ) : Registry key := r.retain fun a => key a ≠ k

/-- File a value, in the place of the one that has its key. -/
def insert (r : Registry key) (a : α) : Registry key where
  entries := a :: (r.remove (key a)).entries
  nodup := by
    rw [List.map_cons, List.nodup_cons]
    refine ⟨fun h => ?_, (r.remove (key a)).nodup⟩
    obtain ⟨b, hb, hkey⟩ := List.mem_map.mp h
    exact absurd hkey (by simpa using (List.mem_filter.mp hb).2)

/-- Change the value filed under a key, which it keeps. -/
def modify (r : Registry key) (k : κ) (f : α → α) (hf : ∀ a, key (f a) = key a) : Registry key where
  entries := r.entries.map fun a => if key a = k then f a else a
  nodup := by
    have hkeys : (r.entries.map fun a => if key a = k then f a else a).map key =
        r.entries.map key := by
      rw [List.map_map]
      apply List.map_congr_left
      intro a _
      by_cases h : key a = k
      · simp [h, hf]
      · simp [h]
    rw [hkeys]
    exact r.nodup

omit [DecidableEq κ] in

/-- There is one entry for a key. -/
theorem eq_of_key_eq {r : Registry key} {a b : α} (ha : a ∈ r.entries) (hb : b ∈ r.entries)
    (h : key a = key b) : a = b :=
  List.inj_on_of_nodup_map r.nodup ha hb h

/-- The entry of a key. -/
theorem get?_eq_some_iff {r : Registry key} {k : κ} {a : α} :
    r.get? k = some a ↔ a ∈ r.entries ∧ key a = k := by
  constructor
  · intro h
    exact ⟨List.mem_of_find?_eq_some h, by simpa using List.find?_some h⟩
  · rintro ⟨ha, rfl⟩
    cases hfind : r.get? (key a) with
    | none =>
      have hne := List.find?_eq_none.mp hfind a ha
      simp at hne
    | some b =>
      have hb : key b = key a := by simpa using List.find?_some hfind
      rw [eq_of_key_eq (List.mem_of_find?_eq_some hfind) ha hb]

@[simp] theorem get?_empty (k : κ) : (empty key).get? k = none := rfl

/-- What is kept is kept as it is. -/
theorem get?_retain (r : Registry key) (p : α → Bool) (k : κ) :
    (r.retain p).get? k = (r.get? k).filter p := by
  ext a
  rw [get?_eq_some_iff, Option.filter_eq_some_iff, get?_eq_some_iff, retain, List.mem_filter]
  exact ⟨fun h => ⟨⟨h.1.1, h.2⟩, h.1.2⟩, fun h => ⟨⟨h.1.1, h.2⟩, h.1.2⟩⟩

/-- Removing a key leaves the others. -/
theorem get?_remove (r : Registry key) (j k : κ) :
    (r.remove j).get? k = if j = k then none else r.get? k := by
  rw [remove, get?_retain]
  cases hget : r.get? k with
  | none => simp
  | some a =>
    have ha := (get?_eq_some_iff.mp hget).2
    by_cases h : j = k <;> simp [h, ha, Option.filter, eq_comm]

/-- Inserting replaces the entry of the key. -/
theorem get?_insert (r : Registry key) (a : α) (k : κ) :
    (r.insert a).get? k = if key a = k then some a else r.get? k := by
  have hcons : (r.insert a).get? k =
      if key a = k then some a else (r.remove (key a)).get? k := by
    rw [get?, insert, List.find?_cons]
    by_cases h : key a = k <;> simp [h, get?]
  rw [hcons, get?_remove]
  split <;> rfl

/-- Changing an entry leaves the others. -/
theorem get?_modify (r : Registry key) (j : κ) (f : α → α) (hf : ∀ a, key (f a) = key a) (k : κ) :
    (r.modify j f hf).get? k = if j = k then (r.get? k).map f else r.get? k := by
  ext a
  rw [get?_eq_some_iff, modify, List.mem_map]
  by_cases hjk : j = k
  · subst hjk
    rw [if_pos rfl, Option.map_eq_some_iff]
    constructor
    · rintro ⟨⟨b, hb, rfl⟩, hkey⟩
      -- an entry under another key is not touched by the update
      have hbj : key b = j := by
        by_cases h : key b = j
        · exact h
        · rwa [if_neg h] at hkey
      exact ⟨b, get?_eq_some_iff.mpr ⟨hb, hbj⟩, (if_pos hbj).symm⟩
    · rintro ⟨b, hget, rfl⟩
      obtain ⟨hb, hbj⟩ := get?_eq_some_iff.mp hget
      exact ⟨⟨b, hb, if_pos hbj⟩, (hf b).trans hbj⟩
  · rw [if_neg hjk, get?_eq_some_iff]
    constructor
    · rintro ⟨⟨b, hb, rfl⟩, hkey⟩
      by_cases h : key b = j
      · rw [if_pos h, hf] at hkey
        exact absurd (h.symm.trans hkey) hjk
      · rw [if_neg h] at hkey ⊢
        exact ⟨hb, hkey⟩
    · rintro ⟨ha, hkey⟩
      exact ⟨⟨a, ha, if_neg fun h => hjk (h.symm.trans hkey)⟩, hkey⟩

end Registry
