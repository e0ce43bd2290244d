import Mathlib.Data.List.Induction
import MqStudio.Lib.TreeMap

/-!
# Grouping in Order of First Appearance

Pairs of a key and a value are gathered under their keys, as they come: a map holds the values of
each key in order, and a list holds the keys in the order in which they first appeared.
-/

namespace MqStudio.Lib.Grouping

open MqStudio.Lib.TreeMap

universe u v

variable {κ : Type u} {α : Type v}

/-! ## The values of a key -/

section Values

variable [DecidableEq κ]

/-- The values of a key, in the order of the pairs. -/
def valuesOf (pairs : List (κ × α)) (key : κ) : List α :=
  (pairs.filter fun pair => pair.1 = key).map Prod.snd

theorem valuesOf_concat (pairs : List (κ × α)) (pair : κ × α) (key : κ) :
    valuesOf (pairs ++ [pair]) key =
      if pair.1 = key then valuesOf pairs key ++ [pair.2] else valuesOf pairs key := by
  unfold valuesOf
  by_cases hkey : pair.1 = key <;> simp [hkey]

theorem valuesOf_ne_nil_iff {pairs : List (κ × α)} {key : κ} :
    valuesOf pairs key ≠ [] ↔ ∃ value, (key, value) ∈ pairs := by
  unfold valuesOf
  simp

end Values

/-! ## Gathering -/

variable [Ord κ] [Std.TransOrd κ]

/-- What is gathered: the values of each key, and the keys in order. -/
abbrev Groups (κ : Type u) (α : Type v) [Ord κ] := Map κ (List α) × List κ

/-- One pair is gathered. -/
def add (groups : Groups κ α) (pair : κ × α) : Groups κ α :=
  (groups.1.insert pair.1 ((groups.1[pair.1]?).getD [] ++ [pair.2]),
    if (groups.1[pair.1]?).isSome then groups.2 else groups.2 ++ [pair.1])

/-- The pairs are gathered in order. -/
def group (pairs : List (κ × α)) : Groups κ α := pairs.foldl add (∅, [])

theorem group_concat (pairs : List (κ × α)) (pair : κ × α) :
    group (pairs ++ [pair]) = add (group pairs) pair := by
  simp [group]

section Lookup

variable [DecidableEq κ] [Std.LawfulEqOrd κ]

/-- **Groups**: a key has its values, and a key without any is not there. -/
theorem lookup_group (pairs : List (κ × α)) (key : κ) :
    (group pairs).1[key]? = if valuesOf pairs key = [] then none else some (valuesOf pairs key) := by
  induction pairs using List.reverseRecOn with
  | nil => simp [group, valuesOf]
  | append_singleton pairs pair ih =>
    rw [group_concat, valuesOf_concat]
    show ((group pairs).1.insert pair.1 _)[key]? = _
    rw [getElem?_insert_ite]
    by_cases hkey : pair.1 = key
    · subst hkey
      rw [if_pos rfl, if_pos rfl, ih,
        if_neg (List.append_ne_nil_of_right_ne_nil _ (List.cons_ne_nil _ _))]
      by_cases hnone : valuesOf pairs pair.1 = []
      · simp [hnone]
      · simp [hnone]
    · rw [if_neg hkey, if_neg hkey, ih]

theorem isSome_lookup_group {pairs : List (κ × α)} {key : κ} :
    ((group pairs).1[key]?).isSome ↔ ∃ value, (key, value) ∈ pairs := by
  rw [lookup_group, ← valuesOf_ne_nil_iff]
  split
  · rename_i h
    simp [h]
  · rename_i h
    simp [h]

/-- **Order**: the keys are those of the pairs, each once. -/
theorem order_group (pairs : List (κ × α)) :
    (group pairs).2.Nodup ∧ ∀ key, key ∈ (group pairs).2 ↔ ∃ value, (key, value) ∈ pairs := by
  induction pairs using List.reverseRecOn with
  | nil => simp [group]
  | append_singleton pairs pair ih =>
    obtain ⟨hnodup, hmem⟩ := ih
    have horder : (group (pairs ++ [pair])).2 =
        if ((group pairs).1[pair.1]?).isSome then (group pairs).2
        else (group pairs).2 ++ [pair.1] := by
      rw [group_concat]
      rfl
    have hkeys : ∀ key, (∃ value, (key, value) ∈ pairs ++ [pair]) ↔
        (∃ value, (key, value) ∈ pairs) ∨ key = pair.1 := by
      intro key
      constructor
      · rintro ⟨value, hvalue⟩
        rcases List.mem_append.mp hvalue with hold | hlast
        · exact .inl ⟨value, hold⟩
        · rw [List.mem_singleton] at hlast
          exact .inr (by rw [← hlast])
      · rintro (⟨value, hvalue⟩ | rfl)
        · exact ⟨value, List.mem_append_left _ hvalue⟩
        · exact ⟨pair.2, by simp⟩
    simp only [hkeys]
    by_cases hseen : ∃ value, (pair.1, value) ∈ pairs
    · rw [horder, if_pos (isSome_lookup_group.mpr hseen)]
      refine ⟨hnodup, fun key => (hmem key).trans ⟨.inl, ?_⟩⟩
      rintro (hold | rfl)
      · exact hold
      · exact hseen
    · rw [horder, if_neg fun h => hseen (isSome_lookup_group.mp h)]
      constructor
      · exact List.nodup_append.mpr ⟨hnodup, by simp, fun a ha b hb hab => hseen
          ((hmem pair.1).mp (by rw [List.mem_singleton] at hb; rwa [hab, hb] at ha))⟩
      · intro key
        rw [List.mem_append, hmem, List.mem_singleton]

end Lookup

end MqStudio.Lib.Grouping
