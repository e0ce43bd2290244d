import Mathlib.Data.List.Basic

/-!
# Spans of a List

The elements of a list between two places, and what a walk takes from place to place.

## Main results

- `span_append`: from one place over a second to a third.
- `span_append_drop`: from one place over a second to the end.
- `span_cons`: the element at a place, and those behind it.
-/

namespace MqStudio.Lib.Spans

universe u

variable {α : Type u} {xs : List α} {i j k : Nat}

/-- The elements from place `i` on, up to place `j`. -/
def span (xs : List α) (i j : Nat) : List α := (xs.drop i).take (j - i)

@[simp] theorem span_self (xs : List α) (i : Nat) : span xs i i = [] := by
  simp [span]

theorem drop_of_le (xs : List α) (hij : i ≤ j) : xs.drop j = (xs.drop i).drop (j - i) := by
  rw [List.drop_drop, Nat.add_sub_cancel' hij]

/-- **From one place over a second to a third.** -/
theorem span_append (xs : List α) (hij : i ≤ j) (hjk : j ≤ k) :
    span xs i j ++ span xs j k = span xs i k := by
  have hsum : k - i = (j - i) + (k - j) := by omega
  rw [span, span, span, hsum, List.take_add, drop_of_le xs hij]

/-- From one place over a second to the end. -/
theorem span_append_drop (xs : List α) (hij : i ≤ j) : span xs i j ++ xs.drop j = xs.drop i := by
  rw [span, drop_of_le xs hij, List.take_append_drop]

theorem span_of_length_le (h : xs.length ≤ j) : span xs i j = xs.drop i := by
  rw [span, List.take_of_length_le]
  rw [List.length_drop]
  omega

theorem span_one (h : i < xs.length) : span xs i (i + 1) = [xs[i]] := by
  rw [span, List.drop_eq_getElem_cons h, Nat.add_sub_cancel_left]
  rfl

theorem span_cons (hij : i < j) (hi : i < xs.length) :
    span xs i j = xs[i] :: span xs (i + 1) j := by
  rw [← span_append xs (Nat.le_succ i) hij, span_one hi]
  rfl

end MqStudio.Lib.Spans
