import Mathlib.Data.List.Sort

/-!
# Places in a Stable Sort

Sorting by falling rank leaves equals in the order they stood in. Where an element ends up is
decided by where it stood: what ranks above it comes before it, and what ranks with it and stood
before it.

## Main results

- `falling_split`: as many elements come before one as `place` counts.
- `mem_take_falling`: an element is among the first of the sorted list where its place is.
-/

namespace MqStudio.Lib.Places

universe u v

variable {α : Type u} {β : Type v} [LinearOrder β] (rank : α → β)

/-- A list by falling rank. -/
def falling (l : List α) : List α := l.insertionSort fun a b => rank b ≤ rank a

/-- How many elements come before one, of those that stood before it and after it. -/
def place (x : α) (pre post : List α) : Nat :=
  pre.countP (fun y => rank x ≤ rank y) + post.countP (fun y => rank x < rank y)

/-- No element comes behind all of them. -/
theorem place_lt_length (x : α) (pre post : List α) :
    place rank x pre post < (pre ++ x :: post).length := by
  have hpre : pre.countP (fun y => rank x ≤ rank y) ≤ pre.length := List.countP_le_length
  have hpost : post.countP (fun y => rank x < rank y) ≤ post.length := List.countP_le_length
  rw [place, List.length_append, List.length_cons]
  omega

theorem falling_perm (l : List α) : (falling rank l).Perm l := List.perm_insertionSort _ l

theorem falling_pairwise (l : List α) :
    (falling rank l).Pairwise fun a b => rank b ≤ rank a := by
  have : IsTrans α fun a b => rank b ≤ rank a := ⟨fun _ _ _ hab hbc => hbc.trans hab⟩
  have : Std.Total fun a b : α => rank b ≤ rank a := ⟨fun a b => le_total (rank b) (rank a)⟩
  exact List.pairwise_insertionSort _ l

/-- One that ranks no lower is inserted before. -/
theorem orderedInsert_before {a x : α} (s post : List α) (h : rank x ≤ rank a) :
    ∃ s', List.orderedInsert (fun a b => rank b ≤ rank a) a (s ++ x :: post) = s' ++ x :: post ∧
      s'.length = s.length + 1 := by
  induction s with
  | nil => exact ⟨[a], by simp [h], rfl⟩
  | cons b s ih =>
    obtain ⟨s', hs', hlength⟩ := ih
    by_cases hb : rank b ≤ rank a
    · exact ⟨a :: b :: s, by simp [hb], rfl⟩
    · refine ⟨b :: s', ?_, by simp [hlength]⟩
      simp [hb, hs']

/-- One that ranks lower is inserted behind. -/
theorem orderedInsert_behind {a x : α} (s post : List α) (h : rank a < rank x)
    (hs : ∀ b ∈ s, rank x ≤ rank b) :
    ∃ post', List.orderedInsert (fun a b => rank b ≤ rank a) a (s ++ x :: post) =
      s ++ x :: post' := by
  induction s with
  | nil =>
    refine ⟨List.orderedInsert (fun a b => rank b ≤ rank a) a post, ?_⟩
    simp [not_le.mpr h]
  | cons b s ih =>
    obtain ⟨post', hpost⟩ := ih fun c hc => hs c (List.mem_cons_of_mem b hc)
    have hb : ¬ rank b ≤ rank a := not_le.mpr (h.trans_le (hs b List.mem_cons_self))
    exact ⟨post', by simp [hb, hpost]⟩

/-- The front of a list by falling rank is what ranks above a given element. -/
theorem length_front {l : List α} (h : l.Pairwise fun a b => rank b ≤ rank a) (x : α) :
    (l.takeWhile fun b => ¬ rank b ≤ rank x).length = l.countP fun y => rank x < rank y := by
  induction l with
  | nil => rfl
  | cons a l ih =>
    obtain ⟨hle, hrest⟩ := List.pairwise_cons.mp h
    by_cases ha : rank a ≤ rank x
    · -- nothing behind it ranks higher
      have hnone : l.countP (fun y => rank x < rank y) = 0 := by
        apply List.countP_eq_zero.mpr
        intro b hb
        simpa using (hle b hb).trans ha
      simp [ha, hnone]
    · have hfront := ih hrest
      simpa [not_le.mp ha] using hfront

/-- **Where an element ends up.** -/
theorem falling_split (x : α) (pre post : List α) :
    ∃ s t, falling rank (pre ++ x :: post) = s ++ x :: t ∧ s.length = place rank x pre post := by
  induction pre with
  | nil =>
    -- what ranks above it is the front of the sorted rest
    refine ⟨(falling rank post).takeWhile (fun b => ¬ rank b ≤ rank x),
      (falling rank post).dropWhile (fun b => ¬ rank b ≤ rank x), ?_, ?_⟩
    · exact List.orderedInsert_eq_take_drop _ x (falling rank post)
    · rw [length_front rank (falling_pairwise rank post), (falling_perm rank post).countP_eq]
      simp [place]
  | cons a pre ih =>
    obtain ⟨s, t, hsplit, hlength⟩ := ih
    have hsorted := falling_pairwise rank (pre ++ x :: post)
    rw [hsplit] at hsorted
    have hfront : ∀ b ∈ s, rank x ≤ rank b := fun b hb =>
      (List.pairwise_append.mp hsorted).2.2 b hb x List.mem_cons_self
    have hinsert : falling rank (a :: pre ++ x :: post) =
        List.orderedInsert (fun a b => rank b ≤ rank a) a (s ++ x :: t) := by
      rw [← hsplit]
      rfl
    by_cases ha : rank x ≤ rank a
    · obtain ⟨s', hs', hlonger⟩ := orderedInsert_before rank s t ha
      refine ⟨s', t, hinsert.trans hs', ?_⟩
      rw [hlonger, hlength, place, place, List.countP_cons, if_pos (by simpa using ha)]
      omega
    · obtain ⟨t', ht'⟩ := orderedInsert_behind rank s t (not_le.mp ha) hfront
      refine ⟨s, t', hinsert.trans ht', ?_⟩
      rw [hlength, place, place, List.countP_cons, if_neg (by simpa using ha)]
      omega

/-- **An element is among the first** of a list by falling rank where its place is. -/
theorem mem_take_falling {x : α} {pre post : List α} (hnodup : (pre ++ x :: post).Nodup) {n : Nat} :
    x ∈ (falling rank (pre ++ x :: post)).take n ↔ place rank x pre post < n := by
  obtain ⟨s, t, hsplit, hlength⟩ := falling_split rank x pre post
  have hsorted : (s ++ x :: t).Nodup := hsplit ▸ (falling_perm rank _).nodup_iff.mpr hnodup
  have hfirst : x ∉ s := fun hx => (List.nodup_append.mp hsorted).2.2 x hx x List.mem_cons_self rfl
  rw [hsplit, ← hlength]
  constructor
  · intro hmem
    by_contra hlate
    rw [List.take_append_of_le_length (Nat.not_lt.mp hlate)] at hmem
    exact hfirst (List.mem_of_mem_take hmem)
  · intro hlt
    rw [List.take_append, List.mem_append]
    right
    obtain ⟨m, hm⟩ : ∃ m, n - s.length = m + 1 := ⟨n - s.length - 1, by omega⟩
    simp [hm]

end MqStudio.Lib.Places
