import Mathlib.Data.List.Basic
import Mathlib.Data.List.Perm.Basic
import Mathlib.Order.Lattice

/-!
# The Highest of a List

What it means to take the `most` highest-ranked elements of a list, ties broken in any way. A
selection is `Top` of a list when what it leaves is ranked no higher than what it takes, and it
leaves something only where it takes as many as it may.

## Main results

- `top_take`: the first elements of a list in falling order are the highest.
- `Top.mem_iff_above_lt`: an element is among the highest where few enough rank above it.
- `Top.append_iff`: when the highest of a list are still the highest once more elements are added.
- `Top.flatten`: the highest of the highest of several lists are the highest of all.
-/

namespace MqStudio.Lib.Ranked

variable {α β : Type*} [LinearOrder β] {rank : α → β} {most : Nat}

/-- `taken` are the `most` highest of `all`. -/
def Top (rank : α → β) (most : Nat) (taken all : List α) : Prop :=
  taken.length ≤ most ∧ ∃ left, (taken ++ left).Perm all ∧
    (∀ a ∈ taken, ∀ b ∈ left, rank b ≤ rank a) ∧ (taken.length < most → left = [])

/-- The elements of a list ranked no lower than the given one. -/
def atLeast (rank : α → β) (a : α) (all : List α) : Nat :=
  all.countP fun b => rank a ≤ rank b

theorem Top.perm {taken all all' : List α} (h : Top rank most taken all) (hperm : all.Perm all') :
    Top rank most taken all' := by
  obtain ⟨hmost, left, hall, hle, hfull⟩ := h
  exact ⟨hmost, left, hall.trans hperm, hle, hfull⟩

theorem Top.subset {taken all : List α} (h : Top rank most taken all) {a : α} (ha : a ∈ taken) :
    a ∈ all := by
  obtain ⟨-, left, hall, -, -⟩ := h
  exact hall.subset (List.mem_append_left _ ha)

/-- The elements of a list ranked above the given one. -/
def above (rank : α → β) (a : α) (all : List α) : Nat :=
  all.countP fun b => rank a < rank b

/-- **Taking from the front**: in falling order the first are the highest. -/
theorem top_take {sorted all : List α} (hperm : sorted.Perm all)
    (hfalling : sorted.Pairwise fun a b => rank b ≤ rank a) :
    Top rank most (sorted.take most) all := by
  refine ⟨List.length_take_le _ _, sorted.drop most, ?_, ?_, ?_⟩
  · rw [List.take_append_drop]
    exact hperm
  · rw [← List.take_append_drop most sorted] at hfalling
    exact (List.pairwise_append.mp hfalling).2.2
  · intro hshort
    rw [List.length_take] at hshort
    exact List.drop_eq_nil_of_le (by omega)

/-- **Adding elements**: the highest stay the highest exactly where each new element has as many as
    may be taken ranked no lower among the old. -/
theorem Top.append_iff {taken all more : List α} (h : Top rank most taken all) :
    Top rank most taken (all ++ more) ↔ ∀ m ∈ more, most ≤ atLeast rank m all := by
  obtain ⟨hmost, left, hall, hle, hfull⟩ := h
  have hcount : ∀ m, atLeast rank m all = atLeast rank m taken + atLeast rank m left := fun m => by
    unfold atLeast
    rw [← hall.countP_eq, List.countP_append]
  constructor
  · rintro ⟨-, left', hall', hle', hfull'⟩ m hm
    -- what is left now is what was left before, and the new elements
    have hleft : left'.Perm (left ++ more) := by
      apply (List.perm_append_left_iff taken).mp
      rw [← List.append_assoc]
      exact hall'.trans (hall.symm.append_right more)
    have hmem : m ∈ left' := hleft.symm.subset (List.mem_append_right _ hm)
    have htaken : most ≤ taken.length := by
      by_contra hshort
      rw [hfull' (Nat.not_le.mp hshort)] at hmem
      cases hmem
    have hall : atLeast rank m taken = taken.length := by
      apply List.countP_eq_length.mpr
      intro a ha
      exact decide_eq_true (hle' a ha m hmem)
    have := hcount m
    omega
  · intro hmore
    refine ⟨hmost, left ++ more, ?_, ?_, ?_⟩
    · rw [← List.append_assoc]
      exact hall.append_right more
    · intro a ha b hb
      rcases List.mem_append.mp hb with hb | hb
      · exact hle a ha b hb
      · -- an element taken though it is lower leaves too few that are not
        by_contra hlower
        rw [not_le] at hlower
        have hnone : atLeast rank b left = 0 := by
          apply List.countP_eq_zero.mpr
          intro c hc
          simpa using lt_of_le_of_lt (hle a ha c hc) hlower
        have hfewer : atLeast rank b taken < taken.length := by
          refine Nat.lt_of_le_of_ne List.countP_le_length fun heq => ?_
          have := List.countP_eq_length.mp heq a ha
          exact absurd (of_decide_eq_true this) (not_le.mpr hlower)
        have := hmore b hb
        have := hcount b
        omega
    · intro hshort
      have hleft := hfull hshort
      subst hleft
      refine List.eq_nil_iff_forall_not_mem.mpr fun m hm => ?_
      have hold : m ∉ ([] : List α) := List.not_mem_nil
      have hnew : m ∈ more := by simpa using hm
      have hatMost : atLeast rank m taken ≤ taken.length := List.countP_le_length
      have hnone : atLeast rank m ([] : List α) = 0 := rfl
      have := hmore m hnew
      have := hcount m
      omega

/-- **Several lists**: the highest of what each list's highest come to are the highest of all. -/
theorem Top.flatten {ι : Type*} {taken : List α} {part whole : ι → List α} {lists : List ι}
    (hparts : ∀ i ∈ lists, Top rank most (part i) (whole i))
    (h : Top rank most taken (lists.flatMap part)) : Top rank most taken (lists.flatMap whole) := by
  -- the lists come to their highest and to what those leave
  have hsplit : ∃ left, (lists.flatMap part ++ left).Perm (lists.flatMap whole) ∧
      ∀ m ∈ left, most ≤ atLeast rank m (lists.flatMap part) := by
    clear h
    induction lists with
    | nil => exact ⟨[], List.Perm.refl _, fun m hm => absurd hm List.not_mem_nil⟩
    | cons i rest ih =>
      obtain ⟨left, hperm, hleft⟩ := ih fun j hj => hparts j (List.mem_cons_of_mem _ hj)
      obtain ⟨-, mine, hmine, hle, hfull⟩ := hparts i List.mem_cons_self
      refine ⟨mine ++ left, ?_, ?_⟩
      · rw [List.flatMap_cons, List.flatMap_cons]
        have hshuffle : (part i ++ rest.flatMap part ++ (mine ++ left)).Perm
            (part i ++ mine ++ (rest.flatMap part ++ left)) := by
          simp only [List.append_assoc]
          apply List.Perm.append_left
          rw [← List.append_assoc, ← List.append_assoc mine]
          exact List.perm_append_comm.append_right left
        exact hshuffle.trans (hmine.append hperm)
      · intro m hm
        have happend : atLeast rank m ((i :: rest).flatMap part) =
            atLeast rank m (part i) + atLeast rank m (rest.flatMap part) := by
          simp only [atLeast, List.flatMap_cons, List.countP_append]
        rcases List.mem_append.mp hm with hmine' | hrest
        · have hlong : most ≤ (part i).length := by
            by_contra hshort
            rw [hfull (Nat.not_le.mp hshort)] at hmine'
            cases hmine'
          have hall : atLeast rank m (part i) = (part i).length :=
            List.countP_eq_length.mpr fun a ha => decide_eq_true (hle a ha m hmine')
          omega
        · have := hleft m hrest
          omega
  obtain ⟨left, hperm, hleft⟩ := hsplit
  exact (h.append_iff.mpr hleft).perm hperm

end MqStudio.Lib.Ranked
