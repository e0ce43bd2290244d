import Mathlib.Data.List.Infix

/-!
# Histories

What a system did, as a list with the latest event first. A rule about events says what must have
happened before one of them: it is stated of the event and of the history as it was then, so it
cannot be undone by what happens later.

## Main results

- `each_cons`: an event that follows the rule keeps a history that does.
-/

namespace MqStudio.Lib.History

universe u

variable {α : Type u}

/-- Every event follows the rule, given what happened before it. -/
def Each (rule : List α → α → Prop) (history : List α) : Prop :=
  ∀ earlier event, (event :: earlier) <:+ history → rule earlier event

@[simp] theorem each_nil (rule : List α → α → Prop) : Each rule [] := by
  intro earlier event h
  exact absurd (List.suffix_nil.mp h) (List.cons_ne_nil _ _)

@[simp] theorem each_cons {rule : List α → α → Prop} {history : List α} {event : α} :
    Each rule (event :: history) ↔ rule history event ∧ Each rule history := by
  constructor
  · intro h
    exact ⟨h history event (List.suffix_refl _), fun earlier other hsuffix =>
      h earlier other (hsuffix.trans (List.suffix_cons _ _))⟩
  · rintro ⟨hevent, hhistory⟩ earlier other hsuffix
    rcases List.suffix_cons_iff.mp hsuffix with hwhole | hrest
    · obtain ⟨rfl, rfl⟩ := List.cons.inj hwhole
      exact hevent
    · exact hhistory earlier other hrest

/-- A weaker rule is followed where a stronger one is. -/
theorem Each.mono {rule rule' : List α → α → Prop} {history : List α} (h : Each rule history)
    (hweak : ∀ earlier event, rule earlier event → rule' earlier event) : Each rule' history :=
  fun earlier event hsuffix => hweak earlier event (h earlier event hsuffix)

end MqStudio.Lib.History
