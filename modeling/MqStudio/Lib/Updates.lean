import Mathlib.Data.List.Pairwise

/-!
# Changing One Entry of a List

A program changes the first entry of a list that meets a test, another one the last. They do the
same to a list where at most one entry meets it, which is one where no two entries carry the same
key.

## Main results

- `changeFirst_of_changeLast`: the two agree where no two entries carry the same key.
-/

namespace MqStudio.Lib.Updates

universe u v

variable {α : Type u} {κ : Type v}

/-- The first entry that meets the test is changed, or nothing is. -/
def changeFirst (p : α → Bool) (f : α → α) : List α → Option (List α)
  | [] => none
  | x :: rest =>
    if p x then some (f x :: rest)
    else (changeFirst p f rest).map (x :: ·)

/-- The last entry that meets the test is changed, or nothing is; with the changed entry. -/
def changeLast (p : α → Bool) (f : α → α) : List α → Option (List α × α)
  | [] => none
  | x :: rest =>
    match changeLast p f rest with
    | some (changed, y) => some (x :: changed, y)
    | none => if p x then some (f x :: rest, f x) else none

section Changes

variable {p : α → Bool} {f : α → α} {xs ys : List α} {y : α}

/-- Nothing is changed where no entry meets the test. -/
theorem changeLast_eq_none_iff : changeLast p f xs = none ↔ ∀ x ∈ xs, p x = false := by
  induction xs with
  | nil => simp [changeLast]
  | cons x rest ih =>
    cases hrest : changeLast p f rest with
    | some changed =>
      have hsome := mt ih.mpr (by simp [hrest])
      simp only [changeLast, hrest, reduceCtorEq, List.forall_mem_cons, false_iff]
      exact fun h => hsome h.2
    | none =>
      simp only [changeLast, hrest, List.forall_mem_cons]
      cases hp : p x with
      | true => simp
      | false => simpa using ih.mp hrest

/-- **What a change does**: an entry that met the test stands changed where it stood. -/
theorem changeLast_eq_some (h : changeLast p f xs = some (ys, y)) :
    ∃ before x after, xs = before ++ x :: after ∧ p x = true ∧ y = f x ∧
      ys = before ++ y :: after ∧ ∀ z ∈ after, p z = false := by
  induction xs generalizing ys with
  | nil => cases h
  | cons x rest ih =>
    simp only [changeLast] at h
    cases hrest : changeLast p f rest with
    | some changed =>
      rw [hrest] at h
      cases h
      obtain ⟨before, z, after, hsplit, hz, hy, hchanged, hafter⟩ := ih hrest
      exact ⟨x :: before, z, after, by rw [hsplit, List.cons_append], hz, hy,
        by rw [hchanged, List.cons_append], hafter⟩
    | none =>
      rw [hrest] at h
      dsimp only at h
      split at h
      · rename_i hx
        cases h
        exact ⟨[], x, rest, rfl, hx, rfl, rfl, changeLast_eq_none_iff.mp hrest⟩
      · cases h

/-- The last entry of all is changed when it meets the test. -/
theorem changeLast_concat {x : α} (hx : p x = true) :
    changeLast p f (xs ++ [x]) = some (xs ++ [f x], f x) := by
  induction xs with
  | nil => simp [changeLast, hx]
  | cons z rest ih => simp [changeLast, ih]

/-- The first entry is found behind entries that do not meet the test. -/
theorem changeFirst_append {before after : List α} {x : α} (hbefore : ∀ z ∈ before, p z = false)
    (hx : p x = true) :
    changeFirst p f (before ++ x :: after) = some (before ++ f x :: after) := by
  induction before with
  | nil => simp [changeFirst, hx]
  | cons z rest ih =>
    have hz := hbefore z List.mem_cons_self
    have hrest := ih fun w hw => hbefore w (List.mem_cons_of_mem _ hw)
    simp [changeFirst, hz, hrest]

theorem changeFirst_eq_none (h : ∀ x ∈ xs, p x = false) : changeFirst p f xs = none := by
  induction xs with
  | nil => rfl
  | cons x rest ih =>
    have hrest := ih fun z hz => h z (List.mem_cons_of_mem _ hz)
    simp [changeFirst, h x List.mem_cons_self, hrest]

end Changes

/-! ## Lists with a key -/

variable [DecidableEq κ] {key : α → κ} {xs ys : List α} {y : α} {k : κ}

/-- **One entry a key**: where no two entries carry one key, the last that carries it is also the
    first, whatever it becomes. -/
theorem changeFirst_of_changeLast (hkeys : xs.Pairwise fun x z => key x ≠ key z) {f : α → α}
    (h : changeLast (fun x => key x = k) f xs = some (ys, y)) {g : α → α}
    (hg : ∀ x, key x = k → f x = y → g x = y) :
    changeFirst (fun x => key x = k) g xs = some ys := by
  obtain ⟨before, x, after, rfl, hx, rfl, rfl, -⟩ := changeLast_eq_some h
  have hkey : key x = k := of_decide_eq_true hx
  have hbefore : ∀ z ∈ before, decide (key z = k) = false := by
    intro z hz
    have hne := (List.pairwise_append.mp hkeys).2.2 z hz x List.mem_cons_self
    exact decide_eq_false fun heq => hne (heq.trans hkey.symm)
  rw [changeFirst_append hbefore hx, hg x hkey rfl]

end MqStudio.Lib.Updates
