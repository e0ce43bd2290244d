import Mathlib.Init

/-!
# Mapping a Fallible Function over a List

`List.mapM` in `Except`: the first error ends the traversal, so a traversal that finished ran
the function on every element. A traversal can be undone element by element.
-/

namespace MqStudio.Lib.Traverse

universe u v w

variable {α : Type u} {β : Type v} {ε : Type w}

/-- A function that succeeds on every element maps. -/
theorem mapM_ok_of_forall {f : α → Except ε β} {g : α → β} (l : List α)
    (h : ∀ a ∈ l, f a = .ok (g a)) : l.mapM f = .ok (l.map g) := by
  induction l with
  | nil => rfl
  | cons a rest ih =>
    rw [List.mapM_cons, h a List.mem_cons_self, ih fun b hb => h b (List.mem_cons_of_mem _ hb)]
    rfl

/-- The head and the tail of a traversal that finished. -/
theorem mapM_cons_ok {f : α → Except ε β} {a : α} {rest : List α} {out : List β}
    (h : (a :: rest).mapM f = .ok out) :
    ∃ b bs, f a = .ok b ∧ rest.mapM f = .ok bs ∧ out = b :: bs := by
  rw [List.mapM_cons] at h
  cases ha : f a with
  | error e => rw [ha] at h; cases h
  | ok b =>
    cases hrest : rest.mapM f with
    | error e => rw [ha, hrest] at h; cases h
    | ok bs =>
      rw [ha, hrest] at h
      cases h
      exact ⟨b, bs, rfl, rfl, rfl⟩

/-- Every result of a traversal comes from an element. -/
theorem exists_of_mem_mapM {f : α → Except ε β} {l : List α} {out : List β}
    (h : l.mapM f = .ok out) : ∀ b ∈ out, ∃ a ∈ l, f a = .ok b := by
  induction l generalizing out with
  | nil =>
    cases h
    simp
  | cons a rest ih =>
    obtain ⟨b, bs, ha, hrest, rfl⟩ := mapM_cons_ok h
    intro c hc
    rcases List.mem_cons.mp hc with rfl | hc
    · exact ⟨a, List.mem_cons_self, ha⟩
    · obtain ⟨a', ha', hf⟩ := ih hrest c hc
      exact ⟨a', List.mem_cons_of_mem _ ha', hf⟩

/-- Every element of a traversal that finished was mapped. -/
theorem forall_ok_of_mapM {f : α → Except ε β} {l : List α} {out : List β}
    (h : l.mapM f = .ok out) : ∀ a ∈ l, ∃ b, f a = .ok b := by
  induction l generalizing out with
  | nil => simp
  | cons a rest ih =>
    obtain ⟨b, bs, ha, hrest, rfl⟩ := mapM_cons_ok h
    intro c hc
    rcases List.mem_cons.mp hc with rfl | hc
    · exact ⟨b, ha⟩
    · exact ih hrest c hc

/-- A list without gaps, put among lists that may have some, comes out whole. -/
theorem filterMap_id_map_some (l : List α) : (l.map some).filterMap id = l := by
  rw [List.filterMap_map]
  exact List.filterMap_some

/-- **Round trip of two traversals**: if the second function undoes the first on every
    element, the second traversal undoes the first. -/
theorem mapM_roundTrip {f : α → Except ε β} {g : β → Except ε α} {l : List α} {out : List β}
    (h : l.mapM f = .ok out) (hback : ∀ a ∈ l, ∀ b, f a = .ok b → g b = .ok a) :
    out.mapM g = .ok l := by
  induction l generalizing out with
  | nil =>
    cases h
    rfl
  | cons a rest ih =>
    obtain ⟨b, bs, ha, hrest, rfl⟩ := mapM_cons_ok h
    rw [List.mapM_cons, hback a List.mem_cons_self b ha,
      ih hrest fun c hc => hback c (List.mem_cons_of_mem _ hc)]
    rfl

end MqStudio.Lib.Traverse
