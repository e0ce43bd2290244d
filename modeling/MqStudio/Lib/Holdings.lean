import Mathlib.Data.List.Perm.Basic
import MqStudio.Lib.Threads

/-!
# What a Table and Its Threads Hold

Some resources are each in one place: held by an entry of a table, or seen to by a thread that is
about to hand them on. Up to order they are what the entries hold and what the threads see to, and
a step that moves one moves it from one list to another.

## Main definitions

- `holdings`: what the entries of a table hold between them.

## Main results

- `holdings_of_get`, `holdings_insert`: an entry's share apart from the others'.
- `holdings_move`: the same of a thread that takes a step.
-/

namespace MqStudio.Lib

open TreeMap

universe u v w

variable {κ : Type u} {β : Type v} {γ : Type w} [Ord κ] [Std.TransOrd κ] [Std.LawfulEqOrd κ]

/-! ## The values of a table -/

/-- One entry apart, the others are what is left where it is erased. -/
theorem values_of_get {m : Map κ β} {k : κ} {v : β} (h : m[k]? = some v) :
    (values m).Perm (v :: values (m.erase k)) := by
  have hnodup : ∀ m : Map κ β, m.toList.Nodup := fun m =>
    (Std.ExtTreeMap.distinct_keys_toList (t := m)).imp fun hne heq =>
      hne (Std.LawfulEqCmp.compare_eq_iff_eq.mpr (congrArg Prod.fst heq))
  have hnew : (k, v) ∉ (m.erase k).toList := by
    rw [Std.ExtTreeMap.mem_toList_iff_getElem?_eq_some]
    simp
  have hsame : m.toList.Perm ((k, v) :: (m.erase k).toList) := by
    rw [List.perm_ext_iff_of_nodup (hnodup m) (List.nodup_cons.mpr ⟨hnew, hnodup _⟩)]
    rintro ⟨a, w⟩
    rw [List.mem_cons, Std.ExtTreeMap.mem_toList_iff_getElem?_eq_some,
      Std.ExtTreeMap.mem_toList_iff_getElem?_eq_some]
    by_cases ha : a = k
    · subst ha
      simp [h, eq_comm]
    · rw [getElem?_erase_of_ne _ (Ne.symm ha)]
      simp [ha]
  exact hsame.map Prod.snd

/-- A new entry is beside those that were there under other keys. -/
theorem values_insert (m : Map κ β) (k : κ) (v : β) :
    (values (m.insert k v)).Perm (v :: values (m.erase k)) := by
  have hget : (m.insert k v)[k]? = some v := Std.ExtTreeMap.getElem?_insert_self
  have hself := values_of_get hget
  rwa [erase_insert] at hself

/-! ## What they hold -/

variable (hold : β → List γ)

/-- What the entries hold between them. -/
def holdings (m : Map κ β) : List γ := (values m).flatMap hold

@[simp] theorem holdings_empty : holdings hold (∅ : Map κ β) = [] := by
  simp [holdings, values_eq_nil_iff.mpr rfl]

theorem holdings_of_get {m : Map κ β} {k : κ} {v : β} (h : m[k]? = some v) :
    (holdings hold m).Perm (hold v ++ holdings hold (m.erase k)) := by
  have hflat := (values_of_get h).flatMap_right hold
  rwa [List.flatMap_cons] at hflat

theorem holdings_insert (m : Map κ β) (k : κ) (v : β) :
    (holdings hold (m.insert k v)).Perm (hold v ++ holdings hold (m.erase k)) := by
  have hflat := (values_insert m k v).flatMap_right hold
  rwa [List.flatMap_cons] at hflat

/-- What a thread sees to once it took a step: nothing where it returned. -/
def onward : Option β → List γ
  | none => []
  | some p => hold p

/-- **After a step of a thread** it sees to what it goes on with, and the others to what they did. -/
theorem holdings_move (threads : Map Nat β) (k : Nat) (next : Option β) :
    (holdings hold (Program.move threads k next)).Perm
      (onward hold next ++ holdings hold (threads.erase k)) := by
  cases next with
  | none => exact List.Perm.refl _
  | some p => exact holdings_insert hold threads k p

end MqStudio.Lib
