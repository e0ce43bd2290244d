import Mathlib.Data.List.SplitBy

/-!
# Maximal Runs

A list is read element by element, and an element that has the key of the one before is merged into
it. What comes out is the list's maximal runs of one key, each merged to one element, and it does not
matter whether the last of them was merged before.

## Main definitions

- `push`: one more element.
- `merged`: a whole list.

## Main results

- `foldl_push`: merging what one more push made is pushing one more.
- `merged_eq_filterMap`: what comes out are the runs.
-/

namespace MqStudio.Lib.Runs

universe u v

variable {α : Type u} {κ : Type v} [DecidableEq κ] (key : α → κ) (merge : α → α → α)

/-- An element is merged into the last one, if that has its key. -/
def push (xs : List α) (x : α) : List α :=
  match xs.getLast? with
  | some last => if key last = key x then xs.dropLast ++ [merge last x] else xs ++ [x]
  | none => xs ++ [x]

/-- All elements, one after the other. -/
def merged (xs : List α) : List α := xs.foldl (push key merge) []

/-- Merging keeps the key of the first, and is associative. -/
structure Lawful : Prop where
  key_merge : ∀ a b, key (merge a b) = key a
  assoc : ∀ a b c, merge (merge a b) c = merge a (merge b c)

variable {key merge} {xs ys : List α} {a x : α}

@[simp] theorem push_nil : push key merge [] x = [x] := rfl

theorem push_same (h : key a = key x) : push key merge (xs ++ [a]) x = xs ++ [merge a x] := by
  simp [push, h]

theorem push_other (h : key a ≠ key x) : push key merge (xs ++ [a]) x = xs ++ [a] ++ [x] := by
  simp [push, h]

/-- An element that was merged from two is pushed as the two are. -/
theorem push_merge (hlaw : Lawful key merge) (h : key a = key x) (xs : List α) :
    push key merge xs (merge a x) = push key merge (push key merge xs a) x := by
  rcases List.eq_nil_or_concat' xs with rfl | ⟨front, last, rfl⟩
  · show push key merge [] (merge a x) = push key merge ([] ++ [a]) x
    rw [push_same h]
    rfl
  · by_cases hlast : key last = key a
    · rw [push_same (hlast.trans (hlaw.key_merge a x).symm), push_same hlast, push_same,
        hlaw.assoc]
      rw [hlaw.key_merge, hlast, h]
    · rw [push_other (by rwa [hlaw.key_merge]), push_other hlast, push_same h]

/-- **Pushing all of what one more push made** is pushing one more. -/
theorem foldl_push (hlaw : Lawful key merge) (xs ys : List α) (x : α) :
    (push key merge ys x).foldl (push key merge) xs =
      push key merge (ys.foldl (push key merge) xs) x := by
  rcases List.eq_nil_or_concat' ys with rfl | ⟨front, last, rfl⟩
  · rfl
  · by_cases hlast : key last = key x
    · rw [push_same hlast, List.foldl_append, List.foldl_append]
      exact push_merge hlaw hlast _
    · rw [push_other hlast, List.foldl_append]
      rfl

/-! ## The runs -/

section Split

variable {r : α → α → Bool} {groups : List (List α)} {run : List α} {last : α}

/-- An element that belongs to the last run joins it. -/
theorem splitBy_concat (hgroups : xs.splitBy r = groups ++ [run]) (hlast : run.getLast? = some last)
    (hr : r last x = true) : (xs ++ [x]).splitBy r = groups ++ [run ++ [x]] := by
  obtain ⟨hflat, hnil, hchain, hsep⟩ := List.splitBy_eq_iff.mp hgroups
  have hrun : run ≠ [] := fun h => hnil (h ▸ List.mem_append_right _ List.mem_cons_self)
  refine List.splitBy_eq_iff.mpr ⟨?_, ?_, ?_, ?_⟩
  · rw [hflat]
    simp
  · intro hmem
    rcases List.mem_append.mp hmem with hin | hin
    · exact hnil (List.mem_append_left _ hin)
    · exact List.append_ne_nil_of_right_ne_nil run (List.cons_ne_nil x [])
        (List.mem_singleton.mp hin).symm
  · intro m hm
    rcases List.mem_append.mp hm with hin | hin
    · exact hchain m (List.mem_append_left _ hin)
    · rw [List.mem_singleton.mp hin, List.isChain_append]
      refine ⟨hchain run (List.mem_append_right _ List.mem_cons_self), List.isChain_singleton x, ?_⟩
      intro a ha b hb
      rw [hlast] at ha
      cases ha
      cases hb
      exact hr
  · rw [List.isChain_append] at hsep ⊢
    refine ⟨hsep.1, List.isChain_singleton _, ?_⟩
    intro a ha b hb
    obtain ⟨hsome, hother, hfalse⟩ := hsep.2.2 a ha run rfl
    cases hb
    refine ⟨hsome, List.append_ne_nil_of_left_ne_nil hrun _, ?_⟩
    rw [List.head_append_of_ne_nil hrun]
    exact hfalse

end Split

/-- Elements of one key. -/
def sameKey (key : α → κ) (a b : α) : Bool := decide (key a = key b)

/-- A run, merged: its first element with the others merged into it. -/
def joined (merge : α → α → α) : List α → Option α
  | [] => none
  | a :: rest => some (rest.foldl merge a)

theorem joined_concat {run : List α} {b : α} (h : joined merge run = some b) :
    joined merge (run ++ [x]) = some (merge b x) := by
  cases run with
  | nil => cases h
  | cons a rest =>
    cases h
    rw [List.cons_append, joined, List.foldl_append]
    rfl

/-- **What comes out are the runs**, each merged. -/
theorem merged_eq_filterMap (hlaw : Lawful key merge) (xs : List α) :
    merged key merge xs = (xs.splitBy (sameKey key)).filterMap (joined merge) ∧
      ∀ run ∈ xs.splitBy (sameKey key), ∃ b, joined merge run = some b ∧ ∀ c ∈ run, key c = key b := by
  induction xs using List.reverseRecOn with
  | nil => exact ⟨rfl, fun run hrun => absurd hrun List.not_mem_nil⟩
  | append_singleton xs x ih =>
    obtain ⟨hmerged, hruns⟩ := ih
    have hmore : merged key merge (xs ++ [x]) = push key merge (merged key merge xs) x :=
      List.foldl_append
    rw [hmore, hmerged]
    rcases List.eq_nil_or_concat' (xs.splitBy (sameKey key)) with hnone | ⟨groups, run, hgroups⟩
    · rw [List.splitBy_eq_nil.mp hnone]
      refine ⟨rfl, fun run hrun => ?_⟩
      rw [List.mem_singleton.mp hrun]
      exact ⟨x, rfl, fun c hc => by rw [List.mem_singleton.mp hc]⟩
    · obtain ⟨b, hb, hkeys⟩ := hruns run (hgroups ▸ List.mem_append_right _ List.mem_cons_self)
      have hsome : run ≠ [] := by
        intro hnone
        rw [hnone] at hb
        cases hb
      obtain ⟨last, hlast⟩ := Option.isSome_iff_exists.mp (List.getLast?_isSome.mpr hsome)
      have hkey : key last = key b := hkeys last (List.mem_of_getLast? hlast)
      by_cases hsame : key last = key x
      · rw [splitBy_concat hgroups hlast (decide_eq_true hsame), hgroups, List.filterMap_append,
          List.filterMap_append]
        constructor
        · have hone : [run].filterMap (joined merge) = [b] := by simp [hb]
          have hnext : [run ++ [x]].filterMap (joined merge) = [merge b x] := by
            simp [joined_concat hb]
          rw [hone, hnext, push_same (hkey.symm.trans hsame)]
        · intro other hother
          rcases List.mem_append.mp hother with hin | hin
          · exact hruns other (hgroups ▸ List.mem_append_left _ hin)
          · rw [List.mem_singleton.mp hin]
            refine ⟨merge b x, joined_concat hb, fun c hc => ?_⟩
            rw [hlaw.key_merge]
            rcases List.mem_append.mp hc with hc | hc
            · exact hkeys c hc
            · rw [List.mem_singleton.mp hc, ← hsame, hkey]
      · have hends : ∀ y ∈ xs.getLast?, sameKey key y x = false := by
          intro y hy
          have hflat := (List.splitBy_eq_iff.mp hgroups).1
          rw [hflat, List.flatten_append, List.flatten_singleton,
            List.getLast?_append_of_ne_nil _ hsome, hlast] at hy
          cases hy
          exact decide_eq_false hsame
        rw [List.splitBy_append_cons [] hends, hgroups, List.filterMap_append,
          List.filterMap_append, List.filterMap_append]
        have hone : [run].filterMap (joined merge) = [b] := by simp [hb]
        rw [hone, push_other (fun heq => hsame (hkey.trans heq))]
        refine ⟨rfl, fun other hother => ?_⟩
        rcases List.mem_append.mp hother with hin | hin
        · exact hruns other (hgroups ▸ hin)
        · rw [List.mem_singleton.mp hin]
          exact ⟨x, rfl, fun c hc => by rw [List.mem_singleton.mp hc]⟩

end MqStudio.Lib.Runs
