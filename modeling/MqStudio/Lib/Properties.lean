import Mathlib.Data.List.TakeWhile
import MqStudio.Lib.Places

/-!
# Objects as Tables

An object that is used as a table: its own properties, which are enumerated in an order of their
own. Keys that are array indexes come first, by size; the others stand in the order they were first
set in. What an object inherits is not a property of its own.

## Main definitions

- `Object`: the properties of an object, in the order they are enumerated in.
- `cap`: as many of them as may be kept, by falling rank.

## Main results

- `get_set_self`, `get_fromEntries`: what is read back.
- `get_cap_iff`: a property is kept where few enough come before it.
-/

namespace MqStudio.Lib

open Places

universe u v w

/-- An array index: a decimal number without leading zeros, below the highest. -/
def arrayIndex (key : String) : Option Nat :=
  let digits := key.toList
  if digits.isEmpty || !digits.all Char.isDigit then none
  else if digits.head? = some '0' && digits.length ≠ 1 then none
  else
    let index := digits.foldl (fun n c => 10 * n + (c.toNat - 48)) 0
    if index < 4294967295 then some index else none

/-- The own properties of an object, in the order they are enumerated in. -/
structure Object (α : Type u) where
  entries : List (String × α)
  distinct : (entries.map Prod.fst).Nodup

namespace Object

variable {α : Type u} {β : Type v} {γ : Type w} {o : Object α} {key other : String} {a b : α}

instance [DecidableEq α] : DecidableEq (Object α) := fun o p =>
  decidable_of_iff (o.entries = p.entries) (by cases o; cases p; simp)

/-! ## Operations -/

/-- `{}` -/
def empty : Object α := ⟨[], List.nodup_nil⟩

/-- `o[key]`, of its own properties. -/
def get (o : Object α) (key : String) : Option α :=
  (o.entries.find? fun e => e.1 = key).map Prod.snd

/-- Whether a key is among the properties. -/
def has (o : Object α) (key : String) : Bool := (o.entries.map Prod.fst).contains key

/-- The properties with a new one where it is enumerated. -/
def placed (entries : List (String × α)) (key : String) (a : α) : List (String × α) :=
  match arrayIndex key with
  | none => entries ++ [(key, a)]
  | some index =>
    let below := fun e : String × α => (arrayIndex e.1).any (· < index)
    entries.takeWhile below ++ (key, a) :: entries.dropWhile below

theorem placed_perm (entries : List (String × α)) (key : String) (a : α) :
    (placed entries key a).Perm ((key, a) :: entries) := by
  unfold placed
  split
  · exact List.perm_append_singleton _ _
  · apply List.perm_middle.trans
    rw [List.takeWhile_append_dropWhile]

/-- The properties with another value under a key that is among them. -/
def replaced (entries : List (String × α)) (key : String) (a : α) : List (String × α) :=
  entries.map fun e => if e.1 = key then (key, a) else e

theorem keys_replaced (entries : List (String × α)) (key : String) (a : α) :
    (replaced entries key a).map Prod.fst = entries.map Prod.fst := by
  rw [replaced, List.map_map]
  apply List.map_congr_left
  intro e _
  by_cases he : e.1 = key
  · simp [he]
  · simp [he]

/-- `o[key] = a` -/
def set (o : Object α) (key : String) (a : α) : Object α :=
  if h : key ∈ o.entries.map Prod.fst then
    ⟨replaced o.entries key a, (keys_replaced o.entries key a).symm ▸ o.distinct⟩
  else
    ⟨placed o.entries key a, by
      rw [((placed_perm o.entries key a).map Prod.fst).nodup_iff]
      exact List.nodup_cons.mpr ⟨h, o.distinct⟩⟩

/-- `delete o[key]` -/
def erase (o : Object α) (key : String) : Object α where
  entries := o.entries.filter fun e => e.1 ≠ key
  distinct := o.distinct.sublist ((List.filter_sublist).map Prod.fst)

/-- `Object.fromEntries` -/
def fromEntries (entries : List (String × α)) : Object α :=
  entries.foldl (fun o e => o.set e.1 e.2) empty

/-- The same properties with other values. -/
def mapValues (o : Object α) (f : α → β) : Object β where
  entries := o.entries.map fun e => (e.1, f e.2)
  distinct := by
    rw [List.map_map]
    exact o.distinct

/-! ## Reading back -/

theorem get_eq_some_iff : o.get key = some a ↔ (key, a) ∈ o.entries := by
  unfold get
  constructor
  · intro h
    obtain ⟨e, he, rfl⟩ := Option.map_eq_some_iff.mp h
    obtain rfl : e.1 = key := by simpa using List.find?_some he
    exact List.mem_of_find?_eq_some he
  · intro h
    obtain ⟨e, he⟩ : ∃ e, o.entries.find? (fun e => e.1 = key) = some e :=
      Option.isSome_iff_exists.mp (List.find?_isSome.mpr ⟨(key, a), h, by simp⟩)
    have hkey : e.1 = key := by simpa using List.find?_some he
    have hsame : e = (key, a) :=
      List.inj_on_of_nodup_map o.distinct (List.mem_of_find?_eq_some he) h hkey
    rw [he, hsame]
    rfl

theorem mem_set {e : String × α} :
    e ∈ (o.set key a).entries ↔ e = (key, a) ∨ (e.1 ≠ key ∧ e ∈ o.entries) := by
  unfold set
  split
  · rename_i hin
    simp only [replaced, List.mem_map]
    constructor
    · rintro ⟨old, hold, rfl⟩
      by_cases hkey : old.1 = key
      · exact .inl (if_pos hkey)
      · rw [if_neg hkey]
        exact .inr ⟨hkey, hold⟩
    · rintro (rfl | ⟨hkey, hold⟩)
      · obtain ⟨old, hold, hkey⟩ := List.mem_map.mp hin
        exact ⟨old, hold, if_pos hkey⟩
      · exact ⟨e, hold, if_neg hkey⟩
  · rename_i hnew
    rw [(placed_perm o.entries key a).mem_iff, List.mem_cons]
    constructor
    · rintro (rfl | hold)
      · exact .inl rfl
      · refine .inr ⟨?_, hold⟩
        rintro rfl
        exact hnew (List.mem_map_of_mem hold)
    · exact Or.imp_right And.right

/-- A key that is among the properties is not added. -/
theorem length_set_of_mem (h : (key, b) ∈ o.entries) :
    (o.set key a).entries.length = o.entries.length := by
  rw [set, dif_pos (List.mem_map_of_mem h)]
  exact List.length_map _

@[simp] theorem get_set_self : (o.set key a).get key = some a :=
  get_eq_some_iff.mpr (mem_set.mpr (.inl rfl))

theorem mem_erase {e : String × α} : e ∈ (o.erase key).entries ↔ e.1 ≠ key ∧ e ∈ o.entries := by
  simp [erase, and_comm]

theorem mem_mapValues {f : α → β} {e : String × β} :
    e ∈ (o.mapValues f).entries ↔ ∃ a, (e.1, a) ∈ o.entries ∧ f a = e.2 := by
  obtain ⟨key, b⟩ := e
  simp [mapValues]

@[simp] theorem get_mapValues (f : α → β) : (o.mapValues f).get key = (o.get key).map f := by
  apply Option.ext
  intro b
  simp only [get_eq_some_iff, mem_mapValues, Option.map_eq_some_iff]

/-! ## Tables of entries -/

/-- Entries under keys of their own are set one beside the other. -/
theorem foldl_set_perm (entries : List (String × α)) (o : Object α)
    (h : (o.entries.map Prod.fst ++ entries.map Prod.fst).Nodup) :
    (entries.foldl (fun o e => o.set e.1 e.2) o).entries.Perm (o.entries ++ entries) := by
  induction entries generalizing o with
  | nil => simp
  | cons e rest ih =>
    have hnew : e.1 ∉ o.entries.map Prod.fst := by
      intro hin
      exact (List.nodup_append.mp h).2.2 e.1 hin e.1 (by simp) rfl
    have hset : (o.set e.1 e.2).entries.Perm (e :: o.entries) := by
      rw [set, dif_neg hnew]
      exact placed_perm o.entries e.1 e.2
    have hmoved : (o.entries ++ e :: rest).Perm ((o.set e.1 e.2).entries ++ rest) :=
      List.perm_middle.trans (hset.symm.append_right rest)
    rw [List.foldl_cons]
    refine (ih _ ?_).trans hmoved.symm
    rw [← List.map_append, ← (hmoved.map Prod.fst).nodup_iff, List.map_append]
    exact h

theorem fromEntries_perm {entries : List (String × α)} (h : (entries.map Prod.fst).Nodup) :
    (fromEntries entries).entries.Perm entries :=
  foldl_set_perm entries empty h

theorem get_fromEntries {entries : List (String × α)} (h : (entries.map Prod.fst).Nodup) :
    (fromEntries entries).get key = some a ↔ (key, a) ∈ entries := by
  rw [get_eq_some_iff, (fromEntries_perm h).mem_iff]

/-! ## As many as may be kept -/

section Cap

variable [LinearOrder β] (rank : α → β) (most : Nat)

/-- The properties of a table, or the highest of them where they are more than may be kept. -/
def cap (o : Object α) : Object α :=
  if o.entries.length ≤ most then o
  else fromEntries ((falling (fun e => rank e.2) o.entries).take most)

/-- How many properties a stable sort puts before the one with a key. -/
def ahead (o : Object α) (key : String) (a : α) : Nat :=
  place (fun e => rank e.2) (key, a) (o.entries.takeWhile fun e => e.1 ≠ key)
    (o.entries.dropWhile fun e => e.1 ≠ key).tail

theorem entries_split (h : o.get key = some a) :
    (o.entries.takeWhile fun e => e.1 ≠ key) ++
      (key, a) :: (o.entries.dropWhile fun e => e.1 ≠ key).tail = o.entries := by
  have hsplit := List.takeWhile_append_dropWhile (p := fun e : String × α => e.1 ≠ key)
    (l := o.entries)
  cases hrest : o.entries.dropWhile (fun e => e.1 ≠ key) with
  | nil =>
    rw [List.dropWhile_eq_nil_iff] at hrest
    have hne := hrest (key, a) (get_eq_some_iff.mp h)
    simp at hne
  | cons e rest =>
    rw [hrest] at hsplit
    have hkey : e.1 = key := by
      have hhead := List.head?_dropWhile_not (fun e : String × α => decide (e.1 ≠ key)) o.entries
      rw [hrest] at hhead
      simpa using hhead
    have hmem : e ∈ o.entries := by
      rw [← hsplit]
      simp
    have hsame : e = (key, a) :=
      List.inj_on_of_nodup_map o.distinct hmem (get_eq_some_iff.mp h) hkey
    rw [hsame] at hsplit
    exact hsplit

theorem nodup_entries (o : Object α) : o.entries.Nodup := List.Nodup.of_map _ o.distinct

theorem nodup_taken (o : Object α) :
    (((falling (fun e => rank e.2) o.entries).take most).map Prod.fst).Nodup := by
  have hsorted := (falling_perm (fun e : String × α => rank e.2) o.entries).map Prod.fst
  exact (hsorted.nodup_iff.mpr o.distinct).sublist ((List.take_sublist _ _).map Prod.fst)

theorem length_cap_le : (o.cap rank most).entries.length ≤ most := by
  unfold cap
  split
  · assumption
  · rw [(fromEntries_perm (nodup_taken rank most o)).length_eq]
    exact List.length_take_le _ _

/-- What is kept was there. -/
theorem mem_of_mem_cap {e : String × α} (h : e ∈ (o.cap rank most).entries) : e ∈ o.entries := by
  unfold cap at h
  split at h
  · exact h
  · rw [(fromEntries_perm (nodup_taken rank most o)).mem_iff] at h
    exact (falling_perm _ _).mem_iff.mp (List.mem_of_mem_take h)

/-- **A property is kept** where fewer come before it than may be kept. -/
theorem get_cap_iff (h : o.get key = some a) :
    (o.cap rank most).get key = some a ↔ o.ahead rank key a < most := by
  have hsplit := entries_split h
  unfold cap
  split
  · rename_i hfew
    refine iff_of_true h ?_
    have hcount := place_lt_length (fun e : String × α => rank e.2) (key, a)
      (o.entries.takeWhile fun e => e.1 ≠ key) (o.entries.dropWhile fun e => e.1 ≠ key).tail
    rw [hsplit] at hcount
    exact hcount.trans_le hfew
  · rw [get_fromEntries (nodup_taken rank most o), ahead]
    have hnodup := nodup_entries o
    rw [← hsplit] at hnodup
    rw [← mem_take_falling (fun e : String × α => rank e.2) hnodup, hsplit]

/-- The highest of all are kept. -/
theorem exists_mem_cap {most : Nat} (hmost : 0 < most) {e : String × α} (h : e ∈ o.entries) :
    ∃ high ∈ (o.cap rank most).entries, rank e.2 ≤ rank high.2 := by
  unfold cap
  split
  · exact ⟨e, h, le_rfl⟩
  · have hsorted := falling_pairwise (fun e : String × α => rank e.2) o.entries
    have hmem := (falling_perm (fun e : String × α => rank e.2) o.entries).mem_iff.mpr h
    cases hfalling : falling (fun e : String × α => rank e.2) o.entries with
    | nil =>
      rw [hfalling] at hmem
      cases hmem
    | cons first rest =>
      rw [hfalling] at hsorted hmem
      refine ⟨first, ?_, ?_⟩
      · rw [← hfalling, (fromEntries_perm (nodup_taken rank most o)).mem_iff, hfalling]
        obtain ⟨m, rfl⟩ := Nat.exists_eq_succ_of_ne_zero hmost.ne'
        exact List.mem_cons_self
      · rcases List.mem_cons.mp hmem with rfl | hrest
        · exact le_rfl
        · exact (List.pairwise_cons.mp hsorted).1 e hrest

/-- Values of the same rank have the same before them. -/
theorem ahead_mapValues (rank' : γ → β) {f : α → γ} (hrank : ∀ a, rank' (f a) = rank a) :
    (o.mapValues f).ahead rank' key (f a) = o.ahead rank key a := by
  simp only [ahead, place, mapValues, List.takeWhile_map, List.dropWhile_map, ← List.map_tail,
    List.countP_map, Function.comp_def, hrank]

end Cap

end Object

end MqStudio.Lib
