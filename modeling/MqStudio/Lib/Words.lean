import Mathlib.Data.List.DropRight

/-!
# Trimming and Splitting Words

Lists over an arbitrary alphabet with a predicate that says which letters are separators.
Trimming drops separators at both ends, `fieldsFunc` cuts a word into its maximal
separator-free pieces, and joining the pieces with one separator is a normal form:

- `trim_trim`: trimming is idempotent.
- `fieldsFunc_intercalate`: cutting what was joined gives the pieces back.
- `collapse_collapse`: cut-then-join is idempotent.
- `splitLast_eq_some_iff`: a word is cut where no further separator stands after the cut.
-/

namespace MqStudio.Lib.Words

universe u

variable {α : Type u}

/-! ## Trimming -/

/-- Drop the separators at both ends. -/
def trim (p : α → Bool) (xs : List α) : List α :=
  (xs.dropWhile p).rdropWhile p

@[simp] theorem trim_nil (p : α → Bool) : trim p [] = [] := by
  simp [trim]

/-- Dropping from the right of a word that starts with a letter leaves that letter in front. -/
private theorem dropWhile_rdropWhile_of_head (p : α → Bool) (xs : List α)
    (h : xs.dropWhile p = xs) : (xs.rdropWhile p).dropWhile p = xs.rdropWhile p := by
  cases xs with
  | nil => simp
  | cons x rest =>
    have hx : ¬ p x = true := by
      intro hp
      have hlen : ((x :: rest).dropWhile p).length = (x :: rest).length := by rw [h]
      simp only [List.dropWhile_cons_of_pos hp] at hlen
      have := (List.dropWhile_suffix p (l := rest)).length_le
      simp only [List.length_cons] at hlen
      omega
    obtain ⟨tail, htail⟩ := List.rdropWhile_prefix p (l := x :: rest)
    cases hr : (x :: rest).rdropWhile p with
    | nil => simp
    | cons y ys =>
      rw [hr, List.cons_append] at htail
      injection htail with hy _
      rw [hy, List.dropWhile_cons_of_neg hx]

/-- Trimming a trimmed word changes nothing. -/
theorem trim_trim (p : α → Bool) (xs : List α) : trim p (trim p xs) = trim p xs := by
  have hleft : (xs.dropWhile p).dropWhile p = xs.dropWhile p := List.dropWhile_idempotent p xs
  simp only [trim]
  rw [dropWhile_rdropWhile_of_head p _ hleft, List.rdropWhile_idempotent]

theorem trim_sublist (p : α → Bool) (xs : List α) : (trim p xs).Sublist xs :=
  (List.rdropWhile_prefix p _).sublist.trans (List.dropWhile_suffix p).sublist

theorem mem_of_mem_trim {p : α → Bool} {xs : List α} {x : α} (h : x ∈ trim p xs) : x ∈ xs :=
  (trim_sublist p xs).subset h

/-- A word without separators is trimmed as it is. -/
theorem trim_eq_self {p : α → Bool} {xs : List α} (h : ∀ x ∈ xs, p x = false) : trim p xs = xs := by
  have hfront : xs.dropWhile p = xs := by
    rw [List.dropWhile_eq_self_iff]
    intro hpos
    simp [h _ (List.getElem_mem hpos)]
  rw [trim, hfront, List.rdropWhile_eq_self_iff]
  intro hne
  simp [h _ (List.getLast_mem hne)]

/-- A letter that is none ends what is dropped from the right. -/
theorem rdropWhile_append_cons {p : α → Bool} {x : α} (hx : ¬ p x = true) (front back : List α) :
    (front ++ x :: back).rdropWhile p = front ++ x :: back.rdropWhile p := by
  have hreverse : (front ++ x :: back).reverse = back.reverse ++ x :: front.reverse := by simp
  simp only [List.rdropWhile, hreverse]
  rw [List.dropWhile_append]
  split
  · rename_i hall
    rw [List.isEmpty_iff] at hall
    simp [hall, hx]
  · simp

/-- What is dropped from the left ends with the first letter that is none. -/
theorem dropWhile_append_cons {p : α → Bool} {front : List α} {x : α} (hfront : ∀ y ∈ front, p y)
    (hx : ¬ p x = true) (back : List α) : (front ++ x :: back).dropWhile p = x :: back := by
  rw [List.dropWhile_append_of_pos hfront, List.dropWhile_cons_of_neg hx]

/-- Separators at the end are dropped from the right. -/
theorem rdropWhile_append_of_pos {p : α → Bool} {back : List α} (h : ∀ x ∈ back, p x)
    (front : List α) : (front ++ back).rdropWhile p = front.rdropWhile p := by
  have hreverse : ∀ x ∈ back.reverse, p x := fun x hx => h x (List.mem_reverse.mp hx)
  rw [List.rdropWhile, List.reverse_append, List.dropWhile_append_of_pos hreverse, List.rdropWhile]

/-! ## Cutting at a separator -/

section Cut

variable [DecidableEq α] {sep : α} {text : List α}

theorem forall_ne_of_not_mem (h : sep ∉ text) : ∀ c ∈ text, decide (c ≠ sep) = true := by
  intro c hc
  rw [decide_eq_true_eq]
  rintro rfl
  exact h hc

theorem takeWhile_cut (h : sep ∉ text) (rest : List α) :
    (text ++ sep :: rest).takeWhile (· ≠ sep) = text := by
  rw [List.takeWhile_append_of_pos (forall_ne_of_not_mem h)]
  simp

theorem dropWhile_cut (h : sep ∉ text) (rest : List α) :
    ((text ++ sep :: rest).dropWhile (· ≠ sep)).drop 1 = rest := by
  rw [List.dropWhile_append_of_pos (forall_ne_of_not_mem h)]
  simp

end Cut

/-! ## Cutting into fields -/

/-- The maximal separator-free pieces of a word, in order. -/
def fieldsFunc (p : α → Bool) (xs : List α) : List (List α) :=
  (xs.splitOnP p).filter (fun piece => !piece.isEmpty)

/-- A word that could be one field: it has a letter and no separator. -/
def IsField (p : α → Bool) (piece : List α) : Prop :=
  piece ≠ [] ∧ ∀ x ∈ piece, p x = false

/-- It is checked letter by letter. -/
theorem isField_of_all {p : α → Bool} {piece : List α} (hne : piece ≠ [])
    (h : (piece.all fun x => !p x) = true) : IsField p piece :=
  ⟨hne, fun x hx => by simpa using List.all_eq_true.mp h x hx⟩

/-- No piece of a cut word contains a separator. -/
private theorem splitOnP_pieces (p : α → Bool) (xs : List α) :
    ∀ piece ∈ xs.splitOnP p, ∀ x ∈ piece, p x = false := by
  induction xs with
  | nil => simp
  | cons y rest ih =>
    rw [List.splitOnP_cons_eq_if_modifyHead]
    obtain ⟨first, others, hcut⟩ := List.exists_cons_of_ne_nil (List.splitOnP_ne_nil p rest)
    rw [hcut] at ih ⊢
    split
    · simpa using ih
    · rename_i hy
      intro piece hpiece x hx
      rcases List.mem_cons.mp hpiece with rfl | hlater
      · rcases List.mem_cons.mp hx with rfl | hx
        · simpa using hy
        · exact ih first List.mem_cons_self x hx
      · exact ih piece (List.mem_cons_of_mem _ hlater) x hx

/-- Every field is one. -/
theorem isField_of_mem_fieldsFunc (p : α → Bool) (xs piece : List α)
    (h : piece ∈ fieldsFunc p xs) : IsField p piece := by
  obtain ⟨hcut, hne⟩ := List.mem_filter.mp h
  exact ⟨by simpa using hne, splitOnP_pieces p xs piece hcut⟩

/-- A cut word has the letters of the word. -/
private theorem splitOnP_letters (p : α → Bool) (xs : List α) :
    ∀ piece ∈ xs.splitOnP p, ∀ x ∈ piece, x ∈ xs := by
  induction xs with
  | nil => simp
  | cons y rest ih =>
    rw [List.splitOnP_cons_eq_if_modifyHead]
    obtain ⟨first, others, hcut⟩ := List.exists_cons_of_ne_nil (List.splitOnP_ne_nil p rest)
    rw [hcut] at ih ⊢
    split
    · intro piece hpiece x hx
      rcases List.mem_cons.mp hpiece with rfl | hlater
      · cases hx
      · exact List.mem_cons_of_mem _ (ih piece hlater x hx)
    · intro piece hpiece x hx
      rcases List.mem_cons.mp hpiece with rfl | hlater
      · rcases List.mem_cons.mp hx with rfl | hx
        · exact List.mem_cons_self
        · exact List.mem_cons_of_mem _ (ih first List.mem_cons_self x hx)
      · exact List.mem_cons_of_mem _ (ih piece (List.mem_cons_of_mem _ hlater) x hx)

theorem mem_of_mem_fieldsFunc {p : α → Bool} {xs piece : List α} {x : α}
    (h : piece ∈ fieldsFunc p xs) (hx : x ∈ piece) : x ∈ xs :=
  splitOnP_letters p xs piece (List.mem_filter.mp h).1 x hx

/-- A field is cut to itself. -/
theorem fieldsFunc_of_isField {p : α → Bool} {piece : List α} (h : IsField p piece) :
    fieldsFunc p piece = [piece] := by
  rw [fieldsFunc, List.splitOnP_eq_singleton h.2]
  simp [h.1]

theorem fieldsFunc_append_cons {p : α → Bool} {sep : α} (hsep : p sep = true)
    (front back : List α) :
    fieldsFunc p (front ++ sep :: back) = fieldsFunc p front ++ fieldsFunc p back := by
  rw [fieldsFunc, List.splitOnP_append_cons _ _ hsep, List.filter_append]
  rfl

/-- Separators in front make no difference. -/
theorem fieldsFunc_separators_append {p : α → Bool} {front : List α} (h : ∀ x ∈ front, p x = true)
    (back : List α) : fieldsFunc p (front ++ back) = fieldsFunc p back := by
  induction front with
  | nil => rfl
  | cons x front ih =>
    have hcut := fieldsFunc_append_cons (h x List.mem_cons_self) [] (front ++ back)
    rw [List.nil_append] at hcut
    rw [List.cons_append, hcut, ih fun y hy => h y (List.mem_cons_of_mem _ hy)]
    rfl

/-- Nor do separators behind. -/
theorem fieldsFunc_append_separators {p : α → Bool} {back : List α} (h : ∀ x ∈ back, p x = true)
    (front : List α) : fieldsFunc p (front ++ back) = fieldsFunc p front := by
  cases back with
  | nil => rw [List.append_nil]
  | cons x back =>
    have hrest := fieldsFunc_separators_append (fun y hy => h y (List.mem_cons_of_mem _ hy)) []
    rw [List.append_nil] at hrest
    rw [fieldsFunc_append_cons (h x List.mem_cons_self), hrest]
    exact List.append_nil _

/-- **A word has the fields it has when trimmed**, of fewer separators too. -/
theorem fieldsFunc_trim {p q : α → Bool} (h : ∀ x, q x = true → p x = true) (xs : List α) :
    fieldsFunc p (trim q xs) = fieldsFunc p xs := by
  have hfront : xs = xs.takeWhile q ++ xs.dropWhile q := List.takeWhile_append_dropWhile.symm
  have hback : xs.dropWhile q = trim q xs ++ ((xs.dropWhile q).reverse.takeWhile q).reverse := by
    rw [trim, List.rdropWhile, ← List.reverse_append, List.takeWhile_append_dropWhile,
      List.reverse_reverse]
  rw [hfront, fieldsFunc_separators_append fun x hx => h x (List.mem_takeWhile_imp hx),
    ← hfront, hback, fieldsFunc_append_separators]
  intro x hx
  exact h x (List.mem_takeWhile_imp (List.mem_reverse.mp hx))

/-- The first field of a word that starts with a letter starts with it. -/
theorem fieldsFunc_cons_letter {p : α → Bool} {x : α} (hx : p x = false) (rest : List α) :
    ∃ more others, fieldsFunc p (x :: rest) = (x :: more) :: others := by
  obtain ⟨first, others, hcut⟩ := List.exists_cons_of_ne_nil (List.splitOnP_ne_nil p rest)
  refine ⟨first, others.filter fun piece => !piece.isEmpty, ?_⟩
  rw [fieldsFunc, List.splitOnP_cons_eq_if_modifyHead, hcut, if_neg (by simp [hx])]
  rfl

/-- **Cut after join**: the fields of what is joined are those of its parts. -/
theorem fieldsFunc_intercalate_flatMap (p : α → Bool) (sep : α) (hsep : p sep = true)
    (parts : List (List α)) :
    fieldsFunc p ([sep].intercalate parts) = parts.flatMap (fieldsFunc p) := by
  induction parts with
  | nil => simp [fieldsFunc]
  | cons first rest ih =>
    cases rest with
    | nil => simp
    | cons second others =>
      rw [List.intercalate_cons_cons, List.append_assoc, List.singleton_append,
        fieldsFunc_append_cons hsep, ih]
      rfl

/-- It may be a word of separators that joins them. -/
theorem fieldsFunc_intercalate_word {p : α → Bool} {x : α} {more : List α} (hx : p x = true)
    (hmore : ∀ y ∈ more, p y = true) (parts : List (List α)) :
    fieldsFunc p ((x :: more).intercalate parts) = parts.flatMap (fieldsFunc p) := by
  induction parts with
  | nil => simp [fieldsFunc]
  | cons first rest ih =>
    cases rest with
    | nil => simp
    | cons second others =>
      rw [List.intercalate_cons_cons, List.append_assoc, List.cons_append,
        fieldsFunc_append_cons hx, fieldsFunc_separators_append hmore, ih]
      rfl

/-- The fields of a word are those of its parts between one of the separators. -/
theorem flatMap_splitOn [DecidableEq α] {p : α → Bool} {sep : α} (hsep : p sep = true)
    (xs : List α) : (xs.splitOn sep).flatMap (fieldsFunc p) = fieldsFunc p xs := by
  rw [← fieldsFunc_intercalate_flatMap p sep hsep, List.intercalate_splitOn]

/-- Pieces that could be fields, joined by one separator, are the fields of the joined word. -/
theorem fieldsFunc_intercalate (p : α → Bool) (sep : α) (hsep : p sep = true)
    (pieces : List (List α)) (hpieces : ∀ piece ∈ pieces, IsField p piece) :
    fieldsFunc p ([sep].intercalate pieces) = pieces := by
  rw [fieldsFunc_intercalate_flatMap p sep hsep]
  induction pieces with
  | nil => rfl
  | cons first rest ih =>
    rw [List.flatMap_cons, fieldsFunc_of_isField (hpieces first List.mem_cons_self),
      ih fun piece h => hpieces piece (List.mem_cons_of_mem _ h)]
    rfl

/-- Cut at separators, drop the empty pieces and join with one separator. -/
def collapse (p : α → Bool) (sep : α) (xs : List α) : List α :=
  [sep].intercalate (fieldsFunc p xs)

/-- A collapsed word is its own normal form. -/
theorem collapse_collapse (p : α → Bool) (sep : α) (hsep : p sep = true) (xs : List α) :
    collapse p sep (collapse p sep xs) = collapse p sep xs := by
  rw [collapse, collapse, fieldsFunc_intercalate p sep hsep _ (isField_of_mem_fieldsFunc p xs)]

/-! ## Cutting at the last separator -/

/-- What stands before and after the last separator, if there is one. -/
def splitLast [DecidableEq α] (sep : α) (xs : List α) : Option (List α × List α) :=
  match xs with
  | [] => none
  | x :: rest =>
    match splitLast sep rest with
    | some (before, after) => some (x :: before, after)
    | none => if x = sep then some ([], rest) else none

theorem splitLast_eq_none_iff [DecidableEq α] (sep : α) (xs : List α) :
    splitLast sep xs = none ↔ sep ∉ xs := by
  induction xs with
  | nil => simp [splitLast]
  | cons x rest ih =>
    simp only [splitLast, List.mem_cons, not_or]
    cases hrest : splitLast sep rest with
    | some cut =>
      have hmem : ¬ sep ∉ rest := fun h => by rw [ih.mpr h] at hrest; cases hrest
      simp [hmem]
    | none =>
      have hmem : sep ∉ rest := ih.mp hrest
      simp [hmem, eq_comm]

/-- **The last separator** is where the word is cut: none stands after it. -/
theorem splitLast_eq_some_iff [DecidableEq α] (sep : α) (xs before after : List α) :
    splitLast sep xs = some (before, after) ↔ xs = before ++ sep :: after ∧ sep ∉ after := by
  induction xs generalizing before with
  | nil => simp [splitLast]
  | cons x rest ih =>
    cases hrest : splitLast sep rest with
    | some cut =>
      -- the cut lies further on, so `before` starts with this letter
      simp only [splitLast, hrest, Option.some.injEq, Prod.mk.injEq]
      constructor
      · rintro ⟨rfl, rfl⟩
        obtain ⟨hrest', hlast⟩ := (ih cut.1).mp hrest
        exact ⟨by rw [hrest']; rfl, hlast⟩
      · rintro ⟨hwhole, hlast⟩
        cases before with
        | nil =>
          -- the separator would be this letter, with another one after it
          obtain ⟨-, rfl⟩ := List.cons.inj hwhole
          rw [(splitLast_eq_none_iff sep rest).mpr hlast] at hrest
          cases hrest
        | cons y before =>
          obtain ⟨rfl, htail⟩ := List.cons.inj hwhole
          have hsame := (ih before).mpr ⟨htail, hlast⟩
          rw [hrest] at hsame
          obtain ⟨rfl, rfl⟩ := Prod.mk.inj (Option.some.inj hsame)
          exact ⟨rfl, rfl⟩
    | none =>
      have hmem := (splitLast_eq_none_iff sep rest).mp hrest
      simp only [splitLast, hrest]
      constructor
      · intro h
        split at h
        · rename_i hx
          cases h
          exact ⟨by rw [hx]; rfl, hmem⟩
        · cases h
      · rintro ⟨hwhole, hlast⟩
        cases before with
        | nil =>
          obtain ⟨rfl, rfl⟩ := List.cons.inj hwhole
          rw [if_pos rfl]
        | cons y before =>
          obtain ⟨-, htail⟩ := List.cons.inj hwhole
          exact absurd (by rw [htail]; simp) hmem

end MqStudio.Lib.Words
