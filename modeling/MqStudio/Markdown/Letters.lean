import MqStudio.Markdown.Blocks

/-!
# Letters That Are Not Markup

What of a line, of a row and of wrapped lines is to be read in a block, and that the patterns and
`cellsOf` take nothing else away.

## Main definitions

- `ink`: the letters of a text that are not blank.
- `headingLetters`, `quoteLetters`, `itemLetters`, `cellLetters`: lines without their markup.

## Main results

- `ink_joinLines`: wrapped lines are joined in full.
- `heading_exec`, `quote_exec`, `item_exec`: what a pattern captures are the letters of the line.
- `cellsOf_eq`: the cells of a row, trimmed.
-/

namespace MqStudio.Markdown

open MqStudio.Lib
open MqStudio.Lib.Pattern

/-! ## Ink -/

/-- The letters of a text that are not blank. -/
def ink (s : Text) : Text := s.filter fun d => !isSpace d

section Ink

variable {s t : Text}

@[simp] theorem ink_nil : ink [] = [] := rfl

@[simp] theorem ink_append (s t : Text) : ink (s ++ t) = ink s ++ ink t := List.filter_append ..

@[simp] theorem ink_flatten_append (xs ys : List Text) :
    ink (xs ++ ys).flatten = ink xs.flatten ++ ink ys.flatten := by
  rw [List.flatten_append, ink_append]

theorem ink_of_blank (h : ∀ d ∈ s, isSpace d) : ink s = [] := by
  rw [ink, List.filter_eq_nil_iff]
  intro d hd
  simp [h d hd]

theorem ink_dropWhile (s : Text) : ink (s.dropWhile isSpace) = ink s := by
  conv_rhs => rw [← List.takeWhile_append_dropWhile (p := isSpace) (l := s)]
  rw [ink_append, ink_of_blank fun d hd => List.mem_takeWhile_imp hd, List.nil_append]

theorem ink_rdropWhile (s : Text) : ink (s.rdropWhile isSpace) = ink s := by
  have hreverse : ∀ t : Text, ink t.reverse = (ink t).reverse := fun t => List.filter_reverse
  rw [List.rdropWhile, hreverse, ink_dropWhile, hreverse, List.reverse_reverse]

@[simp] theorem ink_trim (s : Text) : ink (trim s) = ink s := by
  rw [trim, Words.trim, ink_rdropWhile, ink_dropWhile]

theorem ink_of_trim_nil (h : trim s = []) : ink s = [] := by
  rw [← ink_trim, h, ink_nil]

theorem ink_flatten_map {f : Text → Text} (hf : ∀ s, ink (f s) = ink s) (xs : List Text) :
    ink (xs.map f).flatten = ink xs.flatten := by
  induction xs with
  | nil => rfl
  | cons s rest ih => rw [List.map_cons, List.flatten_cons, ink_append, hf, ih, List.flatten_cons,
      ink_append]

/-- Blank lines have no ink. -/
theorem ink_filter (xs : List Text) :
    ink (xs.filter fun s => trim s ≠ []).flatten = ink xs.flatten := by
  induction xs with
  | nil => rfl
  | cons s rest ih =>
    rw [List.flatten_cons, ink_append, ← ih, List.filter_cons]
    split
    · rw [List.flatten_cons, ink_append]
    · rename_i hs
      have hblank : ink s = [] := ink_of_trim_nil (by simpa using hs)
      rw [hblank, List.nil_append]

theorem ink_intercalate {glue : Text} (hglue : ink glue = []) (xs : List Text) :
    ink (glue.intercalate xs) = ink xs.flatten := by
  induction xs with
  | nil => rfl
  | cons s rest ih =>
    cases rest with
    | nil => simp [List.intercalate]
    | cons t rest =>
      rw [List.intercalate_cons_cons, ink_append, ink_append, hglue, ih]
      simp

/-! ## Wrapped lines -/

theorem ink_joinLine (joined line : Text) :
    ink (joinLine joined line) = ink joined ++ ink line := by
  unfold joinLine
  split
  · rename_i h
    rw [h, ink_nil, List.nil_append]
  · dsimp only
    have hspace : ink (units " ") = [] := by decide
    split <;> simp [hspace]

/-- **Wrapped lines are joined in full.** -/
theorem ink_joinLines (xs : List Text) : ink (joinLines xs) = ink xs.flatten := by
  have hfold : ∀ joined, ink (xs.foldl joinLine joined) = ink joined ++ ink xs.flatten := by
    induction xs with
    | nil => simp
    | cons line rest ih =>
      intro joined
      rw [List.foldl_cons, ih, ink_joinLine, List.append_assoc, List.flatten_cons, ink_append]
  exact hfold []

end Ink

/-! ## Lines without their markup -/

/-- A heading without the hashes it starts and ends with. -/
def headingLetters (line : Text) : Text :=
  let opened := (line.dropWhile isSpace).dropWhile (is '#')
  (opened.rdropWhile isSpace).rdropWhile (is '#')

/-- A quoted line behind its marker, and behind one blank. -/
def quoteLetters (line : Text) : Text :=
  match (line.dropWhile isSpace).drop 1 with
  | [] => []
  | c :: rest => if isSpace c then rest else c :: rest

/-- An item behind its bullet, or behind its number and the letter that ends it. -/
def itemLetters (line : Text) : Text :=
  match line.dropWhile isSpace with
  | [] => []
  | c :: rest => if isDigit c then (rest.dropWhile isDigit).drop 1 else rest

/-- The cells of a row. A pipe ends a cell, unless it stands in code or is escaped; the backslash
    that escapes one belongs to no cell. -/
def rowCells : (escaped code : Bool) → Text → List Text
  | _, _, [] => [[]]
  | escaped, code, c :: rest =>
    if escaped = false ∧ c = unit '\\' ∧ rest.head? = some (unit '|') then rowCells true code rest
    else if c = unit '|' ∧ escaped = false ∧ code = false then [] :: rowCells false false rest
    else
      (rowCells false (if c = unit '\x60' then !code else code) rest).modifyHead (c :: ·)

/-- The cells of a line, between the pipes at its ends. -/
def cellLetters (line : Text) : List Text := rowCells false false (rowOf line)

/-! ## They are letters of the line -/

theorem headingLetters_sublist (line : Text) : (headingLetters line).Sublist line := by
  have hopened : ((line.dropWhile isSpace).dropWhile (is '#')).Sublist line :=
    (List.dropWhile_suffix _).sublist.trans (List.dropWhile_suffix _).sublist
  have hclosed : (headingLetters line).Sublist ((line.dropWhile isSpace).dropWhile (is '#')) :=
    (List.rdropWhile_prefix _ _).sublist.trans (List.rdropWhile_prefix _ _).sublist
  exact hclosed.trans hopened

theorem quoteLetters_sublist (line : Text) : (quoteLetters line).Sublist line := by
  have hmarked : ((line.dropWhile isSpace).drop 1).Sublist line :=
    (List.drop_sublist 1 _).trans (List.dropWhile_suffix isSpace).sublist
  unfold quoteLetters
  split
  · exact List.nil_sublist line
  · rename_i c rest hcut
    rw [hcut] at hmarked
    split
    · exact (List.sublist_cons_self c rest).trans hmarked
    · exact hmarked

theorem itemLetters_sublist (line : Text) : (itemLetters line).Sublist line := by
  have hindented : (line.dropWhile isSpace).Sublist line := (List.dropWhile_suffix isSpace).sublist
  unfold itemLetters
  split
  · exact List.nil_sublist line
  · rename_i c rest hcut
    rw [hcut] at hindented
    have hrest : rest.Sublist line := (List.sublist_cons_self c rest).trans hindented
    split
    · exact ((List.drop_sublist 1 _).trans (List.dropWhile_suffix isDigit).sublist).trans hrest
    · exact hrest

theorem rowCells_ne_nil (escaped code : Bool) (s : Text) : rowCells escaped code s ≠ [] := by
  induction s generalizing escaped code with
  | nil => simp [rowCells]
  | cons c rest ih =>
    unfold rowCells
    split
    · exact ih true code
    · split
      · simp
      · intro hnil
        have := congrArg List.length hnil
        rw [List.length_modifyHead] at this
        exact ih _ _ (List.length_eq_zero_iff.mp this)

theorem rowCells_sublist (escaped code : Bool) (s : Text) :
    (rowCells escaped code s).flatten.Sublist s := by
  induction s generalizing escaped code with
  | nil => simp [rowCells]
  | cons c rest ih =>
    unfold rowCells
    split
    · exact (ih true code).trans (List.sublist_cons_self c rest)
    · split
      · exact (ih false false).trans (List.sublist_cons_self c rest)
      · have hrest := ih false (if c = unit '\x60' then !code else code)
        obtain ⟨cell, cells, hcells⟩ := List.exists_cons_of_ne_nil
          (rowCells_ne_nil false (if c = unit '\x60' then !code else code) rest)
        rw [hcells] at hrest ⊢
        exact hrest.cons_cons c

theorem rowOf_sublist (line : Text) : (rowOf line).Sublist line := by
  have htrim : (trim line).Sublist line := Words.trim_sublist isSpace line
  have hfront : (if (trim line).head? = some (unit '|') then (trim line).tail
      else trim line).Sublist line := by
    split
    · exact (List.tail_sublist _).trans htrim
    · exact htrim
  unfold rowOf
  dsimp only
  generalize (if (trim line).head? = some (unit '|') then (trim line).tail else trim line) = text
    at hfront ⊢
  split
  · exact (List.dropLast_sublist text).trans hfront
  · exact hfront

theorem cellLetters_sublist (line : Text) : (cellLetters line).flatten.Sublist line :=
  (rowCells_sublist false false (rowOf line)).trans (rowOf_sublist line)

/-! ## Classes of letters -/

theorem not_isSpace_of_isDigit {d : CodeUnit} (h : isDigit d) : isSpace d = false := by
  rw [← Bool.not_eq_true]
  intro hspace
  simp only [isDigit, Bool.and_eq_true, decide_eq_true_eq, UInt16.le_iff_toNat_le] at h
  simp only [isSpace, Bool.or_eq_true, Bool.and_eq_true, decide_eq_true_eq, beq_iff_eq,
    UInt16.le_iff_toNat_le, ← UInt16.toNat_inj] at hspace
  have hzero : (unit '0').toNat = 48 := rfl
  have hnine : (unit '9').toNat = 57 := rfl
  simp at hspace
  omega

theorem eq_of_is {c : Char} {d : CodeUnit} (h : is c d) : d = unit c := by
  simpa [is] using h

/-- A class holds what each of its letters does. -/
theorem of_among {s : String} {d : CodeUnit} (p : CodeUnit → Bool) (h : among s d)
    (hall : (s.toList.all fun c => p (unit c)) = true) : p d = true := by
  obtain ⟨c, hc, rfl⟩ : ∃ c ∈ s.toList, unit c = d := by simpa [among, units] using h
  exact List.all_eq_true.mp hall c hc

/-! ## What the patterns capture -/

section Captures

variable {line : Text} {found : Match CodeUnit}

/-- **A quote is captured behind its marker.** -/
theorem quote_exec (h : quote.exec line = some found) :
    (found.group 1).getD [] = quoteLetters line := by
  obtain ⟨a, ha, u, hu, rfl⟩ := exec_seq h
  obtain ⟨front, back, rfl, hfront, -, -, rfl⟩ := mem_ways_many.mp ha
  obtain ⟨b, hb, v, hv, rfl⟩ := exec_seq hu
  obtain ⟨c, rest, rfl, hc, rfl⟩ := mem_ways_one.mp hb
  have hmarker : ¬ isSpace c = true := by
    rw [eq_of_is hc]
    decide
  rw [quoteLetters, Words.dropWhile_append_cons hfront hmarker, List.drop_one, List.tail_cons]
  rw [seqs_cons] at hv
  cases rest with
  | nil =>
    obtain ⟨e, he, w, hw, rfl⟩ := exec_seq hv
    obtain ⟨blank, rest, hcut, -, -, -, rfl⟩ := mem_ways_many.mp he
    obtain ⟨rfl, rfl⟩ := List.append_eq_nil_iff.mp hcut.symm
    obtain ⟨-, rfl⟩ := exec_rest.mp hw
    simp
  | cons d more =>
    dsimp only at hv
    rw [exec_optional] at hv
    split at hv
    · rename_i htaken
      obtain ⟨w, hw, rfl⟩ := Option.map_eq_some_iff.mp hv
      obtain ⟨-, rfl⟩ := exec_rest.mp hw
      simp [htaken.1]
    · rename_i hkept
      obtain ⟨w, hw, rfl⟩ := Option.map_eq_some_iff.mp hv
      obtain ⟨hall, rfl⟩ := exec_rest.mp hw
      -- the rest of the line could be read without its blank, too
      have hmore : (seqs [group 1 (star dot), stop]).test more = true := by
        rw [test, exec_rest.mpr ⟨fun x hx => hall x (List.mem_cons_of_mem d hx), rfl⟩]
        rfl
      have hd : ¬ isSpace d = true := fun hd => hkept ⟨hd, hmore⟩
      simp [hd]

/-- A bullet, or a number and the letter that ends it. -/
def bullet : Pattern CodeUnit := alts [one (among "-*+"), seqs [plus isDigit, one (among ".)")]]

/-- What is left of a line behind its bullet. -/
theorem mem_bullet {front back : Text} (hfront : ∀ d ∈ front, isSpace d)
    (h : found ∈ bullet.ways back) :
    found.groups = [] ∧ itemLetters (front ++ back) = found.rest := by
  rcases mem_ways_alt.mp h with hsign | hother
  · obtain ⟨c, rest, rfl, hc, rfl⟩ := mem_ways_one.mp hsign
    have hclass : (!isSpace c && !isDigit c) = true :=
      of_among (fun c => !isSpace c && !isDigit c) hc (by decide)
    rw [Bool.and_eq_true, Bool.not_eq_true', Bool.not_eq_true'] at hclass
    have hspace : ¬ isSpace c = true := by simp [hclass.1]
    rw [itemLetters, Words.dropWhile_append_cons hfront hspace]
    simp [hclass.2]
  · rcases mem_ways_alt.mp hother with hnumber | hnone
    · obtain ⟨a, ha, b, hb, rfl⟩ := mem_ways_seq.mp hnumber
      obtain ⟨digits, rest, rfl, hdigits, hleast, -, rfl⟩ := mem_ways_many.mp ha
      obtain ⟨d, rest, rfl, hd, rfl⟩ := mem_ways_one.mp hb
      obtain ⟨c, digits, rfl⟩ := List.exists_cons_of_length_pos hleast
      have hc : isDigit c = true := hdigits c List.mem_cons_self
      have hspace : ¬ isSpace c = true := by simp [not_isSpace_of_isDigit hc]
      have hend : ¬ isDigit d = true := by
        have hclass : (!isDigit d) = true := of_among (fun d => !isDigit d) hd (by decide)
        simpa using hclass
      rw [itemLetters, List.cons_append, Words.dropWhile_append_cons hfront hspace]
      simp only [hc, if_true]
      rw [Words.dropWhile_append_cons (fun x hx => hdigits x (List.mem_cons_of_mem c hx)) hend]
      exact ⟨rfl, rfl⟩
    · obtain ⟨c, rest, rfl, hc, rfl⟩ := mem_ways_one.mp hnone
      exact absurd hc (by simp)

/-- **An item is captured behind its marker.** -/
theorem item_exec (h : item.exec line = some found) :
    ink ((found.group 2).getD []) = ink (itemLetters line) := by
  obtain ⟨a, ha, u, hu, rfl⟩ := exec_seq h
  obtain ⟨a, hindent, rfl⟩ := mem_ways_group.mp ha
  obtain ⟨front, back, rfl, hfront, -, -, rfl⟩ := mem_ways_many.mp hindent
  obtain ⟨b, hb, v, hv, rfl⟩ := exec_seq hu
  obtain ⟨c, hc, w, hw, rfl⟩ := exec_seq hv
  obtain ⟨blank, text, htext, hblank, -, -, rfl⟩ := mem_ways_many.mp hc
  obtain ⟨-, rfl⟩ := exec_rest.mp hw
  obtain ⟨hgroups, hrest⟩ := mem_bullet hfront hb
  have hnumber : b.group 2 = none := by
    rw [Match.group, hgroups]
    rfl
  rw [hrest, htext, ink_append, ink_of_blank hblank]
  simp [hnumber, Match.group_ne]

/-- What may stand behind a heading. -/
def closing : Pattern CodeUnit := seqs [star isSpace, star (is '#'), star isSpace, stop]

theorem exec_closing {s : Text} (h : closing.exec s = some found) :
    ∃ x hashes y, s = x ++ (hashes ++ y) ∧ (∀ d ∈ x, isSpace d) ∧ (∀ d ∈ hashes, is '#' d) ∧
      ∀ d ∈ y, isSpace d := by
  obtain ⟨a, ha, u, hu, rfl⟩ := exec_seq h
  obtain ⟨x, back, rfl, hx, -, -, rfl⟩ := mem_ways_many.mp ha
  obtain ⟨b, hb, v, hv, rfl⟩ := exec_seq hu
  obtain ⟨hashes, back, rfl, hhashes, -, -, rfl⟩ := mem_ways_many.mp hb
  obtain ⟨c, hc, w, hw, rfl⟩ := exec_seq hv
  obtain ⟨y, back, rfl, hy, -, -, rfl⟩ := mem_ways_many.mp hc
  obtain ⟨rfl, rfl⟩ := mem_ways_stop.mp (mem_of_exec hw)
  exact ⟨x, hashes, y, by simp, hx, hhashes, hy⟩

theorem test_closing {x hashes y : Text} (hx : ∀ d ∈ x, isSpace d)
    (hhashes : ∀ d ∈ hashes, is '#' d) (hy : ∀ d ∈ y, isSpace d) :
    closing.test (x ++ (hashes ++ y)) = true := by
  have hx' : Match.mk x [] (hashes ++ y) ∈ (star isSpace).ways (x ++ (hashes ++ y)) :=
    mem_ways_many.mpr ⟨x, _, rfl, hx, by simp, by simp, rfl⟩
  have hhashes' : Match.mk hashes [] y ∈ (star (is '#')).ways (hashes ++ y) :=
    mem_ways_many.mpr ⟨hashes, _, rfl, hhashes, by simp, by simp, rfl⟩
  have hy' : Match.mk y [] [] ∈ (star isSpace).ways y :=
    mem_ways_many.mpr ⟨y, _, by simp, hy, by simp, by simp, rfl⟩
  have hstop : Match.mk [] [] [] ∈ (stop : Pattern CodeUnit).ways [] :=
    mem_ways_stop.mpr ⟨rfl, rfl⟩
  exact test_of_mem (mem_ways_seq.mpr ⟨_, hx', _, mem_ways_seq.mpr ⟨_, hhashes', _,
    mem_ways_seq.mpr ⟨_, hy', _, hstop, rfl⟩, rfl⟩, rfl⟩)

/-- A blank and what goes on like the end of a heading go on like it, too. -/
theorem not_isSpace_of_closing {c : CodeUnit} {x hashes y : Text} (hx : ∀ d ∈ x, isSpace d)
    (hhashes : ∀ d ∈ hashes, is '#' d) (hy : ∀ d ∈ y, isSpace d)
    (h : closing.test (c :: (x ++ (hashes ++ y))) = false) : ¬ isSpace c = true := by
  intro hc
  have hcx : ∀ d ∈ c :: x, isSpace d := List.forall_mem_cons.mpr ⟨hc, hx⟩
  rw [← List.cons_append, test_closing hcx hhashes hy] at h
  exact Bool.noConfusion h

/-- So do a hash and more of them. -/
theorem not_hash_of_closing {c : CodeUnit} {hashes y : Text}
    (hhashes : ∀ d ∈ hashes, is '#' d) (hy : ∀ d ∈ y, isSpace d)
    (h : closing.test (c :: (hashes ++ y)) = false) : ¬ is '#' c = true := by
  intro hc
  have hchashes : ∀ d ∈ c :: hashes, is '#' d := List.forall_mem_cons.mpr ⟨hc, hhashes⟩
  have htest := test_closing (x := []) (by simp) hchashes hy
  rw [List.nil_append, List.cons_append, h] at htest
  exact Bool.noConfusion htest

theorem not_hash_of_isSpace {d : CodeUnit} (h : isSpace d) : ¬ is '#' d = true := by
  intro hd
  rw [eq_of_is hd] at h
  exact absurd h (by decide)

/-- What is dropped behind a heading is what was read behind it. -/
theorem ink_dropped {blank text x hashes y : Text} (hne : blank ≠ [])
    (hblank : ∀ d ∈ blank, isSpace d) (hx : ∀ d ∈ x, isSpace d) (hhashes : ∀ d ∈ hashes, is '#' d)
    (hy : ∀ d ∈ y, isSpace d)
    (hshort : ∀ early c, text = early ++ [c] → closing.test (c :: (x ++ (hashes ++ y))) = false) :
    ink (((blank ++ (text ++ (x ++ (hashes ++ y)))).rdropWhile isSpace).rdropWhile (is '#')) =
      ink text := by
  rcases List.eq_nil_or_concat' hashes with rfl | ⟨hashes, g, rfl⟩
  · have hback : ∀ d ∈ x ++ ([] ++ y), isSpace d := by
      intro d hd
      rcases List.mem_append.mp hd with hd | hd
      · exact hx d hd
      · exact hy d hd
    rw [← List.append_assoc, Words.rdropWhile_append_of_pos hback]
    rcases List.eq_nil_or_concat' text with rfl | ⟨early, c, rfl⟩
    · rw [List.append_nil, List.rdropWhile_eq_nil_iff.mpr hblank]
      rfl
    · have htest := hshort early c rfl
      have hspace := not_isSpace_of_closing hx hhashes hy htest
      have hnone : ∀ d ∈ ([] : Text), is '#' d := fun d hd => absurd hd List.not_mem_nil
      have hhash := not_hash_of_closing hnone hback htest
      rw [← List.append_assoc, List.rdropWhile_concat_neg _ _ _ hspace,
        List.rdropWhile_concat_neg _ _ _ hhash]
      simp [ink_of_blank hblank]
  · have hcut : blank ++ (text ++ (x ++ (hashes ++ [g] ++ y))) =
        blank ++ (text ++ x) ++ hashes ++ [g] ++ y := by
      simp only [List.append_assoc]
    have hg : ¬ isSpace g = true := by
      intro hspace
      exact not_hash_of_isSpace hspace (hhashes g (by simp))
    rw [hcut, Words.rdropWhile_append_of_pos hy, List.rdropWhile_concat_neg _ _ _ hg,
      List.append_assoc _ hashes, Words.rdropWhile_append_of_pos hhashes]
    -- in front of the closing hashes stands a letter that is none
    have hlast : ∃ front d, blank ++ (text ++ x) = front ++ [d] ∧ ¬ is '#' d = true := by
      rcases List.eq_nil_or_concat' x with rfl | ⟨front, d, rfl⟩
      · rcases List.eq_nil_or_concat' text with rfl | ⟨early, c, rfl⟩
        · obtain ⟨front, d, rfl⟩ := (List.eq_nil_or_concat' blank).resolve_left hne
          exact ⟨front, d, by simp, not_hash_of_isSpace (hblank d (by simp))⟩
        · refine ⟨blank ++ early, c, by simp, ?_⟩
          exact not_hash_of_closing hhashes hy (hshort early c rfl)
      · exact ⟨blank ++ (text ++ front), d, by simp, not_hash_of_isSpace (hx d (by simp))⟩
    obtain ⟨front, d, hfront, hd⟩ := hlast
    rw [hfront, List.rdropWhile_concat_neg _ _ _ hd, ← hfront, ink_append, ink_append,
      ink_of_blank hblank, ink_of_blank hx]
    simp

/-- **A heading is captured** between its hashes. -/
theorem heading_exec (h : heading.exec line = some found) :
    ink ((found.group 2).getD []) = ink (headingLetters line) := by
  obtain ⟨a, ha, u, hu, rfl⟩ := exec_seq h
  obtain ⟨front, back, rfl, hfront, -, -, rfl⟩ := mem_ways_many.mp ha
  obtain ⟨b, hb, v, hv, rfl⟩ := exec_seq hu
  obtain ⟨b, hopening, rfl⟩ := mem_ways_group.mp hb
  obtain ⟨opening, back, rfl, hopen, hleast, -, rfl⟩ := mem_ways_many.mp hopening
  obtain ⟨c, hc, w, hw, rfl⟩ := exec_seq hv
  obtain ⟨blank, back, rfl, hblank, hone, -, rfl⟩ := mem_ways_many.mp hc
  obtain ⟨text, back, z, rfl, -, hz, rfl, hshort⟩ := exec_lazy hw
  obtain ⟨x, hashes, y, rfl, hx, hhashes, hy⟩ := exec_closing hz
  obtain ⟨g, opening, rfl⟩ := List.exists_cons_of_length_pos hleast
  obtain ⟨s, blank, rfl⟩ := List.exists_cons_of_length_pos hone
  have hg : ¬ isSpace g = true := by
    intro hspace
    exact not_hash_of_isSpace hspace (hopen g List.mem_cons_self)
  have hs : ¬ is '#' s = true := not_hash_of_isSpace (hblank s List.mem_cons_self)
  have hopened : ∀ rest, ((front ++ (g :: opening ++ (s :: blank ++ rest))).dropWhile
      isSpace).dropWhile (is '#') = s :: blank ++ rest := by
    intro rest
    rw [List.cons_append, Words.dropWhile_append_cons hfront hg]
    exact Words.dropWhile_append_cons hopen hs _
  rw [headingLetters, hopened, ink_dropped (List.cons_ne_nil s blank) hblank hx hhashes hy]
  · simp [Match.group_ne]
  · intro early c htext
    exact hshort early [c] htext (List.cons_ne_nil c [])

/-- The letters of an alert's word, in either case, are its letters in lower case. -/
theorem lower_of_caseless (kind : AlertKind) :
    ∀ c ∈ kind.word.toList, ∀ d, (is c.toLower d || is c.toUpper d) = true →
      toLowerCase d = unit c := by
  have hall : (kind.word.toList.all fun c => toLowerCase (unit c.toLower) == unit c &&
      toLowerCase (unit c.toUpper) == unit c) = true := by
    cases kind <;> decide
  intro c hc d hd
  have hboth := List.all_eq_true.mp hall c hc
  rw [Bool.and_eq_true, beq_iff_eq, beq_iff_eq] at hboth
  rcases Bool.or_eq_true_iff.mp hd with hd | hd
  · rw [eq_of_is hd, hboth.1]
  · rw [eq_of_is hd, hboth.2]

theorem letters_of_caseless {s : String} {t : Text} (h : found ∈ (caseless s).ways t) :
    found.groups = [] ∧
      List.Forall₂ (fun c d => (is c.toLower d || is c.toUpper d) = true) s.toList found.text := by
  have hletters : caseless s = seqs ((s.toList.map fun c d =>
      is c.toLower d || is c.toUpper d).map one) := by
    rw [List.map_map]
    rfl
  rw [hletters] at h
  obtain ⟨hgroups, htext⟩ := letters_of_mem h
  exact ⟨hgroups, List.forall₂_map_left_iff.mp htext⟩

theorem map_lower_of_mem {kind : AlertKind} {t : Text} (h : found ∈ (caseless kind.word).ways t) :
    found.text.map toLowerCase = units kind.word := by
  have hread := (letters_of_caseless h).2
  have hlower := lower_of_caseless kind
  rw [units]
  generalize kind.word.toList = letters at hread hlower
  generalize found.text = text at hread
  induction hread with
  | nil => rfl
  | cons hd _ ih =>
    rw [List.map_cons, List.map_cons, hlower _ List.mem_cons_self _ hd,
      ih fun c hc => hlower c (List.mem_cons_of_mem _ hc)]

/-- **A marker that is read names an alert.** -/
theorem alertIn_isSome (first : Text) : (alertIn first).isSome = alertMarker.test first := by
  rw [alertIn, test]
  cases h : alertMarker.exec first with
  | none => rfl
  | some found =>
    obtain ⟨a, ha, u, hu, rfl⟩ := exec_seq h
    obtain ⟨b, hb, v, hv, rfl⟩ := exec_seq hu
    obtain ⟨b, hword, rfl⟩ := mem_ways_group.mp hb
    obtain ⟨p, hp, hread⟩ := mem_ways_alts.mp hword
    obtain ⟨kind, hkind, rfl⟩ := List.mem_map.mp hp
    have hopening : a.group 1 = none := by
      have hbracket : word (units "[!") =
          seqs (((units "[!").map fun x d => decide (d = x)).map one) := by
        rw [List.map_map]
        rfl
      rw [hbracket] at ha
      rw [Match.group, (letters_of_mem ha).1]
      rfl
    have hletters := map_lower_of_mem hread
    have hgroups := (letters_of_caseless hread).1
    have hfound : ((a.andThen (Match.andThen
        { b with groups := b.groups ++ [(1, b.text)] } v)).group 1).getD [] = b.text := by
      simp [hopening, hgroups]
    rw [Option.bind_some, hfound, Option.isSome_some, List.find?_isSome]
    exact ⟨kind, hkind, by simpa using hletters⟩

end Captures

/-! ## The cells of a row -/

theorem not_backtick_of_pipe {c : CodeUnit} (h : c = unit '|') : ¬ c = unit '\x60' := by
  rw [h]
  decide

/-- **The loop over a row** trims its cells, with what it has read of the first one. -/
theorem cellsFrom_eq (text : Text) (index : Nat) (cell : Text) (code : Bool) (cells : List Text) :
    cellsFrom text index cell code cells =
      cells ++ ((rowCells false code (text.drop index)).modifyHead (cell ++ ·)).map trim := by
  fun_induction cellsFrom text index cell code cells with
  | case1 index cell code cells h char hescape ih =>
    obtain ⟨hnext, hpipe⟩ := List.getElem?_eq_some_iff.mp hescape.2
    have hnot := not_backtick_of_pipe rfl
    rw [ih, List.drop_eq_getElem_cons h, List.drop_eq_getElem_cons hnext, hpipe, rowCells,
      if_pos ⟨rfl, hescape.1, rfl⟩, rowCells]
    simp [List.modifyHead_modifyHead, Function.comp_def, hnot]
  | case2 index cell code cells h char hescape code' hpipe ih =>
    have hcode : code' = code := if_neg (not_backtick_of_pipe hpipe.1)
    have hempty : ∀ xs : List Text, xs.modifyHead ([] ++ ·) = xs := by
      intro xs
      cases xs <;> rfl
    rw [ih, hempty, hpipe.2, List.drop_eq_getElem_cons h, rowCells, List.head?_drop,
      if_neg fun hnow => hescape hnow.2, if_pos ⟨hpipe.1, rfl, hcode.symm.trans hpipe.2⟩]
    simp
  | case3 index cell code cells h char hescape code' hpipe ih =>
    have hinside : ¬ (text[index] = unit '|' ∧ false = false ∧ code = false) := by
      rintro ⟨hchar, -, hcode⟩
      have hsame : code' = code := if_neg (not_backtick_of_pipe hchar)
      exact hpipe ⟨hchar, hsame.trans hcode⟩
    rw [ih, List.drop_eq_getElem_cons h, rowCells, List.head?_drop,
      if_neg fun hnow => hescape hnow.2, if_neg hinside]
    simp [List.modifyHead_modifyHead, Function.comp_def]
    rfl
  | case4 index cell code cells h =>
    rw [List.drop_eq_nil_of_le (Nat.le_of_not_lt h)]
    simp [rowCells]

/-- **The cells of a row**, trimmed. -/
theorem cellsOf_eq (line : Text) : cellsOf line = (cellLetters line).map trim := by
  rw [cellsOf, cellsFrom_eq, List.drop_zero, List.nil_append, cellLetters]
  obtain ⟨cell, cells, hcells⟩ :=
    List.exists_cons_of_ne_nil (rowCells_ne_nil false false (rowOf line))
  rw [hcells]
  rfl

end MqStudio.Markdown
