import Mathlib.Data.List.Flatten
import MqStudio.Lib.Spans
import MqStudio.Markdown.Letters

/-!
# Rendering Markdown Loses No Words

The walk of `parseBlocks` takes the lines of a source in rounds. Every line is taken by one round,
in order, and what a round pushes shows the letters of its lines that are not markup. A row of a
table that is wider than its header is shown as far as the header goes.

## Main definitions

- `rounds`: the lines each round of the walk takes.
- `letters`, `lettersWithin`: what is to be read of them, and what of it stands under a header.
- `Renders`: nothing that is to be read is lost.

## Main results

- `lettersBy_sublist`: what is to be read are letters of the lines, in order.
- `flatten_rounds`: the rounds take every line once, and in order.
- `ink_next`: a round shows the letters of its lines.
- `renders_within`: nothing is lost but cells beyond the width of a header, and when not even they.
-/

namespace MqStudio.Markdown

open MqStudio.Lib
open MqStudio.Lib.Pattern
open MqStudio.Lib.Spans

/-! ## What is shown -/

/-- The texts of a block, in the order in which they are drawn. -/
def Block.texts : Block → List Text
  | heading text => [text]
  | paragraph text => [text]
  | list _ items => items.map ListItem.text
  | quote _ text => [text]
  | code text => [text]
  | table header _ rows => header ++ rows.flatten
  | rule => []

/-- The texts of some blocks. -/
def textsOf (blocks : List Block) : List Text := blocks.flatMap Block.texts

/-- What a walk has to show. -/
def Walk.texts (w : Walk) : List Text := textsOf w.blocks ++ w.paragraph

/-! ## What is to be read -/

/-- A line of a list: an item behind its marker, or all of a line that goes on one. -/
def listLetters (line : Text) : Text := if item.test line then itemLetters line else line

/-- A line of a paragraph, or a table: its header, its delimiters, and its rows. Of the cells of a
    row stands what `row` leaves of them under a header of so many columns. -/
def tableLetters (row : Nat → List Text → List Text) (line : Text) : List Text → Text
  | [] => line
  | _ :: rows =>
    let header := cellLetters line
    header.flatten ++ rows.flatMap fun one => (row header.length (cellLetters one)).flatten

/-- What is to be read of the lines one round takes. -/
def lettersBy (row : Nat → List Text → List Text) : List Text → Text
  | [] => []
  | line :: rest =>
    if fence.test line then (rest.filter fun one => !fence.test one).flatten
    else if trim line = [] then []
    else if rule.test line then []
    else if heading.test line then headingLetters line
    else if quote.test line then
      if alertMarker.test (quoteLetters line) then rest.flatMap quoteLetters
      else (line :: rest).flatMap quoteLetters
    else if item.test line then (line :: rest).flatMap listLetters
    else tableLetters row line rest

section Letters

variable {row : Nat → List Text → List Text}

theorem tableLetters_sublist (hrow : ∀ n cells, (row n cells).flatten.Sublist cells.flatten)
    (line : Text) (rest : List Text) :
    (tableLetters row line rest).Sublist (line ++ rest.flatten) := by
  cases rest with
  | nil => simp [tableLetters]
  | cons delimiters rows =>
    have hrows : (rows.flatMap fun one =>
        (row (cellLetters line).length (cellLetters one)).flatten).Sublist rows.flatten := by
      rw [← List.flatMap_id]
      exact List.Sublist.flatMap_right rows fun one _ => (hrow _ _).trans (cellLetters_sublist one)
    rw [List.flatten_cons]
    exact (cellLetters_sublist line).append
      (hrows.trans (List.sublist_append_right delimiters rows.flatten))

theorem listLetters_sublist (line : Text) : (listLetters line).Sublist line := by
  unfold listLetters
  split
  · exact itemLetters_sublist line
  · exact List.Sublist.refl line

/-- **What is to be read of some lines** are letters of theirs, in order. -/
theorem lettersBy_sublist (hrow : ∀ n cells, (row n cells).flatten.Sublist cells.flatten)
    (taken : List Text) : (lettersBy row taken).Sublist taken.flatten := by
  have hread : ∀ {f : Text → Text}, (∀ one, (f one).Sublist one) → ∀ xs : List Text,
      (xs.flatMap f).Sublist xs.flatten := by
    intro f hf xs
    rw [← List.flatMap_id]
    exact List.Sublist.flatMap_right xs fun one _ => hf one
  cases taken with
  | nil => exact List.Sublist.refl []
  | cons line rest =>
    have hline : line.Sublist (line :: rest).flatten := List.sublist_append_left line rest.flatten
    have hrest : rest.flatten.Sublist (line :: rest).flatten :=
      List.sublist_append_right line rest.flatten
    rw [lettersBy]
    split
    · exact List.filter_sublist.flatten.trans hrest
    · split
      · exact List.nil_sublist _
      · split
        · exact List.nil_sublist _
        · split
          · exact (headingLetters_sublist line).trans hline
          · split
            · split
              · exact (hread quoteLetters_sublist rest).trans hrest
              · exact hread quoteLetters_sublist (line :: rest)
            · split
              · exact hread listLetters_sublist (line :: rest)
              · exact tableLetters_sublist hrow line rest

end Letters

/-- All that is not markup. -/
def letters (taken : List Text) : Text := lettersBy (fun _ cells => cells) taken

/-- The same, of a row no more than its header is wide. -/
def lettersWithin (taken : List Text) : Text := lettersBy List.take taken

/-! ## The lines a loop takes -/

section Loops

variable {lines : List Text} {i : Nat}

theorem lt_of_mem_lineAt {d : CodeUnit} (h : d ∈ lineAt lines i) : i < lines.length := by
  by_contra hout
  rw [lineAt, List.getElem?_eq_none (Nat.le_of_not_lt hout)] at h
  exact absurd h List.not_mem_nil

/-- A line, and those behind it. -/
theorem span_lineAt {j : Nat} (hij : i < j) (hi : i < lines.length) :
    span lines i j = lineAt lines i :: span lines (i + 1) j := by
  have hline : lineAt lines i = lines[i] := by simp [lineAt, hi]
  rw [hline, span_cons hij hi]

/-- A fence takes the lines up to the next one. -/
theorem fenced_eq (h : i ≤ lines.length) (body : List Text) :
    (fenced lines i body).1 ≤ lines.length ∧
      (fenced lines i body).2 = body ++ span lines i (fenced lines i body).1 ∧
      (∀ line ∈ span lines i (fenced lines i body).1, fence.test line = false) ∧
      ((fenced lines i body).1 < lines.length →
        fence.test (lineAt lines (fenced lines i body).1) = true) := by
  fun_induction fenced lines i body with
  | case1 i body hline ih =>
    obtain ⟨hle, hbody, hnone, hend⟩ := ih hline.1
    have hfence : fence.test (lineAt lines i) = false := by simpa using hline.2
    rw [span_lineAt (le_fenced lines (i + 1) _) hline.1]
    refine ⟨hle, ?_, List.forall_mem_cons.mpr ⟨hfence, hnone⟩, hend⟩
    rw [hbody]
    simp
  | case2 i body hline =>
    refine ⟨h, by simp, by simp, ?_⟩
    intro hi
    simpa [hi] using hline

/-- A quote takes its lines behind their markers. -/
theorem quotedFrom_eq (h : i ≤ lines.length) (quoted : List Text) :
    (quotedFrom lines i quoted).1 ≤ lines.length ∧
      (quotedFrom lines i quoted).2 =
        quoted ++ (span lines i (quotedFrom lines i quoted).1).map quoteLetters := by
  fun_induction quotedFrom lines i quoted with
  | case1 i quoted _ _ => exact ⟨h, by simp⟩
  | case2 i quoted hi inner hinner ih =>
    obtain ⟨hle, hquoted⟩ := ih hi
    refine ⟨hle, ?_⟩
    rw [hquoted, span_lineAt (le_quotedFrom lines (i + 1) _) hi, List.map_cons, quote_exec hinner]
    simp
  | case3 i quoted _ => exact ⟨h, by simp⟩

/-- A list shows its lines behind their markers. -/
theorem itemsFrom_eq (h : i ≤ lines.length) (items : List ListItem) :
    (itemsFrom lines i items).1 ≤ lines.length ∧
      ink ((itemsFrom lines i items).2.map ListItem.text).flatten =
        ink (items.map ListItem.text).flatten ++
          ink ((span lines i (itemsFrom lines i items).1).flatMap listLetters) := by
  fun_induction itemsFrom lines i items with
  | case1 i items hi next hnext depth ih =>
    obtain ⟨hle, hitems⟩ := ih hi
    refine ⟨hle, ?_⟩
    have hitem : listLetters (lineAt lines i) = itemLetters (lineAt lines i) := by
      rw [listLetters, test, hnext]
      rfl
    rw [hitems, span_lineAt (le_itemsFrom lines (i + 1) _) hi, List.flatMap_cons, hitem]
    simp [item_exec hnext]
  | case2 i items _ _ _ => exact ⟨h, by simp⟩
  | case3 i items hi hnone last hlast _ text ih =>
    obtain ⟨hle, hitems⟩ := ih hi
    refine ⟨hle, ?_⟩
    have hline : listLetters (lineAt lines i) = lineAt lines i := by
      rw [listLetters, test, hnone]
      rfl
    have htext : ink text = ink last.text ++ ink (lineAt lines i) := by
      show ink (joinLines [last.text, trim (lineAt lines i)]) = _
      rw [ink_joinLines]
      simp
    have hcut : items = items.dropLast ++ [last] := (List.dropLast_append_getLast? last hlast).symm
    rw [hitems, span_lineAt (le_itemsFrom lines (i + 1) _) hi, List.flatMap_cons, hline]
    conv_rhs => rw [hcut]
    simp [htext]
  | case4 i items _ _ last _ _ => exact ⟨h, by simp⟩
  | case5 i items _ => exact ⟨h, by simp⟩

/-- A table takes its rows. -/
theorem rowsFrom_eq (header : List Text) (h : i ≤ lines.length) (rows : List (List Text)) :
    (rowsFrom lines header i rows).1 ≤ lines.length ∧
      (rowsFrom lines header i rows).2 =
        rows ++ (span lines i (rowsFrom lines header i rows).1).map (rowAt header) := by
  fun_induction rowsFrom lines header i rows with
  | case1 i rows hline ih =>
    obtain ⟨hle, hrows⟩ := ih hline.1
    refine ⟨hle, ?_⟩
    rw [hrows, span_lineAt (le_rowsFrom lines header (i + 1) _) hline.1, List.map_cons]
    simp
  | case2 i rows _ => exact ⟨h, by simp⟩

/-- As many places of a list as are asked for hold its first elements, and nothing behind them. -/
theorem flatten_places (xs : List Text) (n : Nat) :
    ((List.range n).map fun k => xs[k]?.getD []).flatten = (xs.take n).flatten := by
  induction n with
  | zero => simp
  | succ n ih =>
    rw [List.range_succ, List.map_append, List.flatten_append, ih, List.take_add_one]
    cases hn : xs[n]? <;> simp [hn]

/-- A row shows its cells as far as the header goes. -/
theorem ink_rowAt (header : List Text) (line : Text) :
    ink (rowAt header line).flatten = ink ((cellLetters line).take header.length).flatten := by
  rw [rowAt, flatten_places, cellsOf_eq, ← List.map_take]
  exact ink_flatten_map ink_trim _

theorem ink_rows (header rows : List Text) :
    ink (rows.map (rowAt header)).flatten.flatten =
      ink (rows.flatMap fun one => ((cellLetters one).take header.length).flatten) := by
  induction rows with
  | nil => rfl
  | cons line rows ih =>
    rw [List.map_cons, List.flatten_cons, ink_flatten_append, ih, ink_rowAt, List.flatMap_cons,
      ink_append]

/-- A line of delimiters has a dash. -/
theorem mem_of_delimiterOf {line : Text} {columns : Nat} {align : List (Option Align)}
    (h : delimiterOf line columns = some align) : unit '-' ∈ line := by
  by_contra hno
  rw [delimiterOf, if_pos hno] at h
  cases h

end Loops

/-! ## What the blocks of a round show -/

section Blocks

variable {lines : List Text} {i : Nat}

theorem shown_fence (hi : i < lines.length) (hfence : fence.test (lineAt lines i) = true) :
    ink ((units "\n").intercalate (fenced lines (i + 1) []).2) =
      ink (lettersWithin (span lines i ((fenced lines (i + 1) []).1 + 1))) := by
  obtain ⟨hle, hbody, hnone, hend⟩ := fenced_eq (Nat.succ_le_of_lt hi) []
  have hlt := le_fenced lines (i + 1) []
  generalize fenced lines (i + 1) [] = taken at hle hbody hnone hend hlt
  obtain ⟨j, body⟩ := taken
  dsimp only at hle hbody hnone hend hlt ⊢
  have hkept : (span lines (i + 1) j).filter (fun one => !fence.test one) =
      span lines (i + 1) j := by
    rw [List.filter_eq_self]
    intro line hline
    simp [hnone line hline]
  -- behind the lines of the fence stands another fence, or nothing
  have hrest : (span lines (i + 1) (j + 1)).filter (fun one => !fence.test one) =
      span lines (i + 1) j := by
    rcases Nat.lt_or_ge j lines.length with hj | hj
    · have hclosing : span lines j (j + 1) = [lineAt lines j] := by
        rw [span_lineAt (Nat.lt_succ_self j) hj, span_self]
      rw [← span_append lines hlt (Nat.le_succ j), hclosing, List.filter_append, hkept]
      simp [hend hj]
    · have hsame : span lines (i + 1) (j + 1) = span lines (i + 1) j := by
        rw [span_of_length_le hj, span_of_length_le (hj.trans (Nat.le_succ j))]
      rw [hsame, hkept]
  rw [span_lineAt (by omega) hi, lettersWithin, lettersBy, if_pos hfence, hrest,
    ink_intercalate (by decide), hbody, List.nil_append]

/-- Of a line that is plain, its marker says what is to be read. -/
theorem lettersBy_plain {row : Nat → List Text → List Text} {line : Text} {rest : List Text}
    (hplain : Plain line) :
    lettersBy row (line :: rest) =
      if quote.test line then
        if alertMarker.test (quoteLetters line) then rest.flatMap quoteLetters
        else (line :: rest).flatMap quoteLetters
      else if item.test line then (line :: rest).flatMap listLetters
      else tableLetters row line rest := by
  have hheading : heading.test line = false := by
    rw [test, hplain.heading]
    rfl
  rw [lettersBy]
  simp only [hplain.fence, hplain.blank, hplain.rule, hheading, Bool.false_eq_true, if_false]

theorem ink_quoteOf (quoted : List Text) :
    ink (quoteOf quoted).texts.flatten =
      ink (if alertIn (quoted.headD []) = none then quoted else quoted.drop 1).flatten := by
  show ink [joinLines _].flatten = _
  rw [List.flatten_singleton, ink_joinLines, ink_filter]

theorem shown_quote (hi : i < lines.length) (hplain : Plain (lineAt lines i))
    (hquote : quote.test (lineAt lines i) = true) :
    ink (quoteOf (quotedFrom lines i []).2).texts.flatten =
      ink (lettersWithin (span lines i (quotedFrom lines i []).1)) := by
  obtain ⟨-, hquoted⟩ := quotedFrom_eq (Nat.le_of_lt hi) []
  rw [span_lineAt (lt_quotedFrom hi hquote) hi] at hquoted ⊢
  rw [hquoted, List.nil_append, List.map_cons, lettersWithin, lettersBy_plain hplain, if_pos hquote,
    ink_quoteOf, List.headD_cons, ← alertIn_isSome]
  cases alertIn (quoteLetters (lineAt lines i)) with
  | none => simp [List.flatMap_def]
  | some kind => simp [List.flatMap_def]

theorem shown_list (hi : i < lines.length) (hplain : Plain (lineAt lines i))
    (hquote : quote.test (lineAt lines i) = false) (hitem : item.test (lineAt lines i) = true) :
    ink ((itemsFrom lines i []).2.map ListItem.text).flatten =
      ink (lettersWithin (span lines i (itemsFrom lines i []).1)) := by
  obtain ⟨-, hitems⟩ := itemsFrom_eq (Nat.le_of_lt hi) []
  rw [hitems, span_lineAt (lt_itemsFrom hi hitem) hi, lettersWithin, lettersBy_plain hplain]
  simp [hquote, hitem]

theorem shown_table (hi : i < lines.length) (hplain : Plain (lineAt lines i))
    (hquote : quote.test (lineAt lines i) = false) (hitem : item.test (lineAt lines i) = false)
    {align : List (Option Align)}
    (halign : delimiterOf (lineAt lines (i + 1)) (cellsOf (lineAt lines i)).length = some align) :
    ink (cellsOf (lineAt lines i) ++
        (rowsFrom lines (cellsOf (lineAt lines i)) (i + 2) []).2.flatten).flatten =
      ink (lettersWithin
        (span lines i (rowsFrom lines (cellsOf (lineAt lines i)) (i + 2) []).1)) := by
  have hnext : i + 1 < lines.length := lt_of_mem_lineAt (mem_of_delimiterOf halign)
  obtain ⟨-, hrows⟩ := rowsFrom_eq (cellsOf (lineAt lines i)) (Nat.succ_le_of_lt hnext) []
  have hle := le_rowsFrom lines (cellsOf (lineAt lines i)) (i + 2) []
  have hcells : ink (cellsOf (lineAt lines i)).flatten =
      ink (cellLetters (lineAt lines i)).flatten := by
    rw [cellsOf_eq]
    exact ink_flatten_map ink_trim _
  have hcolumns : (cellsOf (lineAt lines i)).length = (cellLetters (lineAt lines i)).length := by
    rw [cellsOf_eq, List.length_map]
  rw [hrows, List.nil_append, ink_flatten_append, hcells, ink_rows, hcolumns,
    span_lineAt (Nat.lt_of_lt_of_le (Nat.lt_add_of_pos_right Nat.two_pos) hle) hi,
    span_lineAt hle hnext, lettersWithin, lettersBy_plain hplain]
  simp [tableLetters, hquote, hitem]

end Blocks

/-! ## Rounds -/

section Rounds

variable {lines : List Text} {w : Walk}

@[simp] theorem textsOf_append (bs cs : List Block) :
    textsOf (bs ++ cs) = textsOf bs ++ textsOf cs :=
  List.flatMap_append

/-- What was to be shown is to be shown when the paragraph is closed. -/
theorem ink_flush (w : Walk) : ink w.flush.texts.flatten = ink w.texts.flatten := by
  unfold Walk.flush
  split
  · rw [Walk.texts, Walk.texts, textsOf_append]
    simp [textsOf, Block.texts, ink_joinLines]
  · rename_i hnone
    have hparagraph : w.paragraph = [] := by simpa using hnone
    rw [Walk.texts, Walk.texts, hparagraph]

@[simp] theorem flush_paragraph (w : Walk) : w.flush.paragraph = [] := by
  unfold Walk.flush
  split <;> rfl

/-- A block behind the paragraph shows its texts behind it. -/
theorem ink_push (w : Walk) (block : Block) (index : Nat) :
    ink ((w.flush.push block).goto index).texts.flatten =
      ink w.texts.flatten ++ ink block.texts.flatten := by
  have htexts : ((w.flush.push block).goto index).texts = w.flush.texts ++ block.texts := by
    simp [Walk.goto, Walk.push, Walk.texts, textsOf]
  rw [htexts, ink_flatten_append, ink_flush]

/-- **A round shows the letters of its lines.** -/
theorem ink_next (h : w.index < lines.length) :
    ink (w.next lines).texts.flatten =
      ink w.texts.flatten ++ ink (lettersWithin (span lines w.index (w.next lines).index)) := by
  have hone : span lines w.index (w.index + 1) = [lineAt lines w.index] := by
    rw [span_lineAt (Nat.lt_succ_self _) h, span_self]
  have hround := Walk.round_cases lines w
  unfold Walk.next
  generalize w.round lines = v at hround ⊢
  cases hround with
  | fence hfence =>
    show ink ((w.flush.push _).goto _).texts.flatten = _
    rw [ink_push]
    simp [Block.texts, shown_fence h hfence]
  | blank hfence hblank =>
    show ink w.flush.texts.flatten = _
    rw [ink_flush, Walk.goto_index, Walk.flush_index, hone]
    simp [lettersWithin, lettersBy, hfence, hblank]
  | rule hfence hblank hrule =>
    show ink ((w.flush.push _).goto _).texts.flatten = _
    rw [ink_push, Walk.goto_index, Walk.push_index, Walk.flush_index, hone]
    simp [Block.texts, lettersWithin, lettersBy, hfence, hblank, hrule]
  | heading hfence hblank hrule hfound =>
    have hheading : heading.test (lineAt lines w.index) = true := by
      rw [test, hfound]
      rfl
    show ink ((w.flush.push _).goto _).texts.flatten = _
    rw [ink_push, Walk.goto_index, Walk.push_index, Walk.flush_index, hone]
    simp [Block.texts, lettersWithin, lettersBy, hfence, hblank, hrule, hheading,
      heading_exec hfound]
  | quote hplain hquote =>
    have hlt := lt_quotedFrom h hquote
    show ink ((w.flush.push _).goto _).texts.flatten = _
    rw [ink_push, Walk.goto_index, Walk.goto_index, Nat.sub_add_cancel (by omega),
      shown_quote h hplain hquote]
  | list hplain hquote hitem =>
    have hlt := lt_itemsFrom h hitem
    show ink ((w.flush.push _).goto _).texts.flatten = _
    rw [ink_push, Walk.goto_index, Walk.goto_index, Nat.sub_add_cancel (by omega),
      ← shown_list h hplain hquote hitem]
    rfl
  | table hplain hquote hitem halign =>
    have hle := le_rowsFrom lines (cellsOf (lineAt lines w.index)) (w.index + 2) []
    show ink ((w.flush.push _).goto _).texts.flatten = _
    rw [ink_push, Walk.goto_index, Walk.goto_index, Nat.sub_add_cancel (by omega),
      ← shown_table h hplain hquote hitem halign]
    rfl
  | paragraph hplain hquote hitem =>
    rw [Walk.goto_index, hone, lettersWithin, lettersBy_plain hplain]
    simp [Walk.goto, Walk.texts, tableLetters, hquote, hitem]

/-- The lines the rounds of a walk take. -/
def roundsFrom (lines : List Text) (w : Walk) : List (List Text) :=
  if w.index < lines.length then
    span lines w.index (w.next lines).index :: roundsFrom lines (w.next lines)
  else []
termination_by lines.length - w.index
decreasing_by
  rename_i h
  have := Walk.lt_next h
  omega

/-- **The rounds take every line once**, and in order. -/
theorem flatten_roundsFrom (lines : List Text) (w : Walk) :
    (roundsFrom lines w).flatten = lines.drop w.index := by
  fun_induction roundsFrom lines w with
  | case1 w h ih =>
    rw [List.flatten_cons, ih, span_append_drop lines (Nat.le_of_lt (Walk.lt_next h))]
  | case2 w h =>
    rw [List.drop_eq_nil_of_le (Nat.le_of_not_lt h)]
    rfl

/-- No round takes none. -/
theorem ne_nil_of_mem_roundsFrom {taken : List Text} (h : taken ∈ roundsFrom lines w) :
    taken ≠ [] := by
  fun_induction roundsFrom lines w with
  | case1 w hindex ih =>
    rcases List.mem_cons.mp h with rfl | h
    · rw [span_lineAt (Walk.lt_next hindex) hindex]
      exact List.cons_ne_nil _ _
    · exact ih h
  | case2 w _ => exact absurd h List.not_mem_nil

/-- **A walk shows the letters of its rounds.** -/
theorem ink_walk (lines : List Text) (w : Walk) :
    ink (walk lines w).texts.flatten =
      ink w.texts.flatten ++ ink ((roundsFrom lines w).flatMap lettersWithin) := by
  fun_induction roundsFrom lines w with
  | case1 w h ih =>
    rw [walk, if_pos h, ih, ink_next h, List.flatMap_cons, ink_append, List.append_assoc]
  | case2 w h =>
    rw [walk, if_neg h]
    simp

end Rounds

/-! ## A whole source -/

section Source

variable {source : Text}

theorem ink_newlines (source : Text) : ink (newlines source) = ink source := by
  have hreturn : isSpace (unit '\r') = true := by decide
  have hnewline : isSpace (unit '\n') = true := by decide
  have hsame : ∀ c : CodeUnit, ∀ rest : Text,
      ink ((if c = unit '\r' then unit '\n' else c) :: rest) = ink [c] ++ ink rest := by
    intro c rest
    split
    · rename_i hc
      simp [ink, hc, hreturn, hnewline]
    · rw [← ink_append]
      rfl
  fun_induction newlines source with
  | case1 => rfl
  | case2 c => rw [hsame, ink_nil, List.append_nil]
  | case3 c d rest hboth ih =>
    obtain ⟨rfl, rfl⟩ := hboth
    simpa [ink, hreturn, hnewline] using ih
  | case4 c d rest _ ih =>
    rw [hsame, ih, ← ink_append]
    rfl

/-- The lines of a source have all of its ink. -/
theorem ink_linesOf (source : Text) : ink (linesOf source).flatten = ink source := by
  have hnewline : ink [unit '\n'] = [] := by decide
  rw [linesOf, ← ink_intercalate hnewline, List.intercalate_splitOn, ink_newlines]

/-- The lines the rounds of `parseBlocks` take. -/
def rounds (source : Text) : List (List Text) := roundsFrom (linesOf source) .start

/-- **What is shown** is what is to be read, of rows as far as their headers go. -/
theorem ink_parseBlocks (source : Text) :
    ink (textsOf (parseBlocks source)).flatten = ink ((rounds source).flatMap lettersWithin) := by
  have hclosed : textsOf (parseBlocks source) = (walk (linesOf source) .start).flush.texts := by
    rw [Walk.texts, flush_paragraph, List.append_nil]
    rfl
  rw [hclosed, ink_flush, ink_walk]
  rfl

/-- The walk ends, after a round for each line at most, and takes every line once and in order; and
    what is to be read of its rounds, in the order of their lines, is shown by the blocks in that
    order. -/
structure Renders (letters : List Text → Text) (source : Text) : Prop where
  split : ink (linesOf source).flatten = ink source
  ends : (rounds source).length ≤ (linesOf source).length
  taken : (rounds source).flatten = linesOf source
  read : ∀ taken ∈ rounds source, (letters taken).Sublist taken.flatten
  shown : (ink ((rounds source).flatMap letters)).Sublist
    (ink (textsOf (parseBlocks source)).flatten)

theorem flatten_rounds (source : Text) : (rounds source).flatten = linesOf source :=
  flatten_roundsFrom (linesOf source) .start

theorem length_rounds_le (source : Text) : (rounds source).length ≤ (linesOf source).length := by
  rw [← flatten_rounds, List.length_flatten]
  have hone : ∀ taken ∈ rounds source, 1 ≤ taken.length := fun taken h =>
    List.length_pos_iff.mpr (ne_nil_of_mem_roundsFrom h)
  generalize rounds source = xs at hone ⊢
  induction xs with
  | nil => simp
  | cons x xs ih =>
    have hx := hone x List.mem_cons_self
    have hxs := ih fun taken h => hone taken (List.mem_cons_of_mem x h)
    rw [List.length_cons, List.map_cons, List.sum_cons]
    omega

theorem ink_flatMap (f : List Text → Text) (xs : List (List Text)) :
    ink (xs.flatMap f) = xs.flatMap fun x => ink (f x) := List.filter_flatMap

/-- No row of a table has ink beyond the width of its header. -/
def Fits : List Text → Prop
  | line :: _ :: rows =>
    Plain line → quote.test line = false → item.test line = false →
      ∀ one ∈ rows, ink ((cellLetters one).drop (cellLetters line).length).flatten = []
  | _ => True

/-- Where parts may leave something out, the whole is left if no part leaves anything out. -/
theorem sublist_flatMap_iff {β : Type} {f g : β → Text} (hleft : ∀ x, (g x).Sublist (f x))
    (xs : List β) : (xs.flatMap f).Sublist (xs.flatMap g) ↔ ∀ x ∈ xs, f x = g x := by
  induction xs with
  | nil => simp
  | cons x xs ih =>
    rw [List.flatMap_cons, List.flatMap_cons, List.forall_mem_cons, ← ih]
    constructor
    · intro h
      have hlength := h.length_le
      have hx := (hleft x).length_le
      have hxs := (List.Sublist.flatMap_right xs fun x _ => hleft x).length_le
      rw [List.length_append, List.length_append] at hlength
      have hsame := (hleft x).eq_of_length_le (by omega)
      have hrest := (List.Sublist.flatMap_right xs fun x _ => hleft x).eq_of_length_le (by omega)
      exact ⟨hsame.symm, hrest ▸ List.Sublist.refl _⟩
    · rintro ⟨hx, hxs⟩
      rw [hx]
      exact hxs.append_left (g x)

/-- What is to be read of a row, and what of it stands under a header of so many columns. -/
theorem ink_cells (columns : Nat) (line : Text) :
    ink (cellLetters line).flatten =
      ink ((cellLetters line).take columns).flatten ++
        ink ((cellLetters line).drop columns).flatten := by
  rw [← ink_append, ← List.flatten_append, List.take_append_drop]

/-- Any other line is read in one way. -/
theorem lettersBy_of_not_table {line : Text} {rest : List Text}
    (h : ¬ (Plain line ∧ quote.test line = false ∧ item.test line = false))
    (row row' : Nat → List Text → List Text) :
    lettersBy row (line :: rest) = lettersBy row' (line :: rest) := by
  rw [lettersBy, lettersBy]
  split
  · rfl
  · rename_i hfence
    split
    · rfl
    · rename_i hblank
      split
      · rfl
      · rename_i hrule
        split
        · rfl
        · rename_i hheading
          split
          · rfl
          · rename_i hquote
            split
            · rfl
            · rename_i hitem
              have hplain : Plain line :=
                ⟨by simpa using hfence, hblank, by simpa using hrule,
                  by simpa [test] using hheading⟩
              exact absurd ⟨hplain, by simpa using hquote, by simpa using hitem⟩ h

/-- Only of a table is anything left out. -/
theorem letters_cases (taken : List Text) :
    (letters taken = lettersWithin taken ∧ Fits taken) ∨
      ∃ line delimiters rows, taken = line :: delimiters :: rows ∧ Plain line ∧
        quote.test line = false ∧ item.test line = false := by
  cases taken with
  | nil => exact .inl ⟨rfl, trivial⟩
  | cons line rest =>
    by_cases htable : Plain line ∧ quote.test line = false ∧ item.test line = false
    · obtain ⟨hplain, hquote, hitem⟩ := htable
      cases rest with
      | nil =>
        left
        constructor
        · simp [letters, lettersWithin, lettersBy_plain hplain, tableLetters]
        · trivial
      | cons delimiters rows => exact .inr ⟨line, delimiters, rows, rfl, hplain, hquote, hitem⟩
    · left
      constructor
      · rw [letters, lettersWithin]
        exact lettersBy_of_not_table htable _ _
      · cases rest with
        | nil => trivial
        | cons delimiters rows =>
          intro hplain hquote hitem
          exact absurd ⟨hplain, hquote, hitem⟩ htable

/-- What a row shows is in what is to be read of it. -/
theorem row_sublist (columns : Nat) (line : Text) :
    (ink ((cellLetters line).take columns).flatten).Sublist (ink (cellLetters line).flatten) := by
  rw [ink_cells columns line]
  exact List.sublist_append_left _ _

theorem ink_table {line delimiters : Text} {rows : List Text} (hplain : Plain line)
    (hquote : quote.test line = false) (hitem : item.test line = false)
    (row : Nat → List Text → List Text) :
    ink (lettersBy row (line :: delimiters :: rows)) =
      ink (cellLetters line).flatten ++
        rows.flatMap fun one => ink (row (cellLetters line).length (cellLetters one)).flatten := by
  rw [lettersBy_plain hplain]
  simp [tableLetters, hquote, hitem, ink, List.filter_flatMap]

theorem lettersWithin_sublist (taken : List Text) :
    (ink (lettersWithin taken)).Sublist (ink (letters taken)) := by
  rcases letters_cases taken with
    ⟨hsame, -⟩ | ⟨line, delimiters, rows, rfl, hplain, hquote, hitem⟩
  · rw [hsame]
  · rw [letters, lettersWithin, ink_table hplain hquote hitem, ink_table hplain hquote hitem]
    exact (List.Sublist.flatMap_right rows fun one _ => row_sublist _ one).append_left _

/-- **What is left out of a round** is what does not fit. -/
theorem letters_eq_iff (taken : List Text) :
    ink (letters taken) = ink (lettersWithin taken) ↔ Fits taken := by
  rcases letters_cases taken with
    ⟨hsame, hfits⟩ | ⟨line, delimiters, rows, rfl, hplain, hquote, hitem⟩
  · simp [hsame, hfits]
  · rw [letters, lettersWithin, ink_table hplain hquote hitem, ink_table hplain hquote hitem,
      List.append_right_inj]
    constructor
    · intro hsame _ _ _ one hone
      have hall := (sublist_flatMap_iff (row_sublist (cellLetters line).length) rows).mp
        (hsame ▸ List.Sublist.refl _) one hone
      rw [ink_cells (cellLetters line).length one] at hall
      exact List.append_right_eq_self.mp hall
    · intro hfits
      apply List.flatMap_congr
      intro one hone
      rw [ink_cells (cellLetters line).length one, hfits hplain hquote hitem one hone,
        List.append_nil]

/-- **Rendering loses no words** but those of cells beyond the width of a table's header, and a
    source has none there exactly if it loses none at all. -/
theorem renders_within (source : Text) :
    Renders lettersWithin source ∧
      (Renders letters source ↔ ∀ taken ∈ rounds source, Fits taken) := by
  have hwithin : Renders lettersWithin source :=
    ⟨ink_linesOf source, length_rounds_le source, flatten_rounds source,
      fun taken _ => lettersBy_sublist (fun n cells => (List.take_sublist n cells).flatten) taken,
      ink_parseBlocks source ▸ List.Sublist.refl _⟩
  have hshown : (ink ((rounds source).flatMap letters)).Sublist
      (ink (textsOf (parseBlocks source)).flatten) ↔ ∀ taken ∈ rounds source, Fits taken := by
    rw [ink_parseBlocks, ink_flatMap, ink_flatMap, sublist_flatMap_iff lettersWithin_sublist]
    exact forall₂_congr fun taken _ => letters_eq_iff taken
  refine ⟨hwithin, ?_⟩
  constructor
  · intro h
    exact hshown.mp h.shown
  · intro hfits
    have hread : ∀ taken ∈ rounds source, (letters taken).Sublist taken.flatten :=
      fun taken _ => lettersBy_sublist (fun _ cells => List.Sublist.refl cells.flatten) taken
    exact ⟨hwithin.split, hwithin.ends, hwithin.taken, hread, hshown.mpr hfits⟩

/-- A row of two cells under a header of one. -/
def ragged : Text := units "| a |\n|---|\n| 1 | lost |"

/-- **A cell beyond the header's width is lost.** -/
theorem ragged_lost : ¬ Renders letters ragged := by
  intro h
  exact absurd h.shown (by decide +kernel)

end Source

end MqStudio.Markdown
