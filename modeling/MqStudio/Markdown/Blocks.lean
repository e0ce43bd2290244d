import Mathlib.Data.List.DropRight
import MqStudio.Lib.Pattern
import MqStudio.Lib.Words

/-!
# Markdown Blocks

`parseBlocks` of `frontend/src/components/markdown.tsx`: the lines of a release note or of an answer
are read into blocks. One index walks over the lines; a fence, a quote, a list and a table each have
a loop of their own that goes on from it, and the last three step back once, for the step of the
walk.

Strings are lists of UTF-16 code units, as the source's patterns read them. What a block is drawn
with, and what is read inside its text, is left out.

## Main definitions

- `fence` to `leadingMarkers`: the patterns.
- `cellsOf`, `delimiterOf`, `joinLines`: rows of a table, and wrapped lines.
- `Walk`, `Walk.round`, `walk`: the walk.
- `parseBlocks`: a whole source.
-/

namespace MqStudio.Markdown

open MqStudio.Lib
open MqStudio.Lib.Pattern

/-! ## Letters -/

/-- A UTF-16 code unit. -/
abbrev CodeUnit := UInt16

/-- A string. -/
abbrev Text := List CodeUnit

/-- The code unit of a letter of the basic plane. -/
def unit (c : Char) : CodeUnit := c.toNat.toUInt16

/-- A string of such letters. -/
def units (s : String) : Text := s.toList.map unit

/-- One letter, as a class. -/
def is (c : Char) (d : CodeUnit) : Bool := d == unit c

/-- Some letters, as a class. -/
def among (s : String) (d : CodeUnit) : Bool := (units s).contains d

/-- `\s`, and what `trim` takes: white space and line terminators. -/
def isSpace (d : CodeUnit) : Bool :=
  (9 ≤ d && d ≤ 13) || d == 0x20 || d == 0xA0 || d == 0x1680 || (0x2000 ≤ d && d ≤ 0x200A) ||
    d == 0x2028 || d == 0x2029 || d == 0x202F || d == 0x205F || d == 0x3000 || d == 0xFEFF

/-- `\d` -/
def isDigit (d : CodeUnit) : Bool := unit '0' ≤ d && d ≤ unit '9'

/-- `.`: no line terminator. -/
def dot (d : CodeUnit) : Bool := !(d == 10 || d == 13 || d == 0x2028 || d == 0x2029)

/-- `CJK` -/
def isCJK (d : CodeUnit) : Bool :=
  (0x2E80 ≤ d && d ≤ 0x303F) || (0x3400 ≤ d && d ≤ 0x4DBF) || (0x4E00 ≤ d && d ≤ 0x9FFF) ||
    (0xF900 ≤ d && d ≤ 0xFAFF) || (0xFE30 ≤ d && d ≤ 0xFE4F) || (0xFF00 ≤ d && d ≤ 0xFFEF)

/-- `trim` -/
def trim (s : Text) : Text := Words.trim isSpace s

/-! ## Blocks -/

/-- `AlertKind` -/
inductive AlertKind where
  | note
  | tip
  | important
  | warning
  | caution
  deriving DecidableEq

/-- The word of an alert. -/
def AlertKind.word : AlertKind → String
  | note => "note"
  | tip => "tip"
  | important => "important"
  | warning => "warning"
  | caution => "caution"

/-- `ALERT_KINDS` -/
def alertKinds : List AlertKind := [.note, .tip, .important, .warning, .caution]

/-- `ListItem` -/
structure ListItem where
  text : Text
  depth : Nat
  deriving DecidableEq

/-- `Align`, where it is not null. -/
inductive Align where
  | left
  | center
  | right
  deriving DecidableEq

/-- `Block` -/
inductive Block where
  | heading (text : Text)
  | paragraph (text : Text)
  | list (ordered : Bool) (items : List ListItem)
  | quote (alert : Option AlertKind) (text : Text)
  | code (text : Text)
  | table (header : List Text) (align : List (Option Align)) (rows : List (List Text))
  | rule
  deriving DecidableEq

/-! ## Patterns -/

/-- `FENCE`: `^\s*(?:BBB|~~~)`, with backticks for the `B`s. -/
def fence : Pattern CodeUnit :=
  seqs [star isSpace, alts [word (units "\x60\x60\x60"), word (units "~~~")]]

/-- `RULE`: `^\s*(?:-{3,}|\*{3,}|_{3,})\s*$` -/
def rule : Pattern CodeUnit :=
  seqs [star isSpace,
    alts [many false 3 none (is '-'), many false 3 none (is '*'), many false 3 none (is '_')],
    star isSpace, stop]

/-- `HEADING`: `^\s{0,3}(#{1,6})\s+(.*?)\s*#*\s*$` -/
def heading : Pattern CodeUnit :=
  seqs [many false 0 (some 3) isSpace, group 1 (many false 1 (some 6) (is '#')), plus isSpace,
    group 2 (many true 0 none dot), star isSpace, star (is '#'), star isSpace, stop]

/-- `QUOTE`: `^\s{0,3}>\s?(.*)$` -/
def quote : Pattern CodeUnit :=
  seqs [many false 0 (some 3) isSpace, one (is '>'), many false 0 (some 1) isSpace,
    group 1 (star dot), stop]

/-- A word in letters of either case. -/
def caseless (s : String) : Pattern CodeUnit :=
  seqs (s.toList.map fun c => one fun d => is c.toLower d || is c.toUpper d)

/-- `ALERT_MARKER`: `^\[!(note|tip|important|warning|caution)\]\s*$`, in either case. -/
def alertMarker : Pattern CodeUnit :=
  seqs [word (units "[!"), group 1 (alts (alertKinds.map fun kind => caseless kind.word)),
    word (units "]"), star isSpace, stop]

/-- `ITEM`: `^(\s*)(?:[-*+]|\d+[.)])\s+(.*)$` -/
def item : Pattern CodeUnit :=
  seqs [group 1 (star isSpace),
    alts [one (among "-*+"), seqs [plus isDigit, one (among ".)")]],
    plus isSpace, group 2 (star dot), stop]

/-- The first line of a list is numbered: `^\s*\d`. -/
def numbered : Pattern CodeUnit := seqs [star isSpace, one isDigit]

/-- A line goes on an item: `^\s+\S`. -/
def continued : Pattern CodeUnit := seqs [plus isSpace, one fun d => !isSpace d]

/-- `DELIMITER_CELL`: `^:?-+:?$` -/
def delimiterCell : Pattern CodeUnit :=
  seqs [many false 0 (some 1) (is ':'), plus (is '-'), many false 0 (some 1) (is ':'), stop]

/-- The markers of emphasis and code. -/
def isMarker (d : CodeUnit) : Bool := among "*_\x60~" d

/-- `TRAILING_MARKERS` -/
def trailingMarkers : Pattern CodeUnit := seqs [plus isMarker, stop]

/-- `LEADING_MARKERS` -/
def leadingMarkers : Pattern CodeUnit := plus isMarker

/-! ## Rows of a table -/

/-- The loop of `cellsOf`. -/
def cellsFrom (text : Text) (index : Nat) (cell : Text) (code : Bool) (cells : List Text) :
    List Text :=
  if h : index < text.length then
    let char := text[index]
    if char = unit '\\' ∧ text[index + 1]? = some (unit '|') then
      cellsFrom text (index + 2) (cell ++ [unit '|']) code cells
    else
      let code := if char = unit '\x60' then !code else code
      if char = unit '|' ∧ code = false then
        cellsFrom text (index + 1) [] code (cells ++ [trim cell])
      else cellsFrom text (index + 1) (cell ++ [char]) code cells
  else cells ++ [trim cell]
termination_by text.length - index

/-- A row without the pipes at its ends. -/
def rowOf (line : Text) : Text :=
  let text := trim line
  let text := if text.head? = some (unit '|') then text.tail else text
  if text.getLast? = some (unit '|') ∧ ¬ units "\\|" <:+ text then text.dropLast else text

/-- `cellsOf` -/
def cellsOf (line : Text) : List Text := cellsFrom (rowOf line) 0 [] false []

/-- The alignment a delimiter cell sets. -/
def alignOf (cell : Text) : Option Align :=
  let starts := cell.head? = some (unit ':')
  let ends := cell.getLast? = some (unit ':')
  if starts ∧ ends then some .center
  else if ends then some .right
  else if starts then some .left
  else none

/-- `delimiterOf` -/
def delimiterOf (line : Text) (columns : Nat) : Option (List (Option Align)) :=
  if unit '-' ∉ line then none
  else
    let cells := cellsOf line
    if cells.length ≠ columns ∨ ¬ cells.all delimiterCell.test then none
    else some (cells.map alignOf)

/-! ## Wrapped lines -/

/-- One line more. Between two ideographs stands no space. -/
def joinLine (joined line : Text) : Text :=
  if joined = [] then line
  else
    let tail := (trailingMarkers.erase joined).getLast?
    let head := (leadingMarkers.eraseFront line).head?
    let glue := if tail.any isCJK && head.any isCJK then [] else units " "
    joined ++ glue ++ line

/-- `joinLines` -/
def joinLines (lines : List Text) : Text := lines.foldl joinLine []

/-! ## Lines -/

/-- `source.replace(/\r\n?/g, "\n")` -/
def newlines : Text → Text
  | [] => []
  | [c] => [if c = unit '\r' then unit '\n' else c]
  | c :: d :: rest =>
    if c = unit '\r' ∧ d = unit '\n' then unit '\n' :: newlines rest
    else (if c = unit '\r' then unit '\n' else c) :: newlines (d :: rest)

/-- The lines of a source. -/
def linesOf (source : Text) : List Text := (newlines source).splitOn (unit '\n')

/-- `at` -/
def lineAt (lines : List Text) (index : Nat) : Text := lines[index]?.getD []

/-! ## The loops -/

section Loops

variable (lines : List Text)

/-- The loop of a fence. -/
def fenced (index : Nat) (body : List Text) : Nat × List Text :=
  if index < lines.length ∧ ¬ fence.test (lineAt lines index) then
    fenced (index + 1) (body ++ [lineAt lines index])
  else (index, body)
termination_by lines.length - index

/-- The loop of a quote. -/
def quotedFrom (index : Nat) (quoted : List Text) : Nat × List Text :=
  if index < lines.length then
    match quote.exec (lineAt lines index) with
    | none => (index, quoted)
    | some inner => quotedFrom (index + 1) (quoted ++ [(inner.group 1).getD []])
  else (index, quoted)
termination_by lines.length - index

/-- The loop of a list. -/
def itemsFrom (index : Nat) (items : List ListItem) : Nat × List ListItem :=
  if index < lines.length then
    match item.exec (lineAt lines index) with
    | some next =>
      let depth := min 1 (((next.group 1).getD []).length / 2)
      itemsFrom (index + 1) (items ++ [⟨(next.group 2).getD [], depth⟩])
    | none =>
      match items.getLast? with
      | none => (index, items)
      | some last =>
        if continued.test (lineAt lines index) then
          let text := joinLines [last.text, trim (lineAt lines index)]
          itemsFrom (index + 1) (items.dropLast ++ [{ last with text := text }])
        else (index, items)
  else (index, items)
termination_by lines.length - index

/-- A row of a table, as wide as its header. -/
def rowAt (header : List Text) (line : Text) : List Text :=
  let cells := cellsOf line
  (List.range header.length).map fun column => cells[column]?.getD []

/-- The loop of a table. -/
def rowsFrom (header : List Text) (index : Nat) (rows : List (List Text)) :
    Nat × List (List Text) :=
  if index < lines.length ∧ trim (lineAt lines index) ≠ [] ∧ unit '|' ∈ lineAt lines index then
    rowsFrom header (index + 1) (rows ++ [rowAt header (lineAt lines index)])
  else (index, rows)
termination_by lines.length - index

end Loops

/-! ## Quotes -/

/-- `toLowerCase`, of the letters an alert's word has. -/
def toLowerCase (d : CodeUnit) : CodeUnit := if unit 'A' ≤ d && d ≤ unit 'Z' then d + 32 else d

/-- The alert a quote starts with. -/
def alertIn (first : Text) : Option AlertKind :=
  (alertMarker.exec first).bind fun marker =>
    alertKinds.find? fun kind => ((marker.group 1).getD []).map toLowerCase = units kind.word

/-- A quote without its alert's line, and without its blank lines. -/
def quoteOf (quoted : List Text) : Block :=
  let alert := alertIn (quoted.headD [])
  let body := if alert = none then quoted else quoted.drop 1
  .quote alert (joinLines (body.filter fun one => trim one ≠ []))

/-! ## The walk -/

/-- Where the walk stands, the lines of an unfinished paragraph, and the blocks so far. -/
structure Walk where
  index : Nat
  paragraph : List Text
  blocks : List Block

namespace Walk

/-- The start. -/
def start : Walk := ⟨0, [], []⟩

/-- `flush` -/
def flush (w : Walk) : Walk :=
  if w.paragraph.length > 0 then
    { w with paragraph := [], blocks := w.blocks ++ [.paragraph (joinLines w.paragraph)] }
  else { w with paragraph := [] }

/-- `blocks.push` -/
def push (w : Walk) (block : Block) : Walk := { w with blocks := w.blocks ++ [block] }

/-- An assignment to `index`. -/
def goto (w : Walk) (index : Nat) : Walk := { w with index := index }

/-- One round of the walk, up to its `continue`. A loop that stopped behind its lines steps back,
    and the walk's own step makes up for it. -/
def round (lines : List Text) (w : Walk) : Walk :=
  let line := lineAt lines w.index
  if fence.test line then
    let (index, body) := fenced lines (w.index + 1) []
    (w.flush.push (.code ((units "\n").intercalate body))).goto index
  else if trim line = [] then w.flush
  else if rule.test line then w.flush.push .rule
  else match heading.exec line with
  | some found => w.flush.push (.heading ((found.group 2).getD []))
  | none =>
    if quote.test line then
      let (index, quoted) := quotedFrom lines w.index []
      (w.flush.push (quoteOf quoted)).goto (index - 1)
    else if item.test line then
      let (index, items) := itemsFrom lines w.index []
      (w.flush.push (.list (numbered.test line) items)).goto (index - 1)
    else
      let header := cellsOf line
      let delimiters :=
        if unit '|' ∈ line then delimiterOf (lineAt lines (w.index + 1)) header.length else none
      match delimiters with
      | some align =>
        let (index, rows) := rowsFrom lines header (w.index + 2) []
        (w.flush.push (.table header align rows)).goto (index - 1)
      | none => { w with paragraph := w.paragraph ++ [trim line] }

@[simp] theorem goto_index (w : Walk) (index : Nat) : (w.goto index).index = index := rfl

@[simp] theorem push_index (w : Walk) (block : Block) : (w.push block).index = w.index := rfl

@[simp] theorem flush_index (w : Walk) : w.flush.index = w.index := by
  unfold flush
  split <;> rfl

end Walk

/-! ## The walk ends -/

section Ends

variable (lines : List Text)

theorem le_fenced (index : Nat) (body : List Text) : index ≤ (fenced lines index body).1 := by
  fun_induction fenced lines index body with
  | case1 index body _ ih => omega
  | case2 index body _ => exact le_rfl

theorem le_quotedFrom (index : Nat) (quoted : List Text) :
    index ≤ (quotedFrom lines index quoted).1 := by
  fun_induction quotedFrom lines index quoted with
  | case1 index quoted _ _ => exact le_rfl
  | case2 index quoted _ inner _ ih => omega
  | case3 index quoted _ => exact le_rfl

theorem le_itemsFrom (index : Nat) (items : List ListItem) :
    index ≤ (itemsFrom lines index items).1 := by
  fun_induction itemsFrom lines index items with
  | case1 index items _ next _ depth ih => omega
  | case2 index items _ _ _ => exact le_rfl
  | case3 index items _ _ last _ _ text ih => omega
  | case4 index items _ _ last _ _ => exact le_rfl
  | case5 index items _ => exact le_rfl

theorem le_rowsFrom (header : List Text) (index : Nat) (rows : List (List Text)) :
    index ≤ (rowsFrom lines header index rows).1 := by
  fun_induction rowsFrom lines header index rows with
  | case1 index rows _ ih => omega
  | case2 index rows _ => exact le_rfl

variable {lines} {index : Nat}

/-- A quote has the line it starts with. -/
theorem lt_quotedFrom (hindex : index < lines.length) (h : quote.test (lineAt lines index)) :
    index < (quotedFrom lines index []).1 := by
  obtain ⟨inner, hinner⟩ := Option.isSome_iff_exists.mp h
  rw [quotedFrom, if_pos hindex, hinner]
  exact le_quotedFrom lines (index + 1) _

/-- So has a list. -/
theorem lt_itemsFrom (hindex : index < lines.length) (h : item.test (lineAt lines index)) :
    index < (itemsFrom lines index []).1 := by
  obtain ⟨next, hnext⟩ := Option.isSome_iff_exists.mp h
  rw [itemsFrom, if_pos hindex, hnext]
  exact le_itemsFrom lines (index + 1) _

end Ends

/-! ## Rounds -/

/-- A line that is no fence, not blank, no rule and no heading. -/
structure Plain (line : Text) : Prop where
  fence : fence.test line = false
  blank : trim line ≠ []
  rule : rule.test line = false
  heading : heading.exec line = none

/-- What a round is, by the line it starts with. -/
inductive Walk.Round (lines : List Text) (w : Walk) : Walk → Prop where
  | fence (hfence : fence.test (lineAt lines w.index) = true) :
      Round lines w ((w.flush.push
        (.code ((units "\n").intercalate (fenced lines (w.index + 1) []).2))).goto
          (fenced lines (w.index + 1) []).1)
  | blank (hfence : fence.test (lineAt lines w.index) = false)
      (hblank : trim (lineAt lines w.index) = []) : Round lines w w.flush
  | rule (hfence : fence.test (lineAt lines w.index) = false)
      (hblank : trim (lineAt lines w.index) ≠ [])
      (hrule : rule.test (lineAt lines w.index) = true) : Round lines w (w.flush.push .rule)
  | heading (hfence : fence.test (lineAt lines w.index) = false)
      (hblank : trim (lineAt lines w.index) ≠ []) (hrule : rule.test (lineAt lines w.index) = false)
      {found : Match CodeUnit} (hfound : heading.exec (lineAt lines w.index) = some found) :
      Round lines w (w.flush.push (.heading ((found.group 2).getD [])))
  | quote (hplain : Plain (lineAt lines w.index))
      (hquote : quote.test (lineAt lines w.index) = true) :
      Round lines w ((w.flush.push (quoteOf (quotedFrom lines w.index []).2)).goto
        ((quotedFrom lines w.index []).1 - 1))
  | list (hplain : Plain (lineAt lines w.index))
      (hquote : quote.test (lineAt lines w.index) = false)
      (hitem : item.test (lineAt lines w.index) = true) :
      Round lines w ((w.flush.push (.list (numbered.test (lineAt lines w.index))
        (itemsFrom lines w.index []).2)).goto ((itemsFrom lines w.index []).1 - 1))
  | table (hplain : Plain (lineAt lines w.index))
      (hquote : quote.test (lineAt lines w.index) = false)
      (hitem : item.test (lineAt lines w.index) = false) {align : List (Option Align)}
      (halign : delimiterOf (lineAt lines (w.index + 1)) (cellsOf (lineAt lines w.index)).length =
        some align) :
      Round lines w ((w.flush.push (.table (cellsOf (lineAt lines w.index)) align
        (rowsFrom lines (cellsOf (lineAt lines w.index)) (w.index + 2) []).2)).goto
          ((rowsFrom lines (cellsOf (lineAt lines w.index)) (w.index + 2) []).1 - 1))
  | paragraph (hplain : Plain (lineAt lines w.index))
      (hquote : quote.test (lineAt lines w.index) = false)
      (hitem : item.test (lineAt lines w.index) = false) :
      Round lines w { w with paragraph := w.paragraph ++ [trim (lineAt lines w.index)] }

/-- **Every round is one of these.** -/
theorem Walk.round_cases (lines : List Text) (w : Walk) : Round lines w (w.round lines) := by
  unfold round
  dsimp only
  split
  · rename_i hfence
    exact .fence hfence
  · rename_i hfence
    rw [Bool.not_eq_true] at hfence
    split
    · rename_i hblank
      exact .blank hfence hblank
    · rename_i hblank
      split
      · rename_i hrule
        exact .rule hfence hblank hrule
      · rename_i hrule
        rw [Bool.not_eq_true] at hrule
        split
        · rename_i found hfound
          exact .heading hfence hblank hrule hfound
        · rename_i hheading
          have hplain : Plain (lineAt lines w.index) := ⟨hfence, hblank, hrule, hheading⟩
          split
          · rename_i hquote
            exact .quote hplain hquote
          · rename_i hquote
            rw [Bool.not_eq_true] at hquote
            split
            · rename_i hitem
              exact .list hplain hquote hitem
            · rename_i hitem
              rw [Bool.not_eq_true] at hitem
              split
              · rename_i align halign
                exact .table hplain hquote hitem (Option.ite_none_right_eq_some.mp halign).2
              · exact .paragraph hplain hquote hitem

/-- **No round goes back** behind the line it starts with. -/
theorem Walk.le_round {lines : List Text} {w : Walk} (h : w.index < lines.length) :
    w.index ≤ (w.round lines).index := by
  have hround := Walk.round_cases lines w
  generalize w.round lines = v at hround ⊢
  cases hround with
  | fence hfence =>
    have := le_fenced lines (w.index + 1) []
    simp only [goto_index]
    omega
  | blank => simp
  | rule => simp
  | heading => simp
  | quote hplain hquote =>
    have := lt_quotedFrom h hquote
    simp only [goto_index]
    omega
  | list hplain hquote hitem =>
    have := lt_itemsFrom h hitem
    simp only [goto_index]
    omega
  | table =>
    have := le_rowsFrom lines (cellsOf (lineAt lines w.index)) (w.index + 2) []
    simp only [goto_index]
    omega
  | paragraph => exact le_rfl

/-! ## The whole walk -/

/-- A round, and the step of the walk. -/
def Walk.next (lines : List Text) (w : Walk) : Walk :=
  (w.round lines).goto ((w.round lines).index + 1)

theorem Walk.lt_next {lines : List Text} {w : Walk} (h : w.index < lines.length) :
    w.index < (w.next lines).index :=
  Nat.lt_succ_of_le (Walk.le_round h)

/-- The walk. -/
def walk (lines : List Text) (w : Walk) : Walk :=
  if w.index < lines.length then walk lines (w.next lines) else w
termination_by lines.length - w.index
decreasing_by
  rename_i h
  have := Walk.lt_next h
  omega

/-- `parseBlocks` -/
def parseBlocks (source : Text) : List Block := (walk (linesOf source) .start).flush.blocks

end MqStudio.Markdown
