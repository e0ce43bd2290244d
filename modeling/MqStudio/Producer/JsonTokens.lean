import Mathlib.Data.List.Basic
import Mathlib.Data.List.TakeWhile

/-!
# Colouring JSON

`frontend/src/lib/jsonTokens.ts`: the editor of a message body colours it while it is being typed. A
scanner steps over the text and tries, at each place, a string, a literal, a bare word, a number and a
punctuator; what it steps over is plain. A string is a key where a colon follows it.

No alternative of the scanner ever gives back what it read, so each is a length read from the front.

## Main definitions

- `scan`: what the scanner reads at one place. It looks back at one character.
- `tokenizeJson`: the runs of a text.
- `Document`: the documents of JSON, as lexemes between blanks with the colours they ought to have.

## Main results

- `tokenizeJson_text`: every character is in one run, in order, and no run is empty.
- `string_on_one_line`: no run that is coloured as a string leaves its line.
- `tokenizeJson_document`: a document is coloured lexeme by lexeme, whatever blanks stand in it.
-/

namespace MqStudio.Producer.JsonTokens

/-! ## Characters -/

def isLower (c : Char) : Bool := 'a' ≤ c && c ≤ 'z'

def isUpper (c : Char) : Bool := 'A' ≤ c && c ≤ 'Z'

/-- `\d` -/
def isDigit (c : Char) : Bool := '0' ≤ c && c ≤ '9'

/-- `\w` -/
def isWord (c : Char) : Bool := isLower c || isUpper c || isDigit c || c = '_'

/-- What a bare word begins with, and what it goes on with. -/
def beginsWord (c : Char) : Bool := isLower c || isUpper c || c = '_' || c = '$'

def continuesWord (c : Char) : Bool := isWord c || c = '$'

/-- What `.` does not read. -/
def isLineEnd (c : Char) : Bool := c = '\n' || c = '\r' || c = '\u2028' || c = '\u2029'

/-- `PUNCTUATORS` -/
def isPunctuator (c : Char) : Bool :=
  c = '{' || c = '}' || c = '[' || c = ']' || c = ',' || c = ':'

/-- What `beforeColon` passes over. -/
def isBlank (c : Char) : Bool := c = ' ' || c = '\t' || c = '\n' || c = '\r'

/-! ## The scanner -/

/-- `(?:[^"\\\n]|\\.)*` -/
def stringRun : List Char → Nat
  | [] => 0
  -- a backslash takes the next character along, but no end of a line
  | '\\' :: c :: rest => if isLineEnd c then 0 else stringRun rest + 2
  | c :: rest => if c = '"' || c = '\\' || c = '\n' then 0 else stringRun rest + 1

/-- A string, to its end or as far as it goes. -/
def scanString : List Char → Option Nat
  | '"' :: rest =>
    some (if (rest.drop (stringRun rest)).head? = some '"' then stringRun rest + 2
      else stringRun rest + 1)
  | _ => none

/-- A literal that no word character touches. -/
def scanLiteral (prev : Option Char) (text : List Char) : Option Nat :=
  if prev.any isWord then none
  else
    (["true".toList, "false".toList, "null".toList].find? fun word =>
      word.isPrefixOf text && !(text.drop word.length).head?.any isWord).map List.length

/-- A bare word. -/
def scanWord : List Char → Option Nat
  | [] => none
  | c :: rest => if beginsWord c then some ((rest.takeWhile continuesWord).length + 1) else none

/-- `\d+`, as far as it goes. -/
def digits (text : List Char) : Nat := (text.takeWhile isDigit).length

/-- `(?:\.\d+)?` -/
def fraction : List Char → Nat
  | '.' :: rest => if digits rest = 0 then 0 else digits rest + 1
  | _ => 0

/-- `[+-]?` -/
def sign : List Char → Nat
  | '+' :: _ | '-' :: _ => 1
  | _ => 0

/-- `(?:[eE][+-]?\d+)?` -/
def exponent : List Char → Nat
  | [] => 0
  | c :: rest =>
    if c = 'e' || c = 'E' then
      if digits (rest.drop (sign rest)) = 0 then 0
      else digits (rest.drop (sign rest)) + sign rest + 1
    else 0

/-- `-?` -/
def minus : List Char → Nat
  | '-' :: _ => 1
  | _ => 0

/-- A number. -/
def scanNumber (text : List Char) : Option Nat :=
  let whole := minus text + digits (text.drop (minus text))
  if digits (text.drop (minus text)) = 0 then none
  else
    let decimal := whole + fraction (text.drop whole)
    some (decimal + exponent (text.drop decimal))

def scanPunctuator : List Char → Option Nat
  | [] => none
  | c :: _ => if isPunctuator c then some 1 else none

/-- **`SCANNER` at one place**: how much the first alternative that reads anything reads. -/
def scan (prev : Option Char) (text : List Char) : Option Nat :=
  (scanString text).or ((scanLiteral prev text).or ((scanWord text).or ((scanNumber text).or
    (scanPunctuator text))))

/-! ## Runs -/

/-- `JsonTokenKind` -/
inductive Kind where
  | key | string | number | literal | punct | plain
  deriving DecidableEq

/-- `JsonToken` -/
structure Token where
  kind : Kind
  text : List Char
  deriving DecidableEq

/-- `beforeColon` -/
def beforeColon (after : List Char) : Bool := (after.dropWhile isBlank).head? = some ':'

/-- `kindOf` -/
def kindOf (text after : List Char) : Kind :=
  if text.head? = some '"' then if beforeColon after then .key else .string
  else if text = "true".toList ∨ text = "false".toList ∨ text = "null".toList then .literal
  else if text.length = 1 ∧ text.all isPunctuator = true then .punct
  else if text.head?.any (fun c => c = '-' || isDigit c) then .number
  else .plain

/-- The run of what was stepped over, if anything was. -/
def plainRun (text : List Char) : List Token := if text = [] then [] else [⟨.plain, text⟩]

/-- The loop of `tokenizeJson`, one character at a time: the character before, what was stepped over
    since the last match, and how much of a match is still to be passed. -/
def runs (prev : Option Char) (plain : List Char) : Nat → List Char → List Token
  | _, [] => plainRun plain
  | skip + 1, c :: rest => runs (some c) plain skip rest
  | 0, c :: rest =>
    match scan prev (c :: rest) with
    | none => runs (some c) (plain ++ [c]) 0 rest
    | some n =>
      plainRun plain ++ ⟨kindOf ((c :: rest).take n) ((c :: rest).drop n), (c :: rest).take n⟩ ::
        runs (some c) [] (n - 1) rest

/-- `tokenizeJson` -/
def tokenizeJson (source : List Char) : List Token := runs none [] 0 source

/-! ## What the scanner reads is there -/

theorem stringRun_le (text : List Char) : stringRun text ≤ text.length := by
  fun_induction stringRun text with
  | case1 => exact Nat.le_refl _
  | case2 => exact Nat.zero_le _
  | case3 c rest hline ih =>
    simp only [List.length_cons]
    omega
  | case4 => exact Nat.zero_le _
  | case5 c rest _ hstop ih =>
    simp only [List.length_cons]
    omega

theorem digits_le (text : List Char) : digits text ≤ text.length :=
  (List.takeWhile_prefix isDigit).length_le

theorem fraction_le (text : List Char) : fraction text ≤ text.length := by
  unfold fraction
  split
  · rename_i rest
    have := digits_le rest
    split <;> simp only [List.length_cons] <;> omega
  · exact Nat.zero_le _

theorem sign_le (text : List Char) : sign text ≤ text.length := by
  unfold sign
  split <;> simp

theorem exponent_le (text : List Char) : exponent text ≤ text.length := by
  unfold exponent
  split
  · exact Nat.zero_le _
  · rename_i c rest
    have hsign := sign_le rest
    have hdigits := digits_le (rest.drop (sign rest))
    rw [List.length_drop] at hdigits
    split
    · split <;> simp only [List.length_cons] <;> omega
    · exact Nat.zero_le _

theorem minus_le (text : List Char) : minus text ≤ text.length := by
  unfold minus
  split <;> simp

theorem scanString_bounds {text : List Char} {n : Nat} (h : scanString text = some n) :
    0 < n ∧ n ≤ text.length := by
  unfold scanString at h
  split at h
  · rename_i rest
    cases h
    have hrun := stringRun_le rest
    simp only [List.length_cons]
    split
    · rename_i hclosed
      -- the closing quote is there
      have hmore : stringRun rest < rest.length := by
        apply Nat.lt_of_not_le
        intro hle
        rw [List.drop_eq_nil_of_le hle] at hclosed
        cases hclosed
      omega
    · omega
  · cases h

theorem scanLiteral_bounds {prev : Option Char} {text : List Char} {n : Nat}
    (h : scanLiteral prev text = some n) : 0 < n ∧ n ≤ text.length := by
  unfold scanLiteral at h
  split at h
  · cases h
  · obtain ⟨word, hfind, rfl⟩ := Option.map_eq_some_iff.mp h
    have hword := List.find?_some hfind
    have hmem := List.mem_of_find?_eq_some hfind
    rw [Bool.and_eq_true] at hword
    refine ⟨?_, (List.isPrefixOf_iff_prefix.mp hword.1).length_le⟩
    simp only [List.mem_cons, List.not_mem_nil, or_false] at hmem
    rcases hmem with rfl | rfl | rfl
    all_goals decide

theorem scanWord_bounds {text : List Char} {n : Nat} (h : scanWord text = some n) :
    0 < n ∧ n ≤ text.length := by
  unfold scanWord at h
  split at h
  · cases h
  · rename_i c rest
    split at h
    · cases h
      have := (List.takeWhile_prefix continuesWord (l := rest)).length_le
      simp only [List.length_cons]
      omega
    · cases h

theorem scanNumber_bounds {text : List Char} {n : Nat} (h : scanNumber text = some n) :
    0 < n ∧ n ≤ text.length := by
  unfold scanNumber at h
  dsimp only at h
  split at h
  · cases h
  · rename_i hdigits
    cases h
    have hminus := minus_le text
    have hwhole := digits_le (text.drop (minus text))
    have hfraction := fraction_le (text.drop (minus text + digits (text.drop (minus text))))
    have hexponent := exponent_le (text.drop (minus text + digits (text.drop (minus text)) +
      fraction (text.drop (minus text + digits (text.drop (minus text))))))
    simp only [List.length_drop] at hwhole hfraction hexponent
    omega

theorem scanPunctuator_bounds {text : List Char} {n : Nat} (h : scanPunctuator text = some n) :
    0 < n ∧ n ≤ text.length := by
  unfold scanPunctuator at h
  split at h
  · cases h
  · split at h
    · cases h
      simp
    · cases h

/-- **A match is not empty, and no longer than the text.** -/
theorem scan_bounds {prev : Option Char} {text : List Char} {n : Nat}
    (h : scan prev text = some n) : 0 < n ∧ n ≤ text.length := by
  unfold scan at h
  simp only [Option.or_eq_some_iff] at h
  rcases h with hstring | ⟨-, hliteral | ⟨-, hword | ⟨-, hnumber | ⟨-, hpunct⟩⟩⟩⟩
  · exact scanString_bounds hstring
  · exact scanLiteral_bounds hliteral
  · exact scanWord_bounds hword
  · exact scanNumber_bounds hnumber
  · exact scanPunctuator_bounds hpunct

/-! ## Nothing is lost -/

/-- The characters of some runs. -/
def textOf (tokens : List Token) : List Char := tokens.flatMap Token.text

@[simp] theorem textOf_plainRun (text : List Char) : textOf (plainRun text) = text := by
  unfold plainRun
  split
  · rename_i hnone
    rw [hnone]
    rfl
  · simp [textOf]

/-- Every character that is not passed over as part of a match before is in a run. -/
theorem textOf_runs (prev : Option Char) (plain : List Char) (skip : Nat) (text : List Char) :
    textOf (runs prev plain skip text) = plain ++ text.drop skip := by
  fun_induction runs prev plain skip text with
  | case1 => simp
  | case2 prev plain skip c rest ih => simp [ih]
  | case3 prev plain c rest hscan ih => simp [ih]
  | case4 prev plain c rest n hscan ih =>
    -- the match starts with this character, which is not passed over a second time
    obtain ⟨hpos, -⟩ := scan_bounds hscan
    have hrest : rest.drop (n - 1) = (c :: rest).drop n := by
      obtain ⟨m, rfl⟩ : ∃ m, n = m + 1 := ⟨n - 1, by omega⟩
      simp
    have hhead : textOf (plainRun plain) = plain := textOf_plainRun plain
    simp only [textOf, List.flatMap_append, List.flatMap_cons] at ih hhead ⊢
    rw [ih, hhead, hrest, List.nil_append, List.take_append_drop, List.drop_zero]

/-- No run is empty. -/
theorem runs_ne_nil (prev : Option Char) (plain : List Char) (skip : Nat) (text : List Char)
    (token : Token) (h : token ∈ runs prev plain skip text) : token.text ≠ [] := by
  have hplain : ∀ text token, token ∈ plainRun text → token.text ≠ [] := by
    intro text token hmem
    unfold plainRun at hmem
    split at hmem
    · cases hmem
    · rename_i hne
      rw [List.mem_singleton.mp hmem]
      exact hne
  fun_induction runs prev plain skip text with
  | case1 => exact hplain _ _ h
  | case2 prev plain skip c rest ih => exact ih h
  | case3 prev plain c rest hscan ih => exact ih h
  | case4 prev plain c rest n hscan ih =>
    obtain ⟨hpos, -⟩ := scan_bounds hscan
    rcases List.mem_append.mp h with hmem | hmem
    · exact hplain _ _ hmem
    · rcases List.mem_cons.mp hmem with rfl | hmem
      · obtain ⟨m, rfl⟩ : ∃ m, n = m + 1 := ⟨n - 1, by omega⟩
        simp
      · exact ih hmem

/-- **Every character is in one run, in order, and no run is empty.** -/
theorem tokenizeJson_text (source : List Char) :
    textOf (tokenizeJson source) = source ∧ ∀ token ∈ tokenizeJson source, token.text ≠ [] :=
  ⟨textOf_runs none [] 0 source, fun token h => runs_ne_nil none [] 0 source token h⟩

/-! ## Strings keep to their line -/

/-- No line feed is read as part of a string. -/
theorem lineFeed_not_mem_stringRun (text : List Char) :
    '\n' ∉ text.take (stringRun text) := by
  fun_induction stringRun text with
  | case1 => simp
  | case2 => simp
  | case3 c rest hline ih =>
    have hc : c ≠ '\n' := by
      rintro rfl
      exact hline rfl
    simp [Ne.symm hc, ih]
  | case4 => simp
  | case5 c rest _ hstop ih =>
    have hc : c ≠ '\n' := by
      rintro rfl
      exact hstop rfl
    simp [Ne.symm hc, ih]

/-- Nor as part of what the scanner reads from a quote on. -/
theorem lineFeed_not_mem_scan {prev : Option Char} {rest : List Char} {n : Nat}
    (h : scan prev ('"' :: rest) = some n) : '\n' ∉ ('"' :: rest).take n := by
  have hn : n = if (rest.drop (stringRun rest)).head? = some '"' then stringRun rest + 2
      else stringRun rest + 1 := (Option.some.inj h).symm
  have hrun := lineFeed_not_mem_stringRun rest
  split at hn
  · rename_i hclosed
    subst hn
    obtain ⟨after, hafter⟩ := List.head?_eq_some_iff.mp hclosed
    have hone : rest.take (stringRun rest + 1) = rest.take (stringRun rest) ++ ['"'] := by
      rw [List.take_add, hafter]
      rfl
    rw [List.take_succ_cons, hone]
    simp [hrun]
  · subst hn
    rw [List.take_succ_cons]
    simp [hrun]

/-- A run that is coloured as a string begins with a quote. -/
theorem head_of_kindOf {text after : List Char}
    (h : kindOf text after = .key ∨ kindOf text after = .string) : text.head? = some '"' := by
  unfold kindOf at h
  split at h
  · assumption
  · split at h
    · simp at h
    · split at h
      · simp at h
      · split at h <;> simp at h

/-- **No run that is coloured as a string leaves its line.** -/
theorem string_on_one_line (source : List Char) (token : Token) (h : token ∈ tokenizeJson source)
    (hkind : token.kind = .key ∨ token.kind = .string) : '\n' ∉ token.text := by
  have hplain : ∀ text token, token ∈ plainRun text → token.kind = .plain := by
    intro text token hmem
    unfold plainRun at hmem
    split at hmem
    · cases hmem
    · rw [List.mem_singleton.mp hmem]
  have hcolour : ∀ text, token ∉ plainRun text := by
    intro text hmem
    rw [hplain text token hmem] at hkind
    simp at hkind
  have hruns : ∀ prev plain skip text, token ∈ runs prev plain skip text → '\n' ∉ token.text := by
    intro prev plain skip text hmem
    fun_induction runs prev plain skip text with
    | case1 => exact absurd hmem (hcolour _)
    | case2 prev plain skip c rest ih => exact ih hmem
    | case3 prev plain c rest hscan ih => exact ih hmem
    | case4 prev plain c rest n hscan ih =>
      rcases List.mem_append.mp hmem with hmem | hmem
      · exact absurd hmem (hcolour _)
      · rcases List.mem_cons.mp hmem with rfl | hmem
        · obtain ⟨hpos, -⟩ := scan_bounds hscan
          obtain ⟨m, rfl⟩ : ∃ m, n = m + 1 := ⟨n - 1, by omega⟩
          have hquote := head_of_kindOf hkind
          rw [List.take_succ_cons, List.head?_cons] at hquote
          obtain rfl : c = '"' := Option.some.inj hquote
          exact lineFeed_not_mem_scan hscan
        · exact ih hmem
  exact hruns none [] 0 source h

/-- A quote that is not closed yet colours its own line. -/
theorem string_on_one_line_open : '\n' ∉ "\"ab".toList :=
  string_on_one_line "\"ab\n1".toList ⟨.string, "\"ab".toList⟩ (by decide) (.inr rfl)

/-! ## Documents -/

/-- What may stand between the quotes of a string. -/
inductive Body : List Char → Prop where
  | nil : Body []
  | letter {c : Char} {body : List Char} (hc : c ≠ '"' ∧ c ≠ '\\' ∧ c ≠ '\n') :
      Body body → Body (c :: body)
  | escape {c : Char} {body : List Char} (hc : isLineEnd c = false) :
      Body body → Body ('\\' :: c :: body)

/-- Digits, at least one. -/
structure Digits (text : List Char) : Prop where
  some : text ≠ []
  all : ∀ c ∈ text, isDigit c = true

/-- A number, by its parts. -/
structure Number where
  negative : Bool
  whole : List Char
  decimals : Option (List Char)
  power : Option (Char × Option Char × List Char)
  whole_digits : Digits whole
  decimals_digits : ∀ ds ∈ decimals, Digits ds
  power_digits : ∀ x ∈ power, (x.1 = 'e' ∨ x.1 = 'E') ∧
    (∀ c ∈ x.2.1, c = '+' ∨ c = '-') ∧ Digits x.2.2

/-- `.` and the decimals, if there are any. -/
def Number.decimalText (n : Number) : List Char := n.decimals.elim [] fun ds => '.' :: ds

/-- The power of ten, if there is one. -/
def Number.powerText (n : Number) : List Char :=
  n.power.elim [] fun x => x.1 :: (x.2.1.toList ++ x.2.2)

def Number.text (n : Number) : List Char :=
  (if n.negative then ['-'] else []) ++ n.whole ++ n.decimalText ++ n.powerText

/-- A lexeme of JSON. -/
inductive Lexeme where
  | string (body : List Char) (hbody : Body body)
  | number (n : Number)
  | literal (word : List Char)
      (hword : word = "true".toList ∨ word = "false".toList ∨ word = "null".toList)
  | punct (c : Char) (hc : isPunctuator c = true)

def Lexeme.text : Lexeme → List Char
  | .string body _ => '"' :: (body ++ ['"'])
  | .number n => n.text
  | .literal word _ => word
  | .punct c _ => [c]

/-- A punctuator. -/
def Lexeme.punct? : Lexeme → Option Char
  | .punct c _ => some c
  | _ => none

/-- Blanks. -/
structure Gap where
  text : List Char
  blank : ∀ c ∈ text, isBlank c = true

/-- A lexeme, the blanks before it and the colour it ought to have. -/
structure Piece where
  gap : Gap
  kind : Kind
  lexeme : Lexeme

def Piece.text (x : Piece) : List Char := x.gap.text ++ x.lexeme.text

/-- The runs of a piece. -/
def Piece.tokens (x : Piece) : List Token := plainRun x.gap.text ++ [⟨x.kind, x.lexeme.text⟩]

/-- A punctuator of a document. -/
def punctPiece (gap : Gap) (c : Char) (hc : isPunctuator c = true) : Piece :=
  ⟨gap, .punct, .punct c hc⟩

/-- The name of a member. -/
def namePiece (gap : Gap) (body : List Char) (hbody : Body body) : Piece :=
  ⟨gap, .key, .string body hbody⟩

/-- What a part of a document is. -/
inductive Part where
  | value | elements | members

/-- **The documents of JSON**, as the grammar has them: the strings that name members are keys, the
    others are not. -/
inductive Document : Part → List Piece → Prop where
  | string (gap : Gap) (body : List Char) (hbody : Body body) :
      Document .value [⟨gap, .string, .string body hbody⟩]
  | number (gap : Gap) (n : Number) : Document .value [⟨gap, .number, .number n⟩]
  | literal (gap : Gap) (word : List Char)
      (hword : word = "true".toList ∨ word = "false".toList ∨ word = "null".toList) :
      Document .value [⟨gap, .literal, .literal word hword⟩]
  | emptyArray (gap close : Gap) : Document .value [punctPiece gap '[' rfl, punctPiece close ']' rfl]
  | array (gap close : Gap) {elements : List Piece} : Document .elements elements →
      Document .value (punctPiece gap '[' rfl :: (elements ++ [punctPiece close ']' rfl]))
  | emptyObject (gap close : Gap) :
      Document .value [punctPiece gap '{' rfl, punctPiece close '}' rfl]
  | object (gap close : Gap) {members : List Piece} : Document .members members →
      Document .value (punctPiece gap '{' rfl :: (members ++ [punctPiece close '}' rfl]))
  | element {value : List Piece} : Document .value value → Document .elements value
  | elements (comma : Gap) {value more : List Piece} : Document .value value →
      Document .elements more → Document .elements (value ++ punctPiece comma ',' rfl :: more)
  | member (gap colon : Gap) {body : List Char} (hbody : Body body) {value : List Piece} :
      Document .value value →
      Document .members (namePiece gap body hbody :: punctPiece colon ':' rfl :: value)
  | members (gap colon comma : Gap) {body : List Char} (hbody : Body body)
      {value more : List Piece} : Document .value value → Document .members more →
      Document .members (namePiece gap body hbody :: punctPiece colon ':' rfl ::
        (value ++ punctPiece comma ',' rfl :: more))

/-- A text goes on with a blank or a punctuator, or is at its end. -/
def Stops (text : List Char) : Prop :=
  ∀ c, text.head? = some c → isBlank c = true ∨ isPunctuator c = true

/-! ## Lexemes are read whole -/

theorem stringRun_body {body : List Char} (h : Body body) (after : List Char) :
    stringRun (body ++ '"' :: after) = body.length := by
  induction h with
  | nil => simp [stringRun]
  | @letter c body hc hbody ih =>
    have hnext : stringRun (c :: (body ++ '"' :: after)) = stringRun (body ++ '"' :: after) + 1 := by
      rw [stringRun]
      · simp [hc.1, hc.2.1, hc.2.2]
      · rintro d rest rfl
        exact absurd rfl hc.2.1
    rw [List.cons_append, hnext, ih, List.length_cons]
  | @escape c body hc hbody ih =>
    have hnext : stringRun ('\\' :: c :: (body ++ '"' :: after)) =
        stringRun (body ++ '"' :: after) + 2 := by
      rw [stringRun]
      simp [hc]
    rw [List.cons_append, List.cons_append, hnext, ih, List.length_cons, List.length_cons]

theorem digits_append {ds after : List Char} (hds : ∀ c ∈ ds, isDigit c = true)
    (hafter : after.head?.any isDigit = false) : digits (ds ++ after) = ds.length := by
  have hstop : after.takeWhile isDigit = [] := by
    cases after with
    | nil => rfl
    | cons c rest =>
      have hc : isDigit c = false := by simpa using hafter
      simp [hc]
  rw [digits, List.takeWhile_append_of_pos hds, hstop, List.append_nil]

/-- Neither a digit nor anything else that goes on with a number or a word follows a lexeme. -/
theorem Stops.not {after : List Char} (h : Stops after) {p : Char → Bool}
    (hp : ∀ c, isBlank c = true ∨ isPunctuator c = true → p c = false) :
    after.head?.any p = false := by
  cases hhead : after.head? with
  | none => rfl
  | some c => exact hp c (h c hhead)

/-- The blanks and the punctuators. -/
theorem stops_cases {c : Char} (h : isBlank c = true ∨ isPunctuator c = true) :
    c ∈ [' ', '\t', '\n', '\r', '{', '}', '[', ']', ',', ':'] := by
  simp only [isBlank, isPunctuator, Bool.or_eq_true, decide_eq_true_eq, or_assoc] at h
  simpa only [List.mem_cons, List.not_mem_nil, or_false] using h

theorem Stops.facts {after : List Char} (h : Stops after) :
    after.head?.any isDigit = false ∧ after.head?.any continuesWord = false ∧
      after.head?.any (fun c => c = '.' || c = 'e' || c = 'E') = false := by
  have hall : ∀ c ∈ [' ', '\t', '\n', '\r', '{', '}', '[', ']', ',', ':'],
      isDigit c = false ∧ continuesWord c = false ∧
        (c = '.' || c = 'e' || c = 'E') = false :=
    List.forall_iff_forall_mem.mp (by decide)
  exact ⟨h.not fun c hc => (hall c (stops_cases hc)).1,
    h.not fun c hc => (hall c (stops_cases hc)).2.1,
    h.not fun c hc => (hall c (stops_cases hc)).2.2⟩

theorem scanString_none {c : Char} (hc : c ≠ '"') (rest : List Char) :
    scanString (c :: rest) = none := by
  unfold scanString
  split
  · rename_i heq
    cases heq
    exact absurd rfl hc
  · rfl

theorem scanLiteral_none {c : Char} (hc : c ≠ 't' ∧ c ≠ 'f' ∧ c ≠ 'n') (prev : Option Char)
    (rest : List Char) : scanLiteral prev (c :: rest) = none := by
  unfold scanLiteral
  split
  · rfl
  · simp [List.isPrefixOf, Ne.symm hc.1, Ne.symm hc.2.1, Ne.symm hc.2.2]

theorem scanWord_none {c : Char} (hc : beginsWord c = false) (rest : List Char) :
    scanWord (c :: rest) = none := by
  simp [scanWord, hc]

/-- A string is read to its closing quote. -/
theorem scan_string {body : List Char} (h : Body body) (prev : Option Char) (after : List Char) :
    scan prev ('"' :: (body ++ '"' :: after)) = some (body.length + 2) := by
  have hrun := stringRun_body h after
  have hclosed : ((body ++ '"' :: after).drop (stringRun (body ++ '"' :: after))).head? =
      some '"' := by
    rw [hrun, List.drop_left]
    rfl
  have hstring : scanString ('"' :: (body ++ '"' :: after)) = some (body.length + 2) := by
    rw [scanString, if_pos hclosed, hrun]
  rw [scan, hstring, Option.some_or]

/-- A literal is read to its end, whatever stands before it. -/
theorem scan_literal {word : List Char}
    (hword : word = "true".toList ∨ word = "false".toList ∨ word = "null".toList)
    (prev : Option Char) {after : List Char} (hafter : Stops after) :
    scan prev (word ++ after) = some word.length := by
  have hcontinues := hafter.facts.2.1
  have hnext : after.head?.any isWord = false := by
    cases hhead : after.head? with
    | none => rfl
    | some c =>
      rw [hhead] at hcontinues
      have hc : isWord c = false ∧ c ≠ '$' := by simpa [continuesWord] using hcontinues
      exact hc.1
  have htail : after.takeWhile continuesWord = [] := by
    cases after with
    | nil => rfl
    | cons c rest =>
      have hc : continuesWord c = false := by simpa using hcontinues
      simp [hc]
  have hboth : scanString (word ++ after) = none ∧
      (scanLiteral prev (word ++ after)).or (scanWord (word ++ after)) = some word.length := by
    rcases hword with rfl | rfl | rfl
    all_goals
      refine ⟨rfl, ?_⟩
      cases hprev : prev.any isWord with
      | true =>
        -- the literal is refused after a word character, and read as a word
        simp [scanLiteral, hprev, scanWord, beginsWord, isLower, List.takeWhile, continuesWord,
          isWord, htail]
      | false =>
        rw [List.head?_eq_getElem?] at hnext
        simp [scanLiteral, hprev, List.isPrefixOf, hnext]
  rw [scan, hboth.1, Option.none_or]
  cases hliteral : scanLiteral prev (word ++ after) with
  | none =>
    have hword := hboth.2
    rw [hliteral, Option.none_or] at hword
    rw [hword, Option.none_or, Option.some_or]
  | some n =>
    have hsome := hboth.2
    rw [hliteral, Option.some_or] at hsome
    rw [hsome, Option.some_or]

/-- What stands after the decimals of a number. -/
theorem Number.head_powerText (n : Number) {after : List Char} (hafter : Stops after) :
    (n.powerText ++ after).head?.any isDigit = false ∧
      (n.powerText ++ after).head? ≠ some '.' := by
  cases hpower : n.power with
  | none =>
    have hnil : n.powerText ++ after = after := by simp [powerText, hpower]
    rw [hnil]
    refine ⟨hafter.facts.1, fun hdot => ?_⟩
    have hnot := hafter.facts.2.2
    rw [hdot] at hnot
    exact absurd hnot (by decide)
  | some x =>
    obtain ⟨hmark, -, -⟩ := n.power_digits x hpower
    have hhead : (n.powerText ++ after).head? = some x.1 := by simp [powerText, hpower]
    rw [hhead]
    rcases hmark with hmark | hmark
    all_goals
      rw [hmark]
      decide

/-- What stands after the whole part of a number. -/
theorem Number.head_decimalText (n : Number) {after : List Char} (hafter : Stops after) :
    (n.decimalText ++ (n.powerText ++ after)).head?.any isDigit = false := by
  cases hdecimals : n.decimals with
  | none =>
    have hnil : n.decimalText = [] := by simp [decimalText, hdecimals]
    rw [hnil]
    exact (n.head_powerText hafter).1
  | some ds =>
    have hhead : (n.decimalText ++ (n.powerText ++ after)).head? = some '.' := by
      simp [decimalText, hdecimals]
    rw [hhead]
    decide

/-- The first character of a number. -/
theorem Number.head_text (n : Number) :
    ∃ c rest, n.text = c :: rest ∧ (c = '-' ∨ isDigit c = true) := by
  obtain ⟨hsome, hall⟩ := n.whole_digits
  obtain ⟨d, ds, hwhole⟩ := List.exists_cons_of_ne_nil hsome
  cases hneg : n.negative with
  | true => exact ⟨'-', n.whole ++ n.decimalText ++ n.powerText, by simp [text, hneg], .inl rfl⟩
  | false =>
    refine ⟨d, ds ++ n.decimalText ++ n.powerText, by simp [text, hneg, hwhole], .inr ?_⟩
    exact hall d (by simp [hwhole])

/-- What a number's first character is not. -/
theorem number_first {c : Char} (hc : c = '-' ∨ isDigit c = true) :
    c ≠ '"' ∧ (c ≠ 't' ∧ c ≠ 'f' ∧ c ≠ 'n') ∧ beginsWord c = false ∧ isBlank c = false ∧
      isPunctuator c = false := by
  have hmem : c ∈ ['-', '0', '1', '2', '3', '4', '5', '6', '7', '8', '9'] := by
    rcases hc with rfl | hc
    · decide
    · simp only [isDigit, Bool.and_eq_true, decide_eq_true_eq, Char.le_def,
        UInt32.le_iff_toNat_le] at hc
      simp only [List.mem_cons, List.not_mem_nil, or_false, Char.ext_iff, ← UInt32.toNat_inj]
      simp at hc ⊢
      omega
  have hall : ∀ c ∈ ['-', '0', '1', '2', '3', '4', '5', '6', '7', '8', '9'],
      c ≠ '"' ∧ (c ≠ 't' ∧ c ≠ 'f' ∧ c ≠ 'n') ∧ beginsWord c = false ∧ isBlank c = false ∧
        isPunctuator c = false :=
    List.forall_iff_forall_mem.mp (by decide)
  exact hall c hmem

theorem Number.minus_text (n : Number) (after : List Char) :
    minus (n.text ++ after) = (if n.negative then ['-'] else []).length := by
  obtain ⟨hsome, hall⟩ := n.whole_digits
  obtain ⟨d, ds, hwhole⟩ := List.exists_cons_of_ne_nil hsome
  cases hneg : n.negative with
  | true => simp [text, hneg, minus]
  | false =>
    have hd : isDigit d = true := hall d (by simp [hwhole])
    have hminus : d ≠ '-' := by
      rintro rfl
      exact absurd hd (by decide)
    simp [text, hneg, hwhole, minus, hminus]

theorem Number.fraction_text (n : Number) {after : List Char} (hafter : Stops after) :
    fraction (n.decimalText ++ (n.powerText ++ after)) = n.decimalText.length := by
  cases hdecimals : n.decimals with
  | none =>
    have hnil : n.decimalText = [] := by simp [decimalText, hdecimals]
    have hdot := (n.head_powerText hafter).2
    rw [hnil, List.nil_append, List.length_nil]
    unfold fraction
    split
    · rename_i heq
      rw [heq] at hdot
      exact absurd rfl hdot
    · rfl
  | some ds =>
    obtain ⟨hsome, hall⟩ := n.decimals_digits ds hdecimals
    have hlength : ds.length ≠ 0 := fun h => hsome (List.length_eq_zero_iff.mp h)
    have hdigits : digits (ds ++ (n.powerText ++ after)) = ds.length :=
      digits_append hall (n.head_powerText hafter).1
    have htext : n.decimalText = '.' :: ds := by simp [decimalText, hdecimals]
    rw [htext, List.cons_append, fraction, hdigits, if_neg hlength, List.length_cons]

theorem Number.exponent_text (n : Number) {after : List Char} (hafter : Stops after) :
    exponent (n.powerText ++ after) = n.powerText.length := by
  cases hpower : n.power with
  | none =>
    have hnil : n.powerText = [] := by simp [powerText, hpower]
    rw [hnil, List.nil_append, List.length_nil]
    cases after with
    | nil => rfl
    | cons c rest =>
      have hc := hafter.facts.2.2
      simp only [List.head?_cons, Option.any_some, Bool.or_eq_false_iff] at hc
      simp [exponent, hc]
  | some x =>
    obtain ⟨mark, signed, ds⟩ := x
    obtain ⟨hmark, hsigned, hsome, hall⟩ := n.power_digits _ hpower
    have hlength : ds.length ≠ 0 := fun h => hsome (List.length_eq_zero_iff.mp h)
    have hdigits : digits (ds ++ after) = ds.length := digits_append hall hafter.facts.1
    have htext : n.powerText = mark :: (signed.toList ++ ds) := by simp [powerText, hpower]
    have hsign : sign (signed.toList ++ (ds ++ after)) = signed.toList.length := by
      cases hsigned' : signed with
      | none =>
        obtain ⟨d, ds', rfl⟩ := List.exists_cons_of_ne_nil hsome
        have hd : isDigit d = true := hall d List.mem_cons_self
        have hplus : d ≠ '+' ∧ d ≠ '-' := by
          constructor <;> (rintro rfl; exact absurd hd (by decide))
        simp [sign, hplus]
      | some s =>
        rcases hsigned s hsigned' with rfl | rfl
        all_goals rfl
    rw [htext, List.cons_append, exponent, List.append_assoc, hsign, List.drop_left, hdigits,
      if_neg hlength, if_pos (by simpa using hmark)]
    simp only [List.length_cons, List.length_append]
    omega

/-- A number is read to its end. -/
theorem scan_number (n : Number) (prev : Option Char) {after : List Char} (hafter : Stops after) :
    scan prev (n.text ++ after) = some n.text.length := by
  have hnumber : scanNumber (n.text ++ after) = some n.text.length := by
    obtain ⟨hsome, hall⟩ := n.whole_digits
    have hlength : n.whole.length ≠ 0 := fun h => hsome (List.length_eq_zero_iff.mp h)
    have htext : n.text ++ after = (if n.negative then ['-'] else []) ++
        (n.whole ++ (n.decimalText ++ (n.powerText ++ after))) := by
      simp [Number.text]
    have hdigits : digits (n.whole ++ (n.decimalText ++ (n.powerText ++ after))) =
        n.whole.length := digits_append hall (n.head_decimalText hafter)
    have hwhole : (n.text ++ after).drop (minus (n.text ++ after)) =
        n.whole ++ (n.decimalText ++ (n.powerText ++ after)) := by
      rw [n.minus_text, htext, List.drop_left]
    have hdecimals : (n.text ++ after).drop (minus (n.text ++ after) + n.whole.length) =
        n.decimalText ++ (n.powerText ++ after) := by
      rw [← List.drop_drop, hwhole, List.drop_left]
    have hpower : (n.text ++ after).drop (minus (n.text ++ after) + n.whole.length +
        n.decimalText.length) = n.powerText ++ after := by
      rw [← List.drop_drop, hdecimals, List.drop_left]
    simp only [scanNumber]
    rw [hwhole, hdigits, if_neg hlength, hdecimals, n.fraction_text hafter, hpower,
      n.exponent_text hafter, n.minus_text]
    simp only [Number.text, List.length_append]
  obtain ⟨c, rest, htext, hc⟩ := n.head_text
  obtain ⟨hquote, hletters, hbegins, -, -⟩ := number_first hc
  rw [scan, hnumber, htext, List.cons_append, scanString_none hquote, scanLiteral_none hletters,
    scanWord_none hbegins]
  rfl

/-- A punctuator is read by itself. -/
theorem scan_punct {c : Char} (hc : isPunctuator c = true) (prev : Option Char)
    (after : List Char) : scan prev (c :: after) = some 1 := by
  have hcases := stops_cases (.inr hc)
  have hall : ∀ c ∈ [' ', '\t', '\n', '\r', '{', '}', '[', ']', ',', ':'],
      c ≠ '"' ∧ (c ≠ 't' ∧ c ≠ 'f' ∧ c ≠ 'n') ∧ beginsWord c = false ∧ isDigit c = false ∧
        c ≠ '-' :=
    List.forall_iff_forall_mem.mp (by decide)
  obtain ⟨hquote, hletters, hbegins, hdigit, hminus⟩ := hall c hcases
  have hnumber : scanNumber (c :: after) = none := by
    have hzero : minus (c :: after) = 0 := by
      unfold minus
      split
      · rename_i heq
        cases heq
        exact absurd rfl hminus
      · rfl
    simp [scanNumber, hzero, digits, hdigit]
  rw [scan, scanString_none hquote, scanLiteral_none hletters, scanWord_none hbegins, hnumber]
  simp [scanPunctuator, hc]

/-- Nothing is read from a blank on. -/
theorem scan_blank {c : Char} (hc : isBlank c = true) (prev : Option Char) (after : List Char) :
    scan prev (c :: after) = none := by
  have hcases := stops_cases (.inl hc)
  have hall : ∀ c, isBlank c = true → c ∈ [' ', '\t', '\n', '\r'] := by
    intro c h
    simp only [isBlank, Bool.or_eq_true, decide_eq_true_eq, or_assoc] at h
    simpa only [List.mem_cons, List.not_mem_nil, or_false] using h
  have hblank : ∀ c ∈ [' ', '\t', '\n', '\r'],
      c ≠ '"' ∧ (c ≠ 't' ∧ c ≠ 'f' ∧ c ≠ 'n') ∧ beginsWord c = false ∧ isDigit c = false ∧
        c ≠ '-' ∧ isPunctuator c = false :=
    List.forall_iff_forall_mem.mp (by decide)
  obtain ⟨hquote, hletters, hbegins, hdigit, hminus, hpunct⟩ := hblank c (hall c hc)
  have hnumber : scanNumber (c :: after) = none := by
    have hzero : minus (c :: after) = 0 := by
      unfold minus
      split
      · rename_i heq
        cases heq
        exact absurd rfl hminus
      · rfl
    simp [scanNumber, hzero, digits, hdigit]
  rw [scan, scanString_none hquote, scanLiteral_none hletters, scanWord_none hbegins, hnumber]
  simp [scanPunctuator, hpunct]

/-- **A lexeme is read whole**, where a value goes on with a blank or a punctuator. -/
theorem scan_lexeme (x : Lexeme) (prev : Option Char) {after : List Char}
    (hafter : x.punct? = none → Stops after) : scan prev (x.text ++ after) = some x.text.length := by
  cases x with
  | string body hbody =>
    have htext : (Lexeme.string body hbody).text ++ after = '"' :: (body ++ '"' :: after) := by
      simp [Lexeme.text]
    rw [htext, scan_string hbody]
    simp [Lexeme.text]
  | number n => exact scan_number n prev (hafter rfl)
  | literal word hword => exact scan_literal hword prev (hafter rfl)
  | punct c hc => exact scan_punct hc prev after

/-! ## Colours -/

/-- The first character of a lexeme is no blank, and a colon only in a colon. -/
theorem Lexeme.head_text (x : Lexeme) :
    ∃ c rest, x.text = c :: rest ∧ isBlank c = false ∧ (c = ':' ↔ x.punct? = some ':') := by
  cases x with
  | string body hbody => exact ⟨'"', body ++ ['"'], rfl, rfl, by simp [punct?]⟩
  | number n =>
    obtain ⟨c, rest, htext, hc⟩ := n.head_text
    obtain ⟨-, -, -, hblank, hpunct⟩ := number_first hc
    refine ⟨c, rest, htext, hblank, ⟨?_, fun h => by cases h⟩⟩
    rintro rfl
    exact absurd hpunct (by decide)
  | literal word hword =>
    rcases hword with rfl | rfl | rfl
    · exact ⟨'t', "rue".toList, rfl, rfl, by simp [punct?]⟩
    · exact ⟨'f', "alse".toList, rfl, rfl, by simp [punct?]⟩
    · exact ⟨'n', "ull".toList, rfl, rfl, by simp [punct?]⟩
  | punct c hc =>
    have hall : ∀ c ∈ ['{', '}', '[', ']', ',', ':'], isBlank c = false :=
      List.forall_iff_forall_mem.mp (by decide)
    have hmem : c ∈ ['{', '}', '[', ']', ',', ':'] := by
      simp only [isPunctuator, Bool.or_eq_true, decide_eq_true_eq, or_assoc] at hc
      simpa only [List.mem_cons, List.not_mem_nil, or_false] using hc
    exact ⟨c, [], rfl, hall c hmem, by simp [punct?]⟩

/-- What stands between a lexeme and the next one, and from the next one on. -/
def Follows (next : Option Lexeme) (after : List Char) : Prop :=
  ∃ (gap : Gap) (rest : List Char), after = gap.text ++ rest ∧
    match next with
    | none => rest = []
    | some x => ∃ more, rest = x.text ++ more

/-- A colon follows exactly where the next lexeme is one. -/
theorem beforeColon_follows {next : Option Lexeme} {after : List Char} (h : Follows next after) :
    beforeColon after = true ↔ next.bind Lexeme.punct? = some ':' := by
  obtain ⟨gap, rest, rfl, hrest⟩ := h
  have hskip : (gap.text ++ rest).dropWhile isBlank = rest.dropWhile isBlank :=
    List.dropWhile_append_of_pos gap.blank
  cases next with
  | none =>
    rw [beforeColon, hskip, hrest]
    simp
  | some x =>
    obtain ⟨more, rfl⟩ := hrest
    obtain ⟨c, rest, htext, hblank, hcolon⟩ := x.head_text
    rw [beforeColon, hskip, htext]
    simpa [List.dropWhile_cons, hblank] using hcolon

/-- The colour of a lexeme before another one. -/
def Lexeme.kindBefore (x : Lexeme) (next : Option Lexeme) : Kind :=
  match x with
  | .string _ _ => if next.bind Lexeme.punct? = some ':' then .key else .string
  | .number _ => .number
  | .literal _ _ => .literal
  | .punct _ _ => .punct

theorem kindOf_lexeme (x : Lexeme) {next : Option Lexeme} {after : List Char}
    (h : Follows next after) : kindOf x.text after = x.kindBefore next := by
  cases x with
  | string body hbody =>
    have hcolon := beforeColon_follows h
    have hquote : (Lexeme.string body hbody).text.head? = some '"' := rfl
    rw [kindOf, if_pos hquote, Lexeme.kindBefore]
    split
    · rename_i hbefore
      rw [if_pos (hcolon.mp hbefore)]
    · rename_i hbefore
      rw [if_neg fun hnext => hbefore (hcolon.mpr hnext)]
  | number n =>
    obtain ⟨c, rest, htext, hc⟩ := n.head_text
    obtain ⟨hquote, ⟨ht, hf, hn⟩, -, -, hpunct⟩ := number_first hc
    have hword : ¬(c :: rest = "true".toList ∨ c :: rest = "false".toList ∨
        c :: rest = "null".toList) := by
      simp [ht, hf, hn]
    have hsingle : ¬((c :: rest).length = 1 ∧ (c :: rest).all isPunctuator = true) := by
      simp [hpunct]
    have hfirst : (c :: rest).head?.any (fun c => c = '-' || isDigit c) = true := by
      simpa using hc
    rw [Lexeme.text, htext, kindOf, if_neg (by simpa using hquote), if_neg hword, if_neg hsingle,
      if_pos hfirst, Lexeme.kindBefore]
  | literal word hword =>
    have hquote : word.head? ≠ some '"' := by
      rcases hword with rfl | rfl | rfl
      all_goals decide
    rw [Lexeme.text, kindOf, if_neg hquote, if_pos hword, Lexeme.kindBefore]
  | punct c hc =>
    have hall : ∀ c ∈ [' ', '\t', '\n', '\r', '{', '}', '[', ']', ',', ':'],
        [c].head? ≠ some '"' ∧
          ¬([c] = "true".toList ∨ [c] = "false".toList ∨ [c] = "null".toList) :=
      List.forall_iff_forall_mem.mp (by decide)
    obtain ⟨hquote, hword⟩ := hall c (stops_cases (.inr hc))
    rw [Lexeme.text, kindOf, if_neg hquote, if_neg hword, if_pos (by simpa using hc),
      Lexeme.kindBefore]

/-! ## Runs of pieces -/

/-- What is passed over as part of a match is left out, and what stands before the next place is its
    last character. -/
theorem runs_skip (prev : Option Char) (plain text rest : List Char) (h : text ≠ []) :
    runs prev plain text.length (text ++ rest) = runs text.getLast? plain 0 rest := by
  induction text generalizing prev with
  | nil => exact absurd rfl h
  | cons c text ih =>
    rw [List.length_cons, List.cons_append, runs]
    cases text with
    | nil => rfl
    | cons d text => rw [ih _ (List.cons_ne_nil d text), List.getLast?_cons_cons]

/-- Blanks are stepped over. -/
theorem runs_gap (prev : Option Char) (plain : List Char) (gap : Gap) (rest : List Char) :
    ∃ prev', runs prev plain 0 (gap.text ++ rest) = runs prev' (plain ++ gap.text) 0 rest := by
  obtain ⟨text, hblank⟩ := gap
  dsimp only
  induction text generalizing prev plain with
  | nil => exact ⟨prev, by simp⟩
  | cons c text ih =>
    obtain ⟨prev', hprev⟩ := ih (some c) (plain ++ [c]) fun d hd =>
      hblank d (List.mem_cons_of_mem c hd)
    refine ⟨prev', ?_⟩
    rw [List.cons_append, runs, scan_blank (hblank c List.mem_cons_self)]
    simpa using hprev

/-- **A piece is its runs**, and what follows is read as it was. -/
theorem runs_piece (x : Piece) (prev : Option Char) {next : Option Lexeme} {after : List Char}
    (hnext : Follows next after) (hkind : x.kind = x.lexeme.kindBefore next)
    (hafter : x.lexeme.punct? = none → Stops after) :
    ∃ prev', runs prev [] 0 (x.text ++ after) = x.tokens ++ runs prev' [] 0 after := by
  obtain ⟨before, hbefore⟩ := runs_gap prev [] x.gap (x.lexeme.text ++ after)
  have hscan := scan_lexeme x.lexeme before hafter
  have hcolour := kindOf_lexeme x.lexeme hnext
  obtain ⟨c, rest, htext, -⟩ := x.lexeme.head_text
  have hskip := runs_skip before [] x.lexeme.text after (by simp [htext])
  refine ⟨x.lexeme.text.getLast?, ?_⟩
  rw [Piece.text, List.append_assoc, hbefore, List.nil_append]
  -- the match is passed over one character at a time, the first one with it
  have hrest : runs (some c) [] (x.lexeme.text.length - 1) (rest ++ after) =
      runs x.lexeme.text.getLast? [] 0 after := by
    rw [← hskip, htext, List.length_cons, List.cons_append, runs]
    simp
  have hread : runs before x.gap.text 0 (x.lexeme.text ++ after) = plainRun x.gap.text ++
      ⟨kindOf ((x.lexeme.text ++ after).take x.lexeme.text.length)
        ((x.lexeme.text ++ after).drop x.lexeme.text.length),
        (x.lexeme.text ++ after).take x.lexeme.text.length⟩ ::
        runs (some c) [] (x.lexeme.text.length - 1) (rest ++ after) := by
    rw [htext] at hscan
    rw [htext, List.cons_append, runs]
    rw [List.cons_append] at hscan
    rw [hscan]
  rw [hread, List.take_left, List.drop_left, hcolour, ← hkind, hrest, Piece.tokens,
    List.append_assoc, List.singleton_append]

/-! ## Documents are coloured lexeme by lexeme -/

/-- Pieces as the scanner colours them before a lexeme, where two values are never neighbours. -/
def Coloured : List Piece → Option Lexeme → Prop
  | [], _ => True
  | x :: rest, next =>
    x.kind = x.lexeme.kindBefore ((rest.head?.map Piece.lexeme).or next) ∧
      (x.lexeme.punct? = none → ∀ y ∈ (rest.head?.map Piece.lexeme).or next, y.punct?.isSome) ∧
      Coloured rest next

/-- A punctuator may stand before anything. -/
theorem coloured_punct (gap : Gap) {c : Char} (hc : isPunctuator c = true) {rest : List Piece}
    {next : Option Lexeme} (hrest : Coloured rest next) :
    Coloured (punctPiece gap c hc :: rest) next := by
  refine ⟨rfl, ?_, hrest⟩
  intro hvalue
  cases hvalue

/-- Pieces go on with others. -/
theorem coloured_append {pieces rest : List Piece} {next : Option Lexeme}
    (hpieces : Coloured pieces ((rest.head?.map Piece.lexeme).or next))
    (hrest : Coloured rest next) : Coloured (pieces ++ rest) next := by
  induction pieces with
  | nil => exact hrest
  | cons x pieces ih =>
    obtain ⟨hkind, hvalue, hmore⟩ := hpieces
    have hnext : ((pieces ++ rest).head?.map Piece.lexeme).or next =
        (pieces.head?.map Piece.lexeme).or ((rest.head?.map Piece.lexeme).or next) := by
      cases pieces <;> simp
    rw [List.cons_append, Coloured, hnext]
    exact ⟨hkind, hvalue, ih hmore⟩

/-- What may follow a value: a punctuator that is no colon, or nothing. -/
def Ends (next : Option Lexeme) : Prop :=
  (∀ y ∈ next, y.punct?.isSome) ∧ next.bind Lexeme.punct? ≠ some ':'

theorem ends_punct {c : Char} (hc : isPunctuator c = true) (hcolon : c ≠ ':') :
    Ends (some (.punct c hc)) := by
  refine ⟨?_, by simpa [Lexeme.punct?] using hcolon⟩
  rintro y hy
  cases hy
  rfl

/-- A name before its colon. -/
theorem coloured_name (gap colon : Gap) {body : List Char} (hbody : Body body)
    {rest : List Piece} {next : Option Lexeme} (hrest : Coloured rest next) :
    Coloured (namePiece gap body hbody :: punctPiece colon ':' rfl :: rest) next := by
  refine ⟨rfl, ?_, coloured_punct colon rfl hrest⟩
  intro _ y hy
  cases hy
  rfl

/-- **The parts of a document are coloured as the grammar has them.** -/
theorem Document.coloured {part : Part} {pieces : List Piece} (h : Document part pieces)
    {next : Option Lexeme} (hnext : Ends next) : Coloured pieces next := by
  induction h generalizing next with
  | string gap body hbody => exact ⟨(if_neg hnext.2).symm, fun _ => hnext.1, trivial⟩
  | number gap n => exact ⟨rfl, fun _ => hnext.1, trivial⟩
  | literal gap word hword => exact ⟨rfl, fun _ => hnext.1, trivial⟩
  | emptyArray gap close => exact coloured_punct gap rfl (coloured_punct close rfl trivial)
  | emptyObject gap close => exact coloured_punct gap rfl (coloured_punct close rfl trivial)
  | array gap close helements ih =>
    apply coloured_punct gap rfl
    exact coloured_append (ih (ends_punct rfl (by decide))) (coloured_punct close rfl trivial)
  | object gap close hmembers ih =>
    apply coloured_punct gap rfl
    exact coloured_append (ih (ends_punct rfl (by decide))) (coloured_punct close rfl trivial)
  | element hvalue ih => exact ih hnext
  | elements comma hvalue hmore ihvalue ihmore =>
    exact coloured_append (ihvalue (ends_punct rfl (by decide)))
      (coloured_punct comma rfl (ihmore hnext))
  | member gap colon hbody hvalue ih => exact coloured_name gap colon hbody (ih hnext)
  | members gap colon comma hbody hvalue hmore ihvalue ihmore =>
    apply coloured_name gap colon hbody
    exact coloured_append (ihvalue (ends_punct rfl (by decide)))
      (coloured_punct comma rfl (ihmore hnext))

/-- What follows a piece in a text. -/
theorem follows_pieces (rest : List Piece) (last : Gap) :
    Follows (rest.head?.map Piece.lexeme) (rest.flatMap Piece.text ++ last.text) := by
  cases rest with
  | nil => exact ⟨last, [], by simp, rfl⟩
  | cons x rest =>
    exact ⟨x.gap, x.lexeme.text ++ (rest.flatMap Piece.text ++ last.text), by simp [Piece.text], _,
      rfl⟩

/-- A value stops before a punctuator or a blank. -/
theorem stops_pieces {rest : List Piece} (last : Gap)
    (h : ∀ y ∈ rest.head?.map Piece.lexeme, y.punct?.isSome) :
    Stops (rest.flatMap Piece.text ++ last.text) := by
  intro c hc
  cases rest with
  | nil =>
    rw [List.flatMap_nil, List.nil_append] at hc
    exact .inl (last.blank c (List.mem_of_head? hc))
  | cons x rest =>
    cases hgap : x.gap.text with
    | cons d gap =>
      have hd := x.gap.blank d (by simp [hgap])
      simp only [List.flatMap_cons, Piece.text, hgap, List.cons_append, List.head?_cons,
        Option.some.injEq] at hc
      exact .inl (hc ▸ hd)
    | nil =>
      have hpunct := h x.lexeme rfl
      cases hlexeme : x.lexeme with
      | punct d hd =>
        simp only [List.flatMap_cons, Piece.text, hgap, hlexeme, Lexeme.text, List.nil_append,
          List.cons_append, List.head?_cons, Option.some.injEq] at hc
        exact .inr (hc ▸ hd)
      | string body hbody => simp [hlexeme, Lexeme.punct?] at hpunct
      | number n => simp [hlexeme, Lexeme.punct?] at hpunct
      | literal word hword => simp [hlexeme, Lexeme.punct?] at hpunct

/-- Coloured pieces are read one by one. -/
theorem runs_coloured {pieces : List Piece} (h : Coloured pieces none) (prev : Option Char)
    (last : Gap) :
    runs prev [] 0 (pieces.flatMap Piece.text ++ last.text) =
      pieces.flatMap Piece.tokens ++ plainRun last.text := by
  induction pieces generalizing prev with
  | nil =>
    obtain ⟨prev', hprev⟩ := runs_gap prev [] last []
    simpa [runs] using hprev
  | cons x rest ih =>
    obtain ⟨hkind, hvalue, hrest⟩ := h
    rw [Option.or_none] at hkind hvalue
    obtain ⟨prev', hread⟩ := runs_piece x prev (follows_pieces rest last) hkind
      fun hpunct => stops_pieces last (hvalue hpunct)
    rw [List.flatMap_cons, List.append_assoc, hread, ih hrest, List.flatMap_cons, List.append_assoc]

/-- **A document of JSON is coloured lexeme by lexeme**, whatever blanks stand in it: the names of
    members as keys, the other strings as strings, and the blanks as plain. -/
theorem tokenizeJson_document {pieces : List Piece} (h : Document .value pieces) (last : Gap) :
    tokenizeJson (pieces.flatMap Piece.text ++ last.text) =
      pieces.flatMap Piece.tokens ++ plainRun last.text := by
  have hends : Ends none := by
    refine ⟨?_, by simp⟩
    intro y hy
    cases hy
  exact runs_coloured (h.coloured hends) none last

/-- A member whose value is a list, with a blank before the name and one at the end. -/
theorem tokenizeJson_document_member :
    tokenizeJson "\x7b \"a\":[\"b\",-1.5]\x7d ".toList =
      [⟨.punct, ['{']⟩, ⟨.plain, [' ']⟩, ⟨.key, "\"a\"".toList⟩, ⟨.punct, [':']⟩, ⟨.punct, ['[']⟩,
        ⟨.string, "\"b\"".toList⟩, ⟨.punct, [',']⟩, ⟨.number, "-1.5".toList⟩, ⟨.punct, [']']⟩,
        ⟨.punct, ['}']⟩, ⟨.plain, [' ']⟩] := by
  have hletter : ∀ c ∈ ['a', 'b'], Body [c] := by
    intro c hc
    rcases List.mem_pair.mp hc with rfl | rfl <;> exact .letter (by decide) .nil
  have hdigit : ∀ c ∈ ['1', '5'], Digits [c] := by
    intro c hc
    rcases List.mem_pair.mp hc with rfl | rfl <;> exact ⟨by simp, by simp [isDigit]⟩
  let n : Number :=
    { negative := true
      whole := ['1']
      decimals := some ['5']
      power := none
      whole_digits := hdigit '1' (by decide)
      decimals_digits := by
        rintro ds hds
        cases hds
        exact hdigit '5' (by decide)
      power_digits := by
        rintro x hx
        cases hx }
  let one : Gap := ⟨[' '], List.forall_mem_singleton.mpr rfl⟩
  let no : Gap := ⟨[], List.forall_mem_nil _⟩
  have hlist : Document .elements _ :=
    .elements no (.string no ['b'] (hletter 'b' (by decide))) (.element (.number no n))
  have hdocument := Document.object no no (.member one no (hletter 'a' (by decide))
    (.array no no hlist))
  exact tokenizeJson_document hdocument one

end MqStudio.Producer.JsonTokens
