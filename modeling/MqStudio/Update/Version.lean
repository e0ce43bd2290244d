import MqStudio.Storage

/-!
# Stable Versions

`update.parseStableVersion` and `CompareStable`: the versions an update is offered for. A build
whose version does not parse has no release to compare against.
-/

namespace MqStudio.Update

open MqStudio.Lib
open MqStudio.Storage

/-- The characters of a build identifier. -/
def isIdentifierChar (c : Char) : Bool :=
  c.isDigit || ('A' ≤ c && c ≤ 'Z') || ('a' ≤ c && c ≤ 'z') || c = '-'

/-- `(0|[1-9]\d*)`, below 2^64. -/
def parseNumeral (digits : List Char) : Option Nat :=
  if digits = [] ∨ (digits.head? = some '0' ∧ digits ≠ ['0']) then none
  else
    let value := digits.foldl (fun n c => 10 * n + (c.toNat - '0'.toNat)) 0
    if value < 18446744073709551616 then some value else none

/-- The numeral a text starts with, and the rest of the text. -/
def takeNumeral (text : List Char) : Option (Nat × List Char) :=
  (parseNumeral (text.takeWhile Char.isDigit)).map fun n => (n, text.dropWhile Char.isDigit)

/-- `\.`, and the rest of the text. -/
def takeDot : List Char → Option (List Char)
  | '.' :: rest => some rest
  | _ => none

/-- `(?:\+[0-9A-Za-z-]+(?:\.[0-9A-Za-z-]+)*)?$` -/
def isBuild : List Char → Bool
  | [] => true
  | '+' :: identifiers =>
    (identifiers.splitOn '.').all fun one => !one.isEmpty && one.all isIdentifierChar
  | _ => false

/-- `parseStableVersion`: major, minor and patch. -/
def parseStableVersion (value : String) : Option (Nat × Nat × Nat) := do
  let text := (trimSpace value).toList
  let (major, rest) ← takeNumeral (if text.head? = some 'v' then text.tail else text)
  let rest ← takeDot rest
  let (minor, rest) ← takeNumeral rest
  let rest ← takeDot rest
  let (patch, rest) ← takeNumeral rest
  if isBuild rest then some (major, minor, patch) else none

example : parseStableVersion " v1.20.3+build.7 " = some (1, 20, 3) := by decide

example : parseStableVersion "1.2.3-beta" = none := by decide

/-- `CompareStable(left, right) < 0`: both parse, and the left is the older. -/
@[irreducible] def older (left right : String) : Bool :=
  match parseStableVersion left with
  | none => false
  | some l =>
    match parseStableVersion right with
    | none => false
    | some r =>
      l.1 < r.1 || (l.1 = r.1 && (l.2.1 < r.2.1 || (l.2.1 = r.2.1 && l.2.2 < r.2.2)))

/-- `isDevelopmentBuild` -/
@[irreducible] def isDevelopmentBuild (version : String) : Bool := (parseStableVersion version).isNone

/-! ## Numerals -/

/-- A numeral has no leading zero. -/
theorem head?_toDigits {n : Nat} (h : (Nat.toDigits 10 n).head? = some '0') : n = 0 := by
  induction n using Nat.strongRecOn with
  | ind n ih =>
    by_cases hsmall : n < 10
    · rw [Nat.toDigits_of_lt_base hsmall] at h
      have hzero : n.digitChar = '0' := by simpa using h
      have hvalue := Nat.toNat_digitChar_sub_48_of_lt_ten hsmall
      rw [hzero] at hvalue
      exact hvalue.symm
    · rw [Nat.toDigits_of_base_le (by decide) (Nat.le_of_not_lt hsmall),
        List.head?_append_of_ne_nil _ Nat.toDigits_ne_nil] at h
      have hquotient := ih (n / 10) (by omega) h
      omega

/-- A numeral is read back. -/
theorem parseNumeral_toDigits {n : Nat} (h : n < 18446744073709551616) :
    parseNumeral (Nat.toDigits 10 n) = some n := by
  have hvalue : (Nat.toDigits 10 n).foldl (fun n c => 10 * n + (c.toNat - '0'.toNat)) 0 = n := by
    have hback : Nat.ofDigitChars 10 (Nat.toDigits 10 n) 0 = n := Nat.ofDigitChars_ten_toDigits
    rwa [Nat.ofDigitChars_eq_foldl] at hback
  unfold parseNumeral
  rw [if_neg ?_, hvalue]
  · exact if_pos h
  · rintro (hempty | ⟨hzero, hne⟩)
    · exact Nat.toDigits_ne_nil hempty
    · rw [head?_toDigits hzero] at hne
      exact hne (Nat.toDigits_zero 10)

theorem isDigit_of_numeral {n : Nat} {x : Char} (h : x ∈ Nat.toDigits 10 n) : x.isDigit = true :=
  Nat.isDigit_of_mem_toDigits (by decide) (by decide) h

/-- The numeral a text starts with is read back, up to a character that is no digit. -/
theorem takeNumeral_toDigits {n : Nat} (h : n < 18446744073709551616) {rest : List Char}
    (hrest : ∀ x ∈ rest.head?, x.isDigit = false) :
    takeNumeral (Nat.toDigits 10 n ++ rest) = some (n, rest) := by
  have htake : rest.takeWhile Char.isDigit = [] := by
    cases rest with
    | nil => rfl
    | cons x xs =>
      have hx := hrest x rfl
      simp [hx]
  have hdrop : rest.dropWhile Char.isDigit = rest := by
    cases rest with
    | nil => rfl
    | cons x xs =>
      have hx := hrest x rfl
      simp [hx]
  have hdigits : ∀ x ∈ Nat.toDigits 10 n, x.isDigit = true := fun x => isDigit_of_numeral
  rw [takeNumeral, List.takeWhile_append_of_pos hdigits, List.dropWhile_append_of_pos hdigits,
    htake, hdrop, List.append_nil, parseNumeral_toDigits h]
  rfl

theorem isSpace_of_isDigit {x : Char} (h : x.isDigit = true) : isSpace x = false := by
  simp only [Char.isDigit, Bool.and_eq_true, decide_eq_true_eq, ge_iff_le, UInt32.le_iff_toNat_le]
    at h
  obtain ⟨hlow, hhigh⟩ := h
  have hne : ∀ y : Char, y.val.toNat < 48 → x ≠ y := by
    rintro y hy rfl
    exact absurd hlow (Nat.not_le_of_lt hy)
  have hval : ∀ n : UInt32, n.toNat < 48 ∨ 57 < n.toNat → x.val ≠ n := by
    rintro n hn rfl
    rcases hn with hn | hn
    · exact absurd hlow (Nat.not_le_of_lt hn)
    · exact absurd hhigh (Nat.not_le_of_lt hn)
  have hrange : ¬ 0x2000 ≤ x.val := by
    rw [UInt32.le_iff_toNat_le]
    intro hle
    exact absurd (Nat.le_trans hle hhigh) (by decide)
  simp [isSpace, hne ' ' (by decide), hne '\t' (by decide), hne '\n' (by decide),
    hne '\r' (by decide), hval 0x0B (by decide), hval 0x0C (by decide), hval 0x85 (by decide),
    hval 0xA0 (by decide), hval 0x1680 (by decide), hrange, hval 0x2028 (by decide),
    hval 0x2029 (by decide), hval 0x202F (by decide), hval 0x205F (by decide),
    hval 0x3000 (by decide)]

/-- Nothing is trimmed off a text without blanks. -/
theorem trimSpace_eq_self {text : String} (h : ∀ x ∈ text.toList, isSpace x = false) :
    trimSpace text = text := by
  have hleft : text.toList.dropWhile isSpace = text.toList := by
    cases htext : text.toList with
    | nil => rfl
    | cons x xs =>
      have hx := h x (by simp [htext])
      simp [hx]
  have hright : text.toList.rdropWhile isSpace = text.toList := by
    rw [List.rdropWhile_eq_self_iff]
    intro hne
    simp [h _ (List.getLast_mem hne)]
  rw [trimSpace, Words.trim, hleft, hright, String.ofList_toList]

/-- What is parsed fits 64 bits. -/
theorem lt_of_parseNumeral {digits : List Char} {n : Nat} (h : parseNumeral digits = some n) :
    n < 18446744073709551616 := by
  unfold parseNumeral at h
  split at h
  · cases h
  · dsimp only at h
    split at h
    · rename_i hlt
      obtain rfl := Option.some.inj h
      exact hlt
    · cases h

theorem lt_of_takeNumeral {text rest : List Char} {n : Nat} (h : takeNumeral text = some (n, rest)) :
    n < 18446744073709551616 := by
  rw [takeNumeral, Option.map_eq_some_iff] at h
  obtain ⟨m, hm, heq⟩ := h
  obtain rfl : m = n := congrArg Prod.fst heq
  exact lt_of_parseNumeral hm

end MqStudio.Update
