import Mathlib.Algebra.Group.Int.Defs
import Mathlib.Algebra.Group.Nat.Defs
import Mathlib.Tactic.Ring

/-!
# Durations as Texts

A span of nanoseconds in a signed 64-bit word, as it is written for people (`1h0m0.5s`) and read
back. A text is a run of terms, each a decimal number and a unit; what is written uses hours, minutes
and seconds, or below one second a single smaller unit.

## Main results

- `parse_string`: what is written is read back.
- `spelled_string`: the letters it is written in.
-/

namespace MqStudio.Lib.Duration

/-! ## Writing -/

/-- The fraction of `v` over ten to the `prec`, without its trailing zeros, and the whole part.
    Digits come from the right, and the first that is not zero starts the printing. -/
def fmtFrac : Nat → Nat → Bool → List Char → List Char × Nat
  | 0, v, printed, digits => (if printed then '.' :: digits else digits, v)
  | prec + 1, v, printed, digits =>
    let printed := printed || v % 10 != 0
    fmtFrac prec (v / 10) printed (if printed then Nat.digitChar (v % 10) :: digits else digits)

/-- A number of `prec` decimals and its unit. -/
def fine (prec : Nat) (name : List Char) (n : Nat) : List Char :=
  Nat.toDigits 10 (fmtFrac prec n false []).2 ++ ((fmtFrac prec n false []).1 ++ name)

/-- Hours and minutes, from the first that is not zero on, and seconds with nine decimals. -/
def coarse (n : Nat) : List Char :=
  let seconds := (fmtFrac 9 n false []).2
  let text := Nat.toDigits 10 (seconds % 60) ++ ((fmtFrac 9 n false []).1 ++ ['s'])
  let minutes := seconds / 60
  if minutes = 0 then text
  else
    let text := Nat.toDigits 10 (minutes % 60) ++ (['m'] ++ text)
    let hours := minutes / 60
    if hours = 0 then text else Nat.toDigits 10 hours ++ (['h'] ++ text)

/-- A span of so many nanoseconds. -/
def format (n : Nat) : List Char :=
  if 10 ^ 9 ≤ n then coarse n
  else if n = 0 then ['0', 's']
  else if n < 10 ^ 3 then fine 0 ['n', 's'] n
  else if n < 10 ^ 6 then fine 3 ['µ', 's'] n
  else fine 6 ['m', 's'] n

/-- `Duration.String` -/
def string (d : Int) : List Char :=
  if d < 0 then '-' :: format d.natAbs else format d.natAbs

/-! ## Reading -/

/-- `unitMap`: the nanoseconds of each unit. The micro sign may also be a Greek letter. -/
def unitMap : List (List Char × Nat) :=
  [(['n', 's'], 1), (['u', 's'], 10 ^ 3), (['µ', 's'], 10 ^ 3), (['μ', 's'], 10 ^ 3),
    (['m', 's'], 10 ^ 6), (['s'], 10 ^ 9), (['m'], 60 * 10 ^ 9), (['h'], 3600 * 10 ^ 9)]

/-- The nanoseconds of a unit, if there is one of that name. -/
def unitOf (name : List Char) : Option Nat :=
  (unitMap.find? fun entry => entry.1 = name).map Prod.snd

/-- What the name of a unit may hold. -/
def isUnitLetter (c : Char) : Bool := c ≠ '.' && !c.isDigit

/-- The digits behind a point, if there is one, and what follows. -/
def fractionOf : List Char → List Char × List Char
  | '.' :: rest => (rest.takeWhile Char.isDigit, rest.dropWhile Char.isDigit)
  | rest => ([], rest)

/-- One number with its unit, in nanoseconds, and what follows. The fraction is rounded down; where
    its decimals go into the unit, as in all that is written, there is nothing to round. -/
def term (text : List Char) : Option (Nat × List Char) :=
  let whole := text.takeWhile Char.isDigit
  let (fraction, rest) := fractionOf (text.dropWhile Char.isDigit)
  if whole = [] ∧ fraction = [] then none
  else
    (unitOf (rest.takeWhile isUnitLetter)).bind fun unit =>
      let v := Nat.ofDigitChars 10 whole 0
      let part := Nat.ofDigitChars 10 fraction 0 * unit / 10 ^ fraction.length
      if 2 ^ 63 / unit < v ∨ 2 ^ 63 < v * unit + part then none
      else some (v * unit + part, rest.dropWhile isUnitLetter)

/-- All terms, added up. Each takes a letter, so there are no more rounds than letters. -/
def terms : Nat → Nat → List Char → Option Nat
  | _, d, [] => some d
  | 0, _, _ :: _ => none
  | rounds + 1, d, text =>
    (term text).bind fun (v, rest) => if 2 ^ 63 < d + v then none else terms rounds (d + v) rest

/-- The sign in front, if there is one, and what follows. -/
def signOf : List Char → Bool × List Char
  | '-' :: rest => (true, rest)
  | '+' :: rest => (false, rest)
  | rest => (false, rest)

/-- `ParseDuration` -/
def parse (text : List Char) : Option Int :=
  let (negative, rest) := signOf text
  if rest = ['0'] then some 0
  else if rest = [] then none
  else
    (terms rest.length 0 rest).bind fun d =>
      if negative then some (-d) else if d < 2 ^ 63 then some d else none

/-! ## Digits -/

theorem isDigit_of_mem_toDigits {n : Nat} {c : Char} (h : c ∈ Nat.toDigits 10 n) : c.isDigit = true :=
  Nat.isDigit_of_mem_toDigits (by decide) (by decide) h

/-- A run of digits ends where something else stands. -/
theorem takeWhile_digits {digits rest : List Char} (hdigits : ∀ c ∈ digits, c.isDigit = true)
    (hrest : ∀ c ∈ rest.head?, c.isDigit = false) :
    (digits ++ rest).takeWhile Char.isDigit = digits ∧
      (digits ++ rest).dropWhile Char.isDigit = rest := by
  rw [List.takeWhile_append_of_pos hdigits, List.dropWhile_append_of_pos hdigits]
  cases rest with
  | nil => simp
  | cons c rest =>
    have hc : c.isDigit = false := hrest c rfl
    simp [hc]

/-- So does the name of a unit. -/
theorem takeWhile_unit {name rest : List Char} (hname : ∀ c ∈ name, isUnitLetter c = true)
    (hrest : ∀ c ∈ rest.head?, c.isDigit = true) :
    (name ++ rest).takeWhile isUnitLetter = name ∧ (name ++ rest).dropWhile isUnitLetter = rest := by
  rw [List.takeWhile_append_of_pos hname, List.dropWhile_append_of_pos hname]
  cases rest with
  | nil => simp
  | cons c rest =>
    have hc : isUnitLetter c = false := by simp [isUnitLetter, hrest c rfl]
    simp [hc]

/-- Once printing has started every digit is printed. -/
theorem fmtFrac_printed (prec v : Nat) (digits : List Char)
    (hdigits : ∀ c ∈ digits, c.isDigit = true) :
    ∃ more, fmtFrac prec v true digits = ('.' :: more, v / 10 ^ prec) ∧
      (∀ c ∈ more, c.isDigit = true) ∧ more.length = prec + digits.length ∧
      Nat.ofDigitChars 10 more 0 =
        v % 10 ^ prec * 10 ^ digits.length + Nat.ofDigitChars 10 digits 0 := by
  induction prec generalizing v digits with
  | zero => exact ⟨digits, by simp [fmtFrac], hdigits, by simp, by simp [Nat.mod_one]⟩
  | succ prec ih =>
    have hdigit : v % 10 < 10 := Nat.mod_lt _ (by decide)
    obtain ⟨more, hmore, hall, hlength, hvalue⟩ :=
      ih (v / 10) (Nat.digitChar (v % 10) :: digits) (by
        intro c hc
        rcases List.mem_cons.mp hc with rfl | hc
        · rw [Nat.isDigit_digitChar, decide_eq_true hdigit]
        · exact hdigits c hc)
    refine ⟨more, ?_, hall, by rw [hlength, List.length_cons]; omega, ?_⟩
    · rw [fmtFrac, Bool.true_or, if_pos rfl, hmore, Nat.div_div_eq_div_mul, Nat.pow_succ']
    · rw [hvalue, List.length_cons, Nat.ofDigitChars_cons_digitChar_of_lt_ten hdigit,
        Nat.ofDigitChars_eq_ofDigitChars_zero, Nat.pow_succ', Nat.pow_succ', Nat.mod_mul]
      ring

/-- A fraction as it stands in a text: nothing for none. -/
def point (digits : List Char) : List Char := if digits = [] then [] else '.' :: digits

/-- **What is printed of a fraction** is worth it. -/
theorem fmtFrac_spec (prec v : Nat) :
    ∃ digits, fmtFrac prec v false [] = (point digits, v / 10 ^ prec) ∧
      (∀ c ∈ digits, c.isDigit = true) ∧ digits.length ≤ prec ∧
      Nat.ofDigitChars 10 digits 0 * 10 ^ (prec - digits.length) = v % 10 ^ prec := by
  induction prec generalizing v with
  | zero => exact ⟨[], by simp [fmtFrac, point], by simp, Nat.le_refl _, by simp [Nat.mod_one]⟩
  | succ prec ih =>
    by_cases hzero : v % 10 = 0
    · -- a trailing zero is left out
      obtain ⟨digits, hprinted, hall, hlength, hvalue⟩ := ih (v / 10)
      refine ⟨digits, ?_, hall, Nat.le_succ_of_le hlength, ?_⟩
      · rw [fmtFrac, hzero]
        simp only [Bool.false_or, bne_self_eq_false, Bool.false_eq_true, if_false]
        rw [hprinted, Nat.div_div_eq_div_mul, Nat.pow_succ']
      · rw [Nat.succ_sub hlength, Nat.pow_succ', Nat.pow_succ', Nat.mod_mul, hzero, ← hvalue]
        ring
    · have hdigit : v % 10 < 10 := Nat.mod_lt _ (by decide)
      obtain ⟨more, hprinted, hall, hlength, hvalue⟩ :=
        fmtFrac_printed prec (v / 10) [Nat.digitChar (v % 10)] (by simp [hdigit])
      have hmore : more ≠ [] := by
        rintro rfl
        simp at hlength
      refine ⟨more, ?_, hall, by simp [hlength], ?_⟩
      · have hprint : (false || v % 10 != 0) = true := by simp [hzero]
        rw [fmtFrac, hprint, if_pos rfl, hprinted, point, if_neg hmore, Nat.div_div_eq_div_mul,
          Nat.pow_succ']
      · rw [hvalue, hlength, Nat.ofDigitChars_cons_digitChar_of_lt_ten hdigit, Nat.pow_succ',
          Nat.mod_mul]
        simp only [List.length_singleton, Nat.sub_self, Nat.ofDigitChars_nil]
        ring

/-! ## One term -/

/-- A unit is worth something, and its name is made of letters. -/
theorem unitOf_spec {name : List Char} {unit : Nat} (h : unitOf name = some unit) :
    0 < unit ∧ name ≠ [] ∧ ∀ c ∈ name, isUnitLetter c = true := by
  have htable : ∀ entry ∈ unitMap,
      0 < entry.2 ∧ entry.1 ≠ [] ∧ entry.1.all isUnitLetter = true := by decide
  obtain ⟨entry, hfound, rfl⟩ := Option.map_eq_some_iff.mp h
  have hname := List.find?_some hfound
  rw [decide_eq_true_eq] at hname
  rw [← hname]
  obtain ⟨hunit, hne, hletters⟩ := htable entry (List.mem_of_find?_eq_some hfound)
  exact ⟨hunit, hne, List.all_eq_true.mp hletters⟩

theorem isDigit_of_isUnitLetter {c : Char} (h : isUnitLetter c = true) :
    c.isDigit = false ∧ c ≠ '.' := by
  simp only [isUnitLetter, Bool.and_eq_true, decide_eq_true_eq, Bool.not_eq_true'] at h
  exact ⟨h.2, h.1⟩

/-- What is printed of a fraction, with a name behind it, is cut where it ends. -/
theorem fractionOf_point {digits text : List Char} (hall : ∀ c ∈ digits, c.isDigit = true)
    (htext : ∀ c ∈ text.head?, c.isDigit = false ∧ c ≠ '.') :
    fractionOf (point digits ++ text) = (digits, text) := by
  by_cases hnone : digits = []
  · subst hnone
    cases text with
    | nil => rfl
    | cons c text =>
      have hpoint : c ≠ '.' := (htext c rfl).2
      rw [point, if_pos rfl, List.nil_append, fractionOf.eq_2]
      intro rest hrest
      exact hpoint (List.cons.inj hrest).1
  · have hcut := takeWhile_digits hall fun c hc => (htext c hc).1
    rw [point, if_neg hnone, List.cons_append, fractionOf, hcut.1, hcut.2]

/-- **A term is read back**: its number in units of its own. -/
theorem term_written (prec w v k : Nat) {name : List Char} (rest : List Char)
    (hunit : unitOf name = some (10 ^ prec * k)) (hrest : ∀ c ∈ rest.head?, c.isDigit = true)
    (hfits : w * (10 ^ prec * k) + v % 10 ^ prec * k ≤ 2 ^ 63) :
    term (Nat.toDigits 10 w ++ ((fmtFrac prec v false []).1 ++ (name ++ rest))) =
      some (w * (10 ^ prec * k) + v % 10 ^ prec * k, rest) := by
  obtain ⟨hpos, hname, hletters⟩ := unitOf_spec hunit
  obtain ⟨digits, hprinted, hall, hlength, hvalue⟩ := fmtFrac_spec prec v
  obtain ⟨first, others, rfl⟩ := List.exists_cons_of_ne_nil hname
  have hfirst := isDigit_of_isUnitLetter (hletters first List.mem_cons_self)
  have hafter : ∀ c ∈ (first :: others ++ rest).head?, c.isDigit = false ∧ c ≠ '.' := by
    rintro c ⟨⟩
    exact hfirst
  have hfraction := fractionOf_point hall hafter
  have hbehind : ∀ c ∈ (point digits ++ (first :: others ++ rest)).head?, c.isDigit = false := by
    intro c hc
    by_cases hnone : digits = []
    · rw [point, if_pos hnone] at hc
      exact (hafter c hc).1
    · rw [point, if_neg hnone] at hc
      cases hc
      rfl
  have hwhole := takeWhile_digits (fun c hc => isDigit_of_mem_toDigits (n := w) hc) hbehind
  have hcut := takeWhile_unit hletters hrest
  have hpart : Nat.ofDigitChars 10 digits 0 * (10 ^ prec * k) / 10 ^ digits.length =
      v % 10 ^ prec * k := by
    rw [← hvalue]
    apply Nat.div_eq_of_eq_mul_left (Nat.pow_pos (by decide))
    rw [← Nat.sub_add_cancel hlength, Nat.pow_add]
    simp only [Nat.add_sub_cancel]
    ring
  have hv : ¬ 2 ^ 63 / (10 ^ prec * k) < w := by
    rw [Nat.not_lt, Nat.le_div_iff_mul_le hpos]
    omega
  rw [term, hprinted]
  dsimp only
  rw [hwhole.1, hwhole.2, hfraction]
  dsimp only
  rw [if_neg (fun h => Nat.toDigits_ne_nil h.1), hcut.1, hcut.2, hunit, Option.bind_some,
    Nat.ofDigitChars_ten_toDigits, hpart, if_neg (by omega)]

/-- A term without a fraction. -/
theorem term_whole {w unit : Nat} {name rest : List Char} (hunit : unitOf name = some unit)
    (hrest : ∀ c ∈ rest.head?, c.isDigit = true) (hfits : w * unit ≤ 2 ^ 63) :
    term (Nat.toDigits 10 w ++ (name ++ rest)) = some (w * unit, rest) := by
  have h := term_written 0 w 0 unit rest (by rw [hunit, Nat.pow_zero, Nat.one_mul]) hrest
    (by simpa using hfits)
  simpa [fmtFrac] using h

/-! ## All terms -/

theorem terms_nil (rounds d : Nat) : terms rounds d [] = some d := by
  cases rounds <;> rfl

/-- One round takes the first term. -/
theorem terms_term {rounds d v : Nat} {text rest : List Char} (hterm : term text = some (v, rest))
    (hfits : d + v ≤ 2 ^ 63) : terms (rounds + 1) d text = terms rounds (d + v) rest := by
  cases text with
  | nil => simp [term, fractionOf] at hterm
  | cons c text =>
    rw [terms, hterm, Option.bind_some]
    · exact if_neg (by omega)
    · simp

theorem digits_head {n : Nat} {rest : List Char} :
    ∀ c ∈ (Nat.toDigits 10 n ++ rest).head?, c.isDigit = true := by
  obtain ⟨first, others, hdigits⟩ := List.exists_cons_of_ne_nil (Nat.toDigits_ne_nil (b := 10) (n := n))
  rw [hdigits]
  rintro c ⟨⟩
  exact isDigit_of_mem_toDigits (n := n) (hdigits ▸ List.mem_cons_self)

/-- One number with its decimals is read back. -/
theorem terms_fine {rounds d w prec v k : Nat} {name : List Char}
    (hunit : unitOf name = some (10 ^ prec * k))
    (hfits : d + (w * (10 ^ prec * k) + v % 10 ^ prec * k) ≤ 2 ^ 63) :
    terms (rounds + 1) d (Nat.toDigits 10 w ++ ((fmtFrac prec v false []).1 ++ name)) =
      some (d + (w * (10 ^ prec * k) + v % 10 ^ prec * k)) := by
  have hterm := term_written prec w v k [] hunit (by simp) (by omega)
  rw [List.append_nil] at hterm
  rw [terms_term hterm hfits, terms_nil]

/-- A number of a unit of its own goes in front. -/
theorem terms_whole {rounds d w unit n : Nat} {name rest : List Char}
    (hunit : unitOf name = some unit) (hfits : d + w * unit ≤ 2 ^ 63) :
    terms (rounds + 1) d (Nat.toDigits 10 w ++ (name ++ (Nat.toDigits 10 n ++ rest))) =
      terms rounds (d + w * unit) (Nat.toDigits 10 n ++ rest) :=
  terms_term (term_whole hunit digits_head (by omega)) hfits

theorem fmtFrac_snd (prec v : Nat) : (fmtFrac prec v false []).2 = v / 10 ^ prec := by
  obtain ⟨digits, hprinted, -⟩ := fmtFrac_spec prec v
  rw [hprinted]

/-- **A span of a smaller unit is read back.** -/
theorem terms_format_fine {rounds prec k n : Nat} {name : List Char}
    (hunit : unitOf name = some (10 ^ prec * k)) (hone : k = 1) (hfits : n ≤ 2 ^ 63) :
    terms (rounds + 1) 0 (fine prec name n) = some n := by
  subst hone
  have hvalue : n / 10 ^ prec * (10 ^ prec * 1) + n % 10 ^ prec * 1 = n := by
    rw [Nat.mul_one, Nat.mul_one, Nat.div_add_mod']
  rw [fine, fmtFrac_snd, terms_fine hunit (by rw [hvalue]; omega), hvalue, Nat.zero_add]

theorem terms_seconds (rounds d w n : Nat) (hfits : d + (w * 10 ^ 9 + n % 10 ^ 9) ≤ 2 ^ 63) :
    terms (rounds + 1) d (Nat.toDigits 10 w ++ ((fmtFrac 9 n false []).1 ++ ['s'])) =
      some (d + (w * 10 ^ 9 + n % 10 ^ 9)) := by
  have h := @terms_fine rounds d w 9 n 1 ['s'] (by decide) (by omega)
  rw [Nat.mul_one, Nat.mul_one] at h
  exact h

/-- **Hours, minutes and seconds are read back.** -/
theorem terms_coarse {rounds n : Nat} (hfits : n ≤ 2 ^ 63) :
    terms (rounds + 3) 0 (coarse n) = some n := by
  have hm : unitOf ['m'] = some (60 * 10 ^ 9) := by decide
  have hh : unitOf ['h'] = some (3600 * 10 ^ 9) := by decide
  rw [coarse, fmtFrac_snd]
  dsimp only
  split
  · rw [terms_seconds _ _ _ _ (by omega), Option.some.injEq]
    omega
  · split
    · rw [terms_whole hm (by omega), terms_seconds _ _ _ _ (by omega), Option.some.injEq]
      omega
    · rw [terms_whole hh (by omega), terms_whole hm (by omega), terms_seconds _ _ _ _ (by omega),
        Option.some.injEq]
      omega

/-! ## Rounds enough -/

theorem length_fractionOf (text : List Char) : (fractionOf text).2.length ≤ text.length := by
  rw [fractionOf.eq_def]
  split
  · exact Nat.le_succ_of_le (List.dropWhile_suffix Char.isDigit).length_le
  · exact Nat.le_refl _

/-- A term takes the name of its unit. -/
theorem term_shorter {text rest : List Char} {v : Nat} (h : term text = some (v, rest)) :
    rest.length < text.length := by
  rw [term] at h
  dsimp only at h
  split at h
  · cases h
  · obtain ⟨unit, hunit, h⟩ := Option.bind_eq_some_iff.mp h
    obtain ⟨-, hname, -⟩ := unitOf_spec hunit
    have hrest : rest = (fractionOf (text.dropWhile Char.isDigit)).2.dropWhile isUnitLetter := by
      split at h
      · cases h
      · exact ((Prod.mk.inj (Option.some.inj h)).2).symm
    have hfraction := Nat.le_trans (length_fractionOf (text.dropWhile Char.isDigit))
      (List.dropWhile_suffix Char.isDigit).length_le
    have hcut := congrArg List.length (List.takeWhile_append_dropWhile (p := isUnitLetter)
      (l := (fractionOf (text.dropWhile Char.isDigit)).2))
    have hletter := List.length_pos_iff.mpr hname
    rw [List.length_append] at hcut
    rw [hrest]
    omega

/-- **As many rounds as letters are enough.** -/
theorem terms_enough {rounds more d : Nat} {text : List Char} (hrounds : text.length ≤ rounds)
    (hmore : text.length ≤ more) : terms rounds d text = terms more d text := by
  induction rounds generalizing more d text with
  | zero =>
    have hnone : text = [] := List.length_eq_zero_iff.mp (Nat.le_zero.mp hrounds)
    rw [hnone, terms_nil, terms_nil]
  | succ rounds ih =>
    cases text with
    | nil => rw [terms_nil, terms_nil]
    | cons c text =>
      obtain ⟨more, rfl⟩ : ∃ less, more = less + 1 := ⟨more - 1, by simp at hmore; omega⟩
      rw [terms, terms]
      · cases hterm : term (c :: text) with
        | none => rfl
        | some found =>
          have hless := term_shorter hterm
          simp only [Option.bind_some]
          split
          · rfl
          · exact ih (by omega) (by omega)
      · simp
      · simp

/-! ## Reading what is written -/

/-- **What is written is read back**, sign apart. -/
theorem terms_format {n : Nat} (hfits : n ≤ 2 ^ 63) :
    terms (format n).length 0 (format n) = some n := by
  rw [terms_enough (Nat.le_refl _) (Nat.le_add_right _ 3), format]
  split
  · exact terms_coarse hfits
  · split
    · rename_i hzero
      rw [hzero]
      decide
    · split
      · exact terms_format_fine (by decide) rfl hfits
      · split
        · exact terms_format_fine (by decide) rfl hfits
        · exact terms_format_fine (by decide) rfl hfits

theorem written_shape (w : Nat) {text : List Char} (h : text ≠ []) :
    ∃ first rest, Nat.toDigits 10 w ++ text = first :: rest ∧ first.isDigit = true ∧ rest ≠ [] := by
  obtain ⟨first, others, hdigits⟩ := List.exists_cons_of_ne_nil (Nat.toDigits_ne_nil (b := 10) (n := w))
  refine ⟨first, others ++ text, by rw [hdigits]; rfl, ?_, by simp [h]⟩
  exact isDigit_of_mem_toDigits (n := w) (hdigits ▸ List.mem_cons_self)

/-- A span starts with a digit and has a unit behind it. -/
theorem format_shape (n : Nat) :
    ∃ first rest, format n = first :: rest ∧ first.isDigit = true ∧ rest ≠ [] := by
  rw [format]
  split
  · rw [coarse]
    dsimp only
    split
    · exact written_shape _ (by simp)
    · split
      · exact written_shape _ (by simp)
      · exact written_shape _ (by simp)
  · split
    · exact ⟨'0', ['s'], rfl, rfl, by simp⟩
    · split
      · exact written_shape _ (by simp)
      · split
        · exact written_shape _ (by simp)
        · exact written_shape _ (by simp)

/-- **Reading undoes writing.** -/
theorem parse_string {d : Int} (hlower : -2 ^ 63 ≤ d) (hupper : d < 2 ^ 63) :
    parse (string d) = some d := by
  obtain ⟨first, rest, hformat, hfirst, hrest⟩ := format_shape d.natAbs
  have hread := terms_format (n := d.natAbs) (by omega)
  have hzero : format d.natAbs ≠ ['0'] := by
    rw [hformat]
    intro h
    exact hrest (List.cons.inj h).2
  have hnone : format d.natAbs ≠ [] := by simp [hformat]
  rw [string]
  split
  · have hsign : signOf ('-' :: format d.natAbs) = (true, format d.natAbs) := rfl
    rw [parse, hsign]
    dsimp only
    rw [if_neg hzero, if_neg hnone, hread, Option.bind_some, if_pos rfl, Option.some.injEq]
    omega
  · have hsign : signOf (format d.natAbs) = (false, format d.natAbs) := by
      rw [hformat, signOf.eq_def]
      split
      · rename_i heq
        cases heq
        cases hfirst
      · rename_i heq
        cases heq
        cases hfirst
      · rfl
    rw [parse, hsign]
    dsimp only
    rw [if_neg hzero, if_neg hnone, hread, Option.bind_some, if_neg Bool.false_ne_true,
      if_pos (by omega), Option.some.injEq]
    omega

/-- What a span is written with beside digits: the sign, the point and the units. -/
def marks : List Char := ['-', '.', 'h', 'm', 's', 'n', 'µ']

/-- A text of nothing else. -/
def Spelled (text : List Char) : Prop := ∀ c ∈ text, c.isDigit = true ∨ c ∈ marks

theorem Spelled.append {front back : List Char} (hfront : Spelled front) (hback : Spelled back) :
    Spelled (front ++ back) := by
  intro c hc
  rcases List.mem_append.mp hc with hc | hc
  · exact hfront c hc
  · exact hback c hc

theorem spelled_toDigits (n : Nat) : Spelled (Nat.toDigits 10 n) := fun _ hc =>
  .inl (isDigit_of_mem_toDigits hc)

theorem spelled_marks {name : List Char} (h : name.all marks.contains = true) : Spelled name :=
  fun c hc => .inr (List.contains_iff_mem.mp (List.all_eq_true.mp h c hc))

theorem spelled_fmtFrac (prec v : Nat) : Spelled (fmtFrac prec v false []).1 := by
  obtain ⟨digits, hprinted, hall, -⟩ := fmtFrac_spec prec v
  intro c hc
  rw [hprinted, point] at hc
  split at hc
  · cases hc
  · rcases List.mem_cons.mp hc with rfl | hc
    · exact .inr (by decide)
    · exact .inl (hall c hc)

theorem spelled_fine (prec n : Nat) {name : List Char} (h : name.all marks.contains = true) :
    Spelled (fine prec name n) :=
  (spelled_toDigits _).append ((spelled_fmtFrac prec n).append (spelled_marks h))

theorem spelled_coarse (n : Nat) : Spelled (coarse n) := by
  have hseconds : Spelled (Nat.toDigits 10 ((fmtFrac 9 n false []).2 % 60) ++
      ((fmtFrac 9 n false []).1 ++ ['s'])) :=
    (spelled_toDigits _).append ((spelled_fmtFrac 9 n).append (spelled_marks (by decide)))
  have hm : Spelled ['m'] := spelled_marks (by decide)
  have hh : Spelled ['h'] := spelled_marks (by decide)
  rw [coarse]
  dsimp only
  split
  · exact hseconds
  · have hminutes := (spelled_toDigits ((fmtFrac 9 n false []).2 / 60 % 60)).append (hm.append hseconds)
    split
    · exact hminutes
    · exact (spelled_toDigits _).append (hh.append hminutes)

/-- **The letters** a span is written in. -/
theorem spelled_string (d : Int) : Spelled (string d) := by
  have hformat : Spelled (format d.natAbs) := by
    rw [format]
    split
    · exact spelled_coarse _
    · split
      · exact (spelled_toDigits 0).append (@spelled_marks ['s'] (by decide))
      · split
        · exact spelled_fine 0 _ (by decide)
        · split
          · exact spelled_fine 3 _ (by decide)
          · exact spelled_fine 6 _ (by decide)
  rw [string]
  split
  · intro c hc
    rcases List.mem_cons.mp hc with rfl | hc
    · exact .inr (by decide)
    · exact hformat c hc
  · exact hformat

end MqStudio.Lib.Duration
