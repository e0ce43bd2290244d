import Mathlib.Data.List.Basic

/-!
# Base64

The standard alphabet with padding. Three bytes are four letters, and what is left at the end is
padded. A decoder skips line breaks wherever they stand and ignores the bits that padding leaves
unused, so several texts decode alike; none of them is shorter than the encoding.

## Main results

- `decode_encode`: what was encoded decodes to itself.
- `length_decode`, `length_encode`: no text decodes to more bytes than it encodes.
- `mem_encode`: an encoding is made of letters and padding.
-/

namespace MqStudio.Lib.Base64

/-- The letters, by their values. -/
def alphabet : List Char :=
  "ABCDEFGHIJKLMNOPQRSTUVWXYZabcdefghijklmnopqrstuvwxyz0123456789+/".toList

/-- The letter of a value below 64. -/
def letter (v : Nat) : Char := alphabet.getD v 'A'

/-- The value of a letter. -/
def value (c : Char) : Option Nat := alphabet.idxOf? c

/-- The lowest eight bits. -/
def byte (n : Nat) : UInt8 := UInt8.ofNat n

/-- `EncodeToString` -/
def encode : List UInt8 → List Char
  | [] => []
  | [a] => [letter (a.toNat / 4), letter (a.toNat % 4 * 16), '=', '=']
  | [a, b] => [letter (a.toNat / 4), letter (a.toNat % 4 * 16 + b.toNat / 16),
      letter (b.toNat % 16 * 4), '=']
  | a :: b :: c :: rest =>
    letter (a.toNat / 4) :: letter (a.toNat % 4 * 16 + b.toNat / 16) ::
      letter (b.toNat % 16 * 4 + c.toNat / 64) :: letter (c.toNat % 64) :: encode rest

/-- Four letters at a time; only the last four may be padded. -/
def decodeQuanta : List Char → Option (List UInt8)
  | [] => some []
  | a :: b :: c :: d :: rest =>
    match value a, value b with
    | some p, some q =>
      if rest = [] ∧ d = '=' then
        if c = '=' then some [byte (p * 4 + q / 16)]
        else (value c).map fun r => [byte (p * 4 + q / 16), byte (q % 16 * 16 + r / 4)]
      else
        match value c, value d with
        | some r, some t =>
          (decodeQuanta rest).map fun bytes =>
            byte (p * 4 + q / 16) :: byte (q % 16 * 16 + r / 4) :: byte (r % 4 * 64 + t) :: bytes
        | _, _ => none
    | _, _ => none
  | _ => none

/-- What a decoder skips. -/
def isBreak (c : Char) : Bool := c = '\n' || c = '\r'

/-- `DecodeString` -/
def decode (text : List Char) : Option (List UInt8) :=
  decodeQuanta (text.filter fun c => !isBreak c)

/-! ## Letters -/

theorem value_letter {v : Nat} (h : v < 64) : value (letter v) = some v := by
  have hall : ∀ v < 64, value (letter v) = some v := by decide
  exact hall v h

theorem letter_mem {v : Nat} (h : v < 64) : letter v ∈ alphabet := by
  have hlength : v < alphabet.length := h
  rw [letter, List.getD_eq_getElem?_getD, List.getElem?_eq_getElem hlength]
  exact List.getElem_mem hlength

/-- Padding is not a letter. -/
theorem letter_ne_pad {v : Nat} (h : v < 64) : letter v ≠ '=' := by
  intro hpad
  have hmem := letter_mem h
  rw [hpad] at hmem
  exact absurd hmem (by decide)

theorem byte_toNat {n : Nat} {a : UInt8} (h : n = a.toNat) : byte n = a := by
  rw [byte, h, UInt8.ofNat_toNat]

/-! ## Round trip -/

/-- **An encoding is made of letters and padding.** -/
theorem mem_encode {bytes : List UInt8} {c : Char} (h : c ∈ encode bytes) :
    c ∈ alphabet ∨ c = '=' := by
  fun_induction encode bytes with
  | case1 => cases h
  | case2 a =>
    have ha := a.toNat_lt
    simp only [List.mem_cons, List.not_mem_nil, or_false] at h
    rcases h with rfl | rfl | rfl | rfl
    · exact .inl (letter_mem (by omega))
    · exact .inl (letter_mem (by omega))
    · exact .inr rfl
    · exact .inr rfl
  | case3 a b =>
    have ha := a.toNat_lt
    have hb := b.toNat_lt
    simp only [List.mem_cons, List.not_mem_nil, or_false] at h
    rcases h with rfl | rfl | rfl | rfl
    · exact .inl (letter_mem (by omega))
    · exact .inl (letter_mem (by omega))
    · exact .inl (letter_mem (by omega))
    · exact .inr rfl
  | case4 a b c rest ih =>
    have ha := a.toNat_lt
    have hb := b.toNat_lt
    have hc := c.toNat_lt
    simp only [List.mem_cons] at h
    rcases h with rfl | rfl | rfl | rfl | h
    · exact .inl (letter_mem (by omega))
    · exact .inl (letter_mem (by omega))
    · exact .inl (letter_mem (by omega))
    · exact .inl (letter_mem (by omega))
    · exact ih h

/-- No line break stands in an encoding. -/
theorem isBreak_of_mem_encode {bytes : List UInt8} {c : Char} (h : c ∈ encode bytes) :
    isBreak c = false := by
  have hall : ∀ c ∈ alphabet ++ ['='], isBreak c = false :=
    List.forall_iff_forall_mem.mp (by decide)
  apply hall
  rcases mem_encode h with hletter | rfl
  · exact List.mem_append_left _ hletter
  · exact List.mem_append_right _ List.mem_cons_self

theorem decodeQuanta_encode (bytes : List UInt8) : decodeQuanta (encode bytes) = some bytes := by
  fun_induction encode bytes with
  | case1 => rfl
  | case2 a =>
    have ha := a.toNat_lt
    have hp : value (letter (a.toNat / 4)) = _ := value_letter (by omega)
    have hq : value (letter (a.toNat % 4 * 16)) = _ := value_letter (by omega)
    simp only [decodeQuanta, hp, hq, and_self, if_true]
    have hfirst : byte (a.toNat / 4 * 4 + a.toNat % 4 * 16 / 16) = a := byte_toNat (by omega)
    rw [hfirst]
  | case3 a b =>
    have ha := a.toNat_lt
    have hb := b.toNat_lt
    have hp : value (letter (a.toNat / 4)) = _ := value_letter (by omega)
    have hq : value (letter (a.toNat % 4 * 16 + b.toNat / 16)) = _ := value_letter (by omega)
    have hr : value (letter (b.toNat % 16 * 4)) = _ := value_letter (by omega)
    have hpad : letter (b.toNat % 16 * 4) ≠ '=' := letter_ne_pad (by omega)
    simp only [decodeQuanta, hp, hq, hr, and_self, if_true, if_neg hpad, Option.map_some]
    have hfirst : byte (a.toNat / 4 * 4 + (a.toNat % 4 * 16 + b.toNat / 16) / 16) = a :=
      byte_toNat (by omega)
    have hsecond : byte ((a.toNat % 4 * 16 + b.toNat / 16) % 16 * 16 + b.toNat % 16 * 4 / 4) = b :=
      byte_toNat (by omega)
    rw [hfirst, hsecond]
  | case4 a b c rest ih =>
    have ha := a.toNat_lt
    have hb := b.toNat_lt
    have hc := c.toNat_lt
    have hp : value (letter (a.toNat / 4)) = _ := value_letter (by omega)
    have hq : value (letter (a.toNat % 4 * 16 + b.toNat / 16)) = _ := value_letter (by omega)
    have hr : value (letter (b.toNat % 16 * 4 + c.toNat / 64)) = _ := value_letter (by omega)
    have ht : value (letter (c.toNat % 64)) = _ := value_letter (by omega)
    have hpad : letter (c.toNat % 64) ≠ '=' := letter_ne_pad (by omega)
    simp only [decodeQuanta, hp, hq, hr, ht, hpad, and_false, if_false, ih, Option.map_some]
    have hfirst : byte (a.toNat / 4 * 4 + (a.toNat % 4 * 16 + b.toNat / 16) / 16) = a :=
      byte_toNat (by omega)
    have hsecond : byte ((a.toNat % 4 * 16 + b.toNat / 16) % 16 * 16 +
        (b.toNat % 16 * 4 + c.toNat / 64) / 4) = b := byte_toNat (by omega)
    have hthird : byte ((b.toNat % 16 * 4 + c.toNat / 64) % 4 * 64 + c.toNat % 64) = c :=
      byte_toNat (by omega)
    rw [hfirst, hsecond, hthird]

/-- **What was encoded decodes to itself.** -/
theorem decode_encode (bytes : List UInt8) : decode (encode bytes) = some bytes := by
  have hkeep : (encode bytes).filter (fun c => !isBreak c) = encode bytes := by
    apply List.filter_eq_self.mpr
    intro c hc
    rw [isBreak_of_mem_encode hc, Bool.not_false]
  rw [decode, hkeep, decodeQuanta_encode]

/-! ## Lengths -/

theorem length_encode (bytes : List UInt8) :
    (encode bytes).length = (bytes.length + 2) / 3 * 4 := by
  fun_induction encode bytes with
  | case1 => rfl
  | case2 a => simp
  | case3 a b => simp
  | case4 a b c rest ih =>
    simp only [List.length_cons, ih]
    omega

theorem length_decodeQuanta {text : List Char} {bytes : List UInt8}
    (h : decodeQuanta text = some bytes) : bytes.length ≤ text.length / 4 * 3 := by
  fun_induction decodeQuanta text generalizing bytes with
  | case1 =>
    cases h
    exact Nat.le_refl 0
  | case2 a b c d rest =>
    cases h
    simp only [List.length_cons, List.length_nil]
    omega
  | case3 a b c d rest =>
    obtain ⟨r, -, rfl⟩ := Option.map_eq_some_iff.mp h
    simp only [List.length_cons, List.length_nil]
    omega
  | case4 a b c d rest _ _ _ _ _ _ _ _ _ ih =>
    obtain ⟨more, hmore, rfl⟩ := Option.map_eq_some_iff.mp h
    have hrest := ih hmore
    simp only [List.length_cons]
    omega
  | _ => cases h

/-- **No text decodes to more bytes than it has room for.** -/
theorem length_decode {text : List Char} {bytes : List UInt8} (h : decode text = some bytes) :
    bytes.length ≤ text.length / 4 * 3 := by
  have hquanta := length_decodeQuanta h
  have hshort := List.length_filter_le (fun c => !isBreak c) text
  omega

end MqStudio.Lib.Base64
