import Mathlib.Data.List.GetD

/-!
# Cutting UTF-8

Texts as the bytes that encode their characters. A byte is the first of a character exactly when it
is not a continuation byte, and a first byte tells how many follow it; so where the characters of a
text begin is known from the bytes before.

## Main results

- `runeStart_congr`: two texts with the same first bytes agree whether a character begins after them.
- `take_retreat`: stepping back from any place to the first byte of a character cuts between two
  characters.
- `retreat_congr`: where that is depends on nothing past the place stepped back from.
-/

namespace MqStudio.Lib.Utf8

/-- Not a continuation byte. -/
def runeStart (b : UInt8) : Bool :=
  b &&& 0xC0 != 0x80

/-- How long the character is that a byte begins. -/
def width (b : UInt8) : Nat :=
  if b < 0x80 then 1 else if b < 0xE0 then 2 else if b < 0xF0 then 3 else 4

/-- The bytes of a text. -/
def encode (cs : List Char) : List UInt8 :=
  cs.flatMap String.utf8EncodeChar

/-- Step back from a place to the first byte of a character, or to the front. -/
def retreat (bytes : List UInt8) : Nat → Nat
  | 0 => 0
  | n + 1 => if runeStart (bytes.getD (n + 1) 0) then n + 1 else retreat bytes n

@[simp] theorem encode_nil : encode [] = [] := rfl

@[simp] theorem encode_cons (c : Char) (cs : List Char) :
    encode (c :: cs) = String.utf8EncodeChar c ++ encode cs := rfl

@[simp] theorem encode_append (cs ds : List Char) : encode (cs ++ ds) = encode cs ++ encode ds := by
  simp [encode]

/-! ## One character -/

private theorem first_one : ∀ v : Fin 128,
    runeStart (UInt8.ofNat v) = true ∧ width (UInt8.ofNat v) = 1 := by decide

private theorem first_two : ∀ v : Fin 32,
    runeStart (UInt8.ofNat (v + 0xC0)) = true ∧ width (UInt8.ofNat (v + 0xC0)) = 2 := by decide

private theorem first_three : ∀ v : Fin 16,
    runeStart (UInt8.ofNat (v + 0xE0)) = true ∧ width (UInt8.ofNat (v + 0xE0)) = 3 := by decide

private theorem first_four : ∀ v : Fin 8,
    runeStart (UInt8.ofNat (v + 0xF0)) = true ∧ width (UInt8.ofNat (v + 0xF0)) = 4 := by decide

private theorem later : ∀ v : Fin 64, runeStart (UInt8.ofNat (v + 0x80)) = false := by decide

/-- **A character's bytes**: one that begins it and tells how many there are, and continuations. -/
theorem utf8EncodeChar_shape (c : Char) : ∃ b tail, String.utf8EncodeChar c = b :: tail ∧
    runeStart b = true ∧ width b = tail.length + 1 ∧ ∀ t ∈ tail, runeStart t = false := by
  have hlater : ∀ v : Nat, runeStart (UInt8.ofNat (v % 0x40 + 0x80)) = false := fun v =>
    later ⟨v % 0x40, Nat.mod_lt _ (by decide)⟩
  unfold String.utf8EncodeChar
  dsimp only
  split
  · rename_i hone
    obtain ⟨hstart, hwidth⟩ := first_one ⟨c.val.toNat, by omega⟩
    exact ⟨_, [], rfl, hstart, hwidth, by simp⟩
  split
  · obtain ⟨hstart, hwidth⟩ := first_two ⟨c.val.toNat / 64 % 0x20, Nat.mod_lt _ (by decide)⟩
    refine ⟨_, _, rfl, hstart, hwidth, ?_⟩
    intro t ht
    rw [List.mem_singleton.mp ht]
    exact hlater _
  split
  · obtain ⟨hstart, hwidth⟩ := first_three ⟨c.val.toNat / 4096 % 0x10, Nat.mod_lt _ (by decide)⟩
    refine ⟨_, _, rfl, hstart, hwidth, ?_⟩
    intro t ht
    simp only [List.mem_cons, List.not_mem_nil, or_false] at ht
    rcases ht with rfl | rfl
    · exact hlater _
    · exact hlater _
  · obtain ⟨hstart, hwidth⟩ := first_four ⟨c.val.toNat / 262144 % 0x08, Nat.mod_lt _ (by decide)⟩
    refine ⟨_, _, rfl, hstart, hwidth, ?_⟩
    intro t ht
    simp only [List.mem_cons, List.not_mem_nil, or_false] at ht
    rcases ht with rfl | rfl | rfl
    · exact hlater _
    · exact hlater _
    · exact hlater _

/-! ## Where characters begin -/

/-- The byte at a place inside a character continues it. -/
theorem runeStart_inside {tail rest : List UInt8} (htail : ∀ t ∈ tail, runeStart t = false)
    {b : UInt8} {n : Nat} (hn : n < tail.length) :
    runeStart ((b :: tail ++ rest).getD (n + 1) 0) = false := by
  have hplace : (b :: tail ++ rest).getD (n + 1) 0 = tail.getD n 0 := by
    rw [List.cons_append, List.getD_cons_succ, List.getD_append _ _ _ _ hn]
  rw [hplace, List.getD_eq_getElem _ _ hn]
  exact htail _ (List.getElem_mem hn)

/-- **The same first bytes**: whether a character begins after them is the same for both texts. -/
theorem runeStart_congr (cs ds : List Char) (n : Nat) (hcs : n < (encode cs).length)
    (hds : n < (encode ds).length) (h : (encode cs).take n = (encode ds).take n) :
    runeStart ((encode cs).getD n 0) = runeStart ((encode ds).getD n 0) := by
  induction cs generalizing ds n with
  | nil => simp at hcs
  | cons c cs ih =>
    cases ds with
    | nil => simp at hds
    | cons d ds =>
      obtain ⟨b, tail, hc, hstart, hwidth, htail⟩ := utf8EncodeChar_shape c
      obtain ⟨b', tail', hd, hstart', hwidth', htail'⟩ := utf8EncodeChar_shape d
      rw [encode_cons, hc] at hcs h ⊢
      rw [encode_cons, hd] at hds h ⊢
      cases n with
      | zero => simp [hstart, hstart']
      | succ n =>
        -- the first bytes agree, so the first characters are as long as each other
        rw [List.cons_append, List.cons_append, List.take_succ_cons, List.take_succ_cons] at h
        obtain ⟨hb, htake⟩ := List.cons.inj h
        have hlength : tail.length = tail'.length := by
          rw [hb] at hwidth
          omega
        by_cases hinside : n < tail.length
        · rw [runeStart_inside htail hinside, runeStart_inside htail' (by omega)]
        · have hafter : ∀ (first : UInt8) (front rest : List UInt8), front.length = tail.length →
              (first :: front ++ rest).getD (n + 1) 0 = rest.getD (n - tail.length) 0 := by
            intro first front rest hfront
            rw [List.cons_append, List.getD_cons_succ,
              List.getD_append_right _ _ _ _ (by omega), hfront]
          rw [hafter b tail _ rfl, hafter b' tail' _ hlength.symm]
          have hrest : (encode cs).take (n - tail.length) = (encode ds).take (n - tail.length) := by
            rw [List.take_append, List.take_append, ← hlength] at htake
            rw [List.take_of_length_le (show tail.length ≤ n by omega),
              List.take_of_length_le (show tail'.length ≤ n by omega)] at htake
            exact List.append_inj_right htake hlength
          apply ih ds (n - tail.length) _ _ hrest
          · simp only [List.cons_append, List.length_cons, List.length_append] at hcs
            omega
          · simp only [List.cons_append, List.length_cons, List.length_append] at hds
            omega

/-- **A cut where a character begins** is between two characters. -/
theorem take_of_runeStart (cs : List Char) (n : Nat) (hn : n < (encode cs).length)
    (h : n = 0 ∨ runeStart ((encode cs).getD n 0) = true) :
    ∃ front, front <+: cs ∧ (encode cs).take n = encode front := by
  induction cs generalizing n with
  | nil => simp at hn
  | cons c cs ih =>
    cases n with
    | zero => exact ⟨[], List.nil_prefix, rfl⟩
    | succ n =>
      obtain ⟨b, tail, hc, -, -, htail⟩ := utf8EncodeChar_shape c
      have hrune := h.resolve_left (Nat.succ_ne_zero n)
      rw [encode_cons, hc] at hn hrune ⊢
      by_cases hinside : n < tail.length
      · rw [runeStart_inside htail hinside] at hrune
        cases hrune
      · rw [List.cons_append, List.getD_cons_succ,
          List.getD_append_right _ _ _ _ (by omega)] at hrune
        simp only [List.cons_append, List.length_cons, List.length_append] at hn
        obtain ⟨front, hfront, htake⟩ := ih (n - tail.length) (by omega) (.inr hrune)
        refine ⟨c :: front, List.cons_prefix_cons.mpr ⟨rfl, hfront⟩, ?_⟩
        rw [encode_cons, hc, ← htake, List.cons_append, List.take_succ_cons, List.take_append,
          List.take_of_length_le (by omega), List.cons_append]

/-! ## Stepping back -/

theorem retreat_le (bytes : List UInt8) (n : Nat) : retreat bytes n ≤ n := by
  induction n with
  | zero => exact Nat.le_refl _
  | succ n ih =>
    rw [retreat]
    split
    · exact Nat.le_refl _
    · omega

theorem runeStart_retreat (bytes : List UInt8) (n : Nat) :
    retreat bytes n = 0 ∨ runeStart (bytes.getD (retreat bytes n) 0) = true := by
  induction n with
  | zero => exact .inl rfl
  | succ n ih =>
    rw [retreat]
    split
    · rename_i hstart
      exact .inr hstart
    · exact ih

/-- **Stepping back** cuts between two characters. -/
theorem take_retreat (cs : List Char) {n : Nat} (hn : n < (encode cs).length) :
    ∃ front, front <+: cs ∧ (encode cs).take (retreat (encode cs) n) = encode front := by
  apply take_of_runeStart
  · have := retreat_le (encode cs) n
    omega
  · exact runeStart_retreat _ _

/-- Stepping back reads the byte at the place, and what lies before it. -/
theorem retreat_congr_of_getD {bytes bytes' : List UInt8} {n : Nat}
    (hplace : runeStart (bytes.getD n 0) = runeStart (bytes'.getD n 0))
    (hbefore : ∀ k, k < n → bytes.getD k 0 = bytes'.getD k 0) : retreat bytes n = retreat bytes' n := by
  induction n with
  | zero => rfl
  | succ n ih =>
    rw [retreat, retreat, hplace]
    split
    · rfl
    · exact ih (by rw [hbefore n (Nat.lt_succ_self n)]) fun k hk => hbefore k (by omega)

/-- **Nothing past the place**: texts with the same bytes before it are stepped back in alike. -/
theorem retreat_congr (cs ds : List Char) {n : Nat} (hcs : n < (encode cs).length)
    (hds : n < (encode ds).length) (h : (encode cs).take n = (encode ds).take n) :
    retreat (encode cs) n = retreat (encode ds) n := by
  refine retreat_congr_of_getD (runeStart_congr cs ds n hcs hds h) fun k hk => ?_
  have hget := congrArg (fun bytes => bytes.getD k 0) h
  simpa [List.getD_eq_getElem?_getD, List.getElem?_take, hk] using hget

end MqStudio.Lib.Utf8
