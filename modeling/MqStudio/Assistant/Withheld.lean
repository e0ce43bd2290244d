import Mathlib.Data.List.Sort
import MqStudio.Lib.Utf8

/-!
# What the Model Is Handed of an Answer

`forModel` of `internal/agent/assistant/prompt.go`: a tool's answer is encoded, read back as a tree, the
message bodies in it are cut to what the person's settings let out, and the tree is encoded again; what
is longer than one result may be is cut short.

`json.Marshal` of a tool's own types and `json.Unmarshal` are parameters; a tree's encoding is written
out. An answer whose encoding cannot be read back is handed on as it was encoded.

## Main results

- `forModel_withholds`: answers that differ only in what is withheld of bodies are handed on alike, and
  what is handed on is whole characters of the encoding, so many bytes at most, and a notice.
-/

namespace MqStudio.Assistant.Withheld

open MqStudio.Lib

/-! ## Strings as bytes -/

/-- The bytes of a string. -/
def bytes (s : String) : List UInt8 :=
  s.toByteArray.data.toList

theorem bytes_eq_encode (s : String) : bytes s = Utf8.encode s.toList := by
  rw [bytes, ← String.utf8Encode_toList, List.utf8Encode, List.toList_data_toByteArray]
  rfl

/-- `s[:n]` is a string where a character begins at `n`. -/
theorem isValidUTF8_take {s : String} {n : Nat} (hn : n < (bytes s).length) :
    ((bytes s).take (Utf8.retreat (bytes s) n)).toByteArray.IsValidUTF8 := by
  rw [bytes_eq_encode] at hn ⊢
  obtain ⟨front, -, htake⟩ := Utf8.take_retreat s.toList hn
  exact ⟨front, by rw [htake]; rfl⟩

/-- `cutUTF8` -/
def cutUTF8 (s : String) (n : Nat) : String :=
  if h : (bytes s).length ≤ n then s
  else String.ofByteArray ((bytes s).take (Utf8.retreat (bytes s) n)).toByteArray
    (isValidUTF8_take (Nat.not_le.mp h))

/-! ## Trees -/

/-- What `json.Unmarshal` leaves in an `any`. A number is as it is written; the fields of a map are in
    some order. -/
inductive Tree where
  | null
  | bool (value : Bool)
  | number (text : String)
  | string (text : String)
  | array (elements : List Tree)
  | object (fields : List (String × Tree))

/-- A hexadecimal digit. -/
def hexDigit (n : Nat) : Char :=
  "0123456789abcdef".toList.getD n '0'

/-- How `json.Marshal` writes a character in a string. -/
def escape (c : Char) : List Char :=
  if c = '\"' ∨ c = '\\' then ['\\', c]
  else if c = '\x08' then ['\\', 'b']
  else if c = '\x0c' then ['\\', 'f']
  else if c = '\n' then ['\\', 'n']
  else if c = '\r' then ['\\', 'r']
  else if c = '\t' then ['\\', 't']
  else if c.toNat < 0x20 ∨ c = '<' ∨ c = '>' ∨ c = '&' then
    ['\\', 'u', '0', '0', hexDigit (c.toNat / 16), hexDigit (c.toNat % 16)]
  else if c.toNat = 0x2028 ∨ c.toNat = 0x2029 then
    ['\\', 'u', '2', '0', '2', hexDigit (c.toNat % 16)]
  else [c]

/-- A string as `json.Marshal` writes it. -/
def quote (s : String) : String :=
  "\"" ++ String.ofList (s.toList.flatMap escape) ++ "\""

/-- A map's fields as they are written, by their keys. -/
def writeFields (fields : List (String × String)) : String :=
  let sorted := fields.insertionSort fun a b => a.1 ≤ b.1
  "\x7b" ++ String.intercalate "," (sorted.map fun field => quote field.1 ++ ":" ++ field.2) ++ "\x7d"

mutual

/-- `json.Marshal` of a tree. -/
def marshalTree : Tree → String
  | .null => "null"
  | .bool true => "true"
  | .bool false => "false"
  | .number text => text
  | .string text => quote text
  | .array elements => "[" ++ String.intercalate "," (marshalElements elements) ++ "]"
  | .object fields => writeFields (marshalFields fields)

def marshalElements : List Tree → List String
  | [] => []
  | element :: rest => marshalTree element :: marshalElements rest

def marshalFields : List (String × Tree) → List (String × String)
  | [] => []
  | (key, child) :: rest => (key, marshalTree child) :: marshalFields rest

end

/-! ## The source -/

/-- `maxResult` -/
def maxResult : Nat := 32 <<< 10

/-- `cutBody` -/
def cutBody (body : String) (limit : Int) : String :=
  if limit ≤ 0 then
    if body = "" then body
    else "[withheld: " ++ toString (bytes body).length ++
      " bytes, which the person's settings keep out of the conversation]"
  else if ((bytes body).length : Int) ≤ limit then body
  else cutUTF8 body limit.toNat ++
    ("[cut: " ++ toString limit ++ " of " ++ toString (bytes body).length ++ " bytes]")

mutual

/-- `withholdBodies` -/
def withholdBodies (bodyBytes : Int) : Tree → Tree
  | .object fields => .object (withholdFields bodyBytes fields)
  | .array elements => .array (withholdElements bodyBytes elements)
  | .null => .null
  | .bool value => .bool value
  | .number text => .number text
  | .string text => .string text

/-- Its loop over a map. -/
def withholdFields (bodyBytes : Int) : List (String × Tree) → List (String × Tree)
  | [] => []
  | (key, child) :: rest =>
    (match child, decide (key = "body") with
      | .string body, true => (key, .string (cutBody body bodyBytes))
      | _, _ => (key, withholdBodies bodyBytes child)) :: withholdFields bodyBytes rest

/-- Its loop over a list. -/
def withholdElements (bodyBytes : Int) : List Tree → List Tree
  | [] => []
  | child :: rest => withholdBodies bodyBytes child :: withholdElements bodyBytes rest

end

section Encoding

variable {α : Type} (marshal : α → Except String String) (unmarshal : String → Option Tree)

/-- `withBodiesCut`. The encoding of a tree never fails. -/
def withBodiesCut (output : α) (bodyBytes : Int) : String :=
  match marshal output with
  | .error err => quote ("the answer could not be encoded: " ++ err)
  | .ok encoded =>
    match unmarshal encoded with
    | none => encoded
    | some tree => marshalTree (withholdBodies bodyBytes tree)

/-- What is said of an answer of so many bytes that was cut short. -/
def cutNotice (size : Nat) : String :=
  "\n[cut: the answer was " ++ toString (size >>> 10) ++ " KB and only the first " ++
    toString (maxResult >>> 10) ++ " KB is shown; ask for less, such as a smaller maxResults]"

/-- `forModel` -/
def forModel (output : α) (bodyBytes : Int) : String :=
  let encoded := withBodiesCut marshal unmarshal output bodyBytes
  if (bytes encoded).length ≤ maxResult then encoded
  else cutUTF8 encoded maxResult ++ cutNotice (bytes encoded).length

end Encoding

/-! ## Two answers -/

/-- Two texts of one length that begin with the same bytes. -/
def SameFront (bodyBytes : Int) (text text' : String) : Prop :=
  (bytes text).length = (bytes text').length ∧
    (bytes text).take bodyBytes.toNat = (bytes text').take bodyBytes.toNat

instance (bodyBytes : Int) (text text' : String) : Decidable (SameFront bodyBytes text text') :=
  inferInstanceAs (Decidable (_ ∧ _))

mutual

/-- Trees that are equal but for the texts under a key `body`, which have one length and begin with the
    same bytes. -/
inductive Alike (bodyBytes : Int) : Tree → Tree → Prop where
  | same (tree : Tree) : Alike bodyBytes tree tree
  | array {elements elements' : List Tree} : AlikeElements bodyBytes elements elements' →
      Alike bodyBytes (.array elements) (.array elements')
  | object {fields fields' : List (String × Tree)} : AlikeFields bodyBytes fields fields' →
      Alike bodyBytes (.object fields) (.object fields')

inductive AlikeElements (bodyBytes : Int) : List Tree → List Tree → Prop where
  | nil : AlikeElements bodyBytes [] []
  | cons {child child' : Tree} {rest rest' : List Tree} : Alike bodyBytes child child' →
      AlikeElements bodyBytes rest rest' →
      AlikeElements bodyBytes (child :: rest) (child' :: rest')

inductive AlikeFields (bodyBytes : Int) : List (String × Tree) → List (String × Tree) → Prop where
  | nil : AlikeFields bodyBytes [] []
  | body {text text' : String} {rest rest' : List (String × Tree)} :
      SameFront bodyBytes text text' → AlikeFields bodyBytes rest rest' →
      AlikeFields bodyBytes (("body", .string text) :: rest) (("body", .string text') :: rest')
  | field (key : String) {child child' : Tree} {rest rest' : List (String × Tree)} :
      Alike bodyBytes child child' → AlikeFields bodyBytes rest rest' →
      AlikeFields bodyBytes ((key, child) :: rest) ((key, child') :: rest')

end

/-! ## Cutting -/

theorem bytes_inj {s t : String} (h : bytes s = bytes t) : s = t := by
  apply String.toByteArray_inj.mp
  exact ByteArray.ext (Array.toList_inj.mp h)

theorem eq_empty_iff (s : String) : s = "" ↔ (bytes s).length = 0 := by
  constructor
  · rintro rfl
    rfl
  · intro h
    apply bytes_inj
    rw [List.length_eq_zero_iff.mp h]
    rfl

/-- Cutting slices the bytes. -/
theorem bytes_cutUTF8 {s : String} {n : Nat} (h : n < (bytes s).length) :
    bytes (cutUTF8 s n) = (bytes s).take (Utf8.retreat (bytes s) n) := by
  rw [cutUTF8, dif_neg (Nat.not_le.mpr h)]
  exact List.toList_data_toByteArray

/-- **A cut** is of whole characters, and keeps no more bytes than it may. -/
theorem cutUTF8_spec (s : String) (n : Nat) :
    ∃ rest, s = cutUTF8 s n ++ rest ∧ (bytes (cutUTF8 s n)).length ≤ n := by
  by_cases h : (bytes s).length ≤ n
  · rw [cutUTF8, dif_pos h]
    exact ⟨"", String.append_empty.symm, h⟩
  · have hcut := bytes_cutUTF8 (Nat.not_le.mp h)
    obtain ⟨front, ⟨rest, hrest⟩, htake⟩ := Utf8.take_retreat s.toList
      (n := n) (by rw [← bytes_eq_encode]; exact Nat.not_le.mp h)
    rw [← bytes_eq_encode] at htake
    -- the bytes that are kept are those of the characters in front
    have hfront : cutUTF8 s n = String.ofList front := by
      apply bytes_inj
      rw [hcut, htake, bytes_eq_encode, String.toList_ofList]
    refine ⟨String.ofList rest, ?_, ?_⟩
    · rw [hfront, ← String.toList_inj, String.toList_append, String.toList_ofList,
        String.toList_ofList, hrest]
    · rw [hcut, List.length_take]
      have := Utf8.retreat_le (bytes s) n
      omega

/-- **A cut depends on nothing past it**: texts of one length that begin with the same bytes are cut
    alike. -/
theorem cutUTF8_congr {s t : String} {n : Nat} (hlength : (bytes s).length = (bytes t).length)
    (hfront : (bytes s).take n = (bytes t).take n) (h : n < (bytes s).length) :
    cutUTF8 s n = cutUTF8 t n := by
  have hretreat : Utf8.retreat (bytes s) n = Utf8.retreat (bytes t) n := by
    rw [bytes_eq_encode] at hlength hfront h ⊢
    rw [bytes_eq_encode t] at hlength hfront ⊢
    exact Utf8.retreat_congr _ _ h (by omega) hfront
  have hle := Utf8.retreat_le (bytes t) n
  apply bytes_inj
  rw [bytes_cutUTF8 h, bytes_cutUTF8 (by omega), hretreat]
  calc (bytes s).take (Utf8.retreat (bytes t) n)
      = ((bytes s).take n).take (Utf8.retreat (bytes t) n) := by
        rw [List.take_take, Nat.min_eq_left hle]
    _ = ((bytes t).take n).take (Utf8.retreat (bytes t) n) := by rw [hfront]
    _ = (bytes t).take (Utf8.retreat (bytes t) n) := by
        rw [List.take_take, Nat.min_eq_left hle]

/-- **A body** is cut to what does not depend on what is withheld of it. -/
theorem cutBody_congr {bodyBytes : Int} {text text' : String} (h : SameFront bodyBytes text text') :
    cutBody text bodyBytes = cutBody text' bodyBytes := by
  obtain ⟨hlength, hfront⟩ := h
  unfold cutBody
  by_cases hnone : bodyBytes ≤ 0
  · rw [if_pos hnone, if_pos hnone, hlength]
    by_cases hempty : text = ""
    · have hempty' : text' = "" := by
        rw [eq_empty_iff, ← hlength]
        exact (eq_empty_iff text).mp hempty
      rw [if_pos hempty, if_pos hempty', hempty, hempty']
    · have hempty' : text' ≠ "" := fun h => hempty ((eq_empty_iff text).mpr (by
        rw [hlength]
        exact (eq_empty_iff text').mp h))
      rw [if_neg hempty, if_neg hempty']
  · rw [if_neg hnone, if_neg hnone, hlength]
    by_cases hshort : ((bytes text').length : Int) ≤ bodyBytes
    · rw [if_pos hshort, if_pos hshort]
      apply bytes_inj
      rw [List.take_of_length_le (by omega), List.take_of_length_le (by omega)] at hfront
      exact hfront
    · rw [if_neg hshort, if_neg hshort, cutUTF8_congr hlength hfront (by omega)]

/-! ## Trees that differ in what is withheld -/

theorem withholdFields_body (bodyBytes : Int) (text : String) (rest : List (String × Tree)) :
    withholdFields bodyBytes (("body", .string text) :: rest) =
      ("body", .string (cutBody text bodyBytes)) :: withholdFields bodyBytes rest := by
  simp [withholdFields]

/-- A field is cut or gone into, alike for children that are. -/
theorem withholdFields_congr {bodyBytes : Int} {key : String} {child child' : Tree}
    {rest rest' : List (String × Tree)}
    (hchild : withholdBodies bodyBytes child = withholdBodies bodyBytes child')
    (hsame : ∀ text, child = .string text ↔ child' = .string text)
    (hrest : withholdFields bodyBytes rest = withholdFields bodyBytes rest') :
    withholdFields bodyBytes ((key, child) :: rest) =
      withholdFields bodyBytes ((key, child') :: rest') := by
  by_cases htext : ∃ text, child = .string text
  · obtain ⟨text, rfl⟩ := htext
    rw [(hsame text).mp rfl]
    simp only [withholdFields, hrest]
  · have hother : ∀ {tree : Tree} {rest : List (String × Tree)},
        (¬ ∃ text, tree = .string text) →
        withholdFields bodyBytes ((key, tree) :: rest) =
          (key, withholdBodies bodyBytes tree) :: withholdFields bodyBytes rest := by
      intro tree rest hnot
      cases tree with
      | string text => exact absurd ⟨text, rfl⟩ hnot
      | _ => rfl
    rw [hother htext, hother fun ⟨text, h⟩ => htext ⟨text, (hsame text).mpr h⟩, hchild, hrest]

/-- Alike trees are the same text, or neither is one. -/
theorem Alike.string_iff {bodyBytes : Int} {tree tree' : Tree} (h : Alike bodyBytes tree tree')
    (text : String) : tree = .string text ↔ tree' = .string text := by
  cases h with
  | same => exact Iff.rfl
  | array => simp
  | object => simp

mutual

/-- **Nothing withheld is left** in what a tree becomes. -/
theorem withholdBodies_alike {bodyBytes : Int} : ∀ {tree tree' : Tree},
    Alike bodyBytes tree tree' → withholdBodies bodyBytes tree = withholdBodies bodyBytes tree'
  | _, _, .same _ => rfl
  | _, _, .array h => by
    rw [withholdBodies, withholdBodies, withholdElements_alike h]
  | _, _, .object h => by
    rw [withholdBodies, withholdBodies, withholdFields_alike h]

theorem withholdElements_alike {bodyBytes : Int} : ∀ {elements elements' : List Tree},
    AlikeElements bodyBytes elements elements' →
      withholdElements bodyBytes elements = withholdElements bodyBytes elements'
  | _, _, .nil => rfl
  | _, _, .cons hchild hrest => by
    rw [withholdElements, withholdElements, withholdBodies_alike hchild,
      withholdElements_alike hrest]

theorem withholdFields_alike {bodyBytes : Int} : ∀ {fields fields' : List (String × Tree)},
    AlikeFields bodyBytes fields fields' →
      withholdFields bodyBytes fields = withholdFields bodyBytes fields'
  | _, _, .nil => rfl
  | _, _, .body hfront hrest => by
    rw [withholdFields_body, withholdFields_body, cutBody_congr hfront, withholdFields_alike hrest]
  | _, _, .field _ hchild hrest =>
    withholdFields_congr (withholdBodies_alike hchild) hchild.string_iff
      (withholdFields_alike hrest)

end

/-! ## What is handed on -/

/-- What is handed on of an encoding: all of it, or so many bytes of whole characters and a notice. -/
def HandedOn (encoded handed : String) : Prop :=
  (bytes encoded).length ≤ maxResult ∧ handed = encoded ∨
    ∃ front rest, encoded = front ++ rest ∧ (bytes front).length ≤ maxResult ∧
      handed = front ++ cutNotice (bytes encoded).length

section Encoding

variable {α : Type} (marshal : α → Except String String) (unmarshal : String → Option Tree)

/-- **Withheld text stays**: two answers whose trees differ only in what is withheld of bodies are
    handed on as one string; and every answer is handed on as whole characters of its encoding, so
    many bytes at most, with a notice where that is not all. -/
theorem forModel_withholds (bodyBytes : Int) :
    (∀ output output' encoded encoded' tree tree',
      marshal output = .ok encoded → unmarshal encoded = some tree →
      marshal output' = .ok encoded' → unmarshal encoded' = some tree' →
      Alike bodyBytes tree tree' →
      forModel marshal unmarshal output bodyBytes = forModel marshal unmarshal output' bodyBytes) ∧
    ∀ output, HandedOn (withBodiesCut marshal unmarshal output bodyBytes)
      (forModel marshal unmarshal output bodyBytes) := by
  constructor
  · intro output output' encoded encoded' tree tree' hencoded htree hencoded' htree' halike
    have hcut : withBodiesCut marshal unmarshal output bodyBytes =
        withBodiesCut marshal unmarshal output' bodyBytes := by
      unfold withBodiesCut
      rw [hencoded, hencoded']
      dsimp only
      rw [htree, htree']
      dsimp only
      rw [withholdBodies_alike halike]
    unfold forModel
    rw [hcut]
  · intro output
    unfold forModel
    dsimp only
    split
    · rename_i hshort
      exact .inl ⟨hshort, rfl⟩
    · obtain ⟨rest, hrest, hlength⟩ :=
        cutUTF8_spec (withBodiesCut marshal unmarshal output bodyBytes) maxResult
      exact .inr ⟨_, rest, hrest, hlength, rfl⟩

end Encoding

/-! ## Two messages -/

/-- A listing of one message with a header of its own, which carries a body too. -/
def listing (body : String) : Tree :=
  .object [("messages", .array [.object [("body", .string body),
    ("headers", .object [("body", .string "é"), ("count", .number "2")])]])]

/-- What a listing of either message is read back as. -/
def readBack (encoded : String) : Option Tree :=
  if encoded = marshalTree (listing "card 4111") then some (listing "card 4111")
  else if encoded = marshalTree (listing "card 5222") then some (listing "card 5222")
  else none

/-- With five bytes of a body let out, the two listings are handed on alike. -/
theorem forModel_listings :
    forModel (fun tree => .ok (marshalTree tree)) readBack (listing "card 4111") 5 =
        forModel (fun tree => .ok (marshalTree tree)) readBack (listing "card 5222") 5 ∧
      HandedOn (withBodiesCut (fun tree => .ok (marshalTree tree)) readBack (listing "card 4111") 5)
        (forModel (fun tree => .ok (marshalTree tree)) readBack (listing "card 4111") 5) :=
  ⟨(forModel_withholds (fun tree => .ok (marshalTree tree)) readBack 5).1 _ _ _ _ _ _ rfl
      (if_pos rfl) rfl ((if_neg (by decide)).trans (if_pos rfl))
      (.object (.field _ (.array (.cons (.object (.body (by decide) (.field _ (.same _) .nil)))
        .nil)) .nil)),
    (forModel_withholds (fun tree => .ok (marshalTree tree)) readBack 5).2 _⟩

end MqStudio.Assistant.Withheld
