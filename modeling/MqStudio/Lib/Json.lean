import Mathlib.Init

/-!
# JSON and Loose Values

A value of no particular type, as a program builds it and as a JSON text gives it back. The two
differ where one JSON array is a list of objects to who wrote it, and a list of anything to who
reads it: writing a value and reading it back gives another value, which is written the same.

Objects are lists of their fields, in the order they are written. Numbers and truth values are left
out.

## Main results

- `encode_decode`: what was read is written as it was.
- `lookup_encodeFields`, `encodeFields_setField`: fields are read and set before and after alike.
-/

namespace MqStudio.Lib

/-- A JSON value. -/
inductive Json where
  | null
  | string (text : String)
  | array (elements : List Json)
  | object (fields : List (String × Json))

/-- A value of any type. -/
inductive Value where
  | nil
  | string (text : String)
  | object (fields : List (String × Value))
  /-- A list of objects. -/
  | objects (list : List (List (String × Value)))
  /-- A list of anything. -/
  | any (list : List Value)

/-! ## Writing and reading -/

mutual

/-- How a value is written. -/
def Value.encode : Value → Json
  | .nil => .null
  | .string text => .string text
  | .object fields => .object (encodeFields fields)
  | .objects list => .array (encodeObjects list)
  | .any list => .array (encodeList list)

def encodeFields : List (String × Value) → List (String × Json)
  | [] => []
  | (key, value) :: rest => (key, value.encode) :: encodeFields rest

def encodeObjects : List (List (String × Value)) → List Json
  | [] => []
  | fields :: rest => .object (encodeFields fields) :: encodeObjects rest

def encodeList : List Value → List Json
  | [] => []
  | value :: rest => value.encode :: encodeList rest

end

mutual

/-- How it is read: a list is of anything. -/
def Json.decode : Json → Value
  | .null => .nil
  | .string text => .string text
  | .array elements => .any (decodeList elements)
  | .object fields => .object (decodeFields fields)

def decodeFields : List (String × Json) → List (String × Value)
  | [] => []
  | (key, value) :: rest => (key, value.decode) :: decodeFields rest

def decodeList : List Json → List Value
  | [] => []
  | element :: rest => element.decode :: decodeList rest

end

mutual

/-- **What was read is written as it was.** -/
theorem encode_decode : ∀ j : Json, j.decode.encode = j
  | .null => rfl
  | .string _ => rfl
  | .array elements => congrArg Json.array (encodeList_decodeList elements)
  | .object fields => congrArg Json.object (encodeFields_decodeFields fields)

theorem encodeFields_decodeFields : ∀ fields : List (String × Json),
    encodeFields (decodeFields fields) = fields
  | [] => rfl
  | (key, value) :: rest => by
    rw [decodeFields, encodeFields, encode_decode value, encodeFields_decodeFields rest]

theorem encodeList_decodeList : ∀ elements : List Json, encodeList (decodeList elements) = elements
  | [] => rfl
  | element :: rest => by
    rw [decodeList, encodeList, encode_decode element, encodeList_decodeList rest]

end

theorem encodeObjects_eq_map (list : List (List (String × Value))) :
    encodeObjects list = list.map fun fields => .object (encodeFields fields) := by
  induction list with
  | nil => rfl
  | cons fields rest ih => rw [encodeObjects, ih, List.map_cons]

/-- Only a text is written as one. -/
theorem encode_eq_string {v : Value} {text : String} (h : v.encode = .string text) :
    v = .string text := by
  cases v with
  | string other =>
    rw [Value.encode] at h
    cases h
    rfl
  | _ => simp [Value.encode] at h

/-! ## Fields -/

/-- The value of a field: none of the object's, and there is nothing. -/
def fieldOf (fields : List (String × Value)) (key : String) : Value := (fields.lookup key).getD .nil

/-- The object with a field set: in its place, or at the end. -/
def setField (key : String) (value : Value) : List (String × Value) → List (String × Value)
  | [] => [(key, value)]
  | (other, old) :: rest =>
    if other = key then (key, value) :: rest else (other, old) :: setField key value rest

/-- The same of what is written. -/
def setWritten (key : String) (value : Json) : List (String × Json) → List (String × Json)
  | [] => [(key, value)]
  | (other, old) :: rest =>
    if other = key then (key, value) :: rest else (other, old) :: setWritten key value rest

theorem lookup_encodeFields (fields : List (String × Value)) (key : String) :
    (encodeFields fields).lookup key = (fields.lookup key).map Value.encode := by
  induction fields with
  | nil => rfl
  | cons field rest ih =>
    obtain ⟨other, old⟩ := field
    rw [encodeFields, List.lookup_cons, List.lookup_cons, ih]
    cases key == other <;> rfl

/-- A field is a text where it is written as one. -/
theorem fieldOf_eq_string {fields : List (String × Value)} {key text : String} :
    fieldOf fields key = .string text ↔
      (encodeFields fields).lookup key = some (.string text) := by
  rw [lookup_encodeFields, fieldOf]
  constructor
  · intro h
    cases hlookup : fields.lookup key with
    | none =>
      rw [hlookup] at h
      cases h
    | some v =>
      rw [hlookup] at h
      have hv : v = .string text := h
      rw [hv, Option.map_some, Value.encode]
  · intro h
    obtain ⟨v, hv, hencode⟩ := Option.map_eq_some_iff.mp h
    rw [hv, encode_eq_string hencode]
    rfl

theorem encodeFields_setField (key : String) (value : Value) (fields : List (String × Value)) :
    encodeFields (setField key value fields) =
      setWritten key value.encode (encodeFields fields) := by
  induction fields with
  | nil => rfl
  | cons field rest ih =>
    obtain ⟨other, old⟩ := field
    rw [setField, encodeFields, setWritten]
    split
    · rw [encodeFields]
    · rw [encodeFields, ih]

end MqStudio.Lib
