import Mathlib.Data.List.Nodup

/-!
# Tails

`TailCursor`, `QueuePosition` and `TailBatch` of `internal/model/message.go`, and the positions of a
cursor as a map, which is how a family that keeps several of them reads it. What a message says is a
parameter of the batch.
-/

namespace MqStudio.Model

/-- `QueuePosition` -/
structure QueuePosition where
  node : String
  queueID : Int
  offset : Int
  deriving DecidableEq

/-- `TailCursor`: where a tail has read to, per partition. -/
structure TailCursor where
  positions : List QueuePosition
  deriving DecidableEq

/-- `TailBatch` -/
structure TailBatch (α : Type) where
  messages : List α
  cursor : TailCursor
  dropped : Nat
  deriving DecidableEq

namespace TailCursor

variable {κ : Type} [DecidableEq κ] {keyOf : QueuePosition → κ}

/-- The map `known` a poll makes of a cursor: of several positions under a key the last stays. -/
def known (keyOf : QueuePosition → κ) (cursor : TailCursor) (key : κ) : Option Int :=
  (cursor.positions.reverse.find? fun p => keyOf p = key).map QueuePosition.offset

/-- Where a cursor is under a key, as a place in a log. -/
def place (keyOf : QueuePosition → κ) (cursor : TailCursor) (key : κ) : Option Nat :=
  (cursor.known keyOf key).map Int.toNat

/-- No key has two positions, and none is negative. -/
structure Proper (keyOf : QueuePosition → κ) (positions : List QueuePosition) : Prop where
  nodup : (positions.map keyOf).Nodup
  nonneg : ∀ p ∈ positions, 0 ≤ p.offset

omit [DecidableEq κ] in
theorem Proper.perm {positions sorted : List QueuePosition} (h : Proper keyOf positions)
    (hperm : sorted.Perm positions) : Proper keyOf sorted :=
  ⟨(hperm.map keyOf).nodup_iff.mpr h.nodup, fun p hp => h.nonneg p (hperm.subset hp)⟩

/-- What is known under a key is what the cursor lists for it. -/
theorem Proper.known_eq_some {positions : List QueuePosition} (h : Proper keyOf positions)
    {key : κ} {offset : Int} : known keyOf ⟨positions⟩ key = some offset ↔
      ∃ p ∈ positions, keyOf p = key ∧ p.offset = offset := by
  rw [known, Option.map_eq_some_iff]
  constructor
  · rintro ⟨p, hp, hoffset⟩
    have hkey := List.find?_some hp
    exact ⟨p, List.mem_reverse.mp (List.mem_of_find?_eq_some hp), by simpa using hkey, hoffset⟩
  · rintro ⟨p, hp, hkey, hoffset⟩
    cases hfound : positions.reverse.find? fun p => keyOf p = key with
    | none =>
      have hnone := List.find?_eq_none.mp hfound p (List.mem_reverse.mpr hp)
      exact absurd hkey (by simpa using hnone)
    | some other =>
      have hother := List.find?_some hfound
      have hin := List.mem_reverse.mp (List.mem_of_find?_eq_some hfound)
      have hsame : other = p := List.inj_on_of_nodup_map h.nodup hin hp
        ((of_decide_eq_true hother).trans hkey.symm)
      exact ⟨other, rfl, hsame ▸ hoffset⟩

/-- However its positions are sorted. -/
theorem Proper.known_sorted {positions sorted : List QueuePosition} (h : Proper keyOf positions)
    (hperm : sorted.Perm positions) {key : κ} {offset : Int} :
    known keyOf ⟨sorted⟩ key = some offset ↔
      ∃ p ∈ positions, keyOf p = key ∧ p.offset = offset := by
  rw [(h.perm hperm).known_eq_some]
  simp [hperm.mem_iff]

/-- A known offset is a place. -/
theorem Proper.place_eq_some {cursor : TailCursor} (h : Proper keyOf cursor.positions) {key : κ}
    {offset : Int} (hknown : known keyOf cursor key = some offset) :
    ∃ n : Nat, offset = n ∧ place keyOf cursor key = some n := by
  obtain ⟨p, hp, -, hoffset⟩ := h.known_eq_some.mp hknown
  have hnonneg := h.nonneg p hp
  refine ⟨offset.toNat, by omega, ?_⟩
  rw [place, hknown, Option.map_some]

end TailCursor

end MqStudio.Model
