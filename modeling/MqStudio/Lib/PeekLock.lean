import Mathlib.Data.List.Nodup

/-!
# Queues that Lock What They Hand Out

A queue whose reader takes nothing away. Handing a message out locks it; giving it back unlocks it
in its old place, so that it is offered again; only removing it takes it off the queue. Messages
have a key, and the locks are kept by it.

## Main definitions

- `PeekLock.lend`, `PeekLock.batch`: the first messages that are not locked.
- `PeekLock.giveBack`, `PeekLock.remove`, `PeekLock.giveBackAll`.

## Main results

- `mem_locked_of_lend`, `not_mem_batch`: what is locked stays so, and is not handed out.
- `batch_of_unlocked`: of a queue without locks, the first messages are handed out.
-/

namespace MqStudio.Lib

universe u v

/-- The messages in order, and the keys of those that are locked. -/
structure PeekLock (α : Type u) (κ : Type v) where
  messages : List α
  locked : List κ

namespace PeekLock

variable {α : Type u} {κ : Type v} [DecidableEq κ] (key : α → κ)

/-- What is offered. -/
def offered (q : PeekLock α κ) : List α := q.messages.filter fun m => key m ∉ q.locked

/-- The next `n` of what is offered. -/
def batch (q : PeekLock α κ) (n : Nat) : List α := (q.offered key).take n

/-- Handing them out locks them. -/
def lend (q : PeekLock α κ) (n : Nat) : PeekLock α κ :=
  { q with locked := (q.batch key n).map key ++ q.locked }

/-- A message is unlocked. -/
def giveBack (q : PeekLock α κ) (k : κ) : PeekLock α κ :=
  { q with locked := q.locked.filter (· ≠ k) }

/-- Every message is. -/
def giveBackAll (q : PeekLock α κ) : PeekLock α κ := { q with locked := [] }

/-- A message is taken off the queue. -/
def remove (q : PeekLock α κ) (k : κ) : PeekLock α κ :=
  ⟨q.messages.filter fun m => key m ≠ k, q.locked.filter (· ≠ k)⟩

variable {key} {q : PeekLock α κ} {k l : κ} {n : Nat} {m : α}

@[simp] theorem messages_lend : (q.lend key n).messages = q.messages := rfl

@[simp] theorem messages_giveBack : (q.giveBack k).messages = q.messages := rfl

omit [DecidableEq κ] in
@[simp] theorem messages_giveBackAll : q.giveBackAll.messages = q.messages := rfl

@[simp] theorem mem_locked_giveBack : l ∈ (q.giveBack k).locked ↔ l ∈ q.locked ∧ l ≠ k := by
  simp [giveBack]

@[simp] theorem mem_locked_remove : l ∈ (q.remove key k).locked ↔ l ∈ q.locked ∧ l ≠ k := by
  simp [remove]

@[simp] theorem mem_messages_remove :
    m ∈ (q.remove key k).messages ↔ m ∈ q.messages ∧ key m ≠ k := by
  simp [remove]

theorem mem_locked_lend : l ∈ (q.lend key n).locked ↔ l ∈ (q.batch key n).map key ∨ l ∈ q.locked :=
  List.mem_append

/-- What is locked stays locked. -/
theorem mem_locked_of_lend (h : l ∈ q.locked) : l ∈ (q.lend key n).locked :=
  mem_locked_lend.mpr (.inr h)

theorem mem_offered : m ∈ q.offered key ↔ m ∈ q.messages ∧ key m ∉ q.locked := by
  simp [offered]

theorem mem_messages_of_batch (h : m ∈ q.batch key n) : m ∈ q.messages :=
  (mem_offered.mp (List.mem_of_mem_take h)).1

/-- It is not handed out. -/
theorem not_mem_batch (h : l ∈ q.locked) : l ∉ (q.batch key n).map key := by
  intro hmem
  obtain ⟨m, hm, rfl⟩ := List.mem_map.mp hmem
  exact (mem_offered.mp (List.mem_of_mem_take hm)).2 h

/-- **Of a queue without locks**, the first messages are handed out. -/
theorem batch_of_unlocked (h : q.locked = []) : q.batch key n = q.messages.take n := by
  simp [batch, offered, h]

/-- Giving messages back one by one. -/
def giveBacks (q : PeekLock α κ) (ks : List κ) : PeekLock α κ := ks.foldl giveBack q

@[simp] theorem giveBacks_nil : q.giveBacks [] = q := rfl

theorem giveBacks_cons {ks : List κ} :
    q.giveBacks (k :: ks) = (q.giveBack k).giveBacks ks := rfl

@[simp] theorem messages_giveBacks {ks : List κ} : (q.giveBacks ks).messages = q.messages := by
  induction ks generalizing q with
  | nil => rfl
  | cons k ks ih => rw [giveBacks_cons, ih, messages_giveBack]

theorem locked_giveBacks {ks : List κ} :
    (q.giveBacks ks).locked = q.locked.filter fun l => l ∉ ks := by
  induction ks generalizing q with
  | nil => simp
  | cons k ks ih =>
    rw [giveBacks_cons, ih, giveBack, List.filter_filter]
    apply List.filter_congr
    intro l _
    simp [Bool.and_comm]

end PeekLock

end MqStudio.Lib
