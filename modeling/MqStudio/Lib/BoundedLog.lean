import Mathlib.Data.List.Infix

/-!
# Bounded Logs

Entries arrive, are numbered from one, and the oldest is discarded where there would be more than a
bound. A reader asks for what came after a cursor, so many entries at most, and is handed the cursor
to ask with next time.

## Main definitions

- `Buffer`: anything entries are delivered to and polled from.
- `Watch`: a buffer, the one reader that feeds its cursor back, and what became of every entry.
- `BoundedLog`: the log itself, as a buffer.
- `IsLog`: every entry is accounted for, in every run.
- `Simulates`: a buffer answers as the log does.

## Main results

- `Simulates.accounted`: every entry was returned once, in order, or discarded before a poll reached
  it, or is waiting.
- `Simulates.returned`: one that is waiting is returned by as many polls as it is away.
- `Simulates.agree`: any two that simulate the log answer alike.
-/

namespace MqStudio.Lib

universe u v w

/-- A numbered entry. -/
structure Numbered (α : Type u) where
  seq : Nat
  content : α
  deriving DecidableEq

/-- What a poll returns. -/
structure Polled (α : Type u) where
  messages : List (Numbered α)
  cursor : Nat
  dropped : Nat
  received : Nat
  deriving DecidableEq

/-- Anything entries are delivered to and polled from, after a cursor and up to a limit. -/
structure Buffer (σ : Type u) (α : Type v) where
  empty : σ
  deliver : σ → α → σ
  poll : σ → Nat → Nat → Polled α
  /-- The entries it holds, the oldest first. -/
  held : σ → List (Numbered α)

/-- What happens to a buffer. -/
inductive Use (α : Type u) where
  | deliver (content : α)
  | poll (limit : Nat) (positive : 0 < limit)

/-- A buffer and its reader: what was delivered, what was returned, and the entries that were
    discarded before a poll reached them. -/
structure Watch (σ : Type u) (α : Type v) where
  buffer : σ
  cursor : Nat
  delivered : List α
  returned : List (Numbered α)
  missed : List Nat

namespace Watch

variable {σ : Type u} {α : Type v} (B : Buffer σ α)

/-- Nothing was delivered yet, and the reader starts from zero. -/
def start : Watch σ α := ⟨B.empty, 0, [], [], []⟩

/-- One delivery, or one poll whose cursor is fed back. -/
def step (w : Watch σ α) : Use α → Watch σ α
  | .deliver content =>
    let next := B.deliver w.buffer content
    let latest : Numbered α := ⟨w.delivered.length + 1, content⟩
    let gone := (B.held w.buffer ++ [latest]).filter fun m =>
      w.cursor < m.seq && !((B.held next).map Numbered.seq).contains m.seq
    { w with
      buffer := next
      delivered := w.delivered ++ [content]
      missed := w.missed ++ gone.map Numbered.seq }
  | .poll limit _ =>
    let polled := B.poll w.buffer w.cursor limit
    { w with cursor := polled.cursor, returned := w.returned ++ polled.messages }

/-- Any number of them. -/
def run (uses : List (Use α)) : Watch σ α := uses.foldl (step B) (start B)

end Watch

/-- An entry waits: the buffer holds it, and no poll reached it. -/
def Watch.Waits {σ : Type u} {α : Type v} (B : Buffer σ α) (w : Watch σ α) (k : Nat) : Prop :=
  w.cursor < k ∧ k ∈ (B.held w.buffer).map Numbered.seq

/-- **Every entry is accounted for**: it was returned, in order and once, or it was discarded before
    a poll reached it, or it waits. -/
structure Accounted {σ : Type u} {α : Type v} (B : Buffer σ α) (bound : Nat) (w : Watch σ α) :
    Prop where
  increasing : (w.returned.map Numbered.seq).Pairwise (· < ·)
  genuine : ∀ m ∈ w.returned, 0 < m.seq ∧ w.delivered[m.seq - 1]? = some m.content
  fate : ∀ k, 0 < k → k ≤ w.delivered.length →
    k ∈ w.returned.map Numbered.seq ∨ k ∈ w.missed ∨ w.Waits B k
  missed : ∀ k ∈ w.missed, k ∉ w.returned.map Numbered.seq ∧ ¬ w.Waits B k
  fresh : ∀ k, w.Waits B k → k ∉ w.returned.map Numbered.seq
  bounded : (B.held w.buffer).length ≤ bound
  received : ∀ after limit, (B.poll w.buffer after limit).received = w.delivered.length
  dropped : ∀ after limit,
    (B.poll w.buffer after limit).dropped = w.delivered.length - (B.held w.buffer).length

/-- **A buffer is a bounded log**: in every run every entry is accounted for, and one that waits is
    returned by as many polls as it is away, whatever their limits. -/
structure IsLog {σ : Type u} {α : Type v} (B : Buffer σ α) (bound : Nat) : Prop where
  accounted : ∀ uses, Accounted B bound (Watch.run B uses)
  returned : ∀ uses k, (Watch.run B uses).Waits B k →
    ∀ polls : List { limit : Nat // 0 < limit }, k ≤ (Watch.run B uses).cursor + polls.length →
      k ∈ (Watch.run B (uses ++ polls.map fun limit => .poll limit.1 limit.2)).returned.map
        Numbered.seq

/-- Two buffers return the same and miss the same, in every run. -/
def AnswerAlike {σ : Type u} {τ : Type w} {α : Type v} (B : Buffer σ α) (C : Buffer τ α) : Prop :=
  ∀ uses, (Watch.run B uses).returned = (Watch.run C uses).returned ∧
    (Watch.run B uses).cursor = (Watch.run C uses).cursor ∧
    (Watch.run B uses).missed = (Watch.run C uses).missed

/-! ## The log -/

/-- A log: what arrived, and how many of the first entries are discarded. -/
structure BoundedLog (α : Type u) where
  arrived : List α
  discarded : Nat

/-- Entries with their numbers. -/
def numbered {α : Type u} (entries : List α) : List (Numbered α) :=
  entries.zipIdx.map fun p => ⟨p.2 + 1, p.1⟩

namespace BoundedLog

variable {α : Type u}

/-- The entries that are not discarded. -/
def held (l : BoundedLog α) : List (Numbered α) := (numbered l.arrived).drop l.discarded

/-- One more entry, at the expense of the oldest where there is no room. -/
def deliver (bound : Nat) (l : BoundedLog α) (content : α) : BoundedLog α where
  arrived := l.arrived ++ [content]
  discarded := if bound ≤ l.arrived.length - l.discarded then l.discarded + 1 else l.discarded

/-- So many of the entries after the cursor. -/
def poll (l : BoundedLog α) (after limit : Nat) : Polled α where
  messages := ((numbered l.arrived).drop (max after l.discarded)).take limit
  cursor := min (max after l.discarded + limit) l.arrived.length
  dropped := l.discarded
  received := l.arrived.length

/-- The log as a buffer. -/
def buffer (bound : Nat) : Buffer (BoundedLog α) α where
  empty := ⟨[], 0⟩
  deliver := deliver bound
  poll := poll
  held := held

end BoundedLog

/-! ## Numbered entries -/

section Numbering

variable {α : Type u} {xs : List α}

@[simp] theorem length_numbered (xs : List α) : (numbered xs).length = xs.length := by
  simp [numbered]

theorem numbered_concat (xs : List α) (x : α) :
    numbered (xs ++ [x]) = numbered xs ++ [⟨xs.length + 1, x⟩] := by
  simp [numbered, List.zipIdx_append]

theorem getElem?_numbered (xs : List α) (i : Nat) :
    (numbered xs)[i]? = xs[i]?.map fun x => ⟨i + 1, x⟩ := by
  cases h : xs[i]? <;> simp [numbered, h]

/-- The entries from one place on, up to another, are those with a number in between. -/
theorem mem_drop_take {xs : List α} {a n : Nat} {m : Numbered α} :
    m ∈ ((numbered xs).drop a).take n ↔
      a < m.seq ∧ m.seq ≤ a + n ∧ xs[m.seq - 1]? = some m.content := by
  rw [List.mem_iff_getElem?]
  simp only [List.getElem?_take, List.getElem?_drop, getElem?_numbered]
  constructor
  · rintro ⟨i, hi⟩
    split at hi
    · obtain ⟨x, hx, rfl⟩ := Option.map_eq_some_iff.mp hi
      refine ⟨by dsimp only; omega, by dsimp only; omega, ?_⟩
      simpa using hx
    · cases hi
  · rintro ⟨hlow, hhigh, hcontent⟩
    refine ⟨m.seq - 1 - a, ?_⟩
    rw [if_pos (by omega)]
    have hplace : a + (m.seq - 1 - a) = m.seq - 1 := by omega
    have hseq : m.seq - 1 + 1 = m.seq := by omega
    rw [hplace, hcontent, Option.map_some, hseq]

theorem mem_drop {xs : List α} {a : Nat} {m : Numbered α} :
    m ∈ (numbered xs).drop a ↔ a < m.seq ∧ xs[m.seq - 1]? = some m.content := by
  have hall : (numbered xs).drop a = ((numbered xs).drop a).take xs.length :=
    (List.take_of_length_le (by simp)).symm
  rw [hall, mem_drop_take]
  constructor
  · rintro ⟨hlow, -, hcontent⟩
    exact ⟨hlow, hcontent⟩
  · rintro ⟨hlow, hcontent⟩
    have hlt := (List.getElem?_eq_some_iff.mp hcontent).1
    exact ⟨hlow, by omega, hcontent⟩

/-- The numbers of the entries from one place on. -/
theorem mem_seq_drop {xs : List α} {a k : Nat} :
    k ∈ ((numbered xs).drop a).map Numbered.seq ↔ a < k ∧ k ≤ xs.length := by
  constructor
  · intro h
    obtain ⟨m, hm, rfl⟩ := List.mem_map.mp h
    obtain ⟨hlow, hcontent⟩ := mem_drop.mp hm
    have hlt := (List.getElem?_eq_some_iff.mp hcontent).1
    exact ⟨hlow, by omega⟩
  · rintro ⟨hlow, hhigh⟩
    have hlt : k - 1 < xs.length := by omega
    refine List.mem_map.mpr ⟨⟨k, xs[k - 1]⟩, mem_drop.mpr ⟨hlow, ?_⟩, rfl⟩
    exact List.getElem?_eq_getElem hlt

theorem mem_seq_drop_take {xs : List α} {a n k : Nat} :
    k ∈ (((numbered xs).drop a).take n).map Numbered.seq ↔ a < k ∧ k ≤ a + n ∧ k ≤ xs.length := by
  constructor
  · intro h
    obtain ⟨m, hm, rfl⟩ := List.mem_map.mp h
    obtain ⟨hlow, hhigh, hcontent⟩ := mem_drop_take.mp hm
    have hlt := (List.getElem?_eq_some_iff.mp hcontent).1
    exact ⟨hlow, hhigh, by omega⟩
  · rintro ⟨hlow, hhigh, hlength⟩
    have hlt : k - 1 < xs.length := by omega
    refine List.mem_map.mpr ⟨⟨k, xs[k - 1]⟩, mem_drop_take.mpr ⟨hlow, hhigh, ?_⟩, rfl⟩
    exact List.getElem?_eq_getElem hlt

/-- The numbers go up. -/
theorem pairwise_numbered (xs : List α) :
    ((numbered xs).map Numbered.seq).Pairwise (· < ·) := by
  have hseqs : (numbered xs).map Numbered.seq = List.range' 1 xs.length := by
    apply List.ext_getElem
    · simp
    · intro i hi _
      simp [numbered, Nat.add_comm]
  rw [hseqs]
  exact List.pairwise_lt_range'

/-- What came after a number, of the entries from one place on. -/
theorem filter_after (xs : List α) (after a : Nat) :
    ((numbered xs).drop a).filter (fun m => after < m.seq) = (numbered xs).drop (max after a) := by
  induction xs using List.reverseRecOn generalizing a with
  | nil => simp [numbered]
  | append_singleton xs x ih =>
    rw [numbered_concat]
    by_cases ha : a ≤ xs.length
    · rw [List.drop_append_of_le_length (by simpa using ha), List.filter_append, ih]
      by_cases hafter : after < xs.length + 1
      · rw [List.drop_append_of_le_length (by rw [length_numbered]; omega)]
        simp [hafter]
      · have hall : (numbered xs).drop (max after a) = [] :=
          List.drop_of_length_le (by rw [length_numbered]; omega)
        rw [hall, List.drop_of_length_le (by simp; omega)]
        simp [hafter]
    · rw [List.drop_of_length_le (by simp; omega), List.drop_of_length_le (by simp; omega)]
      rfl

/-- The number of the entry that many places on. -/
theorem seq_after (xs : List α) (a i : Nat) :
    ((numbered xs).drop a)[i]?.map Numbered.seq = if a + i < xs.length then some (a + i + 1)
      else none := by
  rw [List.getElem?_drop, getElem?_numbered]
  split
  next hlt => simp [List.getElem?_eq_getElem hlt]
  next hge => simp [List.getElem?_eq_none (Nat.not_lt.mp hge)]

/-- The last number of so many entries from one place on. -/
theorem last_seq_after {xs : List α} {a limit : Nat} (ha : a < xs.length) (hlimit : 0 < limit) :
    (((numbered xs).drop a).take limit).getLast?.map Numbered.seq =
      some (min (a + limit) xs.length) := by
  have hlength : (((numbered xs).drop a).take limit).length = min limit (xs.length - a) := by simp
  have hlast : min limit (xs.length - a) - 1 < limit := by omega
  rw [List.getLast?_eq_getElem?, hlength, List.getElem?_take_of_lt hlast, seq_after,
    if_pos (by omega)]
  congr 1
  omega

end Numbering

/-! ## What becomes of the entries of a log -/

/-- As many entries are held as there is room for, the latest among them. -/
structure BoundedLog.Tidy {α : Type u} (bound : Nat) (l : BoundedLog α) : Prop where
  some : l.discarded ≤ l.arrived.length
  latest : 0 < l.arrived.length → l.discarded < l.arrived.length
  room : l.arrived.length - l.discarded ≤ bound

/-- **Of every entry of a log** is known what became of it. -/
structure Kept {α : Type u} (bound : Nat) (w : Watch (BoundedLog α) α) : Prop where
  arrived : w.buffer.arrived = w.delivered
  tidy : w.buffer.Tidy bound
  cursor : w.cursor ≤ w.delivered.length
  increasing : (w.returned.map Numbered.seq).Pairwise (· < ·)
  reached : ∀ m ∈ w.returned,
    0 < m.seq ∧ m.seq ≤ w.cursor ∧ w.delivered[m.seq - 1]? = Option.some m.content
  missed : ∀ k ∈ w.missed, k ≤ w.buffer.discarded ∧ k ∉ w.returned.map Numbered.seq
  fate : ∀ k, 0 < k → k ≤ w.delivered.length → k ∈ w.returned.map Numbered.seq ∨ k ∈ w.missed ∨
    w.cursor < k ∧ w.buffer.discarded < k

section Logs

variable {α : Type u} {bound : Nat} {w : Watch (BoundedLog α) α}

theorem BoundedLog.Tidy.deliver {l : BoundedLog α} (h : l.Tidy bound) (hbound : 0 < bound)
    (x : α) : (l.deliver bound x).Tidy bound := by
  obtain ⟨hsome, hlatest, hroom⟩ := h
  refine ⟨?_, ?_, ?_⟩ <;>
    simp only [BoundedLog.deliver, List.length_append, List.length_singleton] <;> split <;> omega

/-- The entries a delivery discards before a poll reached them. -/
theorem mem_gone {l : BoundedLog α} (hsome : l.discarded ≤ l.arrived.length) {x : α}
    {cursor k : Nat} :
    k ∈ ((l.held ++ [(⟨l.arrived.length + 1, x⟩ : Numbered α)]).filter fun m =>
        cursor < m.seq &&
          !(((l.deliver bound x).held).map Numbered.seq).contains m.seq).map Numbered.seq ↔
      l.discarded < k ∧ k ≤ l.arrived.length + 1 ∧ cursor < k ∧
        k ≤ (l.deliver bound x).discarded := by
  have hheld : l.held ++ [⟨l.arrived.length + 1, x⟩] =
      (numbered (l.arrived ++ [x])).drop l.discarded := by
    rw [numbered_concat, List.drop_append_of_le_length (by simpa using hsome)]
    rfl
  have hnext : ∀ j, j ∈ ((l.deliver bound x).held).map Numbered.seq ↔
      (l.deliver bound x).discarded < j ∧ j ≤ l.arrived.length + 1 := by
    intro j
    rw [BoundedLog.held, mem_seq_drop]
    simp [BoundedLog.deliver]
  rw [hheld]
  simp only [List.mem_map, List.mem_filter, Bool.and_eq_true, decide_eq_true_eq, Bool.not_eq_true',
    List.contains_eq_mem, decide_eq_false_iff_not]
  constructor
  · rintro ⟨m, ⟨hm, hcursor, hout⟩, rfl⟩
    have hplace := mem_seq_drop.mp (List.mem_map_of_mem hm)
    simp only [List.length_append, List.length_singleton] at hplace
    have hgone : ¬ ((l.deliver bound x).discarded < m.seq ∧ m.seq ≤ l.arrived.length + 1) :=
      fun hin => hout (List.mem_map.mp ((hnext m.seq).mpr hin))
    exact ⟨hplace.1, hplace.2, hcursor, by omega⟩
  · rintro ⟨hlow, hhigh, hcursor, hgone⟩
    have hplace : k ∈ ((numbered (l.arrived ++ [x])).drop l.discarded).map Numbered.seq := by
      rw [mem_seq_drop]
      simpa using ⟨hlow, hhigh⟩
    obtain ⟨m, hm, rfl⟩ := List.mem_map.mp hplace
    refine ⟨m, ⟨hm, hcursor, fun hin => ?_⟩, rfl⟩
    have hkept := (hnext m.seq).mp (by simpa using hin)
    omega

theorem kept_start (bound : Nat) : Kept bound (Watch.start (BoundedLog.buffer (α := α) bound)) where
  arrived := rfl
  tidy := ⟨le_rfl, fun h => h, Nat.zero_le _⟩
  cursor := le_rfl
  increasing := List.Pairwise.nil
  reached _ hm := absurd hm List.not_mem_nil
  missed _ hk := absurd hk List.not_mem_nil
  fate _ hpositive hk := absurd hk (Nat.not_le.mpr hpositive)

/-- **A delivery** discards one entry at most, which a poll reached or did not. -/
theorem Kept.deliver (h : Kept bound w) (hbound : 0 < bound) (x : α) :
    Kept bound (w.step (BoundedLog.buffer bound) (.deliver x)) := by
  obtain ⟨harrived, htidy, hcursor, hincreasing, hreached, hmissed, hfate⟩ := h
  have hgone : ∀ k, _ ↔ w.buffer.discarded < k ∧ k ≤ w.buffer.arrived.length + 1 ∧ w.cursor < k ∧
      k ≤ (w.buffer.deliver bound x).discarded := fun k => mem_gone htidy.some
  have hnext := htidy.deliver hbound x
  have hdiscarded : w.buffer.discarded ≤ (w.buffer.deliver bound x).discarded := by
    simp only [BoundedLog.deliver]
    split <;> omega
  have hlength : (w.buffer.deliver bound x).arrived.length = w.delivered.length + 1 := by
    simp [BoundedLog.deliver, harrived]
  rw [harrived] at hgone
  simp only [Watch.step, BoundedLog.buffer]
  refine ⟨?_, hnext, ?_, hincreasing, fun m hm => ?_, fun k hk => ?_, fun k hpositive hk => ?_⟩
  · exact congrArg (· ++ [x]) harrived
  · simp only [List.length_append, List.length_singleton]
    exact Nat.le_succ_of_le hcursor
  · obtain ⟨hpositive, hseq, hcontent⟩ := hreached m hm
    refine ⟨hpositive, hseq, ?_⟩
    rw [List.getElem?_append_left (List.getElem?_eq_some_iff.mp hcontent).1]
    exact hcontent
  · rcases List.mem_append.mp hk with hold | hnew
    · obtain ⟨hlow, hout⟩ := hmissed k hold
      exact ⟨hlow.trans hdiscarded, hout⟩
    · obtain ⟨-, -, hafter, hout⟩ := (hgone k).mp hnew
      refine ⟨hout, fun hreturned => ?_⟩
      -- no poll reached it
      obtain ⟨m, hm, rfl⟩ := List.mem_map.mp hreturned
      exact absurd (hreached m hm).2.1 (Nat.not_le.mpr hafter)
  · simp only [List.length_append, List.length_singleton] at hk
    by_cases hold : k ≤ w.delivered.length
    · rcases hfate k hpositive hold with hreturned | hout | ⟨hafter, hheld⟩
      · exact .inl hreturned
      · exact .inr (.inl (List.mem_append_left _ hout))
      · by_cases hstays : (w.buffer.deliver bound x).discarded < k
        · exact .inr (.inr ⟨hafter, hstays⟩)
        · refine .inr (.inl (List.mem_append_right _ ((hgone k).mpr ?_)))
          exact ⟨hheld, by omega, hafter, Nat.not_lt.mp hstays⟩
    · have hlast := hnext.latest (by omega)
      have hafter : w.cursor < k := by omega
      have hheld : (w.buffer.deliver bound x).discarded < k := by omega
      exact .inr (.inr ⟨hafter, hheld⟩)

/-- **A poll** returns the entries that wait, in order and up to its limit. -/
theorem Kept.poll (h : Kept bound w) (limit : Nat) (hlimit : 0 < limit) :
    Kept bound (w.step (BoundedLog.buffer bound) (.poll limit hlimit)) := by
  obtain ⟨harrived, htidy, hcursor, hincreasing, hreached, hmissed, hfate⟩ := h
  have hsome := htidy.some
  have hreturned : ∀ k, k ∈ (((numbered w.delivered).drop (max w.cursor w.buffer.discarded)).take
      limit).map Numbered.seq ↔ max w.cursor w.buffer.discarded < k ∧
        k ≤ max w.cursor w.buffer.discarded + limit ∧ k ≤ w.delivered.length :=
    fun k => mem_seq_drop_take
  simp only [Watch.step, BoundedLog.buffer, BoundedLog.poll, harrived]
  rw [harrived] at hsome
  refine ⟨harrived, htidy, Nat.min_le_right _ _, ?_, fun m hm => ?_, fun k hk => ?_,
    fun k hpositive hk => ?_⟩
  · rw [List.map_append]
    refine List.pairwise_append.mpr ⟨hincreasing, ?_, fun j hj k hk => ?_⟩
    · have hall := pairwise_numbered w.delivered
      exact hall.sublist
        (((List.take_sublist _ _).trans (List.drop_sublist _ _)).map Numbered.seq)
    · obtain ⟨m, hm, rfl⟩ := List.mem_map.mp hj
      have hbefore := (hreached m hm).2.1
      have hafter := ((hreturned k).mp hk).1
      omega
  · rcases List.mem_append.mp hm with hold | hnew
    · obtain ⟨hpositive, hseq, hcontent⟩ := hreached m hold
      have hcovered : m.seq ≤ min (max w.cursor w.buffer.discarded + limit) w.delivered.length := by
        omega
      exact ⟨hpositive, hcovered, hcontent⟩
    · obtain ⟨hlow, hhigh, hcontent⟩ := mem_drop_take.mp hnew
      have hlt := (List.getElem?_eq_some_iff.mp hcontent).1
      have hcovered : m.seq ≤ min (max w.cursor w.buffer.discarded + limit) w.delivered.length := by
        omega
      exact ⟨by omega, hcovered, hcontent⟩
  · obtain ⟨hlow, hout⟩ := hmissed k hk
    refine ⟨hlow, fun hin => ?_⟩
    rw [List.map_append] at hin
    rcases List.mem_append.mp hin with hold | hnew
    · exact hout hold
    · have hafter := ((hreturned k).mp hnew).1
      omega
  · rw [List.map_append]
    rcases hfate k hpositive hk with hold | hout | ⟨hafter, hheld⟩
    · exact .inl (List.mem_append_left _ hold)
    · exact .inr (.inl hout)
    · by_cases hin : k ≤ max w.cursor w.buffer.discarded + limit
      · exact .inl (List.mem_append_right _ ((hreturned k).mpr ⟨by omega, hin, hk⟩))
      · have hbeyond : min (max w.cursor w.buffer.discarded + limit) w.delivered.length < k := by
          omega
        exact .inr (.inr ⟨hbeyond, hheld⟩)

/-- **Run lemma**: of every entry of a log is known what became of it. -/
theorem kept_run (hbound : 0 < bound) (uses : List (Use α)) :
    Kept bound (Watch.run (BoundedLog.buffer bound) uses) := by
  have hfold : ∀ w : Watch (BoundedLog α) α, Kept bound w →
      Kept bound (uses.foldl (Watch.step (BoundedLog.buffer bound)) w) := by
    induction uses with
    | nil => exact fun w hw => hw
    | cons use rest ih =>
      intro w hw
      cases use with
      | deliver x => exact ih _ (hw.deliver hbound x)
      | poll limit positive => exact ih _ (hw.poll limit positive)
  exact hfold _ (kept_start bound)

end Logs

/-! ## Buffers that answer as a log does -/

/-- **A buffer answers as the log does**: the relation of the two holds at the start and survives
    every delivery, and related ones hold and return the same. -/
structure Simulates {σ : Type u} {α : Type v} (B : Buffer σ α) (bound : Nat)
    (R : σ → BoundedLog α → Prop) : Prop where
  empty : R B.empty ⟨[], 0⟩
  deliver : ∀ s l x, l.Tidy bound → R s l → R (B.deliver s x) (l.deliver bound x)
  held : ∀ s l, R s l → B.held s = l.held
  poll : ∀ s l after limit, l.Tidy bound → after ≤ l.arrived.length → 0 < limit → R s l →
    B.poll s after limit = l.poll after limit
  received : ∀ s l after limit, R s l → (B.poll s after limit).received = l.arrived.length
  dropped : ∀ s l after limit, R s l → (B.poll s after limit).dropped = l.discarded

section Simulation

variable {σ : Type u} {τ : Type w} {α : Type v} {B : Buffer σ α} {C : Buffer τ α} {bound : Nat}
  {R : σ → BoundedLog α → Prop} {S : τ → BoundedLog α → Prop}

/-- Two readers stand alike, and their buffers are related. -/
structure Alike (R : σ → BoundedLog α → Prop) (w : Watch σ α) (v : Watch (BoundedLog α) α) :
    Prop where
  buffer : R w.buffer v.buffer
  cursor : w.cursor = v.cursor
  delivered : w.delivered = v.delivered
  returned : w.returned = v.returned
  missed : w.missed = v.missed

/-- **Step lemma**: they go on alike. -/
theorem Simulates.step (h : Simulates B bound R) {w : Watch σ α} {v : Watch (BoundedLog α) α}
    (hw : Alike R w v) (hv : Kept bound v) (use : Use α) :
    Alike R (w.step B use) (v.step (BoundedLog.buffer bound) use) := by
  obtain ⟨hbuffer, hcursor, hdelivered, hreturned, hmissed⟩ := hw
  cases use with
  | deliver x =>
    have hnext := h.deliver _ _ x hv.tidy hbuffer
    refine ⟨hnext, hcursor, ?_, hreturned, ?_⟩
    · exact congrArg (· ++ [x]) hdelivered
    · simp only [Watch.step, hmissed, hcursor, hdelivered, h.held _ _ hbuffer, h.held _ _ hnext]
      rfl
  | poll limit positive =>
    have hplace : w.cursor ≤ v.buffer.arrived.length := by
      rw [hcursor, hv.arrived]
      exact hv.cursor
    have hpolled := h.poll _ _ _ limit hv.tidy hplace positive hbuffer
    rw [hcursor] at hpolled
    refine ⟨hbuffer, ?_, hdelivered, ?_, hmissed⟩
    · simp only [Watch.step, hcursor, hpolled]
      rfl
    · simp only [Watch.step, hcursor, hpolled, hreturned]
      rfl

/-- **Run lemma**: they are alike all along. -/
theorem Simulates.run (h : Simulates B bound R) (hbound : 0 < bound) (uses : List (Use α)) :
    Alike R (Watch.run B uses) (Watch.run (BoundedLog.buffer bound) uses) := by
  have hfold : ∀ (w : Watch σ α) (v : Watch (BoundedLog α) α), Alike R w v → Kept bound v →
      Alike R (uses.foldl (Watch.step B) w)
        (uses.foldl (Watch.step (BoundedLog.buffer bound)) v) := by
    induction uses with
    | nil => exact fun w v hw _ => hw
    | cons use rest ih =>
      intro w v hw hv
      apply ih _ _ (h.step hw hv use)
      cases use with
      | deliver x => exact hv.deliver hbound x
      | poll limit positive => exact hv.poll limit positive
  exact hfold _ _ ⟨h.empty, rfl, rfl, rfl, rfl⟩ (kept_start bound)

/-- What waits in a buffer is what its log still holds past the cursor. -/
theorem Alike.waits_iff (h : Simulates B bound R) {w : Watch σ α} {v : Watch (BoundedLog α) α}
    (hw : Alike R w v) (hv : Kept bound v) {k : Nat} :
    w.Waits B k ↔ v.cursor < k ∧ v.buffer.discarded < k ∧ k ≤ v.delivered.length := by
  rw [Watch.Waits, h.held _ _ hw.buffer, BoundedLog.held, mem_seq_drop, hw.cursor, hv.arrived]

/-- **Every entry is accounted for**, in every run. -/
theorem Simulates.accounted (h : Simulates B bound R) (hbound : 0 < bound)
    (uses : List (Use α)) : Accounted B bound (Watch.run B uses) := by
  have hw := h.run hbound uses
  have hv := kept_run (α := α) hbound uses
  have hwaits := fun k => hw.waits_iff h hv (k := k)
  have hheld : (B.held (Watch.run B uses).buffer).length =
      (Watch.run (BoundedLog.buffer bound) uses).delivered.length -
        (Watch.run (BoundedLog.buffer bound) uses).buffer.discarded := by
    rw [h.held _ _ hw.buffer, BoundedLog.held, List.length_drop, length_numbered, hv.arrived]
  have hroom := hv.tidy.room
  have hsome := hv.tidy.some
  rw [hv.arrived] at hroom hsome
  refine ⟨?_, fun m hm => ?_, fun k hpositive hk => ?_, fun k hk => ?_, fun k hk => ?_, ?_,
    fun after limit => ?_, fun after limit => ?_⟩
  · rw [hw.returned]
    exact hv.increasing
  · rw [hw.returned] at hm
    obtain ⟨hpositive, -, hcontent⟩ := hv.reached m hm
    rw [hw.delivered]
    exact ⟨hpositive, hcontent⟩
  · rw [hw.delivered] at hk
    rw [hw.returned, hw.missed, hwaits]
    rcases hv.fate k hpositive hk with hreturned | hout | ⟨hafter, hstays⟩
    · exact .inl hreturned
    · exact .inr (.inl hout)
    · exact .inr (.inr ⟨hafter, hstays, hk⟩)
  · rw [hw.missed] at hk
    obtain ⟨hlow, hout⟩ := hv.missed k hk
    rw [hw.returned, hwaits]
    exact ⟨hout, fun hwaiting => absurd hlow (Nat.not_le.mpr hwaiting.2.1)⟩
  · obtain ⟨hafter, -⟩ := (hwaits k).mp hk
    rw [hw.returned]
    intro hin
    obtain ⟨m, hm, rfl⟩ := List.mem_map.mp hin
    exact absurd (hv.reached m hm).2.1 (Nat.not_le.mpr hafter)
  · rw [hheld]
    exact hroom
  · rw [h.received _ _ after limit hw.buffer, hv.arrived, hw.delivered]
  · rw [h.dropped _ _ after limit hw.buffer, hheld, hw.delivered]
    omega

theorem Watch.run_concat (B : Buffer σ α) (uses : List (Use α)) (use : Use α) :
    Watch.run B (uses ++ [use]) = (Watch.run B uses).step B use := by
  simp [Watch.run]

/-- A poll returns an entry that waits, or comes closer to it. -/
theorem Simulates.closer (h : Simulates B bound R) (hbound : 0 < bound) {uses : List (Use α)}
    {k : Nat} (hk : (Watch.run B uses).Waits B k) (limit : Nat) (positive : 0 < limit) :
    k ∈ (Watch.run B (uses ++ [.poll limit positive])).returned.map Numbered.seq ∨
      (Watch.run B (uses ++ [.poll limit positive])).Waits B k ∧
        (Watch.run B uses).cursor < (Watch.run B (uses ++ [.poll limit positive])).cursor := by
  have hw := h.run hbound uses
  have hv := kept_run (α := α) hbound uses
  obtain ⟨hafter, hstays, hlast⟩ := (hw.waits_iff h hv).mp hk
  have hw' := h.step hw hv (.poll limit positive)
  have hv' := hv.poll limit positive
  rw [Watch.run_concat, hw'.returned, hw'.cursor, hw.cursor, hw'.waits_iff h hv']
  generalize Watch.run (BoundedLog.buffer bound) uses = v at *
  simp only [Watch.step, BoundedLog.buffer, BoundedLog.poll, hv.arrived]
  by_cases hin : k ≤ max v.cursor v.buffer.discarded + limit
  · left
    rw [List.map_append]
    exact List.mem_append_right _ (mem_seq_drop_take.mpr ⟨by omega, hin, hlast⟩)
  · exact .inr ⟨⟨by omega, hstays, hlast⟩, by omega⟩

/-- **An entry that waits is returned** by as many polls as it is away, whatever their limits. -/
theorem Simulates.returned (h : Simulates B bound R) (hbound : 0 < bound) {uses : List (Use α)}
    {k : Nat} (hk : (Watch.run B uses).Waits B k) (polls : List { limit : Nat // 0 < limit })
    (henough : k ≤ (Watch.run B uses).cursor + polls.length) :
    k ∈ (Watch.run B (uses ++ polls.map fun limit => .poll limit.1 limit.2)).returned.map
      Numbered.seq := by
  induction polls generalizing uses with
  | nil =>
    have hafter := hk.1
    simp only [List.length_nil, Nat.add_zero] at henough
    exact absurd henough (Nat.not_le.mpr hafter)
  | cons limit rest ih =>
    have hsplit : uses ++ (limit :: rest).map (fun limit => Use.poll limit.1 limit.2) =
        (uses ++ [.poll limit.1 limit.2]) ++ rest.map fun limit => .poll limit.1 limit.2 := by
      simp
    rw [hsplit]
    rcases h.closer hbound hk limit.1 limit.2 with hin | ⟨hstill, hcloser⟩
    · -- what was returned stays so
      have hgrows : ∀ (more : List { limit : Nat // 0 < limit }) (uses : List (Use α)),
          k ∈ (Watch.run B uses).returned.map Numbered.seq →
          k ∈ (Watch.run B (uses ++ more.map fun limit => .poll limit.1 limit.2)).returned.map
            Numbered.seq := by
        intro more
        induction more with
        | nil => simp
        | cons next others iha =>
          intro uses hreturned
          have hsame : uses ++ (next :: others).map (fun limit => Use.poll limit.1 limit.2) =
              (uses ++ [.poll next.1 next.2]) ++ others.map fun limit => .poll limit.1 limit.2 := by
            simp
          rw [hsame]
          apply iha
          rw [Watch.run_concat]
          simp only [Watch.step, List.map_append]
          exact List.mem_append_left _ hreturned
      exact hgrows rest _ hin
    · apply ih hstill
      simp only [List.length_cons] at henough
      omega

/-- **A buffer that simulates the log is one.** -/
theorem Simulates.isLog (h : Simulates B bound R) (hbound : 0 < bound) : IsLog B bound where
  accounted := h.accounted hbound
  returned _ _ hk := h.returned hbound hk

/-- **Any two that simulate the log answer alike.** -/
theorem Simulates.agree (h : Simulates B bound R) (h' : Simulates C bound S) (hbound : 0 < bound) :
    AnswerAlike B C := by
  intro uses
  have hb := h.run hbound uses
  have hc := h'.run hbound uses
  exact ⟨hb.returned.trans hc.returned.symm, hb.cursor.trans hc.cursor.symm,
    hb.missed.trans hc.missed.symm⟩

end Simulation

end MqStudio.Lib
