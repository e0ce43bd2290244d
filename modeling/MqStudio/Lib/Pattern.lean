import Mathlib.Data.List.Forall2
import Mathlib.Data.List.TakeWhile

/-!
# Patterns With Backtracking

Regular patterns over an arbitrary alphabet, as a backtracking matcher tries them. A pattern reads a
word from its front in several ways, and the ways stand in the order in which they are tried: a
greedy repetition tries the longest first, a lazy one the shortest, and of two alternatives the left
one comes first. Repetitions are of one class of letters.

## Main definitions

- `Pattern`, `Match`: a pattern, and one way it reads the front of a word.
- `Pattern.ways`: all ways, in order.
- `Pattern.exec`, `Pattern.test`, `Pattern.erase`: what programs ask of a pattern.

## Main results

- `Pattern.mem_ways_many`: a repetition reads letters of its class.
- `Pattern.exec_seq`: the first way of a sequence starts with a way of its first part.
- `Pattern.exec_lazy`: a lazy repetition that comes first is as short as what follows allows.
- `Pattern.exec_optional`: a greedy letter is taken, unless what follows then fails.
- `Pattern.exec_rest`: the rest of a word is read in one way.
-/

namespace MqStudio.Lib

universe u

/-- A regular pattern. Groups are numbered by whoever writes the pattern. -/
inductive Pattern (α : Type u) where
  | empty
  | one (p : α → Bool)
  | many (lazy : Bool) (least : Nat) (most : Option Nat) (p : α → Bool)
  | seq (a b : Pattern α)
  | alt (a b : Pattern α)
  | group (n : Nat) (a : Pattern α)
  | stop

/-- One way a pattern reads a word: what it reads, what its groups hold, and what is left. -/
structure Match (α : Type u) where
  text : List α
  groups : List (Nat × List α)
  rest : List α
deriving DecidableEq

namespace Match

variable {α : Type u}

/-- What a group holds, if it took part. -/
def group (w : Match α) (n : Nat) : Option (List α) := w.groups.lookup n

/-- One way, and then another in what it left. -/
def andThen (v w : Match α) : Match α := ⟨v.text ++ w.text, v.groups ++ w.groups, w.rest⟩

/-- The first letters, however many. -/
def front (s : List α) (k : Nat) : Match α := ⟨s.take k, [], s.drop k⟩

@[simp] theorem group_andThen (v w : Match α) (n : Nat) :
    (v.andThen w).group n = (v.group n).or (w.group n) := List.lookup_append

@[simp] theorem group_nil (text rest : List α) (n : Nat) :
    (Match.mk text [] rest).group n = none := rfl

@[simp] theorem group_self (text held rest : List α) (n : Nat) :
    (Match.mk text [(n, held)] rest).group n = some held := by
  simp [group]

theorem group_ne {m n : Nat} (h : n ≠ m) (text held rest : List α) :
    (Match.mk text [(m, held)] rest).group n = none := by
  simp [group, h]

end Match

namespace Pattern

variable {α : Type u}

/-- How many letters a repetition takes of a run, in the order in which it tries. -/
def counts (lazy : Bool) (least : Nat) (most : Option Nat) (run : Nat) : List Nat :=
  let ks := (List.range (run + 1)).filter fun k => decide (least ≤ k) && most.all fun m => k ≤ m
  if lazy then ks else ks.reverse

/-- All ways a pattern reads the front of a word, in the order in which they are tried. -/
def ways : Pattern α → List α → List (Match α)
  | empty, s => [Match.front s 0]
  | one _, [] => []
  | one p, x :: s => if p x then [⟨[x], [], s⟩] else []
  | many lazy least most p, s =>
    (counts lazy least most (s.takeWhile p).length).map (Match.front s)
  | seq a b, s => (ways a s).flatMap fun v => (ways b v.rest).map v.andThen
  | alt a b, s => ways a s ++ ways b s
  | group n a, s => (ways a s).map fun w => { w with groups := w.groups ++ [(n, w.text)] }
  | stop, s => if s.isEmpty then [Match.front s 0] else []

/-- The first way, for a pattern that is tried at the front of a word only. -/
def exec (a : Pattern α) (s : List α) : Option (Match α) := (a.ways s).head?

/-- There is a way. -/
def test (a : Pattern α) (s : List α) : Bool := (a.exec s).isSome

/-- The word without the leftmost place the pattern reads. -/
def erase (a : Pattern α) (s : List α) : List α :=
  match a.exec s, s with
  | some w, _ => w.rest
  | none, [] => []
  | none, x :: s => x :: erase a s

/-- The word without what the pattern reads of its front. -/
def eraseFront (a : Pattern α) (s : List α) : List α := ((a.exec s).map Match.rest).getD s

/-- One pattern after the other. -/
def seqs : List (Pattern α) → Pattern α
  | [] => empty
  | [a] => a
  | a :: as => seq a (seqs as)

/-- One of some patterns. -/
def alts (as : List (Pattern α)) : Pattern α := as.foldr alt (one fun _ => false)

/-- A word, letter by letter. -/
def word [DecidableEq α] (s : List α) : Pattern α := seqs (s.map fun x => one (· = x))

/-- Any number of letters of a class. -/
def star (p : α → Bool) : Pattern α := many false 0 none p

/-- At least one letter of a class. -/
def plus (p : α → Bool) : Pattern α := many false 1 none p

theorem seqs_cons (a b : Pattern α) (as : List (Pattern α)) :
    seqs (a :: b :: as) = seq a (seqs (b :: as)) := rfl

theorem ways_empty (s : List α) : ways empty s = [Match.front s 0] := rfl

theorem ways_one_nil (p : α → Bool) : ways (one p) [] = [] := rfl

theorem ways_one_cons (p : α → Bool) (x : α) (s : List α) :
    ways (one p) (x :: s) = if p x then [⟨[x], [], s⟩] else [] := rfl

theorem ways_many (lazy : Bool) (least : Nat) (most : Option Nat) (p : α → Bool) (s : List α) :
    ways (many lazy least most p) s =
      (counts lazy least most (s.takeWhile p).length).map (Match.front s) := rfl

theorem ways_seq (a b : Pattern α) (s : List α) :
    ways (seq a b) s = (ways a s).flatMap fun v => (ways b v.rest).map v.andThen := rfl

theorem ways_alt (a b : Pattern α) (s : List α) : ways (alt a b) s = ways a s ++ ways b s := rfl

theorem ways_group (n : Nat) (a : Pattern α) (s : List α) :
    ways (group n a) s =
      (ways a s).map fun w => { w with groups := w.groups ++ [(n, w.text)] } := rfl

theorem ways_stop (s : List α) :
    ways stop s = if s.isEmpty then [Match.front s 0] else [] := rfl

/-! ## Ways -/

section Ways

variable {a b : Pattern α} {s t : List α} {w : Match α} {p : α → Bool} {lazy : Bool}
  {least k n run : Nat} {most : Option Nat}

@[simp] theorem mem_counts :
    k ∈ counts lazy least most run ↔ k ≤ run ∧ least ≤ k ∧ ∀ m ∈ most, k ≤ m := by
  have hrange : k < run + 1 ↔ k ≤ run := Nat.lt_succ_iff
  cases lazy <;> simp [counts, hrange, Option.all_eq_true]

@[simp] theorem mem_ways_empty : w ∈ ways empty s ↔ w = Match.front s 0 := by
  simp [ways_empty]

@[simp] theorem mem_ways_one : w ∈ ways (one p) s ↔ ∃ x t, s = x :: t ∧ p x ∧ w = ⟨[x], [], t⟩ := by
  cases s with
  | nil => simp [ways_one_nil]
  | cons x t =>
    simp only [ways_one_cons, List.cons.injEq]
    split
    · rename_i hx
      constructor
      · intro hw
        exact ⟨x, t, ⟨rfl, rfl⟩, hx, List.mem_singleton.mp hw⟩
      · rintro ⟨y, u, ⟨rfl, rfl⟩, -, rfl⟩
        exact List.mem_singleton_self _
    · rename_i hx
      constructor
      · simp
      · rintro ⟨y, u, ⟨rfl, rfl⟩, hy, -⟩
        exact absurd hy hx

@[simp] theorem mem_ways_seq :
    w ∈ ways (seq a b) s ↔ ∃ v ∈ ways a s, ∃ u ∈ ways b v.rest, w = v.andThen u := by
  simp only [ways_seq, List.mem_flatMap, List.mem_map]
  grind

@[simp] theorem mem_ways_alt : w ∈ ways (alt a b) s ↔ w ∈ ways a s ∨ w ∈ ways b s := by
  simp [ways_alt]

@[simp] theorem mem_ways_group :
    w ∈ ways (group n a) s ↔
      ∃ v ∈ ways a s, w = { v with groups := v.groups ++ [(n, v.text)] } := by
  simp only [ways_group, List.mem_map]
  grind

@[simp] theorem mem_ways_stop : w ∈ ways stop s ↔ s = [] ∧ w = ⟨[], [], []⟩ := by
  cases s <;> simp [ways_stop, Match.front]

/-- One of some patterns reads as one of them does. -/
theorem mem_ways_alts {as : List (Pattern α)} :
    w ∈ ways (alts as) s ↔ ∃ a ∈ as, w ∈ ways a s := by
  induction as with
  | nil => simp [alts]
  | cons a as ih =>
    show w ∈ ways (alt a (alts as)) s ↔ _
    simp [ih]

/-- Letters of some classes, one after the other, hold no group. -/
theorem letters_of_mem {ps : List (α → Bool)} (h : w ∈ ways (seqs (ps.map one)) s) :
    w.groups = [] ∧ List.Forall₂ (fun p x => p x = true) ps w.text := by
  induction ps generalizing s w with
  | nil =>
    rw [mem_ways_empty.mp h]
    exact ⟨rfl, .nil⟩
  | cons p ps ih =>
    cases ps with
    | nil =>
      obtain ⟨x, t, rfl, hx, rfl⟩ := mem_ways_one.mp h
      exact ⟨rfl, .cons hx .nil⟩
    | cons q ps =>
      obtain ⟨v, hv, u, hu, rfl⟩ := mem_ways_seq.mp h
      obtain ⟨x, t, rfl, hx, rfl⟩ := mem_ways_one.mp hv
      obtain ⟨hgroups, htext⟩ := ih hu
      exact ⟨hgroups, .cons hx htext⟩

/-- As many letters as a run has are of its class. -/
theorem take_run (h : k ≤ (s.takeWhile p).length) :
    (∀ x ∈ s.take k, p x) ∧ (s.take k).length = k := by
  constructor
  · have hstart : s.take k <+: s.takeWhile p := by
      rw [← List.takeWhile_append_dropWhile (p := p) (l := s), List.take_append_of_le_length h]
      simpa using List.take_prefix k (s.takeWhile p)
    exact fun x hx => List.mem_takeWhile_imp (hstart.subset hx)
  · rw [List.length_take]
    exact Nat.min_eq_left (h.trans (List.takeWhile_prefix p).length_le)

/-- A repetition reads letters of its class only. -/
theorem mem_ways_many :
    w ∈ ways (many lazy least most p) s ↔
      ∃ front back, s = front ++ back ∧ (∀ x ∈ front, p x) ∧ least ≤ front.length ∧
        (∀ m ∈ most, front.length ≤ m) ∧ w = ⟨front, [], back⟩ := by
  simp only [ways_many, List.mem_map, mem_counts]
  constructor
  · rintro ⟨k, ⟨hrun, hleast, hmost⟩, rfl⟩
    obtain ⟨hclass, hlength⟩ := take_run hrun
    refine ⟨s.take k, s.drop k, (List.take_append_drop k s).symm, hclass, ?_, ?_, rfl⟩
    · rwa [hlength]
    · rwa [hlength]
  · rintro ⟨front, back, rfl, hfront, hleast, hmost, rfl⟩
    refine ⟨front.length, ⟨?_, hleast, hmost⟩, ?_⟩
    · rw [List.takeWhile_append_of_pos hfront, List.length_append]
      exact Nat.le_add_right _ _
    · simp [Match.front]

end Ways

/-! ## The first way -/

section First

variable {a b : Pattern α} {s : List α} {w : Match α} {p : α → Bool} {n : Nat}

theorem mem_of_exec (h : a.exec s = some w) : w ∈ a.ways s :=
  List.mem_of_mem_head? h

theorem exec_eq_none_iff : a.exec s = none ↔ a.ways s = [] := List.head?_eq_none_iff

theorem test_of_mem (h : w ∈ a.ways s) : a.test s = true := by
  rw [test, Option.isSome_iff_ne_none, ne_eq, exec_eq_none_iff]
  exact List.ne_nil_of_mem h

/-- The first way of a sequence, as the search goes through the ways of its first part. -/
theorem exec_seq_eq :
    exec (seq a b) s = (a.ways s).findSome? fun v => (b.exec v.rest).map v.andThen := by
  simp [exec, ways_seq, List.head?_flatMap]

/-- **The first way of a sequence** starts with a way of its first part, and goes on with the first
    way of the second. -/
theorem exec_seq (h : exec (seq a b) s = some w) :
    ∃ v ∈ a.ways s, ∃ u, b.exec v.rest = some u ∧ w = v.andThen u := by
  rw [exec_seq_eq] at h
  obtain ⟨v, hv, hw⟩ := List.exists_of_findSome?_eq_some h
  obtain ⟨u, hu, rfl⟩ := Option.map_eq_some_iff.mp hw
  exact ⟨v, hv, u, hu, rfl⟩

theorem counts_lazy (run : Nat) : counts true 0 none run = List.range (run + 1) := by
  simp [counts]

theorem counts_optional (run : Nat) : counts false 0 (some 1) (run + 1) = [1, 0] := by
  simp [counts, List.range_succ_eq_map, List.filter_map, Function.comp_def]

/-- **A lazy group is as short as what follows allows.** -/
theorem exec_lazy (h : exec (seq (group n (many true 0 none p)) b) s = some w) :
    ∃ front back u, s = front ++ back ∧ (∀ x ∈ front, p x) ∧ b.exec back = some u ∧
      w = Match.andThen ⟨front, [(n, front)], back⟩ u ∧
      ∀ early late, front = early ++ late → late ≠ [] → b.test (late ++ back) = false := by
  rw [exec_seq_eq, ways_group, ways_many, counts_lazy, List.map_map] at h
  obtain ⟨before, v, after, hcut, hv, hbefore⟩ := List.findSome?_eq_some_iff.mp h
  obtain ⟨ks, js, hrange, rfl, hjs⟩ := List.map_eq_append_iff.mp hcut
  obtain ⟨k, js, rfl, rfl, rfl⟩ := List.map_eq_cons_iff.mp hjs
  obtain ⟨u, hu, rfl⟩ := Option.map_eq_some_iff.mp hv
  have hk : k ≤ (s.takeWhile p).length := by
    rw [← Nat.lt_succ_iff, ← List.mem_range, hrange]
    simp
  refine ⟨s.take k, s.drop k, u, (List.take_append_drop k s).symm, ?_, hu, rfl, ?_⟩
  · exact (take_run hk).1
  · intro early late hearly hlate
    have hcount : early.length + late.length = k := by
      rw [← List.length_append, ← hearly]
      exact (take_run hk).2
    -- every shorter way was tried before
    have hshorter : early.length ∈ ks := by
      have hpos := List.length_pos_iff.mpr hlate
      have hmem : early.length ∈ ks ++ k :: js := by
        rw [← hrange, List.mem_range]
        omega
      rcases List.mem_append.mp hmem with hks | hjs
      · exact hks
      · have hsorted : (ks ++ k :: js).Pairwise (· < ·) := hrange ▸ List.pairwise_lt_range
        rcases List.mem_cons.mp hjs with hk | hjs
        · omega
        · have := List.rel_of_pairwise_cons (List.pairwise_append.mp hsorted).2.1 hjs
          omega
    have hfail := hbefore _ (List.mem_map_of_mem hshorter)
    have hdrop : s.drop early.length = late ++ s.drop k := by
      calc s.drop early.length = (early ++ (late ++ s.drop k)).drop early.length := by
            rw [← List.append_assoc, ← hearly, List.take_append_drop]
        _ = late ++ s.drop k := List.drop_left
    rw [test, ← hdrop]
    simpa [Match.front] using hfail

/-- **A greedy letter is taken**, unless what follows then fails. -/
theorem exec_optional (x : α) (s : List α) :
    exec (seq (many false 0 (some 1) p) b) (x :: s) =
      if p x ∧ b.test s then (b.exec s).map (Match.andThen ⟨[x], [], s⟩)
      else (b.exec (x :: s)).map (Match.andThen ⟨[], [], x :: s⟩) := by
  rw [exec_seq_eq, ways_many]
  by_cases hx : p x
  · rw [List.takeWhile_cons_of_pos hx, List.length_cons, counts_optional]
    cases hb : b.exec s with
    | none => simp [Match.front, hx, hb, test]
    | some u => simp [Match.front, hx, hb, test]
  · simp [hx, counts, Match.front]

/-- **The rest of a word is read as a group**, if it is of the class, and in this way alone. -/
theorem exec_rest :
    exec (seqs [group n (star p), stop]) s = some w ↔ (∀ x ∈ s, p x) ∧ w = ⟨s, [(n, s)], []⟩ := by
  have hread : ∀ v, exec (seqs [group n (star p), stop]) s = some v →
      (∀ x ∈ s, p x) ∧ v = ⟨s, [(n, s)], []⟩ := by
    intro v hv
    obtain ⟨a, ha, u, hu, rfl⟩ := exec_seq hv
    obtain ⟨taken, htaken, rfl⟩ := mem_ways_group.mp ha
    obtain ⟨front, back, rfl, hfront, -, -, rfl⟩ := mem_ways_many.mp htaken
    obtain ⟨rfl, rfl⟩ := mem_ways_stop.mp (mem_of_exec hu)
    simpa [Match.andThen] using hfront
  constructor
  · exact hread w
  · rintro ⟨hall, rfl⟩
    have hrest : Match.mk s [] [] ∈ ways (star p) s :=
      mem_ways_many.mpr ⟨s, [], by simp, hall, by simp, by simp, rfl⟩
    have hgroup : Match.mk s [(n, s)] [] ∈ ways (group n (star p)) s :=
      mem_ways_group.mpr ⟨_, hrest, rfl⟩
    have hway : Match.mk s [(n, s)] [] ∈ ways (seqs [group n (star p), stop]) s :=
      mem_ways_seq.mpr ⟨_, hgroup, _, mem_ways_stop.mpr ⟨rfl, rfl⟩, by simp [Match.andThen]⟩
    obtain ⟨v, hv⟩ := Option.isSome_iff_exists.mp (test_of_mem hway)
    rw [hv, (hread v hv).2]

end First

end Pattern

end MqStudio.Lib
