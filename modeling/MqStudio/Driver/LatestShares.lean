import Mathlib.Algebra.Order.BigOperators.Group.List
import MqStudio.Driver.KafkaTail
import MqStudio.Lib.Int64
import MqStudio.Lib.RoundRobin

/-!
# Shares of the Latest Records

`latestShares` of `internal/driver/kafka/record_read.go`: how many records a read of the latest takes
from each partition. The limit is dealt in rounds. A map that lacks a key reads as zero.

What the partitions hold is added up in 64 bits, and the budget is capped by the sum.

## Main results

- `latestShares_fair_iff`: the limit is spent fairly and fully unless the sum wraps around below it.
- `latestShares_wrapped`: two partitions that together hold too much give nothing.
-/

namespace MqStudio.Driver.Kafka

open MqStudio.Lib
open MqStudio.Lib.RoundRobin

/-- What the source takes a partition to have. -/
def holds (starts ends : ListedOffsets) (partition : Int) : Int :=
  let start := offsetAt starts partition
  let last := offsetAt ends partition
  if start < 0 ∨ last < 0 ∨ last ≤ start then 0 else last - start

/-- The body of its first loop: what each partition has available, and the total. -/
def tally (starts ends : ListedOffsets) (counted : (Int → Int) × Int) (partition : Int) :
    (Int → Int) × Int :=
  let start := offsetAt starts partition
  let last := offsetAt ends partition
  if start < 0 ∨ last < 0 ∨ last ≤ start then counted
  else (Function.update counted.1 partition (last - start), int64 (counted.2 + (last - start)))

/-- `latestShares` -/
def latestShares (partitions : List Int) (limit : Int) (starts ends : ListedOffsets) : Int → Int :=
  let counted := partitions.foldl (tally starts ends) (fun _ => 0, 0)
  let budget := if counted.2 < limit then counted.2 else limit
  rounds counted.1 partitions (fun _ => 0) budget

/-- A partition whose ends are known, and that has something between them. -/
def Readable (starts ends : ListedOffsets) (partition : Int) : Prop :=
  0 ≤ offsetAt starts partition ∧ 0 ≤ offsetAt ends partition ∧
    offsetAt starts partition < offsetAt ends partition

/-- All that is available. -/
def total (partitions : List Int) (starts ends : ListedOffsets) : Int :=
  (partitions.map (holds starts ends)).sum

/-- **A fair and full split**: what is readable gives no more than it has, nothing else gives
    anything; the limit is met as far as there is something; and of two partitions one gives less by
    two or more only where it has no more. -/
structure Fair (partitions : List Int) (limit : Int) (starts ends : ListedOffsets)
    (shares : Int → Int) : Prop where
  within : ∀ p ∈ partitions, Readable starts ends p →
    0 ≤ shares p ∧ shares p ≤ offsetAt ends p - offsetAt starts p
  others : ∀ p, ¬ (p ∈ partitions ∧ Readable starts ends p) → shares p = 0
  full : (partitions.map shares).sum = min (max limit 0) (total partitions starts ends)
  even : ∀ p ∈ partitions, ∀ q ∈ partitions,
    shares q - 1 ≤ shares p ∨ shares p = holds starts ends p

/-! ## What is available -/

variable {partitions : List Int} {limit : Int} {starts ends : ListedOffsets} {p : Int}

theorem holds_nonneg : 0 ≤ holds starts ends p := by
  rw [holds]
  split <;> omega

theorem holds_of_readable (h : Readable starts ends p) :
    holds starts ends p = offsetAt ends p - offsetAt starts p := by
  obtain ⟨hstart, hlast, hsome⟩ := h
  rw [holds, if_neg (by omega)]

theorem holds_of_not_readable (h : ¬ Readable starts ends p) : holds starts ends p = 0 := by
  rw [Readable] at h
  rw [holds, if_pos (by omega)]

variable (starts ends) in
/-- Where there is nothing to add, the total does not move either. -/
theorem tally_eq (counted : (Int → Int) × Int) (hcounted : counted.1 p = 0)
    (hword : int64 counted.2 = counted.2) : tally starts ends counted p =
      (Function.update counted.1 p (holds starts ends p),
        int64 (counted.2 + holds starts ends p)) := by
  rw [tally, holds]
  split
  · rw [← hcounted, Function.update_eq_self, hcounted, Int.add_zero, hword]
  · rfl

/-- The loop keeps a sum of its own, which it wraps at each step. -/
theorem foldl_tally (counted : (Int → Int) × Int) (hdistinct : partitions.Nodup)
    (hcounted : ∀ q ∈ partitions, counted.1 q = 0) (hword : int64 counted.2 = counted.2) :
    (∀ q, (partitions.foldl (tally starts ends) counted).1 q =
        if q ∈ partitions then holds starts ends q else counted.1 q) ∧
      (partitions.foldl (tally starts ends) counted).2 =
        int64 (counted.2 + total partitions starts ends) := by
  induction partitions generalizing counted with
  | nil =>
    refine ⟨fun q => (if_neg List.not_mem_nil).symm, ?_⟩
    show counted.2 = int64 (counted.2 + 0)
    rw [Int.add_zero, hword]
  | cons p rest ih =>
    obtain ⟨hp, hrest⟩ := List.nodup_cons.mp hdistinct
    have hnext := tally_eq starts ends counted
      (hcounted p List.mem_cons_self) hword
    obtain ⟨havailable, htotal⟩ := ih (tally starts ends counted p) hrest
      (by
        intro q hq
        rw [hnext]
        exact (Function.update_of_ne (fun heq : q = p => hp (heq ▸ hq)) _ _).trans
          (hcounted q (List.mem_cons_of_mem _ hq)))
      (by
        rw [hnext]
        exact int64_of_range int64_lower int64_upper)
    rw [List.foldl_cons]
    constructor
    · intro q
      rw [havailable, hnext]
      by_cases hq : q = p
      · rw [hq, if_neg hp, if_pos List.mem_cons_self]
        exact Function.update_self ..
      · by_cases hmem : q ∈ rest
        · rw [if_pos hmem, if_pos (List.mem_cons_of_mem _ hmem)]
        · rw [if_neg hmem, if_neg (fun h => (List.mem_cons.mp h).elim hq hmem)]
          exact Function.update_of_ne hq ..
    · rw [htotal, hnext, int64_add, total, total, List.map_cons, List.sum_cons, Int.add_assoc]

/-! ## The shares -/

variable (starts ends) in
/-- The map of what is available. -/
theorem available_of (hdistinct : partitions.Nodup) (q : Int) :
    (partitions.foldl (tally starts ends) (fun _ => 0, 0)).1 q =
      if q ∈ partitions then holds starts ends q else 0 :=
  (foldl_tally (fun _ => 0, 0) hdistinct (fun _ _ => rfl) rfl).1 q

/-- The word that counts it. -/
theorem counted_of (hdistinct : partitions.Nodup) :
    (partitions.foldl (tally starts ends) (fun _ => 0, 0)).2 =
      int64 (total partitions starts ends) := by
  rw [(foldl_tally (fun _ => 0, 0) hdistinct (fun _ _ => rfl) rfl).2, Int.zero_add]

theorem total_nonneg : 0 ≤ total partitions starts ends := by
  apply List.sum_nonneg
  intro n hn
  obtain ⟨p, _, rfl⟩ := List.mem_map.mp hn
  exact holds_nonneg

variable (limit starts ends) in
/-- **The budget is dealt in rounds**: the limit, or what the word says there is. -/
theorem latestShares_dealt (hdistinct : partitions.Nodup) :
    Dealt (holds starts ends) (fun _ => 0) (latestShares partitions limit starts ends) partitions
      (max (min (int64 (total partitions starts ends)) limit) 0) := by
  have havailable := available_of starts ends hdistinct
  have hless : int64 (total partitions starts ends) ≤ total partitions starts ends :=
    int64_le total_nonneg
  have hsum : (partitions.map fun _ : Int => (0 : Int)).sum = 0 := by simp
  rw [latestShares, counted_of hdistinct]
  generalize hcounted : (partitions.foldl (tally starts ends) (fun _ => 0, 0)).1 = available
  rw [hcounted] at havailable
  have hsame : ∀ k ∈ partitions, available k = holds starts ends k := by
    intro k hk
    rw [havailable, if_pos hk]
  have hfits : (partitions.map available).sum = total partitions starts ends := by
    rw [total, List.map_congr_left hsame]
  have hbudget : (if int64 (total partitions starts ends) < limit then
      int64 (total partitions starts ends) else limit) =
        min (int64 (total partitions starts ends)) limit := by
    split <;> omega
  rw [hbudget]
  -- The map and what the partitions hold differ only outside the partitions.
  suffices hdealt : Dealt available (fun _ => 0)
      (rounds available partitions (fun _ => 0) (min (int64 (total partitions starts ends)) limit))
      partitions (max (min (int64 (total partitions starts ends)) limit) 0) by
    obtain ⟨r, hr, hbetween⟩ := hdealt.between
    refine ⟨hdealt.sum, hdealt.others, r, hr, fun k hk => ?_⟩
    rw [← hsame k hk]
    exact hbetween k hk
  have hlevel : Level available (fun _ => 0) partitions 0 := by
    intro k hk
    have hnonneg : 0 ≤ holds starts ends k := holds_nonneg
    rw [hsame k hk]
    show (0 : Int) = min 0 (holds starts ends k)
    omega
  by_cases hpositive : 0 < min (int64 (total partitions starts ends)) limit
  · rw [max_eq_left (le_of_lt hpositive)]
    apply rounds_dealt hdistinct (le_refl 0) hlevel (le_of_lt hpositive)
    rw [hsum, hfits]
    omega
  · rw [rounds_of_nonpos (by omega), max_eq_right (by omega)]
    exact ⟨by omega, fun _ _ => rfl, 0, le_refl 0, fun k hk => .inl (hlevel k hk)⟩

/-- **The limit is spent fairly and fully** unless the word wraps around below it. -/
theorem latestShares_fair_iff (hdistinct : partitions.Nodup) :
    Fair partitions limit starts ends (latestShares partitions limit starts ends) ↔
      limit ≤ 0 ∨ total partitions starts ends < 2 ^ 63 ∨
        limit ≤ int64 (total partitions starts ends) := by
  have hdealt := latestShares_dealt limit starts ends hdistinct
  obtain ⟨r, hr, hbetween⟩ := hdealt.between
  have hnonneg : 0 ≤ total partitions starts ends := total_nonneg
  have hless : int64 (total partitions starts ends) ≤ total partitions starts ends :=
    int64_le hnonneg
  have hsum : (partitions.map (latestShares partitions limit starts ends)).sum =
      max (min (int64 (total partitions starts ends)) limit) 0 := by
    rw [hdealt.sum]
    simp
  have hword : total partitions starts ends < 2 ^ 63 ↔
      int64 (total partitions starts ends) = total partitions starts ends := by
    rw [int64_eq_self_iff]
    omega
  rw [hword]
  constructor
  · intro h
    have hfull := h.full
    rw [hsum] at hfull
    omega
  · intro h
    constructor
    case within =>
      intro p hp hreadable
      have hholds := holds_of_readable hreadable
      have hshare := hbetween p hp
      have := hreadable.2.2
      omega
    case others =>
      intro p hp
      by_cases hmem : p ∈ partitions
      · have hholds := holds_of_not_readable fun hreadable => hp ⟨hmem, hreadable⟩
        have hshare := hbetween p hmem
        omega
      · exact hdealt.others p hmem
    case full =>
      rw [hsum]
      omega
    case even =>
      intro p hp q hq
      have hshare := hbetween p hp
      have hother := hbetween q hq
      omega

/-- Six records on one partition and four on another: the latest ten are all of them. -/
theorem latestShares_fair_uneven :
    Fair [0, 1] 10 [(0, some 0), (1, some 0)] [(0, some 6), (1, some 4)]
      (latestShares [0, 1] 10 [(0, some 0), (1, some 0)] [(0, some 6), (1, some 4)]) :=
  (latestShares_fair_iff (by decide)).mpr (.inr (.inl (by decide)))

/-- Two partitions that hold as much as their offsets can say give nothing. -/
theorem latestShares_wrapped : ¬ Fair [0, 1] 10 [(0, some 0), (1, some 0)]
    [(0, some (2 ^ 63 - 1)), (1, some (2 ^ 63 - 1))]
    (latestShares [0, 1] 10 [(0, some 0), (1, some 0)]
      [(0, some (2 ^ 63 - 1)), (1, some (2 ^ 63 - 1))]) := by
  intro h
  have hfull := h.full
  have hzero : latestShares [0, 1] 10 [(0, some 0), (1, some 0)]
      [(0, some (2 ^ 63 - 1)), (1, some (2 ^ 63 - 1))] = fun _ => 0 :=
    rounds_of_nonpos (by decide)
  rw [hzero] at hfull
  revert hfull
  decide

end MqStudio.Driver.Kafka
