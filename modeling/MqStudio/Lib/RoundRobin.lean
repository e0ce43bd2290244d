import Mathlib.Algebra.BigOperators.Group.List.Basic
import Mathlib.Algebra.Order.Ring.Int
import Mathlib.Logic.Function.Basic

/-!
# Dealing in Rounds

A budget is dealt to claimants that can each take so much. In a round each of them takes one, in
order, unless it is full, until nothing is left; rounds follow until the budget is spent or a round
spends nothing.

## Main definitions

- `round`, `rounds`: one round, and all of them.
- `Level`: everybody has as much as anybody, or is full.

## Main results

- `round_level`: a round lifts the level by one, unless the budget ends within it.
- `rounds_dealt`: a budget that fits is spent to the last, and the levels differ by one at most.
-/

namespace MqStudio.Lib.RoundRobin

universe u

variable {κ : Type u} [DecidableEq κ]

/-- What was dealt, what is left, and whether this round dealt anything. -/
structure Dealing (κ : Type u) where
  shares : κ → Int
  budget : Int
  spent : Bool

/-- One more for a claimant. -/
def Dealing.give (d : Dealing κ) (k : κ) : Dealing κ :=
  ⟨Function.update d.shares k (d.shares k + 1), d.budget - 1, true⟩

variable (available : κ → Int)

/-- One round. -/
def round (d : Dealing κ) : List κ → Dealing κ
  | [] => d
  | k :: rest =>
    if d.budget = 0 then d
    else if available k ≤ d.shares k then round d rest
    else round (d.give k) rest

variable {available} {d : Dealing κ} {k l : κ} {ks : List κ} {r : Int}

@[simp] theorem shares_give_self : (d.give k).shares k = d.shares k + 1 := Function.update_self ..

theorem shares_give_of_ne (h : l ≠ k) : (d.give k).shares l = d.shares l :=
  Function.update_of_ne h ..

/-- The rule of a round: it ends without budget, or goes on past who is full, or gives one. -/
theorem round_induction (P : Dealing κ → List κ → Dealing κ → Prop)
    (nil : ∀ d, P d [] d) (spent : ∀ d k rest, d.budget = 0 → P d (k :: rest) d)
    (full : ∀ d k rest, d.budget ≠ 0 → available k ≤ d.shares k →
      P d rest (round available d rest) → P d (k :: rest) (round available d rest))
    (give : ∀ d k rest, d.budget ≠ 0 → d.shares k < available k →
      P (d.give k) rest (round available (d.give k) rest) →
        P d (k :: rest) (round available (d.give k) rest)) :
    P d ks (round available d ks) := by
  induction ks generalizing d with
  | nil => exact nil d
  | cons k rest ih =>
    rw [round]
    split
    · rename_i hbudget
      exact spent d k rest hbudget
    · rename_i hbudget
      split
      · rename_i hfull
        exact full d k rest hbudget hfull ih
      · rename_i hfull
        exact give d k rest hbudget (by omega) ih

/-- Who is not in the round gets nothing. -/
theorem round_shares_of_not_mem (h : k ∉ ks) : (round available d ks).shares k = d.shares k := by
  refine round_induction (fun d ks d' => k ∉ ks → d'.shares k = d.shares k) ?_ ?_ ?_ ?_ h
  · exact fun _ _ => rfl
  · exact fun _ _ _ _ _ => rfl
  · exact fun d l rest _ _ ih hmem => ih fun hrest => hmem (List.mem_cons_of_mem _ hrest)
  · intro d l rest _ _ ih hmem
    rw [ih fun hrest => hmem (List.mem_cons_of_mem _ hrest)]
    exact shares_give_of_ne fun heq => hmem (heq ▸ List.mem_cons_self)

variable (available d ks) in
/-- A budget does not get negative, nor larger. -/
theorem round_budget (h : 0 ≤ d.budget) : 0 ≤ (round available d ks).budget ∧
    (round available d ks).budget ≤ d.budget := by
  refine round_induction (fun d _ d' => 0 ≤ d.budget → 0 ≤ d'.budget ∧ d'.budget ≤ d.budget)
    ?_ ?_ ?_ ?_ h
  · exact fun _ h => ⟨h, le_refl _⟩
  · exact fun _ _ _ _ h => ⟨h, le_refl _⟩
  · exact fun _ _ _ _ _ ih h => ih h
  · intro d l rest hbudget _ ih h
    have hless : (d.give l).budget = d.budget - 1 := rfl
    have hih := ih (by omega)
    omega

variable (available d ks) in
/-- **A round that dealt something** left less. -/
theorem round_spent (h : 0 ≤ d.budget) (hspent : (round available d ks).spent = true) :
    d.spent = true ∨ (round available d ks).budget < d.budget := by
  revert hspent
  refine round_induction (fun d _ d' => 0 ≤ d.budget → d'.spent = true →
    d.spent = true ∨ d'.budget < d.budget) ?_ ?_ ?_ ?_ h
  · exact fun _ _ hspent => .inl hspent
  · exact fun _ _ _ _ _ hspent => .inl hspent
  · exact fun _ _ _ _ _ ih h => ih h
  · intro d l rest hbudget _ _ h _
    have hless : (d.give l).budget = d.budget - 1 := rfl
    have hrest := (round_budget available (d.give l) rest (by omega)).2
    exact .inr (by omega)

/-- What is dealt already stays marked so. -/
theorem round_spent_of (h : d.spent = true) : (round available d ks).spent = true := by
  refine round_induction (fun d _ d' => d.spent = true → d'.spent = true) ?_ ?_ ?_ ?_ h
  · exact fun _ h => h
  · exact fun _ _ _ _ h => h
  · exact fun _ _ _ _ _ ih h => ih h
  · exact fun _ _ _ _ _ ih _ => ih rfl

variable (available d ks) in
/-- **A round that dealt nothing** changed nothing. -/
theorem round_unspent (h : (round available d ks).spent = false) : round available d ks = d := by
  revert h
  refine round_induction (fun d _ d' => d'.spent = false → d' = d) ?_ ?_ ?_ ?_
  · exact fun _ _ => rfl
  · exact fun _ _ _ _ _ => rfl
  · exact fun _ _ _ _ _ ih h => ih h
  · intro d l rest _ _ _ h
    rw [round_spent_of (d := d.give l) rfl] at h
    cases h

variable (available d ks) in
/-- **Nothing is lost**: what was dealt and what is left add up. -/
theorem round_sum (hdistinct : ks.Nodup) :
    (ks.map (round available d ks).shares).sum + (round available d ks).budget =
      (ks.map d.shares).sum + d.budget := by
  refine round_induction (fun d ks d' => ks.Nodup →
    (ks.map d'.shares).sum + d'.budget = (ks.map d.shares).sum + d.budget) ?_ ?_ ?_ ?_ hdistinct
  · exact fun _ _ => rfl
  · exact fun _ _ _ _ _ => rfl
  · intro d k rest _ _ ih hdistinct
    obtain ⟨hk, hrest⟩ := List.nodup_cons.mp hdistinct
    simp only [List.map_cons, List.sum_cons]
    rw [round_shares_of_not_mem hk]
    have := ih hrest
    omega
  · intro d k rest _ _ ih hdistinct
    obtain ⟨hk, hrest⟩ := List.nodup_cons.mp hdistinct
    have hothers : rest.map (d.give k).shares = rest.map d.shares := by
      apply List.map_congr_left
      intro l hl
      exact shares_give_of_ne fun heq => hk (heq ▸ hl)
    have hless : (d.give k).budget = d.budget - 1 := rfl
    have hih := ih hrest
    simp only [List.map_cons, List.sum_cons]
    rw [round_shares_of_not_mem hk, shares_give_self]
    rw [hothers] at hih
    omega

/-! ## Levels -/

/-- Everybody has `r`, or is full. -/
def Level (available shares : κ → Int) (ks : List κ) (r : Int) : Prop :=
  ∀ k ∈ ks, shares k = min r (available k)

/-- Everybody has `r` or one more, or is full. -/
def Between (available shares : κ → Int) (ks : List κ) (r : Int) : Prop :=
  ∀ k ∈ ks, shares k = min r (available k) ∨ shares k = min (r + 1) (available k)

/-- **A round lifts the level by one**, unless the budget ends within it. -/
theorem round_level (hdistinct : ks.Nodup) (hlevel : Level available d.shares ks r)
    (hbudget : 0 ≤ d.budget) :
    Between available (round available d ks).shares ks r ∧
      (0 < (round available d ks).budget →
        Level available (round available d ks).shares ks (r + 1)) := by
  refine round_induction (fun d ks d' => ks.Nodup → Level available d.shares ks r →
    0 ≤ d.budget → Between available d'.shares ks r ∧
      (0 < d'.budget → Level available d'.shares ks (r + 1))) ?_ ?_ ?_ ?_ hdistinct hlevel hbudget
  · exact fun _ _ _ _ => ⟨fun _ hk => absurd hk List.not_mem_nil,
      fun _ _ hk => absurd hk List.not_mem_nil⟩
  · intro d k rest hnone _ hlevel _
    exact ⟨fun l hl => .inl (hlevel l hl), fun hsome => by omega⟩
  · intro d k rest _ hfull ih hdistinct hlevel hbudget
    obtain ⟨hk, hrest⟩ := List.nodup_cons.mp hdistinct
    obtain ⟨hbetween, hlifted⟩ := ih hrest
      (fun l hl => hlevel l (List.mem_cons_of_mem _ hl)) hbudget
    have hown := hlevel k List.mem_cons_self
    have hshare : (round available d rest).shares k = d.shares k := round_shares_of_not_mem hk
    constructor
    · intro l hl
      rcases List.mem_cons.mp hl with heq | hl
      · rw [heq, hshare]
        exact .inl hown
      · exact hbetween l hl
    · intro hsome l hl
      rcases List.mem_cons.mp hl with heq | hl
      · rw [heq, hshare]
        omega
      · exact hlifted hsome l hl
  · intro d k rest hnone hfull ih hdistinct hlevel hbudget
    obtain ⟨hk, hrest⟩ := List.nodup_cons.mp hdistinct
    have hless : (d.give k).budget = d.budget - 1 := rfl
    have hothers : Level available (d.give k).shares rest r := by
      intro l hl
      rw [shares_give_of_ne (l := l) (k := k) fun heq => hk (heq ▸ hl)]
      exact hlevel l (List.mem_cons_of_mem _ hl)
    obtain ⟨hbetween, hlifted⟩ := ih hrest hothers (by omega)
    have hown := hlevel k List.mem_cons_self
    have hshare : (round available (d.give k) rest).shares k = d.shares k + 1 := by
      rw [round_shares_of_not_mem hk, shares_give_self]
    constructor
    · intro l hl
      rcases List.mem_cons.mp hl with heq | hl
      · rw [heq, hshare]
        exact .inr (by omega)
      · exact hbetween l hl
    · intro hsome l hl
      rcases List.mem_cons.mp hl with heq | hl
      · rw [heq, hshare]
        omega
      · exact hlifted hsome l hl

/-! ## All rounds -/

/-- Rounds, until the budget is spent or a round deals nothing. -/
def rounds (available : κ → Int) (ks : List κ) (shares : κ → Int) (budget : Int) : κ → Int :=
  if 0 < budget then
    if (round available ⟨shares, budget, false⟩ ks).spent then
      rounds available ks (round available ⟨shares, budget, false⟩ ks).shares
        (round available ⟨shares, budget, false⟩ ks).budget
    else (round available ⟨shares, budget, false⟩ ks).shares
  else shares
termination_by budget.toNat
decreasing_by
  rename_i hpositive hspent
  have hless := (round_spent available ⟨shares, budget, false⟩ ks (le_of_lt hpositive)
    hspent).resolve_left Bool.false_ne_true
  dsimp only at hless
  omega

/-- **What dealing comes to**: everything is dealt, to nobody else, and fairly. -/
structure Dealt (available before after : κ → Int) (ks : List κ) (budget : Int) : Prop where
  sum : (ks.map after).sum = (ks.map before).sum + budget
  others : ∀ k ∉ ks, after k = before k
  between : ∃ r, 0 ≤ r ∧ Between available after ks r

/-- **A budget that fits is dealt to the last.** -/
theorem rounds_dealt {shares : κ → Int} {budget : Int} (hdistinct : ks.Nodup) (hr : 0 ≤ r)
    (hlevel : Level available shares ks r) (hbudget : 0 ≤ budget)
    (hfits : (ks.map shares).sum + budget ≤ (ks.map available).sum) :
    Dealt available shares (rounds available ks shares budget) ks budget := by
  induction hn : budget.toNat using Nat.strong_induction_on generalizing shares budget r with
  | _ n ih =>
    rw [rounds]
    split
    · rename_i hpositive
      have hsum := round_sum available ⟨shares, budget, false⟩ ks hdistinct
      have hless := round_budget available ⟨shares, budget, false⟩ ks hbudget
      obtain ⟨hbetween, hlifted⟩ := round_level (d := ⟨shares, budget, false⟩) hdistinct hlevel
        hbudget
      have hothers : ∀ k ∉ ks,
          (round available ⟨shares, budget, false⟩ ks).shares k = shares k :=
        fun k hk => round_shares_of_not_mem hk
      have hspent := round_spent available ⟨shares, budget, false⟩ ks hbudget
      have hunspent := round_unspent available ⟨shares, budget, false⟩ ks
      generalize round available ⟨shares, budget, false⟩ ks = next at *
      dsimp only at hsum hless hspent
      split
      · rename_i hdealt
        have hsmaller := (hspent hdealt).resolve_left Bool.false_ne_true
        by_cases hleft : next.budget = 0
        · rw [hleft, rounds, if_neg (lt_irrefl 0)]
          exact ⟨by omega, hothers, r, hr, hbetween⟩
        · have hrest := ih next.budget.toNat (by omega) (by omega) (hlifted (by omega)) hless.1
            (by omega) rfl
          refine ⟨?_, ?_, hrest.between⟩
          · rw [hrest.sum]
            omega
          · intro k hk
            rw [hrest.others k hk, hothers k hk]
      · -- Nothing was dealt though something was left: everybody is full, so it did not fit.
        rename_i hdealt
        have hsame := hunspent (by simpa using hdealt)
        rw [hsame] at hlifted
        have hfull : ks.map shares = ks.map available := by
          apply List.map_congr_left
          intro k hk
          have hbefore := hlevel k hk
          have hafter := hlifted hpositive k hk
          dsimp only at hafter
          omega
        rw [hfull] at hfits
        omega
    · have hzero : budget = 0 := by omega
      rw [hzero]
      exact ⟨by omega, fun _ _ => rfl, r, hr, fun k hk => .inl (hlevel k hk)⟩

/-- Without a budget nothing is dealt. -/
theorem rounds_of_nonpos {shares : κ → Int} {budget : Int} (h : budget ≤ 0) :
    rounds available ks shares budget = shares := by
  rw [rounds, if_neg (by omega)]

end MqStudio.Lib.RoundRobin
