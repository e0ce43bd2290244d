import Mathlib.Init

/-!
# Guarded State Machines

A machine is a set of start states and a partial step function: an action carries every
choice the environment makes, so one state and one action decide the next state, and
`none` means the action is not enabled there.

`Reachable M ok` is reachability by runs whose every step meets the side condition `ok`
on the state before the step and the action. The condition `fun _ _ => True` is plain
reachability; a narrower one describes the runs a conditional result is about.

## Main results

- `Reachable.invariant`: the induction rule for invariants.
- `Permitted.invariant`: the same rule for the run of a list of actions.
- `Reachable.run`: a permitted list of actions ends in a reachable state.
-/

namespace MqStudio.Lib

universe u v

/-- Start states and a step function that is partial where an action is not enabled. -/
structure Machine (σ : Type u) (α : Type v) where
  start : σ → Prop
  step : σ → α → Option σ

namespace Machine

variable {σ : Type u} {α : Type v}

/-- States reached from a start state by steps that all meet `ok`. -/
inductive Reachable (M : Machine σ α) (ok : σ → α → Prop) : σ → Prop where
  | start {s : σ} : M.start s → Reachable M ok s
  | step {s t : σ} {a : α} : Reachable M ok s → ok s a → M.step s a = some t → Reachable M ok t

/-- Runs without a side condition. -/
def Always (_ : σ) (_ : α) : Prop := True

/-- **Invariant rule**: what holds at the start and survives every permitted step holds of
    every reachable state. The step case may use that the state before is reachable. -/
theorem Reachable.invariant {M : Machine σ α} {ok : σ → α → Prop} (Inv : σ → Prop)
    (hstart : ∀ s, M.start s → Inv s)
    (hstep : ∀ s a t, Reachable M ok s → Inv s → ok s a → M.step s a = some t → Inv t)
    {s : σ} (hs : Reachable M ok s) : Inv s := by
  induction hs with
  | start h => exact hstart _ h
  | step hr hok hst ih => exact hstep _ _ _ hr ih hok hst

/-- A stronger side condition reaches fewer states. -/
theorem Reachable.mono {M : Machine σ α} {ok ok' : σ → α → Prop}
    (hweak : ∀ s a, ok s a → ok' s a) {s : σ} (hs : Reachable M ok s) : Reachable M ok' s := by
  induction hs with
  | start h => exact .start h
  | step _ hok hst ih => exact .step ih (hweak _ _ hok) hst

/-- Run a list of actions, stopping where one is not enabled. -/
def run (M : Machine σ α) (s : σ) : List α → Option σ
  | [] => some s
  | a :: rest =>
    match M.step s a with
    | some t => M.run t rest
    | none => none

/-- Every action of a run meets the condition in the state it is taken from. -/
def Permitted (M : Machine σ α) (ok : σ → α → Prop) (s : σ) : List α → Prop
  | [] => True
  | a :: rest => ok s a ∧ ∀ t, M.step s a = some t → M.Permitted ok t rest

/-- Whether a list of actions is permitted can be computed by taking it. -/
instance Permitted.decidable (M : Machine σ α) (ok : σ → α → Prop)
    [∀ s a, Decidable (ok s a)] (s : σ) : (as : List α) → Decidable (M.Permitted ok s as)
  | [] => .isTrue trivial
  | a :: rest =>
    match hstep : M.step s a with
    | none => decidable_of_iff (ok s a)
        ⟨fun h => ⟨h, fun t ht => by rw [hstep] at ht; cases ht⟩, fun h => h.1⟩
    | some t =>
      have := Permitted.decidable M ok t rest
      decidable_of_iff (ok s a ∧ M.Permitted ok t rest)
        ⟨fun h => ⟨h.1, fun u hu => by rw [hstep] at hu; cases hu; exact h.2⟩,
          fun h => ⟨h.1, h.2 t hstep⟩⟩

theorem permitted_always (M : Machine σ α) (s : σ) (as : List α) :
    M.Permitted Always s as := by
  induction as generalizing s with
  | nil => trivial
  | cons a rest ih => exact ⟨trivial, fun t _ => ih t⟩

/-- **Invariant rule**, of one run: what holds where a permitted run starts and survives every
    permitted step holds where it ends. -/
theorem Permitted.invariant {M : Machine σ α} {ok : σ → α → Prop} (Inv : σ → Prop)
    (hstep : ∀ s a t, Inv s → ok s a → M.step s a = some t → Inv t) {s t : σ} {as : List α}
    (hok : M.Permitted ok s as) (hs : Inv s) (hrun : M.run s as = some t) : Inv t := by
  induction as generalizing s with
  | nil =>
    simp only [Machine.run, Option.some.injEq] at hrun
    exact hrun ▸ hs
  | cons a rest ih =>
    simp only [Machine.run] at hrun
    split at hrun
    · rename_i u hu
      exact ih (hok.2 u hu) (hstep s a u hs hok.1 hu) hrun
    · cases hrun

/-- A permitted run of actions extends reachability to the state it ends in. -/
theorem Reachable.run {M : Machine σ α} {ok : σ → α → Prop} {s t : σ} {as : List α}
    (hs : Reachable M ok s) (hok : M.Permitted ok s as) (hrun : M.run s as = some t) :
    Reachable M ok t :=
  hok.invariant (Reachable M ok) (fun _ _ _ hs hok hstep => .step hs hok hstep) hs hrun

/-- The state a run of actions ends in, or the state it was to start from when one of them is
    not enabled. -/
def endOf (M : Machine σ α) (s : σ) (as : List α) : σ :=
  (M.run s as).getD s

theorem Reachable.endOf {M : Machine σ α} {ok : σ → α → Prop} {s : σ} {as : List α}
    (hs : Reachable M ok s) (hok : M.Permitted ok s as) : Reachable M ok (M.endOf s as) := by
  unfold Machine.endOf
  cases hrun : M.run s as with
  | none => exact hs
  | some t => exact hs.run hok hrun

end Machine

end MqStudio.Lib
