import MqStudio.Lib.Machine

/-!
# Machines That Come to an End

A machine whose every step uses up some measure, and that is stuck nowhere but where it is done, gets
there.

## Main results

- `Reachable.exists_done`: from every reachable state some run is done.
-/

namespace MqStudio.Lib.Machine

universe u v

variable {σ : Type u} {α : Type v} {M : Machine σ α} {ok : σ → α → Prop} {measure : σ → Nat}

/-- **Done in the end**: where every state that is not done has a step, a run from any reachable one
    gets done. -/
theorem Reachable.exists_done {done : σ → Prop}
    (hless : ∀ s a t, M.step s a = some t → measure t < measure s)
    (hnext : ∀ s, Reachable M ok s → ¬ done s → ∃ a t, ok s a ∧ M.step s a = some t) {s : σ}
    (hs : Reachable M ok s) : ∃ as t, M.run s as = some t ∧ Reachable M ok t ∧ done t := by
  -- by induction on what is left to use up
  induction hn : measure s using Nat.strongRecOn generalizing s with
  | ind n ih =>
    by_cases hdone : done s
    · exact ⟨[], s, rfl, hs, hdone⟩
    · obtain ⟨a, u, hok, hstep⟩ := hnext s hs hdone
      obtain ⟨as, t, hrun, ht, htdone⟩ := ih (measure u) (hn ▸ hless s a u hstep) (.step hs hok hstep)
        rfl
      refine ⟨a :: as, t, ?_, ht, htdone⟩
      simp only [Machine.run, hstep]
      exact hrun

end MqStudio.Lib.Machine
