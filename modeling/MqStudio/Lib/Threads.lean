import MqStudio.Lib.Machine
import MqStudio.Lib.TreeMap

/-!
# Threads over a Shared State

A program says what one thread does next, given the state all threads share. Threads arrive at any
moment, each under an identifier of its own, their steps interleave in any order, and one that
returns is gone. Beside them the environment takes steps of its own.

A readers-writer lock needs no state: whoever stands at a position that `holds` it has it as a
reader, and a step that `excludes` waits until nobody does.

## Main results

- `Invariants.reachable`: a property of the shared state, one of each thread beside it and one of
  any two threads hold in every interleaving when each step keeps them, the stepping thread's own
  and everybody else's.
- `InvariantsWhen.reachable`: the same of the interleavings whose steps all meet a condition.
- `InvariantsWhen.reachableLife`: the same where the process may end and another start.
- `InvariantsWhen.reachableOutages`: the same where an outage may end every process, and spoil what
  they share.
-/

namespace MqStudio.Lib

open TreeMap

universe u v w x w'

/-- What one thread may do, and the environment beside it. -/
structure Program (σ : Type u) (π : Type v) (α : Type w) (ε : Type x) where
  start : σ → Prop
  /-- The threads that may arrive. -/
  arrives : π → Bool
  /-- One step of a thread. A thread that is left without a position has returned. -/
  advance : σ → π → α → Option (σ × Option π)
  environment : σ → ε → Option σ
  holds : π → Bool
  excludes : π → Bool

/-- The shared state and the threads under way. -/
structure Threads (σ : Type u) (π : Type v) where
  shared : σ
  threads : Map Nat π

/-- Whose step is next. -/
inductive Turn (π : Type v) (α : Type w) (ε : Type x) where
  | arrive (k : Nat) (p : π)
  | thread (k : Nat) (a : α)
  | environment (e : ε)

/-- A thread that is over stands nowhere. -/
theorem nowhere {π : Type v} {holds : π → Prop} : ∀ p, (none : Option π) = some p → holds p := by
  intro p h
  cases h

namespace Program

variable {σ : Type u} {π : Type v} {α : Type w} {ε : Type x} (P : Program σ π α ε)

/-- The table of threads after a step of one of them. -/
def move (threads : Map Nat π) (k : Nat) : Option π → Map Nat π
  | none => threads.erase k
  | some p => threads.insert k p

/-- Every interleaving. -/
def machine : Machine (Threads σ π) (Turn π α ε) where
  start s := P.start s.shared ∧ s.threads = ∅
  step s
    | .arrive k p =>
      if s.threads.contains k || !P.arrives p then none
      else some { s with threads := s.threads.insert k p }
    | .thread k a =>
      match s.threads[k]? with
      | none => none
      | some p =>
        if P.excludes p && (values s.threads).any P.holds then none
        else
          match P.advance s.shared p a with
          | none => none
          | some next => some ⟨next.1, move s.threads k next.2⟩
    | .environment e =>
      match P.environment s.shared e with
      | none => none
      | some shared => some { s with shared := shared }

/-- A property of the shared state, one of each thread beside it, and one of any two threads,
    which every step of every party keeps. -/
structure Invariants (Shared : σ → Prop) (Local : σ → π → Prop) (Apart : π → π → Prop) :
    Prop where
  symm : ∀ p q, Apart p q → Apart q p
  start : ∀ s, P.start s → Shared s
  /-- A thread that arrives stands apart from those that are there. -/
  arrive : ∀ s p, Shared s → P.arrives p = true →
    Local s p ∧ ∀ q, Local s q → Apart p q
  /-- A step keeps what holds of the shared state and of the thread that takes it. -/
  own : ∀ s p a next, Shared s → Local s p → P.advance s p a = some next →
    Shared next.1 ∧ ∀ q, next.2 = some q → Local next.1 q
  /-- It keeps what holds of every other thread, none of which holds what it excludes. -/
  other : ∀ s p a next q, Shared s → Local s p → P.advance s p a = some next →
    Local s q → Apart p q → (P.excludes p = true → P.holds q = false) →
    Local next.1 q ∧ ∀ r, next.2 = some r → Apart r q
  /-- So does a step of the environment. -/
  environment : ∀ s e t, Shared s → P.environment s e = some t →
    Shared t ∧ ∀ p, Local s p → Local t p

variable {P} {Shared : σ → Prop} {Local : σ → π → Prop} {Apart : π → π → Prop}

/-- The invariants of a whole state. -/
structure Kept (Shared : σ → Prop) (Local : σ → π → Prop) (Apart : π → π → Prop)
    (s : Threads σ π) : Prop where
  shared : Shared s.shared
  local' : ∀ (k : Nat) (p : π), s.threads[k]? = some p → Local s.shared p
  apart : ∀ (k l : Nat) (p q : π), k ≠ l → s.threads[k]? = some p → s.threads[l]? = some q →
    Apart p q

/-- After a step of thread `k`, a thread is the one that stepped or one that was there before. -/
theorem getElem?_move {threads : Map Nat π} {k l : Nat} {n : Option π} {p : π}
    (h : (move threads k n)[l]? = some p) :
    (l = k ∧ n = some p) ∨ (l ≠ k ∧ threads[l]? = some p) := by
  by_cases hl : l = k
  · subst hl
    cases n with
    | none =>
      simp [move] at h
    | some q =>
      simp only [move, Std.ExtTreeMap.getElem?_insert_self] at h
      exact .inl ⟨rfl, h⟩
  · cases n with
    | none =>
      rw [move, getElem?_erase_of_ne _ (Ne.symm hl)] at h
      exact .inr ⟨hl, h⟩
    | some q =>
      rw [move, getElem?_insert_of_ne _ _ (Ne.symm hl)] at h
      exact .inr ⟨hl, h⟩

/-- What a step of a thread does to the shared state. -/
theorem thread_step {s t : Threads σ π} {k : Nat} {a : α} {p : π} (hk : s.threads[k]? = some p)
    (hstep : P.machine.step s (.thread k a) = some t) :
    ∃ next, P.advance s.shared p a = some next ∧ t.shared = next.1 := by
  simp only [machine] at hstep
  rw [hk] at hstep
  dsimp only at hstep
  split at hstep
  · cases hstep
  · split at hstep
    · cases hstep
    · rename_i next hadvance
      cases hstep
      exact ⟨next, hadvance, rfl⟩

/-- What an arrival leaves. -/
theorem arrive_step {s t : Threads σ π} {k : Nat} {p : π}
    (hstep : P.machine.step s (.arrive k p) = some t) :
    s.threads[k]? = none ∧ P.arrives p = true ∧
      t = { s with threads := s.threads.insert k p } := by
  simp only [machine] at hstep
  split at hstep
  · cases hstep
  · rename_i hcan
    rw [Bool.or_eq_true, not_or] at hcan
    obtain ⟨hfree, harrives⟩ := hcan
    refine ⟨?_, by simpa using harrives, (Option.some.inj hstep).symm⟩
    rw [Std.ExtTreeMap.contains_eq_isSome_getElem?] at hfree
    simpa using hfree

/-- What a step of a thread leaves. -/
theorem thread_move {s t : Threads σ π} {k : Nat} {a : α}
    (hstep : P.machine.step s (.thread k a) = some t) :
    ∃ p next, s.threads[k]? = some p ∧ P.advance s.shared p a = some next ∧
      t = ⟨next.1, move s.threads k next.2⟩ := by
  simp only [machine] at hstep
  split at hstep
  · cases hstep
  · rename_i p hk
    split at hstep
    · cases hstep
    · split at hstep
      · cases hstep
      · rename_i next hadvance
        exact ⟨p, next, hk, hadvance, (Option.some.inj hstep).symm⟩

/-- What a step of the environment leaves. -/
theorem environment_step {s t : Threads σ π} {e : ε}
    (hstep : P.machine.step s (.environment e) = some t) :
    ∃ shared, P.environment s.shared e = some shared ∧ t = { s with shared := shared } := by
  simp only [machine] at hstep
  split at hstep
  · cases hstep
  · rename_i shared henvironment
    exact ⟨shared, henvironment, (Option.some.inj hstep).symm⟩

/-! ## Runs that meet a condition -/

/-- A condition on steps: on the thread that takes one, on every thread beside it, and on the
    environment. -/
structure Condition (σ : Type u) (π : Type v) (α : Type w) (ε : Type x) where
  thread : σ → π → α → Prop
  beside : σ → π → α → π → Prop
  environment : σ → ε → Prop

/-- The step meets the condition in the state it is taken from. -/
def Condition.Ok (C : Condition σ π α ε) (s : Threads σ π) : Turn π α ε → Prop
  | .arrive _ _ => True
  | .thread k a => ∀ p ∈ s.threads[k]?,
    C.thread s.shared p a ∧ ∀ q ∈ values (s.threads.erase k), C.beside s.shared p a q
  | .environment e => C.environment s.shared e

/-- No condition. -/
def Condition.none : Condition σ π α ε := ⟨fun _ _ _ => True, fun _ _ _ _ => True, fun _ _ => True⟩

theorem Condition.ok_none (s : Threads σ π) (turn : Turn π α ε) :
    (Condition.none : Condition σ π α ε).Ok s turn := by
  cases turn with
  | arrive k p => trivial
  | thread k a => exact fun _ _ => ⟨trivial, fun _ _ => trivial⟩
  | environment e => trivial

instance (C : Condition σ π α ε) [∀ s p a, Decidable (C.thread s p a)]
    [∀ s p a q, Decidable (C.beside s p a q)] [∀ s e, Decidable (C.environment s e)]
    (s : Threads σ π) : (turn : Turn π α ε) → Decidable (C.Ok s turn)
  | .arrive _ _ => .isTrue trivial
  | .thread k a => inferInstanceAs (Decidable (∀ p ∈ s.threads[k]?,
      C.thread s.shared p a ∧ ∀ q ∈ values (s.threads.erase k), C.beside s.shared p a q))
  | .environment e => inferInstanceAs (Decidable (C.environment s.shared e))

/-- Invariants that every step that meets the condition keeps. -/
structure InvariantsWhen (C : Condition σ π α ε) (Shared : σ → Prop) (Local : σ → π → Prop)
    (Apart : π → π → Prop) : Prop where
  symm : ∀ p q, Apart p q → Apart q p
  start : ∀ s, P.start s → Shared s
  arrive : ∀ s p, Shared s → P.arrives p = true →
    Local s p ∧ ∀ q, Local s q → Apart p q
  own : ∀ s p a next, Shared s → Local s p → P.advance s p a = some next → C.thread s p a →
    Shared next.1 ∧ ∀ q, next.2 = some q → Local next.1 q
  other : ∀ s p a next q, Shared s → Local s p → P.advance s p a = some next → C.thread s p a →
    Local s q → Apart p q → C.beside s p a q → (P.excludes p = true → P.holds q = false) →
    Local next.1 q ∧ ∀ r, next.2 = some r → Apart r q
  environment : ∀ s e t, Shared s → P.environment s e = some t → C.environment s e →
    Shared t ∧ ∀ p, Local s p → Local t p

variable {C : Condition σ π α ε}

/-- **Step lemma**: whoever takes the next step keeps the invariants. -/
theorem InvariantsWhen.step (h : P.InvariantsWhen C Shared Local Apart) {s t : Threads σ π}
    {turn : Turn π α ε} (hs : Kept Shared Local Apart s) (hok : C.Ok s turn)
    (hstep : P.machine.step s turn = some t) : Kept Shared Local Apart t := by
  cases turn with
  | arrive k p =>
    simp only [machine] at hstep
    split at hstep
    · cases hstep
    · rename_i hnew
      cases hstep
      simp only [Bool.or_eq_true, Bool.not_eq_true', not_or, Bool.not_eq_false] at hnew
      obtain ⟨hlocal, hapart⟩ := h.arrive s.shared p hs.shared hnew.2
      refine ⟨hs.shared, fun l q hq => ?_, fun l m q r hne hq hr => ?_⟩
      · rcases getElem?_move (n := some p) hq with ⟨-, hsame⟩ | ⟨-, hold⟩
        · cases hsame
          exact hlocal
        · exact hs.local' l q hold
      · rcases getElem?_move (n := some p) hq with ⟨hl, hsame⟩ | ⟨-, hold⟩
        · rcases getElem?_move (n := some p) hr with ⟨hm, -⟩ | ⟨-, hold'⟩
          · exact absurd (hl.trans hm.symm) hne
          · cases hsame
            exact hapart r (hs.local' m r hold')
        · rcases getElem?_move (n := some p) hr with ⟨-, hsame⟩ | ⟨-, hold'⟩
          · cases hsame
            exact h.symm _ _ (hapart q (hs.local' l q hold))
          · exact hs.apart l m q r hne hold hold'
  | thread k a =>
    simp only [machine] at hstep
    cases hk : s.threads[k]? with
    | none =>
      rw [hk] at hstep
      cases hstep
    | some p =>
      rw [hk] at hstep
      dsimp only at hstep
      split at hstep
      · cases hstep
      · rename_i hfree
        split at hstep
        · cases hstep
        · rename_i next hadvance
          cases hstep
          have hlocal := hs.local' k p hk
          obtain ⟨hthread, hbeside⟩ := hok p hk
          obtain ⟨hshared, hown⟩ := h.own _ _ _ _ hs.shared hlocal hadvance hthread
          -- what the step does to a thread that stands elsewhere
          have hother : ∀ (l : Nat) (q : π), l ≠ k → s.threads[l]? = some q →
              Local next.1 q ∧ ∀ r, next.2 = some r → Apart r q := by
            intro l q hne hq
            have hmem : q ∈ values (s.threads.erase k) := by
              apply mem_values.mpr
              exact ⟨l, by rw [getElem?_erase_of_ne _ hne.symm]; exact hq⟩
            apply h.other _ _ _ _ q hs.shared hlocal hadvance hthread (hs.local' l q hq)
              (hs.apart k l p q hne.symm hk hq) (hbeside q hmem)
            intro hexcludes
            cases hholds : P.holds q with
            | false => rfl
            | true =>
              apply absurd _ hfree
              simp only [hexcludes, Bool.true_and, List.any_eq_true]
              exact ⟨q, mem_values.mpr ⟨l, hq⟩, hholds⟩
          refine ⟨hshared, fun l q hq => ?_, fun l m q r hne hq hr => ?_⟩
          · rcases getElem?_move hq with ⟨-, hnext⟩ | ⟨hl, hold⟩
            · exact hown q hnext
            · exact (hother l q hl hold).1
          · rcases getElem?_move hq with ⟨hl, hnext⟩ | ⟨hl, hold⟩
            · rcases getElem?_move hr with ⟨hm, -⟩ | ⟨hm, hold'⟩
              · exact absurd (hl.trans hm.symm) hne
              · exact (hother m r hm hold').2 q hnext
            · rcases getElem?_move hr with ⟨-, hnext⟩ | ⟨-, hold'⟩
              · exact h.symm _ _ ((hother l q hl hold).2 r hnext)
              · exact hs.apart l m q r hne hold hold'
  | environment e =>
    simp only [machine] at hstep
    split at hstep
    · cases hstep
    · rename_i shared henvironment
      cases hstep
      obtain ⟨hshared, hlocal⟩ := h.environment _ _ _ hs.shared henvironment hok
      exact ⟨hshared, fun k p hk => hlocal p (hs.local' k p hk), hs.apart⟩

/-- **Run lemma**: the invariants hold in every interleaving whose steps meet the condition. -/
theorem InvariantsWhen.reachable (h : P.InvariantsWhen C Shared Local Apart) {s : Threads σ π}
    (hs : P.machine.Reachable C.Ok s) : Kept Shared Local Apart s := by
  apply hs.invariant
  · rintro s ⟨hstart, hempty⟩
    refine ⟨h.start _ hstart, fun k p hk => ?_, fun k l p q _ hk => ?_⟩
    · rw [hempty] at hk
      simp at hk
    · rw [hempty] at hk
      simp at hk
  · intro s turn t _ hinv hok hstep
    exact h.step hinv hok hstep

/-! ## Runs without a condition -/

/-- Invariants of every step are invariants of those that meet no condition in particular. -/
theorem Invariants.when (h : P.Invariants Shared Local Apart) :
    P.InvariantsWhen Condition.none Shared Local Apart where
  symm := h.symm
  start := h.start
  arrive := h.arrive
  own s p a next hs hp hadvance _ := h.own s p a next hs hp hadvance
  other s p a next q hs hp hadvance _ hq hapart _ := h.other s p a next q hs hp hadvance hq hapart
  environment s e t hs henvironment _ := h.environment s e t hs henvironment

/-- **Run lemma**: the invariants hold in every interleaving. -/
theorem Invariants.reachable (h : P.Invariants Shared Local Apart) {s : Threads σ π}
    (hs : P.machine.Reachable Machine.Always s) : Kept Shared Local Apart s := by
  apply h.when.reachable
  exact hs.mono fun s turn _ => Condition.ok_none s turn

/-! ## One process after another -/

/-- Whose step is next, or none where the process ends and another starts. -/
abbrev Life (π : Type v) (α : Type w) (ε : Type x) := Option (Turn π α ε)

/-- Every interleaving, over every process: one that ends takes its threads with it and leaves
    what the next one finds. -/
def processes (P : Program σ π α ε) (restart : σ → σ) :
    Machine (Threads σ π) (Life π α ε) where
  start := P.machine.start
  step s
    | none => some ⟨restart s.shared, ∅⟩
    | some turn => P.machine.step s turn

/-- A condition on the steps of each process. -/
def Condition.OkLife (C : Condition σ π α ε) (s : Threads σ π) : Life π α ε → Prop
  | .none => True
  | .some turn => C.Ok s turn

instance (C : Condition σ π α ε) [∀ s p a, Decidable (C.thread s p a)]
    [∀ s p a q, Decidable (C.beside s p a q)] [∀ s e, Decidable (C.environment s e)]
    (s : Threads σ π) : (life : Life π α ε) → Decidable (C.OkLife s life)
  | .none => .isTrue trivial
  | .some turn => inferInstanceAs (Decidable (C.Ok s turn))

/-- **Step lemma**, over processes. -/
theorem InvariantsWhen.stepLife (h : P.InvariantsWhen C Shared Local Apart) {restart : σ → σ}
    (hrestart : ∀ s, Shared s → Shared (restart s)) {s t : Threads σ π} {life : Life π α ε}
    (hs : Kept Shared Local Apart s) (hok : C.OkLife s life)
    (hstep : (P.processes restart).step s life = some t) : Kept Shared Local Apart t := by
  cases life with
  | none =>
    cases hstep
    refine ⟨hrestart _ hs.shared, fun k p hk => ?_, fun k l p q _ hk => ?_⟩
    · simp at hk
    · simp at hk
  | some turn => exact h.step hs hok hstep

/-- **Run lemma**, over processes: what is left to the next process keeps the shared property. -/
theorem InvariantsWhen.reachableLife (h : P.InvariantsWhen C Shared Local Apart)
    {restart : σ → σ} (hrestart : ∀ s, Shared s → Shared (restart s)) {s : Threads σ π}
    (hs : (P.processes restart).Reachable C.OkLife s) : Kept Shared Local Apart s := by
  apply hs.invariant
  · intro s hstart
    obtain ⟨hshared, hempty⟩ := hstart
    refine ⟨h.start _ hshared, fun k p hk => ?_, fun k l p q _ hk => ?_⟩
    · rw [hempty] at hk
      simp at hk
    · rw [hempty] at hk
      simp at hk
  · intro s life t _ hinv hok hstep
    exact h.stepLife hrestart hinv hok hstep

/-! ## Outages -/

/-- Every interleaving, over every outage: one takes all threads with it, and what it leaves of the
    shared state is for the environment to choose. -/
def outages {δ : Type w'} (P : Program σ π α ε) (outage : σ → δ → σ) :
    Machine (Threads σ π) (δ ⊕ Turn π α ε) where
  start := P.machine.start
  step s
    | .inl d => some ⟨outage s.shared d, ∅⟩
    | .inr turn => P.machine.step s turn

/-- A condition on steps, and one on outages. -/
def Condition.OkOutages {δ : Type w'} (C : Condition σ π α ε) (ok : σ → δ → Prop)
    (s : Threads σ π) : δ ⊕ Turn π α ε → Prop
  | .inl d => ok s.shared d
  | .inr turn => C.Ok s turn

instance {δ : Type w'} (C : Condition σ π α ε) (ok : σ → δ → Prop)
    [∀ s p a, Decidable (C.thread s p a)] [∀ s p a q, Decidable (C.beside s p a q)]
    [∀ s e, Decidable (C.environment s e)] [∀ s d, Decidable (ok s d)] (s : Threads σ π) :
    (turn : δ ⊕ Turn π α ε) → Decidable (C.OkOutages ok s turn)
  | .inl d => inferInstanceAs (Decidable (ok s.shared d))
  | .inr turn => inferInstanceAs (Decidable (C.Ok s turn))

/-- **Run lemma**, over outages: the invariants hold in every interleaving whose steps and outages
    meet the conditions, when an outage keeps the shared one. -/
theorem InvariantsWhen.reachableOutages {δ : Type w'} (h : P.InvariantsWhen C Shared Local Apart)
    {outage : σ → δ → σ} {ok : σ → δ → Prop}
    (houtage : ∀ s d, Shared s → ok s d → Shared (outage s d)) {s : Threads σ π}
    (hs : (P.outages outage).Reachable (C.OkOutages ok) s) : Kept Shared Local Apart s := by
  apply hs.invariant
  · intro s hstart
    obtain ⟨hshared, hempty⟩ := hstart
    refine ⟨h.start _ hshared, fun k p hk => ?_, fun k l p q _ hk => ?_⟩
    · rw [hempty] at hk
      simp at hk
    · rw [hempty] at hk
      simp at hk
  · intro s turn t _ hinv hok hstep
    cases turn with
    | inl d =>
      cases hstep
      refine ⟨houtage _ _ hinv.shared hok, fun k p hk => ?_, fun k l p q _ hk => ?_⟩
      · simp at hk
      · simp at hk
    | inr turn => exact h.step hinv hok hstep

/-- **Run lemma**, over outages, of every interleaving. -/
theorem Invariants.reachableOutages {δ : Type w'} (h : P.Invariants Shared Local Apart)
    {outage : σ → δ → σ} (houtage : ∀ s d, Shared s → Shared (outage s d)) {s : Threads σ π}
    (hs : (P.outages outage).Reachable Machine.Always s) : Kept Shared Local Apart s := by
  have hok : (P.outages outage).Reachable (Condition.none.OkOutages fun _ _ => True) s := by
    apply hs.mono
    intro s turn _
    cases turn with
    | inl d => trivial
    | inr turn => exact Condition.ok_none s turn
  exact h.when.reachableOutages (fun s d hs _ => houtage s d hs) hok

end Program

end MqStudio.Lib
