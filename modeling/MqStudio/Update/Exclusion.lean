import MqStudio.Update.Ready

/-!
# One Update Operation at a Time

A check and a download keep each other out by `busy`; an install keeps nothing out while it applies
its package. What still holds is that none of the two is under way when an install begins, because
an install begins in the phase that only the end of a download leads to. So an install is
undisturbed where no check or download gets past its test of `busy` before it ends.

## Main definitions

- `Alone`: the condition on runs.
- `Undisturbed`: what the calls may rely on under it.

## Main results

- `exclusion_invariants`: who may be under way beside whom.
- `one_update_at_a_time`: an install is undisturbed, and forgets the package it applied.
-/

namespace MqStudio.Update

open MqStudio.Lib
open MqStudio.Lib.TreeMap

/-! ## Who is under way -/

namespace Position

/-- A check or a download. -/
def fetches : Position → Bool
  | .checking _ | .resolving _ | .folding _ _ | .rechecking | .failing | .entering _ => true
  | .fetching _ | .attempting _ | .fetched _ _ | .releasing => true
  | _ => false

/-- Past the test of `busy`, and not about to return. -/
def works : Position → Bool
  | .resolving _ | .folding _ _ | .fetching _ | .attempting _ | .fetched _ _ => true
  | _ => false

/-- Past the test of `busy`. -/
def occupies (p : Position) : Bool := p.works || p = .releasing

/-- The package an install is applying. -/
def package : Position → Option String
  | .opening path _ | .applying path _ | .applied path _ _ => some path
  | _ => none

/-- The step takes a check or a download past its test of `busy`, or tells of a failure without
    one. -/
def enters (c : Config) (s : Shared) : Position → Bool
  | .checking _ => (beginCheck c s).isSome
  | .entering _ => !s.busy
  | .failing => true
  | _ => false

end Position

/-- **The condition**: no check or download gets past its test of `busy`, nor tells of a failure
    without one, while an install is applying its package. -/
def Alone (c : Config) : Program.Condition Shared Position Choice Around where
  thread _ _ _ := True
  beside s p _ q := p.enters c s = true → q.package = none
  environment _ _ := True

instance (c : Config) (s : Shared) (p : Position) (a : Choice) :
    Decidable ((Alone c).thread s p a) :=
  inferInstanceAs (Decidable True)

instance (c : Config) (s : Shared) (p : Position) (a : Choice) (q : Position) :
    Decidable ((Alone c).beside s p a q) :=
  inferInstanceAs (Decidable (p.enters c s = true → q.package = none))

instance (c : Config) (s : Shared) (e : Around) : Decidable ((Alone c).environment s e) :=
  inferInstanceAs (Decidable True)

/-! ## Invariants -/

/-- The package is the one the manager remembers, or was forgotten already. -/
def Remembers (s : Shared) (path : String) : Prop :=
  path ≠ "" ∧ (s.memory.readyPath = path ∨ s.memory.readyPath = "" ∧ s.disk[path]? = none)

/-- **Invariant of a call**. -/
structure Undisturbed (s : Shared) (p : Position) : Prop where
  occupies : p.occupies = true → s.busy = true
  works : p.works = true → s.state.phase ≠ .ready
  package : ∀ path, p.package = some path → Remembers s path

/-- Two calls that may be under way side by side. -/
structure Beside (p q : Position) : Prop where
  occupies : p.occupies = true → q.occupies = false
  applies : p.works = true → q.package = none
  works : ∀ path, p.package = some path → q.works = false

theorem Beside.symm {p q : Position} (h : Beside p q) : Beside q p where
  occupies hq := by
    cases hp : p.occupies with
    | false => rfl
    | true =>
      rw [h.occupies hp] at hq
      cases hq
  applies hq := by
    cases hp : p.package with
    | none => rfl
    | some path =>
      rw [h.works path hp] at hq
      cases hq
  works path hq := by
    cases hp : p.works with
    | false => rfl
    | true =>
      rw [h.applies hp] at hq
      cases hq

/-- A call that neither works nor applies stands beside anything. -/
theorem Beside.idle {p : Position} (hoccupies : p.occupies = false) (hpackage : p.package = none)
    (q : Position) : Beside p q where
  occupies h := by
    rw [hoccupies] at h
    cases h
  applies h := by
    have hp : p.occupies = true := by simp [Position.occupies, h]
    rw [hoccupies] at hp
    cases hp
  works path h := by
    rw [hpackage] at h
    cases h

theorem Undisturbed.idle {s : Shared} {p : Position} (hoccupies : p.occupies = false)
    (hpackage : p.package = none) : Undisturbed s p where
  occupies h := by
    rw [hoccupies] at h
    cases h
  works h := by
    have hp : p.occupies = true := by simp [Position.occupies, h]
    rw [hoccupies] at hp
    cases hp
  package path h := by
    rw [hpackage] at h
    cases h

/-- Forgetting a package leaves a remembered one remembered, or forgotten. -/
theorem Remembers.forget {s : Shared} {path : String} (h : Remembers s path) :
    Remembers (forgetReady s) path := by
  refine ⟨h.1, .inr ⟨rfl, ?_⟩⟩
  rcases h.2 with hsame | ⟨hnone, hgone⟩
  · simp [forgetReady, hsame, h.1]
  · simp [forgetReady, hnone, hgone]

/-! ## One step -/

/-- What a step of a call does, as far as the others are concerned. -/
inductive Effect (c : Config) (s : Shared) (p : Position) : Shared → Option Position → Prop where
  /-- Nothing the others look at. -/
  | passes {t : Shared} {next : Option Position} : t.busy = s.busy →
    t.state.phase = s.state.phase → t.memory.readyPath = s.memory.readyPath → t.disk = s.disk →
    (∀ q, next = some q → (q.works = true → p.works = true) ∧
      (q.occupies = true → p.occupies = true) ∧ (∀ path, q.package = some path →
        p.package = some path)) → Effect c s p t next
  /-- A check or a download gets past its test of `busy`. -/
  | enters {t : Shared} {q : Position} : p.enters c s = true → s.busy = false → t.busy = true →
    t.state.phase ≠ .ready → t.memory.readyPath = s.memory.readyPath → t.disk = s.disk →
    q.works = true → q.package = none → Effect c s p t (some q)
  /-- A failure is told of without `busy`. -/
  | fails : p.enters c s = true → Effect c s p (setError s .download) none
  /-- A check or a download works on, whatever it does to the files. -/
  | works {t : Shared} {q : Position} : p.works = true → t.busy = s.busy →
    t.state.phase = s.state.phase → q.works = true → q.package = none → Effect c s p t (some q)
  /-- A check ends. -/
  | folds {t : Shared} {next : Option Position} : p.works = true →
    (∀ q, next = some q → q.occupies = false ∧ q.package = none) → Effect c s p t next
  /-- A download ends. -/
  | ends {t : Shared} : p.works = true → t.busy = s.busy → Effect c s p t (some .releasing)
  | releases : p = .releasing → Effect c s p (released s) none
  | installs {t : Shared} : p = .installing → beginInstall s = some t →
    Effect c s p t (some (.opening s.memory.readyPath false))
  | quits : p = .quitting → installsOnQuit s = true →
    Effect c s p s (some (.opening s.memory.readyPath true))
  /-- An install fails. -/
  | refuses {path : String} : p.package = some path → Effect c s p (setError s .install) none
  | forgets {path : String} : p.package = some path → Effect c s p (forgetReady s) none

section Step

variable {c : Config} {s t : Shared} {p : Position} {next : Option Position}

/-- The position a download starts at. -/
theorem download_idle (release : Result) :
    (Position.download release).occupies = false ∧ (Position.download release).package = none := by
  unfold Position.download
  split <;> exact ⟨rfl, rfl⟩

/-- **A step of a call** is one of those listed. -/
theorem advance_effect {choice : Choice} (h : advance c s p choice = some (t, next)) :
    Effect c s p t next := by
  -- a step that leaves everything and returns
  have hreturns : ∀ p, Effect c s p s none :=
    fun p => .passes rfl rfl rfl rfl fun q hq => by cases hq
  unfold advance at h
  split at h
  · split at h
    · cases h
    · split at h
      · cases h
        exact hreturns _
      · rename_i manual _ begun hbegun
        cases h
        have hbegan := hbegun
        unfold beginCheck at hbegan
        split at hbegan
        · cases hbegan
        · split at hbegan
          · cases hbegan
          · rename_i hfree
            cases hbegan
            exact .enters (by simp [Position.enters, hbegun]) (by simpa using hfree) rfl
              (by simp) rfl rfl rfl rfl
  · split at h
    · cases h
      exact .works rfl rfl rfl rfl rfl
    · cases h
  · rename_i manual answer
    split at h
    · cases h
    · cases h
      refine .folds rfl fun q hq => ?_
      obtain ⟨release, -, rfl⟩ := Option.map_eq_some_iff.mp hq
      exact download_idle release
  · split at h
    · cases h
      refine .passes rfl rfl rfl rfl fun q hq => ?_
      cases hq
      exact ⟨fun hw => (by cases hw), fun ho => (by cases ho), fun path hp => (by cases hp)⟩
    · split at h
      · cases h
        exact hreturns _
      · cases h
        refine .passes rfl rfl rfl rfl fun q hq => ?_
        cases hq
        exact ⟨fun hw => (by cases hw), fun ho => (by cases ho), fun path hp => (by cases hp)⟩
    · cases h
  · split at h
    · cases h
    · cases h
      exact .fails rfl
  · rename_i release
    split at h
    · cases h
    · cases h
      unfold beginDownload
      cases hbusy : s.busy with
      | true => exact hreturns _
      | false =>
        have henters : (Position.entering release).enters c s = true := by
          simp [Position.enters, hbusy]
        cases c.canInstall with
        | false => exact .fails henters
        | true => exact .enters henters hbusy rfl (by simp) rfl rfl rfl rfl
  · split at h
    · cases h
    · dsimp only at h
      split at h
      · cases h
        exact .works rfl rfl rfl rfl rfl
      · cases h
        exact .works rfl rfl rfl rfl rfl
  · split at h
    · dsimp only at h
      split at h
      · cases h
      · split at h
        · cases h
        · cases h
          exact .works rfl rfl rfl rfl rfl
    · split at h
      · cases h
        exact .works rfl rfl rfl rfl rfl
      · cases h
    · cases h
      exact .works rfl rfl rfl rfl rfl
    · cases h
      exact .works rfl rfl rfl rfl rfl
    · cases h
  · rename_i release outcome
    split at h
    · cases h
    · cases h
      refine .ends rfl ?_
      cases outcome <;> rfl
  · split at h
    · cases h
    · cases h
      exact .releases rfl
  · split at h
    · cases h
    · cases h
      exact .passes rfl rfl rfl rfl fun q hq => by cases hq
  · split at h
    · cases h
    · cases h
      exact .passes rfl rfl rfl rfl fun q hq => by cases hq
  · split at h
    · cases h
    · split at h
      · cases h
        exact hreturns _
      · rename_i begun hbegun
        cases h
        exact .installs rfl hbegun
  · split at h
    · cases h
    · split at h
      · rename_i hquits
        cases h
        exact .quits rfl hquits
      · cases h
        exact hreturns _
  · rename_i path quit
    split at h
    · cases h
    · cases h
      refine .passes rfl rfl rfl rfl fun q hq => ?_
      cases hq
      split <;> exact ⟨fun hw => (by cases hw), fun ho => (by cases ho), fun path hp => hp⟩
  · split at h
    · cases h
      refine .passes rfl rfl rfl rfl fun q hq => ?_
      cases hq
      exact ⟨fun hw => (by cases hw), fun ho => (by cases ho), fun path hp => hp⟩
    · cases h
  · rename_i path quit fails
    split at h
    · cases h
    · split at h
      · cases quit with
        | true =>
          cases h
          exact hreturns _
        | false =>
          cases h
          exact .refuses rfl
      · cases h
        exact .forgets rfl

/-- Whoever is past the test of `busy` after a step finds the manager busy. -/
theorem Effect.busy_own (h : Effect c s p t next) (hp : p.occupies = true → s.busy = true) :
    ∀ q, next = some q → q.occupies = true → t.busy = true := by
  intro q hq ho
  cases h with
  | passes hbusy _ _ _ hnext =>
    rw [hbusy]
    exact hp ((hnext q hq).2.1 ho)
  | enters _ _ hbusy => exact hbusy
  | works hworks hbusy | ends hworks hbusy =>
    rw [hbusy]
    exact hp (by simp [Position.occupies, hworks])
  | folds _ hnext =>
    rw [(hnext q hq).1] at ho
    cases ho
  | installs | quits =>
    cases hq
    cases ho
  | fails | releases | refuses | forgets => cases hq

/-- A step of one call leaves the manager busy for another that is past the test, and does not put
    itself past it. -/
theorem Effect.busy_other (h : Effect c s p t next) {occupies : Bool}
    (hq : occupies = true → s.busy = true) (hbeside : p.occupies = true → occupies = false) :
    (occupies = true → t.busy = true) ∧
      ∀ r, next = some r → r.occupies = true → occupies = false := by
  cases occupies with
  | false => exact ⟨fun ho => (by cases ho), fun _ _ _ => rfl⟩
  | true =>
    have hfree : p.occupies = false := by
      cases ho : p.occupies with
      | false => rfl
      | true => exact absurd (hbeside ho) (by simp)
    have hnever : p.works = true → False := by
      intro hworks
      simp [Position.occupies, hworks] at hfree
    have hbusy := hq rfl
    cases h with
    | passes hsame _ _ _ hnext =>
      refine ⟨fun _ => hsame.trans hbusy, fun r hr ho => ?_⟩
      rw [(hnext r hr).2.1 ho] at hfree
      cases hfree
    | enters _ hidle =>
      rw [hidle] at hbusy
      cases hbusy
    | works hworks | folds hworks | ends hworks => exact (hnever hworks).elim
    | releases hposition =>
      rw [hposition] at hfree
      cases hfree
    | installs _ hbegin =>
      unfold beginInstall at hbegin
      split at hbegin
      · cases hbegin
      · obtain rfl := Option.some.inj hbegin
        refine ⟨fun _ => hbusy, fun r hr ho => ?_⟩
        cases hr
        cases ho
    | quits =>
      refine ⟨fun _ => hbusy, fun r hr ho => ?_⟩
      cases hr
      cases ho
    | fails | refuses | forgets => exact ⟨fun _ => hbusy, fun r hr => by cases hr⟩

/-- An install applies the package it was handed: the one that is remembered. -/
theorem Effect.package_from (h : Effect c s p t next) {q : Position} (hq : next = some q)
    {path : String} (hpath : q.package = some path) :
    p.package = some path ∨ path = s.memory.readyPath ∧ path ≠ "" := by
  cases h with
  | passes _ _ _ _ hnext => exact .inl ((hnext q hq).2.2 path hpath)
  | enters _ _ _ _ _ _ _ hnone | works _ _ _ _ hnone =>
    cases hq
    rw [hnone] at hpath
    cases hpath
  | folds _ hnext =>
    rw [(hnext q hq).2] at hpath
    cases hpath
  | ends =>
    cases hq
    cases hpath
  | installs _ hbegin =>
    cases hq
    cases hpath
    unfold beginInstall at hbegin
    split at hbegin
    · cases hbegin
    · rename_i hready
      exact .inr ⟨rfl, (not_or.mp hready).2⟩
  | quits _ hquits =>
    cases hq
    cases hpath
    simp only [installsOnQuit, Bool.and_eq_true, decide_eq_true_eq] at hquits
    exact .inr ⟨rfl, hquits.1.2⟩
  | fails | releases | refuses | forgets => cases hq

/-- An install begins when a package is ready. -/
theorem beginInstall_spec (h : beginInstall s = some t) :
    s.state.phase = .ready ∧ s.memory.readyPath ≠ "" ∧
      t = { s with state := { s.state with phase := .installing } } := by
  unfold beginInstall at h
  split at h
  · cases h
  · rename_i hready
    obtain ⟨hphase, hpath⟩ := not_or.mp hready
    cases h
    exact ⟨not_not.mp hphase, hpath, rfl⟩

theorem installsOnQuit_spec (h : installsOnQuit s = true) :
    s.state.phase = .ready ∧ s.memory.readyPath ≠ "" := by
  simp only [installsOnQuit, Bool.and_eq_true, decide_eq_true_eq] at h
  exact h.1

/-- **The step of a call** keeps what it may rely on. -/
theorem Effect.own (h : Effect c s p t next) (hp : Undisturbed s p) :
    ∀ q, next = some q → Undisturbed t q := by
  intro q hq
  cases h with
  | passes hbusy hphase hpath hdisk hnext =>
    obtain ⟨hworks, hoccupies, hpackage⟩ := hnext q hq
    refine ⟨fun ho => ?_, fun hw => ?_, fun path hpkg => ?_⟩
    · rw [hbusy]
      exact hp.occupies (hoccupies ho)
    · rw [hphase]
      exact hp.works (hworks hw)
    · unfold Remembers
      rw [hpath, hdisk]
      exact hp.package path (hpackage path hpkg)
  | enters _ _ hbusy hphase _ _ _ hpackage =>
    cases hq
    refine ⟨fun _ => hbusy, fun _ => hphase, fun path hpkg => ?_⟩
    rw [hpackage] at hpkg
    cases hpkg
  | fails => cases hq
  | works hworks hbusy hphase _ hpackage =>
    cases hq
    have ho : p.occupies = true := by simp [Position.occupies, hworks]
    refine ⟨fun _ => by rw [hbusy]; exact hp.occupies ho, fun _ => by rw [hphase]; exact hp.works hworks,
      fun path hpkg => ?_⟩
    rw [hpackage] at hpkg
    cases hpkg
  | folds _ hnext =>
    obtain ⟨hoccupies, hpackage⟩ := hnext q hq
    exact .idle hoccupies hpackage
  | ends hworks hbusy =>
    cases hq
    have ho : p.occupies = true := by simp [Position.occupies, hworks]
    exact ⟨fun _ => by rw [hbusy]; exact hp.occupies ho, fun hw => (by cases hw),
      fun path hpkg => (by cases hpkg)⟩
  | releases => cases hq
  | installs _ hbegin =>
    cases hq
    obtain ⟨-, hpath, rfl⟩ := beginInstall_spec hbegin
    refine ⟨fun ho => (by cases ho), fun hw => (by cases hw), fun path hpkg => ?_⟩
    cases hpkg
    exact ⟨hpath, .inl rfl⟩
  | quits _ hquits =>
    cases hq
    refine ⟨fun ho => (by cases ho), fun hw => (by cases hw), fun path hpkg => ?_⟩
    cases hpkg
    exact ⟨(installsOnQuit_spec hquits).2, .inl rfl⟩
  | refuses => cases hq
  | forgets => cases hq

/-- A call past its test of `busy` is under way while no package is ready. -/
theorem not_works {q : Position} (hq : Undisturbed s q) (hready : s.state.phase = .ready) :
    q.works = false := by
  cases hw : q.works with
  | false => rfl
  | true => exact absurd hready (hq.works hw)

/-- **The step of another call** leaves what a call may rely on, when the two may be under way side
    by side. -/
theorem Effect.other (h : Effect c s p t next) {q : Position} (hq : Undisturbed s q)
    (hbeside : Beside p q) (halone : p.enters c s = true → q.package = none) :
    Undisturbed t q ∧ ∀ r, next = some r → Beside r q := by
  cases h with
  | passes hbusy hphase hpath hdisk hnext =>
    refine ⟨⟨fun ho => ?_, fun hw => ?_, fun path hpkg => ?_⟩, fun r hr => ?_⟩
    · rw [hbusy]
      exact hq.occupies ho
    · rw [hphase]
      exact hq.works hw
    · unfold Remembers
      rw [hpath, hdisk]
      exact hq.package path hpkg
    · obtain ⟨hworks, hoccupies, hpackage⟩ := hnext r hr
      exact ⟨fun ho => hbeside.occupies (hoccupies ho), fun hw => hbeside.applies (hworks hw),
        fun path hpkg => hbeside.works path (hpackage path hpkg)⟩
  | enters henters hfree _ _ _ _ _ hpackage =>
    -- nobody else is past the test, and nothing is applied
    have hfreed : q.occupies = false := by
      cases ho : q.occupies with
      | false => rfl
      | true =>
        rw [hq.occupies ho] at hfree
        cases hfree
    refine ⟨.idle hfreed (halone henters), fun r hr => ?_⟩
    cases hr
    refine ⟨fun _ => hfreed, fun _ => halone henters, fun path hpkg => ?_⟩
    rw [hpackage] at hpkg
    cases hpkg
  | fails henters =>
    refine ⟨⟨hq.occupies, fun _ hready => (by cases hready), fun path hpkg => ?_⟩,
      fun r hr => by cases hr⟩
    rw [halone henters] at hpkg
    cases hpkg
  | works hworks _ _ _ hpackage =>
    have ho : p.occupies = true := by simp [Position.occupies, hworks]
    refine ⟨.idle (hbeside.occupies ho) (hbeside.applies hworks), fun r hr => ?_⟩
    cases hr
    refine ⟨fun _ => hbeside.occupies ho, fun _ => hbeside.applies hworks, fun path hpkg => ?_⟩
    rw [hpackage] at hpkg
    cases hpkg
  | folds hworks hnext =>
    have ho : p.occupies = true := by simp [Position.occupies, hworks]
    refine ⟨.idle (hbeside.occupies ho) (hbeside.applies hworks), fun r hr => ?_⟩
    obtain ⟨hoccupies, hpackage⟩ := hnext r hr
    exact .idle hoccupies hpackage q
  | ends hworks =>
    have ho : p.occupies = true := by simp [Position.occupies, hworks]
    refine ⟨.idle (hbeside.occupies ho) (hbeside.applies hworks), fun r hr => ?_⟩
    cases hr
    exact ⟨fun _ => hbeside.occupies ho, fun hw => (by cases hw), fun path hpkg => (by cases hpkg)⟩
  | releases hposition =>
    have ho : p.occupies = true := by simp [Position.occupies, hposition]
    refine ⟨⟨fun hoq => ?_, fun hw => hq.works hw, fun path hpkg => hq.package path hpkg⟩,
      fun r hr => by cases hr⟩
    rw [hbeside.occupies ho] at hoq
    cases hoq
  | installs _ hbegin =>
    obtain ⟨hready, -, rfl⟩ := beginInstall_spec hbegin
    refine ⟨⟨hq.occupies, fun _ hphase => (by cases hphase), hq.package⟩, fun r hr => ?_⟩
    cases hr
    -- a package is ready, so no check or download is under way
    exact ⟨fun ho => (by cases ho), fun hw => (by cases hw), fun _ _ => not_works hq hready⟩
  | quits _ hquits =>
    refine ⟨hq, fun r hr => ?_⟩
    cases hr
    exact ⟨fun ho => (by cases ho), fun hw => (by cases hw),
      fun _ _ => not_works hq (installsOnQuit_spec hquits).1⟩
  | refuses =>
    exact ⟨⟨hq.occupies, fun _ hready => (by cases hready), hq.package⟩, fun r hr => by cases hr⟩
  | forgets =>
    exact ⟨⟨hq.occupies, fun _ hready => (by cases hready),
      fun path hpkg => (hq.package path hpkg).forget⟩, fun r hr => by cases hr⟩

end Step

/-! ## Every run -/

/-- Who may be under way beside whom, in every interleaving that meets the condition. -/
theorem exclusion_invariants (c : Config) :
    (program c).InvariantsWhen (Alone c) (fun _ => True) Undisturbed Beside where
  symm p q h := h.symm
  start _ _ := trivial
  arrive s p _ harrives := by
    have hidle : p.occupies = false ∧ p.package = none := by
      simp only [program] at harrives
      cases p <;> first | exact ⟨rfl, rfl⟩ | cases harrives
    exact ⟨.idle hidle.1 hidle.2, fun q _ => .idle hidle.1 hidle.2 q⟩
  own s p choice next _ hp hadvance _ := ⟨trivial, (advance_effect hadvance).own hp⟩
  other s p choice next q _ _ hadvance _ hq hapart halone _ :=
    (advance_effect hadvance).other hq hapart halone
  environment s e t _ henvironment _ := by
    cases e
    cases henvironment
    exact ⟨trivial, fun p hp => ⟨hp.occupies, hp.works, hp.package⟩⟩

section Undisturbed

variable {c : Config} {s t : Shared} {p q : Position} {next : Option Position}

/-- An install is neither a check nor a download. -/
theorem not_fetches_of_package {path : String} (h : p.package = some path) :
    p.fetches = false := by
  cases p <;> first | rfl | cases h

/-- A step of a check or a download beside an install. -/
theorem Effect.beside_install (h : Effect c s p t next) (hfetches : p.fetches = true)
    (hbeside : Beside p q) (halone : p.enters c s = true → q.package = none) {path : String}
    (hpackage : q.package = some path) : t.state.phase = s.state.phase ∧ t.disk = s.disk := by
  have hnot : p.works = false := hbeside.symm.works path hpackage
  cases h with
  | passes _ hphase _ hdisk => exact ⟨hphase, hdisk⟩
  | enters henters =>
    rw [halone henters] at hpackage
    cases hpackage
  | fails henters =>
    rw [halone henters] at hpackage
    cases hpackage
  | works hworks =>
    rw [hnot] at hworks
    cases hworks
  | folds hworks =>
    rw [hnot] at hworks
    cases hworks
  | ends hworks =>
    rw [hnot] at hworks
    cases hworks
  | releases => exact ⟨rfl, rfl⟩
  | installs hposition =>
    rw [hposition] at hfetches
    cases hfetches
  | quits hposition =>
    rw [hposition] at hfetches
    cases hfetches
  | refuses hpkg =>
    rw [not_fetches_of_package hpkg] at hfetches
    cases hfetches
  | forgets hpkg =>
    rw [not_fetches_of_package hpkg] at hfetches
    cases hfetches

/-- An install that ends forgets its package, and no other file. -/
theorem forgetReady_exact {path : String} (h : Remembers s path) :
    (forgetReady s).memory.readyPath = "" ∧ (forgetReady s).memory.readyVersion = "" ∧
      ∀ file : String, (forgetReady s).disk[file]? = if file = path then none else s.disk[file]? := by
  refine ⟨rfl, rfl, fun file => ?_⟩
  by_cases hfile : file = path
  · subst hfile
    rw [if_pos rfl]
    rcases h.2 with hsame | ⟨hnone, hgone⟩
    · simp [forgetReady, hsame, h.1]
    · simp [forgetReady, hnone, hgone]
  · rw [if_neg hfile]
    rcases h.2 with hsame | ⟨hnone, -⟩
    · simp only [forgetReady, hsame, h.1, if_false]
      rw [getElem?_erase_of_ne _ (Ne.symm hfile)]
    · simp [forgetReady, hnone]

end Undisturbed

/-- **One update operation at a time**, where no check or download gets past its test of `busy`
    beside an install: no step of one changes the phase or the files while an install is applying
    its package, and an install that ends forgets exactly that. -/
theorem one_update_at_a_time (c : Config) {s t : Threads Shared Position}
    {turn : Turn Position Choice Around} (hs : (program c).machine.Reachable (Alone c).Ok s)
    (hok : (Alone c).Ok s turn) (hstep : (program c).machine.step s turn = some t) :
    (∀ (k l : Nat) choice (p q : Position) path, turn = .thread k choice →
      s.threads[k]? = some p → p.fetches = true → s.threads[l]? = some q → q.package = some path →
      t.shared.state.phase = s.shared.state.phase ∧ t.shared.disk = s.shared.disk) ∧
    (∀ (k : Nat) choice path quit, turn = .thread k choice →
      s.threads[k]? = some (.applied path quit false) →
      t.shared.memory.readyPath = "" ∧ t.shared.memory.readyVersion = "" ∧
        ∀ file : String, t.shared.disk[file]? =
          if file = path then none else s.shared.disk[file]?) := by
  have hkept := (exclusion_invariants c).reachable hs
  constructor
  · intro k l choice p q path hturn hk hfetches hl hpackage
    subst hturn
    have hne : k ≠ l := by
      rintro rfl
      rw [hk] at hl
      cases hl
      rw [not_fetches_of_package hpackage] at hfetches
      cases hfetches
    have hbeside : p.enters c s.shared = true → q.package = none := by
      apply (hok p hk).2 q
      apply mem_values.mpr
      exact ⟨l, by rw [getElem?_erase_of_ne _ hne]; exact hl⟩
    obtain ⟨next, hadvance, hshared⟩ := Program.thread_step hk hstep
    rw [hshared]
    exact (advance_effect hadvance).beside_install hfetches (hkept.apart k l p q hne hk hl)
      hbeside hpackage
  · intro k choice path quit hturn hk
    subst hturn
    obtain ⟨next, hadvance, hshared⟩ := Program.thread_step hk hstep
    have hforgets : next.1 = forgetReady s.shared := by
      simp only [program, advance] at hadvance
      split at hadvance
      · cases hadvance
      · cases hadvance
        rfl
    rw [hshared, hforgets]
    exact forgetReady_exact ((hkept.local' k _ hk).package path rfl)

/-! ## A check beside an install -/

/-- The manager with a package ready, as the machine starts. -/
def relaunchedStart : Threads Shared Position := ⟨relaunched, ∅⟩

theorem relaunchedStart_start : (program linuxBuild).machine.start relaunchedStart :=
  ⟨⟨⟨"", "2.0.0", linuxBuild.path (linuxBuild.packageName "2.0.0")⟩, .auto,
    (∅ : Map String String).insert (linuxBuild.path (linuxBuild.packageName "2.0.0")) "d2", rfl⟩,
    rfl⟩

/-- An install that nothing disturbs. -/
def installAlone : List (Turn Position Choice Around) :=
  [.arrive 0 .installing, .thread 0 .go, .thread 0 .go, .thread 0 (.apply false)]

/-- It ends by forgetting its package. -/
theorem one_update_at_a_time_alone :
    ∃ t, (program linuxBuild).machine.step
        ((program linuxBuild).machine.endOf relaunchedStart installAlone) (.thread 0 .go) = some t ∧
      t.shared.memory.readyPath = "" ∧
        t.shared.disk[linuxBuild.path (linuxBuild.packageName "2.0.0")]? = none := by
  have hsome : ((program linuxBuild).machine.step
      ((program linuxBuild).machine.endOf relaunchedStart installAlone)
        (.thread 0 .go)).isSome = true := by decide +kernel
  obtain ⟨t, ht⟩ := Option.isSome_iff_exists.mp hsome
  have hreached : (program linuxBuild).machine.Reachable (Alone linuxBuild).Ok
      ((program linuxBuild).machine.endOf relaunchedStart installAlone) :=
    Machine.Reachable.endOf (.start relaunchedStart_start) (by decide +kernel)
  have hends := (one_update_at_a_time linuxBuild hreached (by decide +kernel) ht).2 0 .go
    (linuxBuild.path (linuxBuild.packageName "2.0.0")) false rfl (by decide +kernel)
  exact ⟨t, ht, hends.1, (hends.2.2 _).trans (if_pos rfl)⟩

/-- A newer release, found while the package is applied. -/
def newer : Result := ⟨.available, "3.0.0", (∅ : Map String String).insert
  (linuxBuild.packageName "3.0.0") "d3"⟩

/-- The scheduled check lands while an install applies its package, and starts a download that
    finishes first. -/
def checkBesideInstall : List (Turn Position Choice Around) :=
  [.arrive 0 .installing, .thread 0 .go, .thread 0 .go,
    .arrive 1 (.checking false), .thread 1 .go, .thread 1 (.answer (some newer)), .thread 1 .go,
    .thread 1 .go, .thread 1 .go,
    .thread 1 (.fetch (.done (linuxBuild.path (linuxBuild.packageName "3.0.0")))), .thread 1 .go]

/-- The install applies its package all the while: the check has changed the phase, the download
    has swept the package away, and what the install forgets at its end is the other package. -/
theorem check_disturbs_install :
    let begun := (program linuxBuild).machine.endOf relaunchedStart
      [.arrive 0 .installing, .thread 0 .go, .thread 0 .go]
    let disturbed := (program linuxBuild).machine.endOf relaunchedStart checkBesideInstall
    let ended := (program linuxBuild).machine.endOf disturbed
      [.thread 0 (.apply false), .thread 0 .go]
    let package := linuxBuild.path (linuxBuild.packageName "2.0.0")
    let other := linuxBuild.path (linuxBuild.packageName "3.0.0")
    begun.shared.state.phase = .installing ∧ begun.shared.disk[package]? = some "d2" ∧
      disturbed.threads[(0 : Nat)]? = some (.applying package false) ∧
      disturbed.shared.state.phase = .ready ∧ disturbed.shared.disk[package]? = none ∧
      disturbed.shared.disk[other]? = some "d3" ∧
      ended.threads[(0 : Nat)]? = none ∧ ended.shared.disk[other]? = none := by
  decide +kernel

end MqStudio.Update
