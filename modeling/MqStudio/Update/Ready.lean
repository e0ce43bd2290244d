import MqStudio.Update.Manager

/-!
# A Finished Download and the Checks After It

`Check` says it is checking before it asks whether a package was ready, so by the time it asks none
is. A package that waits to be installed is out of reach after any check that gets through,
whatever the check comes to: an install is refused, one at quit does nothing, and where the policy
downloads, the same release is fetched again.

## Main results

- `check_run`: a check with nothing beside it, as the steps of its call.
- `stays_installable_iff`: the package stays installable exactly when no check gets through.
-/

namespace MqStudio.Update

open MqStudio.Lib
open MqStudio.Lib.TreeMap

/-! ## Checks one after the other -/

/-- A check with nothing beside it, and the release it starts to download. -/
def check (c : Config) (s : Shared) (manual : Bool) (answer : Option Result) :
    Shared × Option Result :=
  match beginCheck c s with
  | none => (s, none)
  | some begun => foldCheck c begun manual answer

/-- Checks one after the other, each manual or not and with its answer, and the releases they
    start to download. -/
def checks (c : Config) (s : Shared) : List (Bool × Option Result) → Shared × List Result
  | [] => (s, [])
  | one :: rest =>
    let checked := check c s one.1 one.2
    let others := checks c checked.1 rest
    (others.1, checked.2.toList ++ others.2)

theorem checks_cons (c : Config) (s : Shared) (one : Bool × Option Result)
    (rest : List (Bool × Option Result)) :
    (checks c s (one :: rest)).1 = (checks c (check c s one.1 one.2).1 rest).1 := rfl

/-- A check that gets through folds its answer in. -/
theorem check_through {c : Config} {s begun : Shared} (h : beginCheck c s = some begun)
    (manual : Bool) (answer : Option Result) :
    check c s manual answer = foldCheck c begun manual answer := by
  unfold check
  cases hbegin : beginCheck c s with
  | none =>
    rw [h] at hbegin
    cases hbegin
  | some other =>
    rw [h] at hbegin
    cases hbegin
    rfl

/-- A check that is refused changes nothing. -/
theorem check_refused {c : Config} {s : Shared} (h : beginCheck c s = none) (manual : Bool)
    (answer : Option Result) : check c s manual answer = (s, none) := by
  unfold check
  cases hbegin : beginCheck c s with
  | none => rfl
  | some begun =>
    rw [h] at hbegin
    cases hbegin

/-- **A check is a run** of its call's steps. -/
theorem check_run (c : Config) (s : Shared) (manual : Bool) (answer : Option Result)
    {begun : Shared} (hbegun : beginCheck c s = some begun) :
    ((program c).machine.run ⟨s, ∅⟩
        [.arrive 0 (.checking manual), .thread 0 .go, .thread 0 (.answer answer),
          .thread 0 .go]).map Threads.shared =
      some (check c s manual answer).1 := by
  rw [check_through hbegun]
  simp [Machine.run, Program.machine, program, arrives, advance, hbegun, Program.move]

/-! ## A package that waits -/

/-- A verified package of version `v` waits to be installed. -/
structure Ready (s : Shared) (v path digest : String) : Prop where
  phase : s.state.phase = .ready
  version : s.memory.readyVersion = v
  remembered : s.memory.readyPath = path
  named : path ≠ ""
  kept : s.disk[path]? = some digest

/-- The package is ready again, both ways of installing it go ahead with it, and nothing was
    downloaded in its place. -/
structure StaysInstallable (after : Shared × List Result) (v path digest : String) : Prop where
  ready : Ready after.1 v path digest
  install : ∃ next, beginInstall after.1 = some next
  quit : after.1.policy = .auto → installsOnQuit after.1 = true
  downloads : after.2 = []

section Checks

variable {c : Config} {s : Shared} {v path digest : String}

/-- Whether the manager is busy is beside the point. -/
theorem Ready.marked (h : Ready s v path digest) (busy : Bool) :
    Ready { s with busy := busy } v path digest :=
  ⟨h.phase, h.version, h.remembered, h.named, h.kept⟩

theorem Ready.installable (h : Ready s v path digest) :
    StaysInstallable (s, []) v path digest where
  ready := h
  install := by
    have hpath : s.memory.readyPath ≠ "" := h.remembered ▸ h.named
    exact ⟨_, by rw [beginInstall, if_neg (by simp [h.phase, hpath])]⟩
  quit hpolicy := by
    have hpath : s.memory.readyPath ≠ "" := h.remembered ▸ h.named
    simp [installsOnQuit, h.phase, hpath, show s.policy = .auto from hpolicy]
  downloads := rfl

theorem beginCheck_eq_none :
    beginCheck c s = none ↔ isDevelopmentBuild c.version = true ∨ s.busy = true := by
  unfold beginCheck
  cases isDevelopmentBuild c.version <;> cases s.busy <;> simp

theorem checks_refused (h : beginCheck c s = none) (list : List (Bool × Option Result)) :
    checks c s list = (s, []) := by
  induction list with
  | nil => rfl
  | cons one rest ih => simp [checks, check_refused h, ih]

/-- `unskip` leaves the phase, and the manager's mark, where they are. -/
theorem unskip_state (manual : Bool) (result : Result) :
    (unskip s manual result).state = s.state ∧ (unskip s manual result).busy = s.busy := by
  unfold unskip
  split <;> exact ⟨rfl, rfl⟩

/-- **A check that gets through** ends with nothing ready. -/
theorem check_not_ready {begun : Shared} (h : beginCheck c s = some begun) (manual : Bool)
    (answer : Option Result) :
    (check c s manual answer).1.state.phase ≠ .ready ∧
      (check c s manual answer).1.busy = false := by
  have hbegun : begun.state.phase = .checking := by
    unfold beginCheck at h
    split at h
    · cases h
    · split at h
      · cases h
      · cases h
        rfl
  rw [check_through h]
  cases answer with
  | none => exact ⟨fun hready => (by cases hready), rfl⟩
  | some result =>
    obtain ⟨hstate, hbusy⟩ := unskip_state (s := { begun with busy := false }) manual result
    simp only [foldCheck]
    split
    · exact ⟨fun hready => (by cases hready), hbusy⟩
    · split
      · -- the phase it asks about is the one it set itself
        rename_i hready
        rw [hstate, hbegun] at hready
        exact absurd hready.1 (by simp)
      · exact ⟨fun hready => (by cases hready), hbusy⟩

/-- Once nothing is ready, no check makes it so. -/
theorem checks_not_ready (list : List (Bool × Option Result)) (hphase : s.state.phase ≠ .ready) :
    (checks c s list).1.state.phase ≠ .ready := by
  induction list generalizing s with
  | nil => exact hphase
  | cons one rest ih =>
    cases hbegun : beginCheck c s with
    | none =>
      rw [checks_refused hbegun]
      exact hphase
    | some begun =>
      rw [checks_cons]
      exact ih (check_not_ready hbegun one.1 one.2).1

/-- **A finished download stays installable** through checks, whatever they report, exactly when
    none of them gets through. -/
theorem stays_installable_iff (hready : Ready s v path digest)
    (list : List (Bool × Option Result)) :
    StaysInstallable (checks c s list) v path digest ↔
      isDevelopmentBuild c.version = true ∨ s.busy = true ∨ list = [] := by
  constructor
  · intro h
    cases list with
    | nil => exact .inr (.inr rfl)
    | cons one rest =>
      cases hbegun : beginCheck c s with
      | none =>
        rcases beginCheck_eq_none.mp hbegun with hdevelopment | hbusy
        · exact .inl hdevelopment
        · exact .inr (.inl hbusy)
      | some begun =>
        have hnot := checks_not_ready (c := c) rest (check_not_ready hbegun one.1 one.2).1
        rw [← checks_cons] at hnot
        exact absurd h.ready.phase hnot
  · intro h
    have hsame : checks c s list = (s, []) := by
      rcases h with hdevelopment | hbusy | rfl
      · exact checks_refused (beginCheck_eq_none.mpr (.inl hdevelopment)) list
      · exact checks_refused (beginCheck_eq_none.mpr (.inr hbusy)) list
      · rfl
    rw [hsame]
    exact hready.installable

end Checks

/-! ## A package restored at launch -/

/-- A release build on Linux. -/
def linuxBuild : Config where
  version := "1.0.0"
  directory := "/updates"
  canInstall := true
  os := "linux"
  arch := "amd64"
  ext := "AppImage"

/-- The release that waits. -/
def waiting : Result := ⟨.available, "2.0.0", (∅ : Map String String).insert
  (linuxBuild.packageName "2.0.0") "d2"⟩

/-- The manager at launch, with the package of that release on disk. -/
def relaunched : Shared :=
  new linuxBuild ⟨"", "2.0.0", linuxBuild.path (linuxBuild.packageName "2.0.0")⟩ .auto
    ((∅ : Map String String).insert (linuxBuild.path (linuxBuild.packageName "2.0.0")) "d2")

theorem relaunched_ready :
    Ready relaunched "2.0.0" (linuxBuild.path (linuxBuild.packageName "2.0.0")) "d2" := by
  constructor <;> decide +kernel

/-- The launch check reports the release whose package waits: the package is no longer ready, no
    install goes ahead, and the release is downloaded again. -/
theorem launch_check_hides_package :
    relaunched.state.phase = .ready ∧
      (checks linuxBuild relaunched [(false, some waiting)]).1.state.phase = .available ∧
      beginInstall (checks linuxBuild relaunched [(false, some waiting)]).1 = none ∧
      installsOnQuit (checks linuxBuild relaunched [(false, some waiting)]).1 = false ∧
      (checks linuxBuild relaunched [(false, some waiting)]).2 = [waiting] := by
  decide +kernel

/-- With the manager busy the check is refused, and the package stays. -/
theorem stays_installable_iff_relaunched :
    StaysInstallable (checks linuxBuild { relaunched with busy := true } [(false, some waiting)])
      "2.0.0" (linuxBuild.path (linuxBuild.packageName "2.0.0")) "d2" := by
  have hready := relaunched_ready.marked true
  have hiff := stays_installable_iff (c := linuxBuild) hready [(false, some waiting)]
  exact hiff.mpr (.inr (.inl rfl))

end MqStudio.Update
