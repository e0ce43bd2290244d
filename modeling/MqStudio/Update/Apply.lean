import Mathlib.Data.List.Basic
import MqStudio.Lib.Machine

/-!
# Replacing the Installation

`internal/update/apply.go`: a verified package replaces what is installed. On macOS the new bundle is
copied beside the old one, the old one is moved aside and the new one moved into its place; on Linux
an image is copied beside the running one and renamed over it. A step fails, or leaves half of what
it was to copy or remove, and the process dies between any two.

Neither routine locks anything: the manager runs one at a time. What an attempt may rely on is that
the bundle is in its place when it begins. One that begins after a restoration failed removes the
version that was moved aside, which is then the last one.

Mounting and detaching the disk image leave the installation alone and are one step.

## Main definitions

- `Folder`, `bundleStep`: what lies beside the bundle, and one step of `applyBundle`.
- `Image`, `imageStep`: the same of `applyAppImage`.
- `shellQuote`, `readWord`: a path in the command that starts the application again, and what a
  shell reads of it.

## Main results

- `bundle_survives`: a whole version is there at every moment.
- `without_bundle`: an attempt that begins without a bundle installs nothing.
- `image_survives`: the image in place is whole and executable at every moment.
- `readWord_shellQuote`: a shell reads back the path, whatever characters it has.
-/

namespace MqStudio.Update.Apply

open MqStudio.Lib

variable {V : Type}

/-! ## Bundles -/

/-- What lies at a path: all of a version, or not all of it, or more than one. -/
inductive Tree (V : Type) where
  | whole (version : V)
  | broken
  deriving DecidableEq

def Tree.isWhole : Tree V → Bool
  | .whole _ => true
  | .broken => false

/-- The bundle, `.<name>.new` and `.<name>.old`. -/
structure Folder (V : Type) where
  bundle : Option (Tree V)
  staging : Option (Tree V)
  previous : Option (Tree V)
  deriving DecidableEq

/-- The step an attempt is at. `discarding` and `cleaning` are the `RemoveAll` before it returns. -/
inductive BundleStage where
  | mounting | clearingStaging | clearingPrevious | copying | movingAside | movingIn | restoring
  | discarding | cleaning
  deriving DecidableEq

/-- How the latest attempt ended. -/
inductive Report (V : Type) where
  | none
  | installed (version : V)
  | failed
  deriving DecidableEq

/-- The folder, and the attempt under way with the version it is to install. -/
structure BundleState (V : Type) where
  folder : Folder V
  attempt : Option (BundleStage × V)
  report : Report V
  deriving DecidableEq

/-- An attempt begins, or one of its steps comes out. `partly` leaves half of a tree. -/
inductive BundleAct (V : Type) where
  | begin (version : V)
  | goes
  | fails
  | partly
  | dies
  deriving DecidableEq

/-- What `os.RemoveAll` leaves. -/
def removeAll (tree : Option (Tree V)) : BundleAct V → Option (Tree V)
  | .goes => none
  | .partly => tree.map fun _ => .broken
  | _ => tree

/-- The attempt goes on. -/
def BundleState.at (s : BundleState V) (folder : Folder V) (stage : BundleStage) (v : V) :
    BundleState V :=
  { s with folder := folder, attempt := some (stage, v) }

/-- The attempt ends. -/
def BundleState.done (folder : Folder V) (report : Report V) : BundleState V :=
  ⟨folder, none, report⟩

/-- **One step of `applyBundle`**. `RemoveAll` reports nothing. `ditto` copies over what is there,
    and a directory is not renamed over one that has anything in it. -/
def bundleStep (s : BundleState V) (a : BundleAct V) : Option (BundleState V) :=
  let d := s.folder
  match s.attempt, a with
  | none, .begin v => some { s.at d .mounting v with report := .none }
  | some _, .dies => some (.done d .none)
  | some (.mounting, v), .goes => some (s.at d .clearingStaging v)
  | some (.mounting, _), .fails => some (.done d .failed)
  | some (.clearingStaging, v), .goes | some (.clearingStaging, v), .fails
  | some (.clearingStaging, v), .partly =>
    some (s.at { d with staging := removeAll d.staging a } .clearingPrevious v)
  | some (.clearingPrevious, v), .goes | some (.clearingPrevious, v), .fails
  | some (.clearingPrevious, v), .partly =>
    some (s.at { d with previous := removeAll d.previous a } .copying v)
  | some (.copying, v), .goes =>
    -- over what was left of an attempt before, `ditto` makes a tree of both
    let copied := if d.staging.isNone then Tree.whole v else .broken
    some (s.at { d with staging := some copied } .movingAside v)
  | some (.copying, v), .partly => some (s.at { d with staging := some .broken } .discarding v)
  | some (.copying, v), .fails => some (s.at d .discarding v)
  | some (.movingAside, v), .goes =>
    if d.bundle.isSome && !d.previous.any Tree.isWhole then
      some (s.at { d with previous := d.bundle, bundle := none } .movingIn v)
    else none
  | some (.movingAside, v), .fails => some (s.at d .discarding v)
  | some (.movingIn, v), .goes =>
    some (s.at { d with bundle := d.staging, staging := none } .cleaning v)
  -- the new version cannot be moved in: the old one is moved back
  | some (.movingIn, v), .fails => some (s.at d .restoring v)
  | some (.restoring, v), .goes =>
    some (s.at { d with bundle := d.previous, previous := none } .discarding v)
  | some (.restoring, v), .fails => some (s.at d .discarding v)
  | some (.discarding, _), .goes | some (.discarding, _), .fails | some (.discarding, _), .partly =>
    some (.done { d with staging := removeAll d.staging a } .failed)
  | some (.cleaning, v), .goes | some (.cleaning, v), .fails | some (.cleaning, v), .partly =>
    some (.done { d with previous := removeAll d.previous a } (.installed v))
  | _, _ => none

/-- An installation, and every sequence of attempts at it. -/
def bundles : Machine (BundleState V) (BundleAct V) where
  start s := ∃ v, s = .done ⟨some (.whole v), none, none⟩ .none
  step := bundleStep

/-- **The condition**: an attempt begins with the bundle in its place, and copies to where nothing
    is. -/
def InPlace (s : BundleState V) (a : BundleAct V) : Prop :=
  match s.attempt, a with
  | none, .begin _ => s.folder.bundle.any Tree.isWhole = true
  | some (.copying, _), .goes => s.folder.staging = none
  | _, _ => True

instance [DecidableEq V] (s : BundleState V) (a : BundleAct V) : Decidable (InPlace s a) := by
  unfold InPlace
  split <;> infer_instance

/-! ## What is there at each step -/

/-- A whole version is where the application is started from. -/
def Folder.Stands (d : Folder V) : Prop := ∃ v, d.bundle = some (.whole v)

/-- A whole version was moved aside. -/
def Folder.SetAside (d : Folder V) : Prop := ∃ v, d.previous = some (.whole v)

/-- **The invariant**, by the step the attempt is at. -/
def Sound (s : BundleState V) : Prop :=
  match s.attempt with
  | none => (s.folder.Stands ∨ s.folder.SetAside) ∧
      ∀ v, s.report = .installed v → s.folder.bundle = some (.whole v)
  | some (.movingAside, v) => s.folder.Stands ∧ s.folder.staging = some (.whole v)
  | some (.movingIn, v) => s.folder.SetAside ∧ s.folder.staging = some (.whole v)
  | some (.restoring, _) => s.folder.SetAside
  | some (.discarding, _) => s.folder.Stands ∨ s.folder.SetAside
  | some (.cleaning, v) => s.folder.bundle = some (.whole v)
  | some _ => s.folder.Stands

theorem stands_of_any {d : Folder V} (h : d.bundle.any Tree.isWhole = true) : d.Stands := by
  unfold Folder.Stands
  cases hbundle : d.bundle with
  | none =>
    rw [hbundle] at h
    cases h
  | some tree =>
    cases tree with
    | whole v => exact ⟨v, rfl⟩
    | broken =>
      rw [hbundle] at h
      cases h

/-- However far an attempt came, a whole version is in place or aside. -/
theorem Sound.there {s : BundleState V} (h : Sound s) :
    s.folder.Stands ∨ s.folder.SetAside := by
  unfold Sound at h
  split at h
  · exact h.1
  · exact .inl h.1
  · exact .inr h.1
  · exact .inr h
  · exact h
  · exact .inl ⟨_, h⟩
  · exact .inl h

/-- The old version is moved aside whole. -/
theorem Folder.Stands.aside {d : Folder V} (h : d.Stands) :
    ({ d with previous := d.bundle, bundle := none } : Folder V).SetAside := h

/-- A restoration puts it back. -/
theorem Folder.SetAside.back {d : Folder V} (h : d.SetAside) :
    ({ d with bundle := d.previous, previous := none } : Folder V).Stands := h

/-- Every way an attempt takes a step. -/
inductive BundleDid : BundleState V → BundleAct V → BundleState V → Prop where
  | begun (d : Folder V) (r : Report V) (v : V) :
      BundleDid ⟨d, none, r⟩ (.begin v) ⟨d, some (.mounting, v), .none⟩
  | died (d : Folder V) (r : Report V) (x : BundleStage × V) :
      BundleDid ⟨d, some x, r⟩ .dies (.done d .none)
  | mounted (d : Folder V) (r : Report V) (v : V) :
      BundleDid ⟨d, some (.mounting, v), r⟩ .goes ⟨d, some (.clearingStaging, v), r⟩
  | unmounted (d : Folder V) (r : Report V) (v : V) :
      BundleDid ⟨d, some (.mounting, v), r⟩ .fails (.done d .failed)
  | clearedStaging (d : Folder V) (r : Report V) (v : V) (a : BundleAct V) :
      BundleDid ⟨d, some (.clearingStaging, v), r⟩ a
        ⟨{ d with staging := removeAll d.staging a }, some (.clearingPrevious, v), r⟩
  | clearedPrevious (d : Folder V) (r : Report V) (v : V) (a : BundleAct V) :
      BundleDid ⟨d, some (.clearingPrevious, v), r⟩ a
        ⟨{ d with previous := removeAll d.previous a }, some (.copying, v), r⟩
  | copied (d : Folder V) (r : Report V) (v : V) :
      BundleDid ⟨d, some (.copying, v), r⟩ .goes
        ⟨{ d with staging := some (if d.staging.isNone then Tree.whole v else .broken) },
          some (.movingAside, v), r⟩
  | copiedHalf (d : Folder V) (r : Report V) (v : V) :
      BundleDid ⟨d, some (.copying, v), r⟩ .partly
        ⟨{ d with staging := some .broken }, some (.discarding, v), r⟩
  | copiedNothing (d : Folder V) (r : Report V) (v : V) :
      BundleDid ⟨d, some (.copying, v), r⟩ .fails ⟨d, some (.discarding, v), r⟩
  | movedAside (d : Folder V) (r : Report V) (v : V) (hthere : d.bundle.isSome = true) :
      BundleDid ⟨d, some (.movingAside, v), r⟩ .goes
        ⟨{ d with previous := d.bundle, bundle := none }, some (.movingIn, v), r⟩
  | stayed (d : Folder V) (r : Report V) (v : V) :
      BundleDid ⟨d, some (.movingAside, v), r⟩ .fails ⟨d, some (.discarding, v), r⟩
  | movedIn (d : Folder V) (r : Report V) (v : V) :
      BundleDid ⟨d, some (.movingIn, v), r⟩ .goes
        ⟨{ d with bundle := d.staging, staging := none }, some (.cleaning, v), r⟩
  | refused (d : Folder V) (r : Report V) (v : V) :
      BundleDid ⟨d, some (.movingIn, v), r⟩ .fails ⟨d, some (.restoring, v), r⟩
  | restored (d : Folder V) (r : Report V) (v : V) :
      BundleDid ⟨d, some (.restoring, v), r⟩ .goes
        ⟨{ d with bundle := d.previous, previous := none }, some (.discarding, v), r⟩
  | unrestored (d : Folder V) (r : Report V) (v : V) :
      BundleDid ⟨d, some (.restoring, v), r⟩ .fails ⟨d, some (.discarding, v), r⟩
  | discarded (d : Folder V) (r : Report V) (v : V) (a : BundleAct V) :
      BundleDid ⟨d, some (.discarding, v), r⟩ a
        (.done { d with staging := removeAll d.staging a } .failed)
  | cleaned (d : Folder V) (r : Report V) (v : V) (a : BundleAct V) :
      BundleDid ⟨d, some (.cleaning, v), r⟩ a
        (.done { d with previous := removeAll d.previous a } (.installed v))

theorem bundleStep_did {s t : BundleState V} {a : BundleAct V} (h : bundleStep s a = some t) :
    BundleDid s a t := by
  obtain ⟨d, attempt, r⟩ := s
  cases attempt with
  | none =>
    cases a with
    | begin v =>
      cases h
      exact .begun d r v
    | _ => cases h
  | some x =>
    obtain ⟨stage, v⟩ := x
    cases a with
    | begin => cases stage <;> cases h
    | dies =>
      cases h
      exact .died d r (stage, v)
    | goes =>
      cases stage with
      | mounting =>
        cases h
        exact .mounted d r v
      | clearingStaging =>
        cases h
        exact .clearedStaging d r v .goes
      | clearingPrevious =>
        cases h
        exact .clearedPrevious d r v .goes
      | copying =>
        cases h
        exact .copied d r v
      | movingAside =>
        simp only [bundleStep] at h
        split at h
        · rename_i hthere
          cases h
          exact .movedAside d r v (Bool.and_eq_true_iff.mp hthere).1
        · cases h
      | movingIn =>
        cases h
        exact .movedIn d r v
      | restoring =>
        cases h
        exact .restored d r v
      | discarding =>
        cases h
        exact .discarded d r v .goes
      | cleaning =>
        cases h
        exact .cleaned d r v .goes
    | fails =>
      cases stage with
      | mounting =>
        cases h
        exact .unmounted d r v
      | clearingStaging =>
        cases h
        exact .clearedStaging d r v .fails
      | clearingPrevious =>
        cases h
        exact .clearedPrevious d r v .fails
      | copying =>
        cases h
        exact .copiedNothing d r v
      | movingAside =>
        cases h
        exact .stayed d r v
      | movingIn =>
        cases h
        exact .refused d r v
      | restoring =>
        cases h
        exact .unrestored d r v
      | discarding =>
        cases h
        exact .discarded d r v .fails
      | cleaning =>
        cases h
        exact .cleaned d r v .fails
    | partly =>
      cases stage with
      | clearingStaging =>
        cases h
        exact .clearedStaging d r v .partly
      | clearingPrevious =>
        cases h
        exact .clearedPrevious d r v .partly
      | copying =>
        cases h
        exact .copiedHalf d r v
      | discarding =>
        cases h
        exact .discarded d r v .partly
      | cleaning =>
        cases h
        exact .cleaned d r v .partly
      | _ => cases h

/-- **Step lemma**: a step that meets the condition keeps the invariant. -/
theorem sound_step {s t : BundleState V} {a : BundleAct V} (hs : Sound s) (hok : InPlace s a)
    (hstep : bundleStep s a = some t) : Sound t := by
  cases bundleStep_did hstep with
  | begun d r v => exact stands_of_any hok
  | died d r x => exact ⟨hs.there, nofun⟩
  | mounted | clearedStaging | clearedPrevious => exact hs
  | unmounted d r v => exact ⟨.inl hs, nofun⟩
  | copied d r v =>
    -- the condition: nothing was there for `ditto` to copy over
    have hclear : d.staging = none := hok
    exact ⟨hs, by simp [hclear]⟩
  | copiedHalf | copiedNothing => exact .inl hs
  -- from here until the next rename only the version that was moved aside is there
  | movedAside d r v => exact ⟨hs.1.aside, hs.2⟩
  | stayed d r v => exact .inl hs.1
  | movedIn d r v => exact hs.2
  | refused d r v => exact hs.1
  | restored d r v => exact .inl (Folder.SetAside.back hs)
  | unrestored d r v => exact .inr hs
  | discarded d r v a => exact ⟨hs, nofun⟩
  | cleaned d r v a =>
    refine ⟨.inl ⟨v, hs⟩, ?_⟩
    rintro w ⟨⟩
    exact hs

/-- **A whole version is there at every moment**: over every sequence of attempts, with failures and
    deaths at any step, as long as each begins with the bundle in its place and copies to where
    nothing is. Where the latest attempt reported success, its version is in place. -/
theorem bundle_survives {s : BundleState V} (hs : bundles.Reachable InPlace s) :
    (s.folder.Stands ∨ s.folder.SetAside) ∧
      (s.attempt = none → ∀ v, s.report = .installed v → s.folder.bundle = some (.whole v)) := by
  have hsound : Sound s := by
    apply hs.invariant
    · rintro s ⟨v, rfl⟩
      exact ⟨.inl ⟨v, rfl⟩, nofun⟩
    · intro s a t _ hinv hok hstep
      exact sound_step hinv hok hstep
  refine ⟨hsound.there, fun hidle v hreport => ?_⟩
  unfold Sound at hsound
  rw [hidle] at hsound
  exact hsound.2 v hreport

/-- An attempt that cannot move the new version in and puts the old one back, and one that dies
    right after moving the old one aside. -/
def twoAttempts : List (BundleAct Nat) :=
  [.begin 2, .goes, .goes, .goes, .goes, .goes, .fails, .goes, .goes,
    .begin 2, .goes, .goes, .goes, .goes, .goes, .dies]

theorem bundle_survives_twoAttempts :
    let s := bundles.endOf (.done ⟨some (.whole 1), none, none⟩ .none) twoAttempts
    s.folder.bundle = none ∧ s.folder.SetAside := by
  intro s
  have hs : bundles.Reachable InPlace s :=
    Machine.Reachable.endOf (.start ⟨1, rfl⟩) (by decide +kernel)
  have hgone : s.folder.bundle = none := by decide +kernel
  refine ⟨hgone, (bundle_survives hs).1.resolve_left ?_⟩
  rintro ⟨v, hv⟩
  rw [hgone] at hv
  cases hv

/-- Nothing is in the bundle's place, and no attempt came further than that allows. -/
structure Gone (s : BundleState V) : Prop where
  bundle : s.folder.bundle = none
  attempt : ∀ x ∈ s.attempt, x.1 ≠ .movingIn ∧ x.1 ≠ .restoring ∧ x.1 ≠ .cleaning
  report : ∀ v, s.report ≠ .installed v

theorem gone_step {s t : BundleState V} {a : BundleAct V} (hs : Gone s)
    (hstep : bundleStep s a = some t) : Gone t := by
  have hbundle := hs.bundle
  have hreport := hs.report
  cases bundleStep_did hstep with
  | begun d r v => exact ⟨hbundle, by simp, nofun⟩
  | died d r x => exact ⟨hbundle, nofun, nofun⟩
  | unmounted d r v => exact ⟨hbundle, nofun, nofun⟩
  | discarded d r v a => exact ⟨hbundle, nofun, nofun⟩
  | movedAside d r v hthere =>
    have hnone : d.bundle = none := hbundle
    rw [hnone] at hthere
    cases hthere
  | movedIn d r v => exact absurd rfl (hs.attempt _ rfl).1
  | refused d r v => exact absurd rfl (hs.attempt _ rfl).1
  | restored d r v => exact absurd rfl (hs.attempt _ rfl).2.1
  | unrestored d r v => exact absurd rfl (hs.attempt _ rfl).2.1
  | cleaned d r v a => exact absurd rfl (hs.attempt _ rfl).2.2
  | _ => exact ⟨hbundle, by simp, hreport⟩

/-- **Attempts do not bring a bundle back**: once none is in its place, every attempt, however often
    one is made and whatever comes out of its steps, fails and leaves none. -/
theorem without_bundle {d : Folder V} (hgone : d.bundle = none) {acts : List (BundleAct V)}
    {t : BundleState V} (hrun : bundles.run (.done d .failed) acts = some t) :
    t.folder.bundle = none ∧ ∀ v, t.report ≠ .installed v := by
  have hstart : Gone (.done d .failed : BundleState V) := ⟨hgone, nofun, nofun⟩
  have ht : Gone t := (bundles.permitted_always _ acts).invariant Gone
    (fun s a t hs _ hstep => gone_step hs hstep) hstart hrun
  exact ⟨ht.bundle, ht.report⟩

/-- The version that was moved aside is removed by the next attempt, and nothing is left. -/
theorem without_bundle_again :
    ∃ t, bundles.run (.done ⟨none, none, some (.whole 1)⟩ .failed)
        [.begin (2 : Nat), .goes, .goes, .goes, .goes, .fails, .goes] = some t ∧
      t.folder.bundle = none ∧ t.folder.previous = none ∧ t.folder.staging = none := by
  obtain ⟨t, ht, hprevious, hstaging⟩ : ∃ t, bundles.run (.done ⟨none, none, some (.whole 1)⟩ .failed)
        [.begin (2 : Nat), .goes, .goes, .goes, .goes, .fails, .goes] = some t ∧
      t.folder.previous = none ∧ t.folder.staging = none := ⟨_, rfl, rfl, rfl⟩
  exact ⟨t, ht, (without_bundle rfl ht).1, hprevious, hstaging⟩

/-! ## AppImages -/

/-- A file: the version all of which it holds, if it does, and whether it may be executed. -/
structure Image (V : Type) where
  whole : Option V
  executable : Bool
  deriving DecidableEq

/-- The step an attempt is at: those of `copyFile`, the rename, and `Remove`. -/
inductive ImageStage where
  | opening | copying | closing | granting | moving | removing
  deriving DecidableEq

/-- The running image, `<image>.new`, and the attempt under way. -/
structure ImageState (V : Type) where
  current : Image V
  staging : Option (Image V)
  attempt : Option (ImageStage × V)
  report : Report V
  deriving DecidableEq

inductive ImageAct (V : Type) where
  | begin (version : V)
  | goes
  | fails
  | dies
  deriving DecidableEq

/-- **One step of `applyAppImage`**. A file that is opened anew may have lost its mode to the umask;
    one that was left keeps its own. A copy that fails leaves a part. -/
def imageStep (s : ImageState V) (a : ImageAct V) : Option (ImageState V) :=
  match s.attempt, a with
  | none, .begin v => some { s with attempt := some (.opening, v), report := .none }
  | some _, .dies => some { s with attempt := none }
  | some (.opening, v), .goes =>
    some { s with
      staging := some ⟨none, s.staging.any Image.executable⟩, attempt := some (.copying, v) }
  | some (.copying, v), .goes =>
    some { s with
      staging := s.staging.map fun image => { image with whole := some v }
      attempt := some (.closing, v) }
  | some (.closing, v), .goes => some { s with attempt := some (.granting, v) }
  | some (.granting, v), .goes =>
    some { s with
      staging := s.staging.map fun image => { image with executable := true }
      attempt := some (.moving, v) }
  | some (.moving, v), .goes =>
    some { s with
      current := s.staging.getD s.current, staging := none, attempt := none, report := .installed v }
  | some (.removing, _), .goes => some { s with staging := none, attempt := none, report := .failed }
  | some (.removing, _), .fails => some { s with attempt := none, report := .failed }
  | some (_, v), .fails => some { s with attempt := some (.removing, v) }
  | _, _ => none

/-- An installation, and every sequence of attempts at it. -/
def images : Machine (ImageState V) (ImageAct V) where
  start s := ∃ v, s = ⟨⟨some v, true⟩, none, none, .none⟩
  step := imageStep

/-- What `<image>.new` holds at each step. -/
def Staged (s : ImageState V) : Prop :=
  match s.attempt with
  | some (.copying, _) => s.staging.isSome = true
  | some (.closing, v) | some (.granting, v) => ∃ executable, s.staging = some ⟨some v, executable⟩
  | some (.moving, v) => s.staging = some ⟨some v, true⟩
  | _ => True

/-- The image in place can be started, and is what was reported. -/
structure Startable (s : ImageState V) : Prop where
  current : ∃ v, s.current = ⟨some v, true⟩
  report : ∀ v, s.report = .installed v → s.current = ⟨some v, true⟩
  staged : Staged s

/-- **Step lemma**. -/
theorem startable_step {s t : ImageState V} {a : ImageAct V} (hs : Startable s)
    (hstep : imageStep s a = some t) : Startable t := by
  obtain ⟨current, staging, attempt, r⟩ := s
  obtain ⟨hcurrent, hreport, hstaged⟩ := hs
  cases attempt with
  | none =>
    cases a with
    | begin v =>
      cases hstep
      exact ⟨hcurrent, nofun, trivial⟩
    | _ => cases hstep
  | some x =>
    obtain ⟨stage, v⟩ := x
    cases a with
    | begin => cases stage <;> cases hstep
    | dies =>
      cases hstep
      exact ⟨hcurrent, hreport, trivial⟩
    | goes =>
      cases stage with
      | opening =>
        cases hstep
        exact ⟨hcurrent, hreport, rfl⟩
      | copying =>
        cases hstep
        obtain ⟨image, rfl⟩ := Option.isSome_iff_exists.mp hstaged
        exact ⟨hcurrent, hreport, image.executable, rfl⟩
      | closing =>
        cases hstep
        exact ⟨hcurrent, hreport, hstaged⟩
      | granting =>
        cases hstep
        obtain ⟨executable, rfl⟩ := hstaged
        exact ⟨hcurrent, hreport, rfl⟩
      | moving =>
        cases hstep
        -- only what was copied, closed and made executable is ever renamed
        obtain rfl : staging = some ⟨some v, true⟩ := hstaged
        refine ⟨⟨v, rfl⟩, ?_, trivial⟩
        rintro w ⟨⟩
        rfl
      | removing =>
        cases hstep
        exact ⟨hcurrent, nofun, trivial⟩
    | fails =>
      cases stage with
      | removing =>
        cases hstep
        exact ⟨hcurrent, nofun, trivial⟩
      | _ =>
        cases hstep
        exact ⟨hcurrent, hreport, trivial⟩

/-- **The image in place is whole and executable at every moment**, over every sequence of attempts
    with failures and deaths at any step, and is the version the latest attempt reported. -/
theorem image_survives {s : ImageState V} (hs : images.Reachable Machine.Always s) :
    (∃ v, s.current = ⟨some v, true⟩) ∧
      ∀ v, s.report = .installed v → s.current = ⟨some v, true⟩ := by
  have hstartable : Startable s := by
    apply hs.invariant
    · rintro s ⟨v, rfl⟩
      exact ⟨⟨v, rfl⟩, nofun, trivial⟩
    · intro s a t _ hinv _ hstep
      exact startable_step hinv hstep
  exact ⟨hstartable.current, hstartable.report⟩

/-- An attempt that dies half way through its copy, and one that succeeds over what it left. -/
theorem image_survives_twoAttempts :
    let s := images.endOf ⟨⟨some 1, true⟩, none, none, .none⟩
      [.begin (2 : Nat), .goes, .dies, .begin 2, .goes, .goes, .goes, .goes, .goes]
    s.current = ⟨some 2, true⟩ := by
  intro s
  have hs : images.Reachable Machine.Always s :=
    Machine.Reachable.endOf (.start ⟨1, rfl⟩) (Machine.permitted_always _ _ _)
  exact (image_survives hs).2 2 (by decide +kernel)

/-! ## Starting again -/

/-- `shellQuote`: `strings.ReplaceAll` between two quotes. -/
def shellQuote (value : List Char) : List Char :=
  '\'' :: value.flatMap (fun c => if c = '\'' then ['\'', '\\', '\'', '\''] else [c]) ++ ['\'']

/-- What ends a word of a command, outside quotes. -/
def endsWord (c : Char) : Bool := c = ' ' || c = '\t' || c = '\n' || c = ';' || c = '&' || c = '|'

/-- A shell reads one word, in or out of single quotes: the word, and what follows it. Outside them
    only what the command uses is read: a backslash takes the next character as it is, and any other
    character with a meaning of its own is refused. -/
def readWord : (quoted : Bool) → List Char → Option (List Char × List Char)
  | false, [] => some ([], [])
  | true, [] => none
  | true, c :: rest =>
    if c = '\'' then readWord false rest
    else (readWord true rest).map fun read => (c :: read.1, read.2)
  | false, c :: rest =>
    if c = '\'' then readWord true rest
    else if c = '\\' then
      match rest with
      | [] => none
      | d :: rest => (readWord false rest).map fun read => (d :: read.1, read.2)
    else if endsWord c then some ([], c :: rest)
    else none

theorem readWord_open (rest : List Char) :
    readWord false ('\'' :: rest) = readWord true rest := by
  rw [readWord.eq_def]
  rfl

theorem readWord_close (rest : List Char) :
    readWord true ('\'' :: rest) = readWord false rest := by
  rw [readWord.eq_def]
  rfl

theorem readWord_escape (c : Char) (rest : List Char) :
    readWord false ('\\' :: c :: rest) =
      (readWord false rest).map fun read => (c :: read.1, read.2) := by
  rw [readWord.eq_def]
  rfl

theorem readWord_letter {c : Char} (hc : c ≠ '\'') (rest : List Char) :
    readWord true (c :: rest) = (readWord true rest).map fun read => (c :: read.1, read.2) := by
  rw [readWord.eq_def]
  simp [hc]

/-- Inside quotes every character but the quote is itself. -/
theorem readWord_quoted (value rest : List Char) :
    readWord true (value.flatMap (fun c => if c = '\'' then ['\'', '\\', '\'', '\''] else [c]) ++
      '\'' :: rest) = (readWord false rest).map fun read => (value ++ read.1, read.2) := by
  induction value with
  | nil => simp [readWord_close]
  | cons c value ih =>
    rw [List.flatMap_cons, List.append_assoc]
    by_cases hc : c = '\''
    · -- the quote is closed, escaped and opened again
      subst hc
      simp only [if_true, List.cons_append, List.nil_append]
      rw [readWord_close, readWord_escape, readWord_open, ih, Option.map_map]
      rfl
    · simp only [hc, if_false, List.cons_append, List.nil_append]
      rw [readWord_letter hc, ih, Option.map_map]
      rfl

/-- **A shell reads the path back**, whatever characters it has, and nothing of it ends the word or
    the command. -/
theorem readWord_shellQuote (value rest : List Char) :
    readWord false (shellQuote value ++ rest) =
      (readWord false rest).map fun read => (value ++ read.1, read.2) := by
  have hquoted : shellQuote value ++ rest =
      '\'' :: (value.flatMap (fun c => if c = '\'' then ['\'', '\\', '\'', '\''] else [c]) ++
        '\'' :: rest) := by
    simp [shellQuote]
  rw [hquoted, readWord_open, readWord_quoted]

end MqStudio.Update.Apply
