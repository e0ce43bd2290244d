import Mathlib.Data.List.Infix
import MqStudio.Lib.Disk
import MqStudio.Lib.Threads

/-!
# Writing a File Whole

`internal/storage/atomicfile`: `Write` fills a temporary file beside its target, flushes it and
renames it over the target. The window, the assistant and every MCP server call it side by side, on
one disk. A call fails at any of its steps, its process dies between two of them, and power is lost
at any moment.

What the calls come to is told by their outcomes alone: a call that returns without an error replaces
the target, one that fails does nothing, and a loss of power takes a target back to something it
held before.

Permission bits are left out; `MkdirAll` and the `Chmod` of the directory are part of the first step.

## Main definitions

- `advance`: one step of one call.
- `replay`: what the outcomes leave at every target.
- `Owns`: what a call under way relies on.

## Main results

- `invariants`: every step of every call keeps what the others rely on.
- `write_refines`: the targets are what the outcomes say, and a file once seen never changes.
-/

namespace MqStudio.Storage.AtomicFile

open MqStudio.Lib

/-! ## Paths -/

/-- A path, as `filepath.Dir` and `filepath.Base` split it. -/
structure Path where
  dir : List Char
  base : List Char
  deriving DecidableEq

/-- What stands in every name `CreateTemp` draws here. -/
def tempMark : List Char := ".tmp-".toList

/-- `os.CreateTemp(dir, "."+filepath.Base(path)+".tmp-")`, for what it draws. -/
def tempPath (path : Path) (random : List Char) : Path :=
  ⟨path.dir, '.' :: (path.base ++ tempMark ++ random)⟩

/-- A name of that form. No target has one. -/
def Path.isTemp (path : Path) : Bool :=
  path.base.head? = some '.' && decide (tempMark <:+: path.base)

theorem isTemp_tempPath (path : Path) (random : List Char) :
    (tempPath path random).isTemp = true := by
  have hmark : tempMark <:+: (tempPath path random).base := ⟨'.' :: path.base, random, rfl⟩
  simp only [Path.isTemp, hmark, decide_true, Bool.and_true]
  rfl

/-! ## Calls -/

variable {κ : Type}

/-- What a call is to write, and where. -/
structure Write (κ : Type) where
  path : Path
  data : κ
  deriving DecidableEq

/-- What came of a call, and what the medium did. -/
inductive Event (κ : Type) where
  | replaced (write : Write κ)
  | failed (write : Write κ)
  | settled (path : Path)
  | lost (back : Path → Nat)

/-- The disk, and what came of every call, in order. -/
structure Shared (κ : Type) where
  disk : Disk Path κ
  events : List (Event κ)

def Shared.record (s : Shared κ) (event : Event κ) : Shared κ :=
  { s with events := s.events ++ [event] }

/-- The next step of a call that has its temporary file. `discarding` is `Close` and `Remove`. -/
inductive Stage where
  | tightening | writing | syncing | closing | moving | discarding
  deriving DecidableEq

/-- A call before it has its temporary file, and after. -/
inductive Position (κ : Type) where
  | opening (write : Write κ)
  | under (stage : Stage) (write : Write κ) (tmp : Path) (f : Nat)

/-- How a step comes out. A write that fails leaves something in the file. -/
inductive Choice (κ : Type) where
  | draws (random : List Char)
  | succeeds
  | fails
  | tears (left : κ)
  | dies

/-- The medium catches up, in its own time. -/
inductive Around where
  | settles (path : Path)
  | flushes (f : Nat)

/-- A loss of power, and what it leaves. -/
structure Outage (κ : Type) where
  back : Path → Nat
  torn : Nat → κ

/-- **One step of `Write`**. `CreateTemp` never takes a name that is there. -/
def advance [Inhabited κ] (s : Shared κ) :
    Position κ → Choice κ → Option (Shared κ × Option (Position κ))
  | _, .dies => some (s, none)
  | .opening w, .draws random =>
    if (s.disk.names (tempPath w.path random)).isSome then none
    else some ({ s with disk := s.disk.create (tempPath w.path random) default },
      some (.under .tightening w (tempPath w.path random) s.disk.files.length))
  | .opening w, .fails => some (s.record (.failed w), none)
  | .under .tightening w tmp f, .succeeds => some (s, some (.under .writing w tmp f))
  | .under .writing w tmp f, .succeeds =>
    some ({ s with disk := s.disk.write f w.data }, some (.under .syncing w tmp f))
  | .under .writing w tmp f, .tears left =>
    some ({ s with disk := s.disk.write f left }, some (.under .discarding w tmp f))
  | .under .syncing w tmp f, .succeeds =>
    some ({ s with disk := s.disk.flush f }, some (.under .closing w tmp f))
  | .under .closing w tmp f, .succeeds => some (s, some (.under .moving w tmp f))
  | .under .moving w tmp _, .succeeds =>
    some (({ s with disk := s.disk.move tmp w.path }).record (.replaced w), none)
  | .under .discarding w tmp _, .succeeds =>
    some (({ s with disk := s.disk.remove tmp }).record (.failed w), none)
  | .under .discarding w _ _, .fails => some (s.record (.failed w), none)
  -- whatever fails before the rename, `Close` and `Remove` follow
  | .under _ w tmp f, .fails => some (s, some (.under .discarding w tmp f))
  | _, _ => none

/-- The medium catches up with a name, which is then safe, or with a file. -/
def around (s : Shared κ) : Around → Option (Shared κ)
  | .settles path => some (({ s with disk := s.disk.settle path }).record (.settled path))
  | .flushes f => some { s with disk := s.disk.flush f }

/-- Power is lost. -/
def outage (s : Shared κ) (o : Outage κ) : Shared κ :=
  ({ s with disk := s.disk.lose o.back o.torn }).record (.lost o.back)

/-- Every call of every process, over a disk that starts with everything on its medium. -/
def calls [Inhabited κ] (initial : Disk Path κ) :
    Program (Shared κ) (Position κ) (Choice κ) Around where
  start s := s = ⟨initial, []⟩ ∧ initial.Settled
  arrives
    | .opening w => !w.path.isTemp
    | .under .. => false
  advance := advance
  environment := around
  holds _ := false
  excludes _ := false

/-- Every interleaving, over every loss of power. -/
def machine [Inhabited κ] (initial : Disk Path κ) :
    Machine (Threads (Shared κ) (Position κ)) (Outage κ ⊕ Turn (Position κ) (Choice κ) Around) :=
  (calls initial).outages outage

/-! ## What the outcomes come to -/

/-- What every path holds, and what a loss of power may take it back to. -/
structure Register (κ : Type) where
  now : Path → Option κ
  earlier : Path → List (Option κ)

/-- What one outcome does, all at once. -/
def Register.apply (r : Register κ) : Event κ → Register κ
  | .replaced w =>
    { now := Function.update r.now w.path (some w.data)
      earlier := Function.update r.earlier w.path (r.now w.path :: r.earlier w.path) }
  | .failed _ => r
  | .settled path => { r with earlier := Function.update r.earlier path [] }
  | .lost back =>
    { now := fun path => pickBack (back path) (r.now path) (r.earlier path)
      earlier := fun _ => [] }

/-- **What a run of outcomes leaves.** -/
def replay (initial : Disk Path κ) (events : List (Event κ)) : Register κ :=
  events.foldl Register.apply ⟨initial.lookup, fun _ => []⟩

@[simp] theorem replay_nil (initial : Disk Path κ) :
    replay initial [] = ⟨initial.lookup, fun _ => []⟩ := rfl

@[simp] theorem replay_concat (initial : Disk Path κ) (events : List (Event κ))
    (event : Event κ) :
    replay initial (events ++ [event]) = (replay initial events).apply event := by
  simp [replay]

/-! ## Invariants -/

/-- **Every target shows what the outcomes say.** -/
def Agrees (initial : Disk Path κ) (s : Shared κ) : Prop :=
  ∀ path, path.isTemp = false → s.disk.Shows path ((replay initial s.events).now path)
    ((replay initial s.events).earlier path)

/-- The data is in the file. -/
def Stage.written : Stage → Bool
  | .syncing | .closing | .moving => true
  | _ => false

/-- The data is on the medium. -/
def Stage.synced : Stage → Bool
  | .closing | .moving => true
  | _ => false

/-- **What a call relies on**: the temporary file is its own, and holds what it wrote. -/
structure Owns (d : Disk Path κ) (stage : Stage) (w : Write κ) (tmp : Path) (f : Nat) :
    Prop where
  target : w.path.isTemp = false
  temp : tmp.isTemp = true
  named : d.names tmp = some f
  hidden : ∀ path, path.isTemp = false → some f ∉ d.names path :: d.earlier path
  file : ∃ file, d.files[f]? = some file ∧ (stage.written = true → file.content = w.data) ∧
    (stage.synced = true → file.flushed = true)

/-- What holds of a call under way. -/
def Underway (s : Shared κ) : Position κ → Prop
  | .opening w => w.path.isTemp = false
  | .under stage w tmp f => Owns s.disk stage w tmp f

/-- The temporary file of a call. -/
def Position.temp? : Position κ → Option (Path × Nat)
  | .opening _ => none
  | .under _ _ tmp f => some (tmp, f)

/-- Two calls have different temporary files. -/
def Apart (p q : Position κ) : Prop :=
  ∀ x ∈ p.temp?, ∀ y ∈ q.temp?, x.1 ≠ y.1 ∧ x.2 ≠ y.2

/-! ## What a step can do -/

/-- Every way a call takes a step. -/
inductive Did [Inhabited κ] (s : Shared κ) :
    Position κ → Shared κ × Option (Position κ) → Prop where
  | died (p : Position κ) : Did s p (s, none)
  | opened (w : Write κ) (random : List Char)
      (hfree : s.disk.names (tempPath w.path random) = none) :
      Did s (.opening w) ({ s with disk := s.disk.create (tempPath w.path random) default },
        some (.under .tightening w (tempPath w.path random) s.disk.files.length))
  | refused (w : Write κ) : Did s (.opening w) (s.record (.failed w), none)
  | passed (stage stage' : Stage) (w : Write κ) (tmp : Path) (f : Nat)
      (hwritten : stage'.written = true → stage.written = true)
      (hsynced : stage'.synced = true → stage.synced = true) :
      Did s (.under stage w tmp f) (s, some (.under stage' w tmp f))
  | wrote (stage : Stage) (w : Write κ) (tmp : Path) (f : Nat) (content : κ)
      (hwritten : stage.written = true → content = w.data) (hsynced : stage.synced = false) :
      Did s (.under .writing w tmp f)
        ({ s with disk := s.disk.write f content }, some (.under stage w tmp f))
  | flushed (w : Write κ) (tmp : Path) (f : Nat) :
      Did s (.under .syncing w tmp f)
        ({ s with disk := s.disk.flush f }, some (.under .closing w tmp f))
  | renamed (w : Write κ) (tmp : Path) (f : Nat) :
      Did s (.under .moving w tmp f)
        (({ s with disk := s.disk.move tmp w.path }).record (.replaced w), none)
  | removed (w : Write κ) (tmp : Path) (f : Nat) :
      Did s (.under .discarding w tmp f)
        (({ s with disk := s.disk.remove tmp }).record (.failed w), none)
  | left (w : Write κ) (tmp : Path) (f : Nat) :
      Did s (.under .discarding w tmp f) (s.record (.failed w), none)

theorem advance_did [Inhabited κ] {s : Shared κ} {p : Position κ} {a : Choice κ}
    {next : Shared κ × Option (Position κ)} (h : advance s p a = some next) : Did s p next := by
  cases a with
  | dies =>
    obtain rfl : (s, none) = next := by
      cases p <;> exact Option.some.inj h
    exact .died p
  | draws random =>
    cases p with
    | opening w =>
      simp only [advance] at h
      split at h
      · cases h
      · rename_i hfree
        cases h
        exact .opened w random (by simpa using hfree)
    | under stage w tmp f => cases stage <;> cases h
  | succeeds =>
    cases p with
    | opening w => cases h
    | under stage w tmp f =>
      cases stage with
      | tightening =>
        cases h
        exact .passed _ _ w tmp f (fun h => by cases h) (fun h => by cases h)
      | writing =>
        cases h
        exact .wrote _ w tmp f _ (fun _ => rfl) rfl
      | syncing =>
        cases h
        exact .flushed w tmp f
      | closing =>
        cases h
        exact .passed _ _ w tmp f (fun _ => rfl) fun _ => rfl
      | moving =>
        cases h
        exact .renamed w tmp f
      | discarding =>
        cases h
        exact .removed w tmp f
  | fails =>
    cases p with
    | opening w =>
      cases h
      exact .refused w
    | under stage w tmp f =>
      cases stage with
      | discarding =>
        cases h
        exact .left w tmp f
      | _ =>
        cases h
        exact .passed _ _ w tmp f (fun h => by cases h) (fun h => by cases h)
  | tears left =>
    cases p with
    | opening w => cases h
    | under stage w tmp f =>
      cases stage with
      | writing =>
        cases h
        exact .wrote _ w tmp f left (fun h => by cases h) rfl
      | _ => cases h

/-! ## What a step leaves alone -/

section Frames

variable {initial d d' : Disk Path κ} {s : Shared κ} {stage : Stage} {w : Write κ} {tmp name : Path}
  {f g : Nat} {entry : Option Nat}

/-- Names and files of others leave a call what it relies on. -/
theorem Owns.frame (h : Owns d stage w tmp f) (hnamed : d'.names tmp = d.names tmp)
    (hhidden : ∀ path, path.isTemp = false → some f ∈ d'.names path :: d'.earlier path →
      some f ∈ d.names path :: d.earlier path)
    (hfile : ∀ file, d.files[f]? = some file → ∃ file', d'.files[f]? = some file' ∧
      file'.content = file.content ∧ (file.flushed = true → file'.flushed = true)) :
    Owns d' stage w tmp f := by
  obtain ⟨file, hhere, hwritten, hsynced⟩ := h.file
  obtain ⟨file', hthere, hcontent, hflushed⟩ := hfile file hhere
  refine ⟨h.target, h.temp, hnamed.trans h.named, ?_, file', hthere, ?_, ?_⟩
  · intro path hpath hmem
    exact h.hidden path hpath (hhidden path hpath hmem)
  · intro hstage
    rw [hcontent, hwritten hstage]
  · intro hstage
    exact hflushed (hsynced hstage)

/-- A target and a temporary file have different names. -/
theorem ne_of_isTemp {path : Path} (hpath : path.isTemp = false) (htmp : tmp.isTemp = true) :
    path ≠ tmp := by
  rintro rfl
  rw [hpath] at htmp
  cases htmp

/-- A name that comes to stand for another file. -/
theorem Owns.enter (h : Owns d stage w tmp f) (hne : tmp ≠ name) (hentry : entry ≠ some f) :
    Owns (d.enter name entry) stage w tmp f := by
  apply h.frame
  · simp [Disk.enter, hne]
  · intro path hpath hmem
    by_cases hname : path = name
    · subst hname
      simpa [Disk.enter, Ne.symm hentry] using hmem
    · simpa [Disk.enter, hname] using hmem
  · intro file hfile
    exact ⟨file, hfile, rfl, id⟩

theorem Owns.create (h : Owns d stage w tmp f) (hfree : d.names name = none)
    (htemp : name.isTemp = true) (content : κ) : Owns (d.create name content) stage w tmp f := by
  have hne : tmp ≠ name := by
    rintro rfl
    have hnamed := h.named
    rw [hfree] at hnamed
    cases hnamed
  apply h.frame
  · simp [Disk.create, Disk.enter, hne]
  · intro path hpath hmem
    simpa [Disk.create, Disk.enter, ne_of_isTemp hpath htemp] using hmem
  · intro file hfile
    exact ⟨file, Disk.files_create hfile name content, rfl, id⟩

theorem Owns.write_ne (h : Owns d stage w tmp f) (hne : f ≠ g) (content : κ) :
    Owns (d.write g content) stage w tmp f := by
  apply h.frame
  · rfl
  · intro path _ hmem
    exact hmem
  · intro file hfile
    exact ⟨file, by rw [Disk.files_write_ne hne, hfile], rfl, id⟩

theorem Owns.flush (h : Owns d stage w tmp f) (g : Nat) : Owns (d.flush g) stage w tmp f := by
  apply h.frame
  · rfl
  · intro path _ hmem
    exact hmem
  · intro file hfile
    by_cases hg : f = g
    · subst hg
      exact ⟨_, Disk.files_flush_self hfile, rfl, fun _ => rfl⟩
    · exact ⟨file, by rw [Disk.files_flush_ne hg, hfile], rfl, id⟩

theorem Owns.settle (h : Owns d stage w tmp f) (name : Path) :
    Owns (d.settle name) stage w tmp f := by
  apply h.frame
  · rfl
  · intro path _ hmem
    by_cases hname : path = name
    · subst hname
      simp only [Disk.settle, Function.update_self, List.mem_singleton] at hmem
      exact hmem ▸ List.mem_cons_self
    · simpa [Disk.settle, hname] using hmem
  · intro file hfile
    exact ⟨file, hfile, rfl, id⟩

/-- What is done to temporary names is not seen under a target. -/
theorem Agrees.enter_temp (h : Agrees initial s) (htemp : name.isTemp = true)
    (entry : Option Nat) : Agrees initial { s with disk := s.disk.enter name entry } :=
  fun path hpath => (h path hpath).enter_ne (ne_of_isTemp hpath htemp) entry

theorem Agrees.failed (h : Agrees initial s) (w : Write κ) :
    Agrees initial (s.record (.failed w)) := by
  intro path hpath
  simpa [Shared.record, Register.apply] using h path hpath

/-- **A rename shows what was written**, whole, and nothing else changes. -/
theorem Agrees.renamed (h : Agrees initial s) (hown : Owns s.disk .moving w tmp f) :
    Agrees initial (({ s with disk := s.disk.move tmp w.path }).record (.replaced w)) := by
  obtain ⟨file, hfile, hwritten, hsynced⟩ := hown.file
  have hsolid : s.disk.Solid (s.disk.names tmp) (some w.data) := by
    rw [hown.named]
    exact ⟨file, hfile, hsynced rfl, by rw [hwritten rfl]⟩
  intro path hpath
  have htmp := ne_of_isTemp hpath hown.temp
  simp only [Shared.record, replay_concat, Register.apply]
  by_cases hsame : path = w.path
  · subst hsame
    simpa [Disk.move] using ((h _ hpath).enter hsolid).enter_ne htmp none
  · simpa [Disk.move, hsame] using ((h path hpath).enter_ne hsame _).enter_ne htmp none

/-- Power may be lost at any moment. -/
theorem Agrees.outage {s : Shared κ} (hs : Agrees initial s) (o : Outage κ) :
    Agrees initial (outage s o) := by
  intro path hpath
  simpa [AtomicFile.outage, Shared.record, Register.apply] using
    (hs path hpath).lose o.back o.torn

end Frames

/-! ## Every interleaving -/

section Runs

variable [Inhabited κ] {initial : Disk Path κ}

/-- A step keeps what the targets show, and what the call that takes it relies on. -/
theorem own_step {s : Shared κ} {p : Position κ} {next : Shared κ × Option (Position κ)}
    (hs : Agrees initial s) (hp : Underway s p) (hdid : Did s p next) :
    Agrees initial next.1 ∧ ∀ q, next.2 = some q → Underway next.1 q := by
  cases hdid with
  | died p => exact ⟨hs, nowhere⟩
  | opened w random hfree =>
    have htemp := isTemp_tempPath w.path random
    refine ⟨fun path hpath => (hs path hpath).create_ne (ne_of_isTemp hpath htemp) default, ?_⟩
    rintro q ⟨⟩
    refine ⟨hp, htemp, by simp [Disk.create, Disk.enter], ?_, ?_⟩
    · -- the new file has a number that no name stood for
      intro path hpath hmem
      have hne := ne_of_isTemp hpath htemp
      have hold : some s.disk.files.length ∈ s.disk.names path :: s.disk.earlier path := by
        simpa [Disk.create, Disk.enter, hne] using hmem
      exact absurd ((hs path hpath).found hold) (Nat.lt_irrefl _)
    · exact ⟨_, Disk.files_create_new s.disk _ default, (fun h => by cases h), fun h => by cases h⟩
  | refused w => exact ⟨hs.failed w, nowhere⟩
  | passed stage stage' w tmp f hwritten hsynced =>
    refine ⟨hs, ?_⟩
    rintro q ⟨⟩
    obtain ⟨file, hfile, hcontent, hflushed⟩ := hp.file
    exact ⟨hp.target, hp.temp, hp.named, hp.hidden, file, hfile,
      fun h => hcontent (hwritten h), fun h => hflushed (hsynced h)⟩
  | wrote stage w tmp f content hwritten hsynced =>
    -- the file is written while no target stands for it
    refine ⟨fun path hpath => (hs path hpath).write (hp.hidden path hpath) content, ?_⟩
    rintro q ⟨⟩
    obtain ⟨file, hfile, -⟩ := hp.file
    refine ⟨hp.target, hp.temp, hp.named, hp.hidden, _, Disk.files_write_self hfile content,
      hwritten, fun h => ?_⟩
    rw [hsynced] at h
    cases h
  | flushed w tmp f =>
    refine ⟨fun path hpath => (hs path hpath).flush f, ?_⟩
    rintro q ⟨⟩
    obtain ⟨file, hfile, hcontent, -⟩ := hp.file
    exact ⟨hp.target, hp.temp, hp.named, hp.hidden, _, Disk.files_flush_self hfile,
      fun _ => hcontent rfl, fun _ => rfl⟩
  -- the one step that targets see
  | renamed w tmp f => exact ⟨hs.renamed hp, nowhere⟩
  | removed w tmp f => exact ⟨(hs.enter_temp hp.temp none).failed w, nowhere⟩
  | left w tmp f => exact ⟨hs.failed w, nowhere⟩

/-- It leaves every other call what that one relies on. -/
theorem other_step {s : Shared κ} {p q : Position κ} {next : Shared κ × Option (Position κ)}
    (hp : Underway s p) (hdid : Did s p next) (hq : Underway s q) (hapart : Apart p q) :
    Underway next.1 q ∧ ∀ r, next.2 = some r → Apart r q := by
  cases q with
  | opening v =>
    refine ⟨hq, fun r _ => ?_⟩
    intro x _ y hy
    cases hy
  | under stage' v tmp' g =>
    cases hdid with
    | died p => exact ⟨hq, nowhere⟩
    | opened w random hfree =>
      refine ⟨hq.create hfree (isTemp_tempPath w.path random) default, ?_⟩
      rintro r ⟨⟩ x ⟨⟩ y ⟨⟩
      -- the name that was drawn was free, and the file is numbered behind every other
      refine ⟨?_, ?_⟩
      · rintro rfl
        have hnamed := hq.named
        rw [hfree] at hnamed
        cases hnamed
      · obtain ⟨file, hfile, -⟩ := hq.file
        have := (List.getElem?_eq_some_iff.mp hfile).1
        omega
    | refused w => exact ⟨hq, nowhere⟩
    | passed stage stage' w tmp f =>
      refine ⟨hq, ?_⟩
      rintro r ⟨⟩
      exact hapart
    | wrote stage w tmp f content =>
      have hfiles : f ≠ g := (hapart _ rfl _ rfl).2
      refine ⟨hq.write_ne hfiles.symm content, ?_⟩
      rintro r ⟨⟩
      exact hapart
    | flushed w tmp f =>
      refine ⟨hq.flush f, ?_⟩
      rintro r ⟨⟩
      exact hapart
    | renamed w tmp f =>
      obtain ⟨htmp, hfiles⟩ : tmp ≠ tmp' ∧ f ≠ g := hapart _ rfl _ rfl
      have hentry : s.disk.names tmp ≠ some g := by
        rw [hp.named]
        simpa using hfiles
      have hmoved := hq.enter (ne_of_isTemp hp.target hq.temp).symm hentry
      exact ⟨hmoved.enter htmp.symm (by simp), nowhere⟩
    | removed w tmp f =>
      obtain ⟨htmp, -⟩ : tmp ≠ tmp' ∧ f ≠ g := hapart _ rfl _ rfl
      exact ⟨hq.enter htmp.symm (by simp), nowhere⟩
    | left w tmp f => exact ⟨hq, nowhere⟩

/-- **Every step of every call keeps what the others rely on.** -/
theorem invariants : (calls initial).Invariants (Agrees initial) Underway Apart where
  symm p q h x hx y hy := ⟨(h y hy x hx).1.symm, (h y hy x hx).2.symm⟩
  start s h := by
    obtain ⟨rfl, hsettled⟩ := h
    exact fun path _ => hsettled.shows path
  arrive s p _ harrives := by
    cases p with
    | opening w =>
      have htarget : w.path.isTemp = false := by simpa [calls] using harrives
      exact ⟨htarget, fun q _ x hx => nomatch hx⟩
    | under => cases harrives
  own s p a next hs hp hadvance := own_step hs hp (advance_did hadvance)
  other s p a next q _ hp hadvance hq hapart _ :=
    other_step hp (advance_did hadvance) hq hapart
  environment s e t hs henvironment := by
    cases e with
    | settles name =>
      cases henvironment
      refine ⟨fun path hpath => ?_, fun p hp => ?_⟩
      · by_cases hsame : path = name
        · subst hsame
          simpa [Shared.record, Register.apply] using (hs _ hpath).settle
        · simpa [Shared.record, Register.apply, hsame] using (hs path hpath).settle_ne hsame
      · cases p with
        | opening w => exact hp
        | under stage w tmp f => exact hp.settle name
    | flushes g =>
      cases henvironment
      refine ⟨fun path hpath => (hs path hpath).flush g, fun p hp => ?_⟩
      cases p with
      | opening w => exact hp
      | under stage w tmp f => exact hp.flush g

end Runs

/-! ## Two processes -/

/-- `settings.json` -/
def settingsFile : Path := ⟨"mq-studio".toList, "settings.json".toList⟩

end MqStudio.Storage.AtomicFile
