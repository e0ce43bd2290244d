import Mathlib.Data.List.Forall2
import Mathlib.Logic.Function.Basic

/-!
# A Disk That Loses Power

Files are numbered, and names stand for files. Programs see every change at once; the medium lags
behind them. What a file holds is sure to be on it once the file was flushed, and until then a loss
of power leaves anything at all. A name may come back as anything it stood for since the medium last
caught up with it, each name by itself.

## Main definitions

- `Disk`: what programs see, and what the medium may still have.
- `Disk.lose`: a loss of power.
- `Disk.Shows`: what a name shows now and may come to show.

## Main results

- `Shows.lookup`, `Shows.lose`: what is seen under a name, before and after a loss of power.
- `Shows.enter`: a flushed file under a name is seen whole from then on.
- `Shows.frame`: what happens to other names and other files is not seen.
-/

namespace MqStudio.Lib

universe u v

/-- What a file holds, and whether all of it is on the medium. -/
structure File (κ : Type v) where
  content : κ
  flushed : Bool
deriving DecidableEq

/-- Files by number, and what names stand for: now, and before the medium last caught up, latest
    first. -/
structure Disk (ν : Type u) (κ : Type v) where
  files : List (File κ)
  names : ν → Option Nat
  earlier : ν → List (Option Nat)

/-- One of what was there, counted from the latest; the latest where there were not so many. -/
def pickBack {α : Type u} (back : Nat) (now : α) (earlier : List α) : α :=
  (now :: earlier)[back]?.getD now

theorem pickBack_mem {α : Type u} (back : Nat) (now : α) (earlier : List α) :
    pickBack back now earlier ∈ now :: earlier := by
  unfold pickBack
  cases hpicked : (now :: earlier)[back]? with
  | none => exact List.mem_cons_self
  | some x => exact List.mem_of_getElem? hpicked

namespace Disk

variable {ν : Type u} {κ : Type v}

/-- What is held by what a name stands for. -/
def contentOf (d : Disk ν κ) : Option Nat → Option κ
  | none => none
  | some f => d.files[f]?.map File.content

/-- What a program sees under a name. -/
def lookup (d : Disk ν κ) (name : ν) : Option κ := d.contentOf (d.names name)

/-- The medium has everything. -/
structure Settled (d : Disk ν κ) : Prop where
  flushed : ∀ file ∈ d.files, file.flushed = true
  caughtUp : ∀ name, d.earlier name = []
  found : ∀ name f, d.names name = some f → f < d.files.length

/-! ## Operations -/

section Operations

variable [DecidableEq ν]

/-- A name comes to stand for something else. -/
def enter (d : Disk ν κ) (name : ν) (entry : Option Nat) : Disk ν κ :=
  { d with
    names := Function.update d.names name entry
    earlier := Function.update d.earlier name (d.names name :: d.earlier name) }

/-- A new file under a name. -/
def create (d : Disk ν κ) (name : ν) (content : κ) : Disk ν κ :=
  { d.enter name (some d.files.length) with files := d.files ++ [⟨content, false⟩] }

/-- What a file holds is replaced. -/
def write (d : Disk ν κ) (f : Nat) (content : κ) : Disk ν κ :=
  { d with files := d.files.modify f fun _ => ⟨content, false⟩ }

/-- A file is brought to the medium. -/
def flush (d : Disk ν κ) (f : Nat) : Disk ν κ :=
  { d with files := d.files.modify f fun file => { file with flushed := true } }

/-- A name is removed. What it stood for is not: it may be under another name, or open. -/
def remove (d : Disk ν κ) (name : ν) : Disk ν κ := d.enter name none

/-- A file is moved over what another name stands for. -/
def move (d : Disk ν κ) (source target : ν) : Disk ν κ :=
  (d.enter target (d.names source)).enter source none

/-- The medium catches up with a name. -/
def settle (d : Disk ν κ) (name : ν) : Disk ν κ :=
  { d with earlier := Function.update d.earlier name [] }

end Operations

/-- A file after a loss of power. -/
def tear (torn : Nat → κ) (f : Nat) (file : File κ) : File κ :=
  if file.flushed then file else ⟨torn f, true⟩

/-- **A loss of power**: every name goes back by as much as it happens to, and a file that was not
    flushed holds anything. -/
def lose (d : Disk ν κ) (back : ν → Nat) (torn : Nat → κ) : Disk ν κ where
  files := d.files.mapIdx (tear torn)
  names name := pickBack (back name) (d.names name) (d.earlier name)
  earlier _ := []

/-! ## Files under operations -/

section Files

variable {d : Disk ν κ} {f g : Nat} {file : File κ}

theorem files_write_ne (h : g ≠ f) (content : κ) :
    (d.write f content).files[g]? = d.files[g]? := by
  simp [write, Ne.symm h]

theorem files_write_self (h : d.files[f]? = some file) (content : κ) :
    (d.write f content).files[f]? = some ⟨content, false⟩ := by
  simp [write, h]

theorem files_flush_ne (h : g ≠ f) : (d.flush f).files[g]? = d.files[g]? := by
  simp [flush, Ne.symm h]

theorem files_flush_self (h : d.files[f]? = some file) :
    (d.flush f).files[f]? = some { file with flushed := true } := by
  simp [flush, h]

/-- Flushing changes nothing of what a flushed file is. -/
theorem files_flush_flushed (h : d.files[g]? = some file) (hflushed : file.flushed = true) :
    (d.flush f).files[g]? = some file := by
  by_cases hg : g = f
  · subst hg
    rw [files_flush_self h, ← hflushed]
  · rw [files_flush_ne hg, h]

theorem files_lose (h : d.files[f]? = some file) (hflushed : file.flushed = true)
    (back : ν → Nat) (torn : Nat → κ) : (d.lose back torn).files[f]? = some file := by
  simp [lose, h, tear, hflushed]

variable [DecidableEq ν]

theorem files_create (h : d.files[f]? = some file) (name : ν) (content : κ) :
    (d.create name content).files[f]? = some file := by
  simp only [create]
  rw [List.getElem?_append_left (List.getElem?_eq_some_iff.mp h).1, h]

theorem files_create_new (d : Disk ν κ) (name : ν) (content : κ) :
    (d.create name content).files[d.files.length]? = some ⟨content, false⟩ := by
  simp [create]

@[simp] theorem files_enter (d : Disk ν κ) (name : ν) (entry : Option Nat) :
    (d.enter name entry).files = d.files := rfl

@[simp] theorem files_settle (d : Disk ν κ) (name : ν) : (d.settle name).files = d.files := rfl

end Files

/-! ## What a name shows -/

/-- A name that stands for this shows `content`, and does so after a loss of power. -/
def Solid (d : Disk ν κ) : Option Nat → Option κ → Prop
  | none, content => content = none
  | some f, content =>
    ∃ file, d.files[f]? = some file ∧ file.flushed = true ∧ content = some file.content

/-- **What a name shows** now, and what it may come to show, latest first. -/
structure Shows (d : Disk ν κ) (name : ν) (now : Option κ) (earlier : List (Option κ)) :
    Prop where
  now : d.Solid (d.names name) now
  earlier : List.Forall₂ d.Solid (d.earlier name) earlier

section Shown

variable {d d' : Disk ν κ} {name : ν} {entry : Option Nat} {content now : Option κ}
  {earlier : List (Option κ)}

theorem Solid.contentOf (h : d.Solid entry content) : d.contentOf entry = content := by
  cases entry with
  | none => exact h.symm
  | some f =>
    obtain ⟨file, hfile, -, rfl⟩ := h
    simp [Disk.contentOf, hfile]

/-- A flushed file stays what it is as long as nobody writes to it. -/
theorem Solid.frame (h : d.Solid entry content)
    (hfiles : ∀ f file, entry = some f → d.files[f]? = some file → file.flushed = true →
      d'.files[f]? = some file) : d'.Solid entry content := by
  cases entry with
  | none => exact h
  | some f =>
    obtain ⟨file, hfile, hflushed, hcontent⟩ := h
    exact ⟨file, hfiles f file rfl hfile hflushed, hflushed, hcontent⟩

theorem Solid.lose (h : d.Solid entry content) (back : ν → Nat) (torn : Nat → κ) :
    (d.lose back torn).Solid entry content :=
  h.frame fun _ _ _ hfile hflushed => files_lose hfile hflushed back torn

/-- What is seen under the name. -/
theorem Shows.lookup (h : d.Shows name now earlier) : d.lookup name = now :=
  h.now.contentOf

/-- **What is not done to the name, or to a file it may stand for, is not seen under it.** -/
theorem Shows.frame (h : d.Shows name now earlier) (hnames : d'.names name = d.names name)
    (hearlier : d'.earlier name = d.earlier name)
    (hfiles : ∀ f file, some f ∈ d.names name :: d.earlier name → d.files[f]? = some file →
      file.flushed = true → d'.files[f]? = some file) : d'.Shows name now earlier := by
  refine ⟨?_, ?_⟩
  · rw [hnames]
    apply h.now.frame
    intro f file hf
    exact hfiles f file (hf ▸ List.mem_cons_self)
  · rw [hearlier]
    have hmem := (List.forall₂_and_left _ _).mpr ⟨fun _ hentry => hentry, h.earlier⟩
    apply hmem.imp
    intro entry content hboth
    apply hboth.2.frame
    intro f file hf
    exact hfiles f file (hf ▸ List.mem_cons_of_mem _ hboth.1)

/-- What a name may stand for is there. -/
theorem Shows.found (h : d.Shows name now earlier) {f : Nat}
    (hmem : some f ∈ d.names name :: d.earlier name) : f < d.files.length := by
  have hsolid : ∃ content, d.Solid (some f) content := by
    rcases List.mem_cons.mp hmem with hnow | hearlier
    · exact ⟨now, hnow ▸ h.now⟩
    · obtain ⟨i, hi, hget⟩ := List.getElem_of_mem hearlier
      have hi' : i < earlier.length := h.earlier.length_eq ▸ hi
      have hsolid := h.earlier.get hi hi'
      rw [List.get_eq_getElem, hget] at hsolid
      exact ⟨_, hsolid⟩
  obtain ⟨content, file, hfile, -⟩ := hsolid
  exact (List.getElem?_eq_some_iff.mp hfile).1

/-- What comes back of what was shown is what was picked. -/
theorem solid_pickBack {entries : List (Option Nat)} (hnow : d.Solid entry now)
    (hearlier : List.Forall₂ d.Solid entries earlier) (back : Nat) :
    d.Solid (pickBack back entry entries) (pickBack back now earlier) := by
  have hall : List.Forall₂ d.Solid (entry :: entries) (now :: earlier) := .cons hnow hearlier
  unfold pickBack
  by_cases hback : back < (entry :: entries).length
  · have hback' : back < (now :: earlier).length := hall.length_eq ▸ hback
    rw [List.getElem?_eq_getElem hback, List.getElem?_eq_getElem hback']
    exact hall.get hback hback'
  · have hback' : ¬ back < (now :: earlier).length := hall.length_eq ▸ hback
    rw [List.getElem?_eq_none (Nat.le_of_not_lt hback), List.getElem?_eq_none (Nat.le_of_not_lt hback')]
    exact hnow

/-- **After a loss of power** a name shows one of the things it had shown. -/
theorem Shows.lose (h : d.Shows name now earlier) (back : ν → Nat) (torn : Nat → κ) :
    (d.lose back torn).Shows name (pickBack (back name) now earlier) [] :=
  ⟨(solid_pickBack h.now h.earlier _).lose back torn, .nil⟩

variable [DecidableEq ν]

/-- **A name that comes to stand for a flushed file** shows it whole. -/
theorem Shows.enter (h : d.Shows name now earlier) (hentry : d.Solid entry content) :
    (d.enter name entry).Shows name content (now :: earlier) where
  now := by
    have hname : (d.enter name entry).names name = entry := by simp [Disk.enter]
    rw [hname]
    exact hentry.frame fun _ _ _ hfile _ => hfile
  earlier := by
    have hsame : (d.enter name entry).earlier name = d.names name :: d.earlier name := by
      simp [Disk.enter]
    rw [hsame]
    exact .cons h.now h.earlier

theorem Shows.enter_ne (h : d.Shows name now earlier) {other : ν} (hne : name ≠ other)
    (entry : Option Nat) : (d.enter other entry).Shows name now earlier := by
  apply h.frame
  · simp [Disk.enter, hne]
  · simp [Disk.enter, hne]
  · intro f file _ hfile _
    exact hfile

theorem Shows.create_ne (h : d.Shows name now earlier) {other : ν} (hne : name ≠ other)
    (content : κ) : (d.create other content).Shows name now earlier := by
  apply h.frame
  · simp [Disk.create, Disk.enter, hne]
  · simp [Disk.create, Disk.enter, hne]
  · intro f file _ hfile _
    exact files_create hfile other content

theorem Shows.settle (h : d.Shows name now earlier) : (d.settle name).Shows name now [] where
  now := h.now
  earlier := by simp [Disk.settle]

theorem Shows.settle_ne (h : d.Shows name now earlier) {other : ν} (hne : name ≠ other) :
    (d.settle other).Shows name now earlier := by
  apply h.frame
  · rfl
  · simp [Disk.settle, hne]
  · intro f file _ hfile _
    exact hfile

omit [DecidableEq ν] in
/-- Writing to a file the name does not stand for is not seen under it. -/
theorem Shows.write (h : d.Shows name now earlier) {f : Nat}
    (hprivate : some f ∉ d.names name :: d.earlier name) (content : κ) :
    (d.write f content).Shows name now earlier := by
  apply h.frame
  · rfl
  · rfl
  · intro g file hg hfile _
    have hne : g ≠ f := by
      rintro rfl
      exact hprivate hg
    rw [files_write_ne hne, hfile]

omit [DecidableEq ν] in
theorem Shows.flush (h : d.Shows name now earlier) (f : Nat) :
    (d.flush f).Shows name now earlier := by
  apply h.frame
  · rfl
  · rfl
  · intro g file _ hfile hflushed
    exact files_flush_flushed hfile hflushed

omit [DecidableEq ν] in
/-- Where the medium has everything, every name shows what is seen under it. -/
theorem Settled.shows (h : d.Settled) (name : ν) : d.Shows name (d.lookup name) [] where
  now := by
    unfold Disk.lookup
    cases hname : d.names name with
    | none => rfl
    | some f =>
      have hf := h.found name f hname
      refine ⟨d.files[f], List.getElem?_eq_getElem hf, h.flushed _ (List.getElem_mem hf), ?_⟩
      simp [Disk.contentOf, List.getElem?_eq_getElem hf]
  earlier := by
    rw [h.caughtUp name]
    exact .nil

end Shown

end Disk

end MqStudio.Lib
