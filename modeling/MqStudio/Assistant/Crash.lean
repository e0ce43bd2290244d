import MqStudio.Assistant.Archive
import MqStudio.Lib.Machine

/-!
# The History List across a Crash

`Save` writes a conversation and then the index, `Delete` writes the index and then removes the
conversation. A crash between the two leaves an index that is readable and no longer what the files
say, and it is not built again: it is built again only where it is missing or unreadable.

## Main definitions

- `Survives`: an archive opened again lists what is there, and can clear it out.
- `Torn`: the crash falls between the two file operations that have to agree.

## Main results

- `survives_crash_iff`: the history list survives exactly the crashes that tear nothing.
-/

namespace MqStudio.Assistant

open MqStudio.Lib
open MqStudio.Lib.TreeMap

namespace Archive

/-! ## What the files say -/

section Files

variable {files : Map String (Stored Record)} {id : String} {r : Record}

theorem entryOf_eq_some_iff {e : Entry} :
    entryOf files id = some e ↔ ∃ r, loadFrom files id = .ok r ∧ e = r.entry := by
  unfold entryOf
  cases loadFrom files id with
  | error err => simp
  | ok r => simp [eq_comm]

/-- A conversation that is read back has an id of the right shape, and a file. -/
theorem loadFrom_ok (h : loadFrom files id = .ok r) :
    isArchivedID id = true ∧ files[id]? = some (.sealed (sessionField id) r) ∧
      r.version ≤ archiveVersion := by
  unfold loadFrom at h
  split at h
  · cases h
  · rename_i hid
    simp only [Bool.not_eq_true, Bool.not_eq_false'] at hid
    cases hfile : files[id]? with
    | none => simp [hfile, readSealed] at h
    | some stored =>
      cases stored with
      | damaged => simp [hfile, readSealed] at h
      | sealed field value =>
        simp only [hfile, readSealed] at h
        by_cases hfield : field = sessionField id
        · simp only [if_pos hfield] at h
          split at h
          · cases h
          · rename_i hversion
            cases h
            exact ⟨by simpa using hid, by rw [hfield], Nat.not_lt.mp hversion⟩
        · simp [if_neg hfield] at h

@[simp] theorem getElem?_rebuilt : (rebuilt files)[id]? = entryOf files id := by
  rw [rebuilt, Std.ExtTreeMap.getElem?_filterMap']
  cases hfile : files[id]? with
  | some stored => rfl
  | none =>
    cases hentry : entryOf files id with
    | none => rfl
    | some e =>
      obtain ⟨r, hload, -⟩ := entryOf_eq_some_iff.mp hentry
      rw [(loadFrom_ok hload).2.1] at hfile
      cases hfile

/-- What a saved conversation is read back as. -/
theorem entryOf_insert (hid : isArchivedID r.id = true) (other : String) :
    entryOf (files.insert r.id
        (.sealed (sessionField r.id) { r with version := archiveVersion })) other =
      if r.id = other then some r.entry else entryOf files other := by
  by_cases hother : r.id = other
  · subst hother
    simp [entryOf, loadFrom, hid, readSealed, Record.entry, Record.summary]
  · rw [if_neg hother, entryOf, loadFrom, getElem?_insert_of_ne _ _ hother]
    rfl

theorem entryOf_erase (other : String) :
    entryOf (files.erase id) other = if id = other then none else entryOf files other := by
  by_cases hother : id = other
  · subst hother
    rw [if_pos rfl]
    cases hid : isArchivedID id <;> simp [entryOf, loadFrom, hid, readSealed]
  · rw [if_neg hother, entryOf, loadFrom, getElem?_erase_of_ne _ hother]
    rfl

end Files

/-- An index shows of each conversation what its file says. -/
def Agrees (index : Index) (files : Map String (Stored Record)) : Prop :=
  ∀ id : String, (index[id]?).map Entry.summary = (entryOf files id).map Entry.summary

/-- The index a file opens to, or the one built from the conversations. -/
def onDisk (a : Archive) : Index :=
  match readSealed indexField a.indexFile with
  | .value entries => collect Entry.id entries
  | _ => rebuilt a.files

/-- The index an operation works on. -/
def loaded (a : Archive) : Index := a.index.getD a.onDisk

/-- The index file opens. -/
def readable (a : Archive) : Bool :=
  match readSealed indexField a.indexFile with
  | .value _ => true
  | _ => false

/-- How many file operations loading the index takes: one where it is built again. -/
def opening (a : Archive) : Nat :=
  if a.index.isNone && !a.readable && !(rebuilt a.files).isEmpty then 1 else 0

/-- The archive once its index is loaded. -/
def opened (a : Archive) : Archive :=
  { a with
    index := some a.loaded
    indexFile :=
      if a.opening = 1 then some (.sealed indexField (values a.loaded)) else a.indexFile }

/-- **Loading the index**, in one equation. -/
theorem loadIndex_eq (a : Archive) (n : Nat) :
    a.loadIndex n =
      if n < a.opening then (a, none) else (a.opened, some (a.loaded, n - a.opening)) := by
  cases hindex : a.index with
  | some index =>
    have hopening : a.opening = 0 := by simp [opening, hindex]
    have hloaded : a.loaded = index := by simp [loaded, hindex]
    simp only [loadIndex, hindex, hopening, opened, hloaded, Nat.not_lt_zero, if_false,
      Nat.sub_zero, Nat.zero_ne_one]
    rw [← hindex]
  | none =>
    have hloaded : a.loaded = a.onDisk := by simp [loaded, hindex]
    cases hread : readSealed indexField a.indexFile with
    | value entries =>
      have hopening : a.opening = 0 := by simp [opening, readable, hread]
      have hdisk : a.onDisk = collect Entry.id entries := by simp [onDisk, hread]
      simp [loadIndex, hindex, hread, hopening, opened, hloaded, hdisk]
    | _ =>
      have hdisk : a.onDisk = rebuilt a.files := by simp [onDisk, hread]
      cases hempty : (rebuilt a.files).isEmpty with
      | true =>
        have hopening : a.opening = 0 := by simp [opening, hempty]
        simp [loadIndex, hindex, hread, hopening, opened, hloaded, hdisk, hempty]
      | false =>
        have hopening : a.opening = 1 := by simp [opening, hindex, readable, hread, hempty]
        cases n with
        | zero => simp [loadIndex, hindex, hread, hopening, hempty, writeIndex]
        | succ n =>
          simp [loadIndex, hindex, hread, hopening, opened, hloaded, hdisk, hempty, writeIndex]

/-! ## The states between file operations -/

/-- After the first write of `Save`. -/
def written (a : Archive) (r : Record) : Archive :=
  { a.opened with
    files := a.files.insert r.id
      (.sealed (sessionField r.id) { r with version := archiveVersion })
    index := some (a.loaded.insert r.id r.entry) }

/-- After the index in memory was written. -/
def indexed (a : Archive) : Archive :=
  { a with indexFile := some (.sealed indexField (values a.loaded)) }

/-- Before the first write of `Delete`. -/
def unlisted (a : Archive) (id : String) : Archive :=
  { a.opened with index := some (a.loaded.erase id) }

/-- A later write of the conversation is listed. -/
def superseded (a : Archive) (r : Record) : Bool :=
  (a.loaded[r.id]?).any fun kept => r.seq < kept.seq

/-- **Save**, by how many file operations happen. -/
theorem save_eq (a : Archive) (r : Record) (n : Nat) :
    (a.save r n).1 =
      if isArchivedID r.id = false ∨ n < a.opening then a
      else if a.superseded r = true ∨ n = a.opening then a.opened
      else if n = a.opening + 1 then a.written r
      else (a.written r).indexed := by
  unfold save
  by_cases hid : isArchivedID r.id = true
  · rw [loadIndex_eq]
    by_cases hn : n < a.opening
    · simp [hid, hn]
    · have hshape : ¬(isArchivedID r.id = false ∨ n < a.opening) := by simp [hid, hn]
      rw [if_neg (by simpa using hid), if_neg hn, if_neg hshape]
      by_cases hlater : a.superseded r = true
      · simp [superseded] at hlater ⊢
        simp [hlater]
      · have hlater' : ((a.loaded[r.id]?).any fun kept => decide (r.seq < kept.seq)) = false := by
          simpa [superseded] using hlater
        simp only [hlater', Bool.false_eq_true, if_false, hlater, false_or]
        -- what is left of the file operations once the index is loaded
        obtain ⟨left, rfl⟩ := Nat.exists_eq_add_of_le (Nat.not_lt.mp hn)
        rw [Nat.add_sub_cancel_left]
        cases left with
        | zero => simp
        | succ left =>
          cases left with
          | zero => simp [writeIndex, written, opened, Record.entry, Record.summary]
          | succ left =>
            have hmore : a.opening + (left + 1 + 1) ≠ a.opening + 1 := by omega
            rw [if_neg (by omega), if_neg hmore]
            rfl
  · simp only [Bool.not_eq_true] at hid
    simp [hid]

/-- **Delete**, by how many file operations happen. -/
theorem delete_eq (a : Archive) (id : String) (n : Nat) :
    (a.delete id n).1 =
      if isArchivedID id = false ∨ n < a.opening then a
      else if n = a.opening then a.unlisted id
      else if n = a.opening + 1 then (a.unlisted id).indexed
      else { (a.unlisted id).indexed with files := a.files.erase id } := by
  unfold delete
  by_cases hid : isArchivedID id = true
  · rw [loadIndex_eq]
    by_cases hn : n < a.opening
    · simp [hid, hn]
    · have hshape : ¬(isArchivedID id = false ∨ n < a.opening) := by simp [hid, hn]
      rw [if_neg (by simpa using hid), if_neg hn, if_neg hshape]
      obtain ⟨left, rfl⟩ := Nat.exists_eq_add_of_le (Nat.not_lt.mp hn)
      dsimp only
      rw [Nat.add_sub_cancel_left]
      cases left with
      | zero => simp [unlisted]
      | succ left =>
        cases left with
        | zero =>
          rw [if_neg (by omega), if_pos rfl]
          rfl
        | succ left =>
          rw [if_neg (by omega), if_neg (by omega)]
          rfl
  · simp only [Bool.not_eq_true] at hid
    simp [hid]

/-! ## Indexes that agree with the files -/

/-- Every conversation is filed under its id. -/
def Filed (a : Archive) : Prop := ∀ id r, a.load id = .ok r → r.id = id

/-- What an archive between two operations is: its index, in memory and on disk, shows what the
    files say. -/
structure Sound (a : Archive) : Prop where
  filed : a.Filed
  keyed : Keyed Entry.id a.loaded
  agrees : Agrees a.loaded a.files
  faithful : Agrees a.onDisk a.files

section Soundness

variable {a : Archive} {r : Record} {id : String}

theorem Filed.rebuilt (h : a.Filed) : Keyed Entry.id (rebuilt a.files) := by
  intro id e he
  rw [getElem?_rebuilt] at he
  obtain ⟨r, hload, rfl⟩ := entryOf_eq_some_iff.mp he
  exact h id r hload

/-- The index a directory opens to is keyed. -/
theorem Filed.onDisk (h : a.Filed) : Keyed Entry.id a.onDisk := by
  unfold Archive.onDisk
  split
  · exact keyed_collect Entry.id _
  · exact h.rebuilt

theorem agrees_rebuilt (files : Map String (Stored Record)) : Agrees (rebuilt files) files := by
  intro id
  rw [getElem?_rebuilt]

/-- Without a readable index the files speak for themselves. -/
theorem onDisk_of_not_readable (h : a.readable = false) : a.onDisk = rebuilt a.files := by
  unfold readable at h
  unfold onDisk
  cases hread : readSealed indexField a.indexFile with
  | value entries => simp [hread] at h
  | _ => rfl

/-- A written index is read back. -/
theorem onDisk_indexed (h : Keyed Entry.id a.loaded) : a.indexed.onDisk = a.loaded := by
  simp [onDisk, indexed, readSealed, collect_values h]

@[simp] theorem loaded_opened : a.opened.loaded = a.loaded := rfl

/-- Loading the index leaves what it opens to. -/
theorem onDisk_opened (h : Keyed Entry.id a.loaded) :
    a.opened.onDisk = if a.opening = 1 then a.loaded else a.onDisk := by
  by_cases hopening : a.opening = 1
  · simp [onDisk, opened, readSealed, hopening, collect_values h]
  · simp [onDisk, opened, hopening]

theorem Sound.opened (h : a.Sound) : a.opened.Sound where
  filed := h.filed
  keyed := h.keyed
  agrees := h.agrees
  faithful := by
    rw [onDisk_opened h.keyed]
    split
    · exact h.agrees
    · exact h.faithful

/-- An archive that was opened again is sound where its directory is. -/
theorem sound_reopen (hfiled : a.Filed) (hfaithful : Agrees a.onDisk a.files) :
    a.reopen.Sound where
  filed := hfiled
  keyed := hfiled.onDisk
  agrees := hfaithful
  faithful := hfaithful

/-- Writing the index makes an archive sound whose index in memory is right. -/
theorem sound_indexed {index : Index} (hindex : a.index = some index) (hfiled : a.Filed)
    (hkeyed : Keyed Entry.id index) (hagrees : Agrees index a.files) : a.indexed.Sound := by
  have hloaded : a.loaded = index := by simp [loaded, hindex]
  have hsame : a.indexed.loaded = index := by simp [loaded, indexed, hindex]
  have hkeyed' : Keyed Entry.id a.loaded := by rwa [hloaded]
  refine ⟨hfiled, by rwa [hsame], by rwa [hsame], ?_⟩
  rw [onDisk_indexed hkeyed', hloaded]
  exact hagrees

/-! ## What each operation leaves -/

theorem Filed.written (h : a.Filed) (hid : isArchivedID r.id = true) : (a.written r).Filed := by
  intro other kept hload
  have hsome : entryOf (a.written r).files other = some kept.entry :=
    entryOf_eq_some_iff.mpr ⟨kept, hload, rfl⟩
  simp only [Archive.written] at hsome
  rw [entryOf_insert hid] at hsome
  split at hsome
  · rename_i hother
    have hsame : r.entry = kept.entry := Option.some.inj hsome
    exact (congrArg Entry.id hsame).symm.trans hother
  · obtain ⟨old, hold, heq⟩ := entryOf_eq_some_iff.mp hsome
    exact (congrArg Entry.id heq).trans (h other old hold)

theorem Filed.erase (h : a.Filed) {b : Archive} (hfiles : b.files = a.files.erase id) :
    b.Filed := by
  intro other kept hload
  have hsome : entryOf b.files other = some kept.entry :=
    entryOf_eq_some_iff.mpr ⟨kept, hload, rfl⟩
  rw [hfiles, entryOf_erase] at hsome
  split at hsome
  · cases hsome
  · obtain ⟨old, hold, heq⟩ := entryOf_eq_some_iff.mp hsome
    exact (congrArg Entry.id heq).trans (h other old hold)

/-- The index with a conversation as it is saved agrees with the files it is saved in. -/
theorem Agrees.insert {index : Index} {files : Map String (Stored Record)}
    (h : Agrees index files) (hid : isArchivedID r.id = true) :
    Agrees (index.insert r.id r.entry) (files.insert r.id
      (.sealed (sessionField r.id) { r with version := archiveVersion })) := by
  intro other
  rw [getElem?_insert_ite, entryOf_insert hid]
  by_cases hother : r.id = other
  · rw [if_pos hother, if_pos hother]
  · rw [if_neg hother, if_neg hother]
    exact h other

theorem Agrees.erase {index : Index} {files : Map String (Stored Record)} (h : Agrees index files)
    (id : String) : Agrees (index.erase id) (files.erase id) := by
  intro other
  rw [entryOf_erase]
  by_cases hother : id = other
  · subst hother
    simp
  · rw [if_neg hother, getElem?_erase_of_ne _ hother]
    exact h other

/-- What is in memory after the first write of `Save` agrees with the files. -/
theorem Sound.written (h : a.Sound) (hid : isArchivedID r.id = true) :
    Keyed Entry.id (a.loaded.insert r.id r.entry) ∧
      Agrees (a.loaded.insert r.id r.entry) (a.written r).files :=
  ⟨h.keyed.insert r.entry, h.agrees.insert hid⟩

end Soundness

end Archive

/-! ## Runs -/

/-- `Save` or `Delete`. -/
inductive Operation where
  | save (r : Record)
  | delete (id : String)
  deriving DecidableEq

/-- An operation of which so many file operations happen. -/
def Archive.apply (a : Archive) (op : Operation) (n : Nat) : Archive :=
  match op with
  | .save r => (a.save r n).1
  | .delete id => (a.delete id n).1

/-- An operation is made whole, or the process ends in it and the archive is opened again. -/
inductive Use where
  | call (op : Operation)
  | crash (op : Operation) (n : Nat)
  deriving DecidableEq

/-- **The crash tears the archive**: the index is there and readable, and it shows something else
    than the conversation just written, or no longer shows the one that was still to be
    removed. -/
def Torn (a : Archive) : Operation → Nat → Prop
  | .save r, n =>
    isArchivedID r.id = true ∧ a.superseded r = false ∧ n = a.opening + 1 ∧
      a.opened.readable = true ∧ (a.loaded[r.id]?).map Entry.summary ≠ some r.summary
  | .delete id, n =>
    isArchivedID id = true ∧ n = a.opening + 1 ∧ (Archive.entryOf a.files id).isSome

instance (a : Archive) (op : Operation) (n : Nat) : Decidable (Torn a op n) := by
  cases op <;> exact inferInstanceAs (Decidable (_ ∧ _))

/-- No crash tears the archive. -/
def Untorn (a : Archive) : Use → Prop
  | .call _ => True
  | .crash op n => ¬ Torn a op n

instance (a : Archive) : (use : Use) → Decidable (Untorn a use)
  | .call _ => .isTrue trivial
  | .crash op n => inferInstanceAs (Decidable (¬ Torn a op n))

/-- The archive of one directory, from before anything was kept in it. -/
def archiveMachine : Machine Archive Use where
  start a := a.index = none ∧ a.indexFile = none ∧
    ∀ (id : String) (stored : Stored Record), a.files[id]? = some stored → stored = .damaged
  step a
    | .call op => some (a.apply op Archive.whole)
    | .crash op n => some (a.apply op n).reopen

/-! ## Whole operations -/

section Operations

variable {a : Archive} {op : Operation} {n : Nat}

theorem Archive.opening_le (a : Archive) : a.opening ≤ 1 := by
  unfold opening
  split <;> decide

/-- **A whole operation** leaves the index in agreement with the files. -/
theorem sound_apply (h : a.Sound) (op : Operation) : (a.apply op Archive.whole).Sound := by
  have hopening : a.opening + 1 < Archive.whole := by
    have := a.opening_le
    simp only [Archive.whole]
    omega
  cases op with
  | save r =>
    simp only [Archive.apply, Archive.save_eq]
    split
    · exact h
    · rename_i hid
      split
      · exact h.opened
      · rw [if_neg (by omega)]
        have hid' : isArchivedID r.id = true := by
          simpa using fun hbad => hid (.inl hbad)
        obtain ⟨hkeyed, hagrees⟩ := h.written hid'
        exact Archive.sound_indexed rfl (h.filed.written hid') hkeyed hagrees
  | delete id =>
    simp only [Archive.apply, Archive.delete_eq]
    split
    · exact h
    · rw [if_neg (by omega), if_neg (by omega)]
      have hfiled : Archive.Filed { a.unlisted id with files := a.files.erase id } :=
        h.filed.erase rfl
      exact Archive.sound_indexed (a := { a.unlisted id with files := a.files.erase id }) rfl hfiled
        (h.keyed.erase id) (h.agrees.erase id)

/-! ## Interrupted operations -/

/-- After the first write of `Save` the directory shows the conversation as it was saved, unless
    a readable index shows it as it was. -/
theorem agrees_written_iff (h : a.Sound) {r : Record} (hid : isArchivedID r.id = true) :
    Archive.Agrees (a.written r).onDisk (a.written r).files ↔
      ¬ (a.opened.readable = true ∧ (a.loaded[r.id]?).map Entry.summary ≠ some r.summary) := by
  cases hreadable : a.opened.readable with
  | false =>
    -- no index: it is built again from what is there
    have hsame : (a.written r).readable = false := hreadable
    rw [Archive.onDisk_of_not_readable hsame]
    simpa using Archive.agrees_rebuilt _
  | true =>
    have hdisk : (a.written r).onDisk = a.opened.onDisk := by
      unfold Archive.readable at hreadable
      unfold Archive.onDisk
      rw [show (a.written r).indexFile = a.opened.indexFile from rfl]
      cases hread : readSealed indexField a.opened.indexFile with
      | value entries => rfl
      | _ => simp [hread] at hreadable
    have hold : Archive.Agrees a.opened.onDisk a.files := h.opened.faithful
    simp only [true_and, not_not]
    rw [hdisk]
    constructor
    · intro hagrees
      have hr := hagrees r.id
      simp only [Archive.written] at hr
      rw [Archive.entryOf_insert hid, if_pos rfl, hold r.id, ← h.agrees r.id] at hr
      exact hr
    · intro hshown other
      simp only [Archive.written]
      rw [Archive.entryOf_insert hid, hold other]
      by_cases hother : r.id = other
      · subst hother
        rw [if_pos rfl, ← h.agrees r.id, hshown]
        rfl
      · rw [if_neg hother]

/-- After the first write of `Delete` it shows what is left, unless the conversation is there. -/
theorem agrees_unlisted_iff (h : a.Sound) (id : String) :
    Archive.Agrees (a.unlisted id).indexed.onDisk (a.unlisted id).indexed.files ↔
      ¬ (Archive.entryOf a.files id).isSome := by
  have hkeyed : Keyed Entry.id (a.unlisted id).loaded := h.keyed.erase id
  rw [Archive.onDisk_indexed hkeyed]
  have hloaded : (a.unlisted id).loaded = a.loaded.erase id := rfl
  have hfiles : (a.unlisted id).indexed.files = a.files := rfl
  rw [hloaded, hfiles]
  constructor
  · intro hagrees hsome
    have hid := hagrees id
    obtain ⟨e, he⟩ := Option.isSome_iff_exists.mp hsome
    simp [he] at hid
  · intro hnone other
    by_cases hother : id = other
    · subst hother
      simp only [Option.isSome_iff_ne_none, not_not] at hnone
      simp [hnone]
    · rw [getElem?_erase_of_ne _ hother]
      exact h.agrees other

/-- **A crash**: the directory still opens to an index that agrees with its files, unless the
    archive was torn. -/
theorem agrees_crash_iff (h : a.Sound) (op : Operation) (n : Nat) :
    Archive.Agrees (a.apply op n).onDisk (a.apply op n).files ↔ ¬ Torn a op n := by
  cases op with
  | save r =>
    simp only [Archive.apply, Archive.save_eq, Torn]
    split
    · rename_i hearly
      refine iff_of_true h.faithful fun htorn => ?_
      rcases hearly with hid | hn
      · simp [htorn.1] at hid
      · omega
    · rename_i hlate
      have hid : isArchivedID r.id = true := by simpa using fun hbad => hlate (.inl hbad)
      split
      · rename_i hskipped
        refine iff_of_true h.opened.faithful fun htorn => ?_
        rcases hskipped with hsuperseded | hn
        · simp [htorn.2.1] at hsuperseded
        · omega
      · rename_i hgoes
        have hcurrent : a.superseded r = false := by simpa using fun hbad => hgoes (.inl hbad)
        split
        · rename_i hn
          rw [agrees_written_iff h hid]
          simp [hid, hcurrent, hn]
        · rename_i hn
          obtain ⟨hkeyed, hagrees⟩ := h.written hid
          refine iff_of_true ?_ fun htorn => hn htorn.2.2.1
          exact (Archive.sound_indexed rfl (h.filed.written hid) hkeyed hagrees).faithful
  | delete id =>
    simp only [Archive.apply, Archive.delete_eq, Torn]
    split
    · rename_i hearly
      refine iff_of_true h.faithful fun htorn => ?_
      rcases hearly with hid | hn
      · simp [htorn.1] at hid
      · omega
    · rename_i hlate
      have hid : isArchivedID id = true := by simpa using fun hbad => hlate (.inl hbad)
      split
      · refine iff_of_true h.opened.faithful fun htorn => ?_
        omega
      · split
        · rename_i hn
          rw [agrees_unlisted_iff h id]
          simp [hid, hn]
        · rename_i hn
          have hwhole := sound_apply h (.delete id)
          refine iff_of_true ?_ fun htorn => hn htorn.2.1
          have hopening := a.opening_le
          simp only [Archive.apply, Archive.delete_eq, hid, Bool.true_eq_false, false_or] at hwhole
          rw [if_neg (by simp only [Archive.whole]; omega),
            if_neg (by simp only [Archive.whole]; omega),
            if_neg (by simp only [Archive.whole]; omega)] at hwhole
          exact hwhole.faithful

/-- Whatever happens of an operation, conversations are filed under their ids. -/
theorem filed_apply (h : a.Sound) (op : Operation) (n : Nat) : (a.apply op n).Filed := by
  cases op with
  | save r =>
    simp only [Archive.apply, Archive.save_eq]
    split
    · exact h.filed
    · rename_i hlate
      have hid : isArchivedID r.id = true := by simpa using fun hbad => hlate (.inl hbad)
      split
      · exact h.filed
      · split <;> exact h.filed.written hid
  | delete id =>
    simp only [Archive.apply, Archive.delete_eq]
    split
    · exact h.filed
    · split
      · exact h.filed
      · split
        · exact h.filed
        · exact h.filed.erase rfl

end Operations

/-- **Run lemma**: the archive is sound as long as no crash tears it. -/
theorem sound_reachable {a : Archive} (h : archiveMachine.Reachable Untorn a) : a.Sound := by
  apply h.invariant
  · rintro a ⟨hindex, hfile, hdamaged⟩
    -- nothing is kept yet, so there is nothing to list
    have hnone : ∀ id r, a.load id ≠ .ok r := by
      intro id r hload
      have hstored := (Archive.loadFrom_ok hload).2.1
      cases hdamaged id _ hstored
    have hreopened : a.reopen = a := by rw [Archive.reopen, ← hindex]
    rw [← hreopened]
    refine Archive.sound_reopen (fun id r hload => absurd hload (hnone id r)) ?_
    rw [Archive.onDisk_of_not_readable (by simp [Archive.readable, hfile, readSealed])]
    exact Archive.agrees_rebuilt _
  · intro a use t _ hsound hok hstep
    cases use with
    | call op =>
      cases hstep
      exact sound_apply hsound op
    | crash op n =>
      cases hstep
      exact Archive.sound_reopen (filed_apply hsound op n) ((agrees_crash_iff hsound op n).mpr hok)

/-! ## What survives -/

/-- An archive opened again over the directory lists exactly the conversations whose files are
    there and decrypt, each once and summarised from its file, so that `Prune` can delete every
    one past its retention. -/
structure Survives (a : Archive) : Prop where
  lists : ∃ listed, (a.reopen.list Archive.whole).2 = some listed ∧
    (listed.map Summary.id).Nodup ∧
    ∀ s, s ∈ listed ↔ ∃ id r, a.load id = .ok r ∧ s = r.summary
  prunes : ∀ cutoff keep id r, (a.reopen.prune cutoff keep).load id = .ok r →
    r.updated < cutoff → keep id = true

section Surviving

variable {a : Archive}

/-- What an archive opened again lists. -/
theorem list_reopen (a : Archive) :
    (a.reopen.list Archive.whole).2 = some ((values a.onDisk).map Entry.summary) := by
  have hopening : ¬ Archive.whole < a.reopen.opening := by
    have := a.reopen.opening_le
    simp only [Archive.whole]
    omega
  rw [Archive.list, Archive.loadIndex_eq, if_neg hopening]
  rfl

/-- What is listed is what the directory opens to. -/
theorem mem_list_iff (h : a.Filed) {s : Summary} :
    s ∈ (values a.onDisk).map Entry.summary ↔
      (a.onDisk[s.id]?).map Entry.summary = some s := by
  rw [List.mem_map]
  constructor
  · rintro ⟨e, hmem, rfl⟩
    obtain ⟨id, hid⟩ := mem_values.mp hmem
    have hkey : e.id = id := h.onDisk id e hid
    rw [show e.summary.id = id from hkey, hid]
    rfl
  · intro hsome
    obtain ⟨e, he, rfl⟩ := Option.map_eq_some_iff.mp hsome
    exact ⟨e, mem_values.mpr ⟨_, he⟩, rfl⟩

/-- The summary of the file of a conversation. -/
theorem exists_load_iff (h : a.Filed) {s : Summary} :
    (∃ id r, a.load id = .ok r ∧ s = r.summary) ↔
      (Archive.entryOf a.files s.id).map Entry.summary = some s := by
  constructor
  · rintro ⟨id, r, hload, rfl⟩
    have hkey : r.summary.id = id := h id r hload
    rw [hkey, Archive.entryOf_eq_some_iff.mpr ⟨r, hload, rfl⟩]
    rfl
  · intro hsome
    obtain ⟨e, he, hsummary⟩ := Option.map_eq_some_iff.mp hsome
    obtain ⟨r, hload, rfl⟩ := Archive.entryOf_eq_some_iff.mp he
    exact ⟨s.id, r, hload, hsummary.symm⟩

/-- The list is right exactly where the index a directory opens to agrees with its files. -/
theorem lists_iff (h : a.Filed) :
    (∃ listed, (a.reopen.list Archive.whole).2 = some listed ∧
        (listed.map Summary.id).Nodup ∧
        ∀ s, s ∈ listed ↔ ∃ id r, a.load id = .ok r ∧ s = r.summary) ↔
      Archive.Agrees a.onDisk a.files := by
  rw [list_reopen]
  constructor
  · rintro ⟨listed, hlisted, -, hmem⟩ id
    obtain rfl := Option.some.inj hlisted
    -- a summary is listed under an id exactly where the file under it says the same
    have hsame : ∀ s : Summary, s.id = id →
        ((a.onDisk[id]?).map Entry.summary = some s ↔
          (Archive.entryOf a.files id).map Entry.summary = some s) := by
      rintro s rfl
      rw [← mem_list_iff h, hmem s, exists_load_iff h]
    cases hdisk : (a.onDisk[id]?).map Entry.summary with
    | some s =>
      obtain ⟨e, he, rfl⟩ := Option.map_eq_some_iff.mp hdisk
      exact ((hsame e.summary (h.onDisk id e he)).mp hdisk).symm
    | none =>
      cases hfile : (Archive.entryOf a.files id).map Entry.summary with
      | none => rfl
      | some s =>
        obtain ⟨e, he, rfl⟩ := Option.map_eq_some_iff.mp hfile
        obtain ⟨r, hload, rfl⟩ := Archive.entryOf_eq_some_iff.mp he
        rw [(hsame r.summary (h id r hload)).mpr hfile] at hdisk
        cases hdisk
  · intro hagrees
    refine ⟨_, rfl, ?_, fun s => ?_⟩
    · rw [List.map_map]
      exact List.pairwise_map.mpr h.onDisk.values_pairwise
    · rw [mem_list_iff h, exists_load_iff h, hagrees s.id]

/-- Deleting removes a conversation and nothing else. -/
theorem delete_files {index : Index} (hindex : a.index = some index) {id : String}
    (hid : isArchivedID id = true) :
    (a.delete id Archive.whole).1.files = a.files.erase id ∧
      ∃ left, (a.delete id Archive.whole).1.index = some left := by
  have hopening : a.opening = 0 := by simp [Archive.opening, hindex]
  rw [Archive.delete_eq, hid, hopening]
  exact ⟨rfl, _, rfl⟩

/-- Deleting a list of conversations leaves none of them. -/
theorem load_deleted {index : Index} (hindex : a.index = some index) {ids : List String}
    {id : String} {r : Record}
    (h : (ids.foldl (fun left id => (left.delete id Archive.whole).1) a).load id = .ok r) :
    a.load id = .ok r ∧ id ∉ ids := by
  induction ids generalizing a index with
  | nil => exact ⟨h, List.not_mem_nil⟩
  | cons first rest ih =>
    rw [List.foldl_cons] at h
    cases hfirst : isArchivedID first with
    | false =>
      -- what is no conversation is left alone
      have hsame : (a.delete first Archive.whole).1 = a := by simp [Archive.delete_eq, hfirst]
      rw [hsame] at h
      obtain ⟨hload, hrest⟩ := ih hindex h
      refine ⟨hload, List.not_mem_cons_of_ne_of_not_mem (fun heq => ?_) hrest⟩
      have hid := (Archive.loadFrom_ok hload).1
      rw [heq, hfirst] at hid
      cases hid
    | true =>
      obtain ⟨hfiles, left, hleft⟩ := delete_files hindex hfirst
      obtain ⟨hload, hrest⟩ := ih hleft h
      have hstored := (Archive.loadFrom_ok hload).2.1
      rw [hfiles] at hstored
      have hne : first ≠ id := by
        rintro rfl
        simp at hstored
      refine ⟨?_, List.not_mem_cons_of_ne_of_not_mem hne.symm hrest⟩
      rw [Archive.load, hfiles] at hload
      rw [Archive.load, ← hload, Archive.loadFrom, Archive.loadFrom, getElem?_erase_of_ne _ hne]

/-- **Pruning**: what an agreeing index lists past its retention is deleted. -/
theorem prunes_of_agrees (hfiled : a.Filed) (h : Archive.Agrees a.onDisk a.files)
    (cutoff : Nat) (keep : String → Bool) {id : String} {r : Record}
    (hload : (a.reopen.prune cutoff keep).load id = .ok r) (hpast : r.updated < cutoff) :
    keep id = true := by
  have hopening : ¬ Archive.whole < a.reopen.opening := by
    have := a.reopen.opening_le
    simp only [Archive.whole]
    omega
  rw [Archive.prune, Archive.loadIndex_eq, if_neg hopening] at hload
  obtain ⟨hthere, hnot⟩ := load_deleted rfl hload
  cases hkeep : keep id with
  | true => rfl
  | false =>
    apply absurd _ hnot
    -- the index lists it as its file says
    have hentry := Archive.entryOf_eq_some_iff.mpr ⟨r, hthere, rfl⟩
    have hlisted := h id
    rw [show a.files = a.reopen.opened.files from rfl, hentry] at hlisted
    obtain ⟨e, he, hsummary⟩ := Option.map_eq_some_iff.mp hlisted
    have hlisted' : a.onDisk[id]? = some e := he
    have hid : e.id = id := hfiled.onDisk id e hlisted'
    have hupdated : e.summary.updated = r.updated := by
      rw [hsummary]
      rfl
    refine List.mem_map.mpr ⟨e, List.mem_filter.mpr ⟨mem_values.mpr ⟨id, hlisted'⟩, ?_⟩, hid⟩
    simp [hupdated, hpast, hid, hkeep]

/-- **The history list and a crash**: over every sequence of operations, an archive opened again
    after a crash lists what is there and can clear it out exactly when the crash tore nothing. -/
theorem survives_crash_iff (h : archiveMachine.Reachable Untorn a) (op : Operation) (n : Nat) :
    Survives (a.apply op n) ↔ ¬ Torn a op n := by
  have hsound := sound_reachable h
  have hfiled := filed_apply hsound op n
  rw [← agrees_crash_iff hsound]
  constructor
  · exact fun hsurvives => (lists_iff hfiled).mp hsurvives.lists
  · intro hagrees
    exact ⟨(lists_iff hfiled).mpr hagrees, fun cutoff keep id r hload hpast =>
      prunes_of_agrees hfiled hagrees cutoff keep hload hpast⟩

end Surviving

/-! ## A conversation deleted halfway -/

/-- A conversation that was answered. -/
def ordersRecord : Record where
  version := archiveVersion
  id := "0123456789ab"
  title := "orders"
  provider := "p"
  model := "m"
  connection := none
  created := 1
  updated := 2
  items := []
  usage := ⟨0, 0, 0, 0⟩
  answered := true
  said := []
  history := some []
  seq := 4
  accepted := []
  queued := []

/-- An empty directory. -/
def emptyArchive : Archive := ⟨∅, none, none⟩

/-- The directory with that conversation in it. -/
def ordersArchive : Archive := archiveMachine.endOf emptyArchive [.call (.save ordersRecord)]

theorem ordersArchive_reachable : archiveMachine.Reachable Untorn ordersArchive := by
  have hstart : archiveMachine.start emptyArchive := ⟨rfl, rfl, by simp [emptyArchive]⟩
  exact (Machine.Reachable.start hstart).endOf ⟨trivial, fun _ _ => trivial⟩

/-- A crash in a write of the index leaves the list as it was. -/
theorem survives_crash_iff_orders :
    Survives (ordersArchive.apply (.delete "0123456789ab") 0) :=
  (survives_crash_iff ordersArchive_reachable _ _).mpr (by decide +kernel)

/-- Between the index and the file of a conversation it is on disk and on no list. -/
theorem crash_hides_conversation :
    archiveMachine.Reachable Machine.Always ordersArchive ∧
      ¬ Survives (ordersArchive.apply (.delete "0123456789ab") 1) := by
  have hsound := sound_reachable ordersArchive_reachable
  refine ⟨ordersArchive_reachable.mono fun _ _ _ => trivial, fun hsurvives => ?_⟩
  have hagrees := (lists_iff (filed_apply hsound _ _)).mp hsurvives.lists
  exact (agrees_crash_iff hsound _ _).mp hagrees (by decide +kernel)

end MqStudio.Assistant
