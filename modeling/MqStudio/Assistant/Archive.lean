import MqStudio.Assistant.Conversation
import MqStudio.Lib.TreeMap

/-!
# The Archive

`internal/agent/assistant/archive.go`: each conversation is a file of its own, sealed for the
conversation it holds, and an index sealed the same way summarises them. The index is built again
from the files when it is missing or unreadable.

An operation makes a few file operations, each of which happens or does not. It is given how many
of them happen: the next one fails, or the process ends before it. A file is what its bytes open
to; several spellings of one are not told apart.

## Main definitions

- `Archive`: `save`, `load`, `list`, `delete` and the entries `prune` deletes.
- `listing`: what an archive opened over the same directory would list.
-/

namespace MqStudio.Assistant

open MqStudio.Lib
open MqStudio.Lib.TreeMap

/-! ## Records -/

/-- `record`: one conversation as it is written. -/
structure Record where
  version : Nat
  id : String
  title : String
  provider : String
  model : String
  connection : Option AuditConnection
  created : Nat
  updated : Nat
  items : List Item
  usage : Usage
  answered : Bool
  said : List String
  history : Option (List Message)
  seq : Nat
  /-- The texts that were accepted, and those of them no run had taken; neither is written, and no
      step reads them. -/
  accepted : List String
  queued : List String
  deriving DecidableEq

/-- `entry`: one conversation in the index. -/
structure Entry where
  summary : Summary
  seq : Nat
  deriving DecidableEq

/-- `archiveVersion` -/
def archiveVersion : Nat := 1

namespace Record

/-- The summary of a record. -/
def summary (r : Record) : Summary where
  id := r.id
  title := r.title
  provider := r.provider
  model := r.model
  connection := r.connection
  created := r.created
  updated := r.updated
  running := false
  held := false

/-- `entry` -/
def entry (r : Record) : Entry := ⟨r.summary, r.seq⟩

end Record

/-- The id an entry is kept under. -/
def Entry.id (e : Entry) : String := e.summary.id

/-- The index in memory. -/
abbrev Index := Map String Entry

/-! ## Files -/

/-- A file, as `readSealed` sees it: sealed for a field, or not readable at all. -/
inductive Stored (α : Type) where
  | sealed (field : String) (value : α)
  | damaged
  deriving DecidableEq

/-- What reading a file comes to. -/
inductive Reading (α : Type) where
  | missing
  | unreadable
  | value (a : α)
  deriving DecidableEq

/-- `readSealed` -/
def readSealed {α : Type} (field : String) : Option (Stored α) → Reading α
  | none => .missing
  | some .damaged => .unreadable
  | some (.sealed for' a) => if for' = field then .value a else .unreadable

/-- `sessionField` -/
def sessionField (id : String) : String := "agent/session/" ++ id

/-- `indexField` -/
def indexField : String := "agent/sessions"

/-- `archivedID`: twelve hexadecimal digits. -/
def isArchivedID (id : String) : Bool :=
  id.length = 12 && id.toList.all fun c => "0123456789abcdef".toList.contains c

/-- `Archive`: its directory, and the index once it is loaded. -/
structure Archive where
  files : Map String (Stored Record)
  indexFile : Option (Stored (List Entry))
  index : Option Index
  deriving DecidableEq

/-- Why a conversation was not read back. -/
inductive LoadError where
  /-- "%q is not a conversation" -/
  | notAConversation
  /-- `os.ErrNotExist` -/
  | missing
  | unreadable
  /-- "this conversation was saved by a newer version of this application" -/
  | newer
  deriving DecidableEq

namespace Archive

/-! ## Reading -/

/-- `Load`, from the files alone. -/
def loadFrom (files : Map String (Stored Record)) (id : String) : Except LoadError Record :=
  if !isArchivedID id then .error .notAConversation
  else
    match readSealed (sessionField id) files[id]? with
    | .missing => .error .missing
    | .unreadable => .error .unreadable
    | .value r => if archiveVersion < r.version then .error .newer else .ok r

/-- `Load` -/
def load (a : Archive) (id : String) : Except LoadError Record := loadFrom a.files id

/-- What `rebuildLocked` keeps of a file. -/
def entryOf (files : Map String (Stored Record)) (id : String) : Option Entry :=
  match loadFrom files id with
  | .ok r => some r.entry
  | .error _ => none

/-- `rebuildLocked`, up to writing the index: a conversation that does not decrypt is left out. -/
def rebuilt (files : Map String (Stored Record)) : Index :=
  files.filterMap fun id _ => entryOf files id

/-- `writeIndexLocked` -/
def writeIndex (a : Archive) (index : Index) : Nat → Archive × Bool
  | 0 => (a, false)
  | _ + 1 => ({ a with indexFile := some (.sealed indexField (values index)) }, true)

/-- `loadLocked`: the index, and how many of the file operations are left. -/
def loadIndex (a : Archive) (n : Nat) : Archive × Option (Index × Nat) :=
  match a.index with
  | some index => (a, some (index, n))
  | none =>
    match readSealed indexField a.indexFile with
    | .value entries =>
      let index := collect Entry.id entries
      ({ a with index := some index }, some (index, n))
    | _ =>
      let index := rebuilt a.files
      if index.isEmpty then ({ a with index := some index }, some (index, n))
      else
        let written := a.writeIndex index n
        if written.2 then ({ written.1 with index := some index }, some (index, n - 1))
        else (a, none)

/-! ## Operations -/

/-- `Save`: a later write of the conversation is left as it is. -/
def save (a : Archive) (r : Record) (n : Nat) : Archive × Bool :=
  if !isArchivedID r.id then (a, false)
  else
    match a.loadIndex n with
    | (opened, none) => (opened, false)
    | (opened, some (index, left)) =>
      if (index[r.id]?).any fun kept => r.seq < kept.seq then (opened, true)
      else
        match left with
        | 0 => (opened, false)
        | left + 1 =>
          let kept := { r with version := archiveVersion }
          let index := index.insert r.id kept.entry
          { opened with
            files := opened.files.insert r.id (.sealed (sessionField r.id) kept)
            index := some index }.writeIndex index left

/-- `List` -/
def list (a : Archive) (n : Nat) : Archive × Option (List Summary) :=
  match a.loadIndex n with
  | (opened, none) => (opened, none)
  | (opened, some (index, _)) => (opened, some ((values index).map Entry.summary))

/-- `Delete`: it leaves the list first. -/
def delete (a : Archive) (id : String) (n : Nat) : Archive × Bool :=
  if !isArchivedID id then (a, false)
  else
    match a.loadIndex n with
    | (opened, none) => (opened, false)
    | (opened, some (index, left)) =>
      let index := index.erase id
      match left with
      | 0 => ({ opened with index := some index }, false)
      | left + 1 =>
        let listed := ({ opened with index := some index }.writeIndex index (left + 1)).1
        match left with
        | 0 => (listed, false)
        | _ + 1 => ({ listed with files := listed.files.erase id }, true)

/-- What `Prune` deletes: every conversation last touched before the cutoff, except those it is to
    keep. -/
def expired (index : Index) (cutoff : Nat) (keep : String → Bool) : List String :=
  ((values index).filter fun e => e.summary.updated < cutoff && !keep e.id).map Entry.id

/-- How many file operations are enough for any one of these to be whole. -/
def whole : Nat := 3

/-- `Prune`, where no file operation fails. -/
def prune (a : Archive) (cutoff : Nat) (keep : String → Bool) : Archive :=
  match a.loadIndex whole with
  | (opened, none) => opened
  | (opened, some (index, _)) =>
    (expired index cutoff keep).foldl (fun left id => (left.delete id whole).1) opened

/-- `OpenArchive`, over the same directory. -/
def reopen (a : Archive) : Archive := { a with index := none }

end Archive

end MqStudio.Assistant
