import Mathlib.Algebra.Group.Nat.Defs
import MqStudio.Assistant.Run
import MqStudio.Lib.Threads

/-!
# The Manager

`internal/agent/assistant/session.go`: the conversations of the window, one run at a time, and the
calls the window makes. Each call is a thread that takes the manager's lock for one step at a
time; the run going is part of what the calls share. The process can end at any moment, and
another starts over the same directory.

A message's composing reads the settings and the stored connections, and comes with the call. The
order the conversations are listed in is left out.

## Main definitions

- `World`: what the calls share.
- `advance`: one step of a call.
- `World.runStep`: one step of the run going.
- `manager`: every interleaving of them, over every process.
-/

namespace MqStudio.Assistant

open MqStudio.Connection (Profiles)
open MqStudio.Lib
open MqStudio.Lib.TreeMap
open MqStudio.Storage (collapseSpace trimSpace)

/-! ## What the calls share -/

/-- What the calls share. The conversations and the run are the process's, the archive and the
    audit log are on disk. -/
structure World where
  settings : Option Settings
  connections : Profiles
  now : Nat
  /-- The journal's counter. -/
  calls : Nat
  sessions : Map String Session
  /-- `running`, and where its run stands. -/
  running : Option Run
  archive : Archive
  /-- How many conversations were put in memory, and the ids that were drawn. -/
  addresses : Nat
  drawn : List String
  /-- What the window was sent of conversations that were forgotten, what happened, and the
      conversations whose deletion returned without error; no step reads them. -/
  past : Map String (List Event)
  happened : List Happening
  deleted : List String
  deriving DecidableEq

namespace World

variable (w : World)

/-- What a run reads beside its conversation. -/
def surroundings : Surroundings := ⟨w.settings, w.connections, w.now, w.calls⟩

/-- The conversation is held. -/
def put (s : Session) : World := { w with sessions := w.sessions.insert s.id s }

/-- `m.running == s` -/
def isRunning (s : Session) : Bool := w.running.any fun r => r.address = s.address

/-- `heldLocked` -/
def held (id : String) (address : Nat) : Option Session :=
  match w.sessions[id]? with
  | none => none
  | some s => if s.address = address then some s else none

/-- `forgetLocked` -/
def forget (s : Session) : World :=
  { w with
    sessions := w.sessions.erase s.id
    past := w.past.insert s.id (s.emit .gone).sent }

/-- Every conversation but the one answering is forgotten. -/
def forgetOthers : World :=
  (values w.sessions).foldl (fun left s => if w.isRunning s then left else left.forget s) w

/-- The conversation read back is held. -/
def restore (kept : Record) : World :=
  { w with
    sessions := w.sessions.insert kept.id
      (fromRecord kept w.addresses ((w.past[kept.id]?).getD []))
    addresses := w.addresses + 1 }

/-- `startLocked` -/
def startRun (s : Session) : World :=
  { w.put s.starts with
    running := some (Run.new s)
    happened := .began s.address :: w.happened }

/-- `readyLocked` -/
def ready (s : Session) (settings : Settings) : Bool :=
  w.running.isNone && settings.consented.contains s.provider

/-- The conversation a new process finds in memory: none. -/
def restart : World :=
  { w with
    calls := 0
    sessions := ∅
    running := none
    archive := w.archive.reopen
    past := ∅ }

end World

/-! ## Calls -/

/-- What a call opens a conversation for. -/
inductive Purpose where
  | send (text composed : String) (about : Option AuditConnection) (settings : Settings)
  | carryOn (settings : Settings)
  | snapshot
  | rename (title : String)
  deriving DecidableEq

/-- Where a call stands: what its next step is. -/
inductive Errand where
  /-- `Start` -/
  | start (providerID : String)
  | adding (chosen : Provider)
  /-- `Send`, once it has composed the message. -/
  | send (id text composed : String) (about : Option AuditConnection)
  /-- `Continue` -/
  | carryOn (id : String)
  /-- `open` -/
  | opening (id : String) (purpose : Purpose)
  /-- `open`: the file is read. -/
  | loading (id : String) (purpose : Purpose)
  /-- `open`: what was read is held, unless the conversation is by now. -/
  | restoring (kept : Record) (purpose : Purpose)
  /-- What the conversation was opened for. -/
  | entering (id : String) (address : Nat) (purpose : Purpose)
  /-- `Rename`: the title it is given. -/
  | rename (id title : String)
  /-- `keep`: the settings are read. -/
  | keeping (kept : Record)
  /-- `keep`: the archive is written. -/
  | saving (kept : Record)
  | stop (id : String)
  | decide (id : String) (item : Nat) (decision : Decision)
  | delete (id : String)
  /-- `Delete`: the archive forgets it too. -/
  | removing (id : String)
  | clear
  /-- `Prune`: the settings are read. -/
  | prune
  /-- `Prune`: which conversation answers. -/
  | sparing (cutoff : Nat)
  /-- `Archive.Prune`: what is to go. -/
  | expiring (cutoff : Nat) (spared : Option String)
  | dropping (ids : List String)
  /-- `Sessions`, once it has pruned: the archive's list is read. -/
  | listing
  deriving DecidableEq

/-- What others decide in a step of a call. -/
inductive Say where
  /-- Nothing. -/
  | go
  /-- The id that is drawn. -/
  | draw (id : String)
  /-- How many file operations happen. -/
  | write (n : Nat)
  deriving DecidableEq

/-- The conversation is opened for what it was asked for. -/
def useSession (w : World) (s : Session) : Purpose → World × Option Errand
  | .send text composed about settings =>
    if w.ready s settings then (w.startRun (s.speaks w.now text composed about), none)
    else (w, none)
  | .carryOn settings =>
    if w.ready s settings && s.carriesOn then (w.startRun s, none) else (w, none)
  | .snapshot => (w, none)
  | .rename title =>
    let keep := !w.isRunning s && !s.items.isEmpty
    (w.put (s.renamed title), if keep then some (.keeping (s.renamed title).record) else none)

/-- One step of a call. -/
def advance (w : World) (p : Errand) (say : Say) : Option (World × Option Errand) :=
  match p with
  | .start providerID =>
    if say ≠ .go then none
    else
      match w.settings with
      | none => some (w, none)
      | some settings => some (w, (choose settings providerID).map .adding)
  | .adding chosen =>
    match say with
    | .draw id =>
      -- six random bytes are never drawn twice
      if !isArchivedID id || w.drawn.contains id || w.happened.any (Happening.isOf id) then none
      else
        some ({ w.put (newSession id w.addresses chosen w.now) with
          addresses := w.addresses + 1
          drawn := id :: w.drawn }, none)
    | _ => none
  | .send id text composed about =>
    if say ≠ .go then none
    else
      let text := trimSpace text
      if text = "" then some (w, none)
      else
        match w.settings with
        | none => some (w, none)
        | some settings => some (w, some (.opening id (.send text composed about settings)))
  | .carryOn id =>
    if say ≠ .go then none
    else
      match w.settings with
      | none => some (w, none)
      | some settings => some (w, some (.opening id (.carryOn settings)))
  | .rename id title =>
    if say ≠ .go then none
    else if collapseSpace title = "" then some (w, none)
    else some (w, some (.opening id (.rename (chosenTitle title))))
  | .opening id purpose =>
    if say ≠ .go then none
    else
      match w.sessions[id]? with
      | some s => some (w, some (.entering id s.address purpose))
      | none => some (w, some (.loading id purpose))
  | .loading id purpose =>
    if say ≠ .go then none
    else
      match w.archive.load id with
      | .error _ => some (w, none)
      | .ok kept => some (w, some (.restoring kept purpose))
  | .restoring kept purpose =>
    if say ≠ .go then none
    else
      match w.sessions[kept.id]? with
      | some s => some (w, some (.entering kept.id s.address purpose))
      | none => some (w.restore kept, some (.entering kept.id w.addresses purpose))
  | .entering id address purpose =>
    if say ≠ .go then none
    else
      match w.held id address with
      | none => some (w, none)
      | some s => some (useSession w s purpose)
  | .keeping kept =>
    if say ≠ .go then none
    else
      match w.settings with
      | none => some (w, none)
      | some settings => some (w, if settings.retention = 0 then none else some (.saving kept))
  | .saving kept =>
    match say with
    | .write n => some ({ w with archive := (w.archive.save kept n).1 }, none)
    | _ => none
  | .stop id =>
    if say ≠ .go then none
    else
      match w.sessions[id]?, w.running with
      | some s, some r =>
        if r.address = s.address then
          some ({ w with
            running := some { r with cancelled := true }
            happened := .stopped s.address :: w.happened }, none)
        else some (w, none)
      | _, _ => some (w, none)
  | .decide id item decision =>
    if say ≠ .go then none
    else
      match w.sessions[id]? with
      | none => some (w, none)
      | some s =>
        if s.asks.contains item then
          some ({ w.put (s.decides item decision) with
            happened := .decided s.address item decision :: w.happened }, none)
        else some (w, none)
  | .delete id =>
    if say ≠ .go then none
    else
      match w.sessions[id]? with
      | none => some (w, some (.removing id))
      | some s => if w.isRunning s then some (w, none) else some (w.forget s, some (.removing id))
  | .removing id =>
    match say with
    | .write n =>
      let removed := w.archive.delete id n
      some ({ w with
        archive := removed.1
        deleted := if removed.2 then id :: w.deleted else w.deleted }, none)
    | _ => none
  | .clear =>
    if say ≠ .go then none
    else
      -- `forever` is a cutoff no conversation was changed after
      some (w.forgetOthers, some (.expiring (2 ^ 40) (w.running.map Run.id)))
  | .prune =>
    if say ≠ .go then none
    else
      match w.settings with
      | none => some (w, none)
      | some settings =>
        let days := settings.retention * 24 * 60 * 60
        some (w, some (.sparing (if settings.retention = 0 then 2 ^ 40 else w.now - days)))
  | .sparing cutoff =>
    if say ≠ .go then none else some (w, some (.expiring cutoff (w.running.map Run.id)))
  | .expiring cutoff spared =>
    match say with
    | .write n =>
      match w.archive.loadIndex n with
      | (opened, none) => some ({ w with archive := opened }, none)
      | (opened, some (index, _)) =>
        let ids := Archive.expired index cutoff fun id => spared = some id
        some ({ w with archive := opened }, some (.dropping ids))
    | _ => none
  | .dropping [] => if say ≠ .go then none else some (w, none)
  | .dropping (id :: rest) =>
    match say with
    | .write n => some ({ w with archive := (w.archive.delete id n).1 }, some (.dropping rest))
    | _ => none
  | .listing =>
    match say with
    | .write n => some ({ w with archive := (w.archive.list n).1 }, none)
    | _ => none

/-! ## The run -/

/-- One step of the run going. -/
def World.runStep (w : World) (c : Config) (choice : Choice) : Option World :=
  match w.running with
  | none => none
  | some r =>
    match w.sessions[r.id]? with
    | none => none
    | some s =>
      match r.position with
      | .keeping kept =>
        if choice ≠ .go then none
        else
          match w.settings with
          | none => some { w with running := some (r.at .closing) }
          | some settings =>
            let next := if settings.retention = 0 then Position.closing else .saving kept
            some { w with running := some (r.at next) }
      | .saving kept =>
        match choice with
        | .write n =>
          some { w with
            archive := (w.archive.save kept n).1
            running := some (r.at .closing) }
        | _ => none
      | .closing =>
        if choice ≠ .go then none
        else some { w.put s.ends with running := none }
      | _ =>
        (r.step c w.surroundings s choice).map fun moved =>
          { w.put moved.session with
            running := some moved.run
            calls := moved.calls
            happened := moved.happened ++ w.happened }

/-! ## Every interleaving -/

/-- What takes place beside the calls. -/
inductive Around where
  | run (choice : Choice)
  /-- The assistant's settings are changed, or can no longer be read. -/
  | settings (settings : Option Settings)
  /-- The stored connections are changed. -/
  | connections (connections : Profiles)
  | tick (seconds : Nat)
  /-- Another writer of the audit log appends a line. -/
  | line (record : Agent.Record)
  deriving DecidableEq

/-- The positions a call starts from. -/
def arrives : Errand → Bool
  | .start _ | .send .. | .carryOn _ | .opening _ .snapshot | .rename .. => true
  | .stop _ | .decide .. | .delete _ | .clear | .prune | .listing => true
  | _ => false

/-- The manager of one process. -/
def program (c : Config) : Program World Errand Say Around where
  start w :=
    w.calls = 0 ∧ w.sessions = ∅ ∧ w.running = none ∧ w.addresses = 0 ∧ w.drawn = [] ∧
      w.past = ∅ ∧ w.happened = [] ∧ w.deleted = [] ∧
      w.archive.files = ∅ ∧ w.archive.indexFile = none ∧ w.archive.index = none
  arrives := arrives
  advance := advance
  environment w
    | .run choice => w.runStep c choice
    | .settings settings => some { w with settings := settings }
    | .connections connections => some { w with connections := connections }
    | .tick seconds => some { w with now := w.now + seconds }
    | .line record =>
      -- the records of a conversation are this manager's
      if w.drawn.contains record.session then none
      else some { w with happened := .foreign record :: w.happened }
  holds _ := false
  excludes _ := false

/-- **The manager**, over every process. -/
def manager (c : Config) : Machine (Threads World Errand) (Program.Life Errand Say Around) :=
  (program c).processes World.restart

end MqStudio.Assistant
