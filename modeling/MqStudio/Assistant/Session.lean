import MqStudio.Assistant.Archive

/-!
# One Conversation

`internal/agent/assistant/session.go`: a conversation as the manager holds it, and the changes
made of it under the manager's lock. Each change of its items is sent to the window as a numbered
event.

How hard a model is asked to think and how much of a message's body it is shown are left out of
the settings; `agent.json` is written by the window alone, which refuses a service without a
model.

## Main definitions

- `Settings`, `Provider`: what the assistant is set up with.
- `Session`: `emit`, `add`, `change`, `append`, `record` and `fromRecord`.
- `Stream`: a turn's text on its way to the window.
-/

namespace MqStudio.Assistant

open MqStudio.Lib
open MqStudio.Storage (collapseSpace)

/-! ## Settings -/

/-- `Provider`; `validate` refuses one without a model. -/
structure Provider where
  id : String
  name : String
  kind : Protocol
  baseURL : String
  apiKey : String
  model : String
  proxy : String
  fallback : Bool
  named : model ≠ ""
  deriving DecidableEq

/-- `Endpoint` -/
def Provider.endpoint (p : Provider) : Endpoint := ⟨p.kind, p.baseURL, p.apiKey, p.proxy, p.fallback⟩

/-- `Writes` -/
inductive Writes where
  | approve | readOnly
  deriving DecidableEq

/-- `Settings` -/
structure Settings where
  providers : List Provider
  /-- `Default`: the service a new conversation runs on, or empty for the first. -/
  chosen : String
  writes : Writes
  retention : Nat
  consented : List String
  deriving DecidableEq

/-- `index`, and the service it finds. -/
def Settings.provider (settings : Settings) (id : String) : Option Provider :=
  settings.providers.find? fun p => p.id = id

/-- `choose` -/
def choose (settings : Settings) (id : String) : Option Provider :=
  let id := if id = "" then settings.chosen else id
  if id = "" then settings.providers.head? else settings.provider id

/-! ## Titles -/

/-- `titleOf`: the first question, cut to a line. -/
def titleOf (text : String) : String :=
  let text := collapseSpace text
  if text.length ≤ 40 then text else String.ofList (text.toList.take 40) ++ "…"

/-- `maxTitle` -/
def maxTitle : Nat := 80

/-- A title a person types, as `Rename` keeps it. -/
def chosenTitle (title : String) : String :=
  let title := collapseSpace title
  if title.length ≤ maxTitle then title else String.ofList (title.toList.take maxTitle)

/-! ## Sessions -/

/-- `decision`: a person's answer to a question. -/
structure Decision where
  approve : Bool
  remember : Bool
  deriving DecidableEq

/-- `session`. A question waits under the id of its item, and an answer that was sent is in the
    question's channel. -/
structure Session where
  id : String
  /-- Where it is, telling it from another of the same id. -/
  address : Nat
  provider : String
  model : String
  title : String
  seq : Nat
  next : Nat
  items : List Item
  usage : Usage
  asks : List Nat
  answers : List (Nat × Decision)
  queue : List String
  created : Nat
  updated : Nat
  connection : Option AuditConnection
  history : Option (List Message)
  chat : Option Chat
  endpoint : Option Endpoint
  answered : Bool
  said : List String
  remembered : List String
  /-- The texts that were accepted, and the events the window was sent under this id, the latest
      first; no step reads them. -/
  accepted : List String
  sent : List Event
  deriving DecidableEq

namespace Session

variable (s : Session)

/-! ## Changes -/

/-- `emitLocked` -/
def emit (change : Change) : Session :=
  { s with seq := s.seq + 1, sent := ⟨s.id, s.seq + 1, change⟩ :: s.sent }

/-- `addLocked`; the id is `next`. -/
def add (item : Item) : Session :=
  { s with
    next := s.next + 1
    items := s.items ++ [{ item with id := s.next + 1 }] }.emit
      (.item { item with id := s.next + 1 })

/-- `changeLocked` -/
def change (id : Nat) (f : Item → Item) : Session :=
  match Updates.changeLast (fun one => one.id = id) f s.items with
  | none => s
  | some (items, item) => { s with items := items }.emit (.item item)

/-- `changeTool` -/
def changeTool (id : Nat) (f : ToolItem → ToolItem) : Session := s.change id (Item.onTool f)

/-- `appendLocked` -/
def append (id : Nat) (text : String) : Session :=
  match Updates.changeLast (fun one => one.id = id)
    (fun one => { one with text := one.text ++ text }) s.items with
  | none => s
  | some (items, _) => { s with items := items }.emit (.delta id text)

/-! ## What the window asks for -/

/-- What the person said is added to the conversation, and to what the next run takes. -/
def speaks (now : Nat) (text composed : String) (about : Option AuditConnection) : Session :=
  let told := { s with
    title := if s.title = "" then titleOf text else s.title
    connection := if s.connection = none then about else s.connection
    updated := now }.add (.said .user text)
  { told with queue := told.queue ++ [composed], accepted := told.accepted ++ [composed] }

/-- `continuable`, of the last item. -/
def carriesOn : Bool :=
  let continuable : List Notice := [.failed, .stopped, .limit]
  (s.items.getLast?).any fun item => item.notice.any continuable.contains

/-- A run starts. -/
def starts : Session := s.emit (.run true s.model none)

/-- A run ends. -/
def ends : Session := s.emit (.run false s.model (some s.usage))

/-- The title a person chose is given. -/
def renamed (title : String) : Session := { s with title := title }.emit (.title title)

/-- A question is answered. -/
def decides (item : Nat) (decision : Decision) : Session :=
  { s with asks := s.asks.erase item, answers := (item, decision) :: s.answers }

/-! ## Records -/

/-- `recordLocked` -/
def record : Record where
  version := 0
  id := s.id
  title := s.title
  provider := s.provider
  model := s.model
  connection := s.connection
  created := s.created
  updated := s.updated
  items := s.items
  usage := s.usage
  answered := s.answered
  said := s.said
  history := s.history
  seq := s.seq
  accepted := s.accepted
  queued := s.queue

/-- `Snapshot`, of a conversation that is held. -/
def snapshot (running : Bool) : Snapshot where
  session := s.id
  seq := s.seq
  title := s.title
  running := running
  model := s.model
  items := s.items
  usage := s.usage

/-- `summaryLocked` -/
def summary (running : Bool) : Summary where
  id := s.id
  title := s.title
  provider := s.provider
  model := s.model
  connection := s.connection
  created := s.created
  updated := s.updated
  running := running
  held := true

end Session

/-- `fromRecord`; the window was sent nothing yet, or what it was sent before the conversation was
    forgotten. -/
def fromRecord (kept : Record) (address : Nat) (sent : List Event) : Session where
  id := kept.id
  address := address
  provider := kept.provider
  model := kept.model
  title := kept.title
  seq := kept.seq
  next := kept.items.foldl (fun next item => max next item.id) 0
  items := kept.items
  usage := kept.usage
  asks := []
  answers := []
  queue := []
  created := kept.created
  updated := kept.updated
  connection := kept.connection
  history := kept.history
  chat := none
  endpoint := none
  answered := kept.answered
  said := kept.said
  remembered := []
  accepted := kept.accepted
  sent := sent

/-- The session `Start` opens. -/
def newSession (id : String) (address : Nat) (provider : Provider) (now : Nat) : Session where
  id := id
  address := address
  provider := provider.id
  model := provider.model
  title := ""
  seq := 0
  next := 0
  items := []
  usage := ⟨0, 0, 0, 0⟩
  asks := []
  answers := []
  queue := []
  created := now
  updated := now
  connection := none
  history := none
  chat := none
  endpoint := none
  answered := false
  said := []
  remembered := []
  accepted := []
  sent := []

/-! ## Streams -/

/-- `provider.Delta` -/
structure Delta where
  thinking : Bool
  text : String
  deriving DecidableEq

/-- The item a piece goes into. -/
def Delta.kind (piece : Delta) : ItemKind := if piece.thinking then .thinking else .text

/-- `stream`: what is held for the next tick, and the item the text goes into. -/
structure Stream where
  pending : List Delta
  timer : Bool
  opened : Option (Nat × ItemKind)
  deriving DecidableEq

namespace Stream

/-- A turn's stream before anything came. -/
def empty : Stream := ⟨[], false, none⟩

/-- `add` -/
def add (o : Stream) (delta : Delta) : Stream :=
  if delta.text = "" then o
  else
    let pending :=
      match o.pending.getLast? with
      | some last =>
        if last.thinking = delta.thinking then
          o.pending.dropLast ++ [{ last with text := last.text ++ delta.text }]
        else o.pending ++ [delta]
      | none => o.pending ++ [delta]
    { o with pending := pending, timer := true }

/-- One piece of what is held goes to the window. -/
def send (s : Session) (opened : Option (Nat × ItemKind)) (piece : Delta) :
    Session × Option (Nat × ItemKind) :=
  match opened with
  | some (id, kind) =>
    if kind = piece.kind then (s.append id piece.text, opened)
    else (s.add (.said piece.kind piece.text), some (s.next + 1, piece.kind))
  | none => (s.add (.said piece.kind piece.text), some (s.next + 1, piece.kind))

/-- The pieces one after the other. -/
def sendAll : Session → Option (Nat × ItemKind) → List Delta → Session × Option (Nat × ItemKind)
  | s, opened, [] => (s, opened)
  | s, opened, piece :: rest =>
    let sent := send s opened piece
    sendAll sent.1 sent.2 rest

/-- `flushLocked` -/
def flush (o : Stream) (s : Session) : Session × Stream :=
  let sent := sendAll s o.opened o.pending
  (sent.1, ⟨[], false, sent.2⟩)

end Stream

end MqStudio.Assistant
