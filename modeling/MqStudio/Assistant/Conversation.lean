import MqStudio.Agent.Audit
import MqStudio.Assistant.Chat
import MqStudio.Lib.Updates

/-!
# Conversations

`internal/agent/assistant/items.go` and the renderer's `conversation.ts`: a conversation as the
window draws it is a list of items, and every change to one is a numbered event. The window holds a
conversation from a snapshot on and applies the events to it.

An item's id is the number its text spells. Of a tool call's card, what is looked up by its name
or only shown (title, blast, output, timing) is left out, and so is where a message was sent from.

## Main definitions

- `Item`, `Event`, `Snapshot`, `Summary`: what the manager hands the window.
- `Conversation`, `applyEvent`: what the window makes of it.
-/

namespace MqStudio.Assistant

open MqStudio.Lib
open MqStudio.Model

/-! ## Items -/

/-- `audit.Connection`: a connection, named as it was. -/
structure AuditConnection where
  id : Int
  name : String
  family : MQKind
  deriving DecidableEq

/-- The kinds of item. -/
inductive ItemKind where
  | user | text | thinking | tool | notice
  deriving DecidableEq

/-- The notices a run can end with. -/
inductive Notice where
  | stopped | failed | refused | length | context | limit
  deriving DecidableEq

/-- The states a tool call goes through. -/
inductive ToolState where
  | running | waiting | done | failed | declined | skipped
  deriving DecidableEq

/-- The call came to an end. -/
def ToolState.settled : ToolState → Bool
  | .running | .waiting => false
  | _ => true

/-- The ways a person is asked about a tool call. -/
inductive AskKind where
  | approve | confirm
  deriving DecidableEq

/-- `Ask`, whose id is the item's. -/
structure Ask where
  kind : AskKind
  question : String
  caveat : String
  deriving DecidableEq

/-- The ways a write was let through. -/
inductive Approved where
  | once | session | confirmed
  deriving DecidableEq

/-- `ToolItem` -/
structure ToolItem where
  call : String
  name : String
  input : String
  connection : Option AuditConnection
  state : ToolState
  ask : Option Ask
  approved : Option Approved
  result : String
  deriving DecidableEq

/-- `Item` -/
structure Item where
  id : Nat
  kind : ItemKind
  text : String
  tool : Option ToolItem
  notice : Option Notice
  reason : String
  deriving DecidableEq

namespace Item

/-- An item of a text: the person's, or the model's. -/
def said (kind : ItemKind) (text : String) : Item := ⟨0, kind, text, none, none, ""⟩

/-- The card of a tool call. -/
def card (tool : ToolItem) : Item := ⟨0, .tool, "", some tool, none, ""⟩

/-- What the application says. -/
def noticed (notice : Notice) (text reason : String) : Item :=
  ⟨0, .notice, text, none, some notice, reason⟩

/-- A change of the tool call. -/
def onTool (change : ToolItem → ToolItem) (item : Item) : Item :=
  { item with tool := item.tool.map change }

/-- The item shows no call under way. -/
def settled (item : Item) : Bool := item.tool.all fun tool => tool.state.settled

end Item

/-! ## Events -/

/-- The kinds of event, each with what it carries. -/
inductive Change where
  | item (item : Item)
  | delta (itemID : Nat) (text : String)
  | run (running : Bool) (model : String) (usage : Option Usage)
  | title (text : String)
  | gone
  deriving DecidableEq

/-- `Event` -/
structure Event where
  session : String
  seq : Nat
  change : Change
  deriving DecidableEq

/-- `Snapshot` -/
structure Snapshot where
  session : String
  seq : Nat
  title : String
  running : Bool
  model : String
  items : List Item
  usage : Usage
  deriving DecidableEq

/-- `Summary` -/
structure Summary where
  id : String
  title : String
  provider : String
  model : String
  connection : Option AuditConnection
  created : Nat
  updated : Nat
  running : Bool
  /-- `Open`: held by this run of the application. -/
  held : Bool
  deriving DecidableEq

/-! ## The window -/

/-- `Conversation` -/
structure Conversation where
  session : String
  seq : Nat
  title : String
  running : Bool
  model : String
  items : List Item
  usage : Usage
  deriving DecidableEq

/-- `fromSnapshot` -/
def fromSnapshot (snapshot : Snapshot) : Conversation where
  session := snapshot.session
  seq := snapshot.seq
  title := snapshot.title
  running := snapshot.running
  model := snapshot.model
  items := snapshot.items
  usage := snapshot.usage

/-- `applyEvent`, from its `switch` on: the event is the next one. -/
def applyChange (next : Conversation) : Change → Option Conversation
  | .item item =>
    match Updates.changeFirst (fun one => one.id = item.id) (fun _ => item) next.items with
    | none => some { next with items := next.items ++ [item] }
    | some items => some { next with items := items }
  | .delta itemID text =>
    match Updates.changeFirst (fun one => one.id = itemID)
      (fun one => { one with text := one.text ++ text }) next.items with
    | none => none
    | some items => some { next with items := items }
  | .run running model usage =>
    some { next with
      running := running
      model := if model ≠ "" then model else next.model
      usage := usage.getD next.usage }
  | .title text => some { next with title := text }
  | .gone => some next

/-- `applyEvent`; nothing is its "gap". -/
def applyEvent (state : Conversation) (event : Event) : Option Conversation :=
  if event.session ≠ state.session ∨ event.seq ≤ state.seq then some state
  else if event.seq ≠ state.seq + 1 then none
  else applyChange { state with seq := event.seq } event.change

/-- Events applied one after the other, up to the first gap. -/
def applyEvents (state : Conversation) (events : List Event) : Option Conversation :=
  events.foldlM applyEvent state

@[simp] theorem applyEvents_nil (state : Conversation) : applyEvents state [] = some state := rfl

@[simp] theorem applyEvents_cons (state : Conversation) (event : Event) (rest : List Event) :
    applyEvents state (event :: rest) =
      (applyEvent state event).bind fun next => applyEvents next rest := rfl

theorem applyEvents_append (state : Conversation) (xs ys : List Event) :
    applyEvents state (xs ++ ys) =
      (applyEvents state xs).bind fun next => applyEvents next ys := by
  simp [applyEvents]

end MqStudio.Assistant
