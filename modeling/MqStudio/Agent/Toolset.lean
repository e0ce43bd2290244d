import MqStudio.Agent.Catalog
import MqStudio.Connection.Persistence

/-!
# The Tools

`internal/agent/toolset`: the tools an agent is offered, what each is called with, and the check a
confirmed write is held to. A tool's schemas and descriptions are left out, as is the connection
it dials: what a tool does is one event of the server that runs it.

The arguments of a write are kept whole, because an answer is checked against them; those of a
tool that only reads are kept as the text they are encoded to.

## Main results

- `all_sound`: every tool meets what `define` demands of it.
- `changedSince_ok`: what a confirmed write may still count on.
-/

namespace MqStudio.Agent

open MqStudio.Connection
open MqStudio.Lib.TreeMap
open MqStudio.Model

/-! ## Arguments -/

/-- `DestinationRef` -/
structure DestinationRef where
  inNamespace : String
  name : String
  deriving DecidableEq

/-- The input type of a tool. -/
inductive InputType where
  | reading | createDestination | publish | addEntry | resend | resetOffset | destinationTarget
  deriving DecidableEq

/-- The input of a call. -/
inductive Input where
  /-- The input of a tool that only reads, and its encoding. -/
  | reading (connection : Option Int) (encoded : String)
  | createDestination (connection : Int) (name inNamespace : String) (partitions : Int)
      (attributes : StringMap)
  | publish (connection : Int) (destination body tags keys : String)
  | addEntry (connection : Int) (destination : String) (fields : List (String × String))
      (id : String) (count : Int)
  | resend (connection : Int) (group destination messageID clientID : String)
  | resetOffset (connection : Int) (group destination : String) (timestamp : Int) (force : Bool)
  | destinationTarget (connection : Int) (name inNamespace : String)
  deriving DecidableEq

/-- `Targeted`: the input names the connection it acts on. -/
def InputType.targeted : InputType → Bool
  | .reading => false
  | _ => true

/-- `Confirmable`: the input names the destination that would be destroyed. -/
def InputType.confirmable : InputType → Bool
  | .destinationTarget => true
  | _ => false

namespace Input

/-- The type it was decoded to. -/
def type : Input → InputType
  | reading .. => .reading
  | createDestination .. => .createDestination
  | publish .. => .publish
  | addEntry .. => .addEntry
  | resend .. => .resend
  | resetOffset .. => .resetOffset
  | destinationTarget .. => .destinationTarget

/-- `Target`: the connection a call acts on. -/
def target : Input → Option Int
  | reading .. => none
  | createDestination connection .. => some connection
  | publish connection .. => some connection
  | addEntry connection .. => some connection
  | resend connection .. => some connection
  | resetOffset connection .. => some connection
  | destinationTarget connection .. => some connection

/-- `Destination` -/
def destination : Input → Option DestinationRef
  | destinationTarget _ name inNamespace => some ⟨inNamespace, name⟩
  | _ => none

theorem target_isSome (input : Input) : input.target.isSome = input.type.targeted := by
  cases input <;> rfl

theorem destination_isSome (input : Input) :
    input.destination.isSome = input.type.confirmable := by
  cases input <;> rfl

end Input

/-! ## Canonical arguments -/

/-- One hexadecimal digit. -/
def hexDigit (n : Nat) : Char :=
  ("0123456789abcdef".toList).getD n '0'

/-- A character inside a JSON string, as `json.Marshal` writes it. -/
def jsonChar (c : Char) : List Char :=
  match c with
  | '"' => ['\\', '"']
  | '\\' => ['\\', '\\']
  | '\x08' => ['\\', 'b']
  | '\x0c' => ['\\', 'f']
  | '\n' => ['\\', 'n']
  | '\r' => ['\\', 'r']
  | '\t' => ['\\', 't']
  | c =>
    -- control characters, what HTML would read as markup, and the two JavaScript line ends
    if c.toNat < 0x20 ∨ c ∈ ['<', '>', '&'] ∨ c.toNat = 0x2028 ∨ c.toNat = 0x2029 then
      ['\\', 'u', hexDigit (c.toNat / 4096), hexDigit (c.toNat / 256 % 16),
        hexDigit (c.toNat / 16 % 16), hexDigit (c.toNat % 16)]
    else [c]

/-- A JSON string. -/
def jsonString (s : String) : String :=
  "\"" ++ String.ofList (s.toList.flatMap jsonChar) ++ "\""

/-- A JSON object with its fields in order; an absent one is `omitempty` and empty. -/
def jsonObject (fields : List (Option (String × String))) : String :=
  "\x7b" ++ ",".intercalate ((fields.filterMap id).map fun field =>
    jsonString field.1 ++ ":" ++ field.2) ++ "\x7d"

/-- A string field. -/
def field (key value : String) : Option (String × String) := some (key, jsonString value)

/-- A string field that is left out when it is empty. -/
def optionalField (key value : String) : Option (String × String) :=
  if value = "" then none else field key value

/-- A number field. -/
def numberField (key : String) (value : Int) : Option (String × String) :=
  some (key, toString value)

/-- A number field that is left out when it is zero. -/
def optionalNumberField (key : String) (value : Int) : Option (String × String) :=
  if value = 0 then none else numberField key value

/-- `Canonical`: a call's arguments as an answer to a question is checked against them. -/
def canonical : Input → String
  | .reading _ encoded => encoded
  | .createDestination connection name inNamespace partitions attributes =>
    jsonObject [numberField "connection" connection, field "name" name,
      optionalField "namespace" inNamespace, optionalNumberField "partitions" partitions,
      if attributes.isEmpty then none
      else some ("attributes", jsonObject (attributes.toList.map fun entry =>
        field entry.1 entry.2))]
  | .publish connection destination body tags keys =>
    jsonObject [numberField "connection" connection, field "destination" destination,
      field "body" body, optionalField "tags" tags, optionalField "keys" keys]
  | .addEntry connection destination fields id count =>
    jsonObject [numberField "connection" connection, field "destination" destination,
      some ("fields", "[" ++ ",".intercalate (fields.map fun entry =>
        jsonObject [field "name" entry.1, field "value" entry.2]) ++ "]"),
      optionalField "id" id, optionalNumberField "count" count]
  | .resend connection group destination messageID clientID =>
    jsonObject [numberField "connection" connection, field "group" group,
      field "destination" destination, field "messageId" messageID,
      optionalField "clientId" clientID]
  | .resetOffset connection group destination timestamp force =>
    jsonObject [numberField "connection" connection, field "group" group,
      field "destination" destination, numberField "timestamp" timestamp,
      if force then some ("force", "true") else none]
  | .destinationTarget connection name inNamespace =>
    jsonObject [numberField "connection" connection, field "name" name,
      optionalField "namespace" inNamespace]

example : canonical (.destinationTarget 1 "a\"b" "") =
    "\x7b\"connection\":1,\"name\":\"a\\\"b\"\x7d" := by decide

/-! ## Tools -/

/-- `Tool` -/
structure Tool where
  name : String
  /-- The catalogue operation it performs, or empty for the tools about the installation. -/
  operation : String
  blast : Blast
  input : InputType
  deriving DecidableEq

/-- `questions`: the wording of what a person is asked before each destructive operation. -/
def questions (operation : String) : String :=
  if operation = "destination.purge" then "mcp.confirm.purge"
  else if operation = "destination.delete" then "mcp.confirm.delete"
  else ""

/-- `define`: the blast radius comes from the catalogue. What it panics at is what `Tool.sound`
    denies. -/
def define (name operation : String) (input : InputType) : Tool where
  name := name
  operation := operation
  blast :=
    match find operation with
    | some known => known.blast
    | none => .read
  input := input

/-- A tool `define` does not panic at: it performs an operation of the catalogue, a write names the
    connection it reaches, and a destructive one names what it destroys and has a question. -/
def Tool.sound (tool : Tool) : Bool :=
  (tool.operation = "" || find tool.operation = some ⟨tool.operation, tool.blast⟩) &&
  (tool.operation ≠ "" || tool.blast = .read) &&
  (tool.blast = .read || tool.input.targeted) &&
  (tool.blast ≠ .destructive || (tool.input.confirmable && questions tool.operation ≠ ""))

/-- `definitions`, in the order they are offered. -/
def all : List Tool :=
  [define "connections_list" "" .reading,
   define "capabilities_describe" "" .reading,
   define "destinations_list" "destination.list" .reading,
   define "destination_detail" "destination.detail" .reading,
   define "subscriptions_list" "subscription.list" .reading,
   define "messages_browse" "message.query" .reading,
   define "cluster_topology" "cluster.nodes" .reading,
   define "messages_dead_letters" "message.dlq" .reading,
   define "messages_retry_queue" "message.retryQueue" .reading,
   define "dead_letter_queues" "message.deadLetterQueues" .reading,
   define "subscription_lag" "subscription.lag" .reading,
   define "subscription_consumers" "subscription.clients" .reading,
   define "subscription_pending_summary" "subscription.pendingSummary" .reading,
   define "subscription_pending_entries" "subscription.pendingEntries" .reading,
   define "subscription_group_consumers" "subscription.groupConsumers" .reading,
   define "message_by_id" "message.byId" .reading,
   define "namespaces_list" "namespace.list" .reading,
   define "routing_exchanges" "routing.exchanges" .reading,
   define "routing_bindings" "routing.bindings" .reading,
   define "destination_partitions" "destination.partitions" .reading,
   define "message_track" "message.track" .reading,
   define "cluster_health" "cluster.health" .reading,
   define "client_connections" "client.connections" .reading,
   define "client_channels" "client.channels" .reading,
   define "destination_shards" "destination.shards" .reading,
   define "channels_list" "channel.list" .reading,
   define "destination_create" "destination.create" .createDestination,
   define "message_publish" "message.send" .publish,
   define "message_add_entry" "message.addEntry" .addEntry,
   define "message_resend" "message.resend" .resend,
   define "subscription_reset_offset" "subscription.resetOffset" .resetOffset,
   define "destination_purge" "destination.purge" .destinationTarget,
   define "destination_delete" "destination.delete" .destinationTarget]

/-- `Lookup` -/
def lookup (name : String) : Option Tool :=
  all.find? fun tool => tool.name = name

/-- **Every tool** meets what `define` demands of it. -/
theorem all_sound : ∀ tool ∈ all, tool.sound = true := by
  decide +kernel

/-- No two tools share a name. -/
theorem all_names_nodup : (all.map Tool.name).Nodup := by
  decide +kernel

section Sound

variable {tool : Tool}

/-- A tool of the registry performs an operation with its own blast radius, or reads. -/
theorem find_of_mem_all (h : tool ∈ all) :
    tool.operation = "" ∧ tool.blast = .read ∨
      tool.operation ≠ "" ∧ find tool.operation = some ⟨tool.operation, tool.blast⟩ := by
  have hsound := all_sound tool h
  simp only [Tool.sound, Bool.and_eq_true, Bool.or_eq_true, decide_eq_true_eq] at hsound
  obtain ⟨⟨⟨hfind, hread⟩, -⟩, -⟩ := hsound
  by_cases hoperation : tool.operation = ""
  · exact .inl ⟨hoperation, hread.resolve_left (not_not.mpr hoperation)⟩
  · exact .inr ⟨hoperation, hfind.resolve_left hoperation⟩

/-- A write names the connection it reaches. -/
theorem targeted_of_mem_all (h : tool ∈ all) (hwrite : tool.blast ≠ .read) :
    tool.input.targeted = true := by
  have hsound := all_sound tool h
  simp only [Tool.sound, Bool.and_eq_true, Bool.or_eq_true, decide_eq_true_eq] at hsound
  exact hsound.1.2.resolve_left hwrite

/-- Every tool's blast radius is one `rank` knows. -/
theorem known_of_mem_all (h : tool ∈ all) : tool.blast.Known := by
  rcases find_of_mem_all h with ⟨-, hread⟩ | ⟨-, hfind⟩
  · rw [hread]
    decide
  · exact known_of_find hfind

end Sound

/-! ## Writes held to what was agreed -/

/-- Why a write is not what a person agreed to. -/
inductive Changed where
  /-- "not done: connection %d is no longer stored" -/
  | notStored (id : Int)
  /-- "not done: the connection was pointed at another broker or given other credentials in the
      window after the person agreed to this, so it is not what they agreed to" -/
  | repointed
  deriving DecidableEq

/-- `ChangedSince` -/
def changedSince (connections : Profiles) (id : Int) (agreed : ConnectionProfile) :
    Except Changed Unit :=
  match connections[id]? with
  | none => .error (.notStored id)
  | some current => if repointed agreed current then .error .repointed else .ok ()

/-- **A write passes** when its connection is stored and dialled as it was when agreed to. -/
theorem changedSince_ok {connections : Profiles} {id : Int} {agreed : ConnectionProfile} :
    changedSince connections id agreed = .ok () ↔
      ∃ current, connections[id]? = some current ∧ repointed agreed current = false := by
  unfold changedSince
  cases connections[id]? with
  | none => simp
  | some current =>
    dsimp only
    cases hsame : repointed agreed current <;> simp [hsame]

end MqStudio.Agent
