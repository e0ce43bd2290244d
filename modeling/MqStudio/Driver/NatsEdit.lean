import Mathlib.Order.Lattice
import MqStudio.Connection.Forms
import MqStudio.Driver.KafkaBrowse
import MqStudio.Lib.Duration

/-!
# Editing a Stream or a Consumer

`internal/driver/nats/stream.go`, `stream_admin.go` and `consumer.go`, `bridge/nats.go`, and the
drafts of the two dialogs: a configuration is listed as texts, read into a form, submitted unchanged
and built up again to replace the stored one.

Of the library's records the driver names some fields; all the others (sources, mirror, placement,
republishing, metadata, back-off and more) are one field here, which a configuration built anew
leaves at its zero. The renderer's numbers are a parameter, with what its language says of them.

## Main results

- `savedStream_eq_iff`, `savedConsumer_eq_iff`: when an unedited save sends what is stored.
- `edits_unchanged_iff`: both.
- `edit_forgets`: a stream loses its sources, and a consumer without a limit is given one.
-/

namespace MqStudio.Driver.Nats.Edit

open MqStudio.Lib
open MqStudio.Connection.Forms (isWhiteSpace)
open MqStudio.Storage (isSpace)
open MqStudio.Driver.Kafka.Browse (parseInt formatInt splitSign)

/-- A string, by its runes. -/
abbrev Text := List Char

variable {ω : Type}

/-! ## What a server holds -/

inductive RetentionPolicy where
  | limits | interest | workQueue
  deriving DecidableEq

inductive StorageType where
  | file | memory
  deriving DecidableEq

inductive DiscardPolicy where
  | old | new
  deriving DecidableEq

inductive StoreCompression where
  | none | s2
  deriving DecidableEq

/-- `jetstream.StreamConfig`: the fields that the driver names, and all others. -/
@[ext]
structure StreamConfig (ω : Type) where
  name : Text
  description : Text
  subjects : List Text
  retention : RetentionPolicy
  storage : StorageType
  discard : DiscardPolicy
  replicas : Int64
  maxMsgs : Int64
  maxBytes : Int64
  maxMsgsPerSubject : Int64
  maxMsgSize : Int32
  maxAge : Int64
  duplicates : Int64
  compression : StoreCompression
  isSealed : Bool
  denyDelete : Bool
  denyPurge : Bool
  allowRollup : Bool
  allowDirect : Bool
  other : ω
  deriving DecidableEq

/-- `jetstream.StreamInfo`, with the name of the stream that it mirrors. -/
structure StreamInfo (ω : Type) where
  config : StreamConfig ω
  mirror : Option Text

inductive DeliverPolicy where
  | all | last | new | byStartSequence | byStartTime | lastPerSubject
  deriving DecidableEq

/-- The policies that the driver names; the library may have more. -/
inductive AckPolicy where
  | explicit | none | all
  | unnamed (code : Nat)
  deriving DecidableEq

inductive ReplayPolicy where
  | instant | original
  deriving DecidableEq

/-- `jetstream.ConsumerConfig`: the fields that the driver names, and all others. -/
@[ext]
structure ConsumerConfig (ω : Type) where
  name : Text
  durable : Text
  deliverPolicy : DeliverPolicy
  ackPolicy : AckPolicy
  ackWait : Int64
  maxDeliver : Int64
  maxAckPending : Int64
  filterSubject : Text
  filterSubjects : List Text
  replayPolicy : ReplayPolicy
  deliverSubject : Text
  deliverGroup : Text
  maxWaiting : Int64
  maxRequestBatch : Int64
  other : ω
  deriving DecidableEq

/-- `jetstream.ConsumerInfo` -/
structure ConsumerInfo (ω : Type) where
  name : Text
  config : ConsumerConfig ω

/-! ## The listing -/

/-- The keys of the attributes. -/
inductive Attr where
  | subjects | description | retention | storage | discard | replicas | maxMsgs | maxBytes
  | maxMsgsPer | maxMsgSize | maxAge | duplicates | compression | isSealed | denyDelete | denyPurge
  | allowRollup | allowDirect | mirrorOf
  | stream | durable | deliverPolicy | ackPolicy | ackWait | maxDeliver | maxAckPending
  | filterSubject | replayPolicy | deliverTo | deliverGroup | maxWaiting | maxBatch
  deriving DecidableEq

/-- A map of attributes. None is set to a blank, and one that is absent reads as one. -/
abbrev Attributes := Attr → Text

/-- `strconv.FormatInt`, in base ten. -/
def number (n : Int) : Text := (formatInt n).toList

/-- `strconv.FormatBool` -/
def formatBool (b : Bool) : Text := if b then "true".toList else "false".toList

/-- `strings.Join`, with a comma and a blank. -/
def joinComma (texts : List Text) : Text := [',', ' '].intercalate texts

def retentionName : RetentionPolicy → Text
  | .interest => "interest".toList
  | .workQueue => "workqueue".toList
  | .limits => "limits".toList

def storageName : StorageType → Text
  | .memory => "memory".toList
  | .file => "file".toList

def discardName : DiscardPolicy → Text
  | .new => "new".toList
  | .old => "old".toList

def compressionName : StoreCompression → Text
  | .s2 => "s2".toList
  | .none => "none".toList

/-- `model.Destination`: its name and its attributes. -/
structure Destination where
  name : Text
  attributes : Attributes

/-- `destinationOf` -/
def destinationOf (info : StreamInfo ω) : Destination where
  name := info.config.name
  attributes
    | .subjects => joinComma info.config.subjects
    | .description => info.config.description
    | .retention => retentionName info.config.retention
    | .storage => storageName info.config.storage
    | .discard => discardName info.config.discard
    | .replicas => number (max info.config.replicas.toInt 1)
    | .maxMsgs => number info.config.maxMsgs.toInt
    | .maxBytes => number info.config.maxBytes.toInt
    | .maxAge => Duration.string info.config.maxAge.toInt
    | .maxMsgSize => number info.config.maxMsgSize.toInt64.toInt
    | .maxMsgsPer => number info.config.maxMsgsPerSubject.toInt
    | .duplicates => Duration.string info.config.duplicates.toInt
    | .compression => compressionName info.config.compression
    | .isSealed => formatBool info.config.isSealed
    | .denyDelete => formatBool info.config.denyDelete
    | .denyPurge => formatBool info.config.denyPurge
    | .allowRollup => formatBool info.config.allowRollup
    | .allowDirect => formatBool info.config.allowDirect
    | .mirrorOf => info.mirror.getD []
    | _ => []

def deliverPolicyName : DeliverPolicy → Text
  | .last => "last".toList
  | .new => "new".toList
  | .byStartSequence => "bySequence".toList
  | .byStartTime => "byTime".toList
  | .lastPerSubject => "lastPerSubject".toList
  | .all => "all".toList

def ackPolicyName : AckPolicy → Text
  | .none => "none".toList
  | .all => "all".toList
  | _ => "explicit".toList

def replayPolicyName : ReplayPolicy → Text
  | .original => "original".toList
  | .instant => "instant".toList

/-- `filterSubjects`, of a configuration. -/
def filterSubjectsOf (config : ConsumerConfig ω) : Text :=
  if config.filterSubjects ≠ [] then joinComma config.filterSubjects else config.filterSubject

/-- `model.Subscription`: its reference and its attributes. -/
structure Subscription where
  namesp : Text
  name : Text
  attributes : Attributes

/-- `subscriptionOf` -/
def subscriptionOf (stream : Text) (info : ConsumerInfo ω) : Subscription where
  namesp := stream
  name := info.name
  attributes
    | .stream => stream
    | .durable => info.config.durable
    | .deliverPolicy => deliverPolicyName info.config.deliverPolicy
    | .ackPolicy => ackPolicyName info.config.ackPolicy
    | .replayPolicy => replayPolicyName info.config.replayPolicy
    | .ackWait => Duration.string info.config.ackWait.toInt
    | .maxDeliver => number info.config.maxDeliver.toInt
    | .filterSubject => filterSubjectsOf info.config
    | .maxAckPending => number info.config.maxAckPending.toInt
    | .deliverTo => info.config.deliverSubject
    | .deliverGroup => info.config.deliverGroup
    | .maxWaiting => if info.config.deliverSubject = [] then number info.config.maxWaiting.toInt else []
    | .maxBatch =>
      if info.config.deliverSubject = [] then number info.config.maxRequestBatch.toInt else []
    | _ => []

/-! ## The renderer -/

/-- `trim` -/
def trim (text : Text) : Text := Words.trim isWhiteSpace text

/-- The renderer's numbers, by the integers they print as: what becomes of an integer that
    `Number.parseInt` reads and `String` writes. -/
structure Renderer where
  shown : Int → Int

/-- Integers are exact up to 2^53, and beyond they keep their sign. -/
structure Renderer.Documented (r : Renderer) : Prop where
  exact : ∀ {n : Int}, -2 ^ 53 ≤ n → n ≤ 2 ^ 53 → r.shown n = n
  negative : ∀ n : Int, r.shown n < 0 ↔ n < 0

/-- The integer that `Number.parseInt` finds in front of a text. -/
def parsePrefix (text : Text) : Option Int :=
  let (sign, rest) := splitSign (text.dropWhile isWhiteSpace)
  let digits := rest.takeWhile Char.isDigit
  if digits = [] then none else some (sign * (Nat.ofDigitChars 10 digits 0 : Nat))

/-- `attr`: a blank is as good as none. -/
def attr (attributes : Attributes) (key : Attr) : Option Text :=
  if attributes key = [] then none else some (attributes key)

/-- `number`, of an attribute. -/
def numberAttr (r : Renderer) (attributes : Attributes) (key : Attr) : Option Int :=
  ((attr attributes key).bind parsePrefix).map r.shown

/-- `limit`, of an attribute: below zero there is none. -/
def limit (r : Renderer) (attributes : Attributes) (key : Attr) : Option Int :=
  (numberAttr r attributes key).filter fun value => 0 ≤ value

/-- `duration`: zero is no limit. -/
def duration (attributes : Attributes) (key : Attr) : Option Text :=
  (attr attributes key).filter fun raw => raw ≠ "0s".toList

/-- `subjects`, `filterSubjects`: the pieces between commas. -/
def listAttr (attributes : Attributes) (key : Attr) : List Text :=
  match attr attributes key with
  | none => []
  | some raw => ((raw.splitOn ',').map trim).filter fun subject => subject ≠ []

/-- `limit`, in a draft. -/
def limitText (value : Option Int) : Text := (value.map number).getD []

/-- A separator of the form: white space, a comma or a semicolon. -/
def isSeparator (c : Char) : Bool := isWhiteSpace c || c = ',' || c = ';'

/-- `splitSubjects`, of the form. -/
def splitField (raw : Text) : List Text :=
  ((Words.fieldsFunc isSeparator raw).map trim).filter fun subject => subject ≠ []

def isWildcard (c : Char) : Bool := c = '*' || c = '>'

/-- What the form asks of the tokens of a subject. -/
def validTokens : List Text → Bool
  | [] => true
  | token :: rest =>
    (if token = [] then false
      else if token = ['>'] then rest.isEmpty
      else if token = ['*'] then true
      else !token.any isWildcard) && validTokens rest

/-- `validSubject` -/
def validSubject (subject : Text) : Bool := validTokens (subject.splitOn '.')

/-- What the form takes in no name. -/
def isNameBreak (c : Char) : Bool := isWhiteSpace c || ['.', '*', '>', '/', '\\'].contains c

/-- What a dialog finds wrong with a draft. -/
inductive DraftError where
  | nameRequired | nameInvalid | subjectsRequired | subjectInvalid | replicasInvalid
  | streamRequired | filterInvalid | deliverInvalid | groupNeedsDeliver
  deriving DecidableEq

/-! ### Streams -/

/-- `StreamDraft` -/
structure StreamDraft where
  name : Text
  description : Text
  subjects : Text
  retention : Text
  storage : Text
  discard : Text
  replicas : Int
  maxMsgs : Text
  maxBytes : Text
  maxMsgsPerSubject : Text
  maxMsgSize : Text
  maxAge : Text
  duplicateWindow : Text
  compression : Text
  denyDelete : Bool
  denyPurge : Bool
  allowRollup : Bool

/-- `toStreamDraft` -/
def toStreamDraft (r : Renderer) (stream : Destination) : StreamDraft where
  name := stream.name
  description := (attr stream.attributes .description).getD []
  subjects := joinComma (listAttr stream.attributes .subjects)
  retention := (attr stream.attributes .retention).getD "limits".toList
  storage := (attr stream.attributes .storage).getD "file".toList
  discard := (attr stream.attributes .discard).getD "old".toList
  replicas := (numberAttr r stream.attributes .replicas).getD 1
  maxMsgs := limitText (limit r stream.attributes .maxMsgs)
  maxBytes := limitText (limit r stream.attributes .maxBytes)
  maxMsgsPerSubject := limitText (limit r stream.attributes .maxMsgsPer)
  maxMsgSize := limitText (limit r stream.attributes .maxMsgSize)
  maxAge := (duration stream.attributes .maxAge).getD []
  duplicateWindow := (duration stream.attributes .duplicates).getD []
  compression := (attr stream.attributes .compression).getD "none".toList
  denyDelete := attr stream.attributes .denyDelete = some "true".toList
  denyPurge := attr stream.attributes .denyPurge = some "true".toList
  allowRollup := attr stream.attributes .allowRollup = some "true".toList

/-- `streamDraftError` -/
def streamDraftError (draft : StreamDraft) : Option DraftError :=
  let name := trim draft.name
  if name = [] then some .nameRequired
  else if name.any isNameBreak then some .nameInvalid
  else if splitField draft.subjects = [] then some .subjectsRequired
  else if (splitField draft.subjects).any fun subject => !validSubject subject then
    some .subjectInvalid
  else if draft.replicas < 1 then some .replicasInvalid
  else if 5 < draft.replicas then some .replicasInvalid
  else none

/-- `StreamInput` -/
structure StreamInput where
  name : Text
  description : Text
  subjects : Text
  retention : Text
  storage : Text
  discard : Text
  replicas : Int
  maxMsgs : Text
  maxBytes : Text
  maxMsgsPerSubject : Text
  maxMsgSize : Text
  maxAge : Text
  duplicateWindow : Text
  compression : Text
  denyDelete : Bool
  denyPurge : Bool
  allowRollup : Bool

/-- `toStreamInput` -/
def toStreamInput (draft : StreamDraft) : StreamInput where
  name := trim draft.name
  description := trim draft.description
  subjects := [','].intercalate (splitField draft.subjects)
  retention := draft.retention
  storage := draft.storage
  discard := draft.discard
  replicas := draft.replicas
  maxMsgs := trim draft.maxMsgs
  maxBytes := trim draft.maxBytes
  maxMsgsPerSubject := trim draft.maxMsgsPerSubject
  maxMsgSize := trim draft.maxMsgSize
  maxAge := trim draft.maxAge
  duplicateWindow := trim draft.duplicateWindow
  compression := draft.compression
  denyDelete := draft.denyDelete
  denyPurge := draft.denyPurge
  allowRollup := draft.allowRollup

/-! ### Consumers -/

/-- `ConsumerDraft` -/
structure ConsumerDraft where
  stream : Text
  name : Text
  durable : Bool
  deliverPolicy : Text
  ackPolicy : Text
  ackWait : Text
  maxDeliver : Text
  maxAckPending : Text
  filterSubject : Text
  replayPolicy : Text
  deliverSubject : Text
  deliverGroup : Text

/-- `toConsumerDraft` -/
def toConsumerDraft (r : Renderer) (subscription : Subscription) : ConsumerDraft where
  stream := subscription.namesp
  name := subscription.name
  durable := (attr subscription.attributes .durable).isSome
  deliverPolicy := (attr subscription.attributes .deliverPolicy).getD "all".toList
  ackPolicy := (attr subscription.attributes .ackPolicy).getD "explicit".toList
  ackWait := (attr subscription.attributes .ackWait).getD []
  maxDeliver := limitText (limit r subscription.attributes .maxDeliver)
  maxAckPending := limitText (limit r subscription.attributes .maxAckPending)
  filterSubject := joinComma (listAttr subscription.attributes .filterSubject)
  replayPolicy := (attr subscription.attributes .replayPolicy).getD "instant".toList
  deliverSubject := (attr subscription.attributes .deliverTo).getD []
  deliverGroup := (attr subscription.attributes .deliverGroup).getD []

/-- `consumerDraftError` -/
def consumerDraftError (draft : ConsumerDraft) : Option DraftError :=
  let name := trim draft.name
  let deliver := trim draft.deliverSubject
  if trim draft.stream = [] then some .streamRequired
  else if name = [] then some .nameRequired
  else if name.any isNameBreak then some .nameInvalid
  else if (splitField draft.filterSubject).any fun subject => !validSubject subject then
    some .filterInvalid
  else if deliver ≠ [] then
    if !validSubject deliver || deliver.any isWildcard then some .deliverInvalid else none
  else if trim draft.deliverGroup ≠ [] then some .groupNeedsDeliver
  else none

/-- `NATSConsumerInput` -/
structure ConsumerInput where
  stream : Text
  name : Text
  durable : Bool
  deliverPolicy : Text
  ackPolicy : Text
  ackWait : Text
  maxDeliver : Text
  maxAckPending : Text
  filterSubject : Text
  replayPolicy : Text
  deliverSubject : Text
  deliverGroup : Text

/-- `toConsumerInput` -/
def toConsumerInput (draft : ConsumerDraft) : ConsumerInput :=
  let push := trim draft.deliverSubject ≠ []
  { stream := trim draft.stream
    name := trim draft.name
    durable := draft.durable
    deliverPolicy := draft.deliverPolicy
    ackPolicy := draft.ackPolicy
    ackWait := trim draft.ackWait
    maxDeliver := trim draft.maxDeliver
    maxAckPending := trim draft.maxAckPending
    filterSubject := [','].intercalate (splitField draft.filterSubject)
    replayPolicy := draft.replayPolicy
    deliverSubject := if push then trim draft.deliverSubject else []
    deliverGroup := if push then trim draft.deliverGroup else [] }

/-! ## The driver -/

/-- What the driver refuses, with what its message quotes. -/
inductive Refusal where
  | streamNeedsName
  | forbidden (name : Text) (c : Char)
  | hasNoPartitions
  | needsSubject
  | emptySubject
  | emptyToken (subject : Text)
  | restNotLast (subject : Text)
  | partWildcard (subject : Text)
  | notDuration (raw : Text)
  | negative (raw : Text)
  | streamRequired
  | consumerNeedsName
  | consumerName (name : Text)
  deriving DecidableEq

/-- `strings.TrimSpace` -/
def trimSpace (text : Text) : Text := Words.trim isSpace text

/-- What no name of a stream may hold, in the order of the checks. -/
def forbiddenChars : List Char := ['.', '*', '>', ' ', '\t', '/', '\\']

/-- `validateStreamName` -/
def validateStreamName (name : Text) : Except Refusal Unit :=
  if name = [] then .error .streamNeedsName
  else
    match forbiddenChars.find? fun c => name.contains c with
    | some c => .error (.forbidden name c)
    | none => .ok ()

/-- What `validateSubject` asks of the tokens of a subject, one after the other. -/
def validateTokens (subject : Text) : List Text → Except Refusal Unit
  | [] => .ok ()
  | token :: rest =>
    if token = [] then .error (.emptyToken subject)
    else if token = ['>'] ∧ rest ≠ [] then .error (.restNotLast subject)
    else if token ≠ ['*'] ∧ token ≠ ['>'] ∧ token.any isWildcard then .error (.partWildcard subject)
    else validateTokens subject rest

/-- `validateSubject` -/
def validateSubject (subject : Text) : Except Refusal Unit :=
  if subject = [] then .error .emptySubject else validateTokens subject (subject.splitOn '.')

/-- The first subject that is refused. -/
def validateSubjects : List Text → Except Refusal Unit
  | [] => .ok ()
  | subject :: rest => (validateSubject subject).bind fun _ => validateSubjects rest

/-- A separator of the driver. -/
def isListBreak (c : Char) : Bool := [',', ';', '\n', '\r', '\t', ' '].contains c

/-- The loop of `splitSubjects`: each field once, by its first place. -/
def collect : List Text → List Text → List Text
  | subjects, [] => subjects
  | subjects, field :: rest =>
    let subject := trimSpace field
    if subject = [] ∨ subject ∈ subjects then collect subjects rest
    else collect (subjects ++ [subject]) rest

/-- `splitSubjects` -/
def splitSubjects (raw : Text) : List Text := collect [] (Words.fieldsFunc isListBreak raw)

def retentionPolicy (name : Text) : RetentionPolicy :=
  if name = "interest".toList then .interest
  else if name = "workqueue".toList then .workQueue
  else .limits

def storageType (name : Text) : StorageType := if name = "memory".toList then .memory else .file

def discardPolicy (name : Text) : DiscardPolicy := if name = "new".toList then .new else .old

/-- `int64Attr`, and `intAttr` where an integer has as many bits. -/
def int64Attr (attributes : Attributes) (key : Attr) (fallback : Int64) : Int64 :=
  ((parseInt 64 (trimSpace (attributes key))).map Int64.ofInt).getD fallback

/-- `durationAttr` -/
def durationAttr (attributes : Attributes) (key : Attr) : Except Refusal Int64 :=
  let raw := trimSpace (attributes key)
  if raw = [] ∨ raw = "0".toList ∨ raw = "0s".toList then .ok 0
  else
    match Duration.parse raw with
    | none => .error (.notDuration raw)
    | some parsed => if parsed < 0 then .error (.negative raw) else .ok (Int64.ofInt parsed)

/-- `boolAttr` -/
def boolAttr (attributes : Attributes) (key : Attr) : Bool :=
  trimSpace (attributes key) = "true".toList

/-- `model.DestinationSpec` -/
structure DestinationSpec where
  name : Text
  partitions : Int64
  attributes : Attributes

/-- `spec`, of a stream. -/
def StreamInput.spec (input : StreamInput) : DestinationSpec where
  name := input.name
  partitions := 0
  attributes
    | .subjects => input.subjects
    | .description => input.description
    | .retention => input.retention
    | .storage => input.storage
    | .discard => input.discard
    | .maxMsgs => input.maxMsgs
    | .maxBytes => input.maxBytes
    | .maxMsgsPer => input.maxMsgsPerSubject
    | .maxMsgSize => input.maxMsgSize
    | .maxAge => input.maxAge
    | .duplicates => input.duplicateWindow
    | .compression => input.compression
    | .denyDelete => if input.denyDelete then "true".toList else []
    | .denyPurge => if input.denyPurge then "true".toList else []
    | .allowRollup => if input.allowRollup then "true".toList else []
    | .replicas => if 0 < input.replicas then number input.replicas else []
    | _ => []

/-- The configuration that `streamConfigOf` builds once all is checked. What it does not name is left
    at `zero`. -/
def builtStream (zero : ω) (spec : DestinationSpec) (age duplicates : Int64) : StreamConfig ω where
  name := trimSpace spec.name
  description := spec.attributes .description
  subjects := splitSubjects (spec.attributes .subjects)
  retention := retentionPolicy (spec.attributes .retention)
  storage := storageType (spec.attributes .storage)
  discard := discardPolicy (spec.attributes .discard)
  replicas := int64Attr spec.attributes .replicas 1
  denyDelete := boolAttr spec.attributes .denyDelete
  denyPurge := boolAttr spec.attributes .denyPurge
  allowRollup := boolAttr spec.attributes .allowRollup
  maxMsgs := int64Attr spec.attributes .maxMsgs (-1)
  maxBytes := int64Attr spec.attributes .maxBytes (-1)
  maxMsgsPerSubject := int64Attr spec.attributes .maxMsgsPer (-1)
  maxMsgSize := (int64Attr spec.attributes .maxMsgSize (-1)).toInt32
  maxAge := age
  duplicates := duplicates
  compression := if spec.attributes .compression = "s2".toList then .s2 else .none
  isSealed := false
  allowDirect := false
  other := zero

/-- `streamConfigOf` -/
def streamConfigOf (zero : ω) (spec : DestinationSpec) : Except Refusal (StreamConfig ω) := do
  validateStreamName (trimSpace spec.name)
  if 0 < spec.partitions then throw .hasNoPartitions
  let subjects := splitSubjects (spec.attributes .subjects)
  if subjects = [] ∧ spec.attributes .mirrorOf = [] then throw .needsSubject
  validateSubjects subjects
  let age ← durationAttr spec.attributes .maxAge
  let duplicates ← durationAttr spec.attributes .duplicates
  return builtStream zero spec age duplicates

def deliverPolicy (name : Text) : DeliverPolicy :=
  if name = "last".toList then .last
  else if name = "new".toList then .new
  else if name = "lastPerSubject".toList then .lastPerSubject
  else .all

def ackPolicy (name : Text) : AckPolicy :=
  if name = "none".toList then .none
  else if name = "all".toList then .all
  else .explicit

def replayPolicy (name : Text) : ReplayPolicy :=
  if name = "original".toList then .original else .instant

/-- `model.SubscriptionSpec` -/
structure SubscriptionSpec where
  namesp : Text
  name : Text
  attributes : Attributes

/-- `spec`, of a consumer. -/
def ConsumerInput.spec (input : ConsumerInput) : SubscriptionSpec where
  namesp := input.stream
  name := input.name
  attributes
    | .deliverPolicy => input.deliverPolicy
    | .ackPolicy => input.ackPolicy
    | .ackWait => input.ackWait
    | .maxDeliver => input.maxDeliver
    | .maxAckPending => input.maxAckPending
    | .filterSubject => input.filterSubject
    | .replayPolicy => input.replayPolicy
    | .deliverTo => input.deliverSubject
    | .deliverGroup => input.deliverGroup
    | .durable => if !input.durable then "false".toList else []
    | _ => []

/-- What no name of a consumer may hold. -/
def consumerChars : List Char := ['.', '*', '>', ' ', '\t', '/', '\\']

/-- The configuration that `consumerConfigOf` builds once all is checked. What it does not name is left
    at `zero`. -/
def builtConsumer (zero : ω) (spec : SubscriptionSpec) (wait : Int64) : ConsumerConfig ω :=
  let name := trimSpace spec.name
  let filters := splitSubjects (spec.attributes .filterSubject)
  let subject := trimSpace (spec.attributes .deliverTo)
  { name := name
    durable := if spec.attributes .durable ≠ "false".toList then name else []
    deliverPolicy := deliverPolicy (spec.attributes .deliverPolicy)
    ackPolicy := ackPolicy (spec.attributes .ackPolicy)
    ackWait := if 0 < wait then wait else 0
    maxDeliver := int64Attr spec.attributes .maxDeliver (-1)
    maxAckPending := int64Attr spec.attributes .maxAckPending 1000
    filterSubject := if filters.length = 1 then filters.headD [] else []
    filterSubjects := if 1 < filters.length then filters else []
    replayPolicy := replayPolicy (spec.attributes .replayPolicy)
    deliverSubject := subject
    deliverGroup := if subject ≠ [] then trimSpace (spec.attributes .deliverGroup) else []
    maxWaiting := if subject ≠ [] then 0 else int64Attr spec.attributes .maxWaiting 512
    maxRequestBatch := if subject ≠ [] then 0 else int64Attr spec.attributes .maxBatch 0
    other := zero }

/-- `consumerConfigOf` -/
def consumerConfigOf (zero : ω) (spec : SubscriptionSpec) : Except Refusal (ConsumerConfig ω) := do
  let name := trimSpace spec.name
  if name = [] then throw .consumerNeedsName
  if name.any consumerChars.contains then throw (.consumerName name)
  let wait ← durationAttr spec.attributes .ackWait
  validateSubjects (splitSubjects (spec.attributes .filterSubject))
  let subject := trimSpace (spec.attributes .deliverTo)
  if subject ≠ [] then validateSubject subject
  return builtConsumer zero spec wait

/-! ## An unedited save -/

/-- What `UpdateDestination` sends when the form of a listed stream is submitted as it is. -/
def savedStream (r : Renderer) (zero : ω) (info : StreamInfo ω) : Option (StreamConfig ω) :=
  let draft := toStreamDraft r (destinationOf info)
  if streamDraftError draft = none then
    (streamConfigOf zero (toStreamInput draft).spec).toOption
  else none

/-- `UpdateSubscription`, up to what it sends to which stream. -/
def updateSubscription (zero : ω) (spec : SubscriptionSpec) :
    Except Refusal (Text × ConsumerConfig ω) := do
  let stream := trimSpace spec.namesp
  if stream = [] then throw .streamRequired
  let config ← consumerConfigOf zero spec
  return (stream, config)

/-- What `UpdateSubscription` sends when the form of a listed consumer is submitted as it is, and to
    which stream. -/
def savedConsumer (r : Renderer) (zero : ω) (stream : Text) (info : ConsumerInfo ω) :
    Option (Text × ConsumerConfig ω) :=
  let draft := toConsumerDraft r (subscriptionOf stream info)
  if consumerDraftError draft = none then
    (updateSubscription zero (toConsumerInput draft).spec).toOption
  else none

/-! ## Texts that no trimming touches -/

theorem trim_trim (text : Text) : trim (trim text) = trim text := Words.trim_trim _ _

theorem trimSpace_trimSpace (text : Text) : trimSpace (trimSpace text) = trimSpace text :=
  Words.trim_trim _ _

theorem mem_digits {c : Char} (h : c.isDigit = true) :
    c ∈ ['0', '1', '2', '3', '4', '5', '6', '7', '8', '9'] := by
  simp only [Char.isDigit, ge_iff_le, Bool.and_eq_true, decide_eq_true_eq,
    UInt32.le_iff_toNat_le] at h
  simp only [List.mem_cons, List.not_mem_nil, or_false, Char.ext_iff, ← UInt32.toNat_inj]
  simp at h ⊢
  omega

/-- A text without blanks, of the form or of the driver. -/
def Bare (text : Text) : Prop := ∀ c ∈ text, isWhiteSpace c = false ∧ isSpace c = false

section Bare

variable {text : Text}

theorem Bare.trim (h : Bare text) : trim text = text := Words.trim_eq_self fun c hc => (h c hc).1

theorem Bare.trimSpace (h : Bare text) : trimSpace text = text :=
  Words.trim_eq_self fun c hc => (h c hc).2

theorem bare_of_isDigit {c : Char} (h : c.isDigit = true) :
    isWhiteSpace c = false ∧ isSpace c = false := by
  have hdigits : ['0', '1', '2', '3', '4', '5', '6', '7', '8', '9'].all
      (fun c => !isWhiteSpace c && !isSpace c) = true := by decide
  simpa using List.all_eq_true.mp hdigits c (mem_digits h)

theorem bare_toDigits (n : Nat) : Bare (Nat.toDigits 10 n) := fun _ hc =>
  bare_of_isDigit (Duration.isDigit_of_mem_toDigits hc)

theorem bare_string (d : Int) : Bare (Duration.string d) := by
  have hmarks : Duration.marks.all (fun c => !isWhiteSpace c && !isSpace c) = true := by decide
  intro c hc
  rcases Duration.spelled_string d c hc with hdigit | hmark
  · exact bare_of_isDigit hdigit
  · simpa using List.all_eq_true.mp hmarks c hmark

end Bare

/-! ## Numbers -/

section Numbers

variable {r : Renderer} {attributes : Attributes} {key : Attr} {n : Int}

theorem number_natCast (n : Nat) : number n = Nat.toDigits 10 n :=
  Kafka.Browse.formatInt_natCast n

theorem number_negSucc (n : Nat) : number (Int.negSucc n) = '-' :: Nat.toDigits 10 (n + 1) := by
  have hrepr : formatInt (Int.negSucc n) = "-" ++ Nat.repr (n + 1) := rfl
  rw [number, hrepr, String.toList_append, Nat.toList_repr]
  rfl

theorem bare_number (n : Int) : Bare (number n) := by
  cases n with
  | ofNat n =>
    rw [Int.ofNat_eq_natCast, number_natCast]
    exact bare_toDigits n
  | negSucc n =>
    rw [number_negSucc]
    intro c hc
    rcases List.mem_cons.mp hc with rfl | hc
    · decide
    · exact bare_toDigits (n + 1) c hc

theorem number_ne_nil (n : Int) : number n ≠ [] := by
  cases n with
  | ofNat n =>
    rw [Int.ofNat_eq_natCast, number_natCast]
    exact Nat.toDigits_ne_nil
  | negSucc n =>
    rw [number_negSucc]
    exact List.cons_ne_nil _ _

/-- Digits and nothing else, read from the front. -/
theorem takeWhile_toDigits (n : Nat) :
    (Nat.toDigits 10 n).takeWhile Char.isDigit = Nat.toDigits 10 n := by
  rw [List.takeWhile_eq_self_iff]
  exact fun c hc => Duration.isDigit_of_mem_toDigits hc

/-- **The form reads the number that the driver writes.** -/
theorem parsePrefix_number (n : Int) : parsePrefix (number n) = some n := by
  have hfront : (number n).dropWhile isWhiteSpace = number n := by
    rw [List.dropWhile_eq_self_iff]
    intro hpos
    simp [(bare_number n _ (List.getElem_mem hpos)).1]
  rw [parsePrefix, hfront]
  cases n with
  | ofNat n =>
    rw [Int.ofNat_eq_natCast, number_natCast, Kafka.Browse.splitSign_toDigits]
    dsimp only
    rw [takeWhile_toDigits, if_neg Nat.toDigits_ne_nil, Nat.ofDigitChars_ten_toDigits, Int.one_mul]
  | negSucc n =>
    rw [number_negSucc, splitSign]
    dsimp only
    rw [takeWhile_toDigits, if_neg Nat.toDigits_ne_nil, Nat.ofDigitChars_ten_toDigits,
      Int.negSucc_eq, Int.neg_one_mul]
    rfl

/-- **So does the driver**, where it fits. -/
theorem parseInt_number (hlower : 0 ≤ n) (hupper : n < 2 ^ 63) :
    parseInt 64 (number n) = some n := by
  obtain ⟨n, rfl⟩ := Int.eq_ofNat_of_zero_le hlower
  rw [number_natCast]
  exact Kafka.Browse.parseInt_toDigits 64 n (by omega)

theorem parseInt_number_over (hover : 2 ^ 63 ≤ n) : parseInt 64 (number n) = none := by
  obtain ⟨n, rfl⟩ := Int.eq_ofNat_of_zero_le (show 0 ≤ n by omega)
  rw [number_natCast, parseInt, Kafka.Browse.splitSign_toDigits]
  dsimp only
  split
  · rw [Nat.ofDigitChars_ten_toDigits, if_neg (by omega)]
  · rfl

theorem numberAttr_number (h : attributes key = number n) :
    numberAttr r attributes key = some (r.shown n) := by
  rw [numberAttr, attr, h, if_neg (number_ne_nil n), Option.bind_some, parsePrefix_number,
    Option.map_some]

/-- What a limit is in the draft: a blank below zero. -/
theorem limitText_number (hr : r.Documented) (h : attributes key = number n) :
    limitText (limit r attributes key) = if n < 0 then [] else number (r.shown n) := by
  have hsign := hr.negative n
  rw [limit, numberAttr_number h, limitText]
  by_cases hn : n < 0
  · have hneg : ¬ 0 ≤ r.shown n := by omega
    simp [Option.filter_some, hn, hneg]
  · have hpos : 0 ≤ r.shown n := by omega
    simp [Option.filter_some, hn, hpos]

section Sent

variable {sent : Attributes} {fallback : Int64}

theorem int64Attr_blank (h : sent key = []) : int64Attr sent key fallback = fallback := by
  rw [int64Attr, h]
  rfl

theorem int64Attr_number (h : sent key = number n) (hlower : 0 ≤ n) (hupper : n < 2 ^ 63) :
    (int64Attr sent key fallback).toInt = n := by
  rw [int64Attr, h, (bare_number n).trimSpace, parseInt_number hlower hupper, Option.map_some,
    Option.getD_some, Int64.toInt_ofInt_of_le (by omega) hupper]

theorem int64Attr_over (h : sent key = number n) (hover : 2 ^ 63 ≤ n) :
    int64Attr sent key fallback = fallback := by
  rw [int64Attr, h, (bare_number n).trimSpace, parseInt_number_over hover]
  rfl

end Sent

/-- The form shows a blank for what is below zero, and submits it. -/
theorem blank_of_negative {sent : Attributes} (hr : r.Documented) (h : attributes key = number n)
    (hsent : sent key = Edit.trim (limitText (limit r attributes key))) (hn : n < 0) :
    sent key = [] := by
  rw [hsent, limitText_number hr h, if_pos hn]
  rfl

/-- An integer from zero on that a renderer shows as it is. -/
def Renderer.Holds (r : Renderer) (n : Int) : Prop := 0 ≤ n ∧ r.shown n = n

/-- **A limit is sent as it was** where it is the fallback of the driver and below zero, or from zero
    on and one that the renderer shows as it is. -/
theorem int64Attr_limit {sent : Attributes} {n fallback : Int64} (hr : r.Documented)
    (hfallback : -2 ^ 53 ≤ fallback.toInt ∧ fallback.toInt ≤ 2 ^ 53)
    (h : attributes key = number n.toInt)
    (hsent : sent key = Edit.trim (limitText (limit r attributes key))) :
    int64Attr sent key fallback = n ↔ n.toInt < 0 ∧ fallback = n ∨ r.Holds n.toInt := by
  have hsign := hr.negative n.toInt
  by_cases hn : n.toInt < 0
  · -- a blank is the fallback
    have hnot : ¬ r.Holds n.toInt := fun h => absurd h.1 (by omega)
    simp [int64Attr_blank (blank_of_negative hr h hsent hn), hn, hnot]
  · rw [limitText_number hr h, if_neg hn, (bare_number _).trim] at hsent
    by_cases hover : 2 ^ 63 ≤ r.shown n.toInt
    · -- what is shown does not fit: the fallback again, which is not this number
      have hupper := n.toInt_lt
      have hnot : ¬ r.Holds n.toInt := fun h => by
        have := h.2
        omega
      have hother : fallback ≠ n := by
        rintro rfl
        rw [hr.exact hfallback.1 hfallback.2] at hover
        omega
      simp [int64Attr_over hsent hover, hn, hnot, hother]
    · have hvalue := @int64Attr_number key _ _ fallback hsent (by omega) (by omega)
      rw [← Int64.toInt_inj, hvalue, Renderer.Holds]
      constructor
      · exact fun h => .inr ⟨by omega, h⟩
      · rintro (h | h)
        · exact absurd h.1 hn
        · exact h.2

end Numbers

/-! ## Lists of subjects -/

/-- A subject that both cutters take whole. -/
def Clean (subject : Text) : Prop :=
  Words.IsField isSeparator subject ∧ trimSpace subject = subject

section Lists

variable {attributes : Attributes} {key : Attr} {subjects fields : List Text} {text subject : Text}

theorem isSeparator_of_isWhiteSpace (c : Char) (h : isWhiteSpace c = true) : isSeparator c = true := by
  simp [isSeparator, h]

theorem splitField_eq (raw : Text) : splitField raw = Words.fieldsFunc isSeparator raw := by
  have hfield : ∀ field ∈ Words.fieldsFunc isSeparator raw, trim field = field ∧ field ≠ [] := by
    intro field hmem
    obtain ⟨hne, hletters⟩ := Words.isField_of_mem_fieldsFunc isSeparator raw field hmem
    refine ⟨Words.trim_eq_self fun c hc => ?_, hne⟩
    have hc := hletters c hc
    simp only [isSeparator, Bool.or_eq_false_iff] at hc
    exact hc.1.1
  rw [splitField, List.map_congr_left fun field hmem => (hfield field hmem).1, List.map_id',
    List.filter_eq_self]
  simpa using fun field hmem => (hfield field hmem).2

theorem fieldsFunc_joinComma (texts : List Text) :
    Words.fieldsFunc isSeparator (joinComma texts) =
      texts.flatMap (Words.fieldsFunc isSeparator) :=
  Words.fieldsFunc_intercalate_word (by decide) (List.all_eq_true.mp (by decide)) texts

/-- Trimming the pieces and dropping the blank ones loses no field. -/
theorem flatMap_trimmed (pieces : List Text) :
    ((pieces.map trim).filter fun piece => piece ≠ []).flatMap (Words.fieldsFunc isSeparator) =
      pieces.flatMap (Words.fieldsFunc isSeparator) := by
  induction pieces with
  | nil => rfl
  | cons piece pieces ih =>
    have hfields : Words.fieldsFunc isSeparator (trim piece) = Words.fieldsFunc isSeparator piece :=
      Words.fieldsFunc_trim isSeparator_of_isWhiteSpace piece
    rw [List.map_cons, List.filter_cons, List.flatMap_cons, ← hfields, ← ih]
    split
    · rw [List.flatMap_cons]
    · rename_i hblank
      have hnone : trim piece = [] := by simpa using hblank
      rw [hnone]
      rfl

/-- **The form has the fields of the attribute.** -/
theorem splitField_listAttr (attributes : Attributes) (key : Attr) :
    splitField (joinComma (listAttr attributes key)) =
      Words.fieldsFunc isSeparator (attributes key) := by
  rw [splitField_eq, fieldsFunc_joinComma, listAttr, attr]
  split
  · rename_i h
    split at h
    · rename_i hblank
      rw [hblank]
      rfl
    · cases h
  · rename_i raw h
    split at h
    · cases h
    · cases h
      rw [flatMap_trimmed, Words.flatMap_splitOn (by decide)]

/-! ### What the driver makes of them -/

theorem mem_collect (h : text ∈ collect subjects fields) :
    text ∈ subjects ∨ text ≠ [] ∧ ∃ field ∈ fields, text = trimSpace field := by
  induction fields generalizing subjects with
  | nil => exact .inl h
  | cons field rest ih =>
    have hlater : (text ≠ [] ∧ ∃ field ∈ rest, text = trimSpace field) →
        text ≠ [] ∧ ∃ other ∈ field :: rest, text = trimSpace other := by
      rintro ⟨hne, other, hmem, heq⟩
      exact ⟨hne, other, List.mem_cons_of_mem _ hmem, heq⟩
    rw [collect] at h
    split at h
    · exact (ih h).imp id hlater
    · rename_i hnew
      rcases ih h with hmem | hrest
      · rcases List.mem_append.mp hmem with hmem | hmem
        · exact .inl hmem
        · rw [List.mem_singleton] at hmem
          rw [not_or] at hnew
          exact .inr ⟨by rw [hmem]; exact hnew.1, field, List.mem_cons_self, hmem⟩
      · exact .inr (hlater hrest)

theorem nodup_collect (h : subjects.Nodup) : (collect subjects fields).Nodup := by
  induction fields generalizing subjects with
  | nil => exact h
  | cons field rest ih =>
    rw [collect]
    split
    · exact ih h
    · rename_i hnew
      rw [not_or] at hnew
      have hnodup := h.concat hnew.2
      rw [List.concat_eq_append] at hnodup
      exact ih hnodup

/-- Fields that are trimmed, not blank and not twice there are all kept. -/
theorem collect_eq_append (hfields : ∀ field ∈ fields, field ≠ [] ∧ trimSpace field = field)
    (h : (subjects ++ fields).Nodup) : collect subjects fields = subjects ++ fields := by
  induction fields generalizing subjects with
  | nil => rw [collect, List.append_nil]
  | cons field rest ih =>
    obtain ⟨hne, htrim⟩ := hfields field List.mem_cons_self
    have hnew : field ∉ subjects := fun hmem =>
      (List.nodup_append.mp h).2.2 field hmem field List.mem_cons_self rfl
    rw [collect, htrim, if_neg (not_or.mpr ⟨hne, hnew⟩),
      ih (fun other hmem => hfields other (List.mem_cons_of_mem _ hmem)) (by simpa using h)]
    simp

/-- What the driver makes of an attribute that went through the form. -/
def gathered (text : Text) : List Text := collect [] (Words.fieldsFunc isSeparator text)

theorem isSeparator_of_isListBreak (c : Char) (h : isListBreak c = true) : isSeparator c = true := by
  have hbreaks : [',', ';', '\n', '\r', '\t', ' '].all isSeparator = true := by decide
  exact List.all_eq_true.mp hbreaks c (List.contains_iff_mem.mp h)

/-- **A list goes through the form by its fields.** -/
theorem splitSubjects_resent (attributes : Attributes) (key : Attr) :
    splitSubjects ([','].intercalate (splitField (joinComma (listAttr attributes key)))) =
      gathered (attributes key) := by
  have hfields : ∀ field ∈ Words.fieldsFunc isSeparator (attributes key),
      Words.IsField isListBreak field := by
    intro field hmem
    obtain ⟨hne, hletters⟩ := Words.isField_of_mem_fieldsFunc _ _ field hmem
    refine ⟨hne, fun c hc => ?_⟩
    by_contra hbreak
    have hsep := isSeparator_of_isListBreak c (by simpa using hbreak)
    rw [hletters c hc] at hsep
    cases hsep
  rw [splitField_listAttr, splitSubjects, Words.fieldsFunc_intercalate isListBreak ',' (by decide) _
    hfields, gathered]

theorem nodup_gathered (text : Text) : (gathered text).Nodup := nodup_collect List.nodup_nil

/-- **All that the driver gathers is clean.** -/
theorem clean_of_mem_gathered (h : subject ∈ gathered text) : Clean subject := by
  rcases mem_collect h with hnone | ⟨hne, field, hmem, rfl⟩
  · cases hnone
  · have hletters := (Words.isField_of_mem_fieldsFunc _ _ field hmem).2
    exact ⟨⟨hne, fun c hc => hletters c (Words.mem_of_mem_trim hc)⟩, trimSpace_trimSpace field⟩

/-- Clean subjects are the fields of what they are joined to. -/
theorem fieldsFunc_joinComma_clean (hclean : ∀ subject ∈ subjects, Clean subject) :
    Words.fieldsFunc isSeparator (joinComma subjects) = subjects := by
  rw [fieldsFunc_joinComma]
  induction subjects with
  | nil => rfl
  | cons subject rest ih =>
    rw [List.flatMap_cons, Words.fieldsFunc_of_isField (hclean subject List.mem_cons_self).1,
      ih fun other hmem => hclean other (List.mem_cons_of_mem _ hmem)]
    rfl

/-- **A list of clean subjects is gathered as it is.** -/
theorem gathered_joinComma (hclean : ∀ subject ∈ subjects, Clean subject) (h : subjects.Nodup) :
    gathered (joinComma subjects) = subjects := by
  rw [gathered, fieldsFunc_joinComma_clean hclean]
  exact collect_eq_append (fun subject hmem => ⟨(hclean subject hmem).1.1, (hclean subject hmem).2⟩) h

end Lists

/-! ## The checks of the driver -/

section Steps

variable {α β : Type} {x : Except Refusal α} {f : α → Except Refusal β} {b : β}

theorem bind_eq_ok_iff : x >>= f = .ok b ↔ ∃ a, x = .ok a ∧ f a = .ok b := by
  cases x <;> simp [bind, Except.bind]

theorem exists_unit {p : Unit → Prop} : (∃ u, p u) ↔ p () :=
  ⟨fun ⟨_, h⟩ => h, fun h => ⟨(), h⟩⟩

theorem pure_eq_ok_iff {a b : α} : (pure a : Except Refusal α) = .ok b ↔ a = b := by
  simp [pure, Except.pure]

/-- A check that refuses is passed where its condition is not met. -/
theorem guard_eq_ok_iff {c : Prop} [Decidable c] {refusal : Refusal} {y : Except Refusal β} :
    (if c then (throw refusal : Except Refusal α) >>= f else y) = .ok b ↔ ¬ c ∧ y = .ok b := by
  split <;> simp [*, throw, throwThe, MonadExceptOf.throw, bind, Except.bind]

/-- A check that is only made where its condition is met. -/
theorem check_eq_ok_iff {c : Prop} [Decidable c] {x : Except Refusal Unit}
    {f : Unit → Except Refusal β} :
    (if c then x >>= f else f ()) = .ok b ↔ (c → x = .ok ()) ∧ f () = .ok b := by
  split
  · rename_i hc
    rw [bind_eq_ok_iff, exists_unit]
    simp [hc]
  · rename_i hc
    simp [hc]

end Steps

section Checks

variable {subject name : Text} {subjects : List Text}

theorem validateTokens_eq_ok_iff (tokens : List Text) :
    validateTokens subject tokens = .ok () ↔ validTokens tokens = true := by
  induction tokens with
  | nil => simp [validateTokens, validTokens]
  | cons token rest ih =>
    rw [validateTokens, validTokens, Bool.and_eq_true, ← ih]
    by_cases hempty : token = []
    · simp [hempty]
    · by_cases hrest : token = ['>']
      · cases rest <;> simp [hrest, validateTokens]
      · by_cases hstar : token = ['*']
        · simp [hstar]
        · by_cases hpart : token.any isWildcard = true
          · simp [hempty, hrest, hstar, hpart]
          · simp [hempty, hrest, hstar, hpart]

/-- **The driver and the form take the same subjects.** -/
theorem validateSubject_eq_ok_iff : validateSubject subject = .ok () ↔ validSubject subject = true := by
  rw [validateSubject, validSubject]
  split
  · rename_i hnone
    rw [hnone]
    decide
  · exact validateTokens_eq_ok_iff _

theorem validateSubjects_eq_ok_iff :
    validateSubjects subjects = .ok () ↔ ∀ subject ∈ subjects, validSubject subject = true := by
  induction subjects with
  | nil => simp [validateSubjects]
  | cons subject rest ih =>
    rw [validateSubjects, List.forall_mem_cons, ← ih, ← validateSubject_eq_ok_iff]
    cases validateSubject subject with
    | error refusal => simp [Except.bind]
    | ok => simp [Except.bind]

theorem validateStreamName_eq_ok_iff :
    validateStreamName name = .ok () ↔ name ≠ [] ∧ ∀ c ∈ forbiddenChars, c ∉ name := by
  rw [validateStreamName]
  split
  · rename_i hnone
    simp [hnone]
  · rename_i hname
    split
    · rename_i c hfound
      have hmem := List.mem_of_find?_eq_some hfound
      have hc := List.find?_some hfound
      rw [List.contains_iff_mem] at hc
      simp only [reduceCtorEq, false_iff, not_and]
      exact fun _ hall => hall c hmem hc
    · rename_i hnone
      simp only [true_iff]
      refine ⟨hname, fun c hc hmem => ?_⟩
      have := List.find?_eq_none.mp hnone c hc
      exact this (List.contains_iff_mem.mpr hmem)

end Checks

/-! ## Durations -/

section Durations

variable {attributes sent : Attributes} {key : Attr} {n : Int64}

theorem durationAttr_blank (h : sent key = []) : durationAttr sent key = .ok 0 := by
  rw [durationAttr, h]
  rfl

/-- **A duration is sent as it was**, unless it is negative. -/
theorem durationAttr_string (h : sent key = Duration.string n.toInt) :
    durationAttr sent key =
      if n.toInt < 0 then .error (.negative (Duration.string n.toInt)) else .ok n := by
  have hread : Duration.parse (Duration.string n.toInt) = some n.toInt :=
    Duration.parse_string n.le_toInt n.toInt_lt
  rw [durationAttr, h, (bare_string _).trimSpace]
  split
  · -- no other span than zero is written like this
    rename_i hzero
    have hvalue : n.toInt = 0 := by
      have hparse : Duration.parse [] = none ∧ Duration.parse "0".toList = some 0 ∧
          Duration.parse "0s".toList = some 0 := by decide
      rcases hzero with hnone | hdigit | hspan
      · rw [hnone, hparse.1] at hread
        cases hread
      · rw [hdigit, hparse.2.1] at hread
        exact (Option.some.inj hread).symm
      · rw [hspan, hparse.2.2] at hread
        exact (Option.some.inj hread).symm
    rw [if_neg (by omega), ← Int64.toInt_inj.mp (hvalue.trans Int64.toInt_zero.symm)]
  · rw [hread]
    dsimp only
    rw [Int64.ofInt_toInt]

theorem string_ne_nil (d : Int) : Duration.string d ≠ [] := by
  rw [Duration.string]
  obtain ⟨first, rest, hformat, -⟩ := Duration.format_shape d.natAbs
  split
  · exact List.cons_ne_nil _ _
  · rw [hformat]
    exact List.cons_ne_nil _ _

theorem attr_string (h : attributes key = Duration.string n.toInt) :
    attr attributes key = some (Duration.string n.toInt) := by
  rw [attr, h, if_neg (string_ne_nil _)]

/-- So is one that the form shows as a blank when it is zero. -/
theorem durationAttr_duration (h : attributes key = Duration.string n.toInt)
    (hsent : sent key = trim ((duration attributes key).getD [])) :
    durationAttr sent key =
      if n.toInt < 0 then .error (.negative (Duration.string n.toInt)) else .ok n := by
  rw [duration, attr_string h, Option.filter_some] at hsent
  split at hsent
  · rw [Option.getD_some, (bare_string _).trim] at hsent
    exact durationAttr_string hsent
  · rename_i hspan
    have hzero : Duration.string n.toInt = "0s".toList := by simpa using hspan
    rw [← @durationAttr_string (fun _ => Duration.string n.toInt) key n rfl,
      durationAttr_blank hsent, durationAttr, hzero]
    rfl

end Durations

/-! ## Names -/

/-- A name that form and driver take as it is. -/
structure NameKept (name : Text) : Prop where
  some : name ≠ []
  letters : ∀ c ∈ name, isNameBreak c = false
  trimmed : trimSpace name = name

section Names

variable {name : Text}

theorem isNameBreak_of_mem {c : Char} (h : c ∈ forbiddenChars) : isNameBreak c = true := by
  have hforbidden : forbiddenChars.all isNameBreak = true := by decide
  exact List.all_eq_true.mp hforbidden c h

/-- It is checked letter by letter. -/
theorem NameKept.of_all (hsome : name ≠ []) (hletters : (name.all fun c => !isNameBreak c) = true)
    (htrimmed : trimSpace name = name) : NameKept name :=
  ⟨hsome, fun c hc => by simpa using List.all_eq_true.mp hletters c hc, htrimmed⟩

theorem NameKept.trim (h : NameKept name) : trim name = name := by
  apply Words.trim_eq_self
  intro c hc
  have hbreak := h.letters c hc
  simp only [isNameBreak, Bool.or_eq_false_iff] at hbreak
  exact hbreak.1

theorem NameKept.allowed (h : NameKept name) : ∀ c ∈ forbiddenChars, c ∉ name := by
  intro c hc hmem
  have hbreak := h.letters c hmem
  rw [isNameBreak_of_mem hc] at hbreak
  cases hbreak

/-- **What is taken as it is**: the form finds nothing wrong with it and nothing is trimmed off. -/
theorem nameKept_iff : NameKept name ↔
    Edit.trim name ≠ [] ∧ (Edit.trim name).any isNameBreak = false ∧
      trimSpace (Edit.trim name) = name := by
  constructor
  · intro h
    rw [h.trim]
    exact ⟨h.some, by simpa using h.letters, h.trimmed⟩
  · rintro ⟨hsome, hletters, htrim⟩
    rw [List.any_eq_false] at hletters
    have hkept : ∀ c ∈ name, c ∈ Edit.trim name := by
      intro c hc
      rw [← htrim] at hc
      exact Words.mem_of_mem_trim hc
    refine ⟨?_, fun c hc => by simpa using hletters c (hkept c hc), ?_⟩
    · rintro rfl
      exact hsome rfl
    · rw [← htrim, trimSpace_trimSpace]

end Names

/-! ## Streams -/

section Streams

variable {r : Renderer} {zero : ω} {info : StreamInfo ω}

/-- Nothing is wrong where a check finds nothing and nor do those after it. -/
theorem check_eq_none_iff {c : Prop} [Decidable c] {error : DraftError} {rest : Option DraftError} :
    (if c then some error else rest) = none ↔ ¬ c ∧ rest = none := by
  split <;> simp [*]

theorem any_invalid_eq_false_iff {subjects : List Text} :
    (subjects.any fun subject => !validSubject subject) = false ↔
      ∀ subject ∈ subjects, validSubject subject = true := by
  simp

theorem streamDraftError_eq_none_iff {draft : StreamDraft} :
    streamDraftError draft = none ↔
      trim draft.name ≠ [] ∧ (trim draft.name).any isNameBreak = false ∧
        splitField draft.subjects ≠ [] ∧
        (∀ subject ∈ splitField draft.subjects, validSubject subject = true) ∧
        1 ≤ draft.replicas ∧ draft.replicas ≤ 5 := by
  simp only [streamDraftError, check_eq_none_iff, Bool.not_eq_true, any_invalid_eq_false_iff,
    Int.not_lt, and_true, ne_eq]

/-- What the driver builds of a form, and of which. -/
theorem streamConfigOf_eq_ok_iff {input : StreamInput} {config : StreamConfig ω} :
    streamConfigOf zero input.spec = .ok config ↔
      validateStreamName (trimSpace input.name) = .ok () ∧
        splitSubjects input.subjects ≠ [] ∧
        validateSubjects (splitSubjects input.subjects) = .ok () ∧
        ∃ age, durationAttr input.spec.attributes .maxAge = .ok age ∧
          ∃ duplicates, durationAttr input.spec.attributes .duplicates = .ok duplicates ∧
            builtStream zero input.spec age duplicates = config := by
  have hname : input.spec.name = input.name := rfl
  have hpartitions : ¬ 0 < input.spec.partitions := by
    rw [show input.spec.partitions = 0 from rfl]
    decide
  have hsubjects : input.spec.attributes .subjects = input.subjects := rfl
  have hmirror : input.spec.attributes .mirrorOf = [] := rfl
  simp only [streamConfigOf, bind_eq_ok_iff, guard_eq_ok_iff, pure_eq_ok_iff, hname, hpartitions,
    hsubjects, hmirror, and_true, not_false_eq_true, true_and, exists_unit, ne_eq]

/-- The input that an unedited form submits. -/
def streamInput (r : Renderer) (info : StreamInfo ω) : StreamInput :=
  toStreamInput (toStreamDraft r (destinationOf info))

theorem attr_getD (attributes : Attributes) (key : Attr) :
    (attr attributes key).getD [] = attributes key := by
  rw [attr]
  split
  · rename_i hblank
    exact hblank.symm
  · rfl

/-- A name that is never blank is read as it is. -/
theorem attr_getD_of_ne {attributes : Attributes} {key : Attr} {name : Text}
    (h : attributes key = name) (hne : name ≠ []) (fallback : Text) :
    (attr attributes key).getD fallback = name := by
  rw [attr, h, if_neg hne, Option.getD_some]

theorem retention_read (policy : RetentionPolicy) :
    retentionName policy ≠ [] ∧ retentionPolicy (retentionName policy) = policy := by
  cases policy <;> decide

theorem storage_read (storage : StorageType) :
    storageName storage ≠ [] ∧ storageType (storageName storage) = storage := by
  cases storage <;> decide

theorem discard_read (policy : DiscardPolicy) :
    discardName policy ≠ [] ∧ discardPolicy (discardName policy) = policy := by
  cases policy <;> decide

theorem compression_read (compression : StoreCompression) :
    compressionName compression ≠ [] ∧
      (if compressionName compression = "s2".toList then StoreCompression.s2 else .none) =
        compression := by
  cases compression <;> decide

/-- **A switch is sent as it was.** -/
theorem boolAttr_resent {listed sent : Attributes} {key : Attr} {b : Bool}
    (hlisted : listed key = formatBool b)
    (hsent : sent key =
      if decide (attr listed key = some "true".toList) = true then "true".toList else []) :
    boolAttr sent key = b := by
  rw [boolAttr, hsent, attr, hlisted]
  cases b <;> decide

/-- **The number of replicas** passes the form and is sent as it was where it is from one to five. -/
theorem replicas_kept_iff (hr : r.Documented) {draft : StreamDraft}
    (hdraft : draft = toStreamDraft r (destinationOf info)) :
    (1 ≤ draft.replicas ∧ draft.replicas ≤ 5) ∧
        int64Attr (toStreamInput draft).spec.attributes .replicas 1 = info.config.replicas ↔
      1 ≤ info.config.replicas.toInt ∧ info.config.replicas.toInt ≤ 5 := by
  have hshown : draft.replicas = r.shown (max info.config.replicas.toInt 1) := by
    have hlisted : (destinationOf info).attributes .replicas =
      number (max info.config.replicas.toInt 1) := rfl
    rw [hdraft, toStreamDraft, numberAttr_number hlisted, Option.getD_some]
  have hsent : (toStreamInput draft).spec.attributes .replicas =
      if 0 < draft.replicas then number draft.replicas else [] := rfl
  have hvalue (h : 1 ≤ draft.replicas ∧ draft.replicas ≤ 5) :
      (int64Attr (toStreamInput draft).spec.attributes .replicas 1).toInt = draft.replicas := by
    rw [if_pos (by omega)] at hsent
    exact int64Attr_number hsent (by omega) (by omega)
  constructor
  · rintro ⟨hcheck, heq⟩
    rw [← heq, hvalue hcheck]
    exact hcheck
  · intro h
    have hsame : draft.replicas = info.config.replicas.toInt := by
      rw [hshown, max_eq_left h.1, hr.exact (by omega) (by omega)]
    have hcheck : 1 ≤ draft.replicas ∧ draft.replicas ≤ 5 := by omega
    exact ⟨hcheck, Int64.toInt_inj.mp ((hvalue hcheck).trans hsame)⟩

/-- **A limit of a stream** is sent as it was where there is none or the renderer shows it as it is. -/
theorem unlimited_kept_iff (hr : r.Documented) {listed sent : Attributes} {key : Attr} {n : Int64}
    (hlisted : listed key = number n.toInt)
    (hsent : sent key = trim (limitText (limit r listed key))) :
    int64Attr sent key (-1) = n ↔ n = -1 ∨ r.Holds n.toInt := by
  rw [int64Attr_limit hr (by decide) hlisted hsent]
  refine or_congr_left ⟨fun h => h.2.symm, fun h => ⟨?_, h.symm⟩⟩
  rw [h]
  decide

/-- A limit of half the bits is always shown as it is. -/
theorem maxMsgSize_kept_iff (hr : r.Documented) {listed sent : Attributes} {key : Attr} {n : Int32}
    (hlisted : listed key = number n.toInt64.toInt)
    (hsent : sent key = trim (limitText (limit r listed key))) :
    (int64Attr sent key (-1)).toInt32 = n ↔ -1 ≤ n.toInt := by
  have hsame := n.toInt_toInt64
  have hlower := n.le_toInt
  have hupper := n.toInt_lt
  by_cases hpos : 0 ≤ n.toInt
  · have hvalue := (unlimited_kept_iff hr hlisted hsent).mpr
      (.inr ⟨by omega, hr.exact (by omega) (by omega)⟩)
    rw [hvalue, Int32.toInt32_toInt64]
    simp only [true_iff]
    omega
  · have hblank := blank_of_negative hr hlisted hsent (by omega)
    rw [int64Attr_blank hblank, ← Int32.toInt_inj, show (-1 : Int64).toInt32.toInt = -1 by decide]
    omega

/-- What of a stream comes through its form: `StreamKept` names each field that must be as it says for
    an unedited save to send it. The enumerations and switches always do. -/
structure StreamKept (r : Renderer) (zero : ω) (config : StreamConfig ω) : Prop where
  name : NameKept config.name
  description : trim config.description = config.description
  subjects : config.subjects ≠ [] ∧ config.subjects.Nodup ∧
    ∀ subject ∈ config.subjects, Clean subject ∧ validSubject subject = true
  replicas : 1 ≤ config.replicas.toInt ∧ config.replicas.toInt ≤ 5
  maxMsgs : config.maxMsgs = -1 ∨ r.Holds config.maxMsgs.toInt
  maxBytes : config.maxBytes = -1 ∨ r.Holds config.maxBytes.toInt
  maxMsgsPerSubject : config.maxMsgsPerSubject = -1 ∨ r.Holds config.maxMsgsPerSubject.toInt
  maxMsgSize : -1 ≤ config.maxMsgSize.toInt
  maxAge : 0 ≤ config.maxAge.toInt
  duplicates : 0 ≤ config.duplicates.toInt
  flags : config.isSealed = false ∧ config.allowDirect = false
  other : config.other = zero

/-- What the fields that are built anew come to. -/
theorem builtStream_eq_iff (hr : r.Documented) :
    builtStream zero (streamInput r info).spec info.config.maxAge info.config.duplicates =
        info.config ↔
      trimSpace (trim info.config.name) = info.config.name ∧
        trim info.config.description = info.config.description ∧
        gathered (joinComma info.config.subjects) = info.config.subjects ∧
        int64Attr (streamInput r info).spec.attributes .replicas 1 = info.config.replicas ∧
        (info.config.maxMsgs = -1 ∨ r.Holds info.config.maxMsgs.toInt) ∧
        (info.config.maxBytes = -1 ∨ r.Holds info.config.maxBytes.toInt) ∧
        (info.config.maxMsgsPerSubject = -1 ∨ r.Holds info.config.maxMsgsPerSubject.toInt) ∧
        -1 ≤ info.config.maxMsgSize.toInt ∧
        (info.config.isSealed = false ∧ info.config.allowDirect = false) ∧
        info.config.other = zero := by
  have hdescription : (streamInput r info).spec.attributes .description =
      trim info.config.description :=
    congrArg trim (attr_getD (destinationOf info).attributes .description)
  have hretention : (streamInput r info).spec.attributes .retention =
      retentionName info.config.retention := attr_getD_of_ne rfl (retention_read _).1 _
  have hstorage : (streamInput r info).spec.attributes .storage = storageName info.config.storage :=
    attr_getD_of_ne rfl (storage_read _).1 _
  have hdiscard : (streamInput r info).spec.attributes .discard = discardName info.config.discard :=
    attr_getD_of_ne rfl (discard_read _).1 _
  have hcompression : (streamInput r info).spec.attributes .compression =
      compressionName info.config.compression := attr_getD_of_ne rfl (compression_read _).1 _
  have hsubjects : splitSubjects ((streamInput r info).spec.attributes .subjects) =
      gathered (joinComma info.config.subjects) :=
    splitSubjects_resent (destinationOf info).attributes .subjects
  have hdelete : boolAttr (streamInput r info).spec.attributes .denyDelete =
      info.config.denyDelete := @boolAttr_resent (destinationOf info).attributes _ _ _ rfl rfl
  have hpurge : boolAttr (streamInput r info).spec.attributes .denyPurge = info.config.denyPurge :=
    @boolAttr_resent (destinationOf info).attributes _ _ _ rfl rfl
  have hrollup : boolAttr (streamInput r info).spec.attributes .allowRollup =
      info.config.allowRollup := @boolAttr_resent (destinationOf info).attributes _ _ _ rfl rfl
  have hmsgs := @unlimited_kept_iff r hr (destinationOf info).attributes
    (streamInput r info).spec.attributes .maxMsgs info.config.maxMsgs rfl rfl
  have hbytes := @unlimited_kept_iff r hr (destinationOf info).attributes
    (streamInput r info).spec.attributes .maxBytes info.config.maxBytes rfl rfl
  have hper := @unlimited_kept_iff r hr (destinationOf info).attributes
    (streamInput r info).spec.attributes .maxMsgsPer info.config.maxMsgsPerSubject rfl rfl
  have hsize := @maxMsgSize_kept_iff r hr (destinationOf info).attributes
    (streamInput r info).spec.attributes .maxMsgSize info.config.maxMsgSize rfl rfl
  have hname : (streamInput r info).spec.name = trim info.config.name := rfl
  rw [StreamConfig.ext_iff]
  simp only [builtStream, hname, hdescription, hretention, hstorage, hdiscard, hcompression,
    hsubjects, hdelete, hpurge, hrollup, hmsgs, hbytes, hper, hsize, (retention_read _).2,
    (storage_read _).2, (discard_read _).2, (compression_read _).2, true_and, and_assoc,
    eq_comm (a := false), eq_comm (a := zero)]

theorem savedStream_eq_some_iff {config : StreamConfig ω} :
    savedStream r zero info = some config ↔
      streamDraftError (toStreamDraft r (destinationOf info)) = none ∧
        streamConfigOf zero (streamInput r info).spec = .ok config := by
  rw [savedStream]
  split
  · rename_i hcheck
    rw [hcheck, streamInput]
    cases streamConfigOf zero (toStreamInput (toStreamDraft r (destinationOf info))).spec with
    | error refusal => simp [Except.toOption]
    | ok built => simp [Except.toOption]
  · rename_i hcheck
    simp [hcheck]

/-- A duration that is sent is not negative, and is the one that was listed. -/
theorem duration_kept_iff {key : Attr} {n age : Int64}
    (hlisted : (destinationOf info).attributes key = Duration.string n.toInt)
    (hsent : (streamInput r info).spec.attributes key =
      trim ((duration (destinationOf info).attributes key).getD [])) :
    durationAttr (streamInput r info).spec.attributes key = .ok age ↔ 0 ≤ n.toInt ∧ age = n := by
  rw [durationAttr_duration hlisted hsent]
  split
  · rename_i hneg
    simp only [reduceCtorEq, false_iff, not_and]
    intro hpos
    omega
  · rename_i hpos
    rw [Except.ok.injEq, eq_comm]
    exact ⟨fun h => ⟨by omega, h⟩, fun h => h.2⟩

/-- **A stream is sent as it is stored** by an unedited save exactly where it is kept. -/
theorem savedStream_eq_iff (hr : r.Documented) :
    savedStream r zero info = some info.config ↔ StreamKept r zero info.config := by
  have hfields : splitField (toStreamDraft r (destinationOf info)).subjects =
      Words.fieldsFunc isSeparator (joinComma info.config.subjects) :=
    splitField_listAttr (destinationOf info).attributes .subjects
  have hname : (streamInput r info).name = trim info.config.name := rfl
  have hsubjects : splitSubjects (streamInput r info).subjects =
      gathered (joinComma info.config.subjects) :=
    splitSubjects_resent (destinationOf info).attributes .subjects
  have hage := @duration_kept_iff ω r info .maxAge info.config.maxAge
  have hduplicates := @duration_kept_iff ω r info .duplicates info.config.duplicates
  have hreplicas := @replicas_kept_iff ω r info hr _ rfl
  have hbuilt := @builtStream_eq_iff ω r zero info hr
  rw [savedStream_eq_some_iff, streamDraftError_eq_none_iff, streamConfigOf_eq_ok_iff, hfields, hname,
    hsubjects]
  constructor
  · rintro ⟨⟨hsome, hletters, -, -, hcheck⟩, -, hnone, hvalid, age, hage', window, hwindow, heq⟩
    obtain ⟨hagePos, rfl⟩ := (hage rfl rfl).mp hage'
    obtain ⟨hwindowPos, rfl⟩ := (hduplicates rfl rfl).mp hwindow
    obtain ⟨htrim, hdescription, hgathered, hcopies, hmsgs, hbytes, hper, hsize, hflags, hother⟩ :=
      hbuilt.mp heq
    rw [hgathered] at hnone hvalid
    have hclean : ∀ subject ∈ info.config.subjects, Clean subject := by
      rw [← hgathered]
      exact fun subject hmem => clean_of_mem_gathered hmem
    have hnodup : info.config.subjects.Nodup := by
      rw [← hgathered]
      exact nodup_gathered _
    have hall := validateSubjects_eq_ok_iff.mp hvalid
    exact {
      name := nameKept_iff.mpr ⟨hsome, hletters, htrim⟩
      description := hdescription
      subjects := ⟨hnone, hnodup, fun subject hmem => ⟨hclean subject hmem, hall subject hmem⟩⟩
      replicas := hreplicas.mp ⟨hcheck, hcopies⟩
      maxMsgs := hmsgs
      maxBytes := hbytes
      maxMsgsPerSubject := hper
      maxMsgSize := hsize
      maxAge := hagePos
      duplicates := hwindowPos
      flags := hflags
      other := hother }
  · intro h
    obtain ⟨hnone, hnodup, hall⟩ := h.subjects
    obtain ⟨hsome, hletters, htrim⟩ := nameKept_iff.mp h.name
    obtain ⟨hcheck, hcopies⟩ := hreplicas.mpr h.replicas
    have hclean : ∀ subject ∈ info.config.subjects, Clean subject := fun subject hmem =>
      (hall subject hmem).1
    have hvalid : ∀ subject ∈ info.config.subjects, validSubject subject = true :=
      fun subject hmem => (hall subject hmem).2
    have hgathered := gathered_joinComma hclean hnodup
    rw [fieldsFunc_joinComma_clean hclean, hgathered, htrim]
    refine ⟨⟨hsome, hletters, hnone, hvalid, hcheck⟩, ?_, hnone,
      validateSubjects_eq_ok_iff.mpr hvalid, _, (hage rfl rfl).mpr ⟨h.maxAge, rfl⟩, _,
      (hduplicates rfl rfl).mpr ⟨h.duplicates, rfl⟩, hbuilt.mpr ⟨htrim, h.description, hgathered,
        hcopies, h.maxMsgs, h.maxBytes, h.maxMsgsPerSubject, h.maxMsgSize, h.flags, h.other⟩⟩
    exact validateStreamName_eq_ok_iff.mpr ⟨h.name.some, h.name.allowed⟩

end Streams

/-! ## Consumers -/

/-- What neither trimming touches. -/
def Trimmed (text : Text) : Prop := trim text = text ∧ trimSpace text = text

/-- Both trimmings leave a text as it is only where each does. -/
theorem trimSpace_trim_eq_iff {text : Text} : trimSpace (trim text) = text ↔ Trimmed text := by
  constructor
  · intro h
    have hless : (trimSpace (trim text)).length ≤ (trim text).length := (Words.trim_sublist _ _).length_le
    rw [h] at hless
    have hsame : trim text = text := (Words.trim_sublist _ _).eq_of_length_le hless
    exact ⟨hsame, by rw [← hsame]; rwa [hsame] at h ⊢⟩
  · rintro ⟨htrim, hspace⟩
    rw [htrim, hspace]

section Consumers

variable {r : Renderer} {zero : ω} {stream : Text} {info : ConsumerInfo ω}

/-- The input that an unedited form submits. -/
def consumerInput (r : Renderer) (stream : Text) (info : ConsumerInfo ω) : ConsumerInput :=
  toConsumerInput (toConsumerDraft r (subscriptionOf stream info))

theorem consumerDraftError_eq_none_iff {draft : ConsumerDraft} :
    consumerDraftError draft = none ↔
      trim draft.stream ≠ [] ∧ trim draft.name ≠ [] ∧ (trim draft.name).any isNameBreak = false ∧
        (∀ subject ∈ splitField draft.filterSubject, validSubject subject = true) ∧
        (trim draft.deliverSubject ≠ [] → validSubject (trim draft.deliverSubject) = true ∧
          (trim draft.deliverSubject).any isWildcard = false) ∧
        (trim draft.deliverSubject = [] → trim draft.deliverGroup = []) := by
  simp only [consumerDraftError, check_eq_none_iff, Bool.not_eq_true, any_invalid_eq_false_iff, ne_eq]
  by_cases hdeliver : trim draft.deliverSubject = []
  · simp [hdeliver]
  · simp [hdeliver]

theorem updateSubscription_eq_ok_iff {input : ConsumerInput} {sent : Text × ConsumerConfig ω} :
    updateSubscription zero input.spec = .ok sent ↔
      trimSpace input.stream ≠ [] ∧ trimSpace input.name ≠ [] ∧
        (trimSpace input.name).any consumerChars.contains = false ∧
        ∃ wait, durationAttr input.spec.attributes .ackWait = .ok wait ∧
          validateSubjects (splitSubjects input.filterSubject) = .ok () ∧
          (trimSpace input.deliverSubject ≠ [] →
            validateSubject (trimSpace input.deliverSubject) = .ok ()) ∧
          (trimSpace input.stream, builtConsumer zero input.spec wait) = sent := by
  have hstream : input.spec.namesp = input.stream := rfl
  have hname : input.spec.name = input.name := rfl
  have hfilter : input.spec.attributes .filterSubject = input.filterSubject := rfl
  have hdeliver : input.spec.attributes .deliverTo = input.deliverSubject := rfl
  simp only [updateSubscription, consumerConfigOf, bind_eq_ok_iff, guard_eq_ok_iff, check_eq_ok_iff,
    pure_eq_ok_iff, exists_unit, hstream, hname, hfilter, hdeliver, ne_eq, Bool.not_eq_true]
  constructor
  · rintro ⟨hstream, built, ⟨hsome, hletters, wait, hwait, hfilters, hsubject, rfl⟩, heq⟩
    exact ⟨hstream, hsome, hletters, wait, hwait, hfilters, hsubject, heq⟩
  · rintro ⟨hstream, hsome, hletters, wait, hwait, hfilters, hsubject, heq⟩
    exact ⟨hstream, _, ⟨hsome, hletters, wait, hwait, hfilters, hsubject, rfl⟩, heq⟩

/-! ### Its filters -/

/-- The subjects that a consumer is narrowed to, from whichever field holds them. -/
def ConsumerConfig.filters (config : ConsumerConfig ω) : List Text :=
  config.filterSubjects ++ if config.filterSubject = [] then [] else [config.filterSubject]

/-- One of the two fields is used, and the list only for several. -/
def ConsumerConfig.OneField (config : ConsumerConfig ω) : Prop :=
  config.filterSubjects.length ≠ 1 ∧ (config.filterSubject = [] ∨ config.filterSubjects = [])

section Filters

variable {config : ConsumerConfig ω} {filters : List Text}

theorem filterSubjectsOf_eq_joinComma (h : config.OneField) :
    filterSubjectsOf config = joinComma config.filters := by
  rw [filterSubjectsOf, ConsumerConfig.filters]
  rcases h.2 with hnone | hnone
  · rw [if_pos hnone, List.append_nil]
    split
    · rfl
    · rename_i hempty
      rw [hnone, Decidable.not_not.mp hempty]
      rfl
  · rw [hnone, if_neg (by simp), List.nil_append]
    split
    · rename_i hblank
      rw [hblank]
      rfl
    · rw [joinComma, List.intercalate_singleton]

/-- What the driver puts into the two fields of a list. -/
theorem filters_of_fields (hsome : ∀ subject ∈ filters, subject ≠ [])
    (hone : (if filters.length = 1 then filters.headD [] else []) = config.filterSubject)
    (hmany : (if 1 < filters.length then filters else []) = config.filterSubjects) :
    config.filters = filters ∧ config.OneField := by
  rw [ConsumerConfig.filters, ConsumerConfig.OneField, ← hone, ← hmany]
  match filters, hsome with
  | [], _ => simp
  | [subject], hsome =>
    have hne := hsome subject List.mem_cons_self
    simp [hne]
  | first :: second :: rest, _ => simp

/-- The two fields of a list that uses one of them. -/
theorem fields_of_filters (h : config.OneField) :
    (if config.filters.length = 1 then config.filters.headD [] else []) = config.filterSubject ∧
      (if 1 < config.filters.length then config.filters else []) = config.filterSubjects := by
  rw [ConsumerConfig.filters]
  rcases h.2 with hnone | hnone
  · rw [if_pos hnone, List.append_nil, if_neg h.1, hnone]
    refine ⟨rfl, ?_⟩
    split
    · rfl
    · rename_i hfew
      have hlength := h.1
      exact (List.length_eq_zero_iff.mp (by omega)).symm
  · rw [hnone, List.nil_append]
    split
    · rename_i hblank
      simp [hblank]
    · simp

end Filters

/-! ### Its policies -/

theorem deliverPolicy_read (policy : DeliverPolicy) : deliverPolicyName policy ≠ [] ∧
    (deliverPolicy (deliverPolicyName policy) = policy ↔
      policy ≠ .byStartSequence ∧ policy ≠ .byStartTime) := by
  cases policy <;> decide

theorem ackPolicy_read (policy : AckPolicy) : ackPolicyName policy ≠ [] ∧
    (ackPolicy (ackPolicyName policy) = policy ↔ ∀ code, policy ≠ .unnamed code) := by
  cases policy with
  | unnamed code => simp [ackPolicyName, ackPolicy]
  | _ => simp [ackPolicyName, ackPolicy]

theorem replayPolicy_read (policy : ReplayPolicy) :
    replayPolicyName policy ≠ [] ∧ replayPolicy (replayPolicyName policy) = policy := by
  cases policy <;> decide

/-! ### What comes through the form -/

/-- What of a consumer comes through its form, field by field. -/
structure ConsumerKept (r : Renderer) (zero : ω) (stream : Text) (info : ConsumerInfo ω) : Prop where
  stream : stream ≠ [] ∧ Trimmed stream
  name : info.config.name ≠ [] ∧ trimSpace (trim info.name) = info.config.name ∧
    (trim info.name).any isNameBreak = false
  durable : info.config.durable = [] ∨ info.config.durable = info.config.name
  deliverPolicy : info.config.deliverPolicy ≠ .byStartSequence ∧
    info.config.deliverPolicy ≠ .byStartTime
  ackPolicy : ∀ code, info.config.ackPolicy ≠ .unnamed code
  ackWait : 0 ≤ info.config.ackWait.toInt
  maxDeliver : info.config.maxDeliver = -1 ∨ r.Holds info.config.maxDeliver.toInt
  maxAckPending : r.Holds info.config.maxAckPending.toInt
  oneField : info.config.OneField
  filters : info.config.filters.Nodup ∧
    ∀ subject ∈ info.config.filters, Clean subject ∧ validSubject subject = true
  deliverSubject : Trimmed info.config.deliverSubject
  push : info.config.deliverSubject ≠ [] →
    (validSubject info.config.deliverSubject = true ∧
        info.config.deliverSubject.any isWildcard = false) ∧
      Trimmed info.config.deliverGroup ∧ info.config.maxWaiting = 0
  pull : info.config.deliverSubject = [] →
    info.config.deliverGroup = [] ∧ info.config.maxWaiting = 512
  maxRequestBatch : info.config.maxRequestBatch = 0
  other : info.config.other = zero

theorem deliverSubject_sent :
    (consumerInput r stream info).deliverSubject = trim info.config.deliverSubject := by
  have hdraft : (toConsumerDraft r (subscriptionOf stream info)).deliverSubject =
      info.config.deliverSubject := attr_getD (subscriptionOf stream info).attributes .deliverTo
  rw [consumerInput, toConsumerInput, hdraft]
  dsimp only
  split
  · rfl
  · rename_i hnone
    exact (Decidable.not_not.mp hnone).symm

theorem deliverGroup_sent :
    (consumerInput r stream info).deliverGroup =
      if trim info.config.deliverSubject ≠ [] then trim info.config.deliverGroup else [] := by
  have hsubject : (toConsumerDraft r (subscriptionOf stream info)).deliverSubject =
      info.config.deliverSubject := attr_getD (subscriptionOf stream info).attributes .deliverTo
  have hgroup : (toConsumerDraft r (subscriptionOf stream info)).deliverGroup =
      info.config.deliverGroup := attr_getD (subscriptionOf stream info).attributes .deliverGroup
  rw [consumerInput, toConsumerInput, hsubject, hgroup]

/-- A durable consumer is named by its name. -/
theorem durable_sent (name : Text) :
    (if (consumerInput r stream info).spec.attributes .durable ≠ "false".toList then name else []) =
      if info.config.durable = [] then [] else name := by
  have hsent : (consumerInput r stream info).spec.attributes .durable =
      if !(attr (subscriptionOf stream info).attributes .durable).isSome then "false".toList
      else [] := rfl
  have hlisted : (subscriptionOf stream info).attributes .durable = info.config.durable := rfl
  rw [hsent, attr, hlisted]
  by_cases hnone : info.config.durable = []
  · simp [hnone]
  · simp [hnone]

/-- What is sent for the group of a push consumer. -/
theorem group_sent :
    (if trimSpace (trim info.config.deliverSubject) ≠ [] then
        trimSpace (consumerInput r stream info).deliverGroup else []) =
      if trimSpace (trim info.config.deliverSubject) ≠ [] then
        trimSpace (trim info.config.deliverGroup) else [] := by
  by_cases hnone : trim info.config.deliverSubject = []
  · simp [hnone, trimSpace]
  · rw [deliverGroup_sent, if_pos hnone]

/-- What the fields that are built anew come to. -/
theorem builtConsumer_eq_iff (hr : r.Documented) (hwait : 0 ≤ info.config.ackWait.toInt) :
    builtConsumer zero (consumerInput r stream info).spec info.config.ackWait = info.config ↔
      trimSpace (trim info.name) = info.config.name ∧
        (if info.config.durable = [] then [] else trimSpace (trim info.name)) =
          info.config.durable ∧
        (info.config.deliverPolicy ≠ .byStartSequence ∧
          info.config.deliverPolicy ≠ .byStartTime) ∧
        (∀ code, info.config.ackPolicy ≠ .unnamed code) ∧
        (info.config.maxDeliver = -1 ∨ r.Holds info.config.maxDeliver.toInt) ∧
        r.Holds info.config.maxAckPending.toInt ∧
        (if (gathered (filterSubjectsOf info.config)).length = 1 then
          (gathered (filterSubjectsOf info.config)).headD [] else []) = info.config.filterSubject ∧
        (if 1 < (gathered (filterSubjectsOf info.config)).length then
          gathered (filterSubjectsOf info.config) else []) = info.config.filterSubjects ∧
        trimSpace (trim info.config.deliverSubject) = info.config.deliverSubject ∧
        (if trimSpace (trim info.config.deliverSubject) ≠ [] then
          trimSpace (trim info.config.deliverGroup) else []) = info.config.deliverGroup ∧
        (if trimSpace (trim info.config.deliverSubject) ≠ [] then 0 else 512) =
          info.config.maxWaiting ∧
        info.config.maxRequestBatch = 0 ∧
        info.config.other = zero := by
  have hname : (consumerInput r stream info).spec.name = trim info.name := rfl
  have hdeliverPolicy : (consumerInput r stream info).spec.attributes .deliverPolicy =
      deliverPolicyName info.config.deliverPolicy := attr_getD_of_ne rfl (deliverPolicy_read _).1 _
  have hackPolicy : (consumerInput r stream info).spec.attributes .ackPolicy =
      ackPolicyName info.config.ackPolicy := attr_getD_of_ne rfl (ackPolicy_read _).1 _
  have hreplayPolicy : (consumerInput r stream info).spec.attributes .replayPolicy =
      replayPolicyName info.config.replayPolicy := attr_getD_of_ne rfl (replayPolicy_read _).1 _
  have hfilters : splitSubjects ((consumerInput r stream info).spec.attributes .filterSubject) =
      gathered (filterSubjectsOf info.config) :=
    splitSubjects_resent (subscriptionOf stream info).attributes .filterSubject
  have hsubject : (consumerInput r stream info).spec.attributes .deliverTo =
      trim info.config.deliverSubject := deliverSubject_sent
  have hgroup := @group_sent ω r stream info
  have hsent : (consumerInput r stream info).spec.attributes .deliverGroup =
      (consumerInput r stream info).deliverGroup := rfl
  have hwaiting : int64Attr (consumerInput r stream info).spec.attributes .maxWaiting 512 = 512 :=
    int64Attr_blank rfl
  have hbatch : int64Attr (consumerInput r stream info).spec.attributes .maxBatch 0 = 0 :=
    int64Attr_blank rfl
  have hdeliver := @unlimited_kept_iff r hr (subscriptionOf stream info).attributes
    (consumerInput r stream info).spec.attributes .maxDeliver info.config.maxDeliver rfl rfl
  have hpending : int64Attr (consumerInput r stream info).spec.attributes .maxAckPending 1000 =
      info.config.maxAckPending ↔ r.Holds info.config.maxAckPending.toInt := by
    rw [@int64Attr_limit r (subscriptionOf stream info).attributes .maxAckPending _ _ 1000 hr
      (by decide) rfl rfl]
    refine or_iff_right ?_
    -- what it falls back to is not below zero
    rintro ⟨hneg, heq⟩
    rw [← heq] at hneg
    exact absurd hneg (by decide)
  have hkept : (if 0 < info.config.ackWait then info.config.ackWait else 0) =
      info.config.ackWait := by
    split
    · rfl
    · rename_i hzero
      rw [Int64.lt_iff_toInt_lt, Int64.toInt_zero] at hzero
      rw [← Int64.toInt_inj, Int64.toInt_zero]
      omega
  rw [ConsumerConfig.ext_iff]
  simp only [builtConsumer, durable_sent, hname, hdeliverPolicy, hackPolicy, hreplayPolicy, hfilters,
    hsubject, hsent, hgroup, hwaiting, hbatch, hdeliver, hpending, hkept, (deliverPolicy_read _).2,
    (ackPolicy_read _).2, (replayPolicy_read _).2, ite_self, true_and, eq_comm (a := (0 : Int64)),
    eq_comm (a := zero)]

theorem savedConsumer_eq_some_iff {sent : Text × ConsumerConfig ω} :
    savedConsumer r zero stream info = some sent ↔
      consumerDraftError (toConsumerDraft r (subscriptionOf stream info)) = none ∧
        updateSubscription zero (consumerInput r stream info).spec = .ok sent := by
  rw [savedConsumer, consumerInput]
  split
  · rename_i hcheck
    rw [hcheck]
    cases updateSubscription zero
        (toConsumerInput (toConsumerDraft r (subscriptionOf stream info))).spec with
    | error refusal => simp [Except.toOption]
    | ok built => simp [Except.toOption]
  · rename_i hcheck
    simp [hcheck]

theorem ackWait_kept_iff {wait : Int64} :
    durationAttr (consumerInput r stream info).spec.attributes .ackWait = .ok wait ↔
      0 ≤ info.config.ackWait.toInt ∧ wait = info.config.ackWait := by
  have hsent : (consumerInput r stream info).spec.attributes .ackWait =
      Duration.string info.config.ackWait.toInt :=
    (congrArg trim (attr_getD (subscriptionOf stream info).attributes .ackWait)).trans
      (bare_string _).trim
  rw [durationAttr_string hsent]
  split
  · rename_i hneg
    simp only [reduceCtorEq, false_iff, not_and]
    intro hpos
    omega
  · rename_i hpos
    rw [Except.ok.injEq, eq_comm]
    exact ⟨fun h => ⟨by omega, h⟩, fun h => h.2⟩

/-- A name that the form takes is one that the driver takes, trimmed or not. -/
theorem not_any_consumerChars {name : Text} (h : name.any isNameBreak = false) :
    (trimSpace name).any consumerChars.contains = false := by
  rw [List.any_eq_false] at h ⊢
  intro c hc hforbidden
  exact h c (Words.mem_of_mem_trim hc) (isNameBreak_of_mem (List.contains_iff_mem.mp hforbidden))

/-- **A consumer is sent as it is stored** by an unedited save exactly where it is kept. -/
theorem savedConsumer_eq_iff (hr : r.Documented) :
    savedConsumer r zero stream info = some (stream, info.config) ↔
      ConsumerKept r zero stream info := by
  have hfields : splitField (toConsumerDraft r (subscriptionOf stream info)).filterSubject =
      Words.fieldsFunc isSeparator (filterSubjectsOf info.config) :=
    splitField_listAttr (subscriptionOf stream info).attributes .filterSubject
  have hfilters : splitSubjects (consumerInput r stream info).filterSubject =
      gathered (filterSubjectsOf info.config) :=
    splitSubjects_resent (subscriptionOf stream info).attributes .filterSubject
  have hstream : (consumerInput r stream info).stream = trim stream := rfl
  have hname : (consumerInput r stream info).name = trim info.name := rfl
  have hdraftStream : (toConsumerDraft r (subscriptionOf stream info)).stream = stream := rfl
  have hdraftName : (toConsumerDraft r (subscriptionOf stream info)).name = info.name := rfl
  have hdraftSubject : (toConsumerDraft r (subscriptionOf stream info)).deliverSubject =
      info.config.deliverSubject := attr_getD (subscriptionOf stream info).attributes .deliverTo
  have hdraftGroup : (toConsumerDraft r (subscriptionOf stream info)).deliverGroup =
      info.config.deliverGroup := attr_getD (subscriptionOf stream info).attributes .deliverGroup
  rw [savedConsumer_eq_some_iff, consumerDraftError_eq_none_iff, updateSubscription_eq_ok_iff, hfields,
    hfilters, hstream, hname, hdraftStream, hdraftName, hdraftSubject, hdraftGroup,
    deliverSubject_sent]
  constructor
  · rintro ⟨⟨-, -, hletters, -, hpush, -⟩, hnamed, hsome, -, wait, hwait, hvalid, -, heq⟩
    obtain ⟨hpos, rfl⟩ := ackWait_kept_iff.mp hwait
    obtain ⟨hstreamTrim, heq⟩ := Prod.mk.inj heq
    obtain ⟨hnameTrim, hdurable, hdeliverPolicy, hackPolicy, hmaxDeliver, hpending, hone, hmany,
      hsubject, hgroup, hwaiting, hbatch, hother⟩ := (builtConsumer_eq_iff hr hpos).mp heq
    have hsubjectTrim := trimSpace_trim_eq_iff.mp hsubject
    obtain ⟨hlist, honeField⟩ :=
      filters_of_fields (fun subject hmem => (clean_of_mem_gathered hmem).1.1) hone hmany
    rw [hsubject] at hgroup hwaiting
    rw [hsubjectTrim.1] at hpush
    exact {
      stream := ⟨hstreamTrim ▸ hnamed, trimSpace_trim_eq_iff.mp hstreamTrim⟩
      name := ⟨hnameTrim ▸ hsome, hnameTrim, hletters⟩
      durable := by
        rw [hnameTrim] at hdurable
        split at hdurable
        · exact .inl hdurable.symm
        · exact .inr hdurable.symm
      deliverPolicy := hdeliverPolicy
      ackPolicy := hackPolicy
      ackWait := hpos
      maxDeliver := hmaxDeliver
      maxAckPending := hpending
      oneField := honeField
      filters := by
        rw [hlist]
        exact ⟨nodup_gathered _, fun subject hmem =>
          ⟨clean_of_mem_gathered hmem, validateSubjects_eq_ok_iff.mp hvalid subject hmem⟩⟩
      deliverSubject := hsubjectTrim
      push := by
        intro hne
        rw [if_pos hne] at hgroup hwaiting
        exact ⟨hpush hne, trimSpace_trim_eq_iff.mp hgroup, hwaiting.symm⟩
      pull := by
        intro hnone
        rw [hnone] at hgroup hwaiting
        exact ⟨hgroup.symm, hwaiting.symm⟩
      maxRequestBatch := hbatch
      other := hother }
  · intro h
    have hclean : ∀ subject ∈ info.config.filters, Clean subject := fun subject hmem =>
      (h.filters.2 subject hmem).1
    have hvalid : ∀ subject ∈ info.config.filters, validSubject subject = true :=
      fun subject hmem => (h.filters.2 subject hmem).2
    have hgathered : gathered (filterSubjectsOf info.config) = info.config.filters := by
      rw [filterSubjectsOf_eq_joinComma h.oneField, gathered_joinComma hclean h.filters.1]
    have hsame : Words.fieldsFunc isSeparator (filterSubjectsOf info.config) =
        info.config.filters := by
      rw [filterSubjectsOf_eq_joinComma h.oneField, fieldsFunc_joinComma_clean hclean]
    have hstreamTrim := trimSpace_trim_eq_iff.mpr h.stream.2
    have hsubjectTrim := trimSpace_trim_eq_iff.mpr h.deliverSubject
    obtain ⟨hone, hmany⟩ := fields_of_filters h.oneField
    rw [hsame, hgathered, h.deliverSubject.1, h.deliverSubject.2, hstreamTrim, h.stream.2.1]
    refine ⟨⟨h.stream.1, ?_, h.name.2.2, hvalid, fun hne => (h.push hne).1, ?_⟩, h.stream.1, ?_,
      not_any_consumerChars h.name.2.2, _, ackWait_kept_iff.mpr ⟨h.ackWait, rfl⟩,
      validateSubjects_eq_ok_iff.mpr hvalid, ?_, ?_⟩
    · intro hnone
      apply h.name.1
      rw [← h.name.2.1, hnone]
      rfl
    · intro hnone
      rw [(h.pull hnone).1]
      rfl
    · rw [h.name.2.1]
      exact h.name.1
    · exact fun hne => validateSubject_eq_ok_iff.mpr (h.push hne).1.1
    · refine congrArg _ ((builtConsumer_eq_iff hr h.ackWait).mpr ⟨h.name.2.1, ?_, h.deliverPolicy,
        h.ackPolicy, h.maxDeliver, h.maxAckPending, ?_, ?_, hsubjectTrim, ?_, ?_,
        h.maxRequestBatch, h.other⟩)
      · rw [h.name.2.1]
        split
        · rename_i hnone
          exact hnone.symm
        · rename_i hdurable
          exact (h.durable.resolve_left hdurable).symm
      · rw [hgathered, hone]
      · rw [hgathered, hmany]
      · rw [hsubjectTrim]
        split
        · rename_i hne
          exact trimSpace_trim_eq_iff.mpr (h.push hne).2.1
        · rename_i hnone
          exact ((h.pull (Decidable.not_not.mp hnone)).1).symm
      · rw [hsubjectTrim]
        split
        · rename_i hne
          exact (h.push hne).2.2.symm
        · rename_i hnone
          exact ((h.pull (Decidable.not_not.mp hnone)).2).symm

end Consumers

/-! ## Both forms -/

/-- **An unedited save sends what is stored** exactly where the stream, or the consumer, holds nothing
    that its form does not carry. -/
theorem edits_unchanged_iff {ω' : Type} {r : Renderer} (hr : r.Documented) (zero : ω) (zero' : ω')
    (stream : StreamInfo ω) (name : Text) (consumer : ConsumerInfo ω') :
    (savedStream r zero stream = some stream.config ↔ StreamKept r zero stream.config) ∧
      (savedConsumer r zero' name consumer = some (name, consumer.config) ↔
        ConsumerKept r zero' name consumer) :=
  ⟨savedStream_eq_iff hr, savedConsumer_eq_iff hr⟩

/-- A renderer that shows small numbers as they are. -/
def plain : Renderer := ⟨id⟩

theorem plain_documented : plain.Documented := ⟨fun _ _ => rfl, fun _ => Iff.rfl⟩

/-- A stream as a server declares it that is only told its subjects; what else it holds is whether it
    has sources. -/
def orders (sources : Option Text) : StreamConfig (Option Text) where
  name := "ORDERS".toList
  description := []
  subjects := ["orders.>".toList]
  retention := .limits
  storage := .file
  discard := .old
  replicas := 1
  maxMsgs := -1
  maxBytes := -1
  maxMsgsPerSubject := -1
  maxMsgSize := -1
  maxAge := 0
  duplicates := 120000000000
  compression := .none
  isSealed := false
  denyDelete := false
  denyPurge := false
  allowRollup := false
  allowDirect := false
  other := sources

/-- A durable consumer of it. -/
def worker (maxAckPending : Int64) : ConsumerConfig Unit where
  name := "worker".toList
  durable := "worker".toList
  deliverPolicy := .all
  ackPolicy := .explicit
  ackWait := 30000000000
  maxDeliver := -1
  maxAckPending := maxAckPending
  filterSubject := []
  filterSubjects := []
  replayPolicy := .instant
  deliverSubject := []
  deliverGroup := []
  maxWaiting := 512
  maxRequestBatch := 0
  other := ()

/-- Without sources and with a limit both are sent as they are stored. -/
theorem edits_unchanged_orders :
    savedStream plain none ⟨orders none, none⟩ = some (orders none) ∧
      savedConsumer plain () "ORDERS".toList ⟨"worker".toList, worker 1000⟩ =
        some ("ORDERS".toList, worker 1000) := by
  have h := edits_unchanged_iff plain_documented none () ⟨orders none, none⟩ "ORDERS".toList
    ⟨"worker".toList, worker 1000⟩
  refine ⟨h.1.mpr ?_, h.2.mpr ?_⟩
  · exact {
      name := .of_all (by decide) (by decide) (by decide)
      description := by decide
      subjects := by
        refine ⟨by decide, by decide, fun subject hmem => ?_⟩
        rw [List.mem_singleton.mp hmem]
        exact ⟨⟨Words.isField_of_all (by decide) (by decide), by decide⟩, by decide⟩
      replicas := by decide
      maxMsgs := .inl rfl
      maxBytes := .inl rfl
      maxMsgsPerSubject := .inl rfl
      maxMsgSize := by decide
      maxAge := by decide
      duplicates := by decide
      flags := by decide
      other := rfl }
  · exact {
      stream := ⟨by decide, by decide, by decide⟩
      name := ⟨by decide, by decide, by decide⟩
      durable := .inr rfl
      deliverPolicy := by decide
      ackPolicy := fun code => nofun
      ackWait := by decide
      maxDeliver := .inl rfl
      maxAckPending := ⟨by decide, rfl⟩
      oneField := ⟨by decide, .inl rfl⟩
      filters := ⟨List.nodup_nil, nofun⟩
      deliverSubject := ⟨by decide, by decide⟩
      push := fun hpush => absurd rfl hpush
      pull := fun _ => ⟨rfl, rfl⟩
      maxRequestBatch := rfl
      other := rfl }

/-- **A stream forgets its sources, and a consumer without a limit is given one.** -/
theorem edit_forgets :
    (savedStream plain none ⟨orders (some "ARCHIVE".toList), none⟩ = some (orders none) ∧
        orders none ≠ orders (some "ARCHIVE".toList)) ∧
      savedConsumer plain () "ORDERS".toList ⟨"worker".toList, worker (-1)⟩ =
          some ("ORDERS".toList, worker 1000) ∧
        worker 1000 ≠ worker (-1) := by
  decide +kernel

end MqStudio.Driver.Nats.Edit
