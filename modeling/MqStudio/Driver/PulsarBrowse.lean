import MqStudio.Driver.KafkaBrowse
import MqStudio.Driver.PulsarTail
import MqStudio.Storage

/-!
# Browsing Pulsar

`QueryMessages` and `MessageByID` of `internal/driver/pulsar/message_read.go`, with `message_id.go`.
A browse reads a topic through a reader, from a moment on, and filters what it reads; a lookup asks
the admin API for the entry that an id names.

The reader and the admin API are outside the repository. The reader hands out the messages of each
partition in their order, from where the broker's search for the moment puts it, and interleaves the
partitions as it likes. Where the admin API answers, it answers the messages of the entry: an entry
is one message, or a batch, and its ledger and number name it in the whole cluster.

A text is its runes.

## Main results

- `parseMessageID_messageIDString`: an id is read back without the place in the batch.
- `messageByID_right_iff`: a lookup answers with the message that was shown, or not at all, exactly
  where it fails or the message is the first of its entry.
- `browse_complete_iff`: a browse of a window is complete exactly where what the reader hands out
  before the first message past the window is in it, and, if that is not enough, no message of the
  window comes later or was sought past.
- `browse_complete_of_ordered`: it is complete on a log whose publish times do not go back.
- `second_of_batch`, `late_partition`: a lookup and a browse that go wrong.
-/

namespace MqStudio.Driver.Pulsar.Browse

open MqStudio.Lib
open MqStudio.Storage (isSpace)
open MqStudio.Driver.Kafka.Browse (formatInt parseInt parseInt_toDigits formatInt_natCast)

/-- A string, by its runes. -/
abbrev Text := List Char

/-- `strings.TrimSpace` -/
def trimSpace (s : Text) : Text := Words.trim isSpace s

/-! ## Ids -/

/-- `fmt.Sprintf` of a number with `%d`. -/
def digits (n : Int) : Text := (formatInt n).toList

/-- `messageIDString` -/
def messageIDString (id : MessageID) : Text :=
  digits id.ledgerID ++ ':' :: (digits id.entryID ++ ':' :: digits id.partitionIdx)

/-- What is wrong with a text that is no id. -/
inductive IdProblem where
  /-- is not a pulsar message id; expected ledger:entry or ledger:entry:partition -/
  | shape
  /-- has no ledger id -/
  | ledger
  /-- has no entry id -/
  | entry
  /-- has no partition -/
  | partition
  deriving DecidableEq

/-- `parseMessageID`: a ledger, an entry and a partition. -/
def parseMessageID (raw : Text) : Except IdProblem (Int × Int × Int) :=
  match (trimSpace raw).splitOn ':' with
  | [ledger, entry] =>
    match parseInt 64 ledger, parseInt 64 entry with
    | none, _ => .error .ledger
    | some _, none => .error .entry
    | some l, some e => .ok (l, e, -1)
  | [ledger, entry, partition] =>
    match parseInt 64 ledger, parseInt 64 entry, parseInt 64 partition with
    | none, _, _ => .error .ledger
    | some _, none, _ => .error .entry
    | some _, some _, none => .error .partition
    | some l, some e, some p => .ok (l, e, p)
  | _ => .error .shape

/-! ## Topics -/

/-- The text has a scheme: `strings.Contains` of `://`. -/
def HasScheme (topic : Text) : Prop := "://".toList <:+: topic

instance (topic : Text) : Decidable (HasScheme topic) := inferInstanceAs (Decidable (_ <:+: _))

/-- `schemeOf` -/
def schemeOf (persistent : Bool) : Text :=
  if persistent then "persistent".toList else "non-persistent".toList

/-- `topicURL` -/
def topicURL (scope name : Text) (persistent : Bool) : Text :=
  schemeOf persistent ++ "://".toList ++ scope ++ '/' :: name

/-- What can be wrong with a request. -/
inductive Problem where
  /-- a message query, or a lookup, or a tail, needs a topic -/
  | topic
  /-- the name of a topic that cannot be parsed -/
  | name
  | id (problem : IdProblem)
  /-- the admin API failed -/
  | read
  /-- no message at the id -/
  | missing
  /-- the reader failed -/
  | reader
  deriving DecidableEq

/-- `resolveTopicURL`, in the connection's own namespace. -/
def resolveTopicURL (scope topic : Text) : Except Problem Text :=
  if HasScheme topic then .ok topic
  else if trimSpace topic = [] then .error .topic
  else .ok (topicURL scope topic true)

/-- `tailTopicURL`, of a namespace and a name. -/
def tailTopicURL (scope name : Text) : Except Problem Text :=
  if HasScheme name then .ok name
  else if trimSpace name = [] then .error .topic
  else .ok (topicURL scope name true)

/-- `model.MessageQueryParams`, as far as it is read. -/
structure Params where
  topic : Text
  messageID : Text
  messageKey : Text
  startTime : Int
  endTime : Int
  maxResults : Int
  /-- the `namespace` filter -/
  namespaceFilter : Text
  /-- the `persistent` filter -/
  persistentFilter : Text
  /-- the `property` filter -/
  propertyFilter : Text

/-- `queryTopicURL` -/
def queryTopicURL (scope : Text) (params : Params) : Except Problem Text :=
  if HasScheme params.topic then .ok params.topic
  else if params.topic = [] then .error .topic
  else
    let trimmed := trimSpace params.namespaceFilter
    .ok (topicURL (if trimmed ≠ [] then trimmed else scope) params.topic
      (params.persistentFilter ≠ "false".toList))

theorem hasScheme_topicURL (scope name : Text) (persistent : Bool) :
    HasScheme (topicURL scope name persistent) :=
  ⟨schemeOf persistent, scope ++ '/' :: name, by simp [topicURL]⟩

/-- A browse reads an address with a scheme. -/
theorem queryTopicURL_hasScheme {scope url : Text} {params : Params}
    (h : queryTopicURL scope params = .ok url) : HasScheme url := by
  unfold queryTopicURL at h
  split at h
  · rename_i hscheme
    cases h
    exact hscheme
  · split at h
    · cases h
    · cases h
      exact hasScheme_topicURL _ _ _

/-- And so does a tail. -/
theorem tailTopicURL_hasScheme {scope name url : Text} (h : tailTopicURL scope name = .ok url) :
    HasScheme url := by
  unfold tailTopicURL at h
  split at h
  · rename_i hscheme
    cases h
    exact hscheme
  · split at h
    · cases h
    · cases h
      exact hasScheme_topicURL _ _ _

/-- An address with a scheme is its own address. -/
theorem resolveTopicURL_of_hasScheme {url : Text} (scope : Text) (h : HasScheme url) :
    resolveTopicURL scope url = .ok url := if_pos h

/-! ## Messages -/

/-- `pulsarclient.Message` -/
structure Message where
  id : MessageID
  key : Text
  orderingKey : Text
  producer : Text
  properties : List (Text × Text)
  /-- milliseconds -/
  publishTime : Int
  /-- milliseconds, if it is set -/
  eventTime : Option Int
  redeliveryCount : Nat
  payload : Text
  deriving DecidableEq

/-- `model.MessageItem` -/
structure MessageItem where
  id : Nat
  topic : Text
  messageID : Text
  keys : Text
  queueID : Int
  queueOffset : Int
  storeTimestamp : Int
  retryTimes : Nat
  body : Text
  properties : List (Text × Text)
  deriving DecidableEq

/-- A key of a map is set. -/
def setProperty (properties : List (Text × Text)) (name value : Text) : List (Text × Text) :=
  (name, value) :: properties.filter fun entry => entry.1 ≠ name

/-- A key of a map is set where there is a value. -/
def setProperty? (properties : List (Text × Text)) (name : Text) (value : Option Text) :
    List (Text × Text) :=
  (value.map (setProperty properties name)).getD properties

/-- `messageItem`, with `timestamp.FromUnixMilli`. -/
def messageItem (stamp : Int → Text) (topic : Text) (id : Nat) (message : Message) : MessageItem where
  id := id
  topic := topic
  messageID := messageIDString message.id
  keys := message.key
  queueID := message.id.partitionIdx
  queueOffset := message.id.entryID
  storeTimestamp := message.publishTime
  retryTimes := message.redeliveryCount
  body := message.payload
  properties :=
    let properties := setProperty message.properties "pulsar.batchIndex".toList
      (digits message.id.batchIdx)
    let properties := setProperty properties "pulsar.producer".toList message.producer
    let properties := setProperty? properties "pulsar.orderingKey".toList
      (if message.orderingKey ≠ [] then some message.orderingKey else none)
    let properties := setProperty? properties "pulsar.eventTime".toList
      (message.eventTime.map stamp)
    setProperty? properties "pulsar.redeliveryCount".toList
      (if 0 < message.redeliveryCount then some (digits message.redeliveryCount) else none)

/-- A message of an entry, by its place in the batch, as the admin API reads it. -/
structure Member where
  batchIdx : Int
  properties : List (Text × Text)
  payload : Text
  deriving DecidableEq

/-- `utils.Message` -/
structure AdminMessage where
  ledgerID : Int
  entryID : Int
  partitionIndex : Int
  member : Member
  deriving DecidableEq

/-- `adminMessageItem` -/
def adminMessageItem (topic : Text) (message : AdminMessage) : MessageItem where
  id := 1
  topic := topic
  messageID := digits message.ledgerID ++ ':' :: (digits message.entryID ++ ':' ::
    digits message.partitionIndex)
  keys := []
  queueID := message.partitionIndex
  queueOffset := message.entryID
  storeTimestamp := 0
  retryTimes := 0
  body := message.member.payload
  properties := message.member.properties

/-! ## Lookups -/

/-- The entries of a cluster: the messages of each, every one at a place of its own. -/
structure Cluster where
  entry : Int → Int → List Member
  distinct : ∀ ledger number, ((entry ledger number).map Member.batchIdx).Nodup

/-- What a lookup asks: how a topic name is parsed, and the admin API. -/
structure Admin (ν : Type) where
  topicName : Text → Option ν
  getMessagesByID : ν → Int → Int → Option (List AdminMessage)

/-- The admin API answers with the messages of the entry, whichever topic it is asked of, or not. -/
def Admin.Honest {ν : Type} (admin : Admin ν) (cluster : Cluster) : Prop :=
  ∀ name ledger number messages, admin.getMessagesByID name ledger number = some messages →
    messages.map AdminMessage.member = cluster.entry ledger number

variable {ν : Type}

/-- The message that `MessageByID` picks, and the address it is read from. -/
def pickByID (admin : Admin ν) (scope topic messageID : Text) :
    Except Problem (Text × AdminMessage) :=
  match resolveTopicURL scope topic with
  | .error problem => .error problem
  | .ok url =>
    match admin.topicName url with
    | none => .error .name
    | some name =>
      match parseMessageID messageID with
      | .error problem => .error (.id problem)
      | .ok (ledger, entry, _) =>
        match admin.getMessagesByID name ledger entry with
        | none => .error .read
        | some [] => .error .missing
        | some (first :: _) => .ok (url, first)

/-- `MessageByID` -/
def messageByID (admin : Admin ν) (scope topic messageID : Text) : Except Problem MessageItem :=
  (pickByID admin scope topic messageID).map fun picked => adminMessageItem picked.1 picked.2

/-! ### Numbers -/

theorem digits_natCast (n : Nat) : digits n = Nat.toDigits 10 n := formatInt_natCast n

theorem digits_negSucc (n : Nat) : digits (Int.negSucc n) = '-' :: Nat.toDigits 10 (n + 1) := by
  have hrepr : formatInt (Int.negSucc n) = "-" ++ Nat.repr (n + 1) := rfl
  rw [digits, hrepr, String.toList_append, Nat.toList_repr]
  rfl

/-- The runes of a number. -/
theorem rune_of_digits {n : Int} {c : Char} (h : c ∈ digits n) : c = '-' ∨ c.isDigit = true := by
  have hdigit : ∀ m : Nat, c ∈ Nat.toDigits 10 m → c.isDigit = true := fun m hm =>
    Nat.isDigit_of_mem_toDigits (by decide) (by decide) hm
  cases n with
  | ofNat m =>
    rw [show Int.ofNat m = (m : Int) from rfl, digits_natCast] at h
    exact .inr (hdigit m h)
  | negSucc m =>
    rw [digits_negSucc] at h
    rcases List.mem_cons.mp h with rfl | hm
    · exact .inl rfl
    · exact .inr (hdigit _ hm)

theorem colon_not_mem_digits (n : Int) : ':' ∉ digits n := by
  intro h
  rcases rune_of_digits h with h | h
  · exact absurd h (by decide)
  · exact absurd h (by decide)

theorem isSpace_digits {n : Int} {c : Char} (h : c ∈ digits n) : isSpace c = false := by
  rcases rune_of_digits h with rfl | hdigit
  · decide
  · simp only [Char.isDigit, Bool.and_eq_true, decide_eq_true_eq] at hdigit
    have hlow : 48 ≤ c.toNat := hdigit.1
    have hhigh : c.toNat < 58 := Nat.lt_succ_of_le hdigit.2
    have hall : ∀ k < 58, 48 ≤ k → isSpace (Char.ofNat k) = false := by decide
    have hc := hall c.toNat hhigh hlow
    rwa [Char.ofNat_toNat] at hc

/-- **A number is read back as it was written**, where it fits. -/
theorem parseInt_digits {bits : Nat} {n : Int} (hlow : -2 ^ (bits - 1) ≤ n)
    (hhigh : n < 2 ^ (bits - 1)) : parseInt bits (digits n) = some n := by
  cases n with
  | ofNat m =>
    rw [show Int.ofNat m = (m : Int) from rfl, digits_natCast]
    exact parseInt_toDigits bits m hhigh
  | negSucc m =>
    have hdigits : (Nat.toDigits 10 (m + 1)).all Char.isDigit = true :=
      List.all_eq_true.mpr fun c hc => Nat.isDigit_of_mem_toDigits (by decide) (by decide) hc
    have hsome : Nat.toDigits 10 (m + 1) ≠ [] := Nat.toDigits_ne_nil
    rw [digits_negSucc, parseInt, Kafka.Browse.splitSign]
    dsimp only
    rw [if_pos ⟨hsome, hdigits⟩, Nat.ofDigitChars_ten_toDigits]
    have hvalue : (-1 : Int) * ((m + 1 : Nat) : Int) = Int.negSucc m := by omega
    rw [hvalue, if_pos ⟨hlow, hhigh⟩]

/-- An id whose numbers are the client's: 64-bit ledgers and entries, 32-bit partitions. -/
structure Fits (id : MessageID) : Prop where
  ledger : -2 ^ 63 ≤ id.ledgerID ∧ id.ledgerID < 2 ^ 63
  entry : -2 ^ 63 ≤ id.entryID ∧ id.entryID < 2 ^ 63
  partition : -2 ^ 31 ≤ id.partitionIdx ∧ id.partitionIdx < 2 ^ 31

theorem trimSpace_messageIDString (id : MessageID) :
    trimSpace (messageIDString id) = messageIDString id := by
  refine Words.trim_eq_self fun c hc => ?_
  unfold messageIDString at hc
  simp only [List.mem_append, List.mem_cons] at hc
  rcases hc with h | rfl | h | rfl | h
  · exact isSpace_digits h
  · decide
  · exact isSpace_digits h
  · decide
  · exact isSpace_digits h

theorem splitOn_messageIDString (id : MessageID) : (messageIDString id).splitOn ':' =
    [digits id.ledgerID, digits id.entryID, digits id.partitionIdx] := by
  have hjoin : messageIDString id =
      [':'].intercalate [digits id.ledgerID, digits id.entryID, digits id.partitionIdx] := by
    simp [messageIDString, List.intercalate]
  rw [hjoin, List.splitOn_intercalate ':' ?_ (List.cons_ne_nil _ _)]
  intro number hnumber
  simp only [List.mem_cons, List.not_mem_nil, or_false] at hnumber
  rcases hnumber with rfl | rfl | rfl <;> exact colon_not_mem_digits _

/-- **An id is read back as it was written**, without its place in the batch. -/
theorem parseMessageID_messageIDString {id : MessageID} (h : Fits id) :
    parseMessageID (messageIDString id) = .ok (id.ledgerID, id.entryID, id.partitionIdx) := by
  have hledger : parseInt 64 (digits id.ledgerID) = some id.ledgerID :=
    parseInt_digits h.ledger.1 h.ledger.2
  have hentry : parseInt 64 (digits id.entryID) = some id.entryID :=
    parseInt_digits h.entry.1 h.entry.2
  have hpartition : parseInt 64 (digits id.partitionIdx) = some id.partitionIdx := by
    have hlow := h.partition.1
    have hhigh := h.partition.2
    exact parseInt_digits (by omega) (by omega)
  unfold parseMessageID
  rw [trimSpace_messageIDString, splitOn_messageIDString]
  simp only [hledger, hentry, hpartition]

/-! ### What a lookup answers -/

/-- A message that a browse or a tail shows: the address that was read, the id, and the member of the
entry that it is. -/
structure Shown (cluster : Cluster) where
  url : Text
  hasScheme : HasScheme url
  id : MessageID
  fits : Fits id
  member : Member
  place : member.batchIdx = id.batchIdx
  held : member ∈ cluster.entry id.ledgerID id.entryID

/-- The lookup of a shown message, by its topic and its id, answers with no other. -/
def Admin.AnswersRightly (admin : Admin ν) (scope : Text) {cluster : Cluster}
    (shown : Shown cluster) : Prop :=
  ∀ picked, pickByID admin scope shown.url (messageIDString shown.id) = .ok picked →
    picked.2.member = shown.member

/-- The API does not answer for the entry of a message. -/
def Admin.Silent (admin : Admin ν) {cluster : Cluster} (shown : Shown cluster) : Prop :=
  ∀ name, admin.topicName shown.url = some name →
    admin.getMessagesByID name shown.id.ledgerID shown.id.entryID = none

variable {admin : Admin ν} {scope : Text} {cluster : Cluster}

/-- What is picked for a shown message: the first of what the API answers. -/
theorem pickByID_eq_ok (shown : Shown cluster) {picked : Text × AdminMessage} :
    pickByID admin scope shown.url (messageIDString shown.id) = .ok picked ↔
      ∃ name later, admin.topicName shown.url = some name ∧
        admin.getMessagesByID name shown.id.ledgerID shown.id.entryID =
          some (picked.2 :: later) ∧ picked.1 = shown.url := by
  unfold pickByID
  rw [resolveTopicURL_of_hasScheme scope shown.hasScheme,
    parseMessageID_messageIDString shown.fits]
  simp only
  cases hname : admin.topicName shown.url with
  | none => simp
  | some name =>
    simp only [Option.some.injEq, exists_and_left, exists_eq_left']
    cases admin.getMessagesByID name shown.id.ledgerID shown.id.entryID with
    | none => simp
    | some messages =>
      cases messages with
      | nil => simp
      | cons first later =>
        simp only [Except.ok.injEq, Option.some.injEq, List.cons.injEq]
        constructor
        · rintro rfl
          exact ⟨later, ⟨rfl, rfl⟩, rfl⟩
        · rintro ⟨_, ⟨rfl, -⟩, hurl⟩
          exact Prod.ext hurl.symm rfl

/-- **Lookups by id**: the lookup of a shown message answers with that message or an error exactly
where the API does not answer, or the message is the first of its entry. -/
theorem messageByID_right_iff (hadmin : admin.Honest cluster) (shown : Shown cluster) :
    admin.AnswersRightly scope shown ↔ admin.Silent shown ∨
      (cluster.entry shown.id.ledgerID shown.id.entryID).head? = some shown.member := by
  have hfirst : ∀ name messages, admin.topicName shown.url = some name →
      admin.getMessagesByID name shown.id.ledgerID shown.id.entryID = some messages →
      ∃ first later, messages = first :: later ∧
        (cluster.entry shown.id.ledgerID shown.id.entryID).head? = some first.member := by
    intro name messages _ hmessages
    have hmembers := hadmin name _ _ messages hmessages
    cases messages with
    | nil =>
      have hheld := shown.held
      rw [← hmembers] at hheld
      exact absurd hheld List.not_mem_nil
    | cons first later =>
      exact ⟨first, later, rfl, by rw [← hmembers]; rfl⟩
  constructor
  · intro h
    by_cases hsilent : admin.Silent shown
    · exact .inl hsilent
    · right
      unfold Admin.Silent at hsilent
      push Not at hsilent
      obtain ⟨name, hname, hsome⟩ := hsilent
      obtain ⟨messages, hmessages⟩ := Option.ne_none_iff_exists'.mp hsome
      obtain ⟨first, later, rfl, hhead⟩ := hfirst name messages hname hmessages
      have hsame := h (shown.url, first)
        ((pickByID_eq_ok shown).mpr ⟨name, later, hname, hmessages, rfl⟩)
      rw [hhead, ← hsame]
  · rintro h picked hpicked
    obtain ⟨name, later, hname, hmessages, -⟩ := (pickByID_eq_ok shown).mp hpicked
    rcases h with hsilent | hhead
    · rw [hsilent name hname] at hmessages
      cases hmessages
    · obtain ⟨first, rest, hlist, hhead'⟩ := hfirst name _ hname hmessages
      obtain ⟨rfl, -⟩ := List.cons.inj hlist
      exact Option.some.inj (hhead'.symm.trans hhead)

/-! ## Browses -/

/-- What a reader is asked: whether it has a next message, and for it. -/
inductive Next where
  | exhausted
  | message (m : Message)
  /-- The budget ran out, or the request was cancelled. -/
  | deadline
  | failed

/-- `splitProperty` -/
def splitProperty (raw : Text) : Text × Text :=
  (trimSpace (raw.takeWhile (· ≠ '=')), trimSpace ((raw.dropWhile (· ≠ '=')).drop 1))

/-- `matches` -/
def matchesFilters (params : Params) (m : Message) : Bool :=
  let property := splitProperty params.propertyFilter
  if params.messageKey ≠ [] ∧ m.key ≠ params.messageKey then false
  else if property.1 = [] then true
  else
    match m.properties.lookup property.1 with
    | none => false
    | some found => property.2 = [] || found = property.2

/-- `readMaxScanned` -/
def readMaxScanned : Nat := 50000

/-- How many messages a browse is to return. -/
def limitOf (params : Params) : Nat :=
  if params.maxResults ≤ 0 ∨ (readMaxResults : Int) < params.maxResults then readMaxResults
  else params.maxResults.toNat

/-- The message is past the end of the window. -/
def pastEnd (params : Params) (m : Message) : Bool :=
  decide (0 < params.endTime) && decide (params.endTime < m.publishTime)

/-- The loop of `QueryMessages`, with room for so many messages and so many left to scan. -/
def browseLoop (params : Params) : Nat → Nat → List Next → Option (List Message)
  | 0, _, _ => some []
  | _ + 1, 0, _ => some []
  | _ + 1, _ + 1, [] => some []
  | _ + 1, _ + 1, .exhausted :: _ => some []
  | _ + 1, _ + 1, .deadline :: _ => some []
  | _ + 1, _ + 1, .failed :: _ => none
  | room + 1, scans + 1, .message m :: rest =>
    if pastEnd params m then some []
    else if matchesFilters params m then (browseLoop params room scans rest).map (m :: ·)
    else browseLoop params (room + 1) scans rest

/-- The messages that a browse finds. -/
def browse (params : Params) (nexts : List Next) : Option (List Message) :=
  browseLoop params (limitOf params) readMaxScanned nexts

/-- `QueryMessages`, with the reader as it answers from a moment on, if it opens. -/
def queryMessages (admin : Admin ν) (scope : Text) (stamp : Int → Text)
    (reader : Text → Int → Option (List Next)) (params : Params) :
    Except Problem (List MessageItem) :=
  if params.messageID ≠ [] then
    (messageByID admin scope params.topic params.messageID).map fun item => [item]
  else
    match queryTopicURL scope params with
    | .error problem => .error problem
    | .ok url =>
      match (reader url params.startTime).bind (browse params) with
      | none => .error .reader
      | some messages => .ok (messages.mapIdx fun i m => messageItem stamp url (i + 1) m)

/-! ### A read of a topic -/

/-- A reader on a topic: the messages of each partition, how many of them are sought past, and what
is handed out, which is the rest of each partition in its order. -/
structure Reading where
  partitions : List Int
  log : Int → List Message
  sought : Int → Nat
  delivered : List Message
  own : ∀ p, ∀ m ∈ log p, m.id.partitionIdx = p
  distinct : ∀ p, (log p).Nodup
  inOrder : ∀ p ∈ partitions,
    delivered.filter (fun m => m.id.partitionIdx = p) = (log p).drop (sought p)
  known : ∀ m ∈ delivered, m.id.partitionIdx ∈ partitions

/-- The messages of the topic. -/
def Reading.Has (reading : Reading) (m : Message) : Prop :=
  ∃ p ∈ reading.partitions, m ∈ reading.log p

/-- A message that the browse is asked for: in the window, and as the filters say. -/
def Wanted (params : Params) (m : Message) : Prop :=
  (0 < params.startTime → params.startTime ≤ m.publishTime) ∧
    (0 < params.endTime → m.publishTime ≤ params.endTime) ∧ matchesFilters params m = true

/-- How many messages the loop reads that has room for so many. -/
def reads (params : Params) : Nat → List Message → Nat
  | 0, _ => 0
  | _ + 1, [] => 0
  | room + 1, m :: rest =>
    if pastEnd params m then 1
    else if matchesFilters params m then reads params room rest + 1
    else reads params (room + 1) rest + 1

/-- A browse of a window is complete: it finds messages of the window alone, and as many as were
asked for or all there are. -/
def Complete (params : Params) (reading : Reading) : Prop :=
  ∀ messages, browse params (reading.delivered.map .message) = some messages →
    (∀ m ∈ messages, reading.Has m ∧ Wanted params m) ∧
      (messages.length = limitOf params ∨
        ∀ m, reading.Has m → Wanted params m → m ∈ messages)

/-- What is handed out before the first message past the end of the window. -/
def beforeEnd (params : Params) (messages : List Message) : List Message :=
  messages.takeWhile fun m => ¬ pastEnd params m

/-- What is handed out from the first message past the end of the window on. -/
def fromEnd (params : Params) (messages : List Message) : List Message :=
  messages.dropWhile fun m => ¬ pastEnd params m

/-- The first messages, as many as asked for, that the filters take before the end of the window. -/
def page (params : Params) (messages : List Message) : List Message :=
  ((beforeEnd params messages).filter (matchesFilters params)).take (limitOf params)

variable {params : Params} {reading : Reading}

theorem beforeEnd_cons_of_pastEnd {m : Message} (h : pastEnd params m = true)
    (rest : List Message) : beforeEnd params (m :: rest) = [] :=
  List.takeWhile_cons_of_neg (by simp [h])

theorem beforeEnd_cons {m : Message} (h : pastEnd params m = false) (rest : List Message) :
    beforeEnd params (m :: rest) = m :: beforeEnd params rest :=
  List.takeWhile_cons_of_pos (by simp [h])

/-- A loop that is not cut short by the scan count. -/
theorem browseLoop_messages (messages : List Message) (room scans : Nat)
    (h : reads params room messages ≤ scans) :
    browseLoop params room scans (messages.map .message) =
      some (((beforeEnd params messages).filter (matchesFilters params)).take room) := by
  induction messages generalizing room scans with
  | nil => cases room <;> cases scans <;> simp [browseLoop, beforeEnd]
  | cons m rest ih =>
    cases room with
    | zero => simp [browseLoop]
    | succ room =>
      cases scans with
      | zero =>
        unfold reads at h
        split at h
        · omega
        · split at h <;> omega
      | succ scans =>
        rw [List.map_cons, browseLoop]
        rw [reads] at h
        cases hpast : pastEnd params m with
        | true => rw [beforeEnd_cons_of_pastEnd hpast]; rfl
        | false =>
          rw [beforeEnd_cons hpast]
          simp only [hpast, Bool.false_eq_true, if_false] at h ⊢
          cases hmatch : matchesFilters params m with
          | true =>
            simp only [hmatch, if_true] at h ⊢
            rw [ih room scans (by omega), Option.map_some, List.filter_cons_of_pos hmatch,
              List.take_succ_cons]
          | false =>
            simp only [hmatch, Bool.false_eq_true, if_false] at h ⊢
            rw [ih (room + 1) scans (by omega), List.filter_cons_of_neg (by simp [hmatch])]

/-- A browse that its scan count does not cut short finds the page. -/
theorem browse_eq_page {messages : List Message}
    (h : reads params (limitOf params) messages ≤ readMaxScanned) :
    browse params (messages.map .message) = some (page params messages) :=
  browseLoop_messages messages _ _ h

theorem beforeEnd_append_fromEnd (params : Params) (messages : List Message) :
    beforeEnd params messages ++ fromEnd params messages = messages :=
  List.takeWhile_append_dropWhile

/-- A message of the page was handed out before the end of the window, and the filters take it. -/
theorem mem_page {messages : List Message} {m : Message} (h : m ∈ page params messages) :
    m ∈ beforeEnd params messages ∧ pastEnd params m = false ∧ matchesFilters params m = true := by
  obtain ⟨hbefore, hmatch⟩ := List.mem_filter.mp (List.mem_of_mem_take h)
  have hpast := List.mem_takeWhile_imp hbefore
  exact ⟨hbefore, by simpa using hpast, hmatch⟩

/-- What is handed out is of the topic. -/
theorem Reading.has_of_delivered {m : Message} (h : m ∈ reading.delivered) : reading.Has m := by
  have hpartition := reading.known m h
  refine ⟨m.id.partitionIdx, hpartition, ?_⟩
  have hmem : m ∈ reading.delivered.filter fun n => n.id.partitionIdx = m.id.partitionIdx :=
    List.mem_filter.mpr ⟨h, by simp⟩
  rw [reading.inOrder _ hpartition] at hmem
  exact List.mem_of_mem_drop hmem

/-- A message of the topic is sought past or handed out. -/
theorem Reading.sought_or_delivered {p : Int} (hp : p ∈ reading.partitions) {m : Message}
    (h : m ∈ reading.log p) :
    m ∈ (reading.log p).take (reading.sought p) ∨ m ∈ reading.delivered := by
  rw [← List.take_append_drop (reading.sought p) (reading.log p), List.mem_append] at h
  rcases h with hsought | hrest
  · exact .inl hsought
  · rw [← reading.inOrder p hp] at hrest
    exact .inr (List.mem_filter.mp hrest).1

/-- What is sought past is not handed out. -/
theorem Reading.not_delivered_of_sought {p : Int} (hp : p ∈ reading.partitions) {m : Message}
    (h : m ∈ (reading.log p).take (reading.sought p)) : m ∉ reading.delivered := by
  intro hdelivered
  have hown := reading.own p m (List.mem_of_mem_take h)
  have hdrop : m ∈ (reading.log p).drop (reading.sought p) := by
    rw [← reading.inOrder p hp]
    exact List.mem_filter.mpr ⟨hdelivered, by simpa using hown⟩
  have hnodup := reading.distinct p
  rw [← List.take_append_drop (reading.sought p) (reading.log p)] at hnodup
  exact (List.nodup_append.mp hnodup).2.2 m h m hdrop rfl

/-- Nothing is handed out twice. -/
theorem Reading.disjoint_fromEnd {m : Message} (h : m ∈ beforeEnd params reading.delivered) :
    m ∉ fromEnd params reading.delivered := by
  intro hlater
  have hsplit := beforeEnd_append_fromEnd params reading.delivered
  have hpartition := reading.known m (by rw [← hsplit]; exact List.mem_append_left _ h)
  have hnodup : (reading.delivered.filter fun n => n.id.partitionIdx = m.id.partitionIdx).Nodup := by
    rw [reading.inOrder _ hpartition]
    exact (reading.distinct _).sublist (List.drop_sublist _ _)
  rw [← hsplit, List.filter_append] at hnodup
  exact (List.nodup_append.mp hnodup).2.2 m (List.mem_filter.mpr ⟨h, by simp⟩) m
    (List.mem_filter.mpr ⟨hlater, by simp⟩) rfl

/-- **Browses of a window**: a browse that neither its scan count nor its budget cuts short is
complete exactly where the page is in the window from its start on and, if the page is not full, no
message of the window is handed out from the first one past its end on, or sought past. -/
theorem browse_complete_iff (params : Params) (reading : Reading)
    (h : reads params (limitOf params) reading.delivered ≤ readMaxScanned) :
    Complete params reading ↔
      (∀ m ∈ page params reading.delivered,
        0 < params.startTime → params.startTime ≤ m.publishTime) ∧
      ((page params reading.delivered).length = limitOf params ∨
        (∀ m ∈ fromEnd params reading.delivered, ¬ Wanted params m) ∧
        ∀ p ∈ reading.partitions, ∀ m ∈ (reading.log p).take (reading.sought p),
          ¬ Wanted params m) := by
  unfold Complete
  simp only [browse_eq_page h, Option.some.injEq, forall_eq']
  have hsplit := beforeEnd_append_fromEnd params reading.delivered
  have hbefore : ∀ m ∈ beforeEnd params reading.delivered, m ∈ reading.delivered := by
    intro m hm
    rw [← hsplit]
    exact List.mem_append_left _ hm
  constructor
  · rintro ⟨hall, hmost⟩
    refine ⟨fun m hm => (hall m hm).2.1, hmost.imp_right fun hevery => ⟨?_, ?_⟩⟩
    · intro m hm hwanted
      have hdelivered : m ∈ reading.delivered := by
        rw [← hsplit]
        exact List.mem_append_right _ hm
      have hpage := hevery m (Reading.has_of_delivered hdelivered) hwanted
      exact Reading.disjoint_fromEnd (mem_page hpage).1 hm
    · intro p hp m hm hwanted
      have hpage := hevery m ⟨p, hp, List.mem_of_mem_take hm⟩ hwanted
      exact Reading.not_delivered_of_sought hp hm (hbefore m (mem_page hpage).1)
  · rintro ⟨hstart, hmost⟩
    constructor
    · intro m hm
      obtain ⟨hmem, hpast, hmatch⟩ := mem_page hm
      refine ⟨Reading.has_of_delivered (hbefore m hmem), hstart m hm, fun hpos => ?_, hmatch⟩
      simp only [pastEnd, hpos, decide_true, Bool.true_and, decide_eq_false_iff_not] at hpast
      exact not_lt.mp hpast
    · by_cases hfull : (page params reading.delivered).length = limitOf params
      · exact .inl hfull
      · right
        obtain ⟨hlater, hsought⟩ := hmost.resolve_left hfull
        -- a page that is not full is all that the filters take before the end
        have hpage : page params reading.delivered =
            (beforeEnd params reading.delivered).filter (matchesFilters params) := by
          refine List.take_of_length_le ?_
          unfold page at hfull
          rw [List.length_take] at hfull
          omega
        rintro m ⟨p, hp, hm⟩ hwanted
        rcases Reading.sought_or_delivered hp hm with hpassed | hdelivered
        · exact absurd hwanted (hsought p hp m hpassed)
        · rw [← hsplit] at hdelivered
          rcases List.mem_append.mp hdelivered with hearly | hlate
          · rw [hpage]
            exact List.mem_filter.mpr ⟨hearly, hwanted.2.2⟩
          · exact absurd hwanted (hlater m hlate)

/-- On a log whose publish times do not go back, and whose search finds the start of the window, a
browse is complete. -/
theorem browse_complete_of_ordered
    (h : reads params (limitOf params) reading.delivered ≤ readMaxScanned)
    (hordered : reading.delivered.Pairwise fun m n => m.publishTime ≤ n.publishTime)
    (hstart : ∀ m ∈ reading.delivered, 0 < params.startTime → params.startTime ≤ m.publishTime)
    (hsought : ∀ p ∈ reading.partitions, ∀ m ∈ (reading.log p).take (reading.sought p),
      0 < params.startTime ∧ m.publishTime < params.startTime) :
    Complete params reading := by
  rw [browse_complete_iff params reading h]
  have hsplit := beforeEnd_append_fromEnd params reading.delivered
  refine ⟨fun m hm => hstart m ?_, .inr ⟨?_, ?_⟩⟩
  · rw [← hsplit]
    exact List.mem_append_left _ (mem_page hm).1
  · -- what comes after the first message past the end is past the end
    intro m hm hwanted
    rw [← hsplit] at hordered
    have hlate := (List.pairwise_append.mp hordered).2.1
    cases hfrom : fromEnd params reading.delivered with
    | nil =>
      rw [hfrom] at hm
      exact absurd hm List.not_mem_nil
    | cons first rest =>
      have hfirst : pastEnd params first = true := by
        have hne : reading.delivered.dropWhile (fun m => ¬ pastEnd params m) ≠ [] := by
          show fromEnd params reading.delivered ≠ []
          rw [hfrom]
          exact List.cons_ne_nil _ _
        have hnot := List.head_dropWhile_not (fun m => ¬ pastEnd params m) hne
        have hhead : (reading.delivered.dropWhile (fun m => ¬ pastEnd params m)).head hne = first := by
          have heq : reading.delivered.dropWhile (fun m => ¬ pastEnd params m) = first :: rest :=
            hfrom
          simp only [heq, List.head_cons]
        rw [hhead] at hnot
        simpa using hnot
      simp only [pastEnd, Bool.and_eq_true, decide_eq_true_eq] at hfirst
      rw [hfrom] at hm hlate
      have hle : first.publishTime ≤ m.publishTime := by
        rcases List.mem_cons.mp hm with rfl | hrest
        · exact Int.le_refl _
        · exact (List.pairwise_cons.mp hlate).1 m hrest
      have hend := hwanted.2.1 hfirst.1
      omega
  · intro p hp m hm hwanted
    obtain ⟨hpos, hbelow⟩ := hsought p hp m hm
    have habove := hwanted.1 hpos
    omega

/-! ## A batch, and two partitions -/

/-- A cluster of one batch of two messages, the entry 5 of ledger 3, and a message alone in the entry
6. -/
def batchCluster : Cluster where
  entry ledger number :=
    if ledger = 3 ∧ number = 5 then
      [⟨0, [], "first".toList⟩, ⟨1, [], "second".toList⟩]
    else if ledger = 3 ∧ number = 6 then [⟨-1, [], "alone".toList⟩]
    else []
  distinct ledger number := by
    split
    · decide
    · split <;> decide

/-- An admin API that answers for every entry. -/
def openAdmin : Admin Unit where
  topicName _ := some ()
  getMessagesByID _ ledger number :=
    some ((batchCluster.entry ledger number).map fun member => ⟨ledger, number, -1, member⟩)

theorem openAdmin_honest : openAdmin.Honest batchCluster := by
  intro name ledger number messages h
  cases h
  rw [List.map_map]
  exact List.map_id _

/-- The second message of the batch, as it is shown. -/
def secondOfBatch : Shown batchCluster where
  url := "persistent://public/default/orders".toList
  hasScheme := by decide
  id := ⟨3, 5, 1, -1⟩
  fits := ⟨by decide, by decide, by decide⟩
  member := ⟨1, [], "second".toList⟩
  place := rfl
  held := by decide

/-- The message that is alone in its entry. -/
def aloneInEntry : Shown batchCluster where
  url := "persistent://public/default/orders".toList
  hasScheme := by decide
  id := ⟨3, 6, -1, -1⟩
  fits := ⟨by decide, by decide, by decide⟩
  member := ⟨-1, [], "alone".toList⟩
  place := rfl
  held := by decide

/-- A message that is alone in its entry is the answer to its lookup. -/
theorem alone_answered : openAdmin.AnswersRightly [] aloneInEntry :=
  (messageByID_right_iff openAdmin_honest aloneInEntry).mpr (.inr (by decide))

/-- The lookup of the second message of a batch answers with the first. -/
theorem second_of_batch : ¬ openAdmin.AnswersRightly [] secondOfBatch := by
  intro h
  have hpicked := h (secondOfBatch.url, ⟨3, 5, -1, ⟨0, [], "first".toList⟩⟩)
    ((pickByID_eq_ok secondOfBatch).mpr ⟨(), _, rfl, rfl, rfl⟩)
  exact absurd hpicked (by decide)

/-- A message of a partition, published at a time. -/
def publishedAt (partition entry time : Int) : Message :=
  ⟨⟨3, entry, -1, partition⟩, [], [], [], [], time, none, 0, []⟩

/-- The window up to 100. -/
def upTo100 : Params := ⟨"orders".toList, [], [], 0, 100, 0, [], [], []⟩

/-- One partition, with a message in the window. -/
def onePartition : Reading where
  partitions := [0]
  log p := if p = 0 then [publishedAt 0 0 50] else []
  sought _ := 0
  delivered := [publishedAt 0 0 50]
  own p m hm := by
    split at hm
    · rename_i hp
      rw [List.mem_singleton.mp hm, hp]
      rfl
    · exact absurd hm List.not_mem_nil
  distinct p := by split <;> decide
  inOrder := by decide
  known := by decide

/-- Two partitions, of which the one that is handed out first has a message past the window. -/
def twoPartitions : Reading where
  partitions := [0, 1]
  log p := if p = 0 then [publishedAt 0 0 200] else if p = 1 then [publishedAt 1 0 50] else []
  sought _ := 0
  delivered := [publishedAt 0 0 200, publishedAt 1 0 50]
  own p m hm := by
    split at hm
    · rename_i hp
      rw [List.mem_singleton.mp hm, hp]
      rfl
    · split at hm
      · rename_i hp
        rw [List.mem_singleton.mp hm, hp]
        rfl
      · exact absurd hm List.not_mem_nil
  distinct p := by
    split
    · decide
    · split <;> decide
  inOrder := by decide
  known := by decide

/-- A browse of the one partition is complete. -/
theorem onePartition_complete : Complete upTo100 onePartition := by
  refine (browse_complete_iff upTo100 onePartition (by decide)).mpr ⟨by decide, .inr ⟨?_, ?_⟩⟩
  · have hnone : fromEnd upTo100 onePartition.delivered = [] := by decide
    rw [hnone]
    exact fun m hm => absurd hm List.not_mem_nil
  · exact fun p _ m hm => absurd hm List.not_mem_nil

/-- The message of the second partition is in the window, and the browse stops before it. -/
theorem late_partition : ¬ Complete upTo100 twoPartitions := by
  rw [browse_complete_iff upTo100 twoPartitions (by decide)]
  rintro ⟨-, hfull | ⟨hlater, -⟩⟩
  · exact absurd hfull (by decide)
  · refine hlater (publishedAt 1 0 50) (by decide) ⟨?_, ?_, by decide⟩
    · exact fun hpos => absurd hpos (by decide)
    · exact fun _ => by decide

end MqStudio.Driver.Pulsar.Browse
