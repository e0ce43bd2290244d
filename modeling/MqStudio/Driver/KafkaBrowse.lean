import Mathlib.Algebra.Group.Int.Defs
import Mathlib.Data.List.Nodup
import Mathlib.Data.List.Perm.Subperm
import MqStudio.Driver.KafkaTail
import MqStudio.Lib.Words

/-!
# Browsing Kafka

`readRecords` and `MessageByID` of `internal/driver/kafka/record_read.go`. An offset of a log may hold
a record, a record of a transaction that was aborted, a transaction's marker, or nothing since the log
was compacted; only the first can be read.

The consumer is outside the repository: it hands out, of each partition it was given, what can be read
from the offset on, in order, and it may fail or meet the deadline at any poll.

## Main results

- `messageByID_rightly_iff`: a lookup answers with its record or not at all exactly where what can be
  read next is that record.
- `browse_ends_iff`: a browse that has everything polls no more exactly where it has enough, has
  scanned enough, or the last offset of each partition can be read.
- `parseMessageID_messageID`: an id is read back as it was written.
-/

namespace MqStudio.Driver.Kafka.Browse

open MqStudio.Lib

variable {β : Type}

/-! ## Logs -/

/-- What an offset holds. -/
inductive Slot (β : Type) where
  | record (content : β)
  | aborted (content : β)
  | marker
  | removed
  deriving DecidableEq

/-- `kgo.Record` -/
structure Record (β : Type) where
  partition : Int
  offset : Int
  content : β
  deriving DecidableEq

/-- A partition's log: where it starts, and what its offsets hold. -/
structure Log (β : Type) where
  first : Nat
  slots : List (Slot β)

/-- What can be read of slots that start at an offset. -/
def readableFrom (partition : Int) (first : Nat) : List (Slot β) → List (Record β)
  | [] => []
  | .record content :: rest =>
    ⟨partition, first, content⟩ :: readableFrom partition (first + 1) rest
  | .aborted _ :: rest | .marker :: rest | .removed :: rest =>
    readableFrom partition (first + 1) rest

/-- What can be read of each partition. -/
def readable (logs : Int → Log β) (partition : Int) : List (Record β) :=
  readableFrom partition (logs partition).first (logs partition).slots

/-- What can be read from an offset on. -/
def ahead (logs : Int → Log β) (position : Int × Int) : List (Record β) :=
  (readable logs position.1).filter fun record => position.2 ≤ record.offset

/-! ## Reading -/

/-- `map[int32]int64`: an offset for each partition it has. -/
structure Offsets where
  entries : List (Int × Int)
  distinct : (entries.map Prod.fst).Nodup

/-- What one `PollRecords` gives: the deadline passed, an error, or records. -/
structure Round (β : Type) where
  deadline : Bool
  failed : Bool
  records : List (Record β)
  deriving DecidableEq

/-- `records`, `scanned` and `done`. -/
structure Reading (β : Type) where
  records : List (Record β)
  scanned : Nat
  done : List Int
  deriving DecidableEq

/-- Before the first poll. -/
def Reading.start : Reading β := ⟨[], 0, []⟩

/-- `scanLimit` -/
def scanLimit : Nat := 200000

/-- A read: its filter, where its partitions end, how many there are, and how many records it is to
    return. -/
structure Query (β : Type) where
  matching : Option (Record β → Bool)
  remaining : Int → Int
  partitions : Nat
  limit : Nat

/-- Whether a record is one that is looked for. -/
def Query.wants (q : Query β) (record : Record β) : Bool := q.matching.all fun m => m record

/-- The body of `EachRecord`. -/
def Query.eachRecord (q : Query β) (reading : Reading β) (record : Record β) : Reading β where
  records :=
    if q.limit ≤ reading.records.length then reading.records
    else if q.wants record then reading.records ++ [record]
    else reading.records
  scanned := reading.scanned + 1
  done :=
    if q.remaining record.partition ≤ record.offset + 1 then reading.done.insert record.partition
    else reading.done

/-- The condition of the loop. -/
def Query.goesOn (q : Query β) (reading : Reading β) : Bool :=
  decide (reading.records.length < q.limit) && decide (reading.done.length < q.partitions)

/-- A search that has scanned enough. -/
def Query.exhausted (q : Query β) (reading : Reading β) : Bool :=
  q.matching.isSome && decide (scanLimit ≤ reading.scanned)

/-- The loop of `readRecords`; where there is no further round the deadline passes. -/
def Query.readLoop (q : Query β) : List (Round β) → Reading β → Option (List (Record β))
  | [], reading => some reading.records
  | round :: rest, reading =>
    if ¬ q.goesOn reading then some reading.records
    else if round.deadline then some reading.records
    else if round.failed then none
    else if round.records = [] then some reading.records
    else
      let next := round.records.foldl q.eachRecord reading
      if q.exhausted next then some next.records else q.readLoop rest next

/-- Whether, after these rounds, it polls once more. -/
def Query.pollsAgain (q : Query β) : List (Round β) → Reading β → Bool
  | [], reading => q.goesOn reading
  | round :: rest, reading =>
    if ¬ q.goesOn reading then false
    else if round.deadline then false
    else if round.failed then false
    else if round.records = [] then false
    else
      let next := round.records.foldl q.eachRecord reading
      if q.exhausted next then false else q.pollsAgain rest next

/-- The partitions that have something to give. -/
def consumed (offsets : Offsets) (ends : ListedOffsets) : List (Int × Int) :=
  offsets.entries.filter fun p => ¬ (offsetAt ends p.1 < 0 ∨ offsetAt ends p.1 ≤ p.2)

/-- The read of `readRecords`. -/
def query (offsets : Offsets) (ends : ListedOffsets) (limit : Nat)
    (matching : Option (Record β → Bool)) : Query β where
  matching := matching
  remaining partition :=
    if partition ∈ (consumed offsets ends).map Prod.fst then offsetAt ends partition else 0
  partitions := (consumed offsets ends).length
  limit := limit

/-- `readRecords`, with what the consumer gives; `none` is an error. -/
def readRecords (offsets : Offsets) (ends : ListedOffsets) (limit : Nat)
    (matching : Option (Record β → Bool)) (rounds : List (Round β)) : Option (List (Record β)) :=
  if consumed offsets ends = [] then some []
  else (query offsets ends limit matching).readLoop rounds .start

/-- All that the rounds of a read hand out. -/
def handedOut (rounds : List (Round β)) : List (Record β) := rounds.flatMap Round.records

/-- **What a consumer hands out**: of each partition it was given what can be read, from the offset
    on and in order, and nothing else. -/
def Consumes (logs : Int → Log β) (given : List (Int × Int)) (rounds : List (Round β)) : Prop :=
  (∀ position ∈ given, (handedOut rounds).filter (·.partition = position.1) <+:
      ahead logs position) ∧
    ∀ record ∈ handedOut rounds, record.partition ∈ given.map Prod.fst

instance [DecidableEq β] (logs : Int → Log β) (given : List (Int × Int)) (rounds : List (Round β)) :
    Decidable (Consumes logs given rounds) :=
  inferInstanceAs (Decidable (_ ∧ _))

/-! ## One record -/

/-- `strconv.FormatInt`, in base ten. -/
def formatInt (n : Int) : String := n.repr

/-- The sign in front of a number, if there is one, and what follows. -/
def splitSign : List Char → Int × List Char
  | '-' :: digits => (-1, digits)
  | '+' :: digits => (1, digits)
  | digits => (1, digits)

/-- `strconv.ParseInt`, in base ten: digits behind a sign or not, within so many bits. -/
def parseInt (bits : Nat) (text : List Char) : Option Int :=
  let (sign, digits) := splitSign text
  if digits ≠ [] ∧ digits.all Char.isDigit then
    let n := sign * (Nat.ofDigitChars 10 digits 0 : Nat)
    if -2 ^ (bits - 1) ≤ n ∧ n < 2 ^ (bits - 1) then some n else none
  else none

/-- `messageID` -/
def messageID (topic : String) (partition offset : Int) : String :=
  topic ++ "-" ++ formatInt partition ++ "-" ++ formatInt offset

/-- `parseMessageID`: it cuts at the last two dashes, and neither may come first. -/
def parseMessageID (id : String) : Option (Int × Int) :=
  match Words.splitLast '-' id.toList with
  | none => none
  | some (front, offset) =>
    if front = [] then none
    else
      match Words.splitLast '-' front with
      | none => none
      | some (topic, partition) =>
        if topic = [] then none
        else
          (parseInt 32 partition).bind fun partition =>
            (parseInt 64 offset).map fun offset => (partition, offset)

/-- `model.MessageItem`: where the record is, how it is named, and what it says. -/
structure MessageItem (β : Type) where
  topic : String
  messageID : String
  queueID : Int
  queueOffset : Int
  content : β
  deriving DecidableEq

/-- `messageFrom` -/
def messageFrom (topic : String) (record : Record β) : MessageItem β where
  topic := topic
  messageID := messageID topic record.partition record.offset
  queueID := record.partition
  queueOffset := record.offset
  content := record.content

/-- One partition. -/
def Offsets.one (partition offset : Int) : Offsets := ⟨[(partition, offset)], List.nodup_singleton _⟩

/-- `MessageByID`, with the listings it asks for, which may fail, and what the consumer gives. -/
def messageByID (starts ends : Option ListedOffsets) (topic id : String) (rounds : List (Round β)) :
    Option (MessageItem β) :=
  (parseMessageID id).bind fun (partition, offset) =>
    starts.bind fun starts =>
      ends.bind fun ends =>
        let start := offsetAt starts partition
        let last := offsetAt ends partition
        if last < 0 then none
        else if offset < start ∨ last ≤ offset then none
        else
          (readRecords (.one partition offset) ends 1 none rounds).bind fun records =>
            records.head?.map (messageFrom topic)

/-! ## What can be read -/

section Logs

variable {logs : Int → Log β} {partition : Int} {position : Int × Int} {record : Record β}

theorem mem_readableFrom {first : Nat} {slots : List (Slot β)}
    (h : record ∈ readableFrom partition first slots) :
    record.partition = partition ∧ (first : Int) ≤ record.offset := by
  induction slots generalizing first with
  | nil => cases h
  | cons slot rest ih =>
    cases slot with
    | record content =>
      rcases List.mem_cons.mp h with rfl | h
      · exact ⟨rfl, le_refl _⟩
      · have := ih h
        exact ⟨this.1, by omega⟩
    | aborted _ | marker | removed =>
      have := ih h
      exact ⟨this.1, by omega⟩

/-- **What can be read is in order.** -/
theorem pairwise_readableFrom (first : Nat) (slots : List (Slot β)) :
    (readableFrom partition first slots).Pairwise fun a b => a.offset < b.offset := by
  induction slots generalizing first with
  | nil => exact List.Pairwise.nil
  | cons slot rest ih =>
    cases slot with
    | record content =>
      refine List.pairwise_cons.mpr ⟨fun later hlater => ?_, ih (first + 1)⟩
      have := (mem_readableFrom hlater).2
      dsimp only
      omega
    | aborted _ | marker | removed => exact ih (first + 1)

theorem mem_ahead : record ∈ ahead logs position ↔
    record ∈ readable logs position.1 ∧ position.2 ≤ record.offset := by
  simp [ahead]

theorem partition_of_ahead (h : record ∈ ahead logs position) : record.partition = position.1 :=
  (mem_readableFrom (mem_ahead.mp h).1).1

theorem pairwise_ahead (logs : Int → Log β) (position : Int × Int) :
    (ahead logs position).Pairwise fun a b => a.offset < b.offset :=
  (pairwise_readableFrom _ _).filter _

/-- Below an offset there is a front part of it. -/
theorem filter_prefix {records : List (Record β)} (n : Int)
    (h : records.Pairwise fun a b => a.offset < b.offset) :
    records.filter (fun record => record.offset < n) <+: records := by
  induction records with
  | nil => exact List.prefix_refl _
  | cons first rest ih =>
    obtain ⟨hfirst, hrest⟩ := List.pairwise_cons.mp h
    by_cases hbelow : first.offset < n
    · rw [List.filter_cons_of_pos (by simpa using hbelow)]
      exact List.prefix_cons_inj first |>.mpr (ih hrest)
    · have hnone : rest.filter (fun record => record.offset < n) = [] := by
        rw [List.filter_eq_nil_iff]
        intro later hlater
        have := hfirst later hlater
        simp only [decide_eq_true_eq]
        omega
      rw [List.filter_cons_of_neg (by simpa using hbelow), hnone]
      exact List.nil_prefix

end Logs

/-! ## The loop -/

section Loop

variable {q : Query β} {reading : Reading β} {rounds : List (Round β)} {records : List (Record β)}
  {partition : Int}

/-- A batch is scanned, and what is wanted of it is taken up to the limit. -/
theorem foldl_records (h : reading.records.length ≤ q.limit) (records : List (Record β)) :
    (records.foldl q.eachRecord reading).records =
      (reading.records ++ records.filter q.wants).take q.limit := by
  induction records generalizing reading with
  | nil => rw [List.foldl_nil, List.filter_nil, List.append_nil, List.take_of_length_le h]
  | cons record rest ih =>
    rw [List.foldl_cons]
    by_cases hfull : q.limit ≤ reading.records.length
    · have hsame : (q.eachRecord reading record).records = reading.records := if_pos hfull
      have hlength : reading.records.length = q.limit := le_antisymm h hfull
      rw [ih (by rw [hsame]; exact h), hsame, ← hlength, List.take_left', List.take_left'] <;> rfl
    · by_cases hwanted : q.wants record = true
      · have hmore : (q.eachRecord reading record).records = reading.records ++ [record] := by
          rw [Query.eachRecord]
          dsimp only
          rw [if_neg hfull, if_pos hwanted]
        rw [ih (by rw [hmore, List.length_append, List.length_singleton]; omega), hmore,
          List.filter_cons_of_pos hwanted, List.append_assoc, List.singleton_append]
      · have hsame : (q.eachRecord reading record).records = reading.records := by
          rw [Query.eachRecord]
          dsimp only
          rw [if_neg hfull, if_neg hwanted]
        rw [ih (by rw [hsame]; exact h), hsame, List.filter_cons_of_neg hwanted]

theorem foldl_scanned (reading : Reading β) (records : List (Record β)) :
    (records.foldl q.eachRecord reading).scanned = reading.scanned + records.length := by
  induction records generalizing reading with
  | nil => rfl
  | cons record rest ih =>
    rw [List.foldl_cons, ih, List.length_cons, Query.eachRecord]
    dsimp only
    omega

/-- **A partition is done** once a record is read at or behind its last offset. -/
theorem mem_foldl_done (reading : Reading β) (records : List (Record β)) :
    partition ∈ (records.foldl q.eachRecord reading).done ↔ partition ∈ reading.done ∨
      ∃ record ∈ records, record.partition = partition ∧
        q.remaining partition ≤ record.offset + 1 := by
  induction records generalizing reading with
  | nil => simp
  | cons record rest ih =>
    have hone : partition ∈ (q.eachRecord reading record).done ↔ partition ∈ reading.done ∨
        record.partition = partition ∧ q.remaining partition ≤ record.offset + 1 := by
      rw [Query.eachRecord]
      dsimp only
      split
      · rename_i hlast
        rw [List.mem_insert_iff, or_comm]
        constructor
        · refine fun h => h.imp_right fun heq => ⟨heq.symm, ?_⟩
          rw [heq]
          exact hlast
        · exact fun h => h.imp_right fun heq => heq.1.symm
      · rename_i hlast
        refine ⟨.inl, fun h => h.resolve_right fun heq => hlast ?_⟩
        rw [heq.1]
        exact heq.2
    rw [List.foldl_cons, ih, hone]
    simp only [List.mem_cons, exists_eq_or_imp]
    tauto

theorem nodup_foldl_done (h : reading.done.Nodup) (records : List (Record β)) :
    (records.foldl q.eachRecord reading).done.Nodup := by
  induction records generalizing reading with
  | nil => exact h
  | cons record rest ih =>
    apply ih
    rw [Query.eachRecord]
    dsimp only
    split
    · exact List.Nodup.insert h
    · exact h

/-- One round of the loop that goes on. -/
theorem pollsAgain_cons {round : Round β} (h : q.pollsAgain (round :: rounds) reading = true) :
    q.pollsAgain rounds (round.records.foldl q.eachRecord reading) = true ∧
      q.exhausted (round.records.foldl q.eachRecord reading) = false := by
  rw [Query.pollsAgain] at h
  split at h
  · cases h
  · split at h
    · cases h
    · split at h
      · cases h
      · split at h
        · cases h
        · dsimp only at h
          split at h
          · cases h
          · rename_i hnot
            exact ⟨h, by simpa using hnot⟩

/-- **A loop that polls again** has taken in all it was handed, and has not had enough. -/
theorem goesOn_of_pollsAgain (h : q.pollsAgain rounds reading = true) :
    q.goesOn ((handedOut rounds).foldl q.eachRecord reading) = true ∧
      (rounds ≠ [] → q.exhausted ((handedOut rounds).foldl q.eachRecord reading) = false) := by
  induction rounds generalizing reading with
  | nil => exact ⟨h, fun hnone => absurd rfl hnone⟩
  | cons round rest ih =>
    obtain ⟨hrest, hexhausted⟩ := pollsAgain_cons h
    have hall : handedOut (round :: rest) = round.records ++ handedOut rest := List.flatMap_cons
    rw [hall, List.foldl_append]
    refine ⟨(ih hrest).1, fun _ => ?_⟩
    by_cases hnone : rest = []
    · rw [hnone]
      exact hexhausted
    · exact (ih hrest).2 hnone

/-- **What is returned** is the front of what was handed out and is wanted, within the limit. -/
theorem readLoop_prefix (hlimit : reading.records.length ≤ q.limit)
    (h : q.readLoop rounds reading = some records) :
    records <+: reading.records ++ (handedOut rounds).filter q.wants ∧
      records.length ≤ q.limit := by
  induction rounds generalizing reading with
  | nil =>
    cases h
    exact ⟨List.prefix_append _ _, hlimit⟩
  | cons round rest ih =>
    have hall : handedOut (round :: rest) = round.records ++ handedOut rest := List.flatMap_cons
    have hnext := foldl_records hlimit round.records
    have hbound : (round.records.foldl q.eachRecord reading).records.length ≤ q.limit := by
      rw [hnext]
      exact List.length_take_le _ _
    rw [Query.readLoop] at h
    split at h
    · cases h
      exact ⟨List.prefix_append _ _, hlimit⟩
    · split at h
      · cases h
        exact ⟨List.prefix_append _ _, hlimit⟩
      · split at h
        · cases h
        · split at h
          · cases h
            exact ⟨List.prefix_append _ _, hlimit⟩
          · rw [hall, List.filter_append, ← List.append_assoc]
            have hwithin : (round.records.foldl q.eachRecord reading).records <+:
                reading.records ++ round.records.filter q.wants := by
              rw [hnext]
              exact List.take_prefix _ _
            dsimp only at h
            split at h
            · cases h
              exact ⟨hwithin.trans (List.prefix_append _ _), hbound⟩
            · obtain ⟨hinit, hlength⟩ := ih hbound h
              refine ⟨?_, hlength⟩
              -- Either the batch filled the limit, or it was taken whole.
              by_cases hfull : (reading.records ++ round.records.filter q.wants).length ≤ q.limit
              · rwa [hnext, List.take_of_length_le hfull] at hinit
              · have hsize : (round.records.foldl q.eachRecord reading).records.length =
                    q.limit := by
                  rw [hnext, List.length_take]
                  omega
                have hfront := List.prefix_of_prefix_length_le hinit (List.prefix_append _ _)
                  (by omega)
                exact (hfront.trans hwithin).trans (List.prefix_append _ _)

end Loop

/-! ## Looking a record up -/

section Lookup

variable {logs : Int → Log β} {starts ends : Option ListedOffsets} {topic id : String}
  {partition offset : Int} {rounds : List (Round β)} {item : MessageItem β} {record : Record β}

/-- An offset that the listings have in the log. -/
def InRange (starts ends : Option ListedOffsets) (partition offset : Int) : Prop :=
  ∃ s e, starts = some s ∧ ends = some e ∧ 0 ≤ offsetAt e partition ∧
    offsetAt s partition ≤ offset ∧ offset < offsetAt e partition

/-- **A lookup that answers rightly**: with the record the id names, or not at all. -/
def AnswersRightly (logs : Int → Log β) (starts ends : Option ListedOffsets) (topic id : String) :
    Prop :=
  ∀ partition offset, parseMessageID id = some (partition, offset) →
    ∀ rounds, Consumes logs [(partition, offset)] rounds →
      ∀ item, messageByID starts ends topic id rounds = some item →
        item.queueID = partition ∧ item.queueOffset = offset

theorem consumed_one {e : ListedOffsets} (hlast : 0 ≤ offsetAt e partition)
    (hbefore : offset < offsetAt e partition) :
    consumed (.one partition offset) e = [(partition, offset)] := by
  rw [consumed, Offsets.one]
  exact List.filter_cons_of_pos (decide_eq_true (by dsimp only; omega))

/-- An answer is the first record of a read. -/
theorem messageByID_eq_some (hid : parseMessageID id = some (partition, offset)) :
    messageByID starts ends topic id rounds = some item ↔ ∃ s e records record, starts = some s ∧
      ends = some e ∧ 0 ≤ offsetAt e partition ∧ offsetAt s partition ≤ offset ∧
        offset < offsetAt e partition ∧
          readRecords (.one partition offset) e 1 none rounds = some records ∧
            records.head? = some record ∧ item = messageFrom topic record := by
  rw [messageByID, hid, Option.bind_some]
  constructor
  · intro h
    obtain ⟨s, hs, h⟩ := Option.bind_eq_some_iff.mp h
    obtain ⟨e, he, h⟩ := Option.bind_eq_some_iff.mp h
    dsimp only at h
    split at h
    · cases h
    · split at h
      · cases h
      · obtain ⟨records, hrecords, h⟩ := Option.bind_eq_some_iff.mp h
        obtain ⟨record, hrecord, rfl⟩ := Option.map_eq_some_iff.mp h
        exact ⟨s, e, records, record, hs, he, by omega, by omega, by omega, hrecords, hrecord, rfl⟩
  · intro h
    obtain ⟨s, e, records, record, rfl, rfl, hlast, hstart, hbefore, hrecords, hrecord, rfl⟩ := h
    dsimp only
    rw [Option.bind_some, Option.bind_some, if_neg (by omega), if_neg (by omega), hrecords,
      Option.bind_some, hrecord]
    rfl

/-- The first record of a read is the first that can be read. -/
theorem head_readRecords {e : ListedOffsets} {records : List (Record β)}
    (hlast : 0 ≤ offsetAt e partition) (hbefore : offset < offsetAt e partition)
    (hconsumes : Consumes logs [(partition, offset)] rounds)
    (h : readRecords (.one partition offset) e 1 none rounds = some records)
    (hrecord : records.head? = some record) :
    (ahead logs (partition, offset)).head? = some record := by
  rw [readRecords, consumed_one hlast hbefore, if_neg (List.cons_ne_nil _ _)] at h
  obtain ⟨hinit, _⟩ := readLoop_prefix (by exact Nat.zero_le _) h
  have hall : (handedOut rounds).filter (query (.one partition offset) e 1 none).wants =
      handedOut rounds := List.filter_eq_self.mpr fun _ _ => rfl
  have hown : (handedOut rounds).filter (·.partition = partition) = handedOut rounds := by
    rw [List.filter_eq_self]
    intro other hother
    have hgiven := hconsumes.2 other hother
    simpa using hgiven
  have hahead := hconsumes.1 (partition, offset) List.mem_cons_self
  rw [hown] at hahead
  rw [hall] at hinit
  obtain ⟨rest, hrest⟩ := hinit.trans hahead
  cases records with
  | nil => cases hrecord
  | cons first others =>
    cases hrecord
    rw [← hrest]
    rfl

/-- What is handed out first is the answer. -/
theorem readRecords_one (record : Record β) {e : ListedOffsets} (hlast : 0 ≤ offsetAt e partition)
    (hbefore : offset < offsetAt e partition) :
    readRecords (.one partition offset) e 1 none [⟨false, false, [record]⟩] = some [record] := by
  rw [readRecords, consumed_one hlast hbefore, if_neg (List.cons_ne_nil _ _)]
  simp [Query.readLoop, Query.goesOn, Query.exhausted, Query.eachRecord, Query.wants, query,
    consumed_one hlast hbefore, Reading.start]

/-- **A lookup answers rightly** exactly where, if its offset is in range, the first record that can
    be read from there on is the one it asked for, or there is none. -/
theorem messageByID_rightly_iff : AnswersRightly logs starts ends topic id ↔
    ∀ partition offset, parseMessageID id = some (partition, offset) →
      InRange starts ends partition offset →
        ∀ record, (ahead logs (partition, offset)).head? = some record → record.offset = offset := by
  constructor
  · intro h partition offset hid hrange record hrecord
    obtain ⟨s, e, hs, he, hlast, hstart, hbefore⟩ := hrange
    have hmem := List.mem_of_mem_head? hrecord
    have hown := partition_of_ahead hmem
    have hconsumes : Consumes logs [(partition, offset)] [⟨false, false, [record]⟩] := by
      constructor
      · intro position hposition
        rw [List.mem_singleton.mp hposition]
        have hone : (handedOut [⟨false, false, [record]⟩]).filter (·.partition = partition) =
            [record] := List.filter_cons_of_pos (decide_eq_true hown)
        rw [hone]
        obtain ⟨rest, hrest⟩ := List.head?_eq_some_iff.mp hrecord
        exact ⟨rest, hrest.symm⟩
      · intro other hother
        rw [List.mem_singleton.mp hother, hown]
        exact List.mem_cons_self
    have hanswer := h partition offset hid [⟨false, false, [record]⟩] hconsumes
      (messageFrom topic record) ((messageByID_eq_some hid).mpr ⟨s, e, [record], record, hs, he,
        hlast, hstart, hbefore, readRecords_one record hlast hbefore, rfl, rfl⟩)
    exact hanswer.2
  · intro h partition offset hid rounds hconsumes item hitem
    obtain ⟨s, e, records, record, hs, he, hlast, hstart, hbefore, hrecords, hrecord, rfl⟩ :=
      (messageByID_eq_some hid).mp hitem
    have hhead := head_readRecords hlast hbefore hconsumes hrecords hrecord
    exact ⟨partition_of_ahead (List.mem_of_mem_head? hhead),
      h partition offset hid ⟨s, e, hs, he, hlast, hstart, hbefore⟩ record hhead⟩

/-! ### Ids -/

theorem dash_not_mem_toDigits (n : Nat) : '-' ∉ Nat.toDigits 10 n := by
  intro hmem
  have := Nat.isDigit_of_mem_toDigits (by decide) (by decide) hmem
  cases this

theorem splitSign_toDigits (n : Nat) :
    splitSign (Nat.toDigits 10 n) = (1, Nat.toDigits 10 n) := by
  have hdigit : ∀ c ∈ Nat.toDigits 10 n, c.isDigit = true := fun c hc =>
    Nat.isDigit_of_mem_toDigits (by decide) (by decide) hc
  rw [splitSign.eq_def]
  split
  · rename_i digits hdigits
    have := hdigit '-' (hdigits ▸ List.mem_cons_self)
    cases this
  · rename_i digits hdigits
    have := hdigit '+' (hdigits ▸ List.mem_cons_self)
    cases this
  · rfl

/-- **A number is read back as it was written**, where it fits. -/
theorem parseInt_toDigits (bits n : Nat) (h : (n : Int) < 2 ^ (bits - 1)) :
    parseInt bits (Nat.toDigits 10 n) = some (n : Int) := by
  have hdigits : (Nat.toDigits 10 n).all Char.isDigit = true :=
    List.all_eq_true.mpr fun c hc => Nat.isDigit_of_mem_toDigits (by decide) (by decide) hc
  have hsome : Nat.toDigits 10 n ≠ [] := Nat.toDigits_ne_nil
  have hpower : (0 : Int) < 2 ^ (bits - 1) := Int.pow_pos (by decide)
  rw [parseInt, splitSign_toDigits]
  dsimp only
  rw [if_pos ⟨hsome, hdigits⟩, Nat.ofDigitChars_ten_toDigits, Int.one_mul, if_pos (by omega)]

theorem formatInt_natCast (n : Nat) : (formatInt n).toList = Nat.toDigits 10 n := by
  rw [formatInt]
  exact Nat.toList_repr

/-- **An id is read back as it was written.** -/
theorem parseMessageID_messageID {p o : Nat} (htopic : topic ≠ "") (hp : (p : Int) < 2 ^ 31)
    (ho : (o : Int) < 2 ^ 63) : parseMessageID (messageID topic p o) = some ((p : Int), (o : Int)) := by
  have hletters : topic.toList ≠ [] := by
    intro hnone
    apply htopic
    rw [← String.toList_inj, hnone]
    rfl
  have hlist : (messageID topic p o).toList =
      (topic.toList ++ '-' :: Nat.toDigits 10 p) ++ '-' :: Nat.toDigits 10 o := by
    simp only [messageID, String.toList_append, formatInt_natCast, List.append_assoc]
    rfl
  have houter : Words.splitLast '-' (messageID topic p o).toList =
      some (topic.toList ++ '-' :: Nat.toDigits 10 p, Nat.toDigits 10 o) :=
    (Words.splitLast_eq_some_iff _ _ _ _).mpr ⟨hlist, dash_not_mem_toDigits o⟩
  have hinner : Words.splitLast '-' (topic.toList ++ '-' :: Nat.toDigits 10 p) =
      some (topic.toList, Nat.toDigits 10 p) :=
    (Words.splitLast_eq_some_iff _ _ _ _).mpr ⟨rfl, dash_not_mem_toDigits p⟩
  rw [parseMessageID, houter]
  dsimp only
  rw [if_neg (by simp), hinner]
  dsimp only
  have hpartition : parseInt 32 (Nat.toDigits 10 p) = some (p : Int) := parseInt_toDigits 32 p hp
  have hoffset : parseInt 64 (Nat.toDigits 10 o) = some (o : Int) := parseInt_toDigits 64 o ho
  rw [if_neg hletters, hpartition, hoffset]
  rfl

/-- A log of four offsets of which compaction took the third. -/
def compacted (partition : Int) : Log String :=
  ⟨0, if partition = 0 then [.record "a", .record "b", .removed, .record "d"] else []⟩

/-- Asked for the record that is gone, the lookup answers with the next. -/
theorem next_record_answered : ¬ AnswersRightly compacted (some [(0, some 0)]) (some [(0, some 4)])
    "orders" "orders-0-2" := by
  intro h
  have hid : parseMessageID "orders-0-2" = some (0, 2) := by decide +kernel
  have hread : readRecords (.one 0 2) [(0, some 4)] 1 none [⟨false, false, [⟨0, 3, "d"⟩]⟩] =
      some [⟨0, 3, "d"⟩] := readRecords_one ⟨0, 3, "d"⟩ (by decide) (by decide)
  have hanswer := h 0 2 hid [⟨false, false, [⟨0, 3, "d"⟩]⟩] (by decide +kernel)
    (messageFrom "orders" ⟨0, 3, "d"⟩) ((messageByID_eq_some hid).mpr ⟨_, _, _, _, rfl, rfl,
      by decide, by decide, by decide, hread, rfl, rfl⟩)
  exact absurd hanswer.2 (by decide)

end Lookup

/-! ## Reading to the end -/

section Ends

variable {logs : Int → Log β} {offsets : Offsets} {ends : ListedOffsets} {limit : Nat}
  {matching : Option (Record β → Bool)} {position : Int × Int} {record : Record β}
  {rounds : List (Round β)}

/-- What can be read of a partition below its end. -/
def below (logs : Int → Log β) (ends : ListedOffsets) (position : Int × Int) : List (Record β) :=
  (ahead logs position).filter fun record => record.offset < offsetAt ends position.1

/-- All that a browse was asked for and can be read. -/
def due (logs : Int → Log β) (offsets : Offsets) (ends : ListedOffsets) : List (Record β) :=
  (consumed offsets ends).flatMap (below logs ends)

/-- **A browse that ends**: handed all that is due, it polls no more. -/
def BrowseEnds (logs : Int → Log β) (offsets : Offsets) (ends : ListedOffsets) (limit : Nat)
    (matching : Option (Record β → Bool)) : Prop :=
  ∀ rounds, Consumes logs (consumed offsets ends) rounds →
    (∀ record ∈ due logs offsets ends, record ∈ handedOut rounds) →
      (query offsets ends limit matching).pollsAgain rounds .start = false

theorem mem_below : record ∈ below logs ends position ↔
    record ∈ ahead logs position ∧ record.offset < offsetAt ends position.1 := by
  simp [below]

theorem distinct_consumed (offsets : Offsets) (ends : ListedOffsets) :
    ((consumed offsets ends).map Prod.fst).Nodup :=
  offsets.distinct.sublist (List.filter_sublist.map _)

/-- A partition is consumed from one offset. -/
theorem consumed_unique {other : Int × Int} (h : position ∈ consumed offsets ends)
    (hother : other ∈ consumed offsets ends) (heq : position.1 = other.1) : position = other :=
  List.inj_on_of_nodup_map (distinct_consumed offsets ends) h hother heq

theorem remaining_consumed (h : position ∈ consumed offsets ends) :
    (query offsets ends limit matching).remaining position.1 = offsetAt ends position.1 :=
  if_pos (List.mem_map.mpr ⟨position, h, rfl⟩)

/-- What is due of one partition. -/
theorem filter_due (h : position ∈ consumed offsets ends) :
    (due logs offsets ends).filter (·.partition = position.1) = below logs ends position :=
  filter_flatMap_key (fun _ _ hrecord => partition_of_ahead (mem_below.mp hrecord).1)
    (distinct_consumed offsets ends) h

theorem nodup_due (logs : Int → Log β) (offsets : Offsets) (ends : ListedOffsets) :
    (due logs offsets ends).Nodup := by
  rw [due, List.nodup_flatMap]
  constructor
  · intro position _
    exact ((pairwise_ahead logs position).filter _).imp fun hless heq => by
      rw [heq] at hless
      omega
  · have hkeys := List.pairwise_map.mp (distinct_consumed offsets ends)
    refine hkeys.imp fun hne => ?_
    intro record hrecord hother
    exact hne ((partition_of_ahead (mem_below.mp hrecord).1).symm.trans
      (partition_of_ahead (mem_below.mp hother).1))

/-- One round that hands it all out, or none where there is nothing. -/
def allAtOnce (records : List (Record β)) : List (Round β) :=
  if records.isEmpty then [] else [⟨false, false, records⟩]

theorem handedOut_allAtOnce (records : List (Record β)) :
    handedOut (allAtOnce records) = records := by
  cases records with
  | nil => rfl
  | cons record rest => exact List.append_nil _

theorem consumes_allAtOnce :
    Consumes logs (consumed offsets ends) (allAtOnce (due logs offsets ends)) := by
  rw [Consumes, handedOut_allAtOnce]
  constructor
  · intro position hposition
    rw [filter_due hposition]
    exact filter_prefix _ (pairwise_ahead logs position)
  · intro record hrecord
    obtain ⟨position, hposition, hbelow⟩ := List.mem_flatMap.mp hrecord
    exact List.mem_map.mpr ⟨position, hposition,
      (partition_of_ahead (mem_below.mp hbelow).1).symm⟩

/-- A partition is done, of what is due, where its last offset can be read. -/
theorem done_due (hposition : position ∈ consumed offsets ends)
    (h : position.1 ∈ ((due logs offsets ends).foldl (query offsets ends limit matching).eachRecord
      .start).done) : ∃ record ∈ ahead logs position,
        record.offset + 1 = offsetAt ends position.1 := by
  rcases (mem_foldl_done _ _).mp h with hnone | ⟨record, hrecord, hown, hlast⟩
  · cases hnone
  · obtain ⟨other, hother, hbelow⟩ := List.mem_flatMap.mp hrecord
    obtain ⟨hahead, hless⟩ := mem_below.mp hbelow
    have hsame : other = position :=
      consumed_unique hother hposition ((partition_of_ahead hahead).symm.trans hown)
    rw [remaining_consumed hposition] at hlast
    rw [hsame] at hahead hless
    exact ⟨record, hahead, by omega⟩

/-- What stops a browse that was handed all at once. -/
theorem not_goesOn_of_ends {q : Query β} {records : List (Record β)}
    (h : q.pollsAgain (allAtOnce records) .start = false) : q.goesOn .start = false ∨
      q.exhausted (records.foldl q.eachRecord .start) = true ∨
        q.goesOn (records.foldl q.eachRecord .start) = false := by
  cases records with
  | nil => exact .inl h
  | cons record rest =>
    rw [allAtOnce, List.isEmpty_cons, if_neg Bool.false_ne_true, Query.pollsAgain] at h
    split at h
    · rename_i hstart
      exact .inl (by simpa using hstart)
    · rw [if_neg Bool.false_ne_true, if_neg Bool.false_ne_true, if_neg (List.cons_ne_nil _ _)] at h
      dsimp only at h
      split at h
      · rename_i hexhausted
        exact .inr (.inl hexhausted)
      · exact .inr (.inr h)

/-- Where as many are done as there are partitions, each of them is. -/
theorem mem_done_of_length (h : (consumed offsets ends).length ≤ ((due logs offsets ends).foldl
      (query offsets ends limit matching).eachRecord .start).done.length)
    (hposition : position ∈ consumed offsets ends) : position.1 ∈ ((due logs offsets ends).foldl
      (query offsets ends limit matching).eachRecord .start).done := by
  have hnodup : ((due logs offsets ends).foldl (query offsets ends limit matching).eachRecord
      .start).done.Nodup := nodup_foldl_done List.nodup_nil _
  have hkeys : ((due logs offsets ends).foldl (query offsets ends limit matching).eachRecord
      .start).done ⊆ (consumed offsets ends).map Prod.fst := by
    intro partition hpartition
    rcases (mem_foldl_done _ _).mp hpartition with hnone | ⟨record, hrecord, hown, _⟩
    · cases hnone
    · obtain ⟨other, hother, hbelow⟩ := List.mem_flatMap.mp hrecord
      exact List.mem_map.mpr ⟨other, hother,
        (partition_of_ahead (mem_below.mp hbelow).1).symm.trans hown⟩
  have hperm := (List.subperm_of_subset hnodup hkeys).perm_of_length_le (by
    rw [List.length_map]
    exact h)
  exact hperm.symm.subset (List.mem_map.mpr ⟨position, hposition, rfl⟩)

/-- **A browse that is handed what is due ends** exactly where that is enough for the limit, or for
    the scan, or the last offset of each partition can be read. -/
theorem browse_ends_iff : BrowseEnds logs offsets ends limit matching ↔
    limit ≤ (due logs offsets ends).countP (query offsets ends limit matching).wants ∨
      (matching.isSome = true ∧ scanLimit ≤ (due logs offsets ends).length) ∨
        ∀ position ∈ consumed offsets ends, ∃ record ∈ ahead logs position,
          record.offset + 1 = offsetAt ends position.1 := by
  constructor
  · intro h
    have hends := h _ consumes_allAtOnce fun record hrecord => by
      rwa [handedOut_allAtOnce]
    rcases not_goesOn_of_ends hends with hstart | hexhausted | hnext
    · rw [Query.goesOn, Bool.and_eq_false_iff, decide_eq_false_iff_not,
        decide_eq_false_iff_not] at hstart
      rcases hstart with hlimit | hnone
      · have hzero : limit ≤ 0 := Nat.le_of_not_lt hlimit
        exact .inl (by omega)
      · have hzero : (consumed offsets ends).length ≤ 0 := Nat.le_of_not_lt hnone
        rw [List.length_eq_zero_iff.mp (Nat.le_zero.mp hzero)]
        exact .inr (.inr fun position hposition => absurd hposition List.not_mem_nil)
    · rw [Query.exhausted, Bool.and_eq_true, decide_eq_true_eq, foldl_scanned] at hexhausted
      exact .inr (.inl ⟨hexhausted.1, by simpa [Reading.start] using hexhausted.2⟩)
    · rw [Query.goesOn, Bool.and_eq_false_iff, decide_eq_false_iff_not,
        decide_eq_false_iff_not] at hnext
      rcases hnext with hlimit | hdone
      · refine .inl ?_
        rw [foldl_records (Nat.zero_le _), List.length_take, Reading.start, List.nil_append,
          ← List.countP_eq_length_filter] at hlimit
        have hsame : (query (β := β) offsets ends limit matching).limit = limit := rfl
        omega
      · exact .inr (.inr fun position hposition =>
          done_due hposition (mem_done_of_length (Nat.le_of_not_lt hdone) hposition))
  · intro h rounds hconsumes hall
    rw [Bool.eq_false_iff]
    intro hpolls
    obtain ⟨hgoes, hexhausted⟩ := goesOn_of_pollsAgain hpolls
    have hsub : (due logs offsets ends).Subperm (handedOut rounds) :=
      List.subperm_of_subset (nodup_due logs offsets ends) hall
    rw [Query.goesOn, Bool.and_eq_true, decide_eq_true_eq, decide_eq_true_eq] at hgoes
    obtain ⟨hlimit, hdone⟩ := hgoes
    rcases h with henough | ⟨hsearch, hscan⟩ | hlast
    · -- What is due and wanted is among what was handed out and is wanted.
      have hcount := hsub.countP_le (query offsets ends limit matching).wants
      rw [foldl_records (Nat.zero_le _), List.length_take, Reading.start, List.nil_append,
        ← List.countP_eq_length_filter] at hlimit
      have hsame : (query (β := β) offsets ends limit matching).limit = limit := rfl
      omega
    · have hlength := hsub.length_le
      have hsome : rounds ≠ [] := by
        intro hnone
        rw [hnone] at hlength
        have hzero : (due logs offsets ends).length ≤ 0 := hlength
        rw [scanLimit] at hscan
        omega
      have hmore := hexhausted hsome
      rw [Query.exhausted, Bool.and_eq_false_iff, decide_eq_false_iff_not, foldl_scanned] at hmore
      rcases hmore with hno | hfew
      · rw [show (query offsets ends limit matching).matching = matching from rfl, hsearch] at hno
        cases hno
      · have hzero : (Reading.start : Reading β).scanned = 0 := rfl
        omega
    · -- Every partition is done.
      have hkeys : (consumed offsets ends).map Prod.fst ⊆
          ((handedOut rounds).foldl (query offsets ends limit matching).eachRecord .start).done := by
        intro partition hpartition
        obtain ⟨position, hposition, rfl⟩ := List.mem_map.mp hpartition
        obtain ⟨record, hahead, hend⟩ := hlast position hposition
        have hdue : record ∈ due logs offsets ends :=
          List.mem_flatMap.mpr ⟨position, hposition, mem_below.mpr ⟨hahead, by omega⟩⟩
        refine (mem_foldl_done _ _).mpr (.inr ⟨record, hall record hdue,
          partition_of_ahead hahead, ?_⟩)
        rw [remaining_consumed hposition]
        omega
      have hlength := (List.subperm_of_subset (distinct_consumed offsets ends) hkeys).length_le
      rw [List.length_map] at hlength
      exact absurd hdone (Nat.not_lt.mpr hlength)

/-- A log of one record and the marker of its transaction. -/
def transactional (partition : Int) : Log String :=
  ⟨0, if partition = 0 then [.record "a", .marker] else []⟩

/-- Handed the record, the browse polls on for the marker. -/
theorem marker_polled_for :
    ¬ BrowseEnds transactional (.one 0 0) [(0, some 2)] 10 none := by
  intro h
  have hends := h [⟨false, false, [⟨0, 0, "a"⟩]⟩] (by decide +kernel) (by decide +kernel)
  revert hends
  decide +kernel

end Ends

end MqStudio.Driver.Kafka.Browse
