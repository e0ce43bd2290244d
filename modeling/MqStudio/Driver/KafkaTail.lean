import Mathlib.Algebra.GroupWithZero.Nat
import Mathlib.Data.List.Sort
import MqStudio.Lib.LogReader
import MqStudio.Lib.Machine
import MqStudio.Model.Tail

/-!
# The Kafka Tail

`TailMessages` of `internal/driver/kafka/record_tail.go` and `readRecords` of `record_read.go`. A poll
lists where the partitions start, lists where they end, and reads forward from its positions, while
records arrive and age out. A listing may lack a partition or answer an error for it.

The consumer of `readRecords` is outside the repository. It hands out, of each partition it was given,
the committed records from the offset on, in order and without a gap: it resets to no other offset,
and an offset it cannot read from is an error.

## Main results

- `kafkaTail_missesNothing`: a run misses nothing, and repeats nothing, in which every end listing
  answers for the partitions of the cursor, and timestamps do not go back within a partition.
- `unlisted_partition_skipped`: a partition whose end is once unreadable loses what came meanwhile.
-/

namespace MqStudio.Driver.Kafka

open MqStudio.Lib
open MqStudio.Lib.Machine
open MqStudio.Model

variable {β : Type}

/-- A record: when it is stored, whether its transaction commits, and what it says. -/
structure Entry (β : Type) where
  storeTimestamp : Int
  committed : Bool
  value : β
  deriving DecidableEq

/-- A record as it is handed out, with its partition; its offset is one below its number. -/
abbrev Record (β : Type) := Tagged Int (Entry β)

/-- The partition of a position. -/
def partitionOf (p : QueuePosition) : Int := p.queueID

/-! ## Positions -/

/-- `kadm.ListedOffsets`, of the topic: an offset or an error for each partition it lists. -/
abbrev ListedOffsets := List (Int × Option Int)

/-- `offsetAt` -/
def offsetAt (offsets : ListedOffsets) (partition : Int) : Int :=
  ((offsets.lookup partition).join).getD (-1)

/-- Where a partition is read from, and how much aged out before it. -/
structure Position where
  partition : Int
  offset : Int
  dropped : Nat
  deriving DecidableEq

/-- The body of the loop of `tailPositions`. -/
def tailPosition (cursor : TailCursor) (starts ends : ListedOffsets) (partition : Int) :
    Option Position :=
  let start := offsetAt starts partition
  let last := offsetAt ends partition
  if last < 0 then none
  else
    match cursor.known partitionOf partition with
    | none => some ⟨partition, last, 0⟩
    | some place =>
      if 0 ≤ start ∧ place < start then some ⟨partition, start, (start - place).toNat⟩
      else some ⟨partition, place, 0⟩

/-- `tailPositions` -/
def tailPositions (cursor : TailCursor) (starts ends : ListedOffsets) : List Position :=
  ends.filterMap fun listed => tailPosition cursor starts ends listed.1

/-- `cursorFrom` -/
def cursorFrom (positions : List (Int × Int)) : TailCursor :=
  ⟨(positions.map fun p => ⟨"", p.1, p.2⟩).insertionSort fun a b => a.queueID ≤ b.queueID⟩

/-! ## Reading -/

/-- What one `PollRecords` gives: the deadline passed, an error, or records. -/
structure Round (β : Type) where
  deadline : Bool
  failed : Bool
  records : List (Record β)
  deriving DecidableEq

/-- The records taken so far, and the partitions read to where they ended. -/
structure Reading (β : Type) where
  records : List (Record β)
  done : List Int
  deriving DecidableEq

/-- The body of `EachRecord`. -/
def eachRecord (remaining : Int → Int) (limit : Nat) (reading : Reading β) (record : Record β) :
    Reading β where
  records :=
    if limit ≤ reading.records.length then reading.records else reading.records ++ [record]
  done :=
    if remaining record.key ≤ record.message.seq then reading.done.insert record.key
    else reading.done

/-- The loop of `readRecords`; where there is no further round the deadline passes. -/
def readLoop (remaining : Int → Int) (partitions limit : Nat) :
    List (Round β) → Reading β → Option (List (Record β))
  | [], reading => some reading.records
  | round :: rest, reading =>
    if limit ≤ reading.records.length ∨ partitions ≤ reading.done.length then some reading.records
    else if round.deadline then some reading.records
    else if round.failed then none
    else if round.records = [] then some reading.records
    else
      readLoop remaining partitions limit rest
        (round.records.foldl (eachRecord remaining limit) reading)

/-- The partitions that have something to give. -/
def consumed (positions : List Position) (ends : ListedOffsets) : List Position :=
  positions.filter fun p => ¬ (offsetAt ends p.partition < 0 ∨ offsetAt ends p.partition ≤ p.offset)

/-- `readRecords`, with what the consumer gives; `none` is an error. -/
def readRecords (positions : List Position) (ends : ListedOffsets) (limit : Nat)
    (rounds : List (Round β)) : Option (List (Record β)) :=
  let partitions := consumed positions ends
  if partitions = [] then some []
  else
    let remaining := fun partition =>
      if partition ∈ partitions.map Position.partition then offsetAt ends partition else 0
    readLoop remaining partitions.length limit rounds ⟨[], []⟩

/-- The order of a batch: by timestamp, then by offset. -/
def before (left right : Record β) : Prop :=
  left.message.content.storeTimestamp < right.message.content.storeTimestamp ∨
    left.message.content.storeTimestamp = right.message.content.storeTimestamp ∧
      left.message.seq ≤ right.message.seq

instance : DecidableRel (before : Record β → Record β → Prop) := fun left right =>
  inferInstanceAs (Decidable (left.message.content.storeTimestamp <
      right.message.content.storeTimestamp ∨
    left.message.content.storeTimestamp = right.message.content.storeTimestamp ∧
      left.message.seq ≤ right.message.seq))

/-- A message of a batch: its place there, and the record. -/
structure MessageItem (β : Type) where
  id : Nat
  record : Record β
  deriving DecidableEq

/-- Where the next poll starts in a partition: past what was read of it. -/
def advance (partition : Int) (offset : Int) (records : List (Record β)) : Int :=
  records.foldl (fun next record =>
    if record.key = partition ∧ next < record.message.seq then record.message.seq else next) offset

/-- `TailMessages` from `readRecords` on. -/
def finishTail (positions : List Position) (records : List (Record β)) :
    TailBatch (MessageItem β) :=
  let sorted := records.insertionSort before
  { messages := sorted.zipIdx.map fun p => ⟨p.2 + 1, p.1⟩
    cursor := cursorFrom (positions.map fun p => (p.partition, advance p.partition p.offset sorted))
    dropped := (positions.map Position.dropped).sum }

/-! ## Partitions and their tail -/

/-- All that the rounds of a read hand out. -/
def handedOut (rounds : List (Round β)) : List (Record β) := rounds.flatMap Round.records

/-- **What a consumer hands out**: of each partition it was given, what is committed from the offset
    on. -/
def Consumes (log : Int → BoundedLog (Entry β)) (positions : List Position)
    (rounds : List (Round β)) : Prop :=
  (∀ p ∈ positions, ((handedOut rounds).filter (·.key = p.partition)).map Tagged.message <+:
      (log p.partition).ahead Entry.committed p.offset.toNat) ∧
    ∀ record ∈ handedOut rounds, record.key ∈ positions.map Position.partition

instance [DecidableEq β] (log : Int → BoundedLog (Entry β)) (positions : List Position)
    (rounds : List (Round β)) : Decidable (Consumes log positions rounds) :=
  inferInstanceAs (Decidable (_ ∧ _))

/-- How far a poll is. -/
inductive Stage where
  | idle
  | starting (limit : Nat) (starts : ListedOffsets)
  | ending (limit : Nat) (starts ends : ListedOffsets)
  | reading (limit : Nat) (positions : List Position) (ends : ListedOffsets)
  deriving DecidableEq

/-- The partitions' logs, the cursor that is fed back, the poll under way, and what the polls
    returned: where each partition was first recorded, the records, the offsets counted in
    `Dropped`, and its total. -/
structure Tail (β : Type) where
  log : Int → BoundedLog (Entry β)
  cursor : TailCursor
  stage : Stage
  opened : Int → Option Nat
  returned : List (Record β)
  gone : List (Int × Nat)
  dropped : Nat

namespace Tail

/-- The offsets of a partition that a poll counts in `Dropped`. -/
def goneOf (cursor : TailCursor) (p : Position) : List (Int × Nat) :=
  (List.range' ((cursor.place partitionOf p.partition).getD 0 + 1) p.dropped).map (p.partition, ·)

/-- A poll's answer reaches the caller. -/
def answered (t : Tail β) (positions : List Position) (batch : TailBatch (MessageItem β)) :
    Tail β where
  log := t.log
  cursor := batch.cursor
  stage := .idle
  opened partition := (t.opened partition).or (batch.cursor.place partitionOf partition)
  returned := t.returned ++ batch.messages.map MessageItem.record
  gone := t.gone ++ positions.flatMap (goneOf t.cursor)
  dropped := t.dropped + batch.dropped

/-- What the caller has read of every partition. -/
def readers (t : Tail β) : Readers Int (Entry β) :=
  ⟨t.opened, t.cursor.place partitionOf, t.returned, t.gone⟩

end Tail

/-- What happens to the partitions and their tail. -/
inductive Event (β : Type) where
  | append (partition : Int) (entry : Entry β)
  | trim (partition : Int) (place : Nat)
  | poll (limit : Int)
  /-- The start of a partition is listed, or an error for it. -/
  | listStart (partition : Int) (fails : Bool)
  /-- The starts are listed. -/
  | started
  /-- The end of a partition is listed, or an error for it. -/
  | listEnd (partition : Int) (fails : Bool)
  /-- The ends are listed. -/
  | ended
  /-- The consumer has handed out what it had. -/
  | read (rounds : List (Round β))
  /-- The poll fails as a whole. -/
  | fail

/-- A listing with one partition more. -/
def listed (offsets : ListedOffsets) (partition : Int) (fails : Bool) (offset : Nat) :
    ListedOffsets :=
  offsets ++ [(partition, if fails then none else some (offset : Int))]

/-- One event. -/
def step [DecidableEq β] (t : Tail β) : Event β → Option (Tail β)
  | .append partition entry =>
    some { t with log := Function.update t.log partition ((t.log partition).append entry) }
  | .trim partition place =>
    some { t with log := Function.update t.log partition ((t.log partition).trim place) }
  | .poll limit =>
    match t.stage with
    | .idle => some { t with stage := .starting (if limit ≤ 0 then 100 else limit.toNat) [] }
    | _ => none
  | .listStart partition fails =>
    match t.stage with
    | .starting limit starts =>
      if partition ∈ starts.map Prod.fst then none
      else
        let longer := listed starts partition fails (t.log partition).discarded
        some { t with stage := .starting limit longer }
    | _ => none
  | .started =>
    match t.stage with
    | .starting limit starts => some { t with stage := .ending limit starts [] }
    | _ => none
  | .listEnd partition fails =>
    match t.stage with
    | .ending limit starts ends =>
      if partition ∈ ends.map Prod.fst then none
      else
        let longer := listed ends partition fails (t.log partition).arrived.length
        some { t with stage := .ending limit starts longer }
    | _ => none
  | .ended =>
    match t.stage with
    | .ending limit starts ends =>
      let positions := tailPositions t.cursor starts ends
      if positions = [] then some (t.answered [] ⟨[], cursorFrom [], 0⟩)
      else some { t with stage := .reading limit positions ends }
    | _ => none
  | .read rounds =>
    match t.stage with
    | .reading limit positions ends =>
      if Consumes t.log (consumed positions ends) rounds then
        match readRecords positions ends limit rounds with
        | none => some { t with stage := .idle }
        | some records => some (t.answered positions (finishTail positions records))
      else none
    | _ => none
  | .fail => some { t with stage := .idle }

/-- Partitions nobody tails yet. -/
def Untouched (t : Tail β) : Prop :=
  (∀ partition, (t.log partition).discarded ≤ (t.log partition).arrived.length) ∧
    t = ⟨t.log, ⟨[]⟩, .idle, fun _ => none, [], [], 0⟩

/-- Every interleaving of appends, retention and polls. -/
def tails (β : Type) [DecidableEq β] : Machine (Tail β) (Event β) := ⟨Untouched, step⟩

/-- Every end listing answers for the partitions of the cursor, and what is read of a partition is
    in the order of its timestamps. -/
def Steady (t : Tail β) : Event β → Prop
  | .ended =>
    match t.stage with
    | .ending _ _ ends => ∀ p ∈ t.cursor.positions, 0 ≤ offsetAt ends (partitionOf p)
    | _ => True
  | .read rounds => (handedOut rounds).Pairwise fun a b =>
      a.key = b.key → a.message.content.storeTimestamp ≤ b.message.content.storeTimestamp
  | _ => True

/-- **A tail misses nothing and repeats nothing**: all that is committed in a partition from where it
    was first recorded on, and is behind the cursor's place in it, was returned once and in order, or
    counted as gone. -/
structure MissesNothing (t : Tail β) : Prop where
  complete : ∀ partition opened, t.opened partition = some opened →
    ∃ place, t.cursor.place partitionOf partition = some place ∧
      Complete Entry.committed (t.log partition) (t.readers.reader partition opened place)
  inOrder : ∀ partition, ((t.readers.returnedOf partition).map Numbered.seq).Pairwise (· < ·)
  counted : t.dropped = t.gone.length

/-! ## What a read takes -/

section Reads

variable {remaining : Int → Int} {limit : Nat}

/-- One round adds what there is room for. -/
theorem records_eachRecord (records : List (Record β)) :
    ∀ reading : Reading β, (records.foldl (eachRecord remaining limit) reading).records =
      reading.records ++ records.take (limit - reading.records.length) := by
  induction records with
  | nil => simp
  | cons record rest ih =>
    intro reading
    rw [List.foldl_cons, ih]
    by_cases hfull : limit ≤ reading.records.length
    · simp [eachRecord, hfull, Nat.sub_eq_zero_of_le hfull]
    · obtain ⟨room, hroom⟩ : ∃ room, limit - reading.records.length = room + 1 :=
        ⟨limit - reading.records.length - 1, by omega⟩
      have hleft : limit - (reading.records.length + 1) = room := by omega
      simp [eachRecord, hfull, hroom, hleft]

/-- A read that took enough takes nothing more. -/
theorem readLoop_full (partitions : Nat) (rounds : List (Round β)) {reading : Reading β}
    (hfull : limit ≤ reading.records.length) :
    readLoop remaining partitions limit rounds reading = some reading.records := by
  cases rounds with
  | nil => rfl
  | cons round rest => simp [readLoop, hfull]

/-- **A read takes a prefix** of what is handed out. -/
theorem readLoop_prefix (partitions : Nat) (rounds : List (Round β)) :
    ∀ (reading : Reading β) (records : List (Record β)),
      readLoop remaining partitions limit rounds reading = some records →
      records <+: reading.records ++ handedOut rounds := by
  induction rounds with
  | nil =>
    intro reading records hrecords
    obtain rfl := Option.some.inj hrecords
    exact List.prefix_append _ _
  | cons round rest ih =>
    intro reading records hrecords
    simp only [readLoop] at hrecords
    split at hrecords
    · obtain rfl := Option.some.inj hrecords
      exact List.prefix_append _ _
    · split at hrecords
      · obtain rfl := Option.some.inj hrecords
        exact List.prefix_append _ _
      · split at hrecords
        · cases hrecords
        · split at hrecords
          · obtain rfl := Option.some.inj hrecords
            exact List.prefix_append _ _
          · have hinit := ih _ _ hrecords
            rw [records_eachRecord] at hinit
            by_cases hall : round.records.length ≤ limit - reading.records.length
            · rw [List.take_of_length_le hall] at hinit
              simpa [handedOut] using hinit
            · -- there is no room for the last of them, nor for what follows
              rw [readLoop_full] at hrecords
              · obtain rfl := Option.some.inj hrecords
                rw [records_eachRecord]
                apply List.prefix_append_right_inj _ |>.mpr
                exact (List.take_prefix _ _).trans (List.prefix_append _ _)
              · rw [records_eachRecord, List.length_append, List.length_take]
                omega

theorem readRecords_prefix {positions : List Position} {ends : ListedOffsets}
    {rounds : List (Round β)} {records : List (Record β)}
    (h : readRecords positions ends limit rounds = some records) :
    records <+: handedOut rounds := by
  simp only [readRecords] at h
  split at h
  · obtain rfl := Option.some.inj h
    exact List.nil_prefix
  · exact readLoop_prefix _ rounds _ records h

end Reads

/-! ## A batch, partition by partition -/

section Batches

variable {log : Int → BoundedLog (Entry β)} {positions : List Position}
  {records : List (Record β)}

instance : IsTrans (Record β) before where
  trans a b c hab hbc := by
    simp only [before] at *
    omega

instance : Std.Total (before : Record β → Record β → Prop) where
  total a b := by
    simp only [before]
    omega

/-- **Of each partition a batch lists what was read**, in the order it was read in, where timestamps do
    not go back. -/
theorem filter_sorted {partition : Int} {l : BoundedLog (Entry β)} {place : Nat}
    (hread : (records.filter (·.key = partition)).map Tagged.message <+:
      l.ahead Entry.committed place)
    (hstamps : records.Pairwise fun a b =>
      a.key = b.key → a.message.content.storeTimestamp ≤ b.message.content.storeTimestamp) :
    (records.insertionSort before).filter (·.key = partition) =
      records.filter (·.key = partition) := by
  have hperm : ((records.insertionSort before).filter (·.key = partition)).Perm
      (records.filter (·.key = partition)) := (List.perm_insertionSort _ _).filter _
  have hnumbers : (records.filter (·.key = partition)).Pairwise fun a b =>
      a.message.seq < b.message.seq := by
    have hsorted := pairwise_ahead.sublist (hread.sublist.map Numbered.seq)
    rw [List.map_map] at hsorted
    exact List.pairwise_map.mp hsorted
  -- two records of one partition and one offset are the same
  have hsame : ∀ a b, a ∈ (records.insertionSort before).filter (·.key = partition) →
      b ∈ records.filter (·.key = partition) → before a b → before b a → a = b := by
    intro a b ha hb hab hba
    have ha' := hperm.subset ha
    have hseq : a.message.seq = b.message.seq := by
      simp only [before] at hab hba
      omega
    obtain ⟨-, hcontent, -⟩ := mem_ahead.mp (hread.subset (List.mem_map_of_mem ha'))
    obtain ⟨-, hcontent', -⟩ := mem_ahead.mp (hread.subset (List.mem_map_of_mem hb))
    rw [hseq, hcontent'] at hcontent
    have hkeys : a.key = b.key := by
      have hkey := of_decide_eq_true (List.mem_filter.mp ha').2
      have hkey' := of_decide_eq_true (List.mem_filter.mp hb).2
      exact hkey.trans hkey'.symm
    obtain ⟨key, seq, content⟩ := a
    simp only at hseq hcontent hkeys
    rw [hkeys, hseq, Option.some.inj hcontent.symm]
  have hsorted : ((records.insertionSort before).filter (·.key = partition)).Pairwise before :=
    (List.pairwise_insertionSort before records).filter _
  have hordered : (records.filter (·.key = partition)).Pairwise before := by
    have hboth := (hstamps.filter (·.key = partition)).and hnumbers
    refine hboth.imp_of_mem fun ha hb hab => ?_
    have hkey := of_decide_eq_true (List.mem_filter.mp ha).2
    have hkey' := of_decide_eq_true (List.mem_filter.mp hb).2
    have hstamp := hab.1 (hkey.trans hkey'.symm)
    have hseq := hab.2
    simp only [before]
    omega
  exact List.Perm.eq_of_pairwise hsame hsorted hordered hperm

/-- The next place in a partition is the last that was read of it. -/
theorem advance_eq (partition : Int) (records : List (Record β)) :
    ∀ place : Nat, ((records.filter (·.key = partition)).map Tagged.message).Pairwise
        (fun a b => a.seq < b.seq) →
      (∀ m ∈ (records.filter (·.key = partition)).map Tagged.message, place < m.seq) →
      advance partition place records =
        ((((records.filter (·.key = partition)).map Tagged.message).getLast?.map
          Numbered.seq).getD place : Nat) := by
  induction records with
  | nil => exact fun place _ _ => rfl
  | cons record rest ih =>
    intro place hsorted hafter
    rw [advance, List.foldl_cons]
    by_cases hkey : record.key = partition
    · have hfilter : ((record :: rest).filter (·.key = partition)).map Tagged.message =
          record.message :: (rest.filter (·.key = partition)).map Tagged.message := by
        simp [hkey]
      rw [hfilter] at hsorted hafter ⊢
      have hfirst : place < record.message.seq := hafter _ List.mem_cons_self
      have hnext : (if record.key = partition ∧ (place : Int) < record.message.seq then
          (record.message.seq : Int) else place) = (record.message.seq : Nat) := by
        rw [if_pos ⟨hkey, by omega⟩]
      obtain ⟨hbefore, hrest⟩ := List.pairwise_cons.mp hsorted
      have hstep := ih record.message.seq hrest hbefore
      rw [advance] at hstep
      rw [hnext, hstep]
      cases hlast : ((rest.filter (·.key = partition)).map Tagged.message).getLast? with
      | none =>
        have hnone := List.getLast?_eq_none_iff.mp hlast
        simp [hnone]
      | some last => simp [List.getLast?_cons, hlast]
    · have hfilter : ((record :: rest).filter (·.key = partition)) =
          rest.filter (·.key = partition) := by simp [hkey]
      rw [hfilter] at hsorted hafter ⊢
      rw [if_neg (fun hboth => hkey hboth.1)]
      exact ih place hsorted hafter

end Batches

/-! ## Nothing is missed -/

/-- What holds of the partitions, the cursor and what was returned, whatever poll is under way. -/
structure Settled (t : Tail β) : Prop where
  stored : ∀ partition, (t.log partition).discarded ≤ (t.log partition).arrived.length
  proper : TailCursor.Proper partitionOf t.cursor.positions
  complete : Readers.Complete Entry.committed t.log t.readers
  inOrder : ∀ partition, ((t.readers.returnedOf partition).map Numbered.seq).Pairwise (· < ·)
  counted : t.dropped = t.gone.length

/-- A listing answers for a partition once, and not beyond a bound. -/
structure Listed (bound : Int → Nat) (offsets : ListedOffsets) : Prop where
  nodup : (offsets.map Prod.fst).Nodup
  within : ∀ partition offset, (partition, some offset) ∈ offsets →
    ∃ n : Nat, offset = n ∧ n ≤ bound partition

/-- An offset that is answered is listed. -/
theorem mem_of_offsetAt {offsets : ListedOffsets} {partition : Int}
    (hanswered : 0 ≤ offsetAt offsets partition) :
    (partition, some (offsetAt offsets partition)) ∈ offsets := by
  cases hfound : (offsets.lookup partition).join with
  | none =>
    simp only [offsetAt, hfound] at hanswered
    cases hanswered
  | some offset =>
    have hoffset : offsetAt offsets partition = offset := by simp [offsetAt, hfound]
    obtain ⟨earlier, later, hsplit, -⟩ :=
      List.lookup_eq_some_iff.mp (Option.join_eq_some_iff.mp hfound)
    rw [hoffset, hsplit]
    exact List.mem_append_right _ List.mem_cons_self

/-- Where a poll reads a partition from: its end where it is opened, or the cursor's place, past what
    aged out. -/
inductive ReadFrom (log : BoundedLog (Entry β)) (last : Int) : Option Nat → Position → Prop where
  | opens {n : Nat} {p : Position} (hend : n ≤ log.arrived.length) (hlast : last = n)
      (hoffset : p.offset = n) (hdropped : p.dropped = 0) : ReadFrom log last none p
  | goesOn {place : Nat} {p : Position} (hoffset : p.offset = (place + p.dropped : Nat))
      (hgone : place + p.dropped ≤ max place log.discarded) : ReadFrom log last (some place) p

theorem ReadFrom.offset_nat {log : BoundedLog (Entry β)} {last : Int} {place : Option Nat}
    {p : Position} (h : ReadFrom log last place p) : ∃ n : Nat, p.offset = n := by
  cases h with
  | opens hend hlast hoffset hdropped => exact ⟨_, hoffset⟩
  | goesOn hoffset hgone => exact ⟨_, hoffset⟩

/-- The positions of a poll go on from the cursor. -/
structure Placed (log : Int → BoundedLog (Entry β)) (cursor : TailCursor) (ends : ListedOffsets)
    (positions : List Position) : Prop where
  nodup : (positions.map Position.partition).Nodup
  covers : ∀ partition offset, cursor.known partitionOf partition = some offset →
    partition ∈ positions.map Position.partition
  each : ∀ p ∈ positions, ReadFrom (log p.partition) (offsetAt ends p.partition)
    (cursor.place partitionOf p.partition) p

/-- What was read of each partition is what comes next in it. -/
structure Taken (log : Int → BoundedLog (Entry β)) (ends : ListedOffsets)
    (positions : List Position) (records : List (Record β)) : Prop where
  read : ∀ p ∈ positions, (records.filter (·.key = p.partition)).map Tagged.message <+:
    (log p.partition).ahead Entry.committed p.offset.toNat
  ended : ∀ p ∈ positions, offsetAt ends p.partition ≤ p.offset →
    records.filter (·.key = p.partition) = []
  others : ∀ partition, partition ∉ positions.map Position.partition →
    records.filter (·.key = partition) = []
  stamps : records.Pairwise fun a b =>
    a.key = b.key → a.message.content.storeTimestamp ≤ b.message.content.storeTimestamp

theorem tailPosition_partition {cursor : TailCursor} {starts ends : ListedOffsets}
    {partition : Int} {p : Position} (h : tailPosition cursor starts ends partition = some p) :
    p.partition = partition := by
  simp only [tailPosition] at h
  split at h
  · cases h
  · split at h
    · rw [← Option.some.inj h]
    · split at h <;> rw [← Option.some.inj h]

/-- The positions of a poll are of partitions that are listed, in their order. -/
theorem partitions_sublist (cursor : TailCursor) (starts ends all : ListedOffsets) :
    ((all.filterMap fun listed => tailPosition cursor starts ends listed.1).map
      Position.partition).Sublist (all.map Prod.fst) := by
  induction all with
  | nil => exact List.Sublist.refl _
  | cons listed rest ih =>
    rw [List.filterMap_cons]
    cases hposition : tailPosition cursor starts ends listed.1 with
    | none => exact ih.cons _
    | some p =>
      rw [List.map_cons, List.map_cons, tailPosition_partition hposition]
      exact ih.cons_cons _

/-- **The positions of a poll** go on from the cursor where the ends of its partitions are listed. -/
theorem placed_tailPositions {t : Tail β} (h : Settled t) {starts ends : ListedOffsets}
    (hstarts : Listed (fun partition => (t.log partition).discarded) starts)
    (hends : Listed (fun partition => (t.log partition).arrived.length) ends)
    (hlisted : ∀ p ∈ t.cursor.positions, 0 ≤ offsetAt ends (partitionOf p)) :
    Placed t.log t.cursor ends (tailPositions t.cursor starts ends) := by
  constructor
  case nodup =>
    exact List.Nodup.sublist (partitions_sublist t.cursor starts ends ends) hends.nodup
  case covers =>
    intro partition offset hknown
    obtain ⟨listed, hmem, rfl, -⟩ := h.proper.known_eq_some.mp hknown
    have hend := hlisted listed hmem
    cases hposition : tailPosition t.cursor starts ends (partitionOf listed) with
    | none =>
      simp only [tailPosition, Int.not_lt.mpr hend, if_false, hknown] at hposition
      split at hposition <;> cases hposition
    | some p =>
      rw [← tailPosition_partition hposition]
      apply List.mem_map_of_mem
      exact List.mem_filterMap.mpr ⟨_, mem_of_offsetAt hend, hposition⟩
  case each =>
    intro p hp
    obtain ⟨listed, -, hposition⟩ := List.mem_filterMap.mp hp
    rw [← tailPosition_partition hposition] at hposition
    simp only [tailPosition] at hposition
    split at hposition
    · cases hposition
    next hanswered =>
      obtain ⟨last, hlast, hwithin⟩ :=
        hends.within _ _ (mem_of_offsetAt (Int.not_lt.mp hanswered))
      split at hposition
      next hunknown =>
        rw [TailCursor.place, hunknown]
        have hp := Option.some.inj hposition
        exact .opens hwithin hlast (by rw [← hp]; exact hlast) (by rw [← hp])
      next offset hknown =>
        obtain ⟨place, rfl, hplace⟩ := h.proper.place_eq_some hknown
        rw [hplace]
        split at hposition
        next haged =>
          obtain ⟨start, hstart, hgone⟩ := hstarts.within _ _ (mem_of_offsetAt haged.1)
          have hp := Option.some.inj hposition
          have hoffset : p.offset = start := by rw [← hp]; exact hstart
          have hdropped : p.dropped = start - place := by
            rw [← hp]
            dsimp only
            omega
          have haway : start ≤ (t.log p.partition).discarded := hgone
          exact .goesOn (by omega) (by omega)
        next =>
          have hp := Option.some.inj hposition
          have hoffset : p.offset = place := by rw [← hp]
          have hdropped : p.dropped = 0 := by rw [← hp]
          exact .goesOn (by omega) (by omega)

/-- **What is read of the positions** is what comes next in each partition. -/
theorem taken_readRecords {t : Tail β} {ends : ListedOffsets} {positions : List Position}
    (hplaced : Placed t.log t.cursor ends positions) {limit : Nat} {rounds : List (Round β)}
    (hconsumes : Consumes t.log (consumed positions ends) rounds)
    (hstamps : (handedOut rounds).Pairwise fun a b =>
      a.key = b.key → a.message.content.storeTimestamp ≤ b.message.content.storeTimestamp)
    {records : List (Record β)} (hrecords : readRecords positions ends limit rounds = some records) :
    Taken t.log ends positions records := by
  have hinit := readRecords_prefix hrecords
  have hkeys : ∀ record ∈ records, record.key ∈ (consumed positions ends).map Position.partition :=
    fun record hrecord => hconsumes.2 record (hinit.subset hrecord)
  have hfound : ∀ p ∈ positions, p ∉ consumed positions ends →
      records.filter (·.key = p.partition) = [] := by
    intro p hp hnot
    apply List.filter_eq_nil_iff.mpr
    intro record hrecord hkey
    obtain ⟨other, hother, hsame⟩ := List.mem_map.mp (hkeys record hrecord)
    have hpartition : other.partition = p.partition := hsame.trans (of_decide_eq_true hkey)
    have heq := List.inj_on_of_nodup_map hplaced.nodup (List.mem_filter.mp hother).1 hp hpartition
    exact hnot (heq ▸ hother)
  constructor
  case read =>
    intro p hp
    by_cases hin : p ∈ consumed positions ends
    · exact ((hinit.filter _).map _).trans (hconsumes.1 p hin)
    · rw [hfound p hp hin]
      exact List.nil_prefix
  case ended =>
    intro p hp hend
    apply hfound p hp
    intro hin
    have hbehind := of_decide_eq_true (List.mem_filter.mp hin).2
    exact hbehind (.inr hend)
  case others =>
    intro partition hnot
    apply List.filter_eq_nil_iff.mpr
    intro record hrecord hkey
    obtain ⟨other, hother, hsame⟩ := List.mem_map.mp (hkeys record hrecord)
    apply hnot
    rw [← of_decide_eq_true hkey, ← hsame]
    exact List.mem_map_of_mem (List.mem_filter.mp hother).1
  case stamps => exact hstamps.sublist hinit.sublist

section Settling

variable {t : Tail β} {ends : ListedOffsets} {positions : List Position} {records : List (Record β)}

/-- The messages of a batch are its records, sorted. -/
theorem messages_finishTail (positions : List Position) (records : List (Record β)) :
    (finishTail positions records).messages.map MessageItem.record =
      records.insertionSort before := by
  simp only [finishTail, List.map_map, Function.comp_def, List.zipIdx_map_fst]

/-- What was read of a partition, in order. -/
def readOf (records : List (Record β)) (partition : Int) : List (Numbered (Entry β)) :=
  (records.filter (·.key = partition)).map Tagged.message

/-- A batch lists what was read of each partition in order. -/
theorem readOf_sorted (htaken : Taken t.log ends positions records) (partition : Int) :
    readOf (records.insertionSort before) partition = readOf records partition := by
  by_cases hin : partition ∈ positions.map Position.partition
  · obtain ⟨p, hp, rfl⟩ := List.mem_map.mp hin
    rw [readOf, filter_sorted (htaken.read p hp) htaken.stamps, readOf]
  · have hnone := htaken.others partition hin
    have hperm := (List.perm_insertionSort before records).filter (·.key = partition)
    rw [hnone] at hperm
    rw [readOf, hperm.eq_nil, readOf, hnone]

/-- The place a poll leaves a partition at. -/
theorem advance_position (htaken : Taken t.log ends positions records) {p : Position}
    (hp : p ∈ positions) {n : Nat} (hoffset : p.offset = n) :
    advance p.partition p.offset (records.insertionSort before) =
      (((readOf records p.partition).getLast?.map Numbered.seq).getD n : Nat) := by
  have hsame := readOf_sorted htaken p.partition
  have hread := htaken.read p hp
  rw [hoffset, Int.toNat_natCast] at hread
  have hsorted : (readOf records p.partition).Pairwise fun a b => a.seq < b.seq :=
    List.pairwise_map.mp (pairwise_ahead.sublist (hread.sublist.map Numbered.seq))
  have hafter : ∀ m ∈ readOf records p.partition, n < m.seq :=
    fun m hm => (mem_ahead.mp (hread.subset hm)).1
  rw [← hsame] at hsorted hafter ⊢
  rw [hoffset]
  exact advance_eq p.partition _ n hsorted hafter

/-- The places a poll leaves. -/
theorem known_finishTail (hplaced : Placed t.log t.cursor ends positions)
    (htaken : Taken t.log ends positions records) :
    TailCursor.Proper partitionOf (finishTail positions records).cursor.positions ∧
      ∀ partition offset, (finishTail positions records).cursor.known partitionOf partition =
        some offset ↔ ∃ p ∈ positions, p.partition = partition ∧
          advance p.partition p.offset (records.insertionSort before) = offset := by
  have hperm : (finishTail positions records).cursor.positions.Perm
      (positions.map fun p => (⟨"", p.partition,
        advance p.partition p.offset (records.insertionSort before)⟩ : QueuePosition)) := by
    simp only [finishTail, cursorFrom, List.map_map]
    exact List.perm_insertionSort _ _
  have hproper : TailCursor.Proper partitionOf
      (positions.map fun p => (⟨"", p.partition,
        advance p.partition p.offset (records.insertionSort before)⟩ : QueuePosition)) := by
    constructor
    · rw [List.map_map]
      exact hplaced.nodup
    · intro q hq
      obtain ⟨p, hp, rfl⟩ := List.mem_map.mp hq
      obtain ⟨n, hn⟩ := (hplaced.each p hp).offset_nat
      rw [advance_position htaken hp hn]
      exact Int.natCast_nonneg _
  refine ⟨hproper.perm hperm, fun partition offset => ?_⟩
  rw [hproper.known_sorted hperm]
  simp [partitionOf]

theorem key_goneOf (cursor : TailCursor) (p : Position) :
    ∀ gone ∈ Tail.goneOf cursor p, gone.1 = p.partition := by
  intro gone hgone
  obtain ⟨k, -, rfl⟩ := List.mem_map.mp hgone
  rfl

/-- **An answer moves every partition on** from where it is. -/
theorem progress_finishTail (hplaced : Placed t.log t.cursor ends positions)
    (htaken : Taken t.log ends positions records) (partition : Int) :
    Progress Entry.committed (t.log partition) (t.cursor.place partitionOf partition)
      ((finishTail positions records).cursor.place partitionOf partition)
      (readOf ((finishTail positions records).messages.map MessageItem.record) partition)
      (((positions.flatMap (Tail.goneOf t.cursor)).filter (·.1 = partition)).map Prod.snd) := by
  obtain ⟨-, hknown⟩ := known_finishTail hplaced htaken
  rw [messages_finishTail, readOf_sorted htaken]
  by_cases hin : partition ∈ positions.map Position.partition
  · obtain ⟨p, hp, rfl⟩ := List.mem_map.mp hin
    have hgone : ((positions.flatMap (Tail.goneOf t.cursor)).filter
        (·.1 = p.partition)).map Prod.snd =
          List.range' ((t.cursor.place partitionOf p.partition).getD 0 + 1) p.dropped := by
      rw [filter_flatMap_key (key_goneOf t.cursor) hplaced.nodup hp, Tail.goneOf]
      simp [Function.comp_def]
    have hafter : (finishTail positions records).cursor.place partitionOf p.partition =
        some (advance p.partition p.offset (records.insertionSort before)).toNat := by
      rw [TailCursor.place, (hknown _ _).mpr ⟨p, hp, rfl, rfl⟩, Option.map_some]
    have hread := htaken.read p hp
    rw [hgone, hafter]
    have hfrom := hplaced.each p hp
    generalize t.cursor.place partitionOf p.partition = place at hfrom ⊢
    cases hfrom with
    | opens hend hlast hoffset hdropped =>
      have hnothing : readOf records p.partition = [] := by
        rw [readOf, htaken.ended p hp (by omega)]
        rfl
      rw [advance_position htaken hp hoffset, hnothing, hdropped]
      exact .opens hend
    | goesOn hoffset hgone =>
      rw [advance_position htaken hp hoffset, Int.toNat_natCast]
      rw [hoffset, Int.toNat_natCast] at hread
      exact .goesOn hgone hread (List.Perm.refl _)
  · -- the poll knows nothing of it, and neither did the cursor
    have hnone : ∀ p ∈ positions, p.partition ≠ partition := fun p hp hsame =>
      hin (hsame ▸ List.mem_map_of_mem hp)
    have hbefore : t.cursor.place partitionOf partition = none := by
      rw [TailCursor.place, Option.map_eq_none_iff]
      cases hunknown : t.cursor.known partitionOf partition with
      | none => rfl
      | some offset => exact absurd (hplaced.covers partition offset hunknown) hin
    have hafter : (finishTail positions records).cursor.place partitionOf partition = none := by
      rw [TailCursor.place, Option.map_eq_none_iff]
      cases hunknown : (finishTail positions records).cursor.known partitionOf partition with
      | none => rfl
      | some offset =>
        obtain ⟨p, hp, hsame, -⟩ := (hknown partition offset).mp hunknown
        exact absurd hsame (hnone p hp)
    rw [hbefore, hafter, filter_flatMap_none (key_goneOf t.cursor) hnone, readOf,
      htaken.others partition hin]
    exact .absent

/-- **What is returned stays in order**: what is read is past everything returned before. -/
theorem inOrder_answered (h : Settled t) (hplaced : Placed t.log t.cursor ends positions)
    (htaken : Taken t.log ends positions records) (partition : Int) :
    (((t.answered positions (finishTail positions records)).readers.returnedOf partition).map
      Numbered.seq).Pairwise (· < ·) := by
  have hreturned : (t.answered positions (finishTail positions records)).readers.returnedOf
      partition = t.readers.returnedOf partition ++ readOf records partition := by
    rw [← readOf_sorted htaken, ← messages_finishTail positions records]
    simp [Readers.returnedOf, Tail.readers, Tail.answered, readOf]
  rw [hreturned, List.map_append, List.pairwise_append]
  by_cases hin : partition ∈ positions.map Position.partition
  · obtain ⟨p, hp, rfl⟩ := List.mem_map.mp hin
    have hread := htaken.read p hp
    refine ⟨h.inOrder _, pairwise_ahead.sublist (hread.sublist.map Numbered.seq),
      fun j hj k hk => ?_⟩
    obtain ⟨m, hm, rfl⟩ := List.mem_map.mp hj
    obtain ⟨n, hn, rfl⟩ := List.mem_map.mp hk
    have hafter := (mem_ahead.mp (hread.subset hn)).1
    cases hopened : t.opened p.partition with
    | none =>
      rw [(h.complete.unopened p.partition hopened).2.1] at hm
      cases hm
    | some first =>
      obtain ⟨place, hplace, hcomplete⟩ := h.complete.complete p.partition first hopened
      have hbehind := (hcomplete.genuine m hm).2.1
      have hfrom := hplaced.each p hp
      have hsame : t.cursor.place partitionOf p.partition = some place := hplace
      rw [hsame] at hfrom
      cases hfrom with
      | goesOn hoffset hgone =>
        have hposition : m.seq ≤ place := hbehind
        omega
  · have hnothing : readOf records partition = [] := by
      rw [readOf, htaken.others partition hin]
      rfl
    rw [hnothing]
    exact ⟨h.inOrder partition, List.Pairwise.nil, fun _ _ _ hk => absurd hk List.not_mem_nil⟩

/-- **Answer lemma**: a poll that goes on from the cursor leaves nothing missing. -/
theorem Settled.answered (h : Settled t) (hplaced : Placed t.log t.cursor ends positions)
    (htaken : Taken t.log ends positions records) :
    Settled (t.answered positions (finishTail positions records)) := by
  have hprogress := progress_finishTail hplaced htaken
  constructor
  case stored => exact h.stored
  case proper => exact (known_finishTail hplaced htaken).1
  case complete => exact h.complete.answer h.stored hprogress
  case inOrder => exact inOrder_answered h hplaced htaken
  case counted =>
    have hlength : (positions.flatMap (Tail.goneOf t.cursor)).length =
        (positions.map Position.dropped).sum := by
      rw [List.length_flatMap]
      simp [Tail.goneOf]
    simp only [Tail.answered, finishTail, List.length_append, hlength, h.counted]

end Settling

/-- What a poll under way has found goes on from the cursor. -/
def Underway (log : Int → BoundedLog (Entry β)) (cursor : TailCursor) : Stage → Prop
  | .idle => True
  | .starting _ starts => Listed (fun partition => (log partition).discarded) starts
  | .ending _ starts ends => Listed (fun partition => (log partition).discarded) starts ∧
      Listed (fun partition => (log partition).arrived.length) ends
  | .reading _ positions ends => Placed log cursor ends positions

/-- What holds all along. -/
structure Sound (t : Tail β) : Prop where
  settled : Settled t
  underway : Underway t.log t.cursor t.stage

/-! ## One event -/

section Logs

variable {t : Tail β}

theorem Listed.mono {bound bound' : Int → Nat} {offsets : ListedOffsets}
    (h : Listed bound offsets) (hle : ∀ partition, bound partition ≤ bound' partition) :
    Listed bound' offsets := by
  refine ⟨h.nodup, fun partition offset hin => ?_⟩
  obtain ⟨n, hn, hwithin⟩ := h.within partition offset hin
  exact ⟨n, hn, hwithin.trans (hle partition)⟩

theorem ReadFrom.mono {log log' : BoundedLog (Entry β)} {last : Int} {place : Option Nat}
    {p : Position} (h : ReadFrom log last place p)
    (harrived : log.arrived.length ≤ log'.arrived.length)
    (hdiscarded : log.discarded ≤ log'.discarded) : ReadFrom log' last place p := by
  cases h with
  | opens hend hlast hoffset hdropped => exact .opens (hend.trans harrived) hlast hoffset hdropped
  | goesOn hoffset hgone => exact .goesOn hoffset (by omega)

/-- One partition's log moves on, and nothing of what the tail knows is lost. -/
theorem Sound.moves (ht : Sound t) {partition : Int} {log : BoundedLog (Entry β)}
    (hstored : log.discarded ≤ log.arrived.length)
    (harrived : (t.log partition).arrived.length ≤ log.arrived.length)
    (hdiscarded : (t.log partition).discarded ≤ log.discarded)
    (hcomplete : ∀ r, Complete Entry.committed (t.log partition) r →
      Complete Entry.committed log r) :
    Sound { t with log := Function.update t.log partition log } := by
  have harrived' : ∀ other, (t.log other).arrived.length ≤
      (Function.update t.log partition log other).arrived.length := by
    intro other
    rw [Function.update_apply]
    split
    next hsame => exact hsame ▸ harrived
    next => exact le_rfl
  have hdiscarded' : ∀ other, (t.log other).discarded ≤
      (Function.update t.log partition log other).discarded := by
    intro other
    rw [Function.update_apply]
    split
    next hsame => exact hsame ▸ hdiscarded
    next => exact le_rfl
  constructor
  case settled =>
    refine ⟨fun other => ?_, ht.settled.proper, ht.settled.complete.update hcomplete,
      ht.settled.inOrder, ht.settled.counted⟩
    show (Function.update t.log partition log other).discarded ≤
      (Function.update t.log partition log other).arrived.length
    rw [Function.update_apply]
    split
    · exact hstored
    · exact ht.settled.stored other
  case underway =>
    have hunderway := ht.underway
    show Underway (Function.update t.log partition log) t.cursor t.stage
    cases hstage : t.stage with
    | idle => trivial
    | starting limit starts =>
      rw [hstage] at hunderway
      exact hunderway.mono hdiscarded'
    | ending limit starts ends =>
      rw [hstage] at hunderway
      exact ⟨hunderway.1.mono hdiscarded', hunderway.2.mono harrived'⟩
    | reading limit positions ends =>
      rw [hstage] at hunderway
      exact ⟨hunderway.nodup, hunderway.covers, fun p hp =>
        (hunderway.each p hp).mono (harrived' _) (hdiscarded' _)⟩

/-- A listing with one partition more. -/
theorem Listed.listed {bound : Int → Nat} {offsets : ListedOffsets} (h : Listed bound offsets)
    {partition : Int} (hnew : partition ∉ offsets.map Prod.fst) (fails : Bool) :
    Listed bound (Kafka.listed offsets partition fails (bound partition)) := by
  constructor
  · rw [Kafka.listed, List.map_append, List.nodup_append]
    refine ⟨h.nodup, by simp, fun a ha b hb => ?_⟩
    rintro rfl
    rw [List.mem_singleton.mp hb] at ha
    exact hnew ha
  · intro other offset hin
    rcases List.mem_append.mp hin with hold | hlast
    · exact h.within other offset hold
    · obtain ⟨rfl, hoffset⟩ := Prod.mk.inj (List.mem_singleton.mp hlast)
      split at hoffset
      · cases hoffset
      · exact ⟨_, Option.some.inj hoffset, le_rfl⟩

end Logs

section Steps

variable {t u : Tail β}

/-- A stage that goes on from the cursor. -/
theorem Sound.goesOn (h : Sound t) {stage : Stage} (hstage : Underway t.log t.cursor stage) :
    Sound { t with stage := stage } :=
  ⟨⟨h.settled.stored, h.settled.proper, h.settled.complete, h.settled.inOrder,
    h.settled.counted⟩, hstage⟩

/-- A poll that fails leaves what the caller has. -/
theorem Sound.failed (h : Sound t) : Sound { t with stage := .idle } := h.goesOn trivial

variable [DecidableEq β]

theorem Sound.ended (h : Sound t) (hsteady : Steady t .ended) (hstep : step t .ended = some u) :
    Sound u := by
  have hunderway := h.underway
  simp only [step] at hstep
  simp only [Steady] at hsteady
  split at hstep
  next limit starts ends hstage =>
    rw [hstage] at hunderway hsteady
    have hplaced := placed_tailPositions h.settled hunderway.1 hunderway.2 hsteady
    split at hstep
    next hnone =>
      obtain rfl := Option.some.inj hstep
      rw [hnone] at hplaced
      have htaken : Taken t.log ends [] ([] : List (Record β)) :=
        ⟨fun _ hp => absurd hp List.not_mem_nil, fun _ hp => absurd hp List.not_mem_nil,
          fun _ _ => rfl, List.Pairwise.nil⟩
      exact ⟨h.settled.answered hplaced htaken, trivial⟩
    next =>
      obtain rfl := Option.some.inj hstep
      exact h.goesOn hplaced
  next => cases hstep

theorem Sound.read (h : Sound t) {rounds : List (Round β)} (hsteady : Steady t (.read rounds))
    (hstep : step t (.read rounds) = some u) : Sound u := by
  have hunderway := h.underway
  simp only [step] at hstep
  split at hstep
  next limit positions ends hstage =>
    rw [hstage] at hunderway
    split at hstep
    next hconsumes =>
      split at hstep
      · obtain rfl := Option.some.inj hstep
        exact h.failed
      next records hrecords =>
        obtain rfl := Option.some.inj hstep
        have htaken := taken_readRecords hunderway hconsumes hsteady hrecords
        exact ⟨h.settled.answered hunderway htaken, trivial⟩
    next => cases hstep
  next => cases hstep

/-- **Step lemma.** -/
theorem Sound.step (h : Sound t) {event : Event β} (hsteady : Steady t event)
    (hstep : Kafka.step t event = some u) : Sound u := by
  have hunderway := h.underway
  cases event with
  | append partition entry =>
    obtain rfl := Option.some.inj hstep
    have hstored := h.settled.stored partition
    apply h.moves
    · simp only [BoundedLog.append, List.length_append, List.length_singleton]
      omega
    · simp [BoundedLog.append]
    · exact le_rfl
    · exact fun r hr => hr.append entry
  | trim partition place =>
    obtain rfl := Option.some.inj hstep
    have hstored := h.settled.stored partition
    apply h.moves
    · simp only [BoundedLog.trim]
      omega
    · exact le_rfl
    · exact Nat.le_max_left _ _
    · exact fun r hr => hr.trim place
  | poll limit =>
    simp only [Kafka.step] at hstep
    split at hstep
    · obtain rfl := Option.some.inj hstep
      exact h.goesOn ⟨List.nodup_nil, fun _ _ hin => by cases hin⟩
    · cases hstep
  | listStart partition fails =>
    simp only [Kafka.step] at hstep
    split at hstep
    next limit starts hstage =>
      rw [hstage] at hunderway
      split at hstep
      · cases hstep
      next hnew =>
        obtain rfl := Option.some.inj hstep
        exact h.goesOn (hunderway.listed hnew fails)
    next => cases hstep
  | started =>
    simp only [Kafka.step] at hstep
    split at hstep
    next limit starts hstage =>
      rw [hstage] at hunderway
      obtain rfl := Option.some.inj hstep
      exact h.goesOn ⟨hunderway, List.nodup_nil, fun _ _ hin => by cases hin⟩
    next => cases hstep
  | listEnd partition fails =>
    simp only [Kafka.step] at hstep
    split at hstep
    next limit starts ends hstage =>
      rw [hstage] at hunderway
      split at hstep
      · cases hstep
      next hnew =>
        obtain rfl := Option.some.inj hstep
        exact h.goesOn ⟨hunderway.1, hunderway.2.listed hnew fails⟩
    next => cases hstep
  | ended => exact h.ended hsteady hstep
  | read rounds => exact h.read hsteady hstep
  | fail =>
    obtain rfl := Option.some.inj hstep
    exact h.failed

end Steps

theorem Sound.start {t : Tail β} (ht : Untouched t) : Sound t := by
  obtain ⟨hstored, hsame⟩ := ht
  rw [hsame]
  refine ⟨⟨hstored, ⟨List.nodup_nil, fun p hp => ?_⟩, Readers.complete_start _ _,
    fun _ => List.Pairwise.nil, rfl⟩, trivial⟩
  cases hp

instance [DecidableEq β] (t : Tail β) : (event : Event β) → Decidable (Steady t event)
  | .ended =>
    match hstage : t.stage with
    | .ending _ _ ends => decidable_of_iff
        (∀ p ∈ t.cursor.positions, 0 ≤ offsetAt ends (partitionOf p)) (by simp [Steady, hstage])
    | .idle | .starting _ _ | .reading _ _ _ => .isTrue (by simp [Steady, hstage])
  | .read rounds => inferInstanceAs (Decidable ((handedOut rounds).Pairwise fun a b =>
      a.key = b.key → a.message.content.storeTimestamp ≤ b.message.content.storeTimestamp))
  | .append _ _ | .trim _ _ | .poll _ | .listStart _ _ | .started | .listEnd _ _ | .fail =>
    .isTrue trivial

/-- Nothing came to any partition, and nobody tails them. -/
def quiet : Tail String := ⟨fun _ => ⟨[], 0⟩, ⟨[]⟩, .idle, fun _ => none, [], [], 0⟩

end MqStudio.Driver.Kafka
