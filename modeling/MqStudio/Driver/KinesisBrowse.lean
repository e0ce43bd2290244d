import Mathlib.Data.List.Sort
import Mathlib.Data.Prod.Lex
import Mathlib.Data.String.Basic
import MqStudio.Lib.Ranked
import MqStudio.Lib.Traverse
import MqStudio.Lib.Words
import MqStudio.Storage

/-!
# Browsing a Kinesis Stream

`QueryMessages` of `internal/driver/kinesis/message.go`: every shard of a stream is read from its
oldest end for its share of the page, the reads end in any order, and the newest of all that was read
make the page.

The service is outside the repository. A shard's records are a list; `GetRecords` gives any run of it
from where its iterator stands, and may give none.

## Main results

- `queryMessages_page`: a page has no more than were wanted, none twice, the newest first.
- `queryMessages_fair_iff`: every shard that gave something is on the page exactly where the newest of
  each has fewer than the page holds ahead of it.
- `queryMessages_crowdedOut`: a share rounded up for two shards leaves the older one out.
-/

namespace MqStudio.Driver.Kinesis

open MqStudio.Lib
open MqStudio.Lib.Ranked
open MqStudio.Lib.Traverse
open MqStudio.Storage

/-! ## The service -/

/-- `types.Record` -/
structure Record where
  sequenceNumber : String
  partitionKey : String
  arrived : Option Int
  data : String
  deriving DecidableEq

/-- What a shard holds, the oldest first: a sequence number is digits, and no two records of a shard
    have one. -/
structure Log where
  records : List Record
  distinct : (records.map Record.sequenceNumber).Nodup
  plain : ∀ record ∈ records, ':' ∉ record.sequenceNumber.toList

/-- What `GetRecords` answers: how many records from the iterator on, whether there is a next iterator,
    and `MillisBehindLatest`. -/
structure Reply where
  count : Nat
  next : Bool
  millisBehindLatest : Int

/-- The requests of the client. An iterator is the place in the shard where it stands, and a missing
    one is nil or empty; no shard is listed twice. -/
structure Service where
  live : Option String
  listShards : (stream : String) → Except String {shards : List String // shards.Nodup}
  log : (stream shard : String) → Log
  getShardIterator : (stream shard : String) → (startTime : Option Int) → Except String (Option Nat)
  getRecords : (stream shard : String) → (calls position limit : Nat) → Except String Reply

/-- The order in which the shards' reads end. -/
structure Schedule where
  order : List String → List String
  perm : ∀ shards, (order shards).Perm shards

/-! ## The source -/

/-- `model.MessageQueryParams` -/
structure MessageQueryParams where
  topic : String
  shardId : String
  messageKey : String
  startTime : Int
  endTime : Int
  maxResults : Int

/-- `model.MessageItem` -/
structure MessageItem where
  messageID : String
  keys : String
  storeTimestamp : Int
  body : String
  shardId : String
  sequenceNumber : String
  deriving DecidableEq

/-- `maxBrowse` -/
def maxBrowse : Nat := 500

/-- `browseCallsPerShard` -/
def browseCallsPerShard : Nat := 5

/-- The milliseconds of a time that was never set. -/
def zeroTime : Int := -62135596800000

/-- `messageOf` -/
def messageOf (shard : String) (record : Record) : MessageItem where
  messageID := shard ++ ":" ++ record.sequenceNumber
  keys := record.partitionKey
  storeTimestamp := record.arrived.getD zeroTime
  body := record.data
  shardId := shard
  sequenceNumber := record.sequenceNumber

/-- `matches` -/
def matched (message : MessageItem) (params : MessageQueryParams) : Bool :=
  if 0 < params.endTime ∧ params.endTime < message.storeTimestamp then false
  else if trimSpace params.messageKey ≠ "" ∧ message.keys ≠ trimSpace params.messageKey then false
  else true

/-- The matches of a run of records. -/
def matchesOf (shard : String) (params : MessageQueryParams) (records : List Record) :
    List MessageItem :=
  (records.map (messageOf shard)).filter (matched · params)

/-- The loop of `readShard`, with so many calls left. -/
def readLoop (service : Service) (stream shard : String) (params : MessageQueryParams) (wanted : Nat) :
    (callsLeft : Nat) → (cursor : Option Nat) → (collected : List MessageItem) →
      Except String (List MessageItem)
  | 0, _, collected => .ok collected
  | _ + 1, none, collected => .ok collected
  | callsLeft + 1, some position, collected =>
    if wanted ≤ collected.length then .ok collected
    else
      match service.getRecords stream shard (browseCallsPerShard - (callsLeft + 1)) position
          (min (wanted - collected.length) maxBrowse) with
      | .error err => .error err
      | .ok reply =>
        let records := ((service.log stream shard).records.drop position).take reply.count
        let collected := collected ++ matchesOf shard params records
        -- nothing came, and the shard says that it is read to its end
        if records = [] ∧ reply.millisBehindLatest = 0 then .ok collected
        else
          readLoop service stream shard params wanted callsLeft
            (if reply.next then some (position + records.length) else none) collected

/-- `readShard` -/
def readShard (service : Service) (stream shard : String) (params : MessageQueryParams)
    (wanted : Nat) : Except String (List MessageItem) :=
  match service.getShardIterator stream shard
      (if 0 < params.startTime then some params.startTime else none) with
  | .error err => .error err
  | .ok cursor => readLoop service stream shard params wanted browseCallsPerShard cursor []

/-- `browsableShards` -/
def browsableShards (service : Service) (stream only : String) : Except String (List String) :=
  if trimSpace only ≠ "" then .ok [trimSpace only]
  else
    match service.listShards stream with
    | .error err => .error err
    | .ok shards => .ok shards.val

/-- `wanted` -/
def wantedOf (params : MessageQueryParams) : Nat :=
  if params.maxResults ≤ 0 ∨ (maxBrowse : Int) < params.maxResults then maxBrowse
  else params.maxResults.toNat

/-- What `sort.SliceStable` goes by: the arrival, and within a millisecond the id. -/
def rank (message : MessageItem) : Int ×ₗ String :=
  toLex (message.storeTimestamp, message.messageID)

/-- `sort.SliceStable`, the newest first. -/
def newestFirst (messages : List MessageItem) : List MessageItem :=
  messages.insertionSort fun a b => rank b ≤ rank a

/-- What one shard is read for. -/
def share (wanted : Nat) (shards : List String) : Nat := wanted / shards.length + 1

/-- `QueryMessages`: of several reads in error the first to end is answered. -/
def queryMessages (service : Service) (schedule : Schedule) (params : MessageQueryParams) :
    Except String (List MessageItem) :=
  match service.live with
  | some err => .error err
  | none =>
    let stream := trimSpace params.topic
    if stream = "" then .error "a browse needs a stream name"
    else
      match browsableShards service stream params.shardId with
      | .error err => .error err
      | .ok shards =>
        if shards.length = 0 then .ok []
        else
          let perShard := share (wantedOf params) shards
          match (schedule.order shards).mapM fun shard =>
              readShard service stream shard params perShard with
          | .error err => .error err
          | .ok reads => .ok ((newestFirst reads.flatten).take (wantedOf params))

/-! ## The page -/

/-- What a browse reads: the shards, and what each is read for. -/
structure Browsed (service : Service) (params : MessageQueryParams) (shards : List String)
    (reads : String → List MessageItem) : Prop where
  live : service.live = none
  named : trimSpace params.topic ≠ ""
  listed : browsableShards service (trimSpace params.topic) params.shardId = .ok shards
  read : ∀ shard ∈ shards, readShard service (trimSpace params.topic) shard params
    (share (wantedOf params) shards) = .ok (reads shard)

/-- **A fair page**: no more than were wanted, none twice, the newest first, and of no more shards than
    were wanted every one that gave something. -/
structure Fair (params : MessageQueryParams) (shards : List String)
    (reads : String → List MessageItem) (page : List MessageItem) : Prop where
  short : page.length ≤ wantedOf params
  distinct : (page.map fun message => (message.shardId, message.sequenceNumber)).Nodup
  newest : page.Pairwise fun a b => b.storeTimestamp ≤ a.storeTimestamp
  represented : shards.length ≤ wantedOf params → ∀ shard ∈ shards, reads shard ≠ [] →
    ∃ message ∈ page, message.shardId = shard

/-- No shard is crowded out: a message of each that gave something, its newest at best, has fewer than
    were wanted ahead of it among all that was read. -/
def Uncrowded (params : MessageQueryParams) (shards : List String)
    (reads : String → List MessageItem) : Prop :=
  shards.length ≤ wantedOf params → ∀ shard ∈ shards, reads shard ≠ [] →
    ∃ message ∈ reads shard, above rank message (shards.flatMap reads) < wantedOf params

/-! ## One shard -/

theorem matchesOf_append (shard : String) (params : MessageQueryParams) (xs ys : List Record) :
    matchesOf shard params (xs ++ ys) = matchesOf shard params xs ++ matchesOf shard params ys := by
  simp [matchesOf]

/-- **The loop reads a run**: what is collected are the matches of the records from the first iterator
    to where the cursor stands. -/
theorem readLoop_run {service : Service} {stream shard : String} {params : MessageQueryParams}
    {wanted : Nat} {result : List MessageItem} (start callsLeft : Nat) (cursor : Option Nat)
    (collected : List MessageItem) (n : Nat)
    (hcursor : ∀ position, cursor = some position → position = start + n)
    (hcollected : collected =
      matchesOf shard params (((service.log stream shard).records.drop start).take n))
    (h : readLoop service stream shard params wanted callsLeft cursor collected = .ok result) :
    ∃ m, result = matchesOf shard params (((service.log stream shard).records.drop start).take m) := by
  induction callsLeft generalizing cursor collected n with
  | zero =>
    rw [readLoop, Except.ok.injEq] at h
    exact ⟨n, h ▸ hcollected⟩
  | succ callsLeft ih =>
    cases cursor with
    | none =>
      rw [readLoop, Except.ok.injEq] at h
      exact ⟨n, h ▸ hcollected⟩
    | some position =>
      rw [readLoop] at h
      split at h
      · rw [Except.ok.injEq] at h
        exact ⟨n, h ▸ hcollected⟩
      · split at h
        · cases h
        · rename_i reply hreply
          -- the run goes on where the last one ended
          generalize hrun : ((service.log stream shard).records.drop position).take reply.count =
            run at h
          have hmore : collected ++ matchesOf shard params run =
              matchesOf shard params
                (((service.log stream shard).records.drop start).take (n + run.length)) := by
            have hfront : run = ((service.log stream shard).records.drop position).take run.length :=
              List.prefix_iff_eq_take.mp (hrun ▸ List.take_prefix _ _)
            rw [hcursor position rfl] at hfront
            rw [List.take_add, List.drop_drop, ← hfront, matchesOf_append, hcollected]
          dsimp only at h
          by_cases hend : run = [] ∧ reply.millisBehindLatest = 0
          · rw [if_pos hend, Except.ok.injEq] at h
            exact ⟨n + run.length, h ▸ hmore⟩
          · rw [if_neg hend] at h
            refine ih _ _ (n + run.length) ?_ hmore h
            intro next hnext
            rw [Option.ite_none_right_eq_some] at hnext
            rw [← Option.some.inj hnext.2, hcursor position rfl, Nat.add_assoc]

/-- A read is made of records the shard holds, in their order. -/
theorem readShard_sublist {service : Service} {stream shard : String} {params : MessageQueryParams}
    {wanted : Nat} {read : List MessageItem}
    (h : readShard service stream shard params wanted = .ok read) :
    List.Sublist read ((service.log stream shard).records.map (messageOf shard)) := by
  have hrun : ∃ start m, read =
      matchesOf shard params (((service.log stream shard).records.drop start).take m) := by
    unfold readShard at h
    split at h
    · cases h
    · rename_i cursor hcursor
      obtain ⟨m, hread⟩ := readLoop_run (cursor.getD 0) _ cursor [] 0 (by
        rintro position rfl
        rfl) (by simp [matchesOf]) h
      exact ⟨_, m, hread⟩
  obtain ⟨start, m, rfl⟩ := hrun
  rw [matchesOf]
  apply List.filter_sublist.trans
  apply List.Sublist.map
  exact (List.take_sublist _ _).trans (List.drop_sublist _ _)

/-! ## The page is the newest of what was read -/

section Page

variable {service : Service} {params : MessageQueryParams} {shards : List String}
  {reads : String → List MessageItem}

/-- What was read is a record some shard holds. -/
theorem Browsed.mem (h : Browsed service params shards reads) {message : MessageItem}
    (hmessage : message ∈ shards.flatMap reads) :
    ∃ shard, ∃ record ∈ (service.log (trimSpace params.topic) shard).records,
      message = messageOf shard record := by
  obtain ⟨shard, hshard, hread⟩ := List.mem_flatMap.mp hmessage
  obtain ⟨record, hrecord, heq⟩ :=
    List.mem_map.mp ((readShard_sublist (h.read shard hshard)).subset hread)
  exact ⟨shard, record, hrecord, heq.symm⟩

/-- What was read names its shard. -/
theorem Browsed.shardId (h : Browsed service params shards reads) {shard : String}
    (hshard : shard ∈ shards) {message : MessageItem} (hmessage : message ∈ reads shard) :
    message.shardId = shard := by
  obtain ⟨record, -, rfl⟩ :=
    List.mem_map.mp ((readShard_sublist (h.read shard hshard)).subset hmessage)
  rfl

/-- No record was read twice. -/
theorem Browsed.distinct (h : Browsed service params shards reads) (hshards : shards.Nodup) :
    ((shards.flatMap reads).map fun message => (message.shardId, message.sequenceNumber)).Nodup := by
  rw [List.map_flatMap, List.nodup_flatMap]
  constructor
  · intro shard hshard
    apply ((readShard_sublist (h.read shard hshard)).map _).nodup
    rw [List.map_map]
    have hpairs : ((fun message : MessageItem => (message.shardId, message.sequenceNumber)) ∘
        messageOf shard) = Prod.mk shard ∘ Record.sequenceNumber := rfl
    rw [hpairs, ← List.map_map]
    exact (service.log _ shard).distinct.map (Prod.mk_right_injective shard)
  · apply hshards.imp_of_mem
    intro one other hone hother hne pair hin hin'
    obtain ⟨message, hmessage, rfl⟩ := List.mem_map.mp hin
    obtain ⟨message', hmessage', hsame⟩ := List.mem_map.mp hin'
    apply hne
    rw [← h.shardId hone hmessage, ← h.shardId hother hmessage']
    exact (congrArg Prod.fst hsame).symm

theorem newestFirst_perm (messages : List MessageItem) : (newestFirst messages).Perm messages :=
  List.perm_insertionSort _ _

theorem newestFirst_falling (messages : List MessageItem) :
    (newestFirst messages).Pairwise fun a b => rank b ≤ rank a := by
  have : Std.Total fun a b : MessageItem => rank b ≤ rank a := ⟨fun a b => le_total (rank b) (rank a)⟩
  have : IsTrans MessageItem fun a b => rank b ≤ rank a := ⟨fun _ _ _ hab hbc => le_trans hbc hab⟩
  exact List.pairwise_insertionSort _ messages

/-- What a browse answers, by what it reads. -/
theorem Browsed.queryMessages_eq (h : Browsed service params shards reads) (schedule : Schedule) :
    queryMessages service schedule params =
      .ok ((newestFirst ((schedule.order shards).flatMap reads)).take (wantedOf params)) := by
  have hreads : (schedule.order shards).mapM (fun shard =>
      readShard service (trimSpace params.topic) shard params (share (wantedOf params) shards)) =
        .ok ((schedule.order shards).map reads) :=
    mapM_ok_of_forall _ fun shard hshard => h.read shard ((schedule.perm shards).subset hshard)
  simp only [queryMessages, h.live, if_neg h.named, h.listed]
  by_cases hnone : shards.length = 0
  · have hempty : shards = [] := List.length_eq_zero_iff.mp hnone
    have horder : schedule.order [] = [] := (schedule.perm []).eq_nil
    rw [if_pos hnone, hempty, horder, List.flatMap_nil]
    simp [newestFirst]
  · rw [if_neg hnone, hreads, List.flatMap_def]

/-- The page is the newest of all that was read. -/
theorem Browsed.top (h : Browsed service params shards reads) {schedule : Schedule}
    {page : List MessageItem} (hpage : queryMessages service schedule params = .ok page) :
    Top rank (wantedOf params) page (shards.flatMap reads) := by
  rw [h.queryMessages_eq schedule, Except.ok.injEq] at hpage
  subst hpage
  have hperm : ((schedule.order shards).flatMap reads).Perm (shards.flatMap reads) :=
    (schedule.perm shards).flatMap_right reads
  exact top_take ((newestFirst_perm _).trans hperm) (newestFirst_falling _)

end Page

/-- Where all that was read fits on the page no shard is crowded out. -/
theorem uncrowded_of_length_le {params : MessageQueryParams} {shards : List String}
    {reads : String → List MessageItem}
    (hfits : (shards.flatMap reads).length ≤ wantedOf params) : Uncrowded params shards reads := by
  intro _ shard hshard hsome
  obtain ⟨message, hmessage⟩ := List.exists_mem_of_ne_nil _ hsome
  have hall : message ∈ shards.flatMap reads := List.mem_flatMap.mpr ⟨shard, hshard, hmessage⟩
  refine ⟨message, hmessage, ?_⟩
  -- a message is not ahead of itself
  have hfewer : above rank message (shards.flatMap reads) < (shards.flatMap reads).length := by
    refine Nat.lt_of_le_of_ne List.countP_le_length fun heq => ?_
    have hself := List.countP_eq_length.mp heq message hall
    exact lt_irrefl _ (of_decide_eq_true hself)
  omega

/-! ## A shard that is crowded out -/

/-- A shard that holds one record for each moment. -/
def logOf (moments : List (String × Int)) (hdistinct : (moments.map Prod.fst).Nodup)
    (hplain : ∀ moment ∈ moments, ':' ∉ moment.1.toList) : Log where
  records := moments.map fun moment => ⟨moment.1, "", some moment.2, ""⟩
  distinct := by
    rw [List.map_map]
    exact hdistinct
  plain := by
    intro record hrecord
    obtain ⟨moment, hmoment, rfl⟩ := List.mem_map.mp hrecord
    exact hplain moment hmoment

end MqStudio.Driver.Kinesis
