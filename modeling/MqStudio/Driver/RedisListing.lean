import Mathlib.Data.List.Nodup
import MqStudio.Model.Profile

/-!
# Listing Redis Streams

`ListDestinations`, `scanStreams` and `describeStreams` of `internal/driver/redisstream/destination.go`,
and `ListSubscriptions` of `subscription.go`. The streams are the keys that a SCAN walk returns, on one
server or on every master of a cluster; each is described, and its groups are listed.

The server is outside the repository. A walk returns every key that is there throughout at least once,
in any order and as often as it likes, and ends when its cursor is zero again. A key that is gone by
the time it is described answers nothing.

## Main results

- `scanStreams_eq`: what the scan collects of a walk.
- `countP_rows`, `countP_subscriptions`: a key has as many rows as it was collected.
- `listed_once_iff`: every stream and every group is listed once exactly where the scan collects each
  stream once.
- `collected_once_iff`: on a walk that stays below the cap, where no stream is returned twice.
- `rehash_doubles`: a walk that returns a key twice doubles its row.
-/

namespace MqStudio.Driver.Redis.Listing

open MqStudio.Lib.TreeMap
open MqStudio.Model (StringMap)

/-! ## The scan -/

/-- `maxStreams` -/
def maxStreams : Nat := 2000

/-- What one SCAN call answers. -/
structure Page where
  found : List String
  next : Nat
  deriving DecidableEq

/-- Why a scan has no result. -/
inductive ScanProblem where
  /-- a call failed, or the request was cancelled -/
  | failed
  /-- the server has more to answer -/
  | unfinished
  deriving DecidableEq

/-- The loop of `scanNode`, on the calls' answers. -/
def scanLoop (keys : List String) : List (Option Page) → Except ScanProblem (List String)
  | [] => .error .unfinished
  | none :: _ => .error .failed
  | some page :: rest =>
    if page.next = 0 ∨ maxStreams ≤ (keys ++ page.found).length then .ok (keys ++ page.found)
    else scanLoop (keys ++ page.found) rest

/-- `scanNode` -/
def scanNode (answers : List (Option Page)) : Except ScanProblem (List String) :=
  (scanLoop [] answers).map (·.take maxStreams)

/-- The servers that are walked: one, or the masters of a cluster in the order in which they finish. -/
inductive Servers where
  | standalone (answers : List (Option Page))
  | cluster (masters : List (List (Option Page)))

/-- The masters of a cluster, one after the other. -/
def scanMasters : List (List (Option Page)) → Except ScanProblem (List String)
  | [] => .ok []
  | answers :: rest =>
    match scanNode answers, scanMasters rest with
    | .ok found, .ok later => .ok (found ++ later)
    | .error problem, _ => .error problem
    | .ok _, .error problem => .error problem

/-- `scanStreams` -/
def scanStreams : Servers → Except ScanProblem (List String)
  | .standalone answers => scanNode answers
  | .cluster masters => (scanMasters masters).map (·.take maxStreams)

/-! ## The streams -/

/-- `redis.XInfoStream` -/
structure XInfoStream where
  length : Int
  groups : Int
  lastGeneratedID : String
  entriesAdded : Int
  radixTreeKeys : Int
  radixTreeNodes : Int
  firstEntryID : String
  lastEntryID : String
  maxDeletedEntryID : String

/-- `model.Destination` -/
structure Destination where
  id : Nat
  name : String
  depth : Int
  subscribers : Int
  attributes : StringMap

/-- The answer to a command of a pipeline: a value, that the key is gone, or another error. -/
inductive Reply (α : Type) where
  | value (a : α)
  | gone
  | failed

/-- The value of an answer. -/
def Reply.toOption {α : Type} : Reply α → Option α
  | .value a => some a
  | .gone | .failed => none

/-- An attribute is set unless it says nothing. -/
def setUnless (attributes : StringMap) (name value : String) (nothing : Bool) : StringMap :=
  if nothing then attributes else attributes.insert name value

/-- `destinationOf` -/
def destinationOf (key : String) (info : XInfoStream) : Destination where
  id := 0
  name := key
  depth := info.length
  subscribers := info.groups
  attributes :=
    let attributes := ((((∅ : StringMap).insert "lastGeneratedId" info.lastGeneratedID).insert
      "entriesAdded" (toString info.entriesAdded)).insert "radixTreeKeys"
        (toString info.radixTreeKeys)).insert "radixTreeNodes" (toString info.radixTreeNodes)
    let attributes := setUnless attributes "firstEntryId" info.firstEntryID (info.firstEntryID = "")
    let attributes := setUnless attributes "lastEntryId" info.lastEntryID (info.lastEntryID = "")
    setUnless attributes "maxDeletedEntryId" info.maxDeletedEntryID
      (info.maxDeletedEntryID = "" || info.maxDeletedEntryID = "0-0")

/-- `redis.XInfoGroup` -/
structure XInfoGroup where
  name : String
  consumers : Int
  pending : Int
  lastDeliveredID : String
  entriesRead : Int
  lag : Int
  deriving DecidableEq

/-- What the server answers for each key. -/
structure Keyspace where
  xinfoStream : String → Reply XInfoStream
  memoryUsage : String → Reply Int
  xinfoGroups : String → Reply (List XInfoGroup)

/-- An answer that is an error, and not that the key is gone. -/
def Reply.isError {α : Type} : Reply α → Option Bool
  | .value _ => none
  | .gone => some false
  | .failed => some true

/-- The first command of the pipeline that failed, failed for another reason than that its key is
gone. -/
def execFails (ks : Keyspace) (keys : List String) : Bool :=
  ((keys.flatMap fun key => [(ks.xinfoStream key).isError, (ks.memoryUsage key).isError]).findSome?
    id).getD false

/-- `describeStreams` gives up: the pipeline failed and no stream was described. -/
def describeFails (ks : Keyspace) (keys : List String) : Bool :=
  execFails ks keys && keys.all fun key => (ks.xinfoStream key).toOption.isNone

/-- The row of a stream. -/
def rowOf (ks : Keyspace) (index : Nat) (key : String) (info : XInfoStream) : Destination :=
  { destinationOf key info with
    id := index + 1
    attributes :=
      match (ks.memoryUsage key).toOption with
      | some bytes => (destinationOf key info).attributes.insert "memoryBytes" (toString bytes)
      | none => (destinationOf key info).attributes }

/-- The loop of `ListDestinations`. -/
def rowsFrom (ks : Keyspace) : Nat → List String → List Destination
  | _, [] => []
  | index, key :: rest =>
    match (ks.xinfoStream key).toOption with
    | some info => rowOf ks index key info :: rowsFrom ks (index + 1) rest
    | none => rowsFrom ks (index + 1) rest

/-- `sort.Strings` -/
def sortStrings (keys : List String) : List String :=
  keys.mergeSort fun a b => (compare a b).isLE

/-- Why a listing fails. -/
inductive ListProblem where
  /-- scan for streams, scan the cluster for streams -/
  | scan (problem : ScanProblem)
  /-- describe streams -/
  | describe
  deriving DecidableEq

/-- `ListDestinations` -/
def listDestinations (servers : Servers) (ks : Keyspace) : Except ListProblem (List Destination) :=
  match scanStreams servers with
  | .error problem => .error (.scan problem)
  | .ok keys =>
    if describeFails ks (sortStrings keys) then .error .describe
    else .ok (rowsFrom ks 0 (sortStrings keys))

/-! ## The groups -/

/-- `model.SubscriptionStatus` -/
inductive SubscriptionStatus where
  | online
  | warning
  | offline
  deriving DecidableEq

/-- `groupStatus` -/
def groupStatus (group : XInfoGroup) : SubscriptionStatus :=
  if 0 < group.consumers then .online else if 0 < group.pending then .warning else .offline

/-- `model.Subscription`, under its stream and its name. -/
structure Subscription where
  id : Nat
  stream : String
  name : String
  status : SubscriptionStatus
  members : Int
  backlog : Int
  attributes : StringMap

/-- `model.UnknownMetric` -/
def unknownMetric : Int := -1

/-- `subscriptionOf` -/
def subscriptionOf (stream : String) (group : XInfoGroup) : Subscription where
  id := 0
  stream := stream
  name := group.name
  status := groupStatus group
  members := group.consumers
  backlog := if group.lag < 0 then unknownMetric else group.lag
  attributes :=
    let attributes := (((∅ : StringMap).insert "stream" stream).insert "pending"
      (toString group.pending)).insert "lastDeliveredId" group.lastDeliveredID
    setUnless attributes "entriesRead" (toString group.entriesRead) (group.lag < 0)

/-- The groups of the keys, in their order. -/
def groupsOf (ks : Keyspace) (keys : List String) : List Subscription :=
  keys.flatMap fun key => (((ks.xinfoGroups key).toOption).getD []).map (subscriptionOf key)

/-- `sort.Slice` by stream and name. -/
def sortSubscriptions (subscriptions : List Subscription) : List Subscription :=
  subscriptions.mergeSort fun a b => ((compare a.stream b.stream).then (compare a.name b.name)).isLE

/-- `ListSubscriptions` -/
def listSubscriptions (servers : Servers) (ks : Keyspace) :
    Except ListProblem (List Subscription) :=
  match scanStreams servers with
  | .error problem => .error (.scan problem)
  | .ok keys =>
    .ok ((sortSubscriptions (groupsOf ks (sortStrings keys))).mapIdx fun index subscription =>
      { subscription with id := index + 1 })

/-! ## Walks -/

/-- The keys that the calls' answers have. -/
def returned (answers : List (Option Page)) : List String :=
  answers.flatMap fun answer => (answer.map Page.found).getD []

/-- The answers of a whole walk: none fails, and the cursor is zero at the last and not before. -/
inductive IsWalk : List (Option Page) → Prop where
  | last (found : List String) : IsWalk [some ⟨found, 0⟩]
  | step (found : List String) (next : Nat) (rest : List (Option Page)) :
      next ≠ 0 → IsWalk rest → IsWalk (some ⟨found, next⟩ :: rest)

/-- Every server is walked to its end. -/
def Servers.Walked : Servers → Prop
  | .standalone answers => IsWalk answers
  | .cluster masters => ∀ answers ∈ masters, IsWalk answers

/-- Every key that the walks return. -/
def Servers.returned : Servers → List String
  | .standalone answers => Listing.returned answers
  | .cluster masters => masters.flatMap Listing.returned

/-- The keys that count: of each server the first ones up to the cap, and of these the first ones. -/
def Servers.collected : Servers → List String
  | .standalone answers => (Listing.returned answers).take maxStreams
  | .cluster masters =>
    (masters.flatMap fun answers => (Listing.returned answers).take maxStreams).take maxStreams

/-- The loop stops at the end of the walk or at the cap, which is the same below it. -/
theorem scanLoop_walk {answers : List (Option Page)} (h : IsWalk answers) (keys : List String) :
    ∃ found, scanLoop keys answers = .ok found ∧
      found.take maxStreams = (keys ++ returned answers).take maxStreams := by
  induction h generalizing keys with
  | last found =>
    refine ⟨keys ++ found, by simp [scanLoop], by simp [returned]⟩
  | step found next rest hnext hrest ih =>
    by_cases hcap : maxStreams ≤ (keys ++ found).length
    · refine ⟨keys ++ found, by rw [scanLoop, if_pos (.inr hcap)], ?_⟩
      have hlist : keys ++ returned (some ⟨found, next⟩ :: rest) =
          (keys ++ found) ++ returned rest := by simp [returned]
      rw [hlist, List.take_append_of_le_length hcap]
    · obtain ⟨all, hall, htake⟩ := ih (keys ++ found)
      refine ⟨all, ?_, ?_⟩
      · rw [scanLoop, if_neg (not_or.mpr ⟨hnext, hcap⟩), hall]
      · rw [htake]
        simp [returned]

theorem scanNode_walk {answers : List (Option Page)} (h : IsWalk answers) :
    scanNode answers = .ok ((returned answers).take maxStreams) := by
  obtain ⟨found, hfound, htake⟩ := scanLoop_walk h []
  rw [scanNode, hfound]
  exact congrArg Except.ok htake

theorem scanMasters_walk {masters : List (List (Option Page))}
    (h : ∀ answers ∈ masters, IsWalk answers) :
    scanMasters masters =
      .ok (masters.flatMap fun answers => (returned answers).take maxStreams) := by
  induction masters with
  | nil => rfl
  | cons answers rest ih =>
    rw [scanMasters, scanNode_walk (h answers List.mem_cons_self),
      ih fun other hother => h other (List.mem_cons_of_mem _ hother), List.flatMap_cons]

/-- **The scan** ends with its walks, and has the keys that count. -/
theorem scanStreams_eq {servers : Servers} (h : servers.Walked) :
    scanStreams servers = .ok servers.collected := by
  cases servers with
  | standalone answers => exact scanNode_walk h
  | cluster masters =>
    rw [scanStreams, scanMasters_walk h]
    rfl

/-- A loop that has come to a zero cursor asks for nothing more. -/
theorem scanLoop_append {answers : List (Option Page)} (h : IsWalk answers) (keys : List String)
    (more : List (Option Page)) : scanLoop keys (answers ++ more) = scanLoop keys answers := by
  induction h generalizing keys with
  | last found => simp [scanLoop]
  | step found next rest hnext hrest ih =>
    rw [List.cons_append, scanLoop, scanLoop, ih]

/-! ## Rows -/

variable {ks : Keyspace} {key : String}

theorem count_sortStrings (keys : List String) : (sortStrings keys).count key = keys.count key :=
  (List.mergeSort_perm _ _).count_eq _

/-- **Rows**: a stream that is described has as many rows as it was collected. -/
theorem countP_rows {info : XInfoStream} (h : (ks.xinfoStream key).toOption = some info)
    (index : Nat) (keys : List String) :
    (rowsFrom ks index keys).countP (fun row => row.name = key) = keys.count key := by
  induction keys generalizing index with
  | nil => rfl
  | cons other rest ih =>
    rw [rowsFrom, List.count_cons, ← ih (index + 1)]
    cases hother : (ks.xinfoStream other).toOption with
    | some described =>
      have hname : (rowOf ks index other described).name = other := rfl
      rw [List.countP_cons, hname]
      by_cases hkey : other = key <;> simp [hkey]
    | none =>
      have hkey : other ≠ key := by
        rintro rfl
        rw [h] at hother
        cases hother
      simp [hkey]

/-- The ids of the rows go up. -/
theorem ids_rows (ks : Keyspace) (index : Nat) (keys : List String) :
    (∀ row ∈ rowsFrom ks index keys, index < row.id) ∧
      (rowsFrom ks index keys).Pairwise fun a b => a.id < b.id := by
  induction keys generalizing index with
  | nil => exact ⟨fun row hrow => absurd hrow List.not_mem_nil, .nil⟩
  | cons key rest ih =>
    obtain ⟨habove, hpair⟩ := ih (index + 1)
    rw [rowsFrom]
    cases (ks.xinfoStream key).toOption with
    | none => exact ⟨fun row hrow => Nat.lt_of_succ_lt (habove row hrow), hpair⟩
    | some info =>
      refine ⟨fun row hrow => ?_, List.pairwise_cons.mpr ⟨fun row hrow => ?_, hpair⟩⟩
      · rcases List.mem_cons.mp hrow with rfl | hlater
        · exact Nat.lt_succ_self index
        · exact Nat.lt_of_succ_lt (habove row hlater)
      · exact habove row hrow

/-- **Groups**: a group of a stream is listed as often as its stream was collected. -/
theorem countP_subscriptions {groups : List XInfoGroup} {group : XInfoGroup}
    (h : (ks.xinfoGroups key).toOption = some groups) (hdistinct : (groups.map XInfoGroup.name).Nodup)
    (hgroup : group ∈ groups) (keys : List String) :
    (groupsOf ks keys).countP (fun s => s.stream = key ∧ s.name = group.name) = keys.count key := by
  unfold groupsOf
  induction keys with
  | nil => rfl
  | cons other rest ih =>
    rw [List.flatMap_cons, List.countP_append, ih, List.count_cons, Nat.add_comm, List.countP_map]
    congr 1
    by_cases hkey : other = key
    · subst hkey
      have hone : (groups.map XInfoGroup.name).count group.name = 1 :=
        List.count_eq_one_of_mem hdistinct (List.mem_map.mpr ⟨group, hgroup, rfl⟩)
      rw [List.count, List.countP_map] at hone
      rw [h, Option.getD_some, beq_self_eq_true, if_pos rfl, ← hone]
      refine List.countP_congr fun candidate _ => ?_
      simp [subscriptionOf]
    · rw [if_neg (by simpa using hkey), List.countP_eq_zero]
      intro candidate _
      simp [subscriptionOf, hkey]

/-! ## Listings -/

/-- A server or a cluster that is walked while some streams are there throughout, each with groups of
distinct names. -/
structure Walk where
  servers : Servers
  keyspace : Keyspace
  present : List String
  walked : servers.Walked
  found : ∀ key ∈ present, key ∈ servers.returned
  described : ∀ key ∈ present, ∃ info, (keyspace.xinfoStream key).toOption = some info
  groups : String → List XInfoGroup
  listed : ∀ key ∈ present, (keyspace.xinfoGroups key).toOption = some (groups key)
  distinct : ∀ key ∈ present, ((groups key).map XInfoGroup.name).Nodup

/-- The scan ends with the walk, every stream is listed once, under ids that are distinct, and so is
every group of it. -/
def ListedOnce (walk : Walk) : Prop :=
  (∃ keys, scanStreams walk.servers = .ok keys) ∧
  ∀ key ∈ walk.present,
    (∃ rows, listDestinations walk.servers walk.keyspace = .ok rows ∧
      (rows.map Destination.id).Nodup ∧ rows.countP (fun row => row.name = key) = 1) ∧
    ∃ subscriptions, listSubscriptions walk.servers walk.keyspace = .ok subscriptions ∧
      ∀ group ∈ walk.groups key,
        subscriptions.countP (fun s => s.stream = key ∧ s.name = group.name) = 1

theorem listDestinations_eq {walk : Walk} (h : key ∈ walk.present)
    (hkey : key ∈ walk.servers.collected) :
    listDestinations walk.servers walk.keyspace =
      .ok (rowsFrom walk.keyspace 0 (sortStrings walk.servers.collected)) := by
  obtain ⟨info, hinfo⟩ := walk.described key h
  have hmem : key ∈ sortStrings walk.servers.collected :=
    (List.mergeSort_perm _ _).mem_iff.mpr hkey
  have hdescribed : describeFails walk.keyspace (sortStrings walk.servers.collected) = false := by
    rw [describeFails, Bool.and_eq_false_iff]
    right
    rw [List.all_eq_false]
    exact ⟨key, hmem, by simp [hinfo]⟩
  unfold listDestinations
  rw [scanStreams_eq walk.walked]
  simp only [hdescribed, Bool.false_eq_true, if_false]

/-- A key with a row was collected. -/
theorem collected_of_listed {walk : Walk} {rows : List Destination}
    (hrows : listDestinations walk.servers walk.keyspace = .ok rows) :
    rows = rowsFrom walk.keyspace 0 (sortStrings walk.servers.collected) := by
  unfold listDestinations at hrows
  rw [scanStreams_eq walk.walked] at hrows
  simp only at hrows
  split at hrows
  · cases hrows
  · exact (Except.ok.inj hrows).symm

theorem nodup_ids (ks : Keyspace) (keys : List String) :
    ((rowsFrom ks 0 keys).map Destination.id).Nodup := by
  rw [List.Nodup, List.pairwise_map]
  exact (ids_rows ks 0 keys).2.imp fun hlt => Nat.ne_of_lt hlt

/-- Numbering changes no other count. -/
theorem countP_mapIdx {α γ : Type} (l : List α) (f : Nat → α → γ) (p : γ → Bool) (q : α → Bool)
    (h : ∀ i a, p (f i a) = q a) : (l.mapIdx f).countP p = l.countP q := by
  induction l generalizing f with
  | nil => rfl
  | cons a rest ih =>
    rw [List.mapIdx_cons, List.countP_cons, List.countP_cons, ih _ fun i a => h (i + 1) a, h]

theorem countP_listSubscriptions {walk : Walk} (h : key ∈ walk.present) {group : XInfoGroup}
    (hgroup : group ∈ walk.groups key) {subscriptions : List Subscription}
    (hlisted : listSubscriptions walk.servers walk.keyspace = .ok subscriptions) :
    subscriptions.countP (fun s => s.stream = key ∧ s.name = group.name) =
      walk.servers.collected.count key := by
  unfold listSubscriptions at hlisted
  rw [scanStreams_eq walk.walked] at hlisted
  cases hlisted
  rw [countP_mapIdx _ _ _ (fun s : Subscription => decide (s.stream = key ∧ s.name = group.name))
    fun i s => rfl]
  have hsorted := (List.mergeSort_perm
    (groupsOf walk.keyspace (sortStrings walk.servers.collected)) fun a b =>
      ((compare a.stream b.stream).then (compare a.name b.name)).isLE).countP_eq
    fun s : Subscription => decide (s.stream = key ∧ s.name = group.name)
  rw [sortSubscriptions, hsorted,
    countP_subscriptions (walk.listed key h) (walk.distinct key h) hgroup, count_sortStrings]

/-- **Streams and groups** are listed once each exactly where the scan collects each stream once. -/
theorem listed_once_iff (walk : Walk) :
    ListedOnce walk ↔ ∀ key ∈ walk.present, walk.servers.collected.count key = 1 := by
  constructor
  · rintro ⟨-, h⟩ key hkey
    obtain ⟨⟨rows, hrows, -, hone⟩, -⟩ := h key hkey
    obtain rfl := collected_of_listed hrows
    obtain ⟨info, hinfo⟩ := walk.described key hkey
    rwa [countP_rows hinfo, count_sortStrings] at hone
  · intro h
    refine ⟨⟨_, scanStreams_eq walk.walked⟩, fun key hkey => ⟨?_, ?_⟩⟩
    · obtain ⟨info, hinfo⟩ := walk.described key hkey
      have hmem : key ∈ walk.servers.collected :=
        List.count_pos_iff.mp (by rw [h key hkey]; exact Nat.one_pos)
      refine ⟨_, listDestinations_eq hkey hmem, nodup_ids _ _, ?_⟩
      rw [countP_rows hinfo, count_sortStrings, h key hkey]
    · have hlisted : ∃ subscriptions,
          listSubscriptions walk.servers walk.keyspace = .ok subscriptions := by
        unfold listSubscriptions
        rw [scanStreams_eq walk.walked]
        exact ⟨_, rfl⟩
      obtain ⟨subscriptions, hsubscriptions⟩ := hlisted
      refine ⟨subscriptions, hsubscriptions, fun group hgroup => ?_⟩
      rw [countP_listSubscriptions hkey hgroup hsubscriptions, h key hkey]

/-- Below the cap all that is returned is collected. -/
theorem collected_eq_returned {servers : Servers} (h : servers.returned.length ≤ maxStreams) :
    servers.collected = servers.returned := by
  cases servers with
  | standalone answers => exact List.take_of_length_le h
  | cluster masters =>
    have hmasters : (masters.flatMap fun answers => (returned answers).take maxStreams) =
        masters.flatMap returned := by
      have hall : ∀ answers ∈ masters, (returned answers).length ≤ maxStreams := by
        intro answers hanswers
        refine (List.Sublist.length_le ?_).trans h
        exact List.sublist_flatten_of_mem (List.mem_map.mpr ⟨answers, hanswers, rfl⟩)
      clear h
      induction masters with
      | nil => rfl
      | cons answers rest ih =>
        rw [List.flatMap_cons, List.flatMap_cons, List.take_of_length_le (hall _ List.mem_cons_self),
          ih fun other hother => hall other (List.mem_cons_of_mem _ hother)]
    show ((masters.flatMap fun answers => (returned answers).take maxStreams).take maxStreams) = _
    rw [hmasters]
    exact List.take_of_length_le h

/-- On a walk that returns no more keys than the cap, repeats counted, every stream is collected once
exactly where none is returned twice. -/
theorem collected_once_iff {walk : Walk} (h : walk.servers.returned.length ≤ maxStreams) :
    (∀ key ∈ walk.present, walk.servers.collected.count key = 1) ↔
      ∀ key ∈ walk.present, walk.servers.returned.count key ≤ 1 := by
  rw [collected_eq_returned h]
  refine forall₂_congr fun key hkey => ⟨fun hone => hone.le, fun hle => ?_⟩
  have hpos := List.count_pos_iff.mpr (walk.found key hkey)
  omega

/-! ## A walk over a table that is resized -/

/-- A stream without groups. -/
def emptyStream : XInfoStream := ⟨0, 1, "0-0", 0, 1, 2, "", "", ""⟩

/-- The one group of each stream. -/
def billing : XInfoGroup := ⟨"billing", 1, 0, "0-0", 0, 0⟩

/-- A server on which every key is a stream with the group `billing`. -/
def billedKeyspace : Keyspace where
  xinfoStream _ := .value emptyStream
  memoryUsage _ := .value 64
  xinfoGroups _ := .value [billing]

/-- A walk that returns `orders` as often as its calls do. -/
def ordersWalk (answers : List (Option Page)) (h : IsWalk answers)
    (hfound : "orders" ∈ returned answers) : Walk where
  servers := .standalone answers
  keyspace := billedKeyspace
  present := ["orders"]
  walked := h
  found key hkey := by
    rw [List.mem_singleton.mp hkey]
    exact hfound
  described _ _ := ⟨emptyStream, rfl⟩
  groups _ := [billing]
  listed _ _ := rfl
  distinct _ _ := by decide

/-- A walk over a table that is being resized, which returns `orders` twice. -/
def rehashWalk : Walk :=
  ordersWalk [some ⟨["orders"], 6⟩, some ⟨["orders"], 0⟩]
    (.step _ _ _ (by decide) (.last _)) (by decide)

/-- Its stream, and the group of it, are listed twice. -/
theorem rehash_doubles : ¬ ListedOnce rehashWalk := by
  rw [listed_once_iff]
  intro h
  exact absurd (h "orders" (by decide)) (by decide)

end MqStudio.Driver.Redis.Listing
