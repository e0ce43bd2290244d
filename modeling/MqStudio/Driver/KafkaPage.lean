import Mathlib.Data.List.Sort
import Mathlib.Data.Prod.Lex
import MqStudio.Driver.KafkaBrowse
import MqStudio.Driver.LatestShares
import MqStudio.Lib.Utf8
import MqStudio.Storage

/-!
# A Page of Kafka Records

`QueryMessages` of `internal/driver/kafka/record_read.go`: every mode comes to an offset for each
partition, and a read forward from there. Which records come first, and from which partition, is the
consumer's affair; the page is sorted once it is read.

## Main results

- `page_in_order`: whatever the mode and however the read ends, a page shows records of the topic that
  were asked for, each once and in their order.
- `search_misses_nothing`: a search with room left on its page has found every record with the key,
  where its read was not cut off.
-/

namespace MqStudio.Driver.Kafka.Browse

open MqStudio.Lib
open MqStudio.Lib.RoundRobin

variable {β : Type}

/-! ## Where a read begins -/

/-- `model.MessageQueryParams`: a filter that is not set is empty. -/
structure Params where
  topic : String
  maxResults : Int
  startTime : Int
  messageKey : String
  mode : String
  partition : String
  startOffset : String

/-- `ModeLatest`, `ModeOffset`, `ModeTime` and `ModeKey`. -/
def modeLatest : String := "latest"

def modeOffset : String := "offset"

def modeTime : String := "time"

def modeKey : String := "key"

/-- The mode, which is `ModeLatest` where none is named. -/
def Params.readMode (params : Params) : String :=
  if params.mode = "" then modeLatest else params.mode

/-- The limit of a page. -/
def Params.limit (params : Params) : Nat :=
  if params.maxResults ≤ 0 then 100 else params.maxResults.toNat

/-- A listing of the topic: a partition is listed once. -/
structure Listing where
  offsets : ListedOffsets
  distinct : (offsets.map Prod.fst).Nodup

/-- Why a page is refused, one constructor for each message of the source, and the errors of what it
    asks for. -/
inductive PageError where
  | topicRequired
  | listing
  | invalidPartition (raw : String)
  | noPartition (topic : String) (partition : Int)
  | startTimeRequired
  | invalidStartOffset (raw : String)
  | unknownMode (mode : String)
  | reading
  deriving DecidableEq

/-- The partitions of a listing, in order. -/
def Listing.partitions (listing : Listing) : List Int :=
  (listing.offsets.map Prod.fst).insertionSort (· ≤ ·)

/-- `requestedPartitions` -/
def requestedPartitions (params : Params) (ends : Listing) : Except PageError (List Int) :=
  if params.partition = "" then .ok ends.partitions
  else
    match parseInt 32 params.partition.toList with
    | none => .error (.invalidPartition params.partition)
    | some chosen =>
      if chosen ∈ ends.partitions then .ok [chosen]
      else .error (.noPartition params.topic chosen)

/-- `clamp` of `group_offset.go` -/
def clamp (offset start last : Int) : Int :=
  if 0 ≤ start ∧ offset < start then start
  else if 0 ≤ last ∧ last < offset then last
  else offset

/-- The `switch` on the mode: where a partition is read from, or nothing where it is not read. -/
def readFrom (params : Params) (shares : Int → Int) (timestamps : ListedOffsets)
    (partition start last : Int) : Except PageError (Option Int) :=
  -- `ModeLatest` and `ModeKey` read the listings, the other two what the caller gave.
  if params.readMode = modeLatest then .ok (some (last - shares partition))
  else if params.readMode = modeKey then .ok (some start)
  else if params.readMode = modeOffset then
    match parseInt 64 params.startOffset.toList with
    | none => .error (.invalidStartOffset params.startOffset)
    | some parsed => .ok (some parsed)
  else if params.readMode = modeTime then
    -- What is not listed, or with an error, reads as an offset below zero.
    .ok (if offsetAt timestamps partition < 0 then none else some (offsetAt timestamps partition))
  else .error (.unknownMode params.readMode)

/-- The body of the loop of `startOffsets`. -/
def startOffset (params : Params) (shares : Int → Int) (starts ends timestamps : ListedOffsets)
    (partition : Int) : Except PageError (Option Int) :=
  let start := offsetAt starts partition
  let last := offsetAt ends partition
  if start < 0 ∨ last < 0 then .ok none
  else
    match readFrom params shares timestamps partition start last with
    | .error problem => .error problem
    | .ok none => .ok none
    | .ok (some offset) =>
      .ok (if last ≤ clamp offset start last then none else some (clamp offset start last))

/-- The loop. -/
def offsetsOf (start : Int → Except PageError (Option Int)) :
    List Int → Except PageError (List (Int × Int))
  | [] => .ok []
  | partition :: rest =>
    match start partition with
    | .error problem => .error problem
    | .ok none => offsetsOf start rest
    | .ok (some offset) => (offsetsOf start rest).map ((partition, offset) :: ·)

/-- The listing by time, which only `ModeTime` asks for. -/
def momentOf (params : Params) (timestamps : Option Listing) : Except PageError ListedOffsets :=
  if params.readMode ≠ modeTime then .ok []
  else if params.startTime ≤ 0 then .error .startTimeRequired
  else
    match timestamps with
    | none => .error .listing
    | some listing => .ok listing.offsets

/-- `startOffsets`, for the partitions that are requested. -/
def startOffsets (params : Params) (wanted : List Int) (starts ends : Listing)
    (timestamps : Option Listing) : Except PageError (List (Int × Int)) :=
  if wanted = [] then .ok []
  else
    match momentOf params timestamps with
    | .error problem => .error problem
    | .ok moments =>
      offsetsOf (startOffset params (latestShares wanted params.limit starts.offsets ends.offsets)
        starts.offsets ends.offsets moments) wanted

section Begins

variable {params : Params} {starts ends : Listing} {timestamps : Option Listing} {wanted : List Int}
  {entries : List (Int × Int)} {begins : Int → Except PageError (Option Int)} {p o : Int}

theorem nodup_requested (h : requestedPartitions params ends = .ok wanted) : wanted.Nodup := by
  rw [requestedPartitions] at h
  split at h
  · cases h
    exact (List.perm_insertionSort _ _).nodup_iff.mpr ends.distinct
  · split at h
    · cases h
    · split at h
      · cases h
        exact List.nodup_singleton _
      · cases h

/-- What the loop keeps of the partitions it goes through. -/
theorem offsetsOf_cons {q : Int} {rest : List Int} (h : offsetsOf begins (q :: rest) = .ok entries) :
    (begins q = .ok none ∧ offsetsOf begins rest = .ok entries) ∨
      ∃ offset later, begins q = .ok (some offset) ∧ offsetsOf begins rest = .ok later ∧
        entries = (q, offset) :: later := by
  rw [offsetsOf] at h
  split at h
  · cases h
  · rename_i hnone
    exact .inl ⟨hnone, h⟩
  · rename_i offset hsome
    cases hrest : offsetsOf begins rest with
    | error problem =>
      rw [hrest] at h
      cases h
    | ok later =>
      rw [hrest] at h
      cases h
      exact .inr ⟨offset, later, hsome, rfl, rfl⟩

theorem keys_offsetsOf (h : offsetsOf begins wanted = .ok entries) :
    (entries.map Prod.fst).Sublist wanted := by
  induction wanted generalizing entries with
  | nil =>
    cases h
    exact List.nil_sublist _
  | cons q rest ih =>
    rcases offsetsOf_cons h with ⟨_, hrest⟩ | ⟨offset, later, _, hrest, rfl⟩
    · exact (ih hrest).cons q
    · exact (ih hrest).cons_cons q

theorem mem_offsetsOf (h : offsetsOf begins wanted = .ok entries) :
    (p, o) ∈ entries ↔ p ∈ wanted ∧ begins p = .ok (some o) := by
  induction wanted generalizing entries with
  | nil =>
    cases h
    simp
  | cons q rest ih =>
    rcases offsetsOf_cons h with ⟨hnone, hrest⟩ | ⟨offset, later, hsome, hrest, rfl⟩
    · rw [ih hrest, List.mem_cons]
      constructor
      · exact fun hp => ⟨.inr hp.1, hp.2⟩
      · rintro ⟨rfl | hp, hbegins⟩
        · rw [hnone] at hbegins
          cases hbegins
        · exact ⟨hp, hbegins⟩
    · rw [List.mem_cons, ih hrest, List.mem_cons]
      constructor
      · rintro (heq | hp)
        · cases heq
          exact ⟨.inl rfl, hsome⟩
        · exact ⟨.inr hp.1, hp.2⟩
      · rintro ⟨rfl | hp, hbegins⟩
        · rw [hsome] at hbegins
          cases hbegins
          exact .inl rfl
        · exact .inr ⟨hp, hbegins⟩

theorem keys_startOffsets (h : startOffsets params wanted starts ends timestamps = .ok entries) :
    (entries.map Prod.fst).Sublist wanted := by
  rw [startOffsets] at h
  split at h
  · cases h
    exact List.nil_sublist _
  · split at h
    · cases h
    · exact keys_offsetsOf h

end Begins

/-- `startOffsets`: no partition is begun twice. -/
def browseOffsets (params : Params) (starts ends : Listing) (timestamps : Option Listing) :
    Except PageError Offsets :=
  match hwanted : requestedPartitions params ends with
  | .error problem => .error problem
  | .ok wanted =>
    match hentries : startOffsets params wanted starts ends timestamps with
    | .error problem => .error problem
    | .ok entries =>
      .ok ⟨entries, (nodup_requested hwanted).sublist (keys_startOffsets hentries)⟩

/-! ## The page -/

/-- `matcherFor`, by the key a record has. -/
def matcherFor (params : Params) (key : β → List UInt8) : Option (Record β → Bool) :=
  if params.mode ≠ modeKey ∨ Storage.trimSpace params.messageKey = "" then none
  else some fun record =>
    key record.content = Utf8.encode (Storage.trimSpace params.messageKey).toList

/-- What a page is sorted by. -/
def place (message : MessageItem β) : Int ×ₗ Int := toLex (message.queueID, message.queueOffset)

/-- A message of a page, with its `ID` there. -/
structure Row (β : Type) where
  id : Nat
  message : MessageItem β
  deriving DecidableEq

/-- The records that were read, sorted and numbered. -/
def pageOf (topic : String) (records : List (Record β)) : List (Row β) :=
  ((records.map (messageFrom topic)).insertionSort fun a b => place a ≤ place b).zipIdx.map
    fun p => ⟨p.2 + 1, p.1⟩

/-- `QueryMessages`, with the listings it asks for, which may fail, and what the consumer gives. -/
def queryMessages (params : Params) (key : β → List UInt8) (starts ends timestamps : Option Listing)
    (rounds : List (Round β)) : Except PageError (List (Row β)) :=
  if Storage.trimSpace params.topic = "" then .error .topicRequired
  else
    match starts, ends with
    | some starts, some ends =>
      match browseOffsets params starts ends timestamps with
      | .error problem => .error problem
      | .ok offsets =>
        if offsets.entries = [] then .ok []
        else
          match readRecords offsets ends.offsets params.limit (matcherFor params key) rounds with
          | none => .error .reading
          | some records => .ok (pageOf params.topic records)
    | _, _ => .error .listing

section Plan

variable {params : Params} {starts ends : Listing} {timestamps : Option Listing}
  {offsets : Offsets} {position : Int × Int} {partition offset : Int}

theorem browseOffsets_ok (h : browseOffsets params starts ends timestamps = .ok offsets) :
    ∃ wanted, requestedPartitions params ends = .ok wanted ∧
      startOffsets params wanted starts ends timestamps = .ok offsets.entries := by
  rw [browseOffsets] at h
  split at h
  · cases h
  · rename_i wanted hwanted
    split at h
    · cases h
    · rename_i entries hentries
      cases h
      exact ⟨wanted, hwanted, hentries⟩

theorem clamp_between {start last : Int} (hstart : 0 ≤ start) (hlast : 0 ≤ last)
    (hbelow : clamp offset start last < last) : start ≤ clamp offset start last := by
  rw [clamp] at hbelow ⊢
  split_ifs at hbelow ⊢ <;> omega

/-- **Where a partition is begun**: in the log, before its end. -/
theorem startOffset_some {shares : Int → Int} {starts ends timestamps : ListedOffsets}
    (h : startOffset params shares starts ends timestamps partition = .ok (some offset)) :
    offsetAt starts partition ≤ offset ∧ offset < offsetAt ends partition ∧
      0 ≤ offsetAt starts partition := by
  rw [startOffset] at h
  split at h
  · cases h
  · rename_i hlisted
    split at h
    · cases h
    · cases h
    · rename_i raw _
      split at h
      · cases h
      · rename_i hbelow
        cases h
        have hless := Int.not_le.mp hbelow
        exact ⟨clamp_between (by omega) (by omega) hless, hless, by omega⟩

theorem startOffsets_within {wanted : List Int} {entries : List (Int × Int)}
    (h : startOffsets params wanted starts ends timestamps = .ok entries)
    (hposition : position ∈ entries) :
    position.1 ∈ wanted ∧ offsetAt starts.offsets position.1 ≤ position.2 ∧
      position.2 < offsetAt ends.offsets position.1 ∧ 0 ≤ offsetAt starts.offsets position.1 := by
  rw [startOffsets] at h
  split at h
  · cases h
    cases hposition
  · split at h
    · cases h
    · obtain ⟨hmem, hbegins⟩ := (mem_offsetsOf h).mp hposition
      exact ⟨hmem, startOffset_some hbegins⟩

/-- Every partition that is begun has something to give. -/
theorem consumed_planned (h : browseOffsets params starts ends timestamps = .ok offsets) :
    consumed offsets ends.offsets = offsets.entries := by
  obtain ⟨wanted, _, hentries⟩ := browseOffsets_ok h
  apply List.filter_eq_self.mpr
  intro position hposition
  have hwithin := startOffsets_within hentries hposition
  simp only [decide_eq_true_eq]
  omega

/-- A plan of one partition. -/
theorem planned_one
    (h : (browseOffsets params starts ends timestamps).map Offsets.entries = .ok [(partition, offset)]) :
    browseOffsets params starts ends timestamps = .ok (.one partition offset) := by
  cases hplan : browseOffsets params starts ends timestamps with
  | error problem =>
    rw [hplan] at h
    cases h
  | ok offsets =>
    obtain ⟨entries, distinct⟩ := offsets
    rw [hplan] at h
    cases h
    rfl

end Plan

/-- A partition of three records, and how it is listed. -/
def threeRecords (partition : Int) : Log String :=
  ⟨0, if partition = 0 then [.record "a", .record "b", .record "c"] else []⟩

def threeStarts : Listing := ⟨[(0, some 0)], List.nodup_singleton _⟩

def threeEnds : Listing := ⟨[(0, some 3)], List.nodup_singleton _⟩

/-- A record that is its own key. -/
def ownKey (content : String) : List UInt8 := Utf8.encode content.toList

/-- The latest two, and those of a key. -/
def latestTwo : Params := ⟨"orders", 2, 0, "", "", "", ""⟩

def keyedB : Params := ⟨"orders", 2, 0, " b", "key", "", ""⟩

/-- A poll that brings them. -/
def lastRounds : List (Round String) := [⟨false, false, [⟨0, 1, "b"⟩, ⟨0, 2, "c"⟩]⟩]

def allRounds : List (Round String) := [⟨false, false, [⟨0, 0, "a"⟩, ⟨0, 1, "b"⟩, ⟨0, 2, "c"⟩]⟩]

/-! ## In order -/

section Order

variable {logs : Int → Log β} {params : Params} {key : β → List UInt8} {starts ends : Listing}
  {timestamps : Option Listing} {offsets : Offsets} {rounds : List (Round β)}
  {page : List (Row β)} {records : List (Record β)} {topic : String} {record : Record β}

/-- What a page is made of. -/
theorem queryMessages_ok
    (h : queryMessages params key (some starts) (some ends) timestamps rounds = .ok page)
    (hplan : browseOffsets params starts ends timestamps = .ok offsets) :
    ∃ records, readRecords offsets ends.offsets params.limit (matcherFor params key) rounds =
      some records ∧ page = pageOf params.topic records := by
  rw [queryMessages] at h
  split at h
  · cases h
  · simp only [hplan] at h
    split at h
    · rename_i hnone
      cases h
      refine ⟨[], ?_, rfl⟩
      rw [readRecords, consumed_planned hplan, if_pos hnone]
    · split at h
      · cases h
      · rename_i records hrecords
        cases h
        exact ⟨records, hrecords, rfl⟩

theorem map_message_pageOf (topic : String) (records : List (Record β)) :
    (pageOf topic records).map Row.message =
      (records.map (messageFrom topic)).insertionSort fun a b => place a ≤ place b := by
  rw [pageOf, List.map_map]
  exact List.zipIdx_map_fst 0 _

theorem mem_pageOf {message : MessageItem β} :
    message ∈ (pageOf topic records).map Row.message ↔
      ∃ record ∈ records, messageFrom topic record = message := by
  rw [map_message_pageOf, List.mem_insertionSort, List.mem_map]

theorem length_pageOf (topic : String) (records : List (Record β)) :
    (pageOf topic records).length = records.length := by
  rw [← List.length_map (f := Row.message), map_message_pageOf, List.length_insertionSort,
    List.length_map]

theorem ids_pageOf (topic : String) (records : List (Record β)) :
    (pageOf topic records).map Row.id = List.range' 1 (pageOf topic records).length := by
  rw [pageOf, List.length_map, List.length_zipIdx, List.map_map]
  show List.map ((· + 1) ∘ Prod.snd) _ = _
  rw [← List.map_map, List.zipIdx_map_snd, ← List.range'_succ_left]

/-- Of each partition, what is handed out is in order. -/
theorem pairwise_handedOut {given : List (Int × Int)} (h : Consumes logs given rounds) :
    (handedOut rounds).Pairwise fun a b => a.partition = b.partition → a.offset < b.offset := by
  rw [List.pairwise_iff_getElem]
  intro i j hi hj hij heq
  obtain ⟨position, hposition, hkey⟩ := List.mem_map.mp (h.2 _ (List.getElem_mem hi))
  have hordered := (pairwise_ahead logs position).sublist (h.1 position hposition).sublist
  rw [List.pairwise_filter, List.pairwise_iff_getElem] at hordered
  exact hordered i j hi hj hij (by simpa using hkey.symm) (by simpa using (hkey.trans heq).symm)

theorem place_messageFrom (record : Record β) :
    place (messageFrom topic record) = toLex (record.partition, record.offset) := rfl

/-- **The page is in order**, and shows nothing twice. -/
theorem pairwise_pageOf
    (h : records.Pairwise fun a b => a.partition = b.partition → a.offset < b.offset) :
    (pageOf topic records).Pairwise fun a b => place a.message < place b.message := by
  rw [← List.pairwise_map (f := Row.message) (R := fun a b => place a < place b),
    map_message_pageOf]
  have hsorted := List.pairwise_insertionSort
    (fun a b : MessageItem β => place a ≤ place b) (records.map (messageFrom topic))
  have hdistinct : (records.map (messageFrom topic)).Pairwise fun a b => place a ≠ place b := by
    rw [List.pairwise_map]
    refine h.imp fun {a b} hless heq => ?_
    rw [place_messageFrom, place_messageFrom, toLex_inj, Prod.mk.injEq] at heq
    have := hless heq.1
    omega
  -- sorting puts equal places next to each other, and no two are equal
  have hplaces := ((List.perm_insertionSort (fun a b : MessageItem β => place a ≤ place b)
    (records.map (messageFrom topic))).pairwise_iff fun hne => Ne.symm hne).mpr hdistinct
  exact (hsorted.and hplaces).imp fun h => lt_of_le_of_ne h.1 h.2

/-- What a read returns is what its consumer handed out, and of it what is looked for. -/
theorem readRecords_sublist {limit : Nat} {matching : Option (Record β → Bool)}
    {e : ListedOffsets} (h : readRecords offsets e limit matching rounds = some records) :
    records.Sublist ((handedOut rounds).filter (query offsets e limit matching).wants) ∧
      records.length ≤ limit := by
  rw [readRecords] at h
  split at h
  · cases h
    exact ⟨List.nil_sublist _, Nat.zero_le _⟩
  · obtain ⟨hfront, hlength⟩ := readLoop_prefix (Nat.zero_le _) h
    exact ⟨hfront.sublist, hlength⟩

variable (logs params key offsets page) in
/-- **A page in order**: numbered from one, by partition and offset, within the limit; and a row shows
    a record that can be read, from where its partition was begun, with the key that is looked for. -/
structure InOrder : Prop where
  ids : page.map Row.id = List.range' 1 page.length
  sorted : page.Pairwise fun a b => place a.message < place b.message
  within : page.length ≤ params.limit
  shown : ∀ message ∈ page.map Row.message, ∃ position ∈ offsets.entries,
    ∃ record ∈ ahead logs position, message = messageFrom params.topic record ∧
      ∀ matching ∈ matcherFor params key, matching record = true

/-- **Every page is in order**, whatever its mode, and however its read ends. -/
theorem page_in_order
    (h : queryMessages params key (some starts) (some ends) timestamps rounds = .ok page)
    (hplan : browseOffsets params starts ends timestamps = .ok offsets)
    (hserved : Consumes logs offsets.entries rounds) : InOrder logs params key offsets page := by
  obtain ⟨records, hrecords, rfl⟩ := queryMessages_ok h hplan
  obtain ⟨hsub, hlength⟩ := readRecords_sublist hrecords
  have hpart := hsub.trans List.filter_sublist
  constructor
  case ids => exact ids_pageOf _ _
  case sorted => exact pairwise_pageOf ((pairwise_handedOut hserved).sublist hpart)
  case within => rwa [length_pageOf]
  case shown =>
    intro message hmessage
    obtain ⟨record, hrecord, rfl⟩ := mem_pageOf.mp hmessage
    obtain ⟨hhanded, hwanted⟩ := List.mem_filter.mp (hsub.subset hrecord)
    obtain ⟨position, hposition, hkey⟩ := List.mem_map.mp (hserved.2 record hhanded)
    refine ⟨position, hposition, record, ?_, rfl, ?_⟩
    · exact (hserved.1 position hposition).subset
        (List.mem_filter.mpr ⟨hhanded, by simpa using hkey.symm⟩)
    · intro matching hmatching
      rw [Query.wants, query, Option.mem_def.mp hmatching] at hwanted
      exact hwanted

theorem page_in_order_latest : InOrder threeRecords latestTwo ownKey (.one 0 1)
    (pageOf "orders" [⟨0, 1, "b"⟩, ⟨0, 2, "c"⟩]) := by
  have h : queryMessages latestTwo ownKey (some threeStarts) (some threeEnds) none lastRounds =
      .ok (pageOf "orders" [⟨0, 1, "b"⟩, ⟨0, 2, "c"⟩]) := by decide +kernel
  have hplan : browseOffsets latestTwo threeStarts threeEnds none = .ok (.one 0 1) :=
    planned_one (by decide +kernel)
  exact page_in_order h hplan (by decide +kernel)

end Order

/-! ## What a page misses -/

section Missed

variable {logs : Int → Log β} {params : Params} {key : β → List UInt8} {starts ends : Listing}
  {timestamps : Option Listing} {offsets : Offsets} {rounds : List (Round β)}
  {page : List (Row β)} {records : List (Record β)} {record : Record β} {q : Query β}
  {reading : Reading β} {e : ListedOffsets} {limit : Nat} {matching : Option (Record β → Bool)}
  {position : Int × Int}

variable (logs offsets rounds e matching) in
/-- **A read in full**: every poll brings something, what is due is among it, and a search is not cut
    off. -/
structure InFull : Prop where
  brings : ∀ round ∈ rounds, round.deadline = false ∧ round.failed = false ∧ round.records ≠ []
  whole : ∀ record ∈ due logs offsets e, record ∈ handedOut rounds
  scanned : matching.isSome = true → (handedOut rounds).length < scanLimit

/-- A loop whose polls all bring something takes in some of them, up to the last or until it has had
    enough. -/
theorem readLoop_brings
    (hbrings : ∀ round ∈ rounds, round.deadline = false ∧ round.failed = false ∧
      round.records ≠ []) (h : q.readLoop rounds reading = some records) :
    ∃ n, records = ((handedOut (rounds.take n)).foldl q.eachRecord reading).records ∧
      (rounds.length ≤ n ∨ q.goesOn ((handedOut (rounds.take n)).foldl q.eachRecord reading) = false ∨
        q.exhausted ((handedOut (rounds.take n)).foldl q.eachRecord reading) = true) := by
  induction rounds generalizing reading with
  | nil =>
    cases h
    exact ⟨0, rfl, .inl (le_refl 0)⟩
  | cons round rest ih =>
    obtain ⟨hdeadline, hfailed, hsome⟩ := hbrings round List.mem_cons_self
    rw [Query.readLoop, hdeadline, hfailed] at h
    split at h
    · rename_i hstop
      cases h
      exact ⟨0, rfl, .inr (.inl (eq_false_of_ne_true fun hgoes => hstop hgoes))⟩
    · simp only [Bool.false_eq_true, if_false] at h
      split at h
      · rename_i hexhausted
        cases h
        have hone : handedOut ((round :: rest).take 1) = round.records := by
          simp [handedOut]
        exact ⟨1, by rw [hone], .inr (.inr (by rw [hone]; exact hexhausted))⟩
      · obtain ⟨n, hrecords, hends⟩ := ih (fun later hlater =>
          hbrings later (List.mem_cons_of_mem _ hlater)) h
        have hmore : handedOut ((round :: rest).take (n + 1)) =
            round.records ++ handedOut (rest.take n) := List.flatMap_cons
        refine ⟨n + 1, ?_, ?_⟩
        · rw [hmore, List.foldl_append]
          exact hrecords
        · rw [hmore, List.foldl_append, List.length_cons]
          exact hends.imp_left Nat.succ_le_succ

/-- Where as many partitions are done as are read, each of them is. -/
theorem mem_done_of_taken {taken : List (Record β)}
    (hkeys : ∀ record ∈ taken, record.partition ∈ (consumed offsets e).map Prod.fst)
    (h : (consumed offsets e).length ≤
      (taken.foldl (query offsets e limit matching).eachRecord .start).done.length)
    (hposition : position ∈ consumed offsets e) :
    ∃ record ∈ taken, record.partition = position.1 ∧
      offsetAt e position.1 ≤ record.offset + 1 := by
  have hdone : (taken.foldl (query offsets e limit matching).eachRecord .start).done ⊆
      (consumed offsets e).map Prod.fst := by
    intro partition hpartition
    rcases (mem_foldl_done _ _).mp hpartition with hnone | ⟨record, hrecord, rfl, _⟩
    · cases hnone
    · exact hkeys record hrecord
  have hperm := (List.subperm_of_subset (nodup_foldl_done List.nodup_nil _)
    hdone).perm_of_length_le (by rwa [List.length_map])
  rcases (mem_foldl_done _ _).mp
    (hperm.symm.subset (List.mem_map.mpr ⟨position, hposition, rfl⟩)) with hnone | h
  · cases hnone
  · rwa [remaining_consumed hposition] at h

/-- What comes before a record of a front part is in it. -/
theorem mem_front {front whole : List (Record β)} {last : Record β} (h : front <+: whole)
    (hordered : whole.Pairwise fun a b => a.offset < b.offset) (hlast : last ∈ front)
    (hrecord : record ∈ whole) (hle : record.offset ≤ last.offset) : record ∈ front := by
  obtain ⟨behind, rfl⟩ := h
  rcases List.mem_append.mp hrecord with hfront | hbehind
  · exact hfront
  · have := (List.pairwise_append.mp hordered).2.2 last hlast record hbehind
    omega

/-- **A read with room left has missed nothing.** -/
theorem missed_nothing (hserved : Consumes logs (consumed offsets e) rounds)
    (hfull : InFull logs offsets rounds e matching)
    (h : readRecords offsets e limit matching rounds = some records)
    (hroom : records.length < limit) (hdue : record ∈ due logs offsets e)
    (hwanted : (query offsets e limit matching).wants record = true) : record ∈ records := by
  obtain ⟨position, hposition, hbelow⟩ := List.mem_flatMap.mp hdue
  obtain ⟨hahead, hless⟩ := mem_below.mp hbelow
  rw [readRecords, if_neg (List.ne_nil_of_mem hposition)] at h
  obtain ⟨n, rfl, hends⟩ := readLoop_brings hfull.brings h
  have hfront : handedOut (rounds.take n) <+: handedOut rounds := by
    conv => rhs; rw [← List.take_append_drop n rounds]
    rw [handedOut, handedOut, List.flatMap_append]
    exact List.prefix_append _ _
  rw [foldl_records (Nat.zero_le _)] at hroom ⊢
  have hshort : ((handedOut (rounds.take n)).filter (query offsets e limit matching).wants).length ≤
      (query offsets e limit matching).limit := by
    have hsame : (query offsets e limit matching).limit = limit := rfl
    rw [Reading.start, List.nil_append, List.length_take] at hroom
    omega
  rw [Reading.start, List.nil_append, List.take_of_length_le hshort]
  refine List.mem_filter.mpr ⟨?_, hwanted⟩
  rcases hends with hall | hstops | hexhausted
  · rw [List.take_of_length_le hall]
    exact hfull.whole record hdue
  · rw [Query.goesOn, Bool.and_eq_false_iff, decide_eq_false_iff_not, decide_eq_false_iff_not]
      at hstops
    rcases hstops with hmany | hdone
    · rw [foldl_records (Nat.zero_le _)] at hmany
      exact absurd hroom hmany
    · -- Every partition was read to its end, and to there in order.
      obtain ⟨last, hlast, hown, hend⟩ := mem_done_of_taken
        (fun r hr => hserved.2 r (hfront.subset hr)) (Nat.le_of_not_lt hdone) hposition
      have hpart := (hfront.filter (·.partition = position.1)).trans (hserved.1 position hposition)
      exact (List.mem_filter.mp (mem_front hpart (pairwise_ahead logs position)
        (List.mem_filter.mpr ⟨hlast, by simpa using hown⟩) hahead (by omega))).1
  · rw [Query.exhausted, Bool.and_eq_true, decide_eq_true_eq, foldl_scanned] at hexhausted
    have hscan := hfull.scanned hexhausted.1
    have hlength := hfront.length_le
    have hzero : (Reading.start : Reading β).scanned = 0 := rfl
    omega

/-- **A page with room left has missed nothing** of what it was to read. -/
theorem short_page
    (h : queryMessages params key (some starts) (some ends) timestamps rounds = .ok page)
    (hplan : browseOffsets params starts ends timestamps = .ok offsets)
    (hserved : Consumes logs offsets.entries rounds)
    (hfull : InFull logs offsets rounds ends.offsets (matcherFor params key))
    (hroom : page.length < params.limit) (hposition : position ∈ offsets.entries)
    (hahead : record ∈ ahead logs position)
    (hless : record.offset < offsetAt ends.offsets position.1)
    (hwanted : ∀ matching ∈ matcherFor params key, matching record = true) :
    messageFrom params.topic record ∈ page.map Row.message := by
  obtain ⟨records, hrecords, rfl⟩ := queryMessages_ok h hplan
  have hconsumed := consumed_planned hplan
  rw [length_pageOf] at hroom
  refine mem_pageOf.mpr ⟨record, ?_, rfl⟩
  refine missed_nothing (by rwa [hconsumed]) hfull hrecords hroom ?_ ?_
  · rw [due, hconsumed]
    exact List.mem_flatMap.mpr ⟨position, hposition, mem_below.mpr ⟨hahead, hless⟩⟩
  · rw [Query.wants, query]
    cases hmatching : matcherFor params key with
    | none => rfl
    | some matching => exact hwanted matching hmatching

theorem clamp_of_between {offset start last : Int} (hstart : start ≤ offset)
    (hlast : offset ≤ last) : clamp offset start last = offset := by
  rw [clamp, if_neg (by omega), if_neg (by omega)]

/-- A search begins where the log does. -/
theorem startOffset_key {shares : Int → Int} {starts ends timestamps : ListedOffsets} {p : Int}
    (hmode : params.mode = modeKey) (h : Readable starts ends p) :
    startOffset params shares starts ends timestamps p = .ok (some (offsetAt starts p)) := by
  obtain ⟨hstart, hlast, hless⟩ := h
  have hread : params.readMode = modeKey := by
    rw [Params.readMode, hmode]
    rfl
  have hfrom : readFrom params shares timestamps p (offsetAt starts p) (offsetAt ends p) =
      .ok (some (offsetAt starts p)) := by
    rw [readFrom, hread, if_neg (by decide), if_pos rfl]
  simp only [startOffset, hfrom, clamp_of_between (le_refl _) hless.le]
  rw [if_neg (by omega), if_neg (by omega)]

/-- **A search that comes back short has found every record with the key**, of the partitions that
    were requested and below their ends. -/
theorem search_misses_nothing {wanted : List Int}
    (h : queryMessages params key (some starts) (some ends) timestamps rounds = .ok page)
    (hplan : browseOffsets params starts ends timestamps = .ok offsets)
    (hserved : Consumes logs offsets.entries rounds)
    (hfull : InFull logs offsets rounds ends.offsets (matcherFor params key))
    (hroom : page.length < params.limit) (hmode : params.mode = modeKey)
    (hwanted : requestedPartitions params ends = .ok wanted) :
    ∀ p ∈ wanted, Readable starts.offsets ends.offsets p → ∀ record ∈ readable logs p,
      offsetAt starts.offsets p ≤ record.offset → record.offset < offsetAt ends.offsets p →
        key record.content = Utf8.encode (Storage.trimSpace params.messageKey).toList →
          messageFrom params.topic record ∈ page.map Row.message := by
  intro p hp hreadable record hrecord hfirst hless hkey
  obtain ⟨requested, hrequested, hentries⟩ := browseOffsets_ok hplan
  cases hrequested.symm.trans hwanted
  have hposition : (p, offsetAt starts.offsets p) ∈ offsets.entries := by
    rw [startOffsets, if_neg (List.ne_nil_of_mem hp)] at hentries
    split at hentries
    · cases hentries
    · exact (mem_offsetsOf hentries).mpr ⟨hp, startOffset_key hmode hreadable⟩
  refine short_page h hplan hserved hfull hroom hposition
    (mem_ahead.mpr ⟨hrecord, hfirst⟩) hless ?_
  intro matching hmatching
  rw [matcherFor] at hmatching
  split at hmatching
  · cases hmatching
  · cases hmatching
    exact decide_eq_true hkey

theorem search_misses_nothing_keyed : ∃ page,
    queryMessages keyedB ownKey (some threeStarts) (some threeEnds) none allRounds = .ok page ∧
      messageFrom "orders" ⟨0, 1, "b"⟩ ∈ page.map Row.message := by
  have h : queryMessages keyedB ownKey (some threeStarts) (some threeEnds) none allRounds =
      .ok (pageOf "orders" [⟨0, 1, "b"⟩]) := by decide +kernel
  have hplan : browseOffsets keyedB threeStarts threeEnds none = .ok (.one 0 0) :=
    planned_one (by decide +kernel)
  have hserved : Consumes threeRecords (Offsets.one 0 0).entries allRounds := by decide +kernel
  exact ⟨_, h, search_misses_nothing h hplan hserved
    ⟨by decide +kernel, by decide +kernel, by decide +kernel⟩ (by decide +kernel) rfl rfl
    0 (by decide) ⟨by decide, by decide, by decide⟩ ⟨0, 1, "b"⟩ (by decide +kernel) (by decide)
    (by decide) (by decide +kernel)⟩

end Missed

end MqStudio.Driver.Kafka.Browse
