import Mathlib.Algebra.Order.BigOperators.Group.Finset
import Mathlib.Algebra.GroupWithZero.Nat
import MqStudio.Driver.KafkaBrowse
import MqStudio.Lib.Int64

/-!
# Deleting Records of a Kafka Topic

`PurgeQueue` and `DropMessages` of `internal/driver/kafka/topic_action.go`. Both ask the broker to
move the start of each partition forward, the first to where the partition ends, the second by a
number of offsets. A partition that a listing does not answer for is left out of the request.

The broker and its client are outside the repository. A listing may lack a partition or answer an
error for it, and is right about the others; a deletion may fail as a whole or for a partition, and
moves the start of the others.

## Main results

- `mem_dropTargets`: where a drop moves the start of a partition to.
- `deletions_right_iff`: a purge, and a drop, does what it reports exactly where every partition that
  has something can be read, and no sum runs over and no offset counted is without a record.
- `counted_iff`: what the count of a drop says of the offsets passed over.
- `partition_left_full`: a purge reports success while a partition keeps its records.
-/

namespace MqStudio.Driver.Kafka.Delete

open MqStudio.Lib
open MqStudio.Driver.Kafka.Browse

variable {β : Type}

/-! ## The topic -/

/-- Where a log ends. -/
def endOf (log : Log β) : Int := log.first + log.slots.length

/-- A topic: its partitions, and a log for each, whose offsets are 64-bit integers. -/
structure Topic (β : Type) where
  partitions : List Int
  logs : Int → Log β
  distinct : partitions.Nodup
  bounded : ∀ p, endOf (logs p) < 2 ^ 63

/-- A listing of a topic that is right where it answers. -/
structure Topic.Lists (topic : Topic β) (actual : Log β → Int) (listing : ListedOffsets) : Prop where
  distinct : (listing.map Prod.fst).Nodup
  known : ∀ listed ∈ listing, listed.1 ∈ topic.partitions
  right : ∀ p offset, (p, some offset) ∈ listing → 0 ≤ offset → offset = actual (topic.logs p)

/-- The listing answers for the partition. -/
def Readable (listing : ListedOffsets) (p : Int) : Prop := 0 ≤ offsetAt listing p

instance (listing : ListedOffsets) (p : Int) : Decidable (Readable listing p) :=
  inferInstanceAs (Decidable (_ ≤ _))

/-! ## The requests -/

/-- What becomes of `DeleteRecords`: whether it gets through, and the partitions it fails for. -/
structure Answer where
  arrives : Bool
  fails : Int → Bool

/-- What the two functions report. -/
inductive Problem where
  | listing
  /-- topic not found -/
  | topicNotFound
  /-- a number of records to drop is required -/
  | numberRequired
  | request
  | partition (p : Int)
  deriving DecidableEq

/-- `deleteRecords` -/
def deleteRecords (answer : Answer) (targets : List (Int × Int)) : Except Problem Unit :=
  if ¬ answer.arrives then .error .request
  else
    match targets.find? fun target => answer.fails target.1 with
    | some target => .error (.partition target.1)
    | none => .ok ()

/-- The targets of `PurgeQueue`. -/
def purgeTargets (ends : ListedOffsets) : List (Int × Int) :=
  ends.filterMap fun listed =>
    listed.2.bind fun offset => if offset < 0 then none else some (listed.1, offset)

/-- `PurgeQueue` -/
def purgeQueue (ends : Option ListedOffsets) (answer : Answer) : Except Problem Unit :=
  match ends with
  | none => .error .listing
  | some ends =>
    if purgeTargets ends = [] then .error .topicNotFound
    else deleteRecords answer (purgeTargets ends)

/-- One partition in the loop of `DropMessages`: its target, and what it adds to the count. -/
def dropTarget (limit : Int) (ends : ListedOffsets) (listed : Int × Option Int) :
    Option (Int × Int × Int) :=
  listed.2.bind fun start =>
    if start < 0 then none
    else if offsetAt ends listed.1 < 0 then none
    else
      let sum := int64 (start + limit)
      let target := if offsetAt ends listed.1 < sum then offsetAt ends listed.1 else sum
      if target ≤ start then none else some (listed.1, target, target - start)

/-- The targets of `DropMessages`. -/
def dropTargets (limit : Int) (starts ends : ListedOffsets) : List (Int × Int × Int) :=
  starts.filterMap (dropTarget limit ends)

/-- The count of `DropMessages`. -/
def dropped (targets : List (Int × Int × Int)) : Int :=
  targets.foldl (fun dropped target => int64 (dropped + target.2.2)) 0

/-- The targets as they are sent. -/
def offsetsOf (targets : List (Int × Int × Int)) : List (Int × Int) :=
  targets.map fun target => (target.1, target.2.1)

/-- `DropMessages` -/
def dropMessages (starts ends : Option ListedOffsets) (limit : Int) (answer : Answer) :
    Except Problem Int :=
  if limit ≤ 0 then .error .numberRequired
  else
    match starts with
    | none => .error .listing
    | some starts =>
      match ends with
      | none => .error .listing
      | some ends =>
        let targets := dropTargets limit starts ends
        if targets = [] then .ok 0
        else
          match deleteRecords answer (offsetsOf targets) with
          | .error problem => .error problem
          | .ok () => .ok (dropped targets)

/-! ## What the broker does -/

/-- The start of a log moves forward. -/
def cutTo (log : Log β) (offset : Int) : Log β :=
  ⟨log.first + (offset - log.first).toNat, log.slots.drop (offset - log.first).toNat⟩

/-- The logs after a deletion that gets through. -/
def deleted (answer : Answer) (targets : List (Int × Int)) (logs : Int → Log β) (p : Int) : Log β :=
  match targets.lookup p with
  | some offset => if answer.fails p then logs p else cutTo (logs p) offset
  | none => logs p

/-- The records of a partition that can be read. -/
def recordsOf (p : Int) (log : Log β) : List (Browse.Record β) := readableFrom p log.first log.slots

/-- A purge that reports success has emptied every partition up to the end it had. -/
def PurgeRight (topic : Topic β) (ends : Option ListedOffsets) (answer : Answer) : Prop :=
  purgeQueue ends answer = .ok () → ∀ p ∈ topic.partitions,
    deleted answer (purgeTargets (ends.getD [])) topic.logs p =
      ⟨(topic.logs p).first + (topic.logs p).slots.length, []⟩

/-- How many records a drop is to take from a partition. -/
def wanted (topic : Topic β) (limit : Int) (p : Int) : Nat :=
  min limit.toNat (recordsOf p (topic.logs p)).length

/-- A drop that reports a number without an error has taken from every partition its oldest records,
as many as asked for or all it has, and the number is theirs. -/
def DropRight (topic : Topic β) (starts ends : Option ListedOffsets) (limit : Int)
    (answer : Answer) : Prop :=
  ∀ n, dropMessages starts ends limit answer = .ok n →
    (∀ p ∈ topic.partitions,
      recordsOf p (deleted answer
          (offsetsOf (dropTargets limit (starts.getD []) (ends.getD []))) topic.logs p) =
        (recordsOf p (topic.logs p)).drop (wanted topic limit p)) ∧
    n = (topic.partitions.map fun p => (wanted topic limit p : Int)).sum

/-! ## Lookups -/

section Lookups

variable {γ δ : Type}

theorem lookup_eq_some_iff {entries : List (Int × γ)} (h : (entries.map Prod.fst).Nodup) {p : Int}
    {v : γ} : entries.lookup p = some v ↔ (p, v) ∈ entries := by
  induction entries with
  | nil => simp
  | cons entry rest ih =>
    obtain ⟨hfirst, hrest⟩ := List.nodup_cons.mp h
    rw [List.lookup_cons, List.mem_cons]
    by_cases hp : p = entry.1
    · subst hp
      simp only [beq_self_eq_true, Option.some.injEq]
      constructor
      · rintro rfl
        exact .inl rfl
      · rintro (hsame | hlater)
        · rw [← hsame]
        · exact absurd (List.mem_map.mpr ⟨_, hlater, rfl⟩) hfirst
    · have hne : (p == entry.1) = false := beq_eq_false_iff_ne.mpr hp
      rw [hne]
      simp only
      rw [ih hrest]
      constructor
      · exact .inr
      · rintro (hsame | hlater)
        · exact absurd (congrArg Prod.fst hsame) hp
        · exact hlater

/-- Targets keep the order of the partitions that they are made of. -/
theorem keys_filterMap_sublist {step : Int × γ → Option (Int × δ)}
    (hstep : ∀ entry made, step entry = some made → made.1 = entry.1) (entries : List (Int × γ)) :
    ((entries.filterMap step).map Prod.fst).Sublist (entries.map Prod.fst) := by
  induction entries with
  | nil => simp
  | cons entry rest ih =>
    cases hmade : step entry with
    | none =>
      rw [List.filterMap_cons_none hmade, List.map_cons]
      exact ih.cons _
    | some made =>
      rw [List.filterMap_cons_some hmade, List.map_cons, List.map_cons, hstep entry made hmade]
      exact ih.cons_cons _

end Lookups

variable {topic : Topic β} {actual : Log β → Int} {listing : ListedOffsets} {p : Int}

/-- A listing that answers has the partition, and is right about it. -/
theorem Topic.Lists.readable (h : topic.Lists actual listing) (hread : Readable listing p) :
    p ∈ topic.partitions ∧ (p, some (offsetAt listing p)) ∈ listing ∧
      offsetAt listing p = actual (topic.logs p) := by
  unfold Readable at hread
  cases hlookup : (listing.lookup p).join with
  | none =>
    rw [offsetAt, hlookup] at hread
    exact absurd hread (by decide)
  | some offset =>
    have hoffset : offsetAt listing p = offset := by rw [offsetAt, hlookup]; rfl
    have hmem := (lookup_eq_some_iff h.distinct).mp (Option.join_eq_some_iff.mp hlookup)
    rw [hoffset] at hread ⊢
    exact ⟨h.known _ hmem, hmem, h.right p offset hmem hread⟩

/-- An answer in the listing is what is read of the partition. -/
theorem Topic.Lists.offsetAt_of_mem (h : topic.Lists actual listing) {answered : Option Int}
    (hmem : (p, answered) ∈ listing) : offsetAt listing p = answered.getD (-1) := by
  rw [offsetAt, (lookup_eq_some_iff h.distinct).mpr hmem]
  cases answered <;> rfl

theorem deleteRecords_eq_ok {answer : Answer} {targets : List (Int × Int)} :
    deleteRecords answer targets = .ok () ↔
      answer.arrives = true ∧ ∀ target ∈ targets, answer.fails target.1 = false := by
  unfold deleteRecords
  cases harrives : answer.arrives with
  | false => simp
  | true =>
    cases hfind : targets.find? fun target => answer.fails target.1 with
    | none =>
      have hnone := List.find?_eq_none.mp hfind
      simpa using hnone
    | some target =>
      have hfails := List.find?_some hfind
      simp only [not_true_eq_false, if_false, true_and]
      constructor
      · intro h
        cases h
      · intro h
        rw [h target (List.mem_of_find?_eq_some hfind)] at hfails
        cases hfails

/-- A partition with a target is cut there, unless its deletion fails. -/
theorem deleted_of_mem {answer : Answer} {targets : List (Int × Int)}
    (h : (targets.map Prod.fst).Nodup) {offset : Int} (hmem : (p, offset) ∈ targets)
    (hfails : answer.fails p = false) (logs : Int → Log β) :
    deleted answer targets logs p = cutTo (logs p) offset := by
  rw [deleted, (lookup_eq_some_iff h).mpr hmem]
  simp [hfails]

/-- A partition without a target stays as it is. -/
theorem deleted_of_not_mem {answer : Answer} {targets : List (Int × Int)}
    (h : (targets.map Prod.fst).Nodup) (hnone : ∀ offset, (p, offset) ∉ targets)
    (logs : Int → Log β) : deleted answer targets logs p = logs p := by
  unfold deleted
  cases hlookup : targets.lookup p with
  | none => rfl
  | some offset => exact absurd ((lookup_eq_some_iff h).mp hlookup) (hnone offset)

/-! ## Cuts -/

theorem readableFrom_append (first : Nat) (slots later : List (Slot β)) :
    readableFrom p first (slots ++ later) =
      readableFrom p first slots ++ readableFrom p (first + slots.length) later := by
  induction slots generalizing first with
  | nil => rfl
  | cons slot rest ih =>
    have hnext : first + 1 + rest.length = first + (slot :: rest).length := by
      rw [List.length_cons]
      omega
    cases slot with
    | record content =>
      show _ :: readableFrom p (first + 1) (rest ++ later) = _
      rw [ih, hnext]
      rfl
    | aborted _ | marker | removed =>
      show readableFrom p (first + 1) (rest ++ later) = _
      rw [ih, hnext]
      rfl

/-- How many of the first offsets of a log hold a record. -/
def recordsWithin (p : Int) (log : Log β) (n : Nat) : Nat :=
  (readableFrom p log.first (log.slots.take n)).length

theorem recordsWithin_le (p : Int) (log : Log β) (n : Nat) :
    recordsWithin p log n ≤ (recordsOf p log).length := by
  have h := congrArg List.length (readableFrom_append (p := p) log.first (log.slots.take n)
    (log.slots.drop n))
  rw [List.take_append_drop, List.length_append] at h
  unfold recordsWithin recordsOf
  omega

/-- A cut takes the records of the offsets that it passes over. -/
theorem recordsOf_cutTo {log : Log β} {n : Nat} (h : n ≤ log.slots.length) :
    recordsOf p (cutTo log (log.first + n)) = (recordsOf p log).drop (recordsWithin p log n) := by
  have hn : (((log.first : Int) + n) - log.first).toNat = n := by omega
  have hsplit := readableFrom_append (p := p) log.first (log.slots.take n) (log.slots.drop n)
  rw [List.take_append_drop, List.length_take_of_le h] at hsplit
  unfold recordsOf recordsWithin cutTo
  rw [hn, hsplit, List.drop_left]

theorem cutTo_end (log : Log β) : cutTo log (endOf log) = ⟨log.first + log.slots.length, []⟩ := by
  have hn : (endOf log - log.first).toNat = log.slots.length := by
    unfold endOf
    omega
  unfold cutTo
  rw [hn, List.drop_length]

/-- Taking too few or too many shows in what is left. -/
theorem drop_eq_drop_iff {α : Type} {l : List α} {m n : Nat} (hm : m ≤ l.length)
    (hn : n ≤ l.length) : l.drop m = l.drop n ↔ m = n := by
  constructor
  · intro h
    have := congrArg List.length h
    rw [List.length_drop, List.length_drop] at this
    omega
  · rintro rfl
    rfl

/-! ## Purges -/

section Purge

variable {ends : ListedOffsets} {answer : Answer}

theorem mem_purgeTargets (hends : topic.Lists endOf ends) {offset : Int} :
    (p, offset) ∈ purgeTargets ends ↔ Readable ends p ∧ offset = endOf (topic.logs p) := by
  unfold purgeTargets
  simp only [List.mem_filterMap, Option.bind_eq_some_iff, Prod.exists]
  constructor
  · rintro ⟨q, answered, hmem, listed, rfl, hstep⟩
    split at hstep
    · cases hstep
    · rename_i hlisted
      cases hstep
      refine ⟨?_, hends.right p offset hmem (by omega)⟩
      unfold Readable
      rw [hends.offsetAt_of_mem hmem]
      exact not_lt.mp hlisted
  · rintro ⟨hread, rfl⟩
    obtain ⟨-, hmem, hactual⟩ := hends.readable hread
    refine ⟨p, _, hmem, _, rfl, ?_⟩
    rw [if_neg (not_lt.mpr hread), hactual]

theorem nodup_purgeTargets (hends : topic.Lists endOf ends) :
    ((purgeTargets ends).map Prod.fst).Nodup := by
  refine (keys_filterMap_sublist ?_ ends).nodup hends.distinct
  intro entry made hmade
  simp only [Option.bind_eq_some_iff] at hmade
  obtain ⟨offset, -, hstep⟩ := hmade
  split at hstep
  · cases hstep
  · cases hstep
    rfl

/-- When a purge reports success. -/
theorem purgeQueue_eq_ok (hends : topic.Lists endOf ends) :
    purgeQueue (some ends) answer = .ok () ↔
      (∃ p, Readable ends p) ∧ answer.arrives = true ∧
        ∀ p, Readable ends p → answer.fails p = false := by
  have hmem : ∀ p, Readable ends p ↔ ∃ offset, (p, offset) ∈ purgeTargets ends := by
    intro p
    simp only [mem_purgeTargets hends, exists_and_left, exists_eq, and_true]
  unfold purgeQueue
  by_cases hnone : purgeTargets ends = []
  · simp only [hmem, hnone, if_true, List.not_mem_nil, exists_false, false_and]
    constructor
    · intro h
      cases h
    · exact False.elim
  · simp only [hnone, if_false, deleteRecords_eq_ok]
    obtain ⟨⟨q, offset⟩, hq⟩ := List.exists_mem_of_ne_nil _ hnone
    constructor
    · rintro ⟨harrives, hfails⟩
      refine ⟨⟨q, (hmem q).mpr ⟨offset, hq⟩⟩, harrives, fun p hp => ?_⟩
      obtain ⟨offset, hoffset⟩ := (hmem p).mp hp
      exact hfails _ hoffset
    · rintro ⟨-, harrives, hfails⟩
      exact ⟨harrives, fun target htarget => hfails _ ((hmem _).mpr ⟨_, htarget⟩)⟩

/-- A partition after a purge: at its end, or as it was. -/
theorem deleted_purge (hends : topic.Lists endOf ends)
    (hfails : ∀ p, Readable ends p → answer.fails p = false) (p : Int) :
    deleted answer (purgeTargets ends) topic.logs p =
      if Readable ends p then ⟨(topic.logs p).first + (topic.logs p).slots.length, []⟩
      else topic.logs p := by
  split
  · rename_i hread
    rw [deleted_of_mem (nodup_purgeTargets hends) ((mem_purgeTargets hends).mpr ⟨hread, rfl⟩)
      (hfails p hread), cutTo_end]
  · rename_i hread
    refine deleted_of_not_mem (nodup_purgeTargets hends) (fun offset hmem => ?_) _
    exact hread ((mem_purgeTargets hends).mp hmem).1

/-- **Purges**: a purge does what it reports exactly where, if it gets through, every partition that
has something can be read. -/
theorem purgeRight_iff (hends : topic.Lists endOf ends) :
    PurgeRight topic (some ends) answer ↔
      ((∃ p, Readable ends p) → answer.arrives = true →
        (∀ p, Readable ends p → answer.fails p = false) →
          ∀ p ∈ topic.partitions, (topic.logs p).slots ≠ [] → Readable ends p) := by
  unfold PurgeRight
  rw [purgeQueue_eq_ok hends, Option.getD_some]
  constructor
  · intro h hsome harrives hfails p hp hslots
    have hafter := h ⟨hsome, harrives, hfails⟩ p hp
    rw [deleted_purge hends hfails] at hafter
    by_contra hread
    rw [if_neg hread] at hafter
    exact hslots (congrArg Log.slots hafter)
  · rintro h ⟨hsome, harrives, hfails⟩ p hp
    rw [deleted_purge hends hfails]
    split
    · rfl
    · rename_i hread
      have hslots : (topic.logs p).slots = [] := by
        by_contra hslots
        exact hread (h hsome harrives hfails p hp hslots)
      rw [hslots, List.length_nil, Nat.add_zero, ← hslots]

end Purge

/-! ## Drops -/

section Drop

variable {starts ends : ListedOffsets} {limit : Int} {answer : Answer}

/-- Where a log starts. -/
def startOf (log : Log β) : Int := log.first

/-- How many offsets a drop passes over in a partition: none where a listing does not answer or the
sum of start and limit runs over. -/
def reach (topic : Topic β) (starts ends : ListedOffsets) (limit : Int) (p : Int) : Nat :=
  if Readable starts p ∧ Readable ends p ∧ startOf (topic.logs p) + limit < 2 ^ 63 then
    min limit.toNat (topic.logs p).slots.length
  else 0

theorem reach_le (topic : Topic β) (starts ends : ListedOffsets) (limit p : Int) :
    reach topic starts ends limit p ≤ (topic.logs p).slots.length := by
  unfold reach
  split
  · exact Nat.min_le_right _ _
  · exact Nat.zero_le _

/-- The step of the loop for a partition whose start is read. -/
theorem dropTarget_eq_some (hends : topic.Lists endOf ends) (hlimit : 0 < limit)
    (hbound : limit < 2 ^ 63) {made : Int × Int × Int} :
    dropTarget limit ends (p, some (startOf (topic.logs p))) = some made ↔
      Readable ends p ∧ startOf (topic.logs p) + limit < 2 ^ 63 ∧
        0 < (topic.logs p).slots.length ∧
        made = (p, startOf (topic.logs p) + (min limit.toNat (topic.logs p).slots.length : Nat),
          ((min limit.toNat (topic.logs p).slots.length : Nat) : Int)) := by
  have hstart : 0 ≤ startOf (topic.logs p) := Int.natCast_nonneg _
  have hend : endOf (topic.logs p) = startOf (topic.logs p) + (topic.logs p).slots.length := rfl
  have htop := topic.bounded p
  unfold dropTarget
  simp only [Option.bind_some, not_lt.mpr hstart, if_false]
  by_cases hread : Readable ends p
  · obtain ⟨-, -, hactual⟩ := hends.readable hread
    simp only [hread, true_and, hactual, if_neg (show ¬ endOf (topic.logs p) < 0 by omega)]
    by_cases hover : startOf (topic.logs p) + limit < 2 ^ 63
    · rw [int64_of_range (by omega) hover]
      have htarget : (if endOf (topic.logs p) < startOf (topic.logs p) + limit then
          endOf (topic.logs p) else startOf (topic.logs p) + limit) =
          startOf (topic.logs p) + (min limit.toNat (topic.logs p).slots.length : Nat) := by
        split <;> omega
      rw [htarget]
      by_cases hempty : 0 < (topic.logs p).slots.length
      · rw [if_neg (by omega)]
        have hcount : startOf (topic.logs p) + (min limit.toNat (topic.logs p).slots.length : Nat) -
            startOf (topic.logs p) = (min limit.toNat (topic.logs p).slots.length : Nat) := by omega
        simp only [hover, hempty, true_and, Option.some.injEq, hcount]
        exact eq_comm
      · rw [if_pos (by omega)]
        simp [hempty]
    · -- the sum runs over, and comes out below every start
      have hsum := int64_over (n := startOf (topic.logs p) + limit) (by omega) (by omega)
      have htarget : (if endOf (topic.logs p) < int64 (startOf (topic.logs p) + limit) then
          endOf (topic.logs p) else int64 (startOf (topic.logs p) + limit)) =
          startOf (topic.logs p) + limit - 2 ^ 64 := by
        rw [hsum]
        exact if_neg (by omega)
      rw [htarget, if_pos (by omega)]
      simp only [hover, false_and, reduceCtorEq]
  · have hbelow : offsetAt ends p < 0 := not_le.mp hread
    simp [hbelow, hread]

/-- **Targets of a drop**: a partition whose offsets are passed over, with as many as that. -/
theorem mem_dropTargets (hstarts : topic.Lists startOf starts) (hends : topic.Lists endOf ends)
    (hlimit : 0 < limit) (hbound : limit < 2 ^ 63) {target count : Int} :
    (p, target, count) ∈ dropTargets limit starts ends ↔
      0 < reach topic starts ends limit p ∧
        target = startOf (topic.logs p) + reach topic starts ends limit p ∧
        count = reach topic starts ends limit p := by
  unfold dropTargets
  rw [List.mem_filterMap]
  constructor
  · rintro ⟨⟨q, answered⟩, hmem, hstep⟩
    -- a partition whose start is not read has no target
    obtain ⟨start, rfl, hstart⟩ : ∃ start, answered = some start ∧ 0 ≤ start := by
      unfold dropTarget at hstep
      obtain ⟨start, hstart, hrest⟩ := Option.bind_eq_some_iff.mp hstep
      refine ⟨start, hstart, not_lt.mp fun hneg => ?_⟩
      rw [if_pos hneg] at hrest
      cases hrest
    obtain rfl := hstarts.right q start hmem hstart
    obtain ⟨hread, hover, hempty, hmade⟩ := (dropTarget_eq_some hends hlimit hbound).mp hstep
    obtain ⟨rfl, htarget⟩ := Prod.mk.inj hmade
    have hreadStart : Readable starts p := by
      unfold Readable
      rw [hstarts.offsetAt_of_mem hmem]
      exact hstart
    have hreach : reach topic starts ends limit p = min limit.toNat (topic.logs p).slots.length :=
      if_pos ⟨hreadStart, hread, hover⟩
    rw [hreach]
    exact ⟨by omega, Prod.mk.inj htarget⟩
  · rintro ⟨hpos, htarget, hcount⟩
    by_cases hall : Readable starts p ∧ Readable ends p ∧ startOf (topic.logs p) + limit < 2 ^ 63
    · have hreach : reach topic starts ends limit p = min limit.toNat (topic.logs p).slots.length :=
        if_pos hall
      obtain ⟨-, hmem, hactual⟩ := hstarts.readable hall.1
      rw [hactual] at hmem
      refine ⟨_, hmem, (dropTarget_eq_some hends hlimit hbound).mpr ⟨hall.2.1, hall.2.2, ?_, ?_⟩⟩
      · omega
      · rw [htarget, hcount, hreach]
    · rw [reach, if_neg hall] at hpos
      exact absurd hpos (Nat.lt_irrefl 0)

theorem nodup_dropTargets (hstarts : topic.Lists startOf starts) :
    ((dropTargets limit starts ends).map Prod.fst).Nodup := by
  refine (keys_filterMap_sublist ?_ starts).nodup hstarts.distinct
  intro entry made hmade
  obtain ⟨start, -, hstep⟩ := Option.bind_eq_some_iff.mp hmade
  simp only [Option.ite_none_left_eq_some, Option.some.injEq] at hstep
  obtain ⟨-, -, -, rfl⟩ := hstep
  rfl

theorem keys_offsetsOf (targets : List (Int × Int × Int)) :
    (offsetsOf targets).map Prod.fst = targets.map Prod.fst := by
  simp [offsetsOf, Function.comp_def]

theorem mem_offsetsOf (hstarts : topic.Lists startOf starts) (hends : topic.Lists endOf ends)
    (hlimit : 0 < limit) (hbound : limit < 2 ^ 63) {target : Int} :
    (p, target) ∈ offsetsOf (dropTargets limit starts ends) ↔
      0 < reach topic starts ends limit p ∧
        target = startOf (topic.logs p) + reach topic starts ends limit p := by
  unfold offsetsOf
  simp only [List.mem_map, Prod.exists, Prod.mk.injEq]
  constructor
  · rintro ⟨q, offset, count, hmem, rfl, rfl⟩
    obtain ⟨hpos, htarget, -⟩ := (mem_dropTargets hstarts hends hlimit hbound).mp hmem
    exact ⟨hpos, htarget⟩
  · rintro ⟨hpos, htarget⟩
    exact ⟨p, target, _, (mem_dropTargets hstarts hends hlimit hbound).mpr ⟨hpos, htarget, rfl⟩,
      rfl, rfl⟩

/-- The offsets are added up in a word. -/
theorem dropped_eq (targets : List (Int × Int × Int)) :
    dropped targets = int64 (targets.map fun target => target.2.2).sum := by
  have hfrom : ∀ m : Int, targets.foldl (fun dropped target => int64 (dropped + target.2.2))
      (int64 m) = int64 (m + (targets.map fun target => target.2.2).sum) := by
    induction targets with
    | nil =>
      intro m
      simp
    | cons target rest ih =>
      intro m
      rw [List.foldl_cons, int64_add, ih, List.map_cons, List.sum_cons, Int.add_assoc]
  have hzero := hfrom 0
  rwa [show int64 0 = 0 by decide, Int.zero_add] at hzero

/-- A sum over partitions leaves out those that add nothing. -/
theorem sum_eq_of_keys {partitions keys : List Int} (hpartitions : partitions.Nodup)
    (hkeys : keys.Nodup) (hsub : ∀ k ∈ keys, k ∈ partitions) (f : Int → Int)
    (hzero : ∀ k ∈ partitions, k ∉ keys → f k = 0) :
    (keys.map f).sum = (partitions.map f).sum := by
  rw [← List.sum_toFinset f hkeys, ← List.sum_toFinset f hpartitions]
  refine Finset.sum_subset (fun k hk => ?_) (fun k hk hnot => ?_)
  · rw [List.mem_toFinset] at hk ⊢
    exact hsub k hk
  · rw [List.mem_toFinset] at hk hnot
    exact hzero k hk hnot

/-- The offsets that a drop passes over in the whole topic. -/
def passedOver (topic : Topic β) (starts ends : ListedOffsets) (limit : Int) : Int :=
  (topic.partitions.map fun p => (reach topic starts ends limit p : Int)).sum

theorem dropped_dropTargets (hstarts : topic.Lists startOf starts) (hends : topic.Lists endOf ends)
    (hlimit : 0 < limit) (hbound : limit < 2 ^ 63) :
    dropped (dropTargets limit starts ends) = int64 (passedOver topic starts ends limit) := by
  rw [dropped_eq]
  congr 1
  have hcounts : ((dropTargets limit starts ends).map fun target => target.2.2) =
      ((dropTargets limit starts ends).map Prod.fst).map
        fun p => (reach topic starts ends limit p : Int) := by
    rw [List.map_map]
    refine List.map_congr_left ?_
    rintro ⟨p, target, count⟩ hmem
    exact ((mem_dropTargets hstarts hends hlimit hbound).mp hmem).2.2
  rw [hcounts]
  refine sum_eq_of_keys topic.distinct (nodup_dropTargets hstarts) ?_ _ ?_
  · intro k hk
    obtain ⟨⟨p, target, count⟩, hmem, rfl⟩ := List.mem_map.mp hk
    have hpos := ((mem_dropTargets hstarts hends hlimit hbound).mp hmem).1
    unfold reach at hpos
    split at hpos
    · rename_i hall
      exact (hstarts.readable hall.1).1
    · exact absurd hpos (Nat.lt_irrefl 0)
  · intro k _ hnot
    by_contra hne
    have hmem := (mem_dropTargets hstarts hends hlimit hbound).mpr
      ⟨show 0 < reach topic starts ends limit k by omega, rfl, rfl⟩
    exact hnot (List.mem_map.mpr ⟨_, hmem, rfl⟩)

/-- When a drop reports a number. -/
theorem dropMessages_eq_ok (hstarts : topic.Lists startOf starts) (hends : topic.Lists endOf ends)
    (hlimit : 0 < limit) (hbound : limit < 2 ^ 63) {n : Int} :
    dropMessages (some starts) (some ends) limit answer = .ok n ↔
      (∀ p, 0 < reach topic starts ends limit p → answer.arrives = true ∧ answer.fails p = false) ∧
        n = int64 (passedOver topic starts ends limit) := by
  have hcount := dropped_dropTargets hstarts hends hlimit hbound
  have hmem : ∀ p, 0 < reach topic starts ends limit p ↔
      ∃ target, (p, target) ∈ offsetsOf (dropTargets limit starts ends) := by
    intro p
    simp only [mem_offsetsOf hstarts hends hlimit hbound, exists_and_left, exists_eq, and_true]
  unfold dropMessages
  rw [if_neg (not_le.mpr hlimit), ← hcount]
  simp only
  by_cases hnone : dropTargets limit starts ends = []
  · have hno : ∀ p, ¬ 0 < reach topic starts ends limit p := by
      intro p hp
      obtain ⟨target, htarget⟩ := (hmem p).mp hp
      rw [hnone] at htarget
      exact absurd htarget List.not_mem_nil
    rw [if_pos hnone, hnone]
    constructor
    · intro h
      cases h
      exact ⟨fun p hp => absurd hp (hno p), rfl⟩
    · rintro ⟨-, rfl⟩
      rfl
  · rw [if_neg hnone]
    have hall : deleteRecords answer (offsetsOf (dropTargets limit starts ends)) = .ok () ↔
        ∀ p, 0 < reach topic starts ends limit p →
          answer.arrives = true ∧ answer.fails p = false := by
      rw [deleteRecords_eq_ok]
      constructor
      · rintro ⟨harrives, hfails⟩ p hp
        obtain ⟨target, htarget⟩ := (hmem p).mp hp
        exact ⟨harrives, hfails _ htarget⟩
      · intro h
        obtain ⟨⟨q, target, count⟩, hq⟩ := List.exists_mem_of_ne_nil _ hnone
        have hpos := ((mem_dropTargets hstarts hends hlimit hbound).mp hq).1
        exact ⟨(h q hpos).1, fun target htarget => (h target.1 ((hmem _).mpr ⟨_, htarget⟩)).2⟩
    rw [← hall]
    cases deleteRecords answer (offsetsOf (dropTargets limit starts ends)) with
    | error problem => simp
    | ok done => simpa using eq_comm

/-- A partition after a drop: without the offsets that were passed over. -/
theorem recordsOf_deleted_drop (hstarts : topic.Lists startOf starts)
    (hends : topic.Lists endOf ends) (hlimit : 0 < limit) (hbound : limit < 2 ^ 63)
    (hfails : ∀ p, 0 < reach topic starts ends limit p → answer.fails p = false) (p : Int) :
    recordsOf p (deleted answer (offsetsOf (dropTargets limit starts ends)) topic.logs p) =
      (recordsOf p (topic.logs p)).drop
        (recordsWithin p (topic.logs p) (reach topic starts ends limit p)) := by
  have hnodup : ((offsetsOf (dropTargets limit starts ends)).map Prod.fst).Nodup := by
    rw [keys_offsetsOf]
    exact nodup_dropTargets hstarts
  by_cases hpos : 0 < reach topic starts ends limit p
  · rw [deleted_of_mem hnodup
      ((mem_offsetsOf hstarts hends hlimit hbound).mpr ⟨hpos, rfl⟩) (hfails p hpos)]
    exact recordsOf_cutTo (reach_le topic starts ends limit p)
  · have hzero : reach topic starts ends limit p = 0 := by omega
    rw [deleted_of_not_mem hnodup fun target hmem =>
      hpos ((mem_offsetsOf hstarts hends hlimit hbound).mp hmem).1, hzero]
    rfl

/-- A partition whose records are taken as they should: it has none, or it is read, nothing runs
over, and no offset within the limit is without a record that is still to come. -/
def Taken (topic : Topic β) (starts ends : ListedOffsets) (limit p : Int) : Prop :=
  recordsOf p (topic.logs p) = [] ∨
    (Readable starts p ∧ Readable ends p ∧ startOf (topic.logs p) + limit < 2 ^ 63 ∧
      recordsWithin p (topic.logs p) limit.toNat = wanted topic limit p)

theorem recordsWithin_reach_iff (hlimit : 0 < limit) :
    recordsWithin p (topic.logs p) (reach topic starts ends limit p) = wanted topic limit p ↔
      Taken topic starts ends limit p := by
  have hmin : recordsWithin p (topic.logs p) (min limit.toNat (topic.logs p).slots.length) =
      recordsWithin p (topic.logs p) limit.toNat := by
    unfold recordsWithin
    rw [List.take_eq_take_min (i := limit.toNat)]
  have hle := recordsWithin_le p (topic.logs p) (reach topic starts ends limit p)
  unfold Taken
  by_cases hnone : recordsOf p (topic.logs p) = []
  · have hwanted : wanted topic limit p = 0 := by
      rw [wanted, hnone, List.length_nil, Nat.min_zero]
    rw [hnone, List.length_nil] at hle
    rw [hwanted]
    exact ⟨fun _ => .inl hnone, fun _ => Nat.le_zero.mp hle⟩
  · have hpos := List.length_pos_of_ne_nil hnone
    have hwanted : 0 < wanted topic limit p := by
      unfold wanted
      omega
    simp only [hnone, false_or]
    by_cases hall : Readable starts p ∧ Readable ends p ∧ startOf (topic.logs p) + limit < 2 ^ 63
    · rw [reach, if_pos hall, hmin]
      exact ⟨fun h => ⟨hall.1, hall.2.1, hall.2.2, h⟩, fun h => h.2.2.2⟩
    · rw [reach, if_neg hall]
      have hzero : recordsWithin p (topic.logs p) 0 = 0 := rfl
      rw [hzero]
      constructor
      · intro h
        omega
      · rintro ⟨hstart, hend, hover, -⟩
        exact absurd ⟨hstart, hend, hover⟩ hall

theorem readableFrom_length_le (first : Nat) (slots : List (Slot β)) :
    (readableFrom p first slots).length ≤ slots.length := by
  induction slots generalizing first with
  | nil => exact Nat.le_refl 0
  | cons slot rest ih =>
    have hrest := ih (first + 1)
    cases slot <;> simp only [readableFrom, List.length_cons] <;> omega

theorem recordsWithin_le_self (p : Int) (log : Log β) (n : Nat) : recordsWithin p log n ≤ n :=
  (readableFrom_length_le _ _).trans (List.length_take_le _ _)

/-- Where the sum does not run over, as many offsets are counted as records exactly if every offset
that is passed over holds one. -/
theorem counted_iff (hlimit : 0 < limit)
    (htaken : ∀ p ∈ topic.partitions, Taken topic starts ends limit p)
    (hsmall : passedOver topic starts ends limit < 2 ^ 63) :
    int64 (passedOver topic starts ends limit) =
        (topic.partitions.map fun p => (wanted topic limit p : Int)).sum ↔
      ∀ p ∈ topic.partitions, recordsWithin p (topic.logs p) (reach topic starts ends limit p) =
        reach topic starts ends limit p := by
  have hle : ∀ p ∈ topic.partitions.toFinset,
      (wanted topic limit p : Int) ≤ reach topic starts ends limit p := by
    intro p hp
    rw [← (recordsWithin_reach_iff hlimit).mpr (htaken p (List.mem_toFinset.mp hp))]
    exact_mod_cast recordsWithin_le_self _ _ _
  have hsum : passedOver topic starts ends limit =
      ∑ p ∈ topic.partitions.toFinset, (reach topic starts ends limit p : Int) :=
    (List.sum_toFinset _ topic.distinct).symm
  have hnonneg : 0 ≤ passedOver topic starts ends limit := by
    rw [hsum]
    exact Finset.sum_nonneg fun p _ => Int.natCast_nonneg _
  rw [int64_of_range (by omega) hsmall, hsum, ← List.sum_toFinset _ topic.distinct, eq_comm,
    Finset.sum_eq_sum_iff_of_le hle]
  refine ⟨fun h p hp => ?_, fun h p hp => ?_⟩
  · rw [(recordsWithin_reach_iff hlimit).mpr (htaken p hp)]
    exact_mod_cast h p (List.mem_toFinset.mpr hp)
  · rw [← (recordsWithin_reach_iff hlimit).mpr (htaken p (List.mem_toFinset.mp hp))]
    exact_mod_cast h p (List.mem_toFinset.mp hp)

/-- **Drops**: a drop does what it reports exactly where, if it gets through, each partition's
records are taken as they should, and the offsets passed over, in a word, are as many as the
records. -/
theorem dropRight_iff (hstarts : topic.Lists startOf starts) (hends : topic.Lists endOf ends)
    (hlimit : 0 < limit) (hbound : limit < 2 ^ 63) :
    DropRight topic (some starts) (some ends) limit answer ↔
      ((∀ p, 0 < reach topic starts ends limit p →
          answer.arrives = true ∧ answer.fails p = false) →
        (∀ p ∈ topic.partitions, Taken topic starts ends limit p) ∧
        int64 (passedOver topic starts ends limit) =
          (topic.partitions.map fun p => (wanted topic limit p : Int)).sum) := by
  have hleft : (∀ p, 0 < reach topic starts ends limit p →
      answer.arrives = true ∧ answer.fails p = false) → ∀ p,
        recordsOf p (deleted answer (offsetsOf (dropTargets limit starts ends)) topic.logs p) =
          (recordsOf p (topic.logs p)).drop (wanted topic limit p) ↔
            Taken topic starts ends limit p := by
    intro hdone p
    have hwanted : wanted topic limit p ≤ (recordsOf p (topic.logs p)).length :=
      Nat.min_le_right _ _
    rw [recordsOf_deleted_drop hstarts hends hlimit hbound fun p hp => (hdone p hp).2,
      drop_eq_drop_iff (recordsWithin_le _ _ _) hwanted]
    exact recordsWithin_reach_iff hlimit
  unfold DropRight
  simp only [dropMessages_eq_ok hstarts hends hlimit hbound, Option.getD_some]
  constructor
  · intro h hdone
    obtain ⟨hrecords, hcount⟩ := h _ ⟨hdone, rfl⟩
    exact ⟨fun p hp => (hleft hdone p).mp (hrecords p hp), hcount⟩
  · rintro h n ⟨hdone, rfl⟩
    obtain ⟨htaken, hcount⟩ := h hdone
    exact ⟨fun p hp => (hleft hdone p).mpr (htaken p hp), hcount⟩

end Drop

/-! ## Both -/

/-- What a purge needs: if some partition can be read and the broker deletes what it is asked to,
every partition that has something can be read. -/
def PurgeFits (topic : Topic β) (ends : Option ListedOffsets) (answer : Answer) : Prop :=
  ∀ listing, ends = some listing → (∃ p, Readable listing p) → answer.arrives = true →
    (∀ p, Readable listing p → answer.fails p = false) →
      ∀ p ∈ topic.partitions, (topic.logs p).slots ≠ [] → Readable listing p

/-- What a drop needs: if the broker deletes what it is asked to, every partition's records are taken
as they should, and the offsets passed over, in a word, are as many as the records. -/
def DropFits (topic : Topic β) (starts ends : Option ListedOffsets) (limit : Int)
    (answer : Answer) : Prop :=
  ∀ listing listing', starts = some listing → ends = some listing' → 0 < limit →
    (∀ p, 0 < reach topic listing listing' limit p →
      answer.arrives = true ∧ answer.fails p = false) →
    (∀ p ∈ topic.partitions, Taken topic listing listing' limit p) ∧
      int64 (passedOver topic listing listing' limit) =
        (topic.partitions.map fun p => (wanted topic limit p : Int)).sum

/-- **Purges and drops** do what they report exactly where they fit the topic. -/
theorem deletions_right_iff (topic : Topic β) (starts ends : Option ListedOffsets) (limit : Int)
    (answer answer' : Answer) (hstarts : ∀ l, starts = some l → topic.Lists startOf l)
    (hends : ∀ l, ends = some l → topic.Lists endOf l) (hbound : limit < 2 ^ 63) :
    (PurgeRight topic ends answer ↔ PurgeFits topic ends answer) ∧
      (DropRight topic starts ends limit answer' ↔ DropFits topic starts ends limit answer') := by
  constructor
  · cases ends with
    | none =>
      refine ⟨fun _ listing h => ?_, fun _ h => ?_⟩ <;> cases h
    | some listing =>
      rw [purgeRight_iff (hends listing rfl)]
      constructor
      · rintro h _ ⟨⟩
        exact h
      · exact fun h => h listing rfl
  · by_cases hlimit : 0 < limit
    · cases starts with
      | none =>
        refine ⟨fun _ listing listing' h => ?_, fun _ n h => ?_⟩
        · cases h
        · rw [dropMessages, if_neg (not_le.mpr hlimit)] at h
          cases h
      | some listing =>
        cases ends with
        | none =>
          refine ⟨fun _ listing listing' _ h => ?_, fun _ n h => ?_⟩
          · cases h
          · rw [dropMessages, if_neg (not_le.mpr hlimit)] at h
            cases h
        | some listing' =>
          rw [dropRight_iff (hstarts listing rfl) (hends listing' rfl) hlimit hbound]
          constructor
          · rintro h _ _ ⟨⟩ ⟨⟩ _
            exact h
          · exact fun h => h listing listing' rfl rfl hlimit
    · refine ⟨fun _ _ _ _ _ hpos => absurd hpos hlimit, fun _ n h => ?_⟩
      unfold dropMessages at h
      rw [if_pos (not_lt.mp hlimit)] at h
      cases h

/-! ## A topic of two partitions -/

/-- One record in each of two partitions; of the second one record has aged out before it. -/
def twoPartitions : Topic Unit where
  partitions := [0, 1]
  logs p := if p = 1 then ⟨1, [.record ()]⟩ else ⟨0, [.record ()]⟩
  distinct := by decide
  bounded p := by
    by_cases hp : p = 1 <;> simp [hp, endOf]

/-- A broker that deletes what it is asked to. -/
def willing : Answer := ⟨true, fun _ => false⟩

theorem twoPartitions_starts : twoPartitions.Lists startOf [(0, some 0), (1, some 1)] := by
  refine ⟨by decide, by decide, fun p offset hmem _ => ?_⟩
  simp only [List.mem_cons, Prod.mk.injEq, Option.some.injEq, List.not_mem_nil, or_false] at hmem
  rcases hmem with ⟨rfl, rfl⟩ | ⟨rfl, rfl⟩ <;> rfl

theorem twoPartitions_ends : twoPartitions.Lists endOf [(0, some 1), (1, some 2)] := by
  refine ⟨by decide, by decide, fun p offset hmem _ => ?_⟩
  simp only [List.mem_cons, Prod.mk.injEq, Option.some.injEq, List.not_mem_nil, or_false] at hmem
  rcases hmem with ⟨rfl, rfl⟩ | ⟨rfl, rfl⟩ <;> rfl

theorem twoPartitions_halfEnds : twoPartitions.Lists endOf [(0, some 1), (1, none)] := by
  refine ⟨by decide, by decide, fun p offset hmem _ => ?_⟩
  simp only [List.mem_cons, Prod.mk.injEq, Option.some.injEq, reduceCtorEq, and_false,
    List.not_mem_nil, or_false] at hmem
  obtain ⟨rfl, rfl⟩ := hmem
  rfl

/-- Where both partitions are listed, a purge and a drop of one record do what they report. -/
theorem both_listed :
    PurgeRight twoPartitions (some [(0, some 1), (1, some 2)]) willing ∧
      DropRight twoPartitions (some [(0, some 0), (1, some 1)]) (some [(0, some 1), (1, some 2)]) 1
        willing := by
  have h := deletions_right_iff twoPartitions (some [(0, some 0), (1, some 1)])
    (some [(0, some 1), (1, some 2)]) 1 willing willing
    (fun l hl => Option.some.inj hl ▸ twoPartitions_starts)
    (fun l hl => Option.some.inj hl ▸ twoPartitions_ends) (by decide)
  refine ⟨h.1.mpr ?_, h.2.mpr ?_⟩
  · rintro _ ⟨⟩ - - - p hp -
    have hall : ∀ p ∈ twoPartitions.partitions, Readable [(0, some 1), (1, some 2)] p := by decide
    exact hall p hp
  · rintro _ _ ⟨⟩ ⟨⟩ - -
    refine ⟨?_, by decide⟩
    have hall : ∀ p ∈ twoPartitions.partitions, Readable [(0, some 0), (1, some 1)] p ∧
        Readable [(0, some 1), (1, some 2)] p ∧ startOf (twoPartitions.logs p) + 1 < 2 ^ 63 ∧
          recordsWithin p (twoPartitions.logs p) (1 : Int).toNat = wanted twoPartitions 1 p := by
      decide
    exact fun p hp => .inr (hall p hp)

/-- A purge reports success while the second partition, whose end was not listed, keeps its record;
and a drop of as many records as there can be leaves it too, because the sum runs over. -/
theorem partition_left_full :
    ¬ PurgeRight twoPartitions (some [(0, some 1), (1, none)]) willing ∧
      ¬ DropRight twoPartitions (some [(0, some 0), (1, some 1)])
        (some [(0, some 1), (1, some 2)]) (2 ^ 63 - 1) willing := by
  constructor
  · rw [purgeRight_iff twoPartitions_halfEnds]
    intro h
    have hread := h ⟨0, by decide⟩ rfl (fun _ _ => rfl) 1 (by decide) (by decide)
    exact absurd hread (by decide)
  · rw [dropRight_iff twoPartitions_starts twoPartitions_ends (by decide) (by decide)]
    intro h
    rcases (h fun _ _ => ⟨rfl, rfl⟩).1 1 (by decide) with hnone | ⟨-, -, hover, -⟩
    · exact absurd hnone (by decide)
    · exact absurd hover (by decide)

end MqStudio.Driver.Kafka.Delete
