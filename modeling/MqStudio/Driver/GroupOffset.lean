import Mathlib.Data.List.Nodup
import MqStudio.Lib.Int64

/-!
# Resetting a Group's Offsets

`resolveTargets`, `resolveOffset` and `clamp` of `internal/driver/kafka/group_offset.go`, and
`SetQueueOffset` on top of them. Listings come from the broker, any request for one may fail, and a
listed partition may have an error in place of its offset. Offsets are 64-bit and partitions 32-bit
words; what a reset is meant to do is said over the integers.

## Main definitions

- `resolveTargets`: what is committed.
- `exactTarget`, `Nearest`, `Landed`: what it should be.

## Main results

- `reset_lands_iff`: a reset lands where it says exactly where both ends of each partition it is about
  are known and a shift does not wrap around to the other end.
- `shift_wrapped`: a shift far ahead lands at the start.
-/

namespace MqStudio.Driver.Kafka.GroupOffset

open MqStudio.Lib

/-! ## Listings -/

/-- `kadm.ListedOffset` and `kadm.OffsetResponse`: an offset, unless there was an error. -/
structure ListedOffset where
  offset : Int64
  failed : Bool
  deriving DecidableEq

/-- The partitions of a topic, none of them twice. -/
structure Listing where
  entries : List (Int32 × ListedOffset)
  distinct : (entries.map Prod.fst).Nodup

/-- `Lookup` -/
def Listing.lookup (listing : Listing) (partition : Int32) : Option ListedOffset :=
  listing.entries.lookup partition

/-- Whether a partition is listed. -/
def Listing.Lists (listing : Listing) (partition : Int32) : Prop :=
  partition ∈ listing.entries.map Prod.fst

/-- A listing that was not asked for. -/
def Listing.empty : Listing := ⟨[], List.nodup_nil⟩

/-- `offsetAt` -/
def offsetAt (offsets : Listing) (partition : Int32) : Int64 :=
  match offsets.lookup partition with
  | none => -1
  | some listed => if listed.failed then -1 else listed.offset

/-! ## The reset -/

/-- `OffsetTarget`: one of five, or text that is none of them. -/
inductive OffsetTarget where
  | earliest
  | latest
  | timestamp
  | absolute
  | shift
  | other (name : String)
  deriving DecidableEq

/-- `OffsetResetRequest` -/
structure OffsetResetRequest where
  group : String
  topic : String
  partitions : List Int32
  target : OffsetTarget
  timestamp : Int64
  value : Int64

/-- What the broker answers; `none` is an error. -/
structure Admin where
  listStartOffsets : String → Option Listing
  listEndOffsets : String → Option Listing
  listOffsetsAfterMilli : Int64 → String → Option Listing
  fetchOffsets : String → Option (String → Listing)

/-- The listings a reset works on. -/
structure Listings where
  starts : Listing
  ends : Listing
  timestamps : Listing
  committed : Listing

/-- `resolveTargets` up to its loop. -/
def listings (admin : Admin) (request : OffsetResetRequest) : Option Listings := do
  let starts ← admin.listStartOffsets request.topic
  let ends ← admin.listEndOffsets request.topic
  let timestamps ←
    if request.target = .timestamp then admin.listOffsetsAfterMilli request.timestamp request.topic
    else some Listing.empty
  let committed ←
    if request.target = .shift then
      (admin.fetchOffsets request.group).map fun responses => responses request.topic
    else some Listing.empty
  some ⟨starts, ends, timestamps, committed⟩

/-- Where a shift starts from: the committed position, or the end. -/
def shiftFrom (committed : Listing) (partition : Int32) (last : Int64) : Int64 :=
  match committed.lookup partition with
  | none => last
  | some response => if response.failed then last else response.offset

/-- Where a moment is: the first offset at it, or the end. -/
def momentAt (timestamps : Listing) (partition : Int32) (last : Int64) : Int64 :=
  match timestamps.lookup partition with
  | none => last
  | some listed => if listed.failed ∨ listed.offset < 0 then last else listed.offset

/-- `resolveOffset` -/
def resolveOffset (request : OffsetResetRequest) (partition : Int32) (start last : Int64)
    (timestamps committed : Listing) : Option Int64 :=
  match request.target with
  | .earliest => some start
  | .latest => some last
  | .absolute => some request.value
  | .timestamp => some (momentAt timestamps partition last)
  | .shift => some (shiftFrom committed partition last + request.value)
  | .other _ => none

/-- `clamp` -/
def clamp (offset start last : Int64) : Int64 :=
  if 0 ≤ start ∧ offset < start then start
  else if 0 ≤ last ∧ last < offset then last
  else offset

/-- `partitionSet`, as it is asked: no partition means every one. -/
def wanted (partitions : List Int32) (partition : Int32) : Prop :=
  partitions = [] ∨ partition ∈ partitions

instance (partitions : List Int32) (partition : Int32) : Decidable (wanted partitions partition) :=
  inferInstanceAs (Decidable (_ ∨ _))

/-- The loop of `resolveTargets`. -/
def resolveEach (request : OffsetResetRequest) (l : Listings) :
    List (Int32 × ListedOffset) → Option (List (Int32 × Int64))
  | [] => some []
  | (partition, last) :: rest =>
    if wanted request.partitions partition then
      (resolveOffset request partition (offsetAt l.starts partition) last.offset l.timestamps
        l.committed).bind fun target =>
          (resolveEach request l rest).map fun offsets =>
            (partition, clamp target (offsetAt l.starts partition) last.offset) :: offsets
    else resolveEach request l rest

/-- `resolveTargets` -/
def resolveTargets (admin : Admin) (request : OffsetResetRequest) :
    Option (List (Int32 × Int64)) :=
  (listings admin request).bind fun l => resolveEach request l l.ends.entries

/-- `model.QueueOffsetRequest` -/
structure QueueOffsetRequest where
  subscription : String
  destination : String
  queueID : Int
  offset : Int64

/-- The reset of `SetQueueOffset`, which takes the low half of the queue's number. -/
def setQueueOffset (request : QueueOffsetRequest) : OffsetResetRequest where
  group := request.subscription
  topic := request.destination
  partitions := [Int32.ofInt request.queueID]
  target := .absolute
  timestamp := 0
  value := request.offset

/-! ## What it is for -/

/-- An end of a partition's log is known: it is listed, without an error. -/
def Known (listing : Listing) (partition : Int32) (n : Int) : Prop :=
  ∃ listed, listing.lookup partition = some listed ∧ listed.failed = false ∧
    listed.offset.toInt = n ∧ 0 ≤ n

/-- The first offset at the moment, or else the end. -/
def exactMoment (timestamps : Listing) (partition : Int32) (e : Int) : Int :=
  match timestamps.lookup partition with
  | none => e
  | some listed =>
    if listed.failed = false ∧ 0 ≤ listed.offset.toInt then listed.offset.toInt else e

/-- The committed position, or else the end. -/
def exactPlace (committed : Listing) (partition : Int32) (e : Int) : Int :=
  match committed.lookup partition with
  | none => e
  | some response => if response.failed = false then response.offset.toInt else e

/-- Where a reset is to go in a log from `s` to `e`, over the integers. -/
def exactTarget (request : OffsetResetRequest) (l : Listings) (partition : Int32) (s e : Int) :
    Option Int :=
  match request.target with
  | .earliest => some s
  | .latest => some e
  | .absolute => some request.value.toInt
  | .timestamp => some (exactMoment l.timestamps partition e)
  | .shift => some (exactPlace l.committed partition e + request.value.toInt)
  | .other _ => none

/-- The point of `[s, e]` that is nearest to `t`. -/
def Nearest (x s e t : Int) : Prop :=
  s ≤ x ∧ x ≤ e ∧ ∀ y, s ≤ y → y ≤ e → (x - t).natAbs ≤ (y - t).natAbs

/-- A committed offset is where the reset was to go. -/
def Exact (request : OffsetResetRequest) (l : Listings) (partition : Int32) (x : Int64) : Prop :=
  ∃ s e t, Known l.starts partition s ∧ Known l.ends partition e ∧
    exactTarget request l partition s e = some t ∧ Nearest x.toInt s e t

/-- **A reset that lands where it says**: every committed offset is exact, and there is one for
    exactly the partitions that were requested and exist. -/
structure Landed (request : OffsetResetRequest) (requested : Int32 → Prop) (l : Listings)
    (offsets : List (Int32 × Int64)) : Prop where
  exact : ∀ p x, (p, x) ∈ offsets → Exact request l p x
  partitions : ∀ p, p ∈ offsets.map Prod.fst ↔ requested p ∧ l.ends.Lists p

/-- A sum that fits a word, or wraps around to where it does no harm. -/
def Harmless (t s e : Int) : Prop := int64 t = t ∨ s = e ∨ (t < 0 ∧ int64 t ≤ s)

/-- **What a partition needs**: both ends are known, and a shift of it does no harm. -/
def Sound (request : OffsetResetRequest) (l : Listings) (partition : Int32) : Prop :=
  ∃ s e, Known l.starts partition s ∧ Known l.ends partition e ∧ s ≤ e ∧
    (request.target = .shift →
      Harmless (exactPlace l.committed partition e + request.value.toInt) s e)

/-! ## Clamping -/

variable {x s e t : Int}

/-- **The nearest point** is the target, or the end of the interval on its side. -/
theorem nearest_iff (h : s ≤ e) : Nearest x s e t ↔ x = max s (min t e) := by
  constructor
  · intro hnearest
    obtain ⟨hs, he, hleast⟩ := hnearest
    have hother := hleast (max s (min t e)) (by omega) (by omega)
    omega
  · intro hx
    refine ⟨by omega, by omega, fun y hs he => ?_⟩
    omega

/-- An empty interval has none. -/
theorem Nearest.le (h : Nearest x s e t) : s ≤ e := le_trans h.1 h.2.1

/-- **`clamp` finds it** in a log whose ends are known. -/
theorem clamp_toInt {offset start last : Int64} (hstart : 0 ≤ start.toInt)
    (hle : start.toInt ≤ last.toInt) : (clamp offset start last).toInt =
      max start.toInt (min offset.toInt last.toInt) := by
  have hzero : (0 : Int64).toInt = 0 := rfl
  have hstart' : 0 ≤ start := by
    rw [Int64.le_iff_toInt_le, hzero]
    exact hstart
  have hlast' : 0 ≤ last := by
    rw [Int64.le_iff_toInt_le, hzero]
    exact le_trans hstart hle
  rw [clamp]
  split
  · rename_i hless
    have hbelow := Int64.lt_iff_toInt_lt.mp hless.2
    omega
  · rename_i hnotless
    have habove : start.toInt ≤ offset.toInt := by
      by_contra hbelow
      exact hnotless ⟨hstart', Int64.lt_iff_toInt_lt.mpr (by omega)⟩
    split
    · rename_i hmore
      have hover := Int64.lt_iff_toInt_lt.mp hmore.2
      omega
    · rename_i hnotmore
      have hunder : offset.toInt ≤ last.toInt := by
        by_contra hover
        exact hnotmore ⟨hlast', Int64.lt_iff_toInt_lt.mpr (by omega)⟩
      omega

/-- **Wrapping does harm** unless it does not happen, or happens where it does not show. -/
theorem harmless_iff (hs : 0 ≤ s) (hle : s ≤ e) (he : e < 2 ^ 63) (hlower : -2 ^ 64 ≤ t)
    (hupper : t < 2 ^ 64) : max s (min (int64 t) e) = max s (min t e) ↔ Harmless t s e := by
  rw [Harmless]
  rcases lt_or_ge t (-2 ^ 63) with hunder | hlow
  · have hwrap := int64_under (n := t) (by omega) hunder
    omega
  · rcases lt_or_ge t (2 ^ 63) with hhigh | hover
    · have hwrap := int64_of_range hlow hhigh
      omega
    · have hwrap := int64_over (n := t) hover (by omega)
      omega

/-! ## One partition -/

variable {request : OffsetResetRequest} {l : Listings} {listing : Listing} {p : Int32}
  {listed : ListedOffset} {offset start last : Int64}

theorem Known.unique {n m : Int} (h : Known listing p n) (h' : Known listing p m) : n = m := by
  obtain ⟨listed, hlookup, _, hn, _⟩ := h
  obtain ⟨other, hother, _, hm, _⟩ := h'
  rw [hlookup] at hother
  cases hother
  rw [← hn, ← hm]

theorem Known.offsetAt {n : Int} (h : Known listing p n) : (offsetAt listing p).toInt = n := by
  obtain ⟨listed, hlookup, hfailed, hn, _⟩ := h
  rw [GroupOffset.offsetAt, hlookup]
  dsimp only
  rw [hfailed]
  exact hn

/-- A listed entry is the one that is looked up. -/
theorem lookup_of_mem (h : (p, listed) ∈ listing.entries) : listing.lookup p = some listed := by
  obtain ⟨entries, hdistinct⟩ := listing
  rw [Listing.lookup]
  dsimp only at h ⊢
  induction entries with
  | nil => cases h
  | cons entry rest ih =>
    obtain ⟨hentry, hrest⟩ := List.nodup_cons.mp hdistinct
    rcases List.mem_cons.mp h with heq | hmem
    · rw [← heq]
      exact List.lookup_cons_self
    · have hne : (p == entry.1) = false := by
        rw [beq_eq_false_iff_ne]
        intro heq
        exact hentry (List.mem_map.mpr ⟨_, hmem, heq⟩)
      rw [List.lookup_cons, hne]
      exact ih hrest hmem

/-- The moment of the code, where its end is the end. -/
theorem momentAt_toInt : (momentAt listing p last).toInt = exactMoment listing p last.toInt := by
  rw [momentAt, exactMoment]
  cases listing.lookup p with
  | none => rfl
  | some listed =>
    dsimp only
    have hzero : (0 : Int64).toInt = 0 := rfl
    have hsign : listed.offset < 0 ↔ listed.offset.toInt < 0 := Int64.lt_iff_toInt_lt
    cases listed.failed with
    | true => simp
    | false =>
      by_cases hless : listed.offset.toInt < 0
      · rw [if_pos (.inr (hsign.mpr hless)), if_neg (by omega)]
      · rw [if_neg (by simpa using fun h => hless (hsign.mp h)), if_pos ⟨rfl, by omega⟩]

theorem shiftFrom_toInt : (shiftFrom listing p last).toInt = exactPlace listing p last.toInt := by
  rw [shiftFrom, exactPlace]
  cases listing.lookup p with
  | none => rfl
  | some response => cases hfailed : response.failed <;> simp [hfailed]

/-- **What is resolved** is the exact target, as far as a word holds it. -/
theorem resolveOffset_toInt (h : resolveOffset request p start last l.timestamps l.committed =
    some offset) : ∃ t, exactTarget request l p start.toInt last.toInt = some t ∧
      offset.toInt = int64 t ∧ -2 ^ 64 ≤ t ∧ t < 2 ^ 64 ∧
      (request.target ≠ .shift → int64 t = t) := by
  have hword : ∀ n : Int64, int64 n.toInt = n.toInt :=
    fun n => int64_of_range n.le_toInt n.toInt_lt
  have hrange : ∀ n : Int64, -2 ^ 63 ≤ n.toInt ∧ n.toInt < 2 ^ 63 :=
    fun n => ⟨n.le_toInt, n.toInt_lt⟩
  rw [resolveOffset] at h
  rw [exactTarget]
  cases htarget : request.target with
  | earliest =>
    rw [htarget] at h
    rw [← Option.some.inj h]
    have := hrange start
    exact ⟨_, rfl, (hword _).symm, by omega, by omega, fun _ => hword _⟩
  | latest =>
    rw [htarget] at h
    rw [← Option.some.inj h]
    have := hrange last
    exact ⟨_, rfl, (hword _).symm, by omega, by omega, fun _ => hword _⟩
  | timestamp =>
    rw [htarget] at h
    rw [← Option.some.inj h]
    have := hrange (momentAt l.timestamps p last)
    refine ⟨_, rfl, ?_, ?_, ?_, fun _ => ?_⟩ <;> rw [← momentAt_toInt]
    · exact (hword _).symm
    · omega
    · omega
    · exact hword _
  | absolute =>
    rw [htarget] at h
    rw [← Option.some.inj h]
    have := hrange request.value
    exact ⟨_, rfl, (hword _).symm, by omega, by omega, fun _ => hword _⟩
  | shift =>
    rw [htarget] at h
    rw [← Option.some.inj h]
    have hfrom := hrange (shiftFrom l.committed p last)
    have hvalue := hrange request.value
    refine ⟨_, rfl, ?_, ?_, ?_, fun hshift => absurd rfl hshift⟩ <;> rw [← shiftFrom_toInt]
    · rw [Int64.toInt_add]
      rfl
    · omega
    · omega
  | other name =>
    rw [htarget] at h
    cases h

/-- **One partition lands** exactly where it has what it needs. -/
theorem exact_iff (hlisted : (p, listed) ∈ l.ends.entries)
    (h : resolveOffset request p (offsetAt l.starts p) listed.offset l.timestamps l.committed =
      some offset) :
    Exact request l p (clamp offset (offsetAt l.starts p) listed.offset) ↔ Sound request l p := by
  have hlookup := lookup_of_mem hlisted
  obtain ⟨t, htarget, hoffset, hlower, hupper, hword⟩ := resolveOffset_toInt h
  have hlast : ∀ e, Known l.ends p e → listed.offset.toInt = e := by
    intro e hknown
    obtain ⟨other, hother, _, he, _⟩ := hknown
    rw [hlookup] at hother
    cases hother
    exact he
  -- Within known ends, landing is the wrapped target's coming to the same point.
  have hlands : ∀ s e, Known l.starts p s → Known l.ends p e → s ≤ e →
      (Nearest (clamp offset (offsetAt l.starts p) listed.offset).toInt s e t ↔
        Harmless t s e) := by
    intro s e hs he hle
    have hstart := hs.offsetAt
    have hend := hlast e he
    obtain ⟨_, _, _, _, hnonneg⟩ := hs
    have hless := listed.offset.toInt_lt
    rw [nearest_iff hle, clamp_toInt (by omega) (by omega), hstart, hend, hoffset]
    exact harmless_iff hnonneg hle (by omega) hlower hupper
  constructor
  · intro hexact
    obtain ⟨s, e, t', hs, he, ht', hnearest⟩ := hexact
    rw [← hs.offsetAt, ← hlast e he, htarget] at ht'
    cases ht'
    refine ⟨s, e, hs, he, hnearest.le, fun hshift => ?_⟩
    have hharmless := (hlands s e hs he hnearest.le).mp hnearest
    rw [exactTarget, hshift] at htarget
    cases htarget
    rw [hlast e he] at hharmless
    exact hharmless
  · intro hsound
    obtain ⟨s, e, hs, he, hle, hshift⟩ := hsound
    refine ⟨s, e, t, hs, he, ?_, (hlands s e hs he hle).mpr ?_⟩
    · rw [← htarget, hs.offsetAt, hlast e he]
    · by_cases hkind : request.target = .shift
      · rw [exactTarget, hkind] at htarget
        cases htarget
        rw [hlast e he]
        exact hshift hkind
      · exact .inl (hword hkind)

/-! ## All partitions -/

/-- Only an unknown target does not resolve. -/
theorem resolveOffset_eq_none :
    resolveOffset request p start last l.timestamps l.committed = none ↔
      ∃ name, request.target = .other name := by
  rw [resolveOffset]
  cases request.target with
  | earliest | latest | timestamp | absolute | shift =>
    refine iff_of_false (fun h => by cases h) (fun h => ?_)
    obtain ⟨name, hname⟩ := h
    cases hname
  | other name => exact iff_of_true rfl ⟨name, rfl⟩

variable {entries : List (Int32 × ListedOffset)} {offsets : List (Int32 × Int64)}

/-- One step of the loop. -/
theorem resolveEach_cons (h : resolveEach request l ((p, listed) :: entries) = some offsets) :
    (wanted request.partitions p ∧ ∃ target rest,
      resolveOffset request p (offsetAt l.starts p) listed.offset l.timestamps l.committed =
          some target ∧ resolveEach request l entries = some rest ∧
        offsets = (p, clamp target (offsetAt l.starts p) listed.offset) :: rest) ∨
      ¬ wanted request.partitions p ∧ resolveEach request l entries = some offsets := by
  rw [resolveEach] at h
  split at h
  · rename_i hwanted
    obtain ⟨target, htarget, hrest⟩ := Option.bind_eq_some_iff.mp h
    obtain ⟨others, hothers, rfl⟩ := Option.map_eq_some_iff.mp hrest
    exact .inl ⟨hwanted, target, others, htarget, hothers, rfl⟩
  · rename_i hunwanted
    exact .inr ⟨hunwanted, h⟩

/-- **What is committed**: the clamped target of each wanted partition. -/
theorem mem_resolveEach {x : Int64} (h : resolveEach request l entries = some offsets) :
    (p, x) ∈ offsets ↔ ∃ listed target, (p, listed) ∈ entries ∧ wanted request.partitions p ∧
      resolveOffset request p (offsetAt l.starts p) listed.offset l.timestamps l.committed =
        some target ∧ x = clamp target (offsetAt l.starts p) listed.offset := by
  induction entries generalizing offsets with
  | nil =>
    cases h
    simp
  | cons entry rest ih =>
    obtain ⟨q, last⟩ := entry
    rcases resolveEach_cons h with ⟨hwanted, target, others, htarget, hrest, rfl⟩ | ⟨hunwanted, hrest⟩
    · rw [List.mem_cons, ih hrest]
      constructor
      · intro hmem
        rcases hmem with heq | ⟨listed, offset, hlisted, hothers⟩
        · cases heq
          exact ⟨last, target, List.mem_cons_self, hwanted, htarget, rfl⟩
        · exact ⟨listed, offset, List.mem_cons_of_mem _ hlisted, hothers⟩
      · intro hmem
        obtain ⟨listed, offset, hlisted, hp, hoffset, rfl⟩ := hmem
        rcases List.mem_cons.mp hlisted with heq | hlisted
        · cases heq
          rw [htarget] at hoffset
          cases hoffset
          exact .inl rfl
        · exact .inr ⟨listed, offset, hlisted, hp, hoffset, rfl⟩
    · rw [ih hrest]
      constructor
      · intro hmem
        obtain ⟨listed, offset, hlisted, hothers⟩ := hmem
        exact ⟨listed, offset, List.mem_cons_of_mem _ hlisted, hothers⟩
      · intro hmem
        obtain ⟨listed, offset, hlisted, hp, hothers⟩ := hmem
        rcases List.mem_cons.mp hlisted with heq | hlisted
        · cases heq
          exact absurd hp hunwanted
        · exact ⟨listed, offset, hlisted, hp, hothers⟩

/-- Where the loop comes to an end, each wanted partition resolved. -/
theorem resolved_of_resolveEach (h : resolveEach request l entries = some offsets)
    (hlisted : (p, listed) ∈ entries) (hp : wanted request.partitions p) : ∃ target,
      resolveOffset request p (offsetAt l.starts p) listed.offset l.timestamps l.committed =
        some target := by
  induction entries generalizing offsets with
  | nil => cases hlisted
  | cons entry rest ih =>
    obtain ⟨q, last⟩ := entry
    rcases resolveEach_cons h with ⟨_, target, others, htarget, hrest, -⟩ | ⟨hunwanted, hrest⟩
    · rcases List.mem_cons.mp hlisted with heq | hlisted
      · cases heq
        exact ⟨target, htarget⟩
      · exact ih hrest hlisted
    · rcases List.mem_cons.mp hlisted with heq | hlisted
      · cases heq
        exact absurd hp hunwanted
      · exact ih hrest hlisted

variable (l entries) in
/-- A known target resolves everywhere. -/
theorem resolveEach_of_known (h : ∀ name, request.target ≠ .other name) :
    ∃ offsets, resolveEach request l entries = some offsets := by
  induction entries with
  | nil => exact ⟨[], rfl⟩
  | cons entry rest ih =>
    obtain ⟨p, listed⟩ := entry
    obtain ⟨offsets, hoffsets⟩ := ih
    rw [resolveEach, hoffsets]
    split
    · cases hresolved : resolveOffset request p (offsetAt l.starts p) listed.offset l.timestamps
          l.committed with
      | none =>
        obtain ⟨name, hname⟩ := resolveOffset_eq_none.mp hresolved
        exact absurd hname (h name)
      | some target => exact ⟨_, rfl⟩
    · exact ⟨offsets, rfl⟩

variable {requested : Int32 → Prop}

/-- **A listing lands** exactly where the wanted partitions are the requested ones, and have what they
    need. -/
theorem landed_iff (h : resolveEach request l l.ends.entries = some offsets) :
    Landed request requested l offsets ↔
      (∀ p, l.ends.Lists p → (wanted request.partitions p ↔ requested p)) ∧
        ∀ p, wanted request.partitions p → l.ends.Lists p → Sound request l p := by
  have hkeys : ∀ p, p ∈ offsets.map Prod.fst ↔
      wanted request.partitions p ∧ l.ends.Lists p := by
    intro p
    constructor
    · intro hp
      obtain ⟨⟨q, x⟩, hmem, rfl⟩ := List.mem_map.mp hp
      obtain ⟨listed, target, hlisted, hwanted, _⟩ := (mem_resolveEach h).mp hmem
      exact ⟨hwanted, List.mem_map.mpr ⟨_, hlisted, rfl⟩⟩
    · intro hp
      obtain ⟨⟨q, listed⟩, hlisted, rfl⟩ := List.mem_map.mp hp.2
      obtain ⟨target, htarget⟩ := resolved_of_resolveEach h hlisted hp.1
      have hmem := (mem_resolveEach h).mpr ⟨listed, target, hlisted, hp.1, htarget, rfl⟩
      exact List.mem_map.mpr ⟨_, hmem, rfl⟩
  constructor
  · intro hlanded
    refine ⟨fun p hp => ?_, fun p hwanted hp => ?_⟩
    · have hsame := (hkeys p).symm.trans (hlanded.partitions p)
      exact ⟨fun h => (hsame.mp ⟨h, hp⟩).1, fun h => (hsame.mpr ⟨h, hp⟩).1⟩
    · obtain ⟨⟨q, listed⟩, hlisted, rfl⟩ := List.mem_map.mp hp
      obtain ⟨target, htarget⟩ := resolved_of_resolveEach h hlisted hwanted
      exact (exact_iff hlisted htarget).mp (hlanded.exact _ _
        ((mem_resolveEach h).mpr ⟨listed, target, hlisted, hwanted, htarget, rfl⟩))
  · intro hsound
    obtain ⟨hsame, hsound⟩ := hsound
    constructor
    case exact =>
      intro p x hmem
      obtain ⟨listed, target, hlisted, hwanted, htarget, rfl⟩ := (mem_resolveEach h).mp hmem
      exact (exact_iff hlisted htarget).mpr
        (hsound p hwanted (List.mem_map.mpr ⟨_, hlisted, rfl⟩))
    case partitions =>
      intro p
      rw [hkeys p]
      exact and_congr_left fun hp => hsame p hp

/-! ## The result -/

/-- A reset lands whatever is listed: it fails, or what it commits is right. -/
def Lands (admin : Admin) (request : OffsetResetRequest) (requested : Int32 → Prop) : Prop :=
  ∀ l offsets, listings admin request = some l → resolveTargets admin request = some offsets →
    Landed request requested l offsets

/-- **A reset lands where it says** exactly where each partition it is about has what it needs, its
    target is none, or its listings fail; and a queue's number has to fit a partition's. -/
theorem reset_lands_iff (admin : Admin) :
    (∀ request, Lands admin request (wanted request.partitions) ↔
      ∀ l, listings admin request = some l → (∀ name, request.target ≠ .other name) →
        ∀ p, wanted request.partitions p → l.ends.Lists p → Sound request l p) ∧
    ∀ q : QueueOffsetRequest, Lands admin (setQueueOffset q) (fun p => p.toInt = q.queueID) ↔
      ∀ l, listings admin (setQueueOffset q) = some l → l.ends.Lists (Int32.ofInt q.queueID) →
        (Int32.ofInt q.queueID).toInt = q.queueID ∧
          Sound (setQueueOffset q) l (Int32.ofInt q.queueID) := by
  constructor
  · intro request
    constructor
    · intro h l hl hknown
      obtain ⟨offsets, hoffsets⟩ := resolveEach_of_known l l.ends.entries hknown
      have hresolved : resolveTargets admin request = some offsets := by
        rw [resolveTargets, hl]
        exact hoffsets
      exact ((landed_iff hoffsets).mp (h l offsets hl hresolved)).2
    · intro h l offsets hl hresolved
      rw [resolveTargets, hl] at hresolved
      refine (landed_iff hresolved).mpr ⟨fun _ _ => Iff.rfl, fun p hwanted hp => ?_⟩
      obtain ⟨⟨q, listed⟩, hlisted, rfl⟩ := List.mem_map.mp hp
      obtain ⟨target, htarget⟩ := resolved_of_resolveEach hresolved hlisted hwanted
      refine h l hl (fun name hname => ?_) q hwanted hp
      rw [resolveOffset_eq_none.mpr ⟨name, hname⟩] at htarget
      cases htarget
  · intro q
    have hone : ∀ p, wanted (setQueueOffset q).partitions p ↔ p = Int32.ofInt q.queueID := by
      intro p
      simp [wanted, setQueueOffset]
    have hknown : ∀ name, (setQueueOffset q).target ≠ .other name := by
      intro name hname
      cases hname
    constructor
    · intro h l hl hp
      obtain ⟨offsets, hoffsets⟩ := resolveEach_of_known l l.ends.entries hknown
      have hresolved : resolveTargets admin (setQueueOffset q) = some offsets := by
        rw [resolveTargets, hl]
        exact hoffsets
      obtain ⟨hsame, hsound⟩ := (landed_iff hoffsets).mp (h l offsets hl hresolved)
      exact ⟨(hsame _ hp).mp ((hone _).mpr rfl), hsound _ ((hone _).mpr rfl) hp⟩
    · intro h l offsets hl hresolved
      rw [resolveTargets, hl] at hresolved
      refine (landed_iff hresolved).mpr ⟨fun p hp => ?_, fun p hwanted hp => ?_⟩
      · rw [hone]
        constructor
        · intro hsame
          rw [hsame] at hp ⊢
          exact (h l hl hp).1
        · intro hnumber
          rw [← hnumber, Int32.ofInt_toInt]
      · rw [hone] at hwanted
        rw [hwanted] at hp ⊢
        exact (h l hl hp).2

/-- A partition of its own. -/
def listingOf (offset : Int64) : Listing := ⟨[(0, ⟨offset, false⟩)], List.nodup_singleton _⟩

/-- A log from 5 to 100, and a group at 10. -/
def broker : Admin where
  listStartOffsets _ := some (listingOf 5)
  listEndOffsets _ := some (listingOf 100)
  listOffsetsAfterMilli _ _ := none
  fetchOffsets _ := some fun _ => listingOf 10

/-- A shift as far ahead as a word goes. -/
def farAhead : OffsetResetRequest := ⟨"billing", "orders", [], .shift, 0, 9223372036854775807⟩

/-- The shift wraps around and lands at the start. -/
theorem shift_wrapped : resolveTargets broker farAhead = some [(0, 5)] ∧
    ¬ Lands broker farAhead (wanted farAhead.partitions) := by
  have hresolved : resolveTargets broker farAhead = some [(0, 5)] := by decide
  refine ⟨hresolved, fun h => ?_⟩
  have hlanded := h ⟨listingOf 5, listingOf 100, Listing.empty, listingOf 10⟩ [(0, 5)] rfl hresolved
  obtain ⟨s, e, t, hs, he, ht, hnearest⟩ := hlanded.exact 0 5 List.mem_cons_self
  have hs' : (5 : Int) = s := hs.offsetAt
  have he' : (100 : Int) = e := he.offsetAt
  rw [← he'] at ht
  cases ht
  have hleast := hnearest.2.2 100 (by omega) (by omega)
  revert hleast
  decide

end MqStudio.Driver.Kafka.GroupOffset
