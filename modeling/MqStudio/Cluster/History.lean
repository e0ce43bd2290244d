import Mathlib.Data.List.Sort
import Mathlib.Data.List.Nodup
import Mathlib.Order.Interval.Finset.Basic
import Mathlib.Data.Int.Interval
import MqStudio.Lib.TreeMap
import MqStudio.Storage

/-!
# TPS Histories

`internal/service/cluster/history.go`: the rates the collector has seen of each broker, one sample a
minute for an hour, as they are loaded from the history file, pruned and added to at every
collection.

## Main results

- `recordBrokerTPS_keeps`: what any run of collections keeps, whatever the file held and however the
  clock moved.
- `recordBrokerTPS_betweenMinutes`: a sample of the file between two minutes stays, and of two brokers with
  one address the earlier is not handed what the later leaves.
-/

namespace MqStudio.Cluster

open MqStudio.Lib
open MqStudio.Storage

/-! ## §1 The Data -/

/-- `brokerTPSSample` -/
structure BrokerTPSSample where
  timestamp : Int
  tpsIn : Int
  tpsOut : Int
deriving DecidableEq, Repr

/-- `brokerTPSHistory`: its samples. -/
abbrev BrokerTPSHistory := List BrokerTPSSample

/-- The histories by key. An entry of the file may be `null`. -/
abbrev Histories := TreeMap.Map String (Option BrokerTPSHistory)

/-- `tpsHistoryStore`: what a history file decodes to. -/
structure TPSHistoryStore where
  version : Int
  brokers : Option Histories

/-- `model.NodeStatus` -/
inductive NodeStatus where
  | online
  | warning
  | offline
deriving DecidableEq, Repr

/-- The fields of `model.Node` that are sampled, and the ones the history is handed in. -/
structure Node where
  address : String
  status : NodeStatus
  rateIn : Int
  rateOut : Int
  tpsHistoryTimestamps : List Int
  tpsInHistory : List Int
  tpsOutHistory : List Int
deriving DecidableEq, Repr

def tpsHistoryFileVersion : Int := 1

def tpsHistoryMinutes : Int := 60

def secondsPerMinute : Int := 60

/-- `Truncate(time.Minute).Unix()` of a clock reading in Unix seconds. -/
def truncateMinute (now : Int) : Int :=
  now - now % secondsPerMinute

/-- `tpsHistoryKey` -/
def tpsHistoryKey (connID : Int) (address : String) : String :=
  toString connID ++ "|" ++ address

/-! ## §2 One History -/

/-- `cutoff`: the first minute of the hour that ends with `nowMinute`. -/
def cutoff (nowMinute : Int) : Int :=
  nowMinute - (tpsHistoryMinutes - 1) * secondsPerMinute

/-- `byTimestamp` of `normalizeTPSSamples`: of two samples of one moment the later in the list
    stands. -/
def byTimestamp (samples : BrokerTPSHistory) (cutoff nowMinute : Int) :
    TreeMap.Map Int BrokerTPSSample :=
  TreeMap.collect BrokerTPSSample.timestamp
    (samples.filter fun sample => ¬ (sample.timestamp < cutoff ∨ nowMinute < sample.timestamp))

/-- `normalizeTPSSamples`. An ordered map lists its values as sorting the keys would. -/
def normalizeTPSSamples (samples : BrokerTPSHistory) (cutoff nowMinute : Int) : BrokerTPSHistory :=
  TreeMap.values (byTimestamp samples cutoff nowMinute)

/-- `tpsSamplesEqual` -/
def tpsSamplesEqual (left right : BrokerTPSHistory) : Bool :=
  left == right

/-- The loop of `upsertTPSSample`, over the samples from the last: what they become, and whether that
    is a change, where one of them has the new sample's moment. -/
def replaceSample (sample : BrokerTPSSample) :
    BrokerTPSHistory → Option (BrokerTPSHistory × Bool)
  | [] => none
  | current :: earlier =>
    if current.timestamp ≠ sample.timestamp then
      (replaceSample sample earlier).map fun replaced => (current :: replaced.1, replaced.2)
    else if current.tpsIn = sample.tpsIn ∧ current.tpsOut = sample.tpsOut then
      some (current :: earlier, false)
    else some (sample :: earlier, true)

/-- `upsertTPSSample` -/
def upsertTPSSample (history : BrokerTPSHistory) (sample : BrokerTPSSample) :
    BrokerTPSHistory × Bool :=
  match replaceSample sample history.reverse with
  | some (replaced, changed) => (replaced.reverse, changed)
  | none => ((history ++ [sample]).insertionSort fun a b => a.timestamp ≤ b.timestamp, true)

/-- `copyTPSHistoryToBroker` -/
def copyTPSHistoryToBroker (history : BrokerTPSHistory) (broker : Node) : Node :=
  { broker with
    tpsHistoryTimestamps := history.map BrokerTPSSample.timestamp
    tpsInHistory := history.map BrokerTPSSample.tpsIn
    tpsOutHistory := history.map BrokerTPSSample.tpsOut }

/-! ## §3 All of Them -/

/-- One visit of the loop of `pruneTPSHistoryLocked`. -/
def pruneHistory (nowMinute : Int) (pruned : Histories × Bool) (key : String)
    (history : Option BrokerTPSHistory) : Histories × Bool :=
  match history with
  | none => (pruned.1.erase key, true)
  | some samples =>
    let normalized := normalizeTPSSamples samples (cutoff nowMinute) nowMinute
    let changed := pruned.2 || !tpsSamplesEqual samples normalized
    if normalized.length = 0 then (pruned.1.erase key, true)
    else (pruned.1.insert key (some normalized), changed)

/-- `pruneTPSHistoryLocked` -/
def pruneTPSHistoryLocked (history : Histories) (nowMinute : Int) : Histories × Bool :=
  history.foldl (pruneHistory nowMinute) (history, false)

/-- `loadTPSHistory`, as `New` takes it: no file, one that cannot be read and one of a newer version
    all leave the service with no history. -/
def loadTPSHistory (historyFilePath : String) (file : Option TPSHistoryStore) (now : Int) :
    Histories :=
  if trimSpace historyFilePath = "" then ∅
  else
    match file with
    | none => ∅
    | some store =>
      if tpsHistoryFileVersion < store.version then ∅
      else
        match store.brokers with
        | none => ∅
        | some brokers => (pruneTPSHistoryLocked brokers (truncateMinute now)).1

/-- Whether a broker has a rate to sample. -/
def Node.Sampled (broker : Node) : Prop :=
  broker.status = .online ∧ 0 ≤ broker.rateIn ∧ 0 ≤ broker.rateOut

instance (broker : Node) : Decidable broker.Sampled :=
  inferInstanceAs (Decidable (_ ∧ _ ∧ _))

/-- `recordBrokerTPS` between two brokers: the histories, whether they changed, and the brokers so
    far as they were handed their histories. -/
structure Recording where
  history : Histories
  changed : Bool
  handed : List (Option Node)

/-- The body of its loop. -/
def recordBroker (connID nowMinute : Int) (turn : Recording) : Option Node → Recording
  | none => { turn with handed := turn.handed ++ [none] }
  | some broker =>
    if broker.address = "" then { turn with handed := turn.handed ++ [some broker] }
    else
      let key := tpsHistoryKey connID broker.address
      let known := turn.history[key]?.join
      if known = none ∧ ¬ broker.Sampled then
        { turn with handed := turn.handed ++ [some (copyTPSHistoryToBroker [] broker)] }
      else
        let history := known.getD []
        let upserted :=
          if broker.Sampled then
            upsertTPSSample history
              { timestamp := nowMinute, tpsIn := broker.rateIn, tpsOut := broker.rateOut }
          else (history, false)
        { history := turn.history.insert key (some upserted.1)
          changed := upserted.2 || turn.changed
          handed := turn.handed ++ [some (copyTPSHistoryToBroker upserted.1 broker)] }

/-- A call of `recordBrokerTPS`: what the clock reads, the connection and its brokers. -/
structure Collection where
  now : Int
  connID : Int
  brokers : List (Option Node)

/-- `recordBrokerTPS`, up to the saving of what changed. -/
def recordBrokerTPS (history : Histories) (call : Collection) : Recording :=
  let nowMinute := truncateMinute call.now
  let pruned := pruneTPSHistoryLocked history nowMinute
  call.brokers.foldl (recordBroker call.connID nowMinute)
    { history := pruned.1, changed := pruned.2, handed := [] }

/-- What `recordBrokerTPS` writes to the history file at its end. -/
def savedBy (historyFilePath : String) (done : Recording) : Option TPSHistoryStore :=
  if ¬ done.changed ∨ trimSpace historyFilePath = "" then none
  else some { version := tpsHistoryFileVersion, brokers := some done.history }

/-- The histories after a run of collections. -/
def collected (history : Histories) (calls : List Collection) : Histories :=
  calls.foldl (fun history call => (recordBrokerTPS history call).history) history

/-! ## §4 What One History Becomes -/

/-- Distinct moments, in their order. -/
def Ordered (samples : BrokerTPSHistory) : Prop :=
  samples.Pairwise fun a b => a.timestamp < b.timestamp

/-- A sample of the hour that ends with `nowMinute`. -/
def Within (nowMinute : Int) (sample : BrokerTPSSample) : Prop :=
  cutoff nowMinute ≤ sample.timestamp ∧ sample.timestamp ≤ nowMinute

theorem normalizeTPSSamples_ordered (samples : BrokerTPSHistory) (low high : Int) :
    Ordered (normalizeTPSSamples samples low high) := by
  have hkeyed := TreeMap.keyed_collect BrokerTPSSample.timestamp
    (samples.filter fun sample => ¬ (sample.timestamp < low ∨ high < sample.timestamp))
  exact hkeyed.values_ordered.imp fun h => Int.compare_eq_lt.mp h

/-- What is left of a history was in it, within the window. -/
theorem mem_of_mem_normalizeTPSSamples {samples : BrokerTPSHistory} {low high : Int}
    {s : BrokerTPSSample} (h : s ∈ normalizeTPSSamples samples low high) :
    s ∈ samples ∧ low ≤ s.timestamp ∧ s.timestamp ≤ high := by
  obtain ⟨key, hkey⟩ := TreeMap.mem_values.mp h
  have hmem := TreeMap.mem_of_getElem?_collect hkey
  simp only [List.mem_filter, decide_eq_true_eq, not_or, not_lt] at hmem
  exact hmem

/-- Of an ordered history all that lies within the window is left. -/
theorem mem_normalizeTPSSamples {samples : BrokerTPSHistory} (h : Ordered samples) {low high : Int}
    {s : BrokerTPSSample} :
    s ∈ normalizeTPSSamples samples low high ↔
      s ∈ samples ∧ low ≤ s.timestamp ∧ s.timestamp ≤ high := by
  refine ⟨mem_of_mem_normalizeTPSSamples, fun hs => ?_⟩
  have hdistinct : (samples.filter fun sample =>
      ¬ (sample.timestamp < low ∨ high < sample.timestamp)).Pairwise
        fun a b => a.timestamp ≠ b.timestamp :=
    (h.imp fun hlt => hlt.ne).filter _
  apply TreeMap.mem_values.mpr
  refine ⟨s.timestamp, (TreeMap.getElem?_collect hdistinct).mpr ⟨?_, rfl⟩⟩
  simp only [List.mem_filter, decide_eq_true_eq, not_or, not_lt]
  exact hs

theorem replaceSample_eq_none {sample : BrokerTPSSample} {samples : BrokerTPSHistory} :
    replaceSample sample samples = none ↔ ∀ s ∈ samples, s.timestamp ≠ sample.timestamp := by
  induction samples with
  | nil => simp [replaceSample]
  | cons current earlier ih =>
    by_cases hcurrent : current.timestamp = sample.timestamp
    · rw [replaceSample, if_neg (not_not.mpr hcurrent)]
      split <;> simp [hcurrent]
    · rw [replaceSample, if_pos hcurrent]
      simp [ih, hcurrent]

/-- Replacing keeps the moments. -/
theorem replaceSample_timestamps {sample : BrokerTPSSample} {samples : BrokerTPSHistory}
    {replaced : BrokerTPSHistory × Bool} (h : replaceSample sample samples = some replaced) :
    replaced.1.map BrokerTPSSample.timestamp = samples.map BrokerTPSSample.timestamp := by
  induction samples generalizing replaced with
  | nil => cases h
  | cons current earlier ih =>
    rw [replaceSample] at h
    split at h
    · obtain ⟨inner, hinner, rfl⟩ := Option.map_eq_some_iff.mp h
      simp [ih hinner]
    · rename_i hcurrent
      split at h
      · cases h
        rfl
      · cases h
        simp [not_not.mp hcurrent]

/-- Where no two samples have one moment, the new one takes the place of the old one of its. -/
theorem mem_replaceSample {sample : BrokerTPSSample} {samples : BrokerTPSHistory}
    (hdistinct : samples.Pairwise fun a b => a.timestamp ≠ b.timestamp)
    {replaced : BrokerTPSHistory × Bool} (h : replaceSample sample samples = some replaced)
    {s : BrokerTPSSample} :
    s ∈ replaced.1 ↔ s = sample ∨ s ∈ samples ∧ s.timestamp ≠ sample.timestamp := by
  induction samples generalizing replaced with
  | nil => cases h
  | cons current earlier ih =>
    obtain ⟨hfirst, hrest⟩ := List.pairwise_cons.mp hdistinct
    rw [replaceSample] at h
    split at h
    · rename_i hcurrent
      obtain ⟨inner, hinner, rfl⟩ := Option.map_eq_some_iff.mp h
      simp only [List.mem_cons, ih hrest hinner]
      constructor
      · rintro (rfl | rfl | ⟨hs, hne⟩)
        · exact .inr ⟨.inl rfl, hcurrent⟩
        · exact .inl rfl
        · exact .inr ⟨.inr hs, hne⟩
      · rintro (rfl | ⟨rfl | hs, hne⟩)
        · exact .inr (.inl rfl)
        · exact .inl rfl
        · exact .inr (.inr ⟨hs, hne⟩)
    · rename_i hcurrent
      have hsame : current.timestamp = sample.timestamp := not_not.mp hcurrent
      have hlater : ∀ t ∈ earlier, t.timestamp ≠ sample.timestamp := fun t ht htime =>
        hfirst t ht (hsame.trans htime.symm)
      -- in both branches the head is the new sample
      have hhead : replaced.1 = sample :: earlier := by
        split at h
        · rename_i hrates
          cases h
          have : current = sample := by
            cases current
            cases sample
            simp_all
          rw [this]
        · cases h
          rfl
      rw [hhead]
      simp only [List.mem_cons]
      constructor
      · rintro (rfl | hs)
        · exact .inl rfl
        · exact .inr ⟨.inr hs, hlater s hs⟩
      · rintro (rfl | ⟨rfl | hs, hne⟩)
        · exact .inl rfl
        · exact absurd hsame hne
        · exact .inr hs

/-- A replacement that reports no change made none. -/
theorem replaceSample_unchanged {sample : BrokerTPSSample} {samples : BrokerTPSHistory}
    {replaced : BrokerTPSHistory × Bool} (h : replaceSample sample samples = some replaced)
    (hsame : replaced.2 = false) : replaced.1 = samples := by
  induction samples generalizing replaced with
  | nil => cases h
  | cons current earlier ih =>
    rw [replaceSample] at h
    split at h
    · obtain ⟨inner, hinner, rfl⟩ := Option.map_eq_some_iff.mp h
      simp [ih hinner hsame]
    · split at h
      · cases h
        rfl
      · cases h
        cases hsame

/-- **Adding a sample**: the history stays ordered, and what it had at another moment stays. -/
theorem upsertTPSSample_spec {history : BrokerTPSHistory} (h : Ordered history)
    (sample : BrokerTPSSample) :
    Ordered (upsertTPSSample history sample).1 ∧
      ∀ s, s ∈ (upsertTPSSample history sample).1 ↔
        s = sample ∨ s ∈ history ∧ s.timestamp ≠ sample.timestamp := by
  unfold upsertTPSSample
  split
  · rename_i replaced changed hreplaced
    constructor
    · have htimes := replaceSample_timestamps hreplaced
      rw [List.map_reverse] at htimes
      have hordered : (history.map BrokerTPSSample.timestamp).Pairwise (· < ·) :=
        List.pairwise_map.mpr h
      apply List.pairwise_map.mp
      rw [List.map_reverse, htimes, List.reverse_reverse]
      exact hordered
    · intro s
      have hdistinct : history.reverse.Pairwise fun a b => a.timestamp ≠ b.timestamp :=
        List.pairwise_reverse.mpr (h.imp fun hlt => hlt.ne')
      rw [List.mem_reverse, mem_replaceSample hdistinct hreplaced, List.mem_reverse]
  · rename_i hnone
    have hnew : ∀ s ∈ history, s.timestamp ≠ sample.timestamp := fun s hs =>
      replaceSample_eq_none.mp hnone s (List.mem_reverse.mpr hs)
    constructor
    · -- sorting orders them, and the moments were distinct before
      have hsorted := List.pairwise_insertionSort
        (fun a b : BrokerTPSSample => a.timestamp ≤ b.timestamp) (history ++ [sample])
      have hdistinct : (history ++ [sample]).Pairwise fun a b => a.timestamp ≠ b.timestamp := by
        refine List.pairwise_append.mpr ⟨h.imp fun hlt => hlt.ne, List.pairwise_singleton _ _, ?_⟩
        intro s hs t ht
        rw [List.mem_singleton.mp ht]
        exact hnew s hs
      have hkept := (List.perm_insertionSort
        (fun a b : BrokerTPSSample => a.timestamp ≤ b.timestamp) _).symm.pairwise hdistinct
          fun hab => hab.symm
      exact (hsorted.and hkept).imp fun hab => lt_of_le_of_ne hab.1 hab.2
    · intro s
      rw [List.mem_insertionSort, List.mem_append, List.mem_singleton]
      constructor
      · rintro (hs | rfl)
        · exact .inr ⟨hs, hnew s hs⟩
        · exact .inl rfl
      · rintro (rfl | ⟨hs, -⟩)
        · exact .inr rfl
        · exact .inl hs

theorem upsertTPSSample_unchanged {history : BrokerTPSHistory} {sample : BrokerTPSSample}
    (h : (upsertTPSSample history sample).2 = false) :
    (upsertTPSSample history sample).1 = history := by
  unfold upsertTPSSample at h ⊢
  split at h
  · rename_i replaced changed hreplaced
    have hsame : replaced = history.reverse := replaceSample_unchanged hreplaced h
    show replaced.reverse = history
    rw [hsame, List.reverse_reverse]
  · cases h

/-! ## §5 What a Collection Does -/

/-- The samples stored under a key. -/
def samplesOf (history : Histories) (key : String) : BrokerTPSHistory :=
  history[key]?.join.getD []

/-- Every entry of the histories has samples. -/
def Filled (history : Histories) : Prop :=
  ∀ (key : String) (entry : Option BrokerTPSHistory), history[key]? = some entry →
    ∃ samples, entry = some samples ∧ samples ≠ []

theorem samplesOf_insert (history : Histories) (key other : String) (samples : BrokerTPSHistory) :
    samplesOf (history.insert key (some samples)) other =
      if key = other then samples else samplesOf history other := by
  unfold samplesOf
  rw [TreeMap.getElem?_insert_ite]
  split <;> rfl

/-- What pruning leaves of one entry. -/
def pruned (nowMinute : Int) (entry : Option BrokerTPSHistory) : Option (Option BrokerTPSHistory) :=
  entry.bind fun samples =>
    let normalized := normalizeTPSSamples samples (cutoff nowMinute) nowMinute
    if normalized = [] then none else some (some normalized)

theorem getElem?_pruneHistory (nowMinute : Int) (state : Histories × Bool) (key : String)
    (entry : Option BrokerTPSHistory) (other : String) :
    (pruneHistory nowMinute state key entry).1[other]? =
      if key = other then pruned nowMinute entry else state.1[other]? := by
  cases entry with
  | none =>
    simp only [pruneHistory, pruned, Option.bind_none, Std.ExtTreeMap.getElem?_erase,
      Std.LawfulEqCmp.compare_eq_iff_eq]
  | some samples =>
    simp only [pruneHistory, pruned, Option.bind_some, List.length_eq_zero_iff]
    split
    · simp only [Std.ExtTreeMap.getElem?_erase, Std.LawfulEqCmp.compare_eq_iff_eq]
    · exact TreeMap.getElem?_insert_ite _ _ _ _

/-- **Pruning** visits every entry once. -/
theorem getElem?_pruneTPSHistoryLocked (history : Histories) (nowMinute : Int) (key : String) :
    (pruneTPSHistoryLocked history nowMinute).1[key]? = history[key]?.bind (pruned nowMinute) := by
  have hown := TreeMap.foldl_own history (fun state key => state.1[key]?)
    (fun _ entry _ => pruned nowMinute entry)
    (fun state key entry other => getElem?_pruneHistory nowMinute state key entry other)
    (history, false) key
  rw [pruneTPSHistoryLocked, hown]
  cases history[key]? <;> rfl

theorem samplesOf_pruneTPSHistoryLocked (history : Histories) (nowMinute : Int) (key : String) :
    samplesOf (pruneTPSHistoryLocked history nowMinute).1 key =
      normalizeTPSSamples (samplesOf history key) (cutoff nowMinute) nowMinute := by
  have hnothing : normalizeTPSSamples [] (cutoff nowMinute) nowMinute = [] :=
    TreeMap.values_empty
  unfold samplesOf
  rw [getElem?_pruneTPSHistoryLocked]
  cases history[key]? with
  | none => exact hnothing.symm
  | some entry =>
    cases entry with
    | none => exact hnothing.symm
    | some samples =>
      simp only [Option.bind_some, pruned]
      split
      · rename_i hempty
        exact hempty.symm
      · rfl

theorem pruneTPSHistoryLocked_filled (history : Histories) (nowMinute : Int) :
    Filled (pruneTPSHistoryLocked history nowMinute).1 := by
  intro key entry hentry
  rw [getElem?_pruneTPSHistoryLocked] at hentry
  obtain ⟨old, -, hold⟩ := Option.bind_eq_some_iff.mp hentry
  obtain ⟨samples, -, hsamples⟩ := Option.bind_eq_some_iff.mp hold
  dsimp only at hsamples
  split at hsamples
  · cases hsamples
  · rename_i hne
    cases hsamples
    exact ⟨_, rfl, hne⟩

/-- Pruning that reports no change made none. -/
theorem pruneTPSHistoryLocked_unchanged {history : Histories} {nowMinute : Int}
    (h : (pruneTPSHistoryLocked history nowMinute).2 = false) :
    (pruneTPSHistoryLocked history nowMinute).1 = history := by
  refine TreeMap.foldl_invariant_mem history (s := (history, false))
    (fun state => state.2 = false → state.1 = history) ?_ (fun _ => rfl) h
  intro state key entry hentry hstate hflag
  cases entry with
  | none => cases hflag
  | some samples =>
    unfold pruneHistory at hflag ⊢
    dsimp only at hflag ⊢
    split at hflag
    · cases hflag
    · rename_i hne
      simp only [Bool.or_eq_false_iff, Bool.not_eq_false', tpsSamplesEqual, beq_iff_eq] at hflag
      rw [if_neg hne, ← hflag.2, hstate hflag.1]
      exact TreeMap.insert_same hentry

/-- The sample one broker of a call has for a key. -/
def reading (connID nowMinute : Int) (key : String) : Option Node → Option BrokerTPSSample
  | none => none
  | some broker =>
    if broker.address ≠ "" ∧ tpsHistoryKey connID broker.address = key ∧ broker.Sampled then
      some { timestamp := nowMinute, tpsIn := broker.rateIn, tpsOut := broker.rateOut }
    else none

theorem reading_timestamp {connID nowMinute : Int} {key : String} {broker : Option Node}
    {s : BrokerTPSSample} (h : reading connID nowMinute key broker = some s) :
    s.timestamp = nowMinute := by
  cases broker with
  | none => cases h
  | some broker =>
    simp only [reading] at h
    split at h
    · cases h
      rfl
    · cases h

/-- **One broker** adds its reading, if it has one, to the history of its key. -/
theorem samplesOf_recordBroker (connID nowMinute : Int) (turn : Recording) (broker : Option Node)
    (key : String) :
    samplesOf (recordBroker connID nowMinute turn broker).history key =
      (reading connID nowMinute key broker).elim (samplesOf turn.history key)
        fun s => (upsertTPSSample (samplesOf turn.history key) s).1 := by
  cases broker with
  | none => rfl
  | some broker =>
    unfold recordBroker reading
    dsimp only
    by_cases haddress : broker.address = ""
    · simp [haddress]
    by_cases hkey : tpsHistoryKey connID broker.address = key
    · subst hkey
      by_cases hsampled : broker.Sampled
      · simp [haddress, hsampled, samplesOf]
      · by_cases hknown : turn.history[tpsHistoryKey connID broker.address]?.join = none
        · simp [haddress, hsampled, hknown]
        · simp [haddress, hsampled, hknown, samplesOf]
    · -- a history of another key is left alone
      simp only [haddress, hkey, if_false, not_false_eq_true, false_and, and_false, ne_eq,
        Option.elim_none]
      split
      · rfl
      · rw [samplesOf_insert, if_neg hkey]

theorem recordBroker_filled {connID nowMinute : Int} {turn : Recording} (h : Filled turn.history)
    (hordered : ∀ key, Ordered (samplesOf turn.history key)) (broker : Option Node) :
    Filled (recordBroker connID nowMinute turn broker).history := by
  cases broker with
  | none => exact h
  | some broker =>
    unfold recordBroker
    dsimp only
    split
    · exact h
    split
    · exact h
    · rename_i hrecorded
      intro key entry hentry
      rw [TreeMap.getElem?_insert_ite] at hentry
      split at hentry
      · cases hentry
        refine ⟨_, rfl, ?_⟩
        split
        · -- a new sample is there
          have hadded := (upsertTPSSample_spec (hordered (tpsHistoryKey connID broker.address))
            { timestamp := nowMinute, tpsIn := broker.rateIn, tpsOut := broker.rateOut }).2
          exact List.ne_nil_of_mem ((hadded _).mpr (.inl rfl))
        · rename_i hunsampled
          rw [not_and, not_not] at hrecorded
          cases hknown : turn.history[tpsHistoryKey connID broker.address]?.join with
          | none => exact absurd (hrecorded hknown) hunsampled
          | some samples =>
            obtain ⟨stored, hstored, hne⟩ := h _ _ (Option.join_eq_some_iff.mp hknown)
            cases hstored
            exact hne
      · exact h key entry hentry

/-- A turn that reports no change made none. -/
theorem recordBroker_unchanged {connID nowMinute : Int} {turn : Recording} {broker : Option Node}
    (h : (recordBroker connID nowMinute turn broker).changed = false) :
    turn.changed = false ∧ (recordBroker connID nowMinute turn broker).history = turn.history := by
  cases broker with
  | none => exact ⟨h, rfl⟩
  | some broker =>
    unfold recordBroker at h ⊢
    dsimp only at h ⊢
    split at h
    · rename_i haddress
      rw [if_pos haddress]
      exact ⟨h, rfl⟩
    split at h
    · rename_i haddress hunrecorded
      rw [if_neg haddress, if_pos hunrecorded]
      exact ⟨h, rfl⟩
    · rename_i haddress hrecorded
      rw [if_neg haddress, if_neg hrecorded]
      obtain ⟨hupsert, hchanged⟩ := Bool.or_eq_false_iff.mp h
      refine ⟨hchanged, ?_⟩
      dsimp only
      split at hupsert
      · rename_i hsampled
        rw [if_pos hsampled, upsertTPSSample_unchanged hupsert]
        cases hknown : turn.history[tpsHistoryKey connID broker.address]?.join with
        | none =>
          -- a history that was not there cannot have held the sample
          rw [hknown] at hupsert
          cases hupsert
        | some samples => exact TreeMap.insert_same (Option.join_eq_some_iff.mp hknown)
      · rename_i hunsampled
        rw [if_neg hunsampled]
        rw [not_and, not_not] at hrecorded
        cases hknown : turn.history[tpsHistoryKey connID broker.address]?.join with
        | none => exact absurd (hrecorded hknown) hunsampled
        | some samples => exact TreeMap.insert_same (Option.join_eq_some_iff.mp hknown)

/-- `recordBrokerTPS` takes the brokers one after the other. -/
theorem recordBrokerTPS_concat (history : Histories) (now connID : Int)
    (earlier : List (Option Node)) (broker : Option Node) :
    recordBrokerTPS history ⟨now, connID, earlier ++ [broker]⟩ =
      recordBroker connID (truncateMinute now) (recordBrokerTPS history ⟨now, connID, earlier⟩)
        broker := by
  simp [recordBrokerTPS, List.foldl_append]

/-- The readings a call has for a key, in order. -/
def readings (call : Collection) (key : String) : List BrokerTPSSample :=
  call.brokers.filterMap (reading call.connID (truncateMinute call.now) key)

/-- **A collection**: what it leaves under a key is ordered; of the current minute it holds the last
    reading, or what was stored where there is none, and of the other minutes what was stored within
    the hour. -/
theorem samplesOf_recordBrokerTPS {history : Histories}
    (call : Collection) (key : String) :
    Ordered (samplesOf (recordBrokerTPS history call).history key) ∧
      ∀ s, s ∈ samplesOf (recordBrokerTPS history call).history key ↔
        match (readings call key).getLast? with
        | some last => s = last ∨
            s ∈ normalizeTPSSamples (samplesOf history key) (cutoff (truncateMinute call.now))
              (truncateMinute call.now) ∧ s.timestamp ≠ truncateMinute call.now
        | none =>
            s ∈ normalizeTPSSamples (samplesOf history key) (cutoff (truncateMinute call.now))
              (truncateMinute call.now) := by
  obtain ⟨now, connID, brokers⟩ := call
  unfold readings
  -- broker by broker, with the readings of those already taken
  induction brokers using List.reverseRecOn with
  | nil =>
    have hstart : samplesOf (recordBrokerTPS history ⟨now, connID, []⟩).history key =
        normalizeTPSSamples (samplesOf history key) (cutoff (truncateMinute now))
          (truncateMinute now) := samplesOf_pruneTPSHistoryLocked history _ key
    rw [hstart]
    exact ⟨normalizeTPSSamples_ordered _ _ _, fun s => Iff.rfl⟩
  | append_singleton earlier broker ih =>
    obtain ⟨hordered, hmem⟩ := ih
    rw [recordBrokerTPS_concat, samplesOf_recordBroker]
    dsimp only at hmem ⊢
    rw [List.filterMap_append]
    cases hreading : reading connID (truncateMinute now) key broker with
    | none =>
      simp only [Option.elim_none, List.filterMap_cons, hreading, List.filterMap_nil,
        List.append_nil]
      exact ⟨hordered, hmem⟩
    | some last =>
      have htime := reading_timestamp hreading
      obtain ⟨hadded, hmemAdded⟩ := upsertTPSSample_spec hordered last
      simp only [Option.elim_some, List.filterMap_cons, hreading, List.filterMap_nil,
        List.getLast?_append, List.getLast?_singleton, Option.some_or]
      refine ⟨hadded, fun s => ?_⟩
      rw [hmemAdded s, hmem s, htime]
      split
      · -- the reading before this one was of the same minute, and gives way
        rename_i before hbefore
        have hbeforeTime : before.timestamp = truncateMinute now := by
          obtain ⟨other, -, hother⟩ := List.mem_filterMap.mp (List.mem_of_getLast? hbefore)
          exact reading_timestamp hother
        constructor
        · rintro (rfl | ⟨rfl | hs, hne⟩)
          · exact .inl rfl
          · exact absurd hbeforeTime hne
          · exact .inr hs
        · rintro (rfl | ⟨hs, hne⟩)
          · exact .inl rfl
          · exact .inr ⟨.inr ⟨hs, hne⟩, hne⟩
      · exact Iff.rfl

theorem recordBrokerTPS_filled (history : Histories) (call : Collection) :
    Filled (recordBrokerTPS history call).history := by
  obtain ⟨now, connID, brokers⟩ := call
  induction brokers using List.reverseRecOn with
  | nil => exact pruneTPSHistoryLocked_filled history _
  | append_singleton earlier broker ih =>
    rw [recordBrokerTPS_concat]
    exact recordBroker_filled ih (fun key => (samplesOf_recordBrokerTPS _ key).1) broker

/-- **What is not saved did not change**: where a history file is kept, it is left as it is only if
    the collection left the histories as they were. -/
theorem savedBy_eq_none {historyFilePath : String} {history : Histories} {call : Collection}
    (hpath : trimSpace historyFilePath ≠ "")
    (h : savedBy historyFilePath (recordBrokerTPS history call) = none) :
    (recordBrokerTPS history call).history = history := by
  unfold savedBy at h
  split at h
  · rename_i hunsaved
    have hflag := hunsaved.resolve_right hpath
    rw [Bool.not_eq_true] at hflag
    clear h hunsaved
    obtain ⟨now, connID, brokers⟩ := call
    induction brokers using List.reverseRecOn with
    | nil => exact pruneTPSHistoryLocked_unchanged hflag
    | append_singleton earlier broker ih =>
      rw [recordBrokerTPS_concat] at hflag ⊢
      obtain ⟨hearlier, hsame⟩ := recordBroker_unchanged hflag
      rw [hsame, ih hearlier]
  · cases h

/-! ## §6 What a Run of Collections Keeps -/

/-- What the file held under a key. -/
def fileSamples (file : Option TPSHistoryStore) (key : String) : BrokerTPSHistory :=
  ((file.bind TPSHistoryStore.brokers).map fun brokers => samplesOf brokers key).getD []

/-- A sample of a minute, or one the file held. -/
def MinuteOrFile (file : Option TPSHistoryStore) (key : String) (s : BrokerTPSSample) : Prop :=
  secondsPerMinute ∣ s.timestamp ∨ s ∈ fileSamples file key

theorem dvd_truncateMinute (now : Int) : secondsPerMinute ∣ truncateMinute now :=
  Int.dvd_self_sub_emod

theorem minuteOrFile_loadTPSHistory (historyFilePath : String) (file : Option TPSHistoryStore)
    (now : Int) (key : String) :
    Ordered (samplesOf (loadTPSHistory historyFilePath file now) key) ∧
      ∀ s ∈ samplesOf (loadTPSHistory historyFilePath file now) key, MinuteOrFile file key s := by
  have hnothing : samplesOf ∅ key = [] := by simp [samplesOf]
  unfold loadTPSHistory
  split
  · rw [hnothing]
    exact ⟨List.Pairwise.nil, by simp⟩
  split
  · rw [hnothing]
    exact ⟨List.Pairwise.nil, by simp⟩
  split
  · rw [hnothing]
    exact ⟨List.Pairwise.nil, by simp⟩
  split
  · rw [hnothing]
    exact ⟨List.Pairwise.nil, by simp⟩
  · rename_i store _ brokers hbrokers
    rw [samplesOf_pruneTPSHistoryLocked]
    refine ⟨normalizeTPSSamples_ordered _ _ _, fun s hs => .inr ?_⟩
    simpa [fileSamples, hbrokers] using (mem_of_mem_normalizeTPSSamples hs).1

/-- What a collection leaves was there before it or is of its minute. -/
theorem mem_or_timestamp {history : Histories} {call : Collection} {key : String}
    {s : BrokerTPSSample} (hs : s ∈ samplesOf (recordBrokerTPS history call).history key) :
    s ∈ samplesOf history key ∨ s.timestamp = truncateMinute call.now := by
  rw [(samplesOf_recordBrokerTPS call key).2 s] at hs
  split at hs
  · rename_i last hlast
    rcases hs with rfl | hs
    · obtain ⟨broker, -, hbroker⟩ := List.mem_filterMap.mp (List.mem_of_getLast? hlast)
      exact .inr (reading_timestamp hbroker)
    · exact .inl (mem_of_mem_normalizeTPSSamples hs.1).1
  · exact .inl (mem_of_mem_normalizeTPSSamples hs).1

/-- **Along a run** the histories stay ordered, and have samples of minutes and of the file only. -/
theorem collected_minuteOrFile {file : Option TPSHistoryStore} {history : Histories} {key : String}
    (h : Ordered (samplesOf history key) ∧ ∀ s ∈ samplesOf history key, MinuteOrFile file key s)
    (calls : List Collection) :
    Ordered (samplesOf (collected history calls) key) ∧
      ∀ s ∈ samplesOf (collected history calls) key, MinuteOrFile file key s := by
  induction calls generalizing history with
  | nil => exact h
  | cons call rest ih =>
    apply ih
    refine ⟨(samplesOf_recordBrokerTPS call key).1, fun s hs => ?_⟩
    rcases mem_or_timestamp hs with hold | hnew
    · exact h.2 s hold
    · left
      rw [hnew]
      exact dvd_truncateMinute call.now

/-- An hour has sixty minutes. -/
theorem length_le_tpsHistoryMinutes {samples : BrokerTPSHistory} {nowMinute : Int}
    (hordered : Ordered samples) (hwithin : ∀ s ∈ samples, Within nowMinute s)
    (hminute : ∀ s ∈ samples, secondsPerMinute ∣ s.timestamp) :
    (samples.length : Int) ≤ tpsHistoryMinutes := by
  let minutes := samples.map fun s => s.timestamp / secondsPerMinute
  have hnodup : minutes.Nodup := by
    refine List.pairwise_map.mpr (hordered.imp_of_mem fun {a b} ha hb hab heq => ?_)
    have hwhole := congrArg (· * secondsPerMinute) heq
    simp only [Int.ediv_mul_cancel (hminute a ha), Int.ediv_mul_cancel (hminute b hb)] at hwhole
    exact absurd hwhole hab.ne
  have hsubset : minutes.toFinset ⊆
      Finset.Icc (nowMinute / secondsPerMinute - 59) (nowMinute / secondsPerMinute) := by
    intro minute hm
    obtain ⟨s, hs, rfl⟩ := List.mem_map.mp (List.mem_toFinset.mp hm)
    have hs' := hwithin s hs
    simp only [Within, cutoff, tpsHistoryMinutes, secondsPerMinute] at hs'
    simp only [secondsPerMinute, Finset.mem_Icc]
    omega
  have hcard := Finset.card_le_card hsubset
  rw [List.toFinset_card_of_nodup hnodup, Int.card_Icc, List.length_map] at hcard
  simp only [tpsHistoryMinutes]
  omega

/-- What a broker is handed of the histories. -/
def handedFrom (connID : Int) (history : Histories) : Option Node → Option Node
  | none => none
  | some broker =>
    if broker.address = "" then some broker
    else
      some (copyTPSHistoryToBroker (samplesOf history (tpsHistoryKey connID broker.address)) broker)

/-- **A turn** hands its broker what is stored once the broker's own reading is. -/
theorem handed_recordBroker (connID nowMinute : Int) (turn : Recording) (broker : Option Node) :
    (recordBroker connID nowMinute turn broker).handed =
      turn.handed ++ [handedFrom connID (recordBroker connID nowMinute turn broker).history broker] := by
  cases broker with
  | none => rfl
  | some broker =>
    unfold recordBroker handedFrom
    dsimp only
    split
    · rfl
    · split
      · rename_i hunrecorded
        rw [samplesOf, hunrecorded.1, Option.getD_none]
      · rw [samplesOf_insert, if_pos rfl]

theorem length_handed (history : Histories) (now connID : Int) (brokers : List (Option Node)) :
    (recordBrokerTPS history ⟨now, connID, brokers⟩).handed.length = brokers.length := by
  induction brokers using List.reverseRecOn with
  | nil => rfl
  | append_singleton earlier broker ih =>
    rw [recordBrokerTPS_concat, handed_recordBroker, List.length_append, ih, List.length_append]
    rfl

/-- **What a broker is handed** is not touched by the turns after its own. -/
theorem getElem?_handed (history : Histories) (now connID : Int) (earlier later : List (Option Node))
    (broker : Option Node) :
    (recordBrokerTPS history ⟨now, connID, earlier ++ broker :: later⟩).handed[earlier.length]? =
      some (handedFrom connID
        (recordBrokerTPS history ⟨now, connID, earlier ++ [broker]⟩).history broker) := by
  induction later using List.reverseRecOn with
  | nil =>
    rw [recordBrokerTPS_concat, handed_recordBroker,
      List.getElem?_append_right (by rw [length_handed]), length_handed]
    simp
  | append_singleton later last ih =>
    rw [show earlier ++ broker :: (later ++ [last]) = (earlier ++ broker :: later) ++ [last] by simp,
      recordBrokerTPS_concat, handed_recordBroker,
      List.getElem?_append_left (by rw [length_handed]; simp), ih]

/-- Brokers without a reading for a key leave its history alone. -/
theorem samplesOf_append_unread {history : Histories} {now connID : Int} {key : String}
    (earlier : List (Option Node)) {later : List (Option Node)}
    (h : ∀ other ∈ later, reading connID (truncateMinute now) key other = none) :
    samplesOf (recordBrokerTPS history ⟨now, connID, earlier ++ later⟩).history key =
      samplesOf (recordBrokerTPS history ⟨now, connID, earlier⟩).history key := by
  induction later using List.reverseRecOn with
  | nil => rw [List.append_nil]
  | append_singleton later last ih =>
    have hlast := h last (List.mem_append_right _ (List.mem_singleton_self _))
    rw [← List.append_assoc, recordBrokerTPS_concat, samplesOf_recordBroker, hlast,
      Option.elim_none, ih fun other hother => h other (List.mem_append_left _ hother)]

/-- What a collection, after any number of others, makes of the histories and of its brokers. -/
structure Kept (file : Option TPSHistoryStore) (before : Histories) (call : Collection)
    (done : Recording) : Prop where
  filled : Filled done.history
  ordered : ∀ key, Ordered (samplesOf done.history key)
  within : ∀ key, ∀ s ∈ samplesOf done.history key, Within (truncateMinute call.now) s
  /-- Only the file puts a sample between two minutes. -/
  minutes : ∀ key, ∀ s ∈ samplesOf done.history key, MinuteOrFile file key s
  sixty : ∀ key, (∀ s ∈ fileSamples file key, secondsPerMinute ∣ s.timestamp) →
    ((samplesOf done.history key).length : Int) ≤ tpsHistoryMinutes
  current : ∀ key s, s.timestamp = truncateMinute call.now →
    (s ∈ samplesOf done.history key ↔
      match (readings call key).getLast? with
      | some last => s = last
      | none => s ∈ samplesOf before key)
  others : ∀ key s, s.timestamp ≠ truncateMinute call.now →
    (s ∈ samplesOf done.history key ↔
      s ∈ samplesOf before key ∧ Within (truncateMinute call.now) s)
  /-- A broker is handed what is stored when its turn is over, and that is what is stored in the end
      unless one after it has a reading for the same address. -/
  handed : ∀ earlier broker later, call.brokers = earlier ++ some broker :: later →
    broker.address ≠ "" →
    let key := tpsHistoryKey call.connID broker.address
    let turn := recordBrokerTPS before { call with brokers := earlier ++ [some broker] }
    ∃ node, done.handed[earlier.length]? = some (some node) ∧
      node = copyTPSHistoryToBroker (samplesOf turn.history key) broker ∧
      node.tpsInHistory.length = node.tpsHistoryTimestamps.length ∧
      node.tpsOutHistory.length = node.tpsHistoryTimestamps.length ∧
      ((∀ other ∈ later, reading call.connID (truncateMinute call.now) key other = none) →
        samplesOf turn.history key = samplesOf done.history key)

/-- **The histories of any run**: whatever the file held, however often the collector ran and however
    the clock moved between its calls. -/
theorem recordBrokerTPS_keeps (historyFilePath : String) (file : Option TPSHistoryStore)
    (started : Int) (calls : List Collection) (call : Collection) :
    Kept file (collected (loadTPSHistory historyFilePath file started) calls) call
      (recordBrokerTPS (collected (loadTPSHistory historyFilePath file started) calls) call) := by
  have hbefore := fun key => collected_minuteOrFile
    (minuteOrFile_loadTPSHistory historyFilePath file started key) calls
  generalize collected (loadTPSHistory historyFilePath file started) calls = before at hbefore ⊢
  have hspec := @samplesOf_recordBrokerTPS before call
  have hreading : ∀ {key last}, (readings call key).getLast? = some last →
      last.timestamp = truncateMinute call.now := fun {key last} hlast => by
    obtain ⟨broker, -, hbroker⟩ := List.mem_filterMap.mp (List.mem_of_getLast? hlast)
    exact reading_timestamp hbroker
  have hwithin : ∀ key, ∀ s ∈ samplesOf (recordBrokerTPS before call).history key,
      Within (truncateMinute call.now) s := by
    intro key s hs
    have hnow : Within (truncateMinute call.now)
        { timestamp := truncateMinute call.now, tpsIn := 0, tpsOut := 0 } := by
      simp only [Within, cutoff, tpsHistoryMinutes, secondsPerMinute]
      omega
    rw [(hspec key).2 s] at hs
    split at hs
    · rename_i last hlast
      rcases hs with rfl | hs
      · simpa [Within, hreading hlast] using hnow
      · exact (mem_of_mem_normalizeTPSSamples hs.1).2
    · exact (mem_of_mem_normalizeTPSSamples hs).2
  have hminutes : ∀ key, ∀ s ∈ samplesOf (recordBrokerTPS before call).history key,
      MinuteOrFile file key s := by
    intro key s hs
    rcases mem_or_timestamp hs with hold | hnew
    · exact (hbefore key).2 s hold
    · left
      rw [hnew]
      exact dvd_truncateMinute call.now
  constructor
  case filled => exact recordBrokerTPS_filled before call
  case ordered => exact fun key => (hspec key).1
  case within => exact hwithin
  case minutes => exact hminutes
  case sixty =>
    intro key hfile
    apply length_le_tpsHistoryMinutes (hspec key).1 (hwithin key)
    intro s hs
    exact (hminutes key s hs).elim id fun hmem => hfile s hmem
  case current =>
    intro key s htime
    have hnow : cutoff (truncateMinute call.now) ≤ s.timestamp ∧
        s.timestamp ≤ truncateMinute call.now := by
      simp only [cutoff, tpsHistoryMinutes, secondsPerMinute]
      omega
    rw [(hspec key).2 s]
    split
    · simp [htime]
    · rw [mem_normalizeTPSSamples (hbefore key).1]
      simp [hnow]
  case others =>
    intro key s htime
    rw [(hspec key).2 s]
    split
    · rename_i last hlast
      have hother : s ≠ last := by
        rintro rfl
        exact htime (hreading hlast)
      rw [mem_normalizeTPSSamples (hbefore key).1]
      simp [hother, htime, Within]
    · rw [mem_normalizeTPSSamples (hbefore key).1]
      rfl
  case handed =>
    obtain ⟨now, connID, brokers⟩ := call
    intro earlier broker later hbrokers haddress
    dsimp only at hbrokers ⊢
    subst hbrokers
    refine ⟨_, ?_, rfl, by simp [copyTPSHistoryToBroker], by simp [copyTPSHistoryToBroker], ?_⟩
    · rw [getElem?_handed]
      simp [handedFrom, haddress]
    · intro hunread
      rw [show earlier ++ some broker :: later = (earlier ++ [some broker]) ++ later by simp]
      exact (samplesOf_append_unread _ hunread).symm

/-- A file with one sample, taken half a minute after a minute. -/
def betweenMinutes : TPSHistoryStore where
  version := 1
  brokers := some ((∅ : Histories).insert "7|a" (some [⟨90, 1, 1⟩]))

/-- A broker that takes in and gives out so much. -/
def onlineBroker (rate : Int) : Node where
  address := "a"
  status := .online
  rateIn := rate
  rateOut := rate
  tpsHistoryTimestamps := []
  tpsInHistory := []
  tpsOutHistory := []

/-- **Between minutes, between brokers**: the file's sample is kept where it stands, and the first of
    two brokers with one address is handed a sample that the second replaces. -/
theorem recordBrokerTPS_betweenMinutes :
    (samplesOf (recordBrokerTPS (loadTPSHistory "tps.json" (some betweenMinutes) 120)
        ⟨120, 7, []⟩).history "7|a").map BrokerTPSSample.timestamp = [90] ∧
      ¬ secondsPerMinute ∣ 90 ∧
      (let done := recordBrokerTPS ∅ ⟨120, 7, [some (onlineBroker 1), some (onlineBroker 2)]⟩
       samplesOf done.history "7|a" = [⟨120, 2, 2⟩] ∧
        (done.handed.map fun broker => (broker.map Node.tpsInHistory).getD []) = [[1], [2]]) := by
  decide

end MqStudio.Cluster
