import MqStudio.Lib.Machine
import MqStudio.Lib.Properties
import MqStudio.Lib.Utf8

/-!
# What Was Sent

`frontend/src/lib/producerDrafts.ts`: the message last sent to each topic, kept for each connection in
one file of the window's storage. A save enters the message and the topic and then trims the file: of
each connection the drafts saved last, and of the connections those with the newest drafts. What it
entered has a place among the others like any other entry, and it may be what is trimmed.

Reading the file gives back what was written: what others wrote to it is left out. The storage may
refuse a write, which is ignored.

## Main definitions

- `saveProducerDraft`, `clearProducerDraft`: what they write and return.
- `HasRoom`: what was entered is not what is trimmed.

## Main results

- `remembered_iff`: in every sequence of calls, after a save that is written the file is bounded, and
  what was sent is in it exactly where there was room for it.
- `eleventh_forgotten`: the eleventh of eleven connections saved at one reading of the clock is not.
-/

namespace MqStudio.Producer

open MqStudio.Lib

/-! ## Files -/

/-- `ProducerDraft`; a delay that is no finite number is none. -/
structure ProducerDraft where
  tag : String
  key : String
  delay : Option Rat
  body : String
  deriving DecidableEq

/-- `ProducerScope` -/
structure ProducerScope where
  lastTopic : String
  drafts : Object ProducerDraft
  deriving DecidableEq

/-- `StoredDraft` -/
structure StoredDraft where
  tag : String
  key : String
  delay : Nat
  body : String
  savedAt : Nat
  deriving DecidableEq

/-- `StoredScope` -/
structure StoredScope where
  lastTopic : String
  drafts : Object StoredDraft
  deriving DecidableEq

/-- `StoredFile` -/
abbrev StoredFile := Object StoredScope

/-- `MAX_BODY_BYTES` -/
def maxBodyBytes : Nat := 256 * 1024

/-- `MAX_TOPICS_PER_SCOPE` -/
def maxTopicsPerScope : Nat := 30

/-- `MAX_SCOPES` -/
def maxScopes : Nat := 10

/-- `MAX_DELAY_LEVEL` -/
def maxDelayLevel : Nat := 18

/-- `clampDelay` -/
def clampDelay : Option Rat → Nat
  | none => 0
  | some value => min value.floor.toNat maxDelayLevel

/-- `bodyBytes` -/
def bodyBytes (body : String) : Nat := (Utf8.encode body.toList).length

/-- A body is not too large to be kept. -/
def ProducerDraft.fits (draft : ProducerDraft) : Bool := bodyBytes draft.body ≤ maxBodyBytes

/-- The draft as it is kept. -/
def ProducerDraft.stored (draft : ProducerDraft) (now : Nat) : StoredDraft :=
  ⟨draft.tag, draft.key, clampDelay draft.delay, draft.body, now⟩

/-- What every object inherits. -/
def inherited : List String :=
  ["constructor", "__defineGetter__", "__defineSetter__", "hasOwnProperty", "__lookupGetter__",
    "__lookupSetter__", "isPrototypeOf", "propertyIsEnumerable", "toString", "valueOf",
    "__proto__", "toLocaleString"]

/-- What reading a property comes to. -/
inductive Property (α : Type) where
  | absent
  | own (a : α)
  | inherited

/-- `o[key]` -/
def property {α : Type} (o : Object α) (key : String) : Property α :=
  match o.get key with
  | some a => .own a
  | none => if inherited.contains key then .inherited else .absent

/-! ## Trimming -/

/-- `newestSavedAt` -/
def newestSavedAt (scope : StoredScope) : Nat :=
  (scope.drafts.entries.map fun e => e.2.savedAt).foldl max 0

/-- The drafts of one scope that are kept. -/
def StoredScope.trimmed (scope : StoredScope) : StoredScope :=
  { scope with drafts := scope.drafts.cap StoredDraft.savedAt maxTopicsPerScope }

/-- `trim` -/
def trim (file : StoredFile) : StoredFile :=
  (file.mapValues StoredScope.trimmed).cap newestSavedAt maxScopes

/-! ## Calls -/

/-- `toScope`, of a scope that is there. -/
def StoredScope.toScope (stored : StoredScope) : ProducerScope where
  lastTopic := stored.lastTopic
  drafts := stored.drafts.mapValues fun draft =>
    ⟨draft.tag, draft.key, some draft.delay, draft.body⟩

/-- `toScope(undefined)` -/
def noScope : ProducerScope := ⟨"", .empty⟩

/-- `loadProducerScope`; nothing is returned where an error is thrown. -/
def loadProducerScope (file : StoredFile) (scopeKey : String) : Option ProducerScope :=
  match property file scopeKey with
  | .own scope => some scope.toScope
  | .absent => some noScope
  -- what is inherited has no drafts
  | .inherited => none

/-- What a call does: the file it writes, if it comes to that, and what it returns, unless an error
    is thrown. -/
structure Outcome where
  written : Option StoredFile
  returned : Option ProducerScope

/-- The scope with what was sent. -/
def StoredScope.sent (scope : StoredScope) (topic : String) (draft : ProducerDraft) (now : Nat) :
    StoredScope where
  lastTopic := topic
  drafts :=
    -- setting `__proto__` sets no property
    if draft.fits && topic ≠ "__proto__" then scope.drafts.set topic (draft.stored now)
    else scope.drafts

/-- The scope a save enters what was sent in. -/
def scopeOf (file : StoredFile) (scopeKey : String) : StoredScope :=
  (file.get scopeKey).getD ⟨"", .empty⟩

/-- The file with what was sent, before it is trimmed. -/
def entered (file : StoredFile) (scopeKey topic : String) (draft : ProducerDraft) (now : Nat) :
    StoredFile :=
  file.set scopeKey ((scopeOf file scopeKey).sent topic draft now)

/-- `saveProducerDraft` -/
def saveProducerDraft (file : StoredFile) (scopeKey topic : String) (draft : ProducerDraft)
    (now : Nat) : Outcome :=
  if topic = "" then ⟨none, loadProducerScope file scopeKey⟩
  else
    match property file scopeKey with
    | .inherited =>
      -- an error is thrown; with no draft to enter, `__proto__` gets as far as writing the file
      ⟨if scopeKey = "__proto__" && !draft.fits then some (trim file) else none, none⟩
    | _ =>
      let trimmed := trim (entered file scopeKey topic draft now)
      ⟨some trimmed, some (((trimmed.get scopeKey).map StoredScope.toScope).getD noScope)⟩

/-- `clearProducerDraft` -/
def clearProducerDraft (file : StoredFile) (scopeKey topic : String) : Outcome :=
  match property file scopeKey with
  | .inherited => ⟨none, none⟩
  | .absent => ⟨none, some noScope⟩
  | .own scope =>
    if scope.drafts.has topic || inherited.contains topic then
      let cleared := { scope with drafts := scope.drafts.erase topic }
      ⟨some (file.set scopeKey cleared), some cleared.toScope⟩
    else ⟨none, some scope.toScope⟩

/-! ## Sequences of calls -/

/-- The file, and what the clock last read. -/
structure Storage where
  file : StoredFile
  clock : Nat

/-- A call, and whether the storage takes what it writes. -/
inductive Call where
  | save (scopeKey topic : String) (draft : ProducerDraft) (now : Nat) (taken : Bool)
  | clear (scopeKey topic : String) (taken : Bool)

/-- `writeFile` -/
def writeFile (file : StoredFile) (written : Option StoredFile) (taken : Bool) : StoredFile :=
  if taken then written.getD file else file

/-- Every sequence of calls from an empty storage, at a clock that does not go back. -/
def calls : Machine Storage Call where
  start s := s.file = .empty
  step s
    | .save scopeKey topic draft now taken =>
      if now < s.clock then none
      else
        some ⟨writeFile s.file (saveProducerDraft s.file scopeKey topic draft now).written taken, now⟩
    | .clear scopeKey topic taken =>
      some { s with file := writeFile s.file (clearProducerDraft s.file scopeKey topic).written taken }

/-! ## What is remembered -/

/-- At most ten scopes, of at most thirty drafts each. -/
structure Bounded (file : StoredFile) : Prop where
  scopes : file.entries.length ≤ maxScopes
  drafts : ∀ e ∈ file.entries, e.2.drafts.entries.length ≤ maxTopicsPerScope

/-- The content of a draft, as it is kept. -/
def StoredDraft.Holds (stored : StoredDraft) (draft : ProducerDraft) : Prop :=
  stored.tag = draft.tag ∧ stored.key = draft.key ∧ stored.delay = clampDelay draft.delay ∧
    stored.body = draft.body

/-- What was sent is in the file: the scope with its topic, and the draft where its body fits. -/
def Remembered (file : StoredFile) (scopeKey topic : String) (draft : ProducerDraft) : Prop :=
  ∃ scope, file.get scopeKey = some scope ∧ scope.lastTopic = topic ∧
    (draft.fits = true → ∃ stored, scope.drafts.get topic = some stored ∧ stored.Holds draft)

/-- **There is room** for what is sent: its keys name nothing that is inherited, fewer drafts than may
    be kept were saved at this very reading of the clock and are enumerated before its own, and fewer
    scopes than may be kept come before its scope, by their newest drafts and then by how they are
    enumerated. -/
structure HasRoom (file : StoredFile) (scopeKey topic : String) (draft : ProducerDraft)
    (now : Nat) : Prop where
  named : topic ≠ ""
  ownScope : scopeKey ∉ inherited
  ownTopic : draft.fits = true → topic ≠ "__proto__"
  amongDrafts : draft.fits = true →
    ((((scopeOf file scopeKey).sent topic draft now).drafts.entries.takeWhile
      fun e => e.1 ≠ topic).countP fun e => e.2.savedAt = now) < maxTopicsPerScope
  amongScopes : (entered file scopeKey topic draft now).ahead newestSavedAt scopeKey
    ((scopeOf file scopeKey).sent topic draft now) < maxScopes

/-! ## Trimmed files -/

section Trimming

variable {file : StoredFile} {scope : StoredScope} {scopeKey topic : String} {now : Nat}

theorem newestSavedAt_le_iff {n : Nat} :
    newestSavedAt scope ≤ n ↔ ∀ e ∈ scope.drafts.entries, e.2.savedAt ≤ n := by
  have hfold : ∀ (l : List Nat) (start : Nat),
      l.foldl max start ≤ n ↔ start ≤ n ∧ ∀ m ∈ l, m ≤ n := by
    intro l
    induction l with
    | nil => simp
    | cons m rest ih =>
      intro start
      simp only [List.foldl_cons, ih, sup_le_iff, List.forall_mem_cons, and_assoc]
  rw [newestSavedAt, hfold]
  simp only [Nat.zero_le, true_and, List.forall_mem_map]

/-- Trimming keeps the newest draft of a scope. -/
theorem newestSavedAt_trimmed (scope : StoredScope) :
    newestSavedAt scope.trimmed = newestSavedAt scope := by
  apply Nat.le_antisymm
  · apply newestSavedAt_le_iff.mpr
    intro e he
    apply newestSavedAt_le_iff.mp le_rfl
    exact Object.mem_of_mem_cap _ _ he
  · apply newestSavedAt_le_iff.mpr
    intro e he
    have hbelow := newestSavedAt_le_iff.mp (le_refl (newestSavedAt scope.trimmed))
    obtain ⟨high, hhigh, hle⟩ :=
      Object.exists_mem_cap StoredDraft.savedAt (by decide : 0 < maxTopicsPerScope) he
    exact hle.trans (hbelow high hhigh)

theorem mem_trim {e : String × StoredScope} (h : e ∈ (trim file).entries) :
    ∃ scope, (e.1, scope) ∈ file.entries ∧ scope.trimmed = e.2 :=
  Object.mem_mapValues.mp (Object.mem_of_mem_cap _ _ h)

theorem bounded_trim (file : StoredFile) : Bounded (trim file) where
  scopes := Object.length_cap_le _ _
  drafts e he := by
    obtain ⟨scope, -, hscope⟩ := mem_trim he
    rw [← hscope]
    exact Object.length_cap_le _ _

/-- **A scope is kept** where there is room for it. -/
theorem get_trim_iff (h : file.get scopeKey = some scope) :
    (trim file).get scopeKey = some scope.trimmed ↔
      file.ahead newestSavedAt scopeKey scope < maxScopes := by
  have hget : (file.mapValues StoredScope.trimmed).get scopeKey = some scope.trimmed := by
    rw [Object.get_mapValues, h]
    rfl
  rw [trim, Object.get_cap_iff _ _ hget,
    Object.ahead_mapValues newestSavedAt newestSavedAt newestSavedAt_trimmed]

/-- What is kept of a scope is its trimmed self. -/
theorem eq_trimmed_of_get_trim (h : file.get scopeKey = some scope) {kept : StoredScope}
    (hkept : (trim file).get scopeKey = some kept) : kept = scope.trimmed := by
  obtain ⟨other, hother, rfl⟩ := mem_trim (Object.get_eq_some_iff.mp hkept)
  have hsame : file.get scopeKey = some other := Object.get_eq_some_iff.mpr hother
  rw [h] at hsame
  cases hsame
  rfl

/-- **A draft is kept** where fewer than may be were saved at the same reading and are enumerated
    before it, as none was saved later. -/
theorem get_trimmed_iff {draft : StoredDraft} (h : scope.drafts.get topic = some draft)
    (hnewest : ∀ e ∈ scope.drafts.entries, e.2.savedAt ≤ draft.savedAt) :
    scope.trimmed.drafts.get topic = some draft ↔
      ((scope.drafts.entries.takeWhile fun e => e.1 ≠ topic).countP
        fun e => e.2.savedAt = draft.savedAt) < maxTopicsPerScope := by
  have hcount : scope.drafts.ahead StoredDraft.savedAt topic draft =
      (scope.drafts.entries.takeWhile fun e => e.1 ≠ topic).countP
        fun e => e.2.savedAt = draft.savedAt := by
    have hlater : ((scope.drafts.entries.dropWhile fun e => e.1 ≠ topic).tail).countP
        (fun e => draft.savedAt < e.2.savedAt) = 0 := by
      apply List.countP_eq_zero.mpr
      intro e he
      have hmem := (List.dropWhile_sublist _).subset (List.mem_of_mem_tail he)
      simpa using hnewest e hmem
    rw [Object.ahead, Places.place, hlater, Nat.add_zero]
    apply List.countP_congr
    intro e he
    have hle := hnewest e ((List.takeWhile_sublist _).subset he)
    simp only [decide_eq_true_eq]
    omega
  rw [← hcount]
  exact Object.get_cap_iff _ _ h

end Trimming

/-! ## Every sequence of calls -/

/-- The drafts of a scope were saved by some reading of the clock, each under a topic it can have. -/
def StoredScope.Timely (scope : StoredScope) (now : Nat) : Prop :=
  ∀ e ∈ scope.drafts.entries, e.1 ≠ "__proto__" ∧ e.2.savedAt ≤ now

/-- What holds of a file between calls: of its size, its keys and its drafts. -/
structure Tidy (file : StoredFile) (now : Nat) : Prop where
  bounded : Bounded file
  named : ∀ e ∈ file.entries, e.1 ∉ inherited ∧ e.2.lastTopic ≠ ""
  timely : ∀ e ∈ file.entries, e.2.Timely now

section Runs

variable {s t : Storage} {file : StoredFile} {scope : StoredScope} {scopeKey topic : String}
  {draft : ProducerDraft} {now later : Nat} {taken : Bool}

theorem StoredScope.Timely.mono (h : scope.Timely now) (hle : now ≤ later) : scope.Timely later :=
  fun e he => ⟨(h e he).1, (h e he).2.trans hle⟩

theorem StoredScope.Timely.trimmed (h : scope.Timely now) : scope.trimmed.Timely now :=
  fun e he => h e (Object.mem_of_mem_cap _ _ he)

/-- What is sent now was saved by now. -/
theorem StoredScope.Timely.sent (h : scope.Timely now) (topic : String) (draft : ProducerDraft) :
    (scope.sent topic draft now).Timely now := by
  intro e he
  unfold StoredScope.sent at he
  dsimp only at he
  split at he
  · rename_i hfits
    simp only [ne_eq, Bool.and_eq_true, decide_eq_true_eq] at hfits
    rcases Object.mem_set.mp he with rfl | ⟨-, hold⟩
    · exact ⟨hfits.2, le_rfl⟩
    · exact h e hold
  · exact h e he

theorem Tidy.mono (h : Tidy file now) (hle : now ≤ later) : Tidy file later :=
  ⟨h.bounded, h.named, fun e he => (h.timely e he).mono hle⟩

theorem Tidy.scopeOf (h : Tidy file now) (scopeKey : String) :
    (scopeOf file scopeKey).Timely now := by
  unfold Producer.scopeOf
  cases hget : file.get scopeKey with
  | none => exact fun e he => absurd he List.not_mem_nil
  | some scope => exact h.timely (scopeKey, scope) (Object.get_eq_some_iff.mp hget)

/-- The keys a tidy file has are its own. -/
theorem Tidy.property (h : Tidy file now) (scopeKey : String) :
    property file scopeKey = .inherited ↔ scopeKey ∈ inherited := by
  unfold Producer.property
  cases hget : file.get scopeKey with
  | none => simp
  | some scope =>
    have hown := (h.named (scopeKey, scope) (Object.get_eq_some_iff.mp hget)).1
    simp [hown]

/-- A file is trimmed. -/
theorem tidy_trim (hnamed : ∀ e ∈ file.entries, e.1 ∉ inherited ∧ e.2.lastTopic ≠ "")
    (htimely : ∀ e ∈ file.entries, e.2.Timely now) : Tidy (trim file) now := by
  refine ⟨bounded_trim file, fun e he => ?_, fun e he => ?_⟩
  · obtain ⟨scope, hscope, hsame⟩ := mem_trim he
    rw [← hsame]
    exact hnamed _ hscope
  · obtain ⟨scope, hscope, hsame⟩ := mem_trim he
    rw [← hsame]
    exact (htimely _ hscope).trimmed

/-- **A save** keeps a file tidy. -/
theorem Tidy.save (h : Tidy file now) (scopeKey topic : String) (draft : ProducerDraft) :
    ∀ written ∈ (saveProducerDraft file scopeKey topic draft now).written, Tidy written now := by
  intro written hwritten
  unfold saveProducerDraft at hwritten
  split at hwritten
  · cases hwritten
  · rename_i hnamed
    split at hwritten
    · dsimp only at hwritten
      split at hwritten
      · cases hwritten
        exact tidy_trim h.named h.timely
      · cases hwritten
    · rename_i hown
      cases hwritten
      have hkey : scopeKey ∉ inherited := fun hin => hown ((h.property scopeKey).mpr hin)
      apply tidy_trim
      · intro e he
        rcases Object.mem_set.mp he with rfl | ⟨-, hold⟩
        · exact ⟨hkey, hnamed⟩
        · exact h.named e hold
      · intro e he
        rcases Object.mem_set.mp he with rfl | ⟨-, hold⟩
        · exact (h.scopeOf scopeKey).sent topic draft
        · exact h.timely e hold

/-- **A clearing** keeps a file tidy. -/
theorem Tidy.clear (h : Tidy file now) (scopeKey topic : String) :
    ∀ written ∈ (clearProducerDraft file scopeKey topic).written, Tidy written now := by
  intro written hwritten
  unfold clearProducerDraft at hwritten
  split at hwritten
  · cases hwritten
  · cases hwritten
  · rename_i scope hown
    split at hwritten
    · cases hwritten
      have hget : (scopeKey, scope) ∈ file.entries := by
        unfold Producer.property at hown
        split at hown
        · rename_i hsome
          cases hown
          exact Object.get_eq_some_iff.mp hsome
        · split at hown <;> cases hown
      have hless : ∀ d ∈ (scope.drafts.erase topic).entries, d ∈ scope.drafts.entries :=
        fun d hd => (Object.mem_erase.mp hd).2
      refine ⟨⟨?_, fun e he => ?_⟩, fun e he => ?_, fun e he => ?_⟩
      · rw [Object.length_set_of_mem hget]
        exact h.bounded.scopes
      · rcases Object.mem_set.mp he with rfl | ⟨-, hold⟩
        · exact (List.length_filter_le _ _).trans (h.bounded.drafts _ hget)
        · exact h.bounded.drafts e hold
      · rcases Object.mem_set.mp he with rfl | ⟨-, hold⟩
        · exact h.named (scopeKey, scope) hget
        · exact h.named e hold
      · rcases Object.mem_set.mp he with rfl | ⟨-, hold⟩
        · exact fun d hd => h.timely _ hget d (hless d hd)
        · exact h.timely e hold
    · cases hwritten

theorem tidy_writeFile (h : Tidy file now) {written : Option StoredFile}
    (hwritten : ∀ w ∈ written, Tidy w now) (taken : Bool) :
    Tidy (writeFile file written taken) now := by
  unfold writeFile
  split
  · cases written with
    | none => exact h
    | some w => exact hwritten w rfl
  · exact h

/-- **Run lemma**: between any two calls the file is tidy. -/
theorem tidy_reachable (hs : calls.Reachable Machine.Always s) : Tidy s.file s.clock := by
  apply hs.invariant fun s => Tidy s.file s.clock
  · intro s hstart
    have hempty : s.file = .empty := hstart
    rw [hempty]
    have hnone : ∀ e, e ∉ (Object.empty : StoredFile).entries := fun _ => List.not_mem_nil
    exact ⟨⟨Nat.zero_le _, fun e he => absurd he (hnone e)⟩, fun e he => absurd he (hnone e),
      fun e he => absurd he (hnone e)⟩
  · intro s call t _ htidy _ hstep
    cases call with
    | save scopeKey topic draft now taken =>
      simp only [calls] at hstep
      split at hstep
      · cases hstep
      · rename_i hclock
        cases hstep
        have hnow := htidy.mono (Nat.not_lt.mp hclock)
        exact tidy_writeFile hnow (hnow.save scopeKey topic draft) taken
    | clear scopeKey topic taken =>
      cases hstep
      exact tidy_writeFile htidy (htidy.clear scopeKey topic) taken

/-! ## What a save leaves -/

/-- Where its scope is kept, a draft that fits is there just where it is not trimmed. -/
theorem kept_iff (h : scope.Timely now) (hfits : draft.fits = true) :
    (∃ stored, (scope.sent topic draft now).trimmed.drafts.get topic = some stored ∧
        stored.Holds draft) ↔
      topic ≠ "__proto__" ∧ ((((scope.sent topic draft now).drafts.entries.takeWhile
        fun e => e.1 ≠ topic).countP fun e => e.2.savedAt = now) < maxTopicsPerScope) := by
  by_cases hproto : topic = "__proto__"
  · -- no draft is ever under that topic
    refine iff_of_false ?_ fun hkept => hkept.1 hproto
    rintro ⟨stored, hstored, -⟩
    have hmem := Object.get_eq_some_iff.mp hstored
    exact (((h.sent topic draft).trimmed) _ hmem).1 hproto
  · have hget : (scope.sent topic draft now).drafts.get topic = some (draft.stored now) := by
      simp [StoredScope.sent, hfits, hproto]
    have hnewest : ∀ e ∈ (scope.sent topic draft now).drafts.entries,
        e.2.savedAt ≤ (draft.stored now).savedAt := fun e he => (h.sent topic draft e he).2
    have hkept := get_trimmed_iff hget hnewest
    constructor
    · rintro ⟨stored, hstored, -⟩
      refine ⟨hproto, hkept.mp ?_⟩
      have hmem := Object.mem_of_mem_cap _ _ (Object.get_eq_some_iff.mp hstored)
      have hsame := Object.get_eq_some_iff.mpr hmem
      rw [hget] at hsame
      rw [hstored, hsame]
    · rintro ⟨-, hroom⟩
      exact ⟨draft.stored now, hkept.mpr hroom, rfl, rfl, rfl, rfl⟩

/-- **What was just sent is remembered** exactly where there is room for it, after every save of every
    sequence of calls whose write the storage takes; and the file is bounded. -/
theorem remembered_iff (hs : calls.Reachable Machine.Always s)
    (hstep : calls.step s (.save scopeKey topic draft now true) = some t) :
    Bounded t.file ∧
      (Remembered t.file scopeKey topic draft ↔ HasRoom s.file scopeKey topic draft now) := by
  have ht := tidy_reachable (hs.step trivial hstep)
  refine ⟨ht.bounded, ?_⟩
  simp only [calls] at hstep
  split at hstep
  · cases hstep
  · rename_i hclock
    cases hstep
    have hnow := (tidy_reachable hs).mono (Nat.not_lt.mp hclock)
    by_cases hnamed : topic = ""
    · -- nothing is sent to no topic, and no scope was left at one
      refine iff_of_false ?_ fun hroom => hroom.named hnamed
      rintro ⟨scope, hscope, hlast, -⟩
      exact (ht.named _ (Object.get_eq_some_iff.mp hscope)).2 (hlast.trans hnamed)
    · by_cases hkey : scopeKey ∈ inherited
      · refine iff_of_false ?_ fun hroom => hroom.ownScope hkey
        rintro ⟨scope, hscope, -⟩
        exact (ht.named _ (Object.get_eq_some_iff.mp hscope)).1 hkey
      · have hown : property s.file scopeKey ≠ .inherited :=
          fun hin => hkey ((hnow.property scopeKey).mp hin)
        have hwritten : (saveProducerDraft s.file scopeKey topic draft now).written =
            some (trim (entered s.file scopeKey topic draft now)) := by
          unfold saveProducerDraft
          rw [if_neg hnamed]
          split
          · rename_i hin
            exact absurd hin hown
          · rfl
        have hget : (entered s.file scopeKey topic draft now).get scopeKey =
            some ((scopeOf s.file scopeKey).sent topic draft now) := Object.get_set_self
        have htimely := hnow.scopeOf scopeKey
        rw [writeFile, if_pos rfl, hwritten, Option.getD_some]
        constructor
        · rintro ⟨scope, hscope, -, hdraft⟩
          obtain rfl := eq_trimmed_of_get_trim hget hscope
          have hkept := fun hfits => (kept_iff htimely hfits).mp (hdraft hfits)
          exact ⟨hnamed, hkey, fun hfits => (hkept hfits).1, fun hfits => (hkept hfits).2,
            (get_trim_iff hget).mp hscope⟩
        · intro hroom
          refine ⟨_, (get_trim_iff hget).mpr hroom.amongScopes, rfl, fun hfits => ?_⟩
          exact (kept_iff htimely hfits).mpr ⟨hroom.ownTopic hfits, hroom.amongDrafts hfits⟩

end Runs

/-! ## Eleven connections -/

/-- A message about an order. -/
def paid : ProducerDraft := ⟨"order.create", "ORD-1", some 3, "paid"⟩

/-- It is sent over each of some connections, all at one reading of the clock. -/
def burst (scopeKeys : List String) : List Call :=
  scopeKeys.map fun scopeKey => .save scopeKey "orders" paid 1 true

/-- What becomes of an empty storage. -/
def after (made : List Call) : Storage := calls.endOf ⟨.empty, 0⟩ made

theorem after_reachable (made : List Call) : calls.Reachable Machine.Always (after made) :=
  (Machine.Reachable.start rfl).endOf (Machine.permitted_always _ _ made)

/-- The first ten connections. -/
def tenKeys : List String := ["1", "2", "3", "4", "5", "6", "7", "8", "9", "10"]

/-- Sent once more over the first of ten, it is remembered. -/
theorem remembered_iff_paid :
    ∃ t, calls.step (after (burst tenKeys)) (.save "1" "orders" paid 1 true) = some t ∧
      Bounded t.file ∧ Remembered t.file "1" "orders" paid := by
  obtain ⟨t, hstep⟩ := Option.isSome_iff_exists.mp
    (show (calls.step (after (burst tenKeys)) (.save "1" "orders" paid 1 true)).isSome = true by
      decide +kernel)
  obtain ⟨hbounded, hiff⟩ := remembered_iff (after_reachable (burst tenKeys)) hstep
  exact ⟨t, hstep, hbounded, hiff.mpr ⟨by decide, by decide +kernel, fun _ => by decide,
    fun _ => by decide +kernel, by decide +kernel⟩⟩

/-- **The eleventh connection is forgotten** that something is sent over at one reading of the clock. -/
theorem eleventh_forgotten :
    (after (burst (tenKeys ++ ["11"]))).file.get "11" = none ∧
      ¬ ∀ (s t : Storage) (scopeKey topic : String) (draft : ProducerDraft) (now : Nat),
        calls.Reachable Machine.Always s → topic ≠ "" →
          calls.step s (.save scopeKey topic draft now true) = some t →
            Bounded t.file ∧ Remembered t.file scopeKey topic draft := by
  have hstep : (calls.step (after (burst tenKeys)) (.save "11" "orders" paid 1 true)).any
      (fun t => (t.file.get "11").isNone) = true := by decide +kernel
  refine ⟨by decide +kernel, fun hall => ?_⟩
  obtain ⟨t, ht, hnone⟩ := Option.any_eq_true _ _ |>.mp hstep
  obtain ⟨-, scope, hscope, -⟩ := hall _ t "11" "orders" paid 1 (after_reachable _) (by decide) ht
  rw [hscope] at hnone
  cases hnone

end MqStudio.Producer
