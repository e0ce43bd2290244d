import MqStudio.Connection.StoreInvariant

/-!
# Which Ids Loading Gives

`buildConnectionState` repairs ids in one pass: a record whose id is missing, or was carried before,
is given the next free one. A later record may carry that number, and is then renamed itself.

## Main definitions

- `filedIDs`: the id each record is filed under.
- `LoadsFaithfully`: no record is renamed that did not have to be, and the rest of what loading
  promises.
- `Unclaimed`: no record carries a number given to one before it.

## Main results

- `loadsFaithfully_iff`: loading is faithful exactly there.
-/

namespace MqStudio.Connection

open MqStudio.Lib.TreeMap
open MqStudio.Model
open MqStudio.Storage

/-! ## The loop, id by id -/

/-- The ids the loop files a list of records under. -/
def filedIDs : LoadState → List ConnectionProfile → List Int
  | _, [] => []
  | st, p :: rest => (assignID st p.id).1 :: filedIDs (loadStep st p) rest

/-- What the loop makes of a record it files under an id. -/
def loadedAs (id : Int) (p : ConnectionProfile) : ConnectionProfile :=
  normalizeLoaded { p with id := id }

theorem loadStep_loaded (st : LoadState) (p : ConnectionProfile) :
    (loadStep st p).loaded = st.loaded.insert (assignID st p.id).1
      { loadedAs (assignID st p.id).1 p with isDefault := p.isDefault && !st.hasDefault } := by
  unfold loadStep loadedAs
  simp only [normalizeLoaded_isDefault]

theorem loadStep_hasDefault (st : LoadState) (p : ConnectionProfile) :
    (loadStep st p).hasDefault = (st.hasDefault || p.isDefault) := by
  unfold loadStep
  simp only [normalizeLoaded_isDefault]

theorem loadStep_nextID (st : LoadState) (p : ConnectionProfile) :
    (loadStep st p).nextID = (assignID st p.id).2 := rfl

theorem length_filedIDs (st : LoadState) (l : List ConnectionProfile) :
    (filedIDs st l).length = l.length := by
  induction l generalizing st with
  | nil => rfl
  | cons p rest ih => simp [filedIDs, ih]

/-- Every id is new where it is given, and positive. -/
theorem filedIDs_fresh {st : LoadState} (h : LoadInvariant st) (l : List ConnectionProfile) :
    (filedIDs st l).Nodup ∧
      ∀ id, id ∈ filedIDs st l → st.loaded[id]? = none ∧ 0 < id := by
  induction l generalizing st with
  | nil => simp [filedIDs]
  | cons p rest ih =>
    obtain ⟨hfresh, hpositive, -, -⟩ := assignID_spec h p.id
    obtain ⟨hnodup, hrest⟩ := ih (loadStep_invariant h p)
    have hapart : ∀ id, id ∈ filedIDs (loadStep st p) rest → (assignID st p.id).1 ≠ id := by
      intro id hid heq
      have hnone := (hrest id hid).1
      rw [loadStep_loaded, heq, Std.ExtTreeMap.getElem?_insert_self] at hnone
      cases hnone
    rw [filedIDs]
    refine ⟨List.nodup_cons.mpr ⟨fun hmem => hapart _ hmem rfl, hnodup⟩, ?_⟩
    intro id hid
    rcases List.mem_cons.mp hid with rfl | hid
    · exact ⟨hfresh, hpositive⟩
    · obtain ⟨hnone, hpos⟩ := hrest id hid
      rw [loadStep_loaded, getElem?_insert_of_ne _ _ (hapart id hid)] at hnone
      exact ⟨hnone, hpos⟩

/-- **What the loop files**: each record under its id, the first default the default, and what was
    there before. -/
theorem foldl_loadStep_loaded {st : LoadState} (h : LoadInvariant st) (l : List ConnectionProfile)
    (id : Int) :
    (∀ i p, l[i]? = some p → (filedIDs st l)[i]? = some id →
      (l.foldl loadStep st).loaded[id]? = some { loadedAs id p with
        isDefault := p.isDefault && !(st.hasDefault || (l.take i).any ConnectionProfile.isDefault) }) ∧
      (id ∉ filedIDs st l → (l.foldl loadStep st).loaded[id]? = st.loaded[id]?) := by
  induction l generalizing st with
  | nil => simp [filedIDs]
  | cons p rest ih =>
    obtain ⟨hin, hout⟩ := ih (loadStep_invariant h p)
    obtain ⟨hnodup, -⟩ := filedIDs_fresh h (p :: rest)
    rw [filedIDs] at hnodup
    obtain ⟨hnew, -⟩ := List.nodup_cons.mp hnodup
    rw [List.foldl_cons, filedIDs]
    refine ⟨fun i q hq hid => ?_, fun hid => ?_⟩
    · cases i with
      | zero =>
        simp only [List.getElem?_cons_zero, Option.some.injEq] at hq hid
        subst hq hid
        rw [hout hnew, loadStep_loaded, Std.ExtTreeMap.getElem?_insert_self]
        simp
      | succ i =>
        simp only [List.getElem?_cons_succ] at hq hid
        rw [hin i q hq hid, loadStep_hasDefault, List.take_succ_cons, List.any_cons, Bool.or_assoc]
    · obtain ⟨hhead, hrest⟩ := not_or.mp fun hmem => hid (List.mem_cons.mpr hmem)
      rw [hout hrest, loadStep_loaded, getElem?_insert_of_ne _ _ (Ne.symm hhead)]

theorem foldl_loadStep_hasDefault (l : List ConnectionProfile) (st : LoadState) :
    (l.foldl loadStep st).hasDefault = (st.hasDefault || l.any ConnectionProfile.isDefault) := by
  induction l generalizing st with
  | nil => simp
  | cons p rest ih => rw [List.foldl_cons, ih, loadStep_hasDefault, List.any_cons, Bool.or_assoc]

/-! ## Which records keep their ids -/

/-- None of these records carries a number that one before it was given: `before` is what the ones
    before carried, and `next` the next free id. -/
def Unclaimed (before : List Int) (next : Int) : List Int → Prop
  | [] => True
  | id :: rest =>
    if 0 < id ∧ id ∉ before then Unclaimed (id :: before) (max next (id + 1)) rest
    else next ∉ rest ∧ Unclaimed (id :: before) (next + 1) rest

/-- Each record whose id is positive, and was not carried before, is filed under it. -/
def KeepsFrom (st : LoadState) (before : List Int) (l : List ConnectionProfile) : Prop :=
  ∀ i p, l[i]? = some p → 0 < p.id → p.id ∉ before →
    p.id ∉ (l.take i).map ConnectionProfile.id → (filedIDs st l)[i]? = some p.id

/-- An id that need not be replaced is not. -/
theorem assignID_kept {st : LoadState} {id : Int} (hpos : 0 < id) (hfree : st.loaded[id]? = none) :
    assignID st id = (id, max st.nextID (id + 1)) := by
  have habsent : ¬ st.loaded.contains id = true := by
    simp [Std.ExtTreeMap.contains_eq_isSome_getElem?, hfree]
  unfold assignID
  have hsign : ¬ id ≤ 0 := by omega
  simp only [if_neg hsign, if_neg habsent]
  split <;> congr 1 <;> omega

/-- One that must be is replaced by the next free one. -/
theorem assignID_given {st : LoadState} (h : LoadInvariant st) {id : Int}
    (hid : id ≤ 0 ∨ st.loaded[id]? ≠ none) : assignID st id = (st.nextID, st.nextID + 1) := by
  have hfree : st.loaded[st.nextID]? = none := by
    cases hp : st.loaded[st.nextID]? with
    | none => rfl
    | some p => exact absurd (h.below _ p hp) (by omega)
  unfold assignID
  dsimp only
  by_cases hmissing : id ≤ 0
  · have habsent : ¬ st.loaded.contains st.nextID = true := by
      simp [Std.ExtTreeMap.contains_eq_isSome_getElem?, hfree]
    rw [if_pos hmissing, if_neg habsent, if_pos (by omega)]
  · have htaken := hid.resolve_left hmissing
    obtain ⟨p, hp⟩ := Option.ne_none_iff_exists'.mp htaken
    have hpresent : st.loaded.contains id = true := by
      simp [Std.ExtTreeMap.contains_eq_isSome_getElem?, hp]
    have hbelow := h.below id p hp
    rw [if_neg hmissing, if_pos hpresent, if_neg (by omega)]

/-- **Which lists rename no record that need not be.** -/
theorem keepsFrom_iff {st : LoadState} (h : LoadInvariant st) {before : List Int}
    {l : List ConnectionProfile} (hbelow : ∀ id ∈ before, id < st.nextID)
    (hsame : ∀ p ∈ l, 0 < p.id → (st.loaded[p.id]? ≠ none ↔ p.id ∈ before)) :
    KeepsFrom st before l ↔ Unclaimed before st.nextID (l.map ConnectionProfile.id) := by
  induction l generalizing st before with
  | nil => simp [KeepsFrom, Unclaimed]
  | cons p rest ih =>
    have hp := hsame p List.mem_cons_self
    -- what the rest keeps, it keeps with this record's id among those carried before
    have hshift : (∀ i q, rest[i]? = some q → 0 < q.id → q.id ∉ before →
        q.id ∉ ((p :: rest).take (i + 1)).map ConnectionProfile.id →
          (filedIDs (loadStep st p) rest)[i]? = some q.id) ↔
        KeepsFrom (loadStep st p) (p.id :: before) rest := by
      simp only [KeepsFrom, List.take_succ_cons, List.map_cons, List.mem_cons, not_or]
      constructor
      · intro hkeeps i q hq hpos hnot htake
        exact hkeeps i q hq hpos hnot.2 ⟨hnot.1, htake⟩
      · intro hkeeps i q hq hpos hnot htake
        exact hkeeps i q hq hpos ⟨htake.1, hnot⟩ htake.2
    rw [List.map_cons, Unclaimed]
    by_cases hkept : 0 < p.id ∧ p.id ∉ before
    · have hfree : st.loaded[p.id]? = none := by
        by_contra htaken
        exact hkept.2 ((hp hkept.1).mp htaken)
      have hassign := assignID_kept hkept.1 hfree
      have hnext : (loadStep st p).nextID = max st.nextID (p.id + 1) := by
        rw [loadStep_nextID, hassign]
      rw [if_pos hkept, ← hnext, ← ih (loadStep_invariant h p)]
      · rw [← hshift]
        constructor
        · intro hkeeps i q hq hpos hnot htake
          exact hkeeps (i + 1) q hq hpos hnot htake
        · intro hkeeps i q hq hpos hnot htake
          cases i with
          | zero =>
            simp only [List.getElem?_cons_zero, Option.some.injEq] at hq
            subst hq
            rw [filedIDs, hassign, List.getElem?_cons_zero]
          | succ i => exact hkeeps i q hq hpos hnot htake
      · intro id hid
        rw [hnext]
        rcases List.mem_cons.mp hid with rfl | hid
        · omega
        · have := hbelow id hid
          omega
      · intro q hq hpos
        rw [loadStep_loaded, hassign, getElem?_insert_ite, List.mem_cons]
        by_cases heq : p.id = q.id
        · simp [heq]
        · rw [if_neg heq, hsame q (List.mem_cons_of_mem _ hq) hpos]
          simp [Ne.symm heq]
    · have hmust : p.id ≤ 0 ∨ st.loaded[p.id]? ≠ none := by
        by_cases hpos : 0 < p.id
        · refine .inr ((hp hpos).mpr ?_)
          by_contra hnot
          exact hkept ⟨hpos, hnot⟩
        · exact .inl (by omega)
      have hassign := assignID_given h hmust
      have hnext : (loadStep st p).nextID = st.nextID + 1 := by rw [loadStep_nextID, hassign]
      have hkeeps : KeepsFrom st before (p :: rest) ↔
          KeepsFrom (loadStep st p) (p.id :: before) rest := by
        rw [← hshift]
        constructor
        · intro hkeeps i q hq hpos hnot htake
          exact hkeeps (i + 1) q hq hpos hnot htake
        · intro hkeeps i q hq hpos hnot htake
          cases i with
          | zero =>
            simp only [List.getElem?_cons_zero, Option.some.injEq] at hq
            subst hq
            exact absurd ⟨hpos, hnot⟩ hkept
          | succ i => exact hkeeps i q hq hpos hnot htake
      have hbelow' : ∀ id ∈ p.id :: before, id < (loadStep st p).nextID := by
        intro id hid
        rw [hnext]
        rcases List.mem_cons.mp hid with rfl | hid
        · by_cases hpos : 0 < p.id
          · have hmem : p.id ∈ before := by
              by_contra hnot
              exact hkept ⟨hpos, hnot⟩
            have := hbelow _ hmem
            omega
          · have := h.next
            omega
        · have := hbelow id hid
          omega
      rw [if_neg hkept, hkeeps]
      by_cases hclaimed : st.nextID ∈ rest.map ConnectionProfile.id
      · -- the first record that carries the number given here is renamed
        refine iff_of_false (fun hrest => ?_) (fun hboth => hboth.1 hclaimed)
        obtain ⟨ahead, behind, hsplit, hfirst⟩ := List.eq_append_cons_of_mem hclaimed
        obtain ⟨q, hq, hqid⟩ : ∃ q, rest[ahead.length]? = some q ∧ q.id = st.nextID := by
          have hat : (rest.map ConnectionProfile.id)[ahead.length]? = some st.nextID := by
            rw [hsplit]
            simp
          rw [List.getElem?_map] at hat
          exact Option.map_eq_some_iff.mp hat
        have htake : q.id ∉ (rest.take ahead.length).map ConnectionProfile.id := by
          rw [List.map_take, hsplit, List.take_left, hqid]
          exact hfirst
        have hnot : q.id ∉ p.id :: before := by
          rw [hqid]
          intro hmem
          rcases List.mem_cons.mp hmem with heq | hmem
          · have hpos : 0 < p.id := by
              have := h.next
              omega
            refine hkept ⟨hpos, fun hmem => ?_⟩
            have := hbelow _ hmem
            omega
          · exact absurd (hbelow _ hmem) (by omega)
        have hpos : 0 < q.id := by
          have := h.next
          omega
        have hfiled := hrest _ q hq hpos hnot htake
        have hnew := (filedIDs_fresh (loadStep_invariant h p) rest).2 _ (List.mem_of_getElem? hfiled)
        rw [loadStep_loaded, hassign, hqid, Std.ExtTreeMap.getElem?_insert_self] at hnew
        cases hnew.1
      · rw [← hnext, ← ih (loadStep_invariant h p) hbelow']
        · simp [hclaimed]
        · intro q hq hpos
          have hne : st.nextID ≠ q.id := by
            intro heq
            exact hclaimed (heq ▸ List.mem_map_of_mem hq)
          rw [loadStep_loaded, hassign, getElem?_insert_of_ne _ _ hne,
            hsame q (List.mem_cons_of_mem _ hq) hpos, List.mem_cons]
          constructor
          · exact .inr
          · rintro (heq | hmem)
            · by_contra hnot
              rw [heq] at hpos hnot
              exact hkept ⟨hpos, hnot⟩
            · exact hmem

/-! ## The store that is returned -/

/-- The lowest key comes first. -/
theorem head?_keys_iff {connections : Profiles} {id : Int} (hid : connections[id]? ≠ none) :
    (sortedConnectionIDs connections).head? = some id ↔
      ∀ other : Int, connections[other]? ≠ none → id ≤ other := by
  have hmem : ∀ key : Int, key ∈ connections.keys ↔ connections[key]? ≠ none := by
    intro key
    rw [Std.ExtTreeMap.mem_keys, Std.ExtTreeMap.mem_iff_isSome_getElem?, Option.isSome_iff_ne_none]
  have hsorted : connections.keys.Pairwise (fun a b => a < b) := by
    have hordered := Std.ExtTreeMap.ordered_keys (t := connections)
    exact hordered.imp fun h => Int.compare_eq_lt.mp h
  have hhere := (hmem id).mpr hid
  rw [sortedConnectionIDs]
  cases hkeys : connections.keys with
  | nil => simp [hkeys] at hhere
  | cons first rest =>
    rw [hkeys, List.pairwise_cons] at hsorted
    rw [List.head?_cons, Option.some.injEq]
    constructor
    · rintro rfl other hother
      have hother' := (hmem other).mpr hother
      rw [hkeys] at hother'
      rcases List.mem_cons.mp hother' with rfl | hlater
      · exact Int.le_refl _
      · exact Int.le_of_lt (hsorted.1 other hlater)
    · intro hlowest
      have hfirst : connections[first]? ≠ none :=
        (hmem first).mp (by rw [hkeys]; exact List.mem_cons_self)
      rw [hkeys] at hhere
      rcases List.mem_cons.mp hhere with rfl | hlater
      · rfl
      · exact absurd (hlowest first hfirst) (Int.not_le.mpr (hsorted.1 id hlater))

/-- **What a loaded store holds** is what the loop filed, with the lowest id marked where no record
    was. -/
theorem getElem?_buildConnectionState (l : List ConnectionProfile) (id : Int) :
    (buildConnectionState l).1[id]? =
      ((l.foldl loadStep ⟨∅, 1, false⟩).loaded[id]?).map fun p =>
        { p with isDefault := p.isDefault ||
          (!l.any ConnectionProfile.isDefault && (sortedConnectionIDs
            (l.foldl loadStep ⟨∅, 1, false⟩).loaded).head? = some id) } := by
  have hflag := foldl_loadStep_hasDefault l ⟨∅, 1, false⟩
  rw [Bool.false_or] at hflag
  unfold buildConnectionState
  rw [← hflag]
  generalize l.foldl loadStep ⟨∅, 1, false⟩ = st
  dsimp only
  cases hhead : (sortedConnectionIDs st.loaded).head? with
  | none =>
    have hempty : st.loaded = ∅ := by
      simpa [sortedConnectionIDs, Std.ExtTreeMap.keys_eq_nil_iff] using hhead
    simp [hempty]
  | some first =>
    cases hseen : st.hasDefault with
    | true => simp
    | false =>
      dsimp only
      rw [if_neg (by simp), Std.ExtTreeMap.getElem?_modify]
      simp only [Std.LawfulEqCmp.compare_eq_iff_eq]
      by_cases heq : first = id
      · simp [heq]
      · simp [heq]

/-- The next free id is the first one, or follows one that is taken. -/
def Tight (connections : Profiles) (nextID : Int) : Prop :=
  nextID = 1 ∨ connections[nextID - 1]? ≠ none

theorem loadStep_tight {st : LoadState} (h : LoadInvariant st) (ht : Tight st.loaded st.nextID)
    (p : ConnectionProfile) : Tight (loadStep st p).loaded (loadStep st p).nextID := by
  have hkeeps : ∀ id key : Int, st.loaded[key]? ≠ none →
      (st.loaded.insert id { loadedAs id p with isDefault := p.isDefault && !st.hasDefault })[key]? ≠
        none := by
    intro id key hkey
    rw [getElem?_insert_ite]
    split
    · simp
    · exact hkey
  rw [loadStep_loaded, loadStep_nextID]
  by_cases hkept : 0 < p.id ∧ st.loaded[p.id]? = none
  · rw [assignID_kept hkept.1 hkept.2]
    dsimp only
    by_cases hgrows : st.nextID ≤ p.id + 1
    · have hmax : max st.nextID (p.id + 1) = p.id + 1 := by omega
      rw [hmax]
      right
      simp
    · have hmax : max st.nextID (p.id + 1) = st.nextID := by omega
      rw [hmax]
      rcases ht with hfirst | htaken
      · exact .inl hfirst
      · exact .inr (hkeeps _ _ htaken)
  · have hmust : p.id ≤ 0 ∨ st.loaded[p.id]? ≠ none := by
      by_cases hpos : 0 < p.id
      · exact .inr fun hfree => hkept ⟨hpos, hfree⟩
      · exact .inl (by omega)
    rw [assignID_given h hmust]
    right
    simp

theorem foldl_loadStep_tight (l : List ConnectionProfile) {st : LoadState} (h : LoadInvariant st)
    (ht : Tight st.loaded st.nextID) :
    Tight (l.foldl loadStep st).loaded (l.foldl loadStep st).nextID := by
  induction l generalizing st with
  | nil => exact ht
  | cons p rest ih => exact ih (loadStep_invariant h p) (loadStep_tight h ht p)

/-- So a store has one next free id. -/
theorem Tight.unique {connections : Profiles} {n m : Int} (hn : Tight connections n)
    (hm : Tight connections m) (h : StoreInvariant connections n)
    (h' : StoreInvariant connections m) : n = m := by
  have hle : ∀ {n m : Int}, Tight connections n → StoreInvariant connections m → n ≤ m := by
    intro n m hn h
    have hnext := h.next
    rcases hn with hfirst | htaken
    · omega
    · obtain ⟨p, hp⟩ := Option.ne_none_iff_exists'.mp htaken
      have := h.below _ p hp
      omega
  exact Int.le_antisymm (hle hn h') (hle hm h)

theorem buildConnectionState_nextID (l : List ConnectionProfile) :
    (buildConnectionState l).2 = (l.foldl loadStep ⟨∅, 1, false⟩).nextID := by
  unfold buildConnectionState
  dsimp only
  split
  · split <;> rfl
  · rfl

/-- The default flag takes no part in loading. -/
theorem normalizeLoaded_flag (p : ConnectionProfile) (flag : Bool) :
    normalizeLoaded { p with isDefault := flag } = { normalizeLoaded p with isDefault := flag } := by
  have hacl : loadedACL { p with isDefault := flag } = loadedACL p := rfl
  unfold normalizeLoaded
  dsimp only
  rw [hacl]
  split <;> (cases (loadedACL p).1 <;> rfl)

/-! ## Faithful loading -/

/-- The ids a loaded list is filed under. -/
def filed (l : List ConnectionProfile) : List Int := filedIDs ⟨∅, 1, false⟩ l

/-- **Loading is faithful to a list**: it files one profile for each record that is there, under
    distinct positive ids, each under its own where that is positive and no record before carried
    it; the first record flagged so is the default, or else the lowest id; and loading the outcome
    again changes nothing. -/
structure LoadsFaithfully (l : List ConnectionProfile) : Prop where
  length : (filed l).length = l.length
  distinct : (filed l).Nodup
  positive : ∀ id, id ∈ filed l → 0 < id
  only : ∀ id : Int, (buildConnectionState l).1[id]? ≠ none ↔ id ∈ filed l
  each : ∀ (i : Nat) (p : ConnectionProfile) (id : Int), l[i]? = some p →
    (filed l)[i]? = some id →
    ∃ flag, (buildConnectionState l).1[id]? = some { loadedAs id p with isDefault := flag }
  kept : ∀ (i : Nat) (p : ConnectionProfile), l[i]? = some p → 0 < p.id →
    p.id ∉ (l.take i).map ConnectionProfile.id →
    (filed l)[i]? = some p.id
  marked : ∀ (id : Int) (q : ConnectionProfile), (buildConnectionState l).1[id]? = some q →
    (q.isDefault = true ↔
      match l.findIdx? ConnectionProfile.isDefault with
      | some i => (filed l)[i]? = some id
      | none => ∀ other ∈ filed l, id ≤ other)
  again : buildConnectionState (copyConnectionsSorted (buildConnectionState l).1) =
    buildConnectionState l

section Faithful

variable (l : List ConnectionProfile)

/-- Where a record's profile is found, and whether it is the default. -/
theorem getElem?_filed {i : Nat} {p : ConnectionProfile} {id : Int} (hp : l[i]? = some p)
    (hid : (filed l)[i]? = some id) :
    (buildConnectionState l).1[id]? = some { loadedAs id p with
      isDefault := (p.isDefault && !(l.take i).any ConnectionProfile.isDefault) ||
        (!l.any ConnectionProfile.isDefault && (sortedConnectionIDs
          (l.foldl loadStep ⟨∅, 1, false⟩).loaded).head? = some id) } := by
  rw [getElem?_buildConnectionState,
    (foldl_loadStep_loaded loadInvariant_start l id).1 i p hp hid]
  simp

/-- Every profile that is filed is a record's. -/
theorem exists_of_mem_filed {id : Int} (hid : id ∈ filed l) :
    ∃ (i : Nat) (p : ConnectionProfile), l[i]? = some p ∧ (filed l)[i]? = some id := by
  obtain ⟨i, hi, hget⟩ := List.mem_iff_getElem.mp hid
  have hlength : (filed l).length = l.length := length_filedIDs _ l
  have hbound : i < l.length := by omega
  refine ⟨i, l[i], List.getElem?_eq_getElem _, ?_⟩
  rw [List.getElem?_eq_getElem hi, hget]

theorem loaded_ne_none_iff (id : Int) :
    (l.foldl loadStep ⟨∅, 1, false⟩).loaded[id]? ≠ none ↔ id ∈ filed l := by
  obtain ⟨hin, hout⟩ := foldl_loadStep_loaded loadInvariant_start l id
  constructor
  · intro hpresent
    by_contra hnot
    rw [hout hnot] at hpresent
    simp at hpresent
  · intro hid
    obtain ⟨i, p, hp, hfiled⟩ := exists_of_mem_filed l hid
    rw [hin i p hp hfiled]
    simp

theorem filed_only (id : Int) : (buildConnectionState l).1[id]? ≠ none ↔ id ∈ filed l := by
  rw [getElem?_buildConnectionState, ← loaded_ne_none_iff l id]
  simp

/-- The default is the first that was flagged, or the lowest. -/
theorem filed_marked {id : Int} {q : ConnectionProfile}
    (hq : (buildConnectionState l).1[id]? = some q) :
    q.isDefault = true ↔
      match l.findIdx? ConnectionProfile.isDefault with
      | some i => (filed l)[i]? = some id
      | none => ∀ other ∈ filed l, id ≤ other := by
  have hmem : id ∈ filed l := (filed_only l id).mp (by rw [hq]; simp)
  obtain ⟨i, p, hp, hid⟩ := exists_of_mem_filed l hmem
  have hflag := getElem?_filed l hp hid
  rw [hq, Option.some.injEq] at hflag
  rw [hflag]
  cases hfirst : l.findIdx? ConnectionProfile.isDefault with
  | some k =>
    obtain ⟨hk, hflagged, hbefore⟩ := List.findIdx?_eq_some_iff_getElem.mp hfirst
    have hany : l.any ConnectionProfile.isDefault = true :=
      List.any_eq_true.mpr ⟨l[k], List.getElem_mem hk, hflagged⟩
    -- no id is given twice, so the default is filed under the k-th and no other
    have hplace : (filed l)[k]? = some id ↔ i = k := by
      constructor
      · intro hother
        have hi : i < (filed l).length := (List.getElem?_eq_some_iff.mp hid).1
        exact (List.getElem?_inj hi (filedIDs_fresh loadInvariant_start l).1).mp
          (hid.trans hother.symm)
      · rintro rfl
        exact hid
    simp only [hany, Bool.not_true, Bool.false_and, Bool.or_false, Bool.and_eq_true,
      Bool.not_eq_true', hplace]
    constructor
    · rintro ⟨hp', hnone⟩
      by_contra hne
      obtain ⟨hi, rfl⟩ := List.getElem?_eq_some_iff.mp hp
      rcases Nat.lt_or_gt_of_ne hne with hlt | hgt
      · exact absurd hp' (hbefore i hlt)
      · have htaken : (l.take i).any ConnectionProfile.isDefault = true :=
          List.any_eq_true.mpr ⟨l[k], List.mem_take_iff_getElem.mpr ⟨k, by omega, rfl⟩, hflagged⟩
        rw [htaken] at hnone
        cases hnone
    · rintro rfl
      obtain ⟨hi, rfl⟩ := List.getElem?_eq_some_iff.mp hp
      refine ⟨hflagged, List.any_eq_false.mpr fun q hq => ?_⟩
      obtain ⟨j, hj, rfl⟩ := List.mem_take_iff_getElem.mp hq
      exact hbefore j (by omega)
  | none =>
    have hunflagged := List.findIdx?_eq_none_iff.mp hfirst
    have hnone : l.any ConnectionProfile.isDefault = false := by simpa using hunflagged
    have hp' : p.isDefault = false := hunflagged p (List.mem_of_getElem? hp)
    have hpresent := (loaded_ne_none_iff l id).mpr hmem
    simp only [hnone, hp', Bool.false_and, Bool.false_or, Bool.not_false, Bool.true_and,
      decide_eq_true_eq, head?_keys_iff hpresent, loaded_ne_none_iff]

/-- **Loading what was loaded** gives it back. -/
theorem filed_again : buildConnectionState (copyConnectionsSorted (buildConnectionState l).1) =
    buildConnectionState l := by
  have hstore := buildConnectionState_storeInvariant l
  have hfixed : ∀ (id : Int) (p : ConnectionProfile), (buildConnectionState l).1[id]? = some p →
      normalizeLoaded p = p.atRest := by
    intro id q hq
    obtain ⟨i, p, hp, hid⟩ := exists_of_mem_filed l ((filed_only l id).mp (by rw [hq]; simp))
    have hfiled := getElem?_filed l hp hid
    rw [hq, Option.some.injEq] at hfiled
    rw [hfiled, normalizeLoaded_flag, loadedAs, normalizeLoaded_loaded]
    rfl
  have hmap : (buildConnectionState (copyConnectionsSorted (buildConnectionState l).1)).1 =
      (buildConnectionState l).1 := by
    rw [copyConnectionsSorted, buildConnectionState_of_fixed hstore hfixed]
    exact buildConnectionState_atRest l
  have htight : ∀ l : List ConnectionProfile,
      Tight (buildConnectionState l).1 (buildConnectionState l).2 := by
    intro l
    rw [buildConnectionState_nextID]
    rcases foldl_loadStep_tight l loadInvariant_start (.inl rfl) with hfirst | htaken
    · exact .inl hfirst
    · refine .inr ?_
      rw [filed_only, ← loaded_ne_none_iff]
      exact htaken
  refine Prod.ext hmap ?_
  have hagain := buildConnectionState_storeInvariant (copyConnectionsSorted (buildConnectionState l).1)
  have htight' := htight (copyConnectionsSorted (buildConnectionState l).1)
  rw [hmap] at hagain htight'
  exact htight'.unique (htight l) hagain hstore

end Faithful

/-- **Whether loading is faithful**, for every list of stored records: exactly where no record
    carries the number that one before it is given. -/
theorem loadsFaithfully_iff (records : List (Option ConnectionProfile)) :
    LoadsFaithfully (records.filterMap id) ↔
      Unclaimed [] 1 ((records.filterMap id).map ConnectionProfile.id) := by
  generalize records.filterMap id = l
  have hkept : KeepsFrom ⟨∅, 1, false⟩ [] l ↔ Unclaimed [] 1 (l.map ConnectionProfile.id) :=
    keepsFrom_iff loadInvariant_start (by simp) (by simp)
  obtain ⟨hnodup, hpositive⟩ := filedIDs_fresh loadInvariant_start l
  constructor
  · intro h
    refine hkept.mp fun i p hp hpos _ htake => h.kept i p hp hpos htake
  · intro hunclaimed
    have hkeeps := hkept.mpr hunclaimed
    exact {
      length := length_filedIDs _ l
      distinct := hnodup
      positive := fun id hid => (hpositive id hid).2
      only := filed_only l
      each := fun i p id hp hid => ⟨_, getElem?_filed l hp hid⟩
      kept := fun i p hp hpos htake => hkeeps i p hp hpos (by simp) htake
      marked := fun id q hq => filed_marked l hq
      again := filed_again l }

/-- A record without an id, and the one that has the first. -/
def oldRecords : List (Option ConnectionProfile) :=
  [some { draft .rocketmq .none with id := 0 }, none, some { draft .kafka .none with id := 1 }]

/-- **The second is renamed**: the first is given its id. -/
theorem oldRecords_renamed :
    ¬ LoadsFaithfully (oldRecords.filterMap id) ∧ filed (oldRecords.filterMap id) = [1, 2] := by
  refine ⟨fun h => ?_, by decide⟩
  have hkept := h.kept 1 { draft .kafka .none with id := 1 } (by decide) (by decide) (by decide)
  revert hkept
  decide

end MqStudio.Connection
