import Mathlib.Init
import Mathlib.Data.List.Pairwise
import Mathlib.Logic.ExistsUnique
import Std.Data.ExtTreeMap.Lemmas

/-!
# Ordered Maps: Values, Ranges, Keys and Marks

Extensional ordered maps as stores of records. Four things a store does with its map
recur, and each has its rules here:

- **Values** in key order (`values`).
- **Ranging** over a map while rewriting the entry just visited (`rangeUpdate`). Each visit
  touches its own key only, so the outcome does not depend on the order of the visits.
- **Keyed** records: the map key is a field of the record (`Keyed`).
- **One marked** record: a flag that exactly one record of a nonempty store carries
  (`OneMarked`).
-/

namespace MqStudio.Lib.TreeMap

set_option linter.unusedSectionVars false

universe u v w

/-- Maps ordered by the key type's own comparison. -/
abbrev Map (κ : Type u) (β : Type v) [Ord κ] := Std.ExtTreeMap κ β compare

variable {κ : Type u} {β : Type v} [Ord κ] [Std.TransOrd κ] [Std.LawfulEqOrd κ]

/-! ## Lookups -/

theorem getElem?_insert_ite [DecidableEq κ] (m : Map κ β) (k a : κ) (v : β) :
    (m.insert k v)[a]? = if k = a then some v else m[a]? := by
  rw [Std.ExtTreeMap.getElem?_insert]
  simp only [Std.LawfulEqCmp.compare_eq_iff_eq]

theorem getElem?_insert_of_ne (m : Map κ β) {k a : κ} (v : β) (h : k ≠ a) :
    (m.insert k v)[a]? = m[a]? := by
  rw [Std.ExtTreeMap.getElem?_insert, if_neg (by simpa using h)]

theorem getElem?_erase_of_ne (m : Map κ β) {k a : κ} (h : k ≠ a) :
    (m.erase k)[a]? = m[a]? := by
  rw [Std.ExtTreeMap.getElem?_erase, if_neg (by simpa using h)]

theorem eq_empty_iff_getElem? (m : Map κ β) : m = ∅ ↔ ∀ k : κ, m[k]? = none := by
  constructor
  · rintro rfl k
    simp
  · intro h
    ext k v
    simp [h k]

theorem exists_getElem?_of_ne_empty {m : Map κ β} (h : m ≠ ∅) :
    ∃ (k : κ) (v : β), m[k]? = some v := by
  by_contra hnone
  refine h ((eq_empty_iff_getElem? m).mpr fun k => ?_)
  cases hk : m[k]? with
  | none => rfl
  | some v => exact absurd ⟨k, v, hk⟩ hnone

theorem ne_empty_of_getElem? {m : Map κ β} {k : κ} {v : β} (h : m[k]? = some v) : m ≠ ∅ := by
  rintro rfl
  simp at h

/-- Putting back the value a key had undoes an erasure. -/
theorem insert_erase_self {m : Map κ β} {k : κ} {v : β} (h : m[k]? = some v) :
    (m.erase k).insert k v = m := by
  ext1 a
  rw [Std.ExtTreeMap.getElem?_insert, Std.ExtTreeMap.getElem?_erase]
  split
  · rename_i heq
    rw [← Std.LawfulEqCmp.compare_eq_iff_eq.mp heq, h]
  · rfl

/-- Erasing a key that was absent undoes its insertion. -/
theorem erase_insert_of_none {m : Map κ β} {k : κ} (v : β) (h : m[k]? = none) :
    (m.insert k v).erase k = m := by
  ext1 a
  rw [Std.ExtTreeMap.getElem?_erase, Std.ExtTreeMap.getElem?_insert]
  split
  · rename_i heq
    rw [← Std.LawfulEqCmp.compare_eq_iff_eq.mp heq, h]
  · rfl

/-- Erasing an absent key changes nothing. -/
theorem erase_of_none {m : Map κ β} {k : κ} (h : m[k]? = none) : m.erase k = m := by
  ext1 a
  rw [Std.ExtTreeMap.getElem?_erase]
  split
  · rename_i heq
    rw [← Std.LawfulEqCmp.compare_eq_iff_eq.mp heq, h]
  · rfl

/-- Erasing a key undoes its insertion, and what was there before. -/
theorem erase_insert (m : Map κ β) (k : κ) (v : β) : (m.insert k v).erase k = m.erase k := by
  ext1 a
  simp only [Std.ExtTreeMap.getElem?_erase, Std.ExtTreeMap.getElem?_insert]
  split <;> rfl

/-- Storing what a key already holds changes nothing. -/
theorem insert_same {m : Map κ β} {k : κ} {v : β} (h : m[k]? = some v) : m.insert k v = m := by
  ext1 a
  rw [Std.ExtTreeMap.getElem?_insert]
  split
  · rename_i heq
    rw [← Std.LawfulEqCmp.compare_eq_iff_eq.mp heq, h]
  · rfl

/-- The later of two insertions under one key wins. -/
theorem insert_insert (m : Map κ β) (k : κ) (v w : β) :
    (m.insert k v).insert k w = m.insert k w := by
  ext1 a
  simp only [Std.ExtTreeMap.getElem?_insert]
  split <;> rfl

/-! ## Values -/

/-- The values in key order. -/
def values (m : Map κ β) : List β :=
  m.toList.map Prod.snd

@[simp] theorem values_empty : values (∅ : Map κ β) = [] := by
  rw [values, Std.ExtTreeMap.toList_eq_nil_iff.mpr rfl, List.map_nil]

theorem mem_values {m : Map κ β} {v : β} : v ∈ values m ↔ ∃ k : κ, m[k]? = some v := by
  simp only [values, List.mem_map, Prod.exists]
  constructor
  · rintro ⟨k, w, hmem, rfl⟩
    exact ⟨k, Std.ExtTreeMap.mem_toList_iff_getElem?_eq_some.mp hmem⟩
  · rintro ⟨k, hk⟩
    exact ⟨k, v, Std.ExtTreeMap.mem_toList_iff_getElem?_eq_some.mpr hk, rfl⟩

theorem values_map {γ : Type w} (m : Map κ β) (f : β → γ) :
    values (m.map fun _ v => f v) = (values m).map f := by
  simp [values, Function.comp_def]

theorem values_eq_nil_iff {m : Map κ β} : values m = [] ↔ m = ∅ := by
  rw [values, List.map_eq_nil_iff, Std.ExtTreeMap.toList_eq_nil_iff]

/-! ## Ranging over a map -/

section Range

variable {ε : Type w}

/-- One visit of a range loop: the body decides what the visited key holds next. `none`
    deletes it. -/
def rangeStep (body : κ → β → Except ε (Option β)) (m : Map κ β) (entry : κ × β) :
    Except ε (Map κ β) :=
  match body entry.1 entry.2 with
  | .error e => .error e
  | .ok none => .ok (m.erase entry.1)
  | .ok (some v) => .ok (m.insert entry.1 v)

/-- Range over a map, rewriting or deleting each visited entry; the first error ends it. -/
def rangeUpdate (body : κ → β → Except ε (Option β)) (m : Map κ β) : Except ε (Map κ β) :=
  m.toList.foldlM (rangeStep body) m

private theorem rangeStep_ok {body : κ → β → Except ε (Option β)} {m m' : Map κ β}
    {entry : κ × β} (h : rangeStep body m entry = .ok m') :
    ∃ r, body entry.1 entry.2 = .ok r ∧ m'[entry.1]? = r ∧
      ∀ k, entry.1 ≠ k → m'[k]? = m[k]? := by
  unfold rangeStep at h
  split at h
  · cases h
  · rename_i hbody
    cases h
    exact ⟨none, hbody, by simp, fun k hk => getElem?_erase_of_ne m hk⟩
  · rename_i v hbody
    cases h
    exact ⟨some v, hbody, by simp, fun k hk => getElem?_insert_of_ne m v hk⟩

/-- A completed range over entries with distinct keys left each key with its own visit's
    outcome and every other key alone. -/
private theorem foldlM_rangeStep_ok {body : κ → β → Except ε (Option β)}
    (entries : List (κ × β)) (hdistinct : entries.Pairwise fun a b => a.1 ≠ b.1)
    {m m' : Map κ β} (h : entries.foldlM (rangeStep body) m = .ok m') :
    (∀ e ∈ entries, ∃ r, body e.1 e.2 = .ok r ∧ m'[e.1]? = r) ∧
      ∀ k, (∀ e ∈ entries, e.1 ≠ k) → m'[k]? = m[k]? := by
  induction entries generalizing m with
  | nil =>
    simp only [List.foldlM_nil] at h
    cases h
    exact ⟨by simp, fun _ _ => rfl⟩
  | cons first rest ih =>
    obtain ⟨hfirst, hrest⟩ := List.pairwise_cons.mp hdistinct
    rw [List.foldlM_cons] at h
    cases hstep : rangeStep body m first with
    | error e => rw [hstep] at h; cases h
    | ok mid =>
      rw [hstep] at h
      obtain ⟨hin, hout⟩ := ih hrest h
      obtain ⟨r, hbody, hmid, hothers⟩ := rangeStep_ok hstep
      refine ⟨?_, fun k hk => ?_⟩
      · intro e he
        rcases List.mem_cons.mp he with rfl | he
        · exact ⟨r, hbody, by rw [hout e.1 fun e' he' => (hfirst e' he').symm, hmid]⟩
        · exact hin e he
      · rw [hout k fun e he => hk e (List.mem_cons_of_mem _ he),
          hothers k (hk first List.mem_cons_self)]

private theorem foldlM_rangeStep_total {body : κ → β → Except ε (Option β)}
    (entries : List (κ × β)) (h : ∀ e ∈ entries, ∃ r, body e.1 e.2 = .ok r) (m : Map κ β) :
    ∃ m', entries.foldlM (rangeStep body) m = .ok m' := by
  induction entries generalizing m with
  | nil => exact ⟨m, rfl⟩
  | cons first rest ih =>
    obtain ⟨r, hr⟩ := h first List.mem_cons_self
    obtain ⟨mid, hmid⟩ : ∃ mid, rangeStep body m first = .ok mid := by
      unfold rangeStep
      rw [hr]
      cases r with
      | none => exact ⟨_, rfl⟩
      | some v => exact ⟨_, rfl⟩
    obtain ⟨m', hm'⟩ := ih (fun e he => h e (List.mem_cons_of_mem _ he)) mid
    exact ⟨m', by rw [List.foldlM_cons, hmid]; exact hm'⟩

private theorem toList_pairwise_ne (m : Map κ β) :
    m.toList.Pairwise fun a b => a.1 ≠ b.1 := by
  refine (Std.ExtTreeMap.distinct_keys_toList (t := m)).imp ?_
  intro a b hab heq
  exact hab (Std.LawfulEqCmp.compare_eq_iff_eq.mpr heq)

/-- **Range specification**: a range that finished gave each entry its own body's outcome,
    and added no key. -/
theorem rangeUpdate_ok {body : κ → β → Except ε (Option β)} {m m' : Map κ β}
    (h : rangeUpdate body m = .ok m') :
    (∀ (k : κ) (v : β), m[k]? = some v → ∃ r, body k v = .ok r ∧ m'[k]? = r) ∧
      ∀ k : κ, m[k]? = none → m'[k]? = none := by
  obtain ⟨hin, hout⟩ := foldlM_rangeStep_ok m.toList (toList_pairwise_ne m) h
  constructor
  · intro k v hk
    exact hin (k, v) (Std.ExtTreeMap.mem_toList_iff_getElem?_eq_some.mpr hk)
  · intro k hk
    rw [hout k fun e he heq => ?_, hk]
    have := Std.ExtTreeMap.mem_toList_iff_getElem?_eq_some.mp
      (show (e.1, e.2) ∈ m.toList from he)
    rw [heq, hk] at this
    cases this

/-- **Folding over a map** with visits that each change what is seen of their own key alone:
    every key of the map is seen changed once, and every other as it was. -/
theorem foldl_own {σ : Type*} {γ : Type*} [DecidableEq κ] (m : Map κ β) {visit : σ → κ → β → σ}
    (seen : σ → κ → γ) (own : κ → β → γ → γ)
    (hvisit : ∀ s k v a, seen (visit s k v) a = if k = a then own k v (seen s k) else seen s a)
    (s : σ) (a : κ) :
    seen (m.foldl visit s) a = (m[a]?).elim (seen s a) fun v => own a v (seen s a) := by
  -- the keys of the entries still to come are distinct, so a key is visited once
  have hlist : ∀ (entries : List (κ × β)), entries.Pairwise (fun e f => e.1 ≠ f.1) → ∀ s : σ,
      (∀ v, (a, v) ∈ entries →
        seen (entries.foldl (fun s e => visit s e.1 e.2) s) a = own a v (seen s a)) ∧
      ((∀ v, (a, v) ∉ entries) →
        seen (entries.foldl (fun s e => visit s e.1 e.2) s) a = seen s a) := by
    intro entries
    induction entries with
    | nil => exact fun _ s => ⟨fun v hv => absurd hv List.not_mem_nil, fun _ => rfl⟩
    | cons entry rest ih =>
      intro hpair s
      obtain ⟨hhead, htail⟩ := List.pairwise_cons.mp hpair
      obtain ⟨hin, hout⟩ := ih htail (visit s entry.1 entry.2)
      rw [List.foldl_cons]
      constructor
      · intro v hv
        rcases List.mem_cons.mp hv with rfl | hrest
        · rw [hout fun w hw => hhead _ hw rfl, hvisit, if_pos rfl]
        · rw [hin v hrest, hvisit, if_neg (hhead _ hrest)]
      · intro hnone
        have hne : entry.1 ≠ a := by
          rintro rfl
          exact hnone entry.2 List.mem_cons_self
        rw [hout fun w hw => hnone w (List.mem_cons_of_mem _ hw), hvisit, if_neg hne]
  obtain ⟨hin, hout⟩ := hlist m.toList (toList_pairwise_ne m) s
  rw [Std.ExtTreeMap.foldl_eq_foldl_toList]
  cases hk : m[a]? with
  | some v => exact hin v (Std.ExtTreeMap.mem_toList_iff_getElem?_eq_some.mpr hk)
  | none =>
    refine hout fun v hv => ?_
    rw [Std.ExtTreeMap.mem_toList_iff_getElem?_eq_some.mp hv] at hk
    cases hk

/-- What every visit keeps, the fold keeps. -/
theorem foldl_invariant {σ : Type*} (m : Map κ β) {visit : σ → κ → β → σ} (P : σ → Prop)
    (hvisit : ∀ s k v, P s → P (visit s k v)) {s : σ} (hs : P s) : P (m.foldl visit s) := by
  rw [Std.ExtTreeMap.foldl_eq_foldl_toList]
  induction m.toList generalizing s with
  | nil => exact hs
  | cons entry rest ih => exact ih (hvisit s entry.1 entry.2 hs)

/-- What every visit of an entry of the map keeps, the fold keeps. -/
theorem foldl_invariant_mem {σ : Type*} (m : Map κ β) {visit : σ → κ → β → σ} (P : σ → Prop)
    (hvisit : ∀ s (k : κ) (v : β), m[k]? = some v → P s → P (visit s k v)) {s : σ} (hs : P s) :
    P (m.foldl visit s) := by
  rw [Std.ExtTreeMap.foldl_eq_foldl_toList]
  have hmem : ∀ entry ∈ m.toList, m[entry.1]? = some entry.2 := fun entry he =>
    Std.ExtTreeMap.mem_toList_iff_getElem?_eq_some.mp he
  revert hmem
  generalize m.toList = entries
  intro hmem
  induction entries generalizing s with
  | nil => exact hs
  | cons entry rest ih =>
    have hfirst := hvisit s entry.1 entry.2 (hmem entry List.mem_cons_self) hs
    exact ih hfirst fun e he => hmem e (List.mem_cons_of_mem _ he)

/-- What no visit changes, the fold leaves as it was. -/
theorem foldl_frame {σ : Type*} {γ : Type*} (m : Map κ β) {visit : σ → κ → β → σ} (seen : σ → γ)
    (hvisit : ∀ s k v, seen (visit s k v) = seen s) (s : σ) : seen (m.foldl visit s) = seen s := by
  rw [Std.ExtTreeMap.foldl_eq_foldl_toList]
  induction m.toList generalizing s with
  | nil => rfl
  | cons entry rest ih => exact (ih (visit s entry.1 entry.2)).trans (hvisit s entry.1 entry.2)

/-- A range whose every body succeeds finishes. -/
theorem rangeUpdate_total {body : κ → β → Except ε (Option β)} {m : Map κ β}
    (h : ∀ (k : κ) (v : β), m[k]? = some v → ∃ r, body k v = .ok r) : ∃ m', rangeUpdate body m = .ok m' :=
  foldlM_rangeStep_total m.toList (fun e he => h e.1 e.2
    (Std.ExtTreeMap.mem_toList_iff_getElem?_eq_some.mp he)) m

/-- **Round trip of two ranges**: if the second body takes each value the first one stored
    back to the value it came from, ranging twice returns the original map. -/
theorem rangeUpdate_roundTrip {forth back : κ → β → Except ε (Option β)} {m m' : Map κ β}
    (h : rangeUpdate forth m = .ok m')
    (hback : ∀ (k : κ) (v : β) r, m[k]? = some v → forth k v = .ok r →
      ∃ stored, r = some stored ∧ back k stored = .ok (some v)) :
    rangeUpdate back m' = .ok m := by
  obtain ⟨hin, hout⟩ := rangeUpdate_ok h
  -- every stored value is the image of one the map held
  have horigin : ∀ (k : κ) (stored : β), m'[k]? = some stored →
      ∃ v, m[k]? = some v ∧ back k stored = .ok (some v) := by
    intro k stored hk
    cases hm : m[k]? with
    | none => rw [hout k hm] at hk; cases hk
    | some v =>
      obtain ⟨r, hforth, hr⟩ := hin k v hm
      obtain ⟨w, rfl, hw⟩ := hback k v r hm hforth
      rw [hr] at hk
      cases hk
      exact ⟨v, rfl, hw⟩
  obtain ⟨m'', hm''⟩ : ∃ m'', rangeUpdate back m' = .ok m'' :=
    rangeUpdate_total fun k stored hk =>
      let ⟨v, _, hv⟩ := horigin k stored hk
      ⟨some v, hv⟩
  rw [hm'']
  obtain ⟨hin', hout'⟩ := rangeUpdate_ok hm''
  congr 1
  ext1 k
  cases hk : m'[k]? with
  | none =>
    rw [hout' k hk]
    cases hm : m[k]? with
    | none => rfl
    | some v =>
      obtain ⟨r, hforth, hr⟩ := hin k v hm
      obtain ⟨w, rfl, _⟩ := hback k v r hm hforth
      rw [hr] at hk
      cases hk
  | some stored =>
    obtain ⟨v, hm, hv⟩ := horigin k stored hk
    obtain ⟨r, hr, hres⟩ := hin' k stored hk
    rw [hv] at hr
    cases hr
    rw [hres, hm]

end Range

/-! ## Records keyed by one of their own fields -/

section Keyed

variable {key : β → κ}

/-- Every record sits under the key it carries. -/
def Keyed (key : β → κ) (m : Map κ β) : Prop :=
  ∀ (k : κ) (v : β), m[k]? = some v → key v = k

theorem keyed_empty (key : β → κ) : Keyed key (∅ : Map κ β) := by
  intro k v h
  simp at h

theorem Keyed.insert {m : Map κ β} (h : Keyed key m) (v : β) : Keyed key (m.insert (key v) v) := by
  intro k w hk
  rw [Std.ExtTreeMap.getElem?_insert] at hk
  split at hk
  · rename_i heq
    cases hk
    exact Std.LawfulEqCmp.compare_eq_iff_eq.mp heq
  · exact h k w hk

theorem Keyed.erase {m : Map κ β} (h : Keyed key m) (k : κ) : Keyed key (m.erase k) := by
  intro a v ha
  rw [Std.ExtTreeMap.getElem?_erase] at ha
  split at ha
  · cases ha
  · exact h a v ha

theorem Keyed.map {m : Map κ β} (h : Keyed key m) (f : β → β) (hf : ∀ v, key (f v) = key v) :
    Keyed key (m.map fun _ v => f v) := by
  intro k v hk
  rw [Std.ExtTreeMap.getElem?_map, Option.map_eq_some_iff] at hk
  obtain ⟨w, hw, rfl⟩ := hk
  rw [hf, h k w hw]

/-- The values of a keyed map carry distinct keys. -/
theorem Keyed.values_pairwise {m : Map κ β} (h : Keyed key m) :
    (values m).Pairwise fun a b => key a ≠ key b := by
  rw [values, List.pairwise_map]
  refine (toList_pairwise_ne m).imp_of_mem ?_
  intro a b ha hb hab
  rw [h a.1 a.2 (Std.ExtTreeMap.mem_toList_iff_getElem?_eq_some.mp ha),
    h b.1 b.2 (Std.ExtTreeMap.mem_toList_iff_getElem?_eq_some.mp hb)]
  exact hab

/-- The values of a keyed map stand in the order of their keys. -/
theorem Keyed.values_ordered {m : Map κ β} (h : Keyed key m) :
    (values m).Pairwise fun a b => compare (key a) (key b) = .lt := by
  rw [values, List.pairwise_map]
  refine (Std.ExtTreeMap.ordered_keys_toList (t := m)).imp_of_mem ?_
  intro a b ha hb hab
  rw [h a.1 a.2 (Std.ExtTreeMap.mem_toList_iff_getElem?_eq_some.mp ha),
    h b.1 b.2 (Std.ExtTreeMap.mem_toList_iff_getElem?_eq_some.mp hb)]
  exact hab

/-- The map a list of records is read back into. -/
def collect (key : β → κ) (records : List β) : Map κ β :=
  records.foldl (fun m v => m.insert (key v) v) ∅

theorem keyed_collect (key : β → κ) (records : List β) : Keyed key (collect key records) := by
  suffices hgeneral : ∀ m : Map κ β, Keyed key m →
      Keyed key (records.foldl (fun m v => m.insert (key v) v) m) from
    hgeneral ∅ (keyed_empty key)
  induction records with
  | nil => exact fun m h => h
  | cons v rest ih => exact fun m h => ih _ (h.insert v)

/-- A map read back holds records of the list only. -/
theorem mem_of_getElem?_collect {records : List β} {k : κ} {v : β}
    (h : (collect key records)[k]? = some v) : v ∈ records := by
  suffices hgeneral : ∀ m : Map κ β,
      (records.foldl (fun m v => m.insert (key v) v) m)[k]? = some v →
        v ∈ records ∨ m[k]? = some v by
    simpa using hgeneral ∅ h
  clear h
  induction records with
  | nil => exact fun m hfold => .inr hfold
  | cons w rest ih =>
    intro m hfold
    rcases ih _ hfold with hmem | hold
    · exact .inl (List.mem_cons_of_mem _ hmem)
    · rw [Std.ExtTreeMap.getElem?_insert] at hold
      split at hold
      · cases hold
        exact .inl List.mem_cons_self
      · exact .inr hold

/-- **Reading back**: where each record has a key of its own, they are all there. -/
theorem getElem?_collect {records : List β} (h : records.Pairwise fun v w => key v ≠ key w)
    {k : κ} {v : β} : (collect key records)[k]? = some v ↔ v ∈ records ∧ key v = k := by
  suffices hgeneral : ∀ m : Map κ β, (∀ w ∈ records, m[key w]? = none) →
      ((records.foldl (fun m v => m.insert (key v) v) m)[k]? = some v ↔
        (v ∈ records ∧ key v = k) ∨ m[k]? = some v) by
    simpa [collect] using hgeneral ∅ (by simp)
  induction records with
  | nil => simp
  | cons w rest ih =>
    intro m hm
    obtain ⟨hhead, hrest⟩ := List.pairwise_cons.mp h
    rw [List.foldl_cons, ih hrest (m.insert (key w) w) fun x hx => by
      rw [getElem?_insert_of_ne m w (hhead x hx)]
      exact hm x (List.mem_cons_of_mem _ hx)]
    have hnew := hm w List.mem_cons_self
    by_cases hk : key w = k
    · subst hk
      simp only [Std.ExtTreeMap.getElem?_insert_self, hnew, List.mem_cons, reduceCtorEq, or_false]
      constructor
      · rintro (hmem | hsame)
        · exact ⟨.inr hmem.1, hmem.2⟩
        · cases hsame
          exact ⟨.inl rfl, rfl⟩
      · rintro ⟨rfl | hmem, hkey⟩
        · exact .inr rfl
        · exact .inl ⟨hmem, hkey⟩
    · rw [getElem?_insert_of_ne m w hk]
      have hne : ∀ x, key x = k → x ≠ w := fun x hx hxw => hk (hxw ▸ hx)
      constructor
      · rintro (hmem | hold)
        · exact .inl ⟨List.mem_cons_of_mem _ hmem.1, hmem.2⟩
        · exact .inr hold
      · rintro (⟨hmem, hkey⟩ | hold)
        · exact .inl ⟨(List.mem_cons.mp hmem).resolve_left (hne v hkey), hkey⟩
        · exact .inr hold

/-- The values of a keyed map are read back into it. -/
theorem collect_values {m : Map κ β} (h : Keyed key m) : collect key (values m) = m := by
  ext k v
  rw [getElem?_collect h.values_pairwise, mem_values]
  constructor
  · rintro ⟨⟨k', hk'⟩, rfl⟩
    rw [h k' v hk']
    exact hk'
  · intro hk
    exact ⟨⟨k, hk⟩, h k v hk⟩

end Keyed

/-! ## Exactly one marked record -/

section Marked

variable {mark : β → Bool}

/-- The key of a record that carries the mark. -/
def MarkedAt (mark : β → Bool) (m : Map κ β) (k : κ) : Prop :=
  ∃ v, m[k]? = some v ∧ mark v = true

/-- A nonempty map has exactly one record with the mark. -/
def OneMarked (mark : β → Bool) (m : Map κ β) : Prop :=
  m ≠ ∅ → ∃! k, MarkedAt mark m k

theorem oneMarked_empty (mark : β → Bool) : OneMarked mark (∅ : Map κ β) :=
  fun h => absurd rfl h

/-- Two marked keys of a one-marked map are the same. -/
theorem OneMarked.unique {m : Map κ β} (h : OneMarked mark m) {k k' : κ}
    (hk : MarkedAt mark m k) (hk' : MarkedAt mark m k') : k = k' := by
  obtain ⟨v, hv, _⟩ := hk
  obtain ⟨one, _, hone⟩ := h (ne_empty_of_getElem? hv)
  exact (hone k ⟨v, hv, by assumption⟩).trans (hone k' hk').symm

/-- The mark survives a change of records that leaves every mark where it was. -/
theorem OneMarked.congr {m m' : Map κ β} (h : OneMarked mark m)
    (hsame : ∀ k : κ, m'[k]?.map mark = m[k]?.map mark) : OneMarked mark m' := by
  have hmarked : ∀ k, MarkedAt mark m' k ↔ MarkedAt mark m k := by
    intro k
    have hk := hsame k
    simp only [MarkedAt]
    cases hm : m[k]? <;> cases hm' : m'[k]? <;> simp_all
  intro hne
  obtain ⟨k, v, hk⟩ := exists_getElem?_of_ne_empty hne
  have hne' : m ≠ ∅ := by
    have := hsame k
    rw [hk] at this
    rcases hm : m[k]? with _ | w
    · rw [hm] at this; cases this
    · exact ne_empty_of_getElem? hm
  obtain ⟨one, hone, huniq⟩ := h hne'
  exact ⟨one, (hmarked one).mpr hone, fun k hk => huniq k ((hmarked k).mp hk)⟩

/-- A fresh unmarked record does not disturb the mark of a nonempty map. -/
theorem OneMarked.insert_unmarked {m : Map κ β} (h : OneMarked mark m) (hne : m ≠ ∅) {k : κ}
    (hfresh : m[k]? = none) {v : β} (hv : mark v = false) : OneMarked mark (m.insert k v) := by
  intro _
  obtain ⟨one, ⟨w, hw, hmark⟩, huniq⟩ := h hne
  have hother : k ≠ one := by
    rintro rfl
    rw [hfresh] at hw
    cases hw
  refine ⟨one, ⟨w, by rw [getElem?_insert_of_ne m v hother, hw], hmark⟩, ?_⟩
  rintro a ⟨x, hx, hmarkx⟩
  rw [Std.ExtTreeMap.getElem?_insert] at hx
  split at hx
  · cases hx
    rw [hv] at hmarkx
    cases hmarkx
  · exact huniq a ⟨x, hx, hmarkx⟩

/-- The first record of a map is the marked one. -/
theorem oneMarked_singleton {k : κ} {v : β} (hv : mark v = true) :
    OneMarked mark ((∅ : Map κ β).insert k v) := by
  intro _
  refine ⟨k, ⟨v, by simp, hv⟩, ?_⟩
  rintro a ⟨w, hw, _⟩
  rw [Std.ExtTreeMap.getElem?_insert] at hw
  split at hw
  · rename_i heq
    exact (Std.LawfulEqCmp.compare_eq_iff_eq.mp heq).symm
  · simp at hw

/-- Removing an unmarked record keeps the mark. -/
theorem OneMarked.erase_unmarked {m : Map κ β} (h : OneMarked mark m) {k : κ}
    (hk : ¬ MarkedAt mark m k) : OneMarked mark (m.erase k) := by
  intro hne
  obtain ⟨a, v, ha⟩ := exists_getElem?_of_ne_empty hne
  have hm : m ≠ ∅ := by
    rintro rfl
    simp at ha
  obtain ⟨one, ⟨w, hw, hmark⟩, huniq⟩ := h hm
  have hother : k ≠ one := by
    rintro rfl
    exact hk ⟨w, hw, hmark⟩
  refine ⟨one, ⟨w, by rw [getElem?_erase_of_ne m hother, hw], hmark⟩, ?_⟩
  rintro b ⟨x, hx, hmarkx⟩
  rw [Std.ExtTreeMap.getElem?_erase] at hx
  split at hx
  · cases hx
  · exact huniq b ⟨x, hx, hmarkx⟩

end Marked

end MqStudio.Lib.TreeMap
