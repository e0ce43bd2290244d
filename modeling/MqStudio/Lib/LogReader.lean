import MqStudio.Lib.BoundedLog

/-!
# Reading a Log

A reader goes through a log from where it opened. It returns entries, or is told that the log rolled
past it. `Complete` says that nothing that was due is missing behind its position, and there is one
rule for each thing that happens to the log and to the reader.

## Main definitions

- `Reader`: where it opened, how far it came, what it returned, what it counted as gone.
- `Complete`: every entry due behind the position was returned once, or counted.

## Main results

- `Complete.append`, `Complete.trim`: what happens to the log leaves the reader complete.
- `Complete.skip`, `Complete.take`: so does going past what is gone, and reading on.
-/

namespace MqStudio.Lib

universe u v w x

variable {α : Type u}

namespace BoundedLog

/-- One more entry. -/
def append (l : BoundedLog α) (x : α) : BoundedLog α := { l with arrived := l.arrived ++ [x] }

/-- The entries up to a place are discarded. -/
def trim (l : BoundedLog α) (k : Nat) : BoundedLog α :=
  { l with discarded := max l.discarded (min k l.arrived.length) }

/-- The entries that are due past a position. -/
def ahead (due : α → Bool) (l : BoundedLog α) (position : Nat) : List (Numbered α) :=
  ((numbered l.arrived).drop position).filter fun m => due m.content

end BoundedLog

/-- A reader of one log. -/
structure Reader (α : Type u) where
  opened : Nat
  position : Nat
  returned : List (Numbered α)
  gone : List Nat
  deriving DecidableEq

namespace Reader

/-- A reader that starts at a place. -/
def openAt (place : Nat) : Reader α := ⟨place, place, [], []⟩

/-- On to a place, what lies between counted as gone. -/
def skip (r : Reader α) (place : Nat) : Reader α :=
  { r with
    position := max r.position place
    gone := r.gone ++ List.range' (r.position + 1) (place - r.position) }

/-- On past some entries, which are returned as they are listed. -/
def take (r : Reader α) (read listed : List (Numbered α)) : Reader α :=
  { r with
    position := (read.getLast?.map Numbered.seq).getD r.position
    returned := r.returned ++ listed }

section Accessors

variable (r : Reader α) (place : Nat) (read listed : List (Numbered α))

@[simp] theorem skip_opened : (r.skip place).opened = r.opened := rfl

@[simp] theorem skip_position : (r.skip place).position = max r.position place := rfl

@[simp] theorem skip_returned : (r.skip place).returned = r.returned := rfl

@[simp] theorem skip_gone :
    (r.skip place).gone = r.gone ++ List.range' (r.position + 1) (place - r.position) := rfl

@[simp] theorem take_opened : (r.take read listed).opened = r.opened := rfl

@[simp] theorem take_returned : (r.take read listed).returned = r.returned ++ listed := rfl

@[simp] theorem take_gone : (r.take read listed).gone = r.gone := rfl

end Accessors

/-- What was returned so far is in the order of the log. -/
def InOrder (r : Reader α) : Prop := (r.returned.map Numbered.seq).Pairwise (· < ·)

end Reader

/-- **Nothing is missing behind the position**: what was due there was returned, once, or it is gone
    and was counted. -/
structure Complete (due : α → Bool) (l : BoundedLog α) (r : Reader α) : Prop where
  position : r.opened ≤ r.position ∧ r.position ≤ l.arrived.length
  once : (r.returned.map Numbered.seq).Nodup
  genuine : ∀ m ∈ r.returned, r.opened < m.seq ∧ m.seq ≤ r.position ∧
    l.arrived[m.seq - 1]? = some m.content ∧ due m.content = true
  gone : ∀ k ∈ r.gone, r.opened < k ∧ k ≤ r.position ∧ k ≤ l.discarded ∧
    k ∉ r.returned.map Numbered.seq
  covered : ∀ k x, r.opened < k → k ≤ r.position → l.arrived[k - 1]? = some x → due x = true →
    k ∈ r.returned.map Numbered.seq ∨ k ∈ r.gone

/-! ## What is ahead -/

section Ahead

variable {due : α → Bool} {l : BoundedLog α} {p : Nat}

theorem mem_ahead {m : Numbered α} : m ∈ l.ahead due p ↔
    p < m.seq ∧ l.arrived[m.seq - 1]? = some m.content ∧ due m.content = true := by
  rw [BoundedLog.ahead, List.mem_filter, mem_drop, and_assoc]

theorem pairwise_ahead : ((l.ahead due p).map Numbered.seq).Pairwise (· < ·) :=
  (pairwise_numbered l.arrived).sublist
    ((List.filter_sublist.trans (List.drop_sublist _ _)).map Numbered.seq)

/-- What is ahead stays so when an entry more arrives. -/
theorem ahead_append (due : α → Bool) (l : BoundedLog α) (p : Nat) (x : α) :
    l.ahead due p <+: (l.append x).ahead due p := by
  simp only [BoundedLog.ahead, BoundedLog.append, numbered_concat, List.drop_append,
    List.filter_append]
  exact List.prefix_append _ _

/-- A prefix of what is ahead holds everything up to its last entry. -/
theorem mem_of_prefix {read : List (Numbered α)} (hread : read <+: l.ahead due p)
    {m last : Numbered α} (hm : m ∈ l.ahead due p) (hlast : read.getLast? = some last)
    (hle : m.seq ≤ last.seq) : m ∈ read := by
  obtain ⟨rest, hrest⟩ := hread
  rw [← hrest, List.mem_append] at hm
  rcases hm with hin | hafter
  · exact hin
  · -- what follows the prefix comes after its last entry
    have hsorted : ((l.ahead due p).map Numbered.seq).Pairwise (· < ·) := pairwise_ahead
    rw [← hrest, List.map_append, List.pairwise_append] at hsorted
    have hlt := hsorted.2.2 _ (List.mem_map_of_mem (List.mem_of_getLast? hlast)) _
      (List.mem_map_of_mem hafter)
    exact absurd hle (Nat.not_le.mpr hlt)

/-- The last of a list that goes up is the highest of it. -/
theorem seq_le_last {read : List (Numbered α)} (hread : (read.map Numbered.seq).Pairwise (· < ·))
    {m last : Numbered α} (hm : m ∈ read) (hlast : read.getLast? = some last) :
    m.seq ≤ last.seq := by
  obtain ⟨init, rfl⟩ := List.getLast?_eq_some_iff.mp hlast
  rw [List.map_append, List.pairwise_append] at hread
  rcases List.mem_append.mp hm with hin | hin
  · exact (hread.2.2 _ (List.mem_map_of_mem hin) _ (by simp)).le
  · rw [List.mem_singleton.mp hin]

end Ahead

/-! ## The rules -/

namespace Complete

variable {due : α → Bool} {l : BoundedLog α} {r : Reader α}

theorem openAt {place : Nat} (hplace : place ≤ l.arrived.length) :
    Complete due l (Reader.openAt place) where
  position := ⟨le_rfl, hplace⟩
  once := List.nodup_nil
  genuine _ hm := absurd hm List.not_mem_nil
  gone _ hk := absurd hk List.not_mem_nil
  covered _ _ hlow hhigh := absurd hhigh (Nat.not_le.mpr hlow)

/-- **An entry more** leaves what is behind the position as it is. -/
theorem append (h : Complete due l r) (x : α) : Complete due (l.append x) r := by
  obtain ⟨hposition, honce, hgenuine, hgone, hcovered⟩ := h
  refine ⟨⟨hposition.1, ?_⟩, honce, fun m hm => ?_, hgone, fun k y hlow hhigh hy hdue => ?_⟩
  · simp only [BoundedLog.append, List.length_append, List.length_singleton]
    exact Nat.le_succ_of_le hposition.2
  · obtain ⟨hlow, hhigh, hcontent, hdue⟩ := hgenuine m hm
    refine ⟨hlow, hhigh, ?_, hdue⟩
    rw [BoundedLog.append, List.getElem?_append_left (List.getElem?_eq_some_iff.mp hcontent).1]
    exact hcontent
  · rw [BoundedLog.append, List.getElem?_append_left (by omega)] at hy
    exact hcovered k y hlow hhigh hy hdue

/-- **Discarding** leaves it complete, wherever it stands. -/
theorem trim (h : Complete due l r) (k : Nat) : Complete due (l.trim k) r := by
  refine ⟨h.position, h.once, h.genuine, fun j hj => ?_, h.covered⟩
  obtain ⟨hlow, hhigh, hdiscarded, hout⟩ := h.gone j hj
  exact ⟨hlow, hhigh, hdiscarded.trans (Nat.le_max_left _ _), hout⟩

/-- **Going past what is discarded** counts it. -/
theorem skip (h : Complete due l r) {place : Nat} (hplace : place ≤ max r.position l.discarded)
    (hsome : l.discarded ≤ l.arrived.length) : Complete due l (r.skip place) := by
  obtain ⟨hposition, honce, hgenuine, hgone, hcovered⟩ := h
  constructor
  case position =>
    simp only [Reader.skip_opened, Reader.skip_position]
    omega
  case once => exact honce
  case genuine =>
    intro m hm
    obtain ⟨hlow, hhigh, hcontent⟩ := hgenuine m hm
    exact ⟨hlow, hhigh.trans (Nat.le_max_left _ _), hcontent⟩
  case gone =>
    intro k hk
    simp only [Reader.skip_gone, List.mem_append, List.mem_range'_1] at hk
    simp only [Reader.skip_opened, Reader.skip_position, Reader.skip_returned]
    rcases hk with hold | hnew
    · obtain ⟨hlow, hhigh, hdiscarded, hout⟩ := hgone k hold
      exact ⟨hlow, hhigh.trans (Nat.le_max_left _ _), hdiscarded, hout⟩
    · refine ⟨by omega, by omega, by omega, fun hin => ?_⟩
      obtain ⟨m, hm, rfl⟩ := List.mem_map.mp hin
      have hbehind := (hgenuine m hm).2.1
      omega
  case covered =>
    intro k x hlow hhigh hx hdue
    simp only [Reader.skip_opened, Reader.skip_position] at hlow hhigh
    simp only [Reader.skip_gone, List.mem_append, List.mem_range'_1, Reader.skip_returned]
    by_cases hbehind : k ≤ r.position
    · rcases hcovered k x hlow hbehind hx hdue with hin | hin
      · exact .inl hin
      · exact .inr (.inl hin)
    · exact .inr (.inr (by omega))

/-- How far a reader comes: past everything it read, and past nothing else that is due. -/
theorem take_position {read : List (Numbered α)} (listed : List (Numbered α))
    (hread : read <+: l.ahead due r.position) :
    r.position ≤ (r.take read listed).position ∧
      ((r.take read listed).position ≤ r.position ∨
        (r.take read listed).position ≤ l.arrived.length) ∧
      ∀ m ∈ l.ahead due r.position, m ∈ read ↔ m.seq ≤ (r.take read listed).position := by
  have hahead : ∀ m ∈ read, r.position < m.seq ∧ l.arrived[m.seq - 1]? = some m.content ∧
      due m.content = true := fun m hm => mem_ahead.mp (hread.subset hm)
  cases hlast : read.getLast? with
  | none =>
    obtain rfl : read = [] := List.getLast?_eq_none_iff.mp hlast
    refine ⟨le_rfl, .inl le_rfl, fun m hm => ?_⟩
    have hafter := (mem_ahead.mp hm).1
    simp [Reader.take, hafter]
  | some last =>
    have hposition : (r.take read listed).position = last.seq := by simp [Reader.take, hlast]
    obtain ⟨hafter, hcontent, -⟩ := hahead last (List.mem_of_getLast? hlast)
    have hlt := (List.getElem?_eq_some_iff.mp hcontent).1
    rw [hposition]
    refine ⟨hafter.le, .inr (by omega), fun m hm => ⟨fun hin => ?_, mem_of_prefix hread hm hlast⟩⟩
    exact seq_le_last (pairwise_ahead.sublist (hread.sublist.map Numbered.seq)) hin hlast

/-- **Reading on** returns the next of what is due, listed in any order. -/
theorem take (h : Complete due l r) {read listed : List (Numbered α)}
    (hread : read <+: l.ahead due r.position) (hlisted : listed.Perm read) :
    Complete due l (r.take read listed) := by
  obtain ⟨hposition, honce, hgenuine, hgone, hcovered⟩ := h
  obtain ⟨hmoved, hend, hreached⟩ := take_position (r := r) listed hread
  have hmem : ∀ m, m ∈ listed ↔ m ∈ read := fun m => hlisted.mem_iff
  have hahead : ∀ m ∈ listed, r.position < m.seq ∧ l.arrived[m.seq - 1]? = some m.content ∧
      due m.content = true :=
    fun m hm => mem_ahead.mp (hread.subset ((hmem m).mp hm))
  -- what is read on is past everything returned or counted before
  have hfresh : ∀ k ∈ listed.map Numbered.seq, r.position < k := by
    intro k hk
    obtain ⟨m, hm, rfl⟩ := List.mem_map.mp hk
    exact (hahead m hm).1
  constructor
  case position =>
    simp only [Reader.take_opened]
    omega
  case once =>
    rw [Reader.take_returned, List.map_append, List.nodup_append]
    refine ⟨honce, ?_, fun j hj k hk => ?_⟩
    · have hsorted := pairwise_ahead.sublist (hread.sublist.map Numbered.seq)
      rw [(hlisted.map Numbered.seq).nodup_iff]
      exact hsorted.imp Nat.ne_of_lt
    · obtain ⟨m, hm, rfl⟩ := List.mem_map.mp hj
      have hbefore := (hgenuine m hm).2.1
      exact Nat.ne_of_lt (Nat.lt_of_le_of_lt hbefore (hfresh k hk))
  case genuine =>
    intro m hm
    rcases List.mem_append.mp hm with hold | hnew
    · obtain ⟨hlow, hhigh, hcontent⟩ := hgenuine m hold
      exact ⟨hlow, hhigh.trans hmoved, hcontent⟩
    · have hin := (hmem m).mp hnew
      have hplace := hahead m hnew
      exact ⟨Nat.lt_of_le_of_lt hposition.1 hplace.1, (hreached m (hread.subset hin)).mp hin,
        hplace.2⟩
  case gone =>
    intro k hk
    obtain ⟨hlow, hhigh, hdiscarded, hout⟩ := hgone k hk
    refine ⟨hlow, hhigh.trans hmoved, hdiscarded, ?_⟩
    rw [Reader.take_returned, List.map_append, List.mem_append]
    rintro (hold | hnew)
    · exact hout hold
    · exact absurd hhigh (Nat.not_le.mpr (hfresh k hnew))
  case covered =>
    intro k x hlow hhigh hx hdue
    rw [Reader.take_returned, Reader.take_gone, List.map_append, List.mem_append]
    by_cases hbehind : k ≤ r.position
    · rcases hcovered k x hlow hbehind hx hdue with hin | hin
      · exact .inl (.inl hin)
      · exact .inr hin
    · have hdueAhead : (⟨k, x⟩ : Numbered α) ∈ l.ahead due r.position :=
        mem_ahead.mpr ⟨Nat.lt_of_not_le hbehind, hx, hdue⟩
      have hin := (hmem _).mpr ((hreached _ hdueAhead).mpr hhigh)
      exact .inl (.inr (List.mem_map_of_mem hin))

/-- **Going on** past what is gone, and past what is read. -/
theorem goOn (h : Complete due l r) (hstored : l.discarded ≤ l.arrived.length) {skipped : Nat}
    {read listed : List (Numbered α)}
    (hgone : r.position + skipped ≤ max r.position l.discarded)
    (hread : read <+: l.ahead due (r.position + skipped)) (hlisted : listed.Perm read) :
    Complete due l ⟨r.opened, (read.getLast?.map Numbered.seq).getD (r.position + skipped),
      r.returned ++ listed, r.gone ++ List.range' (r.position + 1) skipped⟩ := by
  have hreached : max r.position (r.position + skipped) = r.position + skipped := by omega
  have hskipped := h.skip hgone hstored
  rw [← hreached] at hread
  have hnext := hskipped.take hread hlisted
  simpa [Reader.skip, Reader.take, hreached] using hnext

/-- Read on in the order of the log, what is returned stays in order. -/
theorem inOrder_take (h : Complete due l r) (horder : r.InOrder) {read : List (Numbered α)}
    (hread : read <+: l.ahead due r.position) : (r.take read read).InOrder := by
  rw [Reader.InOrder, Reader.take_returned, List.map_append, List.pairwise_append]
  refine ⟨horder, pairwise_ahead.sublist (hread.sublist.map Numbered.seq), fun j hj k hk => ?_⟩
  obtain ⟨m, hm, rfl⟩ := List.mem_map.mp hj
  obtain ⟨n, hn, rfl⟩ := List.mem_map.mp hk
  have hbefore := (h.genuine m hm).2.1
  have hafter := (mem_ahead.mp (hread.subset hn)).1
  exact Nat.lt_of_le_of_lt hbefore hafter

end Complete

/-! ## Many logs, each with a reader -/

/-- An entry with the log it is from. -/
structure Tagged (κ : Type v) (α : Type u) where
  key : κ
  message : Numbered α
  deriving DecidableEq

/-- A reader of each of many logs, whose entries are returned in one list: where each was opened,
    and where it is now, if it has a place at all. -/
structure Readers (κ : Type v) (α : Type u) where
  opened : κ → Option Nat
  place : κ → Option Nat
  returned : List (Tagged κ α)
  gone : List (κ × Nat)

section Keys

variable {ι : Type w} {κ : Type v} {β : Type x} [DecidableEq κ] {of : ι → κ} {label : β → κ}
  {f : ι → List β}

/-- What bears a key that none of them has is not among what they give. -/
theorem filter_flatMap_none (hf : ∀ i, ∀ b ∈ f i, label b = of i) {is : List ι} {key : κ}
    (hnone : ∀ i ∈ is, of i ≠ key) : (is.flatMap f).filter (label · = key) = [] := by
  apply List.filter_eq_nil_iff.mpr
  intro b hb
  obtain ⟨i, hi, hin⟩ := List.mem_flatMap.mp hb
  simpa [hf i b hin] using hnone i hi

/-- Of what several give under distinct keys, what bears one key is what its own gives. -/
theorem filter_flatMap_key (hf : ∀ i, ∀ b ∈ f i, label b = of i) {is : List ι}
    (h : (is.map of).Nodup) {i : ι} (hi : i ∈ is) :
    (is.flatMap f).filter (label · = of i) = f i := by
  induction is with
  | nil => cases hi
  | cons first rest ih =>
    rw [List.map_cons, List.nodup_cons] at h
    rw [List.flatMap_cons, List.filter_append]
    rcases List.mem_cons.mp hi with rfl | hrest
    · have hown : (f i).filter (label · = of i) = f i :=
        List.filter_eq_self.mpr fun b hb => by simp [hf i b hb]
      have hothers : ∀ other ∈ rest, of other ≠ of i := fun other hother hsame =>
        h.1 (hsame ▸ List.mem_map_of_mem hother)
      rw [hown, filter_flatMap_none hf hothers, List.append_nil]
    · have hfirst : of first ≠ of i := fun hsame => h.1 (hsame ▸ List.mem_map_of_mem hrest)
      have hnothing : (f first).filter (label · = of i) = [] :=
        List.filter_eq_nil_iff.mpr fun b hb => by simpa [hf first b hb] using hfirst
      rw [hnothing, ih h.2 hrest, List.nil_append]

end Keys

/-- What an answer says of one log: it has no place, is opened, or goes on past what is gone and
    what is read. -/
inductive Progress (due : α → Bool) (l : BoundedLog α) :
    Option Nat → Option Nat → List (Numbered α) → List Nat → Prop where
  | absent : Progress due l none none [] []
  | opens {place : Nat} (hplace : place ≤ l.arrived.length) : Progress due l none (some place) [] []
  | goesOn {place skipped : Nat} {read listed : List (Numbered α)}
      (hgone : place + skipped ≤ max place l.discarded)
      (hread : read <+: l.ahead due (place + skipped)) (hlisted : listed.Perm read) :
      Progress due l (some place) (some ((read.getLast?.map Numbered.seq).getD (place + skipped)))
        listed (List.range' (place + 1) skipped)

/-- A reader that stays where it is. -/
theorem Progress.stays {due : α → Bool} {l : BoundedLog α} (place : Nat) :
    Progress due l (some place) (some place) [] [] := by
  have hnothing : ([] : List (Numbered α)) <+: l.ahead due (place + 0) := List.nil_prefix
  exact .goesOn (Nat.le_max_left _ _) hnothing (List.Perm.refl [])

namespace Readers

variable {κ : Type v} [DecidableEq κ]

/-- Nothing is read yet. -/
def start : Readers κ α := ⟨fun _ => none, fun _ => none, [], []⟩

/-- What was returned of a log. -/
def returnedOf (R : Readers κ α) (key : κ) : List (Numbered α) :=
  (R.returned.filter (·.key = key)).map Tagged.message

/-- What is gone of a log. -/
def goneOf (R : Readers κ α) (key : κ) : List Nat := (R.gone.filter (·.1 = key)).map Prod.snd

/-- The reader of a log. -/
def reader (R : Readers κ α) (key : κ) (opened place : Nat) : Reader α :=
  ⟨opened, place, R.returnedOf key, R.goneOf key⟩

/-- An answer: the new places, and what is returned and gone. -/
def answer (R : Readers κ α) (place : κ → Option Nat) (messages : List (Tagged κ α))
    (gone : List (κ × Nat)) : Readers κ α where
  opened key := (R.opened key).or (place key)
  place := place
  returned := R.returned ++ messages
  gone := R.gone ++ gone

/-- **Nothing is missing behind any place.** -/
structure Complete (due : α → Bool) (log : κ → BoundedLog α) (R : Readers κ α) : Prop where
  complete : ∀ key opened, R.opened key = some opened →
    ∃ place, R.place key = some place ∧ Lib.Complete due (log key) (R.reader key opened place)
  unopened : ∀ key, R.opened key = none →
    R.place key = none ∧ R.returnedOf key = [] ∧ R.goneOf key = []

section Rules

variable {due : α → Bool} {log : κ → BoundedLog α} {R : Readers κ α}

theorem complete_start (due : α → Bool) (log : κ → BoundedLog α) :
    Complete due log (start : Readers κ α) :=
  ⟨fun _ _ hopened => (Option.some_ne_none _ hopened.symm).elim, fun _ _ => ⟨rfl, rfl, rfl⟩⟩

/-- A place is within its log. -/
theorem Complete.place_le (h : Complete due log R) {key : κ} {place : Nat}
    (hplace : R.place key = some place) : place ≤ (log key).arrived.length := by
  cases hopened : R.opened key with
  | none =>
    rw [(h.unopened key hopened).1] at hplace
    cases hplace
  | some first =>
    obtain ⟨place', hplace', hcomplete⟩ := h.complete key first hopened
    obtain rfl : place = place' := Option.some.inj (hplace.symm.trans hplace')
    exact hcomplete.position.2

/-- **A log that changes** in a way that leaves its reader complete. -/
theorem Complete.update (h : Complete due log R) {key : κ} {l : BoundedLog α}
    (hl : ∀ r, Lib.Complete due (log key) r → Lib.Complete due l r) :
    Complete due (Function.update log key l) R := by
  refine ⟨fun other opened hopened => ?_, h.unopened⟩
  obtain ⟨place, hplace, hcomplete⟩ := h.complete other opened hopened
  refine ⟨place, hplace, ?_⟩
  rw [Function.update_apply]
  split
  next hsame =>
    subst hsame
    exact hl _ hcomplete
  next => exact hcomplete

/-- **Answer rule**: what goes on from each place leaves nothing missing behind the next. -/
theorem Complete.answer (h : Complete due log R)
    (hstored : ∀ key, (log key).discarded ≤ (log key).arrived.length)
    {place : κ → Option Nat} {messages : List (Tagged κ α)} {gone : List (κ × Nat)}
    (hprogress : ∀ key, Progress due (log key) (R.place key) (place key)
      ((messages.filter (·.key = key)).map Tagged.message)
      ((gone.filter (·.1 = key)).map Prod.snd)) :
    Complete due log (R.answer place messages gone) := by
  have hreturned : ∀ key, (R.answer place messages gone).returnedOf key =
      R.returnedOf key ++ (messages.filter (·.key = key)).map Tagged.message := by
    intro key
    simp [returnedOf, Readers.answer]
  have hgone : ∀ key, (R.answer place messages gone).goneOf key =
      R.goneOf key ++ (gone.filter (·.1 = key)).map Prod.snd := by
    intro key
    simp [goneOf, Readers.answer]
  constructor
  case complete =>
    intro key opened hopened
    have hkey := hprogress key
    cases hbefore : R.opened key with
    | none =>
      obtain ⟨hnowhere, hnothing, hnogone⟩ := h.unopened key hbefore
      have hplace : place key = some opened := by
        simpa [Readers.answer, hbefore] using hopened
      refine ⟨opened, hplace, ?_⟩
      rw [hnowhere, hplace] at hkey
      have hmessages := hreturned key
      have hgone' := hgone key
      rw [hnothing] at hmessages
      rw [hnogone] at hgone'
      rw [Readers.reader, hmessages, hgone']
      generalize (messages.filter (·.key = key)).map Tagged.message = listed at hkey ⊢
      generalize (gone.filter (·.1 = key)).map Prod.snd = counted at hkey ⊢
      cases hkey with
      | opens hend => exact Lib.Complete.openAt hend
    | some first =>
      obtain rfl : first = opened := by simpa [Readers.answer, hbefore] using hopened
      obtain ⟨before, hplace, hcomplete⟩ := h.complete key first hbefore
      rw [hplace] at hkey
      simp only [Readers.reader, hreturned, hgone]
      generalize (messages.filter (·.key = key)).map Tagged.message = listed at hkey ⊢
      generalize (gone.filter (·.1 = key)).map Prod.snd = counted at hkey ⊢
      generalize hafter : place key = after at hkey
      cases hkey with
      | goesOn hskipped hread hlisted =>
        exact ⟨_, hafter, hcomplete.goOn (hstored key) hskipped hread hlisted⟩
  case unopened =>
    intro key hopened
    obtain ⟨hbefore, hplace⟩ := Option.or_eq_none_iff.mp hopened
    obtain ⟨hnowhere, hnothing, hnogone⟩ := h.unopened key hbefore
    have hkey := hprogress key
    rw [hnowhere, hplace] at hkey
    rw [hreturned, hgone, hnothing, hnogone]
    generalize (messages.filter (·.key = key)).map Tagged.message = listed at hkey ⊢
    generalize (gone.filter (·.1 = key)).map Prod.snd = counted at hkey ⊢
    cases hkey with
    | absent => exact ⟨hplace, rfl, rfl⟩

end Rules

end Readers

end MqStudio.Lib
