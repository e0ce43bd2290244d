import Mathlib.Data.List.Nodup
import MqStudio.Lib.History
import MqStudio.Lib.Machine
import MqStudio.Lib.TreeMap

/-!
# The Notification Centre

`frontend/src/lib/alertCenter.ts` and the store of `frontend/src/hooks/useAlertCenter.tsx`: what is
remembered of the alerts of every connection. Rounds tell what some of the connections are found to
fire; a record lasts while its alert fires, and half an hour after it cleared.

What an alert says beside its key (its rule, its severity, its numbers, when it started) is carried
along, and a type parameter. What is stored of the read ids, and read of them by another window, is
left out.

## Main definitions

- `mergeAlerts`: one round.
- `center`: rounds in any order with acknowledgements and deletions.
- `Announced`: what a round owes to its alerts.
- `remembers`: no alert comes back read, and no connection is observed that was deleted.

## Main results

- `merge_lookup`, `mem_fired`: what a round leaves of each record, and what it announces.
- `announced`: then every new episode is announced once.
-/

namespace MqStudio.Alert

open MqStudio.Lib
open MqStudio.Lib.TreeMap

variable {δ : Type}

/-! ## The records -/

/-- `DerivedAlert` -/
structure DerivedAlert (δ : Type) where
  key : String
  detail : δ
  deriving DecidableEq

/-- `AlertRecord` -/
structure AlertRecord (δ : Type) where
  id : String
  connectionId : Int
  detail : δ
  firstSeen : Int
  lastSeen : Int
  resolvedAt : Option Int
  read : Bool

/-- Records under their ids. -/
abbrev Records (δ : Type) := Map String (AlertRecord δ)

/-- What a round found some connections to fire. -/
abbrev Observed (δ : Type) := List (Int × List (DerivedAlert δ))

/-- `RESOLVED_RETENTION_MS` -/
def resolvedRetention : Int := 30 * 60000

/-- `recordId` -/
def recordId (connectionId : Int) (key : String) : String := connectionId.repr ++ ":" ++ key

/-! ## A round -/

/-- A record cleared so long ago that it is dropped. -/
def AlertRecord.expired (now : Int) (r : AlertRecord δ) : Bool :=
  r.resolvedAt.any fun cleared => now - cleared > resolvedRetention

/-- What is carried forward: nothing of deleted connections, and no expired recoveries. -/
def carry (previous : Records δ) (known : List Int) (now : Int) : Records δ :=
  collect AlertRecord.id
    ((values previous).filter fun r => known.contains r.connectionId && !r.expired now)

/-- The record of an alert that is firing: one that fires on, one that came back and is unread again,
    or a new one, which honours the stored read set. -/
def noticed (connectionId : Int) (read : List String) (now : Int)
    (before : Option (AlertRecord δ)) (derived : DerivedAlert δ) : AlertRecord δ :=
  let id := recordId connectionId derived.key
  match before with
  | some before =>
    if before.resolvedAt = none then
      { before with
        id := id, connectionId := connectionId, detail := derived.detail, lastSeen := now }
    else ⟨id, connectionId, derived.detail, now, now, none, false⟩
  | none => ⟨id, connectionId, derived.detail, now, now, none, read.contains id⟩

/-- A record whose alert was firing the last time. -/
def standing (before : Option (AlertRecord δ)) : Bool := before.any fun r => r.resolvedAt.isNone

/-- One alert of a connection. -/
def see (connectionId : Int) (read : List String) (now : Int)
    (acc : Records δ × List (AlertRecord δ)) (derived : DerivedAlert δ) :
    Records δ × List (AlertRecord δ) :=
  let before := acc.1[recordId connectionId derived.key]?
  let record := noticed connectionId read now before derived
  (acc.1.insert (recordId connectionId derived.key) record,
    if standing before || record.read then acc.2 else acc.2 ++ [record])

/-- Anything the connection was firing and no longer is has recovered. -/
def recover (connectionId : Int) (stillFiring : List String) (now : Int) (records : Records δ) :
    Records δ :=
  records.map fun _ r =>
    if r.connectionId ≠ connectionId ∨ r.resolvedAt ≠ none ∨ r.id ∈ stillFiring then r
    else { r with resolvedAt := some now }

/-- One connection of a round. -/
def observe (read : List String) (now : Int) (acc : Records δ × List (AlertRecord δ))
    (found : Int × List (DerivedAlert δ)) : Records δ × List (AlertRecord δ) :=
  let seen := found.2.foldl (see found.1 read now) acc
  (recover found.1 (found.2.map fun derived => recordId found.1 derived.key) now seen.1, seen.2)

/-- `mergeAlerts`: the records, and those that are newly firing and still unread. -/
def mergeAlerts (previous : Records δ) (observed : Observed δ) (known : List Int)
    (read : List String) (now : Int) : Records δ × List (AlertRecord δ) :=
  observed.foldl (observe read now) (carry previous known now, [])

/-! ## The centre -/

/-- A round, with the records before and after it. -/
structure Round (δ : Type) where
  known : List Int
  observed : Observed δ
  now : Int
  before : Records δ
  after : Records δ
  fired : List (AlertRecord δ)

/-- The store of the hook, the profiles that exist, the clock, and the rounds there were. -/
structure Center (δ : Type) where
  records : Records δ
  readIds : List String
  known : List Int
  now : Int
  rounds : List (Round δ)

inductive CenterAct (δ : Type) where
  | round (observed : Observed δ) (now : Int)
  | markRead (id : String)
  | markAllRead
  /-- A connection is deleted. -/
  | delete (connectionId : Int)

/-- One step; a round observes each connection once, and each of its alerts once. -/
def Center.step (s : Center δ) : CenterAct δ → Option (Center δ)
  | .round observed now =>
    if s.now ≤ now ∧ (observed.map Prod.fst).Nodup ∧
        ∀ found ∈ observed, (found.2.map DerivedAlert.key).Nodup then
      let merged := mergeAlerts s.records observed s.known s.readIds now
      some { s with
        records := merged.1
        now := now
        rounds := ⟨s.known, observed, now, s.records, merged.1, merged.2⟩ :: s.rounds }
    else none
  | .markRead id =>
    match s.records[id]? with
    | none => some s
    | some record =>
      if record.read then some s
      else
        some { s with
          records := s.records.insert id { record with read := true }
          readIds := id :: s.readIds }
  | .markAllRead =>
    some { s with
      records := s.records.map fun _ r => { r with read := true }
      readIds := ((values s.records).filter fun r => !r.read).map AlertRecord.id ++ s.readIds }
  | .delete connectionId => some { s with known := s.known.filter (· ≠ connectionId) }

/-- A window that is opened, with any read set that was stored. -/
def center : Machine (Center δ) (CenterAct δ) where
  start s := s.records = ∅ ∧ s.rounds = []
  step := Center.step

/-! ## What a round owes -/

/-- What a connection fired when it was last observed; nothing where it never was. -/
def lastFound (connectionId : Int) : List (Round δ) → Option (List (DerivedAlert δ))
  | [] => none
  | round :: earlier =>
    match round.observed.lookup connectionId with
    | some alerts => some alerts
    | none => lastFound connectionId earlier

/-- Whether an alert was firing when its connection was last observed. -/
def wasFiring (connectionId : Int) (key : String) (earlier : List (Round δ)) : Option Bool :=
  (lastFound connectionId earlier).map fun alerts => alerts.any fun derived => derived.key = key

/-- **What a round owes to its alerts**: one that fires again is unread and announced, one that fires
    on is not announced, and nothing else is; a connection that is left out keeps its records, and
    one that was deleted has none. -/
structure Announced (earlier : List (Round δ)) (round : Round δ) : Prop where
  again : ∀ found ∈ round.observed, ∀ derived ∈ found.2,
    wasFiring found.1 derived.key earlier = some false →
      ∃ r ∈ round.fired, r.id = recordId found.1 derived.key ∧ r.read = false ∧
        round.after[r.id]? = some r
  once : ∀ r ∈ round.fired, ∃ found ∈ round.observed, ∃ derived ∈ found.2,
    r.id = recordId found.1 derived.key ∧ wasFiring found.1 derived.key earlier ≠ some true
  leftOut : ∀ (id : String) (r : AlertRecord δ), r.connectionId ∈ round.known → r.connectionId ∉ round.observed.map Prod.fst →
    (round.after[id]? = some r ↔ round.before[id]? = some r ∧ r.expired round.now = false)
  deleted : ∀ (id : String) (r : AlertRecord δ), round.after[id]? = some r → r.connectionId ∈ round.known

/-- No connection is observed that was deleted, and an alert that fires again was not read, or is
    still remembered as cleared. -/
def remembers (s : Center δ) : CenterAct δ → Prop
  | .round observed now => ∀ found ∈ observed, found.1 ∈ s.known ∧
    ∀ derived ∈ found.2, wasFiring found.1 derived.key s.rounds = some false →
      recordId found.1 derived.key ∈ s.readIds →
        s.records[recordId found.1 derived.key]?.any fun r => !r.expired now
  | _ => True

instance (s : Center δ) (act : CenterAct δ) : Decidable (remembers s act) := by
  unfold remembers
  split <;> infer_instance

/-! ## Ids -/

/-- A number as it is written: digits, behind a sign or not. -/
theorem toList_repr (n : Int) : ∃ sign m, n.repr.toList = sign ++ Nat.toDigits 10 m ∧
    (sign = [] ∧ n = Int.ofNat m ∨ sign = ['-'] ∧ n = -Int.ofNat m) := by
  cases n with
  | ofNat m => exact ⟨[], m, by rw [Int.repr, Nat.repr, String.toList_ofList]; rfl, .inl ⟨rfl, rfl⟩⟩
  | negSucc m =>
    refine ⟨['-'], m + 1, ?_, .inr ⟨rfl, rfl⟩⟩
    simp [Int.repr, Nat.repr]

theorem not_mem_toDigits {c : Char} (hc : c.isDigit = false) (m : Nat) : c ∉ Nat.toDigits 10 m := by
  intro hmem
  rw [Nat.isDigit_of_mem_toDigits (by decide) (by decide) hmem] at hc
  cases hc

theorem colon_not_mem_repr (n : Int) : ':' ∉ n.repr.toList := by
  obtain ⟨sign, m, hrepr, hsign⟩ := toList_repr n
  rw [hrepr]
  intro hmem
  rcases List.mem_append.mp hmem with hin | hdigits
  · rcases hsign with ⟨rfl, -⟩ | ⟨rfl, -⟩
    · cases hin
    · exact absurd hin (by decide)
  · exact not_mem_toDigits (by decide) m hdigits

theorem toDigits_inj {m n : Nat} (h : Nat.toDigits 10 m = Nat.toDigits 10 n) : m = n := by
  have hvalue := congrArg (fun digits => Nat.ofDigitChars 10 digits 0) h
  simpa using hvalue

theorem repr_inj {c d : Int} (h : c.repr.toList = d.repr.toList) : c = d := by
  obtain ⟨sign, m, hc, hsign⟩ := toList_repr c
  obtain ⟨other, n, hd, hother⟩ := toList_repr d
  rw [hc, hd] at h
  have hminus : ∀ k l : Nat, Nat.toDigits 10 k ≠ '-' :: Nat.toDigits 10 l := fun k l hlists =>
    not_mem_toDigits (by decide) k (hlists ▸ List.mem_cons_self)
  rcases hsign with ⟨rfl, rfl⟩ | ⟨rfl, rfl⟩ <;> rcases hother with ⟨rfl, rfl⟩ | ⟨rfl, rfl⟩
  · rw [toDigits_inj h]
  · exact absurd h (hminus m n)
  · exact absurd h.symm (hminus n m)
  · rw [toDigits_inj (List.append_cancel_left h)]

/-- An id is of one connection and one key. -/
theorem recordId_inj {c d : Int} {key other : String} (h : recordId c key = recordId d other) :
    c = d ∧ key = other := by
  have hlists : c.repr.toList ++ ':' :: key.toList = d.repr.toList ++ ':' :: other.toList := by
    have htoList := congrArg String.toList h
    simpa [recordId] using htoList
  -- the connection is what stands before the first colon
  have hbefore : ∀ (n : Int) (rest : List Char),
      (n.repr.toList ++ ':' :: rest).takeWhile (· ≠ ':') = n.repr.toList := by
    intro n rest
    have hdigits : ∀ a ∈ n.repr.toList, decide (a ≠ ':') = true := fun a ha =>
      decide_eq_true fun hcolon => colon_not_mem_repr n (hcolon ▸ ha)
    rw [List.takeWhile_append_of_pos hdigits]
    simp
  have hconn : c.repr.toList = d.repr.toList := by
    rw [← hbefore c key.toList, hlists, hbefore]
  rw [hconn] at hlists
  have hkey : key.toList = other.toList := List.tail_eq_of_cons_eq (List.append_cancel_left hlists)
  exact ⟨repr_inj hconn, String.toList_injective hkey⟩

/-! ## One connection -/

/-- Records are filed under their ids, each an id of its connection. -/
def Filed (m : Records δ) : Prop :=
  ∀ (id : String) (r : AlertRecord δ), m[id]? = some r →
    r.id = id ∧ ∃ key, id = recordId r.connectionId key

section Connection

variable {read : List String} {now : Int} {m : Records δ} {fired : List (AlertRecord δ)}

@[simp] theorem noticed_id (c : Int) (before : Option (AlertRecord δ)) (derived : DerivedAlert δ) :
    (noticed c read now before derived).id = recordId c derived.key := by
  unfold noticed
  dsimp only
  split
  · split <;> rfl
  · rfl

@[simp] theorem noticed_connectionId (c : Int) (before : Option (AlertRecord δ))
    (derived : DerivedAlert δ) : (noticed c read now before derived).connectionId = c := by
  unfold noticed
  dsimp only
  split
  · split <;> rfl
  · rfl

@[simp] theorem noticed_resolvedAt (c : Int) (before : Option (AlertRecord δ))
    (derived : DerivedAlert δ) : (noticed c read now before derived).resolvedAt = none := by
  unfold noticed
  dsimp only
  split
  · split
    · rename_i hnone
      exact hnone
    · rfl
  · rfl

theorem Filed.see (h : Filed m) (c : Int) (derived : DerivedAlert δ) :
    Filed (see c read now (m, fired) derived).1 := by
  intro id r hr
  unfold Alert.see at hr
  dsimp only at hr
  rw [getElem?_insert_ite] at hr
  split at hr
  · rename_i hid
    cases hr
    exact ⟨by rw [noticed_id, hid], derived.key, by rw [noticed_connectionId, hid]⟩
  · exact h id r hr

theorem getElem?_see (c : Int) (derived : DerivedAlert δ) (id : String) :
    (see c read now (m, fired) derived).1[id]? =
      if recordId c derived.key = id then
        some (noticed c read now m[recordId c derived.key]? derived) else m[id]? := by
  unfold see
  rw [getElem?_insert_ite]

/-- **The alerts of a connection**: each record is noticed from what was there before, -/
theorem getElem?_alerts {c : Int} {alerts : List (DerivedAlert δ)}
    (hkeys : (alerts.map DerivedAlert.key).Nodup) (key : String) :
    (alerts.foldl (see c read now) (m, fired)).1[recordId c key]? =
      match alerts.find? fun derived => derived.key = key with
      | some derived => some (noticed c read now m[recordId c key]? derived)
      | none => m[recordId c key]? := by
  induction alerts generalizing m fired with
  | nil => rfl
  | cons first rest ih =>
    obtain ⟨hfirst, hrest⟩ := List.nodup_cons.mp hkeys
    have hsee : ∀ id, (see c read now (m, fired) first).1[id]? = if recordId c first.key = id then
        some (noticed c read now m[recordId c first.key]? first) else m[id]? := getElem?_see c first
    rw [List.foldl_cons, List.find?_cons]
    refine (@ih (see c read now (m, fired) first).1 (see c read now (m, fired) first).2 hrest).trans ?_
    by_cases hsame : first.key = key
    · have hnone : (rest.find? fun derived => derived.key = key) = none := by
        refine List.find?_eq_none.mpr fun derived hmem hkey => hfirst ?_
        have hkey' : derived.key = key := by simpa using hkey
        exact List.mem_map.mpr ⟨derived, hmem, hkey'.trans hsame.symm⟩
      rw [hnone, hsee, hsame]
      simp
    · have hother : recordId c first.key ≠ recordId c key := fun hid => hsame (recordId_inj hid).2
      rw [hsee, if_neg hother]
      simp [hsame]

/-- the records of other connections are left alone, -/
theorem getElem?_alerts_of_ne {c : Int} (alerts : List (DerivedAlert δ)) {d : Int} (hd : d ≠ c)
    (key : String) :
    (alerts.foldl (see c read now) (m, fired)).1[recordId d key]? = m[recordId d key]? := by
  induction alerts generalizing m fired with
  | nil => rfl
  | cons first rest ih =>
    have hother : recordId c first.key ≠ recordId d key := fun hid => hd (recordId_inj hid).1.symm
    rw [List.foldl_cons]
    refine (@ih (see c read now (m, fired) first).1 (see c read now (m, fired) first).2).trans ?_
    rw [getElem?_see, if_neg hother]

/-- and those that are new and unread are announced. -/
theorem mem_alerts {c : Int} {alerts : List (DerivedAlert δ)}
    (hkeys : (alerts.map DerivedAlert.key).Nodup) (r : AlertRecord δ) :
    r ∈ (alerts.foldl (see c read now) (m, fired)).2 ↔ r ∈ fired ∨ ∃ derived ∈ alerts,
      standing m[recordId c derived.key]? = false ∧ r.read = false ∧
        r = noticed c read now m[recordId c derived.key]? derived := by
  induction alerts generalizing m fired with
  | nil => simp
  | cons first rest ih =>
    obtain ⟨hfirst, hrest⟩ := List.nodup_cons.mp hkeys
    have hsee : ∀ derived ∈ rest, (see c read now (m, fired) first).1[recordId c derived.key]? =
        m[recordId c derived.key]? := by
      intro derived hmem
      have hother : recordId c first.key ≠ recordId c derived.key := fun hid =>
        hfirst ((recordId_inj hid).2 ▸ List.mem_map_of_mem hmem)
      rw [getElem?_see, if_neg hother]
    have hnow : r ∈ (see c read now (m, fired) first).2 ↔ r ∈ fired ∨
        (standing m[recordId c first.key]? = false ∧ r.read = false ∧
          r = noticed c read now m[recordId c first.key]? first) := by
      unfold see
      dsimp only
      split
      · rename_i hquiet
        rw [Bool.or_eq_true] at hquiet
        refine ⟨.inl, ?_⟩
        rintro (hold | ⟨hnew, hunread, rfl⟩)
        · exact hold
        · rcases hquiet with hstanding | hread
          · rw [hnew] at hstanding
            cases hstanding
          · rw [hunread] at hread
            cases hread
      · rename_i hloud
        obtain ⟨hnew, hunread⟩ : standing m[recordId c first.key]? = false ∧
            (noticed c read now m[recordId c first.key]? first).read = false := by
          simpa using hloud
        rw [List.mem_append, List.mem_singleton]
        constructor
        · rintro (hold | rfl)
          · exact .inl hold
          · exact .inr ⟨hnew, hunread, rfl⟩
        · rintro (hold | ⟨-, -, hsame⟩)
          · exact .inl hold
          · exact .inr hsame
    rw [List.foldl_cons]
    refine (@ih (see c read now (m, fired) first).1 (see c read now (m, fired) first).2 hrest).trans ?_
    rw [hnow]
    constructor
    · rintro ((hold | hone) | ⟨derived, hmem, hrecord⟩)
      · exact .inl hold
      · exact .inr ⟨first, List.mem_cons_self, hone⟩
      · rw [hsee derived hmem] at hrecord
        exact .inr ⟨derived, List.mem_cons_of_mem _ hmem, hrecord⟩
    · rintro (hold | ⟨derived, hmem, hrecord⟩)
      · exact .inl (.inl hold)
      · rcases List.mem_cons.mp hmem with rfl | hlater
        · exact .inl (.inr hrecord)
        · rw [← hsee derived hlater] at hrecord
          exact .inr ⟨derived, hlater, hrecord⟩

theorem Filed.alerts (h : Filed m) (c : Int) (alerts : List (DerivedAlert δ)) :
    Filed (alerts.foldl (Alert.see c read now) (m, fired)).1 := by
  induction alerts generalizing m fired with
  | nil => exact h
  | cons first rest ih => exact ih (h.see c first)

/-- A record whose alert is no longer firing. -/
def cleared (now : Int) (r : AlertRecord δ) : AlertRecord δ :=
  if r.resolvedAt ≠ none then r else { r with resolvedAt := some now }

theorem getElem?_recover (c : Int) (firing : List String) (id : String) :
    (recover c firing now m)[id]? = m[id]?.map fun r =>
      if r.connectionId ≠ c ∨ r.resolvedAt ≠ none ∨ r.id ∈ firing then r
      else { r with resolvedAt := some now } := by
  rw [recover, Std.ExtTreeMap.getElem?_map]

theorem Filed.recover (h : Filed m) (c : Int) (firing : List String) :
    Filed (recover c firing now m) := by
  intro id r hr
  rw [getElem?_recover] at hr
  obtain ⟨before, hbefore, rfl⟩ := Option.map_eq_some_iff.mp hr
  obtain ⟨hid, key, hkey⟩ := h id before hbefore
  split
  · exact ⟨hid, key, hkey⟩
  · exact ⟨hid, key, hkey⟩

theorem Filed.observe (h : Filed m) (found : Int × List (DerivedAlert δ)) :
    Filed (observe read now (m, fired) found).1 :=
  (h.alerts found.1 found.2).recover _ _

/-- A filed record is of the connection in its id. -/
theorem Filed.connection (h : Filed m) {c : Int} {key : String} {r : AlertRecord δ}
    (hr : m[recordId c key]? = some r) : r.id = recordId c key ∧ r.connectionId = c := by
  obtain ⟨hid, other, hother⟩ := h _ r hr
  exact ⟨hid, (recordId_inj hother).1.symm⟩

/-- **A connection that is observed**: what fires is noticed, and the rest has cleared; -/
theorem getElem?_observe (h : Filed m) {found : Int × List (DerivedAlert δ)}
    (hkeys : (found.2.map DerivedAlert.key).Nodup) (key : String) :
    (observe read now (m, fired) found).1[recordId found.1 key]? =
      match found.2.find? fun derived => derived.key = key with
      | some derived => some (noticed found.1 read now m[recordId found.1 key]? derived)
      | none => m[recordId found.1 key]?.map (cleared now) := by
  unfold observe
  dsimp only
  rw [getElem?_recover, getElem?_alerts hkeys]
  cases hfind : found.2.find? fun derived => derived.key = key with
  | some derived =>
    have hmem := List.mem_of_find?_eq_some hfind
    have hfiring : recordId found.1 derived.key ∈
        found.2.map fun derived => recordId found.1 derived.key :=
      List.mem_map_of_mem hmem
    dsimp only
    rw [Option.map_some, noticed_id, if_pos (.inr (.inr hfiring))]
  | none =>
    dsimp only
    cases hm : m[recordId found.1 key]? with
    | none => rfl
    | some r =>
      obtain ⟨hid, hconn⟩ := h.connection hm
      have hquiet : r.id ∉ found.2.map fun derived => recordId found.1 derived.key := by
        intro hmem
        obtain ⟨derived, hderived, hsame⟩ := List.mem_map.mp hmem
        have hkey : derived.key = key := (recordId_inj (hsame.trans hid)).2
        exact absurd (decide_eq_true hkey) (List.find?_eq_none.mp hfind derived hderived)
      rw [Option.map_some, Option.map_some, cleared]
      congr 1
      simp [hconn, hquiet]

/-- the records of other connections stay. -/
theorem getElem?_observe_of_ne (h : Filed m) (found : Int × List (DerivedAlert δ)) {d : Int}
    (hd : d ≠ found.1) (key : String) :
    (observe read now (m, fired) found).1[recordId d key]? = m[recordId d key]? := by
  unfold observe
  dsimp only
  rw [getElem?_recover, getElem?_alerts_of_ne found.2 hd]
  cases hm : m[recordId d key]? with
  | none => rfl
  | some r =>
    obtain ⟨-, hconn⟩ := h.connection hm
    have hother : r.connectionId ≠ found.1 := hconn ▸ hd
    rw [Option.map_some, if_pos (.inl hother)]

end Connection

/-! ## A whole round -/

section Merged

variable {read : List String} {now : Int} {m : Records δ} {fired : List (AlertRecord δ)}
  {observed : Observed δ}

/-- A round that observes each connection once, and each of its alerts once. -/
structure Distinct (observed : Observed δ) : Prop where
  connections : (observed.map Prod.fst).Nodup
  keys : ∀ found ∈ observed, (found.2.map DerivedAlert.key).Nodup

theorem Distinct.tail {found : Int × List (DerivedAlert δ)} (h : Distinct (found :: observed)) :
    Distinct observed :=
  ⟨(List.nodup_cons.mp h.connections).2, fun other hother => h.keys other (List.mem_cons_of_mem _ hother)⟩

theorem Filed.all (h : Filed m) : Filed (observed.foldl (Alert.observe read now) (m, fired)).1 := by
  induction observed generalizing m fired with
  | nil => exact h
  | cons found rest ih => exact ih (h.observe found)

theorem getElem?_observed (h : Filed m) (hdistinct : Distinct observed) (c : Int) (key : String) :
    (observed.foldl (observe read now) (m, fired)).1[recordId c key]? =
      match observed.lookup c with
      | none => m[recordId c key]?
      | some alerts =>
        match alerts.find? fun derived => derived.key = key with
        | some derived => some (noticed c read now m[recordId c key]? derived)
        | none => m[recordId c key]?.map (cleared now) := by
  induction observed generalizing m fired with
  | nil => rfl
  | cons found rest ih =>
    obtain ⟨hfirst, -⟩ := List.nodup_cons.mp hdistinct.connections
    have hrest := @ih (observe read now (m, fired) found).1 (observe read now (m, fired) found).2
      (h.observe found) hdistinct.tail
    rw [List.foldl_cons]
    refine hrest.trans ?_
    obtain ⟨d, alerts⟩ := found
    rw [List.lookup_cons]
    by_cases hsame : c = d
    · subst hsame
      have hnone : rest.lookup c = none := by
        refine List.lookup_eq_none_iff.mpr fun other hother => ?_
        have hne : c ≠ other.1 := fun hc => hfirst (List.mem_map.mpr ⟨other, hother, hc.symm⟩)
        simpa using hne
      rw [hnone, beq_self_eq_true]
      exact getElem?_observe h (hdistinct.keys _ List.mem_cons_self) key
    · rw [getElem?_observe_of_ne h (d, alerts) hsame, beq_eq_false_iff_ne.mpr hsame]

theorem mem_observed (h : Filed m) (hdistinct : Distinct observed) (r : AlertRecord δ) :
    r ∈ (observed.foldl (observe read now) (m, fired)).2 ↔ r ∈ fired ∨
      ∃ found ∈ observed, ∃ derived ∈ found.2,
        standing m[recordId found.1 derived.key]? = false ∧ r.read = false ∧
          r = noticed found.1 read now m[recordId found.1 derived.key]? derived := by
  induction observed generalizing m fired with
  | nil => simp
  | cons first rest ih =>
    obtain ⟨hfirst, -⟩ := List.nodup_cons.mp hdistinct.connections
    have hrest := @ih (observe read now (m, fired) first).1 (observe read now (m, fired) first).2
      (h.observe first) hdistinct.tail
    have hframe : ∀ found ∈ rest, ∀ key, (observe read now (m, fired) first).1[recordId found.1 key]? =
        m[recordId found.1 key]? := by
      intro found hfound key
      refine getElem?_observe_of_ne h first (fun hsame => hfirst ?_) key
      exact hsame ▸ List.mem_map_of_mem hfound
    have hnow : r ∈ (observe read now (m, fired) first).2 ↔ r ∈ fired ∨ ∃ derived ∈ first.2,
        standing m[recordId first.1 derived.key]? = false ∧ r.read = false ∧
          r = noticed first.1 read now m[recordId first.1 derived.key]? derived :=
      mem_alerts (hdistinct.keys first List.mem_cons_self) r
    rw [List.foldl_cons]
    refine hrest.trans ?_
    constructor
    · rintro (hbefore | ⟨found, hfound, derived, hderived, hrecord⟩)
      · rcases hnow.mp hbefore with hold | ⟨derived, hderived, hrecord⟩
        · exact .inl hold
        · exact .inr ⟨first, List.mem_cons_self, derived, hderived, hrecord⟩
      · rw [hframe found hfound] at hrecord
        exact .inr ⟨found, List.mem_cons_of_mem _ hfound, derived, hderived, hrecord⟩
    · rintro (hold | ⟨found, hfound, derived, hderived, hrecord⟩)
      · exact .inl (hnow.mpr (.inl hold))
      · rcases List.mem_cons.mp hfound with rfl | hlater
        · exact .inl (hnow.mpr (.inr ⟨derived, hderived, hrecord⟩))
        · rw [← hframe found hlater] at hrecord
          exact .inr ⟨found, hlater, derived, hderived, hrecord⟩

/-- **What is carried forward.** -/
theorem getElem?_carry (h : Filed m) (known : List Int) {id : String} {r : AlertRecord δ} :
    (carry m known now)[id]? = some r ↔
      m[id]? = some r ∧ r.connectionId ∈ known ∧ r.expired now = false := by
  have hkeyed : Keyed AlertRecord.id m := fun id r hr => (h id r hr).1
  rw [carry, getElem?_collect (hkeyed.values_pairwise.filter _), List.mem_filter, mem_values]
  simp only [Bool.and_eq_true, Bool.not_eq_true', List.contains_iff_mem]
  constructor
  · rintro ⟨⟨⟨other, hother⟩, hknown, hfresh⟩, hid⟩
    have hsame : other = id := (hkeyed other r hother).symm.trans hid
    exact ⟨hsame ▸ hother, hknown, hfresh⟩
  · rintro ⟨hm, hknown, hfresh⟩
    exact ⟨⟨⟨id, hm⟩, hknown, hfresh⟩, hkeyed id r hm⟩

theorem Filed.carry (h : Filed m) (known : List Int) : Filed (carry m known now) := fun id r hr =>
  h id r ((getElem?_carry h known).mp hr).1

end Merged

/-! ## Every round -/

section Rounds

variable {s s' : Center δ}

/-- What is remembered is right: an alert that was firing has a record that stands, and one that was
    not has none that does. -/
structure Center.Inv (s : Center δ) : Prop where
  filed : Filed s.records
  firing : ∀ c ∈ s.known, ∀ key, wasFiring c key s.rounds = some true →
    ∃ r, s.records[recordId c key]? = some r ∧ r.resolvedAt = none
  quiet : ∀ c ∈ s.known, ∀ key, wasFiring c key s.rounds = some false →
    ∀ r, s.records[recordId c key]? = some r → r.resolvedAt ≠ none
  told : History.Each Announced s.rounds

/-- Two stores that differ in what was read. -/
def ReadApart (m n : Records δ) : Prop :=
  ∀ id : String, (n[id]?.map fun r => (r.id, r.connectionId, r.resolvedAt)) =
    m[id]?.map fun r => (r.id, r.connectionId, r.resolvedAt)

/-- **Reading** leaves what is remembered. -/
theorem Center.Inv.mark (h : s.Inv) {records : Records δ} {readIds : List String}
    (hread : ReadApart s.records records) :
    Center.Inv { s with records := records, readIds := readIds } := by
  have hback : ∀ {id : String} {r : AlertRecord δ}, records[id]? = some r →
      ∃ before, s.records[id]? = some before ∧ before.id = r.id ∧
        before.connectionId = r.connectionId ∧ before.resolvedAt = r.resolvedAt := by
    intro id r hr
    have hsame := hread id
    rw [hr] at hsame
    obtain ⟨before, hbefore, hshape⟩ := Option.map_eq_some_iff.mp hsame.symm
    simp only [Prod.mk.injEq] at hshape
    exact ⟨before, hbefore, hshape⟩
  refine ⟨fun id r hr => ?_, fun c hc key hfiring => ?_, fun c hc key hquiet r hr => ?_, h.told⟩
  · obtain ⟨before, hbefore, hid, hconn, -⟩ := hback hr
    obtain ⟨hsame, key, hkey⟩ := h.filed id before hbefore
    exact ⟨hid ▸ hsame, key, hconn ▸ hkey⟩
  · obtain ⟨r, hr, hstands⟩ := h.firing c hc key hfiring
    have hsame := hread (recordId c key)
    rw [hr] at hsame
    obtain ⟨after, hafter, hshape⟩ := Option.map_eq_some_iff.mp hsame
    simp only [Prod.mk.injEq] at hshape
    exact ⟨after, hafter, hshape.2.2.trans hstands⟩
  · obtain ⟨before, hbefore, -, -, hresolved⟩ := hback hr
    exact hresolved ▸ h.quiet c hc key hquiet before hbefore

theorem wasFiring_cons (c : Int) (key : String) (round : Round δ) (earlier : List (Round δ)) :
    wasFiring c key (round :: earlier) =
      match round.observed.lookup c with
      | some alerts => some (alerts.any fun derived => derived.key = key)
      | none => wasFiring c key earlier := by
  unfold wasFiring
  rw [lastFound]
  cases round.observed.lookup c <;> rfl

/-- A connection that is observed is looked up. -/
theorem Distinct.lookup {observed : Observed δ} (h : Distinct observed)
    {found : Int × List (DerivedAlert δ)} (hfound : found ∈ observed) :
    observed.lookup found.1 = some found.2 := by
  induction observed with
  | nil => cases hfound
  | cons first rest ih =>
    obtain ⟨hfirst, -⟩ := List.nodup_cons.mp h.connections
    rcases List.mem_cons.mp hfound with rfl | hlater
    · rw [List.lookup_cons, beq_self_eq_true]
    · have hne : found.1 ≠ first.1 := fun hsame => hfirst (hsame ▸ List.mem_map_of_mem hlater)
      obtain ⟨d, alerts⟩ := first
      rw [List.lookup_cons, beq_eq_false_iff_ne.mpr hne]
      exact ih h.tail hlater

/-- And so is each of its alerts. -/
theorem find_of_mem {alerts : List (DerivedAlert δ)} (h : (alerts.map DerivedAlert.key).Nodup)
    {derived : DerivedAlert δ} (hmem : derived ∈ alerts) :
    (alerts.find? fun other => other.key = derived.key) = some derived := by
  induction alerts with
  | nil => cases hmem
  | cons first rest ih =>
    obtain ⟨hfirst, hrest⟩ := List.nodup_cons.mp h
    rcases List.mem_cons.mp hmem with rfl | hlater
    · simp
    · have hne : first.key ≠ derived.key := fun hsame => hfirst (hsame ▸ List.mem_map_of_mem hlater)
      rw [List.find?_cons]
      simpa [hne] using ih hrest hlater

/-- **What a round leaves** of a record: noticed or cleared where its connection was observed, and
    otherwise as it was carried. -/
theorem merge_lookup {m : Records δ} (h : Filed m) {observed : Observed δ}
    (hdistinct : Distinct observed) (known : List Int) (read : List String) (now c : Int)
    (key : String) :
    (mergeAlerts m observed known read now).1[recordId c key]? =
      match observed.lookup c with
      | none => (carry m known now)[recordId c key]?
      | some alerts =>
        match alerts.find? fun derived => derived.key = key with
        | some derived => some (noticed c read now (carry m known now)[recordId c key]? derived)
        | none => (carry m known now)[recordId c key]?.map (cleared now) :=
  getElem?_observed (h.carry known) hdistinct c key

/-- **What a round announces**: the alerts that were not standing and are unread. -/
theorem mem_fired {m : Records δ} (h : Filed m) {observed : Observed δ}
    (hdistinct : Distinct observed) (known : List Int) (read : List String) (now : Int)
    (r : AlertRecord δ) :
    r ∈ (mergeAlerts m observed known read now).2 ↔
      ∃ found ∈ observed, ∃ derived ∈ found.2,
        standing (carry m known now)[recordId found.1 derived.key]? = false ∧ r.read = false ∧
          r = noticed found.1 read now (carry m known now)[recordId found.1 derived.key]? derived := by
  refine (mem_observed (h.carry known) hdistinct r).trans ?_
  simp

/-- A record that stands is carried. -/
theorem carry_standing {m : Records δ} (h : Filed m) {known : List Int} {now c : Int} {key : String}
    (hc : c ∈ known) {r : AlertRecord δ} (hr : m[recordId c key]? = some r)
    (hstands : r.resolvedAt = none) : (carry m known now)[recordId c key]? = some r := by
  refine (getElem?_carry h known).mpr ⟨hr, (h.connection hr).2 ▸ hc, ?_⟩
  simp [AlertRecord.expired, hstands]

section Owed

variable {observed : Observed δ} {now : Int}

/-- An alert that fires again was not standing, and its record is unread. -/
theorem Center.Inv.again (h : s.Inv) (hok : remembers s (.round observed now))
    {found : Int × List (DerivedAlert δ)} (hfound : found ∈ observed) {derived : DerivedAlert δ}
    (hderived : derived ∈ found.2) (hquiet : wasFiring found.1 derived.key s.rounds = some false) :
    standing (carry s.records s.known now)[recordId found.1 derived.key]? = false ∧
      (noticed found.1 s.readIds now (carry s.records s.known now)[recordId found.1 derived.key]?
        derived).read = false := by
  obtain ⟨hknown, hremembered⟩ := hok found hfound
  cases hcarried : (carry s.records s.known now)[recordId found.1 derived.key]? with
  | none =>
    refine ⟨rfl, ?_⟩
    show s.readIds.contains (recordId found.1 derived.key) = false
    by_contra hread
    have hmem : recordId found.1 derived.key ∈ s.readIds := by simpa using hread
    -- it is still remembered as cleared, so it was carried
    have hstill := hremembered derived hderived hquiet hmem
    obtain ⟨r, hr, hfresh⟩ := (Option.any_eq_true _ _).mp hstill
    have hfresh' : r.expired now = false := by simpa using hfresh
    have hcarry := (getElem?_carry h.filed s.known).mpr
      ⟨hr, (h.filed.connection hr).2 ▸ hknown, hfresh'⟩
    rw [hcarried] at hcarry
    cases hcarry
  | some r =>
    obtain ⟨hr, -, -⟩ := (getElem?_carry h.filed s.known).mp hcarried
    have hresolved := h.quiet found.1 hknown derived.key hquiet r hr
    refine ⟨?_, ?_⟩
    · cases hat : r.resolvedAt with
      | none => exact absurd hat hresolved
      | some cleared => simp [standing, hat]
    · simp [noticed, hresolved]

theorem lookup_leftOut {c : Int} (h : c ∉ observed.map Prod.fst) : observed.lookup c = none := by
  refine List.lookup_eq_none_iff.mpr fun found hfound => ?_
  have hne : c ≠ found.1 := fun hsame => h (List.mem_map.mpr ⟨found, hfound, hsame.symm⟩)
  simpa using hne

/-- What the round owes. -/
theorem Center.Inv.owes (h : s.Inv) (hok : remembers s (.round observed now))
    (hdistinct : Distinct observed) :
    Announced s.rounds ⟨s.known, observed, now, s.records,
      (mergeAlerts s.records observed s.known s.readIds now).1,
      (mergeAlerts s.records observed s.known s.readIds now).2⟩ where
  again found hfound derived hderived hquiet := by
    obtain ⟨hnew, hunread⟩ := h.again hok hfound hderived hquiet
    refine ⟨_, (mem_fired h.filed hdistinct _ _ _ _).mpr
      ⟨found, hfound, derived, hderived, hnew, hunread, rfl⟩, noticed_id _ _ _, hunread, ?_⟩
    dsimp only
    rw [noticed_id, merge_lookup h.filed hdistinct, hdistinct.lookup hfound]
    dsimp only
    rw [find_of_mem (hdistinct.keys found hfound) hderived]
  once r hr := by
    obtain ⟨found, hfound, derived, hderived, hnew, -, rfl⟩ :=
      (mem_fired h.filed hdistinct _ _ _ _).mp hr
    refine ⟨found, hfound, derived, hderived, noticed_id _ _ _, fun hfiring => ?_⟩
    obtain ⟨hknown, -⟩ := hok found hfound
    obtain ⟨before, hbefore, hstands⟩ := h.firing found.1 hknown derived.key hfiring
    rw [carry_standing h.filed hknown hbefore hstands, standing, Option.any_some, hstands] at hnew
    cases hnew
  leftOut id r hknown hout := by
    have hlookup := lookup_leftOut hout
    have hsame : ∀ key, (mergeAlerts s.records observed s.known s.readIds now).1[
        recordId r.connectionId key]? = (carry s.records s.known now)[recordId r.connectionId key]? := by
      intro key
      rw [merge_lookup h.filed hdistinct, hlookup]
    have hafter : Filed (mergeAlerts s.records observed s.known s.readIds now).1 :=
      (h.filed.carry s.known).all
    constructor
    · intro hr
      obtain ⟨-, key, rfl⟩ := hafter id r hr
      obtain ⟨hbefore, -, hfresh⟩ := (getElem?_carry h.filed s.known).mp (hsame key ▸ hr)
      exact ⟨hbefore, hfresh⟩
    · rintro ⟨hr, hfresh⟩
      obtain ⟨-, key, rfl⟩ := h.filed id r hr
      exact (hsame key).trans ((getElem?_carry h.filed s.known).mpr ⟨hr, hknown, hfresh⟩)
  deleted id r hr := by
    have hafter : Filed (mergeAlerts s.records observed s.known s.readIds now).1 :=
      (h.filed.carry s.known).all
    obtain ⟨-, key, rfl⟩ := hafter id r hr
    by_cases hin : r.connectionId ∈ observed.map Prod.fst
    · obtain ⟨found, hfound, hconn⟩ := List.mem_map.mp hin
      exact hconn ▸ (hok found hfound).1
    · have hcarried : (carry s.records s.known now)[recordId r.connectionId key]? = some r := by
        rw [← hr]
        dsimp only
        rw [merge_lookup h.filed hdistinct, lookup_leftOut hin]
      exact ((getElem?_carry h.filed s.known).mp hcarried).2.1

end Owed

/-- **A round** keeps what is remembered right, and owes nothing. -/
theorem Center.Inv.round (h : s.Inv) {observed : Observed δ} {now : Int}
    (hok : remembers s (.round observed now)) (hdistinct : Distinct observed) :
    Center.Inv { s with
      records := (mergeAlerts s.records observed s.known s.readIds now).1
      now := now
      rounds := ⟨s.known, observed, now, s.records,
        (mergeAlerts s.records observed s.known s.readIds now).1,
        (mergeAlerts s.records observed s.known s.readIds now).2⟩ :: s.rounds } where
  filed := (h.filed.carry s.known).all
  firing c hc key hfiring := by
    rw [wasFiring_cons] at hfiring
    dsimp only at hfiring ⊢
    rw [merge_lookup h.filed hdistinct]
    cases hlookup : observed.lookup c with
    | none =>
      rw [hlookup] at hfiring
      obtain ⟨r, hr, hstands⟩ := h.firing c hc key hfiring
      exact ⟨r, carry_standing h.filed hc hr hstands, hstands⟩
    | some alerts =>
      rw [hlookup] at hfiring
      dsimp only at hfiring ⊢
      cases hfind : alerts.find? fun derived => derived.key = key with
      | some derived => exact ⟨_, rfl, noticed_resolvedAt _ _ _⟩
      | none =>
        obtain ⟨derived, hderived, hkey⟩ := List.any_eq_true.mp (Option.some.inj hfiring)
        exact absurd hkey (List.find?_eq_none.mp hfind derived hderived)
  quiet c hc key hquiet r hr := by
    rw [wasFiring_cons] at hquiet
    dsimp only at hquiet hr
    rw [merge_lookup h.filed hdistinct] at hr
    cases hlookup : observed.lookup c with
    | none =>
      rw [hlookup] at hquiet hr
      exact h.quiet c hc key hquiet r ((getElem?_carry h.filed s.known).mp hr).1
    | some alerts =>
      rw [hlookup] at hquiet hr
      dsimp only at hquiet hr
      cases hfind : alerts.find? fun derived => derived.key = key with
      | some derived =>
        have hnone := List.any_eq_false.mp (Option.some.inj hquiet) derived
          (List.mem_of_find?_eq_some hfind)
        exact absurd (List.find?_some hfind) hnone
      | none =>
        rw [hfind] at hr
        obtain ⟨before, -, rfl⟩ := Option.map_eq_some_iff.mp hr
        unfold cleared
        split
        · assumption
        · exact Option.some_ne_none _
  told := History.each_cons.mpr ⟨h.owes hok hdistinct, h.told⟩

/-- Every step does, where a read alert that fires again is still remembered. -/
theorem Center.Inv.step (h : s.Inv) {act : CenterAct δ} (hok : remembers s act)
    (hstep : s.step act = some s') : s'.Inv := by
  cases act with
  | round observed now =>
    rw [Center.step] at hstep
    split at hstep
    · rename_i hguard
      cases hstep
      exact h.round hok ⟨hguard.2.1, hguard.2.2⟩
    · cases hstep
  | markRead id =>
    rw [Center.step] at hstep
    split at hstep
    · cases hstep
      exact h
    · rename_i record hrecord
      split at hstep
      · cases hstep
        exact h
      · cases hstep
        refine h.mark fun other => ?_
        rw [getElem?_insert_ite]
        split
        · rename_i hsame
          rw [← hsame, hrecord]
          rfl
        · rfl
  | markAllRead =>
    cases hstep
    refine h.mark fun id => ?_
    rw [Std.ExtTreeMap.getElem?_map, Option.map_map]
    rfl
  | delete connectionId =>
    cases hstep
    have hkept : ∀ c ∈ s.known.filter (· ≠ connectionId), c ∈ s.known := fun c hc =>
      List.mem_of_mem_filter hc
    exact ⟨h.filed, fun c hc => h.firing c (hkept c hc), fun c hc => h.quiet c (hkept c hc), h.told⟩

/-- **Every new episode is announced once**, in every run in which no alert comes back read after its
    record expired and no connection is observed that was deleted. -/
theorem announced (h : center.Reachable remembers s) : History.Each Announced s.rounds := by
  have hinv : s.Inv := h.invariant Center.Inv (fun s hs => by
      obtain ⟨hrecords, hrounds⟩ := hs
      have hnone : ∀ id : String, s.records[id]? = none := by
        intro id
        rw [hrecords]
        exact Std.ExtTreeMap.getElem?_empty
      refine ⟨fun id r hr => ?_, fun c _ key hfiring => ?_, fun c _ key hquiet => ?_, ?_⟩
      · rw [hnone] at hr
        cases hr
      · rw [hrounds] at hfiring
        cases hfiring
      · rw [hrounds] at hquiet
        cases hquiet
      · rw [hrounds]
        exact History.each_nil _)
    (fun s act s' _ hs hok hstep => hs.step hok hstep)
  exact hinv.told

end Rounds

/-- A connection's lag alert. -/
def lagAlert : DerivedAlert Unit := ⟨"group-lag-orders", ()⟩

/-- A window with one connection, and nothing stored as read. -/
def quietCenter : Center Unit := ⟨∅, [], [7], 0, []⟩

/-- The alert fires, is acknowledged, and clears. -/
def acknowledged : List (CenterAct Unit) :=
  [.round [(7, [lagAlert])] 0, .markAllRead, .round [(7, [])] 60000]

/-- The centre after that, and after the alert fires once more. -/
def centerAt (now : Int) : Center Unit :=
  center.endOf quietCenter (acknowledged ++ [.round [(7, [lagAlert])] now])

/-- Back within a minute, it is announced. -/
theorem announced_soon : History.Each Announced (centerAt 120000).rounds ∧
    ((centerAt 120000).rounds.map fun round => round.fired.length) = [1, 0, 1] := by
  have hstart : (@center Unit).Reachable remembers quietCenter := .start ⟨rfl, rfl⟩
  exact ⟨announced (hstart.endOf (by decide +kernel)), by decide +kernel⟩

/-- Back after half an hour, it stays silent. -/
theorem forgotten_silent : ∃ s, (@center Unit).Reachable Machine.Always s ∧
    ¬ History.Each Announced s.rounds := by
  have hstart : (@center Unit).Reachable Machine.Always quietCenter := .start ⟨rfl, rfl⟩
  refine ⟨centerAt 1900000, hstart.endOf (Machine.permitted_always _ _ _), fun h => ?_⟩
  have hfired : (centerAt 1900000).rounds.head?.map (fun round => round.fired.length) = some 0 := by
    decide +kernel
  have hobserved : (centerAt 1900000).rounds.head?.map Round.observed = some [(7, [lagAlert])] := by
    decide +kernel
  have hquiet : wasFiring 7 lagAlert.key (centerAt 1900000).rounds.tail = some false := by
    decide +kernel
  cases hrounds : (centerAt 1900000).rounds with
  | nil =>
    rw [hrounds] at hfired
    cases hfired
  | cons round earlier =>
    rw [hrounds] at h hfired hobserved hquiet
    have hfound : (7, [lagAlert]) ∈ round.observed := by
      rw [Option.some.inj hobserved]
      exact List.mem_cons_self
    obtain ⟨r, hr, -⟩ := (History.each_cons.mp h).1.again _ hfound _ List.mem_cons_self hquiet
    rw [List.length_eq_zero_iff.mp (Option.some.inj hfired)] at hr
    cases hr

end MqStudio.Alert
