import MqStudio.Assistant.Crash
import MqStudio.Assistant.Manager
import MqStudio.Assistant.Moves

/-!
# Invariants of Conversations

Most of what the manager promises is about one conversation and the run on it. Such a promise is
four properties: of a conversation at rest, of one being answered, of a record of one, and of what
happened so far. `Keeps` lists what each step may do to them, one conversation at a time; the
interleaving of calls, runs, processes and the archive is dealt with here, once.

## Main definitions

- `Upkeep`, `Limits`: the properties, and the condition the steps are to meet.
- `Keeps`: every step keeps them.

## Main results

- `Keeps.reachable`: they hold in every interleaving over every process.
-/

namespace MqStudio.Assistant

open MqStudio.Lib
open MqStudio.Lib.TreeMap

/-- What is kept up: of a record, of a conversation at rest, of one a run answers, and of what
    happened. -/
structure Upkeep where
  good : Record → Prop
  idle : List Happening → Session → Prop
  busy : List Happening → Session → Run → Prop
  told : List Happening → Prop

/-- A condition on the steps: on a conversation being held again, on a step of a run, and on a
    stop. -/
structure Limits where
  restore : Record → Prop
  step : Surroundings → List Happening → Session → Run → Choice → Prop
  stop : Session → Run → Prop

namespace Limits

/-- No condition. -/
def none : Limits := ⟨fun _ => True, fun _ _ _ _ _ => True, fun _ _ => True⟩

variable (L : Limits)

/-- The condition on a call. -/
def onCall (w : World) : Errand → Prop
  | .restoring kept _ => w.sessions[kept.id]? = .none → L.restore kept
  | .stop id => ∀ s ∈ w.sessions[id]?, ∀ r ∈ w.running, r.address = s.address → L.stop s r
  | _ => True

/-- The condition on what takes place beside the calls. -/
def onAround (w : World) : Around → Prop
  | .run choice => ∀ r ∈ w.running, ∀ s ∈ w.sessions[r.id]?,
    L.step w.surroundings w.happened s r choice
  | _ => True

/-- The condition on a step of the manager. -/
def condition : Program.Condition World Errand Say Around where
  thread w p _ := L.onCall w p
  beside _ _ _ _ := True
  environment := L.onAround

section Decidable

variable [∀ kept, Decidable (L.restore kept)] [∀ s r, Decidable (L.stop s r)]
  [∀ e h s r choice, Decidable (L.step e h s r choice)]

instance (w : World) : (p : Errand) → Decidable (L.onCall w p)
  | .restoring kept _ =>
    inferInstanceAs (Decidable (w.sessions[kept.id]? = .none → L.restore kept))
  | .stop id => inferInstanceAs (Decidable
      (∀ s ∈ w.sessions[id]?, ∀ r ∈ w.running, r.address = s.address → L.stop s r))
  | .start _ | .adding _ | .send .. | .carryOn _ | .opening .. | .loading .. | .entering .. =>
    .isTrue trivial
  | .rename .. | .keeping _ | .saving _ | .decide .. | .delete _ | .removing _ => .isTrue trivial
  | .clear | .prune | .sparing _ | .expiring .. | .dropping _ | .listing => .isTrue trivial

instance (w : World) : (around : Around) → Decidable (L.onAround w around)
  | .run choice => inferInstanceAs (Decidable (∀ r ∈ w.running, ∀ s ∈ w.sessions[r.id]?,
      L.step w.surroundings w.happened s r choice))
  | .settings _ | .connections _ | .tick _ | .line _ => .isTrue trivial

instance (w : World) (p : Errand) (say : Say) : Decidable (L.condition.thread w p say) :=
  inferInstanceAs (Decidable (L.onCall w p))

instance (w : World) (p : Errand) (say : Say) (q : Errand) :
    Decidable (L.condition.beside w p say q) := .isTrue trivial

instance (w : World) (around : Around) : Decidable (L.condition.environment w around) :=
  inferInstanceAs (Decidable (L.onAround w around))

end Decidable

end Limits

/-- An event that is no step of a call to a tool. -/
def Happening.aside : Happening → Bool
  | .foreign _ | .began _ | .stopped _ | .decided .. => true
  | _ => false

/-- **What each step may do** to what is kept up. -/
structure Keeps (c : Config) (L : Limits) (bound : Nat) (U : Upkeep) : Prop where
  told_nil : U.told []
  told_aside : ∀ h event, U.told h → event.aside = true → U.told (event :: h)
  version : ∀ kept v, U.good kept → U.good { kept with version := v }
  new : ∀ h id address chosen now, bound ≤ address → U.idle h (newSession id address chosen now)
  restored : ∀ h kept address sent, bound ≤ address → U.good kept → L.restore kept →
    U.idle h (fromRecord kept address sent)
  recorded : ∀ h s, U.idle h s → U.good s.record
  speaks : ∀ h s now text composed about, U.idle h s → U.idle h (s.speaks now text composed about)
  starts : ∀ h s, U.idle h s → U.busy (.began s.address :: h) s.starts (Run.new s)
  idle_renamed : ∀ h s title, U.idle h s → U.idle h (s.renamed title)
  busy_renamed : ∀ h s r title, U.busy h s r → U.busy h (s.renamed title) r
  idle_decides : ∀ h s item decision, item ∈ s.asks → U.idle h s →
    U.idle (.decided s.address item decision :: h) (s.decides item decision)
  busy_decides : ∀ h s r item decision, item ∈ s.asks → U.busy h s r →
    U.busy (.decided s.address item decision :: h) (s.decides item decision) r
  stops : ∀ h s r, U.busy h s r → L.stop s r →
    U.busy (.stopped s.address :: h) s { r with cancelled := true }
  idle_elsewhere : ∀ h s event, Elsewhere s event → U.idle h s → U.idle (event :: h) s
  busy_elsewhere : ∀ h s r event, Elsewhere s event → event.aside = true → U.busy h s r →
    U.busy (event :: h) s r
  run : ∀ h e s r choice m, U.told h → U.busy h s r → r.address = s.address →
    L.step e h s r choice → Move c e s r choice m →
    U.busy (m.happened ++ h) m.session m.run ∧ U.told (m.happened ++ h)
  keeping : ∀ h s r kept next, U.busy h s r → r.position = .keeping kept →
    next = .closing ∨ next = .saving kept → U.busy h s (r.at next)
  saving : ∀ h s r kept, U.busy h s r → r.position = .saving kept →
    U.good kept ∧ U.busy h s (r.at .closing)
  closing : ∀ h s r, U.busy h s r → r.position = .closing → U.idle h s.ends

/-! ## Worlds -/

/-- The conversations held are told apart, and the run answers one of them. -/
structure Orderly (bound : Nat) (w : World) : Prop where
  bound : bound ≤ w.addresses
  keyed : ∀ (id : String) (s : Session), w.sessions[id]? = some s → s.id = id
  below : ∀ (id : String) (s : Session), w.sessions[id]? = some s → s.address < w.addresses
  apart : ∀ (id id' : String) (s s' : Session), w.sessions[id]? = some s →
    w.sessions[id']? = some s' → s.address = s'.address → id = id'
  drawn : ∀ (id : String) (s : Session), w.sessions[id]? = some s → id ∈ w.drawn
  filed : ∀ (id : String) (kept : Record), w.archive.load id = .ok kept →
    kept.id = id ∧ id ∈ w.drawn
  answering : ∀ r : Run, w.running = some r →
    ∃ s : Session, w.sessions[r.id]? = some s ∧ s.address = r.address
  keeping : ∀ r : Run, w.running = some r → r.position.keeps r.id
  foreign : ∀ event ∈ w.happened, ∀ id ∈ w.drawn, event.isOf id = false

/-- What is kept up, in a world. -/
structure Tended (bound : Nat) (U : Upkeep) (w : World) : Prop where
  orderly : Orderly bound w
  idle : ∀ (id : String) (s : Session), w.sessions[id]? = some s → w.isRunning s = false →
    U.idle w.happened s
  busy : ∀ (r : Run) (s : Session), w.running = some r → w.sessions[r.id]? = some s →
    U.busy w.happened s r
  told : U.told w.happened
  good : ∀ (id : String) (kept : Record), w.archive.load id = .ok kept → U.good kept

/-- The record a call holds. -/
def Errand.record : Errand → Option Record
  | .restoring kept _ => some kept
  | .keeping kept | .saving kept => some kept
  | _ => none

/-- What is kept up of a call: its record. -/
def Carried (U : Upkeep) (w : World) (p : Errand) : Prop :=
  ∀ kept, p.record = some kept → kept.id ∈ w.drawn ∧ U.good kept

section Changes

variable {bound : Nat} {U : Upkeep} {w : World} {c : Config} {L : Limits} {id : String} {s : Session}

theorem World.isRunning_iff : w.isRunning s = true ↔ ∃ r, w.running = some r ∧ r.address = s.address := by
  unfold isRunning
  cases w.running <;> simp

/-- A conversation that was opened is held where it was. -/
theorem World.held_eq_some {address : Nat} (h : w.held id address = some s) :
    w.sessions[id]? = some s := by
  unfold held at h
  split at h
  · cases h
  · rename_i found hfound
    split at h
    · cases h
      exact hfound
    · cases h

/-- The conversation a run answers is the one under its id. -/
theorem Orderly.running (h : Orderly bound w) (hs : w.sessions[id]? = some s) {r : Run}
    (hr : w.running = some r) : r.address = s.address ↔ r.id = id := by
  obtain ⟨t, ht, haddress⟩ := h.answering r hr
  constructor
  · intro hsame
    exact h.apart _ _ t s ht hs (haddress.trans hsame)
  · rintro rfl
    obtain rfl := Option.some.inj (ht.symm.trans hs)
    exact haddress.symm

/-- Putting back a conversation that is held. -/
theorem getElem?_put {t : Session} (hs : w.sessions[id]? = some s) (hid : t.id = id)
    {other : String} {u : Session} :
    (w.put t).sessions[other]? = some u ↔
      (other = id ∧ u = t) ∨ (other ≠ id ∧ w.sessions[other]? = some u) := by
  subst hid
  by_cases hother : other = t.id
  · subst hother
    simp [World.put, eq_comm]
  · simp [World.put, getElem?_insert_of_ne _ _ (Ne.symm hother), hother]

/-- What holds of a conversation at rest is not changed by what happens elsewhere. -/
theorem Keeps.idle_more (hk : Keeps c L bound U) {h : List Happening} (hs : U.idle h s)
    {more : List Happening} (hmore : ∀ event ∈ more, Elsewhere s event) :
    U.idle (more ++ h) s := by
  induction more with
  | nil => exact hs
  | cons event rest ih =>
    apply hk.idle_elsewhere _ _ _ (hmore event List.mem_cons_self)
    exact ih fun event' hevent' => hmore event' (List.mem_cons_of_mem _ hevent')

/-- Nor is what holds of one being answered. -/
theorem Keeps.busy_more (hk : Keeps c L bound U) {h : List Happening} {r : Run}
    (hs : U.busy h s r) {more : List Happening}
    (hmore : ∀ event ∈ more, Elsewhere s event ∧ event.aside = true) :
    U.busy (more ++ h) s r := by
  induction more with
  | nil => exact hs
  | cons event rest ih =>
    obtain ⟨helsewhere, haside⟩ := hmore event List.mem_cons_self
    apply hk.busy_elsewhere _ _ _ _ helsewhere haside
    exact ih fun event' hevent' => hmore event' (List.mem_cons_of_mem _ hevent')

/-- **A change of one conversation**, with what happened in it and the run that is going after. -/
theorem Tended.change (hw : Tended bound U w) (hk : Keeps c L bound U)
    (hs : w.sessions[id]? = some s) {t : Session} (hsame : Same s t) {running : Option Run}
    {counter : Nat} {happened : List Happening}
    (hhere : ∀ r, running = some r → r.id = id → r.address = s.address)
    (hkeeps : ∀ r, running = some r → r.id = id → r.position.keeps r.id)
    (hthere : ∀ r : Run, r.id ≠ id → (running = some r ↔ w.running = some r))
    (helsewhere : ∀ other : Session, s.id ≠ other.id → s.address ≠ other.address →
      ∀ event ∈ happened, Elsewhere other event)
    (hown : ∀ event ∈ happened, ∀ id, event.isOf id = false)
    (haside : ∀ r, running = some r → r.id ≠ id → ∀ event ∈ happened, event.aside = true)
    (hidle : (∀ r, running = some r → r.id ≠ id) → U.idle (happened ++ w.happened) t)
    (hbusy : ∀ r, running = some r → r.id = id → U.busy (happened ++ w.happened) t r)
    (htold : U.told (happened ++ w.happened)) :
    Tended bound U { w.put t with
      running := running, calls := counter, happened := happened ++ w.happened } := by
  have hid : s.id = id := hw.orderly.keyed id s hs
  have htid : t.id = id := hsame.1.trans hid
  -- the events of this conversation mean nothing to another
  have hothers : ∀ (other : String) (u : Session), other ≠ id → w.sessions[other]? = some u →
      ∀ event ∈ happened, Elsewhere u event := by
    intro other u hne hu
    apply helsewhere u
    · rw [hid, hw.orderly.keyed other u hu]
      exact hne.symm
    · exact fun haddress => hne (hw.orderly.apart _ _ u s hu hs haddress.symm)
  have hlookup : ∀ (other : String) (u : Session), (w.put t).sessions[other]? = some u ↔
      (other = id ∧ u = t) ∨ (other ≠ id ∧ w.sessions[other]? = some u) :=
    fun other u => getElem?_put hs htid
  refine ⟨⟨hw.orderly.bound, fun other u hu => ?_, fun other u hu => ?_,
    fun other other' u u' hu hu' haddress => ?_, fun other u hu => ?_, hw.orderly.filed,
    fun r hr => ?_, fun r hr => ?_, fun event hevent => ?_⟩, fun other u hu hrest => ?_,
    fun r u hr hu => ?_, htold, hw.good⟩
  · rcases (hlookup other u).mp hu with ⟨rfl, rfl⟩ | ⟨-, hu⟩
    · exact htid
    · exact hw.orderly.keyed other u hu
  · rcases (hlookup other u).mp hu with ⟨-, rfl⟩ | ⟨-, hu⟩
    · rw [hsame.2]
      exact hw.orderly.below id s hs
    · exact hw.orderly.below other u hu
  · rcases (hlookup other u).mp hu with ⟨rfl, rfl⟩ | ⟨-, hold⟩
    · rcases (hlookup other' u').mp hu' with ⟨hother', -⟩ | ⟨-, hold'⟩
      · exact hother'.symm
      · exact hw.orderly.apart _ _ s u' hs hold' (hsame.2.symm.trans haddress)
    · rcases (hlookup other' u').mp hu' with ⟨rfl, rfl⟩ | ⟨-, hold'⟩
      · exact hw.orderly.apart _ _ u s hold hs (haddress.trans hsame.2)
      · exact hw.orderly.apart _ _ u u' hold hold' haddress
  · rcases (hlookup other u).mp hu with ⟨rfl, -⟩ | ⟨-, hu⟩
    · exact hw.orderly.drawn _ s hs
    · exact hw.orderly.drawn other u hu
  · by_cases hrid : r.id = id
    · exact ⟨t, (hlookup _ _).mpr (.inl ⟨hrid, rfl⟩), hsame.2.trans (hhere r hr hrid).symm⟩
    · obtain ⟨u, hu, haddress⟩ := hw.orderly.answering r ((hthere r hrid).mp hr)
      exact ⟨u, (hlookup _ _).mpr (.inr ⟨hrid, hu⟩), haddress⟩
  · by_cases hrid : r.id = id
    · exact hkeeps r hr hrid
    · exact hw.orderly.keeping r ((hthere r hrid).mp hr)
  · rcases List.mem_append.mp hevent with hnew | hold
    · exact fun id _ => hown event hnew id
    · exact hw.orderly.foreign event hold
  · rcases (hlookup other u).mp hu with ⟨rfl, rfl⟩ | ⟨hne, hu⟩
    · apply hidle
      intro r hr hrid
      have hisRunning : ∃ r, running = some r ∧ r.address = u.address :=
        ⟨r, hr, (hhere r hr hrid).trans hsame.2.symm⟩
      rw [World.isRunning_iff.mpr hisRunning] at hrest
      cases hrest
    · apply hk.idle_more _ (hothers other u hne hu)
      apply hw.idle other u hu
      rw [← Bool.not_eq_true] at hrest ⊢
      intro hrunning
      obtain ⟨r, hr, haddress⟩ := World.isRunning_iff.mp hrunning
      have hrid : r.id = other := (hw.orderly.running hu hr).mp haddress
      exact hrest (World.isRunning_iff.mpr
        ⟨r, (hthere r (by rw [hrid]; exact hne)).mpr hr, haddress⟩)
  · rcases (hlookup r.id u).mp hu with ⟨hrid, rfl⟩ | ⟨hne, hu⟩
    · exact hbusy r hr hrid
    · apply hk.busy_more (hw.busy r u ((hthere r hne).mp hr) hu)
      exact fun event hevent => ⟨hothers r.id u hne hu event hevent, haside r hr hne event hevent⟩

/-- A conversation that was not held is. -/
theorem Tended.insert (hw : Tended bound U w) (hs : w.sessions[s.id]? = none)
    (haddress : s.address = w.addresses) (hidle : U.idle w.happened s) {drawn : List String}
    (hdrawn : s.id ∈ drawn) (hmore : ∀ id ∈ w.drawn, id ∈ drawn)
    (hforeign : ∀ event ∈ w.happened, ∀ id ∈ drawn, event.isOf id = false) :
    Tended bound U { w with
      sessions := w.sessions.insert s.id s, addresses := w.addresses + 1, drawn := drawn } := by
  have hlookup : ∀ (other : String) (u : Session),
      (w.sessions.insert s.id s)[other]? = some u →
        other = s.id ∧ u = s ∨ other ≠ s.id ∧ w.sessions[other]? = some u := by
    intro other u hu
    by_cases hother : other = s.id
    · subst hother
      simp only [Std.ExtTreeMap.getElem?_insert_self, Option.some.injEq] at hu
      exact .inl ⟨rfl, hu.symm⟩
    · rw [getElem?_insert_of_ne _ _ (Ne.symm hother)] at hu
      exact .inr ⟨hother, hu⟩
  -- an address that was not given yet belongs to nobody else
  have hnew : ∀ (other : String) (u : Session), w.sessions[other]? = some u →
      u.address ≠ s.address := by
    intro other u hu hsame
    have hbelow := hw.orderly.below other u hu
    omega
  have hrunning : ∀ r, w.running = some r → r.id ≠ s.id := by
    intro r hr hrid
    obtain ⟨u, hu, -⟩ := hw.orderly.answering r hr
    rw [hrid, hs] at hu
    cases hu
  refine ⟨⟨Nat.le_succ_of_le hw.orderly.bound, fun other u hu => ?_, fun other u hu => ?_,
    fun other other' u u' hu hu' hsame => ?_, fun other u hu => ?_, fun id kept hload => ?_,
    fun r hr => ?_, hw.orderly.keeping, hforeign⟩, fun other u hu hrest => ?_,
    fun r u hr hu => ?_, hw.told, hw.good⟩
  · rcases hlookup other u hu with ⟨rfl, rfl⟩ | ⟨-, hold⟩
    · rfl
    · exact hw.orderly.keyed other u hold
  · rcases hlookup other u hu with ⟨-, rfl⟩ | ⟨-, hold⟩
    · exact haddress ▸ Nat.lt_succ_self _
    · exact Nat.lt_succ_of_lt (hw.orderly.below other u hold)
  · rcases hlookup other u hu with ⟨rfl, rfl⟩ | ⟨-, hold⟩
    · rcases hlookup other' u' hu' with ⟨rfl, -⟩ | ⟨-, hold'⟩
      · rfl
      · exact absurd hsame.symm (hnew other' u' hold')
    · rcases hlookup other' u' hu' with ⟨-, rfl⟩ | ⟨-, hold'⟩
      · exact absurd hsame (hnew other u hold)
      · exact hw.orderly.apart _ _ u u' hold hold' hsame
  · rcases hlookup other u hu with ⟨rfl, -⟩ | ⟨-, hold⟩
    · exact hdrawn
    · exact hmore _ (hw.orderly.drawn other u hold)
  · exact ⟨(hw.orderly.filed id kept hload).1, hmore _ (hw.orderly.filed id kept hload).2⟩
  · obtain ⟨u, hu, hsame⟩ := hw.orderly.answering r hr
    refine ⟨u, ?_, hsame⟩
    rw [getElem?_insert_of_ne _ _ (Ne.symm (hrunning r hr))]
    exact hu
  · rcases hlookup other u hu with ⟨-, rfl⟩ | ⟨-, hold⟩
    · exact hidle
    · exact hw.idle other u hold hrest
  · rcases hlookup r.id u hu with ⟨hrid, -⟩ | ⟨-, hold⟩
    · exact absurd hrid (hrunning r hr)
    · exact hw.busy r u hr hold

/-- A conversation that is not answered is forgotten. -/
theorem Tended.erase (hw : Tended bound U w) (hrest : ∀ r, w.running = some r → r.id ≠ id)
    (past : Map String (List Event)) :
    Tended bound U { w with sessions := w.sessions.erase id, past := past } := by
  have hlookup : ∀ (other : String) (u : Session), (w.sessions.erase id)[other]? = some u →
      w.sessions[other]? = some u := by
    intro other u hu
    rw [Std.ExtTreeMap.getElem?_erase] at hu
    split at hu
    · cases hu
    · exact hu
  refine ⟨⟨hw.orderly.bound, fun other u hu => hw.orderly.keyed other u (hlookup other u hu),
    fun other u hu => hw.orderly.below other u (hlookup other u hu),
    fun other other' u u' hu hu' => hw.orderly.apart _ _ u u' (hlookup _ u hu) (hlookup _ u' hu'),
    fun other u hu => hw.orderly.drawn other u (hlookup other u hu), hw.orderly.filed,
    fun r hr => ?_, hw.orderly.keeping, hw.orderly.foreign⟩,
    fun other u hu => hw.idle other u (hlookup other u hu),
    fun r u hr hu => hw.busy r u hr (hlookup r.id u hu), hw.told, hw.good⟩
  obtain ⟨u, hu, hsame⟩ := hw.orderly.answering r hr
  refine ⟨u, ?_, hsame⟩
  rw [getElem?_erase_of_ne _ (Ne.symm (hrest r hr))]
  exact hu

/-- Every conversation but the one answering is forgotten. -/
theorem Tended.forgetOthers (hw : Tended bound U w) : Tended bound U w.forgetOthers := by
  have hfold : ∀ (left : World) (ss : List Session), Tended bound U left →
      left.running = w.running → (∀ s ∈ ss, w.isRunning s = true ∨
        ∀ r, w.running = some r → r.id ≠ s.id) →
      Tended bound U
        (ss.foldl (fun left s => if w.isRunning s then left else left.forget s) left) := by
    intro left ss hleft hsame hss
    induction ss generalizing left with
    | nil => exact hleft
    | cons s rest ih =>
      have hrest := fun u hu => hss u (List.mem_cons_of_mem s hu)
      rw [List.foldl_cons]
      split
      · exact ih left hleft hsame hrest
      · rename_i hidle
        have hne := (hss s List.mem_cons_self).resolve_left hidle
        apply ih _ (hleft.erase (by rwa [hsame]) _) hsame hrest
  apply hfold w _ hw rfl
  intro s hs
  obtain ⟨id, hid⟩ := mem_values.mp hs
  by_cases hrunning : w.isRunning s = true
  · exact .inl hrunning
  · refine .inr fun r hr hrid => hrunning (World.isRunning_iff.mpr ⟨r, hr, ?_⟩)
    rw [hw.orderly.keyed id s hid] at hrid
    exact (hw.orderly.running hid hr).mpr hrid

/-- The archive may change as long as it reads back nothing else. -/
theorem Tended.archive (hw : Tended bound U w) {archive : Archive}
    (hload : ∀ id kept, archive.load id = .ok kept →
      kept.id = id ∧ id ∈ w.drawn ∧ U.good kept) :
    Tended bound U { w with archive := archive } where
  orderly := { hw.orderly with
    filed := fun id kept h => ⟨(hload id kept h).1, (hload id kept h).2.1⟩ }
  idle := hw.idle
  busy := hw.busy
  told := hw.told
  good id kept h := (hload id kept h).2.2

end Changes

/-! ## What the archive reads back -/

section Loads

variable {a : Archive} {id : String} {kept r : Record} {n : Nat}

/-- What is read back after a save was there before, or was saved. -/
theorem load_save (h : (a.save r n).1.load id = .ok kept) :
    a.load id = .ok kept ∨ r.id = id ∧ kept = { r with version := archiveVersion } := by
  have hwritten : (a.written r).load id = .ok kept →
      a.load id = .ok kept ∨ r.id = id ∧ kept = { r with version := archiveVersion } := by
    intro hload
    by_cases hid : r.id = id
    · refine .inr ⟨hid, ?_⟩
      have hstored := (Archive.loadFrom_ok hload).2.1
      subst hid
      simp only [Archive.written, Std.ExtTreeMap.getElem?_insert_self, Option.some.injEq,
        Stored.sealed.injEq, true_and] at hstored
      exact hstored.symm
    · left
      rw [Archive.load, Archive.loadFrom] at hload ⊢
      simp only [Archive.written] at hload
      rw [getElem?_insert_of_ne _ _ hid] at hload
      exact hload
  rw [Archive.save_eq] at h
  split at h
  · exact .inl h
  · split at h
    · exact .inl h
    · split at h
      · exact hwritten h
      · exact hwritten h

/-- What is read back after a deletion was there before. -/
theorem load_delete {other : String} (h : (a.delete other n).1.load id = .ok kept) :
    a.load id = .ok kept := by
  rw [Archive.delete_eq] at h
  split at h
  · exact h
  · split at h
    · exact h
    · split at h
      · exact h
      · have hstored := (Archive.loadFrom_ok h).2.1
        have hne : other ≠ id := by
          rintro rfl
          simp at hstored
        rw [Archive.load, Archive.loadFrom] at h ⊢
        dsimp only at h
        rw [getElem?_erase_of_ne _ hne] at h
        exact h

theorem load_loadIndex (a : Archive) (n : Nat) (id : String) :
    (a.loadIndex n).1.load id = a.load id := by
  rw [Archive.loadIndex_eq]
  split <;> rfl

/-- Listing does to an archive what loading its index does. -/
theorem Archive.list_fst (a : Archive) (n : Nat) : (a.list n).1 = (a.loadIndex n).1 := by
  unfold Archive.list
  split <;> simp_all

theorem load_list (a : Archive) (n : Nat) (id : String) :
    (a.list n).1.load id = a.load id := by
  rw [Archive.list_fst, load_loadIndex]

end Loads

/-! ## Every step -/

section Steps

variable {bound : Nat} {U : Upkeep} {c : Config} {L : Limits} {w : World}

/-- What is kept up survives an archive that reads back nothing else. -/
theorem Tended.archive_le (hw : Tended bound U w) {archive : Archive}
    (hload : ∀ id kept, archive.load id = .ok kept → w.archive.load id = .ok kept) :
    Tended bound U { w with archive := archive } := by
  apply hw.archive
  intro id kept h
  obtain ⟨hid, hdrawn⟩ := hw.orderly.filed id kept (hload id kept h)
  exact ⟨hid, hdrawn, hw.good id kept (hload id kept h)⟩

/-- What is kept up does not depend on the settings, the stored connections, the time or what was
    deleted. -/
theorem Tended.beside (hw : Tended bound U w) (settings : Option Settings)
    (connections : Connection.Profiles) (now : Nat) (deleted : List String) :
    Tended bound U { w with
      settings := settings, connections := connections, now := now, deleted := deleted } where
  orderly :=
    ⟨hw.orderly.bound, hw.orderly.keyed, hw.orderly.below, hw.orderly.apart, hw.orderly.drawn,
      hw.orderly.filed, hw.orderly.answering, hw.orderly.keeping, hw.orderly.foreign⟩
  idle := hw.idle
  busy := hw.busy
  told := hw.told
  good := hw.good

/-- Saving a record that is kept up. -/
theorem Tended.save (hw : Tended bound U w) (hk : Keeps c L bound U) {r : Record}
    (hdrawn : r.id ∈ w.drawn) (hgood : U.good r) (n : Nat) :
    Tended bound U { w with archive := (w.archive.save r n).1 } := by
  apply hw.archive
  intro id kept h
  rcases load_save h with hold | ⟨hid, rfl⟩
  · obtain ⟨hkeyed, hd⟩ := hw.orderly.filed id kept hold
    exact ⟨hkeyed, hd, hw.good id kept hold⟩
  · exact ⟨hid, hid ▸ hdrawn, hk.version r archiveVersion hgood⟩

/-- Another process finds what the archive holds. -/
theorem Tended.restart (hw : Tended bound U w) : Tended bound U w.restart := by
  refine ⟨⟨hw.orderly.bound, ?_, ?_, ?_, ?_, hw.orderly.filed, ?_, ?_, hw.orderly.foreign⟩, ?_, ?_,
    hw.told, hw.good⟩
  · intro id s hs
    simp [World.restart] at hs
  · intro id s hs
    simp [World.restart] at hs
  · intro id id' s s' hs
    simp [World.restart] at hs
  · intro id s hs
    simp [World.restart] at hs
  · intro r hr
    cases hr
  · intro r hr
    cases hr
  · intro id s hs
    simp [World.restart] at hs
  · intro r s hr
    cases hr

/-- A conversation at rest is not the one a run answers. -/
theorem Orderly.not_running (h : Orderly bound w) {id : String} {s : Session}
    (hs : w.sessions[id]? = some s) (hrest : w.isRunning s = false) :
    ∀ r, w.running = some r → r.id ≠ id := by
  intro r hr hrid
  have haddress := (h.running hs hr).mpr hrid
  rw [World.isRunning_iff.mpr ⟨r, hr, haddress⟩] at hrest
  cases hrest

/-- A conversation at rest becomes another one at rest. -/
theorem Tended.put_idle (hw : Tended bound U w) (hk : Keeps c L bound U) {id : String}
    {s t : Session} (hs : w.sessions[id]? = some s) (hrest : w.isRunning s = false)
    (hsame : Same s t) {happened : List Happening}
    (helsewhere : ∀ other : Session, s.id ≠ other.id → s.address ≠ other.address →
      ∀ event ∈ happened, Elsewhere other event)
    (hown : ∀ event ∈ happened, ∀ id, event.isOf id = false)
    (haside : ∀ event ∈ happened, event.aside = true)
    (hidle : U.idle (happened ++ w.happened) t) (htold : U.told (happened ++ w.happened)) :
    Tended bound U { w.put t with happened := happened ++ w.happened } := by
  have hnone := hw.orderly.not_running hs hrest
  exact hw.change hk hs hsame (fun r hr hrid => absurd hrid (hnone r hr))
    (fun r hr hrid => absurd hrid (hnone r hr)) (fun _ _ => Iff.rfl) helsewhere hown (fun _ _ _ => haside) (fun _ => hidle) (fun r hr hrid => absurd hrid (hnone r hr)) htold

/-- A conversation being answered goes on. -/
theorem Tended.put_busy (hw : Tended bound U w) (hk : Keeps c L bound U) {r r' : Run}
    {s t : Session} (hr : w.running = some r) (hs : w.sessions[r.id]? = some s)
    (hsame : Same s t) (hid : r'.id = r.id) (haddress : r'.address = r.address)
    (hkeeps : r'.position.keeps r.id) {counter : Nat} {happened : List Happening}
    (helsewhere : ∀ other : Session, s.id ≠ other.id → s.address ≠ other.address →
      ∀ event ∈ happened, Elsewhere other event)
    (hown : ∀ event ∈ happened, ∀ id, event.isOf id = false)
    (hbusy : U.busy (happened ++ w.happened) t r') (htold : U.told (happened ++ w.happened)) :
    Tended bound U { w.put t with
      running := some r', calls := counter, happened := happened ++ w.happened } := by
  refine hw.change hk hs hsame (fun q hq hqid => ?_) (fun q hq hqid => ?_) (fun q hne => ?_)
    helsewhere hown (fun q hq hne => absurd ((Option.some.inj hq) ▸ hid) hne)
    (fun hnone => absurd hid (hnone r' rfl)) (fun q hq _ => ?_) htold
  · obtain rfl := Option.some.inj hq
    exact haddress.trans ((hw.orderly.running hs hr).mpr rfl)
  · obtain rfl := Option.some.inj hq
    rw [hid]
    exact hkeeps
  · rw [hr]
    constructor
    · intro hq
      obtain rfl := Option.some.inj hq
      exact absurd hid hne
    · intro hq
      obtain rfl := Option.some.inj hq
      exact absurd rfl hne
  · obtain rfl := Option.some.inj hq
    exact hbusy

/-- A run ends. -/
theorem Tended.close (hw : Tended bound U w) (hk : Keeps c L bound U) {r : Run} {s t : Session}
    (hr : w.running = some r) (hs : w.sessions[r.id]? = some s) (hsame : Same s t)
    (hidle : U.idle w.happened t) : Tended bound U { w.put t with running := none } := by
  have hended : Tended bound U { w.put t with
      running := none, calls := w.calls, happened := [] ++ w.happened } := by
    refine hw.change hk hs hsame (fun q hq => (by cases hq)) (fun q hq => (by cases hq))
      (fun q hne => ?_) (fun _ _ _ _ hmem => absurd hmem List.not_mem_nil)
      (fun _ hmem => absurd hmem List.not_mem_nil) (fun q hq => (by cases hq)) (fun _ => hidle)
      (fun q hq => (by cases hq)) hw.told
    rw [hr]
    constructor
    · intro hq
      cases hq
    · intro hq
      obtain rfl := Option.some.inj hq
      exact absurd rfl hne
  exact hended

/-- A run starts on a conversation at rest. -/
theorem Tended.start (hw : Tended bound U w) (hk : Keeps c L bound U) {id : String} {s t : Session}
    (hs : w.sessions[id]? = some s) (hrest : w.running = none) (hsame : Same s t)
    (hidle : U.idle w.happened t) : Tended bound U (w.startRun t) := by
  have hkeyed := hw.orderly.keyed id s hs
  have hevents : ∀ other : Session, s.id ≠ other.id → s.address ≠ other.address →
      ∀ event ∈ [Happening.began t.address], Elsewhere other event := by
    intro other _ hne event hmem
    rw [List.mem_singleton.mp hmem]
    rw [hsame.2]
    exact hne
  have hstarted : Tended bound U { w.put t.starts with
      running := some (Run.new t)
      calls := w.calls
      happened := [.began t.address] ++ w.happened } := by
    have hsame' : Same s t.starts := hsame
    refine hw.change hk hs hsame' (fun q hq _ => ?_) (fun q hq _ => ?_) (fun q hne => ?_) hevents
      (fun event hmem _ => ?_) (fun q _ _ event hmem => ?_) (fun hnone => ?_) (fun q hq _ => ?_) ?_
    · obtain rfl := Option.some.inj hq
      exact hsame.2
    · obtain rfl := Option.some.inj hq
      trivial
    · rw [hrest]
      constructor
      · intro hq
        obtain rfl := Option.some.inj hq
        exact absurd (hsame.1.trans hkeyed) hne
      · intro hq
        cases hq
    · rw [List.mem_singleton.mp hmem]
      rfl
    · rw [List.mem_singleton.mp hmem]
      rfl
    · exact absurd (hsame.1.trans hkeyed) (hnone _ rfl)
    · obtain rfl := Option.some.inj hq
      exact hk.starts _ _ hidle
    · exact hk.told_aside _ _ hw.told rfl
  exact hstarted

/-- Putting a conversation back where it is changes nothing. -/
theorem World.put_same {id : String} {s : Session} (hs : w.sessions[id]? = some s) (hid : s.id = id) :
    w.put s = w := by
  subst hid
  rw [World.put, insert_same hs]

/-! ## Every step -/

/-- What a conversation is opened for. -/
theorem Tended.use (hw : Tended bound U w) (hk : Keeps c L bound U) {id : String} {s : Session}
    (hs : w.sessions[id]? = some s) (purpose : Purpose) :
    Tended bound U (useSession w s purpose).1 ∧
      ∀ q, (useSession w s purpose).2 = some q → Carried U (useSession w s purpose).1 q := by
  cases purpose with
  | send text composed about settings =>
    simp only [useSession]
    split
    · rename_i hready
      refine ⟨?_, fun q hq => (by cases hq)⟩
      have hnone : w.running = none := by
        simp only [World.ready, Bool.and_eq_true, Option.isNone_iff_eq_none] at hready
        exact hready.1
      have hrest : w.isRunning s = false := by simp [World.isRunning, hnone]
      exact hw.start hk hs hnone ⟨rfl, rfl⟩ (hk.speaks _ _ _ _ _ _ (hw.idle id s hs hrest))
    · exact ⟨hw, fun q hq => (by cases hq)⟩
  | carryOn settings =>
    simp only [useSession]
    split
    · rename_i hready
      refine ⟨?_, fun q hq => (by cases hq)⟩
      have hnone : w.running = none := by
        simp only [World.ready, Bool.and_eq_true, Option.isNone_iff_eq_none] at hready
        exact hready.1.1
      have hrest : w.isRunning s = false := by simp [World.isRunning, hnone]
      exact hw.start hk hs hnone ⟨rfl, rfl⟩ (hw.idle id s hs hrest)
    · exact ⟨hw, fun q hq => (by cases hq)⟩
  | snapshot => exact ⟨hw, fun q hq => (by cases hq)⟩
  | rename title =>
    have hsame : Same s (s.renamed title) := ⟨rfl, rfl⟩
    cases hrunning : w.isRunning s with
    | true =>
      -- a run going keeps the record itself
      simp only [useSession, hrunning, Bool.not_true, Bool.false_and, Bool.false_eq_true, if_false]
      refine ⟨?_, fun q hq => (by cases hq)⟩
      obtain ⟨r, hr, haddress⟩ := World.isRunning_iff.mp hrunning
      obtain rfl : r.id = id := (hw.orderly.running hs hr).mp haddress
      have hrenamed : Tended bound U { w.put (s.renamed title) with
          running := some r, calls := w.calls, happened := [] ++ w.happened } :=
        hw.put_busy hk hr hs hsame rfl rfl (hw.orderly.keeping r hr)
          (fun _ _ _ _ hmem => absurd hmem List.not_mem_nil)
          (fun _ hmem => absurd hmem List.not_mem_nil)
          (hk.busy_renamed _ _ _ _ (hw.busy r s hr hs)) hw.told
      rw [← hr] at hrenamed
      exact hrenamed
    | false =>
      have hidle := hk.idle_renamed _ _ title (hw.idle id s hs hrunning)
      have hrenamed : Tended bound U { w.put (s.renamed title) with
          happened := [] ++ w.happened } :=
        hw.put_idle hk hs hrunning hsame (fun _ _ _ _ hmem => absurd hmem List.not_mem_nil)
          (fun _ hmem => absurd hmem List.not_mem_nil) (fun _ hmem => absurd hmem List.not_mem_nil)
          hidle hw.told
      refine ⟨hrenamed, fun q hq => ?_⟩
      simp only [useSession] at hq
      split at hq
      · cases hq
        intro kept hkept
        cases hkept
        refine ⟨?_, hk.recorded _ _ hidle⟩
        have hdrawn := hw.orderly.drawn id s hs
        rw [← hw.orderly.keyed id s hs] at hdrawn
        exact hdrawn
      · cases hq

/-- **A step of a call** keeps up what it should. -/
theorem Tended.advance (hw : Tended bound U w) (hk : Keeps c L bound U) {p : Errand} {say : Say}
    {next : World × Option Errand} (hp : Carried U w p) (hok : L.onCall w p)
    (h : advance w p say = some next) :
    Tended bound U next.1 ∧ ∀ q, next.2 = some q → Carried U next.1 q := by
  have hstill : ∀ q : Option Errand, (∀ p, q = some p → p.record = none) →
      Tended bound U w ∧ ∀ p, q = some p → Carried U w p := by
    intro q hq
    refine ⟨hw, fun p hp kept hkept => ?_⟩
    rw [hq p hp] at hkept
    cases hkept
  have hnone : ∀ u : World, Tended bound U u →
      Tended bound U u ∧ ∀ q, (none : Option Errand) = some q → Carried U u q :=
    fun u hu => ⟨hu, fun q hq => (by cases hq)⟩
  cases p with
  | start providerID =>
    simp only [Assistant.advance] at h
    split at h
    · cases h
    · split at h
      · cases h
        exact hnone w hw
      · cases h
        apply hstill
        intro p hp
        obtain ⟨chosen, -, rfl⟩ := Option.map_eq_some_iff.mp hp
        rfl
  | adding chosen =>
    simp only [Assistant.advance] at h
    split at h
    · rename_i id
      split at h
      · cases h
      · rename_i hfresh
        cases h
        simp only [Bool.or_eq_true, Bool.not_eq_true', not_or, Bool.not_eq_false] at hfresh
        obtain ⟨⟨hid, hdrawn⟩, hforeign⟩ := hfresh
        have hunheld : w.sessions[id]? = none := by
          cases hs : w.sessions[id]? with
          | none => rfl
          | some s =>
            have hmem := hw.orderly.drawn id s hs
            exact absurd (by simpa using hmem) hdrawn
        apply hnone
        refine hw.insert (s := newSession id w.addresses chosen w.now) hunheld rfl
          (hk.new _ _ _ _ _ hw.orderly.bound) List.mem_cons_self
          (fun other hother => List.mem_cons_of_mem _ hother) ?_
        intro event hevent other hother
        rcases List.mem_cons.mp hother with rfl | hold
        · cases hof : event.isOf other with
          | false => rfl
          | true => exact absurd (List.any_eq_true.mpr ⟨event, hevent, hof⟩) hforeign
        · exact hw.orderly.foreign event hevent other hold
    · cases h
  | send id text composed about =>
    simp only [Assistant.advance] at h
    split at h
    · cases h
    · split at h
      · cases h
        exact hnone w hw
      · split at h
        · cases h
          exact hnone w hw
        · cases h
          exact hstill _ fun p hp => (by cases hp; rfl)
  | carryOn id =>
    simp only [Assistant.advance] at h
    split at h
    · cases h
    · split at h
      · cases h
        exact hnone w hw
      · cases h
        exact hstill _ fun p hp => (by cases hp; rfl)
  | rename id title =>
    simp only [Assistant.advance] at h
    split at h
    · cases h
    · split at h
      · cases h
        exact hnone w hw
      · cases h
        exact hstill _ fun p hp => (by cases hp; rfl)
  | opening id purpose =>
    simp only [Assistant.advance] at h
    split at h
    · cases h
    · split at h
      · cases h
        exact hstill _ fun p hp => (by cases hp; rfl)
      · cases h
        exact hstill _ fun p hp => (by cases hp; rfl)
  | loading id purpose =>
    simp only [Assistant.advance] at h
    split at h
    · cases h
    · split at h
      · cases h
        exact hnone w hw
      · rename_i kept hload
        cases h
        refine ⟨hw, fun q hq kept' hkept' => ?_⟩
        cases hq
        cases hkept'
        obtain ⟨hid, hdrawn⟩ := hw.orderly.filed id kept hload
        exact ⟨by rw [hid]; exact hdrawn, hw.good id kept hload⟩
  | restoring kept purpose =>
    simp only [Assistant.advance] at h
    split at h
    · cases h
    · split at h
      · cases h
        exact hstill _ fun p hp => (by cases hp; rfl)
      · rename_i hunheld
        cases h
        obtain ⟨hdrawn, hgood⟩ := hp kept rfl
        refine ⟨?_, fun q hq kept' hkept' => ?_⟩
        · exact hw.insert (s := fromRecord kept w.addresses ((w.past[kept.id]?).getD [])) hunheld rfl
            (hk.restored _ _ _ _ hw.orderly.bound hgood (hok hunheld)) hdrawn
            (fun other hother => hother) hw.orderly.foreign
        · cases hq
          cases hkept'
  | entering id address purpose =>
    simp only [Assistant.advance] at h
    split at h
    · cases h
    · split at h
      · cases h
        exact hnone w hw
      · rename_i s hheld
        cases h
        exact hw.use hk (World.held_eq_some hheld) purpose
  | keeping kept =>
    simp only [Assistant.advance] at h
    split at h
    · cases h
    · split at h
      · cases h
        exact hnone w hw
      · cases h
        refine ⟨hw, fun q hq => ?_⟩
        dsimp only at hq
        split at hq
        · cases hq
        · cases hq
          exact hp
  | saving kept =>
    simp only [Assistant.advance] at h
    split at h
    · cases h
      obtain ⟨hdrawn, hgood⟩ := hp kept rfl
      exact hnone _ (hw.save hk hdrawn hgood _)
    · cases h
  | stop id =>
    simp only [Assistant.advance] at h
    split at h
    · cases h
    · split at h
      · rename_i s r hs hr
        split at h
        · rename_i haddress
          cases h
          apply hnone
          obtain rfl : r.id = id := (hw.orderly.running hs hr).mp haddress
          have hstopped : Tended bound U { w.put s with
              running := some { r with cancelled := true }
              calls := w.calls
              happened := [.stopped s.address] ++ w.happened } := by
            have hrun : ({ r with cancelled := true } : Run).id = r.id := rfl
            refine hw.put_busy hk hr hs ⟨rfl, rfl⟩ hrun rfl (hw.orderly.keeping r hr) (fun other _ hne event hmem => ?_)
              (fun event hmem _ => ?_) ?_ ?_
            · rw [List.mem_singleton.mp hmem]
              exact hne
            · rw [List.mem_singleton.mp hmem]
              rfl
            · exact hk.stops _ _ _ (hw.busy r s hr hs) (hok s hs r hr haddress)
            · exact hk.told_aside _ _ hw.told rfl
          rw [World.put_same hs (hw.orderly.keyed _ s hs)] at hstopped
          exact hstopped
        · cases h
          exact hnone w hw
      · cases h
        exact hnone w hw
  | decide id item decision =>
    simp only [Assistant.advance] at h
    split at h
    · cases h
    · split at h
      · cases h
        exact hnone w hw
      · rename_i s hs
        split at h
        · rename_i hasks
          cases h
          apply hnone
          have hitem : item ∈ s.asks := by simpa using hasks
          have hsame : Same s (s.decides item decision) := ⟨rfl, rfl⟩
          have hevents : ∀ other : Session, s.id ≠ other.id → s.address ≠ other.address →
              ∀ event ∈ [Happening.decided s.address item decision], Elsewhere other event := by
            intro other _ hne event hmem
            rw [List.mem_singleton.mp hmem]
            exact hne
          have hown : ∀ event ∈ [Happening.decided s.address item decision], ∀ id,
              event.isOf id = false := by
            intro event hmem _
            rw [List.mem_singleton.mp hmem]
            rfl
          have htold := hk.told_aside _ (.decided s.address item decision) hw.told rfl
          cases hrunning : w.isRunning s with
          | false =>
            have haside : ∀ event ∈ [Happening.decided s.address item decision],
                event.aside = true := by
              intro event hmem
              rw [List.mem_singleton.mp hmem]
              rfl
            exact hw.put_idle hk hs hrunning hsame hevents hown haside
              (hk.idle_decides _ _ _ _ hitem (hw.idle id s hs hrunning)) htold
          | true =>
            obtain ⟨r, hr, haddress⟩ := World.isRunning_iff.mp hrunning
            obtain rfl : r.id = id := (hw.orderly.running hs hr).mp haddress
            have hdecided : Tended bound U { w.put (s.decides item decision) with
                running := some r
                calls := w.calls
                happened := [.decided s.address item decision] ++ w.happened } :=
              hw.put_busy hk hr hs hsame rfl rfl (hw.orderly.keeping r hr) hevents hown
                (hk.busy_decides _ _ _ _ _ hitem (hw.busy r s hr hs)) htold
            rw [← hr] at hdecided
            exact hdecided
        · cases h
          exact hnone w hw
  | delete id =>
    simp only [Assistant.advance] at h
    split at h
    · cases h
    · split at h
      · cases h
        exact hstill _ fun p hp => (by cases hp; rfl)
      · rename_i s hs
        split at h
        · cases h
          exact hnone w hw
        · rename_i hrest
          cases h
          refine ⟨?_, fun q hq kept hkept => (by cases hq; cases hkept)⟩
          have hid := hw.orderly.keyed id s hs
          apply hw.erase
          rw [hid]
          exact hw.orderly.not_running hs (by simpa using hrest)
  | removing id =>
    simp only [Assistant.advance] at h
    split at h
    · rename_i n
      cases h
      have hremoved : Tended bound U { w with archive := (w.archive.delete id n).1 } :=
        hw.archive_le fun _ _ hload => load_delete hload
      exact hnone _ (hremoved.beside _ _ _ _)
    · cases h
  | clear =>
    simp only [Assistant.advance] at h
    split at h
    · cases h
    · cases h
      exact ⟨hw.forgetOthers, fun q hq kept hkept => (by cases hq; cases hkept)⟩
  | prune =>
    simp only [Assistant.advance] at h
    split at h
    · cases h
    · split at h
      · cases h
        exact hnone w hw
      · cases h
        exact hstill _ fun p hp => (by cases hp; rfl)
  | sparing cutoff =>
    simp only [Assistant.advance] at h
    split at h
    · cases h
    · cases h
      exact hstill _ fun p hp => (by cases hp; rfl)
  | expiring cutoff spared =>
    simp only [Assistant.advance] at h
    split at h
    · rename_i n
      have hopened : Tended bound U { w with archive := (w.archive.loadIndex n).1 } :=
        hw.archive_le fun id kept hload => (by rwa [load_loadIndex] at hload)
      split at h
      · rename_i opened hload
        cases h
        rw [hload] at hopened
        exact hnone _ hopened
      · rename_i opened index left hload
        cases h
        rw [hload] at hopened
        exact ⟨hopened, fun q hq kept hkept => (by cases hq; cases hkept)⟩
    · cases h
  | dropping ids =>
    cases ids with
    | nil =>
      simp only [Assistant.advance] at h
      split at h
      · cases h
      · cases h
        exact hnone w hw
    | cons id rest =>
      simp only [Assistant.advance] at h
      split at h
      · cases h
        exact ⟨hw.archive_le fun _ _ hload => load_delete hload,
          fun q hq kept hkept => (by cases hq; cases hkept)⟩
      · cases h
  | listing =>
    simp only [Assistant.advance] at h
    split at h
    · rename_i n
      cases h
      exact hnone _ (hw.archive_le fun id kept hload => (by rwa [load_list] at hload))
    · cases h

/-- **What a step of the run does**: it moves on from keeping its record, saves it, ends, or takes a
    step of its own. -/
theorem World.runStep_cases {choice : Choice} {v : World} (h : w.runStep c choice = some v) :
    ∃ r s, w.running = some r ∧ w.sessions[r.id]? = some s ∧
      ((∃ kept next, r.position = .keeping kept ∧
          (next = .closing ∧ (∀ settings, w.settings = some settings → settings.retention = 0) ∨
            next = .saving kept) ∧
          v = { w with running := some (r.at next) }) ∨
        (∃ kept n, r.position = .saving kept ∧ choice = .write n ∧
          v = { w with archive := (w.archive.save kept n).1, running := some (r.at .closing) }) ∨
        (r.position = .closing ∧ v = { w.put s.ends with running := none }) ∨
        ∃ m, r.step c w.surroundings s choice = some m ∧
          v = { w.put m.session with
            running := some m.run, calls := m.calls, happened := m.happened ++ w.happened }) := by
  unfold World.runStep at h
  split at h
  · cases h
  · rename_i r hr
    split at h
    · cases h
    · rename_i s hs
      refine ⟨r, s, hr, hs, ?_⟩
      split at h
      · rename_i kept hposition
        left
        split at h
        · cases h
        · split at h
          · rename_i hnone
            cases h
            refine ⟨kept, .closing, hposition, .inl ⟨rfl, fun settings hsettings => ?_⟩, rfl⟩
            rw [hnone] at hsettings
            cases hsettings
          · rename_i settings hsettings
            cases h
            refine ⟨kept, _, hposition, ?_, rfl⟩
            split
            · rename_i hoff
              refine .inl ⟨rfl, fun other hother => ?_⟩
              obtain rfl := Option.some.inj (hsettings.symm.trans hother)
              exact hoff
            · exact .inr rfl
      · rename_i kept hposition
        split at h
        · rename_i n
          cases h
          exact .inr (.inl ⟨kept, n, hposition, rfl, rfl⟩)
        · cases h
      · rename_i hposition
        split at h
        · cases h
        · cases h
          exact .inr (.inr (.inl ⟨hposition, rfl⟩))
      · obtain ⟨m, hstep, hv⟩ := Option.map_eq_some_iff.mp h
        exact .inr (.inr (.inr ⟨m, hstep, hv.symm⟩))

/-- **A step of the run** keeps up what it should. -/
theorem Tended.runStep (hw : Tended bound U w) (hk : Keeps c L bound U) {choice : Choice}
    {v : World} (hok : L.onAround w (.run choice)) (h : w.runStep c choice = some v) :
    Tended bound U v := by
  obtain ⟨r, s, hr, hs, hcases⟩ := World.runStep_cases h
  have hbusy := hw.busy r s hr hs
  have hkeyed := hw.orderly.keyed r.id s hs
  have haddress : r.address = s.address := (hw.orderly.running hs hr).mpr rfl
  -- a run that only moves on
  have hkeeping := hw.orderly.keeping r hr
  have hmoves : ∀ position, position.keeps r.id → U.busy w.happened s (r.at position) →
      Tended bound U { w with running := some (r.at position) } := by
    intro position hkeeps hnext
    have hrun : (r.at position).id = r.id := rfl
    have hmoved : Tended bound U { w.put s with
        running := some (r.at position), calls := w.calls, happened := [] ++ w.happened } :=
      hw.put_busy hk hr hs ⟨rfl, rfl⟩ hrun rfl hkeeps
        (fun _ _ _ _ hmem => absurd hmem List.not_mem_nil)
        (fun _ hmem => absurd hmem List.not_mem_nil) hnext hw.told
    rw [World.put_same hs hkeyed] at hmoved
    exact hmoved
  rcases hcases with ⟨kept, next, hposition, hnext, rfl⟩ | ⟨kept, n, hposition, -, rfl⟩ |
    ⟨hposition, rfl⟩ | ⟨m, hstep, rfl⟩
  · rw [hposition] at hkeeping
    have hnext' : next = .closing ∨ next = .saving kept := hnext.imp_left And.left
    apply hmoves next _ (hk.keeping _ _ _ kept _ hbusy hposition hnext')
    rcases hnext' with rfl | rfl
    · trivial
    · exact hkeeping
  · obtain ⟨hgood, hnext⟩ := hk.saving _ _ _ kept hbusy hposition
    have hdrawn : kept.id ∈ w.drawn := by
      rw [hposition] at hkeeping
      have hid : kept.id = r.id := hkeeping
      rw [hid]
      exact hw.orderly.drawn _ s hs
    exact (hmoves .closing trivial hnext).save hk hdrawn hgood n
  · exact hw.close hk hr hs ⟨rfl, rfl⟩ (hk.closing _ _ _ hbusy hposition)
  · have hmove := step_move hstep
    obtain ⟨hsame, hid, hsameaddress, -⟩ := hmove.frame
    obtain ⟨hbusy', htold⟩ := hk.run _ w.surroundings s r choice m hw.told hbusy haddress
      (hok r hr s hs) hmove
    exact hw.put_busy hk hr hs hsame hid hsameaddress (hkeyed ▸ hmove.keeps)
      (fun other => hmove.elsewhere) (fun event hmem id => hmove.own id event hmem) hbusy' htold

/-- **The environment** keeps up what it should. -/
theorem Tended.environment (hw : Tended bound U w) (hk : Keeps c L bound U) {around : Around}
    {v : World} (hok : L.onAround w around) (h : (program c).environment w around = some v) :
    Tended bound U v := by
  cases around with
  | run choice => exact hw.runStep hk hok h
  | settings settings =>
    cases h
    exact hw.beside _ _ _ _
  | connections connections =>
    cases h
    exact hw.beside _ _ _ _
  | tick seconds =>
    cases h
    exact hw.beside _ _ _ _
  | line record =>
    simp only [program] at h
    split at h
    · cases h
    · rename_i hline
      cases h
      have helsewhere : ∀ (id : String) (s : Session), w.sessions[id]? = some s →
          Elsewhere s (.foreign record) := by
        intro id s hs hsame
        have hdrawn := hw.orderly.drawn id s hs
        rw [← hw.orderly.keyed id s hs, ← hsame] at hdrawn
        exact hline (by simpa using hdrawn)
      refine ⟨⟨hw.orderly.bound, hw.orderly.keyed, hw.orderly.below, hw.orderly.apart,
        hw.orderly.drawn, hw.orderly.filed, hw.orderly.answering, hw.orderly.keeping,
        fun event hmem id hid => ?_⟩,
        fun id s hs hrest => hk.idle_elsewhere _ _ _ (helsewhere id s hs) (hw.idle id s hs hrest),
        fun r s hr hs => hk.busy_elsewhere _ _ _ _ (helsewhere r.id s hs) rfl (hw.busy r s hr hs),
        hk.told_aside _ _ hw.told rfl, hw.good⟩
      rcases List.mem_cons.mp hmem with rfl | hold
      · simp only [Happening.isOf, decide_eq_false_iff_not]
        rintro rfl
        exact hline (by simpa using hid)
      · exact hw.orderly.foreign event hold id hid

end Steps

/-! ## Every interleaving -/

section Reachable

variable {bound : Nat} {U : Upkeep} {c : Config} {L : Limits}

/-- What is kept up, in a state of the manager. -/
abbrev Upheld (bound : Nat) (U : Upkeep) (t : Threads World Errand) : Prop :=
  Program.Kept (Tended bound U) (Carried U) (fun _ _ => True) t

/-- What survives forgetting one conversation survives forgetting all but the one answering. -/
theorem World.forgetOthers_invariant (P : World → Prop) {w : World} (hw : P w)
    (hforget : ∀ left s, P left → P (left.forget s)) : P w.forgetOthers := by
  have hfold : ∀ (left : World) (ss : List Session), P left →
      P (ss.foldl (fun left s => if w.isRunning s then left else left.forget s) left) := by
    intro left ss hleft
    induction ss generalizing left with
    | nil => exact hleft
    | cons s rest ih =>
      rw [List.foldl_cons]
      split
      · exact ih left hleft
      · exact ih _ (hforget left s hleft)
  exact hfold w _ hw

theorem drawn_forgetOthers (w : World) : w.forgetOthers.drawn = w.drawn := by
  apply World.forgetOthers_invariant (fun left => left.drawn = w.drawn) rfl
  exact fun _ _ hleft => hleft

theorem drawn_useSession (w : World) (s : Session) (purpose : Purpose) :
    (useSession w s purpose).1.drawn = w.drawn := by
  cases purpose with
  | send | carryOn =>
    simp only [useSession]
    split <;> rfl
  | snapshot | rename => rfl

/-- An id that was drawn stays drawn. -/
theorem drawn_advance {w : World} {p : Errand} {say : Say} {next : World × Option Errand}
    (h : advance w p say = some next) : ∀ id ∈ w.drawn, id ∈ next.1.drawn := by
  have hsame : next.1.drawn = w.drawn → ∀ id ∈ w.drawn, id ∈ next.1.drawn := by
    intro heq id hid
    rwa [heq]
  cases p with
  | adding chosen =>
    simp only [advance] at h
    split at h
    · split at h
      · cases h
      · cases h
        exact fun id hid => List.mem_cons_of_mem _ hid
    · cases h
  | entering id address purpose =>
    apply hsame
    simp only [advance] at h
    split at h
    · cases h
    · split at h
      · cases h
        rfl
      · cases h
        exact drawn_useSession w _ purpose
  | clear =>
    apply hsame
    simp only [advance] at h
    split at h
    · cases h
    · cases h
      exact drawn_forgetOthers w
  | dropping ids =>
    apply hsame
    cases ids <;> simp only [advance] at h <;> split at h <;> cases h <;> rfl
  | _ =>
    apply hsame
    simp only [advance] at h
    repeat' split at h
    all_goals first | (cases h; rfl) | cases h

theorem drawn_environment {c : Config} {w v : World} {around : Around}
    (h : (program c).environment w around = some v) : v.drawn = w.drawn := by
  cases around with
  | run choice =>
    obtain ⟨r, s, -, -, hcases⟩ := World.runStep_cases h
    rcases hcases with ⟨-, -, -, -, rfl⟩ | ⟨-, -, -, -, rfl⟩ | ⟨-, rfl⟩ | ⟨-, -, rfl⟩ <;> rfl
  | settings | connections | tick =>
    cases h
    rfl
  | line record =>
    simp only [program] at h
    split at h <;> (cases h; try rfl)

/-- The rules of what is kept up, from any state of it on. -/
theorem Keeps.invariants (hk : Keeps c L bound U) :
    ({ program c with start := fun _ => False }).InvariantsWhen L.condition (Tended bound U)
      (Carried U) (fun _ _ => True) where
  symm _ _ _ := trivial
  start _ h := h.elim
  arrive w p _ harrives := by
    refine ⟨fun kept hkept => ?_, fun _ _ => trivial⟩
    cases p with
    | restoring | keeping | saving => cases harrives
    | _ => cases hkept
  own w p say next hw hp hadvance hok := hw.advance hk hp hok hadvance
  other w p say next q hw hp hadvance hok hq _ _ _ := by
    refine ⟨fun kept hkept => ?_, fun _ _ => trivial⟩
    exact ⟨drawn_advance hadvance kept.id (hq kept hkept).1, (hq kept hkept).2⟩
  environment w around v hw henvironment hok := by
    refine ⟨hw.environment hk hok henvironment, fun p hp kept hkept => ?_⟩
    rw [drawn_environment henvironment]
    exact hp kept hkept

/-- **Step lemma**: every step that meets the condition keeps it up, from any state. -/
theorem Keeps.step (hk : Keeps c L bound U) {t u : Threads World Errand}
    {life : Program.Life Errand Say Around} (ht : Upheld bound U t) (hok : L.condition.OkLife t life)
    (hstep : (manager c).step t life = some u) : Upheld bound U u := by
  apply hk.invariants.stepLife (fun _ h => h.restart) ht hok
  cases life with
  | none => exact hstep
  | some turn =>
    cases turn <;> exact hstep

/-- **Run lemma**, of a run from a state in which it is kept up. -/
theorem Keeps.through (hk : Keeps c L bound U) {t u : Threads World Errand}
    {lives : List (Program.Life Errand Say Around)} (ht : Upheld bound U t)
    (hok : (manager c).Permitted L.condition.OkLife t lives)
    (hrun : (manager c).run t lives = some u) : Upheld bound U u :=
  hok.invariant (Upheld bound U) (fun _ _ _ ht hok hstep => hk.step ht hok hstep) ht hrun

/-- What is kept up holds where nothing was done yet. -/
theorem upheld_start {U : Upkeep} (hnil : U.told []) {t : Threads World Errand}
    (hstart : (manager c).start t) : Upheld 0 U t := by
  obtain ⟨⟨-, hsessions, hrunning, -, -, -, hhappened, -, hfiles, -, -⟩, hempty⟩ := hstart
  have hnone : ∀ id : String, t.shared.sessions[id]? = none := by
    intro id
    rw [hsessions]
    simp
  have hload : ∀ (id : String) (kept : Record), t.shared.archive.load id ≠ .ok kept := by
    intro id kept h
    have hstored := (Archive.loadFrom_ok h).2.1
    rw [hfiles] at hstored
    simp at hstored
  refine ⟨⟨⟨Nat.zero_le _, ?_, ?_, ?_, ?_, ?_, ?_, ?_, ?_⟩, ?_, ?_, hhappened ▸ hnil, ?_⟩, ?_, ?_⟩
  · intro id s hs
    simp [hnone] at hs
  · intro id s hs
    simp [hnone] at hs
  · intro id id' s s' hs
    simp [hnone] at hs
  · intro id s hs
    simp [hnone] at hs
  · exact fun id kept h => absurd h (hload id kept)
  · intro r hr
    rw [hrunning] at hr
    cases hr
  · intro r hr
    rw [hrunning] at hr
    cases hr
  · intro event hmem
    rw [hhappened] at hmem
    cases hmem
  · intro id s hs
    simp [hnone] at hs
  · intro r s hr
    rw [hrunning] at hr
    cases hr
  · exact fun id kept h => absurd h (hload id kept)
  · intro k p hk
    rw [hempty] at hk
    simp at hk
  · exact fun _ _ _ _ _ _ _ => trivial

/-- **Run lemma**: it is kept up in every interleaving over every process. -/
theorem Keeps.reachable (hk : Keeps c L 0 U) {t : Threads World Errand}
    (ht : (manager c).Reachable L.condition.OkLife t) : Upheld 0 U t := by
  apply ht.invariant
  · intro t hstart
    exact upheld_start hk.told_nil hstart
  · intro t life u _ hinv hok hstep
    exact hk.step hinv hok hstep

/-- Every call meets no condition in particular. -/
theorem Limits.none_onCall (w : World) (p : Errand) : Limits.none.onCall w p := by
  cases p with
  | restoring => exact fun _ => trivial
  | stop => exact fun _ _ _ _ _ => trivial
  | _ => trivial

/-- So does what takes place beside the calls. -/
theorem Limits.none_onAround (w : World) (around : Around) : Limits.none.onAround w around := by
  cases around with
  | run choice => exact fun _ _ _ _ => trivial
  | _ => trivial

/-- Every step meets no condition in particular. -/
theorem Limits.none_ok (t : Threads World Errand) (life : Program.Life Errand Say Around) :
    Limits.none.condition.OkLife t life := by
  cases life with
  | none => trivial
  | some turn =>
    cases turn with
    | arrive k p => trivial
    | thread k say => exact fun p _ => ⟨none_onCall t.shared p, fun _ _ => trivial⟩
    | environment around => exact none_onAround t.shared around

/-- Nor does a run. -/
theorem Limits.none_permitted (t : Threads World Errand)
    (lives : List (Program.Life Errand Say Around)) :
    (manager c).Permitted Limits.none.condition.OkLife t lives := by
  induction lives generalizing t with
  | nil => trivial
  | cons life rest ih => exact ⟨Limits.none_ok t life, fun next _ => ih next⟩

/-- It is kept up whatever the steps are, where it asks nothing of them. -/
theorem Keeps.always (hk : Keeps c .none 0 U) {t : Threads World Errand}
    (ht : (manager c).Reachable Machine.Always t) : Upheld 0 U t :=
  hk.reachable (ht.mono fun t life _ => Limits.none_ok t life)

/-- Nothing in particular is kept up. -/
def anything : Upkeep := ⟨fun _ => True, fun _ _ => True, fun _ _ _ => True, fun _ => True⟩

/-- Where nothing is asked of a conversation, the manager is still orderly. -/
theorem keeps_anything (c : Config) : Keeps c .none bound anything := by
  constructor
  case run => exact fun _ _ _ _ _ _ _ _ _ _ _ => ⟨trivial, trivial⟩
  case saving => exact fun _ _ _ _ _ _ => ⟨trivial, trivial⟩
  all_goals
    intros
    trivial

end Reachable

end MqStudio.Assistant
