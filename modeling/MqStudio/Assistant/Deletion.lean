import MqStudio.Assistant.Answers

/-!
# Deleted Conversations

`Delete` forgets a conversation in memory and then has the archive forget it, which takes it off
its index before it removes its file. A call that reads a conversation back holds no lock between
reading the file and holding what it read, nor does one that gives a title between taking the
record and writing it. What such a call does after a deletion undoes it.

## Main definitions

- `putsBack`, `writesBack`: the conversation a step of a call holds, or writes.
- `undeleted`: the condition that it is none that was deleted.
- `World.summaries`: what `Sessions` returns.

## Main results

- `deleted_stays`: in every interleaving of such steps, over every process, a conversation that was
  deleted is not held, not on disk and not listed.
- `deletion_undone`: each of the two kinds of step undoes a deletion.
-/

namespace MqStudio.Assistant

open MqStudio.Lib
open MqStudio.Lib.TreeMap

/-! ## Archives that forgot -/

namespace Archive

/-- Nothing of a conversation is left: it has no file, and no index shows it. -/
structure Without (a : Archive) (id : String) : Prop where
  file : a.files[id]? = none
  loaded : a.loaded[id]? = none
  onDisk : a.onDisk[id]? = none

/-- An archive that nothing is left in of the conversations it forgot. -/
structure Forgot (a : Archive) (ids : List String) : Prop where
  keyed : Keyed Entry.id a.loaded
  without : ∀ id ∈ ids, a.Without id

section Operations

variable {a b : Archive} {ids : List String} {id : String}

/-- Whether a directory's index shows a conversation depends on its index file and on the
    conversation's own. -/
theorem getElem?_onDisk_congr (hindex : b.indexFile = a.indexFile)
    (hfile : b.files[id]? = a.files[id]?) : b.onDisk[id]? = a.onDisk[id]? := by
  unfold onDisk
  rw [hindex]
  cases readSealed indexField a.indexFile with
  | value entries => rfl
  | _ => simp only [getElem?_rebuilt, entryOf, loadFrom, hfile]

theorem Forgot.opened (h : a.Forgot ids) : a.opened.Forgot ids := by
  refine ⟨h.keyed, fun id hid => ?_⟩
  obtain ⟨hfile, hloaded, hdisk⟩ := h.without id hid
  refine ⟨hfile, hloaded, ?_⟩
  rw [onDisk_opened h.keyed]
  split
  · exact hloaded
  · exact hdisk

theorem Forgot.loadIndex (h : a.Forgot ids) (n : Nat) : (a.loadIndex n).1.Forgot ids := by
  rw [loadIndex_eq]
  split
  · exact h
  · exact h.opened

theorem Forgot.list (h : a.Forgot ids) (n : Nat) : (a.list n).1.Forgot ids := by
  rw [list_fst]
  exact h.loadIndex n

/-- An index that was written is the one in memory. -/
theorem loaded_indexed (h : Keyed Entry.id a.loaded) : a.indexed.loaded = a.loaded := by
  cases hindex : a.index with
  | some index => simp [loaded, indexed, hindex]
  | none =>
    have hnone : a.indexed.index = none := hindex
    rw [loaded, hnone]
    exact onDisk_indexed h

/-- The index in memory is written. -/
theorem Forgot.indexed (h : a.Forgot ids) : a.indexed.Forgot ids := by
  have hsame := loaded_indexed h.keyed
  refine ⟨hsame ▸ h.keyed, fun id hid => ?_⟩
  obtain ⟨hfile, hloaded, -⟩ := h.without id hid
  refine ⟨hfile, hsame ▸ hloaded, ?_⟩
  rw [onDisk_indexed h.keyed]
  exact hloaded

/-- A conversation that was not forgotten is saved. -/
theorem Forgot.written (h : a.Forgot ids) {r : Record} (hkept : r.id ∉ ids) :
    (a.written r).Forgot ids := by
  refine ⟨h.keyed.insert r.entry, fun id hid => ?_⟩
  have hne : r.id ≠ id := by
    rintro rfl
    exact hkept hid
  obtain ⟨hfile, hloaded, hdisk⟩ := h.opened.without id hid
  have hfile' : (a.written r).files[id]? = a.opened.files[id]? :=
    getElem?_insert_of_ne _ _ hne
  refine ⟨hfile'.trans hfile, ?_, ?_⟩
  · exact (getElem?_insert_of_ne _ _ hne).trans hloaded
  · have hshown : (a.written r).onDisk[id]? = a.opened.onDisk[id]? :=
      getElem?_onDisk_congr rfl hfile'
    exact hshown.trans hdisk

/-- **Save** leaves what was forgotten out, unless it is what it writes. -/
theorem Forgot.save (h : a.Forgot ids) (r : Record) (n : Nat)
    (hkept : a.opening < n → r.id ∉ ids) : (a.save r n).1.Forgot ids := by
  rw [save_eq]
  split
  · exact h
  · rename_i hopens
    split
    · exact h.opened
    · rename_i hwrites
      have hwritten := h.written (hkept (by omega))
      split
      · exact hwritten
      · exact hwritten.indexed

/-- A conversation leaves the list. -/
theorem Forgot.unlisted (h : a.Forgot ids) (id : String) : (a.unlisted id).Forgot ids := by
  refine ⟨h.keyed.erase id, fun other hother => ?_⟩
  obtain ⟨hfile, hloaded, hdisk⟩ := h.opened.without other hother
  refine ⟨hfile, ?_, hdisk⟩
  change (a.loaded.erase id)[other]? = none
  rw [Std.ExtTreeMap.getElem?_erase]
  split
  · rfl
  · exact hloaded

/-- A deletion that returns without error came to removing the file. -/
theorem delete_snd {n : Nat} (h : (a.delete id n).2 = true) :
    (a.delete id n).1 = { (a.unlisted id).indexed with files := a.files.erase id } := by
  rw [delete_eq]
  unfold delete at h
  split at h
  · cases h
  · rename_i hid
    rw [loadIndex_eq] at h
    by_cases hn : n < a.opening
    · rw [if_pos hn] at h
      cases h
    · rw [if_neg hn] at h
      obtain ⟨left, rfl⟩ := Nat.exists_eq_add_of_le (Nat.not_lt.mp hn)
      dsimp only at h
      rw [Nat.add_sub_cancel_left] at h
      cases left with
      | zero => cases h
      | succ left =>
        cases left with
        | zero => cases h
        | succ left =>
          rw [if_neg (by simpa [hn] using hid), if_neg (by omega), if_neg (by omega)]

/-- The file of a conversation that left the list is removed. -/
theorem Forgot.removed (h : a.Forgot ids) (id : String) :
    { (a.unlisted id).indexed with files := a.files.erase id }.Forgot (id :: ids) := by
  have hlisted := (h.unlisted id).indexed
  refine ⟨hlisted.keyed, fun other hother => ?_⟩
  have hloaded : (a.loaded.erase id)[other]? = none := by
    rw [Std.ExtTreeMap.getElem?_erase]
    split
    · rfl
    · rename_i hne
      rcases List.mem_cons.mp hother with rfl | hold
      · simp at hne
      · exact (h.without other hold).loaded
  refine ⟨?_, hloaded, ?_⟩
  · rw [Std.ExtTreeMap.getElem?_erase]
    split
    · rfl
    · rename_i hne
      rcases List.mem_cons.mp hother with rfl | hold
      · simp at hne
      · exact (h.without other hold).file
  · have hdisk : (a.unlisted id).indexed.onDisk = a.loaded.erase id :=
      onDisk_indexed (h.keyed.erase id)
    exact (congrArg (fun index : Index => index[other]?) hdisk).trans hloaded

/-- **Delete** forgets one more conversation where it returns without error. -/
theorem Forgot.delete (h : a.Forgot ids) (id : String) (n : Nat) :
    (a.delete id n).1.Forgot (if (a.delete id n).2 then id :: ids else ids) := by
  split
  · rename_i hremoved
    rw [delete_snd hremoved]
    exact h.removed id
  · rw [delete_eq]
    split
    · exact h
    · split
      · exact h.unlisted id
      · split
        · exact (h.unlisted id).indexed
        · have hremoved := h.removed id
          exact ⟨hremoved.keyed, fun other hother =>
            hremoved.without other (List.mem_cons_of_mem id hother)⟩

/-- Another process finds nothing of it either. -/
theorem Forgot.reopen (h : a.Forgot ids) (hfiled : a.Filed) : a.reopen.Forgot ids where
  keyed := hfiled.onDisk
  without id hid := by
    obtain ⟨hfile, -, hdisk⟩ := h.without id hid
    exact ⟨hfile, hdisk, hdisk⟩

end Operations

end Archive

/-! ## Steps that undo a deletion -/

/-- The conversation a step of a call holds that was not held. -/
def putsBack (w : World) : Errand → Say → Option String
  | .adding _, .draw id => some id
  | .restoring kept _, .go => if w.sessions[kept.id]? = none then some kept.id else none
  | _, _ => none

/-- The conversation a step of a call writes, where as many file operations happen as its file
    takes. -/
def writesBack (w : World) : Errand → Say → Option String
  | .saving kept, .write n => if w.archive.opening < n then some kept.id else none
  | _, _ => none

/-- **No deletion is undone**: what a call holds or writes was not deleted, and what it holds no
    `Delete` has forgotten in memory and not yet in the archive. -/
def undeleted : Program.Condition World Errand Say Around where
  thread w p say :=
    (∀ id ∈ putsBack w p say, id ∉ w.deleted) ∧ ∀ id ∈ writesBack w p say, id ∉ w.deleted
  beside w p say q := ∀ id ∈ putsBack w p say, q ≠ .removing id
  environment _ _ := True

instance (w : World) (p : Errand) (say : Say) : Decidable (undeleted.thread w p say) :=
  inferInstanceAs (Decidable
    ((∀ id ∈ putsBack w p say, id ∉ w.deleted) ∧ ∀ id ∈ writesBack w p say, id ∉ w.deleted))

instance (w : World) (p : Errand) (say : Say) (q : Errand) :
    Decidable (undeleted.beside w p say q) :=
  inferInstanceAs (Decidable (∀ id ∈ putsBack w p say, q ≠ .removing id))

instance (w : World) (around : Around) : Decidable (undeleted.environment w around) :=
  .isTrue trivial

/-! ## What is gone -/

/-- What was deleted is gone: it is not held, and the archive forgot it. -/
structure Gone (w : World) : Prop where
  held : ∀ id ∈ w.deleted, w.sessions[id]? = none
  archive : w.archive.Forgot w.deleted

/-- What a `Delete` forgot in memory is not held while the archive is to forget it. -/
def Leaving (w : World) (p : Errand) : Prop := ∀ id, p = .removing id → w.sessions[id]? = none

section Steps

variable {c : Config} {w : World} {id : String}

theorem getElem?_forget (hid : w.sessions[id]? = none) (s : Session) :
    (w.forget s).sessions[id]? = none := by
  simp only [World.forget, Std.ExtTreeMap.getElem?_erase]
  split
  · rfl
  · exact hid

/-- Changing a conversation that is held holds no other. -/
theorem getElem?_put_none {other : String} {s t : Session} (hid : w.sessions[id]? = none)
    (hs : w.sessions[other]? = some s) (ht : t.id = other) : (w.put t).sessions[id]? = none := by
  have hne : t.id ≠ id := by
    rintro rfl
    rw [← ht, hid] at hs
    cases hs
  exact (getElem?_insert_of_ne _ _ hne).trans hid

theorem absent_useSession {other : String} {s : Session} (hid : w.sessions[id]? = none)
    (hs : w.sessions[other]? = some s) (hkeyed : s.id = other) (purpose : Purpose) :
    (useSession w s purpose).1.sessions[id]? = none := by
  cases purpose with
  | send | carryOn =>
    simp only [useSession]
    split
    · exact getElem?_put_none hid hs hkeyed
    · exact hid
  | snapshot => exact hid
  | rename title => exact getElem?_put_none hid hs hkeyed

/-- **A conversation that is not held is not held after a step of a call**, unless the call puts it
    there. -/
theorem absent_advance (hw : Orderly 0 w) {p : Errand} {say : Say} {next : World × Option Errand}
    (h : advance w p say = some next) (hid : w.sessions[id]? = none)
    (hput : id ∉ putsBack w p say) : next.1.sessions[id]? = none := by
  cases p with
  | adding chosen =>
    simp only [advance] at h
    split at h
    · rename_i drawn
      have hne : drawn ≠ id := fun hsame => hput (congrArg some hsame)
      split at h
      · cases h
      · cases h
        exact (getElem?_insert_of_ne _ _ hne).trans hid
    · cases h
  | restoring kept purpose =>
    simp only [advance] at h
    split at h
    · cases h
    · rename_i hgo
      obtain rfl := not_not.mp hgo
      split at h
      · cases h
        exact hid
      · rename_i hfree
        have hne : kept.id ≠ id := by
          rintro rfl
          exact hput (if_pos hfree)
        cases h
        exact (getElem?_insert_of_ne _ _ hne).trans hid
  | entering other address purpose =>
    simp only [advance] at h
    split at h
    · cases h
    · split at h
      · cases h
        exact hid
      · rename_i s hheld
        cases h
        have hs := World.held_eq_some hheld
        exact absent_useSession hid hs (hw.keyed other s hs) purpose
  | decide other item decision =>
    simp only [advance] at h
    split at h
    · cases h
    · split at h
      · cases h
        exact hid
      · rename_i s hs
        split at h
        · cases h
          exact getElem?_put_none hid hs (hw.keyed other s hs)
        · cases h
          exact hid
  | delete other =>
    simp only [advance] at h
    split at h
    · cases h
    · split at h
      · cases h
        exact hid
      · split at h
        · cases h
          exact hid
        · cases h
          exact getElem?_forget hid _
  | clear =>
    simp only [advance] at h
    split at h
    · cases h
    · cases h
      exact World.forgetOthers_invariant (fun left => left.sessions[id]? = none) hid
        fun _ s hleft => getElem?_forget hleft s
  | dropping ids =>
    cases ids <;> simp only [advance] at h <;> split at h <;> cases h <;> exact hid
  | _ =>
    simp only [advance] at h
    repeat' split at h
    all_goals first | (cases h; exact hid) | cases h

/-- **The archive stays as forgetful**, unless the step writes what was deleted. -/
theorem Archive.Forgot.advance (hw : w.archive.Forgot w.deleted) {p : Errand} {say : Say}
    {next : World × Option Errand} (h : Assistant.advance w p say = some next)
    (hwrites : ∀ id ∈ writesBack w p say, id ∉ w.deleted) :
    next.1.archive.Forgot next.1.deleted := by
  cases p with
  | saving kept =>
    simp only [Assistant.advance] at h
    split at h
    · rename_i n
      cases h
      exact hw.save kept n fun hopens => hwrites kept.id (if_pos hopens)
    · cases h
  | removing id =>
    simp only [Assistant.advance] at h
    split at h
    · rename_i n
      cases h
      exact hw.delete id n
    · cases h
  | expiring cutoff spared =>
    simp only [Assistant.advance] at h
    split at h
    · rename_i n
      have hloaded := hw.loadIndex n
      split at h <;> (rename_i hopened; rw [hopened] at hloaded; cases h; exact hloaded)
    · cases h
  | dropping ids =>
    cases ids with
    | nil =>
      simp only [Assistant.advance] at h
      split at h
      · cases h
      · cases h
        exact hw
    | cons id rest =>
      simp only [Assistant.advance] at h
      split at h
      · rename_i n
        cases h
        have hdeleted := hw.delete id n
        refine ⟨hdeleted.keyed, fun other hother => hdeleted.without other ?_⟩
        split
        · exact List.mem_cons_of_mem id hother
        · exact hother
      · cases h
  | listing =>
    simp only [Assistant.advance] at h
    split at h
    · cases h
      exact hw.list _
    · cases h
  | entering other address purpose =>
    simp only [Assistant.advance] at h
    split at h
    · cases h
    · split at h
      · cases h
        exact hw
      · cases h
        cases purpose with
        | send | carryOn =>
          simp only [useSession]
          split <;> exact hw
        | snapshot | rename => exact hw
  | clear =>
    simp only [Assistant.advance] at h
    split at h
    · cases h
    · cases h
      exact World.forgetOthers_invariant (fun left => left.archive.Forgot left.deleted) hw
        fun _ _ hleft => hleft
  | _ =>
    simp only [Assistant.advance] at h
    repeat' split at h
    all_goals first | (cases h; exact hw) | cases h

/-- **What is deleted in a step of a call** is what its `Delete` forgot, and no more is forgotten. -/
theorem deleted_advance {p : Errand} {say : Say} {next : World × Option Errand}
    (h : advance w p say = some next) :
    w.deleted ⊆ next.1.deleted ∧ ∀ id ∈ next.1.deleted, id ∈ w.deleted ∨ p = .removing id := by
  have hsame : next.1.deleted = w.deleted →
      w.deleted ⊆ next.1.deleted ∧ ∀ id ∈ next.1.deleted, id ∈ w.deleted ∨ p = .removing id := by
    intro heq
    rw [heq]
    exact ⟨fun _ hid => hid, fun _ hid => .inl hid⟩
  cases p with
  | removing other =>
    simp only [advance] at h
    split at h
    · cases h
      dsimp only
      split
      · refine ⟨fun _ hid => List.mem_cons_of_mem other hid, fun id hid => ?_⟩
        rcases List.mem_cons.mp hid with rfl | hold
        · exact .inr rfl
        · exact .inl hold
      · exact ⟨fun _ hid => hid, fun _ hid => .inl hid⟩
    · cases h
  | entering other address purpose =>
    apply hsame
    simp only [advance] at h
    split at h
    · cases h
    · split at h
      · cases h
        rfl
      · cases h
        cases purpose with
        | send | carryOn =>
          simp only [useSession]
          split <;> rfl
        | snapshot | rename => rfl
  | clear =>
    apply hsame
    simp only [advance] at h
    split at h
    · cases h
    · cases h
      exact World.forgetOthers_invariant (fun left => left.deleted = w.deleted) rfl
        fun _ _ hleft => hleft
  | dropping ids =>
    apply hsame
    cases ids <;> simp only [advance] at h <;> split at h <;> cases h <;> rfl
  | _ =>
    apply hsame
    simp only [advance] at h
    repeat' split at h
    all_goals first | (cases h; rfl) | cases h

/-- A call comes to `removing` from `delete`, which forgot the conversation. -/
theorem leaving_advance {p q : Errand} {say : Say} {next : World × Option Errand}
    (h : advance w p say = some next) (hq : next.2 = some q) (hw : Orderly 0 w) :
    Leaving next.1 q := by
  rintro id rfl
  cases p with
  | delete other =>
    simp only [advance] at h
    split at h
    · cases h
    · split at h
      · rename_i hfree
        cases h
        cases hq
        exact hfree
      · rename_i s hs
        split at h
        · cases h
          cases hq
        · cases h
          cases hq
          have hid := hw.keyed id s hs
          subst hid
          simp [World.forget]
  | entering other address purpose =>
    simp only [advance] at h
    split at h
    · cases h
    · split at h
      · cases h
        cases hq
      · cases h
        cases purpose with
        | send | carryOn =>
          simp only [useSession] at hq
          split at hq <;> cases hq
        | snapshot => cases hq
        | rename title =>
          simp only [useSession] at hq
          split at hq <;> cases hq
  | dropping ids =>
    cases ids <;> simp only [advance] at h <;> split at h <;> cases h <;> cases hq
  | start providerID =>
    simp only [advance] at h
    split at h
    · cases h
    · split at h
      · cases h
        cases hq
      · cases h
        obtain ⟨chosen, -, hp⟩ := Option.map_eq_some_iff.mp hq
        cases hp
  | keeping kept =>
    simp only [advance] at h
    split at h
    · cases h
    · split at h
      · cases h
        cases hq
      · cases h
        split at hq <;> cases hq
  | _ =>
    simp only [advance] at h
    repeat' split at h
    all_goals first | (cases h; cases hq) | cases h

/-- **A step of the environment** holds no conversation and deletes none, and the record a run
    writes is of a conversation that is held. -/
theorem gone_environment (hw : Orderly 0 w) (hgone : Gone w) {around : Around} {v : World}
    (h : (program c).environment w around = some v) :
    v.deleted = w.deleted ∧ (∀ id : String, w.sessions[id]? = none → v.sessions[id]? = none) ∧ Gone v := by
  have hgone' : v.deleted = w.deleted → (∀ id : String, w.sessions[id]? = none → v.sessions[id]? = none) →
      v.archive.Forgot w.deleted →
      v.deleted = w.deleted ∧ (∀ id : String, w.sessions[id]? = none → v.sessions[id]? = none) ∧ Gone v := by
    intro hdeleted habsent harchive
    refine ⟨hdeleted, habsent, fun id hid => ?_, hdeleted ▸ harchive⟩
    exact habsent id (hgone.held id (hdeleted ▸ hid))
  cases around with
  | run choice =>
    obtain ⟨r, s, hr, hs, hcases⟩ := World.runStep_cases h
    have hkeyed := hw.keyed r.id s hs
    have hput : ∀ t : Session, Same s t → ∀ id : String, w.sessions[id]? = none →
        (w.put t).sessions[id]? = none :=
      fun t hsame id hid => getElem?_put_none hid hs (hsame.1.trans hkeyed)
    rcases hcases with ⟨kept, next, hposition, hnext, rfl⟩ | ⟨kept, n, hposition, -, rfl⟩ |
      ⟨hposition, rfl⟩ | ⟨m, hstep, rfl⟩
    · exact hgone' rfl (fun _ hid => hid) hgone.archive
    · refine hgone' rfl (fun _ hid => hid) (hgone.archive.save kept n fun _ hdeleted => ?_)
      have hkeeping := hw.keeping r hr
      rw [hposition] at hkeeping
      have hid : kept.id = r.id := hkeeping
      rw [hid] at hdeleted
      rw [hgone.held r.id hdeleted] at hs
      cases hs
    · exact hgone' rfl (hput _ ⟨rfl, rfl⟩) hgone.archive
    · exact hgone' rfl (hput _ (step_move hstep).frame.1) hgone.archive
  | settings | connections | tick =>
    cases h
    exact hgone' rfl (fun _ hid => hid) hgone.archive
  | line record =>
    simp only [program] at h
    split at h
    · cases h
    · cases h
      exact hgone' rfl (fun _ hid => hid) hgone.archive

/-- The rules of what is gone. -/
theorem gone_invariants (c : Config) :
    (program c).InvariantsWhen undeleted (fun w => Tended 0 anything w ∧ Gone w)
      (fun w p => Carried anything w p ∧ Leaving w p) (fun _ _ => True) where
  symm _ _ _ := trivial
  start w h := by
    have hempty : Upheld 0 anything (⟨w, ∅⟩ : Threads World Errand) :=
      upheld_start (c := c) trivial ⟨h, rfl⟩
    obtain ⟨-, -, -, -, -, -, -, hdeleted, hfiles, hindexFile, hindex⟩ := h
    refine ⟨hempty.shared, fun id hid => ?_, ?_, fun id hid => ?_⟩
    · rw [hdeleted] at hid
      cases hid
    · have hnone : w.archive.loaded = w.archive.onDisk := by simp [Archive.loaded, hindex]
      rw [hnone]
      exact Archive.Filed.onDisk fun id kept hload => (hempty.shared.orderly.filed id kept hload).1
    · rw [hdeleted] at hid
      cases hid
  arrive w p hw harrives := by
    refine ⟨⟨((keeps_anything c).invariants.arrive w p hw.1 harrives).1, fun id hp => ?_⟩,
      fun _ _ => trivial⟩
    subst hp
    cases harrives
  own w p say next hw hp hadvance hok := by
    obtain ⟨htended, hcarried⟩ := (keeps_anything c).invariants.own w p say next hw.1 hp.1 hadvance
      (Limits.none_onCall w p)
    refine ⟨⟨htended, fun id hid => ?_, hw.2.archive.advance hadvance hok.2⟩, fun q hq =>
      ⟨hcarried q hq, leaving_advance hadvance hq hw.1.orderly⟩⟩
    rcases (deleted_advance hadvance).2 id hid with hold | rfl
    · exact absent_advance hw.1.orderly hadvance (hw.2.held id hold) fun hput => hok.1 id hput hold
    · have hput : id ∉ putsBack w (.removing id) say := fun hput => by cases hput
      have hremoves : advance w (.removing id) say = some next := hadvance
      exact absent_advance hw.1.orderly hremoves (hp.2 id rfl) hput
  other w p say next q hw hp hadvance _ hq _ hbeside hexcludes := by
    have hcarried := ((keeps_anything c).invariants.other w p say next q hw.1 hp.1 hadvance
      (Limits.none_onCall w p) hq.1 trivial trivial hexcludes).1
    refine ⟨⟨hcarried, fun id hremoving => ?_⟩, fun _ _ => trivial⟩
    exact absent_advance hw.1.orderly hadvance (hq.2 id hremoving) fun hput =>
      hbeside id hput hremoving
  environment w around v hw henvironment _ := by
    obtain ⟨htended, hcarried⟩ := (keeps_anything c).invariants.environment w around v hw.1
      henvironment (Limits.none_onAround w around)
    obtain ⟨-, habsent, hgone⟩ := gone_environment hw.1.orderly hw.2 henvironment
    exact ⟨⟨htended, hgone⟩, fun p hp => ⟨hcarried p hp.1, fun id hid => habsent id (hp.2 id hid)⟩⟩

end Steps

/-! ## Every interleaving -/

section Runs

variable {c : Config} {t u : Threads World Errand} {id : String}

/-- What was deleted is gone in every state of a run that undoes no deletion. -/
theorem gone_reachable (ht : (manager c).Reachable undeleted.OkLife t) : Gone t.shared := by
  refine ((gone_invariants c).reachableLife (fun w hw => ?_) ht).shared.2
  refine ⟨hw.1.restart, fun id _ => by simp [World.restart], ?_⟩
  exact hw.2.archive.reopen fun id kept hload => (hw.1.orderly.filed id kept hload).1

/-- A deletion is not forgotten. -/
theorem deleted_step {life : Program.Life Errand Say Around}
    (ht : (manager c).Reachable undeleted.OkLife t) (hstep : (manager c).step t life = some u)
    (hid : id ∈ t.shared.deleted) : id ∈ u.shared.deleted := by
  cases life with
  | none =>
    cases hstep
    exact hid
  | some turn =>
    cases turn with
    | arrive k p =>
      obtain ⟨-, -, rfl⟩ := Program.arrive_step hstep
      exact hid
    | thread k say =>
      obtain ⟨p, next, -, hadvance, rfl⟩ := Program.thread_move hstep
      exact (deleted_advance hadvance).1 hid
    | environment around =>
      obtain ⟨shared, henvironment, rfl⟩ := Program.environment_step hstep
      have horderly := ((keeps_anything c).always (ht.mono fun _ _ _ => trivial)).shared.orderly
      rw [(gone_environment horderly (gone_reachable ht) henvironment).1]
      exact hid

end Runs

/-! ## What `Sessions` returns -/

/-- `Sessions`, once it has the archive's list: what is held and was spoken in, and what is kept
    beside it. -/
def World.summaries (w : World) (kept : List Summary) : List Summary :=
  let spoken := (values w.sessions).filter fun s => !s.items.isEmpty
  spoken.map (fun s => s.summary (w.isRunning s)) ++
    kept.filter fun summary => !(spoken.map Session.id).contains summary.id

section Listing

variable {c : Config} {t u : Threads World Errand} {id : String}

/-- A conversation without an entry is not listed. -/
theorem Archive.Forgot.not_listed {a : Archive} {ids : List String} (h : a.Forgot ids)
    (hid : id ∈ ids) {n : Nat} {kept : List Summary} (hlist : (a.list n).2 = some kept) :
    ∀ summary ∈ kept, summary.id ≠ id := by
  intro summary hmem
  have hentries : kept = (values a.loaded).map Entry.summary := by
    unfold Archive.list at hlist
    rw [Archive.loadIndex_eq] at hlist
    split at hlist
    · cases hlist
    · rename_i hopened
      split at hopened
      · cases hopened
      · cases hopened
        exact (Option.some.inj hlist).symm
  rw [hentries] at hmem
  obtain ⟨e, he, rfl⟩ := List.mem_map.mp hmem
  obtain ⟨key, hkey⟩ := mem_values.mp he
  have hkeyed : e.id = key := h.keyed key e hkey
  rintro rfl
  have hnone := (h.without e.id hid).loaded
  rw [hkeyed, hkey] at hnone
  cases hnone

/-- **A deleted conversation stays deleted**, in every run whose steps undo no deletion: in every
    later state it is not held, there is no file of it and no index shows it, and `Sessions`, which
    may have read the archive's list before, does not return it. -/
theorem deleted_stays (ht : (manager c).Reachable undeleted.OkLife t) (hid : id ∈ t.shared.deleted)
    {lives : List (Program.Life Errand Say Around)}
    (hok : (manager c).Permitted undeleted.OkLife t lives)
    (hrun : (manager c).run t lives = some u) :
    u.shared.sessions[id]? = none ∧ u.shared.archive.Without id ∧
      ∀ n kept, (t.shared.archive.list n).2 = some kept →
        ∀ summary ∈ u.shared.summaries kept, summary.id ≠ id := by
  have hlater : (manager c).Reachable undeleted.OkLife u ∧ id ∈ u.shared.deleted := by
    apply hok.invariant (fun v => (manager c).Reachable undeleted.OkLife v ∧ id ∈ v.shared.deleted)
    · exact ⟨ht, hid⟩
    · exact hrun
    · rintro v life v' ⟨hv, hdeleted⟩ hlife hstep
      exact ⟨.step hv hlife hstep, deleted_step hv hstep hdeleted⟩
  have hgone := gone_reachable hlater.1
  have horderly := ((keeps_anything c).always (hlater.1.mono fun _ _ _ => trivial)).shared.orderly
  refine ⟨hgone.held id hlater.2, hgone.archive.without id hlater.2, fun n kept hlist => ?_⟩
  intro summary hmem
  rcases List.mem_append.mp hmem with hheld | hkept
  · obtain ⟨s, hs, rfl⟩ := List.mem_map.mp hheld
    obtain ⟨key, hkey⟩ := mem_values.mp (List.mem_filter.mp hs).1
    rintro rfl
    have hnone := hgone.held s.id hlater.2
    rw [horderly.keyed key s hkey, hkey] at hnone
    cases hnone
  · have hforgot := (gone_reachable ht).archive
    exact hforgot.not_listed hid hlist summary (List.mem_filter.mp hkept).1

end Listing

/-- An answered conversation is deleted. -/
def ordersDeleted : List (Program.Life Errand Say Around) :=
  ordersAnswered ++ called 3 (.delete ordersID) [.go, .write Archive.whole]

/-- A deleted conversation is not found again. -/
theorem deleted_stays_orders :
    ∃ u, (manager ordersConfig).run (ordersAfter ordersDeleted)
        (called 4 (.opening ordersID .snapshot) [.go, .go]) = some u ∧
      u.shared.sessions[ordersID]? = none ∧ u.shared.archive.Without ordersID ∧
        ∀ n kept, ((ordersAfter ordersDeleted).shared.archive.list n).2 = some kept →
          ∀ summary ∈ u.shared.summaries kept, summary.id ≠ ordersID := by
  have hruns : (manager ordersConfig).Permitted undeleted.OkLife ⟨ordersWindow, ∅⟩ ordersDeleted ∧
      ordersID ∈ (ordersAfter ordersDeleted).shared.deleted ∧
      (manager ordersConfig).Permitted undeleted.OkLife (ordersAfter ordersDeleted)
        (called 4 (.opening ordersID .snapshot) [.go, .go]) ∧
      ((manager ordersConfig).run (ordersAfter ordersDeleted)
        (called 4 (.opening ordersID .snapshot) [.go, .go])).isSome = true := by
    decide +kernel
  obtain ⟨hpermitted, hdeleted, hok, hsome⟩ := hruns
  obtain ⟨u, hrun⟩ := Option.isSome_iff_exists.mp hsome
  have hreachable : (manager ordersConfig).Reachable undeleted.OkLife (ordersAfter ordersDeleted) :=
    (Machine.Reachable.start ordersWindow_start).endOf hpermitted
  exact ⟨u, hrun, deleted_stays hreachable hdeleted hok hrun⟩

/-! ## Deletions that are undone -/

/-- A conversation is read back in a process that did not hold it, and deleted between the reading of
    its file and its being held. -/
def ordersPutBack : List (Program.Life Errand Say Around) :=
  ordersAnswered ++ [none] ++ called 0 (.opening ordersID .snapshot) [.go, .go] ++
    called 1 (.delete ordersID) [.go, .write Archive.whole] ++
    [some (.thread 0 .go), some (.thread 0 .go)]

/-- A conversation is given a title, and deleted between the taking of its record and its being
    written. -/
def ordersWrittenBack : List (Program.Life Errand Say Around) :=
  ordersAnswered ++ called 3 (.rename ordersID "paid orders") [.go, .go, .go, .go] ++
    called 4 (.delete ordersID) [.go, .write Archive.whole] ++
    [some (.thread 3 (.write Archive.whole))]

/-- A reachable state in which every call has returned, and a `Delete` without error. -/
def Deleted (t : Threads World Errand) : Prop :=
  (manager ordersConfig).Reachable Machine.Always t ∧ t.threads = ∅ ∧ ordersID ∈ t.shared.deleted

/-- **A deletion is undone** by a call that holds what it read before, and by one that writes what it
    took before. -/
theorem deletion_undone :
    (Deleted (ordersAfter ordersPutBack) ∧
      (ordersAfter ordersPutBack).shared.sessions[ordersID]? ≠ none) ∧
    (Deleted (ordersAfter ordersWrittenBack) ∧
      (ordersAfter ordersWrittenBack).shared.archive.files[ordersID]? ≠ none ∧
      ordersID ∈ (((ordersAfter ordersWrittenBack).shared.archive.list Archive.whole).2.getD []).map
        Summary.id) := by
  have hruns : ((ordersAfter ordersPutBack).threads = ∅ ∧
      ordersID ∈ (ordersAfter ordersPutBack).shared.deleted ∧
      (ordersAfter ordersPutBack).shared.sessions[ordersID]? ≠ none) ∧
      (ordersAfter ordersWrittenBack).threads = ∅ ∧
      ordersID ∈ (ordersAfter ordersWrittenBack).shared.deleted ∧
      (ordersAfter ordersWrittenBack).shared.archive.files[ordersID]? ≠ none ∧
      ordersID ∈ (((ordersAfter ordersWrittenBack).shared.archive.list Archive.whole).2.getD
        []).map Summary.id := by
    decide +kernel
  obtain ⟨hputBack, hwrittenBack⟩ := hruns
  exact ⟨⟨⟨ordersAfter_reachable _, hputBack.1, hputBack.2.1⟩, hputBack.2.2⟩,
    ⟨⟨ordersAfter_reachable _, hwrittenBack.1, hwrittenBack.2.1⟩, hwrittenBack.2.2⟩⟩

end MqStudio.Assistant
