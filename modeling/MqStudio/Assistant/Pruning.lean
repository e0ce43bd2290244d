import MqStudio.Assistant.Deletion

/-!
# Pruning

`Prune` reads which conversation answers under the manager's lock, then lists what has expired
under the archive's, and then deletes it one conversation at a time, under neither. A conversation
that is on its list may have been sent a message by the time its turn comes, and its run may even
have ended and been saved: it is deleted all the same.

## Main definitions

- `Lapsed`: a conversation does not answer, and its record is older than a cutoff.
- `unrevived`: the condition that nothing a prune has listed comes back before it is deleted.

## Main results

- `prune_deletes_lapsed`: in every interleaving of such steps, a prune deletes what has lapsed.
- `revived_deleted`: without it, one deletes a conversation that answers, and one that was saved.
-/

namespace MqStudio.Assistant

open MqStudio.Lib
open MqStudio.Lib.TreeMap

/-! ## Records of an age -/

namespace Archive

/-- The record of a conversation, by its entry and by its file, was saved before a cutoff. -/
structure Before (a : Archive) (cutoff : Nat) (id : String) : Prop where
  listed : ∀ e, a.loaded[id]? = some e → e.summary.updated < cutoff
  filed : ∀ r, a.load id = .ok r → r.updated < cutoff

/-- A save comes to writing its record. -/
def writes (a : Archive) (r : Record) (n : Nat) : Bool :=
  isArchivedID r.id && decide (a.opening < n) && !a.superseded r

/-- A conversation was in the archive, and its entry or its file no longer is. -/
def Loses (a b : Archive) (id : String) : Prop :=
  (a.loaded[id]? ≠ none ∧ b.loaded[id]? = none) ∨ (a.files[id]? ≠ none ∧ b.files[id]? = none)

instance (a b : Archive) (id : String) : Decidable (a.Loses b id) :=
  inferInstanceAs (Decidable
    ((a.loaded[id]? ≠ none ∧ b.loaded[id]? = none) ∨ (a.files[id]? ≠ none ∧ b.files[id]? = none)))

section Operations

variable {a b : Archive} {r : Record} {cutoff n : Nat} {id : String}

theorem keyed_save (h : Keyed Entry.id a.loaded) (r : Record) (n : Nat) :
    Keyed Entry.id (a.save r n).1.loaded := by
  have hforgot : a.Forgot [] := ⟨h, fun _ hid => absurd hid List.not_mem_nil⟩
  exact (hforgot.save r n fun _ => List.not_mem_nil).keyed

theorem Before.congr (h : a.Before cutoff id) (hloaded : b.loaded = a.loaded)
    (hload : b.load id = a.load id) : b.Before cutoff id :=
  ⟨hloaded ▸ h.listed, hload ▸ h.filed⟩

theorem loaded_loadIndex (a : Archive) (n : Nat) : (a.loadIndex n).1.loaded = a.loaded := by
  rw [loadIndex_eq]
  split <;> rfl

theorem files_loadIndex (a : Archive) (n : Nat) : (a.loadIndex n).1.files = a.files := by
  rw [loadIndex_eq]
  split <;> rfl

theorem Before.loadIndex (h : a.Before cutoff id) (n : Nat) :
    (a.loadIndex n).1.Before cutoff id :=
  h.congr (loaded_loadIndex a n) (load_loadIndex a n id)

/-- A save that does not come to its record leaves what was listed and filed. -/
theorem save_of_not_writes (h : a.writes r n = false) :
    (a.save r n).1 = a ∨ (a.save r n).1 = a.opened := by
  rw [save_eq]
  split
  · exact .inl rfl
  · rename_i hopens
    split
    · exact .inr rfl
    · rename_i hkept
      rw [not_or] at hopens hkept
      have hid : isArchivedID r.id = true := by simpa using hopens.1
      have hlater : a.superseded r = false := by simpa using hkept.1
      have hmore : a.opening < n := by omega
      simp [writes, hid, hlater, hmore] at h

/-- What a save lists was listed before, or is what it saved. -/
theorem loaded_save (hkeyed : Keyed Entry.id a.loaded) {e : Entry}
    (h : (a.save r n).1.loaded[id]? = some e) :
    a.loaded[id]? = some e ∨ r.id = id ∧ e = r.entry := by
  have hwritten : (a.written r).loaded[id]? = some e →
      a.loaded[id]? = some e ∨ r.id = id ∧ e = r.entry := by
    intro hlisted
    have hinsert : (a.loaded.insert r.id r.entry)[id]? = some e := hlisted
    rw [getElem?_insert_ite] at hinsert
    split at hinsert
    · rename_i hid
      exact .inr ⟨hid, (Option.some.inj hinsert).symm⟩
    · exact .inl hinsert
  rw [save_eq] at h
  split at h
  · exact .inl h
  · split at h
    · exact .inl h
    · split at h
      · exact hwritten h
      · apply hwritten
        have hindexed : (a.written r).indexed.loaded = (a.written r).loaded :=
          loaded_indexed (hkeyed.insert r.entry)
        exact hindexed ▸ h

/-- **Save** leaves a record as old as it was, unless it writes a newer one of the conversation. -/
theorem Before.save (h : a.Before cutoff id) (hkeyed : Keyed Entry.id a.loaded)
    (hold : a.writes r n = true → r.id = id → r.updated < cutoff) :
    (a.save r n).1.Before cutoff id := by
  cases hwrites : a.writes r n with
  | false =>
    rcases save_of_not_writes hwrites with hsame | hopened
    · rw [hsame]
      exact h
    · rw [hopened]
      exact h.congr rfl rfl
  | true =>
    refine ⟨fun e he => ?_, fun kept hkept => ?_⟩
    · rcases loaded_save hkeyed he with hlisted | ⟨hid, rfl⟩
      · exact h.listed e hlisted
      · exact hold hwrites hid
    · rcases load_save hkept with hfiled | ⟨hid, rfl⟩
      · exact h.filed kept hfiled
      · exact hold hwrites hid

/-- **Delete** takes one conversation off the list. -/
theorem loaded_delete (hkeyed : Keyed Entry.id a.loaded) (other : String) (n : Nat) :
    (a.delete other n).1.loaded = a.loaded ∨
      (a.delete other n).1.loaded = a.loaded.erase other := by
  have hindexed : (a.unlisted other).indexed.loaded = a.loaded.erase other :=
    loaded_indexed (hkeyed.erase other)
  rw [delete_eq]
  split
  · exact .inl rfl
  · right
    split
    · rfl
    · split
      · exact hindexed
      · exact hindexed

theorem files_delete (a : Archive) {other : String} (n : Nat) (hne : other ≠ id) :
    (a.delete other n).1.files[id]? = a.files[id]? := by
  rw [delete_eq]
  split
  · rfl
  · split
    · rfl
    · split
      · rfl
      · exact getElem?_erase_of_ne _ hne

theorem Before.delete (h : a.Before cutoff id) (hkeyed : Keyed Entry.id a.loaded) (other : String)
    (n : Nat) : (a.delete other n).1.Before cutoff id := by
  refine ⟨fun e he => ?_, fun kept hkept => h.filed kept (load_delete hkept)⟩
  rcases loaded_delete hkeyed other n with hsame | herased
  · exact h.listed e (hsame ▸ he)
  · rw [herased, Std.ExtTreeMap.getElem?_erase] at he
    split at he
    · cases he
    · exact h.listed e he

/-- What a deletion takes from the archive is the conversation it deletes. -/
theorem eq_of_loses_delete (hkeyed : Keyed Entry.id a.loaded) {other : String}
    (h : a.Loses (a.delete other n).1 id) : other = id := by
  by_contra hne
  rcases h with ⟨hlisted, hgone⟩ | ⟨hfiled, hgone⟩
  · rcases loaded_delete hkeyed other n with hsame | herased
    · exact hlisted (hsame ▸ hgone)
    · rw [herased, getElem?_erase_of_ne _ hne] at hgone
      exact hlisted hgone
  · exact hfiled (files_delete a n hne ▸ hgone)

theorem not_loses (hloaded : b.loaded = a.loaded) (hfiles : b.files = a.files) :
    ¬ a.Loses b id := by
  rintro (⟨hlisted, hgone⟩ | ⟨hfiled, hgone⟩)
  · exact hlisted (hloaded ▸ hgone)
  · exact hfiled (hfiles ▸ hgone)

/-- A save takes nothing from the archive. -/
theorem not_loses_save (hkeyed : Keyed Entry.id a.loaded) (r : Record) (n : Nat) :
    ¬ a.Loses (a.save r n).1 id := by
  have hinsert : a.loaded[id]? ≠ none → (a.loaded.insert r.id r.entry)[id]? ≠ none := by
    intro hlisted
    rw [getElem?_insert_ite]
    split
    · simp
    · exact hlisted
  have hfile : a.files[id]? ≠ none → (a.written r).files[id]? ≠ none := by
    intro hfiled
    simp only [written, getElem?_insert_ite]
    split
    · simp
    · exact hfiled
  have hwritten : ¬ a.Loses (a.written r) id := by
    rintro (⟨hlisted, hgone⟩ | ⟨hfiled, hgone⟩)
    · exact hinsert hlisted hgone
    · exact hfile hfiled hgone
  have hindexed : (a.written r).indexed.loaded = (a.written r).loaded :=
    loaded_indexed (hkeyed.insert r.entry)
  rw [save_eq]
  split
  · exact not_loses rfl rfl
  · split
    · exact not_loses rfl rfl
    · split
      · exact hwritten
      · rw [Loses, hindexed]
        exact hwritten

end Operations

end Archive

/-! ## What a step does to the archive and to who answers -/

/-- What a step of a call does to the archive: nothing, or one operation. -/
inductive ArchiveMove (a : Archive) : Errand → Say → Archive → Prop where
  | nothing (p : Errand) (say : Say) : ArchiveMove a p say a
  | saves (kept : Record) (n : Nat) : ArchiveMove a (.saving kept) (.write n) (a.save kept n).1
  | removes (id : String) (n : Nat) : ArchiveMove a (.removing id) (.write n) (a.delete id n).1
  | drops (id : String) (rest : List String) (n : Nat) :
      ArchiveMove a (.dropping (id :: rest)) (.write n) (a.delete id n).1
  | opens (p : Errand) (n : Nat) : ArchiveMove a p (.write n) (a.loadIndex n).1

namespace ArchiveMove

variable {a b : Archive} {p : Errand} {say : Say} {cutoff : Nat} {id : String}

/-- The index stays keyed by the conversations it lists. -/
theorem keyed (h : ArchiveMove a p say b) (hkeyed : Keyed Entry.id a.loaded) :
    Keyed Entry.id b.loaded := by
  have hforgot : a.Forgot [] := ⟨hkeyed, fun _ hid => absurd hid List.not_mem_nil⟩
  cases h with
  | nothing => exact hkeyed
  | saves kept n => exact Archive.keyed_save hkeyed kept n
  | removes id n | drops id rest n => exact (hforgot.delete id n).keyed
  | opens _ n => exact (hforgot.loadIndex n).keyed

/-- A record stays as old as it was, unless a newer one of the conversation is written. -/
theorem before (h : ArchiveMove a p say b) (hkeyed : Keyed Entry.id a.loaded)
    (hbefore : a.Before cutoff id)
    (hold : ∀ kept n, p = .saving kept → say = .write n → a.writes kept n = true →
      kept.id = id → kept.updated < cutoff) : b.Before cutoff id := by
  cases h with
  | nothing => exact hbefore
  | saves kept n => exact hbefore.save hkeyed (hold kept n rfl rfl)
  | removes other n | drops other rest n => exact hbefore.delete hkeyed other n
  | opens _ n => exact hbefore.loadIndex n

/-- What a step of a call takes from the archive is what it deletes. -/
theorem eq_of_loses (h : ArchiveMove a p say b) (hkeyed : Keyed Entry.id a.loaded)
    (hloses : a.Loses b id) : p = .removing id ∨ ∃ rest, p = .dropping (id :: rest) := by
  cases h with
  | nothing => exact absurd hloses (Archive.not_loses rfl rfl)
  | saves kept n => exact absurd hloses (Archive.not_loses_save hkeyed kept n)
  | removes other n =>
    obtain rfl := Archive.eq_of_loses_delete hkeyed hloses
    exact .inl rfl
  | drops other rest n =>
    obtain rfl := Archive.eq_of_loses_delete hkeyed hloses
    exact .inr ⟨rest, rfl⟩
  | opens _ n =>
    exact absurd hloses (Archive.not_loses (Archive.loaded_loadIndex a n)
      (Archive.files_loadIndex a n))

end ArchiveMove

section Steps

variable {c : Config} {w : World} {cutoff : Nat} {id : String}

theorem archive_useSession (w : World) (s : Session) (purpose : Purpose) :
    (useSession w s purpose).1.archive = w.archive := by
  cases purpose with
  | send | carryOn =>
    simp only [useSession]
    split <;> rfl
  | snapshot | rename => rfl

/-- **What a step of a call does to the archive.** -/
theorem archive_advance {p : Errand} {say : Say} {next : World × Option Errand}
    (h : advance w p say = some next) : ArchiveMove w.archive p say next.1.archive := by
  cases p with
  | saving kept =>
    simp only [advance] at h
    split at h
    · cases h
      exact .saves kept _
    · cases h
  | removing id =>
    simp only [advance] at h
    split at h
    · cases h
      exact .removes id _
    · cases h
  | dropping ids =>
    cases ids with
    | nil =>
      simp only [advance] at h
      split at h
      · cases h
      · cases h
        exact .nothing _ _
    | cons id rest =>
      simp only [advance] at h
      split at h
      · cases h
        exact .drops id rest _
      · cases h
  | expiring cutoff spared =>
    simp only [advance] at h
    split at h
    · rename_i n
      have hopens : ArchiveMove w.archive (.expiring cutoff spared) (.write n)
          (w.archive.loadIndex n).1 := .opens _ n
      split at h <;> (rename_i hopened; rw [hopened] at hopens; cases h; exact hopens)
    · cases h
  | listing =>
    simp only [advance] at h
    split at h
    · rename_i n
      cases h
      dsimp only
      rw [Archive.list_fst]
      exact .opens _ n
    · cases h
  | entering other address purpose =>
    simp only [advance] at h
    split at h
    · cases h
    · split at h
      · cases h
        exact .nothing _ _
      · cases h
        rw [archive_useSession]
        exact .nothing _ _
  | clear =>
    simp only [advance] at h
    split at h
    · cases h
    · cases h
      have hsame : w.forgetOthers.archive = w.archive :=
        World.forgetOthers_invariant (fun left => left.archive = w.archive) rfl
          fun _ _ hleft => hleft
      dsimp only
      rw [hsame]
      exact .nothing _ _
  | _ =>
    simp only [advance] at h
    repeat' split at h
    all_goals first | (cases h; exact .nothing _ _) | cases h

/-- The conversation a step of a call begins a run of. -/
def begun (w : World) : Errand → Option String
  | .entering id address (.send _ _ _ settings) =>
    if (w.held id address).any fun s => w.ready s settings then some id else none
  | .entering id address (.carryOn settings) =>
    if (w.held id address).any fun s => w.ready s settings && s.carriesOn then some id else none
  | _ => none

/-- **Who answers after a step of a call** answered before, or is begun by it. -/
theorem running_advance (hw : Orderly 0 w) {p : Errand} {say : Say} {next : World × Option Errand}
    (h : advance w p say = some next) {r : Run} (hr : next.1.running = some r) :
    (∃ before, w.running = some before ∧ before.id = r.id) ∨ begun w p = some r.id := by
  cases p with
  | entering other address purpose =>
    simp only [advance] at h
    split at h
    · cases h
    · split at h
      · cases h
        exact .inl ⟨r, hr, rfl⟩
      · rename_i s hheld
        cases h
        have hid : s.id = other := hw.keyed other s (World.held_eq_some hheld)
        cases purpose with
        | send text composed about settings =>
          simp only [useSession] at hr
          split at hr
          · rename_i hready
            cases hr
            right
            simp [begun, hheld, hready, Run.new, Session.speaks, Session.add, Session.emit, hid]
          · exact .inl ⟨r, hr, rfl⟩
        | carryOn settings =>
          simp only [useSession] at hr
          split at hr
          · rename_i hready
            cases hr
            right
            simp only [begun, hheld, Option.any_some, hready, if_true, Run.new, hid]
          · exact .inl ⟨r, hr, rfl⟩
        | snapshot | rename => exact .inl ⟨r, hr, rfl⟩
  | stop other =>
    simp only [advance] at h
    split at h
    · cases h
    · split at h
      · rename_i before _ hbefore
        split at h
        · cases h
          cases hr
          exact .inl ⟨before, hbefore, rfl⟩
        · cases h
          exact .inl ⟨r, hr, rfl⟩
      · cases h
        exact .inl ⟨r, hr, rfl⟩
  | clear =>
    simp only [advance] at h
    split at h
    · cases h
    · cases h
      have hsame : w.forgetOthers.running = w.running :=
        World.forgetOthers_invariant (fun left => left.running = w.running) rfl
          fun _ _ hleft => hleft
      exact .inl ⟨r, hsame ▸ hr, rfl⟩
  | dropping ids =>
    cases ids <;> simp only [advance] at h <;> split at h <;> cases h <;> exact .inl ⟨r, hr, rfl⟩
  | _ =>
    simp only [advance] at h
    repeat' split at h
    all_goals first | (cases h; exact .inl ⟨r, hr, rfl⟩) | cases h

/-- The record that is written in a step of a call. -/
def rewritten (w : World) : Errand → Say → Option Record
  | .saving kept, .write n => if w.archive.writes kept n then some kept else none
  | _, _ => none

/-- The record that the run going writes. -/
def World.rewritten (w : World) : Around → Option Record
  | .run (.write n) =>
    match w.running.map Run.position with
    | some (.saving kept) => if w.archive.writes kept n then some kept else none
    | _ => none
  | _ => none

/-- What a step beside the calls does to the archive: nothing, or the run saves its record. -/
theorem archive_environment {around : Around} {v : World}
    (h : (program c).environment w around = some v) :
    v.archive = w.archive ∨ ∃ kept n, v.archive = (w.archive.save kept n).1 ∧
      (w.archive.writes kept n = true → w.rewritten around = some kept) := by
  cases around with
  | run choice =>
    obtain ⟨r, s, hr, -, hcases⟩ := World.runStep_cases h
    rcases hcases with ⟨kept, next, -, -, rfl⟩ | ⟨kept, n, hposition, rfl, rfl⟩ | ⟨-, rfl⟩ |
      ⟨m, -, rfl⟩
    · exact .inl rfl
    · refine .inr ⟨kept, n, rfl, fun hwrites => ?_⟩
      simp [World.rewritten, hr, hposition, hwrites]
    · exact .inl rfl
    · exact .inl rfl
  | settings | connections | tick =>
    cases h
    exact .inl rfl
  | line record =>
    simp only [program] at h
    split at h
    · cases h
    · cases h
      exact .inl rfl

/-- Who answers after a step beside the calls answered before. -/
theorem running_environment {around : Around} {v : World}
    (h : (program c).environment w around = some v) {r : Run} (hr : v.running = some r) :
    ∃ before, w.running = some before ∧ before.id = r.id := by
  cases around with
  | run choice =>
    obtain ⟨before, s, hbefore, -, hcases⟩ := World.runStep_cases h
    refine ⟨before, hbefore, ?_⟩
    rcases hcases with ⟨kept, next, -, -, rfl⟩ | ⟨kept, n, -, -, rfl⟩ | ⟨-, rfl⟩ | ⟨m, hstep, rfl⟩
    · cases hr
      rfl
    · cases hr
      rfl
    · cases hr
    · cases hr
      exact (step_move hstep).frame.2.1.symm
  | settings | connections | tick =>
    cases h
    exact ⟨r, hr, rfl⟩
  | line record =>
    simp only [program] at h
    split at h
    · cases h
    · cases h
      exact ⟨r, hr, rfl⟩

/-! ## Indexes are keyed -/

/-- In every state an index lists a conversation under its id. -/
theorem keyed_reachable {t : Threads World Errand}
    (ht : (manager c).Reachable Machine.Always t) : Keyed Entry.id t.shared.archive.loaded := by
  have hfiled : ∀ {u : Threads World Errand}, (manager c).Reachable Machine.Always u →
      u.shared.archive.Filed := fun hu id kept hload =>
    (((keeps_anything c).always hu).shared.orderly.filed id kept hload).1
  apply ht.invariant fun u => Keyed Entry.id u.shared.archive.loaded
  · intro u hstart
    have hondisk := (hfiled (.start hstart)).onDisk
    obtain ⟨⟨-, -, -, -, -, -, -, -, -, -, hindex⟩, -⟩ := hstart
    rw [Archive.loaded, hindex]
    exact hondisk
  · intro u life v hu hkeyed _ hstep
    cases life with
    | none =>
      cases hstep
      exact (hfiled hu).onDisk
    | some turn =>
      cases turn with
      | arrive k p =>
        obtain ⟨-, -, rfl⟩ := Program.arrive_step hstep
        exact hkeyed
      | thread k say =>
        obtain ⟨p, next, -, hadvance, rfl⟩ := Program.thread_move hstep
        exact (archive_advance hadvance).keyed hkeyed
      | environment around =>
        obtain ⟨shared, henvironment, rfl⟩ := Program.environment_step hstep
        rcases archive_environment henvironment with hsame | ⟨kept, n, hsaved, -⟩
        · exact hsame ▸ hkeyed
        · exact hsaved ▸ Archive.keyed_save hkeyed kept n

/-! ## What has lapsed -/

/-- A conversation that may be pruned: no run answers it, and its record was saved before the
    cutoff. -/
structure Lapsed (cutoff : Nat) (w : World) (id : String) : Prop where
  resting : ∀ r, w.running = some r → r.id ≠ id
  before : w.archive.Before cutoff id

/-- What a step of a call leaves has lapsed where it begins no run of it and writes no newer
    record of it. -/
theorem Lapsed.advance (h : Lapsed cutoff w id) (hw : Orderly 0 w)
    (hkeyed : Keyed Entry.id w.archive.loaded) {p : Errand} {say : Say}
    {next : World × Option Errand} (hadvance : Assistant.advance w p say = some next)
    (hbegun : begun w p ≠ some id)
    (hold : ∀ r, rewritten w p say = some r → r.id = id → r.updated < cutoff) :
    Lapsed cutoff next.1 id := by
  refine ⟨fun r hr => ?_, ?_⟩
  · rcases running_advance hw hadvance hr with ⟨before, hbefore, hsame⟩ | hstarts
    · exact hsame ▸ h.resting before hbefore
    · rintro rfl
      exact hbegun hstarts
  · apply (archive_advance hadvance).before hkeyed h.before
    rintro kept n rfl rfl hwrites
    exact hold kept (by simp [rewritten, hwrites])

/-- So it has after a step beside the calls. -/
theorem Lapsed.environment (h : Lapsed cutoff w id) (hkeyed : Keyed Entry.id w.archive.loaded)
    {around : Around} {v : World} (henvironment : (program c).environment w around = some v)
    (hold : ∀ r, w.rewritten around = some r → r.id = id → r.updated < cutoff) :
    Lapsed cutoff v id := by
  refine ⟨fun r hr => ?_, ?_⟩
  · obtain ⟨before, hbefore, hsame⟩ := running_environment henvironment hr
    exact hsame ▸ h.resting before hbefore
  · rcases archive_environment henvironment with hsame | ⟨kept, n, hsaved, hwritten⟩
    · exact hsame ▸ h.before
    · rw [hsaved]
      apply h.before.save hkeyed
      intro hwrites
      exact hold kept (hwritten hwrites)

end Steps

/-! ## Steps that bring nothing back -/

/-- What is older than the cutoff by the index, and not spared, does not answer by the time it is
    listed, and has no newer file than its entry says. -/
def World.listsLapsed (w : World) (cutoff : Nat) : Errand → Prop
  | .expiring _ spared => ∀ e ∈ values w.archive.loaded,
    e.summary.updated < cutoff → spared ≠ some e.id →
      (∀ r ∈ w.running, r.id ≠ e.id) ∧
        ∀ r ∈ (w.archive.load e.id).toOption, r.updated < cutoff
  | _ => True

/-- What a prune has listed and not deleted yet. -/
def Errand.listed : Errand → List String
  | .dropping ids => ids
  | _ => []

/-- What the call under a number has listed and not deleted yet. -/
def listedBy (t : Threads World Errand) (k : Nat) : List String :=
  ((t.threads[k]?).map Errand.listed).getD []

/-- **Nothing comes back** before the prune under a number is through with it: it lists what has
    lapsed, and of what it has listed no run is begun and no record as new as the cutoff is
    written. The number stays its own. -/
def unrevived (k cutoff : Nat) (t : Threads World Errand) : Program.Life Errand Say Around → Prop
  | none => True
  | some (.arrive l _) => l ≠ k
  | some (.thread l say) => ∀ p ∈ t.threads[l]?,
    (l = k → t.shared.listsLapsed cutoff p) ∧
      (∀ id ∈ begun t.shared p, id ∉ listedBy t k) ∧
        ∀ r ∈ rewritten t.shared p say, r.id ∈ listedBy t k → r.updated < cutoff
  | some (.environment around) =>
    ∀ r ∈ t.shared.rewritten around, r.id ∈ listedBy t k → r.updated < cutoff

instance (w : World) (cutoff : Nat) : (p : Errand) → Decidable (w.listsLapsed cutoff p)
  | .expiring _ spared => inferInstanceAs (Decidable (∀ e ∈ values w.archive.loaded,
      e.summary.updated < cutoff → spared ≠ some e.id →
        (∀ r ∈ w.running, r.id ≠ e.id) ∧
          ∀ r ∈ (w.archive.load e.id).toOption, r.updated < cutoff))
  | .start _ | .adding _ | .send .. | .carryOn _ | .opening .. | .loading .. | .restoring .. =>
    .isTrue trivial
  | .entering .. | .rename .. | .keeping _ | .saving _ | .stop _ | .decide .. | .delete _ =>
    .isTrue trivial
  | .removing _ | .clear | .prune | .sparing _ | .dropping _ | .listing => .isTrue trivial

instance (k cutoff : Nat) (t : Threads World Errand) :
    (life : Program.Life Errand Say Around) → Decidable (unrevived k cutoff t life)
  | none => .isTrue trivial
  | some (.arrive l _) => inferInstanceAs (Decidable (l ≠ k))
  | some (.thread l say) => inferInstanceAs (Decidable (∀ p ∈ t.threads[l]?,
      (l = k → t.shared.listsLapsed cutoff p) ∧
        (∀ id ∈ begun t.shared p, id ∉ listedBy t k) ∧
          ∀ r ∈ rewritten t.shared p say, r.id ∈ listedBy t k → r.updated < cutoff))
  | some (.environment around) => inferInstanceAs (Decidable
      (∀ r ∈ t.shared.rewritten around, r.id ∈ listedBy t k → r.updated < cutoff))

/-! ## Every interleaving -/

section Runs

variable {c : Config} {t u v : Threads World Errand} {k cutoff : Nat} {id : String} {say : Say}

/-- Where a prune with a cutoff stands: what it has listed has lapsed. -/
def Pruning (cutoff : Nat) (w : World) : Errand → Prop
  | .sparing chosen => chosen = cutoff
  | .expiring chosen _ => chosen = cutoff
  | .dropping ids => ∀ id ∈ ids, Lapsed cutoff w id
  | _ => False

/-- What is listed has lapsed. -/
theorem lapsed_of_expired {w : World} {spared : Option String}
    (hkeyed : Keyed Entry.id w.archive.loaded)
    (hlists : w.listsLapsed cutoff (.expiring cutoff spared))
    (hid : id ∈ Archive.expired w.archive.loaded cutoff fun id => spared = some id) :
    Lapsed cutoff w id := by
  obtain ⟨e, he, rfl⟩ := List.mem_map.mp hid
  obtain ⟨hmem, hexpired⟩ := List.mem_filter.mp he
  simp only [Bool.and_eq_true, decide_eq_true_eq, Bool.not_eq_true', decide_eq_false_iff_not]
    at hexpired
  obtain ⟨hrunning, hfile⟩ := hlists e hmem hexpired.1 hexpired.2
  obtain ⟨key, hkey⟩ := mem_values.mp hmem
  have hsame : e.id = key := hkeyed key e hkey
  refine ⟨fun r hr => hrunning r hr, fun other hother => ?_, fun r hr => ?_⟩
  · rw [hsame, hkey] at hother
    cases hother
    exact hexpired.1
  · exact hfile r (by rw [hr]; rfl)

/-- The prune's own step. -/
theorem Pruning.own {w : World} {p : Errand} (h : Pruning cutoff w p) (hw : Orderly 0 w)
    (hkeyed : Keyed Entry.id w.archive.loaded) (hlists : w.listsLapsed cutoff p)
    {next : World × Option Errand} (hadvance : advance w p say = some next) :
    ∀ q, next.2 = some q → Pruning cutoff next.1 q := by
  cases p with
  | sparing chosen =>
    simp only [advance] at hadvance
    split at hadvance
    · cases hadvance
    · cases hadvance
      rintro q hq
      cases hq
      exact h
  | expiring chosen spared =>
    obtain rfl : chosen = cutoff := h
    simp only [advance] at hadvance
    split at hadvance
    · rename_i n
      rw [Archive.loadIndex_eq] at hadvance
      split at hadvance
      · cases hadvance
        rintro q hq
        cases hq
      · rename_i index _ heq
        split at heq
        · cases heq
        · cases heq
          cases hadvance
          rintro q hq
          cases hq
          intro id hid
          have hlapsed := lapsed_of_expired hkeyed hlists hid
          exact ⟨hlapsed.resting, hlapsed.before.congr rfl rfl⟩
    · cases hadvance
  | dropping ids =>
    cases ids with
    | nil =>
      simp only [advance] at hadvance
      split at hadvance
      · cases hadvance
      · cases hadvance
        rintro q hq
        cases hq
    | cons first rest =>
      have hstep := hadvance
      simp only [advance] at hadvance
      split at hadvance
      · cases hadvance
        rintro q hq
        cases hq
        intro id hid
        apply (h id (List.mem_cons_of_mem first hid)).advance hw hkeyed hstep
        · simp [begun]
        · intro r hr
          cases hr
      · cases hadvance
  | _ => exact h.elim

/-- A prune deletes what is next on its list, and nothing else. -/
theorem Pruning.loses {w : World} {p : Errand} (h : Pruning cutoff w p)
    (hkeyed : Keyed Entry.id w.archive.loaded) {next : World × Option Errand}
    (hadvance : advance w p say = some next) (hloses : w.archive.Loses next.1.archive id) :
    Lapsed cutoff w id := by
  rcases (archive_advance hadvance).eq_of_loses hkeyed hloses with rfl | ⟨rest, rfl⟩
  · exact h.elim
  · exact h id List.mem_cons_self

/-- Another step leaves what the prune has listed lapsed. -/
theorem Pruning.other {w v : World} {q : Errand} (h : Pruning cutoff w q)
    (hlapsed : ∀ id ∈ q.listed, Lapsed cutoff w id → Lapsed cutoff v id) : Pruning cutoff v q := by
  cases q with
  | dropping ids => exact fun id hid => hlapsed id hid (h id hid)
  | _ => exact h

/-- What holds of a prune through its run. -/
structure PruningIn (c : Config) (k cutoff : Nat) (t : Threads World Errand) : Prop where
  reachable : (manager c).Reachable Machine.Always t
  prune : ∀ p, t.threads[k]? = some p → Pruning cutoff t.shared p

theorem listedBy_eq {p : Errand} (hk : t.threads[k]? = some p) : listedBy t k = p.listed := by
  simp [listedBy, hk]

/-- **Step lemma**: what a prune has listed has lapsed after every step that brings nothing back. -/
theorem PruningIn.step (ht : PruningIn c k cutoff t) {life : Program.Life Errand Say Around}
    (hok : unrevived k cutoff t life) (hstep : (manager c).step t life = some u) :
    PruningIn c k cutoff u := by
  refine ⟨.step ht.reachable trivial hstep, ?_⟩
  have hw := ((keeps_anything c).always ht.reachable).shared.orderly
  have hkeyed := keyed_reachable ht.reachable
  cases life with
  | none =>
    cases hstep
    intro p hp
    simp at hp
  | some turn =>
    cases turn with
    | arrive l p =>
      obtain ⟨-, -, rfl⟩ := Program.arrive_step hstep
      intro q hq
      dsimp only at hq
      rw [getElem?_insert_of_ne _ _ hok] at hq
      exact ht.prune q hq
    | thread l say =>
      obtain ⟨p, next, hp, hadvance, rfl⟩ := Program.thread_move hstep
      obtain ⟨hlists, hbegun, hold⟩ := hok p hp
      intro q hq
      rcases Program.getElem?_move hq with ⟨hsame, hnext⟩ | ⟨-, hq⟩
      · subst hsame
        exact (ht.prune p hp).own hw hkeyed (hlists rfl) hadvance q hnext
      · apply (ht.prune q hq).other
        intro id hid hlapsed
        have hlisted : id ∈ listedBy t k := by
          rw [listedBy_eq hq]
          exact hid
        apply hlapsed.advance hw hkeyed hadvance
        · intro hstarts
          exact hbegun id hstarts hlisted
        · rintro r hr rfl
          exact hold r hr hlisted
    | environment around =>
      obtain ⟨shared, henvironment, rfl⟩ := Program.environment_step hstep
      intro q hq
      apply (ht.prune q hq).other
      intro id hid hlapsed
      apply hlapsed.environment hkeyed henvironment
      rintro r hr rfl
      apply hok r hr
      have hk : t.threads[k]? = some q := hq
      rw [listedBy_eq hk]
      exact hid

/-- **Pruning deletes only what has expired**: in every run in which nothing it lists comes back,
    what a prune takes from the archive does not answer, and neither its entry nor its file is as
    new as the cutoff. -/
theorem prune_deletes_lapsed (ht : (manager c).Reachable Machine.Always t)
    (hprune : t.threads[k]? = some (.sparing cutoff))
    {lives : List (Program.Life Errand Say Around)}
    (hok : (manager c).Permitted (unrevived k cutoff) t lives)
    (hrun : (manager c).run t lives = some u)
    (hstep : (manager c).step u (some (.thread k say)) = some v)
    (hloses : u.shared.archive.Loses v.shared.archive id) : Lapsed cutoff u.shared id := by
  have hstart : PruningIn c k cutoff t := by
    refine ⟨ht, fun p hp => ?_⟩
    obtain rfl := Option.some.inj (hprune.symm.trans hp)
    rfl
  have hu : PruningIn c k cutoff u :=
    hok.invariant (PruningIn c k cutoff) (fun _ _ _ hs hok hstep => hs.step hok hstep) hstart hrun
  obtain ⟨p, next, hp, hadvance, rfl⟩ := Program.thread_move hstep
  exact (hu.prune p hp).loses (keyed_reachable hu.reachable) hadvance hloses

end Runs

/-! ## Conversations that come back -/

/-- The conversation is two months old when a prune has its cutoff. -/
def ordersDue : List (Program.Life Errand Say Around) :=
  ordersAnswered ++ [some (.environment (.tick (60 * 24 * 60 * 60)))] ++ called 3 .prune [.go]

/-- The prune lists it. -/
def ordersListed : List (Program.Life Errand Say Around) :=
  [some (.thread 3 .go), some (.thread 3 (.write Archive.whole))]

/-- The person writes in it again. -/
def ordersRevived : List (Program.Life Errand Say Around) :=
  ordersListed ++ called 4 (.send ordersID "again" "again" none) [.go, .go, .go]

/-- The model answers, and the conversation is saved. -/
def ordersResaved : List (Program.Life Errand Say Around) :=
  ordersRevived ++ runs [.go, .go, .service none, .turn (.ok ordersLastTurn), .go, .go, .go, .go,
    .write Archive.whole, .go]

/-- Retention is thirty days. -/
def ordersCutoff : Nat := 1 + 30 * 24 * 60 * 60

/-- After a run of the prune its next step takes the conversation from the archive. -/
structure Pruned (lives : List (Program.Life Errand Say Around)) (u v : Threads World Errand) :
    Prop where
  prune : (ordersAfter ordersDue).threads[3]? = some (.sparing ordersCutoff)
  own : ∀ p, some (.arrive 3 p) ∉ lives
  run : (manager ordersConfig).run (ordersAfter ordersDue) lives = some u
  step : (manager ordersConfig).step u (some (.thread 3 (.write Archive.whole))) = some v
  loses : u.shared.archive.Loses v.shared.archive ordersID

/-- The same, and something of the state it is taken from. -/
def prunes (lives : List (Program.Life Errand Say Around)) (P : World → Bool) : Bool :=
  ((manager ordersConfig).run (ordersAfter ordersDue) lives).any fun u =>
    ((manager ordersConfig).step u (some (.thread 3 (.write Archive.whole)))).any fun v =>
      decide (u.shared.archive.Loses v.shared.archive ordersID) && P u.shared

/-- A run answers it. -/
def ordersAnswers (w : World) : Bool := decide (w.running.map Run.id = some ordersID)

/-- Its record is as new as the cutoff. -/
def ordersRecent (w : World) : Bool :=
  (w.archive.load ordersID).toOption.any fun r => ordersCutoff ≤ r.updated

/-- What the three runs show, each from the same state. -/
theorem prunes_orders :
    (ordersAfter ordersDue).threads[3]? = some (.sparing ordersCutoff) ∧
      (manager ordersConfig).Permitted (unrevived 3 ordersCutoff) (ordersAfter ordersDue)
        ordersListed ∧
      prunes ordersListed (fun _ => true) = true ∧ prunes ordersRevived ordersAnswers = true ∧
      prunes ordersResaved ordersRecent = true := by
  decide +kernel

theorem pruned_of_prunes {lives : List (Program.Life Errand Say Around)} (P : World → Bool)
    (hown : ∀ p, some (.arrive 3 p) ∉ lives) (h : prunes lives P = true) :
    ∃ u v, Pruned lives u v ∧ P u.shared = true := by
  obtain ⟨u, hrun, hu⟩ := Option.any_eq_true _ _ |>.mp h
  obtain ⟨v, hstep, hv⟩ := Option.any_eq_true _ _ |>.mp hu
  rw [Bool.and_eq_true, decide_eq_true_eq] at hv
  exact ⟨u, v, ⟨prunes_orders.1, hown, hrun, hstep, hv.1⟩, hv.2⟩

theorem ordersListed_own (p : Errand) : some (.arrive 3 p) ∉ ordersListed := by
  simp [ordersListed]

theorem ordersRevived_own (p : Errand) : some (.arrive 3 p) ∉ ordersRevived := by
  simp [ordersRevived, ordersListed_own, called]

theorem ordersResaved_own (p : Errand) : some (.arrive 3 p) ∉ ordersResaved := by
  simp [ordersResaved, ordersRevived_own, runs]

/-- A conversation that stays two months old is pruned. -/
theorem prune_deletes_lapsed_orders :
    ∃ u v, Pruned ordersListed u v ∧ Lapsed ordersCutoff u.shared ordersID := by
  obtain ⟨-, hok, hlisted, -, -⟩ := prunes_orders
  obtain ⟨u, v, h, -⟩ := pruned_of_prunes (fun _ => true) ordersListed_own hlisted
  exact ⟨u, v, h, prune_deletes_lapsed (ordersAfter_reachable ordersDue) h.prune hok h.run h.step
    h.loses⟩

/-- **A conversation that came back is deleted**, while it answers, and once it was saved. -/
theorem revived_deleted :
    (manager ordersConfig).Reachable Machine.Always (ordersAfter ordersDue) ∧
      (∃ u v, Pruned ordersRevived u v ∧ ordersAnswers u.shared = true) ∧
      ∃ u v, Pruned ordersResaved u v ∧ ordersRecent u.shared = true := by
  obtain ⟨-, -, -, hrevived, hresaved⟩ := prunes_orders
  refine ⟨ordersAfter_reachable ordersDue, ?_, ?_⟩
  · exact pruned_of_prunes ordersAnswers ordersRevived_own hrevived
  · exact pruned_of_prunes ordersRecent ordersResaved_own hresaved

end MqStudio.Assistant
