import MqStudio.Assistant.Answers
import MqStudio.Lib.LastWrite

/-!
# Conversations That Are Kept

A conversation is written to disk as it was when its record was taken: by `Rename`, where no run
is going on it, and at the end of a run. Both write without the manager's lock, and the archive
refuses a record older than the one it holds. What is in memory then is what was written last,
unless it changed between a run's taking its record and the run's end, where `Rename` leaves the
writing to the run.

## Main definitions

- `Shown`: a record says what the window shows.
- `lasting`: the condition on the runs: retention stays on, nothing fails to be written, nothing is
  deleted, and no other title is given while a run writes its record.
- `Lasting`: what holds between steps.

## Main results

- `kept_as_shown`: in every interleaving of such steps, over every process, what is kept of a
  conversation that nobody works on is what the window shows.
- `title_lost`: a title that is given while a run writes its record is not kept.
-/

namespace MqStudio.Assistant

open MqStudio.Lib
open MqStudio.Lib.LastWrite
open MqStudio.Lib.TreeMap

/-! ## Archives whose writes all happen -/

namespace Archive

/-- The index, in memory and on disk, shows of each conversation what its file says, and of when. -/
structure Exact (a : Archive) : Prop where
  filed : a.Filed
  loaded : ∀ id : String, a.loaded[id]? = entryOf a.files id
  onDisk : ∀ id : String, a.onDisk[id]? = entryOf a.files id

section Operations

variable {a : Archive} {r : Record} {n : Nat}

theorem Exact.keyed (h : a.Exact) : Keyed Entry.id a.loaded := by
  intro id e he
  rw [h.loaded] at he
  obtain ⟨r, hload, rfl⟩ := entryOf_eq_some_iff.mp he
  exact h.filed id r hload

theorem Exact.opened (h : a.Exact) : a.opened.Exact where
  filed := h.filed
  loaded := h.loaded
  onDisk id := by
    rw [onDisk_opened h.keyed]
    split
    · exact h.loaded id
    · exact h.onDisk id

theorem Exact.loadIndex (h : a.Exact) (n : Nat) : (a.loadIndex n).1.Exact := by
  rw [loadIndex_eq]
  split
  · exact h
  · exact h.opened

theorem Exact.list (h : a.Exact) (n : Nat) : (a.list n).1.Exact := by
  rw [list_fst]
  exact h.loadIndex n

theorem Exact.reopen (h : a.Exact) : a.reopen.Exact := ⟨h.filed, h.onDisk, h.onDisk⟩

/-- A conversation is saved, and the index written. -/
theorem Exact.written (h : a.Exact) (hid : isArchivedID r.id = true) :
    (a.written r).indexed.Exact := by
  have hinserted : ∀ id : String,
      (a.loaded.insert r.id r.entry)[id]? = entryOf (a.written r).indexed.files id := by
    intro id
    have hentry : entryOf (a.written r).indexed.files id =
        if r.id = id then some r.entry else entryOf a.files id := entryOf_insert hid id
    rw [hentry, getElem?_insert_ite]
    split
    · rfl
    · exact h.loaded id
  refine ⟨h.filed.written hid, hinserted, fun id => ?_⟩
  have hdisk : (a.written r).indexed.onDisk = a.loaded.insert r.id r.entry :=
    onDisk_indexed (h.keyed.insert r.entry)
  rw [hdisk]
  exact hinserted id

/-- **Save**, of which every file operation happens. -/
theorem save_whole (hn : whole ≤ n) :
    (a.save r n).1 =
      if isArchivedID r.id = false then a
      else if a.superseded r = true then a.opened
      else (a.written r).indexed := by
  have hopening : a.opening ≤ 1 := a.opening_le
  have hwhole : 3 ≤ n := hn
  rw [save_eq]
  have hfew : ¬ n < a.opening := by omega
  have hopens : n ≠ a.opening := by omega
  have hwrites : n ≠ a.opening + 1 := by omega
  simp only [hfew, hopens, hwrites, or_false, if_false]

theorem Exact.save (h : a.Exact) (r : Record) (hn : whole ≤ n) : (a.save r n).1.Exact := by
  rw [save_whole hn]
  split
  · exact h
  · rename_i hid
    split
    · exact h.opened
    · exact h.written (by simpa using hid)

/-- **What is read back after a save**: a later record that was there, or the one that was saved. -/
theorem Exact.load_save (h : a.Exact) (hid : isArchivedID r.id = true) (hn : whole ≤ n) :
    ((∃ later, a.load r.id = .ok later ∧ r.seq < later.seq) ∧
      ∀ id, (a.save r n).1.load id = a.load id) ∨
    ((∀ old, a.load r.id = .ok old → old.seq ≤ r.seq) ∧
      (a.save r n).1.load r.id = .ok { r with version := archiveVersion } ∧
      ∀ id, id ≠ r.id → (a.save r n).1.load id = a.load id) := by
  rw [save_whole hn, if_neg (by simp [hid])]
  by_cases hlater : a.superseded r = true
  · left
    rw [if_pos hlater]
    refine ⟨?_, fun id => rfl⟩
    unfold superseded at hlater
    rw [h.loaded] at hlater
    obtain ⟨e, he, hseq⟩ := Option.any_eq_true _ _ |>.mp hlater
    obtain ⟨later, hload, rfl⟩ := entryOf_eq_some_iff.mp he
    exact ⟨later, hload, of_decide_eq_true hseq⟩
  · right
    rw [if_neg hlater]
    refine ⟨fun old hold => ?_, ?_, fun id hne => ?_⟩
    · have hentry : entryOf a.files r.id = some old.entry :=
        entryOf_eq_some_iff.mpr ⟨old, hold, rfl⟩
      unfold superseded at hlater
      rw [h.loaded, hentry] at hlater
      simpa [Record.entry] using hlater
    · simp [load, loadFrom, hid, indexed, Archive.written, readSealed]
    · rw [load, loadFrom, load, loadFrom]
      have hfile : (a.written r).indexed.files[id]? = a.files[id]? :=
        getElem?_insert_of_ne _ _ (Ne.symm hne)
      rw [hfile]

end Operations

end Archive

/-! ## What a run leaves of a conversation -/

/-- A conversation goes on: its events are counted on, and what was said in it is not taken back. -/
structure GoesOn (s t : Session) : Prop where
  seq : s.seq ≤ t.seq
  items : s.items ≠ [] → t.items ≠ []

section Going

variable {c : Config} {e : Surroundings} {s t u : Session} {r : Run} {choice : Choice}

theorem GoesOn.refl (s : Session) : GoesOn s s := ⟨le_rfl, fun h => h⟩

theorem GoesOn.trans (h : GoesOn s t) (h' : GoesOn t u) : GoesOn s u :=
  ⟨h.seq.trans h'.seq, fun hitems => h'.items (h.items hitems)⟩

theorem goesOn_add (s : Session) (item : Item) : GoesOn s (s.add item) :=
  ⟨Nat.le_succ _, fun _ => by simp [Session.add, Session.emit]⟩

theorem goesOn_change (s : Session) (id : Nat) (f : Item → Item) : GoesOn s (s.change id f) := by
  unfold Session.change
  split
  · exact .refl s
  · rename_i items item hchange
    obtain ⟨before, x, after, -, -, -, rfl, -⟩ := Updates.changeLast_eq_some hchange
    exact ⟨Nat.le_succ _, fun _ => by simp [Session.emit]⟩

theorem goesOn_append (s : Session) (id : Nat) (text : String) : GoesOn s (s.append id text) := by
  unfold Session.append
  split
  · exact .refl s
  · rename_i items item hchange
    obtain ⟨before, x, after, -, -, -, rfl, -⟩ := Updates.changeLast_eq_some hchange
    exact ⟨Nat.le_succ _, fun _ => by simp [Session.emit]⟩

theorem goesOn_send (s : Session) (opened : Option (Nat × ItemKind)) (piece : Delta) :
    GoesOn s (Stream.send s opened piece).1 := by
  unfold Stream.send
  split
  · split
    · exact goesOn_append s _ _
    · exact goesOn_add s _
  · exact goesOn_add s _

theorem goesOn_sendAll (s : Session) (opened : Option (Nat × ItemKind)) (pieces : List Delta) :
    GoesOn s (Stream.sendAll s opened pieces).1 := by
  induction pieces generalizing s opened with
  | nil => exact .refl s
  | cons piece rest ih => exact (goesOn_send s opened piece).trans (ih _ _)

theorem goesOn_ended (s : Session) (now : Nat) (ending : Option Ending) :
    GoesOn s (ended s now ending) := by
  cases ending with
  | none => exact ⟨le_rfl, fun h => h⟩
  | some ended =>
    have hadded := goesOn_add s (.noticed ended.notice ended.detail ended.reason)
    exact ⟨hadded.seq, hadded.items⟩

theorem goesOn_ready {chosen : Provider} {queue : List String} {failed : Option Failure}
    {next : Position} (h : ready s r chosen queue failed = some (t, next)) : GoesOn s t := by
  unfold ready at h
  split at h
  · dsimp only at h
    split at h <;> (cases h; exact ⟨le_rfl, fun h => h⟩)
  · split at h
    · split at h <;> (cases h; exact ⟨le_rfl, fun h => h⟩)
    · dsimp only at h
      split at h
      · split at h
        · cases h
        · cases h
          exact ⟨le_rfl, fun h => h⟩
      · split at h <;> (cases h; exact ⟨le_rfl, fun h => h⟩)

theorem CallMove.goesOn {call : ToolCall} {item : Nat} {stage next : Stage} {counter : Nat}
    {happened : List Happening}
    (h : CallMove c e s r call item choice stage t next counter happened) : GoesOn s t := by
  cases h with
  | connects | remembers | considers | marks => exact goesOn_change s item _
  | poses w agreed ask =>
    have hasked : GoesOn s { s with asks := item :: s.asks } := ⟨le_rfl, fun h => h⟩
    exact hasked.trans (goesOn_change _ item _)
  | _ => exact ⟨le_rfl, fun h => h⟩

/-- **Every step of a run** lets its conversation go on. -/
theorem Move.goesOn {m : Moved} (h : Move c e s r choice m) : GoesOn s m.session := by
  cases h with
  | builds chosen queue failed t next hposition hchoice hready => exact goesOn_ready hready
  | flushes out | flushesLate out | closesFailed out | closes out => exact goesOn_sendAll s _ _
  | skips | passes | calls => exact goesOn_add s _
  | works b call item stage next t counter happened hposition hmove => exact hmove.goesOn
  | finishes => exact goesOn_change s _ _
  | ends ending => exact goesOn_ended s _ ending
  | _ => exact ⟨le_rfl, fun h => h⟩

end Going

/-! ## Records on their way -/

/-- The record a `Rename` is to write. -/
def Errand.due : Errand → Option Record
  | .keeping kept | .saving kept => some kept
  | _ => none

/-- **What is kept is what the window shows**, of its title, what was said, the model and what it
    cost. -/
structure Shown (kept : Record) (s : Session) : Prop where
  title : kept.title = s.title
  items : kept.items = s.items
  model : kept.model = s.model
  usage : kept.usage = s.usage

/-- The records there are of a conversation: the one that is read back, and those on their way to
    the archive. -/
def Versions (w : World) (due : Record → Prop) (id : String) (kept : Record) : Prop :=
  w.archive.load id = .ok kept ∨ due kept ∧ kept.id = id

/-- The run has taken its record, and does not change the conversation any more. -/
def Position.late : Position → Bool
  | .keeping _ | .saving _ | .closing => true
  | _ => false

/-- Where the run on a conversation stands. -/
def World.positionOf (w : World) (id : String) : Option Position :=
  (w.running.filter fun r => r.id = id).map Run.position

/-- **How the records there are stand to the conversation in memory**: the last of them is what it
    says, but while a run is going they are all older than the record it is to take. -/
def Standing (versions : Record → Prop) (s : Session) : Option Position → Prop
  | none =>
    (∀ one, versions one → one.seq ≤ s.seq ∧ s.items ≠ []) ∧
      (s.items ≠ [] → Latest Record.seq (Shown · s) versions)
  | some (.keeping kept) | some (.saving kept) =>
    s.items ≠ [] ∧ Shown kept s ∧ kept.seq ≤ s.seq ∧ ∀ one, versions one → one.seq < kept.seq
  | some .closing =>
    s.items ≠ [] ∧ (∀ one, versions one → one.seq ≤ s.seq) ∧ Latest Record.seq (Shown · s) versions
  | some _ => s.items ≠ [] ∧ ∀ one, versions one → one.seq < s.seq

/-! ## Runs that keep what they show -/

/-- Retention is on, and the settings can be read. -/
def World.retains (w : World) : Bool := w.settings.any fun settings => settings.retention ≠ 0

/-- Every file operation of the step happens. -/
def Say.whole : Say → Bool
  | .write n => Archive.whole ≤ n
  | _ => true

/-- Every file operation of the step happens. -/
def Choice.whole : Choice → Bool
  | .write n => Archive.whole ≤ n
  | _ => true

/-- The step is one of a deletion. -/
def Errand.forgets : Errand → Bool
  | .delete _ | .clear | .removing _ => true
  | .dropping ids => !ids.isEmpty
  | _ => false

/-- The settings are read, for what to do with a record. -/
def Errand.reads : Errand → Bool
  | .keeping _ => true
  | _ => false

/-- The same of a run. -/
def Position.reads : Position → Bool
  | .keeping _ => true
  | _ => false

/-- **No other title is given** to a conversation whose run has taken its record and not ended. -/
def World.timely (w : World) : Errand → Bool
  | .entering id address (.rename title) =>
    (w.held id address).all fun s =>
      s.title = title || !(w.positionOf s.id).any Position.late
  | _ => true

/-- **The runs the promise is about**: retention stays on, no write fails and nothing is deleted; and
    no other title is given while a run writes its record. -/
def lasting : Program.Condition World Errand Say Around where
  thread w p say :=
    (p.forgets = false ∧ say.whole = true ∧ (p.reads = true → w.retains = true)) ∧
      w.timely p = true
  beside _ _ _ _ := True
  environment w
    | .run choice =>
      choice.whole = true ∧ ∀ r ∈ w.running, r.position.reads = true → w.retains = true
    | _ => True

instance (w : World) (p : Errand) (say : Say) : Decidable (lasting.thread w p say) :=
  inferInstanceAs (Decidable
    ((p.forgets = false ∧ say.whole = true ∧ (p.reads = true → w.retains = true)) ∧
      w.timely p = true))

instance (w : World) (p : Errand) (say : Say) (q : Errand) :
    Decidable (lasting.beside w p say q) := .isTrue trivial

instance (w : World) : (around : Around) → Decidable (lasting.environment w around)
  | .run choice => inferInstanceAs (Decidable
      (choice.whole = true ∧ ∀ r ∈ w.running, r.position.reads = true → w.retains = true))
  | .settings _ | .connections _ | .tick _ | .line _ => .isTrue trivial

/-- **What holds between steps**: every write is whole, a record that is on its way is of a
    conversation that is held, and the records stand to the conversations as they should. -/
structure Lasting (w : World) (due : Record → Prop) : Prop where
  exact : w.archive.Exact
  spoken : ∀ (id : String) (kept : Record), w.archive.load id = .ok kept → kept.items ≠ []
  named : ∀ (id : String) (s : Session), w.sessions[id]? = some s → isArchivedID id = true
  pending : ∀ kept, due kept → kept.items ≠ [] ∧ ∃ s, w.sessions[kept.id]? = some s
  standing : ∀ (id : String) (s : Session), w.sessions[id]? = some s →
    Standing (Versions w due id) s (w.positionOf id)

section Standing

variable {w v : World} {due due' versions versions' : Record → Prop} {s t : Session}
  {position : Option Position} {id : String}

/-- A record says the same whatever version of the application wrote it. -/
theorem Shown.version {kept : Record} (h : Shown kept s) (version : Nat) :
    Shown { kept with version := version } s :=
  ⟨h.title, h.items, h.model, h.usage⟩

theorem shown_record (s : Session) : Shown s.record s := ⟨rfl, rfl, rfl, rfl⟩

/-- **Records settle**: each that is left was there, and each that is gone is no later than one that
    is left. -/
theorem Standing.settle (h : Standing versions s position)
    (hleft : ∀ one, versions' one → ∃ old version, versions old ∧
      one = { old with version := version })
    (hgone : ∀ old, versions old → ∃ one, versions' one ∧ old.seq ≤ one.seq) :
    Standing versions' s position := by
  have hlatest : Latest Record.seq (Shown · s) versions →
      Latest Record.seq (Shown · s) versions' := by
    intro hlast
    refine hlast.settle (fun one hone => ?_) hgone
    obtain ⟨old, version, hold, rfl⟩ := hleft one hone
    exact ⟨old, hold, rfl, fun hshown => hshown.version version⟩
  have hstamps : ∀ P : Nat → Prop, (∀ one, versions one → P one.seq) →
      ∀ one, versions' one → P one.seq := by
    intro _ hall one hone
    obtain ⟨old, version, hold, rfl⟩ := hleft one hone
    exact hall old hold
  cases position with
  | none =>
    have hall := hstamps (fun seq => seq ≤ s.seq ∧ s.items ≠ []) h.1
    exact ⟨hall, fun hitems => hlatest (h.2 hitems)⟩
  | some position =>
    cases position with
    | keeping kept | saving kept =>
      obtain ⟨hitems, hshown, hseq, hall⟩ := h
      exact ⟨hitems, hshown, hseq, hstamps (· < kept.seq) hall⟩
    | closing =>
      obtain ⟨hitems, hall, hlast⟩ := h
      exact ⟨hitems, hstamps (· ≤ s.seq) hall, hlatest hlast⟩
    | _ => exact ⟨h.1, hstamps (· < s.seq) h.2⟩

/-- The same records, said in other words. -/
theorem Standing.congr (h : Standing versions s position)
    (hsame : ∀ one, versions' one ↔ versions one) : Standing versions' s position :=
  h.settle (fun one hone => ⟨one, one.version, (hsame one).mp hone, rfl⟩)
    fun old hold => ⟨old, (hsame old).mpr hold, le_rfl⟩

/-- What the window shows of a conversation is the same, and its events are counted on. -/
structure SameShown (s t : Session) : Prop where
  seq : s.seq ≤ t.seq
  title : t.title = s.title
  items : t.items = s.items
  model : t.model = s.model
  usage : t.usage = s.usage

theorem Shown.same {kept : Record} (h : Shown kept s) (hsame : SameShown s t) : Shown kept t :=
  ⟨h.title.trans hsame.title.symm, h.items.trans hsame.items.symm, h.model.trans hsame.model.symm,
    h.usage.trans hsame.usage.symm⟩

/-- Records stand to a conversation as they do to one that shows the same. -/
theorem Standing.same (h : Standing versions s position) (hsame : SameShown s t) :
    Standing versions t position := by
  have hlatest : Latest Record.seq (Shown · s) versions →
      Latest Record.seq (Shown · t) versions := by
    intro hlast
    exact hlast.congr fun _ _ hshown => hshown.same hsame
  have hitems : s.items ≠ [] ↔ t.items ≠ [] := by rw [hsame.items]
  cases position with
  | none =>
    refine ⟨fun one hone => ?_, fun hspoken => hlatest (h.2 (hitems.mpr hspoken))⟩
    exact ⟨(h.1 one hone).1.trans hsame.seq, hitems.mp (h.1 one hone).2⟩
  | some position =>
    cases position with
    | keeping kept | saving kept =>
      obtain ⟨hspoken, hshown, hseq, hall⟩ := h
      exact ⟨hitems.mp hspoken, hshown.same hsame, hseq.trans hsame.seq, hall⟩
    | closing =>
      obtain ⟨hspoken, hall, hlast⟩ := h
      exact ⟨hitems.mp hspoken, fun one hone => (hall one hone).trans hsame.seq, hlatest hlast⟩
    | _ => exact ⟨hitems.mp h.1, fun one hone => (h.2 one hone).trans_le hsame.seq⟩

/-- While a run has not taken its record, every record is older than the conversation. -/
theorem standing_early {position : Position} (hearly : position.late = false) :
    Standing versions s (some position) ↔
      s.items ≠ [] ∧ ∀ one, versions one → one.seq < s.seq := by
  cases position with
  | keeping | saving | closing => cases hearly
  | _ => rfl

/-- A conversation at rest is answered. -/
theorem Standing.start (h : Standing versions s none) (hseq : s.seq < t.seq)
    (hitems : t.items ≠ []) : Standing versions t (some .began) :=
  ⟨hitems, fun one hone => (h.1 one hone).1.trans_lt hseq⟩

/-- A run goes on, and takes its record when it ends. -/
theorem Standing.move {c : Config} {e : Surroundings} {r : Run} {choice : Choice} {m : Moved}
    (h : Standing versions s (some r.position)) (hmove : Move c e s r choice m) :
    Standing versions m.session (some m.run.position) := by
  have hearly : r.position.late = false := by
    cases hmove with
    | unreadable | removed | prepares | takes | builds | hears | flushes | fails | answers
    | flushesLate | closesFailed | closes | counts | skips | skipped | settles | passes | calls
    | works | finishes | blames | ends => simp_all [Position.late]
  obtain ⟨hitems, hall⟩ := (standing_early hearly).mp h
  have hon := hmove.goesOn
  have hbelow : ∀ one, versions one → one.seq < m.session.seq :=
    fun one hone => (hall one hone).trans_le hon.seq
  cases hposition : m.run.position with
  | keeping kept | saving kept =>
    obtain rfl : kept = m.session.record := hmove.record (by rw [hposition]; rfl)
    exact ⟨hon.items hitems, shown_record _, le_rfl, hbelow⟩
  | closing =>
    exfalso
    cases hmove with
    | builds chosen queue failed t next _ _ hready =>
      change next = .closing at hposition
      unfold ready at hready
      repeat' split at hready
      all_goals
        first
        | cases hready
          cases hposition
        | cases hready
    | counts turn =>
      change afterTurn turn = .closing at hposition
      unfold afterTurn at hposition
      repeat' split at hposition
      all_goals cases hposition
    | settles b next _ _ hnext => rcases hnext with ⟨ended, rfl⟩ | rfl <;> cases hposition
    | _ => cases hposition
  | _ => exact ⟨hon.items hitems, hbelow⟩

/-- The record a run took is written: it is the last there is. -/
theorem Standing.save {kept : Record} (h : Standing versions s (some (.saving kept)))
    (hwritten : versions' { kept with version := archiveVersion })
    (hothers : ∀ one, versions' one →
      one = { kept with version := archiveVersion } ∨ versions one) :
    Standing versions' s (some .closing) := by
  obtain ⟨hitems, hshown, hseq, hall⟩ := h
  refine ⟨hitems, fun one hone => ?_, Latest.push hwritten (hshown.version _) fun one hone => ?_⟩
  · rcases hothers one hone with rfl | hold
    · exact hseq
    · exact (hall one hold).le.trans hseq
  · rcases hothers one hone with rfl | hold
    · exact .inl rfl
    · exact .inr (hall one hold)

/-- A run ends. -/
theorem Standing.ends (h : Standing versions s (some .closing)) :
    Standing versions s.ends none := by
  obtain ⟨hitems, hall, hlast⟩ := h
  refine ⟨fun one hone => ⟨(hall one hone).trans (Nat.le_succ _), hitems⟩, fun _ => ?_⟩
  exact hlast.congr fun _ _ hshown => hshown.same ⟨Nat.le_succ _, rfl, rfl, rfl, rfl⟩

/-- A title is given to a conversation at rest, and its record is on its way. -/
theorem Standing.renamed (h : Standing versions s none) (title : String) (hitems : s.items ≠ [])
    (htaken : versions' (s.renamed title).record)
    (hothers : ∀ one, versions' one → one = (s.renamed title).record ∨ versions one) :
    Standing versions' (s.renamed title) none := by
  have hbelow : ∀ one, versions one → one.seq < (s.renamed title).seq :=
    fun one hone => Nat.lt_succ_of_le (h.1 one hone).1
  refine ⟨fun one hone => ⟨?_, hitems⟩, fun _ => Latest.push htaken (shown_record _) ?_⟩
  · rcases hothers one hone with rfl | hold
    · exact le_rfl
    · exact (hbelow one hold).le
  · intro one hone
    rcases hothers one hone with rfl | hold
    · exact .inl rfl
    · exact .inr (hbelow one hold)

/-- One that nothing was said in has no record. -/
theorem Standing.untold (h : Standing versions s none) (hitems : s.items = []) (ht : t.items = []) :
    Standing versions t none :=
  ⟨fun one hone => absurd hitems (h.1 one hone).2, fun hspoken => absurd ht hspoken⟩

end Standing

/-! ## What a step leaves -/

/-- The records on their way, of the other calls and of one. -/
def beside (others : Record → Prop) (p : Option Errand) (kept : Record) : Prop :=
  others kept ∨ ∃ q, p = some q ∧ q.due = some kept

/-- A record that was read back is held as it was read, unless the conversation is held by now. -/
def ReadBack (w : World) (p : Errand) : Prop :=
  ∀ kept purpose, p = .restoring kept purpose → w.sessions[kept.id]? = none →
    w.archive.load kept.id = .ok kept

/-- A conversation that is not held was not held before, and nothing was written of it. -/
def Steady (w v : World) : Prop :=
  ∀ id : String, v.sessions[id]? = none →
    w.sessions[id]? = none ∧ v.archive.load id = w.archive.load id

theorem Steady.readBack {w v : World} (h : Steady w v) {p : Errand} (hp : ReadBack w p) :
    ReadBack v p := by
  intro kept purpose hrestoring hnone
  obtain ⟨hbefore, hload⟩ := h kept.id hnone
  rw [hload]
  exact hp kept purpose hrestoring hbefore

section Frames

variable {w v : World} {due due' : Record → Prop} {s t : Session} {id : String}

/-- The records on their way may be said in other words. -/
theorem Lasting.congr (h : Lasting w due) (hsame : ∀ kept, due' kept ↔ due kept) :
    Lasting w due' := by
  obtain rfl : due' = due := funext fun kept => propext (hsame kept)
  exact h

/-- **One conversation changes**, and the run on it. -/
theorem Lasting.change (h : Lasting w due) (hs : w.sessions[id]? = some s) (hid : t.id = id)
    (hsessions : v.sessions = (w.put t).sessions) (harchive : v.archive = w.archive)
    (hposition : ∀ other, other ≠ id → v.positionOf other = w.positionOf other)
    (hdue : ∀ kept, due' kept → due kept ∨ kept.id = id ∧ kept.items ≠ [])
    (hstill : ∀ kept, due kept → kept.id ≠ id → due' kept)
    (hstanding : Standing (Versions v due' id) t (v.positionOf id)) :
    Lasting v due' ∧ Steady w v := by
  have hlookup : ∀ (other : String) (u : Session), v.sessions[other]? = some u ↔
      (other = id ∧ u = t) ∨ (other ≠ id ∧ w.sessions[other]? = some u) := by
    intro other u
    rw [hsessions]
    exact getElem?_put hs hid
  have hheld : ∀ other : String, (∃ u, w.sessions[other]? = some u) →
      ∃ u, v.sessions[other]? = some u := by
    rintro other ⟨u, hu⟩
    by_cases hother : other = id
    · exact ⟨t, (hlookup other t).mpr (.inl ⟨hother, rfl⟩)⟩
    · exact ⟨u, (hlookup other u).mpr (.inr ⟨hother, hu⟩)⟩
  refine ⟨⟨harchive ▸ h.exact, ?_, fun other u hu => ?_, fun kept hkept => ?_,
    fun other u hu => ?_⟩, fun other hnone => ?_⟩
  · rw [harchive]
    exact h.spoken
  · rcases (hlookup other u).mp hu with ⟨rfl, -⟩ | ⟨-, hold⟩
    · exact h.named other s hs
    · exact h.named other u hold
  · rcases hdue kept hkept with hold | ⟨hkeptID, hitems⟩
    · exact ⟨(h.pending kept hold).1, hheld kept.id (h.pending kept hold).2⟩
    · exact ⟨hitems, hheld kept.id ⟨s, hkeptID ▸ hs⟩⟩
  · rcases (hlookup other u).mp hu with ⟨rfl, rfl⟩ | ⟨hne, hold⟩
    · exact hstanding
    · rw [hposition other hne]
      apply (h.standing other u hold).congr
      intro one
      unfold Versions
      rw [harchive]
      refine or_congr Iff.rfl ⟨?_, ?_⟩
      · rintro ⟨hone, rfl⟩
        exact ⟨(hdue one hone).resolve_right fun hhere => hne hhere.1, rfl⟩
      · rintro ⟨hone, rfl⟩
        exact ⟨hstill one hone hne, rfl⟩
  · refine ⟨?_, by rw [harchive]⟩
    cases hbefore : w.sessions[other]? with
    | none => rfl
    | some u =>
      obtain ⟨u', hu'⟩ := hheld other ⟨u, hbefore⟩
      rw [hnone] at hu'
      cases hu'

/-- **A record is saved** that was on its way. -/
theorem Lasting.save (h : Lasting w due) {kept : Record} (hkept : due kept) {n : Nat}
    (hn : Archive.whole ≤ n) (hleft : ∀ one, due' one → due one)
    (hgone : ∀ one, due one → one = kept ∨ due' one) :
    Lasting { w with archive := (w.archive.save kept n).1 } due' ∧
      Steady w { w with archive := (w.archive.save kept n).1 } := by
  obtain ⟨hitems, s, hs⟩ := h.pending kept hkept
  have hid := h.named kept.id s hs
  have hload := h.exact.load_save hid hn
  have helse : ∀ id : String, id ≠ kept.id → (w.archive.save kept n).1.load id = w.archive.load id := by
    intro id hne
    rcases hload with ⟨-, hall⟩ | ⟨-, -, hothers⟩
    · exact hall id
    · exact hothers id hne
  refine ⟨⟨h.exact.save kept hn, fun id read hread => ?_, h.named,
    fun one hone => h.pending one (hleft one hone), fun id u hu => ?_⟩, fun id hnone => ?_⟩
  · rcases hload with ⟨-, hall⟩ | ⟨-, hhere, hothers⟩
    · exact h.spoken id read ((hall id).symm.trans hread)
    · by_cases hsame : id = kept.id
      · subst hsame
        obtain rfl := Except.ok.inj (hhere.symm.trans hread)
        exact hitems
      · exact h.spoken id read ((hothers id hsame).symm.trans hread)
  · have hstanding : Standing (Versions w due id) u (w.positionOf id) := h.standing id u hu
    refine hstanding.settle (fun one hone => ?_) fun old hold => ?_
    · rcases hone with hread | ⟨hdue, hsame⟩
      · change (w.archive.save kept n).1.load id = .ok one at hread
        by_cases hsame : id = kept.id
        · rcases hload with ⟨-, hall⟩ | ⟨-, hhere, -⟩
          · exact ⟨one, one.version, .inl ((hall id).symm.trans hread), rfl⟩
          · subst hsame
            obtain rfl := Except.ok.inj (hhere.symm.trans hread)
            exact ⟨kept, archiveVersion, .inr ⟨hkept, rfl⟩, rfl⟩
        · exact ⟨one, one.version, .inl ((helse id hsame).symm.trans hread), rfl⟩
      · exact ⟨one, one.version, .inr ⟨hleft one hdue, hsame⟩, rfl⟩
    · rcases hold with hread | ⟨hdue, hsame⟩
      · by_cases hhere : id = kept.id
        · rcases hload with ⟨-, hall⟩ | ⟨hearlier, hwritten, -⟩
          · exact ⟨old, .inl ((hall id).trans hread), le_rfl⟩
          · subst hhere
            exact ⟨_, .inl hwritten, hearlier old hread⟩
        · exact ⟨old, .inl ((helse id hhere).trans hread), le_rfl⟩
      · rcases hgone old hdue with rfl | hstill
        · subst hsame
          rcases hload with ⟨⟨later, hlater, hseq⟩, hall⟩ | ⟨-, hwritten, -⟩
          · exact ⟨later, .inl ((hall _).trans hlater), hseq.le⟩
          · exact ⟨_, .inl hwritten, le_rfl⟩
        · exact ⟨old, .inr ⟨hstill, hsame⟩, le_rfl⟩
  · have hne : id ≠ kept.id := by
      rintro rfl
      rw [hs] at hnone
      cases hnone
    exact ⟨hnone, helse id hne⟩

/-- **A conversation is held** that was not. -/
theorem Lasting.insert (h : Lasting w due) (hs : w.sessions[s.id]? = none)
    (hid : isArchivedID s.id = true) (hsessions : v.sessions = w.sessions.insert s.id s)
    (harchive : v.archive = w.archive) (hrunning : v.running = w.running)
    (hstanding : Standing (Versions w due s.id) s (w.positionOf s.id)) :
    Lasting v due ∧ Steady w v := by
  have hlookup : ∀ (other : String) (u : Session), v.sessions[other]? = some u →
      other = s.id ∧ u = s ∨ other ≠ s.id ∧ w.sessions[other]? = some u := by
    intro other u hu
    rw [hsessions] at hu
    by_cases hother : other = s.id
    · subst hother
      simp only [Std.ExtTreeMap.getElem?_insert_self, Option.some.injEq] at hu
      exact .inl ⟨rfl, hu.symm⟩
    · rw [getElem?_insert_of_ne _ _ (Ne.symm hother)] at hu
      exact .inr ⟨hother, hu⟩
  have hversions : Versions v due = Versions w due := by
    funext other one
    rw [Versions, Versions, harchive]
  have hposition : v.positionOf = w.positionOf := by
    funext other
    rw [World.positionOf, World.positionOf, hrunning]
  refine ⟨⟨harchive ▸ h.exact, ?_, fun other u hu => ?_, fun kept hkept => ?_,
    fun other u hu => ?_⟩, fun other hnone => ?_⟩
  · rw [harchive]
    exact h.spoken
  · rcases hlookup other u hu with ⟨rfl, -⟩ | ⟨-, hold⟩
    · exact hid
    · exact h.named other u hold
  · obtain ⟨hitems, u, hu⟩ := h.pending kept hkept
    refine ⟨hitems, u, ?_⟩
    have hne : s.id ≠ kept.id := by
      intro hsame
      rw [← hsame, hs] at hu
      cases hu
    rw [hsessions, getElem?_insert_of_ne _ _ hne]
    exact hu
  · rw [hversions, hposition]
    rcases hlookup other u hu with ⟨rfl, rfl⟩ | ⟨-, hold⟩
    · exact hstanding
    · exact h.standing other u hold
  · refine ⟨?_, by rw [harchive]⟩
    by_cases hother : s.id = other
    · exact hother ▸ hs
    · rw [hsessions, getElem?_insert_of_ne _ _ hother] at hnone
      exact hnone

/-- The archive opens its index. -/
theorem Lasting.archive (h : Lasting w due) {archive : Archive} (hexact : archive.Exact)
    (hload : ∀ id, archive.load id = w.archive.load id) :
    Lasting { w with archive := archive } due ∧ Steady w { w with archive := archive } := by
  have hversions : ∀ id : String,
      Versions { w with archive := archive } due id = Versions w due id := by
    intro id
    funext one
    simp only [Versions, hload]
  refine ⟨⟨hexact, fun id kept hkept => h.spoken id kept ((hload id).symm.trans hkept), h.named,
    h.pending, fun id s hs => ?_⟩, fun id hnone => ⟨hnone, hload id⟩⟩
  rw [hversions]
  exact h.standing id s hs

/-- What else the calls share may change. -/
theorem Lasting.elsewhere (h : Lasting w due) (hsessions : v.sessions = w.sessions)
    (harchive : v.archive = w.archive) (hposition : v.positionOf = w.positionOf) :
    Lasting v due ∧ Steady w v := by
  have hversions : Versions v due = Versions w due := by
    funext other one
    rw [Versions, Versions, harchive]
  refine ⟨⟨harchive ▸ h.exact, harchive ▸ h.spoken, hsessions ▸ h.named, hsessions ▸ h.pending,
    fun id s hs => ?_⟩, fun id hnone => ⟨hsessions ▸ hnone, by rw [harchive]⟩⟩
  rw [hversions, hposition]
  exact h.standing id s (hsessions ▸ hs)

end Frames

/-! ## Where the run stands -/

section Positions

variable {w v : World} {r : Run} {s : Session} {id : String}

theorem positionOf_running (hr : w.running = some r) : w.positionOf r.id = some r.position := by
  simp [World.positionOf, hr]

theorem positionOf_eq_none (h : ∀ r, w.running = some r → r.id ≠ id) : w.positionOf id = none := by
  unfold World.positionOf
  cases hr : w.running with
  | none => rfl
  | some r => simp [h r hr]

/-- A step of the run is one of no other conversation. -/
theorem positionOf_other {r' : Run} (hr : w.running = some r) (hr' : v.running = some r')
    (hid : r'.id = r.id) (hne : id ≠ r.id) : v.positionOf id = w.positionOf id := by
  have hnone : w.positionOf id = none := by
    apply positionOf_eq_none
    intro one hone
    obtain rfl := Option.some.inj (hr.symm.trans hone)
    exact hne.symm
  have hnone' : v.positionOf id = none := by
    apply positionOf_eq_none
    intro one hone
    obtain rfl := Option.some.inj (hr'.symm.trans hone)
    rw [hid]
    exact hne.symm
  rw [hnone, hnone']

end Positions

/-! ## Every step -/

section Steps

variable {c : Config} {w : World} {others : Record → Prop}

theorem beside_none (one : Record) : beside others none one ↔ others one := by
  refine ⟨?_, .inl⟩
  rintro (hone | ⟨q, hq, -⟩)
  · exact hone
  · cases hq

/-- A run starts on a conversation at rest. -/
theorem Lasting.start {id : String} {s t : Session} (h : Lasting w others)
    (hkeyed : s.id = id) (hs : w.sessions[id]? = some s) (hnone : w.running = none)
    (hid : t.id = s.id) (hseq : s.seq ≤ t.seq) (hitems : t.items ≠ []) :
    Lasting (w.startRun t) others ∧ Steady w (w.startRun t) := by
  have hrest : ∀ other, w.positionOf other = none := by
    intro other
    apply positionOf_eq_none
    intro r hr
    rw [hnone] at hr
    cases hr
  have hbegan : (w.startRun t).positionOf id = some .began := by
    have hnew : (w.startRun t).running = some (Run.new t) := rfl
    have hhere : (Run.new t).id = id := hid.trans hkeyed
    rw [← hhere]
    exact positionOf_running hnew
  have hstanding : Standing (Versions w others id) s none := by
    rw [← hrest id]
    exact h.standing id s hs
  refine h.change (t := t.starts) hs (hid.trans hkeyed) rfl rfl (fun other hne => ?_)
    (fun _ hkept => .inl hkept)
    (fun _ hkept _ => hkept) ?_
  · rw [hrest other]
    apply positionOf_eq_none
    rintro r hr rfl
    cases hr
    exact hne (hid.trans hkeyed)
  · rw [hbegan]
    exact hstanding.start (Nat.lt_succ_of_le hseq) hitems

/-- A title is given. -/
theorem Lasting.rename {id : String} {s : Session} (hw : Orderly 0 w) (h : Lasting w others)
    (hs : w.sessions[id]? = some s) (title : String)
    (htimely : s.title = title ∨ (w.positionOf id).any Position.late = false) :
    Lasting (useSession w s (.rename title)).1 (beside others (useSession w s (.rename title)).2) ∧
      Steady w (useSession w s (.rename title)).1 ∧
      ∀ q, (useSession w s (.rename title)).2 = some q → q.due ≠ none := by
  have hid : s.id = id := hw.keyed id s hs
  have hstanding := h.standing id s hs
  have hsame : s.title = title → SameShown s (s.renamed title) :=
    fun htitle => ⟨Nat.le_succ _, htitle.symm, rfl, rfl, rfl⟩
  -- no record is taken
  have hquiet : Standing (Versions w others id) (s.renamed title) (w.positionOf id) →
      (useSession w s (.rename title)).2 = none →
      Lasting (useSession w s (.rename title)).1
        (beside others (useSession w s (.rename title)).2) ∧
        Steady w (useSession w s (.rename title)).1 ∧
        ∀ q, (useSession w s (.rename title)).2 = some q → q.due ≠ none := by
    intro hnext hnone
    have hchanged : Lasting (w.put (s.renamed title)) others ∧ Steady w (w.put (s.renamed title)) :=
      h.change (t := s.renamed title) hs hid rfl rfl (fun _ _ => rfl) (fun _ hkept => .inl hkept)
        (fun _ hkept _ => hkept) hnext
    rw [hnone]
    exact ⟨hchanged.1.congr beside_none, hchanged.2, fun q hq => by cases hq⟩
  cases hrunning : w.isRunning s with
  | true =>
    obtain ⟨r, hr, haddress⟩ := World.isRunning_iff.mp hrunning
    obtain rfl : r.id = id := (hw.running hs hr).mp haddress
    have hposition := positionOf_running hr
    apply hquiet
    · rw [hposition] at hstanding htimely ⊢
      rcases htimely with htitle | hearly
      · exact hstanding.same (hsame htitle)
      · obtain ⟨hitems, hall⟩ := (standing_early hearly).mp hstanding
        exact (standing_early hearly).mpr ⟨hitems, fun one hone => (hall one hone).trans_le (Nat.le_succ _)⟩
    · simp [useSession, hrunning]
  | false =>
    have hrest := positionOf_eq_none (hw.not_running hs hrunning)
    rw [hrest] at hstanding
    by_cases hitems : s.items = []
    · apply hquiet
      · rw [hrest]
        exact hstanding.untold hitems hitems
      · simp [useSession, hrunning, hitems]
    · have hnext : (useSession w s (.rename title)).2 =
          some (.keeping (s.renamed title).record) := by
        simp [useSession, hrunning, hitems]
      rw [hnext]
      have hdue : ∀ one, beside others (some (.keeping (s.renamed title).record)) one →
          others one ∨ one = (s.renamed title).record := by
        rintro one (hone | ⟨q, hq, hdue⟩)
        · exact .inl hone
        · cases hq
          exact .inr (Option.some.inj hdue).symm
      have htaken : beside others (some (.keeping (s.renamed title).record))
          (s.renamed title).record := .inr ⟨_, rfl, rfl⟩
      have hchanged : Lasting (w.put (s.renamed title))
          (beside others (some (.keeping (s.renamed title).record))) ∧
          Steady w (w.put (s.renamed title)) := by
        apply h.change (t := s.renamed title) hs hid rfl rfl (fun _ _ => rfl)
        · intro one hone
          rcases hdue one hone with hold | rfl
          · exact .inl hold
          · exact .inr ⟨hid, hitems⟩
        · exact fun one hone _ => .inl hone
        · have hsamePosition : (w.put (s.renamed title)).positionOf id = none := hrest
          rw [hsamePosition]
          apply hstanding.renamed title hitems (.inr ⟨htaken, hid⟩)
          rintro one (hread | ⟨hone, hhere⟩)
          · exact .inr (.inl hread)
          · rcases hdue one hone with hold | rfl
            · exact .inr (.inr ⟨hold, hhere⟩)
            · exact .inl rfl
      exact ⟨hchanged.1, hchanged.2, fun q hq => by cases hq; exact fun hnone => by cases hnone⟩

/-- A conversation is opened for what it was asked for. -/
theorem Lasting.use {id : String} {s : Session} (hw : Orderly 0 w) (h : Lasting w others)
    (hs : w.sessions[id]? = some s) (purpose : Purpose)
    (htimely : ∀ title, purpose = .rename title →
      s.title = title ∨ (w.positionOf id).any Position.late = false) :
    Lasting (useSession w s purpose).1 (beside others (useSession w s purpose).2) ∧
      Steady w (useSession w s purpose).1 ∧
      ∀ q, (useSession w s purpose).2 = some q → q.due ≠ none := by
  have hid := hw.keyed id s hs
  have hstill : ∀ v : World, Lasting v others ∧ Steady w v →
      Lasting v (beside others none) ∧ Steady w v ∧
        ∀ q, (none : Option Errand) = some q → q.due ≠ none :=
    fun v hv => ⟨hv.1.congr beside_none, hv.2, fun q hq => by cases hq⟩
  have hsteady : Lasting w others ∧ Steady w w := ⟨h, fun _ hnone => ⟨hnone, rfl⟩⟩
  cases purpose with
  | send text composed about settings =>
    simp only [useSession]
    split
    · rename_i hready
      have hnone : w.running = none := by
        simp only [World.ready, Bool.and_eq_true, Option.isNone_iff_eq_none] at hready
        exact hready.1
      have hspoken : (s.speaks w.now text composed about).items ≠ [] := by
        simp [Session.speaks, Session.add, Session.emit]
      exact hstill _ (h.start hid hs hnone rfl (Nat.le_succ _) hspoken)
    · exact hstill w hsteady
  | carryOn settings =>
    simp only [useSession]
    split
    · rename_i hready
      rw [Bool.and_eq_true] at hready
      have hnone : w.running = none := by
        simp only [World.ready, Bool.and_eq_true, Option.isNone_iff_eq_none] at hready
        exact hready.1.1
      have hspoken : s.items ≠ [] := by
        intro hempty
        simp [Session.carriesOn, hempty] at hready
      exact hstill _ (h.start hid hs hnone rfl le_rfl hspoken)
    · exact hstill w hsteady
  | snapshot => exact hstill w hsteady
  | rename title => exact h.rename hw hs title (htimely title rfl)

/-- A conversation that is not held is held as it is kept, or as a new one, with no record. -/
theorem Lasting.hold {s : Session} {v : World} (hw : Orderly 0 w) (h : Lasting w others)
    (hs : w.sessions[s.id]? = none) (hid : isArchivedID s.id = true)
    (hsessions : v.sessions = w.sessions.insert s.id s) (harchive : v.archive = w.archive)
    (hrunning : v.running = w.running)
    (hread : ∀ one, w.archive.load s.id = .ok one → one.seq ≤ s.seq ∧ s.items ≠ [])
    (hlast : s.items ≠ [] → ∃ kept, w.archive.load s.id = .ok kept ∧ Shown kept s) :
    Lasting v others ∧ Steady w v := by
  have honly : ∀ one, Versions w others s.id one → w.archive.load s.id = .ok one := by
    rintro one (hload | ⟨hone, hsame⟩)
    · exact hload
    · obtain ⟨-, u, hu⟩ := h.pending one hone
      rw [hsame, hs] at hu
      cases hu
  have hrest : w.positionOf s.id = none := by
    apply positionOf_eq_none
    intro r hr hsame
    obtain ⟨u, hu, -⟩ := hw.answering r hr
    rw [hsame, hs] at hu
    cases hu
  apply h.insert hs hid hsessions harchive hrunning
  rw [hrest]
  refine ⟨fun one hone => hread one (honly one hone), fun hitems => ?_⟩
  obtain ⟨kept, hload, hshown⟩ := hlast hitems
  exact Latest.push (.inl hload) hshown fun one hone =>
    .inl (Except.ok.inj ((honly one hone).symm.trans hload))

/-- **A step of a call** keeps what holds between steps. -/
theorem Lasting.advance {p : Errand} {say : Say} {next : World × Option Errand} (hw : Orderly 0 w)
    (h : Lasting w (beside others (some p))) (hp : ReadBack w p)
    (hok : lasting.thread w p say) (hadvance : Assistant.advance w p say = some next) :
    Lasting next.1 (beside others next.2) ∧ Steady w next.1 ∧
      ∀ q, next.2 = some q → ReadBack next.1 q := by
  obtain ⟨⟨hforgets, hwhole, hreads⟩, htimely⟩ := hok
  have hsteady : Steady w w := fun id hnone => ⟨hnone, rfl⟩
  have hnothing : ∀ v : World, ∀ q, (none : Option Errand) = some q → ReadBack v q :=
    fun _ _ hq => by cases hq
  -- a call that has no record, and comes to have none
  have hquiet : p.due = none → Lasting w others := by
    intro hnone
    refine h.congr fun one => ⟨.inl, ?_⟩
    rintro (hone | ⟨q, hq, hdue⟩)
    · exact hone
    · obtain rfl := Option.some.inj hq
      rw [hnone] at hdue
      cases hdue
  have hgoes : ∀ (v : World) (q : Option Errand), Lasting v others →
      (∀ q', q = some q' → q'.due = none) → Lasting v (beside others q) := by
    intro v q hv hnone
    refine hv.congr fun one => ⟨?_, .inl⟩
    rintro (hone | ⟨q', hq', hdue⟩)
    · exact hone
    · rw [hnone q' hq'] at hdue
      cases hdue
  have hstill : ∀ q : Option Errand, p.due = none →
      (∀ q', q = some q' → q'.due = none ∧ ReadBack w q') →
      Lasting w (beside others q) ∧ Steady w w ∧ ∀ q', q = some q' → ReadBack w q' := by
    intro q hnone hnext
    exact ⟨hgoes w q (hquiet hnone) fun q' hq' => (hnext q' hq').1, hsteady,
      fun q' hq' => (hnext q' hq').2⟩
  cases p with
  | start providerID =>
    simp only [Assistant.advance] at hadvance
    split at hadvance
    · cases hadvance
    · split at hadvance
      · cases hadvance
        exact hstill none rfl (fun _ hq => by cases hq)
      · cases hadvance
        refine hstill _ rfl fun q hq => ?_
        obtain ⟨chosen, -, rfl⟩ := Option.map_eq_some_iff.mp hq
        exact ⟨rfl, fun _ _ hrestoring => by cases hrestoring⟩
  | adding chosen =>
    simp only [Assistant.advance] at hadvance
    split at hadvance
    · rename_i id
      split at hadvance
      · cases hadvance
      · rename_i hnew
        cases hadvance
        simp only [Bool.or_eq_true, Bool.not_eq_true', not_or, Bool.not_eq_false,
          List.contains_iff_mem] at hnew
        obtain ⟨⟨hid, hfresh⟩, -⟩ := hnew
        have hnone : w.sessions[id]? = none := by
          cases hs : w.sessions[id]? with
          | none => rfl
          | some s => exact absurd (hw.drawn id s hs) hfresh
        have hheld : Lasting _ others ∧ Steady w _ :=
          (hquiet rfl).hold (s := newSession id w.addresses chosen w.now)
            (v := { w.put (newSession id w.addresses chosen w.now) with
              addresses := w.addresses + 1, drawn := id :: w.drawn })
            hw hnone hid rfl rfl rfl
            (fun one hload => absurd (hw.filed id one hload).2 hfresh) (fun hitems => absurd rfl hitems)
        exact ⟨hgoes _ none hheld.1 (fun _ hq => by cases hq), hheld.2, hnothing _⟩
    · cases hadvance
  | loading id purpose =>
    simp only [Assistant.advance] at hadvance
    split at hadvance
    · cases hadvance
    · split at hadvance
      · cases hadvance
        exact hstill none rfl (fun _ hq => by cases hq)
      · rename_i kept hload
        cases hadvance
        refine hstill _ rfl fun q hq => ?_
        cases hq
        refine ⟨rfl, fun kept' purpose' hrestoring _ => ?_⟩
        cases hrestoring
        rw [(hw.filed id kept hload).1]
        exact hload
  | restoring kept purpose =>
    simp only [Assistant.advance] at hadvance
    split at hadvance
    · cases hadvance
    · split at hadvance
      · cases hadvance
        refine hstill _ rfl fun q hq => ?_
        cases hq
        exact ⟨rfl, fun _ _ hrestoring => by cases hrestoring⟩
      · rename_i hfree
        cases hadvance
        have hload := hp kept purpose rfl hfree
        have hspoken := h.spoken kept.id kept hload
        have hheld : Lasting (w.restore kept) others ∧ Steady w (w.restore kept) :=
          (hquiet rfl).hold
            (s := fromRecord kept w.addresses ((w.past[kept.id]?).getD [])) hw hfree
            (Archive.loadFrom_ok hload).1 rfl rfl rfl
            (fun one hone => by
              obtain rfl := Except.ok.inj (hload.symm.trans hone)
              exact ⟨le_rfl, hspoken⟩)
            (fun _ => ⟨kept, hload, rfl, rfl, rfl, rfl⟩)
        refine ⟨hgoes _ _ hheld.1 (fun q hq => by cases hq; rfl), hheld.2, fun q hq => ?_⟩
        cases hq
        exact fun _ _ hrestoring => by cases hrestoring
  | entering id address purpose =>
    simp only [Assistant.advance] at hadvance
    split at hadvance
    · cases hadvance
    · split at hadvance
      · cases hadvance
        exact hstill none rfl (fun _ hq => by cases hq)
      · rename_i s hheld
        cases hadvance
        have hs := World.held_eq_some hheld
        have htitled : ∀ title, purpose = .rename title →
            s.title = title ∨ (w.positionOf id).any Position.late = false := by
          rintro title rfl
          have hid := hw.keyed id s hs
          simpa [World.timely, hheld, hid] using htimely
        obtain ⟨hused, hsteady', hnext⟩ := (hquiet rfl).use hw hs purpose htitled
        refine ⟨hused, hsteady', fun q hq kept purpose' hrestoring => ?_⟩
        subst hrestoring
        exact absurd rfl (hnext _ hq)
  | keeping kept =>
    simp only [Assistant.advance] at hadvance
    split at hadvance
    · cases hadvance
    · have hretains : w.retains = true := hreads rfl
      split at hadvance
      · rename_i hnone
        simp [World.retains, hnone] at hretains
      · rename_i settings hsettings
        have hon : settings.retention ≠ 0 := by simpa [World.retains, hsettings] using hretains
        rw [if_neg hon] at hadvance
        cases hadvance
        refine ⟨h.congr fun one => or_congr Iff.rfl ⟨?_, ?_⟩, hsteady, fun q hq => ?_⟩
        · rintro ⟨q, hq, hdue⟩
          cases hq
          exact ⟨_, rfl, hdue⟩
        · rintro ⟨q, hq, hdue⟩
          cases hq
          exact ⟨_, rfl, hdue⟩
        · cases hq
          exact fun _ _ hrestoring => by cases hrestoring
  | saving kept =>
    simp only [Assistant.advance] at hadvance
    split at hadvance
    · rename_i n
      cases hadvance
      have hn : Archive.whole ≤ n := of_decide_eq_true hwhole
      have hleft : ∀ one, beside others none one → beside others (some (.saving kept)) one :=
        fun one hone => .inl ((beside_none one).mp hone)
      have hgone : ∀ one, beside others (some (.saving kept)) one →
          one = kept ∨ beside others none one := by
        rintro one (hone | ⟨q, hq, hdue⟩)
        · exact .inr (.inl hone)
        · cases hq
          exact .inl (Option.some.inj hdue).symm
      have hsaved := h.save (.inr ⟨_, rfl, rfl⟩) hn hleft hgone
      exact ⟨hsaved.1, hsaved.2, hnothing _⟩
    · cases hadvance
  | stop id =>
    simp only [Assistant.advance] at hadvance
    split at hadvance
    · cases hadvance
    · split at hadvance
      · rename_i s r hs hr
        split at hadvance
        · cases hadvance
          have hother : Lasting _ others ∧ Steady w _ := (hquiet rfl).elsewhere
            (v := { w with
              running := some { r with cancelled := true }
              happened := .stopped s.address :: w.happened }) rfl rfl (by
              funext other
              simp [World.positionOf, hr, Option.filter])
          exact ⟨hgoes _ none hother.1 (fun _ hq => by cases hq), hother.2, hnothing _⟩
        · cases hadvance
          exact hstill none rfl (fun _ hq => by cases hq)
      · cases hadvance
        exact hstill none rfl (fun _ hq => by cases hq)
  | decide id item decision =>
    simp only [Assistant.advance] at hadvance
    split at hadvance
    · cases hadvance
    · split at hadvance
      · cases hadvance
        exact hstill none rfl (fun _ hq => by cases hq)
      · rename_i s hs
        split at hadvance
        · cases hadvance
          have hsame : SameShown s (s.decides item decision) := ⟨le_rfl, rfl, rfl, rfl, rfl⟩
          have hchanged : Lasting _ others ∧ Steady w _ := (hquiet rfl).change
            (t := s.decides item decision)
            (v := { w.put (s.decides item decision) with
              happened := .decided s.address item decision :: w.happened })
            hs (hw.keyed id s hs) rfl rfl (fun _ _ => rfl) (fun _ hkept => .inl hkept)
            (fun _ hkept _ => hkept) (((hquiet rfl).standing id s hs).same hsame)
          exact ⟨hgoes _ none hchanged.1 (fun _ hq => by cases hq), hchanged.2, hnothing _⟩
        · cases hadvance
          exact hstill none rfl (fun _ hq => by cases hq)
  | delete | clear | removing => cases hforgets
  | expiring cutoff spared =>
    simp only [Assistant.advance] at hadvance
    split at hadvance
    · rename_i n
      have hopened := (hquiet rfl).archive ((hquiet rfl).exact.loadIndex n)
        (fun id => load_loadIndex w.archive n id)
      split at hadvance
      · rename_i archive hloaded
        rw [hloaded] at hopened
        cases hadvance
        exact ⟨hgoes _ none hopened.1 (fun _ hq => by cases hq), hopened.2, hnothing _⟩
      · rename_i archive index left hloaded
        rw [hloaded] at hopened
        cases hadvance
        refine ⟨hgoes _ _ hopened.1 (fun q hq => by cases hq; rfl), hopened.2, fun q hq => ?_⟩
        cases hq
        exact fun _ _ hrestoring => by cases hrestoring
    · cases hadvance
  | dropping ids =>
    cases ids with
    | nil =>
      simp only [Assistant.advance] at hadvance
      split at hadvance
      · cases hadvance
      · cases hadvance
        exact hstill none rfl (fun _ hq => by cases hq)
    | cons => cases hforgets
  | listing =>
    simp only [Assistant.advance] at hadvance
    split at hadvance
    · rename_i n
      cases hadvance
      have hlisted := (hquiet rfl).archive ((hquiet rfl).exact.list n)
        (fun id => load_list w.archive n id)
      exact ⟨hgoes _ none hlisted.1 (fun _ hq => by cases hq), hlisted.2, hnothing _⟩
    · cases hadvance
  | _ =>
    simp only [Assistant.advance] at hadvance
    repeat' split at hadvance
    all_goals
      first
      | cases hadvance
        refine hstill _ rfl fun q hq => ?_
        cases hq
        exact ⟨rfl, fun _ _ hrestoring => by cases hrestoring⟩
      | cases hadvance
        exact hstill none rfl (fun _ hq => by cases hq)
      | cases hadvance

/-- The run on a conversation moves on, and what it leaves of the conversation with it. -/
theorem Lasting.moves {due : Record → Prop} {r r' : Run} {s t : Session} {v : World}
    (h : Lasting w due) (hkeyed : s.id = r.id) (hr : w.running = some r)
    (hs : w.sessions[r.id]? = some s) (hrunning : v.running = some r') (hrun : r'.id = r.id)
    (hid : t.id = s.id) (hsessions : v.sessions = (w.put t).sessions)
    (harchive : v.archive = w.archive)
    (hstanding : Standing (Versions w due r.id) t (some r'.position)) :
    Lasting v due ∧ Steady w v := by
  refine h.change hs (hid.trans hkeyed) hsessions harchive (fun other hne => ?_)
    (fun _ hkept => .inl hkept) (fun _ hkept _ => hkept) ?_
  · exact positionOf_other hr hrunning hrun hne
  · have hversions : Versions v due = Versions w due := by
      funext other one
      rw [Versions, Versions, harchive]
    rw [hversions, ← hrun, positionOf_running hrunning, hrun]
    exact hstanding

/-- **The run saves its record**, which is later than every other. -/
theorem Lasting.saves {due : Record → Prop} {r : Run} {s : Session} {kept : Record} {n : Nat}
    (h : Lasting w due) (hr : w.running = some r) (hs : w.sessions[r.id]? = some s)
    (hposition : r.position = .saving kept) (hid : kept.id = r.id) (hn : Archive.whole ≤ n) :
    Lasting { w with archive := (w.archive.save kept n).1, running := some (r.at .closing) } due ∧
      Steady w
        { w with archive := (w.archive.save kept n).1, running := some (r.at .closing) } := by
  have hstanding : Standing (Versions w due r.id) s (some (.saving kept)) := by
    rw [← hposition, ← positionOf_running hr]
    exact h.standing r.id s hs
  have ⟨hitems, hshown, _, hall⟩ := hstanding
  have harchived : isArchivedID kept.id = true := hid ▸ h.named r.id s hs
  -- nothing there is later than what is saved
  obtain ⟨hwritten, helse⟩ : (w.archive.save kept n).1.load kept.id =
      .ok { kept with version := archiveVersion } ∧
      ∀ id, id ≠ kept.id → (w.archive.save kept n).1.load id = w.archive.load id := by
    rcases h.exact.load_save harchived hn with ⟨⟨later, hlater, hlate⟩, -⟩ | ⟨-, hwritten, helse⟩
    · rw [hid] at hlater
      exact absurd (hall later (.inl hlater)) hlate.asymm
    · exact ⟨hwritten, helse⟩
  refine ⟨⟨h.exact.save kept hn, fun id read hread => ?_, h.named, h.pending, fun id u hu => ?_⟩,
    fun id hnone => ⟨hnone, ?_⟩⟩
  · by_cases hsame : id = kept.id
    · subst hsame
      obtain rfl := Except.ok.inj (hwritten.symm.trans hread)
      change kept.items ≠ []
      rw [hshown.items]
      exact hitems
    · exact h.spoken id read ((helse id hsame).symm.trans hread)
  · by_cases hsame : id = r.id
    · subst hsame
      obtain rfl := Option.some.inj (hs.symm.trans hu)
      have hclosing : World.positionOf { w with
          archive := (w.archive.save kept n).1, running := some (r.at .closing) } r.id =
          some .closing := positionOf_running (r := r.at .closing) rfl
      rw [hclosing]
      refine hstanding.save (.inl (hid ▸ hwritten)) ?_
      rintro one (hread | hone)
      · rw [← hid] at hread
        exact .inl (Except.ok.inj (hwritten.symm.trans hread)).symm
      · exact .inr (.inr hone)
    · have hrunning : World.running { w with
          archive := (w.archive.save kept n).1, running := some (r.at .closing) } =
          some (r.at .closing) := rfl
      have hposition' := positionOf_other hr hrunning rfl hsame
      rw [hposition']
      apply (h.standing id u hu).congr
      intro one
      exact or_congr (by rw [helse id (hid ▸ hsame)]) Iff.rfl
  · apply helse
    rintro rfl
    rw [hid, hs] at hnone
    cases hnone

/-- **A step beside the calls** keeps what holds between steps. -/
theorem Lasting.environment {due : Record → Prop} {around : Around} {v : World}
    (hw : Orderly 0 w) (h : Lasting w due) (hok : lasting.environment w around)
    (henvironment : (program c).environment w around = some v) :
    Lasting v due ∧ Steady w v := by
  cases around with
  | run choice =>
    obtain ⟨hwhole, hreads⟩ := hok
    obtain ⟨r, s, hr, hs, hcases⟩ := World.runStep_cases henvironment
    have hkeyed := hw.keyed r.id s hs
    have hstanding : Standing (Versions w due r.id) s (some r.position) := by
      rw [← positionOf_running hr]
      exact h.standing r.id s hs
    rcases hcases with ⟨kept, next, hposition, hnext, rfl⟩ | ⟨kept, n, hposition, rfl, rfl⟩ |
      ⟨hposition, rfl⟩ | ⟨m, hstep, rfl⟩
    · rcases hnext with ⟨-, hoff⟩ | rfl
      · have hretains : w.retains = true := hreads r hr (by rw [hposition]; rfl)
        obtain ⟨settings, hsettings, hon⟩ := Option.any_eq_true _ _ |>.mp hretains
        exact absurd (hoff settings hsettings) (of_decide_eq_true hon)
      · rw [hposition] at hstanding
        refine h.moves (t := s) hkeyed hr hs rfl rfl rfl ?_ rfl hstanding
        rw [World.put_same hs hkeyed]
    · have hkeeping := hw.keeping r hr
      rw [hposition] at hkeeping
      exact h.saves hr hs hposition hkeeping (of_decide_eq_true hwhole)
    · rw [hposition] at hstanding
      have hrest : ∀ other, World.positionOf { w.put s.ends with running := none } other = none :=
        fun other => rfl
      refine h.change (t := s.ends) hs hkeyed rfl rfl (fun other hne => ?_)
        (fun _ hkept => .inl hkept) (fun _ hkept _ => hkept) ?_
      · rw [hrest]
        symm
        apply positionOf_eq_none
        intro one hone
        obtain rfl := Option.some.inj (hr.symm.trans hone)
        exact hne.symm
      · rw [hrest]
        exact hstanding.ends
    · have hmove := step_move hstep
      obtain ⟨hsame, hrun, -, -⟩ := hmove.frame
      exact h.moves (t := m.session) hkeyed hr hs rfl hrun hsame.1 rfl rfl (hstanding.move hmove)
  | settings | connections | tick =>
    cases henvironment
    exact h.elsewhere rfl rfl rfl
  | line record =>
    simp only [program] at henvironment
    split at henvironment
    · cases henvironment
    · cases henvironment
      exact h.elsewhere rfl rfl rfl

end Steps

/-! ## Every interleaving -/

section Runs

variable {c : Config} {t u : Threads World Errand}

/-- The records on their way in a state of the manager. -/
def dueIn (t : Threads World Errand) (kept : Record) : Prop :=
  ∃ (k : Nat) (p : Errand), t.threads[k]? = some p ∧ p.due = some kept

/-- What holds in a state of the manager. -/
structure LastingIn (t : Threads World Errand) : Prop where
  between : Lasting t.shared (dueIn t)
  readBack : ∀ (k : Nat) (p : Errand), t.threads[k]? = some p → ReadBack t.shared p

/-- A process that ends leaves what is kept. -/
theorem Lasting.restart {w : World} {due : Record → Prop} (h : Lasting w due) :
    LastingIn ⟨w.restart, ∅⟩ := by
  have hsessions : ∀ id : String, w.restart.sessions[id]? = none := by
    intro id
    simp [World.restart]
  refine ⟨⟨h.exact.reopen, h.spoken, fun id s hs => ?_, fun kept hkept => ?_, fun id s hs => ?_⟩,
    fun k p hk => ?_⟩
  · rw [hsessions] at hs
    cases hs
  · obtain ⟨k, p, hk, -⟩ := hkept
    simp at hk
  · rw [hsessions] at hs
    cases hs
  · simp at hk

theorem lastingIn_start (hstart : (manager c).start t) : LastingIn t := by
  obtain ⟨⟨-, hsessions, -, -, -, -, -, -, hfiles, hindexFile, hindex⟩, hempty⟩ := hstart
  have hload : ∀ (id : String) (kept : Record), t.shared.archive.load id ≠ .ok kept := by
    intro id kept h
    have hstored := (Archive.loadFrom_ok h).2.1
    rw [hfiles] at hstored
    simp at hstored
  have hentry : ∀ id : String, Archive.entryOf t.shared.archive.files id = none := by
    intro id
    cases he : Archive.entryOf t.shared.archive.files id with
    | none => rfl
    | some e =>
      obtain ⟨kept, hkept, -⟩ := Archive.entryOf_eq_some_iff.mp he
      exact absurd hkept (hload id kept)
  have hdisk : ∀ id : String,
      t.shared.archive.onDisk[id]? = Archive.entryOf t.shared.archive.files id := by
    intro id
    simp [Archive.onDisk, hindexFile, readSealed]
  have hloaded : t.shared.archive.loaded = t.shared.archive.onDisk := by
    simp [Archive.loaded, hindex]
  refine ⟨⟨⟨fun id kept h => absurd h (hload id kept), fun id => ?_, hdisk⟩,
    fun id kept h => absurd h (hload id kept), fun id s hs => ?_, fun kept hkept => ?_,
    fun id s hs => ?_⟩, fun k p hk => ?_⟩
  · rw [hloaded]
    exact hdisk id
  · rw [hsessions] at hs
    simp at hs
  · obtain ⟨k, p, hk, -⟩ := hkept
    rw [hempty] at hk
    simp at hk
  · rw [hsessions] at hs
    simp at hs
  · rw [hempty] at hk
    simp at hk

/-- **Step lemma**: every step that meets the condition keeps what holds between steps. -/
theorem LastingIn.step {life : Program.Life Errand Say Around} (hw : Orderly 0 t.shared)
    (h : LastingIn t) (hok : lasting.OkLife t life) (hstep : (manager c).step t life = some u) :
    LastingIn u := by
  cases life with
  | none =>
    cases hstep
    exact h.between.restart
  | some turn =>
    cases turn with
    | arrive k p =>
      obtain ⟨hfree, harrives, rfl⟩ := Program.arrive_step hstep
      have hnone : p.due = none := by
        cases p with
        | keeping | saving => cases harrives
        | _ => rfl
      refine ⟨h.between.congr fun one => ⟨?_, ?_⟩, fun l q hq => ?_⟩
      · rintro ⟨l, q, hq, hdue⟩
        rcases Program.getElem?_move (n := some p) hq with ⟨-, hsame⟩ | ⟨-, hold⟩
        · obtain rfl := Option.some.inj hsame
          rw [hnone] at hdue
          cases hdue
        · exact ⟨l, q, hold, hdue⟩
      · rintro ⟨l, q, hq, hdue⟩
        have hne : k ≠ l := by
          rintro rfl
          rw [hfree] at hq
          cases hq
        exact ⟨l, q, by rw [getElem?_insert_of_ne _ _ hne]; exact hq, hdue⟩
      · rcases Program.getElem?_move (n := some p) hq with ⟨-, hsame⟩ | ⟨-, hold⟩
        · obtain rfl := Option.some.inj hsame
          rintro kept purpose rfl
          cases harrives
        · exact h.readBack l q hold
    | thread k say =>
      obtain ⟨p, next, hk, hadvance, rfl⟩ := Program.thread_move hstep
      let others : Record → Prop := fun kept =>
        ∃ (l : Nat) (q : Errand), l ≠ k ∧ t.threads[l]? = some q ∧ q.due = some kept
      have hbefore : Lasting t.shared (beside others (some p)) := by
        refine h.between.congr fun one => ⟨?_, ?_⟩
        · rintro (⟨l, q, -, hq, hdue⟩ | ⟨q, hq, hdue⟩)
          · exact ⟨l, q, hq, hdue⟩
          · obtain rfl := Option.some.inj hq
            exact ⟨k, p, hk, hdue⟩
        · rintro ⟨l, q, hq, hdue⟩
          by_cases hl : l = k
          · subst hl
            obtain rfl := Option.some.inj (hk.symm.trans hq)
            exact .inr ⟨p, rfl, hdue⟩
          · exact .inl ⟨l, q, hl, hq, hdue⟩
      obtain ⟨hafter, hsteady, hread⟩ :=
        hbefore.advance hw (h.readBack k p hk) (hok p hk).1 hadvance
      refine ⟨hafter.congr fun one => ⟨?_, ?_⟩, fun l q hq => ?_⟩
      · rintro ⟨l, q, hq, hdue⟩
        rcases Program.getElem?_move hq with ⟨-, hnext⟩ | ⟨hl, hold⟩
        · exact .inr ⟨q, hnext, hdue⟩
        · exact .inl ⟨l, q, hl, hold, hdue⟩
      · rintro (⟨l, q, hl, hq, hdue⟩ | ⟨q, hnext, hdue⟩)
        · refine ⟨l, q, ?_, hdue⟩
          change (Program.move t.threads k next.2)[l]? = some q
          cases hnext : next.2 with
          | none =>
            rw [Program.move, getElem?_erase_of_ne _ (Ne.symm hl)]
            exact hq
          | some q' =>
            rw [Program.move, getElem?_insert_of_ne _ _ (Ne.symm hl)]
            exact hq
        · refine ⟨k, q, ?_, hdue⟩
          change (Program.move t.threads k next.2)[k]? = some q
          rw [hnext]
          exact Std.ExtTreeMap.getElem?_insert_self
      · rcases Program.getElem?_move hq with ⟨-, hnext⟩ | ⟨-, hold⟩
        · exact hread q hnext
        · exact hsteady.readBack (h.readBack l q hold)
    | environment around =>
      obtain ⟨shared, henvironment, rfl⟩ := Program.environment_step hstep
      obtain ⟨hafter, hsteady⟩ := h.between.environment hw hok henvironment
      exact ⟨hafter, fun l q hq => hsteady.readBack (h.readBack l q hq)⟩

/-- **Run lemma**: it holds in every interleaving over every process. -/
theorem lastingIn_reachable (ht : (manager c).Reachable lasting.OkLife t) : LastingIn t := by
  apply ht.invariant
  · exact fun _ hstart => lastingIn_start hstart
  · intro s life u hs h hok hstep
    have horderly := ((keeps_anything c).always (hs.mono fun _ _ _ => trivial)).shared.orderly
    exact h.step horderly hok hstep

/-- **What is kept is what the window shows**, in every run in which retention stays on, every write
    is whole, nothing is deleted and no other title is given while a run writes its record: where no
    run is going on a conversation and no call has a record of it, the record that is read back says
    what the window shows, and there is one as soon as something was said. -/
theorem kept_as_shown (ht : (manager c).Reachable lasting.OkLife t) {id : String} {s : Session}
    (hs : t.shared.sessions[id]? = some s) (hrest : t.shared.isRunning s = false)
    (hquiet : ∀ p ∈ values t.threads, ∀ kept, p.record = some kept → kept.id ≠ id) :
    (∀ kept, t.shared.archive.load id = .ok kept → Shown kept s) ∧
      (s.items ≠ [] → ∃ kept, t.shared.archive.load id = .ok kept) := by
  have hlasting := (lastingIn_reachable ht).between
  have horderly := ((keeps_anything c).always (ht.mono fun _ _ _ => trivial)).shared.orderly
  have hstanding := hlasting.standing id s hs
  rw [positionOf_eq_none (horderly.not_running hs hrest)] at hstanding
  obtain ⟨hall, hlast⟩ := hstanding
  have honly : ∀ one, Versions t.shared (dueIn t) id one → t.shared.archive.load id = .ok one := by
    rintro one (hload | ⟨⟨k, p, hk, hdue⟩, hid⟩)
    · exact hload
    · refine absurd hid (hquiet p (mem_values.mpr ⟨k, hk⟩) one ?_)
      cases p with
      | keeping | saving => exact hdue
      | _ => cases hdue
  refine ⟨fun kept hkept => ?_, fun hitems => ?_⟩
  · obtain ⟨last, hlastOne, hshown, -⟩ := hlast (hall kept (.inl hkept)).2
    obtain rfl := Except.ok.inj (hkept.symm.trans (honly last hlastOne))
    exact hshown
  · obtain ⟨last, hlastOne, -, -⟩ := hlast hitems
    exact ⟨last, honly last hlastOne⟩

end Runs

/-- A title is given to an answered conversation. -/
def ordersTitled : List (Program.Life Errand Say Around) :=
  ordersAnswered ++
    called 3 (.rename ordersID "paid orders") [.go, .go, .go, .go, .write Archive.whole]

/-- An answered conversation is kept under the title it was given. -/
theorem kept_as_shown_orders :
    ∃ s, (ordersAfter ordersTitled).shared.sessions[ordersID]? = some s ∧
      s.title = "paid orders" ∧
      (∀ kept, (ordersAfter ordersTitled).shared.archive.load ordersID = .ok kept → Shown kept s) ∧
      ∃ kept, (ordersAfter ordersTitled).shared.archive.load ordersID = .ok kept := by
  let s := ((ordersAfter ordersTitled).shared.sessions[ordersID]?).getD
    (newSession ordersID 0 ordersService 1)
  have hrun : (manager ordersConfig).Permitted lasting.OkLife ⟨ordersWindow, ∅⟩ ordersTitled ∧
      (ordersAfter ordersTitled).shared.sessions[ordersID]? = some s ∧
      (ordersAfter ordersTitled).shared.isRunning s = false ∧ s.title = "paid orders" ∧
      s.items ≠ [] ∧ values (ordersAfter ordersTitled).threads = [] := by
    decide +kernel
  obtain ⟨hpermitted, hs, hrest, htitle, hitems, hnobody⟩ := hrun
  have hreachable : (manager ordersConfig).Reachable lasting.OkLife (ordersAfter ordersTitled) :=
    (Machine.Reachable.start ordersWindow_start).endOf hpermitted
  obtain ⟨hshown, hkept⟩ := kept_as_shown hreachable hs hrest (by
    rw [hnobody]
    exact fun p hp => absurd hp List.not_mem_nil)
  exact ⟨s, hs, htitle, hshown, hkept hitems⟩

/-- A run has taken its record when a title is given, and leaves the writing to nobody. -/
def ordersMistitled : List (Program.Life Errand Say Around) :=
  ordersAsked ++ called 2 (.decide ordersID 2 ⟨true, false⟩) [.go] ++
    runs [.answer, .go, .append .stored, .go, .run (.done "published" "ok"), .append .stored, .go,
      .go, .turn (.ok ordersLastTurn), .go, .go, .go] ++
    called 3 (.rename ordersID "paid orders") [.go, .go, .go] ++
    runs [.go, .write Archive.whole, .go]

/-- **A title is lost** that is given while a run writes its record: no call is left and no run is
    going, and what is kept has another. -/
theorem title_lost :
    (manager ordersConfig).Reachable Machine.Always (ordersAfter ordersMistitled) ∧
      (ordersAfter ordersMistitled).shared.running = none ∧
      (ordersAfter ordersMistitled).threads = ∅ ∧
      ((ordersAfter ordersMistitled).shared.sessions[ordersID]?).map Session.title =
        some "paid orders" ∧
      ((ordersAfter ordersMistitled).shared.archive.load ordersID).toOption.map Record.title =
        some "publish it" :=
  ⟨ordersAfter_reachable _, by decide +kernel⟩

end MqStudio.Assistant
