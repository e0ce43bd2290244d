import MqStudio.Assistant.Answers

/-!
# Events and Snapshots

The window keeps a conversation of its own: from a snapshot on, it applies the events as they
come. What it shows then is what a later snapshot says, whatever was done in between and by whom,
as long as the manager did not forget the conversation.

## Main definitions

- `Shows`: a conversation of the window agrees with one of the manager.
- `Follows`: the events sent since a snapshot replay to where the conversation stands.
- `Drawn`: what is kept up, for them to go on to.

## Main results

- `events_replay`: they do, in every run.
- `reopened_behind`: a conversation that was forgotten may count its events again.
-/

namespace MqStudio.Assistant

open MqStudio.Lib
open MqStudio.Lib.Updates

/-! ## The window and the manager -/

/-- **The window shows a conversation**: all of it but its title, and of its model and usage what is
    said when a run ends. -/
structure Shows (conv : Conversation) (s : Session) (running : Bool) : Prop where
  session : conv.session = s.id
  seq : conv.seq = s.seq
  items : conv.items = s.items
  going : conv.running = running
  settled : running = false → conv.model = s.model ∧ conv.usage = s.usage

theorem shows_snapshot (s : Session) (running : Bool) :
    Shows (fromSnapshot (s.snapshot running)) s running :=
  ⟨rfl, rfl, rfl, rfl, fun _ => ⟨rfl, rfl⟩⟩

/-- The items of a conversation are told apart, and the next one from all of them. -/
structure Numbered (s : Session) : Prop where
  apart : s.items.Pairwise fun x y => x.id ≠ y.id
  below : ∀ item ∈ s.items, item.id ≤ s.next

/-- **The events sent since** replay to where the conversation stands, and are numbered one by
    one. -/
def Follows (base : Conversation) (before : List Event) (s : Session) (running : Bool) : Prop :=
  ∃ events conv, s.sent = events.reverse ++ before ∧ s.seq = base.seq + events.length ∧
    events.map Event.seq = List.range' (base.seq + 1) events.length ∧
    (∀ event ∈ events, event.session = s.id) ∧
    applyEvents base events = some conv ∧ Shows conv s running

section Following

variable {base conv : Conversation} {before : List Event} {s t : Session} {running : Bool}

/-- The next event is applied. -/
theorem applyEvent_next (h : Shows conv s running) (change : Change) :
    applyEvent conv ⟨s.id, s.seq + 1, change⟩ = applyChange { conv with seq := s.seq + 1 } change := by
  have hlater : ¬ (s.id ≠ conv.session ∨ s.seq + 1 ≤ conv.seq) := by
    rw [h.session, h.seq, not_or]
    exact ⟨not_not.mpr rfl, Nat.not_succ_le_self _⟩
  have hnext : ¬ s.seq + 1 ≠ conv.seq + 1 := by
    rw [h.seq]
    exact not_not.mpr rfl
  rw [applyEvent, if_neg hlater, if_neg hnext]

/-- **Step lemma**: one more event, and the window shows what it is about. -/
theorem Follows.step (h : Follows base before s running) {change : Change} {now : Bool}
    (hid : t.id = s.id) (hseq : t.seq = s.seq + 1)
    (hsent : t.sent = ⟨s.id, s.seq + 1, change⟩ :: s.sent)
    (happly : ∀ conv, Shows conv s running → ∃ next,
      applyChange { conv with seq := s.seq + 1 } change = some next ∧ next.session = conv.session ∧
        next.seq = s.seq + 1 ∧ next.items = t.items ∧ next.running = now ∧
        (now = false → next.model = t.model ∧ next.usage = t.usage)) :
    Follows base before t now := by
  obtain ⟨events, conv, hold, hcount, hnumbers, hown, hreplay, hshows⟩ := h
  obtain ⟨next, hnext, hsession, hnextSeq, hitems, hrunning, hsettled⟩ := happly conv hshows
  refine ⟨events ++ [⟨s.id, s.seq + 1, change⟩], next, ?_, ?_, ?_, ?_, ?_, ?_⟩
  · rw [hsent, hold, List.reverse_append]
    rfl
  · rw [hseq, hcount, List.length_append]
    rfl
  · rw [List.map_append, hnumbers, List.length_append, List.length_singleton, List.range'_concat,
      hcount]
    simp [Nat.add_right_comm]
  · intro event hevent
    rw [hid]
    rcases List.mem_append.mp hevent with hearlier | hlast
    · exact hown event hearlier
    · rw [List.mem_singleton.mp hlast]
  · rw [applyEvents_append, hreplay]
    simp [applyEvent_next hshows, hnext]
  · exact ⟨hsession.trans (hshows.session.trans hid.symm), hnextSeq.trans hseq.symm, hitems, hrunning,
      hsettled⟩

/-- What the window is not sent may change. -/
theorem Follows.quiet (h : Follows base before s running) (hid : t.id = s.id) (hseq : t.seq = s.seq)
    (hitems : t.items = s.items) (hsent : t.sent = s.sent)
    (hsettled : running = false → t.model = s.model ∧ t.usage = s.usage) :
    Follows base before t running := by
  obtain ⟨events, conv, hold, hcount, hnumbers, hown, hreplay, hshows⟩ := h
  refine ⟨events, conv, hsent.trans hold, hseq.trans hcount, hnumbers, hid ▸ hown, hreplay,
    hshows.session.trans hid.symm, hshows.seq.trans hseq.symm, hshows.items.trans hitems.symm,
    hshows.going, fun hrest => ?_⟩
  obtain ⟨hmodel, husage⟩ := hshows.settled hrest
  obtain ⟨hmodel', husage'⟩ := hsettled hrest
  exact ⟨hmodel.trans hmodel'.symm, husage.trans husage'.symm⟩

/-- An item that is added is drawn at the end. -/
theorem Follows.add (h : Follows base before s running) (hnumbered : Numbered s) (item : Item) :
    Follows base before (s.add item) running := by
  refine h.step rfl rfl rfl fun conv hshows => ?_
  have hnew : ∀ one ∈ conv.items, decide (one.id = s.next + 1) = false := by
    rw [hshows.items]
    intro one hone
    have hbelow := hnumbered.below one hone
    exact decide_eq_false (by omega)
  refine ⟨{ conv with seq := s.seq + 1, items := conv.items ++ [{ item with id := s.next + 1 }] },
    ?_, rfl, rfl, ?_, hshows.going, hshows.settled⟩
  · simp [applyChange, changeFirst_eq_none hnew]
  · rw [hshows.items]
    rfl

theorem Numbered.add (h : Numbered s) (item : Item) : Numbered (s.add item) where
  apart := by
    refine List.pairwise_append.mpr ⟨h.apart, List.pairwise_singleton _ _, fun x hx y hy => ?_⟩
    rw [List.mem_singleton.mp hy]
    have hbelow := h.below x hx
    exact Nat.ne_of_lt (Nat.lt_succ_of_le hbelow)
  below x hx := by
    rcases List.mem_append.mp hx with hold | hnew
    · exact Nat.le_succ_of_le (h.below x hold)
    · rw [List.mem_singleton.mp hnew]
      exact le_rfl

/-- A change that keeps an item's id keeps them apart. -/
theorem numbered_change {id : Nat} {f : Item → Item} {items : List Item} {item : Item}
    (h : Numbered s) (hchange : changeLast (fun one => one.id = id) f s.items = some (items, item))
    (hf : ∀ item, (f item).id = item.id) :
    items.Pairwise (fun x y => x.id ≠ y.id) ∧ ∀ one ∈ items, one.id ≤ s.next := by
  obtain ⟨front, x, after, hsplit, -, rfl, rfl, -⟩ := changeLast_eq_some hchange
  have hids : (front ++ f x :: after).map Item.id = s.items.map Item.id := by
    simp [hsplit, hf x]
  have hapart : ((front ++ f x :: after).map Item.id).Pairwise (· ≠ ·) := by
    rw [hids]
    exact List.pairwise_map.mpr h.apart
  refine ⟨List.pairwise_map.mp hapart, fun one hone => ?_⟩
  have hmem : one.id ∈ s.items.map Item.id := by
    rw [← hids]
    exact List.mem_map.mpr ⟨one, hone, rfl⟩
  obtain ⟨old, hold, hid⟩ := List.mem_map.mp hmem
  rw [← hid]
  exact h.below old hold

/-- A card that changes is drawn in its place. -/
theorem Follows.changeTool (h : Follows base before s running) (hnumbered : Numbered s) (id : Nat)
    (f : ToolItem → ToolItem) : Follows base before (s.changeTool id f) running := by
  unfold Session.changeTool Session.change
  split
  · exact h
  · rename_i items item hchange
    refine h.step rfl rfl rfl fun conv hshows => ?_
    -- the item keeps its id, and is the only one to have it
    have hid : item.id = id := by
      obtain ⟨front, x, after, -, hx, rfl, -, -⟩ := changeLast_eq_some hchange
      exact of_decide_eq_true hx
    have hfirst := changeFirst_of_changeLast (g := fun _ => item) hnumbered.apart hchange
      fun _ _ _ => rfl
    refine ⟨{ conv with seq := s.seq + 1, items := items }, ?_, rfl, rfl, rfl, hshows.going,
      hshows.settled⟩
    simp [applyChange, hshows.items, hid, hfirst]

/-- A piece of text that is added is drawn at the end of its item. -/
theorem Follows.append (h : Follows base before s running) (hnumbered : Numbered s) (id : Nat)
    (text : String) : Follows base before (s.append id text) running := by
  unfold Session.append
  split
  · exact h
  · rename_i items item hchange
    refine h.step rfl rfl rfl fun conv hshows => ?_
    have hfirst := changeFirst_of_changeLast
      (g := fun one => { one with text := one.text ++ text }) hnumbered.apart hchange
      fun _ _ hone => hone
    refine ⟨{ conv with seq := s.seq + 1, items := items }, ?_, rfl, rfl, rfl, hshows.going,
      hshows.settled⟩
    simp [applyChange, hshows.items, hfirst]

theorem Numbered.changeTool (h : Numbered s) (id : Nat) (f : ToolItem → ToolItem) :
    Numbered (s.changeTool id f) := by
  unfold Session.changeTool Session.change
  split
  · exact h
  · rename_i items item hchange
    obtain ⟨hapart, hbelow⟩ := numbered_change h hchange fun _ => rfl
    exact ⟨hapart, hbelow⟩

theorem Numbered.append (h : Numbered s) (id : Nat) (text : String) :
    Numbered (s.append id text) := by
  unfold Session.append
  split
  · exact h
  · rename_i items item hchange
    obtain ⟨hapart, hbelow⟩ := numbered_change h hchange fun _ => rfl
    exact ⟨hapart, hbelow⟩

end Following

/-! ## What is drawn -/

/-- **A conversation as the window draws it**: its items are numbered, its model is named, and the
    events of a watched one replay to it. -/
structure Drawn (watched : Nat → Prop) (base : Conversation) (before : List Event) (running : Bool)
    (s : Session) : Prop where
  numbered : Numbered s
  named : s.model ≠ ""
  follows : watched s.address → Follows base before s running

/-- What the window draws of a conversation. -/
structure SameView (s t : Session) : Prop where
  id : t.id = s.id
  address : t.address = s.address
  seq : t.seq = s.seq
  next : t.next = s.next
  items : t.items = s.items
  sent : t.sent = s.sent

section Drawing

variable {watched : Nat → Prop} {base : Conversation} {before : List Event} {running : Bool}
  {s t : Session}

/-- What the window is not sent may change, and while a run is going so may the model. -/
theorem Drawn.quiet (h : Drawn watched base before running s) (hsame : SameView s t)
    (hnamed : t.model ≠ "") (hsettled : running = false → t.model = s.model ∧ t.usage = s.usage) :
    Drawn watched base before running t where
  numbered := by
    refine ⟨?_, ?_⟩
    · rw [hsame.items]
      exact h.numbered.apart
    · rw [hsame.items, hsame.next]
      exact h.numbered.below
  named := hnamed
  follows hwatched := by
    rw [hsame.address] at hwatched
    exact (h.follows hwatched).quiet hsame.id hsame.seq hsame.items hsame.sent hsettled

/-- The same of a run, which may change the model and the usage. -/
theorem Drawn.same (h : Drawn watched base before true s) (hsame : SameView s t)
    (hnamed : t.model ≠ "") : Drawn watched base before true t :=
  h.quiet hsame hnamed fun hrest => (by cases hrest)

theorem Drawn.add (h : Drawn watched base before running s) (item : Item) :
    Drawn watched base before running (s.add item) :=
  ⟨h.numbered.add item, h.named, fun hwatched => (h.follows hwatched).add h.numbered item⟩

theorem Drawn.changeTool (h : Drawn watched base before running s) (id : Nat)
    (f : ToolItem → ToolItem) : Drawn watched base before running (s.changeTool id f) := by
  obtain ⟨_, _, _, _, hredrawn⟩ := redrawn_changeTool s id f
  refine ⟨h.numbered.changeTool id f, ?_, fun hwatched => ?_⟩
  · rw [hredrawn]
    exact h.named
  · rw [hredrawn] at hwatched
    exact (h.follows hwatched).changeTool h.numbered id f

theorem Drawn.append (h : Drawn watched base before running s) (id : Nat) (text : String) :
    Drawn watched base before running (s.append id text) := by
  obtain ⟨_, _, _, _, hredrawn⟩ := redrawn_append s id text
  refine ⟨h.numbered.append id text, ?_, fun hwatched => ?_⟩
  · rw [hredrawn]
    exact h.named
  · rw [hredrawn] at hwatched
    exact (h.follows hwatched).append h.numbered id text

theorem Drawn.send (h : Drawn watched base before running s) (opened : Option (Nat × ItemKind))
    (piece : Delta) : Drawn watched base before running (Stream.send s opened piece).1 := by
  unfold Stream.send
  split
  · split
    · exact h.append _ _
    · exact h.add _
  · exact h.add _

/-- A tick sends what is held, piece by piece. -/
theorem Drawn.sendAll (h : Drawn watched base before running s) (opened : Option (Nat × ItemKind))
    (pieces : List Delta) : Drawn watched base before running (Stream.sendAll s opened pieces).1 := by
  induction pieces generalizing s opened with
  | nil => exact h
  | cons piece rest ih => exact ih (h.send opened piece) _

theorem Drawn.flush (h : Drawn watched base before running s) (out : Stream) :
    Drawn watched base before running (out.flush s).1 :=
  h.sendAll _ _

/-- A run starts, and the window is told. -/
theorem Drawn.starts (h : Drawn watched base before false s) :
    Drawn watched base before true s.starts := by
  refine ⟨⟨h.numbered.apart, h.numbered.below⟩, h.named, fun hwatched => ?_⟩
  refine (h.follows hwatched).step rfl rfl rfl fun conv hshows => ?_
  exact ⟨_, rfl, rfl, rfl, hshows.items, rfl, fun hrest => (by cases hrest)⟩

/-- A run ends, and the window is told the model and what it cost. -/
theorem Drawn.ends (h : Drawn watched base before true s) :
    Drawn watched base before false s.ends := by
  refine ⟨⟨h.numbered.apart, h.numbered.below⟩, h.named, fun hwatched => ?_⟩
  refine (h.follows hwatched).step rfl rfl rfl fun conv hshows => ?_
  exact ⟨_, rfl, rfl, rfl, hshows.items, rfl, fun _ => ⟨if_pos h.named, rfl⟩⟩

theorem Drawn.renamed (h : Drawn watched base before running s) (title : String) :
    Drawn watched base before running (s.renamed title) := by
  refine ⟨⟨h.numbered.apart, h.numbered.below⟩, h.named, fun hwatched => ?_⟩
  refine (h.follows hwatched).step rfl rfl rfl fun conv hshows => ?_
  exact ⟨_, rfl, rfl, rfl, hshows.items, hshows.going, hshows.settled⟩

theorem Drawn.speaks (h : Drawn watched base before false s) (now : Nat) (text composed : String)
    (about : Option AuditConnection) :
    Drawn watched base before false (s.speaks now text composed about) := by
  -- the title and the time are nothing the window is sent, and the text is
  let titled : Session := { s with
    title := if s.title = "" then titleOf text else s.title
    connection := if s.connection = none then about else s.connection
    updated := now }
  have htitled : Drawn watched base before false titled :=
    h.quiet ⟨rfl, rfl, rfl, rfl, rfl, rfl⟩ h.named fun _ => ⟨rfl, rfl⟩
  have hadded := htitled.add (.said .user text)
  exact hadded.quiet ⟨rfl, rfl, rfl, rfl, rfl, rfl⟩ hadded.named fun _ => ⟨rfl, rfl⟩

end Drawing

/-! ## Runs -/

section Runs

variable {watched : Nat → Prop} {base : Conversation} {before : List Event} {c : Config}
  {e : Surroundings} {s t : Session} {r : Run} {choice : Choice}

/-- Readying the chat may name another model, and shows nothing. -/
theorem ready_view {chosen : Provider} {queue : List String} {failed : Option Failure}
    {next : Position} (hnamed : s.model ≠ "")
    (hready : ready s r chosen queue failed = some (t, next)) : SameView s t ∧ t.model ≠ "" := by
  unfold ready at hready
  split at hready
  · dsimp only at hready
    split at hready
    · cases hready
      exact ⟨⟨rfl, rfl, rfl, rfl, rfl, rfl⟩, hnamed⟩
    · cases hready
      exact ⟨⟨rfl, rfl, rfl, rfl, rfl, rfl⟩, chosen.named⟩
  · split at hready
    · split at hready <;> (cases hready; exact ⟨⟨rfl, rfl, rfl, rfl, rfl, rfl⟩, hnamed⟩)
    · dsimp only at hready
      split at hready
      · split at hready
        · cases hready
        · cases hready
          exact ⟨⟨rfl, rfl, rfl, rfl, rfl, rfl⟩, hnamed⟩
      · split at hready <;> (cases hready; exact ⟨⟨rfl, rfl, rfl, rfl, rfl, rfl⟩, hnamed⟩)

theorem Drawn.ended (h : Drawn watched base before true s) (now : Nat) (ending : Option Ending) :
    Drawn watched base before true (ended s now ending) := by
  cases ending with
  | none => exact h.same ⟨rfl, rfl, rfl, rfl, rfl, rfl⟩ h.named
  | some ended =>
    have hadded := h.add (.noticed ended.notice ended.detail ended.reason)
    exact hadded.same ⟨rfl, rfl, rfl, rfl, rfl, rfl⟩ hadded.named

theorem Drawn.callMove {call : ToolCall} {item : Nat} {stage next : Stage} {counter : Nat}
    {happened : List Happening} (h : Drawn watched base before true s)
    (hmove : CallMove c e s r call item choice stage t next counter happened) :
    Drawn watched base before true t := by
  cases hmove with
  | connects | remembers | considers | marks => exact h.changeTool item _
  | poses w agreed ask =>
    have hasked : Drawn watched base before true { s with asks := item :: s.asks } :=
      h.same ⟨rfl, rfl, rfl, rfl, rfl, rfl⟩ h.named
    exact hasked.changeTool item _
  | approvesAll | abandons => exact h.same ⟨rfl, rfl, rfl, rfl, rfl, rfl⟩ h.named
  | _ => exact h

/-- **A step of a run** sends the window what it changes. -/
theorem Drawn.move {m : Moved} (h : Drawn watched base before true s)
    (hmove : Move c e s r choice m) : Drawn watched base before true m.session := by
  cases hmove with
  | takes | answers | counts | settles | skipped =>
    exact h.same ⟨rfl, rfl, rfl, rfl, rfl, rfl⟩ h.named
  | builds chosen queue failed t next hposition hchoice hready =>
    obtain ⟨hview, hnamed⟩ := ready_view h.named hready
    exact h.same hview hnamed
  | flushes out | flushesLate out | closesFailed out | closes out => exact h.flush out
  | skips | passes | calls => exact h.add _
  | works b call item stage next t counter happened hposition hcall => exact h.callMove hcall
  | finishes => exact h.changeTool _ _
  | ends ending => exact h.ended _ ending
  | _ => exact h

end Runs

/-! ## Every interleaving -/

/-- A record whose items are told apart. -/
structure Record.Numbered (kept : Record) : Prop where
  apart : kept.items.Pairwise fun x y => x.id ≠ y.id
  named : kept.model ≠ ""

/-- What is kept up, for the window to show what a snapshot does. -/
def drawing (watched : Nat → Prop) (base : Conversation) (before : List Event) : Upkeep where
  good kept := kept.Numbered
  idle _ s := Drawn watched base before false s
  busy _ s r := Drawn watched base before true s ∧
    ∀ kept, r.position.record = some kept → kept.Numbered
  told _ := True

section Reachable

variable {watched : Nat → Prop} {base : Conversation} {before : List Event} {running : Bool}
  {s : Session}

theorem Drawn.record (h : Drawn watched base before running s) : s.record.Numbered :=
  ⟨h.numbered.apart, h.named⟩

/-- The numbers go on from the largest. -/
theorem le_foldl_max (items : List Item) (first : Nat) :
    first ≤ items.foldl (fun next item => max next item.id) first ∧
      ∀ item ∈ items, item.id ≤ items.foldl (fun next item => max next item.id) first := by
  induction items generalizing first with
  | nil => exact ⟨le_rfl, fun item hitem => absurd hitem List.not_mem_nil⟩
  | cons x rest ih =>
    obtain ⟨hfirst, hrest⟩ := ih (max first x.id)
    rw [List.foldl_cons]
    refine ⟨(Nat.le_max_left _ _).trans hfirst, fun item hitem => ?_⟩
    rcases List.mem_cons.mp hitem with rfl | htail
    · exact (Nat.le_max_right _ _).trans hfirst
    · exact hrest item htail

/-- **What is drawn** is kept up by every step; a conversation put in memory from now on is not
    watched. -/
theorem keeps_drawing (c : Config) {bound : Nat}
    (hbound : ∀ address, bound ≤ address → ¬ watched address) :
    Keeps c .none bound (drawing watched base before) where
  told_nil := trivial
  told_aside _ _ _ _ := trivial
  version kept v h := ⟨h.apart, h.named⟩
  new h id address chosen now hnew := by
    refine ⟨⟨List.Pairwise.nil, fun item hitem => absurd hitem List.not_mem_nil⟩, chosen.named, ?_⟩
    exact fun hwatched => absurd hwatched (hbound address hnew)
  restored h kept address sent hnew hgood _ := by
    refine ⟨⟨hgood.apart, (le_foldl_max kept.items 0).2⟩, hgood.named, ?_⟩
    exact fun hwatched => absurd hwatched (hbound address hnew)
  recorded h s hidle := Drawn.record hidle
  speaks h s now text composed about hidle := Drawn.speaks hidle now text composed about
  starts h s hidle := ⟨Drawn.starts hidle, fun kept hkept => (by cases hkept)⟩
  idle_renamed h s title hidle := Drawn.renamed hidle title
  busy_renamed h s r title hbusy := ⟨hbusy.1.renamed title, hbusy.2⟩
  idle_decides h s item decision _ hidle :=
    Drawn.quiet hidle ⟨rfl, rfl, rfl, rfl, rfl, rfl⟩ hidle.named fun _ => ⟨rfl, rfl⟩
  busy_decides h s r item decision _ hbusy :=
    ⟨hbusy.1.same ⟨rfl, rfl, rfl, rfl, rfl, rfl⟩ hbusy.1.named, hbusy.2⟩
  stops h s r hbusy _ := hbusy
  idle_elsewhere h s event _ hidle := hidle
  busy_elsewhere h s r event _ _ hbusy := hbusy
  run h e s r choice m _ hbusy _ _ hmove := by
    have hdrawn := hbusy.1.move hmove
    refine ⟨⟨hdrawn, fun kept hkept => ?_⟩, trivial⟩
    rw [hmove.record hkept]
    exact hdrawn.record
  keeping h s r kept next hbusy hposition hnext := by
    refine ⟨hbusy.1, fun kept' hkept' => hbusy.2 kept' ?_⟩
    rcases hnext with rfl | rfl
    · cases hkept'
    · rw [hposition]
      exact hkept'
  saving h s r kept hbusy hposition := by
    refine ⟨hbusy.2 kept ?_, hbusy.1, fun kept' hkept' => (by cases hkept')⟩
    rw [hposition]
    rfl
  closing h s r hbusy _ := Drawn.ends hbusy.1

/-- An event that is applied leaves the conversation the same one, no earlier than before. -/
theorem applyEvent_later {conv next : Conversation} {event : Event}
    (h : applyEvent conv event = some next) : next.session = conv.session ∧ conv.seq ≤ next.seq := by
  unfold applyEvent at h
  split at h
  · cases h
    exact ⟨rfl, le_rfl⟩
  · rename_i hlater
    split at h
    · cases h
    · have hseq : conv.seq ≤ event.seq := (Nat.lt_of_not_le (not_or.mp hlater).2).le
      cases hchange : event.change with
      | item | delta =>
        simp only [hchange, applyChange] at h
        split at h <;> (cases h; try exact ⟨rfl, hseq⟩)
      | _ =>
        simp only [hchange, applyChange] at h
        cases h
        exact ⟨rfl, hseq⟩

/-- **Events a snapshot has already** change nothing, nor do those of another conversation. -/
theorem applyEvents_filter {conv : Conversation} {n : Nat} (hn : n ≤ conv.seq)
    (events : List Event) :
    applyEvents conv (events.filter fun event => event.session = conv.session ∧ n < event.seq) =
      applyEvents conv events := by
  generalize hid : conv.session = id
  induction events generalizing conv with
  | nil => rfl
  | cons event rest ih =>
    by_cases hcounts : event.session = id ∧ n < event.seq
    · rw [List.filter_cons, if_pos (decide_eq_true hcounts), applyEvents_cons, applyEvents_cons]
      cases happly : applyEvent conv event with
      | none => rfl
      | some next =>
        obtain ⟨hsame, hlater⟩ := applyEvent_later happly
        exact ih (hn.trans hlater) (hsame.trans hid)
    · have hstale : event.session ≠ conv.session ∨ event.seq ≤ conv.seq := by
        rw [hid]
        rcases not_and_or.mp hcounts with hother | hearlier
        · exact .inl hother
        · exact .inr ((Nat.le_of_not_lt hearlier).trans hn)
      rw [List.filter_cons, if_neg (mt of_decide_eq_true hcounts), ih hn hid, applyEvents_cons,
        applyEvent, if_pos hstale]
      rfl

/-- What is kept up from a state on in which the conversation was given a snapshot of. -/
theorem upheld_snapshot {c : Config} {t : Threads World Errand}
    (ht : (manager c).Reachable Machine.Always t) {id : String}
    (hs : t.shared.sessions[id]? = some s) :
    Upheld (s.address + 1)
      (drawing (· = s.address) (fromSnapshot (s.snapshot (t.shared.isRunning s))) s.sent) t := by
  have hupheld : Upheld 0 (drawing (fun _ => False) (fromSnapshot (s.snapshot false)) []) t :=
    (keeps_drawing c fun _ _ hwatched => hwatched).always ht
  obtain ⟨⟨horderly, hidle, hbusy, -, hgood⟩, hcarried, -⟩ := hupheld
  have hfollows : Follows (fromSnapshot (s.snapshot (t.shared.isRunning s))) s.sent s
      (t.shared.isRunning s) :=
    ⟨[], _, rfl, rfl, rfl, fun event hevent => absurd hevent List.not_mem_nil, rfl,
      shows_snapshot s _⟩
  refine ⟨⟨⟨horderly.below id s hs, horderly.keyed, horderly.below, horderly.apart,
    horderly.drawn, horderly.filed, horderly.answering, horderly.keeping, horderly.foreign⟩,
    fun other u hu hrest => ?_, fun r u hr hu => ?_, trivial, hgood⟩, hcarried,
    fun _ _ _ _ _ _ _ => trivial⟩
  · obtain ⟨hnumbered, hnamed, -⟩ := hidle other u hu hrest
    refine ⟨hnumbered, hnamed, fun hsame => ?_⟩
    obtain rfl := horderly.apart other id u s hu hs hsame
    obtain rfl := Option.some.inj (hu.symm.trans hs)
    rw [hrest] at hfollows ⊢
    exact hfollows
  · obtain ⟨⟨hnumbered, hnamed, -⟩, hrecord⟩ := hbusy r u hr hu
    refine ⟨⟨hnumbered, hnamed, fun hsame => ?_⟩, hrecord⟩
    have hid := horderly.apart r.id id u s hu hs hsame
    obtain rfl := Option.some.inj ((hid ▸ hu).symm.trans hs)
    have hrunning : t.shared.isRunning u = true :=
      World.isRunning_iff.mpr ⟨r, hr, (horderly.running hs hr).mpr hid⟩
    rw [hrunning] at hfollows ⊢
    exact hfollows

/-- **Events replay to the snapshot.** From a snapshot of any reachable state on, and to any later
    one of the conversation in memory, the events sent in between are numbered one by one, and
    applied to the first snapshot they give the second; so do they among any that came before. -/
theorem events_replay {c : Config} {t u : Threads World Errand}
    (ht : (manager c).Reachable Machine.Always t) {lives : List (Program.Life Errand Say Around)}
    (hrun : (manager c).run t lives = some u) {id : String} {s s' : Session}
    (hs : t.shared.sessions[id]? = some s) (hs' : u.shared.sessions[id]? = some s')
    (hsame : s'.address = s.address) :
    ∃ events conv, s'.sent = events.reverse ++ s.sent ∧ s'.seq = s.seq + events.length ∧
      events.map Event.seq = List.range' (s.seq + 1) events.length ∧
      (∀ event ∈ events, event.session = s.id) ∧
      applyEvents (fromSnapshot (s.snapshot (t.shared.isRunning s))) events = some conv ∧
      Shows conv s' (u.shared.isRunning s') ∧
      ∀ more : List Event,
        (more.filter fun event => event.session = s.id ∧ s.seq < event.seq) = events →
        applyEvents (fromSnapshot (s.snapshot (t.shared.isRunning s))) more = some conv := by
  have hupheld := (keeps_drawing c fun address hnew hwatched => by omega).through
    (upheld_snapshot ht hs) (Limits.none_permitted t lives) hrun
  have hfollows : Follows (fromSnapshot (s.snapshot (t.shared.isRunning s))) s.sent s'
      (u.shared.isRunning s') := by
    cases hrunning : u.shared.isRunning s' with
    | false => exact (hupheld.shared.idle id s' hs' hrunning).follows hsame
    | true =>
      obtain ⟨r, hr, haddress⟩ := World.isRunning_iff.mp hrunning
      have hid := (hupheld.shared.orderly.running hs' hr).mp haddress
      exact (hupheld.shared.busy r s' hr (hid ▸ hs')).1.follows hsame
  have hid : s'.id = s.id := by
    rw [hupheld.shared.orderly.keyed id s' hs']
    have hfirst : Upheld 0 (drawing (fun _ => False) (fromSnapshot (s.snapshot false)) []) t :=
      (keeps_drawing c fun _ _ hwatched => hwatched).always ht
    exact (hfirst.shared.orderly.keyed id s hs).symm
  obtain ⟨events, conv, hsent, hcount, hnumbers, hown, hreplay, hshows⟩ := hfollows
  refine ⟨events, conv, hsent, hcount, hnumbers, hid ▸ hown, hreplay, hshows, fun more hmore => ?_⟩
  have hstale : applyEvents (fromSnapshot (s.snapshot (t.shared.isRunning s)))
      (more.filter fun event => event.session = s.id ∧ s.seq < event.seq) =
        applyEvents (fromSnapshot (s.snapshot (t.shared.isRunning s))) more :=
    applyEvents_filter le_rfl more
  rw [← hstale, hmore]
  exact hreplay

end Reachable

/-- What is left to do once the question is put. -/
def ordersDecided : List (Program.Life Errand Say Around) :=
  called 2 (.decide ordersID 2 ⟨true, false⟩) [.go] ++
    runs [.answer, .go, .append .stored, .go, .run (.done "published" "ok"), .append .stored, .go, .go,
      .turn (.ok ordersLastTurn), .go, .go, .go, .go, .write Archive.whole, .go]

/-- From the question on, the events give the conversation as it is left. -/
theorem events_replay_orders :
    ∃ s s' u events conv, (ordersAfter ordersAsked).shared.sessions[ordersID]? = some s ∧
      (manager ordersConfig).run (ordersAfter ordersAsked) ordersDecided = some u ∧
      u.shared.sessions[ordersID]? = some s' ∧ s'.sent = events.reverse ++ s.sent ∧
      applyEvents (fromSnapshot (s.snapshot ((ordersAfter ordersAsked).shared.isRunning s)))
        events = some conv ∧
      Shows conv s' (u.shared.isRunning s') := by
  have hlater : ((manager ordersConfig).run (ordersAfter ordersAsked) ordersDecided).any (fun u =>
      (u.shared.sessions[ordersID]?).any fun s' =>
        ((ordersAfter ordersAsked).shared.sessions[ordersID]?).any fun s =>
          s'.address = s.address) = true := by
    decide +kernel
  simp only [Option.any_eq_true, decide_eq_true_eq] at hlater
  obtain ⟨u, hrun, s', hs', s, hs, hsame⟩ := hlater
  obtain ⟨events, conv, hsent, -, -, -, hreplay, hshows, -⟩ :=
    events_replay (ordersAfter_reachable ordersAsked) hrun hs hs' hsame
  exact ⟨s, s', u, events, conv, hs, hrun, hs', hsent, hreplay, hshows⟩

/-! ## A conversation that was forgotten -/

/-- A deletion that fails forgets the conversation, and it is opened again. -/
def ordersReopened : List (Program.Life Errand Say Around) :=
  called 0 (.delete ordersID) [.go, .write 0] ++
    called 1 (.opening ordersID .snapshot) [.go, .go, .go, .go]

/-- **A conversation that was forgotten** is read back behind the snapshot it was given before: it
    counts its events again. -/
theorem reopened_behind :
    ∃ u s s', (manager ordersConfig).Reachable Machine.Always (ordersAfter ordersAnswered) ∧
      (manager ordersConfig).run (ordersAfter ordersAnswered) ordersReopened = some u ∧
      (ordersAfter ordersAnswered).shared.sessions[ordersID]? = some s ∧
      u.shared.sessions[ordersID]? = some s' ∧
      ∀ events conv, (∀ event ∈ events, s.seq < event.seq ∧ event.seq ≤ s'.seq) →
        applyEvents
          (fromSnapshot (s.snapshot ((ordersAfter ordersAnswered).shared.isRunning s)))
          events = some conv →
        conv.seq ≠ s'.seq := by
  have hlater : ((manager ordersConfig).run (ordersAfter ordersAnswered) ordersReopened).any
      (fun u => (u.shared.sessions[ordersID]?).any fun s' =>
        ((ordersAfter ordersAnswered).shared.sessions[ordersID]?).any fun s =>
          s'.seq < s.seq) = true := by
    decide +kernel
  simp only [Option.any_eq_true, decide_eq_true_eq] at hlater
  obtain ⟨u, hrun, s', hs', s, hs, hbehind⟩ := hlater
  refine ⟨u, s, s', ordersAfter_reachable ordersAnswered, hrun, hs, hs',
    fun events conv hevents hreplay => ?_⟩
  -- no number is between the two
  have hnone : events = [] := by
    apply List.eq_nil_iff_forall_not_mem.mpr
    intro event hevent
    have hbetween := hevents event hevent
    omega
  subst hnone
  cases hreplay
  exact (Nat.ne_of_lt hbehind).symm

end MqStudio.Assistant
