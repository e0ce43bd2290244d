import MqStudio.Assistant.Session
import MqStudio.Lib.Runs

/-!
# Streaming

A turn's text on its way to the conversation: `stream` of `internal/agent/assistant/run.go`. Deltas
are held until a timer flushes them; a flush adds an item or appends to the one that is open. The
timer may fire between any two deltas, and once more after the stream was closed.

## Main definitions

- `runs`: the maximal runs of deltas of one kind that are not empty.
- `streamed`: the conversation after a turn.

## Main results

- `stream_says`: the items added are the runs, wherever the flushes fell.
-/

namespace MqStudio.Assistant

open MqStudio.Lib

namespace Stream

/-! ## A turn -/

/-- What happens to a stream before it is closed. -/
inductive Event where
  | delta (piece : Delta)
  | flush
  deriving DecidableEq

/-- One event; the timer's function is `flush`. -/
def step (state : Session × Stream) : Event → Session × Stream
  | .delta piece => (state.1, state.2.add piece)
  | .flush => state.2.flush state.1

/-- The delta of an event. -/
def Event.piece? : Event → Option Delta
  | .delta piece => some piece
  | .flush => none

/-- The deltas of a turn. -/
def deltas (events : List Event) : List Delta := events.filterMap Event.piece?

/-- A turn: events, the close, and the timer firing so many times after it. -/
def streamed (s : Session) (events : List Event) (late : Nat) : Session :=
  let heard := events.foldl step (s, empty)
  let closed := step heard .flush
  ((List.replicate late Event.flush).foldl step closed).1

/-- The maximal runs of one kind, of what is not empty. -/
def runs (deltas : List Delta) : List (List Delta) :=
  (deltas.filter fun piece => piece.text ≠ "").splitBy fun a b => decide (a.thinking = b.thinking)

/-- What a run says in one piece. -/
def spoken (run : List Delta) : Delta := ⟨run.any Delta.thinking, String.join (run.map Delta.text)⟩

/-- A piece as an item. -/
def itemOf (id : Nat) (piece : Delta) : Item := { Item.said piece.kind piece.text with id := id }

/-- Pieces as items, with the ids that come after `next`. -/
def items (next : Nat) : List Delta → List Item
  | [] => []
  | piece :: rest => itemOf (next + 1) piece :: items (next + 1) rest

/-! ## Merging -/

/-- What `add` does to two deltas of one kind. -/
def merge (last delta : Delta) : Delta := { last with text := last.text ++ delta.text }

/-- One more piece. -/
abbrev push : List Delta → Delta → List Delta := Runs.push Delta.thinking merge

theorem lawful_merge : Runs.Lawful Delta.thinking merge where
  key_merge _ _ := rfl
  assoc a b c := by simp [merge, String.append_assoc]

theorem kind_inj {a b : Delta} : a.kind = b.kind ↔ a.thinking = b.thinking := by
  unfold Delta.kind
  cases a.thinking <;> cases b.thinking <;> simp

/-- `add` merges into what is held. -/
theorem pending_add (o : Stream) (piece : Delta) : (o.add piece).pending =
    if piece.text = "" then o.pending else push o.pending piece := by
  unfold add push Runs.push merge
  by_cases hempty : piece.text = ""
  · rw [if_pos hempty, if_pos hempty]
  · rw [if_neg hempty, if_neg hempty]
    cases o.pending.getLast? <;> rfl

theorem opened_add (o : Stream) (piece : Delta) : (o.add piece).opened = o.opened := by
  unfold add
  split <;> rfl

theorem foldl_merge (first : Delta) (rest : List Delta) : rest.foldl merge first =
    ⟨first.thinking, (rest.map Delta.text).foldl (fun said more => said ++ more) first.text⟩ := by
  induction rest generalizing first with
  | nil => rfl
  | cons piece rest ih => exact ih (merge first piece)

/-- A run, merged, is what it says. -/
theorem joined_eq (first : Delta) (rest : List Delta)
    (h : ∀ piece ∈ rest, piece.thinking = first.thinking) :
    Runs.joined merge (first :: rest) = some (spoken (first :: rest)) := by
  have hkind : (first :: rest).any Delta.thinking = first.thinking := by
    cases hthinking : first.thinking with
    | true => rw [List.any_cons, hthinking, Bool.true_or]
    | false =>
      rw [List.any_eq_false]
      intro piece hpiece
      rcases List.mem_cons.mp hpiece with rfl | hrest
      · rw [hthinking]
        exact Bool.false_ne_true
      · rw [h piece hrest, hthinking]
        exact Bool.false_ne_true
  have htexts : String.join ((first :: rest).map Delta.text) =
      (rest.map Delta.text).foldl (fun said more => said ++ more) first.text := by
    rw [List.map_cons, String.join, List.foldl_cons, String.empty_append]
  rw [Runs.joined, foldl_merge, spoken, hkind, htexts]

/-- **The runs**, each in one piece. -/
theorem merged_eq (pieces : List Delta) :
    Runs.merged Delta.thinking merge (pieces.filter fun piece => piece.text ≠ "") =
      (runs pieces).map spoken := by
  obtain ⟨hmerged, hruns⟩ := Runs.merged_eq_filterMap lawful_merge
    (pieces.filter fun piece => piece.text ≠ "")
  rw [hmerged]
  show (runs pieces).filterMap (Runs.joined merge) = (runs pieces).map spoken
  rw [← List.filterMap_eq_map]
  apply List.filterMap_congr
  intro run hrun
  obtain ⟨b, hb, hkeys⟩ := hruns run hrun
  cases run with
  | nil => cases hb
  | cons first rest =>
    refine joined_eq first rest fun piece hpiece => ?_
    rw [hkeys piece (List.mem_cons_of_mem _ hpiece), hkeys first List.mem_cons_self]

/-! ## Sending -/

/-- **What was sent**: the items are those of the pieces, and the last of them is open. -/
structure Sent (s : Session) (pieces : List Delta) (t : Session) (opened : Option (Nat × ItemKind)) :
    Prop where
  items : t.items = s.items ++ items s.next pieces
  next : t.next = s.next + pieces.length
  opened : opened = pieces.getLast?.map fun last => (s.next + pieces.length, last.kind)

variable {s t : Session} {pieces : List Delta} {opened : Option (Nat × ItemKind)}

theorem items_append (next : Nat) (pieces more : List Delta) :
    items next (pieces ++ more) = items next pieces ++ items (next + pieces.length) more := by
  induction pieces generalizing next with
  | nil => rfl
  | cons piece rest ih =>
    rw [List.cons_append, items, items, ih, List.cons_append, List.length_cons]
    congr 3
    omega

/-- A new item. -/
theorem Sent.add (h : Sent s pieces t opened) (piece : Delta) :
    Sent s (pieces ++ [piece]) (t.add (.said piece.kind piece.text))
      (some (t.next + 1, piece.kind)) := by
  constructor
  case items =>
    show t.items ++ [_] = _
    rw [h.items, items_append, List.append_assoc, h.next]
    rfl
  case next =>
    show t.next + 1 = _
    rw [h.next, List.length_append]
    rfl
  case opened =>
    rw [List.getLast?_concat, Option.map_some, h.next, List.length_append]
    rfl

/-- More text in the open item. -/
theorem Sent.append {last piece : Delta} (h : Sent s (pieces ++ [last]) t opened) :
    Sent s (pieces ++ [merge last piece]) (t.append (s.next + (pieces ++ [last]).length) piece.text)
      opened := by
  have hlength : (pieces ++ [last]).length = pieces.length + 1 := List.length_append
  have hitems : t.items = (s.items ++ Stream.items s.next pieces) ++
      [itemOf (s.next + (pieces ++ [last]).length) last] := by
    rw [h.items, items_append, List.append_assoc, hlength]
    rfl
  -- The open item is the last one, so it is the one that is found.
  have hfound : Updates.changeLast (fun one : Item => one.id = s.next + (pieces ++ [last]).length)
      (fun one => { one with text := one.text ++ piece.text }) t.items =
        some ((s.items ++ Stream.items s.next pieces) ++
          [itemOf (s.next + (pieces ++ [last]).length) (merge last piece)],
            itemOf (s.next + (pieces ++ [last]).length) (merge last piece)) := by
    rw [hitems]
    exact Updates.changeLast_concat (decide_eq_true rfl)
  have happend : t.append (s.next + (pieces ++ [last]).length) piece.text =
      { t with items := (s.items ++ Stream.items s.next pieces) ++
        [itemOf (s.next + (pieces ++ [last]).length) (merge last piece)] }.emit
          (.delta (s.next + (pieces ++ [last]).length) piece.text) := by
    rw [Session.append, hfound]
  rw [happend]
  constructor
  case items =>
    show (s.items ++ Stream.items s.next pieces) ++ [_] = _
    rw [items_append, List.append_assoc, hlength]
    rfl
  case next =>
    show t.next = _
    rw [h.next, hlength, List.length_append]
    rfl
  case opened =>
    rw [h.opened, List.getLast?_concat, List.getLast?_concat, hlength, List.length_append]
    rfl

/-- **Step lemma**: a piece is sent as one more push. -/
theorem Sent.send (h : Sent s pieces t opened) (piece : Delta) :
    Sent s (push pieces piece) (Stream.send t opened piece).1 (Stream.send t opened piece).2 := by
  rcases List.eq_nil_or_concat' pieces with rfl | ⟨front, last, rfl⟩
  · have hnone : opened = none := h.opened
    rw [hnone]
    exact h.add piece
  · have hsome : opened = some (s.next + (front ++ [last]).length, last.kind) := by
      rw [h.opened, List.getLast?_concat]
      rfl
    by_cases hkind : last.kind = piece.kind
    · rw [push, Runs.push_same (kind_inj.mp hkind), hsome, Stream.send]
      rw [if_pos hkind, ← hsome]
      exact h.append
    · rw [push, Runs.push_other (fun heq => hkind (kind_inj.mpr heq)), hsome, Stream.send]
      rw [if_neg hkind]
      exact h.add piece

theorem Sent.sendAll (h : Sent s pieces t opened) (more : List Delta) :
    Sent s (more.foldl push pieces) (Stream.sendAll t opened more).1
      (Stream.sendAll t opened more).2 := by
  induction more generalizing pieces t opened with
  | nil => exact h
  | cons piece rest ih => exact ih (h.send piece)

/-! ## A whole turn -/

/-- **Between events**: what was sent, with what is held pushed onto it, is what was heard. -/
structure Heard (s : Session) (heard : List Delta) (state : Session × Stream) : Prop where
  sent : ∃ pieces, Sent s pieces state.1 state.2.opened ∧
    state.2.pending.foldl push pieces =
      Runs.merged Delta.thinking merge (heard.filter fun piece => piece.text ≠ "")

theorem heard_start (s : Session) : Heard s [] (s, empty) :=
  ⟨[], ⟨(List.append_nil _).symm, rfl, rfl⟩, rfl⟩

variable {heard : List Delta} {state : Session × Stream}

theorem Heard.add (h : Heard s heard state) (piece : Delta) :
    Heard s (heard ++ [piece]) (state.1, state.2.add piece) := by
  obtain ⟨pieces, hsent, hheld⟩ := h.sent
  refine ⟨pieces, ?_, ?_⟩
  · rw [opened_add]
    exact hsent
  · rw [pending_add, List.filter_append]
    by_cases hempty : piece.text = ""
    · rw [if_pos hempty, hheld]
      simp [hempty]
    · have hone : [piece].filter (fun piece => piece.text ≠ "") = [piece] := by
        simp [hempty]
      rw [if_neg hempty, hone, push, Runs.foldl_push lawful_merge, hheld]
      rw [Runs.merged, Runs.merged, List.foldl_append]
      rfl

theorem Heard.flush (h : Heard s heard state) : Heard s heard (state.2.flush state.1) := by
  obtain ⟨pieces, hsent, hheld⟩ := h.sent
  exact ⟨_, hsent.sendAll state.2.pending, hheld⟩

/-- **Run lemma**: so it is after any events. -/
theorem Heard.run (h : Heard s heard state) (events : List Event) :
    Heard s (heard ++ deltas events) (events.foldl step state) := by
  induction events generalizing heard state with
  | nil =>
    rw [deltas, List.filterMap_nil, List.append_nil]
    exact h
  | cons event rest ih =>
    cases event with
    | delta piece =>
      have hrest := ih (h.add piece)
      rw [List.append_assoc] at hrest
      exact hrest
    | flush => exact ih h.flush

/-- A flush of nothing sends nothing. -/
theorem flush_late (state : Session × Stream) (hnone : state.2.pending = []) (late : Nat) :
    ((List.replicate late Event.flush).foldl step state).1 = state.1 := by
  induction late generalizing state with
  | zero => rfl
  | succ late ih =>
    rw [List.replicate_succ, List.foldl_cons, ih]
    · show (Stream.sendAll state.1 state.2.opened state.2.pending).1 = state.1
      rw [hnone]
      rfl
    · rfl

/-- **Streaming does not change what was said**: the items added are the runs of what is not empty, in
    order, wherever the flushes fell. -/
theorem stream_says (s : Session) (events : List Event) (late : Nat) :
    (streamed s events late).items = s.items ++ items s.next ((runs (deltas events)).map spoken) := by
  have hheard := ((heard_start s).run events).flush
  obtain ⟨pieces, hsent, hheld⟩ := hheard.sent
  have hpieces : pieces = (runs (deltas events)).map spoken := by
    rw [← merged_eq]
    exact hheld
  rw [streamed, flush_late _ rfl, ← hpieces]
  exact hsent.items

end Stream

end MqStudio.Assistant
