import MqStudio.Lib.LogReader
import MqStudio.Lib.Machine
import MqStudio.Model.Tail

/-!
# The JetStream Tail

`TailMessages` of `internal/driver/nats/message.go`, against a stream that is published to and
trimmed at any moment, also between the two requests of a poll: its info, then its fetch. A fetch
returns so many messages of the stream from a sequence on, or fewer where its wait runs out.

The cursor is one number, in which zero says that the tail has not started.

## Main results

- `natsTail_missesNothing`: a run misses nothing in which no started tail polls a stream from position
  zero that holds a message, and no trim comes between what a poll reads and what it fetches.
- `first_message_skipped`: a quiet stream's first message is skipped.
-/

namespace MqStudio.Driver.Nats

open MqStudio.Lib
open MqStudio.Lib.Machine
open MqStudio.Model

variable {α : Type}

/-- `maxBrowse` -/
def maxBrowse : Nat := 500

/-- What `TailMessages` reads of a stream's info. -/
structure StreamInfo where
  firstSeq : Nat
  lastSeq : Nat
  cluster : Option String
  deriving DecidableEq

/-- `streamLeader` -/
def streamLeader (info : StreamInfo) : String := info.cluster.getD ""

/-- `tailPosition`: zero means a tail that has not started. -/
def tailPosition (cursor : TailCursor) : Nat :=
  match cursor.positions with
  | [] => 0
  | position :: _ => if position.offset < 0 then 0 else position.offset.toNat

/-- A poll that found something to fetch: from where, how much, and what it will answer. -/
structure Fetching where
  next : Nat
  limit : Nat
  cursor : TailCursor
  dropped : Nat
  deriving DecidableEq

/-- The cursor of a batch. -/
def cursorAt (info : StreamInfo) (offset : Int) : TailCursor := ⟨[⟨streamLeader info, 0, offset⟩]⟩

/-- `TailMessages` up to its fetch: the answer where nothing is new. -/
def beginTail (cursor : TailCursor) (limit : Int) (info : StreamInfo) :
    TailBatch (Numbered α) ⊕ Fetching :=
  let limit := if limit ≤ 0 ∨ (maxBrowse : Int) < limit then maxBrowse else limit.toNat
  let after := tailPosition cursor
  let first := after == 0
  let next := if first then info.lastSeq + 1 else after + 1
  -- what aged out between two polls is counted
  let aged := !first && next < info.firstSeq
  let dropped := if aged then info.firstSeq - next else 0
  let next := if aged then info.firstSeq else next
  let batchCursor := cursorAt info ((next : Int) - 1)
  if info.lastSeq < next then .inl ⟨[], batchCursor, dropped⟩
  else .inr ⟨next, min limit (info.lastSeq - next + 1), batchCursor, dropped⟩

/-- `TailMessages` from its fetch on: the cursor moves to the last message fetched. -/
def endTail (poll : Fetching) (fetched : List (Numbered α)) : TailBatch (Numbered α) :=
  let highest := (fetched.getLast?.map Numbered.seq).getD (poll.next - 1)
  ⟨fetched, ⟨poll.cursor.positions.map fun p => { p with offset := highest }⟩, poll.dropped⟩

/-! ## A stream and its tail -/

/-- `StreamInfo.State.FirstSeq`: zero while nothing was ever stored. -/
def firstSeq (stream : BoundedLog α) : Nat :=
  if stream.arrived = [] then 0 else stream.discarded + 1

/-- `stream.Info` -/
def infoOf (stream : BoundedLog α) (cluster : Option String) : StreamInfo where
  firstSeq := firstSeq stream
  lastSeq := stream.arrived.length
  cluster := cluster

/-- The stream, the cursor that is fed back, the poll under way, and what the polls returned: where
    the first of them found the end, the messages, and the sequences counted in `Dropped`. -/
structure Tail (α : Type) where
  stream : BoundedLog α
  cursor : TailCursor
  polling : Option Fetching
  opened : Option Nat
  returned : List (Numbered α)
  gone : List Nat

namespace Tail

/-- A poll's answer reaches the caller. -/
def answered (t : Tail α) (batch : TailBatch (Numbered α)) : Tail α where
  stream := t.stream
  cursor := batch.cursor
  polling := none
  opened := some (t.opened.getD t.stream.arrived.length)
  returned := t.returned ++ batch.messages
  gone := t.gone ++ List.range' (tailPosition t.cursor + 1) batch.dropped

/-- What the caller has read. -/
def reader (t : Tail α) : Reader α :=
  ⟨t.opened.getD 0, tailPosition t.cursor, t.returned, t.gone⟩

end Tail

/-- What happens to a stream and its tail. -/
inductive Event (α : Type) where
  | publish (content : α)
  | trim (place : Nat)
  /-- A poll asks for the stream's info. -/
  | info (limit : Int) (cluster : Option String)
  /-- The fetch of a poll is answered with that many messages at most. -/
  | fetch (most : Nat)
  /-- A request of a poll fails. -/
  | fail

/-- What a fetch finds. -/
def fetched (stream : BoundedLog α) (poll : Fetching) (most : Nat) : List (Numbered α) :=
  ((numbered stream.arrived).drop (max (poll.next - 1) stream.discarded)).take
    (min most poll.limit)

/-- One event. -/
def step (t : Tail α) : Event α → Option (Tail α)
  | .publish content => some { t with stream := t.stream.append content }
  | .trim place => some { t with stream := t.stream.trim place }
  | .info limit cluster =>
    if t.polling.isSome then none
    else
      match beginTail t.cursor limit (infoOf t.stream cluster) with
      | .inl batch => some (t.answered batch)
      | .inr poll => some { t with polling := some poll }
  | .fetch most =>
    match t.polling with
    | none => none
    | some poll => some (t.answered (endTail poll (fetched t.stream poll most)))
  | .fail => some { t with polling := none }

/-- A stream nobody tails yet. -/
def Untouched (t : Tail α) : Prop :=
  t.stream.discarded ≤ t.stream.arrived.length ∧ t = ⟨t.stream, ⟨[]⟩, none, none, [], []⟩

/-- Every interleaving of publishes, trims and polls. -/
def tails (α : Type) : Machine (Tail α) (Event α) := ⟨Untouched, step⟩

/-- A step that skips nothing silently: a tail that started does not poll from position zero a
    stream that stored something, and what a poll asks for is not trimmed before it is fetched,
    unless nothing is left to fetch. -/
def Steady (t : Tail α) : Event α → Prop
  | .info _ _ => t.opened.isSome → tailPosition t.cursor = 0 → t.stream.arrived = []
  | .fetch most => ∀ poll ∈ t.polling, most = 0 ∨ t.stream.discarded < poll.next ∨
      t.stream.arrived.length ≤ t.stream.discarded
  | _ => True

instance [DecidableEq α] (t : Tail α) : (event : Event α) → Decidable (Steady t event)
  | .info _ _ => inferInstanceAs (Decidable (_ → _ → _))
  | .fetch _ => inferInstanceAs (Decidable (∀ poll ∈ t.polling, _))
  | .publish _ | .trim _ | .fail => .isTrue trivial

/-- A poll that nothing comes in between of, and whose fetch is answered in full. -/
def polled (t : Tail α) (limit : Int) (cluster : Option String) : Tail α :=
  match step t (.info limit cluster) with
  | none => t
  | some asked => (step asked (.fetch maxBrowse)).getD asked

/-- How many messages a poll asks for at most. -/
def clamp (limit : Int) : Nat :=
  if limit ≤ 0 ∨ (maxBrowse : Int) < limit then maxBrowse else limit.toNat

/-- **A tail misses nothing**: all that was stored after the first poll and is behind the cursor was
    returned, in order, or counted as gone; and what waits is what the next poll returns. -/
structure MissesNothing (t : Tail α) : Prop where
  complete : t.opened.isSome → Complete (fun _ => true) t.stream t.reader
  inOrder : t.reader.InOrder
  waiting : t.opened.isSome → t.polling = none → ∀ limit cluster, Steady t (.info limit cluster) →
    (polled t limit cluster).returned = t.returned ++
      ((numbered t.stream.arrived).drop (max t.reader.position t.stream.discarded)).take
        (clamp limit)

/-! ## The two halves of a poll -/

theorem clamp_le (limit : Int) : clamp limit ≤ maxBrowse := by
  simp only [clamp]
  split <;> omega

@[simp] theorem tailPosition_cursorAt (info : StreamInfo) (place : Nat) :
    tailPosition (cursorAt info place) = place := by
  have hplace : ¬ (place : Int) < 0 := by omega
  simp [tailPosition, cursorAt, hplace]

/-- From position zero a poll starts at the end. -/
theorem beginTail_zero {cursor : TailCursor} (hcursor : tailPosition cursor = 0) (limit : Int)
    (info : StreamInfo) :
    (beginTail cursor limit info : TailBatch (Numbered α) ⊕ Fetching) =
      .inl ⟨[], cursorAt info info.lastSeq, 0⟩ := by
  simp [beginTail, hcursor]

/-- From any other a poll starts behind the position, or at what the stream still holds. -/
theorem beginTail_positive {cursor : TailCursor} {stream : BoundedLog α} {place : Nat}
    (hplace : place = max (tailPosition cursor) stream.discarded)
    (hcursor : 0 < tailPosition cursor)
    (hend : tailPosition cursor ≤ stream.arrived.length) (limit : Int) (cluster : Option String) :
    (beginTail cursor limit (infoOf stream cluster) : TailBatch (Numbered α) ⊕ Fetching) =
      if stream.arrived.length ≤ place then
        .inl ⟨[], cursorAt (infoOf stream cluster) place, place - tailPosition cursor⟩
      else
        .inr ⟨place + 1, min (clamp limit) (stream.arrived.length - place),
          cursorAt (infoOf stream cluster) place, place - tailPosition cursor⟩ := by
  have hstored : stream.arrived ≠ [] := by
    intro hnone
    simp only [hnone, List.length_nil] at hend
    omega
  have hfirst : (tailPosition cursor == 0) = false := by simpa using hcursor.ne'
  have hseq : firstSeq stream = stream.discarded + 1 := by simp [firstSeq, hstored]
  have hnext : (if tailPosition cursor + 1 < stream.discarded + 1 then stream.discarded + 1
      else tailPosition cursor + 1) = place + 1 := by split <;> omega
  have hgone : (if tailPosition cursor + 1 < stream.discarded + 1 then
      stream.discarded + 1 - (tailPosition cursor + 1) else 0) = place - tailPosition cursor := by
    split <;> omega
  have hoffset : ((place + 1 : Nat) : Int) - 1 = place := by omega
  simp only [beginTail, infoOf, hfirst, hseq, Bool.not_false, Bool.true_and, Bool.false_eq_true,
    if_false, clamp, decide_eq_true_eq, hnext, hgone, hoffset]
  by_cases hnew : stream.arrived.length ≤ place
  · rw [if_pos (Nat.lt_succ_of_le hnew), if_pos hnew]
  · have havailable : stream.arrived.length - (place + 1) + 1 = stream.arrived.length - place := by
      omega
    rw [if_neg (fun hlt => hnew (Nat.le_of_lt_succ hlt)), if_neg hnew, havailable]

/-! ## Nothing is missed -/

/-- What holds of a stream and its tail all along. -/
structure Sound (t : Tail α) : Prop where
  stored : t.stream.discarded ≤ t.stream.arrived.length
  unopened : t.opened = none → t = ⟨t.stream, ⟨[]⟩, none, none, [], []⟩
  complete : t.opened.isSome → Complete (fun _ => true) t.stream t.reader
  inOrder : t.reader.InOrder
  /-- What a poll under way asks for is where the cursor is, past what it counts as gone. -/
  polling : ∀ poll, t.polling = some poll → t.opened.isSome ∧
    poll.next = tailPosition t.cursor + poll.dropped + 1 ∧
    poll.next - 1 ≤ max (tailPosition t.cursor) t.stream.discarded ∧
    ∃ info : StreamInfo, poll.cursor = cursorAt info (poll.next - 1 : Nat)

/-- The cursor an answer leaves. -/
theorem tailPosition_endTail {poll : Fetching} {info : StreamInfo}
    (hcursor : poll.cursor = cursorAt info (poll.next - 1 : Nat)) (read : List (Numbered α)) :
    tailPosition (endTail poll read).cursor =
      (read.getLast?.map Numbered.seq).getD (poll.next - 1) := by
  have hplace : ¬ (((read.getLast?.map Numbered.seq).getD (poll.next - 1) : Nat) : Int) < 0 := by
    omega
  simp [endTail, hcursor, cursorAt, tailPosition, hplace]

/-- **An answer** moves the reader past what is gone, and past what was fetched. -/
theorem reader_answered {t : Tail α} {batch : TailBatch (Numbered α)} (hopened : t.opened.isSome)
    (hcursor : tailPosition batch.cursor =
      (batch.messages.getLast?.map Numbered.seq).getD (tailPosition t.cursor + batch.dropped)) :
    (t.answered batch).reader =
      (t.reader.skip (tailPosition t.cursor + batch.dropped)).take batch.messages
        batch.messages := by
  obtain ⟨o, ho⟩ := Option.isSome_iff_exists.mp hopened
  simp [Tail.reader, Tail.answered, Reader.skip, Reader.take, ho, hcursor]

theorem Sound.answered {t : Tail α} (h : Sound t) {batch : TailBatch (Numbered α)}
    (hopened : t.opened.isSome)
    (hcursor : tailPosition batch.cursor =
      (batch.messages.getLast?.map Numbered.seq).getD (tailPosition t.cursor + batch.dropped))
    (hgone : tailPosition t.cursor + batch.dropped ≤
      max (tailPosition t.cursor) t.stream.discarded)
    (hread : batch.messages <+:
      (numbered t.stream.arrived).drop (tailPosition t.cursor + batch.dropped)) :
    Sound (t.answered batch) := by
  have hskipped := (h.complete hopened).skip hgone h.stored
  have hplace : (t.reader.skip (tailPosition t.cursor + batch.dropped)).position =
      tailPosition t.cursor + batch.dropped := by
    simp [Tail.reader, Reader.skip]
  have hahead : batch.messages <+: t.stream.ahead (fun _ => true)
      (t.reader.skip (tailPosition t.cursor + batch.dropped)).position := by
    rw [hplace]
    simpa [BoundedLog.ahead] using hread
  have horder : (t.reader.skip (tailPosition t.cursor + batch.dropped)).InOrder := h.inOrder
  constructor
  case stored => exact h.stored
  case unopened =>
    intro hnone
    cases hnone
  case complete =>
    intro _
    rw [reader_answered hopened hcursor]
    exact hskipped.take hahead (List.Perm.refl _)
  case inOrder =>
    rw [reader_answered hopened hcursor]
    exact hskipped.inOrder_take horder hahead
  case polling =>
    intro poll hpoll
    cases hpoll

/-- The first poll opens the tail at the end of the stream. -/
theorem Sound.opens {t : Tail α} (h : Sound t) (hnone : t.opened = none) (info : StreamInfo) :
    Sound (t.answered ⟨[], cursorAt info t.stream.arrived.length, 0⟩) := by
  have hsame := h.unopened hnone
  have hreader : (t.answered ⟨[], cursorAt info t.stream.arrived.length, 0⟩).reader =
      Reader.openAt t.stream.arrived.length := by
    rw [hsame]
    simp [Tail.reader, Tail.answered, Reader.openAt]
  constructor
  case stored => exact h.stored
  case unopened =>
    intro hno
    cases hno
  case complete =>
    intro _
    rw [hreader]
    exact Complete.openAt le_rfl
  case inOrder =>
    rw [hreader]
    exact List.Pairwise.nil
  case polling =>
    intro poll hpoll
    cases hpoll

/-- **A poll's first half** answers with what aged out, or goes on to fetch behind it. -/
theorem Sound.info {t u : Tail α} (h : Sound t) {limit : Int} {cluster : Option String}
    (hsteady : Steady t (.info limit cluster)) (hstep : step t (.info limit cluster) = some u) :
    Sound u := by
  simp only [step] at hstep
  split at hstep
  · cases hstep
  · by_cases hcursor : tailPosition t.cursor = 0
    · rw [beginTail_zero hcursor] at hstep
      obtain rfl := Option.some.inj hstep
      cases hopened : t.opened with
      | none => exact h.opens hopened _
      | some o =>
        -- the stream never held anything
        have hisSome : t.opened.isSome := by simp [hopened]
        have hempty : t.stream.arrived = [] := hsteady hisSome hcursor
        apply h.answered hisSome
        · dsimp only
          rw [tailPosition_cursorAt]
          simp [infoOf, hempty, hcursor]
        · exact Nat.le_max_left _ _
        · exact List.nil_prefix
    · have hpositive : 0 < tailPosition t.cursor := Nat.pos_of_ne_zero hcursor
      have hisSome : t.opened.isSome := by
        cases hopened : t.opened with
        | none =>
          rw [h.unopened hopened] at hcursor
          exact absurd rfl hcursor
        | some o => rfl
      have hend := (h.complete hisSome).position.2
      have hplace : tailPosition t.cursor +
          (max (tailPosition t.cursor) t.stream.discarded - tailPosition t.cursor) =
            max (tailPosition t.cursor) t.stream.discarded := by omega
      rw [beginTail_positive rfl hpositive hend] at hstep
      split at hstep
      next batch hbatch =>
        obtain rfl := Option.some.inj hstep
        split at hbatch
        · obtain rfl := Sum.inl.inj hbatch
          apply h.answered hisSome
          · exact (tailPosition_cursorAt _ _).trans hplace.symm
          · exact hplace.le
          · exact List.nil_prefix
        · cases hbatch
      next poll hpoll =>
        obtain rfl := Option.some.inj hstep
        split at hpoll
        · cases hpoll
        · obtain rfl := Sum.inr.inj hpoll
          refine ⟨h.stored, fun hno => absurd hno (Option.isSome_iff_ne_none.mp hisSome),
            fun _ => h.complete hisSome, h.inOrder, fun poll hpoll => ?_⟩
          obtain rfl := Option.some.inj hpoll
          exact ⟨hisSome, by dsimp only; omega, by simp, ⟨_, rfl⟩⟩

/-- **A poll's second half** returns what comes next, where it is still there. -/
theorem Sound.fetch {t u : Tail α} (h : Sound t) {most : Nat}
    (hsteady : Steady t (.fetch most)) (hstep : step t (.fetch most) = some u) : Sound u := by
  simp only [step] at hstep
  split at hstep
  · cases hstep
  next poll hpoll =>
    obtain rfl := Option.some.inj hstep
    obtain ⟨hisSome, hnext, hgone, info, hcursor⟩ := h.polling poll hpoll
    have hplace : poll.next - 1 = tailPosition t.cursor + poll.dropped := by omega
    apply h.answered hisSome
    · rw [tailPosition_endTail hcursor, hplace]
      rfl
    · rw [hplace] at hgone
      exact hgone
    · rcases hsteady poll hpoll with hnone | hstays | hnothing
      · simp [endTail, fetched, hnone]
      · have hsame : max (poll.next - 1) t.stream.discarded = poll.next - 1 := by omega
        rw [hplace] at hsame
        simp only [endTail, fetched, hplace, hsame]
        exact List.take_prefix _ _
      · have hempty : (numbered t.stream.arrived).drop (max (poll.next - 1) t.stream.discarded) =
            [] := List.drop_of_length_le (by rw [length_numbered]; omega)
        simp [endTail, fetched, hempty]

/-- **Step lemma**: an event that skips nothing silently. -/
theorem Sound.step {t u : Tail α} (h : Sound t) {event : Event α} (hsteady : Steady t event)
    (hstep : Nats.step t event = some u) : Sound u := by
  cases event with
  | publish content =>
    obtain rfl := Option.some.inj hstep
    refine ⟨?_, fun hnone => ?_, fun hopened => (h.complete hopened).append content, h.inOrder,
      h.polling⟩
    · simp only [BoundedLog.append, List.length_append, List.length_singleton]
      exact Nat.le_succ_of_le h.stored
    · have hsame := h.unopened hnone
      rw [hsame]
  | trim place =>
    obtain rfl := Option.some.inj hstep
    have hstored := h.stored
    refine ⟨?_, fun hnone => ?_, fun hopened => (h.complete hopened).trim place, h.inOrder,
      fun poll hpoll => ?_⟩
    · simp only [BoundedLog.trim]
      omega
    · have hsame := h.unopened hnone
      rw [hsame]
    · obtain ⟨hopened, hnext, hgone, hcursor⟩ := h.polling poll hpoll
      refine ⟨hopened, hnext, ?_, hcursor⟩
      simp only [BoundedLog.trim]
      omega
  | info limit cluster => exact h.info hsteady hstep
  | fetch most => exact h.fetch hsteady hstep
  | fail =>
    obtain rfl := Option.some.inj hstep
    refine ⟨h.stored, fun hnone => ?_, h.complete, h.inOrder, fun poll hpoll => ?_⟩
    · have hsame := h.unopened hnone
      rw [hsame]
    · cases hpoll

theorem Sound.start {t : Tail α} (ht : Untouched t) : Sound t := by
  obtain ⟨hstored, hsame⟩ := ht
  rw [hsame]
  refine ⟨hstored, fun _ => rfl, fun hopened => ?_, List.Pairwise.nil, fun poll hpoll => ?_⟩
  · cases hopened
  · cases hpoll

/-- **Run lemma.** -/
theorem Sound.reachable {t : Tail α} (ht : Reachable (tails α) Steady t) : Sound t := by
  apply ht.invariant
  · intro s hs
    exact Sound.start hs
  · intro s event u _ h hsteady hstep
    exact h.step hsteady hstep

/-- **What waits is what an undisturbed poll returns.** -/
theorem Sound.polled {t : Tail α} (h : Sound t) (hopened : t.opened.isSome)
    (hidle : t.polling = none) {limit : Int} {cluster : Option String}
    (hsteady : Steady t (.info limit cluster)) :
    (polled t limit cluster).returned = t.returned ++
      ((numbered t.stream.arrived).drop (max t.reader.position t.stream.discarded)).take
        (clamp limit) := by
  have hbusy : t.polling.isSome = false := by simp [hidle]
  simp only [Nats.polled, Nats.step, hbusy, Bool.false_eq_true, if_false]
  by_cases hcursor : tailPosition t.cursor = 0
  · have hempty : t.stream.arrived = [] := hsteady hopened hcursor
    rw [beginTail_zero hcursor]
    simp [Tail.answered, hempty, numbered]
  · have hend := (h.complete hopened).position.2
    have hpositive : 0 < tailPosition t.cursor := Nat.pos_of_ne_zero hcursor
    rw [beginTail_positive rfl hpositive hend]
    by_cases hnew : t.stream.arrived.length ≤ max (tailPosition t.cursor) t.stream.discarded
    · have hnone : (numbered t.stream.arrived).drop
          (max (tailPosition t.cursor) t.stream.discarded) = [] :=
        List.drop_of_length_le (by rw [length_numbered]; exact hnew)
      rw [if_pos hnew]
      simp [Tail.answered, Tail.reader, hnone]
    · -- the fetch is answered with all that it asked for
      have hplace : max (max (tailPosition t.cursor) t.stream.discarded + 1 - 1)
          t.stream.discarded = max (tailPosition t.cursor) t.stream.discarded := by omega
      have hclamp := clamp_le limit
      rw [if_neg hnew]
      simp only [Option.getD_some, Tail.answered, endTail, fetched, hplace, Tail.reader]
      congr 1
      rw [List.take_eq_take_iff]
      simp only [List.length_drop, length_numbered]
      omega

/-- **A JetStream tail misses nothing** in a run whose every step is steady. -/
theorem natsTail_missesNothing {t : Tail α} (ht : Reachable (tails α) Steady t) :
    MissesNothing t := by
  have h := Sound.reachable ht
  refine ⟨h.complete, h.inOrder, fun hopened hidle limit cluster hsteady => ?_⟩
  exact h.polled hopened hidle hsteady

/-- A stream that holds one message when its tail opens, and is sent another. -/
def secondMessage : List (Event String) :=
  [.info 10 none, .publish "b", .info 10 none, .fetch 10]

/-- The second message is returned. -/
theorem natsTail_missesNothing_second :
    MissesNothing ((tails String).endOf ⟨⟨["a"], 0⟩, ⟨[]⟩, none, none, [], []⟩ secondMessage) :=
  natsTail_missesNothing (Reachable.endOf (.start ⟨by decide, rfl⟩) (by decide))

/-- An empty stream whose first message is published between two polls. -/
def firstMessage : List (Event String) := [.info 10 none, .publish "a", .info 10 none]

/-- The first message of a quiet stream is behind the cursor, and was neither returned nor
    counted. -/
theorem first_message_skipped :
    ¬ ∀ t : Tail String, Reachable (tails String) Always t → MissesNothing t := by
  intro hall
  have hrun : Reachable (tails String) Always
      ((tails String).endOf ⟨⟨[], 0⟩, ⟨[]⟩, none, none, [], []⟩ firstMessage) :=
    Reachable.endOf (.start ⟨by decide, rfl⟩) (permitted_always _ _ _)
  have hcovered := ((hall _ hrun).complete (by decide)).covered 1 "a" (by decide) (by decide)
    (by decide) rfl
  revert hcovered
  decide

end MqStudio.Driver.Nats
