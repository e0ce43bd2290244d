import Mathlib.Data.Int.ModEq
import MqStudio.Lib.BoundedLog

/-!
# The Live Buffers

The buffer behind a live subscription, as each family keeps it: a ring of MQTT
(`internal/driver/mqtt/subscribe.go`), a slice of NATS (`nats/subscribe.go`) and a slice of ActiveMQ
(`activemq/subscribe.go`). What a message says, apart from its sequence number, is a parameter: no
buffer looks at it.

## Main results

- `liveBuffers_refine`: each of the three is the bounded log, in every run of deliveries and polls.
-/

namespace MqStudio.Driver.Live

open MqStudio.Lib

variable {α : Type} {bound : Nat}

/-- `LiveBatch` -/
structure LiveBatch (α : Type) extends Polled α where
  live : Bool
  deriving DecidableEq

/-! ## MQTT -/

/-- `stream`: the ring and where its oldest message is. -/
structure Stream (α : Type) where
  ring : List (Option (Numbered α))
  start : Nat
  length : Nat
  nextSeq : Nat
  received : Nat
  dropped : Nat
  live : Bool

namespace Stream

/-- `newStream` -/
def newStream (buffer : Nat) : Stream α where
  ring := List.replicate buffer none
  start := 0
  length := 0
  nextSeq := 1
  received := 0
  dropped := 0
  live := true

/-- `stream.append` -/
def append (s : Stream α) (content : α) : Stream α :=
  let message : Numbered α := ⟨s.nextSeq, content⟩
  let counted := { s with nextSeq := s.nextSeq + 1, received := s.received + 1 }
  if s.length = s.ring.length then
    { counted with
      ring := s.ring.set s.start (some message)
      start := (s.start + 1) % s.ring.length
      dropped := s.dropped + 1 }
  else
    { counted with
      ring := s.ring.set ((s.start + s.length) % s.ring.length) (some message)
      length := s.length + 1 }

/-- The messages held, from the oldest on, as the loop of `stream.poll` visits them. -/
def entries (s : Stream α) : List (Numbered α) :=
  (List.range s.length).filterMap fun i => (s.ring[(s.start + i) % s.ring.length]?).join

/-- `stream.oldestSeqLocked` -/
def oldestSeqLocked (s : Stream α) : Nat :=
  if s.length = 0 then 0 else ((s.ring[s.start]?).join.map Numbered.seq).getD 0

/-- The loop of `stream.poll`. -/
def collect (after limit : Nat) : List (Numbered α) → LiveBatch α → LiveBatch α
  | [], batch => batch
  | message :: rest, batch =>
    if message.seq ≤ after then collect after limit rest batch
    else if 0 < limit && limit ≤ batch.messages.length then batch
    else
      collect after limit rest
        { batch with messages := batch.messages ++ [message], cursor := message.seq }

/-- `stream.poll` -/
def poll (s : Stream α) (after limit : Nat) : LiveBatch α :=
  let batch := collect after limit s.entries ⟨⟨[], after, s.dropped, s.received⟩, s.live⟩
  let oldest := s.oldestSeqLocked
  -- a caller is not left behind what was dropped
  if batch.messages = [] ∧ 0 < oldest ∧ after < oldest - 1 then { batch with cursor := oldest - 1 }
  else batch

/-- The ring as a buffer. -/
def buffer (bound : Nat) : Buffer (Stream α) α where
  empty := newStream bound
  deliver := append
  poll s after limit := (s.poll after limit).toPolled
  held := entries

end Stream

/-! ## NATS and ActiveMQ -/

/-- `liveStream`, of either family: the messages in a slice. -/
structure LiveStream (α : Type) where
  messages : List (Numbered α)
  next : Nat
  received : Nat
  dropped : Nat
  live : Bool

namespace LiveStream

/-- `liveStream` as it is opened. -/
def opened : LiveStream α := ⟨[], 0, 0, 0, true⟩

/-- The loop of a poll: the cursor stays where the stream is unless the batch is `full`. -/
def collect (full : Nat → Bool) (after : Nat) : List (Numbered α) → LiveBatch α → LiveBatch α
  | [], batch => batch
  | message :: rest, batch =>
    if message.seq ≤ after then collect full after rest batch
    else
      let taken := batch.messages ++ [message]
      if full taken.length then { batch with messages := taken, cursor := message.seq }
      else collect full after rest { batch with messages := taken }

/-- `liveStream.deliver` of NATS: append, then cut to the buffer. -/
def deliver (buffer : Nat) (s : LiveStream α) (content : α) : LiveStream α :=
  let messages := s.messages ++ [⟨s.next + 1, content⟩]
  let counted := { s with messages := messages, next := s.next + 1, received := s.received + 1 }
  if buffer < messages.length then
    let dropped := messages.length - buffer
    { counted with messages := messages.drop dropped, dropped := s.dropped + dropped }
  else counted

/-- `liveStream.drain` of NATS -/
def drain (s : LiveStream α) (after limit : Nat) : LiveBatch α :=
  collect (fun n => limit ≤ n) after s.messages ⟨⟨[], s.next, s.dropped, s.received⟩, s.live⟩

/-- `liveStream.append` of ActiveMQ: make room, then append. -/
def append (buffer : Nat) (s : LiveStream α) (content : α) : LiveStream α :=
  let counted := { s with received := s.received + 1 }
  let roomy :=
    if buffer ≤ s.messages.length then
      { counted with messages := s.messages.drop 1, dropped := s.dropped + 1 }
    else counted
  { roomy with next := s.next + 1, messages := roomy.messages ++ [⟨s.next + 1, content⟩] }

/-- `PollLiveSubscription` of ActiveMQ, on the stream it found. -/
def pollLiveSubscription (s : LiveStream α) (after limit : Nat) : LiveBatch α :=
  collect (fun n => 0 < limit && limit ≤ n) after s.messages
    ⟨⟨[], s.next, s.dropped, s.received⟩, s.live⟩

/-- The slice of NATS as a buffer. -/
def natsBuffer (bound : Nat) : Buffer (LiveStream α) α where
  empty := opened
  deliver := deliver bound
  poll s after limit := (s.drain after limit).toPolled
  held := messages

/-- The slice of ActiveMQ as a buffer. -/
def activemqBuffer (bound : Nat) : Buffer (LiveStream α) α where
  empty := opened
  deliver := append bound
  poll s after limit := (s.pollLiveSubscription after limit).toPolled
  held := messages

end LiveStream

/-! ## The loops -/

/-- **The MQTT loop** takes so many of the messages after the cursor, and stops at the last of
    them. -/
theorem Stream.collect_eq {after limit : Nat} (hlimit : 0 < limit) (xs : List (Numbered α)) :
    ∀ batch : LiveBatch α, Stream.collect after limit xs batch =
      let taken := (xs.filter fun m => after < m.seq).take (limit - batch.messages.length)
      { batch with
        messages := batch.messages ++ taken
        cursor := (taken.getLast?.map Numbered.seq).getD batch.cursor } := by
  induction xs with
  | nil => simp [Stream.collect]
  | cons message rest ih =>
    intro batch
    rw [Stream.collect]
    by_cases hold : message.seq ≤ after
    · rw [if_pos hold, ih]
      simp [Nat.not_lt.mpr hold]
    · rw [if_neg hold]
      by_cases hfull : limit ≤ batch.messages.length
      · simp [hlimit, hfull, Nat.sub_eq_zero_of_le hfull]
      · -- one more fits, and the loop goes on after it
        obtain ⟨room, hroom⟩ : ∃ room, limit - batch.messages.length = room + 1 :=
          ⟨limit - batch.messages.length - 1, by omega⟩
        have hleft : limit - (batch.messages.length + 1) = room := by omega
        rw [if_neg (by simp [hfull]), ih]
        simp only [List.filter_cons, Nat.lt_of_not_le hold, decide_true, if_true,
          List.length_append, List.length_singleton, hroom, hleft, List.take_succ_cons,
          List.append_assoc, List.singleton_append, List.getLast?_cons, Option.map_some,
          Option.getD_some]
        cases ((rest.filter fun m => after < m.seq).take room).getLast? <;> rfl

/-- The running totals pass through the loop. -/
theorem Stream.collect_totals (after limit : Nat) (xs : List (Numbered α)) :
    ∀ batch : LiveBatch α,
      (Stream.collect after limit xs batch).received = batch.received ∧
        (Stream.collect after limit xs batch).dropped = batch.dropped := by
  induction xs with
  | nil => exact fun batch => ⟨rfl, rfl⟩
  | cons message rest ih =>
    intro batch
    rw [Stream.collect]
    split
    · exact ih batch
    · split
      · exact ⟨rfl, rfl⟩
      · exact ih _

theorem Stream.poll_totals (s : Stream α) (after limit : Nat) :
    (s.poll after limit).received = s.received ∧ (s.poll after limit).dropped = s.dropped := by
  rw [Stream.poll]
  split
  · exact Stream.collect_totals after limit s.entries _
  · exact Stream.collect_totals after limit s.entries _

theorem LiveStream.collect_totals (full : Nat → Bool) (after : Nat) (xs : List (Numbered α)) :
    ∀ batch : LiveBatch α,
      (LiveStream.collect full after xs batch).received = batch.received ∧
        (LiveStream.collect full after xs batch).dropped = batch.dropped := by
  induction xs with
  | nil => exact fun batch => ⟨rfl, rfl⟩
  | cons message rest ih =>
    intro batch
    rw [LiveStream.collect]
    split
    · exact ih batch
    · dsimp only
      split
      · exact ⟨rfl, rfl⟩
      · exact ih _

/-- **The loop of the slices** takes so many of the messages after the cursor, and moves the cursor
    only where it is cut short. -/
theorem LiveStream.collect_eq {full : Nat → Bool} {after limit : Nat}
    (hfull : ∀ n, 0 < n → (full n = true ↔ limit ≤ n)) (xs : List (Numbered α)) :
    ∀ batch : LiveBatch α, batch.messages.length < limit →
      LiveStream.collect full after xs batch =
        let room := limit - batch.messages.length
        let ys := xs.filter fun m => after < m.seq
        { batch with
          messages := batch.messages ++ ys.take room
          cursor := (ys[room - 1]?.map Numbered.seq).getD batch.cursor } := by
  induction xs with
  | nil => simp [LiveStream.collect]
  | cons message rest ih =>
    intro batch hroom
    rw [LiveStream.collect]
    by_cases hold : message.seq ≤ after
    · rw [if_pos hold, ih batch hroom]
      simp [Nat.not_lt.mpr hold]
    · have hcut := hfull (batch.messages ++ [message]).length (by simp)
      simp only [List.length_append, List.length_singleton] at hcut
      rw [if_neg hold]
      by_cases hlast : limit ≤ batch.messages.length + 1
      · have hone : limit - batch.messages.length = 1 := by omega
        simp [hcut.mpr hlast, hone, Nat.lt_of_not_le hold]
      · obtain ⟨room, hmore⟩ : ∃ room, limit - batch.messages.length = room + 2 :=
          ⟨limit - batch.messages.length - 2, by omega⟩
        have hleft : limit - (batch.messages.length + 1) = room + 1 := by omega
        have hgoes : full (batch.messages.length + 1) ≠ true := fun hyes => hlast (hcut.mp hyes)
        simp only [List.length_append, List.length_singleton]
        rw [if_neg hgoes, ih _ (by simp; omega)]
        simp [Nat.lt_of_not_le hold, hmore, hleft]

/-- The messages of a log after a cursor. -/
theorem held_after (l : BoundedLog α) (after : Nat) :
    (l.held.filter fun m => after < m.seq) = (numbered l.arrived).drop (max after l.discarded) :=
  filter_after l.arrived after l.discarded

/-! ## The ring is the log -/

/-- **The ring holds the log**: each place, counted from the start, its message. -/
structure Stream.Refines (bound : Nat) (s : Stream α) (l : BoundedLog α) : Prop where
  size : s.ring.length = bound
  start : s.start < bound
  length : s.length = l.arrived.length - l.discarded
  places : ∀ i < s.length, s.ring[(s.start + i) % bound]? = some l.held[i]?
  nextSeq : s.nextSeq = l.arrived.length + 1
  received : s.received = l.arrived.length
  dropped : s.dropped = l.discarded

/-- Distinct places of a ring are at distinct indices. -/
theorem place_inj {bound start i j : Nat} (hi : i < bound) (hj : j < bound)
    (h : (start + i) % bound = (start + j) % bound) : i = j := by
  have hmod : i ≡ j [MOD bound] := Nat.ModEq.add_left_cancel' start h
  calc i = i % bound := (Nat.mod_eq_of_lt hi).symm
    _ = j % bound := hmod
    _ = j := Nat.mod_eq_of_lt hj

theorem filterMap_range_getElem? {β : Type} (xs : List β) :
    ((List.range xs.length).filterMap fun i => xs[i]?) = xs := by
  induction xs using List.reverseRecOn with
  | nil => rfl
  | append_singleton xs x ih =>
    have hbefore : ((List.range xs.length).filterMap fun i => (xs ++ [x])[i]?) = xs :=
      (List.filterMap_congr fun i hi =>
        List.getElem?_append_left (List.mem_range.mp hi)).trans ih
    rw [List.length_append, List.length_singleton, List.range_succ, List.filterMap_append, hbefore]
    simp

theorem Stream.Refines.entries {s : Stream α} {l : BoundedLog α} (h : s.Refines bound l) :
    s.entries = l.held := by
  have hlength : s.length = l.held.length := by
    rw [h.length, BoundedLog.held, List.length_drop, length_numbered]
  rw [← filterMap_range_getElem? l.held, ← hlength, Stream.entries, h.size]
  apply List.filterMap_congr
  intro i hi
  rw [h.places i (List.mem_range.mp hi)]
  rfl

/-- What a log holds at a place, after one more message. -/
theorem held_concat {l : BoundedLog α} {x : α} {discarded i : Nat}
    (hi : discarded + i ≤ l.arrived.length) (hdiscarded : l.discarded ≤ discarded) :
    (BoundedLog.held ⟨l.arrived ++ [x], discarded⟩)[i]? =
      if discarded + i = l.arrived.length then some ⟨l.arrived.length + 1, x⟩
      else l.held[discarded - l.discarded + i]? := by
  simp only [BoundedLog.held, List.getElem?_drop, getElem?_numbered]
  have hplace : l.discarded + (discarded - l.discarded + i) = discarded + i := by omega
  rw [hplace]
  split
  next hlast => simp [hlast]
  next hbefore => rw [List.getElem?_append_left (by omega)]

/-- **A delivery to the ring** is one to the log: where it is full, the oldest place is the new
    one. -/
theorem Stream.Refines.append {s : Stream α} {l : BoundedLog α} (hbound : 0 < bound)
    (hl : l.Tidy bound) (h : s.Refines bound l) (x : α) :
    (s.append x).Refines bound (l.deliver bound x) := by
  obtain ⟨hsize, hstart, hlength, hplaces, hnext, hreceived, hdropped⟩ := h
  have hsome := hl.some
  have hroom := hl.room
  simp only [Stream.append, BoundedLog.deliver, hsize]
  by_cases hfull : s.length = bound
  · rw [if_pos hfull, if_pos (by omega)]
    refine ⟨by simpa using hsize, Nat.mod_lt _ hbound, by simp; omega, fun i hi => ?_,
      by simp [hnext], by simp [hreceived], by simp [hdropped]⟩
    have hplace : ((s.start + 1) % bound + i) % bound = (s.start + (i + 1)) % bound := by
      rw [Nat.mod_add_mod]
      congr 1
      omega
    dsimp only at hi ⊢
    rw [hplace, held_concat (by omega) (by omega)]
    by_cases hlast : i + 1 = bound
    · -- the place of the oldest is the last of them
      have hsame : (s.start + (i + 1)) % bound = s.start := by
        rw [hlast, Nat.add_mod_right, Nat.mod_eq_of_lt hstart]
      rw [hsame, if_pos (by omega), List.getElem?_set_self (by omega), hnext]
    · have hother : s.start ≠ (s.start + (i + 1)) % bound := by
        intro hsame
        have hfirst : (s.start + 0) % bound = (s.start + (i + 1)) % bound := by
          rw [Nat.add_zero, Nat.mod_eq_of_lt hstart]
          exact hsame
        exact absurd (place_inj hbound (by omega) hfirst) (by omega)
      have hmoved : l.discarded + 1 - l.discarded + i = i + 1 := by omega
      rw [if_neg (by omega), List.getElem?_set_ne hother, hplaces (i + 1) (by omega), hmoved]
  · rw [if_neg hfull, if_neg (by omega)]
    refine ⟨by simpa using hsize, hstart, by simp; omega, fun i hi => ?_, by simp [hnext],
      by simp [hreceived], by simp [hdropped]⟩
    dsimp only at hi ⊢
    rw [held_concat (by omega) le_rfl]
    by_cases hlast : i = s.length
    · rw [hlast, if_pos (by omega),
        List.getElem?_set_self (by rw [hsize]; exact Nat.mod_lt _ hbound), hnext]
    · have hother : (s.start + s.length) % bound ≠ (s.start + i) % bound :=
        fun hsame => hlast (place_inj (by omega) (by omega) hsame).symm
      have hmoved : l.discarded - l.discarded + i = i := by omega
      rw [if_neg (by omega), List.getElem?_set_ne hother, hplaces i (by omega), hmoved]

theorem Stream.Refines.oldestSeqLocked {s : Stream α} {l : BoundedLog α}
    (hl : l.Tidy bound) (h : s.Refines bound l) :
    s.oldestSeqLocked = if l.arrived = [] then 0 else l.discarded + 1 := by
  have hlatest := hl.latest
  have hlength := h.length
  rw [Stream.oldestSeqLocked]
  by_cases hnone : l.arrived = []
  · have hempty : s.length = 0 := by simp [hlength, hnone]
    rw [if_pos hempty, if_pos hnone]
  · have hpositive : 0 < l.arrived.length := List.length_pos_iff.mpr hnone
    have hkept : l.discarded < l.arrived.length := hlatest hpositive
    have hfirst := h.places 0 (by omega)
    rw [Nat.add_zero, Nat.mod_eq_of_lt h.start] at hfirst
    rw [if_neg (by omega), if_neg hnone, hfirst, BoundedLog.held, List.getElem?_drop,
      Nat.add_zero, getElem?_numbered, List.getElem?_eq_getElem hkept]
    rfl

/-- **A poll of the ring** is one of the log. -/
theorem Stream.Refines.poll {s : Stream α} {l : BoundedLog α} {after limit : Nat}
    (hl : l.Tidy bound) (hafter : after ≤ l.arrived.length) (hlimit : 0 < limit)
    (h : s.Refines bound l) : (s.poll after limit).toPolled = l.poll after limit := by
  have hsome := hl.some
  have hlatest := hl.latest
  simp only [Stream.poll, Stream.collect_eq hlimit, h.entries, held_after, List.length_nil,
    Nat.sub_zero, List.nil_append, h.oldestSeqLocked hl, h.dropped, h.received, BoundedLog.poll]
  by_cases hnew : max after l.discarded < l.arrived.length
  · have hany : ((numbered l.arrived).drop (max after l.discarded)).take limit ≠ [] := by
      apply List.ne_nil_of_length_pos
      simp only [List.length_take, List.length_drop, length_numbered]
      omega
    rw [if_neg (fun hcut => hany hcut.1), last_seq_after hnew hlimit]
    rfl
  · -- nothing is newer than the cursor, so it is not behind what was dropped
    have hnone : (numbered l.arrived).drop (max after l.discarded) = [] :=
      List.drop_of_length_le (by rw [length_numbered]; exact Nat.not_lt.mp hnew)
    have hplace : min (max after l.discarded + limit) l.arrived.length = after := by omega
    have hcaught : ¬ after < (if l.arrived = [] then 0 else l.discarded + 1) - 1 := by
      split <;> omega
    rw [if_neg (fun hcut => hcaught hcut.2.2), hnone, hplace, List.take_nil]
    rfl

/-- **The ring simulates the log.** -/
theorem Stream.simulates (hbound : 0 < bound) :
    Simulates (Stream.buffer (α := α) bound) bound (Stream.Refines bound) where
  empty := ⟨by simp [Stream.buffer, Stream.newStream], hbound, rfl,
    fun _ hi => absurd hi (Nat.not_lt_zero _), rfl, rfl, rfl⟩
  deliver _ _ x hl h := h.append hbound hl x
  held _ _ h := h.entries
  poll _ _ _ _ hl hafter hlimit h := h.poll hl hafter hlimit
  received s _ after limit h := (s.poll_totals after limit).1.trans h.received
  dropped s _ after limit h := (s.poll_totals after limit).2.trans h.dropped

/-! ## The slices are the log -/

/-- **The slice holds the log.** -/
structure LiveStream.Refines (s : LiveStream α) (l : BoundedLog α) : Prop where
  messages : s.messages = l.held
  next : s.next = l.arrived.length
  received : s.received = l.arrived.length
  dropped : s.dropped = l.discarded

theorem LiveStream.Refines.length {s : LiveStream α} {l : BoundedLog α} (h : s.Refines l) :
    s.messages.length = l.arrived.length - l.discarded := by
  rw [h.messages, BoundedLog.held, List.length_drop, length_numbered]

/-- What a log holds after one more message, before any is discarded. -/
theorem held_append {l : BoundedLog α} (hl : l.discarded ≤ l.arrived.length) (x : α) :
    l.held ++ [⟨l.arrived.length + 1, x⟩] = (numbered (l.arrived ++ [x])).drop l.discarded := by
  rw [numbered_concat, List.drop_append_of_le_length (by simpa using hl)]
  rfl

/-- **A delivery of NATS** is one to the log. -/
theorem LiveStream.Refines.deliver {s : LiveStream α} {l : BoundedLog α} (hl : l.Tidy bound)
    (h : s.Refines l) (x : α) : (s.deliver bound x).Refines (l.deliver bound x) := by
  have hsome := hl.some
  have hroom := hl.room
  have hlength := h.length
  have hall : s.messages ++ [⟨s.next + 1, x⟩] =
      (numbered (l.arrived ++ [x])).drop l.discarded := by
    rw [h.messages, h.next, held_append hsome]
  simp only [LiveStream.deliver, hall, List.length_drop, length_numbered, List.length_append,
    List.length_singleton]
  by_cases hfull : bound ≤ l.arrived.length - l.discarded
  · have hone : l.arrived.length + 1 - l.discarded - bound = 1 := by omega
    rw [if_pos (by omega), hone]
    simp only [BoundedLog.deliver, hfull, if_true]
    exact ⟨by rw [List.drop_drop]; rfl, by simp [h.next], by simp [h.received],
      by simp [h.dropped]⟩
  · rw [if_neg (by omega)]
    simp only [BoundedLog.deliver, hfull, if_false]
    exact ⟨rfl, by simp [h.next], by simp [h.received], h.dropped⟩

/-- **A delivery of ActiveMQ** is one to the log. -/
theorem LiveStream.Refines.append {s : LiveStream α} {l : BoundedLog α} (hbound : 0 < bound)
    (hl : l.Tidy bound) (h : s.Refines l) (x : α) :
    (s.append bound x).Refines (l.deliver bound x) := by
  have hsome := hl.some
  have hlength := h.length
  simp only [LiveStream.append, hlength]
  by_cases hfull : bound ≤ l.arrived.length - l.discarded
  · rw [if_pos hfull]
    simp only [BoundedLog.deliver, hfull, if_true]
    refine ⟨?_, by simp [h.next], by simp [h.received], by simp [h.dropped]⟩
    have hcut : l.held.drop 1 = BoundedLog.held ⟨l.arrived, l.discarded + 1⟩ := by
      rw [BoundedLog.held, List.drop_drop]
      rfl
    have hmore := held_append (l := ⟨l.arrived, l.discarded + 1⟩) (by dsimp only; omega) x
    rw [h.messages, h.next, hcut]
    exact hmore
  · rw [if_neg hfull]
    simp only [BoundedLog.deliver, hfull, if_false]
    refine ⟨?_, by simp [h.next], by simp [h.received], h.dropped⟩
    rw [h.messages, h.next]
    exact held_append hsome x

/-- **A poll of a slice** is one of the log. -/
theorem LiveStream.Refines.poll {s : LiveStream α} {l : BoundedLog α} {after limit : Nat}
    {full : Nat → Bool} (hfull : ∀ n, 0 < n → (full n = true ↔ limit ≤ n))
    (hl : l.Tidy bound) (hlimit : 0 < limit) (h : s.Refines l) :
    (collect full after s.messages ⟨⟨[], s.next, s.dropped, s.received⟩, s.live⟩).toPolled =
      l.poll after limit := by
  have hsome := hl.some
  rw [LiveStream.collect_eq hfull _ _ (by exact hlimit)]
  simp only [h.messages, held_after, List.length_nil, Nat.sub_zero, List.nil_append, seq_after,
    h.next, h.dropped, h.received, BoundedLog.poll]
  congr 1
  by_cases hcut : max after l.discarded + limit ≤ l.arrived.length
  · rw [if_pos (by omega), Option.getD_some]
    omega
  · rw [if_neg (by omega), Option.getD_none]
    omega

/-- **The slice of NATS simulates the log.** -/
theorem LiveStream.simulates_nats :
    Simulates (natsBuffer (α := α) bound) bound LiveStream.Refines where
  empty := ⟨rfl, rfl, rfl, rfl⟩
  deliver _ _ x hl h := h.deliver hl x
  held _ _ h := h.messages
  poll _ _ _ _ hl _ hlimit h := h.poll (fun _ _ => by simp) hl hlimit
  received _ _ after _ h := (collect_totals _ after _ _).1.trans h.received
  dropped _ _ after _ h := (collect_totals _ after _ _).2.trans h.dropped

/-- **The slice of ActiveMQ simulates the log.** -/
theorem LiveStream.simulates_activemq (hbound : 0 < bound) :
    Simulates (activemqBuffer (α := α) bound) bound LiveStream.Refines where
  empty := ⟨rfl, rfl, rfl, rfl⟩
  deliver _ _ x hl h := h.append hbound hl x
  held _ _ h := h.messages
  poll _ _ _ _ hl _ hlimit h :=
    h.poll (fun _ _ => by simpa using fun _ => hlimit) hl hlimit
  received _ _ after _ h := (collect_totals _ after _ _).1.trans h.received
  dropped _ _ after _ h := (collect_totals _ after _ _).2.trans h.dropped

/-- **All three live buffers are the same bounded log.** -/
theorem liveBuffers_refine (hbound : 0 < bound) :
    IsLog (Stream.buffer (α := α) bound) bound ∧
      IsLog (LiveStream.natsBuffer (α := α) bound) bound ∧
      IsLog (LiveStream.activemqBuffer (α := α) bound) bound ∧
      AnswerAlike (Stream.buffer (α := α) bound) (LiveStream.natsBuffer bound) ∧
      AnswerAlike (Stream.buffer (α := α) bound) (LiveStream.activemqBuffer bound) := by
  have hring := Stream.simulates (α := α) hbound
  have hnats : Simulates (LiveStream.natsBuffer (α := α) bound) bound LiveStream.Refines :=
    LiveStream.simulates_nats
  have hactivemq := LiveStream.simulates_activemq (α := α) hbound
  exact ⟨hring.isLog hbound, hnats.isLog hbound, hactivemq.isLog hbound,
    hring.agree hnats hbound, hring.agree hactivemq hbound⟩

/-- Room for two messages. -/
theorem liveBuffers_refine_two :
    IsLog (Stream.buffer (α := String) 2) 2 ∧
      IsLog (LiveStream.natsBuffer (α := String) 2) 2 ∧
      IsLog (LiveStream.activemqBuffer (α := String) 2) 2 ∧
      AnswerAlike (Stream.buffer (α := String) 2) (LiveStream.natsBuffer 2) ∧
      AnswerAlike (Stream.buffer (α := String) 2) (LiveStream.activemqBuffer 2) :=
  liveBuffers_refine (by decide)

end MqStudio.Driver.Live
