import Mathlib.Data.List.Infix
import MqStudio.Lib.Completion
import MqStudio.Storage

/-!
# Browsing a RabbitMQ Queue

`browse` of `internal/driver/rabbitmq/message_browse.go`: a consumer takes messages until enough of
them match, cancels, and puts back what it took. The broker delivers on its own, while fewer messages
than the prefetch window are unacknowledged; that the consumer sees nothing more is how it knows the
queue to be at its end.

One machine holds the queue, what of it is delivered and not yet put back, and the consumer. The idle
timer runs out only where the broker may not deliver.

## Main results

- `step_uses_up`, `exists_closed`: every browse ends.
- `Accounted.of_reachable`: what it keeps are the matches of what it took, and the window bounds that.
- `browse_reachesAsFar_iff`: it gives what it promises exactly where enough match within the window, or
  none after it.
- `browse_stopsShort`: a match behind the window is not found.
-/

namespace MqStudio.Driver.Rabbit

open MqStudio.Lib
open MqStudio.Lib.Machine
open MqStudio.Storage

/-! ## Filters -/

/-- `amqp.Delivery`: what is looked at and shown; a header by its name and its formatted value. -/
structure Delivery where
  messageId : String
  routingKey : String
  headers : List (String × String)
  body : String
  deriving DecidableEq

/-- `model.MessageQueryParams`: a filter that is not set is empty. -/
structure MessageQueryParams where
  routingKey : String
  header : String
  body : String
  messageKey : String
  maxResults : Int

/-- `strings.Contains` -/
def contains (text needle : String) : Bool := decide (needle.toList <:+: text.toList)

/-- `headerMatches`: a name, or a name and what its value contains. -/
def headerMatches (headers : List (String × String)) (filter : String) : Bool :=
  let name := trimSpace (String.ofList (filter.toList.takeWhile (· ≠ '=')))
  match headers.lookup name with
  | none => false
  | some raw =>
    if '=' ∈ filter.toList then
      contains raw (trimSpace (String.ofList ((filter.toList.dropWhile (· ≠ '=')).drop 1)))
    else true

/-- `hasFilters`: the message key counts as it is, the others without the blanks around them. -/
def hasFilters (params : MessageQueryParams) : Bool :=
  trimSpace params.routingKey ≠ "" ∨ trimSpace params.header ≠ "" ∨ trimSpace params.body ≠ "" ∨
    params.messageKey ≠ ""

/-- `matches` -/
def matched (params : MessageQueryParams) (delivery : Delivery) : Bool :=
  if trimSpace params.routingKey ≠ "" ∧
      contains delivery.routingKey (trimSpace params.routingKey) = false then false
  else if trimSpace params.body ≠ "" ∧ contains delivery.body (trimSpace params.body) = false then false
  else if trimSpace params.header ≠ "" ∧
      headerMatches delivery.headers (trimSpace params.header) = false then false
  else if trimSpace params.messageKey ≠ "" ∧
      contains delivery.messageId (trimSpace params.messageKey) = false then false
  else true

/-! ## Limits -/

/-- `defaultBrowseCount` -/
def defaultBrowseCount : Nat := 32

/-- `browseScanLimit` -/
def browseScanLimit : Nat := 2000

/-- `wanted` -/
def wantedOf (params : MessageQueryParams) : Nat :=
  if params.maxResults ≤ 0 then defaultBrowseCount else params.maxResults.toNat

/-- `scan` -/
def scanOf (params : MessageQueryParams) : Nat :=
  if hasFilters params then browseScanLimit else wantedOf params

/-- `prefetch` -/
def prefetchOf (params : MessageQueryParams) : Nat :=
  if 500 < scanOf params then 500 else scanOf params

/-! ## The browse -/

/-- Where `browse` stands: collecting, about to cancel, about to put back, about to have its channel
    closed, and returned. -/
inductive Phase where
  | collecting
  | collected
  | cancelled
  | nacked
  | closed
  deriving DecidableEq

/-- The queue and the consumer. A message is known by its place in the queue; the delivery tag of the
    one at a place is one more. -/
structure State where
  sent : Nat
  unacked : List Nat
  taken : Nat
  kept : List Delivery
  phase : Phase

/-- What happens: the broker delivers, or the consumer goes on. -/
inductive Action where
  | deliver
  | take
  | enough
  | idle
  | cancel
  | nack
  | close

/-- The broker may deliver: there is a consumer, a message, and room in the window. -/
def MayDeliver (queue : List Delivery) (params : MessageQueryParams) (s : State) : Prop :=
  (s.phase = .collecting ∨ s.phase = .collected) ∧ s.sent < queue.length ∧
    s.unacked.length < prefetchOf params

instance (queue : List Delivery) (params : MessageQueryParams) (s : State) :
    Decidable (MayDeliver queue params s) := inferInstanceAs (Decidable (_ ∧ _))

/-- The condition of the loop. -/
def Wanting (params : MessageQueryParams) (s : State) : Prop :=
  s.taken < scanOf params ∧ s.kept.length < wantedOf params

instance (params : MessageQueryParams) (s : State) : Decidable (Wanting params s) :=
  inferInstanceAs (Decidable (_ ∧ _))

/-- One step. -/
def step (queue : List Delivery) (params : MessageQueryParams) (s : State) : Action → Option State
  | .deliver =>
    if MayDeliver queue params s then
      some { s with sent := s.sent + 1, unacked := s.unacked ++ [s.sent] }
    else none
  | .take =>
    if s.phase = .collecting ∧ Wanting params s ∧ s.taken < s.sent then
      (queue[s.taken]?).map fun delivery =>
        { s with
          taken := s.taken + 1
          kept := if matched params delivery then s.kept ++ [delivery] else s.kept }
    else none
  | .enough =>
    if s.phase = .collecting ∧ ¬ Wanting params s then some { s with phase := .collected } else none
  -- the timer runs out where nothing was delivered and nothing may be
  | .idle =>
    if s.phase = .collecting ∧ Wanting params s ∧ s.taken = s.sent ∧ ¬ MayDeliver queue params s then
      some { s with phase := .collected }
    else none
  | .cancel => if s.phase = .collected then some { s with phase := .cancelled } else none
  -- everything up to the last tag goes back; with nothing taken there is no nack
  | .nack =>
    if s.phase = .cancelled then
      some { s with unacked := s.unacked.filter fun place => s.taken < place + 1, phase := .nacked }
    else none
  -- what was delivered and not taken goes back with the channel
  | .close => if s.phase = .nacked then some { s with unacked := [], phase := .closed } else none

/-- The browse of a queue. -/
def browse (queue : List Delivery) (params : MessageQueryParams) : Machine State Action where
  start s := s = ⟨0, [], 0, [], .collecting⟩
  step := step queue params

/-- `messageFromDelivery`, with the fields that are a delivery's own. -/
structure MessageItem where
  id : Nat
  messageID : String
  keys : String
  body : String
  headers : List (String × String)
  deriving DecidableEq

/-- What a browse returns for the deliveries it kept. -/
def items (kept : List Delivery) : List MessageItem :=
  kept.mapIdx fun i delivery =>
    ⟨i + 1, delivery.messageId, delivery.routingKey, delivery.body, delivery.headers⟩

/-- What is promised: of the first `scan` messages the matching ones, and of these the first that were
    wanted. -/
def promised (queue : List Delivery) (params : MessageQueryParams) : List Delivery :=
  ((queue.take (scanOf params)).filter (matched params)).take (wantedOf params)

/-- **As far as it promises**: the browse returns, always with what is promised, and then every message
    is back in the queue. -/
def ReachesAsFar (queue : List Delivery) (params : MessageQueryParams) : Prop :=
  (∃ s, Reachable (browse queue params) Always s ∧ s.phase = .closed) ∧
    ∀ s, Reachable (browse queue params) Always s → s.phase = .closed →
      items s.kept = items (promised queue params) ∧ s.unacked = []

/-- The window is enough: as many as are wanted match within it, or none after it. -/
def WindowEnough (queue : List Delivery) (params : MessageQueryParams) : Prop :=
  wantedOf params ≤ (queue.take (prefetchOf params)).countP (matched params) ∨
    ∀ delivery ∈ (queue.take (scanOf params)).drop (prefetchOf params),
      matched params delivery = false

/-! ## Every browse ends -/

section Browse

variable {queue : List Delivery} {params : MessageQueryParams} {s t : State} {a : Action}

/-- What is left to deliver, to take and to go through. -/
def left (queue : List Delivery) (s : State) : Nat :=
  (queue.length - s.sent) + (queue.length - s.taken) +
    match s.phase with
    | .collecting => 4
    | .collected => 3
    | .cancelled => 2
    | .nacked => 1
    | .closed => 0

/-- Every step uses something up. -/
theorem step_uses_up (h : step queue params s a = some t) : left queue t < left queue s := by
  cases a with
  | deliver =>
    simp only [step, Option.ite_none_right_eq_some, Option.some.injEq] at h
    obtain ⟨⟨-, hmore, -⟩, rfl⟩ := h
    simp only [left]
    omega
  | take =>
    simp only [step, Option.ite_none_right_eq_some, Option.map_eq_some_iff] at h
    obtain ⟨-, delivery, hdelivery, rfl⟩ := h
    obtain ⟨hplace, -⟩ := List.getElem?_eq_some_iff.mp hdelivery
    simp only [left]
    omega
  | enough =>
    simp only [step, Option.ite_none_right_eq_some, Option.some.injEq] at h
    obtain ⟨⟨hphase, -⟩, rfl⟩ := h
    simp [left, hphase]
  | idle =>
    simp only [step, Option.ite_none_right_eq_some, Option.some.injEq] at h
    obtain ⟨⟨hphase, -⟩, rfl⟩ := h
    simp [left, hphase]
  | cancel | nack | close =>
    simp only [step, Option.ite_none_right_eq_some, Option.some.injEq] at h
    obtain ⟨hphase, rfl⟩ := h
    simp [left, hphase]

/-! ## What a browse keeps -/

theorem prefetchOf_le (params : MessageQueryParams) : prefetchOf params ≤ scanOf params := by
  unfold prefetchOf
  split <;> omega

/-- **What holds throughout**: what was kept are the matches of what was taken, the window bounds what
    was delivered, and the consumer stops for a reason. -/
structure Accounted (queue : List Delivery) (params : MessageQueryParams) (s : State) : Prop where
  delivered : s.sent ≤ queue.length
  taken : s.taken ≤ s.sent
  window : s.sent ≤ prefetchOf params
  held : s.phase = .collecting ∨ s.phase = .collected → s.unacked.length = s.sent
  kept : s.kept = (queue.take s.taken).filter (matched params)
  few : s.kept.length ≤ wantedOf params
  stopped : s.phase ≠ .collecting → wantedOf params ≤ s.kept.length ∨ queue.length ≤ s.taken ∨
    prefetchOf params ≤ s.taken
  back : s.phase = .closed → s.unacked = []

theorem accounted_step (hs : Accounted queue params s) (h : step queue params s a = some t) :
    Accounted queue params t := by
  obtain ⟨hdelivered, htaken, hwindow, hopen, hkept, hfew, hstopped, hback⟩ := hs
  cases a with
  | deliver =>
    simp only [step, Option.ite_none_right_eq_some, Option.some.injEq] at h
    obtain ⟨⟨hphase, hmore, hroom⟩, rfl⟩ := h
    rw [hopen hphase] at hroom
    refine ⟨hmore, by simp only; omega, hroom, fun _ => ?_, hkept, hfew, hstopped, fun hclosed => ?_⟩
    · simp [hopen hphase]
    · rcases hphase with hphase | hphase <;> simp [hphase] at hclosed
  | take =>
    simp only [step, Option.ite_none_right_eq_some, Option.map_eq_some_iff] at h
    obtain ⟨⟨hphase, ⟨-, hwanting⟩, hsent⟩, delivery, hdelivery, rfl⟩ := h
    have hmore : queue.take (s.taken + 1) = queue.take s.taken ++ [delivery] := by
      rw [List.take_add_one, hdelivery]
      rfl
    refine ⟨hdelivered, hsent, hwindow, hopen, ?_, ?_, fun hnot => absurd hphase hnot, hback⟩
    · show (if matched params delivery then s.kept ++ [delivery] else s.kept) = _
      rw [hmore, List.filter_append, hkept]
      by_cases hmatch : matched params delivery <;> simp [hmatch]
    · show (if matched params delivery then s.kept ++ [delivery] else s.kept).length ≤ _
      split
      · simpa using Nat.succ_le_of_lt hwanting
      · exact hfew
  | enough =>
    simp only [step, Option.ite_none_right_eq_some, Option.some.injEq] at h
    obtain ⟨⟨hphase, hnot⟩, rfl⟩ := h
    refine ⟨hdelivered, htaken, hwindow, fun _ => hopen (.inl hphase), hkept, hfew, fun _ => ?_, ?_⟩
    · have hscan := prefetchOf_le params
      by_cases hwanted : wantedOf params ≤ s.kept.length
      · exact .inl hwanted
      · refine .inr (.inr (hscan.trans (Nat.not_lt.mp fun hless => ?_)))
        exact hnot ⟨hless, Nat.not_le.mp hwanted⟩
    · intro hclosed
      cases hclosed
  | idle =>
    simp only [step, Option.ite_none_right_eq_some, Option.some.injEq] at h
    obtain ⟨⟨hphase, -, hall, hmay⟩, rfl⟩ := h
    refine ⟨hdelivered, htaken, hwindow, fun _ => hopen (.inl hphase), hkept, hfew, fun _ => ?_, ?_⟩
    · -- the queue is at its end, or the window is full
      right
      show queue.length ≤ s.taken ∨ prefetchOf params ≤ s.taken
      by_contra hneither
      rw [not_or] at hneither
      have hroom : s.unacked.length < prefetchOf params := by
        rw [hopen (.inl hphase)]
        omega
      exact hmay ⟨.inl hphase, by omega, hroom⟩
    · intro hclosed
      cases hclosed
  | cancel =>
    simp only [step, Option.ite_none_right_eq_some, Option.some.injEq] at h
    obtain ⟨hphase, rfl⟩ := h
    exact ⟨hdelivered, htaken, hwindow, by simp, hkept, hfew, fun _ => hstopped (by simp [hphase]),
      by simp⟩
  | nack =>
    simp only [step, Option.ite_none_right_eq_some, Option.some.injEq] at h
    obtain ⟨hphase, rfl⟩ := h
    exact ⟨hdelivered, htaken, hwindow, by simp, hkept, hfew, fun _ => hstopped (by simp [hphase]),
      by simp⟩
  | close =>
    simp only [step, Option.ite_none_right_eq_some, Option.some.injEq] at h
    obtain ⟨hphase, rfl⟩ := h
    exact ⟨hdelivered, htaken, hwindow, by simp, hkept, hfew, fun _ => hstopped (by simp [hphase]),
      fun _ => rfl⟩

theorem Accounted.of_reachable (hs : Reachable (browse queue params) Always s) :
    Accounted queue params s := by
  refine hs.invariant (Accounted queue params) ?_ (fun s a t _ hs _ h => accounted_step hs h)
  rintro s rfl
  exact ⟨Nat.zero_le _, Nat.le_refl _, Nat.zero_le _, by simp, by simp, Nat.zero_le _, by simp, by simp⟩

/-- The browse goes on until its channel is closed. -/
theorem exists_step (hs : Accounted queue params s) (hopen : s.phase ≠ .closed) :
    ∃ a, (step queue params s a).isSome := by
  cases hphase : s.phase with
  | collecting =>
    by_cases hwanting : Wanting params s
    · by_cases htaken : s.taken < s.sent
      · have hplace : s.taken < queue.length := htaken.trans_le hs.delivered
        exact ⟨.take, by simp [step, hphase, hwanting, htaken, hplace]⟩
      · have hall : s.taken = s.sent := Nat.le_antisymm hs.taken (Nat.not_lt.mp htaken)
        by_cases hmay : MayDeliver queue params s
        · exact ⟨.deliver, by simp [step, hmay]⟩
        · exact ⟨.idle, by simp [step, hphase, hwanting, hall, hmay]⟩
    · exact ⟨.enough, by simp [step, hphase, hwanting]⟩
  | collected => exact ⟨.cancel, by simp [step, hphase]⟩
  | cancelled => exact ⟨.nack, by simp [step, hphase]⟩
  | nacked => exact ⟨.close, by simp [step, hphase]⟩
  | closed => exact absurd hphase hopen

/-- **Every browse returns.** -/
theorem exists_closed (queue : List Delivery) (params : MessageQueryParams) :
    ∃ s, Reachable (browse queue params) Always s ∧ s.phase = .closed := by
  obtain ⟨-, t, -, ht, hclosed⟩ := Reachable.exists_done
    (fun _ _ _ h => step_uses_up h)
    (fun s hs hopen => by
      obtain ⟨a, ha⟩ := exists_step (Accounted.of_reachable hs) hopen
      obtain ⟨t, ht⟩ := Option.isSome_iff_exists.mp ha
      exact ⟨a, t, trivial, ht⟩)
    (Reachable.start rfl : Reachable (browse queue params) Always ⟨0, [], 0, [], .collecting⟩)
  exact ⟨t, ht, hclosed⟩

/-- **What a browse keeps**: the first wanted of what matches within the window. -/
theorem kept_of_closed (hs : Reachable (browse queue params) Always s) (hclosed : s.phase = .closed) :
    s.kept = ((queue.take (prefetchOf params)).filter (matched params)).take (wantedOf params) := by
  have haccounted := Accounted.of_reachable hs
  have hwindow : s.taken ≤ prefetchOf params := haccounted.taken.trans haccounted.window
  -- what was taken is the front of the window
  obtain ⟨rest, hrest⟩ : ∃ rest, queue.take (prefetchOf params) = queue.take s.taken ++ rest := by
    obtain ⟨rest, hrest⟩ := List.take_prefix_take_left (l := queue) hwindow
    exact ⟨rest, hrest.symm⟩
  rw [hrest, List.filter_append, ← haccounted.kept]
  rcases haccounted.stopped (by simp [hclosed]) with hwanted | hend | hfull
  · rw [List.take_append_of_le_length hwanted, List.take_of_length_le haccounted.few]
  · have hall : rest = [] := by
      have hlength := congrArg List.length hrest
      simp only [List.length_take, List.length_append] at hlength
      exact List.length_eq_zero_iff.mp (by omega)
    rw [hall, List.filter_nil, List.append_nil, List.take_of_length_le haccounted.few]
  · have hall : rest = [] := by
      have hlength := congrArg List.length hrest
      simp only [List.length_take, List.length_append] at hlength
      exact List.length_eq_zero_iff.mp (by omega)
    rw [hall, List.filter_nil, List.append_nil, List.take_of_length_le haccounted.few]

end Browse

/-! ## What a browse promises -/

/-- Of two stretches as many as are wanted: those of the first, where it has as many or the second has
    none. -/
theorem take_append_eq_take_iff {α : Type} {front more : List α} {wanted : Nat} :
    (front ++ more).take wanted = front.take wanted ↔ wanted ≤ front.length ∨ more = [] := by
  rw [List.take_append, List.append_right_eq_self, List.take_eq_nil_iff, Nat.sub_eq_zero_iff_le]

theorem items_length (kept : List Delivery) : (items kept).length = kept.length := by
  simp [items]

/-- **As far as it promises**: exactly where the window is enough. -/
theorem browse_reachesAsFar_iff (queue : List Delivery) (params : MessageQueryParams) :
    ReachesAsFar queue params ↔ WindowEnough queue params := by
  -- the first of the queue, with and without what lies behind the window
  have hsplit : promised queue params =
      ((queue.take (prefetchOf params)).filter (matched params) ++
        ((queue.take (scanOf params)).drop (prefetchOf params)).filter (matched params)).take
          (wantedOf params) := by
    have hfront : (queue.take (scanOf params)).take (prefetchOf params) =
        queue.take (prefetchOf params) := by
      rw [List.take_take, Nat.min_eq_left (prefetchOf_le params)]
    rw [promised, ← hfront, ← List.filter_append, List.take_append_drop]
  have henough : WindowEnough queue params ↔ promised queue params =
      ((queue.take (prefetchOf params)).filter (matched params)).take (wantedOf params) := by
    rw [hsplit, take_append_eq_take_iff, WindowEnough, List.countP_eq_length_filter,
      List.filter_eq_nil_iff]
    simp
  rw [henough]
  constructor
  · rintro ⟨⟨s, hs, hclosed⟩, hall⟩
    obtain ⟨hitems, -⟩ := hall s hs hclosed
    have hlength := congrArg List.length hitems
    rw [items_length, items_length, kept_of_closed hs hclosed] at hlength
    -- what is kept is the front of what is promised
    have hkeeps : ((queue.take (prefetchOf params)).filter (matched params)).take (wantedOf params)
        <+: promised queue params := by
      rw [hsplit, List.take_append]
      exact List.prefix_append _ _
    exact (hkeeps.eq_of_length hlength).symm
  · intro hpromised
    refine ⟨exists_closed queue params, fun s hs hclosed => ⟨?_, ?_⟩⟩
    · rw [kept_of_closed hs hclosed, hpromised]
    · exact (Accounted.of_reachable hs).back hclosed

/-- Five hundred messages, and then the one that is looked for. -/
def longQueue : List Delivery :=
  List.replicate 500 ⟨"", "audit", [], ""⟩ ++ [⟨"", "orders", [], ""⟩]

/-- The messages with a routing key that contains "orders". -/
def byRoutingKey : MessageQueryParams := ⟨"orders", "", "", "", 32⟩

/-- **Short of the scan limit**: of two thousand messages that may be scanned the five hundred of the
    window are, and the match behind them is not found. -/
theorem browse_stopsShort : ¬ ReachesAsFar longQueue byRoutingKey := by
  have hwindow : prefetchOf byRoutingKey = 500 ∧ scanOf byRoutingKey = 2000 ∧
      wantedOf byRoutingKey = 32 := by decide +kernel
  have hmatched : matched byRoutingKey ⟨"", "audit", [], ""⟩ = false ∧
      matched byRoutingKey ⟨"", "orders", [], ""⟩ = true := by decide +kernel
  obtain ⟨hprefetch, hscan, hwanted⟩ := hwindow
  rintro ⟨⟨s, hs, hclosed⟩, hall⟩
  obtain ⟨hitems, -⟩ := hall s hs hclosed
  have hlength := congrArg List.length hitems
  have hfront : longQueue.take 500 = List.replicate 500 ⟨"", "audit", [], ""⟩ :=
    List.take_left' List.length_replicate
  have hall : longQueue.take 2000 = longQueue :=
    List.take_of_length_le (by rw [longQueue, List.length_append, List.length_replicate]; decide)
  have hnone : (List.replicate 500 ⟨"", "audit", [], ""⟩ : List Delivery).filter
      (matched byRoutingKey) = [] := by
    rw [List.filter_replicate, if_neg (by rw [hmatched.1]; decide)]
  rw [items_length, items_length, kept_of_closed hs hclosed, promised, hprefetch, hscan, hwanted,
    hfront, hall, longQueue, List.filter_append, hnone, List.nil_append,
    List.filter_cons_of_pos hmatched.2] at hlength
  cases hlength

end MqStudio.Driver.Rabbit
