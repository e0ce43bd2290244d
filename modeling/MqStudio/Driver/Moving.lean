import Mathlib.Data.List.Nodup
import MqStudio.Lib.Machine
import MqStudio.Lib.PeekLock

/-!
# Moving Messages

`MoveMessages`, `drain`, `forward` and `republishing` of
`internal/driver/rabbitmq/destination_action.go`, over one channel of the shared connection. What the
client sends, what the broker does and what the client hears of it are steps of their own, so that
deliveries, returns, confirms, the idle timer, the end of the context and the end of the connection
come in any order; only the requests and the frames of one channel keep theirs.

The broker decides the fate of a publish: it is routed to a queue, it is unroutable, or it is refused.
An unroutable one is returned before it is confirmed where it was mandatory, and is dropped where it
was not. With the channel ends what is unacknowledged. A queue numbers its messages by a tag.

## Main definitions

- `client`: the operation, position by position.
- `channels`: every interleaving with the broker.
- `Moved`: what is promised when it is over.

## Main results

- `move_loses_nothing`: every message of the source is there still, or the broker has a copy; at most
  so many are acknowledged, and as many as are reported.
-/

namespace MqStudio.Driver.Rabbit.Moving

open MqStudio.Lib

/-! ## Messages -/

/-- `amqp.Publishing` -/
structure Publishing (τ : Type) where
  headers : τ
  contentType : String
  contentEncoding : String
  deliveryMode : Nat
  priority : Nat
  correlationId : String
  replyTo : String
  expiration : String
  messageId : String
  timestamp : Int
  type' : String
  userId : String
  appId : String
  body : List UInt8
  deriving DecidableEq

/-- `amqp.Delivery` -/
structure Delivery (τ : Type) where
  tag : Nat
  routingKey : String
  headers : τ
  contentType : String
  contentEncoding : String
  deliveryMode : Nat
  priority : Nat
  correlationId : String
  replyTo : String
  expiration : String
  messageId : String
  timestamp : Int
  type' : String
  userId : String
  appId : String
  body : List UInt8
  deriving DecidableEq

variable {τ : Type}

/-- `republishing` -/
def republishing (delivery : Delivery τ) : Publishing τ where
  headers := delivery.headers
  contentType := delivery.contentType
  contentEncoding := delivery.contentEncoding
  deliveryMode := delivery.deliveryMode
  priority := delivery.priority
  correlationId := delivery.correlationId
  replyTo := delivery.replyTo
  expiration := delivery.expiration
  messageId := delivery.messageId
  timestamp := delivery.timestamp
  type' := delivery.type'
  userId := delivery.userId
  appId := delivery.appId
  body := delivery.body

/-- **A copy** has the same body, headers and properties. -/
structure CopyOf (delivery : Delivery τ) (copy : Publishing τ) : Prop where
  headers : copy.headers = delivery.headers
  contentType : copy.contentType = delivery.contentType
  contentEncoding : copy.contentEncoding = delivery.contentEncoding
  deliveryMode : copy.deliveryMode = delivery.deliveryMode
  priority : copy.priority = delivery.priority
  correlationId : copy.correlationId = delivery.correlationId
  replyTo : copy.replyTo = delivery.replyTo
  expiration : copy.expiration = delivery.expiration
  messageId : copy.messageId = delivery.messageId
  timestamp : copy.timestamp = delivery.timestamp
  type' : copy.type' = delivery.type'
  userId : copy.userId = delivery.userId
  appId : copy.appId = delivery.appId
  body : copy.body = delivery.body

/-- **`republishing` copies.** -/
theorem copyOf_republishing (delivery : Delivery τ) : CopyOf delivery (republishing delivery) :=
  ⟨rfl, rfl, rfl, rfl, rfl, rfl, rfl, rfl, rfl, rfl, rfl, rfl, rfl, rfl⟩

/-- `model.MoveRequest` -/
structure MoveRequest where
  source : String
  toExchange : String
  toRoutingKey : String
  limit : Int

/-- `defaultBrowseCount` -/
def defaultBrowseCount : Nat := 32

/-- How many messages `MoveMessages` moves at most. -/
def MoveRequest.most (request : MoveRequest) : Nat :=
  if request.limit ≤ 0 then defaultBrowseCount else request.limit.toNat

/-! ## The channel -/

/-- What the client sends. -/
inductive Request (τ : Type) where
  | publish (exchange routingKey : String) (mandatory : Bool) (publishing : Publishing τ)
  | ack (tag : Nat)
  | nack (tag : Nat)
  deriving DecidableEq

/-- What the broker sends. A confirm is that of the one publish that is outstanding. -/
inductive Frame (τ : Type) where
  | delivery (delivery : Delivery τ)
  | returned (publishing : Publishing τ)
  | confirm (acked : Bool)
  deriving DecidableEq

/-- Where the operation stands, and how many messages it moved. -/
inductive Position (τ : Type) where
  /-- Before it consumes. -/
  | connecting
  /-- In the `select` of `drain`. -/
  | selecting (moved : Nat)
  /-- In `forward`: it publishes, waits for the confirm, looks for a return, and acknowledges. -/
  | publishing (moved : Nat) (delivery : Delivery τ)
  | waiting (moved : Nat) (delivery : Delivery τ)
  | checking (moved : Nat) (delivery : Delivery τ)
  | acknowledging (moved : Nat) (delivery : Delivery τ)
  /-- `forward` failed, before the `Nack`. -/
  | refusing (moved : Nat) (delivery : Delivery τ)
  /-- Before the channel is closed. -/
  | leaving (moved : Nat) (failed : Bool)
  | finished (moved : Nat) (failed : Bool)
  deriving DecidableEq

/-- How many messages it moved. -/
def Position.moved : Position τ → Nat
  | .connecting => 0
  | .selecting moved | .publishing moved _ | .waiting moved _ | .checking moved _
  | .acknowledging moved _ | .refusing moved _ | .leaving moved _ | .finished moved _ => moved

/-- The delivery in hand. -/
def Position.held : Position τ → Option (Delivery τ)
  | .publishing _ d | .waiting _ d | .checking _ d | .acknowledging _ d | .refusing _ d => some d
  | .connecting | .selecting _ | .leaving _ _ | .finished _ _ => none

/-- One operation and its broker. -/
structure Run (τ : Type) where
  /-- The queue, with what is unacknowledged locked. -/
  source : PeekLock (Delivery τ) Nat
  /-- Whether the broker has the channel, and a consumer on it. -/
  alive : Bool
  consuming : Bool
  outgoing : List (Request τ)
  incoming : List (Frame τ)
  /-- What the client's library has for the operation: deliveries and whether that is all of them,
      returns, and the outcome of the last publish. -/
  deliveries : List (Delivery τ)
  closed : Bool
  returns : List (Publishing τ)
  confirmation : Option Bool
  /-- The context has ended. -/
  cancelled : Bool
  position : Position τ
  /-- What was in the queue at first, the copies the broker routed and confirmed, and the tags that
      were acknowledged. -/
  initial : List (Delivery τ)
  kept : List (Publishing τ)
  acknowledged : List Nat

/-- A request is sent, unless the channel is gone and nobody knows yet. -/
def Run.send (s : Run τ) (request : Request τ) : Run τ :=
  if s.alive then { s with outgoing := s.outgoing ++ [request] } else s

/-! ## The operation -/

/-- What a position may come to; a call that fails may have sent its request. -/
inductive Choice where
  | context
  | delivery
  | closed
  | idle
  | succeed
  | fail (sent : Bool)
  deriving DecidableEq

/-- The head of the loop of `drain`. -/
def loop (request : MoveRequest) (moved : Nat) : Position τ :=
  if moved < request.most then .selecting moved else .leaving moved false

/-- `drain` up to its loop: confirms, prefetch, the consumer. -/
def connect (request : MoveRequest) (s : Run τ) : Choice → Option (Run τ)
  | .succeed =>
    if request.source = "" ∨ ¬ s.alive then none
    else some { s with consuming := true, position := loop request 0 }
  | .fail _ => some { s with position := .leaving 0 true }
  | _ => none

/-- The `select` of `drain`. -/
def select (moved : Nat) (s : Run τ) : Choice → Option (Run τ)
  | .context => if s.cancelled then some { s with position := .leaving moved true } else none
  | .delivery =>
    match s.deliveries with
    | [] => none
    | delivery :: rest => some { s with deliveries := rest, position := .publishing moved delivery }
  | .closed => if s.closed then some { s with position := .leaving moved false } else none
  | .idle => some { s with position := .leaving moved false }
  | _ => none

/-- The key a message is moved under: its own, unless the request names another. -/
def MoveRequest.routingKey (request : MoveRequest) (delivery : Delivery τ) : String :=
  if request.toRoutingKey = "" then delivery.routingKey else request.toRoutingKey

/-- The publish of `forward`, which is mandatory. -/
def Run.forward (s : Run τ) (request : MoveRequest) (delivery : Delivery τ) : Run τ :=
  s.send (.publish request.toExchange (request.routingKey delivery) true (republishing delivery))

/-- `PublishWithDeferredConfirmWithContext` -/
def publish (request : MoveRequest) (moved : Nat) (delivery : Delivery τ) (s : Run τ) :
    Choice → Option (Run τ)
  | .succeed =>
    some { s.forward request delivery with
      confirmation := none, position := .waiting moved delivery }
  | .fail sent =>
    some { if sent then s.forward request delivery else s with
      position := .refusing moved delivery }
  | _ => none

/-- `confirmation.WaitContext` -/
def wait (moved : Nat) (delivery : Delivery τ) (s : Run τ) : Choice → Option (Run τ)
  | .context => if s.cancelled then some { s with position := .refusing moved delivery } else none
  | .succeed =>
    match s.confirmation with
    | none => none
    | some true => some { s with position := .checking moved delivery }
    | some false => some { s with position := .refusing moved delivery }
  | _ => none

/-- The check for a return; a channel that is gone has closed `returns`. -/
def check (moved : Nat) (delivery : Delivery τ) (s : Run τ) : Choice → Option (Run τ)
  | .succeed =>
    match s.returns with
    | [] => some { s with position := .acknowledging moved delivery }
    | _ :: rest => some { s with returns := rest, position := .refusing moved delivery }
  | .fail _ => if s.alive then none else some { s with position := .refusing moved delivery }
  | _ => none

/-- `delivery.Ack` -/
def acknowledge (request : MoveRequest) (moved : Nat) (delivery : Delivery τ) (s : Run τ) :
    Choice → Option (Run τ)
  | .succeed =>
    some { s.send (.ack delivery.tag) with
      acknowledged := delivery.tag :: s.acknowledged, position := loop request (moved + 1) }
  | .fail _ => some { s with position := .refusing moved delivery }
  | _ => none

/-- `delivery.Nack` -/
def refuse (moved : Nat) (delivery : Delivery τ) (s : Run τ) : Choice → Option (Run τ)
  | .succeed => some { s.send (.nack delivery.tag) with position := .leaving moved true }
  | .fail _ => some { s with position := .leaving moved true }
  | _ => none

/-- The channel is closed, once the broker has heard what was sent before. -/
def leave (moved : Nat) (failed : Bool) (s : Run τ) : Choice → Option (Run τ)
  | .succeed =>
    if ¬ s.alive then some { s with position := .finished moved failed }
    else if s.outgoing = [] then
      some { s with
        source := s.source.giveBackAll, alive := false, position := .finished moved failed }
    else none
  | _ => none

/-- `MoveMessages`, position by position. -/
def client (request : MoveRequest) (s : Run τ) : Choice → Option (Run τ) :=
  match s.position with
  | .connecting => connect request s
  | .selecting moved => select moved s
  | .publishing moved delivery => publish request moved delivery s
  | .waiting moved delivery => wait moved delivery s
  | .checking moved delivery => check moved delivery s
  | .acknowledging moved delivery => acknowledge request moved delivery s
  | .refusing moved delivery => refuse moved delivery s
  | .leaving moved failed => leave moved failed s
  | .finished _ _ => fun _ => none

/-! ## What happens beside it -/

/-- What becomes of a publish. -/
inductive Fate where
  | routed
  | unroutable
  | refused
  deriving DecidableEq

/-- The broker's answer to a publish. -/
def answer (mandatory : Bool) (publishing : Publishing τ) : Fate → List (Frame τ)
  | .routed => [.confirm true]
  | .unroutable => if mandatory then [.returned publishing, .confirm true] else [.confirm true]
  | .refused => [.confirm false]

/-- The broker handles the next request. -/
def handle (fate : Fate) (s : Run τ) : Option (Run τ) :=
  if ¬ s.alive then none
  else
    match s.outgoing with
    | [] => none
    | .publish _ _ mandatory publishing :: rest =>
      some { s with
        outgoing := rest
        incoming := s.incoming ++ answer mandatory publishing fate
        kept := if fate = .routed then publishing :: s.kept else s.kept }
    | .ack tag :: rest =>
      some { s with outgoing := rest, source := s.source.remove Delivery.tag tag }
    | .nack tag :: rest => some { s with outgoing := rest, source := s.source.giveBack tag }

/-- It delivers the next message, while nothing is unacknowledged. -/
def deliver (s : Run τ) : Option (Run τ) :=
  if ¬ s.alive ∨ ¬ s.consuming ∨ s.source.locked ≠ [] then none
  else
    match s.source.batch Delivery.tag 1 with
    | [] => none
    | delivery :: _ =>
      some { s with
        source := s.source.lend Delivery.tag 1, incoming := s.incoming ++ [.delivery delivery] }

/-- The client's library takes the next frame; a second return waits until the first is read. -/
def dispatch (s : Run τ) : Option (Run τ) :=
  match s.incoming with
  | [] => none
  | .delivery delivery :: rest =>
    some { s with incoming := rest, deliveries := s.deliveries ++ [delivery] }
  | .returned publishing :: rest =>
    if s.returns = [] then some { s with incoming := rest, returns := [publishing] } else none
  | .confirm acked :: rest => some { s with incoming := rest, confirmation := some acked }

/-- What happens to an operation. -/
inductive Event (τ : Type) where
  | client (choice : Choice)
  | handle (fate : Fate)
  | deliver
  | dispatch
  /-- Somebody publishes to the source. -/
  | arrive (delivery : Delivery τ)
  /-- The context ends. -/
  | cancel
  /-- The consumer is cancelled. -/
  | close
  /-- The channel or its connection is lost. -/
  | lose
  /-- The client's library finds out. -/
  | notice

/-- One event. -/
def step (request : MoveRequest) (s : Run τ) : Event τ → Option (Run τ)
  | .client choice => client request s choice
  | .handle fate => handle fate s
  | .deliver => deliver s
  | .dispatch => dispatch s
  | .arrive delivery =>
    if delivery.tag ∈ s.source.messages.map Delivery.tag then none
    else some { s with source := { s.source with messages := s.source.messages ++ [delivery] } }
  | .cancel => some { s with cancelled := true }
  | .close => some { s with closed := true }
  | .lose => some { s with source := s.source.giveBackAll, alive := false, outgoing := [] }
  | .notice =>
    if s.alive then none
    else some { s with
      incoming := [], closed := true, confirmation := some (s.confirmation.getD false) }

/-- A queue at rest, and an operation before its channel is used. -/
def atRest (messages : List (Delivery τ)) : Run τ :=
  ⟨⟨messages, []⟩, true, false, [], [], [], false, [], none, false, .connecting, messages, [], []⟩

/-- Every interleaving. -/
def channels (τ : Type) (request : MoveRequest) : Machine (Run τ) (Event τ) where
  start s := (s.initial.map Delivery.tag).Nodup ∧ s = atRest s.initial
  step := step request

/-- **What is promised when it is over**: every message is there still, and not locked, or the
    broker routed and confirmed a copy; no more are acknowledged than the limit says, and as many as
    are reported. -/
structure Moved (request : MoveRequest) (moved : Nat) (s : Run τ) : Prop where
  safe : ∀ delivery ∈ s.initial, (delivery ∈ s.source.messages ∧
    delivery.tag ∉ s.source.locked) ∨ ∃ copy ∈ s.kept, CopyOf delivery copy
  bounded : s.acknowledged.length ≤ request.most
  counted : s.acknowledged.length = moved

/-! ## The invariant -/

/-- The delivery of a frame. -/
def Frame.delivery? : Frame τ → Option (Delivery τ)
  | .delivery d => some d
  | .returned _ | .confirm _ => none

/-- The tag a request settles. -/
def Request.settles : Request τ → Option Nat
  | .ack tag | .nack tag => some tag
  | .publish _ _ _ _ => none

/-- Whether a request is a publish. -/
def Request.isPublish (request : Request τ) : Bool := request.settles.isNone

/-- Whether a position may move one more. -/
def Position.room : Position τ → Nat
  | .connecting | .leaving _ _ | .finished _ _ => 0
  | .selecting _ | .publishing _ _ | .waiting _ _ | .checking _ _ | .acknowledging _ _
  | .refusing _ _ => 1

namespace Run

variable (s : Run τ)

/-- The deliveries that are on their way to the operation, or in its hand. -/
def carried : List (Delivery τ) :=
  s.incoming.filterMap Frame.delivery? ++ s.deliveries ++ s.position.held.toList

/-- Their tags, and those that are being settled. -/
def tokens : List Nat := s.carried.map Delivery.tag ++ s.outgoing.filterMap Request.settles

/-- The returns and confirms that are on their way. -/
def answers : List (Frame τ) := s.incoming.filter fun frame => frame.delivery?.isNone

/-- The publishes that are. -/
def publishes : List (Request τ) := s.outgoing.filter Request.isPublish

/-- No publish is outstanding. -/
structure Quiet : Prop where
  returns : s.returns = []
  answers : s.answers = []
  publishes : s.publishes = []

end Run

/-- **A publish that is waited for**: the broker has not answered, and confirms nothing; it routed the
    copy; it returned the copy, before it confirmed; or it refused it. -/
inductive Awaiting (s : Run τ) (d : Delivery τ) : Prop where
  | unanswered (hreturns : s.returns = []) (hanswers : s.answers = [])
      (hconfirmation : s.confirmation ≠ some true)
      (hpublishes : s.publishes = [] ∨
        ∃ exchange key, s.publishes = [.publish exchange key true (republishing d)])
  | routed (hkept : republishing d ∈ s.kept) (hreturns : s.returns = [])
      (hpublishes : s.publishes = []) (hanswers : s.answers = [.confirm true])
      (hconfirmation : s.confirmation ≠ some true)
  | confirmed (hkept : republishing d ∈ s.kept) (hquiet : s.Quiet)
      (hconfirmation : s.confirmation = some true)
  | unroutable (hreturns : s.returns = []) (hpublishes : s.publishes = [])
      (hanswers : s.answers = [.returned (republishing d), .confirm true])
      (hconfirmation : s.confirmation ≠ some true)
  | returned (hreturns : s.returns ≠ [])
  | refused (hreturns : s.returns = []) (hpublishes : s.publishes = [])
      (hanswers : s.answers = [.confirm false]) (hconfirmation : s.confirmation ≠ some true)

/-- What a position knows of its publish. -/
def Exchange (s : Run τ) : Prop :=
  match s.position with
  | .connecting | .selecting _ | .publishing _ _ => s.Quiet
  | .waiting _ d => Awaiting s d
  | .checking _ d => (s.Quiet ∧ republishing d ∈ s.kept) ∨ s.returns ≠ []
  | .acknowledging _ d => s.Quiet ∧ republishing d ∈ s.kept
  | .refusing _ _ | .leaving _ _ | .finished _ _ => True

/-- A state carries what another does, or less. -/
structure Carries (s t : Run τ) : Prop where
  fewer : t.carried.length ≤ s.carried.length
  among : t.carried ⊆ s.carried

/-- **The invariant**: one message at a time is unacknowledged, it is in the queue, and it is
    acknowledged once the broker has its copy. -/
structure Inv (request : MoveRequest) (s : Run τ) : Prop where
  distinct : (s.source.messages.map Delivery.tag).Nodup
  saved : ∀ d ∈ s.initial, d ∈ s.source.messages ∨ republishing d ∈ s.kept
  counted : s.acknowledged.length = s.position.moved
  bounded : s.position.moved + s.position.room ≤ request.most
  ended : s.alive = false → s.source.locked = []
  finished : ∀ moved failed, s.position = .finished moved failed → s.alive = false
  single : s.source.locked.length ≤ 1 ∧ s.tokens.length ≤ 1
  tokens : s.alive = true → ∀ tag ∈ s.tokens, tag ∈ s.source.locked
  carried : s.alive = true → ∀ d ∈ s.carried, d ∈ s.source.messages
  acks : s.alive = true → ∀ tag, .ack tag ∈ s.outgoing →
    ∃ d ∈ s.source.messages, d.tag = tag ∧ republishing d ∈ s.kept
  exchange : Exchange s

section Steps

variable {request : MoveRequest} {s t : Run τ} {moved : Nat} {d : Delivery τ}

theorem send_eq (s : Run τ) (r : Request τ) : s.send r =
    { s with outgoing := if s.alive = true then s.outgoing ++ [r] else s.outgoing } := by
  unfold Run.send
  split
  · rfl
  · rfl

/-- **A step within the client** that settles nothing keeps what it does not touch. -/
theorem Inv.within (h : Inv request s) (hsource : t.source = s.source) (halive : t.alive = s.alive)
    (hsettles : t.outgoing.filterMap Request.settles = s.outgoing.filterMap Request.settles)
    (hacks : ∀ tag, .ack tag ∈ t.outgoing → .ack tag ∈ s.outgoing) (hinitial : t.initial = s.initial)
    (hkept : t.kept = s.kept) (hacknowledged : t.acknowledged = s.acknowledged)
    (hcarried : Carries s t) (hmoved : t.position.moved = s.position.moved)
    (hroom : t.position.moved + t.position.room ≤ request.most)
    (hover : ∀ moved failed, t.position = .finished moved failed → t.alive = false)
    (hexchange : Exchange t) : Inv request t where
  distinct := by rw [hsource]; exact h.distinct
  saved := by rw [hinitial, hsource, hkept]; exact h.saved
  counted := by rw [hacknowledged, hmoved]; exact h.counted
  bounded := hroom
  ended := by rw [halive, hsource]; exact h.ended
  finished := hover
  single := by
    refine ⟨by rw [hsource]; exact h.single.1, ?_⟩
    have hlength := hcarried.fewer
    have hsingle := h.single.2
    rw [Run.tokens, List.length_append, List.length_map] at hsingle ⊢
    rw [hsettles]
    omega
  tokens := by
    intro hopen tag htag
    rw [Run.tokens, hsettles, List.mem_append] at htag
    rw [hsource]
    rw [halive] at hopen
    apply h.tokens hopen
    rw [Run.tokens, List.mem_append]
    exact htag.imp_left fun hin => List.map_subset _ hcarried.among hin
  carried := by
    intro hopen d hd
    rw [hsource]
    rw [halive] at hopen
    exact h.carried hopen d (hcarried.among hd)
  acks := by
    rw [halive, hsource, hkept]
    exact fun hopen tag htag => h.acks hopen tag (hacks tag htag)
  exchange := hexchange

/-! ### The operation -/

@[simp] theorem moved_loop (request : MoveRequest) (n : Nat) :
    (loop request n : Position τ).moved = n := by
  unfold loop
  split <;> rfl

@[simp] theorem held_loop (request : MoveRequest) (n : Nat) :
    (loop request n : Position τ).held = none := by
  unfold loop
  split <;> rfl

theorem room_loop {n : Nat} (h : n ≤ request.most) :
    n + (loop request n : Position τ).room ≤ request.most := by
  unfold loop
  split
  · assumption
  · exact h

theorem loop_ne_over (request : MoveRequest) (n m : Nat) (failed : Bool) :
    (loop request n : Position τ) ≠ .finished m failed := by
  unfold loop
  split <;> exact fun h => by cases h

/-- What the head of the loop needs of a publish. -/
theorem exchange_loop {n : Nat} (hposition : s.position = loop request n) (hquiet : s.Quiet) :
    Exchange s := by
  unfold Exchange
  rw [hposition]
  rcases Nat.lt_or_ge n request.most with hless | hmost
  · rw [loop, if_pos hless]
    exact hquiet
  · rw [loop, if_neg (Nat.not_lt.mpr hmost)]
    trivial

theorem Carries.of_sublist (h : t.carried.Sublist s.carried) : Carries s t := ⟨h.length_le, h.subset⟩

/-- A step that drops the delivery in hand, or keeps it, carries no more. -/
theorem carries_position (hincoming : t.incoming = s.incoming)
    (hdeliveries : t.deliveries = s.deliveries)
    (hheld : t.position.held = none ∨ t.position.held = s.position.held) : Carries s t := by
  apply Carries.of_sublist
  rw [Run.carried, Run.carried, hincoming, hdeliveries]
  apply List.Sublist.append_left
  rcases hheld with hnone | hsame
  · rw [hnone]
    exact List.nil_sublist _
  · rw [hsame]

theorem Inv.leaves (h : Inv request s) (hmoved : moved = s.position.moved) (failed : Bool) :
    Inv request { s with position := .leaving moved failed } := by
  refine h.within rfl rfl rfl (fun _ htag => htag) rfl rfl rfl
    (carries_position rfl rfl (.inl rfl)) hmoved ?_ ?_ ?_
  · have hbounded := h.bounded
    show moved + 0 ≤ request.most
    omega
  · exact fun _ _ hposition => by cases hposition
  · trivial

theorem Inv.connect (h : Inv request s) (hposition : s.position = .connecting) {choice : Choice}
    (hstep : connect request s choice = some t) : Inv request t := by
  have hexchange := h.exchange
  unfold Exchange at hexchange
  rw [hposition] at hexchange
  cases choice with
  | succeed =>
    rw [Moving.connect] at hstep
    split at hstep
    · cases hstep
    · cases hstep
      refine h.within rfl rfl rfl (fun _ htag => htag) rfl rfl rfl
        (carries_position rfl rfl (.inl (held_loop _ _))) ?_ ?_ ?_ ?_
      · rw [hposition]
        exact moved_loop request 0
      · show (loop request 0 : Position τ).moved + _ ≤ _
        rw [moved_loop]
        exact room_loop (Nat.zero_le _)
      · exact fun n failed hover => absurd hover (loop_ne_over request 0 n failed)
      · exact exchange_loop rfl ⟨hexchange.returns, hexchange.answers, hexchange.publishes⟩
  | fail sent =>
    cases hstep
    exact h.leaves (by rw [hposition]; rfl) true
  | _ => cases hstep

theorem Inv.select (h : Inv request s) (hposition : s.position = .selecting moved) {choice : Choice}
    (hstep : select moved s choice = some t) : Inv request t := by
  have hmoved : moved = s.position.moved := by
    rw [hposition]
    rfl
  have hexchange := h.exchange
  unfold Exchange at hexchange
  rw [hposition] at hexchange
  cases choice with
  | context =>
    rw [Moving.select] at hstep
    split at hstep
    · cases hstep
      exact h.leaves hmoved true
    · cases hstep
  | delivery =>
    rw [Moving.select] at hstep
    split at hstep
    · cases hstep
    · rename_i delivery rest hdeliveries
      cases hstep
      have hbounded := h.bounded
      rw [hposition] at hbounded
      refine h.within rfl rfl rfl (fun _ htag => htag) rfl rfl rfl ?_ hmoved hbounded ?_ ?_
      · -- the delivery passes from the buffer to the hand
        constructor
        · simp only [Run.carried, Position.held, hposition, hdeliveries, List.length_append,
            List.length_cons, Option.toList_some, Option.toList_none, List.length_nil]
          omega
        · intro carried hcarried
          simp only [Run.carried, Position.held, hposition, hdeliveries, Option.toList_some,
            Option.toList_none, List.mem_append, List.mem_cons, List.not_mem_nil] at hcarried ⊢
          tauto
      · exact fun _ _ hnext => by cases hnext
      · exact ⟨hexchange.returns, hexchange.answers, hexchange.publishes⟩
  | closed =>
    rw [Moving.select] at hstep
    split at hstep
    · cases hstep
      exact h.leaves hmoved false
    · cases hstep
  | idle =>
    cases hstep
    exact h.leaves hmoved false
  | _ => cases hstep

/-- On to another position with the delivery in hand. -/
theorem Inv.holds (h : Inv request s) {p : Position τ} (hmoved : p.moved = s.position.moved)
    (hroom : p.room ≤ s.position.room) (hheld : p.held = s.position.held)
    (hover : ∀ moved failed, p ≠ .finished moved failed)
    (hexchange : Exchange { s with position := p }) : Inv request { s with position := p } := by
  refine h.within rfl rfl rfl (fun _ htag => htag) rfl rfl rfl
    (carries_position rfl rfl (.inr hheld)) hmoved ?_
    (fun n failed hposition => absurd hposition (hover n failed)) hexchange
  have hbounded := h.bounded
  show p.moved + p.room ≤ request.most
  omega

theorem Inv.refuses (h : Inv request s) (hmoved : moved = s.position.moved)
    (hroom : 1 ≤ s.position.room) (hheld : some d = s.position.held) :
    Inv request { s with position := .refusing moved d } :=
  h.holds hmoved hroom hheld (fun _ _ hover => by cases hover) trivial

theorem forward_eq (s : Run τ) (request : MoveRequest) (d : Delivery τ) : s.forward request d =
    { s with
      outgoing := if s.alive = true then s.outgoing ++
        [.publish request.toExchange (request.routingKey d) true (republishing d)]
        else s.outgoing } := send_eq s _

/-- A publish settles nothing. -/
theorem filterMap_forward (s : Run τ) (request : MoveRequest) (d : Delivery τ) :
    (s.forward request d).outgoing.filterMap Request.settles =
      s.outgoing.filterMap Request.settles := by
  rw [forward_eq]
  dsimp only
  split
  · rw [List.filterMap_append]
    exact List.append_nil _
  · rfl

theorem publishes_forward (s : Run τ) (request : MoveRequest) (d : Delivery τ) :
    (s.forward request d).publishes = if s.alive = true then s.publishes ++
      [.publish request.toExchange (request.routingKey d) true (republishing d)]
      else s.publishes := by
  rw [forward_eq, Run.publishes, Run.publishes]
  dsimp only
  split
  · rw [List.filter_append]
    rfl
  · rfl

theorem ack_mem_forward {tag : Nat} (h : .ack tag ∈ (s.forward request d).outgoing) :
    .ack tag ∈ s.outgoing := by
  rw [forward_eq] at h
  dsimp only at h
  split at h
  · rcases List.mem_append.mp h with hold | hnew
    · exact hold
    · cases List.mem_singleton.mp hnew
  · exact h

theorem Inv.publish (h : Inv request s) (hposition : s.position = .publishing moved d)
    {choice : Choice} (hstep : publish request moved d s choice = some t) : Inv request t := by
  have hexchange := h.exchange
  unfold Exchange at hexchange
  rw [hposition] at hexchange
  have hbounded := h.bounded
  rw [hposition] at hbounded
  have hmoved : moved = s.position.moved := by
    rw [hposition]
    rfl
  have hheld : some d = s.position.held := by
    rw [hposition]
    rfl
  cases choice with
  | succeed =>
    cases hstep
    refine h.within (by rw [forward_eq]) (by rw [forward_eq]) (filterMap_forward s request d)
      (fun _ htag => ack_mem_forward htag) (by rw [forward_eq]) (by rw [forward_eq])
      (by rw [forward_eq]) ?_ hmoved hbounded (fun _ _ hover => by cases hover) ?_
    · exact carries_position (by rw [forward_eq]) (by rw [forward_eq]) (.inr hheld)
    · show Awaiting _ d
      refine Awaiting.unanswered ?_ ?_ (fun hnone => by cases hnone) ?_
      · rw [forward_eq]
        exact hexchange.returns
      · rw [forward_eq]
        exact hexchange.answers
      · show (s.forward request d).publishes = [] ∨
          ∃ exchange key, (s.forward request d).publishes = [.publish exchange key true _]
        rw [publishes_forward, hexchange.publishes]
        by_cases hopen : s.alive = true
        · rw [if_pos hopen]
          exact .inr ⟨_, _, rfl⟩
        · rw [if_neg hopen]
          exact .inl rfl
  | fail sent =>
    cases hstep
    cases sent with
    | true =>
      rw [if_pos rfl]
      refine h.within (by rw [forward_eq]) (by rw [forward_eq]) (filterMap_forward s request d)
        (fun _ htag => ack_mem_forward htag) (by rw [forward_eq]) (by rw [forward_eq])
        (by rw [forward_eq]) ?_ hmoved hbounded (fun _ _ hover => by cases hover) trivial
      exact carries_position (by rw [forward_eq]) (by rw [forward_eq]) (.inr hheld)
    | false =>
      rw [if_neg Bool.false_ne_true]
      exact h.refuses hmoved (by rw [hposition]; exact Nat.le_refl 1) hheld
  | _ => cases hstep

theorem Inv.wait (h : Inv request s) (hposition : s.position = .waiting moved d) {choice : Choice}
    (hstep : wait moved d s choice = some t) : Inv request t := by
  have hexchange := h.exchange
  unfold Exchange at hexchange
  rw [hposition] at hexchange
  have hmoved : moved = s.position.moved := by
    rw [hposition]
    rfl
  have hheld : some d = s.position.held := by
    rw [hposition]
    rfl
  have hroom : 1 ≤ s.position.room := by
    rw [hposition]
    exact Nat.le_refl 1
  cases choice with
  | context =>
    rw [Moving.wait] at hstep
    split at hstep
    · cases hstep
      exact h.refuses hmoved hroom hheld
    · cases hstep
  | succeed =>
    rw [Moving.wait] at hstep
    split at hstep
    · cases hstep
    · rename_i hconfirmation
      cases hstep
      refine h.holds hmoved hroom hheld (fun _ _ hover => by cases hover) ?_
      -- what was confirmed is kept, or its return is here
      show (_ ∧ _) ∨ _
      cases hexchange with
      | unanswered _ _ hnot _ => exact absurd hconfirmation hnot
      | routed _ _ _ _ hnot => exact absurd hconfirmation hnot
      | confirmed hkept hquiet _ =>
        exact .inl ⟨⟨hquiet.returns, hquiet.answers, hquiet.publishes⟩, hkept⟩
      | unroutable _ _ _ hnot => exact absurd hconfirmation hnot
      | returned hreturns => exact .inr hreturns
      | refused _ _ _ hnot => exact absurd hconfirmation hnot
    · cases hstep
      exact h.refuses hmoved hroom hheld
  | _ => cases hstep

theorem Inv.check (h : Inv request s) (hposition : s.position = .checking moved d)
    {choice : Choice} (hstep : check moved d s choice = some t) : Inv request t := by
  have hexchange := h.exchange
  unfold Exchange at hexchange
  rw [hposition] at hexchange
  have hmoved : moved = s.position.moved := by
    rw [hposition]
    rfl
  have hheld : some d = s.position.held := by
    rw [hposition]
    rfl
  have hroom : 1 ≤ s.position.room := by
    rw [hposition]
    exact Nat.le_refl 1
  cases choice with
  | succeed =>
    rw [Moving.check] at hstep
    split at hstep
    · rename_i hnone
      cases hstep
      refine h.holds hmoved hroom hheld (fun _ _ hover => by cases hover) ?_
      rcases hexchange with ⟨hquiet, hkept⟩ | hreturns
      · exact ⟨⟨hquiet.returns, hquiet.answers, hquiet.publishes⟩, hkept⟩
      · exact absurd hnone hreturns
    · cases hstep
      have hbounded := h.bounded
      rw [hposition] at hbounded
      exact h.within rfl rfl rfl (fun _ htag => htag) rfl rfl rfl
        (carries_position rfl rfl (.inr hheld)) hmoved hbounded (fun _ _ hover => by cases hover)
        trivial
  | fail sent =>
    rw [Moving.check] at hstep
    split at hstep
    · cases hstep
    · cases hstep
      exact h.refuses hmoved hroom hheld
  | _ => cases hstep

/-- Settling is no publish. -/
theorem publishes_settle {r : Request τ} (hr : r.settles = some d.tag) :
    (s.send r).publishes = s.publishes := by
  rw [send_eq, Run.publishes, Run.publishes]
  dsimp only
  split
  · have hnot : r.isPublish = false := by rw [Request.isPublish, hr]; rfl
    rw [List.filter_append, List.filter_singleton, hnot]
    exact List.append_nil _
  · rfl

/-- **Settling** passes the tag from the hand to the channel, unless the channel is gone. -/
theorem tokens_settle {r : Request τ} {p : Position τ} (hr : r.settles = some d.tag)
    (hheld : s.position.held = some d) (hp : p.held = none) :
    ({ s.send r with position := p } : Run τ).tokens.length ≤ s.tokens.length ∧
      ({ s.send r with position := p } : Run τ).tokens ⊆ s.tokens := by
  rw [send_eq]
  simp only [Run.tokens, Run.carried, hheld, hp, Option.toList_some, Option.toList_none,
    List.append_nil, List.map_append, List.length_append, List.map_cons, List.map_nil,
    List.length_cons, List.length_nil]
  by_cases hopen : s.alive = true
  · rw [if_pos hopen, List.filterMap_append]
    have hlast : [r].filterMap Request.settles = [d.tag] := by simp [hr]
    rw [hlast, List.length_append]
    refine ⟨by simp only [List.length_cons, List.length_nil]; omega, fun tag htag => ?_⟩
    simp only [List.mem_append, List.mem_cons, List.not_mem_nil, or_false] at htag ⊢
    tauto
  · rw [if_neg hopen]
    refine ⟨by omega, fun tag htag => ?_⟩
    simp only [List.mem_append, List.mem_cons, List.not_mem_nil, or_false] at htag ⊢
    tauto

theorem Inv.settles (h : Inv request s) {r : Request τ} {p : Position τ} {tags : List Nat}
    (hr : r.settles = some d.tag) (hheld : s.position.held = some d) (hp : p.held = none)
    (hack : r = .ack d.tag → republishing d ∈ s.kept) (hcounted : tags.length = p.moved)
    (hroom : p.moved + p.room ≤ request.most) (hover : ∀ moved failed, p ≠ .finished moved failed)
    (hexchange : Exchange { s.send r with acknowledged := tags, position := p }) :
    Inv request { s.send r with acknowledged := tags, position := p } := by
  obtain ⟨hfewer, hamong⟩ := tokens_settle hr hheld hp
  have hcarried : ∀ other ∈ ({ s.send r with position := p } : Run τ).carried,
      other ∈ s.carried := by
    rw [send_eq]
    intro other hother
    simp only [Run.carried, hp, Option.toList_none, List.append_nil] at hother ⊢
    exact List.mem_append_left _ hother
  have hin : d ∈ s.carried := by
    rw [Run.carried, hheld]
    exact List.mem_append_right _ (List.mem_singleton.mpr rfl)
  have hsource : (s.send r).source = s.source := by rw [send_eq]
  have halive : (s.send r).alive = s.alive := by rw [send_eq]
  have hinitial : (s.send r).initial = s.initial := by rw [send_eq]
  have hkept : (s.send r).kept = s.kept := by rw [send_eq]
  constructor
  case distinct =>
    show ((s.send r).source.messages.map Delivery.tag).Nodup
    rw [hsource]
    exact h.distinct
  case saved =>
    show ∀ other ∈ (s.send r).initial, other ∈ (s.send r).source.messages ∨
      republishing other ∈ (s.send r).kept
    rw [hinitial, hsource, hkept]
    exact h.saved
  case counted => exact hcounted
  case bounded => exact hroom
  case ended =>
    show (s.send r).alive = false → (s.send r).source.locked = []
    rw [halive, hsource]
    exact h.ended
  case finished => exact fun moved failed hposition => absurd hposition (hover moved failed)
  case single =>
    refine ⟨?_, Nat.le_trans hfewer h.single.2⟩
    show (s.send r).source.locked.length ≤ 1
    rw [hsource]
    exact h.single.1
  case tokens =>
    intro hopen tag htag
    show tag ∈ (s.send r).source.locked
    have hopen' : (s.send r).alive = true := hopen
    rw [halive] at hopen'
    rw [hsource]
    exact h.tokens hopen' tag (hamong htag)
  case carried =>
    intro hopen other hother
    show other ∈ (s.send r).source.messages
    have hopen' : (s.send r).alive = true := hopen
    rw [halive] at hopen'
    rw [hsource]
    exact h.carried hopen' other (hcarried other hother)
  case acks =>
    intro hopen tag htag
    show ∃ other ∈ (s.send r).source.messages, other.tag = tag ∧
      republishing other ∈ (s.send r).kept
    have hopen' : (s.send r).alive = true := hopen
    have htag' : .ack tag ∈ (s.send r).outgoing := htag
    rw [halive] at hopen'
    rw [hsource, hkept]
    rw [send_eq, if_pos hopen'] at htag'
    rcases List.mem_append.mp htag' with hold | hnew
    · exact h.acks hopen' tag hold
    · have hsame := List.mem_singleton.mp hnew
      rw [← hsame] at hr
      cases Option.some.inj hr
      exact ⟨d, h.carried hopen' d hin, rfl, hack hsame.symm⟩
  case exchange => exact hexchange

theorem Inv.acknowledge (h : Inv request s) (hposition : s.position = .acknowledging moved d)
    {choice : Choice} (hstep : acknowledge request moved d s choice = some t) : Inv request t := by
  have hexchange := h.exchange
  unfold Exchange at hexchange
  rw [hposition] at hexchange
  obtain ⟨hquiet, hkept⟩ := hexchange
  have hheld : s.position.held = some d := by
    rw [hposition]
    rfl
  have hmoved : moved = s.position.moved := by
    rw [hposition]
    rfl
  cases choice with
  | succeed =>
    cases hstep
    have hbounded := h.bounded
    rw [hposition] at hbounded
    have hroom : moved + 1 ≤ request.most := hbounded
    refine h.settles rfl hheld (held_loop _ _) (fun _ => hkept) ?_ ?_
      (fun n failed => loop_ne_over request _ n failed) (exchange_loop rfl ⟨?_, ?_, ?_⟩)
    · rw [List.length_cons, h.counted, ← hmoved, moved_loop]
    · rw [moved_loop]
      exact room_loop hroom
    · show (s.send _).returns = []
      rw [send_eq]
      exact hquiet.returns
    · show (s.send _).answers = []
      rw [send_eq]
      exact hquiet.answers
    · show (s.send (.ack d.tag)).publishes = []
      rw [publishes_settle (d := d) rfl]
      exact hquiet.publishes
  | fail sent =>
    cases hstep
    exact h.refuses hmoved (by rw [hposition]; exact Nat.le_refl 1) hheld.symm
  | _ => cases hstep

theorem Inv.refuse (h : Inv request s) (hposition : s.position = .refusing moved d)
    {choice : Choice} (hstep : refuse moved d s choice = some t) : Inv request t := by
  have hheld : s.position.held = some d := by
    rw [hposition]
    rfl
  have hmoved : moved = s.position.moved := by
    rw [hposition]
    rfl
  cases choice with
  | succeed =>
    cases hstep
    have hbounded := h.bounded
    rw [hposition] at hbounded
    have hnack : (Request.nack d.tag : Request τ) = .ack d.tag → republishing d ∈ s.kept :=
      fun hsame => by cases hsame
    have hsettled : Inv request { s.send (.nack d.tag) with
        acknowledged := s.acknowledged, position := .leaving moved true } :=
      h.settles rfl hheld rfl hnack (h.counted.trans hmoved.symm) (Nat.le_of_succ_le hbounded)
        (fun _ _ hover => by cases hover) trivial
    rw [send_eq] at hsettled ⊢
    exact hsettled
  | fail sent =>
    cases hstep
    exact h.leaves hmoved true
  | _ => cases hstep

/-- **Without a channel**, nothing is locked, and only the copies count. -/
theorem Inv.dead (h : Inv request s) (halive : t.alive = false)
    (hmessages : t.source.messages = s.source.messages) (hlocked : t.source.locked = [])
    (htokens : t.tokens.length ≤ s.tokens.length) (hinitial : t.initial = s.initial)
    (hkept : t.kept = s.kept) (hacknowledged : t.acknowledged = s.acknowledged)
    (hmoved : t.position.moved = s.position.moved)
    (hroom : t.position.moved + t.position.room ≤ request.most) (hexchange : Exchange t) :
    Inv request t where
  distinct := by rw [hmessages]; exact h.distinct
  saved := by rw [hinitial, hmessages, hkept]; exact h.saved
  counted := by rw [hacknowledged, hmoved]; exact h.counted
  bounded := hroom
  ended := fun _ => hlocked
  finished := fun _ _ _ => halive
  single := ⟨by rw [hlocked]; exact Nat.zero_le 1, Nat.le_trans htokens h.single.2⟩
  tokens := fun hopen => absurd (halive.symm.trans hopen) Bool.false_ne_true
  carried := fun hopen => absurd (halive.symm.trans hopen) Bool.false_ne_true
  acks := fun hopen => absurd (halive.symm.trans hopen) Bool.false_ne_true
  exchange := hexchange

theorem Inv.leave (h : Inv request s) {failed : Bool} (hposition : s.position = .leaving moved failed)
    {choice : Choice} (hstep : leave moved failed s choice = some t) : Inv request t := by
  have hmoved : moved = s.position.moved := by
    rw [hposition]
    rfl
  have hbounded := h.bounded
  rw [hposition] at hbounded
  cases choice with
  | succeed =>
    rw [Moving.leave] at hstep
    split at hstep
    · rename_i hgone
      rw [Bool.not_eq_true] at hgone
      cases hstep
      refine h.dead hgone rfl (h.ended hgone) ?_ rfl rfl rfl hmoved hbounded trivial
      simp only [Run.tokens, Run.carried, Position.held, hposition, Nat.le_refl]
    · split at hstep
      · cases hstep
        refine h.dead rfl rfl rfl ?_ rfl rfl rfl hmoved hbounded trivial
        simp only [Run.tokens, Run.carried, Position.held, hposition, Nat.le_refl]
      · cases hstep
  | _ => cases hstep

/-- **Every step of the operation** keeps the invariant. -/
theorem Inv.client (h : Inv request s) {choice : Choice} (hstep : client request s choice = some t) :
    Inv request t := by
  unfold Moving.client at hstep
  cases hposition : s.position with
  | connecting =>
    rw [hposition] at hstep
    exact h.connect hposition hstep
  | selecting moved =>
    rw [hposition] at hstep
    exact h.select hposition hstep
  | publishing moved d =>
    rw [hposition] at hstep
    exact h.publish hposition hstep
  | waiting moved d =>
    rw [hposition] at hstep
    exact h.wait hposition hstep
  | checking moved d =>
    rw [hposition] at hstep
    exact h.check hposition hstep
  | acknowledging moved d =>
    rw [hposition] at hstep
    exact h.acknowledge hposition hstep
  | refusing moved d =>
    rw [hposition] at hstep
    exact h.refuse hposition hstep
  | leaving moved failed =>
    rw [hposition] at hstep
    exact h.leave hposition hstep
  | finished moved failed =>
    rw [hposition] at hstep
    cases hstep

/-! ### The broker -/

theorem Awaiting.same (h : Awaiting s d) (hreturns : t.returns = s.returns)
    (hanswers : t.answers = s.answers) (hpublishes : t.publishes = s.publishes)
    (hconfirmation : t.confirmation = s.confirmation) (hkept : s.kept ⊆ t.kept) :
    Awaiting t d := by
  cases h with
  | unanswered hr ha hc hp =>
    exact .unanswered (hreturns.trans hr) (hanswers.trans ha) (hconfirmation ▸ hc) (hpublishes ▸ hp)
  | routed hk hr hp ha hc =>
    exact .routed (hkept hk) (hreturns.trans hr) (hpublishes.trans hp) (hanswers.trans ha)
      (hconfirmation ▸ hc)
  | confirmed hk hq hc =>
    exact .confirmed (hkept hk)
      ⟨hreturns.trans hq.returns, hanswers.trans hq.answers, hpublishes.trans hq.publishes⟩
      (hconfirmation.trans hc)
  | unroutable hr hp ha hc =>
    exact .unroutable (hreturns.trans hr) (hpublishes.trans hp) (hanswers.trans ha)
      (hconfirmation ▸ hc)
  | returned hr => exact .returned (hreturns ▸ hr)
  | refused hr hp ha hc =>
    exact .refused (hreturns.trans hr) (hpublishes.trans hp) (hanswers.trans ha)
      (hconfirmation ▸ hc)

/-- What a step outside the operation leaves of its publish, where it changes neither the returns,
    the answers, the publishes nor the outcome, and forgets no copy. -/
theorem Exchange.same (h : Exchange s) (hposition : t.position = s.position)
    (hreturns : t.returns = s.returns) (hanswers : t.answers = s.answers)
    (hpublishes : t.publishes = s.publishes) (hconfirmation : t.confirmation = s.confirmation)
    (hkept : s.kept ⊆ t.kept) : Exchange t := by
  have hquiet : s.Quiet → t.Quiet := fun hq =>
    ⟨hreturns.trans hq.returns, hanswers.trans hq.answers, hpublishes.trans hq.publishes⟩
  unfold Exchange at h ⊢
  rw [hposition]
  cases hs : s.position with
  | connecting | selecting moved | publishing moved d =>
    rw [hs] at h
    exact hquiet h
  | waiting moved d =>
    rw [hs] at h
    exact h.same hreturns hanswers hpublishes hconfirmation hkept
  | checking moved d =>
    rw [hs] at h
    rcases h with ⟨hq, hk⟩ | hr
    · exact .inl ⟨hquiet hq, hkept hk⟩
    · exact .inr (hreturns ▸ hr)
  | acknowledging moved d =>
    rw [hs] at h
    exact ⟨hquiet h.1, hkept h.2⟩
  | refusing moved d | leaving moved failed | finished moved failed => trivial

/-- **Delivering** locks the message that is carried. -/
theorem Inv.deliver (h : Inv request s) (hstep : deliver s = some t) : Inv request t := by
  unfold Moving.deliver at hstep
  split at hstep
  · cases hstep
  · rename_i hready
    rw [not_or, not_or, not_not, not_not, not_not] at hready
    obtain ⟨hopen, -, hlocked⟩ := hready
    split at hstep
    · cases hstep
    · rename_i d rest hbatch
      cases hstep
      -- nothing was locked, so nothing is carried
      have htokens : s.tokens = [] := by
        apply List.eq_nil_iff_forall_not_mem.mpr
        intro tag htag
        have hmem := h.tokens hopen tag htag
        rw [hlocked] at hmem
        cases hmem
      have hone : rest = [] := by
        have hlength : (s.source.batch Delivery.tag 1).length ≤ 1 := by
          rw [PeekLock.batch, List.length_take]
          exact Nat.min_le_left _ _
        rw [hbatch, List.length_cons] at hlength
        exact List.length_eq_zero_iff.mp (by omega)
      have hin : d ∈ s.source.messages :=
        PeekLock.mem_messages_of_batch (hbatch ▸ List.mem_cons_self)
      have hlent : (s.source.lend Delivery.tag 1).locked = [d.tag] := by
        rw [PeekLock.lend, hbatch, hone, hlocked]
        rfl
      obtain ⟨hcarried, hsettled⟩ := List.append_eq_nil_iff.mp htokens
      have hnothing : s.carried = [] := List.map_eq_nil_iff.mp hcarried
      have hnow : ({ s with
          source := s.source.lend Delivery.tag 1
          incoming := s.incoming ++ [.delivery d] } : Run τ).carried = [d] := by
        simp only [Run.carried, List.append_eq_nil_iff] at hnothing ⊢
        obtain ⟨⟨hincoming, hdeliveries⟩, hheld⟩ := hnothing
        rw [List.filterMap_append, hincoming, hdeliveries, hheld]
        rfl
      have htoken : ({ s with
          source := s.source.lend Delivery.tag 1
          incoming := s.incoming ++ [.delivery d] } : Run τ).tokens = [d.tag] := by
        rw [Run.tokens, hnow]
        simp only [hsettled, List.append_nil, List.map_cons, List.map_nil]
      constructor
      case distinct => exact h.distinct
      case saved => exact h.saved
      case counted => exact h.counted
      case bounded => exact h.bounded
      case ended => exact fun hgone => absurd (hopen.symm.trans hgone) (by decide)
      case finished => exact h.finished
      case single =>
        rw [hlent, htoken]
        exact ⟨Nat.le_refl 1, Nat.le_refl 1⟩
      case tokens =>
        intro _ tag htag
        rw [htoken] at htag
        show tag ∈ (s.source.lend Delivery.tag 1).locked
        rw [hlent]
        exact htag
      case carried =>
        intro _ other hother
        rw [hnow] at hother
        rw [List.mem_singleton.mp hother]
        exact hin
      case acks => exact h.acks
      case exchange =>
        refine h.exchange.same rfl rfl ?_ rfl rfl (List.Subset.refl _)
        rw [Run.answers, Run.answers, List.filter_append]
        exact List.append_nil _

/-- A tag that is being settled is the only one. -/
theorem Inv.settling (h : Inv request s) {r : Request τ} {rest : List (Request τ)} {tag : Nat}
    (houtgoing : s.outgoing = r :: rest) (hr : r.settles = some tag) :
    s.carried = [] ∧ rest.filterMap Request.settles = [] := by
  have hsingle := h.single.2
  rw [Run.tokens, houtgoing, List.filterMap_cons, hr] at hsingle
  simp only [List.length_append, List.length_map, List.length_cons] at hsingle
  constructor
  · exact List.length_eq_zero_iff.mp (by omega)
  · exact List.length_eq_zero_iff.mp (by omega)

/-- A settled request leaves the channel, and the queue changes. -/
theorem Inv.settled (h : Inv request s) {r : Request τ} {rest : List (Request τ)} {tag : Nat}
    {source : PeekLock (Delivery τ) Nat} (hopen : s.alive = true)
    (houtgoing : s.outgoing = r :: rest) (hr : r.settles = some tag)
    (hmessages : source.messages.Sublist s.source.messages)
    (hlocked : source.locked.length ≤ s.source.locked.length)
    (hsaved : ∀ d ∈ s.source.messages, d ∈ source.messages ∨ republishing d ∈ s.kept) :
    Inv request { s with outgoing := rest, source := source } := by
  obtain ⟨hcarried, hrest⟩ := h.settling houtgoing hr
  have htokens : ({ s with outgoing := rest, source := source } : Run τ).tokens = [] := by
    show s.carried.map Delivery.tag ++ rest.filterMap Request.settles = []
    rw [hcarried, hrest]
    rfl
  constructor
  case distinct => exact (hmessages.map Delivery.tag).nodup h.distinct
  case saved =>
    intro d hd
    rcases h.saved d hd with hin | hkept
    · exact hsaved d hin
    · exact .inr hkept
  case counted => exact h.counted
  case bounded => exact h.bounded
  case ended => exact fun hgone => absurd (hopen.symm.trans hgone) (by decide)
  case finished => exact h.finished
  case single =>
    rw [htokens]
    exact ⟨Nat.le_trans hlocked h.single.1, Nat.zero_le 1⟩
  case tokens =>
    intro _ other hother
    rw [htokens] at hother
    cases hother
  case carried =>
    intro _ d hd
    have hd' : d ∈ s.carried := hd
    rw [hcarried] at hd'
    cases hd'
  case acks =>
    intro _ other hother
    have hin : other ∈ rest.filterMap Request.settles :=
      List.mem_filterMap.mpr ⟨.ack other, hother, rfl⟩
    rw [hrest] at hin
    cases hin
  case exchange =>
    refine h.exchange.same rfl rfl rfl ?_ rfl (List.Subset.refl _)
    have hnot : r.isPublish = false := by rw [Request.isPublish, hr]; rfl
    rw [Run.publishes, Run.publishes, houtgoing, List.filter_cons, hnot]
    rfl

/-- A publish that is handled is the one that is waited for, or nobody waits any more. -/
theorem Inv.published (h : Inv request s) {exchange key : String} {mandatory : Bool}
    {publishing : Publishing τ} {rest : List (Request τ)} {fate : Fate} (hopen : s.alive = true)
    (houtgoing : s.outgoing = .publish exchange key mandatory publishing :: rest) :
    Inv request { s with
      outgoing := rest
      incoming := s.incoming ++ answer mandatory publishing fate
      kept := if fate = .routed then publishing :: s.kept else s.kept } := by
  have hanswer : (answer mandatory publishing fate).filterMap Frame.delivery? = [] := by
    cases fate <;> cases mandatory <;> rfl
  have hanswers : (answer mandatory publishing fate).filter (fun frame => frame.delivery?.isNone) =
      answer mandatory publishing fate := by
    cases fate <;> cases mandatory <;> rfl
  have hcarried : (s.incoming ++ answer mandatory publishing fate).filterMap Frame.delivery? =
      s.incoming.filterMap Frame.delivery? := by
    rw [List.filterMap_append, hanswer, List.append_nil]
  have hkept : s.kept ⊆ if fate = .routed then publishing :: s.kept else s.kept := by
    split
    · exact List.subset_cons_self _ _
    · exact List.Subset.refl _
  have hsettles : rest.filterMap Request.settles = s.outgoing.filterMap Request.settles := by
    rw [houtgoing]
    rfl
  have hsame : ({ s with
      outgoing := rest
      incoming := s.incoming ++ answer mandatory publishing fate
      kept := if fate = .routed then publishing :: s.kept else s.kept } : Run τ).tokens =
      s.tokens := by
    simp only [Run.tokens, Run.carried, hcarried, hsettles]
  constructor
  case distinct => exact h.distinct
  case saved => exact fun d hd => (h.saved d hd).imp_right fun hin => hkept hin
  case counted => exact h.counted
  case bounded => exact h.bounded
  case ended => exact h.ended
  case finished => exact h.finished
  case single =>
    rw [hsame]
    exact h.single
  case tokens =>
    rw [hsame]
    exact h.tokens
  case carried =>
    intro _ d hd
    apply h.carried hopen d
    rw [Run.carried] at hd ⊢
    rwa [hcarried] at hd
  case acks =>
    intro _ tag htag
    have hin : .ack tag ∈ s.outgoing := by
      rw [houtgoing]
      exact List.mem_cons_of_mem _ htag
    obtain ⟨d, hd, hsame, hcopy⟩ := h.acks hopen tag hin
    exact ⟨d, hd, hsame, hkept hcopy⟩
  case exchange =>
    have hpublishes : s.publishes =
        .publish exchange key mandatory publishing :: rest.filter Request.isPublish := by
      rw [Run.publishes, houtgoing]
      rfl
    have hsome : s.publishes ≠ [] := by
      rw [hpublishes]
      exact List.cons_ne_nil _ _
    have hexchange := h.exchange
    unfold Exchange at hexchange ⊢
    dsimp only
    cases hposition : s.position with
    | connecting | selecting moved | publishing moved d =>
      rw [hposition] at hexchange
      exact absurd hexchange.publishes hsome
    | waiting moved d =>
      rw [hposition] at hexchange
      cases hexchange with
      | unanswered hreturns hnone hconfirmation hone =>
        rcases hone with hempty | ⟨exchange', key', hone⟩
        · exact absurd hempty hsome
        · rw [hpublishes] at hone
          obtain ⟨hfirst, hrest⟩ := List.cons.inj hone
          cases hfirst
          have hanswered : (s.incoming ++ answer true (republishing d) fate).filter
              (fun frame => frame.delivery?.isNone) = answer true (republishing d) fate := by
            have hnone' : s.incoming.filter (fun frame => frame.delivery?.isNone) = [] := hnone
            rw [List.filter_append, hnone', hanswers, List.nil_append]
          cases fate with
          | routed =>
            exact .routed List.mem_cons_self hreturns hrest hanswered hconfirmation
          | unroutable => exact .unroutable hreturns hrest hanswered hconfirmation
          | refused => exact .refused hreturns hrest hanswered hconfirmation
      | routed _ _ hempty _ _ => exact absurd hempty hsome
      | confirmed _ hquiet _ => exact absurd hquiet.publishes hsome
      | unroutable _ hempty _ _ => exact absurd hempty hsome
      | returned hreturns => exact .returned hreturns
      | refused _ hempty _ _ => exact absurd hempty hsome
    | checking moved d =>
      rw [hposition] at hexchange
      rcases hexchange with ⟨hquiet, -⟩ | hreturns
      · exact absurd hquiet.publishes hsome
      · exact .inr hreturns
    | acknowledging moved d =>
      rw [hposition] at hexchange
      exact absurd hexchange.1.publishes hsome
    | refusing moved d | leaving moved failed | finished moved failed => trivial

/-- **Handling a request** keeps the invariant. -/
theorem Inv.handle (h : Inv request s) {fate : Fate} (hstep : handle fate s = some t) :
    Inv request t := by
  unfold Moving.handle at hstep
  split at hstep
  · cases hstep
  · rename_i hopen
    rw [not_not] at hopen
    split at hstep
    · cases hstep
    · rename_i exchange key mandatory publishing rest houtgoing
      cases hstep
      exact h.published hopen houtgoing
    · rename_i tag rest houtgoing
      cases hstep
      refine h.settled hopen houtgoing rfl List.filter_sublist (List.length_filter_le _ _) ?_
      -- what goes is the message of that tag, of which there is a copy
      intro d hd
      obtain ⟨other, hother, hsame, hcopy⟩ := h.acks hopen tag (houtgoing ▸ List.mem_cons_self)
      by_cases htag : d.tag = tag
      · have hone : d = other :=
          List.inj_on_of_nodup_map h.distinct hd hother (htag.trans hsame.symm)
        exact .inr (hone ▸ hcopy)
      · exact .inl (PeekLock.mem_messages_remove.mpr ⟨hd, htag⟩)
    · rename_i tag rest houtgoing
      cases hstep
      exact h.settled hopen houtgoing rfl (List.Sublist.refl _) (List.length_filter_le _ _)
        fun d hd => .inl hd

/-! ### What else happens -/

/-- The first frame, where it is no delivery, is the first answer. -/
theorem answers_cons {frame : Frame τ} {rest : List (Frame τ)}
    (hincoming : s.incoming = frame :: rest) (hframe : frame.delivery? = none) :
    s.answers = frame :: rest.filter fun frame => frame.delivery?.isNone := by
  rw [Run.answers, hincoming, List.filter_cons, hframe]
  rfl

theorem Exchange.returned (h : Exchange s) {publishing : Publishing τ} {rest : List (Frame τ)}
    (hincoming : s.incoming = .returned publishing :: rest) :
    Exchange { s with incoming := rest, returns := [publishing] } := by
  have hanswers := answers_cons hincoming rfl
  have hsome : s.answers ≠ [] := by
    rw [hanswers]
    exact List.cons_ne_nil _ _
  unfold Exchange at h ⊢
  dsimp only
  cases hposition : s.position with
  | connecting | selecting moved | publishing moved d =>
    rw [hposition] at h
    exact absurd h.answers hsome
  | waiting moved d =>
    rw [hposition] at h
    exact .returned (List.cons_ne_nil _ _)
  | checking moved d => exact .inr (List.cons_ne_nil _ _)
  | acknowledging moved d =>
    rw [hposition] at h
    exact absurd h.1.answers hsome
  | refusing moved d | leaving moved failed | finished moved failed => trivial

theorem Exchange.confirmed (h : Exchange s) {acked : Bool} {rest : List (Frame τ)}
    (hincoming : s.incoming = .confirm acked :: rest) :
    Exchange { s with incoming := rest, confirmation := some acked } := by
  have hanswers := answers_cons hincoming rfl
  have hsome : s.answers ≠ [] := by
    rw [hanswers]
    exact List.cons_ne_nil _ _
  unfold Exchange at h ⊢
  dsimp only
  cases hposition : s.position with
  | connecting | selecting moved | publishing moved d =>
    rw [hposition] at h
    exact absurd h.answers hsome
  | waiting moved d =>
    rw [hposition] at h
    cases h with
    | unanswered _ hempty _ _ => exact absurd hempty hsome
    | routed hkept hreturns hpublishes hone _ =>
      rw [hanswers] at hone
      obtain ⟨hfirst, hrest⟩ := List.cons.inj hone
      cases hfirst
      exact .confirmed hkept ⟨hreturns, hrest, hpublishes⟩ rfl
    | confirmed _ hquiet _ => exact absurd hquiet.answers hsome
    | unroutable _ _ htwo _ =>
      rw [hanswers] at htwo
      cases (List.cons.inj htwo).1
    | returned hreturns => exact .returned hreturns
    | refused hreturns hpublishes hone _ =>
      rw [hanswers] at hone
      obtain ⟨hfirst, hrest⟩ := List.cons.inj hone
      cases hfirst
      exact .unanswered hreturns hrest (fun hfalse => by cases hfalse) (.inl hpublishes)
  | checking moved d =>
    rw [hposition] at h
    rcases h with ⟨hquiet, -⟩ | hreturns
    · exact absurd hquiet.answers hsome
    · exact .inr hreturns
  | acknowledging moved d =>
    rw [hposition] at h
    exact absurd h.1.answers hsome
  | refusing moved d | leaving moved failed | finished moved failed => trivial

/-- **Dispatching a frame** hands it on. -/
theorem Inv.dispatch (h : Inv request s) (hstep : dispatch s = some t) : Inv request t := by
  unfold Moving.dispatch at hstep
  split at hstep
  · cases hstep
  · rename_i d rest hincoming
    cases hstep
    refine h.within rfl rfl rfl (fun _ htag => htag) rfl rfl rfl ?_ rfl h.bounded h.finished ?_
    · constructor
      · simp only [Run.carried, hincoming, Frame.delivery?, List.filterMap_cons, List.length_append,
          List.length_cons, List.length_nil]
        omega
      · intro other hother
        simp only [Run.carried, hincoming, Frame.delivery?, List.filterMap_cons, List.mem_append,
          List.mem_cons, List.not_mem_nil, or_false] at hother ⊢
        tauto
    · refine h.exchange.same rfl rfl ?_ rfl rfl (List.Subset.refl _)
      rw [Run.answers, Run.answers, hincoming]
      rfl
  · rename_i publishing rest hincoming
    split at hstep
    · cases hstep
      refine h.within rfl rfl rfl (fun _ htag => htag) rfl rfl rfl ?_ rfl h.bounded h.finished
        (h.exchange.returned hincoming)
      apply Carries.of_sublist
      simp only [Run.carried, hincoming, Frame.delivery?, List.filterMap_cons]
      exact List.Sublist.refl _
    · cases hstep
  · rename_i acked rest hincoming
    cases hstep
    refine h.within rfl rfl rfl (fun _ htag => htag) rfl rfl rfl ?_ rfl h.bounded h.finished
      (h.exchange.confirmed hincoming)
    apply Carries.of_sublist
    simp only [Run.carried, hincoming, Frame.delivery?, List.filterMap_cons]
    exact List.Sublist.refl _

/-- **A message that arrives** changes nothing about the others. -/
theorem Inv.arrive (h : Inv request s) (hfresh : d.tag ∉ s.source.messages.map Delivery.tag) :
    Inv request { s with
      source := { s.source with messages := s.source.messages ++ [d] } } where
  distinct := by
    show ((s.source.messages ++ [d]).map Delivery.tag).Nodup
    rw [List.map_append, List.nodup_append]
    refine ⟨h.distinct, List.nodup_singleton _, fun tag htag other hother => ?_⟩
    rw [List.mem_singleton.mp hother]
    exact fun hsame => hfresh (hsame ▸ htag)
  saved := fun other hother => (h.saved other hother).imp_left fun hin => List.mem_append_left _ hin
  counted := h.counted
  bounded := h.bounded
  ended := h.ended
  finished := h.finished
  single := h.single
  tokens := h.tokens
  carried := fun hopen other hother => List.mem_append_left _ (h.carried hopen other hother)
  acks := by
    intro hopen tag htag
    obtain ⟨other, hother, hsame⟩ := h.acks hopen tag htag
    exact ⟨other, List.mem_append_left _ hother, hsame⟩
  exchange := h.exchange.same rfl rfl rfl rfl rfl (List.Subset.refl _)

/-- What is lost with the channel leaves the publish as it was, or unheard of. -/
theorem Exchange.lost (h : Exchange s) (source : PeekLock (Delivery τ) Nat) :
    Exchange { s with source := source, alive := false, outgoing := [] } := by
  unfold Exchange at h ⊢
  dsimp only
  cases hposition : s.position with
  | connecting | selecting moved | publishing moved d =>
    rw [hposition] at h
    exact ⟨h.returns, h.answers, rfl⟩
  | waiting moved d =>
    rw [hposition] at h
    cases h with
    | unanswered hreturns hanswers hconfirmation _ =>
      exact .unanswered hreturns hanswers hconfirmation (.inl rfl)
    | routed hkept hreturns _ hanswers hconfirmation =>
      exact .routed hkept hreturns rfl hanswers hconfirmation
    | confirmed hkept hquiet hconfirmation =>
      exact .confirmed hkept ⟨hquiet.returns, hquiet.answers, rfl⟩ hconfirmation
    | unroutable hreturns _ hanswers hconfirmation =>
      exact .unroutable hreturns rfl hanswers hconfirmation
    | returned hreturns => exact .returned hreturns
    | refused hreturns _ hanswers hconfirmation =>
      exact .refused hreturns rfl hanswers hconfirmation
  | checking moved d =>
    rw [hposition] at h
    exact h.imp_left fun hquiet => ⟨⟨hquiet.1.returns, hquiet.1.answers, rfl⟩, hquiet.2⟩
  | acknowledging moved d =>
    rw [hposition] at h
    exact ⟨⟨h.1.returns, h.1.answers, rfl⟩, h.2⟩
  | refusing moved d | leaving moved failed | finished moved failed => trivial

/-- What the client has not heard when it finds out, it does not hear. -/
theorem Exchange.noticed (h : Exchange s) : Exchange { s with
    incoming := [], closed := true, confirmation := some (s.confirmation.getD false) } := by
  have hfalse : s.confirmation ≠ some true → some (s.confirmation.getD false) ≠ some true := by
    intro hnot htrue
    cases hconfirmation : s.confirmation with
    | none =>
      rw [hconfirmation] at htrue
      cases htrue
    | some acked =>
      rw [hconfirmation] at htrue hnot
      exact hnot htrue
  unfold Exchange at h ⊢
  dsimp only
  cases hposition : s.position with
  | connecting | selecting moved | publishing moved d =>
    rw [hposition] at h
    exact ⟨h.returns, rfl, h.publishes⟩
  | waiting moved d =>
    rw [hposition] at h
    cases h with
    | unanswered hreturns _ hconfirmation hpublishes =>
      exact .unanswered hreturns rfl (hfalse hconfirmation) hpublishes
    | routed _ hreturns hpublishes _ hconfirmation =>
      exact .unanswered hreturns rfl (hfalse hconfirmation) (.inl hpublishes)
    | confirmed hkept hquiet hconfirmation =>
      refine .confirmed hkept ⟨hquiet.returns, rfl, hquiet.publishes⟩ ?_
      show some (s.confirmation.getD false) = some true
      rw [hconfirmation]
      rfl
    | unroutable hreturns hpublishes _ hconfirmation =>
      exact .unanswered hreturns rfl (hfalse hconfirmation) (.inl hpublishes)
    | returned hreturns => exact .returned hreturns
    | refused hreturns hpublishes _ hconfirmation =>
      exact .unanswered hreturns rfl (hfalse hconfirmation) (.inl hpublishes)
  | checking moved d =>
    rw [hposition] at h
    exact h.imp_left fun hquiet => ⟨⟨hquiet.1.returns, rfl, hquiet.1.publishes⟩, hquiet.2⟩
  | acknowledging moved d =>
    rw [hposition] at h
    exact ⟨⟨h.1.returns, rfl, h.1.publishes⟩, h.2⟩
  | refusing moved d | leaving moved failed | finished moved failed => trivial

/-- **Step lemma**: whatever happens keeps the invariant. -/
theorem Inv.step (h : Inv request s) {event : Event τ} (hstep : step request s event = some t) :
    Inv request t := by
  cases event with
  | client choice => exact h.client hstep
  | handle fate => exact h.handle hstep
  | deliver => exact h.deliver hstep
  | dispatch => exact h.dispatch hstep
  | arrive d =>
    rw [Moving.step] at hstep
    split at hstep
    · cases hstep
    · rename_i hfresh
      cases hstep
      exact h.arrive hfresh
  | cancel =>
    cases hstep
    exact h.within rfl rfl rfl (fun _ htag => htag) rfl rfl rfl
      (carries_position rfl rfl (.inr rfl)) rfl h.bounded h.finished
      (h.exchange.same rfl rfl rfl rfl rfl (List.Subset.refl _))
  | close =>
    cases hstep
    exact h.within rfl rfl rfl (fun _ htag => htag) rfl rfl rfl
      (carries_position rfl rfl (.inr rfl)) rfl h.bounded h.finished
      (h.exchange.same rfl rfl rfl rfl rfl (List.Subset.refl _))
  | lose =>
    cases hstep
    refine h.dead rfl rfl rfl ?_ rfl rfl rfl rfl h.bounded (h.exchange.lost _)
    show (s.carried.map Delivery.tag ++ []).length ≤ s.tokens.length
    rw [List.append_nil, Run.tokens, List.length_append]
    exact Nat.le_add_right _ _
  | notice =>
    rw [Moving.step] at hstep
    split at hstep
    · cases hstep
    · rename_i hgone
      rw [Bool.not_eq_true] at hgone
      cases hstep
      refine h.dead hgone rfl (h.ended hgone) ?_ rfl rfl rfl rfl h.bounded h.exchange.noticed
      simp only [Run.tokens, Run.carried, List.filterMap_nil, List.nil_append, List.length_append,
        List.length_map]
      omega

/-- **Run lemma**: the invariant holds in every interleaving. -/
theorem inv_reachable (h : (channels τ request).Reachable Machine.Always s) : Inv request s := by
  apply h.invariant
  · intro s hstart
    obtain ⟨hdistinct, hs⟩ := hstart
    rw [hs]
    constructor
    case distinct => exact hdistinct
    case saved => exact fun d hd => .inl hd
    case counted => rfl
    case bounded => exact Nat.zero_le _
    case ended => exact fun _ => rfl
    case finished => exact fun _ _ hposition => by cases hposition
    case single => exact ⟨Nat.zero_le 1, Nat.zero_le 1⟩
    case tokens => exact fun _ tag htag => by cases htag
    case carried => exact fun _ d hd => by cases hd
    case acks => exact fun _ tag htag => by cases htag
    case exchange => exact ⟨rfl, rfl, rfl⟩
  · intro s event t _ hinv _ hstep
    exact hinv.step hstep

end Steps

/-! ## The result -/

/-- **Moving messages loses none**, acknowledges no more than it may, and reports as many. -/
theorem move_loses_nothing {request : MoveRequest} {s : Run τ} {moved : Nat} {failed : Bool}
    (h : (channels τ request).Reachable Machine.Always s)
    (hover : s.position = .finished moved failed) : Moved request moved s := by
  have hinv := inv_reachable h
  have hmoved : s.position.moved = moved := by
    rw [hover]
    rfl
  have hbounded := hinv.bounded
  constructor
  · intro d hd
    rcases hinv.saved d hd with hin | hkept
    · refine .inl ⟨hin, ?_⟩
      rw [hinv.ended (hinv.finished moved failed hover)]
      exact List.not_mem_nil
    · exact .inr ⟨republishing d, hkept, copyOf_republishing d⟩
  · rw [hinv.counted]
    omega
  · rw [hinv.counted, hmoved]

/-- A message without properties. -/
def deadLetter : Delivery Unit :=
  ⟨1, "orders", (), "", "", 0, 0, "", "", "", "", 0, "", "", "", [104, 105]⟩

/-- A message is delivered, its copy is routed, and it is acknowledged. -/
def forwarded : List (Event Unit) :=
  [.client .succeed, .deliver, .dispatch, .client .delivery, .client .succeed, .handle .routed,
    .dispatch, .client .succeed, .client .succeed, .client .succeed]

/-- One message is to be moved, and is. -/
theorem move_loses_nothing_once :
    Moved ⟨"orders.dlq", "", "orders", 1⟩ 1
        ((channels Unit ⟨"orders.dlq", "", "orders", 1⟩).endOf (atRest [deadLetter])
          (forwarded ++ [.handle .routed, .client .succeed])) ∧
      ((channels Unit ⟨"orders.dlq", "", "orders", 1⟩).endOf (atRest [deadLetter])
        (forwarded ++ [.handle .routed, .client .succeed])).source.messages = [] := by
  have hstart : (channels Unit ⟨"orders.dlq", "", "orders", 1⟩).Reachable Machine.Always
      (atRest [deadLetter]) := .start ⟨List.nodup_singleton _, rfl⟩
  exact ⟨move_loses_nothing (hstart.endOf (Machine.permitted_always _ _ _)) rfl, rfl⟩

/-- Asked for no message at all, it moves one. -/
theorem moved_with_limit_zero : ∃ (request : MoveRequest) (s : Run Unit) (moved : Nat)
    (failed : Bool), (channels Unit request).Reachable Machine.Always s ∧
      s.position = .finished moved failed ∧ ¬ (s.acknowledged.length : Int) ≤ request.limit := by
  have hstart : (channels Unit ⟨"orders.dlq", "", "orders", 0⟩).Reachable Machine.Always
      (atRest [deadLetter]) := .start ⟨List.nodup_singleton _, rfl⟩
  have hend := hstart.endOf (Machine.permitted_always _ _
    (forwarded ++ [.client .idle, .handle .routed, .client .succeed]))
  exact ⟨_, _, 1, false, hend, rfl, by decide +kernel⟩

end MqStudio.Driver.Rabbit.Moving
