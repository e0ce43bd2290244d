import MqStudio.Lib.Holdings
import MqStudio.Storage

/-!
# Live Subscriptions of One NATS Connection

`StartLiveSubscription`, `StopLiveSubscription` and `stopLiveStreams` of
`internal/driver/nats/subscribe.go`, and the `Close` of `conn.go` that stops them. A start counts the
streams, lets go of their lock, makes one subscription of the session for each filter, and takes the
lock again to add its stream: any number of calls interleave between. What a start checks of its
filters beforehand changes nothing, and a start that fails there is left out.

A request succeeds or fails, and fails once the connection is closed; unsubscribing what is still
subscribed does not fail. What a stream buffers is not looked at here.

## Main definitions

- `calls`: what each call does next.
- `careful`: the condition on runs.

## Main results

- `bounded_accounted`: in a run whose steps are careful a connection never holds more than
  `maxLiveStreams` streams, and whenever no call is in progress what is subscribed on the session is
  what they hold.
- `careless`: without it a connection holds one stream more, a subscription is left that no stream
  holds, and a stream is held that nothing is subscribed for.
-/

namespace MqStudio.Driver.Nats.Live

open MqStudio.Lib
open MqStudio.Lib.Machine
open MqStudio.Lib.TreeMap
open MqStudio.Storage (trimSpace)

/-- `maxLiveStreams` -/
def maxLiveStreams : Nat := 32

/-! ## The connection -/

/-- `LiveFilter`: a subject, and the queue group it is subscribed under where it names one. -/
structure LiveFilter where
  pattern : String
  queueGroup : String
  deriving DecidableEq

/-- `natsclient.Subscription`: which one of the session it is, and what it was asked for. -/
structure Subscription where
  number : Nat
  subject : String
  group : Option String
  deriving DecidableEq

/-- `Subscribe`, or `QueueSubscribe` where the filter names a group. -/
def LiveFilter.subscription (filter : LiveFilter) (number : Nat) : Subscription :=
  let group := trimSpace filter.queueGroup
  ⟨number, trimSpace filter.pattern, if group = "" then none else some group⟩

/-- The streams with their subscriptions, the subscriptions that are active on the session, how many
    stream ids and subscriptions were issued, and whether `Close` has begun and is done. -/
structure Shared where
  streams : Map Nat (List Subscription)
  session : List Subscription
  issued : Nat
  subscribed : Nat
  closing : Bool
  closed : Bool

namespace Shared

/-- How many streams the connection holds. -/
def count (s : Shared) : Nat := (values s.streams).length

/-- The subscriptions of the streams it holds. -/
def held (s : Shared) : List Subscription := holdings (fun held => held) s.streams

/-- A filter is subscribed. -/
def subscribe (s : Shared) (filter : LiveFilter) : Shared :=
  { s with
    session := s.session ++ [filter.subscription s.subscribed]
    subscribed := s.subscribed + 1 }

/-- `Unsubscribe` -/
def unsubscribe (s : Shared) (subscription : Subscription) : Shared :=
  { s with session := s.session.erase subscription }

end Shared

/-! ## Calls -/

/-- Where a call stands. -/
inductive Position where
  | starting (filters : List LiveFilter)
  /-- The next filter is subscribed; where there is none, the session is flushed. -/
  | subscribing (id : Nat) (rest : List LiveFilter) (made : List Subscription)
  /-- `SetPendingLimits`, of what was subscribed last. -/
  | limiting (id : Nat) (latest : Subscription) (rest : List LiveFilter) (made : List Subscription)
  | adding (id : Nat) (made : List Subscription)
  /-- `unsubscribe` -/
  | unsubscribing (rest : List Subscription)
  | stopping (id : Nat)
  | closing
  /-- `Close`: what the streams held is unsubscribed, and then the connection closed. -/
  | ending (rest : List Subscription)
  deriving DecidableEq

/-- One step of a call, whose request succeeds or fails. -/
def advance (s : Shared) : Position → Bool → Option (Shared × Option Position)
  | .starting filters, _ =>
    if maxLiveStreams ≤ s.count then some (s, none)
    else some ({ s with issued := s.issued + 1 }, some (.subscribing s.issued filters []))
  | .subscribing id (filter :: rest) made, true =>
    if s.closed then none
    else
      some (s.subscribe filter,
        some (.limiting id (filter.subscription s.subscribed) rest made))
  | .subscribing id [] made, true =>
    if s.closed then none else some (s, some (.adding id made))
  | .subscribing _ _ made, false => some (s, some (.unsubscribing made))
  | .limiting id latest rest made, true =>
    if s.closed then none else some (s, some (.subscribing id rest (made ++ [latest])))
  -- what was subscribed last is not among what is undone
  | .limiting _ _ _ made, false => some (s, some (.unsubscribing made))
  | .adding id made, _ => some ({ s with streams := s.streams.insert id made }, none)
  | .unsubscribing [], _ => some (s, none)
  | .unsubscribing (subscription :: rest), _ =>
    some (s.unsubscribe subscription, some (.unsubscribing rest))
  | .stopping id, _ =>
    match s.streams[id]? with
    | none => some (s, none)
    | some held =>
      some ({ s with streams := s.streams.erase id }, some (.unsubscribing held))
  | .closing, _ =>
    -- `closeOnce`: another waits until the first is done
    if s.closing then if s.closed then some (s, none) else none
    else some ({ s with closing := true, streams := ∅ }, some (.ending s.held))
  | .ending (subscription :: rest), _ =>
    some (s.unsubscribe subscription, some (.ending rest))
  | .ending [], _ => some ({ s with session := [], closed := true }, none)

/-- The calls, and nothing beside them. -/
def calls : Program Shared Position Bool Empty where
  start s := s = ⟨∅, [], 0, 0, false, false⟩
  arrives
    | .starting filters => !filters.isEmpty
    | .stopping _ | .closing => true
    | _ => false
  advance := advance
  environment _ e := e.elim
  holds _ := false
  excludes _ := false

/-! ## The condition -/

/-- A step that leaves nothing behind: a limit is refused only where the session is gone, and a
    stream is added only while there is room for it and nobody closes the connection. -/
def careful : Program.Condition Shared Position Bool Empty where
  thread
    | s, .limiting .., succeeds => succeeds = true ∨ s.closed = true
    | s, .adding .., _ => s.count < maxLiveStreams ∧ s.closing = false
    | _, _, _ => True
  beside _ _ _ _ := True
  environment _ _ := True

/-- **Bounded**: a connection holds no more streams than it may. -/
def Bounded (s : Threads Shared Position) : Prop := s.shared.count ≤ maxLiveStreams

/-- **Accounted for**: while no call is in progress what is active on the session is what the
    streams hold. -/
def Accounted (s : Threads Shared Position) : Prop :=
  s.threads = ∅ → s.shared.session.Perm s.shared.held

/-! ## Where calls stand -/

/-- The stream a start is to add. -/
def Position.stream : Position → Option Nat
  | .subscribing id _ _ | .limiting id _ _ _ | .adding id _ => some id
  | _ => none

/-- A call that closes the connection, once it took the streams. -/
def Position.ends : Position → Bool
  | .ending _ => true
  | _ => false

/-- A stream that is to be added has an id that was issued and that none has, and a call that has
    taken the streams closes the connection. -/
structure Placed (s : Shared) (p : Position) : Prop where
  fresh : ∀ id, p.stream = some id → id < s.issued ∧ s.streams[id]? = none
  ending : p.ends = true → s.closing = true

/-- Two starts add different streams. -/
def Apart (p q : Position) : Prop := ∀ id, p.stream = some id → q.stream ≠ some id

/-- What a step does: a start that goes on has its id from before or is issued the next one, a stream
    is there from before or is the one the call adds before it returns, and who ends the connection
    has begun to close it. -/
structure Moves (s : Shared) (p : Position) (next : Shared × Option Position) : Prop where
  issued : s.issued ≤ next.1.issued
  stream : ∀ q id, next.2 = some q → q.stream = some id →
    p.stream = some id ∨ (id = s.issued ∧ next.1.issued = s.issued + 1)
  streams : ∀ (id : Nat) (held : List Subscription), next.1.streams[id]? = some held →
    s.streams[id]? = some held ∨ (p.stream = some id ∧ next.2 = none)
  closing : s.closing = true → next.1.closing = true
  ends : ∀ q, next.2 = some q → q.ends = true → p.ends = true ∨ next.1.closing = true

section Moves

variable {s : Shared} {p : Position} {succeeds : Bool} {next : Shared × Option Position}

/-- A step that issues no id, adds no stream and does not begin to close. -/
theorem Moves.same (hissued : next.1.issued = s.issued)
    (hstreams : ∀ (id : Nat) (held : List Subscription), next.1.streams[id]? = some held →
      s.streams[id]? = some held) (hclosing : next.1.closing = s.closing)
    (hnext : ∀ q, next.2 = some q →
      (q.stream = none ∨ q.stream = p.stream) ∧ (q.ends = true → p.ends = true)) :
    Moves s p next := by
  refine ⟨hissued.ge, fun q id hq hid => ?_, fun id held hid => .inl (hstreams id held hid),
    hclosing.trans, fun q hq hends => .inl ((hnext q hq).2 hends)⟩
  rcases (hnext q hq).1 with hnone | hsame
  · rw [hnone] at hid
    cases hid
  · exact .inl (hsame ▸ hid)

/-- **What a step of a call does.** -/
theorem moves_advance (h : advance s p succeeds = some next) : Moves s p next := by
  cases p with
  | starting filters =>
    simp only [advance] at h
    split at h
    · cases h
      exact .same rfl (fun _ _ hid => hid) rfl (by simp)
    · cases h
      refine ⟨Nat.le_succ _, ?_, fun id held hid => .inl hid, fun hclosing => hclosing, ?_⟩
      · rintro q id hq hid
        cases hq
        cases hid
        exact .inr ⟨rfl, rfl⟩
      · rintro q hq hends
        cases hq
        cases hends
  | subscribing id rest made =>
    cases succeeds with
    | false =>
      cases rest <;> (cases h; exact .same rfl (fun _ _ hid => hid) rfl (by simp [Position.stream, Position.ends]))
    | true =>
      cases rest <;> simp only [advance] at h <;> split at h
      · cases h
      · cases h
        exact .same rfl (fun _ _ hid => hid) rfl (by simp [Position.stream, Position.ends])
      · cases h
      · cases h
        exact .same rfl (fun _ _ hid => hid) rfl (by simp [Position.stream, Position.ends])
  | limiting id latest rest made =>
    cases succeeds with
    | false =>
      cases h
      exact .same rfl (fun _ _ hid => hid) rfl (by simp [Position.stream, Position.ends])
    | true =>
      simp only [advance] at h
      split at h
      · cases h
      · cases h
        exact .same rfl (fun _ _ hid => hid) rfl (by simp [Position.stream, Position.ends])
  | adding id made =>
    cases h
    refine ⟨le_rfl, by simp, fun other held hother => ?_, fun hclosing => hclosing, by simp⟩
    rw [getElem?_insert_ite] at hother
    split at hother
    · rename_i hsame
      exact .inr ⟨congrArg some hsame, rfl⟩
    · exact .inl hother
  | unsubscribing rest | ending rest =>
    cases rest <;> (cases h; exact .same rfl (fun _ _ hid => hid) rfl (by simp [Position.stream, Position.ends]))
  | stopping id =>
    simp only [advance] at h
    split at h
    · cases h
      exact .same rfl (fun _ _ hid => hid) rfl (by simp)
    · cases h
      refine .same rfl (fun other held hother => ?_) rfl (by simp [Position.stream, Position.ends])
      rw [Std.ExtTreeMap.getElem?_erase] at hother
      split at hother
      · cases hother
      · exact hother
  | closing =>
    simp only [advance] at h
    split at h
    · split at h
      · cases h
        exact .same rfl (fun _ _ hid => hid) rfl (by simp)
      · cases h
    · cases h
      refine ⟨le_rfl, ?_, by simp, fun _ => rfl, fun _ _ _ => .inr rfl⟩
      rintro q id hq hid
      cases hq
      cases hid

/-- Every call is where it may be beside every other. -/
theorem placed_invariants :
    calls.Invariants
      (fun s => ∀ (id : Nat) (held : List Subscription), s.streams[id]? = some held → id < s.issued)
      Placed Apart where
  symm p q h id hq hp := h id hp hq
  start s hs id held hid := by
    obtain rfl : s = ⟨∅, [], 0, 0, false, false⟩ := hs
    simp at hid
  arrive s p _ harrives := by
    have hnone : p.stream = none ∧ p.ends = false := by
      cases p with
      | starting | stopping | closing => exact ⟨rfl, rfl⟩
      | _ => cases harrives
    refine ⟨⟨?_, ?_⟩, ?_⟩
    · intro id hid
      rw [hnone.1] at hid
      cases hid
    · intro hends
      rw [hnone.2] at hends
      cases hends
    · intro q _ id hid
      rw [hnone.1] at hid
      cases hid
  own s p succeeds next hs hp hadvance := by
    have hmove := moves_advance hadvance
    constructor
    · intro id held hid
      apply Nat.lt_of_lt_of_le _ hmove.issued
      rcases hmove.streams id held hid with hold | ⟨hadded, -⟩
      · exact hs id held hold
      · exact (hp.fresh id hadded).1
    · intro q hq
      refine ⟨fun id hid => ?_, fun hends => ?_⟩
      · -- the stream it adds is there only once the call returned
        have hnone : s.streams[id]? = none → next.1.streams[id]? = none := by
          intro hfree
          apply Option.eq_none_iff_forall_ne_some.mpr
          intro held hthere
          rcases hmove.streams id held hthere with hold | ⟨-, hreturned⟩
          · rw [hfree] at hold
            cases hold
          · rw [hreturned] at hq
            cases hq
        rcases hmove.stream q id hq hid with hbefore | ⟨rfl, hissued⟩
        · obtain ⟨hlt, hfree⟩ := hp.fresh id hbefore
          exact ⟨Nat.lt_of_lt_of_le hlt hmove.issued, hnone hfree⟩
        · refine ⟨by omega, hnone ?_⟩
          apply Option.eq_none_iff_forall_ne_some.mpr
          exact fun held hthere => absurd (hs _ held hthere) (Nat.lt_irrefl _)
      · rcases hmove.ends q hq hends with hbefore | hclosing
        · exact hmove.closing (hp.ending hbefore)
        · exact hclosing
  other s p succeeds next q hs hp hadvance hq hapart _ := by
    have hmove := moves_advance hadvance
    refine ⟨⟨fun id hid => ?_, fun hends => hmove.closing (hq.ending hends)⟩, ?_⟩
    · obtain ⟨hlt, hfree⟩ := hq.fresh id hid
      refine ⟨Nat.lt_of_lt_of_le hlt hmove.issued, ?_⟩
      apply Option.eq_none_iff_forall_ne_some.mpr
      intro held hthere
      rcases hmove.streams id held hthere with hold | ⟨hadded, -⟩
      · rw [hfree] at hold
        cases hold
      · exact hapart id hadded hid
    · intro r hr id hid hsame
      rcases hmove.stream r id hr hid with hbefore | ⟨rfl, -⟩
      · exact hapart id hbefore hsame
      · exact absurd (hq.fresh _ hsame).1 (Nat.lt_irrefl _)
  environment _ e := e.elim

end Moves

/-! ## Accounts -/

/-- The subscriptions a call sees to: those it made for a stream it has not added yet, and those it is
    yet to unsubscribe. -/
def Position.sees : Position → List Subscription
  | .subscribing _ _ made | .adding _ made => made
  | .limiting _ latest _ made => made ++ [latest]
  | .unsubscribing rest | .ending rest => rest
  | _ => []

/-- A connection holds no more streams than it may, none once its `Close` has begun, and its session
    is empty once it is closed. -/
structure Standing (s : Shared) : Prop where
  bounded : s.count ≤ maxLiveStreams
  closing : s.closing = true → s.streams = ∅
  closed : s.closed = true → s.closing = true ∧ s.session = []

/-- The accounts of a connection: until it is closed every subscription of the session is a stream's,
    or some call sees to it. -/
structure Accounts (s : Threads Shared Position) : Prop where
  standing : Standing s.shared
  balance : s.shared.closed = false →
    s.shared.session.Perm (s.shared.held ++ holdings Position.sees s.threads)

section Steps

variable {s : Shared} {p : Position} {succeeds : Bool} {next : Shared × Option Position}

/-- What is unsubscribed leaves the session and the call that sees to it. -/
theorem erase_perm {session held rest others : List Subscription} {subscription : Subscription}
    (h : session.Perm (held ++ (subscription :: rest ++ others))) :
    (session.erase subscription).Perm (held ++ (rest ++ others)) := by
  have hfirst : session.Perm (subscription :: (held ++ (rest ++ others))) :=
    h.trans List.perm_middle
  have herased := hfirst.erase subscription
  rwa [List.erase_cons_head] at herased

/-- **One step keeps the balance**: what it takes from the session or the streams the call no longer
    sees to, and what it adds to them it does. -/
theorem balance_advance (h : advance s p succeeds = some next) (hok : careful.thread s p succeeds)
    (hp : Placed s p) (hopen : next.1.closed = false) {others : List Subscription}
    (hbalance : s.closed = false → s.session.Perm (s.held ++ (p.sees ++ others))) :
    next.1.session.Perm (next.1.held ++ (onward Position.sees next.2 ++ others)) := by
  cases p with
  | starting filters =>
    simp only [advance] at h
    split at h
    · cases h
      exact hbalance hopen
    · cases h
      exact hbalance hopen
  | subscribing id rest made =>
    cases succeeds with
    | false =>
      cases rest <;> (cases h; exact hbalance hopen)
    | true =>
      cases rest with
      | nil =>
        simp only [advance] at h
        split at h
        · cases h
        · cases h
          exact hbalance hopen
      | cons filter rest =>
        simp only [advance] at h
        split at h
        · cases h
        · cases h
          -- the subscription is the session's and the call's
          have hlast := (hbalance hopen).append_right [filter.subscription s.subscribed]
          apply hlast.trans
          simp only [Position.sees, onward, List.append_assoc]
          exact ((List.perm_append_comm).append_left made).append_left s.held
  | limiting id latest rest made =>
    cases succeeds with
    | false =>
      cases h
      rcases hok with hsucceeds | hclosed
      · cases hsucceeds
      · rw [hclosed] at hopen
        cases hopen
    | true =>
      simp only [advance] at h
      split at h
      · cases h
      · cases h
        exact hbalance hopen
  | adding id made =>
    cases h
    have hnew : (s.streams.erase id) = s.streams := erase_of_none (hp.fresh id rfl).2
    have hheld := holdings_insert (fun held => held) s.streams id made
    rw [hnew] at hheld
    apply (hbalance hopen).trans
    apply List.Perm.trans _ (hheld.symm.append_right others)
    rw [← List.append_assoc]
    exact List.perm_append_comm.append_right others
  | unsubscribing rest =>
    cases rest with
    | nil =>
      cases h
      exact hbalance hopen
    | cons subscription rest =>
      cases h
      exact erase_perm (hbalance hopen)
  | stopping id =>
    simp only [advance] at h
    split at h
    · cases h
      exact hbalance hopen
    · rename_i held hid
      cases h
      have hheld := holdings_of_get (fun held => held) hid
      apply (hbalance hopen).trans
      apply (hheld.append_right others).trans
      rw [← List.append_assoc]
      exact List.perm_append_comm.append_right others
  | closing =>
    simp only [advance] at h
    split at h
    · split at h
      · cases h
        exact hbalance hopen
      · cases h
    · cases h
      apply (hbalance hopen).trans
      simp [Shared.held, Position.sees, onward]
  | ending rest =>
    cases rest with
    | nil =>
      cases h
      cases hopen
    | cons subscription rest =>
      cases h
      exact erase_perm (hbalance hopen)

theorem Standing.issue (h : Standing s) (issued : Nat) : Standing { s with issued := issued } :=
  ⟨h.bounded, h.closing, h.closed⟩

theorem Standing.unsubscribe (h : Standing s) (subscription : Subscription) :
    Standing (s.unsubscribe subscription) := by
  refine ⟨h.bounded, h.closing, fun hclosed => ?_⟩
  obtain ⟨hclosing, hsession⟩ := h.closed hclosed
  exact ⟨hclosing, by rw [Shared.unsubscribe, hsession, List.erase_nil]⟩

theorem Standing.subscribe (h : Standing s) (hopen : s.closed = false) (filter : LiveFilter) :
    Standing (s.subscribe filter) := by
  refine ⟨h.bounded, h.closing, fun hclosed => ?_⟩
  have hsame : s.closed = true := hclosed
  rw [hopen] at hsame
  cases hsame

/-- A stream is added where there is room for it. -/
theorem Standing.add (h : Standing s) {id : Nat} (made : List Subscription)
    (hnew : s.streams[id]? = none) (hroom : s.count < maxLiveStreams) (hopen : s.closing = false) :
    Standing { s with streams := s.streams.insert id made } := by
  refine ⟨?_, fun hclosing => ?_, fun hclosed => ?_⟩
  · have hone := (values_insert s.streams id made).length_eq
    rw [erase_of_none hnew, List.length_cons] at hone
    exact hone.trans_le hroom
  · have hsame : s.closing = true := hclosing
    rw [hopen] at hsame
    cases hsame
  · have hclosing := (h.closed hclosed).1
    rw [hopen] at hclosing
    cases hclosing

/-- A stream is taken from the table. -/
theorem Standing.take (h : Standing s) {id : Nat} {held : List Subscription}
    (hid : s.streams[id]? = some held) : Standing { s with streams := s.streams.erase id } := by
  refine ⟨?_, fun hclosing => ?_, h.closed⟩
  · have hone := (values_of_get hid).length_eq
    rw [List.length_cons] at hone
    have hbounded : (values s.streams).length ≤ maxLiveStreams := h.bounded
    change (values (s.streams.erase id)).length ≤ maxLiveStreams
    omega
  · have hnone := h.closing hclosing
    rw [hnone] at hid
    simp at hid

/-- **One step of a call** leaves a connection that stands. -/
theorem Standing.advance (hs : Standing s) (h : advance s p succeeds = some next)
    (hok : careful.thread s p succeeds) (hp : Placed s p) : Standing next.1 := by
  cases p with
  | starting filters =>
    simp only [Live.advance] at h
    split at h
    · cases h
      exact hs
    · cases h
      exact hs.issue _
  | subscribing id rest made =>
    cases succeeds with
    | false =>
      cases rest <;> (cases h; exact hs)
    | true =>
      cases rest with
      | nil =>
        simp only [Live.advance] at h
        split at h
        · cases h
        · cases h
          exact hs
      | cons filter rest =>
        simp only [Live.advance] at h
        split at h
        · cases h
        · rename_i hopen
          cases h
          exact hs.subscribe (by simpa using hopen) filter
  | limiting id latest rest made =>
    cases succeeds with
    | false =>
      cases h
      exact hs
    | true =>
      simp only [Live.advance] at h
      split at h
      · cases h
      · cases h
        exact hs
  | adding id made =>
    cases h
    exact hs.add made (hp.fresh id rfl).2 hok.1 hok.2
  | unsubscribing rest =>
    cases rest with
    | nil =>
      cases h
      exact hs
    | cons subscription rest =>
      cases h
      exact hs.unsubscribe subscription
  | stopping id =>
    simp only [Live.advance] at h
    split at h
    · cases h
      exact hs
    · rename_i held hid
      cases h
      exact hs.take hid
  | closing =>
    simp only [Live.advance] at h
    split at h
    · split at h
      · cases h
        exact hs
      · cases h
    · rename_i hfirst
      cases h
      refine ⟨by simp [Shared.count], fun _ => rfl, fun hclosed => ?_⟩
      exact absurd (hs.closed hclosed).1 hfirst
  | ending rest =>
    cases rest with
    | nil =>
      cases h
      have hclosing := hp.ending rfl
      exact ⟨hs.bounded, hs.closing, fun _ => ⟨hclosing, rfl⟩⟩
    | cons subscription rest =>
      cases h
      exact hs.unsubscribe subscription

end Steps

/-! ## Every interleaving -/

/-- **Step lemma**: a careful step keeps the accounts. -/
theorem Accounts.step {s t : Threads Shared Position} {turn : Turn Position Bool Empty}
    (h : Accounts s) (hs : Reachable calls.machine Always s) (hok : careful.Ok s turn)
    (hstep : calls.machine.step s turn = some t) : Accounts t := by
  cases turn with
  | arrive k p =>
    obtain ⟨hfree, harrives, rfl⟩ := Program.arrive_step hstep
    refine ⟨h.standing, fun hopen => (h.balance hopen).trans ?_⟩
    have hsees : p.sees = [] := by
      cases p with
      | starting | stopping | closing => rfl
      | _ => cases harrives
    have hmore := holdings_insert Position.sees s.threads k p
    rw [hsees, erase_of_none hfree, List.nil_append] at hmore
    exact hmore.symm.append_left _
  | thread k succeeds =>
    obtain ⟨p, next, hk, hadvance, rfl⟩ := Program.thread_move hstep
    have hp := (placed_invariants.reachable hs).local' k p hk
    have hcareful := (hok p hk).1
    refine ⟨h.standing.advance hadvance hcareful hp, fun hopen => ?_⟩
    have hbalance := balance_advance hadvance hcareful hp hopen fun hbefore =>
      (h.balance hbefore).trans ((holdings_of_get Position.sees hk).append_left _)
    exact hbalance.trans ((holdings_move Position.sees s.threads k next.2).symm.append_left _)
  | environment e => exact e.elim

/-- What is active on the session of a connection that no call works on is what its streams hold. -/
theorem Accounts.accounted {s : Threads Shared Position} (h : Accounts s) : Accounted s := by
  intro hquiet
  cases hclosed : s.shared.closed with
  | false =>
    have hbalance := h.balance hclosed
    rwa [hquiet, holdings_empty, List.append_nil] at hbalance
  | true =>
    obtain ⟨hclosing, hsession⟩ := h.standing.closed hclosed
    rw [hsession, Shared.held, h.standing.closing hclosing, holdings_empty]

theorem accounts_start {s : Threads Shared Position} (hs : calls.machine.start s) :
    Accounts s := by
  obtain ⟨hshared, hthreads⟩ := hs
  obtain ⟨shared, threads⟩ := s
  obtain rfl : shared = ⟨∅, [], 0, 0, false, false⟩ := hshared
  obtain rfl : threads = ∅ := hthreads
  refine ⟨⟨by simp [Shared.count], fun _ => rfl, by simp⟩, fun _ => by simp [Shared.held]⟩

/-- **Bounded and accounted for**: in every run whose steps are careful a connection never holds more
    streams than it may, and whenever no call is in progress what is active on the session is what
    the streams hold. -/
theorem bounded_accounted {s : Threads Shared Position}
    (hs : Reachable calls.machine careful.Ok s) : Bounded s ∧ Accounted s := by
  have h : Accounts s := by
    apply hs.invariant
    · exact fun t ht => accounts_start ht
    · intro t turn u ht haccounts hok hstep
      exact haccounts.step (ht.mono fun _ _ _ => trivial) hok hstep
  exact ⟨h.standing.bounded, h.accounted⟩

/-! ## Careless runs -/

instance (s : Shared) (p : Position) (succeeds : Bool) :
    Decidable (careful.thread s p succeeds) :=
  match p with
  | .limiting .. => inferInstanceAs (Decidable (succeeds = true ∨ s.closed = true))
  | .adding .. => inferInstanceAs (Decidable (s.count < maxLiveStreams ∧ s.closing = false))
  | .starting _ | .subscribing .. | .unsubscribing _ | .stopping _ | .closing | .ending _ =>
    .isTrue trivial

instance (s : Shared) (p q : Position) (succeeds : Bool) :
    Decidable (careful.beside s p succeeds q) := .isTrue trivial

instance (s : Shared) (e : Empty) : Decidable (careful.environment s e) := .isTrue trivial

/-- A connection that was just opened. -/
def opened : Threads Shared Position := ⟨⟨∅, [], 0, 0, false, false⟩, ∅⟩

/-- What becomes of it. -/
def after (turns : List (Turn Position Bool Empty)) : Threads Shared Position :=
  calls.machine.endOf opened turns

/-- A call arrives and takes its steps. -/
def called (k : Nat) (p : Position) (succeeds : List Bool) : List (Turn Position Bool Empty) :=
  .arrive k p :: succeeds.map (.thread k)

/-- A start of one subject. -/
def orders : Position := .starting [⟨"orders.>", ""⟩]

/-- Two streams are started, one of them is stopped, and a third start cannot be flushed. -/
def ordersWatched : List (Turn Position Bool Empty) :=
  called 0 orders (List.replicate 5 true) ++ called 0 orders (List.replicate 5 true) ++
    called 0 (.stopping 0) (List.replicate 3 true) ++
    called 0 orders [true, true, true, false, true, true]

/-- One stream is left, and its subscription. -/
theorem bounded_accounted_orders :
    (after ordersWatched).shared.count = 1 ∧ (after ordersWatched).shared.session.length = 1 ∧
      Bounded (after ordersWatched) ∧ Accounted (after ordersWatched) := by
  have hstart : Reachable calls.machine careful.Ok opened := .start ⟨rfl, rfl⟩
  refine ⟨by decide +kernel, by decide +kernel, ?_⟩
  exact bounded_accounted (hstart.endOf (by decide +kernel))

/-- Of thirty-one streams: two starts count them before either adds its own. -/
def ordersCrowded : List (Turn Position Bool Empty) :=
  (List.replicate 31 (called 0 orders (List.replicate 5 true))).flatten ++
    called 0 orders [true] ++ called 1 orders (List.replicate 5 true) ++
    List.replicate 4 (.thread 0 true)

/-- The limits of what was just subscribed are refused. -/
def ordersRefused : List (Turn Position Bool Empty) := called 0 orders [true, true, false, true]

/-- The connection is closed between a start's flush and its adding the stream. -/
def ordersShut : List (Turn Position Bool Empty) :=
  called 0 orders [true, true, true, true] ++ called 1 .closing [true, true] ++ [.thread 0 true]

/-- **Careless runs**: a connection holds thirty-three streams; a subscription is left that none
    holds; and one is held whose subscription is gone. -/
theorem careless :
    ((after ordersCrowded).threads = ∅ ∧ (after ordersCrowded).shared.count = 33) ∧
    ((after ordersRefused).threads = ∅ ∧ (after ordersRefused).shared.streams = ∅ ∧
      (after ordersRefused).shared.session = [⟨0, "orders.>", none⟩]) ∧
    ((after ordersShut).threads = ∅ ∧ (after ordersShut).shared.session = [] ∧
      (after ordersShut).shared.held = [⟨0, "orders.>", none⟩]) ∧
    ¬ ∀ s : Threads Shared Position, Reachable calls.machine Always s → Bounded s ∧ Accounted s := by
  have hcrowded : (after ordersCrowded).threads = ∅ ∧ (after ordersCrowded).shared.count = 33 := by
    decide +kernel
  refine ⟨hcrowded, by decide +kernel, by decide +kernel, fun hall => ?_⟩
  have hreachable : Reachable calls.machine Always (after ordersCrowded) :=
    Reachable.endOf (.start ⟨rfl, rfl⟩) (permitted_always _ _ _)
  have hbounded := (hall _ hreachable).1
  rw [Bounded, hcrowded.2] at hbounded
  revert hbounded
  decide

end MqStudio.Driver.Nats.Live
