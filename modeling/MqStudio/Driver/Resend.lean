import Mathlib.Data.List.Nodup
import Mathlib.Data.Option.Basic
import MqStudio.Lib.PeekLock
import MqStudio.Lib.TreeMap

/-!
# Putting a Dead Letter Back

`ResendMessage` of `internal/driver/azureservicebus/deadletter.go`: the dead letters are received
batch by batch and abandoned until the one that was asked for turns up, a copy of it is sent, and it
is completed. Nothing takes a dead letter by its sequence number.

Each call may be refused, and one that takes effect may still answer with an error. What comes
before the receiver is opened is left out: the connection's state, the entity's path, and reading
the sequence number.

## Main definitions

- `resendMessage`: the search with its exits.
- `PutBack`: what it owes the store.
- `Condition`: when it pays.

## Main results

- `resend_puts_back_iff`: a dead letter is put back, and no other left locked, just when it is the
  last of the batch that brings it, every abandon takes effect, and, where every call succeeds, such
  a batch comes and the sender set none of four fields.
-/

namespace MqStudio.Driver.ServiceBus

open MqStudio.Lib
open MqStudio.Lib.TreeMap

/-! ## Messages -/

/-- `azservicebus.Message`: what a sender sets. -/
structure Message (ν : Type) where
  body : List UInt8
  subject : Option String
  correlationID : Option String
  contentType : Option String
  replyTo : Option String
  to' : Option String
  sessionID : Option String
  partitionKey : Option String
  applicationProperties : Map String ν
  messageID : Option String
  replyToSessionID : Option String
  scheduledEnqueueTime : Option Int
  timeToLive : Option Int

/-- `azservicebus.ReceivedMessage`: that, and the number the service gave it. -/
structure ReceivedMessage (ν : Type) extends Message ν where
  sequenceNumber : Option Int

/-- `deadLetterAnnotations` -/
def deadLetterAnnotations : List String :=
  ["DeadLetterReason", "DeadLetterErrorDescription", "DeadLetterSource"]

variable {ν : Type}

/-- The properties without what the service wrote there. -/
def withoutAnnotations (properties : Map String ν) : Map String ν :=
  properties.filter fun name _ => name ∉ deadLetterAnnotations

/-- `resubmit` -/
def resubmit (message : ReceivedMessage ν) : Message ν where
  body := message.body
  subject := message.subject
  correlationID := message.correlationID
  contentType := message.contentType
  replyTo := message.replyTo
  to' := message.to'
  sessionID := message.sessionID.filter (· ≠ "")
  partitionKey := message.partitionKey
  applicationProperties :=
    if message.applicationProperties.isEmpty then ∅
    else withoutAnnotations message.applicationProperties
  messageID := none
  replyToSessionID := none
  scheduledEnqueueTime := none
  timeToLive := none

/-! ## The service -/

/-- What a call comes to. One that is not answered takes effect, and its caller sees an error. -/
inductive Outcome where
  | done
  | unanswered
  | refused
  deriving DecidableEq

/-- It takes effect. -/
def Outcome.took (o : Outcome) : Bool := o ≠ .refused

/-- The caller sees no error. -/
def Outcome.ok (o : Outcome) : Bool := o = .done

/-- How the service answers one run. -/
structure Service where
  /-- Whether the receiver and the sender are opened. -/
  receiver : Bool
  sender : Bool
  /-- How many messages a receive hands out at most, or none where it fails; nothing within its
      five seconds is `some 0`. -/
  hands : Nat → Option Nat
  /-- What comes of abandoning a message, by its batch and its place there. -/
  abandon : Nat → Nat → Outcome
  send : Outcome
  complete : Outcome

/-- The dead letters of an entity, and the copies sent to it. -/
structure DeadLetters (ν : Type) where
  store : PeekLock (ReceivedMessage ν) (Option Int)
  sent : List (Message ν)

/-- The errors a resend returns. -/
inductive Failure where
  | receiver
  | sender
  | reading
  | puttingBack
  | stillThere
  | notAmong
  deriving DecidableEq

/-- `AbandonMessage` -/
def DeadLetters.abandon (s : DeadLetters ν) (message : ReceivedMessage ν) (o : Outcome) :
    DeadLetters ν :=
  if o.took then { s with store := s.store.giveBack message.sequenceNumber } else s

/-- `SendMessage` -/
def DeadLetters.send (s : DeadLetters ν) (message : Message ν) (o : Outcome) : DeadLetters ν :=
  if o.took then { s with sent := message :: s.sent } else s

/-- `CompleteMessage` -/
def DeadLetters.complete (s : DeadLetters ν) (message : ReceivedMessage ν) (o : Outcome) :
    DeadLetters ν :=
  if o.took then
    { s with store := s.store.remove ReceivedMessage.sequenceNumber message.sequenceNumber }
  else s

/-! ## `ResendMessage` -/

/-- `resendSearch` -/
def resendSearch : Nat := 200

/-- How many messages one receive asks for. -/
def receiveBatch : Nat := 20

/-- What is done with the message that was found, the `k`-th of its batch. -/
def putBack (service : Service) (sequence : Int) (i k : Nat) (message : ReceivedMessage ν)
    (s : DeadLetters ν) : DeadLetters ν × Except Failure Int :=
  let sent := s.send (resubmit message) service.send
  if service.send.ok then
    (sent.complete message service.complete,
      if service.complete.ok then .ok sequence else .error .stillThere)
  else (sent.abandon message (service.abandon i k), .error .puttingBack)

/-- The messages of the `i`-th batch, from its `k`-th on. -/
def settle (service : Service) (sequence : Int) (i : Nat) :
    Nat → List (ReceivedMessage ν) → DeadLetters ν → DeadLetters ν × Option (Except Failure Int)
  | _, [], s => (s, none)
  | k, message :: rest, s =>
    if message.sequenceNumber ≠ some sequence then
      settle service sequence i (k + 1) rest (s.abandon message (service.abandon i k))
    else
      let result := putBack service sequence i k message s
      (result.1, some result.2)

/-- The batches. A receive that does not end the search hands out a message, so that
    `resendSearch` of them are enough. -/
def search (service : Service) (sequence : Int) :
    Nat → Nat → Nat → DeadLetters ν → DeadLetters ν × Except Failure Int
  | 0, _, _, s => (s, .error .notAmong)
  | fuel + 1, i, searched, s =>
    if searched < resendSearch then
      match service.hands i with
      | none => (s, .error .reading)
      | some n =>
        let asked := min n (min (resendSearch - searched) receiveBatch)
        let batch := s.store.batch ReceivedMessage.sequenceNumber asked
        let lent := { s with store := s.store.lend ReceivedMessage.sequenceNumber asked }
        if batch = [] then (lent, .error .notAmong)
        else
          match settle service sequence i 0 batch lent with
          | (settled, some result) => (settled, result)
          | (settled, none) => search service sequence fuel (i + 1) (searched + batch.length) settled
    else (s, .error .notAmong)

/-- `ResendMessage` -/
def resendMessage (service : Service) (sequence : Int) (s : DeadLetters ν) :
    DeadLetters ν × Except Failure Int :=
  if !service.receiver then (s, .error .receiver)
  else if !service.sender then (s, .error .sender)
  else search service sequence resendSearch 0 0 s

/-! ## What it owes -/

/-- A dead-letter store: its messages in the order of their sequence numbers. -/
structure DeadLetterStore (ν : Type) where
  messages : List (ReceivedMessage ν)
  ordered : ∃ numbers : List Int, messages.map ReceivedMessage.sequenceNumber = numbers.map some ∧
    numbers.Pairwise (· < ·)

/-- Before a resend: nothing is locked, and no copy sent. -/
def DeadLetterStore.atRest (store : DeadLetterStore ν) : DeadLetters ν :=
  ⟨⟨store.messages, []⟩, []⟩

/-- **A copy carries** the body and every field the sender had set. An empty session is none, and
    the service's own annotations are not the sender's. -/
structure Carries (copy : Message ν) (message : ReceivedMessage ν) : Prop where
  body : copy.body = message.body
  subject : copy.subject = message.subject
  correlationID : copy.correlationID = message.correlationID
  contentType : copy.contentType = message.contentType
  replyTo : copy.replyTo = message.replyTo
  to' : copy.to' = message.to'
  sessionID : copy.sessionID = message.sessionID.filter (· ≠ "")
  partitionKey : copy.partitionKey = message.partitionKey
  properties : ∀ name : String, copy.applicationProperties[name]? =
    if name ∈ deadLetterAnnotations then none else message.applicationProperties[name]?
  messageID : copy.messageID = message.messageID
  replyToSessionID : copy.replyToSessionID = message.replyToSessionID
  scheduledEnqueueTime : copy.scheduledEnqueueTime = message.scheduledEnqueueTime
  timeToLive : copy.timeToLive = message.timeToLive

/-- Every call succeeds, and no receive comes back empty from a store that offers a message. -/
structure Service.Succeeds (service : Service) : Prop where
  receiver : service.receiver = true
  sender : service.sender = true
  hands : ∀ i, ∃ n, service.hands i = some (n + 1)
  abandon : ∀ i k, service.abandon i k = .done
  send : service.send = .done
  complete : service.complete = .done

/-- **A dead letter is put back once or left where it was**, and no other is touched. -/
structure PutBack (service : Service) (store : DeadLetterStore ν) (message : ReceivedMessage ν)
    (sequence : Int) (after : DeadLetters ν) (result : Except Failure Int) : Prop where
  done : service.Succeeds → result = .ok sequence ∧
    (∃ copy, after.sent = [copy] ∧ Carries copy message) ∧
      after.store.messages =
        store.messages.filter fun other => other.sequenceNumber ≠ some sequence
  once : after.sent.length ≤ 1
  completed : message ∉ after.store.messages → after.sent ≠ []
  others : ∀ other ∈ store.messages, other.sequenceNumber ≠ some sequence →
    other ∈ after.store.messages
  unlocked : ∀ other ∈ store.messages, other.sequenceNumber ≠ some sequence →
    other.sequenceNumber ∉ after.store.locked

/-! ## When it pays -/

namespace Service

variable (service : Service) (length : Nat)

/-- How many messages a receive hands out of a store of this length without locks. -/
def batchSize (i searched : Nat) : Nat :=
  min (min ((service.hands i).getD 0) (min (resendSearch - searched) receiveBatch)) length

/-- How many the first `i` receives hand out, where all of them are given back. -/
def searched : Nat → Nat
  | 0 => 0
  | i + 1 => searched i + service.batchSize length i (searched i)

/-- How many the `i`-th does. -/
def size (i : Nat) : Nat := service.batchSize length i (service.searched length i)

/-- The `i`-th receive brings messages, but not the `p`-th of the store. -/
def GoesOn (p i : Nat) : Prop :=
  (service.hands i).isSome ∧ 0 < service.size length i ∧ service.size length i ≤ p

/-- So do those before it. -/
def Comes (p i : Nat) : Prop := ∀ j < i, service.GoesOn length p j

/-- The `i`-th receive is made and answered. -/
def Receives (p i : Nat) : Prop :=
  service.receiver = true ∧ service.sender = true ∧ service.Comes length p i ∧
    service.searched length i < resendSearch ∧ (service.hands i).isSome

end Service

/-- **When a dead letter is put back**: its batch ends with it, every abandon takes effect, and where
    every call succeeds a receive brings it, and the sender left unset what a copy does not carry. -/
structure Condition (service : Service) (length p : Nat) (message : ReceivedMessage ν) : Prop where
  last : ∀ i, service.Receives length p i → service.size length i ≤ p + 1
  abandoned : ∀ i, service.Receives length p i → ∀ k < service.size length i, k ≠ p →
    (service.abandon i k).took = true
  found : service.Succeeds → ∃ i, service.Receives length p i ∧ p < service.size length i
  unset : service.Succeeds → message.messageID = none ∧ message.replyToSessionID = none ∧
    message.scheduledEnqueueTime = none ∧ message.timeToLive = none

/-! ## The copy -/

section Copies

variable {message : ReceivedMessage ν}

theorem getElem?_withoutAnnotations (properties : Map String ν) (name : String) :
    (withoutAnnotations properties)[name]? =
      if name ∈ deadLetterAnnotations then none else properties[name]? := by
  rw [withoutAnnotations, Std.ExtTreeMap.getElem?_filter']
  by_cases hname : name ∈ deadLetterAnnotations
  · simp [hname]
  · cases hvalue : properties[name]? <;> simp [hname]

/-- **The copy carries what the sender set**, short of four fields. -/
theorem carries_resubmit : Carries (resubmit message) message ↔
    message.messageID = none ∧ message.replyToSessionID = none ∧
      message.scheduledEnqueueTime = none ∧ message.timeToLive = none := by
  constructor
  · intro h
    exact ⟨h.messageID.symm, h.replyToSessionID.symm, h.scheduledEnqueueTime.symm,
      h.timeToLive.symm⟩
  · intro h
    obtain ⟨hid, hreply, hscheduled, hlive⟩ := h
    refine ⟨rfl, rfl, rfl, rfl, rfl, rfl, rfl, rfl, fun name => ?_, hid.symm, hreply.symm,
      hscheduled.symm, hlive.symm⟩
    by_cases hempty : message.applicationProperties.isEmpty
    · have hnone : message.applicationProperties = ∅ :=
        Std.ExtTreeMap.isEmpty_iff.mp hempty
      simp [resubmit, hnone]
    · simp only [resubmit, hempty, Bool.false_eq_true, if_false]
      exact getElem?_withoutAnnotations _ name

end Copies

/-! ## One batch -/

section Batches

variable {service : Service} {sequence : Int} {i k : Nat} {s : DeadLetters ν}
  {batch pre post : List (ReceivedMessage ν)} {message : ReceivedMessage ν}

@[simp] theorem sent_abandon (o : Outcome) : (s.abandon message o).sent = s.sent := by
  unfold DeadLetters.abandon
  split <;> rfl

@[simp] theorem messages_abandon (o : Outcome) :
    (s.abandon message o).store.messages = s.store.messages := by
  unfold DeadLetters.abandon
  split <;> rfl

theorem mem_locked_abandon {o : Outcome} {l : Option Int} :
    l ∈ (s.abandon message o).store.locked ↔
      l ∈ s.store.locked ∧ ¬ (o.took = true ∧ message.sequenceNumber = l) := by
  unfold DeadLetters.abandon
  split
  · rename_i htook
    simp [htook, eq_comm]
  · rename_i htook
    simp [htook]

/-- The messages of a batch are abandoned, from its `k`-th on. -/
def abandonEach (service : Service) (i : Nat) :
    Nat → List (ReceivedMessage ν) → DeadLetters ν → DeadLetters ν
  | _, [], s => s
  | k, message :: rest, s =>
    abandonEach service i (k + 1) rest (s.abandon message (service.abandon i k))

@[simp] theorem sent_abandonEach : (abandonEach service i k batch s).sent = s.sent := by
  induction batch generalizing k s with
  | nil => rfl
  | cons message rest ih => rw [abandonEach, ih, sent_abandon]

@[simp] theorem messages_abandonEach :
    (abandonEach service i k batch s).store.messages = s.store.messages := by
  induction batch generalizing k s with
  | nil => rfl
  | cons message rest ih => rw [abandonEach, ih, messages_abandon]

/-- **What stays locked**: what was, except where abandoning it took effect. -/
theorem mem_locked_abandonEach {l : Option Int} :
    l ∈ (abandonEach service i k batch s).store.locked ↔ l ∈ s.store.locked ∧
      ∀ (j : Nat) (h : j < batch.length), (batch[j]).sequenceNumber = l →
        (service.abandon i (k + j)).took = false := by
  induction batch generalizing k s with
  | nil => simp [abandonEach]
  | cons message rest ih =>
    rw [abandonEach, ih, mem_locked_abandon, and_assoc]
    apply and_congr_right
    intro _
    constructor
    · intro h j hj hl
      obtain ⟨hfirst, hrest⟩ := h
      cases j with
      | zero => simpa [show message.sequenceNumber = l from hl] using hfirst
      | succ j =>
        have hother := hrest j (Nat.lt_of_succ_lt_succ hj) hl
        rwa [Nat.add_assoc, Nat.add_comm 1] at hother
    · intro h
      refine ⟨fun htook => ?_, fun j hj hl => ?_⟩
      · have hnone := h 0 (Nat.succ_pos _) htook.2
        rw [Nat.add_zero, htook.1] at hnone
        cases hnone
      · have hother := h (j + 1) (Nat.succ_lt_succ hj) hl
        rwa [Nat.add_comm j, ← Nat.add_assoc] at hother

/-- **A batch without the message** is abandoned. -/
theorem settle_of_absent
    (h : ∀ message ∈ batch, message.sequenceNumber ≠ some sequence) :
    settle service sequence i k batch s = (abandonEach service i k batch s, none) := by
  induction batch generalizing k s with
  | nil => rfl
  | cons message rest ih =>
    rw [settle, if_pos (h message List.mem_cons_self)]
    exact ih fun other hother => h other (List.mem_cons_of_mem _ hother)

/-- **In a batch with it**, what comes before it is abandoned, and what comes after is left. -/
theorem settle_of_present
    (h : ∀ other ∈ pre, other.sequenceNumber ≠ some sequence)
    (hmessage : message.sequenceNumber = some sequence) :
    settle service sequence i k (pre ++ message :: post) s =
      ((putBack service sequence i (k + pre.length) message (abandonEach service i k pre s)).1,
        some (putBack service sequence i (k + pre.length) message
          (abandonEach service i k pre s)).2) := by
  induction pre generalizing k s with
  | nil =>
    rw [List.nil_append, settle, if_neg (not_not.mpr hmessage)]
    rfl
  | cons first rest ih =>
    rw [List.cons_append, settle, if_pos (h first List.mem_cons_self), List.length_cons,
      Nat.add_comm rest.length, ← Nat.add_assoc]
    exact ih fun other hother => h other (List.mem_cons_of_mem _ hother)

/-- A batch has the message or not. -/
theorem absent_or_present (sequence : Int) (batch : List (ReceivedMessage ν)) :
    (∀ message ∈ batch, message.sequenceNumber ≠ some sequence) ∨
    ∃ pre message post, batch = pre ++ message :: post ∧
      (∀ other ∈ pre, other.sequenceNumber ≠ some sequence) ∧
        message.sequenceNumber = some sequence := by
  induction batch with
  | nil => exact .inl fun _ h => absurd h List.not_mem_nil
  | cons first rest ih =>
    by_cases hfirst : first.sequenceNumber = some sequence
    · exact .inr ⟨[], first, rest, rfl, fun _ h => absurd h List.not_mem_nil, hfirst⟩
    · rcases ih with habsent | ⟨pre, message, post, rfl, hpre, hmessage⟩
      · refine .inl fun other hother => ?_
        rcases List.mem_cons.mp hother with rfl | hrest
        · exact hfirst
        · exact habsent other hrest
      · refine .inr ⟨first :: pre, message, post, rfl, fun other hother => ?_, hmessage⟩
        rcases List.mem_cons.mp hother with rfl | hrest
        · exact hfirst
        · exact hpre other hrest

/-- **What putting it back can do**: send a copy, and only then take it off the store. -/
theorem putBack_cases (service : Service) (sequence : Int) (i k : Nat)
    (message : ReceivedMessage ν) (s : DeadLetters ν) :
    ((putBack service sequence i k message s).1.sent = s.sent ∧
      (putBack service sequence i k message s).1.store.messages = s.store.messages) ∨
    (putBack service sequence i k message s).1.sent = resubmit message :: s.sent ∧
      ((putBack service sequence i k message s).1.store.messages = s.store.messages ∨
        (putBack service sequence i k message s).1.store.messages =
          s.store.messages.filter fun other => other.sequenceNumber ≠ message.sequenceNumber) := by
  unfold putBack
  dsimp only
  cases hsend : service.send with
  | done =>
    refine .inr ?_
    rw [if_pos (by decide)]
    cases hcomplete : service.complete with
    | done => exact ⟨rfl, .inr rfl⟩
    | unanswered => exact ⟨rfl, .inr rfl⟩
    | refused => exact ⟨rfl, .inl rfl⟩
  | unanswered =>
    refine .inr ?_
    rw [if_neg (by decide)]
    exact ⟨by rw [sent_abandon]; rfl, .inl (by rw [messages_abandon]; rfl)⟩
  | refused =>
    refine .inl ?_
    rw [if_neg (by decide)]
    exact ⟨by rw [sent_abandon]; rfl, by rw [messages_abandon]; rfl⟩

/-- It unlocks no other. -/
theorem mem_locked_putBack {l : Option Int} (hl : l ≠ message.sequenceNumber) :
    l ∈ (putBack service sequence i k message s).1.store.locked ↔ l ∈ s.store.locked := by
  unfold putBack
  dsimp only
  cases service.send with
  | done =>
    rw [if_pos (by decide)]
    cases service.complete <;> simp [DeadLetters.send, DeadLetters.complete, Outcome.took, hl]
  | unanswered =>
    rw [if_neg (by decide), mem_locked_abandon]
    simp [DeadLetters.send, Outcome.took, hl.symm]
  | refused =>
    rw [if_neg (by decide), mem_locked_abandon]
    simp [DeadLetters.send, Outcome.took, hl.symm]

end Batches

/-! ## The search, whatever the service answers -/

section Searches

variable {service : Service} {sequence : Int} {fuel i searched : Nat} {s : DeadLetters ν}

/-- At most one copy is sent, and only then is the message off the store. -/
def Kept (sequence : Int) (s t : DeadLetters ν) : Prop :=
  (t.sent = s.sent ∧ t.store.messages = s.store.messages) ∨
  ∃ copy, t.sent = copy :: s.sent ∧ (t.store.messages = s.store.messages ∨
    t.store.messages = s.store.messages.filter fun other => other.sequenceNumber ≠ some sequence)

/-- **What any search keeps.** -/
theorem search_kept : Kept sequence s (search service sequence fuel i searched s).1 := by
  induction fuel generalizing i searched s with
  | zero => exact .inl ⟨rfl, rfl⟩
  | succ fuel ih =>
    rw [search]
    split
    · split
      · exact .inl ⟨rfl, rfl⟩
      · rename_i n _
        dsimp only
        split
        · exact .inl ⟨rfl, rfl⟩
        · generalize hbatch : s.store.batch ReceivedMessage.sequenceNumber _ = batch
          rcases absent_or_present sequence batch with
            habsent | ⟨pre, message, post, rfl, hpre, hmessage⟩
          · rw [settle_of_absent habsent]
            dsimp only
            have hrest := @ih (i + 1) (searched + batch.length)
              (abandonEach service i 0 batch ⟨s.store.lend ReceivedMessage.sequenceNumber
                (min n (min (resendSearch - searched) receiveBatch)), s.sent⟩)
            simpa only [Kept, sent_abandonEach, messages_abandonEach, PeekLock.messages_lend]
              using hrest
          · rw [settle_of_present hpre hmessage]
            dsimp only
            rcases putBack_cases service sequence i (0 + pre.length) message
              (abandonEach service i 0 pre ⟨s.store.lend ReceivedMessage.sequenceNumber
                (min n (min (resendSearch - searched) receiveBatch)), s.sent⟩) with
              ⟨hsent, hmessages⟩ | ⟨hsent, hmessages⟩
            · refine .inl ⟨?_, ?_⟩
              · rw [hsent, sent_abandonEach]
              · rw [hmessages, messages_abandonEach, PeekLock.messages_lend]
            · refine .inr ⟨resubmit message, ?_, ?_⟩
              · rw [hsent, sent_abandonEach]
              · rw [messages_abandonEach, PeekLock.messages_lend, hmessage] at hmessages
                exact hmessages
    · exact .inl ⟨rfl, rfl⟩

/-- **What is locked** is never unlocked again, unless it is the message itself. -/
theorem search_locked {l : Option Int} (hl : l ∈ s.store.locked) (hother : l ≠ some sequence) :
    l ∈ (search service sequence fuel i searched s).1.store.locked := by
  induction fuel generalizing i searched s with
  | zero => exact hl
  | succ fuel ih =>
    rw [search]
    split
    · split
      · exact hl
      · rename_i n _
        dsimp only
        split
        · exact PeekLock.mem_locked_of_lend hl
        · -- it is not in the batch, so that nothing in the batch unlocks it
          have hlent : l ∉ (s.store.batch ReceivedMessage.sequenceNumber
              (min n (min (resendSearch - searched) receiveBatch))).map
                ReceivedMessage.sequenceNumber := PeekLock.not_mem_batch hl
          have hstill : l ∈ (s.store.lend ReceivedMessage.sequenceNumber
              (min n (min (resendSearch - searched) receiveBatch))).locked :=
            PeekLock.mem_locked_of_lend hl
          generalize hbatch : s.store.batch ReceivedMessage.sequenceNumber _ = batch at hlent
          rcases absent_or_present sequence batch with
            habsent | ⟨pre, message, post, rfl, hpre, hmessage⟩
          · rw [settle_of_absent habsent]
            apply ih
            refine mem_locked_abandonEach.mpr ⟨hstill, fun j hj hsame => ?_⟩
            exact absurd (List.mem_map.mpr ⟨_, List.getElem_mem hj, hsame⟩) hlent
          · rw [settle_of_present hpre hmessage]
            apply (mem_locked_putBack (hmessage ▸ hother)).mpr
            refine mem_locked_abandonEach.mpr ⟨hstill, fun j hj hsame => ?_⟩
            apply absurd _ hlent
            exact List.mem_map.mpr
              ⟨_, List.mem_append_left _ (List.getElem_mem hj), hsame⟩
    · exact hl

end Searches

/-! ## The search of a store at rest -/

section AtRest

variable {store : DeadLetterStore ν} {service : Service} {sequence : Int} {fuel i j n p : Nat}
  {message other : ReceivedMessage ν}

/-- A sequence number is that of one message. -/
theorem index_unique (hi : store.messages[i]? = some message) (hj : store.messages[j]? = some other)
    (hsame : message.sequenceNumber = other.sequenceNumber) : i = j := by
  obtain ⟨numbers, hnumbers, hordered⟩ := store.ordered
  have hnodup : (store.messages.map ReceivedMessage.sequenceNumber).Nodup := by
    rw [hnumbers]
    apply List.Nodup.map (Option.some_injective Int)
    exact hordered.imp Int.ne_of_lt
  obtain ⟨hlt, -⟩ := List.getElem?_eq_some_iff.mp hi
  apply (List.getElem?_inj (by rwa [List.length_map]) hnodup).mp
  rw [List.getElem?_map, List.getElem?_map, hi, hj]
  exact congrArg some hsame

/-- The store once its first `n` messages are handed out. -/
def DeadLetterStore.lent (store : DeadLetterStore ν) (n : Nat) : DeadLetters ν :=
  ⟨⟨store.messages, (store.messages.take n).map ReceivedMessage.sequenceNumber⟩, []⟩

theorem mem_locked_lent (hj : store.messages[j]? = some other) :
    other.sequenceNumber ∈ (store.lent n).store.locked ↔ j < n := by
  constructor
  · intro h
    obtain ⟨found, hfound, hsame⟩ := List.mem_map.mp h
    obtain ⟨k, hk⟩ := List.mem_iff_getElem?.mp hfound
    rw [List.getElem?_take] at hk
    split at hk
    · rename_i hlt
      rwa [index_unique hj hk hsame.symm]
    · cases hk
  · intro h
    apply List.mem_map_of_mem
    apply List.mem_iff_getElem?.mpr
    exact ⟨j, by rw [List.getElem?_take, if_pos h, hj]⟩

/-- **Where every abandon takes effect**, the store is at rest again. -/
theorem abandonEach_lent (h : ∀ k < n, k < store.messages.length →
    (service.abandon i k).took = true) :
    abandonEach service i 0 (store.messages.take n) (store.lent n) = store.atRest := by
  have hlocked :
      (abandonEach service i 0 (store.messages.take n) (store.lent n)).store.locked = [] := by
    rw [List.eq_nil_iff_forall_not_mem]
    intro l hl
    obtain ⟨hmem, hstill⟩ := mem_locked_abandonEach.mp hl
    obtain ⟨found, hfound, rfl⟩ := List.mem_map.mp hmem
    obtain ⟨k, hk, rfl⟩ := List.getElem_of_mem hfound
    have hrefused := hstill k hk rfl
    rw [List.length_take, Nat.lt_min] at hk
    rw [Nat.zero_add, h k hk.1 hk.2] at hrefused
    cases hrefused
  have hmessages := @messages_abandonEach ν service i 0 (store.lent n) (store.messages.take n)
  have hsent := @sent_abandonEach ν service i 0 (store.lent n) (store.messages.take n)
  generalize abandonEach service i 0 (store.messages.take n) (store.lent n) = after at *
  obtain ⟨⟨messages, locked⟩, sent⟩ := after
  cases hlocked
  cases hmessages
  cases hsent
  rfl

/-- What the `i`-th receive hands out. -/
theorem lend_atRest {asked : Nat} (h : min asked store.messages.length = n) :
    (⟨store.atRest.store.lend ReceivedMessage.sequenceNumber asked, store.atRest.sent⟩ :
      DeadLetters ν) = store.lent n ∧
    store.atRest.store.batch ReceivedMessage.sequenceNumber asked = store.messages.take n := by
  have hbatch : store.atRest.store.batch ReceivedMessage.sequenceNumber asked =
      store.messages.take n := by
    rw [PeekLock.batch_of_unlocked rfl, ← h, ← List.take_eq_take_min]
    rfl
  refine ⟨?_, hbatch⟩
  rw [PeekLock.lend, hbatch]
  show (⟨⟨store.messages, _ ++ []⟩, []⟩ : DeadLetters ν) = _
  rw [List.append_nil]
  rfl

/-! ### One round -/

theorem size_le_length (store : DeadLetterStore ν) (service : Service) (i : Nat) :
    service.size store.messages.length i ≤ store.messages.length := Nat.min_le_right _ _

theorem length_take_size (store : DeadLetterStore ν) (service : Service) (i : Nat) :
    (store.messages.take (service.size store.messages.length i)).length =
      service.size store.messages.length i := by
  rw [List.length_take, Nat.min_eq_left (size_le_length store service i)]

theorem searched_succ (service : Service) (length i : Nat) :
    service.searched length (i + 1) = service.searched length i + service.size length i := rfl

/-- A round in which a receive is answered with `n` messages at most. -/
theorem search_answered (hhands : service.hands i = some n)
    (hsearched : service.searched store.messages.length i < resendSearch) :
    search service sequence (fuel + 1) i (service.searched store.messages.length i) store.atRest =
      if store.messages.take (service.size store.messages.length i) = [] then
        (store.lent (service.size store.messages.length i), .error .notAmong)
      else
        match settle service sequence i 0
            (store.messages.take (service.size store.messages.length i))
            (store.lent (service.size store.messages.length i)) with
        | (settled, some result) => (settled, result)
        | (settled, none) => search service sequence fuel (i + 1)
            (service.searched store.messages.length (i + 1)) settled := by
  have hsize : min (min n (min (resendSearch - service.searched store.messages.length i)
      receiveBatch)) store.messages.length = service.size store.messages.length i := by
    rw [Service.size, Service.batchSize, hhands, Option.getD_some]
  obtain ⟨hlent, hbatch⟩ := lend_atRest hsize
  rw [search, if_pos hsearched, hhands]
  dsimp only
  rw [hlent, hbatch, length_take_size, searched_succ]

/-- A search that is not answered, or that has come to its end, stops. -/
theorem search_stops (sequence : Int) (fuel : Nat)
    (h : (∃ k, fuel = k + 1 ∧ service.hands i = none) ∨
      resendSearch ≤ service.searched store.messages.length i) :
    ∃ failure, search service sequence fuel i (service.searched store.messages.length i)
      store.atRest = (store.atRest, .error failure) := by
  cases fuel with
  | zero => exact ⟨.notAmong, rfl⟩
  | succ fuel =>
    rw [search]
    split
    · rename_i hsearched
      rcases h with ⟨-, -, hnone⟩ | hend
      · rw [hnone]
        exact ⟨.reading, rfl⟩
      · omega
    · exact ⟨.notAmong, rfl⟩

/-- So does one that is handed nothing. -/
theorem search_empty (hhands : service.hands i = some n)
    (hsearched : service.searched store.messages.length i < resendSearch)
    (hsize : service.size store.messages.length i = 0) :
    search service sequence (fuel + 1) i (service.searched store.messages.length i) store.atRest =
      (store.atRest, .error .notAmong) := by
  rw [search_answered hhands hsearched, hsize, List.take_zero, if_pos rfl]
  rfl

variable (hp : store.messages[p]? = some message) (hnumber : message.sequenceNumber = some sequence)

include hp hnumber in
/-- What comes before the message has other numbers. -/
theorem ne_of_mem_take (hn : n ≤ p) (hother : other ∈ store.messages.take n) :
    other.sequenceNumber ≠ some sequence := by
  intro hsame
  obtain ⟨k, hk⟩ := List.mem_iff_getElem?.mp hother
  rw [List.getElem?_take] at hk
  split at hk
  · have hpos := index_unique hk hp (hsame.trans hnumber.symm)
    omega
  · cases hk

include hp hnumber in
/-- **A round that does not bring the message** gives back what it was handed. -/
theorem search_passes (hhands : service.hands i = some n)
    (hsearched : service.searched store.messages.length i < resendSearch)
    (hpos : 0 < service.size store.messages.length i)
    (hsize : service.size store.messages.length i ≤ p) :
    search service sequence (fuel + 1) i (service.searched store.messages.length i) store.atRest =
      search service sequence fuel (i + 1) (service.searched store.messages.length (i + 1))
        (abandonEach service i 0 (store.messages.take (service.size store.messages.length i))
          (store.lent (service.size store.messages.length i))) := by
  have hnonempty : store.messages.take (service.size store.messages.length i) ≠ [] := by
    intro hnil
    have hlength := length_take_size store service i
    rw [hnil] at hlength
    exact absurd hlength.symm (Nat.ne_of_gt hpos)
  rw [search_answered hhands hsearched, if_neg hnonempty,
    settle_of_absent fun other hother => ne_of_mem_take hp hnumber hsize hother]

include hp hnumber in
/-- **The round that brings it** gives back what came before. -/
theorem search_brings (hhands : service.hands i = some n)
    (hsearched : service.searched store.messages.length i < resendSearch)
    (hsize : p < service.size store.messages.length i) :
    search service sequence (fuel + 1) i (service.searched store.messages.length i) store.atRest =
      putBack service sequence i p message (abandonEach service i 0 (store.messages.take p)
        (store.lent (service.size store.messages.length i))) := by
  obtain ⟨hlt, hget⟩ := List.getElem?_eq_some_iff.mp hp
  have hsplit : store.messages.take (service.size store.messages.length i) =
      store.messages.take p ++ message ::
        (store.messages.take (service.size store.messages.length i)).drop (p + 1) := by
    have hlength : p < (store.messages.take (service.size store.messages.length i)).length := by
      rwa [length_take_size]
    have hdrop := List.drop_eq_getElem_cons hlength
    rw [List.getElem_take, hget] at hdrop
    rw [← hdrop]
    have htake : store.messages.take p =
        (store.messages.take (service.size store.messages.length i)).take p := by
      rw [List.take_take, Nat.min_eq_left (Nat.le_of_lt hsize)]
    rw [htake, List.take_append_drop]
  have hnonempty : store.messages.take (service.size store.messages.length i) ≠ [] := by
    rw [hsplit]
    exact List.append_ne_nil_of_right_ne_nil _ (List.cons_ne_nil _ _)
  have hplace : 0 + (store.messages.take p).length = p := by
    rw [Nat.zero_add, List.length_take, Nat.min_eq_left (Nat.le_of_lt hlt)]
  rw [search_answered hhands hsearched, if_neg hnonempty, hsplit,
    settle_of_present (fun other hother => ne_of_mem_take hp hnumber (Nat.le_refl p) hother) hnumber,
    hplace]

/-! ### What stays locked -/

/-- No message but the one that was asked for is locked. -/
def Unlocked (store : DeadLetterStore ν) (sequence : Int) (t : DeadLetters ν) : Prop :=
  ∀ other ∈ store.messages, other.sequenceNumber ≠ some sequence →
    other.sequenceNumber ∉ t.store.locked

/-- A receive leaves nothing locked: what it brings ends with the message, and abandoning each of
    the others takes effect. -/
def Service.Clean (service : Service) (length p i : Nat) : Prop :=
  service.size length i ≤ p + 1 ∧
    ∀ k < service.size length i, k ≠ p → (service.abandon i k).took = true

/-- The messages of a round that are still locked once its first `q` are abandoned. -/
theorem mem_locked_round {q : Nat} (hj : store.messages[j]? = some other) :
    other.sequenceNumber ∈
        (abandonEach service i 0 (store.messages.take q) (store.lent n)).store.locked ↔
      j < n ∧ (j < q → (service.abandon i j).took = false) := by
  rw [mem_locked_abandonEach, mem_locked_lent hj]
  apply and_congr_right
  intro _
  constructor
  · intro h hlt
    have hbound : j < (store.messages.take q).length := by
      obtain ⟨hlength, -⟩ := List.getElem?_eq_some_iff.mp hj
      rw [List.length_take]
      omega
    have hget : (store.messages.take q)[j] = other := by
      obtain ⟨hlength, hget⟩ := List.getElem?_eq_some_iff.mp hj
      rw [List.getElem_take, hget]
    have hrefused := h j hbound (congrArg ReceivedMessage.sequenceNumber hget)
    rwa [Nat.zero_add] at hrefused
  · intro h k hk hsame
    have hget : (store.messages.take q)[k]? = some (store.messages.take q)[k] :=
      List.getElem?_eq_getElem hk
    rw [List.getElem?_take] at hget
    split at hget
    · rename_i hlt
      have hindex : k = j := index_unique hget hj hsame
      subst hindex
      rw [Nat.zero_add]
      exact h hlt
    · cases hget

include hp hnumber in
/-- Other messages stand at other places. -/
theorem unlocked_iff_places {t : DeadLetters ν} : Unlocked store sequence t ↔
    ∀ (k : Nat) (other : ReceivedMessage ν), store.messages[k]? = some other → k ≠ p →
      other.sequenceNumber ∉ t.store.locked := by
  constructor
  · intro h k other hk hne
    apply h other (List.mem_of_getElem? hk)
    intro hsame
    exact hne (index_unique hk hp (hsame.trans hnumber.symm))
  · intro h other hother hne
    obtain ⟨k, hk⟩ := List.mem_iff_getElem?.mp hother
    apply h k other hk
    rintro rfl
    rw [hp] at hk
    cases hk
    exact hne hnumber

include hp hnumber in
/-- **The round that brings the message** leaves nothing locked just where it is clean. -/
theorem unlocked_brings (hsize : p < service.size store.messages.length i) :
    Unlocked store sequence (putBack service sequence i p message
      (abandonEach service i 0 (store.messages.take p)
        (store.lent (service.size store.messages.length i)))).1 ↔
      service.Clean store.messages.length p i := by
  rw [unlocked_iff_places hp hnumber]
  have hlocked : ∀ (k : Nat) (other : ReceivedMessage ν), store.messages[k]? = some other →
      k ≠ p → (other.sequenceNumber ∈ (putBack service sequence i p message
        (abandonEach service i 0 (store.messages.take p)
          (store.lent (service.size store.messages.length i)))).1.store.locked ↔
        k < service.size store.messages.length i ∧
          (k < p → (service.abandon i k).took = false)) := by
    intro k other hk hne
    rw [mem_locked_putBack, mem_locked_round hk]
    intro hsame
    exact hne (index_unique hk hp hsame)
  constructor
  · intro h
    have hclean : ∀ k < service.size store.messages.length i, k ≠ p →
        k < p ∧ (service.abandon i k).took = true := by
      intro k hk hne
      have hlength := size_le_length store service i
      have hget := List.getElem?_eq_getElem (Nat.lt_of_lt_of_le hk hlength)
      have hfree := h k _ hget hne
      rw [hlocked k _ hget hne, not_and, Classical.not_imp, Bool.not_eq_false] at hfree
      exact hfree hk
    refine ⟨?_, fun k hk hne => (hclean k hk hne).2⟩
    by_contra hmore
    have hnext := (hclean (p + 1) (by omega) (by omega)).1
    omega
  · intro h k other hk hne hmem
    obtain ⟨hlt, hrefused⟩ := (hlocked k other hk hne).mp hmem
    obtain ⟨hlast, htook⟩ := h
    have htrue := htook k hlt hne
    rw [hrefused (by omega)] at htrue
    cases htrue

/-! ### Every round -/

theorem searched_mono (service : Service) (length : Nat) (h : i ≤ j) :
    service.searched length i ≤ service.searched length j := by
  induction h with
  | refl => exact Nat.le_refl _
  | step _ ih => exact Nat.le_trans ih (Nat.le_add_right _ _)

theorem unlocked_atRest : Unlocked store sequence store.atRest :=
  fun _ _ _ => List.not_mem_nil

/-- Once `resendSearch` messages were handed out, no receive is made. -/
theorem not_receives_of_searched {length : Nat}
    (h : resendSearch ≤ service.searched length i) :
    ∀ j ≥ i, ¬ service.Receives length p j := by
  intro j hj hreceives
  have hmono := searched_mono service length hj
  have hlt := hreceives.2.2.2.1
  omega

/-- Once a round does not go on, no receive is made. -/
theorem not_receives {length : Nat} (h : ¬ service.GoesOn length p i) :
    ∀ j ≥ i + 1, ¬ service.Receives length p j := by
  intro j hj hreceives
  exact h (hreceives.2.2.1 i hj)

theorem clean_from_iff {length : Nat} :
    (∀ j ≥ i, service.Receives length p j → service.Clean length p j) ↔
      (service.Receives length p i → service.Clean length p i) ∧
        ∀ j ≥ i + 1, service.Receives length p j → service.Clean length p j := by
  constructor
  · intro h
    exact ⟨h i (Nat.le_refl i), fun j hj => h j (Nat.le_of_succ_le hj)⟩
  · intro h j hj
    rcases Nat.eq_or_lt_of_le hj with rfl | hlt
    · exact h.1
    · exact h.2 j hlt

theorem Service.Comes.succ {length : Nat} (h : service.Comes length p i)
    (hon : service.GoesOn length p i) : service.Comes length p (i + 1) := by
  intro j hj
  rcases Nat.lt_succ_iff_lt_or_eq.mp hj with hlt | rfl
  · exact h j hlt
  · exact hon

/-- Where nothing is received from the `i`-th on, all receives from there are clean. -/
theorem clean_of_not_receives {length : Nat}
    (h : ∀ j ≥ i, ¬ service.Receives length p j) :
    ∀ j ≥ i, service.Receives length p j → service.Clean length p j :=
  fun j hj hreceives => absurd hreceives (h j hj)

include hp hnumber in
/-- A round that goes on leaves a message locked for good where an abandon is refused. -/
theorem locked_of_not_clean (hon : service.GoesOn store.messages.length p i)
    (hclean : ¬ service.Clean store.messages.length p i) (fuel searched : Nat) :
    ¬ Unlocked store sequence (search service sequence fuel (i + 1) searched
      (abandonEach service i 0 (store.messages.take (service.size store.messages.length i))
        (store.lent (service.size store.messages.length i)))).1 := by
  have hrefused : ∃ k < service.size store.messages.length i,
      (service.abandon i k).took = false := by
    by_contra hall
    apply hclean
    refine ⟨Nat.le_succ_of_le hon.2.2, fun k hk _ => ?_⟩
    by_contra hfalse
    exact hall ⟨k, hk, by rwa [Bool.not_eq_true] at hfalse⟩
  obtain ⟨k, hk, hfalse⟩ := hrefused
  have hlt : k < store.messages.length := Nat.lt_of_lt_of_le hk (size_le_length store service i)
  have hget := List.getElem?_eq_getElem hlt
  have hother : store.messages[k].sequenceNumber ≠ some sequence := by
    intro hsame
    have hplace := index_unique hget hp (hsame.trans hnumber.symm)
    exact absurd (hplace ▸ hk) (Nat.not_lt.mpr hon.2.2)
  intro h
  apply h _ (List.mem_of_getElem? hget) hother
  exact search_locked ((mem_locked_round hget).mpr ⟨hk, fun _ => hfalse⟩) hother

include hp hnumber in
/-- **The search leaves nothing locked** just where every receive it makes is clean. -/
theorem unlocked_search (hreceiver : service.receiver = true) (hsender : service.sender = true)
    (hcomes : service.Comes store.messages.length p i)
    (hfuel : resendSearch ≤ service.searched store.messages.length i + fuel) :
    Unlocked store sequence (search service sequence fuel i
        (service.searched store.messages.length i) store.atRest).1 ↔
      ∀ j ≥ i, service.Receives store.messages.length p j →
        service.Clean store.messages.length p j := by
  induction fuel generalizing i with
  | zero =>
    obtain ⟨failure, hstop⟩ := search_stops sequence 0 (.inr hfuel)
    rw [hstop]
    exact iff_of_true unlocked_atRest (clean_of_not_receives (not_receives_of_searched hfuel))
  | succ fuel ih =>
    rw [clean_from_iff]
    by_cases hsearched : service.searched store.messages.length i < resendSearch
    · cases hhands : service.hands i with
      | none =>
        obtain ⟨failure, hstop⟩ := search_stops sequence (fuel + 1) (.inl ⟨fuel, rfl, hhands⟩)
        have hunanswered : ¬ (service.hands i).isSome := by simp [hhands]
        rw [hstop]
        refine iff_of_true unlocked_atRest ⟨fun h => absurd h.2.2.2.2 hunanswered, ?_⟩
        exact clean_of_not_receives (not_receives fun hon => hunanswered hon.1)
      | some n =>
        have hanswered : (service.hands i).isSome := by simp [hhands]
        have hhere : service.Receives store.messages.length p i :=
          ⟨hreceiver, hsender, hcomes, hsearched, hanswered⟩
        rcases Nat.eq_zero_or_pos (service.size store.messages.length i) with hnone | hpos
        · rw [search_empty hhands hsearched hnone]
          refine iff_of_true unlocked_atRest ⟨fun _ => ⟨by omega, by omega⟩, ?_⟩
          exact clean_of_not_receives (not_receives fun hon => absurd hon.2.1 (by omega))
        · rcases Nat.lt_or_ge p (service.size store.messages.length i) with hbrings | hpasses
          · have hends := clean_of_not_receives
              (not_receives fun hon => absurd hon.2.2 (Nat.not_le.mpr hbrings))
            rw [search_brings hp hnumber hhands hsearched hbrings,
              unlocked_brings hp hnumber hbrings]
            exact ⟨fun h => ⟨fun _ => h, hends⟩, fun h => h.1 hhere⟩
          · have hon : service.GoesOn store.messages.length p i := ⟨hanswered, hpos, hpasses⟩
            rw [search_passes hp hnumber hhands hsearched hpos hpasses]
            by_cases hclean : service.Clean store.messages.length p i
            · rw [abandonEach_lent fun k hk _ => hclean.2 k hk (by omega),
                ih (hcomes.succ hon) (by rw [searched_succ]; omega)]
              exact ⟨fun h => ⟨fun _ => hclean, h⟩, fun h => h.2⟩
            · exact iff_of_false (locked_of_not_clean hp hnumber hon hclean _ _)
                fun h => hclean (h.1 hhere)
    · obtain ⟨failure, hstop⟩ :=
        search_stops sequence (fuel + 1) (.inr (Nat.le_of_not_lt hsearched))
      rw [hstop, ← clean_from_iff]
      exact iff_of_true unlocked_atRest
        (clean_of_not_receives (not_receives_of_searched (Nat.le_of_not_lt hsearched)))

/-! ### Where every call succeeds -/

/-- A receive that is made hands out a message. -/
theorem size_pos (hs : service.Succeeds) (hp : p < store.messages.length)
    (hsearched : service.searched store.messages.length i < resendSearch) :
    0 < service.size store.messages.length i := by
  obtain ⟨n, hn⟩ := hs.hands i
  rw [Service.size, Service.batchSize, hn, Option.getD_some, receiveBatch]
  omega

/-- What is put back is sent once, and off the store. -/
theorem putBack_of_succeeds (hs : service.Succeeds) (hnumber : message.sequenceNumber = some sequence)
    (k : Nat) (s : DeadLetters ν) :
    (putBack service sequence i k message s).2 = .ok sequence ∧
      (putBack service sequence i k message s).1.sent = resubmit message :: s.sent ∧
      (putBack service sequence i k message s).1.store.messages =
        s.store.messages.filter fun other => other.sequenceNumber ≠ some sequence := by
  unfold putBack
  rw [hs.send, hs.complete, ← hnumber]
  exact ⟨rfl, rfl, rfl⟩

include hp hnumber in
/-- **The search finds the message** where a receive brings it. -/
theorem found_search (hs : service.Succeeds)
    (hfound : ∃ j ≥ i, service.Receives store.messages.length p j ∧
      p < service.size store.messages.length j)
    (hfuel : resendSearch ≤ service.searched store.messages.length i + fuel) :
    (search service sequence fuel i (service.searched store.messages.length i)
        store.atRest).2 = .ok sequence ∧
      (search service sequence fuel i (service.searched store.messages.length i)
        store.atRest).1.sent = [resubmit message] ∧
      (search service sequence fuel i (service.searched store.messages.length i)
        store.atRest).1.store.messages =
          store.messages.filter fun other => other.sequenceNumber ≠ some sequence := by
  obtain ⟨hlength, -⟩ := List.getElem?_eq_some_iff.mp hp
  obtain ⟨j, hj, hreceives, hbrings⟩ := hfound
  induction fuel generalizing i with
  | zero =>
    exact absurd hreceives (not_receives_of_searched hfuel j hj)
  | succ fuel ih =>
    have hsearched : service.searched store.messages.length i < resendSearch :=
      Nat.lt_of_le_of_lt (searched_mono service _ hj) hreceives.2.2.2.1
    obtain ⟨n, hhands⟩ := hs.hands i
    rcases Nat.eq_or_lt_of_le hj with rfl | hlt
    · rw [search_brings hp hnumber hhands hsearched hbrings]
      obtain ⟨hresult, hsent, hmessages⟩ := putBack_of_succeeds hs hnumber p
        (abandonEach service i 0 (store.messages.take p)
          (store.lent (service.size store.messages.length i)))
      rw [sent_abandonEach] at hsent
      rw [messages_abandonEach] at hmessages
      exact ⟨hresult, hsent, hmessages⟩
    · have hon := hreceives.2.2.1 i hlt
      have hpos := hon.2.1
      rw [search_passes hp hnumber hhands hsearched hpos hon.2.2,
        abandonEach_lent fun k _ _ => by rw [hs.abandon]; rfl]
      exact ih (by rw [searched_succ]; omega) hlt

include hp hnumber in
/-- **It does not where none brings it.** -/
theorem not_found_search (hs : service.Succeeds)
    (hcomes : service.Comes store.messages.length p i)
    (hnone : ∀ j ≥ i, service.Receives store.messages.length p j →
      service.size store.messages.length j ≤ p)
    (hfuel : resendSearch ≤ service.searched store.messages.length i + fuel) :
    ∃ failure, (search service sequence fuel i (service.searched store.messages.length i)
      store.atRest).2 = .error failure := by
  obtain ⟨hlength, -⟩ := List.getElem?_eq_some_iff.mp hp
  induction fuel generalizing i with
  | zero =>
    obtain ⟨failure, hstop⟩ := search_stops sequence 0 (.inr hfuel)
    exact ⟨failure, congrArg Prod.snd hstop⟩
  | succ fuel ih =>
    by_cases hsearched : service.searched store.messages.length i < resendSearch
    · obtain ⟨n, hhands⟩ := hs.hands i
      have hanswered : (service.hands i).isSome := by simp [hhands]
      have hpos := size_pos hs hlength hsearched
      have hpasses := hnone i (Nat.le_refl i) ⟨hs.receiver, hs.sender, hcomes, hsearched, hanswered⟩
      rw [search_passes hp hnumber hhands hsearched hpos hpasses,
        abandonEach_lent fun k _ _ => by rw [hs.abandon]; rfl]
      exact ih (hcomes.succ ⟨hanswered, hpos, hpasses⟩)
        (fun j hj => hnone j (Nat.le_of_succ_le hj)) (by rw [searched_succ]; omega)
    · obtain ⟨failure, hstop⟩ :=
        search_stops sequence (fuel + 1) (.inr (Nat.le_of_not_lt hsearched))
      exact ⟨failure, congrArg Prod.snd hstop⟩

end AtRest

/-! ## The result -/

/-- What a resend of a store at rest comes to. -/
def DeadLetterStore.resend (store : DeadLetterStore ν) (service : Service) (sequence : Int) :
    DeadLetters ν × Except Failure Int :=
  resendMessage service sequence store.atRest

section Result

variable {store : DeadLetterStore ν} {sequence : Int} {p : Nat} {message : ReceivedMessage ν}

/-- **What any resend keeps.** -/
theorem resend_kept (store : DeadLetterStore ν) (service : Service) (sequence : Int) :
    Kept sequence store.atRest (store.resend service sequence).1 := by
  rw [DeadLetterStore.resend, resendMessage]
  split
  · exact .inl ⟨rfl, rfl⟩
  · split
    · exact .inl ⟨rfl, rfl⟩
    · exact search_kept

/-- A resend is its search, once the receiver and the sender are opened. -/
theorem resend_opened {service : Service} (hreceiver : service.receiver = true)
    (hsender : service.sender = true) : store.resend service sequence =
      search service sequence resendSearch 0 (service.searched store.messages.length 0)
        store.atRest := by
  rw [DeadLetterStore.resend, resendMessage, hreceiver, hsender]
  rfl

theorem comes_zero (service : Service) (length p : Nat) : service.Comes length p 0 :=
  fun _ h => absurd h (Nat.not_lt_zero _)

/-- **It leaves nothing locked** just where every receive is clean. -/
theorem unlocked_resend (service : Service) (hp : store.messages[p]? = some message)
    (hnumber : message.sequenceNumber = some sequence) :
    Unlocked store sequence (store.resend service sequence).1 ↔
      ∀ i, service.Receives store.messages.length p i →
        service.Clean store.messages.length p i := by
  by_cases hopened : service.receiver = true ∧ service.sender = true
  · obtain ⟨hreceiver, hsender⟩ := hopened
    rw [resend_opened hreceiver hsender,
      unlocked_search hp hnumber hreceiver hsender (comes_zero _ _ _) (Nat.le_add_left _ _)]
    exact ⟨fun h i => h i (Nat.zero_le i), fun h i _ => h i⟩
  · refine iff_of_true ?_ fun i hreceives => absurd ⟨hreceives.1, hreceives.2.1⟩ hopened
    rw [DeadLetterStore.resend, resendMessage]
    split
    · exact unlocked_atRest
    · split
      · exact unlocked_atRest
      · rename_i hreceiver hsender
        simp only [Bool.not_eq_true, Bool.not_eq_false'] at hreceiver hsender
        exact absurd ⟨hreceiver, hsender⟩ hopened

/-- Where every call succeeds, **it succeeds** just where a receive brings the message. -/
theorem resend_found_iff {service : Service} (hs : service.Succeeds)
    (hp : store.messages[p]? = some message) (hnumber : message.sequenceNumber = some sequence) :
    (store.resend service sequence).2 = .ok sequence ↔
      ∃ i, service.Receives store.messages.length p i ∧
        p < service.size store.messages.length i := by
  have hfuel : resendSearch ≤ service.searched store.messages.length 0 + resendSearch :=
    Nat.le_add_left _ _
  rw [resend_opened hs.receiver hs.sender]
  constructor
  · intro h
    by_contra hnone
    obtain ⟨failure, hfailure⟩ := not_found_search hp hnumber hs (comes_zero _ _ _)
      (fun j _ hj => Nat.le_of_not_lt fun hlt => hnone ⟨j, hj, hlt⟩) hfuel
    rw [hfailure] at h
    cases h
  · intro h
    obtain ⟨i, hi, hbrings⟩ := h
    exact (found_search hp hnumber hs ⟨i, Nat.zero_le i, hi, hbrings⟩ hfuel).1

/-- Then it sends the copy and takes the message off the store. -/
theorem resend_done {service : Service} (hs : service.Succeeds)
    (hp : store.messages[p]? = some message) (hnumber : message.sequenceNumber = some sequence)
    (hok : (store.resend service sequence).2 = .ok sequence) :
    (store.resend service sequence).1.sent = [resubmit message] ∧
      (store.resend service sequence).1.store.messages =
        store.messages.filter fun other => other.sequenceNumber ≠ some sequence := by
  obtain ⟨i, hi, hbrings⟩ := (resend_found_iff hs hp hnumber).mp hok
  rw [resend_opened hs.receiver hs.sender]
  exact (found_search hp hnumber hs ⟨i, Nat.zero_le i, hi, hbrings⟩ (Nat.le_add_left _ _)).2

/-- **A dead letter is put back once or left where it was**, and no other left locked, just under
    the condition. -/
theorem resend_puts_back_iff (service : Service) (hp : store.messages[p]? = some message)
    (hnumber : message.sequenceNumber = some sequence) :
    PutBack service store message sequence (store.resend service sequence).1
        (store.resend service sequence).2 ↔
      Condition service store.messages.length p message := by
  have hunlocked := unlocked_resend service hp hnumber
  constructor
  · intro h
    have hclean := hunlocked.mp h.unlocked
    refine ⟨fun i hi => (hclean i hi).1, fun i hi => (hclean i hi).2, fun hs => ?_, fun hs => ?_⟩
    · exact (resend_found_iff hs hp hnumber).mp (h.done hs).1
    · obtain ⟨hok, ⟨copy, hsent, hcarries⟩, -⟩ := h.done hs
      rw [(resend_done hs hp hnumber hok).1] at hsent
      cases hsent
      exact carries_resubmit.mp hcarries
  · intro h
    have hkept := resend_kept store service sequence
    refine ⟨fun hs => ?_, ?_, fun hgone => ?_, fun other hother hne => ?_,
      hunlocked.mpr fun i hi => ⟨h.last i hi, h.abandoned i hi⟩⟩
    · have hok := (resend_found_iff hs hp hnumber).mpr (h.found hs)
      obtain ⟨hsent, hmessages⟩ := resend_done hs hp hnumber hok
      exact ⟨hok, ⟨resubmit message, hsent, carries_resubmit.mpr (h.unset hs)⟩, hmessages⟩
    · rcases hkept with ⟨hsent, -⟩ | ⟨copy, hsent, -⟩
      · rw [hsent]
        exact Nat.zero_le 1
      · rw [hsent]
        exact Nat.le_refl 1
    · rcases hkept with ⟨-, hmessages⟩ | ⟨copy, hsent, -⟩
      · rw [hmessages] at hgone
        exact absurd (List.mem_of_getElem? hp) hgone
      · rw [hsent]
        exact List.cons_ne_nil _ _
    · rcases hkept with ⟨-, hmessages⟩ | ⟨copy, -, hmessages | hmessages⟩
      · rw [hmessages]
        exact hother
      · rw [hmessages]
        exact hother
      · rw [hmessages]
        exact List.mem_filter.mpr ⟨hother, decide_eq_true hne⟩

end Result

/-- A dead letter of this number, with no field set. -/
def letter (number : Nat) : ReceivedMessage Unit where
  body := [1]
  subject := none
  correlationID := none
  contentType := none
  replyTo := none
  to' := none
  sessionID := none
  partitionKey := none
  applicationProperties := ∅
  messageID := none
  replyToSessionID := none
  scheduledEnqueueTime := none
  timeToLive := none
  sequenceNumber := some number

/-- The letters numbered from 0 on. -/
def letters (count : Nat) : DeadLetterStore Unit where
  messages := (List.range count).map letter
  ordered := by
    refine ⟨(List.range count).map Int.ofNat, by rw [List.map_map, List.map_map]; rfl, ?_⟩
    apply List.Pairwise.map
    · exact fun a b h => Int.ofNat_lt.mpr h
    · exact List.pairwise_lt_range

/-- A service that hands out what it is asked for, and where every call succeeds. -/
def willing : Service := ⟨true, true, fun _ => some 20, fun _ _ => .done, .done, .done⟩

/-- The last of two is put back. -/
theorem resend_puts_back_last : PutBack willing (letters 2) (letter 1) 1
    ((letters 2).resend willing 1).1 ((letters 2).resend willing 1).2 := by
  have hp : (letters 2).messages[1]? = some (letter 1) := rfl
  apply (resend_puts_back_iff willing hp rfl).mpr
  refine ⟨fun i _ => size_le_length (letters 2) willing i, fun _ _ _ _ _ => rfl, fun _ => ?_,
    fun _ => ⟨rfl, rfl, rfl, rfl⟩⟩
  exact ⟨0, ⟨rfl, rfl, comes_zero _ _ _, by decide, rfl⟩, by decide⟩

/-- The first of two is, with the second left locked; the twenty-first of twenty-one is not found. -/
theorem first_locks_second : ¬ PutBack willing (letters 2) (letter 0) 0
      ((letters 2).resend willing 0).1 ((letters 2).resend willing 0).2 ∧
    ¬ PutBack willing (letters 21) (letter 20) 20
      ((letters 21).resend willing 20).1 ((letters 21).resend willing 20).2 := by
  constructor
  · intro h
    have hlocked : ((letters 2).resend willing 0).1.store.locked = [some 1] := by decide +kernel
    apply h.unlocked (letter 1) (List.mem_map.mpr ⟨1, by decide, rfl⟩) (by decide)
    rw [hlocked]
    exact List.mem_singleton.mpr rfl
  · intro h
    have hsucceeds : willing.Succeeds := ⟨rfl, rfl, fun _ => ⟨19, rfl⟩, fun _ _ => rfl, rfl, rfl⟩
    have hmissed : ((letters 21).resend willing 20).2.isOk = false := by decide +kernel
    rw [(h.done hsucceeds).1] at hmissed
    cases hmissed

end MqStudio.Driver.ServiceBus
