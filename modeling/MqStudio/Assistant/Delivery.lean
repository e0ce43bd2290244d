import MqStudio.Assistant.Answers

/-!
# What the Person Says Reaches the Model

A text a person sends is in turn in the conversation's queue, among what was said before the model
answered, and in the chat's own history. A run can fail at every step between; the texts that were
accepted stay in one of those places, except for the two ways in which a conversation that was read
back can lose its queue.

## Main definitions

- `Delivering`: every accepted text is carried or waits, in order and once.
- `delivered`: the queue is lost in neither way.

## Main results

- `no_message_lost`: the history of a chat whose turn succeeds carries the accepted texts.
- `queue_lost`: what becomes of the queue otherwise.
-/

namespace MqStudio.Assistant

open MqStudio.Lib

/-! ## Where a text is -/

/-- The history a conversation goes on from, once the model has answered. -/
def Session.past (s : Session) : List Message :=
  match s.chat with
  | some chat => chat.history
  | none => s.history.getD []

/-- **Every accepted text is carried or waits**: before the model answers among what was said, and
    then in the history. -/
structure Delivering (s : Session) (queue : List String) : Prop where
  before : s.answered = false → s.said ++ queue = s.accepted
  after : s.answered = true → ∃ carried, Carries s.past carried ∧ carried ++ queue = s.accepted

/-- The history is kept as the chat has it. -/
def Synced (s : Session) : Prop := ∀ chat, s.chat = some chat → s.history = some chat.history

/-- The same of a record. -/
structure Record.Delivering (kept : Record) : Prop where
  before : kept.answered = false → kept.said ++ kept.queued = kept.accepted
  after : kept.answered = true →
    ∃ carried, Carries (kept.history.getD []) carried ∧ carried ++ kept.queued = kept.accepted

/-- Every accepted text is in the chat. -/
structure Delivered (s : Session) : Prop where
  chat : ∃ chat, s.chat = some chat ∧ Carries chat.history s.accepted
  queue : s.queue = []
  said : s.answered = false → s.said = s.accepted

/-- **Where the texts are where a run stands.** -/
def Position.Delivering (s : Session) : Position → Prop
  | .building _ queue => s.queue = [] ∧ Assistant.Delivering s queue
  | .streaming _ | .returned _ _ | .turned _ | .skipping _ _ _ | .deciding _ | .calling _ _ _ _ =>
    Delivered s
  | .keeping kept | .saving kept =>
    kept.Delivering ∧ Assistant.Delivering s s.queue ∧ Synced s
  | .closing => Assistant.Delivering s s.queue ∧ Synced s
  | _ => Assistant.Delivering s s.queue

/-- A service that fails. -/
def Choice.fails : Choice → Bool
  | .service (some _) => true
  | _ => false

/-- The queue a run took is not lost with a chat that could not be built. -/
def Position.keepsQueue (s : Session) (choice : Choice) : Position → Prop
  | .building _ queue => s.answered = true → s.chat = none → choice.fails = true → queue = []
  | _ => True

instance (s : Session) (choice : Choice) (position : Position) :
    Decidable (position.keepsQueue s choice) := by
  unfold Position.keepsQueue
  split <;> infer_instance

/-- **The queue is lost in neither way**: not with the chat of a conversation that was read back, nor
    by being read back. -/
def delivered : Limits where
  restore kept := kept.queued = []
  step _ _ s r choice := r.position.keepsQueue s choice
  stop _ _ := True

instance (kept : Record) : Decidable (delivered.restore kept) :=
  inferInstanceAs (Decidable (kept.queued = []))

instance (s : Session) (r : Run) : Decidable (delivered.stop s r) := .isTrue trivial

instance (e : Surroundings) (h : List Happening) (s : Session) (r : Run) (choice : Choice) :
    Decidable (delivered.step e h s r choice) :=
  inferInstanceAs (Decidable (r.position.keepsQueue s choice))

/-! ## Changes of a conversation -/

section Changes

variable {s t : Session} {queue : List String}

/-- What holds the texts of a conversation. -/
structure SameTexts (s t : Session) : Prop where
  answered : t.answered = s.answered
  said : t.said = s.said
  accepted : t.accepted = s.accepted
  chat : t.chat = s.chat
  history : t.history = s.history
  queue : t.queue = s.queue

theorem Redrawn.texts (h : Redrawn s t) : SameTexts s t := by
  obtain ⟨_, _, _, _, rfl⟩ := h
  exact ⟨rfl, rfl, rfl, rfl, rfl, rfl⟩

theorem Delivering.same (h : Delivering s queue) (hsame : SameTexts s t) : Delivering t queue := by
  have hpast : t.past = s.past := by rw [Session.past, Session.past, hsame.chat, hsame.history]
  refine ⟨?_, ?_⟩
  · rw [hsame.answered, hsame.said, hsame.accepted]
    exact h.before
  · rw [hsame.answered, hsame.accepted, hpast]
    exact h.after

theorem Delivered.same (h : Delivered s) (hsame : SameTexts s t) : Delivered t := by
  refine ⟨?_, ?_, ?_⟩
  · rw [hsame.chat, hsame.accepted]
    exact h.chat
  · rw [hsame.queue]
    exact h.queue
  · rw [hsame.answered, hsame.said, hsame.accepted]
    exact h.said

theorem Synced.same (h : Synced s) (hsame : SameTexts s t) : Synced t := by
  unfold Synced
  rw [hsame.chat, hsame.history]
  exact h

/-- What is in the chat waits for nothing. -/
theorem Delivered.delivering (h : Delivered s) : Delivering s s.queue := by
  obtain ⟨⟨chat, hchat, hcarries⟩, hqueue, hsaid⟩ := h
  refine ⟨fun hanswered => ?_, fun _ => ⟨s.accepted, ?_, ?_⟩⟩
  · rw [hqueue, List.append_nil]
    exact hsaid hanswered
  · rw [Session.past, hchat]
    exact hcarries
  · rw [hqueue, List.append_nil]

/-- The record of a conversation holds its texts. -/
theorem Delivering.record (h : Delivering s s.queue) (hsynced : Synced s) : s.record.Delivering := by
  refine ⟨h.before, fun hanswered => ?_⟩
  obtain ⟨carried, hcarries, hwhole⟩ := h.after hanswered
  refine ⟨carried, ?_, hwhole⟩
  cases hchat : s.chat with
  | none =>
    rw [Session.past, hchat] at hcarries
    exact hcarries
  | some chat =>
    rw [Session.past, hchat] at hcarries
    have hhistory : s.record.history = some chat.history := hsynced chat hchat
    rw [hhistory]
    exact hcarries

end Changes

/-! ## Runs -/

section Runs

variable {c : Config} {e : Surroundings} {s t : Session} {r : Run} {choice : Choice} {m : Moved}

/-- **The chat that is readied** takes the queue, or the queue waits. -/
theorem ready_delivering {chosen : Provider} {queue : List String} {failed : Option Failure}
    {next : Position} (hqueue : s.queue = []) (h : Delivering s queue)
    (hkeeps : s.answered = true → s.chat = none → (Choice.service failed).fails = true → queue = [])
    (hready : ready s r chosen queue failed = some (t, next)) : next.Delivering t := by
  unfold ready at hready
  split at hready
  · rename_i hanswered
    simp only [Bool.not_eq_true'] at hanswered
    have hwhole := h.before hanswered
    dsimp only at hready
    split at hready
    · cases hready
      refine ⟨fun _ => ?_, fun htrue => ?_⟩
      · change (s.said ++ queue) ++ s.queue = s.accepted
        rw [hqueue, List.append_nil]
        exact hwhole
      · have hcontra : s.answered = true := htrue
        rw [hanswered] at hcontra
        cases hcontra
    · cases hready
      refine ⟨⟨_, rfl, ?_⟩, hqueue, fun _ => hwhole⟩
      let empty : Chat := ⟨chosen.kind, chosen.model, r.tools.map Agent.Tool.name, []⟩
      have hempty : Carries empty.history [] := Carries.nil
      have hcarries := hempty.users (s.said ++ queue)
      rw [List.nil_append] at hcarries
      change Carries (empty.users (s.said ++ queue)).history s.accepted
      rw [← hwhole]
      exact hcarries
  · rename_i hanswered
    simp only [Bool.not_eq_true', Bool.not_eq_false] at hanswered
    obtain ⟨carried, hcarries, hwhole⟩ := h.after hanswered
    have hsaid : s.answered = false → s.said = s.accepted := by
      intro hfalse
      rw [hanswered] at hfalse
      cases hfalse
    split at hready
    · rename_i hchat
      rw [Session.past, hchat] at hcarries
      split at hready
      · cases hready
        -- the queue was taken, and there was nothing in it
        have hnone := hkeeps hanswered hchat rfl
        rw [hnone] at h
        change Delivering s s.queue
        rw [hqueue]
        exact h
      · cases hready
        refine ⟨⟨_, rfl, ?_⟩, hqueue, hsaid⟩
        let kept : Chat := ⟨chosen.kind, s.model, r.tools.map Agent.Tool.name, s.history.getD []⟩
        have hkept : Carries kept.history carried := hcarries
        have htaken := hkept.users queue
        rw [hwhole] at htaken
        exact htaken
    · rename_i chat hchat
      rw [Session.past, hchat] at hcarries
      have htaken := hcarries.users queue
      rw [hwhole] at htaken
      dsimp only at hready
      split at hready
      · split at hready
        · cases hready
        · cases hready
          exact ⟨⟨_, rfl, htaken⟩, hqueue, hsaid⟩
      · split at hready
        · cases hready
          have hdelivered : Delivered { s with
              chat := some ((chat.users queue).offer (r.tools.map Agent.Tool.name)) } :=
            ⟨⟨_, rfl, htaken⟩, hqueue, hsaid⟩
          exact hdelivered.delivering
        · cases hready
          exact ⟨⟨_, rfl, htaken⟩, hqueue, hsaid⟩

/-- The history is taken over from the chat. -/
theorem Delivering.ended (h : Delivering s s.queue) (now : Nat) (ending : Option Ending) :
    Delivering (ended s now ending) (ended s now ending).queue ∧ Synced (ended s now ending) := by
  have htold : ∀ told : Session, Delivering told told.queue →
      Delivering (Assistant.ended told now none) told.queue ∧
        Synced (Assistant.ended told now none) := by
    intro told hdelivering
    refine ⟨⟨hdelivering.before, fun hanswered => ?_⟩, fun chat hchat => ?_⟩
    · obtain ⟨carried, hcarries, hwhole⟩ := hdelivering.after hanswered
      refine ⟨carried, ?_, hwhole⟩
      unfold Session.past at hcarries ⊢
      cases hchat : told.chat with
      | none =>
        rw [hchat] at hcarries
        simpa [Assistant.ended, hchat] using hcarries
      | some chat =>
        rw [hchat] at hcarries
        simpa [Assistant.ended, hchat] using hcarries
    · have htoldChat : told.chat = some chat := hchat
      simp [Assistant.ended, htoldChat]
  cases ending with
  | none => exact htold s h
  | some ended => exact htold _ (h.same (redrawn_add s _).texts)

/-- One more turn of the model carries nothing of the person's. -/
theorem Delivered.turn (h : Delivered s) (turn : Turn) :
    Delivered { s with chat := s.chat.map fun chat => chat.next turn } := by
  obtain ⟨⟨chat, hchat, hcarries⟩, hqueue, hsaid⟩ := h
  exact ⟨⟨chat.next turn, by rw [hchat]; rfl, hcarries.addTurn turn⟩, hqueue, hsaid⟩

/-- Nor do the results of its calls. -/
theorem Delivered.results (h : Delivered s) (results : List CallResult) :
    Delivered { s with chat := s.chat.map fun chat => chat.results results } := by
  obtain ⟨⟨chat, hchat, hcarries⟩, hqueue, hsaid⟩ := h
  exact ⟨⟨chat.results results, by rw [hchat]; rfl, hcarries.addResults chat.kind results⟩, hqueue,
    hsaid⟩

/-- A turn that succeeded is the model's answer to all that was said. -/
theorem Delivered.counts (h : Delivered s) (turn : Turn) :
    (afterTurn turn).Delivering
      { s with answered := true, said := [], usage := s.usage.add turn.usage } := by
  have hcounted : Delivered
      { s with answered := true, said := [], usage := s.usage.add turn.usage } :=
    ⟨h.chat, h.queue, fun hfalse => (by cases hfalse)⟩
  unfold afterTurn
  split
  · split
    · exact hcounted.delivering
    · exact hcounted
  · exact hcounted

/-- **A step of a run** loses no text. -/
theorem Position.Delivering.move (h : r.position.Delivering s)
    (hlimit : r.position.keepsQueue s choice) (hmove : Move c e s r choice m) :
    m.run.position.Delivering m.session := by
  cases hmove with
  | unreadable failed hposition | removed ended hposition | blames failed ended hposition
  | prepares settings chosen hposition =>
    rw [hposition] at h
    exact h
  | takes chosen hposition =>
    rw [hposition] at h
    exact ⟨rfl, h.before, h.after⟩
  | builds chosen queue failed t next hposition hchoice hready =>
    rw [hposition] at h hlimit
    rw [hchoice] at hlimit
    exact ready_delivering h.1 h.2 hlimit hready
  | hears out piece hposition | fails out failed hposition =>
    rw [hposition] at h
    exact h
  | flushes out hposition | flushesLate out outcome hposition | closes out turn hposition =>
    rw [hposition] at h
    exact Delivered.same h (redrawn_flush s out).texts
  | answers out turn hposition =>
    rw [hposition] at h
    exact Delivered.turn h turn
  | closesFailed out failed hposition =>
    rw [hposition] at h
    exact (Delivered.same h (redrawn_flush s out).texts).delivering
  | counts turn hposition =>
    rw [hposition] at h
    exact Delivered.counts h turn
  | skips turn results call rest reason hposition =>
    rw [hposition] at h
    exact Delivered.same h (redrawn_skip s call reason).texts
  | skipped turn results hposition =>
    rw [hposition] at h
    exact (Delivered.results h results).delivering
  | settles b next hposition hrest hnext =>
    rw [hposition] at h
    rcases hnext with ⟨ended, rfl⟩ | rfl
    · exact (Delivered.results h b.results).delivering
    · exact Delivered.results h b.results
  | passes b call rest limited reason hposition =>
    rw [hposition] at h
    exact Delivered.same h (redrawn_skip s call reason).texts
  | calls b call rest hposition =>
    rw [hposition] at h
    exact Delivered.same h (redrawn_add s _).texts
  | works b call item stage next t counter happened hposition hcall =>
    rw [hposition] at h
    obtain ⟨asks, remembered, hredrawn⟩ := hcall.frame
    have hasked : Delivered { s with asks := asks, remembered := remembered } :=
      Delivered.same h ⟨rfl, rfl, rfl, rfl, rfl, rfl⟩
    exact hasked.same hredrawn.texts
  | finishes b call item state text answer hposition =>
    rw [hposition] at h
    exact Delivered.same h (redrawn_changeTool s item
      fun tool => { tool with state := state, result := text }).texts
  | ends ending hposition =>
    rw [hposition] at h
    obtain ⟨hdelivering, hsynced⟩ := Delivering.ended h e.now ending
    exact ⟨hdelivering.record hsynced, hdelivering, hsynced⟩

end Runs

/-! ## Every interleaving -/

/-- What is kept up, for no message to be lost. -/
def delivering : Upkeep where
  good kept := kept.Delivering
  idle _ s := Delivering s s.queue ∧ Synced s
  busy _ s r := r.position.Delivering s
  told _ := True

section Reachable

variable {c : Config}

/-- What does not touch the texts leaves them where they are. -/
theorem Position.Delivering.same {s t : Session} {position : Position} (h : position.Delivering s)
    (hsame : SameTexts s t) : position.Delivering t := by
  cases position with
  | building chosen queue => exact ⟨hsame.queue.trans h.1, h.2.same hsame⟩
  | streaming | returned | turned | skipping | deciding | calling => exact Delivered.same h hsame
  | keeping kept | saving kept =>
    refine ⟨h.1, ?_, h.2.2.same hsame⟩
    rw [hsame.queue]
    exact h.2.1.same hsame
  | closing =>
    refine ⟨?_, h.2.same hsame⟩
    rw [hsame.queue]
    exact h.1.same hsame
  | _ =>
    change Assistant.Delivering t t.queue
    rw [hsame.queue]
    exact Assistant.Delivering.same h hsame

/-- **Messages are kept up** by every step, where the queue is lost in neither way. -/
theorem keeps_delivering (c : Config) : Keeps c delivered 0 delivering where
  told_nil := trivial
  told_aside _ _ _ _ := trivial
  version kept v h := ⟨h.before, h.after⟩
  new h id address chosen now _ :=
    ⟨⟨fun _ => rfl, fun hanswered => (by cases hanswered)⟩, fun chat hchat => (by cases hchat)⟩
  restored h kept address sent _ hgood hlimit := by
    have hqueued : kept.queued = [] := hlimit
    obtain ⟨hbefore, hafter⟩ := hgood
    rw [hqueued] at hbefore hafter
    exact ⟨⟨hbefore, hafter⟩, fun chat hchat => (by cases hchat)⟩
  recorded h s hidle := hidle.1.record hidle.2
  speaks h s now text composed about hidle := by
    refine ⟨⟨fun hanswered => ?_, fun hanswered => ?_⟩, hidle.2⟩
    · have hold := hidle.1.before hanswered
      change s.said ++ (s.queue ++ [composed]) = s.accepted ++ [composed]
      rw [← List.append_assoc, hold]
    · obtain ⟨carried, hcarries, hold⟩ := hidle.1.after hanswered
      refine ⟨carried, hcarries, ?_⟩
      change carried ++ (s.queue ++ [composed]) = s.accepted ++ [composed]
      rw [← List.append_assoc, hold]
  starts h s hidle := hidle.1.same (redrawn_emit s _).texts
  idle_renamed h s title hidle :=
    ⟨hidle.1.same ⟨rfl, rfl, rfl, rfl, rfl, rfl⟩, hidle.2.same ⟨rfl, rfl, rfl, rfl, rfl, rfl⟩⟩
  busy_renamed h s r title hbusy := Position.Delivering.same hbusy ⟨rfl, rfl, rfl, rfl, rfl, rfl⟩
  idle_decides h s item decision _ hidle :=
    ⟨hidle.1.same ⟨rfl, rfl, rfl, rfl, rfl, rfl⟩, hidle.2.same ⟨rfl, rfl, rfl, rfl, rfl, rfl⟩⟩
  busy_decides h s r item decision _ hbusy :=
    Position.Delivering.same hbusy ⟨rfl, rfl, rfl, rfl, rfl, rfl⟩
  stops h s r hbusy _ := hbusy
  idle_elsewhere h s event _ hidle := hidle
  busy_elsewhere h s r event _ _ hbusy := hbusy
  run h e s r choice m _ hbusy _ hlimit hmove := ⟨Position.Delivering.move hbusy hlimit hmove, trivial⟩
  keeping h s r kept next hbusy hposition hnext := by
    have hdelivering : r.position.Delivering s := hbusy
    rw [hposition] at hdelivering
    rcases hnext with rfl | rfl
    · exact hdelivering.2
    · exact hdelivering
  saving h s r kept hbusy hposition := by
    have hdelivering : r.position.Delivering s := hbusy
    rw [hposition] at hdelivering
    exact hdelivering
  closing h s r hbusy hposition := by
    have hdelivering : r.position.Delivering s := hbusy
    rw [hposition] at hdelivering
    exact ⟨hdelivering.1.same (redrawn_emit s _).texts, hdelivering.2.same (redrawn_emit s _).texts⟩

/-- **No message is lost** between the person and the model, in every run of the manager that loses
    the queue in neither way: when a turn succeeds, the chat's history carries the texts that were
    accepted, in order and each once. -/
theorem no_message_lost {t : Threads World Errand}
    (ht : (manager c).Reachable delivered.condition.OkLife t) :
    ∀ r s out turn, t.shared.running = some r → t.shared.sessions[r.id]? = some s →
      r.position = .returned out (.ok turn) →
      ∃ chat, s.chat = some chat ∧ Carries chat.history s.accepted := by
  intro r s out turn hr hs hposition
  have hbusy : r.position.Delivering s := ((keeps_delivering c).reachable ht).shared.busy r s hr hs
  rw [hposition] at hbusy
  exact hbusy.chat

end Reachable

/-- A turn that succeeds. -/
def ordersTurned : List (Program.Life Errand Say Around) :=
  ordersSent ++ runs [.go, .go, .service none, .turn (.ok ordersTurn)]

/-- The first text of a conversation reaches the model. -/
theorem no_message_lost_orders :
    ∃ s, (ordersAfter ordersTurned).shared.sessions[ordersID]? = some s ∧
      s.accepted = ["publish it"] ∧ ∃ chat, s.chat = some chat ∧ Carries chat.history s.accepted := by
  let blank := newSession ordersID 0 ordersService 1
  let r := (ordersAfter ordersTurned).shared.running.getD (Run.new blank)
  let s := ((ordersAfter ordersTurned).shared.sessions[ordersID]?).getD blank
  have hrun : (manager ordersConfig).Permitted delivered.condition.OkLife ⟨ordersWindow, ∅⟩
        ordersTurned ∧
      (ordersAfter ordersTurned).shared.running = some r ∧
      (ordersAfter ordersTurned).shared.sessions[r.id]? = some s ∧
      (ordersAfter ordersTurned).shared.sessions[ordersID]? = some s ∧
      r.position = .returned .empty (.ok ordersTurn) ∧ s.accepted = ["publish it"] := by
    decide +kernel
  obtain ⟨hpermitted, hr, hheld, hs, hposition, haccepted⟩ := hrun
  have hreachable : (manager ordersConfig).Reachable delivered.condition.OkLife
      (ordersAfter ordersTurned) :=
    (Machine.Reachable.start ordersWindow_start).endOf hpermitted
  exact ⟨s, hs, haccepted, no_message_lost hreachable r s _ _ hr hheld hposition⟩

/-! ## A queue that is lost -/

/-- The texts of a message that is no text joined of several. -/
def Message.texts : Message → List String
  | .blocks content => textsOf content
  | _ => []

/-- A message that may join several texts. -/
def Message.joins : Message → Bool
  | .user _ => true
  | _ => false

/-- Where no texts are joined, a history carries what its messages say. -/
theorem Carries.texts {history : List Message} {texts : List String} (h : Carries history texts)
    (hjoins : history.all (fun message => !message.joins) = true) :
    texts = history.flatMap Message.texts := by
  induction h with
  | nil => rfl
  | @concat history texts group message _ hsaid ih =>
    simp only [List.all_append, Bool.and_eq_true] at hjoins
    rw [ih hjoins.1, List.flatMap_append]
    cases message with
    | user content => simp [Message.joins] at hjoins
    | tool callID content | assistant text calls =>
      obtain rfl := hsaid
      simp [Message.texts]
    | blocks blocks =>
      obtain rfl := hsaid
      simp [Message.texts]

/-- A turn succeeded on a history that does not carry what was accepted. -/
def World.loses (w : World) : Bool :=
  w.running.any fun r => (w.sessions[r.id]?).any fun s =>
    s.chat.any fun chat => chat.history.all (fun message => !message.joins) &&
      chat.history.flatMap Message.texts ≠ s.accepted &&
        match r.position with
        | .returned _ (.ok _) => true
        | _ => false

theorem World.loses_iff {w : World} (h : w.loses = true) :
    ∃ r s out turn, w.running = some r ∧ w.sessions[r.id]? = some s ∧
      r.position = .returned out (.ok turn) ∧
      ∀ chat, s.chat = some chat → ¬ Carries chat.history s.accepted := by
  simp only [World.loses, Option.any_eq_true] at h
  obtain ⟨r, hr, s, hs, chat, hchat, hlost⟩ := h
  simp only [Bool.and_eq_true, decide_eq_true_eq, ne_eq] at hlost
  obtain ⟨⟨hjoins, hne⟩, hposition⟩ := hlost
  split at hposition
  · rename_i out turn hreturned
    refine ⟨r, s, out, turn, hr, hs, hreturned, fun chat' hchat' hcarries => ?_⟩
    obtain rfl := Option.some.inj (hchat.symm.trans hchat')
    exact hne (hcarries.texts hjoins).symm
  · cases hposition

/-- An answered conversation is read back, its service cannot be set up for the next message, and
    then can. -/
def ordersUnreached : List (Program.Life Errand Say Around) :=
  ordersAnswered ++ [none] ++
    called 0 (.send ordersID "once more" "once more" none) [.go, .go, .go, .go, .go] ++
    runs [.go, .go, .service (some ⟨"no such host", "network"⟩), .go, .go, .go, .write Archive.whole,
      .go] ++
    called 1 (.carryOn ordersID) [.go, .go, .go] ++
    runs [.go, .go, .service none, .turn (.ok ordersLastTurn)]

/-- The service is removed before the first run reads the settings, and is back in the next
    process. -/
def ordersRemoved : List (Program.Life Errand Say Around) :=
  ordersSent ++
    [some (.environment (.settings (some ⟨[], "", .approve, 30, ["p"]⟩)))] ++
    runs [.go, .go, .go, .write Archive.whole, .go] ++
    [none, some (.environment (.settings (some ⟨[ordersService], "p", .approve, 30, ["p"]⟩)))] ++
    called 0 (.carryOn ordersID) [.go, .go, .go, .go, .go] ++
    runs [.go, .go, .service none, .turn (.ok ordersLastTurn)]

/-- A reachable state in which a turn has come back and its history lacks a message. -/
def QueueLost (w : Threads World Errand) : Prop :=
  (manager ordersConfig).Reachable Machine.Always w ∧
    ∃ r s out turn, w.shared.running = some r ∧ w.shared.sessions[r.id]? = some s ∧
      r.position = .returned out (.ok turn) ∧
      ∀ chat, s.chat = some chat → ¬ Carries chat.history s.accepted

/-- **The queue is lost** with a chat that could not be built, and by being read back. -/
theorem queue_lost :
    QueueLost (ordersAfter ordersUnreached) ∧ QueueLost (ordersAfter ordersRemoved) := by
  have hloses : (ordersAfter ordersUnreached).shared.loses = true ∧
      (ordersAfter ordersRemoved).shared.loses = true := by
    decide +kernel
  constructor
  · exact ⟨ordersAfter_reachable _, World.loses_iff hloses.1⟩
  · exact ⟨ordersAfter_reachable _, World.loses_iff hloses.2⟩

end MqStudio.Assistant
