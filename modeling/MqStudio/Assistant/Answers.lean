import MqStudio.Assistant.Upkeep

/-!
# Every Call Gets One Answer

A model service refuses a request whose history leaves a call without its result, or has one too
many. The results of a turn come from every path a call can take, a stop, a limit and a turn that
was cut short among them; each leaves exactly one, in the order of the calls.

## Main definitions

- `executed`: the tools run since a run began.
- `Answering`: what a conversation owes the model where its run stands.

## Main results

- `every_call_answered`: nothing is owed when a turn is asked for, a run executes no more tools
  than its limit, and it leaves no card under way and no question waiting.
-/

namespace MqStudio.Assistant

open MqStudio.Lib

/-! ## The tools a run executes -/

/-- The tools run for the conversation at an address since the latest run on it began. -/
def executed (address : Nat) : List Happening → Nat
  | [] => 0
  | .began other :: earlier => if other = address then 0 else executed address earlier
  | .ran other _ _ _ _ _ :: earlier =>
    if other = address then executed address earlier + 1 else executed address earlier
  | _ :: earlier => executed address earlier

section Executed

variable {address : Nat} {h : List Happening} {event : Happening}

theorem executed_aside (haside : event.aside = true) :
    executed address (event :: h) ≤ executed address h := by
  cases event with
  | began other =>
    simp only [executed]
    split <;> omega
  | foreign | stopped | decided => exact le_rfl
  | _ => cases haside

/-- What happens elsewhere is no tool run here. -/
theorem executed_elsewhere {s : Session} (helsewhere : Elsewhere s event) :
    executed s.address (event :: h) = executed s.address h := by
  cases event with
  | began | ran => exact if_neg helsewhere
  | _ => rfl

end Executed

/-- A call that stands here may still run its tool. -/
def Stage.pending : Stage → Nat
  | .abandoning _ | .finishing .. | .refusing .. | .settling .. => 0
  | _ => 1

/-- The run may still run the tool of the call it works on. -/
def Position.pending : Position → Nat
  | .calling _ _ _ stage => stage.pending
  | _ => 0

/-! ## Where a conversation stands -/

/-- No card is under way, no question waits, and what is kept of the history owes nothing. -/
structure Settled (s : Session) : Prop where
  quiet : ∀ item ∈ s.items, item.settled = true
  unasked : s.asks = []
  answered : ∀ p ∈ s.answers, p.1 ≤ s.next
  history : ∀ history, s.history = some history → owed history = some []

/-- The same of a record. -/
structure Record.Settled (kept : Record) : Prop where
  quiet : ∀ item ∈ kept.items, item.settled = true
  history : ∀ history, kept.history = some history → owed history = some []

/-- Nothing is owed. -/
def Clear (s : Session) : Prop := ∀ chat, s.chat = some chat → owed chat.history = some []

/-- The results of these calls are owed. -/
def Owes (s : Session) (ids : List String) : Prop :=
  ∃ chat, s.chat = some chat ∧ owed chat.history = some ids

/-- The stages before the question of a write is put. -/
def Stage.unasked : Stage → Bool
  | .numbering .. | .connecting .. | .questioning _ | .noting .. | .consulting _ | .posing .. => true
  | _ => false

/-- The question of a call, where the call stands: it waits until it is answered or given up. -/
def Asked (s : Session) (item : Nat) : Stage → Prop
  | .waiting _ _ => (s.asks = [item] ∧ ∀ p ∈ s.answers, p.1 < item) ∨ s.asks = []
  | .abandoning _ => s.asks = [item] ∨ s.asks = []
  | stage => s.asks = [] ∧ (stage.unasked = true → ∀ p ∈ s.answers, p.1 < item)

/-- A call ends with a card that says how, and with a result of its own. -/
def Stage.Ends (call : ToolCall) : Stage → Prop
  | .settling state _ answer => state.settled = true ∧ answer.callID = call.id
  | .refusing _ state _ _ => state.settled = true
  | _ => True

/-- A call is worked on: only its own card, the last one, is under way. -/
structure Working (s : Session) (call : ToolCall) (item : Nat) (stage : Stage) : Prop where
  shown : ∃ init one, s.items = init ++ [one] ∧ one.id = item ∧ ∀ other ∈ init, other.settled = true
  newest : item = s.next
  answered : ∀ p ∈ s.answers, p.1 ≤ s.next
  history : ∀ history, s.history = some history → owed history = some []
  asked : Asked s item stage
  ending : stage.Ends call

/-- **What is owed where a run stands.** -/
def Answering (s : Session) : Position → Prop
  | .streaming _ => Settled s ∧ Owes s []
  | .returned _ (.ok turn) | .turned turn => Settled s ∧ Owes s (turn.calls.map ToolCall.id)
  | .skipping _ results rest =>
    Settled s ∧ Owes s (results.map CallResult.callID ++ rest.map ToolCall.id)
  | .deciding b => Settled s ∧ Owes s (b.results.map CallResult.callID ++ b.rest.map ToolCall.id)
  | .calling b call item stage =>
    Working s call item stage ∧
      Owes s (b.results.map CallResult.callID ++ call.id :: b.rest.map ToolCall.id)
  | .keeping kept | .saving kept => kept.Settled ∧ Settled s ∧ Clear s
  | _ => Settled s ∧ Clear s

/-! ## Changes of a conversation -/

section Changes

variable {s t : Session} {call : ToolCall} {item : Nat} {stage : Stage}

/-- What the window is shown says nothing of the chat. -/
theorem Redrawn.chat (h : Redrawn s t) : t.chat = s.chat := by
  obtain ⟨_, _, _, _, rfl⟩ := h
  rfl

theorem Owes.redrawn {ids : List String} (h : Owes s ids) (hredrawn : Redrawn s t) : Owes t ids := by
  unfold Owes
  rw [hredrawn.chat]
  exact h

theorem Clear.redrawn (h : Clear s) (hredrawn : Redrawn s t) : Clear t := by
  unfold Clear
  rw [hredrawn.chat]
  exact h

/-- What is owed to nobody is owed in no chat. -/
theorem Owes.clear (h : Owes s []) : Clear s := by
  intro chat hchat
  obtain ⟨chat', hchat', howed⟩ := h
  obtain rfl := Option.some.inj (hchat.symm.trans hchat')
  exact howed

theorem Settled.add (h : Settled s) {shown : Item} (hshown : shown.settled = true) :
    Settled (s.add shown) where
  quiet one hone := by
    rcases List.mem_append.mp hone with hold | hnew
    · exact h.quiet one hold
    · rw [List.mem_singleton.mp hnew]
      exact hshown
  unasked := h.unasked
  answered p hp := Nat.le_succ_of_le (h.answered p hp)
  history := h.history

theorem Settled.append (h : Settled s) (id : Nat) (text : String) : Settled (s.append id text) := by
  unfold Session.append
  split
  · exact h
  · rename_i items one hchange
    obtain ⟨before, x, after, hsplit, -, rfl, rfl, -⟩ := Updates.changeLast_eq_some hchange
    refine ⟨fun other hother => ?_, h.unasked, h.answered, h.history⟩
    have hquiet := h.quiet
    rw [hsplit] at hquiet
    rcases List.mem_append.mp hother with hbefore | hafter
    · exact hquiet other (List.mem_append_left _ hbefore)
    · rcases List.mem_cons.mp hafter with rfl | hrest
      · exact hquiet x (List.mem_append_right _ List.mem_cons_self)
      · exact hquiet other (List.mem_append_right _ (List.mem_cons_of_mem _ hrest))

theorem Settled.send (h : Settled s) (opened : Option (Nat × ItemKind)) (piece : Delta) :
    Settled (Stream.send s opened piece).1 := by
  unfold Stream.send
  split
  · split
    · exact h.append _ _
    · exact h.add rfl
  · exact h.add rfl

theorem Settled.sendAll (h : Settled s) (opened : Option (Nat × ItemKind)) (pieces : List Delta) :
    Settled (Stream.sendAll s opened pieces).1 := by
  induction pieces generalizing s opened with
  | nil => exact h
  | cons piece rest ih => exact ih (h.send opened piece) _

theorem Settled.flush (h : Settled s) (out : Stream) : Settled (out.flush s).1 :=
  h.sendAll _ _

theorem Settled.record (h : Settled s) : s.record.Settled := ⟨h.quiet, h.history⟩

/-- The card that is worked on is the one a change finds. -/
theorem change_shown {init : List Item} {one : Item} (hitems : s.items = init ++ [one])
    (hone : one.id = item) (f : Item → Item) :
    (s.change item f).items = init ++ [f one] := by
  have hfound : decide (one.id = item) = true := by simpa using hone
  have hchange : Updates.changeLast (fun one => decide (one.id = item)) f (init ++ [one]) =
      some (init ++ [f one], f one) := Updates.changeLast_concat hfound
  simp [Session.change, hitems, hchange, Session.emit]

end Changes

/-! ## Calls -/

section Calls

variable {c : Config} {e : Surroundings} {s t : Session} {r : Run} {choice : Choice}
  {call : ToolCall} {item : Nat} {stage next : Stage}

/-- A card is added, and the call is worked on. -/
theorem Settled.dispatch (h : Settled s) (c : Config) (tools : List Agent.Tool) (call : ToolCall) :
    Working (s.add (.card (card call))) call (s.next + 1) (dispatch c tools call) where
  shown := ⟨s.items, _, rfl, rfl, h.quiet⟩
  newest := rfl
  answered p hp := Nat.le_succ_of_le (h.answered p hp)
  history := h.history
  asked := by
    have hbefore : ∀ p ∈ s.answers, p.1 < s.next + 1 := fun p hp => Nat.lt_succ_of_le (h.answered p hp)
    have hasked : s.asks = [] ∧
        ((Assistant.dispatch c tools call).unasked = true → ∀ p ∈ s.answers, p.1 < s.next + 1) :=
      ⟨h.unasked, fun _ => hbefore⟩
    unfold Assistant.dispatch at hasked ⊢
    split
    · exact ⟨h.unasked, fun _ => hbefore⟩
    · split
      · exact ⟨h.unasked, fun _ => hbefore⟩
      · split <;> exact ⟨h.unasked, fun _ => hbefore⟩
  ending := by
    unfold Assistant.dispatch
    split
    · exact ⟨rfl, rfl⟩
    · split
      · exact ⟨rfl, rfl⟩
      · split <;> trivial

/-- A call goes on without the window being shown anything. -/
theorem Working.on (h : Working s call item stage) (hasked : Asked s item next)
    (hends : next.Ends call) : Working s call item next :=
  ⟨h.shown, h.newest, h.answered, h.history, hasked, hends⟩

/-- A call goes on, and its card with it. -/
theorem Working.shows (h : Working s call item stage) (asks : List Nat)
    (hasked : Asked { s with asks := asks } item next) (hends : next.Ends call)
    (f : ToolItem → ToolItem) :
    Working ({ s with asks := asks }.changeTool item f) call item next := by
  obtain ⟨init, one, hitems, hone, hquiet⟩ := h.shown
  have hchanged : ({ s with asks := asks }.changeTool item f).items = init ++ [one.onTool f] :=
    change_shown (s := { s with asks := asks }) hitems hone _
  obtain ⟨_, _, _, _, hredrawn⟩ := redrawn_changeTool { s with asks := asks } item f
  have hnext : ({ s with asks := asks }.changeTool item f).next = s.next := by
    simp only [Session.changeTool, Session.change]
    split <;> rfl
  refine ⟨⟨init, one.onTool f, hchanged, hone, hquiet⟩, by rw [hnext]; exact h.newest, ?_, ?_, ?_,
    hends⟩
  · rw [hnext, hredrawn]
    exact h.answered
  · rw [hredrawn]
    exact h.history
  · rw [hredrawn]
    exact hasked

/-- The call is over: its card says how, and nothing is under way. -/
theorem Working.settle {state : ToolState} {text : String} {answer : CallResult}
    (h : Working s call item (.settling state text answer)) :
    Settled (s.changeTool item fun tool => { tool with state := state, result := text }) := by
  have hends : (Stage.settling state text answer).Ends call := h.ending
  have hafter := h.shows s.asks h.asked hends
    fun tool => { tool with state := state, result := text }
  obtain ⟨init, one, hitems, hone, hquiet⟩ := h.shown
  refine ⟨fun other hother => ?_, hafter.asked.1, hafter.answered, hafter.history⟩
  rw [Session.changeTool, change_shown hitems hone] at hother
  rcases List.mem_append.mp hother with hold | hnew
  · exact hquiet other hold
  · rw [List.mem_singleton.mp hnew]
    cases htool : one.tool with
    | none => simp [Item.onTool, Item.settled, htool]
    | some tool =>
      simp only [Item.onTool, Item.settled, htool, Option.map_some, Option.all_some]
      exact hends.1

/-- A question that is not put, or no longer, waits for nobody. -/
theorem asked_over (h : s.asks = []) (hover : stage.unasked = false) : Asked s item stage := by
  have hnone : stage.unasked = true → ∀ p ∈ s.answers, p.1 < item := by
    intro htrue
    rw [hover] at htrue
    cases htrue
  cases stage with
  | waiting => exact .inr h
  | abandoning => exact .inr h
  | _ => exact ⟨h, hnone⟩

/-- An answer that is taken was given to this question, which waits no more. -/
theorem Working.unasked {w : Write} {agreed : Option Model.ConnectionProfile} {decided : Decision}
    (h : Working s call item (.waiting w agreed)) (hanswer : s.answers.lookup item = some decided) :
    s.asks = [] := by
  rcases h.asked with ⟨-, hbefore⟩ | hnone
  · obtain ⟨before, after, hsplit, -⟩ := List.lookup_eq_some_iff.mp hanswer
    have hmem : (item, decided) ∈ s.answers := by
      rw [hsplit]
      exact List.mem_append_right _ List.mem_cons_self
    exact absurd (hbefore _ hmem) (Nat.lt_irrefl item)
  · exact hnone

/-- **A step of a call** leaves it worked on. -/
theorem Working.move (h : Working s call item stage) {counter : Nat} {happened : List Happening}
    (hmove : CallMove c e s r call item choice stage t next counter happened) :
    Working t call item next := by
  cases hmove with
  | reads tool input outcome =>
    apply h.on
    · cases outcome <;> exact asked_over h.asked.1 rfl
    · cases outcome <;> exact ⟨rfl, rfl⟩
  | numbers | questions | notes | consults => exact h.on h.asked trivial
  | connects w connection =>
    have hasked : Asked s item (.questioning w) := h.asked
    exact h.shows _ hasked trivial _
  | considers w connection =>
    have hasked : Asked s item (.consulting w) := h.asked
    exact h.shows _ hasked trivial _
  | remembers w connection =>
    have hasked : Asked s item (.rereading w ⟨none, .session⟩) := asked_over h.asked.1 rfl
    exact h.shows _ hasked trivial _
  | poses w agreed ask =>
    have hasked : Asked { s with asks := item :: s.asks } item (.waiting w agreed) := by
      refine .inl ⟨?_, h.asked.2 rfl⟩
      rw [h.asked.1]
    exact h.shows _ hasked trivial _
  | declines w agreed decided text hchoice hanswer =>
    exact h.on (asked_over (h.unasked hanswer) rfl) rfl
  | confirms w profile decided hchoice hanswer =>
    exact h.on (asked_over (h.unasked hanswer) rfl) trivial
  | approves w decided hchoice hanswer =>
    exact h.on (asked_over (h.unasked hanswer) rfl) trivial
  | approvesAll w decided hchoice hanswer =>
    exact ⟨h.shown, h.newest, h.answered, h.history, asked_over (h.unasked hanswer) rfl, trivial⟩
  | gives w agreed =>
    have hasked : Asked s item (.abandoning w) := by
      rcases h.asked with ⟨hasks, -⟩ | hnone
      · exact .inl hasks
      · exact .inr hnone
    exact h.on hasked trivial
  | abandons w text =>
    -- whatever waited is taken back
    have hnone : s.asks.erase item = [] := by
      rcases h.asked with hasks | hnone
      · rw [hasks, List.erase_cons_head]
      · rw [hnone, List.erase_nil]
    exact ⟨h.shown, h.newest, h.answered, h.history, ⟨hnone, fun hf => (by cases hf)⟩, rfl⟩
  | refuses w stage error text hrefusable =>
    cases stage with
    | questioning | consulting | rereading | comparing => exact h.on (asked_over h.asked.1 rfl) rfl
    | _ => cases hrefusable
  | finishes w outcome failed appended =>
    apply h.on
    · cases outcome <;> exact asked_over h.asked.1 rfl
    · cases outcome <;> exact ⟨rfl, rfl⟩
  | keeps w state error text outcome => exact h.on (asked_over h.asked.1 rfl) ⟨h.ending, rfl⟩
  | notesUnrecorded | startsUnrecorded | rereadsOff => exact h.on (asked_over h.asked.1 rfl) rfl
  | marks w pass =>
    have hasked : Asked s item (.running w pass) := asked_over h.asked.1 rfl
    exact h.shows _ hasked trivial _
  | rereads | rereadsLast | compares | starts | runs =>
    exact h.on (asked_over h.asked.1 rfl) trivial

/-- **The tools run are counted**: a step of a call runs one at most, and only where it may. -/
theorem CallMove.executed {counter : Nat} {happened h : List Happening}
    (hmove : CallMove c e s r call item choice stage t next counter happened) :
    executed s.address (happened ++ h) + next.pending ≤
      Assistant.executed s.address h + stage.pending := by
  cases hmove with
  | reads tool input outcome => cases outcome <;> simp [Assistant.executed, settled, Stage.pending]
  | runs => simp [Assistant.executed, Stage.pending]
  | finishes w outcome => cases outcome <;> simp [Assistant.executed, settled, Stage.pending]
  | refuses w stage error text hrefusable =>
    cases stage with
    | questioning | consulting | rereading | comparing => exact Nat.le_succ _
    | _ => cases hrefusable
  | _ => simp [Assistant.executed, Stage.pending]

/-- None of them is run elsewhere. -/
theorem CallMove.executed_elsewhere {counter : Nat} {happened h : List Happening}
    (hmove : CallMove c e s r call item choice stage t next counter happened) {address : Nat}
    (hne : s.address ≠ address) :
    Assistant.executed address (happened ++ h) = Assistant.executed address h := by
  cases hmove <;> simp [Assistant.executed, hne]

end Calls

/-! ## Runs -/

section Runs

variable {c : Config} {e : Surroundings} {s t : Session} {r : Run} {choice : Choice} {m : Moved}

/-- Nothing of what has to be settled differs. -/
theorem Settled.same (h : Settled s) (hitems : t.items = s.items) (hasks : t.asks = s.asks)
    (hanswers : t.answers = s.answers) (hnext : t.next = s.next) (hhistory : t.history = s.history) :
    Settled t := by
  obtain ⟨hquiet, hunasked, hanswered, hkept⟩ := h
  rw [← hitems] at hquiet
  rw [← hasks] at hunasked
  rw [← hanswers, ← hnext] at hanswered
  rw [← hhistory] at hkept
  exact ⟨hquiet, hunasked, hanswered, hkept⟩

/-- The chat that is readied owes nothing. -/
theorem ready_answering {chosen : Provider} {queue : List String} {failed : Option Failure}
    {next : Position} (h : Settled s) (hclear : Clear s)
    (hready : ready s r chosen queue failed = some (t, next)) : Answering t next := by
  unfold ready at hready
  split at hready
  · dsimp only at hready
    split at hready
    · cases hready
      exact ⟨h.same rfl rfl rfl rfl rfl, hclear⟩
    · cases hready
      exact ⟨h.same rfl rfl rfl rfl rfl, _, rfl, owed_users rfl _⟩
  · split at hready
    · split at hready
      · cases hready
        exact ⟨h, hclear⟩
      · cases hready
        refine ⟨h.same rfl rfl rfl rfl rfl, _, rfl, owed_users ?_ _⟩
        -- a history that was kept owed nothing either
        cases hhistory : s.history with
        | none => rfl
        | some history => exact h.history history hhistory
    · rename_i chat hchat
      have howed : owed (chat.users queue).history = some [] := owed_users (hclear chat hchat) _
      have hoffered : Clear { s with
          chat := some ((chat.users queue).offer (r.tools.map Agent.Tool.name)) } := by
        intro chat' hchat'
        cases hchat'
        exact howed
      dsimp only at hready
      split at hready
      · split at hready
        · cases hready
        · cases hready
          exact ⟨h.same rfl rfl rfl rfl rfl, _, rfl, howed⟩
      · split at hready
        · cases hready
          exact ⟨h.same rfl rfl rfl rfl rfl, hoffered⟩
        · cases hready
          exact ⟨h.same rfl rfl rfl rfl rfl, _, rfl, howed⟩

/-- The record is taken once nothing is owed. -/
theorem Settled.ended (h : Settled s) (hclear : Clear s) (now : Nat) (ending : Option Ending) :
    Settled (ended s now ending) ∧ Clear (ended s now ending) := by
  have htold : ∀ told : Session, Settled told → Clear told →
      Settled (Assistant.ended told now none) := by
    intro told hsettled hpaid
    refine ⟨hsettled.quiet, hsettled.unasked, hsettled.answered, fun history hhistory => ?_⟩
    cases hchat : told.chat with
    | none => exact hsettled.history history (by simpa [Assistant.ended, hchat] using hhistory)
    | some chat =>
      obtain rfl : chat.history = history := by simpa [Assistant.ended, hchat] using hhistory
      exact hpaid chat hchat
  cases ending with
  | none => exact ⟨htold s h hclear, hclear⟩
  | some ended =>
    have hnoticed : Clear (s.add (.noticed ended.notice ended.detail ended.reason)) :=
      hclear.redrawn (redrawn_add s _)
    exact ⟨htold _ (h.add rfl) hnoticed, hnoticed⟩

/-- One more turn is owed the results of its calls. -/
theorem Owes.turn (h : Owes s []) (turn : Turn) :
    Owes { s with chat := s.chat.map fun chat => chat.next turn } (turn.calls.map ToolCall.id) := by
  obtain ⟨chat, hchat, howed⟩ := h
  exact ⟨chat.next turn, by rw [hchat]; rfl, owed_addTurn howed turn⟩

/-- The results that are handed over are the ones owed. -/
theorem Owes.results {results : List CallResult} (h : Owes s (results.map CallResult.callID)) :
    Owes { s with chat := s.chat.map fun chat => chat.results results } [] := by
  obtain ⟨chat, hchat, howed⟩ := h
  exact ⟨chat.results results, by rw [hchat]; rfl, owed_addResults howed chat.kind⟩

/-- A turn that is counted owes results, or none. -/
theorem afterTurn_answering {turn : Turn} (h : Settled s) (howes : Owes s (turn.calls.map ToolCall.id)) :
    Answering s (afterTurn turn) := by
  unfold afterTurn
  split
  · split
    · rename_i hnone
      rw [hnone] at howes
      exact ⟨h, howes.clear⟩
    · exact ⟨h, howes⟩
  · exact ⟨h, howes⟩

/-- **A step of a run** leaves owed what has to be. -/
theorem Answering.move (h : Answering s r.position) (hmove : Move c e s r choice m) :
    Answering m.session m.run.position := by
  cases hmove with
  | unreadable failed hposition | removed ended hposition | blames failed ended hposition =>
    rw [hposition] at h
    exact h
  | prepares settings chosen hposition =>
    rw [hposition] at h
    exact h
  | takes chosen hposition =>
    rw [hposition] at h
    exact ⟨h.1.same rfl rfl rfl rfl rfl, h.2⟩
  | builds chosen queue failed t next hposition hchoice hready =>
    rw [hposition] at h
    exact ready_answering h.1 h.2 hready
  | hears out piece hposition =>
    rw [hposition] at h
    exact h
  | flushes out hposition =>
    rw [hposition] at h
    exact ⟨h.1.flush out, h.2.redrawn (redrawn_flush s out)⟩
  | fails out failed hposition =>
    rw [hposition] at h
    exact ⟨h.1, h.2.clear⟩
  | answers out turn hposition =>
    rw [hposition] at h
    exact ⟨h.1.same rfl rfl rfl rfl rfl, h.2.turn turn⟩
  | flushesLate out outcome hposition =>
    rw [hposition] at h
    cases outcome with
    | error failed => exact ⟨h.1.flush out, h.2.redrawn (redrawn_flush s out)⟩
    | ok turn => exact ⟨h.1.flush out, h.2.redrawn (redrawn_flush s out)⟩
  | closesFailed out failed hposition | closes out turn hposition =>
    rw [hposition] at h
    exact ⟨h.1.flush out, h.2.redrawn (redrawn_flush s out)⟩
  | counts turn hposition =>
    rw [hposition] at h
    exact afterTurn_answering (h.1.same rfl rfl rfl rfl rfl) h.2
  | skips turn results call rest reason hposition =>
    rw [hposition] at h
    refine ⟨h.1.add rfl, ?_⟩
    have howes := h.2.redrawn (redrawn_skip s call reason)
    simpa [quietly, skip] using howes
  | skipped turn results hposition =>
    rw [hposition] at h
    have howes : Owes s (results.map CallResult.callID) := by simpa using h.2
    exact ⟨h.1.same rfl rfl rfl rfl rfl, howes.results.clear⟩
  | settles b next hposition hrest hnext =>
    rw [hposition] at h
    have howes : Owes s (b.results.map CallResult.callID) := by simpa [hrest] using h.2
    rcases hnext with ⟨ended, rfl⟩ | rfl
    · exact ⟨h.1.same rfl rfl rfl rfl rfl, howes.results.clear⟩
    · exact ⟨h.1.same rfl rfl rfl rfl rfl, howes.results⟩
  | passes b call rest limited reason hposition hrest =>
    rw [hposition] at h
    refine ⟨h.1.add rfl, ?_⟩
    have howes := h.2.redrawn (redrawn_skip s call reason)
    simpa [quietly, skip, hrest] using howes
  | calls b call rest hposition hrest =>
    rw [hposition] at h
    refine ⟨h.1.dispatch c r.tools call, ?_⟩
    have howes := h.2.redrawn (redrawn_add s (.card (card call)))
    simpa [quietly, hrest] using howes
  | works b call item stage next t counter happened hposition hcall =>
    rw [hposition] at h
    obtain ⟨asks, remembered, hredrawn⟩ := hcall.frame
    have howes := h.2
    have htold : Owes { s with asks := asks, remembered := remembered }
        (b.results.map CallResult.callID ++ call.id :: b.rest.map ToolCall.id) := howes
    exact ⟨h.1.move hcall, htold.redrawn hredrawn⟩
  | finishes b call item state text answer hposition =>
    rw [hposition] at h
    refine ⟨h.1.settle, ?_⟩
    have howes := h.2.redrawn (redrawn_changeTool s item
      fun tool => { tool with state := state, result := text })
    have hends : answer.callID = call.id := h.1.ending.2
    simpa [quietly, Batch.push, hends] using howes
  | ends ending hposition =>
    rw [hposition] at h
    obtain ⟨hsettled, hclear⟩ := h.1.ended h.2 e.now ending
    exact ⟨hsettled.record, hsettled, hclear⟩

theorem Stage.pending_le (stage : Stage) : stage.pending ≤ 1 := by
  cases stage <;> simp [pending]

/-- A position without a call runs no tool. -/
theorem afterTurn_pending (turn : Turn) : (afterTurn turn).pending = 0 := by
  unfold afterTurn
  split
  · split <;> rfl
  · rfl

theorem ready_pending {chosen : Provider} {queue : List String} {failed : Option Failure}
    {next : Position} (h : ready s r chosen queue failed = some (t, next)) : next.pending = 0 := by
  unfold ready at h
  repeat' split at h
  all_goals first | (cases h; rfl) | cases h

/-- The tools a run executes are counted, and no more than its limit are. -/
theorem Move.executed {h : List Happening} (hmove : Move c e s r choice m)
    (hcounted : Assistant.executed s.address h + r.position.pending ≤ r.calls)
    (hlimit : r.calls ≤ c.limit) :
    Assistant.executed s.address (m.happened ++ h) + m.run.position.pending ≤ m.run.calls ∧
      m.run.calls ≤ c.limit := by
  have hbefore : Assistant.executed s.address h ≤ r.calls := Nat.le_of_add_right_le hcounted
  cases hmove with
  | works b call item stage next t counter happened hposition hcall =>
    rw [hposition] at hcounted
    exact ⟨Nat.le_trans hcall.executed hcounted, hlimit⟩
  | calls b call rest hposition hrest hcancelled hbelow =>
    -- a call that is not skipped counts before anything is run for it
    exact ⟨Nat.add_le_add hbefore (Stage.pending_le _), hbelow⟩
  | builds chosen queue failed t next hposition hchoice hready =>
    refine ⟨?_, hlimit⟩
    have hpending := ready_pending hready
    simpa [quietly, Run.at, hpending] using hbefore
  | counts turn hposition =>
    refine ⟨?_, hlimit⟩
    simpa [quietly, Run.at, afterTurn_pending] using hbefore
  | settles b next hposition hrest hnext =>
    refine ⟨?_, hlimit⟩
    rcases hnext with ⟨ended, rfl⟩ | rfl <;> exact hbefore
  | hears out piece hposition => exact ⟨hbefore, hlimit⟩
  | _ => exact ⟨hbefore, hlimit⟩

/-- None is executed elsewhere. -/
theorem Move.executed_elsewhere {h : List Happening} (hmove : Move c e s r choice m) {address : Nat}
    (hne : s.address ≠ address) :
    Assistant.executed address (m.happened ++ h) = Assistant.executed address h := by
  cases hmove with
  | works b call item stage next t counter happened hposition hcall =>
    exact hcall.executed_elsewhere hne
  | _ => rfl

end Runs

/-! ## Every interleaving -/

/-- What is kept up, for every call to be answered. -/
def answering (c : Config) : Upkeep where
  good kept := kept.Settled
  idle _ s := Settled s ∧ Clear s
  busy h s r := Answering s r.position ∧
    executed s.address h + r.position.pending ≤ r.calls ∧ r.calls ≤ c.limit
  told h := ∀ earlier, earlier <:+ h → ∀ address, executed address earlier ≤ c.limit

section Reachable

variable {c : Config}

/-- One more event is told when it runs no tool too many. -/
theorem answering_told {h : List Happening} {event : Happening} (htold : (answering c).told h)
    (hevent : ∀ address, executed address (event :: h) ≤ c.limit) :
    (answering c).told (event :: h) := by
  intro earlier hsuffix
  rcases List.suffix_cons_iff.mp hsuffix with rfl | hold
  · exact hevent
  · exact htold earlier hold

/-- No question waits where nothing is under way. -/
theorem Settled.not_asked {s : Session} (h : Settled s) {item : Nat} (hitem : item ∈ s.asks) :
    False := by
  rw [h.unasked] at hitem
  cases hitem

/-- Whatever stands where no call is worked on is settled. -/
theorem Answering.settled {s : Session} {position : Position} (h : Answering s position)
    (hcalling : ∀ b call item stage, position ≠ .calling b call item stage) : Settled s := by
  cases position with
  | calling b call item stage => exact absurd rfl (hcalling b call item stage)
  | keeping kept | saving kept => exact h.2.1
  | returned out outcome =>
    cases outcome with
    | error failed => exact h.1
    | ok turn => exact h.1
  | _ => exact h.1

/-- Nothing of what is owed differs. -/
theorem Answering.same {s t : Session} {position : Position} (h : Answering s position)
    (hitems : t.items = s.items) (hasks : t.asks = s.asks) (hanswers : t.answers = s.answers)
    (hnext : t.next = s.next) (hhistory : t.history = s.history) (hchat : t.chat = s.chat) :
    Answering t position := by
  have hsettled : Settled s → Settled t := fun h => h.same hitems hasks hanswers hnext hhistory
  have hclear : Clear s → Clear t := by
    unfold Clear
    rw [hchat]
    exact id
  have howes : ∀ ids, Owes s ids → Owes t ids := by
    unfold Owes
    rw [hchat]
    exact fun _ => id
  cases position with
  | calling b call item stage =>
    refine ⟨⟨?_, ?_, ?_, ?_, ?_, h.1.ending⟩, howes _ h.2⟩
    · rw [hitems]
      exact h.1.shown
    · rw [hnext]
      exact h.1.newest
    · rw [hanswers, hnext]
      exact h.1.answered
    · rw [hhistory]
      exact h.1.history
    · have hasked := h.1.asked
      unfold Asked at hasked ⊢
      rw [hasks, hanswers]
      exact hasked
  | keeping kept | saving kept => exact ⟨h.1, hsettled h.2.1, hclear h.2.2⟩
  | returned out outcome =>
    cases outcome with
    | error failed => exact ⟨hsettled h.1, hclear h.2⟩
    | ok turn => exact ⟨hsettled h.1, howes _ h.2⟩
  | streaming | turned | skipping | deciding => exact ⟨hsettled h.1, howes _ h.2⟩
  | _ => exact ⟨hsettled h.1, hclear h.2⟩

/-- A question that is answered waits no more. -/
theorem Working.decides {s : Session} {call : ToolCall} {item : Nat} {stage : Stage}
    (h : Working s call item stage) {asked : Nat} (hasked : asked ∈ s.asks) (decision : Decision) :
    Working (s.decides asked decision) call item stage := by
  -- it waits only while the call does
  have hnone : ∀ rest : Prop, s.asks = [] ∧ rest → False := by
    rintro rest ⟨hasks, -⟩
    rw [hasks] at hasked
    cases hasked
  have hone : s.asks = [item] ∨ s.asks = [] → asked = item ∧ s.asks.erase asked = [] := by
    rintro (hasks | hasks)
    · rw [hasks] at hasked
      obtain rfl := List.mem_singleton.mp hasked
      rw [hasks, List.erase_cons_head]
      exact ⟨rfl, rfl⟩
    · rw [hasks] at hasked
      cases hasked
  have hwaits : asked = item ∧ s.asks.erase asked = [] → Asked (s.decides asked decision) item stage →
      Working (s.decides asked decision) call item stage := by
    rintro ⟨rfl, -⟩ hstage
    refine ⟨h.shown, h.newest, fun p hp => ?_, h.history, hstage, h.ending⟩
    rcases List.mem_cons.mp hp with rfl | hold
    · exact Nat.le_of_eq h.newest
    · exact h.answered p hold
  cases stage with
  | waiting w agreed =>
    have hasks := hone (h.asked.imp And.left id)
    exact hwaits hasks (.inr hasks.2)
  | abandoning w =>
    have hasks := hone h.asked
    exact hwaits hasks (.inr hasks.2)
  | _ => exact (hnone _ h.asked).elim

/-- **Answers are kept up** by every step. -/
theorem keeps_answering (c : Config) : Keeps c .none 0 (answering c) where
  told_nil := by
    intro earlier hsuffix address
    rw [List.suffix_nil.mp hsuffix]
    exact Nat.zero_le _
  told_aside h event htold haside := by
    apply answering_told htold
    intro address
    exact Nat.le_trans (executed_aside haside) (htold h (List.suffix_refl h) address)
  version kept v h := ⟨h.quiet, h.history⟩
  new h id address chosen now _ :=
    ⟨⟨fun item hitem => (by cases hitem), rfl, fun p hp => (by cases hp),
      fun history hhistory => (by cases hhistory)⟩, fun chat hchat => (by cases hchat)⟩
  restored h kept address sent _ hgood _ :=
    ⟨⟨hgood.quiet, rfl, fun p hp => (by cases hp), hgood.history⟩, fun chat hchat => (by cases hchat)⟩
  recorded h s hidle := hidle.1.record
  speaks h s now text composed about hidle := by
    have hsaid : Settled (s.add (.said .user text)) := hidle.1.add rfl
    exact ⟨hsaid.same rfl rfl rfl rfl rfl, hidle.2⟩
  starts h s hidle := by
    have hnone : executed s.address (.began s.address :: h) = 0 := if_pos rfl
    exact ⟨⟨hidle.1.same rfl rfl rfl rfl rfl, hidle.2⟩, Nat.le_of_eq hnone, Nat.zero_le _⟩
  idle_renamed h s title hidle := ⟨hidle.1.same rfl rfl rfl rfl rfl, hidle.2⟩
  busy_renamed h s r title hbusy := ⟨hbusy.1.same rfl rfl rfl rfl rfl rfl, hbusy.2⟩
  idle_decides h s item decision hitem hidle := (hidle.1.not_asked hitem).elim
  busy_decides h s r item decision hitem hbusy := by
    refine ⟨?_, hbusy.2⟩
    by_cases hcalling : ∃ b call item stage, r.position = .calling b call item stage
    · obtain ⟨b, call, own, stage, hposition⟩ := hcalling
      have hanswering := hbusy.1
      rw [hposition] at hanswering ⊢
      exact ⟨hanswering.1.decides hitem decision, hanswering.2⟩
    · simp only [not_exists] at hcalling
      have hsettled : Settled s := Answering.settled hbusy.1 hcalling
      exact (hsettled.not_asked hitem).elim
  stops h s r hbusy _ := hbusy
  idle_elsewhere h s event _ hidle := hidle
  busy_elsewhere h s r event helsewhere _ hbusy := by
    refine ⟨hbusy.1, ?_, hbusy.2.2⟩
    rw [executed_elsewhere helsewhere]
    exact hbusy.2.1
  run h e s r choice m htold hbusy haddress _ hmove := by
    obtain ⟨hcounted, hlimit⟩ := hmove.executed hbusy.2.1 hbusy.2.2
    have hsame : m.session.address = s.address := hmove.frame.1.2
    refine ⟨⟨hbusy.1.move hmove, by rw [hsame]; exact hcounted, hlimit⟩, ?_⟩
    -- what happened is over before the run goes on
    rcases hmove.one with hnil | ⟨event, hone⟩
    · rw [hnil]
      exact htold
    · have hall : ∀ address, executed address (m.happened ++ h) ≤ c.limit := by
        intro address
        by_cases hhere : s.address = address
        · rw [← hhere]
          exact Nat.le_trans (Nat.le_of_add_right_le hcounted) hlimit
        · rw [hmove.executed_elsewhere hhere]
          exact htold h (List.suffix_refl h) address
      rw [hone] at hall ⊢
      exact answering_told htold hall
  keeping h s r kept next hbusy hposition hnext := by
    obtain ⟨hanswering, hcounted, hlimit⟩ := hbusy
    rw [hposition] at hanswering hcounted
    rcases hnext with rfl | rfl
    · exact ⟨⟨hanswering.2.1, hanswering.2.2⟩, hcounted, hlimit⟩
    · exact ⟨hanswering, hcounted, hlimit⟩
  saving h s r kept hbusy hposition := by
    obtain ⟨hanswering, hcounted, hlimit⟩ := hbusy
    rw [hposition] at hanswering hcounted
    exact ⟨hanswering.1, ⟨hanswering.2.1, hanswering.2.2⟩, hcounted, hlimit⟩
  closing h s r hbusy hposition := by
    have hanswering := hbusy.1
    rw [hposition] at hanswering
    exact ⟨hanswering.1.same rfl rfl rfl rfl rfl, hanswering.2⟩

/-- **Every call gets exactly one answer.** When a turn is asked for, every call the model made
    before has its result, in its turn's order; no run executes more tools than its limit; and a
    run leaves no card under way, no question waiting and nothing owed. -/
theorem every_call_answered {t : Threads World Errand}
    (ht : (manager c).Reachable Machine.Always t) :
    (∀ r s out, t.shared.running = some r → t.shared.sessions[r.id]? = some s →
      r.position = .streaming out → ∃ chat, s.chat = some chat ∧ owed chat.history = some []) ∧
    (∀ earlier, earlier <:+ t.shared.happened → ∀ address, executed address earlier ≤ c.limit) ∧
    ∀ (id : String) (s : Session), t.shared.sessions[id]? = some s →
      t.shared.isRunning s = false →
      (∀ item ∈ s.items, item.settled = true) ∧ s.asks = [] ∧
        ∀ chat, s.chat = some chat → owed chat.history = some [] := by
  have htended := ((keeps_answering c).always ht).shared
  refine ⟨fun r s out hr hs hposition => ?_, htended.told, fun id s hs hrest => ?_⟩
  · have hanswering := (htended.busy r s hr hs).1
    rw [hposition] at hanswering
    exact hanswering.2
  · obtain ⟨hsettled, hclear⟩ := htended.idle id s hs hrest
    exact ⟨hsettled.quiet, hsettled.unasked, hclear⟩

end Reachable

/-! ## A conversation about orders -/

/-- A call arrives under a number, and takes its steps. -/
def called (k : Nat) (p : Errand) (steps : List Say) : List (Program.Life Errand Say Around) :=
  some (.arrive k p) :: steps.map fun say => some (.thread k say)

/-- Steps of the run going. -/
def runs (choices : List Choice) : List (Program.Life Errand Say Around) :=
  choices.map fun choice => some (.environment (.run choice))

/-- A model service. -/
def ordersService : Provider where
  id := "p"
  name := "service"
  kind := .anthropic
  baseURL := "https://service"
  apiKey := "key"
  model := "m"
  proxy := ""
  fallback := false
  named := by decide

/-- A stored connection. -/
def ordersProfile : Model.ConnectionProfile where
  id := 1
  name := "orders"
  group := ""
  kind := .rocketmq
  endpoints := "broker:9876"
  timeoutSec := 5
  auth := ⟨.none⟩
  status := .offline
  lastCheck := ""
  isDefault := false
  remark := ""
  options := none
  secrets := ∅

/-- The arguments of a publish. -/
def ordersArguments : String :=
  "\x7b\"connection\":1,\"destination\":\"orders\",\"body\":\"paid\"\x7d"

/-- The arguments of a deletion. -/
def ordersTarget : String := "\x7b\"connection\":1,\"name\":\"orders\"\x7d"

/-- A manager whose tools read those arguments. -/
def ordersConfig : Config where
  limit := 24
  check tool text :=
    if tool.name = "message_publish" ∧ text = ordersArguments then
      .ok (.publish 1 "orders" "paid" "" "")
    else if tool.name = "destination_delete" ∧ text = ordersTarget then
      .ok (.destinationTarget 1 "orders" "")
    else .error "unexpected end of JSON input"
  describe _ := "not done"
  unreadable := "the settings cannot be read"
  quote name := "\"" ++ name ++ "\""

/-- An application before anything was asked. -/
def ordersWindow : World where
  settings := some ⟨[ordersService], "p", .approve, 30, ["p"]⟩
  connections := (∅ : Connection.Profiles).insert 1 ordersProfile
  now := 1
  calls := 0
  sessions := ∅
  running := none
  archive := emptyArchive
  addresses := 0
  drawn := []
  past := ∅
  happened := []
  deleted := []

/-- The id that is drawn. -/
def ordersID : String := "0123456789ab"

/-- A conversation is started, and something said in it. -/
def ordersSent : List (Program.Life Errand Say Around) :=
  called 0 (.start "") [.go, .draw ordersID] ++
    called 1 (.send ordersID "publish it" "publish it" none) [.go, .go, .go]

/-- A turn that asks for a publish. -/
def ordersTurn : Turn :=
  ⟨"", [⟨"c1", "message_publish", ordersArguments⟩], .tools, "", ⟨1, 1, 0, 0⟩⟩

/-- A turn that asks for nothing. -/
def ordersLastTurn : Turn := ⟨"published", [], .done, "", ⟨1, 1, 0, 0⟩⟩

/-- The model asks for a publish, and its question is put. -/
def ordersAsked : List (Program.Life Errand Say Around) :=
  ordersSent ++ runs [.go, .go, .service none, .turn (.ok ordersTurn), .go, .go, .go, .go, .go,
    .word (some ""), .go]

/-- It is let through once, and the model answers. -/
def ordersAnswered : List (Program.Life Errand Say Around) :=
  ordersAsked ++ called 2 (.decide ordersID 2 ⟨true, false⟩) [.go] ++
    runs [.answer, .go, .append .stored, .go, .run (.done "published" "ok"), .append .stored, .go, .go,
      .turn (.ok ordersLastTurn), .go, .go, .go, .go, .write Archive.whole, .go]

/-- What becomes of the application. -/
def ordersAfter (steps : List (Program.Life Errand Say Around)) : Threads World Errand :=
  (manager ordersConfig).endOf ⟨ordersWindow, ∅⟩ steps

theorem ordersWindow_start : (manager ordersConfig).start ⟨ordersWindow, ∅⟩ :=
  ⟨⟨rfl, rfl, rfl, rfl, rfl, rfl, rfl, rfl, rfl, rfl, rfl⟩, rfl⟩

theorem ordersAfter_reachable (steps : List (Program.Life Errand Say Around)) :
    (manager ordersConfig).Reachable Machine.Always (ordersAfter steps) :=
  (Machine.Reachable.start ordersWindow_start).endOf (Machine.permitted_always _ _ steps)

theorem executed_ordersAnswered : executed 0 (ordersAfter ordersAnswered).shared.happened = 1 := by
  decide +kernel

/-- A publish that is let through is the one tool its run executes. -/
theorem every_call_answered_orders :
    executed 0 (ordersAfter ordersAnswered).shared.happened = 1 ∧
      ∀ earlier, earlier <:+ (ordersAfter ordersAnswered).shared.happened →
        ∀ address, executed address earlier ≤ 24 :=
  ⟨executed_ordersAnswered, (every_call_answered (ordersAfter_reachable ordersAnswered)).2.1⟩

end MqStudio.Assistant
