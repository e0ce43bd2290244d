import MqStudio.Agent.OneYes
import MqStudio.Agent.Trail
import MqStudio.Assistant.Consent

/-!
# The Trail of the Writes

What the writes of both ways in leave in the audit log: those of the MCP server, and those of the
assistant. The server returns where the start of a write could not be recorded; the assistant also
records a refusal, which is one record too many where the line is in the file after all. And the
assistant's conversations outlive the process whose journal numbers their calls.

## Main definitions

- `recordedOnce`: no number is given twice to a conversation, and no start is in the file that was
  said not to be.

## Main results

- `audit_log_well_formed`: the records of every call, of the server and of the assistant.
- `records_too_many`: what is recorded where they are not.
-/

namespace MqStudio.Assistant

open MqStudio.Agent (Append Phase WellFormed phasesIn stageIn stageIn_cons_of stageIn_cons_of_not)
open MqStudio.Lib

/-! ## The log in what happened -/

/-- The line an event put into the log. -/
def Happening.line : Happening → Option Agent.Record
  | .appended record outcome => if outcome.written then some record else none
  | .foreign record => some record
  | _ => none

/-- The log, the latest line first. -/
def logIn (h : List Happening) : List Agent.Record := h.filterMap Happening.line

section Lines

variable {h : List Happening} {event : Happening} {record : Agent.Record}

theorem logIn_cons_of_none (hline : event.line = none) : logIn (event :: h) = logIn h := by
  rw [logIn, List.filterMap_cons, hline]
  rfl

theorem logIn_cons_of_some (hline : event.line = some record) :
    logIn (event :: h) = record :: logIn h := by
  rw [logIn, List.filterMap_cons, hline]
  rfl

end Lines

/-- The start of a write is on record in its run. -/
def StartRecorded (h : List Happening) (address number : Nat) (name : String) : Prop :=
  ∃ record, Happening.appended record .stored ∈ sinceBegan address h ∧ record.phase = .started ∧
    record.call = number ∧ record.tool = name

/-- **A write is run once its start is on record.** -/
def runsStarted (earlier : List Happening) : Happening → Prop
  | .ran address _ tool _ number _ =>
    tool.blast ≠ .read → ∃ n, number = some n ∧ StartRecorded earlier address n tool.name
  | _ => True

/-! ## Where a call stands in the log -/

/-- What the log says a call of a conversation has come to. -/
def stageAt (h : List Happening) (s : Session) (w : Write) : Option Agent.Stage :=
  stageIn (logIn h) s.id w.number

/-- The call can still be refused or started. -/
def StillOpen (h : List Happening) (s : Session) (w : Write) : Prop :=
  ∃ stage, stageAt h s w = some stage ∧ stage.Open

/-- **What is on record where a call stands.** -/
def Stage.Recorded (h : List Happening) (s : Session) : Stage → Prop
  | .reading tool _ => tool.blast = .read
  | .connecting w _ | .questioning w | .noting w _ _ => stageAt h s w = some .unrecorded
  | .consulting w | .posing w _ _ | .waiting w _ | .abandoning w => StillOpen h s w
  | .rereading w _ | .comparing w _ | .starting w _ | .refusing w _ _ _ => StillOpen h s w
  | .marking w _ | .running w _ =>
    stageAt h s w = some .started ∧ StartRecorded h s.address w.number w.tool.name
  | .finishing w _ => stageAt h s w = some .started
  | _ => True

/-- A step gives no number again, and no start is in the file that is said not to be. -/
def Position.once (e : Surroundings) (h : List Happening) (s : Session) (choice : Choice) :
    Position → Prop
  | .calling _ _ _ (.numbering ..) => phasesIn (logIn h) s.id (e.calls + 1) = []
  | .calling _ _ _ (.starting ..) => choice ≠ .append .unconfirmed
  | _ => True

instance (e : Surroundings) (h : List Happening) (s : Session) (choice : Choice) :
    (position : Position) → Decidable (position.once e h s choice)
  | .calling _ _ _ (.numbering ..) =>
    inferInstanceAs (Decidable (phasesIn (logIn h) s.id (e.calls + 1) = []))
  | .calling _ _ _ (.starting ..) => inferInstanceAs (Decidable (choice ≠ .append .unconfirmed))
  | .calling _ _ _ (.reading ..) | .calling _ _ _ (.connecting ..) => .isTrue trivial
  | .calling _ _ _ (.questioning ..) | .calling _ _ _ (.noting ..) => .isTrue trivial
  | .calling _ _ _ (.consulting ..) | .calling _ _ _ (.posing ..) => .isTrue trivial
  | .calling _ _ _ (.waiting ..) | .calling _ _ _ (.abandoning ..) => .isTrue trivial
  | .calling _ _ _ (.rereading ..) | .calling _ _ _ (.comparing ..) => .isTrue trivial
  | .calling _ _ _ (.marking ..) | .calling _ _ _ (.running ..) => .isTrue trivial
  | .calling _ _ _ (.finishing ..) | .calling _ _ _ (.refusing ..) => .isTrue trivial
  | .calling _ _ _ (.settling ..) => .isTrue trivial
  | .began | .readying _ | .building .. | .streaming _ | .returned .. | .turned _ => .isTrue trivial
  | .skipping .. | .deciding _ | .failing _ | .ending _ => .isTrue trivial
  | .keeping _ | .saving _ | .closing => .isTrue trivial

/-- **Every call is recorded once**: no number is given twice to a conversation, and no start is in
    the file that was said not to be. -/
def recordedOnce : Limits where
  restore _ := True
  step e h s r choice := r.position.once e h s choice
  stop _ _ := True

instance (kept : Record) : Decidable (recordedOnce.restore kept) := .isTrue trivial

instance (s : Session) (r : Run) : Decidable (recordedOnce.stop s r) := .isTrue trivial

instance (e : Surroundings) (h : List Happening) (s : Session) (r : Run) (choice : Choice) :
    Decidable (recordedOnce.step e h s r choice) :=
  inferInstanceAs (Decidable (r.position.once e h s choice))

section Calls

variable {c : Config} {e : Surroundings} {s t : Session} {r : Run} {choice : Choice}
  {call : ToolCall} {item : Nat} {stage next : Stage} {h : List Happening} {w : Write}
  {event : Happening} {record : Agent.Record} {outcome : Append} {b : Batch}

theorem stageAt_of_none (hline : event.line = none) : stageAt (event :: h) s w = stageAt h s w := by
  rw [stageAt, logIn_cons_of_none hline]
  rfl

/-- A record of the call takes it one stage on. -/
theorem stageAt_of_record (hof : record.Of s.id w.number) (hwritten : outcome.written = true)
    {before : Agent.Stage} (hbefore : stageAt h s w = some before) :
    stageAt (.appended record outcome :: h) s w = before.after record.phase := by
  have hline : (Happening.appended record outcome).line = some record := by
    simp [Happening.line, hwritten]
  rw [stageAt, logIn_cons_of_some hline]
  exact stageIn_cons_of hof hbefore

/-- A record that was lost leaves it where it stands. -/
theorem stageAt_of_lost (hlost : outcome.written = false) :
    stageAt (.appended record outcome :: h) s w = stageAt h s w :=
  stageAt_of_none (by simp [Happening.line, hlost])

theorem StillOpen.of_none (hopen : StillOpen h s w) (hline : event.line = none) :
    StillOpen (event :: h) s w := by
  obtain ⟨stage, hstage, hstillOpen⟩ := hopen
  exact ⟨stage, (stageAt_of_none hline).trans hstage, hstillOpen⟩

theorem StartRecorded.grows {h' : List Happening} {address number : Nat} {name : String}
    (hstart : StartRecorded h address number name) (hgrows : Grows address h h') :
    StartRecorded h' address number name := by
  obtain ⟨record, hmem, hrest⟩ := hstart
  exact ⟨record, hgrows.1.subset hmem, hrest⟩

/-- An event without a line leaves a call where it stands. -/
theorem Stage.Recorded.of_none (hr : stage.Recorded h s) (hline : event.line = none)
    (hbegan : event ≠ .began s.address) : stage.Recorded (event :: h) s := by
  cases stage with
  | connecting | questioning | noting | finishing => exact (stageAt_of_none hline).trans hr
  | consulting | posing | waiting | abandoning | rereading | comparing | starting | refusing =>
    exact StillOpen.of_none hr hline
  | marking | running =>
    exact ⟨(stageAt_of_none hline).trans hr.1, hr.2.grows (grows_cons hbegan)⟩
  | _ => exact hr

/-- What is on record is of the conversation under its id. -/
theorem Stage.Recorded.same (hr : stage.Recorded h s) (hid : t.id = s.id)
    (haddress : t.address = s.address) : stage.Recorded h t := by
  cases stage with
  | marking | running =>
    obtain ⟨hstage, hstart⟩ := hr
    refine ⟨?_, ?_⟩
    · rw [stageAt, hid]
      exact hstage
    · rw [haddress]
      exact hstart
  | connecting | questioning | noting | finishing =>
    rw [Stage.Recorded, stageAt, hid]
    exact hr
  | consulting | posing | waiting | abandoning | rereading | comparing | starting | refusing =>
    rw [Stage.Recorded, StillOpen, stageAt, hid]
    exact hr
  | _ => exact hr

theorem dispatch_recorded (c : Config) (tools : List Agent.Tool) (call : ToolCall) :
    (dispatch c tools call).Recorded h s := by
  unfold dispatch
  split
  · trivial
  · split
    · trivial
    · split
      · rename_i hread
        exact hread
      · trivial

theorem entry_of (w : Write) (s : Session) : (w.entry s).Of s.id w.number := ⟨rfl, rfl⟩

/-- A call nothing is on record of is still open once it was asked about, recorded or not. -/
theorem stillOpen_asked (hstage : stageAt h s w = some .unrecorded) (outcome : Append) :
    StillOpen (.appended (w.entry s).asked outcome :: h) s w := by
  cases hwritten : outcome.written with
  | true =>
    have hof : (w.entry s).asked.Of s.id w.number := entry_of w s
    exact ⟨.asked, stageAt_of_record hof hwritten hstage, .inr rfl⟩
  | false => exact ⟨.unrecorded, (stageAt_of_lost hwritten).trans hstage, .inl rfl⟩

/-- **A step of a call** leaves on record what has to be. -/
theorem Stage.Recorded.move (hr : stage.Recorded h s) (hposition : r.position = .calling b call item stage)
    (hlimit : r.position.once e h s choice) {counter : Nat} {happened : List Happening}
    (hmove : CallMove c e s r call item choice stage t next counter happened) :
    next.Recorded (happened ++ h) s := by
  rw [hposition] at hlimit
  cases hmove with
  | reads tool input outcome => cases outcome <;> trivial
  | numbers tool input connection =>
    -- a number that was not given before
    have hnone : phasesIn (logIn h) s.id (e.calls + 1) = [] := hlimit
    change stageAt h s _ = _
    rw [stageAt, stageIn, hnone]
    rfl
  | connects | questions => exact hr
  | remembers w | considers w => exact ⟨_, hr, .inl rfl⟩
  | notes w question profile outcome hok => exact stillOpen_asked hr outcome
  | notesUnrecorded w question profile outcome => exact stillOpen_asked hr outcome
  | consults | declines | confirms | approves | approvesAll | gives | abandons => exact hr
  | poses | rereadsOff | rereads | rereadsLast | compares => exact StillOpen.of_none hr rfl
  | refuses w stage error text hrefusable =>
    cases stage with
    | questioning w =>
      cases hrefusable
      exact ⟨_, hr, .inl rfl⟩
    | consulting | rereading | comparing =>
      cases hrefusable
      exact hr
    | _ => cases hrefusable
  | starts w pass outcome hchoice hok =>
    obtain ⟨before, hbefore, hstillOpen⟩ := hr
    have hof : ((w.entry s).started pass.agreed.isSome).Of s.id w.number := entry_of w s
    have hafter : before.after .started = some .started := by
      rcases hstillOpen with rfl | rfl <;> rfl
    cases outcome with
    | stored =>
      refine ⟨(stageAt_of_record hof rfl hbefore).trans hafter,
        (w.entry s).started pass.agreed.isSome, ?_, rfl, rfl, rfl⟩
      rw [List.singleton_append, sinceBegan_cons (by simp)]
      exact List.mem_cons_self
    | _ => cases hok
  | startsUnrecorded w pass outcome text hchoice hok =>
    obtain ⟨before, hbefore, hstillOpen⟩ := hr
    cases outcome with
    | stored => cases hok
    | unconfirmed => exact absurd hchoice hlimit
    | lost => exact ⟨before, (stageAt_of_lost rfl).trans hbefore, hstillOpen⟩
  | marks => exact hr
  | runs => exact (stageAt_of_none rfl).trans hr.1
  | finishes w outcome => cases outcome <;> trivial
  | keeps => trivial

/-- The records of every call of a conversation read as a stage. -/
def Whole (h : List Happening) (id : String) : Prop := ∀ n, (stageIn (logIn h) id n).isSome = true

/-- An event without a line leaves them so. -/
theorem Whole.of_none {id : String} (hw : Whole h id) (hline : event.line = none) :
    Whole (event :: h) id := by
  intro n
  rw [logIn_cons_of_none hline]
  exact hw n

/-- A record keeps them so when it follows what is on record of its call. -/
theorem Whole.append {id : String} (hw : Whole h id) (hof : record.Of s.id w.number)
    {before after : Agent.Stage} (hbefore : stageAt h s w = some before)
    (hafter : before.after record.phase = some after) (outcome : Append) :
    Whole (.appended record outcome :: h) id := by
  intro n
  cases hwritten : outcome.written with
  | false =>
    rw [logIn_cons_of_none (by simp [Happening.line, hwritten])]
    exact hw n
  | true =>
    have hline : (Happening.appended record outcome).line = some record := by
      simp [Happening.line, hwritten]
    rw [logIn_cons_of_some hline]
    by_cases hsame : record.Of id n
    · have hid : s.id = id := hof.1.symm.trans hsame.1
      have hnumber : w.number = n := hof.2.symm.trans hsame.2
      rw [← hid, ← hnumber, stageIn_cons_of hof hbefore, hafter]
      rfl
    · rw [stageIn_cons_of_not hsame]
      exact hw n

/-- **The records of a call** stay those of a stage. -/
theorem Whole.move {id : String} (hw : Whole h id) (hr : stage.Recorded h s) {counter : Nat}
    {happened : List Happening}
    (hmove : CallMove c e s r call item choice stage t next counter happened) :
    Whole (happened ++ h) id := by
  cases hmove with
  | notes w question profile outcome | notesUnrecorded w question profile outcome =>
    have hof : (w.entry s).asked.Of s.id w.number := entry_of w s
    exact hw.append hof hr rfl outcome
  | starts w pass outcome | startsUnrecorded w pass outcome =>
    obtain ⟨before, hbefore, hopen⟩ := hr
    have hof : ((w.entry s).started pass.agreed.isSome).Of s.id w.number := entry_of w s
    have hafter : before.after .started = some .started := by
      rcases hopen with rfl | rfl <;> rfl
    exact hw.append hof hbefore hafter outcome
  | finishes w outcome failed appended =>
    have hof : ((w.entry s).finished failed).Of s.id w.number := entry_of w s
    have hafter : Agent.Stage.started.after ((w.entry s).finished failed).phase = some .finished := by
      cases failed <;> rfl
    exact hw.append hof hr hafter appended
  | keeps w state error text outcome =>
    obtain ⟨before, hbefore, hopen⟩ := hr
    have hof : ((w.entry s).refused error).Of s.id w.number := entry_of w s
    have hafter : before.after .refused = some .refused := by
      rcases hopen with rfl | rfl <;> rfl
    exact hw.append hof hbefore hafter outcome
  | reads | poses | rereadsOff | rereads | rereadsLast | compares | runs => exact hw.of_none rfl
  | _ => exact hw

/-- **A tool is run** once its start is on record. -/
theorem CallMove.runsStarted (hr : stage.Recorded h s) {counter : Nat} {happened : List Happening}
    (hmove : CallMove c e s r call item choice stage t next counter happened)
    (heach : History.Each runsStarted h) : History.Each runsStarted (happened ++ h) := by
  cases hmove with
  | reads tool input outcome => exact History.each_cons.mpr ⟨fun hwrites => absurd hr hwrites, heach⟩
  | runs w pass outcome => exact History.each_cons.mpr ⟨fun _ => ⟨w.number, rfl, hr.2⟩, heach⟩
  | notes | notesUnrecorded | poses | rereadsOff | rereads | rereadsLast | compares | starts
  | startsUnrecorded | finishes | keeps =>
    exact History.each_cons.mpr ⟨trivial, heach⟩
  | _ => exact heach

end Calls

/-! ## Runs of the orders -/

/-- The start of a publish is written and cannot be synced. -/
def ordersUnconfirmed : List (Program.Life Errand Say Around) :=
  ordersAsked ++ called 2 (.decide ordersID 2 ⟨true, false⟩) [.go] ++
    runs [.answer, .go, .append .unconfirmed, .append .stored]

/-- The conversation is taken up in another process, and publishes again. -/
def ordersAgain : List (Program.Life Errand Say Around) :=
  ordersAnswered ++ [none] ++
    called 0 (.send ordersID "once more" "once more" none) [.go, .go, .go, .go, .go] ++
    runs [.go, .go, .service none, .turn (.ok ordersTurn), .go, .go, .go, .go, .go, .word (some ""),
      .go] ++
    called 1 (.decide ordersID 4 ⟨true, false⟩) [.go] ++ runs [.answer, .go, .append .stored]

/-- What three runs leave on record. One evaluation: most of it is the tools that are offered, and
    these are the same in all of them. -/
theorem recorded_orders :
    (manager ordersConfig).Permitted recordedOnce.condition.OkLife ⟨ordersWindow, ∅⟩
        ordersAnswered ∧
      ordersID ∈ (ordersAfter ordersAnswered).shared.drawn ∧
      ∀ steps ∈ [ordersUnconfirmed, ordersAgain], ordersID ∈ (ordersAfter steps).shared.drawn ∧
        stageIn (logIn (ordersAfter steps).shared.happened) ordersID 1 = none := by
  decide +kernel

/-! ## Every interleaving -/

/-- **What is on record where a run stands.** -/
def Position.Recorded (h : List Happening) (s : Session) : Position → Prop
  | .calling _ _ _ stage => stage.Recorded h s
  | _ => True

/-- What is kept up, for the log to be well formed. -/
def recording : Upkeep where
  good _ := True
  idle _ _ := True
  busy h s r := r.position.Recorded h s
  told h := (∀ id, (∀ event ∈ h, event.isOf id = false) → Whole h id) ∧ History.Each runsStarted h

section Reachable

variable {c : Config} {h : List Happening} {s t : Session} {r : Run} {event : Happening}

/-- An event that is no step of a call has no line, or another writer's. -/
theorem aside_line (haside : event.aside = true) :
    event.line = none ∨ ∃ record, event = .foreign record := by
  cases event with
  | foreign record => exact .inr ⟨record, rfl⟩
  | began | stopped | decided => exact .inl rfl
  | _ => cases haside

theorem Position.Recorded.same {position : Position} (hr : position.Recorded h s)
    (hid : t.id = s.id) (haddress : t.address = s.address) : position.Recorded h t := by
  cases position with
  | calling b call item stage => exact Stage.Recorded.same hr hid haddress
  | _ => trivial

theorem Position.Recorded.of_none {position : Position} (hr : position.Recorded h s)
    (hline : event.line = none) (hbegan : event ≠ .began s.address) :
    position.Recorded (event :: h) s := by
  cases position with
  | calling b call item stage => exact Stage.Recorded.of_none hr hline hbegan
  | _ => trivial

/-- Another writer's line is about another session. -/
theorem Stage.Recorded.foreign {stage : Stage} {record : Agent.Record} (hr : stage.Recorded h s)
    (hother : record.session ≠ s.id) : stage.Recorded (.foreign record :: h) s := by
  have hstage : ∀ w, stageAt (.foreign record :: h) s w = stageAt h s w := by
    intro w
    have hline : (Happening.foreign record).line = some record := rfl
    rw [stageAt, logIn_cons_of_some hline]
    exact stageIn_cons_of_not fun hof => hother hof.1
  cases stage with
  | connecting | questioning | noting | finishing => exact (hstage _).trans hr
  | consulting | posing | waiting | abandoning | rereading | comparing | starting | refusing =>
    obtain ⟨before, hbefore, hopen⟩ := hr
    exact ⟨before, (hstage _).trans hbefore, hopen⟩
  | marking | running => exact ⟨(hstage _).trans hr.1, hr.2.grows (grows_cons (by simp))⟩
  | _ => exact hr

/-- **A step of a run** leaves on record what has to be. -/
theorem Position.Recorded.move {e : Surroundings} {choice : Choice} {m : Moved}
    (hr : r.position.Recorded h s) (hlimit : r.position.once e h s choice)
    (hmove : Move c e s r choice m) : m.run.position.Recorded (m.happened ++ h) m.session := by
  cases hmove with
  | works b call item stage next t counter happened hposition hcall =>
    rw [hposition] at hr
    obtain ⟨asks, remembered, hredrawn⟩ := hcall.frame
    have hsame := hredrawn.same
    exact Stage.Recorded.same (Stage.Recorded.move hr hposition hlimit hcall) hsame.1 hsame.2
  | calls b call rest => exact dispatch_recorded c r.tools call
  | builds chosen queue failed t next hposition hchoice hready =>
    obtain ⟨-, -, hcalling⟩ := ready_remembers hready
    change next.Recorded h t
    cases next with
    | calling b call item stage => exact absurd rfl (hcalling b call item stage)
    | _ => trivial
  | counts turn hposition =>
    change (afterTurn turn).Recorded h _
    cases hnext : afterTurn turn with
    | calling b call item stage => exact absurd hnext (afterTurn_calling turn b call item stage)
    | _ => trivial
  | settles b next hposition hrest hnext => rcases hnext with ⟨ended, rfl⟩ | rfl <;> trivial
  | _ => trivial

/-- The log stays well formed, and tools are run once their start is on record. -/
theorem recording_told {e : Surroundings} {choice : Choice} {m : Moved}
    (htold : recording.told h) (hr : r.position.Recorded h s) (hmove : Move c e s r choice m) :
    recording.told (m.happened ++ h) := by
  have hbefore : ∀ id, (∀ event ∈ m.happened ++ h, event.isOf id = false) → Whole h id :=
    fun id hnone => htold.1 id fun event hmem => hnone event (List.mem_append_right _ hmem)
  cases hmove with
  | works b call item stage next t counter happened hposition hcall =>
    rw [hposition] at hr
    exact ⟨fun id hnone => (hbefore id hnone).move hr hcall, hcall.runsStarted hr htold.2⟩
  | prepares settings chosen hposition =>
    exact ⟨fun id hnone => (hbefore id hnone).of_none rfl, History.each_cons.mpr ⟨trivial, htold.2⟩⟩
  | _ => exact htold

/-- **The records are kept up** by every step, where every call is recorded once. -/
theorem keeps_recording (c : Config) : Keeps c recordedOnce 0 recording where
  told_nil := ⟨fun id _ n => rfl, History.each_nil _⟩
  told_aside h event htold haside := by
    refine ⟨fun id hnone => ?_, History.each_cons.mpr ⟨?_, htold.2⟩⟩
    · have hold := htold.1 id fun other hmem => hnone other (List.mem_cons_of_mem _ hmem)
      rcases aside_line haside with hline | ⟨record, rfl⟩
      · exact hold.of_none hline
      · intro n
        have hother : record.session ≠ id := by
          simpa [Happening.isOf] using hnone (.foreign record) List.mem_cons_self
        have hline : (Happening.foreign record).line = some record := rfl
        rw [logIn_cons_of_some hline, stageIn_cons_of_not fun hof => hother hof.1]
        exact hold n
    · cases event with
      | ran => cases haside
      | _ => trivial
  version _ _ _ := trivial
  new _ _ _ _ _ _ := trivial
  restored _ _ _ _ _ _ _ := trivial
  recorded _ _ _ := trivial
  speaks _ _ _ _ _ _ _ := trivial
  starts _ _ _ := trivial
  idle_renamed _ _ _ _ := trivial
  busy_renamed h s r title hbusy := Position.Recorded.same hbusy rfl rfl
  idle_decides _ _ _ _ _ _ := trivial
  busy_decides h s r item decision hitem hbusy := by
    have hmore : r.position.Recorded (.decided s.address item decision :: h) s :=
      Position.Recorded.of_none hbusy rfl (by simp)
    exact hmore.same rfl rfl
  stops h s r hbusy _ := by
    have hother : Happening.stopped s.address ≠ .began s.address := by simp
    exact Position.Recorded.of_none hbusy rfl hother
  idle_elsewhere _ _ _ _ _ := trivial
  busy_elsewhere h s r event helsewhere haside hbusy := by
    rcases aside_line haside with hline | ⟨record, rfl⟩
    · apply Position.Recorded.of_none hbusy hline
      rintro rfl
      exact helsewhere rfl
    · cases hposition : r.position with
      | calling b call item stage =>
        have hstage : stage.Recorded h s := by
          have hrecorded : r.position.Recorded h s := hbusy
          rw [hposition] at hrecorded
          exact hrecorded
        change r.position.Recorded _ s
        rw [hposition]
        exact hstage.foreign helsewhere
      | _ =>
        change r.position.Recorded _ s
        rw [hposition]
        trivial
  run h e s r choice m htold hbusy _ hlimit hmove :=
    ⟨Position.Recorded.move hbusy hlimit hmove, recording_told htold hbusy hmove⟩
  keeping h s r kept next hbusy hposition hnext := by
    rcases hnext with rfl | rfl <;> trivial
  saving _ _ _ _ _ _ := ⟨trivial, trivial⟩
  closing _ _ _ _ _ := trivial

/-- **The audit log is well formed.** Of the server, in every interleaving; of the assistant, in
    every one that records each call once: the records of each call follow the grammar, a write is
    run once its start is on record, and a run whose outcome is on record has one outcome. -/
theorem audit_log_well_formed {S : Agent.Server} {s : Threads Agent.Shared Agent.Call}
    {t : Threads World Errand} (hs : S.program.machine.Reachable Machine.Always s)
    (ht : (manager c).Reachable recordedOnce.condition.OkLife t) :
    ((∀ n, WellFormed (phasesIn (Agent.logOf s.shared.history) S.session n).reverse) ∧
      History.Each (Agent.RunsStarted S) s.shared.history ∧
      ∀ record, .appended record .stored ∈ s.shared.history → record.session = S.session →
        record.phase.outcome = true →
        (phasesIn (Agent.logOf s.shared.history) S.session record.call).countP Phase.outcome = 1) ∧
    (∀ id ∈ t.shared.drawn, ∀ n, WellFormed (phasesIn (logIn t.shared.happened) id n).reverse) ∧
      History.Each runsStarted t.shared.happened ∧
      ∀ record, .appended record .stored ∈ t.shared.happened → record.session ∈ t.shared.drawn →
        record.phase.outcome = true →
        (phasesIn (logIn t.shared.happened) record.session record.call).countP Phase.outcome = 1 := by
  have htended := ((keeps_recording c).reachable ht).shared
  have hwhole : ∀ id ∈ t.shared.drawn, Whole t.shared.happened id := by
    intro id hid
    exact htended.told.1 id fun event hmem => htended.orderly.foreign event hmem id hid
  refine ⟨Agent.server_trail hs, fun id hid n => (Agent.stageOf_isSome_iff _).mp (hwhole id hid n),
    htended.told.2, fun record hmem hsession houtcome => ?_⟩
  have hline : record ∈ logIn t.shared.happened := List.mem_filterMap.mpr ⟨_, hmem, rfl⟩
  exact Agent.count_outcome (hwhole _ hsession _) hline ⟨rfl, rfl⟩ houtcome

end Reachable

/-- A purge that was confirmed at the server, and a publish that was let through in the window. -/
theorem audit_log_well_formed_orders :
    WellFormed (phasesIn (Agent.logOf (Agent.ordersServer.program.machine.endOf Agent.ordersStart
      Agent.purgeConfirmed).shared.history) "s1" 1).reverse ∧
    WellFormed (phasesIn (logIn (ordersAfter ordersAnswered).shared.happened) ordersID 1).reverse := by
  have hserver : Agent.ordersServer.program.machine.Reachable Machine.Always
      (Agent.ordersServer.program.machine.endOf Agent.ordersStart Agent.purgeConfirmed) :=
    Machine.Reachable.endOf (.start Agent.ordersStart_start) (Machine.permitted_always _ _ _)
  have hpermitted : (manager ordersConfig).Reachable recordedOnce.condition.OkLife
      (ordersAfter ordersAnswered) :=
    (Machine.Reachable.start ordersWindow_start).endOf recorded_orders.1
  obtain ⟨⟨hcalls, -, -⟩, hwrites, -, -⟩ := audit_log_well_formed hserver hpermitted
  exact ⟨hcalls 1, hwrites ordersID recorded_orders.2.1 1⟩

/-! ## Calls that are recorded otherwise -/

/-- A reachable state whose log does not tell the first call of the orders' run well. -/
def IllFormed (w : Threads World Errand) : Prop :=
  (manager ordersConfig).Reachable Machine.Always w ∧ ordersID ∈ w.shared.drawn ∧
    ¬ WellFormed (phasesIn (logIn w.shared.happened) ordersID 1).reverse

/-- **A call with a record too many**: a start that is on record is refused, and the first write of
    another process has the number of the first one. -/
theorem records_too_many :
    IllFormed (ordersAfter ordersUnconfirmed) ∧ IllFormed (ordersAfter ordersAgain) := by
  have hill : ∀ steps ∈ [ordersUnconfirmed, ordersAgain], IllFormed (ordersAfter steps) := by
    intro steps hsteps
    obtain ⟨hdrawn, hnone⟩ := recorded_orders.2.2 steps hsteps
    refine ⟨ordersAfter_reachable steps, hdrawn, fun hwell => ?_⟩
    have hsome := (Agent.stageOf_isSome_iff _).mpr hwell
    rw [stageIn] at hnone
    rw [hnone] at hsome
    cases hsome
  exact ⟨hill _ List.mem_cons_self, hill _ (List.mem_cons_of_mem _ List.mem_cons_self)⟩

end MqStudio.Assistant
