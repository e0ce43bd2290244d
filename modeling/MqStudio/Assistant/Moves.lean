import MqStudio.Assistant.Run

/-!
# What One Step of a Run Does

`CallMove` lists the steps of a call by what they leave, with the guards each was taken under, and
`Move` those of a run; `stepCall_move` and `step_move` show that the lists are complete. Every
invariant of the manager that is about a run is a case analysis over them.
-/

namespace MqStudio.Assistant

open MqStudio.Agent (Append Blast Input Refusal Tool changedSince changedSince_ok)
open MqStudio.Lib
open MqStudio.Model

variable {c : Config} {e : Surroundings} {s : Session} {r : Run} {choice : Choice}

/-! ## What the window is shown -/

/-- Only what the window is shown of a conversation differs: its items and their events. -/
def Redrawn (s t : Session) : Prop :=
  ∃ seq next items sent, t = { s with seq := seq, next := next, items := items, sent := sent }

theorem Redrawn.refl (s : Session) : Redrawn s s := ⟨_, _, _, _, rfl⟩

theorem Redrawn.trans {t u : Session} (h : Redrawn s t) (h' : Redrawn t u) : Redrawn s u := by
  obtain ⟨_, _, _, _, rfl⟩ := h
  obtain ⟨_, _, _, _, rfl⟩ := h'
  exact ⟨_, _, _, _, rfl⟩

theorem redrawn_emit (s : Session) (change : Change) : Redrawn s (s.emit change) :=
  ⟨_, _, _, _, rfl⟩

theorem redrawn_add (s : Session) (item : Item) : Redrawn s (s.add item) := ⟨_, _, _, _, rfl⟩

theorem redrawn_change (s : Session) (id : Nat) (f : Item → Item) : Redrawn s (s.change id f) := by
  unfold Session.change
  split
  · exact .refl s
  · exact ⟨_, _, _, _, rfl⟩

theorem redrawn_changeTool (s : Session) (id : Nat) (f : ToolItem → ToolItem) :
    Redrawn s (s.changeTool id f) :=
  redrawn_change s id _

theorem redrawn_append (s : Session) (id : Nat) (text : String) :
    Redrawn s (s.append id text) := by
  unfold Session.append
  split
  · exact .refl s
  · exact ⟨_, _, _, _, rfl⟩

theorem redrawn_send (s : Session) (opened : Option (Nat × ItemKind)) (piece : Delta) :
    Redrawn s (Stream.send s opened piece).1 := by
  unfold Stream.send
  split
  · split
    · exact redrawn_append s _ _
    · exact redrawn_add s _
  · exact redrawn_add s _

theorem redrawn_sendAll (s : Session) (opened : Option (Nat × ItemKind)) (pieces : List Delta) :
    Redrawn s (Stream.sendAll s opened pieces).1 := by
  induction pieces generalizing s opened with
  | nil => exact .refl s
  | cons piece rest ih => exact (redrawn_send s opened piece).trans (ih _ _)

theorem redrawn_flush (s : Session) (out : Stream) : Redrawn s (out.flush s).1 :=
  redrawn_sendAll s _ _

theorem redrawn_skip (s : Session) (call : ToolCall) (reason : String) :
    Redrawn s (skip s call reason).1 :=
  redrawn_add s _

/-! ## Steps of a call -/

/-- The stages a write can be refused at without any record of its own. -/
def Stage.refusable : Stage → Option Write
  | .questioning w | .consulting w => some w
  | .rereading w _ | .comparing w _ => some w
  | _ => none

/-- A step of a call up to its last, by what it leaves: the conversation, the next stage, the
    journal's counter and what happened. -/
inductive CallMove (c : Config) (e : Surroundings) (s : Session) (r : Run) (call : ToolCall)
    (item : Nat) (choice : Choice) : Stage → Session → Stage → Nat → List Happening → Prop where
  | reads (tool : Tool) (input : Input) (outcome : Ran) :
    CallMove c e s r call item choice (.reading tool input) s (settled call outcome) e.calls
      [.ran s.address item tool input none none]
  | numbers (tool : Tool) (input : Input) (connection : AuditConnection) :
    CallMove c e s r call item choice (.numbering tool input) s
      (.connecting ⟨tool, input, e.calls + 1⟩ connection) (e.calls + 1) []
  | connects (w : Write) (connection : AuditConnection) :
    w.tool.blast = .destructive →
    CallMove c e s r call item choice (.connecting w connection)
      (s.changeTool item fun tool => { tool with connection := some connection })
      (.questioning w) e.calls []
  | remembers (w : Write) (connection : AuditConnection) :
    w.tool.blast ≠ .destructive → w.tool.name ∈ s.remembered →
    CallMove c e s r call item choice (.connecting w connection)
      (s.changeTool item fun tool => { tool with connection := some connection })
      (.rereading w ⟨none, .session⟩) e.calls []
  | considers (w : Write) (connection : AuditConnection) :
    w.tool.blast ≠ .destructive →
    CallMove c e s r call item choice (.connecting w connection)
      (s.changeTool item fun tool => { tool with connection := some connection })
      (.consulting w) e.calls []
  | questions (w : Write) (question : String) (profile : ConnectionProfile) :
    e.connections[w.target]? = some profile →
    CallMove c e s r call item choice (.questioning w) s (.noting w question profile) e.calls []
  | notes (w : Write) (question : String) (profile : ConnectionProfile) (outcome : Append) :
    outcome.ok = true →
    CallMove c e s r call item choice (.noting w question profile) s
      (.posing w (some profile) ⟨.confirm, question, ""⟩) e.calls
      [.appended (w.entry s).asked outcome]
  | notesUnrecorded (w : Write) (question : String) (profile : ConnectionProfile)
    (outcome : Append) (text : String) : outcome.ok = false →
    CallMove c e s r call item choice (.noting w question profile) s
      (.refusing w .failed .notRecorded text) e.calls [.appended (w.entry s).asked outcome]
  | consults (w : Write) (caveat : String) :
    CallMove c e s r call item choice (.consulting w) s (.posing w none ⟨.approve, "", caveat⟩)
      e.calls []
  | poses (w : Write) (agreed : Option ConnectionProfile) (ask : Ask) :
    CallMove c e s r call item choice (.posing w agreed ask)
      ({ s with asks := item :: s.asks }.changeTool item fun tool =>
        { tool with state := .waiting, ask := some ask })
      (.waiting w agreed) e.calls [.posed s.address item w agreed]
  | declines (w : Write) (agreed : Option ConnectionProfile) (decided : Decision)
    (text : String) : choice = .answer →
    s.answers.lookup item = some decided → decided.approve = false →
    CallMove c e s r call item choice (.waiting w agreed) s
      (.refusing w .declined .declined text) e.calls []
  | confirms (w : Write) (profile : ConnectionProfile) (decided : Decision) : choice = .answer →
    s.answers.lookup item = some decided → decided.approve = true →
    CallMove c e s r call item choice (.waiting w (some profile)) s
      (.rereading w ⟨some profile, .confirmed⟩) e.calls []
  | approves (w : Write) (decided : Decision) : choice = .answer →
    s.answers.lookup item = some decided → decided.approve = true → decided.remember = false →
    CallMove c e s r call item choice (.waiting w none) s (.rereading w ⟨none, .once⟩) e.calls []
  | approvesAll (w : Write) (decided : Decision) : choice = .answer →
    s.answers.lookup item = some decided → decided.approve = true → decided.remember = true →
    CallMove c e s r call item choice (.waiting w none)
      { s with remembered := w.tool.name :: s.remembered }
      (.rereading w ⟨none, .session⟩) e.calls []
  | gives (w : Write) (agreed : Option ConnectionProfile) : r.cancelled = true →
    CallMove c e s r call item choice (.waiting w agreed) s (.abandoning w) e.calls []
  | abandons (w : Write) (text : String) :
    CallMove c e s r call item choice (.abandoning w) { s with asks := s.asks.erase item }
      (.refusing w .skipped .dismissed text) e.calls []
  | refuses (w : Write) (stage : Stage) (error : Refusal) (text : String) :
    stage.refusable = some w →
    CallMove c e s r call item choice stage s (.refusing w .failed error text) e.calls []
  | rereadsOff (w : Write) (pass : Pass) (settings : Settings) (error : Refusal)
    (text : String) :
    CallMove c e s r call item choice (.rereading w pass) s (.refusing w .failed error text)
      e.calls [.reread s.address item settings]
  | rereads (w : Write) (profile : ConnectionProfile) (approved : Approved)
    (settings : Settings) : settings.writes = .approve →
    CallMove c e s r call item choice (.rereading w ⟨some profile, approved⟩) s
      (.comparing w ⟨some profile, approved⟩) e.calls [.reread s.address item settings]
  | rereadsLast (w : Write) (approved : Approved) (settings : Settings) :
    settings.writes = .approve →
    CallMove c e s r call item choice (.rereading w ⟨none, approved⟩) s
      (.starting w ⟨none, approved⟩) e.calls [.reread s.address item settings]
  | compares (w : Write) (profile current : ConnectionProfile) (approved : Approved) :
    e.connections[w.target]? = some current → Connection.repointed profile current = false →
    CallMove c e s r call item choice (.comparing w ⟨some profile, approved⟩) s
      (.starting w ⟨some profile, approved⟩) e.calls
      [.compared s.address item profile current]
  | starts (w : Write) (pass : Pass) (outcome : Append) : choice = .append outcome →
    outcome.ok = true →
    CallMove c e s r call item choice (.starting w pass) s (.marking w pass) e.calls
      [.appended ((w.entry s).started pass.agreed.isSome) outcome]
  | startsUnrecorded (w : Write) (pass : Pass) (outcome : Append) (text : String) :
    choice = .append outcome → outcome.ok = false →
    CallMove c e s r call item choice (.starting w pass) s
      (.refusing w .failed .notRecorded text) e.calls
      [.appended ((w.entry s).started pass.agreed.isSome) outcome]
  | marks (w : Write) (pass : Pass) :
    CallMove c e s r call item choice (.marking w pass)
      (s.changeTool item fun tool =>
        { tool with state := .running, approved := some pass.approved })
      (.running w pass) e.calls []
  | runs (w : Write) (pass : Pass) (outcome : Ran) :
    CallMove c e s r call item choice (.running w pass) s (.finishing w outcome) e.calls
      [.ran s.address item w.tool w.input (some w.number) e.connections[w.target]?]
  | finishes (w : Write) (outcome : Ran) (failed : Bool) (appended : Append) :
    CallMove c e s r call item choice (.finishing w outcome) s (settled call outcome) e.calls
      [.appended ((w.entry s).finished failed) appended]
  | keeps (w : Write) (state : ToolState) (error : Refusal) (text : String) (outcome : Append) :
    CallMove c e s r call item choice (.refusing w state error text) s
      (.settling state text ⟨call.id, text, true⟩) e.calls
      [.appended ((w.entry s).refused error) outcome]

/-- **A step of a call** is one of those listed, or its last. -/
theorem stepCall_move {b : Batch} {call : ToolCall} {item : Nat} {stage : Stage} {m : Moved}
    (h : stepCall c e s r b call item stage choice = some m) :
    (∃ next, CallMove c e s r call item choice stage m.session next m.calls m.happened ∧
        m.run = r.at (.calling b call item next)) ∨
      ∃ state text answer, stage = .settling state text answer ∧
        m = ⟨s.changeTool item fun tool => { tool with state := state, result := text },
          r.at (.deciding (b.push answer)), e.calls, []⟩ := by
  unfold stepCall at h
  cases stage with
  | reading tool input =>
    dsimp only at h
    split at h
    · cases h
      exact .inl ⟨_, .reads tool input _, rfl⟩
    · cases h
  | numbering tool input =>
    dsimp only at h
    split at h
    · cases h
    · cases h
      exact .inl ⟨_, .numbers tool input _, rfl⟩
  | connecting w connection =>
    dsimp only at h
    split at h
    · cases h
    · cases h
      refine .inl ⟨_, ?_, rfl⟩
      split
      · rename_i hdestructive
        exact .connects w connection hdestructive
      · rename_i hdestructive
        split
        · rename_i hremembered
          exact .remembers w connection hdestructive (by simpa using hremembered)
        · exact .considers w connection hdestructive
  | questioning w =>
    dsimp only at h
    split at h
    · cases h
      exact .inl ⟨_, .refuses w _ _ _ rfl, rfl⟩
    · split at h
      · cases h
        exact .inl ⟨_, .refuses w _ _ _ rfl, rfl⟩
      · rename_i profile hprofile
        cases h
        exact .inl ⟨_, .questions w _ profile hprofile, rfl⟩
    · cases h
  | noting w question profile =>
    dsimp only at h
    split at h
    · rename_i outcome
      cases h
      refine .inl ⟨_, ?_, rfl⟩
      cases hok : outcome.ok with
      | true => exact .notes w question profile outcome hok
      | false => exact .notesUnrecorded w question profile outcome _ hok
    · cases h
  | consulting w =>
    dsimp only at h
    split at h
    · cases h
      exact .inl ⟨_, .refuses w _ _ _ rfl, rfl⟩
    · cases h
      exact .inl ⟨_, .consults w _, rfl⟩
    · cases h
  | posing w agreed ask =>
    dsimp only at h
    split at h
    · cases h
    · cases h
      exact .inl ⟨_, .poses w agreed ask, rfl⟩
  | waiting w agreed =>
    dsimp only at h
    split at h
    · split at h
      · cases h
      · rename_i decided hdecided
        cases h
        refine .inl ⟨_, ?_, rfl⟩
        cases happrove : decided.approve with
        | false =>
          simp only [verdict, happrove, Bool.not_false, if_true, Bool.false_and,
            Bool.false_eq_true, if_false]
          exact .declines w agreed decided _ rfl hdecided happrove
        | true =>
          cases agreed with
          | some profile =>
            simp only [verdict, happrove, Bool.not_true, Option.isSome_some, if_true,
              Option.isNone_some, Bool.and_false, Bool.false_eq_true, if_false]
            exact .confirms w profile decided rfl hdecided happrove
          | none =>
            cases hremember : decided.remember with
            | true =>
              simp only [verdict, happrove, hremember, Bool.not_true, Option.isSome_none,
                Option.isNone_none, Bool.and_true, Bool.false_eq_true, if_false, if_true]
              exact .approvesAll w decided rfl hdecided happrove hremember
            | false =>
              simp only [verdict, happrove, hremember, Bool.not_true, Option.isSome_none,
                Option.isNone_none, Bool.and_true, Bool.and_false, Bool.false_eq_true, if_false]
              exact .approves w decided rfl hdecided happrove hremember
    · split at h
      · rename_i hcancelled
        cases h
        exact .inl ⟨_, .gives w agreed hcancelled, rfl⟩
      · cases h
    · cases h
  | abandoning w =>
    dsimp only at h
    split at h
    · cases h
    · cases h
      exact .inl ⟨_, .abandons w _, rfl⟩
  | rereading w pass =>
    dsimp only at h
    split at h
    · cases h
    · split at h
      · cases h
        exact .inl ⟨_, .refuses w _ _ _ rfl, rfl⟩
      · rename_i settings hsettings
        cases h
        refine .inl ⟨_, ?_, rfl⟩
        split
        · exact .rereadsOff w pass settings _ _
        · rename_i hwrites
          obtain ⟨agreed, approved⟩ := pass
          cases agreed with
          | none => exact .rereadsLast w approved settings (not_not.mp hwrites)
          | some profile => exact .rereads w profile approved settings (not_not.mp hwrites)
  | comparing w pass =>
    dsimp only at h
    split at h
    · cases h
    · split at h
      · rename_i profile current hprofile hcurrent
        split at h
        · cases h
          exact .inl ⟨_, .refuses w _ _ _ rfl, rfl⟩
        · rename_i hsame
          cases h
          obtain ⟨agreed, approved⟩ := pass
          obtain rfl : agreed = some profile := hprofile
          obtain ⟨stored, hstored, hrepointed⟩ := changedSince_ok.mp hsame
          obtain rfl : stored = current := Option.some.inj (hstored.symm.trans hcurrent)
          exact .inl ⟨_, .compares w profile stored approved hcurrent hrepointed, rfl⟩
      · cases h
        exact .inl ⟨_, .refuses w _ _ _ rfl, rfl⟩
  | starting w pass =>
    dsimp only at h
    split at h
    · rename_i outcome
      cases h
      refine .inl ⟨_, ?_, rfl⟩
      cases hok : outcome.ok with
      | true => exact .starts w pass outcome rfl hok
      | false => exact .startsUnrecorded w pass outcome _ rfl hok
    · cases h
  | marking w pass =>
    dsimp only at h
    split at h
    · cases h
    · cases h
      exact .inl ⟨_, .marks w pass, rfl⟩
  | running w pass =>
    dsimp only at h
    split at h
    · cases h
      exact .inl ⟨_, .runs w pass _, rfl⟩
    · cases h
  | finishing w outcome =>
    dsimp only at h
    split at h
    · cases h
      exact .inl ⟨_, .finishes w outcome _ _, rfl⟩
    · cases h
  | refusing w state error text =>
    dsimp only at h
    split at h
    · cases h
      exact .inl ⟨_, .keeps w state error text _, rfl⟩
    · cases h
  | settling state text answer =>
    dsimp only at h
    split at h
    · cases h
    · cases h
      exact .inr ⟨state, text, answer, rfl, rfl⟩

/-! ## Steps of a run -/

/-- The session, the run and what the journal counted, where nothing else happened. -/
def quietly (e : Surroundings) (s : Session) (r : Run) : Moved := ⟨s, r, e.calls, []⟩

/-- A step of a run, by what it leaves. -/
inductive Move (c : Config) (e : Surroundings) (s : Session) (r : Run) (choice : Choice) :
    Moved → Prop where
  | unreadable (failed : Failure) : r.position = .began →
    Move c e s r choice (quietly e s (r.at (.failing failed)))
  | removed (ended : Ending) : r.position = .began →
    Move c e s r choice (quietly e s (r.at (.ending (some ended))))
  | prepares (settings : Settings) (chosen : Provider) : r.position = .began →
    Move c e s r choice
      ⟨s, { r with tools := prepare settings, position := .readying chosen }, e.calls,
        [.prepared s.address settings]⟩
  | takes (chosen : Provider) : r.position = .readying chosen →
    Move c e s r choice
      (quietly e { s with queue := [] } (r.at (.building chosen s.queue)))
  | builds (chosen : Provider) (queue : List String) (failed : Option Failure) (t : Session)
    (next : Position) : r.position = .building chosen queue → choice = .service failed →
    ready s r chosen queue failed = some (t, next) →
    Move c e s r choice (quietly e t (r.at next))
  | hears (out : Stream) (piece : Delta) : r.position = .streaming out →
    Move c e s r choice (quietly e s (r.at (.streaming (out.add piece))))
  | flushes (out : Stream) : r.position = .streaming out →
    Move c e s r choice (quietly e (out.flush s).1 (r.at (.streaming (out.flush s).2)))
  | fails (out : Stream) (failed : Failure) : r.position = .streaming out →
    Move c e s r choice (quietly e s (r.at (.returned out (.error failed))))
  | answers (out : Stream) (turn : Turn) : r.position = .streaming out →
    Move c e s r choice
      (quietly e { s with chat := s.chat.map fun chat => chat.next turn }
        (r.at (.returned out (.ok turn))))
  | flushesLate (out : Stream) (outcome : Except Failure Turn) :
    r.position = .returned out outcome →
    Move c e s r choice (quietly e (out.flush s).1 (r.at (.returned (out.flush s).2 outcome)))
  | closesFailed (out : Stream) (failed : Failure) : r.position = .returned out (.error failed) →
    Move c e s r choice (quietly e (out.flush s).1 (r.at (.failing failed)))
  | closes (out : Stream) (turn : Turn) : r.position = .returned out (.ok turn) →
    Move c e s r choice (quietly e (out.flush s).1 (r.at (.turned turn)))
  | counts (turn : Turn) : r.position = .turned turn →
    Move c e s r choice
      (quietly e { s with answered := true, said := [], usage := s.usage.add turn.usage }
        (r.at (afterTurn turn)))
  | skips (turn : Turn) (results : List CallResult) (call : ToolCall) (rest : List ToolCall)
    (reason : String) : r.position = .skipping turn results (call :: rest) →
    Move c e s r choice
      (quietly e (skip s call reason).1
        (r.at (.skipping turn (results ++ [(skip s call reason).2]) rest)))
  | skipped (turn : Turn) (results : List CallResult) : r.position = .skipping turn results [] →
    Move c e s r choice
      (quietly e { s with chat := s.chat.map fun chat => chat.results results }
        (r.at (.ending (endingOf turn))))
  | settles (b : Batch) (next : Position) : r.position = .deciding b → b.rest = [] →
    (∃ ended, next = .ending (some ended)) ∨ next = .streaming .empty →
    Move c e s r choice
      (quietly e { s with chat := s.chat.map fun chat => chat.results b.results } (r.at next))
  | passes (b : Batch) (call : ToolCall) (rest : List ToolCall) (limited : Bool)
    (reason : String) : r.position = .deciding b → b.rest = call :: rest →
    Move c e s r choice
      (quietly e (skip s call reason).1
        (r.at (.deciding ⟨b.results ++ [(skip s call reason).2], rest, limited⟩)))
  | calls (b : Batch) (call : ToolCall) (rest : List ToolCall) : r.position = .deciding b →
    b.rest = call :: rest → r.cancelled = false → r.calls < c.limit →
    Move c e s r choice
      (quietly e (s.add (.card (card call)))
        { r with
          calls := r.calls + 1
          position := .calling { b with rest := rest } call (s.next + 1)
            (dispatch c r.tools call) })
  | works (b : Batch) (call : ToolCall) (item : Nat) (stage next : Stage) (t : Session)
    (counter : Nat) (happened : List Happening) :
    r.position = .calling b call item stage →
    CallMove c e s r call item choice stage t next counter happened →
    Move c e s r choice ⟨t, r.at (.calling b call item next), counter, happened⟩
  | finishes (b : Batch) (call : ToolCall) (item : Nat) (state : ToolState) (text : String)
    (answer : CallResult) : r.position = .calling b call item (.settling state text answer) →
    Move c e s r choice
      (quietly e (s.changeTool item fun tool => { tool with state := state, result := text })
        (r.at (.deciding (b.push answer))))
  | blames (failed : Failure) (ended : Ending) : r.position = .failing failed →
    Move c e s r choice (quietly e s (r.at (.ending (some ended))))
  | ends (ending : Option Ending) : r.position = .ending ending →
    Move c e s r choice
      (quietly e (ended s e.now ending) (r.at (.keeping (ended s e.now ending).record)))

/-- **A step of a run** is one of those listed. -/
theorem step_move {m : Moved} (h : r.step c e s choice = some m) : Move c e s r choice m := by
  unfold Run.step at h
  cases hposition : r.position with
  | began =>
    rw [hposition] at h
    dsimp only at h
    split at h
    · cases h
    · split at h
      · cases h
        exact .unreadable _ hposition
      · split at h
        · cases h
          exact .removed _ hposition
        · cases h
          exact .prepares _ _ hposition
  | readying chosen =>
    rw [hposition] at h
    dsimp only at h
    split at h
    · cases h
    · cases h
      exact .takes chosen hposition
  | building chosen queue =>
    rw [hposition] at h
    dsimp only at h
    split at h
    · obtain ⟨⟨t, next⟩, hbuilt, rfl⟩ := Option.map_eq_some_iff.mp h
      exact .builds chosen queue _ t next hposition rfl hbuilt
    · cases h
  | streaming out =>
    rw [hposition] at h
    dsimp only at h
    split at h
    · cases h
      exact .hears out _ hposition
    · split at h
      · cases h
        exact .flushes out hposition
      · cases h
    · cases h
      exact .fails out _ hposition
    · cases h
      exact .answers out _ hposition
    · cases h
  | returned out outcome =>
    rw [hposition] at h
    dsimp only at h
    split at h
    · split at h
      · cases h
        exact .flushesLate out outcome hposition
      · cases h
    · split at h
      · cases h
        exact .closesFailed out _ hposition
      · cases h
        exact .closes out _ hposition
    · cases h
  | turned turn =>
    rw [hposition] at h
    dsimp only at h
    split at h
    · cases h
    · cases h
      exact .counts turn hposition
  | skipping turn results rest =>
    rw [hposition] at h
    dsimp only at h
    split at h
    · cases h
    · split at h
      · cases h
        exact .skipped turn results hposition
      · cases h
        exact .skips turn results _ _ _ hposition
  | deciding b =>
    rw [hposition] at h
    dsimp only at h
    split at h
    · cases h
    · split at h
      · rename_i hrest
        cases h
        refine .settles b _ hposition hrest ?_
        split
        · exact .inl ⟨_, rfl⟩
        · split
          · exact .inl ⟨_, rfl⟩
          · exact .inr rfl
      · rename_i call rest hrest
        split at h
        · cases h
          exact .passes b call rest b.limited _ hposition hrest
        · rename_i hcancelled
          split at h
          · cases h
            exact .passes b call rest true _ hposition hrest
          · rename_i hlimit
            cases h
            exact .calls b call rest hposition hrest (by simpa using hcancelled)
              (Nat.not_le.mp hlimit)
  | calling b call item stage =>
    rw [hposition] at h
    dsimp only at h
    rcases stepCall_move h with ⟨next, hmove, hrun⟩ | ⟨state, text, answer, rfl, rfl⟩
    · obtain ⟨t, r', counter, happened⟩ := m
      obtain rfl : r' = _ := hrun
      exact .works b call item stage next t counter happened hposition hmove
    · exact .finishes b call item state text answer hposition
  | failing failed =>
    rw [hposition] at h
    dsimp only at h
    split at h
    · cases h
    · cases h
      exact .blames failed _ hposition
  | ending ending =>
    rw [hposition] at h
    dsimp only at h
    split at h
    · cases h
    · cases h
      exact .ends ending hposition
  | keeping kept =>
    rw [hposition] at h
    cases h
  | saving kept =>
    rw [hposition] at h
    cases h
  | closing =>
    rw [hposition] at h
    cases h

/-! ## What a step leaves alone -/

/-- A conversation is the same one. -/
def Same (s t : Session) : Prop := t.id = s.id ∧ t.address = s.address

theorem Redrawn.same {t : Session} (h : Redrawn s t) : Same s t := by
  obtain ⟨_, _, _, _, rfl⟩ := h
  exact ⟨rfl, rfl⟩

/-- Building the chat changes what the run owns. -/
theorem ready_same {chosen : Provider} {queue : List String} {failed : Option Failure} {t : Session}
    {next : Position} (h : ready s r chosen queue failed = some (t, next)) : Same s t := by
  unfold ready at h
  split at h
  · dsimp only at h
    split at h <;> (cases h; exact ⟨rfl, rfl⟩)
  · split at h
    · split at h <;> (cases h; exact ⟨rfl, rfl⟩)
    · dsimp only at h
      split at h
      · split at h
        · cases h
        · cases h
          exact ⟨rfl, rfl⟩
      · split at h <;> (cases h; exact ⟨rfl, rfl⟩)

theorem ended_same (s : Session) (now : Nat) (ending : Option Ending) :
    Same s (ended s now ending) := by
  cases ending with
  | none => exact ⟨rfl, rfl⟩
  | some ended => exact ⟨rfl, rfl⟩

/-- An event that is about another conversation. -/
def Elsewhere (s : Session) : Happening → Prop
  | .appended record _ => record.session ≠ s.id
  | .foreign record => record.session ≠ s.id
  | .began address | .stopped address => address ≠ s.address
  | .prepared address _ => address ≠ s.address
  | .posed address _ _ _ | .decided address _ _ => address ≠ s.address
  | .reread address _ _ => address ≠ s.address
  | .compared address _ _ _ => address ≠ s.address
  | .ran address _ _ _ _ _ => address ≠ s.address

/-- What a step of a call leaves alone: which conversation it is, and whatever is not shown, asked
    or remembered. -/
theorem CallMove.frame {call : ToolCall} {item : Nat} {stage next : Stage} {t : Session}
    {counter : Nat} {happened : List Happening}
    (h : CallMove c e s r call item choice stage t next counter happened) :
    ∃ asks remembered,
      Redrawn { s with asks := asks, remembered := remembered } t := by
  cases h with
  | connects | remembers | considers | marks =>
    exact ⟨s.asks, s.remembered, redrawn_changeTool s _ _⟩
  | poses w agreed ask => exact ⟨item :: s.asks, s.remembered, redrawn_changeTool _ _ _⟩
  | approvesAll w decided => exact ⟨s.asks, w.tool.name :: s.remembered, .refl _⟩
  | abandons => exact ⟨s.asks.erase item, s.remembered, .refl _⟩
  | _ => exact ⟨s.asks, s.remembered, .refl s⟩

/-- What happens in a call is about its conversation. -/
theorem CallMove.elsewhere {call : ToolCall} {item : Nat} {stage next : Stage} {t : Session}
    {counter : Nat} {happened : List Happening}
    (h : CallMove c e s r call item choice stage t next counter happened) {other : Session}
    (hid : s.id ≠ other.id) (haddress : s.address ≠ other.address) :
    ∀ event ∈ happened, Elsewhere other event := by
  have hone : ∀ event, Elsewhere other event →
      ∀ event' ∈ ([event] : List Happening), Elsewhere other event' := by
    intro event hevent event' hmem
    rw [List.mem_singleton.mp hmem]
    exact hevent
  cases h with
  | reads | runs | poses | rereads | rereadsLast | rereadsOff | compares => exact hone _ haddress
  | notes | notesUnrecorded | starts | startsUnrecorded | finishes | keeps => exact hone _ hid
  | _ => exact fun _ hmem => absurd hmem List.not_mem_nil

/-- **The frame of a step**: it is one conversation and one run, and what happens is about
    them. -/
theorem Move.frame {m : Moved} (h : Move c e s r choice m) :
    Same s m.session ∧ m.run.id = r.id ∧ m.run.address = r.address ∧
      m.run.cancelled = r.cancelled := by
  cases h with
  | works b call item stage next t counter happened hposition hmove =>
    obtain ⟨asks, remembered, hredrawn⟩ := hmove.frame
    exact ⟨hredrawn.same, rfl, rfl, rfl⟩
  | builds chosen queue failed t next hposition hchoice hready =>
    exact ⟨ready_same hready, rfl, rfl, rfl⟩
  | flushes out | flushesLate out | closesFailed out | closes out =>
    exact ⟨(redrawn_flush s out).same, rfl, rfl, rfl⟩
  | finishes => exact ⟨(redrawn_changeTool s _ _).same, rfl, rfl, rfl⟩
  | ends ending => exact ⟨ended_same s _ ending, rfl, rfl, rfl⟩
  | _ => exact ⟨⟨rfl, rfl⟩, rfl, rfl, rfl⟩

theorem Move.elsewhere {m : Moved} (h : Move c e s r choice m) {other : Session}
    (hid : s.id ≠ other.id) (haddress : s.address ≠ other.address) :
    ∀ event ∈ m.happened, Elsewhere other event := by
  cases h with
  | works b call item stage next t counter happened hposition hmove =>
    exact hmove.elsewhere hid haddress
  | prepares settings chosen hposition =>
    intro event hmem
    rw [List.mem_singleton.mp hmem]
    exact haddress
  | _ => exact fun _ hmem => absurd hmem List.not_mem_nil

/-- No step of a run is another writer's line. -/
theorem Move.own {m : Moved} (h : Move c e s r choice m) (id : String) :
    ∀ event ∈ m.happened, event.isOf id = false := by
  have hone : ∀ event : Happening, event.isOf id = false →
      ∀ event' ∈ [event], event'.isOf id = false := by
    intro event hevent event' hmem
    rw [List.mem_singleton.mp hmem]
    exact hevent
  cases h with
  | works b call item stage next t counter happened hposition hmove =>
    cases hmove <;> first | exact hone _ rfl | exact fun _ hmem => absurd hmem List.not_mem_nil
  | prepares => exact hone _ rfl
  | _ => exact fun _ hmem => absurd hmem List.not_mem_nil

/-- At most one event happens in a step. -/
theorem Move.one {m : Moved} (h : Move c e s r choice m) :
    m.happened = [] ∨ ∃ event, m.happened = [event] := by
  cases h with
  | works b call item stage next t counter happened hposition hmove =>
    cases hmove <;> first | exact .inl rfl | exact .inr ⟨_, rfl⟩
  | prepares => exact .inr ⟨_, rfl⟩
  | _ => exact .inl rfl

/-- The record a run keeps is of its conversation. -/
def Position.keeps (id : String) : Position → Prop
  | .keeping kept | .saving kept => kept.id = id
  | _ => True

/-- The record a run is to keep. -/
def Position.record : Position → Option Record
  | .keeping kept | .saving kept => some kept
  | _ => none

/-- The record a run takes is the one of its conversation as it leaves it. -/
theorem Move.record {m : Moved} (h : Move c e s r choice m) {kept : Record}
    (hkept : m.run.position.record = some kept) : kept = m.session.record := by
  cases h with
  | builds chosen queue failed t next hposition hchoice hready =>
    change next.record = some kept at hkept
    unfold ready at hready
    repeat' split at hready
    all_goals
      first
      | cases hready
        cases hkept
      | cases hready
  | counts turn hposition =>
    change (afterTurn turn).record = some kept at hkept
    unfold afterTurn at hkept
    repeat' split at hkept
    all_goals cases hkept
  | settles b next hposition hrest hnext => rcases hnext with ⟨ended, rfl⟩ | rfl <;> cases hkept
  | ends ending hposition =>
    cases hkept
    rfl
  | _ => cases hkept

/-- A run keeps the record of the conversation it answers. -/
theorem Move.keeps {m : Moved} (h : Move c e s r choice m) : m.run.position.keeps s.id := by
  have hid : m.session.id = s.id := h.frame.1.1
  have hrecord : ∀ kept, m.run.position.record = some kept → kept.id = s.id := by
    intro kept hkept
    rw [h.record hkept]
    exact hid
  cases hposition : m.run.position with
  | keeping kept | saving kept =>
    rw [hposition] at hrecord
    exact hrecord kept rfl
  | _ => trivial

end MqStudio.Assistant
