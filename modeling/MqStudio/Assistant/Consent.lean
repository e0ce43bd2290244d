import MqStudio.Assistant.Answers
import MqStudio.Lib.History

/-!
# The Person's Consent

In the window the person's answer is the whole of the permission. What let a write through is
traced in what happened before its tool was run: the settings that offered it, the question about
this very call and its answer, the settings read again, and for a destruction the comparison of the
profile the person was shown with the one stored.

## Main definitions

- `LetThrough`: how a write was let through.
- `consented`: the rule a tool is run under.

## Main results

- `writes_consented`: every tool that is run follows the rule.
- `destroys_repointed`: the comparison is not made again as the tool is run.
-/

namespace MqStudio.Assistant

open MqStudio.Agent (Append Blast Input Refusal Tool)
open MqStudio.Lib
open MqStudio.Model

/-! ## What lets a write through -/

/-- What happened since the latest run on the conversation at an address began. -/
def sinceBegan (address : Nat) (h : List Happening) : List Happening :=
  h.takeWhile fun event => event ≠ .began address

/-- The question about a call was answered with a yes, during the run. -/
def Answered (h : List Happening) (address item : Nat) (w : Write)
    (agreed : Option ConnectionProfile) : Prop :=
  ∃ decision : Decision, decision.approve = true ∧
    List.Sublist [.decided address item decision, .posed address item w agreed]
      (sinceBegan address h)

/-- A call of the tool was approved for the rest of the conversation. -/
def Remembered (h : List Happening) (address : Nat) (name : String) : Prop :=
  ∃ (item : Nat) (w : Write) (decision : Decision), w.tool.name = name ∧
    decision.approve = true ∧ decision.remember = true ∧
    List.Sublist [.decided address item decision, .posed address item w none] h

/-- A write was offered by the settings its run was set up from. -/
def Offered (h : List Happening) (address : Nat) (tool : Tool) : Prop :=
  ∃ settings, Happening.prepared address settings ∈ sinceBegan address h ∧ tool ∈ prepare settings

/-- **How a write was let through**: what happened in this order, the latest first. -/
inductive LetThrough (h : List Happening) (address item : Nat) (w : Write) : Prop where
  | confirmed (agreed current : ConnectionProfile) (settings : Settings) (decision : Decision) :
    w.tool.blast = .destructive → decision.approve = true → settings.writes = .approve →
    Connection.repointed agreed current = false →
    List.Sublist [.compared address item agreed current, .reread address item settings,
      .decided address item decision, .posed address item w (some agreed)] (sinceBegan address h) →
    LetThrough h address item w
  | approved (settings : Settings) (decision : Decision) :
    w.tool.blast ≠ .destructive → decision.approve = true → settings.writes = .approve →
    List.Sublist [.reread address item settings, .decided address item decision,
      .posed address item w none] (sinceBegan address h) →
    LetThrough h address item w
  | remembered (settings : Settings) (decision : Decision) (other : Nat) (before : Write) :
    w.tool.blast ≠ .destructive → decision.approve = true → decision.remember = true →
    before.tool.name = w.tool.name → settings.writes = .approve →
    .reread address item settings ∈ sinceBegan address h →
    List.Sublist [.reread address item settings, .decided address other decision,
      .posed address other before none] h →
    LetThrough h address item w

/-- **The rule a tool is run under**: one that writes was offered and let through. -/
def consented (earlier : List Happening) : Happening → Prop
  | .ran address item tool input number _ =>
    tool.blast ≠ .read → Offered earlier address tool ∧
      ∃ n, number = some n ∧ LetThrough earlier address item ⟨tool, input, n⟩
  | _ => True

/-! ## More happens -/

section Grows

variable {h h' : List Happening} {address item : Nat} {w : Write} {event : Happening}

/-- More happened, in the same run. -/
def Grows (address : Nat) (h h' : List Happening) : Prop :=
  (sinceBegan address h).Sublist (sinceBegan address h') ∧ h.Sublist h'

theorem sinceBegan_cons (hevent : event ≠ .began address) :
    sinceBegan address (event :: h) = event :: sinceBegan address h := by
  simp [sinceBegan, hevent]

theorem grows_cons (hevent : event ≠ .began address) : Grows address h (event :: h) := by
  refine ⟨?_, List.sublist_cons_self event h⟩
  rw [sinceBegan_cons hevent]
  exact List.sublist_cons_self _ _

theorem Grows.refl (address : Nat) (h : List Happening) : Grows address h h :=
  ⟨List.Sublist.refl _, List.Sublist.refl _⟩

theorem Answered.grows {agreed : Option ConnectionProfile} (ha : Answered h address item w agreed)
    (hgrows : Grows address h h') : Answered h' address item w agreed := by
  obtain ⟨decision, happrove, hsub⟩ := ha
  exact ⟨decision, happrove, hsub.trans hgrows.1⟩

theorem Remembered.grows {name : String} (hr : Remembered h address name) (hsub : h.Sublist h') :
    Remembered h' address name := by
  obtain ⟨item, w, decision, hname, happrove, hremember, hlist⟩ := hr
  exact ⟨item, w, decision, hname, happrove, hremember, hlist.trans hsub⟩

theorem Offered.grows {tool : Tool} (ho : Offered h address tool) (hgrows : Grows address h h') :
    Offered h' address tool := by
  obtain ⟨settings, hmem, htool⟩ := ho
  exact ⟨settings, hgrows.1.subset hmem, htool⟩

theorem LetThrough.grows (hl : LetThrough h address item w) (hgrows : Grows address h h') :
    LetThrough h' address item w := by
  cases hl with
  | confirmed agreed current settings decision hblast happrove hwrites hsame hsub =>
    exact .confirmed agreed current settings decision hblast happrove hwrites hsame
      (hsub.trans hgrows.1)
  | approved settings decision hblast happrove hwrites hsub =>
    exact .approved settings decision hblast happrove hwrites (hsub.trans hgrows.1)
  | remembered settings decision other before hblast happrove hremember hname hwrites hmem hsub =>
    exact .remembered settings decision other before hblast happrove hremember hname hwrites
      (hgrows.1.subset hmem) (hsub.trans hgrows.2)

end Grows

/-! ## Where a call stands -/

/-- The tool of a call that stands here. -/
def Stage.tool : Stage → Option Tool
  | .reading tool _ | .numbering tool _ => some tool
  | .connecting w _ | .questioning w | .noting w _ _ | .consulting w | .posing w _ _ => some w.tool
  | .waiting w _ | .abandoning w | .rereading w _ | .comparing w _ | .starting w _ => some w.tool
  | .marking w _ | .running w _ | .finishing w _ | .refusing w _ _ _ => some w.tool
  | .settling .. => none

/-- A write got past its question. -/
def Passed (h : List Happening) (address item : Nat) (w : Write) (pass : Pass) : Prop :=
  match pass.agreed with
  | some profile => w.tool.blast = .destructive ∧ Answered h address item w (some profile)
  | none => w.tool.blast ≠ .destructive ∧
      (Answered h address item w none ∨ Remembered h address w.tool.name)

/-- **What has happened where a call stands**, of the answers that were given. -/
def Stage.Warranted (h : List Happening) (address item : Nat) (answers : List (Nat × Decision)) :
    Stage → Prop
  | .reading tool _ => tool.blast = .read
  | .questioning w | .noting w _ _ => w.tool.blast = .destructive
  | .consulting w => w.tool.blast ≠ .destructive
  | .posing w agreed _ => agreed.isSome = true ↔ w.tool.blast = .destructive
  | .waiting w agreed => (agreed.isSome = true ↔ w.tool.blast = .destructive) ∧
      Happening.posed address item w agreed ∈ sinceBegan address h ∧
      ∀ decision, answers.lookup item = some decision →
        List.Sublist [.decided address item decision, .posed address item w agreed]
          (sinceBegan address h)
  | .rereading w pass => Passed h address item w pass
  | .comparing w pass => w.tool.blast = .destructive ∧ ∀ profile, pass.agreed = some profile →
      ∃ (settings : Settings) (decision : Decision), decision.approve = true ∧
        settings.writes = .approve ∧
        List.Sublist [.reread address item settings, .decided address item decision,
          .posed address item w (some profile)] (sinceBegan address h)
  | .starting w _ | .marking w _ | .running w _ => LetThrough h address item w
  | _ => True

section Calls

variable {c : Config} {e : Surroundings} {s t : Session} {r : Run} {choice : Choice}
  {call : ToolCall} {item : Nat} {stage next : Stage} {h h' : List Happening} {address : Nat}
  {answers : List (Nat × Decision)}

theorem Stage.Warranted.grows (hw : stage.Warranted h address item answers)
    (hgrows : Grows address h h') : stage.Warranted h' address item answers := by
  cases stage with
  | waiting w agreed =>
    exact ⟨hw.1, hgrows.1.subset hw.2.1, fun decision hlookup => (hw.2.2 decision hlookup).trans hgrows.1⟩
  | rereading w pass =>
    obtain ⟨agreed, approved⟩ := pass
    cases agreed with
    | some profile => exact ⟨hw.1, hw.2.grows hgrows⟩
    | none =>
      refine ⟨hw.1, ?_⟩
      rcases hw.2 with hanswered | hremembered
      · exact .inl (hanswered.grows hgrows)
      · exact .inr (hremembered.grows hgrows.2)
  | comparing w pass =>
    refine ⟨hw.1, fun profile hprofile => ?_⟩
    obtain ⟨settings, decision, happrove, hwrites, hsub⟩ := hw.2 profile hprofile
    exact ⟨settings, decision, happrove, hwrites, hsub.trans hgrows.1⟩
  | starting | marking | running => exact LetThrough.grows hw hgrows
  | _ => exact hw

/-- What happens in a call is not the start of a run. -/
theorem CallMove.grows {counter : Nat} {happened : List Happening}
    (hmove : CallMove c e s r call item choice stage t next counter happened) (address : Nat) :
    Grows address h (happened ++ h) := by
  cases hmove <;> first | exact .refl _ _ | exact grows_cons (by simp)

/-- The tool of a call stays the one it was dispatched to. -/
theorem CallMove.tool {counter : Nat} {happened : List Happening}
    (hmove : CallMove c e s r call item choice stage t next counter happened) {tool : Tool}
    (htool : next.tool = some tool) : stage.tool = some tool := by
  cases hmove with
  | reads tool input outcome => cases outcome <;> cases htool
  | finishes w outcome => cases outcome <;> cases htool
  | keeps => cases htool
  | refuses w stage error text hrefusable =>
    cases stage with
    | questioning | consulting | rereading | comparing =>
      cases hrefusable
      exact htool
    | _ => cases hrefusable
  | _ => exact htool

/-- A step of a call gives no answer, and is of the same conversation. -/
theorem CallMove.unanswering {counter : Nat} {happened : List Happening}
    (hmove : CallMove c e s r call item choice stage t next counter happened) :
    t.address = s.address ∧ t.answers = s.answers := by
  obtain ⟨asks, remembered, _, _, _, _, rfl⟩ := hmove.frame
  exact ⟨rfl, rfl⟩

theorem sublist_of_mem {event : Happening} {events : List Happening} (hmem : event ∈ events) :
    List.Sublist [event] events :=
  List.singleton_sublist.mpr hmem

/-- **A step of a call** is taken on what has happened, and leaves what it happened for. -/
theorem Stage.Warranted.move (hw : stage.Warranted h s.address item s.answers)
    (hremembered : ∀ name ∈ s.remembered, Remembered h s.address name) (hasked : Asked s item stage)
    {counter : Nat} {happened : List Happening}
    (hmove : CallMove c e s r call item choice stage t next counter happened) :
    next.Warranted (happened ++ h) s.address item s.answers := by
  have hgrows := hmove.grows (h := h) s.address
  cases hmove with
  | reads tool input outcome => cases outcome <;> trivial
  | finishes w outcome => cases outcome <;> trivial
  | connects w connection hblast => exact hblast
  | remembers w connection hblast hname => exact ⟨hblast, .inr (hremembered _ hname)⟩
  | considers w connection hblast => exact hblast
  | questions => exact hw
  | notes w question profile outcome hok => exact iff_of_true rfl hw
  | consults w caveat => exact iff_of_false Bool.false_ne_true hw
  | poses w agreed ask =>
    refine ⟨hw, ?_, fun decision hlookup => ?_⟩
    · rw [List.singleton_append, sinceBegan_cons (by simp)]
      exact List.mem_cons_self
    · -- no answer was given before the question
      obtain ⟨before, after, hsplit, -⟩ := List.lookup_eq_some_iff.mp hlookup
      have hmem : (item, decision) ∈ s.answers := by
        rw [hsplit]
        exact List.mem_append_right _ List.mem_cons_self
      exact absurd (hasked.2 rfl _ hmem) (Nat.lt_irrefl item)
  | confirms w profile decided hchoice hanswer happrove =>
    exact ⟨hw.1.mp rfl, decided, happrove, hw.2.2 decided hanswer⟩
  | approves w decided hchoice hanswer happrove =>
    exact ⟨fun hblast => absurd (hw.1.mpr hblast) Bool.false_ne_true,
      .inl ⟨decided, happrove, hw.2.2 decided hanswer⟩⟩
  | approvesAll w decided hchoice hanswer happrove =>
    exact ⟨fun hblast => absurd (hw.1.mpr hblast) Bool.false_ne_true,
      .inl ⟨decided, happrove, hw.2.2 decided hanswer⟩⟩
  | rereads w profile approved settings hwrites =>
    obtain ⟨hblast, decision, happrove, hsub⟩ := hw
    refine ⟨hblast, fun profile' hprofile' => ?_⟩
    cases hprofile'
    refine ⟨settings, decision, happrove, hwrites, ?_⟩
    rw [List.singleton_append, sinceBegan_cons (by simp)]
    exact hsub.cons_cons _
  | rereadsLast w approved settings hwrites =>
    obtain ⟨hblast, hpassed⟩ := hw
    rcases hpassed with ⟨decision, happrove, hsub⟩ | hname
    · refine .approved settings decision hblast happrove hwrites ?_
      rw [List.singleton_append, sinceBegan_cons (by simp)]
      exact hsub.cons_cons _
    · obtain ⟨other, before, decision, hname, happrove, hremember, hsub⟩ := hname
      refine .remembered settings decision other before hblast happrove hremember hname hwrites ?_
        (hsub.cons_cons _)
      rw [List.singleton_append, sinceBegan_cons (by simp)]
      exact List.mem_cons_self
  | compares w profile current approved hcurrent hsame =>
    obtain ⟨hblast, hreread⟩ := hw
    obtain ⟨settings, decision, happrove, hwrites, hsub⟩ := hreread profile rfl
    refine .confirmed profile current settings decision hblast happrove hwrites hsame ?_
    rw [List.singleton_append, sinceBegan_cons (by simp)]
    exact hsub.cons_cons _
  | starts w pass outcome => exact LetThrough.grows hw hgrows
  | marks => exact hw
  | _ => trivial

/-- **A tool is run** only under the rule. -/
theorem CallMove.consented (hw : stage.Warranted h s.address item s.answers)
    (hoffered : ∀ tool, stage.tool = some tool → Offered h s.address tool) {counter : Nat}
    {happened : List Happening}
    (hmove : CallMove c e s r call item choice stage t next counter happened)
    (heach : History.Each consented h) : History.Each consented (happened ++ h) := by
  cases hmove with
  | reads tool input outcome =>
    refine History.each_cons.mpr ⟨fun hwrites => absurd hw hwrites, heach⟩
  | runs w pass outcome =>
    refine History.each_cons.mpr ⟨fun _ => ⟨hoffered _ rfl, w.number, rfl, hw⟩, heach⟩
  | notes | notesUnrecorded | poses | rereadsOff | rereads | rereadsLast | compares | starts
  | startsUnrecorded | finishes | keeps =>
    exact History.each_cons.mpr ⟨trivial, heach⟩
  | _ => exact heach

/-- What is remembered was approved for the rest of the conversation. -/
theorem CallMove.remembered (hw : stage.Warranted h s.address item s.answers)
    (hremembered : ∀ name ∈ s.remembered, Remembered h s.address name) {counter : Nat}
    {happened : List Happening}
    (hmove : CallMove c e s r call item choice stage t next counter happened) :
    ∀ name ∈ t.remembered, Remembered (happened ++ h) t.address name := by
  have hsub : h.Sublist (happened ++ h) := List.sublist_append_right _ _
  have hold : ∀ name ∈ s.remembered, Remembered (happened ++ h) s.address name :=
    fun name hname => (hremembered name hname).grows hsub
  have hshown : ∀ f, ∀ name ∈ (s.changeTool item f).remembered,
      Remembered (happened ++ h) (s.changeTool item f).address name := by
    intro f
    obtain ⟨_, _, _, _, hredrawn⟩ := redrawn_changeTool s item f
    rw [hredrawn]
    exact hold
  cases hmove with
  | connects | remembers | considers | marks => exact hshown _
  | poses w agreed ask =>
    obtain ⟨_, _, _, _, hredrawn⟩ := redrawn_changeTool { s with asks := item :: s.asks } item
      fun tool => { tool with state := .waiting, ask := some ask }
    rw [hredrawn]
    exact hold
  | approvesAll w decided hchoice hanswer happrove hremember =>
    intro name hname
    rcases List.mem_cons.mp hname with rfl | hname
    · exact ⟨item, w, decided, rfl, happrove, hremember,
        (hw.2.2 decided hanswer).trans (List.takeWhile_sublist _)⟩
    · exact hold name hname
  | _ => exact hold

end Calls

/-! ## Runs -/

/-- **What has happened where a run stands.** -/
structure Warranted (h : List Happening) (s : Session) (r : Run) : Prop where
  remembered : ∀ name ∈ s.remembered, Remembered h s.address name
  offered : ∀ tool ∈ r.tools, Offered h s.address tool
  tool : ∀ b call item stage, r.position = .calling b call item stage →
    ∀ tool, stage.tool = some tool → tool ∈ r.tools
  stage : ∀ b call item stage, r.position = .calling b call item stage →
    stage.Warranted h s.address item s.answers

section Runs

variable {c : Config} {e : Surroundings} {s t : Session} {r : Run} {choice : Choice} {m : Moved}
  {h h' : List Happening}

/-- More happens, of which the run is no part. -/
theorem Warranted.grows (hw : Warranted h s r) (hgrows : Grows s.address h h') :
    Warranted h' s r where
  remembered name hname := (hw.remembered name hname).grows hgrows.2
  offered tool htool := (hw.offered tool htool).grows hgrows
  tool := hw.tool
  stage b call item stage hposition := (hw.stage b call item stage hposition).grows hgrows

/-- A call is dispatched to a tool that is offered. -/
theorem dispatch_tool {tools : List Tool} {call : ToolCall} {tool : Tool}
    (htool : (dispatch c tools call).tool = some tool) : tool ∈ tools := by
  unfold dispatch at htool
  split at htool
  · cases htool
  · rename_i found hfound
    have hmem := List.mem_of_find?_eq_some hfound
    split at htool
    · cases htool
    · split at htool
      · cases htool
        exact hmem
      · cases htool
        exact hmem

theorem dispatch_warranted (c : Config) (tools : List Tool) (call : ToolCall) (address item : Nat)
    (answers : List (Nat × Decision)) :
    (dispatch c tools call).Warranted h address item answers := by
  unfold dispatch
  split
  · trivial
  · split
    · trivial
    · split
      · rename_i hread
        exact hread
      · trivial

/-- A run that works on no call runs no tool. -/
theorem Warranted.elsewhere (hw : Warranted h s r) {position : Position} {t : Session}
    (hremembered : t.remembered = s.remembered) (haddress : t.address = s.address)
    (hcalling : ∀ b call item stage, position ≠ .calling b call item stage) :
    Warranted h t (r.at position) where
  remembered := by
    rw [hremembered, haddress]
    exact hw.remembered
  offered := by
    rw [haddress]
    exact hw.offered
  tool b call item stage hposition := absurd hposition (hcalling b call item stage)
  stage b call item stage hposition := absurd hposition (hcalling b call item stage)

theorem Redrawn.remembers (hredrawn : Redrawn s t) :
    t.remembered = s.remembered ∧ t.address = s.address := by
  obtain ⟨_, _, _, _, rfl⟩ := hredrawn
  exact ⟨rfl, rfl⟩

theorem ready_remembers {chosen : Provider} {queue : List String} {failed : Option Failure}
    {next : Position} (hready : ready s r chosen queue failed = some (t, next)) :
    t.remembered = s.remembered ∧ t.address = s.address ∧
      ∀ b call item stage, next ≠ .calling b call item stage := by
  unfold ready at hready
  repeat' split at hready
  all_goals
    first
    | cases hready
      exact ⟨rfl, rfl, fun _ _ _ _ hcalling => (by cases hcalling)⟩
    | cases hready

theorem ended_remembers (s : Session) (now : Nat) (ending : Option Ending) :
    (ended s now ending).remembered = s.remembered ∧ (ended s now ending).address = s.address := by
  cases ending with
  | none => exact ⟨rfl, rfl⟩
  | some ended => exact ⟨rfl, rfl⟩

theorem afterTurn_calling (turn : Turn) (b : Batch) (call : ToolCall) (item : Nat) (stage : Stage) :
    afterTurn turn ≠ .calling b call item stage := by
  unfold afterTurn
  intro hcalling
  repeat' split at hcalling
  all_goals cases hcalling

/-- **A step of a run** leaves what it happened for. -/
theorem Warranted.move (hw : Warranted h s r) (hanswering : Answering s r.position)
    (hmove : Move c e s r choice m) : Warranted (m.happened ++ h) m.session m.run := by
  cases hmove with
  | prepares settings chosen hposition =>
    refine ⟨fun name hname => ?_, fun tool htool => ⟨settings, ?_, htool⟩, ?_, ?_⟩
    · exact (hw.remembered name hname).grows (List.sublist_append_right _ _)
    · rw [List.singleton_append, sinceBegan_cons (by simp)]
      exact List.mem_cons_self
    · exact fun _ _ _ _ hcalling => (by cases hcalling)
    · exact fun _ _ _ _ hcalling => (by cases hcalling)
  | builds chosen queue failed t next hposition hchoice hready =>
    obtain ⟨hremembered, haddress, hcalling⟩ := ready_remembers hready
    exact hw.elsewhere hremembered haddress hcalling
  | flushes out | flushesLate out | closesFailed out | closes out =>
    obtain ⟨hremembered, haddress⟩ := (redrawn_flush s out).remembers
    exact hw.elsewhere hremembered haddress fun _ _ _ _ hcalling => (by cases hcalling)
  | counts turn hposition => exact hw.elsewhere rfl rfl (afterTurn_calling turn)
  | settles b next hposition hrest hnext =>
    refine hw.elsewhere rfl rfl fun b call item stage hcalling => ?_
    rcases hnext with ⟨ended, rfl⟩ | rfl <;> cases hcalling
  | calls b call rest hposition =>
    refine ⟨hw.remembered, hw.offered, fun _ _ _ _ hcalling => ?_, fun _ _ _ _ hcalling => ?_⟩
    · cases hcalling
      exact fun tool => dispatch_tool
    · cases hcalling
      exact dispatch_warranted _ _ _ _ _ _
  | works b call item stage next t counter happened hposition hcall =>
    rw [hposition] at hanswering
    have hstage := hw.stage b call item stage hposition
    obtain ⟨haddress, hanswers⟩ := hcall.unanswering
    refine ⟨hcall.remembered hstage hw.remembered, fun tool htool => ?_, fun _ _ _ _ hcalling => ?_,
      fun _ _ _ _ hcalling => ?_⟩
    · rw [haddress]
      exact (hw.offered tool htool).grows (hcall.grows s.address)
    · cases hcalling
      exact fun tool htool => hw.tool b call item stage hposition tool (hcall.tool htool)
    · cases hcalling
      rw [haddress, hanswers]
      exact hstage.move hw.remembered hanswering.1.asked hcall
  | finishes b call item state text answer hposition =>
    obtain ⟨hremembered, haddress⟩ := (redrawn_changeTool s item
      fun tool => { tool with state := state, result := text }).remembers
    exact hw.elsewhere hremembered haddress fun _ _ _ _ hcalling => (by cases hcalling)
  | ends ending hposition =>
    obtain ⟨hremembered, haddress⟩ := ended_remembers s e.now ending
    exact hw.elsewhere hremembered haddress fun _ _ _ _ hcalling => (by cases hcalling)
  | _ => exact hw.elsewhere rfl rfl fun _ _ _ _ hcalling => (by cases hcalling)

/-- **A run** runs its tools under the rule. -/
theorem Warranted.consented (hw : Warranted h s r) (hmove : Move c e s r choice m)
    (heach : History.Each consented h) : History.Each consented (m.happened ++ h) := by
  cases hmove with
  | works b call item stage next t counter happened hposition hcall =>
    refine hcall.consented (hw.stage b call item stage hposition) (fun tool htool => ?_) heach
    exact hw.offered tool (hw.tool b call item stage hposition tool htool)
  | prepares => exact History.each_cons.mpr ⟨trivial, heach⟩
  | _ => exact heach

end Runs

/-! ## Every interleaving -/

/-- What is kept up, for the person to have consented. -/
def consenting (c : Config) : Upkeep where
  good := (answering c).good
  idle h s := (answering c).idle h s ∧ ∀ name ∈ s.remembered, Remembered h s.address name
  busy h s r := (answering c).busy h s r ∧ Warranted h s r
  told h := (answering c).told h ∧ History.Each consented h

section Reachable

variable {c : Config} {h : List Happening} {s : Session} {r : Run}

/-- An event that is no step of a call is under no rule. -/
theorem consented_aside {event : Happening} (haside : event.aside = true) (earlier : List Happening) :
    consented earlier event := by
  cases event with
  | ran => cases haside
  | _ => trivial

/-- What happens elsewhere does not start a run here. -/
theorem grows_elsewhere {event : Happening} (helsewhere : Elsewhere s event) :
    Grows s.address h (event :: h) := by
  apply grows_cons
  rintro rfl
  exact helsewhere rfl

/-- The answer to a question is about the call that put it. -/
theorem Warranted.decides (hw : Warranted h s r) (item : Nat) (decision : Decision) :
    Warranted (.decided s.address item decision :: h) (s.decides item decision) r := by
  have hgrows : Grows s.address h (.decided s.address item decision :: h) := grows_cons (by simp)
  have hmore := hw.grows hgrows
  refine ⟨hmore.remembered, hmore.offered, hw.tool, fun b call own stage hposition => ?_⟩
  have hstage := hmore.stage b call own stage hposition
  cases stage with
  | waiting w agreed =>
    refine ⟨hstage.1, hstage.2.1, fun given hlookup => ?_⟩
    rw [Session.decides] at hlookup
    simp only [List.lookup_cons] at hlookup
    split at hlookup
    · rename_i hsame
      obtain rfl : own = item := by simpa using hsame
      cases hlookup
      have hposed := (hw.stage b call own _ hposition).2.1
      rw [sinceBegan_cons (by simp)]
      exact (sublist_of_mem hposed).cons_cons _
    · exact hstage.2.2 given hlookup
  | _ => exact hstage

/-- **Consent is kept up** by every step. -/
theorem keeps_consenting (c : Config) : Keeps c .none 0 (consenting c) where
  told_nil := ⟨(keeps_answering c).told_nil, History.each_nil _⟩
  told_aside h event htold haside :=
    ⟨(keeps_answering c).told_aside h event htold.1 haside,
      History.each_cons.mpr ⟨consented_aside haside h, htold.2⟩⟩
  version := (keeps_answering c).version
  new h id address chosen now hbound :=
    ⟨(keeps_answering c).new h id address chosen now hbound, fun name hname => (by cases hname)⟩
  restored h kept address sent hbound hgood hlimit :=
    ⟨(keeps_answering c).restored h kept address sent hbound hgood hlimit,
      fun name hname => (by cases hname)⟩
  recorded h s hidle := (keeps_answering c).recorded h s hidle.1
  speaks h s now text composed about hidle :=
    ⟨(keeps_answering c).speaks h s now text composed about hidle.1, hidle.2⟩
  starts h s hidle := by
    refine ⟨(keeps_answering c).starts h s hidle.1, fun name hname => ?_, fun tool htool => ?_, ?_, ?_⟩
    · exact (hidle.2 name hname).grows (List.sublist_cons_self _ _)
    · cases htool
    · exact fun _ _ _ _ hposition => (by cases hposition)
    · exact fun _ _ _ _ hposition => (by cases hposition)
  idle_renamed h s title hidle := ⟨(keeps_answering c).idle_renamed h s title hidle.1, hidle.2⟩
  busy_renamed h s r title hbusy :=
    ⟨(keeps_answering c).busy_renamed h s r title hbusy.1, hbusy.2.remembered, hbusy.2.offered,
      hbusy.2.tool, hbusy.2.stage⟩
  idle_decides h s item decision hitem hidle :=
    ⟨(keeps_answering c).idle_decides h s item decision hitem hidle.1,
      fun name hname => (hidle.2 name hname).grows (List.sublist_cons_self _ _)⟩
  busy_decides h s r item decision hitem hbusy :=
    ⟨(keeps_answering c).busy_decides h s r item decision hitem hbusy.1,
      hbusy.2.decides item decision⟩
  stops h s r hbusy hlimit := by
    have hother : Happening.stopped s.address ≠ .began s.address := by simp
    have hmore := hbusy.2.grows (grows_cons hother)
    exact ⟨(keeps_answering c).stops h s r hbusy.1 hlimit, hmore.remembered, hmore.offered,
      hmore.tool, hmore.stage⟩
  idle_elsewhere h s event helsewhere hidle :=
    ⟨(keeps_answering c).idle_elsewhere h s event helsewhere hidle.1,
      fun name hname => (hidle.2 name hname).grows (List.sublist_cons_self _ _)⟩
  busy_elsewhere h s r event helsewhere haside hbusy :=
    ⟨(keeps_answering c).busy_elsewhere h s r event helsewhere haside hbusy.1,
      hbusy.2.grows (grows_elsewhere helsewhere)⟩
  run h e s r choice m htold hbusy haddress hlimit hmove := by
    obtain ⟨hanswering, hanswered⟩ :=
      (keeps_answering c).run h e s r choice m htold.1 hbusy.1 haddress hlimit hmove
    exact ⟨⟨hanswering, hbusy.2.move hbusy.1.1 hmove⟩, hanswered, hbusy.2.consented hmove htold.2⟩
  keeping h s r kept next hbusy hposition hnext := by
    refine ⟨(keeps_answering c).keeping h s r kept next hbusy.1 hposition hnext, ?_⟩
    refine hbusy.2.elsewhere rfl rfl fun _ _ _ _ hcalling => ?_
    rcases hnext with rfl | rfl <;> cases hcalling
  saving h s r kept hbusy hposition := by
    obtain ⟨hgood, hnext⟩ := (keeps_answering c).saving h s r kept hbusy.1 hposition
    exact ⟨hgood, hnext, hbusy.2.elsewhere rfl rfl fun _ _ _ _ hcalling => (by cases hcalling)⟩
  closing h s r hbusy hposition :=
    ⟨(keeps_answering c).closing h s r hbusy.1 hposition, hbusy.2.remembered⟩

/-- **The assistant makes no write the person did not let through.** Whenever a tool that writes is
    run, the settings its run was set up from offered it, and what lets it through happened before,
    in its order. -/
theorem writes_consented {t : Threads World Errand}
    (ht : (manager c).Reachable Machine.Always t) : History.Each consented t.shared.happened :=
  ((keeps_consenting c).always ht).shared.told.2

end Reachable

/-- The publish of an answered conversation was let through. -/
theorem writes_consented_orders :
    (ordersAfter ordersAnswered).shared.happened ≠ [] ∧
      History.Each consented (ordersAfter ordersAnswered).shared.happened := by
  refine ⟨fun hnone => ?_, writes_consented (ordersAfter_reachable ordersAnswered)⟩
  have hexecuted := executed_ordersAnswered
  rw [hnone] at hexecuted
  cases hexecuted

/-! ## Between the comparison and the tool -/

/-- The profile a person confirmed still dials alike as the tool is run. -/
def undisturbed (earlier : List Happening) : Happening → Prop
  | .ran address item tool input (some number) current =>
    tool.blast = .destructive → ∃ agreed,
      Happening.posed address item ⟨tool, input, number⟩ (some agreed) ∈ earlier ∧
        ∀ profile, current = some profile → Connection.repointed agreed profile = false
  | _ => True

/-- The profile a question named. -/
def Happening.agreed : Happening → Option ConnectionProfile
  | .posed _ _ _ agreed => agreed
  | _ => none

/-- A deletion is confirmed, and its profile is saved with another address between the comparison
    and the tool. -/
def ordersRepointed : List (Program.Life Errand Say Around) :=
  ordersSent ++
    runs [.go, .go, .service none,
      .turn (.ok ⟨"", [⟨"c1", "destination_delete", ordersTarget⟩], .tools, "", ⟨1, 1, 0, 0⟩⟩), .go, .go,
      .go, .go, .go, .word (some "delete orders?"), .append .stored, .go] ++
    called 2 (.decide ordersID 2 ⟨true, false⟩) [.go] ++
    runs [.answer, .go, .go, .append .stored] ++
    [some (.environment (.connections
      ((∅ : Connection.Profiles).insert 1 { ordersProfile with endpoints := "standby:9876" })))] ++
    runs [.go, .run (.done "deleted" "ok")]

/-- **The comparison is not made again**: a deletion runs on an address nobody was shown. -/
theorem destroys_repointed :
    (manager ordersConfig).Reachable Machine.Always (ordersAfter ordersRepointed) ∧
      ¬ History.Each undisturbed (ordersAfter ordersRepointed).shared.happened := by
  refine ⟨ordersAfter_reachable _, fun heach => ?_⟩
  have hran : ∃ number earlier current, (ordersAfter ordersRepointed).shared.happened =
      .ran 0 2 (Agent.define "destination_delete" "destination.delete" .destinationTarget)
        (.destinationTarget 1 "orders" "") (some number) (some current) :: earlier ∧
      ∀ event ∈ earlier, ∀ agreed ∈ event.agreed, Connection.repointed agreed current = true :=
    ⟨1, (ordersAfter ordersRepointed).shared.happened.tail,
      { ordersProfile with endpoints := "standby:9876" }, by decide +kernel⟩
  obtain ⟨number, earlier, current, hhappened, hmoved⟩ := hran
  rw [hhappened, History.each_cons] at heach
  obtain ⟨agreed, hposed, hsame⟩ := heach.1 (by decide)
  have hrepointed := hmoved _ hposed agreed rfl
  rw [hsame current rfl] at hrepointed
  cases hrepointed

end MqStudio.Assistant
