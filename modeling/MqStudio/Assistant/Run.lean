import MqStudio.Assistant.Session

/-!
# A Run

`internal/agent/assistant/run.go`: what the person said is answered in as many turns as it takes.
A run reads the settings, readies the conversation's chat, streams a turn, works through the calls
it asks for, and ends with a notice or without one.

A step is one access to what others share: a critical section of the manager's lock, a reading of
the settings or of the stored profiles, an append to the audit log, the select a question waits
in. What a model service, a broker, the disk or the person decides comes with the step.

What a tool's answer is cut to before the model is handed it, and the wording of questions, are
left to the choice; so is how a call's arguments are checked against its tool.

## Main definitions

- `Position`, `Stage`: where a run, and the call it works on, stand.
- `Run.step`: one step.
-/

namespace MqStudio.Assistant

open MqStudio.Agent (Append Blast Input Refusal Tool changedSince permits)
open MqStudio.Connection (Profiles)
open MqStudio.Lib
open MqStudio.Model

/-! ## What a run is given -/

/-- What a manager is built with, and the texts of the errors that are not its own. -/
structure Config where
  /-- `limit`: how many tools one run may call. -/
  limit : Nat
  /-- `Tool.Check`: the arguments as the tool's input, or what is wrong with them. -/
  check : Tool → String → Except String Input
  describe : Refusal → String
  /-- The error of settings that cannot be read. -/
  unreadable : String
  /-- `%q` -/
  quote : String → String

/-- What a step reads beside the conversation. -/
structure Surroundings where
  settings : Option Settings
  connections : Profiles
  now : Nat
  /-- The journal's counter. -/
  calls : Nat

/-- How a model service failed, or why it was not asked. -/
structure Failure where
  detail : String
  reason : String
  deriving DecidableEq

/-- `ending`: how a run ended, where it did not end with an answer. -/
structure Ending where
  notice : Notice
  detail : String
  reason : String
  deriving DecidableEq

/-- How running a tool came out: what it changed, and the model's share of its answer. -/
inductive Ran where
  | fails (error : String)
  | done (changed content : String)
  deriving DecidableEq

/-! ## Where a run stands -/

/-- A write that has its number. -/
structure Write where
  tool : Tool
  input : Input
  number : Nat
  deriving DecidableEq

/-- `Target`; every write has one. -/
def Write.target (w : Write) : Int := w.input.target.getD 0

/-- How a write was let through: the profile a destruction was confirmed for, and what the card
    shows. -/
structure Pass where
  agreed : Option ConnectionProfile
  approved : Approved
  deriving DecidableEq

/-- Where a call stands: what its next step is. -/
inductive Stage where
  /-- `Run`, of a tool that reads. -/
  | reading (tool : Tool) (input : Input)
  /-- `auditConnection` and `Next` -/
  | numbering (tool : Tool) (input : Input)
  /-- The card is told the connection. -/
  | connecting (w : Write) (connection : AuditConnection)
  /-- `Question` -/
  | questioning (w : Write)
  /-- `Before(Asked)` -/
  | noting (w : Write) (question : String) (profile : ConnectionProfile)
  /-- `Consequence` -/
  | consulting (w : Write)
  /-- `ask`: the question is put. -/
  | posing (w : Write) (agreed : Option ConnectionProfile) (ask : Ask)
  /-- `ask`: its select. -/
  | waiting (w : Write) (agreed : Option ConnectionProfile)
  /-- `ask`: the run was stopped. -/
  | abandoning (w : Write)
  /-- The settings are read again. -/
  | rereading (w : Write) (pass : Pass)
  /-- `ChangedSince` -/
  | comparing (w : Write) (pass : Pass)
  /-- `Before(Started)` -/
  | starting (w : Write) (pass : Pass)
  /-- The card says it runs. -/
  | marking (w : Write) (pass : Pass)
  /-- `Run`, of a write. -/
  | running (w : Write) (pass : Pass)
  /-- `Keep(Finished)` -/
  | finishing (w : Write) (outcome : Ran)
  /-- `refuse`: `Keep(Refused)` -/
  | refusing (w : Write) (state : ToolState) (error : Refusal) (text : String)
  /-- The last change of the card, and the result the model is handed. -/
  | settling (state : ToolState) (text : String) (answer : CallResult)
  deriving DecidableEq

/-- The calls of a turn: the results of those worked through, and those that follow. -/
structure Batch where
  results : List CallResult
  rest : List ToolCall
  limited : Bool
  deriving DecidableEq

/-- The batch with one more result. -/
def Batch.push (b : Batch) (result : CallResult) : Batch :=
  { b with results := b.results ++ [result] }

/-- Where a run stands: what its next step is. -/
inductive Position where
  /-- The settings are to be read. -/
  | began
  /-- `ready`: the queue is taken. -/
  | readying (chosen : Provider)
  /-- `ready`: the chat is built, or reached again. -/
  | building (chosen : Provider) (queue : List String)
  /-- `Next` -/
  | streaming (out : Stream)
  /-- `close` -/
  | returned (out : Stream) (outcome : Except Failure Turn)
  /-- `turn`: what it cost is added. -/
  | turned (turn : Turn)
  /-- A turn cut short: its calls are answered. -/
  | skipping (turn : Turn) (results : List CallResult) (rest : List ToolCall)
  /-- The next call of a turn, or none. -/
  | deciding (b : Batch)
  | calling (b : Batch) (call : ToolCall) (item : Nat) (stage : Stage)
  /-- `failure` -/
  | failing (failed : Failure)
  /-- `run`: the notice is added and the record taken. -/
  | ending (ended : Option Ending)
  /-- `keep`: the settings are read. -/
  | keeping (kept : Record)
  /-- `keep`: the archive is written. -/
  | saving (kept : Record)
  /-- `run`: it ends. -/
  | closing
  deriving DecidableEq

/-- A run going: the conversation it answers, whether it was stopped, and what it was set up
    with. -/
structure Run where
  id : String
  address : Nat
  cancelled : Bool
  tools : List Tool
  calls : Nat
  position : Position
  deriving DecidableEq

/-- The run that answers a conversation, as it starts. -/
def Run.new (s : Session) : Run := ⟨s.id, s.address, false, [], 0, .began⟩

/-- The run further on. -/
def Run.at (r : Run) (position : Position) : Run := { r with position := position }

/-- What happened, as far as the results are about it. -/
inductive Happening where
  /-- A record was appended to the audit log, or failed to be. -/
  | appended (record : Agent.Record) (outcome : Append)
  /-- Another writer appended a line. -/
  | foreign (record : Agent.Record)
  /-- A run began on the conversation at an address. -/
  | began (address : Nat)
  /-- It was set up from these settings. -/
  | prepared (address : Nat) (settings : Settings)
  /-- `Stop` returned while it was going. -/
  | stopped (address : Nat)
  /-- A question was put about a call, with the profile it names if it is one to confirm. -/
  | posed (address item : Nat) (w : Write) (agreed : Option ConnectionProfile)
  /-- `Decide` took an answer. -/
  | decided (address item : Nat) (decision : Decision)
  /-- The settings were read again for a call that was let through. -/
  | reread (address item : Nat) (settings : Settings)
  /-- The profile agreed to was compared with the one stored. -/
  | compared (address item : Nat) (agreed current : ConnectionProfile)
  /-- A tool was run, with this profile stored under its connection. -/
  | ran (address item : Nat) (tool : Tool) (input : Input) (number : Option Nat)
      (current : Option ConnectionProfile)
  deriving DecidableEq

/-- Another writer's line under a session. -/
def Happening.isOf (session : String) : Happening → Bool
  | .foreign record => record.session = session
  | _ => false

/-- What others decide in a step of a run. -/
inductive Choice where
  /-- Nothing. -/
  | go
  /-- Whether the service could be set up. -/
  | service (failed : Option Failure)
  /-- A piece of a turn. -/
  | delta (piece : Delta)
  /-- The timer of a stream. -/
  | flush
  /-- `Next` returned. -/
  | turn (outcome : Except Failure Turn)
  /-- The wording of a question, or that there is none to put. -/
  | word (text : Option String)
  /-- How an append came out. -/
  | append (outcome : Append)
  /-- The select takes the answer. -/
  | answer
  /-- The select takes the stop. -/
  | stop
  | run (outcome : Ran)
  /-- How many file operations of a save happen. -/
  | write (n : Nat)
  deriving DecidableEq

/-! ## The texts of a run -/

/-- `refuse`'s message: the assistant's own sentences, or the error's. -/
def refusalText (c : Config) : Refusal → String
  | .declined => "not done: the person declined it, so it should not be tried again " ++
      "unless they ask for it"
  | .dismissed => "not done: the person stopped the conversation before answering"
  | .writesOff => "not done: writes were turned off in the assistant's settings"
  | error => c.describe error

/-- Why a call names no tool that is offered. -/
def unofferedText (c : Config) (name : String) : String :=
  if (Agent.lookup name).isSome then
    "not done: " ++ name ++ " writes, and writes are turned off in the assistant's settings"
  else "there is no tool named " ++ c.quote name

/-- `endingOf` -/
def endingOf (turn : Turn) : Option Ending :=
  match turn.stop with
  | .length => some ⟨.length, "", ""⟩
  | .refused => some ⟨.refused, turn.explanation, ""⟩
  | .context => some ⟨.context, "", ""⟩
  | _ => none

/-- `card` -/
def card (call : ToolCall) : ToolItem where
  call := call.id
  name := call.name
  input := call.input
  connection := none
  state := .running
  ask := none
  approved := none
  result := ""

/-- `skip` -/
def skip (s : Session) (call : ToolCall) (reason : String) : Session × CallResult :=
  (s.add (.card { card call with state := .skipped, result := reason }), ⟨call.id, reason, true⟩)

/-- `allow` of `prepare`. -/
def allowance (settings : Settings) : Blast :=
  if settings.writes = .approve then .destructive else .read

/-- `prepare`: the tools a run offers the model. -/
def prepare (settings : Settings) : List Tool :=
  Agent.all.filter fun tool => tool.operation = "" || permits (allowance settings) tool.blast

/-- `auditConnection` -/
def auditConnection (connections : Profiles) (id : Int) : AuditConnection :=
  match connections[id]? with
  | none => ⟨id, "", .unset⟩
  | some profile => ⟨id, profile.name, profile.kind⟩

/-- The record a write's lines start from. -/
def Write.entry (w : Write) (s : Session) : Agent.Record where
  session := s.id
  call := w.number
  phase := .asked
  tool := w.tool.name
  operation := w.tool.operation
  blast := w.tool.blast
  connection := w.target
  confirmed := false
  error := none

/-- The first stage of a call whose card was added. -/
def dispatch (c : Config) (tools : List Tool) (call : ToolCall) : Stage :=
  match tools.find? fun tool => tool.name = call.name with
  | none =>
    let reason := unofferedText c call.name
    .settling .failed reason ⟨call.id, reason, true⟩
  | some tool =>
    match c.check tool call.input with
    | .error error =>
      let reason := "the arguments do not fit " ++ call.name ++ ": " ++ error
      .settling .failed reason ⟨call.id, reason, true⟩
    | .ok input => if tool.blast = .read then .reading tool input else .numbering tool input

/-- `settle` -/
def settled (call : ToolCall) : Ran → Stage
  | .fails error => .settling .failed error ⟨call.id, error, true⟩
  | .done changed content => .settling .done changed ⟨call.id, content, false⟩

/-- What an answer to a question comes to. -/
def verdict (c : Config) (w : Write) (agreed : Option ConnectionProfile) (decided : Decision) :
    Stage :=
  if !decided.approve then .refusing w .declined .declined (refusalText c .declined)
  else if agreed.isSome then .rereading w ⟨agreed, .confirmed⟩
  else .rereading w ⟨none, if decided.remember then .session else .once⟩

/-! ## Steps -/

/-- What one step of a run leaves. -/
structure Moved where
  session : Session
  run : Run
  calls : Nat
  happened : List Happening

/-- One step of a call. -/
def stepCall (c : Config) (e : Surroundings) (s : Session) (r : Run) (b : Batch) (call : ToolCall)
    (item : Nat) (stage : Stage) (choice : Choice) : Option Moved :=
  let staged (next : Stage) : Run := r.at (.calling b call item next)
  let refuse (w : Write) (state : ToolState) (error : Refusal) : Stage :=
    .refusing w state error (refusalText c error)
  match stage with
  | .reading tool input =>
    match choice with
    | .run outcome =>
      some ⟨s, staged (settled call outcome), e.calls, [.ran s.address item tool input none none]⟩
    | _ => none
  | .numbering tool input =>
    if choice ≠ .go then none
    else
      let w : Write := ⟨tool, input, e.calls + 1⟩
      some ⟨s, staged (.connecting w (auditConnection e.connections w.target)), e.calls + 1, []⟩
  | .connecting w connection =>
    if choice ≠ .go then none
    else
      let told := s.changeTool item fun tool => { tool with connection := some connection }
      let next :=
        if w.tool.blast = .destructive then Stage.questioning w
        else if s.remembered.contains w.tool.name then .rereading w ⟨none, .session⟩
        else .consulting w
      some ⟨told, staged next, e.calls, []⟩
  | .questioning w =>
    match choice with
    | .word none => some ⟨s, staged (refuse w .failed .notPossible), e.calls, []⟩
    | .word (some question) =>
      match e.connections[w.target]? with
      | none => some ⟨s, staged (refuse w .failed .notPossible), e.calls, []⟩
      | some profile => some ⟨s, staged (.noting w question profile), e.calls, []⟩
    | _ => none
  | .noting w question profile =>
    match choice with
    | .append outcome =>
      let next :=
        if outcome.ok then Stage.posing w (some profile) ⟨.confirm, question, ""⟩
        else refuse w .failed .notRecorded
      some ⟨s, staged next, e.calls, [.appended (w.entry s).asked outcome]⟩
    | _ => none
  | .consulting w =>
    match choice with
    | .word none => some ⟨s, staged (refuse w .failed .notPossible), e.calls, []⟩
    | .word (some caveat) => some ⟨s, staged (.posing w none ⟨.approve, "", caveat⟩), e.calls, []⟩
    | _ => none
  | .posing w agreed ask =>
    if choice ≠ .go then none
    else
      let put := { s with asks := item :: s.asks }.changeTool item fun tool =>
        { tool with state := .waiting, ask := some ask }
      some ⟨put, staged (.waiting w agreed), e.calls, [.posed s.address item w agreed]⟩
  | .waiting w agreed =>
    match choice with
    | .answer =>
      match s.answers.lookup item with
      | none => none
      | some decided =>
        let told :=
          if decided.approve && decided.remember && agreed.isNone then
            { s with remembered := w.tool.name :: s.remembered }
          else s
        some ⟨told, staged (verdict c w agreed decided), e.calls, []⟩
    | .stop => if r.cancelled then some ⟨s, staged (.abandoning w), e.calls, []⟩ else none
    | _ => none
  | .abandoning w =>
    if choice ≠ .go then none
    else
      some ⟨{ s with asks := s.asks.erase item }, staged (refuse w .skipped .dismissed), e.calls, []⟩
  | .rereading w pass =>
    if choice ≠ .go then none
    else
      match e.settings with
      | none => some ⟨s, staged (.refusing w .failed .writesOff c.unreadable), e.calls, []⟩
      | some settings =>
        let next :=
          if settings.writes ≠ .approve then refuse w .failed .writesOff
          else if pass.agreed.isSome then .comparing w pass
          else .starting w pass
        some ⟨s, staged next, e.calls, [.reread s.address item settings]⟩
  | .comparing w pass =>
    if choice ≠ .go then none
    else
      match pass.agreed, e.connections[w.target]? with
      | some agreed, some current =>
        match changedSince e.connections w.target agreed with
        | .error error => some ⟨s, staged (refuse w .failed (.changed error)), e.calls, []⟩
        | .ok () =>
          some ⟨s, staged (.starting w pass), e.calls,
            [.compared s.address item agreed current]⟩
      | _, _ => some ⟨s, staged (refuse w .failed (.changed (.notStored w.target))), e.calls, []⟩
  | .starting w pass =>
    match choice with
    | .append outcome =>
      let next := if outcome.ok then Stage.marking w pass else refuse w .failed .notRecorded
      some ⟨s, staged next, e.calls,
        [.appended ((w.entry s).started pass.agreed.isSome) outcome]⟩
    | _ => none
  | .marking w pass =>
    if choice ≠ .go then none
    else
      let marked := s.changeTool item fun tool =>
        { tool with state := .running, approved := some pass.approved }
      some ⟨marked, staged (.running w pass), e.calls, []⟩
  | .running w _ =>
    match choice with
    | .run outcome =>
      some ⟨s, staged (.finishing w outcome), e.calls,
        [.ran s.address item w.tool w.input (some w.number) e.connections[w.target]?]⟩
    | _ => none
  | .finishing w outcome =>
    match choice with
    | .append appended =>
      let failed := match outcome with
        | .fails _ => true
        | .done .. => false
      some ⟨s, staged (settled call outcome), e.calls,
        [.appended ((w.entry s).finished failed) appended]⟩
    | _ => none
  | .refusing w state error text =>
    match choice with
    | .append outcome =>
      some ⟨s, staged (.settling state text ⟨call.id, text, true⟩), e.calls,
        [.appended ((w.entry s).refused error) outcome]⟩
    | _ => none
  | .settling state text answer =>
    if choice ≠ .go then none
    else
      let told := s.changeTool item fun tool => { tool with state := state, result := text }
      some ⟨told, r.at (.deciding (b.push answer)), e.calls, []⟩

/-- The chat of a conversation the model has not answered: built afresh from what was said. -/
def fresh (s : Session) (r : Run) (chosen : Provider) : Session :=
  let chat : Chat := ⟨chosen.kind, chosen.model, r.tools.map Tool.name, []⟩
  { s with
    chat := some (chat.users s.said)
    endpoint := some chosen.endpoint
    model := chosen.model }

/-- The chat of a conversation read back from disk: its history is taken up again. -/
def resumed (s : Session) (r : Run) (chosen : Provider) (queue : List String) : Session :=
  let tools := r.tools.map Tool.name
  let chat : Chat := ⟨chosen.kind, s.model, tools, s.history.getD []⟩
  { s with chat := some ((chat.users queue).offer tools), endpoint := some chosen.endpoint }

/-- `ready`, from the queue it took on, and how the run goes on. A service is set up for a new
    chat, and reached again where the endpoint changed. -/
def ready (s : Session) (r : Run) (chosen : Provider) (queue : List String)
    (failed : Option Failure) : Option (Session × Position) :=
  if !s.answered then
    let s := { s with said := s.said ++ queue }
    match failed with
    | some failed => some (s, .failing failed)
    | none => some (fresh s r chosen, .streaming .empty)
  else
    match s.chat with
    | none =>
      match failed with
      | some failed => some (s, .failing failed)
      | none => some (resumed s r chosen queue, .streaming .empty)
    | some chat =>
      let offered := { s with chat := some ((chat.users queue).offer (r.tools.map Tool.name)) }
      if s.endpoint = some chosen.endpoint then
        if failed.isSome then none else some (offered, .streaming .empty)
      else
        match failed with
        | some failed => some (offered, .failing failed)
        | none => some ({ offered with endpoint := some chosen.endpoint }, .streaming .empty)

/-- Where a turn leads once it is counted. -/
def afterTurn (turn : Turn) : Position :=
  if turn.stop ≠ .tools ∨ turn.calls = [] then
    if turn.calls = [] then .ending (endingOf turn) else .skipping turn [] turn.calls
  else .deciding ⟨[], turn.calls, false⟩

/-- `run`, once it is decided how it ended: the notice is added and the history taken over. -/
def ended (s : Session) (now : Nat) (ending : Option Ending) : Session :=
  let told :=
    match ending with
    | none => s
    | some ended => s.add (.noticed ended.notice ended.detail ended.reason)
  { told with
    updated := now
    history :=
      match told.chat with
      | none => told.history
      | some chat => some chat.history }

/-- One step of a run, up to keeping what it leaves. -/
def Run.step (c : Config) (e : Surroundings) (s : Session) (r : Run) (choice : Choice) :
    Option Moved :=
  match r.position with
  | .began =>
    if choice ≠ .go then none
    else
      match e.settings with
      | none => some ⟨s, r.at (.failing ⟨c.unreadable, ""⟩), e.calls, []⟩
      | some settings =>
        match settings.provider s.provider with
        | none =>
          let detail := "the model service this conversation runs on has been removed; " ++
            "start a new conversation"
          some ⟨s, r.at (.ending (some ⟨.failed, detail, ""⟩)), e.calls, []⟩
        | some chosen =>
          some ⟨s, { r with tools := prepare settings, position := .readying chosen }, e.calls,
            [.prepared s.address settings]⟩
  | .readying chosen =>
    if choice ≠ .go then none
    else some ⟨{ s with queue := [] }, r.at (.building chosen s.queue), e.calls, []⟩
  | .building chosen queue =>
    match choice with
    | .service failed =>
      (ready s r chosen queue failed).map fun built => ⟨built.1, r.at built.2, e.calls, []⟩
    | _ => none
  | .streaming out =>
    match choice with
    | .delta piece => some ⟨s, r.at (.streaming (out.add piece)), e.calls, []⟩
    | .flush =>
      if out.timer then
        let flushed := out.flush s
        some ⟨flushed.1, r.at (.streaming flushed.2), e.calls, []⟩
      else none
    | .turn (.error failed) => some ⟨s, r.at (.returned out (.error failed)), e.calls, []⟩
    | .turn (.ok turn) =>
      -- the turn is in the chat's history as soon as `Next` returns
      some ⟨{ s with chat := s.chat.map fun chat => chat.next turn },
        r.at (.returned out (.ok turn)), e.calls, []⟩
    | _ => none
  | .returned out outcome =>
    let flushed := out.flush s
    match choice with
    | .flush =>
      if out.timer then some ⟨flushed.1, r.at (.returned flushed.2 outcome), e.calls, []⟩
      else none
    | .go =>
      match outcome with
      | .error failed => some ⟨flushed.1, r.at (.failing failed), e.calls, []⟩
      | .ok turn => some ⟨flushed.1, r.at (.turned turn), e.calls, []⟩
    | _ => none
  | .turned turn =>
    if choice ≠ .go then none
    else
      let counted := { s with answered := true, said := [], usage := s.usage.add turn.usage }
      some ⟨counted, r.at (afterTurn turn), e.calls, []⟩
  | .skipping turn results rest =>
    if choice ≠ .go then none
    else
      match rest with
      | [] =>
        some ⟨{ s with chat := s.chat.map fun chat => chat.results results },
          r.at (.ending (endingOf turn)), e.calls, []⟩
      | call :: rest =>
        let skipped := skip s call "not run: the turn ended before this call was complete"
        some ⟨skipped.1, r.at (.skipping turn (results ++ [skipped.2]) rest), e.calls, []⟩
  | .deciding b =>
    if choice ≠ .go then none
    else
      match b.rest with
      | [] =>
        let next :=
          if r.cancelled then Position.ending (some ⟨.stopped, "", ""⟩)
          else if b.limited then .ending (some ⟨.limit, toString c.limit, ""⟩)
          else .streaming .empty
        some ⟨{ s with chat := s.chat.map fun chat => chat.results b.results }, r.at next, e.calls, []⟩
      | call :: rest =>
        let later := { b with rest := rest }
        if r.cancelled then
          let skipped := skip s call "not run: the person stopped the conversation"
          some ⟨skipped.1, r.at (.deciding (later.push skipped.2)), e.calls, []⟩
        else if c.limit ≤ r.calls then
          let skipped := skip s call
            ("not run: one question may call at most " ++ toString c.limit ++ " tools")
          some ⟨skipped.1, r.at (.deciding { later.push skipped.2 with limited := true }), e.calls,
            []⟩
        else
          some ⟨s.add (.card (card call)),
            { r with
              calls := r.calls + 1
              position := .calling later call (s.next + 1) (dispatch c r.tools call) },
            e.calls, []⟩
  | .calling b call item stage => stepCall c e s r b call item stage choice
  | .failing failed =>
    if choice ≠ .go then none
    else
      let ending : Ending :=
        if r.cancelled then ⟨.stopped, "", ""⟩ else ⟨.failed, failed.detail, failed.reason⟩
      some ⟨s, r.at (.ending (some ending)), e.calls, []⟩
  | .ending ending =>
    if choice ≠ .go then none
    else some ⟨ended s e.now ending, r.at (.keeping (ended s e.now ending).record), e.calls, []⟩
  | .keeping _ | .saving _ | .closing => none

end MqStudio.Assistant
