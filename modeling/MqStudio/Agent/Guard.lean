import Mathlib.Logic.Function.Basic
import MqStudio.Agent.Audit
import MqStudio.Lib.History
import MqStudio.Lib.Threads

/-!
# The Server's Checks on a Call

`mcpserver`: what every `tools/call` goes through. The middleware re-reads the stored profiles; a
tool that reads is then run; a write is `guarded`. A destructive one is called twice: the first call
puts a question to a person, the second carries the answer, and is tied to its question by a token
of the server's own, used once.

Each call is a thread. Its steps are its accesses to what the calls share: the profiles, the clock,
the questions waiting, the call counter and the audit log. `refreshMu` is a readers-writer lock: the
middleware takes it as the writer, a checked write holds it as a reader from its checks until it
returns.

What the server did is kept as a history, the latest first. The audit log is the part of it whose
lines reached the file, along with the lines other writers put there.
-/

namespace MqStudio.Agent

open MqStudio.Connection
open MqStudio.Lib
open MqStudio.Lib.TreeMap
open MqStudio.Model

/-! ## Requests and questions -/

/-- A `tools/call` as the handlers read it, its arguments decoded to the tool's input. -/
structure Request where
  tool : Tool
  input : Input
  typed : input.type = tool.input
  /-- `RequestState`: the token of the question it answers, or empty. -/
  requestState : String
  /-- The action of the reply it carries. -/
  reply : Option String
  /-- `canConfirm`: the client can put a form in front of a person. -/
  confirms : Bool
  deriving DecidableEq

/-- `Target` of a write's input; every write has one. -/
def Request.target (r : Request) : Int := r.input.target.getD 0

/-- `agreement`: a question put to a person and not yet answered. -/
structure Agreement where
  tool : String
  arguments : String
  profile : ConnectionProfile
  call : Nat
  expires : Nat
  deriving DecidableEq

/-- `confirmationTTL`, in milliseconds. -/
def confirmationTTL : Nat := 15 * 60 * 1000

/-- `verdict`: only an explicit yes goes ahead. -/
def verdict : Option String → Except Refusal Unit
  | none => .error .noAnswer
  | some action =>
    if action = "accept" then .ok ()
    else if action = "decline" then .error .declined
    else .error .dismissed

/-! ## The server -/

/-- What a server is started with: its grants, the name of its records in the log, and the tokens
    it will draw. Sixteen random bytes are never drawn twice. -/
structure Server where
  grants : Grants
  session : String
  token : Nat → String
  fresh : Function.Injective token

/-- What happened, as far as the checks are about it. -/
inductive Event where
  /-- A record was appended, or failed to be. -/
  | appended (record : Record) (outcome : Append)
  /-- Another writer appended a line. -/
  | foreign (record : Record)
  /-- `ask`: a question was put under a token. -/
  | asked (token : String) (question : Agreement)
  /-- `take`: a call that answers consumed this question, or found none. -/
  | answered (request : Request) (now : Nat) (question : Option Agreement)
  /-- The last check of a write passed, with this profile stored under its connection. -/
  | checked (request : Request) (current : Option ConnectionProfile)
  /-- The tool was run, with this profile stored under its connection. -/
  | ran (request : Request) (call : Option Nat) (current : Option ConnectionProfile)
  deriving DecidableEq

/-- What the calls share. -/
structure Shared where
  connections : Profiles
  now : Nat
  /-- The journal's counter. -/
  calls : Nat
  /-- How many tokens were drawn. -/
  drawn : Nat
  pending : Map String Agreement
  history : List Event
  deriving DecidableEq

/-- Where a call stands: what its next step is. -/
inductive Position where
  /-- The middleware is to refresh. -/
  | arrived
  | called
  /-- A tool that reads is to be run. -/
  | reading
  /-- `question`, with the call's number: the allowance and the client. -/
  | questioning (call : Nat)
  /-- `capable` -/
  | probing (call : Nat)
  /-- `GetConnection` -/
  | profiling (call : Nat)
  /-- `held` -/
  | counting (call : Nat) (profile : ConnectionProfile)
  /-- `Before(Asked)` -/
  | asking (call : Nat) (profile : ConnectionProfile)
  /-- `time.Now` -/
  | dating (call : Nat) (profile : ConnectionProfile)
  /-- `ask` -/
  | putting (question : Agreement)
  /-- `take` gave a question without a number, so the call is given one of its own. -/
  | numbering (outcome : Except Refusal Agreement)
  /-- `RLock` -/
  | locking (call : Nat) (agreed : Option Agreement)
  /-- `reaches` -/
  | reaching (call : Nat) (agreed : Option Agreement)
  /-- `ChangedSince` -/
  | comparing (call : Nat) (agreed : Agreement)
  /-- `Before(Started)` -/
  | starting (call : Nat) (agreed : Option Agreement)
  | running (call : Nat) (agreed : Option Agreement)
  /-- `Keep(Finished)` -/
  | finishing (call : Nat) (agreed : Option Agreement) (failed : Bool)
  /-- `Keep(Refused)`, under the lock or not. -/
  | refusing (call : Nat) (error : Refusal) (locked : Bool)

/-- A call under way. -/
structure Call where
  request : Request
  position : Position

/-- The call further on. -/
def Call.to (c : Call) (position : Position) : Call := { c with position := position }

/-- What the environment decides in a step of a call. -/
inductive Choice where
  /-- Nothing. -/
  | go
  /-- `RefreshReadOnly`: the profiles it left, or nothing when it failed. -/
  | refresh (connections : Option Profiles)
  /-- Whether the broker could be asked. -/
  | probe (fails : Bool)
  /-- How an append came out. -/
  | append (outcome : Append)
  /-- Whether the tool failed. -/
  | run (fails : Bool)
  deriving DecidableEq

namespace Server

variable (S : Server)

/-! ## One call -/

/-- `confirmed`: a person confirms every destructive write. -/
def confirmed (tool : Tool) : Bool := tool.blast = .destructive

/-- `gated`: the tool goes further than every connection may. -/
def gated (tool : Tool) : Bool := !permits S.grants.everywhere tool.blast

/-- The write is checked, so it holds the lock. -/
def checks (tool : Tool) : Bool := S.gated tool || confirmed tool

/-- `offer`: a client is shown a tool about the installation, or one the allowance reaches. -/
def offered (tool : Tool) (allow : Blast) : Bool :=
  tool.operation = "" || permits allow tool.blast

/-- `register`: the tools a client can call. -/
def registered : List Tool := all.filter fun tool => offered tool S.grants.widest

/-- `entry`: the record a call starts from. -/
def entry (request : Request) (call : Nat) : Record where
  session := S.session
  call := call
  phase := .asked
  tool := request.tool.name
  operation := request.tool.operation
  blast := request.tool.blast
  connection := request.target
  confirmed := false
  error := none

/-- `ask`: the question waits under a fresh token, and those that expired are dropped. -/
def ask (s : Shared) (question : Agreement) : Shared :=
  let token := S.token s.drawn
  { s with
    drawn := s.drawn + 1
    pending := (s.pending.filter fun _ waiting => !(waiting.expires < s.now)).insert token question
    history := .asked token question :: s.history }

/-- `take`: the question is consumed whatever the answer, and judged against this call. -/
def take (s : Shared) (request : Request) : Shared × Option Agreement × Option Refusal :=
  let found := s.pending[request.requestState]?
  let s' := { s with
    pending := s.pending.erase request.requestState
    history := .answered request s.now found :: s.history }
  match found with
  | none => (s', none, some .notAsked)
  | some asked =>
    if asked.expires < s.now then (s', some asked, some .expired)
    else if asked.tool ≠ request.tool.name ∨ asked.arguments ≠ canonical request.input then
      (s', some asked, some .differentCall)
    else (s', some asked, none)

/-- A record is appended, as far as it comes out. -/
def append (s : Shared) (record : Record) (outcome : Append) : Shared :=
  { s with history := .appended record outcome :: s.history }

/-- A call that answers and has its number: refused, or on to the checks. -/
def answered (c : Call) (call : Nat) : Except Refusal Agreement → Call
  | .error e => c.to (.refusing call e false)
  | .ok asked => c.to (.locking call (some asked))

/-- What an answer comes to: `take`'s error first, then the verdict. -/
def judged (request : Request) : Option Agreement × Option Refusal → Except Refusal Agreement
  | (some asked, none) =>
    match verdict request.reply with
    | .error e => .error e
    | .ok () => .ok asked
  | (_, some e) => .error e
  | (none, none) => .error .notAsked

/-- Past the allowance: on to what was agreed, or to the start. -/
def reached (call : Nat) : Option Agreement → Position
  | some asked => .comparing call asked
  | none => .starting call none

/-- `guarded` and `direct`, from where the call stands. -/
def advance (s : Shared) (c : Call) (choice : Choice) : Option (Shared × Option Call) :=
  match c.position with
  | .arrived =>
    match choice with
    | .refresh none => some (s, none)
    | .refresh (some connections) => some ({ s with connections := connections }, some (c.to .called))
    | _ => none
  | .called =>
    if choice ≠ .go then none
    else if c.request.tool.blast = .read then some (s, some (c.to .reading))
    else if confirmed c.request.tool then
      if c.request.requestState = "" then
        some ({ s with calls := s.calls + 1 }, some (c.to (.questioning (s.calls + 1))))
      else
        let taken := take s c.request
        let outcome := judged c.request taken.2
        match taken.2.1 with
        | none => some (taken.1, some (c.to (.numbering outcome)))
        | some asked =>
          if asked.call = 0 then some (taken.1, some (c.to (.numbering outcome)))
          else some (taken.1, some (answered c asked.call outcome))
    else
      some ({ s with calls := s.calls + 1 },
        some (c.to (if S.gated c.request.tool then .locking (s.calls + 1) none
          else .starting (s.calls + 1) none)))
  | .reading =>
    match choice with
    | .run _ => some ({ s with history := .ran c.request none none :: s.history }, none)
    | _ => none
  | .questioning call =>
    if choice ≠ .go then none
    else if S.gated c.request.tool then
      match S.grants.reaches s.connections c.request.target c.request.tool.name
        c.request.tool.blast with
      | .error e => some (s, some (c.to (.refusing call (.outOfReach e) false)))
      | .ok () =>
        if !c.request.confirms then
          some (s, some (c.to (.refusing call (.cannotAsk c.request.tool.name) false)))
        else some (s, some (c.to (.probing call)))
    else if !c.request.confirms then
      some (s, some (c.to (.refusing call (.cannotAsk c.request.tool.name) false)))
    else some (s, some (c.to (.probing call)))
  | .probing call =>
    match choice with
    | .probe true => some (s, some (c.to (.refusing call .notPossible false)))
    | .probe false => some (s, some (c.to (.profiling call)))
    | _ => none
  | .profiling call =>
    if choice ≠ .go then none
    else
      match s.connections[c.request.target]? with
      | none => some (s, some (c.to (.refusing call .notPossible false)))
      | some profile => some (s, some (c.to (.counting call profile)))
  | .counting call profile =>
    match choice with
    | .probe true => some (s, some (c.to (.refusing call .notPossible false)))
    | .probe false => some (s, some (c.to (.asking call profile)))
    | _ => none
  | .asking call profile =>
    match choice with
    | .append outcome =>
      some (append s (S.entry c.request call).asked outcome,
        some (c.to (if outcome.ok then .dating call profile
          else .refusing call .notRecorded false)))
    | _ => none
  | .dating call profile =>
    if choice ≠ .go then none
    else
      some (s, some (c.to (.putting
        ⟨c.request.tool.name, canonical c.request.input, profile, call, s.now + confirmationTTL⟩)))
  | .putting question =>
    if choice ≠ .go then none else some (S.ask s question, none)
  | .numbering outcome =>
    if choice ≠ .go then none
    else some ({ s with calls := s.calls + 1 }, some (answered c (s.calls + 1) outcome))
  | .locking call agreed =>
    if choice ≠ .go then none else some (s, some (c.to (.reaching call agreed)))
  | .reaching call agreed =>
    if choice ≠ .go then none
    else if S.gated c.request.tool then
      match S.grants.reaches s.connections c.request.target c.request.tool.name
        c.request.tool.blast with
      | .error e => some (s, some (c.to (.refusing call (.outOfReach e) true)))
      | .ok () =>
        some ({ s with
          history := .checked c.request s.connections[c.request.target]? :: s.history },
          some (c.to (reached call agreed)))
    else some (s, some (c.to (reached call agreed)))
  | .comparing call agreed =>
    if choice ≠ .go then none
    else
      match changedSince s.connections c.request.target agreed.profile with
      | .error e => some (s, some (c.to (.refusing call (.changed e) true)))
      | .ok () =>
        some ({ s with
          history := .checked c.request s.connections[c.request.target]? :: s.history },
          some (c.to (.starting call (some agreed))))
  | .starting call agreed =>
    match choice with
    | .append outcome =>
      some (append s ((S.entry c.request call).started agreed.isSome) outcome,
        if outcome.ok then some (c.to (.running call agreed)) else none)
    | _ => none
  | .running call agreed =>
    match choice with
    | .run fails =>
      some ({ s with
        history := .ran c.request (some call) s.connections[c.request.target]? :: s.history },
        some (c.to (.finishing call agreed fails)))
    | _ => none
  | .finishing call _ failed =>
    match choice with
    | .append outcome => some (append s ((S.entry c.request call).finished failed) outcome, none)
    | _ => none
  | .refusing call error _ =>
    match choice with
    | .append outcome => some (append s ((S.entry c.request call).refused error) outcome, none)
    | _ => none

/-- What the environment does beside the calls. -/
inductive Around where
  /-- Time passes. -/
  | tick (milliseconds : Nat)
  /-- Another writer of the log appends a line. -/
  | line (record : Record)
  deriving DecidableEq

/-- The call holds `refreshMu` as a reader. -/
def holds (c : Call) : Bool :=
  match c.position with
  | .reaching .. | .comparing .. => true
  | .starting .. | .running .. | .finishing .. => S.checks c.request.tool
  | .refusing _ _ locked => locked
  | _ => false

/-- The call is to take `refreshMu` as the writer. -/
def excludes (c : Call) : Bool :=
  match c.position with
  | .arrived => true
  | _ => false

/-- The server, over any store. -/
def program : Program Shared Call Choice Around where
  start s := s.now = 0 ∧ s.calls = 0 ∧ s.drawn = 0 ∧ s.pending = ∅ ∧ s.history = []
  -- a client that cannot answer by itself is asked by the SDK, which calls the handler again
  arrives c :=
    match c.position with
    | .arrived | .called => c.request.tool ∈ S.registered
    | _ => false
  advance := S.advance
  environment s
    | .tick milliseconds => some { s with now := s.now + milliseconds }
    | .line record =>
      if record.session = S.session then none
      else some { s with history := .foreign record :: s.history }
  holds := S.holds
  excludes := excludes

end Server

end MqStudio.Agent
