import Mathlib.Data.List.Chain
import Mathlib.Data.List.Perm.Basic
import MqStudio.Assistant.Chat
import MqStudio.Lib.Json
import MqStudio.Lib.Machine
import MqStudio.Lib.TreeMap

/-!
# Chat Completions

`internal/agent/provider/chat_openai.go`: a conversation as chat completion messages, which are
loose JSON objects that four methods build, and a turn that is put together from the pieces of a
stream. What a message holds after a conversation was written and read back is of other types.

How a piece is read of a line of the stream is a parameter, and so is what `fmt.Sprint` makes of
what is no text. What is streamed to the window is left out, and so is how a turn is sent.

## Main definitions

- `OpenAIChat`: `newOpenAIChat`, `User`, `Results`, `Next` and `History`.
- `Behind`: the typed history of `Chat` behind the loose one.
- `dialogue`: these in any order in which results follow a turn, over every process.
- `Accepted`: messages as the service takes them.

## Main results

- `dialogue_sound`: what is sent is accepted, a conversation read back sends the same, and how a
  stream is cut does not matter.
-/

namespace MqStudio.Assistant

open MqStudio.Lib
open MqStudio.Lib.TreeMap
open MqStudio.Storage

/-! ## The stream -/

/-- A piece of a call. -/
structure CallPiece where
  index : Int
  id : String
  name : String
  arguments : String
  deriving DecidableEq

/-- What is read of one of the `choices`. -/
structure ChoicePiece where
  content : String
  calls : List CallPiece
  finishReason : String
  deriving DecidableEq

/-- What is read of a `usage`. -/
structure UsagePiece where
  prompt : Int
  completion : Int
  cached : Option Int
  deriving DecidableEq

/-- `chunk` -/
structure Chunk where
  choices : List ChoicePiece
  model : String
  usage : Option UsagePiece
  /-- The message of an error. -/
  error : Option String
  deriving DecidableEq

/-- `pendingCall` -/
structure PendingCall where
  id : String
  name : String
  arguments : String
  deriving DecidableEq

/-- What `Next` has put together so far. -/
structure Assembly where
  text : String
  calls : Map Int PendingCall
  finish : String
  model : String
  usage : Usage

namespace Assembly

/-- Nothing yet. -/
def empty : Assembly := ⟨"", ∅, "", "", ⟨0, 0, 0, 0⟩⟩

/-- A piece of a call joins those of its index; an id replaces the one before. -/
def addCall (a : Assembly) (piece : CallPiece) : Assembly :=
  let pending := (a.calls[piece.index]?).getD ⟨"", "", ""⟩
  { a with
    calls := a.calls.insert piece.index
      { id := if piece.id = "" then pending.id else piece.id
        name := pending.name ++ piece.name
        arguments := pending.arguments ++ piece.arguments } }

def addChoice (a : Assembly) (choice : ChoicePiece) : Assembly :=
  let called := choice.calls.foldl addCall { a with text := a.text ++ choice.content }
  { called with
    finish := if choice.finishReason = "" then called.finish else choice.finishReason }

/-- The prompt counts what was read from the cache, which is told apart here. -/
def addUsage (usage : Usage) (piece : UsagePiece) : Usage :=
  match piece.cached with
  | none => { usage with input := piece.prompt, output := piece.completion }
  | some cached =>
    { usage with
      input := piece.prompt - min cached piece.prompt
      output := piece.completion
      cacheRead := min cached piece.prompt }

/-- A piece that is no error. -/
def add (a : Assembly) (piece : Chunk) : Assembly :=
  piece.choices.foldl addChoice
    { a with
      model := if piece.model = "" then a.model else piece.model
      usage := piece.usage.elim a.usage (addUsage a.usage) }

end Assembly

/-- A line of the stream, as it is understood. -/
inductive StreamLine where
  | nothing
  | done
  | piece (piece : Chunk)

/-- A line that starts with "data:" is the end or a piece; what is no piece is passed over. -/
def readLine (unmarshal : String → Option Chunk) (line : String) : StreamLine :=
  let text := trimSpace line
  if "data:".toList.isPrefixOf text.toList then
    let payload := trimSpace (String.ofList (text.toList.drop 5))
    if payload = "[DONE]" then .done
    else (unmarshal payload).elim .nothing .piece
  else .nothing

/-- The lines of an answer, and whether the reading of them failed. -/
structure Answer where
  lines : List String
  broken : Bool

/-- Why a turn failed. -/
inductive NextError where
  /-- It could not be sent, or the service refused it. -/
  | unsent (cause : String)
  /-- The service said so in the stream. -/
  | rejected (detail : String)
  /-- The stream broke off, or the turn was stopped. -/
  | broken
  deriving DecidableEq

/-- The loop of `Next`. -/
def assemble (unmarshal : String → Option Chunk) (broken : Bool) :
    Assembly → List String → Except NextError Assembly
  | a, [] => if broken then .error .broken else .ok a
  | a, line :: rest =>
    match readLine unmarshal line with
    | .nothing => assemble unmarshal broken a rest
    | .done => .ok a
    | .piece piece =>
      match piece.error with
      | some detail => .error (.rejected detail)
      | none => assemble unmarshal broken (a.add piece) rest

/-- What `Next` reads: a turn fails before its answer, or is read of it. -/
def readAnswer (unmarshal : String → Option Chunk) :
    Except String Answer → Except NextError Assembly
  | .error cause => .error (.unsent cause)
  | .ok answer => assemble unmarshal answer.broken .empty answer.lines

/-! ## The turn -/

/-- A `Turn` and the model that answered. -/
structure ModelTurn extends Turn where
  model : String
  deriving DecidableEq

/-- A call put together; one without an id is named after its index. -/
def PendingCall.call (pending : PendingCall) (index : Int) : ToolCall where
  id := if pending.id = "" then "call_" ++ toString index else pending.id
  name := pending.name
  input := if trimSpace pending.arguments = "" then "\x7b\x7d" else pending.arguments

/-- The calls in the order of their indexes. -/
def Assembly.toolCalls (a : Assembly) : List ToolCall :=
  a.calls.toList.map fun entry => entry.2.call entry.1

/-- Why the turn ended. -/
def Assembly.stop (a : Assembly) : StopReason :=
  if a.finish = "length" then .length
  else if a.finish = "content_filter" then .refused
  else if a.toolCalls ≠ [] then .tools
  else if a.finish = "stop" ∨ a.finish = "" then .done
  else .other

def Assembly.turn (a : Assembly) : ModelTurn where
  text := a.text
  calls := a.toolCalls
  stop := a.stop
  explanation := ""
  usage := a.usage
  model := a.model

/-! ## The chat -/

/-- A message as it is kept: fields in the order of their names. -/
abbrev Loose := List (String × Value)

/-- A call as it is kept. -/
def ToolCall.loose (call : ToolCall) : Loose :=
  [("function", .object [("arguments", .string call.input), ("name", .string call.name)]),
    ("id", .string call.id), ("type", .string "function")]

/-- The message of a turn. -/
def assistantMessage (text : String) (calls : List ToolCall) : Loose :=
  let assistant : Loose := [("content", .string text), ("role", .string "assistant")]
  if calls = [] then assistant
  else
    let assistant := setField "tool_calls" (.objects (calls.map ToolCall.loose)) assistant
    if text = "" then setField "content" .nil assistant else assistant

/-- The system prompt. -/
def systemMessage (system : String) : Loose :=
  [("content", .string system), ("role", .string "system")]

/-- `openAIChat`: what it sends of a conversation. -/
structure OpenAIChat where
  history : List Loose

/-- What `json.Unmarshal` makes of a history: nothing of what is no list of objects. -/
def unmarshalHistory : Json → Option (List Loose)
  | .null => some []
  | .array elements => elements.mapM fun
    | .object fields => some (decodeFields fields)
    | .null => some []
    | _ => none
  | _ => none

/-- `newOpenAIChat`; nothing where the conversation could not be read back. -/
def newOpenAIChat (system : String) (history : Option Json) : Option OpenAIChat :=
  let start := if system = "" then [] else [systemMessage system]
  match history with
  | none => some ⟨start⟩
  | some raw => (unmarshalHistory raw).map fun messages => ⟨start ++ messages⟩

namespace OpenAIChat

/-- Whether a message has a role. -/
def hasRole (role : String) (message : Loose) : Bool :=
  match fieldOf message "role" with
  | .string text => text = role
  | _ => false

/-- `History`, without the system prompt. -/
def toHistory (c : OpenAIChat) : Json :=
  match c.history with
  | [] => .null
  | first :: rest =>
    .array (encodeObjects (if hasRole "system" first then rest else first :: rest))

/-- The messages a turn is asked for with. -/
def messages (c : OpenAIChat) : List Json := encodeObjects c.history

section Methods

variable (sprint : Value → String)

/-- `fmt.Sprint`, of a text the text itself. -/
def printed : Value → String
  | .string text => text
  | other => sprint other

/-- `User` -/
def user (c : OpenAIChat) (text : String) : OpenAIChat :=
  match c.history.getLast? with
  | some last =>
    if hasRole "user" last then
      ⟨c.history.dropLast ++
        [setField "content" (.string (printed sprint (fieldOf last "content") ++ "\n\n" ++ text))
          last]⟩
    else ⟨c.history ++ [[("content", .string text), ("role", .string "user")]]⟩
  | none => ⟨c.history ++ [[("content", .string text), ("role", .string "user")]]⟩

end Methods

/-- `Results` -/
def results (c : OpenAIChat) (results : List CallResult) : OpenAIChat :=
  ⟨c.history ++ results.map fun result =>
    [("content", .string (toolContent result)), ("role", .string "tool"),
      ("tool_call_id", .string result.callID)]⟩

/-- `Next` -/
def next (unmarshal : String → Option Chunk) (c : OpenAIChat) (answer : Except String Answer) :
    OpenAIChat × Except NextError ModelTurn :=
  match readAnswer unmarshal answer with
  | .error e => (c, .error e)
  | .ok a => (⟨c.history ++ [assistantMessage a.text a.toolCalls]⟩, .ok a.turn)

end OpenAIChat

/-! ## A conversation -/

/-- A call of a chat. -/
inductive ChatCall where
  | user (text : String)
  | next (answer : Except String Answer)
  | results (results : List CallResult)

section Calls

variable (unmarshal : String → Option Chunk) (sprint : Value → String)

namespace OpenAIChat

/-- The chat after a call. -/
def call (c : OpenAIChat) : ChatCall → OpenAIChat
  | .user text => c.user sprint text
  | .next answer => (c.next unmarshal answer).1
  | .results results => c.results results

/-- The messages each turn of some calls is asked for with. -/
def sends (c : OpenAIChat) : List ChatCall → List (List Json)
  | [] => []
  | .next answer :: rest => c.messages :: sends (c.call unmarshal sprint (.next answer)) rest
  | .user text :: rest => sends (c.call unmarshal sprint (.user text)) rest
  | .results results :: rest => sends (c.call unmarshal sprint (.results results)) rest

end OpenAIChat

/-- A chat, the system prompt it was set up with, the calls that wait for their results, and the
    messages its turns were asked for with. -/
structure Dialogue where
  chat : OpenAIChat
  system : String
  awaiting : List String
  sent : List (List Json)

inductive DialogueAct where
  | call (call : ChatCall)
  /-- The conversation is taken up again, with the system prompt of then. -/
  | reopen (system : String)

/-- The calls a turn leaves to be answered. -/
def awaitingOf : Except NextError ModelTurn → List String
  | .ok turn => turn.calls.map ToolCall.id
  | .error _ => []

/-- One call: results are one for each call of the turn before, and nothing else follows a turn that
    asked for some. -/
def Dialogue.step (d : Dialogue) : DialogueAct → Option Dialogue
  | .call (.user text) =>
    if d.awaiting ≠ [] then none else some { d with chat := d.chat.user sprint text }
  | .call (.next answer) =>
    if d.awaiting ≠ [] then none
    else
      some { d with
        chat := (d.chat.next unmarshal answer).1
        awaiting := awaitingOf (d.chat.next unmarshal answer).2
        sent := d.chat.messages :: d.sent }
  | .call (.results results) =>
    if (results.map CallResult.callID).isPerm d.awaiting then
      some { d with chat := d.chat.results results, awaiting := [] }
    else none
  | .reopen system =>
    (newOpenAIChat system (some d.chat.toHistory)).map fun chat =>
      { d with chat := chat, system := system }

/-- A conversation from its start on. -/
def dialogue : Machine Dialogue DialogueAct where
  start d := newOpenAIChat d.system none = some d.chat ∧ d.awaiting = [] ∧ d.sent = []
  step := Dialogue.step unmarshal sprint

end Calls

/-! ## What the service takes -/

/-- A text field of a message that was sent. -/
def textField (message : Json) (key : String) : Option String :=
  match message with
  | .object fields =>
    match fields.lookup key with
    | some (.string text) => some text
    | _ => none
  | _ => none

/-- The ids of the calls a message asks for. -/
def callIDs (message : Json) : List String :=
  match message with
  | .object fields =>
    match fields.lookup "tool_calls" with
    | some (.array calls) => calls.filterMap fun call => textField call "id"
    | _ => []
  | _ => []

/-- The call a message is the result of. -/
def resultOf (message : Json) : Option String :=
  if textField message "role" = some "tool" then textField message "tool_call_id" else none

/-- A message of the person. -/
def SaysUser (message : Json) : Prop := textField message "role" = some "user"

/-- **Messages the service takes**: no two of the person in a row; a turn's calls are followed at once
    by a result each; and an id is used by as many results as calls have it. -/
structure Accepted (messages : List Json) : Prop where
  apart : messages.IsChain fun a b => ¬ (SaysUser a ∧ SaysUser b)
  answered : ∀ before message after, messages = before ++ message :: after →
    ∃ results rest, after = results ++ rest ∧
      (results.map resultOf).Perm ((callIDs message).map some)
  used : (messages.filterMap resultOf).Perm (messages.flatMap callIDs)

/-! ## The typed history -/

/-- A message as it is sent. -/
def Message.json : Message → Json
  | .user content => .object [("content", .string content), ("role", .string "user")]
  | .tool callID content =>
    .object [("content", .string content), ("role", .string "tool"), ("tool_call_id", .string callID)]
  | .assistant text calls => .object (encodeFields (assistantMessage text calls))
  | .blocks _ => .null

/-- The system prompt as it is sent. -/
def prompt (system : String) : List Json :=
  if system = "" then [] else [.object (encodeFields (systemMessage system))]

/-- **A chat keeps a history**: behind the system prompt, it sends these messages. -/
structure Behind (c : OpenAIChat) (system : String) (history : List Message) : Prop where
  sent : c.messages = prompt system ++ history.map Message.json
  plain : ∀ message ∈ history, ∀ blocks, message ≠ .blocks blocks

section Fields

@[simp] theorem encodeObjects_append (l m : List Loose) :
    encodeObjects (l ++ m) = encodeObjects l ++ encodeObjects m := by
  simp [encodeObjects_eq_map]

theorem encodeFields_assistant (text : String) (calls : List ToolCall) :
    encodeFields (assistantMessage text calls) =
      if calls = [] then [("content", .string text), ("role", .string "assistant")]
      else [("content", if text = "" then .null else .string text), ("role", .string "assistant"),
        ("tool_calls", .array (calls.map fun call => .object (encodeFields call.loose)))] := by
  unfold assistantMessage
  split
  · simp [encodeFields, Value.encode]
  · split <;>
      simp [setField, encodeFields, Value.encode, encodeObjects_eq_map]

theorem textField_role_system (system : String) :
    textField (.object (encodeFields (systemMessage system))) "role" = some "system" := by
  simp [systemMessage, encodeFields, Value.encode, textField, List.lookup_cons]

theorem textField_role_assistant (text : String) (calls : List ToolCall) :
    textField (Message.json (.assistant text calls)) "role" = some "assistant" := by
  rw [Message.json, encodeFields_assistant]
  split <;> simp [textField, List.lookup_cons]

@[simp] theorem callIDs_assistant (text : String) (calls : List ToolCall) :
    callIDs (Message.json (.assistant text calls)) = calls.map ToolCall.id := by
  rw [Message.json, encodeFields_assistant]
  split
  · rename_i hnone
    simp [hnone, callIDs, List.lookup_cons]
  · have hid : ∀ call : ToolCall,
        textField (.object (encodeFields call.loose)) "id" = some call.id := by
      intro call
      simp [ToolCall.loose, encodeFields, Value.encode, textField, List.lookup_cons]
    simp [callIDs, List.lookup_cons, List.filterMap_map, hid]

@[simp] theorem saysUser_user (content : String) : SaysUser (Message.json (.user content)) := rfl

@[simp] theorem not_saysUser_tool (callID content : String) :
    ¬ SaysUser (Message.json (.tool callID content)) := by
  simp [SaysUser, Message.json, textField, List.lookup_cons]

@[simp] theorem not_saysUser_assistant (text : String) (calls : List ToolCall) :
    ¬ SaysUser (Message.json (.assistant text calls)) := by
  rw [SaysUser, textField_role_assistant]
  decide

@[simp] theorem resultOf_user (content : String) : resultOf (Message.json (.user content)) = none :=
  rfl

@[simp] theorem resultOf_tool (callID content : String) :
    resultOf (Message.json (.tool callID content)) = some callID := rfl

@[simp] theorem resultOf_assistant (text : String) (calls : List ToolCall) :
    resultOf (Message.json (.assistant text calls)) = none := by
  rw [resultOf, textField_role_assistant, if_neg (by decide)]

@[simp] theorem callIDs_user (content : String) : callIDs (Message.json (.user content)) = [] := rfl

@[simp] theorem callIDs_tool (callID content : String) :
    callIDs (Message.json (.tool callID content)) = [] := rfl

/-- The system prompt says nothing of the person's, of a call or of a result. -/
theorem prompt_silent {system : String} {message : Json} (h : message ∈ prompt system) :
    ¬ SaysUser message ∧ callIDs message = [] ∧ resultOf message = none := by
  unfold prompt at h
  split at h
  · cases h
  · obtain rfl := List.mem_singleton.mp h
    refine ⟨?_, rfl, ?_⟩
    · rw [SaysUser, textField_role_system]
      decide
    · rw [resultOf, textField_role_system, if_neg (by decide)]

/-- A message has a role where it is sent with it. -/
theorem hasRole_iff {role : String} {message : Loose} :
    OpenAIChat.hasRole role message = true ↔
      textField (.object (encodeFields message)) "role" = some role := by
  have hrole : OpenAIChat.hasRole role message = true ↔
      fieldOf message "role" = .string role := by
    unfold OpenAIChat.hasRole
    cases fieldOf message "role" <;> simp
  rw [hrole, fieldOf_eq_string, textField]
  cases (encodeFields message).lookup "role" with
  | none => simp
  | some value => cases value <;> simp

end Fields

/-! ## What each call keeps -/

section Kept

variable {c : OpenAIChat} {system : String} {history : List Message}

/-- The last message, loose and as it is sent. -/
theorem getLast_messages {init : List Json} {last : Json} (h : c.messages = init ++ [last]) :
    ∃ before message, c.history = before ++ [message] ∧ encodeObjects before = init ∧
      .object (encodeFields message) = last := by
  unfold OpenAIChat.messages at h
  rcases List.eq_nil_or_concat' c.history with hnil | ⟨before, message, hlast⟩
  · rw [hnil] at h
    cases init <;> cases h
  · rw [hlast, encodeObjects_append] at h
    obtain ⟨hinit, hmessage⟩ := List.append_inj' h rfl
    exact ⟨before, message, hlast, hinit, List.head_eq_of_cons_eq hmessage⟩

/-- What the person says is a message of its own. -/
theorem user_messages_concat (sprint : Value → String) (text : String)
    (h : ∀ last ∈ c.messages.getLast?, ¬ SaysUser last) :
    (c.user sprint text).messages = c.messages ++ [Message.json (.user text)] := by
  unfold OpenAIChat.messages at h ⊢
  unfold OpenAIChat.user
  split
  · rename_i last hlast
    have hnot : OpenAIChat.hasRole "user" last ≠ true := fun hrole => by
      refine h (.object (encodeFields last)) ?_ (hasRole_iff.mp hrole)
      rw [encodeObjects_eq_map, List.getLast?_map, hlast]
      rfl
    rw [if_neg hnot, encodeObjects_append]
    rfl
  · rw [encodeObjects_append]
    rfl

/-- Or the end of the one before. -/
theorem user_messages_join (sprint : Value → String) (text : String) {init : List Json}
    {content : String} (h : c.messages = init ++ [Message.json (.user content)]) :
    (c.user sprint text).messages =
      init ++ [Message.json (.user (content ++ "\n\n" ++ text))] := by
  obtain ⟨before, message, hhistory, rfl, hmessage⟩ := getLast_messages h
  have hrole : OpenAIChat.hasRole "user" message = true :=
    hasRole_iff.mpr (by rw [hmessage]; rfl)
  have hfields : encodeFields message = [("content", .string content), ("role", .string "user")] := by
    simpa [Message.json] using hmessage
  have hcontent : fieldOf message "content" = .string content :=
    fieldOf_eq_string.mpr (by rw [hfields]; rfl)
  unfold OpenAIChat.user OpenAIChat.messages
  rw [hhistory, List.getLast?_concat]
  dsimp only
  rw [if_pos hrole, List.dropLast_concat, encodeObjects_append, hcontent]
  congr 1
  rw [encodeObjects_eq_map, List.map_singleton, encodeFields_setField, hfields]
  rfl

/-- A turn's message is not the person's. -/
theorem not_saysUser_last (hlast : ∀ content, history.getLast? ≠ some (.user content)) :
    ∀ last ∈ (prompt system ++ history.map Message.json).getLast?, ¬ SaysUser last := by
  intro last hmem
  rcases List.eq_nil_or_concat' history with rfl | ⟨init, message, rfl⟩
  · rw [List.map_nil, List.append_nil] at hmem
    exact (prompt_silent (List.mem_of_getLast? hmem)).1
  · rw [List.map_append, ← List.append_assoc, List.map_singleton, List.getLast?_concat] at hmem
    cases hmem
    cases message with
    | user content => exact absurd List.getLast?_concat (hlast content)
    | tool callID content => exact not_saysUser_tool _ _
    | blocks blocks =>
      intro hsaying
      cases hsaying
    | assistant text calls => exact not_saysUser_assistant _ _

/-- **`User`** keeps the typed history with what the person said added. -/
theorem Behind.user (h : Behind c system history) (sprint : Value → String) (text : String) :
    Behind (c.user sprint text) system (addUser .openAI history text) := by
  have hconcat : (∀ content, history.getLast? ≠ some (.user content)) →
      Behind (c.user sprint text) system (history ++ [.user text]) := by
    intro hlast
    refine ⟨?_, fun message hmem blocks => ?_⟩
    · rw [user_messages_concat sprint text (h.sent ▸ not_saysUser_last hlast), h.sent,
        List.map_append, List.append_assoc, List.map_singleton]
    · rcases List.mem_append.mp hmem with hold | hnew
      · exact h.plain message hold blocks
      · obtain rfl := List.mem_singleton.mp hnew
        exact Message.noConfusion
  rcases List.eq_nil_or_concat' history with rfl | ⟨init, message, rfl⟩
  · exact hconcat fun content hnone => by cases hnone
  · cases message with
    | user content =>
      have hsent : c.messages = (prompt system ++ init.map Message.json) ++
          [Message.json (.user content)] := by
        rw [h.sent, List.map_append, List.append_assoc, List.map_singleton]
      have hadded : addUser .openAI (init ++ [.user content]) text =
          init ++ [.user (content ++ "\n\n" ++ text)] := by
        simp [addUser]
      rw [hadded]
      refine ⟨?_, fun message hmem blocks => ?_⟩
      · rw [user_messages_join sprint text hsent, List.map_append, List.append_assoc,
          List.map_singleton]
      · rcases List.mem_append.mp hmem with hold | hnew
        · exact h.plain message (List.mem_append_left _ hold) blocks
        · obtain rfl := List.mem_singleton.mp hnew
          exact Message.noConfusion
    | blocks blocks => exact absurd rfl (h.plain _ (List.mem_append_right _ List.mem_cons_self) blocks)
    | tool callID content => simpa [addUser] using hconcat (by simp)
    | assistant said calls => simpa [addUser] using hconcat (by simp)

/-- Messages that are added to a history are sent after it. -/
theorem Behind.append (h : Behind c system history) {added : List Loose} {more : List Message}
    (hsent : encodeObjects added = more.map Message.json)
    (hplain : ∀ message ∈ more, ∀ blocks, message ≠ .blocks blocks) :
    Behind ⟨c.history ++ added⟩ system (history ++ more) where
  sent := by
    have hbefore := h.sent
    unfold OpenAIChat.messages at hbefore ⊢
    rw [encodeObjects_append, hbefore, hsent, List.map_append, List.append_assoc]
  plain message hmem blocks := by
    rcases List.mem_append.mp hmem with hold | hnew
    · exact h.plain message hold blocks
    · exact hplain message hnew blocks

/-- **`Results`** keeps it with a message for each. -/
theorem Behind.results (h : Behind c system history) (results : List CallResult) :
    Behind (c.results results) system (addResults .openAI history results) := by
  refine h.append ?_ fun message hmem blocks => ?_
  · rw [encodeObjects_eq_map, List.map_map, List.map_map]
    rfl
  · obtain ⟨result, -, rfl⟩ := List.mem_map.mp hmem
    exact Message.noConfusion

/-- What a turn leaves of the typed history. -/
def addRead (history : List Message) : Except NextError Assembly → List Message
  | .error _ => history
  | .ok a => addTurn history a.turn.toTurn

/-- **`Next`** keeps it with the turn, or as it was. -/
theorem Behind.next (h : Behind c system history) (unmarshal : String → Option Chunk)
    (answer : Except String Answer) :
    Behind (c.next unmarshal answer).1 system (addRead history (readAnswer unmarshal answer)) := by
  unfold OpenAIChat.next
  cases readAnswer unmarshal answer with
  | error e => exact h
  | ok a =>
    refine h.append rfl fun message hmem blocks => ?_
    obtain rfl := List.mem_singleton.mp hmem
    exact Message.noConfusion

/-- The typed history after a call. -/
def addCall (unmarshal : String → Option Chunk) (history : List Message) : ChatCall → List Message
  | .user text => addUser .openAI history text
  | .next answer => addRead history (readAnswer unmarshal answer)
  | .results results => addResults .openAI history results

/-- **Every call** keeps it. -/
theorem Behind.call (h : Behind c system history) (unmarshal : String → Option Chunk)
    (sprint : Value → String) (call : ChatCall) :
    Behind (c.call unmarshal sprint call) system (addCall unmarshal history call) := by
  cases call with
  | user text => exact h.user sprint text
  | next answer => exact h.next unmarshal answer
  | results results => exact h.results results

/-- A message that is no system prompt is kept by `History`. -/
theorem not_system (message : Message) : textField message.json "role" ≠ some "system" := by
  cases message with
  | user content => simp [Message.json, textField, List.lookup_cons]
  | tool callID content => simp [Message.json, textField, List.lookup_cons]
  | blocks blocks => simp [Message.json, textField]
  | assistant text calls =>
    rw [textField_role_assistant]
    decide

/-- What `History` writes: the messages behind the system prompt. -/
theorem toHistory_eq (h : Behind c system history) :
    c.toHistory = .array (history.map Message.json) ∨ c.toHistory = .null ∧ history = [] := by
  have hsent := h.sent
  unfold OpenAIChat.messages at hsent
  unfold OpenAIChat.toHistory
  cases hhistory : c.history with
  | nil =>
    rw [hhistory] at hsent
    have hnone : history.map Message.json = [] := (List.append_eq_nil_iff.mp hsent.symm).2
    exact .inr ⟨rfl, List.map_eq_nil_iff.mp hnone⟩
  | cons first rest =>
    rw [hhistory, encodeObjects] at hsent
    left
    dsimp only
    congr 1
    by_cases hsystem : system = ""
    · -- the first message is the conversation's
      rw [prompt, if_pos hsystem, List.nil_append] at hsent
      cases history with
      | nil => cases hsent
      | cons message more =>
        have hfirst : Json.object (encodeFields first) = message.json := List.head_eq_of_cons_eq hsent
        have hrole : ¬ OpenAIChat.hasRole "system" first = true := fun hrole =>
          not_system message (hfirst ▸ hasRole_iff.mp hrole)
        rw [if_neg hrole, encodeObjects, hsent]
    · rw [prompt, if_neg hsystem, List.singleton_append] at hsent
      have hfirst : Json.object (encodeFields first) = .object (encodeFields (systemMessage system)) :=
        List.head_eq_of_cons_eq hsent
      have hrole : OpenAIChat.hasRole "system" first = true :=
        hasRole_iff.mpr (hfirst ▸ textField_role_system system)
      rw [if_pos hrole]
      exact List.tail_eq_of_cons_eq hsent

/-- A history is read back. -/
theorem unmarshalHistory_array (hplain : ∀ message ∈ history, ∀ blocks, message ≠ .blocks blocks) :
    ∃ read, unmarshalHistory (.array (history.map Message.json)) = some read ∧
      encodeObjects read = history.map Message.json := by
  have hobject : ∀ message ∈ history, ∃ fields, message.json = .object fields := by
    intro message hmem
    cases message with
    | blocks blocks => exact absurd rfl (hplain _ hmem blocks)
    | _ => exact ⟨_, rfl⟩
  unfold unmarshalHistory
  induction history with
  | nil => exact ⟨[], rfl, rfl⟩
  | cons message rest ih =>
    obtain ⟨fields, hfields⟩ := hobject message List.mem_cons_self
    obtain ⟨read, hread, hencode⟩ := ih
      (fun other hother => hplain other (List.mem_cons_of_mem _ hother))
      (fun other hother => hobject other (List.mem_cons_of_mem _ hother))
    refine ⟨decodeFields fields :: read, ?_, ?_⟩
    · dsimp only at hread ⊢
      rw [List.map_cons, List.mapM_cons, hfields, hread]
      rfl
    · rw [encodeObjects, encodeFields_decodeFields, hencode, List.map_cons, hfields]

/-- **A conversation read back** is kept by the new chat, behind its system prompt. -/
theorem Behind.reopen (h : Behind c system history) (now : String) :
    ∃ chat, newOpenAIChat now (some c.toHistory) = some chat ∧ Behind chat now history := by
  have hread : ∃ read, unmarshalHistory c.toHistory = some read ∧
      encodeObjects read = history.map Message.json := by
    rcases toHistory_eq h with harray | ⟨hnull, rfl⟩
    · rw [harray]
      exact unmarshalHistory_array h.plain
    · rw [hnull]
      exact ⟨[], rfl, rfl⟩
  obtain ⟨read, hread, hencode⟩ := hread
  refine ⟨_, by rw [newOpenAIChat, hread]; rfl, ?_, h.plain⟩
  unfold OpenAIChat.messages prompt
  rw [encodeObjects_append, hencode]
  split <;> rfl

/-- **Two chats that keep one history** behind one system prompt send the same from then on. -/
theorem sends_eq {d : OpenAIChat} (hc : Behind c system history) (hd : Behind d system history)
    (unmarshal : String → Option Chunk) (sprint : Value → String) (calls : List ChatCall) :
    c.sends unmarshal sprint calls = d.sends unmarshal sprint calls := by
  induction calls generalizing c d history with
  | nil => rfl
  | cons call rest ih =>
    have hrest := ih (hc.call unmarshal sprint call) (hd.call unmarshal sprint call)
    cases call with
    | user text => exact hrest
    | results results => exact hrest
    | next answer =>
      have hsame : c.messages = d.messages := hc.sent.trans hd.sent.symm
      rw [OpenAIChat.sends, OpenAIChat.sends, hsame, hrest]

end Kept

/-! ## Turns and their results -/

/-- A history in which results follow the calls of a turn, and the ids that wait for one. -/
inductive Turns : List Message → List String → Prop where
  | nil : Turns [] []
  | user {history : List Message} (text : String) : Turns history [] →
    (∀ content, history.getLast? ≠ some (.user content)) → Turns (history ++ [.user text]) []
  | turn {history : List Message} (text : String) (calls : List ToolCall) : Turns history [] →
    Turns (history ++ [.assistant text calls]) (calls.map ToolCall.id)
  | results {history : List Message} {ids : List String} (results : List CallResult) :
    Turns history ids → (results.map CallResult.callID).Perm ids →
    Turns (addResults .openAI history results) []

section Accepting

variable {system : String} {history : List Message} {ids : List String}

/-- What is sent of a history. -/
def sentOf (system : String) (history : List Message) : List Json :=
  prompt system ++ history.map Message.json

theorem sentOf_append (history more : List Message) :
    sentOf system (history ++ more) = sentOf system history ++ more.map Message.json := by
  rw [sentOf, sentOf, List.map_append, List.append_assoc]

/-- Two lists with the same end. -/
theorem split_last {α : Type} {l before after : List α} {a m : α}
    (h : l ++ [a] = before ++ m :: after) :
    (after = [] ∧ m = a ∧ l = before) ∨ ∃ rest, after = rest ++ [a] ∧ l = before ++ m :: rest := by
  rcases List.eq_nil_or_concat' after with rfl | ⟨rest, last, rfl⟩
  · obtain ⟨hl, hlast⟩ := List.append_inj' h rfl
    exact .inl ⟨rfl, (List.head_eq_of_cons_eq hlast).symm, hl⟩
  · rw [← List.cons_append, ← List.append_assoc] at h
    obtain ⟨hl, hlast⟩ := List.append_inj' h rfl
    obtain rfl := List.head_eq_of_cons_eq hlast
    exact .inr ⟨rest, rfl, hl⟩

theorem chain_concat {messages : List Json} {message : Json}
    (h : messages.IsChain fun a b => ¬ (SaysUser a ∧ SaysUser b))
    (hlast : SaysUser message → ∀ last ∈ messages.getLast?, ¬ SaysUser last) :
    (messages ++ [message]).IsChain fun a b => ¬ (SaysUser a ∧ SaysUser b) := by
  refine List.isChain_append.mpr ⟨h, List.isChain_singleton _, ?_⟩
  rintro a ha b hb ⟨hsaying, hsaid⟩
  rw [List.head?_cons, Option.mem_some_iff] at hb
  subst hb
  exact hlast hsaid a ha hsaying

/-- Messages that are not the person's may follow any. -/
theorem chain_append {messages more : List Json}
    (h : messages.IsChain fun a b => ¬ (SaysUser a ∧ SaysUser b))
    (hmore : ∀ message ∈ more, ¬ SaysUser message) :
    (messages ++ more).IsChain fun a b => ¬ (SaysUser a ∧ SaysUser b) := by
  induction more generalizing messages with
  | nil => simpa using h
  | cons message rest ih =>
    have hnext := ih (chain_concat h fun hsaying => absurd hsaying (hmore message List.mem_cons_self))
      fun other hother => hmore other (List.mem_cons_of_mem _ hother)
    rwa [List.append_assoc, List.singleton_append] at hnext

/-- **No two messages of the person in a row.** -/
theorem Turns.apart (h : Turns history ids) :
    (sentOf system history).IsChain fun a b => ¬ (SaysUser a ∧ SaysUser b) := by
  induction h with
  | nil =>
    have hprompt : ([] ++ prompt system).IsChain fun a b => ¬ (SaysUser a ∧ SaysUser b) :=
      chain_append List.isChain_nil fun message hmem => (prompt_silent hmem).1
    simpa [sentOf] using hprompt
  | user text _ hlast ih =>
    rw [sentOf_append]
    exact chain_concat ih fun _ => not_saysUser_last hlast
  | turn text calls _ ih =>
    rw [sentOf_append]
    exact chain_concat ih fun hsaying => absurd hsaying (not_saysUser_assistant _ _)
  | results results _ _ ih =>
    rw [addResults, sentOf_append]
    refine chain_append ih fun message hmem => ?_
    obtain ⟨_, hresult, rfl⟩ := List.mem_map.mp hmem
    obtain ⟨result, -, rfl⟩ := List.mem_map.mp hresult
    exact not_saysUser_tool _ _

theorem filterMap_tools (results : List CallResult) :
    ((results.map fun result =>
      Message.tool result.callID (toolContent result)).map Message.json).filterMap resultOf =
        results.map CallResult.callID := by
  induction results with
  | nil => rfl
  | cons result rest ih =>
    rw [List.map_cons, List.map_cons, List.filterMap_cons_some (resultOf_tool _ _), ih,
      List.map_cons]

theorem flatMap_tools (results : List CallResult) :
    ((results.map fun result =>
      Message.tool result.callID (toolContent result)).map Message.json).flatMap callIDs = [] := by
  induction results with
  | nil => rfl
  | cons result rest ih =>
    rw [List.map_cons, List.map_cons, List.flatMap_cons, ih, callIDs_tool, List.append_nil]

/-- **An id is used by as many results as calls have it**, but for those that wait. -/
theorem Turns.used (h : Turns history ids) :
    ((sentOf system history).filterMap resultOf ++ ids).Perm
      ((sentOf system history).flatMap callIDs) := by
  induction h with
  | nil =>
    have hresults : (prompt system).filterMap resultOf = [] :=
      List.filterMap_eq_nil_iff.mpr fun message hmem => (prompt_silent hmem).2.2
    have hcalls : (prompt system).flatMap callIDs = [] :=
      List.flatMap_eq_nil_iff.mpr fun message hmem => (prompt_silent hmem).2.1
    simp [sentOf, hresults, hcalls]
  | user text _ _ ih =>
    have hresults : [Message.json (.user text)].filterMap resultOf = [] := rfl
    have hcalls : [Message.json (.user text)].flatMap callIDs = [] := rfl
    rw [sentOf_append, List.filterMap_append, List.flatMap_append, List.map_singleton, hresults,
      hcalls, List.append_nil]
    simpa using ih
  | turn text calls _ ih =>
    have hresults : [Message.json (.assistant text calls)].filterMap resultOf = [] := by simp
    have hcalls : [Message.json (.assistant text calls)].flatMap callIDs = calls.map ToolCall.id := by
      simp
    rw [sentOf_append, List.filterMap_append, List.flatMap_append, List.map_singleton, hresults,
      hcalls, List.append_nil]
    rw [List.append_nil] at ih
    exact ih.append_right _
  | results results _ hone ih =>
    rw [addResults, sentOf_append, List.filterMap_append, List.flatMap_append, filterMap_tools,
      flatMap_tools, List.append_nil, List.append_nil]
    exact (hone.append_left _).trans ih

/-- **A turn's calls are followed at once by a result each**, or wait for them. -/
theorem Turns.answered (h : Turns history ids) {before : List Json} {message : Json}
    {after : List Json} (hsplit : sentOf system history = before ++ message :: after)
    (hcalls : callIDs message ≠ []) :
    (after = [] ∧ callIDs message = ids) ∨ ∃ results rest, after = results ++ rest ∧
      (results.map resultOf).Perm ((callIDs message).map some) := by
  -- one more message that is no result leaves what was answered
  have hlater : ∀ {last : Json} {rest : List Json},
      ((rest = [] ∧ callIDs message = []) ∨ ∃ results others, rest = results ++ others ∧
        (results.map resultOf).Perm ((callIDs message).map some)) →
      ∃ results others, rest ++ [last] = results ++ others ∧
        (results.map resultOf).Perm ((callIDs message).map some) := by
    intro last rest hrest
    rcases hrest with ⟨-, hnone⟩ | ⟨results, others, rfl, hperm⟩
    · exact absurd hnone hcalls
    · exact ⟨results, others ++ [last], List.append_assoc _ _ _, hperm⟩
  induction h generalizing after with
  | nil =>
    have hmem : message ∈ prompt system := by
      rw [sentOf, List.map_nil, List.append_nil] at hsplit
      rw [hsplit]
      exact List.mem_append_right _ List.mem_cons_self
    exact absurd (prompt_silent hmem).2.1 hcalls
  | @user earlier text _ _ ih =>
    rw [sentOf_append] at hsplit
    rcases split_last hsplit with ⟨-, rfl, -⟩ | ⟨rest, rfl, hearlier⟩
    · exact absurd (callIDs_user _) hcalls
    · exact .inr (hlater (ih hearlier))
  | @turn earlier text calls _ ih =>
    rw [sentOf_append] at hsplit
    rcases split_last hsplit with ⟨rfl, rfl, -⟩ | ⟨rest, rfl, hearlier⟩
    · exact .inl ⟨rfl, callIDs_assistant _ _⟩
    · exact .inr (hlater (ih hearlier))
  | @results earlier ids results _ hone ih =>
    rw [addResults, sentOf_append] at hsplit
    have hnotTool : ∀ other ∈ ((results.map fun result =>
        Message.tool result.callID (toolContent result)).map Message.json), callIDs other = [] := by
      exact List.flatMap_eq_nil_iff.mp (flatMap_tools results)
    rcases List.append_eq_append_iff.mp hsplit with ⟨more, -, htools⟩ | ⟨more, hsent, hafter⟩
    · exact absurd (hnotTool message (htools ▸ List.mem_append_right _ List.mem_cons_self)) hcalls
    · cases more with
      | nil =>
        have hmem := hafter ▸ List.mem_cons_self (a := message) (l := after)
        exact absurd (hnotTool message hmem) hcalls
      | cons first rest =>
        obtain rfl := List.head_eq_of_cons_eq hafter
        obtain rfl := List.tail_eq_of_cons_eq hafter
        rcases ih hsent with ⟨rfl, hids⟩ | ⟨given, others, rfl, hperm⟩
        · refine .inr ⟨_, [], (List.append_nil _).symm, ?_⟩
          rw [hids]
          have htools : ((results.map fun result => Message.tool result.callID
              (toolContent result)).map Message.json).map resultOf =
              (results.map CallResult.callID).map some := by
            rw [List.map_map, List.map_map, List.map_map]
            rfl
          show List.Perm (List.map resultOf (List.map Message.json _)) _
          rw [htools]
          exact hone.map some
        · exact .inr ⟨given, others ++ _, List.append_assoc _ _ _, hperm⟩

/-- What the person said last was said after a turn, or at the start. -/
theorem Turns.before_user (h : Turns history ids) {init : List Message} {content : String}
    (hlast : history = init ++ [.user content]) :
    Turns init [] ∧ ∀ other, init.getLast? ≠ some (.user other) := by
  induction h with
  | nil => exact absurd hlast.symm (List.append_ne_nil_of_right_ne_nil _ (List.cons_ne_nil _ _))
  | user text hturns hnot _ =>
    obtain ⟨rfl, -⟩ := List.append_inj' hlast rfl
    exact ⟨hturns, hnot⟩
  | turn text calls _ _ =>
    obtain ⟨-, hsame⟩ := List.append_inj' hlast rfl
    cases hsame
  | results results _ _ ih =>
    rcases List.eq_nil_or_concat' results with rfl | ⟨some, last, rfl⟩
    · rw [addResults, List.map_nil, List.append_nil] at hlast
      exact ih hlast
    · rw [addResults, List.map_append, ← List.append_assoc] at hlast
      obtain ⟨-, hsame⟩ := List.append_inj' hlast rfl
      cases hsame

/-- What the person says joins a history whose calls are answered. -/
theorem Turns.addUser (h : Turns history []) (text : String) :
    Turns (addUser .openAI history text) [] := by
  rcases List.eq_nil_or_concat' history with rfl | ⟨init, message, rfl⟩
  · exact h.user text fun content hnone => by cases hnone
  · cases message with
    | user content =>
      obtain ⟨hinit, hnot⟩ := h.before_user rfl
      simpa [Assistant.addUser] using hinit.user (content ++ "\n\n" ++ text) hnot
    | _ => simpa [Assistant.addUser] using h.user text (by simp)

/-- **With nothing waiting, what is sent is accepted.** -/
theorem Turns.accepted (h : Turns history []) : Accepted (sentOf system history) where
  apart := h.apart
  answered before message after hsplit := by
    by_cases hcalls : callIDs message = []
    · exact ⟨[], after, rfl, by rw [hcalls]; exact List.Perm.nil⟩
    · rcases h.answered hsplit hcalls with ⟨-, hnone⟩ | hanswered
      · exact absurd hnone hcalls
      · exact hanswered
  used := by
    have hused : ((sentOf system history).filterMap resultOf ++ []).Perm
        ((sentOf system history).flatMap callIDs) := h.used
    rwa [List.append_nil] at hused

end Accepting

/-! ## How a stream is cut -/

/-- The pieces of an answer, up to its end. -/
def piecesOf (unmarshal : String → Option Chunk) : List String → List Chunk
  | [] => []
  | line :: rest =>
    match readLine unmarshal line with
    | .nothing => piecesOf unmarshal rest
    | .done => []
    | .piece piece => piece :: piecesOf unmarshal rest

/-- The last text that is not empty. -/
def lastSaid (texts : List String) : String := (texts.filter (· ≠ "")).getLast?.getD ""

/-- The choices of some pieces, and the pieces of calls in them. -/
def choicesOf (pieces : List Chunk) : List ChoicePiece := pieces.flatMap Chunk.choices

def callPieces (pieces : List Chunk) (index : Int) : List CallPiece :=
  ((choicesOf pieces).flatMap ChoicePiece.calls).filter fun piece => piece.index = index

/-- The whole content, and the whole arguments of a call. -/
def contentOf (pieces : List Chunk) : String :=
  String.join ((choicesOf pieces).map ChoicePiece.content)

def argumentsOf (pieces : List Chunk) (index : Int) : String :=
  String.join ((callPieces pieces index).map CallPiece.arguments)

/-- What else is read of pieces: which calls there are, their names and ids, the reason the turn
    finished, the model and the usage. -/
structure SameBeside (pieces others : List Chunk) : Prop where
  called : ∀ index, callPieces pieces index = [] ↔ callPieces others index = []
  name : ∀ index, String.join ((callPieces pieces index).map CallPiece.name) =
    String.join ((callPieces others index).map CallPiece.name)
  id : ∀ index, lastSaid ((callPieces pieces index).map CallPiece.id) =
    lastSaid ((callPieces others index).map CallPiece.id)
  finish : lastSaid ((choicesOf pieces).map ChoicePiece.finishReason) =
    lastSaid ((choicesOf others).map ChoicePiece.finishReason)
  model : lastSaid (pieces.map Chunk.model) = lastSaid (others.map Chunk.model)
  usage : (pieces.filterMap Chunk.usage).foldl Assembly.addUsage ⟨0, 0, 0, 0⟩ =
    (others.filterMap Chunk.usage).foldl Assembly.addUsage ⟨0, 0, 0, 0⟩

section Cutting

theorem assemble_ok {unmarshal : String → Option Chunk} {broken : Bool} {a b : Assembly}
    {lines : List String} (h : assemble unmarshal broken a lines = .ok b) :
    b = (piecesOf unmarshal lines).foldl Assembly.add a := by
  induction lines generalizing a with
  | nil =>
    rw [assemble] at h
    split at h
    · cases h
    · cases h
      rfl
  | cons line rest ih =>
    rw [assemble] at h
    rw [piecesOf]
    cases hline : readLine unmarshal line with
    | nothing =>
      rw [hline] at h
      exact ih h
    | done =>
      rw [hline] at h
      cases h
      rfl
    | piece piece =>
      rw [hline] at h
      dsimp only at h
      split at h
      · cases h
      · exact ih h

/-- A text is replaced by the next that is not empty. -/
def replaced (old new : String) : String := if new = "" then old else new

theorem foldl_replaced (texts : List String) : texts.foldl replaced "" = lastSaid texts := by
  induction texts using List.reverseRecOn with
  | nil => rfl
  | append_singleton texts text ih =>
    rw [List.foldl_append, ih, lastSaid, lastSaid, List.filter_append]
    by_cases hempty : text = ""
    · simp [replaced, hempty]
    · simp [replaced, hempty]

/-- A piece of a call joins the calls. -/
def joined (calls : Map Int PendingCall) (piece : CallPiece) : Map Int PendingCall :=
  (Assembly.addCall ⟨"", calls, "", "", ⟨0, 0, 0, 0⟩⟩ piece).calls

theorem foldl_addCall (pieces : List CallPiece) (a : Assembly) :
    pieces.foldl Assembly.addCall a = { a with calls := pieces.foldl joined a.calls } := by
  induction pieces generalizing a with
  | nil => rfl
  | cons piece rest ih => rw [List.foldl_cons, List.foldl_cons, ih]; rfl

theorem foldl_addChoice (choices : List ChoicePiece) (a : Assembly) :
    choices.foldl Assembly.addChoice a = { a with
      text := (choices.map ChoicePiece.content).foldl (· ++ ·) a.text
      calls := (choices.flatMap ChoicePiece.calls).foldl joined a.calls
      finish := (choices.map ChoicePiece.finishReason).foldl replaced a.finish } := by
  induction choices generalizing a with
  | nil => rfl
  | cons choice rest ih =>
    rw [List.foldl_cons, ih, Assembly.addChoice, foldl_addCall, List.flatMap_cons, List.foldl_append]
    rfl

/-- **What a stream comes to**, of its pieces in a row. -/
theorem foldl_add (pieces : List Chunk) (a : Assembly) :
    pieces.foldl Assembly.add a = {
      text := ((choicesOf pieces).map ChoicePiece.content).foldl (· ++ ·) a.text
      calls := ((choicesOf pieces).flatMap ChoicePiece.calls).foldl joined a.calls
      finish := ((choicesOf pieces).map ChoicePiece.finishReason).foldl replaced a.finish
      model := (pieces.map Chunk.model).foldl replaced a.model
      usage := (pieces.filterMap Chunk.usage).foldl Assembly.addUsage a.usage } := by
  induction pieces generalizing a with
  | nil => rfl
  | cons piece rest ih =>
    rw [List.foldl_cons, ih, Assembly.add, foldl_addChoice, choicesOf, choicesOf, List.flatMap_cons,
      List.map_append, List.map_append, List.flatMap_append, List.foldl_append, List.foldl_append,
      List.foldl_append, List.filterMap_cons]
    cases piece.usage <;> rfl

/-- A piece joins what there is of its call. -/
def joinedCall (pending : Option PendingCall) (piece : CallPiece) : Option PendingCall :=
  let pending := pending.getD ⟨"", "", ""⟩
  some ⟨replaced pending.id piece.id, pending.name ++ piece.name, pending.arguments ++ piece.arguments⟩

theorem getElem?_foldl_joined (pieces : List CallPiece) (calls : Map Int PendingCall) (index : Int) :
    (pieces.foldl joined calls)[index]? =
      (pieces.filter fun piece => piece.index = index).foldl joinedCall calls[index]? := by
  induction pieces generalizing calls with
  | nil => rfl
  | cons piece rest ih =>
    have hone : (joined calls piece)[index]? =
        if piece.index = index then joinedCall calls[index]? piece else calls[index]? := by
      rw [joined, Assembly.addCall, getElem?_insert_ite]
      split
      · rename_i hsame
        rw [hsame]
        rfl
      · rfl
    rw [List.foldl_cons, ih, hone, List.filter_cons]
    by_cases hsame : piece.index = index <;> simp [hsame]

/-- A call whose pieces are in a row. -/
theorem foldl_joinedCall (pieces : List CallPiece) :
    pieces.foldl joinedCall none = if pieces = [] then none else
      some ⟨lastSaid (pieces.map CallPiece.id), String.join (pieces.map CallPiece.name),
        String.join (pieces.map CallPiece.arguments)⟩ := by
  induction pieces using List.reverseRecOn with
  | nil => rfl
  | append_singleton pieces piece ih =>
    have hsome : pieces ++ [piece] ≠ [] := by simp
    rw [List.foldl_append, ih, if_neg hsome, List.map_append, List.map_append, List.map_append,
      ← foldl_replaced, ← foldl_replaced, List.foldl_append, String.join_append, String.join_append]
    by_cases hnone : pieces = []
    · subst hnone
      rw [if_pos rfl]
      simp [joinedCall]
    · rw [if_neg hnone]
      simp [joinedCall]

/-- **How the stream is cut does not matter**: pieces with the same content, the same arguments of
    each call and the same beside come to the same. -/
theorem same_assembly {pieces others : List Chunk} (hcontent : contentOf pieces = contentOf others)
    (harguments : ∀ index, argumentsOf pieces index = argumentsOf others index)
    (hbeside : SameBeside pieces others) :
    pieces.foldl Assembly.add .empty = others.foldl Assembly.add .empty := by
  have hcalls : ((choicesOf pieces).flatMap ChoicePiece.calls).foldl joined ∅ =
      ((choicesOf others).flatMap ChoicePiece.calls).foldl joined ∅ := by
    ext1 index
    rw [getElem?_foldl_joined, getElem?_foldl_joined]
    show (callPieces pieces index).foldl joinedCall _ = (callPieces others index).foldl joinedCall _
    rw [Std.ExtTreeMap.getElem?_empty, foldl_joinedCall, foldl_joinedCall]
    have harg := harguments index
    unfold argumentsOf at harg
    simp only [hbeside.called index, hbeside.id index, hbeside.name index, harg]
  have htext : ((choicesOf pieces).map ChoicePiece.content).foldl (· ++ ·) "" =
      ((choicesOf others).map ChoicePiece.content).foldl (· ++ ·) "" := hcontent
  rw [foldl_add, foldl_add]
  simp only [Assembly.empty, htext, hcalls, foldl_replaced, hbeside.finish, hbeside.model,
    hbeside.usage]

end Cutting

/-! ## Every dialogue -/

section Dialogues

variable {unmarshal : String → Option Chunk} {sprint : Value → String}

/-- A chat keeps a history whose calls are answered but for those that wait, and what was sent was
    accepted. -/
structure Dialogue.Inv (d : Dialogue) : Prop where
  kept : ∃ history, Behind d.chat d.system history ∧ Turns history d.awaiting
  accepted : ∀ messages ∈ d.sent, Accepted messages

theorem Dialogue.Inv.step {d d' : Dialogue} (h : d.Inv) {act : DialogueAct}
    (hstep : d.step unmarshal sprint act = some d') : d'.Inv := by
  obtain ⟨⟨history, hkeeps, hturns⟩, haccepted⟩ := h
  cases act with
  | reopen system =>
    obtain ⟨chat, hread, hchat⟩ := hkeeps.reopen system
    rw [Dialogue.step, hread] at hstep
    cases hstep
    exact ⟨⟨history, hchat, hturns⟩, haccepted⟩
  | call call =>
    cases call with
    | user text =>
      rw [Dialogue.step] at hstep
      split at hstep
      · cases hstep
      · rename_i hnone
        cases hstep
        have hsettled : Turns history [] := by simpa [not_not.mp hnone] using hturns
        refine ⟨⟨_, hkeeps.user sprint text, ?_⟩, haccepted⟩
        have hawaiting : d.awaiting = [] := not_not.mp hnone
        show Turns _ d.awaiting
        rw [hawaiting]
        exact hsettled.addUser text
    | results results =>
      rw [Dialogue.step] at hstep
      split at hstep
      · rename_i hperm
        cases hstep
        exact ⟨⟨_, hkeeps.results results, hturns.results results (List.isPerm_iff.mp hperm)⟩,
          haccepted⟩
      · cases hstep
    | next answer =>
      rw [Dialogue.step] at hstep
      split at hstep
      · cases hstep
      · rename_i hnone
        cases hstep
        have hsettled : Turns history [] := by simpa [not_not.mp hnone] using hturns
        refine ⟨⟨_, hkeeps.next unmarshal answer, ?_⟩, fun messages hmem => ?_⟩
        · show Turns _ (awaitingOf (d.chat.next unmarshal answer).2)
          unfold OpenAIChat.next
          cases readAnswer unmarshal answer with
          | error e => exact hsettled
          | ok a => exact hsettled.turn a.text a.toolCalls
        · rcases List.mem_cons.mp hmem with rfl | hbefore
          · rw [hkeeps.sent]
            exact hsettled.accepted
          · exact haccepted messages hbefore

/-- **In every dialogue** what is sent is accepted. -/
theorem dialogue_inv {d : Dialogue}
    (h : (dialogue unmarshal sprint).Reachable Machine.Always d) : d.Inv := by
  refine h.invariant Dialogue.Inv (fun d hd => ?_) fun d act d' _ hd _ hstep => hd.step hstep
  obtain ⟨hchat, hawaiting, hsent⟩ := hd
  refine ⟨⟨[], ?_, hawaiting ▸ Turns.nil⟩, by rw [hsent]; simp⟩
  rw [newOpenAIChat] at hchat
  rw [← Option.some.inj hchat]
  refine ⟨?_, by simp⟩
  unfold OpenAIChat.messages prompt
  split <;> rfl

/-- **A conversation stays one the service accepts, and survives a restart.** In every dialogue, what
    was sent is accepted; a turn that fails leaves the history as it was; the conversation read back
    behind its system prompt sends the same from then on; and a turn comes of the content and of the
    arguments of each call, however the stream cuts them. -/
theorem dialogue_sound {d : Dialogue}
    (h : (dialogue unmarshal sprint).Reachable Machine.Always d) :
    (∀ messages ∈ d.sent, Accepted messages) ∧
      (∀ answer e, (d.chat.next unmarshal answer).2 = .error e →
        (d.chat.next unmarshal answer).1 = d.chat) ∧
      (∃ chat, newOpenAIChat d.system (some d.chat.toHistory) = some chat ∧
        ∀ calls, chat.sends unmarshal sprint calls = d.chat.sends unmarshal sprint calls) ∧
      ∀ answer other : Answer,
        contentOf (piecesOf unmarshal answer.lines) = contentOf (piecesOf unmarshal other.lines) →
        (∀ index, argumentsOf (piecesOf unmarshal answer.lines) index =
          argumentsOf (piecesOf unmarshal other.lines) index) →
        SameBeside (piecesOf unmarshal answer.lines) (piecesOf unmarshal other.lines) →
        ∀ turn turn', (d.chat.next unmarshal (.ok answer)).2 = .ok turn →
          (d.chat.next unmarshal (.ok other)).2 = .ok turn' →
            d.chat.next unmarshal (.ok answer) = d.chat.next unmarshal (.ok other) := by
  have hinv := dialogue_inv h
  obtain ⟨history, hkeeps, -⟩ := hinv.kept
  refine ⟨hinv.accepted, fun answer e herror => ?_, ?_, ?_⟩
  · unfold OpenAIChat.next at herror ⊢
    cases hread : readAnswer unmarshal answer with
    | error e => rfl
    | ok a =>
      rw [hread] at herror
      cases herror
  · obtain ⟨chat, hread, hchat⟩ := hkeeps.reopen d.system
    exact ⟨chat, hread, sends_eq hchat hkeeps unmarshal sprint⟩
  · intro answer other hcontent harguments hbeside turn turn' hturn hturn'
    unfold OpenAIChat.next at hturn hturn' ⊢
    cases hone : readAnswer unmarshal (.ok answer) with
    | error e =>
      rw [hone] at hturn
      cases hturn
    | ok a =>
      cases htwo : readAnswer unmarshal (.ok other) with
      | error e =>
        rw [htwo] at hturn'
        cases hturn'
      | ok b =>
        have hsame : a = b := by
          rw [assemble_ok hone, assemble_ok htwo]
          exact same_assembly hcontent harguments hbeside
        rw [hsame]

end Dialogues

/-- A piece that calls a tool, without an id of the call. -/
def lagPiece : Chunk := ⟨[⟨"", [⟨0, "", "subscription_lag", "{}"⟩], "tool_calls"⟩], "", none, none⟩

/-- A service whose only piece that is. -/
def readsLag (payload : String) : Option Chunk := if payload = "lag" then some lagPiece else none

/-- Its answer. -/
def lagAnswer : Answer := ⟨["data: lag\n", "data: [DONE]\n"], false⟩

/-- The person asks, and twice a tool is called. -/
def lagCalls : List DialogueAct :=
  [.call (.user "Why is it behind?"), .call (.next (.ok lagAnswer)),
    .call (.results [⟨"call_0", "12", false⟩]), .call (.next (.ok lagAnswer)),
    .call (.results [⟨"call_0", "13", false⟩]), .call (.next (.error "offline"))]

/-- A conversation without a system prompt. -/
def lagStart : Dialogue := ⟨⟨[]⟩, "", [], []⟩

/-- What becomes of it. -/
def lagDialogue : Dialogue := (dialogue readsLag fun _ => "").endOf lagStart lagCalls

theorem lagDialogue_reachable :
    (dialogue readsLag fun _ => "").Reachable Machine.Always lagDialogue := by
  have hstart : (dialogue readsLag fun _ => "").start lagStart := ⟨rfl, rfl, rfl⟩
  exact (Machine.Reachable.start hstart).endOf (Machine.permitted_always _ _ _)

/-- Three times it was sent, and each time accepted. -/
theorem dialogue_sound_lag : lagDialogue.sent.length = 3 ∧
    ∀ messages ∈ lagDialogue.sent, Accepted messages :=
  ⟨by decide +kernel, (dialogue_sound lagDialogue_reachable).1⟩

/-- An id is used by one result. -/
def UsedOnce (messages : List Json) : Prop :=
  ∀ id ∈ messages.flatMap callIDs, (messages.filterMap resultOf).count id = 1

instance (messages : List Json) : Decidable (UsedOnce messages) :=
  inferInstanceAs (Decidable (∀ id ∈ messages.flatMap callIDs, _ = 1))

/-- Two turns name a call after its index, and two results use the name. -/
theorem index_used_twice :
    ∃ d, (dialogue readsLag fun _ => "").Reachable Machine.Always d ∧
      ∃ messages ∈ d.sent, ¬ UsedOnce messages := by
  have hsent : ∃ messages ∈ lagDialogue.sent, ¬ UsedOnce messages := by
    decide +kernel
  exact ⟨lagDialogue, lagDialogue_reachable, hsent⟩

end MqStudio.Assistant
