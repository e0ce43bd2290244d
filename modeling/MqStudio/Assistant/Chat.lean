import Mathlib.Data.List.Infix
import MqStudio.Storage

/-!
# Chats

`internal/agent/provider`: one conversation with one model on one service, in the two protocols.
The history is kept in the service's own shape, which differs in how two messages of a person in a
row become one, and in how the results of a turn's calls are handed back.

What a turn is asked for with, beside the history and the tools, is left out, and so is how its
bytes arrive.

## Main definitions

- `Chat`: `User`, `Results`, `Offer`, and a turn that succeeds.
- `Carries`: the texts of a person a history holds, in order.
- `owed`: the calls of a history that have no result yet.

## Main results

- `Carries.addUser`: what a person says is carried once, after what was.
- `owed_addResults`: the results of a turn's calls settle it.
-/

namespace MqStudio.Assistant

/-! ## Services -/

/-- `provider.Kind` -/
inductive Protocol where
  | anthropic | openAI
  deriving DecidableEq

/-- `Endpoint` -/
structure Endpoint where
  kind : Protocol
  baseURL : String
  apiKey : String
  proxy : String
  fallback : Bool
  deriving DecidableEq

/-- `Usage` -/
structure Usage where
  input : Int
  output : Int
  cacheRead : Int
  cacheWrite : Int
  deriving DecidableEq

/-- What a turn cost is added. -/
def Usage.add (u v : Usage) : Usage :=
  ⟨u.input + v.input, u.output + v.output, u.cacheRead + v.cacheRead, u.cacheWrite + v.cacheWrite⟩

/-- `provider.Call`: a tool a model asked for, with its arguments as they came. -/
structure ToolCall where
  id : String
  name : String
  input : String
  deriving DecidableEq

/-- `provider.Result` -/
structure CallResult where
  callID : String
  content : String
  isError : Bool
  deriving DecidableEq

/-- `Stop` -/
inductive StopReason where
  | done | tools | length | refused | context | other
  deriving DecidableEq

/-- `Turn` -/
structure Turn where
  text : String
  calls : List ToolCall
  stop : StopReason
  explanation : String
  usage : Usage
  deriving DecidableEq

/-! ## Histories -/

/-- A block of a message of the person, in the Messages API. -/
inductive Block where
  | text (text : String)
  | toolResult (result : CallResult)
  deriving DecidableEq

/-- A message, in the shape of either protocol. -/
inductive Message where
  /-- What the person said, in chat completions. -/
  | user (content : String)
  /-- One result, in chat completions. -/
  | tool (callID content : String)
  /-- What the person said and the results, in the Messages API. -/
  | blocks (blocks : List Block)
  /-- A turn of the model. -/
  | assistant (text : String) (calls : List ToolCall)
  deriving DecidableEq

/-- `User`: two messages in a row are one to either service. -/
def addUser (kind : Protocol) (history : List Message) (text : String) : List Message :=
  match kind with
  | .openAI =>
    match history.getLast? with
    | some (.user content) => history.dropLast ++ [.user (content ++ "\n\n" ++ text)]
    | _ => history ++ [.user text]
  | .anthropic =>
    match history.getLast? with
    | some (.blocks blocks) => history.dropLast ++ [.blocks (blocks ++ [.text text])]
    | _ => history ++ [.blocks [.text text]]

/-- The content of a result in chat completions, which have no error flag. -/
def toolContent (result : CallResult) : String :=
  if result.isError then "Error: " ++ result.content else result.content

/-- `Results`: a message each, or one for all of them. -/
def addResults (kind : Protocol) (history : List Message) (results : List CallResult) :
    List Message :=
  match kind with
  | .openAI => history ++ results.map fun result => .tool result.callID (toolContent result)
  | .anthropic => history ++ [.blocks (results.map Block.toolResult)]

/-- The turn of the model joins the history. -/
def addTurn (history : List Message) (turn : Turn) : List Message :=
  history ++ [.assistant turn.text turn.calls]

/-- `Chat`: the system prompt, which every chat sets afresh, is not part of the history. -/
structure Chat where
  kind : Protocol
  model : String
  tools : List String
  history : List Message
  deriving DecidableEq

namespace Chat

/-- `User` -/
def user (c : Chat) (text : String) : Chat :=
  { c with history := addUser c.kind c.history text }

/-- `User`, of each text. -/
def users (c : Chat) (texts : List String) : Chat := texts.foldl user c

/-- `Results` -/
def results (c : Chat) (results : List CallResult) : Chat :=
  { c with history := addResults c.kind c.history results }

/-- `Next`, when it succeeds. -/
def next (c : Chat) (turn : Turn) : Chat := { c with history := addTurn c.history turn }

/-- `Offer` -/
def offer (c : Chat) (tools : List String) : Chat := { c with tools := tools }

end Chat

/-! ## What the person said -/

/-- The texts of a person among blocks. -/
def textsOf (blocks : List Block) : List String :=
  blocks.filterMap fun
    | .text text => some text
    | .toolResult _ => none

@[simp] theorem textsOf_append (xs ys : List Block) :
    textsOf (xs ++ ys) = textsOf xs ++ textsOf ys :=
  List.filterMap_append

@[simp] theorem textsOf_text (text : String) : textsOf [.text text] = [text] := rfl

@[simp] theorem textsOf_results (results : List CallResult) :
    textsOf (results.map Block.toolResult) = [] := by
  induction results with
  | nil => rfl
  | cons result rest ih => exact ih

/-- What a message says for the person. In chat completions it is a run of texts, joined. -/
def Message.Says : Message → List String → Prop
  | .user content, group => group ≠ [] ∧ content = "\n\n".intercalate group
  | .tool _ _, group => group = []
  | .blocks content, group => group = textsOf content
  | .assistant _ _, group => group = []

/-- A message of its own for one text. -/
theorem says_user (text : String) : (Message.user text).Says [text] :=
  ⟨List.cons_ne_nil _ _, String.intercalate_singleton.symm⟩

theorem says_text (text : String) : (Message.blocks [.text text]).Says [text] := rfl

/-- **The texts a history carries**, in order and each once. -/
inductive Carries : List Message → List String → Prop where
  | nil : Carries [] []
  | concat {history : List Message} {texts group : List String} {message : Message} :
    Carries history texts → message.Says group → Carries (history ++ [message]) (texts ++ group)

section Carried

variable {history : List Message} {texts : List String}

/-- What the last message of a history says is the end of what the history carries. -/
theorem Carries.last {message : Message} (h : Carries (history ++ [message]) texts) :
    ∃ before group, texts = before ++ group ∧ Carries history before ∧ message.Says group := by
  generalize hwhole : history ++ [message] = whole at h
  cases h with
  | nil => exact absurd hwhole (List.append_ne_nil_of_right_ne_nil _ (List.cons_ne_nil _ _))
  | concat hcarries hsaid =>
    obtain ⟨rfl, hlast⟩ := List.append_inj' hwhole rfl
    obtain rfl := List.head_eq_of_cons_eq hlast
    exact ⟨_, _, rfl, hcarries, hsaid⟩

/-- Joining one more text. -/
theorem intercalate_concat {sep : String} {group : List String} (h : group ≠ []) (text : String) :
    sep.intercalate (group ++ [text]) = sep.intercalate group ++ sep ++ text := by
  rw [String.intercalate_append_of_ne_nil h (List.cons_ne_nil _ _), String.intercalate_singleton]

/-- A message of the model's carries nothing of the person's. -/
theorem Carries.concat_silent {message : Message} (h : Carries history texts)
    (hsaid : message.Says []) : Carries (history ++ [message]) texts := by
  have hconcat := h.concat hsaid
  rwa [List.append_nil] at hconcat

/-- **What the person says** is carried once, after what was carried before. -/
theorem Carries.addUser (h : Carries history texts) (kind : Protocol) (text : String) :
    Carries (addUser kind history text) (texts ++ [text]) := by
  -- a text of its own, or the end of the last message
  rcases List.eq_nil_or_concat' history with rfl | ⟨init, message, rfl⟩
  · cases kind with
    | openAI => exact h.concat (says_user text)
    | anthropic => exact h.concat (says_text text)
  · obtain ⟨before, group, rfl, hinit, hsaid⟩ := h.last
    cases kind with
    | openAI =>
      cases message with
      | user content =>
        obtain ⟨hne, rfl⟩ := hsaid
        have hjoined : (Message.user ("\n\n".intercalate group ++ "\n\n" ++ text)).Says
            (group ++ [text]) :=
          ⟨List.append_ne_nil_of_left_ne_nil hne _, (intercalate_concat hne text).symm⟩
        simpa [Assistant.addUser] using hinit.concat hjoined
      | _ => simpa [Assistant.addUser] using h.concat (says_user text)
    | anthropic =>
      cases message with
      | blocks blocks =>
        obtain rfl := hsaid
        have hjoined : (Message.blocks (blocks ++ [.text text])).Says
            (textsOf blocks ++ [text]) := by
          simp [Message.Says]
        simpa [Assistant.addUser] using hinit.concat hjoined
      | _ => simpa [Assistant.addUser] using h.concat (says_text text)

/-- Results carry nothing of the person's. -/
theorem Carries.addResults (h : Carries history texts) (kind : Protocol)
    (results : List CallResult) : Carries (addResults kind history results) texts := by
  cases kind with
  | anthropic => exact h.concat_silent (textsOf_results results).symm
  | openAI =>
    simp only [Assistant.addResults]
    induction results generalizing history with
    | nil => simpa using h
    | cons result rest ih =>
      have hresult : (Message.tool result.callID (toolContent result)).Says [] := rfl
      simpa using ih (h.concat_silent hresult)

/-- So does a turn. -/
theorem Carries.addTurn (h : Carries history texts) (turn : Turn) :
    Carries (addTurn history turn) texts :=
  h.concat_silent rfl

/-- The texts of a queue are carried in their order. -/
theorem Carries.users {chat : Chat} (h : Carries chat.history texts) (more : List String) :
    Carries (chat.users more).history (texts ++ more) := by
  induction more generalizing chat texts with
  | nil => simpa [Chat.users] using h
  | cons text rest ih =>
    have hnext : Carries (chat.user text).history (texts ++ [text]) := h.addUser chat.kind text
    have hrest := ih hnext
    rwa [List.append_assoc] at hrest

end Carried

/-! ## What is owed to the model -/

/-- The calls among blocks that a result answers. -/
def answersOf (blocks : List Block) : List String :=
  blocks.filterMap fun
    | .text _ => none
    | .toolResult result => some result.callID

@[simp] theorem answersOf_results (results : List CallResult) :
    answersOf (results.map Block.toolResult) = results.map CallResult.callID := by
  induction results with
  | nil => rfl
  | cons result rest ih => exact congrArg (result.callID :: ·) ih

/-- What is owed after one more message: only the results of a turn's calls, in their order, may
    follow a turn that asked for some. -/
def owes : Option (List String) → Message → Option (List String)
  | some [], .user _ => some []
  | some (id :: rest), .tool callID _ => if callID = id then some rest else none
  | some ids, .blocks blocks => if answersOf blocks = ids then some [] else none
  | some [], .assistant _ calls => some (calls.map ToolCall.id)
  | _, _ => none

@[simp] theorem owes_blocks (ids : List String) (blocks : List Block) :
    owes (some ids) (.blocks blocks) = if answersOf blocks = ids then some [] else none := by
  cases ids <;> rfl

/-- **The calls of a history without a result**, or nothing when one was answered out of turn. -/
def owed (history : List Message) : Option (List String) := history.foldl owes (some [])

@[simp] theorem owed_concat (history : List Message) (message : Message) :
    owed (history ++ [message]) = owes (owed history) message := by
  simp [owed]

section Owed

variable {history : List Message}

/-- The person speaks once nothing is owed. -/
theorem owed_addUser (h : owed history = some []) (kind : Protocol) (text : String) :
    owed (addUser kind history text) = some [] := by
  rcases List.eq_nil_or_concat' history with rfl | ⟨init, message, rfl⟩
  · cases kind <;> rfl
  · cases kind with
    | openAI =>
      cases message with
      | user content =>
        rw [owed_concat] at h
        have hinit : owed init = some [] := by
          cases hinit : owed init with
          | none => simp [hinit, owes] at h
          | some ids =>
            cases ids with
            | nil => rfl
            | cons id rest => simp [hinit, owes] at h
        simp [addUser, hinit, owes]
      | _ => simp only [addUser, List.getLast?_concat, owed_concat _ (Message.user text), h, owes]
    | anthropic =>
      cases message with
      | blocks blocks =>
        rw [owed_concat] at h
        have hsame : answersOf (blocks ++ [.text text]) = answersOf blocks := by
          simp [answersOf]
        cases hinit : owed init with
        | none => simp [hinit, owes] at h
        | some ids =>
          rw [hinit] at h
          simpa [addUser, hinit, owes, hsame] using h
      | _ =>
        simp only [addUser, List.getLast?_concat, owed_concat _ (Message.blocks _), h]
        rfl

theorem owed_users {chat : Chat} (h : owed chat.history = some []) (texts : List String) :
    owed (chat.users texts).history = some [] := by
  induction texts generalizing chat with
  | nil => exact h
  | cons text rest ih =>
    have hnext : owed (chat.user text).history = some [] := owed_addUser h chat.kind text
    exact ih hnext

/-- A turn owes a result to each of its calls. -/
theorem owed_addTurn (h : owed history = some []) (turn : Turn) :
    owed (addTurn history turn) = some (turn.calls.map ToolCall.id) := by
  simp [addTurn, h, owes]

/-- **Results settle a turn**: one for each call, in their order. -/
theorem owed_addResults {results : List CallResult}
    (h : owed history = some (results.map CallResult.callID)) (kind : Protocol) :
    owed (addResults kind history results) = some [] := by
  cases kind with
  | anthropic =>
    simp [addResults, h]
  | openAI =>
    simp only [addResults]
    induction results generalizing history with
    | nil => simpa using h
    | cons result rest ih =>
      have hrest : owed (history ++ [.tool result.callID (toolContent result)]) =
          some (rest.map CallResult.callID) := by
        simp [h, owes]
      simpa using ih hrest

end Owed

end MqStudio.Assistant
