import Mathlib.Data.List.Infix

/-!
# One Request to RocketMQ

`exec` of `internal/driver/rocketmq/exec.go`: a request is made on the client there is and, where the
network dropped, once more on a client dialled anew. The admin client is outside the repository, so
a request is given by what it is answered.

## Main results

- `exec_ok_iff_mem`: the answer is no error exactly where one of the calls is answered without one.
- `exec_ok_iff_succeeds`: when that is.
-/

namespace MqStudio.Driver.Rocket

/-- A request, by what it is answered: is the connection closed, what does the first call say, is
    there a new connection, and what does the call on it say? -/
structure Request (α : Type) where
  closed : Bool
  first : Except String α
  reconnect : Option String
  second : Except String α

/-- The texts of `IsRetryableNetworkError`. -/
def indicators : List String :=
  ["broken pipe", "connection reset by peer", "use of closed network connection",
    "connection refused", "no route to host", "network is unreachable", "i/o timeout", "eof",
    "发送数据失败", "所有 nameserver 请求失败"]

/-- `IsRetryableNetworkError`, with `unicode.ToLower` as given. -/
def isRetryableNetworkError (toLower : Char → Char) (text : String) : Bool :=
  indicators.any fun indicator => decide (indicator.toList <:+: text.toList.map toLower)

/-- `exec`: the answers of the calls it makes, and its own. -/
def exec {α : Type} (toLower : Char → Char) (request : Request α) :
    List (Except String α) × Except String α :=
  if request.closed then ([], .error "连接已关闭")
  else
    match request.first with
    | .ok value => ([.ok value], .ok value)
    | .error err =>
      if isRetryableNetworkError toLower err = false then ([.error err], .error err)
      else
        match request.reconnect with
        | some reconnectErr =>
          ([.error err], .error ("请求失败: " ++ err ++ "；自动重连失败: " ++ reconnectErr))
        | none => ([.error err, request.second], request.second)

/-- A request answered on the connection there is. -/
def answered {α : Type} (answer : Except String α) : Request α := ⟨false, answer, none, answer⟩

/-- A request that succeeds: at once, or after the network dropped on a new connection. -/
def Request.Succeeds (toLower : Char → Char) (request : Request Unit) : Prop :=
  request.closed = false ∧
    (request.first = .ok () ∨
      ∃ err, request.first = .error err ∧ isRetryableNetworkError toLower err = true ∧
        request.reconnect = none ∧ request.second = .ok ())

/-- The answer of a request is one of its calls', where it is no error. -/
theorem exec_ok_iff_mem {toLower : Char → Char} {request : Request Unit} :
    .ok () ∈ (exec toLower request).1 ↔ (exec toLower request).2 = .ok () := by
  unfold exec
  split
  · simp
  · split
    · simp
    · split
      · simp
      · split <;> simp [eq_comm]

theorem exec_ok_iff_succeeds {toLower : Char → Char} {request : Request Unit} :
    (exec toLower request).2 = .ok () ↔ request.Succeeds toLower := by
  obtain ⟨closed, first, reconnect, second⟩ := request
  cases closed with
  | true => simp [exec, Request.Succeeds]
  | false =>
    cases first with
    | ok value => simp [exec, Request.Succeeds]
    | error err =>
      cases hretry : isRetryableNetworkError toLower err <;>
        cases reconnect <;> simp [exec, Request.Succeeds, hretry]

end MqStudio.Driver.Rocket
