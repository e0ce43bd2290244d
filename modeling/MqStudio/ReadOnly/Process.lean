import MqStudio.Connection.StoreInvariant

/-!
# The Read-Only Process

A second process reads the window's files and dials its own clients: `OpenReadOnly` and
`RefreshReadOnly` of the connection service, and `RefreshReadOnly` of the assembled services, which
refreshes the settings first (`app.go`). The window may replace either file at any moment.

Three locks decide which orders of steps there are. `refreshMu` admits one refresh at a time: the
server's middleware holds it around every refresh (`server.go`), and nothing else refreshes.
`runtimeMu` is held by a dial for as long as the broker takes to answer, and by a refresh from its
second reading of the profiles to its end. `mu` is held only across the few reads a dial makes to
resolve its profile, between which the settings, under a lock of their own, may change.

## Main definitions

- `staleDialsLocked`, `unchanged`: how a refresh judges the clients this process opened.
- `process`: every interleaving of dials, refreshes and the window's writes.
-/

namespace MqStudio.ReadOnly

open MqStudio.Connection
open MqStudio.Driver
open MqStudio.Lib
open MqStudio.Lib.TreeMap
open MqStudio.Model
open MqStudio.Settings (AppSettings)
open MqStudio.Storage

/-! ## Judging what was read and what was dialled -/

/-- A file without a byte, or no file. -/
def isBlank {α : Type} : Option (Document α) → Bool
  | none => true
  | some (.malformed text) => text = ""
  | some (.encoded ..) => false

/-- `bytes.Equal` on two readings of a file, one of which may have found none. -/
def bytesEqual {α : Type} [DecidableEq α] (a b : Option (Document α)) : Bool :=
  a = b || (isBlank a && isBlank b)

/-- What was dialled is no longer what the profiles describe. -/
def isStale (settings : AppSettings) (connections : Profiles) (id : Int)
    (dialed : ConnectionProfile) : Bool :=
  match connections[id]? with
  | none => true
  | some connection => dialParametersChanged dialed (resolveForDial settings connection)

/-- `staleDialsLocked` -/
def staleDialsLocked (settings : AppSettings) (s : Connection.Service) : List Int :=
  (s.dialed.toList.filter fun entry => isStale settings s.connections entry.1 entry.2).map
    Prod.fst

/-- `unchanged` -/
def unchanged (settings : AppSettings) (s : Connection.Service) (data : Option (Document Store)) :
    Bool :=
  bytesEqual data s.lastRead && (staleDialsLocked settings s).isEmpty

/-- The reloading half of `RefreshReadOnly`, under `mu`. -/
def reloadStore (ctx : Context) (s : Connection.Service) (data : Option (Document Store)) :
    Except ConnectionError Connection.Service :=
  if bytesEqual data s.lastRead then .ok s
  else
    match data with
    | none =>
      let (connections, nextID) := buildConnectionState []
      .ok { s with connections := connections, nextID := nextID, lastRead := none }
    | some data => loadConnections ctx s data

/-- Forget the dials of some ids. -/
def forgetDials (ids : List Int) (s : Connection.Service) : Connection.Service :=
  { s with dialed := ids.foldl (fun dialed id => dialed.erase id) s.dialed }

/-! ## State -/

/-- `resolveForDial` under settings that changed between its two reads of them. -/
def resolveBetween (earlier later : AppSettings) (connection : ConnectionProfile) :
    ConnectionProfile :=
  { resolveForDial later connection with
    timeoutSec := (getConnectTimeout earlier connection).tdiv second }

/-- How far the dial that holds `runtimeMu` has come. -/
inductive DialPhase where
  | idle
  | locked (id : Int)
  /-- Holds `mu`: the profile and the timeout are read, the credentials are not. -/
  | resolving (id : Int) (connection : ConnectionProfile) (earlier : AppSettings)
  | dialing (id : Int) (resolved : ConnectionProfile)
  /-- The client is open and not yet recorded. -/
  | connected (id : Int) (resolved : ConnectionProfile)
  deriving DecidableEq

/-- How far the refresh that holds `refreshMu` has come. `settings` are the settings it read, or
    found in memory where the file read as before. -/
inductive RefreshPhase where
  | idle
  | started
  | settingsRead (data : Option (Document AppSettings))
  | settingsDone (settings : AppSettings)
  | storeRead (settings : AppSettings) (data : Option (Document Store))
  /-- Queued behind `runtimeMu`. -/
  | queued (settings : AppSettings)
  | locked (settings : AppSettings)
  | storeReread (settings : AppSettings) (data : Option (Document Store))
  | removing (settings : AppSettings) (profiles : Profiles) (stale : List Int)
  /-- Returned nil, having read these settings and profiles. -/
  | returned (settings : AppSettings) (profiles : Profiles)
  deriving DecidableEq

/-- The refresh holds `runtimeMu`. -/
def RefreshPhase.holdsRuntime : RefreshPhase → Bool
  | .locked _ | .storeReread .. | .removing .. => true
  | _ => false

/-- The process and the two files it reads. -/
structure State where
  settings : Settings.Service
  connections : Connection.Service
  dial : DialPhase
  refresh : RefreshPhase
  deriving DecidableEq

/-- `runtimeMu` is free. -/
def State.runtimeFree (s : State) : Bool :=
  s.dial = .idle && !s.refresh.holdsRuntime

/-- `mu` is free. -/
def State.storeFree (s : State) : Bool :=
  match s.dial with
  | .resolving .. => false
  | _ => true

/-! ## Steps -/

/-- What the window, a dial or the refresh does next. -/
inductive Act where
  /-- The window replaces the settings file. -/
  | writeSettings (file : Option (Document AppSettings))
  /-- The window replaces the profile file. -/
  | writeStore (file : Option (Document Store))
  /-- A tool call takes `runtimeMu` to open a client. -/
  | openReadOnly (id : Int)
  | resolveTimeout
  | resolveCredentials
  | answer (fails : Bool)
  | record
  /-- A tool call takes `refreshMu`. -/
  | refresh
  | readSettings (fails : Bool)
  | applySettings
  | readStore (fails : Bool)
  /-- The fast path, or on to the slow one. -/
  | checkUnchanged
  | lockRuntime
  | rereadStore (fails : Bool)
  | applyStore
  | removeStale
  deriving DecidableEq

/-- `OpenReadOnly`, from `runtimeMu` on. -/
def dialStep (s : State) : Act → Option State
  | .openReadOnly id =>
    if !s.runtimeFree then none
    else if s.connections.runtime.hasClient id then some s
    else some { s with dial := .locked id }
  | .resolveTimeout =>
    match s.dial with
    | .locked id =>
      match s.connections.connections[id]? with
      | none => some { s with dial := .idle }
      | some connection => some { s with dial := .resolving id connection s.settings.settings }
    | _ => none
  | .resolveCredentials =>
    match s.dial with
    | .resolving id connection earlier =>
      some { s with dial := .dialing id (resolveBetween earlier s.settings.settings connection) }
    | _ => none
  | .answer fails =>
    match s.dial with
    | .dialing id resolved =>
      match s.connections.runtime.connect resolved fails with
      | none => some { s with dial := .idle }
      | some runtime =>
        some { s with
          connections := { s.connections with runtime := runtime }
          dial := .connected id resolved }
    | _ => none
  | .record =>
    match s.dial with
    | .connected id resolved =>
      some { s with
        connections := { s.connections with dialed := s.connections.dialed.insert id resolved }
        dial := .idle }
    | _ => none
  | _ => none

/-- `Services.RefreshReadOnly`, from `refreshMu` on. An error ends it. -/
def refreshStep (ctx : Context) (s : State) : Act → Option State
  | .refresh =>
    match s.refresh with
    | .idle | .returned .. => some { s with refresh := .started }
    | _ => none
  | .readSettings fails =>
    match s.refresh with
    | .started =>
      some { s with refresh := if fails then .idle else .settingsRead s.settings.file }
    | _ => none
  | .applySettings =>
    match s.refresh with
    | .settingsRead data =>
      match s.settings.refreshReadOnly ctx.cipher data with
      | .error _ => some { s with refresh := .idle }
      | .ok settings =>
        some { s with settings := settings, refresh := .settingsDone settings.settings }
    | _ => none
  | .readStore fails =>
    match s.refresh with
    | .settingsDone settings =>
      some { s with
        refresh := if fails then .idle else .storeRead settings s.connections.file }
    | _ => none
  | .checkUnchanged =>
    match s.refresh with
    | .storeRead settings data =>
      if !s.storeFree then none
      else if unchanged s.settings.settings s.connections data then
        some { s with refresh := .returned settings s.connections.connections }
      else some { s with refresh := .queued settings }
    | _ => none
  | .lockRuntime =>
    match s.refresh with
    | .queued settings => if s.runtimeFree then some { s with refresh := .locked settings } else none
    | _ => none
  | .rereadStore fails =>
    match s.refresh with
    | .locked settings =>
      some { s with
        refresh := if fails then .idle else .storeReread settings s.connections.file }
    | _ => none
  | .applyStore =>
    match s.refresh with
    | .storeReread settings data =>
      match reloadStore ctx s.connections data with
      | .error _ => some { s with refresh := .idle }
      | .ok connections =>
        let stale := staleDialsLocked s.settings.settings connections
        some { s with
          connections := forgetDials stale connections
          refresh := .removing settings connections.connections stale }
    | _ => none
  | .removeStale =>
    match s.refresh with
    | .removing settings profiles (id :: stale) =>
      some { s with
        connections := { s.connections with runtime := s.connections.runtime.remove id }
        refresh := .removing settings profiles stale }
    | .removing settings profiles [] => some { s with refresh := .returned settings profiles }
    | _ => none
  | _ => none

/-- The process beside the window. -/
def process (ctx : Context) : Machine State Act where
  start s :=
    (∃ file, s.settings = .new ctx.cipher file ∨ s.settings = ⟨Settings.defaultSettings, file, none⟩) ∧
      (∃ file readFails, s.connections = new ctx file readFails) ∧
      s.dial = .idle ∧ s.refresh = .idle
  step s
    | .writeSettings file => some { s with settings := { s.settings with file := file } }
    | .writeStore file => some { s with connections := { s.connections with file := file } }
    | a => dialStep s a <|> refreshStep ctx s a

end MqStudio.ReadOnly
