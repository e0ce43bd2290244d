import MqStudio.Connection.Encoding
import MqStudio.Driver

/-!
# The Connection Service

`service.go`, `lifecycle.go`, `mutation.go` and `reload.go`: the state of the service and every
operation the window performs on it. An operation is a function of the state before it, its
arguments and the choices of the environment while it runs: which file operations are refused,
which nonces are drawn, whether the broker answers, and the time.

Operations are serialised by the service's own locks, so each is one step here.
-/

namespace MqStudio.Connection

open MqStudio.Driver
open MqStudio.Lib.TreeMap
open MqStudio.Model
open MqStudio.Settings (AppSettings)
open MqStudio.Storage

/-! ## State and environment -/

/-- `Service`, with the file at `dataFilePath` and the registry behind `ClientRuntime`.
    `lastRead` and `dialed` serve a read-only process alone. -/
structure Service where
  connections : Profiles
  nextID : Int
  file : Option (Document Store)
  reconnectReload : Bool
  lastRead : Option (Document Store)
  dialed : Profiles
  runtime : Registry
  deriving DecidableEq

/-- What the service is built with. -/
structure Context where
  cipher : Cipher
  endpoints : EndpointPolicy

/-- What the environment decides during one save of the store. -/
structure SaveFaults where
  nonces : Nonces
  writeFails : Bool

/-- What the environment decides during one operation. `save` is the operation's own save and
    `stamp` the one that records a client's status. -/
structure Faults where
  readFails : Bool
  save : SaveFaults
  dialFails : Bool
  stamp : SaveFaults
  now : String

/-- Every nonce is drawn and the write is accepted. -/
def noSaveFaults : SaveFaults := ⟨fun _ _ => some 0, false⟩

/-- Nothing goes wrong. -/
def noFaults : Faults := ⟨false, noSaveFaults, false, noSaveFaults, "now"⟩

/-- What became of the save an operation makes of its own change. -/
inductive SaveReport where
  | notReached
  | succeeded
  | failed
  deriving DecidableEq

/-- The state after an operation, and what it returned. -/
structure Outcome where
  service : Service
  profile : Option ConnectionProfile
  error : Option ConnectionError
  saved : SaveReport

/-- The operation refused before it changed anything. -/
def Outcome.rejected (s : Service) (error : ConnectionError) : Outcome :=
  ⟨s, none, some error, .notReached⟩

/-! ## Loading and saving -/

/-- `loadConnections` -/
def loadConnections (ctx : Context) (s : Service) (data : Document Store) :
    Except ConnectionError Service :=
  match decodeStore ctx.cipher data with
  | .error e => .error e
  | .ok connections =>
    let (connections, nextID) := buildConnectionState connections
    .ok { s with connections := connections, nextID := nextID, lastRead := some data }

/-- `loadConnectionsFromFile`: a file that does not exist leaves everything as it is. -/
def loadConnectionsFromFile (ctx : Context) (s : Service) (readFails : Bool) :
    Except ConnectionError Service :=
  if readFails then .error .read
  else
    match s.file with
    | none => .ok s
    | some data => loadConnections ctx s data

/-- A service that has loaded nothing yet. -/
def unloaded (file : Option (Document Store)) : Service where
  connections := ∅
  nextID := 1
  file := file
  reconnectReload := false
  lastRead := none
  dialed := ∅
  runtime := .empty

/-- `New`: a file that cannot be loaded is logged and leaves the store empty. -/
def new (ctx : Context) (file : Option (Document Store)) (readFails : Bool) : Service :=
  match loadConnectionsFromFile ctx (unloaded file) readFails with
  | .ok s => s
  | .error _ => unloaded file

/-- `saveConnectionsLocked` -/
def saveConnectionsLocked (ctx : Context) (s : Service) (faults : SaveFaults) :
    Except ConnectionError Service :=
  match encodeConnectionsForDisk ctx.cipher faults.nonces (copyConnectionsSorted s.connections) with
  | .error e => .error e
  | .ok data => if faults.writeFails then .error .write else .ok { s with file := some data }

/-- The id of the default profile, or zero. -/
def defaultID (connections : Profiles) : Int :=
  match (values connections).find? ConnectionProfile.isDefault with
  | some p => p.id
  | none => 0

/-! ## Lifecycle -/

/-- Record what is known about a profile's client. -/
def stampStatus (s : Service) (id : Int) (status : ConnectionStatus) (now : String) : Service :=
  match s.connections[id]? with
  | some current =>
    { s with
      connections := s.connections.insert id { current with status := status, lastCheck := now } }
  | none => s

/-- `connectRuntimeLocked` -/
def connectRuntimeLocked (ctx : Context) (settings : AppSettings) (s : Service) (id : Int)
    (faults : Faults) : Service × Option ConnectionError :=
  match s.connections[id]? with
  | none => (s, some (.notFound id))
  | some connection =>
    match s.runtime.connect (resolveForDial settings connection) faults.dialFails with
    | none => (s, some .dial)
    | some runtime =>
      let stamped := stampStatus { s with runtime := runtime } id .online faults.now
      match saveConnectionsLocked ctx stamped faults.stamp with
      | .error e => (stamped, some (.statusNotSaved e))
      | .ok saved => (saved, none)

/-- `Connect` -/
def connect (ctx : Context) (settings : AppSettings) (id : Int) (faults : Faults) (s : Service) :
    Outcome :=
  let (s, error) := connectRuntimeLocked ctx settings s id faults
  ⟨s, none, error, .notReached⟩

/-- `ConnectDefault` -/
def connectDefault (ctx : Context) (settings : AppSettings) (faults : Faults) (s : Service) :
    Outcome :=
  if !settings.autoConnectLast ∨ defaultID s.connections = 0 then ⟨s, none, none, .notReached⟩
  else connect ctx settings (defaultID s.connections) faults s

/-- `Disconnect` -/
def disconnect (ctx : Context) (id : Int) (faults : Faults) (s : Service) : Outcome :=
  match s.connections[id]? with
  | none => .rejected s (.notFound id)
  | some _ =>
    let stamped := stampStatus { s with runtime := s.runtime.remove id } id .offline faults.now
    match saveConnectionsLocked ctx stamped faults.stamp with
    | .error e => ⟨stamped, none, some e, .notReached⟩
    | .ok saved => ⟨saved, none, none, .notReached⟩

/-- `TestConnection`: a probe keeps no client; only the check time is recorded, in memory. -/
def testConnection (id : Int) (faults : Faults) (s : Service) : Outcome :=
  match s.connections[id]? with
  | none => .rejected s (.notFound id)
  | some current =>
    let checked := { s with
      connections := s.connections.insert id { current with lastCheck := faults.now } }
    ⟨checked, none, if faults.dialFails then some .dial else none, .notReached⟩

/-! ## Mutation -/

/-- The submitted credentials but the reserved pair; a blank one is not stored. -/
def submittedSecrets (input : ConnectionProfile) : StringMap :=
  input.secrets.foldl (fun kept key value =>
    if key = secretAccessKey ∨ key = secretSecretKey then kept
    else if value = "" then kept.erase key
    else kept.insert key value) ∅

/-- `applyCredentials`: the submission is the whole truth about credentials, and a family with
    a mechanism of its own keeps the one it declared. -/
def applyCredentials (connection input : ConnectionProfile) (enableACL : Bool)
    (accessKey secretKey : String) : ConnectionProfile :=
  let connection := { connection with secrets := submittedSecrets input }.setACL
    enableACL accessKey secretKey
  if !enableACL ∧ input.auth.mechanism ≠ .blank then
    connection.withMechanism input.auth.mechanism
  else connection

/-- The profile `AddConnection` files. -/
def addedProfile (s : Service) (input : ConnectionProfile) (kind : MQKind)
    (name endpoints : String) (acl : Bool × String × String) : ConnectionProfile :=
  applyCredentials
    { id := s.nextID
      name := name
      group := normalizeConnectionGroup input.group
      kind := kind
      endpoints := endpoints
      timeoutSec := input.timeoutSec
      auth := ⟨.blank⟩
      status := .offline
      lastCheck := "-"
      isDefault := s.connections.isEmpty
      remark := input.remark
      options := input.options
      secrets := ∅ }
    input acl.1 acl.2.1 acl.2.2

/-- `AddConnection` -/
def addConnection (ctx : Context) (input : ConnectionProfile) (faults : Faults) (s : Service) :
    Outcome :=
  let kind := if input.kind = .unset then .rocketmq else input.kind
  match validateConnectionFields ctx.endpoints kind input.name input.endpoints
    input.timeoutSec with
  | .error e => .rejected s e
  | .ok (name, endpoints) =>
    match normalizeACLConfig input.aclEnabled (input.secret secretAccessKey)
      (input.secret secretSecretKey) with
    | .error e => .rejected s e
    | .ok acl =>
      let connection := addedProfile s input kind name endpoints acl
      let added := { s with connections := s.connections.insert connection.id connection }
      match saveConnectionsLocked ctx added faults.save with
      | .error e =>
        ⟨{ added with connections := added.connections.erase connection.id }, none,
          some (.saveFailed e), .failed⟩
      | .ok saved =>
        ⟨{ saved with nextID := saved.nextID + 1 }, some connection, none, .succeeded⟩

/-- `editedKind`: a submission that names no family is for the stored one. -/
def editedKind (s : Service) (id : Int) (submitted : MQKind) : MQKind :=
  if submitted ≠ .unset then submitted
  else
    match s.connections[id]? with
    | some stored => stored.kind
    | none => .rocketmq

/-- The common end of `UpdateConnection` and `SetOption`: store the edited profile, put the
    previous one back when it cannot be saved, and redial an open client the edit invalidated. -/
def storeEdited (ctx : Context) (settings : AppSettings) (s : Service) (id : Int)
    (previous edited : ConnectionProfile) (redial : Bool) (faults : Faults) : Outcome :=
  let stored := { s with connections := s.connections.insert id edited }
  match saveConnectionsLocked ctx stored faults.save with
  | .error e =>
    ⟨{ stored with connections := stored.connections.insert id previous }, none,
      some (.saveFailed e), .failed⟩
  | .ok saved =>
    if redial then
      match connectRuntimeLocked ctx settings { saved with runtime := saved.runtime.remove id } id
        faults with
      | (redialed, some e) => ⟨redialed, some edited, some (.reconnectFailed e), .succeeded⟩
      | (redialed, none) => ⟨redialed, redialed.connections[id]?, none, .succeeded⟩
    else ⟨saved, some edited, none, .succeeded⟩

/-- The fields `UpdateConnection` takes from the submission before its credentials. A blank
    family and absent options keep the stored ones. -/
def editedFields (connection input : ConnectionProfile) (name endpoints : String) :
    ConnectionProfile :=
  { connection with
    name := name
    group := normalizeConnectionGroup input.group
    endpoints := endpoints
    kind := if input.kind ≠ .unset then input.kind else connection.kind
    options := input.options <|> connection.options
    timeoutSec := input.timeoutSec }

/-- The profile `UpdateConnection` stores, before its status is decided. -/
def updatedProfile (connection input : ConnectionProfile) (name endpoints : String)
    (acl : Bool × String × String) : ConnectionProfile :=
  { applyCredentials (editedFields connection input name endpoints) input acl.1 acl.2.1 acl.2.2 with
    remark := input.remark }

/-- `UpdateConnection` -/
def updateConnection (ctx : Context) (settings : AppSettings) (id : Int)
    (input : ConnectionProfile) (faults : Faults) (s : Service) : Outcome :=
  match validateConnectionFields ctx.endpoints (editedKind s id input.kind) input.name
    input.endpoints input.timeoutSec with
  | .error e => .rejected s e
  | .ok (name, endpoints) =>
    match s.connections[id]? with
    | none => .rejected s (.notFound id)
    | some previous =>
      match normalizeACLConfig input.aclEnabled (input.secret secretAccessKey)
        (input.secret secretSecretKey) with
      | .error e => .rejected s e
      | .ok acl =>
        let edited := updatedProfile previous input name endpoints acl
        let clientConfigChanged := dialParametersChanged previous edited
        let wasOnline := previous.status = .online
        let edited := if clientConfigChanged then { edited with status := .offline } else edited
        storeEdited ctx settings s id previous edited (clientConfigChanged && wasOnline) faults

/-- `SetOption`: a blank value removes the key, and setting what is set already does nothing. -/
def setOption (ctx : Context) (settings : AppSettings) (id : Int) (key value : String)
    (faults : Faults) (s : Service) : Outcome :=
  let key := trimSpace key
  if key = "" then .rejected s .optionKeyRequired
  else
    match s.connections[id]? with
    | none => .rejected s (.notFound id)
    | some previous =>
      let held := previous.options.getD ∅
      let options := if value = "" then held.erase key else held.insert key value
      if optionsEqual previous.options (some options) then
        ⟨s, some previous, none, .notReached⟩
      else
        let edited := { previous with options := some options, status := .offline }
        storeEdited ctx settings s id previous edited (previous.status = .online) faults

/-- Set or clear the default flag of one profile. -/
def setDefaultFlag (connections : Profiles) (id : Int) (isDefault : Bool) : Profiles :=
  connections.modify id fun p => { p with isDefault := isDefault }

/-- `DeleteConnection` -/
def deleteConnection (ctx : Context) (id : Int) (faults : Faults) (s : Service) : Outcome :=
  match s.connections[id]? with
  | none => .rejected s (.notFound id)
  | some deleted =>
    if deleted.isDefault ∧ s.connections.size > 1 then .rejected s .deleteDefault
    else
      let remaining := s.connections.erase id
      let newDefaultID :=
        if deleted.isDefault then ((sortedConnectionIDs remaining).head?).getD 0 else 0
      let promoted :=
        if newDefaultID ≠ 0 then setDefaultFlag remaining newDefaultID true else remaining
      match saveConnectionsLocked ctx { s with connections := promoted } faults.save with
      | .error e =>
        let restored := promoted.insert id deleted
        let restored :=
          if newDefaultID ≠ 0 then setDefaultFlag restored newDefaultID false else restored
        ⟨{ s with connections := restored }, none, some (.saveFailed e), .failed⟩
      | .ok saved =>
        let runtime :=
          if deleted.status = .online then saved.runtime.remove id else saved.runtime
        ⟨{ saved with runtime := runtime }, none, none, .succeeded⟩

/-- `SetDefaultConnection` -/
def setDefaultConnection (ctx : Context) (id : Int) (faults : Faults) (s : Service) : Outcome :=
  match s.connections[id]? with
  | none => .rejected s (.notFound id)
  | some connection =>
    if connection.isDefault then ⟨s, none, none, .notReached⟩
    else
      let previousDefaultID := defaultID s.connections
      let cleared := s.connections.map fun _ p => { p with isDefault := false }
      let chosen := setDefaultFlag cleared id true
      match saveConnectionsLocked ctx { s with connections := chosen } faults.save with
      | .error e =>
        let restored := setDefaultFlag chosen id false
        let restored :=
          if previousDefaultID ≠ 0 then setDefaultFlag restored previousDefaultID true
          else restored
        ⟨{ s with connections := restored }, none, some (.saveFailed e), .failed⟩
      | .ok saved => ⟨saved, none, none, .succeeded⟩

/-! ## Reload and replacement -/

/-- `reloadPlanLocked`: whether runtime connectivity must be restored. -/
def reloadPlanLocked (s : Service) : Bool :=
  s.reconnectReload || (values s.connections).any fun p => p.status = .online

/-- `restoreRuntimeLocked` -/
def restoreRuntimeLocked (ctx : Context) (settings : AppSettings) (s : Service)
    (shouldReconnect : Bool) (faults : Faults) : Service × Option ConnectionError :=
  let closed := { s with runtime := s.runtime.closeAll }
  if shouldReconnect ∧ defaultID closed.connections ≠ 0 then
    match connectRuntimeLocked ctx settings closed (defaultID closed.connections) faults with
    | (connected, some e) => (connected, some e)
    | (connected, none) => ({ connected with reconnectReload := false }, none)
  else ({ closed with reconnectReload := false }, none)

/-- `Reload` -/
def reload (ctx : Context) (settings : AppSettings) (faults : Faults) (s : Service) : Outcome :=
  let plan := reloadPlanLocked s
  match loadConnectionsFromFile ctx s faults.readFails with
  | .error e => .rejected s e
  | .ok loaded =>
    let (restored, error) :=
      restoreRuntimeLocked ctx settings { loaded with reconnectReload := plan } plan faults
    ⟨restored, none, error, .notReached⟩

/-- `ReplaceConnections` -/
def replaceConnections (ctx : Context) (settings : AppSettings)
    (connections : List (Option ConnectionProfile)) (faults : Faults) (s : Service) : Outcome :=
  match prepareReplacement ctx.endpoints connections with
  | .error e => .rejected s e
  | .ok prepared =>
    match encodeConnectionsForDisk ctx.cipher faults.save.nonces prepared with
    | .error e => ⟨s, none, some e, .failed⟩
    | .ok data =>
      let plan := reloadPlanLocked s
      if faults.save.writeFails then ⟨s, none, some .write, .failed⟩
      else
        let (connections, nextID) := buildConnectionState prepared
        let replaced := { s with
          connections := connections
          nextID := nextID
          file := some data
          reconnectReload := plan }
        let (restored, error) := restoreRuntimeLocked ctx settings replaced plan faults
        ⟨restored, none, error, .succeeded⟩

/-! ## Operations as data -/

/-- The window's operations with their arguments. -/
inductive Op where
  | addConnection (input : ConnectionProfile)
  | updateConnection (id : Int) (input : ConnectionProfile)
  | setOption (id : Int) (key value : String)
  | deleteConnection (id : Int)
  | setDefaultConnection (id : Int)
  | replaceConnections (connections : List (Option ConnectionProfile))
  | reload
  | connect (id : Int)
  | connectDefault
  | disconnect (id : Int)
  | testConnection (id : Int)

/-- Run one operation under the application settings of the moment. -/
def perform (ctx : Context) (settings : AppSettings) (op : Op) (faults : Faults) (s : Service) :
    Outcome :=
  match op with
  | .addConnection input => addConnection ctx input faults s
  | .updateConnection id input => updateConnection ctx settings id input faults s
  | .setOption id key value => setOption ctx settings id key value faults s
  | .deleteConnection id => deleteConnection ctx id faults s
  | .setDefaultConnection id => setDefaultConnection ctx id faults s
  | .replaceConnections connections => replaceConnections ctx settings connections faults s
  | .reload => reload ctx settings faults s
  | .connect id => connect ctx settings id faults s
  | .connectDefault => connectDefault ctx settings faults s
  | .disconnect id => disconnect ctx id faults s
  | .testConnection id => testConnection id faults s

end MqStudio.Connection
