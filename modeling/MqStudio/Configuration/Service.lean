import MqStudio.Connection.Operations
import MqStudio.Lib.Machine

/-!
# Exporting and Importing the Configuration

`internal/service/configuration`: the coordinator over the settings service and the connection
service. An export is one JSON text with the settings and every profile, secrets included.
Importing validates the payload, switches the settings, replaces the profiles, and undoes both
when the second step fails.

The text between an export and an import is a `Document ImportPayload`: either it does not
parse, or it parses to what `importPayload` holds, with the raw JSON of the connections already
told apart into the shapes `decodeConnectionStore` distinguishes.

The connections of the application are never absent, so the branches for a coordinator without
them are left out, as are the change listeners.
-/

namespace MqStudio.Configuration

open MqStudio.Connection (Context ConnectionError Nonces Op Faults)
open MqStudio.Lib
open MqStudio.Lib.TreeMap
open MqStudio.Model
open MqStudio.Settings (AppSettings SettingsError credentialsChanged)
open MqStudio.Storage

/-! ## Payloads -/

/-- `currentExportVersion` -/
def currentExportVersion : Int := 2

/-- `connectionStore` of the export format. A null record is a `none`. -/
structure ConnectionStore where
  connections : List (Option ConnectionRecord)
  deriving DecidableEq

/-- `exportPayload` -/
structure ExportPayload where
  version : Int
  containsSecrets : Bool
  exportedAt : String
  settings : AppSettings
  connections : ConnectionStore

/-- The raw JSON under `connections`. -/
inductive RawConnections where
  /-- No such key. -/
  | absent
  | null
  /-- An object with a list of records, which may be missing from it. -/
  | store (connections : ConnectionStore)
  /-- A bare list of records. -/
  | list (connections : List (Option ConnectionRecord))
  /-- Anything else. -/
  | malformed
  deriving DecidableEq

/-- `importPayload` -/
structure ImportPayload where
  version : Int
  settings : Option AppSettings
  connections : RawConnections
  deriving DecidableEq

/-- The exported text as an import reads it. -/
def ExportPayload.text (payload : ExportPayload) : Document ImportPayload :=
  .encoded payload.exportedAt
    { version := payload.version
      settings := some payload.settings
      connections := .store payload.connections }

/-! ## Decoding the connections -/

/-- One credential of a version 1 payload. -/
def decryptImported (cipher : Cipher) (name key stored : String) :
    Except ConnectionError (Option String) :=
  match cipher.decrypt stored key with
  | .error e => .error (.decrypt key name e)
  | .ok plain => .ok (if plain = "" then none else some plain)

/-- The credentials of one record of a version 1 payload. -/
def decryptRecord (cipher : Cipher) (record : Option ConnectionRecord) :
    Except ConnectionError (Option ConnectionRecord) :=
  match record with
  | none => .ok none
  | some record =>
    match rangeUpdate (decryptImported cipher record.connectionProfile.name) record.secrets with
    | .error e => .error e
    | .ok secrets => .ok (some { record with secrets := secrets })

/-- `decodeConnectionStore`, once the JSON is read: every record is normalised before anything
    reads a credential, and version 1 payloads are decrypted. -/
def decodeRecords (cipher : Cipher) (records : List (Option ConnectionRecord))
    (decryptCredentials : Bool) : Except ConnectionError ConnectionStore :=
  let normalised := records.map (Option.map fun record => newConnectionRecord record.profile)
  if !decryptCredentials then .ok ⟨normalised⟩
  else
    match normalised.mapM (decryptRecord cipher) with
    | .error e => .error e
    | .ok decrypted => .ok ⟨decrypted⟩

/-- `decodeConnectionStore` -/
def decodeConnectionStore (cipher : Cipher) (data : RawConnections) (decryptCredentials : Bool) :
    Except ConnectionError ConnectionStore :=
  match data with
  | .store connections => decodeRecords cipher connections.connections decryptCredentials
  | .list connections => decodeRecords cipher connections decryptCredentials
  -- reached only for payloads whose connections are included, so neither of the first two
  | .absent | .null | .malformed => .error .malformed

/-! ## State, environment and errors -/

/-- The coordinator's two services, with their files. -/
structure Service where
  settings : Settings.Service
  connections : Connection.Service
  deriving DecidableEq

/-- What the environment decides during one import: the nonces of the validation, and the
    choices during each of the four updates the import may make. -/
structure ImportFaults where
  validate : Nonces
  settings : Settings.SaveFaults
  apply : Faults
  rollbackSettings : Settings.SaveFaults
  rollbackConnections : Faults

/-- Nothing goes wrong. -/
def noImportFaults : ImportFaults :=
  ⟨fun _ _ => some 0, Settings.noSaveFaults, Connection.noFaults, Settings.noSaveFaults,
    Connection.noFaults⟩

/-- The errors of `ImportAllConfig`, one constructor for each message of the source. -/
inductive ImportError where
  /-- The text is not the JSON of a payload. -/
  | malformed
  /-- The payload's version is newer than this one's. -/
  | unsupportedVersion (version : Int)
  /-- Neither settings nor connections in the payload. -/
  | empty
  /-- The connections do not decode. -/
  | decode (cause : ConnectionError)
  /-- A connection cannot be stored. -/
  | prepare (cause : ConnectionError)
  /-- The settings could not be saved. -/
  | settings (cause : SettingsError)
  /-- The connections could not be applied, and everything was rolled back. -/
  | rolledBack (cause : ConnectionError)
  /-- The connections could not be applied, and the rollback failed as well. -/
  | rollbackFailed (cause : ConnectionError) (settings : Option SettingsError)
      (connections : Option ConnectionError)
  deriving DecidableEq

/-- The error reports a failed rollback. -/
def ImportError.reportsFailedRollback : ImportError → Bool
  | .rollbackFailed .. => true
  | _ => false

/-! ## Exporting -/

/-- `GetConnections` -/
def getConnections (s : Service) : List ConnectionProfile :=
  Connection.copyConnectionsSorted s.connections.connections

/-- `ExportAllConfig` -/
def exportAllConfig (exportedAt : String) (s : Service) : ExportPayload :=
  let settings := s.settings.settings
  let connections := (getConnections s).map newConnectionRecord
  { version := 2
    containsSecrets := settings.globalAccessKey ≠ "" || settings.globalSecretKey ≠ "" ||
      connections.any fun record => !record.secrets.isEmpty
    exportedAt := exportedAt
    settings := settings
    connections := ⟨connections.map some⟩ }

/-! ## Importing -/

section Import

variable (ctx : Context)

/-- `UpdateSettings` of the settings service. -/
def saveSettings (next : AppSettings) (faults : Settings.SaveFaults) (s : Service) :
    Service × Except SettingsError AppSettings :=
  let saved := s.settings.updateSettings ctx.cipher next faults
  ({ s with settings := saved.1 }, saved.2)

/-- Run an operation of the connection service under the settings of the moment. -/
def runConnections (op : Op) (faults : Faults) (s : Service) : Service × Option ConnectionError :=
  let outcome := Connection.perform ctx s.settings.settings op faults s.connections
  ({ s with connections := outcome.service }, outcome.error)

/-- `applyConnections`. `none` stands for a payload without connections. -/
def applyConnections (connections : Option (List (Option ConnectionProfile)))
    (credentialsChanged : Bool) (faults : Faults) (s : Service) :
    Service × Option ConnectionError :=
  match connections with
  | some connections => runConnections ctx (.replaceConnections connections) faults s
  | none => if credentialsChanged then runConnections ctx .reload faults s else (s, none)

@[simp] theorem applyConnections_some (connections : List (Option ConnectionProfile))
    (credentialsChanged : Bool) (faults : Faults) (s : Service) :
    applyConnections ctx (some connections) credentialsChanged faults s =
      runConnections ctx (.replaceConnections connections) faults s := rfl

/-- The settings half of `rollback`. -/
def rollbackSettings (settings : AppSettings) (settingsChanged : Bool)
    (faults : Settings.SaveFaults) (s : Service) : Service × Option SettingsError :=
  if settingsChanged then
    let saved := saveSettings ctx settings faults s
    match saved.2 with
    | .error e => (saved.1, some e)
    | .ok _ => (saved.1, none)
  else (s, none)

/-- Rolling the settings back leaves the connections alone. -/
@[simp] theorem rollbackSettings_connections (settings : AppSettings) (settingsChanged : Bool)
    (faults : Settings.SaveFaults) (s : Service) :
    (rollbackSettings ctx settings settingsChanged faults s).1.connections = s.connections := by
  unfold rollbackSettings
  split
  · dsimp only
    split <;> rfl
  · rfl

/-- The connections half of `rollback`. -/
def rollbackConnections (connections : List ConnectionProfile) (connectionsChanged : Bool)
    (faults : Faults) (s : Service) : Service × Option ConnectionError :=
  if connectionsChanged then
    runConnections ctx (.replaceConnections (connections.map some)) faults s
  else (s, none)

/-- `rollback`: both halves are tried, whatever becomes of the first. -/
def rollback (settings : AppSettings) (connections : List ConnectionProfile)
    (settingsChanged connectionsChanged : Bool) (faults : ImportFaults) (s : Service) :
    Service × Option SettingsError × Option ConnectionError :=
  let restored := rollbackSettings ctx settings settingsChanged faults.rollbackSettings s
  let replaced := rollbackConnections ctx connections connectionsChanged
    faults.rollbackConnections restored.1
  (replaced.1, restored.2, replaced.2)

/-- What `importConfig` reports once the connections could not be applied. -/
def rollbackReport (applyErr : ConnectionError) :
    Option SettingsError → Option ConnectionError → ImportError
  | none, none => .rolledBack applyErr
  | settingsErr, connectionsErr => .rollbackFailed applyErr settingsErr connectionsErr

/-- The second half of `importConfig`: apply the connections, or undo everything. -/
def applyOrRollback (previous : Service) (settingsChanged credentialsWereChanged : Bool)
    (connections : Option (List (Option ConnectionProfile))) (faults : ImportFaults)
    (s : Service) : Service × Option ImportError :=
  let applied := applyConnections ctx connections credentialsWereChanged faults.apply s
  match applied.2 with
  | none => (applied.1, none)
  | some applyErr =>
    let rolled := rollback ctx previous.settings.settings (getConnections previous)
      settingsChanged (connections.isSome || credentialsWereChanged) faults applied.1
    (rolled.1, some (rollbackReport applyErr rolled.2.1 rolled.2.2))

/-- `importConfig` -/
def importConfig (settings : Option AppSettings)
    (connections : Option (List (Option ConnectionProfile))) (faults : ImportFaults)
    (s : Service) : Service × Option ImportError :=
  match settings with
  | none => applyOrRollback ctx s false false connections faults s
  | some next =>
    let saved := saveSettings ctx next faults.settings s
    match saved.2 with
    | .error e => (saved.1, some (.settings e))
    | .ok updated =>
      applyOrRollback ctx s true (credentialsChanged s.settings.settings updated) connections
        faults saved.1

/-- The connections of a payload, decoded and checked; `none` when it includes none. -/
def importedConnections (payload : ImportPayload) (nonces : Nonces) :
    Except ImportError (Option (List (Option ConnectionProfile))) :=
  match payload.connections with
  | .absent | .null => .ok none
  | raw =>
    match decodeConnectionStore ctx.cipher raw (payload.version < currentExportVersion) with
    | .error e => .error (.decode e)
    | .ok store =>
      let imported := store.connections.map (Option.map ConnectionRecord.profile)
      match Connection.validateConnections ctx.cipher ctx.endpoints nonces imported with
      | .error e => .error (.prepare e)
      | .ok () => .ok (some imported)

/-- `ImportAllConfig` -/
def importAllConfig (raw : Document ImportPayload) (faults : ImportFaults) (s : Service) :
    Service × Option ImportError :=
  match raw.unmarshal with
  | none => (s, some .malformed)
  | some payload =>
    if payload.version > currentExportVersion then
      (s, some (.unsupportedVersion payload.version))
    else if payload.settings = none ∧ payload.connections = .absent then (s, some .empty)
    else
      match importedConnections ctx payload faults.validate with
      | .error e => (s, some e)
      | .ok connections => importConfig ctx payload.settings connections faults s

/-! ## Settings updates -/

/-- The common body of `UpdateSettings` and `ResetSettings`: connections are refreshed when the
    global credentials changed. -/
def changeSettings (update : Settings.Service → Settings.Service × Except SettingsError AppSettings)
    (faults : Faults) (s : Service) : Service :=
  let saved := update s.settings
  let s' := { s with settings := saved.1 }
  match saved.2 with
  | .error _ => s'
  | .ok updated =>
    if credentialsChanged s.settings.settings updated then (runConnections ctx .reload faults s').1
    else s'

/-- `UpdateSettings` -/
def updateSettings (next : AppSettings) (save : Settings.SaveFaults) (faults : Faults)
    (s : Service) : Service :=
  changeSettings ctx (fun settings => settings.updateSettings ctx.cipher next save) faults s

/-- `ResetSettings` -/
def resetSettings (save : Settings.SaveFaults) (faults : Faults) (s : Service) : Service :=
  changeSettings ctx (fun settings => settings.resetSettings ctx.cipher save) faults s

/-! ## The application as a machine -/

/-- What the window asks of the application. -/
inductive Act where
  | connections (op : Op) (faults : Faults)
  | updateSettings (next : AppSettings) (save : Settings.SaveFaults) (faults : Faults)
  | resetSettings (save : Settings.SaveFaults) (faults : Faults)
  | importAllConfig (raw : Document ImportPayload) (faults : ImportFaults)

/-- The operation hands the service a whole list of profiles. The application does so only on
    behalf of an import. -/
def isReplacement : Op → Bool
  | .replaceConnections _ => true
  | _ => false

/-- A settings service whose file could not be read when it started. -/
def unreadSettings (file : Option (Document AppSettings)) : Settings.Service :=
  ⟨Settings.defaultSettings, file, none⟩

/-- The application: it starts over any two files, each of which it may fail to read. -/
def application : Machine Service Act where
  start s :=
    (∃ file, s.settings = .new ctx.cipher file ∨ s.settings = unreadSettings file) ∧
      ∃ file readFails, s.connections = Connection.new ctx file readFails
  step s
    | .connections op faults =>
      if isReplacement op then none else some (runConnections ctx op faults s).1
    | .updateSettings next save faults => some (updateSettings ctx next save faults s)
    | .resetSettings save faults => some (resetSettings ctx save faults s)
    | .importAllConfig raw faults => some (importAllConfig ctx raw faults s).1

end Import

end MqStudio.Configuration
