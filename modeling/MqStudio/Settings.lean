import MqStudio.Storage

/-!
# Application Settings

`internal/model/settings.go` and `internal/service/settings`: the preferences, the rules that
normalise them, and the service that keeps them in memory and in one file.

The file is modelled by the settings `json.Unmarshal` leaves over the defaults once the two
legacy keys are migrated; text that is no JSON object at all is a malformed document. A
decode error inside an object is logged and what was decoded is kept, so it is a value too.

## Main results

- `normalize_normalize`: normalising is idempotent.
- `Service.loadFresh_saved`: settings written by the service load back as they were.
-/

namespace MqStudio.Settings

open MqStudio.Storage

/-! ## The preferences -/

/-- `AppSettings` -/
structure AppSettings where
  theme : String
  language : String
  uiScale : String
  uiFont : String
  monospaceFont : String
  autoConnectLast : Bool
  updatePolicy : String
  closeBehavior : String
  connectTimeoutMs : Int
  requestTimeoutMs : Int
  globalAccessKey : String
  globalSecretKey : String
  lagAlertThreshold : Int
  diskAlertThreshold : Int
  desktopNotifications : Bool
  timezone : String
  timestampFormat : String
  autoFormatJson : Bool
  maxPayloadRenderBytes : Int
  fetchLimit : Int
  deriving DecidableEq

/-- `DefaultSettings` -/
def defaultSettings : AppSettings where
  theme := "system"
  language := "zh"
  uiScale := "auto"
  uiFont := "system"
  monospaceFont := "JetBrains Mono"
  autoConnectLast := true
  updatePolicy := "notify"
  closeBehavior := "minimizeToTray"
  connectTimeoutMs := 3000
  requestTimeoutMs := 5000
  globalAccessKey := ""
  globalSecretKey := ""
  lagAlertThreshold := 10000
  diskAlertThreshold := 75
  desktopNotifications := false
  timezone := "local"
  timestampFormat := "datetime"
  autoFormatJson := true
  maxPayloadRenderBytes := 512 * 1024
  fetchLimit := 64

/-! ## Normalisation -/

/-- `ValidUIScale` -/
def validUIScale (value : String) : Bool :=
  value ∈ ["auto", "12", "13", "14", "15", "16", "18", "20"]

/-- `update.ValidPolicy` -/
def validPolicy (value : String) : Bool :=
  value ∈ ["off", "notify", "download", "auto"]

/-- One rule of `normalize`: a value that fails its check becomes the default. -/
def orDefault {α : Type} (valid : α → Bool) (fallback value : α) : α :=
  if valid value then value else fallback

theorem orDefault_orDefault {α : Type} (valid : α → Bool) (fallback value : α)
    (h : valid fallback = true) :
    orDefault valid fallback (orDefault valid fallback value) = orDefault valid fallback value := by
  unfold orDefault
  split <;> simp_all

@[simp] theorem orDefault_self {α : Type} (valid : α → Bool) (fallback : α) :
    orDefault valid fallback fallback = fallback := by
  unfold orDefault
  split <;> rfl

/-- A text field that must hold more than blanks. -/
def notBlank (value : String) : Bool := trimSpace value ≠ ""

/-- Milliseconds between half a second and five minutes. -/
def validTimeoutMs (value : Int) : Bool := 500 ≤ value ∧ value ≤ 300000

/-- `normalize` -/
def normalize (settings : AppSettings) : AppSettings :=
  let defaults := defaultSettings
  { settings with
    theme := orDefault (fun v => v ∈ ["system", "light", "dark"]) defaults.theme settings.theme
    language := orDefault (fun v => v ∈ ["zh", "en"]) defaults.language settings.language
    uiScale := orDefault validUIScale defaults.uiScale settings.uiScale
    updatePolicy := orDefault validPolicy defaults.updatePolicy settings.updatePolicy
    closeBehavior := orDefault (fun v => v ∈ ["minimizeToTray", "quit"])
      defaults.closeBehavior settings.closeBehavior
    uiFont := orDefault notBlank defaults.uiFont settings.uiFont
    monospaceFont := orDefault notBlank defaults.monospaceFont settings.monospaceFont
    connectTimeoutMs := orDefault validTimeoutMs
      defaults.connectTimeoutMs settings.connectTimeoutMs
    requestTimeoutMs := orDefault validTimeoutMs
      defaults.requestTimeoutMs settings.requestTimeoutMs
    lagAlertThreshold := orDefault (fun v => 0 ≤ v) 0 settings.lagAlertThreshold
    diskAlertThreshold := orDefault (fun v => v ≤ 100) 100
      (orDefault (fun v => 0 ≤ v) 0 settings.diskAlertThreshold)
    timezone := orDefault (fun v => v ∈ ["local", "utc"]) defaults.timezone settings.timezone
    timestampFormat := orDefault (fun v => v ∈ ["datetime", "ms"])
      defaults.timestampFormat settings.timestampFormat
    maxPayloadRenderBytes := orDefault
      (fun v => 64 * 1024 ≤ v ∧ v ≤ 4 * 1024 * 1024)
      defaults.maxPayloadRenderBytes settings.maxPayloadRenderBytes
    fetchLimit := orDefault (fun v => 0 < v ∧ v ≤ 1000) defaults.fetchLimit settings.fetchLimit
    globalAccessKey := trimSpace settings.globalAccessKey }

/-- Every default passes its own check. -/
theorem normalize_defaultSettings : normalize defaultSettings = defaultSettings := by
  have hlag : orDefault (fun v : Int => 0 ≤ v) 0 10000 = 10000 := rfl
  have hdisk : orDefault (fun v : Int => v ≤ 100) 100 (orDefault (fun v => 0 ≤ v) 0 75) = 75 := rfl
  simp only [normalize, defaultSettings, orDefault_self, hlag, hdisk, trimSpace_empty]

/-- The two rules of the disk threshold clamp it. -/
private theorem clamp_clamp (value : Int) :
    orDefault (fun v : Int => v ≤ 100) 100 (orDefault (fun v => 0 ≤ v) 0
        (orDefault (fun v => v ≤ 100) 100 (orDefault (fun v => 0 ≤ v) 0 value))) =
      orDefault (fun v => v ≤ 100) 100 (orDefault (fun v => 0 ≤ v) 0 value) := by
  simp only [orDefault, decide_eq_true_eq]
  grind

/-- **Idempotence**: normalised settings are a fixed point, since every default passes the
    check it stands in for. -/
theorem normalize_normalize (settings : AppSettings) :
    normalize (normalize settings) = normalize settings := by
  simp (disch := decide) only [normalize, trimSpace_trimSpace, clamp_clamp, orDefault_orDefault]

/-- `GetConnectTimeout`, in milliseconds. -/
def AppSettings.getConnectTimeoutMs (s : AppSettings) : Int :=
  if s.connectTimeoutMs ≤ 0 then 3000 else s.connectTimeoutMs

/-- `credentialsChanged` -/
def credentialsChanged (previous next : AppSettings) : Bool :=
  previous.globalAccessKey ≠ next.globalAccessKey ∨ previous.globalSecretKey ≠ next.globalSecretKey

/-! ## The settings service -/

/-- Why an operation on the settings failed. -/
inductive SettingsError where
  /-- "failed to encrypt global AccessKey" and its sibling -/
  | encrypt (field : String) (cause : CryptoError)
  /-- "failed to decrypt global AccessKey" and its sibling -/
  | decrypt (field : String) (cause : CryptoError)
  /-- The file system refused to read or to write the file. -/
  | file
  deriving DecidableEq

/-- The settings in memory, the file, and the file as last loaded. -/
structure Service where
  settings : AppSettings
  file : Option (Document AppSettings)
  lastRead : Option (Document AppSettings)
  deriving DecidableEq

/-- What the environment decides during one save: the nonces of both keys, and whether the
    file system refuses the write. -/
structure SaveFaults where
  accessKeyNonce : Option Nonce
  secretKeyNonce : Option Nonce
  writeFails : Bool

/-- Nothing goes wrong. -/
def noSaveFaults : SaveFaults := ⟨some 0, some 0, false⟩

namespace Service

variable (cipher : Cipher)

/-- Encrypt or decrypt one key, leaving the empty one alone. -/
private def onKey (f : String → Except CryptoError String) (wrap : CryptoError → SettingsError)
    (key : String) : Except SettingsError String :=
  if key = "" then .ok key else (f key).mapError wrap

/-- Decrypt and normalise what a file decodes to. -/
def decode (stored : AppSettings) : Except SettingsError AppSettings := do
  let accessKey ← onKey (cipher.decrypt · "globalAccessKey")
    (.decrypt "globalAccessKey") stored.globalAccessKey
  let secretKey ← onKey (cipher.decrypt · "globalSecretKey")
    (.decrypt "globalSecretKey") stored.globalSecretKey
  return normalize { stored with globalAccessKey := accessKey, globalSecretKey := secretKey }

/-- `load`: a malformed file is logged and leaves the settings as they are, one that cannot be
    decrypted is reported. Only what was dealt with is remembered as read. -/
def load (s : Service) (data : Document AppSettings) : Except SettingsError Service :=
  match data.unmarshal with
  | none => .ok { s with lastRead := some data }
  | some stored => do
    let settings ← decode cipher stored
    return { s with settings := settings, lastRead := some data }

/-- `New`: the defaults, replaced by the file when it can be loaded. -/
def new (file : Option (Document AppSettings)) : Service :=
  let fresh : Service := ⟨defaultSettings, file, none⟩
  match file with
  | none => fresh
  | some data => (load cipher fresh data).toOption.getD fresh

/-- The half of `RefreshReadOnly` after the file was read: load what was read unless it reads as
    the last time. A missing file leaves everything as it is. -/
def refreshReadOnly (s : Service) (data : Option (Document AppSettings)) :
    Except SettingsError Service :=
  match data with
  | none => .ok s
  | some data => if some data = s.lastRead then .ok s else load cipher s data

/-- `marshalForDisk` -/
def marshalForDisk (settings : AppSettings) (faults : SaveFaults) :
    Except SettingsError (Document AppSettings) := do
  let accessKey ← onKey (cipher.encrypt faults.accessKeyNonce · "globalAccessKey")
    (.encrypt "globalAccessKey") settings.globalAccessKey
  let secretKey ← onKey (cipher.encrypt faults.secretKeyNonce · "globalSecretKey")
    (.encrypt "globalSecretKey") settings.globalSecretKey
  return .marshal { settings with globalAccessKey := accessKey, globalSecretKey := secretKey }

/-- `saveLocked` -/
def saveLocked (s : Service) (faults : SaveFaults) : Except SettingsError Service := do
  let data ← marshalForDisk cipher s.settings faults
  if faults.writeFails then throw .file
  return { s with file := some data }

/-- The common body of `UpdateSettings` and `ResetSettings`: put the settings in place, save
    them, and put the previous ones back when the save fails. -/
def replace (s : Service) (next : AppSettings) (faults : SaveFaults) :
    Service × Except SettingsError AppSettings :=
  match saveLocked cipher { s with settings := next } faults with
  | .error e => (s, .error e)
  | .ok saved => (saved, .ok saved.settings)

/-- `UpdateSettings` -/
def updateSettings (s : Service) (settings : AppSettings) (faults : SaveFaults) :
    Service × Except SettingsError AppSettings :=
  s.replace cipher (normalize settings) faults

/-- `ResetSettings` -/
def resetSettings (s : Service) (faults : SaveFaults) : Service × Except SettingsError AppSettings :=
  s.replace cipher defaultSettings faults

/-! ## What an update does -/

/-- A failed update changes nothing; one that succeeded put the new settings in memory and
    their encoding in the file. -/
theorem replace_cases (s : Service) (next : AppSettings) (faults : SaveFaults) :
    (∃ e, s.replace cipher next faults = (s, .error e)) ∨
      ∃ data, marshalForDisk cipher next faults = .ok data ∧
        s.replace cipher next faults =
          ({ s with settings := next, file := some data }, .ok next) := by
  unfold replace saveLocked
  cases hdata : marshalForDisk cipher next faults with
  | error e => exact .inl ⟨e, rfl⟩
  | ok data =>
    cases hwrite : faults.writeFails with
    | true => exact .inl ⟨.file, rfl⟩
    | false => exact .inr ⟨data, rfl, rfl⟩

/-- An update whose nonces are drawn and whose write is accepted succeeds. -/
theorem replace_ok (s : Service) (next : AppSettings) (faults : SaveFaults)
    (hak : faults.accessKeyNonce.isSome) (hsk : faults.secretKeyNonce.isSome)
    (hwrite : faults.writeFails = false) :
    ∃ data, s.replace cipher next faults =
      ({ s with settings := next, file := some data }, .ok next) := by
  obtain ⟨ak, hak⟩ := Option.isSome_iff_exists.mp hak
  obtain ⟨sk, hsk⟩ := Option.isSome_iff_exists.mp hsk
  unfold replace saveLocked marshalForDisk onKey Cipher.encrypt
  rw [hak, hsk, hwrite]
  by_cases ha : next.globalAccessKey = "" <;> by_cases hs : next.globalSecretKey = "" <;>
    simp only [ha, hs, if_true, if_false] <;> exact ⟨_, rfl⟩

/-! ## Writing and reading back -/

private theorem onKey_roundTrip {nonce : Option Nonce} {field key stored : String}
    {e : CryptoError → SettingsError} (d : CryptoError → SettingsError)
    (h : onKey (cipher.encrypt nonce · field) e key = .ok stored) :
    onKey (cipher.decrypt · field) d stored = .ok key := by
  unfold onKey at h ⊢
  by_cases hkey : key = ""
  · simp only [hkey, if_true] at h
    cases h
    simp [hkey]
  · rw [if_neg hkey] at h
    dsimp only at h ⊢
    cases henc : cipher.encrypt nonce key field with
    | error c => rw [henc] at h; cases h
    | ok text =>
      rw [henc] at h
      cases h
      rw [if_neg (cipher.isEncrypted_encrypt hkey henc).2, cipher.decrypt_encrypt henc]
      rfl

/-- **Settings round trip**: what is written for normalised settings decodes to them. -/
theorem decode_marshalForDisk {settings : AppSettings} {faults : SaveFaults}
    {data : Document AppSettings} (hnorm : normalize settings = settings)
    (h : marshalForDisk cipher settings faults = .ok data) :
    ∃ stored, data.unmarshal = some stored ∧ decode cipher stored = .ok settings := by
  unfold marshalForDisk at h
  cases hak : onKey (cipher.encrypt faults.accessKeyNonce · "globalAccessKey")
      (.encrypt "globalAccessKey") settings.globalAccessKey with
  | error e => rw [hak] at h; cases h
  | ok ak =>
    cases hsk : onKey (cipher.encrypt faults.secretKeyNonce · "globalSecretKey")
        (.encrypt "globalSecretKey") settings.globalSecretKey with
    | error e => rw [hak, hsk] at h; cases h
    | ok sk =>
      rw [hak, hsk] at h
      cases h
      refine ⟨_, rfl, ?_⟩
      unfold decode
      rw [onKey_roundTrip cipher (.decrypt "globalAccessKey") hak]
      simp only [onKey_roundTrip cipher (.decrypt "globalSecretKey") hsk]
      exact congrArg Except.ok hnorm

/-! ## Memory and file -/

/-- The settings in memory are normalised, and starting again from the file gives them. -/
structure Agrees (s : Service) : Prop where
  normal : normalize s.settings = s.settings
  fresh : (new cipher s.file).settings = s.settings

/-- A freshly started service agrees with its file, whatever the file holds. -/
theorem agrees_new (file : Option (Document AppSettings)) : Agrees cipher (new cipher file) := by
  have hfile : (new cipher file).file = file := by
    unfold new load
    cases file with
    | none => rfl
    | some data =>
      dsimp only
      cases data.unmarshal with
      | none => rfl
      | some stored =>
        dsimp only
        cases hdec : decode cipher stored <;> rfl
  refine ⟨?_, by rw [hfile]⟩
  unfold new load
  cases file with
  | none => exact normalize_defaultSettings
  | some data =>
    dsimp only
    cases data.unmarshal with
    | none => exact normalize_defaultSettings
    | some stored =>
      dsimp only
      cases hdec : decode cipher stored with
      | error e => exact normalize_defaultSettings
      | ok settings =>
        show normalize settings = settings
        unfold decode at hdec
        cases hak : onKey (cipher.decrypt · "globalAccessKey")
            (.decrypt "globalAccessKey") stored.globalAccessKey with
        | error e => rw [hak] at hdec; cases hdec
        | ok ak =>
          cases hsk : onKey (cipher.decrypt · "globalSecretKey")
              (.decrypt "globalSecretKey") stored.globalSecretKey with
          | error e => rw [hak, hsk] at hdec; cases hdec
          | ok sk =>
            rw [hak, hsk] at hdec
            cases hdec
            exact normalize_normalize _

/-- Settings written by the service load back as they were. -/
theorem loadFresh_saved {settings : AppSettings} {faults : SaveFaults}
    {data : Document AppSettings} (hnorm : normalize settings = settings)
    (h : marshalForDisk cipher settings faults = .ok data) :
    (new cipher (some data)).settings = settings := by
  obtain ⟨stored, hread, hdec⟩ := decode_marshalForDisk cipher hnorm h
  unfold new load
  simp only [hread, hdec]
  rfl

/-- Replacing the settings by normalised ones keeps memory and file in agreement. -/
theorem Agrees.replace {s : Service} (h : Agrees cipher s) {next : AppSettings}
    (hnorm : normalize next = next) (faults : SaveFaults) :
    Agrees cipher (s.replace cipher next faults).1 := by
  rcases replace_cases cipher s next faults with ⟨e, hres⟩ | ⟨data, hdata, hres⟩
  · rw [hres]
    exact h
  · rw [hres]
    exact ⟨hnorm, loadFresh_saved cipher hnorm hdata⟩

end Service

end MqStudio.Settings
