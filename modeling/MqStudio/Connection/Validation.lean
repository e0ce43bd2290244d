import MqStudio.Model.Profile
import MqStudio.Settings

/-!
# Checking and Resolving Profiles

What the connection service decides about one profile, before it touches its store:

- **Validation** (`validation.go`): the fields every family's form has in common.
- **Resolution** (`lifecycle.go`): the profile as it is dialled, with the blanks filled in from
  the application settings.
- **Comparison** (`mutation.go`): whether two profiles dial alike.
-/

namespace MqStudio.Connection

open MqStudio.Lib.TreeMap
open MqStudio.Model
open MqStudio.Settings (AppSettings)
open MqStudio.Storage

/-! ## Errors -/

/-- The errors of the connection service, one constructor for each message of the source. -/
inductive ConnectionError where
  /-- "connection name cannot be empty" -/
  | nameEmpty
  /-- "connection address cannot be empty" -/
  | addressEmpty
  /-- "connection timeout must be between 1 and 300 seconds" -/
  | timeoutOutOfRange
  /-- "AccessKey is required when ACL is enabled" -/
  | accessKeyRequired
  /-- "SecretKey is required when ACL is enabled" -/
  | secretKeyRequired
  /-- "connection not found: %d", and the same sentence in Chinese on the runtime paths. -/
  | notFound (id : Int)
  /-- "option key is required" -/
  | optionKeyRequired
  /-- "cannot delete the default connection; set another connection as default first" -/
  | deleteDefault
  /-- "failed to encrypt %s" -/
  | encrypt (key : String) (cause : CryptoError)
  /-- "failed to decrypt %s for connection %q" -/
  | decrypt (key name : String) (cause : CryptoError)
  /-- The stored file is not the JSON of a store. -/
  | malformed
  /-- The file system refused to read the file. -/
  | read
  /-- The file system refused to replace the file. -/
  | write
  /-- The driver could not open a client, or none is compiled in. -/
  | dial
  /-- "invalid connection %q" -/
  | invalidConnection (name : String) (cause : ConnectionError)
  /-- "invalid ACL configuration for connection %q" -/
  | invalidACL (name : String) (cause : ConnectionError)
  /-- "failed to save connection config" -/
  | saveFailed (cause : ConnectionError)
  /-- The client is open but its status could not be saved. -/
  | statusNotSaved (cause : ConnectionError)
  /-- "connection config saved, but reconnect with new config failed" -/
  | reconnectFailed (cause : ConnectionError)
  deriving DecidableEq

/-! ## Validation -/

/-- The separators of an endpoint list. -/
def isEndpointSeparator (c : Char) : Bool :=
  c ∈ [';', ',', ' ', '\t', '\r', '\n']

/-- `hasEndpoint`: at least one address between separators. -/
def hasEndpoint (raw : String) : Bool :=
  (Lib.Words.fieldsFunc isEndpointSeparator raw.toList).length > 0

/-- `normalizeConnectionGroup` -/
def normalizeConnectionGroup (group : String) : String :=
  collapseSpace group

/-- `normalizeACLConfig`: off clears the pair, on requires both keys and trims them. -/
def normalizeACLConfig (enableACL : Bool) (accessKey secretKey : String) :
    Except ConnectionError (Bool × String × String) :=
  let accessKey := trimSpace accessKey
  let secretKey := trimSpace secretKey
  if !enableACL then .ok (false, "", "")
  else if accessKey = "" then .error .accessKeyRequired
  else if secretKey = "" then .error .secretKeyRequired
  else .ok (true, accessKey, secretKey)

/-- `EndpointPolicy`: whether a family must be given an address, read off its driver's own
    form. A service built without one requires an address of every family. -/
abbrev EndpointPolicy := Option (MQKind → Bool)

/-- `requiresEndpoints` -/
def requiresEndpoints (policy : EndpointPolicy) (kind : MQKind) : Bool :=
  match policy with
  | none => true
  | some requires => requires kind

/-- `validateConnectionFields`: the trimmed name and endpoints, or what is wrong. -/
def validateConnectionFields (policy : EndpointPolicy) (kind : MQKind) (name endpoints : String)
    (timeoutSec : Int) : Except ConnectionError (String × String) :=
  let name := trimSpace name
  let endpoints := trimSpace endpoints
  if name = "" then .error .nameEmpty
  else if requiresEndpoints policy kind && !hasEndpoint endpoints then .error .addressEmpty
  else if timeoutSec < 0 ∨ timeoutSec > 300 then .error .timeoutOutOfRange
  else .ok (name, endpoints)

@[simp] theorem normalizeConnectionGroup_idem (group : String) :
    normalizeConnectionGroup (normalizeConnectionGroup group) = normalizeConnectionGroup group :=
  collapseSpace_collapseSpace group

/-- ACL off always normalises, to no keys. -/
@[simp] theorem normalizeACLConfig_false (accessKey secretKey : String) :
    normalizeACLConfig false accessKey secretKey = .ok (false, "", "") := rfl

/-- What ACL on normalises to: two trimmed keys that are not blank. -/
theorem normalizeACLConfig_true_ok {accessKey secretKey : String}
    {config : Bool × String × String} (h : normalizeACLConfig true accessKey secretKey = .ok config) :
    config = (true, trimSpace accessKey, trimSpace secretKey) ∧
      trimSpace accessKey ≠ "" ∧ trimSpace secretKey ≠ "" := by
  unfold normalizeACLConfig at h
  simp only [Bool.not_true, Bool.false_eq_true, if_false] at h
  split at h
  · cases h
  · split at h
    · cases h
    · cases h
      exact ⟨rfl, by assumption, by assumption⟩

/-- Normalising a pair again changes nothing. -/
theorem normalizeACLConfig_true_idem {accessKey secretKey : String}
    {config : Bool × String × String} (h : normalizeACLConfig true accessKey secretKey = .ok config) :
    normalizeACLConfig true config.2.1 config.2.2 = .ok config := by
  obtain ⟨rfl, hak, hsk⟩ := normalizeACLConfig_true_ok h
  simp [normalizeACLConfig, hak, hsk]

/-- What validation accepts it returns trimmed, and accepts again unchanged. -/
theorem validateConnectionFields_idem {policy : EndpointPolicy} {kind : MQKind}
    {name endpoints name' endpoints' : String} {timeoutSec : Int}
    (h : validateConnectionFields policy kind name endpoints timeoutSec = .ok (name', endpoints')) :
    validateConnectionFields policy kind name' endpoints' timeoutSec = .ok (name', endpoints') := by
  unfold validateConnectionFields at h
  dsimp only at h
  split at h
  · cases h
  · split at h
    · cases h
    · split at h
      · cases h
      · rename_i hname haddress htimeout
        cases h
        unfold validateConnectionFields
        simp only [trimSpace_trimSpace]
        rw [if_neg hname, if_neg haddress, if_neg htimeout]

/-! ## Resolution -/

/-- A `time.Duration` is a signed 64-bit count of nanoseconds. -/
def wrap64 (nanoseconds : Int) : Int :=
  (BitVec.ofInt 64 nanoseconds).toInt

/-- `time.Second` -/
def second : Int := 1000000000

/-- `time.Millisecond` -/
def millisecond : Int := 1000000

/-- `getConnectTimeout`, in nanoseconds. -/
def getConnectTimeout (settings : AppSettings) (connection : ConnectionProfile) : Int :=
  if connection.timeoutSec > 0 then wrap64 (connection.timeoutSec * second)
  else wrap64 (settings.getConnectTimeoutMs * millisecond)

/-- `resolveACLCredentials`: the profile's own pair, or the global one for a profile that names
    no mechanism. -/
def resolveACLCredentials (settings : AppSettings) (connection : ConnectionProfile) :
    Bool × String × String :=
  if connection.aclEnabled then
    (true, connection.secret secretAccessKey, connection.secret secretSecretKey)
  else if connection.auth.mechanism ≠ .blank ∧ connection.auth.mechanism ≠ .none then
    (false, "", "")
  else if trimSpace settings.globalAccessKey ≠ "" ∧ trimSpace settings.globalSecretKey ≠ "" then
    (true, settings.globalAccessKey, settings.globalSecretKey)
  else (false, "", "")

/-- `resolveForDial`: the profile as it is dialled under the settings. -/
def resolveForDial (settings : AppSettings) (connection : ConnectionProfile) :
    ConnectionProfile :=
  let resolved :=
    { connection with timeoutSec := (getConnectTimeout settings connection).tdiv second }
  let (enableACL, accessKey, secretKey) := resolveACLCredentials settings connection
  let resolved := resolved.setACL enableACL accessKey secretKey
  if !enableACL ∧ connection.auth.mechanism ≠ .blank then
    resolved.withMechanism connection.auth.mechanism
  else resolved

/-- Resolving keeps the profile's identity. -/
@[simp] theorem resolveForDial_id (settings : AppSettings) (connection : ConnectionProfile) :
    (resolveForDial settings connection).id = connection.id := by
  unfold resolveForDial
  dsimp only
  rw [ConnectionProfile.setACL_eq]
  split <;> rfl

/-! ## Comparison -/

/-- `maps.Equal` on options: a nil map equals an empty one. -/
def optionsEqual (a b : Option StringMap) : Bool :=
  a.getD ∅ = b.getD ∅

/-- `dialParametersChanged`: an open client is now dialled with something else. -/
def dialParametersChanged (previous current : ConnectionProfile) : Bool :=
  previous.kind ≠ current.kind ||
  previous.endpoints ≠ current.endpoints ||
  previous.timeoutSec ≠ current.timeoutSec ||
  previous.auth.mechanism ≠ current.auth.mechanism ||
  !optionsEqual previous.options current.options ||
  previous.secrets ≠ current.secrets

/-- `Repointed`: every dial parameter but the timeout. -/
def repointed (previous current : ConnectionProfile) : Bool :=
  dialParametersChanged previous { current with timeoutSec := previous.timeoutSec }

/-- Two profiles dial alike: the fields `dialParametersChanged` compares agree. -/
structure SameDial (a b : ConnectionProfile) : Prop where
  kind : a.kind = b.kind
  endpoints : a.endpoints = b.endpoints
  timeoutSec : a.timeoutSec = b.timeoutSec
  mechanism : a.auth.mechanism = b.auth.mechanism
  options : a.options.getD ∅ = b.options.getD ∅
  secrets : a.secrets = b.secrets

theorem dialParametersChanged_eq_false_iff {a b : ConnectionProfile} :
    dialParametersChanged a b = false ↔ SameDial a b := by
  simp only [dialParametersChanged, optionsEqual, Bool.or_eq_false_iff, decide_eq_false_iff_not,
    not_not, Bool.not_eq_false', decide_eq_true_eq, ne_eq]
  constructor
  · rintro ⟨⟨⟨⟨⟨h1, h2⟩, h3⟩, h4⟩, h5⟩, h6⟩
    exact ⟨h1, h2, h3, h4, h5, h6⟩
  · rintro ⟨h1, h2, h3, h4, h5, h6⟩
    exact ⟨⟨⟨⟨⟨h1, h2⟩, h3⟩, h4⟩, h5⟩, h6⟩

theorem SameDial.refl (p : ConnectionProfile) : SameDial p p := ⟨rfl, rfl, rfl, rfl, rfl, rfl⟩

theorem SameDial.trans {a b c : ConnectionProfile} (h : SameDial a b) (h' : SameDial b c) :
    SameDial a c :=
  ⟨h.kind.trans h'.kind, h.endpoints.trans h'.endpoints, h.timeoutSec.trans h'.timeoutSec,
    h.mechanism.trans h'.mechanism, h.options.trans h'.options, h.secrets.trans h'.secrets⟩

/-- The status fields take no part in a dial. -/
theorem SameDial.atRest (p : ConnectionProfile) : SameDial p p.atRest :=
  ⟨rfl, rfl, rfl, rfl, rfl, rfl⟩

end MqStudio.Connection
