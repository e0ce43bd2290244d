import MqStudio.Lib.TreeMap
import MqStudio.Storage

/-!
# Connection Profiles

`internal/model`: one saved connection of any broker family, and the record it is stored and
exported as. A profile's secrets live in memory only; the record carries them explicitly and
still reads the field names that predate broker families.

Profiles are values here. The source shares a profile's maps between shallow copies, and
every writer either replaces a map whole or writes the values the map already holds, so no
copy ever observes another's change.
-/

namespace MqStudio.Model

open MqStudio.Lib.TreeMap

/-! ## Families, mechanisms and statuses -/

/-- The family spellings of `mqkind.go`, which are the on-disk format. -/
def knownKinds : List String :=
  ["rocketmq", "kafka", "rabbitmq", "pulsar", "activemq", "redis-stream", "nats", "nsq",
    "mqtt", "sqs", "google-pubsub", "azure-servicebus", "kinesis", "ibmmq", "solace"]

/-- `MQKind`. `unset` is the empty string of a draft that names no family. -/
inductive MQKind where
  | unset
  | rocketmq | kafka | rabbitmq | pulsar | activemq | redisStream | nats | nsq | mqtt
  | sqs | googlePubSub | azureServiceBus | kinesis | ibmmq | solace
  | other (name : String) (unlisted : name ∉ "" :: knownKinds)
  deriving DecidableEq

/-- The mechanism spellings of `profile.go`. -/
def knownMechanisms : List String :=
  ["none", "acl", "plain", "sasl-plain", "sasl-scram", "token", "mtls", "nkey", "creds"]

/-- `AuthMechanism`. `blank` is the empty string of a form that named none. -/
inductive AuthMechanism where
  | blank
  | none | acl | plain | saslPlain | saslScram | token | mutualTLS | nkey | creds
  | other (name : String) (unlisted : name ∉ "" :: knownMechanisms)
  deriving DecidableEq

/-- `ConnectionStatus`; a stored file may hold any text. -/
inductive ConnectionStatus where
  | online
  | offline
  | other (name : String) (unlisted : name ∉ ["online", "offline"])
  deriving DecidableEq

/-! ## Profiles -/

/-- Options and secrets. -/
abbrev StringMap := Map String String

/-- `AuthConfig`: the non-secret half of the credentials. -/
structure AuthConfig where
  mechanism : AuthMechanism
  deriving DecidableEq

/-- `ConnectionProfile`. A nil options map is kept apart from an empty one, because an update
    that submits none keeps the stored options; nothing tells a nil secrets map from an
    empty one. -/
structure ConnectionProfile where
  id : Int
  name : String
  group : String
  kind : MQKind
  endpoints : String
  timeoutSec : Int
  auth : AuthConfig
  status : ConnectionStatus
  lastCheck : String
  isDefault : Bool
  remark : String
  options : Option StringMap
  secrets : StringMap
  deriving DecidableEq

/-- `SecretAccessKey` -/
def secretAccessKey : String := "accessKey"

/-- `SecretSecretKey` -/
def secretSecretKey : String := "secretKey"

namespace ConnectionProfile

/-- `Secret`: a missing key reads as the empty string. -/
def secret (p : ConnectionProfile) (key : String) : String :=
  (p.secrets[key]?).getD ""

/-- `ACLEnabled` -/
def aclEnabled (p : ConnectionProfile) : Bool :=
  p.auth.mechanism = .acl

/-- `SetSecret`: an empty value removes the key. -/
def setSecret (p : ConnectionProfile) (key value : String) : ConnectionProfile :=
  { p with secrets := if value = "" then p.secrets.erase key else p.secrets.insert key value }

/-- `SetACL`: the mechanism and the key pair are one decision, and turning ACL off clears
    the stored keys. -/
def setACL (p : ConnectionProfile) (enabled : Bool) (accessKey secretKey : String) :
    ConnectionProfile :=
  if !enabled then
    ({ p with auth := ⟨.none⟩ }.setSecret secretAccessKey "").setSecret secretSecretKey ""
  else
    ({ p with auth := ⟨.acl⟩ }.setSecret secretAccessKey accessKey).setSecret
      secretSecretKey secretKey

/-- Put a mechanism in place of the one `SetACL` left. -/
def withMechanism (p : ConnectionProfile) (mechanism : AuthMechanism) : ConnectionProfile :=
  { p with auth := ⟨mechanism⟩ }

/-- The profile as loading leaves it before anything is dialled: everything that is stored,
    and no word about its client. -/
def atRest (p : ConnectionProfile) : ConnectionProfile :=
  { p with status := .offline, lastCheck := "-" }

end ConnectionProfile

/-! ## Records -/

/-- `ConnectionRecord`: the embedded profile is stored without its secrets, which sit beside
    it. The legacy fields are read, never written. -/
structure ConnectionRecord where
  connectionProfile : ConnectionProfile
  secrets : StringMap
  legacyNameServer : String
  legacyEnableACL : Bool
  legacyAccessKey : String
  legacySecretKey : String
  deriving DecidableEq

/-- `NewConnectionRecord` -/
def newConnectionRecord (profile : ConnectionProfile) : ConnectionRecord where
  connectionProfile := { profile with secrets := ∅ }
  secrets := profile.secrets
  legacyNameServer := ""
  legacyEnableACL := false
  legacyAccessKey := ""
  legacySecretKey := ""

/-- The record's profile with every blank that predates broker families filled in. -/
def ConnectionRecord.filled (r : ConnectionRecord) : ConnectionProfile :=
  let stored := r.connectionProfile
  { stored with
    secrets := r.secrets
    kind := if stored.kind = MQKind.unset then .rocketmq else stored.kind
    endpoints := if stored.endpoints = "" then r.legacyNameServer else stored.endpoints
    auth := ⟨if stored.auth.mechanism = AuthMechanism.blank then
        if r.legacyEnableACL then .acl else .none
      else stored.auth.mechanism⟩ }

/-- `ConnectionRecord.Profile`: the pre-kind compatibility rules. -/
def ConnectionRecord.profile (r : ConnectionRecord) : ConnectionProfile :=
  if r.secrets.isEmpty then
    (r.filled.setSecret secretAccessKey r.legacyAccessKey).setSecret
      secretSecretKey r.legacySecretKey
  else r.filled

namespace ConnectionProfile

/-! ## What the small operations leave alone -/

section Fields

variable (p : ConnectionProfile)

@[simp] theorem setSecret_secrets (key value : String) :
    (p.setSecret key value).secrets =
      if value = "" then p.secrets.erase key else p.secrets.insert key value := rfl

@[simp] theorem setACL_false_mechanism (ak sk : String) :
    (p.setACL false ak sk).auth.mechanism = .none := rfl

@[simp] theorem setACL_true_mechanism (ak sk : String) :
    (p.setACL true ak sk).auth.mechanism = .acl := rfl

theorem setACL_mechanism (enabled : Bool) (ak sk : String) :
    (p.setACL enabled ak sk).auth.mechanism = if enabled then .acl else .none := by
  cases enabled <;> rfl

/-- `SetACL` writes the mechanism and the two reserved secrets, nothing else. -/
theorem setACL_eq (enabled : Bool) (ak sk : String) :
    p.setACL enabled ak sk =
      { p with
        auth := ⟨if enabled then .acl else .none⟩
        secrets := (p.setACL enabled ak sk).secrets } := by
  cases enabled <;> rfl

@[simp] theorem atRest_atRest : p.atRest.atRest = p.atRest := rfl

@[simp] theorem atRest_id : p.atRest.id = p.id := rfl

@[simp] theorem atRest_isDefault : p.atRest.isDefault = p.isDefault := rfl

@[simp] theorem atRest_secret (key : String) : p.atRest.secret key = p.secret key := rfl

@[simp] theorem atRest_aclEnabled : p.atRest.aclEnabled = p.aclEnabled := rfl

@[simp] theorem atRest_status : p.atRest.status = .offline := rfl

theorem aclEnabled_iff : p.aclEnabled = true ↔ p.auth.mechanism = .acl := by
  simp [aclEnabled]

@[simp] theorem secret_setSecret_self (key value : String) :
    (p.setSecret key value).secret key = value := by
  by_cases h : value = "" <;> simp [secret, h]

theorem secret_setSecret_of_ne {key other : String} (value : String) (h : key ≠ other) :
    (p.setSecret key value).secret other = p.secret other := by
  unfold secret
  rw [setSecret_secrets]
  split
  · rw [getElem?_erase_of_ne _ h]
  · rw [getElem?_insert_of_ne _ _ h]

theorem secretSecretKey_ne_secretAccessKey : secretSecretKey ≠ secretAccessKey := by
  decide

/-- Both keys read back after ACL is turned on. -/
theorem secret_setACL_true (ak sk : String) :
    (p.setACL true ak sk).secret secretAccessKey = ak ∧
      (p.setACL true ak sk).secret secretSecretKey = sk := by
  constructor
  · simp [setACL, secret_setSecret_of_ne _ _ secretSecretKey_ne_secretAccessKey]
  · simp [setACL]

/-- Turning ACL off leaves no reserved secret behind. -/
theorem setACL_false_reserved (ak sk : String) :
    (p.setACL false ak sk).secrets[secretAccessKey]? = none ∧
      (p.setACL false ak sk).secrets[secretSecretKey]? = none := by
  constructor
  · simp [setACL, secretSecretKey_ne_secretAccessKey]
  · simp [setACL]

/-- Turning ACL off twice is turning it off once. -/
theorem setACL_false_secrets_of_absent (ak sk : String)
    (hak : p.secrets[secretAccessKey]? = none) (hsk : p.secrets[secretSecretKey]? = none) :
    (p.setACL false ak sk).secrets = p.secrets := by
  ext1 key
  simp only [setACL, Bool.not_false, if_true, setSecret_secrets, Std.ExtTreeMap.getElem?_erase,
    Std.LawfulEqCmp.compare_eq_iff_eq]
  split
  · rename_i heq
    rw [← heq, hsk]
  · split
    · rename_i heq
      rw [← heq, hak]
    · rfl

/-- Setting the keys a profile already holds changes no secret. -/
theorem setACL_true_secrets_of_held (hak : p.secret secretAccessKey ≠ "")
    (hsk : p.secret secretSecretKey ≠ "") :
    (p.setACL true (p.secret secretAccessKey) (p.secret secretSecretKey)).secrets = p.secrets := by
  have held : ∀ key, p.secret key ≠ "" → p.secrets[key]? = some (p.secret key) := by
    intro key hkey
    unfold secret at hkey ⊢
    cases hm : p.secrets[key]? with
    | none => simp [hm] at hkey
    | some v => rfl
  rw [setACL, if_neg (by decide), setSecret_secrets, if_neg hsk, setSecret_secrets, if_neg hak,
    insert_same (held _ hak), insert_same (held _ hsk)]

end Fields

/-! ## Records and profiles -/

/-- **Record round trip**: a profile that names its family and its mechanism is read back
    from its record as it was. -/
theorem profile_newConnectionRecord (p : ConnectionProfile) (hkind : p.kind ≠ .unset)
    (hmech : p.auth.mechanism ≠ .blank) : (newConnectionRecord p).profile = p := by
  have hendpoints : (if p.endpoints = "" then "" else p.endpoints) = p.endpoints := by
    split
    · rename_i h
      exact h.symm
    · rfl
  have hfilled : (newConnectionRecord p).filled = p := by
    unfold ConnectionRecord.filled newConnectionRecord
    simp only [if_neg hkind, if_neg hmech, hendpoints]
  rw [ConnectionRecord.profile, hfilled]
  split
  · rename_i hempty
    have hsecrets : p.secrets = ∅ := Std.ExtTreeMap.isEmpty_iff.mp hempty
    have hsame : { p with secrets := (∅ : StringMap) } = p := by rw [← hsecrets]
    simp [setSecret, newConnectionRecord, hsecrets, hsame]
  · rfl

/-- A profile read from a record always names its family. -/
theorem kind_profile (r : ConnectionRecord) : r.profile.kind ≠ .unset := by
  have hkind : r.filled.kind ≠ .unset := by
    unfold ConnectionRecord.filled
    dsimp only
    split
    · exact nofun
    · assumption
  unfold ConnectionRecord.profile
  split <;> exact hkind

/-- A profile read from a record always names its mechanism. -/
theorem mechanism_profile (r : ConnectionRecord) : r.profile.auth.mechanism ≠ .blank := by
  have hmech : r.filled.auth.mechanism ≠ .blank := by
    unfold ConnectionRecord.filled
    dsimp only
    split
    · split <;> exact nofun
    · assumption
  unfold ConnectionRecord.profile
  split <;> exact hmech

end ConnectionProfile

end MqStudio.Model
