import MqStudio.Connection.Forms
import MqStudio.Connection.StoreInvariant

/-!
# Submitting a Form

`bridge/connection.go`: a connection as the forms are shown it, without its secrets, and an edit
as they submit it. Which secrets a submission leaves blank is decided by the form, and what becomes
of them here, one key at a time, before the store replaces the credentials whole.

A submission settles the credentials when none is left that it has no use for, and each that it
uses and left blank is kept. `update_settled_iff` says of every edit whether it does.

## Main definitions

- `update`, `redactConnection`.
- `Settled`, `Settles`.
-/

namespace MqStudio.Connection

open MqStudio.Connection.Forms
open MqStudio.Lib
open MqStudio.Lib.TreeMap
open MqStudio.Model
open MqStudio.Settings (AppSettings defaultSettings)
open MqStudio.Storage

/-! ## The bridge -/

/-- `ConnectionInput` -/
structure ConnectionInput where
  name : String
  group : String
  kind : MQKind
  endpoints : String
  timeoutSec : Int
  auth : AuthMechanism
  options : Option StringMap
  secrets : StringMap
  remark : String
  credentialsMode : CredentialsMode

/-- `toInput` -/
def toInput (submission : Submission) : ConnectionInput where
  name := submission.draft.name
  group := submission.draft.group
  kind := submission.draft.kind
  endpoints := submission.draft.endpoints
  timeoutSec := submission.draft.timeoutSec
  auth := submission.draft.authMechanism
  options := some submission.draft.options
  secrets := submission.draft.secrets
  remark := submission.draft.remark
  credentialsMode := submission.credentialsMode

/-- `profile`, before its secrets. -/
def ConnectionInput.fields (input : ConnectionInput) : ConnectionProfile where
  id := 0
  name := input.name
  group := input.group
  kind := input.kind
  endpoints := input.endpoints
  timeoutSec := input.timeoutSec
  auth := ⟨input.auth⟩
  status := .other "" (by decide)
  lastCheck := ""
  isDefault := false
  remark := input.remark
  options := input.options
  secrets := ∅

/-- `profile` -/
def ConnectionInput.profile (input : ConnectionInput) : ConnectionProfile :=
  input.secrets.foldl ConnectionProfile.setSecret input.fields

/-- `ConfiguredSecrets` -/
def configuredSecrets (profile : ConnectionProfile) : List String :=
  (profile.secrets.toList.filter fun entry => entry.2 ≠ "").map Prod.fst

/-- `redactConnection` -/
def redactConnection (profile : ConnectionProfile) : ConnectionView where
  name := profile.name
  group := profile.group
  kind := profile.kind
  endpoints := profile.endpoints
  timeoutSec := profile.timeoutSec
  authMechanism := profile.auth.mechanism
  options := profile.options
  secretsConfigured := configuredSecrets profile
  remark := profile.remark

/-- What the bridge answers an edit with. -/
inductive UpdateError where
  /-- "invalid credentials mode" -/
  | invalidMode
  | service (cause : ConnectionError)
  deriving DecidableEq

/-- Fill what a submission left blank from what is stored, key by key. -/
def refill (current profile : ConnectionProfile) : ConnectionProfile :=
  current.secrets.foldl (fun profile key stored =>
    if profile.secret key = "" then profile.setSecret key stored else profile) profile

/-- `applyCredentialsMode` -/
def applyCredentialsMode (s : Service) (id : Int) (profile : ConnectionProfile)
    (mode : CredentialsMode) : Except UpdateError ConnectionProfile :=
  match mode with
  | .preserve | .blank =>
    if id = 0 then .ok profile
    else
      match s.connections[id]? with
      | none => .error (.service (.notFound id))
      | some current => .ok (refill current profile)
  | .clear => .ok { profile with secrets := ∅, auth := ⟨.none⟩ }
  | .replace => .ok profile
  | .other => .error .invalidMode

/-- The state after an edit, and what the window is told of it. -/
structure Updated where
  service : Service
  view : Option ConnectionView
  error : Option UpdateError
  saved : SaveReport

/-- `Update` -/
def update (ctx : Context) (settings : AppSettings) (id : Int) (input : ConnectionInput)
    (faults : Faults) (s : Service) : Updated :=
  match applyCredentialsMode s id input.profile input.credentialsMode with
  | .error e => ⟨s, none, some e, .notReached⟩
  | .ok profile =>
    let outcome := updateConnection ctx settings id profile faults s
    let view :=
      match outcome.error with
      | some _ => none
      | none => outcome.profile.map redactConnection
    ⟨outcome.service, view, outcome.error.map .service, outcome.saved⟩

/-! ## What a submission is read as -/

/-- Everything of a profile but its secrets. -/
def unsealed (p : ConnectionProfile) : ConnectionProfile := { p with secrets := ∅ }

@[simp] theorem unsealed_setSecret (p : ConnectionProfile) (key value : String) :
    unsealed (p.setSecret key value) = unsealed p := rfl

/-- **Reading a submission** takes its secrets as they are. -/
theorem secret_profile (input : ConnectionInput) (key : String) :
    input.profile.secret key = (input.secrets[key]?).getD "" := by
  have hvisit : ∀ (p : ConnectionProfile) (k v a : String),
      (p.setSecret k v).secret a = if k = a then v else p.secret a := by
    intro p k v a
    split
    · rename_i heq
      subst heq
      exact p.secret_setSecret_self k v
    · rename_i hne
      exact p.secret_setSecret_of_ne v hne
  rw [ConnectionInput.profile,
    foldl_own input.secrets ConnectionProfile.secret (fun _ v _ => v) hvisit]
  cases input.secrets[key]? with
  | none => rfl
  | some v => rfl

/-- And everything else of it. -/
theorem unsealed_profile (input : ConnectionInput) : unsealed input.profile = input.fields :=
  foldl_frame input.secrets unsealed (fun p key value => unsealed_setSecret p key value)
    input.fields

/-- **Filling the blanks**: what was submitted stands, and what was not is what is stored. -/
theorem secret_refill (current profile : ConnectionProfile) (key : String) :
    (refill current profile).secret key =
      if profile.secret key = "" then current.secret key else profile.secret key := by
  have hvisit : ∀ (p : ConnectionProfile) (k v a : String),
      (if p.secret k = "" then p.setSecret k v else p).secret a =
        if k = a then (if p.secret k = "" then v else p.secret k) else p.secret a := by
    intro p k v a
    by_cases hblank : p.secret k = ""
    · rw [if_pos hblank, if_pos hblank]
      by_cases heq : k = a
      · subst heq
        rw [if_pos rfl, p.secret_setSecret_self]
      · rw [if_neg heq, p.secret_setSecret_of_ne v heq]
    · rw [if_neg hblank, if_neg hblank]
      by_cases heq : k = a
      · rw [if_pos heq, heq]
      · rw [if_neg heq]
  rw [refill, foldl_own current.secrets ConnectionProfile.secret
    (fun _ v held => if held = "" then v else held) hvisit]
  cases hstored : current.secrets[key]? with
  | none =>
    have hnone : current.secret key = "" := by
      rw [ConnectionProfile.secret, hstored]
      rfl
    rw [hnone]
    split
    · assumption
    · rfl
  | some stored =>
    have hsome : current.secret key = stored := by
      rw [ConnectionProfile.secret, hstored]
      rfl
    rw [hsome]
    rfl

theorem unsealed_refill (current profile : ConnectionProfile) :
    unsealed (refill current profile) = unsealed profile := by
  refine foldl_frame current.secrets unsealed (fun p key value => ?_) profile
  split
  · exact unsealed_setSecret p key value
  · rfl

/-! ## What an edit stores -/

/-- The pair that is RocketMQ's alone. -/
def Reserved (key : String) : Prop := key = secretAccessKey ∨ key = secretSecretKey

instance (key : String) : Decidable (Reserved key) :=
  inferInstanceAs (Decidable (key = secretAccessKey ∨ key = secretSecretKey))

theorem secret_submittedSecrets (input : ConnectionProfile) (key : String) :
    ((submittedSecrets input)[key]?).getD "" = if Reserved key then "" else input.secret key := by
  have hvisit : ∀ (kept : StringMap) (k v a : String),
      ((if k = secretAccessKey ∨ k = secretSecretKey then kept
        else if v = "" then kept.erase k else kept.insert k v)[a]?).getD "" =
        if k = a then (if Reserved k then (kept[k]?).getD "" else v) else (kept[a]?).getD "" := by
    intro kept k v a
    by_cases hreserved : Reserved k
    · have hpair : k = secretAccessKey ∨ k = secretSecretKey := hreserved
      rw [if_pos hpair, if_pos hreserved]
      by_cases heq : k = a
      · rw [if_pos heq, heq]
      · rw [if_neg heq]
    · have hpair : ¬ (k = secretAccessKey ∨ k = secretSecretKey) := hreserved
      rw [if_neg hpair, if_neg hreserved]
      by_cases heq : k = a
      · subst heq
        by_cases hv : v = "" <;> simp [hv]
      · rw [if_neg heq]
        split
        · rw [getElem?_erase_of_ne _ heq]
        · rw [getElem?_insert_of_ne _ _ heq]
  rw [submittedSecrets, foldl_own input.secrets (fun kept a => (kept[a]?).getD "")
    (fun k v held => if Reserved k then held else v) hvisit, ConnectionProfile.secret]
  cases input.secrets[key]? with
  | none => simp
  | some v => simp

/-- Turning the pair on or off touches no other secret. -/
theorem secret_setACL_of_not_reserved (p : ConnectionProfile) (enabled : Bool) (ak sk : String)
    {key : String} (h : ¬ Reserved key) : (p.setACL enabled ak sk).secret key = p.secret key := by
  have hak : secretAccessKey ≠ key := fun heq => h (.inl heq.symm)
  have hsk : secretSecretKey ≠ key := fun heq => h (.inr heq.symm)
  have hpair : ∀ auth first second, ((({ p with auth := auth }).setSecret secretAccessKey
      first).setSecret secretSecretKey second).secret key = p.secret key := by
    intro auth first second
    rw [ConnectionProfile.secret_setSecret_of_ne _ _ hsk,
      ConnectionProfile.secret_setSecret_of_ne _ _ hak]
    rfl
  cases enabled with
  | false => exact hpair ⟨.none⟩ "" ""
  | true => exact hpair ⟨.acl⟩ ak sk

/-- **The secrets an edit stores** are the submission's, the reserved pair trimmed, and none of
    that pair without ACL. -/
theorem secret_updatedProfile {previous input : ConnectionProfile} {name endpoints : String}
    {acl : Bool × String × String}
    (hacl : normalizeACLConfig input.aclEnabled (input.secret secretAccessKey)
      (input.secret secretSecretKey) = .ok acl) (key : String) :
    (updatedProfile previous input name endpoints acl).secret key =
      if Reserved key then (if input.aclEnabled then trimSpace (input.secret key) else "")
      else input.secret key := by
  have hsecrets : (updatedProfile previous input name endpoints acl).secret key =
      (({ editedFields previous input name endpoints with
        secrets := submittedSecrets input }).setACL acl.1 acl.2.1 acl.2.2).secret key := by
    unfold updatedProfile applyCredentials
    dsimp only
    split <;> rfl
  rw [hsecrets]
  by_cases hreserved : Reserved key
  · rw [if_pos hreserved]
    cases hon : input.aclEnabled with
    | false =>
      rw [hon] at hacl
      cases hacl
      obtain ⟨hak, hsk⟩ := ConnectionProfile.setACL_false_reserved
        { editedFields previous input name endpoints with secrets := submittedSecrets input } "" ""
      rcases hreserved with rfl | rfl
      · simp [ConnectionProfile.secret, hak]
      · simp [ConnectionProfile.secret, hsk]
    | true =>
      rw [hon] at hacl
      obtain ⟨rfl, -, -⟩ := normalizeACLConfig_true_ok hacl
      obtain ⟨hak, hsk⟩ := ConnectionProfile.secret_setACL_true
        { editedFields previous input name endpoints with secrets := submittedSecrets input }
        (trimSpace (input.secret secretAccessKey)) (trimSpace (input.secret secretSecretKey))
      rcases hreserved with rfl | rfl
      · exact hak
      · exact hsk
  · rw [if_neg hreserved, secret_setACL_of_not_reserved _ _ _ _ hreserved]
    exact (secret_submittedSecrets input key).trans (if_neg hreserved)

/-! ## Blank secrets -/

/-- No secret is held with a blank value. -/
def NoneBlank (secrets : StringMap) : Prop := ∀ key : String, secrets[key]? ≠ some ""

/-- Such secrets are what they are read as. -/
theorem NoneBlank.lookup {secrets others : StringMap} (h : NoneBlank secrets)
    (h' : NoneBlank others) {key : String}
    (hread : (secrets[key]?).getD "" = (others[key]?).getD "") : secrets[key]? = others[key]? := by
  have hs := h key
  have ho := h' key
  cases hsecret : secrets[key]? with
  | none =>
    cases hother : others[key]? with
    | none => rfl
    | some w =>
      rw [hsecret, hother] at hread
      rw [hother] at ho
      exact absurd (congrArg some hread.symm) ho
  | some v =>
    cases hother : others[key]? with
    | none =>
      rw [hsecret, hother] at hread
      rw [hsecret] at hs
      exact absurd (congrArg some hread) hs
    | some w =>
      rw [hsecret, hother] at hread
      exact congrArg some hread

theorem NoneBlank.ext {secrets others : StringMap} (h : NoneBlank secrets) (h' : NoneBlank others)
    (hread : ∀ key : String, (secrets[key]?).getD "" = (others[key]?).getD "") :
    secrets = others := by
  ext1 key
  exact h.lookup h' (hread key)

theorem noneBlank_empty : NoneBlank ∅ := by
  intro key
  simp

theorem NoneBlank.erase {secrets : StringMap} (h : NoneBlank secrets) (key : String) :
    NoneBlank (secrets.erase key) := by
  intro other
  rw [Std.ExtTreeMap.getElem?_erase]
  split
  · simp
  · exact h other

theorem NoneBlank.insert {secrets : StringMap} (h : NoneBlank secrets) (key : String)
    {value : String} (hvalue : value ≠ "") : NoneBlank (secrets.insert key value) := by
  intro other
  rw [getElem?_insert_ite]
  split
  · exact fun heq => hvalue (Option.some.inj heq)
  · exact h other

theorem NoneBlank.setSecret {p : ConnectionProfile} (h : NoneBlank p.secrets) (key value : String) :
    NoneBlank (p.setSecret key value).secrets := by
  rw [ConnectionProfile.setSecret_secrets]
  split
  · exact h.erase key
  · rename_i hvalue
    exact h.insert key hvalue

theorem NoneBlank.setACL {p : ConnectionProfile} (h : NoneBlank p.secrets) (enabled : Bool)
    (ak sk : String) : NoneBlank (p.setACL enabled ak sk).secrets := by
  have hpair : ∀ auth first second, NoneBlank ((({ p with auth := auth }).setSecret
      secretAccessKey first).setSecret secretSecretKey second).secrets := by
    intro auth first second
    have hfirst : NoneBlank (({ p with auth := auth }).setSecret secretAccessKey first).secrets :=
      NoneBlank.setSecret (p := { p with auth := auth }) h secretAccessKey first
    exact hfirst.setSecret secretSecretKey second
  cases enabled with
  | false => exact hpair ⟨.none⟩ "" ""
  | true => exact hpair ⟨.acl⟩ ak sk

/-- A submission, read and with its blanks filled, holds none. -/
theorem noneBlank_profile (input : ConnectionInput) : NoneBlank input.profile.secrets :=
  foldl_invariant input.secrets (fun p : ConnectionProfile => NoneBlank p.secrets)
    (fun _ key value h => h.setSecret key value) noneBlank_empty

theorem noneBlank_refill (current : ConnectionProfile) {profile : ConnectionProfile}
    (h : NoneBlank profile.secrets) : NoneBlank (refill current profile).secrets := by
  refine foldl_invariant current.secrets (fun p : ConnectionProfile => NoneBlank p.secrets)
    (fun p key value hp => ?_) h
  split
  · exact hp.setSecret key value
  · exact hp

theorem noneBlank_applied {s : Service} {id : Int} {input : ConnectionInput}
    {profile : ConnectionProfile}
    (h : applyCredentialsMode s id input.profile input.credentialsMode = .ok profile) :
    NoneBlank profile.secrets := by
  have hread := noneBlank_profile input
  unfold applyCredentialsMode at h
  split at h
  · split at h
    · cases h
      exact hread
    · split at h
      · cases h
      · cases h
        exact noneBlank_refill _ hread
  · split at h
    · cases h
      exact hread
    · split at h
      · cases h
      · cases h
        exact noneBlank_refill _ hread
  · cases h
    exact noneBlank_empty
  · cases h
    exact hread
  · cases h

/-- An edit stores none. -/
theorem noneBlank_updatedProfile (previous input : ConnectionProfile) (name endpoints : String)
    (acl : Bool × String × String) :
    NoneBlank (updatedProfile previous input name endpoints acl).secrets := by
  have hsubmitted : NoneBlank (submittedSecrets input) := by
    refine foldl_invariant input.secrets NoneBlank (fun kept key value h => ?_) noneBlank_empty
    split
    · exact h
    · split
      · exact h.erase key
      · rename_i hvalue
        exact h.insert key hvalue
  have hset := NoneBlank.setACL
    (p := { editedFields previous input name endpoints with secrets := submittedSecrets input })
    hsubmitted acl.1 acl.2.1 acl.2.2
  unfold updatedProfile applyCredentials
  dsimp only
  split <;> exact hset

section Update

variable {ctx : Context} {settings : AppSettings}

/-- **A saved edit** is what the checked submission, its blanks filled, makes of the stored
    profile. -/
theorem update_stored {s : Service} {id : Int} {input : ConnectionInput} {faults : Faults}
    (hsaved : (update ctx settings id input faults s).saved = .succeeded) :
    ∃ profile cur name endpoints acl r,
      applyCredentialsMode s id input.profile input.credentialsMode = .ok profile ∧
      s.connections[id]? = some cur ∧
      validateConnectionFields ctx.endpoints (editedKind s id profile.kind) profile.name
        profile.endpoints profile.timeoutSec = .ok (name, endpoints) ∧
      normalizeACLConfig profile.aclEnabled (profile.secret secretAccessKey)
        (profile.secret secretSecretKey) = .ok acl ∧
      (update ctx settings id input faults s).service.connections[id]? = some r ∧
      r.atRest = (updatedProfile cur profile name endpoints acl).atRest := by
  unfold update at hsaved ⊢
  cases hmode : applyCredentialsMode s id input.profile input.credentialsMode with
  | error e =>
    rw [hmode] at hsaved
    cases hsaved
  | ok profile =>
    rw [hmode] at hsaved
    dsimp only at hsaved ⊢
    rcases updateConnection_cases ctx settings s id profile faults with
      ⟨-, hunsaved⟩ | ⟨cur, name, endpoints, acl, edited, hcur, hfields, hacl, rfl, -, hstored⟩
    · exact absurd hsaved hunsaved
    · obtain ⟨r, hr, hrest⟩ := hstored.stored
      refine ⟨profile, cur, name, endpoints, acl, r, rfl, hcur, hfields, hacl, hr, ?_⟩
      rw [hrest]
      split <;> rfl

end Update

/-! ## The credentials a submission has a use for -/

/-- The keys a mechanism of a family signs in with. -/
def mechanismKeys : MQKind → AuthMechanism → List String
  | .rocketmq, .acl => [secretAccessKey, secretSecretKey]
  | .rabbitmq, .plain | .redisStream, .plain | .mqtt, .plain | .nats, .plain
  | .activemq, .plain | .ibmmq, .plain | .solace, .plain => ["username", "password"]
  | .kafka, .saslPlain | .kafka, .saslScram => ["username", "password"]
  | .pulsar, .token | .nats, .token => ["token"]
  | .nats, .nkey => ["nkeySeed"]
  | .sqs, .plain | .kinesis, .plain => ["awsAccessKeyId", "awsSecretAccessKey", "awsSessionToken"]
  | .googlePubSub, .plain => ["googleCredentialsJson"]
  | .azureServiceBus, .plain => ["azureSharedAccessKey", "azureConnectionString"]
  | _, _ => []

/-- Those of the second interface of a submission: MQTT's management API and ActiveMQ's acceptor
    where they are given an address, IBM MQ's messaging account beside its administrator's, and
    the NATS system account and Solace's client, which are accounts of their own. -/
def secondKeys (draft : ConnectionDraft) : List String :=
  match draft.kind with
  | .mqtt =>
    if (draft.options["managementUrl"]?).getD "" = "" then []
    else ["managementApiKey", "managementSecretKey"]
  | .activemq =>
    if (draft.options["amqpUrl"]?).getD "" = "" then [] else ["amqpUsername", "amqpPassword"]
  | .ibmmq =>
    if draft.authMechanism = .plain then ["messagingUsername", "messagingPassword"] else []
  | .nats => ["systemUser", "systemPassword"]
  | .solace => ["restUsername", "restPassword"]
  | _ => []

/-- The keys a submission has a use for. -/
def used (draft : ConnectionDraft) : List String :=
  mechanismKeys draft.kind draft.authMechanism ++ secondKeys draft

/-- `profile.Secret`, of what was submitted. -/
def submitted (draft : ConnectionDraft) (key : String) : String := (draft.secrets[key]?).getD ""

/-- The stored credentials after an edit: none the submission has no use for, and each it uses
    and left blank as it was. -/
structure Settled (before after : ConnectionProfile) (draft : ConnectionDraft) : Prop where
  gone : ∀ key, after.secret key ≠ "" → key ∈ used draft
  kept : ∀ key, key ∈ used draft → submitted draft key = "" → after.secret key = before.secret key

/-- When an edit settles them: one that fills blanks, where nothing but what it uses is stored and
    a pair it keeps is stored trimmed; one that replaces, where nothing it left blank is stored. -/
def Settles (before : ConnectionProfile) (submission : Submission) : Prop :=
  if submission.credentialsMode = .preserve then
    (∀ key, before.secret key ≠ "" → key ∈ used submission.draft ∨ Reserved key) ∧
      ∀ key, key ∈ used submission.draft → submitted submission.draft key = "" → Reserved key →
        trimSpace (before.secret key) = before.secret key
  else
    ∀ key, key ∈ used submission.draft → submitted submission.draft key = "" →
      before.secret key = ""

theorem mem_of_record : ∀ {entries : List (String × String)} {key : String},
    ((record entries)[key]?).getD "" ≠ "" → ∃ value, (key, value) ∈ entries ∧ value ≠ "" := by
  intro entries key h
  induction entries with
  | nil => simp [record] at h
  | cons entry rest ih =>
    obtain ⟨k, v⟩ := entry
    rw [getElem?_record_cons] at h
    by_cases heq : k = key
    · rw [if_pos heq] at h
      exact ⟨v, by simp [heq], h⟩
    · rw [if_neg heq] at h
      obtain ⟨value, hmem, hvalue⟩ := ih h
      exact ⟨value, List.mem_cons_of_mem _ hmem, hvalue⟩

section Forms

variable {ν : Type} (js : Numbers ν) (d : ProtocolDraft ν)

theorem preserving_cases (draft : SecretDraft) :
    draft.preserving = .clear ∨ draft.preserving = .preserve ∨ draft.preserving = .replace := by
  unfold SecretDraft.preserving
  split
  · exact .inl rfl
  · split
    · exact .inr (.inl rfl)
    · exact .inr (.inr rfl)

theorem replacing_cases (draft : SecretDraft) (typed : Bool) :
    draft.replacing typed = .clear ∨ draft.replacing typed = .preserve ∨
      draft.replacing typed = .replace := by
  unfold SecretDraft.replacing
  split
  · exact .inl rfl
  · split
    · exact .inr (.inr rfl)
    · exact .inr (.inl rfl)

theorem replacingOrAnonymous_cases (draft : SecretDraft) (authenticating typed : Bool) :
    draft.replacingOrAnonymous authenticating typed = .clear ∨
      draft.replacingOrAnonymous authenticating typed = .preserve ∨
      draft.replacingOrAnonymous authenticating typed = .replace := by
  unfold SecretDraft.replacingOrAnonymous
  split
  · exact .inl rfl
  · exact replacing_cases draft typed

/-- A form clears, fills blanks or replaces. -/
theorem credentialsMode_cases :
    (toSubmission js d).credentialsMode = .clear ∨
      (toSubmission js d).credentialsMode = .preserve ∨
      (toSubmission js d).credentialsMode = .replace := by
  cases d with
  | nsq value => exact .inr (.inr rfl)
  | rabbitmq value | redis value => exact replacing_cases _ _
  | kafka value | pulsar value => exact replacingOrAnonymous_cases _ _ _
  | rocketmq value | mqtt value | nats value | activemq value | sqs value | googlePubSub value
  | azureServiceBus value | kinesis value | ibmmq value | solace value =>
    exact preserving_cases _

/-- What a record holds that is not blank is among the keys that each such entry is among. -/
theorem mem_of_entries {draft : ConnectionDraft} {entries : List (String × String)}
    {keys : List String} (hsecrets : draft.secrets = record entries)
    (hentries : ∀ entry ∈ entries, entry.2 ≠ "" → entry.1 ∈ keys) {key : String}
    (h : submitted draft key ≠ "") : key ∈ keys := by
  rw [submitted, hsecrets] at h
  obtain ⟨value, hmem, hvalue⟩ := mem_of_record h
  exact hentries (key, value) hmem hvalue

/-- **A form submits no secret it has no use for.** -/
theorem mem_used_of_submitted {key : String}
    (h : submitted (toSubmission js d).draft key ≠ "") : key ∈ used (toSubmission js d).draft := by
  cases d with
  | rocketmq value =>
    refine mem_of_entries rfl ?_ h
    simp [toSubmission, rocketMQSubmission, FormDraft.submission, used, mechanismKeys, secondKeys,
      secretAccessKey, secretSecretKey]
    grind
  | rabbitmq value =>
    refine mem_of_entries rfl ?_ h
    simp [toSubmission, rabbitMQSubmission, FormDraft.submission, used, mechanismKeys]
  | kafka value =>
    refine mem_of_entries rfl ?_ h
    cases hm : value.mechanism <;>
      simp [toSubmission, kafkaSubmission, FormDraft.submission, used, mechanismKeys, hm,
        typedWhen, KafkaMechanism.stored]
  | pulsar value =>
    refine mem_of_entries rfl ?_ h
    cases hm : value.auth <;>
      simp [toSubmission, pulsarSubmission, FormDraft.submission, used, mechanismKeys, hm, typedWhen]
  | redis value =>
    refine mem_of_entries rfl ?_ h
    simp [toSubmission, redisSubmission, FormDraft.submission, used, mechanismKeys, secondKeys]
    grind
  | mqtt value =>
    refine mem_of_entries rfl ?_ h
    cases hm : value.mechanism <;>
      simp [toSubmission, mqttSubmission, FormDraft.submission, used, mechanismKeys, secondKeys, hm,
        typedWhen, getElem?_record_cons] <;> grind
  | nats value =>
    refine mem_of_entries rfl ?_ h
    cases hm : value.mechanism <;>
      simp [toSubmission, natsSubmission, FormDraft.submission, used, mechanismKeys, secondKeys, hm,
        typedWhen, NatsMechanism.stored]
  | activemq value =>
    refine mem_of_entries rfl ?_ h
    cases hm : value.mechanism <;>
      simp [toSubmission, activeMQSubmission, FormDraft.submission, used, mechanismKeys, secondKeys,
        hm, typedWhen, PlainMechanism.stored, getElem?_record_cons] <;> grind
  | nsq value => exact mem_of_entries rfl (by simp) h
  | sqs value =>
    refine mem_of_entries rfl ?_ h
    simp [toSubmission, sqsSubmission, AwsDraft.submit, FormDraft.submission, used, mechanismKeys,
      secondKeys]
    grind
  | googlePubSub value =>
    refine mem_of_entries rfl ?_ h
    simp [toSubmission, googlePubSubSubmission, FormDraft.submission, used, mechanismKeys,
      secondKeys]
    grind
  | azureServiceBus value =>
    refine mem_of_entries rfl ?_ h
    simp [toSubmission, azureServiceBusSubmission, FormDraft.submission, used, mechanismKeys,
      secondKeys]
    grind
  | kinesis value =>
    refine mem_of_entries rfl ?_ h
    simp [toSubmission, kinesisSubmission, AwsDraft.submit, FormDraft.submission, used,
      mechanismKeys, secondKeys]
    grind
  | ibmmq value =>
    refine mem_of_entries rfl ?_ h
    cases hm : value.mechanism <;>
      simp [toSubmission, ibmMqSubmission, FormDraft.submission, used, mechanismKeys, secondKeys,
        hm, typedWhen, PlainMechanism.stored]
  | solace value =>
    refine mem_of_entries rfl ?_ h
    cases hm : value.mechanism <;>
      simp [toSubmission, solaceSubmission, FormDraft.submission, used, mechanismKeys, secondKeys,
        hm, typedWhen, PlainMechanism.stored]

/-- ACL is RocketMQ's. -/
theorem kind_of_acl (h : (toSubmission js d).draft.authMechanism = .acl) :
    (toSubmission js d).draft.kind = .rocketmq := by
  cases d with
  | rocketmq value => rfl
  | rabbitmq value | nsq value => cases h
  | kafka value => exact absurd h (by cases hm : value.mechanism <;>
      simp [toSubmission, kafkaSubmission, FormDraft.submission, KafkaMechanism.stored, hm])
  | nats value => exact absurd h (by cases hm : value.mechanism <;>
      simp [toSubmission, natsSubmission, FormDraft.submission, NatsMechanism.stored, hm])
  | activemq value => exact absurd h (by cases hm : value.mechanism <;>
      simp [toSubmission, activeMQSubmission, FormDraft.submission, PlainMechanism.stored, hm])
  | ibmmq value => exact absurd h (by cases hm : value.mechanism <;>
      simp [toSubmission, ibmMqSubmission, FormDraft.submission, PlainMechanism.stored, hm])
  | solace value => exact absurd h (by cases hm : value.mechanism <;>
      simp [toSubmission, solaceSubmission, FormDraft.submission, PlainMechanism.stored, hm])
  | pulsar value | redis value | mqtt value | sqs value | googlePubSub value
  | azureServiceBus value | kinesis value =>
    -- one of two mechanisms, and neither is ACL
    simp only [toSubmission, pulsarSubmission, redisSubmission, mqttSubmission, sqsSubmission,
      kinesisSubmission, AwsDraft.submit, googlePubSubSubmission, azureServiceBusSubmission,
      FormDraft.submission] at h
    split at h <;> cases h

theorem reserved_not_mem_secondKeys (draft : ConnectionDraft) {key : String} (h : Reserved key) :
    key ∉ secondKeys draft := by
  unfold secondKeys
  rcases h with rfl | rfl <;> split <;> (try split) <;> simp [secretAccessKey, secretSecretKey]

theorem reserved_mem_mechanismKeys (kind : MQKind) (mechanism : AuthMechanism) {key : String}
    (h : Reserved key) :
    key ∈ mechanismKeys kind mechanism ↔ kind = .rocketmq ∧ mechanism = .acl := by
  fun_cases mechanismKeys kind mechanism <;>
    rcases h with rfl | rfl <;> simp_all [secretAccessKey, secretSecretKey]

/-- A form's use for the reserved pair is ACL. -/
theorem reserved_mem_used {key : String} (h : Reserved key) :
    key ∈ used (toSubmission js d).draft ↔ (toSubmission js d).draft.authMechanism = .acl := by
  rw [used, List.mem_append, reserved_mem_mechanismKeys _ _ h]
  constructor
  · rintro (⟨-, hacl⟩ | hsecond)
    · exact hacl
    · exact absurd hsecond (reserved_not_mem_secondKeys _ h)
  · intro hacl
    exact .inl ⟨kind_of_acl js d hacl, hacl⟩

end Forms

/-! ## The credentials an edit leaves -/

section Edits

variable {ν : Type} (js : Numbers ν) (d : ProtocolDraft ν)
variable {ctx : Context} {settings : AppSettings}

theorem secret_toInput (submission : Submission) (key : String) :
    (toInput submission).profile.secret key = submitted submission.draft key :=
  secret_profile (toInput submission) key

theorem aclEnabled_of_unsealed {p q : ConnectionProfile} (h : unsealed p = unsealed q) :
    p.aclEnabled = q.aclEnabled := by
  have hauth : (unsealed p).auth = (unsealed q).auth := congrArg ConnectionProfile.auth h
  have hsame : p.auth = q.auth := hauth
  rw [ConnectionProfile.aclEnabled, ConnectionProfile.aclEnabled, hsame]

/-- What is stored of each secret after a saved edit. -/
theorem secret_of_update {s : Service} {id : Int} (hid : id ≠ 0) {cur : ConnectionProfile}
    (hcur : s.connections[id]? = some cur) {submission : Submission} {faults : Faults}
    (hmode : submission.credentialsMode = .preserve ∨ submission.credentialsMode = .replace)
    (hsaved : (update ctx settings id (toInput submission) faults s).saved = .succeeded) :
    ∃ r, (update ctx settings id (toInput submission) faults s).service.connections[id]? = some r ∧
      ∀ key, r.secret key =
        if Reserved key ∧ submission.draft.authMechanism ≠ .acl then ""
        else if submitted submission.draft key = "" then
          if submission.credentialsMode = .preserve then
            if Reserved key then trimSpace (cur.secret key) else cur.secret key
          else ""
        else if Reserved key then trimSpace (submitted submission.draft key)
        else submitted submission.draft key := by
  obtain ⟨profile, stored, name, endpoints, acl, r, happlied, hstored, -, hacl, hr, hrest⟩ :=
    update_stored hsaved
  rw [hcur] at hstored
  cases hstored
  -- the submission, with its blanks filled where the mode says so
  have hread : unsealed profile = (toInput submission).fields ∧
      ∀ key, profile.secret key = if submitted submission.draft key = "" then
        (if submission.credentialsMode = .preserve then cur.secret key else "")
        else submitted submission.draft key := by
    rcases hmode with hpreserve | hreplace
    · have hfilled : profile = refill cur (toInput submission).profile := by
        have hinput : (toInput submission).credentialsMode = .preserve := hpreserve
        rw [hinput, applyCredentialsMode, if_neg hid, hcur] at happlied
        cases happlied
        rfl
      refine ⟨?_, fun key => ?_⟩
      · rw [hfilled, unsealed_refill, unsealed_profile]
      · rw [hfilled, secret_refill, secret_toInput, if_pos hpreserve]
    · have hasIs : profile = (toInput submission).profile := by
        have hinput : (toInput submission).credentialsMode = .replace := hreplace
        rw [hinput, applyCredentialsMode] at happlied
        cases happlied
        rfl
      refine ⟨?_, fun key => ?_⟩
      · rw [hasIs, unsealed_profile]
      · rw [hasIs, secret_toInput]
        by_cases hblank : submitted submission.draft key = "" <;> simp [hblank, hreplace]
  obtain ⟨hfields, hsecrets⟩ := hread
  have hon : profile.aclEnabled = decide (submission.draft.authMechanism = .acl) :=
    aclEnabled_of_unsealed (q := (toInput submission).fields) hfields
  refine ⟨r, hr, fun key => ?_⟩
  have hkey : r.secret key = (updatedProfile cur profile name endpoints acl).secret key := by
    rw [← ConnectionProfile.atRest_secret, hrest, ConnectionProfile.atRest_secret]
  rw [hkey, secret_updatedProfile hacl, hon, hsecrets]
  by_cases hreserved : Reserved key
  · by_cases hmech : submission.draft.authMechanism = .acl
    · by_cases hblank : submitted submission.draft key = ""
      · by_cases hpreserve : submission.credentialsMode = .preserve <;>
          simp [hreserved, hmech, hblank, hpreserve]
      · simp [hreserved, hmech, hblank]
    · simp [hreserved, hmech]
  · simp [hreserved]

/-- **Whether an edit settles the credentials.** Of every stored profile and every edit that does
    not clear them, once it is saved. -/
theorem update_settled_iff {ok : Service → Act → Prop} {s : Service}
    (hs : (window ctx).Reachable ok s) {id : Int} {cur : ConnectionProfile}
    (hcur : s.connections[id]? = some cur) {faults : Faults}
    (hmode : (toSubmission js d).credentialsMode ≠ .clear)
    (hsaved : (update ctx settings id (toInput (toSubmission js d)) faults s).saved = .succeeded) :
    ∃ r, (update ctx settings id (toInput (toSubmission js d)) faults s).service.connections[id]? =
        some r ∧
      (Settled cur r (toSubmission js d).draft ↔ Settles cur (toSubmission js d)) := by
  have hid : id ≠ 0 := by
    have hpositive := (reachable_storeInvariant hs).positive id cur hcur
    omega
  have hmode' := (credentialsMode_cases js d).resolve_left hmode
  obtain ⟨r, hr, hsecret⟩ := secret_of_update hid hcur hmode' hsaved
  refine ⟨r, hr, ?_⟩
  have hfits : ∀ key, submitted (toSubmission js d).draft key ≠ "" →
      key ∈ used (toSubmission js d).draft := fun key => mem_used_of_submitted js d
  have hpair : ∀ key, Reserved key → (key ∈ used (toSubmission js d).draft ↔
      (toSubmission js d).draft.authMechanism = .acl) := fun key => reserved_mem_used js d
  generalize toSubmission js d = submission at hmode' hsecret hfits hpair ⊢
  unfold Settles
  rcases hmode' with hpreserve | hreplace
  · rw [if_pos hpreserve]
    constructor
    · rintro ⟨hgone, hkept⟩
      refine ⟨fun key hstored => ?_, fun key hused hblank hreserved => ?_⟩
      · by_cases hreserved : Reserved key
        · exact .inr hreserved
        · -- stored, it is filled in where it was left blank
          by_cases hblank : submitted submission.draft key = ""
          · refine .inl (hgone key ?_)
            rw [hsecret]
            simp [hreserved, hblank, hpreserve, hstored]
          · exact .inl (hfits key hblank)
      · have hsame := hkept key hused hblank
        rw [hsecret] at hsame
        simpa [hreserved, hblank, hpreserve, (hpair key hreserved).mp hused] using hsame
    · rintro ⟨hnothingElse, htrimmed⟩
      refine ⟨fun key hafter => ?_, fun key hused hblank => ?_⟩
      · by_cases hreserved : Reserved key
        · rw [hpair key hreserved]
          by_contra hmech
          exact hafter (by rw [hsecret]; simp [hreserved, hmech])
        · by_cases hblank : submitted submission.draft key = ""
          · rw [hsecret] at hafter
            have hstored : cur.secret key ≠ "" := by
              simpa [hreserved, hblank, hpreserve] using hafter
            exact (hnothingElse key hstored).resolve_right hreserved
          · exact hfits key hblank
      · rw [hsecret]
        by_cases hreserved : Reserved key
        · simpa [hreserved, hblank, hpreserve, (hpair key hreserved).mp hused] using
            htrimmed key hused hblank hreserved
        · simp [hreserved, hblank, hpreserve]
  · have hmode : submission.credentialsMode ≠ .preserve := by simp [hreplace]
    rw [if_neg hmode]
    have hwiped : ∀ key, submitted submission.draft key = "" → r.secret key = "" := by
      intro key hblank
      rw [hsecret]
      simp [hblank, hmode]
    constructor
    · intro hsettled key hused hblank
      rw [← hsettled.kept key hused hblank]
      exact hwiped key hblank
    · intro hnothing
      refine ⟨fun key hafter => hfits key fun hblank => hafter (hwiped key hblank), ?_⟩
      intro key hused hblank
      rw [hwiped key hblank, hnothing key hused hblank]

end Edits

/-! ## An edit that leaves a token behind -/

/-- Whole numbers as the renderer reads and writes the small ones. -/
def wholeNumbers : Numbers Int where
  parseInt := String.toInt?
  text := toString
  ofInt := id
  negative := fun n => n < 0

/-- A NATS form that signs in with a token. -/
def tokenDraft : NatsDraft where
  name := "bus"
  group := ""
  remark := ""
  timeoutSec := 5
  credentialsStored := false
  clearCredentials := false
  endpoints := "nats://127.0.0.1:4222"
  mechanism := .token
  username := ""
  password := ""
  token := "t0ken"
  nkeySeed := ""
  credsFile := ""
  tls := false
  tlsCaFile := ""
  tlsCertFile := ""
  tlsKeyFile := ""
  tlsSkipVerify := false
  monitorUrl := ""
  systemUser := ""
  systemPassword := ""
  jsDomain := ""

/-- The window once it is saved. -/
def tokenSaved : Service :=
  after plainContext (new plainContext none false)
    [⟨defaultSettings, .addConnection (toInput (toSubmission wholeNumbers (.nats tokenDraft))).profile,
      noFaults⟩]

/-- The form as it is opened on it. -/
def tokenReopened : NatsDraft :=
  toNatsDraft (redactConnection ((tokenSaved.connections[(1 : Int)]?).getD (draft .nats .token)))

/-- Switched to a user and a password. -/
def accountDraft : NatsDraft :=
  { tokenReopened with mechanism := .plain, username := "ops", password := "pw" }

/-- With a monitoring address. -/
def monitoredDraft : NatsDraft :=
  { tokenReopened with monitorUrl := "http://127.0.0.1:8222" }

/-- Saving a form on the stored profile. -/
def resubmit (draft : NatsDraft) : Updated :=
  update plainContext defaultSettings 1 (toInput (toSubmission wholeNumbers (.nats draft))) noFaults
    tokenSaved

/-- **A token outlives the switch** to a user and a password. -/
theorem stale_token :
    (toSubmission wholeNumbers (.nats accountDraft)).credentialsMode ≠ .clear ∧
      (resubmit accountDraft).saved = .succeeded ∧
      ∃ cur r, tokenSaved.connections[(1 : Int)]? = some cur ∧
        (resubmit accountDraft).service.connections[(1 : Int)]? = some r ∧
        r.auth.mechanism = .plain ∧ r.secret "token" = "t0ken" ∧
        ¬ Settled cur r (toSubmission wholeNumbers (.nats accountDraft)).draft := by
  refine ⟨by decide, by decide, _, _, Option.get_mem (by decide), Option.get_mem (by decide),
    by decide, by decide, fun hsettled => ?_⟩
  have hused := hsettled.gone "token" (by decide)
  revert hused
  decide

/-- What is stored before either edit. -/
def tokenStored : ConnectionProfile :=
  (tokenSaved.connections[(1 : Int)]?).get (by decide)

theorem secret_tokenStored {key : String} (h : tokenStored.secret key ≠ "") : key = "token" := by
  have hsecrets : tokenStored.secrets = record [("token", "t0ken")] := by decide
  by_contra hne
  rw [ConnectionProfile.secret, hsecrets, getElem?_record_cons, if_neg (Ne.symm hne)] at h
  exact h (by simp [record])

/-- An edit of the monitoring address keeps it. -/
theorem update_settled_iff_monitored :
    ∃ r, (resubmit monitoredDraft).service.connections[(1 : Int)]? = some r ∧
      Settled tokenStored r (toSubmission wholeNumbers (.nats monitoredDraft)).draft := by
  have hstored : tokenSaved.connections[(1 : Int)]? = some tokenStored := by simp [tokenStored]
  obtain ⟨r, hr, hiff⟩ := update_settled_iff wholeNumbers (.nats monitoredDraft)
    (reachable_after none _ (Machine.permitted_always _ _ _)) hstored
    (by decide) (by decide : (resubmit monitoredDraft).saved = .succeeded)
  refine ⟨r, hr, hiff.mpr ?_⟩
  rw [Settles, if_pos (by decide)]
  refine ⟨fun key hkey => ?_, fun key hused _ hreserved => ?_⟩
  · rw [secret_tokenStored hkey]
    exact .inl (by decide)
  · rw [reserved_mem_used wholeNumbers (.nats monitoredDraft) hreserved] at hused
    exact absurd hused (by decide)

end MqStudio.Connection
