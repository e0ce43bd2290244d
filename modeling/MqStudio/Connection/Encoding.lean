import MqStudio.Connection.Persistence
import MqStudio.Lib.Traverse

/-!
# Writing, Reading Back and Replacing

The encoder, the credential encryption, the record compatibility rules and the load-time
normalisation, composed. All results are per field and hold for every secret value, text that
already carries the `ENC:` marker included.

## Main results

- `decodeStore_encode`: an encoded list of normal profiles decodes to itself.
- `loads_encode`: a file written for a normal store loads to that store, without its clients.
- `prepareReplacement_values`: replacing a store by its own profiles keeps everything of each
  but blanks around its name and endpoints and a mechanism that is neither ACL nor anonymous.
-/

namespace MqStudio.Connection

open MqStudio.Lib
open MqStudio.Lib.TreeMap
open MqStudio.Lib.Traverse
open MqStudio.Model
open MqStudio.Storage

/-! ## One credential, one record, one file -/

/-- A credential decodes to what was encoded. -/
theorem decryptSecret_encryptSecret {cipher : Cipher} {nonces : String → Option Nonce}
    {name key value : String} {stored : Option String}
    (h : encryptSecret cipher nonces key value = .ok stored) :
    ∃ text, stored = some text ∧ decryptSecret cipher name key text = .ok (some value) := by
  unfold encryptSecret at h
  cases henc : cipher.encrypt (nonces key) value key with
  | error e => rw [henc] at h; cases h
  | ok text =>
    rw [henc] at h
    cases h
    refine ⟨text, rfl, ?_⟩
    unfold decryptSecret
    by_cases hvalue : value = ""
    · subst hvalue
      rw [Cipher.encrypt_empty] at henc
      cases henc
      simp
    · obtain ⟨hmark, htext⟩ := cipher.isEncrypted_encrypt hvalue henc
      rw [if_neg (by simp [hmark, htext]), cipher.decrypt_encrypt henc]
      simp [hvalue]

/-- **Record round trip**: a normal profile decodes from its encoded record. -/
theorem decodeRecord_encodeRecord {cipher : Cipher} {nonces : Nonces} {p : ConnectionProfile}
    {record : ConnectionRecord} (hp : Normal p)
    (h : encodeRecord cipher nonces p = .ok record) : decodeRecord cipher record = .ok p := by
  unfold encodeRecord at h
  dsimp only at h
  cases hsecrets : rangeUpdate (encryptSecret cipher (nonces p.id))
      (newConnectionRecord p).secrets with
  | error e => rw [hsecrets] at h; cases h
  | ok stored =>
    rw [hsecrets] at h
    cases h
    -- the record is that of the profile with its secrets encrypted
    have hrecord : ({ newConnectionRecord p with secrets := stored } : ConnectionRecord).profile =
        { p with secrets := stored } :=
      ConnectionProfile.profile_newConnectionRecord { p with secrets := stored } hp.kind
        hp.mechanism
    have hback : rangeUpdate (decryptSecret cipher p.name) stored = .ok p.secrets :=
      rangeUpdate_roundTrip hsecrets fun key value r _ hr => decryptSecret_encryptSecret hr
    unfold decodeRecord
    simp only [hrecord, hback]

/-- **File round trip**: what is encoded for normal profiles decodes to them, in order. -/
theorem decodeStore_encode {cipher : Cipher} {nonces : Nonces} {ps : List ConnectionProfile}
    {data : Document Store} (hps : ∀ p ∈ ps, Normal p)
    (h : encodeConnectionsForDisk cipher nonces ps = .ok data) :
    decodeStore cipher data = .ok ps := by
  unfold encodeConnectionsForDisk at h
  cases hrecords : ps.mapM (encodeRecord cipher nonces) with
  | error e => rw [hrecords] at h; cases h
  | ok records =>
    rw [hrecords] at h
    cases h
    simp only [decodeStore, Document.unmarshal_marshal, filterMap_id_map_some]
    exact mapM_roundTrip hrecords fun p hp record hrecord =>
      decodeRecord_encodeRecord (hps p hp) hrecord

/-- Encoding succeeds once every nonblank credential gets its nonce. -/
theorem encodeConnectionsForDisk_total (cipher : Cipher) {nonces : Nonces}
    (ps : List ConnectionProfile) (h : ∀ id key, (nonces id key).isSome) :
    ∃ data, encodeConnectionsForDisk cipher nonces ps = .ok data := by
  have hrecord : ∀ p, ∃ record, encodeRecord cipher nonces p = .ok record := by
    intro p
    have hsecret : ∀ key value, ∃ r, encryptSecret cipher (nonces p.id) key value = .ok r := by
      intro key value
      obtain ⟨nonce, hnonce⟩ := Option.isSome_iff_exists.mp (h p.id key)
      unfold encryptSecret Cipher.encrypt
      rw [hnonce]
      by_cases hvalue : value = ""
      · exact ⟨some "", by simp [hvalue]⟩
      · exact ⟨_, by rw [if_neg hvalue]⟩
    obtain ⟨secrets, hsecrets⟩ := rangeUpdate_total (m := (newConnectionRecord p).secrets)
      fun key value _ => hsecret key value
    exact ⟨{ newConnectionRecord p with secrets := secrets }, by
      unfold encodeRecord
      simp only [hsecrets]⟩
  have hrecords : ps.mapM (encodeRecord cipher nonces) =
      .ok (ps.map fun p => (hrecord p).choose) :=
    mapM_ok_of_forall ps fun p _ => (hrecord p).choose_spec
  exact ⟨_, by rw [encodeConnectionsForDisk, hrecords]⟩

/-! ## What a file loads to -/

/-- What `New` over a readable file puts in memory. -/
def loads (cipher : Cipher) (data : Document Store) : Except ConnectionError Profiles :=
  match decodeStore cipher data with
  | .error e => .error e
  | .ok connections => .ok (buildConnectionState connections).1

/-- **Store round trip**: a file written for a normal store loads to that store. -/
theorem loads_encode {cipher : Cipher} {nonces : Nonces} {connections : Profiles} {nextID : Int}
    {data : Document Store} (h : StoreInvariant connections nextID)
    (hnormal : AllNormal connections)
    (hdata : encodeConnectionsForDisk cipher nonces (copyConnectionsSorted connections) = .ok data) :
    loads cipher data = .ok (atRest connections) := by
  have hdecode : decodeStore cipher data = .ok (values connections) :=
    decodeStore_encode (fun p hp => by
      obtain ⟨id, hid⟩ := mem_values.mp hp
      exact hnormal id p hid) hdata
  rw [loads, hdecode]
  dsimp only
  rw [buildConnectionState_values h hnormal]

/-- The profiles a stored file decodes to name their family and their mechanism, so what a
    file loads to is normal. -/
theorem loads_normal {cipher : Cipher} {data : Document Store} {connections : Profiles}
    (h : loads cipher data = .ok connections) : AllNormal connections := by
  unfold loads at h
  cases hdecode : decodeStore cipher data with
  | error e => rw [hdecode] at h; cases h
  | ok ps =>
    rw [hdecode] at h
    cases h
    refine buildConnectionState_allNormal ps fun p hp => ?_
    unfold decodeStore at hdecode
    cases hdata : data.unmarshal with
    | none => rw [hdata] at hdecode; cases hdecode
    | some persisted =>
      rw [hdata] at hdecode
      obtain ⟨record, _, hrecord⟩ := exists_of_mem_mapM hdecode p hp
      unfold decodeRecord at hrecord
      dsimp only at hrecord
      split at hrecord
      · cases hrecord
      · cases hrecord
        exact ⟨ConnectionProfile.kind_profile record, ConnectionProfile.mechanism_profile record⟩

/-! ## Preparing any replacement -/

/-- A prepared profile keeps its family and names a mechanism. -/
theorem prepareProfile_named {policy : EndpointPolicy} {p q : ConnectionProfile}
    (h : prepareProfile policy p = .ok q) : q.kind = p.kind ∧ q.auth.mechanism ≠ .blank := by
  unfold prepareProfile at h
  split at h
  · cases h
  · split at h
    · cases h
    · rename_i enabled ak sk _
      cases h
      refine ⟨?_, ?_⟩
      · rw [ConnectionProfile.setACL_eq]
        rfl
      · show (ConnectionProfile.setACL _ enabled ak sk).auth.mechanism ≠ .blank
        rw [ConnectionProfile.setACL_mechanism]
        cases enabled <;> exact nofun

/-- **What a replacement is prepared to**: the profiles of a store that satisfies the
    invariant, and of a normal one when every profile names its family. -/
theorem prepareReplacement_spec {policy : EndpointPolicy}
    {connections : List (Option ConnectionProfile)} {prepared : List ConnectionProfile}
    (h : prepareReplacement policy connections = .ok prepared) :
    ∃ (store : Profiles) (nextID : Int), prepared = values store ∧ StoreInvariant store nextID ∧
      ((∀ p, some p ∈ connections → p.kind ≠ .unset) → AllNormal store) := by
  unfold prepareReplacement at h
  cases hprofiles : (connections.filterMap id).mapM (prepareProfile policy) with
  | error e => rw [hprofiles] at h; cases h
  | ok profiles =>
    rw [hprofiles] at h
    cases h
    refine ⟨_, _, rfl, buildConnectionState_storeInvariant profiles, fun hnamed => ?_⟩
    refine buildConnectionState_allNormal profiles fun q hq => ?_
    obtain ⟨p, hp, hprepared⟩ := exists_of_mem_mapM hprofiles q hq
    obtain ⟨hkind, hmech⟩ := prepareProfile_named hprepared
    obtain ⟨o, ho, hsome⟩ := List.mem_filterMap.mp hp
    rw [id_eq] at hsome
    subst hsome
    exact ⟨hkind ▸ hnamed p ho, hmech⟩

/-! ## Replacing a store by its own profiles -/

/-- The form accepts the profile. -/
def Accepted (policy : EndpointPolicy) (p : ConnectionProfile) : Prop :=
  validateConnectionFields policy p.kind p.name p.endpoints p.timeoutSec =
    .ok (trimSpace p.name, trimSpace p.endpoints)

instance (policy : EndpointPolicy) (p : ConnectionProfile) : Decidable (Accepted policy p) :=
  inferInstanceAs (Decidable (_ = _))

/-- The form accepts every profile of a store. -/
def AllAccepted (policy : EndpointPolicy) (connections : Profiles) : Prop :=
  ∀ (id : Int) (p : ConnectionProfile), connections[id]? = some p → Accepted policy p

/-- What a replacement makes of a normal profile the form accepts: its name and endpoints are
    trimmed, and a mechanism other than ACL becomes anonymous. -/
def replaced (p : ConnectionProfile) : ConnectionProfile :=
  { (if p.aclEnabled then p else p.withMechanism .none).atRest with
    name := trimSpace p.name
    endpoints := trimSpace p.endpoints }

@[simp] theorem replaced_id (p : ConnectionProfile) : (replaced p).id = p.id := by
  unfold replaced
  split <;> rfl

@[simp] theorem replaced_isDefault (p : ConnectionProfile) :
    (replaced p).isDefault = p.isDefault := by
  unfold replaced
  split <;> rfl

@[simp] theorem replaced_atRest (p : ConnectionProfile) : (replaced p).atRest = replaced p := rfl

/-- A replacement keeps the profile: nothing to trim, and the mechanism is ACL or none. -/
structure Kept (p : ConnectionProfile) : Prop where
  name : trimSpace p.name = p.name
  endpoints : trimSpace p.endpoints = p.endpoints
  mechanism : p.auth.mechanism = .acl ∨ p.auth.mechanism = .none

instance (p : ConnectionProfile) : Decidable (Kept p) :=
  decidable_of_iff
    (trimSpace p.name = p.name ∧ trimSpace p.endpoints = p.endpoints ∧
      (p.auth.mechanism = .acl ∨ p.auth.mechanism = .none))
    ⟨fun h => ⟨h.1, h.2.1, h.2.2⟩, fun h => ⟨h.name, h.endpoints, h.mechanism⟩⟩

/-- **What a replacement keeps**: exactly the profiles of `Kept` come back as they were. -/
theorem replaced_eq_atRest_iff (p : ConnectionProfile) : replaced p = p.atRest ↔ Kept p := by
  constructor
  · intro h
    refine ⟨congrArg ConnectionProfile.name h, congrArg ConnectionProfile.endpoints h, ?_⟩
    by_cases hacl : p.auth.mechanism = .acl
    · exact .inl hacl
    · right
      have hmech : (replaced p).auth.mechanism = p.auth.mechanism :=
        congrArg (fun q => q.auth.mechanism) h
      unfold replaced at hmech
      rw [if_neg (by rw [p.aclEnabled_iff]; exact hacl)] at hmech
      exact hmech.symm
  · rintro ⟨hname, hendpoints, hmech⟩
    unfold replaced
    rw [hname, hendpoints]
    rcases hmech with hacl | hnone
    · rw [if_pos (p.aclEnabled_iff.mpr hacl)]
      rfl
    · rw [if_neg (by rw [p.aclEnabled_iff, hnone]; decide)]
      show ({ p with auth := ⟨.none⟩, status := .offline, lastCheck := "-" } :
        ConnectionProfile) = p.atRest
      rw [← hnone]
      rfl

theorem normal_replaced {p : ConnectionProfile} (h : Normal p) : Normal (replaced p) := by
  unfold replaced
  cases hacl : p.aclEnabled with
  | true => exact h.congr rfl rfl rfl rfl
  | false =>
    rw [if_neg (by decide)]
    exact ⟨h.kind, h.group, nofun, nofun, fun _ => h.disabled hacl⟩

/-- What validation returns is the trimmed name and endpoints. -/
theorem accepted_of_ok {policy : EndpointPolicy} {p : ConnectionProfile} {r : String × String}
    (h : validateConnectionFields policy p.kind p.name p.endpoints p.timeoutSec = .ok r) :
    Accepted policy p ∧ r = (trimSpace p.name, trimSpace p.endpoints) := by
  have hr : r = (trimSpace p.name, trimSpace p.endpoints) := by
    unfold validateConnectionFields at h
    dsimp only at h
    split at h
    · cases h
    · split at h
      · cases h
      · split at h
        · cases h
        · cases h
          rfl
  rw [hr] at h
  exact ⟨h, hr⟩

/-- Preparing a normal profile the form accepts. -/
theorem prepareProfile_normal {policy : EndpointPolicy} {p : ConnectionProfile} (h : Normal p)
    (haccepted : Accepted policy p) : prepareProfile policy p = .ok (replaced p) := by
  unfold prepareProfile replaced
  rw [haccepted]
  cases hacl : p.aclEnabled with
  | true =>
    have hmech := p.aclEnabled_iff.mp hacl
    have henabled := h.enabled hacl
    obtain ⟨hconfig, hak, hsk⟩ := normalizeACLConfig_true_ok henabled
    simp only [Prod.mk.injEq, true_and] at hconfig
    have hsecrets := p.setACL_true_secrets_of_held
      (by rw [hconfig.1]; exact hak) (by rw [hconfig.2]; exact hsk)
    rw [henabled]
    dsimp only
    rw [h.group, ConnectionProfile.setACL_eq]
    show Except.ok { p with
      name := trimSpace p.name
      endpoints := trimSpace p.endpoints
      auth := ⟨.acl⟩
      secrets := (p.setACL true (p.secret secretAccessKey) (p.secret secretSecretKey)).secrets
      status := .offline
      lastCheck := "-" } = _
    rw [hsecrets, ← hmech]
    rfl
  | false =>
    obtain ⟨hak, hsk⟩ := h.disabled hacl
    rw [normalizeACLConfig_false]
    dsimp only
    rw [h.group, ConnectionProfile.setACL_eq]
    show Except.ok { p with
      name := trimSpace p.name
      endpoints := trimSpace p.endpoints
      auth := ⟨.none⟩
      secrets := (p.setACL false "" "").secrets
      status := .offline
      lastCheck := "-" } = _
    rw [p.setACL_false_secrets_of_absent "" "" hak hsk]
    rfl

/-- Only profiles the form accepts are prepared. -/
theorem accepted_of_prepareProfile {policy : EndpointPolicy} {p q : ConnectionProfile}
    (h : prepareProfile policy p = .ok q) : Accepted policy p := by
  unfold prepareProfile at h
  cases hfields : validateConnectionFields policy p.kind p.name p.endpoints p.timeoutSec with
  | error e =>
    rw [hfields] at h
    cases h
  | ok r => exact (accepted_of_ok hfields).1

section Replaced

variable {policy : EndpointPolicy} {connections : Profiles} {nextID : Int}

/-- Every profile of a store as a replacement leaves it. -/
def allReplaced (connections : Profiles) : Profiles :=
  connections.map fun _ p => replaced p

@[simp] theorem getElem?_allReplaced (connections : Profiles) (id : Int) :
    (allReplaced connections)[id]? = connections[id]?.map replaced := by
  simp [allReplaced]

theorem AllNormal.allReplaced (h : AllNormal connections) :
    AllNormal (allReplaced connections) := by
  intro k q hq
  rw [getElem?_allReplaced, Option.map_eq_some_iff] at hq
  obtain ⟨p, hp, rfl⟩ := hq
  exact normal_replaced (h k p hp)

theorem StoreInvariant.allReplaced (h : StoreInvariant connections nextID) :
    StoreInvariant (allReplaced connections) nextID := by
  have hlookup : ∀ (k : Int) (q : ConnectionProfile),
      (Connection.allReplaced connections)[k]? = some q → ∃ p, connections[k]? = some p := by
    intro k q hq
    rw [getElem?_allReplaced, Option.map_eq_some_iff] at hq
    obtain ⟨p, hp, _⟩ := hq
    exact ⟨p, hp⟩
  refine ⟨h.keyed.map replaced replaced_id, ?_, ?_, ?_, h.next⟩
  · intro k q hq
    obtain ⟨p, hp⟩ := hlookup k q hq
    exact h.positive k p hp
  · intro k q hq
    obtain ⟨p, hp⟩ := hlookup k q hq
    exact h.below k p hp
  · refine h.oneDefault.congr fun k => ?_
    rw [getElem?_allReplaced, Option.map_map]
    cases connections[k]? <;> simp

@[simp] theorem atRest_allReplaced (connections : Profiles) :
    atRest (allReplaced connections) = allReplaced connections := by
  ext1 k
  rw [getElem?_atRest, getElem?_allReplaced, Option.map_map]
  cases connections[k]? <;> rfl

/-- A replacement keeps a whole store exactly when it keeps each of its profiles. -/
theorem allReplaced_eq_atRest_iff (connections : Profiles) :
    allReplaced connections = atRest connections ↔
      ∀ (id : Int) (p : ConnectionProfile), connections[id]? = some p → Kept p := by
  constructor
  · intro h id p hp
    have hid := congrArg (fun m : Profiles => m[id]?) h
    simp only [getElem?_allReplaced, getElem?_atRest, hp, Option.map_some,
      Option.some.injEq] at hid
    exact (replaced_eq_atRest_iff p).mp hid
  · intro h
    ext1 k
    rw [getElem?_allReplaced, getElem?_atRest]
    cases hk : connections[k]? with
    | none => rfl
    | some p => exact congrArg some ((replaced_eq_atRest_iff p).mpr (h k p hk))

/-- **Replacing a store by its own profiles**: once the form accepts them all, the preparation
    hands back each profile as `replaced` leaves it. -/
theorem prepareReplacement_values (h : StoreInvariant connections nextID)
    (hnormal : AllNormal connections) (haccepted : AllAccepted policy connections) :
    prepareReplacement policy ((copyConnectionsSorted connections).map some) =
      .ok (values (allReplaced connections)) := by
  have hprepared : (values connections).mapM (prepareProfile policy) =
      .ok (values (allReplaced connections)) := by
    rw [allReplaced, values_map]
    refine mapM_ok_of_forall _ fun p hp => ?_
    obtain ⟨id, hid⟩ := mem_values.mp hp
    exact prepareProfile_normal (hnormal id p hid) (haccepted id p hid)
  unfold prepareReplacement
  rw [filterMap_id_map_some, copyConnectionsSorted, hprepared]
  dsimp only
  rw [buildConnectionState_values h.allReplaced hnormal.allReplaced, atRest_allReplaced]
  rfl

/-- A store is prepared to replace itself only if the form accepts every profile. -/
theorem allAccepted_of_prepareReplacement {prepared : List ConnectionProfile}
    (h : prepareReplacement policy ((copyConnectionsSorted connections).map some) =
      .ok prepared) : AllAccepted policy connections := by
  unfold prepareReplacement at h
  rw [filterMap_id_map_some] at h
  cases hprofiles : (copyConnectionsSorted connections).mapM (prepareProfile policy) with
  | error e =>
    rw [hprofiles] at h
    cases h
  | ok profiles =>
    intro id p hp
    obtain ⟨q, hq⟩ := forall_ok_of_mapM hprofiles p (mem_values.mpr ⟨id, hp⟩)
    exact accepted_of_prepareProfile hq

end Replaced

end MqStudio.Connection
