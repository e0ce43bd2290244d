import MqStudio.Connection.Validation

/-!
# The Profile Store on Disk

`persistence.go`: loading profiles from a stored file, normalising what was loaded, encoding
profiles for the file, and preparing a list of profiles to replace the store.

## Main results

- `buildConnectionState_storeInvariant`: whatever was loaded, the profiles in memory are keyed
  by their ids, every id is below the next free one, and exactly one profile is the default.
- `buildConnectionState_values`: loading the profiles of a normal store gives that store.
- `buildConnectionState_allNormal`: loading profiles that name family and mechanism is normal.
-/

namespace MqStudio.Connection

open MqStudio.Lib.TreeMap
open MqStudio.Model
open MqStudio.Storage

/-! ## Loading -/

/-- `currentSchemaVersion` -/
def currentSchemaVersion : Int := 1

/-- `store`: the JSON of the profile file. A null record is a `none`. -/
structure Store where
  schemaVersion : Int
  connections : List (Option ConnectionRecord)
  deriving DecidableEq

/-- The profiles in memory, by id. -/
abbrev Profiles := Map Int ConnectionProfile

/-- One credential on its way in: text without the marker passes through. -/
def decryptSecret (cipher : Cipher) (name key stored : String) :
    Except ConnectionError (Option String) :=
  if stored = "" ∨ isEncrypted stored = false then .ok (some stored)
  else
    match cipher.decrypt stored key with
    | .error e => .error (.decrypt key name e)
    | .ok plain => .ok (if plain = "" then none else some plain)

/-- One stored record as a profile with its credentials in plaintext. -/
def decodeRecord (cipher : Cipher) (record : ConnectionRecord) :
    Except ConnectionError ConnectionProfile :=
  let current := record.profile
  match rangeUpdate (decryptSecret cipher current.name) current.secrets with
  | .error e => .error e
  | .ok secrets => .ok { current with secrets := secrets }

/-- The profiles a stored file holds, before normalisation. -/
def decodeStore (cipher : Cipher) (data : Document Store) :
    Except ConnectionError (List ConnectionProfile) :=
  match data.unmarshal with
  | none => .error .malformed
  | some persisted => (persisted.connections.filterMap id).mapM (decodeRecord cipher)

/-- The key pair a loaded profile keeps: complete and trimmed, or none at all. -/
def loadedACL (current : ConnectionProfile) : Bool × String × String :=
  match normalizeACLConfig current.aclEnabled (current.secret secretAccessKey)
    (current.secret secretSecretKey) with
  | .ok config => config
  | .error _ => (false, "", "")

/-- What loading makes of one profile apart from its id and its default flag. `SetACL` files a
    connection without ACL as anonymous; another family's mechanism survives the load. -/
def normalizeLoaded (connection : ConnectionProfile) : ConnectionProfile :=
  let current :=
    { connection with group := normalizeConnectionGroup connection.group }.atRest
  let acl := loadedACL connection
  if !acl.1 ∧ connection.auth.mechanism ≠ .acl then
    (current.setACL acl.1 acl.2.1 acl.2.2).withMechanism connection.auth.mechanism
  else current.setACL acl.1 acl.2.1 acl.2.2

/-- The variables of the loading loop. -/
structure LoadState where
  loaded : Profiles
  nextID : Int
  hasDefault : Bool

/-- The id a loaded profile is filed under, and the next free one: an id that is not positive
    or is taken already is replaced. -/
def assignID (st : LoadState) (id : Int) : Int × Int :=
  let id := if id ≤ 0 then st.nextID else id
  let nextID := if id ≥ st.nextID then id + 1 else st.nextID
  if st.loaded.contains id then (nextID, nextID + 1) else (id, nextID)

/-- One turn of the loading loop. The first default stays the default. -/
def loadStep (st : LoadState) (connection : ConnectionProfile) : LoadState :=
  let (id, nextID) := assignID st connection.id
  let current := normalizeLoaded { connection with id := id }
  { loaded := st.loaded.insert id
      { current with isDefault := current.isDefault && !st.hasDefault }
    nextID := nextID
    hasDefault := st.hasDefault || current.isDefault }

/-- `sortedConnectionIDs` -/
def sortedConnectionIDs (connections : Profiles) : List Int :=
  connections.keys

/-- `copyConnectionsSorted`: maps are kept in id order, so these are their values. -/
def copyConnectionsSorted (connections : Profiles) : List ConnectionProfile :=
  values connections

/-- `buildConnectionState`: a store without a default makes its lowest id the default. -/
def buildConnectionState (connections : List ConnectionProfile) : Profiles × Int :=
  let st := connections.foldl loadStep ⟨∅, 1, false⟩
  match (sortedConnectionIDs st.loaded).head? with
  | some id =>
    if st.hasDefault then (st.loaded, st.nextID)
    else (st.loaded.modify id fun p => { p with isDefault := true }, st.nextID)
  | none => (st.loaded, st.nextID)

/-! ## Encoding -/

/-- The nonces one save draws, by profile and credential. -/
abbrev Nonces := Int → String → Option Nonce

/-- One credential on its way out. -/
def encryptSecret (cipher : Cipher) (nonces : String → Option Nonce) (key value : String) :
    Except ConnectionError (Option String) :=
  match cipher.encrypt (nonces key) value key with
  | .error e => .error (.encrypt key e)
  | .ok encrypted => .ok (some encrypted)

/-- One profile as a record with its credentials encrypted. -/
def encodeRecord (cipher : Cipher) (nonces : Nonces) (connection : ConnectionProfile) :
    Except ConnectionError ConnectionRecord :=
  let record := newConnectionRecord connection
  match rangeUpdate (encryptSecret cipher (nonces connection.id)) record.secrets with
  | .error e => .error e
  | .ok secrets => .ok { record with secrets := secrets }

/-- `encodeConnectionsForDisk` -/
def encodeConnectionsForDisk (cipher : Cipher) (nonces : Nonces)
    (connections : List ConnectionProfile) : Except ConnectionError (Document Store) :=
  match connections.mapM (encodeRecord cipher nonces) with
  | .error e => .error e
  | .ok records => .ok (.marshal ⟨currentSchemaVersion, records.map some⟩)

/-! ## Preparing a replacement -/

/-- One profile of a replacement: validated, with its key pair normalised. The mechanism is
    whatever `SetACL` leaves. -/
def prepareProfile (policy : EndpointPolicy) (current : ConnectionProfile) :
    Except ConnectionError ConnectionProfile :=
  match validateConnectionFields policy current.kind current.name current.endpoints
    current.timeoutSec with
  | .error e => .error (.invalidConnection current.name e)
  | .ok (name, nameServer) =>
    match normalizeACLConfig current.aclEnabled (current.secret secretAccessKey)
      (current.secret secretSecretKey) with
    | .error e => .error (.invalidACL name e)
    | .ok (enabled, accessKey, secretKey) =>
      let current := { current with
        name := name
        endpoints := nameServer
        group := normalizeConnectionGroup current.group }
      .ok (current.setACL enabled accessKey secretKey).atRest

/-- `prepareReplacement`; a nil profile is skipped. -/
def prepareReplacement (policy : EndpointPolicy) (connections : List (Option ConnectionProfile)) :
    Except ConnectionError (List ConnectionProfile) :=
  match (connections.filterMap id).mapM (prepareProfile policy) with
  | .error e => .error e
  | .ok prepared => .ok (copyConnectionsSorted (buildConnectionState prepared).1)

/-- `ValidateConnections` -/
def validateConnections (cipher : Cipher) (policy : EndpointPolicy) (nonces : Nonces)
    (connections : List (Option ConnectionProfile)) : Except ConnectionError Unit :=
  match prepareReplacement policy connections with
  | .error e => .error e
  | .ok prepared => (encodeConnectionsForDisk cipher nonces prepared).map fun _ => ()

/-! ## The store invariant -/

/-- **Store invariant**: every profile sits under its own id, ids are positive and below the
    next free one, and a nonempty store has exactly one default. -/
structure StoreInvariant (connections : Profiles) (nextID : Int) : Prop where
  keyed : Keyed ConnectionProfile.id connections
  positive : ∀ (id : Int) (p : ConnectionProfile), connections[id]? = some p → 0 < id
  below : ∀ (id : Int) (p : ConnectionProfile), connections[id]? = some p → id < nextID
  oneDefault : OneMarked ConnectionProfile.isDefault connections
  next : 1 ≤ nextID

theorem storeInvariant_empty : StoreInvariant (∅ : Profiles) 1 where
  keyed := keyed_empty _
  positive := by simp
  below := by simp
  oneDefault := oneMarked_empty _
  next := Int.le_refl 1

/-- The next free id is free. -/
theorem StoreInvariant.fresh {connections : Profiles} {nextID : Int}
    (h : StoreInvariant connections nextID) : connections[nextID]? = none := by
  cases hp : connections[nextID]? with
  | none => rfl
  | some p => exact absurd (h.below nextID p hp) (Int.lt_irrefl nextID)

/-- The loading loop's half of the store invariant, with the flag that says whether a default
    was seen. -/
structure LoadInvariant (st : LoadState) : Prop where
  keyed : Keyed ConnectionProfile.id st.loaded
  positive : ∀ (id : Int) (p : ConnectionProfile), st.loaded[id]? = some p → 0 < id
  below : ∀ (id : Int) (p : ConnectionProfile), st.loaded[id]? = some p → id < st.nextID
  next : 1 ≤ st.nextID
  seen : st.hasDefault = true → ∃! id, MarkedAt ConnectionProfile.isDefault st.loaded id
  unseen : st.hasDefault = false → ∀ id, ¬ MarkedAt ConnectionProfile.isDefault st.loaded id

/-- The assigned id is new, positive and below the next free one, which never goes back. -/
theorem assignID_spec {st : LoadState} (h : LoadInvariant st) (id : Int) :
    st.loaded[(assignID st id).1]? = none ∧ 0 < (assignID st id).1 ∧
      (assignID st id).1 < (assignID st id).2 ∧ st.nextID ≤ (assignID st id).2 := by
  have hnext := h.next
  unfold assignID
  dsimp only
  generalize hid : (if id ≤ 0 then st.nextID else id) = id'
  have hpos : 0 < id' := by
    rw [← hid]
    split <;> omega
  generalize hn : (if id' ≥ st.nextID then id' + 1 else st.nextID) = next'
  have hbounds : id' < next' ∧ st.nextID ≤ next' := by
    rw [← hn]
    split <;> omega
  split
  · refine ⟨?_, by omega, by omega, by omega⟩
    cases hp : st.loaded[next']? with
    | none => rfl
    | some p => exact absurd (h.below next' p hp) (by omega)
  · rename_i habsent
    refine ⟨?_, hpos, hbounds.1, hbounds.2⟩
    exact Std.ExtTreeMap.getElem?_eq_none (by simpa using habsent)

/-- Loading writes a profile's group, status, mechanism and secrets, nothing else. -/
theorem normalizeLoaded_frame (p : ConnectionProfile) :
    ∃ auth secrets, normalizeLoaded p =
      { p with
        group := normalizeConnectionGroup p.group
        status := .offline
        lastCheck := "-"
        auth := auth
        secrets := secrets } := by
  unfold normalizeLoaded
  dsimp only
  rw [ConnectionProfile.setACL_eq]
  split <;> exact ⟨_, _, rfl⟩

theorem normalizeLoaded_id (p : ConnectionProfile) : (normalizeLoaded p).id = p.id := by
  obtain ⟨_, _, h⟩ := normalizeLoaded_frame p
  rw [h]

theorem normalizeLoaded_isDefault (p : ConnectionProfile) :
    (normalizeLoaded p).isDefault = p.isDefault := by
  obtain ⟨_, _, h⟩ := normalizeLoaded_frame p
  rw [h]

/-- One turn of the loading loop keeps its invariant. -/
theorem loadStep_invariant {st : LoadState} (h : LoadInvariant st) (p : ConnectionProfile) :
    LoadInvariant (loadStep st p) := by
  obtain ⟨hfresh, hpos, hlt, hmono⟩ := assignID_spec h p.id
  unfold loadStep
  generalize hassign : assignID st p.id = assigned at hfresh hpos hlt hmono
  obtain ⟨id, nextID⟩ := assigned
  dsimp only at hfresh hpos hlt hmono ⊢
  simp only [normalizeLoaded_isDefault]
  generalize hfiled : ({ normalizeLoaded { p with id := id } with
    isDefault := p.isDefault && !st.hasDefault } : ConnectionProfile) = filed
  have hfiledID : filed.id = id := by
    rw [← hfiled]
    exact normalizeLoaded_id _
  have hfiledDefault : filed.isDefault = (p.isDefault && !st.hasDefault) := by
    rw [← hfiled]
  have hold : ∀ (k : Int) (q : ConnectionProfile),
      (st.loaded.insert id filed)[k]? = some q → k = id ∨ st.loaded[k]? = some q := by
    intro k q hk
    rw [getElem?_insert_ite] at hk
    split at hk
    · rename_i heq
      exact .inl heq.symm
    · exact .inr hk
  refine ⟨?_, ?_, ?_, ?_, ?_, ?_⟩
  · have := h.keyed.insert filed
    rwa [hfiledID] at this
  · intro k q hk
    rcases hold k q hk with rfl | hk
    · exact hpos
    · exact h.positive k q hk
  · intro k q hk
    rcases hold k q hk with rfl | hk
    · exact hlt
    · exact Int.lt_of_lt_of_le (h.below k q hk) hmono
  · exact Int.le_trans h.next hmono
  · -- a default was seen before this profile, or this profile is the first
    intro hseen
    cases hbefore : st.hasDefault with
    | true =>
      obtain ⟨k, hk, huniq⟩ := h.seen hbefore
      have hmarked : ∀ k', MarkedAt ConnectionProfile.isDefault (st.loaded.insert id filed) k' ↔
          MarkedAt ConnectionProfile.isDefault st.loaded k' := by
        intro k'
        simp only [MarkedAt, getElem?_insert_ite]
        split
        · rename_i heq
          subst heq
          simp [hfresh, hfiledDefault, hbefore]
        · rfl
      exact ⟨k, (hmarked k).mpr hk, fun k' hk' => huniq k' ((hmarked k').mp hk')⟩
    | false =>
      have hp : p.isDefault = true := by simpa [hbefore] using hseen
      refine ⟨id, ⟨filed, by simp, by simp [hfiledDefault, hp, hbefore]⟩, ?_⟩
      rintro k' ⟨q, hq, hmark⟩
      rcases hold k' q hq with rfl | hq
      · rfl
      · exact absurd ⟨q, hq, hmark⟩ (h.unseen hbefore k')
  · intro hunseen k' hk'
    simp only [Bool.or_eq_false_iff] at hunseen
    obtain ⟨q, hq, hmark⟩ := hk'
    rw [getElem?_insert_ite] at hq
    split at hq
    · cases hq
      rw [hfiledDefault, hunseen.2] at hmark
      simp at hmark
    · exact h.unseen hunseen.1 k' ⟨q, hq, hmark⟩

/-- The whole loop keeps its invariant. -/
theorem foldl_loadStep_invariant (connections : List ConnectionProfile) {st : LoadState}
    (h : LoadInvariant st) : LoadInvariant (connections.foldl loadStep st) := by
  induction connections generalizing st with
  | nil => exact h
  | cons p rest ih => exact ih (loadStep_invariant h p)

theorem loadInvariant_start : LoadInvariant ⟨∅, 1, false⟩ where
  keyed := keyed_empty _
  positive := by simp
  below := by simp
  next := Int.le_refl 1
  seen := nofun
  unseen := by simp [MarkedAt]

/-- **Loading establishes the store invariant**, for every list of profiles: any ids, repeated
    or not positive, and any number of default flags. -/
theorem buildConnectionState_storeInvariant (connections : List ConnectionProfile) :
    StoreInvariant (buildConnectionState connections).1 (buildConnectionState connections).2 := by
  have h := foldl_loadStep_invariant connections loadInvariant_start
  unfold buildConnectionState
  generalize connections.foldl loadStep ⟨∅, 1, false⟩ = st at h
  dsimp only
  cases hhead : (sortedConnectionIDs st.loaded).head? with
  | none =>
    have hempty : st.loaded = ∅ := by
      simpa [sortedConnectionIDs, Std.ExtTreeMap.keys_eq_nil_iff] using hhead
    exact ⟨h.keyed, h.positive, h.below, hempty ▸ oneMarked_empty _, h.next⟩
  | some first =>
    dsimp only
    cases hseen : st.hasDefault with
    | true => exact ⟨h.keyed, h.positive, h.below, fun _ => h.seen hseen, h.next⟩
    | false =>
      -- no profile is marked, so marking the first leaves exactly one
      rw [if_neg (by decide)]
      have hfirst : ∃ p, st.loaded[first]? = some p := by
        have hmem : first ∈ st.loaded.keys := List.mem_of_head? hhead
        rw [Std.ExtTreeMap.mem_keys, Std.ExtTreeMap.mem_iff_isSome_getElem?] at hmem
        exact Option.isSome_iff_exists.mp hmem
      obtain ⟨p, hp⟩ := hfirst
      have hlookup : ∀ k : Int, (st.loaded.modify first
          fun p => { p with isDefault := true })[k]? =
            if first = k then some { p with isDefault := true } else st.loaded[k]? := by
        intro k
        rw [Std.ExtTreeMap.getElem?_modify]
        simp only [Std.LawfulEqCmp.compare_eq_iff_eq]
        split
        · rw [hp]
          rfl
        · rfl
      have hcase : ∀ (k : Int) (q : ConnectionProfile),
          (st.loaded.modify first fun p => { p with isDefault := true })[k]? = some q →
            (k = first ∧ q = { p with isDefault := true }) ∨ st.loaded[k]? = some q := by
        intro k q hq
        rw [hlookup] at hq
        split at hq
        · rename_i heq
          exact .inl ⟨heq.symm, (Option.some.inj hq).symm⟩
        · exact .inr hq
      refine ⟨?_, ?_, ?_, ?_, h.next⟩
      · intro k q hq
        rcases hcase k q hq with ⟨rfl, rfl⟩ | hq
        · exact h.keyed k p hp
        · exact h.keyed k q hq
      · intro k q hq
        rcases hcase k q hq with ⟨rfl, rfl⟩ | hq
        · exact h.positive k p hp
        · exact h.positive k q hq
      · intro k q hq
        rcases hcase k q hq with ⟨rfl, rfl⟩ | hq
        · exact h.below k p hp
        · exact h.below k q hq
      · intro _
        refine ⟨first, ⟨{ p with isDefault := true }, by rw [hlookup, if_pos rfl], rfl⟩, ?_⟩
        rintro k ⟨q, hq, hmark⟩
        rcases hcase k q hq with ⟨rfl, _⟩ | hq
        · rfl
        · exact absurd ⟨q, hq, hmark⟩ (h.unseen hseen k)

/-! ## Normal profiles -/

/-- A profile that loading would leave as it is, apart from its status: it names its family
    and a mechanism, its group label is collapsed, and its ACL keys are complete and trimmed
    when ACL is on and absent when it is off. -/
structure Normal (p : ConnectionProfile) : Prop where
  kind : p.kind ≠ .unset
  group : normalizeConnectionGroup p.group = p.group
  mechanism : p.auth.mechanism ≠ .blank
  enabled : p.aclEnabled = true → normalizeACLConfig true (p.secret secretAccessKey)
    (p.secret secretSecretKey) =
      .ok (true, p.secret secretAccessKey, p.secret secretSecretKey)
  disabled : p.aclEnabled = false →
    p.secrets[secretAccessKey]? = none ∧ p.secrets[secretSecretKey]? = none

/-- Whether a profile is normal depends on four of its fields. -/
theorem Normal.congr {p q : ConnectionProfile} (h : Normal p) (hkind : q.kind = p.kind)
    (hgroup : q.group = p.group) (hauth : q.auth = p.auth) (hsecrets : q.secrets = p.secrets) :
    Normal q := by
  have hsecret : ∀ key, q.secret key = p.secret key := by
    intro key
    simp only [ConnectionProfile.secret, hsecrets]
  have henabled : q.aclEnabled = p.aclEnabled := by
    simp only [ConnectionProfile.aclEnabled, hauth]
  refine ⟨hkind ▸ h.kind, hgroup ▸ h.group, hauth ▸ h.mechanism, ?_, ?_⟩
  · intro hq
    rw [hsecret, hsecret]
    exact h.enabled (henabled ▸ hq)
  · intro hq
    rw [hsecrets]
    exact h.disabled (henabled ▸ hq)

/-- The pair of a profile whose keys were just set to the outcome of `normalizeACLConfig`, and
    whose mechanism afterwards is ACL exactly when the pair was kept. -/
theorem pair_of_setACL {base p : ConnectionProfile} {enable enabled : Bool}
    {accessKey secretKey ak sk : String}
    (hconfig : normalizeACLConfig enable accessKey secretKey = .ok (enabled, ak, sk))
    (hsecrets : p.secrets = (base.setACL enabled ak sk).secrets) (hacl : p.aclEnabled = enabled) :
    (p.aclEnabled = true → normalizeACLConfig true (p.secret secretAccessKey)
        (p.secret secretSecretKey) =
          .ok (true, p.secret secretAccessKey, p.secret secretSecretKey)) ∧
      (p.aclEnabled = false →
        p.secrets[secretAccessKey]? = none ∧ p.secrets[secretSecretKey]? = none) := by
  have hsecret : ∀ key, p.secret key = (base.setACL enabled ak sk).secret key := by
    intro key
    simp only [ConnectionProfile.secret, hsecrets]
  refine ⟨?_, ?_⟩
  · intro hp
    rw [hacl] at hp
    subst hp
    cases enable with
    | false =>
      rw [normalizeACLConfig_false] at hconfig
      cases hconfig
    | true =>
      rw [hsecret, hsecret, (base.secret_setACL_true ak sk).1, (base.secret_setACL_true ak sk).2]
      have hagain := normalizeACLConfig_true_idem hconfig
      exact hagain
  · intro hp
    rw [hacl] at hp
    subst hp
    rw [hsecrets]
    exact base.setACL_false_reserved ak sk

/-- Such a profile is normal. -/
theorem normal_of_setACL {base p : ConnectionProfile} {enable enabled : Bool}
    {accessKey secretKey ak sk : String}
    (hconfig : normalizeACLConfig enable accessKey secretKey = .ok (enabled, ak, sk))
    (hsecrets : p.secrets = (base.setACL enabled ak sk).secrets)
    (hacl : p.aclEnabled = enabled) (hmech : p.auth.mechanism ≠ .blank)
    (hkind : p.kind ≠ .unset) (hgroup : normalizeConnectionGroup p.group = p.group) :
    Normal p := by
  obtain ⟨henabled, hdisabled⟩ := pair_of_setACL hconfig hsecrets hacl
  exact ⟨hkind, hgroup, hmech, henabled, hdisabled⟩

/-- `loadedACL` is an outcome of `normalizeACLConfig`. -/
theorem loadedACL_spec (p : ConnectionProfile) :
    ∃ enable, normalizeACLConfig enable (p.secret secretAccessKey) (p.secret secretSecretKey) =
      .ok (loadedACL p) ∧ ((loadedACL p).1 = true → p.aclEnabled = true) := by
  unfold loadedACL
  cases hconfig : normalizeACLConfig p.aclEnabled (p.secret secretAccessKey)
      (p.secret secretSecretKey) with
  | error e => exact ⟨false, rfl, nofun⟩
  | ok config =>
    refine ⟨p.aclEnabled, hconfig, fun henabled => ?_⟩
    cases hacl : p.aclEnabled with
    | true => rfl
    | false =>
      rw [hacl, normalizeACLConfig_false] at hconfig
      cases hconfig
      cases henabled

/-- **Loading normalises**: a loaded profile that names its family and its mechanism is
    normal, whatever its credentials were. -/
theorem normal_normalizeLoaded {p : ConnectionProfile} (hkind : p.kind ≠ .unset)
    (hmech : p.auth.mechanism ≠ .blank) : Normal (normalizeLoaded p) := by
  obtain ⟨enable, hconfig, henabled⟩ := loadedACL_spec p
  obtain ⟨auth, secrets, hframe⟩ := normalizeLoaded_frame p
  have hloadedKind : (normalizeLoaded p).kind ≠ .unset := by
    rw [hframe]
    exact hkind
  have hloadedGroup : normalizeConnectionGroup (normalizeLoaded p).group =
      (normalizeLoaded p).group := by
    rw [hframe]
    exact normalizeConnectionGroup_idem p.group
  unfold normalizeLoaded at hloadedKind hloadedGroup ⊢
  dsimp only at hloadedKind hloadedGroup ⊢
  generalize hacl : loadedACL p = acl at hloadedKind hloadedGroup hconfig henabled ⊢
  obtain ⟨enabled, ak, sk⟩ := acl
  dsimp only at hloadedKind hloadedGroup henabled ⊢
  split at hloadedKind
  · -- the mechanism that is not ACL was put back
    rename_i hcond
    obtain ⟨hoff, hnotACL⟩ := hcond
    have hoff : enabled = false := by simpa using hoff
    subst hoff
    rw [if_pos ⟨rfl, hnotACL⟩] at hloadedGroup ⊢
    refine normal_of_setACL hconfig rfl ?_ hmech hloadedKind hloadedGroup
    rw [ConnectionProfile.aclEnabled, decide_eq_false_iff_not]
    exact hnotACL
  · rename_i hcond
    rw [if_neg hcond] at hloadedGroup ⊢
    refine normal_of_setACL hconfig rfl ?_ ?_ hloadedKind hloadedGroup
    · rw [ConnectionProfile.aclEnabled, ConnectionProfile.setACL_mechanism]
      cases enabled <;> rfl
    · rw [ConnectionProfile.setACL_mechanism]
      cases enabled <;> (intro hblank; cases hblank)

/-- **Fixed points of loading**: a profile whose group and pair are as loading leaves them is
    loaded as it is, without its client. -/
theorem normalizeLoaded_of_pair {p : ConnectionProfile}
    (hlabel : normalizeConnectionGroup p.group = p.group)
    (hon : p.aclEnabled = true → normalizeACLConfig true (p.secret secretAccessKey)
      (p.secret secretSecretKey) =
        .ok (true, p.secret secretAccessKey, p.secret secretSecretKey))
    (hoff : p.aclEnabled = false →
      p.secrets[secretAccessKey]? = none ∧ p.secrets[secretSecretKey]? = none) :
    normalizeLoaded p = p.atRest := by
  have hgroup : { p with group := normalizeConnectionGroup p.group } = p := by
    rw [hlabel]
  unfold normalizeLoaded
  dsimp only
  rw [hgroup]
  cases hacl : p.aclEnabled with
  | true =>
    have hmech := p.aclEnabled_iff.mp hacl
    have henabled := hon hacl
    have hloaded : loadedACL p =
        (true, p.secret secretAccessKey, p.secret secretSecretKey) := by
      rw [loadedACL, hacl, henabled]
    obtain ⟨hconfig, hak, hsk⟩ := normalizeACLConfig_true_ok henabled
    simp only [Prod.mk.injEq, true_and] at hconfig
    rw [hloaded, if_neg (by simp)]
    dsimp only
    rw [ConnectionProfile.setACL_eq]
    have hsecrets := p.atRest.setACL_true_secrets_of_held
      (by rw [ConnectionProfile.atRest_secret, hconfig.1]; exact hak)
      (by rw [ConnectionProfile.atRest_secret, hconfig.2]; exact hsk)
    simp only [ConnectionProfile.atRest_secret] at hsecrets
    rw [hsecrets]
    simp only [if_true, ← hmech]
    rfl
  | false =>
    have hmech : p.auth.mechanism ≠ .acl := by
      intro hm
      rw [p.aclEnabled_iff.mpr hm] at hacl
      cases hacl
    have hloaded : loadedACL p = (false, "", "") := by
      rw [loadedACL, hacl, normalizeACLConfig_false]
    obtain ⟨hak, hsk⟩ := hoff hacl
    rw [hloaded, if_pos ⟨rfl, hmech⟩]
    dsimp only
    rw [ConnectionProfile.setACL_eq, p.atRest.setACL_false_secrets_of_absent "" "" hak hsk]
    rfl

theorem normalizeLoaded_of_normal {p : ConnectionProfile} (h : Normal p) :
    normalizeLoaded p = p.atRest :=
  normalizeLoaded_of_pair h.group h.enabled h.disabled

/-- What was loaded is loaded as it is. -/
theorem normalizeLoaded_loaded (p : ConnectionProfile) :
    normalizeLoaded (normalizeLoaded p) = (normalizeLoaded p).atRest := by
  obtain ⟨enable, hconfig, -⟩ := loadedACL_spec p
  obtain ⟨auth, secrets, hframe⟩ := normalizeLoaded_frame p
  have hgroup : normalizeConnectionGroup (normalizeLoaded p).group = (normalizeLoaded p).group := by
    rw [hframe]
    exact normalizeConnectionGroup_idem p.group
  suffices hpair : ∃ base : ConnectionProfile,
      (normalizeLoaded p).secrets = (base.setACL (loadedACL p).1 (loadedACL p).2.1
        (loadedACL p).2.2).secrets ∧ (normalizeLoaded p).aclEnabled = (loadedACL p).1 by
    obtain ⟨base, hsecrets, hacl⟩ := hpair
    obtain ⟨hon, hoff⟩ := pair_of_setACL hconfig hsecrets hacl
    exact normalizeLoaded_of_pair hgroup hon hoff
  refine ⟨{ p with group := normalizeConnectionGroup p.group }.atRest, ?_⟩
  unfold normalizeLoaded
  dsimp only
  split
  · rename_i hcond
    obtain ⟨hdisabled, hother⟩ := hcond
    refine ⟨rfl, ?_⟩
    have hflag : (loadedACL p).1 = false := by simpa using hdisabled
    rw [hflag]
    exact decide_eq_false hother
  · refine ⟨rfl, ?_⟩
    rw [ConnectionProfile.aclEnabled, ConnectionProfile.setACL_mechanism]
    cases (loadedACL p).1 <;> rfl

/-! ## Loading the profiles of a store -/

/-- Loading profiles with distinct positive ids, at most one of them the default, files each
    of them under its own id as it is. -/
private theorem foldl_loadStep_fixed (connections : List ConnectionProfile) (st : LoadState)
    (hpos : ∀ p ∈ connections, 0 < p.id)
    (hfixed : ∀ p ∈ connections, normalizeLoaded p = p.atRest)
    (hdistinct : connections.Pairwise fun a b => a.id ≠ b.id)
    (hone : connections.Pairwise fun a b => ¬ (a.isDefault = true ∧ b.isDefault = true))
    (hfresh : ∀ p ∈ connections, st.loaded[p.id]? = none)
    (hseen : st.hasDefault = true → ∀ p ∈ connections, p.isDefault = false) :
    (∀ p ∈ connections, (connections.foldl loadStep st).loaded[p.id]? = some p.atRest) ∧
      (∀ k, (∀ p ∈ connections, p.id ≠ k) →
        (connections.foldl loadStep st).loaded[k]? = st.loaded[k]?) ∧
      (connections.foldl loadStep st).hasDefault =
        (st.hasDefault || connections.any ConnectionProfile.isDefault) := by
  induction connections generalizing st with
  | nil => simp
  | cons p rest ih =>
    obtain ⟨hpid, hposRest⟩ := List.forall_mem_cons.mp hpos
    obtain ⟨hpfixed, hfixedRest⟩ := List.forall_mem_cons.mp hfixed
    obtain ⟨hpdistinct, hdistinctRest⟩ := List.pairwise_cons.mp hdistinct
    obtain ⟨hpone, honeRest⟩ := List.pairwise_cons.mp hone
    obtain ⟨hpfresh, hfreshRest⟩ := List.forall_mem_cons.mp hfresh
    have hassign : (assignID st p.id).1 = p.id := by
      have habsent : ¬ st.loaded.contains p.id = true := by
        rw [Std.ExtTreeMap.contains_eq_isSome_getElem?, hpfresh]
        exact nofun
      unfold assignID
      dsimp only
      rw [if_neg (Int.not_le.mpr hpid), if_neg habsent]
    have hdefault : (p.isDefault && !st.hasDefault) = p.isDefault := by
      cases hs : st.hasDefault with
      | true => simp [hseen hs p List.mem_cons_self]
      | false => simp
    have hstep : loadStep st p =
        ⟨st.loaded.insert p.id p.atRest, (assignID st p.id).2, st.hasDefault || p.isDefault⟩ := by
      unfold loadStep
      simp only [hassign]
      rw [hpfixed, ConnectionProfile.atRest_isDefault, hdefault]
      rfl
    rw [List.foldl_cons, hstep]
    obtain ⟨hin, hout, hflag⟩ := ih ⟨st.loaded.insert p.id p.atRest,
        (assignID st p.id).2, st.hasDefault || p.isDefault⟩
      hposRest hfixedRest hdistinctRest honeRest
      (fun q hq => by
        rw [getElem?_insert_of_ne _ _ (hpdistinct q hq)]
        exact hfreshRest q hq)
      (fun hs q hq => by
        rcases (Bool.or_eq_true _ _).mp hs with hs | hs
        · exact hseen hs q (List.mem_cons_of_mem _ hq)
        · have := hpone q hq
          simpa [hs] using this)
    refine ⟨?_, ?_, ?_⟩
    · intro q hq
      rcases List.mem_cons.mp hq with rfl | hq
      · rw [hout q.id fun r hr => (hpdistinct r hr).symm]
        simp
      · exact hin q hq
    · intro k hk
      rw [hout k fun q hq => hk q (List.mem_cons_of_mem _ hq),
        getElem?_insert_of_ne _ _ (hk p List.mem_cons_self)]
    · rw [hflag, List.any_cons, Bool.or_assoc]

/-- The profiles of a store are normal. -/
def AllNormal (connections : Profiles) : Prop :=
  ∀ (id : Int) (p : ConnectionProfile), connections[id]? = some p → Normal p

/-- The profiles of a store without their clients. -/
def atRest (connections : Profiles) : Profiles :=
  connections.map fun _ p => p.atRest

@[simp] theorem getElem?_atRest (connections : Profiles) (id : Int) :
    (atRest connections)[id]? = connections[id]?.map ConnectionProfile.atRest := by
  simp [atRest]

/-- At most one profile of a one-default store is the default. -/
private theorem values_one_default {connections : Profiles} {nextID : Int}
    (h : StoreInvariant connections nextID) :
    (values connections).Pairwise fun a b => ¬ (a.isDefault = true ∧ b.isDefault = true) := by
  refine (h.keyed.values_pairwise).imp_of_mem ?_
  intro a b ha hb hne hboth
  obtain ⟨i, hi⟩ := mem_values.mp ha
  obtain ⟨j, hj⟩ := mem_values.mp hb
  have hij : i = j := h.oneDefault.unique ⟨a, hi, hboth.1⟩ ⟨b, hj, hboth.2⟩
  rw [h.keyed i a hi, h.keyed j b hj] at hne
  exact hne hij

/-- **Loading a store's own profiles** gives that store back, without its clients, where loading
    each of them does. -/
theorem buildConnectionState_of_fixed {connections : Profiles} {nextID : Int}
    (h : StoreInvariant connections nextID)
    (hfixed : ∀ (id : Int) (p : ConnectionProfile), connections[id]? = some p →
      normalizeLoaded p = p.atRest) :
    (buildConnectionState (values connections)).1 = atRest connections := by
  obtain ⟨hin, hout, hflag⟩ := foldl_loadStep_fixed (values connections) ⟨∅, 1, false⟩
    (fun p hp => by
      obtain ⟨id, hid⟩ := mem_values.mp hp
      rw [h.keyed id p hid]
      exact h.positive id p hid)
    (fun p hp => by
      obtain ⟨id, hid⟩ := mem_values.mp hp
      exact hfixed id p hid)
    h.keyed.values_pairwise (values_one_default h) (by simp) nofun
  have hloaded : ((values connections).foldl loadStep ⟨∅, 1, false⟩).loaded =
      atRest connections := by
    ext1 k
    rw [getElem?_atRest]
    cases hk : connections[k]? with
    | none =>
      rw [hout k fun p hp heq => ?_]
      · simp
      · obtain ⟨id, hid⟩ := mem_values.mp hp
        rw [h.keyed id p hid] at heq
        rw [heq, hk] at hid
        cases hid
    | some p =>
      have := hin p (mem_values.mpr ⟨k, hk⟩)
      rw [h.keyed k p hk] at this
      exact this
  unfold buildConnectionState
  dsimp only
  generalize (values connections).foldl loadStep ⟨∅, 1, false⟩ = st at hflag hloaded
  split
  · rename_i first hhead
    have hne : connections ≠ ∅ := by
      rintro rfl
      have hmem : first ∈ st.loaded.keys := List.mem_of_head? hhead
      rw [Std.ExtTreeMap.mem_keys, hloaded, Std.ExtTreeMap.mem_iff_isSome_getElem?] at hmem
      simp at hmem
    obtain ⟨k, ⟨p, hp, hmark⟩, _⟩ := h.oneDefault hne
    have hhas : st.hasDefault = true := by
      rw [hflag, Bool.false_or, List.any_eq_true]
      exact ⟨p, mem_values.mpr ⟨k, hp⟩, hmark⟩
    rw [if_pos hhas]
    exact hloaded
  · exact hloaded

/-- It does where they are normal. -/
theorem buildConnectionState_values {connections : Profiles} {nextID : Int}
    (h : StoreInvariant connections nextID) (hnormal : AllNormal connections) :
    (buildConnectionState (values connections)).1 = atRest connections :=
  buildConnectionState_of_fixed h fun id p hp => normalizeLoaded_of_normal (hnormal id p hp)

/-- What was just loaded knows of no client. -/
theorem buildConnectionState_atRest (connections : List ConnectionProfile) :
    atRest (buildConnectionState connections).1 = (buildConnectionState connections).1 := by
  have hfold : ∀ (l : List ConnectionProfile) (st : LoadState),
      (∀ (id : Int) (p : ConnectionProfile), st.loaded[id]? = some p → p.atRest = p) →
      ∀ (id : Int) (p : ConnectionProfile), (l.foldl loadStep st).loaded[id]? = some p →
        p.atRest = p := by
    intro l
    induction l with
    | nil => exact fun st hst => hst
    | cons q rest ih =>
      intro st hst
      refine ih _ fun id p hp => ?_
      unfold loadStep at hp
      dsimp only at hp
      rw [getElem?_insert_ite] at hp
      split at hp
      · cases hp
        obtain ⟨_, _, hframe⟩ := normalizeLoaded_frame { q with id := (assignID st q.id).1 }
        rw [hframe]
        rfl
      · exact hst id p hp
  have hloaded := hfold connections ⟨∅, 1, false⟩ (by simp)
  have hstate : ∀ (id : Int) (p : ConnectionProfile),
      (buildConnectionState connections).1[id]? = some p → p.atRest = p := by
    unfold buildConnectionState
    dsimp only
    generalize connections.foldl loadStep ⟨∅, 1, false⟩ = st at hloaded
    split
    · split
      · exact hloaded
      · intro id p hp
        rw [Std.ExtTreeMap.getElem?_modify] at hp
        split at hp
        · obtain ⟨q, hq, rfl⟩ := Option.map_eq_some_iff.mp hp
          show { q.atRest with isDefault := true } = _
          rw [hloaded _ q hq]
        · exact hloaded id p hp
    · exact hloaded
  ext1 k
  rw [getElem?_atRest]
  cases hk : (buildConnectionState connections).1[k]? with
  | none => rfl
  | some p => exact congrArg some (hstate k p hk)

/-- Loading lists of profiles that name their family and mechanism makes a normal store. -/
theorem buildConnectionState_allNormal (connections : List ConnectionProfile)
    (h : ∀ p ∈ connections, p.kind ≠ .unset ∧ p.auth.mechanism ≠ .blank) :
    AllNormal (buildConnectionState connections).1 := by
  have hfold : ∀ (l : List ConnectionProfile) (st : LoadState), AllNormal st.loaded →
      (∀ p ∈ l, p.kind ≠ .unset ∧ p.auth.mechanism ≠ .blank) →
        AllNormal (l.foldl loadStep st).loaded := by
    intro l
    induction l with
    | nil => exact fun st hst _ => hst
    | cons p rest ih =>
      intro st hst hl
      obtain ⟨⟨hkind, hmech⟩, hrest⟩ := List.forall_mem_cons.mp hl
      refine ih _ ?_ hrest
      intro id q hq
      unfold loadStep at hq
      dsimp only at hq
      rw [getElem?_insert_ite] at hq
      split at hq
      · cases hq
        exact (normal_normalizeLoaded (p := { p with id := (assignID st p.id).1 })
          hkind hmech).congr rfl rfl rfl rfl
      · exact hst id q hq
  have hloaded := hfold connections ⟨∅, 1, false⟩ (by simp [AllNormal]) h
  unfold buildConnectionState
  dsimp only
  generalize connections.foldl loadStep ⟨∅, 1, false⟩ = st at hloaded
  split
  · split
    · exact hloaded
    · intro id q hq
      rw [Std.ExtTreeMap.getElem?_modify] at hq
      split at hq
      · obtain ⟨r, hr, rfl⟩ := Option.map_eq_some_iff.mp hq
        exact (hloaded _ r hr).congr rfl rfl rfl rfl
      · exact hloaded id q hq
  · exact hloaded

end MqStudio.Connection
