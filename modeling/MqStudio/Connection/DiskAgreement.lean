import MqStudio.Connection.StoreInvariant

/-!
# Memory and Disk

What the profile file says against what the service holds in memory, over whole runs. Every
family, every mechanism and every secret value is covered; encryption is invertible per field
by the cipher's own law.

One input is outside: `ReplaceConnections` files a profile that names no family as it is, while
loading gives such a profile the RocketMQ family that `AddConnection` and `ConnectionRecord.Profile`
give it on every other path.

## Main results

- `perform_allNormal`: the profiles in memory stay fixed points of loading.
- `memory_agrees_with_disk`: a save that succeeded wrote exactly the profiles in memory, and one
  that failed changed nothing.
- `blank_family_disagrees`: the disagreement after a replacement with a blank family.
-/

namespace MqStudio.Connection

open MqStudio.Driver
open MqStudio.Lib
open MqStudio.Lib.TreeMap
open MqStudio.Model
open MqStudio.Settings (AppSettings defaultSettings)
open MqStudio.Storage

/-! ## Agreement -/

/-- Loading the file into a fresh service succeeds and gives exactly the profiles in memory, up
    to their status and the time of their last check. -/
def LoadsBack (ctx : Context) (s : Service) : Prop :=
  (loadConnectionsFromFile ctx (unloaded s.file) false).map Service.connections =
    .ok (atRest s.connections)

instance (ctx : Context) (s : Service) : Decidable (LoadsBack ctx s) :=
  inferInstanceAs (Decidable (_ = _))

theorem loadsBack_iff_loads {ctx : Context} {s : Service} {data : Document Store}
    (hfile : s.file = some data) :
    LoadsBack ctx s ↔ loads ctx.cipher data = .ok (atRest s.connections) := by
  unfold LoadsBack loadConnectionsFromFile loads
  rw [hfile]
  simp only [unloaded, Bool.false_eq_true, if_false, loadConnections]
  cases decodeStore ctx.cipher data <;> rfl

/-- Agreement depends on the file and on the profiles at rest. -/
theorem LoadsBack.congr {ctx : Context} {s t : Service} (h : LoadsBack ctx s)
    (hfile : t.file = s.file) (hrest : atRest t.connections = atRest s.connections) :
    LoadsBack ctx t := by
  unfold LoadsBack
  rw [hfile, hrest]
  exact h

/-- A file that holds an encoding of the normal store in memory loads back. -/
theorem loadsBack_of_encodes {ctx : Context} {s : Service} {data : Document Store}
    (h : StoreInvariant s.connections s.nextID) (hnormal : AllNormal s.connections)
    (hdata : Encodes ctx s.connections data) (hfile : s.file = some data) : LoadsBack ctx s := by
  obtain ⟨nonces, hencode⟩ := hdata
  exact (loadsBack_iff_loads hfile).mpr (loads_encode h hnormal hencode)

/-- Recording a status changes no profile at rest. -/
theorem atRest_insert {connections : Profiles} {id : Int} {p q : ConnectionProfile}
    (hp : connections[id]? = some p) (hq : q.atRest = p.atRest) :
    atRest (connections.insert id q) = atRest connections := by
  ext1 k
  rw [getElem?_atRest, getElem?_atRest, getElem?_insert_ite]
  split
  · rename_i heq
    rw [← heq, hp, Option.map_some, Option.map_some, hq]
  · rfl

/-! ## Normal profiles in every state -/

/-- A replacement the service accepts names a family in every profile. Every other operation
    settles the family itself. -/
def Op.NamesFamilies (ctx : Context) : Op → Prop
  | .replaceConnections connections =>
    (∃ prepared, prepareReplacement ctx.endpoints connections = .ok prepared) →
      ∀ p, some p ∈ connections → p.kind ≠ .unset
  | _ => True

/-- What `applyCredentials` makes of a submission is normal. -/
theorem normal_applyCredentials {connection input : ConnectionProfile}
    {acl : Bool × String × String}
    (hconfig : normalizeACLConfig input.aclEnabled (input.secret secretAccessKey)
      (input.secret secretSecretKey) = .ok acl)
    (hkind : connection.kind ≠ .unset)
    (hgroup : normalizeConnectionGroup connection.group = connection.group) :
    Normal (applyCredentials connection input acl.1 acl.2.1 acl.2.2) := by
  obtain ⟨enabled, ak, sk⟩ := acl
  have henabled : enabled = input.aclEnabled := by
    cases hacl : input.aclEnabled with
    | false =>
      rw [hacl, normalizeACLConfig_false] at hconfig
      cases hconfig
      rfl
    | true =>
      rw [hacl] at hconfig
      exact congrArg Prod.fst (normalizeACLConfig_true_ok hconfig).1
  unfold applyCredentials
  dsimp only
  rw [ConnectionProfile.setACL_eq]
  split
  · rename_i hcond
    obtain ⟨hoff, hmech⟩ := hcond
    refine normal_of_setACL hconfig rfl ?_ hmech hkind hgroup
    rw [henabled]
    rfl
  · refine normal_of_setACL hconfig rfl ?_ ?_ hkind hgroup
    · rw [ConnectionProfile.aclEnabled]
      cases enabled <;> rfl
    · cases enabled <;> (intro hblank; cases hblank)

/-- The family an update is checked for is the one it stores. -/
theorem updatedProfile_kind (previous input : ConnectionProfile) (name endpoints : String)
    (acl : Bool × String × String) :
    (updatedProfile previous input name endpoints acl).kind =
      if input.kind ≠ .unset then input.kind else previous.kind := by
  unfold updatedProfile applyCredentials
  dsimp only
  rw [ConnectionProfile.setACL_eq]
  split <;> rfl

theorem normal_updatedProfile {previous input : ConnectionProfile} (name endpoints : String)
    {acl : Bool × String × String} (h : Normal previous)
    (hconfig : normalizeACLConfig input.aclEnabled (input.secret secretAccessKey)
      (input.secret secretSecretKey) = .ok acl) :
    Normal (updatedProfile previous input name endpoints acl) := by
  have hkind : (if input.kind ≠ .unset then input.kind else previous.kind) ≠ .unset := by
    split
    · assumption
    · exact h.kind
  have happlied : Normal (applyCredentials (editedFields previous input name endpoints) input
      acl.1 acl.2.1 acl.2.2) :=
    normal_applyCredentials hconfig hkind (normalizeConnectionGroup_idem input.group)
  exact happlied.congr rfl rfl rfl rfl

theorem normal_addedProfile {s : Service} {input : ConnectionProfile} {kind : MQKind}
    {name endpoints : String} {acl : Bool × String × String}
    (hconfig : normalizeACLConfig input.aclEnabled (input.secret secretAccessKey)
      (input.secret secretSecretKey) = .ok acl) (hkind : kind ≠ .unset) :
    Normal (addedProfile s input kind name endpoints acl) :=
  normal_applyCredentials hconfig hkind (normalizeConnectionGroup_idem input.group)

theorem allNormal_empty : AllNormal (∅ : Profiles) := by
  intro id p hp
  simp at hp

theorem AllNormal.insert {connections : Profiles} (h : AllNormal connections) {id : Int}
    {p : ConnectionProfile} (hp : Normal p) : AllNormal (connections.insert id p) := by
  intro k q hq
  rw [getElem?_insert_ite] at hq
  split at hq
  · cases hq
    exact hp
  · exact h k q hq

theorem AllNormal.atRest {connections : Profiles} (h : AllNormal connections) :
    AllNormal (atRest connections) := by
  intro k q hq
  rw [getElem?_atRest, Option.map_eq_some_iff] at hq
  obtain ⟨p, hp, rfl⟩ := hq
  exact (h k p hp).congr rfl rfl rfl rfl

section Step

variable {ctx : Context} {settings : AppSettings}

theorem connectRuntimeLocked_allNormal {s : Service} (h : AllNormal s.connections) (id : Int)
    (faults : Faults) :
    AllNormal (connectRuntimeLocked ctx settings s id faults).1.connections := by
  rcases connectRuntimeLocked_cases ctx settings s id faults with
    hsame | ⟨p, hp, _, hdialled⟩
  · rw [hsame]
    exact h
  · rw [hdialled.connections]
    exact h.insert ((h id p hp).congr rfl rfl rfl rfl)

theorem restoreRuntimeLocked_allNormal {s : Service} (h : AllNormal s.connections) (plan : Bool)
    (faults : Faults) :
    AllNormal (restoreRuntimeLocked ctx settings s plan faults).1.connections := by
  obtain ⟨flag, hsame | hdialled⟩ :=
    restoreRuntimeLocked_cases ctx settings s plan faults
  · rw [hsame]
    exact h
  · rw [hdialled]
    exact connectRuntimeLocked_allNormal (s := { s with runtime := s.runtime.closeAll }) h
      (defaultID s.connections) faults

theorem EditStored.allNormal {s s' : Service} {id : Int} {edited : ConnectionProfile}
    {faults : Faults} {redial : Bool}
    (hstored : EditStored ctx settings s id edited faults redial s')
    (h : AllNormal s.connections) (hedited : Normal edited) : AllNormal s'.connections := by
  cases hstored with
  | kept _ => exact h.insert hedited
  | redialled _ => exact connectRuntimeLocked_allNormal (h.insert hedited) id faults

/-- The profiles a replacement leaves in memory. -/
theorem replaced_connections {connections : List (Option ConnectionProfile)}
    {prepared : List ConnectionProfile}
    (hprepared : prepareReplacement ctx.endpoints connections = .ok prepared)
    (hnamed : ∀ p, some p ∈ connections → p.kind ≠ .unset) :
    ∃ (store : Profiles) (nextID : Int), prepared = values store ∧ StoreInvariant store nextID ∧
      AllNormal store ∧ (buildConnectionState prepared).1 = atRest store := by
  obtain ⟨store, nextID, rfl, hstore, hnormal⟩ := prepareReplacement_spec hprepared
  exact ⟨store, nextID, rfl, hstore, hnormal hnamed,
    buildConnectionState_values hstore (hnormal hnamed)⟩

/-- What a file loads to is normal. -/
theorem loaded_allNormal {data : Document Store} {ps : List ConnectionProfile}
    (hdecode : decodeStore ctx.cipher data = .ok ps) :
    AllNormal (buildConnectionState ps).1 := by
  have hloads : loads ctx.cipher data = .ok (buildConnectionState ps).1 := by
    rw [loads, hdecode]
  exact loads_normal hloads

/-- **One operation keeps every profile normal**, as long as a replacement names families. -/
theorem perform_allNormal (ctx : Context) (settings : AppSettings) {s : Service}
    (hstore : StoreInvariant s.connections s.nextID) (h : AllNormal s.connections) (op : Op)
    (hop : op.NamesFamilies ctx) (faults : Faults) :
    AllNormal (perform ctx settings op faults s).service.connections := by
  cases op with
  | addConnection input =>
    rcases addConnection_cases ctx hstore input faults with ⟨hsame, _⟩ |
      ⟨kind, name, endpoints, acl, data, hkind, _, hacl, _, _, hadded⟩
    · simp only [perform]
      rw [hsame]
      exact h
    · simp only [perform, hadded]
      exact h.insert (normal_addedProfile hacl hkind)
  | updateConnection id input =>
    rcases updateConnection_cases ctx settings s id input faults with
      ⟨hsame, _⟩ | ⟨previous, name, endpoints, acl, edited, hp, _, hacl, rfl, _, hstored⟩
    · simp only [perform]
      rw [hsame]
      exact h
    · simp only [perform]
      refine hstored.allNormal h ?_
      have hnormal := normal_updatedProfile name endpoints
        (h id previous hp) hacl
      split
      · exact hnormal.congr rfl rfl rfl rfl
      · exact hnormal
  | setOption id key value =>
    rcases setOption_cases ctx settings s id key value faults with
      ⟨hsame, _⟩ | ⟨previous, options, hp, _, hstored⟩
    · simp only [perform]
      rw [hsame]
      exact h
    · simp only [perform]
      exact hstored.allNormal h ((h id previous hp).congr rfl rfl rfl rfl)
  | deleteConnection id =>
    rcases deleteConnection_cases ctx s id faults with ⟨hsame, _⟩ |
      ⟨deleted, data, _, _, _, _, hdeleted⟩
    · simp only [perform]
      rw [hsame]
      exact h
    · simp only [perform, hdeleted]
      intro k q hq
      rw [Std.ExtTreeMap.getElem?_erase] at hq
      split at hq
      · cases hq
      · exact h k q hq
  | setDefaultConnection id =>
    rcases setDefaultConnection_cases ctx hstore id faults with ⟨hsame, _⟩ |
      ⟨chosen, data, _, _, _, hchosen⟩
    · simp only [perform]
      rw [hsame]
      exact h
    · simp only [perform, hchosen]
      intro k q hq
      rw [getElem?_withDefault, Option.map_eq_some_iff] at hq
      obtain ⟨p, hp, rfl⟩ := hq
      exact (h k p hp).congr rfl rfl rfl rfl
  | replaceConnections connections =>
    rcases replaceConnections_cases ctx settings connections s faults with ⟨hsame, _⟩ |
      ⟨prepared, data, plan, hprepared, _, _, hreplaced⟩
    · simp only [perform]
      rw [hsame]
      exact h
    · simp only [perform, hreplaced]
      obtain ⟨store, _, _, _, hnormal, hbuilt⟩ :=
        replaced_connections hprepared (hop ⟨prepared, hprepared⟩)
      refine restoreRuntimeLocked_allNormal ?_ plan faults
      rw [hbuilt]
      exact hnormal.atRest
  | reload =>
    rcases reload_cases ctx settings s faults with hsame | ⟨loaded, plan, hload, hreloaded⟩
    · simp only [perform]
      rw [hsame]
      exact h
    · simp only [perform, hreloaded]
      refine restoreRuntimeLocked_allNormal ?_ plan faults
      rcases loadConnectionsFromFile_cases ctx s faults.readFails with ⟨e, herr⟩ | ⟨_, hok⟩ |
        ⟨data, ps, _, hdecode, hok⟩
      · rw [hload] at herr
        cases herr
      · rw [hload] at hok
        cases hok
        exact h
      · rw [hload] at hok
        cases hok
        exact loaded_allNormal hdecode
  | connect id => exact connectRuntimeLocked_allNormal h id faults
  | connectDefault =>
    simp only [perform, connectDefault]
    split
    · exact h
    · exact connectRuntimeLocked_allNormal h (defaultID s.connections) faults
  | disconnect id =>
    rcases disconnect_cases ctx s id faults with hsame | ⟨p, hp, hconnections, _⟩
    · simp only [perform]
      rw [hsame]
      exact h
    · simp only [perform, hconnections]
      exact h.insert ((h id p hp).congr rfl rfl rfl rfl)
  | testConnection id =>
    rcases testConnection_cases s id faults with hsame | ⟨p, hp, htested⟩
    · simp only [perform]
      rw [hsame]
      exact h
    · simp only [perform, htested]
      exact h.insert ((h id p hp).congr rfl rfl rfl rfl)

/-! ## What a save leaves behind -/

/-- Dialling keeps memory and file in agreement, whether or not the status could be saved. -/
theorem connectRuntimeLocked_loadsBack {s : Service}
    (hstore : StoreInvariant s.connections s.nextID) (hnormal : AllNormal s.connections)
    (h : LoadsBack ctx s) (id : Int) (faults : Faults) :
    LoadsBack ctx (connectRuntimeLocked ctx settings s id faults).1 := by
  rcases connectRuntimeLocked_cases ctx settings s id faults with
    hsame | ⟨p, hp, _, hdialled⟩
  · rw [hsame]
    exact h
  · rcases hdialled.file with hfile | ⟨data, hdata, hfile⟩
    · refine h.congr hfile ?_
      rw [hdialled.connections]
      exact atRest_insert hp rfl
    · exact loadsBack_of_encodes (connectRuntimeLocked_storeInvariant hstore id faults)
        (connectRuntimeLocked_allNormal hnormal id faults) hdata hfile

theorem restoreRuntimeLocked_loadsBack {s : Service}
    (hstore : StoreInvariant s.connections s.nextID) (hnormal : AllNormal s.connections)
    (h : LoadsBack ctx s) (plan : Bool) (faults : Faults) :
    LoadsBack ctx (restoreRuntimeLocked ctx settings s plan faults).1 := by
  obtain ⟨flag, hsame | hdialled⟩ :=
    restoreRuntimeLocked_cases ctx settings s plan faults
  · rw [hsame]
    exact h
  · rw [hdialled]
    exact connectRuntimeLocked_loadsBack (s := { s with runtime := s.runtime.closeAll }) hstore
      hnormal h (defaultID s.connections) faults

/-- Storing an edit leaves memory and file in agreement. -/
theorem EditStored.loadsBack {s s' : Service} {id : Int} {p edited : ConnectionProfile}
    {faults : Faults} {redial : Bool}
    (hstored : EditStored ctx settings s id edited faults redial s')
    (hstore : StoreInvariant s.connections s.nextID) (hnormal : AllNormal s.connections)
    (hp : s.connections[id]? = some p) (hid : edited.id = p.id)
    (hdefault : edited.isDefault = p.isDefault) (hedited : Normal edited) : LoadsBack ctx s' := by
  have hstore' := hstore.edit hp hid hdefault
  have hnormal' : AllNormal (s.connections.insert id edited) := hnormal.insert hedited
  cases hstored with
  | kept hdata => exact loadsBack_of_encodes hstore' hnormal' hdata rfl
  | redialled hdata =>
    exact connectRuntimeLocked_loadsBack hstore' hnormal'
      (loadsBack_of_encodes hstore' hnormal' hdata rfl) id faults

/-- **A save that succeeded wrote the profiles in memory**: the operation leaves a file that
    loads back. -/
theorem perform_saved_loadsBack {s : Service} (hstore : StoreInvariant s.connections s.nextID)
    (hnormal : AllNormal s.connections) {op : Op} (hop : op.NamesFamilies ctx) (faults : Faults)
    (hsaved : (perform ctx settings op faults s).saved = .succeeded) :
    LoadsBack ctx (perform ctx settings op faults s).service := by
  cases op with
  | addConnection input =>
    rcases addConnection_cases ctx hstore input faults with ⟨_, hnot⟩ |
      ⟨kind, name, endpoints, acl, data, hkind, _, hacl, hdata, _, hadded⟩
    · exact absurd hsaved hnot
    · obtain ⟨hid, hdefault, _⟩ := addedProfile_frame s input kind name endpoints acl
      simp only [perform, hadded]
      exact loadsBack_of_encodes (hstore.add hid hdefault)
        (hnormal.insert (normal_addedProfile hacl hkind)) hdata rfl
  | updateConnection id input =>
    rcases updateConnection_cases ctx settings s id input faults with
      ⟨_, hnot⟩ | ⟨previous, name, endpoints, acl, edited, hp, _, hacl, rfl, _, hstored⟩
    · exact absurd hsaved hnot
    · obtain ⟨hid, hdefault, _⟩ := updatedProfile_frame previous input name endpoints acl
      have hedited := normal_updatedProfile name endpoints
        (hnormal id previous hp) hacl
      refine hstored.loadsBack hstore hnormal hp ?_ ?_ ?_
      · split <;> exact hid
      · split <;> exact hdefault
      · split
        · exact hedited.congr rfl rfl rfl rfl
        · exact hedited
  | setOption id key value =>
    rcases setOption_cases ctx settings s id key value faults with
      ⟨_, hnot⟩ | ⟨previous, options, hp, _, hstored⟩
    · exact absurd hsaved hnot
    · exact hstored.loadsBack hstore hnormal hp rfl rfl
        ((hnormal id previous hp).congr rfl rfl rfl rfl)
  | deleteConnection id =>
    rcases deleteConnection_cases ctx s id faults with ⟨_, hnot⟩ |
      ⟨deleted, data, hp, hlast, hdata, _, hdeleted⟩
    · exact absurd hsaved hnot
    · have hnormal' := perform_allNormal ctx settings hstore hnormal
        (.deleteConnection id) trivial faults
      simp only [perform, hdeleted] at hnormal' ⊢
      exact loadsBack_of_encodes (hstore.erase hp hlast) hnormal' hdata rfl
  | setDefaultConnection id =>
    rcases setDefaultConnection_cases ctx hstore id faults with ⟨_, hnot⟩ |
      ⟨chosen, data, hp, hdata, _, hchosen⟩
    · exact absurd hsaved hnot
    · have hnormal' := perform_allNormal ctx settings hstore hnormal
        (.setDefaultConnection id) trivial faults
      simp only [perform, hchosen] at hnormal' ⊢
      exact loadsBack_of_encodes (hstore.choose hp) hnormal' hdata rfl
  | replaceConnections connections =>
    rcases replaceConnections_cases ctx settings connections s faults with ⟨_, hnot, _⟩ |
      ⟨prepared, data, plan, hprepared, ⟨nonces, hdata⟩, _, hreplaced⟩
    · exact absurd hsaved hnot
    · obtain ⟨store, nextID, rfl, hbuiltStore, hbuiltNormal, hbuilt⟩ :=
        replaced_connections hprepared (hop ⟨prepared, hprepared⟩)
      simp only [perform, hreplaced]
      refine restoreRuntimeLocked_loadsBack (buildConnectionState_storeInvariant _) ?_ ?_ plan
        faults
      · rw [hbuilt]
        exact hbuiltNormal.atRest
      · refine (loadsBack_iff_loads rfl).mpr ?_
        rw [loads_encode hbuiltStore hbuiltNormal hdata]
        dsimp only
        rw [hbuilt]
        congr 1
        ext1 k
        simp only [getElem?_atRest, Option.map_map, Function.comp_def,
          ConnectionProfile.atRest_atRest]
  | reload =>
    simp only [perform, reload] at hsaved
    split at hsaved <;> cases hsaved
  | connect id => cases hsaved
  | connectDefault =>
    simp only [perform, connectDefault] at hsaved
    split at hsaved <;> cases hsaved
  | disconnect id =>
    simp only [perform, disconnect] at hsaved
    split at hsaved
    · cases hsaved
    · split at hsaved <;> cases hsaved
  | testConnection id =>
    simp only [perform, testConnection] at hsaved
    split at hsaved <;> cases hsaved

/-- **A save that failed changed nothing**: memory, statuses and default flag included, and
    file are what they were. -/
theorem perform_failed_unchanged {s : Service} (hstore : StoreInvariant s.connections s.nextID)
    (op : Op) (faults : Faults)
    (hfailed : (perform ctx settings op faults s).saved = .failed) :
    (perform ctx settings op faults s).service = s := by
  cases op with
  | addConnection input =>
    rcases addConnection_cases ctx hstore input faults with ⟨hsame, _⟩ |
      ⟨_, _, _, _, _, _, _, _, _, hsaved, _⟩
    · exact hsame
    · simp only [perform, hsaved] at hfailed
      cases hfailed
  | updateConnection id input =>
    rcases updateConnection_cases ctx settings s id input faults with
      ⟨hsame, _⟩ | ⟨_, _, _, _, _, _, _, _, _, hsaved, _⟩
    · exact hsame
    · simp only [perform, hsaved] at hfailed
      cases hfailed
  | setOption id key value =>
    rcases setOption_cases ctx settings s id key value faults with
      ⟨hsame, _⟩ | ⟨_, _, _, hsaved, _⟩
    · exact hsame
    · simp only [perform, hsaved] at hfailed
      cases hfailed
  | deleteConnection id =>
    rcases deleteConnection_cases ctx s id faults with ⟨hsame, _⟩ | ⟨_, _, _, _, _, hsaved, _⟩
    · exact hsame
    · simp only [perform, hsaved] at hfailed
      cases hfailed
  | setDefaultConnection id =>
    rcases setDefaultConnection_cases ctx hstore id faults with ⟨hsame, _⟩ |
      ⟨_, _, _, _, hsaved, _⟩
    · exact hsame
    · simp only [perform, hsaved] at hfailed
      cases hfailed
  | replaceConnections connections =>
    rcases replaceConnections_cases ctx settings connections s faults with ⟨hsame, _⟩ |
      ⟨_, _, _, _, _, hsaved, _⟩
    · exact hsame
    · simp only [perform, hsaved] at hfailed
      cases hfailed
  | reload =>
    simp only [perform, reload] at hfailed
    split at hfailed <;> cases hfailed
  | connect id => cases hfailed
  | connectDefault =>
    simp only [perform, connectDefault] at hfailed
    split at hfailed <;> cases hfailed
  | disconnect id =>
    simp only [perform, disconnect] at hfailed
    split at hfailed
    · cases hfailed
    · split at hfailed <;> cases hfailed
  | testConnection id =>
    simp only [perform, testConnection] at hfailed
    split at hfailed <;> cases hfailed

end Step

/-! ## Every run -/

/-- What loading a fresh service puts in memory is normal. -/
theorem new_allNormal (ctx : Context) (file : Option (Document Store)) (readFails : Bool) :
    AllNormal (new ctx file readFails).connections := by
  unfold new
  rcases loadConnectionsFromFile_cases ctx (unloaded file) readFails with ⟨e, herr⟩ | ⟨_, hok⟩ |
    ⟨data, ps, _, hdecode, hok⟩
  · rw [herr]
    exact allNormal_empty
  · rw [hok]
    exact allNormal_empty
  · rw [hok]
    exact loaded_allNormal hdecode

/-- In runs whose replacements name families, every profile in memory is normal. -/
theorem reachable_allNormal {ctx : Context} {s : Service}
    (hs : (window ctx).Reachable (fun _ a => a.op.NamesFamilies ctx) s) :
    AllNormal s.connections := by
  refine Machine.Reachable.invariant (fun s => AllNormal s.connections) ?_ ?_ hs
  · rintro s ⟨file, readFails, rfl⟩
    exact new_allNormal ctx file readFails
  · rintro s a t hs h hop hstep
    cases hstep
    exact perform_allNormal ctx a.settings (reachable_storeInvariant hs) h a.op hop a.faults

/-- **Memory and disk agree**: in every run whose accepted replacements name a family in every
    profile, an operation whose save succeeded leaves a file that loads to exactly the profiles
    in memory, and one whose save failed leaves memory and file exactly as they were. -/
theorem memory_agrees_with_disk {ctx : Context} {s : Service}
    (hs : (window ctx).Reachable (fun _ a => a.op.NamesFamilies ctx) s) (a : Act)
    (ha : a.op.NamesFamilies ctx) :
    ((perform ctx a.settings a.op a.faults s).saved = .succeeded →
        LoadsBack ctx (perform ctx a.settings a.op a.faults s).service) ∧
      ((perform ctx a.settings a.op a.faults s).saved = .failed →
        (perform ctx a.settings a.op a.faults s).service.connections = s.connections ∧
          (perform ctx a.settings a.op a.faults s).service.file = s.file) := by
  have hstore := reachable_storeInvariant hs
  have hnormal := reachable_allNormal hs
  refine ⟨perform_saved_loadsBack hstore hnormal ha a.faults, fun hfailed => ?_⟩
  rw [perform_failed_unchanged hstore a.op a.faults hfailed]
  exact ⟨rfl, rfl⟩

/-- A RabbitMQ draft whose password looks like ciphertext. -/
def rabbitDraft : ConnectionProfile :=
  { draft .rabbitmq .plain with
    secrets := (∅ : StringMap).insert "password" "ENC:not really"
    options := some ((∅ : StringMap).insert "vhost" "/orders") }

theorem memory_agrees_with_disk_rabbit :
    (perform plainContext defaultSettings (.addConnection rabbitDraft) noFaults
        (new plainContext none false)).saved = .succeeded ∧
      LoadsBack plainContext (perform plainContext defaultSettings (.addConnection rabbitDraft)
        noFaults (new plainContext none false)).service :=
  have hsaved : (perform plainContext defaultSettings (.addConnection rabbitDraft) noFaults
      (new plainContext none false)).saved = .succeeded := by decide
  ⟨hsaved, (memory_agrees_with_disk (reachable_after none [] trivial)
    ⟨defaultSettings, .addConnection rabbitDraft, noFaults⟩ trivial).1 hsaved⟩

/-- **A blank family disagrees**: agreement fails for some operation in some reachable state.
    A fresh service is given one profile without a family; the save succeeds, memory holds the
    blank family, and the file loads to a RocketMQ profile. -/
theorem blank_family_disagrees :
    ¬ ∀ (ctx : Context) (s : Service), (window ctx).Reachable Machine.Always s → ∀ a : Act,
      ((perform ctx a.settings a.op a.faults s).saved = .succeeded →
          LoadsBack ctx (perform ctx a.settings a.op a.faults s).service) ∧
        ((perform ctx a.settings a.op a.faults s).saved = .failed →
          (perform ctx a.settings a.op a.faults s).service.connections = s.connections ∧
            (perform ctx a.settings a.op a.faults s).service.file = s.file) := by
  intro h
  have hagrees := (h plainContext (new plainContext none false) (.start ⟨none, false, rfl⟩)
    ⟨defaultSettings, .replaceConnections [some (draft .unset .none)], noFaults⟩).1 (by decide)
  revert hagrees
  decide

end MqStudio.Connection
