import MqStudio.Configuration.Invariants

/-!
# Importing an Export

The two texts pass through `NewConnectionRecord` and `Profile` twice and through
`prepareReplacement` once. The record format loses nothing of a stored profile. The preparation
does: `SetACL` files every profile without ACL as anonymous, and where loading and `applyCredentials`
put the mechanism back afterwards, the preparation leaves it there.

## Main results

- `importAllConfig_export`: importing an export is replacing the store by its own profiles.
- `import_of_export`: it keeps all profiles exactly when each is accepted as it stands and its
  mechanism is ACL or none.
- `import_loses_mechanism`: a RabbitMQ profile comes back anonymous.
-/

namespace MqStudio.Configuration

open MqStudio.Connection
  (Context ConnectionError Nonces Op Faults AllNormal AllAccepted StoreInvariant Accepted Kept
    allReplaced atRest)
open MqStudio.Lib
open MqStudio.Lib.TreeMap
open MqStudio.Lib.Traverse
open MqStudio.Model
open MqStudio.Settings (AppSettings defaultSettings credentialsChanged normalize)
open MqStudio.Storage

variable {ctx : Context} {s : Service}

/-! ## What the import reads -/

/-- The records of an export are normalised already. -/
theorem decodeConnectionStore_export (h : AllNormal s.connections.connections) :
    decodeConnectionStore ctx.cipher
        (.store ⟨((getConnections s).map newConnectionRecord).map some⟩) false =
      .ok ⟨((getConnections s).map newConnectionRecord).map some⟩ := by
  unfold decodeConnectionStore decodeRecords
  simp only [List.map_map, Bool.not_false, if_true]
  have hrecord : ∀ p ∈ getConnections s,
      newConnectionRecord (newConnectionRecord p).profile = newConnectionRecord p := by
    intro p hp
    obtain ⟨id, hid⟩ := mem_values.mp hp
    rw [p.profile_newConnectionRecord (h id p hid).kind (h id p hid).mechanism]
  refine congrArg (fun records => Except.ok (ConnectionStore.mk records)) ?_
  apply List.map_congr_left
  intro p hp
  exact congrArg some (hrecord p hp)

/-- **Importing an export** is validating the store's own profiles, saving the settings in
    memory, and replacing the store by its own profiles. -/
theorem importAllConfig_export (h : AllNormal s.connections.connections) (exportedAt : String)
    (faults : ImportFaults) :
    importAllConfig ctx (exportAllConfig exportedAt s).text faults s =
      match Connection.validateConnections ctx.cipher ctx.endpoints faults.validate
        ((getConnections s).map some) with
      | .error e => (s, some (.prepare e))
      | .ok () =>
        importConfig ctx (some s.settings.settings) (some ((getConnections s).map some)) faults
          s := by
  have hprofiles : (((getConnections s).map newConnectionRecord).map some).map
      (Option.map ConnectionRecord.profile) = (getConnections s).map some := by
    simp only [List.map_map]
    apply List.map_congr_left
    intro p hp
    obtain ⟨id, hid⟩ := mem_values.mp hp
    exact congrArg some (p.profile_newConnectionRecord (h id p hid).kind (h id p hid).mechanism)
  have hversion : decide ((2 : Int) < currentExportVersion) = false := rfl
  have hsupported : ¬ (2 : Int) > currentExportVersion := by decide
  have hparsed : (exportAllConfig exportedAt s).text.unmarshal =
      some ⟨2, some s.settings.settings,
        .store ⟨((getConnections s).map newConnectionRecord).map some⟩⟩ := rfl
  have hnonempty : ¬ (some s.settings.settings = none ∧
      RawConnections.store ⟨((getConnections s).map newConnectionRecord).map some⟩ = .absent) :=
    fun hempty => by cases hempty.1
  cases hform : Connection.validateConnections ctx.cipher ctx.endpoints faults.validate
      ((getConnections s).map some) with
  | error e =>
    have himported : importedConnections ctx
        ⟨2, some s.settings.settings,
          .store ⟨((getConnections s).map newConnectionRecord).map some⟩⟩ faults.validate =
        .error (.prepare e) := by
      simp only [importedConnections, hversion, decodeConnectionStore_export h, hprofiles, hform]
    simp only [importAllConfig, hparsed, hsupported, hnonempty, if_false, himported]
  | ok =>
    have himported : importedConnections ctx
        ⟨2, some s.settings.settings,
          .store ⟨((getConnections s).map newConnectionRecord).map some⟩⟩ faults.validate =
        .ok (some ((getConnections s).map some)) := by
      simp only [importedConnections, hversion, decodeConnectionStore_export h, hprofiles, hform]
    simp only [importAllConfig, hparsed, hsupported, hnonempty, if_false, himported]

/-! ## What the import leaves -/

/-- The same profiles, whatever became of their clients. -/
def SameProfiles (s t : Service) : Prop :=
  atRest t.connections.connections = atRest s.connections.connections

instance (s t : Service) : Decidable (SameProfiles s t) := inferInstanceAs (Decidable (_ = _))

/-- Every stored profile is accepted and kept as it stands. -/
def AllKept (ctx : Context) (s : Service) : Prop :=
  ∀ (id : Int) (p : ConnectionProfile), s.connections.connections[id]? = some p →
    Accepted ctx.endpoints p ∧ Kept p

instance (ctx : Context) (s : Service) : Decidable (AllKept ctx s) :=
  decidable_of_iff (∀ p ∈ getConnections s, Accepted ctx.endpoints p ∧ Kept p)
    ⟨fun h id p hp => h p (mem_values.mpr ⟨id, hp⟩), fun h p hp =>
      let ⟨id, hid⟩ := mem_values.mp hp
      h id p hid⟩

theorem AllKept.replaced (h : AllKept ctx s) :
    allReplaced s.connections.connections = atRest s.connections.connections :=
  (Connection.allReplaced_eq_atRest_iff _).mpr fun id p hp => (h id p hp).2

/-- Replacing the profiles by the kept ones of `s` does not change them. -/
theorem sameProfiles_replace (hs : Sound s) (hkept : AllKept ctx s) {t : Service}
    (ht : SameProfiles s t) (faults : Faults) :
    SameProfiles s (runConnections ctx (.replaceConnections ((getConnections s).map some)) faults
      t).1 := by
  rcases runConnections_own hs t faults with ⟨hsame, _⟩ | ⟨_, hrest, _⟩
  · rw [hsame]
    exact ht
  · exact hrest.trans hkept.replaced

/-- A rollback to the kept profiles of `s` does not change them either. -/
theorem sameProfiles_rollback (hs : Sound s) (hkept : AllKept ctx s) {t : Service}
    (ht : SameProfiles s t) (settings : AppSettings) (settingsChanged connectionsChanged : Bool)
    (faults : ImportFaults) :
    SameProfiles s (rollback ctx settings (getConnections s) settingsChanged connectionsChanged
      faults t).1 := by
  have hsettings : SameProfiles s
      (rollbackSettings ctx settings settingsChanged faults.rollbackSettings t).1 := by
    unfold SameProfiles
    rw [rollbackSettings_connections]
    exact ht
  unfold rollback rollbackConnections
  dsimp only
  split
  · exact sameProfiles_replace hs hkept hsettings faults.rollbackConnections
  · exact hsettings

/-- **Kept profiles survive**: whatever fails on the way, importing an export of kept profiles
    leaves the same profiles. -/
theorem sameProfiles_import (hs : Sound s) (hkept : AllKept ctx s) (exportedAt : String)
    (faults : ImportFaults) :
    SameProfiles s (importAllConfig ctx (exportAllConfig exportedAt s).text faults s).1 := by
  rw [importAllConfig_export hs.normal]
  split
  · exact rfl
  · unfold importConfig
    dsimp only
    split
    · exact rfl
    · have happlied := sameProfiles_replace hs hkept
        (t := (saveSettings ctx s.settings.settings faults.settings s).1) rfl faults.apply
      unfold applyOrRollback
      simp only [applyConnections_some]
      split
      · exact happlied
      · exact sameProfiles_rollback hs hkept happlied _ _ _ faults

/-- An import of an export that reports no error replaced the store by its own profiles. -/
theorem import_succeeded (hs : Sound s) {exportedAt : String} {faults : ImportFaults}
    (h : (importAllConfig ctx (exportAllConfig exportedAt s).text faults s).2 = none) :
    AllAccepted ctx.endpoints s.connections.connections ∧
      atRest (importAllConfig ctx (exportAllConfig exportedAt s).text faults
        s).1.connections.connections = allReplaced s.connections.connections := by
  rw [importAllConfig_export hs.normal] at h ⊢
  split at h
  · cases h
  · unfold importConfig at h ⊢
    dsimp only at h ⊢
    split at h
    · cases h
    · unfold applyOrRollback at h ⊢
      simp only [applyConnections_some] at h ⊢
      split at h
      · rename_i happlied
        rcases runConnections_own hs (saveSettings ctx s.settings.settings faults.settings s).1
          faults.apply with ⟨_, herror⟩ | ⟨haccepted, hrest, _⟩
        · exact absurd happlied herror
        · exact ⟨haccepted, hrest⟩
      · cases h

/-! ## With nothing in the way -/

/-- Every dial the import may make is answered. -/
structure ImportFaults.DialsSucceed (faults : ImportFaults) : Prop where
  apply : faults.apply.dialFails = false
  rollback : faults.rollbackConnections.dialFails = false

/-- Nothing goes wrong on the way to the imported state. -/
structure ImportFaults.Clean (faults : ImportFaults) : Prop where
  validate : ∀ id key, (faults.validate id key).isSome
  accessKey : faults.settings.accessKeyNonce.isSome
  secretKey : faults.settings.secretKeyNonce.isSome
  write : faults.settings.writeFails = false
  apply : faults.apply.Clean

theorem noImportFaults_clean : noImportFaults.Clean where
  validate _ _ := rfl
  accessKey := rfl
  secretKey := rfl
  write := rfl
  apply := Connection.noFaults_clean

/-- An import of accepted profiles that nothing gets in the way of succeeds. -/
theorem import_clean (hs : Sound s)
    (haccepted : AllAccepted ctx.endpoints s.connections.connections) (exportedAt : String)
    {faults : ImportFaults} (hclean : faults.Clean) :
    (importAllConfig ctx (exportAllConfig exportedAt s).text faults s).2 = none := by
  have hvalidate : Connection.validateConnections ctx.cipher ctx.endpoints faults.validate
      ((getConnections s).map some) = .ok () := by
    obtain ⟨data, hdata⟩ := Connection.encodeConnectionsForDisk_total ctx.cipher
      (values (allReplaced s.connections.connections)) hclean.validate
    unfold Connection.validateConnections getConnections
    rw [Connection.prepareReplacement_values hs.store hs.normal haccepted]
    dsimp only
    rw [hdata]
    rfl
  obtain ⟨data, hsaved⟩ := s.settings.replace_ok ctx.cipher (normalize s.settings.settings)
    faults.settings hclean.accessKey hclean.secretKey hclean.write
  rw [importAllConfig_export hs.normal, hvalidate]
  dsimp only
  unfold importConfig saveSettings Settings.Service.updateSettings
  simp only [hsaved]
  unfold applyOrRollback applyConnections
  dsimp only
  rw [runConnections_own_clean hs haccepted _ hclean.apply]

/-! ## The round trip -/

/-- **Importing an export**: in every reachable state, the import succeeds when nothing fails and
    leaves the same profiles whenever its dials are answered, exactly when the form accepts every
    stored profile as it stands and the mechanism of each is ACL or none. -/
theorem import_of_export (hs : (application ctx).Reachable Machine.Always s)
    (exportedAt : String) :
    (∀ faults : ImportFaults, faults.DialsSucceed →
        SameProfiles s (importAllConfig ctx (exportAllConfig exportedAt s).text faults s).1 ∧
          (faults.Clean →
            (importAllConfig ctx (exportAllConfig exportedAt s).text faults s).2 = none)) ↔
      AllKept ctx s := by
  have hsound := reachable_sound hs
  constructor
  · intro h
    obtain ⟨hsame, hclean⟩ := h noImportFaults ⟨rfl, rfl⟩
    obtain ⟨haccepted, hreplaced⟩ := import_succeeded hsound (hclean noImportFaults_clean)
    have hkept := (Connection.allReplaced_eq_atRest_iff _).mp (hreplaced.symm.trans hsame)
    exact fun id p hp => ⟨haccepted id p hp, hkept id p hp⟩
  · intro hkept faults _
    exact ⟨sameProfiles_import hsound hkept exportedAt faults,
      import_clean hsound (fun id p hp => (hkept id p hp).1) exportedAt⟩

/-- The application over no files. -/
def overNoFiles : Service :=
  ⟨.new Connection.plainContext.cipher none, Connection.new Connection.plainContext none false⟩

theorem overNoFiles_start : (application Connection.plainContext).start overNoFiles :=
  ⟨⟨none, .inl rfl⟩, none, false, rfl⟩

/-- The application over no files, after adding some drafts. -/
def withDrafts (drafts : List ConnectionProfile) : Service :=
  (application Connection.plainContext).endOf overNoFiles
    (drafts.map fun draft => .connections (.addConnection draft) Connection.noFaults)

theorem reachable_withDrafts (drafts : List ConnectionProfile) :
    (application Connection.plainContext).Reachable Machine.Always (withDrafts drafts) :=
  Machine.Reachable.endOf (.start overNoFiles_start) (Machine.permitted_always _ _ _)

/-- A RocketMQ draft with a key pair and a Kafka draft without credentials. -/
def keptDrafts : List ConnectionProfile :=
  [{ Connection.draft .rocketmq .acl with
      secrets := ((∅ : StringMap).insert secretAccessKey "AK").insert secretSecretKey "ENC:SK" },
    Connection.draft .kafka .none]

theorem import_of_export_kept :
    (withDrafts keptDrafts).connections.connections.size = 2 ∧
      SameProfiles (withDrafts keptDrafts)
        (importAllConfig Connection.plainContext
          (exportAllConfig "now" (withDrafts keptDrafts)).text noImportFaults
          (withDrafts keptDrafts)).1 := by
  have hkept : AllKept Connection.plainContext (withDrafts keptDrafts) := by decide
  exact ⟨by decide, ((import_of_export (reachable_withDrafts keptDrafts) "now").mpr hkept
    noImportFaults ⟨rfl, rfl⟩).1⟩

/-- **A mechanism is lost**: an export of one RabbitMQ profile with the plain mechanism imports
    as an anonymous one. -/
theorem import_loses_mechanism :
    ¬ ∀ (ctx : Context) (s : Service), (application ctx).Reachable Machine.Always s →
      ∀ (exportedAt : String) (faults : ImportFaults), faults.DialsSucceed →
        SameProfiles s (importAllConfig ctx (exportAllConfig exportedAt s).text faults s).1 := by
  intro h
  have hsame := h Connection.plainContext (withDrafts [Connection.draft .rabbitmq .plain])
    (reachable_withDrafts _) "now" noImportFaults ⟨rfl, rfl⟩
  revert hsame
  decide

end MqStudio.Configuration
