import MqStudio.Configuration.RoundTrip

/-!
# Undoing a Failed Import

When the connections of an import cannot be applied, the settings are saved again as they were
and the previous profiles go through `ReplaceConnections` once more, the same preparation that
loses a mechanism on import. So an import of nothing, refused by the file system, can turn every
RabbitMQ profile of the store anonymous and report that it was rolled back.

## Main results

- `rollback_restores`: what a rollback that reports no failure leaves.
- `failed_import_changes_nothing`: the exact condition under which no failed import changes
  anything.
- `failed_import_loses_mechanism`: the rollback that loses a mechanism.
-/

namespace MqStudio.Configuration

open MqStudio.Connection
  (Context ConnectionError Nonces Op Faults AllNormal AllAccepted StoreInvariant Accepted Kept
    FreshAgrees allReplaced atRest)
open MqStudio.Lib
open MqStudio.Lib.TreeMap
open MqStudio.Model
open MqStudio.Settings (AppSettings SettingsError defaultSettings credentialsChanged normalize)
open MqStudio.Storage

/-! ## Nothing changed -/

/-- The settings and every persisted field of every profile are what they were, in memory and
    as a fresh start reads them from the files. -/
structure Unchanged (ctx : Context) (s t : Service) : Prop where
  settings : t.settings.settings = s.settings.settings
  settingsFile : (Settings.Service.new ctx.cipher t.settings.file).settings =
    (Settings.Service.new ctx.cipher s.settings.file).settings
  profiles : SameProfiles s t
  profilesFile : (Connection.new ctx t.connections.file false).connections =
    (Connection.new ctx s.connections.file false).connections

instance (ctx : Context) (s t : Service) : Decidable (Unchanged ctx s t) :=
  decidable_of_iff
    (t.settings.settings = s.settings.settings ∧
      (Settings.Service.new ctx.cipher t.settings.file).settings =
        (Settings.Service.new ctx.cipher s.settings.file).settings ∧
      SameProfiles s t ∧
      (Connection.new ctx t.connections.file false).connections =
        (Connection.new ctx s.connections.file false).connections)
    ⟨fun h => ⟨h.1, h.2.1, h.2.2.1, h.2.2.2⟩,
      fun h => ⟨h.settings, h.settingsFile, h.profiles, h.profilesFile⟩⟩

theorem Unchanged.refl (ctx : Context) (s : Service) : Unchanged ctx s s := ⟨rfl, rfl, rfl, rfl⟩

variable {ctx : Context} {s : Service}

/-! ## What a rollback restores -/

/-- Settings that were saved again are in memory and in the file. -/
theorem rollbackSettings_restores (hs : Sound s) {t : Service} {faults : Settings.SaveFaults}
    (h : (rollbackSettings ctx s.settings.settings true faults t).2 = none) :
    (rollbackSettings ctx s.settings.settings true faults t).1.settings.settings =
        s.settings.settings ∧
      (Settings.Service.new ctx.cipher
          (rollbackSettings ctx s.settings.settings true faults t).1.settings.file).settings =
        s.settings.settings := by
  unfold rollbackSettings saveSettings Settings.Service.updateSettings at h ⊢
  simp only [if_true, hs.settings] at h ⊢
  rcases t.settings.replace_cases ctx.cipher s.settings.settings faults with ⟨e, hres⟩ |
    ⟨data, hdata, hres⟩
  · rw [hres] at h
    cases h
  · rw [hres]
    exact ⟨rfl, Settings.Service.loadFresh_saved ctx.cipher hs.settings hdata⟩

/-- A report that names no failed rollback means both halves of it succeeded. -/
theorem rollbackReport_clean {applyErr : ConnectionError} {settingsErr : Option SettingsError}
    {connectionsErr : Option ConnectionError}
    (h : (rollbackReport applyErr settingsErr connectionsErr).reportsFailedRollback = false) :
    settingsErr = none ∧ connectionsErr = none := by
  cases settingsErr <;> cases connectionsErr
  · exact ⟨rfl, rfl⟩
  all_goals cases h

/-- **A rollback that reports no failure**: the form accepts every previous profile, and memory
    and file hold the previous profiles as a replacement leaves them. -/
theorem rollback_restores (hs : Sound s) {settings : AppSettings} {settingsChanged : Bool}
    {faults : ImportFaults} {t : Service}
    (h : (rollback ctx settings (getConnections s) settingsChanged true faults t).2.2 = none) :
    AllAccepted ctx.endpoints s.connections.connections ∧
      atRest (rollback ctx settings (getConnections s) settingsChanged true faults
        t).1.connections.connections = allReplaced s.connections.connections ∧
      FreshAgrees ctx
        (rollback ctx settings (getConnections s) settingsChanged true faults t).1.connections := by
  simp only [rollback, rollbackConnections, if_true] at h ⊢
  rcases runConnections_own hs (rollbackSettings ctx settings settingsChanged
    faults.rollbackSettings t).1 faults.rollbackConnections with ⟨_, herror⟩ | hdone
  · exact absurd h herror
  · exact hdone

/-- The settings after a rollback are the ones its first half left. -/
theorem rollback_settings (settings : AppSettings) (connections : List ConnectionProfile)
    (settingsChanged connectionsChanged : Bool) (faults : ImportFaults) (t : Service) :
    (rollback ctx settings connections settingsChanged connectionsChanged faults t).1.settings =
      (rollbackSettings ctx settings settingsChanged faults.rollbackSettings t).1.settings := by
  unfold rollback rollbackConnections
  dsimp only
  split <;> rfl

theorem rollback_settingsErr (settings : AppSettings) (connections : List ConnectionProfile)
    (settingsChanged connectionsChanged : Bool) (faults : ImportFaults) (t : Service) :
    (rollback ctx settings connections settingsChanged connectionsChanged faults t).2.1 =
      (rollbackSettings ctx settings settingsChanged faults.rollbackSettings t).2 := rfl

theorem rollback_connectionsErr (settings : AppSettings) (connections : List ConnectionProfile)
    (settingsChanged : Bool) (faults : ImportFaults) (t : Service) :
    (rollback ctx settings connections settingsChanged true faults t).2.2 =
      (runConnections ctx (.replaceConnections (connections.map some)) faults.rollbackConnections
        (rollbackSettings ctx settings settingsChanged faults.rollbackSettings t).1).2 := rfl

/-! ## A failed import -/

/-- Applying connections leaves the settings alone, and reports an error only when there was
    something to apply. -/
theorem applyConnections_settings (connections : Option (List (Option ConnectionProfile)))
    (changed : Bool) (faults : Faults) (t : Service) :
    (applyConnections ctx connections changed faults t).1.settings = t.settings ∧
      ((applyConnections ctx connections changed faults t).2 ≠ none →
        (connections.isSome || changed) = true) := by
  cases connections with
  | some l => exact ⟨rfl, fun _ => rfl⟩
  | none =>
    cases changed with
    | false => exact ⟨rfl, fun h => absurd rfl h⟩
    | true => exact ⟨rfl, fun _ => rfl⟩

/-- Applying or rolling back from a state with the connections of `s` changes nothing when it
    fails and does not report a failed rollback. -/
theorem applyOrRollback_unchanged (hs : Sound s)
    (hcondition : AllAccepted ctx.endpoints s.connections.connections →
      AllKept ctx s ∧ Durable ctx s) {t : Service} {settingsChanged changed : Bool}
    (hsettings : settingsChanged = false → t.settings = s.settings)
    {connections : Option (List (Option ConnectionProfile))} {faults : ImportFaults}
    {e : ImportError}
    (h : (applyOrRollback ctx s settingsChanged changed connections faults t).2 = some e)
    (hreport : e.reportsFailedRollback = false) :
    Unchanged ctx s (applyOrRollback ctx s settingsChanged changed connections faults t).1 := by
  obtain ⟨happliedSettings, hsome⟩ :=
    @applyConnections_settings ctx connections changed faults.apply t
  unfold applyOrRollback at h ⊢
  dsimp only at h ⊢
  generalize applyConnections ctx connections changed faults.apply t = applied
    at h happliedSettings hsome ⊢
  obtain ⟨u, error⟩ := applied
  cases error with
  | none => cases h
  | some applyErr =>
    simp only [Option.some.injEq] at h
    subst h
    obtain ⟨hsettingsErr, hconnectionsErr⟩ := rollbackReport_clean hreport
    have hchanged : (connections.isSome || changed) = true := hsome (by simp)
    rw [hchanged] at hsettingsErr hconnectionsErr ⊢
    obtain ⟨haccepted, hrest, hfresh⟩ := rollback_restores hs hconnectionsErr
    obtain ⟨hkept, hdurable⟩ := hcondition haccepted
    have hprofiles := hrest.trans hkept.replaced
    rw [rollback_settingsErr] at hsettingsErr
    dsimp only
    refine ⟨?_, ?_, hprofiles, ?_⟩
    -- the settings are the ones the first half of the rollback left
    · rw [rollback_settings]
      cases settingsChanged with
      | false =>
        show u.settings.settings = _
        rw [happliedSettings, hsettings rfl]
      | true => exact (rollbackSettings_restores hs hsettingsErr).1
    · rw [rollback_settings]
      cases settingsChanged with
      | false =>
        show (Settings.Service.new ctx.cipher u.settings.file).settings = _
        rw [happliedSettings, hsettings rfl]
      | true =>
        rw [hdurable.settings]
        exact (rollbackSettings_restores hs hsettingsErr).2
    · calc (Connection.new ctx (rollback ctx s.settings.settings (getConnections s)
              settingsChanged true faults u).1.connections.file false).connections
          = atRest (rollback ctx s.settings.settings (getConnections s) settingsChanged true
              faults u).1.connections.connections := hfresh
        _ = atRest s.connections.connections := hprofiles
        _ = (Connection.new ctx s.connections.file false).connections :=
          hdurable.connections.symm

/-- **A failed import changes nothing** in the states of the condition, whatever its payload and
    wherever it fails, unless it reports a failed rollback. -/
theorem importAllConfig_unchanged (hs : Sound s)
    (hcondition : AllAccepted ctx.endpoints s.connections.connections →
      AllKept ctx s ∧ Durable ctx s) {raw : Document ImportPayload} {faults : ImportFaults}
    {e : ImportError} (h : (importAllConfig ctx raw faults s).2 = some e)
    (hreport : e.reportsFailedRollback = false) :
    Unchanged ctx s (importAllConfig ctx raw faults s).1 := by
  unfold importAllConfig at h ⊢
  cases hraw : raw.unmarshal with
  | none => exact .refl ctx s
  | some payload =>
    rw [hraw] at h
    dsimp only at h ⊢
    split
    · exact .refl ctx s
    · rename_i hversion
      rw [if_neg hversion] at h
      split
      · exact .refl ctx s
      · rename_i hempty
        rw [if_neg hempty] at h
        cases himported : importedConnections ctx payload faults.validate with
        | error e => exact .refl ctx s
        | ok connections =>
          rw [himported] at h
          unfold importConfig at h ⊢
          cases hsettings : payload.settings with
          | none =>
            rw [hsettings] at h
            exact applyOrRollback_unchanged hs hcondition (fun _ => rfl) h hreport
          | some next =>
            rw [hsettings] at h
            simp only [saveSettings, Settings.Service.updateSettings] at h ⊢
            rcases s.settings.replace_cases ctx.cipher (normalize next) faults.settings with
              ⟨e, hres⟩ | ⟨data, _, hres⟩
            · rw [hres]
              exact .refl ctx s
            · rw [hres] at h ⊢
              exact applyOrRollback_unchanged hs hcondition (by simp) h hreport

/-! ## The import that needs the condition -/

/-- The file system refuses the write of the imported profiles, and nothing else. -/
def refusedWrite : ImportFaults :=
  { noImportFaults with
    apply := { Connection.noFaults with save := { Connection.noSaveFaults with writeFails := true } } }

/-- An import of the settings in memory and of no connections at all. -/
def importNothing (settings : AppSettings) : Document ImportPayload :=
  .encoded "" ⟨2, some settings, .store ⟨[]⟩⟩

/-- Replacing the profiles by none is refused at its write. -/
theorem replace_refused (t : Service) :
    runConnections ctx (.replaceConnections []) refusedWrite.apply t = (t, some .write) := by
  obtain ⟨prepared, hprepared⟩ : ∃ prepared,
      Connection.prepareReplacement ctx.endpoints [] = .ok prepared := ⟨_, rfl⟩
  obtain ⟨data, hdata⟩ : ∃ data, Connection.encodeConnectionsForDisk ctx.cipher
      refusedWrite.apply.save.nonces prepared = .ok data :=
    Connection.encodeConnectionsForDisk_total ctx.cipher prepared fun _ _ => rfl
  simp only [runConnections, Connection.perform, Connection.replaceConnections, hprepared, hdata]
  rfl

/-- Saving settings again is not refused. -/
theorem rollbackSettings_clean (settings : AppSettings) (t : Service) :
    (rollbackSettings ctx settings true refusedWrite.rollbackSettings t).2 = none := by
  obtain ⟨data, hsaved⟩ := t.settings.replace_ok ctx.cipher (normalize settings)
    refusedWrite.rollbackSettings rfl rfl rfl
  unfold rollbackSettings saveSettings Settings.Service.updateSettings
  simp only [if_true, hsaved]

/-- **An import of nothing that is refused** is rolled back without a failure, from some state
    between the two. -/
theorem importNothing_rolledBack (hs : Sound s)
    (haccepted : AllAccepted ctx.endpoints s.connections.connections) :
    ∃ t, importAllConfig ctx (importNothing s.settings.settings) refusedWrite s =
        ((rollback ctx s.settings.settings (getConnections s) true true refusedWrite t).1,
          some (.rolledBack .write)) ∧
      (rollback ctx s.settings.settings (getConnections s) true true refusedWrite t).2 =
        (none, none) := by
  have himported : importedConnections ctx ⟨2, some s.settings.settings, .store ⟨[]⟩⟩
      refusedWrite.validate = .ok (some []) := by
    obtain ⟨prepared, hprepared⟩ : ∃ prepared,
        Connection.prepareReplacement ctx.endpoints [] = .ok prepared := ⟨_, rfl⟩
    obtain ⟨data, hdata⟩ : ∃ data, Connection.encodeConnectionsForDisk ctx.cipher
        refusedWrite.validate prepared = .ok data :=
      Connection.encodeConnectionsForDisk_total ctx.cipher prepared fun _ _ => rfl
    have hvalidate : Connection.validateConnections ctx.cipher ctx.endpoints
        refusedWrite.validate [] = .ok () := by
      unfold Connection.validateConnections
      rw [hprepared]
      dsimp only
      rw [hdata]
      rfl
    unfold importedConnections
    simp only [decodeConnectionStore, decodeRecords, List.map_nil,
      show decide ((2 : Int) < currentExportVersion) = false from rfl, Bool.not_false, if_true,
      hvalidate]
  obtain ⟨data, hsaved⟩ := s.settings.replace_ok ctx.cipher (normalize s.settings.settings)
    refusedWrite.settings rfl rfl rfl
  have hrolledBack : ∀ t : Service,
      (rollback ctx s.settings.settings (getConnections s) true true refusedWrite t).2 =
        (none, none) := by
    intro t
    have hsettings := @rollbackSettings_clean ctx s.settings.settings t
    have hconnections := @runConnections_own_clean ctx s hs haccepted
      (rollbackSettings ctx s.settings.settings true refusedWrite.rollbackSettings t).1 _
      (Connection.noFaults_clean)
    apply Prod.ext
    · rw [rollback_settingsErr]
      exact hsettings
    · rw [rollback_connectionsErr]
      exact hconnections
  refine ⟨⟨{ s.settings with
      settings := normalize s.settings.settings
      file := some data }, s.connections⟩, ?_, hrolledBack _⟩
  unfold importAllConfig importNothing
  dsimp only [Document.unmarshal]
  rw [if_neg (by decide), if_neg (fun hempty => by cases hempty.1), himported]
  simp only [importConfig, saveSettings, Settings.Service.updateSettings, hsaved, applyOrRollback,
    applyConnections_some, replace_refused, Option.isSome_some, Bool.true_or]
  rw [hrolledBack]
  rfl

/-! ## The exact condition -/

/-- **When failed imports change nothing**: in every reachable state, no import that fails
    without reporting a failed rollback changes the settings or any persisted field of any
    profile, in memory or in the files, exactly when this holds: if the form accepts every stored
    profile, then it accepts each as it stands, the mechanism of each is ACL or none, and the
    files hold what memory holds. -/
theorem failed_import_changes_nothing (hs : (application ctx).Reachable Machine.Always s) :
    (∀ (raw : Document ImportPayload) (faults : ImportFaults) (e : ImportError),
        (importAllConfig ctx raw faults s).2 = some e → e.reportsFailedRollback = false →
          Unchanged ctx s (importAllConfig ctx raw faults s).1) ↔
      (AllAccepted ctx.endpoints s.connections.connections → AllKept ctx s ∧ Durable ctx s) := by
  have hsound := reachable_sound hs
  constructor
  · intro h haccepted
    obtain ⟨t, himport, hrolledBack⟩ := importNothing_rolledBack hsound haccepted
    have hunchanged := h (importNothing s.settings.settings) refusedWrite (.rolledBack .write)
      (by rw [himport]) rfl
    rw [himport] at hunchanged
    obtain ⟨_, hrest, hfresh⟩ := rollback_restores hsound (congrArg Prod.snd hrolledBack)
    have hprofiles := hunchanged.profiles
    have hkept := (Connection.allReplaced_eq_atRest_iff _).mp (hrest.symm.trans hprofiles)
    refine ⟨fun id p hp => ⟨haccepted id p hp, hkept id p hp⟩, ?_, ?_⟩
    · have hsettingsErr := congrArg Prod.fst hrolledBack
      rw [rollback_settingsErr] at hsettingsErr
      have hrestored := (rollbackSettings_restores hsound hsettingsErr).2
      have hfile := hunchanged.settingsFile
      rw [rollback_settings, hrestored] at hfile
      exact hfile.symm
    · exact hunchanged.profilesFile.symm.trans (hfresh.trans hprofiles)
  · intro hcondition raw faults e herror hreport
    exact importAllConfig_unchanged hsound hcondition herror hreport

/-- The kept drafts after an import that could not be written. -/
def refusedImport : Service × Option ImportError :=
  importAllConfig Connection.plainContext (importNothing defaultSettings) refusedWrite
    (withDrafts keptDrafts)

theorem failed_import_changes_nothing_kept :
    refusedImport.2 = some (.rolledBack .write) ∧
      Unchanged Connection.plainContext (withDrafts keptDrafts) refusedImport.1 := by
  have hkept : AllKept Connection.plainContext (withDrafts keptDrafts) := by decide
  have hdurable : Durable Connection.plainContext (withDrafts keptDrafts) := ⟨by decide, by decide⟩
  have herror : refusedImport.2 = some (.rolledBack .write) := by decide
  exact ⟨herror, (failed_import_changes_nothing (reachable_withDrafts keptDrafts)).mpr
    (fun _ => ⟨hkept, hdurable⟩) _ _ _ herror rfl⟩

/-- **A mechanism is lost by a rollback**: a store of one RabbitMQ profile with the plain
    mechanism is not what it was after an import of nothing that the file system refused and that
    was reported as rolled back. -/
theorem failed_import_loses_mechanism :
    ¬ ∀ (ctx : Context) (s : Service), (application ctx).Reachable Machine.Always s →
      ∀ (raw : Document ImportPayload) (faults : ImportFaults) (e : ImportError),
        (importAllConfig ctx raw faults s).2 = some e → e.reportsFailedRollback = false →
          Unchanged ctx s (importAllConfig ctx raw faults s).1 := by
  intro h
  have hunchanged := h Connection.plainContext (withDrafts [Connection.draft .rabbitmq .plain])
    (reachable_withDrafts _) (importNothing defaultSettings) refusedWrite (.rolledBack .write)
    (by decide) rfl
  revert hunchanged
  decide

end MqStudio.Configuration
