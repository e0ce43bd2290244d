import MqStudio.Configuration.Service
import MqStudio.Connection.Durability

/-!
# Invariants of the Application

Every step of the application is made of two kinds of update: the settings are replaced by
normalised ones, and an operation runs on the connections. A property that survives both
(`Stable`) survives every step, imports with their rollbacks included.

## Main results

- `Stable.step`: the closure rule.
- `reachable_sound`: profiles are filed well and are fixed points of loading, settings are
  normalised.
- `reachable_durable`: in a run that could read its files when it started, they hold what memory
  holds.
-/

namespace MqStudio.Configuration

open MqStudio.Connection
  (Context ConnectionError Nonces Op Faults AllNormal AllAccepted StoreInvariant FreshAgrees
    allReplaced atRest)
open MqStudio.Lib
open MqStudio.Lib.TreeMap
open MqStudio.Model
open MqStudio.Settings (AppSettings SettingsError credentialsChanged normalize)
open MqStudio.Storage

variable {ctx : Context}

/-! ## Profiles that name their family -/

/-- Every profile of the list names its family. -/
def Named (connections : List (Option ConnectionProfile)) : Prop :=
  ∀ p, some p ∈ connections → p.kind ≠ .unset

/-- What an import is given went through the record format, which names a family. -/
theorem named_importedConnections {payload : ImportPayload} {nonces : Nonces}
    {connections : List (Option ConnectionProfile)}
    (h : importedConnections ctx payload nonces = .ok (some connections)) : Named connections := by
  have hrecords : ∀ records : List (Option ConnectionRecord),
      Named (records.map (Option.map ConnectionRecord.profile)) := by
    intro records p hp
    obtain ⟨record, _, hrecord⟩ := List.mem_map.mp hp
    obtain ⟨r, _, rfl⟩ := Option.map_eq_some_iff.mp hrecord
    exact ConnectionProfile.kind_profile r
  unfold importedConnections at h
  split at h
  · cases h
  · cases h
  · split at h
    · cases h
    · dsimp only at h
      split at h
      · cases h
      · cases h
        exact hrecords _

/-- A store's own profiles name their family. -/
theorem named_own {s : Service} (h : AllNormal s.connections.connections) :
    Named ((getConnections s).map some) := by
  intro p hp
  obtain ⟨q, hq, hsome⟩ := List.mem_map.mp hp
  cases hsome
  obtain ⟨id, hid⟩ := mem_values.mp hq
  exact (h id p hid).kind

/-- Only a replacement can bring profiles without a family. -/
theorem namesFamilies_of_not_replacement {op : Op} (h : isReplacement op = false) :
    op.NamesFamilies ctx := by
  cases op with
  | replaceConnections => cases h
  | _ => trivial

/-! ## The closure rule -/

/-- The property survives both kinds of update the application is made of. -/
structure Stable (ctx : Context) (P : Service → Prop) : Prop where
  normal : ∀ {s : Service}, P s → AllNormal s.connections.connections
  saved : ∀ {s : Service} (next : AppSettings) (faults : Settings.SaveFaults),
    normalize next = next → P s →
      P { s with settings := (s.settings.replace ctx.cipher next faults).1 }
  ran : ∀ {s : Service} (op : Op) (faults : Faults), op.NamesFamilies ctx → P s →
    P (runConnections ctx op faults s).1

namespace Stable

variable {P : Service → Prop}

theorem saveSettings (h : Stable ctx P) {s : Service} (hs : P s) (next : AppSettings)
    (faults : Settings.SaveFaults) : P (saveSettings ctx next faults s).1 :=
  h.saved (normalize next) faults (Settings.normalize_normalize next) hs

theorem applyConnections (h : Stable ctx P) {s : Service} (hs : P s)
    {connections : Option (List (Option ConnectionProfile))}
    (hnamed : ∀ l, connections = some l → Named l) (changed : Bool) (faults : Faults) :
    P (applyConnections ctx connections changed faults s).1 := by
  unfold Configuration.applyConnections
  cases connections with
  | some l => exact h.ran _ faults (fun _ => hnamed l rfl) hs
  | none =>
    dsimp only
    split
    · exact h.ran .reload faults trivial hs
    · exact hs

/-- A rollback may start from any state that has the property. -/
theorem rollback (h : Stable ctx P) {s previous : Service} (hs : P s) (hprevious : P previous)
    (settings : AppSettings) (settingsChanged connectionsChanged : Bool) (faults : ImportFaults) :
    P (rollback ctx settings (getConnections previous) settingsChanged connectionsChanged faults
      s).1 := by
  have hsettings : P (rollbackSettings ctx settings settingsChanged faults.rollbackSettings
      s).1 := by
    unfold rollbackSettings
    split
    · have hsaved := h.saveSettings hs settings faults.rollbackSettings
      dsimp only
      split <;> exact hsaved
    · exact hs
  unfold Configuration.rollback rollbackConnections
  dsimp only
  split
  · exact h.ran _ _ (fun _ => named_own (h.normal hprevious)) hsettings
  · exact hsettings

theorem applyOrRollback (h : Stable ctx P) {s previous : Service} (hs : P s)
    (hprevious : P previous) {connections : Option (List (Option ConnectionProfile))}
    (hnamed : ∀ l, connections = some l → Named l) (settingsChanged changed : Bool)
    (faults : ImportFaults) :
    P (applyOrRollback ctx previous settingsChanged changed connections faults s).1 := by
  have happlied := h.applyConnections hs hnamed changed faults.apply
  unfold Configuration.applyOrRollback
  dsimp only
  split
  · exact happlied
  · exact h.rollback happlied hprevious _ _ _ faults

theorem importConfig (h : Stable ctx P) {s : Service} (hs : P s) (settings : Option AppSettings)
    {connections : Option (List (Option ConnectionProfile))}
    (hnamed : ∀ l, connections = some l → Named l) (faults : ImportFaults) :
    P (importConfig ctx settings connections faults s).1 := by
  unfold Configuration.importConfig
  cases settings with
  | none => exact h.applyOrRollback hs hs hnamed false false faults
  | some next =>
    have hsaved := h.saveSettings hs next faults.settings
    dsimp only
    split
    · exact hsaved
    · exact h.applyOrRollback hsaved hs hnamed true _ faults

theorem importAllConfig (h : Stable ctx P) {s : Service} (hs : P s)
    (raw : Document ImportPayload) (faults : ImportFaults) :
    P (importAllConfig ctx raw faults s).1 := by
  unfold Configuration.importAllConfig
  cases raw.unmarshal with
  | none => exact hs
  | some payload =>
    dsimp only
    split
    · exact hs
    · split
      · exact hs
      · cases himported : importedConnections ctx payload faults.validate with
        | error e => exact hs
        | ok connections =>
          apply h.importConfig hs
          rintro l rfl
          exact named_importedConnections himported

theorem changeSettings (h : Stable ctx P) {s : Service} (hs : P s) {next : AppSettings}
    (hnorm : normalize next = next) (save : Settings.SaveFaults) (faults : Faults) :
    P (changeSettings ctx (fun settings => settings.replace ctx.cipher next save) faults s) := by
  have hsaved := h.saved next save hnorm hs
  unfold Configuration.changeSettings
  dsimp only
  split
  · exact hsaved
  · split
    · exact h.ran .reload faults trivial hsaved
    · exact hsaved

/-- **Closure rule**: a stable property survives every step of the application. -/
theorem step (h : Stable ctx P) {s t : Service} {a : Act} (hs : P s)
    (hstep : (application ctx).step s a = some t) : P t := by
  cases a with
  | connections op faults =>
    simp only [application] at hstep
    split at hstep
    · cases hstep
    · rename_i hop
      cases hstep
      exact h.ran op faults (namesFamilies_of_not_replacement (by simpa using hop)) hs
  | updateSettings next save faults =>
    cases hstep
    exact h.changeSettings hs (Settings.normalize_normalize next) save faults
  | resetSettings save faults =>
    cases hstep
    exact h.changeSettings hs Settings.normalize_defaultSettings save faults
  | importAllConfig raw faults =>
    cases hstep
    exact h.importAllConfig hs raw faults

end Stable

/-! ## Sound states -/

/-- Profiles are filed under their ids and are fixed points of loading; settings are
    normalised. -/
structure Sound (s : Service) : Prop where
  store : StoreInvariant s.connections.connections s.connections.nextID
  normal : AllNormal s.connections.connections
  settings : normalize s.settings.settings = s.settings.settings

/-- Replacing the settings by normalised ones leaves normalised settings. -/
theorem normalize_replace {s : Settings.Service} (h : normalize s.settings = s.settings)
    {next : AppSettings} (hnext : normalize next = next) (cipher : Cipher)
    (faults : Settings.SaveFaults) :
    normalize (s.replace cipher next faults).1.settings =
      (s.replace cipher next faults).1.settings := by
  rcases s.replace_cases cipher next faults with ⟨e, hres⟩ | ⟨data, _, hres⟩
  · rw [hres]
    exact h
  · rw [hres]
    exact hnext

theorem stable_sound : Stable ctx Sound where
  normal h := h.normal
  saved _ faults hnext h :=
    ⟨h.store, h.normal, normalize_replace h.settings hnext ctx.cipher faults⟩
  ran op faults hop h :=
    ⟨Connection.perform_storeInvariant h.store op faults,
      Connection.perform_allNormal ctx _ h.store h.normal op hop faults, h.settings⟩

/-- Both ways a settings service can start leave normalised settings. -/
theorem normalize_started {settings : Settings.Service} {file : Option (Document AppSettings)}
    (h : settings = .new ctx.cipher file ∨ settings = unreadSettings file) :
    normalize settings.settings = settings.settings := by
  rcases h with rfl | rfl
  · exact (Settings.Service.agrees_new ctx.cipher file).normal
  · exact Settings.normalize_defaultSettings

/-- **Every reachable state is sound.** -/
theorem reachable_sound {ok : Service → Act → Prop} {s : Service}
    (hs : (application ctx).Reachable ok s) : Sound s := by
  apply Machine.Reachable.invariant Sound _ _ hs
  · rintro s ⟨⟨file, hsettings⟩, connections, readFails, hconnections⟩
    refine ⟨?_, ?_, normalize_started hsettings⟩
    · rw [hconnections]
      exact Connection.new_storeInvariant ctx connections readFails
    · rw [hconnections]
      exact Connection.new_allNormal ctx connections readFails
  · intro s a t _ h _ hstep
    exact stable_sound.step h hstep

/-! ## Replacing by a state's own profiles -/

section Own

variable {s : Service}

/-- **Replacing by the profiles of a sound state**, in any state: refused, and nothing changed;
    or the form accepts them all, and memory and file hold them as a replacement leaves them. -/
theorem runConnections_own (hs : Sound s) (t : Service) (faults : Faults) :
    ((runConnections ctx (.replaceConnections ((getConnections s).map some)) faults t).1 = t ∧
        (runConnections ctx (.replaceConnections ((getConnections s).map some)) faults t).2 ≠
          none) ∨
      (AllAccepted ctx.endpoints s.connections.connections ∧
        atRest (runConnections ctx (.replaceConnections ((getConnections s).map some)) faults
          t).1.connections.connections = allReplaced s.connections.connections ∧
        FreshAgrees ctx (runConnections ctx (.replaceConnections ((getConnections s).map some))
          faults t).1.connections) := by
  simp only [runConnections, Connection.perform, getConnections]
  rcases @Connection.replaceConnections_own ctx t.settings.settings _ _ hs.store hs.normal
    t.connections faults with ⟨hsame, herror⟩ | hdone
  · rw [hsame]
    exact .inl ⟨rfl, herror⟩
  · exact .inr hdone

/-- With nothing in its way, replacing by profiles the form accepts succeeds. -/
theorem runConnections_own_clean (hs : Sound s)
    (haccepted : AllAccepted ctx.endpoints s.connections.connections) (t : Service)
    {faults : Faults} (hclean : faults.Clean) :
    (runConnections ctx (.replaceConnections ((getConnections s).map some)) faults t).2 =
      none := by
  simp only [runConnections, Connection.perform, getConnections]
  exact Connection.replaceConnections_own_clean hs.store hs.normal haccepted t.connections hclean

end Own

/-! ## Durable states -/

/-- A fresh start over the files would hold what memory holds. -/
structure Durable (ctx : Context) (s : Service) : Prop where
  settings : (Settings.Service.new ctx.cipher s.settings.file).settings = s.settings.settings
  connections : FreshAgrees ctx s.connections

theorem stable_durable : Stable ctx (fun s => Sound s ∧ Durable ctx s) where
  normal h := h.1.normal
  saved next faults hnext h :=
    ⟨stable_sound.saved next faults hnext h.1,
      ⟨(Settings.Service.Agrees.replace ctx.cipher ⟨h.1.settings, h.2.settings⟩ hnext faults).fresh,
        h.2.connections⟩⟩
  ran op faults hop h :=
    ⟨stable_sound.ran op faults hop h.1,
      ⟨h.2.settings,
        Connection.perform_freshAgrees h.1.store h.1.normal h.2.connections hop faults⟩⟩

/-- The application over two files it could read when it started. -/
def readApplication (ctx : Context) : Machine Service Act where
  start s := ∃ file file', s = ⟨.new ctx.cipher file, Connection.new ctx file' false⟩
  step := (application ctx).step

/-- **Files that were read stay true**: whatever fails during the run, a fresh start at any time
    would hold what memory holds. -/
theorem reachable_durable {ok : Service → Act → Prop} {s : Service}
    (hs : (readApplication ctx).Reachable ok s) : Durable ctx s := by
  have h : Sound s ∧ Durable ctx s := by
    apply Machine.Reachable.invariant (fun s => Sound s ∧ Durable ctx s) _ _ hs
    · rintro s ⟨file, file', rfl⟩
      have hagrees := Settings.Service.agrees_new ctx.cipher file
      exact ⟨⟨Connection.new_storeInvariant ctx file' false, Connection.new_allNormal ctx file' false,
        hagrees.normal⟩, ⟨hagrees.fresh, Connection.freshAgrees_new file'⟩⟩
    · intro s a t _ h _ hstep
      exact stable_durable.step h hstep
  exact h.2

end MqStudio.Configuration
