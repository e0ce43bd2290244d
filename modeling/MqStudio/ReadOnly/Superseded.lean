import MqStudio.ReadOnly.Process

/-!
# Clients a Refresh Lets Live

A refresh that returned nil vouches for the clients of its process: those open at that moment,
and one that may still be in flight. Its slow path takes `runtimeMu`, so no dial is in flight when
it judges. Its fast path judges recorded dials only, and a dial is recorded when it finishes: one
that resolved its credentials before the settings were refreshed, and whose broker is slow, opens a
client with the old credentials after the refresh returned.

## Main results

- `step_inv`: one step of any party keeps the invariant, as long as a refresh does not take its
  fast path past a dial in flight that the refreshed settings supersede.
- `refresh_lets_no_superseded_client_live`: in every such run, what a refresh that returned nil
  vouches for is current.
- `slow_dial_outlives_refresh`: the order of steps that breaks it.
-/

namespace MqStudio.ReadOnly

open MqStudio.Connection
open MqStudio.Driver
open MqStudio.Lib
open MqStudio.Lib.TreeMap
open MqStudio.Model
open MqStudio.Settings (AppSettings)
open MqStudio.Storage

/-! ## The invariant -/

/-- The dial carries profiles under their own id. -/
def DialNamed : DialPhase → Prop
  | .idle | .locked _ => True
  | .resolving id p _ | .dialing id p | .connected id p => p.id = id

/-- The dial read, or will read, what these settings and profiles say. -/
def DialCurrent (settings : AppSettings) (profiles : Profiles) : DialPhase → Prop
  | .idle | .locked _ => True
  | .resolving id connection earlier => profiles[id]? = some connection ∧ earlier = settings
  | .dialing id resolved | .connected id resolved => isStale settings profiles id resolved = false

/-- No recorded dial is stale. -/
def RecordedCurrent (settings : AppSettings) (profiles dialed : Profiles) : Prop :=
  ∀ (id : Int) (client : ConnectionProfile), dialed[id]? = some client →
    isStale settings profiles id client = false

/-- What the refresh knows, by how far it has come. The settings it read are those in memory
    until the next refresh, and so are the profiles once it has judged the dials by them. -/
def Refreshed (s : State) : RefreshPhase → Prop
  | .idle | .started | .settingsRead _ => True
  | .settingsDone settings | .storeRead settings _ | .queued settings | .locked settings
  | .storeReread settings _ => settings = s.settings.settings
  | .removing settings profiles _ =>
    settings = s.settings.settings ∧ profiles = s.connections.connections ∧
      RecordedCurrent settings profiles s.connections.dialed
  | .returned settings profiles =>
    settings = s.settings.settings ∧ profiles = s.connections.connections ∧
      RecordedCurrent settings profiles s.connections.dialed ∧
      DialCurrent settings profiles s.dial

/-- The refresh is about to remove the client of an id. -/
def Removing (id : Int) : RefreshPhase → Prop
  | .removing _ _ stale => id ∈ stale
  | _ => False

/-- **Invariant of the process**: a client that is neither recorded nor about to be removed is
    the one of the dial in flight, and a refresh past its second reading excludes dials. -/
structure Inv (s : State) : Prop where
  store : StoreInvariant s.connections.connections s.connections.nextID
  named : DialNamed s.dial
  exclusive : s.refresh.holdsRuntime = true → s.dial = .idle
  opened : ∀ (id : Int) (client : ConnectionProfile), s.dial = .connected id client →
    s.connections.runtime.conns[id]? = some client
  recorded : ∀ (id : Int) (client : ConnectionProfile),
    s.connections.runtime.conns[id]? = some client →
      s.connections.dialed[id]? = some client ∨ s.dial = .connected id client ∨
        Removing id s.refresh
  refreshed : Refreshed s s.refresh

/-- A dial is in flight that the settings in memory supersede. -/
def inFlightStale (s : State) : Bool :=
  match s.dial with
  | .dialing id resolved | .connected id resolved =>
    isStale s.settings.settings s.connections.connections id resolved
  | _ => false

/-- The refresh is about to take its fast path. -/
def takesFastPath (s : State) : Bool :=
  match s.refresh with
  | .storeRead _ data => unchanged s.settings.settings s.connections data
  | _ => false

/-- The condition on a step: no refresh takes its fast path past a dial in flight that the
    settings it has just read supersede. -/
def FastPathSafe (s : State) (a : Act) : Prop :=
  a = .checkUnchanged → takesFastPath s = true → inFlightStale s = false

instance (s : State) (a : Act) : Decidable (FastPathSafe s a) :=
  inferInstanceAs (Decidable (_ → _))

/-! ## Judging recorded dials -/

/-- The stale dials are those recorded and stale. -/
theorem mem_staleDialsLocked {settings : AppSettings} {s : Connection.Service} {id : Int} :
    id ∈ staleDialsLocked settings s ↔
      ∃ client, s.dialed[id]? = some client ∧
        isStale settings s.connections id client = true := by
  unfold staleDialsLocked
  simp only [List.mem_map, List.mem_filter, Prod.exists, exists_and_right, exists_eq_right]
  constructor
  · rintro ⟨client, hmem, hstale⟩
    exact ⟨client, Std.ExtTreeMap.mem_toList_iff_getElem?_eq_some.mp hmem, hstale⟩
  · rintro ⟨client, hdialed, hstale⟩
    exact ⟨client, Std.ExtTreeMap.mem_toList_iff_getElem?_eq_some.mpr hdialed, hstale⟩

/-- Without stale dials every recorded one is current. -/
theorem recordedCurrent_of_unchanged {settings : AppSettings} {s : Connection.Service}
    {data : Option (Document Store)} (h : unchanged settings s data = true) :
    RecordedCurrent settings s.connections s.dialed := by
  intro id client hdialed
  have hnone : staleDialsLocked settings s = [] := by
    simp only [unchanged, Bool.and_eq_true, List.isEmpty_iff] at h
    exact h.2
  cases hstale : isStale settings s.connections id client with
  | false => rfl
  | true =>
    have hmem := mem_staleDialsLocked.mpr ⟨client, hdialed, hstale⟩
    rw [hnone] at hmem
    cases hmem

/-- Forgetting ids erases exactly those. -/
theorem getElem?_forgetDials (ids : List Int) (s : Connection.Service) (id : Int) :
    (forgetDials ids s).dialed[id]? = if id ∈ ids then none else s.dialed[id]? := by
  unfold forgetDials
  dsimp only
  generalize s.dialed = dialed
  induction ids generalizing dialed with
  | nil => simp
  | cons k rest ih =>
    rw [List.foldl_cons, ih]
    by_cases hrest : id ∈ rest
    · rw [if_pos hrest, if_pos (List.mem_cons_of_mem k hrest)]
    · rw [if_neg hrest]
      by_cases hk : id = k
      · rw [if_pos (hk ▸ List.mem_cons_self), hk]
        simp
      · rw [if_neg (by simp [hk, hrest]), getElem?_erase_of_ne _ (Ne.symm hk)]

/-- What the refresh leaves recorded is current. -/
theorem recordedCurrent_forgetDials (settings : AppSettings) (s : Connection.Service) :
    RecordedCurrent settings s.connections
      (forgetDials (staleDialsLocked settings s) s).dialed := by
  intro id client hdialed
  rw [getElem?_forgetDials] at hdialed
  split at hdialed
  · cases hdialed
  · rename_i hnot
    cases hstale : isStale settings s.connections id client with
    | false => rfl
    | true => exact absurd (mem_staleDialsLocked.mpr ⟨client, hdialed, hstale⟩) hnot

/-- What is resolved under one reading of the settings is current under it. -/
theorem isStale_resolve {settings : AppSettings} {profiles : Profiles} {id : Int}
    {connection : ConnectionProfile} (h : profiles[id]? = some connection) :
    isStale settings profiles id (resolveBetween settings settings connection) = false := by
  have hsame : resolveBetween settings settings connection =
      resolveForDial settings connection := by
    unfold resolveBetween resolveForDial
    dsimp only
    rw [ConnectionProfile.setACL_eq]
    split <;> rfl
  unfold isStale
  rw [h, hsame]
  exact dialParametersChanged_eq_false_iff.mpr (SameDial.refl _)

/-- Resolving keeps the profile's identity. -/
theorem resolveBetween_id (earlier later : AppSettings) (connection : ConnectionProfile) :
    (resolveBetween earlier later connection).id = connection.id :=
  resolveForDial_id later connection

/-! ## Steps of a dial -/

section Steps

variable {s t : State}

/-- Moving the dial on, with nothing else changed. -/
theorem Inv.withDial (h : Inv s) {p : DialPhase} (hnamed : DialNamed p)
    (hexclusive : s.refresh.holdsRuntime = true → p = .idle)
    (hnot : ∀ id client, s.dial ≠ .connected id client)
    (hunopened : ∀ id client, p ≠ .connected id client)
    (hcurrent : ∀ settings profiles, s.refresh = .returned settings profiles →
      DialCurrent settings profiles s.dial → DialCurrent settings profiles p) :
    Inv { s with dial := p } := by
  refine ⟨h.store, hnamed, hexclusive,
    fun id client hconnected => absurd hconnected (hunopened id client),
    fun id client hclient => ?_, ?_⟩
  · rcases h.recorded id client hclient with hrecorded | hconnected | hremoving
    · exact .inl hrecorded
    · exact absurd hconnected (hnot id client)
    · exact .inr (.inr hremoving)
  · have hrefreshed := h.refreshed
    show Refreshed { s with dial := p } s.refresh
    cases hphase : s.refresh with
    | returned settings profiles =>
      rw [hphase] at hrefreshed
      obtain ⟨hsettings, hprofiles, hrecorded, hdial⟩ := hrefreshed
      exact ⟨hsettings, hprofiles, hrecorded, hcurrent settings profiles hphase hdial⟩
    | _ =>
      rw [hphase] at hrefreshed
      exact hrefreshed

/-- While a dial is under way no refresh holds `runtimeMu`. -/
theorem Inv.notHeld (h : Inv s) (hdial : s.dial ≠ .idle) : s.refresh.holdsRuntime = true → False :=
  fun hheld => hdial (h.exclusive hheld)

/-- **Steps of a dial** keep the invariant. -/
theorem dialStep_inv (h : Inv s) {a : Act} (hstep : dialStep s a = some t) : Inv t := by
  cases a with
  | openReadOnly id =>
    simp only [dialStep] at hstep
    split at hstep
    · cases hstep
    · rename_i hfree
      have hfree : s.dial = .idle ∧ s.refresh.holdsRuntime = false := by
        simpa [State.runtimeFree] using hfree
      split at hstep
      · cases hstep
        exact h
      · cases hstep
        apply h.withDial (p := .locked id) trivial
        · simp [hfree.2]
        · simp [hfree.1]
        · simp
        · exact fun _ _ _ _ => trivial
  | resolveTimeout =>
    simp only [dialStep] at hstep
    cases hdial : s.dial with
    | locked id =>
      rw [hdial] at hstep
      dsimp only at hstep
      split at hstep
      · cases hstep
        apply h.withDial (p := .idle) trivial
        · exact fun _ => rfl
        · simp [hdial]
        · simp
        · exact fun _ _ _ _ => trivial
      · rename_i connection hconnection
        cases hstep
        apply h.withDial (p := .resolving id connection s.settings.settings)
        · exact h.store.keyed id connection hconnection
        · exact fun hheld => (h.notHeld (by simp [hdial]) hheld).elim
        · simp [hdial]
        · simp
        · intro settings profiles hphase _
          have hrefreshed := h.refreshed
          rw [hphase] at hrefreshed
          obtain ⟨rfl, rfl, _⟩ := hrefreshed
          exact ⟨hconnection, rfl⟩
    | _ =>
      rw [hdial] at hstep
      cases hstep
  | resolveCredentials =>
    simp only [dialStep] at hstep
    cases hdial : s.dial with
    | resolving id connection earlier =>
      rw [hdial] at hstep
      cases hstep
      have hnamed := h.named
      rw [hdial] at hnamed
      apply h.withDial
        (p := .dialing id (resolveBetween earlier s.settings.settings connection))
      · exact (resolveBetween_id earlier s.settings.settings connection).trans hnamed
      · exact fun hheld => (h.notHeld (by simp [hdial]) hheld).elim
      · simp [hdial]
      · simp
      · intro settings profiles hphase hcurrent
        have hrefreshed := h.refreshed
        rw [hphase] at hrefreshed
        rw [hdial] at hcurrent
        obtain ⟨hconnection, rfl⟩ := hcurrent
        rw [← hrefreshed.1]
        exact isStale_resolve hconnection
    | _ =>
      rw [hdial] at hstep
      cases hstep
  | answer fails =>
    simp only [dialStep] at hstep
    cases hdial : s.dial with
    | dialing id resolved =>
      rw [hdial] at hstep
      dsimp only at hstep
      have hnamed := h.named
      rw [hdial] at hnamed
      split at hstep
      · cases hstep
        apply h.withDial (p := .idle) trivial
        · exact fun _ => rfl
        · simp [hdial]
        · simp
        · exact fun _ _ _ _ => trivial
      · rename_i runtime hconnect
        cases hstep
        obtain ⟨_, hconns⟩ := Registry.connect_some hconnect
        have hnotHeld := h.notHeld (by simp [hdial])
        refine ⟨h.store, hnamed, fun hheld => (hnotHeld hheld).elim, ?_,
          fun k client hclient => ?_, ?_⟩
        · rintro k client hconnected
          cases hconnected
          dsimp only
          rw [hconns, show resolved.id = id from hnamed, Std.ExtTreeMap.getElem?_insert_self]
        · -- the new client is the one in flight, the others are as before
          dsimp only at hclient ⊢
          rw [hconns, getElem?_insert_ite] at hclient
          split at hclient
          · rename_i hk
            cases hclient
            exact .inr (.inl (by rw [← hk, show resolved.id = id from hnamed]))
          · rcases h.recorded k client hclient with hrecorded | hconnected | hremoving
            · exact .inl hrecorded
            · rw [hdial] at hconnected
              cases hconnected
            · exact .inr (.inr hremoving)
        · have hrefreshed := h.refreshed
          show Refreshed _ s.refresh
          cases hphase : s.refresh with
          | returned settings profiles =>
            rw [hphase] at hrefreshed
            obtain ⟨hsettings, hprofiles, hrecorded, hcurrent⟩ := hrefreshed
            rw [hdial] at hcurrent
            exact ⟨hsettings, hprofiles, hrecorded, hcurrent⟩
          | _ =>
            rw [hphase] at hrefreshed
            exact hrefreshed
    | _ =>
      rw [hdial] at hstep
      cases hstep
  | record =>
    simp only [dialStep] at hstep
    cases hdial : s.dial with
    | connected id resolved =>
      rw [hdial] at hstep
      cases hstep
      have hnotHeld := h.notHeld (by simp [hdial])
      have hinsert : ∀ {settings : AppSettings} {profiles : Profiles},
          RecordedCurrent settings profiles s.connections.dialed →
          isStale settings profiles id resolved = false →
          RecordedCurrent settings profiles (s.connections.dialed.insert id resolved) := by
        intro settings profiles hrecorded hcurrent k client hclient
        rw [getElem?_insert_ite] at hclient
        split at hclient
        · rename_i hk
          cases hclient
          exact hk ▸ hcurrent
        · exact hrecorded k client hclient
      refine ⟨h.store, trivial, fun _ => rfl, by simp, fun k client hclient => ?_, ?_⟩
      · dsimp only at hclient ⊢
        rw [getElem?_insert_ite]
        rcases h.recorded k client hclient with hrecorded | hconnected | hremoving
        · split
          · -- the client open under the id is the one that is being recorded
            rename_i hk
            rw [← hk, h.opened id resolved hdial] at hclient
            exact .inl hclient
          · exact .inl hrecorded
        · rw [hdial] at hconnected
          cases hconnected
          exact .inl (by simp)
        · exact .inr (.inr hremoving)
      · have hrefreshed := h.refreshed
        show Refreshed _ s.refresh
        cases hphase : s.refresh with
        | returned settings profiles =>
          rw [hphase] at hrefreshed
          obtain ⟨hsettings, hprofiles, hrecorded, hcurrent⟩ := hrefreshed
          rw [hdial] at hcurrent
          exact ⟨hsettings, hprofiles, hinsert hrecorded hcurrent, trivial⟩
        | removing settings profiles stale =>
          exact (hnotHeld (by rw [hphase]; rfl)).elim
        | _ =>
          rw [hphase] at hrefreshed
          exact hrefreshed
    | _ =>
      rw [hdial] at hstep
      cases hstep
  | _ => cases hstep

/-! ## Steps of a refresh -/

/-- Moving the refresh on, with nothing else changed, from a phase that removes no client. -/
theorem Inv.withRefresh (h : Inv s) {phase : RefreshPhase}
    (hnot : ∀ id, ¬ Removing id s.refresh)
    (hexclusive : phase.holdsRuntime = true → s.dial = .idle)
    (hrefreshed : Refreshed s phase) : Inv { s with refresh := phase } := by
  refine ⟨h.store, h.named, hexclusive, h.opened, fun id client hclient => ?_, hrefreshed⟩
  rcases h.recorded id client hclient with hrecorded | hconnected | hremoving
  · exact .inl hrecorded
  · exact .inr (.inl hconnected)
  · exact absurd hremoving (hnot id)

/-- Reloading keeps the store invariant and touches neither clients nor their record. -/
theorem reloadStore_spec {ctx : Context} {c c' : Connection.Service}
    {data : Option (Document Store)} (hstore : StoreInvariant c.connections c.nextID)
    (h : reloadStore ctx c data = .ok c') :
    StoreInvariant c'.connections c'.nextID ∧ c'.dialed = c.dialed ∧ c'.runtime = c.runtime := by
  unfold reloadStore at h
  split at h
  · cases h
    exact ⟨hstore, rfl, rfl⟩
  · split at h
    · cases h
      exact ⟨buildConnectionState_storeInvariant [], rfl, rfl⟩
    · unfold loadConnections at h
      split at h
      · cases h
      · rename_i ps _
        cases h
        exact ⟨buildConnectionState_storeInvariant ps, rfl, rfl⟩

/-- A dial that is not superseded, and does not hold `mu`, is current. -/
theorem dialCurrent_of_notStale (hfree : s.storeFree = true) (hstale : inFlightStale s = false) :
    DialCurrent s.settings.settings s.connections.connections s.dial := by
  unfold inFlightStale at hstale
  unfold State.storeFree at hfree
  cases hdial : s.dial with
  | idle => trivial
  | locked id => trivial
  | resolving id connection earlier =>
    rw [hdial] at hfree
    cases hfree
  | dialing id resolved =>
    rw [hdial] at hstale
    exact hstale
  | connected id resolved =>
    rw [hdial] at hstale
    exact hstale

/-- **Steps of a refresh** keep the invariant where its fast path is safe. -/
theorem refreshStep_inv {ctx : Context} (h : Inv s) {a : Act} (hsafe : FastPathSafe s a)
    (hstep : refreshStep ctx s a = some t) : Inv t := by
  have hrefreshed := h.refreshed
  cases a with
  | refresh =>
    simp only [refreshStep] at hstep
    split at hstep
    · rename_i hphase
      cases hstep
      exact h.withRefresh (by simp [hphase, Removing]) (by simp [RefreshPhase.holdsRuntime]) trivial
    · rename_i hphase
      cases hstep
      exact h.withRefresh (by simp [hphase, Removing]) (by simp [RefreshPhase.holdsRuntime]) trivial
    · cases hstep
  | readSettings fails =>
    simp only [refreshStep] at hstep
    split at hstep
    · rename_i hphase
      cases hstep
      apply h.withRefresh (by simp [hphase, Removing])
      · cases fails <;> simp [RefreshPhase.holdsRuntime]
      · cases fails <;> trivial
    · cases hstep
  | applySettings =>
    simp only [refreshStep] at hstep
    split at hstep
    · rename_i data hphase
      split at hstep
      · cases hstep
        exact h.withRefresh (by simp [hphase, Removing]) (by simp [RefreshPhase.holdsRuntime]) trivial
      · -- the settings change under a dial that may have read the previous ones
        cases hstep
        refine ⟨h.store, h.named, by simp [RefreshPhase.holdsRuntime], h.opened,
          fun id client hclient => ?_, rfl⟩
        rcases h.recorded id client hclient with hrecorded | hconnected | hremoving
        · exact .inl hrecorded
        · exact .inr (.inl hconnected)
        · rw [hphase] at hremoving
          exact hremoving.elim
    · cases hstep
  | readStore fails =>
    simp only [refreshStep] at hstep
    split at hstep
    · rename_i settings hphase
      rw [hphase] at hrefreshed
      cases hstep
      apply h.withRefresh (by simp [hphase, Removing])
      · cases fails <;> simp [RefreshPhase.holdsRuntime]
      · cases fails
        · exact hrefreshed
        · trivial
    · cases hstep
  | checkUnchanged =>
    simp only [refreshStep] at hstep
    split at hstep
    · rename_i settings data hphase
      rw [hphase] at hrefreshed
      split at hstep
      · cases hstep
      · rename_i hfree
        split at hstep
        · -- the fast path: recorded dials were judged, the one in flight is safe
          rename_i hunchanged
          cases hstep
          apply h.withRefresh (by simp [hphase, Removing]) (by simp [RefreshPhase.holdsRuntime])
          have hstale : inFlightStale s = false := hsafe rfl (by
            unfold takesFastPath
            rw [hphase]
            exact hunchanged)
          have hsettings : settings = s.settings.settings := hrefreshed
          rw [hsettings]
          exact ⟨rfl, rfl, recordedCurrent_of_unchanged hunchanged,
            dialCurrent_of_notStale (by simpa using hfree) hstale⟩
        · cases hstep
          exact h.withRefresh (by simp [hphase, Removing]) (by simp [RefreshPhase.holdsRuntime])
            hrefreshed
    · cases hstep
  | lockRuntime =>
    simp only [refreshStep] at hstep
    split at hstep
    · rename_i settings hphase
      rw [hphase] at hrefreshed
      split at hstep
      · rename_i hfree
        cases hstep
        apply h.withRefresh (by simp [hphase, Removing])
        · intro _
          simp only [State.runtimeFree, Bool.and_eq_true, decide_eq_true_eq] at hfree
          exact hfree.1
        · exact hrefreshed
      · cases hstep
    · cases hstep
  | rereadStore fails =>
    simp only [refreshStep] at hstep
    split at hstep
    · rename_i settings hphase
      rw [hphase] at hrefreshed
      cases hstep
      apply h.withRefresh (by simp [hphase, Removing])
      · exact fun _ => h.exclusive (by rw [hphase]; rfl)
      · cases fails
        · exact hrefreshed
        · trivial
    · cases hstep
  | applyStore =>
    simp only [refreshStep] at hstep
    split at hstep
    · rename_i settings data hphase
      rw [hphase] at hrefreshed
      have hidle : s.dial = .idle := h.exclusive (by rw [hphase]; rfl)
      split at hstep
      · cases hstep
        exact h.withRefresh (by simp [hphase, Removing]) (by simp [RefreshPhase.holdsRuntime]) trivial
      · rename_i reloaded hreload
        cases hstep
        obtain ⟨hstore, hdialed, hruntime⟩ := reloadStore_spec h.store hreload
        have hsettings : settings = s.settings.settings := hrefreshed
        refine ⟨hstore, h.named, fun _ => hidle, ?_, fun id client hclient => ?_, ?_⟩
        · intro id client hconnected
          dsimp only at hconnected
          rw [hidle] at hconnected
          cases hconnected
        · -- a client loses its record exactly when it is stale, and is then removed
          have hclient : s.connections.runtime.conns[id]? = some client := by
            rw [← hruntime]
            exact hclient
          dsimp only
          rw [getElem?_forgetDials]
          rcases h.recorded id client hclient with hrecorded | hconnected | hremoving
          · split
            · rename_i hstale
              exact .inr (.inr hstale)
            · rw [hdialed]
              exact .inl hrecorded
          · rw [hidle] at hconnected
            cases hconnected
          · rw [hphase] at hremoving
            exact hremoving.elim
        · refine ⟨hsettings, rfl, ?_⟩
          rw [hsettings]
          exact recordedCurrent_forgetDials s.settings.settings reloaded
    · cases hstep
  | removeStale =>
    simp only [refreshStep] at hstep
    split at hstep
    · rename_i settings profiles id stale hphase
      rw [hphase] at hrefreshed
      have hidle : s.dial = .idle := h.exclusive (by rw [hphase]; rfl)
      cases hstep
      refine ⟨h.store, h.named, fun _ => hidle, ?_, fun k client hclient => ?_, hrefreshed⟩
      · intro k client hconnected
        dsimp only at hconnected
        rw [hidle] at hconnected
        cases hconnected
      · dsimp only at hclient ⊢
        rw [Registry.remove_conns, Std.ExtTreeMap.getElem?_erase] at hclient
        split at hclient
        · cases hclient
        · rename_i hne
          rcases h.recorded k client hclient with hrecorded | hconnected | hremoving
          · exact .inl hrecorded
          · exact .inr (.inl hconnected)
          · rw [hphase] at hremoving
            rcases List.mem_cons.mp hremoving with rfl | hmem
            · exact absurd (Std.LawfulEqCmp.compare_eq_iff_eq.mpr rfl) hne
            · exact .inr (.inr hmem)
    · rename_i settings profiles hphase
      rw [hphase] at hrefreshed
      have hidle : s.dial = .idle := h.exclusive (by rw [hphase]; rfl)
      obtain ⟨hsettings, hprofiles, hrecorded⟩ := hrefreshed
      cases hstep
      apply h.withRefresh (by simp [hphase, Removing]) (by simp [RefreshPhase.holdsRuntime])
      refine ⟨hsettings, hprofiles, hrecorded, ?_⟩
      rw [hidle]
      trivial
    · cases hstep
  | _ => cases hstep

/-- **One step of any party** keeps the invariant where the fast path is safe. The window's
    writes touch neither memory nor clients. -/
theorem step_inv {ctx : Context} (h : Inv s) {a : Act} (hsafe : FastPathSafe s a)
    (hstep : (process ctx).step s a = some t) : Inv t := by
  have hparty : (dialStep s a <|> refreshStep ctx s a) = some t → Inv t := by
    intro hparty
    cases hdial : dialStep s a with
    | some u =>
      rw [hdial] at hparty
      cases hparty
      exact dialStep_inv h hdial
    | none =>
      rw [hdial] at hparty
      exact refreshStep_inv h hsafe hparty
  have hrefreshed := h.refreshed
  cases a with
  | writeSettings file =>
    cases hstep
    exact ⟨h.store, h.named, h.exclusive, h.opened, h.recorded, hrefreshed⟩
  | writeStore file =>
    cases hstep
    exact ⟨h.store, h.named, h.exclusive, h.opened, h.recorded, hrefreshed⟩
  | _ => exact hparty hstep

end Steps

/-! ## Every run -/

/-- A process that has just started holds no client. -/
theorem start_inv {ctx : Context} {s : State} (h : (process ctx).start s) : Inv s := by
  obtain ⟨_, ⟨file, readFails, hconnections⟩, hdial, hrefresh⟩ := h
  have hruntime : (new ctx file readFails).runtime.conns = ∅ := by
    unfold new
    rcases loadConnectionsFromFile_cases ctx (unloaded file) readFails with ⟨e, herr⟩ | ⟨_, hok⟩ |
      ⟨data, ps, _, _, hok⟩
    · rw [herr]
      rfl
    · rw [hok]
      rfl
    · rw [hok]
      rfl
  refine ⟨?_, ?_, fun _ => hdial, ?_, fun id client hclient => ?_, ?_⟩
  · rw [hconnections]
    exact new_storeInvariant ctx file readFails
  · rw [hdial]
    trivial
  · intro id client hconnected
    rw [hdial] at hconnected
    cases hconnected
  · rw [hconnections, hruntime] at hclient
    simp at hclient
  · rw [hrefresh]
    trivial

/-- **What a refresh vouches for**: in every run in which no refresh takes its fast path past a
    dial in flight that the settings it read supersede, once a refresh has returned nil, every
    client that is open, and every one a dial in flight may still open, was dialled with what the
    profiles and settings that refresh read resolve to. -/
theorem refresh_lets_no_superseded_client_live {ctx : Context} {s : State}
    (hs : (process ctx).Reachable FastPathSafe s) {settings : AppSettings} {profiles : Profiles}
    (hreturned : s.refresh = .returned settings profiles) :
    (∀ (id : Int) (client : ConnectionProfile), s.connections.runtime.conns[id]? = some client →
        isStale settings profiles id client = false) ∧
      ∀ (id : Int) (resolved : ConnectionProfile), s.dial = .dialing id resolved →
        isStale settings profiles id resolved = false := by
  have h : Inv s := by
    apply Machine.Reachable.invariant Inv (fun s => start_inv) _ hs
    exact fun s a t _ h hsafe hstep => step_inv h hsafe hstep
  have hrefreshed := h.refreshed
  rw [hreturned] at hrefreshed
  obtain ⟨_, _, hrecorded, hdial⟩ := hrefreshed
  refine ⟨fun id client hclient => ?_, fun id resolved hdialing => ?_⟩
  · rcases h.recorded id client hclient with hdialed | hconnected | hremoving
    · exact hrecorded id client hdialed
    · rw [hconnected] at hdial
      exact hdial
    · rw [hreturned] at hremoving
      exact hremoving.elim
  · rw [hdialing] at hdial
    exact hdial

/-- Settings with a global key pair. -/
def keyed (accessKey secretKey : String) : AppSettings :=
  { Settings.defaultSettings with globalAccessKey := accessKey, globalSecretKey := secretKey }

/-- The settings file that holds them. -/
def keyedFile (accessKey secretKey : String) : Option (Document AppSettings) :=
  some (.marshal (keyed accessKey secretKey))

/-- A RocketMQ profile that leans on the global key pair, as stored. -/
def leaning : ConnectionProfile := { draft .rocketmq .none with id := 1, isDefault := true }

/-- The profile file that holds it. -/
def leaningFile : Option (Document Store) :=
  some (.marshal ⟨1, [some (newConnectionRecord leaning)]⟩)

/-- The process over that file and a key pair. -/
def started : State where
  settings := .new plainContext.cipher (keyedFile "AK1" "SK1")
  connections := new plainContext leaningFile false
  dial := .idle
  refresh := .idle

theorem started_start : (process plainContext).start started :=
  ⟨⟨keyedFile "AK1" "SK1", .inl rfl⟩, ⟨leaningFile, false, rfl⟩, rfl, rfl⟩

/-- A client is opened, the window changes the key pair, a refresh drops the client, and it is
    opened again. -/
def redialled : State :=
  (process plainContext).endOf started
    [.openReadOnly 1, .resolveTimeout, .resolveCredentials, .answer false, .record,
      .writeSettings (keyedFile "AK2" "SK2"),
      .refresh, .readSettings false, .applySettings, .readStore false, .checkUnchanged,
      .lockRuntime, .rereadStore false, .applyStore, .removeStale, .removeStale,
      .openReadOnly 1, .resolveTimeout, .resolveCredentials, .answer false]

theorem refresh_lets_no_superseded_client_live_redialled :
    redialled.connections.runtime.hasClient 1 = true ∧
      ∀ client, redialled.connections.runtime.conns[(1 : Int)]? = some client →
        isStale (keyed "AK2" "SK2") redialled.connections.connections 1 client = false :=
  have hreturned : redialled.refresh =
      .returned (keyed "AK2" "SK2") redialled.connections.connections := by decide
  ⟨by decide, (refresh_lets_no_superseded_client_live
    (Machine.Reachable.endOf (.start started_start) (by decide)) hreturned).1 1⟩

/-- The window changes the key pair while a dial waits for its broker, and a refresh takes its
    fast path. -/
def slowDial : State :=
  (process plainContext).endOf started
    [.openReadOnly 1, .resolveTimeout, .resolveCredentials,
      .writeSettings (keyedFile "AK2" "SK2"),
      .refresh, .readSettings false, .applySettings, .readStore false, .checkUnchanged]

/-- **A slow dial outlives a refresh**: after a refresh returned nil, a dial started before it is
    still in flight with the key pair the settings it read have replaced. -/
theorem slow_dial_outlives_refresh :
    ¬ ∀ (ctx : Context) (s : State), (process ctx).Reachable Machine.Always s →
      ∀ (settings : AppSettings) (profiles : Profiles), s.refresh = .returned settings profiles →
        (∀ (id : Int) (client : ConnectionProfile),
            s.connections.runtime.conns[id]? = some client →
              isStale settings profiles id client = false) ∧
          ∀ (id : Int) (resolved : ConnectionProfile), s.dial = .dialing id resolved →
            isStale settings profiles id resolved = false := by
  intro h
  have hreachable : (process plainContext).Reachable Machine.Always slowDial :=
    Machine.Reachable.endOf (.start started_start) (Machine.permitted_always _ _ _)
  have hcurrent := (h plainContext slowDial hreachable (keyed "AK2" "SK2")
    slowDial.connections.connections (by decide)).2 1 (resolveForDial (keyed "AK1" "SK1") leaning.atRest)
    (by decide)
  revert hcurrent
  decide

end MqStudio.ReadOnly
