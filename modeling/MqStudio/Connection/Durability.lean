import MqStudio.Connection.DiskAgreement

/-!
# What a Fresh Start Would Read

Starting again over the file gives the profiles in memory, up to their clients. Unlike the
agreement after a save, this is a property of every state of a run: an operation that saves
establishes it, every other one keeps it. It can be lost in one way only, at the very start, when
a file that exists could not be read.

Replacing a store by its own profiles is the one operation looked at more closely: to import an
export and to roll a failed import back are both made of it.

## Main results

- `perform_freshAgrees`: one operation keeps memory and file in agreement.
- `replaceConnections_own`: what replacing any store by a store's own profiles comes to.
- `replaceConnections_own_clean`: with nothing in its way it succeeds.
-/

namespace MqStudio.Connection

open MqStudio.Driver
open MqStudio.Lib.TreeMap
open MqStudio.Model
open MqStudio.Settings (AppSettings)
open MqStudio.Storage

/-! ## Agreement with a fresh start -/

theorem atRest_empty : atRest ∅ = ∅ := by
  ext1 k
  simp

/-- A fresh start over the file holds the profiles in memory. -/
def FreshAgrees (ctx : Context) (s : Service) : Prop :=
  (new ctx s.file false).connections = atRest s.connections

instance (ctx : Context) (s : Service) : Decidable (FreshAgrees ctx s) :=
  inferInstanceAs (Decidable (_ = _))

variable {ctx : Context} {settings : AppSettings}

theorem FreshAgrees.congr {s t : Service} (h : FreshAgrees ctx s) (hfile : t.file = s.file)
    (hrest : atRest t.connections = atRest s.connections) : FreshAgrees ctx t := by
  unfold FreshAgrees
  rw [hfile, hrest]
  exact h

theorem FreshAgrees.of_eq {s t : Service} (h : FreshAgrees ctx s) (hsame : t = s) :
    FreshAgrees ctx t := by
  rw [hsame]
  exact h

/-- A file that loads back is read back by a fresh start. -/
theorem LoadsBack.freshAgrees {s : Service} (h : LoadsBack ctx s) : FreshAgrees ctx s := by
  unfold LoadsBack at h
  unfold FreshAgrees new
  cases hload : loadConnectionsFromFile ctx (unloaded s.file) false with
  | error e =>
    rw [hload] at h
    cases h
  | ok loaded =>
    rw [hload] at h
    exact Except.ok.inj h

/-- A service that read its file when it started agrees with it. -/
theorem freshAgrees_new (file : Option (Document Store)) :
    FreshAgrees ctx (new ctx file false) := by
  have hfile : (new ctx file false).file = file := by
    unfold new
    rcases loadConnectionsFromFile_cases ctx (unloaded file) false with ⟨e, herr⟩ | ⟨_, hok⟩ |
      ⟨data, ps, _, _, hok⟩
    · rw [herr]
      rfl
    · rw [hok]
      rfl
    · rw [hok]
      rfl
  have hrest : atRest (new ctx file false).connections = (new ctx file false).connections := by
    unfold new
    rcases loadConnectionsFromFile_cases ctx (unloaded file) false with ⟨e, herr⟩ | ⟨_, hok⟩ |
      ⟨data, ps, _, _, hok⟩
    · rw [herr]
      exact atRest_empty
    · rw [hok]
      exact atRest_empty
    · rw [hok]
      exact buildConnectionState_atRest ps
  unfold FreshAgrees
  rw [hfile, hrest]

/-! ## Dialling and restoring -/

/-- Dialling changes no profile at rest. -/
theorem connectRuntimeLocked_atRest (s : Service) (id : Int) (faults : Faults) :
    atRest (connectRuntimeLocked ctx settings s id faults).1.connections =
      atRest s.connections := by
  rcases connectRuntimeLocked_cases ctx settings s id faults with hsame | ⟨p, hp, _, hdialled⟩
  · rw [hsame]
  · rw [hdialled.connections]
    exact atRest_insert hp rfl

theorem restoreRuntimeLocked_atRest (s : Service) (plan : Bool) (faults : Faults) :
    atRest (restoreRuntimeLocked ctx settings s plan faults).1.connections =
      atRest s.connections := by
  obtain ⟨flag, hsame | hdialled⟩ := restoreRuntimeLocked_cases ctx settings s plan faults
  · rw [hsame]
  · rw [hdialled]
    exact connectRuntimeLocked_atRest { s with runtime := s.runtime.closeAll } _ faults

/-- Dialling keeps the agreement, whether or not the status could be saved. -/
theorem connectRuntimeLocked_freshAgrees {s : Service}
    (hstore : StoreInvariant s.connections s.nextID) (hnormal : AllNormal s.connections)
    (h : FreshAgrees ctx s) (id : Int) (faults : Faults) :
    FreshAgrees ctx (connectRuntimeLocked ctx settings s id faults).1 := by
  rcases connectRuntimeLocked_cases ctx settings s id faults with hsame | ⟨p, _, _, hdialled⟩
  · rw [hsame]
    exact h
  · rcases hdialled.file with hfile | ⟨data, hdata, hfile⟩
    · exact h.congr hfile (connectRuntimeLocked_atRest s id faults)
    · apply LoadsBack.freshAgrees
      exact loadsBack_of_encodes (connectRuntimeLocked_storeInvariant hstore id faults)
        (connectRuntimeLocked_allNormal hnormal id faults) hdata hfile

theorem restoreRuntimeLocked_freshAgrees {s : Service}
    (hstore : StoreInvariant s.connections s.nextID) (hnormal : AllNormal s.connections)
    (h : FreshAgrees ctx s) (plan : Bool) (faults : Faults) :
    FreshAgrees ctx (restoreRuntimeLocked ctx settings s plan faults).1 := by
  obtain ⟨flag, hsame | hdialled⟩ := restoreRuntimeLocked_cases ctx settings s plan faults
  · rw [hsame]
    exact h
  · rw [hdialled]
    exact connectRuntimeLocked_freshAgrees (s := { s with runtime := s.runtime.closeAll }) hstore
      hnormal h (defaultID s.connections) faults

/-! ## One operation -/

/-- What an operation that reports no save of its own does to memory and file. -/
theorem perform_notReached_freshAgrees {s : Service}
    (hstore : StoreInvariant s.connections s.nextID) (hnormal : AllNormal s.connections)
    (h : FreshAgrees ctx s) {op : Op} {faults : Faults}
    (hsaved : (perform ctx settings op faults s).saved = .notReached) :
    FreshAgrees ctx (perform ctx settings op faults s).service := by
  cases op with
  | addConnection input =>
    rcases addConnection_cases ctx hstore input faults with ⟨hsame, _⟩ |
      ⟨_, _, _, _, _, _, _, _, _, hdone, _⟩
    · exact h.of_eq hsame
    · rw [perform, hdone] at hsaved
      cases hsaved
  | updateConnection id input =>
    rcases updateConnection_cases ctx settings s id input faults with
      ⟨hsame, _⟩ | ⟨_, _, _, _, _, _, _, _, _, hdone, _⟩
    · exact h.of_eq hsame
    · rw [perform, hdone] at hsaved
      cases hsaved
  | setOption id key value =>
    rcases setOption_cases ctx settings s id key value faults with
      ⟨hsame, _⟩ | ⟨_, _, _, hdone, _⟩
    · exact h.of_eq hsame
    · rw [perform, hdone] at hsaved
      cases hsaved
  | deleteConnection id =>
    rcases deleteConnection_cases ctx s id faults with ⟨hsame, _⟩ | ⟨_, _, _, _, _, hdone, _⟩
    · exact h.of_eq hsame
    · rw [perform, hdone] at hsaved
      cases hsaved
  | setDefaultConnection id =>
    rcases setDefaultConnection_cases ctx hstore id faults with ⟨hsame, _⟩ |
      ⟨_, _, _, _, hdone, _⟩
    · exact h.of_eq hsame
    · rw [perform, hdone] at hsaved
      cases hsaved
  | replaceConnections connections =>
    rcases replaceConnections_cases ctx settings connections s faults with ⟨hsame, _⟩ |
      ⟨_, _, _, _, _, hdone, _⟩
    · exact h.of_eq hsame
    · rw [perform, hdone] at hsaved
      cases hsaved
  | reload =>
    rcases reload_cases ctx settings s faults with hsame | ⟨loaded, plan, hload, hreloaded⟩
    · exact h.of_eq hsame
    · rw [perform, hreloaded]
      rcases loadConnectionsFromFile_cases ctx s faults.readFails with ⟨e, herr⟩ | ⟨_, hok⟩ |
        ⟨data, ps, hfile, hdecode, hok⟩
      · rw [hload] at herr
        cases herr
      · rw [hload] at hok
        cases hok
        exact restoreRuntimeLocked_freshAgrees (s := { s with reconnectReload := plan }) hstore
          hnormal h plan faults
      · rw [hload] at hok
        cases hok
        -- a fresh start reads what was just read
        refine restoreRuntimeLocked_freshAgrees (buildConnectionState_storeInvariant ps)
          (loaded_allNormal hdecode) ?_ plan faults
        apply LoadsBack.freshAgrees
        refine (loadsBack_iff_loads (?_ : _ = some data)).mpr ?_
        · exact hfile
        · rw [loads, hdecode]
          exact congrArg Except.ok (buildConnectionState_atRest ps).symm
  | connect id => exact connectRuntimeLocked_freshAgrees hstore hnormal h id faults
  | connectDefault =>
    simp only [perform, connectDefault]
    split
    · exact h
    · exact connectRuntimeLocked_freshAgrees hstore hnormal h (defaultID s.connections) faults
  | disconnect id =>
    have hstore' : StoreInvariant (disconnect ctx id faults s).service.connections
        (disconnect ctx id faults s).service.nextID :=
      @perform_storeInvariant ctx settings s hstore (.disconnect id) faults
    have hnormal' := perform_allNormal ctx settings hstore hnormal (.disconnect id) trivial faults
    rcases disconnect_cases ctx s id faults with hsame | ⟨p, hp, hconnections, _, _, hfile⟩
    · exact h.of_eq hsame
    · rcases hfile with hfile | ⟨data, hdata, hfile⟩
      · refine h.congr hfile ?_
        rw [perform, hconnections]
        exact atRest_insert hp rfl
      · apply LoadsBack.freshAgrees
        exact loadsBack_of_encodes hstore' hnormal' hdata hfile
  | testConnection id =>
    rcases testConnection_cases s id faults with hsame | ⟨p, hp, htested⟩
    · exact h.of_eq hsame
    · rw [perform, htested]
      refine h.congr rfl ?_
      exact atRest_insert hp rfl

/-- **One operation keeps memory and file in agreement.** -/
theorem perform_freshAgrees {s : Service} (hstore : StoreInvariant s.connections s.nextID)
    (hnormal : AllNormal s.connections) (h : FreshAgrees ctx s) {op : Op}
    (hop : op.NamesFamilies ctx) (faults : Faults) :
    FreshAgrees ctx (perform ctx settings op faults s).service := by
  cases hsaved : (perform ctx settings op faults s).saved with
  | notReached => exact perform_notReached_freshAgrees hstore hnormal h hsaved
  | succeeded =>
    apply LoadsBack.freshAgrees
    exact perform_saved_loadsBack hstore hnormal hop faults hsaved
  | failed =>
    rw [perform_failed_unchanged hstore op faults hsaved]
    exact h

/-! ## Replacing by a store's own profiles -/

section Own

variable {connections : Profiles} {nextID : Int}

/-- **Replacing by a store's own profiles**: refused, and nothing changed; or the form accepts
    them all, memory holds them as a replacement leaves them, and so does the file. -/
theorem replaceConnections_own (h : StoreInvariant connections nextID)
    (hnormal : AllNormal connections) (s : Service) (faults : Faults) :
    ((replaceConnections ctx settings ((copyConnectionsSorted connections).map some) faults
          s).service = s ∧
        (replaceConnections ctx settings ((copyConnectionsSorted connections).map some) faults
          s).error ≠ none) ∨
      (AllAccepted ctx.endpoints connections ∧
        atRest (replaceConnections ctx settings ((copyConnectionsSorted connections).map some)
          faults s).service.connections = allReplaced connections ∧
        FreshAgrees ctx (replaceConnections ctx settings
          ((copyConnectionsSorted connections).map some) faults s).service) := by
  rcases replaceConnections_cases ctx settings ((copyConnectionsSorted connections).map some) s
    faults with ⟨hsame, _, herror⟩ | ⟨prepared, data, plan, hprepared, ⟨nonces, hdata⟩, _, hdone⟩
  · exact .inl ⟨hsame, herror⟩
  · right
    have haccepted := allAccepted_of_prepareReplacement hprepared
    rw [prepareReplacement_values h hnormal haccepted] at hprepared
    cases hprepared
    -- the prepared profiles load as they are, and their file loads to them
    have hbuilt : (buildConnectionState (values (allReplaced connections))).1 =
        allReplaced connections := by
      rw [buildConnectionState_values h.allReplaced hnormal.allReplaced, atRest_allReplaced]
    have hloads := loads_encode h.allReplaced hnormal.allReplaced hdata
    rw [hdone]
    refine ⟨haccepted, ?_, ?_⟩
    · rw [restoreRuntimeLocked_atRest]
      dsimp only
      rw [hbuilt, atRest_allReplaced]
    · refine restoreRuntimeLocked_freshAgrees (buildConnectionState_storeInvariant _) ?_ ?_ plan
        faults
      · rw [hbuilt]
        exact hnormal.allReplaced
      · apply LoadsBack.freshAgrees
        rw [loadsBack_iff_loads rfl, hloads, hbuilt]

/-- Nothing goes wrong during an operation: nonces are drawn, writes accepted, dials answered. -/
structure Faults.Clean (faults : Faults) : Prop where
  save : ∀ id key, (faults.save.nonces id key).isSome
  write : faults.save.writeFails = false
  dial : faults.dialFails = false
  stamp : ∀ id key, (faults.stamp.nonces id key).isSome
  stampWrite : faults.stamp.writeFails = false

theorem noFaults_clean : noFaults.Clean where
  save _ _ := rfl
  write := rfl
  dial := rfl
  stamp _ _ := rfl
  stampWrite := rfl

/-- A stored profile is dialled without an error. -/
theorem connectRuntimeLocked_clean {s : Service} {id : Int}
    (hstored : ∃ p, s.connections[id]? = some p) {faults : Faults} (hclean : faults.Clean) :
    (connectRuntimeLocked ctx settings s id faults).2 = none := by
  obtain ⟨p, hp⟩ := hstored
  unfold connectRuntimeLocked
  simp only [hp, hclean.dial, Registry.connect, Bool.false_eq_true, if_false]
  obtain ⟨data, hsave⟩ := saveConnectionsLocked_total ctx (stampStatus { s with
    runtime := (⟨s.runtime.conns.insert (resolveForDial settings p).id (resolveForDial settings p),
      s.runtime.activeID⟩ : Registry).setActive (resolveForDial settings p).id } id .online
    faults.now) faults.stamp hclean.stamp hclean.stampWrite
  rw [hsave]

/-- The runtime of a store is restored without an error. -/
theorem restoreRuntimeLocked_clean {s : Service} (h : StoreInvariant s.connections s.nextID)
    (plan : Bool) {faults : Faults} (hclean : faults.Clean) :
    (restoreRuntimeLocked ctx settings s plan faults).2 = none := by
  unfold restoreRuntimeLocked
  dsimp only
  split
  · rename_i hplan
    have hne : s.connections ≠ ∅ := by
      intro hempty
      apply hplan.2
      rw [hempty]
      decide
    obtain ⟨p, hp, _⟩ := defaultID_spec h hne
    have hnone : (connectRuntimeLocked ctx settings { s with runtime := s.runtime.closeAll }
        (defaultID s.connections) faults).2 = none := by
      exact connectRuntimeLocked_clean (s := { s with runtime := s.runtime.closeAll }) ⟨p, hp⟩ hclean
    generalize connectRuntimeLocked ctx settings { s with runtime := s.runtime.closeAll }
      (defaultID s.connections) faults = dialled at hnone
    obtain ⟨connected, error⟩ := dialled
    cases hnone
    rfl
  · rfl

/-- **With nothing in its way**, replacing by profiles the form accepts succeeds. -/
theorem replaceConnections_own_clean (h : StoreInvariant connections nextID)
    (hnormal : AllNormal connections) (haccepted : AllAccepted ctx.endpoints connections)
    (s : Service) {faults : Faults} (hclean : faults.Clean) :
    (replaceConnections ctx settings ((copyConnectionsSorted connections).map some) faults
      s).error = none := by
  obtain ⟨data, hdata⟩ := encodeConnectionsForDisk_total ctx.cipher
    (values (allReplaced connections)) hclean.save
  unfold replaceConnections
  rw [prepareReplacement_values h hnormal haccepted]
  dsimp only
  rw [hdata]
  simp only [hclean.write, Bool.false_eq_true, if_false]
  exact restoreRuntimeLocked_clean (buildConnectionState_storeInvariant _) _ hclean

end Own

end MqStudio.Connection
