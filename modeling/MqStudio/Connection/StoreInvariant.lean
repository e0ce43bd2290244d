import MqStudio.Connection.Effects
import MqStudio.Lib.Machine

/-!
# The Store Invariant over Whole Runs

The window as a state machine: it starts by loading any stored file, readable or not, and each
step is one operation with any arguments, under any settings, with any file operation refused,
any nonce not drawn and any dial unanswered.

## Main results

- `perform_storeInvariant`: one operation keeps the store invariant.
- `store_invariant`: the invariant holds in every state between operations.
-/

namespace MqStudio.Connection

open MqStudio.Driver
open MqStudio.Lib
open MqStudio.Lib.TreeMap
open MqStudio.Model
open MqStudio.Settings (AppSettings defaultSettings)
open MqStudio.Storage

/-! ## The machine -/

/-- One step of the window: an operation, the settings of the moment, and what the environment
    decides meanwhile. -/
structure Act where
  settings : AppSettings
  op : Op
  faults : Faults

/-- The window's connection service. -/
def window (ctx : Context) : Machine Service Act where
  start s := ∃ file readFails, s = new ctx file readFails
  step s a := some (perform ctx a.settings a.op a.faults s).service

/-- The state a list of operations leads to. -/
def after (ctx : Context) (s : Service) (acts : List Act) : Service :=
  acts.foldl (fun s a => (perform ctx a.settings a.op a.faults s).service) s

/-- Operations are never disabled, so every list of them runs. -/
theorem run_window (ctx : Context) (s : Service) (acts : List Act) :
    (window ctx).run s acts = some (after ctx s acts) := by
  induction acts generalizing s with
  | nil => rfl
  | cons a rest ih => exact ih (perform ctx a.settings a.op a.faults s).service

/-- A permitted list of operations on a fresh service ends in a reachable state. -/
theorem reachable_after {ctx : Context} {ok : Service → Act → Prop}
    (file : Option (Document Store)) (acts : List Act)
    (h : (window ctx).Permitted ok (new ctx file false) acts) :
    (window ctx).Reachable ok (after ctx (new ctx file false) acts) := by
  have hstart : (window ctx).Reachable ok (new ctx file false) := .start ⟨file, false, rfl⟩
  exact hstart.run h (run_window ctx _ acts)

/-- A draft as a form submits it. -/
def draft (kind : MQKind) (mechanism : AuthMechanism) : ConnectionProfile where
  id := 0
  name := "orders"
  group := ""
  kind := kind
  endpoints := "broker:5672"
  timeoutSec := 5
  auth := ⟨mechanism⟩
  status := .offline
  lastCheck := ""
  isDefault := false
  remark := ""
  options := none
  secrets := ∅

/-- A service without an endpoint policy, over a cipher that leaves text as it is. -/
def plainContext : Context := ⟨plainCipher, none⟩

/-! ## Edits of a store -/

variable {connections : Profiles} {nextID : Int}

/-- Replacing a profile by one with its id and its default flag. -/
theorem StoreInvariant.edit (h : StoreInvariant connections nextID) {id : Int}
    {p q : ConnectionProfile} (hp : connections[id]? = some p) (hid : q.id = p.id)
    (hdefault : q.isDefault = p.isDefault) : StoreInvariant (connections.insert id q) nextID := by
  have hpid := h.keyed id p hp
  have hcase : ∀ (k : Int) (r : ConnectionProfile), (connections.insert id q)[k]? = some r →
      ∃ r', connections[k]? = some r' := by
    intro k r hr
    rw [getElem?_insert_ite] at hr
    split at hr
    · rename_i heq
      exact ⟨p, heq ▸ hp⟩
    · exact ⟨r, hr⟩
  refine ⟨?_, ?_, ?_, ?_, h.next⟩
  · have := h.keyed.insert q
    rwa [hid, hpid] at this
  · intro k r hr
    obtain ⟨r', hr'⟩ := hcase k r hr
    exact h.positive k r' hr'
  · intro k r hr
    obtain ⟨r', hr'⟩ := hcase k r hr
    exact h.below k r' hr'
  · refine h.oneDefault.congr fun k => ?_
    rw [getElem?_insert_ite]
    split
    · rename_i heq
      rw [← heq, hp, Option.map_some, Option.map_some, hdefault]
    · rfl

/-- Adding a profile under the next free id; the first one is the default. -/
theorem StoreInvariant.add (h : StoreInvariant connections nextID) {p : ConnectionProfile}
    (hid : p.id = nextID) (hdefault : p.isDefault = connections.isEmpty) :
    StoreInvariant (connections.insert nextID p) (nextID + 1) := by
  have hnext := h.next
  refine ⟨?_, ?_, ?_, ?_, by omega⟩
  · have := h.keyed.insert p
    rwa [hid] at this
  · intro k q hq
    rw [getElem?_insert_ite] at hq
    split at hq
    · omega
    · exact h.positive k q hq
  · intro k q hq
    rw [getElem?_insert_ite] at hq
    split at hq
    · omega
    · have := h.below k q hq
      omega
  · by_cases hempty : connections = ∅
    · subst hempty
      exact oneMarked_singleton (by rw [hdefault]; exact Std.ExtTreeMap.isEmpty_iff.mpr rfl)
    · refine h.oneDefault.insert_unmarked hempty h.fresh ?_
      rw [hdefault]
      exact Std.ExtTreeMap.isEmpty_eq_false_iff.mpr hempty

/-- Removing a profile that is not the default, or the last one. -/
theorem StoreInvariant.erase (h : StoreInvariant connections nextID) {id : Int}
    {p : ConnectionProfile} (hp : connections[id]? = some p)
    (hlast : p.isDefault = true → connections.erase id = ∅) :
    StoreInvariant (connections.erase id) nextID := by
  have hcase : ∀ (k : Int) (q : ConnectionProfile), (connections.erase id)[k]? = some q →
      connections[k]? = some q := by
    intro k q hq
    rw [Std.ExtTreeMap.getElem?_erase] at hq
    split at hq
    · cases hq
    · exact hq
  refine ⟨h.keyed.erase id, fun k q hq => h.positive k q (hcase k q hq),
    fun k q hq => h.below k q (hcase k q hq), ?_, h.next⟩
  cases hdefault : p.isDefault with
  | true => exact hlast hdefault ▸ oneMarked_empty _
  | false =>
    refine h.oneDefault.erase_unmarked ?_
    rintro ⟨q, hq, hmark⟩
    rw [hp] at hq
    cases hq
    rw [hdefault] at hmark
    cases hmark

/-- Moving the default flag to a stored profile. -/
theorem StoreInvariant.choose (h : StoreInvariant connections nextID) {id : Int}
    {p : ConnectionProfile} (hp : connections[id]? = some p) :
    StoreInvariant (withDefault connections id) nextID := by
  have hcase : ∀ (k : Int) (q : ConnectionProfile), (withDefault connections id)[k]? = some q →
      ∃ r, connections[k]? = some r ∧ q = { r with isDefault := decide (id = k) } := by
    intro k q hq
    rw [getElem?_withDefault, Option.map_eq_some_iff] at hq
    obtain ⟨r, hr, rfl⟩ := hq
    exact ⟨r, hr, rfl⟩
  refine ⟨?_, ?_, ?_, ?_, h.next⟩
  · intro k q hq
    obtain ⟨r, hr, rfl⟩ := hcase k q hq
    exact h.keyed k r hr
  · intro k q hq
    obtain ⟨r, hr, _⟩ := hcase k q hq
    exact h.positive k r hr
  · intro k q hq
    obtain ⟨r, hr, _⟩ := hcase k q hq
    exact h.below k r hr
  · intro _
    refine ⟨id, ⟨{ p with isDefault := true }, by simp [getElem?_withDefault, hp], rfl⟩, ?_⟩
    rintro k ⟨q, hq, hmark⟩
    obtain ⟨r, _, rfl⟩ := hcase k q hq
    exact (of_decide_eq_true hmark).symm

/-! ## One step -/

section Step

variable {ctx : Context} {settings : AppSettings}

/-- Dialling keeps the store invariant. -/
theorem connectRuntimeLocked_storeInvariant {s : Service}
    (h : StoreInvariant s.connections s.nextID) (id : Int) (faults : Faults) :
    StoreInvariant (connectRuntimeLocked ctx settings s id faults).1.connections
      (connectRuntimeLocked ctx settings s id faults).1.nextID := by
  rcases connectRuntimeLocked_cases ctx settings s id faults with
    hsame | ⟨p, hp, _, hdialled⟩
  · rw [hsame]
    exact h
  · rw [hdialled.connections, hdialled.nextID]
    exact h.edit hp rfl rfl

/-- So does storing an edit that keeps the id and the default flag. -/
theorem EditStored.storeInvariant {s s' : Service} {id : Int} {p edited : ConnectionProfile}
    {faults : Faults} {redial : Bool}
    (hstored : EditStored ctx settings s id edited faults redial s')
    (h : StoreInvariant s.connections s.nextID) (hp : s.connections[id]? = some p)
    (hid : edited.id = p.id) (hdefault : edited.isDefault = p.isDefault) :
    StoreInvariant s'.connections s'.nextID := by
  have hedit := h.edit hp hid hdefault
  cases hstored with
  | kept _ => exact hedit
  | redialled _ => exact connectRuntimeLocked_storeInvariant hedit id faults

/-- So does restoring the runtime. -/
theorem restoreRuntimeLocked_storeInvariant {s : Service}
    (h : StoreInvariant s.connections s.nextID) (plan : Bool) (faults : Faults) :
    StoreInvariant (restoreRuntimeLocked ctx settings s plan faults).1.connections
      (restoreRuntimeLocked ctx settings s plan faults).1.nextID := by
  obtain ⟨flag, hsame | hdialled⟩ :=
    restoreRuntimeLocked_cases ctx settings s plan faults
  · rw [hsame]
    exact h
  · rw [hdialled]
    exact connectRuntimeLocked_storeInvariant (s := { s with runtime := s.runtime.closeAll }) h
      (defaultID s.connections) faults

/-- An update edits neither the id nor the default flag. -/
theorem updatedProfile_frame (previous input : ConnectionProfile) (name endpoints : String)
    (acl : Bool × String × String) :
    (updatedProfile previous input name endpoints acl).id = previous.id ∧
      (updatedProfile previous input name endpoints acl).isDefault = previous.isDefault ∧
      (updatedProfile previous input name endpoints acl).status = previous.status := by
  unfold updatedProfile applyCredentials
  dsimp only
  rw [ConnectionProfile.setACL_eq]
  split <;> exact ⟨rfl, rfl, rfl⟩

/-- An added profile has the next free id, and is the default in an empty store. -/
theorem addedProfile_frame (s : Service) (input : ConnectionProfile) (kind : MQKind)
    (name endpoints : String) (acl : Bool × String × String) :
    (addedProfile s input kind name endpoints acl).id = s.nextID ∧
      (addedProfile s input kind name endpoints acl).isDefault = s.connections.isEmpty ∧
      (addedProfile s input kind name endpoints acl).status = .offline := by
  unfold addedProfile applyCredentials
  dsimp only
  rw [ConnectionProfile.setACL_eq]
  split <;> exact ⟨rfl, rfl, rfl⟩

/-- **One operation keeps the store invariant**, whatever its arguments and its faults. -/
theorem perform_storeInvariant {s : Service} (h : StoreInvariant s.connections s.nextID) (op : Op)
    (faults : Faults) : StoreInvariant (perform ctx settings op faults s).service.connections
      (perform ctx settings op faults s).service.nextID := by
  cases op with
  | addConnection input =>
    rcases addConnection_cases ctx h input faults with ⟨hsame, _⟩ |
      ⟨kind, name, endpoints, acl, data, _, _, _, _, _, hadded⟩
    · simp only [perform]
      rw [hsame]
      exact h
    · obtain ⟨hid, hdefault, _⟩ := addedProfile_frame s input kind name endpoints acl
      simp only [perform, hadded]
      exact h.add hid hdefault
  | updateConnection id input =>
    rcases updateConnection_cases ctx settings s id input faults with
      ⟨hsame, _⟩ | ⟨previous, name, endpoints, acl, edited, hp, _, _, rfl, _, hstored⟩
    · simp only [perform]
      rw [hsame]
      exact h
    · obtain ⟨hid, hdefault, _⟩ := updatedProfile_frame previous input name endpoints acl
      simp only [perform]
      refine hstored.storeInvariant h hp ?_ ?_
      · split <;> exact hid
      · split <;> exact hdefault
  | setOption id key value =>
    rcases setOption_cases ctx settings s id key value faults with
      ⟨hsame, _⟩ | ⟨previous, options, hp, _, hstored⟩
    · simp only [perform]
      rw [hsame]
      exact h
    · simp only [perform]
      exact hstored.storeInvariant h hp rfl rfl
  | deleteConnection id =>
    rcases deleteConnection_cases ctx s id faults with ⟨hsame, _⟩ |
      ⟨deleted, data, hp, hlast, _, _, hdeleted⟩
    · simp only [perform]
      rw [hsame]
      exact h
    · simp only [perform, hdeleted]
      exact h.erase hp hlast
  | setDefaultConnection id =>
    rcases setDefaultConnection_cases ctx h id faults with ⟨hsame, _⟩ |
      ⟨chosen, data, hp, _, _, hchosen⟩
    · simp only [perform]
      rw [hsame]
      exact h
    · simp only [perform, hchosen]
      exact h.choose hp
  | replaceConnections profiles =>
    rcases replaceConnections_cases ctx settings profiles s faults with ⟨hsame, _⟩ |
      ⟨prepared, data, plan, _, _, _, hreplaced⟩
    · simp only [perform]
      rw [hsame]
      exact h
    · simp only [perform, hreplaced]
      exact restoreRuntimeLocked_storeInvariant (buildConnectionState_storeInvariant prepared) plan
        faults
  | reload =>
    rcases reload_cases ctx settings s faults with hsame | ⟨loaded, plan, hload, hreloaded⟩
    · simp only [perform]
      rw [hsame]
      exact h
    · simp only [perform, hreloaded]
      refine restoreRuntimeLocked_storeInvariant ?_ plan faults
      rcases loadConnectionsFromFile_cases ctx s faults.readFails with ⟨e, herr⟩ | ⟨_, hok⟩ |
        ⟨data, ps, _, _, hok⟩
      · rw [hload] at herr
        cases herr
      · rw [hload] at hok
        cases hok
        exact h
      · rw [hload] at hok
        cases hok
        exact buildConnectionState_storeInvariant ps
  | connect id => exact connectRuntimeLocked_storeInvariant h id faults
  | connectDefault =>
    simp only [perform, connectDefault]
    split
    · exact h
    · exact connectRuntimeLocked_storeInvariant h (defaultID s.connections) faults
  | disconnect id =>
    rcases disconnect_cases ctx s id faults with hsame | ⟨p, hp, hconnections, _, hnext, _⟩
    · simp only [perform]
      rw [hsame]
      exact h
    · simp only [perform, hconnections, hnext]
      exact h.edit hp rfl rfl
  | testConnection id =>
    rcases testConnection_cases s id faults with hsame | ⟨p, hp, htested⟩
    · simp only [perform]
      rw [hsame]
      exact h
    · simp only [perform, htested]
      exact h.edit hp rfl rfl

/-- A fresh service satisfies the store invariant, whatever its file holds. -/
theorem new_storeInvariant (ctx : Context) (file : Option (Document Store)) (readFails : Bool) :
    StoreInvariant (new ctx file readFails).connections (new ctx file readFails).nextID := by
  unfold new
  rcases loadConnectionsFromFile_cases ctx (unloaded file) readFails with ⟨e, herr⟩ | ⟨_, hok⟩ |
    ⟨data, ps, _, _, hok⟩
  · rw [herr]
    exact storeInvariant_empty
  · rw [hok]
    exact storeInvariant_empty
  · rw [hok]
    exact buildConnectionState_storeInvariant ps

end Step

/-! ## Every run -/

/-- The store invariant is an invariant of the window, under any side condition. -/
theorem reachable_storeInvariant {ctx : Context} {ok : Service → Act → Prop} {s : Service}
    (hs : (window ctx).Reachable ok s) : StoreInvariant s.connections s.nextID := by
  refine Machine.Reachable.invariant (fun s => StoreInvariant s.connections s.nextID) ?_ ?_ hs
  · rintro s ⟨file, readFails, rfl⟩
    exact new_storeInvariant ctx file readFails
  · rintro s a t _ h _ hstep
    cases hstep
    exact perform_storeInvariant h a.op a.faults

/-- **The connection store in every state between operations**: each profile sits under its own
    id, ids are positive and strictly below the next free one, and a nonempty store has exactly
    one default. Runs start from any stored file and take any operations, with any save, read
    or dial failing at any point. -/
theorem store_invariant {ctx : Context} {s : Service}
    (hs : (window ctx).Reachable Machine.Always s) :
    (∀ (id : Int) (p : ConnectionProfile), s.connections[id]? = some p →
        p.id = id ∧ 0 < id ∧ id < s.nextID) ∧
      (s.connections ≠ ∅ →
        ∃! id : Int, ∃ p, s.connections[id]? = some p ∧ p.isDefault = true) := by
  have h := reachable_storeInvariant hs
  exact ⟨fun id p hp => ⟨h.keyed id p hp, h.positive id p hp, h.below id p hp⟩, h.oneDefault⟩

/-- Two profiles added, the second connected, and a change of default that could not be saved. -/
def twoProfiles : Service :=
  after plainContext (new plainContext none false)
    [⟨defaultSettings, .addConnection (draft .rabbitmq .plain), noFaults⟩,
      ⟨defaultSettings, .addConnection (draft .kafka .saslPlain), noFaults⟩,
      ⟨defaultSettings, .connect 2, noFaults⟩,
      ⟨defaultSettings, .setDefaultConnection 2,
        { noFaults with save := { noSaveFaults with writeFails := true } }⟩]

theorem store_invariant_twoProfiles :
    twoProfiles.connections.keys = [1, 2] ∧ twoProfiles.nextID = 3 ∧
      ∃! id : Int, ∃ p, twoProfiles.connections[id]? = some p ∧ p.isDefault = true :=
  ⟨by decide, by decide,
    (store_invariant (reachable_after none _ (Machine.permitted_always _ _ _))).2 (by decide)⟩

end MqStudio.Connection
