import MqStudio.Connection.StoreInvariant

/-!
# Status and Clients

A profile's status, the clients in the registry and the parameters each was dialled with are
three pieces of state that ten operations update separately. The invariant relates them id by
id (`TruthAt`), so an operation has to be checked only at the id it touches.

The application settings are fixed along a run, since they resolve what is dialled. A service
whose file does not exist holds no profile, which is what makes reloading without a file safe.

## Main results

- `perform_truth`: one operation keeps the invariant.
- `status_tells_the_truth`: the invariant in every state between operations.
-/

namespace MqStudio.Connection

open MqStudio.Driver
open MqStudio.Lib
open MqStudio.Lib.TreeMap
open MqStudio.Model
open MqStudio.Settings (AppSettings defaultSettings)
open MqStudio.Storage

/-! ## The invariant, one id at a time -/

theorem offline_ne_online : ConnectionStatus.offline ≠ ConnectionStatus.online := by decide

/-- What a profile and a client under one id may say of each other. -/
inductive TruthAt (settings : AppSettings) :
    Option ConnectionProfile → Option ConnectionProfile → Prop where
  | absent : TruthAt settings none none
  | closed {p : ConnectionProfile} (hstatus : p.status ≠ .online) : TruthAt settings (some p) none
  | opened {p q : ConnectionProfile} (hstatus : p.status = .online)
      (hsame : dialParametersChanged q p = false) :
      TruthAt settings (some p) (some (resolveForDial settings q))

/-- Every id is truthful. -/
def Truth (settings : AppSettings) (connections clients : Profiles) : Prop :=
  ∀ id : Int, TruthAt settings connections[id]? clients[id]?

variable {settings : AppSettings} {connections clients : Profiles}

/-- A change at one id is truthful when that id is. -/
theorem Truth.set (h : Truth settings connections clients) {connections' clients' : Profiles}
    (id : Int) (hconnections : ∀ k, id ≠ k → connections'[k]? = connections[k]?)
    (hclients : ∀ k, id ≠ k → clients'[k]? = clients[k]?)
    (hat : TruthAt settings connections'[id]? clients'[id]?) :
    Truth settings connections' clients' := by
  intro k
  by_cases hk : id = k
  · exact hk ▸ hat
  · rw [hconnections k hk, hclients k hk]
    exact h k

/-- A store without an online profile and without clients. -/
theorem truth_closed (h : ∀ (id : Int) (p : ConnectionProfile), connections[id]? = some p →
    p.status ≠ .online) : Truth settings connections ∅ := by
  intro id
  rw [Std.ExtTreeMap.getElem?_empty]
  cases hp : connections[id]? with
  | none => exact .absent
  | some p => exact .closed (h id p hp)

/-- The profile under a truthful id may be replaced by one with its status that dials alike. -/
theorem TruthAt.congr {p q : ConnectionProfile} {client : Option ConnectionProfile}
    (h : TruthAt settings (some p) client) (hstatus : q.status = p.status)
    (hdial : SameDial p q) : TruthAt settings (some q) client := by
  cases h with
  | closed hclosed => exact .closed (hstatus ▸ hclosed)
  | opened hopen hsame =>
    exact .opened (hstatus ▸ hopen) (dialParametersChanged_eq_false_iff.mpr
      ((dialParametersChanged_eq_false_iff.mp hsame).trans hdial))

/-- A profile that is not online has no client. -/
theorem TruthAt.client_none {p : ConnectionProfile} {client : Option ConnectionProfile}
    (h : TruthAt settings (some p) client) (hstatus : p.status ≠ .online) : client = none := by
  cases h with
  | closed _ => rfl
  | opened hopen _ => exact absurd hopen hstatus

theorem Truth.edit (h : Truth settings connections clients) {id : Int} {p q : ConnectionProfile}
    (hp : connections[id]? = some p) (hstatus : q.status = p.status) (hdial : SameDial p q) :
    Truth settings (connections.insert id q) clients := by
  refine h.set id (fun k hk => getElem?_insert_of_ne _ _ hk) (fun _ _ => rfl) ?_
  have hat := h id
  rw [hp] at hat
  rw [Std.ExtTreeMap.getElem?_insert_self]
  exact hat.congr hstatus hdial

/-- Taking a profile's client down. -/
theorem Truth.takeDown (h : Truth settings connections clients) {id : Int}
    {q : ConnectionProfile} (hstatus : q.status ≠ .online) :
    Truth settings (connections.insert id q) (clients.erase id) := by
  refine h.set id (fun k hk => getElem?_insert_of_ne _ _ hk)
    (fun k hk => getElem?_erase_of_ne _ hk) ?_
  rw [Std.ExtTreeMap.getElem?_insert_self, Std.ExtTreeMap.getElem?_erase_self]
  exact .closed hstatus

/-! ## One step -/

section Step

variable {ctx : Context}

/-- The invariant of a service. -/
structure Truthful (settings : AppSettings) (s : Service) : Prop where
  store : StoreInvariant s.connections s.nextID
  truth : Truth settings s.connections s.runtime.conns
  missing : s.file = none → s.connections = ∅

/-- Dialling keeps status and clients truthful. -/
theorem connectRuntimeLocked_truth {s : Service} (hstore : StoreInvariant s.connections s.nextID)
    (h : Truth settings s.connections s.runtime.conns) (id : Int) (faults : Faults) :
    Truth settings (connectRuntimeLocked ctx settings s id faults).1.connections
      (connectRuntimeLocked ctx settings s id faults).1.runtime.conns := by
  rcases connectRuntimeLocked_cases ctx settings s id faults with hsame | ⟨p, hp, _, hdialled⟩
  · rw [hsame]
    exact h
  · rw [hdialled.connections, hdialled.conns, hstore.keyed id p hp]
    refine h.set id (fun k hk => getElem?_insert_of_ne _ _ hk)
      (fun k hk => getElem?_insert_of_ne _ _ hk) ?_
    rw [Std.ExtTreeMap.getElem?_insert_self, Std.ExtTreeMap.getElem?_insert_self]
    exact .opened rfl (dialParametersChanged_eq_false_iff.mpr ⟨rfl, rfl, rfl, rfl, rfl, rfl⟩)

/-- Dialling never makes the file go away. -/
theorem connectRuntimeLocked_file {s : Service} {id : Int} {faults : Faults}
    (h : (connectRuntimeLocked ctx settings s id faults).1.file = none) : s.file = none := by
  rcases connectRuntimeLocked_cases ctx settings s id faults with hsame | ⟨p, _, _, hdialled⟩
  · rw [hsame] at h
    exact h
  · rcases hdialled.file with hfile | ⟨data, _, hfile⟩
    · rw [hfile] at h
      exact h
    · rw [hfile] at h
      cases h

theorem connectRuntimeLocked_truthful {s : Service} (h : Truthful settings s) (id : Int)
    (faults : Faults) : Truthful settings (connectRuntimeLocked ctx settings s id faults).1 := by
  refine ⟨connectRuntimeLocked_storeInvariant h.store id faults,
    connectRuntimeLocked_truth h.store h.truth id faults, fun hfile => ?_⟩
  -- without a file there is no profile to dial
  have hempty := h.missing (connectRuntimeLocked_file hfile)
  rcases connectRuntimeLocked_cases ctx settings s id faults with hsame | ⟨p, hp, _, _⟩
  · rw [hsame]
    exact hempty
  · rw [hempty] at hp
    simp at hp

/-- Storing an edit: the edit is truthful where its client stays, and offline where the client
    is taken down to be dialled again. -/
theorem EditStored.truthful {s s' : Service} {id : Int} {p edited : ConnectionProfile}
    {faults : Faults} {redial : Bool}
    (hstored : EditStored ctx settings s id edited faults redial s') (h : Truthful settings s)
    (hp : s.connections[id]? = some p) (hid : edited.id = p.id)
    (hdefault : edited.isDefault = p.isDefault)
    (hkept : redial = false → TruthAt settings (some edited) s.runtime.conns[id]?)
    (hdown : redial = true → edited.status ≠ .online) : Truthful settings s' := by
  have hstore := h.store.edit hp hid hdefault
  cases hstored with
  | kept _ =>
    refine ⟨hstore, ?_, fun hfile => by cases hfile⟩
    refine h.truth.set id (fun k hk => getElem?_insert_of_ne _ _ hk) (fun _ _ => rfl) ?_
    rw [Std.ExtTreeMap.getElem?_insert_self]
    exact hkept rfl
  | redialled _ =>
    refine connectRuntimeLocked_truthful ⟨hstore, ?_, fun hfile => by cases hfile⟩ id faults
    simp only [Registry.remove_conns]
    exact h.truth.takeDown (hdown rfl)

/-- Restoring the runtime for a store none of whose profiles is online. -/
theorem restoreRuntimeLocked_truthful {s : Service}
    (hstore : StoreInvariant s.connections s.nextID)
    (hoffline : ∀ (id : Int) (p : ConnectionProfile), s.connections[id]? = some p →
      p.status ≠ .online)
    (hmissing : s.file = none → s.connections = ∅) (plan : Bool) (faults : Faults) :
    Truthful settings (restoreRuntimeLocked ctx settings s plan faults).1 := by
  have hclosed : Truthful settings { s with runtime := s.runtime.closeAll } :=
    ⟨hstore, truth_closed hoffline, hmissing⟩
  obtain ⟨flag, hsame | hdialled⟩ := restoreRuntimeLocked_cases ctx settings s plan faults
  · rw [hsame]
    exact ⟨hclosed.store, hclosed.truth, hclosed.missing⟩
  · rw [hdialled]
    have := (connectRuntimeLocked_truthful hclosed (defaultID s.connections) faults :
      Truthful settings (connectRuntimeLocked ctx settings _ _ _).1)
    exact ⟨this.store, this.truth, this.missing⟩

/-- What was just loaded is not online. -/
theorem buildConnectionState_offline (profiles : List ConnectionProfile) (id : Int)
    (p : ConnectionProfile) (hp : (buildConnectionState profiles).1[id]? = some p) :
    p.status ≠ .online := by
  rw [← buildConnectionState_atRest, getElem?_atRest, Option.map_eq_some_iff] at hp
  obtain ⟨q, _, rfl⟩ := hp
  rw [ConnectionProfile.atRest_status]
  exact offline_ne_online

/-- **One operation keeps status and clients truthful**, whatever its arguments and faults. -/
theorem perform_truthful {s : Service} (h : Truthful settings s) (op : Op) (faults : Faults) :
    Truthful settings (perform ctx settings op faults s).service := by
  have hstore : StoreInvariant (perform ctx settings op faults s).service.connections
      (perform ctx settings op faults s).service.nextID := perform_storeInvariant h.store op faults
  cases op with
  | addConnection input =>
    simp only [perform] at hstore ⊢
    rcases addConnection_cases ctx h.store input faults with ⟨hsame, _⟩ |
      ⟨kind, name, endpoints, acl, data, _, _, _, _, _, hadded⟩
    · rw [hsame]
      exact h
    · obtain ⟨_, _, hstatus⟩ := addedProfile_frame s input kind name endpoints acl
      refine ⟨hstore, ?_, ?_⟩
      · rw [hadded]
        refine h.truth.set s.nextID (fun k hk => getElem?_insert_of_ne _ _ hk) (fun _ _ => rfl) ?_
        -- the next free id has neither profile nor client
        have hat := h.truth s.nextID
        rw [h.store.fresh] at hat
        simp only [Std.ExtTreeMap.getElem?_insert_self]
        cases hc : s.runtime.conns[s.nextID]? with
        | none => exact .closed (by rw [hstatus]; exact offline_ne_online)
        | some c =>
          rw [hc] at hat
          cases hat
      · rw [hadded]
        exact fun hnone => by cases hnone
  | updateConnection id input =>
    simp only [perform] at hstore ⊢
    rcases updateConnection_cases ctx settings s id input faults with
      ⟨hsame, _⟩ | ⟨previous, name, endpoints, acl, edited, hp, _, _, rfl, _, hstored⟩
    · rw [hsame]
      exact h
    · obtain ⟨hid, hdefault, hstatus⟩ := updatedProfile_frame previous input name endpoints acl
      have hat := h.truth id
      rw [hp] at hat
      refine hstored.truthful h hp ?_ ?_ ?_ ?_
      · split <;> exact hid
      · split <;> exact hdefault
      · intro hkept
        cases hchanged : dialParametersChanged previous
            (updatedProfile previous input name endpoints acl) with
        | false =>
          rw [if_neg (by decide)]
          exact hat.congr hstatus (dialParametersChanged_eq_false_iff.mp hchanged)
        | true =>
          have hnot : previous.status ≠ .online := by simpa [hchanged] using hkept
          rw [if_pos rfl, hat.client_none hnot]
          exact .closed offline_ne_online
      · intro hredial
        have hchanged : dialParametersChanged previous
            (updatedProfile previous input name endpoints acl) = true := by
          simp only [Bool.and_eq_true] at hredial
          exact hredial.1
        rw [if_pos hchanged]
        exact offline_ne_online
  | setOption id key value =>
    simp only [perform] at hstore ⊢
    rcases setOption_cases ctx settings s id key value faults with
      ⟨hsame, _⟩ | ⟨previous, options, hp, _, hstored⟩
    · rw [hsame]
      exact h
    · have hat := h.truth id
      rw [hp] at hat
      refine hstored.truthful h hp rfl rfl (fun hkept => ?_) fun _ => offline_ne_online
      rw [hat.client_none (by simpa using hkept)]
      exact .closed offline_ne_online
  | deleteConnection id =>
    simp only [perform] at hstore ⊢
    rcases deleteConnection_cases ctx s id faults with ⟨hsame, _⟩ |
      ⟨deleted, data, hp, _, _, _, hdeleted⟩
    · rw [hsame]
      exact h
    · refine ⟨hstore, ?_, ?_⟩
      · rw [hdeleted]
        have hat := h.truth id
        rw [hp] at hat
        dsimp only
        refine h.truth.set id (fun k hk => getElem?_erase_of_ne _ hk) (fun k hk => ?_) ?_
        · split
          · rw [Registry.remove_conns, getElem?_erase_of_ne _ hk]
          · rfl
        · rw [Std.ExtTreeMap.getElem?_erase_self]
          split
          · rw [Registry.remove_conns, Std.ExtTreeMap.getElem?_erase_self]
            exact .absent
          · rename_i hnot
            rw [hat.client_none hnot]
            exact .absent
      · rw [hdeleted]
        exact fun hnone => by cases hnone
  | setDefaultConnection id =>
    simp only [perform] at hstore ⊢
    rcases setDefaultConnection_cases ctx h.store id faults with ⟨hsame, _⟩ |
      ⟨chosen, data, _, _, _, hchosen⟩
    · rw [hsame]
      exact h
    · refine ⟨hstore, ?_, ?_⟩
      · rw [hchosen]
        intro k
        have hat := h.truth k
        rw [getElem?_withDefault]
        cases hk : s.connections[k]? with
        | none =>
          rw [hk] at hat
          exact hat
        | some p =>
          rw [hk] at hat
          exact hat.congr rfl ⟨rfl, rfl, rfl, rfl, rfl, rfl⟩
      · rw [hchosen]
        exact fun hnone => by cases hnone
  | replaceConnections profiles =>
    simp only [perform] at hstore ⊢
    rcases replaceConnections_cases ctx settings profiles s faults with ⟨hsame, _⟩ |
      ⟨prepared, data, plan, _, _, _, hreplaced⟩
    · rw [hsame]
      exact h
    · rw [hreplaced]
      exact restoreRuntimeLocked_truthful (buildConnectionState_storeInvariant prepared)
        (buildConnectionState_offline prepared) (fun hfile => by cases hfile) plan faults
  | reload =>
    simp only [perform] at hstore ⊢
    rcases reload_cases ctx settings s faults with hsame | ⟨loaded, plan, hload, hreloaded⟩
    · rw [hsame]
      exact h
    · rw [hreloaded]
      rcases loadConnectionsFromFile_cases ctx s faults.readFails with ⟨e, herr⟩ |
        ⟨hfile, hok⟩ | ⟨data, ps, hfile, _, hok⟩
      · rw [hload] at herr
        cases herr
      · -- no file: memory stays as it is, and it is empty
        rw [hload] at hok
        cases hok
        refine restoreRuntimeLocked_truthful (s := { s with reconnectReload := plan }) h.store
          (fun id p hp => ?_) h.missing plan faults
        rw [show s.connections = ∅ from h.missing hfile] at hp
        simp at hp
      · rw [hload] at hok
        cases hok
        refine restoreRuntimeLocked_truthful (buildConnectionState_storeInvariant ps)
          (buildConnectionState_offline ps) (fun hnone => ?_) plan faults
        rw [show s.file = none from hnone] at hfile
        cases hfile
  | connect id => exact connectRuntimeLocked_truthful h id faults
  | connectDefault =>
    simp only [perform, connectDefault]
    split
    · exact h
    · exact connectRuntimeLocked_truthful h (defaultID s.connections) faults
  | disconnect id =>
    simp only [perform] at hstore ⊢
    rcases disconnect_cases ctx s id faults with hsame | ⟨p, hp, hconnections, hconns, _, hfile⟩
    · rw [hsame]
      exact h
    · refine ⟨hstore, ?_, fun hnone => ?_⟩
      · rw [hconnections, hconns]
        exact h.truth.takeDown offline_ne_online
      · rcases hfile with hfile | ⟨data, _, hfile⟩
        · rw [h.missing (hfile ▸ hnone)] at hp
          simp at hp
        · rw [hfile] at hnone
          cases hnone
  | testConnection id =>
    simp only [perform] at hstore ⊢
    rcases testConnection_cases s id faults with hsame | ⟨p, hp, htested⟩
    · rw [hsame]
      exact h
    · refine ⟨hstore, ?_, fun hnone => ?_⟩
      · rw [htested]
        exact h.truth.edit hp rfl ⟨rfl, rfl, rfl, rfl, rfl, rfl⟩
      · rw [htested] at hnone
        rw [h.missing hnone] at hp
        simp at hp

/-- A fresh service is truthful: nothing is dialled yet. -/
theorem new_truthful (file : Option (Document Store)) (readFails : Bool) :
    Truthful settings (new ctx file readFails) := by
  have hstore := new_storeInvariant ctx file readFails
  unfold new at hstore ⊢
  rcases loadConnectionsFromFile_cases ctx (unloaded file) readFails with ⟨e, herr⟩ | ⟨_, hok⟩ |
    ⟨data, ps, hfile, _, hok⟩
  · rw [herr] at hstore ⊢
    exact ⟨hstore, truth_closed (by simp [unloaded]), fun _ => rfl⟩
  · rw [hok] at hstore ⊢
    exact ⟨hstore, truth_closed (by simp [unloaded]), fun _ => rfl⟩
  · rw [hok] at hstore ⊢
    refine ⟨hstore, truth_closed (buildConnectionState_offline ps), fun hnone => ?_⟩
    rw [show (unloaded file).file = none from hnone] at hfile
    cases hfile

end Step

/-! ## Every run -/

/-- **Status tells the truth about clients**: with the settings fixed, in every state between
    operations a profile is online exactly when the runtime holds a client under its id, no
    client is held under an id without a profile, and each client was dialled with the
    resolution of a profile that dials like the stored one. -/
theorem status_tells_the_truth {ctx : Context} {settings : AppSettings} {s : Service}
    (hs : (window ctx).Reachable (fun _ a => a.settings = settings) s) :
    (∀ (id : Int) (p : ConnectionProfile), s.connections[id]? = some p →
        (p.status = .online ↔ s.runtime.hasClient id = true)) ∧
      (∀ id : Int, s.runtime.hasClient id = true → ∃ p, s.connections[id]? = some p) ∧
      (∀ (id : Int) (client p : ConnectionProfile), s.runtime.conns[id]? = some client →
        s.connections[id]? = some p →
          ∃ q, client = resolveForDial settings q ∧ dialParametersChanged q p = false) := by
  have h : Truthful settings s := by
    refine Machine.Reachable.invariant (Truthful settings) ?_ ?_ hs
    · rintro s ⟨file, readFails, rfl⟩
      exact new_truthful file readFails
    · rintro s a t _ h rfl hstep
      cases hstep
      exact perform_truthful h a.op a.faults
  refine ⟨fun id p hp => ?_, fun id hclient => ?_, fun id client p hclient hp => ?_⟩
  · have hat := h.truth id
    rw [hp] at hat
    rw [Registry.hasClient_iff]
    cases hc : s.runtime.conns[id]? with
    | none =>
      rw [hc] at hat
      cases hat with
      | closed hnot => exact ⟨fun hon => absurd hon hnot, fun ⟨_, hsome⟩ => nomatch hsome⟩
    | some c =>
      rw [hc] at hat
      cases hat with
      | opened hon _ => exact ⟨fun _ => ⟨_, rfl⟩, fun _ => hon⟩
  · obtain ⟨client, hc⟩ := (s.runtime.hasClient_iff id).mp hclient
    have hat := h.truth id
    rw [hc] at hat
    cases hp : s.connections[id]? with
    | none =>
      rw [hp] at hat
      cases hat
    | some p => exact ⟨p, rfl⟩
  · have hat := h.truth id
    rw [hp, hclient] at hat
    cases hat with
    | opened _ hsame => exact ⟨_, rfl, hsame⟩

/-- A profile added, connected, and given another address while the broker is down. -/
def repointing : List Act :=
  [⟨defaultSettings, .addConnection (draft .rabbitmq .plain), noFaults⟩,
    ⟨defaultSettings, .connect 1, noFaults⟩,
    ⟨defaultSettings, .updateConnection 1 { draft .rabbitmq .plain with endpoints := "b:1" },
      { noFaults with dialFails := true }⟩]

def repointedOffline : Service :=
  after plainContext (new plainContext none false) repointing

theorem status_tells_the_truth_repointed :
    (repointedOffline.connections[(1 : Int)]?).isSome = true ∧
      ∀ p, repointedOffline.connections[(1 : Int)]? = some p →
        (p.status = .online ↔ repointedOffline.runtime.hasClient 1 = true) :=
  ⟨by decide, (status_tells_the_truth (reachable_after none repointing
    ⟨rfl, fun _ _ => ⟨rfl, fun _ _ => ⟨rfl, fun _ _ => trivial⟩⟩⟩)).1 1⟩

end MqStudio.Connection
