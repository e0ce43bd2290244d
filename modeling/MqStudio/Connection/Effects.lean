import MqStudio.Connection.Operations

/-!
# What an Operation Can Do

One specification lemma for each helper and each operation of the connection service. Every
invariant of the service is derived from these, never from the operations' bodies:

- a refused operation, and one whose save failed, left the service as it was;
- one whose save succeeded put an edited store in memory and the encoding of that store in the
  file, and may then have redialled one profile.
-/

namespace MqStudio.Connection

open MqStudio.Driver
open MqStudio.Lib.TreeMap
open MqStudio.Model
open MqStudio.Settings (AppSettings)
open MqStudio.Storage

variable (ctx : Context) (settings : AppSettings)

/-! ## Saving -/

/-- `data` is an encoding of the profiles. -/
def Encodes (connections : Profiles) (data : Document Store) : Prop :=
  ∃ nonces, encodeConnectionsForDisk ctx.cipher nonces (copyConnectionsSorted connections) =
    .ok data

/-- A save either fails or puts an encoding of the profiles in the file. -/
theorem saveConnectionsLocked_cases (s : Service) (faults : SaveFaults) :
    (∃ e, saveConnectionsLocked ctx s faults = .error e) ∨
      ∃ data, Encodes ctx s.connections data ∧
        saveConnectionsLocked ctx s faults = .ok { s with file := some data } := by
  unfold saveConnectionsLocked
  cases hdata : encodeConnectionsForDisk ctx.cipher faults.nonces
      (copyConnectionsSorted s.connections) with
  | error e => exact .inl ⟨e, rfl⟩
  | ok data =>
    cases hwrite : faults.writeFails with
    | true => exact .inl ⟨.write, rfl⟩
    | false => exact .inr ⟨data, ⟨faults.nonces, hdata⟩, rfl⟩

/-- A save with every nonce drawn and the write accepted succeeds. -/
theorem saveConnectionsLocked_total (s : Service) (faults : SaveFaults)
    (hnonces : ∀ id key, (faults.nonces id key).isSome) (hwrite : faults.writeFails = false) :
    ∃ data, saveConnectionsLocked ctx s faults = .ok { s with file := some data } := by
  obtain ⟨data, hdata⟩ := encodeConnectionsForDisk_total ctx.cipher
    (copyConnectionsSorted s.connections) hnonces
  exact ⟨data, by simp [saveConnectionsLocked, hdata, hwrite]⟩

/-! ## Dialling -/

/-- The profile as it reads once its client answered. -/
def nowOnline (p : ConnectionProfile) (now : String) : ConnectionProfile :=
  { p with status := .online, lastCheck := now }

/-- The profile as it reads once its client was closed. -/
def nowOffline (p : ConnectionProfile) (now : String) : ConnectionProfile :=
  { p with status := .offline, lastCheck := now }

/-- The service after a dial of `p` was answered, whether or not the status could be saved. -/
structure Dialled (s : Service) (id : Int)
    (p : ConnectionProfile) (now : String) (s' : Service) : Prop where
  connections : s'.connections = s.connections.insert id (nowOnline p now)
  conns : s'.runtime.conns = s.runtime.conns.insert p.id (resolveForDial settings p)
  nextID : s'.nextID = s.nextID
  reconnectReload : s'.reconnectReload = s.reconnectReload
  file : s'.file = s.file ∨ ∃ data, Encodes ctx s'.connections data ∧ s'.file = some data

/-- **Dialling**: nothing happened, or the profile under the id was dialled and its status
    recorded. -/
theorem connectRuntimeLocked_cases (s : Service) (id : Int) (faults : Faults) :
    (connectRuntimeLocked ctx settings s id faults).1 = s ∨
      ∃ p, s.connections[id]? = some p ∧ faults.dialFails = false ∧
        Dialled ctx settings s id p faults.now (connectRuntimeLocked ctx settings s id faults).1 := by
  unfold connectRuntimeLocked
  cases hp : s.connections[id]? with
  | none => exact .inl rfl
  | some p =>
    dsimp only
    cases hdial : s.runtime.connect (resolveForDial settings p) faults.dialFails with
    | none => exact .inl rfl
    | some runtime =>
      obtain ⟨hfails, hconns⟩ := Registry.connect_some hdial
      rw [resolveForDial_id] at hconns
      have hstamp : stampStatus { s with runtime := runtime } id .online faults.now =
          { s with
            runtime := runtime
            connections := s.connections.insert id (nowOnline p faults.now) } := by
        simp only [stampStatus, hp]
        rfl
      dsimp only
      rw [hstamp]
      rcases saveConnectionsLocked_cases ctx { s with
        runtime := runtime
        connections := s.connections.insert id (nowOnline p faults.now) } faults.stamp with
        ⟨e, hsave⟩ | ⟨data, hdata, hsave⟩
      · rw [hsave]
        exact .inr ⟨p, rfl, hfails, ⟨rfl, hconns, rfl, rfl, .inl rfl⟩⟩
      · rw [hsave]
        exact .inr ⟨p, rfl, hfails, ⟨rfl, hconns, rfl, rfl, .inr ⟨data, hdata, rfl⟩⟩⟩

/-- **Disconnecting** closes the client of a stored profile and records it. -/
theorem disconnect_cases (s : Service) (id : Int) (faults : Faults) :
    (disconnect ctx id faults s).service = s ∨
      ∃ p, s.connections[id]? = some p ∧
        (disconnect ctx id faults s).service.connections =
          s.connections.insert id (nowOffline p faults.now) ∧
        (disconnect ctx id faults s).service.runtime.conns = s.runtime.conns.erase id ∧
        (disconnect ctx id faults s).service.nextID = s.nextID ∧
        ((disconnect ctx id faults s).service.file = s.file ∨
          ∃ data, Encodes ctx (disconnect ctx id faults s).service.connections data ∧
            (disconnect ctx id faults s).service.file = some data) := by
  unfold disconnect
  cases hp : s.connections[id]? with
  | none => exact .inl rfl
  | some p =>
    have hstamp : stampStatus { s with runtime := s.runtime.remove id } id .offline faults.now =
        { s with
          runtime := s.runtime.remove id
          connections := s.connections.insert id (nowOffline p faults.now) } := by
      simp only [stampStatus, hp]
      rfl
    dsimp only
    rw [hstamp]
    rcases saveConnectionsLocked_cases ctx { s with
      runtime := s.runtime.remove id
      connections := s.connections.insert id (nowOffline p faults.now) } faults.stamp with
      ⟨e, hsave⟩ | ⟨data, hdata, hsave⟩
    · rw [hsave]
      exact .inr ⟨p, rfl, rfl, Registry.remove_conns _ _, rfl, .inl rfl⟩
    · rw [hsave]
      exact .inr ⟨p, rfl, rfl, Registry.remove_conns _ _, rfl, .inr ⟨data, hdata, rfl⟩⟩

/-- **Testing** records the time of the check. -/
theorem testConnection_cases (s : Service) (id : Int) (faults : Faults) :
    (testConnection id faults s).service = s ∨
      ∃ p, s.connections[id]? = some p ∧ (testConnection id faults s).service =
        { s with connections := s.connections.insert id { p with lastCheck := faults.now } } := by
  unfold testConnection
  cases hp : s.connections[id]? with
  | none => exact .inl rfl
  | some p => exact .inr ⟨p, rfl, rfl⟩

/-! ## Adding -/

/-- **Adding**: refused or not saved, nothing changed; else a checked profile sits under the
    next free id. -/
theorem addConnection_cases {s : Service} (h : StoreInvariant s.connections s.nextID)
    (input : ConnectionProfile) (faults : Faults) :
    ((addConnection ctx input faults s).service = s ∧
        (addConnection ctx input faults s).saved ≠ .succeeded) ∨
      ∃ kind name endpoints acl data,
        kind ≠ .unset ∧
        validateConnectionFields ctx.endpoints kind input.name input.endpoints
          input.timeoutSec = .ok (name, endpoints) ∧
        normalizeACLConfig input.aclEnabled (input.secret secretAccessKey)
          (input.secret secretSecretKey) = .ok acl ∧
        Encodes ctx (s.connections.insert s.nextID (addedProfile s input kind name endpoints acl))
          data ∧
        (addConnection ctx input faults s).saved = .succeeded ∧
        (addConnection ctx input faults s).service =
          { s with
            connections :=
              s.connections.insert s.nextID (addedProfile s input kind name endpoints acl)
            nextID := s.nextID + 1
            file := some data } := by
  unfold addConnection
  dsimp only
  generalize hkind : (if input.kind = .unset then MQKind.rocketmq else input.kind) = kind
  have hnamed : kind ≠ .unset := by
    rw [← hkind]
    split
    · exact nofun
    · assumption
  cases hfields : validateConnectionFields ctx.endpoints kind input.name input.endpoints
      input.timeoutSec with
  | error e => exact .inl ⟨rfl, nofun⟩
  | ok fields =>
    obtain ⟨name, endpoints⟩ := fields
    cases hacl : normalizeACLConfig input.aclEnabled (input.secret secretAccessKey)
        (input.secret secretSecretKey) with
    | error e => exact .inl ⟨rfl, nofun⟩
    | ok acl =>
      have hid : (addedProfile s input kind name endpoints acl).id = s.nextID := by
        unfold addedProfile applyCredentials
        dsimp only
        rw [ConnectionProfile.setACL_eq]
        split <;> rfl
      dsimp only
      rw [hid]
      rcases saveConnectionsLocked_cases ctx { s with
        connections := s.connections.insert s.nextID (addedProfile s input kind name endpoints acl) }
        faults.save with ⟨e, hsave⟩ | ⟨data, hdata, hsave⟩
      · rw [hsave]
        refine .inl ⟨?_, nofun⟩
        dsimp only
        rw [erase_insert_of_none _ h.fresh]
      · rw [hsave]
        exact .inr ⟨kind, name, endpoints, acl, data, hnamed, hfields, rfl, hdata, rfl, rfl⟩

/-! ## Editing -/

/-- What storing an edited profile comes to when it could be saved. -/
inductive EditStored (s : Service) (id : Int)
    (edited : ConnectionProfile) (faults : Faults) : Bool → Service → Prop where
  | kept {data : Document Store} (hdata : Encodes ctx (s.connections.insert id edited) data) :
      EditStored s id edited faults false
        { s with connections := s.connections.insert id edited, file := some data }
  | redialled {data : Document Store}
      (hdata : Encodes ctx (s.connections.insert id edited) data) :
      EditStored s id edited faults true
        (connectRuntimeLocked ctx settings
          { s with
            connections := s.connections.insert id edited
            file := some data
            runtime := s.runtime.remove id } id faults).1

/-- **Storing an edit**: not saved, the previous profile is back; saved, the edit is in memory
    and in the file, and the client was redialled when asked. -/
theorem storeEdited_cases {s : Service} {id : Int} {previous : ConnectionProfile}
    (hprevious : s.connections[id]? = some previous) (edited : ConnectionProfile) (redial : Bool)
    (faults : Faults) :
    ((storeEdited ctx settings s id previous edited redial faults).service = s ∧
        (storeEdited ctx settings s id previous edited redial faults).saved = .failed) ∨
      ((storeEdited ctx settings s id previous edited redial faults).saved = .succeeded ∧
        EditStored ctx settings s id edited faults redial
          (storeEdited ctx settings s id previous edited redial faults).service) := by
  unfold storeEdited
  dsimp only
  rcases saveConnectionsLocked_cases ctx
    { s with connections := s.connections.insert id edited } faults.save with
    ⟨e, hsave⟩ | ⟨data, hdata, hsave⟩
  · rw [hsave]
    refine .inl ⟨?_, rfl⟩
    dsimp only
    rw [insert_insert, insert_same hprevious]
  · rw [hsave]
    right
    cases redial with
    | false => exact ⟨rfl, .kept hdata⟩
    | true =>
      dsimp only
      rw [if_pos rfl]
      have hstored : EditStored ctx settings s id edited faults true _ := .redialled hdata
      generalize connectRuntimeLocked ctx settings
        { s with
          connections := s.connections.insert id edited
          file := some data
          runtime := s.runtime.remove id } id faults = dialled at hstored ⊢
      obtain ⟨redialed, error⟩ := dialled
      cases error with
      | none => exact ⟨rfl, hstored⟩
      | some e => exact ⟨rfl, hstored⟩

/-- Either way the edit is what is stored now, but for what is known about its client. -/
theorem EditStored.stored {s s' : Service} {id : Int} {edited : ConnectionProfile}
    {faults : Faults} {redial : Bool}
    (h : EditStored ctx settings s id edited faults redial s') :
    ∃ r, s'.connections[id]? = some r ∧ r.atRest = edited.atRest := by
  cases h with
  | kept _ => exact ⟨edited, by simp, rfl⟩
  | @redialled data _ =>
    generalize hdown : ({ s with
      connections := s.connections.insert id edited
      file := some data
      runtime := s.runtime.remove id } : Service) = down
    have hedited : down.connections[id]? = some edited := by
      rw [← hdown]
      simp
    rcases connectRuntimeLocked_cases ctx settings down id faults with
      hsame | ⟨p, hp, -, hdialled⟩
    · rw [hsame]
      exact ⟨edited, hedited, rfl⟩
    · rw [hedited] at hp
      cases hp
      rw [hdialled.connections]
      exact ⟨nowOnline edited faults.now, by simp, rfl⟩

/-- **Updating**: nothing changed, or the checked submission replaced the profile; a change of
    what is dialled took its client down and dialled again. -/
theorem updateConnection_cases (s : Service) (id : Int) (input : ConnectionProfile)
    (faults : Faults) :
    ((updateConnection ctx settings id input faults s).service = s ∧
        (updateConnection ctx settings id input faults s).saved ≠ .succeeded) ∨
      ∃ previous name endpoints acl edited,
        s.connections[id]? = some previous ∧
        validateConnectionFields ctx.endpoints (editedKind s id input.kind) input.name
          input.endpoints input.timeoutSec = .ok (name, endpoints) ∧
        normalizeACLConfig input.aclEnabled (input.secret secretAccessKey)
          (input.secret secretSecretKey) = .ok acl ∧
        edited = updatedProfile previous input name endpoints acl ∧
        (updateConnection ctx settings id input faults s).saved = .succeeded ∧
        EditStored ctx settings s id
          (if dialParametersChanged previous edited then { edited with status := .offline }
            else edited) faults
          (dialParametersChanged previous edited && previous.status = .online)
          (updateConnection ctx settings id input faults s).service := by
  unfold updateConnection
  cases hfields : validateConnectionFields ctx.endpoints (editedKind s id input.kind) input.name
      input.endpoints input.timeoutSec with
  | error e => exact .inl ⟨rfl, nofun⟩
  | ok fields =>
    obtain ⟨name, endpoints⟩ := fields
    cases hprevious : s.connections[id]? with
    | none => exact .inl ⟨rfl, nofun⟩
    | some previous =>
      cases hacl : normalizeACLConfig input.aclEnabled (input.secret secretAccessKey)
          (input.secret secretSecretKey) with
      | error e => exact .inl ⟨rfl, nofun⟩
      | ok acl =>
        dsimp only
        rcases storeEdited_cases ctx settings hprevious
          (if dialParametersChanged previous (updatedProfile previous input name endpoints acl) then
            { updatedProfile previous input name endpoints acl with status := .offline }
            else updatedProfile previous input name endpoints acl)
          (dialParametersChanged previous (updatedProfile previous input name endpoints acl) &&
            previous.status = .online) faults with ⟨hsame, hsaved⟩ | ⟨hsaved, hstored⟩
        · exact .inl ⟨hsame, by rw [hsaved]; exact nofun⟩
        · exact .inr ⟨previous, name, endpoints, acl, _, rfl, rfl, rfl, rfl, hsaved, hstored⟩

/-- **Setting an option**: nothing changed, or the options of one profile did, its client is
    down, and it was dialled again if it had one. -/
theorem setOption_cases (s : Service) (id : Int) (key value : String) (faults : Faults) :
    ((setOption ctx settings id key value faults s).service = s ∧
        (setOption ctx settings id key value faults s).saved ≠ .succeeded) ∨
      ∃ previous options,
        s.connections[id]? = some previous ∧
        (setOption ctx settings id key value faults s).saved = .succeeded ∧
        EditStored ctx settings s id
          { previous with options := some options, status := .offline } faults
          (previous.status = .online)
          (setOption ctx settings id key value faults s).service := by
  unfold setOption
  dsimp only
  split
  · exact .inl ⟨rfl, nofun⟩
  · cases hprevious : s.connections[id]? with
    | none => exact .inl ⟨rfl, nofun⟩
    | some previous =>
      dsimp only
      generalize (if value = "" then (previous.options.getD ∅).erase (trimSpace key)
        else (previous.options.getD ∅).insert (trimSpace key) value) = options
      split
      · exact .inl ⟨rfl, nofun⟩
      · rcases storeEdited_cases ctx settings hprevious
          { previous with options := some options, status := .offline }
          (previous.status = .online) faults with ⟨hsame, hsaved⟩ | ⟨hsaved, hstored⟩
        · exact .inl ⟨hsame, by rw [hsaved]; exact nofun⟩
        · exact .inr ⟨previous, options, rfl, hsaved, hstored⟩

/-! ## Deleting -/

/-- **Deleting**: nothing changed, or one profile and its client are gone. The default goes
    only when it is the last profile, so no other has to take its place. -/
theorem deleteConnection_cases (s : Service) (id : Int) (faults : Faults) :
    ((deleteConnection ctx id faults s).service = s ∧
        (deleteConnection ctx id faults s).saved ≠ .succeeded) ∨
      ∃ deleted data,
        s.connections[id]? = some deleted ∧
        (deleted.isDefault = true → s.connections.erase id = ∅) ∧
        Encodes ctx (s.connections.erase id) data ∧
        (deleteConnection ctx id faults s).saved = .succeeded ∧
        (deleteConnection ctx id faults s).service =
          { s with
            connections := s.connections.erase id
            file := some data
            runtime := if deleted.status = .online then s.runtime.remove id else s.runtime } := by
  unfold deleteConnection
  cases hdeleted : s.connections[id]? with
  | none => exact .inl ⟨rfl, by simp [Outcome.rejected]⟩
  | some deleted =>
    dsimp only
    split
    · exact .inl ⟨rfl, by simp [Outcome.rejected]⟩
    · rename_i hrefused
      have hlast : deleted.isDefault = true → s.connections.erase id = ∅ := by
        intro hdefault
        have hsize : s.connections.size ≤ 1 := by
          by_contra hmany
          exact hrefused ⟨hdefault, Nat.not_le.mp hmany⟩
        have hmem : s.connections.contains id = true := by
          rw [Std.ExtTreeMap.contains_eq_isSome_getElem?, hdeleted]
          rfl
        rw [Std.ExtTreeMap.eq_empty_iff_size_eq_zero, Std.ExtTreeMap.size_erase, if_pos hmem]
        omega
      have hpromoted : (if deleted.isDefault = true then
          ((sortedConnectionIDs (s.connections.erase id)).head?).getD 0 else 0) = 0 := by
        split
        · rename_i hdefault
          have hnone : sortedConnectionIDs (s.connections.erase id) = [] := by
            rw [sortedConnectionIDs, Std.ExtTreeMap.keys_eq_nil_iff]
            exact hlast hdefault
          rw [hnone]
          rfl
        · rfl
      rw [hpromoted]
      simp only [ne_eq, not_true_eq_false, if_false]
      rcases saveConnectionsLocked_cases ctx
        { s with connections := s.connections.erase id } faults.save with
        ⟨e, hsave⟩ | ⟨data, hdata, hsave⟩
      · rw [hsave]
        refine .inl ⟨?_, by simp⟩
        dsimp only
        rw [insert_erase_self hdeleted]
      · rw [hsave]
        exact .inr ⟨deleted, data, rfl, hlast, hdata, rfl, rfl⟩

/-! ## Choosing the default -/

/-- The store with the default flag on one profile alone. -/
def withDefault (connections : Profiles) (id : Int) : Profiles :=
  setDefaultFlag (connections.map fun _ p => { p with isDefault := false }) id true

theorem getElem?_setDefaultFlag (connections : Profiles) (id k : Int) (flag : Bool) :
    (setDefaultFlag connections id flag)[k]? =
      if id = k then connections[k]?.map fun p => { p with isDefault := flag }
      else connections[k]? := by
  unfold setDefaultFlag
  rw [Std.ExtTreeMap.getElem?_modify]
  simp only [Std.LawfulEqCmp.compare_eq_iff_eq]
  split
  · rename_i heq
    rw [heq]
  · rfl

theorem getElem?_withDefault (connections : Profiles) (id k : Int) :
    (withDefault connections id)[k]? =
      connections[k]?.map fun p => { p with isDefault := decide (id = k) } := by
  unfold withDefault
  rw [getElem?_setDefaultFlag]
  split
  · rename_i heq
    simp only [Std.ExtTreeMap.getElem?_map, Option.map_map, heq]
    rfl
  · rename_i hne
    simp [hne]

/-- The id recorded as the default is that of the marked profile. -/
theorem defaultID_spec {connections : Profiles} {nextID : Int}
    (h : StoreInvariant connections nextID) (hne : connections ≠ ∅) :
    ∃ p, connections[defaultID connections]? = some p ∧ p.isDefault = true := by
  obtain ⟨id, ⟨p, hp, hmark⟩, _⟩ := h.oneDefault hne
  have hfound : (values connections).find? ConnectionProfile.isDefault ≠ none := by
    intro hnone
    have := List.find?_eq_none.mp hnone p (mem_values.mpr ⟨id, hp⟩)
    exact this hmark
  unfold defaultID
  cases hfind : (values connections).find? ConnectionProfile.isDefault with
  | none => exact absurd hfind hfound
  | some q =>
    obtain ⟨k, hk⟩ := mem_values.mp (List.mem_of_find?_eq_some hfind)
    refine ⟨q, ?_, List.find?_some hfind⟩
    dsimp only
    rw [h.keyed k q hk, hk]

/-- Putting the flag back where it was restores the store. -/
private theorem restore_default {connections : Profiles} {nextID : Int}
    (h : StoreInvariant connections nextID) {id : Int} {p : ConnectionProfile}
    (hp : connections[id]? = some p) :
    setDefaultFlag (setDefaultFlag (withDefault connections id) id false)
        (defaultID connections) true = connections ∧ defaultID connections ≠ 0 := by
  obtain ⟨d, hd, hmark⟩ := defaultID_spec h (ne_empty_of_getElem? hp)
  have hdefault : ∀ (k : Int) (q : ConnectionProfile), connections[k]? = some q →
      q.isDefault = decide (defaultID connections = k) := by
    intro k q hq
    by_cases hk : defaultID connections = k
    · subst hk
      rw [hd] at hq
      cases hq
      simp [hmark]
    · rw [decide_eq_false hk]
      by_contra hq'
      exact hk (h.oneDefault.unique ⟨d, hd, hmark⟩ ⟨q, hq, by simpa using hq'⟩)
  refine ⟨?_, ?_⟩
  · ext1 k
    rw [getElem?_setDefaultFlag, getElem?_setDefaultFlag, getElem?_withDefault]
    cases hk : connections[k]? with
    | none => simp
    | some q =>
      have hflag := hdefault k q hk
      by_cases hcur : defaultID connections = k
      · rw [if_pos hcur]
        simp only [hcur, decide_true] at hflag
        split <;> · simp only [Option.map_some, ← hflag]
      · rw [if_neg hcur]
        simp only [hcur, decide_false] at hflag
        by_cases hid : id = k
        · rw [if_pos hid]
          simp only [Option.map_some, ← hflag]
        · rw [if_neg hid]
          simp only [Option.map_some, hid, decide_false, ← hflag]
  · intro hzero
    have := h.positive _ d hd
    omega

/-- **Choosing the default**: nothing changed, or the flag moved. -/
theorem setDefaultConnection_cases {s : Service} (h : StoreInvariant s.connections s.nextID)
    (id : Int) (faults : Faults) :
    ((setDefaultConnection ctx id faults s).service = s ∧
        (setDefaultConnection ctx id faults s).saved ≠ .succeeded) ∨
      ∃ chosen data,
        s.connections[id]? = some chosen ∧
        Encodes ctx (withDefault s.connections id) data ∧
        (setDefaultConnection ctx id faults s).saved = .succeeded ∧
        (setDefaultConnection ctx id faults s).service =
          { s with connections := withDefault s.connections id, file := some data } := by
  unfold setDefaultConnection
  cases hchosen : s.connections[id]? with
  | none => exact .inl ⟨rfl, nofun⟩
  | some chosen =>
    dsimp only
    split
    · exact .inl ⟨rfl, nofun⟩
    · obtain ⟨hrestore, hprevious⟩ := restore_default h hchosen
      rcases saveConnectionsLocked_cases ctx
        { s with connections := withDefault s.connections id } faults.save with
        ⟨e, hsave⟩ | ⟨data, hdata, hsave⟩
      · rw [withDefault] at hsave hrestore
        rw [hsave]
        refine .inl ⟨?_, nofun⟩
        dsimp only
        rw [if_pos hprevious, hrestore]
      · refine .inr ⟨chosen, data, rfl, hdata, ?_⟩
        rw [withDefault] at hsave ⊢
        rw [hsave]
        exact ⟨rfl, rfl⟩

/-! ## Reload and replacement -/

/-- **Restoring the runtime**: every client was closed, and at most one profile dialled. -/
theorem restoreRuntimeLocked_cases (s : Service) (plan : Bool) (faults : Faults) :
    ∃ flag, (restoreRuntimeLocked ctx settings s plan faults).1 =
        { s with runtime := s.runtime.closeAll, reconnectReload := flag } ∨
      (restoreRuntimeLocked ctx settings s plan faults).1 =
        { (connectRuntimeLocked ctx settings { s with runtime := s.runtime.closeAll }
            (defaultID s.connections) faults).1 with reconnectReload := flag } := by
  unfold restoreRuntimeLocked
  dsimp only
  split
  · generalize connectRuntimeLocked ctx settings { s with runtime := s.runtime.closeAll }
      (defaultID s.connections) faults = dialled
    obtain ⟨connected, error⟩ := dialled
    cases error with
    | none => exact ⟨false, .inr rfl⟩
    | some e => exact ⟨connected.reconnectReload, .inr rfl⟩
  · exact ⟨false, .inl rfl⟩

/-- What a reload puts in memory before it restores the runtime. -/
theorem loadConnectionsFromFile_cases (s : Service) (readFails : Bool) :
    (∃ e, loadConnectionsFromFile ctx s readFails = .error e) ∨
      (s.file = none ∧ loadConnectionsFromFile ctx s readFails = .ok s) ∨
      ∃ data ps, s.file = some data ∧ decodeStore ctx.cipher data = .ok ps ∧
        loadConnectionsFromFile ctx s readFails =
          .ok { s with
            connections := (buildConnectionState ps).1
            nextID := (buildConnectionState ps).2
            lastRead := some data } := by
  unfold loadConnectionsFromFile
  split
  · exact .inl ⟨_, rfl⟩
  · cases hfile : s.file with
    | none => exact .inr (.inl ⟨rfl, rfl⟩)
    | some data =>
      unfold loadConnections
      cases hdecode : decodeStore ctx.cipher data with
      | error e => exact .inl ⟨e, by simp [hdecode]⟩
      | ok ps => exact .inr (.inr ⟨data, ps, rfl, hdecode, by simp [hdecode, hfile]⟩)

/-- **Reloading**: nothing changed, or the file's profiles are in memory and the runtime was
    restored for them. -/
theorem reload_cases (s : Service) (faults : Faults) :
    (reload ctx settings faults s).service = s ∨
      ∃ loaded plan, loadConnectionsFromFile ctx s faults.readFails = .ok loaded ∧
        (reload ctx settings faults s).service =
          (restoreRuntimeLocked ctx settings { loaded with reconnectReload := plan } plan faults).1 := by
  unfold reload
  cases hload : loadConnectionsFromFile ctx s faults.readFails with
  | error e => exact .inl rfl
  | ok loaded => exact .inr ⟨loaded, reloadPlanLocked s, rfl, rfl⟩

/-- **Replacing**: nothing changed, or the prepared profiles are in memory, their encoding is
    in the file, and the runtime was restored for them. -/
theorem replaceConnections_cases (connections : List (Option ConnectionProfile)) (s : Service)
    (faults : Faults) :
    ((replaceConnections ctx settings connections faults s).service = s ∧
        (replaceConnections ctx settings connections faults s).saved ≠ .succeeded ∧
        (replaceConnections ctx settings connections faults s).error ≠ none) ∨
      ∃ prepared data plan,
        prepareReplacement ctx.endpoints connections = .ok prepared ∧
        (∃ nonces, encodeConnectionsForDisk ctx.cipher nonces prepared = .ok data) ∧
        (replaceConnections ctx settings connections faults s).saved = .succeeded ∧
        (replaceConnections ctx settings connections faults s).service =
          (restoreRuntimeLocked ctx settings { s with
            connections := (buildConnectionState prepared).1
            nextID := (buildConnectionState prepared).2
            file := some data
            reconnectReload := plan } plan faults).1 := by
  unfold replaceConnections
  cases hprepared : prepareReplacement ctx.endpoints connections with
  | error e => exact .inl ⟨rfl, nofun, nofun⟩
  | ok prepared =>
    dsimp only
    cases hdata : encodeConnectionsForDisk ctx.cipher faults.save.nonces prepared with
    | error e => exact .inl ⟨rfl, nofun, nofun⟩
    | ok data =>
      dsimp only
      split
      · exact .inl ⟨rfl, nofun, nofun⟩
      · exact .inr ⟨prepared, data, reloadPlanLocked s, rfl, ⟨_, hdata⟩, rfl, rfl⟩

end MqStudio.Connection
