import Mathlib.Data.List.InsertIdx
import MqStudio.Assistant.Manager
import MqStudio.Lib.History
import MqStudio.Lib.Machine
import MqStudio.Lib.Traverse

/-!
# What the Assistant Is Set Up With

`internal/agent/assistant/settings.go`: `agent.json`, and the changes a person makes of it. A
person agrees to a model service once, and the service may be changed afterwards.

Whether a text is an address is the URL parser's to say, and a parameter.

## Main definitions

- `SetupStore`: `saveProvider`, `consent`, `deleteProvider` and `savePreferences`.
- `desk`: these in any order, over every process, and the runs that are begun among them.
- `consentGiven`: a run is begun on a service whose address was agreed to.
- `keepsAddresses`: no service that was agreed to is sent elsewhere.

## Main results

- `begun_consented`: then every run is begun with consent.
-/

namespace MqStudio.Assistant

open MqStudio.Lib
open MqStudio.Storage

/-! ## The settings -/

/-- `Effort` -/
inductive Effort where
  | low | medium | high
  deriving DecidableEq

/-- `Settings`, whole. -/
structure Setup extends Settings where
  effort : Effort
  bodyBytes : Nat
  deriving DecidableEq

/-- `BodyLimits` -/
def bodyLimits : List Nat := [0, 2048, 8192, 32768]

/-- `Retentions` -/
def retentions : List Nat := [0, 7, 30, 90]

/-- `defaults` -/
def defaults : Setup where
  providers := []
  chosen := ""
  writes := .approve
  retention := 30
  consented := []
  effort := .medium
  bodyBytes := 2048

/-- `Preferences`; an effort or a way to treat writes that is none is absent. -/
structure Preferences where
  chosen : String
  effort : Option Effort
  writes : Option Writes
  bodyBytes : Nat
  retention : Nat

/-- `KeyChange`; a caller may send other texts. -/
inductive KeyChange where
  | preserve | replace | clear
  | blank
  | other
  deriving DecidableEq

/-- A `Provider` as it is submitted. -/
structure ProviderInput where
  id : String
  name : String
  kind : Protocol
  baseURL : String
  apiKey : String
  model : String
  proxy : String
  fallback : Bool

/-- The errors of the settings, one constructor for each message of the source. -/
inductive SetupError where
  /-- "read %s" -/
  | read
  /-- "%s is not readable" -/
  | malformed
  /-- "%s was written by a newer version of this application" -/
  | newer
  /-- "the API key of %q could not be decrypted" -/
  | decrypt (name : String) (cause : CryptoError)
  /-- "the API key of %q could not be encrypted" -/
  | encrypt (name : String) (cause : CryptoError)
  /-- "write %s" -/
  | write
  /-- "there is no model service %q to change", "to agree to", "to delete" or "to make the
      default" -/
  | unknown (id : String)
  /-- "a model service cannot change protocol; add a new one instead" -/
  | protocolChange
  /-- "a replaced API key cannot be empty; clear it instead" -/
  | emptyKey
  /-- "%q is not a way to change a key" -/
  | keyChange
  /-- No id could be drawn. -/
  | draw
  /-- "a model service needs a name" -/
  | nameless
  /-- "a model service's name is at most 64 characters" -/
  | longName
  /-- "a model service needs a model to run" -/
  | modelless
  /-- "this protocol needs an API key" -/
  | keyless
  /-- "%q is not an http or https address" -/
  | address (baseURL : String)
  /-- "%q is not a proxy address: it starts with http, https or socks5" -/
  | proxy (proxy : String)
  /-- "%q is not an effort: it is low, medium or high" -/
  | effort
  /-- "%q is not a way to treat writes: it is approve or readonly" -/
  | writes
  /-- "%d is not a body limit this application offers" -/
  | bodyLimit (bytes : Nat)
  /-- "%d days is not a retention this application offers" -/
  | retention (days : Nat)
  deriving DecidableEq

/-- What the settings are kept with: the cipher of their keys, and which texts parse as an http
    address and as a proxy's. -/
structure Office where
  cipher : Cipher
  isAddress : String → Bool
  isProxy : String → Bool

/-! ## The file -/

/-- `file`; the services are stored with their keys encrypted. -/
structure SetupFile where
  version : Nat
  providers : List Provider
  chosen : String
  effort : Option Effort
  writes : Option Writes
  bodyBytes : Nat
  retention : Option Nat
  consented : List String
  deriving DecidableEq

/-- `fileVersion` -/
def fileVersion : Nat := 1

/-- `keyField` -/
def keyField (id : String) : String := "agent/provider/" ++ id

/-- `Store`: what is on disk, and in memory once it was read. -/
structure SetupStore where
  file : Option (Document SetupFile)
  loaded : Option Setup

/-- What the environment decides during one change. -/
structure SetupFaults where
  readFails : Bool
  nonces : String → Option Nonce
  writeFails : Bool
  /-- The id that is drawn. -/
  draw : Option String

/-- One service of the file. -/
def openProvider (cipher : Cipher) (entry : Provider) : Except SetupError Provider :=
  match cipher.decrypt entry.apiKey (keyField entry.id) with
  | .error e => .error (.decrypt entry.name e)
  | .ok key => .ok { entry with apiKey := key }

/-- The consents a file holds: each once, and none to a service that is not there. -/
def keptConsents (providers : List Provider) (consented : List String) : List String :=
  consented.foldl (fun kept id =>
    if (providers.any fun p => p.id = id) && !kept.contains id then kept ++ [id] else kept) []

/-- The settings a file holds: what is not offered any more is the default. -/
def SetupFile.settings (stored : SetupFile) (providers : List Provider) : Setup where
  providers := providers
  chosen := if providers.any fun p => p.id = stored.chosen then stored.chosen else ""
  writes := stored.writes.getD defaults.writes
  retention :=
    match stored.retention with
    | some days => if days ∈ retentions then days else defaults.retention
    | none => defaults.retention
  consented := keptConsents providers stored.consented
  effort := stored.effort.getD defaults.effort
  bodyBytes := if stored.bodyBytes ∈ bodyLimits then stored.bodyBytes else defaults.bodyBytes

/-- `loadLocked` -/
def SetupStore.load (cipher : Cipher) (s : SetupStore) (readFails : Bool) :
    Except SetupError Setup :=
  match s.loaded with
  | some settings => .ok settings
  | none =>
    if readFails then .error .read
    else
      match s.file with
      | none => .ok defaults
      | some data =>
        match data.unmarshal with
        | none => .error .malformed
        | some stored =>
          if stored.version > fileVersion then .error .newer
          else
            match stored.providers.mapM (openProvider cipher) with
            | .error e => .error e
            | .ok providers => .ok (stored.settings providers)

/-- One service on its way out. -/
def sealProvider (cipher : Cipher) (nonces : String → Option Nonce) (p : Provider) :
    Except SetupError Provider :=
  match cipher.encrypt (nonces p.id) p.apiKey (keyField p.id) with
  | .error e => .error (.encrypt p.name e)
  | .ok key => .ok { p with apiKey := key }

/-- What is written of the settings. -/
def Setup.file (updated : Setup) (providers : List Provider) : SetupFile where
  version := fileVersion
  providers := providers
  chosen := updated.chosen
  effort := some updated.effort
  writes := some updated.writes
  bodyBytes := updated.bodyBytes
  retention := some updated.retention
  consented := updated.consented

/-- `saveLocked`: written first, and only then the settings in memory. -/
def SetupStore.save (cipher : Cipher) (updated : Setup) (faults : SetupFaults) :
    Except SetupError SetupStore :=
  match updated.providers.mapM (sealProvider cipher faults.nonces) with
  | .error e => .error e
  | .ok providers =>
    if faults.writeFails then .error .write
    else .ok ⟨some (.marshal (updated.file providers)), some updated⟩

/-! ## The changes -/

/-- `validate`, of a service under an id. -/
def Office.validate (office : Office) (p : ProviderInput) (id : String) :
    Except SetupError Provider :=
  if p.name = "" then .error .nameless
  else if p.name.length > 64 then .error .longName
  else if hmodel : p.model = "" then .error .modelless
  else if p.kind = .anthropic ∧ p.apiKey = "" then .error .keyless
  else if p.baseURL ≠ "" ∧ office.isAddress p.baseURL = false then .error (.address p.baseURL)
  else if p.proxy ≠ "" ∧ office.isProxy p.proxy = false then .error (.proxy p.proxy)
  else
    .ok { id := id, name := p.name, kind := p.kind, baseURL := p.baseURL, apiKey := p.apiKey,
          model := p.model, proxy := p.proxy, fallback := p.fallback, named := hmodel }

/-- A submission without the white space around its texts. -/
def ProviderInput.trimmed (next : ProviderInput) : ProviderInput :=
  { next with
    name := trimSpace next.name
    baseURL := trimSpace next.baseURL
    model := trimSpace next.model
    proxy := trimSpace next.proxy
    apiKey := trimSpace next.apiKey }

/-- The key a service is saved with. -/
def KeyChange.key (change : KeyChange) (current : Option Provider) (typed : String) :
    Except SetupError String :=
  match change with
  | .preserve | .blank => .ok ((current.map Provider.apiKey).getD "")
  | .clear => .ok ""
  | .replace => if typed = "" then .error .emptyKey else .ok typed
  | .other => .error .keyChange

/-- `index` -/
def Settings.index (settings : Settings) (id : String) : Option Nat :=
  settings.providers.findIdx? fun p => p.id = id

/-- What `SaveProvider` makes of the settings: a service added, or changed under its id. -/
def Setup.withProvider (office : Office) (settings : Setup) (next : ProviderInput)
    (change : KeyChange) (draw : Option String) : Except SetupError (Setup × Provider) :=
  let next := next.trimmed
  if next.id = "" then
    match change.key none next.apiKey with
    | .error e => .error e
    | .ok key =>
      match office.validate { next with apiKey := key } (draw.getD "") with
      | .error e => .error e
      | .ok p =>
        match draw with
        | none => .error .draw
        | some _ => .ok ({ settings with providers := settings.providers ++ [p] }, p)
  else
    match settings.index next.id, settings.provider next.id with
    | some index, some current =>
      if current.kind ≠ next.kind then .error .protocolChange
      else
        match change.key (some current) next.apiKey with
        | .error e => .error e
        | .ok key =>
          match office.validate { next with apiKey := key } next.id with
          | .error e => .error e
          | .ok p => .ok ({ settings with providers := settings.providers.set index p }, p)
    | _, _ => .error (.unknown next.id)

/-- What `DeleteProvider` makes of them. A service added again later is a new decision. -/
def Setup.without (settings : Setup) (id : String) : Except SetupError Setup :=
  match settings.index id with
  | none => .error (.unknown id)
  | some index =>
    .ok { settings with
      providers := settings.providers.eraseIdx index
      chosen := if settings.chosen = id then "" else settings.chosen
      consented := settings.consented.filter fun one => one ≠ id }

/-- What `SavePreferences` makes of them. -/
def Setup.prefer (settings : Setup) (next : Preferences) : Except SetupError Setup :=
  if next.chosen ≠ "" ∧ settings.index next.chosen = none then .error (.unknown next.chosen)
  else
    match next.effort, next.writes with
    | none, _ => .error .effort
    | some _, none => .error .writes
    | some effort, some writes =>
      if next.bodyBytes ∉ bodyLimits then .error (.bodyLimit next.bodyBytes)
      else if next.retention ∉ retentions then .error (.retention next.retention)
      else
        .ok { settings with
          chosen := next.chosen
          effort := effort
          writes := writes
          bodyBytes := next.bodyBytes
          retention := next.retention }

/-- The settings as they were loaded, in memory. -/
def SetupStore.hold (s : SetupStore) (settings : Setup) : SetupStore :=
  { s with loaded := some settings }

/-- Changed settings are saved, or those that were loaded stay. -/
def SetupStore.commit {α : Type} (cipher : Cipher) (s : SetupStore) (faults : SetupFaults)
    (updated : Setup) (result : α) : SetupStore × Except SetupError α :=
  match SetupStore.save cipher updated faults with
  | .error e => (s, .error e)
  | .ok saved => (saved, .ok result)

/-- A change of the settings: what is loaded is changed and saved. -/
def SetupStore.change {α : Type} (cipher : Cipher) (s : SetupStore) (faults : SetupFaults)
    (edit : Setup → Except SetupError (Setup × α)) : SetupStore × Except SetupError α :=
  match s.load cipher faults.readFails with
  | .error e => (s, .error e)
  | .ok settings =>
    match edit settings with
    | .error e => (s.hold settings, .error e)
    | .ok (updated, result) => (s.hold settings).commit cipher faults updated result

/-- `SaveProvider` -/
def SetupStore.saveProvider (office : Office) (s : SetupStore) (next : ProviderInput)
    (change : KeyChange) (faults : SetupFaults) : SetupStore × Except SetupError Provider :=
  s.change office.cipher faults fun settings => settings.withProvider office next change faults.draw

/-- `Consent`: who agreed already agrees without a save. -/
def SetupStore.consent (office : Office) (s : SetupStore) (id : String) (faults : SetupFaults) :
    SetupStore × Except SetupError Unit :=
  match s.load office.cipher faults.readFails with
  | .error e => (s, .error e)
  | .ok settings =>
    if settings.index id = none then (s.hold settings, .error (.unknown id))
    else if settings.consented.contains id then (s.hold settings, .ok ())
    else
      (s.hold settings).commit office.cipher faults
        { settings with consented := settings.consented ++ [id] } ()

/-- `DeleteProvider` -/
def SetupStore.deleteProvider (office : Office) (s : SetupStore) (id : String)
    (faults : SetupFaults) : SetupStore × Except SetupError Unit :=
  s.change office.cipher faults fun settings => (settings.without id).map fun updated => (updated, ())

/-- `SavePreferences` -/
def SetupStore.savePreferences (office : Office) (s : SetupStore) (next : Preferences)
    (faults : SetupFaults) : SetupStore × Except SetupError Unit :=
  s.change office.cipher faults fun settings => (settings.prefer next).map fun updated => (updated, ())

/-! ## The desk -/

/-- What is remembered of a service. -/
inductive Deed where
  | added (id : String)
  /-- Its address or its proxy changed. -/
  | moved (id : String)
  | agreed (id : String)
  | removed (id : String)
  /-- A run was begun on it. -/
  | began (id : String)
  deriving DecidableEq

/-- The store, the settings that calls of `Send` and `Continue` read before they take the manager's
    lock, and what happened. Six random bytes are never drawn twice. -/
structure Desk where
  store : SetupStore
  asking : List Setup
  drawn : List String
  deeds : List Deed

inductive DeskAct where
  | saveProvider (next : ProviderInput) (change : KeyChange) (faults : SetupFaults)
  | consent (id : String) (faults : SetupFaults)
  | deleteProvider (id : String) (faults : SetupFaults)
  | savePreferences (next : Preferences) (faults : SetupFaults)
  /-- `Send` or `Continue` reads the settings. -/
  | ask (readFails : Bool)
  /-- It has its conversation, and begins a run unless it may not. -/
  | enter (settings : Setup) (w : World) (s : Session)
  | restart

/-- What a saved service is remembered for. -/
def savedDeeds (before : Setup) (p : Provider) : List Deed :=
  match before.provider p.id with
  | none => [.added p.id]
  | some old => if old.baseURL = p.baseURL ∧ old.proxy = p.proxy then [] else [.moved p.id]

namespace Desk

/-- One step. -/
def advance (office : Office) (d : Desk) : DeskAct → Option Desk
  | .saveProvider next change faults =>
    if faults.draw.any d.drawn.contains then none
    else
      let drawn := faults.draw.toList ++ d.drawn
      match d.store.load office.cipher faults.readFails,
        d.store.saveProvider office next change faults with
      | .ok before, (store, .ok p) =>
        some { d with store := store, drawn := drawn, deeds := savedDeeds before p ++ d.deeds }
      | _, (store, _) => some { d with store := store, drawn := drawn }
  | .consent id faults =>
    match d.store.consent office id faults with
    | (store, .ok _) => some { d with store := store, deeds := .agreed id :: d.deeds }
    | (store, .error _) => some { d with store := store }
  | .deleteProvider id faults =>
    match d.store.deleteProvider office id faults with
    | (store, .ok _) => some { d with store := store, deeds := .removed id :: d.deeds }
    | (store, .error _) => some { d with store := store }
  | .savePreferences next faults =>
    some { d with store := (d.store.savePreferences office next faults).1 }
  | .ask readFails =>
    match d.store.load office.cipher readFails with
    | .error _ => some d
    | .ok settings =>
      some { d with store := d.store.hold settings, asking := settings :: d.asking }
  | .enter settings w s =>
    if settings ∉ d.asking then none
    else
      let left := { d with asking := d.asking.erase settings }
      some (if w.ready s settings.toSettings then
        { left with deeds := .began s.provider :: d.deeds } else left)
  | .restart => some { d with store := { d.store with loaded := none }, asking := [] }

end Desk

/-- A window that was never set up, and what a person does from then on. -/
def desk (office : Office) : Machine Desk DeskAct where
  start d := d = ⟨⟨none, none⟩, [], [], []⟩
  step := Desk.advance office

/-- The person agreed to a service after it was added and after it was last sent elsewhere. -/
def agreedSince (id : String) : List Deed → Prop
  | [] => False
  | .agreed other :: earlier => other = id ∨ agreedSince id earlier
  | .added other :: earlier | .moved other :: earlier => other ≠ id ∧ agreedSince id earlier
  | .removed _ :: earlier | .began _ :: earlier => agreedSince id earlier

/-- **Consent is to an address**: a run is begun on a service that was agreed to as it is. -/
def consentGiven (earlier : List Deed) : Deed → Prop
  | .began id => agreedSince id earlier
  | _ => True

/-- No service that was agreed to is given another address or proxy. -/
def keepsAddresses (office : Office) (d : Desk) : DeskAct → Prop
  | .saveProvider next _ faults =>
    ∀ settings current, d.store.load office.cipher faults.readFails = .ok settings →
      settings.provider next.id = some current → next.id ∈ settings.consented →
        trimSpace next.baseURL = current.baseURL ∧ trimSpace next.proxy = current.proxy
  | _ => True

/-! ## What a change can do -/

section Changes

variable {cipher : Cipher}

/-- The ids of services. -/
def idsOf (providers : List Provider) : List String := providers.map Provider.id

theorem idsOf_mapM {f : Provider → Except SetupError Provider}
    (hf : ∀ p q, f p = .ok q → q.id = p.id) {l out : List Provider} (h : l.mapM f = .ok out) :
    idsOf out = idsOf l := by
  induction l generalizing out with
  | nil =>
    cases h
    rfl
  | cons p rest ih =>
    obtain ⟨q, qs, hq, hqs, rfl⟩ := Traverse.mapM_cons_ok h
    have htail := ih hqs
    rw [idsOf, idsOf] at htail ⊢
    rw [List.map_cons, List.map_cons, hf p q hq, htail]

theorem id_openProvider (p q : Provider) (h : openProvider cipher p = .ok q) : q.id = p.id := by
  unfold openProvider at h
  split at h
  · cases h
  · cases h
    rfl

theorem id_sealProvider (nonces : String → Option Nonce) (p q : Provider)
    (h : sealProvider cipher nonces p = .ok q) : q.id = p.id := by
  unfold sealProvider at h
  split at h
  · cases h
  · cases h
    rfl

/-- A store that holds changed settings, on disk and in memory. -/
def HoldsOnDisk (updated : Setup) (s : SetupStore) : Prop :=
  ∃ providers, idsOf providers = idsOf updated.providers ∧
    s = ⟨some (.marshal (updated.file providers)), some updated⟩

/-- **Saving**: not saved, the store is as it was; saved, it holds the settings. -/
theorem commit_cases {α : Type} (cipher : Cipher) (s : SetupStore) (faults : SetupFaults) (updated : Setup)
    (result : α) :
    (∃ e, s.commit cipher faults updated result = (s, .error e)) ∨
      ∃ saved, HoldsOnDisk updated saved ∧ s.commit cipher faults updated result = (saved, .ok result) := by
  unfold SetupStore.commit SetupStore.save
  cases hproviders : updated.providers.mapM (sealProvider cipher faults.nonces) with
  | error e => exact .inl ⟨e, rfl⟩
  | ok providers =>
    cases hwrite : faults.writeFails with
    | true => exact .inl ⟨.write, rfl⟩
    | false => exact .inr ⟨_, ⟨providers, idsOf_mapM (id_sealProvider _) hproviders, rfl⟩, rfl⟩

/-- A store a refused change leaves: as it was, or with what was loaded in memory. -/
def Left (cipher : Cipher) (s : SetupStore) (readFails : Bool) (s' : SetupStore) : Prop :=
  s' = s ∨ ∃ settings, s.load cipher readFails = .ok settings ∧ s' = s.hold settings

/-- **Changing**: refused or not saved, nothing changed; else the store holds what was made of the
    loaded settings. -/
theorem change_cases {α : Type} (s : SetupStore) (faults : SetupFaults)
    (edit : Setup → Except SetupError (Setup × α)) :
    (∃ s' e, s.change cipher faults edit = (s', .error e) ∧ Left cipher s faults.readFails s') ∨
      ∃ settings updated result saved, s.load cipher faults.readFails = .ok settings ∧
        edit settings = .ok (updated, result) ∧ HoldsOnDisk updated saved ∧
        s.change cipher faults edit = (saved, .ok result) := by
  unfold SetupStore.change
  cases hload : s.load cipher faults.readFails with
  | error e => exact .inl ⟨s, e, rfl, .inl rfl⟩
  | ok settings =>
    have hleft : Left cipher s faults.readFails (s.hold settings) := .inr ⟨settings, hload, rfl⟩
    dsimp only
    cases hedit : edit settings with
    | error e => exact .inl ⟨_, e, rfl, hleft⟩
    | ok edited =>
      obtain ⟨updated, result⟩ := edited
      rcases commit_cases cipher (s.hold settings) faults updated result with
        ⟨e, hcommit⟩ | ⟨saved, hsaved, hcommit⟩
      · exact .inl ⟨_, e, hcommit, hleft⟩
      · exact .inr ⟨settings, updated, result, saved, rfl, hedit, hsaved, hcommit⟩

theorem mem_keptConsents {providers : List Provider} {consented : List String} {id : String}
    (h : id ∈ keptConsents providers consented) : id ∈ consented ∧ id ∈ idsOf providers := by
  have hfold : ∀ (rest kept : List String), id ∈ rest.foldl (fun kept id =>
      if (providers.any fun p => p.id = id) && !kept.contains id then kept ++ [id] else kept) kept →
      id ∈ kept ∨ id ∈ rest ∧ id ∈ idsOf providers := by
    intro rest
    induction rest with
    | nil => exact fun kept hmem => .inl hmem
    | cons one rest ih =>
      intro kept hmem
      rcases ih _ hmem with hkept | ⟨hrest, hthere⟩
      · dsimp only at hkept
        split at hkept
        · rename_i hcond
          rcases List.mem_append.mp hkept with hold | hnew
          · exact .inl hold
          · obtain rfl := List.mem_singleton.mp hnew
            refine .inr ⟨List.mem_cons_self, ?_⟩
            simp only [Bool.and_eq_true, List.any_eq_true, decide_eq_true_eq] at hcond
            obtain ⟨⟨p, hp, hid⟩, -⟩ := hcond
            exact List.mem_map.mpr ⟨p, hp, hid⟩
        · exact .inl hkept
      · exact .inr ⟨List.mem_cons_of_mem _ hrest, hthere⟩
  rcases hfold consented [] h with hnone | hboth
  · exact absurd hnone List.not_mem_nil
  · exact hboth

end Changes

/-! ## The invariant -/

/-- Services and consents: each service under an id of its own that was drawn, and each consent to
    one of them, agreed to as it is. -/
structure Sound (drawn : List String) (deeds : List Deed) (providers : List Provider)
    (consented : List String) : Prop where
  distinct : (idsOf providers).Nodup
  drawn : ∀ id ∈ idsOf providers, id ∈ drawn
  known : ∀ id ∈ consented, id ∈ idsOf providers
  agreed : ∀ id ∈ consented, agreedSince id deeds

/-- What a call read: every consent was given to the service as it is, and stands while the service
    is there. -/
structure Fresh (drawn : List String) (deeds : List Deed) (settings t : Setup) : Prop where
  drawn : ∀ id ∈ t.consented, id ∈ drawn
  agreed : ∀ id ∈ t.consented, agreedSince id deeds
  stands : ∀ id ∈ t.consented, id ∈ idsOf settings.providers → id ∈ settings.consented

/-- The file and the settings in memory are sound, what calls read is fresh, and every run was begun
    with consent. -/
structure Desk.Inv (d : Desk) : Prop where
  file : ∀ data stored, d.store.file = some data → data.unmarshal = some stored →
    Sound d.drawn d.deeds stored.providers stored.consented
  loaded : ∀ settings, d.store.loaded = some settings →
    Sound d.drawn d.deeds settings.providers settings.consented
  asking : ∀ t ∈ d.asking, ∃ settings, d.store.loaded = some settings ∧
    Fresh d.drawn d.deeds settings t
  told : History.Each consentGiven d.deeds

section Invariant

variable {office : Office} {d : Desk}

theorem sound_nil (drawn : List String) (deeds : List Deed) : Sound drawn deeds [] [] where
  distinct := List.nodup_nil
  drawn := by simp [idsOf]
  known := by simp
  agreed := by simp

theorem Sound.grow {drawn : List String} {deeds : List Deed} {providers : List Provider}
    {consented : List String} (h : Sound drawn deeds providers consented) (more : List String) :
    Sound (more ++ drawn) deeds providers consented where
  distinct := h.distinct
  drawn id hid := List.mem_append_right _ (h.drawn id hid)
  known := h.known
  agreed := h.agreed

theorem Fresh.grow {drawn : List String} {deeds : List Deed} {settings t : Setup}
    (h : Fresh drawn deeds settings t) (more : List String) :
    Fresh (more ++ drawn) deeds settings t where
  drawn id hid := List.mem_append_right _ (h.drawn id hid)
  agreed := h.agreed
  stands := h.stands

/-- What is loaded is sound. -/
theorem Desk.Inv.load (h : d.Inv) {readFails : Bool} {settings : Setup}
    (hload : d.store.load office.cipher readFails = .ok settings) :
    Sound d.drawn d.deeds settings.providers settings.consented := by
  unfold SetupStore.load at hload
  split at hload
  · rename_i held hheld
    cases hload
    exact h.loaded settings hheld
  · split at hload
    · cases hload
    · split at hload
      · cases hload
        exact sound_nil _ _
      · rename_i data hdata
        split at hload
        · cases hload
        · rename_i stored hstored
          split at hload
          · cases hload
          · split at hload
            · cases hload
            · rename_i providers hproviders
              cases hload
              have hsound := h.file data stored hdata hstored
              have hids : idsOf providers = idsOf stored.providers :=
                idsOf_mapM id_openProvider hproviders
              exact {
                distinct := by
                  show (idsOf providers).Nodup
                  rw [hids]
                  exact hsound.distinct
                drawn := by
                  show ∀ id ∈ idsOf providers, id ∈ d.drawn
                  rw [hids]
                  exact hsound.drawn
                known := fun id hid => (mem_keptConsents hid).2
                agreed := fun id hid => hsound.agreed id (mem_keptConsents hid).1 }

/-- It is what is in memory, if anything is. -/
theorem load_of_loaded {s : SetupStore} {settings held : Setup} {readFails : Bool}
    (hload : s.load office.cipher readFails = .ok settings) (hheld : s.loaded = some held) :
    settings = held := by
  rw [SetupStore.load, hheld] at hload
  cases hload
  rfl

/-- Holding what was loaded keeps the invariant. -/
theorem Desk.Inv.hold (h : d.Inv) {readFails : Bool} {settings : Setup}
    (hload : d.store.load office.cipher readFails = .ok settings) :
    Desk.Inv { d with store := d.store.hold settings } where
  file := h.file
  loaded held hheld := by
    cases hheld
    exact h.load hload
  asking t ht := by
    obtain ⟨held, hheld, hfresh⟩ := h.asking t ht
    obtain rfl := load_of_loaded hload hheld
    exact ⟨settings, rfl, hfresh⟩
  told := h.told

/-- So does a draw. -/
theorem Desk.Inv.draw (h : d.Inv) (drawn : List String) :
    Desk.Inv { d with drawn := drawn ++ d.drawn } where
  file data stored hdata hstored := (h.file data stored hdata hstored).grow drawn
  loaded settings hsettings := (h.loaded settings hsettings).grow drawn
  asking t ht := by
    obtain ⟨settings, hsettings, hfresh⟩ := h.asking t ht
    exact ⟨settings, hsettings, hfresh.grow drawn⟩
  told := h.told

/-- So does a change that is refused. -/
theorem Desk.Inv.left (h : d.Inv) {readFails : Bool} {store : SetupStore}
    (hleft : Left office.cipher d.store readFails store) : Desk.Inv { d with store := store } := by
  rcases hleft with rfl | ⟨settings, hload, rfl⟩
  · exact h
  · exact h.hold hload

/-- **A saved change keeps it** where what was saved is sound, and every consent that a call read
    is as it was. -/
theorem Desk.Inv.saved {d' : Desk} {updated : Setup} (hstored : HoldsOnDisk updated d'.store)
    (hsound : Sound d'.drawn d'.deeds updated.providers updated.consented)
    (hasking : ∀ t ∈ d'.asking, Fresh d'.drawn d'.deeds updated t)
    (htold : History.Each consentGiven d'.deeds) : d'.Inv := by
  obtain ⟨providers, hids, hstore⟩ := hstored
  refine ⟨fun data stored hdata hunmarshal => ?_, fun settings hsettings => ?_, fun t ht => ?_, htold⟩
  · rw [hstore] at hdata
    obtain rfl := Option.some.inj hdata
    obtain rfl := Option.some.inj hunmarshal
    exact ⟨by rw [Setup.file, hids]; exact hsound.distinct,
      by rw [Setup.file, hids]; exact hsound.drawn,
      by rw [Setup.file, hids]; exact hsound.known, hsound.agreed⟩
  · rw [hstore] at hsettings
    obtain rfl := Option.some.inj hsettings
    exact hsound
  · exact ⟨updated, by rw [hstore], hasking t ht⟩

/-- What is said of a run or of a person without a service being added or moved. -/
theorem Desk.Inv.tell (h : d.Inv) {e : Deed} (hagreed : ∀ id, agreedSince id d.deeds →
    agreedSince id (e :: d.deeds)) (hrule : consentGiven d.deeds e) :
    Desk.Inv { d with deeds := e :: d.deeds } where
  file data stored hdata hstored := by
    have hsound := h.file data stored hdata hstored
    exact ⟨hsound.distinct, hsound.drawn, hsound.known, fun id hid => hagreed id (hsound.agreed id hid)⟩
  loaded settings hsettings := by
    have hsound := h.loaded settings hsettings
    exact ⟨hsound.distinct, hsound.drawn, hsound.known, fun id hid => hagreed id (hsound.agreed id hid)⟩
  asking t ht := by
    obtain ⟨settings, hsettings, hfresh⟩ := h.asking t ht
    exact ⟨settings, hsettings, hfresh.drawn, fun id hid => hagreed id (hfresh.agreed id hid),
      hfresh.stands⟩
  told := History.each_cons.mpr ⟨hrule, h.told⟩

/-- What the calls that are asking read is fresh against whatever is loaded. -/
theorem Desk.Inv.fresh (h : d.Inv) {readFails : Bool} {settings t : Setup}
    (hload : d.store.load office.cipher readFails = .ok settings) (ht : t ∈ d.asking) :
    Fresh d.drawn d.deeds settings t := by
  obtain ⟨held, hheld, hfresh⟩ := h.asking t ht
  obtain rfl := load_of_loaded hload hheld
  exact hfresh

end Invariant

/-! ## Each step -/

section Steps

variable {office : Office} {d : Desk}

theorem validate_fields {p : ProviderInput} {id : String} {q : Provider}
    (h : office.validate p id = .ok q) : q.id = id ∧ q.baseURL = p.baseURL ∧ q.proxy = p.proxy := by
  unfold Office.validate at h
  repeat' split at h
  case isFalse.isFalse.isFalse.isFalse.isFalse.isFalse =>
    cases h
    exact ⟨rfl, rfl, rfl⟩
  all_goals cases h

/-- The service at an index, and what is left of the ids. -/
theorem index_cases {settings : Settings} {id : String} {i : Nat}
    (h : settings.index id = some i) : ∃ hi : i < (idsOf settings.providers).length,
      (idsOf settings.providers)[i] = id := by
  obtain ⟨hi, hp, -⟩ := List.findIdx?_eq_some_iff_getElem.mp h
  refine ⟨by simpa [idsOf] using hi, ?_⟩
  simpa [idsOf] using hp

theorem mem_idsOf_of_index {settings : Settings} {id : String} {i : Nat}
    (h : settings.index id = some i) : id ∈ idsOf settings.providers := by
  obtain ⟨hi, hid⟩ := index_cases h
  exact hid ▸ List.getElem_mem hi

/-- A service changed under its id leaves the ids as they are. -/
theorem idsOf_set {settings : Settings} {p : Provider} {i : Nat}
    (h : settings.index p.id = some i) :
    idsOf (settings.providers.set i p) = idsOf settings.providers := by
  obtain ⟨hi, hid⟩ := index_cases h
  rw [idsOf, List.map_set]
  show (idsOf settings.providers).set i p.id = _
  rw [← hid, List.set_getElem_self]

/-- A deleted service takes its id with it. -/
theorem idsOf_eraseIdx {settings : Settings} {id : String} {i : Nat}
    (hdistinct : (idsOf settings.providers).Nodup) (h : settings.index id = some i) :
    idsOf (settings.providers.eraseIdx i) = (idsOf settings.providers).erase id := by
  obtain ⟨hi, hid⟩ := index_cases h
  rw [idsOf, ← List.eraseIdx_map]
  show (idsOf settings.providers).eraseIdx i = _
  rw [← hid, hdistinct.erase_getElem]

/-- **`SaveProvider`** adds a service under the id that was drawn, or changes one under its id. -/
theorem withProvider_cases {settings updated : Setup} {next : ProviderInput} {change : KeyChange}
    {draw : Option String} {p : Provider}
    (h : settings.withProvider office next change draw = .ok (updated, p)) :
    (draw = some p.id ∧ updated = { settings with providers := settings.providers ++ [p] }) ∨
      ∃ i current, settings.index p.id = some i ∧ settings.provider p.id = some current ∧
        p.id = next.id ∧ p.baseURL = trimSpace next.baseURL ∧ p.proxy = trimSpace next.proxy ∧
        updated = { settings with providers := settings.providers.set i p } := by
  unfold Setup.withProvider at h
  dsimp only at h
  split at h
  · split at h
    · cases h
    · split at h
      · cases h
      · rename_i q hq
        split at h
        · cases h
        · cases h
          obtain ⟨hid, -, -⟩ := validate_fields hq
          exact .inl ⟨by rw [hid]; rfl, rfl⟩
  · split at h
    · rename_i i current hi hcurrent
      split at h
      · cases h
      · split at h
        · cases h
        · split at h
          · cases h
          · rename_i q hq
            cases h
            obtain ⟨hid, hbase, hproxy⟩ := validate_fields hq
            have hsame : p.id = next.id := hid
            exact .inr ⟨i, current, hsame ▸ hi, hsame ▸ hcurrent, hsame, hbase, hproxy, rfl⟩
    · cases h

/-- A new service is known to nobody. -/
theorem Desk.Inv.added (h : d.Inv) {readFails : Bool} {settings : Setup} {p : Provider}
    (hload : d.store.load office.cipher readFails = .ok settings) (hnew : p.id ∉ d.drawn)
    {store : SetupStore}
    (hstored : HoldsOnDisk { settings with providers := settings.providers ++ [p] } store) :
    Desk.Inv ⟨store, d.asking, [p.id] ++ d.drawn, savedDeeds settings p ++ d.deeds⟩ := by
  have hsound := h.load hload
  have habsent : p.id ∉ idsOf settings.providers := fun hmem => hnew (hsound.drawn _ hmem)
  have hdeeds : savedDeeds settings p = [.added p.id] := by
    have hnone : settings.provider p.id = none := by
      refine List.find?_eq_none.mpr fun q hq hsame => habsent ?_
      exact List.mem_map.mpr ⟨q, hq, by simpa using hsame⟩
    rw [savedDeeds, hnone]
  have hids : idsOf (settings.providers ++ [p]) = idsOf settings.providers ++ [p.id] := by
    simp [idsOf]
  -- a consent is to a service that was drawn before
  have hother : ∀ id ∈ d.drawn, agreedSince id d.deeds →
      agreedSince id (savedDeeds settings p ++ d.deeds) := by
    intro id hid hagreed
    rw [hdeeds]
    exact ⟨fun hsame => hnew (hsame ▸ hid), hagreed⟩
  refine .saved hstored ⟨?_, ?_, ?_, ?_⟩ ?_ ?_
  · rw [hids]
    exact List.nodup_append.mpr ⟨hsound.distinct, List.nodup_singleton _, by
      intro id hid one hone hsame
      obtain rfl := List.mem_singleton.mp hone
      exact habsent (hsame ▸ hid)⟩
  · intro id hid
    rw [hids] at hid
    rcases List.mem_append.mp hid with hold | hone
    · exact List.mem_append_right _ (hsound.drawn id hold)
    · exact List.mem_append_left _ hone
  · intro id hid
    rw [hids]
    exact List.mem_append_left _ (hsound.known id hid)
  · exact fun id hid => hother id (hsound.drawn id (hsound.known id hid)) (hsound.agreed id hid)
  · intro t ht
    have hfresh := h.fresh hload ht
    refine ⟨fun id hid => List.mem_append_right _ (hfresh.drawn id hid),
      fun id hid => hother id (hfresh.drawn id hid) (hfresh.agreed id hid), fun id hid hmem => ?_⟩
    rw [hids] at hmem
    rcases List.mem_append.mp hmem with hold | hone
    · exact hfresh.stands id hid hold
    · exact absurd (List.mem_singleton.mp hone ▸ hfresh.drawn id hid) hnew
  · rw [hdeeds]
    exact History.each_cons.mpr ⟨trivial, h.told⟩

/-- A service that was agreed to is changed without being sent elsewhere. -/
theorem Desk.Inv.changed (h : d.Inv) {readFails : Bool} {settings : Setup} {p current : Provider}
    {i : Nat} (hload : d.store.load office.cipher readFails = .ok settings)
    (hi : settings.index p.id = some i) (hcurrent : settings.provider p.id = some current)
    (hkeeps : p.id ∈ settings.consented → p.baseURL = current.baseURL ∧ p.proxy = current.proxy)
    (drawn : List String) {store : SetupStore}
    (hstored : HoldsOnDisk { settings with providers := settings.providers.set i p } store) :
    Desk.Inv ⟨store, d.asking, drawn ++ d.drawn, savedDeeds settings p ++ d.deeds⟩ := by
  have hsound := h.load hload
  have hids := idsOf_set hi
  have hother : ∀ id, (id = p.id → id ∈ settings.consented) → agreedSince id d.deeds →
      agreedSince id (savedDeeds settings p ++ d.deeds) := by
    intro id hconsented hagreed
    rw [savedDeeds, hcurrent]
    dsimp only
    split
    · exact hagreed
    · rename_i hmoved
      refine ⟨fun hsame => hmoved ?_, hagreed⟩
      obtain ⟨hbase, hproxy⟩ := hkeeps (hsame ▸ hconsented hsame.symm)
      exact ⟨hbase.symm, hproxy.symm⟩
  refine .saved hstored ⟨?_, ?_, ?_, ?_⟩ ?_ ?_
  · rw [hids]
    exact hsound.distinct
  · rw [hids]
    exact fun id hid => List.mem_append_right _ (hsound.drawn id hid)
  · rw [hids]
    exact hsound.known
  · exact fun id hid => hother id (fun _ => hid) (hsound.agreed id hid)
  · intro t ht
    have hfresh := h.fresh hload ht
    refine ⟨fun id hid => List.mem_append_right _ (hfresh.drawn id hid),
      fun id hid => hother id (fun hsame => ?_) (hfresh.agreed id hid), ?_⟩
    · exact hfresh.stands id hid (hsame ▸ mem_idsOf_of_index hi)
    · rw [hids]
      exact hfresh.stands
  · show History.Each consentGiven (savedDeeds settings p ++ d.deeds)
    rw [savedDeeds, hcurrent]
    dsimp only
    split
    · exact h.told
    · exact History.each_cons.mpr ⟨trivial, h.told⟩

/-- **Saving a service** keeps the invariant where no service that was agreed to is sent
    elsewhere. -/
theorem Desk.Inv.saveProvider (h : d.Inv) {next : ProviderInput} {change : KeyChange}
    {faults : SetupFaults} {d' : Desk}
    (hkeeps : keepsAddresses office d (.saveProvider next change faults))
    (hstep : d.advance office (.saveProvider next change faults) = some d') : d'.Inv := by
  rw [Desk.advance] at hstep
  split at hstep
  · cases hstep
  · rename_i hfresh
    rcases change_cases d.store faults fun settings =>
        settings.withProvider office next change faults.draw with
      ⟨store, e, hchange, hleft⟩ | ⟨settings, updated, p, store, hload, hedit, hstored, hchange⟩
    · have hsaved : d.store.saveProvider office next change faults = (store, .error e) := hchange
      rw [hsaved] at hstep
      have hd : d' = { d with store := store, drawn := faults.draw.toList ++ d.drawn } := by
        cases hload : d.store.load office.cipher faults.readFails <;> rw [hload] at hstep <;>
          exact (Option.some.inj hstep).symm
      rw [hd]
      exact (h.left hleft).draw _
    · have hsaved : d.store.saveProvider office next change faults = (store, .ok p) := hchange
      rw [hsaved, hload] at hstep
      cases hstep
      rcases withProvider_cases hedit with
        ⟨hdraw, rfl⟩ | ⟨i, current, hi, hcurrent, hid, hbase, hproxy, rfl⟩
      · rw [hdraw] at hfresh ⊢
        exact h.added hload (by simpa using hfresh) hstored
      · refine h.changed hload hi hcurrent (fun hconsented => ?_) _ hstored
        rw [hid] at hcurrent hconsented
        rw [hbase, hproxy]
        exact hkeeps settings current hload hcurrent hconsented

/-- **`Consent`** is refused, was given before, or is saved for a service that is there. -/
theorem consent_cases (office : Office) (s : SetupStore) (id : String) (faults : SetupFaults) :
    (∃ s' e, s.consent office id faults = (s', .error e) ∧
      Left office.cipher s faults.readFails s') ∨
    (∃ settings, s.load office.cipher faults.readFails = .ok settings ∧
      s.consent office id faults = (s.hold settings, .ok ())) ∨
    ∃ settings saved, s.load office.cipher faults.readFails = .ok settings ∧
      id ∈ idsOf settings.providers ∧
      HoldsOnDisk { settings with consented := settings.consented ++ [id] } saved ∧
      s.consent office id faults = (saved, .ok ()) := by
  unfold SetupStore.consent
  cases hload : s.load office.cipher faults.readFails with
  | error e => exact .inl ⟨s, e, rfl, .inl rfl⟩
  | ok settings =>
    have hleft : Left office.cipher s faults.readFails (s.hold settings) :=
      .inr ⟨settings, hload, rfl⟩
    dsimp only
    cases hindex : settings.index id with
    | none => exact .inl ⟨_, _, rfl, hleft⟩
    | some i =>
      rw [if_neg (Option.some_ne_none i)]
      split
      · exact .inr (.inl ⟨settings, rfl, rfl⟩)
      · rcases commit_cases office.cipher (s.hold settings) faults
            { settings with consented := settings.consented ++ [id] } () with
          ⟨e, hcommit⟩ | ⟨saved, hsaved, hcommit⟩
        · exact .inl ⟨_, e, hcommit, hleft⟩
        · exact .inr (.inr ⟨settings, saved, rfl, mem_idsOf_of_index hindex, hsaved, hcommit⟩)

/-- **Agreeing** keeps it: to a service that is there. -/
theorem Desk.Inv.consent (h : d.Inv) {id : String} {faults : SetupFaults} {d' : Desk}
    (hstep : d.advance office (.consent id faults) = some d') : d'.Inv := by
  have hagreed : ∀ other, agreedSince other d.deeds → agreedSince other (.agreed id :: d.deeds) :=
    fun other hother => .inr hother
  rw [Desk.advance] at hstep
  rcases consent_cases office d.store id faults with
    ⟨store, e, hconsent, hleft⟩ | ⟨settings, hload, hconsent⟩ |
      ⟨settings, saved, hload, hthere, hstored, hconsent⟩
  · rw [hconsent] at hstep
    cases hstep
    exact h.left hleft
  · rw [hconsent] at hstep
    cases hstep
    exact (h.hold hload).tell hagreed trivial
  · rw [hconsent] at hstep
    cases hstep
    have hsound := h.load hload
    refine .saved hstored ⟨hsound.distinct, hsound.drawn, fun other hother => ?_,
      fun other hother => ?_⟩ (fun t ht => ?_) (History.each_cons.mpr ⟨trivial, h.told⟩)
    · rcases List.mem_append.mp hother with hold | hnew
      · exact hsound.known other hold
      · obtain rfl := List.mem_singleton.mp hnew
        exact hthere
    · rcases List.mem_append.mp hother with hold | hnew
      · exact hagreed other (hsound.agreed other hold)
      · exact .inl (List.mem_singleton.mp hnew).symm
    · have hfresh := h.fresh hload ht
      exact ⟨hfresh.drawn, fun other hother => hagreed other (hfresh.agreed other hother),
        fun other hother hmem => List.mem_append_left _ (hfresh.stands other hother hmem)⟩

/-- **Deleting** keeps it: the consent goes with the service. -/
theorem Desk.Inv.deleteProvider (h : d.Inv) {id : String} {faults : SetupFaults} {d' : Desk}
    (hstep : d.advance office (.deleteProvider id faults) = some d') : d'.Inv := by
  rw [Desk.advance] at hstep
  rcases change_cases d.store faults fun settings =>
      (settings.without id).map fun updated => (updated, ()) with
    ⟨store, e, hchange, hleft⟩ | ⟨settings, updated, result, saved, hload, hedit, hstored, hchange⟩
  · have hdeleted : d.store.deleteProvider office id faults = (store, .error e) := hchange
    rw [hdeleted] at hstep
    cases hstep
    exact h.left hleft
  · have hdeleted : d.store.deleteProvider office id faults = (saved, .ok ()) := hchange
    rw [hdeleted] at hstep
    cases hstep
    have hsound := h.load hload
    rw [Setup.without] at hedit
    cases hindex : settings.index id with
    | none =>
      rw [hindex] at hedit
      cases hedit
    | some i =>
      rw [hindex] at hedit
      cases hedit
      have hids := idsOf_eraseIdx hsound.distinct hindex
      have hmem : ∀ other, other ∈ idsOf (settings.providers.eraseIdx i) ↔
          other ≠ id ∧ other ∈ idsOf settings.providers := by
        intro other
        rw [hids, hsound.distinct.mem_erase_iff]
      have hfilter : ∀ other, other ∈ settings.consented.filter (fun one => one ≠ id) ↔
          other ∈ settings.consented ∧ other ≠ id := by
        intro other
        simp
      refine .saved hstored ⟨?_, ?_, ?_, ?_⟩ (fun t ht => ?_)
        (History.each_cons.mpr ⟨trivial, h.told⟩)
      · rw [hids]
        exact hsound.distinct.erase id
      · exact fun other hother => hsound.drawn other ((hmem other).mp hother).2
      · intro other hother
        obtain ⟨hconsented, hne⟩ := (hfilter other).mp hother
        exact (hmem other).mpr ⟨hne, hsound.known other hconsented⟩
      · exact fun other hother => hsound.agreed other ((hfilter other).mp hother).1
      · have hfresh := h.fresh hload ht
        refine ⟨hfresh.drawn, hfresh.agreed, fun other hother hthere => ?_⟩
        obtain ⟨hne, hold⟩ := (hmem other).mp hthere
        exact (hfilter other).mpr ⟨hfresh.stands other hother hold, hne⟩

/-- The other preferences leave services and consents as they are. -/
theorem prefer_same {settings updated : Setup} {next : Preferences}
    (h : settings.prefer next = .ok updated) :
    updated.providers = settings.providers ∧ updated.consented = settings.consented := by
  unfold Setup.prefer at h
  repeat' split at h
  case h_3.isFalse.isFalse =>
    cases h
    exact ⟨rfl, rfl⟩
  all_goals cases h

theorem Desk.Inv.savePreferences (h : d.Inv) {next : Preferences} {faults : SetupFaults}
    {d' : Desk} (hstep : d.advance office (.savePreferences next faults) = some d') : d'.Inv := by
  cases hstep
  rcases change_cases d.store faults fun settings =>
      (settings.prefer next).map fun updated => (updated, ()) with
    ⟨store, e, hchange, hleft⟩ | ⟨settings, updated, result, saved, hload, hedit, hstored, hchange⟩
  · have hpreferred : d.store.savePreferences office next faults = (store, .error e) := hchange
    rw [hpreferred]
    exact h.left hleft
  · have hpreferred : d.store.savePreferences office next faults = (saved, .ok ()) := hchange
    rw [hpreferred]
    have hsound := h.load hload
    cases hprefer : settings.prefer next with
    | error e =>
      rw [hprefer] at hedit
      cases hedit
    | ok preferred =>
      rw [hprefer] at hedit
      cases hedit
      obtain ⟨hproviders, hconsented⟩ := prefer_same hprefer
      refine .saved hstored ?_ (fun t ht => ?_) h.told
      · rw [hproviders, hconsented]
        exact hsound
      · have hfresh := h.fresh hload ht
        exact ⟨hfresh.drawn, hfresh.agreed, by rw [hproviders, hconsented]; exact hfresh.stands⟩

/-- **Asking** reads consents that were given. -/
theorem Desk.Inv.ask (h : d.Inv) {readFails : Bool} {d' : Desk}
    (hstep : d.advance office (.ask readFails) = some d') : d'.Inv := by
  rw [Desk.advance] at hstep
  split at hstep
  · cases hstep
    exact h
  · rename_i settings hload
    cases hstep
    have hheld := h.hold hload
    have hsound := h.load hload
    refine ⟨hheld.file, hheld.loaded, fun t ht => ?_, hheld.told⟩
    rcases List.mem_cons.mp ht with rfl | hold
    · exact ⟨t, rfl, fun id hid => hsound.drawn id (hsound.known id hid), hsound.agreed,
        fun id hid _ => hid⟩
    · exact hheld.asking t hold

/-- **Beginning a run**: the service was agreed to in what the call read. -/
theorem Desk.Inv.enter (h : d.Inv) {settings : Setup} {w : World} {s : Session} {d' : Desk}
    (hstep : d.advance office (.enter settings w s) = some d') : d'.Inv := by
  rw [Desk.advance] at hstep
  split at hstep
  · cases hstep
  · rename_i hasking
    have hin : settings ∈ d.asking := by simpa using hasking
    have hleft : Desk.Inv { d with asking := d.asking.erase settings } :=
      ⟨h.file, h.loaded, fun t ht => h.asking t (List.mem_of_mem_erase ht), h.told⟩
    cases hstep
    dsimp only
    split
    · rename_i hready
      have hconsented : s.provider ∈ settings.consented := by
        rw [World.ready, Bool.and_eq_true] at hready
        exact List.contains_iff_mem.mp hready.2
      obtain ⟨held, -, hfresh⟩ := h.asking settings hin
      exact hleft.tell (fun id hid => hid) (hfresh.agreed _ hconsented)
    · exact hleft

end Steps

/-- **Every step** keeps the invariant, where no service that was agreed to is sent elsewhere. -/
theorem Desk.Inv.advance {office : Office} {d d' : Desk} (h : d.Inv) {a : DeskAct}
    (hok : keepsAddresses office d a) (hstep : d.advance office a = some d') : d'.Inv := by
  cases a with
  | saveProvider next change faults => exact h.saveProvider hok hstep
  | consent id faults => exact h.consent hstep
  | deleteProvider id faults => exact h.deleteProvider hstep
  | savePreferences next faults => exact h.savePreferences hstep
  | ask readFails => exact h.ask hstep
  | enter settings w s => exact h.enter hstep
  | restart =>
    cases hstep
    exact ⟨h.file, fun _ hnone => (Option.some_ne_none _ hnone.symm).elim,
      fun _ hnone => absurd hnone List.not_mem_nil, h.told⟩

/-- **Every run is begun with consent**, given after its service was added and after it was last sent
    elsewhere, where no service that was agreed to is sent elsewhere. -/
theorem begun_consented {office : Office} {d : Desk}
    (h : (desk office).Reachable (keepsAddresses office) d) :
    History.Each consentGiven d.deeds := by
  have hinv : d.Inv := h.invariant Desk.Inv (fun d hd => by
      obtain rfl := hd
      exact ⟨fun _ _ hnone => (Option.some_ne_none _ hnone.symm).elim,
        fun _ hnone => (Option.some_ne_none _ hnone.symm).elim,
        fun _ hnone => absurd hnone List.not_mem_nil, History.each_nil _⟩)
    (fun d a d' _ hd hok hstep => hd.advance hok hstep)
  exact hinv.told

/-- A window whose texts are addresses if they start as one. -/
def plainOffice : Office where
  cipher := plainCipher
  isAddress text := "http".toList.isPrefixOf text.toList
  isProxy text := "http".toList.isPrefixOf text.toList

/-- Nothing fails, and this id is drawn. -/
def unfailing (id : String) : SetupFaults := ⟨false, fun _ => some 0, false, some id⟩

/-- The service on this machine, and under the same id one on the internet. -/
def localService : ProviderInput :=
  ⟨"", "local", .openAI, "http://localhost:11434", "", "qwen3", "", false⟩

def remoteService : ProviderInput :=
  { localService with id := "0123456789ab", baseURL := "https://models.example" }

/-- The settings a person has who agreed to the service. -/
def agreedTo (p : ProviderInput) (h : p.model ≠ "") : Setup :=
  { defaults with
    providers := [⟨"0123456789ab", p.name, p.kind, p.baseURL, p.apiKey, p.model, p.proxy,
      p.fallback, h⟩]
    consented := ["0123456789ab"] }

/-- A window in which a conversation on the service is about to be asked something. -/
def askedWindow : World where
  settings := none
  connections := ∅
  now := 1
  calls := 0
  sessions := ∅
  running := none
  archive := ⟨∅, none, none⟩
  addresses := 1
  drawn := []
  past := ∅
  happened := []
  deleted := []

def askedSession : Session :=
  newSession "c1" 0 ⟨"0123456789ab", "local", .openAI, "", "", "qwen3", "", false, by decide⟩ 1

/-- A service is added and agreed to. -/
def addedAndAgreed : List DeskAct :=
  [.saveProvider localService .preserve (unfailing "0123456789ab"),
    .consent "0123456789ab" (unfailing "")]

/-- A run is begun on it. -/
def begins (p : ProviderInput) (h : p.model ≠ "") : List DeskAct :=
  [.ask false, .enter (agreedTo p h) askedWindow askedSession]

/-- What becomes of the desk. -/
def deskAfter (acts : List DeskAct) : Desk :=
  (desk plainOffice).endOf ⟨⟨none, none⟩, [], [], []⟩ acts

/-- A run begun on a service that was added, agreed to and left where it was. -/
theorem begun_consented_local :
    History.Each consentGiven
        (deskAfter (addedAndAgreed ++ begins localService (by decide))).deeds ∧
      Deed.began "0123456789ab" ∈
        (deskAfter (addedAndAgreed ++ begins localService (by decide))).deeds := by
  have hstart : (desk plainOffice).Reachable (keepsAddresses plainOffice)
      ⟨⟨none, none⟩, [], [], []⟩ := .start rfl
  refine ⟨begun_consented (hstart.endOf ?_), by decide +kernel⟩
  refine ⟨fun settings current hload hcurrent => ?_, fun _ _ => ⟨trivial, fun _ _ =>
    ⟨trivial, fun _ _ => ⟨trivial, fun _ _ => trivial⟩⟩⟩⟩
  -- nothing was set up before
  cases hload
  cases hcurrent

/-- A service that was agreed to is saved with another address, and the consent stays. -/
theorem moved_still_consented :
    ∃ d, (desk plainOffice).Reachable Machine.Always d ∧ ¬ History.Each consentGiven d.deeds := by
  refine ⟨deskAfter (addedAndAgreed ++ [.saveProvider remoteService .preserve (unfailing "other")] ++
      begins remoteService (by decide)),
    (Machine.Reachable.start rfl).endOf (Machine.permitted_always _ _ _), fun h => ?_⟩
  have hdeeds : (deskAfter (addedAndAgreed ++
      [.saveProvider remoteService .preserve (unfailing "other")] ++
        begins remoteService (by decide))).deeds =
      [.began "0123456789ab", .moved "0123456789ab", .agreed "0123456789ab",
        .added "0123456789ab"] := by
    decide +kernel
  rw [hdeeds] at h
  exact (History.each_cons.mp h).1.1 rfl

end MqStudio.Assistant
