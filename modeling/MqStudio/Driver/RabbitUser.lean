import Mathlib.Logic.Function.Basic

/-!
# Saving a RabbitMQ User Without Its Password

`internal/driver/rabbitmq/identity.go`. The broker's update replaces the whole user, so a save that
keeps the password finds the stored hash and sends it again. The hash is in the user's record on a
broker before 4.4, and from 4.4 on only in the export of the whole broker.

The broker is a parameter: what it answers to the two reads and what it makes of a request. `Honest`
says what every version has in common.

## Main results

- `storedPassword_carries`: what a save sends back is what the broker has stored.
- `storedPassword_error_iff`: a save refuses exactly where a read fails, or a stored hash is found in
  neither place.
- `saveIdentity_keeps`: a save that succeeds changes the tags alone, and creates a user without a
  password.
-/

namespace MqStudio.Driver.RabbitMQ.Identity

/-! ## Users of a broker -/

/-- A stored password: its hash and the algorithm of the hash, neither of them blank. -/
structure Credential where
  hash : String
  algorithm : String
  hash_ne : hash ≠ ""
  algorithm_ne : algorithm ≠ ""

variable {τ : Type}

/-- A user: its password if it has one, its tags, and whatever else the broker keeps of it. -/
structure User (τ : Type) where
  credential : Option Credential
  tags : List String
  rest : τ

/-- The users of a broker, by name. -/
abbrev Users (τ : Type) := String → Option (User τ)

/-- `userRecord` -/
structure UserRecord where
  name : String := ""
  tags : List String := []
  hasPasswordFlag : Option Bool := none
  passwordHash : String := ""
  hashingAlgorithm : String := ""

/-- `hasPassword` -/
def UserRecord.hasPassword (u : UserRecord) : Bool :=
  match u.hasPasswordFlag with
  | some flag => flag
  | none => u.passwordHash ≠ ""

/-- A request that failed: the status of the answer, or no answer. -/
inductive Failure where
  | status (code : Nat)
  | noAnswer
  deriving DecidableEq

/-- `statusOf` -/
def statusOf : Failure → Nat
  | .status code => code
  | .noAnswer => 0

/-- `rabbithole.UserSettings` -/
structure UserSettings where
  name : String
  tags : List String
  password : String := ""
  passwordHash : String := ""
  hashingAlgorithm : String := ""

/-- The request that replaces a user. -/
inductive Put where
  | user (settings : UserSettings)
  | userWithoutPassword (settings : UserSettings)

/-- A broker, by its answers. -/
structure Broker (τ : Type) where
  /-- `GET /api/users/<name>` -/
  getUser : Users τ → String → Except Failure UserRecord
  /-- the users of `GET /api/definitions` -/
  getDefinitions : Users τ → Except Failure (List UserRecord)
  /-- `PUT /api/users/<name>` -/
  putUser : Users τ → String → Put → Except Failure (Users τ)
  /-- the hash it makes of a password -/
  hashOf : String → Credential
  /-- the algorithm of a hash that is sent without one -/
  defaultAlgorithm : String
  defaultAlgorithm_ne : defaultAlgorithm ≠ ""
  /-- the tags it reads in a request -/
  readTags : List String → List String
  /-- what it keeps of a user that is new -/
  fresh : τ

/-! ## The save -/

/-- `model.IdentitySpec` -/
structure IdentitySpec where
  name : String
  tags : List String
  password : String
  withoutPassword : Bool

/-- Why a save fails. -/
inductive Problem where
  /-- read the stored password -/
  | read (failure : Failure)
  /-- read the stored password from the definitions export -/
  | export (failure : Failure)
  /-- the broker did not report the stored password, so saving without one would remove it; enter the
  password to save -/
  | unreported
  /-- save user -/
  | save (failure : Failure)
  deriving DecidableEq

/-- The search of `storedPassword` in the export. -/
def exportedHash (name : String) (definitions : List UserRecord) : Option UserRecord :=
  definitions.find? fun exported => exported.name = name ∧ exported.passwordHash ≠ ""

/-- `storedPassword` -/
def storedPassword (b : Broker τ) (users : Users τ) (name : String) : Except Problem UserRecord :=
  match b.getUser users name with
  | .error failure => if statusOf failure = 404 then .ok {} else .error (.read failure)
  | .ok user =>
    if ¬ user.hasPassword then .ok {}
    else if user.passwordHash ≠ "" then .ok user
    else
      match b.getDefinitions users with
      | .error failure => .error (.export failure)
      | .ok definitions =>
        match exportedHash name definitions with
        | some exported => .ok exported
        | none => .error .unreported

/-- The settings that a save sends. -/
def settingsOf (b : Broker τ) (users : Users τ) (spec : IdentitySpec) : Except Problem UserSettings :=
  if spec.withoutPassword then .ok { name := spec.name, tags := spec.tags }
  else if spec.password ≠ "" then
    .ok { name := spec.name, tags := spec.tags, password := spec.password }
  else
    match storedPassword b users spec.name with
    | .error problem => .error problem
    | .ok stored =>
      .ok { name := spec.name, tags := spec.tags,
            passwordHash := stored.passwordHash, hashingAlgorithm := stored.hashingAlgorithm }

/-- The request that settings are sent with. -/
def requestOf (settings : UserSettings) : Put :=
  if settings.password = "" ∧ settings.passwordHash = "" then .userWithoutPassword settings
  else .user settings

/-- `SaveIdentity` -/
def saveIdentity (b : Broker τ) (users : Users τ) (spec : IdentitySpec) : Except Problem (Users τ) :=
  match settingsOf b users spec with
  | .error problem => .error problem
  | .ok settings =>
    match b.putUser users spec.name (requestOf settings) with
    | .error failure => .error (.save failure)
    | .ok saved => .ok saved

/-! ## What every version answers -/

/-- A record carries a password: the same hash and algorithm, or no hash where there is none. -/
def UserRecord.Carries (record : UserRecord) : Option Credential → Prop
  | some c => record.passwordHash = c.hash ∧ record.hashingAlgorithm = c.algorithm
  | none => record.passwordHash = ""

/-- What a request has the broker store. -/
def Broker.stores (b : Broker τ) : Put → Option Credential
  | .userWithoutPassword _ => none
  | .user settings =>
    if settings.password ≠ "" then some (b.hashOf settings.password)
    else if h : settings.passwordHash = "" then none
    else if ha : settings.hashingAlgorithm = "" then
      some ⟨settings.passwordHash, b.defaultAlgorithm, h, b.defaultAlgorithm_ne⟩
    else some ⟨settings.passwordHash, settings.hashingAlgorithm, h, ha⟩

/-- The tags of a request. -/
def Put.tags : Put → List String
  | .user settings => settings.tags
  | .userWithoutPassword settings => settings.tags

/-- The user that a request leaves, in the place of one that was there or new. -/
def Broker.replaced (b : Broker τ) (old : Option (User τ)) (request : Put) : User τ where
  credential := b.stores request
  tags := b.readTags request.tags
  rest := (old.map User.rest).getD b.fresh

/-- What brokers of every version do. A read may fail, and the export may leave a user or its hash
out; what they report is so. -/
structure Broker.Honest (b : Broker τ) : Prop where
  /-- Only a user that does not exist is not found. -/
  notFound : ∀ users name failure, b.getUser users name = .error failure →
    statusOf failure = 404 → users name = none
  /-- A record is of a user that exists. -/
  found : ∀ users name record, b.getUser users name = .ok record → (users name).isSome
  /-- From 4.4 on a flag says whether there is a password. -/
  flag : ∀ users name record user flag, b.getUser users name = .ok record →
    users name = some user → record.hasPasswordFlag = some flag → flag = user.credential.isSome
  /-- Before 4.4 the hash does. -/
  hash : ∀ users name record user, b.getUser users name = .ok record → users name = some user →
    record.hasPasswordFlag = none → (record.passwordHash ≠ "" ↔ user.credential.isSome)
  /-- A hash in the record is the stored one. -/
  stored : ∀ users name record user, b.getUser users name = .ok record → users name = some user →
    record.passwordHash ≠ "" → record.Carries user.credential
  /-- A hash in the export is the stored one. -/
  exported : ∀ users records record user, b.getDefinitions users = .ok records →
    record ∈ records → users record.name = some user → record.passwordHash ≠ "" →
      record.Carries user.credential
  /-- A request that succeeds replaces the one user. -/
  replaces : ∀ users name request saved, b.putUser users name request = .ok saved →
    saved = Function.update users name (some (b.replaced (users name) request))

/-! ## What is read -/

section Honest

variable {b : Broker τ} {users : Users τ} {name : String}

/-- A record tells whether its user has a password, on every version. -/
theorem Broker.Honest.hasPassword_eq (hb : b.Honest) {record : UserRecord} {user : User τ}
    (hread : b.getUser users name = .ok record) (huser : users name = some user) :
    record.hasPassword = user.credential.isSome := by
  unfold UserRecord.hasPassword
  cases hflag : record.hasPasswordFlag with
  | some flag => exact hb.flag users name record user flag hread huser hflag
  | none =>
    have hhash := hb.hash users name record user hread huser hflag
    show decide (record.passwordHash ≠ "") = user.credential.isSome
    rw [Bool.eq_iff_iff, decide_eq_true_iff]
    exact hhash

theorem exportedHash_eq_some {definitions : List UserRecord} {record : UserRecord}
    (h : exportedHash name definitions = some record) :
    record ∈ definitions ∧ record.name = name ∧ record.passwordHash ≠ "" := by
  have hfound := List.find?_some h
  simp only [decide_eq_true_eq] at hfound
  exact ⟨List.mem_of_find?_eq_some h, hfound⟩

theorem exportedHash_eq_none {definitions : List UserRecord} :
    exportedHash name definitions = none ↔
      ∀ record ∈ definitions, record.name = name → record.passwordHash = "" := by
  simp only [exportedHash, List.find?_eq_none, decide_eq_true_eq, not_and, not_not]

/-- **What a save sends back** is the password that the broker has stored. -/
theorem storedPassword_carries (hb : b.Honest) {record : UserRecord}
    (h : storedPassword b users name = .ok record) :
    record.Carries ((users name).bind User.credential) := by
  unfold storedPassword at h
  cases hread : b.getUser users name with
  | error failure =>
    rw [hread] at h
    simp only at h
    split at h
    · rename_i hstatus
      cases h
      rw [hb.notFound users name failure hread hstatus]
      rfl
    · cases h
  | ok reported =>
    obtain ⟨user, huser⟩ := Option.isSome_iff_exists.mp (hb.found users name reported hread)
    rw [huser, Option.bind_some]
    rw [hread] at h
    simp only [hb.hasPassword_eq hread huser] at h
    split at h
    · rename_i hnone
      cases h
      rw [Option.not_isSome_iff_eq_none.mp hnone]
      rfl
    · split at h
      · rename_i hhash
        cases h
        exact hb.stored users name _ user hread huser hhash
      · -- the hash is hidden in the record
        cases hexport : b.getDefinitions users with
        | error failure =>
          rw [hexport] at h
          cases h
        | ok definitions =>
          rw [hexport] at h
          simp only at h
          cases hfound : exportedHash name definitions with
          | none =>
            rw [hfound] at h
            cases h
          | some exported =>
            rw [hfound] at h
            cases h
            obtain ⟨hmem, rfl, hhash⟩ := exportedHash_eq_some hfound
            exact hb.exported users definitions record user hexport hmem huser hhash

/-- **What a save refuses**: a user whose record cannot be read, and one whose hash is neither in the
record nor in the export. -/
theorem storedPassword_error_iff (hb : b.Honest) :
    (∃ problem, storedPassword b users name = .error problem) ↔
      (∃ failure, b.getUser users name = .error failure ∧ statusOf failure ≠ 404) ∨
        ∃ record, b.getUser users name = .ok record ∧ record.passwordHash = "" ∧
          ((users name).bind User.credential).isSome ∧
            ∀ definitions, b.getDefinitions users = .ok definitions →
              ∀ exported ∈ definitions, exported.name = name → exported.passwordHash = "" := by
  unfold storedPassword
  cases hread : b.getUser users name with
  | error failure =>
    simp only
    by_cases hstatus : statusOf failure = 404 <;> simp [hstatus]
  | ok record =>
    obtain ⟨user, huser⟩ := Option.isSome_iff_exists.mp (hb.found users name record hread)
    simp only [hb.hasPassword_eq hread huser, huser, Option.bind_some]
    by_cases hsome : user.credential.isSome = true
    · by_cases hhash : record.passwordHash = ""
      · cases hexport : b.getDefinitions users with
        | error failure => simp [hsome, hhash]
        | ok definitions =>
          simp only [hsome, hhash]
          cases hfound : exportedHash name definitions with
          | none =>
            have hall := exportedHash_eq_none.mp hfound
            simpa [hhash] using hall
          | some exported =>
            obtain ⟨hmem, hname, hne⟩ := exportedHash_eq_some hfound
            simpa [hhash] using ⟨exported, hmem, hname, hne⟩
      · simp [hsome, hhash]
    · simp [hsome]

/-! ## What is saved -/

/-- Settings that carry a password and type none have the broker store that password. -/
theorem Broker.stores_carried (b : Broker τ) {settings : UserSettings} {record : UserRecord}
    {credential : Option Credential} (hblank : settings.password = "")
    (hhash : settings.passwordHash = record.passwordHash)
    (halgorithm : settings.hashingAlgorithm = record.hashingAlgorithm)
    (h : record.Carries credential) : b.stores (requestOf settings) = credential := by
  cases credential with
  | none =>
    have hnone : settings.passwordHash = "" := hhash.trans h
    rw [requestOf, if_pos ⟨hblank, hnone⟩, Broker.stores]
  | some c =>
    obtain ⟨hsame, hsame'⟩ := h
    have hne : settings.passwordHash ≠ "" := by
      rw [hhash, hsame]
      exact c.hash_ne
    have hne' : settings.hashingAlgorithm ≠ "" := by
      rw [halgorithm, hsame']
      exact c.algorithm_ne
    rw [requestOf, if_neg fun hboth => hne hboth.2]
    simp only [Broker.stores, hblank, hne, hne', ne_eq, not_true_eq_false, if_false, dite_false,
      Option.some.injEq]
    cases c
    simp only [Credential.mk.injEq]
    exact ⟨hhash.trans hsame, halgorithm.trans hsame'⟩

theorem tags_requestOf (settings : UserSettings) : (requestOf settings).tags = settings.tags := by
  unfold requestOf
  split <;> rfl

/-- A save without a typed password replaces the user by one with the same password. -/
theorem saveIdentity_ok (hb : b.Honest) {spec : IdentitySpec} (hblank : spec.password = "")
    (hkeep : spec.withoutPassword = false) {saved : Users τ}
    (h : saveIdentity b users spec = .ok saved) :
    saved = Function.update users spec.name (some
      { credential := (users spec.name).bind User.credential
        tags := b.readTags spec.tags
        rest := ((users spec.name).map User.rest).getD b.fresh }) := by
  unfold saveIdentity settingsOf at h
  rw [hkeep, if_neg Bool.false_ne_true, if_neg (not_not.mpr hblank)] at h
  cases hstored : storedPassword b users spec.name with
  | error problem =>
    rw [hstored] at h
    cases h
  | ok record =>
    rw [hstored] at h
    simp only at h
    split at h
    · cases h
    · rename_i hput
      cases h
      rw [hb.replaces _ _ _ _ hput, Broker.replaced, tags_requestOf,
        @Broker.stores_carried _ b _ record _ rfl rfl rfl (storedPassword_carries hb hstored)]

end Honest

/-- **Saving without a password keeps the one there is**: where the save of a spec with a blank
password succeeds, a user that was there has changed in its tags alone, a user that was not has no
password, and no other user has changed. -/
theorem saveIdentity_keeps (b : Broker τ) (hb : b.Honest) (users : Users τ) (spec : IdentitySpec)
    (hblank : spec.password = "") (hkeep : spec.withoutPassword = false) (saved : Users τ)
    (h : saveIdentity b users spec = .ok saved) :
    (∀ user, users spec.name = some user →
      saved spec.name = some { user with tags := b.readTags spec.tags }) ∧
    (users spec.name = none → ∃ user, saved spec.name = some user ∧ user.credential = none) ∧
    ∀ other, other ≠ spec.name → saved other = users other := by
  obtain rfl := saveIdentity_ok hb hblank hkeep h
  refine ⟨?_, ?_, ?_⟩
  · intro user huser
    simp [huser]
  · intro hnone
    simp [hnone]
  · intro other hother
    exact Function.update_of_ne hother _ _

/-! ## A broker that hides its hashes -/

/-- What a broker of version 4.4 answers: the record has a flag, and the hash is in the export. -/
def exportOnlyAnswers : Broker Unit where
  getUser users name :=
    match users name with
    | none => .error (.status 404)
    | some user =>
      .ok { name := name, tags := user.tags, hasPasswordFlag := some user.credential.isSome }
  getDefinitions users :=
    .ok (["app", "guest"].filterMap fun name =>
      ((users name).bind User.credential).map fun c =>
        { name := name, passwordHash := c.hash, hashingAlgorithm := c.algorithm })
  putUser _ _ _ := .error .noAnswer
  hashOf _ := ⟨"bmV3", "sha256", by decide, by decide⟩
  defaultAlgorithm := "sha256"
  defaultAlgorithm_ne := by decide
  readTags tags := tags
  fresh := ()

/-- The broker, with what a request leaves. -/
def exportOnly : Broker Unit :=
  { exportOnlyAnswers with
    putUser := fun users name request =>
      .ok (Function.update users name (some (exportOnlyAnswers.replaced (users name) request))) }

theorem exportOnly_getUser {users : Users Unit} {name : String} {record : UserRecord}
    (h : exportOnly.getUser users name = .ok record) : ∃ user, users name = some user ∧
      record = { name := name, tags := user.tags, hasPasswordFlag := some user.credential.isSome } := by
  simp only [exportOnly, exportOnlyAnswers] at h
  split at h
  · cases h
  · rename_i user huser
    cases h
    exact ⟨user, huser, rfl⟩

theorem exportOnly_honest : exportOnly.Honest where
  notFound users name failure h _ := by
    simp only [exportOnly, exportOnlyAnswers] at h
    split at h
    · assumption
    · cases h
  found users name record h := by
    obtain ⟨user, huser, -⟩ := exportOnly_getUser h
    rw [huser]
    rfl
  flag users name record user flag h huser hflag := by
    obtain ⟨other, hother, rfl⟩ := exportOnly_getUser h
    obtain rfl := Option.some.inj (huser.symm.trans hother)
    exact (Option.some.inj hflag).symm
  hash users name record user h huser hflag := by
    obtain ⟨other, -, rfl⟩ := exportOnly_getUser h
    cases hflag
  stored users name record user h huser hhash := by
    obtain ⟨other, -, rfl⟩ := exportOnly_getUser h
    exact absurd rfl hhash
  exported users records record user h hmem huser _ := by
    cases h
    obtain ⟨name, -, hname⟩ := List.mem_filterMap.mp hmem
    obtain ⟨c, hc, rfl⟩ := Option.map_eq_some_iff.mp hname
    rw [huser, Option.bind_some] at hc
    rw [hc]
    exact ⟨rfl, rfl⟩
  replaces users name request saved h := by
    cases h
    rfl

/-- The application's user, the only one. -/
def appUsers : Users Unit := fun name =>
  if name = "app" then
    some ⟨some ⟨"c3RvcmVk", "sha512", by decide, by decide⟩, ["management"], ()⟩
  else none

/-- A change of tags that types no password. -/
def appSpec : IdentitySpec := ⟨"app", ["monitoring"], "", false⟩

/-- The user's tags change and its hash and algorithm stay. -/
theorem app_keeps : ∃ saved, saveIdentity exportOnly appUsers appSpec = .ok saved ∧
    saved "app" = some ⟨some ⟨"c3RvcmVk", "sha512", by decide, by decide⟩, ["monitoring"], ()⟩ :=
  ⟨_, rfl, (saveIdentity_keeps exportOnly exportOnly_honest appUsers appSpec rfl rfl _ rfl).1 _ rfl⟩

end MqStudio.Driver.RabbitMQ.Identity
