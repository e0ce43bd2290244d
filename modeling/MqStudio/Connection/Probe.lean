import MqStudio.Connection.Resolution
import MqStudio.Connection.Submission

/-!
# Testing a Form

`Probe` and `ProbeProfile`: a submission is dialled without being stored. The bridge applies the
credentials mode to it as it does to an edit, but what a submission leaves out is taken from the
stored profile by an edit alone.

`probe_alike_iff` says of every edit that was saved whether the test before it dialled what is
stored now.

## Main definitions

- `probe`.
- `Alike`: two profiles dial alike, up to white space.
-/

namespace MqStudio.Connection

open MqStudio.Connection.Forms
open MqStudio.Lib.TreeMap
open MqStudio.Model
open MqStudio.Model.ConnectionProfile
open MqStudio.Settings (AppSettings defaultSettings)
open MqStudio.Storage

/-! ## The bridge -/

/-- Why a test dials nothing. -/
inductive ProbeError where
  | refused (cause : UpdateError)
  /-- "connection endpoints cannot be empty" -/
  | endpointsEmpty
  deriving DecidableEq

/-- A draft that names no family is a RocketMQ one. -/
def settled (profile : ConnectionProfile) : ConnectionProfile :=
  if profile.kind = .unset then { profile with kind := .rocketmq } else profile

/-- `ProbeProfile`, up to the profile it hands the runtime to test. -/
def probeProfile (ctx : Context) (settings : AppSettings) (profile : ConnectionProfile) :
    Except ProbeError ConnectionProfile :=
  let profile := settled profile
  if requiresEndpoints ctx.endpoints profile.kind && trimSpace profile.endpoints = "" then
    .error .endpointsEmpty
  else .ok (resolveForDial settings profile)

/-- `Probe` -/
def probe (ctx : Context) (settings : AppSettings) (id : Int) (input : ConnectionInput)
    (s : Service) : Except ProbeError ConnectionProfile :=
  match applyCredentialsMode s id input.profile input.credentialsMode with
  | .error e => .error (.refused e)
  | .ok profile => probeProfile ctx settings profile

/-- Two profiles dial alike, up to white space around the addresses and around the pair. -/
structure Alike (a b : ConnectionProfile) : Prop where
  kind : a.kind = b.kind
  endpoints : trimSpace a.endpoints = trimSpace b.endpoints
  timeoutSec : a.timeoutSec = b.timeoutSec
  mechanism : a.auth.mechanism = b.auth.mechanism
  options : a.options.getD ∅ = b.options.getD ∅
  secrets : ∀ key : String, ¬ Reserved key → a.secrets[key]? = b.secrets[key]?
  pair : ∀ key : String, Reserved key →
    (a.secrets[key]?).map trimSpace = (b.secrets[key]?).map trimSpace

/-! ## Resolving alike -/

section Resolving

variable {settings : AppSettings} {p r : ConnectionProfile}

/-- The same pair given to two profiles that hold the same other secrets. -/
theorem setACL_alike (hp : NoneBlank p.secrets) (hr : NoneBlank r.secrets)
    (hsecret : ∀ key, ¬ Reserved key → r.secret key = p.secret key) (enabled : Bool)
    (ak sk ak' sk' : String) {key : String} (h : ¬ Reserved key) :
    (p.setACL enabled ak sk).secrets[key]? = (r.setACL enabled ak' sk').secrets[key]? := by
  refine (hp.setACL enabled ak sk).lookup (hr.setACL enabled ak' sk') ?_
  have hleft := secret_setACL_of_not_reserved p enabled ak sk h
  have hright := secret_setACL_of_not_reserved r enabled ak' sk' h
  rw [secret] at hleft hright
  rw [hleft, hright, hsecret key h]

/-- A pair that is set is held as it was given. -/
theorem setACL_pair {ak sk : String} (hak : ak ≠ "") (hsk : sk ≠ "") :
    (p.setACL true ak sk).secrets[secretAccessKey]? = some ak ∧
      (p.setACL true ak sk).secrets[secretSecretKey]? = some sk := by
  constructor
  · rw [setACL, if_neg (by simp), setSecret_secrets, if_neg hsk, setSecret_secrets, if_neg hak,
      getElem?_insert_of_ne _ _ secretSecretKey_ne_secretAccessKey]
    simp
  · simp [setACL, hsk]

theorem ne_of_trimSpace_ne {text : String} (h : trimSpace text ≠ "") : text ≠ "" := by
  rintro rfl
  exact h trimSpace_empty

/-- **A submission and what is stored of it** are given the same mechanism and the same secrets,
    up to white space around the pair. -/
theorem resolve_alike (settings : AppSettings) (hp : NoneBlank p.secrets) (hr : NoneBlank r.secrets)
    (hmechanism : r.auth.mechanism =
      if p.auth.mechanism = .blank then .none else p.auth.mechanism)
    (hsecret : ∀ key, r.secret key =
      if Reserved key then (if p.aclEnabled then trimSpace (p.secret key) else "")
      else p.secret key)
    (hpair : p.auth.mechanism = .acl → trimSpace (p.secret secretAccessKey) ≠ "" ∧
      trimSpace (p.secret secretSecretKey) ≠ "") :
    (resolveForDial settings p).auth = (resolveForDial settings r).auth ∧
      (∀ key : String, ¬ Reserved key →
        (resolveForDial settings p).secrets[key]? = (resolveForDial settings r).secrets[key]?) ∧
      ∀ key : String, Reserved key →
        ((resolveForDial settings p).secrets[key]?).map trimSpace =
          ((resolveForDial settings r).secrets[key]?).map trimSpace := by
  have hothers : ∀ key, ¬ Reserved key → r.secret key = p.secret key := by
    intro key h
    rw [hsecret, if_neg h]
  by_cases hacl : p.auth.mechanism = .acl
  · -- its own pair, which is stored trimmed
    have hacl' : r.auth.mechanism = .acl := by
      rw [hmechanism, hacl]
      rfl
    obtain ⟨hauth, hsecrets⟩ : (resolveForDial settings p).auth = _ ∧ _ := resolveForDial_acl hacl
    obtain ⟨hauth', hsecrets'⟩ : (resolveForDial settings r).auth = _ ∧ _ :=
      resolveForDial_acl hacl'
    obtain ⟨hak, hsk⟩ := hpair hacl
    have hstored : ∀ key, Reserved key → r.secret key = trimSpace (p.secret key) := by
      intro key h
      rw [hsecret, if_pos h, if_pos (p.aclEnabled_iff.mpr hacl)]
    have hak' := hstored secretAccessKey (.inl rfl)
    have hsk' := hstored secretSecretKey (.inr rfl)
    refine ⟨hauth.trans hauth'.symm, fun key h => ?_, fun key h => ?_⟩
    · rw [hsecrets, hsecrets']
      exact setACL_alike hp hr hothers true _ _ _ _ h
    · obtain ⟨hleft, hleft'⟩ := setACL_pair (p := p) (ne_of_trimSpace_ne hak)
        (ne_of_trimSpace_ne hsk)
      rw [← hak'] at hak
      rw [← hsk'] at hsk
      obtain ⟨hright, hright'⟩ := setACL_pair (p := r) hak hsk
      rw [hsecrets, hsecrets']
      rcases h with rfl | rfl
      · rw [hleft, hright, hak']
        simp
      · rw [hleft', hright', hsk']
        simp
  · have hacl' : r.auth.mechanism ≠ .acl := by
      rw [hmechanism]
      split
      · exact (by simp)
      · exact hacl
    by_cases hglobal : (p.auth.mechanism = .blank ∨ p.auth.mechanism = .none) ∧ GlobalPair settings
    · obtain ⟨hunnamed, hset⟩ := hglobal
      have hnone : r.auth.mechanism = .none := by
        rw [hmechanism]
        rcases hunnamed with h | h <;> simp [h]
      obtain ⟨hauth, hsecrets⟩ := resolveForDial_global hunnamed hset
      obtain ⟨hauth', hsecrets'⟩ := resolveForDial_global (.inr hnone) hset
      refine ⟨hauth.trans hauth'.symm, fun key h => ?_, fun key h => ?_⟩
      · rw [hsecrets, hsecrets']
        exact setACL_alike hp hr hothers true _ _ _ _ h
      · obtain ⟨hleft, hleft'⟩ := setACL_pair (p := p) (ne_of_trimSpace_ne hset.1)
          (ne_of_trimSpace_ne hset.2)
        obtain ⟨hright, hright'⟩ := setACL_pair (p := r) (ne_of_trimSpace_ne hset.1)
          (ne_of_trimSpace_ne hset.2)
        rw [hsecrets, hsecrets']
        rcases h with rfl | rfl
        · rw [hleft, hright]
        · rw [hleft', hright']
    · have hoff : (p.auth.mechanism ≠ .blank ∧ p.auth.mechanism ≠ .none) ∨
          ¬ GlobalPair settings := by
        rw [not_and_or, not_or] at hglobal
        exact hglobal
      have hoff' : (r.auth.mechanism ≠ .blank ∧ r.auth.mechanism ≠ .none) ∨
          ¬ GlobalPair settings := by
        rcases hoff with ⟨hblank, hnone⟩ | hincomplete
        · rw [hmechanism, if_neg hblank]
          exact .inl ⟨hblank, hnone⟩
        · exact .inr hincomplete
      obtain ⟨hauth, hsecrets⟩ := resolveForDial_off hacl hoff
      obtain ⟨hauth', hsecrets'⟩ := resolveForDial_off hacl' hoff'
      refine ⟨?_, fun key h => ?_, fun key h => ?_⟩
      · rw [hauth, hauth', hmechanism]
        by_cases hblank : p.auth.mechanism = .blank <;> simp [hblank]
      · rw [hsecrets, hsecrets']
        exact setACL_alike hp hr hothers false _ _ _ _ h
      · obtain ⟨hleft, hleft'⟩ := p.setACL_false_reserved "" ""
        obtain ⟨hright, hright'⟩ := r.setACL_false_reserved "" ""
        rw [hsecrets, hsecrets']
        rcases h with rfl | rfl
        · rw [hleft, hright]
        · rw [hleft', hright']

end Resolving

/-! ## A test and the edit after it -/

section Probes

variable {ctx : Context} {settings : AppSettings}

/-- The fields an edit stores beside the credentials. -/
theorem updatedProfile_fields (previous input : ConnectionProfile) (name endpoints : String)
    (acl : Bool × String × String) :
    let edited := updatedProfile previous input name endpoints acl
    edited.name = name ∧ edited.group = normalizeConnectionGroup input.group ∧
      edited.endpoints = endpoints ∧ edited.remark = input.remark ∧
      edited.timeoutSec = input.timeoutSec ∧
      edited.kind = (if input.kind ≠ .unset then input.kind else previous.kind) ∧
      edited.options = (input.options <|> previous.options) := by
  unfold updatedProfile applyCredentials
  dsimp only
  rw [setACL_eq]
  split <;> exact ⟨rfl, rfl, rfl, rfl, rfl, rfl, rfl⟩

/-- And the mechanism. -/
theorem mechanism_updatedProfile {previous input : ConnectionProfile} {name endpoints : String}
    {acl : Bool × String × String}
    (hacl : normalizeACLConfig input.aclEnabled (input.secret secretAccessKey)
      (input.secret secretSecretKey) = .ok acl) :
    (updatedProfile previous input name endpoints acl).auth.mechanism =
      if input.auth.mechanism = .blank then .none else input.auth.mechanism := by
  cases hon : input.aclEnabled with
  | true =>
    rw [hon] at hacl
    obtain ⟨rfl, -, -⟩ := normalizeACLConfig_true_ok hacl
    have hmechanism := input.aclEnabled_iff.mp hon
    simp [updatedProfile, applyCredentials, hmechanism]
  | false =>
    rw [hon] at hacl
    cases hacl
    by_cases hblank : input.auth.mechanism = .blank
    · simp [updatedProfile, applyCredentials, hblank]
    · simp [updatedProfile, applyCredentials, hblank, withMechanism]

theorem hasEndpoint_ne {endpoints : String} (h : hasEndpoint endpoints = true) : endpoints ≠ "" := by
  rintro rfl
  revert h
  decide

/-- What a validated submission's addresses are. -/
theorem validated_endpoints {policy : EndpointPolicy} {kind : MQKind}
    {name endpoints name' endpoints' : String} {timeoutSec : Int}
    (h : validateConnectionFields policy kind name endpoints timeoutSec = .ok (name', endpoints')) :
    name' = trimSpace name ∧ endpoints' = trimSpace endpoints ∧
      (requiresEndpoints policy kind = true → trimSpace endpoints ≠ "") := by
  unfold validateConnectionFields at h
  dsimp only at h
  split at h
  · cases h
  · split at h
    · cases h
    · rename_i hname haddress
      split at h
      · cases h
      · cases h
        refine ⟨rfl, rfl, fun hrequired => ?_⟩
        have hlisted : hasEndpoint (trimSpace endpoints) = true := by
          simpa [hrequired] using haddress
        exact hasEndpoint_ne hlisted

/-- The credentials mode decides about the credentials alone. -/
theorem applied_fields {s : Service} {id : Int} {profile profile' : ConnectionProfile}
    {mode : CredentialsMode} (h : applyCredentialsMode s id profile mode = .ok profile') :
    profile'.kind = profile.kind ∧ profile'.options = profile.options := by
  have hrefill : ∀ current : ConnectionProfile,
      (refill current profile).kind = profile.kind ∧
        (refill current profile).options = profile.options := by
    intro current
    have hsame := unsealed_refill current profile
    have hkind : (unsealed (refill current profile)).kind = (unsealed profile).kind := by rw [hsame]
    have hoptions : (unsealed (refill current profile)).options = (unsealed profile).options := by
      rw [hsame]
    exact ⟨hkind, hoptions⟩
  unfold applyCredentialsMode at h
  split at h
  · split at h
    · cases h
      exact ⟨rfl, rfl⟩
    · split at h
      · cases h
      · cases h
        exact hrefill _
  · split at h
    · cases h
      exact ⟨rfl, rfl⟩
    · split at h
      · cases h
      · cases h
        exact hrefill _
  · cases h
    exact ⟨rfl, rfl⟩
  · cases h
    exact ⟨rfl, rfl⟩
  · cases h

theorem resolveForDial_timeoutSec {p r : ConnectionProfile} (h : p.timeoutSec = r.timeoutSec) :
    (resolveForDial settings p).timeoutSec = (resolveForDial settings r).timeoutSec := by
  have htimeout : ∀ q : ConnectionProfile, (resolveForDial settings q).timeoutSec =
      (getConnectTimeout settings q).tdiv second := by
    intro q
    unfold resolveForDial
    dsimp only
    rw [setACL_eq]
    split <;> rfl
  rw [htimeout, htimeout, getConnectTimeout, getConnectTimeout, h]

theorem resolveForDial_kept (settings : AppSettings) (p : ConnectionProfile) :
    (resolveForDial settings p).kind = p.kind ∧
      (resolveForDial settings p).endpoints = p.endpoints ∧
      (resolveForDial settings p).options = p.options := by
  rw [resolveForDial_eq]
  exact ⟨rfl, rfl, rfl⟩

theorem settled_eq (profile : ConnectionProfile) :
    settled profile =
      { profile with kind := if profile.kind = .unset then .rocketmq else profile.kind } := by
  unfold settled
  split <;> rfl

section Settled

variable (profile : ConnectionProfile)

@[simp] theorem settled_kind : (settled profile).kind =
    if profile.kind = .unset then .rocketmq else profile.kind := by rw [settled_eq]

@[simp] theorem settled_endpoints : (settled profile).endpoints = profile.endpoints := by
  rw [settled_eq]

@[simp] theorem settled_timeoutSec : (settled profile).timeoutSec = profile.timeoutSec := by
  rw [settled_eq]

@[simp] theorem settled_auth : (settled profile).auth = profile.auth := by rw [settled_eq]

@[simp] theorem settled_options : (settled profile).options = profile.options := by rw [settled_eq]

@[simp] theorem settled_secrets : (settled profile).secrets = profile.secrets := by rw [settled_eq]

@[simp] theorem settled_secret (key : String) : (settled profile).secret key = profile.secret key := by
  rw [settled_eq]
  rfl

@[simp] theorem settled_aclEnabled : (settled profile).aclEnabled = profile.aclEnabled := by
  rw [settled_eq]
  rfl

end Settled

/-- **Whether the test dials what saving stores.** Of every stored profile and every submission
    whose edit is saved: where the submission names its family, or the stored one is RocketMQ's, and
    carries its options, or none are stored. -/
theorem probe_alike_iff {s : Service} {id : Int} {input : ConnectionInput} {faults : Faults}
    {cur : ConnectionProfile} (hcur : s.connections[id]? = some cur)
    (hsaved : (update ctx settings id input faults s).saved = .succeeded) :
    ∃ r, (update ctx settings id input faults s).service.connections[id]? = some r ∧
      ((∃ p, probe ctx settings id input s = .ok p ∧ Alike p (resolveForDial settings r)) ↔
        (input.kind ≠ .unset ∨ cur.kind = .rocketmq) ∧
          (input.options ≠ none ∨ cur.options.getD ∅ = ∅)) := by
  obtain ⟨profile, stored, name, endpoints, acl, r, happlied, hstored, hfields, hacl, hr, hrest⟩ :=
    update_stored hsaved
  rw [hcur] at hstored
  cases hstored
  refine ⟨r, hr, ?_⟩
  obtain ⟨-, hr_endpoints, -, -, hr_timeout, hr_kind, hr_options⟩ :
      r.name = _ ∧ r.endpoints = _ ∧ r.group = _ ∧ r.remark = _ ∧ r.timeoutSec = _ ∧ r.kind = _ ∧
        r.options = _ := by
    obtain ⟨h1, h2, h3, h4, h5, h6, h7⟩ := updatedProfile_fields cur profile name endpoints acl
    exact ⟨(congrArg ConnectionProfile.name hrest).trans h1,
      (congrArg ConnectionProfile.endpoints hrest).trans h3,
      (congrArg ConnectionProfile.group hrest).trans h2,
      (congrArg ConnectionProfile.remark hrest).trans h4,
      (congrArg ConnectionProfile.timeoutSec hrest).trans h5,
      (congrArg ConnectionProfile.kind hrest).trans h6,
      (congrArg ConnectionProfile.options hrest).trans h7⟩
  have hr_mechanism : r.auth.mechanism =
      if profile.auth.mechanism = .blank then .none else profile.auth.mechanism :=
    (congrArg (fun p : ConnectionProfile => p.auth.mechanism) hrest).trans
      (mechanism_updatedProfile hacl)
  have hr_secrets : r.secrets = (updatedProfile cur profile name endpoints acl).secrets := by
    have hsame : r.atRest.secrets = (updatedProfile cur profile name endpoints acl).atRest.secrets :=
      congrArg ConnectionProfile.secrets hrest
    exact hsame
  have hr_secret : ∀ key, r.secret key =
      if Reserved key then (if profile.aclEnabled then trimSpace (profile.secret key) else "")
      else profile.secret key := by
    intro key
    rw [secret, hr_secrets]
    exact secret_updatedProfile hacl key
  obtain ⟨hkind, hoptions⟩ := applied_fields happlied
  have hinput : profile.kind = input.kind ∧ profile.options = input.options := by
    have hfields := unsealed_profile input
    exact ⟨hkind.trans (congrArg ConnectionProfile.kind hfields),
      hoptions.trans (congrArg ConnectionProfile.options hfields)⟩
  obtain ⟨-, hvalid, haddress⟩ := validated_endpoints hfields
  obtain ⟨hk, he, ho⟩ := resolveForDial_kept settings (settled profile)
  obtain ⟨hk', he', ho'⟩ := resolveForDial_kept settings r
  rw [settled_kind] at hk
  rw [settled_endpoints] at he
  rw [settled_options] at ho
  have hdialled : ∀ p, probe ctx settings id input s = .ok p →
      p = resolveForDial settings (settled profile) := by
    intro p hp
    rw [probe, happlied] at hp
    dsimp only [probeProfile] at hp
    split at hp
    · cases hp
    · cases hp
      rfl
  constructor
  · rintro ⟨p, hp, halike⟩
    have hp' := hdialled p hp
    have hkinds := halike.kind
    have hopts := halike.options
    rw [hp', hk, hk', hr_kind, hinput.1] at hkinds
    rw [hp', ho, ho', hr_options, hinput.2] at hopts
    refine ⟨?_, ?_⟩
    · by_cases hunset : input.kind = .unset
      · rw [if_pos hunset, if_neg (by simp [hunset])] at hkinds
        exact .inr hkinds.symm
      · exact .inl hunset
    · cases hnone : input.options with
      | none =>
        rw [hnone] at hopts
        exact .inr hopts.symm
      | some options => exact .inl (by simp)
  · rintro ⟨hnamed, hcarried⟩
    -- the family the addresses were checked for is the one that is dialled
    have hfamily : (if profile.kind = .unset then .rocketmq else profile.kind) =
        editedKind s id profile.kind := by
      unfold editedKind
      by_cases hunset : profile.kind = .unset
      · have hrocket : cur.kind = .rocketmq :=
          hnamed.resolve_left fun h => h (hinput.1.symm.trans hunset)
        simp [hunset, hcur, hrocket]
      · simp [hunset]
    have hallowed : probe ctx settings id input s =
        .ok (resolveForDial settings (settled profile)) := by
      rw [probe, happlied]
      dsimp only [probeProfile]
      rw [if_neg]
      intro hrefused
      simp only [settled_kind, settled_endpoints, Bool.and_eq_true, decide_eq_true_eq,
        hfamily] at hrefused
      exact haddress hrefused.1 hrefused.2
    have hclean : NoneBlank (settled profile).secrets := by
      rw [settled_secrets]
      exact noneBlank_applied happlied
    have hstored : NoneBlank r.secrets := by
      rw [hr_secrets]
      exact noneBlank_updatedProfile cur profile name endpoints acl
    have hpair : profile.auth.mechanism = .acl → trimSpace (profile.secret secretAccessKey) ≠ "" ∧
        trimSpace (profile.secret secretSecretKey) ≠ "" := by
      intro hmechanism
      rw [profile.aclEnabled_iff.mpr hmechanism] at hacl
      exact (normalizeACLConfig_true_ok hacl).2
    obtain ⟨hauth, hsecrets, hpairs⟩ := resolve_alike settings hclean hstored
      (by rw [settled_auth]; exact hr_mechanism) (by simpa using hr_secret) (by simpa using hpair)
    refine ⟨_, hallowed, ?_, ?_, ?_, congrArg AuthConfig.mechanism hauth, ?_, hsecrets, hpairs⟩
    · rw [hk, hk', hr_kind]
      by_cases hunset : profile.kind = .unset
      · have hrocket : cur.kind = .rocketmq :=
          hnamed.resolve_left fun h => h (hinput.1.symm.trans hunset)
        simp [hunset, hrocket]
      · simp [hunset]
    · rw [he, he', hr_endpoints, hvalid, trimSpace_trimSpace]
    · refine resolveForDial_timeoutSec ?_
      rw [settled_timeoutSec, hr_timeout]
    · rw [ho, ho', hr_options]
      rw [hinput.2]
      cases hnone : input.options with
      | none =>
        have hempty : cur.options.getD ∅ = ∅ := hcarried.resolve_left fun h => h hnone
        exact hempty.symm
      | some options => rfl

end Probes

/-! ## A submission that leaves the family out -/

/-- A stored Kafka profile. -/
def kafkaSaved : Service :=
  after plainContext (new plainContext none false)
    [⟨defaultSettings, .addConnection (draft .kafka .saslPlain), noFaults⟩]

/-- An edit of its timeout, with or without its family. -/
def timeoutInput (kind : MQKind) : ConnectionInput where
  name := "orders"
  group := ""
  kind := kind
  endpoints := "broker:5672"
  timeoutSec := 9
  auth := .saslPlain
  options := some ∅
  secrets := ∅
  remark := ""
  credentialsMode := .preserve

/-- It is saved on the Kafka profile, and the test before it dials RocketMQ. -/
theorem probe_other_family :
    (update plainContext defaultSettings 1 (timeoutInput .unset) noFaults kafkaSaved).saved =
        .succeeded ∧
      ∃ r p, (update plainContext defaultSettings 1 (timeoutInput .unset) noFaults
          kafkaSaved).service.connections[(1 : Int)]? = some r ∧
        probe plainContext defaultSettings 1 (timeoutInput .unset) kafkaSaved = .ok p ∧
        r.kind = .kafka ∧ p.kind = .rocketmq ∧ ¬ Alike p (resolveForDial defaultSettings r) := by
  refine ⟨by decide, _, _, Option.get_mem (by decide), rfl, by decide, by decide, fun halike => ?_⟩
  have hkind := halike.kind
  revert hkind
  decide

/-- Named, the family is the one that is tested. -/
theorem probe_alike_kafka :
    ∃ r, (update plainContext defaultSettings 1 (timeoutInput .kafka) noFaults
        kafkaSaved).service.connections[(1 : Int)]? = some r ∧
      ∃ p, probe plainContext defaultSettings 1 (timeoutInput .kafka) kafkaSaved = .ok p ∧
        Alike p (resolveForDial defaultSettings r) := by
  have hstored : kafkaSaved.connections[(1 : Int)]? =
      some (kafkaSaved.connections[(1 : Int)]?.get (by decide)) := by simp
  obtain ⟨r, hr, hiff⟩ := probe_alike_iff hstored
    (by decide : (update plainContext defaultSettings 1 (timeoutInput .kafka) noFaults
      kafkaSaved).saved = .succeeded)
  exact ⟨r, hr, hiff.mpr ⟨.inl (by decide), .inl (by decide)⟩⟩

end MqStudio.Connection
