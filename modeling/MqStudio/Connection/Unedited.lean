import MqStudio.Connection.DiskAgreement
import MqStudio.Connection.Probe
import MqStudio.Connection.Reopening

/-!
# Saving a Form That Was Left as It Is

A form is opened on a stored profile and saved without a change. The service compares what it was
sent with what it holds, key by key, and takes an open client down where the two differ.

`unedited_untouched_iff` says of every stored profile whether such a save leaves it as it was: where
the form of its family writes back everything that it read, and what it did not read is nothing.

## Main definitions

- `unedited`: the edit.
- `Untouched`, `ReadsBack`.
-/

namespace MqStudio.Connection

open MqStudio.Connection.Forms
open MqStudio.Lib
open MqStudio.Lib.TreeMap
open MqStudio.Model
open MqStudio.Settings (AppSettings defaultSettings)
open MqStudio.Storage

/-- The edit of a form that is opened on a profile and left as it is. -/
def unedited {ν : Type} (js : Numbers ν) (stored : ConnectionProfile) : ConnectionInput :=
  toInput (toSubmission js (toDraft js (redactConnection stored)))

/-- Everything a form has a say in is as it was. -/
structure Untouched (before after : ConnectionProfile) : Prop where
  name : after.name = before.name
  group : after.group = before.group
  remark : after.remark = before.remark
  kind : after.kind = before.kind
  endpoints : after.endpoints = before.endpoints
  timeoutSec : after.timeoutSec = before.timeoutSec
  mechanism : after.auth.mechanism = before.auth.mechanism
  options : after.options.getD ∅ = before.options.getD ∅
  secrets : after.secrets = before.secrets

theorem Untouched.refl (p : ConnectionProfile) : Untouched p p :=
  ⟨rfl, rfl, rfl, rfl, rfl, rfl, rfl, rfl, rfl⟩

/-- Such a profile is dialled as it was. -/
theorem Untouched.dialled {before after : ConnectionProfile} (h : Untouched before after) :
    dialParametersChanged before after = false :=
  dialParametersChanged_eq_false_iff.mpr ⟨h.kind.symm, h.endpoints.symm, h.timeoutSec.symm,
    h.mechanism.symm, h.options.symm, h.secrets.symm⟩

/-- Whether the window is told that a profile has secrets. -/
def hasSecrets (p : ConnectionProfile) : Bool := 0 < (configuredSecrets p).length

/-- No white space at its ends, of the form or of the service. -/
def Bare (text : String) : Prop := trim text = text ∧ trimSpace text = text

/-- **A profile reads back** where its family has a form, its name and its addresses have no white
    space around them, its mechanism is one that the form makes of it, its secrets are ones that the
    form asks to keep, and its options are the form's, all of them and each as the form spells it. -/
structure ReadsBack {ν : Type} (js : Numbers ν) (p : ConnectionProfile) : Prop where
  form : hasForm p.kind = true
  name : Bare p.name
  endpoints : hasAddress p.kind = true → Bare p.endpoints
  unaddressed : hasAddress p.kind = false → p.endpoints = ""
  mechanism : p.auth.mechanism ∈ formMechanisms p.kind (hasSecrets p)
  options : SpelledOut (p.options.getD ∅)
    (spellings js p.auth.mechanism (p.options.getD ∅) p.kind)
  noneBlank : NoneBlank p.secrets
  secrets : hasSecrets p = true → keepsSecrets p.kind p.auth.mechanism = true

/-! ## Texts -/

/-- Trimmed by the form and then by the service, a text is as it was where neither had anything to
    take. -/
theorem trimSpace_trim_iff {text : String} : trimSpace (trim text) = text ↔ Bare text := by
  constructor
  · intro h
    have htrimmed : trim text = text := by
      have hinner : (trim text).toList.Sublist text.toList := by
        rw [trim, String.toList_ofList]
        exact Words.trim_sublist _ _
      have houter : text.toList.Sublist (trim text).toList := by
        have hlist : text.toList = Words.trim isSpace (trim text).toList := by
          conv_lhs => rw [← h, trimSpace, String.toList_ofList]
        rw [hlist]
        exact Words.trim_sublist _ _
      exact String.toList_inj.mp (hinner.antisymm houter)
    rw [htrimmed] at h
    exact ⟨htrimmed, h⟩
  · rintro ⟨htrimmed, hspace⟩
    rw [htrimmed, hspace]

theorem hasSecrets_iff {p : ConnectionProfile} :
    hasSecrets p = true ↔ ∃ key, p.secret key ≠ "" := by
  rw [hasSecrets, decide_eq_true_eq, List.length_pos_iff_exists_mem]
  constructor
  · rintro ⟨key, hkey⟩
    obtain ⟨entry, hentry, rfl⟩ := List.mem_map.mp hkey
    obtain ⟨hmem, hvalue⟩ := List.mem_filter.mp hentry
    refine ⟨entry.1, ?_⟩
    rw [ConnectionProfile.secret, Std.ExtTreeMap.mem_toList_iff_getElem?_eq_some.mp hmem]
    exact of_decide_eq_true hvalue
  · rintro ⟨key, hsecret⟩
    rw [ConnectionProfile.secret] at hsecret
    cases hstored : p.secrets[key]? with
    | none =>
      rw [hstored] at hsecret
      exact absurd rfl hsecret
    | some value =>
      rw [hstored] at hsecret
      have hmem := Std.ExtTreeMap.mem_toList_iff_getElem?_eq_some.mpr hstored
      exact ⟨key, List.mem_map.mpr ⟨(key, value),
        List.mem_filter.mpr ⟨hmem, decide_eq_true hsecret⟩, rfl⟩⟩

/-! ## What is submitted -/

section Submitted

variable {ν : Type} (js : Numbers ν) {ctx : Context} {settings : AppSettings}

/-- Whether the stored secrets are kept. -/
def Keeps (stored : ConnectionProfile) : Prop :=
  hasSecrets stored = true ∧ keepsSecrets stored.kind stored.auth.mechanism = true

instance (stored : ConnectionProfile) : Decidable (Keeps stored) :=
  inferInstanceAs (Decidable (hasSecrets stored = true ∧
    keepsSecrets stored.kind stored.auth.mechanism = true))

/-- **What the credentials mode makes of it**: the submitted fields, and the stored secrets where
    they are kept. -/
theorem applied_unedited {s : Service} {id : Int} (hid : id ≠ 0) {stored : ConnectionProfile}
    (hstored : s.connections[id]? = some stored) {profile : ConnectionProfile}
    (h : applyCredentialsMode s id (unedited js stored).profile
      (unedited js stored).credentialsMode = .ok profile) :
    unsealed profile = (unedited js stored).fields ∧
      ∀ key, profile.secret key = if Keeps stored then stored.secret key else "" := by
  have hblank : ∀ key, (unedited js stored).profile.secret key = "" := by
    intro key
    rw [secret_profile]
    exact secrets_reopened js (redactConnection stored) key
  have hkeeps : (unedited js stored).credentialsMode = .preserve ↔ Keeps stored :=
    credentialsMode_reopened js (redactConnection stored)
  rcases credentialsMode_cases js (toDraft js (redactConnection stored)) with
    hclear | hpreserve | hreplace
  · have hmode : (unedited js stored).credentialsMode = .clear := hclear
    have hnobody : (unedited js stored).auth = .none :=
      clear_reopened js (redactConnection stored) hclear
    have hwiped : ¬ Keeps stored := fun hkept => by
      rw [hkeeps.mpr hkept] at hmode
      cases hmode
    rw [hmode, applyCredentialsMode] at h
    cases h
    refine ⟨?_, fun key => ?_⟩
    · have hfields := unsealed_profile (unedited js stored)
      calc unsealed { (unedited js stored).profile with secrets := ∅, auth := ⟨.none⟩ }
          = { unsealed (unedited js stored).profile with auth := ⟨.none⟩ } := rfl
        _ = { (unedited js stored).fields with auth := ⟨.none⟩ } := by rw [hfields]
        _ = (unedited js stored).fields := by rw [← hnobody]; rfl
    · rw [if_neg hwiped]
      simp [ConnectionProfile.secret]
  · have hmode : (unedited js stored).credentialsMode = .preserve := hpreserve
    rw [hmode, applyCredentialsMode, if_neg hid, hstored] at h
    cases h
    refine ⟨by rw [unsealed_refill, unsealed_profile], fun key => ?_⟩
    rw [secret_refill, if_pos (hblank key), if_pos (hkeeps.mp hmode)]
  · have hmode : (unedited js stored).credentialsMode = .replace := hreplace
    have hwiped : ¬ Keeps stored := fun hkept => by
      rw [hkeeps.mpr hkept] at hmode
      cases hmode
    rw [hmode, applyCredentialsMode] at h
    cases h
    exact ⟨unsealed_profile _, fun key => by rw [hblank, if_neg hwiped]⟩

/-! ## What is stored -/

/-- A form names its mechanism. -/
theorem mechanism_ne_blank (d : ProtocolDraft ν) :
    (toSubmission js d).draft.authMechanism ≠ .blank := by
  cases d with
  | rabbitmq value | nsq value =>
    intro hblank
    cases hblank
  | kafka value =>
    show value.mechanism.stored ≠ .blank
    cases value.mechanism <;> decide
  | nats value =>
    show value.mechanism.stored ≠ .blank
    cases value.mechanism <;> decide
  | activemq value =>
    show value.mechanism.stored ≠ .blank
    cases value.mechanism <;> decide
  | ibmmq value =>
    show value.mechanism.stored ≠ .blank
    cases value.mechanism <;> decide
  | solace value =>
    show value.mechanism.stored ≠ .blank
    cases value.mechanism <;> decide
  | rocketmq value | pulsar value | redis value | mqtt value | sqs value | googlePubSub value
  | azureServiceBus value | kinesis value =>
    simp only [toSubmission, rocketMQSubmission, pulsarSubmission, redisSubmission, mqttSubmission,
      sqsSubmission, kinesisSubmission, AwsDraft.submit, googlePubSubSubmission,
      azureServiceBusSubmission, FormDraft.submission]
    split
    all_goals
      intro hblank
      cases hblank

/-- **What is stored of a save** of a form that was left as it is. -/
structure StoredAs (stored r : ConnectionProfile) : Prop where
  name : r.name = trimSpace (trim stored.name)
  group : r.group = normalizeConnectionGroup stored.group
  remark : r.remark = stored.remark
  timeoutSec : r.timeoutSec = stored.timeoutSec
  kind : r.kind = if hasForm stored.kind then stored.kind else .rocketmq
  endpoints : r.endpoints =
    trimSpace (if hasAddress stored.kind then trim stored.endpoints else "")
  mechanism : r.auth.mechanism = (unedited js stored).auth
  options : r.options = (unedited js stored).options
  noneBlank : NoneBlank r.secrets
  secret : ∀ key, r.secret key =
    if Reserved key then
      (if (unedited js stored).auth = .acl ∧ Keeps stored then trimSpace (stored.secret key) else "")
    else if Keeps stored then stored.secret key else ""

theorem stored_unedited {s : Service} {id : Int} (hid : id ≠ 0) {stored : ConnectionProfile}
    (hstored : s.connections[id]? = some stored) {faults : Faults}
    (hsaved : (update ctx settings id (unedited js stored) faults s).saved = .succeeded) :
    ∃ r, (update ctx settings id (unedited js stored) faults s).service.connections[id]? = some r ∧
      StoredAs js stored r := by
  obtain ⟨profile, cur, name, endpoints, acl, r, happlied, hcur, hfields, hacl, hr, hrest⟩ :=
    update_stored hsaved
  rw [hstored] at hcur
  cases hcur
  obtain ⟨hread, hsecret⟩ := applied_unedited js hid hstored happlied
  obtain ⟨hname, hgroup, hremark, htimeout, hkind, haddress⟩ :=
    fields_reopened js (redactConnection stored)
  obtain ⟨rfl, rfl, -⟩ := validated_endpoints hfields
  obtain ⟨hname', hgroup', haddress', hremark', htimeout', hkind', hoptions'⟩ :=
    updatedProfile_fields stored profile (trimSpace profile.name) (trimSpace profile.endpoints) acl
  have hauth : profile.auth.mechanism = (unedited js stored).auth :=
    congrArg (fun p : ConnectionProfile => p.auth.mechanism) hread
  have hacl_on : profile.aclEnabled = true ↔ (unedited js stored).auth = .acl := by
    rw [ConnectionProfile.aclEnabled_iff, hauth]
  -- every field of the stored edit is the submission's, which is the stored profile's
  refine ⟨r, hr, ?_, ?_, ?_, ?_, ?_, ?_, ?_, ?_, ?_, ?_⟩
  · have hprofile : profile.name = trim stored.name :=
      (congrArg ConnectionProfile.name hread).trans hname
    rw [← hprofile]
    exact (congrArg ConnectionProfile.name hrest).trans hname'
  · have hprofile : profile.group = stored.group :=
      (congrArg ConnectionProfile.group hread).trans hgroup
    rw [← hprofile]
    exact (congrArg ConnectionProfile.group hrest).trans hgroup'
  · have hprofile : profile.remark = stored.remark :=
      (congrArg ConnectionProfile.remark hread).trans hremark
    rw [← hprofile]
    exact (congrArg ConnectionProfile.remark hrest).trans hremark'
  · have hprofile : profile.timeoutSec = stored.timeoutSec :=
      (congrArg ConnectionProfile.timeoutSec hread).trans htimeout
    rw [← hprofile]
    exact (congrArg ConnectionProfile.timeoutSec hrest).trans htimeout'
  · have hprofile : profile.kind = if hasForm stored.kind then stored.kind else .rocketmq :=
      (congrArg ConnectionProfile.kind hread).trans hkind
    have hset : profile.kind ≠ .unset := by
      rw [hprofile]
      cases stored.kind <;> exact nofun
    rw [if_pos hset] at hkind'
    rw [← hprofile]
    exact (congrArg ConnectionProfile.kind hrest).trans hkind'
  · have hprofile : profile.endpoints =
        if hasAddress stored.kind then trim stored.endpoints else "" :=
      (congrArg ConnectionProfile.endpoints hread).trans haddress
    rw [← hprofile]
    exact (congrArg ConnectionProfile.endpoints hrest).trans haddress'
  · have hmechanism := (congrArg (fun p : ConnectionProfile => p.auth.mechanism) hrest).trans
      (mechanism_updatedProfile hacl)
    have hnamed : (unedited js stored).auth ≠ .blank := mechanism_ne_blank js _
    rw [hauth, if_neg hnamed] at hmechanism
    exact hmechanism
  · have hprofile : profile.options = (unedited js stored).options :=
      congrArg ConnectionProfile.options hread
    have hoptions := (congrArg ConnectionProfile.options hrest).trans hoptions'
    rw [hprofile] at hoptions
    exact hoptions
  · have hsecrets : r.atRest.secrets = (updatedProfile stored profile (trimSpace profile.name)
        (trimSpace profile.endpoints) acl).atRest.secrets :=
      congrArg ConnectionProfile.secrets hrest
    show NoneBlank r.atRest.secrets
    rw [hsecrets]
    exact noneBlank_updatedProfile _ _ _ _ _
  · intro key
    have hkey : r.secret key = (updatedProfile stored profile (trimSpace profile.name)
        (trimSpace profile.endpoints) acl).secret key := by
      rw [← ConnectionProfile.atRest_secret, hrest, ConnectionProfile.atRest_secret]
    rw [hkey, secret_updatedProfile hacl, hsecret]
    by_cases hreserved : Reserved key
    · by_cases hkept : Keeps stored
      · simp [hreserved, hkept, hacl_on]
      · simp [hreserved, hkept]
    · simp [hreserved]

/-! ## What a save leaves -/

/-- The secrets a save stores are those that were stored, where these are not blank and are kept. -/
theorem secrets_kept_iff {stored r : ConnectionProfile} (h : StoredAs js stored r)
    (hnormal : Normal stored) (hmechanism : (unedited js stored).auth = stored.auth.mechanism) :
    r.secrets = stored.secrets ↔ NoneBlank stored.secrets ∧
      (hasSecrets stored = true → keepsSecrets stored.kind stored.auth.mechanism = true) := by
  have hread : ∀ key, r.secret key = if Keeps stored then stored.secret key else "" := by
    intro key
    rw [h.secret]
    by_cases hreserved : Reserved key
    · rw [if_pos hreserved, hmechanism]
      by_cases hacl : stored.auth.mechanism = .acl
      · -- the pair is stored as the service trims it
        have hpair := (normalizeACLConfig_true_ok
          (hnormal.enabled (stored.aclEnabled_iff.mpr hacl))).1
        simp only [Prod.mk.injEq, true_and] at hpair
        have htrimmed : trimSpace (stored.secret key) = stored.secret key := by
          rcases hreserved with rfl | rfl
          · exact hpair.1.symm
          · exact hpair.2.symm
        simp [hacl, htrimmed]
      · have hnone : stored.secret key = "" := by
          have hoff : stored.aclEnabled = false := by
            rw [← Bool.not_eq_true, stored.aclEnabled_iff]
            exact hacl
          obtain ⟨hak, hsk⟩ := hnormal.disabled hoff
          rw [ConnectionProfile.secret]
          rcases hreserved with rfl | rfl
          · rw [hak]
            rfl
          · rw [hsk]
            rfl
        simp [hacl, hnone]
    · rw [if_neg hreserved]
  constructor
  · intro hsame
    refine ⟨hsame ▸ h.noneBlank, fun hsome => ?_⟩
    obtain ⟨key, hkey⟩ := hasSecrets_iff.mp hsome
    by_contra hlost
    have hwiped := hread key
    rw [if_neg fun hkept => hlost hkept.2, ConnectionProfile.secret, hsame] at hwiped
    exact hkey hwiped
  · rintro ⟨hblank, hkeeps⟩
    refine h.noneBlank.ext hblank fun key => ?_
    have hkey := hread key
    rw [ConnectionProfile.secret, ConnectionProfile.secret] at hkey
    rw [hkey]
    by_cases hsome : hasSecrets stored = true
    · rw [if_pos ⟨hsome, hkeeps hsome⟩]
    · rw [if_neg fun hkept => hsome hkept.1]
      by_contra hne
      exact hsome (hasSecrets_iff.mpr ⟨key, fun hkey => hne hkey.symm⟩)

theorem untouched_iff {stored r : ConnectionProfile} (h : StoredAs js stored r)
    (hnormal : Normal stored) : Untouched stored r ↔ ReadsBack js stored := by
  have hform : (if hasForm stored.kind = true then stored.kind else .rocketmq) = stored.kind ↔
      hasForm stored.kind = true := by
    cases stored.kind <;> simp [hasForm]
  have hmechanism : (unedited js stored).auth = stored.auth.mechanism ↔
      stored.auth.mechanism ∈ formMechanisms stored.kind (hasSecrets stored) :=
    mechanism_reopened js (redactConnection stored)
  have hoptions : (unedited js stored).options.getD ∅ = stored.options.getD ∅ ↔
      SpelledOut (stored.options.getD ∅)
        (spellings js stored.auth.mechanism (stored.options.getD ∅) stored.kind) :=
    options_reopened js (redactConnection stored)
  constructor
  · intro hkept
    have hsame := h.mechanism.symm.trans hkept.mechanism
    obtain ⟨hblank, hkeeps⟩ := (secrets_kept_iff js h hnormal hsame).mp hkept.secrets
    have haddress := h.endpoints.symm.trans hkept.endpoints
    refine ⟨hform.mp (h.kind.symm.trans hkept.kind),
      trimSpace_trim_iff.mp (h.name.symm.trans hkept.name), fun hhas => ?_, fun hnone => ?_,
      hmechanism.mp hsame, hoptions.mp ?_, hblank, hkeeps⟩
    · rw [if_pos hhas] at haddress
      exact trimSpace_trim_iff.mp haddress
    · rw [if_neg (by simp [hnone]), trimSpace_empty] at haddress
      exact haddress.symm
    · rw [← h.options]
      exact hkept.options
  · intro hback
    have hsame := hmechanism.mpr hback.mechanism
    refine ⟨h.name.trans (trimSpace_trim_iff.mpr hback.name), h.group.trans hnormal.group,
      h.remark, h.kind.trans (hform.mpr hback.form), ?_, h.timeoutSec, h.mechanism.trans hsame, ?_,
      (secrets_kept_iff js h hnormal hsame).mpr ⟨hback.noneBlank, hback.secrets⟩⟩
    · rw [h.endpoints]
      cases hhas : hasAddress stored.kind with
      | true => exact trimSpace_trim_iff.mpr (hback.endpoints hhas)
      | false => exact (hback.unaddressed hhas).symm
    · rw [h.options]
      exact hoptions.mpr hback.options

/-- **An edit of a profile**: nothing happened, or what is stored of it dials as it did and no client
    was touched, or it dials otherwise. -/
theorem update_runtime {s : Service} {id : Int} {stored : ConnectionProfile}
    (hstored : s.connections[id]? = some stored) (input : ConnectionInput) (faults : Faults) :
    ∃ r, (update ctx settings id input faults s).service.connections[id]? = some r ∧
      ((update ctx settings id input faults s).saved ≠ .succeeded → r = stored) ∧
      (dialParametersChanged stored r = false →
        (update ctx settings id input faults s).service.runtime = s.runtime) := by
  unfold update
  cases hmode : applyCredentialsMode s id input.profile input.credentialsMode with
  | error e => exact ⟨stored, hstored, fun _ => rfl, fun _ => rfl⟩
  | ok profile =>
    dsimp only
    rcases updateConnection_cases ctx settings s id profile faults with
      ⟨hsame, -⟩ | ⟨previous, name, endpoints, acl, edited, hprevious, -, -, -, hsaved, hkept⟩
    · rw [hsame]
      exact ⟨stored, hstored, fun _ => rfl, fun _ => rfl⟩
    · rw [hstored] at hprevious
      cases hprevious
      obtain ⟨r, hr, hrest⟩ := hkept.stored
      refine ⟨r, hr, fun hunsaved => absurd hsaved hunsaved, fun hdial => ?_⟩
      have hsame : dialParametersChanged stored edited = false := by
        have hedited : SameDial r edited := by
          have hatRest : r.atRest = edited.atRest := by
            rw [hrest]
            split <;> rfl
          have hback : SameDial edited.atRest edited := ⟨rfl, rfl, rfl, rfl, rfl, rfl⟩
          exact (SameDial.atRest r).trans (hatRest ▸ hback)
        exact dialParametersChanged_eq_false_iff.mpr
          ((dialParametersChanged_eq_false_iff.mp hdial).trans hedited)
      rw [hsame] at hkept
      generalize (updateConnection ctx settings id profile faults s).service = after at hkept ⊢
      cases hkept with
      | kept hdata => rfl

/-- **Whether saving an unedited form changes nothing.** Of every profile that is stored in any run:
    the save leaves it as it was where it is refused, and otherwise exactly where the profile reads
    back; it is dialled as it was then, and no client is touched. -/
theorem unedited_untouched_iff {s : Service}
    (hs : (window ctx).Reachable (fun _ a => a.op.NamesFamilies ctx) s) {id : Int}
    {stored : ConnectionProfile} (hstored : s.connections[id]? = some stored) (faults : Faults) :
    ∃ r, (update ctx settings id (unedited js stored) faults s).service.connections[id]? = some r ∧
      (Untouched stored r ↔
        ((update ctx settings id (unedited js stored) faults s).saved = .succeeded →
          ReadsBack js stored)) ∧
      (Untouched stored r → dialParametersChanged stored r = false ∧
        (update ctx settings id (unedited js stored) faults s).service.runtime = s.runtime) := by
  obtain ⟨r, hr, hrefused, hruntime⟩ := update_runtime hstored (unedited js stored) faults
  refine ⟨r, hr, ?_, fun hsame => ⟨hsame.dialled, hruntime hsame.dialled⟩⟩
  by_cases hsaved : (update ctx settings id (unedited js stored) faults s).saved = .succeeded
  · have hid : id ≠ 0 := by
      have hpositive := (reachable_storeInvariant hs).positive id stored hstored
      omega
    obtain ⟨r', hr', hkept⟩ := stored_unedited js hid hstored hsaved
    rw [hr] at hr'
    cases hr'
    rw [untouched_iff js hkept (reachable_allNormal hs id stored hstored)]
    exact ⟨fun h _ => h, fun h => h hsaved⟩
  · rw [hrefused hsaved]
    exact ⟨fun _ h => absurd h hsaved, fun _ => .refl stored⟩

end Submitted

/-! ## A scope that was cleared -/

/-- A RocketMQ form without a namespace. -/
def scopeDraft : RocketMQDraft where
  name := "orders"
  group := ""
  remark := ""
  timeoutSec := 5
  credentialsStored := false
  clearCredentials := false
  version := .v5
  access := .ns
  endpoints := "127.0.0.1:9876"
  accessKey := ""
  secretKey := ""
  «namespace» := ""

/-- The window after saving it, connecting, and some switching of its scope. -/
def switched (switches : List String) : Service :=
  after plainContext (new plainContext none false)
    (⟨defaultSettings, .addConnection
        (toInput (toSubmission wholeNumbers (.rocketmq scopeDraft))).profile, noFaults⟩ ::
      ⟨defaultSettings, .connect 1, noFaults⟩ ::
      switches.map fun scope => ⟨defaultSettings, .setOption 1 "namespace" scope, noFaults⟩)

/-- What is stored of it. -/
def switchedProfile (switches : List String) : ConnectionProfile :=
  ((switched switches).connections[(1 : Int)]?).getD (draft .rocketmq .none)

/-- Its form is saved as it was opened, while the broker does not answer. -/
def saveSwitched (switches : List String) : Updated :=
  update plainContext defaultSettings 1 (unedited wholeNumbers (switchedProfile switches))
    { noFaults with dialFails := true } (switched switches)

/-- As it was first saved it stays, and its client with it. -/
theorem unedited_untouched_saved :
    ∃ r, (saveSwitched []).service.connections[(1 : Int)]? = some r ∧
      Untouched (switchedProfile []) r ∧ (saveSwitched []).service.runtime.hasClient 1 = true := by
  have hreachable : (window plainContext).Reachable (fun _ a => a.op.NamesFamilies plainContext)
      (switched []) :=
    reachable_after none _ ⟨trivial, fun _ _ => ⟨trivial, fun _ _ => trivial⟩⟩
  have hstored : (switched []).connections[(1 : Int)]? = some (switchedProfile []) := by decide
  obtain ⟨r, hr, hiff, hkept⟩ := unedited_untouched_iff wholeNumbers hreachable hstored
    { noFaults with dialFails := true }
  have hback : ReadsBack wholeNumbers (switchedProfile []) := {
    form := by decide
    name := ⟨by decide, by decide⟩
    endpoints := fun _ => ⟨by decide, by decide⟩
    unaddressed := fun h => absurd h (by decide)
    mechanism := by decide
    options :=
      (options_reopened wholeNumbers (redactConnection (switchedProfile []))).mp (by decide)
    noneBlank := by
      have hnone : (switchedProfile []).secrets = ∅ := by decide
      rw [hnone]
      exact noneBlank_empty
    secrets := fun h => absurd h (by decide) }
  have hsame := hiff.mpr fun _ => hback
  have hclient : (switched []).runtime.hasClient 1 = true := by decide
  refine ⟨r, hr, hsame, ?_⟩
  rw [← hclient]
  exact congrArg (fun runtime : Driver.Registry => runtime.hasClient 1) (hkept hsame).2

/-- **A scope that is chosen and cleared again** leaves the option out that the form writes as a
    blank: saved as it was opened, the form takes the open client down. -/
theorem cleared_scope_drops :
    (switched ["eu", ""]).connections[(1 : Int)]? = some (switchedProfile ["eu", ""]) ∧
      (switched ["eu", ""]).runtime.hasClient 1 = true ∧
      (saveSwitched ["eu", ""]).saved = .succeeded ∧
      ∃ r, (saveSwitched ["eu", ""]).service.connections[(1 : Int)]? = some r ∧
        ¬ Untouched (switchedProfile ["eu", ""]) r ∧
        dialParametersChanged (switchedProfile ["eu", ""]) r = true ∧
        (saveSwitched ["eu", ""]).service.runtime.hasClient 1 = false := by
  refine ⟨by decide, by decide, by decide, _, Option.get_mem (by decide), fun hsame => ?_,
    by decide, by decide⟩
  have hoptions := hsame.options
  revert hoptions
  decide

end MqStudio.Connection
