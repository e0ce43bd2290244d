import MqStudio.Agent.Allowance
import MqStudio.Agent.Toolset
import MqStudio.Connection.StoreInvariant

/-!
# Permissions and the Credentials They Were Given For

A grant made at startup, and a yes given to a question, are both held to the profile as it was
stored then: `ceiling` and `changedSince` ask `Repointed` about the two stored profiles. What is
dialled is the resolved profile. A profile without a mechanism of its own is dialled with the
global key pair, so for it the two comparisons disagree after the pair was changed.

## Main results

- `dialledElsewhere_of_same`: the one way an unchanged profile is dialled differently.
- `permission_ends_with_credentials`: exactly when a permission ends with its credentials.
-/

namespace MqStudio.Agent

open MqStudio.Connection
open MqStudio.Lib.TreeMap
open MqStudio.Model
open MqStudio.Settings (AppSettings)
open MqStudio.Storage

/-! ## The global pair -/

/-- The key pair for profiles that name no mechanism; both halves or none. -/
def globalPair (settings : AppSettings) : Option (String × String) :=
  if trimSpace settings.globalAccessKey ≠ "" ∧ trimSpace settings.globalSecretKey ≠ "" then
    some (settings.globalAccessKey, settings.globalSecretKey)
  else none

/-- The profile names no mechanism, so the global pair is its credentials. -/
def LeansOnGlobal (p : ConnectionProfile) : Prop :=
  p.auth.mechanism = .blank ∨ p.auth.mechanism = .none

instance (p : ConnectionProfile) : Decidable (LeansOnGlobal p) :=
  inferInstanceAs (Decidable (_ ∨ _))

/-- The pair is never blank. -/
theorem globalPair_ne_blank {settings : AppSettings} {pair : String × String}
    (h : globalPair settings = some pair) : pair.1 ≠ "" ∧ pair.2 ≠ "" := by
  unfold globalPair at h
  split at h
  · rename_i hpair
    cases h
    have hak : settings.globalAccessKey ≠ "" :=
      fun hblank => hpair.1 (by rw [hblank, trimSpace_empty])
    have hsk : settings.globalSecretKey ≠ "" :=
      fun hblank => hpair.2 (by rw [hblank, trimSpace_empty])
    exact ⟨hak, hsk⟩
  · cases h

section Resolving

variable {settings : AppSettings} {p : ConnectionProfile}

/-- With a mechanism of its own a profile resolves without the global pair. -/
theorem resolveACLCredentials_of_own (h : ¬ LeansOnGlobal p) (other : AppSettings) :
    resolveACLCredentials settings p = resolveACLCredentials other p := by
  unfold resolveACLCredentials
  split
  · rfl
  · rw [if_pos (not_or.mp h), if_pos (not_or.mp h)]

/-- Without one it resolves to the global pair. -/
theorem resolveACLCredentials_of_leans (h : LeansOnGlobal p) :
    resolveACLCredentials settings p =
      match globalPair settings with
      | some pair => (true, pair.1, pair.2)
      | none => (false, "", "") := by
  have hacl : p.aclEnabled ≠ true := by
    intro henabled
    have hmechanism := p.aclEnabled_iff.mp henabled
    rcases h with h | h <;> rw [h] at hmechanism <;> cases hmechanism
  unfold resolveACLCredentials globalPair
  rw [if_neg hacl, if_neg (not_and_or.mpr (h.imp not_not.mpr not_not.mpr))]
  split <;> rfl

/-- What a dial compares of a resolved profile, timeout and credentials aside. -/
theorem resolveForDial_frame (settings : AppSettings) (p : ConnectionProfile) :
    (resolveForDial settings p).kind = p.kind ∧
      (resolveForDial settings p).endpoints = p.endpoints ∧
      (resolveForDial settings p).options = p.options := by
  unfold resolveForDial
  dsimp only
  rw [ConnectionProfile.setACL_eq]
  split <;> exact ⟨rfl, rfl, rfl⟩

/-- The credentials of a resolved profile. -/
theorem resolveForDial_credentials (settings : AppSettings) (p : ConnectionProfile) :
    (resolveForDial settings p).auth.mechanism =
        (if (resolveACLCredentials settings p).1 then .acl
          else if p.auth.mechanism ≠ .blank then p.auth.mechanism else .none) ∧
      (resolveForDial settings p).secrets =
        (p.setACL (resolveACLCredentials settings p).1 (resolveACLCredentials settings p).2.1
          (resolveACLCredentials settings p).2.2).secrets := by
  unfold resolveForDial
  dsimp only
  cases (resolveACLCredentials settings p).1 with
  | true => exact ⟨rfl, rfl⟩
  | false =>
    by_cases hblank : p.auth.mechanism = .blank
    · simp only [hblank]
      exact ⟨rfl, rfl⟩
    · simp only [Bool.not_false, true_and, if_pos hblank, Bool.false_eq_true, if_false]
      exact ⟨rfl, rfl⟩

end Resolving

/-! ## Dialled elsewhere -/

/-- What the profile would be dialled with now differs, timeout aside, from what it resolved to
    before. -/
def dialledElsewhere (before now : AppSettings) (agreed current : ConnectionProfile) : Bool :=
  repointed (resolveForDial before agreed) (resolveForDial now current)

section Same

variable {before now : AppSettings} {agreed current : ConnectionProfile}

/-- Profiles of one mechanism and the same secrets resolve alike. -/
theorem resolveACLCredentials_congr (settings : AppSettings)
    (hmechanism : agreed.auth.mechanism = current.auth.mechanism)
    (hsecrets : agreed.secrets = current.secrets) :
    resolveACLCredentials settings agreed = resolveACLCredentials settings current := by
  unfold resolveACLCredentials ConnectionProfile.aclEnabled ConnectionProfile.secret
  rw [hmechanism, hsecrets]

/-- What `SetACL` makes of equal secrets. -/
theorem setACL_secrets_congr (hsecrets : agreed.secrets = current.secrets) (enabled : Bool)
    (ak sk : String) :
    (agreed.setACL enabled ak sk).secrets = (current.setACL enabled ak sk).secrets := by
  cases enabled <;> simp [ConnectionProfile.setACL, hsecrets]

/-- An unchanged profile is dialled as before exactly when it resolves to the same credentials. -/
theorem not_dialledElsewhere_iff (h : repointed agreed current = false) :
    dialledElsewhere before now agreed current = false ↔
      (resolveForDial before agreed).auth.mechanism = (resolveForDial now current).auth.mechanism ∧
        (resolveForDial before agreed).secrets = (resolveForDial now current).secrets := by
  have hsame := dialParametersChanged_eq_false_iff.mp h
  obtain ⟨hkind, hendpoints, hoptions⟩ := resolveForDial_frame before agreed
  obtain ⟨hkind', hendpoints', hoptions'⟩ := resolveForDial_frame now current
  unfold dialledElsewhere repointed
  rw [dialParametersChanged_eq_false_iff]
  constructor
  · exact fun hdial => ⟨hdial.mechanism, hdial.secrets⟩
  · intro hcredentials
    refine ⟨?_, ?_, rfl, hcredentials.1, ?_, hcredentials.2⟩
    · rw [hkind, hkind']
      exact hsame.kind
    · rw [hendpoints, hendpoints']
      exact hsame.endpoints
    · rw [hoptions, hoptions']
      exact hsame.options

/-- A leaning profile that is not given the pair is not dialled with ACL. -/
theorem resolveForDial_mechanism_of_none {p : ConnectionProfile} {settings : AppSettings}
    (hleans : LeansOnGlobal p) (hnone : globalPair settings = none) :
    (resolveForDial settings p).auth.mechanism ≠ .acl := by
  rw [(resolveForDial_credentials settings p).1, resolveACLCredentials_of_leans hleans, hnone]
  rcases hleans with hblank | hnone
  · simp [hblank]
  · simp [hnone]

/-- One that is given it is, and the pair can be read back from what it is dialled with. -/
theorem resolveForDial_of_pair {p : ConnectionProfile} {settings : AppSettings}
    {pair : String × String} (hleans : LeansOnGlobal p) (hpair : globalPair settings = some pair) :
    (resolveForDial settings p).auth.mechanism = .acl ∧
      (resolveForDial settings p).secret secretAccessKey = pair.1 ∧
      (resolveForDial settings p).secret secretSecretKey = pair.2 := by
  obtain ⟨hmechanism, hsecrets⟩ := resolveForDial_credentials settings p
  rw [resolveACLCredentials_of_leans hleans, hpair] at hmechanism hsecrets
  dsimp only at hsecrets
  obtain ⟨hak, hsk⟩ := ConnectionProfile.secret_setACL_true p pair.1 pair.2
  refine ⟨hmechanism, ?_, ?_⟩
  · rw [← hak]
    exact congrArg (fun secrets => (secrets[secretAccessKey]?).getD "") hsecrets
  · rw [← hsk]
    exact congrArg (fun secrets => (secrets[secretSecretKey]?).getD "") hsecrets

/-- Profiles that lean on the pair and resolve to the same credentials were given the same pair. -/
theorem globalPair_eq_of_credentials (hleans : LeansOnGlobal agreed)
    (hleans' : LeansOnGlobal current)
    (hmechanism : (resolveForDial before agreed).auth.mechanism =
      (resolveForDial now current).auth.mechanism)
    (hsecrets : (resolveForDial before agreed).secrets = (resolveForDial now current).secrets) :
    globalPair before = globalPair now := by
  cases hbefore : globalPair before with
  | none =>
    cases hnow : globalPair now with
    | none => rfl
    | some pair =>
      rw [(resolveForDial_of_pair hleans' hnow).1] at hmechanism
      exact absurd hmechanism (resolveForDial_mechanism_of_none hleans hbefore)
  | some pair =>
    obtain ⟨hacl, hak, hsk⟩ := resolveForDial_of_pair hleans hbefore
    cases hnow : globalPair now with
    | none =>
      rw [hacl] at hmechanism
      exact absurd hmechanism.symm (resolveForDial_mechanism_of_none hleans' hnow)
    | some pair' =>
      obtain ⟨-, hak', hsk'⟩ := resolveForDial_of_pair hleans' hnow
      have hfirst : pair.1 = pair'.1 := by
        rw [← hak, ← hak']
        exact congrArg (fun secrets => (secrets[secretAccessKey]?).getD "") hsecrets
      have hsecond : pair.2 = pair'.2 := by
        rw [← hsk, ← hsk']
        exact congrArg (fun secrets => (secrets[secretSecretKey]?).getD "") hsecrets
      rw [Prod.ext hfirst hsecond]

/-- **The gap**: a profile that reads as it did is dialled with something else exactly when it
    leans on the global pair and the pair was changed. -/
theorem dialledElsewhere_of_same (h : repointed agreed current = false) :
    dialledElsewhere before now agreed current = true ↔
      LeansOnGlobal agreed ∧ globalPair before ≠ globalPair now := by
  have hsame := dialParametersChanged_eq_false_iff.mp h
  have hmechanism : agreed.auth.mechanism = current.auth.mechanism := hsame.mechanism
  have hsecrets : agreed.secrets = current.secrets := hsame.secrets
  have halike : resolveACLCredentials before agreed = resolveACLCredentials now agreed →
      dialledElsewhere before now agreed current = false := by
    intro hcredentials
    rw [resolveACLCredentials_congr now hmechanism hsecrets] at hcredentials
    rw [not_dialledElsewhere_iff h, (resolveForDial_credentials before agreed).1,
      (resolveForDial_credentials before agreed).2, (resolveForDial_credentials now current).1,
      (resolveForDial_credentials now current).2, hcredentials, hmechanism]
    exact ⟨rfl, setACL_secrets_congr hsecrets _ _ _⟩
  by_cases hleans : LeansOnGlobal agreed
  · -- the pair is all the two dials can differ in
    have hleans' : LeansOnGlobal current := hleans.imp (hmechanism.symm.trans ·)
      (hmechanism.symm.trans ·)
    constructor
    · intro helsewhere
      refine ⟨hleans, fun hpair => ?_⟩
      have hcredentials : resolveACLCredentials before agreed =
          resolveACLCredentials now agreed := by
        rw [resolveACLCredentials_of_leans hleans, resolveACLCredentials_of_leans hleans, hpair]
      rw [halike hcredentials] at helsewhere
      cases helsewhere
    · rintro ⟨-, hpair⟩
      rw [← Bool.not_eq_false, not_dialledElsewhere_iff h]
      rintro ⟨hmechanisms, hsecrets'⟩
      exact hpair (globalPair_eq_of_credentials hleans hleans' hmechanisms hsecrets')
  · -- a mechanism of its own resolves alike under any settings
    rw [halike (resolveACLCredentials_of_own hleans now)]
    exact ⟨fun hfalse => (by cases hfalse), fun hpair => absurd hpair.1 hleans⟩

end Same

/-! ## When a permission ends -/

/-- The stored profiles tell of every change to what the permission was given for: the profile now
    stored reads otherwise, or has credentials of its own, or the global pair was kept. -/
def Told (before now : AppSettings) (connections : Profiles) (id : Int)
    (agreed : ConnectionProfile) : Prop :=
  (∀ current, connections[id]? = some current → repointed agreed current = true) ∨
    ¬ LeansOnGlobal agreed ∨ globalPair before = globalPair now

/-- A check that passes while the profile reads as it did is right exactly when the change would
    have been told. -/
theorem passes_rightly_iff {before now : AppSettings} {connections : Profiles} {id : Int}
    {agreed : ConnectionProfile} {Refused : Prop}
    (hpasses : ∀ current, connections[id]? = some current →
      (Refused ↔ repointed agreed current = true)) :
    (∀ current, connections[id]? = some current →
        dialledElsewhere before now agreed current = true → Refused) ↔
      Told before now connections id agreed := by
  constructor
  · intro hends
    cases hcurrent : connections[id]? with
    | none => exact .inl fun current h => by rw [hcurrent] at h; cases h
    | some current =>
      cases hsame : repointed agreed current with
      | true =>
        apply Or.inl
        intro other hother
        rw [hcurrent] at hother
        obtain rfl := Option.some.inj hother
        exact hsame
      | false =>
        -- the check passes, so the dial must not have changed
        have helsewhere : ¬ dialledElsewhere before now agreed current = true := by
          intro h
          have hrepointed := (hpasses current hcurrent).mp (hends current hcurrent h)
          rw [hsame] at hrepointed
          cases hrepointed
        rw [dialledElsewhere_of_same hsame, not_and_or, not_not] at helsewhere
        exact .inr helsewhere
  · rintro (hrepointed | htold) current hcurrent helsewhere
    · exact (hpasses current hcurrent).mpr (hrepointed current hcurrent)
    · apply (hpasses current hcurrent).mpr
      cases hsame : repointed agreed current with
      | true => rfl
      | false =>
        obtain ⟨hleans, hpair⟩ := (dialledElsewhere_of_same hsame).mp helsewhere
        rcases htold with hown | hkept
        · exact absurd hleans hown
        · exact absurd hkept hpair

/-- **Permissions end with the credentials they were given for**, in a grant as in a confirmation,
    exactly when the change is one the stored profiles tell. -/
theorem permission_ends_with_credentials {values : List String} {allowance : Allowance}
    {stored : List (Option ConnectionProfile)} {grants : Grants}
    (hparsed : parseAllowance values = .ok allowance) (hgranted : allowance.grant stored = .ok grants)
    (before now : AppSettings) (connections : Profiles) (id : Int) :
    (∀ granted, grants.named[id]? = some granted →
      ((∀ current, connections[id]? = some current →
          dialledElsewhere before now granted.profile current = true →
          (grants.ceiling connections id).1 = grants.everywhere) ↔
        Told before now connections id granted.profile)) ∧
    (∀ agreed,
      (∀ current, connections[id]? = some current →
          dialledElsewhere before now agreed current = true →
          changedSince connections id agreed ≠ .ok ()) ↔
        Told before now connections id agreed) := by
  constructor
  · intro granted hnamed
    have hgrant := (grant_spec hgranted).2 id granted hnamed
    -- a grant goes further than every connection may
    have hfurther : granted.blast ≠ grants.everywhere := by
      intro hsame
      have hhigher := hgrant.higher
      rw [← (grant_spec hgranted).1, hsame, permits_self (grant_known hparsed hgranted).1]
        at hhigher
      cases hhigher
    apply passes_rightly_iff
    intro current hcurrent
    simp only [Grants.ceiling, hnamed, hcurrent]
    cases repointed granted.profile current <;> simp [hfurther]
  · intro agreed
    apply passes_rightly_iff
    intro current hcurrent
    simp only [changedSince, hcurrent]
    cases repointed agreed current <;> simp

/-! ## A profile that leans on the global pair -/

/-- A RocketMQ profile that names no mechanism. -/
def ordersProfile : ConnectionProfile := { draft .rocketmq .none with id := 1 }

/-- The store that holds it alone. -/
def ordersStored : Profiles := (∅ : Profiles).insert 1 ordersProfile

/-- What `--allow orders=destructive` asks for. -/
def ordersAllowance : Allowance := ⟨.read, (∅ : Map String Blast).insert "orders" .destructive⟩

/-- What it is granted against that store. -/
def ordersGrants : Grants :=
  ⟨.read, (∅ : Map Int Grant).insert 1 ⟨"orders", .destructive, ordersProfile⟩⟩

/-- Settings with a global pair. -/
def withKeys (accessKey secretKey : String) : AppSettings :=
  { Settings.defaultSettings with globalAccessKey := accessKey, globalSecretKey := secretKey }

theorem ordersAllowance_parsed : parseAllowance ["orders=destructive"] = .ok ordersAllowance := by
  decide

theorem ordersGrants_granted : ordersAllowance.grant [some ordersProfile] = .ok ordersGrants := by
  decide

/-- With the pair kept, the grant ends with the profile's own credentials. -/
theorem permission_ends_with_credentials_orders :
    Told (withKeys "AK1" "SK1") (withKeys "AK1" "SK1") ordersStored 1 ordersProfile ∧
      ∀ current, ordersStored[(1 : Int)]? = some current →
        dialledElsewhere (withKeys "AK1" "SK1") (withKeys "AK1" "SK1") ordersProfile current = true →
        (ordersGrants.ceiling ordersStored 1).1 = .read := by
  have htold : Told (withKeys "AK1" "SK1") (withKeys "AK1" "SK1") ordersStored 1 ordersProfile :=
    .inr (.inr rfl)
  have hends := permission_ends_with_credentials ordersAllowance_parsed ordersGrants_granted
    (withKeys "AK1" "SK1") (withKeys "AK1" "SK1") ordersStored 1
  exact ⟨htold, (hends.1 ⟨"orders", .destructive, ordersProfile⟩ (by decide)).mpr htold⟩

/-- The window replaces the global pair: the profile is dialled with other credentials, and both
    the grant and a yes given before still stand. -/
theorem new_global_keys_keep_permission :
    parseAllowance ["orders=destructive"] = .ok ordersAllowance ∧
      ordersAllowance.grant [some ordersProfile] = .ok ordersGrants ∧
      dialledElsewhere (withKeys "AK1" "SK1") (withKeys "AK2" "SK2") ordersProfile ordersProfile =
        true ∧
      (ordersGrants.ceiling ordersStored 1).1 = .destructive ∧
      changedSince ordersStored 1 ordersProfile = .ok () := by
  refine ⟨ordersAllowance_parsed, ordersGrants_granted, ?_, ?_, ?_⟩ <;> decide

end MqStudio.Agent
