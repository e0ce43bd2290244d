import Mathlib.Order.Lattice

/-!
# The Last Write Wins

Writers each take a version of something, with a stamp, and write it later, in any order. A store
that refuses a version older than the one it holds comes to hold the last one taken, once every
version that was taken was written or refused.

`versions` are those there are: the one that is stored and those on their way. `value` says of a
version that it is what was to be written last.

## Main results

- `Latest.push`: the version that is taken next is the last one.
- `Latest.settle`: a version that is written, or refused for a later one, leaves it the last.
-/

namespace MqStudio.Lib.LastWrite

variable {ρ β : Type*} [LinearOrder β] {stamp : ρ → β} {value value' versions versions' : ρ → Prop}

/-- The version stamped last has the value, and no other has its stamp unless it has the value
    too. -/
def Latest (stamp : ρ → β) (value versions : ρ → Prop) : Prop :=
  ∃ last, versions last ∧ value last ∧
    ∀ one, versions one → stamp one ≤ stamp last ∧ (stamp one = stamp last → value one)

/-- A version stamped after every other is the last one. -/
theorem Latest.push {last : ρ} (hlast : versions last) (hvalue : value last)
    (hothers : ∀ one, versions one → one = last ∨ stamp one < stamp last) :
    Latest stamp value versions := by
  refine ⟨last, hlast, hvalue, fun one hone => ?_⟩
  rcases hothers one hone with rfl | hearlier
  · exact ⟨le_rfl, fun _ => hvalue⟩
  · exact ⟨hearlier.le, fun hstamp => absurd hstamp hearlier.ne⟩

/-- What is to be written may be said in other words. -/
theorem Latest.congr (h : Latest stamp value versions)
    (hvalue : ∀ one, versions one → value one → value' one) : Latest stamp value' versions := by
  obtain ⟨last, hlast, hgood, hothers⟩ := h
  refine ⟨last, hlast, hvalue last hlast hgood, fun one hone => ?_⟩
  obtain ⟨hle, hsame⟩ := hothers one hone
  exact ⟨hle, fun hstamp => hvalue one hone (hsame hstamp)⟩

/-- **Versions settle**: each that is left was there, under its stamp, and each that is gone is no
    later than one that is left. -/
theorem Latest.settle (h : Latest stamp value versions)
    (hleft : ∀ one, versions' one → ∃ old, versions old ∧ stamp old = stamp one ∧
      (value old → value one))
    (hgone : ∀ old, versions old → ∃ one, versions' one ∧ stamp old ≤ stamp one) :
    Latest stamp value versions' := by
  obtain ⟨last, hlast, -, hothers⟩ := h
  have hbelow : ∀ one, versions' one →
      stamp one ≤ stamp last ∧ (stamp one = stamp last → value one) := by
    intro one hone
    obtain ⟨old, hold, hstamp, hvalue⟩ := hleft one hone
    obtain ⟨hle, hsame⟩ := hothers old hold
    rw [← hstamp]
    exact ⟨hle, fun heq => hvalue (hsame heq)⟩
  -- whatever stands for the last version has its stamp
  obtain ⟨one, hone, hle⟩ := hgone last hlast
  obtain ⟨hge, hvalue⟩ := hbelow one hone
  have hstamp : stamp one = stamp last := le_antisymm hge hle
  refine ⟨one, hone, hvalue hstamp, fun other hother => ?_⟩
  rw [hstamp]
  exact hbelow other hother

end MqStudio.Lib.LastWrite
