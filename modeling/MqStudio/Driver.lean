import MqStudio.Model.Profile

/-!
# The Client Registry

`internal/driver/registry.go` and its binding in `internal/app/runtime.go`: the open clients by
profile id, each standing for the profile it was dialled with, and the id background sampling
reads. Whether a dial is answered is the environment's choice.
-/

namespace MqStudio.Driver

open MqStudio.Lib.TreeMap
open MqStudio.Model

/-- `Registry` -/
structure Registry where
  conns : Map Int ConnectionProfile
  activeID : Int
  deriving DecidableEq

namespace Registry

/-- `NewRegistry` -/
def empty : Registry := ⟨∅, 0⟩

/-- `Registry.ActiveID`: zero when nothing is open under the recorded id. -/
def openActiveID (r : Registry) : Int :=
  if r.conns.contains r.activeID then r.activeID else 0

/-- `Registry.SetActive` -/
def setActive (r : Registry) (id : Int) : Registry :=
  if r.conns.contains id then { r with activeID := id } else r

/-- `registryRuntime.Connect`: open the profile in place of whatever its id held, and sample it.
    A refused dial leaves the previous client open. -/
def connect (r : Registry) (profile : ConnectionProfile) (dialFails : Bool) : Option Registry :=
  if dialFails then none
  else some ((⟨r.conns.insert profile.id profile, r.activeID⟩ : Registry).setActive profile.id)

/-- `registryRuntime.HasClient` -/
def hasClient (r : Registry) (id : Int) : Bool :=
  r.conns.contains id

/-- `Registry.Close` -/
def close (r : Registry) (id : Int) : Registry :=
  ⟨r.conns.erase id, if r.activeID = id then 0 else r.activeID⟩

/-- `registryRuntime.Remove`: close the client, and sample the lowest remaining one when none
    is sampled any more. -/
def remove (r : Registry) (id : Int) : Registry :=
  let closed := r.close id
  if closed.openActiveID ≠ 0 then closed
  else
    match closed.conns.keys.head? with
    | some remaining => closed.setActive remaining
    | none => closed

/-- `registryRuntime.CloseAll` -/
def closeAll (_ : Registry) : Registry := empty

@[simp] theorem setActive_conns (r : Registry) (id : Int) : (r.setActive id).conns = r.conns := by
  unfold setActive
  split <;> rfl

@[simp] theorem remove_conns (r : Registry) (id : Int) :
    (r.remove id).conns = r.conns.erase id := by
  unfold remove
  dsimp only
  split
  · rfl
  · split
    · rw [setActive_conns]
      rfl
    · rfl

@[simp] theorem closeAll_conns (r : Registry) : r.closeAll.conns = ∅ := rfl

/-- A dial that was answered put the profile under its id. -/
theorem connect_some {r r' : Registry} {profile : ConnectionProfile} {dialFails : Bool}
    (h : r.connect profile dialFails = some r') :
    dialFails = false ∧ r'.conns = r.conns.insert profile.id profile := by
  unfold connect at h
  split at h
  · cases h
  · rename_i hdial
    cases h
    exact ⟨by simpa using hdial, by simp⟩

theorem hasClient_iff (r : Registry) (id : Int) :
    r.hasClient id = true ↔ ∃ client, r.conns[id]? = some client := by
  rw [hasClient, Std.ExtTreeMap.contains_eq_isSome_getElem?, Option.isSome_iff_exists]

end Registry

end MqStudio.Driver
