import Mathlib.Data.List.Destutter
import MqStudio.Agent.Catalog
import MqStudio.Connection.Persistence

/-!
# Allowances and Grants

How far a server may go (`mcpserver/allowance.go`): a ceiling on every connection, and a higher
one on the connections its command line names. The names are resolved once, when the server
starts, into the profiles they named then; `ceiling` compares that profile with the one stored
now.

## Main results

- `parseAllowance_named`, `parseAllowance_everywhere`: what an accepted command line says.
- `grant_spec`: what every grant stands for.
- `ceiling_cases`: a ceiling above the one on every connection is a grant that still holds.
- `everywhere_le_ceiling`: no grant lowers a connection.
- `permits_widest_iff`: the furthest any connection may go.
-/

namespace MqStudio.Agent

open MqStudio.Connection
open MqStudio.Lib
open MqStudio.Lib.TreeMap
open MqStudio.Model
open MqStudio.Storage

/-! ## Reading the command line -/

/-- `Allowance` -/
structure Allowance where
  everywhere : Blast
  named : Map String Blast
  deriving DecidableEq

/-- The errors of `ParseAllowance`, with the `--allow` value they are about. -/
inductive AllowanceError where
  /-- "--allow %q: %q is not one of read, mutate or destructive" -/
  | tier (value tier : String)
  /-- "--allow %q and --allow %q both say how far every connection may go" -/
  | everywhereTwice (earlier value : String)
  /-- "--allow %q: %q is not one of read, mutate or destructive; a connection is allowed further
      as <name>=<tier>" -/
  | namedTier (value tier : String)
  /-- "--allow %q names no connection" -/
  | noName (value : String)
  /-- "--allow names %q twice; say once how far it may go" -/
  | namedTwice (name : String)
  deriving DecidableEq

/-- `parseTier`, with the text that is no tier as its error. -/
def parseTier (value : String) : Except String Blast :=
  match Blast.ofText (trimSpace value) with
  | .read => .ok .read
  | .mutate => .ok .mutate
  | .destructive => .ok .destructive
  | .other text _ => .error text

/-- The value before and after its last equals sign. -/
def cutTier (value : String) : Option (String × String) :=
  (Words.splitLast '=' value.toList).map fun cut =>
    (String.ofList cut.1, String.ofList cut.2)

/-- What `ParseAllowance` has read so far: the allowance, and the value that set its ceiling on
    every connection. -/
structure Parsing where
  allowance : Allowance
  everywhere : String
  deriving DecidableEq

/-- One `--allow` value. -/
def parseValue (parsing : Parsing) (value : String) : Except AllowanceError Parsing :=
  match cutTier value with
  | none =>
    match parseTier value with
    | .error tier => .error (.tier value tier)
    | .ok blast =>
      if parsing.everywhere ≠ "" then .error (.everywhereTwice parsing.everywhere value)
      else .ok ⟨{ parsing.allowance with everywhere := blast }, value⟩
  | some cut =>
    let name := trimSpace cut.1
    match parseTier cut.2 with
    | .error tier => .error (.namedTier value tier)
    | .ok blast =>
      if name = "" then .error (.noName value)
      else if parsing.allowance.named.contains name then .error (.namedTwice name)
      else
        .ok { parsing with
          allowance := { parsing.allowance with
            named := parsing.allowance.named.insert name blast } }

/-- Nothing read yet: every connection may be read. -/
def noValues : Parsing := ⟨⟨.read, ∅⟩, ""⟩

/-- `ParseAllowance` -/
def parseAllowance (values : List String) : Except AllowanceError Allowance :=
  match values.foldlM parseValue noValues with
  | .error e => .error e
  | .ok parsing => .ok parsing.allowance

/-- The value raises the connections of a name. -/
def Raises (value name : String) (blast : Blast) : Prop :=
  ∃ cut, cutTier value = some cut ∧ trimSpace cut.1 = name ∧ parseTier cut.2 = .ok blast

/-- The value is the ceiling on every connection. -/
def RaisesAll (value : String) (blast : Blast) : Prop :=
  cutTier value = none ∧ parseTier value = .ok blast

theorem parseTier_known {value : String} {blast : Blast} (h : parseTier value = .ok blast) :
    blast.Known := by
  unfold parseTier at h
  split at h <;> cases h <;> decide

/-- **One value** raises one name that was not raised before, or sets the ceiling on every
    connection, which nothing had set before. -/
theorem parseValue_cases {parsing next : Parsing} {value : String}
    (h : parseValue parsing value = .ok next) :
    (∃ blast, RaisesAll value blast ∧ parsing.everywhere = "" ∧
      next = ⟨{ parsing.allowance with everywhere := blast }, value⟩) ∨
    (∃ name blast, Raises value name blast ∧ parsing.allowance.named[name]? = none ∧
      next = { parsing with
        allowance := { parsing.allowance with
          named := parsing.allowance.named.insert name blast } }) := by
  unfold parseValue at h
  split at h
  · rename_i hcut
    split at h
    · cases h
    · rename_i blast hblast
      split at h
      · cases h
      · rename_i hfirst
        cases h
        exact .inl ⟨blast, ⟨hcut, hblast⟩, not_not.mp hfirst, rfl⟩
  · rename_i cut hcut
    dsimp only at h
    split at h
    · cases h
    · rename_i blast hblast
      split at h
      · cases h
      · split at h
        · cases h
        · rename_i hnew
          cases h
          have hnone : parsing.allowance.named[trimSpace cut.1]? = none := by
            simpa using hnew
          exact .inr ⟨trimSpace cut.1, blast, ⟨cut, hcut, rfl, hblast⟩, hnone, rfl⟩

/-- A value cannot both raise a name and be the ceiling on every connection. -/
theorem RaisesAll.not_raises {value name : String} {blast blast' : Blast}
    (h : RaisesAll value blast) : ¬ Raises value name blast' := by
  intro hraises
  obtain ⟨cut, hcut, -⟩ := hraises
  rw [h.1] at hcut
  cases hcut

/-- A value raises one name to one tier. -/
theorem Raises.unique {value name name' : String} {blast blast' : Blast}
    (h : Raises value name blast) (h' : Raises value name' blast') :
    name = name' ∧ blast = blast' := by
  obtain ⟨cut, hcut, rfl, hblast⟩ := h
  obtain ⟨cut', hcut', rfl, hblast'⟩ := h'
  rw [hcut] at hcut'
  obtain rfl := Option.some.inj hcut'
  rw [hblast] at hblast'
  exact ⟨rfl, Except.ok.inj hblast'⟩

/-- What reading more values does to the names raised. -/
theorem foldlM_named {values : List String} {parsing next : Parsing}
    (h : values.foldlM parseValue parsing = .ok next) (name : String) (blast : Blast) :
    next.allowance.named[name]? = some blast ↔
      parsing.allowance.named[name]? = some blast ∨ ∃ value ∈ values, Raises value name blast := by
  induction values generalizing parsing with
  | nil =>
    cases h
    simp
  | cons value rest ih =>
    rw [List.foldlM_cons] at h
    cases hvalue : parseValue parsing value with
    | error e =>
      rw [hvalue] at h
      cases h
    | ok middle =>
      rw [hvalue] at h
      rw [ih h]
      obtain ⟨tier, hall, -, rfl⟩ | ⟨raised, tier, hraises, hnew, rfl⟩ := parseValue_cases hvalue
      · -- a bare tier raises no name
        have hno : ¬ Raises value name blast := hall.not_raises
        simp [hno]
      · show (parsing.allowance.named.insert raised tier)[name]? = some blast ∨ _ ↔ _
        rw [getElem?_insert_ite]
        split
        · -- the name just raised was not raised before
          rename_i heq
          subst heq
          have hiff : Raises value raised blast ↔ some tier = some blast := by
            constructor
            · intro hother
              rw [(hraises.unique hother).2]
            · intro htier
              obtain rfl := Option.some.inj htier
              exact hraises
          simp [hnew, hiff]
        · rename_i hne
          have hno : ¬ Raises value name blast := fun hother => hne (hraises.unique hother).1
          simp [hno]

/-- What reading more values does to the ceiling on every connection. -/
theorem foldlM_everywhere {values : List String} {parsing next : Parsing}
    (h : values.foldlM parseValue parsing = .ok next) :
    (∃ value ∈ values, RaisesAll value next.allowance.everywhere) ∨
      (∀ value ∈ values, ∀ blast, ¬ RaisesAll value blast) ∧
        next.allowance.everywhere = parsing.allowance.everywhere := by
  induction values generalizing parsing with
  | nil =>
    cases h
    exact .inr ⟨fun value hvalue => absurd hvalue List.not_mem_nil, rfl⟩
  | cons value rest ih =>
    rw [List.foldlM_cons] at h
    cases hvalue : parseValue parsing value with
    | error e =>
      rw [hvalue] at h
      cases h
    | ok middle =>
      rw [hvalue] at h
      rcases ih h with ⟨later, hlater, hall⟩ | ⟨hnone, hsame⟩
      · exact .inl ⟨later, List.mem_cons_of_mem _ hlater, hall⟩
      · obtain ⟨tier, hall, -, rfl⟩ | ⟨raised, tier, hraises, -, rfl⟩ := parseValue_cases hvalue
        · exact .inl ⟨value, List.mem_cons_self, by rw [hsame]; exact hall⟩
        · refine .inr ⟨fun other hother blast hall => ?_, hsame⟩
          rcases List.mem_cons.mp hother with rfl | hrest
          · exact hall.not_raises hraises
          · exact hnone other hrest blast hall

section Parsed

variable {values : List String} {allowance : Allowance}

theorem parseAllowance_ok (h : parseAllowance values = .ok allowance) :
    ∃ parsing, values.foldlM parseValue noValues = .ok parsing ∧
      allowance = parsing.allowance := by
  unfold parseAllowance at h
  split at h
  · cases h
  · rename_i parsing hparsing
    cases h
    exact ⟨parsing, hparsing, rfl⟩

/-- **The names** an accepted command line raises are those its values raise. -/
theorem parseAllowance_named (h : parseAllowance values = .ok allowance) (name : String)
    (blast : Blast) :
    allowance.named[name]? = some blast ↔ ∃ value ∈ values, Raises value name blast := by
  obtain ⟨parsing, hparsing, rfl⟩ := parseAllowance_ok h
  rw [foldlM_named hparsing]
  simp [noValues]

/-- **The ceiling on every connection** is the one an accepted command line says, and reading when
    it says none. -/
theorem parseAllowance_everywhere (h : parseAllowance values = .ok allowance) :
    (∃ value ∈ values, RaisesAll value allowance.everywhere) ∨
      (∀ value ∈ values, ∀ blast, ¬ RaisesAll value blast) ∧ allowance.everywhere = .read := by
  obtain ⟨parsing, hparsing, rfl⟩ := parseAllowance_ok h
  exact foldlM_everywhere hparsing

/-- Every tier of an accepted command line is one `rank` knows. -/
theorem parseAllowance_known (h : parseAllowance values = .ok allowance) :
    allowance.everywhere.Known ∧
      ∀ (name : String) (blast : Blast), allowance.named[name]? = some blast → blast.Known := by
  constructor
  · rcases parseAllowance_everywhere h with ⟨value, -, hall⟩ | ⟨-, hread⟩
    · exact parseTier_known hall.2
    · rw [hread]
      decide
  · intro name blast hnamed
    obtain ⟨value, -, cut, -, -, htier⟩ := (parseAllowance_named h name blast).mp hnamed
    exact parseTier_known htier

end Parsed

/-! ## Pinning an allowance to the stored connections -/

/-- `grant`: one connection allowed further than every connection is, and its profile as it was
    stored when the grant was made. -/
structure Grant where
  name : String
  blast : Blast
  profile : ConnectionProfile
  deriving DecidableEq

/-- `Grants` -/
structure Grants where
  everywhere : Blast
  named : Map Int Grant
  deriving DecidableEq

/-- Why a name cannot be granted. -/
inductive GrantProblem where
  /-- "--allow %s changes nothing: every connection may already go as far as %s" -/
  | changesNothing (name : String) (blast everywhere : Blast)
  /-- "--allow %s names no stored connection", and the names there are. -/
  | noConnection (name : String) (blast : Blast) (stored : List String)
  /-- "--allow %s could mean any of connections %v, which share that name" -/
  | sharedName (name : String) (blast : Blast) (ids : List Int)
  deriving DecidableEq

/-- `storedNames`, before they are worded. -/
def storedNames (stored : List (Option ConnectionProfile)) : List String :=
  (((stored.filterMap id).map ConnectionProfile.name).mergeSort).destutter (· ≠ ·)

/-- The stored profiles of one name. -/
def matching (stored : List (Option ConnectionProfile)) (name : String) :
    List ConnectionProfile :=
  (stored.filterMap id).filter fun profile => profile.name = name

/-- One name of the allowance: the grant it comes to, or why there is none. -/
def grantName (a : Allowance) (stored : List (Option ConnectionProfile))
    (made : Grants × List GrantProblem) (entry : String × Blast) : Grants × List GrantProblem :=
  if permits a.everywhere entry.2 then
    (made.1, made.2 ++ [.changesNothing entry.1 entry.2 a.everywhere])
  else
    match matching stored entry.1 with
    | [profile] =>
      ({ made.1 with named := made.1.named.insert profile.id ⟨entry.1, entry.2, profile⟩ }, made.2)
    | [] => (made.1, made.2 ++ [.noConnection entry.1 entry.2 (storedNames stored)])
    | profiles =>
      (made.1, made.2 ++ [.sharedName entry.1 entry.2 (profiles.map ConnectionProfile.id)])

/-- `Allowance.Grant`: every name resolves to one connection, or nothing is served. -/
def Allowance.grant (a : Allowance) (stored : List (Option ConnectionProfile)) :
    Except (List GrantProblem) Grants :=
  let made := a.named.toList.foldl (grantName a stored) (⟨a.everywhere, ∅⟩, [])
  if made.2 = [] then .ok made.1 else .error made.2

/-- What a grant of the connection `id` stands for: the one profile that carried a name the
    allowance raises above what every connection may. -/
structure GrantedFor (a : Allowance) (stored : List (Option ConnectionProfile)) (id : Int)
    (granted : Grant) : Prop where
  raised : a.named[granted.name]? = some granted.blast
  higher : permits a.everywhere granted.blast = false
  only : matching stored granted.name = [granted.profile]
  named : granted.profile.id = id

/-- One name adds one grant, or a problem. -/
theorem grantName_cases (a : Allowance) (stored : List (Option ConnectionProfile))
    (made : Grants × List GrantProblem) (entry : String × Blast) :
    (∃ profile, permits a.everywhere entry.2 = false ∧ matching stored entry.1 = [profile] ∧
      grantName a stored made entry =
        ({ made.1 with named := made.1.named.insert profile.id ⟨entry.1, entry.2, profile⟩ },
          made.2)) ∨
    (∃ problem, grantName a stored made entry = (made.1, made.2 ++ [problem])) := by
  unfold grantName
  split
  · exact .inr ⟨_, rfl⟩
  · rename_i hhigher
    split
    · rename_i profile hprofile
      exact .inl ⟨profile, by simpa using hhigher, hprofile, rfl⟩
    · exact .inr ⟨_, rfl⟩
    · exact .inr ⟨_, rfl⟩

/-- What pinning the names of a list leaves true. -/
theorem foldl_grantName_spec {a : Allowance} {stored : List (Option ConnectionProfile)}
    (entries : List (String × Blast)) (made : Grants × List GrantProblem)
    (hentries : ∀ entry ∈ entries, a.named[entry.1]? = some entry.2)
    (h : (entries.foldl (grantName a stored) made).2 = [])
    (hmade : made.1.everywhere = a.everywhere ∧ ∀ (id : Int) (granted : Grant),
      made.1.named[id]? = some granted → GrantedFor a stored id granted) :
    let pinned := (entries.foldl (grantName a stored) made).1
    pinned.everywhere = a.everywhere ∧ ∀ (id : Int) (granted : Grant),
      pinned.named[id]? = some granted → GrantedFor a stored id granted := by
  induction entries generalizing made with
  | nil => exact hmade
  | cons entry rest ih =>
    have hrest : ∀ entry ∈ rest, a.named[entry.1]? = some entry.2 :=
      fun other hother => hentries other (List.mem_cons_of_mem _ hother)
    apply ih (grantName a stored made entry) hrest h
    rcases grantName_cases a stored made entry with ⟨profile, hhigher, honly, hnext⟩ | ⟨problem, hnext⟩
    · rw [hnext]
      refine ⟨hmade.1, fun id granted hgranted => ?_⟩
      rw [getElem?_insert_ite] at hgranted
      split at hgranted
      · rename_i hid
        cases hgranted
        exact ⟨hentries entry List.mem_cons_self, hhigher, honly, hid⟩
      · exact hmade.2 id granted hgranted
    · rw [hnext]
      exact hmade

section Granted

variable {a : Allowance} {stored : List (Option ConnectionProfile)} {grants : Grants}

/-- **Every grant** stands for one profile stored at startup and for one name of the allowance. -/
theorem grant_spec (h : a.grant stored = .ok grants) :
    grants.everywhere = a.everywhere ∧ ∀ (id : Int) (granted : Grant),
      grants.named[id]? = some granted → GrantedFor a stored id granted := by
  unfold Allowance.grant at h
  dsimp only at h
  split at h
  · rename_i hnone
    cases h
    apply foldl_grantName_spec a.named.toList _ _ hnone
    · exact ⟨rfl, fun id granted hgranted => by simp at hgranted⟩
    · exact fun entry hentry => Std.ExtTreeMap.mem_toList_iff_getElem?_eq_some.mp hentry
  · cases h

/-- Every tier of grants made from an accepted command line is one `rank` knows. -/
theorem grant_known {values : List String} (hparsed : parseAllowance values = .ok a)
    (h : a.grant stored = .ok grants) :
    grants.everywhere.Known ∧
      ∀ (id : Int) (granted : Grant), grants.named[id]? = some granted → granted.blast.Known := by
  obtain ⟨heverywhere, hnamed⟩ := grant_spec h
  obtain ⟨hknown, hknowns⟩ := parseAllowance_known hparsed
  exact ⟨by rw [heverywhere]; exact hknown,
    fun id granted hgranted => hknowns _ _ (hnamed id granted hgranted).raised⟩

end Granted

/-! ## Ceilings -/

/-- Why a grant made at startup no longer holds. -/
inductive Lapse where
  /-- "it was allowed %s as %q when this server started, and is no longer stored" -/
  | notStored (blast : Blast) (name : String)
  /-- "it was allowed %s as %q when this server started, and has since been pointed at another
      broker or given other credentials in the window, so that no longer holds" -/
  | repointed (blast : Blast) (name : String)
  deriving DecidableEq

/-- A call that goes further than its connection may, as `reaches` words it. -/
structure OutOfReach where
  tool : String
  blast : Blast
  id : Int
  ceiling : Blast
  lapsed : Option Lapse
  deriving DecidableEq

namespace Grants

variable (g : Grants)

/-- `widest`: the furthest any connection may go. -/
def widest : Blast :=
  (values g.named).foldl
    (fun widest granted => if permits widest granted.blast then widest else granted.blast)
    g.everywhere

/-- `ceiling`: how far a call on a connection may go now, and why a grant no longer holds. -/
def ceiling (connections : Profiles) (id : Int) : Blast × Option Lapse :=
  match g.named[id]? with
  | none => (g.everywhere, none)
  | some granted =>
    match connections[id]? with
    | none => (g.everywhere, some (.notStored granted.blast granted.name))
    | some current =>
      if repointed granted.profile current then
        (g.everywhere, some (.repointed granted.blast granted.name))
      else (granted.blast, none)

/-- `reaches` -/
def reaches (connections : Profiles) (id : Int) (tool : String) (blast : Blast) :
    Except OutOfReach Unit :=
  let ceiling := g.ceiling connections id
  if permits ceiling.1 blast then .ok () else .error ⟨tool, blast, id, ceiling.1, ceiling.2⟩

/-- How far a connection was allowed to go when the server started. -/
def tier (id : Int) : Blast :=
  match g.named[id]? with
  | none => g.everywhere
  | some granted => granted.blast

/-- A grant of `id` that still holds: its profile is stored, and dialled as it was. -/
def Holds (connections : Profiles) (id : Int) (granted : Grant) : Prop :=
  g.named[id]? = some granted ∧
    ∃ current, connections[id]? = some current ∧ repointed granted.profile current = false

variable {g}

/-- **A ceiling** is the one on every connection, or that of a grant that still holds. -/
theorem ceiling_cases (connections : Profiles) (id : Int) :
    (g.ceiling connections id).1 = g.everywhere ∨
      ∃ granted, g.Holds connections id granted ∧ (g.ceiling connections id).1 = granted.blast := by
  unfold ceiling
  cases hgranted : g.named[id]? with
  | none => exact .inl rfl
  | some granted =>
    cases hcurrent : connections[id]? with
    | none => exact .inl rfl
    | some current =>
      dsimp only
      split
      · exact .inl rfl
      · rename_i hsame
        exact .inr ⟨granted, ⟨hgranted, current, hcurrent, by simpa using hsame⟩, rfl⟩

/-- A call within reach is within the ceiling. -/
theorem reaches_ok {connections : Profiles} {id : Int} {tool : String} {blast : Blast}
    (h : g.reaches connections id tool blast = .ok ()) :
    permits (g.ceiling connections id).1 blast = true := by
  unfold reaches at h
  dsimp only at h
  split at h
  · assumption
  · cases h

/-- The widest of a ceiling and some grants covers what one of them covers. -/
theorem permits_foldl_iff (granted : List Grant) (start : Blast) (hstart : start.Known)
    (hgranted : ∀ one ∈ granted, one.blast.Known) (blast : Blast) :
    permits (granted.foldl
        (fun widest one => if permits widest one.blast then widest else one.blast) start) blast =
        true ↔
      permits start blast = true ∨ ∃ one ∈ granted, permits one.blast blast = true := by
  induction granted generalizing start with
  | nil => simp
  | cons one rest ih =>
    have hone := hgranted one List.mem_cons_self
    have hrest : ∀ other ∈ rest, other.blast.Known :=
      fun other hother => hgranted other (List.mem_cons_of_mem _ hother)
    rw [List.foldl_cons]
    simp only [List.exists_mem_cons_iff]
    cases hcovers : permits start one.blast with
    | true =>
      rw [if_pos rfl, ih start hstart hrest]
      constructor
      · exact Or.imp_right .inr
      · rintro (h | h | h)
        · exact .inl h
        · exact .inl (permits_trans hcovers h)
        · exact .inr h
    | false =>
      -- the new one is the wider of the two
      have hwider := permits_total hstart hone hcovers
      rw [if_neg Bool.false_ne_true, ih one.blast hone hrest]
      constructor
      · exact .inr
      · rintro (h | h)
        · exact .inl (permits_trans hwider h)
        · exact h

section Tiers

variable {a : Allowance} {values' : List String} {stored : List (Option ConnectionProfile)}

/-- **No grant lowers a connection**: what every connection may, the one granted may. -/
theorem everywhere_le_ceiling (hparsed : parseAllowance values' = .ok a)
    (hgranted : a.grant stored = .ok g) (connections : Profiles) (id : Int) {blast : Blast}
    (h : permits g.everywhere blast = true) :
    permits (g.ceiling connections id).1 blast = true := by
  rcases ceiling_cases (g := g) connections id with heverywhere | ⟨granted, hholds, hceiling⟩
  · rw [heverywhere]
    exact h
  · have hhigher := ((grant_spec hgranted).2 id granted hholds.1).higher
    rw [← (grant_spec hgranted).1] at hhigher
    obtain ⟨hknown, hknowns⟩ := grant_known hparsed hgranted
    rw [hceiling]
    exact permits_trans (permits_total hknown (hknowns id granted hholds.1) hhigher) h

/-- **The widest ceiling** covers what the tier of some connection covers. -/
theorem permits_widest_iff (hparsed : parseAllowance values' = .ok a)
    (hgranted : a.grant stored = .ok g) (blast : Blast) :
    permits g.widest blast = true ↔ ∃ id, permits (g.tier id) blast = true := by
  obtain ⟨hknown, hknowns⟩ := grant_known hparsed hgranted
  have hall : ∀ one ∈ values g.named, one.blast.Known := by
    intro one hone
    obtain ⟨id, hid⟩ := mem_values.mp hone
    exact hknowns id one hid
  rw [widest, permits_foldl_iff _ _ hknown hall]
  constructor
  · rintro (h | ⟨one, hone, h⟩)
    · -- a connection without a grant stands at the tier of all, one with a grant above it
      refine ⟨0, ?_⟩
      cases hnamed : g.named[(0 : Int)]? with
      | none => simpa [tier, hnamed] using h
      | some granted =>
        have hhigher := ((grant_spec hgranted).2 0 granted hnamed).higher
        rw [← (grant_spec hgranted).1] at hhigher
        have hwider := permits_total hknown (hknowns 0 granted hnamed) hhigher
        simpa [tier, hnamed] using permits_trans hwider h
    · obtain ⟨id, hid⟩ := mem_values.mp hone
      exact ⟨id, by simpa [tier, hid] using h⟩
  · rintro ⟨id, h⟩
    cases hnamed : g.named[id]? with
    | none => exact .inl (by simpa [tier, hnamed] using h)
    | some granted =>
      exact .inr ⟨granted, mem_values.mpr ⟨id, hnamed⟩, by simpa [tier, hnamed] using h⟩

end Tiers

end Grants

end MqStudio.Agent
