import Mathlib.Data.List.Nodup
import MqStudio.Update.Manager

/-!
# Mirrors

`internal/update/mirror.go`, `CheckLatest`, and the manager's `plan` and `runCheck`: where a release
can be fetched from. The mirrors compiled in and those a manifest named are raced for the manifest,
and the winner and the rest of the list are what a download falls through.

The mirror that won last is asked on its own for a week. When it answers, the list that was raced is
that one mirror.

An instant is a count of nanoseconds. How a text spells one is the library's, and so is how bytes
decode to a manifest. A race is given what its mirrors answered in the order it arrived.

## Main definitions

- `mergeMirrors`, `orderFrom`, `raceManifest`, `checkLatest`, `plan`, `runCheck`.
- `FallsThrough`: a download can fall through to every mirror.

## Main results

- `fallsThrough_iff`: it can unless the mirror that won last answered on its own.
- `shortcut_alone`: then it has no other mirror to go to.
-/

namespace MqStudio.Update

open MqStudio.Lib
open MqStudio.Lib.TreeMap
open MqStudio.Storage

/-! ## Lists of mirrors -/

/-- `Mirror` -/
structure Mirror where
  name : String
  manifestURL : String
  assetBase : String
  deriving DecidableEq

/-- A URL over HTTPS. -/
def overHTTPS (url : String) : Bool := "https://".toList.isPrefixOf url.toList

/-- `Valid` -/
def Mirror.valid (m : Mirror) : Bool :=
  m.name ≠ "" && overHTTPS m.manifestURL && overHTTPS m.assetBase

/-- `BootstrapMirrors` -/
def bootstrapMirrors : List Mirror :=
  [⟨"r2", "https://dl.amigoer.com/mq-studio/latest.json", "https://dl.amigoer.com/mq-studio"⟩,
    ⟨"github", "https://github.com/amigoer/mq-studio/releases/latest/download/manifest.json",
      "https://github.com/amigoer/mq-studio/releases/download"⟩]

/-- The valid mirrors of a list, each name once and none that was seen. -/
def unseen (seen : List String) : List Mirror → List Mirror
  | [] => []
  | m :: rest =>
    if m.valid && !seen.contains m.name then m :: unseen (m.name :: seen) rest
    else unseen seen rest

/-- `MergeMirrors`: one pass over both lists. -/
@[irreducible] def mergeMirrors (known learned : List Mirror) : List Mirror := unseen [] (known ++ learned)

/-- `findMirror` -/
def findMirror (mirrors : List Mirror) (name : String) : Option Mirror :=
  mirrors.find? fun m => m.name = name

/-- `orderFrom`: the winner, and the rest in preference order. -/
def orderFrom (mirrors : List Mirror) (winner : Mirror) : List Mirror :=
  winner :: mirrors.filter fun m => m.name ≠ winner.name

/-! ## Manifests -/

/-- `ManifestFile` -/
structure ManifestFile where
  path : String
  sha256 : String
  deriving DecidableEq

/-- `Manifest` -/
structure Manifest where
  schema : Int
  version : String
  mirrors : List Mirror
  files : Map String ManifestFile
  deriving DecidableEq

/-- Why a manifest was not accepted, or not read. -/
inductive ManifestError where
  | unreachable | unreadable
  /-- `ErrSchemaTooNew` -/
  | schemaTooNew
  | noSchema | noVersion | noPackages | noPath | noChecksum
  /-- Every mirror failed, or none is usable. -/
  | noMirror
  deriving DecidableEq

/-- `SupportedSchema` -/
def supportedSchema : Int := 1

/-- `hexSHA256` -/
def hexSHA256 : Nat := 64

/-- `ParseManifest`, of what the content decodes to. -/
def parseManifest : Option Manifest → Except ManifestError Manifest
  | none => .error .unreadable
  | some manifest =>
    if supportedSchema < manifest.schema then .error .schemaTooNew
    else if manifest.schema < 1 then .error .noSchema
    else if (parseStableVersion manifest.version).isNone then .error .noVersion
    else if manifest.files.isEmpty then .error .noPackages
    else if (values manifest.files).any fun file => file.path = "" then .error .noPath
    else if (values manifest.files).any fun file => file.sha256.utf8ByteSize ≠ hexSHA256 then
      .error .noChecksum
    else .ok manifest

/-- What a mirror's request comes to. -/
inductive Answer where
  | fails
  | content (decoded : Option Manifest)
  deriving DecidableEq

/-- `FetchManifest` -/
def fetchManifest : Answer → Except ManifestError Manifest
  | .fails => .error .unreachable
  | .content decoded => parseManifest decoded

/-- The answer is a manifest that is accepted. -/
def Answer.accepted (answer : Answer) : Bool := (fetchManifest answer).toOption.isSome

/-- `Fetched`: a manifest and where it came from. -/
structure FetchedManifest where
  manifest : Manifest
  mirror : Mirror
  order : List Mirror
  deriving DecidableEq

/-- An answer as it arrives. -/
abbrev Arrival := Mirror × Answer

/-- The answers one after the other, up to the first that decides the race. -/
def race (usable : List Mirror) : List Arrival → Except ManifestError FetchedManifest
  | [] => .error .noMirror
  | (mirror, answer) :: rest =>
    match fetchManifest answer with
    | .ok manifest => .ok ⟨manifest, mirror, orderFrom usable mirror⟩
    | .error .schemaTooNew => .error .schemaTooNew
    | .error _ => race usable rest

/-- `RaceManifest` -/
def raceManifest (mirrors : List Mirror) (arrivals : List Arrival) :
    Except ManifestError FetchedManifest :=
  let usable := mirrors.filter Mirror.valid
  if usable = [] then .error .noMirror else race usable arrivals

/-! ## Checks -/

/-- `CompareStable` and `statusFromComparison` -/
def statusOf (current latest : String) : Status :=
  if older current latest then .available else if older latest current then .ahead else .current

/-- `normalized` -/
def normalized (version : Nat × Nat × Nat) : String :=
  toString version.1 ++ "." ++ toString version.2.1 ++ "." ++ toString version.2.2

/-- `Result`, with where it came from. -/
structure Checked where
  result : Result
  manifest : Manifest
  mirror : Mirror
  order : List Mirror
  deriving DecidableEq

/-- `CheckLatest`: nothing where either version does not parse or the race fails. -/
def checkLatest (version : String) (mirrors : List Mirror) (arrivals : List Arrival) :
    Option Checked :=
  match parseStableVersion version with
  | none => none
  | some current =>
    let mirrors := if mirrors = [] then bootstrapMirrors else mirrors
    match raceManifest mirrors arrivals with
    | .error _ => none
    | .ok fetched =>
      match parseStableVersion fetched.manifest.version with
      | none => none
      | some latest =>
        some {
          result :=
            { status := statusOf (normalized current) (normalized latest)
              latestVersion := normalized latest
              files := fetched.manifest.files.map fun _ file => file.sha256 }
          manifest := fetched.manifest
          mirror := fetched.mirror
          order := fetched.order }

/-- `memory`, as far as it is about mirrors. -/
structure MirrorMemory where
  preferredMirror : String
  mirrorMeasured : String
  learnedMirrors : List Mirror
  deriving DecidableEq

/-- `time.RFC3339`: how an instant is spelled. -/
structure Calendar where
  parse : String → Option Int
  format : Int → String

/-- `MirrorPreferenceTTL` -/
def mirrorPreferenceTTL : Int := 7 * 24 * 60 * 60 * 1000000000

/-- `plan`: the mirrors, and the one to try first on its own. -/
@[irreducible] def plan (calendar : Calendar) (memory : MirrorMemory) (now : Int) : List Mirror × Option Mirror :=
  let mirrors := mergeMirrors bootstrapMirrors memory.learnedMirrors
  if memory.preferredMirror = "" ∨ mirrors.length < 2 then (mirrors, none)
  else
    match calendar.parse memory.mirrorMeasured with
    | none => (mirrors, none)
    | some measured =>
      if mirrorPreferenceTTL ≤ now - measured then (mirrors, none)
      else (mirrors, findMirror mirrors memory.preferredMirror)

/-- `rememberMirror` -/
def rememberMirror (calendar : Calendar) (memory : MirrorMemory) (now : Int) (checked : Checked) :
    MirrorMemory :=
  let measured :=
    if checked.mirror.name = "" then memory
    else { memory with
      preferredMirror := checked.mirror.name, mirrorMeasured := calendar.format now }
  if checked.manifest.mirrors = [] then measured
  else { measured with
    learnedMirrors := mergeMirrors measured.learnedMirrors checked.manifest.mirrors }

/-- `runCheck`: the mirror that won last on its own, and then the race. The quick answer is the one
    that mirror gives in the time it has. -/
def runCheck (calendar : Calendar) (version : String) (memory : MirrorMemory) (now later : Int)
    (quick : Answer) (arrivals : List Arrival) : MirrorMemory × Option Checked :=
  let planned := plan calendar memory now
  let alone := planned.2.bind fun preferred =>
    checkLatest version [preferred] [(preferred, quick)]
  match alone with
  | some checked => (rememberMirror calendar memory later checked, some checked)
  | none =>
    match checkLatest version planned.1 arrivals with
    | some checked => (rememberMirror calendar memory later checked, some checked)
    | none => (memory, none)

/-- The mirrors `fetch` tries. -/
def Checked.attempts (checked : Checked) : List Mirror :=
  if checked.order = [] then [checked.mirror] else checked.order

/-- **A download can fall through to every mirror**: it starts with the one that answered, and tries
    each of the list once. -/
structure FallsThrough (mirrors : List Mirror) (checked : Checked) : Prop where
  first : checked.order.head? = some checked.mirror
  once : ∀ m ∈ mirrors, checked.order.count m = 1
  tried : ∀ m ∈ mirrors, m ∈ checked.attempts

/-! ## What a list holds -/

section Lists

variable {seen : List String} {mirrors : List Mirror} {winner m : Mirror}

/-- A merged mirror is usable and was not seen. -/
theorem mem_unseen (h : m ∈ unseen seen mirrors) : m.valid = true ∧ m.name ∉ seen := by
  induction mirrors generalizing seen with
  | nil => cases h
  | cons x rest ih =>
    rw [unseen] at h
    split at h
    · rename_i hx
      simp only [Bool.and_eq_true, Bool.not_eq_true', List.contains_eq_mem,
        decide_eq_false_iff_not] at hx
      rcases List.mem_cons.mp h with rfl | hrest
      · exact hx
      · obtain ⟨hvalid, hnew⟩ := ih hrest
        exact ⟨hvalid, fun hold => hnew (List.mem_cons_of_mem _ hold)⟩
    · exact ih h

/-- A mirror that is already known is never redefined. -/
theorem unseen_pairwise (seen : List String) (mirrors : List Mirror) :
    (unseen seen mirrors).Pairwise fun x y => x.name ≠ y.name := by
  induction mirrors generalizing seen with
  | nil => exact List.Pairwise.nil
  | cons x rest ih =>
    rw [unseen]
    split
    · refine List.pairwise_cons.mpr ⟨fun y hy => ?_, ih _⟩
      have hnew := (mem_unseen hy).2
      exact fun hsame => hnew (hsame ▸ List.mem_cons_self)
    · exact ih _

theorem valid_of_merged {known learned : List Mirror} (h : m ∈ mergeMirrors known learned) :
    m.valid = true := by
  unfold mergeMirrors at h
  exact (mem_unseen h).1

theorem mergeMirrors_pairwise (known learned : List Mirror) :
    (mergeMirrors known learned).Pairwise fun x y => x.name ≠ y.name := by
  unfold mergeMirrors
  exact unseen_pairwise _ _

/-- The compiled-in mirrors stay, whatever was learned. -/
theorem mergeMirrors_bootstrap (learned : List Mirror) :
    ∃ more, mergeMirrors bootstrapMirrors learned = bootstrapMirrors ++ more := by
  refine ⟨unseen ["github", "r2"] learned, ?_⟩
  unfold mergeMirrors bootstrapMirrors
  simp only [List.cons_append, List.nil_append]
  rw [unseen, if_pos (by decide), unseen, if_pos (by decide)]

/-- **The order holds each mirror once**, the winner first. -/
theorem count_orderFrom (hnames : mirrors.Pairwise fun x y => x.name ≠ y.name)
    (hwinner : winner ∈ mirrors) (hm : m ∈ mirrors) : (orderFrom mirrors winner).count m = 1 := by
  have hnodup : mirrors.Nodup := hnames.imp fun hne heq => hne (congrArg Mirror.name heq)
  by_cases hsame : m.name = winner.name
  · -- only the winner has its name
    have heq : m = winner := by
      have hnodup : (mirrors.map Mirror.name).Nodup := List.pairwise_map.mpr hnames
      exact List.inj_on_of_nodup_map hnodup hm hwinner hsame
    subst heq
    have hout : m ∉ mirrors.filter fun x => x.name ≠ m.name := by
      simp
    rw [orderFrom, List.count_cons_self, List.count_eq_zero_of_not_mem hout]
  · have hin : m ∈ mirrors.filter fun x => x.name ≠ winner.name := by
      simp [hm, hsame]
    have hne : winner ≠ m := fun heq => hsame (heq ▸ rfl)
    rw [orderFrom, List.count_cons_of_ne hne]
    exact List.count_eq_one_of_mem (hnodup.filter _) hin

end Lists

/-! ## What a check answers -/

section Checks

variable {calendar : Calendar} {version : String} {memory : MirrorMemory} {now later : Int}
  {mirrors : List Mirror} {arrivals : List Arrival} {quick : Answer} {checked : Checked}

/-- Whoever wins a race answered it, and the order is drawn from the mirrors raced. -/
theorem race_ok {usable : List Mirror} {fetched : FetchedManifest} (h : race usable arrivals = .ok fetched) :
    fetched.mirror ∈ arrivals.map Prod.fst ∧ fetched.order = orderFrom usable fetched.mirror := by
  induction arrivals with
  | nil => cases h
  | cons arrival rest ih =>
    obtain ⟨mirror, answer⟩ := arrival
    rw [race] at h
    split at h
    · cases h
      exact ⟨List.mem_cons_self, rfl⟩
    · cases h
    · obtain ⟨hmem, horder⟩ := ih h
      exact ⟨List.mem_cons_of_mem _ hmem, horder⟩

/-- The same of a check. -/
theorem checkLatest_ok (hmirrors : mirrors ≠ []) (hvalid : ∀ m ∈ mirrors, m.valid = true)
    (h : checkLatest version mirrors arrivals = some checked) :
    checked.mirror ∈ arrivals.map Prod.fst ∧ checked.order = orderFrom mirrors checked.mirror := by
  unfold checkLatest at h
  split at h
  · cases h
  · dsimp only at h
    rw [if_neg hmirrors, raceManifest, List.filter_eq_self.mpr hvalid, if_neg hmirrors] at h
    split at h
    · cases h
    · rename_i fetched hrace
      split at h
      · cases h
      · cases h
        exact race_ok hrace

/-- A check that answers is one of a version that parses. -/
theorem version_of_checkLatest (h : checkLatest version mirrors arrivals = some checked) :
    (parseStableVersion version).isSome = true := by
  unfold checkLatest at h
  split at h
  · cases h
  · rename_i current hparsed
    rw [hparsed]
    rfl

/-- What `plan` lists: valid mirrors of different names, more than one of them. -/
theorem plan_mirrors (calendar : Calendar) (memory : MirrorMemory) (now : Int) :
    (plan calendar memory now).1 = mergeMirrors bootstrapMirrors memory.learnedMirrors := by
  unfold plan
  dsimp only
  split
  · rfl
  · split
    · rfl
    · split <;> rfl

/-- The mirror to prefer is one of the list. -/
theorem mem_of_preferred {preferred : Mirror}
    (h : (plan calendar memory now).2 = some preferred) :
    preferred ∈ mergeMirrors bootstrapMirrors memory.learnedMirrors := by
  unfold plan at h
  dsimp only at h
  split at h
  · cases h
  · split at h
    · cases h
    · split at h
      · cases h
      · dsimp only [findMirror] at h
        exact List.mem_of_find?_eq_some h

/-- One mirror that is asked on its own answers, where its manifest is accepted. -/
theorem checkLatest_alone {preferred : Mirror} (hvalid : preferred.valid = true) :
    (checkLatest version [preferred] [(preferred, quick)]).isSome = true ↔
      (parseStableVersion version).isSome = true ∧ quick.accepted = true := by
  unfold checkLatest
  cases hversion : parseStableVersion version with
  | none => simp
  | some current =>
    have hrace : raceManifest [preferred] [(preferred, quick)] =
        race [preferred] [(preferred, quick)] := by
      rw [raceManifest, List.filter_eq_self.mpr (by simpa using hvalid), if_neg (List.cons_ne_nil _ _)]
    dsimp only
    rw [if_neg (List.cons_ne_nil _ _), hrace, race, Answer.accepted]
    cases hfetch : fetchManifest quick with
    | error error => cases error <;> simp [race, Except.toOption]
    | ok manifest =>
      have hstable : (parseStableVersion manifest.version).isSome = true := by
        cases quick with
        | fails => cases hfetch
        | content decoded =>
          simp only [fetchManifest, parseManifest] at hfetch
          split at hfetch
          · cases hfetch
          · split at hfetch
            · cases hfetch
            · split at hfetch
              · cases hfetch
              · split at hfetch
                · cases hfetch
                · rename_i hparsed
                  repeat' split at hfetch
                  all_goals cases hfetch
                  exact Option.isSome_iff_ne_none.mpr (by simpa using hparsed)
      obtain ⟨latest, hlatest⟩ := Option.isSome_iff_exists.mp hstable
      simp [hlatest, Except.toOption]

/-- An order of one mirror leaves one of those compiled in out. -/
theorem not_fallsThrough_single {preferred : Mirror} (learned : List Mirror)
    (h : checked.order = [preferred]) :
    ¬ FallsThrough (mergeMirrors bootstrapMirrors learned) checked := by
  rintro ⟨-, honce, -⟩
  obtain ⟨more, hmore⟩ := mergeMirrors_bootstrap learned
  have hall : ∀ m ∈ bootstrapMirrors, m.name = preferred.name := by
    intro m hm
    have hcount := honce m (by rw [hmore]; exact List.mem_append_left _ hm)
    have hin : m ∈ checked.order := List.count_pos_iff.mp (by rw [hcount]; exact Nat.one_pos)
    rw [h] at hin
    rw [List.mem_singleton.mp hin]
  have hr2 : "r2" = preferred.name := hall _ List.mem_cons_self
  have hgithub : "github" = preferred.name := hall _ (List.mem_cons_of_mem _ List.mem_cons_self)
  exact absurd (hr2.trans hgithub.symm) (by decide)

/-- The order of a race among mirrors of different names can fall through to all of them. -/
theorem fallsThrough_orderFrom (hnames : mirrors.Pairwise fun x y => x.name ≠ y.name)
    (hwinner : checked.mirror ∈ mirrors) (h : checked.order = orderFrom mirrors checked.mirror) :
    FallsThrough mirrors checked := by
  have honce : ∀ m ∈ mirrors, checked.order.count m = 1 := by
    intro m hm
    rw [h]
    exact count_orderFrom hnames hwinner hm
  refine ⟨?_, honce, fun m hm => ?_⟩
  · rw [h]
    rfl
  · have hin : m ∈ checked.order := List.count_pos_iff.mp (by rw [honce m hm]; exact Nat.one_pos)
    rw [Checked.attempts, if_neg (List.ne_nil_of_mem hin)]
    exact hin

/-- **A download can fall through to every mirror** the plan lists, unless the mirror that won last
    was asked on its own and its manifest was accepted. -/
theorem fallsThrough_iff (harrivals : ∀ arrival ∈ arrivals, arrival.1 ∈ (plan calendar memory now).1)
    (h : (runCheck calendar version memory now later quick arrivals).2 = some checked) :
    FallsThrough (plan calendar memory now).1 checked ↔
      ((plan calendar memory now).2 = none ∨ quick.accepted = false) := by
  have hlist := plan_mirrors calendar memory now
  have hvalid : ∀ m ∈ (plan calendar memory now).1, m.valid = true := by
    rw [hlist]
    exact fun m hm => valid_of_merged hm
  unfold runCheck at h
  dsimp only at h
  split at h
  · -- the preferred mirror answered on its own
    rename_i alone halone
    obtain rfl : alone = checked := Option.some.inj h
    obtain ⟨preferred, hpreferred, hchecked⟩ := Option.bind_eq_some_iff.mp halone
    have hone : preferred.valid = true := hvalid preferred (hlist ▸ mem_of_preferred hpreferred)
    have haccepted : quick.accepted = true :=
      ((checkLatest_alone hone).mp (by rw [hchecked]; rfl)).2
    obtain ⟨hwinner, horder⟩ := checkLatest_ok (List.cons_ne_nil _ _)
      (fun m hm => List.mem_singleton.mp hm ▸ hone) hchecked
    have hmirror : alone.mirror = preferred := List.mem_singleton.mp hwinner
    have hsingle : alone.order = [preferred] := by
      rw [horder, hmirror]
      simp [orderFrom]
    rw [hlist, haccepted, hpreferred]
    simp [not_fallsThrough_single _ hsingle]
  · rename_i halone
    split at h
    · rename_i raced hraced
      obtain rfl : raced = checked := Option.some.inj h
      have hne : (plan calendar memory now).1 ≠ [] := by
        obtain ⟨more, hmore⟩ := mergeMirrors_bootstrap memory.learnedMirrors
        rw [hlist, hmore]
        exact List.cons_ne_nil _ _
      obtain ⟨hwinner, horder⟩ := checkLatest_ok hne hvalid hraced
      obtain ⟨arrival, harrival, hmirror⟩ := List.mem_map.mp hwinner
      have hlisted : raced.mirror ∈ (plan calendar memory now).1 :=
        hmirror ▸ harrivals arrival harrival
      have hnames : (plan calendar memory now).1.Pairwise fun x y => x.name ≠ y.name := by
        rw [hlist]
        exact mergeMirrors_pairwise _ _
      refine iff_of_true (fallsThrough_orderFrom hnames hlisted horder) ?_
      cases hpreferred : (plan calendar memory now).2 with
      | none => exact .inl rfl
      | some preferred =>
        right
        rw [hpreferred] at halone
        have hone := hvalid preferred (hlist ▸ mem_of_preferred hpreferred)
        rw [Option.bind_some] at halone
        rw [← Bool.not_eq_true]
        intro haccepted
        have hanswered := (checkLatest_alone hone).mpr ⟨version_of_checkLatest hraced, haccepted⟩
        rw [halone] at hanswered
        cases hanswered
    · cases h

end Checks

/-! ## Versions as they are normalized -/

/-- **A version is read back** from how it is normalized. -/
theorem parseStableVersion_normalized {version : Nat × Nat × Nat}
    (hmajor : version.1 < 18446744073709551616) (hminor : version.2.1 < 18446744073709551616)
    (hpatch : version.2.2 < 18446744073709551616) :
    parseStableVersion (normalized version) = some version := by
  have hlist : (normalized version).toList = Nat.toDigits 10 version.1 ++
      ('.' :: (Nat.toDigits 10 version.2.1 ++ ('.' :: (Nat.toDigits 10 version.2.2 ++ [])))) := by
    simp [normalized]
  have hblank : ∀ x ∈ (normalized version).toList, isSpace x = false := by
    intro x hx
    have hdigit : x.isDigit = true ∨ x = '.' := by
      rw [hlist] at hx
      simp only [List.mem_append, List.mem_cons, List.not_mem_nil, or_false] at hx
      rcases hx with h | h | h | h | h
      · exact .inl (isDigit_of_numeral h)
      · exact .inr h
      · exact .inl (isDigit_of_numeral h)
      · exact .inr h
      · exact .inl (isDigit_of_numeral h)
    rcases hdigit with h | rfl
    · exact isSpace_of_isDigit h
    · decide
  have hfirst : (normalized version).toList.head? ≠ some 'v' := by
    rw [hlist, List.head?_append_of_ne_nil _ Nat.toDigits_ne_nil]
    intro hv
    have hdigit := isDigit_of_numeral (List.mem_of_head? hv)
    revert hdigit
    decide
  unfold parseStableVersion
  rw [trimSpace_eq_self hblank]
  dsimp only
  rw [if_neg hfirst, hlist, takeNumeral_toDigits hmajor (by simp)]
  simp only [Option.bind_eq_bind, Option.bind_some, takeDot]
  rw [takeNumeral_toDigits hminor (by simp)]
  simp only [Option.bind_some]
  rw [takeNumeral_toDigits hpatch (by simp)]
  rfl

/-- **A version compares** as how it is normalized does. -/
theorem parseStableVersion_normalized_of_parsed {text : String} {version : Nat × Nat × Nat}
    (h : parseStableVersion text = some version) :
    parseStableVersion (normalized version) = some version := by
  unfold parseStableVersion at h
  simp only [Option.bind_eq_bind, Option.bind_eq_some_iff, Prod.exists] at h
  obtain ⟨major, _, hmajor, _, _, minor, _, hminor, _, _, patch, _, hpatch, hbuild⟩ := h
  split at hbuild
  · obtain rfl := Option.some.inj hbuild
    exact parseStableVersion_normalized (lt_of_takeNumeral hmajor) (lt_of_takeNumeral hminor)
      (lt_of_takeNumeral hpatch)
  · cases hbuild

theorem older_normalized {left right : String} {version : Nat × Nat × Nat}
    (h : parseStableVersion left = some version) :
    older (normalized version) right = older left right := by
  unfold older
  rw [parseStableVersion_normalized_of_parsed h, h]

/-- **A check that finds a release** found a newer one. -/
theorem newer_of_checkLatest {version : String} {mirrors : List Mirror} {arrivals : List Arrival}
    {checked : Checked} (h : checkLatest version mirrors arrivals = some checked)
    (havailable : checked.result.status = .available) :
    older version checked.result.latestVersion = true := by
  unfold checkLatest at h
  split at h
  · cases h
  · rename_i current hcurrent
    dsimp only at h
    split at h
    · cases h
    · split at h
      · cases h
      · rename_i latest hlatest
        obtain rfl := Option.some.inj h
        dsimp only [statusOf] at havailable ⊢
        rw [older_normalized hcurrent] at havailable
        split at havailable
        · assumption
        · split at havailable <;> cases havailable

theorem newer_of_runCheck {calendar : Calendar} {version : String} {memory : MirrorMemory}
    {now later : Int} {quick : Answer} {arrivals : List Arrival} {checked : Checked}
    (h : (runCheck calendar version memory now later quick arrivals).2 = some checked)
    (havailable : checked.result.status = .available) :
    older version checked.result.latestVersion = true := by
  unfold runCheck at h
  dsimp only at h
  split at h
  · rename_i alone halone
    obtain rfl := Option.some.inj h
    obtain ⟨preferred, -, hchecked⟩ := Option.bind_eq_some_iff.mp halone
    exact newer_of_checkLatest hchecked havailable
  · split at h
    · rename_i raced hraced
      obtain rfl := Option.some.inj h
      exact newer_of_checkLatest hraced havailable
    · cases h

/-! ## A week after a race -/

/-- A release that lists a package. -/
def listedManifest : Manifest where
  schema := 1
  version := "1.1.0"
  mirrors := []
  files := (∅ : Map String ManifestFile).insert "mq-studio-1.1.0-mac-arm64.dmg"
    ⟨"v1.1.0/mq-studio-1.1.0-mac-arm64.dmg",
      "e3b0c44298fc1c149afbf4c8996fb92427ae41e4649b934ca495991b7852b855"⟩

/-- How two days of January are spelled. -/
def january : Calendar where
  parse text :=
    if text = "2026-01-05T00:00:00Z" then some 1767571200000000000
    else if text = "2026-01-06T00:00:00Z" then some 1767657600000000000
    else none
  format instant :=
    if instant = 1767571200000000000 then "2026-01-05T00:00:00Z" else "2026-01-06T00:00:00Z"

/-- The first mirror compiled in. -/
def r2Mirror : Mirror :=
  ⟨"r2", "https://dl.amigoer.com/mq-studio/latest.json", "https://dl.amigoer.com/mq-studio"⟩

/-- The first check of a build: its mirrors are raced, and a download can go to both. -/
theorem fallsThrough_first :
    ∃ checked, (runCheck january "1.0.0" ⟨"", "", []⟩ 1767571200000000000 1767571200000000000 .fails
        [(r2Mirror, .content (some listedManifest))]).2 = some checked ∧
      FallsThrough (plan january ⟨"", "", []⟩ 1767571200000000000).1 checked := by
  have hsome : (runCheck january "1.0.0" ⟨"", "", []⟩ 1767571200000000000 1767571200000000000 .fails
      [(r2Mirror, .content (some listedManifest))]).2.isSome = true := by
    decide +kernel
  obtain ⟨checked, hchecked⟩ := Option.isSome_iff_exists.mp hsome
  exact ⟨checked, hchecked, (fallsThrough_iff (by decide +kernel) hchecked).mpr (.inl (by decide +kernel))⟩

/-- **The next check** asks the winner alone, and its download has nowhere else to go. -/
theorem shortcut_alone :
    ∃ checked, (runCheck january "1.0.0" ⟨"r2", "2026-01-05T00:00:00Z", []⟩ 1767657600000000000
        1767657600000000000 (.content (some listedManifest)) []).2 = some checked ∧
      checked.order = [r2Mirror] ∧
      ¬ FallsThrough
        (plan january ⟨"r2", "2026-01-05T00:00:00Z", []⟩ 1767657600000000000).1 checked := by
  have hshort : ((runCheck january "1.0.0" ⟨"r2", "2026-01-05T00:00:00Z", []⟩ 1767657600000000000
      1767657600000000000 (.content (some listedManifest)) []).2).any (fun checked =>
        checked.order = [r2Mirror] &&
          (plan january ⟨"r2", "2026-01-05T00:00:00Z", []⟩ 1767657600000000000).1.any fun m =>
            checked.order.count m ≠ 1) = true := by
    decide +kernel
  obtain ⟨checked, hchecked, hmissing⟩ := (Option.any_eq_true _ _).mp hshort
  simp only [Bool.and_eq_true, decide_eq_true_eq, List.any_eq_true] at hmissing
  obtain ⟨horder, m, hm, hcount⟩ := hmissing
  exact ⟨checked, hchecked, horder, fun hfalls => hcount (hfalls.once m hm)⟩

end MqStudio.Update
