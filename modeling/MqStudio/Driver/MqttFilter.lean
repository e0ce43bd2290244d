import Mathlib.Data.List.Basic

/-!
# MQTT Topic Filters

`splitShared`, `matchesFilter` and `validFilter` of `internal/driver/mqtt/topicfilter.go`. The broker
delivers what a subscription matches; one connection holds several streams, so each delivery is
matched once more here to find the stream that asked for it.

The standard's matching is a relation on levels (`MatchesLevels`). The source walks an index over two
split strings instead, looks at the first byte of the topic for the `$` rule, and takes a shared
subscription's prefix off first.

## Main results

- `matchesFrom_iff`: the loop, from any level on, is the relation on what is left of both.
- `matchesFilter_iff_selects`: on every filter `validFilter` accepts the matcher is the standard's.
-/

namespace MqStudio.Driver.Mqtt

/-! ## The matcher -/

/-- `strings.Split(text, "/")` -/
def levels (text : String) : List String := (text.toList.splitOn '/').map String.ofList

/-- `sharedPrefix` -/
def sharedPrefix : String := "$share/"

/-- `strings.HasPrefix` -/
def hasPrefix (text start : String) : Bool := start.toList.isPrefixOf text.toList

/-- `splitShared`: the group of a shared subscription and the filter it wraps. -/
def splitShared (filter : String) : String × String :=
  if hasPrefix filter sharedPrefix then
    let rest := filter.toList.drop sharedPrefix.toList.length
    -- a group with no filter after it is left whole, for the broker to refuse
    if '/' ∈ rest then
      (String.ofList (rest.takeWhile (· != '/')), String.ofList ((rest.dropWhile (· != '/')).drop 1))
    else ("", filter)
  else ("", filter)

/-- The loop of `matchesFilter`, from the filter's `i`th level on. -/
def matchesFrom (filterLevels topicLevels : List String) (i : Nat) : List String → Bool
  | [] => filterLevels.length == topicLevels.length
  | level :: rest =>
    -- `#` anywhere but at the end is an invalid level name, and matches nothing
    if level = "#" then i == filterLevels.length - 1
    else if topicLevels.length ≤ i then false
    else if level = "+" then matchesFrom filterLevels topicLevels (i + 1) rest
    else if level ≠ topicLevels.getD i "" then false
    else matchesFrom filterLevels topicLevels (i + 1) rest

/-- `matchesFilter` -/
def matchesFilter (filter topic : String) : Bool :=
  if filter = "" ∨ topic = "" then false
  else
    let filterLevels := levels (splitShared filter).2
    if hasPrefix topic "$" ∧ (filterLevels.headD "" = "#" ∨ filterLevels.headD "" = "+") then false
    else matchesFrom filterLevels (levels topic) 0 filterLevels

/-- The loop of `validFilter`, from the `i`th level on. -/
def validFrom (all : List String) (i : Nat) : List String → Bool
  | [] => true
  | level :: rest =>
    if level = "#" then
      if i ≠ all.length - 1 then false else validFrom all (i + 1) rest
    else if level = "+" then validFrom all (i + 1) rest
    -- a wildcard has to be the whole level
    else if level.toList.any (fun c => c = '+' ∨ c = '#') then false
    else validFrom all (i + 1) rest

/-- `validFilter` -/
def validFilter (filter : String) : Bool :=
  if filter = "" then false
  else
    let shared := hasPrefix filter sharedPrefix
    let (group, rest) := splitShared filter
    if rest = "" ∨ (shared ∧ group = "") then false
    else validFrom (levels rest) 0 (levels rest)

/-! ## The standard's relation -/

/-- What the levels of a filter match: `+` exactly one level, a last `#` all that is left, even
    nothing, and any other level itself. -/
inductive MatchesLevels : List String → List String → Prop
  | done : MatchesLevels [] []
  | level {name : String} {filter topic : List String} (hone : name ≠ "+") (hmany : name ≠ "#")
      (hrest : MatchesLevels filter topic) : MatchesLevels (name :: filter) (name :: topic)
  | plus {name : String} {filter topic : List String} (hrest : MatchesLevels filter topic) :
      MatchesLevels ("+" :: filter) (name :: topic)
  | hash {topic : List String} : MatchesLevels ["#"] topic

/-- A plain filter takes a topic: the levels match, and a first level that is a wildcard keeps away
    from the topics that start with `$`. -/
structure Takes (filter topic : String) : Prop where
  matched : MatchesLevels (levels filter) (levels topic)
  hidden : topic.toList.head? = some '$' →
    (levels filter).head? ≠ some "+" ∧ (levels filter).head? ≠ some "#"

/-- What a subscription selects: a shared one exactly what the filter behind its group takes. -/
inductive Selects : String → String → Prop
  | plain {filter topic : String} (hplain : ¬ hasPrefix filter sharedPrefix)
      (htakes : Takes filter topic) : Selects filter topic
  | shared {group filter topic : String} (hgroup : '/' ∉ group.toList)
      (htakes : Takes filter topic) : Selects (sharedPrefix ++ group ++ "/" ++ filter) topic

/-! ## The loop is the relation -/

/-- What the first level of a filter leaves to match. -/
theorem matchesLevels_cons_iff {level : String} {rest topic : List String} :
    MatchesLevels (level :: rest) topic ↔
      (level = "#" ∧ rest = []) ∨
        ∃ name others, topic = name :: others ∧ MatchesLevels rest others ∧
          (level = "+" ∨ level ≠ "#" ∧ level = name) := by
  constructor
  · intro h
    generalize hfilter : level :: rest = filter at h
    cases h with
    | done => cases hfilter
    | level hone hmany hrest =>
      cases hfilter
      exact .inr ⟨_, _, rfl, hrest, .inr ⟨hmany, rfl⟩⟩
    | plus hrest =>
      cases hfilter
      exact .inr ⟨_, _, rfl, hrest, .inl rfl⟩
    | hash =>
      cases hfilter
      exact .inl ⟨rfl, rfl⟩
  · rintro (⟨rfl, rfl⟩ | ⟨name, others, rfl, hrest, hlevel⟩)
    · exact .hash
    · by_cases hone : level = "+"
      · subst hone
        exact .plus hrest
      · obtain ⟨hmany, rfl⟩ := hlevel.resolve_left hone
        exact .level hone hmany hrest

/-- **The loop**: from any level on it decides the relation between what is left of both. -/
theorem matchesFrom_iff {filterLevels topicLevels rest : List String} {i : Nat}
    (hleft : filterLevels.length = i + rest.length) (hi : i ≤ topicLevels.length) :
    matchesFrom filterLevels topicLevels i rest = true ↔
      MatchesLevels rest (topicLevels.drop i) := by
  induction rest generalizing i with
  | nil =>
    -- every level of the filter met one of the topic; none of the topic may be left
    have hdrop : MatchesLevels [] (topicLevels.drop i) ↔ topicLevels.length ≤ i := by
      rw [← List.drop_eq_nil_iff]
      refine ⟨fun h => ?_, fun h => h ▸ .done⟩
      generalize topicLevels.drop i = left at h
      cases h with
      | done => rfl
    rw [hdrop, matchesFrom, beq_iff_eq]
    simp only [List.length_nil] at hleft
    omega
  | cons level rest ih =>
    simp only [List.length_cons] at hleft
    rw [matchesFrom, matchesLevels_cons_iff]
    by_cases hmany : level = "#"
    · have hlast : i = filterLevels.length - 1 ↔ rest = [] := by
        rw [← List.length_eq_zero_iff]
        omega
      simp [hmany, hlast]
    by_cases hend : topicLevels.length ≤ i
    · have hnone : topicLevels.drop i = [] := List.drop_eq_nil_of_le hend
      simp [hmany, hend, hnone]
    have hlt : i < topicLevels.length := by omega
    have hnext := ih (i := i + 1) (by omega) (by omega)
    have hname : topicLevels.getD i "" = topicLevels[i] := by simp [hlt]
    rw [List.drop_eq_getElem_cons hlt, hname]
    generalize topicLevels.drop (i + 1) = others at hnext ⊢
    generalize topicLevels[i] = name
    by_cases hone : level = "+"
    · simp [hone, hend, hnext]
    · by_cases hsame : level = name
      · subst hsame
        simp [hmany, hend, hone, hnext]
      · simp [hmany, hend, hone, hsame]

/-! ## Shared subscriptions -/

/-- What is split off is what was put before. -/
theorem splitShared_shared {group filter : String} (hgroup : '/' ∉ group.toList) :
    splitShared (sharedPrefix ++ group ++ "/" ++ filter) = (group, filter) := by
  have hcut : ∀ c ∈ group.toList, (c != '/') = true := by
    intro c hc
    rw [bne_iff_ne]
    rintro rfl
    exact hgroup hc
  have hlist : (sharedPrefix ++ group ++ "/" ++ filter).toList =
      sharedPrefix.toList ++ (group.toList ++ '/' :: filter.toList) := by simp
  have hopens : hasPrefix (sharedPrefix ++ group ++ "/" ++ filter) sharedPrefix = true := by
    rw [hasPrefix, hlist, List.isPrefixOf_iff_prefix]
    exact List.prefix_append _ _
  rw [splitShared, if_pos hopens, hlist, List.drop_left]
  simp [List.takeWhile_append_of_pos hcut, List.dropWhile_append_of_pos hcut]

/-- A filter with the prefix of a shared subscription is one, or is left whole. -/
theorem shared_of_hasPrefix {filter : String} (hopens : hasPrefix filter sharedPrefix = true) :
    (∃ group rest, '/' ∉ group.toList ∧ filter = sharedPrefix ++ group ++ "/" ++ rest) ∨
      splitShared filter = ("", filter) := by
  by_cases hslash : '/' ∈ filter.toList.drop sharedPrefix.toList.length
  · left
    obtain ⟨tail, htail⟩ := List.isPrefixOf_iff_prefix.mp hopens
    rw [← htail, List.drop_left] at hslash
    obtain ⟨before, after, rfl, hbefore⟩ := List.eq_append_cons_of_mem hslash
    refine ⟨String.ofList before, String.ofList after, by simpa using hbefore, ?_⟩
    apply String.toList_injective
    rw [← htail]
    simp
  · right
    rw [splitShared, if_pos hopens, if_neg hslash]

/-! ## The matcher is the standard's -/

/-- The first of a filter's levels. -/
theorem headD_levels (filter name : String) :
    (levels filter).headD "" = name ↔ (levels filter).head? = some name := by
  have hne : levels filter ≠ [] := by simp [levels, List.splitOn_ne_nil]
  obtain ⟨first, rest, hcut⟩ := List.exists_cons_of_ne_nil hne
  simp [hcut]

/-- Past its prefix, `matchesFilter` decides what the filter takes. -/
theorem takes_iff {filter inner topic : String} (hfilter : filter ≠ "") (htopic : topic ≠ "")
    (hinner : (splitShared filter).2 = inner) :
    matchesFilter filter topic = true ↔ Takes inner topic := by
  have hdollar : hasPrefix topic "$" = true ↔ topic.toList.head? = some '$' := by
    rw [hasPrefix, show "$".toList = ['$'] from rfl]
    cases topic.toList with
    | nil => simp
    | cons first rest =>
      simp only [List.isPrefixOf_iff_prefix, List.cons_prefix_cons, List.nil_prefix, and_true,
        List.head?_cons, Option.some.injEq]
      exact eq_comm
  have hloop : matchesFrom (levels inner) (levels topic) 0 (levels inner) = true ↔
      MatchesLevels (levels inner) ((levels topic).drop 0) :=
    matchesFrom_iff (by simp) (Nat.zero_le _)
  rw [List.drop_zero] at hloop
  rw [matchesFilter, if_neg (by simp [hfilter, htopic]), hinner]
  simp only [hdollar, headD_levels]
  by_cases hhidden : topic.toList.head? = some '$' ∧
      ((levels inner).head? = some "#" ∨ (levels inner).head? = some "+")
  · rw [if_pos hhidden]
    refine ⟨fun h => absurd h Bool.false_ne_true, fun h => ?_⟩
    obtain ⟨hone, hmany⟩ := h.hidden hhidden.1
    exact absurd hhidden.2 (by simp [hone, hmany])
  · rw [if_neg hhidden, hloop]
    refine ⟨fun h => ⟨h, fun hstart => ?_⟩, fun h => h.matched⟩
    simp only [hstart, true_and, not_or] at hhidden
    exact hhidden.symm

/-- A filter that is accepted is not empty, and a shared one has a group and a filter behind it. -/
theorem shared_of_validFilter {filter : String} (hvalid : validFilter filter = true) :
    filter ≠ "" ∧ (hasPrefix filter sharedPrefix = true →
      ∃ group rest, '/' ∉ group.toList ∧ filter = sharedPrefix ++ group ++ "/" ++ rest) := by
  refine ⟨?_, fun hopens => ?_⟩
  · rintro rfl
    cases hvalid
  · apply (shared_of_hasPrefix hopens).resolve_right
    intro hwhole
    simp [validFilter, hopens, hwhole] at hvalid

/-- **The matcher is the standard's**: on an accepted filter and a topic that has a name, it says
    exactly what the subscription selects. -/
theorem matchesFilter_iff_selects {filter topic : String} (hvalid : validFilter filter = true)
    (htopic : topic ≠ "") : matchesFilter filter topic = true ↔ Selects filter topic := by
  obtain ⟨hfilter, hshared⟩ := shared_of_validFilter hvalid
  constructor
  · intro hmatches
    by_cases hopens : hasPrefix filter sharedPrefix = true
    · obtain ⟨group, rest, hgroup, rfl⟩ := hshared hopens
      apply Selects.shared hgroup
      exact (takes_iff hfilter htopic (by rw [splitShared_shared hgroup])).mp hmatches
    · apply Selects.plain hopens
      exact (takes_iff hfilter htopic (by rw [splitShared, if_neg hopens])).mp hmatches
  · intro hselects
    cases hselects with
    | plain hplain htakes =>
      exact (takes_iff hfilter htopic (by rw [splitShared, if_neg hplain])).mpr htakes
    | shared hgroup htakes =>
      exact (takes_iff hfilter htopic (by rw [splitShared_shared hgroup])).mpr htakes

/-- A shared subscription to everything takes a deep topic, and not the broker's own. -/
theorem matchesFilter_iff_selects_everything :
    (matchesFilter "$share/g/#" "a//b" = true ∧ Selects "$share/g/#" "a//b") ∧
      (matchesFilter "$share/g/#" "$SYS/uptime" = false ∧ ¬ Selects "$share/g/#" "$SYS/uptime") := by
  have hvalid : validFilter "$share/g/#" = true := by decide +kernel
  have htaken : matchesFilter "$share/g/#" "a//b" = true := by decide +kernel
  have hhidden : matchesFilter "$share/g/#" "$SYS/uptime" = false := by decide +kernel
  refine ⟨⟨htaken, (matchesFilter_iff_selects hvalid (by decide)).mp htaken⟩, hhidden, ?_⟩
  intro hselects
  rw [(matchesFilter_iff_selects hvalid (by decide)).mpr hselects] at hhidden
  cases hhidden

end MqStudio.Driver.Mqtt
