import Mathlib.Data.List.Basic

/-!
# RocketMQ Namespaces

`Wrap`, `Unwrap` and `In` of `internal/driver/rocketmq/resource/namespace.go`. A namespace is a prefix
of a name; a connection wraps each name it sends and unwraps each name it shows, and a page lists the
names its namespace has. Retry and dead-letter markers stay in front of the namespace, and system
names have none.

## Main results

- `namespaced`: wrapping is idempotent and ends in the namespace; what was unwrapped is wrapped back
  exactly where nothing in it reads as a name of another kind.
- `shown_alike`: of a system name and its namesake in the namespace, a page shows the same.
-/

namespace MqStudio.Driver.Rocket.Resource

/-! ## Names -/

/-- `strings.HasPrefix` -/
def hasPrefix (name start : String) : Bool := start.toList.isPrefixOf name.toList

/-- `strings.TrimPrefix` -/
def trimPrefix (name start : String) : String :=
  if hasPrefix name start then String.ofList (name.toList.drop start.toList.length) else name

/-- `separator` -/
def separator : String := "%"

/-- `retryPrefix` -/
def retryPrefix : String := "%RETRY%"

/-- `dlqPrefix` -/
def dlqPrefix : String := "%DLQ%"

/-- `systemTopics` -/
def systemTopics : List String :=
  ["TBW102", "SCHEDULE_TOPIC_XXXX", "BenchmarkTest", "RMQ_SYS_TRANS_HALF_TOPIC",
    "RMQ_SYS_TRACE_TOPIC", "RMQ_SYS_TRANS_OP_HALF_TOPIC", "TRANS_CHECK_MAX_TIME_TOPIC",
    "SELF_TEST_TOPIC", "OFFSET_MOVED_EVENT", "CHECKPOINT_TOPIC", "RMQ_SYS_ROCKSDB_TRANS_HALF_TOPIC",
    "RMQ_SYS_ROCKSDB_TRANS_OP_HALF_TOPIC"]

/-- `isSystemResource` -/
def isSystemResource (name : String) : Bool :=
  decide (name ∈ systemTopics) || hasPrefix name "rmq_sys_" || hasPrefix name "CID_RMQ_SYS_"

/-- `splitRetryPrefix`: the marker and the bare name. -/
def splitRetryPrefix (name : String) : String × String :=
  if hasPrefix name retryPrefix then (retryPrefix, trimPrefix name retryPrefix)
  else if hasPrefix name dlqPrefix then (dlqPrefix, trimPrefix name dlqPrefix)
  else ("", name)

/-- `In` -/
def isIn (ns name : String) : Bool :=
  if ns = "" then true
  else if name = "" then false
  else if isSystemResource name then true
  else hasPrefix (splitRetryPrefix name).2 (ns ++ separator)

/-- `Wrap` -/
def wrap (ns name : String) : String :=
  if ns = "" ∨ name = "" ∨ isSystemResource name ∨ isIn ns name then name
  else (splitRetryPrefix name).1 ++ ns ++ separator ++ (splitRetryPrefix name).2

/-- `Unwrap` -/
def unwrap (ns name : String) : String :=
  if ns = "" ∨ ¬ isIn ns name then name
  else (splitRetryPrefix name).1 ++ trimPrefix (splitRetryPrefix name).2 (ns ++ separator)

/-- **A name that reads one way**: what stands behind the namespace does not bear it again; and,
    where no marker is in front, there is something, which is no system name and bears no marker. -/
def ReadsOneWay (ns name : String) : Prop :=
  ns = "" ∨ ∀ rest, (splitRetryPrefix name).2 = ns ++ separator ++ rest →
    hasPrefix rest (ns ++ separator) = false ∧
      ((splitRetryPrefix name).1 = "" →
        rest ≠ "" ∧ isSystemResource rest = false ∧ (splitRetryPrefix rest).1 = "")

/-! ## Prefixes -/

variable {ns name rest start marker : String}

theorem hasPrefix_iff : hasPrefix name start = true ↔ ∃ rest, name = start ++ rest := by
  rw [hasPrefix, List.isPrefixOf_iff_prefix]
  constructor
  · intro h
    obtain ⟨rest, hrest⟩ := h
    refine ⟨String.ofList rest, ?_⟩
    rw [← String.toList_inj, String.toList_append, String.toList_ofList, hrest]
  · intro h
    obtain ⟨rest, hrest⟩ := h
    rw [hrest, String.toList_append]
    exact List.prefix_append _ _

@[simp] theorem hasPrefix_append : hasPrefix (start ++ rest) start = true :=
  hasPrefix_iff.mpr ⟨rest, rfl⟩

@[simp] theorem trimPrefix_append : trimPrefix (start ++ rest) start = rest := by
  rw [trimPrefix, if_pos hasPrefix_append, ← String.toList_inj, String.toList_ofList,
    String.toList_append, List.drop_left]

theorem trimPrefix_of_not (h : hasPrefix name start = false) : trimPrefix name start = name := by
  rw [trimPrefix, if_neg (by simp [h])]

/-- One of the two markers. -/
def IsMarker (marker : String) : Prop := marker = retryPrefix ∨ marker = dlqPrefix

theorem IsMarker.ne_empty (h : IsMarker marker) : marker ≠ "" := by
  rcases h with h | h <;> rw [h] <;> decide

/-- **A marker is split off.** -/
theorem split_marked (h : IsMarker marker) :
    splitRetryPrefix (marker ++ rest) = (marker, rest) := by
  rcases h with h | h
  · rw [h, splitRetryPrefix, if_pos hasPrefix_append, trimPrefix_append]
  · have hretry : hasPrefix (dlqPrefix ++ rest) retryPrefix = false := by
      rw [hasPrefix, String.toList_append]
      rfl
    rw [h, splitRetryPrefix, hretry, if_neg Bool.false_ne_true, if_pos hasPrefix_append,
      trimPrefix_append]

/-- A name bears a marker, or is bare. -/
theorem split_cases (name : String) :
    (∃ marker rest, IsMarker marker ∧ name = marker ++ rest ∧
        splitRetryPrefix name = (marker, rest)) ∨ splitRetryPrefix name = ("", name) := by
  by_cases hretry : hasPrefix name retryPrefix = true
  · obtain ⟨rest, hname⟩ := hasPrefix_iff.mp hretry
    exact .inl ⟨retryPrefix, rest, .inl rfl, hname, hname ▸ split_marked (.inl rfl)⟩
  · by_cases hdlq : hasPrefix name dlqPrefix = true
    · obtain ⟨rest, hname⟩ := hasPrefix_iff.mp hdlq
      exact .inl ⟨dlqPrefix, rest, .inr rfl, hname, hname ▸ split_marked (.inr rfl)⟩
    · exact .inr (by rw [splitRetryPrefix, if_neg hretry, if_neg hdlq])

theorem split_bare (h : (splitRetryPrefix name).1 = "") : splitRetryPrefix name = ("", name) := by
  rcases split_cases name with ⟨marker, rest, hmarker, -, hsplit⟩ | hsplit
  · rw [hsplit] at h
    exact absurd h hmarker.ne_empty
  · exact hsplit

/-- A marker starts with the separator. -/
theorem head_marked (h : IsMarker marker) : (marker ++ rest).toList.head? = some '%' := by
  rcases h with h | h <;> rw [h, String.toList_append] <;> rfl

theorem split_of_head (h : name.toList.head? ≠ some '%') : splitRetryPrefix name = ("", name) := by
  rcases split_cases name with ⟨marker, rest, hmarker, hname, -⟩ | hsplit
  · rw [hname] at h
    exact absurd (head_marked hmarker) h
  · exact hsplit

/-- A namespace does not. -/
theorem head_namespace (hns : ns ≠ "") (hpercent : '%' ∉ ns.toList) :
    (ns ++ rest).toList.head? ≠ some '%' := by
  intro hhead
  cases hletters : ns.toList with
  | nil =>
    apply hns
    rw [← String.toList_inj, hletters]
    rfl
  | cons letter letters =>
    rw [String.toList_append, hletters] at hhead
    cases hhead
    exact hpercent (hletters ▸ List.mem_cons_self)

/-- Nor does a system name. -/
theorem not_system_of_head (h : name.toList.head? = some '%') : isSystemResource name = false := by
  rw [isSystemResource, Bool.or_eq_false_iff, Bool.or_eq_false_iff, decide_eq_false_iff_not]
  have hstart : ∀ start : String, start.toList.head? ≠ some '%' → start.toList ≠ [] →
      hasPrefix name start = false := by
    intro start hhead hsome
    rw [Bool.eq_false_iff]
    intro hinit
    obtain ⟨rest, hname⟩ := hasPrefix_iff.mp hinit
    rw [hname, String.toList_append, List.head?_append_of_ne_nil _ hsome] at h
    exact hhead h
  refine ⟨⟨fun hmem => ?_, hstart _ (by decide) (by decide)⟩, hstart _ (by decide) (by decide)⟩
  have htopics : ∀ topic ∈ systemTopics, topic.toList.head? ≠ some '%' := by decide
  exact htopics name hmem h

/-! ## The namespace of a name -/

theorem isIn_iff (hns : ns ≠ "") : isIn ns name = true ↔ name ≠ "" ∧
    (isSystemResource name = true ∨
      hasPrefix (splitRetryPrefix name).2 (ns ++ separator) = true) := by
  rw [isIn, if_neg hns]
  by_cases hname : name = ""
  · simp [hname]
  · by_cases hsystem : isSystemResource name = true
    · simp [hname, hsystem]
    · simp [hname, hsystem]

/-- A name to which wrapping adds nothing. -/
def Untouched (ns name : String) : Prop :=
  ns = "" ∨ name = "" ∨ isSystemResource name = true ∨ isIn ns name = true

theorem wrap_untouched (h : Untouched ns name) : wrap ns name = name := if_pos h

theorem wrap_touched (h : ¬ Untouched ns name) :
    wrap ns name = (splitRetryPrefix name).1 ++ ns ++ separator ++ (splitRetryPrefix name).2 :=
  if_neg h

/-- **What was wrapped is in the namespace.** -/
theorem isIn_wrap_of_touched (hpercent : '%' ∉ ns.toList) (h : ¬ Untouched ns name) :
    isIn ns (wrap ns name) = true := by
  have hns : ns ≠ "" := fun hns => h (.inl hns)
  have hname : name ≠ "" := fun hname => h (.inr (.inl hname))
  rw [isIn_iff hns, wrap_touched h]
  have hrest : ∀ front bare : String, front ++ ns ++ separator ++ bare =
      front ++ (ns ++ separator ++ bare) := fun front bare => by simp only [String.append_assoc]
  rw [hrest]
  constructor
  · intro hempty
    have hlength := congrArg String.length hempty
    simp only [String.length_append, separator] at hlength
    have hone : "%".length = 1 := rfl
    have hzero : "".length = 0 := rfl
    omega
  · refine .inr ?_
    rcases split_cases name with ⟨marker, rest, hmarker, -, hsplit⟩ | hsplit
    · rw [hsplit, split_marked hmarker]
      exact hasPrefix_append
    · rw [hsplit, String.empty_append, split_of_head]
      · exact hasPrefix_append
      · rw [String.append_assoc]
        exact head_namespace hns hpercent

/-! ## Unwrapping -/

theorem unwrap_of_in (hns : ns ≠ "") (hin : isIn ns name = true) : unwrap ns name =
    (splitRetryPrefix name).1 ++ trimPrefix (splitRetryPrefix name).2 (ns ++ separator) :=
  if_neg fun h => h.elim hns fun hout => hout hin

/-- Nothing is its own rest. -/
theorem rest_ne (front ns rest : String) : front ++ rest ≠ front ++ (ns ++ separator ++ rest) := by
  intro h
  have hlength := congrArg (fun name => name.toList.length) h
  simp only [String.toList_append, List.length_append, separator] at hlength
  have hone : "%".toList.length = 1 := rfl
  omega

/-- Under a marker: the name is wrapped back unless it bears the namespace twice. -/
theorem reached_marked (hns : ns ≠ "") (hmarker : IsMarker marker) :
    wrap ns (marker ++ rest) = marker ++ (ns ++ separator ++ rest) ↔
      hasPrefix rest (ns ++ separator) = false := by
  have hsplit : splitRetryPrefix (marker ++ rest) = (marker, rest) := split_marked hmarker
  have hsystem : isSystemResource (marker ++ rest) = false :=
    not_system_of_head (head_marked hmarker)
  have hsome : marker ++ rest ≠ "" := by
    intro hempty
    have hhead : (marker ++ rest).toList.head? = some '%' := head_marked hmarker
    rw [hempty] at hhead
    cases hhead
  have hin : isIn ns (marker ++ rest) = true ↔ hasPrefix rest (ns ++ separator) = true := by
    rw [isIn_iff hns, hsystem, hsplit]
    simp [hsome]
  constructor
  · intro hwrap
    rw [Bool.eq_false_iff]
    intro hinit
    rw [wrap_untouched (.inr (.inr (.inr (hin.mpr hinit))))] at hwrap
    exact rest_ne marker ns rest hwrap
  · intro hinit
    have htouched : ¬ Untouched ns (marker ++ rest) := by
      intro huntouched
      rcases huntouched with h | h | h | h
      · exact hns h
      · exact hsome h
      · rw [hsystem] at h
        cases h
      · rw [hin, hinit] at h
        cases h
    rw [wrap_touched htouched, hsplit]
    simp only [String.append_assoc]

/-- Bare: unless what is behind the namespace is nothing, a system name, or bears a marker or the
    namespace again. -/
theorem reached_bare (hns : ns ≠ "") (hpercent : '%' ∉ ns.toList) :
    wrap ns rest = ns ++ separator ++ rest ↔ hasPrefix rest (ns ++ separator) = false ∧
      rest ≠ "" ∧ isSystemResource rest = false ∧ (splitRetryPrefix rest).1 = "" := by
  by_cases htouched : Untouched ns rest
  · rw [wrap_untouched htouched]
    have hne : rest ≠ ns ++ separator ++ rest := by
      have := rest_ne "" ns rest
      rwa [String.empty_append, String.empty_append] at this
    refine iff_of_false hne ?_
    intro hclear
    obtain ⟨hinit, hsome, hsystem, hbare⟩ := hclear
    rcases htouched with h | h | h | h
    · exact hns h
    · exact hsome h
    · rw [hsystem] at h
      cases h
    · rw [isIn_iff hns, hsystem, split_bare hbare, hinit] at h
      simp at h
  · have hsystem : isSystemResource rest = false := by
      rw [Bool.eq_false_iff]
      exact fun h => htouched (.inr (.inr (.inl h)))
    have hsome : rest ≠ "" := fun h => htouched (.inr (.inl h))
    rw [wrap_touched htouched]
    rcases split_cases rest with ⟨marker, bare, hmarker, hrest, hsplit⟩ | hsplit
    · -- The marker comes to stand in front of the namespace.
      rw [hsplit]
      refine iff_of_false ?_ (fun hclear => hmarker.ne_empty hclear.2.2.2)
      intro hwrap
      have hhead : (ns ++ (separator ++ rest)).toList.head? ≠ some '%' := head_namespace hns hpercent
      rw [← String.append_assoc, ← hwrap] at hhead
      simp only [String.append_assoc] at hhead
      exact hhead (head_marked hmarker)
    · rw [hsplit]
      refine iff_of_true (by rw [String.empty_append]) ⟨?_, hsome, hsystem, rfl⟩
      rw [Bool.eq_false_iff]
      intro hinit
      apply htouched
      refine .inr (.inr (.inr ((isIn_iff hns).mpr ⟨hsome, .inr ?_⟩)))
      rw [hsplit]
      exact hinit

/-- **Wrapping undoes unwrapping** exactly on the names that read one way. -/
theorem wrap_unwrap (hpercent : '%' ∉ ns.toList) (hin : isIn ns name = true) :
    wrap ns (unwrap ns name) = name ↔ ReadsOneWay ns name := by
  by_cases hns : ns = ""
  · rw [unwrap, if_pos (.inl hns), wrap_untouched (.inl hns)]
    exact iff_of_true rfl (.inl hns)
  rw [unwrap_of_in hns hin, ReadsOneWay, or_iff_right hns]
  have hwithin := ((isIn_iff hns).mp hin).2
  rcases split_cases name with ⟨marker, bare, hmarker, hname, hsplit⟩ | hsplit
  · rw [hsplit, hname, not_system_of_head (head_marked hmarker)] at hwithin
    obtain ⟨rest, hbare⟩ := hasPrefix_iff.mp (hwithin.resolve_left Bool.false_ne_true)
    dsimp only at hbare
    rw [hsplit]
    dsimp only
    rw [hname, hbare, trimPrefix_append, reached_marked hns hmarker]
    constructor
    · intro hinit rest' hrest
      rw [String.append_right_inj] at hrest
      exact ⟨hrest ▸ hinit, fun hempty => absurd hempty hmarker.ne_empty⟩
    · exact fun hall => (hall rest rfl).1
  · rw [hsplit]
    dsimp only
    rw [String.empty_append]
    by_cases hinit : hasPrefix name (ns ++ separator) = true
    · obtain ⟨rest, hname⟩ := hasPrefix_iff.mp hinit
      rw [hname, trimPrefix_append, reached_bare hns hpercent]
      constructor
      · intro hclear rest' hrest
        rw [String.append_right_inj] at hrest
        rw [← hrest]
        exact ⟨hclear.1, fun _ => hclear.2⟩
      · intro hall
        obtain ⟨hfirst, hothers⟩ := hall rest rfl
        exact ⟨hfirst, hothers rfl⟩
    · -- A system name that the namespace is no prefix of is shown as it is.
      have hsystem : isSystemResource name = true := by
        rw [hsplit] at hwithin
        exact hwithin.resolve_right hinit
      rw [Bool.not_eq_true] at hinit
      rw [trimPrefix_of_not hinit, wrap_untouched (.inr (.inr (.inl hsystem)))]
      refine iff_of_true rfl ?_
      intro rest hrest
      rw [hrest, hasPrefix_append] at hinit
      cases hinit

/-! ## The result -/

/-- **What holds of a namespace**: a name is reached from what is shown of it exactly where it reads
    one way, and of such names no two are shown alike; wrapping is idempotent, and ends in the
    namespace unless there is no name. -/
structure Namespaced (ns : String) : Prop where
  reached : ∀ name, isIn ns name = true →
    (wrap ns (unwrap ns name) = name ↔ ReadsOneWay ns name)
  distinct : ∀ name other, isIn ns name = true → isIn ns other = true → ReadsOneWay ns name →
    ReadsOneWay ns other → unwrap ns name = unwrap ns other → name = other
  again : ∀ name, wrap ns (wrap ns name) = wrap ns name
  within : ∀ name, isIn ns (wrap ns name) = true ↔ ns = "" ∨ name ≠ ""

/-- **Names and what is shown of them.** -/
theorem namespaced (hpercent : '%' ∉ ns.toList) : Namespaced ns := by
  constructor
  case reached => exact fun name hin => wrap_unwrap hpercent hin
  case distinct =>
    intro name other hin hin' hclear hclear' hshown
    calc name = wrap ns (unwrap ns name) := ((wrap_unwrap hpercent hin).mpr hclear).symm
      _ = wrap ns (unwrap ns other) := by rw [hshown]
      _ = other := (wrap_unwrap hpercent hin').mpr hclear'
  case again =>
    intro name
    by_cases htouched : Untouched ns name
    · rw [wrap_untouched htouched, wrap_untouched htouched]
    · exact wrap_untouched (.inr (.inr (.inr (isIn_wrap_of_touched hpercent htouched))))
  case within =>
    intro name
    by_cases hns : ns = ""
    · rw [isIn, if_pos hns]
      exact iff_of_true rfl (.inl hns)
    by_cases hname : name = ""
    · rw [wrap_untouched (.inr (.inl hname)), isIn_iff hns]
      exact iff_of_false (fun h => h.1 hname) (fun h => h.elim hns fun hsome => hsome hname)
    refine iff_of_true ?_ (.inr hname)
    by_cases htouched : Untouched ns name
    · rw [wrap_untouched htouched]
      rcases htouched with h | h | h | h
      · exact absurd h hns
      · exact absurd h hname
      · exact (isIn_iff hns).mpr ⟨hname, .inl h⟩
      · exact h
    · exact isIn_wrap_of_touched hpercent htouched

/-- A namespace of two letters: a name is reached and shown. -/
theorem namespaced_letters : '%' ∉ "ns".toList ∧ Namespaced "ns" :=
  ⟨by decide, namespaced (by decide)⟩

/-- A topic may be called like a system topic, within the namespace: both are shown alike. -/
theorem shown_alike : isIn "ns" "ns%TBW102" = true ∧ isIn "ns" "TBW102" = true ∧
    unwrap "ns" "ns%TBW102" = unwrap "ns" "TBW102" ∧
    wrap "ns" (unwrap "ns" "ns%TBW102") ≠ "ns%TBW102" := by
  decide +kernel

end MqStudio.Driver.Rocket.Resource
