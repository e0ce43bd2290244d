import MqStudio.Driver.RocketExec
import MqStudio.Lib.FirstHit
import MqStudio.Storage

/-!
# Deleting a RocketMQ Topic

`DeleteTopic` of `internal/driver/rocketmq/topic_mutation.go` with `exec` of `exec.go`. The named
cluster and the clusters of the topic's route make one list of candidates, which is gone through until
one of them deletes.

## Main results

- `tryCandidates_deletes`: of the candidates, the first that can delete is the one that does.
- `deleteTopic_whereAsked_iff`: a topic is deleted where it is asked, and nowhere else, exactly where
  the named cluster deletes it or no other would, and without a name where the route has one cluster
  or none of them deletes.
-/

namespace MqStudio.Driver.Rocket.TopicMutation

open MqStudio.Lib.FirstHit
open MqStudio.Storage

/-! ## The source -/

/-- `admin.BrokerData`: the cluster it belongs to. -/
structure BrokerData where
  cluster : String

/-- What the admin client is answered: the brokers of a topic's route, the names of
    `ClusterAddrTable` in the order they come, and the delete of a topic on a cluster. Either of the
    first two may be nil, and so may a broker. -/
structure Admin where
  toLower : Char → Char
  examineTopicRouteInfo : (topic : String) → Request (Option (List (Option BrokerData)))
  examineBrokerClusterInfo : Request (Option (List String))
  deleteTopic : (topic cluster : String) → Request Unit

/-- `appendCluster` -/
def appendCluster (clusterCandidates : List String) (name : String) : List String :=
  if trimSpace name = "" ∨ trimSpace name ∈ clusterCandidates then clusterCandidates
  else clusterCandidates ++ [trimSpace name]

/-- The clusters of the route, as it lists them: none where it is not answered. -/
def routeClusters (admin : Admin) (topicName : String) : List String :=
  match (exec admin.toLower (admin.examineTopicRouteInfo topicName)).2 with
  | .ok (some brokerDatas) => brokerDatas.filterMap fun broker => broker.map BrokerData.cluster
  | _ => []

/-- The clusters there are. -/
def allClusters (admin : Admin) : List String :=
  match (exec admin.toLower admin.examineBrokerClusterInfo).2 with
  | .ok (some names) => names
  | _ => []

/-- A cluster is named; the name an overview gives a cluster without one does not count. -/
def Named (clusterName : String) : Prop :=
  trimSpace clusterName ≠ "" ∧ trimSpace clusterName ≠ "默认集群"

instance (clusterName : String) : Decidable (Named clusterName) := inferInstanceAs (Decidable (_ ∧ _))

/-- `clusterCandidates`, once the route has been read. -/
def routeCandidates (admin : Admin) (topicName clusterName : String) : List String :=
  (routeClusters admin topicName).foldl appendCluster
    (if Named clusterName then appendCluster [] (trimSpace clusterName) else [])

/-- `clusterCandidates`: every cluster where neither a name nor the route gives one. -/
def clusterCandidates (admin : Admin) (topicName clusterName : String) : List String :=
  let candidates := routeCandidates admin topicName clusterName
  if candidates = [] then (allClusters admin).foldl appendCluster [] else candidates

/-- A delete on a cluster, with its answer. -/
abbrev Delete := String × Except String Unit

/-- The loop over the candidates: the deletes it calls for, and `lastErr`, unless one returns. -/
def tryCandidates (admin : Admin) (topicName : String) (lastErr : Option String) :
    List String → List Delete × Option (Option String)
  | [] => ([], some lastErr)
  | candidate :: rest =>
    let (calls, answer) := exec admin.toLower (admin.deleteTopic topicName candidate)
    match answer with
    | .ok _ => (calls.map (candidate, ·), none)
    | .error callErr =>
      -- an error that says the topic is not there goes on; so does every other
      let (more, left) := tryCandidates admin topicName (some callErr) rest
      (calls.map (candidate, ·) ++ more, left)

/-- What `DeleteTopic` does and returns. -/
structure Outcome where
  deletes : List Delete
  err : Option String

/-- `DeleteTopic` -/
def deleteTopic (admin : Admin) (topicName clusterName : String) : Outcome :=
  if trimSpace topicName = "" then ⟨[], some "删除 Topic 失败: Topic 名称不能为空"⟩
  else
    let candidates := clusterCandidates admin (trimSpace topicName) clusterName
    if candidates = [] then ⟨[], some "删除 Topic 失败: 未找到可用集群，请先检查连接状态"⟩
    else
      match tryCandidates admin (trimSpace topicName) none candidates with
      | (deletes, none) => ⟨deletes, none⟩
      | (deletes, some (some lastErr)) =>
        ⟨deletes, some ("删除 Topic 失败: 已尝试集群 " ++ String.intercalate ", " candidates ++
          "，最后错误: " ++ lastErr)⟩
      | (deletes, some none) =>
        ⟨deletes, some ("删除 Topic 失败: 未能在集群 " ++ String.intercalate ", " candidates ++
          " 中删除")⟩

/-! ## Where a topic is deleted -/

/-- A delete on the cluster is answered without an error. -/
def Outcome.Deleted (outcome : Outcome) (cluster : String) : Prop :=
  (cluster, .ok ()) ∈ outcome.deletes

/-- The clusters a topic is to be deleted on: what the route lists, less the blank names. -/
def listed (admin : Admin) (topicName : String) : List String :=
  ((routeClusters admin (trimSpace topicName)).map trimSpace).filter (· ≠ "")

/-- **Deleted where it is asked**: on the named cluster and on no other, and where none is named on
    every cluster of the route, unless an error is returned. -/
def WhereAsked (admin : Admin) (topicName clusterName : String) : Prop :=
  let outcome := deleteTopic admin topicName clusterName
  if Named clusterName then
    (∀ cluster, outcome.Deleted cluster → cluster = trimSpace clusterName) ∧
      (outcome.err = none → outcome.Deleted (trimSpace clusterName))
  else outcome.err = none → ∀ cluster ∈ listed admin topicName, outcome.Deleted cluster

/-- The cluster can delete the topic. -/
def Deletable (admin : Admin) (topicName cluster : String) : Prop :=
  (admin.deleteTopic topicName cluster).Succeeds admin.toLower

/-- No second cluster comes into it: the named one deletes the topic or no other of the route can;
    and where none is named the route has one cluster, or none that can. -/
def Unrivalled (admin : Admin) (topicName clusterName : String) : Prop :=
  if Named clusterName then
    Deletable admin (trimSpace topicName) (trimSpace clusterName) ∨
      ∀ cluster ∈ listed admin topicName, cluster ≠ trimSpace clusterName →
        ¬ Deletable admin (trimSpace topicName) cluster
  else
    (∀ one ∈ listed admin topicName, ∀ other ∈ listed admin topicName, one = other) ∨
      ∀ cluster ∈ listed admin topicName, ¬ Deletable admin (trimSpace topicName) cluster

/-! ## The loop -/

section Loop

variable {admin : Admin} {topicName candidate : String} (lastErr : Option String)
  (rest : List String)

/-- A candidate that can delete ends the loop. -/
theorem tryCandidates_of_succeeds (h : Deletable admin topicName candidate) :
    (tryCandidates admin topicName lastErr (candidate :: rest)).2 = none ∧
      ∀ cluster, (cluster, .ok ()) ∈ (tryCandidates admin topicName lastErr (candidate :: rest)).1 ↔
        cluster = candidate := by
  rw [Deletable, ← exec_ok_iff_succeeds] at h
  have hmem := exec_ok_iff_mem.mpr h
  simp [tryCandidates, h, hmem, eq_comm]

/-- A candidate that cannot is passed over. -/
theorem tryCandidates_of_fails (h : ¬ Deletable admin topicName candidate) :
    ∃ callErr, (tryCandidates admin topicName lastErr (candidate :: rest)).2 =
        (tryCandidates admin topicName (some callErr) rest).2 ∧
      ∀ cluster, (cluster, .ok ()) ∈ (tryCandidates admin topicName lastErr (candidate :: rest)).1 ↔
        (cluster, .ok ()) ∈ (tryCandidates admin topicName (some callErr) rest).1 := by
  rw [Deletable, ← exec_ok_iff_succeeds] at h
  have hmem := mt exec_ok_iff_mem.mp h
  cases hanswer : (exec admin.toLower (admin.deleteTopic topicName candidate)).2 with
  | ok value => exact absurd hanswer h
  | error callErr =>
    refine ⟨callErr, ?_, ?_⟩
    · simp [tryCandidates, hanswer]
    · intro cluster
      simp [tryCandidates, hanswer, hmem]

end Loop

/-- **The loop**: it deletes on the first candidate that can, and returns an error where none can. -/
theorem tryCandidates_deletes (admin : Admin) (topicName : String) (lastErr : Option String)
    (candidates : List String) :
    ((tryCandidates admin topicName lastErr candidates).2 = none ↔
      ∃ c ∈ candidates, Deletable admin topicName c) ∧
    ∀ cluster, (cluster, .ok ()) ∈ (tryCandidates admin topicName lastErr candidates).1 ↔
      FirstOf (Deletable admin topicName) candidates cluster := by
  induction candidates generalizing lastErr with
  | nil => simp [tryCandidates, FirstOf]
  | cons candidate rest ih =>
    by_cases h : Deletable admin topicName candidate
    · obtain ⟨hnone, hdeletes⟩ := tryCandidates_of_succeeds lastErr rest h
      refine ⟨by simp [hnone, h], fun cluster => ?_⟩
      rw [hdeletes, firstOf_cons_of_pos h]
    · obtain ⟨callErr, hleft, hdeletes⟩ := tryCandidates_of_fails lastErr rest h
      obtain ⟨ihleft, ihdeletes⟩ := ih (some callErr)
      refine ⟨?_, fun cluster => ?_⟩
      · rw [hleft, ihleft]
        simp [h]
      · rw [hdeletes, ihdeletes, firstOf_cons_of_neg h]

/-! ## The candidates -/

theorem mem_appendCluster {candidates : List String} {name cluster : String} :
    cluster ∈ appendCluster candidates name ↔
      cluster ∈ candidates ∨ cluster = trimSpace name ∧ cluster ≠ "" := by
  unfold appendCluster
  split <;> rename_i h
  · refine ⟨.inl, ?_⟩
    rintro (hmem | ⟨rfl, hne⟩)
    · exact hmem
    · exact h.resolve_left hne
  · rw [not_or] at h
    simp only [List.mem_append, List.mem_singleton]
    constructor
    · rintro (hmem | rfl)
      · exact .inl hmem
      · exact .inr ⟨rfl, h.1⟩
    · rintro (hmem | ⟨rfl, -⟩)
      · exact .inl hmem
      · exact .inr rfl

/-- The candidates that a list of names adds. -/
theorem mem_foldl_appendCluster {names candidates : List String} {cluster : String} :
    cluster ∈ names.foldl appendCluster candidates ↔
      cluster ∈ candidates ∨ cluster ∈ (names.map trimSpace).filter (· ≠ "") := by
  induction names generalizing candidates with
  | nil => simp
  | cons name rest ih =>
    rw [List.foldl_cons, ih, mem_appendCluster]
    simp only [List.map_cons, List.mem_filter, List.mem_cons, decide_eq_true_eq]
    rw [or_assoc, or_and_right]

/-- What is already a candidate stays in front. -/
theorem prefix_foldl_appendCluster (names candidates : List String) :
    candidates <+: names.foldl appendCluster candidates := by
  induction names generalizing candidates with
  | nil => exact List.prefix_rfl
  | cons name rest ih =>
    apply List.IsPrefix.trans _ (ih _)
    unfold appendCluster
    split
    · exact List.prefix_rfl
    · exact List.prefix_append _ _

/-- Without a name the candidates are the route's clusters, where it lists any. -/
theorem mem_clusterCandidates_of_not_named {admin : Admin} {topicName clusterName cluster : String}
    (hnamed : ¬ Named clusterName) (hlisted : listed admin topicName ≠ []) :
    cluster ∈ clusterCandidates admin (trimSpace topicName) clusterName ↔
      cluster ∈ listed admin topicName := by
  have hmem : ∀ c, c ∈ routeCandidates admin (trimSpace topicName) clusterName ↔
      c ∈ listed admin topicName := by
    intro c
    rw [routeCandidates, if_neg hnamed, mem_foldl_appendCluster, listed]
    simp
  have hne : routeCandidates admin (trimSpace topicName) clusterName ≠ [] := by
    obtain ⟨first, hfirst⟩ := List.exists_mem_of_ne_nil _ hlisted
    exact List.ne_nil_of_mem ((hmem first).mpr hfirst)
  rw [clusterCandidates, if_neg hne, hmem]

/-- With a name it comes first, and the route's other clusters follow. -/
theorem clusterCandidates_of_named (admin : Admin) (topicName : String) {clusterName : String}
    (hnamed : Named clusterName) :
    ∃ others, clusterCandidates admin (trimSpace topicName) clusterName =
        trimSpace clusterName :: others ∧
      ∀ cluster, cluster ∈ trimSpace clusterName :: others ↔
        cluster = trimSpace clusterName ∨ cluster ∈ listed admin topicName := by
  have hsingle : appendCluster [] (trimSpace clusterName) = [trimSpace clusterName] := by
    simp [appendCluster, hnamed.1]
  have hcandidates : routeCandidates admin (trimSpace topicName) clusterName =
      (routeClusters admin (trimSpace topicName)).foldl appendCluster [trimSpace clusterName] := by
    rw [routeCandidates, if_pos hnamed, hsingle]
  obtain ⟨others, hothers⟩ := prefix_foldl_appendCluster
    (routeClusters admin (trimSpace topicName)) [trimSpace clusterName]
  rw [List.singleton_append, ← hcandidates] at hothers
  refine ⟨others, ?_, fun cluster => ?_⟩
  · rw [clusterCandidates, if_neg (by simp [← hothers]), hothers]
  · rw [hothers, hcandidates, mem_foldl_appendCluster, List.mem_singleton, listed]

/-! ## Where a topic is deleted -/

/-- `DeleteTopic` deletes on the first candidate that can, and returns nil where one can. -/
theorem deleteTopic_spec (admin : Admin) {topicName : String} (clusterName : String)
    (htopic : trimSpace topicName ≠ "") :
    ((deleteTopic admin topicName clusterName).err = none ↔
      ∃ c ∈ clusterCandidates admin (trimSpace topicName) clusterName,
        Deletable admin (trimSpace topicName) c) ∧
    ∀ cluster, (deleteTopic admin topicName clusterName).Deleted cluster ↔
      FirstOf (Deletable admin (trimSpace topicName))
        (clusterCandidates admin (trimSpace topicName) clusterName) cluster := by
  obtain ⟨hleft, hdeletes⟩ := tryCandidates_deletes admin (trimSpace topicName) none
    (clusterCandidates admin (trimSpace topicName) clusterName)
  simp only [Outcome.Deleted, deleteTopic, if_neg htopic]
  split <;> rename_i hnone
  · simp [hnone, FirstOf]
  · rw [← hleft]
    constructor
    · split <;> rename_i htry <;> simp [htry]
    · intro cluster
      refine Iff.trans ?_ (hdeletes cluster)
      split <;> rename_i htry <;> simp [htry]

/-- With a name: the first candidate to delete is the named one, unless that one cannot. -/
private theorem named_iff {admin : Admin} {topicName clusterName : String}
    (hnamed : Named clusterName) :
    let candidates := clusterCandidates admin (trimSpace topicName) clusterName
    let first := FirstOf (Deletable admin (trimSpace topicName)) candidates
    ((∀ cluster, first cluster → cluster = trimSpace clusterName) ∧
        ((∃ c ∈ candidates, Deletable admin (trimSpace topicName) c) → first (trimSpace clusterName))) ↔
      Deletable admin (trimSpace topicName) (trimSpace clusterName) ∨
        ∀ cluster ∈ listed admin topicName, cluster ≠ trimSpace clusterName →
          ¬ Deletable admin (trimSpace topicName) cluster := by
  intro candidates first
  obtain ⟨others, hsplit, hmem⟩ := clusterCandidates_of_named admin topicName hnamed
  have hcandidates : candidates = trimSpace clusterName :: others := hsplit
  rw [← hcandidates] at hmem
  by_cases hself : Deletable admin (trimSpace topicName) (trimSpace clusterName)
  · have hfirst : ∀ cluster, first cluster ↔ cluster = trimSpace clusterName := by
      intro cluster
      change FirstOf _ candidates cluster ↔ _
      rw [hcandidates, firstOf_cons_of_pos hself]
    simp [hself, hfirst]
  · -- the named one cannot, so whatever is deleted is deleted elsewhere
    rw [or_iff_right hself]
    constructor
    · rintro ⟨honly, -⟩ cluster hlisted - hdeletable
      obtain ⟨other, hother, -⟩ := exists_firstOf ⟨cluster, (hmem _).mpr (.inr hlisted), hdeletable⟩
      exact hself (honly other hother ▸ hother.mem.2)
    · intro hnone
      have hfails : ∀ c ∈ candidates, ¬ Deletable admin (trimSpace topicName) c := by
        intro c hc
        by_cases hc' : c = trimSpace clusterName
        · exact hc' ▸ hself
        · exact hnone c (((hmem c).mp hc).resolve_left hc') hc'
      refine ⟨fun cluster h => absurd h.mem.2 (hfails _ h.mem.1), ?_⟩
      rintro ⟨c, hc, hdeletable⟩
      exact absurd hdeletable (hfails c hc)

/-- Without a name: a success hides every other cluster of the route. -/
private theorem unnamed_iff {admin : Admin} {topicName clusterName : String}
    (hnamed : ¬ Named clusterName) :
    let candidates := clusterCandidates admin (trimSpace topicName) clusterName
    ((∃ c ∈ candidates, Deletable admin (trimSpace topicName) c) →
        ∀ cluster ∈ listed admin topicName,
          FirstOf (Deletable admin (trimSpace topicName)) candidates cluster) ↔
      (∀ one ∈ listed admin topicName, ∀ other ∈ listed admin topicName, one = other) ∨
        ∀ cluster ∈ listed admin topicName, ¬ Deletable admin (trimSpace topicName) cluster := by
  intro candidates
  by_cases hlisted : listed admin topicName = []
  · simp [hlisted]
  have hmem : ∀ c, c ∈ candidates ↔ c ∈ listed admin topicName := fun c =>
    mem_clusterCandidates_of_not_named hnamed hlisted
  by_cases hsome : ∃ c ∈ candidates, Deletable admin (trimSpace topicName) c
  · obtain ⟨first, hfirst, honly⟩ := exists_firstOf hsome
    rw [forall_prop_of_true hsome]
    constructor
    · intro hall
      left
      intro one hone other hother
      rw [honly one (hall one hone), honly other (hall other hother)]
    · rintro (hsame | hnone) cluster hcluster
      · rw [hsame cluster hcluster first ((hmem _).mp hfirst.mem.1)]
        exact hfirst
      · exact absurd hfirst.mem.2 (hnone first ((hmem _).mp hfirst.mem.1))
  · refine ⟨fun _ => .inr ?_, fun _ h => absurd h hsome⟩
    intro cluster hcluster hdeletable
    exact hsome ⟨cluster, (hmem _).mpr hcluster, hdeletable⟩

/-- **Deleted where it is asked**: exactly where no second cluster comes into it. -/
theorem deleteTopic_whereAsked_iff (admin : Admin) (topicName clusterName : String) :
    WhereAsked admin topicName clusterName ↔
      trimSpace topicName = "" ∨ Unrivalled admin topicName clusterName := by
  by_cases htopic : trimSpace topicName = ""
  · simp [htopic, WhereAsked, deleteTopic, Outcome.Deleted]
  obtain ⟨herr, hdeletes⟩ := deleteTopic_spec admin clusterName htopic
  rw [WhereAsked, Unrivalled, or_iff_right htopic]
  simp only [hdeletes, herr]
  by_cases hnamed : Named clusterName
  · rw [if_pos hnamed, if_pos hnamed]
    exact named_iff hnamed
  · rw [if_neg hnamed, if_neg hnamed]
    exact unnamed_iff hnamed

/-- A topic on two clusters, of which the first refuses to delete it. -/
def eastRefuses : Admin where
  toLower := Char.toLower
  examineTopicRouteInfo _ := answered (.ok (some [some ⟨"east"⟩, some ⟨"west"⟩]))
  examineBrokerClusterInfo := answered (.ok (some ["east", "west"]))
  deleteTopic _ cluster := answered (if cluster = "east" then .error "permission denied" else .ok ())

/-- **Deleted elsewhere**: asked for on a cluster that refuses, the topic is deleted on the other one;
    and without a name one success of two is reported as all of them. -/
theorem eastRefuses_not_whereAsked :
    ¬ WhereAsked eastRefuses "orders" "east" ∧ ¬ WhereAsked eastRefuses "orders" "" := by
  have hruns : ((deleteTopic eastRefuses "orders" "east").deletes =
        [("east", .error "permission denied"), ("west", .ok ())] ∧
      (deleteTopic eastRefuses "orders" "").deletes =
        [("east", .error "permission denied"), ("west", .ok ())] ∧
      (deleteTopic eastRefuses "orders" "").err = none) ∧
      (Named "east" ∧ trimSpace "east" ≠ "west") ∧
      ¬ Named "" ∧ "east" ∈ listed eastRefuses "orders" := by decide +kernel
  obtain ⟨⟨helsewhere, hhidden⟩, hnamed, hblank⟩ := hruns
  constructor
  · rw [WhereAsked, if_pos hnamed.1]
    rintro ⟨honly, -⟩
    exact hnamed.2 (honly "west" (by simp [Outcome.Deleted, helsewhere])).symm
  · rw [WhereAsked, if_neg hblank.1]
    intro hall
    have heast := hall hhidden.2 "east" hblank.2
    simp [Outcome.Deleted, hhidden.1] at heast

end MqStudio.Driver.Rocket.TopicMutation
