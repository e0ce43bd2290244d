import MqStudio.Connection.Forms

/-!
# The Access Rules of Kafka

`internal/driver/kafka/acl.go` and `aclKafkaDraft.ts`: how the driver reads a rule of the cluster as
a policy, how it turns a policy into the rule it creates, and how the form writes a policy. All
three carry the pattern type of a resource as a star behind its name.

A text is its runes. The client's builder is a record of what it was given; what the client makes of
it, `Kadm`, is a parameter with what its documentation says.

## Main results

- `splitResource_label`: what is read of a label.
- `created_of_builderFor`: what is created for a policy.
- `rules_faithful_iff`: the rules of a cluster come back as themselves, each with a policy of its own,
  and what a form asks for is created, exactly where no literal name ends in a star or in a blank.
- `literal_readAsPrefix`: the literal group `batch*` comes back as everything that starts with `batch`.
-/

namespace MqStudio.Driver.Kafka.Access

open MqStudio.Lib
open MqStudio.Connection.Forms (isWhiteSpace)
open MqStudio.Storage (isSpace)

/-- A string, by its runes. -/
abbrev Text := List Char

/-! ## Rules of the cluster -/

/-- `kmsg.ACLResourceType` -/
inductive ACLResourceType where
  | unknown
  | any
  | topic
  | group
  | cluster
  | transactionalId
  | delegationToken
  | user
  deriving DecidableEq

/-- `kadm.ACLPattern` -/
inductive ACLPattern where
  | unknown
  | any
  | match
  | literal
  | prefixed
  deriving DecidableEq

/-- `kadm.ACLOperation` -/
inductive ACLOperation where
  | unknown
  | any
  | all
  | read
  | write
  | create
  | delete
  | alter
  | describe
  | clusterAction
  | describeConfigs
  | alterConfigs
  | idempotentWrite
  deriving DecidableEq

/-- `kmsg.ACLPermissionType` -/
inductive ACLPermissionType where
  | unknown
  | any
  | deny
  | allow
  deriving DecidableEq

/-- `kadm.DescribedACL` -/
structure DescribedACL where
  principal : Text
  host : Text
  type : ACLResourceType
  name : Text
  pattern : ACLPattern
  operation : ACLOperation
  permission : ACLPermissionType
  deriving DecidableEq

/-- `knownOperations` -/
def knownOperations : List (Text × ACLOperation) :=
  [("ALL".toList, .all), ("READ".toList, .read), ("WRITE".toList, .write),
    ("CREATE".toList, .create), ("DELETE".toList, .delete), ("ALTER".toList, .alter),
    ("DESCRIBE".toList, .describe), ("DESCRIBE_CONFIGS".toList, .describeConfigs),
    ("ALTER_CONFIGS".toList, .alterConfigs), ("IDEMPOTENT_WRITE".toList, .idempotentWrite)]

/-- `resourceTopic` and its like, for every kind of resource. -/
def resourceKind : ACLResourceType → Text
  | .topic => "topic".toList
  | .group => "group".toList
  | .cluster => "cluster".toList
  | .transactionalId => "transactionalId".toList
  | .delegationToken => "delegationToken".toList
  | .user => "user".toList
  | .unknown => "unknown".toList
  | .any => "any".toList

/-- `resourceCluster` -/
def resourceCluster : Text := resourceKind .cluster

/-- `KnownACLResourceKinds` -/
def knownACLResourceKinds : List ACLResourceType := [.topic, .group, .cluster, .transactionalId]

/-- `anyHost` -/
def anyHost : Text := ['*']

/-- The name that the cluster has. -/
def clusterName : Text := "kafka-cluster".toList

/-! ## The client -/

/-- `kadm.ACLBuilder`, as a record of what it was given. -/
structure ACLBuilder where
  operations : List ACLOperation
  allow : List Text
  allowHosts : List Text
  deny : List Text
  denyHosts : List Text
  pattern : ACLPattern
  topics : List Text
  groups : List Text
  clusters : List Text
  transactionalIDs : List Text
  delegationTokens : List Text

/-- `kadm.NewACLs` -/
def newACLs : ACLBuilder :=
  { operations := [], allow := [], allowHosts := [], deny := [], denyHosts := [],
    pattern := .literal, topics := [], groups := [], clusters := [], transactionalIDs := [],
    delegationTokens := [] }

/-- The resources of a kind. -/
def ACLBuilder.resources (b : ACLBuilder) : ACLResourceType → List Text
  | .topic => b.topics
  | .group => b.groups
  | .cluster => b.clusters
  | .transactionalId => b.transactionalIDs
  | .delegationToken => b.delegationTokens
  | _ => []

/-- What the client makes of a builder, and how it and the language spell. -/
structure Kadm where
  string : ACLOperation → Text
  toUpper : Char → Char
  validateCreate : ACLBuilder → Bool
  createACLs : ACLBuilder → List DescribedACL

/-- What a builder must not hold: an operation or a pattern that only a filter may have, and hosts
    without principals. -/
structure ACLBuilder.Creatable (b : ACLBuilder) : Prop where
  operations : ACLOperation.unknown ∉ b.operations ∧ ACLOperation.any ∉ b.operations
  pattern : b.pattern = .literal ∨ b.pattern = .prefixed
  allow : b.allowHosts ≠ [] → b.allow ≠ []
  deny : b.denyHosts ≠ [] → b.deny ≠ []

/-- Every principal with every host, every resource and every operation. -/
structure ACLBuilder.Combines (b : ACLBuilder) (acl : DescribedACL) : Prop where
  who : (acl.permission = .allow ∧ acl.principal ∈ b.allow ∧ acl.host ∈ b.allowHosts) ∨
    (acl.permission = .deny ∧ acl.principal ∈ b.deny ∧ acl.host ∈ b.denyHosts)
  resource : acl.name ∈ b.resources acl.type
  pattern : acl.pattern = b.pattern
  operation : acl.operation ∈ b.operations

/-- What the documentation says: how operations are spelled, what may be created, and that a builder
    multiplies what it was given. -/
structure Kadm.Documented (k : Kadm) : Prop where
  string : ∀ known ∈ knownOperations, k.string known.2 = known.1
  toUpper : ∀ c, ('A' ≤ c ∧ c ≤ 'Z') ∨ c = '_' → k.toUpper c = c
  validateCreate : ∀ b : ACLBuilder, b.Creatable → k.validateCreate b = true
  createACLs : ∀ (b : ACLBuilder) (acl : DescribedACL), acl ∈ k.createACLs b ↔ b.Combines acl

/-! ## Reading a rule -/

/-- `model.AccessPolicy` -/
structure AccessPolicy where
  resource : Text
  actions : List Text
  effect : Text
  sourceIPs : List Text
  deriving DecidableEq

/-- `resourceLabel` -/
def resourceLabel (described : DescribedACL) : Text :=
  let kind := resourceKind described.type
  let name := if described.pattern = .prefixed then described.name ++ ['*'] else described.name
  if kind = resourceCluster then kind else kind ++ ':' :: name

/-- `effectOf` -/
def effectOf (permission : ACLPermissionType) : Text :=
  if permission = .deny then "Deny".toList else "Allow".toList

/-- `policyFrom` -/
def policyFrom (k : Kadm) (described : DescribedACL) : AccessPolicy where
  resource := resourceLabel described
  actions := [k.string described.operation]
  effect := effectOf described.permission
  sourceIPs :=
    if described.host ≠ [] ∧ described.host ≠ anyHost then [described.host] else []

/-! ## Writing a rule -/

/-- The errors of `builderFor`. -/
inductive BuildError where
  /-- "at least one operation is required" -/
  | noOperation
  /-- "unknown operation %q" -/
  | unknownOperation (action : Text)
  /-- "unknown resource %q" -/
  | unknownResource (resource : Text)
  /-- what `ValidateCreate` says -/
  | refused
  deriving DecidableEq

/-- `strings.TrimSpace` -/
def trimSpace (text : Text) : Text := Words.trim isSpace text

/-- `splitResource`: the kind, the name, and whether the name is only how names start. -/
def splitResource (resource : Text) : Text × Text × Bool :=
  let resource := trimSpace resource
  if resource = resourceCluster then (resourceCluster, clusterName, false)
  else if ':' ∉ resource then ([], [], false)
  else
    let kind := resource.takeWhile (· ≠ ':')
    let name := (resource.dropWhile (· ≠ ':')).drop 1
    if name.getLast? = some '*' ∧ 1 < name.length then (kind, name.dropLast, true)
    else (kind, name, false)

/-- The operation of one verb. -/
def operationOf (k : Kadm) (action : Text) : Option ACLOperation :=
  (knownOperations.find? fun known => known.1 = (trimSpace action).map k.toUpper).map Prod.snd

/-- The loop of `operationsOf`. -/
def operationsLoop (k : Kadm) : List Text → Except BuildError (List ACLOperation)
  | [] => .ok []
  | action :: rest =>
    match operationOf k action with
    | none => .error (.unknownOperation action)
    | some operation => (operationsLoop k rest).map (operation :: ·)

/-- `operationsOf` -/
def operationsOf (k : Kadm) (actions : List Text) : Except BuildError (List ACLOperation) :=
  if actions = [] then .error .noOperation else operationsLoop k actions

/-- `strings.EqualFold(.., "Deny")`: no letter of it folds to any but its other case. -/
def isDeny (effect : Text) : Bool := effect.map Char.toLower = "deny".toList

/-- The resource that a builder is given, by its kind. -/
def ACLBuilder.withResource (b : ACLBuilder) (kind name : Text) : Option ACLBuilder :=
  if kind = resourceKind .topic then some { b with topics := [name] }
  else if kind = resourceKind .group then some { b with groups := [name] }
  else if kind = resourceKind .cluster then some { b with clusters := [clusterName] }
  else if kind = resourceKind .transactionalId then some { b with transactionalIDs := [name] }
  else if kind = resourceKind .delegationToken then some { b with delegationTokens := [name] }
  else none

/-- Whom a builder is for. -/
def ACLBuilder.withSubject (b : ACLBuilder) (effect subject : Text) (hosts : List Text) :
    ACLBuilder :=
  if isDeny effect then { b with deny := [subject], denyHosts := hosts }
  else { b with allow := [subject], allowHosts := hosts }

/-- `builderFor` -/
def builderFor (k : Kadm) (subject : Text) (policy : AccessPolicy) :
    Except BuildError ACLBuilder :=
  match operationsOf k policy.actions with
  | .error err => .error err
  | .ok operations =>
    let hosts := if policy.sourceIPs = [] then [anyHost] else policy.sourceIPs
    let builder := { newACLs with operations := operations }.withSubject policy.effect subject hosts
    let (kind, name, prefixed) := splitResource policy.resource
    let builder := { builder with pattern := if prefixed then .prefixed else .literal }
    match builder.withResource kind name with
    | none => .error (.unknownResource policy.resource)
    | some builder => if k.validateCreate builder then .ok builder else .error .refused

/-! ## The form -/

/-- `trim` -/
def trim (text : Text) : Text := Words.trim isWhiteSpace text

/-- The effect of a draft. -/
inductive Effect where
  | allow
  | deny
  deriving DecidableEq

/-- Its text. -/
def Effect.text : Effect → Text
  | .allow => "Allow".toList
  | .deny => "Deny".toList

/-- What it asks the cluster for. -/
def Effect.permission : Effect → ACLPermissionType
  | .allow => .allow
  | .deny => .deny

/-- `AclPolicyDraft` -/
structure AclPolicyDraft where
  kind : Text
  name : Text
  prefixed : Bool
  operations : List Text
  effect : Effect
  host : Text

/-- `AclRuleDraft` -/
structure AclRuleDraft where
  subject : Text
  policies : List AclPolicyDraft

/-- What `validateAclRuleDraft` says. -/
inductive Problem where
  | subjectRequired
  | subjectShape
  | policyRequired
  | operationRequired
  | nameRequired
  | prefixEmpty
  deriving DecidableEq

/-- A rune that a dot of a pattern does not stand for. -/
def isLineTerminator (c : Char) : Bool :=
  c = '\n' || c = '\r' || c.val = 0x2028 || c.val = 0x2029

/-- `PRINCIPAL`: letters, a colon, and something behind it on one line. -/
def isPrincipal (text : Text) : Bool :=
  let behind := text.dropWhile Char.isAlpha
  text.takeWhile Char.isAlpha ≠ [] && behind.head? = some ':' && behind.drop 1 ≠ [] &&
    (behind.drop 1).all fun c => !isLineTerminator c

/-- What is wrong with one policy. -/
def validatePolicy (policy : AclPolicyDraft) : Option Problem :=
  if policy.operations = [] then some .operationRequired
  else if policy.kind ≠ resourceCluster ∧ trim policy.name = [] then some .nameRequired
  else if policy.prefixed ∧ trim policy.name = [] then some .prefixEmpty
  else none

/-- `validateAclRuleDraft` -/
def validateAclRuleDraft (draft : AclRuleDraft) : Option Problem :=
  if trim draft.subject = [] then some .subjectRequired
  else if !isPrincipal (trim draft.subject) then some .subjectShape
  else if draft.policies = [] then some .policyRequired
  else draft.policies.findSome? validatePolicy

/-- `resourceOf` -/
def resourceOf (policy : AclPolicyDraft) : Text :=
  if policy.kind = resourceCluster then resourceCluster
  else policy.kind ++ ':' :: (trim policy.name ++ if policy.prefixed then ['*'] else [])

/-- One policy of `toAccessRule`. -/
def toAccessPolicy (policy : AclPolicyDraft) : AccessPolicy where
  resource := resourceOf policy
  actions := policy.operations
  effect := policy.effect.text
  sourceIPs := if trim policy.host = [] then [] else [trim policy.host]

/-- `toAccessRule`: the subject and its policies. -/
def toAccessRule (draft : AclRuleDraft) : Text × List AccessPolicy :=
  (trim draft.subject, draft.policies.map toAccessPolicy)

/-! ## What a label is read as -/

/-- A name that stays as it is without a star behind it. -/
def Kept (name : Text) : Prop :=
  name.rdropWhile isSpace = name ∧ ¬ (name.getLast? = some '*' ∧ 1 < name.length)

instance (name : Text) : Decidable (Kept name) := inferInstanceAs (Decidable (_ ∧ _))

/-- A kind that may stand before a colon. -/
structure PlainKind (kind : Text) : Prop where
  colon : ':' ∉ kind
  space : ∀ c, kind.head? = some c → ¬ isSpace c = true

theorem plainKind (type : ACLResourceType) : PlainKind (resourceKind type) := by
  cases type <;> exact ⟨by decide, fun c hc => by cases hc; decide⟩

theorem trimSpace_label {kind : Text} (hkind : PlainKind kind) (name : Text) :
    trimSpace (kind ++ ':' :: name) = kind ++ ':' :: name.rdropWhile isSpace := by
  have hcolon : ¬ isSpace ':' = true := by decide
  have hfront : (kind ++ ':' :: name).dropWhile isSpace = kind ++ ':' :: name := by
    cases kind with
    | nil => rw [List.nil_append, List.dropWhile_cons_of_neg hcolon]
    | cons c more =>
      rw [List.cons_append, List.dropWhile_cons_of_neg (hkind.space c rfl)]
  rw [trimSpace, Words.trim, hfront, Words.rdropWhile_append_cons hcolon]

/-- **What is read of a label**: blanks behind the name go, and then a star, if it is not all. -/
theorem splitResource_label {kind : Text} (hkind : PlainKind kind) (name : Text) :
    splitResource (kind ++ ':' :: name) =
      if (name.rdropWhile isSpace).getLast? = some '*' ∧ 1 < (name.rdropWhile isSpace).length
      then (kind, (name.rdropWhile isSpace).dropLast, true)
      else (kind, name.rdropWhile isSpace, false) := by
  have hcluster : kind ++ ':' :: name.rdropWhile isSpace ≠ resourceCluster := by
    intro h
    have hmem : ':' ∈ resourceCluster := by
      rw [← h]
      simp
    revert hmem
    decide
  rw [splitResource, trimSpace_label hkind]
  simp only
  rw [if_neg hcluster, if_neg (by simp), Words.takeWhile_cut hkind.colon,
    Words.dropWhile_cut hkind.colon]

theorem splitResource_literal_iff {kind : Text} (hkind : PlainKind kind) (name : Text) :
    splitResource (kind ++ ':' :: name) = (kind, name, false) ↔ Kept name := by
  rw [splitResource_label hkind]
  split
  · rename_i hstar
    constructor
    · intro h
      simp at h
    · rintro ⟨hsame, hplain⟩
      rw [hsame] at hstar
      exact absurd hstar hplain
  · rename_i hplain
    simp only [Prod.mk.injEq, true_and, and_true]
    constructor
    · intro hsame
      rw [hsame] at hplain
      exact ⟨hsame, hplain⟩
    · intro h
      exact h.1

/-- A name with a star behind it is read as what names start with. -/
theorem splitResource_prefixed {kind name : Text} (hkind : PlainKind kind) (hname : name ≠ []) :
    splitResource (kind ++ ':' :: (name ++ ['*'])) = (kind, name, true) := by
  have hstar : ¬ isSpace '*' = true := by decide
  have hlong := List.length_pos_of_ne_nil hname
  rw [splitResource_label hkind, List.rdropWhile_concat_neg _ _ _ hstar, if_pos]
  · rw [List.dropLast_concat]
  · refine ⟨List.getLast?_concat, ?_⟩
    rw [List.length_append, List.length_singleton]
    omega

theorem splitResource_cluster :
    splitResource resourceCluster = (resourceCluster, clusterName, false) := by
  decide

/-! ## What a policy is created as -/

section Created

variable {k : Kadm}

/-- The table is read back by its own verbs, none of which asks for a filter. -/
theorem knownOperations_read : ∀ known ∈ knownOperations,
    trimSpace known.1 = known.1 ∧
      (known.1.all fun c => ('A' ≤ c ∧ c ≤ 'Z') ∨ c = '_') = true ∧
      (knownOperations.find? fun other => other.1 = known.1).map Prod.snd = some known.2 ∧
      known.2 ≠ .unknown ∧ known.2 ≠ .any := by
  decide +kernel

theorem operationOf_known (hk : k.Documented) {action : Text} {operation : ACLOperation}
    (h : (action, operation) ∈ knownOperations) : operationOf k action = some operation := by
  obtain ⟨htrim, hletters, hfind, -⟩ := knownOperations_read _ h
  have hupper : action.map k.toUpper = action := by
    have := List.map_congr_left fun c hc =>
      hk.toUpper c (of_decide_eq_true (List.all_eq_true.mp hletters c hc))
    rw [this, List.map_id']
  simp only at htrim hfind
  rw [operationOf, htrim, hupper, hfind]

/-- Verbs of the table are read, each as its own operation. -/
theorem operationsLoop_known (hk : k.Documented) {actions : List Text}
    (h : ∀ action ∈ actions, action ∈ knownOperations.map Prod.fst) :
    ∃ operations, operationsLoop k actions = .ok operations ∧
      ∀ operation, operation ∈ operations ↔
        ∃ action ∈ actions, (action, operation) ∈ knownOperations := by
  induction actions with
  | nil => exact ⟨[], rfl, by simp⟩
  | cons action rest ih =>
    obtain ⟨⟨_, operation⟩, hknown, rfl⟩ := List.mem_map.mp (h action List.mem_cons_self)
    obtain ⟨operations, hloop, hmem⟩ := ih fun other hother => h other (List.mem_cons_of_mem _ hother)
    have hread := operationOf_known hk hknown
    refine ⟨operation :: operations, ?_, fun other => ?_⟩
    · rw [operationsLoop, hread, hloop]
      rfl
    · rw [List.mem_cons, hmem]
      constructor
      · rintro (rfl | ⟨verb, hverb, hpair⟩)
        · exact ⟨_, List.mem_cons_self, hknown⟩
        · exact ⟨verb, List.mem_cons_of_mem _ hverb, hpair⟩
      · rintro ⟨verb, hverb, hpair⟩
        rcases List.mem_cons.mp hverb with rfl | hrest
        · have hsame := operationOf_known hk hpair
          rw [hread] at hsame
          exact .inl (Option.some.inj hsame).symm
        · exact .inr ⟨verb, hrest, hpair⟩

/-- A builder without resources is given the one of its kind. -/
theorem withResource_known {type : ACLResourceType} (htype : type ∈ knownACLResourceKinds)
    {name : Text} (hname : type = .cluster → name = clusterName) {b : ACLBuilder}
    (hempty : ∀ other, b.resources other = []) :
    ∃ b', b.withResource (resourceKind type) name = some b' ∧
      b'.operations = b.operations ∧ b'.allow = b.allow ∧ b'.allowHosts = b.allowHosts ∧
      b'.deny = b.deny ∧ b'.denyHosts = b.denyHosts ∧ b'.pattern = b.pattern ∧
      ∀ other text, text ∈ b'.resources other ↔ other = type ∧ text = name := by
  have hnone : b.topics = [] ∧ b.groups = [] ∧ b.clusters = [] ∧ b.transactionalIDs = [] ∧
      b.delegationTokens = [] :=
    ⟨hempty .topic, hempty .group, hempty .cluster, hempty .transactionalId,
      hempty .delegationToken⟩
  obtain ⟨htopics, hgroups, hclusters, htransactions, htokens⟩ := hnone
  simp only [knownACLResourceKinds, List.mem_cons, List.not_mem_nil, or_false] at htype
  rcases htype with rfl | rfl | rfl | rfl
  · refine ⟨{ b with topics := [name] }, if_pos rfl, rfl, rfl, rfl, rfl, rfl, rfl, ?_⟩
    rintro (_ | _ | _ | _ | _ | _ | _ | _) text <;> simp [ACLBuilder.resources, *]
  · refine ⟨{ b with groups := [name] }, ?_, rfl, rfl, rfl, rfl, rfl, rfl, ?_⟩
    · rw [ACLBuilder.withResource, if_neg (by decide), if_pos rfl]
    · rintro (_ | _ | _ | _ | _ | _ | _ | _) text <;> simp [ACLBuilder.resources, *]
  · refine ⟨{ b with clusters := [clusterName] }, ?_, rfl, rfl, rfl, rfl, rfl, rfl, ?_⟩
    · rw [ACLBuilder.withResource, if_neg (by decide), if_neg (by decide), if_pos rfl]
    · rw [hname rfl]
      rintro (_ | _ | _ | _ | _ | _ | _ | _) text <;> simp [ACLBuilder.resources, *]
  · refine ⟨{ b with transactionalIDs := [name] }, ?_, rfl, rfl, rfl, rfl, rfl, rfl, ?_⟩
    · rw [ACLBuilder.withResource, if_neg (by decide), if_neg (by decide), if_neg (by decide),
        if_pos rfl]
    · rintro (_ | _ | _ | _ | _ | _ | _ | _) text <;> simp [ACLBuilder.resources, *]

/-- What a policy asks for, whose resource is split. -/
structure Asked (subject : Text) (policy : AccessPolicy) (type : ACLResourceType) (name : Text)
    (pattern : ACLPattern) (acl : DescribedACL) : Prop where
  principal : acl.principal = subject
  host : acl.host ∈ if policy.sourceIPs = [] then [anyHost] else policy.sourceIPs
  permission : acl.permission = if isDeny policy.effect then .deny else .allow
  type : acl.type = type
  name : acl.name = name
  pattern : acl.pattern = pattern
  operation : ∃ action ∈ policy.actions, (action, acl.operation) ∈ knownOperations

/-- **What is created for a policy**: exactly what it asks for. -/
theorem created_of_builderFor (hk : k.Documented) (subject : Text) (policy : AccessPolicy)
    {type : ACLResourceType} {name : Text} {prefixed : Bool}
    (htype : type ∈ knownACLResourceKinds) (hname : type = .cluster → name = clusterName)
    (hsplit : splitResource policy.resource = (resourceKind type, name, prefixed))
    (hactions : policy.actions ≠ [])
    (hknown : ∀ action ∈ policy.actions, action ∈ knownOperations.map Prod.fst) :
    ∃ builder, builderFor k subject policy = .ok builder ∧ ∀ acl,
      acl ∈ k.createACLs builder ↔
        Asked subject policy type name (if prefixed then .prefixed else .literal) acl := by
  obtain ⟨operations, hloop, hmem⟩ := operationsLoop_known hk hknown
  have hoperations : operationsOf k policy.actions = .ok operations := by
    rw [operationsOf, if_neg hactions, hloop]
  have hfilters : ∀ operation ∈ operations, operation ≠ .unknown ∧ operation ≠ .any := by
    intro operation hoperation
    obtain ⟨action, -, hpair⟩ := (hmem operation).mp hoperation
    exact (knownOperations_read _ hpair).2.2.2
  generalize hhosts : (if policy.sourceIPs = [] then [anyHost] else policy.sourceIPs) = hosts
  generalize hpattern : (if prefixed then ACLPattern.prefixed else ACLPattern.literal) = pattern
  have hcreate : pattern = .literal ∨ pattern = .prefixed := by
    rw [← hpattern]
    cases prefixed <;> simp
  -- the two sides of an effect differ in whom the builder is for
  let base : ACLBuilder := { newACLs with operations := operations, pattern := pattern }
  let front := base.withSubject policy.effect subject hosts
  have hfront : front.operations = operations ∧ front.pattern = pattern ∧
      (∀ other, front.resources other = []) := by
    simp only [front, ACLBuilder.withSubject]
    split <;> exact ⟨rfl, rfl, fun other => by cases other <;> rfl⟩
  obtain ⟨builder, hbuilder, hops, hallow, hallowHosts, hdeny, hdenyHosts, hpat, hresources⟩ :=
    withResource_known htype hname hfront.2.2
  have hsame : { { newACLs with operations := operations }.withSubject policy.effect subject hosts with
      pattern := pattern } = front := by
    simp only [front, base, ACLBuilder.withSubject]
    split <;> rfl
  have hcreatable : builder.Creatable := by
    refine ⟨⟨fun h => ?_, fun h => ?_⟩, ?_, ?_, ?_⟩
    · rw [hops, hfront.1] at h
      exact (hfilters _ h).1 rfl
    · rw [hops, hfront.1] at h
      exact (hfilters _ h).2 rfl
    · rw [hpat, hfront.2.1]
      exact hcreate
    · rw [hallow, hallowHosts]
      simp only [front, ACLBuilder.withSubject]
      split
      · intro h
        exact absurd rfl h
      · intro _
        simp
    · rw [hdeny, hdenyHosts]
      simp only [front, ACLBuilder.withSubject]
      split
      · intro _
        simp
      · intro h
        exact absurd rfl h
  refine ⟨builder, ?_, fun acl => ?_⟩
  · rw [builderFor, hoperations]
    simp only [hsplit, hhosts, hpattern, hsame, hbuilder, hk.validateCreate builder hcreatable,
      if_true]
  · rw [hk.createACLs]
    have hwho : ((acl.permission = .allow ∧ acl.principal ∈ builder.allow ∧
          acl.host ∈ builder.allowHosts) ∨
        (acl.permission = .deny ∧ acl.principal ∈ builder.deny ∧ acl.host ∈ builder.denyHosts)) ↔
        acl.principal = subject ∧ acl.host ∈ hosts ∧
          acl.permission = if isDeny policy.effect then .deny else .allow := by
      rw [hallow, hallowHosts, hdeny, hdenyHosts]
      simp only [front, base, ACLBuilder.withSubject]
      split
      · simp [newACLs, and_comm, and_left_comm]
      · simp [newACLs, and_comm, and_left_comm]
    constructor
    · rintro ⟨who, resource, hacl, operation⟩
      obtain ⟨hprincipal, hhost, hpermission⟩ := hwho.mp who
      obtain ⟨hacltype, haclname⟩ := (hresources _ _).mp resource
      rw [hops, hfront.1] at operation
      rw [hpat, hfront.2.1] at hacl
      exact ⟨hprincipal, hhosts ▸ hhost, hpermission, hacltype, haclname, hacl,
        (hmem _).mp operation⟩
    · rintro ⟨hprincipal, hhost, hpermission, hacltype, haclname, hacl, operation⟩
      refine ⟨hwho.mpr ⟨hprincipal, hhosts ▸ hhost, hpermission⟩,
        (hresources _ _).mpr ⟨hacltype, haclname⟩, ?_, ?_⟩
      · rw [hpat, hfront.2.1, hacl]
      · rw [hops, hfront.1]
        exact (hmem _).mpr operation

end Created

/-! ## The rules of a cluster and the rules of a form -/

/-- A rule that the form could have asked for: a kind, an operation, an effect and a pattern that it
    offers, of a name that the cluster accepts. -/
structure DescribedACL.Offered (acl : DescribedACL) : Prop where
  type : acl.type ∈ knownACLResourceKinds
  name : acl.name ≠ []
  pattern : acl.pattern = .literal ∨ acl.pattern = .prefixed
  operation : ∃ verb, (verb, acl.operation) ∈ knownOperations
  permission : acl.permission = .allow ∨ acl.permission = .deny

/-- A policy of a form, with a kind and with operations that it offers. -/
structure AclPolicyDraft.Offered (policy : AclPolicyDraft) : Prop where
  kind : ∃ type ∈ knownACLResourceKinds, policy.kind = resourceKind type
  operations : ∀ action ∈ policy.operations, action ∈ knownOperations.map Prod.fst

/-- What a policy of a form asks for: its own kind, name, pattern, operations, effect and host,
    where no host is any. A cluster names itself. -/
structure AclPolicyDraft.Means (policy : AclPolicyDraft) (subject : Text) (acl : DescribedACL) :
    Prop where
  principal : acl.principal = subject
  host : acl.host = if trim policy.host = [] then anyHost else trim policy.host
  kind : resourceKind acl.type = policy.kind
  name : acl.name = if policy.kind = resourceCluster then clusterName else trim policy.name
  pattern : acl.pattern = if policy.prefixed then .prefixed else .literal
  operation : ∃ action ∈ policy.operations, (action, acl.operation) ∈ knownOperations
  permission : acl.permission = policy.effect.permission

/-- A builder that creates exactly the rules of a kind. -/
def Creates (k : Kadm) (subject : Text) (policy : AccessPolicy) (rules : DescribedACL → Prop) :
    Prop :=
  ∃ builder, builderFor k subject policy = .ok builder ∧
    ∀ acl, acl ∈ k.createACLs builder ↔ rules acl

/-- What the two ways of a rule owe: each rule of the cluster is written as itself and shares its
    policy with no other, and a form gets the rules that it asks for. -/
structure RulesFaithful (k : Kadm) (acls : List DescribedACL) (draft : AclRuleDraft) : Prop where
  back : ∀ acl ∈ acls, Creates k acl.principal (policyFrom k acl) (· = acl)
  apart : ∀ a ∈ acls, ∀ b ∈ acls, a.principal = b.principal → policyFrom k a = policyFrom k b →
    a = b
  asked : ∀ policy ∈ draft.policies,
    Creates k (toAccessRule draft).1 (toAccessPolicy policy) (policy.Means (toAccessRule draft).1)

/-- A rule that comes back: from a host that has a name, and of a literal name that ends in no star
    and in no blank. A cluster has its own name. -/
def DescribedACL.Plain (acl : DescribedACL) : Prop :=
  acl.host ≠ [] ∧
    if acl.type = .cluster then acl.name = clusterName ∧ acl.pattern = .literal
    else acl.pattern = .literal → Kept acl.name

/-- A policy of a form that is read as it is meant. -/
def AclPolicyDraft.Plain (policy : AclPolicyDraft) : Prop :=
  if policy.kind = resourceCluster then policy.prefixed = false
  else policy.prefixed = false → Kept (trim policy.name)

instance (acl : DescribedACL) : Decidable acl.Plain := inferInstanceAs (Decidable (_ ∧ _))

instance (policy : AclPolicyDraft) : Decidable policy.Plain :=
  inferInstanceAs (Decidable (if policy.kind = resourceCluster then policy.prefixed = false
    else policy.prefixed = false → Kept (trim policy.name)))

section Faithful

variable {k : Kadm}

theorem resourceKind_injective : Function.Injective resourceKind := by
  intro a b h
  cases a <;> cases b <;> first | rfl | exact absurd h (by decide)

theorem isDeny_effectOf {permission : ACLPermissionType}
    (h : permission = .allow ∨ permission = .deny) :
    permission = if isDeny (effectOf permission) then .deny else .allow := by
  rcases h with rfl | rfl <;> decide

theorem creates_iff {subject : Text} {policy : AccessPolicy} {builder : ACLBuilder}
    (h : builderFor k subject policy = .ok builder) (rules : DescribedACL → Prop) :
    Creates k subject policy rules ↔ ∀ acl, acl ∈ k.createACLs builder ↔ rules acl := by
  constructor
  · rintro ⟨builder', hbuilder', hrules⟩
    rw [h, Except.ok.injEq] at hbuilder'
    rw [hbuilder']
    exact hrules
  · intro hrules
    exact ⟨builder, h, hrules⟩

/-- The hosts of a rule that is read: its own, and any where it has none. -/
theorem mem_hosts_policyFrom (k : Kadm) (acl : DescribedACL) (host : Text) :
    (host ∈ if (policyFrom k acl).sourceIPs = [] then [anyHost] else (policyFrom k acl).sourceIPs) ↔
      host = if acl.host = [] then anyHost else acl.host := by
  simp only [policyFrom]
  by_cases hnone : acl.host = []
  · simp [hnone]
  · by_cases hany : acl.host = anyHost
    · simp [hany]
    · simp [hnone, hany]

theorem operation_unique (hk : k.Documented) {verb : Text} {a b : ACLOperation}
    (ha : (verb, a) ∈ knownOperations) (hb : (verb, b) ∈ knownOperations) : a = b := by
  have hread := operationOf_known hk ha
  rw [operationOf_known hk hb] at hread
  exact (Option.some.inj hread).symm

/-- A rule comes back exactly where its name, its pattern and its host do. -/
theorem creates_self_iff (hk : k.Documented) {acl : DescribedACL} (h : acl.Offered) {name : Text}
    {prefixed : Bool} (hname : acl.type = .cluster → name = clusterName)
    (hsplit : splitResource (resourceLabel acl) = (resourceKind acl.type, name, prefixed)) :
    Creates k acl.principal (policyFrom k acl) (· = acl) ↔
      acl.host ≠ [] ∧ acl.name = name ∧
        acl.pattern = if prefixed then .prefixed else .literal := by
  obtain ⟨verb, hverb⟩ := h.operation
  have hstring : k.string acl.operation = verb := hk.string _ hverb
  have hactions : (policyFrom k acl).actions = [verb] := by rw [policyFrom, hstring]
  have hknown : ∀ action ∈ (policyFrom k acl).actions, action ∈ knownOperations.map Prod.fst := by
    rw [hactions]
    intro action haction
    rw [List.mem_singleton.mp haction]
    exact List.mem_map_of_mem hverb
  obtain ⟨builder, hbuilder, hcreated⟩ := created_of_builderFor hk acl.principal
    (policyFrom k acl) h.type hname hsplit (by simp [policyFrom]) hknown
  rw [creates_iff hbuilder]
  constructor
  · intro hself
    obtain ⟨-, hhost, -, -, haclname, hpattern, -⟩ := (hcreated acl).mp ((hself acl).mpr rfl)
    refine ⟨fun hnone => ?_, haclname, hpattern⟩
    rw [mem_hosts_policyFrom, if_pos hnone, hnone] at hhost
    cases hhost
  · rintro ⟨hhost, haclname, hpattern⟩ other
    rw [hcreated]
    constructor
    · rintro ⟨hprincipal, hother, hpermission, htype, hothername, hotherpattern, hoperation⟩
      obtain ⟨action, haction, hpair⟩ := hoperation
      rw [hactions, List.mem_singleton] at haction
      rw [mem_hosts_policyFrom, if_neg hhost] at hother
      rw [show (policyFrom k acl).effect = effectOf acl.permission from rfl,
        ← isDeny_effectOf h.permission] at hpermission
      have hoperation := operation_unique hk (haction ▸ hpair) hverb
      cases other
      cases acl
      simp only at *
      subst hprincipal hother hpermission htype hoperation
      rw [hothername, hotherpattern, ← haclname, ← hpattern]
    · rintro rfl
      refine ⟨rfl, ?_, ?_, rfl, haclname, hpattern, verb, ?_, hverb⟩
      · rw [mem_hosts_policyFrom, if_neg hhost]
      · exact isDeny_effectOf h.permission
      · rw [hactions]
        exact List.mem_singleton_self _

/-- **A rule comes back exactly where it is plain.** -/
theorem creates_self_iff_plain (hk : k.Documented) {acl : DescribedACL} (h : acl.Offered) :
    Creates k acl.principal (policyFrom k acl) (· = acl) ↔ acl.Plain := by
  rw [DescribedACL.Plain]
  by_cases hcluster : acl.type = .cluster
  · have hlabel : resourceLabel acl = resourceCluster := by
      rw [resourceLabel, hcluster]
      exact if_pos rfl
    have hsplit : splitResource (resourceLabel acl) =
        (resourceKind acl.type, clusterName, false) := by
      rw [hlabel, splitResource_cluster, hcluster]
      rfl
    rw [creates_self_iff hk h (fun _ => rfl) hsplit, if_pos hcluster]
    rfl
  · have hkind : resourceKind acl.type ≠ resourceCluster := fun hsame =>
      hcluster (resourceKind_injective hsame)
    have hplain := plainKind acl.type
    rw [if_neg hcluster]
    rcases h.pattern with hliteral | hprefixed
    · have hlabel : resourceLabel acl = resourceKind acl.type ++ ':' :: acl.name := by
        simp [resourceLabel, hkind, hliteral]
      cases hsplit : splitResource (resourceLabel acl) with
      | mk kind cut =>
        obtain ⟨name, prefixed⟩ := cut
        have hread := hsplit
        rw [hlabel, splitResource_label hplain] at hread
        have hkind' : kind = resourceKind acl.type := by
          split at hread
          · exact (Prod.mk.inj hread).1.symm
          · exact (Prod.mk.inj hread).1.symm
        rw [hkind'] at hsplit
        rw [creates_self_iff hk h (fun hc => absurd hc hcluster) hsplit,
          ← splitResource_literal_iff hplain, ← hlabel, hsplit, hliteral]
        cases prefixed <;> simp [eq_comm]
    · have hlabel : resourceLabel acl = resourceKind acl.type ++ ':' :: (acl.name ++ ['*']) := by
        simp [resourceLabel, hkind, hprefixed]
      have hsplit : splitResource (resourceLabel acl) = (resourceKind acl.type, acl.name, true) := by
        rw [hlabel, splitResource_prefixed hplain h.name]
      rw [creates_self_iff hk h (fun hc => absurd hc hcluster) hsplit, hprefixed]
      simp

theorem isDeny_effect (effect : Effect) :
    (if isDeny effect.text then ACLPermissionType.deny else .allow) = effect.permission := by
  cases effect <;> decide

theorem mem_hosts_toAccessPolicy (policy : AclPolicyDraft) (host : Text) :
    (host ∈ if (toAccessPolicy policy).sourceIPs = [] then [anyHost]
      else (toAccessPolicy policy).sourceIPs) ↔
      host = if trim policy.host = [] then anyHost else trim policy.host := by
  simp only [toAccessPolicy]
  by_cases hnone : trim policy.host = []
  · simp [hnone]
  · simp [hnone]

/-- The name that a policy of a form asks for. -/
def AclPolicyDraft.meantName (policy : AclPolicyDraft) : Text :=
  if policy.kind = resourceCluster then clusterName else trim policy.name

/-- A policy of a form is created exactly where its name and its pattern are read. -/
theorem creates_means_iff (hk : k.Documented) {policy : AclPolicyDraft} (h : policy.Offered)
    (hactions : policy.operations ≠ []) {type : ACLResourceType}
    (htype : type ∈ knownACLResourceKinds) (hkind : policy.kind = resourceKind type) {name : Text}
    {prefixed : Bool} (hname : type = .cluster → name = clusterName)
    (hsplit : splitResource (resourceOf policy) = (resourceKind type, name, prefixed))
    (subject : Text) :
    Creates k subject (toAccessPolicy policy) (policy.Means subject) ↔
      policy.meantName = name ∧ policy.prefixed = prefixed := by
  obtain ⟨builder, hbuilder, hcreated⟩ := created_of_builderFor hk subject
    (toAccessPolicy policy) htype hname hsplit hactions h.operations
  rw [creates_iff hbuilder]
  have hpatterns : ∀ a b : Bool, (if a then ACLPattern.prefixed else .literal) =
      (if b then ACLPattern.prefixed else .literal) → a = b := by decide
  constructor
  · intro hmeans
    -- one rule that is created is enough to tell
    obtain ⟨action, haction⟩ := List.exists_mem_of_ne_nil _ hactions
    obtain ⟨⟨_, operation⟩, hknown, rfl⟩ := List.mem_map.mp (h.operations action haction)
    obtain ⟨-, -, -, hmeantname, hmeantpattern, -, -⟩ :=
      (hmeans ⟨subject, if trim policy.host = [] then anyHost else trim policy.host, type, name,
        if prefixed then .prefixed else .literal, operation, policy.effect.permission⟩).mp
        ((hcreated _).mpr ⟨rfl, (mem_hosts_toAccessPolicy policy _).mpr rfl,
          (isDeny_effect policy.effect).symm, rfl, rfl, rfl, _, haction, hknown⟩)
    exact ⟨hmeantname.symm, (hpatterns _ _ hmeantpattern).symm⟩
  · rintro ⟨hmeantname, hmeantpattern⟩ acl
    rw [hcreated]
    constructor
    · rintro ⟨hprincipal, hhost, hpermission, hacltype, haclname, hpattern, hoperation⟩
      refine ⟨hprincipal, (mem_hosts_toAccessPolicy policy _).mp hhost, ?_, ?_, ?_, hoperation, ?_⟩
      · rw [hacltype, hkind]
      · rw [haclname, ← hmeantname]
        rfl
      · rw [hpattern, hmeantpattern]
      · rw [hpermission]
        exact isDeny_effect policy.effect
    · rintro ⟨hprincipal, hhost, haclkind, haclname, hpattern, hoperation, hpermission⟩
      refine ⟨hprincipal, (mem_hosts_toAccessPolicy policy _).mpr hhost, ?_, ?_, ?_, ?_, hoperation⟩
      · rw [hpermission]
        exact (isDeny_effect policy.effect).symm
      · exact resourceKind_injective (haclkind.trans hkind)
      · rw [haclname, ← hmeantname]
        rfl
      · rw [hpattern, hmeantpattern]

/-- **What a valid draft asks for is created exactly where it is plain.** -/
theorem creates_means_iff_plain (hk : k.Documented) {policy : AclPolicyDraft} (h : policy.Offered)
    (hvalid : validatePolicy policy = none) (subject : Text) :
    Creates k subject (toAccessPolicy policy) (policy.Means subject) ↔ policy.Plain := by
  obtain ⟨type, htype, hkind⟩ := h.kind
  have hactions : policy.operations ≠ [] := by
    intro hnone
    rw [validatePolicy, if_pos hnone] at hvalid
    cases hvalid
  rw [AclPolicyDraft.Plain]
  by_cases hcluster : policy.kind = resourceCluster
  · have hsplit : splitResource (resourceOf policy) = (resourceKind type, clusterName, false) := by
      rw [resourceOf, if_pos hcluster, splitResource_cluster, ← hkind, hcluster]
    rw [creates_means_iff hk h hactions htype hkind (fun _ => rfl) hsplit, if_pos hcluster,
      AclPolicyDraft.meantName, if_pos hcluster]
    simp
  · have htype' : type ≠ .cluster := by
      rintro rfl
      exact hcluster hkind
    have hplain : PlainKind policy.kind := by
      rw [hkind]
      exact plainKind type
    have hfilled : trim policy.name ≠ [] := by
      intro hnone
      rw [validatePolicy, if_neg hactions, if_pos ⟨hcluster, hnone⟩] at hvalid
      cases hvalid
    have hmeant : policy.meantName = trim policy.name := by
      rw [AclPolicyDraft.meantName, if_neg hcluster]
    rw [if_neg hcluster]
    cases hprefixed : policy.prefixed with
    | false =>
      have hlabel : resourceOf policy = policy.kind ++ ':' :: trim policy.name := by
        simp [resourceOf, hcluster, hprefixed]
      cases hsplit : splitResource (resourceOf policy) with
      | mk kind cut =>
        obtain ⟨name, prefixed⟩ := cut
        have hread := hsplit
        rw [hlabel, splitResource_label hplain] at hread
        have hkind' : kind = policy.kind := by
          split at hread
          · exact (Prod.mk.inj hread).1.symm
          · exact (Prod.mk.inj hread).1.symm
        rw [hkind'] at hsplit
        rw [creates_means_iff hk h hactions htype hkind (fun hc => absurd hc htype')
          (hkind ▸ hsplit), ← splitResource_literal_iff hplain, ← hlabel, hsplit, hmeant, hprefixed]
        cases prefixed <;> simp [eq_comm]
    | true =>
      have hlabel : resourceOf policy = policy.kind ++ ':' :: (trim policy.name ++ ['*']) := by
        simp [resourceOf, hcluster, hprefixed]
      have hsplit : splitResource (resourceOf policy) =
          (resourceKind type, trim policy.name, true) := by
        rw [hlabel, splitResource_prefixed hplain hfilled, hkind]
      rw [creates_means_iff hk h hactions htype hkind (fun hc => absurd hc htype') hsplit, hmeant,
        hprefixed]
      simp

theorem validatePolicy_of_valid {draft : AclRuleDraft} (h : validateAclRuleDraft draft = none) :
    ∀ policy ∈ draft.policies, validatePolicy policy = none := by
  rw [validateAclRuleDraft] at h
  split at h
  · cases h
  · split at h
    · cases h
    · split at h
      · cases h
      · exact List.findSome?_eq_none_iff.mp h

/-- **A Kafka rule written is the rule meant** exactly where no literal name ends in a star or in a
    blank, the rules of the cluster have a host, and those about the cluster its own name. -/
theorem rules_faithful_iff (hk : k.Documented) {acls : List DescribedACL}
    (hacls : ∀ acl ∈ acls, acl.Offered) {draft : AclRuleDraft}
    (hvalid : validateAclRuleDraft draft = none)
    (hoffered : ∀ policy ∈ draft.policies, policy.Offered) :
    RulesFaithful k acls draft ↔
      (∀ acl ∈ acls, acl.Plain) ∧ ∀ policy ∈ draft.policies, policy.Plain := by
  have hdraft := validatePolicy_of_valid hvalid
  constructor
  · rintro ⟨hback, -, hasked⟩
    refine ⟨fun acl hacl => ?_, fun policy hpolicy => ?_⟩
    · exact (creates_self_iff_plain hk (hacls acl hacl)).mp (hback acl hacl)
    · exact (creates_means_iff_plain hk (hoffered policy hpolicy) (hdraft policy hpolicy) _).mp
        (hasked policy hpolicy)
  · rintro ⟨hplain, hpolicies⟩
    have hback : ∀ acl ∈ acls, Creates k acl.principal (policyFrom k acl) (· = acl) :=
      fun acl hacl => (creates_self_iff_plain hk (hacls acl hacl)).mpr (hplain acl hacl)
    refine ⟨hback, fun a ha b hb hprincipal hpolicy => ?_, fun policy hpolicy => ?_⟩
    · -- one policy makes one builder, and that creates one rule
      obtain ⟨builder, hbuilder, ha'⟩ := hback a ha
      have hb' := hback b hb
      rw [← hprincipal, ← hpolicy, creates_iff hbuilder] at hb'
      exact ((hb' a).mp ((ha' a).mpr rfl))
    · exact (creates_means_iff_plain hk (hoffered policy hpolicy) (hdraft policy hpolicy) _).mpr
        (hpolicies policy hpolicy)

end Faithful

/-! ## A client -/

/-- Every spelling of the table, and of the rest none. -/
def spelled (operation : ACLOperation) : Text :=
  ((knownOperations.find? fun known => known.2 = operation).map Prod.fst).getD []

/-- What a builder multiplies to, of one effect. -/
def ACLBuilder.product (b : ACLBuilder) (permission : ACLPermissionType)
    (principals hosts : List Text) : List DescribedACL :=
  principals.flatMap fun principal => hosts.flatMap fun host =>
    [ACLResourceType.topic, .group, .cluster, .transactionalId, .delegationToken].flatMap fun type =>
      (b.resources type).flatMap fun name => b.operations.map fun operation =>
        ⟨principal, host, type, name, b.pattern, operation, permission⟩

/-- A client that does what the documentation says. -/
def plainClient : Kadm where
  string := spelled
  toUpper := Char.toUpper
  validateCreate _ := true
  createACLs b := b.product .allow b.allow b.allowHosts ++ b.product .deny b.deny b.denyHosts

theorem mem_product (b : ACLBuilder) (permission : ACLPermissionType) (principals hosts : List Text)
    (acl : DescribedACL) :
    acl ∈ b.product permission principals hosts ↔
      (acl.permission = permission ∧ acl.principal ∈ principals ∧ acl.host ∈ hosts) ∧
        acl.name ∈ b.resources acl.type ∧ acl.pattern = b.pattern ∧
          acl.operation ∈ b.operations := by
  simp only [ACLBuilder.product, List.mem_flatMap, List.mem_map]
  constructor
  · rintro ⟨principal, hprincipal, host, hhost, type, -, name, hname, operation, hoperation, rfl⟩
    exact ⟨⟨rfl, hprincipal, hhost⟩, hname, rfl, hoperation⟩
  · rintro ⟨⟨hpermission, hprincipal, hhost⟩, hname, hpattern, hoperation⟩
    refine ⟨_, hprincipal, _, hhost, acl.type, ?_, _, hname, _, hoperation, ?_⟩
    · -- the other kinds have no resources
      cases htype : acl.type <;> rw [htype] at hname <;>
        first | exact absurd hname List.not_mem_nil | simp
    · rw [← hpermission, ← hpattern]

theorem toUpper_upper {c : Char} (h : ('A' ≤ c ∧ c ≤ 'Z') ∨ c = '_') : c.toUpper = c := by
  rcases h with ⟨hfrom, hto⟩ | rfl
  · have hlow : ¬ c.val ≥ 97 := by
      have := Char.le_def.mp hto
      intro hhigh
      exact absurd (UInt32.le_trans hhigh this) (by decide)
    exact dif_neg fun h => hlow h.1
  · rfl

theorem plainClient_documented : plainClient.Documented := by
  refine ⟨by decide +kernel, fun c hc => toUpper_upper hc, fun _ _ => rfl, fun b acl => ?_⟩
  rw [plainClient, List.mem_append, mem_product, mem_product, ← or_and_right]
  constructor
  · rintro ⟨who, resource, pattern, operation⟩
    exact ⟨who, resource, pattern, operation⟩
  · rintro ⟨who, resource, pattern, operation⟩
    exact ⟨who, resource, pattern, operation⟩

/-! ## Examples of the cluster -/

/-- A rule that lets `User:alice` read of a group. -/
def groupRule (name : Text) (pattern : ACLPattern) : DescribedACL :=
  ⟨"User:alice".toList, anyHost, .group, name, pattern, .read, .allow⟩

/-- A draft of the same. -/
def groupDraft (name : Text) : AclRuleDraft :=
  ⟨"User:alice".toList, [⟨"group".toList, name, false, ["READ".toList], .allow, []⟩]⟩

theorem read_known : ("READ".toList, ACLOperation.read) ∈ knownOperations := by decide

theorem group_known : ACLResourceType.group ∈ knownACLResourceKinds := by decide

theorem groupRule_offered {name : Text} (hname : name ≠ []) {pattern : ACLPattern}
    (hpattern : pattern = .literal ∨ pattern = .prefixed) : (groupRule name pattern).Offered :=
  ⟨group_known, hname, hpattern, ⟨_, read_known⟩, .inl rfl⟩

theorem groupDraft_offered (name : Text) : ∀ policy ∈ (groupDraft name).policies, policy.Offered := by
  intro policy hpolicy
  rw [List.mem_singleton.mp hpolicy]
  refine ⟨⟨.group, group_known, rfl⟩, fun action haction => ?_⟩
  rw [List.mem_singleton.mp haction]
  exact List.mem_map_of_mem read_known

/-- A literal group with a colon and a blank in its name, and one that is prefixed, are themselves. -/
theorem rules_faithful_groups :
    RulesFaithful plainClient
      [groupRule "billing: eu".toList .literal, groupRule "batch".toList .prefixed]
      (groupDraft "billing: eu".toList) := by
  refine (rules_faithful_iff plainClient_documented ?_ (by decide +kernel)
    (groupDraft_offered _)).mpr ⟨by decide +kernel, by decide +kernel⟩
  intro acl hacl
  simp only [List.mem_cons, List.not_mem_nil, or_false] at hacl
  rcases hacl with rfl | rfl
  · exact groupRule_offered (by decide) (.inl rfl)
  · exact groupRule_offered (by decide) (.inr rfl)

/-- The literal group `batch*` comes back as every group that starts with `batch`, whose rule has the
    same policy. -/
theorem literal_readAsPrefix :
    ¬ (∀ (k : Kadm) (acls : List DescribedACL) (draft : AclRuleDraft), k.Documented →
        (∀ acl ∈ acls, acl.Offered) → validateAclRuleDraft draft = none →
        (∀ policy ∈ draft.policies, policy.Offered) → RulesFaithful k acls draft) ∧
      (builderFor plainClient "User:alice".toList
        (policyFrom plainClient (groupRule "batch*".toList .literal))).map
          plainClient.createACLs = .ok [groupRule "batch".toList .prefixed] ∧
      policyFrom plainClient (groupRule "batch*".toList .literal) =
        policyFrom plainClient (groupRule "batch".toList .prefixed) := by
  have hpolicy : policyFrom plainClient (groupRule "batch*".toList .literal) =
      policyFrom plainClient (groupRule "batch".toList .prefixed) := by decide +kernel
  refine ⟨fun h => ?_, by decide +kernel, hpolicy⟩
  have hfaithful := h plainClient
    [groupRule "batch*".toList .literal, groupRule "batch".toList .prefixed]
    (groupDraft "batch".toList) plainClient_documented
    (by
      intro acl hacl
      simp only [List.mem_cons, List.not_mem_nil, or_false] at hacl
      rcases hacl with rfl | rfl
      · exact groupRule_offered (by decide) (.inl rfl)
      · exact groupRule_offered (by decide) (.inr rfl))
    (by decide +kernel) (groupDraft_offered _)
  have hsame := hfaithful.apart _ List.mem_cons_self _ (List.mem_cons_of_mem _ List.mem_cons_self)
    rfl hpolicy
  revert hsame
  decide

end MqStudio.Driver.Kafka.Access
