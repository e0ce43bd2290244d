import MqStudio.Model.Profile

/-!
# Service Bus Rules Read From Their Listing

`internal/driver/azureservicebus/routing.go`. A rule of a subscription is listed as a binding, whose
arguments are one flat map of texts, and a binding is what a rule is created from. The listing puts
the system fields of a correlation filter and the properties of the sender under one prefix, prints
every value as text and leaves out the parameters of an SQL text; the creation drops what is blank
and trims what is not.

What a filter matches and what an action changes is the service's. The SQL language is a parameter,
with what its documentation says.

## Main results

- `correlationFilterOf_compared`: what is read back under each name a correlation filter is listed under.
- `read_back_iff`: a correlation filter comes back as one that matches the same messages exactly
  where it is `Plain`.
- `recreated_iff`: a rule comes back as the same rule exactly where its correlation filter is plain
  and its SQL texts do without their parameters.
- `priority_comes_back_as_text`: a filter on a property that is the number 5 comes back as one on the
  text `5`.
-/

namespace MqStudio.Driver.ServiceBus.Routing

open MqStudio.Lib.TreeMap
open MqStudio.Model (StringMap)
open MqStudio.Storage (trimSpace trimSpace_trimSpace)

/-! ## Filters, actions and messages -/

/-- The system fields that a correlation filter compares. -/
inductive Field where
  | subject
  | correlationId
  | messageId
  | to
  | replyTo
  | sessionId
  | replyToSessionId
  | contentType
  deriving DecidableEq

/-- The name of a field in the listing. -/
def Field.key : Field → String
  | .subject => "subject"
  | .correlationId => "correlationId"
  | .messageId => "messageId"
  | .to => "to"
  | .replyTo => "replyTo"
  | .sessionId => "sessionId"
  | .replyToSessionId => "replyToSessionId"
  | .contentType => "contentType"

/-- The fields, in the order of `correlationFields`. -/
def Field.all : List Field :=
  [.subject, .correlationId, .messageId, .to, .replyTo, .sessionId, .replyToSessionId, .contentType]

/-- The `switch` of `correlationFilterOf` on a name. -/
def Field.ofKey? (name : String) : Option Field :=
  Field.all.find? fun field => field.key = name

theorem Field.mem_all (field : Field) : field ∈ Field.all := by
  cases field <;> decide

theorem Field.ofKey?_eq_some {name : String} {field : Field} :
    Field.ofKey? name = some field ↔ field.key = name := by
  constructor
  · intro h
    simpa using List.find?_some h
  · rintro rfl
    cases field <;> decide

@[simp] theorem Field.ofKey?_key (field : Field) : Field.ofKey? field.key = some field :=
  Field.ofKey?_eq_some.mpr rfl

variable {ν ρ : Type}

/-- A value of a property: a text, or a number, a truth value, a time or bytes. -/
inductive Value (ν : Type) where
  | text (s : String)
  | other (v : ν)
  deriving DecidableEq

/-- The properties that a sender sets. -/
abbrev Properties (ν : Type) := Map String (Value ν)

/-- `admin.SQLFilter` and `admin.SQLAction`: a text and the parameters it names. -/
structure Sql (ν : Type) where
  expression : String
  parameters : Properties ν

/-- `admin.CorrelationFilter` -/
structure CorrelationFilter (ν : Type) where
  system : Field → Option String
  applicationProperties : Properties ν

/-- `admin.RuleFilter` -/
inductive Filter (ν : Type) where
  | true
  | false
  | sql (filter : Sql ν)
  | correlation (filter : CorrelationFilter ν)

/-- `admin.RuleProperties`, and `admin.CreateRuleOptions` alike. -/
structure Rule (ν : Type) where
  name : String
  filter : Filter ν
  action : Option (Sql ν)

/-- A message on its way into a subscription. -/
structure Message (ν ρ : Type) where
  system : Field → Option String
  properties : Properties ν
  rest : ρ

/-- What the service does with values and with SQL texts. A text it refuses has no reading. -/
structure Service (ν ρ : Type) where
  same : Value ν → Value ν → Bool
  condition : Sql ν → Option (Message ν ρ → Bool)
  change : Sql ν → Option (Message ν ρ → Message ν ρ)
  /-- `fmt.Sprint` of a value that is not a text -/
  sprint : ν → String
  /-- A text of a filter is found in the same text alone. -/
  same_text : ∀ s v, same (.text s) v = Bool.true ↔ v = .text s
  /-- A text of a message is found by the same text alone. -/
  text_same : ∀ v s, same v (.text s) = Bool.true ↔ v = .text s
  /-- Blanks around an SQL text say nothing. -/
  condition_trim : ∀ s : Sql ν, condition { s with expression := trimSpace s.expression } = condition s
  change_trim : ∀ s : Sql ν, change { s with expression := trimSpace s.expression } = change s
  /-- A text that says nothing at all is refused. -/
  condition_blank : ∀ s : Sql ν, trimSpace s.expression = "" → condition s = none
  change_blank : ∀ s : Sql ν, trimSpace s.expression = "" → change s = none

/-- `fmt.Sprint` -/
def Value.sprint (print : ν → String) : Value ν → String
  | .text s => s
  | .other v => print v

/-- A message has what the filter has set. -/
def CorrelationFilter.accepts (same : Value ν → Value ν → Bool) (f : CorrelationFilter ν)
    (m : Message ν ρ) : Bool :=
  (Field.all.all fun field => (f.system field).all fun v => m.system field = some v) &&
    f.applicationProperties.toList.all fun entry =>
      (m.properties[entry.1]?).any (same entry.2)

/-- The messages that a filter takes. -/
def Service.accepts (svc : Service ν ρ) : Filter ν → Option (Message ν ρ → Bool)
  | .true => some fun _ => Bool.true
  | .false => some fun _ => Bool.false
  | .sql s => svc.condition s
  | .correlation f => some (f.accepts svc.same)

/-- What an action makes of a message. -/
def Service.changes (svc : Service ν ρ) : Option (Sql ν) → Option (Message ν ρ → Message ν ρ)
  | none => some id
  | some s => svc.change s

/-- What a rule lets into the subscription: nothing, or the message changed. -/
def Service.effect (svc : Service ν ρ) (r : Rule ν) : Option (Message ν ρ → Option (Message ν ρ)) :=
  (svc.accepts r.filter).bind fun accepts =>
    (svc.changes r.action).map fun change m => if accepts m then some (change m) else none

/-- The service holds a rule whose texts it reads. -/
def Service.Holds (svc : Service ν ρ) (r : Rule ν) : Prop := (svc.effect r).isSome

/-! ## The listing -/

/-- `model.Binding` -/
structure Binding where
  namespaceName : String
  source : String
  destination : String
  destinationKind : String
  routingKey : String
  arguments : StringMap
  propertiesKey : String

/-- `ArgFilterType` -/
def argFilterType : String := "filterType"

/-- `ArgExpression` -/
def argExpression : String := "expression"

/-- `ArgAction` -/
def argAction : String := "action"

/-- `ArgCorrelationPrefix` -/
def argCorrelationPrefix : String := "correlation."

/-- `FilterSQL` -/
def filterSQL : String := "sql"

/-- `FilterCorrelation` -/
def filterCorrelation : String := "correlation"

/-- `FilterTrue` -/
def filterTrue : String := "true"

/-- `FilterFalse` -/
def filterFalse : String := "false"

/-- `put` of `correlationFields` -/
def put (fields : StringMap) (name : String) (value : Option String) : StringMap :=
  match value with
  | some v => if v ≠ "" then fields.insert name v else fields
  | none => fields

/-- `correlationFields` -/
def correlationFields (print : ν → String) (filter : CorrelationFilter ν) : StringMap :=
  let fields := Field.all.foldl (fun fields field => put fields field.key (filter.system field)) ∅
  filter.applicationProperties.foldl (fun fields name value => fields.insert name (value.sprint print))
    fields

/-- `renderCorrelation`; the map is in the order of its names. -/
def renderCorrelation (fields : StringMap) : String :=
  if fields.isEmpty then "1=1"
  else " AND ".intercalate (fields.toList.map fun entry => entry.1 ++ " = '" ++ entry.2 ++ "'")

/-- The loop of `bindingOf` over the fields of a correlation filter. -/
def listFields (arguments fields : StringMap) : StringMap :=
  fields.foldl (fun arguments name value => arguments.insert (argCorrelationPrefix ++ name) value)
    arguments

/-- The arguments and the routing key that a filter is listed by. -/
def listFilter (print : ν → String) : Filter ν → StringMap × String
  | .true => ((∅ : StringMap).insert argFilterType filterTrue, "1=1")
  | .false => ((∅ : StringMap).insert argFilterType filterFalse, "1=0")
  | .sql s =>
    (((∅ : StringMap).insert argFilterType filterSQL).insert argExpression s.expression, s.expression)
  | .correlation f =>
    (listFields ((∅ : StringMap).insert argFilterType filterCorrelation) (correlationFields print f),
      renderCorrelation (correlationFields print f))

/-- `bindingOf` -/
def bindingOf (print : ν → String) (topic subscription : String) (rule : Rule ν) : Binding where
  namespaceName := ""
  source := topic
  destination := subscription
  destinationKind := "subscription"
  routingKey := (listFilter print rule.filter).2
  arguments :=
    match rule.action with
    | some action => (listFilter print rule.filter).1.insert argAction action.expression
    | none => (listFilter print rule.filter).1
  propertiesKey := rule.name

/-! ## The creation -/

/-- `strings.HasPrefix` and `strings.TrimPrefix` with `ArgCorrelationPrefix`. -/
def fieldOf (key : String) : Option String :=
  if argCorrelationPrefix.toList.isPrefixOf key.toList then
    some (String.ofList (key.toList.drop argCorrelationPrefix.toList.length))
  else none

/-- `set` of `correlationFilterOf` -/
def set (read : CorrelationFilter ν × Bool) (field : Field) (value : String) :
    CorrelationFilter ν × Bool :=
  if trimSpace value ≠ "" then
    ({ read.1 with system := Function.update read.1.system field (some (trimSpace value)) }, true)
  else read

/-- The `default` of the `switch` in `correlationFilterOf`. -/
def setProperty (read : CorrelationFilter ν × Bool) (field value : String) :
    CorrelationFilter ν × Bool :=
  if trimSpace value = "" then read
  else ({ read.1 with
    applicationProperties := read.1.applicationProperties.insert field (.text value) }, true)

/-- One argument in the loop of `correlationFilterOf`. -/
def readArgument (read : CorrelationFilter ν × Bool) (key value : String) :
    CorrelationFilter ν × Bool :=
  match fieldOf key with
  | none => read
  | some field =>
    match Field.ofKey? field with
    | some known => set read known value
    | none => setProperty read field value

/-- `correlationFilterOf` -/
def correlationFilterOf (arguments : StringMap) : CorrelationFilter ν × Bool :=
  arguments.foldl readArgument (⟨fun _ => none, ∅⟩, false)

/-- What `ruleOptions` refuses. -/
inductive Refusal where
  | needsExpression
  | needsField
  deriving DecidableEq

/-- The text of a refusal. -/
def Refusal.text : Refusal → String
  | .needsExpression => "a SQL rule needs an expression, such as colour = 'red'"
  | .needsField => "a correlation rule needs at least one field to match, such as the subject"

/-- An argument, the empty text where there is none. -/
def Binding.argument (binding : Binding) (key : String) : String := (binding.arguments[key]?).getD ""

/-- The expression that an SQL filter is created with. -/
def expressionOf (binding : Binding) : String :=
  if trimSpace (binding.argument argExpression) = "" then trimSpace binding.routingKey
  else trimSpace (binding.argument argExpression)

/-- The filter that `ruleOptions` makes of a binding. -/
def filterOf (binding : Binding) : Except Refusal (Filter ν) :=
  if trimSpace (binding.argument argFilterType) = filterSQL then
    if expressionOf binding = "" then .error .needsExpression
    else .ok (.sql ⟨expressionOf binding, ∅⟩)
  else if trimSpace (binding.argument argFilterType) = filterCorrelation then
    if (@correlationFilterOf ν binding.arguments).2 then
      .ok (.correlation (correlationFilterOf binding.arguments).1)
    else .error .needsField
  else if trimSpace (binding.argument argFilterType) = filterFalse then .ok .false
  else .ok .true

/-- `ruleOptions` -/
def ruleOptions (name : String) (binding : Binding) : Except Refusal (Rule ν) := do
  let filter ← filterOf binding
  let action := trimSpace (binding.argument argAction)
  return ⟨name, filter, if action ≠ "" then some ⟨action, ∅⟩ else none⟩

/-! ## Names under the prefix -/

theorem fieldOf_eq_some {key field : String} :
    fieldOf key = some field ↔ key = argCorrelationPrefix ++ field := by
  unfold fieldOf
  constructor
  · intro h
    split at h
    · rename_i hfront
      cases h
      obtain ⟨rest, hrest⟩ := List.isPrefixOf_iff_prefix.mp hfront
      apply String.toList_injective
      rw [String.toList_append, String.toList_ofList, ← hrest, List.drop_left]
    · cases h
  · rintro rfl
    rw [if_pos (by simp), String.toList_append, List.drop_left, String.ofList_toList]

@[simp] theorem fieldOf_append (field : String) : fieldOf (argCorrelationPrefix ++ field) = some field :=
  fieldOf_eq_some.mpr rfl

theorem append_prefix_inj {a b : String} :
    argCorrelationPrefix ++ a = argCorrelationPrefix ++ b ↔ a = b := by
  constructor
  · intro h
    have := congrArg fieldOf h
    simpa using this
  · rintro rfl
    rfl

theorem ne_appended {key : String} (h : fieldOf key = none) (field : String) :
    argCorrelationPrefix ++ field ≠ key := by
  rintro rfl
  rw [fieldOf_append] at h
  cases h

@[simp] theorem fieldOf_argFilterType : fieldOf argFilterType = none := by decide

@[simp] theorem fieldOf_argExpression : fieldOf argExpression = none := by decide

@[simp] theorem fieldOf_argAction : fieldOf argAction = none := by decide

/-! ## What is listed -/

/-- What a filter has of a field and shows. -/
def CorrelationFilter.shown (f : CorrelationFilter ν) (field : Field) : Option String :=
  (f.system field).filter (· ≠ "")

theorem lookup_put (fields : StringMap) (name a : String) (value : Option String) :
    (put fields name value)[a]? =
      if name = a then ((value.filter (· ≠ "")).or fields[a]?) else fields[a]? := by
  unfold put
  cases value with
  | none => simp
  | some v =>
    by_cases hv : v = ""
    · simp [hv, Option.filter]
    · simp only [ne_eq, hv, not_false_eq_true, if_true, getElem?_insert_ite]
      split
      · simp [hv, Option.filter]
      · rfl

/-- The system fields are listed under their own names. -/
theorem lookup_system (f : CorrelationFilter ν) (name : String) :
    (Field.all.foldl (fun fields field => put fields field.key (f.system field)) (∅ : StringMap))[name]? =
      (Field.ofKey? name).bind f.shown := by
  cases h : Field.ofKey? name with
  | none =>
    have hne : ∀ field : Field, field.key ≠ name := by
      intro field hkey
      rw [Field.ofKey?_eq_some.mpr hkey] at h
      cases h
    simp [Field.all, lookup_put, hne]
  | some field =>
    obtain rfl := Field.ofKey?_eq_some.mp h
    cases field <;> simp [Field.all, lookup_put, Field.key, CorrelationFilter.shown]

/-- **The listing of a correlation filter**: a property stands in the place of a system field that
has its name. -/
theorem lookup_correlationFields (print : ν → String) (f : CorrelationFilter ν) (name : String) :
    (correlationFields print f)[name]? =
      ((f.applicationProperties[name]?).map (Value.sprint print)).or
        ((Field.ofKey? name).bind f.shown) := by
  unfold correlationFields
  rw [foldl_own f.applicationProperties (fun (fields : StringMap) key => fields[key]?)
    (fun _ value _ => some (value.sprint print)) (fun fields key value a => ?_) _ name, lookup_system]
  · cases f.applicationProperties[name]? <;> rfl
  · rw [getElem?_insert_ite]

theorem lookup_listFields (arguments fields : StringMap) (name : String) :
    (listFields arguments fields)[argCorrelationPrefix ++ name]? =
      (fields[name]?).or arguments[argCorrelationPrefix ++ name]? := by
  unfold listFields
  rw [foldl_own fields (fun (arguments : StringMap) name => arguments[argCorrelationPrefix ++ name]?)
    (fun _ value _ => some value) (fun arguments key value a => ?_) _ name]
  · cases fields[name]? <;> rfl
  · simp only [getElem?_insert_ite, append_prefix_inj]

theorem lookup_listFields_of_none (arguments fields : StringMap) {key : String}
    (h : fieldOf key = none) : (listFields arguments fields)[key]? = arguments[key]? := by
  refine foldl_frame fields (fun arguments : StringMap => arguments[key]?) ?_ arguments
  intro arguments name value
  exact getElem?_insert_of_ne arguments value (ne_appended h name)

/-! ## What is read back -/

/-- What a filter compares under a name of the listing. -/
def CorrelationFilter.compared (f : CorrelationFilter ν) (name : String) : Option (Value ν) :=
  match Field.ofKey? name with
  | some field => (f.system field).map .text
  | none => f.applicationProperties[name]?

/-- What `correlationFilterOf` keeps of a value that is listed under a name: a system field is
trimmed, a property stays as it is, and neither is blank. -/
def keptOf (name value : String) : Option (Value ν) :=
  if trimSpace value = "" then none
  else if (Field.ofKey? name).isSome then some (.text (trimSpace value))
  else some (.text value)

theorem compared_set (read : CorrelationFilter ν × Bool) (field : Field) (value name : String) :
    (set read field value).1.compared name =
      if field.key = name then (keptOf name value).or (read.1.compared name)
      else read.1.compared name := by
  unfold set
  by_cases hblank : trimSpace value = ""
  · simp [hblank, keptOf]
  · rw [if_pos hblank]
    by_cases hname : field.key = name
    · subst hname
      simp [CorrelationFilter.compared, keptOf, hblank]
    · rw [if_neg hname]
      unfold CorrelationFilter.compared
      cases hknown : Field.ofKey? name with
      | none => rfl
      | some other =>
        have hother : other ≠ field := by
          rintro rfl
          exact hname (Field.ofKey?_eq_some.mp hknown)
        simp [Function.update_of_ne hother]

theorem compared_setProperty (read : CorrelationFilter ν × Bool) {field : String}
    (hfield : Field.ofKey? field = none) (value name : String) :
    (setProperty read field value).1.compared name =
      if field = name then (keptOf name value).or (read.1.compared name)
      else read.1.compared name := by
  unfold setProperty
  by_cases hblank : trimSpace value = ""
  · simp [hblank, keptOf]
  · rw [if_neg hblank]
    by_cases hname : field = name
    · subst hname
      simp [CorrelationFilter.compared, keptOf, hblank, hfield]
    · rw [if_neg hname]
      unfold CorrelationFilter.compared
      cases Field.ofKey? name with
      | none => exact getElem?_insert_of_ne _ _ hname
      | some other => rfl

/-- An argument changes what is compared under its own name. -/
theorem compared_readArgument (read : CorrelationFilter ν × Bool) (key value name : String) :
    (readArgument read key value).1.compared name =
      if key = argCorrelationPrefix ++ name then (keptOf name value).or (read.1.compared name)
      else read.1.compared name := by
  unfold readArgument
  cases hkey : fieldOf key with
  | none => rw [if_neg fun h => ne_appended hkey name h.symm]
  | some field =>
    obtain rfl := fieldOf_eq_some.mp hkey
    simp only [append_prefix_inj]
    cases hfield : Field.ofKey? field with
    | none => exact compared_setProperty read hfield value name
    | some known =>
      obtain rfl := Field.ofKey?_eq_some.mp hfield
      exact compared_set read known value name

/-- **What is read back** under a name: what is kept of the argument that carries the name. -/
theorem correlationFilterOf_compared (arguments : StringMap) (name : String) :
    (@correlationFilterOf ν arguments).1.compared name =
      (arguments[argCorrelationPrefix ++ name]?).bind (keptOf name) := by
  have hvisit : ∀ (read : CorrelationFilter ν × Bool) (key value a : String),
      (fieldOf a).bind (readArgument read key value).1.compared =
        if key = a then ((fieldOf key).bind fun field => keptOf field value).or
          ((fieldOf key).bind read.1.compared)
        else (fieldOf a).bind read.1.compared := by
    intro read key value a
    cases ha : fieldOf a with
    | none =>
      split
      · rename_i heq
        rw [heq, ha]
        rfl
      · rfl
    | some field =>
      obtain rfl := fieldOf_eq_some.mp ha
      simp only [Option.bind_some, compared_readArgument]
      split
      · rename_i heq
        rw [heq, fieldOf_append, Option.bind_some, Option.bind_some]
      · rfl
  have h := foldl_own arguments
    (fun (read : CorrelationFilter ν × Bool) key => (fieldOf key).bind read.1.compared)
    (fun key value old => ((fieldOf key).bind fun field => keptOf field value).or old) hvisit
    (⟨fun _ => none, ∅⟩, false) (argCorrelationPrefix ++ name)
  simp only [fieldOf_append, Option.bind_some] at h
  unfold correlationFilterOf
  rw [h]
  -- nothing is compared before the loop
  have hempty : (⟨fun _ => none, ∅⟩ : CorrelationFilter ν).compared name = none := by
    unfold CorrelationFilter.compared
    cases Field.ofKey? name <;> simp
  rw [hempty]
  cases arguments[argCorrelationPrefix ++ name]? with
  | none => rfl
  | some value => simp

/-- An argument is passed over, sets a system field or adds a property. -/
theorem readArgument_cases (read : CorrelationFilter ν × Bool) (key value : String) :
    readArgument read key value = read ∨
      (∃ known : Field, readArgument read key value = ({ read.1 with
        system := Function.update read.1.system known (some (trimSpace value)) }, true)) ∨
      ∃ field, Field.ofKey? field = none ∧ readArgument read key value = ({ read.1 with
        applicationProperties := read.1.applicationProperties.insert field (.text value) }, true) := by
  unfold readArgument
  cases fieldOf key with
  | none => exact .inl rfl
  | some field =>
    simp only
    cases hfield : Field.ofKey? field with
    | some known =>
      simp only [set]
      split
      · exact .inr (.inl ⟨known, rfl⟩)
      · exact .inl rfl
    | none =>
      simp only [setProperty]
      split
      · exact .inl rfl
      · exact .inr (.inr ⟨field, hfield, rfl⟩)

/-- No property that is read back has the name of a system field. -/
theorem correlationFilterOf_properties (arguments : StringMap) {name : String}
    (h : (Field.ofKey? name).isSome) :
    (@correlationFilterOf ν arguments).1.applicationProperties[name]? = none := by
  refine foldl_invariant arguments
    (fun read : CorrelationFilter ν × Bool => read.1.applicationProperties[name]? = none) ?_ (by simp)
  intro read key value hread
  obtain heq | ⟨known, heq⟩ | ⟨field, hfield, heq⟩ := readArgument_cases read key value
  · rw [heq]
    exact hread
  · rw [heq]
    exact hread
  · have hne : field ≠ name := by
      rintro rfl
      rw [hfield] at h
      cases h
    rw [heq]
    exact (getElem?_insert_of_ne _ _ hne).trans hread

/-- A filter compares something. -/
def CorrelationFilter.NonEmpty (f : CorrelationFilter ν) : Prop :=
  ∃ name, f.compared name ≠ none

/-- The loop reports a field exactly where it has read one. -/
theorem correlationFilterOf_given (arguments : StringMap) :
    (@correlationFilterOf ν arguments).2 = true ↔
      (@correlationFilterOf ν arguments).1.NonEmpty := by
  refine foldl_invariant arguments
    (fun read : CorrelationFilter ν × Bool => read.2 = true ↔ read.1.NonEmpty) ?_ ?_
  · intro read key value hread
    obtain heq | ⟨known, heq⟩ | ⟨field, hfield, heq⟩ := readArgument_cases read key value
    · rw [heq]
      exact hread
    · rw [heq]
      exact ⟨fun _ => ⟨known.key, by simp [CorrelationFilter.compared]⟩, fun _ => rfl⟩
    · rw [heq]
      exact ⟨fun _ => ⟨field, by simp [CorrelationFilter.compared, hfield]⟩, fun _ => rfl⟩
  · constructor
    · exact fun h => absurd h Bool.false_ne_true
    · rintro ⟨name, hname⟩
      unfold CorrelationFilter.compared at hname
      cases hknown : Field.ofKey? name <;> simp [hknown] at hname

/-! ## Correlation filters that come back -/

/-- What a listing keeps apart and a creation takes as it is: a filter that compares something,
whose system fields are neither blank nor in need of trimming, and whose properties are texts, not
blank and not named like a system field. -/
structure CorrelationFilter.Plain (f : CorrelationFilter ν) : Prop where
  nonEmpty : f.NonEmpty
  system : ∀ field v, f.system field = some v → trimSpace v ≠ "" ∧ trimSpace v = v
  property : ∀ (name : String) (v : Value ν), f.applicationProperties[name]? = some v →
    Field.ofKey? name = none ∧ ∃ s, v = .text s ∧ trimSpace s ≠ ""

theorem accepts_iff (same : Value ν → Value ν → Bool) (f : CorrelationFilter ν) (m : Message ν ρ) :
    f.accepts same m = true ↔
      (∀ field v, f.system field = some v → m.system field = some v) ∧
        ∀ (name : String) (v : Value ν), f.applicationProperties[name]? = some v →
          ∃ w, m.properties[name]? = some w ∧ same v w = true := by
  simp only [CorrelationFilter.accepts, Bool.and_eq_true, List.all_eq_true, Option.all_eq_true,
    Option.any_eq_true, decide_eq_true_eq, Prod.forall,
    Std.ExtTreeMap.mem_toList_iff_getElem?_eq_some]
  exact and_congr_left' ⟨fun h field => h field field.mem_all, fun h field _ => h field⟩

/-- A message that has what a filter compares and no more. -/
def CorrelationFilter.pattern (f : CorrelationFilter ν) (rest : ρ) : Message ν ρ :=
  ⟨f.system, f.applicationProperties, rest⟩

/-- A filter that is read back from the listing of another. -/
structure ReadBack (print : ν → String) (f g : CorrelationFilter ν) : Prop where
  compared : ∀ name, g.compared name = ((correlationFields print f)[name]?).bind (keptOf name)
  apart : ∀ name, (Field.ofKey? name).isSome → g.applicationProperties[name]? = none

namespace ReadBack

variable {print : ν → String} {f g : CorrelationFilter ν}

/-- A system field that is read back is trimmed and is not blank. -/
theorem system (h : ReadBack print f g) {field : Field} {v : String}
    (hv : g.system field = some v) : trimSpace v ≠ "" ∧ trimSpace v = v := by
  have hcompared : g.compared field.key = some (.text v) := by
    simp [CorrelationFilter.compared, hv]
  rw [h.compared, Option.bind_eq_some_iff] at hcompared
  obtain ⟨value, -, hkept⟩ := hcompared
  simp only [keptOf, Field.ofKey?_key, Option.isSome_some, if_true] at hkept
  split at hkept
  · cases hkept
  · rename_i hblank
    cases hkept
    rw [trimSpace_trimSpace]
    exact ⟨hblank, rfl⟩

/-- A property that is read back is a text that is not blank, under a name of its own. -/
theorem property (h : ReadBack print f g) {name : String} {v : Value ν}
    (hv : g.applicationProperties[name]? = some v) :
    Field.ofKey? name = none ∧ ∃ s, v = .text s ∧ trimSpace s ≠ "" := by
  have hname : Field.ofKey? name = none := by
    by_contra hsome
    rw [h.apart name (Option.isSome_iff_ne_none.mpr hsome)] at hv
    cases hv
  have hcompared : g.compared name = some v := by
    simp [CorrelationFilter.compared, hname, hv]
  rw [h.compared, Option.bind_eq_some_iff] at hcompared
  obtain ⟨value, -, hkept⟩ := hcompared
  simp only [keptOf, hname, Option.isSome_none, Bool.false_eq_true, if_false] at hkept
  split at hkept
  · cases hkept
  · rename_i hblank
    cases hkept
    exact ⟨hname, value, rfl, hblank⟩

/-- A filter that is read back takes the message that has what it compares. -/
theorem accepts_pattern (svc : Service ν ρ) (h : ReadBack print f g) (rest : ρ) :
    g.accepts svc.same (g.pattern rest) = true := by
  rw [accepts_iff]
  refine ⟨fun field v hv => hv, fun name v hv => ⟨v, hv, ?_⟩⟩
  obtain ⟨-, s, rfl, -⟩ := h.property hv
  exact (svc.same_text s (.text s)).mpr rfl

/-- What is read back of a plain filter is the filter. -/
theorem eq_of_plain (h : ReadBack print f g) (hf : f.Plain) : g = f := by
  have hcompared : ∀ name, g.compared name = f.compared name := by
    intro name
    rw [h.compared, lookup_correlationFields]
    unfold CorrelationFilter.compared
    cases hname : Field.ofKey? name with
    | some field =>
      -- no property stands in the field's place
      have hproperty : f.applicationProperties[name]? = none := by
        by_contra hsome
        obtain ⟨v, hv⟩ := Option.ne_none_iff_exists'.mp hsome
        rw [(hf.property name v hv).1] at hname
        cases hname
      cases hv : f.system field with
      | none => simp [hproperty, CorrelationFilter.shown, hv]
      | some v =>
        obtain ⟨hblank, htrim⟩ := hf.system field v hv
        have hne : v ≠ "" := htrim ▸ hblank
        simp [hproperty, CorrelationFilter.shown, hv, Option.filter, hne, keptOf, hname, htrim]
    | none =>
      cases hv : f.applicationProperties[name]? with
      | none => simp
      | some v =>
        obtain ⟨-, s, rfl, hblank⟩ := hf.property name v hv
        simp [Value.sprint, keptOf, hname, hblank]
  have hsystem : g.system = f.system := by
    funext field
    have hfield := hcompared field.key
    simp only [CorrelationFilter.compared, Field.ofKey?_key] at hfield
    exact Option.map_injective (fun a b hab => by injection hab) hfield
  have hproperties : g.applicationProperties = f.applicationProperties := by
    ext1 name
    cases hname : Field.ofKey? name with
    | none => simpa [CorrelationFilter.compared, hname] using hcompared name
    | some field =>
      rw [h.apart name (by rw [hname]; rfl)]
      by_contra hsome
      obtain ⟨v, hv⟩ := Option.ne_none_iff_exists'.mp (Ne.symm hsome)
      rw [(hf.property name v hv).1] at hname
      cases hname
  cases f
  cases g
  simp only [CorrelationFilter.mk.injEq]
  exact ⟨hsystem, hproperties⟩

/-- A filter that takes the message of what was read back of it is plain. -/
theorem plain_of_accepts (svc : Service ν ρ) (h : ReadBack print f g) (hg : g.NonEmpty) {rest : ρ}
    (haccepts : f.accepts svc.same (g.pattern rest) = true) : f.Plain := by
  obtain ⟨hsystem, hproperty⟩ := (accepts_iff _ _ _).mp haccepts
  have hown : ∀ (name : String) (v : Value ν), f.applicationProperties[name]? = some v →
      Field.ofKey? name = none ∧ ∃ s, v = .text s ∧ trimSpace s ≠ "" := by
    intro name v hv
    obtain ⟨w, hw, hsame⟩ := hproperty name v hv
    obtain ⟨hname, s, rfl, hblank⟩ := h.property hw
    exact ⟨hname, s, (svc.text_same v s).mp hsame, hblank⟩
  refine ⟨?_, fun field v hv => h.system (hsystem field v hv), hown⟩
  obtain ⟨name, hname⟩ := hg
  refine ⟨name, fun hnone => hname ?_⟩
  rw [h.compared, lookup_correlationFields]
  have hproperty : f.applicationProperties[name]? = none := by
    by_contra hsome
    obtain ⟨v, hv⟩ := Option.ne_none_iff_exists'.mp hsome
    simp only [CorrelationFilter.compared, (hown name v hv).1, hv] at hnone
    cases hnone
  cases hkey : Field.ofKey? name with
  | none => simp [hproperty]
  | some field =>
    simp only [CorrelationFilter.compared, hkey, Option.map_eq_none_iff] at hnone
    simp [hproperty, CorrelationFilter.shown, hnone]

end ReadBack

/-! ## Rules -/

/-- An SQL text without its parameters. -/
def Sql.bare (s : Sql ν) : Sql ν := { s with parameters := ∅ }

/-- A filter without the parameters of its text. -/
def Filter.bare : Filter ν → Filter ν
  | .sql s => .sql s.bare
  | filter => filter

/-- A rule without the parameters of its texts. -/
def Rule.bare (r : Rule ν) : Rule ν :=
  { r with filter := r.filter.bare, action := r.action.map Sql.bare }

/-- The rule comes back from its listing as one that matches and changes the same messages. -/
def Service.Recreates (svc : Service ν ρ) (topic subscription : String) (rule : Rule ν) : Prop :=
  ∃ recreated, ruleOptions rule.name (bindingOf svc.sprint topic subscription rule) = .ok recreated ∧
    recreated.name = rule.name ∧ svc.effect recreated = svc.effect rule

section Listing

variable (print : ν → String) (topic subscription : String) (rule : Rule ν)

theorem lookup_bindingOf {key : String} (h : argAction ≠ key) :
    (bindingOf print topic subscription rule).arguments[key]? =
      (listFilter print rule.filter).1[key]? := by
  unfold bindingOf
  cases rule.action with
  | none => rfl
  | some action => exact getElem?_insert_of_ne _ _ h

theorem lookup_listFilter_action (filter : Filter ν) :
    (listFilter print filter).1[argAction]? = none := by
  have hneither : argFilterType ≠ argAction ∧ argExpression ≠ argAction := by decide
  cases filter with
  | true | false => exact (getElem?_insert_of_ne _ _ hneither.1).trans (by simp)
  | sql s =>
    simp only [listFilter]
    rw [getElem?_insert_of_ne _ _ hneither.2, getElem?_insert_of_ne _ _ hneither.1]
    simp
  | correlation f =>
    simp only [listFilter]
    rw [lookup_listFields_of_none _ _ fieldOf_argAction, getElem?_insert_of_ne _ _ hneither.1]
    simp

/-- The text of the action, as it was listed. -/
theorem argument_action : (bindingOf print topic subscription rule).argument argAction =
    (rule.action.map Sql.expression).getD "" := by
  unfold Binding.argument bindingOf
  cases rule.action with
  | none => simp [lookup_listFilter_action]
  | some action => simp

/-- The kind of a filter, as it was listed. -/
def kindOf : Filter ν → String
  | .true => filterTrue
  | .false => filterFalse
  | .sql _ => filterSQL
  | .correlation _ => filterCorrelation

theorem argument_filterType : (bindingOf print topic subscription rule).argument argFilterType =
    kindOf rule.filter := by
  unfold Binding.argument
  rw [lookup_bindingOf print topic subscription rule (by decide)]
  cases rule.filter with
  | true | false => simp [listFilter, kindOf]
  | sql s =>
    simp only [listFilter]
    rw [getElem?_insert_of_ne _ _ (by decide)]
    simp [kindOf]
  | correlation f =>
    simp only [listFilter]
    rw [lookup_listFields_of_none _ _ fieldOf_argFilterType]
    simp [kindOf]

theorem trimSpace_kindOf (filter : Filter ν) : trimSpace (kindOf filter) = kindOf filter := by
  have hkinds : ∀ kind ∈ [filterTrue, filterFalse, filterSQL, filterCorrelation],
      trimSpace kind = kind := by decide
  apply hkinds
  cases filter <;> simp [kindOf]

/-- The expression is listed twice, and either serves. -/
theorem expressionOf_bindingOf {s : Sql ν} (h : rule.filter = .sql s) :
    expressionOf (bindingOf print topic subscription rule) = trimSpace s.expression := by
  have hargument : (bindingOf print topic subscription rule).argument argExpression =
      s.expression := by
    unfold Binding.argument
    rw [lookup_bindingOf print topic subscription rule (by decide), h]
    simp [listFilter]
  have hkey : (bindingOf print topic subscription rule).routingKey = s.expression := by
    simp [bindingOf, h, listFilter]
  rw [expressionOf, hargument, hkey, ite_self]

/-- What is made of the arguments is read back of the filter. -/
theorem readBack_bindingOf {f : CorrelationFilter ν} (h : rule.filter = .correlation f) :
    ReadBack print f
      (correlationFilterOf (bindingOf print topic subscription rule).arguments).1 := by
  refine ⟨fun name => ?_, fun name => correlationFilterOf_properties _⟩
  rw [correlationFilterOf_compared,
    lookup_bindingOf print topic subscription rule (ne_appended fieldOf_argAction name).symm, h]
  simp only [listFilter, lookup_listFields]
  rw [getElem?_insert_of_ne _ _ (ne_appended fieldOf_argFilterType name).symm]
  simp

theorem filterOf_of_true (h : rule.filter = .true) :
    filterOf (bindingOf print topic subscription rule) = .ok (.true : Filter ν) := by
  unfold filterOf
  rw [argument_filterType, trimSpace_kindOf, h, kindOf, if_neg (by decide), if_neg (by decide),
    if_neg (by decide)]

theorem filterOf_of_false (h : rule.filter = .false) :
    filterOf (bindingOf print topic subscription rule) = .ok (.false : Filter ν) := by
  unfold filterOf
  rw [argument_filterType, trimSpace_kindOf, h, kindOf, if_neg (by decide), if_neg (by decide),
    if_pos rfl]

theorem filterOf_of_sql {s : Sql ν} (h : rule.filter = .sql s) :
    filterOf (bindingOf print topic subscription rule) =
      if trimSpace s.expression = "" then .error .needsExpression
      else .ok (.sql (⟨trimSpace s.expression, ∅⟩ : Sql ν)) := by
  unfold filterOf
  rw [argument_filterType, trimSpace_kindOf, expressionOf_bindingOf print topic subscription rule h, h,
    kindOf, if_pos rfl]

theorem filterOf_of_correlation {f : CorrelationFilter ν} (h : rule.filter = .correlation f) :
    filterOf (bindingOf print topic subscription rule) =
      if (@correlationFilterOf ν (bindingOf print topic subscription rule).arguments).2 then
        .ok (.correlation
          (@correlationFilterOf ν (bindingOf print topic subscription rule).arguments).1)
      else .error .needsField := by
  unfold filterOf
  rw [argument_filterType, trimSpace_kindOf, h, kindOf, if_neg (by decide), if_pos rfl]

end Listing

/-- The action that is made of a listed one. -/
def readAction (action : Option (Sql ν)) : Option (Sql ν) :=
  if trimSpace ((action.map Sql.expression).getD "") ≠ "" then
    some ⟨trimSpace ((action.map Sql.expression).getD ""), ∅⟩
  else none

theorem ruleOptions_eq_ok {name : String} {binding : Binding} {made : Rule ν} :
    ruleOptions name binding = .ok made ↔
      ∃ filter, filterOf binding = .ok filter ∧ made = ⟨name, filter,
        if trimSpace (binding.argument argAction) ≠ "" then
          some ⟨trimSpace (binding.argument argAction), ∅⟩
        else none⟩ := by
  unfold ruleOptions
  cases filterOf binding with
  | error refusal =>
    constructor
    · intro h
      cases h
    · rintro ⟨filter, h, -⟩
      cases h
  | ok filter =>
    constructor
    · intro h
      cases h
      exact ⟨filter, rfl, rfl⟩
    · rintro ⟨other, h, rfl⟩
      cases h
      rfl

/-- A rule comes back exactly where a filter comes back that has the same effect with what is made
of the action. -/
theorem recreates_iff_filter (svc : Service ν ρ) (topic subscription : String) (rule : Rule ν) :
    svc.Recreates topic subscription rule ↔
      ∃ filter, filterOf (bindingOf svc.sprint topic subscription rule) = .ok filter ∧
        svc.effect ⟨rule.name, filter, readAction rule.action⟩ = svc.effect rule := by
  unfold Service.Recreates
  simp only [ruleOptions_eq_ok, argument_action]
  constructor
  · rintro ⟨_, ⟨filter, hfilter, rfl⟩, -, heffect⟩
    exact ⟨filter, hfilter, heffect⟩
  · rintro ⟨filter, hfilter, heffect⟩
    exact ⟨_, ⟨filter, hfilter, rfl⟩, rfl, heffect⟩

section Effect

variable {svc : Service ν ρ} {r r' : Rule ν}

/-- The parts of an effect. -/
theorem effect_congr (hfilter : svc.accepts r.filter = svc.accepts r'.filter)
    (haction : svc.changes r.action = svc.changes r'.action) : svc.effect r = svc.effect r' := by
  unfold Service.effect
  rw [hfilter, haction]

/-- Rules of one effect take the same messages. -/
theorem accepts_eq_of_effect_eq (h : svc.effect r = svc.effect r') (hheld : svc.Holds r') :
    svc.accepts r.filter = svc.accepts r'.filter := by
  obtain ⟨effect, heffect⟩ := Option.isSome_iff_exists.mp hheld
  rw [heffect] at h
  simp only [Service.effect, Option.bind_eq_some_iff, Option.map_eq_some_iff] at h heffect
  obtain ⟨takes, htakes, change, -, rfl⟩ := h
  obtain ⟨takes', htakes', change', -, heq⟩ := heffect
  rw [htakes, htakes']
  congr 1
  funext m
  have hm := congrFun heq m
  cases ht : takes m <;> cases ht' : takes' m <;> simp [ht, ht'] at hm ⊢

/-- The action of a rule that is held is made again, without its parameters. -/
theorem changes_readAction (hheld : svc.Holds r) :
    svc.changes (readAction r.action) = svc.changes (r.action.map Sql.bare) := by
  unfold readAction
  cases haction : r.action with
  | none => simp [show trimSpace "" = "" by decide, Service.changes]
  | some a =>
    have hblank : trimSpace a.expression ≠ "" := by
      intro hblank
      unfold Service.Holds Service.effect at hheld
      rw [haction] at hheld
      simp [Service.changes, svc.change_blank a hblank] at hheld
    simp only [Option.map_some, Option.getD_some, ne_eq, hblank, not_false_eq_true, if_true]
    exact svc.change_trim a.bare

theorem accepts_of_sql (svc : Service ν ρ) (s : Sql ν) :
    svc.accepts (.sql ⟨trimSpace s.expression, ∅⟩) = svc.accepts (Filter.sql s).bare :=
  svc.condition_trim s.bare

end Effect

/-- **A correlation filter that comes back**: what is made of its listing takes the same messages
exactly where the filter is plain. -/
theorem read_back_iff [Inhabited ρ] (svc : Service ν ρ) {print : ν → String}
    {f g : CorrelationFilter ν} (h : ReadBack print f g) :
    (g.NonEmpty ∧ svc.accepts (.correlation g) = svc.accepts (.correlation f)) ↔ f.Plain := by
  constructor
  · rintro ⟨hg, haccepts⟩
    have haccepted : f.accepts svc.same (g.pattern (default : ρ)) = true := by
      rw [← Option.some.inj haccepts]
      exact h.accepts_pattern svc default
    exact h.plain_of_accepts svc hg haccepted
  · intro hf
    obtain rfl := h.eq_of_plain hf
    exact ⟨hf.nonEmpty, rfl⟩

/-- A correlation filter is plain where the rule has one. -/
def Rule.Plain (rule : Rule ν) : Prop := ∀ f, rule.filter = .correlation f → f.Plain

section Recreated

variable {svc : Service ν ρ} {topic subscription : String} {rule : Rule ν}

/-- Where the filter comes back without its parameters, the rule does. -/
theorem recreates_iff_of_filter (hheld : svc.Holds rule) {filter : Filter ν}
    (hmade : filterOf (bindingOf svc.sprint topic subscription rule) = .ok filter)
    (hsame : svc.accepts filter = svc.accepts rule.filter.bare) :
    svc.Recreates topic subscription rule ↔ svc.effect rule.bare = svc.effect rule := by
  have heffect : svc.effect ⟨rule.name, filter, readAction rule.action⟩ = svc.effect rule.bare := by
    have haction := changes_readAction hheld
    simp only [Service.effect, Rule.bare, hsame, haction]
  rw [recreates_iff_filter]
  constructor
  · rintro ⟨other, hother, hback⟩
    obtain rfl : filter = other := Except.ok.inj (hmade.symm.trans hother)
    exact heffect.symm.trans hback
  · intro hbare
    exact ⟨filter, hmade, heffect.trans hbare⟩

/-- A correlation filter that came back with its rule is plain. -/
theorem plain_of_recreates [Inhabited ρ] (hheld : svc.Holds rule)
    (h : svc.Recreates topic subscription rule) : rule.Plain := by
  intro f hf
  obtain ⟨filter, hmade, heffect⟩ := (recreates_iff_filter svc topic subscription rule).mp h
  have haccepts := accepts_eq_of_effect_eq heffect hheld
  have hread := readBack_bindingOf svc.sprint topic subscription rule hf
  rw [filterOf_of_correlation _ _ _ _ hf] at hmade
  split at hmade
  · rename_i hgiven
    cases hmade
    rw [hf] at haccepts
    exact (read_back_iff svc hread).mp ⟨(correlationFilterOf_given _).mp hgiven, haccepts⟩
  · cases hmade

/-- A plain correlation filter is made again. -/
theorem filterOf_of_plain {f : CorrelationFilter ν} (hf : rule.filter = .correlation f)
    (hplain : f.Plain) :
    filterOf (bindingOf svc.sprint topic subscription rule) = .ok (.correlation f) := by
  have hread := readBack_bindingOf svc.sprint topic subscription rule hf
  have hsame := hread.eq_of_plain hplain
  have hgiven := (correlationFilterOf_given (ν := ν)
    (bindingOf svc.sprint topic subscription rule).arguments).mpr (hsame ▸ hplain.nonEmpty)
  rw [filterOf_of_correlation _ _ _ _ hf, if_pos hgiven, hsame]

end Recreated

/-- **Rules that come back**: a rule that the service holds comes back from its listing as the same
rule exactly where its correlation filter is plain, if it has one, and its SQL texts do without their
parameters. -/
theorem recreated_iff [Inhabited ρ] (svc : Service ν ρ) (topic subscription : String) (rule : Rule ν)
    (hheld : svc.Holds rule) :
    svc.Recreates topic subscription rule ↔
      rule.Plain ∧ svc.effect rule.bare = svc.effect rule := by
  cases hfilter : rule.filter with
  | true =>
    have hplain : rule.Plain := fun f hf => by rw [hfilter] at hf; cases hf
    rw [recreates_iff_of_filter hheld (filterOf_of_true _ _ _ _ hfilter) (by rw [hfilter]; rfl)]
    exact ⟨fun h => ⟨hplain, h⟩, fun h => h.2⟩
  | false =>
    have hplain : rule.Plain := fun f hf => by rw [hfilter] at hf; cases hf
    rw [recreates_iff_of_filter hheld (filterOf_of_false _ _ _ _ hfilter) (by rw [hfilter]; rfl)]
    exact ⟨fun h => ⟨hplain, h⟩, fun h => h.2⟩
  | sql s =>
    have hplain : rule.Plain := fun f hf => by rw [hfilter] at hf; cases hf
    have hblank : trimSpace s.expression ≠ "" := by
      intro hblank
      unfold Service.Holds Service.effect at hheld
      rw [hfilter] at hheld
      simp [Service.accepts, svc.condition_blank s hblank] at hheld
    have hmade := filterOf_of_sql svc.sprint topic subscription rule hfilter
    rw [if_neg hblank] at hmade
    rw [recreates_iff_of_filter hheld hmade (by rw [hfilter]; exact accepts_of_sql svc s)]
    exact ⟨fun h => ⟨hplain, h⟩, fun h => h.2⟩
  | correlation f =>
    have hback (hplain : f.Plain) : svc.Recreates topic subscription rule ↔
        svc.effect rule.bare = svc.effect rule :=
      recreates_iff_of_filter hheld (filterOf_of_plain hfilter hplain) (by rw [hfilter]; rfl)
    constructor
    · intro h
      have hplain := plain_of_recreates hheld h
      exact ⟨hplain, (hback (hplain f hfilter)).mp h⟩
    · rintro ⟨hplain, hbare⟩
      exact (hback (hplain f hfilter)).mpr hbare

/-! ## Two rules -/

/-- A service that knows numbers, the condition that is always true and an action that labels. -/
def plainService : Service Int Unit where
  same v w := v = w
  condition s := if trimSpace s.expression = "1=1" then some fun _ => true else none
  change s :=
    if trimSpace s.expression = "SET sys.Label = 'seen'" then
      some fun m => { m with system := Function.update m.system .subject (some "seen") }
    else none
  sprint v := toString v
  same_text s v := by simp [eq_comm]
  text_same v s := by simp
  condition_trim s := by simp [trimSpace_trimSpace]
  change_trim s := by simp [trimSpace_trimSpace]
  condition_blank s h := by simp [h]
  change_blank s h := by simp [h]

/-- A rule that compares the subject. -/
def redRule : Rule Int where
  name := "red"
  filter := .correlation ⟨fun field => if field = .subject then some "red" else none, ∅⟩
  action := some ⟨"SET sys.Label = 'seen'", ∅⟩

/-- A rule that compares a property with the number 5. -/
def priorityRule : Rule Int where
  name := "urgent"
  filter := .correlation ⟨fun _ => none, (∅ : Properties Int).insert "priority" (.other 5)⟩
  action := none

theorem holds_redRule : plainService.Holds redRule := by
  have hblank : trimSpace "SET sys.Label = 'seen'" = "SET sys.Label = 'seen'" := by decide
  simp [Service.Holds, Service.effect, Service.accepts, Service.changes, redRule, plainService, hblank]

theorem plain_redRule : redRule.Plain := by
  rintro f ⟨⟩
  refine ⟨⟨"subject", ?_⟩, ?_, ?_⟩
  · exact fun h => absurd h (by simp [CorrelationFilter.compared, show Field.ofKey? "subject" =
      some .subject by decide])
  · intro field v hv
    simp only [Option.ite_none_right_eq_some, Option.some.injEq] at hv
    obtain ⟨-, rfl⟩ := hv
    decide
  · intro name v hv
    simp at hv

/-- The rule on the subject comes back as itself. -/
theorem recreated_red : plainService.Holds redRule ∧
    plainService.Recreates "orders" "audit" redRule :=
  ⟨holds_redRule, (recreated_iff plainService "orders" "audit" redRule holds_redRule).mpr
    ⟨plain_redRule, rfl⟩⟩

/-- The number 5 comes back as a text, which no number is the same as. -/
theorem priority_comes_back_as_text : plainService.Holds priorityRule ∧
    ¬ plainService.Recreates "orders" "audit" priorityRule := by
  have hheld : plainService.Holds priorityRule := by
    simp [Service.Holds, Service.effect, Service.accepts, Service.changes, priorityRule]
  refine ⟨hheld, fun h => ?_⟩
  obtain ⟨-, s, hs, -⟩ := (plain_of_recreates hheld h _ rfl).property "priority" (.other 5)
    (by simp)
  cases hs

end MqStudio.Driver.ServiceBus.Routing
