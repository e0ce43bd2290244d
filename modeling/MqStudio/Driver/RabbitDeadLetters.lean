import Mathlib.Data.List.Nodup
import MqStudio.Lib.Grouping
import MqStudio.Lib.Words

/-!
# The Queues That Dead Letters Land In

`internal/driver/rabbitmq/deadletter.go`. The page of dead-letter queues is a walk over one hop: from
a queue with a dead-letter exchange to the bindings out of that exchange whose key is the declared
one. The broker routes by the type of the exchange, over any number of exchanges, and through the
default exchange under whatever key the message has.

A topology is what the two listings of a virtual host say, and the types of its exchanges, which the
walk does not read. How a headers exchange or one of a plugin takes a message is a parameter.

## Main results

- `mem_deadLetterTargets`: the bindings that the walk follows.
- `listed_iff`: what is on the page, and how often.
- `target_or_reachesPast`: a dead letter reaches a queue that the walk finds, or past the walk.
- `complete_iff`: the page has every queue that dead letters can reach exactly where what they reach
  past the walk is also bound where the walk looks.
- `orders_missing`: a queue bound to a topic exchange by `orders.*` is not on the page.
-/

namespace MqStudio.Driver.RabbitMQ.DeadLetters

open MqStudio.Lib
open MqStudio.Lib.TreeMap
open MqStudio.Lib.Grouping

/-! ## The listings -/

/-- A value of an argument, with what `fmt.Sprint` makes of one that is not a string. -/
inductive Argument where
  | text (s : String)
  | other (printed : String)
  deriving DecidableEq

/-- `ArgDeadLetterExchange` -/
def argDeadLetterExchange : String := "x-dead-letter-exchange"

/-- `ArgDeadLetterRoutingKey` -/
def argDeadLetterRoutingKey : String := "x-dead-letter-routing-key"

/-- `rabbithole.QueueInfo`. The broker declares no queue whose dead-letter arguments are not
strings. -/
structure QueueInfo where
  name : String
  vhost : String
  arguments : String → Option Argument
  messagesReady : Int
  messagesUnacknowledged : Int
  consumers : Int
  strings : ∀ key ∈ [argDeadLetterExchange, argDeadLetterRoutingKey],
    ∀ argument, arguments key = some argument → ∃ s, argument = .text s

/-- `rabbithole.BindingInfo` -/
structure BindingInfo where
  source : String
  destination : String
  destinationType : String
  routingKey : String
  arguments : List (String × String)
  deriving DecidableEq

/-- `model.DeadLetterSource` -/
structure DeadLetterSource where
  queue : String
  exchange : String
  routingKey : String
  deriving DecidableEq

/-- `model.DeadLetterQueue` -/
structure DeadLetterQueue where
  vhost : String
  name : String
  depth : Int
  consumers : Int
  sources : List DeadLetterSource

/-! ## The walk -/

/-- `stringArgument` -/
def stringArgument (arguments : String → Option Argument) (key : String) : Option String :=
  (arguments key).map fun
    | .text s => s
    | .other printed => printed

/-- The routing key that the walk takes for a source. -/
def routingKeyOf (source : QueueInfo) : String :=
  (stringArgument source.arguments argDeadLetterRoutingKey).getD ""

/-- The bindings that the walk follows out of an exchange. -/
def Follows (exchange routingKey : String) (binding : BindingInfo) : Prop :=
  binding.source = exchange ∧ binding.destinationType = "queue" ∧
    (routingKey = "" ∨ binding.routingKey = routingKey ∨ binding.routingKey = "")

instance (exchange routingKey : String) (binding : BindingInfo) :
    Decidable (Follows exchange routingKey binding) :=
  inferInstanceAs (Decidable (_ ∧ _ ∧ _))

/-- `deadLetterTargets` -/
def deadLetterTargets (exchange routingKey : String) (bindings : List BindingInfo) : List String :=
  if exchange = "" then (if routingKey = "" then [] else [routingKey])
  else
    bindings.foldl (fun names binding =>
      if Follows exchange routingKey binding then
        if binding.destination ∈ names then names else names ++ [binding.destination]
      else names) []

/-- One queue in the loop of `DeadLetterQueues`. -/
def visit (bindings : List BindingInfo) (targets : Groups String DeadLetterSource)
    (source : QueueInfo) : Groups String DeadLetterSource :=
  match stringArgument source.arguments argDeadLetterExchange with
  | none => targets
  | some exchange =>
    (deadLetterTargets exchange (routingKeyOf source) bindings).foldl (fun targets name =>
      if name = source.name then targets
      else add targets (name, ⟨source.name, exchange, routingKeyOf source⟩)) targets

/-- The row of a queue. -/
def rowOf (targets : Groups String DeadLetterSource) (queue : QueueInfo) : DeadLetterQueue where
  vhost := queue.vhost
  name := queue.name
  depth := queue.messagesReady + queue.messagesUnacknowledged
  consumers := queue.consumers
  sources := (targets.1[queue.name]?).getD []

/-- `DeadLetterQueues`, of the two listings. -/
def deadLetterQueues (queues : List QueueInfo) (bindings : List BindingInfo) :
    List DeadLetterQueue :=
  let targets := queues.foldl (visit bindings) (∅, [])
  targets.2.filterMap fun name => ((collect QueueInfo.name queues)[name]?).map (rowOf targets)

/-! ## The broker -/

/-- A message, by what it is routed on. -/
structure Message where
  key : String
  headers : List (String × String)

/-- The type of an exchange. -/
inductive ExchangeType where
  | direct
  | fanout
  | topic
  | headers
  | plugin (kind : String)

/-- The words of a routing key. -/
def wordsOf (key : String) : List (List Char) :=
  if key = "" then [] else key.toList.splitOn '.'

/-- A topic pattern: a star is one word, a hash is any number of words. -/
def topicMatches : List (List Char) → List (List Char) → Bool
  | [], words => words.isEmpty
  | pattern :: rest, words =>
    if pattern = ['#'] then words.tails.any fun left => topicMatches rest left
    else
      match words with
      | [] => false
      | word :: left => (pattern = ['*'] || pattern = word) && topicMatches rest left

/-- What a broker does beyond the four simple rules. -/
structure Broker where
  /-- a headers exchange on a binding -/
  headersMatch : BindingInfo → List (String × String) → Bool
  /-- an exchange of a plugin on a binding -/
  pluginMatch : String → BindingInfo → Message → Bool
  /-- the headers of a message that dies -/
  onDeath : List (String × String) → List (String × String)

/-- A virtual host: its queues, each of a name of its own, its bindings, and its exchanges. -/
structure Topology where
  queues : List QueueInfo
  bindings : List BindingInfo
  typeOf : String → ExchangeType
  distinct : queues.Pairwise fun a b => a.name ≠ b.name

variable (b : Broker) (t : Topology)

/-- An exchange takes a message over one of its bindings. -/
def Takes (binding : BindingInfo) (m : Message) : Bool :=
  match t.typeOf binding.source with
  | .direct => binding.routingKey = m.key
  | .fanout => true
  | .topic => topicMatches (wordsOf binding.routingKey) (wordsOf m.key)
  | .headers => b.headersMatch binding m.headers
  | .plugin kind => b.pluginMatch kind binding m

/-- A message at an exchange is put into a queue. -/
inductive Routes (m : Message) : String → String → Prop where
  /-- The default exchange routes by the name of the queue. -/
  | name (queue : QueueInfo) : queue ∈ t.queues → queue.name = m.key → Routes m "" queue.name
  /-- A binding to a queue. -/
  | queue (binding : BindingInfo) : binding ∈ t.bindings → binding.source ≠ "" →
      binding.destinationType = "queue" → Takes b t binding m = true →
      Routes m binding.source binding.destination
  /-- A binding to an exchange, and on from there. -/
  | exchange (binding : BindingInfo) (queue : String) : binding ∈ t.bindings →
      binding.source ≠ "" → binding.destinationType = "exchange" → Takes b t binding m = true →
      Routes m binding.destination queue → Routes m binding.source queue

/-- The key under which a message dies: the declared one, or its own. -/
def deadKey (source : QueueInfo) (m : Message) : String :=
  (stringArgument source.arguments argDeadLetterRoutingKey).getD m.key

/-- The message as it is sent to the dead-letter exchange. -/
def deadLetter (source : QueueInfo) (m : Message) : Message :=
  ⟨deadKey source m, b.onDeath m.headers⟩

/-- A message that the queue can hold: one that some exchange routes into it. -/
def CanHold (queue : QueueInfo) (m : Message) : Prop := ∃ exchange, Routes b t m exchange queue.name

/-- The broker can put a dead letter of the source into a queue. -/
def CanReach (source queue : QueueInfo) : Prop :=
  ∃ exchange m, stringArgument source.arguments argDeadLetterExchange = some exchange ∧
    CanHold b t source m ∧ Routes b t (deadLetter b source m) exchange queue.name

/-! ## What the walk finds -/

variable {b : Broker} {t : Topology} {queues : List QueueInfo} {bindings : List BindingInfo}

/-- The names that the loop gathers, each once. -/
theorem targets_loop (exchange routingKey : String) (bindings : List BindingInfo)
    (names : List String) (hnodup : names.Nodup) :
    let found := bindings.foldl (fun names binding =>
      if Follows exchange routingKey binding then
        if binding.destination ∈ names then names else names ++ [binding.destination]
      else names) names
    found.Nodup ∧ ∀ name, name ∈ found ↔ name ∈ names ∨
      ∃ binding ∈ bindings, Follows exchange routingKey binding ∧ binding.destination = name := by
  induction bindings generalizing names with
  | nil => simpa using hnodup
  | cons binding rest ih =>
    simp only [List.foldl_cons, List.mem_cons, exists_eq_or_imp]
    by_cases hfollows : Follows exchange routingKey binding
    · simp only [hfollows, if_true, true_and]
      by_cases hmem : binding.destination ∈ names
      · simp only [hmem, if_true]
        obtain ⟨hfound, hiff⟩ := ih names hnodup
        refine ⟨hfound, fun name => (hiff name).trans ⟨?_, ?_⟩⟩
        · rintro (hold | hlater)
          · exact .inl hold
          · exact .inr (.inr hlater)
        · rintro (hold | rfl | hlater)
          · exact .inl hold
          · exact .inl hmem
          · exact .inr hlater
      · simp only [hmem, if_false]
        obtain ⟨hfound, hiff⟩ := ih (names ++ [binding.destination])
          (List.nodup_append.mpr ⟨hnodup, by simp, fun a ha c hc hac => by
            rw [List.mem_singleton] at hc
            rw [hac, hc] at ha
            exact hmem ha⟩)
        refine ⟨hfound, fun name => (hiff name).trans ?_⟩
        rw [List.mem_append, List.mem_singleton, or_assoc, eq_comm]
    · simp only [hfollows, if_false, false_and, false_or]
      exact ih names hnodup

/-- **Targets**: the default exchange gives the queue of the key, any other the destinations of the
bindings that the walk follows. -/
theorem mem_deadLetterTargets {exchange routingKey name : String} :
    name ∈ deadLetterTargets exchange routingKey bindings ↔
      (exchange = "" ∧ routingKey ≠ "" ∧ name = routingKey) ∨
        (exchange ≠ "" ∧ ∃ binding ∈ bindings, Follows exchange routingKey binding ∧
          binding.destination = name) := by
  unfold deadLetterTargets
  by_cases hexchange : exchange = ""
  · by_cases hkey : routingKey = "" <;> simp [hexchange, hkey]
  · rw [if_neg hexchange]
    have hloop := (targets_loop exchange routingKey bindings [] List.nodup_nil).2 name
    simp only [List.not_mem_nil, false_or] at hloop
    simp [hexchange, hloop]

theorem nodup_deadLetterTargets (exchange routingKey : String) (bindings : List BindingInfo) :
    (deadLetterTargets exchange routingKey bindings).Nodup := by
  unfold deadLetterTargets
  split
  · split <;> simp
  · exact (targets_loop exchange routingKey bindings [] List.nodup_nil).1

/-- The pairs of a target and a source that the loop gathers for one queue. -/
def edgesOf (bindings : List BindingInfo) (source : QueueInfo) : List (String × DeadLetterSource) :=
  match stringArgument source.arguments argDeadLetterExchange with
  | none => []
  | some exchange =>
    ((deadLetterTargets exchange (routingKeyOf source) bindings).filter (· ≠ source.name)).map
      fun name => (name, ⟨source.name, exchange, routingKeyOf source⟩)

theorem visit_eq (targets : Groups String DeadLetterSource) (source : QueueInfo) :
    visit bindings targets source = (edgesOf bindings source).foldl add targets := by
  unfold visit edgesOf
  cases stringArgument source.arguments argDeadLetterExchange with
  | none => rfl
  | some exchange =>
    simp only
    generalize deadLetterTargets exchange (routingKeyOf source) bindings = names
    induction names generalizing targets with
    | nil => rfl
    | cons name rest ih =>
      rw [List.foldl_cons, ih]
      by_cases hname : name = source.name <;> simp [hname]

/-- The loop gathers the pairs of every queue. -/
theorem visit_group (queues : List QueueInfo) (bindings : List BindingInfo) :
    queues.foldl (visit bindings) (∅, []) = group (queues.flatMap (edgesOf bindings)) := by
  unfold group
  rw [List.foldl_flatMap]
  congr 1
  funext targets source
  exact visit_eq targets source

/-- The pairs of one queue. -/
theorem mem_edgesOf {source : QueueInfo} {edge : String × DeadLetterSource} :
    edge ∈ edgesOf bindings source ↔ ∃ exchange,
      stringArgument source.arguments argDeadLetterExchange = some exchange ∧
        edge.1 ∈ deadLetterTargets exchange (routingKeyOf source) bindings ∧ edge.1 ≠ source.name ∧
          edge.2 = ⟨source.name, exchange, routingKeyOf source⟩ := by
  unfold edgesOf
  cases stringArgument source.arguments argDeadLetterExchange with
  | none => simp
  | some exchange =>
    simp only [List.mem_map, List.mem_filter, decide_eq_true_eq, Option.some.injEq, exists_eq_left']
    constructor
    · rintro ⟨name, ⟨hname, hne⟩, rfl⟩
      exact ⟨hname, hne, rfl⟩
    · rintro ⟨hname, hne, hsource⟩
      exact ⟨edge.1, ⟨hname, hne⟩, Prod.ext rfl hsource.symm⟩

/-- A target and the name of its source. -/
def endsOf (edge : String × DeadLetterSource) : String × String := (edge.1, edge.2.queue)

/-- No queue is gathered twice for one source, where no two queues have one name. -/
theorem nodup_edges (hdistinct : queues.Pairwise fun a c => a.name ≠ c.name) :
    ((queues.flatMap (edgesOf bindings)).map endsOf).Nodup := by
  rw [List.map_flatMap, List.nodup_flatMap]
  constructor
  · intro source _
    unfold edgesOf
    cases stringArgument source.arguments argDeadLetterExchange with
    | none => exact List.nodup_nil
    | some exchange =>
      simp only [List.map_map]
      refine List.Nodup.map ?_ ((nodup_deadLetterTargets _ _ _).filter _)
      intro a c hac
      exact congrArg Prod.fst hac
  · refine hdistinct.imp ?_
    intro a c hac
    rw [Function.onFun_apply, List.disjoint_left]
    intro ends ha hc
    obtain ⟨edge, hedge, rfl⟩ := List.mem_map.mp ha
    obtain ⟨edge', hedge', hends⟩ := List.mem_map.mp hc
    obtain ⟨_, _, _, _, hsource⟩ := mem_edgesOf.mp hedge
    obtain ⟨_, _, _, _, hsource'⟩ := mem_edgesOf.mp hedge'
    have hqueue := congrArg Prod.snd hends
    simp only [endsOf, hsource, hsource'] at hqueue
    exact hac hqueue.symm

/-! ## What is on the page -/

/-- The page of a virtual host. -/
def Topology.page (t : Topology) : List DeadLetterQueue := deadLetterQueues t.queues t.bindings

/-- The pairs that the walk gathers. -/
def Topology.edges (t : Topology) : List (String × DeadLetterSource) :=
  t.queues.flatMap (edgesOf t.bindings)

/-- The queue is on the page once, with the source among its sources once. -/
def Listed (page : List DeadLetterQueue) (queue source : String) : Prop :=
  page.countP (fun row => row.name = queue) = 1 ∧
    ∀ row ∈ page, row.name = queue → row.sources.countP (fun from_ => from_.queue = source) = 1

theorem Topology.lookup_queue {name : String} {queue : QueueInfo} :
    (collect QueueInfo.name t.queues)[name]? = some queue ↔ queue ∈ t.queues ∧ queue.name = name :=
  getElem?_collect t.distinct

/-- A queue is its name. -/
theorem Topology.queue_eq {a c : QueueInfo} (ha : a ∈ t.queues) (hc : c ∈ t.queues)
    (h : a.name = c.name) : a = c :=
  Option.some.inj ((t.lookup_queue.mpr ⟨ha, h⟩).symm.trans (t.lookup_queue.mpr ⟨hc, rfl⟩))

theorem sources_rowOf (queue : QueueInfo) :
    (rowOf (group t.edges) queue).sources = valuesOf t.edges queue.name := by
  show ((group t.edges).1[queue.name]?).getD [] = _
  rw [lookup_group]
  split
  · rename_i hnone
    rw [hnone]
    rfl
  · rfl

/-- A row of the page is of a queue that is a target. -/
theorem mem_page {row : DeadLetterQueue} : row ∈ t.page ↔
    ∃ queue ∈ t.queues, (∃ source, (queue.name, source) ∈ t.edges) ∧
      row = rowOf (group t.edges) queue := by
  unfold Topology.page deadLetterQueues
  simp only [visit_group, List.mem_filterMap, Option.map_eq_some_iff]
  constructor
  · rintro ⟨name, hname, queue, hlookup, rfl⟩
    obtain ⟨hqueue, rfl⟩ := t.lookup_queue.mp hlookup
    exact ⟨queue, hqueue, ((order_group _).2 _).mp hname, rfl⟩
  · rintro ⟨queue, hqueue, hsource, rfl⟩
    exact ⟨queue.name, ((order_group _).2 _).mpr hsource, queue,
      t.lookup_queue.mpr ⟨hqueue, rfl⟩, rfl⟩

/-- No queue is on the page twice. -/
theorem nodup_page (t : Topology) : (t.page.map DeadLetterQueue.name).Nodup := by
  unfold Topology.page deadLetterQueues
  simp only [visit_group, List.map_filterMap]
  refine List.Nodup.filterMap ?_ (order_group _).1
  intro name name' found hfound hfound'
  simp only [Option.mem_def, Option.map_map, Option.map_eq_some_iff] at hfound hfound'
  obtain ⟨queue, hlookup, rfl⟩ := hfound
  obtain ⟨queue', hlookup', hsame⟩ := hfound'
  obtain ⟨-, rfl⟩ := t.lookup_queue.mp hlookup
  obtain ⟨-, rfl⟩ := t.lookup_queue.mp hlookup'
  exact hsame.symm

/-- A pair of ends is gathered once or not at all. -/
theorem countP_sources (queue source : String) :
    (valuesOf t.edges queue).countP (fun from_ => from_.queue = source) =
      (t.edges.map endsOf).count (queue, source) := by
  unfold valuesOf
  rw [List.countP_map, List.countP_filter, List.count, List.countP_map]
  refine List.countP_congr fun edge _ => ?_
  simp [endsOf, Prod.ext_iff, and_comm]

theorem mem_ends {queue source : QueueInfo} (hsource : source ∈ t.queues)
    (hne : queue.name ≠ source.name) :
    (queue.name, source.name) ∈ t.edges.map endsOf ↔ ∃ exchange,
      stringArgument source.arguments argDeadLetterExchange = some exchange ∧
        queue.name ∈ deadLetterTargets exchange (routingKeyOf source) t.bindings := by
  simp only [List.mem_map, Topology.edges, List.mem_flatMap]
  constructor
  · rintro ⟨edge, ⟨from_, hfrom, hedge⟩, hends⟩
    obtain ⟨exchange, hdeclared, hmem, -, hvalue⟩ := mem_edgesOf.mp hedge
    obtain ⟨hname, hqueue⟩ := Prod.ext_iff.mp hends
    simp only [endsOf, hvalue] at hname hqueue
    obtain rfl := t.queue_eq hfrom hsource hqueue
    exact ⟨exchange, hdeclared, hname ▸ hmem⟩
  · rintro ⟨exchange, hdeclared, hmem⟩
    exact ⟨(queue.name, ⟨source.name, exchange, routingKeyOf source⟩),
      ⟨source, hsource, mem_edgesOf.mpr ⟨exchange, hdeclared, hmem, hne, rfl⟩⟩, rfl⟩

/-- **What is on the page**: a queue is listed with a source, once, exactly where it is a target of
the source. -/
theorem listed_iff {queue source : QueueInfo} (hqueue : queue ∈ t.queues)
    (hsource : source ∈ t.queues) (hne : queue.name ≠ source.name) :
    Listed t.page queue.name source.name ↔ ∃ exchange,
      stringArgument source.arguments argDeadLetterExchange = some exchange ∧
        queue.name ∈ deadLetterTargets exchange (routingKeyOf source) t.bindings := by
  rw [← mem_ends hsource hne]
  constructor
  · rintro ⟨hcount, hrows⟩
    obtain ⟨row, hrow, hname⟩ := List.countP_pos_iff.mp (by rw [hcount]; exact Nat.one_pos)
    have hname : row.name = queue.name := of_decide_eq_true hname
    have hone := hrows row hrow hname
    obtain ⟨found, -, -, rfl⟩ := mem_page.mp hrow
    rw [sources_rowOf, countP_sources] at hone
    have hfound : found.name = queue.name := hname
    rw [← hfound]
    exact List.count_pos_iff.mp (by rw [hone]; exact Nat.one_pos)
  · intro hends
    have hedge : ∃ source, (queue.name, source) ∈ t.edges := by
      obtain ⟨edge, hedge, hends⟩ := List.mem_map.mp hends
      have hname : edge.1 = queue.name := congrArg Prod.fst hends
      exact ⟨edge.2, hname ▸ hedge⟩
    constructor
    · have hmem : queue.name ∈ t.page.map DeadLetterQueue.name :=
        List.mem_map.mpr ⟨_, mem_page.mpr ⟨queue, hqueue, hedge, rfl⟩, rfl⟩
      have hcount := List.count_eq_one_of_mem (nodup_page t) hmem
      rw [List.count, List.countP_map] at hcount
      rw [← hcount]
      refine List.countP_congr fun row _ => ?_
      simp
    · intro row hrow hname
      obtain ⟨found, -, -, rfl⟩ := mem_page.mp hrow
      have hfound : found.name = queue.name := hname
      rw [sources_rowOf, countP_sources, hfound]
      exact List.count_eq_one_of_mem (nodup_edges t.distinct) hends

/-! ## What dead letters reach -/

/-- One step of the broker: by name at the default exchange, over a binding at any other. -/
theorem routes_iff {m : Message} {exchange queue : String} : Routes b t m exchange queue ↔
    (exchange = "" ∧ ∃ found ∈ t.queues, found.name = m.key ∧ found.name = queue) ∨
      (exchange ≠ "" ∧ ∃ binding ∈ t.bindings, binding.source = exchange ∧
        Takes b t binding m = true ∧
          ((binding.destinationType = "queue" ∧ binding.destination = queue) ∨
            (binding.destinationType = "exchange" ∧ Routes b t m binding.destination queue))) := by
  constructor
  · intro h
    cases h with
    | name found hmem hkey => exact .inl ⟨rfl, found, hmem, hkey, rfl⟩
    | queue binding hmem hsource htype htakes =>
      exact .inr ⟨hsource, binding, hmem, rfl, htakes, .inl ⟨htype, rfl⟩⟩
    | exchange binding queue hmem hsource htype htakes hrest =>
      exact .inr ⟨hsource, binding, hmem, rfl, htakes, .inr ⟨htype, hrest⟩⟩
  · rintro (⟨rfl, found, hmem, hkey, rfl⟩ | ⟨hsource, binding, hmem, rfl, htakes, hend⟩)
    · exact .name found hmem hkey
    · rcases hend with ⟨htype, rfl⟩ | ⟨htype, hrest⟩
      · exact .queue binding hmem hsource htype htakes
      · exact .exchange binding queue hmem hsource htype htakes hrest

/-- The queue is bound to the dead-letter exchange of the source where the walk looks. -/
def Bound (t : Topology) (source queue : QueueInfo) : Prop :=
  ∃ exchange, stringArgument source.arguments argDeadLetterExchange = some exchange ∧
    exchange ≠ "" ∧ ∃ binding ∈ t.bindings, Follows exchange (routingKeyOf source) binding ∧
      binding.destination = queue.name

/-- A dead letter of the source comes to the queue past the walk: through the default exchange under
a key that is not declared, over a binding that the type of the exchange takes and the walk does not
follow, or over a second exchange. -/
def ReachesPast (b : Broker) (t : Topology) (source queue : QueueInfo) : Prop :=
  ∃ exchange m, stringArgument source.arguments argDeadLetterExchange = some exchange ∧
    CanHold b t source m ∧
      ((exchange = "" ∧ routingKeyOf source = "" ∧ queue.name = (deadLetter b source m).key) ∨
        (exchange ≠ "" ∧ ∃ binding ∈ t.bindings, binding.source = exchange ∧
          Takes b t binding (deadLetter b source m) = true ∧
            ((binding.destinationType = "queue" ∧ binding.destination = queue.name ∧
                ¬ Follows exchange (routingKeyOf source) binding) ∨
              (binding.destinationType = "exchange" ∧
                Routes b t (deadLetter b source m) binding.destination queue.name))))

/-- A declared key that is not blank is the key of every dead letter. -/
theorem deadKey_of_declared {source : QueueInfo} (h : routingKeyOf source ≠ "") (m : Message) :
    deadKey source m = routingKeyOf source := by
  unfold routingKeyOf at h
  unfold deadKey routingKeyOf
  cases hkey : stringArgument source.arguments argDeadLetterRoutingKey with
  | none =>
    rw [hkey] at h
    exact absurd rfl h
  | some key => rfl

/-- A queue that is reached past the walk is reached. -/
theorem canReach_of_reachesPast {source queue : QueueInfo} (hqueue : queue ∈ t.queues)
    (h : ReachesPast b t source queue) : CanReach b t source queue := by
  obtain ⟨exchange, m, hdeclared, hold, hpast⟩ := h
  refine ⟨exchange, m, hdeclared, hold, routes_iff.mpr ?_⟩
  rcases hpast with ⟨hexchange, -, hkey⟩ | ⟨hexchange, binding, hmem, hsource, htakes, hend⟩
  · exact .inl ⟨hexchange, queue, hqueue, hkey, rfl⟩
  · refine .inr ⟨hexchange, binding, hmem, hsource, htakes, ?_⟩
    rcases hend with ⟨htype, hdest, -⟩ | hrest
    · exact .inl ⟨htype, hdest⟩
    · exact .inr hrest

/-- **Reach**: a dead letter comes to a queue that the walk finds, or past the walk. -/
theorem target_or_reachesPast {source queue : QueueInfo} (h : CanReach b t source queue) :
    (∃ exchange, stringArgument source.arguments argDeadLetterExchange = some exchange ∧
      queue.name ∈ deadLetterTargets exchange (routingKeyOf source) t.bindings) ∨
      ReachesPast b t source queue := by
  obtain ⟨exchange, m, hdeclared, hold, hroutes⟩ := h
  rcases routes_iff.mp hroutes with ⟨hexchange, found, -, hkey, hname⟩ |
    ⟨hexchange, binding, hmem, hsource, htakes, hend⟩
  · by_cases hblank : routingKeyOf source = ""
    · exact .inr ⟨exchange, m, hdeclared, hold, .inl ⟨hexchange, hblank, hname ▸ hkey⟩⟩
    · have hdead : queue.name = routingKeyOf source := by
        rw [← hname, hkey]
        exact deadKey_of_declared hblank m
      exact .inl ⟨exchange, hdeclared,
        mem_deadLetterTargets.mpr (.inl ⟨hexchange, hblank, hdead⟩)⟩
  · rcases hend with ⟨htype, hdest⟩ | hrest
    · by_cases hfollows : Follows exchange (routingKeyOf source) binding
      · exact .inl ⟨exchange, hdeclared,
          mem_deadLetterTargets.mpr (.inr ⟨hexchange, binding, hmem, hfollows, hdest⟩)⟩
      · exact .inr ⟨exchange, m, hdeclared, hold,
          .inr ⟨hexchange, binding, hmem, hsource, htakes, .inl ⟨htype, hdest, hfollows⟩⟩⟩
    · exact .inr ⟨exchange, m, hdeclared, hold,
        .inr ⟨hexchange, binding, hmem, hsource, htakes, .inr hrest⟩⟩

/-- Every queue that dead letters of another can reach is on the page, with that other, once. -/
def Complete (b : Broker) (t : Topology) : Prop :=
  ∀ source ∈ t.queues, ∀ queue ∈ t.queues, queue.name ≠ source.name → CanReach b t source queue →
    Listed t.page queue.name source.name

/-- **The page of dead-letter queues** is complete exactly where each queue that dead letters reach
past the walk is also bound where the walk looks. -/
theorem complete_iff (b : Broker) (t : Topology) : Complete b t ↔
    ∀ source ∈ t.queues, ∀ queue ∈ t.queues, queue.name ≠ source.name →
      ReachesPast b t source queue → Bound t source queue := by
  constructor
  · intro h source hsource queue hqueue hne hpast
    obtain ⟨exchange, hdeclared, htarget⟩ := (listed_iff hqueue hsource hne).mp
      (h source hsource queue hqueue hne (canReach_of_reachesPast hqueue hpast))
    obtain ⟨exchange', m, hdeclared', hold, hways⟩ := hpast
    obtain rfl := Option.some.inj (hdeclared.symm.trans hdeclared')
    rcases mem_deadLetterTargets.mp htarget with ⟨hexchange, hkey, -⟩ | ⟨hexchange, hbinding⟩
    · -- the default exchange with a declared key is where the walk looks
      rcases hways with ⟨-, hblank, -⟩ | ⟨hother, -⟩
      · exact absurd hblank hkey
      · exact absurd hexchange hother
    · exact ⟨exchange, hdeclared, hexchange, hbinding⟩
  · intro h source hsource queue hqueue hne hreach
    rw [listed_iff hqueue hsource hne]
    rcases target_or_reachesPast hreach with htarget | hpast
    · exact htarget
    · obtain ⟨exchange, hdeclared, hexchange, hbinding⟩ := h source hsource queue hqueue hne hpast
      exact ⟨exchange, hdeclared, mem_deadLetterTargets.mpr (.inr ⟨hexchange, hbinding⟩)⟩

/-! ## A topic exchange -/

/-- A queue whose dead letters go to `dlx` under `orders.created`. -/
def ordersQueue : QueueInfo where
  name := "orders"
  vhost := "/"
  arguments key :=
    if key = argDeadLetterExchange then some (.text "dlx")
    else if key = argDeadLetterRoutingKey then some (.text "orders.created")
    else none
  messagesReady := 0
  messagesUnacknowledged := 0
  consumers := 1
  strings := by
    intro key hkey argument hargument
    split at hargument
    · exact ⟨_, (Option.some.inj hargument).symm⟩
    · split at hargument
      · exact ⟨_, (Option.some.inj hargument).symm⟩
      · cases hargument

/-- The queue that keeps them. -/
def deadQueue : QueueInfo where
  name := "orders.dead"
  vhost := "/"
  arguments _ := none
  messagesReady := 40
  messagesUnacknowledged := 0
  consumers := 0
  strings := by
    intro key _ argument hargument
    cases hargument

/-- A topic exchange with a binding for everything about orders. -/
def ordersTopology : Topology where
  queues := [ordersQueue, deadQueue]
  bindings := [⟨"dlx", "orders.dead", "queue", "orders.*", []⟩]
  typeOf _ := .topic
  distinct := by simp [ordersQueue, deadQueue]

/-- A broker without headers exchanges or plugins. -/
def simpleBroker : Broker := ⟨fun _ _ => false, fun _ _ _ => false, fun headers => headers⟩

/-- The dead letters reach the queue, which is not on the page. -/
theorem orders_missing : CanReach simpleBroker ordersTopology ordersQueue deadQueue ∧
    ¬ Listed ordersTopology.page "orders.dead" "orders" ∧
    ¬ Complete simpleBroker ordersTopology := by
  have hreach : CanReach simpleBroker ordersTopology ordersQueue deadQueue := by
    refine ⟨"dlx", ⟨"orders", []⟩, rfl, ⟨"", ?_⟩, ?_⟩
    · exact .name ordersQueue (List.mem_cons_self ..) rfl
    · refine Routes.queue (t := ordersTopology) ⟨"dlx", "orders.dead", "queue", "orders.*", []⟩
        (List.mem_cons_self ..) (by decide) rfl ?_
      decide
  have hmissing : ¬ Listed ordersTopology.page "orders.dead" "orders" := by
    intro h
    have hdead : deadQueue ∈ ordersTopology.queues := by simp [ordersTopology]
    have horders : ordersQueue ∈ ordersTopology.queues := by simp [ordersTopology]
    obtain ⟨exchange, hdeclared, htarget⟩ := (listed_iff hdead horders (by decide)).mp h
    obtain rfl := Option.some.inj hdeclared
    exact absurd htarget (by decide)
  exact ⟨hreach, hmissing, fun h => hmissing (h ordersQueue (by simp [ordersTopology]) deadQueue
    (by simp [ordersTopology]) (by decide) hreach)⟩

end MqStudio.Driver.RabbitMQ.DeadLetters
