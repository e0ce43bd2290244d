import Mathlib.Algebra.GroupWithZero.Nat
import Mathlib.Data.Char
import Mathlib.Data.List.Lex
import Mathlib.Data.List.Sort
import Mathlib.Data.List.TakeWhile
import Mathlib.Order.Lattice
import MqStudio.Lib.Words

/-!
# JMX Object Names of the Two ActiveMQ Brokers

`internal/driver/activemq/objectname.go`. Artemis writes the values of its names in quotes, and
`quote` escapes what would end them or make the name a pattern; Classic writes them bare. A name is
read back by a scanner that honours both.

A text is its runes: every character the code looks at is one byte, so that reading bytes and runes
of valid UTF-8 is the same.

## Main results

- `parseObjectName_string`: a name whose values are quoted, or bare and without a comma, is read back.
- `weight_parseKeys`: a name is read back whole only where no value hides another.
- `names_exactlyOne_iff`: a built name names exactly one destination on Artemis always, on Classic
  where neither the broker nor the destination has a comma, a wildcard or a quote in front.
- `classic_ordersPattern`: on Classic the queue `orders?` makes a pattern, and `a,b` is cut.
-/

namespace MqStudio.Driver.ActiveMQ

open MqStudio.Lib.Words

/-- A string that is valid UTF-8, by its runes. -/
abbrev Text := List Char

/-! ## Quoting -/

/-- One rune of `quote`. -/
def quoteRune (r : Char) : Text :=
  if r = '\\' ∨ r = '"' ∨ r = '*' ∨ r = '?' then ['\\', r]
  else if r = '\n' then ['\\', 'n']
  else [r]

/-- `quote` -/
def quote (value : Text) : Text := '"' :: (value.flatMap quoteRune ++ ['"'])

/-- The loop of `unquote`. -/
def unescape : Text → Text
  | [] => []
  | [c] => [c]
  | c :: d :: rest =>
    if c = '\\' then (if d = 'n' then '\n' else d) :: unescape rest else c :: unescape (d :: rest)

/-- `unquote` -/
def unquote (value : Text) : Text :=
  if value.length < 2 ∨ value.head? ≠ some '"' ∨ value.getLast? ≠ some '"' then value
  else unescape (value.drop 1).dropLast

/-! ## Object names -/

/-- `objectName`: a domain and the keys of a map. -/
structure ObjectName where
  domain : Text
  keys : List (Text × Text)

/-- A key of a map is set. -/
def setKey (key value : Text) : List (Text × Text) → List (Text × Text)
  | [] => [(key, value)]
  | (other, old) :: rest =>
    if other = key then (key, value) :: rest else (other, old) :: setKey key value rest

/-- `newObjectName` -/
def newObjectName (domain : Text) : ObjectName := ⟨domain, []⟩

/-- `with` -/
def ObjectName.withBare (o : ObjectName) (key value : Text) : ObjectName :=
  { o with keys := setKey key value o.keys }

/-- `withQuoted` -/
def ObjectName.withQuoted (o : ObjectName) (key value : Text) : ObjectName :=
  { o with keys := setKey key (quote value) o.keys }

/-- The keys in order, each with its value. -/
def joinPairs (pairs : List (Text × Text)) : Text :=
  [','].intercalate (pairs.map fun pair => pair.1 ++ '=' :: pair.2)

/-- `String` -/
def ObjectName.string (o : ObjectName) : Text :=
  o.domain ++ ':' :: joinPairs (o.keys.insertionSort fun a b => a.1 ≤ b.1)

/-! ## Names of a broker -/

/-- `product` -/
inductive Product where
  | classic
  | artemis
  deriving DecidableEq

/-- `routingType` -/
inductive RoutingType where
  | anycast
  | multicast
  deriving DecidableEq

/-- `destinationKind` -/
inductive DestinationKind where
  | queueKind
  | topicKind
  deriving DecidableEq

/-- `routing` -/
def DestinationKind.routing : DestinationKind → RoutingType
  | .queueKind => .anycast
  | .topicKind => .multicast

/-- The text of a routing type. -/
def RoutingType.text : RoutingType → Text
  | .anycast => "anycast".toList
  | .multicast => "multicast".toList

/-- The text of Classic's destination type. -/
def DestinationKind.text : DestinationKind → Text
  | .queueKind => "Queue".toList
  | .topicKind => "Topic".toList

theorem RoutingType.text_injective : Function.Injective RoutingType.text := by
  intro a b h
  cases a <;> cases b <;> first | rfl | exact absurd h (by decide)

theorem DestinationKind.text_injective : Function.Injective DestinationKind.text := by
  intro a b h
  cases a <;> cases b <;> first | rfl | exact absurd h (by decide)

/-- `classicDomain` -/
def classicDomain : Text := "org.apache.activemq".toList

/-- `artemisDomain` -/
def artemisDomain : Text := "org.apache.activemq.artemis".toList

theorem domain_ne : classicDomain ≠ artemisDomain := by decide

/-- `names` -/
structure Names where
  product : Product
  broker : Text

/-- `artemisQueue` -/
def Names.artemisQueue (n : Names) (address queue : Text) (routing : RoutingType) : Text :=
  ((((((newObjectName artemisDomain).withQuoted "address".toList address).withQuoted
    "broker".toList n.broker).withBare "component".toList "addresses".toList).withQuoted
    "queue".toList queue).withQuoted "routing-type".toList routing.text).withBare
    "subcomponent".toList "queues".toList |>.string

/-- `artemisAddress` -/
def Names.artemisAddress (n : Names) (address : Text) : Text :=
  (((newObjectName artemisDomain).withQuoted "address".toList address).withQuoted
    "broker".toList n.broker).withBare "component".toList "addresses".toList |>.string

/-- `destination` -/
def Names.destination (n : Names) (name : Text) (kind : DestinationKind) : Text :=
  if n.product = .artemis then n.artemisQueue name name kind.routing
  else
    ((((newObjectName classicDomain).withBare "type".toList "Broker".toList).withBare
      "brokerName".toList n.broker).withBare "destinationType".toList kind.text).withBare
      "destinationName".toList name |>.string

/-! ## Reading a name back -/

/-- A quoted value from behind its quote: up to the quote that ends it, and what follows. -/
def closeQuote : Text → Option (Text × Text)
  | [] => none
  | [c] => if c = '"' then some ([c], []) else none
  | c :: d :: rest =>
    -- a backslash takes the next rune with it
    if c = '\\' then (closeQuote rest).map fun cut => (c :: d :: cut.1, cut.2)
    else if c = '"' then some ([c], d :: rest)
    else (closeQuote (d :: rest)).map fun cut => (c :: cut.1, cut.2)

/-- `strings.TrimPrefix(.., ",")` -/
def trimComma (text : Text) : Text := if text.head? = some ',' then text.drop 1 else text

/-- `scanValue`: a value, and what follows it and its comma. -/
def scanValue (rest : Text) : Text × Text :=
  if rest.head? ≠ some '"' then (rest.takeWhile (· ≠ ','), (rest.dropWhile (· ≠ ',')).drop 1)
  else
    match closeQuote (rest.drop 1) with
    | none => (rest, [])
    | some (value, remainder) => ('"' :: value, trimComma remainder)

/-- The two errors of `parseObjectName`. -/
inductive ParseError where
  | noDomain
  | noValue
  deriving DecidableEq

theorem closeQuote_append {text value remainder : Text} (h : closeQuote text = some (value, remainder)) :
    value ++ remainder = text := by
  fun_induction closeQuote text generalizing value with
  | case1 => cases h
  | case2 =>
    cases h
    rfl
  | case3 => cases h
  | case4 d rest ih =>
    obtain ⟨⟨inner, after⟩, hinner, hcut⟩ := Option.map_eq_some_iff.mp h
    cases hcut
    rw [List.cons_append, List.cons_append, ih hinner]
  | case5 =>
    cases h
    rfl
  | case6 c d rest hne hquote ih =>
    obtain ⟨⟨inner, after⟩, hinner, hcut⟩ := Option.map_eq_some_iff.mp h
    cases hcut
    rw [List.cons_append, ih hinner]

theorem trimComma_length_le (text : Text) : (trimComma text).length ≤ text.length := by
  unfold trimComma
  split
  · rw [List.length_drop]
    omega
  · exact Nat.le_refl _

theorem scanValue_length_le (rest : Text) : (scanValue rest).2.length ≤ rest.length := by
  unfold scanValue
  split
  · have := (List.dropWhile_suffix (fun c => decide (c ≠ ',')) (l := rest)).length_le
    simp only [List.length_drop]
    omega
  · split
    · exact Nat.zero_le _
    · rename_i value remainder hclose
      have hwhole := congrArg List.length (closeQuote_append hclose)
      have hcomma := trimComma_length_le remainder
      simp only [List.length_append, List.length_drop] at hwhole
      simp only
      omega

/-- The loop of `parseObjectName`. -/
def parseKeys (rest : Text) (keys : List (Text × Text)) : Except ParseError (List (Text × Text)) :=
  if rest = [] then .ok keys
  else if '=' ∉ rest then .error .noValue
  else
    let key := rest.takeWhile (· ≠ '=')
    let cut := scanValue ((rest.dropWhile (· ≠ '=')).drop 1)
    parseKeys cut.2 (setKey key (unquote cut.1) keys)
  termination_by rest.length
  decreasing_by
    rename_i hrest _
    have hscan := scanValue_length_le ((rest.dropWhile (· ≠ '=')).drop 1)
    have hsuffix := (List.dropWhile_suffix (fun c => decide (c ≠ '=')) (l := rest)).length_le
    have hpos := List.length_pos_of_ne_nil hrest
    rw [List.length_drop] at hscan
    simp only [ne_eq] at hscan hsuffix ⊢
    omega

/-- `parseObjectName` -/
def parseObjectName (raw : Text) : Except ParseError (Text × List (Text × Text)) :=
  if ':' ∉ raw then .error .noDomain
  else
    (parseKeys ((raw.dropWhile (· ≠ ':')).drop 1) []).map fun keys =>
      (raw.takeWhile (· ≠ ':'), keys)

/-! ## What is quoted is read back -/

theorem unescape_quoteRune (r : Char) (rest : Text) :
    unescape (quoteRune r ++ rest) = r :: unescape rest := by
  unfold quoteRune
  split
  · rename_i hspecial
    have hn : r ≠ 'n' := by
      rintro rfl
      revert hspecial
      decide
    simp [unescape, hn]
  · rename_i hspecial
    rw [not_or] at hspecial
    split
    · rename_i hline
      simp [unescape, hline]
    · cases rest with
      | nil => rfl
      | cons d rest => simp [unescape, hspecial.1]

theorem unescape_flatMap (value : Text) : unescape (value.flatMap quoteRune) = value := by
  induction value with
  | nil => rfl
  | cons r rest ih => rw [List.flatMap_cons, unescape_quoteRune, ih]

theorem unquote_quote (value : Text) : unquote (quote value) = value := by
  have hlong : ¬ (quote value).length < 2 := by simp [quote]
  have hinner : ((quote value).drop 1).dropLast = value.flatMap quoteRune := by simp [quote]
  rw [unquote, if_neg, hinner, unescape_flatMap]
  rintro (hshort | hhead | hlast)
  · exact hlong hshort
  · exact hhead rfl
  · apply hlast
    rw [quote, ← List.cons_append, List.getLast?_concat]

theorem closeQuote_quoteRune (r : Char) (rest : Text) :
    closeQuote (quoteRune r ++ rest) =
      (closeQuote rest).map fun cut => (quoteRune r ++ cut.1, cut.2) := by
  unfold quoteRune
  split
  · simp [closeQuote]
  · rename_i hspecial
    simp only [not_or] at hspecial
    split
    · simp [closeQuote]
    · cases rest with
      | nil => simp [closeQuote, hspecial]
      | cons d rest => simp [closeQuote, hspecial]

theorem closeQuote_quote (rest : Text) : closeQuote ('"' :: rest) = some (['"'], rest) := by
  cases rest <;> simp [closeQuote]

theorem closeQuote_flatMap (value rest : Text) :
    closeQuote (value.flatMap quoteRune ++ '"' :: rest) =
      some (value.flatMap quoteRune ++ ['"'], rest) := by
  induction value with
  | nil => exact closeQuote_quote rest
  | cons r more ih =>
    rw [List.flatMap_cons, List.append_assoc, closeQuote_quoteRune, ih]
    simp

/-- How a value stands in a name: the scanner takes all of it, with its comma, and reads it. -/
structure Reads (raw value : Text) : Prop where
  last : scanValue raw = (raw, [])
  next : ∀ rest, scanValue (raw ++ ',' :: rest) = (raw, rest)
  read : unquote raw = value

theorem reads_quote (value : Text) : Reads (quote value) value := by
  have hscan : ∀ rest, scanValue (quote value ++ rest) = (quote value, trimComma rest) := by
    intro rest
    have hhead : (quote value ++ rest).head? = some '"' := rfl
    have hclose : closeQuote ((quote value ++ rest).drop 1) =
        some (value.flatMap quoteRune ++ ['"'], rest) := by
      simpa [quote] using closeQuote_flatMap value rest
    rw [scanValue, if_neg (not_not.mpr hhead), hclose]
    rfl
  refine ⟨?_, fun rest => hscan (',' :: rest), unquote_quote value⟩
  have hlast := hscan []
  rw [List.append_nil] at hlast
  exact hlast

/-- A value that may stand bare: no comma in it, and no quote in front. -/
def Bare (value : Text) : Prop := ',' ∉ value ∧ value.head? ≠ some '"'

instance (value : Text) : Decidable (Bare value) := inferInstanceAs (Decidable (_ ∧ _))

theorem reads_bare {value : Text} (h : Bare value) : Reads value value := by
  obtain ⟨hcomma, hhead⟩ := h
  refine ⟨?_, fun rest => ?_, ?_⟩
  · have hall := forall_ne_of_not_mem hcomma
    rw [scanValue, if_pos hhead, List.takeWhile_eq_self_iff.mpr hall,
      List.dropWhile_eq_nil_iff.mpr hall]
    rfl
  · have hhead' : (value ++ ',' :: rest).head? ≠ some '"' := by
      cases value with
      | nil => simp
      | cons c more => simpa using hhead
    rw [scanValue, if_pos hhead', takeWhile_cut hcomma, dropWhile_cut hcomma]
  · rw [unquote, if_pos (.inr (.inl hhead))]

/-! ## Reading a whole name -/

/-- A key with its value, as it is written and as it is meant. -/
structure Entry where
  key : Text
  raw : Text
  value : Text

/-- A list of entries that can be read: no key twice and none with an equals sign. -/
structure Readable (entries : List Entry) : Prop where
  distinct : (entries.map Entry.key).Nodup
  keys : ∀ entry ∈ entries, '=' ∉ entry.key
  reads : ∀ entry ∈ entries, Reads entry.raw entry.value

/-- The pairs as they are written. -/
def written (entries : List Entry) : List (Text × Text) := entries.map fun e => (e.key, e.raw)

/-- The pairs as they are meant. -/
def meant (entries : List Entry) : List (Text × Text) := entries.map fun e => (e.key, e.value)

theorem joinPairs_singleton (pair : Text × Text) : joinPairs [pair] = pair.1 ++ '=' :: pair.2 := by
  simp [joinPairs]

theorem joinPairs_cons_cons (pair next : Text × Text) (rest : List (Text × Text)) :
    joinPairs (pair :: next :: rest) =
      pair.1 ++ '=' :: (pair.2 ++ ',' :: joinPairs (next :: rest)) := by
  simp [joinPairs, List.intercalate_cons_cons]

/-- One round of the loop. -/
theorem parseKeys_cons {key : Text} (hkey : '=' ∉ key) (rest : Text) (keys : List (Text × Text)) :
    parseKeys (key ++ '=' :: rest) keys =
      parseKeys (scanValue rest).2 (setKey key (unquote (scanValue rest).1) keys) := by
  rw [parseKeys, if_neg (by simp), if_neg (by simp)]
  simp only [takeWhile_cut hkey, dropWhile_cut hkey]

theorem setKey_of_new {key value : Text} {keys : List (Text × Text)}
    (hnew : key ∉ keys.map Prod.fst) : setKey key value keys = keys ++ [(key, value)] := by
  induction keys with
  | nil => rfl
  | cons pair rest ih =>
    rw [List.map_cons, List.mem_cons, not_or] at hnew
    rw [setKey, if_neg (Ne.symm hnew.1), ih hnew.2, List.cons_append]

theorem parseKeys_nil (keys : List (Text × Text)) : parseKeys [] keys = .ok keys := by
  rw [parseKeys, if_pos rfl]

/-- **A name is read back**: the keys with what their values mean. -/
theorem parseKeys_joinPairs {entries : List Entry} (h : Readable entries)
    {keys : List (Text × Text)} (hnew : ∀ entry ∈ entries, entry.key ∉ keys.map Prod.fst) :
    parseKeys (joinPairs (written entries)) keys = .ok (keys ++ meant entries) := by
  induction entries generalizing keys with
  | nil => simp [written, meant, joinPairs, parseKeys_nil]
  | cons entry rest ih =>
    obtain ⟨hdistinct, hkeys, hreads⟩ := h
    rw [List.map_cons, List.nodup_cons] at hdistinct
    have hone := hreads entry List.mem_cons_self
    have hset : setKey entry.key entry.value keys = keys ++ [(entry.key, entry.value)] :=
      setKey_of_new (hnew entry List.mem_cons_self)
    have hkey := hkeys entry List.mem_cons_self
    cases rest with
    | nil =>
      rw [written, List.map_singleton, joinPairs_singleton, parseKeys_cons hkey, hone.last,
        hone.read, parseKeys_nil, hset]
      rfl
    | cons next others =>
      have hlater : ∀ e ∈ next :: others,
          e.key ∉ (keys ++ [(entry.key, entry.value)]).map Prod.fst := by
        intro e he hmem
        rw [List.map_append, List.mem_append] at hmem
        rcases hmem with hold | hsame
        · exact hnew e (List.mem_cons_of_mem _ he) hold
        · have hkey : e.key = entry.key := by simpa using hsame
          exact hdistinct.1 (hkey ▸ List.mem_map_of_mem he)
      have hrest := ih ⟨hdistinct.2, fun e he => hkeys e (List.mem_cons_of_mem _ he),
        fun e he => hreads e (List.mem_cons_of_mem _ he)⟩ hlater
      rw [written, List.map_cons, List.map_cons, joinPairs_cons_cons, parseKeys_cons hkey,
        hone.next, hone.read, hset]
      rw [written, List.map_cons] at hrest
      rw [hrest]
      simp [meant]

/-- **A whole name is read back.** -/
theorem parseObjectName_string {domain : Text} (hdomain : ':' ∉ domain) {entries : List Entry}
    (h : Readable entries) :
    parseObjectName (domain ++ ':' :: joinPairs (written entries)) = .ok (domain, meant entries) := by
  have hread : parseKeys (joinPairs (written entries)) [] = .ok ([] ++ meant entries) :=
    parseKeys_joinPairs h (by simp)
  rw [parseObjectName, if_neg (by simp), dropWhile_cut hdomain, takeWhile_cut hdomain, hread]
  rfl

/-! ## What a name is built for -/

/-- What is asked for: `destination`, `artemisQueue` or `artemisAddress`. -/
inductive Target where
  | destination (name : Text) (kind : DestinationKind)
  | artemisQueue (address queue : Text) (routing : RoutingType)
  | artemisAddress (address : Text)

/-- The name that is built. -/
def Names.build (n : Names) : Target → Text
  | .destination name kind => n.destination name kind
  | .artemisQueue address queue routing => n.artemisQueue address queue routing
  | .artemisAddress address => n.artemisAddress address

/-- One destination of one broker. On Artemis it is the queue of its own address. -/
inductive Destination where
  | classic (broker name : Text) (kind : DestinationKind)
  | artemisQueue (broker address queue : Text) (routing : RoutingType)
  | artemisAddress (broker address : Text)

/-- The destination that is meant. -/
def Names.meant (n : Names) : Target → Destination
  | .destination name kind =>
    if n.product = .artemis then .artemisQueue n.broker name name kind.routing
    else .classic n.broker name kind
  | .artemisQueue address queue routing => .artemisQueue n.broker address queue routing
  | .artemisAddress address => .artemisAddress n.broker address

namespace Destination

/-- Its domain. -/
def domain : Destination → Text
  | classic _ _ _ => classicDomain
  | artemisQueue _ _ _ _ => artemisDomain
  | artemisAddress _ _ => artemisDomain

/-- A value in quotes. -/
def quoted (key value : Text) : Entry := ⟨key, quote value, value⟩

/-- A value without. -/
def bare (key value : Text) : Entry := ⟨key, value, value⟩

/-- Its keys in order. -/
def entries : Destination → List Entry
  | classic broker name kind =>
    [bare "brokerName".toList broker, bare "destinationName".toList name,
      bare "destinationType".toList kind.text, bare "type".toList "Broker".toList]
  | artemisQueue broker address queue routing =>
    [quoted "address".toList address, quoted "broker".toList broker,
      bare "component".toList "addresses".toList, quoted "queue".toList queue,
      quoted "routing-type".toList routing.text, bare "subcomponent".toList "queues".toList]
  | artemisAddress broker address =>
    [quoted "address".toList address, quoted "broker".toList broker,
      bare "component".toList "addresses".toList]

/-- Its name. -/
def string (d : Destination) : Text := d.domain ++ ':' :: joinPairs (written d.entries)

end Destination

theorem build_eq_string (n : Names) (target : Target) :
    n.build target = (n.meant target).string := by
  cases target with
  | destination name kind =>
    by_cases hartemis : n.product = .artemis
    · simp only [Names.build, Names.destination, Names.meant, if_pos hartemis]
      rfl
    · simp only [Names.build, Names.destination, Names.meant, if_neg hartemis]
      rfl
  | artemisQueue address queue routing => rfl
  | artemisAddress address => rfl

/-! ## What is read is not hidden -/

/-- What keys and values come to, with an equals sign and a comma each. -/
def weight (keys : List (Text × Text)) : Nat :=
  (keys.map fun pair => pair.1.length + pair.2.length + 2).sum

theorem weight_append (xs ys : List (Text × Text)) : weight (xs ++ ys) = weight xs + weight ys := by
  simp [weight]

/-- A key that was there gives up its old value. -/
theorem weight_setKey_of_mem {key : Text} (value : Text) {keys : List (Text × Text)}
    (h : key ∈ keys.map Prod.fst) :
    weight (setKey key value keys) ≤ weight keys + value.length := by
  induction keys with
  | nil => simp at h
  | cons pair rest ih =>
    obtain ⟨other, old⟩ := pair
    rw [setKey]
    by_cases hsame : other = key
    · rw [if_pos hsame, hsame]
      simp only [weight, List.map_cons, List.sum_cons]
      omega
    · rw [if_neg hsame]
      have hrest : key ∈ rest.map Prod.fst := by
        rw [List.map_cons, List.mem_cons] at h
        exact h.resolve_left (Ne.symm hsame)
      have := ih hrest
      simp only [weight, List.map_cons, List.sum_cons] at this ⊢
      omega

theorem weight_setKey_le (key value : Text) (keys : List (Text × Text)) :
    weight (setKey key value keys) ≤ weight keys + (key.length + value.length + 2) := by
  by_cases h : key ∈ keys.map Prod.fst
  · have := weight_setKey_of_mem value h
    omega
  · rw [setKey_of_new h, weight_append]
    simp [weight]

/-- A key that adds all its weight is new. -/
theorem setKey_of_weight (key value : Text) (keys : List (Text × Text))
    (h : weight (setKey key value keys) = weight keys + (key.length + value.length + 2)) :
    setKey key value keys = keys ++ [(key, value)] := by
  apply setKey_of_new
  intro hmem
  have := weight_setKey_of_mem value hmem
  omega

theorem unescape_length_le (text : Text) : (unescape text).length ≤ text.length := by
  fun_induction unescape text with
  | case1 => exact Nat.le_refl _
  | case2 => exact Nat.le_refl _
  | case3 d rest ih =>
    simp only [List.length_cons]
    omega
  | case4 c d rest hne ih =>
    simp only [List.length_cons] at ih ⊢
    omega

theorem unquote_length_le (value : Text) : (unquote value).length ≤ value.length := by
  unfold unquote
  split
  · exact Nat.le_refl _
  · have := unescape_length_le (value.drop 1).dropLast
    rw [List.length_dropLast, List.length_drop] at this
    omega

/-- A value that is closed gives up its quotes. -/
theorem unquote_closed {text value remainder : Text}
    (h : closeQuote text = some (value, remainder)) :
    (unquote ('"' :: value)).length + 2 ≤ ('"' :: value).length := by
  have hlast : value.getLast? = some '"' := by
    fun_induction closeQuote text generalizing value with
    | case1 => cases h
    | case2 =>
      cases h
      rfl
    | case3 => cases h
    | case4 d rest ih =>
      obtain ⟨⟨inner, after⟩, hinner, hcut⟩ := Option.map_eq_some_iff.mp h
      cases hcut
      have := ih hinner
      cases inner with
      | nil => simp at this
      | cons c more => simpa using this
    | case5 =>
      cases h
      rfl
    | case6 c d rest hne hquote ih =>
      obtain ⟨⟨inner, after⟩, hinner, hcut⟩ := Option.map_eq_some_iff.mp h
      cases hcut
      have := ih hinner
      cases inner with
      | nil => simp at this
      | cons c more => simpa using this
  have hpos : 0 < value.length := by
    cases value with
    | nil => simp at hlast
    | cons c more => simp
  have hquoted : ('"' :: value).getLast? = some '"' := by
    cases value with
    | nil => simp at hlast
    | cons c more => simpa using hlast
  rw [unquote, if_neg]
  · have := unescape_length_le (('"' :: value).drop 1).dropLast
    simp only [List.drop_one, List.tail_cons, List.length_dropLast, List.length_cons] at this ⊢
    omega
  · rintro (hshort | hhead | hend)
    · simp only [List.length_cons] at hshort
      omega
    · exact hhead rfl
    · exact hend hquoted

/-- **What a value takes**: no less than it means, with its comma, and no more only where it is bare. -/
theorem scanValue_takes (rest : Text) :
    (unquote (scanValue rest).1).length ≤ rest.length ∧
      ((scanValue rest).2 ≠ [] →
        (unquote (scanValue rest).1).length + 1 + (scanValue rest).2.length ≤ rest.length ∧
          ((unquote (scanValue rest).1).length + 1 + (scanValue rest).2.length = rest.length →
            rest.head? ≠ some '"' ∧ unquote (scanValue rest).1 = (scanValue rest).1 ∧
              ',' ∉ (scanValue rest).1 ∧ rest = (scanValue rest).1 ++ ',' :: (scanValue rest).2)) := by
  by_cases hhead : rest.head? ≠ some '"'
  · -- a bare value ends where the comma is
    have hscan : scanValue rest =
        (rest.takeWhile (· ≠ ','), (rest.dropWhile (· ≠ ',')).drop 1) := by rw [scanValue, if_pos hhead]
    have hcomma : ',' ∉ rest.takeWhile (· ≠ ',') := by
      intro hmem
      have := List.mem_takeWhile_imp hmem
      simp at this
    have hraw : unquote (rest.takeWhile (· ≠ ',')) = rest.takeWhile (· ≠ ',') := by
      have hfirst : (rest.takeWhile (· ≠ ',')).head? ≠ some '"' := by
        cases rest with
        | nil => simp
        | cons c more =>
          by_cases hc : c = ','
          · simp [hc]
          · simpa [hc] using hhead
      rw [unquote, if_pos (.inr (.inl hfirst))]
    rw [hscan]
    simp only [hraw]
    refine ⟨(List.takeWhile_prefix _).length_le, fun hmore => ?_⟩
    have hsplit : rest = rest.takeWhile (· ≠ ',') ++ ',' :: (rest.dropWhile (· ≠ ',')).drop 1 := by
      cases hdrop : rest.dropWhile (· ≠ ',') with
      | nil =>
        rw [hdrop] at hmore
        exact absurd rfl hmore
      | cons c after =>
        have hc : c = ',' := by
          have := List.head?_dropWhile_not (fun c => decide (c ≠ ',')) rest
          rw [hdrop] at this
          simpa using this
        have hwhole := List.takeWhile_append_dropWhile (p := fun c => decide (c ≠ ',')) (l := rest)
        rw [hdrop, hc] at hwhole
        exact hwhole.symm
    have hlength := congrArg List.length hsplit
    rw [List.length_append, List.length_cons] at hlength
    exact ⟨by omega, fun _ => ⟨hhead, trivial, hcomma, hsplit⟩⟩
  · rw [scanValue, if_neg hhead]
    have hrest : rest = '"' :: rest.drop 1 := by
      cases rest with
      | nil => simp at hhead
      | cons c more =>
        rw [not_not, List.head?_cons, Option.some.injEq] at hhead
        rw [hhead]
        rfl
    cases hclose : closeQuote (rest.drop 1) with
    | none => exact ⟨unquote_length_le rest, fun hmore => absurd rfl hmore⟩
    | some cut =>
      obtain ⟨value, remainder⟩ := cut
      have hwhole := congrArg List.length (closeQuote_append hclose)
      have hquotes := unquote_closed hclose
      have htrim := trimComma_length_le remainder
      have hlength := congrArg List.length hrest
      simp only [List.length_append, List.length_cons] at hwhole hquotes hlength ⊢
      exact ⟨by omega, fun _ => ⟨by omega, fun hall => by omega⟩⟩

/-- **Nothing is hidden**: what is read weighs no more than what was written, and where it weighs as
    much every key that was read stays. -/
theorem weight_parseKeys {rest : Text} {keys out : List (Text × Text)} (hrest : rest ≠ [])
    (h : parseKeys rest keys = .ok out) :
    weight out ≤ weight keys + rest.length + 1 ∧
      (weight out = weight keys + rest.length + 1 → keys <+: out) := by
  induction hn : rest.length using Nat.strongRecOn generalizing rest keys with
  | ind n ih =>
    by_cases hequals : '=' ∈ rest
    · -- one key and its value, and then the rest
      obtain ⟨key, value, hsplit, hkey⟩ := List.eq_append_cons_of_mem hequals
      have hlength := congrArg List.length hsplit
      rw [List.length_append, List.length_cons] at hlength
      rw [hsplit, parseKeys_cons hkey] at h
      obtain ⟨hvalue, hmore⟩ := scanValue_takes value
      have hset := weight_setKey_le key (unquote (scanValue value).1) keys
      have hnew := setKey_of_weight key (unquote (scanValue value).1) keys
      by_cases hend : (scanValue value).2 = []
      · rw [hend, parseKeys_nil, Except.ok.injEq] at h
        subst h
        refine ⟨by omega, fun htight => ?_⟩
        rw [hnew (by omega)]
        exact List.prefix_append _ _
      · obtain ⟨htakes, -⟩ := hmore hend
        obtain ⟨hle, hprefix⟩ := ih (scanValue value).2.length (by omega) hend h rfl
        refine ⟨by omega, fun htight => ?_⟩
        have hstays := hprefix (by omega)
        rw [hnew (by omega)] at hstays
        exact (List.prefix_append _ _).trans hstays
    · rw [parseKeys, if_neg hrest, if_pos hequals] at h
      cases h

theorem length_setKey_le (key value : Text) (keys : List (Text × Text)) :
    (setKey key value keys).length ≤ keys.length + 1 := by
  induction keys with
  | nil => exact Nat.le_refl _
  | cons pair rest ih =>
    rw [setKey]
    split
    · simp
    · simpa using ih

/-- Where nothing is hidden the first value is bare, and what follows is read after it. -/
theorem parseKeys_first {key value : Text} {keys out : List (Text × Text)} (hkey : '=' ∉ key)
    (h : parseKeys (key ++ '=' :: value) keys = .ok out)
    (htight : weight out = weight keys + (key ++ '=' :: value).length + 1)
    (hmore : keys.length + 1 < out.length) :
    ∃ raw after, value = raw ++ ',' :: after ∧ Bare raw ∧ keys ++ [(key, raw)] <+: out ∧
      parseKeys after (keys ++ [(key, raw)]) = .ok out ∧
      weight out = weight (keys ++ [(key, raw)]) + after.length + 1 := by
  rw [parseKeys_cons hkey] at h
  rw [List.length_append, List.length_cons] at htight
  obtain ⟨-, htakes⟩ := scanValue_takes value
  have hset := weight_setKey_le key (unquote (scanValue value).1) keys
  have hend : (scanValue value).2 ≠ [] := by
    intro hend
    rw [hend, parseKeys_nil, Except.ok.injEq] at h
    have hlong := length_setKey_le key (unquote (scanValue value).1) keys
    rw [h] at hlong
    omega
  obtain ⟨hle, hbare⟩ := htakes hend
  obtain ⟨hweight, hprefix⟩ := weight_parseKeys hend h
  obtain ⟨hhead, hraw, hcomma, hvalue⟩ := hbare (by omega)
  have hnew := setKey_of_weight key (unquote (scanValue value).1) keys (by omega)
  have hstays := hprefix (by omega)
  rw [hnew, hraw] at hstays h
  refine ⟨_, _, hvalue, ⟨hcomma, ?_⟩, hstays, h, ?_⟩
  · intro hfirst
    apply hhead
    rw [hvalue]
    cases hscanned : (scanValue value).1 with
    | nil =>
      rw [hscanned] at hfirst
      cases hfirst
    | cons c more =>
      rw [hscanned] at hfirst
      exact hfirst
  · have hlength := congrArg List.length hvalue
    rw [List.length_append, List.length_cons] at hlength
    rw [weight_append]
    simp only [weight, List.map_cons, List.map_nil, List.sum_cons, List.sum_nil] at htight ⊢
    omega

/-! ## Patterns -/

/-- Where a scan for wildcards stands. -/
inductive Place where
  | key
  | start
  | bare
  | quoted
  | escaped
  deriving DecidableEq

/-- A rune that makes a pattern. -/
def isWildcard (r : Char) : Bool := r = '*' || r = '?'

/-- Whether a wildcard stands anywhere but behind a backslash in quotes. -/
def hasWildcard : Place → Text → Bool
  | _, [] => false
  | .key, r :: rest => isWildcard r || hasWildcard (if r = '=' then .start else .key) rest
  | .start, r :: rest =>
    isWildcard r ||
      hasWildcard (if r = '"' then .quoted else if r = ',' then .key else .bare) rest
  | .bare, r :: rest => isWildcard r || hasWildcard (if r = ',' then .key else .bare) rest
  | .quoted, r :: rest =>
    isWildcard r ||
      hasWildcard (if r = '\\' then .escaped else if r = '"' then .bare else .quoted) rest
  | .escaped, _ :: rest => hasWildcard .quoted rest

/-- A name with an unescaped wildcard is a pattern, and names whatever it matches. -/
def isPattern (name : Text) : Bool := hasWildcard .key name

theorem hasWildcard_quoteRune (r : Char) (rest : Text) :
    hasWildcard .quoted (quoteRune r ++ rest) = hasWildcard .quoted rest := by
  unfold quoteRune
  split
  · simp [hasWildcard, isWildcard]
  · rename_i hspecial
    simp only [not_or] at hspecial
    split
    · simp [hasWildcard, isWildcard]
    · simp [hasWildcard, isWildcard, hspecial]

theorem hasWildcard_quote (value rest : Text) :
    hasWildcard .start (quote value ++ rest) = hasWildcard .bare rest := by
  have hinner : ∀ value : Text, hasWildcard .quoted (value.flatMap quoteRune ++ '"' :: rest) =
      hasWildcard .bare rest := by
    intro value
    induction value with
    | nil => simp [hasWildcard, isWildcard]
    | cons r more ih => rw [List.flatMap_cons, List.append_assoc, hasWildcard_quoteRune, ih]
  have hopen : quote value ++ rest = '"' :: (value.flatMap quoteRune ++ '"' :: rest) := by
    simp [quote]
  rw [hopen, hasWildcard, if_pos rfl, hinner]
  rfl

theorem hasWildcard_plain {text : Text} (hequals : '=' ∉ text)
    (hplain : text.any isWildcard = false) (rest : Text) :
    hasWildcard .key (text ++ rest) = hasWildcard .key rest := by
  induction text with
  | nil => rfl
  | cons r more ih =>
    rw [List.mem_cons, not_or] at hequals
    rw [List.any_cons, Bool.or_eq_false_iff] at hplain
    rw [List.cons_append, hasWildcard, hplain.1, if_neg (Ne.symm hequals.1), ih hequals.2 hplain.2]
    rfl

theorem hasWildcard_key {key : Text} (hkey : '=' ∉ key) (hplain : key.any isWildcard = false)
    (rest : Text) : hasWildcard .key (key ++ '=' :: rest) = hasWildcard .start rest := by
  rw [hasWildcard_plain hkey hplain]
  simp [hasWildcard, isWildcard]

theorem hasWildcard_bare {value : Text} (hcomma : ',' ∉ value) (rest : Text) :
    hasWildcard .bare (value ++ rest) = (value.any isWildcard || hasWildcard .bare rest) := by
  induction value with
  | nil => rfl
  | cons r more ih =>
    rw [List.mem_cons, not_or] at hcomma
    rw [List.cons_append, hasWildcard, if_neg (Ne.symm hcomma.1), ih hcomma.2, List.any_cons,
      Bool.or_assoc]

/-- What a value adds to the wildcards of a name. -/
structure Shows (raw : Text) (wild : Bool) : Prop where
  last : hasWildcard .start raw = wild
  next : ∀ rest, hasWildcard .start (raw ++ ',' :: rest) = (wild || hasWildcard .key rest)

theorem hasWildcard_comma (rest : Text) :
    hasWildcard .bare (',' :: rest) = hasWildcard .key rest := by
  simp [hasWildcard, isWildcard]

theorem shows_quote (value : Text) : Shows (quote value) false := by
  refine ⟨?_, fun rest => ?_⟩
  · have hlast := hasWildcard_quote value []
    rw [List.append_nil] at hlast
    rw [hlast]
    rfl
  · rw [hasWildcard_quote, hasWildcard_comma, Bool.false_or]

theorem shows_bare {value : Text} (h : Bare value) : Shows value (value.any isWildcard) := by
  obtain ⟨hcomma, hhead⟩ := h
  have hstart : ∀ rest, hasWildcard .start (value ++ ',' :: rest) =
      hasWildcard .bare (value ++ ',' :: rest) ∧
      hasWildcard .start value = hasWildcard .bare value := by
    intro rest
    cases value with
    | nil => simp [hasWildcard, isWildcard]
    | cons r more =>
      have hr : r ≠ '"' := by simpa using hhead
      simp [hasWildcard, hr]
  refine ⟨?_, fun rest => ?_⟩
  · have hlast := hasWildcard_bare hcomma []
    rw [List.append_nil] at hlast
    rw [(hstart []).2, hlast]
    exact Bool.or_false _
  · rw [(hstart rest).1, hasWildcard_bare hcomma, hasWildcard_comma]

/-- **The wildcards of a name are those of its values.** -/
theorem hasWildcard_joinPairs {entries : List Entry} (wild : Entry → Bool)
    (hkeys : ∀ e ∈ entries, '=' ∉ e.key ∧ e.key.any isWildcard = false)
    (hshows : ∀ e ∈ entries, Shows e.raw (wild e)) :
    hasWildcard .key (joinPairs (written entries)) = entries.any wild := by
  induction entries with
  | nil => rfl
  | cons entry rest ih =>
    have hone := hshows entry List.mem_cons_self
    obtain ⟨hkey, hplain⟩ := hkeys entry List.mem_cons_self
    cases rest with
    | nil =>
      rw [written, List.map_singleton, joinPairs_singleton, hasWildcard_key hkey hplain, hone.last]
      simp
    | cons next others =>
      have hrest := ih (fun e he => hkeys e (List.mem_cons_of_mem _ he))
        (fun e he => hshows e (List.mem_cons_of_mem _ he))
      rw [written, List.map_cons] at hrest
      rw [written, List.map_cons, List.map_cons, joinPairs_cons_cons, hasWildcard_key hkey hplain,
        hone.next, hrest]
      rfl

/-! ## One name for one destination -/

/-- What a built name owes: it is read back as it was meant, it is no other destination's, and it is
    no pattern. The keys of a map stand in any order. -/
structure Names.ExactlyOne (n : Names) (target : Target) : Prop where
  reads : ∃ keys, parseObjectName (n.build target) = .ok ((n.meant target).domain, keys) ∧
    keys.Perm (ActiveMQ.meant (n.meant target).entries)
  distinct : ∀ (other : Names) (target' : Target), other.build target' = n.build target →
    other.meant target' = n.meant target
  plain : isPattern (n.build target) = false

/-- A value that may stand in a name of Classic: no comma, no wildcard and no quote in front. -/
def Unmarked (value : Text) : Prop := Bare value ∧ value.any isWildcard = false

instance (value : Text) : Decidable (Unmarked value) := inferInstanceAs (Decidable (_ ∧ _))

/-- What is asked for may stand in a name: Artemis quotes it. -/
def Names.Writes (n : Names) : Target → Prop
  | .destination name _ => n.product = .artemis ∨ Unmarked n.broker ∧ Unmarked name
  | .artemisQueue _ _ _ => True
  | .artemisAddress _ => True

namespace Destination

/-- Where every value of a destination is read as it is meant. -/
def Written : Destination → Prop
  | classic broker name _ => Bare broker ∧ Bare name
  | artemisQueue _ _ _ _ => True
  | artemisAddress _ _ => True

theorem domain_colon (d : Destination) : ':' ∉ d.domain := by
  have hclassic : ':' ∉ classicDomain := by decide
  have hartemis : ':' ∉ artemisDomain := by decide
  cases d with
  | classic broker name kind => exact hclassic
  | artemisQueue broker address queue routing => exact hartemis
  | artemisAddress broker address => exact hartemis

/-- The keys of a destination, which are texts of the source. -/
def keyTexts : Destination → List Text
  | classic _ _ _ =>
    ["brokerName".toList, "destinationName".toList, "destinationType".toList, "type".toList]
  | artemisQueue _ _ _ _ =>
    ["address".toList, "broker".toList, "component".toList, "queue".toList,
      "routing-type".toList, "subcomponent".toList]
  | artemisAddress _ _ => ["address".toList, "broker".toList, "component".toList]

theorem map_key_entries (d : Destination) : d.entries.map Entry.key = d.keyTexts := by
  cases d <;> rfl

/-- A list of keys that a name may carry. -/
def PlainKeys (keys : List Text) : Prop :=
  keys.Nodup ∧ ∀ key ∈ keys, '=' ∉ key ∧ key.any isWildcard = false

instance (keys : List Text) : Decidable (PlainKeys keys) := inferInstanceAs (Decidable (_ ∧ _))

theorem plainKeys (d : Destination) : PlainKeys d.keyTexts := by
  have hclassic : PlainKeys ["brokerName".toList, "destinationName".toList,
    "destinationType".toList, "type".toList] := by decide
  have hqueue : PlainKeys ["address".toList, "broker".toList, "component".toList, "queue".toList,
    "routing-type".toList, "subcomponent".toList] := by decide
  have haddress : PlainKeys ["address".toList, "broker".toList, "component".toList] := by decide
  cases d with
  | classic broker name kind => exact hclassic
  | artemisQueue broker address queue routing => exact hqueue
  | artemisAddress broker address => exact haddress

theorem keys_nodup (d : Destination) : (d.entries.map Entry.key).Nodup := by
  rw [map_key_entries]
  exact d.plainKeys.1

theorem keys_plain (d : Destination) :
    ∀ e ∈ d.entries, '=' ∉ e.key ∧ e.key.any isWildcard = false := by
  intro e he
  apply d.plainKeys.2
  rw [← map_key_entries]
  exact List.mem_map_of_mem he

theorem kind_bare (kind : DestinationKind) : Bare kind.text := by
  cases kind <;> decide

/-- Each value is quoted, or it may stand bare. -/
theorem entries_bare {d : Destination} (h : d.Written) :
    ∀ e ∈ d.entries, e.raw = quote e.value ∨ (e.raw = e.value ∧ Bare e.raw) := by
  intro e he
  cases d with
  | classic broker name kind =>
    simp only [entries, bare, List.mem_cons, List.not_mem_nil, or_false] at he
    rcases he with rfl | rfl | rfl | rfl
    · exact .inr ⟨rfl, h.1⟩
    · exact .inr ⟨rfl, h.2⟩
    · exact .inr ⟨rfl, kind_bare kind⟩
    · exact .inr ⟨rfl, by decide⟩
  | artemisQueue broker address queue routing =>
    simp only [entries, bare, quoted, List.mem_cons, List.not_mem_nil, or_false] at he
    rcases he with rfl | rfl | rfl | rfl | rfl | rfl
    · exact .inl rfl
    · exact .inl rfl
    · exact .inr ⟨rfl, by decide⟩
    · exact .inl rfl
    · exact .inl rfl
    · exact .inr ⟨rfl, by decide⟩
  | artemisAddress broker address =>
    simp only [entries, bare, quoted, List.mem_cons, List.not_mem_nil, or_false] at he
    rcases he with rfl | rfl | rfl
    · exact .inl rfl
    · exact .inl rfl
    · exact .inr ⟨rfl, by decide⟩

theorem readable {d : Destination} (h : d.Written) : Readable d.entries := by
  refine ⟨d.keys_nodup, fun e he => (d.keys_plain e he).1, fun e he => ?_⟩
  rcases entries_bare h e he with hquoted | ⟨hsame, hbare⟩
  · rw [hquoted]
    exact reads_quote e.value
  · rw [← hsame]
    exact reads_bare hbare

/-- A destination that is written as it is meant is read back. -/
theorem parse_string {d : Destination} (h : d.Written) :
    parseObjectName d.string = .ok (d.domain, ActiveMQ.meant d.entries) :=
  parseObjectName_string d.domain_colon (readable h)

theorem domain_of_string {d d' : Destination} (h : d.string = d'.string) : d.domain = d'.domain := by
  have hcut := congrArg (List.takeWhile (· ≠ ':')) h
  rw [string, string, takeWhile_cut d.domain_colon, takeWhile_cut d'.domain_colon] at hcut
  exact hcut

/-- What is read tells the destination. -/
theorem eq_of_meant {d d' : Destination} (hdomain : d.domain = d'.domain)
    (h : ActiveMQ.meant d.entries = ActiveMQ.meant d'.entries) : d = d' := by
  cases d with
  | classic broker name kind =>
    cases d' with
    | classic broker' name' kind' =>
      simp only [ActiveMQ.meant, entries, bare, List.map_cons, List.cons.injEq, Prod.mk.injEq,
        true_and] at h
      obtain ⟨hbroker, hname, hkind, -⟩ := h
      rw [hbroker, hname, DestinationKind.text_injective hkind]
    | artemisQueue broker' address' queue' routing' => exact absurd hdomain domain_ne
    | artemisAddress broker' address' => exact absurd hdomain domain_ne
  | artemisQueue broker address queue routing =>
    cases d' with
    | classic broker' name' kind' => exact absurd hdomain domain_ne.symm
    | artemisQueue broker' address' queue' routing' =>
      simp only [ActiveMQ.meant, entries, bare, quoted, List.map_cons, List.cons.injEq,
        Prod.mk.injEq, true_and] at h
      obtain ⟨haddress, hbroker, hqueue, hrouting, -⟩ := h
      rw [haddress, hbroker, hqueue, RoutingType.text_injective hrouting]
    | artemisAddress broker' address' =>
      have hlength := congrArg List.length h
      simp [ActiveMQ.meant, entries] at hlength
  | artemisAddress broker address =>
    cases d' with
    | classic broker' name' kind' => exact absurd hdomain domain_ne.symm
    | artemisQueue broker' address' queue' routing' =>
      have hlength := congrArg List.length h
      simp [ActiveMQ.meant, entries] at hlength
    | artemisAddress broker' address' =>
      simp only [ActiveMQ.meant, entries, bare, quoted, List.map_cons, List.cons.injEq,
        Prod.mk.injEq, true_and] at h
      rw [h.1, h.2.1]

theorem classic_string (broker name : Text) (kind : DestinationKind) :
    (classic broker name kind).string =
      (classicDomain ++ ':' :: "brokerName=".toList) ++ (broker ++ ',' ::
        ("destinationName=".toList ++ (name ++ ',' ::
          ("destinationType=".toList ++ (kind.text ++ ',' :: "type=Broker".toList))))) := by
  simp [string, entries, written, bare, joinPairs, domain, List.intercalate_cons_cons]

/-- Every name of Classic has the three commas of its keys, and those of its values. -/
theorem count_classic (broker name : Text) (kind : DestinationKind) :
    (classic broker name kind).string.count ',' = broker.count ',' + name.count ',' + 3 := by
  have hfront : (classicDomain ++ ':' :: "brokerName=".toList).count ',' = 0 := by decide
  have hname : "destinationName=".toList.count ',' = 0 := by decide
  have htype : "destinationType=".toList.count ',' = 0 := by decide
  have hbroker : "type=Broker".toList.count ',' = 0 := by decide
  have hkind : kind.text.count ',' = 0 := List.count_eq_zero.mpr (kind_bare kind).1
  simp only [classic_string, List.count_append, List.count_cons, hfront, hname, htype, hbroker,
    hkind, beq_self_eq_true, if_true]
  omega

/-- **Distinct destinations have distinct names** where one of them is written as it is meant. -/
theorem eq_of_string {d d' : Destination} (h : d.Written) (hs : d'.string = d.string) : d' = d := by
  have hread : ∀ hw : d'.Written, d' = d := by
    intro hw
    have hparse := congrArg parseObjectName hs
    rw [parse_string h, parse_string hw, Except.ok.injEq, Prod.mk.injEq] at hparse
    exact eq_of_meant hparse.1 hparse.2
  cases d' with
  | artemisQueue broker' address' queue' routing' => exact hread trivial
  | artemisAddress broker' address' => exact hread trivial
  | classic broker' name' kind' =>
    cases d with
    | artemisQueue broker address queue routing =>
      exact absurd (domain_of_string hs) domain_ne
    | artemisAddress broker address => exact absurd (domain_of_string hs) domain_ne
    | classic broker name kind =>
      -- no comma more than the keys have, so that both names are cut at the same places
      have hcount := congrArg (List.count ',') hs
      have hbroker : broker.count ',' = 0 := List.count_eq_zero.mpr h.1.1
      have hname : name.count ',' = 0 := List.count_eq_zero.mpr h.2.1
      rw [count_classic, count_classic, hbroker, hname] at hcount
      have hbroker' : ',' ∉ broker' := List.count_eq_zero.mp (by omega)
      have hname' : ',' ∉ name' := List.count_eq_zero.mp (by omega)
      rw [classic_string, classic_string] at hs
      have hbehind := List.append_cancel_left hs
      have hfirst := congrArg (List.takeWhile (· ≠ ',')) hbehind
      rw [takeWhile_cut hbroker', takeWhile_cut h.1.1] at hfirst
      rw [hfirst] at hbehind
      have hrest := (List.cons.inj (List.append_cancel_left hbehind)).2
      have hbehind' := List.append_cancel_left hrest
      have hsecond := congrArg (List.takeWhile (· ≠ ',')) hbehind'
      rw [takeWhile_cut hname', takeWhile_cut h.2.1] at hsecond
      rw [hsecond] at hbehind'
      have hrest' := (List.cons.inj (List.append_cancel_left hbehind')).2
      have hkind := congrArg (List.takeWhile (· ≠ ',')) (List.append_cancel_left hrest')
      rw [takeWhile_cut (kind_bare kind').1, takeWhile_cut (kind_bare kind).1] at hkind
      rw [hfirst, hsecond, DestinationKind.text_injective hkind]

/-- Whether a value makes the name a pattern: on Artemis none does. -/
def wild : Destination → Entry → Bool
  | classic _ _ _, e => e.raw.any isWildcard
  | artemisQueue _ _ _ _, _ => false
  | artemisAddress _ _, _ => false

theorem shows_of_quoted {e : Entry} (h : e.raw = quote e.value ∨ e.raw ∈
    ["addresses".toList, "queues".toList]) : Shows e.raw false := by
  rcases h with hquoted | hfixed
  · rw [hquoted]
    exact shows_quote e.value
  · have hplain : ∀ raw ∈ (["addresses".toList, "queues".toList] : List Text),
        Bare raw ∧ raw.any isWildcard = false := by decide
    obtain ⟨hbare, hnone⟩ := hplain e.raw hfixed
    rw [← hnone]
    exact shows_bare hbare

theorem isPattern_string {d : Destination} (h : d.Written) :
    isPattern d.string = d.entries.any d.wild := by
  have hdomain : '=' ∉ d.domain ∧ d.domain.any isWildcard = false := by
    have hclassic : '=' ∉ classicDomain ∧ classicDomain.any isWildcard = false := by decide
    have hartemis : '=' ∉ artemisDomain ∧ artemisDomain.any isWildcard = false := by decide
    cases d with
    | classic broker name kind => exact hclassic
    | artemisQueue broker address queue routing => exact hartemis
    | artemisAddress broker address => exact hartemis
  have hcolon : ∀ rest, hasWildcard .key (':' :: rest) = hasWildcard .key rest := fun rest =>
    @hasWildcard_plain [':'] (by decide) (by decide) rest
  rw [isPattern, string, hasWildcard_plain hdomain.1 hdomain.2, hcolon,
    hasWildcard_joinPairs d.wild d.keys_plain]
  intro e he
  cases d with
  | classic broker name kind =>
    simp only [entries, bare, List.mem_cons, List.not_mem_nil, or_false] at he
    rcases he with rfl | rfl | rfl | rfl
    · exact shows_bare h.1
    · exact shows_bare h.2
    · exact shows_bare (kind_bare kind)
    · exact shows_bare (by decide)
  | artemisQueue broker address queue routing =>
    apply shows_of_quoted
    simp only [entries, bare, quoted, List.mem_cons, List.not_mem_nil, or_false] at he
    rcases he with rfl | rfl | rfl | rfl | rfl | rfl <;> simp
  | artemisAddress broker address =>
    apply shows_of_quoted
    simp only [entries, bare, quoted, List.mem_cons, List.not_mem_nil, or_false] at he
    rcases he with rfl | rfl | rfl <;> simp

theorem weight_joinPairs {pairs : List (Text × Text)} (h : pairs ≠ []) :
    weight pairs = (joinPairs pairs).length + 1 := by
  induction pairs with
  | nil => exact absurd rfl h
  | cons pair rest ih =>
    cases rest with
    | nil =>
      rw [joinPairs_singleton]
      simp only [weight, List.map_cons, List.map_nil, List.sum_cons, List.sum_nil,
        List.length_append, List.length_cons]
      omega
    | cons next others =>
      have hrest := ih (by simp)
      rw [joinPairs_cons_cons]
      simp only [weight, List.map_cons, List.sum_cons, List.length_append,
        List.length_cons] at hrest ⊢
      omega

/-- Of a name of Classic that is read as it is meant, both values may stand bare. -/
theorem written_of_reads {broker name : Text} {kind : DestinationKind} {keys : List (Text × Text)}
    (h : parseObjectName (classic broker name kind).string = .ok (classicDomain, keys))
    (hperm : keys.Perm (ActiveMQ.meant (classic broker name kind).entries)) :
    (classic broker name kind).Written := by
  have hcolon := (classic broker name kind).domain_colon
  rw [parseObjectName, string, if_neg (by simp), dropWhile_cut hcolon, takeWhile_cut hcolon] at h
  have hout : parseKeys (joinPairs (written (classic broker name kind).entries)) [] = .ok keys := by
    cases hparse : parseKeys (joinPairs (written (classic broker name kind).entries)) [] with
    | error e =>
      rw [hparse] at h
      cases h
    | ok out =>
      rw [hparse] at h
      cases h
      rfl
  -- all that was written is read, so that nothing was hidden
  have htight := weight_joinPairs (show written (classic broker name kind).entries ≠ [] by
    simp [written, entries])
  have hweight : weight keys = weight (written (classic broker name kind).entries) :=
    (hperm.map _).sum_nat
  have hlong : keys.length = 4 := hperm.length_eq
  have hmeant : ∀ {value}, ("brokerName".toList, value) ∈ keys → value = broker := by
    intro value hvalue
    have := hperm.subset hvalue
    simpa [ActiveMQ.meant, entries, bare] using this
  have hmeant' : ∀ {value}, ("destinationName".toList, value) ∈ keys → value = name := by
    intro value hvalue
    have := hperm.subset hvalue
    simpa [ActiveMQ.meant, entries, bare] using this
  have hwritten : joinPairs (written (classic broker name kind).entries) =
      "brokerName".toList ++ '=' :: (broker ++ ',' :: ("destinationName".toList ++ '=' ::
        (name ++ ',' :: ("destinationType=".toList ++ (kind.text ++
          ',' :: "type=Broker".toList))))) := by
    simp [entries, written, bare, joinPairs, List.intercalate_cons_cons]
  rw [hwritten] at hout htight
  obtain ⟨raw, after, hvalue, hraw, hprefix, hnext, hleft⟩ :=
    parseKeys_first (by decide) hout (by simpa [weight] using hweight.trans htight) (by simp [hlong])
  have hfirst : ("brokerName".toList, raw) ∈ keys := hprefix.subset (by simp)
  obtain rfl := hmeant hfirst
  obtain rfl := (List.cons.inj (List.append_cancel_left hvalue)).2
  obtain ⟨raw', after', hvalue', hraw', hprefix', -, -⟩ :=
    parseKeys_first (by decide) hnext hleft (by simp [hlong])
  have hsecond : ("destinationName".toList, raw') ∈ keys := hprefix'.subset (by simp)
  obtain rfl := hmeant' hsecond
  exact ⟨hraw, hraw'⟩

end Destination

/-! ## Main theorem -/

theorem Names.written_of_writes {n : Names} {target : Target} (h : n.Writes target) :
    (n.meant target).Written := by
  cases target with
  | destination name kind =>
    rw [Names.meant]
    split
    · trivial
    · rename_i hproduct
      obtain ⟨hbroker, hname⟩ := h.resolve_left hproduct
      exact ⟨hbroker.1, hname.1⟩
  | artemisQueue address queue routing => trivial
  | artemisAddress address => trivial

theorem Names.wild_of_writes {n : Names} {target : Target} (h : n.Writes target) :
    (n.meant target).entries.any (n.meant target).wild = false := by
  rw [List.any_eq_false]
  intro e he
  cases target with
  | destination name kind =>
    by_cases hproduct : n.product = .artemis
    · have hmeant : n.meant (.destination name kind) =
          .artemisQueue n.broker name name kind.routing := if_pos hproduct
      rw [hmeant]
      exact Bool.false_ne_true
    · have hmeant : n.meant (.destination name kind) = .classic n.broker name kind :=
        if_neg hproduct
      obtain ⟨hbroker, hname⟩ := h.resolve_left hproduct
      have hkind : kind.text.any isWildcard = false := by cases kind <;> decide
      rw [hmeant] at he ⊢
      simp only [Destination.entries, Destination.bare, List.mem_cons, List.not_mem_nil,
        or_false] at he
      rw [Destination.wild]
      rcases he with rfl | rfl | rfl | rfl
      · exact Bool.eq_false_iff.mp hbroker.2
      · exact Bool.eq_false_iff.mp hname.2
      · exact Bool.eq_false_iff.mp hkind
      · decide
  | artemisQueue address queue routing => exact Bool.false_ne_true
  | artemisAddress address => exact Bool.false_ne_true

/-- **A built name names exactly one destination** always on Artemis, and on Classic exactly where
    both names have no comma, no wildcard and no quote in front. -/
theorem names_exactlyOne_iff (n : Names) (target : Target) :
    n.ExactlyOne target ↔ n.Writes target := by
  constructor
  · rintro ⟨⟨keys, hkeys, hperm⟩, -, hplain⟩
    cases target with
    | artemisQueue address queue routing => trivial
    | artemisAddress address => trivial
    | destination name kind =>
      by_cases hproduct : n.product = .artemis
      · exact .inl hproduct
      · have hmeant : n.meant (.destination name kind) = .classic n.broker name kind :=
          if_neg hproduct
        rw [build_eq_string, hmeant] at hkeys hplain
        rw [hmeant] at hperm
        have hwritten := Destination.written_of_reads hkeys hperm
        rw [Destination.isPattern_string hwritten, List.any_eq_false] at hplain
        have hvalues : ∀ e ∈ (Destination.classic n.broker name kind).entries,
            e.raw.any isWildcard = false := fun e he => Bool.eq_false_iff.mpr (hplain e he)
        refine .inr ⟨⟨hwritten.1, ?_⟩, hwritten.2, ?_⟩
        · exact hvalues ⟨"brokerName".toList, n.broker, n.broker⟩ List.mem_cons_self
        · exact hvalues ⟨"destinationName".toList, name, name⟩
            (List.mem_cons_of_mem _ List.mem_cons_self)
  · intro h
    have hwritten := Names.written_of_writes h
    refine ⟨⟨_, ?_, List.Perm.refl _⟩, fun other target' hs => ?_, ?_⟩
    · rw [build_eq_string]
      exact Destination.parse_string hwritten
    · rw [build_eq_string, build_eq_string] at hs
      exact Destination.eq_of_string hwritten hs
    · rw [build_eq_string, Destination.isPattern_string hwritten]
      exact Names.wild_of_writes h

/-- On Classic the queue `orders?` makes a pattern, and of `a,b` only `a` is read back. -/
theorem classic_ordersPattern :
    ¬ (∀ (n : Names) (target : Target), n.ExactlyOne target) ∧
      isPattern (Names.build ⟨.classic, "localhost".toList⟩
        (.destination "orders?".toList .queueKind)) = true ∧
      parseObjectName (Names.build ⟨.classic, "localhost".toList⟩
        (.destination "a,b".toList .queueKind)) =
          .ok ("org.apache.activemq".toList,
            [("brokerName".toList, "localhost".toList), ("destinationName".toList, "a".toList),
              ("b,destinationType".toList, "Queue".toList),
              ("type".toList, "Broker".toList)]) := by
  have hpattern : isPattern (Names.build ⟨.classic, "localhost".toList⟩
      (.destination "orders?".toList .queueKind)) = true := by decide +kernel
  refine ⟨fun h => ?_, hpattern, by decide +kernel⟩
  rw [(h _ _).plain] at hpattern
  cases hpattern

end MqStudio.Driver.ActiveMQ
