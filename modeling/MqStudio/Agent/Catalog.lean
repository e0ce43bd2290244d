import MqStudio.Storage

/-!
# The Catalogue of Operations

`internal/agent/catalog`: what a connection can be asked to do, and how much each operation can
destroy. Of an operation, the identifier a tool names and its blast radius are kept here; what it
takes and gives is read where it is called.

A blast radius is a string in the source, and `Permits` knows three of them. One it does not know
is permitted by nothing and permits nothing.
-/

namespace MqStudio.Agent

/-! ## Blast radii -/

/-- The spellings `rank` has an entry for. -/
def knownBlasts : List String := ["read", "mutate", "destructive"]

/-- `Blast` -/
inductive Blast where
  | read | mutate | destructive
  | other (text : String) (unlisted : text ∉ knownBlasts)
  deriving DecidableEq

namespace Blast

/-- The string it is in the source. -/
def text : Blast → String
  | read => "read"
  | mutate => "mutate"
  | destructive => "destructive"
  | other text _ => text

/-- The blast radius a string is. -/
def ofText (text : String) : Blast :=
  if h : text ∈ knownBlasts then
    if text = "read" then .read else if text = "mutate" then .mutate else .destructive
  else .other text h

@[simp] theorem text_ofText (text : String) : (ofText text).text = text := by
  unfold ofText
  split
  · rename_i h
    simp only [knownBlasts, List.mem_cons, List.not_mem_nil, or_false] at h
    rcases h with rfl | rfl | rfl <;> rfl
  · rfl

/-- `rank`: the order an allowance widens in. -/
def rank : Blast → Option Nat
  | read => some 0
  | mutate => some 1
  | destructive => some 2
  | other .. => none

/-- One of the three radii `rank` orders. -/
def Known (blast : Blast) : Prop := blast.rank.isSome

instance (blast : Blast) : Decidable blast.Known := inferInstanceAs (Decidable (_ = true))

end Blast

/-- `Permits`: an allowance is a ceiling, and an unknown radius is under none. -/
def permits (allowed blast : Blast) : Bool :=
  match allowed.rank with
  | none => false
  | some ceiling =>
    match blast.rank with
    | none => false
    | some level => level ≤ ceiling

theorem permits_iff {allowed blast : Blast} :
    permits allowed blast = true ↔
      ∃ ceiling level, allowed.rank = some ceiling ∧ blast.rank = some level ∧ level ≤ ceiling := by
  unfold permits
  cases allowed.rank <;> cases blast.rank <;> simp

/-- A known ceiling covers itself. -/
theorem permits_self {blast : Blast} (h : blast.Known) : permits blast blast = true := by
  obtain ⟨level, hlevel⟩ := Option.isSome_iff_exists.mp h
  exact permits_iff.mpr ⟨level, level, hlevel, hlevel, le_refl level⟩

/-- Ceilings widen: what a lower one covers, a higher one covers. -/
theorem permits_trans {high low blast : Blast} (hlow : permits high low = true)
    (hblast : permits low blast = true) : permits high blast = true := by
  obtain ⟨top, middle, htop, hmiddle, hle⟩ := permits_iff.mp hlow
  obtain ⟨middle', level, hmiddle', hlevel, hle'⟩ := permits_iff.mp hblast
  rw [hmiddle] at hmiddle'
  obtain rfl := Option.some.inj hmiddle'
  exact permits_iff.mpr ⟨top, level, htop, hlevel, le_trans hle' hle⟩

/-- Of two known radii one covers the other. -/
theorem permits_total {a b : Blast} (ha : a.Known) (hb : b.Known)
    (h : permits a b = false) : permits b a = true := by
  obtain ⟨i, hi⟩ := Option.isSome_iff_exists.mp ha
  obtain ⟨j, hj⟩ := Option.isSome_iff_exists.mp hb
  simp only [permits, hi, hj, decide_eq_false_iff_not] at h ⊢
  exact decide_eq_true (by omega)

/-! ## Operations -/

/-- `Operation`: what names it, and what it can destroy. -/
structure Operation where
  id : String
  blast : Blast
  deriving DecidableEq

/-- `Operations` -/
def operations : List Operation :=
  [⟨"destination.list", .read⟩, ⟨"destination.detail", .read⟩, ⟨"destination.create", .mutate⟩,
   ⟨"destination.update", .mutate⟩, ⟨"destination.delete", .destructive⟩,
   ⟨"destination.deleteGuarded", .destructive⟩, ⟨"destination.purge", .destructive⟩,
   ⟨"destination.drop", .destructive⟩, ⟨"destination.move", .destructive⟩,
   ⟨"destination.rebalance", .mutate⟩, ⟨"destination.trim", .destructive⟩,
   ⟨"destination.deleteEntries", .destructive⟩, ⟨"destination.partitions", .read⟩,
   ⟨"destination.shards", .read⟩, ⟨"channel.list", .read⟩, ⟨"destination.reassignments", .read⟩,
   ⟨"destination.reassign", .mutate⟩, ⟨"destination.cancelReassignment", .mutate⟩,
   ⟨"subscription.list", .read⟩, ⟨"subscription.detail", .read⟩, ⟨"subscription.create", .mutate⟩,
   ⟨"subscription.update", .mutate⟩, ⟨"subscription.delete", .destructive⟩,
   ⟨"subscription.lag", .read⟩, ⟨"subscription.clients", .read⟩,
   ⟨"subscription.resetOffset", .mutate⟩, ⟨"subscription.setPosition", .mutate⟩,
   ⟨"subscription.setQueueOffset", .mutate⟩, ⟨"subscription.cloneOffset", .mutate⟩,
   ⟨"subscription.pendingSummary", .read⟩, ⟨"subscription.pendingEntries", .read⟩,
   ⟨"subscription.groupConsumers", .read⟩, ⟨"subscription.ackEntries", .destructive⟩,
   ⟨"subscription.claimEntries", .mutate⟩, ⟨"subscription.autoClaim", .mutate⟩,
   ⟨"message.query", .read⟩, ⟨"message.byId", .read⟩, ⟨"message.tail", .read⟩,
   ⟨"message.liveStart", .mutate⟩, ⟨"message.livePoll", .read⟩, ⟨"message.liveStop", .mutate⟩,
   ⟨"message.liveList", .read⟩, ⟨"message.track", .read⟩, ⟨"message.dlq", .read⟩,
   ⟨"message.retryQueue", .read⟩, ⟨"message.resend", .mutate⟩, ⟨"message.deadLetterQueues", .read⟩,
   ⟨"message.replay", .mutate⟩, ⟨"message.send", .mutate⟩, ⟨"message.sendDelayed", .mutate⟩,
   ⟨"message.publish", .mutate⟩, ⟨"message.addEntry", .mutate⟩, ⟨"producer.clients", .read⟩,
   ⟨"cluster.nodes", .read⟩, ⟨"cluster.nodeDetail", .read⟩, ⟨"cluster.overview", .read⟩,
   ⟨"cluster.directoryNodes", .read⟩, ⟨"cluster.nodeConfig", .read⟩,
   ⟨"cluster.directoryConfig", .read⟩, ⟨"cluster.slowLog", .read⟩, ⟨"cluster.transactions", .read⟩,
   ⟨"cluster.logDirs", .read⟩, ⟨"cluster.logDirPartitions", .read⟩,
   ⟨"cluster.maintenance", .mutate⟩, ⟨"cluster.setNodeWritable", .mutate⟩,
   ⟨"cluster.census", .read⟩, ⟨"cluster.health", .read⟩, ⟨"client.connections", .read⟩,
   ⟨"client.channels", .read⟩, ⟨"client.close", .destructive⟩, ⟨"client.closeUser", .destructive⟩,
   ⟨"quota.list", .read⟩, ⟨"quota.alter", .mutate⟩, ⟨"quota.remove", .mutate⟩,
   ⟨"stream.clients", .read⟩, ⟨"namespace.list", .read⟩, ⟨"namespace.save", .mutate⟩,
   ⟨"namespace.delete", .destructive⟩, ⟨"namespace.setLimit", .mutate⟩,
   ⟨"namespace.removeLimit", .mutate⟩, ⟨"scope.list", .read⟩, ⟨"scope.validate", .read⟩,
   ⟨"access.enabled", .read⟩, ⟨"access.version", .read⟩, ⟨"access.put", .mutate⟩,
   ⟨"access.remove", .destructive⟩, ⟨"access.setWhitelist", .mutate⟩,
   ⟨"access.directoryEnabled", .read⟩, ⟨"access.principals", .read⟩,
   ⟨"access.putPrincipal", .mutate⟩, ⟨"access.removePrincipal", .destructive⟩,
   ⟨"access.rules", .read⟩, ⟨"access.putRule", .mutate⟩, ⟨"access.removeRule", .mutate⟩,
   ⟨"acl.users", .read⟩, ⟨"acl.saveUser", .mutate⟩, ⟨"acl.removeUser", .destructive⟩,
   ⟨"acl.categories", .read⟩, ⟨"identity.list", .read⟩, ⟨"identity.save", .mutate⟩,
   ⟨"identity.remove", .destructive⟩, ⟨"identity.setPermission", .mutate⟩,
   ⟨"identity.removePermission", .destructive⟩, ⟨"identity.topicPermissions", .read⟩,
   ⟨"identity.setTopicPermission", .mutate⟩, ⟨"identity.removeTopicPermission", .destructive⟩,
   ⟨"policy.list", .read⟩, ⟨"policy.matching", .read⟩, ⟨"policy.save", .mutate⟩,
   ⟨"policy.remove", .mutate⟩, ⟨"parameter.list", .read⟩, ⟨"parameter.remove", .mutate⟩,
   ⟨"definitions.export", .read⟩, ⟨"definitions.import", .mutate⟩, ⟨"replication.shovels", .read⟩,
   ⟨"replication.removeShovel", .destructive⟩, ⟨"replication.upstreams", .read⟩,
   ⟨"replication.removeUpstream", .destructive⟩, ⟨"routing.exchanges", .read⟩,
   ⟨"routing.bindings", .read⟩, ⟨"routing.declareExchange", .mutate⟩,
   ⟨"routing.removeExchange", .destructive⟩, ⟨"routing.declareBinding", .mutate⟩,
   ⟨"routing.removeBinding", .destructive⟩]

/-- Every operation's blast radius is one `rank` knows. -/
theorem known_of_mem_operations : ∀ operation ∈ operations, operation.blast.Known := by
  decide +kernel

/-- `Find` -/
def find (id : String) : Option Operation :=
  operations.find? fun operation => operation.id = id

theorem known_of_find {id : String} {operation : Operation} (h : find id = some operation) :
    operation.blast.Known :=
  known_of_mem_operations operation (List.mem_of_find?_eq_some h)

end MqStudio.Agent
