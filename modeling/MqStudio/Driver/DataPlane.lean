import Mathlib.Data.List.Nodup
import MqStudio.Lib.Threads

/-!
# The Shared AMQP Connection

`dataPlane` of `internal/driver/rabbitmq/amqp.go`: one connection that operations share, dialled when
one needs it and closed when none has used it for a while. Operations, the callbacks of timers and
the connection itself run side by side; each critical section is one step, and a dial is part of
the one that waits for it.

A timer that fires late is one whose callback waits for the lock while it is stopped. `close` is
left out, and with it what comes after.

## Main definitions

- `dataPlane`: `withChannel`, position by position, and what happens beside it.
- `Counted`, `Armed`: that `active` counts the users, and that an unused connection has a timer.
- `deadOrUnshared`: a discarded connection is dead, or nobody else uses it.

## Main results

- `shared_connection`: under that condition the connection is neither leaked nor closed under an
  operation.
-/

namespace MqStudio.Driver.Rabbit

open MqStudio.Lib
open MqStudio.Lib.Program
open MqStudio.Lib.TreeMap

/-! ## The connection and its users -/

/-- `dataPlane`: the connections that are open, the shared one, how many use it, the idle timer,
    the timers that are armed, and the callbacks of those that fired. -/
structure DataPlane where
  live : List Nat
  conn : Option Nat
  active : Nat
  idle : Option Nat
  armed : List Nat
  late : List Nat
  /-- How many connections were dialled, and timers armed. -/
  dialled : Nat
  timers : Nat
  deriving DecidableEq

/-- `newDataPlane` -/
def DataPlane.new : DataPlane := ⟨[], none, 0, none, [], [], 0, 0⟩

/-- Where a call of `withChannel` stands, and whether it is its second attempt. -/
inductive Position where
  /-- Before `acquire`. -/
  | acquiring (again : Bool)
  /-- It has the connection, and opens a channel. -/
  | opening (conn : Nat) (again : Bool)
  /-- It could not. -/
  | discarding (conn : Nat) (again : Bool)
  /-- Before the `release` of an attempt that failed. -/
  | failing (conn : Nat) (again : Bool)
  /-- The operation runs. -/
  | running (conn : Nat)
  deriving DecidableEq

/-- The connection of an operation between its `acquire` and its `release`. -/
def Position.conn : Position → Option Nat
  | .acquiring _ => none
  | .opening conn _ | .discarding conn _ | .failing conn _ | .running conn => some conn

/-- An operation uses the connection. -/
def Position.uses (p : Position) : Bool := p.conn.isSome

/-- `time.Timer.Stop`, of the idle timer. -/
def DataPlane.stopIdle (d : DataPlane) : DataPlane :=
  { d with
    armed := d.armed.filter fun timer => some timer ≠ d.idle
    idle := none }

/-- `acquire`: the shared connection if it is open, or the one that is dialled. -/
def DataPlane.acquire (d : DataPlane) (dials : Bool) : DataPlane × Option Nat :=
  let stopped := d.stopIdle
  match d.conn.filter fun conn => d.live.contains conn with
  | some conn => ({ stopped with active := d.active + 1 }, some conn)
  | none =>
    if dials then
      ({ stopped with
        live := d.dialled :: d.live
        conn := some d.dialled
        active := d.active + 1
        dialled := d.dialled + 1 }, some d.dialled)
    else (stopped, none)

/-- `release` arms the idle timer once nothing uses the connection. -/
def DataPlane.release (d : DataPlane) : DataPlane :=
  let left := { d with active := d.active - 1 }
  if left.active > 0 ∨ d.conn = none then left
  else { left with idle := some d.timers, armed := d.timers :: d.armed, timers := d.timers + 1 }

/-- The shared connection is closed. -/
def DataPlane.drop (d : DataPlane) : DataPlane :=
  { d with live := d.live.filter fun conn => some conn ≠ d.conn, conn := none }

/-- `closeIfIdle` -/
def DataPlane.closeIfIdle (d : DataPlane) : DataPlane :=
  if d.active > 0 ∨ d.conn = none then d else d.drop

/-- `discard`, unless the connection was replaced. -/
def DataPlane.discard (d : DataPlane) (dead : Nat) : DataPlane :=
  if d.conn = some dead then d.drop else d

/-- One step of a call; whether a dial or the opening of a channel succeeds is not its choice, and
    none is opened on a connection that is closed. -/
def withChannel (d : DataPlane) (p : Position) (succeeds : Bool) :
    Option (DataPlane × Option Position) :=
  match p with
  | .acquiring again =>
    match d.acquire succeeds with
    | (acquired, some conn) => some (acquired, some (.opening conn again))
    | (acquired, none) => some (acquired, none)
  | .opening conn again =>
    if succeeds then
      if d.live.contains conn then some (d, some (.running conn)) else none
    else some (d, some (.discarding conn again))
  | .discarding conn again => some (d.discard conn, some (.failing conn again))
  | .failing _ again => some (d.release, if again then none else some (.acquiring true))
  | .running _ => some (d.release, none)

/-- What happens beside the operations. -/
inductive Beside where
  /-- A connection dies. -/
  | die (conn : Nat)
  /-- A timer fires. -/
  | fire (timer : Nat)
  /-- Its callback has the lock. -/
  | callback (timer : Nat)
  deriving DecidableEq

def DataPlane.beside (d : DataPlane) : Beside → Option DataPlane
  | .die conn => some { d with live := d.live.filter (· ≠ conn) }
  | .fire timer =>
    if timer ∈ d.armed then
      some { d with armed := d.armed.filter (· ≠ timer), late := timer :: d.late }
    else none
  | .callback timer =>
    if timer ∈ d.late then some { d.closeIfIdle with late := d.late.erase timer } else none

/-- Any number of operations over one connection. -/
def dataPlane : Program DataPlane Position Bool Beside where
  start d := d = .new
  arrives p := p = .acquiring false
  advance := withChannel
  environment := DataPlane.beside
  holds _ := false
  excludes _ := false

/-- Operations and the connection they share. -/
abbrev Sharing := Threads DataPlane Position

/-! ## What is promised -/

/-- **`active` counts the operations** between an `acquire` that succeeded and their `release`. -/
def Counted (active : Nat) (threads : Map Nat Position) : Prop :=
  ∃ users : List Nat, users.Nodup ∧ active = users.length ∧
    ∀ k, k ∈ users ↔ ∃ p, threads[k]? = some p ∧ p.uses = true

/-- **An open connection used by none has a timer**, armed or firing. -/
def Armed (d : DataPlane) : Prop :=
  ∀ conn, d.conn = some conn → conn ∈ d.live → d.active = 0 →
    ∃ timer, d.idle = some timer ∧ (timer ∈ d.armed ∨ timer ∈ d.late)

/-- Every connection that is open is the shared one. -/
def Unleaked (d : DataPlane) : Prop := ∀ conn ∈ d.live, d.conn = some conn

/-- A step closes a connection. -/
def Closes (s t : Sharing) (conn : Nat) : Prop := conn ∈ s.shared.live ∧ conn ∉ t.shared.live

/-- A discarded connection is dead, or nobody else uses it. -/
def deadOrUnshared (s : Sharing) (k : Nat) : Prop :=
  ∀ conn again, s.threads[k]? = some (.discarding conn again) → s.shared.conn = some conn →
    conn ∈ s.shared.live → ∀ (l : Nat) (p : Position), l ≠ k → s.threads[l]? = some p →
      p.conn ≠ some conn

/-- **What a state promises**: its users are counted, an unused connection has a timer, none is
    leaked, a timer closes none that is used, and an operation closes none that another uses just
    where it discards one that is dead or unshared. -/
structure Sound (s : Sharing) : Prop where
  counted : Counted s.shared.active s.threads
  armed : Armed s.shared
  unleaked : Unleaked s.shared
  timer : ∀ timer t, dataPlane.machine.step s (.environment (.callback timer)) = some t →
    ∀ conn, Closes s t conn → ∀ (k : Nat) (p : Position), s.threads[k]? = some p → p.uses = false
  operation : ∀ k succeeds t, dataPlane.machine.step s (.thread k succeeds) = some t →
    ((∀ conn, Closes s t conn → ∀ (l : Nat) (p : Position), l ≠ k → s.threads[l]? = some p →
      p.conn ≠ some conn) ↔ deadOrUnshared s k)

/-! ## The critical sections -/

section Sections

variable {d : DataPlane}

@[simp] theorem conn_drop (d : DataPlane) : d.drop.conn = none := rfl

@[simp] theorem active_drop (d : DataPlane) : d.drop.active = d.active := rfl

theorem mem_live_drop {conn : Nat} : conn ∈ d.drop.live ↔ conn ∈ d.live ∧ d.conn ≠ some conn := by
  rw [DataPlane.drop, List.mem_filter, decide_eq_true_eq, ne_comm]

/-- Without a shared connection nothing needs a timer. -/
theorem armed_of_none (h : d.conn = none) : Armed d := by
  intro conn hconn
  rw [h] at hconn
  cases hconn

/-- Nor while it is used. -/
theorem armed_of_used (h : 0 < d.active) : Armed d := by
  intro conn _ _ hnone
  omega

theorem Unleaked.drop (h : Unleaked d) : Unleaked d.drop := by
  intro conn hconn
  obtain ⟨hlive, hother⟩ := mem_live_drop.mp hconn
  exact absurd (h conn hlive) hother

/-- **`acquire`** counts one more user, or fails where no connection is open. -/
theorem acquire_cases (d : DataPlane) (dials : Bool) :
    (∃ conn, (d.acquire dials).2 = some conn ∧ (d.acquire dials).1.active = d.active + 1 ∧
      (d.acquire dials).1.conn = some conn ∧ ((conn ∈ d.live ∧ d.conn = some conn ∧
        (d.acquire dials).1.live = d.live) ∨ (∀ old ∈ d.live, d.conn ≠ some old) ∧
          (d.acquire dials).1.live = conn :: d.live)) ∨
    ((d.acquire dials).2 = none ∧ (d.acquire dials).1 = d.stopIdle ∧
      ∀ old ∈ d.live, d.conn ≠ some old) := by
  unfold DataPlane.acquire
  dsimp only
  split
  · rename_i conn hconn
    obtain ⟨hsome, hlive⟩ := Option.filter_eq_some_iff.mp hconn
    exact .inl ⟨conn, rfl, rfl, hsome, .inl ⟨List.contains_iff_mem.mp hlive, hsome, rfl⟩⟩
  · rename_i hnone
    have hdead : ∀ old ∈ d.live, d.conn ≠ some old := by
      intro old hold hsome
      rw [hsome, Option.filter_some, if_pos (List.contains_iff_mem.mpr hold)] at hnone
      cases hnone
    cases dials with
    | true => exact .inl ⟨_, rfl, rfl, rfl, .inr ⟨hdead, rfl⟩⟩
    | false => exact .inr ⟨rfl, rfl, hdead⟩

/-- **`release`** counts one fewer, and arms a timer after the last. -/
theorem release_armed (d : DataPlane) : Armed d.release := by
  unfold DataPlane.release
  dsimp only
  split
  · rename_i hbusy
    rcases hbusy with hactive | hnone
    · exact armed_of_used hactive
    · exact armed_of_none hnone
  · exact fun _ _ _ _ => ⟨d.timers, rfl, .inl List.mem_cons_self⟩

theorem release_same (d : DataPlane) : d.release.active = d.active - 1 ∧
    d.release.conn = d.conn ∧ d.release.live = d.live := by
  unfold DataPlane.release
  dsimp only
  split <;> exact ⟨rfl, rfl, rfl⟩

end Sections

/-! ## The users -/

section Users

variable {threads : Map Nat Position} {active k : Nat} {p : Position} {n : Option Position}

theorem getElem?_move_ite (l : Nat) : (move threads k n)[l]? = if k = l then n else threads[l]? := by
  cases n with
  | none =>
    rw [move, Std.ExtTreeMap.getElem?_erase]
    simp only [Std.LawfulEqCmp.compare_eq_iff_eq]
  | some q => rw [move, getElem?_insert_ite]

/-- A step between positions that both use the connection, or neither. -/
theorem Counted.same (h : Counted active threads) (hk : threads[k]? = some p)
    (hn : n.any Position.uses = p.uses) : Counted active (move threads k n) := by
  obtain ⟨users, hnodup, hlength, husers⟩ := h
  refine ⟨users, hnodup, hlength, fun l => ?_⟩
  rw [husers l, getElem?_move_ite]
  split
  · rename_i hl
    subst hl
    rw [hk]
    cases n <;> simp_all
  · exact Iff.rfl

/-- A step that begins to use it. -/
theorem Counted.more (h : Counted active threads) (hk : threads[k]? = some p)
    (hp : p.uses = false) (hn : n.any Position.uses = true) :
    Counted (active + 1) (move threads k n) := by
  obtain ⟨users, hnodup, hlength, husers⟩ := h
  have hnew : k ∉ users := by
    intro hmem
    obtain ⟨q, hq, huses⟩ := (husers k).mp hmem
    rw [hk] at hq
    cases hq
    rw [hp] at huses
    cases huses
  refine ⟨k :: users, List.nodup_cons.mpr ⟨hnew, hnodup⟩, by rw [hlength, List.length_cons], ?_⟩
  intro l
  rw [List.mem_cons, husers l, getElem?_move_ite]
  by_cases hl : k = l
  · subst hl
    rw [if_pos rfl]
    cases n <;> simp_all
  · rw [if_neg hl]
    simp [Ne.symm hl]

/-- A step that ceases to. -/
theorem Counted.fewer (h : Counted active threads) (hk : threads[k]? = some p)
    (hp : p.uses = true) (hn : n.any Position.uses = false) :
    Counted (active - 1) (move threads k n) := by
  obtain ⟨users, hnodup, hlength, husers⟩ := h
  have hmem : k ∈ users := (husers k).mpr ⟨p, hk, hp⟩
  refine ⟨users.erase k, hnodup.erase k, by rw [hlength, List.length_erase_of_mem hmem], ?_⟩
  intro l
  rw [hnodup.mem_erase_iff, husers l, getElem?_move_ite]
  by_cases hl : k = l
  · subst hl
    rw [if_pos rfl]
    cases n <;> simp_all
  · rw [if_neg hl]
    simp [Ne.symm hl]

/-- An operation that arrives does not use it yet. -/
theorem Counted.arrive (h : Counted active threads) (hk : threads[k]? = none)
    (hp : p.uses = false) : Counted active (threads.insert k p) := by
  obtain ⟨users, hnodup, hlength, husers⟩ := h
  refine ⟨users, hnodup, hlength, fun l => ?_⟩
  rw [husers l, getElem?_insert_ite]
  split
  · rename_i hl
    subst hl
    rw [hk]
    simp [hp]
  · exact Iff.rfl

/-- Where none is counted, nobody uses it. -/
theorem Counted.unused (h : Counted 0 threads) (hk : threads[k]? = some p) : p.uses = false := by
  obtain ⟨users, -, hlength, husers⟩ := h
  cases hp : p.uses with
  | false => rfl
  | true =>
    have hmem := (husers k).mpr ⟨p, hk, hp⟩
    rw [List.length_eq_zero_iff.mp hlength.symm] at hmem
    cases hmem

/-- Where somebody uses it, somebody is counted. -/
theorem Counted.pos (h : Counted active threads) (hk : threads[k]? = some p) (hp : p.uses = true) :
    0 < active := by
  rcases Nat.eq_zero_or_pos active with hzero | hpos
  · rw [hzero] at h
    rw [h.unused hk] at hp
    cases hp
  · exact hpos

end Users

/-! ## Every step -/

/-- The invariant: users are counted, an unused connection has a timer, and none is leaked. -/
structure Inv (s : Sharing) : Prop where
  counted : Counted s.shared.active s.threads
  armed : Armed s.shared
  unleaked : Unleaked s.shared

section Steps

variable {s t : Sharing}

/-- **An operation's step** keeps it. -/
theorem Inv.thread (h : Inv s) {k : Nat} {succeeds : Bool}
    (hstep : dataPlane.machine.step s (.thread k succeeds) = some t) : Inv t := by
  obtain ⟨p, next, hk, hadvance, rfl⟩ := thread_move hstep
  have hadvance' : withChannel s.shared p succeeds = some next := hadvance
  cases p with
  | acquiring again =>
    have hcases := acquire_cases s.shared succeeds
    rw [withChannel] at hadvance'
    generalize s.shared.acquire succeeds = acquired at hcases hadvance'
    obtain ⟨acquired, result⟩ := acquired
    rcases hcases with ⟨conn, hsome, hactive, hconn, hlive⟩ | ⟨hnone, hstopped, hdead⟩
    · have hresult : result = some conn := hsome
      subst hresult
      cases hadvance'
      have hmore : acquired.active = s.shared.active + 1 := hactive
      refine ⟨?_, ?_, ?_⟩
      · show Counted acquired.active _
        rw [hmore]
        exact h.counted.more hk rfl rfl
      · apply armed_of_used
        show 0 < acquired.active
        omega
      · intro old hold
        show acquired.conn = some old
        rcases hlive with ⟨-, hshared, hsame⟩ | ⟨hdead, hdialled⟩
        · dsimp only at hold
          rw [hsame] at hold
          rw [hconn, ← hshared, h.unleaked old hold]
        · dsimp only at hold
          rw [hdialled, List.mem_cons] at hold
          rcases hold with rfl | hold
          · exact hconn
          · exact absurd (h.unleaked old hold) (hdead old hold)
    · have hresult : result = none := hnone
      have hsame : acquired = s.shared.stopIdle := hstopped
      subst hresult hsame
      cases hadvance'
      refine ⟨h.counted.same hk rfl, ?_, h.unleaked⟩
      intro conn hconn hlive _
      exact absurd hconn (hdead conn hlive)
  | opening conn again =>
    rw [withChannel] at hadvance'
    cases succeeds with
    | true =>
      rw [if_pos rfl] at hadvance'
      split at hadvance'
      · cases hadvance'
        exact ⟨h.counted.same hk rfl, h.armed, h.unleaked⟩
      · cases hadvance'
    | false =>
      cases hadvance'
      exact ⟨h.counted.same hk rfl, h.armed, h.unleaked⟩
  | discarding conn again =>
    cases hadvance'
    have hused : 0 < s.shared.active := h.counted.pos hk rfl
    show Inv ⟨s.shared.discard conn, _⟩
    rw [DataPlane.discard]
    split
    · exact ⟨h.counted.same hk rfl, armed_of_used hused, h.unleaked.drop⟩
    · exact ⟨h.counted.same hk rfl, h.armed, h.unleaked⟩
  | failing conn again =>
    obtain ⟨hactive, hconn, hlive⟩ := release_same s.shared
    cases hadvance'
    refine ⟨?_, release_armed s.shared, ?_⟩
    · show Counted s.shared.release.active _
      rw [hactive]
      apply h.counted.fewer hk rfl
      cases again <;> rfl
    · intro old hold
      show s.shared.release.conn = some old
      rw [hconn]
      exact h.unleaked old (hlive ▸ hold)
  | running conn =>
    obtain ⟨hactive, hconn, hlive⟩ := release_same s.shared
    cases hadvance'
    refine ⟨?_, release_armed s.shared, ?_⟩
    · show Counted s.shared.release.active _
      rw [hactive]
      exact h.counted.fewer hk rfl rfl
    · intro old hold
      show s.shared.release.conn = some old
      rw [hconn]
      exact h.unleaked old (hlive ▸ hold)

/-- **So does what happens beside them.** -/
theorem Inv.environment (h : Inv s) {e : Beside} {d : DataPlane}
    (hbeside : s.shared.beside e = some d) : Inv { s with shared := d } := by
  cases e with
  | die conn =>
    cases hbeside
    refine ⟨h.counted, fun old hold hlive => ?_, fun old hold => ?_⟩
    · exact h.armed old hold (List.mem_filter.mp hlive).1
    · exact h.unleaked old (List.mem_filter.mp hold).1
  | fire timer =>
    rw [DataPlane.beside] at hbeside
    split at hbeside
    · cases hbeside
      refine ⟨h.counted, fun conn hconn hlive hnone => ?_, h.unleaked⟩
      obtain ⟨idle, hidle, harmed⟩ := h.armed conn hconn hlive hnone
      refine ⟨idle, hidle, ?_⟩
      by_cases hfired : idle = timer
      · exact .inr (List.mem_cons.mpr (.inl hfired))
      · rcases harmed with harmed | hlate
        · exact .inl (List.mem_filter.mpr ⟨harmed, decide_eq_true hfired⟩)
        · exact .inr (List.mem_cons_of_mem _ hlate)
    · cases hbeside
  | callback timer =>
    rw [DataPlane.beside] at hbeside
    split at hbeside
    · cases hbeside
      show Inv { s with shared := { s.shared.closeIfIdle with late := _ } }
      rw [DataPlane.closeIfIdle]
      split
      · rename_i hkept
        refine ⟨h.counted, ?_, h.unleaked⟩
        rcases hkept with hused | hnone
        · exact armed_of_used hused
        · exact armed_of_none hnone
      · exact ⟨h.counted, armed_of_none rfl, h.unleaked.drop⟩
    · cases hbeside

/-- **Run lemma**: the invariant holds in every interleaving. -/
theorem inv_reachable (hs : dataPlane.machine.Reachable Machine.Always s) : Inv s := by
  apply hs.invariant
  · intro s hstart
    obtain ⟨hnew, hempty⟩ := hstart
    have hnew' : s.shared = .new := hnew
    refine ⟨⟨[], List.nodup_nil, ?_, fun k => ?_⟩, ?_, ?_⟩
    · rw [hnew']
      rfl
    · rw [hempty]
      simp
    · apply armed_of_none
      rw [hnew']
      rfl
    · intro conn hconn
      rw [hnew'] at hconn
      cases hconn
  · intro s turn t _ h _ hstep
    cases turn with
    | arrive k p =>
      obtain ⟨hfree, harrives, rfl⟩ := arrive_step hstep
      have hfirst : p = .acquiring false := of_decide_eq_true harrives
      subst hfirst
      exact ⟨h.counted.arrive hfree rfl, h.armed, h.unleaked⟩
    | thread k succeeds => exact h.thread hstep
    | environment e =>
      obtain ⟨d, hbeside, rfl⟩ := environment_step hstep
      exact h.environment hbeside

/-- **An operation closes a connection** only where it discards one. -/
theorem discarding_of_closes {k : Nat} {succeeds : Bool} {conn : Nat}
    (hstep : dataPlane.machine.step s (.thread k succeeds) = some t) (hcloses : Closes s t conn) :
    ∃ again, s.threads[k]? = some (.discarding conn again) ∧ s.shared.conn = some conn := by
  obtain ⟨p, next, hk, hadvance, rfl⟩ := thread_move hstep
  have hadvance' : withChannel s.shared p succeeds = some next := hadvance
  obtain ⟨hopen, hclosed⟩ := hcloses
  cases p with
  | acquiring again =>
    have hcases := acquire_cases s.shared succeeds
    rw [withChannel] at hadvance'
    generalize s.shared.acquire succeeds = acquired at hcases hadvance'
    obtain ⟨acquired, result⟩ := acquired
    apply absurd _ hclosed
    rcases hcases with ⟨fresh, hsome, -, -, hlive⟩ | ⟨hnone, hstopped, -⟩
    · have hresult : result = some fresh := hsome
      subst hresult
      cases hadvance'
      rcases hlive with ⟨-, -, hsame⟩ | ⟨-, hdialled⟩
      · exact hsame ▸ hopen
      · exact hdialled ▸ List.mem_cons_of_mem _ hopen
    · have hresult : result = none := hnone
      have hsame : acquired = s.shared.stopIdle := hstopped
      subst hresult hsame
      cases hadvance'
      exact hopen
  | opening used again =>
    apply absurd _ hclosed
    rw [withChannel] at hadvance'
    cases succeeds with
    | true =>
      rw [if_pos rfl] at hadvance'
      split at hadvance'
      · cases hadvance'
        exact hopen
      · cases hadvance'
    | false =>
      cases hadvance'
      exact hopen
  | discarding used again =>
    cases hadvance'
    have hclosed' : conn ∉ (s.shared.discard used).live := hclosed
    rw [DataPlane.discard] at hclosed'
    split at hclosed'
    · rename_i hshared
      rw [mem_live_drop, not_and_not_right] at hclosed'
      have hsame := hshared.symm.trans (hclosed' hopen)
      cases hsame
      exact ⟨again, hk, hshared⟩
    · exact absurd hopen hclosed'
  | failing used again =>
    cases hadvance'
    exact absurd ((release_same s.shared).2.2 ▸ hopen) hclosed
  | running used =>
    cases hadvance'
    exact absurd ((release_same s.shared).2.2 ▸ hopen) hclosed

/-- **Where it discards the shared connection**, that connection is closed. -/
theorem closes_of_discarding {k : Nat} {succeeds again : Bool} {conn : Nat}
    (hk : s.threads[k]? = some (.discarding conn again)) (hshared : s.shared.conn = some conn)
    (hopen : conn ∈ s.shared.live)
    (hstep : dataPlane.machine.step s (.thread k succeeds) = some t) : Closes s t conn := by
  obtain ⟨p, next, hk', hadvance, rfl⟩ := thread_move hstep
  rw [hk] at hk'
  cases hk'
  have hadvance' : withChannel s.shared (.discarding conn again) succeeds = some next := hadvance
  cases hadvance'
  refine ⟨hopen, fun hstill => ?_⟩
  have hstill' : conn ∈ (s.shared.discard conn).live := hstill
  rw [DataPlane.discard, if_pos hshared, mem_live_drop] at hstill'
  exact hstill'.2 hshared

/-- **The idle timer closes** a connection nobody uses. -/
theorem Inv.unused_of_closes (h : Inv s) {timer conn : Nat}
    (hstep : dataPlane.machine.step s (.environment (.callback timer)) = some t)
    (hcloses : Closes s t conn) {k : Nat} {p : Position} (hk : s.threads[k]? = some p) :
    p.uses = false := by
  obtain ⟨d, hbeside, rfl⟩ := environment_step hstep
  obtain ⟨hopen, hclosed⟩ := hcloses
  have hbeside' : s.shared.beside (.callback timer) = some d := hbeside
  rw [DataPlane.beside] at hbeside'
  split at hbeside'
  · cases hbeside'
    have hclosed' : conn ∉ s.shared.closeIfIdle.live := hclosed
    rw [DataPlane.closeIfIdle] at hclosed'
    split at hclosed'
    · exact absurd hopen hclosed'
    · rename_i hidle
      have hnone : s.shared.active = 0 := by
        rw [not_or, Nat.not_lt, Nat.le_zero] at hidle
        exact hidle.1
      have hcounted := h.counted
      rw [hnone] at hcounted
      exact hcounted.unused hk
  · cases hbeside'

end Steps

/-! ## The result -/

/-- **The shared connection** is neither leaked nor closed by the timer under an operation, in any
    interleaving, and an operation closes it under another just where it discards a connection
    that is neither dead nor unshared. -/
theorem shared_connection {s : Sharing} (hs : dataPlane.machine.Reachable Machine.Always s) :
    Sound s := by
  have hinv : Inv s := inv_reachable hs
  refine ⟨hinv.counted, hinv.armed, hinv.unleaked, ?_, ?_⟩
  · intro timer t hstep conn hcloses k p hk
    exact hinv.unused_of_closes hstep hcloses hk
  · intro k succeeds t hstep
    constructor
    · intro hunused conn again hk hshared hopen
      exact hunused conn (closes_of_discarding hk hshared hopen hstep)
    · intro hunshared conn hcloses
      obtain ⟨again, hk, hshared⟩ := discarding_of_closes hstep hcloses
      exact hunshared conn again hk hshared hcloses.1

/-- Before any operation. -/
def unused : Sharing := ⟨.new, ∅⟩

/-- Two operations run on one connection. -/
def twoOperations : List (Turn Position Bool Beside) :=
  [.arrive 0 (.acquiring false), .arrive 1 (.acquiring false), .thread 0 true, .thread 1 true,
    .thread 1 true]

/-- It dies under them, and a third dials another. -/
def replaced : List (Turn Position Bool Beside) :=
  [.thread 0 true, .environment (.die 0), .arrive 2 (.acquiring false), .thread 2 true,
    .thread 0 true, .thread 1 true, .thread 2 true, .thread 2 true]

/-- Once all three are over, the second connection is open and waits for its timer. -/
theorem shared_connection_replaced :
    (dataPlane.machine.endOf unused (twoOperations ++ replaced)).shared =
      ⟨[1], some 1, 0, some 0, [0], [], 2, 1⟩ ∧
    Sound (dataPlane.machine.endOf unused (twoOperations ++ replaced)) := by
  have hstart : dataPlane.machine.Reachable Machine.Always unused := .start ⟨rfl, rfl⟩
  exact ⟨by decide +kernel, shared_connection (hstart.endOf (Machine.permitted_always _ _ _))⟩

/-- The first operation opens no channel, since the connection has as many as it may, and discards
    it while the second one runs on it. -/
theorem closed_under_operation :
    ∃ s t, dataPlane.machine.Reachable Machine.Always s ∧
      dataPlane.machine.step s (.thread 0 false) = some t ∧ Closes s t 0 ∧
      s.threads[1]? = some (.running 0) := by
  have hstart : dataPlane.machine.Reachable Machine.Always unused := .start ⟨rfl, rfl⟩
  have hreached := hstart.endOf (Machine.permitted_always _ _ (twoOperations ++ [.thread 0 false]))
  refine ⟨_, dataPlane.machine.endOf unused (twoOperations ++ [.thread 0 false, .thread 0 false]),
    hreached, rfl, ⟨?_, ?_⟩, ?_⟩
  · decide +kernel
  · decide +kernel
  · decide +kernel

end MqStudio.Driver.Rabbit
