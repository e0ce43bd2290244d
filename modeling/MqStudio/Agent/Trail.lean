import MqStudio.Agent.Effects

/-!
# The Server's Trail

What the server's calls leave in the audit log. A call is numbered once; its number goes from the
call that puts a question, through the question, to the call that answers it, and is never in two
hands: that is what keeps its records in order, whatever the interleaving and whichever appends
fail.

## Main definitions

- `Numbered`, `Tracked`: a number is with one call, or with one question that waits, and its
  records stand where they stand.

## Main results

- `Effect.handed`: where the numbers of a step's calls come from.
- `numbered_invariants`: the records of every call, in every interleaving.
-/

namespace MqStudio.Agent

open MqStudio.Lib
open MqStudio.Lib.History
open MqStudio.Lib.TreeMap
open Server

/-! ## The log in the history -/

/-- The line an event put into the log. -/
def Event.line : Event → Option Record
  | .appended r outcome => if outcome.written then some r else none
  | .foreign r => some r
  | _ => none

/-- The log, the latest line first. -/
def logOf (history : List Event) : List Record := history.filterMap Event.line

theorem logOf_cons_of_none {e : Event} (h : e.line = none) (history : List Event) :
    logOf (e :: history) = logOf history := by
  rw [logOf, List.filterMap_cons, h]
  rfl

theorem logOf_cons_of_some {e : Event} {r : Record} (h : e.line = some r) (history : List Event) :
    logOf (e :: history) = r :: logOf history := by
  rw [logOf, List.filterMap_cons, h]
  rfl

/-- What the log says one of the server's calls has come to. -/
def stageAt (S : Server) (s : Shared) (call : Nat) : Option Stage :=
  stageIn (logOf s.history) S.session call

/-- A write is run once its start is on record. -/
def RunsStarted (S : Server) (earlier : List Event) (e : Event) : Prop :=
  ∀ r call current, e = .ran r call current →
    r.tool.blast = .read ∨ ∃ n confirmed, call = some n ∧
      .appended ((S.entry r n).started confirmed) .stored ∈ earlier

/-! ## Numbers -/

/-- The number a call goes under. -/
def Position.number : Position → Option Nat
  | .questioning call | .probing call | .profiling call => some call
  | .counting call _ | .asking call _ | .dating call _ => some call
  | .putting question => some question.call
  | .locking call _ | .reaching call _ | .comparing call _ | .starting call _ => some call
  | .running call _ | .finishing call _ _ | .refusing call _ _ => some call
  | _ => none

/-- What the records of a call may say at a position. -/
def Position.stands : Position → Stage → Bool
  | .questioning _, stage | .probing _, stage | .profiling _, stage => stage = .unrecorded
  | .counting _ _, stage | .asking _ _, stage => stage = .unrecorded
  | .dating _ _, stage | .putting _, stage => stage = .asked
  | .running _ _, stage | .finishing _ _ _, stage => stage = .started
  | _, stage => stage = .unrecorded || stage = .asked

/-- A number at work: it was given out, its records stand at one of these stages, and no question
    waits under it. -/
def AtWork (S : Server) (s : Shared) (n : Nat) (stands : Stage → Bool) : Prop :=
  0 < n ∧ n ≤ s.calls ∧ (∃ stage, stageAt S s n = some stage ∧ stands stage = true) ∧
    ∀ (token : String) (q : Agreement), s.pending[token]? = some q → q.call ≠ n

/-- **Invariant of the numbers**. -/
structure Numbered (S : Server) (s : Shared) : Prop where
  unused : ∀ n, s.calls < n → stageAt S s n = some .unrecorded
  whole : ∀ n, (stageAt S s n).isSome
  waiting : ∀ (token : String) (q : Agreement), s.pending[token]? = some q →
    0 < q.call ∧ q.call ≤ s.calls ∧ stageAt S s q.call = some .asked
  apart : ∀ (token token' : String) (q q' : Agreement), s.pending[token]? = some q →
    s.pending[token']? = some q' → q.call = q'.call → token = token'
  runs : Each (RunsStarted S) s.history

/-- **Invariant of a call**. -/
structure Tracked (S : Server) (s : Shared) (c : Call) : Prop where
  number : ∀ n, c.position.number = some n → AtWork S s n c.position.stands
  started : ∀ n agreed, c.position = .running n agreed →
    ∃ confirmed, .appended ((S.entry c.request n).started confirmed) .stored ∈ s.history
  reads : c.position = .reading → c.request.tool.blast = .read

/-- Two calls never go under one number. -/
def ApartNumbers (c d : Call) : Prop :=
  ∀ n m, c.position.number = some n → d.position.number = some m → n ≠ m

section Frames

variable {S : Server} {s t : Shared} {c : Call}

/-- A call without a number is anywhere. -/
theorem Tracked.idle (hnumber : c.position.number = none)
    (hreads : c.position ≠ .reading) : Tracked S s c where
  number n hn := by
    rw [hnumber] at hn
    cases hn
  started n agreed hposition := by
    rw [hposition] at hnumber
    cases hnumber
  reads h := absurd h hreads

/-- A call that goes under a number, not yet at its run. -/
theorem Tracked.at {p : Position} {n : Nat} (hnumber : p.number = some n)
    (hwork : AtWork S s n p.stands) (hrunning : ∀ agreed, p ≠ .running n agreed) :
    Tracked S s (c.to p) where
  number m hm := by
    obtain rfl := Option.some.inj (hnumber.symm.trans hm)
    exact hwork
  started m agreed hposition := by
    have hp : p = .running m agreed := hposition
    subst hp
    obtain rfl := Option.some.inj hnumber
    exact absurd rfl (hrunning agreed)
  reads hposition := by
    have hp : p = .reading := hposition
    subst hp
    cases hnumber

/-- A number stays at work when no record of it is added and no question put under it. -/
theorem AtWork.grow {n : Nat} {stands : Stage → Bool} (h : AtWork S s n stands)
    (hcalls : s.calls ≤ t.calls) (hstage : stageAt S t n = stageAt S s n)
    (hpending : ∀ (token : String) (q : Agreement), t.pending[token]? = some q → q.call = n →
      s.pending[token]? = some q) : AtWork S t n stands := by
  obtain ⟨hpositive, hle, hstands, hnone⟩ := h
  refine ⟨hpositive, by omega, by rw [hstage]; exact hstands, fun token q hq hcall => ?_⟩
  exact hnone token q (hpending token q hq hcall) hcall

/-- The stages allowed at a position may widen. -/
theorem AtWork.mono {n : Nat} {stands stands' : Stage → Bool} (h : AtWork S s n stands)
    (hweak : ∀ stage, stands stage = true → stands' stage = true) : AtWork S s n stands' := by
  obtain ⟨hpositive, hle, ⟨stage, hstage, hstands⟩, hnone⟩ := h
  exact ⟨hpositive, hle, ⟨stage, hstage, hweak stage hstands⟩, hnone⟩

/-- A step that adds no line, runs nothing and puts no question. -/
theorem Numbered.quiet (h : Numbered S s) (hcalls : s.calls ≤ t.calls)
    (hlog : logOf t.history = logOf s.history)
    (hpending : ∀ (token : String) (q : Agreement), t.pending[token]? = some q →
      s.pending[token]? = some q)
    (hruns : Each (RunsStarted S) t.history) : Numbered S t where
  unused n hn := by
    rw [stageAt, hlog]
    exact h.unused n (by omega)
  whole n := by
    rw [stageAt, hlog]
    exact h.whole n
  waiting token q hq := by
    obtain ⟨hpositive, hle, hstage⟩ := h.waiting token q (hpending token q hq)
    rw [stageAt, hlog]
    exact ⟨hpositive, by omega, hstage⟩
  apart token token' q q' hq hq' :=
    h.apart token token' q q' (hpending token q hq) (hpending token' q' hq')
  runs := hruns

/-- The stages after a record was appended. -/
theorem stageAt_append {r : Record} {outcome : Append} {n : Nat} (hof : r.Of S.session n)
    {stage : Stage} (hstage : stageAt S s n = some stage) :
    stageAt S (append s r outcome) n =
      if outcome.written then stage.after r.phase else some stage := by
  unfold stageAt at hstage ⊢
  cases hwritten : outcome.written with
  | true =>
    rw [append, logOf_cons_of_some (r := r) (by simp [Event.line, hwritten])]
    exact stageIn_cons_of hof hstage
  | false =>
    rw [append, logOf_cons_of_none (by simp [Event.line, hwritten])]
    exact hstage

/-- Appending leaves every other number where it stands. -/
theorem stageAt_append_of_ne {r : Record} {outcome : Append} {n m : Nat}
    (hof : r.Of S.session n) (hne : m ≠ n) :
    stageAt S (append s r outcome) m = stageAt S s m := by
  unfold stageAt
  cases hwritten : outcome.written with
  | true =>
    rw [append, logOf_cons_of_some (r := r) (by simp [Event.line, hwritten])]
    apply stageIn_cons_of_not
    rintro ⟨-, hcall⟩
    exact hne (hcall.symm.trans hof.2)
  | false => rw [append, logOf_cons_of_none (by simp [Event.line, hwritten])]

/-- **A record of a number at work** is the next its call may leave. -/
theorem Numbered.append (h : Numbered S s) {r : Record} {outcome : Append} {n : Nat}
    (hof : r.Of S.session n) {stands : Stage → Bool} (hwork : AtWork S s n stands)
    (hnext : ∀ stage, stands stage = true → (stage.after r.phase).isSome) :
    Numbered S (append s r outcome) := by
  obtain ⟨-, hle, ⟨stage, hstage, hstands⟩, hnone⟩ := hwork
  refine ⟨fun m hm => ?_, fun m => ?_, fun token q hq => ?_, h.apart, ?_⟩
  · have hcalls : s.calls < m := hm
    rw [stageAt_append_of_ne hof (by omega)]
    exact h.unused m hm
  · by_cases hm : m = n
    · subst hm
      rw [stageAt_append hof hstage]
      split
      · exact hnext stage hstands
      · rfl
    · rw [stageAt_append_of_ne hof hm]
      exact h.whole m
  · obtain ⟨hpositive, hcalls, hasked⟩ := h.waiting token q hq
    rw [stageAt_append_of_ne hof (hnone token q hq)]
    exact ⟨hpositive, hcalls, hasked⟩
  · refine each_cons.mpr ⟨fun r' call current heq => ?_, h.runs⟩
    cases heq

/-- Where a number at work stands after its record was appended. -/
theorem AtWork.append {r : Record} {outcome : Append} {n : Nat} (hof : r.Of S.session n)
    {stands stands' : Stage → Bool} (hwork : AtWork S s n stands)
    (hafter : ∀ stage, stands stage = true →
      ∃ stage', (if outcome.written then stage.after r.phase else some stage) = some stage' ∧
        stands' stage' = true) :
    AtWork S (append s r outcome) n stands' := by
  obtain ⟨hpositive, hle, ⟨stage, hstage, hstands⟩, hnone⟩ := hwork
  obtain ⟨stage', hnext, hstands'⟩ := hafter stage hstands
  exact ⟨hpositive, hle, ⟨stage', (stageAt_append hof hstage).trans hnext, hstands'⟩, hnone⟩

/-- A number nobody has, once it is given out. -/
theorem Numbered.fresh (h : Numbered S s) {stands : Stage → Bool}
    (hstands : stands .unrecorded = true) (hcalls : t.calls = s.calls + 1)
    (hlog : logOf t.history = logOf s.history) (hpending : t.pending = s.pending) :
    AtWork S t (s.calls + 1) stands := by
  refine ⟨by omega, by omega, ⟨.unrecorded, ?_, hstands⟩, fun token q hq hcall => ?_⟩
  · rw [stageAt, hlog]
    exact h.unused _ (by omega)
  · rw [hpending] at hq
    have hle := (h.waiting token q hq).2.1
    omega

end Frames

/-! ## One step -/

section Step

variable {S : Server} {s t : Shared} {c : Call} {next : Option Call}

/-- An answer adds no line, and only takes a question away. -/
theorem take_spec (s : Shared) (r : Request) :
    logOf (take s r).1.history = logOf s.history ∧ (take s r).1.calls = s.calls ∧
      (∀ (token : String) (q : Agreement), (take s r).1.pending[token]? = some q →
        token ≠ r.requestState ∧ s.pending[token]? = some q) ∧
      (Each (RunsStarted S) s.history → Each (RunsStarted S) (take s r).1.history) := by
  have hline : ∀ found, logOf (.answered r s.now found :: s.history) = logOf s.history :=
    fun found => logOf_cons_of_none rfl _
  have hpending : ∀ (token : String) (q : Agreement),
      (s.pending.erase r.requestState)[token]? = some q →
        token ≠ r.requestState ∧ s.pending[token]? = some q := by
    intro token q hq
    by_cases htoken : token = r.requestState
    · subst htoken
      simp at hq
    · rw [getElem?_erase_of_ne _ (Ne.symm htoken)] at hq
      exact ⟨htoken, hq⟩
  have hruns : ∀ found, Each (RunsStarted S) s.history →
      Each (RunsStarted S) (.answered r s.now found :: s.history) :=
    fun found h => each_cons.mpr ⟨fun _ _ _ heq => (by cases heq), h⟩
  unfold take
  dsimp only
  split
  · exact ⟨hline _, rfl, hpending, hruns _⟩
  · split
    · exact ⟨hline _, rfl, hpending, hruns _⟩
    · split <;> exact ⟨hline _, rfl, hpending, hruns _⟩

/-- **Where numbers come from**: a step adds records of its own call only, and the number a call
    goes on under is its own, the next, or that of a question that waited. -/
theorem Server.Effect.handed (h : Effect S s c t next) :
    (∀ m, c.position.number ≠ some m → stageAt S t m = stageAt S s m) ∧ s.calls ≤ t.calls ∧
      (∀ (token : String) (q : Agreement), t.pending[token]? = some q →
        s.pending[token]? = some q ∨ c.position.number = some q.call) ∧
      ∀ d, next = some d → ∀ n, d.position.number = some n →
        c.position.number = some n ∨ n = s.calls + 1 ∨
          ∃ (token : String) (q : Agreement), s.pending[token]? = some q ∧ q.call = n := by
  have hsame : ∀ m, c.position.number ≠ some m → stageAt S s m = stageAt S s m := fun _ _ => rfl
  have hkept : ∀ (token : String) (q : Agreement), s.pending[token]? = some q →
      s.pending[token]? = some q ∨ c.position.number = some q.call := fun _ _ hq => .inl hq
  have hreturned : ∀ d : Call, none = some d → ∀ n, d.position.number = some n →
      c.position.number = some n ∨ n = s.calls + 1 ∨
        ∃ (token : String) (q : Agreement), s.pending[token]? = some q ∧ q.call = n :=
    fun d hd => by cases hd
  -- a call that goes on under the number it has
  have honward : ∀ p : Position, p.number = c.position.number →
      ∀ d, some (c.to p) = some d → ∀ n, d.position.number = some n →
      c.position.number = some n ∨ n = s.calls + 1 ∨
        ∃ (token : String) (q : Agreement), s.pending[token]? = some q ∧ q.call = n := by
    intro p hp d hd n hn
    cases hd
    exact .inl (hp.symm.trans hn)
  -- a call without a number
  have hwithout : ∀ p : Position, p.number = none →
      ∀ d, some (c.to p) = some d → ∀ n, d.position.number = some n →
      c.position.number = some n ∨ n = s.calls + 1 ∨
        ∃ (token : String) (q : Agreement), s.pending[token]? = some q ∧ q.call = n := by
    intro p hp d hd n hn
    cases hd
    have hnone : (c.to p).position.number = none := hp
    rw [hnone] at hn
    cases hn
  -- a call that is given the next number
  have hgiven : ∀ d : Call, d.position.number = some (s.calls + 1) →
      ∀ d', some d = some d' → ∀ n, d'.position.number = some n →
      c.position.number = some n ∨ n = s.calls + 1 ∨
        ∃ (token : String) (q : Agreement), s.pending[token]? = some q ∧ q.call = n := by
    intro d hd d' hd' n hn
    cases hd'
    rw [hd] at hn
    exact .inr (.inl (Option.some.inj hn).symm)
  -- a record of the call's own
  have hrecorded : ∀ (r : Record) (outcome : Append) (n : Nat), r.Of S.session n →
      c.position.number = some n →
      ∀ m, c.position.number ≠ some m → stageAt S (append s r outcome) m = stageAt S s m := by
    intro r outcome n hof hn m hm
    apply stageAt_append_of_ne hof
    rintro rfl
    exact hm hn
  have hunlined : ∀ e : Event, e.line = none → ∀ m, c.position.number ≠ some m →
      stageAt S { s with history := e :: s.history } m = stageAt S s m := by
    intro e he m _
    rw [stageAt, logOf_cons_of_none he]
    rfl
  obtain ⟨hlog, hcalls, hpending, -⟩ := take_spec (S := S) s c.request
  have htaken : ∀ m, c.position.number ≠ some m →
      stageAt S (take s c.request).1 m = stageAt S s m := by
    intro m _
    rw [stageAt, hlog]
    rfl
  have htakes : ∀ (token : String) (q : Agreement),
      (take s c.request).1.pending[token]? = some q →
        s.pending[token]? = some q ∨ c.position.number = some q.call :=
    fun token q hq => .inl (hpending token q hq).2
  cases h with
  | fails => exact ⟨hsame, le_refl _, hkept, hreturned⟩
  | refreshes => exact ⟨fun _ _ => rfl, le_refl _, hkept, hwithout _ rfl⟩
  | reads => exact ⟨hsame, le_refl _, hkept, hwithout _ rfl⟩
  | runsReading => exact ⟨hunlined _ rfl, le_refl _, hkept, hreturned⟩
  | questions => exact ⟨fun _ _ => rfl, Nat.le_succ _, hkept, hgiven _ rfl⟩
  | takesUnnumbered => exact ⟨htaken, le_of_eq hcalls.symm, htakes, hwithout _ rfl⟩
  | takes asked _ _ hasked =>
    refine ⟨htaken, le_of_eq hcalls.symm, htakes, fun d hd n hn => ?_⟩
    cases hd
    refine .inr (.inr ⟨_, asked, hasked, ?_⟩)
    cases houtcome : judged c.request (take s c.request).2 <;> rw [houtcome] at hn <;>
      exact Option.some.inj hn
  | writes => exact ⟨fun _ _ => rfl, Nat.le_succ _, hkept, hgiven _ rfl⟩
  | writesGated => exact ⟨fun _ _ => rfl, Nat.le_succ _, hkept, hgiven _ rfl⟩
  | prepares hposition hprepares =>
    refine ⟨hsame, le_refl _, hkept, honward _ ?_⟩
    rw [hposition]
    cases hprepares <;> rfl
  | @refusesQuestion p call error hposition hpreparing =>
    refine ⟨hsame, le_refl _, hkept, honward _ ?_⟩
    rw [hposition]
    cases p <;> cases hpreparing <;> rfl
  | asks outcome hposition =>
    have hnumber := congrArg Position.number hposition
    exact ⟨hrecorded _ outcome _ ⟨rfl, rfl⟩ hnumber, le_refl _, hkept, honward _ hnumber.symm⟩
  | asksUnrecorded outcome hposition =>
    have hnumber := congrArg Position.number hposition
    exact ⟨hrecorded _ outcome _ ⟨rfl, rfl⟩ hnumber, le_refl _, hkept, honward _ hnumber.symm⟩
  | dates hposition =>
    exact ⟨hsame, le_refl _, hkept, honward _ (congrArg Position.number hposition).symm⟩
  | @puts question hposition =>
    refine ⟨fun m _ => ?_, le_refl _, fun token q hq => ?_, hreturned⟩
    · rw [stageAt, Server.ask, logOf_cons_of_none rfl]
      rfl
    · simp only [Server.ask, getElem?_insert_ite, Std.ExtTreeMap.getElem?_filter'] at hq
      split at hq
      · refine .inr ?_
        rw [hposition, ← Option.some.inj hq]
        rfl
      · exact .inl (Option.filter_eq_some_iff.mp hq).1
  | @numbers outcome hposition =>
    refine ⟨fun _ _ => rfl, Nat.le_succ _, hkept, hgiven _ ?_⟩
    cases outcome <;> rfl
  | locks hposition =>
    exact ⟨hsame, le_refl _, hkept, honward _ (congrArg Position.number hposition).symm⟩
  | overreaches error hposition =>
    exact ⟨hsame, le_refl _, hkept, honward _ (congrArg Position.number hposition).symm⟩
  | @reaches call agreed hposition =>
    refine ⟨hunlined _ rfl, le_refl _, hkept, honward _ ?_⟩
    rw [hposition]
    cases agreed <;> rfl
  | @passes call agreed hposition =>
    refine ⟨hsame, le_refl _, hkept, honward _ ?_⟩
    rw [hposition]
    cases agreed <;> rfl
  | differs error hposition =>
    exact ⟨hsame, le_refl _, hkept, honward _ (congrArg Position.number hposition).symm⟩
  | agrees hposition =>
    exact ⟨hunlined _ rfl, le_refl _, hkept, honward _ (congrArg Position.number hposition).symm⟩
  | starts outcome hposition =>
    have hnumber := congrArg Position.number hposition
    exact ⟨hrecorded _ outcome _ ⟨rfl, rfl⟩ hnumber, le_refl _, hkept, honward _ hnumber.symm⟩
  | startsUnrecorded outcome hposition =>
    have hnumber := congrArg Position.number hposition
    exact ⟨hrecorded _ outcome _ ⟨rfl, rfl⟩ hnumber, le_refl _, hkept, hreturned⟩
  | runs fails hposition =>
    exact ⟨hunlined _ rfl, le_refl _, hkept, honward _ (congrArg Position.number hposition).symm⟩
  | finishes outcome hposition =>
    have hnumber := congrArg Position.number hposition
    exact ⟨hrecorded _ outcome _ ⟨rfl, rfl⟩ hnumber, le_refl _, hkept, hreturned⟩
  | refuses outcome hposition =>
    have hnumber := congrArg Position.number hposition
    exact ⟨hrecorded _ outcome _ ⟨rfl, rfl⟩ hnumber, le_refl _, hkept, hreturned⟩

/-- A number that a question carried, once an answer took the question. -/
theorem Numbered.taken (h : Numbered S s) {r : Request} {asked : Agreement}
    (hasked : s.pending[r.requestState]? = some asked) {stands : Stage → Bool}
    (hstands : stands .asked = true) : AtWork S (take s r).1 asked.call stands := by
  obtain ⟨hlog, hcalls, hpending, -⟩ := take_spec (S := S) s r
  obtain ⟨hpositive, hle, hstage⟩ := h.waiting _ _ hasked
  refine ⟨hpositive, by omega, ⟨.asked, ?_, hstands⟩, fun token q hq hcall => ?_⟩
  · rw [stageAt, hlog]
    exact hstage
  · obtain ⟨hne, hold⟩ := hpending token q hq
    exact hne (h.apart _ _ _ _ hold hasked hcall)

/-- A call nothing has become of yet. -/
theorem stands_open {stage : Stage} (h : (decide (stage = .unrecorded) || decide (stage = .asked)) = true) :
    stage = .unrecorded ∨ stage = .asked := by
  simpa using h

/-- **The step of a call** keeps the invariant of the numbers and its own. -/
theorem Server.Effect.tracked (h : Effect S s c t next) (hs : Numbered S s) (hc : Tracked S s c) :
    Numbered S t ∧ ∀ d, next = some d → Tracked S t d := by
  have hreturned : ∀ d : Call, none = some d → Tracked S t d := fun d hd => by cases hd
  obtain ⟨hlog, hcalls, hpending, hruns⟩ := take_spec (S := S) s c.request
  have htake : Numbered S (take s c.request).1 :=
    hs.quiet (le_of_eq hcalls.symm) hlog (fun token q hq => (hpending token q hq).2) (hruns hs.runs)
  -- an event of the checks
  have hchecked : ∀ current, Numbered S
      { s with history := .checked c.request current :: s.history } := fun current =>
    hs.quiet (le_refl _) (logOf_cons_of_none rfl _) (fun _ _ hq => hq)
      (each_cons.mpr ⟨fun _ _ _ heq => (by cases heq), hs.runs⟩)
  have hnumbered : Numbered S { s with calls := s.calls + 1 } :=
    hs.quiet (Nat.le_succ _) rfl (fun _ _ hq => hq) hs.runs
  have hwork : ∀ {p : Position} {n : Nat}, c.position = p → p.number = some n →
      AtWork S s n p.stands := by
    rintro p n rfl hn
    exact hc.number n hn
  have hnoted : ∀ {p : Position} {n : Nat} {e : Event}, e.line = none → c.position = p →
      p.number = some n → AtWork S { s with history := e :: s.history } n p.stands := by
    intro p n e he hp hn
    refine (hwork hp hn).grow (le_refl _) ?_ fun _ _ hq _ => hq
    rw [stageAt, logOf_cons_of_none he]
    rfl
  cases h with
  | fails => exact ⟨hs, hreturned⟩
  | refreshes =>
    refine ⟨hs.quiet (le_refl _) rfl (fun _ _ hq => hq) hs.runs, fun d hd => ?_⟩
    cases hd
    exact .idle rfl (by simp [Call.to])
  | reads _ hread =>
    refine ⟨hs, fun d hd => ?_⟩
    cases hd
    exact ⟨fun n hn => (by cases hn), fun n agreed hp => (by cases hp), fun _ => hread⟩
  | runsReading hposition =>
    refine ⟨hs.quiet (le_refl _) (logOf_cons_of_none rfl _) (fun _ _ hq => hq) ?_, hreturned⟩
    refine each_cons.mpr ⟨fun r call current heq => .inl ?_, hs.runs⟩
    obtain ⟨rfl, -, -⟩ := Event.ran.inj heq
    exact hc.reads hposition
  | questions =>
    refine ⟨hnumbered, fun d hd => ?_⟩
    cases hd
    exact .at rfl (hs.fresh rfl rfl rfl rfl) (by simp)
  | takesUnnumbered =>
    refine ⟨htake, fun d hd => ?_⟩
    cases hd
    exact .idle rfl (by simp [Call.to])
  | takes asked _ _ hasked =>
    refine ⟨htake, fun d hd => ?_⟩
    cases hd
    cases judged c.request (take s c.request).2 with
    | error e => exact .at rfl (hs.taken hasked rfl) (by simp)
    | ok q => exact .at rfl (hs.taken hasked rfl) (by simp)
  | writes =>
    refine ⟨hnumbered, fun d hd => ?_⟩
    cases hd
    exact .at rfl (hs.fresh rfl rfl rfl rfl) (by simp)
  | writesGated =>
    refine ⟨hnumbered, fun d hd => ?_⟩
    cases hd
    exact .at rfl (hs.fresh rfl rfl rfl rfl) (by simp)
  | prepares hposition hprepares =>
    refine ⟨hs, fun d hd => ?_⟩
    cases hd
    cases hprepares <;> exact .at rfl ((hwork hposition rfl).mono fun _ h => h) (by simp)
  | @refusesQuestion p call error hposition hpreparing =>
    refine ⟨hs, fun d hd => ?_⟩
    cases hd
    have hnumber : p.number = some call := by
      cases p <;> cases hpreparing <;> rfl
    refine .at rfl ((hwork hposition hnumber).mono fun stage h => ?_) (by simp)
    cases p <;> cases hpreparing <;> simp_all [Position.stands]
  | @asks call profile outcome hposition hok =>
    have hunrecorded := hwork hposition rfl
    refine ⟨hs.append ⟨rfl, rfl⟩ hunrecorded ?_, fun d hd => ?_⟩
    · intro stage hstage
      obtain rfl := of_decide_eq_true hstage
      rfl
    · cases hd
      refine .at rfl (hunrecorded.append ⟨rfl, rfl⟩ fun stage hstage => ?_) (by simp)
      obtain rfl := of_decide_eq_true hstage
      rw [Append.written_of_ok hok]
      exact ⟨.asked, rfl, rfl⟩
  | @asksUnrecorded call profile outcome hposition =>
    have hunrecorded := hwork hposition rfl
    refine ⟨hs.append ⟨rfl, rfl⟩ hunrecorded ?_, fun d hd => ?_⟩
    · intro stage hstage
      obtain rfl := of_decide_eq_true hstage
      rfl
    · cases hd
      refine .at rfl (hunrecorded.append ⟨rfl, rfl⟩ fun stage hstage => ?_) (by simp)
      obtain rfl := of_decide_eq_true hstage
      -- the line may be in the file although its append failed
      cases outcome.written with
      | true => exact ⟨.asked, rfl, rfl⟩
      | false => exact ⟨.unrecorded, rfl, rfl⟩
  | dates hposition =>
    refine ⟨hs, fun d hd => ?_⟩
    cases hd
    exact .at rfl ((hwork hposition rfl).mono fun _ h => h) (by simp)
  | @puts question hposition =>
    refine ⟨?_, hreturned⟩
    obtain ⟨hpositive, hle, ⟨stage, hstage, hstands⟩, hnone⟩ := hwork hposition rfl
    obtain rfl := of_decide_eq_true hstands
    -- the number goes from the call to the question
    have hfound : ∀ (token : String) (q : Agreement), (S.ask s question).pending[token]? = some q →
        token = S.token s.drawn ∧ q = question ∨ s.pending[token]? = some q := by
      intro token q hq
      simp only [Server.ask, getElem?_insert_ite, Std.ExtTreeMap.getElem?_filter'] at hq
      split at hq
      · rename_i heq
        exact .inl ⟨heq.symm, (Option.some.inj hq).symm⟩
      · exact .inr (Option.filter_eq_some_iff.mp hq).1
    have hasked : logOf (S.ask s question).history = logOf s.history := logOf_cons_of_none rfl _
    refine ⟨fun n hn => ?_, fun n => ?_, fun token q hq => ?_, fun token token' q q' hq hq' hsame => ?_,
      each_cons.mpr ⟨fun _ _ _ heq => (by cases heq), hs.runs⟩⟩
    · rw [stageAt, hasked]
      exact hs.unused n hn
    · rw [stageAt, hasked]
      exact hs.whole n
    · rw [stageAt, hasked]
      rcases hfound token q hq with ⟨-, rfl⟩ | hold
      · exact ⟨hpositive, hle, hstage⟩
      · exact hs.waiting token q hold
    · rcases hfound token q hq with ⟨rfl, rfl⟩ | hold
      · rcases hfound token' q' hq' with ⟨rfl, -⟩ | hold'
        · rfl
        · exact absurd hsame.symm (hnone token' q' hold')
      · rcases hfound token' q' hq' with ⟨-, rfl⟩ | hold'
        · exact absurd hsame (hnone token q hold)
        · exact hs.apart token token' q q' hold hold' hsame
  | @numbers outcome hposition =>
    refine ⟨hnumbered, fun d hd => ?_⟩
    cases hd
    cases outcome with
    | error e => exact .at rfl (hs.fresh rfl rfl rfl rfl) (by simp)
    | ok q => exact .at rfl (hs.fresh rfl rfl rfl rfl) (by simp)
  | locks hposition =>
    refine ⟨hs, fun d hd => ?_⟩
    cases hd
    exact .at rfl ((hwork hposition rfl).mono fun _ h => h) (by simp)
  | overreaches error hposition =>
    refine ⟨hs, fun d hd => ?_⟩
    cases hd
    exact .at rfl ((hwork hposition rfl).mono fun _ h => h) (by simp)
  | @reaches call agreed hposition =>
    refine ⟨hchecked _, fun d hd => ?_⟩
    cases hd
    have hopen := hnoted (e := .checked c.request s.connections[c.request.target]?) rfl hposition rfl
    cases agreed with
    | none => exact .at rfl (hopen.mono fun _ h => h) (by simp [reached])
    | some q => exact .at rfl (hopen.mono fun _ h => h) (by simp [reached])
  | @passes call agreed hposition =>
    refine ⟨hs, fun d hd => ?_⟩
    cases hd
    have hopen := hwork hposition rfl
    cases agreed with
    | none => exact .at rfl (hopen.mono fun _ h => h) (by simp [reached])
    | some q => exact .at rfl (hopen.mono fun _ h => h) (by simp [reached])
  | differs error hposition =>
    refine ⟨hs, fun d hd => ?_⟩
    cases hd
    exact .at rfl ((hwork hposition rfl).mono fun _ h => h) (by simp)
  | agrees hposition =>
    refine ⟨hchecked _, fun d hd => ?_⟩
    cases hd
    exact .at rfl ((hnoted (e := .checked _ _) rfl hposition rfl).mono fun _ h => h) (by simp)
  | @starts call agreed outcome hposition hok =>
    have hopen := hwork hposition rfl
    refine ⟨hs.append ⟨rfl, rfl⟩ hopen ?_, fun d hd => ?_⟩
    · intro stage hstage
      rcases stands_open hstage with rfl | rfl <;> rfl
    · cases hd
      have hstored : outcome = .stored := by
        cases outcome <;> first | rfl | cases hok
      subst hstored
      refine ⟨fun n hn => ?_, fun n agreed' hp => ?_, fun hp => (by cases hp)⟩
      · obtain rfl := Option.some.inj hn
        refine hopen.append ⟨rfl, rfl⟩ fun stage hstage => ⟨.started, ?_, rfl⟩
        rcases stands_open hstage with rfl | rfl <;> rfl
      · obtain ⟨rfl, rfl⟩ := Position.running.inj hp
        exact ⟨agreed.isSome, List.mem_cons_self⟩
  | @startsUnrecorded call agreed outcome hposition =>
    refine ⟨hs.append ⟨rfl, rfl⟩ (hwork hposition rfl) ?_, hreturned⟩
    intro stage hstage
    rcases stands_open hstage with rfl | rfl <;> rfl
  | @runs call agreed fails hposition =>
    constructor
    · refine hs.quiet (le_refl _) (logOf_cons_of_none rfl _) (fun _ _ hq => hq) ?_
      refine each_cons.mpr ⟨fun r call' current heq => .inr ?_, hs.runs⟩
      obtain ⟨rfl, rfl, -⟩ := Event.ran.inj heq
      obtain ⟨confirmed, hstarted⟩ := hc.started call agreed hposition
      exact ⟨call, confirmed, rfl, hstarted⟩
    · intro d hd
      cases hd
      exact .at rfl ((hnoted (e := .ran _ _ _) rfl hposition rfl).mono fun _ h => h) (by simp)
  | @finishes call agreed failed outcome hposition =>
    refine ⟨hs.append ⟨rfl, rfl⟩ (hwork hposition rfl) ?_, hreturned⟩
    intro stage hstage
    obtain rfl := of_decide_eq_true hstage
    cases failed <;> rfl
  | @refuses call error locked outcome hposition =>
    refine ⟨hs.append ⟨rfl, rfl⟩ (hwork hposition rfl) ?_, hreturned⟩
    intro stage hstage
    rcases stands_open hstage with rfl | rfl <;> rfl

/-- **The step of another call** leaves a call's number where it is, when the two go under
    different ones. -/
theorem Server.Effect.tracked_other (h : Effect S s c t next) {d : Call} (hd : Tracked S s d)
    (hapart : ApartNumbers c d) :
    Tracked S t d ∧ ∀ c', next = some c' → ApartNumbers c' d := by
  obtain ⟨hstage, hcalls, hpending, hnumber⟩ := h.handed
  obtain ⟨⟨new, hhistory⟩, -⟩ := h.frame
  constructor
  · refine ⟨fun n hn => ?_, fun n agreed hposition => ?_, hd.reads⟩
    · have hother : c.position.number ≠ some n := fun hc => hapart n n hc hn rfl
      refine (hd.number n hn).grow hcalls (hstage n hother) fun token q hq hcall => ?_
      rcases hpending token q hq with hold | hown
      · exact hold
      · rw [hcall] at hown
        exact absurd hown hother
    · obtain ⟨confirmed, hstarted⟩ := hd.started n agreed hposition
      rw [hhistory]
      exact ⟨confirmed, List.mem_append_right _ hstarted⟩
  · intro c' hc' n m hn hm
    obtain ⟨-, hle, -, hnone⟩ := hd.number m hm
    rcases hnumber c' hc' n hn with hown | hnew | ⟨token, q, hq, hcall⟩
    · exact hapart n m hown hm
    · omega
    · rintro rfl
      exact hnone token q hq hcall

end Step

/-! ## Every run -/

/-- The numbers and the records under them, in every interleaving. -/
theorem numbered_invariants (S : Server) :
    S.program.Invariants (Numbered S) (Tracked S) ApartNumbers where
  symm c d h n m hn hm hsame := h m n hm hn hsame.symm
  start s hstart := by
    obtain ⟨-, -, -, hpending, hhistory⟩ := hstart
    refine ⟨fun n _ => ?_, fun n => ?_, ?_, ?_, ?_⟩
    · rw [stageAt, hhistory]
      rfl
    · rw [stageAt, hhistory]
      rfl
    · simp [hpending]
    · simp [hpending]
    · simp [hhistory]
  arrive s c hs harrives := by
    have hidle : c.position.number = none ∧ c.position ≠ .reading := by
      simp only [Server.program] at harrives
      split at harrives <;> rename_i hposition
      · exact ⟨by rw [hposition]; rfl, by simp [hposition]⟩
      · exact ⟨by rw [hposition]; rfl, by simp [hposition]⟩
      · cases harrives
    refine ⟨.idle hidle.1 hidle.2, fun d _ n m hn => ?_⟩
    rw [hidle.1] at hn
    cases hn
  own s c choice next hs hc hadvance := (advance_effect hadvance).tracked hs hc
  other s c choice next d _ _ hadvance hd hapart _ :=
    (advance_effect hadvance).tracked_other hd hapart
  environment s e t hs henvironment := by
    cases e with
    | tick milliseconds =>
      cases henvironment
      exact ⟨hs.quiet (le_refl _) rfl (fun _ _ hq => hq) hs.runs, fun c hc =>
        ⟨hc.number, hc.started, hc.reads⟩⟩
    | line record =>
      simp only [Server.program] at henvironment
      split at henvironment
      · cases henvironment
      · rename_i hsession
        cases henvironment
        -- another writer's line is of none of the server's calls
        have hstage : ∀ n, stageAt S { s with history := .foreign record :: s.history } n =
            stageAt S s n := by
          intro n
          rw [stageAt, logOf_cons_of_some (r := record) rfl]
          exact stageIn_cons_of_not fun hof => hsession hof.1
        refine ⟨⟨fun n hn => ?_, fun n => ?_, fun token q hq => ?_, hs.apart, ?_⟩, fun c hc =>
          ⟨fun n hn => ?_, fun n agreed hposition => ?_, hc.reads⟩⟩
        · rw [hstage]
          exact hs.unused n hn
        · rw [hstage]
          exact hs.whole n
        · rw [hstage]
          exact hs.waiting token q hq
        · exact each_cons.mpr ⟨fun _ _ _ heq => (by cases heq), hs.runs⟩
        · exact (hc.number n hn).grow (le_refl _) (hstage n) fun _ _ hq _ => hq
        · obtain ⟨confirmed, hstarted⟩ := hc.started n agreed hposition
          exact ⟨confirmed, List.mem_cons_of_mem _ hstarted⟩

/-- **The trail of the server**: the records of each call are well formed, a write is run once its
    start is on record, and one whose outcome is on record has one outcome. -/
theorem server_trail {S : Server} {s : Threads Shared Call}
    (hs : S.program.machine.Reachable Machine.Always s) :
    (∀ n, WellFormed (phasesIn (logOf s.shared.history) S.session n).reverse) ∧
      Each (RunsStarted S) s.shared.history ∧
      ∀ r, .appended r .stored ∈ s.shared.history → r.session = S.session →
        r.phase.outcome = true →
        (phasesIn (logOf s.shared.history) S.session r.call).countP Phase.outcome = 1 := by
  have hkept := ((numbered_invariants S).reachable hs).shared
  refine ⟨fun n => (stageOf_isSome_iff _).mp (hkept.whole n), hkept.runs,
    fun r hr hsession houtcome => ?_⟩
  have hline : r ∈ logOf s.shared.history := List.mem_filterMap.mpr ⟨_, hr, rfl⟩
  exact count_outcome (hkept.whole r.call) hline ⟨hsession, rfl⟩ houtcome

end MqStudio.Agent
