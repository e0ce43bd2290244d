import Mathlib.Data.List.Infix
import MqStudio.Agent.Allowance
import MqStudio.Agent.Toolset

/-!
# The Audit Log

`internal/agent/audit`: every write an agent asks for leaves records of the phases it went through,
one line each, under the number of its call. `Append` opens, writes, syncs and closes the file for
each record, so it can fail before the line is in the file and after.

Of a record, what says which call it belongs to and what became of it is kept; the wording of a
question, the timing and the outcome's details are only ever written.

## Main definitions

- `Record`, `Append`: a line of the log, and how appending it came out.
- `Stage`: what a call's records say it has come to. `stageOf` reads them.

## Main results

- `stageOf_isSome_iff`: the records of a call read as a stage exactly when they are a prefix of
  asked? then (refused | started then (done | failed)).
-/

namespace MqStudio.Agent

/-! ## Refusals -/

/-- Why a write was not made, one constructor for each message of the source. -/
inductive Refusal where
  /-- `reaches`. -/
  | outOfReach (error : OutOfReach)
  /-- "%s needs a person to confirm it, and this client cannot ask one" -/
  | cannotAsk (tool : String)
  /-- The error of `Question` or `Consequence`: the connection is not stored, cannot be opened or
      cannot do it, or answered from another namespace. -/
  | notPossible
  /-- "not done: every write is recorded before it is made, and the audit log %s could not be
      written" -/
  | notRecorded
  /-- "not done: the answer is to a question this server did not ask, or one already answered" -/
  | notAsked
  /-- "not done: the question it answers expired unanswered" -/
  | expired
  /-- "not done: the answer is to a question about a different call" -/
  | differentCall
  /-- "not done: the call carried no answer to the question it was asked" -/
  | noAnswer
  /-- "not done: the person asked to confirm it declined, so it should not be tried again unless
      they ask for it", and the assistant's sentence for the same. -/
  | declined
  /-- "not done: the question was dismissed without an answer" -/
  | dismissed
  /-- `ChangedSince`. -/
  | changed (error : Changed)
  /-- The settings could not be read, or say that writes are turned off. -/
  | writesOff
  deriving DecidableEq

/-! ## Records -/

/-- The phases a write goes through in the log. -/
inductive Phase where
  | asked | refused | started | done | failed
  deriving DecidableEq

/-- `Record`: one line of the log. -/
structure Record where
  session : String
  call : Nat
  phase : Phase
  tool : String
  operation : String
  blast : Blast
  connection : Int
  confirmed : Bool
  error : Option Refusal
  deriving DecidableEq

namespace Record

variable (r : Record)

/-- `Asked` -/
def asked : Record := { r with phase := .asked }

/-- `Started` -/
def started (confirmed : Bool) : Record := { r with phase := .started, confirmed := confirmed }

/-- `Refused` -/
def refused (error : Refusal) : Record := { r with phase := .refused, error := some error }

/-- `Finished` -/
def finished (failed : Bool) : Record := { r with phase := if failed then .failed else .done }

/-- The record is one of a call. -/
def Of (session : String) (call : Nat) : Prop := r.session = session ∧ r.call = call

instance (session : String) (call : Nat) : Decidable (r.Of session call) :=
  inferInstanceAs (Decidable (_ ∧ _))

end Record

/-- How an `Append` came out. -/
inductive Append where
  /-- The line is in the file, and the caller is told so. -/
  | stored
  /-- The line is in the file, and syncing or closing it then failed. -/
  | unconfirmed
  /-- No line was written. -/
  | lost
  deriving DecidableEq

/-- `Append` returned nil. -/
def Append.ok : Append → Bool
  | .stored => true
  | _ => false

/-- The line is in the file. -/
def Append.written : Append → Bool
  | .lost => false
  | _ => true

theorem Append.written_of_ok {outcome : Append} (h : outcome.ok = true) :
    outcome.written = true := by
  cases outcome with
  | stored => rfl
  | _ => cases h

/-! ## The stages of a call -/

/-- What the records of a call say it has come to. -/
inductive Stage where
  | unrecorded | asked | refused | started | finished
  deriving DecidableEq

namespace Stage

/-- The stage after one more record. -/
def after : Stage → Phase → Option Stage
  | unrecorded, .asked => some asked
  | unrecorded, .refused => some refused
  | unrecorded, .started => some started
  | asked, .refused => some refused
  | asked, .started => some started
  | started, .done => some finished
  | started, .failed => some finished
  | _, _ => none

/-- Nothing has become of the call yet: it can still be refused or started. -/
def Open (stage : Stage) : Prop := stage = unrecorded ∨ stage = asked

end Stage

/-- The stage the phases of a call come to, the latest first. -/
def stageOf : List Phase → Option Stage
  | [] => some .unrecorded
  | phase :: earlier =>
    match stageOf earlier with
    | none => none
    | some stage => stage.after phase

theorem stageOf_cons (phase : Phase) (earlier : List Phase) :
    stageOf (phase :: earlier) = (stageOf earlier).bind fun stage => stage.after phase := by
  rw [stageOf]
  cases stageOf earlier <;> rfl

/-- The phases of a call in full. -/
def wholeCalls : List (List Phase) :=
  [[.refused], [.started, .done], [.started, .failed],
    [.asked, .refused], [.asked, .started, .done], [.asked, .started, .failed]]

/-- A prefix of asked? then (refused | started then (done | failed)); the earliest first. -/
def WellFormed (phases : List Phase) : Prop := ∃ whole ∈ wholeCalls, phases <+: whole

/-- The phases that come to each stage. -/
def phasesOf : Stage → List (List Phase)
  | .unrecorded => [[]]
  | .asked => [[.asked]]
  | .refused => [[.refused], [.refused, .asked]]
  | .started => [[.started], [.started, .asked]]
  | .finished => [[.done, .started], [.failed, .started],
      [.done, .started, .asked], [.failed, .started, .asked]]

/-- **Reading a stage back**: it says what the records are, up to whether the person was asked. -/
theorem stageOf_eq_some_iff (phases : List Phase) (stage : Stage) :
    stageOf phases = some stage ↔ phases ∈ phasesOf stage := by
  induction phases generalizing stage with
  | nil => cases stage <;> simp [stageOf, phasesOf]
  | cons phase earlier ih =>
    simp only [stageOf]
    constructor
    · intro h
      cases hearlier : stageOf earlier with
      | none =>
        rw [hearlier] at h
        cases h
      | some before =>
        rw [hearlier] at h
        have hmem := (ih before).mp hearlier
        -- the stage before allows few records before, and few phases next
        cases before <;> cases phase <;> simp only [Stage.after, reduceCtorEq, Option.some.injEq] at h <;>
          subst h <;> simp only [phasesOf, List.mem_cons, List.not_mem_nil, or_false] at hmem ⊢ <;>
          grind
    · intro h
      have hbefore : ∃ before, earlier ∈ phasesOf before ∧ before.after phase = some stage := by
        cases stage <;> simp only [phasesOf, List.mem_cons, List.cons.injEq, List.not_mem_nil,
          or_false, reduceCtorEq] at h
        · exact ⟨.unrecorded, by simp [phasesOf, h.2], by simp [h.1, Stage.after]⟩
        · rcases h with h | h
          · exact ⟨.unrecorded, by simp [phasesOf, h.2], by simp [h.1, Stage.after]⟩
          · exact ⟨.asked, by simp [phasesOf, h.2], by simp [h.1, Stage.after]⟩
        · rcases h with h | h
          · exact ⟨.unrecorded, by simp [phasesOf, h.2], by simp [h.1, Stage.after]⟩
          · exact ⟨.asked, by simp [phasesOf, h.2], by simp [h.1, Stage.after]⟩
        · rcases h with h | h | h | h <;>
            exact ⟨.started, by simp [phasesOf, h.2], by simp [h.1, Stage.after]⟩
      obtain ⟨before, hmem, hafter⟩ := hbefore
      rw [(ih before).mpr hmem]
      exact hafter

/-- **The grammar of a call**: records read as a stage exactly when they are well formed. -/
theorem stageOf_isSome_iff (phases : List Phase) :
    (stageOf phases).isSome ↔ WellFormed phases.reverse := by
  rw [Option.isSome_iff_exists]
  constructor
  · rintro ⟨stage, hstage⟩
    have hmem := (stageOf_eq_some_iff phases stage).mp hstage
    have hall : ∀ stage : Stage, ∀ phases ∈ phasesOf stage, WellFormed phases.reverse := by
      intro stage
      cases stage <;> simp [phasesOf, WellFormed, wholeCalls]
    exact hall stage phases hmem
  · rintro ⟨whole, hwhole, hprefix⟩
    have hall : ∀ whole ∈ wholeCalls, ∀ phases ∈ whole.inits, (stageOf phases.reverse).isSome := by
      decide
    have hstage := hall whole hwhole phases.reverse ((List.mem_inits _ _).mpr hprefix)
    rw [List.reverse_reverse] at hstage
    exact Option.isSome_iff_exists.mp hstage

/-! ## A log -/

/-- The phases of a call in a log, the latest first as the log is. -/
def phasesIn (log : List Record) (session : String) (call : Nat) : List Phase :=
  (log.filter fun r => r.Of session call).map Record.phase

/-- What a log says a call has come to. -/
def stageIn (log : List Record) (session : String) (call : Nat) : Option Stage :=
  stageOf (phasesIn log session call)

section Logs

variable {log : List Record} {session : String} {call : Nat} {r : Record}

/-- A record of the call takes it one stage on. -/
theorem stageIn_cons_of (h : r.Of session call) {stage : Stage}
    (hstage : stageIn log session call = some stage) :
    stageIn (r :: log) session call = stage.after r.phase := by
  have hphases : phasesIn (r :: log) session call = r.phase :: phasesIn log session call := by
    rw [phasesIn, List.filter_cons_of_pos (by simpa using h), List.map_cons]
    rfl
  unfold stageIn at hstage
  rw [stageIn, hphases, stageOf_cons, hstage]
  rfl

/-- A record of another call leaves it where it stands. -/
theorem stageIn_cons_of_not (h : ¬ r.Of session call) :
    stageIn (r :: log) session call = stageIn log session call := by
  rw [stageIn, phasesIn, List.filter_cons_of_neg (by simpa using h)]
  rfl

/-- The records of an outcome. -/
def Phase.outcome (phase : Phase) : Bool := phase = .done || phase = .failed

/-- **One outcome**: a call whose records are well formed and that has an outcome has one. -/
theorem count_outcome (h : (stageIn log session call).isSome) (hmem : r ∈ log)
    (hof : r.Of session call) (houtcome : r.phase.outcome = true) :
    (phasesIn log session call).countP Phase.outcome = 1 := by
  obtain ⟨stage, hstage⟩ := Option.isSome_iff_exists.mp h
  have hphases := (stageOf_eq_some_iff _ stage).mp hstage
  have hphase : r.phase ∈ phasesIn log session call :=
    List.mem_map.mpr ⟨r, List.mem_filter.mpr ⟨hmem, by simpa using hof⟩, rfl⟩
  have hall : ∀ stage : Stage, ∀ phases ∈ phasesOf stage,
      phases.countP Phase.outcome = if stage = .finished then 1 else 0 := by
    intro stage
    cases stage <;> decide
  rw [hall stage _ hphases]
  split
  · rfl
  · rename_i hunfinished
    have hnone := hall stage _ hphases
    rw [if_neg hunfinished, List.countP_eq_zero] at hnone
    exact absurd houtcome (hnone _ hphase)

end Logs

end MqStudio.Agent
