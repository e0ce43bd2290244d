import MqStudio.Agent.Effects
import MqStudio.Agent.Permission

/-!
# One Yes, One Destruction

The question and the write are two calls with anything in between. A question waits under a token
that was drawn for it alone; the answer that finds it takes it away, whatever the answer says; and
only an answer that took it, about the same call, in time, with a yes, goes on to the checks and
the run. So a run stands at the end of a chain with one question at its other end.

## Main definitions

- `Accepted`: what a call that goes on with an agreement may rely on.
- `Questions`: what holds of the questions put so far.

## Main results

- `Effect.growth`: what one step of a call means to everybody else's questions.
- `one_yes_one_destruction`: the chain, in every interleaving.
-/

namespace MqStudio.Agent

open MqStudio.Connection
open MqStudio.Lib
open MqStudio.Lib.History
open MqStudio.Lib.TreeMap
open MqStudio.Model
open Server

/-! ## Tokens in the history -/

namespace Event

/-- The token a question was put under. -/
def issued : Event → Option String
  | asked token _ => some token
  | _ => none

/-- The token whose yes a destructive run was made on. -/
def spent : Event → Option String
  | ran request _ _ => if confirmed request.tool then some request.requestState else none
  | _ => none

/-- The token an answer took away, or a run was made on. -/
def uses : Event → Option String
  | answered request _ (some _) => some request.requestState
  | ran request _ _ => if confirmed request.tool then some request.requestState else none
  | _ => none

theorem uses_of_spent {e : Event} {token : String} (h : e.spent = some token) :
    e.uses = some token := by
  cases e with
  | ran request call current => exact h
  | _ => cases h

end Event

/-- The tokens that runs were made on. -/
def spentTokens (history : List Event) : List String := history.filterMap Event.spent

theorem mem_spentTokens {history : List Event} {token : String} :
    token ∈ spentTokens history ↔ ∃ e ∈ history, e.spent = some token :=
  List.mem_filterMap

/-- The answer is about another call than the question. -/
def Mismatch (r : Request) (q : Agreement) : Prop :=
  q.tool ≠ r.tool.name ∨ q.arguments ≠ canonical r.input

/-- The question a run was made on: it was put, taken by this very call in time and with a yes,
    and the profile stored at the check is the one the person was shown. -/
structure RunOn (earlier : List Event) (r : Request) (current : Option ConnectionProfile)
    (q : Agreement) : Prop where
  asked : .asked r.requestState q ∈ earlier
  tool : q.tool = r.tool.name
  arguments : q.arguments = canonical r.input
  yes : r.reply = some "accept"
  inTime : ∃ now, .answered r now (some q) ∈ earlier ∧ now ≤ q.expires
  checked : .checked r current ∈ earlier
  same : ∃ p, current = some p ∧ repointed q.profile p = false

/-- The rule of destructive runs. -/
def RunsOnYes (earlier : List Event) (e : Event) : Prop :=
  ∀ r call current, e = .ran r call current → confirmed r.tool = true →
    ∃ q, RunOn earlier r current q

/-! ## Invariants -/

/-- What a call that goes on with an agreement may rely on. -/
structure Accepted (s : Shared) (r : Request) (q : Agreement) : Prop where
  asked : .asked r.requestState q ∈ s.history
  inTime : ∃ now, .answered r now (some q) ∈ s.history ∧ now ≤ q.expires
  only : ∀ r' now q', .answered r' now (some q') ∈ s.history →
    r'.requestState = r.requestState → r' = r ∧ q' = q
  tool : q.tool = r.tool.name
  arguments : q.arguments = canonical r.input
  yes : r.reply = some "accept"
  taken : s.pending[r.requestState]? = none
  unspent : r.requestState ∉ spentTokens s.history

/-- The agreement a call goes on with. -/
def Position.agreed : Position → Option Agreement
  | .numbering (.ok q) => some q
  | .locking _ agreed | .reaching _ agreed => agreed
  | .comparing _ q => some q
  | .starting _ agreed | .running _ agreed => agreed
  | _ => none

/-- Positions on the way to the run. -/
def Position.proceeds : Position → Bool
  | .locking .. | .reaching .. | .starting .. | .running .. => true
  | _ => false

/-- Positions past the checks. -/
def Position.passed : Position → Bool
  | .starting .. | .running .. => true
  | _ => false

/-- **Invariant of a call**. -/
structure Holding (s : Shared) (c : Call) : Prop where
  accepted : ∀ q, c.position.agreed = some q →
    confirmed c.request.tool = true ∧ Accepted s c.request q
  answered : c.position.proceeds = true → confirmed c.request.tool = true →
    ∃ q, c.position.agreed = some q
  checked : c.position.passed = true → ∀ q, c.position.agreed = some q →
    ∃ p, s.connections[c.request.target]? = some p ∧ repointed q.profile p = false ∧
      .checked c.request (some p) ∈ s.history
  reads : c.position = .reading → confirmed c.request.tool = false

/-- Two calls never go on with one token. -/
def ApartTokens (c d : Call) : Prop :=
  ∀ q q', c.position.agreed = some q → d.position.agreed = some q' →
    c.request.requestState ≠ d.request.requestState

/-- **Invariant of the questions**. -/
structure Questions (S : Server) (s : Shared) : Prop where
  drawn : ∀ token q, .asked token q ∈ s.history → ∃ i < s.drawn, token = S.token i
  issuedOnce : (s.history.filterMap Event.issued).Nodup
  used : ∀ e ∈ s.history, ∀ token, e.uses = some token → ∃ q, .asked token q ∈ s.history
  waiting : ∀ (token : String) (q : Agreement), s.pending[token]? = some q →
    .asked token q ∈ s.history ∧ ∀ e ∈ s.history, e.uses ≠ some token
  mismatched : ∀ r now q, .answered r now (some q) ∈ s.history → Mismatch r q →
    r.requestState ∉ spentTokens s.history
  spentOnce : (spentTokens s.history).Nodup
  runs : Each RunsOnYes s.history

section Frames

variable {S : Server} {s t : Shared} {c : Call}

/-- A call that goes on with nothing relies on nothing. -/
theorem Holding.idle (hagreed : c.position.agreed = none) (hproceeds : c.position.proceeds = false)
    (hreads : c.position = .reading → confirmed c.request.tool = false) : Holding s c where
  accepted q hq := by
    rw [hagreed] at hq
    cases hq
  answered h := by
    rw [hproceeds] at h
    cases h
  checked _ q hq := by
    rw [hagreed] at hq
    cases hq
  reads := hreads

/-- Nor does a call nobody is asked about. -/
theorem Holding.unasked (hagreed : c.position.agreed = none)
    (hconfirmed : confirmed c.request.tool = false) : Holding s c where
  accepted q hq := by
    rw [hagreed] at hq
    cases hq
  answered _ h := by
    rw [hconfirmed] at h
    cases h
  checked _ q hq := by
    rw [hagreed] at hq
    cases hq
  reads _ := hconfirmed

/-- Events that use other tokens leave an accepted answer accepted. -/
theorem Accepted.grow {r : Request} {q : Agreement} (h : Accepted s r q) {n : List Event}
    (hhistory : t.history = n ++ s.history)
    (huses : ∀ e ∈ n, e.uses ≠ some r.requestState)
    (hpending : t.pending[r.requestState]? = none) : Accepted t r q where
  asked := by
    rw [hhistory]
    exact List.mem_append_right _ h.asked
  inTime := by
    obtain ⟨now, hanswered, htime⟩ := h.inTime
    rw [hhistory]
    exact ⟨now, List.mem_append_right _ hanswered, htime⟩
  only r' now q' hanswered htoken := by
    rw [hhistory] at hanswered
    rcases List.mem_append.mp hanswered with hnew | hold
    · exact absurd (congrArg some htoken) (huses _ hnew)
    · exact h.only r' now q' hold htoken
  tool := h.tool
  arguments := h.arguments
  yes := h.yes
  taken := hpending
  unspent := by
    intro hspent
    obtain ⟨e, he, htoken⟩ := mem_spentTokens.mp hspent
    rw [hhistory] at he
    rcases List.mem_append.mp he with hnew | hold
    · exact huses e hnew (Event.uses_of_spent htoken)
    · exact h.unspent (mem_spentTokens.mpr ⟨e, hold, htoken⟩)

/-- So does an event that uses no token. -/
theorem Accepted.note {r : Request} {q : Agreement} (h : Accepted s r q) {e : Event}
    (huses : e.uses = none) (hhistory : t.history = e :: s.history)
    (hpending : t.pending = s.pending) : Accepted t r q := by
  apply h.grow (n := [e]) hhistory
  · intro e' he' htoken
    obtain rfl := List.mem_singleton.mp he'
    rw [huses] at htoken
    cases htoken
  · rw [hpending]
    exact h.taken

/-- Nothing was done to the questions. -/
theorem Questions.quiet (h : Questions S s) (hhistory : t.history = s.history)
    (hpending : t.pending = s.pending) (hdrawn : t.drawn = s.drawn) : Questions S t where
  drawn := by rw [hhistory, hdrawn]; exact h.drawn
  issuedOnce := by rw [hhistory]; exact h.issuedOnce
  used := by rw [hhistory]; exact h.used
  waiting := by rw [hhistory, hpending]; exact h.waiting
  mismatched := by rw [hhistory]; exact h.mismatched
  spentOnce := by rw [hhistory]; exact h.spentOnce
  runs := by rw [hhistory]; exact h.runs

/-- An event that neither puts a question nor uses one. -/
theorem Questions.note (h : Questions S s) {e : Event} (hissued : e.issued = none)
    (huses : e.uses = none) (hhistory : t.history = e :: s.history)
    (hpending : t.pending = s.pending) (hdrawn : t.drawn = s.drawn) : Questions S t := by
  have hspent : e.spent = none := by
    cases hspent : e.spent with
    | none => rfl
    | some token =>
      rw [Event.uses_of_spent hspent] at huses
      cases huses
  have hspents : spentTokens t.history = spentTokens s.history := by
    rw [hhistory, spentTokens, List.filterMap_cons, hspent]
    rfl
  refine ⟨?_, ?_, ?_, ?_, ?_, ?_, ?_⟩
  · intro token q hasked
    rw [hhistory] at hasked
    rcases List.mem_cons.mp hasked with rfl | hold
    · cases hissued
    · rw [hdrawn]
      exact h.drawn token q hold
  · rw [hhistory, List.filterMap_cons, hissued]
    exact h.issuedOnce
  · intro e' he' token htoken
    rw [hhistory] at he' ⊢
    rcases List.mem_cons.mp he' with rfl | hold
    · rw [huses] at htoken
      cases htoken
    · obtain ⟨q, hasked⟩ := h.used e' hold token htoken
      exact ⟨q, List.mem_cons_of_mem _ hasked⟩
  · intro token q hq
    rw [hpending] at hq
    obtain ⟨hasked, hunused⟩ := h.waiting token q hq
    rw [hhistory]
    refine ⟨List.mem_cons_of_mem _ hasked, fun e' he' => ?_⟩
    rcases List.mem_cons.mp he' with rfl | hold
    · rw [huses]
      exact fun hnone => by cases hnone
    · exact hunused e' hold
  · intro r now q hanswered hmismatch
    rw [hspents]
    rw [hhistory] at hanswered
    rcases List.mem_cons.mp hanswered with rfl | hold
    · cases huses
    · exact h.mismatched r now q hold hmismatch
  · rw [hspents]
    exact h.spentOnce
  · rw [hhistory, each_cons]
    refine ⟨fun r call current heq hconfirmed => ?_, h.runs⟩
    subst heq
    simp [Event.uses, hconfirmed] at huses

/-- A question is put under a token nobody has seen. -/
theorem Questions.ask (h : Questions S s) (question : Agreement) :
    Questions S (S.ask s question) := by
  have hfresh : ∀ q, Event.asked (S.token s.drawn) q ∉ s.history := by
    intro q hasked
    obtain ⟨i, hi, htoken⟩ := h.drawn _ q hasked
    exact absurd (S.fresh htoken) (by omega)
  have hunused : ∀ e ∈ s.history, e.uses ≠ some (S.token s.drawn) := by
    intro e he htoken
    obtain ⟨q, hasked⟩ := h.used e he _ htoken
    exact hfresh q hasked
  refine ⟨?_, ?_, ?_, ?_, ?_, ?_, ?_⟩
  · intro token q hasked
    rcases List.mem_cons.mp hasked with heq | hold
    · obtain ⟨rfl, rfl⟩ := Event.asked.inj heq
      exact ⟨s.drawn, Nat.lt_succ_self _, rfl⟩
    · obtain ⟨i, hi, htoken⟩ := h.drawn token q hold
      exact ⟨i, Nat.lt_succ_of_lt hi, htoken⟩
  · show (S.token s.drawn :: s.history.filterMap Event.issued).Nodup
    refine List.nodup_cons.mpr ⟨fun hmem => ?_, h.issuedOnce⟩
    obtain ⟨e, he, htoken⟩ := List.mem_filterMap.mp hmem
    cases e with
    | asked token q =>
      obtain rfl := Option.some.inj htoken
      exact hfresh q he
    | _ => cases htoken
  · intro e he token htoken
    rcases List.mem_cons.mp he with rfl | hold
    · cases htoken
    · obtain ⟨q, hasked⟩ := h.used e hold token htoken
      exact ⟨q, List.mem_cons_of_mem _ hasked⟩
  · intro token q hq
    have hwaiting : token = S.token s.drawn ∧ q = question ∨ s.pending[token]? = some q := by
      simp only [Server.ask, getElem?_insert_ite, Std.ExtTreeMap.getElem?_filter'] at hq
      split at hq
      · rename_i heq
        exact .inl ⟨heq.symm, (Option.some.inj hq).symm⟩
      · exact .inr (Option.filter_eq_some_iff.mp hq).1
    rcases hwaiting with ⟨rfl, rfl⟩ | hold
    · refine ⟨List.mem_cons_self, fun e he => ?_⟩
      rcases List.mem_cons.mp he with rfl | hearlier
      · exact fun hnone => by cases hnone
      · exact hunused e hearlier
    · obtain ⟨hasked, hunused⟩ := h.waiting token q hold
      refine ⟨List.mem_cons_of_mem _ hasked, fun e he => ?_⟩
      rcases List.mem_cons.mp he with rfl | hearlier
      · exact fun hnone => by cases hnone
      · exact hunused e hearlier
  · intro r now q hanswered hmismatch
    rcases List.mem_cons.mp hanswered with heq | hold
    · cases heq
    · exact h.mismatched r now q hold hmismatch
  · exact h.spentOnce
  · refine each_cons.mpr ⟨fun r call current heq => ?_, h.runs⟩
    cases heq

/-- The history after an answer, and the questions that still wait. -/
theorem take_eq (s : Shared) (r : Request) :
    (Server.take s r).1 =
      { s with
        pending := s.pending.erase r.requestState
        history := .answered r s.now s.pending[r.requestState]? :: s.history } := by
  unfold Server.take
  dsimp only
  split
  · rename_i hfound
    rw [hfound]
  · rename_i q hfound
    rw [hfound]
    split
    · rfl
    · split <;> rfl

/-- **An answer judged right** took the question that waited, in time, for the same call, with a
    yes. -/
theorem judged_ok {r : Request} {q : Agreement} (h : judged r (Server.take s r).2 = .ok q) :
    s.pending[r.requestState]? = some q ∧ s.now ≤ q.expires ∧ q.tool = r.tool.name ∧
      q.arguments = canonical r.input ∧ r.reply = some "accept" := by
  cases hfound : s.pending[r.requestState]? with
  | none => simp [Server.take, hfound, judged] at h
  | some asked =>
    simp only [Server.take, hfound] at h
    split at h
    · simp [judged] at h
    · rename_i hinTime
      split at h
      · simp [judged] at h
      · rename_i hmatching
        simp only [judged] at h
        split at h
        · cases h
        · rename_i hyes
          obtain rfl := Except.ok.inj h
          obtain ⟨htool, harguments⟩ := not_or.mp hmatching
          refine ⟨rfl, by omega, not_not.mp htool, not_not.mp harguments, ?_⟩
          unfold verdict at hyes
          split at hyes
          · cases hyes
          · rename_i action haction
            split at hyes
            · rename_i haccept
              rw [haction, haccept]
            · split at hyes <;> cases hyes

/-- **An answer takes its question away**, whatever it says. -/
theorem Questions.take (h : Questions S s) (r : Request) : Questions S (Server.take s r).1 := by
  have hhistory : (Server.take s r).1.history =
      .answered r s.now s.pending[r.requestState]? :: s.history := by
    rw [take_eq]
  have hpending : (Server.take s r).1.pending = s.pending.erase r.requestState := by
    rw [take_eq]
  have hdrawn : (Server.take s r).1.drawn = s.drawn := by
    rw [take_eq]
  have hspents : spentTokens (Server.take s r).1.history = spentTokens s.history := by
    rw [hhistory]
    rfl
  refine ⟨?_, ?_, ?_, ?_, ?_, ?_, ?_⟩
  · intro token q hasked
    rw [hhistory] at hasked
    rw [hdrawn]
    rcases List.mem_cons.mp hasked with heq | hold
    · cases heq
    · exact h.drawn token q hold
  · rw [hhistory]
    exact h.issuedOnce
  · intro e he token htoken
    rw [hhistory] at he ⊢
    rcases List.mem_cons.mp he with rfl | hold
    · -- the question taken was put before
      cases hfound : s.pending[r.requestState]? with
      | none =>
        rw [hfound] at htoken
        cases htoken
      | some q =>
        rw [hfound] at htoken
        obtain rfl := Option.some.inj htoken
        exact ⟨q, List.mem_cons_of_mem _ (h.waiting _ q hfound).1⟩
    · obtain ⟨q, hasked⟩ := h.used e hold token htoken
      exact ⟨q, List.mem_cons_of_mem _ hasked⟩
  · intro token q hq
    rw [hpending] at hq
    have hne : r.requestState ≠ token := by
      intro heq
      rw [heq] at hq
      simp at hq
    rw [getElem?_erase_of_ne _ hne] at hq
    obtain ⟨hasked, hunused⟩ := h.waiting token q hq
    rw [hhistory]
    refine ⟨List.mem_cons_of_mem _ hasked, fun e he => ?_⟩
    rcases List.mem_cons.mp he with rfl | hold
    · intro htoken
      cases hfound : s.pending[r.requestState]? with
      | none =>
        rw [hfound] at htoken
        cases htoken
      | some q' =>
        rw [hfound] at htoken
        exact hne (Option.some.inj htoken)
    · exact hunused e hold
  · intro r' now q hanswered hmismatch
    rw [hspents]
    rw [hhistory] at hanswered
    rcases List.mem_cons.mp hanswered with heq | hold
    · -- nothing was ever done with a question that still waited
      obtain ⟨rfl, -, hfound⟩ := Event.answered.inj heq
      intro hspent
      obtain ⟨e, he, htoken⟩ := mem_spentTokens.mp hspent
      exact (h.waiting _ q hfound.symm).2 e he (Event.uses_of_spent htoken)
    · exact h.mismatched r' now q hold hmismatch
  · rw [hspents]
    exact h.spentOnce
  · rw [hhistory]
    refine each_cons.mpr ⟨fun r' call current heq => ?_, h.runs⟩
    cases heq

/-- What an answer judged right may rely on from then on. -/
theorem Questions.accepted (h : Questions S s) {r : Request} {q : Agreement}
    (hjudged : judged r (Server.take s r).2 = .ok q) :
    s.pending[r.requestState]? = some q ∧ Accepted (Server.take s r).1 r q := by
  obtain ⟨hfound, hinTime, htool, harguments, hyes⟩ := judged_ok hjudged
  obtain ⟨hasked, hunused⟩ := h.waiting _ _ hfound
  rw [take_eq, hfound]
  refine ⟨rfl, List.mem_cons_of_mem _ hasked, ⟨s.now, List.mem_cons_self, hinTime⟩, ?_, htool,
    harguments, hyes, by simp, ?_⟩
  · intro r' now q' hanswered htoken
    rcases List.mem_cons.mp hanswered with heq | hold
    · obtain ⟨rfl, -, hsame⟩ := Event.answered.inj heq
      exact ⟨rfl, Option.some.inj hsame⟩
    · exact absurd (congrArg some htoken) (hunused _ hold)
  · intro hspent
    obtain ⟨e, he, htoken⟩ := mem_spentTokens.mp hspent
    rcases List.mem_cons.mp he with rfl | hold
    · cases htoken
    · exact hunused e hold (Event.uses_of_spent htoken)

/-- **A run spends its question**. -/
theorem Questions.run (h : Questions S s) {r : Request} {call : Option Nat} {q : Agreement}
    (haccepted : Accepted s r q)
    (hchecked : ∃ p, s.connections[r.target]? = some p ∧ repointed q.profile p = false ∧
      .checked r (some p) ∈ s.history)
    (hhistory : t.history = .ran r call s.connections[r.target]? :: s.history)
    (hpending : t.pending = s.pending) (hdrawn : t.drawn = s.drawn) : Questions S t := by
  obtain ⟨p, hcurrent, hsame, hchecked⟩ := hchecked
  cases hconfirmed : confirmed r.tool with
  | false =>
    apply h.note rfl _ hhistory hpending hdrawn
    simp [Event.uses, hconfirmed]
  | true =>
    have hspent : Event.spent (.ran r call s.connections[r.target]?) = some r.requestState := by
      simp [Event.spent, hconfirmed]
    have hspents : spentTokens t.history = r.requestState :: spentTokens s.history := by
      rw [hhistory, spentTokens, List.filterMap_cons, hspent]
      rfl
    refine ⟨?_, ?_, ?_, ?_, ?_, ?_, ?_⟩
    · intro token q' hasked
      rw [hhistory] at hasked
      rw [hdrawn]
      rcases List.mem_cons.mp hasked with heq | hold
      · cases heq
      · exact h.drawn token q' hold
    · rw [hhistory]
      exact h.issuedOnce
    · intro e he token htoken
      rw [hhistory] at he ⊢
      rcases List.mem_cons.mp he with rfl | hold
      · rw [Event.uses_of_spent hspent] at htoken
        obtain rfl := Option.some.inj htoken
        exact ⟨q, List.mem_cons_of_mem _ haccepted.asked⟩
      · obtain ⟨q', hasked⟩ := h.used e hold token htoken
        exact ⟨q', List.mem_cons_of_mem _ hasked⟩
    · intro token q' hq'
      rw [hpending] at hq'
      obtain ⟨hasked, hunused⟩ := h.waiting token q' hq'
      rw [hhistory]
      refine ⟨List.mem_cons_of_mem _ hasked, fun e he => ?_⟩
      rcases List.mem_cons.mp he with rfl | hold
      · rw [Event.uses_of_spent hspent]
        intro htoken
        obtain rfl := Option.some.inj htoken
        rw [haccepted.taken] at hq'
        cases hq'
      · exact hunused e hold
    · intro r' now q' hanswered hmismatch
      rw [hspents]
      rw [hhistory] at hanswered
      rcases List.mem_cons.mp hanswered with heq | hold
      · cases heq
      · intro hmem
        rcases List.mem_cons.mp hmem with htoken | hearlier
        · -- the only answer under this token is the one that was accepted
          obtain ⟨rfl, rfl⟩ := haccepted.only r' now q' hold htoken
          rcases hmismatch with htool | harguments
          · exact htool haccepted.tool
          · exact harguments haccepted.arguments
        · exact h.mismatched r' now q' hold hmismatch hearlier
    · rw [hspents]
      exact List.nodup_cons.mpr ⟨haccepted.unspent, h.spentOnce⟩
    · rw [hhistory]
      refine each_cons.mpr ⟨fun r' call' current heq _ => ?_, h.runs⟩
      obtain ⟨rfl, -, rfl⟩ := Event.ran.inj heq
      rw [hcurrent]
      exact ⟨q, haccepted.asked, haccepted.tool, haccepted.arguments, haccepted.yes,
        haccepted.inTime, hchecked, p, rfl, hsame⟩

end Frames

/-! ## One step -/

section Step

variable {S : Server} {s t : Shared} {c : Call} {next : Option Call}

/-- The tokens a call may use: its own, while the question waits or once the call goes on with
    it. -/
def MayUse (s : Shared) (c : Call) (token : String) : Prop :=
  token = c.request.requestState ∧
    ((∃ q, s.pending[token]? = some q) ∨
      (c.position.proceeds = true ∨ c.position = .reading) ∧ confirmed c.request.tool = true)

/-- **What one step means to everybody else's questions**: it uses no token but the call's own,
    which still waits or which the call goes on with, and it brings none back that was taken. -/
theorem Server.Effect.growth (h : Effect S s c t next) :
    (∃ new, t.history = new ++ s.history ∧
      ∀ e ∈ new, ∀ token, e.uses = some token → MayUse s c token) ∧
    (∀ token : String, s.pending[token]? = none → token ≠ S.token s.drawn →
      t.pending[token]? = none) ∧
    (t.connections = s.connections ∨ c.position = .arrived) := by
  have hnothing : ∀ token : String, s.pending[token]? = none → token ≠ S.token s.drawn →
      s.pending[token]? = none := fun _ hnone _ => hnone
  -- a step that writes down one event that uses no token
  have hnote : ∀ e : Event, e.uses = none → ∃ new, e :: s.history = new ++ s.history ∧
      ∀ e ∈ new, ∀ token, e.uses = some token → MayUse s c token := by
    intro e huses
    refine ⟨[e], rfl, fun e' he' token htoken => ?_⟩
    obtain rfl := List.mem_singleton.mp he'
    rw [huses] at htoken
    cases htoken
  have hquiet : ∃ new, s.history = new ++ s.history ∧
      ∀ e ∈ new, ∀ token, e.uses = some token → MayUse s c token :=
    ⟨[], rfl, fun e he => absurd he List.not_mem_nil⟩
  -- an answer uses the token it found a question under
  have htake : (∃ new, (Server.take s c.request).1.history = new ++ s.history ∧
      ∀ e ∈ new, ∀ token, e.uses = some token → MayUse s c token) ∧
      (∀ token : String, s.pending[token]? = none → token ≠ S.token s.drawn →
        (Server.take s c.request).1.pending[token]? = none) := by
    rw [take_eq]
    refine ⟨⟨[_], rfl, fun e he token htoken => ?_⟩, fun token hnone _ => ?_⟩
    · obtain rfl := List.mem_singleton.mp he
      cases hfound : s.pending[c.request.requestState]? with
      | none =>
        rw [hfound] at htoken
        cases htoken
      | some q =>
        rw [hfound] at htoken
        obtain rfl := Option.some.inj htoken
        exact ⟨rfl, .inl ⟨q, hfound⟩⟩
    · show (s.pending.erase c.request.requestState)[token]? = none
      rw [Std.ExtTreeMap.getElem?_erase]
      split
      · rfl
      · exact hnone
  cases h with
  | refreshes connections hposition => exact ⟨hquiet, hnothing, .inr hposition⟩
  | takesUnnumbered => exact ⟨htake.1, htake.2, .inl (by rw [take_eq])⟩
  | takes => exact ⟨htake.1, htake.2, .inl (by rw [take_eq])⟩
  | puts =>
    refine ⟨hnote _ rfl, fun token hnone hne => ?_, .inl rfl⟩
    simp only [Server.ask]
    rw [getElem?_insert_of_ne _ _ (Ne.symm hne), Std.ExtTreeMap.getElem?_filter', hnone]
    rfl
  | runsReading hposition =>
    refine ⟨⟨[_], rfl, fun e he token htoken => ?_⟩, hnothing, .inl rfl⟩
    obtain rfl := List.mem_singleton.mp he
    simp only [Event.uses] at htoken
    split at htoken
    · rename_i hconfirmed
      exact ⟨(Option.some.inj htoken).symm, .inr ⟨.inr hposition, hconfirmed⟩⟩
    · cases htoken
  | runs fails hposition =>
    refine ⟨⟨[_], rfl, fun e he token htoken => ?_⟩, hnothing, .inl rfl⟩
    obtain rfl := List.mem_singleton.mp he
    simp only [Event.uses] at htoken
    split at htoken
    · rename_i hconfirmed
      refine ⟨(Option.some.inj htoken).symm, .inr ⟨.inl ?_, hconfirmed⟩⟩
      rw [hposition]
      rfl
    · cases htoken
  | asks => exact ⟨hnote _ rfl, hnothing, .inl rfl⟩
  | asksUnrecorded => exact ⟨hnote _ rfl, hnothing, .inl rfl⟩
  | reaches => exact ⟨hnote _ rfl, hnothing, .inl rfl⟩
  | agrees => exact ⟨hnote _ rfl, hnothing, .inl rfl⟩
  | starts => exact ⟨hnote _ rfl, hnothing, .inl rfl⟩
  | startsUnrecorded => exact ⟨hnote _ rfl, hnothing, .inl rfl⟩
  | finishes => exact ⟨hnote _ rfl, hnothing, .inl rfl⟩
  | refuses => exact ⟨hnote _ rfl, hnothing, .inl rfl⟩
  | _ => exact ⟨hquiet, hnothing, .inl rfl⟩

/-- The agreement of a call that answers and has its number. -/
theorem agreed_answered {call : Nat} {outcome : Except Refusal Agreement} {q : Agreement}
    (h : (answered c call outcome).position.agreed = some q) : outcome = .ok q := by
  cases outcome with
  | error e => cases h
  | ok asked => rw [Option.some.inj h]

/-- A call goes on with the agreement it had, or with one it just took. -/
theorem Server.Effect.agreed (h : Effect S s c t next) {d : Call} (hnext : next = some d) :
    d.request = c.request ∧ ∀ q, d.position.agreed = some q →
      c.position.agreed = some q ∨ s.pending[c.request.requestState]? = some q := by
  cases h with
  | takesUnnumbered =>
    cases hnext
    refine ⟨rfl, fun q hq => .inr ?_⟩
    -- without a yes nothing is gone on with
    cases houtcome : judged c.request (Server.take s c.request).2 with
    | error e =>
      rw [houtcome] at hq
      cases hq
    | ok asked =>
      rw [houtcome] at hq
      obtain rfl := Option.some.inj hq
      exact (judged_ok houtcome).1
  | takes =>
    cases hnext
    refine ⟨?_, fun q hq => .inr (judged_ok (agreed_answered hq)).1⟩
    cases judged c.request (Server.take s c.request).2 <;> rfl
  | @numbers outcome hposition =>
    cases hnext
    refine ⟨by cases outcome <;> rfl, fun q hq => .inl ?_⟩
    rw [hposition, agreed_answered hq]
    rfl
  | locks hposition =>
    cases hnext
    exact ⟨rfl, fun q hq => .inl (by rw [hposition]; exact hq)⟩
  | @reaches call agreed hposition =>
    cases hnext
    refine ⟨rfl, fun q hq => .inl ?_⟩
    rw [hposition]
    cases agreed <;> exact hq
  | @passes call agreed hposition =>
    cases hnext
    refine ⟨rfl, fun q hq => .inl ?_⟩
    rw [hposition]
    cases agreed <;> exact hq
  | agrees hposition =>
    cases hnext
    exact ⟨rfl, fun q hq => .inl (by rw [hposition]; exact hq)⟩
  | starts outcome hposition =>
    cases hnext
    exact ⟨rfl, fun q hq => .inl (by rw [hposition]; exact hq)⟩
  | prepares hposition hprepares =>
    cases hnext
    refine ⟨rfl, fun q hq => ?_⟩
    cases hprepares <;> cases hq
  | fails => cases hnext
  | runsReading => cases hnext
  | puts => cases hnext
  | startsUnrecorded => cases hnext
  | finishes => cases hnext
  | refuses => cases hnext
  | writesGated =>
    cases hnext
    exact ⟨rfl, fun q hq => by cases hq⟩
  | writes =>
    cases hnext
    exact ⟨rfl, fun q hq => by cases hq⟩
  | _ =>
    cases hnext
    exact ⟨rfl, fun q hq => by cases hq⟩

/-- A call between the checks and the run, or before them, whose answer is still accepted. -/
theorem Holding.onward (hc : Holding s c) {p : Position}
    (hagreed : p.agreed = c.position.agreed)
    (hproceeds : p.proceeds = true → c.position.proceeds = true)
    (haccepted : ∀ q, c.position.agreed = some q → Accepted t c.request q)
    (hchecked : p.passed = true → ∀ q, c.position.agreed = some q →
      ∃ current, t.connections[c.request.target]? = some current ∧
        repointed q.profile current = false ∧ .checked c.request (some current) ∈ t.history)
    (hreads : p ≠ .reading) : Holding t (c.to p) where
  accepted q hq := by
    have hq' : c.position.agreed = some q := hagreed.symm.trans hq
    exact ⟨(hc.accepted q hq').1, haccepted q hq'⟩
  answered hproceeding hconfirmed := by
    obtain ⟨q, hq⟩ := hc.answered (hproceeds hproceeding) hconfirmed
    exact ⟨q, hagreed.trans hq⟩
  checked hpassed q hq := hchecked hpassed q (hagreed.symm.trans hq)
  reads h := absurd h hreads

/-- Past the allowance a call stands where it stood, as far as its answer is concerned. -/
theorem Holding.past (hc : Holding s c) {call : Nat} {agreed : Option Agreement}
    (hposition : c.position = .reaching call agreed)
    (haccepted : ∀ q, c.position.agreed = some q → Accepted t c.request q) :
    Holding t (c.to (reached call agreed)) := by
  cases agreed with
  | some q =>
    apply hc.onward (p := .comparing call q) (by rw [hposition]; rfl) _ haccepted
    · intro hpassed
      cases hpassed
    · simp
    · intro hproceeds
      cases hproceeds
  | none =>
    apply hc.onward (p := .starting call none) (by rw [hposition]; rfl) _ haccepted
    · intro _ q hq
      rw [hposition] at hq
      cases hq
    · simp
    · intro _
      rw [hposition]
      rfl

/-- **The step of a call** keeps the invariant of the questions and its own. -/
theorem Server.Effect.holding (h : Effect S s c t next) (hs : Questions S s) (hc : Holding s c) :
    Questions S t ∧ ∀ d, next = some d → Holding t d := by
  have hreturned : ∀ d : Call, none = some d → Holding t d := fun d hd => by cases hd
  -- an answer that was taken
  have haccepted : ∀ q, judged c.request (Server.take s c.request).2 = .ok q →
      Accepted (Server.take s c.request).1 c.request q := fun q hq => (hs.accepted hq).2
  cases h with
  | fails => exact ⟨hs, hreturned⟩
  | refreshes =>
    refine ⟨hs.quiet rfl rfl rfl, fun d hd => ?_⟩
    cases hd
    exact .idle rfl rfl (by simp [Call.to])
  | reads _ hread =>
    refine ⟨hs, fun d hd => ?_⟩
    cases hd
    exact .idle rfl rfl fun _ => by simp [confirmed, Call.to, hread]
  | runsReading hposition =>
    refine ⟨hs.note rfl ?_ rfl rfl rfl, hreturned⟩
    simp [Event.uses, hc.reads hposition]
  | questions =>
    refine ⟨hs.quiet rfl rfl rfl, fun d hd => ?_⟩
    cases hd
    exact .idle rfl rfl (by simp [Call.to])
  | takesUnnumbered _ hconfirmed =>
    refine ⟨hs.take c.request, fun d hd => ?_⟩
    cases hd
    refine ⟨fun q hq => ⟨hconfirmed, haccepted q ?_⟩, fun hfalse => (by cases hfalse),
      fun hfalse => (by cases hfalse), by simp [Call.to]⟩
    cases houtcome : judged c.request (Server.take s c.request).2 with
    | error e =>
      rw [houtcome] at hq
      cases hq
    | ok asked =>
      rw [houtcome] at hq
      rw [Option.some.inj hq]
  | takes asked _ hconfirmed =>
    refine ⟨hs.take c.request, fun d hd => ?_⟩
    cases hd
    cases houtcome : judged c.request (Server.take s c.request).2 with
    | error e => exact .idle rfl rfl (by simp [answered, Call.to])
    | ok q =>
      refine ⟨fun q' hq' => ⟨hconfirmed, ?_⟩, fun _ _ => ⟨q, rfl⟩, fun hfalse => (by cases hfalse),
        by simp [answered, Call.to]⟩
      obtain rfl := Option.some.inj hq'
      exact haccepted _ houtcome
  | writes _ hconfirmed =>
    refine ⟨hs.quiet rfl rfl rfl, fun d hd => ?_⟩
    cases hd
    exact .unasked rfl hconfirmed
  | writesGated _ hconfirmed =>
    refine ⟨hs.quiet rfl rfl rfl, fun d hd => ?_⟩
    cases hd
    exact .unasked rfl hconfirmed
  | prepares _ hprepares =>
    refine ⟨hs, fun d hd => ?_⟩
    cases hd
    cases hprepares <;> exact .idle rfl rfl (by simp [Call.to])
  | refusesQuestion =>
    refine ⟨hs, fun d hd => ?_⟩
    cases hd
    exact .idle rfl rfl (by simp [Call.to])
  | asks =>
    refine ⟨hs.note rfl rfl rfl rfl rfl, fun d hd => ?_⟩
    cases hd
    exact .idle rfl rfl (by simp [Call.to])
  | asksUnrecorded =>
    refine ⟨hs.note rfl rfl rfl rfl rfl, fun d hd => ?_⟩
    cases hd
    exact .idle rfl rfl (by simp [Call.to])
  | dates =>
    refine ⟨hs, fun d hd => ?_⟩
    cases hd
    exact .idle rfl rfl (by simp [Call.to])
  | puts => exact ⟨hs.ask _, hreturned⟩
  | @numbers outcome hposition =>
    refine ⟨hs.quiet rfl rfl rfl, fun d hd => ?_⟩
    cases hd
    cases outcome with
    | error e => exact .idle rfl rfl (by simp [answered, Call.to])
    | ok q =>
      have hq : c.position.agreed = some q := by
        rw [hposition]
        rfl
      obtain ⟨hconfirmed, hacc⟩ := hc.accepted q hq
      refine ⟨fun q' hq' => ⟨hconfirmed, ?_⟩, fun _ _ => ⟨q, rfl⟩, fun hfalse => (by cases hfalse),
        by simp [answered, Call.to]⟩
      obtain rfl := Option.some.inj hq'
      exact hacc.grow (n := []) rfl (fun e he => absurd he List.not_mem_nil) hacc.taken
  | locks hposition =>
    refine ⟨hs, fun d hd => ?_⟩
    cases hd
    apply hc.onward (by rw [hposition]; rfl) _ (fun q hq => (hc.accepted q hq).2)
    · intro hfalse
      cases hfalse
    · simp
    · intro _
      rw [hposition]
      rfl
  | overreaches =>
    refine ⟨hs, fun d hd => ?_⟩
    cases hd
    exact .idle rfl rfl (by simp [Call.to])
  | reaches hposition =>
    refine ⟨hs.note rfl rfl rfl rfl rfl, fun d hd => ?_⟩
    cases hd
    exact hc.past hposition fun q hq => (hc.accepted q hq).2.note rfl rfl rfl
  | passes hposition =>
    refine ⟨hs, fun d hd => ?_⟩
    cases hd
    exact hc.past hposition fun q hq => (hc.accepted q hq).2
  | differs =>
    refine ⟨hs, fun d hd => ?_⟩
    cases hd
    exact .idle rfl rfl (by simp [Call.to])
  | @agrees call agreed current hposition hcurrent hsame =>
    refine ⟨hs.note rfl rfl rfl rfl rfl, fun d hd => ?_⟩
    cases hd
    have hagreed : c.position.agreed = some agreed := by
      rw [hposition]
      rfl
    refine ⟨fun q hq => ?_, fun _ _ => ⟨agreed, rfl⟩, fun _ q hq => ?_, by simp [Call.to]⟩
    · obtain rfl := Option.some.inj hq
      exact ⟨(hc.accepted _ hagreed).1, (hc.accepted _ hagreed).2.note rfl rfl rfl⟩
    · obtain rfl := Option.some.inj hq
      refine ⟨current, hcurrent, hsame, ?_⟩
      rw [hcurrent]
      exact List.mem_cons_self
  | @starts call agreed outcome hposition =>
    refine ⟨hs.note rfl rfl rfl rfl rfl, fun d hd => ?_⟩
    cases hd
    have hkept : ∀ q, c.position.agreed = some q →
        Accepted (append s ((S.entry c.request call).started agreed.isSome) outcome) c.request q :=
      fun q hq => (hc.accepted q hq).2.note rfl rfl rfl
    apply hc.onward (by rw [hposition]; rfl) _ hkept
    · intro _ q hq
      obtain ⟨p, hcurrent, hsame, hchecked⟩ := hc.checked (by rw [hposition]; rfl) q hq
      exact ⟨p, hcurrent, hsame, List.mem_cons_of_mem _ hchecked⟩
    · simp
    · intro _
      rw [hposition]
      rfl
  | startsUnrecorded => exact ⟨hs.note rfl rfl rfl rfl rfl, hreturned⟩
  | runs fails hposition =>
    constructor
    · cases hconfirmed : confirmed c.request.tool with
      | true =>
        obtain ⟨q, hq⟩ := hc.answered (by rw [hposition]; rfl) hconfirmed
        exact hs.run (hc.accepted q hq).2 (hc.checked (by rw [hposition]; rfl) q hq) rfl rfl rfl
      | false =>
        exact hs.note rfl (by simp [Event.uses, hconfirmed]) rfl rfl rfl
    · intro d hd
      cases hd
      exact .idle rfl rfl (by simp [Call.to])
  | finishes => exact ⟨hs.note rfl rfl rfl rfl rfl, hreturned⟩
  | refuses => exact ⟨hs.note rfl rfl rfl rfl rfl, hreturned⟩

/-- **The step of another call** keeps what a call relies on, when the two do not go on with one
    token and the step does not change what this call's lock protects. -/
theorem Server.Effect.holding_other (h : Effect S s c t next) (hs : Questions S s) (hc : Holding s c)
    {d : Call} (hd : Holding s d) (hapart : ApartTokens c d)
    (hexcludes : excludes c = true → S.holds d = false) :
    Holding t d ∧ ∀ c', next = some c' → ApartTokens c' d := by
  obtain ⟨⟨new, hhistory, huses⟩, hpending, hconnections⟩ := h.growth
  -- no event of this step uses a token that the other call goes on with
  have hothers : ∀ q, d.position.agreed = some q →
      ∀ e ∈ new, e.uses ≠ some d.request.requestState := by
    intro q hq e he htoken
    obtain ⟨hown, hmay⟩ := huses e he _ htoken
    rcases hmay with ⟨q', hwaits⟩ | ⟨hruns, hconfirmed⟩
    · rw [(hd.accepted q hq).2.taken] at hwaits
      cases hwaits
    · rcases hruns with hproceeds | hreading
      · obtain ⟨q', hq'⟩ := hc.answered hproceeds hconfirmed
        exact hapart q' q hq' hq hown.symm
      · rw [hc.reads hreading] at hconfirmed
        cases hconfirmed
  have hdrawn : ∀ q, d.position.agreed = some q → d.request.requestState ≠ S.token s.drawn := by
    intro q hq htoken
    obtain ⟨i, hi, hsame⟩ := hs.drawn _ q (hd.accepted q hq).2.asked
    exact absurd (S.fresh (hsame.symm.trans htoken)) (by omega)
  constructor
  · refine ⟨fun q hq => ?_, hd.answered, fun hpassed q hq => ?_, hd.reads⟩
    · obtain ⟨hconfirmed, haccepted⟩ := hd.accepted q hq
      exact ⟨hconfirmed, haccepted.grow hhistory (hothers q hq)
        (hpending _ haccepted.taken (hdrawn q hq))⟩
    · obtain ⟨p, hcurrent, hsame, hchecked⟩ := hd.checked hpassed q hq
      refine ⟨p, ?_, hsame, by rw [hhistory]; exact List.mem_append_right _ hchecked⟩
      rcases hconnections with hkept | harrived
      · rw [hkept]
        exact hcurrent
      · -- the lock is held, so nobody refreshes
        have hholds : S.holds d = true := by
          have hchecks : S.checks d.request.tool = true := by
            simp [Server.checks, (hd.accepted q hq).1]
          unfold Position.passed at hpassed
          unfold Server.holds
          split at hpassed <;> rename_i hposition
          · rw [hposition]
            exact hchecks
          · rw [hposition]
            exact hchecks
          · cases hpassed
        rw [hexcludes (by rw [excludes, harrived])] at hholds
        cases hholds
  · intro c' hc' q q' hq hq'
    obtain ⟨hrequest, hagreed⟩ := h.agreed hc'
    rw [hrequest]
    rcases hagreed q hq with hold | hwaited
    · exact hapart q q' hold hq'
    · intro htoken
      rw [htoken, (hd.accepted q' hq').2.taken] at hwaited
      cases hwaited

end Step

/-! ## Every run -/

/-- The questions and the calls keep their invariants in every interleaving. -/
theorem questions_invariants (S : Server) :
    S.program.Invariants (Questions S) Holding ApartTokens where
  symm c d h q q' hq hq' htoken := h q' q hq' hq htoken.symm
  start s hstart := by
    obtain ⟨-, -, -, hpending, hhistory⟩ := hstart
    refine ⟨?_, ?_, ?_, ?_, ?_, ?_, ?_⟩ <;> simp [hhistory, hpending, spentTokens]
  arrive s c hs harrives := by
    have hposition : c.position = .arrived ∨ c.position = .called := by
      simp only [Server.program] at harrives
      split at harrives
      · exact .inl ‹_›
      · exact .inr ‹_›
      · cases harrives
    have hagreed : c.position.agreed = none := by
      rcases hposition with h | h <;> rw [h] <;> rfl
    constructor
    · apply Holding.idle hagreed
      · rcases hposition with h | h <;> rw [h] <;> rfl
      · rcases hposition with h | h <;> simp [h]
    · intro d _ q q' hq
      rw [hagreed] at hq
      cases hq
  own s c choice next hs hc hadvance := by
    exact (advance_effect hadvance).holding hs hc
  other s c choice next d hs hc hadvance hd hapart hexcludes :=
    (advance_effect hadvance).holding_other hs hc hd hapart hexcludes
  environment s e t hs henvironment := by
    cases e with
    | tick milliseconds =>
      cases henvironment
      refine ⟨hs.quiet rfl rfl rfl, fun c hc => ⟨fun q hq => ?_, hc.answered, hc.checked, hc.reads⟩⟩
      obtain ⟨hconfirmed, haccepted⟩ := hc.accepted q hq
      exact ⟨hconfirmed, haccepted.grow (n := []) rfl
        (fun e he => absurd he List.not_mem_nil) haccepted.taken⟩
    | line record =>
      simp only [Server.program] at henvironment
      split at henvironment
      · cases henvironment
      · cases henvironment
        refine ⟨hs.note rfl rfl rfl rfl rfl, fun c hc => ⟨fun q hq => ?_, hc.answered,
          fun hpassed q hq => ?_, hc.reads⟩⟩
        · obtain ⟨hconfirmed, haccepted⟩ := hc.accepted q hq
          exact ⟨hconfirmed, haccepted.note rfl rfl rfl⟩
        · obtain ⟨p, hcurrent, hsame, hchecked⟩ := hc.checked hpassed q hq
          exact ⟨p, hcurrent, hsame, List.mem_cons_of_mem _ hchecked⟩

/-- **One yes, one destruction**. Every destructive run was made on a question put before it about
    the same call, answered in time with a yes, with the profile unchanged at the check; no token is
    put twice, none is spent twice, and one that a mismatched answer took is never spent. -/
theorem one_yes_one_destruction (S : Server) {s : Threads Shared Call}
    (hs : S.program.machine.Reachable Machine.Always s) :
    Each RunsOnYes s.shared.history ∧
      (s.shared.history.filterMap Event.issued).Nodup ∧
      (spentTokens s.shared.history).Nodup ∧
      ∀ r now q, .answered r now (some q) ∈ s.shared.history → Mismatch r q →
        r.requestState ∉ spentTokens s.shared.history := by
  have hkept := ((questions_invariants S).reachable hs).shared
  exact ⟨hkept.runs, hkept.issuedOnce, hkept.spentOnce, hkept.mismatched⟩

/-! ## A purge that was confirmed -/

/-- Tokens of one letter, ever longer. -/
def longerToken (n : Nat) : String := String.ofList (List.replicate (n + 1) 'a')

theorem longerToken_injective : Function.Injective longerToken := by
  intro m n h
  have hlength := congrArg String.length h
  simpa [longerToken] using hlength

/-- A server that may destroy what the connection `orders` reaches. -/
def ordersServer : Server := ⟨ordersGrants, "s1", longerToken, longerToken_injective⟩

/-- A call that purges a queue there. -/
def purgeRequest (token : String) (reply : Option String) : Request where
  tool := define "destination_purge" "destination.purge" .destinationTarget
  input := .destinationTarget 1 "queue" ""
  typed := rfl
  requestState := token
  reply := reply
  confirms := true

/-- The server at its start. -/
def ordersStart : Threads Shared Call := ⟨⟨ordersStored, 0, 0, 0, ∅, []⟩, ∅⟩

theorem ordersStart_start : ordersServer.program.machine.start ordersStart :=
  ⟨⟨rfl, rfl, rfl, rfl, rfl⟩, rfl⟩

/-- A question is put, and answered with a yes. -/
def purgeConfirmed : List (Turn Call Choice Around) :=
  [.arrive 0 ⟨purgeRequest "" none, .arrived⟩, .thread 0 (.refresh (some ordersStored)),
    .thread 0 .go, .thread 0 .go, .thread 0 (.probe false), .thread 0 .go,
    .thread 0 (.probe false), .thread 0 (.append .stored), .thread 0 .go, .thread 0 .go,
    .arrive 1 ⟨purgeRequest "a" (some "accept"), .called⟩, .thread 1 .go, .thread 1 .go,
    .thread 1 .go, .thread 1 .go, .thread 1 (.append .stored), .thread 1 (.run false)]

/-- The purge is made, on the one question that was put. -/
theorem one_yes_one_destruction_purge :
    spentTokens (ordersServer.program.machine.endOf ordersStart purgeConfirmed).shared.history =
        ["a"] ∧
      Each RunsOnYes
        (ordersServer.program.machine.endOf ordersStart purgeConfirmed).shared.history := by
  constructor
  · decide
  · exact (one_yes_one_destruction ordersServer
      (Machine.Reachable.endOf (.start ordersStart_start) (Machine.permitted_always _ _ _))).1

end MqStudio.Agent
