import MqStudio.Agent.OneYes

/-!
# The Allowance Is a Ceiling

A command line names connections, the names are pinned to profiles when the server starts, and
every gated call is checked against the profile stored then and the one stored now, under the lock
that keeps the latter where it is until the call returns. So a tool is run on a connection only as
far as the command line let it go there.

## Main definitions

- `Covered`: what a call past the check of its ceiling may rely on.
- `RunsWithin`: the rule every run of a tool follows.

## Main results

- `allowance_is_a_ceiling`: every run is within what the command line says, the tools offered are
  those some connection's tier covers, and no grant lowers a connection.
-/

namespace MqStudio.Agent

open MqStudio.Connection
open MqStudio.Lib
open MqStudio.Lib.History
open MqStudio.Lib.TreeMap
open MqStudio.Model
open MqStudio.Storage
open Server

/-! ## What a call past its check relies on -/

/-- Past the check of its ceiling. -/
def Position.cleared : Position → Bool
  | .comparing .. | .starting .. | .running .. => true
  | _ => false

/-- A grant of the request's connection covers its tool, and the profile stored is dialled as the
    granted one was. -/
def CoveredBy (S : Server) (r : Request) (granted : Grant) (p : ConnectionProfile) : Prop :=
  S.grants.named[r.target]? = some granted ∧ permits granted.blast r.tool.blast = true ∧
    repointed granted.profile p = false

/-- **What a call past its check relies on**. -/
def Covered (S : Server) (s : Shared) (r : Request) : Prop :=
  permits S.grants.everywhere r.tool.blast = true ∨
    ∃ granted p, CoveredBy S r granted p ∧ s.connections[r.target]? = some p ∧
      .checked r (some p) ∈ s.history

/-- A run reads, is one every connection may make, or is covered by a grant that held when it was
    checked, of a profile that is still the one stored. -/
def RunsWithin (S : Server) (earlier : List Event) (e : Event) : Prop :=
  ∀ r call current, e = .ran r call current →
    r.tool.blast = .read ∨ permits S.grants.everywhere r.tool.blast = true ∨
      ∃ granted p, CoveredBy S r granted p ∧ current = some p ∧ .checked r (some p) ∈ earlier

/-- **Invariant of a call**. -/
structure Within (S : Server) (s : Shared) (c : Call) : Prop where
  covered : c.position.cleared = true → Covered S s c.request
  reads : c.position = .reading → c.request.tool.blast = .read

section Step

variable {S : Server} {s t : Shared} {c : Call} {next : Option Call}

/-- A call that is not past its check relies on nothing. -/
theorem Within.idle (hcleared : c.position.cleared = false)
    (hreads : c.position ≠ .reading) : Within S s c where
  covered h := by
    rw [hcleared] at h
    cases h
  reads h := absurd h hreads

/-- A call past its check, at its next position. -/
theorem Within.at {p : Position} (hcovered : Covered S s c.request) (hreads : p ≠ .reading) :
    Within S s (c.to p) where
  covered _ := hcovered
  reads h := absurd h hreads

/-- What a call relies on is still there when the history has grown and the profiles are kept. -/
theorem Covered.grow {r : Request} (h : Covered S s r) {n : List Event}
    (hhistory : t.history = n ++ s.history)
    (hconnections : t.connections = s.connections) : Covered S t r := by
  rcases h with heverywhere | ⟨granted, p, hgranted, hcurrent, hchecked⟩
  · exact .inl heverywhere
  · refine .inr ⟨granted, p, hgranted, ?_, ?_⟩
    · rw [hconnections]
      exact hcurrent
    · rw [hhistory]
      exact List.mem_append_right _ hchecked

/-- A tool that is not gated is one every connection may be called with. -/
theorem covered_of_not_gated {r : Request} (h : S.gated r.tool = false) : Covered S s r := by
  refine .inl ?_
  simpa [gated] using h

/-- A ceiling that covers the tool is the one on every connection, or a grant's that holds. -/
theorem covered_of_ceiling {r : Request}
    (h : permits (S.grants.ceiling s.connections r.target).1 r.tool.blast = true)
    (hhistory : t.history = .checked r s.connections[r.target]? :: s.history)
    (hconnections : t.connections = s.connections) : Covered S t r := by
  rcases Grants.ceiling_cases (g := S.grants) s.connections r.target with heverywhere |
    ⟨granted, ⟨hnamed, p, hcurrent, hsame⟩, hceiling⟩
  · rw [heverywhere] at h
    exact .inl h
  · rw [hceiling] at h
    refine .inr ⟨granted, p, ⟨hnamed, h, hsame⟩, ?_, ?_⟩
    · rw [hconnections]
      exact hcurrent
    · rw [hhistory, hcurrent]
      exact List.mem_cons_self

/-- Nothing was run. -/
theorem each_of_not_ran {e : Event} {history : List Event} (h : Each (RunsWithin S) history)
    (hran : ∀ r call current, e ≠ .ran r call current) : Each (RunsWithin S) (e :: history) :=
  each_cons.mpr ⟨fun r call current heq => absurd heq (hran r call current), h⟩

/-- **The step of a call** keeps its runs within what it relies on. -/
theorem Server.Effect.within (h : Effect S s c t next) (hs : Each (RunsWithin S) s.history)
    (hc : Within S s c) :
    Each (RunsWithin S) t.history ∧ ∀ d, next = some d → Within S t d := by
  have hreturned : ∀ d : Call, none = some d → Within S t d := fun d hd => by cases hd
  have htaken : Each (RunsWithin S) (take s c.request).1.history := by
    have hanswered : ∀ found, Each (RunsWithin S) (.answered c.request s.now found :: s.history) :=
      fun found => each_of_not_ran hs fun _ _ _ heq => (by cases heq)
    unfold take
    dsimp only
    split
    · exact hanswered _
    · split
      · exact hanswered _
      · split <;> exact hanswered _
  cases h with
  | fails => exact ⟨hs, hreturned⟩
  | refreshes =>
    refine ⟨hs, fun d hd => ?_⟩
    cases hd
    exact .idle rfl (by simp [Call.to])
  | reads _ hread =>
    refine ⟨hs, fun d hd => ?_⟩
    cases hd
    exact ⟨fun h => (by cases h), fun _ => hread⟩
  | runsReading hposition =>
    refine ⟨each_cons.mpr ⟨fun r call current heq => ?_, hs⟩, hreturned⟩
    obtain ⟨rfl, -, -⟩ := Event.ran.inj heq
    exact .inl (hc.reads hposition)
  | questions =>
    refine ⟨hs, fun d hd => ?_⟩
    cases hd
    exact .idle rfl (by simp [Call.to])
  | takesUnnumbered =>
    refine ⟨htaken, fun d hd => ?_⟩
    cases hd
    exact .idle rfl (by simp [Call.to])
  | takes asked =>
    refine ⟨htaken, fun d hd => ?_⟩
    cases hd
    cases judged c.request (take s c.request).2 <;> exact .idle rfl (by simp [answered, Call.to])
  | writes _ _ hgated =>
    refine ⟨hs, fun d hd => ?_⟩
    cases hd
    exact .at (covered_of_not_gated hgated) (by simp)
  | writesGated =>
    refine ⟨hs, fun d hd => ?_⟩
    cases hd
    exact .idle rfl (by simp [Call.to])
  | prepares _ hprepares =>
    refine ⟨hs, fun d hd => ?_⟩
    cases hd
    cases hprepares <;> exact .idle rfl (by simp [Call.to])
  | refusesQuestion =>
    refine ⟨hs, fun d hd => ?_⟩
    cases hd
    exact .idle rfl (by simp [Call.to])
  | asks =>
    refine ⟨each_of_not_ran hs fun _ _ _ heq => (by cases heq), fun d hd => ?_⟩
    cases hd
    exact .idle rfl (by simp [Call.to])
  | asksUnrecorded =>
    refine ⟨each_of_not_ran hs fun _ _ _ heq => (by cases heq), fun d hd => ?_⟩
    cases hd
    exact .idle rfl (by simp [Call.to])
  | dates =>
    refine ⟨hs, fun d hd => ?_⟩
    cases hd
    exact .idle rfl (by simp [Call.to])
  | puts => exact ⟨each_of_not_ran hs fun _ _ _ heq => (by cases heq), hreturned⟩
  | @numbers outcome =>
    refine ⟨hs, fun d hd => ?_⟩
    cases hd
    cases outcome <;> exact .idle rfl (by simp [answered, Call.to])
  | locks =>
    refine ⟨hs, fun d hd => ?_⟩
    cases hd
    exact .idle rfl (by simp [Call.to])
  | overreaches =>
    refine ⟨hs, fun d hd => ?_⟩
    cases hd
    exact .idle rfl (by simp [Call.to])
  | @reaches call agreed _ hpermits =>
    refine ⟨each_of_not_ran hs fun _ _ _ heq => (by cases heq), fun d hd => ?_⟩
    cases hd
    -- here the check is made
    exact .at (covered_of_ceiling hpermits rfl rfl) (by cases agreed <;> simp [reached])
  | @passes call agreed _ hgated =>
    refine ⟨hs, fun d hd => ?_⟩
    cases hd
    exact .at (covered_of_not_gated hgated) (by cases agreed <;> simp [reached])
  | differs =>
    refine ⟨hs, fun d hd => ?_⟩
    cases hd
    exact .idle rfl (by simp [Call.to])
  | agrees hposition =>
    refine ⟨each_of_not_ran hs fun _ _ _ heq => (by cases heq), fun d hd => ?_⟩
    cases hd
    have hcovered := hc.covered (by rw [hposition]; rfl)
    exact .at (hcovered.grow (n := [_]) rfl rfl) (by simp)
  | starts outcome hposition =>
    refine ⟨each_of_not_ran hs fun _ _ _ heq => (by cases heq), fun d hd => ?_⟩
    cases hd
    have hcovered := hc.covered (by rw [hposition]; rfl)
    exact .at (hcovered.grow (n := [_]) rfl rfl) (by simp)
  | startsUnrecorded => exact ⟨each_of_not_ran hs fun _ _ _ heq => (by cases heq), hreturned⟩
  | runs fails hposition =>
    constructor
    · refine each_cons.mpr ⟨fun r call current heq => .inr ?_, hs⟩
      obtain ⟨rfl, -, rfl⟩ := Event.ran.inj heq
      -- the profile stored is the one that was checked
      rcases hc.covered (by rw [hposition]; rfl) with heverywhere |
        ⟨granted, p, hgranted, hcurrent, hchecked⟩
      · exact .inl heverywhere
      · exact .inr ⟨granted, p, hgranted, hcurrent, hchecked⟩
    · intro d hd
      cases hd
      exact .idle rfl (by simp [Call.to])
  | finishes => exact ⟨each_of_not_ran hs fun _ _ _ heq => (by cases heq), hreturned⟩
  | refuses => exact ⟨each_of_not_ran hs fun _ _ _ heq => (by cases heq), hreturned⟩

/-- A call that relies on a grant holds the lock. -/
theorem holds_of_cleared {d : Call} (hcleared : d.position.cleared = true)
    (hgated : S.gated d.request.tool = true) : S.holds d = true := by
  have hchecks : S.checks d.request.tool = true := by
    simp [Server.checks, hgated]
  unfold Position.cleared at hcleared
  unfold Server.holds
  split at hcleared <;> rename_i hposition
  · rw [hposition]
  · rw [hposition]
    exact hchecks
  · rw [hposition]
    exact hchecks
  · cases hcleared

/-- **The step of another call** leaves what a call relies on where it is. -/
theorem Server.Effect.within_other (h : Effect S s c t next) {d : Call} (hd : Within S s d)
    (hexcludes : excludes c = true → S.holds d = false) : Within S t d := by
  obtain ⟨⟨new, hhistory⟩, hconnections⟩ := h.frame
  refine ⟨fun hcleared => ?_, hd.reads⟩
  cases hgated : S.gated d.request.tool with
  | false => exact covered_of_not_gated hgated
  | true =>
    rcases hconnections with hkept | harrived
    · exact (hd.covered hcleared).grow hhistory hkept
    · -- nobody refreshes while the lock is held
      have hholds := holds_of_cleared hcleared hgated
      rw [hexcludes (by rw [excludes, harrived])] at hholds
      cases hholds

end Step

/-! ## Every run -/

/-- The runs made, and what the calls under way rely on, in every interleaving. -/
theorem within_invariants (S : Server) :
    S.program.Invariants (fun s => Each (RunsWithin S) s.history) (Within S)
      (fun _ _ => True) where
  symm _ _ _ := trivial
  start s hstart := by
    obtain ⟨-, -, -, -, hhistory⟩ := hstart
    rw [hhistory]
    exact each_nil _
  arrive s c _ harrives := by
    simp only [Server.program] at harrives
    split at harrives <;> rename_i hposition
    · exact ⟨.idle (by rw [hposition]; rfl) (by simp [hposition]), fun _ _ => trivial⟩
    · exact ⟨.idle (by rw [hposition]; rfl) (by simp [hposition]), fun _ _ => trivial⟩
    · cases harrives
  own s c choice next hs hc hadvance := (advance_effect hadvance).within hs hc
  other s c choice next d _ _ hadvance hd _ hexcludes :=
    ⟨(advance_effect hadvance).within_other hd hexcludes, fun _ _ => trivial⟩
  environment s e t hs henvironment := by
    cases e with
    | tick milliseconds =>
      cases henvironment
      refine ⟨hs, fun c hc => ⟨fun hcleared => ?_, hc.reads⟩⟩
      exact (hc.covered hcleared).grow (n := []) rfl rfl
    | line record =>
      simp only [Server.program] at henvironment
      split at henvironment
      · cases henvironment
      · cases henvironment
        refine ⟨each_of_not_ran hs fun _ _ _ heq => (by cases heq), fun c hc =>
          ⟨fun hcleared => ?_, hc.reads⟩⟩
        exact (hc.covered hcleared).grow (n := [_]) rfl rfl

/-- What the command line lets a run be: a reading, one every connection was allowed, or one on
    the only connection that carried a name raised this far, still dialled as it was. -/
def Allowed (values : List String) (allowance : Allowance)
    (stored : List (Option ConnectionProfile)) (earlier : List Event) (e : Event) : Prop :=
  ∀ r call current, e = .ran r call current →
    r.tool.blast = .read ∨ permits allowance.everywhere r.tool.blast = true ∨
      ∃ name tier profile p, (∃ value ∈ values, Raises value name tier) ∧
        permits tier r.tool.blast = true ∧
        matching stored name = [profile] ∧ profile.id = r.target ∧
        current = some p ∧ repointed profile p = false ∧ .checked r (some p) ∈ earlier

/-- **The allowance is a ceiling** on every run, the tools offered are those the tier of some
    connection covers and those about the installation, and no grant lowers a connection. -/
theorem allowance_is_a_ceiling {values : List String} {allowance : Allowance}
    {stored : List (Option ConnectionProfile)} (S : Server)
    (hparsed : parseAllowance values = .ok allowance)
    (hgranted : allowance.grant stored = .ok S.grants) :
    (∀ s, S.program.machine.Reachable Machine.Always s →
      Each (Allowed values allowance stored) s.shared.history) ∧
    (∀ tool, tool ∈ S.registered ↔ tool ∈ all ∧
      (tool.operation = "" ∨ ∃ id, permits (S.grants.tier id) tool.blast = true)) ∧
    (∀ connections id blast, permits allowance.everywhere blast = true →
      permits (S.grants.ceiling connections id).1 blast = true) := by
  obtain ⟨heverywhere, hnamed⟩ := grant_spec hgranted
  refine ⟨fun s hs => ?_, fun tool => ?_, fun connections id blast h => ?_⟩
  · have hwithin := ((within_invariants S).reachable hs).shared
    refine hwithin.mono fun earlier e hruns r call current heq => ?_
    rcases hruns r call current heq with hread | hall | ⟨granted, p, hcovered, hcurrent, hchecked⟩
    · exact .inl hread
    · rw [heverywhere] at hall
      exact .inr (.inl hall)
    · obtain ⟨hgrant, hpermits, hsame⟩ := hcovered
      have hfor := hnamed r.target granted hgrant
      exact .inr (.inr ⟨granted.name, granted.blast, granted.profile, p,
        (parseAllowance_named hparsed _ _).mp hfor.raised, hpermits, hfor.only, hfor.named,
        hcurrent, hsame, hchecked⟩)
  · simp only [registered, offered, List.mem_filter, Bool.or_eq_true, decide_eq_true_eq,
      Grants.permits_widest_iff hparsed hgranted]
  · rw [← heverywhere] at h
    exact Grants.everywhere_le_ceiling hparsed hgranted connections id h

/-- The purge that was confirmed is within the command line that named its connection, and its tool
    is one of those offered. -/
theorem allowance_is_a_ceiling_purge :
    Each (Allowed ["orders=destructive"] ordersAllowance [some ordersProfile])
        (ordersServer.program.machine.endOf ordersStart purgeConfirmed).shared.history ∧
      (define "destination_purge" "destination.purge" .destinationTarget ∈
        ordersServer.registered) := by
  obtain ⟨hruns, hoffered, -⟩ :=
    allowance_is_a_ceiling ordersServer ordersAllowance_parsed ordersGrants_granted
  exact ⟨hruns _ (Machine.Reachable.endOf (.start ordersStart_start)
    (Machine.permitted_always _ _ _)), (hoffered _).mpr ⟨by decide, .inr ⟨1, by decide⟩⟩⟩

end MqStudio.Agent
