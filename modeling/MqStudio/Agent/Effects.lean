import MqStudio.Agent.Guard

/-!
# What One Step of a Call Does

`Effect` lists the steps of a call by what they do to the shared state, with the guards each was
taken under; `advance_effect` shows that the list is complete. Every invariant of the server is a
case analysis over it.
-/

namespace MqStudio.Agent

open MqStudio.Connection
open MqStudio.Lib
open MqStudio.Lib.TreeMap
open MqStudio.Model

namespace Server

variable {S : Server}

/-- A step towards a question, all of them without effect on what the calls share. -/
inductive Prepares (s : Shared) (r : Request) : Position → Position → Prop where
  | questioned {call : Nat} : Prepares s r (.questioning call) (.probing call)
  | probed {call : Nat} : Prepares s r (.probing call) (.profiling call)
  | profiled {call : Nat} {profile : ConnectionProfile} :
    s.connections[r.target]? = some profile →
    Prepares s r (.profiling call) (.counting call profile)
  | counted {call : Nat} {profile : ConnectionProfile} :
    Prepares s r (.counting call profile) (.asking call profile)

/-- The call a position asks a question for. -/
def preparing : Position → Option Nat
  | .questioning call | .probing call | .profiling call => some call
  | .counting call _ => some call
  | _ => none

/-- A step of a call, by what it does. -/
inductive Effect (S : Server) (s : Shared) (c : Call) : Shared → Option Call → Prop where
  | fails : c.position = .arrived → Effect S s c s none
  | refreshes (connections : Profiles) : c.position = .arrived →
    Effect S s c { s with connections := connections } (some (c.to .called))
  | reads : c.position = .called → c.request.tool.blast = .read →
    Effect S s c s (some (c.to .reading))
  | runsReading : c.position = .reading →
    Effect S s c { s with history := .ran c.request none none :: s.history } none
  | questions : c.position = .called → confirmed c.request.tool = true →
    Effect S s c { s with calls := s.calls + 1 } (some (c.to (.questioning (s.calls + 1))))
  /-- An answer without a question of its own number. -/
  | takesUnnumbered : c.position = .called → confirmed c.request.tool = true →
    (∀ asked, s.pending[c.request.requestState]? = some asked → asked.call = 0) →
    Effect S s c (take s c.request).1
      (some (c.to (.numbering (judged c.request (take s c.request).2))))
  | takes (asked : Agreement) : c.position = .called → confirmed c.request.tool = true →
    s.pending[c.request.requestState]? = some asked →
    Effect S s c (take s c.request).1
      (some (answered c asked.call (judged c.request (take s c.request).2)))
  | writes : c.position = .called → confirmed c.request.tool = false →
    S.gated c.request.tool = false →
    Effect S s c { s with calls := s.calls + 1 } (some (c.to (.starting (s.calls + 1) none)))
  | writesGated : c.position = .called → confirmed c.request.tool = false →
    S.gated c.request.tool = true →
    Effect S s c { s with calls := s.calls + 1 } (some (c.to (.locking (s.calls + 1) none)))
  | prepares {p q : Position} : c.position = p → Prepares s c.request p q →
    Effect S s c s (some (c.to q))
  /-- There is no point in a question whose yes leads nowhere. -/
  | refusesQuestion {p : Position} {call : Nat} (error : Refusal) : c.position = p →
    preparing p = some call → Effect S s c s (some (c.to (.refusing call error false)))
  | asks {call : Nat} {profile : ConnectionProfile} (outcome : Append) :
    c.position = .asking call profile → outcome.ok = true →
    Effect S s c (append s (S.entry c.request call).asked outcome)
      (some (c.to (.dating call profile)))
  | asksUnrecorded {call : Nat} {profile : ConnectionProfile} (outcome : Append) :
    c.position = .asking call profile → outcome.ok = false →
    Effect S s c (append s (S.entry c.request call).asked outcome)
      (some (c.to (.refusing call .notRecorded false)))
  | dates {call : Nat} {profile : ConnectionProfile} : c.position = .dating call profile →
    Effect S s c s (some (c.to (.putting
      ⟨c.request.tool.name, canonical c.request.input, profile, call, s.now + confirmationTTL⟩)))
  | puts {question : Agreement} : c.position = .putting question →
    Effect S s c (S.ask s question) none
  | numbers {outcome : Except Refusal Agreement} : c.position = .numbering outcome →
    Effect S s c { s with calls := s.calls + 1 } (some (answered c (s.calls + 1) outcome))
  | locks {call : Nat} {agreed : Option Agreement} : c.position = .locking call agreed →
    Effect S s c s (some (c.to (.reaching call agreed)))
  | overreaches {call : Nat} {agreed : Option Agreement} (error : OutOfReach) :
    c.position = .reaching call agreed →
    Effect S s c s (some (c.to (.refusing call (.outOfReach error) true)))
  | reaches {call : Nat} {agreed : Option Agreement} : c.position = .reaching call agreed →
    permits (S.grants.ceiling s.connections c.request.target).1 c.request.tool.blast = true →
    Effect S s c
      { s with history := .checked c.request s.connections[c.request.target]? :: s.history }
      (some (c.to (reached call agreed)))
  | passes {call : Nat} {agreed : Option Agreement} : c.position = .reaching call agreed →
    S.gated c.request.tool = false → Effect S s c s (some (c.to (reached call agreed)))
  | differs {call : Nat} {agreed : Agreement} (error : Changed) :
    c.position = .comparing call agreed →
    Effect S s c s (some (c.to (.refusing call (.changed error) true)))
  | agrees {call : Nat} {agreed : Agreement} {current : ConnectionProfile} :
    c.position = .comparing call agreed → s.connections[c.request.target]? = some current →
    repointed agreed.profile current = false →
    Effect S s c
      { s with history := .checked c.request s.connections[c.request.target]? :: s.history }
      (some (c.to (.starting call (some agreed))))
  | starts {call : Nat} {agreed : Option Agreement} (outcome : Append) :
    c.position = .starting call agreed → outcome.ok = true →
    Effect S s c (append s ((S.entry c.request call).started agreed.isSome) outcome)
      (some (c.to (.running call agreed)))
  | startsUnrecorded {call : Nat} {agreed : Option Agreement} (outcome : Append) :
    c.position = .starting call agreed → outcome.ok = false →
    Effect S s c (append s ((S.entry c.request call).started agreed.isSome) outcome) none
  | runs {call : Nat} {agreed : Option Agreement} (fails : Bool) :
    c.position = .running call agreed →
    Effect S s c
      { s with
        history := .ran c.request (some call) s.connections[c.request.target]? :: s.history }
      (some (c.to (.finishing call agreed fails)))
  | finishes {call : Nat} {agreed : Option Agreement} {failed : Bool} (outcome : Append) :
    c.position = .finishing call agreed failed →
    Effect S s c (append s ((S.entry c.request call).finished failed) outcome) none
  | refuses {call : Nat} {error : Refusal} {locked : Bool} (outcome : Append) :
    c.position = .refusing call error locked →
    Effect S s c (append s ((S.entry c.request call).refused error) outcome) none

/-- The question `take` finds is the one that waits under the token. -/
theorem take_found (s : Shared) (r : Request) :
    (take s r).2.1 = s.pending[r.requestState]? := by
  unfold take
  dsimp only
  split
  · rename_i hnone
    exact hnone.symm
  · rename_i asked hsome
    split
    · exact hsome.symm
    · split <;> exact hsome.symm

/-- **A step of a call** is one of those listed. -/
theorem advance_effect {s t : Shared} {c : Call} {choice : Choice} {next : Option Call}
    (h : S.advance s c choice = some (t, next)) : Effect S s c t next := by
  unfold advance at h
  split at h
  -- the middleware
  · rename_i hposition
    split at h
    · cases h
      exact .fails hposition
    · cases h
      exact .refreshes _ hposition
    · cases h
  -- the handler: a reading, a question, an answer or a write without one
  · rename_i hposition
    split at h
    · cases h
    · split at h
      · rename_i hread
        cases h
        exact .reads hposition hread
      · split at h
        · rename_i hconfirmed
          split at h
          · cases h
            exact .questions hposition hconfirmed
          · dsimp only at h
            split at h
            · rename_i hnone
              cases h
              apply Effect.takesUnnumbered hposition hconfirmed
              intro asked hasked
              rw [take_found, hasked] at hnone
              cases hnone
            · rename_i asked hasked
              have hpending := hasked
              rw [take_found] at hpending
              split at h
              · rename_i hzero
                cases h
                apply Effect.takesUnnumbered hposition hconfirmed
                intro other hother
                rw [hpending] at hother
                obtain rfl := Option.some.inj hother
                exact hzero
              · cases h
                exact .takes asked hposition hconfirmed hpending
        · rename_i hconfirmed
          have hnot : confirmed c.request.tool = false := by simpa using hconfirmed
          cases hgated : S.gated c.request.tool with
          | true =>
            rw [hgated] at h
            cases h
            exact .writesGated hposition hnot hgated
          | false =>
            rw [hgated] at h
            cases h
            exact .writes hposition hnot hgated
  -- a tool that reads
  · rename_i hposition
    split at h
    · cases h
      exact .runsReading hposition
    · cases h
  -- on the way to a question
  · rename_i call hposition
    split at h
    · cases h
    · split at h
      · split at h
        · cases h
          exact .refusesQuestion _ hposition rfl
        · split at h
          · cases h
            exact .refusesQuestion _ hposition rfl
          · cases h
            exact .prepares hposition .questioned
      · split at h
        · cases h
          exact .refusesQuestion _ hposition rfl
        · cases h
          exact .prepares hposition .questioned
  · rename_i call hposition
    split at h
    · cases h
      exact .refusesQuestion _ hposition rfl
    · cases h
      exact .prepares hposition .probed
    · cases h
  · rename_i call hposition
    split at h
    · cases h
    · split at h
      · cases h
        exact .refusesQuestion _ hposition rfl
      · rename_i profile hprofile
        cases h
        exact .prepares hposition (.profiled hprofile)
  · rename_i call profile hposition
    split at h
    · cases h
      exact .refusesQuestion _ hposition rfl
    · cases h
      exact .prepares hposition .counted
    · cases h
  · rename_i call profile hposition
    split at h
    · rename_i outcome
      cases hok : outcome.ok with
      | true =>
        rw [hok] at h
        cases h
        exact .asks outcome hposition hok
      | false =>
        rw [hok] at h
        cases h
        exact .asksUnrecorded outcome hposition hok
    · cases h
  · rename_i call profile hposition
    split at h
    · cases h
    · cases h
      exact .dates hposition
  · rename_i question hposition
    split at h
    · cases h
    · cases h
      exact .puts hposition
  · rename_i outcome hposition
    split at h
    · cases h
    · cases h
      exact .numbers hposition
  -- under the lock
  · rename_i call agreed hposition
    split at h
    · cases h
    · cases h
      exact .locks hposition
  · rename_i call agreed hposition
    split at h
    · cases h
    · split at h
      · split at h
        · cases h
          exact .overreaches _ hposition
        · rename_i hreaches
          cases h
          exact .reaches hposition (Grants.reaches_ok hreaches)
      · rename_i hgated
        cases h
        exact .passes hposition (by simpa using hgated)
  · rename_i call agreed hposition
    split at h
    · cases h
    · split at h
      · cases h
        exact .differs _ hposition
      · rename_i hsame
        cases h
        obtain ⟨current, hcurrent, hrepointed⟩ := changedSince_ok.mp hsame
        exact .agrees hposition hcurrent hrepointed
  · rename_i call agreed hposition
    split at h
    · rename_i outcome
      cases hok : outcome.ok with
      | true =>
        rw [hok] at h
        cases h
        exact .starts outcome hposition hok
      | false =>
        rw [hok] at h
        cases h
        exact .startsUnrecorded outcome hposition hok
    · cases h
  · rename_i call agreed hposition
    split at h
    · cases h
      exact .runs _ hposition
    · cases h
  · rename_i call agreed failed hposition
    split at h
    · cases h
      exact .finishes _ hposition
    · cases h
  · rename_i call error locked hposition
    split at h
    · cases h
      exact .refuses _ hposition
    · cases h

/-- **The frame of a step**: the history grows, and only the middleware replaces the profiles. -/
theorem Effect.frame {s t : Shared} {c : Call} {next : Option Call} (h : Effect S s c t next) :
    (∃ new, t.history = new ++ s.history) ∧
      (t.connections = s.connections ∨ c.position = .arrived) := by
  have hquiet : ∃ new, s.history = new ++ s.history := ⟨[], rfl⟩
  have hnote : ∀ e : Event, ∃ new, e :: s.history = new ++ s.history := fun e => ⟨[e], rfl⟩
  have htake : (∃ new, (take s c.request).1.history = new ++ s.history) ∧
      (take s c.request).1.connections = s.connections := by
    unfold take
    dsimp only
    split
    · exact ⟨hnote _, rfl⟩
    · split
      · exact ⟨hnote _, rfl⟩
      · split <;> exact ⟨hnote _, rfl⟩
  cases h with
  | refreshes connections hposition => exact ⟨hquiet, .inr hposition⟩
  | takesUnnumbered => exact ⟨htake.1, .inl htake.2⟩
  | takes => exact ⟨htake.1, .inl htake.2⟩
  | puts => exact ⟨hnote _, .inl rfl⟩
  | runsReading => exact ⟨hnote _, .inl rfl⟩
  | runs => exact ⟨hnote _, .inl rfl⟩
  | asks => exact ⟨hnote _, .inl rfl⟩
  | asksUnrecorded => exact ⟨hnote _, .inl rfl⟩
  | reaches => exact ⟨hnote _, .inl rfl⟩
  | agrees => exact ⟨hnote _, .inl rfl⟩
  | starts => exact ⟨hnote _, .inl rfl⟩
  | startsUnrecorded => exact ⟨hnote _, .inl rfl⟩
  | finishes => exact ⟨hnote _, .inl rfl⟩
  | refuses => exact ⟨hnote _, .inl rfl⟩
  | _ => exact ⟨hquiet, .inl rfl⟩

end Server

end MqStudio.Agent
