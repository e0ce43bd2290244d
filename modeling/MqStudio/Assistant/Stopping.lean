import MqStudio.Assistant.Consent

/-!
# Stopping a Run

`Stop` cancels a run's context, which the run tests before each call and while a question waits. A
write that was let through is not tested again before its started record, and of an answer and a
stop that are both there the select takes either.

## Main definitions

- `unstopped`: no stop came before the started record of a write that is run.
- `Position.letThrough`: the windows in which a stop is not noticed.
- `notedInTime`: no stop lands in one, and an approval loses to it.

## Main results

- `nothing_starts_stopped`: where stops are noted in time, nothing starts after one.
- `starts_after_stop`: what happens where they are not.
-/

namespace MqStudio.Assistant

open MqStudio.Agent (Append Phase)
open MqStudio.Lib

/-- **Nothing starts after a stop**: no stop came before the started record of a write that is
    run, in its run. -/
def unstopped (earlier : List Happening) : Happening → Prop
  | .ran address _ _ _ (some number) _ =>
    ∀ record outcome before, (.appended record outcome :: before) <:+ sinceBegan address earlier →
      record.phase = .started → record.call = number → .stopped address ∉ before
  | _ => True

/-! ## Where a stop is not noticed -/

/-- A write that was let through, or will be without a question, has no started record yet. -/
def Position.letThrough (s : Session) : Position → Prop
  | .calling _ _ _ (.numbering tool _) =>
    tool.blast ≠ .destructive ∧ tool.name ∈ s.remembered
  | .calling _ _ _ (.connecting w _) =>
    w.tool.blast ≠ .destructive ∧ w.tool.name ∈ s.remembered
  | .calling _ _ _ (.rereading ..) | .calling _ _ _ (.comparing ..) => True
  | .calling _ _ _ (.starting ..) => True
  | _ => False

instance (s : Session) (position : Position) : Decidable (position.letThrough s) := by
  unfold Position.letThrough
  split <;> infer_instance

/-- The question of a write has been answered with a yes. -/
def Position.approved (s : Session) : Position → Prop
  | .calling _ _ item (.waiting ..) => (s.answers.lookup item).any Decision.approve = true
  | _ => False

instance (s : Session) (position : Position) : Decidable (position.approved s) := by
  unfold Position.approved
  split <;> infer_instance

/-- **Stops are noted in time**: none lands while a write is let through, and where an approval is
    there with one the select takes the stop. -/
def notedInTime : Limits where
  restore _ := True
  step _ _ s r choice := r.cancelled = true → r.position.approved s → choice ≠ .answer
  stop s r := ¬ r.position.letThrough s

instance (kept : Record) : Decidable (notedInTime.restore kept) := .isTrue trivial

instance (s : Session) (r : Run) : Decidable (notedInTime.stop s r) :=
  inferInstanceAs (Decidable (¬ r.position.letThrough s))

instance (e : Surroundings) (h : List Happening) (s : Session) (r : Run) (choice : Choice) :
    Decidable (notedInTime.step e h s r choice) :=
  inferInstanceAs (Decidable (r.cancelled = true → r.position.approved s → choice ≠ .answer))

/-! ## Runs that note it -/

/-- A started record was appended with no stop before it. -/
def startedBefore (address : Nat) (earlier : List Happening) : Happening → Prop
  | .appended record _ => record.phase = .started → .stopped address ∉ earlier
  | _ => True

/-- **How a run stands to a stop.** -/
structure Noting (h : List Happening) (s : Session) (r : Run) : Prop where
  stopped : .stopped s.address ∈ sinceBegan s.address h → r.cancelled = true
  started : History.Each (startedBefore s.address) (sinceBegan s.address h)
  noticed : r.cancelled = true → ¬ r.position.letThrough s

section Runs

variable {c : Config} {e : Surroundings} {s t : Session} {r : Run} {choice : Choice} {m : Moved}
  {h : List Happening} {call : ToolCall} {item : Nat} {stage next : Stage} {b : Batch}

/-- One more event that neither stops the run nor starts a write. -/
theorem Noting.more (hn : Noting h s r) {event : Happening} (hbegan : event ≠ .began s.address)
    (hstopped : event ≠ .stopped s.address)
    (hstarted : ∀ record outcome, event = .appended record outcome → record.phase ≠ .started) :
    Noting (event :: h) s r where
  stopped hmem := by
    rw [sinceBegan_cons hbegan] at hmem
    rcases List.mem_cons.mp hmem with hsame | hold
    · exact absurd hsame.symm hstopped
    · exact hn.stopped hold
  started := by
    rw [sinceBegan_cons hbegan, History.each_cons]
    refine ⟨?_, hn.started⟩
    cases event with
    | appended record outcome => exact fun hphase => absurd hphase (hstarted record outcome rfl)
    | _ => trivial
  noticed := hn.noticed

/-- A run that stands elsewhere, where nothing is let through. -/
theorem Noting.elsewhere (hn : Noting h s r) {position : Position} {t : Session}
    (haddress : t.address = s.address) (hposition : ¬ position.letThrough t) :
    Noting h t (r.at position) where
  stopped := by
    rw [haddress]
    exact hn.stopped
  started := by
    rw [haddress]
    exact hn.started
  noticed _ := hposition

/-- A started record is appended only where no stop came. -/
theorem Noting.starts (hn : Noting h s r) (hlet : r.position.letThrough s) (record : Agent.Record)
    (outcome : Append) : Noting (.appended record outcome :: h) s r where
  stopped hmem := by
    rw [sinceBegan_cons (by simp)] at hmem
    rcases List.mem_cons.mp hmem with hsame | hold
    · cases hsame
    · exact hn.stopped hold
  started := by
    rw [sinceBegan_cons (by simp), History.each_cons]
    exact ⟨fun _ hstopped => hn.noticed (hn.stopped hstopped) hlet, hn.started⟩
  noticed := hn.noticed

/-- What happens in a call, seen from where it stood. -/
theorem Noting.happens (hn : Noting h s r) (hposition : r.position = .calling b call item stage)
    {counter : Nat} {happened : List Happening}
    (hmove : CallMove c e s r call item choice stage t next counter happened) :
    Noting (happened ++ h) s r := by
  cases hmove with
  | reads | poses | rereadsOff | rereads | rereadsLast | compares | runs =>
    exact hn.more (by simp) (by simp) fun _ _ happended => (by cases happended)
  | notes w | notesUnrecorded w | keeps w =>
    exact hn.more (by simp) (by simp) fun _ _ happended => (by cases happended; simp [Agent.Record.asked, Agent.Record.refused])
  | finishes w outcome failed appended =>
    refine hn.more (by simp) (by simp) fun _ _ happended => ?_
    cases happended
    cases failed <;> simp [Agent.Record.finished]
  | starts w pass outcome | startsUnrecorded w pass outcome =>
    apply hn.starts
    rw [hposition]
    trivial
  | _ => exact hn

/-- A run that is stopped lets nothing more through. -/
theorem Noting.notices (hn : Noting h s r) (hposition : r.position = .calling b call item stage)
    (hlimit : notedInTime.step e h s r choice) {counter : Nat} {happened : List Happening}
    (hmove : CallMove c e s r call item choice stage t next counter happened)
    (hcancelled : r.cancelled = true) : ¬ (Position.calling b call item next).letThrough t := by
  have hnoticed := hn.noticed hcancelled
  rw [hposition] at hnoticed
  cases hmove with
  | numbers => exact hnoticed
  | remembers w connection hblast hname => exact absurd ⟨hblast, hname⟩ hnoticed
  | confirms w profile decided hchoice hanswer happrove
  | approves w decided hchoice hanswer happrove
  | approvesAll w decided hchoice hanswer happrove =>
    have happroved : r.position.approved s := by
      rw [hposition]
      simp [Position.approved, hanswer, happrove]
    exact absurd hchoice (hlimit hcancelled happroved)
  | rereads | rereadsLast | compares => exact absurd trivial hnoticed
  | reads tool input outcome => cases outcome <;> exact id
  | finishes w outcome => cases outcome <;> exact id
  | _ => exact id

/-- **A step of a run** notes a stop in time. -/
theorem Noting.move (hn : Noting h s r) (hlimit : notedInTime.step e h s r choice)
    (hmove : Move c e s r choice m) : Noting (m.happened ++ h) m.session m.run := by
  cases hmove with
  | prepares settings chosen hposition =>
    have hmore : Noting (.prepared s.address settings :: h) s r :=
      hn.more (by simp) (by simp) fun _ _ happended => (by cases happended)
    exact ⟨hmore.stopped, hmore.started, fun _ => id⟩
  | builds chosen queue failed t next hposition hchoice hready =>
    obtain ⟨-, haddress, hcalling⟩ := ready_remembers hready
    refine hn.elsewhere haddress ?_
    cases next with
    | calling b call item stage => exact absurd rfl (hcalling b call item stage)
    | _ => exact id
  | flushes out | flushesLate out | closesFailed out | closes out =>
    exact hn.elsewhere (redrawn_flush s out).remembers.2 id
  | counts turn hposition =>
    refine hn.elsewhere rfl ?_
    cases hnext : afterTurn turn with
    | calling b call item stage => exact absurd hnext (afterTurn_calling turn b call item stage)
    | _ => exact id
  | settles b next hposition hrest hnext =>
    refine hn.elsewhere rfl ?_
    rcases hnext with ⟨ended, rfl⟩ | rfl <;> exact id
  | calls b call rest hposition hrest hcancelled =>
    refine ⟨hn.stopped, hn.started, fun hstopped => ?_⟩
    -- the run was tested before the call
    have hcontra : r.cancelled = true := hstopped
    rw [hcancelled] at hcontra
    cases hcontra
  | works b call item stage next t counter happened hposition hcall =>
    obtain ⟨haddress, -⟩ := hcall.unanswering
    have hmore := hn.happens hposition hcall
    refine ⟨?_, ?_, hn.notices hposition hlimit hcall⟩
    · rw [haddress]
      exact hmore.stopped
    · rw [haddress]
      exact hmore.started
  | finishes b call item state text answer hposition =>
    exact hn.elsewhere (redrawn_changeTool s item
      fun tool => { tool with state := state, result := text }).remembers.2 id
  | ends ending hposition => exact hn.elsewhere (ended_remembers s e.now ending).2 id
  | _ => exact hn.elsewhere rfl id

/-- What a run does is done after no stop. -/
theorem Noting.unstopped (hn : Noting h s r) (hmove : Move c e s r choice m)
    (heach : History.Each unstopped h) : History.Each unstopped (m.happened ++ h) := by
  cases hmove with
  | works b call item stage next t counter happened hposition hcall =>
    cases hcall with
    | reads tool input outcome => exact History.each_cons.mpr ⟨trivial, heach⟩
    | runs w pass outcome =>
      refine History.each_cons.mpr ⟨fun record outcome before hsuffix hphase _ => ?_, heach⟩
      exact hn.started before (.appended record outcome) hsuffix hphase
    | notes | notesUnrecorded | poses | rereadsOff | rereads | rereadsLast | compares | starts
    | startsUnrecorded | finishes | keeps =>
      exact History.each_cons.mpr ⟨trivial, heach⟩
    | _ => exact heach
  | prepares => exact History.each_cons.mpr ⟨trivial, heach⟩
  | _ => exact heach

end Runs

/-! ## Every interleaving -/

/-- What is kept up, for nothing to start after a stop. -/
def noting : Upkeep where
  good _ := True
  idle _ _ := True
  busy h s r := Noting h s r
  told h := History.Each unstopped h

section Reachable

variable {c : Config}

/-- An event elsewhere neither begins a run here nor stops it. -/
theorem Noting.beside {h : List Happening} {s : Session} {r : Run} (hn : Noting h s r)
    {event : Happening} (helsewhere : Elsewhere s event) (haside : event.aside = true) :
    Noting (event :: h) s r := by
  apply hn.more
  · rintro rfl
    exact helsewhere rfl
  · rintro rfl
    exact helsewhere rfl
  · rintro record outcome rfl
    cases haside

/-- What a write is let through by is not the title, nor an answer. -/
theorem Noting.remembers {h : List Happening} {s t : Session} {r : Run} (hn : Noting h s r)
    (haddress : t.address = s.address) (hremembered : t.remembered = s.remembered) :
    Noting h t r := by
  obtain ⟨hstopped, hstarted, hnoticed⟩ := hn
  rw [← haddress] at hstopped hstarted
  refine ⟨hstopped, hstarted, fun hcancelled => ?_⟩
  have hbefore := hnoticed hcancelled
  unfold Position.letThrough at hbefore ⊢
  rw [hremembered]
  exact hbefore

/-- **Stops are noted** by every step, where they are noted in time. -/
theorem keeps_noting (c : Config) : Keeps c notedInTime 0 noting where
  told_nil := History.each_nil _
  told_aside h event htold haside := by
    refine History.each_cons.mpr ⟨?_, htold⟩
    cases event with
    | ran => cases haside
    | _ => trivial
  version _ _ _ := trivial
  new _ _ _ _ _ _ := trivial
  restored _ _ _ _ _ _ _ := trivial
  recorded _ _ _ := trivial
  speaks _ _ _ _ _ _ _ := trivial
  starts h s _ := by
    have hnone : sinceBegan s.address (.began s.address :: h) = [] := by simp [sinceBegan]
    refine ⟨fun hmem => ?_, ?_, fun _ => id⟩
    · rw [show s.starts.address = s.address from rfl, hnone] at hmem
      cases hmem
    · rw [show s.starts.address = s.address from rfl, hnone]
      exact History.each_nil _
  idle_renamed _ _ _ _ := trivial
  busy_renamed h s r title hbusy := hbusy.remembers rfl rfl
  idle_decides _ _ _ _ _ _ := trivial
  busy_decides h s r item decision hitem hbusy := by
    have hmore : Noting (.decided s.address item decision :: h) s r :=
      hbusy.more (by simp) (by simp) fun _ _ happened => (by cases happened)
    exact hmore.remembers rfl rfl
  stops h s r hbusy hlimit := by
    refine ⟨fun _ => rfl, ?_, fun _ => hlimit⟩
    rw [sinceBegan_cons (by simp), History.each_cons]
    exact ⟨trivial, hbusy.started⟩
  idle_elsewhere _ _ _ _ _ := trivial
  busy_elsewhere h s r event helsewhere haside hbusy := hbusy.beside helsewhere haside
  run h e s r choice m htold hbusy haddress hlimit hmove :=
    ⟨hbusy.move hlimit hmove, hbusy.unstopped hmove htold⟩
  keeping h s r kept next hbusy hposition hnext := by
    refine hbusy.elsewhere rfl ?_
    rcases hnext with rfl | rfl <;> exact id
  saving h s r kept hbusy hposition := ⟨trivial, hbusy.elsewhere rfl id⟩
  closing _ _ _ _ _ := trivial

/-- **Nothing starts after a stop**, in every run of the manager in which stops are noted in
    time. -/
theorem nothing_starts_stopped {t : Threads World Errand}
    (ht : (manager c).Reachable notedInTime.condition.OkLife t) :
    History.Each unstopped t.shared.happened :=
  ((keeps_noting c).reachable ht).shared.told

end Reachable

/-- A publish is asked about, the run stopped, and the question given up. -/
def ordersStopped : List (Program.Life Errand Say Around) :=
  ordersAsked ++ called 2 (.stop ordersID) [.go] ++ runs [.stop, .go, .append .stored, .go, .go, .go]

/-- A stop that lands while a question waits is noted. -/
theorem nothing_starts_stopped_orders :
    .stopped 0 ∈ (ordersAfter ordersStopped).shared.happened ∧
      History.Each unstopped (ordersAfter ordersStopped).shared.happened := by
  have hrun : .stopped 0 ∈ (ordersAfter ordersStopped).shared.happened ∧
      (manager ordersConfig).Permitted notedInTime.condition.OkLife ⟨ordersWindow, ∅⟩
        ordersStopped := by
    decide +kernel
  refine ⟨hrun.1, nothing_starts_stopped (c := ordersConfig) ?_⟩
  exact (Machine.Reachable.start ordersWindow_start).endOf hrun.2

/-! ## Stops that are not noted -/

/-- A publish is approved, and stopped once the answer is taken. -/
def ordersLate : List (Program.Life Errand Say Around) :=
  ordersAsked ++ called 2 (.decide ordersID 2 ⟨true, false⟩) [.go] ++ runs [.answer] ++
    called 3 (.stop ordersID) [.go] ++ runs [.go, .append .stored, .go, .run (.done "published" "ok")]

/-- The stop and the approval are both there, and the select takes the approval. -/
def ordersOutrun : List (Program.Life Errand Say Around) :=
  ordersAsked ++ called 2 (.stop ordersID) [.go] ++
    called 3 (.decide ordersID 2 ⟨true, false⟩) [.go] ++
    runs [.answer, .go, .append .stored, .go, .run (.done "published" "ok")]

/-- A tool was run last, right after its started record, and that after a stop. -/
def startedLate : List Happening → Bool
  | .ran address _ _ _ (some number) _ :: .appended record _ :: before =>
    record.phase = .started && record.call = number && (sinceBegan address before).contains (.stopped address)
  | _ => false

theorem not_unstopped {h : List Happening} (hlate : startedLate h = true) :
    ¬ History.Each unstopped h := by
  unfold startedLate at hlate
  split at hlate
  · rename_i address item tool input number current record outcome before
    simp only [Bool.and_eq_true, decide_eq_true_eq, List.contains_iff_mem] at hlate
    obtain ⟨⟨hphase, hcall⟩, hstopped⟩ := hlate
    intro heach
    refine (History.each_cons.mp heach).1 record outcome (sinceBegan address before) ?_ hphase hcall
      hstopped
    rw [sinceBegan_cons (by simp)]
  · cases hlate

/-- A reachable state in whose history something starts after it was stopped. -/
def StartsLate (w : Threads World Errand) : Prop :=
  (manager ordersConfig).Reachable Machine.Always w ∧
    ¬ History.Each unstopped w.shared.happened

/-- **A stop that is not noted**: the publish starts after it, whether the answer was taken before
    the stop came or beside it. -/
theorem starts_after_stop :
    StartsLate (ordersAfter ordersLate) ∧ StartsLate (ordersAfter ordersOutrun) := by
  have hlate : startedLate (ordersAfter ordersLate).shared.happened = true ∧
      startedLate (ordersAfter ordersOutrun).shared.happened = true := by
    decide +kernel
  constructor
  · exact ⟨ordersAfter_reachable _, not_unstopped hlate.1⟩
  · exact ⟨ordersAfter_reachable _, not_unstopped hlate.2⟩

end MqStudio.Assistant
