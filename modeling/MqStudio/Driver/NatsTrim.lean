import Mathlib.Algebra.Group.Nat.Defs
import Mathlib.Data.List.Sort
import MqStudio.Lib.BoundedLog

/-!
# Trimming a JetStream Stream

`Trim` of `internal/driver/nats/trim.go`, against a stream that is published to and loses messages
at any moment, also between the requests of a trim: the info before it, the purge, and the info
after it. A stream loses messages to its own limits, to consumers and to other clients.

A purge says how many of the newest messages stay, or the lowest sequence that stays. Either is left
out of the request where it is zero, and a request that says neither removes every message.

## Main definitions

- `Stream`: messages under ascending sequences, and the last sequence that was given.
- `TrimRequest.keeps`: what a bound keeps.
- `KeepsItsBound`: that a trim kept it, and counted what went.

## Main results

- `trim_keeps_iff`: it does, unless the lowest sequence to keep is zero and the stream is not empty.
-/

namespace MqStudio.Driver.Nats

open MqStudio.Lib

variable {α : Type}

/-! ## The stream -/

/-- A stream, and the sequences it lost otherwise than to a purge. -/
structure Stream (α : Type) where
  messages : List (Numbered α)
  /-- `State.LastSeq` -/
  last : Nat
  lost : List Nat
  ordered : (messages.map Numbered.seq).Pairwise (· < ·)
  given : ∀ m ∈ messages, m.seq ≤ last
  gone : ∀ k ∈ lost, k ≤ last ∧ ∀ m ∈ messages, m.seq ≠ k

namespace Stream

/-- A message is stored under the next sequence. -/
def publish (s : Stream α) (content : α) : Stream α where
  messages := s.messages ++ [⟨s.last + 1, content⟩]
  last := s.last + 1
  lost := s.lost
  ordered := by
    rw [List.map_append]
    refine List.pairwise_append.mpr ⟨s.ordered, List.pairwise_singleton _ _, fun k hk l hl => ?_⟩
    obtain ⟨m, hm, rfl⟩ := List.mem_map.mp hk
    obtain rfl := List.mem_singleton.mp hl
    exact Nat.lt_succ_of_le (s.given m hm)
  given m hm := by
    rcases List.mem_append.mp hm with hold | hnew
    · exact Nat.le_succ_of_le (s.given m hold)
    · obtain rfl := List.mem_singleton.mp hnew
      exact Nat.le_refl _
  gone k hk := by
    obtain ⟨hlast, hgone⟩ := s.gone k hk
    refine ⟨Nat.le_succ_of_le hlast, fun m hm => ?_⟩
    rcases List.mem_append.mp hm with hold | hnew
    · exact hgone m hold
    · obtain rfl := List.mem_singleton.mp hnew
      exact (Nat.lt_succ_of_le hlast).ne'

/-- Only some of the messages stay. -/
def only (s : Stream α) (stays : List (Numbered α)) (h : stays.Sublist s.messages) : Stream α where
  messages := stays
  last := s.last
  lost := s.lost
  ordered := s.ordered.sublist (h.map _)
  given m hm := s.given m (h.subset hm)
  gone k hk := ⟨(s.gone k hk).1, fun m hm => (s.gone k hk).2 m (h.subset hm)⟩

/-- The message of a sequence is lost. -/
def lose (s : Stream α) (sequence : Nat) : Stream α where
  messages := s.messages.filter fun m => m.seq ≠ sequence
  last := s.last
  lost := (s.messages.map Numbered.seq).filter (· = sequence) ++ s.lost
  ordered := s.ordered.sublist (List.filter_sublist.map _)
  given m hm := s.given m (List.mem_of_mem_filter hm)
  gone k hk := by
    rcases List.mem_append.mp hk with hnow | hbefore
    · obtain ⟨hthere, hsame⟩ := List.mem_filter.mp hnow
      obtain ⟨m, hm, rfl⟩ := List.mem_map.mp hthere
      refine ⟨s.given m hm, fun other hother heq => ?_⟩
      have hne := (List.mem_filter.mp hother).2
      simp_all
    · exact ⟨(s.gone k hbefore).1, fun m hm => (s.gone k hbefore).2 m (List.mem_of_mem_filter hm)⟩

end Stream

/-- A purge as it is sent; what is zero is left out. -/
structure PurgeBody where
  keep : Option Nat
  sequence : Option Nat
  deriving DecidableEq

/-- What the server does: both bounds at once are refused, and neither is every message. -/
def Stream.purge (s : Stream α) (body : PurgeBody) : Option (Stream α) :=
  match body.keep, body.sequence with
  | none, none => some (s.only [] (List.nil_sublist _))
  | some n, none => some (s.only (s.messages.drop (s.messages.length - n)) (List.drop_sublist _ _))
  | none, some sequence =>
    some (s.only (s.messages.filter fun m => sequence ≤ m.seq) List.filter_sublist)
  | some _, some _ => none

/-! ## The trim -/

/-- `jetstream.StreamPurgeOpt`: `WithPurgeKeep` or `WithPurgeSequence`. -/
inductive StreamPurgeOpt where
  | keep (n : Nat)
  | sequence (n : Nat)
  deriving DecidableEq

/-- A number that is left out where it is zero. -/
def omitEmpty (n : Nat) : Option Nat := if n = 0 then none else some n

/-- The request an option makes. -/
def StreamPurgeOpt.body : StreamPurgeOpt → PurgeBody
  | .keep n => ⟨omitEmpty n, none⟩
  | .sequence n => ⟨none, omitEmpty n⟩

/-- `TrimStrategy`; a caller may send other texts. -/
inductive TrimStrategy where
  | maxLen | minID
  | other (text : String)
  deriving DecidableEq

/-- `TrimRequest` -/
structure TrimRequest where
  name : String
  strategy : TrimStrategy
  maxLen : Int
  minID : String
  approx : Bool
  deriving DecidableEq

/-- The errors of a trim, one constructor for each message of the source. -/
inductive TrimError where
  /-- Why the server has no JetStream for this connection. -/
  | unavailable (reason : String)
  /-- "stream %q does not exist" -/
  | missing (name : String)
  /-- What the client answers otherwise. -/
  | refused (cause : String)
  /-- "cannot keep a negative number of messages" -/
  | negative
  /-- "%q is not a jetstream sequence; a message is addressed by one number for the whole stream" -/
  | notSequence (minID : String)
  /-- "unknown trim strategy %q" -/
  | strategy (text : String)
  deriving DecidableEq

/-- `strconv.ParseUint` in base ten, for 64 bits. -/
def parseUint64 (text : String) : Option Nat :=
  let digits := text.toList
  if digits = [] ∨ digits.any (fun c => !c.isDigit) then none
  else
    let value := digits.foldl (fun n c => 10 * n + (c.toNat - '0'.toNat)) 0
    if value < 2 ^ 64 then some value else none

/-- `purgeOption`. `approx` has no effect: an exact purge keeps no less than what was asked. -/
def purgeOption (request : TrimRequest) : Except TrimError StreamPurgeOpt :=
  match request.strategy with
  | .maxLen => if request.maxLen < 0 then .error .negative else .ok (.keep request.maxLen.toNat)
  | .minID =>
    match parseUint64 request.minID with
    | none => .error (.notSequence request.minID)
    | some sequence => .ok (.sequence sequence)
  | .other text => .error (.strategy text)

/-- `removedBetween`, of the messages a stream held before and after. -/
def removedBetween (before after : Nat) : Nat := if before ≤ after then 0 else before - after

/-- What happens to a stream between two requests. -/
inductive Meanwhile (α : Type) where
  | publish (content : α)
  | lose (sequence : Nat)

/-- The stream afterwards. -/
def Stream.after (s : Stream α) : List (Meanwhile α) → Stream α
  | [] => s
  | .publish content :: rest => (s.publish content).after rest
  | .lose sequence :: rest => (s.lose sequence).after rest

/-- Why a request of a trim fails, if it does. -/
structure TrimFaults where
  /-- The reason there is no JetStream. -/
  unavailable : Option String
  stream : Option TrimError
  before : Option TrimError
  purge : Option TrimError
  after : Option TrimError

/-- The stream when a trim asks for its info, and what happens to it until the purge and from the
    purge to the second info. -/
structure Trimming (α : Type) where
  stream : Stream α
  first : List (Meanwhile α)
  second : List (Meanwhile α)

namespace Trimming

/-- The stream the purge finds. -/
def atPurge (t : Trimming α) : Stream α := t.stream.after t.first

end Trimming

/-- `Trim`: how many messages it says were removed, and the stream it leaves. -/
def trim (t : Trimming α) (request : TrimRequest) (faults : TrimFaults) :
    Except TrimError (Nat × Stream α) :=
  match faults.unavailable, faults.stream, faults.before with
  | some reason, _, _ => .error (.unavailable reason)
  | none, some e, _ => .error e
  | none, none, some e => .error e
  | none, none, none =>
    match purgeOption request with
    | .error e => .error e
    | .ok option =>
      match faults.purge, t.atPurge.purge option.body with
      | some e, _ => .error e
      | none, none => .error (.refused "keep and sequence")
      | none, some purged =>
        match faults.after with
        | some e => .error e
        | none =>
          let left := purged.after t.second
          .ok (removedBetween t.stream.messages.length left.messages.length, left)

/-! ## What a trim promises -/

/-- What the bound keeps of a stream: a message that fewer than so many are newer than, or one from
    the sequence on. -/
def TrimRequest.keeps (request : TrimRequest) (s : Stream α) (m : Numbered α) : Prop :=
  match request.strategy with
  | .maxLen => ((s.messages.filter fun newer => m.seq < newer.seq).length : Int) < request.maxLen
  | .minID => ∃ sequence, parseUint64 request.minID = some sequence ∧ sequence ≤ m.seq
  | .other _ => False

/-- **A trim keeps what its bound keeps**: unless the stream lost it otherwise, it is still there;
    and where nothing was published meanwhile, as many messages are gone as the trim says. -/
structure KeepsItsBound (t : Trimming α) (request : TrimRequest) (removed : Nat)
    (left : Stream α) : Prop where
  kept : ∀ m ∈ t.atPurge.messages, request.keeps t.atPurge m → m.seq ∉ left.lost →
    m ∈ left.messages
  counted : (∀ content, .publish content ∉ t.first ++ t.second) →
    removed = (t.stream.messages.filter fun m => m.seq ∉ left.messages.map Numbered.seq).length

/-! ## Ascending sequences -/

section Ascending

variable {l : List (Numbered α)}

theorem seq_lt (h : (l.map Numbered.seq).Pairwise (· < ·)) {i j : Nat} (hi : i < l.length)
    (hj : j < l.length) (hij : i < j) : l[i].seq < l[j].seq :=
  List.pairwise_iff_getElem.mp (List.pairwise_map.mp h) i j hi hj hij

/-- Of ascending messages, the newer than one are those after it. -/
theorem filter_newer (h : (l.map Numbered.seq).Pairwise (· < ·)) {i : Nat} (hi : i < l.length) :
    (l.filter fun newer => l[i].seq < newer.seq) = l.drop (i + 1) := by
  have holder : (l.take (i + 1)).filter (fun newer => l[i].seq < newer.seq) = [] := by
    refine List.filter_eq_nil_iff.mpr fun m hm hnewer => ?_
    obtain ⟨j, hj, rfl⟩ := List.mem_take_iff_getElem.mp hm
    have hle : l[j].seq ≤ l[i].seq := by
      rcases Nat.lt_or_ge j i with hji | hij
      · exact Nat.le_of_lt (seq_lt h _ hi hji)
      · have hsame : j = i := by omega
        subst hsame
        exact Nat.le_refl _
    exact absurd (of_decide_eq_true hnewer) (Nat.not_lt_of_le hle)
  have hnewer : (l.drop (i + 1)).filter (fun newer => l[i].seq < newer.seq) = l.drop (i + 1) := by
    refine List.filter_eq_self.mpr fun m hm => ?_
    obtain ⟨j, hj, rfl⟩ := List.mem_drop_iff_getElem.mp hm
    exact decide_eq_true (seq_lt h hi _ (by omega))
  calc (l.filter fun newer => l[i].seq < newer.seq)
      = ((l.take (i + 1) ++ l.drop (i + 1)).filter fun newer => l[i].seq < newer.seq) := by
        rw [List.take_append_drop]
    _ = l.drop (i + 1) := by rw [List.filter_append, holder, hnewer, List.nil_append]

/-- So the last `n` are those that fewer than `n` are newer than. -/
theorem mem_newest (h : (l.map Numbered.seq).Pairwise (· < ·)) {m : Numbered α} (hm : m ∈ l)
    {n : Nat} (hn : (l.filter fun newer => m.seq < newer.seq).length < n) :
    m ∈ l.drop (l.length - n) := by
  obtain ⟨i, hi, rfl⟩ := List.mem_iff_getElem.mp hm
  rw [filter_newer h hi, List.length_drop] at hn
  refine List.mem_drop_iff_getElem.mpr ⟨i - (l.length - n), by omega, ?_⟩
  congr 1
  omega

/-- The messages that do not stay are as many as are missing. -/
theorem length_gone {stays : List (Numbered α)} (hsub : stays.Sublist l)
    (h : (l.map Numbered.seq).Pairwise (· < ·)) :
    (l.filter fun m => m.seq ∉ stays.map Numbered.seq).length = l.length - stays.length := by
  induction hsub with
  | slnil => rfl
  | cons m hrest ih =>
    rw [List.map_cons, List.pairwise_cons] at h
    have habsent : m.seq ∉ List.map Numbered.seq _ := fun hmem =>
      absurd (h.1 _ ((hrest.map Numbered.seq).subset hmem)) (Nat.lt_irrefl _)
    rw [List.filter_cons_of_pos (by simpa using habsent), List.length_cons, ih h.2,
      List.length_cons]
    have := hrest.length_le
    omega
  | cons_cons m hrest ih =>
    rw [List.map_cons, List.pairwise_cons] at h
    rw [List.filter_cons_of_neg (by simp), List.length_cons, List.length_cons,
      Nat.add_sub_add_right, ← ih h.2]
    congr 1
    refine List.filter_congr fun other hother => ?_
    have hne : other.seq ≠ m.seq := (h.1 _ (List.mem_map_of_mem hother)).ne'
    simp [hne]

end Ascending

/-! ## What happens meanwhile -/

section Meanwhile

variable {s : Stream α}

theorem lost_after {k : Nat} (events : List (Meanwhile α)) (h : k ∈ s.lost) :
    k ∈ (s.after events).lost := by
  induction events generalizing s with
  | nil => exact h
  | cons event rest ih =>
    cases event with
    | publish content => exact ih h
    | lose sequence => exact ih (List.mem_append_right _ h)

/-- A message stays until it is lost. -/
theorem mem_after {events : List (Meanwhile α)} {m : Numbered α} (hm : m ∈ s.messages)
    (hlost : m.seq ∉ (s.after events).lost) : m ∈ (s.after events).messages := by
  induction events generalizing s with
  | nil => exact hm
  | cons event rest ih =>
    cases event with
    | publish content => exact ih (List.mem_append_left _ hm) hlost
    | lose sequence =>
      refine ih (List.mem_filter.mpr ⟨hm, decide_eq_true fun hsame => hlost ?_⟩) hlost
      refine lost_after rest (List.mem_append_left _ ?_)
      exact List.mem_filter.mpr ⟨List.mem_map_of_mem hm, decide_eq_true hsame⟩

/-- A sequence that is not there, and was not lost, does not come back. -/
theorem absent_after (events : List (Meanwhile α)) {k : Nat} (hlast : k ≤ s.last)
    (hgone : ∀ m ∈ s.messages, m.seq ≠ k) (hlost : k ∉ s.lost) :
    k ∉ (s.after events).lost ∧ ∀ m ∈ (s.after events).messages, m.seq ≠ k := by
  induction events generalizing s with
  | nil => exact ⟨hlost, hgone⟩
  | cons event rest ih =>
    cases event with
    | publish content =>
      refine ih (Nat.le_succ_of_le hlast) (fun m hm => ?_) hlost
      rcases List.mem_append.mp hm with hold | hnew
      · exact hgone m hold
      · obtain rfl := List.mem_singleton.mp hnew
        exact (Nat.lt_succ_of_le hlast).ne'
    | lose sequence =>
      refine ih hlast (fun m hm => hgone m (List.mem_of_mem_filter hm)) fun hmem => ?_
      rcases List.mem_append.mp hmem with hnow | hbefore
      · obtain ⟨m, hm, hsame⟩ := List.mem_map.mp (List.mem_of_mem_filter hnow)
        exact hgone m hm hsame
      · exact hlost hbefore

/-- Where nothing is published, nothing comes in. -/
theorem after_sublist {events : List (Meanwhile α)}
    (h : ∀ content, .publish content ∉ events) :
    (s.after events).messages.Sublist s.messages := by
  induction events generalizing s with
  | nil => exact List.Sublist.refl _
  | cons event rest ih =>
    have hrest : ∀ content, .publish content ∉ rest := fun content hmem =>
      h content (List.mem_cons_of_mem _ hmem)
    cases event with
    | publish content => exact absurd List.mem_cons_self (h content)
    | lose sequence => exact (ih hrest).trans List.filter_sublist

end Meanwhile

/-! ## The purge -/

section Purge

variable {s purged : Stream α} {request : TrimRequest} {option : StreamPurgeOpt}

/-- **A purge removes messages and nothing else.** -/
theorem purge_only {body : PurgeBody} (h : s.purge body = some purged) :
    purged.messages.Sublist s.messages ∧ purged.last = s.last ∧ purged.lost = s.lost := by
  unfold Stream.purge at h
  split at h
  · cases h
    exact ⟨List.nil_sublist _, rfl, rfl⟩
  · cases h
    exact ⟨List.drop_sublist _ _, rfl, rfl⟩
  · cases h
    exact ⟨List.filter_sublist, rfl, rfl⟩
  · cases h

/-- The boundary value: a lowest sequence that the request leaves out. -/
def TrimRequest.fromZero (request : TrimRequest) : Prop :=
  request.strategy = .minID ∧ parseUint64 request.minID = some 0

/-- **A purge keeps what the bound keeps**, unless the bound is that value. -/
theorem purge_keeps (hoption : purgeOption request = .ok option)
    (hpurge : s.purge option.body = some purged) (hzero : ¬ request.fromZero) {m : Numbered α}
    (hm : m ∈ s.messages) (hkeeps : request.keeps s m) : m ∈ purged.messages := by
  unfold purgeOption at hoption
  unfold TrimRequest.keeps at hkeeps
  cases hstrategy : request.strategy with
  | maxLen =>
    rw [hstrategy] at hoption hkeeps
    dsimp only at hoption hkeeps
    split at hoption
    · cases hoption
    · -- a message is newer than fewer than zero others in no stream
      cases hoption
      have hpos : request.maxLen.toNat ≠ 0 := by omega
      rw [StreamPurgeOpt.body, omitEmpty, if_neg hpos] at hpurge
      cases hpurge
      exact mem_newest s.ordered hm (by omega)
  | minID =>
    rw [hstrategy] at hoption hkeeps
    obtain ⟨sequence, hparse, hle⟩ := hkeeps
    rw [hparse] at hoption
    cases hoption
    have hpos : sequence ≠ 0 := by
      rintro rfl
      exact hzero ⟨hstrategy, hparse⟩
    rw [StreamPurgeOpt.body, omitEmpty, if_neg hpos] at hpurge
    cases hpurge
    exact List.mem_filter.mpr ⟨hm, decide_eq_true hle⟩
  | other text =>
    rw [hstrategy] at hkeeps
    exact hkeeps.elim

/-- At that value everything goes. -/
theorem purge_fromZero (hoption : purgeOption request = .ok option)
    (hpurge : s.purge option.body = some purged) (hzero : request.fromZero) :
    purged.messages = [] := by
  obtain ⟨hstrategy, hparse⟩ := hzero
  rw [purgeOption, hstrategy] at hoption
  dsimp only at hoption
  rw [hparse] at hoption
  cases hoption
  cases hpurge
  rfl

end Purge

/-! ## The trim, whole -/

/-- **A trim that succeeded** sent the purge its bound makes, and counted before and after. -/
theorem trim_ok {t : Trimming α} {request : TrimRequest} {faults : TrimFaults} {removed : Nat}
    {left : Stream α} (h : trim t request faults = .ok (removed, left)) :
    ∃ option purged, purgeOption request = .ok option ∧
      t.atPurge.purge option.body = some purged ∧ left = purged.after t.second ∧
      removed = removedBetween t.stream.messages.length left.messages.length := by
  unfold trim at h
  split at h
  · cases h
  · cases h
  · cases h
  · split at h
    · cases h
    · rename_i option hoption
      split at h
      · cases h
      · cases h
      · rename_i purged _ hpurge
        split at h
        · cases h
        · cases h
          exact ⟨option, purged, hoption, hpurge, rfl, rfl⟩

/-- **A trim keeps what its bound keeps** and counts what went, exactly unless the lowest sequence
    to keep is zero and the stream holds a message: then it is emptied. -/
theorem trim_keeps_iff {t : Trimming α} {request : TrimRequest} {faults : TrimFaults}
    {removed : Nat} {left : Stream α} (h : trim t request faults = .ok (removed, left)) :
    KeepsItsBound t request removed left ↔
      ¬ (request.fromZero ∧ t.atPurge.messages ≠ []) := by
  obtain ⟨option, purged, hoption, hpurge, rfl, rfl⟩ := trim_ok h
  obtain ⟨hsub, hlast, hlost⟩ := purge_only hpurge
  constructor
  · rintro ⟨hkept, -⟩ ⟨hzero, hnonempty⟩
    obtain ⟨m, hm⟩ := List.exists_mem_of_ne_nil _ hnonempty
    have hempty := purge_fromZero hoption hpurge hzero
    have hkeeps : request.keeps t.atPurge m := by
      rw [TrimRequest.keeps, hzero.1]
      exact ⟨0, hzero.2, Nat.zero_le _⟩
    -- it did not get lost, and it does not come back
    have habsent := absent_after (s := purged) t.second (k := m.seq)
      (hlast ▸ t.atPurge.given m hm) (by rw [hempty]; exact fun _ hmem => by cases hmem)
      (hlost ▸ fun hmem => (t.atPurge.gone _ hmem).2 m hm rfl)
    exact habsent.2 m (hkept m hm hkeeps habsent.1) rfl
  · intro hcond
    refine ⟨fun m hm hkeeps hleft => ?_, fun hquiet => ?_⟩
    · have hzero : ¬ request.fromZero := fun hzero =>
        hcond ⟨hzero, List.ne_nil_of_mem hm⟩
      exact mem_after (purge_keeps hoption hpurge hzero hm hkeeps) hleft
    · have hall : (purged.after t.second).messages.Sublist t.stream.messages :=
        ((after_sublist fun content hmem => hquiet content (List.mem_append_right _ hmem)).trans
          hsub).trans (after_sublist fun content hmem => hquiet content (List.mem_append_left _ hmem))
      rw [length_gone hall t.stream.ordered, removedBetween]
      have := hall.length_le
      split <;> omega

/-- Three messages, and nothing happens meanwhile. -/
def ordersTrim : Trimming String where
  stream :=
    { messages := [⟨1, "a"⟩, ⟨2, "b"⟩, ⟨3, "c"⟩], last := 3, lost := []
      ordered := by decide
      given := by decide
      gone := by decide }
  first := []
  second := []

/-- The newest message stays, or those from a sequence on. -/
def keepNewest : TrimRequest := ⟨"ORDERS", .maxLen, 1, "", false⟩

def keepFrom (minID : String) : TrimRequest := ⟨"ORDERS", .minID, 0, minID, false⟩

/-- No request fails. -/
def quietTrim : TrimFaults := ⟨none, none, none, none, none⟩

/-- Two messages are gone when the newest is kept. -/
theorem trim_keeps_newest : ∃ left, trim ordersTrim keepNewest quietTrim = .ok (2, left) ∧
    KeepsItsBound ordersTrim keepNewest 2 left :=
  ⟨_, rfl, (trim_keeps_iff (show trim ordersTrim keepNewest quietTrim = _ from rfl)).mpr fun h => by
    cases h.1.1⟩

/-- Every message from sequence zero on is to stay, and none does. -/
theorem trim_from_zero : ∃ left, trim ordersTrim (keepFrom "0") quietTrim = .ok (3, left) ∧
    left.messages = [] ∧ ¬ KeepsItsBound ordersTrim (keepFrom "0") 3 left := by
  refine ⟨_, rfl, rfl, fun h => ?_⟩
  have hthere := h.kept ⟨1, "a"⟩ (by decide) ⟨0, by decide, Nat.zero_le _⟩ (by decide)
  cases hthere

end MqStudio.Driver.Nats
