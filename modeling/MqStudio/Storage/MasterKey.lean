import MqStudio.Lib.Base64
import MqStudio.Lib.Disk
import MqStudio.Lib.Threads
import MqStudio.Storage

/-!
# The Master Key

`internal/crypto`: the first process of an installation draws the master key and keeps it in
`secret.key`; every other one reads it there. The window and every MCP server start side by side,
each calls `getOrCreateKey` once, and the file is written through a descriptor, so that a process
may read it before all of it is there.

A key file that cannot be read as a key is never replaced. One that can is removed in one case: the
process that made it could not close it. Whoever read the key before the removal holds a key that
nobody will find again.

## Main definitions

- `parseKey`: what a process makes of the file.
- `advance`: one step of `getOrCreateKey`.
- `Undisturbed`, `OnMedium`: what a removal and a loss of power leave alone.

## Main results

- `parseKey_front`: a key that is not all there is not read as one.
- `one_key`: all processes hold the same key.
- `existing_key_stays`: a key file that is there is never written to, replaced or removed.
-/

namespace MqStudio.Storage.MasterKey

open MqStudio.Lib

/-! ## Keys -/

/-- 256 bits. -/
abbrev Key := { bytes : List UInt8 // bytes.length = 32 }

/-- What is written to the file. -/
def encodeKey (key : Key) : List Char := Base64.encode key.val

/-- What the file says: `base64.StdEncoding.DecodeString(strings.TrimSpace(string(data)))`, when it
    is 32 bytes. -/
def parseKey (data : List Char) : Option Key :=
  match Base64.decode (Words.trim isSpace data) with
  | none => none
  | some decoded => if h : decoded.length = 32 then some ⟨decoded, h⟩ else none

theorem length_encodeKey (key : Key) : (encodeKey key).length = 44 := by
  rw [encodeKey, Base64.length_encode, key.property]

/-- Nothing is trimmed from a key, or from the front of one. -/
theorem trim_take (key : Key) (n : Nat) :
    Words.trim isSpace ((encodeKey key).take n) = (encodeKey key).take n := by
  have hall : ∀ c ∈ Base64.alphabet ++ ['='], isSpace c = false :=
    List.forall_iff_forall_mem.mp (by decide)
  apply Words.trim_eq_self
  intro c hc
  apply hall
  rcases Base64.mem_encode (List.mem_of_mem_take hc) with hletter | rfl
  · exact List.mem_append_left _ hletter
  · exact List.mem_append_right _ List.mem_cons_self

/-- **A key is read back.** -/
theorem parseKey_encodeKey (key : Key) : parseKey (encodeKey key) = some key := by
  have hwhole : (encodeKey key).take (encodeKey key).length = encodeKey key := List.take_length
  have htrim := trim_take key (encodeKey key).length
  rw [hwhole] at htrim
  rw [parseKey, htrim, encodeKey, Base64.decode_encode]
  exact dif_pos key.property

/-- **A key that is not all there is not read as one.** -/
theorem parseKey_front (key : Key) {n : Nat} (h : n < (encodeKey key).length) :
    parseKey ((encodeKey key).take n) = none := by
  rw [parseKey, trim_take]
  cases hdecode : Base64.decode ((encodeKey key).take n) with
  | none => rfl
  | some decoded =>
    have hlength := Base64.length_decode hdecode
    rw [List.length_take, Nat.min_eq_left (Nat.le_of_lt h)] at hlength
    rw [length_encodeKey] at h
    exact dif_neg (by omega)

/-! ## Processes -/

/-- The disk, of which only `secret.key` matters, and the keys that processes have come to hold. -/
structure Shared where
  disk : Disk Unit (List Char)
  keys : List Key

/-- Where a call of `getOrCreateKey` stands. `removing` is `Close` and `Remove` after a write that
    failed, or `Remove` after a `Close` that did. -/
inductive Position where
  | reading
  | generating
  | opening (key : Key)
  | writing (key : Key) (f written : Nat)
  | closing (key : Key) (f : Nat)
  | removing (key : Key) (f written : Nat)

/-- How a step comes out. `WriteString` writes piece by piece. -/
inductive Choice where
  | goes
  | draws (key : Key)
  | writes (n : Nat)
  | fails
  | dies

/-- A process comes to hold a key. -/
def Shared.hold (s : Shared) (key : Key) : Shared := { s with keys := key :: s.keys }

/-- One piece of `WriteString`, and where it leads. -/
def writePiece (s : Shared) (key : Key) (f written n : Nat) : Shared × Option Position :=
  let written := written + n
  ({ s with disk := s.disk.write f ((encodeKey key).take written) },
    some (if written < (encodeKey key).length then .writing key f written else .closing key f))

/-- **One step of `getOrCreateKey`**. The file is opened with `O_EXCL`. -/
def advance (s : Shared) : Position → Choice → Option (Shared × Option Position)
  | _, .dies => some (s, none)
  | .reading, .goes =>
    match s.disk.lookup () with
    | none => some (s, some .generating)
    | some data =>
      match parseKey data with
      | none => some (s, none)
      | some key => some (s.hold key, none)
  | .generating, .draws key => some (s, some (.opening key))
  | .opening key, .goes =>
    -- a file that is there is an error, and no other attempt is made to read it
    if (s.disk.names ()).isSome then some (s, none)
    else some ({ s with disk := s.disk.create () [] }, some (.writing key s.disk.files.length 0))
  | .writing key f written, .writes n => some (writePiece s key f written n)
  | .writing key f written, .fails => some (s, some (.removing key f written))
  | .closing key _, .goes => some (s.hold key, none)
  | .closing key f, .fails => some (s, some (.removing key f (encodeKey key).length))
  | .removing _ _ _, .goes => some ({ s with disk := s.disk.remove () }, none)
  | .removing _ _ _, .fails => some (s, none)
  | .reading, .fails | .generating, .fails | .opening _, .fails => some (s, none)
  | _, _ => none

/-- The medium catches up with the name, or with a file. -/
inductive Around where
  | settles
  | flushes (f : Nat)

def around (s : Shared) : Around → Option Shared
  | .settles => some { s with disk := s.disk.settle () }
  | .flushes f => some { s with disk := s.disk.flush f }

/-- A loss of power, and what it leaves. -/
structure Outage where
  back : Nat
  torn : Nat → List Char

/-- Every process is gone. What was sealed under their keys is not. -/
def outage (s : Shared) (o : Outage) : Shared :=
  { s with disk := s.disk.lose (fun _ => o.back) o.torn }

/-- Every process of an installation. -/
def processes (initial : Disk Unit (List Char)) : Program Shared Position Choice Around where
  start s := s = ⟨initial, []⟩ ∧ initial.Settled
  arrives p := match p with
    | .reading => true
    | _ => false
  advance := advance
  environment := around
  holds _ := false
  excludes _ := false

/-- Every interleaving, over every loss of power. -/
def machine (initial : Disk Unit (List Char)) :
    Machine (Threads Shared Position) (Outage ⊕ Turn Position Choice Around) :=
  (processes initial).outages outage

/-- **The condition**: when a whole key is removed because its file could not be closed, no process
    holds it yet. -/
def Undisturbed : Program.Condition Shared Position Choice Around where
  thread s p a := match p, a with
    | .removing key _ written, .goes => written = (encodeKey key).length → s.keys = []
    | _, _ => True
  beside _ _ _ _ := True
  environment _ _ := True

/-- The key file is on the medium, under its name. -/
def OnMedium (s : Shared) : Prop :=
  (∀ entry ∈ s.disk.earlier (), entry = s.disk.names ()) ∧
    ∀ f ∈ s.disk.names (), ∀ file ∈ s.disk.files[f]?, file.flushed = true

/-- Power is lost before any process holds a key, or when the medium has the file. -/
def Safely (s : Shared) (_ : Outage) : Prop := s.keys = [] ∨ OnMedium s

instance (s : Shared) (p : Position) (a : Choice) : Decidable (Undisturbed.thread s p a) := by
  unfold Undisturbed
  dsimp only
  split <;> infer_instance

instance (s : Shared) (p : Position) (a : Choice) (q : Position) :
    Decidable (Undisturbed.beside s p a q) := inferInstanceAs (Decidable True)

instance (s : Shared) (e : Around) : Decidable (Undisturbed.environment s e) :=
  inferInstanceAs (Decidable True)

instance (s : Shared) (o : Outage) : Decidable (Safely s o) :=
  inferInstanceAs (Decidable (_ ∨ (∀ entry ∈ s.disk.earlier (), entry = s.disk.names ()) ∧
    ∀ f ∈ s.disk.names (), ∀ file ∈ s.disk.files[f]?, file.flushed = true))

/-! ## Invariants -/

/-- **Every key that a process holds is the one in the file.** -/
def Agreed (s : Shared) : Prop :=
  ∀ key ∈ s.keys, ∃ data, s.disk.lookup () = some data ∧ parseKey data = some key

/-- The name stands for this file, which holds so much of the key. -/
def Holds (d : Disk Unit (List Char)) (key : Key) (f written : Nat) : Prop :=
  d.names () = some f ∧ ∃ file, d.files[f]? = some file ∧
    file.content = (encodeKey key).take written

/-- The file a call makes, and how much of its key is there. -/
def Position.made : Position → Option (Key × Nat × Nat)
  | .writing key f written => some (key, f, written)
  | .closing key f => some (key, f, (encodeKey key).length)
  | .removing key f written => some (key, f, written)
  | _ => none

/-- What a call relies on. One that still writes has not written everything. -/
structure Underway (s : Shared) (p : Position) : Prop where
  made : ∀ key f written, p.made = some (key, f, written) → Holds s.disk key f written
  most : ∀ key f written, p.made = some (key, f, written) → written ≤ (encodeKey key).length
  rest : ∀ key f written, p = .writing key f written → written < (encodeKey key).length

/-- One call makes the file. -/
def Apart (p q : Position) : Prop := p.made = none ∨ q.made = none

section Facts

variable {d : Disk Unit (List Char)} {s : Shared} {key : Key} {f written : Nat} {p : Position}

theorem Holds.lookup (h : Holds d key f written) :
    d.lookup () = some ((encodeKey key).take written) := by
  obtain ⟨hname, file, hfile, hcontent⟩ := h
  simp [Disk.lookup, Disk.contentOf, hname, hfile, hcontent]

/-- Nobody holds a key while the file holds less than one. -/
theorem Agreed.keys_nil (hs : Agreed s) (h : Holds s.disk key f written)
    (hless : written < (encodeKey key).length) : s.keys = [] := by
  apply List.eq_nil_iff_forall_not_mem.mpr
  intro held hheld
  obtain ⟨data, hdata, hparse⟩ := hs held hheld
  rw [h.lookup] at hdata
  cases hdata
  rw [parseKey_front key hless] at hparse
  cases hparse

/-- Nobody holds a key while there is no file. -/
theorem Agreed.keys_nil_of_none (hs : Agreed s) (h : s.disk.lookup () = none) : s.keys = [] := by
  apply List.eq_nil_iff_forall_not_mem.mpr
  intro held hheld
  obtain ⟨data, hdata, -⟩ := hs held hheld
  rw [h] at hdata
  cases hdata

theorem agreed_of_nil (h : s.keys = []) : Agreed s := by
  intro key hkey
  rw [h] at hkey
  cases hkey

/-- A process may take the key that is there. -/
theorem Agreed.hold (hs : Agreed s) {data : List Char} (hdata : s.disk.lookup () = some data)
    (hparse : parseKey data = some key) : Agreed (s.hold key) := by
  intro held hheld
  rcases List.mem_cons.mp hheld with rfl | hheld
  · exact ⟨data, hdata, hparse⟩
  · exact hs held hheld

/-- What is not the content of the file changes nothing. -/
theorem Agreed.congr (hs : Agreed s) {t : Shared} (hkeys : t.keys = s.keys)
    (hlookup : t.disk.lookup () = s.disk.lookup ()) : Agreed t := by
  intro key hkey
  rw [hlookup]
  exact hs key (hkeys ▸ hkey)

theorem Underway.idle (hmade : p.made = none) : Underway s p where
  made key f written h := by
    rw [hmade] at h
    cases h
  most key f written h := by
    rw [hmade] at h
    cases h
  rest key f written h := by
    subst h
    cases hmade

/-- A piece of the key reaches the file. -/
theorem Holds.write (h : Holds d key f written) (n : Nat) :
    Holds (d.write f ((encodeKey key).take n)) key f n := by
  obtain ⟨hname, file, hfile, -⟩ := h
  exact ⟨hname, _, Disk.files_write_self hfile _, rfl⟩

theorem Holds.settle (h : Holds d key f written) : Holds (d.settle ()) key f written := h

theorem Holds.flush (h : Holds d key f written) (g : Nat) : Holds (d.flush g) key f written := by
  obtain ⟨hname, file, hfile, hcontent⟩ := h
  by_cases hg : f = g
  · subst hg
    exact ⟨hname, _, Disk.files_flush_self hfile, hcontent⟩
  · exact ⟨hname, file, (Disk.files_flush_ne hg).trans hfile, hcontent⟩

theorem lookup_flush (d : Disk Unit (List Char)) (g : Nat) :
    (d.flush g).lookup () = d.lookup () := by
  unfold Disk.lookup
  cases hname : d.names () with
  | none => simp [Disk.flush, Disk.contentOf, hname]
  | some f =>
    have hnames : (d.flush g).names () = some f := hname
    rw [hnames]
    simp only [Disk.contentOf]
    cases hfile : d.files[f]? with
    | none =>
      have hnone : (d.flush g).files[f]? = none := by
        simpa [Disk.flush] using hfile
      rw [hnone]
    | some file =>
      by_cases hg : f = g
      · subst hg
        rw [Disk.files_flush_self hfile]
        rfl
      · rw [Disk.files_flush_ne hg, hfile]

end Facts

/-! ## What a step can do -/

/-- Every way a call takes a step. -/
inductive Did (s : Shared) : Position → Choice → Shared × Option Position → Prop where
  | stopped (p : Position) (a : Choice) : Did s p a (s, none)
  | found (data : List Char) (key : Key) (hdata : s.disk.lookup () = some data)
      (hparse : parseKey data = some key) : Did s .reading .goes (s.hold key, none)
  | missed : Did s .reading .goes (s, some .generating)
  | drew (key : Key) : Did s .generating (.draws key) (s, some (.opening key))
  | created (key : Key) (hfree : s.disk.names () = none) :
      Did s (.opening key) .goes
        ({ s with disk := s.disk.create () [] }, some (.writing key s.disk.files.length 0))
  | wrote (key : Key) (f written n : Nat) :
      Did s (.writing key f written) (.writes n) (writePiece s key f written n)
  | gaveUp (key : Key) (f written : Nat) :
      Did s (.writing key f written) .fails (s, some (.removing key f written))
  | closed (key : Key) (f : Nat) : Did s (.closing key f) .goes (s.hold key, none)
  | unclosed (key : Key) (f : Nat) :
      Did s (.closing key f) .fails (s, some (.removing key f (encodeKey key).length))
  | removed (key : Key) (f written : Nat) :
      Did s (.removing key f written) .goes ({ s with disk := s.disk.remove () }, none)

theorem advance_did {s : Shared} {p : Position} {a : Choice} {next : Shared × Option Position}
    (h : advance s p a = some next) : Did s p a next := by
  cases a with
  | dies =>
    obtain rfl : (s, none) = next := by
      cases p <;> exact Option.some.inj h
    exact .stopped p .dies
  | goes =>
    cases p with
    | reading =>
      simp only [advance] at h
      split at h
      · cases h
        exact .missed
      · rename_i data hdata
        split at h
        · cases h
          exact .stopped _ _
        · rename_i key hparse
          cases h
          exact .found data key hdata hparse
    | opening key =>
      simp only [advance] at h
      split at h
      · cases h
        exact .stopped _ _
      · rename_i hfree
        cases h
        exact .created key (by simpa using hfree)
    | closing key f =>
      cases h
      exact .closed key f
    | removing key f written =>
      cases h
      exact .removed key f written
    | generating | writing => cases h
  | draws key =>
    cases p with
    | generating =>
      cases h
      exact .drew key
    | _ => cases h
  | writes n =>
    cases p with
    | writing key f written =>
      cases h
      exact .wrote key f written n
    | _ => cases h
  | fails =>
    cases p with
    | writing key f written =>
      cases h
      exact .gaveUp key f written
    | closing key f =>
      cases h
      exact .unclosed key f
    | reading | generating | opening | removing =>
      cases h
      exact .stopped _ _

/-! ## Every interleaving -/

/-- A step keeps the agreement, and what the call that takes it relies on. -/
theorem own_step {s : Shared} {p : Position} {a : Choice} {next : Shared × Option Position}
    (hs : Agreed s) (hp : Underway s p) (hok : Undisturbed.thread s p a) (hdid : Did s p a next) :
    Agreed next.1 ∧ ∀ q, next.2 = some q → Underway next.1 q := by
  cases hdid with
  | stopped p a => exact ⟨hs, nowhere⟩
  | found data key hdata hparse => exact ⟨hs.hold hdata hparse, nowhere⟩
  | missed =>
    refine ⟨hs, ?_⟩
    rintro q ⟨⟩
    exact .idle rfl
  | drew key =>
    refine ⟨hs, ?_⟩
    rintro q ⟨⟩
    exact .idle rfl
  | created key hfree =>
    have hnone : s.disk.lookup () = none := by simp [Disk.lookup, Disk.contentOf, hfree]
    refine ⟨agreed_of_nil (hs.keys_nil_of_none hnone), ?_⟩
    rintro q ⟨⟩
    refine ⟨?_, ?_, ?_⟩
    · rintro key' f written ⟨⟩
      exact ⟨by simp [Disk.create, Disk.enter], _, Disk.files_create_new s.disk () [], rfl⟩
    · rintro key' f written ⟨⟩
      exact Nat.zero_le _
    · rintro key' f written ⟨⟩
      rw [length_encodeKey]
      omega
  | wrote key f written n =>
    have hholds := hp.made key f written rfl
    have hless := hp.rest key f written rfl
    -- what is there so far is not read as a key, so nobody holds one that changes
    refine ⟨agreed_of_nil (hs.keys_nil hholds hless), ?_⟩
    intro q hq
    simp only [writePiece, Option.some.injEq] at hq
    have hwritten := hholds.write (written + n)
    split at hq
    · rename_i hmore
      subst hq
      refine ⟨?_, ?_, ?_⟩
      · rintro key' f' written' ⟨⟩
        exact hwritten
      · rintro key' f' written' ⟨⟩
        exact Nat.le_of_lt hmore
      · rintro key' f' written' ⟨⟩
        exact hmore
    · rename_i hall
      subst hq
      refine ⟨?_, ?_, fun _ _ _ h => by cases h⟩
      · rintro key' f' written' ⟨⟩
        have hwhole : (encodeKey key).take (written + n) =
            (encodeKey key).take (encodeKey key).length := by
          rw [List.take_length, List.take_of_length_le (Nat.le_of_not_lt hall)]
        simp only [writePiece, hwhole]
        exact hholds.write _
      · rintro key' f' written' ⟨⟩
        exact Nat.le_refl _
  | gaveUp key f written =>
    refine ⟨hs, ?_⟩
    rintro q ⟨⟩
    exact ⟨hp.made, hp.most, fun _ _ _ h => by cases h⟩
  | closed key f =>
    -- the key is all there, so whoever reads the file comes to hold the same
    have hlookup := (hp.made key f _ rfl).lookup
    rw [List.take_length] at hlookup
    exact ⟨hs.hold hlookup (parseKey_encodeKey key), nowhere⟩
  | unclosed key f =>
    refine ⟨hs, ?_⟩
    rintro q ⟨⟩
    exact ⟨hp.made, hp.most, fun _ _ _ h => by cases h⟩
  | removed key f written =>
    refine ⟨agreed_of_nil ?_, nowhere⟩
    show s.keys = []
    -- a whole key, which nobody holds yet, or the front of one
    rcases Nat.lt_or_eq_of_le (hp.most key f written rfl) with hless | hwhole
    · exact hs.keys_nil (hp.made key f written rfl) hless
    · exact hok hwhole

/-- It leaves every other call what that one relies on: while one makes the file, no other does. -/
theorem other_step {s : Shared} {p q : Position} {a : Choice} {next : Shared × Option Position}
    (hp : Underway s p) (hdid : Did s p a next) (hq : Underway s q) (hapart : Apart p q) :
    Underway next.1 q ∧ ∀ r, next.2 = some r → Apart r q := by
  cases hmade : q.made with
  | none => exact ⟨.idle hmade, fun _ _ => .inr hmade⟩
  | some x =>
    obtain ⟨key', f', written'⟩ := x
    -- the other call makes the file, so this one does not
    have hidle : p.made = none := hapart.resolve_right (by simp [hmade])
    have hnamed := (hq.made key' f' written' hmade).1
    cases hdid with
    | stopped p a => exact ⟨hq, nowhere⟩
    | found data key => exact ⟨⟨hq.made, hq.most, hq.rest⟩, nowhere⟩
    | missed | drew =>
      refine ⟨hq, ?_⟩
      rintro r ⟨⟩
      exact .inl rfl
    | created key hfree =>
      rw [hfree] at hnamed
      cases hnamed
    | wrote | gaveUp | closed | unclosed | removed => cases hidle

/-- **Every step of every call keeps the agreement.** -/
theorem invariants (initial : Disk Unit (List Char)) :
    (processes initial).InvariantsWhen Undisturbed Agreed Underway Apart where
  symm p q h := h.symm
  start s h := agreed_of_nil (by rw [h.1])
  arrive s p _ harrives := by
    cases p with
    | reading => exact ⟨.idle rfl, fun q _ => .inl rfl⟩
    | _ => cases harrives
  own s p a next hs hp hadvance hok := own_step hs hp hok (advance_did hadvance)
  other s p a next q _ hp hadvance _ hq hapart _ _ :=
    other_step hp (advance_did hadvance) hq hapart
  environment s e t hs henvironment _ := by
    cases e with
    | settles =>
      cases henvironment
      exact ⟨hs, fun p hp => ⟨hp.made, hp.most, hp.rest⟩⟩
    | flushes g =>
      cases henvironment
      refine ⟨hs.congr rfl (lookup_flush s.disk g), fun p hp => ⟨?_, hp.most, hp.rest⟩⟩
      intro key f written h
      exact (hp.made key f written h).flush g

/-- A loss of power leaves what is on the medium. -/
theorem OnMedium.lookup_lose {s : Shared} (h : OnMedium s) (o : Outage) :
    (s.disk.lose (fun _ => o.back) o.torn).lookup () = s.disk.lookup () := by
  have hname : (s.disk.lose (fun _ => o.back) o.torn).names () = s.disk.names () := by
    rcases List.mem_cons.mp (pickBack_mem o.back (s.disk.names ()) (s.disk.earlier ())) with
      hnow | hearlier
    · exact hnow
    · exact h.1 _ hearlier
  unfold Disk.lookup
  rw [hname]
  cases hnow : s.disk.names () with
  | none => rfl
  | some f =>
    simp only [Disk.contentOf]
    cases hfile : s.disk.files[f]? with
    | none =>
      have hnone : (s.disk.lose (fun _ => o.back) o.torn).files[f]? = none := by
        simpa [Disk.lose] using hfile
      rw [hnone]
    | some file =>
      rw [Disk.files_lose hfile (h.2 f hnow file hfile)]

/-- **All processes hold the same key**, and it is the one in the file: in every interleaving, with
    failures, deaths of processes and losses of power, as long as a key that some process holds is
    neither removed for a failed `Close` nor lost from the medium. -/
theorem one_key {initial : Disk Unit (List Char)} {s : Threads Shared Position}
    (hs : (machine initial).Reachable (Undisturbed.OkOutages Safely) s) :
    (∀ k₁ ∈ s.shared.keys, ∀ k₂ ∈ s.shared.keys, k₁ = k₂) ∧
      ∀ k ∈ s.shared.keys, (s.shared.disk.lookup ()).bind parseKey = some k := by
  have hagreed : Agreed s.shared := by
    have hkept := (invariants initial).reachableOutages (fun s o hs hok => ?_) hs
    · exact hkept.shared
    · rcases hok with hnil | hmedium
      · exact agreed_of_nil hnil
      · exact hs.congr rfl (hmedium.lookup_lose o)
  have hread : ∀ k ∈ s.shared.keys, (s.shared.disk.lookup ()).bind parseKey = some k := by
    intro k hk
    obtain ⟨data, hdata, hparse⟩ := hagreed k hk
    rw [hdata]
    exact hparse
  refine ⟨fun k₁ h₁ k₂ h₂ => ?_, hread⟩
  have hsame := hread k₁ h₁
  rw [hread k₂ h₂] at hsame
  exact (Option.some.inj hsame).symm

/-! ## A key file that is there -/

/-- The file is there as it was, and every key that was read is its. -/
structure Kept (f : Nat) (file : File (List Char)) (s : Shared) : Prop where
  now : s.disk.names () = some f
  earlier : ∀ entry ∈ s.disk.earlier (), entry = some f
  here : s.disk.files[f]? = some file
  flushed : file.flushed = true
  keys : ∀ key ∈ s.keys, parseKey file.content = some key

theorem Kept.lookup {f : Nat} {file : File (List Char)} {s : Shared} (h : Kept f file s) :
    s.disk.lookup () = some file.content := by
  simp [Disk.lookup, Disk.contentOf, h.now, h.here]

/-- Nobody makes a file where there is one. -/
theorem kept_invariants {initial : Disk Unit (List Char)} {f : Nat} {file : File (List Char)}
    (hname : initial.names () = some f) (hfile : initial.files[f]? = some file) :
    (processes initial).Invariants (Kept f file) (fun _ p => p.made = none) (fun _ _ => True) where
  symm _ _ _ := trivial
  start s h := by
    obtain ⟨rfl, hsettled⟩ := h
    refine ⟨hname, fun entry hentry => ?_, hfile, ?_, fun _ hk => by cases hk⟩
    · rw [hsettled.caughtUp ()] at hentry
      cases hentry
    · exact hsettled.flushed file (List.mem_of_getElem? hfile)
  arrive s p _ harrives := by
    cases p with
    | reading => exact ⟨rfl, fun _ _ => trivial⟩
    | _ => cases harrives
  own s p a next hs hp hadvance := by
    cases advance_did hadvance with
    | stopped => exact ⟨hs, nowhere⟩
    | found data key hdata hparse =>
      refine ⟨⟨hs.now, hs.earlier, hs.here, hs.flushed, fun held hheld => ?_⟩, nowhere⟩
      rw [hs.lookup] at hdata
      cases hdata
      rcases List.mem_cons.mp hheld with rfl | hheld
      · exact hparse
      · exact hs.keys held hheld
    | missed | drew =>
      refine ⟨hs, ?_⟩
      rintro q ⟨⟩
      rfl
    | created key hfree =>
      rw [hs.now] at hfree
      cases hfree
    | wrote | gaveUp | closed | unclosed | removed => cases hp
  other s p a next q _ _ _ hq _ _ := ⟨hq, fun _ _ => trivial⟩
  environment s e t hs henvironment := by
    cases e with
    | settles =>
      cases henvironment
      refine ⟨⟨hs.now, fun entry hentry => ?_, hs.here, hs.flushed, hs.keys⟩, fun _ hp => hp⟩
      simp [Disk.settle] at hentry
    | flushes g =>
      cases henvironment
      exact ⟨⟨hs.now, hs.earlier, Disk.files_flush_flushed hs.here hs.flushed, hs.flushed,
        hs.keys⟩, fun _ hp => hp⟩

/-- **A key file that is there stays what it is**, whether it can be read as a key or not, in every
    interleaving and over every loss of power. Only its key is ever held. -/
theorem existing_key_stays {initial : Disk Unit (List Char)} {f : Nat}
    (hname : initial.names () = some f) {s : Threads Shared Position}
    (hs : (machine initial).Reachable Machine.Always s) (hsettled : initial.Settled) :
    s.shared.disk.lookup () = initial.lookup () ∧
      ∀ k ∈ s.shared.keys, (initial.lookup ()).bind parseKey = some k := by
  have hf := hsettled.found () f hname
  have hfile : initial.files[f]? = some initial.files[f] := List.getElem?_eq_getElem hf
  have hlookup : initial.lookup () = some initial.files[f].content := by
    simp [Disk.lookup, Disk.contentOf, hname, hfile]
  have hkept := ((kept_invariants hname hfile).reachableOutages (fun s o hs => ?_) hs).shared
  · rw [hlookup]
    exact ⟨hkept.lookup, hkept.keys⟩
  · refine ⟨?_, (fun _ h => by cases h), Disk.files_lose hs.here hs.flushed _ _, hs.flushed, hs.keys⟩
    rcases List.mem_cons.mp (pickBack_mem o.back (s.disk.names ()) (s.disk.earlier ())) with
      hnow | hearlier
    · exact hnow.trans hs.now
    · exact hs.earlier _ hearlier

/-! ## First runs -/

/-- A key. -/
def someKey : Key := ⟨List.replicate 32 7, rfl⟩

/-- An installation without a key file. -/
def noFile : Disk Unit (List Char) := ⟨[], fun _ => none, fun _ => []⟩

/-- One with a file that is no key. -/
def badFile : Disk Unit (List Char) := ⟨[⟨"damaged".toList, true⟩], fun _ => some 0, fun _ => []⟩

theorem noFile_settled : noFile.Settled where
  flushed file hfile := by cases hfile
  caughtUp _ := rfl
  found name f hname := by cases hname

theorem badFile_settled : badFile.Settled where
  flushed file hfile := by
    obtain rfl : file = ⟨"damaged".toList, true⟩ := by simpa [badFile] using hfile
    rfl
  caughtUp _ := rfl
  found name f hname := by
    cases hname
    exact Nat.one_pos

/-- Three processes: the second reads the file while the first still writes it, the third when it
    is done. -/
def firstRun : List (Outage ⊕ Turn Position Choice Around) :=
  [.inr (.arrive 0 .reading), .inr (.thread 0 .goes), .inr (.thread 0 (.draws someKey)),
    .inr (.thread 0 .goes), .inr (.thread 0 (.writes 20)), .inr (.arrive 1 .reading),
    .inr (.thread 1 .goes), .inr (.thread 0 (.writes 24)), .inr (.thread 0 .goes),
    .inr (.arrive 2 .reading), .inr (.thread 2 .goes)]

/-- The first and the third hold the key; the second has none. -/
theorem one_key_firstRun :
    let s := (machine noFile).endOf ⟨⟨noFile, []⟩, ∅⟩ firstRun
    s.shared.keys = [someKey, someKey] ∧
      (s.shared.disk.lookup ()).bind parseKey = some someKey := by
  intro s
  have hs : (machine noFile).Reachable (Undisturbed.OkOutages Safely) s :=
    Machine.Reachable.endOf (.start ⟨⟨rfl, noFile_settled⟩, rfl⟩) (by decide +kernel)
  have hkeys : s.shared.keys = [someKey, someKey] := by decide +kernel
  exact ⟨hkeys, (one_key hs).2 someKey (by rw [hkeys]; exact List.mem_cons_self)⟩

/-- Two processes find a file that is no key, and leave it alone. -/
theorem existing_key_stays_damaged :
    let s := (machine badFile).endOf ⟨⟨badFile, []⟩, ∅⟩
      [.inr (.arrive 0 .reading), .inr (.arrive 1 .reading), .inr (.thread 0 .goes),
        .inr (.thread 1 .goes), .inl ⟨3, fun _ => []⟩]
    s.shared.disk.lookup () = some "damaged".toList ∧ s.shared.keys = [] := by
  intro s
  have hs : (machine badFile).Reachable Machine.Always s :=
    Machine.Reachable.endOf (.start ⟨⟨rfl, badFile_settled⟩, rfl⟩) (Machine.permitted_always _ _ _)
  obtain ⟨hlookup, hkeys⟩ := existing_key_stays rfl hs badFile_settled
  have hdamaged : (badFile.lookup ()).bind parseKey = none := by decide +kernel
  refine ⟨hlookup, List.eq_nil_iff_forall_not_mem.mpr fun k hk => ?_⟩
  rw [hdamaged] at hkeys
  cases hkeys k hk

end MqStudio.Storage.MasterKey
