import Mathlib.Data.List.Infix
import MqStudio.Lib.Threads

/-!
# The File of the Audit Log

`internal/agent/audit`: `Append` opens the log, writes one line at its end, syncs it and closes it.
The window and every MCP server append to one file, each call by itself, and the log may be put
aside under another name at any moment. The mutex of a journal is left out: it only keeps the calls
of one process from each other.

`File.Write` goes on until all of the line is written. What is written at once lands at the end of
the file wherever that is by then, so a line that is written in pieces may be broken by another one.

## Main definitions

- `advance`: one step of `Append`.
- `Unbroken`, `Whole`: the lines are not broken by others; they are written at once.

## Main results

- `acknowledged_stays`: a record that `Append` returned nil for stays where it was written, on the
  medium.
- `log_reads_back`: the log is read back as records, line by line.
-/

namespace MqStudio.Agent.Journal

open MqStudio.Lib

/-! ## Files -/

/-- What the log holds, and how much of it is on the medium. -/
structure LogFile where
  content : List Char
  synced : Nat
  deriving DecidableEq

namespace LogFile

/-- `Write`, of a file that was opened with `O_APPEND`. -/
def append (file : LogFile) (text : List Char) : LogFile :=
  { file with content := file.content ++ text }

/-- `Sync` -/
def sync (file : LogFile) : LogFile := { file with synced := file.content.length }

/-- A loss of power. What was not on the medium is anything. -/
def lose (file : LogFile) (torn : List Char) : LogFile :=
  if file.content.length ≤ file.synced then file
  else LogFile.sync ⟨file.content.take file.synced ++ torn, 0⟩

end LogFile

/-- A text stands at a place of another. -/
def At (text content : List Char) (start : Nat) : Prop := text <+: content.drop start

section At

variable {text content : List Char} {start : Nat}

theorem At.append (h : At text content start) (more : List Char) :
    At text (content ++ more) start := by
  rw [At, List.drop_append]
  exact h.trans (List.prefix_append _ _)

theorem At.take (h : At text content start) {n : Nat} (hn : start + text.length ≤ n) :
    At text (content.take n) start := by
  rw [At, List.drop_take, List.prefix_take_iff]
  exact ⟨h, by omega⟩

theorem At.lt (h : At text content start) (htext : text ≠ []) : start < content.length := by
  have hlength := h.length_le
  have hpos := List.length_pos_iff.mpr htext
  rw [List.length_drop] at hlength
  omega

theorem at_end (content text : List Char) : At text (content ++ text) content.length := by
  rw [At, List.drop_left]

/-- What is written next to a text at the end goes on with it. -/
theorem At.go_on {whole : List Char} {written n : Nat} (h : At (whole.take written) content start)
    (hwritten : written ≤ whole.length) (hend : content.length = start + written) :
    At (whole.take (written + n)) (content ++ (whole.drop written).take n) start := by
  have hlength : (whole.take written).length = (content.drop start).length := by
    rw [List.length_take, List.length_drop]
    omega
  rw [At, List.drop_append_of_le_length (by omega), ← h.eq_of_length hlength, List.take_add]

/-- **A line where one begins is read as one.** -/
theorem At.mem_splitOn {line : List Char} (h : At (line ++ ['\n']) content start)
    (hline : '\n' ∉ line) (hbegins : ∀ c ∈ (content.take start).getLast?, c = '\n') :
    line ∈ content.splitOn '\n' := by
  obtain ⟨after, hafter⟩ := h
  have hrest : (content.drop start).splitOn '\n' = line :: after.splitOn '\n' := by
    rw [← hafter, List.append_assoc, List.singleton_append,
      List.splitOn_append_cons_self_of_not_mem hline]
  have hcontent := List.take_append_drop start content
  rcases List.eq_nil_or_concat (content.take start) with hnone | ⟨before, c, hbefore⟩
  · rw [hnone, List.nil_append] at hcontent
    rw [← hcontent, hrest]
    exact List.mem_cons_self
  · obtain rfl : c = '\n' := hbegins c (by simp [hbefore])
    rw [hbefore, List.concat_eq_append, List.append_assoc, List.singleton_append] at hcontent
    rw [← hcontent, List.splitOn_append_cons_self, hrest]
    exact List.mem_append_right _ List.mem_cons_self

end At

/-- Lines that are all ended are read one by one. -/
theorem splitOn_flatMap {lines : List (List Char)} (h : ∀ line ∈ lines, '\n' ∉ line) :
    (lines.flatMap (· ++ ['\n'])).splitOn '\n' = lines ++ [[]] := by
  induction lines with
  | nil => rfl
  | cons line lines ih =>
    rw [List.flatMap_cons, List.append_assoc, List.singleton_append,
      List.splitOn_append_cons_self_of_not_mem (h line List.mem_cons_self),
      ih fun other hother => h other (List.mem_cons_of_mem line hother), List.cons_append]

/-! ## Processes -/

/-- A record as it is written: `json.Marshal` leaves no line feed in it. -/
structure Line (isRecord : List Char → Prop) where
  text : List Char
  record : isRecord text
  unbroken : '\n' ∉ text

variable {isRecord : List Char → Prop}

/-- `append(line, '\n')` -/
def Line.encode (line : Line isRecord) : List Char := line.text ++ ['\n']

/-- Where a line begins. -/
structure Place where
  file : Nat
  start : Nat
  deriving DecidableEq

/-- The logs by number, which of them has the name and whether the medium has that too, which ones
    were put aside, and what `Append` returned nil for. -/
structure Shared (isRecord : List Char → Prop) where
  files : List LogFile
  name : Option Nat
  settled : Bool
  aside : List Nat
  returned : List (Place × Line isRecord)

/-- Where a call of `Append` stands. `continuing` is `Write` after a piece that was not all. -/
inductive Position (isRecord : List Char → Prop) where
  | opening (line : Line isRecord)
  | writing (line : Line isRecord) (f : Nat)
  | continuing (line : Line isRecord) (place : Place) (written : Nat)
  | syncing (line : Line isRecord) (place : Place)
  | closing (line : Line isRecord) (place : Place)

/-- How a step comes out. -/
inductive Choice where
  | goes
  | writes (n : Nat)
  | fails
  | dies

namespace Shared

variable (s : Shared isRecord)

def append (f : Nat) (text : List Char) : Shared isRecord :=
  { s with files := s.files.modify f fun file => file.append text }

def sync (f : Nat) : Shared isRecord := { s with files := s.files.modify f LogFile.sync }

/-- A log of its own under the name. -/
def create : Shared isRecord :=
  { s with files := s.files ++ [⟨[], 0⟩], name := some s.files.length, settled := false }

end Shared

/-- One piece of `Write`, and where it leads. -/
def writePiece (s : Shared isRecord) (line : Line isRecord) (place : Place) (written n : Nat) :
    Option (Shared isRecord × Option (Position isRecord)) :=
  if n = 0 ∨ line.encode.length < written + n then none
  else some (s.append place.file ((line.encode.drop written).take n),
    some (if written + n = line.encode.length then .syncing line place
      else .continuing line place (written + n)))

/-- **One step of `Append`**, which is opened with `O_APPEND|O_CREATE|O_WRONLY`. -/
def advance (s : Shared isRecord) :
    Position isRecord → Choice → Option (Shared isRecord × Option (Position isRecord))
  | _, .fails | _, .dies => some (s, none)
  | .opening line, .goes =>
    match s.name with
    | some f => some (s, some (.writing line f))
    | none => some (s.create, some (.writing line s.files.length))
  -- with `O_APPEND` the first piece goes to where the file ends by then
  | .writing line f, .writes n =>
    match s.files[f]? with
    | none => none
    | some file => writePiece s line ⟨f, file.content.length⟩ 0 n
  | .continuing line place written, .writes n => writePiece s line place written n
  | .syncing line place, .goes => some (s.sync place.file, some (.closing line place))
  | .closing line place, .goes => some ({ s with returned := (place, line) :: s.returned }, none)
  | _, _ => none

/-- The medium catches up with the name, or somebody puts the log aside. -/
inductive Around where
  | settles
  | movesAside

def around (s : Shared isRecord) : Around → Option (Shared isRecord)
  | .settles => some { s with settled := true }
  | .movesAside =>
    match s.name with
    | none => none
    | some f => some { s with name := none, settled := true, aside := f :: s.aside }

/-- A loss of power, and what it leaves. -/
structure Outage where
  forgets : Bool
  torn : Nat → List Char

/-- Every process is gone, and the name where the medium did not have it. -/
def outage (s : Shared isRecord) (o : Outage) : Shared isRecord :=
  { s with
    files := s.files.mapIdx fun f file => file.lose (o.torn f)
    name := if o.forgets && !s.settled then none else s.name
    settled := true }

/-- What the first process finds. -/
def found (initial : Option (List Char)) : Shared isRecord where
  files := initial.toList.map fun content => ⟨content, content.length⟩
  name := initial.map fun _ => 0
  settled := true
  aside := []
  returned := []

/-- Every process that appends. -/
def processes (isRecord : List Char → Prop) (initial : Option (List Char)) :
    Program (Shared isRecord) (Position isRecord) Choice Around where
  start s := s = found initial
  arrives p := match p with
    | .opening _ => true
    | _ => false
  advance := advance
  environment := around
  holds _ := false
  excludes _ := false

/-- Every interleaving, over every loss of power. -/
def machine (isRecord : List Char → Prop) (initial : Option (List Char)) :
    Machine (Threads (Shared isRecord) (Position isRecord))
      (Outage ⊕ Turn (Position isRecord) Choice Around) :=
  (processes isRecord initial).outages outage

/-- **A condition**: nothing is appended between two pieces of a line. -/
def Unbroken : Program.Condition (Shared isRecord) (Position isRecord) Choice Around where
  thread s p a := match p, a with
    | .continuing _ place written, .writes _ =>
      ∀ file ∈ s.files[place.file]?, file.content.length = place.start + written
    | _, _ => True
  beside _ _ _ _ := True
  environment _ _ := True

/-- Power is lost before a record is acknowledged in a new log, or when the medium has its name. -/
def Safely (s : Shared isRecord) (o : Outage) : Prop :=
  o.forgets = true → s.settled = true ∨ ∀ f ∈ s.name, ∀ r ∈ s.returned, r.1.file ≠ f

/-- **A condition**: a line is written at once, or nothing of it. -/
def Whole : Program.Condition (Shared isRecord) (Position isRecord) Choice Around where
  thread _ p a := match p, a with
    | .writing line _, .writes n => n = line.encode.length
    | _, _ => True
  beside _ _ _ _ := True
  environment _ _ := True

/-- Power is lost while the medium has all of the logs. -/
def Calmly (s : Shared isRecord) (_ : Outage) : Prop :=
  ∀ file ∈ s.files, file.content.length ≤ file.synced

instance (s : Shared isRecord) (p : Position isRecord) (a : Choice) :
    Decidable (Unbroken.thread s p a) := by
  unfold Unbroken
  dsimp only
  split <;> infer_instance

instance (s : Shared isRecord) (p : Position isRecord) (a : Choice) (q : Position isRecord) :
    Decidable (Unbroken.beside s p a q) := inferInstanceAs (Decidable True)

instance (s : Shared isRecord) (e : Around) : Decidable (Unbroken.environment s e) :=
  inferInstanceAs (Decidable True)

instance (s : Shared isRecord) (o : Outage) : Decidable (Safely s o) :=
  inferInstanceAs (Decidable (_ → _ ∨ ∀ f ∈ s.name, ∀ r ∈ s.returned, r.1.file ≠ f))

instance (s : Shared isRecord) (p : Position isRecord) (a : Choice) :
    Decidable (Whole.thread s p a) := by
  unfold Whole
  dsimp only
  split <;> infer_instance

instance (s : Shared isRecord) (p : Position isRecord) (a : Choice) (q : Position isRecord) :
    Decidable (Whole.beside s p a q) := inferInstanceAs (Decidable True)

instance (s : Shared isRecord) (e : Around) : Decidable (Whole.environment s e) :=
  inferInstanceAs (Decidable True)

instance (s : Shared isRecord) (o : Outage) : Decidable (Calmly s o) :=
  inferInstanceAs (Decidable (∀ file ∈ s.files, file.content.length ≤ file.synced))

/-! ## What a step can do -/

/-- A line begins at the end of the file. -/
def Begins (s : Shared isRecord) (line : Line isRecord) (place : Place) (written : Nat)
    (p : Position isRecord) : Prop :=
  p = .writing line place.file ∧ written = 0 ∧
    ∃ file, s.files[place.file]? = some file ∧ place.start = file.content.length

/-- Every way a call takes a step. -/
inductive Did (s : Shared isRecord) :
    Position isRecord → Choice → Shared isRecord × Option (Position isRecord) → Prop where
  | stopped (p : Position isRecord) (a : Choice) : Did s p a (s, none)
  | opened (line : Line isRecord) (f : Nat) (hname : s.name = some f) :
      Did s (.opening line) .goes (s, some (.writing line f))
  | created (line : Line isRecord) (hname : s.name = none) :
      Did s (.opening line) .goes (s.create, some (.writing line s.files.length))
  | wrote (line : Line isRecord) (p : Position isRecord) (place : Place) (written n : Nat)
      (hfrom : Begins s line place written p ∨ p = .continuing line place written)
      (hpos : 0 < n) (hmost : written + n ≤ line.encode.length) :
      Did s p (.writes n) (s.append place.file ((line.encode.drop written).take n),
        some (if written + n = line.encode.length then .syncing line place
          else .continuing line place (written + n)))
  | synced (line : Line isRecord) (place : Place) :
      Did s (.syncing line place) .goes (s.sync place.file, some (.closing line place))
  | closed (line : Line isRecord) (place : Place) :
      Did s (.closing line place) .goes ({ s with returned := (place, line) :: s.returned }, none)

theorem writePiece_some {s : Shared isRecord} {line : Line isRecord} {place : Place}
    {written n : Nat} {next : Shared isRecord × Option (Position isRecord)}
    (h : writePiece s line place written n = some next) :
    0 < n ∧ written + n ≤ line.encode.length ∧
      (s.append place.file ((line.encode.drop written).take n),
        some (if written + n = line.encode.length then .syncing line place
          else .continuing line place (written + n))) = next := by
  unfold writePiece at h
  split at h
  · cases h
  · rename_i hbounds
    exact ⟨by omega, by omega, Option.some.inj h⟩

theorem advance_did {s : Shared isRecord} {p : Position isRecord} {a : Choice}
    {next : Shared isRecord × Option (Position isRecord)} (h : advance s p a = some next) :
    Did s p a next := by
  have hstopped : ∀ a, some (s, none) = some next → Did s p a next := by
    intro a hsome
    rw [← Option.some.inj hsome]
    exact .stopped p a
  cases a with
  | fails => cases p <;> exact hstopped _ h
  | dies => cases p <;> exact hstopped _ h
  | goes =>
    cases p with
    | opening line =>
      simp only [advance] at h
      split at h
      · rename_i f hname
        cases h
        exact .opened line f hname
      · rename_i hname
        cases h
        exact .created line hname
    | syncing line place =>
      cases h
      exact .synced line place
    | closing line place =>
      cases h
      exact .closed line place
    | writing | continuing => cases h
  | writes n =>
    cases p with
    | writing line f =>
      simp only [advance] at h
      split at h
      · cases h
      · rename_i file hfile
        obtain ⟨hpos, hmost, rfl⟩ := writePiece_some h
        exact .wrote line _ ⟨f, file.content.length⟩ 0 n (.inl ⟨rfl, rfl, file, hfile, rfl⟩) hpos
          hmost
    | continuing line place written =>
      obtain ⟨hpos, hmost, rfl⟩ := writePiece_some h
      exact .wrote line _ place written n (.inr rfl) hpos hmost
    | opening | syncing | closing => cases h

/-! ## What is acknowledged stays -/

/-- A text stands at this place. -/
def Written (s : Shared isRecord) (place : Place) (text : List Char) : Prop :=
  ∃ file, s.files[place.file]? = some file ∧ At text file.content place.start

/-- The medium has it. -/
def OnMedium (s : Shared isRecord) (place : Place) (text : List Char) : Prop :=
  ∃ file, s.files[place.file]? = some file ∧ At text file.content place.start ∧
    place.start + text.length ≤ file.synced

/-- The log has the name, or was put aside. -/
def Named (s : Shared isRecord) (f : Nat) : Prop := s.name = some f ∨ f ∈ s.aside

/-- **What is acknowledged** is on the medium, each record at a place of its own. -/
structure Stays (s : Shared isRecord) : Prop where
  there : ∀ f, Named s f → f < s.files.length
  records : ∀ r ∈ s.returned, OnMedium s r.1 r.2.encode ∧ Named s r.1.file
  places : (s.returned.map Prod.fst).Nodup

/-- What a call has written so far, and where. -/
def Position.piece : Position isRecord → Option (Place × List Char)
  | .continuing line place written => some (place, line.encode.take written)
  | .syncing line place => some (place, line.encode)
  | .closing line place => some (place, line.encode)
  | _ => none

/-- The file a call has open. -/
def Position.file? : Position isRecord → Option Nat
  | .opening _ => none
  | .writing _ f => some f
  | .continuing _ place _ => some place.file
  | .syncing _ place => some place.file
  | .closing _ place => some place.file

/-- What a call relies on. -/
structure Underway (s : Shared isRecord) (p : Position isRecord) : Prop where
  named : ∀ f ∈ p.file?, Named s f
  written : ∀ x ∈ p.piece, x.2 ≠ [] ∧ Written s x.1 x.2
  fresh : ∀ x ∈ p.piece, ∀ r ∈ s.returned, r.1 ≠ x.1
  synced : ∀ line place, p = .closing line place → OnMedium s place line.encode

/-- No two calls write at one place. -/
def Apart (p q : Position isRecord) : Prop := ∀ x ∈ p.piece, ∀ y ∈ q.piece, x.1 ≠ y.1

/-- Files only grow, and are synced to their end. -/
structure Grows (s t : Shared isRecord) : Prop where
  files : ∀ (f : Nat) (file : LogFile), s.files[f]? = some file →
    ∃ file' : LogFile, t.files[f]? = some file' ∧
    (∃ more, file'.content = file.content ++ more) ∧
    (file'.synced = file.synced ∨ file'.synced = file'.content.length)
  named : ∀ f, Named s f → Named t f

section Facts

variable {s t : Shared isRecord} {place : Place} {text : List Char}

theorem Line.encode_ne_nil (line : Line isRecord) : line.encode ≠ [] := by simp [Line.encode]

theorem Grows.written (h : Grows s t) (hwritten : Written s place text) :
    Written t place text := by
  obtain ⟨file, hfile, hat⟩ := hwritten
  obtain ⟨file', hfile', ⟨more, hmore⟩, -⟩ := h.files _ file hfile
  exact ⟨file', hfile', hmore ▸ hat.append more⟩

theorem At.le {content : List Char} {start : Nat} (h : At text content start) (htext : text ≠ []) :
    start + text.length ≤ content.length := by
  have hlength := h.length_le
  have hlt := h.lt htext
  rw [List.length_drop] at hlength
  omega

theorem Grows.onMedium (h : Grows s t) (htext : text ≠ []) (hmedium : OnMedium s place text) :
    OnMedium t place text := by
  obtain ⟨file, hfile, hat, hsynced⟩ := hmedium
  obtain ⟨file', hfile', ⟨more, hmore⟩, hkept | hall⟩ := h.files _ file hfile
  · exact ⟨file', hfile', hmore ▸ hat.append more, hkept ▸ hsynced⟩
  · have hat' : At text file'.content place.start := hmore ▸ hat.append more
    exact ⟨file', hfile', hat', hall ▸ hat'.le htext⟩

theorem Grows.there (h : Grows s t) {f : Nat} (hf : f < s.files.length) : f < t.files.length := by
  obtain ⟨file', hfile', -⟩ := h.files f _ (List.getElem?_eq_getElem hf)
  exact (List.getElem?_eq_some_iff.mp hfile').1

/-- A call that does not step relies on what it did before. -/
theorem Underway.grows {q : Position isRecord} (hq : Underway s q) (h : Grows s t)
    (hreturned : t.returned = s.returned) : Underway t q where
  named f hf := h.named f (hq.named f hf)
  written x hx := ⟨(hq.written x hx).1, h.written (hq.written x hx).2⟩
  fresh x hx r hr := hq.fresh x hx r (hreturned ▸ hr)
  synced line place hp := h.onMedium line.encode_ne_nil (hq.synced line place hp)

theorem Stays.grows (hs : Stays s) (h : Grows s t) (hreturned : t.returned = s.returned)
    (hnamed : ∀ f, Named t f → f < t.files.length) : Stays t where
  there := hnamed
  records r hr := by
    obtain ⟨hmedium, hname⟩ := hs.records r (hreturned ▸ hr)
    exact ⟨h.onMedium r.2.encode_ne_nil hmedium, h.named _ hname⟩
  places := by
    rw [hreturned]
    exact hs.places

theorem grows_append (s : Shared isRecord) (f : Nat) (text : List Char) :
    Grows s (s.append f text) where
  files g file hfile := by
    refine ⟨if f = g then file.append text else file, ?_, ?_, ?_⟩
    · simp only [Shared.append, List.getElem?_modify, hfile]
      split <;> rfl
    · split
      · exact ⟨text, rfl⟩
      · exact ⟨[], (List.append_nil _).symm⟩
    · split <;> exact .inl rfl
  named _ h := h

theorem grows_sync (s : Shared isRecord) (f : Nat) : Grows s (s.sync f) where
  files g file hfile := by
    refine ⟨if f = g then file.sync else file, ?_, ⟨[], ?_⟩, ?_⟩
    · simp only [Shared.sync, List.getElem?_modify, hfile]
      split <;> rfl
    · split <;> exact (List.append_nil _).symm
    · split
      · exact .inr rfl
      · exact .inl rfl
  named _ h := h

theorem grows_create (hname : s.name = none) : Grows s s.create where
  files f file hfile := by
    refine ⟨file, ?_, ⟨[], (List.append_nil _).symm⟩, .inl rfl⟩
    simp only [Shared.create]
    rw [List.getElem?_append_left (List.getElem?_eq_some_iff.mp hfile).1, hfile]
  named _ h := by
    refine .inr (h.resolve_left ?_)
    rw [hname]
    exact fun hnone => by cases hnone

/-- The files stay as they are. -/
theorem grows_of_files (hfiles : t.files = s.files) (hnamed : ∀ f, Named s f → Named t f) :
    Grows s t where
  files _ file hfile := ⟨file, hfiles ▸ hfile, ⟨[], (List.append_nil _).symm⟩, .inl rfl⟩
  named := hnamed

theorem Did.grows {p : Position isRecord} {a : Choice}
    {next : Shared isRecord × Option (Position isRecord)} (hdid : Did s p a next) :
    Grows s next.1 := by
  cases hdid with
  | stopped | opened | closed => exact grows_of_files rfl fun _ h => h
  | created line hname => exact grows_create hname
  | wrote line p place written n hfrom => exact grows_append s place.file _
  | synced line place => exact grows_sync s place.file

/-- A call that begins a line begins it where no text stands. -/
theorem Begins.ne {line : Line isRecord} {written : Nat} {p : Position isRecord}
    (h : Begins s line place written p) {other : Place} (htext : text ≠ [])
    (hother : Written s other text) : place ≠ other := by
  rintro rfl
  obtain ⟨-, -, file, hfile, hstart⟩ := h
  obtain ⟨file', hfile', hat⟩ := hother
  rw [hfile] at hfile'
  cases hfile'
  have hlt := hat.lt htext
  omega

/-- **A piece stands behind what the call has written before.** -/
theorem written_append {line : Line isRecord} {written n : Nat} {file : LogFile}
    (hfile : s.files[place.file]? = some file)
    (hat : At (line.encode.take written) file.content place.start)
    (hmost : written ≤ line.encode.length) (hend : file.content.length = place.start + written) :
    Written (s.append place.file ((line.encode.drop written).take n)) place
      (line.encode.take (written + n)) := by
  refine ⟨file.append ((line.encode.drop written).take n), ?_, hat.go_on hmost hend⟩
  simp [Shared.append, hfile]

end Facts

/-- A step keeps what is acknowledged, and what the call that takes it relies on. -/
theorem own_step {s : Shared isRecord} {p : Position isRecord} {a : Choice}
    {next : Shared isRecord × Option (Position isRecord)} (hs : Stays s) (hp : Underway s p)
    (hok : Unbroken.thread s p a) (hdid : Did s p a next) :
    Stays next.1 ∧ ∀ q, next.2 = some q → Underway next.1 q := by
  have hgrows := hdid.grows
  cases hdid with
  | stopped p a => exact ⟨hs, fun q hq => by cases hq⟩
  | opened line f hname =>
    refine ⟨hs, ?_⟩
    rintro q ⟨⟩
    refine ⟨?_, ?_, ?_, ?_⟩
    · rintro g ⟨⟩
      exact .inl hname
    · rintro x ⟨⟩
    · rintro x ⟨⟩
    · rintro line place ⟨⟩
  | created line hname =>
    have hnamed : ∀ f, Named s.create f → f < s.create.files.length := by
      intro f hf
      have hlength : s.create.files.length = s.files.length + 1 := by simp [Shared.create]
      rcases hf with hnew | haside
      · cases hnew
        omega
      · have := hs.there f (.inr haside)
        omega
    refine ⟨hs.grows hgrows rfl hnamed, ?_⟩
    rintro q ⟨⟩
    refine ⟨?_, ?_, ?_, ?_⟩
    · rintro g ⟨⟩
      exact .inl rfl
    · rintro x ⟨⟩
    · rintro x ⟨⟩
    · rintro line place ⟨⟩
  | wrote line p place written n hfrom hpos hmost =>
    have hlength : (s.append place.file ((line.encode.drop written).take n)).files.length =
        s.files.length := by simp [Shared.append]
    refine ⟨hs.grows hgrows rfl fun f hf => by rw [hlength]; exact hs.there f hf, ?_⟩
    -- where the line stands, and that the place is the call's own
    have hplace : Named s place.file ∧ (∃ file, s.files[place.file]? = some file ∧
        At (line.encode.take written) file.content place.start ∧
        file.content.length = place.start + written) ∧ ∀ r ∈ s.returned, r.1 ≠ place := by
      rcases hfrom with hbegins | rfl
      · obtain ⟨rfl, rfl, file, hfile, hstart⟩ := id hbegins
        refine ⟨hp.named _ rfl, ⟨file, hfile, List.nil_prefix, hstart.symm⟩, ?_⟩
        intro r hr
        obtain ⟨⟨file', hfile', hat, -⟩, -⟩ := hs.records r hr
        exact (hbegins.ne r.2.encode_ne_nil ⟨file', hfile', hat⟩).symm
      · obtain ⟨-, file, hfile, hat⟩ := hp.written _ rfl
        exact ⟨hp.named _ rfl, ⟨file, hfile, hat, hok file hfile⟩, hp.fresh _ rfl⟩
    obtain ⟨hname, ⟨file, hfile, hat, hend⟩, hfresh⟩ := hplace
    have hwritten := written_append (n := n) hfile hat (by omega) hend
    intro q hq
    dsimp only at hq
    split at hq
    · rename_i hall
      obtain rfl := Option.some.inj hq
      rw [hall, List.take_length] at hwritten
      refine ⟨?_, ?_, ?_, ?_⟩
      · rintro g ⟨⟩
        exact hname
      · rintro x ⟨⟩
        exact ⟨line.encode_ne_nil, hwritten⟩
      · rintro x ⟨⟩
        exact hfresh
      · rintro line place ⟨⟩
    · obtain rfl := Option.some.inj hq
      refine ⟨?_, ?_, ?_, ?_⟩
      · rintro g ⟨⟩
        exact hname
      · rintro x ⟨⟩
        refine ⟨?_, hwritten⟩
        rw [ne_eq, List.take_eq_nil_iff, not_or]
        exact ⟨by omega, line.encode_ne_nil⟩
      · rintro x ⟨⟩
        exact hfresh
      · rintro line place ⟨⟩
  | synced line place =>
    have hlength : (s.sync place.file).files.length = s.files.length := by simp [Shared.sync]
    refine ⟨hs.grows hgrows rfl fun f hf => by rw [hlength]; exact hs.there f hf, ?_⟩
    -- the whole line is there, so syncing the file puts it on the medium
    obtain ⟨-, file, hfile, hat⟩ := hp.written _ rfl
    rintro q ⟨⟩
    refine ⟨?_, ?_, ?_, ?_⟩
    · rintro g ⟨⟩
      exact hp.named _ rfl
    · rintro x ⟨⟩
      exact ⟨line.encode_ne_nil, hgrows.written ⟨file, hfile, hat⟩⟩
    · rintro x ⟨⟩
      exact hp.fresh _ rfl
    · rintro line place ⟨⟩
      refine ⟨file.sync, ?_, hat, hat.le line.encode_ne_nil⟩
      simp [Shared.sync, hfile]
  | closed line place =>
    refine ⟨⟨hs.there, ?_, ?_⟩, fun q hq => by cases hq⟩
    · intro r hr
      rcases List.mem_cons.mp hr with rfl | hr
      · exact ⟨hp.synced line place rfl, hp.named _ rfl⟩
      · exact hs.records r hr
    · rw [List.map_cons, List.nodup_cons]
      refine ⟨?_, hs.places⟩
      intro hmem
      obtain ⟨r, hr, hplace⟩ := List.mem_map.mp hmem
      exact hp.fresh _ rfl r hr hplace

/-- It leaves every other call what that one relies on. -/
theorem other_step {s : Shared isRecord} {p q : Position isRecord} {a : Choice}
    {next : Shared isRecord × Option (Position isRecord)} (hdid : Did s p a next)
    (hq : Underway s q) (hapart : Apart p q) :
    Underway next.1 q ∧ ∀ r, next.2 = some r → Apart r q := by
  have hgrows := hdid.grows
  cases hdid with
  | stopped p a => exact ⟨hq, fun r hr => by cases hr⟩
  | opened | created =>
    refine ⟨hq.grows hgrows rfl, ?_⟩
    rintro r ⟨⟩ x ⟨⟩
  | wrote line p place written n hfrom hpos hmost =>
    refine ⟨hq.grows hgrows rfl, ?_⟩
    have hplace : ∀ y ∈ q.piece, place ≠ y.1 := by
      intro y hy
      rcases hfrom with hbegins | rfl
      -- a line begins at the end of the file, behind what the other has written
      · exact hbegins.ne (hq.written y hy).1 (hq.written y hy).2
      · exact hapart _ rfl y hy
    intro r hr
    dsimp only at hr
    split at hr
    all_goals
      obtain rfl := Option.some.inj hr
      rintro x ⟨⟩
      exact hplace
  | synced line place =>
    refine ⟨hq.grows hgrows rfl, ?_⟩
    rintro r ⟨⟩ x ⟨⟩
    exact hapart _ rfl
  | closed line place =>
    refine ⟨⟨hq.named, hq.written, ?_, hq.synced⟩, fun r hr => by cases hr⟩
    intro x hx r hr
    rcases List.mem_cons.mp hr with rfl | hr
    · exact hapart _ rfl x hx
    · exact hq.fresh x hx r hr

/-- **Every step of every call keeps what is acknowledged.** -/
theorem invariants (isRecord : List Char → Prop) (initial : Option (List Char)) :
    (processes isRecord initial).InvariantsWhen Unbroken Stays Underway Apart where
  symm p q h x hx y hy := (h y hy x hx).symm
  start s h := by
    subst h
    constructor
    case there =>
      intro f hf
      cases initial with
      | none => rcases hf with hname | haside <;> contradiction
      | some content =>
        rcases hf with hname | haside
        · cases hname
          exact Nat.zero_lt_one
        · contradiction
    case records =>
      intro r hr
      cases hr
    case places => exact List.nodup_nil
  arrive s p _ harrives := by
    cases p with
    | opening line =>
      refine ⟨⟨?_, ?_, ?_, ?_⟩, ?_⟩
      · rintro f ⟨⟩
      · rintro x ⟨⟩
      · rintro x ⟨⟩
      · rintro line place ⟨⟩
      · rintro q - x ⟨⟩
    | _ => cases harrives
  own s p a next hs hp hadvance hok := own_step hs hp hok (advance_did hadvance)
  other s p a next q _ _ hadvance _ hq hapart _ _ := other_step (advance_did hadvance) hq hapart
  environment s e t hs henvironment _ := by
    cases e with
    | settles =>
      cases henvironment
      have hgrows : Grows s { s with settled := true } := grows_of_files rfl fun _ h => h
      exact ⟨hs.grows hgrows rfl hs.there, fun p hp => hp.grows hgrows rfl⟩
    | movesAside =>
      simp only [processes, around] at henvironment
      split at henvironment
      · cases henvironment
      · rename_i f hname
        cases henvironment
        have hnamed : ∀ g, Named s g ↔
            Named { s with name := none, settled := true, aside := f :: s.aside } g := by
          intro g
          simp only [Named, hname, Option.some.injEq, List.mem_cons, reduceCtorEq, false_or]
          exact or_congr_left ⟨Eq.symm, Eq.symm⟩
        have hgrows := grows_of_files (s := s) (t := { s with
          name := none, settled := true, aside := f :: s.aside }) rfl fun g => (hnamed g).mp
        exact ⟨hs.grows hgrows rfl fun g hg => hs.there g ((hnamed g).mpr hg),
          fun p hp => hp.grows hgrows rfl⟩

/-- What is on the medium survives a loss of power. -/
theorem OnMedium.lose {s : Shared isRecord} {place : Place} {text : List Char}
    (h : OnMedium s place text) (htext : text ≠ []) (o : Outage) :
    OnMedium (outage s o) place text := by
  obtain ⟨file, hfile, hat, hsynced⟩ := h
  refine ⟨file.lose (o.torn place.file), by simp [outage, hfile], ?_⟩
  unfold LogFile.lose
  split
  · exact ⟨hat, hsynced⟩
  · have hat' : At text (file.content.take file.synced ++ o.torn place.file) place.start :=
      (hat.take hsynced).append _
    exact ⟨hat', hat'.le htext⟩

theorem Stays.outage {s : Shared isRecord} {o : Outage} (hs : Stays s) (hok : Safely s o) :
    Stays (outage s o) where
  there f hf := by
    have hlength : (Journal.outage s o).files.length = s.files.length := by simp [Journal.outage]
    rw [hlength]
    apply hs.there
    rcases hf with hname | haside
    · left
      simp only [Journal.outage] at hname
      split at hname
      · cases hname
      · exact hname
    · exact .inr haside
  records r hr := by
    obtain ⟨hmedium, hnamed⟩ := hs.records r hr
    refine ⟨hmedium.lose r.2.encode_ne_nil o, ?_⟩
    rcases hnamed with hname | haside
    · left
      simp only [Journal.outage]
      split
      · rename_i hforgets
        simp only [Bool.and_eq_true, Bool.not_eq_true'] at hforgets
        rcases hok hforgets.1 with hsettled | hnone
        · rw [hforgets.2] at hsettled
          cases hsettled
        · exact absurd rfl (hnone _ hname r hr)
      · exact hname
    · exact .inr haside
  places := hs.places

/-- **What `Append` returned nil for stays**: in every interleaving, over every loss of power, the
    line stands on the medium where it was written, no two at one place, in the log or in one that
    was put aside. It is read as a line of its own unless what stands before it was cut short. -/
theorem acknowledged_stays {initial : Option (List Char)}
    {s : Threads (Shared isRecord) (Position isRecord)}
    (hs : (machine isRecord initial).Reachable (Unbroken.OkOutages Safely) s) :
    (s.shared.returned.map Prod.fst).Nodup ∧
      ∀ place line, (place, line) ∈ s.shared.returned →
        (s.shared.name = some place.file ∨ place.file ∈ s.shared.aside) ∧
        ∃ file, s.shared.files[place.file]? = some file ∧
          line.encode <+: file.content.drop place.start ∧
          place.start + line.encode.length ≤ file.synced ∧
          ((∀ c ∈ (file.content.take place.start).getLast?, c = '\n') →
            line.text ∈ file.content.splitOn '\n') := by
  have hkept := ((invariants isRecord initial).reachableOutages
    (fun s o hs hok => hs.outage hok) hs).shared
  refine ⟨hkept.places, ?_⟩
  intro place line hmem
  obtain ⟨⟨file, hfile, hat, hsynced⟩, hnamed⟩ := hkept.records _ hmem
  exact ⟨hnamed, file, hfile, hat, hsynced, fun hbegins => hat.mem_splitOn line.unbroken hbegins⟩

/-- An object of JSON, as far as it matters here. -/
abbrev Opens (text : List Char) : Prop := text.head? = some '{'

def lineA : Line Opens := ⟨"\x7b\"call\":1\x7d".toList, rfl, by decide⟩

def lineB : Line Opens := ⟨"\x7b\"call\":2\x7d".toList, rfl, by decide⟩

/-- A record is acknowledged while another process is in the middle of its own; the log is put
    aside, and the power is lost. -/
theorem acknowledged_stays_cut :
    let s := (machine Opens none).endOf ⟨found none, ∅⟩
      [.inr (.arrive 0 (.opening lineA)), .inr (.arrive 1 (.opening lineB)),
        .inr (.thread 0 .goes), .inr (.thread 1 .goes), .inr (.thread 0 (.writes 11)),
        .inr (.thread 1 (.writes 3)), .inr (.thread 0 .goes), .inr (.thread 0 .goes),
        .inr (.environment .movesAside), .inr (.thread 1 (.writes 4)),
        .inl ⟨true, fun _ => "??".toList⟩]
    ∃ file, s.shared.files[0]? = some file ∧ lineA.text ∈ file.content.splitOn '\n' := by
  intro s
  have hs : (machine Opens none).Reachable (Unbroken.OkOutages Safely) s :=
    Machine.Reachable.endOf (.start ⟨rfl, rfl⟩) (by decide +kernel)
  have hreturned : ∃ r ∈ s.shared.returned, r.1 = ⟨0, 0⟩ ∧ r.2.text = lineA.text := by
    decide +kernel
  obtain ⟨⟨place, line⟩, hmem, rfl, htext⟩ := hreturned
  obtain ⟨-, file, hfile, -, -, hread⟩ := (acknowledged_stays hs).2 _ line hmem
  exact ⟨file, hfile, htext ▸ hread (by simp)⟩

/-! ## The log is read back -/

/-- A log of these records. -/
def logText (records : List (Line isRecord)) : List Char := records.flatMap Line.encode

theorem splitOn_logText (records : List (Line isRecord)) :
    (logText records).splitOn '\n' = records.map Line.text ++ [[]] := by
  have htext : logText records = (records.map Line.text).flatMap (· ++ ['\n']) := by
    rw [List.flatMap_map]
    rfl
  rw [htext, splitOn_flatMap]
  intro text htext
  obtain ⟨line, -, rfl⟩ := List.mem_map.mp htext
  exact line.unbroken

theorem logText_append (records more : List (Line isRecord)) :
    logText (records ++ more) = logText records ++ logText more := List.flatMap_append

/-- A log is of one list of records. -/
theorem logText_injective {records others : List (Line isRecord)}
    (h : logText records = logText others) : records = others := by
  have hsplit := splitOn_logText records
  rw [h, splitOn_logText, List.append_cancel_right_eq] at hsplit
  refine (List.map_inj_right ?_).mp hsplit.symm
  rintro ⟨text, _, _⟩ ⟨text', _, _⟩ rfl
  rfl

/-- A record is in a log of records, at its place. -/
def Recorded (s : Shared isRecord) (place : Place) (line : Line isRecord) : Prop :=
  ∃ (file : LogFile) (before after : List (Line isRecord)), s.files[place.file]? = some file ∧
    file.content = logText (before ++ line :: after) ∧ place.start = (logText before).length

/-- **The logs are logs of records**, and what is acknowledged is among them. -/
structure Tidy (s : Shared isRecord) : Prop where
  logs : ∀ (f : Nat) (file : LogFile), s.files[f]? = some file →
    ∃ records : List (Line isRecord), file.content = logText records
  records : ∀ r ∈ s.returned, Recorded s r.1 r.2

/-- A call has written nothing, or all. -/
def AllOrNone (s : Shared isRecord) : Position isRecord → Prop
  | .opening _ | .writing _ _ => True
  | .continuing _ _ _ => False
  | .syncing line place | .closing line place => Recorded s place line

/-- Files grow by whole records, and new ones are empty. -/
structure GrowsWhole (s t : Shared isRecord) : Prop where
  kept : ∀ (f : Nat) (file : LogFile), s.files[f]? = some file →
    ∃ (file' : LogFile) (more : List (Line isRecord)), t.files[f]? = some file' ∧
      file'.content = file.content ++ logText more
  new : ∀ (f : Nat) (file : LogFile), t.files[f]? = some file → s.files[f]? = none →
    file.content = []

section Whole

variable {s t : Shared isRecord} {place : Place} {line : Line isRecord}

theorem GrowsWhole.recorded (h : GrowsWhole s t) (hrecorded : Recorded s place line) :
    Recorded t place line := by
  obtain ⟨file, before, after, hfile, hcontent, hstart⟩ := hrecorded
  obtain ⟨file', more, hfile', hcontent'⟩ := h.kept _ file hfile
  refine ⟨file', before, after ++ more, hfile', ?_, hstart⟩
  rw [hcontent', hcontent, ← logText_append, List.append_assoc, List.cons_append]

theorem GrowsWhole.tidy (h : GrowsWhole s t) (hs : Tidy s) (hreturned : t.returned = s.returned) :
    Tidy t where
  logs f file hfile := by
    cases hbefore : s.files[f]? with
    | none => exact ⟨[], h.new f file hfile hbefore⟩
    | some earlier =>
      obtain ⟨records, hrecords⟩ := hs.logs f earlier hbefore
      obtain ⟨file', more, hfile', hcontent⟩ := h.kept f earlier hbefore
      rw [hfile] at hfile'
      cases hfile'
      exact ⟨records ++ more, by rw [hcontent, hrecords, logText_append]⟩
  records r hr := h.recorded (hs.records r (hreturned ▸ hr))

theorem GrowsWhole.allOrNone (h : GrowsWhole s t) {q : Position isRecord} (hq : AllOrNone s q) :
    AllOrNone t q := by
  cases q with
  | opening | writing => trivial
  | continuing => exact hq
  | syncing line place => exact h.recorded hq
  | closing line place => exact h.recorded hq

theorem growsWhole_of_files (hfiles : t.files = s.files) : GrowsWhole s t where
  kept f file hfile := ⟨file, [], hfiles ▸ hfile, (List.append_nil _).symm⟩
  new f file hfile hnone := by
    rw [hfiles, hnone] at hfile
    cases hfile

theorem growsWhole_modify (s : Shared isRecord) (f : Nat) (more : List (Line isRecord))
    {change : LogFile → LogFile}
    (hchange : ∀ file, (change file).content = file.content ++ logText more) :
    GrowsWhole s { s with files := s.files.modify f change } where
  kept g file hfile := by
    by_cases hg : f = g
    · subst hg
      exact ⟨change file, more, by simp [hfile], hchange file⟩
    · exact ⟨file, [], by simp [hg, hfile], (List.append_nil _).symm⟩
  new g file hfile hnone := by
    simp [List.getElem?_modify, hnone] at hfile

theorem growsWhole_create (s : Shared isRecord) : GrowsWhole s s.create where
  kept f file hfile := by
    refine ⟨file, [], ?_, (List.append_nil _).symm⟩
    simp only [Shared.create]
    rw [List.getElem?_append_left (List.getElem?_eq_some_iff.mp hfile).1, hfile]
  new f file hfile hnone := by
    simp only [Shared.create] at hfile
    rw [List.getElem?_append_right (List.getElem?_eq_none_iff.mp hnone)] at hfile
    obtain rfl := List.mem_singleton.mp (List.mem_of_getElem? hfile)
    rfl

/-- A piece that is all of a line. -/
theorem logText_singleton (line : Line isRecord) {written n : Nat} (hwritten : written = 0)
    (hn : n = line.encode.length) : (line.encode.drop written).take n = logText [line] := by
  subst hwritten hn
  simp [logText]

/-- **What a step does to the files** when lines are written at once. -/
theorem Did.growsWhole {p : Position isRecord} {a : Choice}
    {next : Shared isRecord × Option (Position isRecord)} (hdid : Did s p a next)
    (hp : AllOrNone s p) (hok : Whole.thread s p a) : GrowsWhole s next.1 := by
  cases hdid with
  | stopped | opened | closed => exact growsWhole_of_files rfl
  | created line hname => exact growsWhole_create s
  | synced line place =>
    exact growsWhole_modify s place.file [] fun file => (List.append_nil _).symm
  | wrote line p place written n hfrom =>
    rcases hfrom with ⟨rfl, hwritten, -⟩ | rfl
    · apply growsWhole_modify s place.file [line]
      intro file
      rw [← logText_singleton line hwritten hok]
      rfl
    · exact hp.elim

end Whole

theorem own_step_whole {s : Shared isRecord} {p : Position isRecord} {a : Choice}
    {next : Shared isRecord × Option (Position isRecord)} (hs : Tidy s) (hp : AllOrNone s p)
    (hok : Whole.thread s p a) (hdid : Did s p a next) :
    Tidy next.1 ∧ ∀ q, next.2 = some q → AllOrNone next.1 q := by
  have hgrows := hdid.growsWhole hp hok
  cases hdid with
  | stopped p a => exact ⟨hs, fun q hq => by cases hq⟩
  | opened | created =>
    refine ⟨hgrows.tidy hs rfl, ?_⟩
    rintro q ⟨⟩
    trivial
  | synced line place =>
    refine ⟨hgrows.tidy hs rfl, ?_⟩
    rintro q ⟨⟩
    exact hgrows.recorded hp
  | closed line place =>
    refine ⟨⟨hs.logs, ?_⟩, fun q hq => by cases hq⟩
    intro r hr
    rcases List.mem_cons.mp hr with rfl | hr
    · exact hp
    · exact hs.records r hr
  | wrote line p place written n hfrom =>
    refine ⟨hgrows.tidy hs rfl, ?_⟩
    rcases hfrom with ⟨rfl, hwritten, file, hfile, hstart⟩ | rfl
    · intro q hq
      have hall : written + n = line.encode.length := by
        rw [hwritten, Nat.zero_add]
        exact hok
      rw [if_pos hall] at hq
      obtain rfl := Option.some.inj hq
      obtain ⟨records, hrecords⟩ := hs.logs _ file hfile
      -- the line is the last one of its log
      refine ⟨file.append (logText [line]), records, [], ?_, ?_, hrecords ▸ hstart⟩
      · rw [logText_singleton line hwritten hok]
        simp [Shared.append, hfile]
      · rw [logText_append, ← hrecords]
        rfl
    · exact hp.elim

/-- **Every step keeps the logs logs of records.** -/
theorem invariants_whole (isRecord : List Char → Prop) (initial : Option (List (Line isRecord))) :
    (processes isRecord (initial.map logText)).InvariantsWhen Whole Tidy AllOrNone
      fun _ _ => True where
  symm _ _ _ := trivial
  start s h := by
    subst h
    constructor
    case logs =>
      intro f file hfile
      cases initial with
      | none => simp [found] at hfile
      | some records =>
        refine ⟨records, ?_⟩
        obtain rfl := List.mem_singleton.mp (List.mem_of_getElem? hfile)
        rfl
    case records =>
      intro r hr
      cases hr
  arrive s p _ harrives := by
    cases p with
    | opening line => exact ⟨trivial, fun _ _ => trivial⟩
    | _ => cases harrives
  own s p a next hs hp hadvance hok := own_step_whole hs hp hok (advance_did hadvance)
  other s p a next q _ hp hadvance hok hq _ _ _ :=
    ⟨((advance_did hadvance).growsWhole hp hok).allOrNone hq, fun _ _ => trivial⟩
  environment s e t hs henvironment _ := by
    have hgrows : GrowsWhole s t ∧ t.returned = s.returned := by
      cases e with
      | settles =>
        cases henvironment
        exact ⟨growsWhole_of_files rfl, rfl⟩
      | movesAside =>
        simp only [processes, around] at henvironment
        split at henvironment
        · cases henvironment
        · cases henvironment
          exact ⟨growsWhole_of_files rfl, rfl⟩
    exact ⟨hgrows.1.tidy hs hgrows.2, fun p hp => hgrows.1.allOrNone hp⟩

/-- A loss of power leaves what the medium has. -/
theorem Tidy.outage {s : Shared isRecord} {o : Outage} (hs : Tidy s) (hok : Calmly s o) :
    Tidy (outage s o) := by
  have hfiles : (Journal.outage s o).files = s.files := by
    apply List.ext_getElem?
    intro f
    simp only [Journal.outage, List.getElem?_mapIdx]
    cases hfile : s.files[f]? with
    | none => rfl
    | some file =>
      have hsynced := hok file (List.mem_of_getElem? hfile)
      simp [LogFile.lose, hsynced]
  exact (growsWhole_of_files hfiles).tidy hs rfl

/-- **The log is read back as records**: where lines are written at once and power is only lost
    while the medium has the logs, every log splits into the texts of its records, the acknowledged
    ones among them, each at its place. -/
theorem log_reads_back {initial : Option (List (Line isRecord))}
    {s : Threads (Shared isRecord) (Position isRecord)}
    (hs : (machine isRecord (initial.map logText)).Reachable (Whole.OkOutages Calmly) s)
    {f : Nat} {file : LogFile} (hfile : s.shared.files[f]? = some file) :
    ∃ records : List (Line isRecord), file.content.splitOn '\n' = records.map Line.text ++ [[]] ∧
      ∀ place line, (place, line) ∈ s.shared.returned → place.file = f →
        ∃ before after, records = before ++ line :: after ∧
          place.start = (logText before).length := by
  have hkept := ((invariants_whole isRecord initial).reachableOutages
    (fun s o hs hok => hs.outage hok) hs).shared
  obtain ⟨records, hrecords⟩ := hkept.logs f file hfile
  refine ⟨records, hrecords ▸ splitOn_logText records, ?_⟩
  rintro place line hmem rfl
  obtain ⟨file', before, after, hfile', hcontent, hstart⟩ := hkept.records _ hmem
  rw [hfile] at hfile'
  cases hfile'
  exact ⟨before, after, logText_injective (hrecords.symm.trans hcontent), hstart⟩

/-- Two processes append to a log at once. -/
theorem log_reads_back_twoCalls :
    let s := (machine Opens ((some [lineB]).map logText)).endOf
      ⟨found ((some [lineB]).map logText), ∅⟩
      [.inr (.arrive 0 (.opening lineA)), .inr (.arrive 1 (.opening lineB)),
        .inr (.thread 0 .goes), .inr (.thread 1 .goes), .inr (.thread 1 (.writes 11)),
        .inr (.thread 0 (.writes 11)), .inr (.thread 0 .goes), .inr (.thread 0 .goes)]
    ∃ records : List (Line Opens), ∃ before after, records = before ++ lineA :: after ∧
      (logText before).length = 22 ∧
      ∃ file, s.shared.files[0]? = some file ∧
        file.content.splitOn '\n' = records.map Line.text ++ [[]] := by
  intro s
  have hs : (machine Opens ((some [lineB]).map logText)).Reachable (Whole.OkOutages Calmly) s :=
    Machine.Reachable.endOf (.start ⟨rfl, rfl⟩) (by decide +kernel)
  have hreturned : ∃ r ∈ s.shared.returned, r.1 = ⟨0, 22⟩ ∧ r.2.text = lineA.text := by
    decide +kernel
  have hlog : (s.shared.files[0]?).isSome = true := by decide +kernel
  obtain ⟨⟨place, ⟨text, hrecord, hunbroken⟩⟩, hmem, rfl, rfl⟩ := hreturned
  obtain ⟨file, hfile⟩ := Option.isSome_iff_exists.mp hlog
  obtain ⟨records, hsplit, hall⟩ := log_reads_back hs hfile
  obtain ⟨before, after, hrecords, hstart⟩ := hall _ _ hmem rfl
  exact ⟨records, before, after, hrecords, hstart.symm, file, hfile, hsplit⟩

end MqStudio.Agent.Journal
