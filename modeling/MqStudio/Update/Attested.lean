import MqStudio.Update.Exclusion
import MqStudio.Update.Mirrors

/-!
# What Is Handed to an Install

The manager with its mirrors, its files and its memory on disk: the manifest a check accepts, the
fetch that tries one mirror after another, `Download` of `internal/update/download.go` with its
`.part` file, and one process after another. Each mirror serves what bytes it likes, a request fails
or is cancelled where it stands, the memory may fail to be written, and the build that runs next is
whatever is installed by then.

The digest of bytes is a parameter, and so is how an instant is spelled. A file is the digest of its
bytes. Removing a file succeeds, except where a download makes way for its package.

## Main definitions

- `advance`: one step of a call.
- `OnlyAttested`: what the files, the memory and the calls under way must be.

## Main results

- `only_attested`: they are, in every run over every process.
-/

namespace MqStudio.Update.Packages

open MqStudio.Lib
open MqStudio.Lib.Machine
open MqStudio.Lib.TreeMap

/-! ## State -/

/-- A build: its version, and whether it can replace itself. -/
structure Build where
  version : String
  canInstall : Bool
  deriving DecidableEq

/-- How the memory is written: as it is, not at all, or so that it cannot be read. -/
inductive Write where
  | done | refused | torn
  deriving DecidableEq

/-- What the calls share, and what is left to the next process. -/
structure World where
  running : Build
  /-- The build the next process is. -/
  installed : Build
  shared : Shared
  mirrors : MirrorMemory
  /-- `update.json`, where it can be read. -/
  stored : Option (Memory × MirrorMemory)
  /-- How the next write comes out. -/
  write : Write
  /-- The checks that came to an accepted manifest. -/
  accepted : List Checked
  /-- What was last put at a path. -/
  placed : Map String String

/-- Where a call stands, with the check it goes by. -/
inductive Place where
  | call (p : Position) (release : Option Checked)
  /-- `fetch`: the next mirror is asked. -/
  | asking (release : Checked) (rest : List Mirror)
  /-- `copyWithProgress`, with the bytes written so far. -/
  | receiving (release : Checked) (rest : List Mirror) (bytes : List UInt8)
  | comparing (release : Checked) (rest : List Mirror) (bytes : List UInt8)
  /-- The package of that name is to make way. -/
  | replacing (release : Checked) (rest : List Mirror) (bytes : List UInt8)
  | moving (release : Checked) (rest : List Mirror) (bytes : List UInt8)
  deriving DecidableEq

/-- What the environment decides in a step. -/
inductive Choice where
  | go
  /-- What the mirrors answered, and when. -/
  | answer (now later : Int) (quick : Answer) (arrivals : List Arrival)
  /-- Whether the package could not be applied. -/
  | apply (fails : Bool)
  | bytes (more : List UInt8)
  | fails
  | cancelled
  deriving DecidableEq

/-- What happens beside the calls. -/
inductive Around where
  | policy (policy : Policy)
  | installs (build : Build)
  | writes (write : Write)
  deriving DecidableEq

section

variable (c : Config) (calendar : Calendar) (sha256 : List UInt8 → String)

/-- What a manager of that build is built with. -/
def Build.config (b : Build) : Config := { c with version := b.version, canInstall := b.canInstall }

/-- Where a release's package is put. -/
def dest (release : Checked) : String := c.path (c.packageName release.result.latestVersion)

/-- `dest + ".part"` -/
def part (release : Checked) : String := dest c release ++ ".part"

/-- The digest that is published for a release's package; none is the empty text. -/
def want (release : Checked) : String :=
  ((release.manifest.files[c.packageName release.result.latestVersion]?).map
    ManifestFile.sha256).getD ""

/-- `strings.EqualFold`, of two digests. -/
def equalFold (got want : String) : Bool :=
  got.toList.map Char.toLower = want.toList.map Char.toLower

namespace World

variable (w : World)

/-- `writeMemory` -/
def writeMemory : World :=
  match w.write with
  | .done => { w with stored := some (w.shared.memory, w.mirrors) }
  | .refused => w
  | .torn => { w with stored := none }

/-- The file at a path is written. -/
def put (path digest : String) : World :=
  { w with shared := { w.shared with disk := w.shared.disk.insert path digest } }

/-- `os.Remove` -/
def remove (path : String) : World :=
  { w with shared := { w.shared with disk := w.shared.disk.erase path } }

end World

/-- The steps of a call that end in `writeMemory`. -/
def writes : Position → Bool
  | .folding _ _ | .fetched _ (.done _) | .skipping _ | .applied _ _ false => true
  | _ => false

/-- A step of a call that asks no mirror. -/
def manage (w : World) (p : Position) (release : Option Checked) (choice : Update.Choice) :
    Option (World × Option Place) :=
  (Update.advance (w.running.config c) w.shared p choice).map fun next =>
    let moved := { w with shared := next.1 }
    (if writes p then moved.writeMemory else moved, next.2.map fun q => .call q release)

/-- `runCheck`, of a check or of a download that was given no release. -/
def resolve (w : World) (p : Position) (now later : Int) (quick : Answer)
    (arrivals : List Arrival) : Option (World × Option Place) :=
  let ran := runCheck calendar w.running.version w.mirrors now later quick arrivals
  (Update.advance (w.running.config c) w.shared p (.answer (ran.2.map Checked.result))).map
    fun next =>
      let moved := { w with
        shared := next.1, mirrors := ran.1, accepted := w.accepted ++ ran.2.toList }
      (if ran.2.isSome then moved.writeMemory else moved, next.2.map fun q => .call q ran.2)

/-- `os.Rename`: the partial file is the package. -/
def moved (w : World) (release : Checked) (digest : String) : World :=
  { (w.remove (part c release)).put (dest c release) digest with
    placed := w.placed.insert (dest c release) digest }

/-- An attempt is over: the partial file goes, and the next mirror is asked, or none. -/
def giveUp (w : World) (release : Checked) (rest : List Mirror) (cancelled : Bool) :
    Option (World × Option Place) :=
  let dropped := w.remove (part c release)
  if !cancelled then some (dropped, some (.asking release rest))
  else if w.shared.cancel = some true then
    some (dropped, some (.call (.fetched release.result .cancelled) (some release)))
  else none

/-- One step of a call. -/
def advance (w : World) : Place → Choice → Option (World × Option Place)
  | .call (.attempting _) (some release), .go => some (w, some (.asking release release.attempts))
  | .call p release, .go => manage c w p release .go
  | .call p release, .apply fails => manage c w p release (.apply fails)
  | .call p _, .answer now later quick arrivals => resolve c calendar w p now later quick arrivals
  | .asking release [], .go => some (w, some (.call (.fetched release.result .failed) (some release)))
  | .asking release (_ :: rest), .go =>
    if (want c release).utf8ByteSize ≠ hexSHA256 then some (w, some (.asking release rest))
    else some (w.put (part c release) (sha256 []), some (.receiving release rest []))
  | .asking release (_ :: rest), .fails => some (w, some (.asking release rest))
  | .asking release (_ :: _), .cancelled =>
    if w.shared.cancel = some true then
      some (w, some (.call (.fetched release.result .cancelled) (some release)))
    else none
  | .receiving release rest bytes, .bytes more =>
    some (w.put (part c release) (sha256 (bytes ++ more)),
      some (.receiving release rest (bytes ++ more)))
  | .receiving release rest bytes, .go => some (w, some (.comparing release rest bytes))
  | .receiving release rest _, .fails => giveUp c w release rest false
  | .receiving release rest _, .cancelled => giveUp c w release rest true
  | .comparing release rest bytes, .go =>
    if equalFold (sha256 bytes) (want c release) then some (w, some (.replacing release rest bytes))
    else giveUp c w release rest false
  | .comparing release rest _, .fails => giveUp c w release rest false
  | .replacing release rest bytes, .go =>
    some (w.remove (dest c release), some (.moving release rest bytes))
  | .replacing release rest bytes, .fails => some (w, some (.moving release rest bytes))
  | .moving release _ _, .go =>
    match w.shared.disk[part c release]? with
    | none => none
    | some digest =>
      some (moved c w release digest,
        some (.call (.fetched release.result (.done (dest c release))) (some release)))
  | .moving release rest _, .fails => giveUp c w release rest false
  | _, _ => none

/-- The places a call starts from; a download that is asked for is given no release. -/
def arrives : Place → Bool
  | .call p none =>
    match p with
    | .checking _ | .rechecking | .cancelling | .skipping _ | .installing | .quitting => true
    | _ => false
  | _ => false

/-- The calls of one process. -/
def calls : Program World Place Choice Around where
  start w := ∃ (build : Build) (policy : Policy) (write : Write), w =
    { running := build, installed := build, shared := new (build.config c) ⟨"", "", ""⟩ policy ∅,
      mirrors := ⟨"", "", []⟩, stored := none, write := write, accepted := [], placed := ∅ }
  arrives := arrives
  advance := advance c calendar sha256
  environment w
    | .policy policy => some { w with shared := { w.shared with policy := policy } }
    | .installs build => some { w with installed := build }
    | .writes write => some { w with write := write }
  holds _ := false
  excludes _ := false

/-- The process ends, and another is the build that is installed by then. A package that is no update
    any more is forgotten. -/
def restart (w : World) : World :=
  let memory := w.stored.getD (⟨"", "", ""⟩, ⟨"", "", []⟩)
  let started := { w with
    running := w.installed
    shared := new (w.installed.config c) memory.1 w.shared.policy w.shared.disk
    mirrors := memory.2 }
  if started.shared.memory = memory.1 then started else started.writeMemory

/-- Every run over every process. -/
def processes : Machine (Threads World Place) (Program.Life Place Choice Around) :=
  (calls c calendar sha256).processes (restart c)

end

/-! ## What is handed over -/

/-- The digest is the one an accepted manifest listed for the package at the path. -/
def Attested (c : Config) (w : World) (path digest : String) : Prop :=
  ∃ release ∈ w.accepted, path = dest c release ∧
    ∃ file, release.manifest.files[c.packageName release.result.latestVersion]? = some file ∧
      equalFold digest file.sha256 = true

/-- The path is that of a newer version's package, and what was put there was attested. -/
def Verified (c : Config) (w : World) (version path : String) : Prop :=
  older w.running.version version = true ∧ path = c.path (c.packageName version) ∧
    ∃ digest, w.placed[path]? = some digest ∧ Attested c w path digest

/-- **Only attested, newer packages are installed.** -/
structure OnlyAttested (c : Config) (s : Threads World Place) : Prop where
  /-- The path of a package names what was put there, whole. -/
  files : ∀ version digest, s.shared.shared.disk[c.path (c.packageName version)]? = some digest →
    s.shared.placed[c.path (c.packageName version)]? = some digest ∧
      Attested c s.shared (c.path (c.packageName version)) digest
  /-- What an install would be handed. -/
  remembered : s.shared.shared.memory.readyPath ≠ "" →
    Verified c s.shared s.shared.shared.memory.readyVersion s.shared.shared.memory.readyPath
  /-- What an install was handed. -/
  handed : ∀ (k : Nat) (p : Position) (release : Option Checked) (path : String),
    s.threads[k]? = some (.call p release) → p.package = some path →
      ∃ version, Verified c s.shared version path

/-! ## Paths -/

/-- `locate`: the packages a build may be replaced by, and none. -/
def Located (c : Config) : Prop := c.ext ∈ ["dmg", "exe", "AppImage", "deb", ""]

instance (c : Config) : Decidable (Located c) := inferInstanceAs (Decidable (_ ∈ _))

section Paths

variable {c : Config}

/-- A partial file is no package: no package ends in `t`. -/
theorem part_ne (hc : Located c) (release : Checked) (version : String) :
    part c release ≠ c.path (c.packageName version) := by
  intro h
  have hpart : (part c release).toList.getLast? = some 't' := by
    simp [part]
  obtain ⟨stem, hstem⟩ : ∃ stem, (c.path (c.packageName version)).toList =
      stem ++ ("." ++ c.ext).toList := by
    have hname : ∃ stem, c.packageName version = stem ++ "." ++ c.ext := ⟨_, rfl⟩
    obtain ⟨stem, hname⟩ := hname
    refine ⟨(c.directory ++ "/" ++ stem).toList, ?_⟩
    simp [Config.path, hname]
  have hext : (c.path (c.packageName version)).toList.getLast? = ("." ++ c.ext).toList.getLast? := by
    rw [hstem]
    exact List.getLast?_append_of_ne_nil _ (by simp)
  rw [h, hext] at hpart
  simp only [Located, List.mem_cons, List.not_mem_nil, or_false] at hc
  rcases hc with hc | hc | hc | hc | hc <;> rw [hc] at hpart <;> revert hpart <;> decide

end Paths

/-! ## What a step of the manager leaves -/

/-- The release a download goes by. -/
def goesBy : Position → Option Result
  | .entering release | .fetching release | .attempting release | .fetched release _ => some release
  | _ => none

/-- Where a call goes on without a mirror: by the same release, or by the one its check found. -/
structure Follows (p q : Position) : Prop where
  release : ∀ result, goesBy q = some result → goesBy p = some result ∨
    (∃ manual, p = .folding manual (some result)) ∧ result.status = .available
  folding : ∀ manual answer, q ≠ .folding manual answer
  done : ∀ result path, q ≠ .fetched result (.done path)

/-- What a step without a mirror leaves of the files and of the package that is remembered. -/
inductive Leaves (c : Config) (s : Shared) (p : Position) :
    Shared → Option Position → Prop where
  | same {t : Shared} {next : Option Position} :
    t.memory.readyVersion = s.memory.readyVersion → t.memory.readyPath = s.memory.readyPath →
    t.disk = s.disk → (∀ q, next = some q → Follows p q) → Leaves c s p t next
  | sweeps {result : Result} : p = .fetching result →
    Leaves c s p { s with disk := c.sweep s.disk (c.packageName result.latestVersion) }
      (some (.attempting result))
  | keeps {result : Result} {path : String} : p = .fetched result (.done path) →
    Leaves c s p (endDownload s result (.done path)) (some .releasing)
  | forgets {path : String} : p.package = some path → Leaves c s p (forgetReady s) none

section Leaves

variable {c : Config} {s t : Shared} {p : Position} {next : Option Position}

/-- A call that returns leaves nothing to follow. -/
theorem Leaves.returns (hversion : t.memory.readyVersion = s.memory.readyVersion)
    (hpath : t.memory.readyPath = s.memory.readyPath) (hdisk : t.disk = s.disk) :
    Leaves c s p t none :=
  .same hversion hpath hdisk fun q hq => by cases hq

theorem follows_idle {q : Position} (hrelease : goesBy q = none)
    (hfolding : ∀ manual answer, q ≠ .folding manual answer) : Follows p q where
  release result h := by
    rw [hrelease] at h
    cases h
  folding := hfolding
  done result path h := by
    rw [h] at hrelease
    cases hrelease

theorem foldCheck_ready (c : Config) (s : Shared) (manual : Bool) (answer : Option Result) :
    (foldCheck c s manual answer).1.memory.readyVersion = s.memory.readyVersion ∧
      (foldCheck c s manual answer).1.memory.readyPath = s.memory.readyPath ∧
      (foldCheck c s manual answer).1.disk = s.disk := by
  cases answer with
  | none => exact ⟨rfl, rfl, rfl⟩
  | some result =>
    have hunskip : (unskip { s with busy := false } manual result).memory.readyVersion =
          s.memory.readyVersion ∧
        (unskip { s with busy := false } manual result).memory.readyPath = s.memory.readyPath ∧
        (unskip { s with busy := false } manual result).disk = s.disk := by
      unfold unskip
      split <;> exact ⟨rfl, rfl, rfl⟩
    simp only [foldCheck]
    split
    · exact hunskip
    · split <;> exact hunskip

/-- The release a check starts to download is the one it found. -/
theorem foldCheck_starts {manual : Bool} {answer : Option Result} {result : Result}
    (h : (foldCheck c s manual answer).2 = some result) :
    answer = some result ∧ result.status = .available := by
  cases answer with
  | none => cases h
  | some found =>
    simp only [foldCheck] at h
    split at h
    · cases h
    · rename_i havailable
      split at h
      · cases h
      · dsimp only at h
        split at h
        · obtain rfl := Option.some.inj h
          exact ⟨rfl, not_not.mp havailable⟩
        · cases h

/-- **A step without a mirror** is one of those listed. -/
theorem advance_leaves {choice : Update.Choice} (hchoice : choice = .go ∨ ∃ fails, choice = .apply fails)
    (h : Update.advance c s p choice = some (t, next)) : Leaves c s p t next := by
  rcases hchoice with rfl | ⟨fails, rfl⟩
  · cases p with
    | checking manual =>
      simp only [Update.advance, ne_eq, not_true_eq_false, if_false] at h
      split at h
      · cases h
        exact .returns rfl rfl rfl
      · rename_i begun hbegun
        cases h
        have hsame : t.memory = s.memory ∧ t.disk = s.disk := by
          unfold beginCheck at hbegun
          split at hbegun
          · cases hbegun
          · split at hbegun
            · cases hbegun
            · cases hbegun
              exact ⟨rfl, rfl⟩
        refine .same (by rw [hsame.1]) (by rw [hsame.1]) hsame.2 fun q hq => ?_
        cases hq
        exact follows_idle rfl (by simp)
    | folding manual answer =>
      simp only [Update.advance, ne_eq, not_true_eq_false, if_false] at h
      cases h
      obtain ⟨hversion, hpath, hdisk⟩ := foldCheck_ready c s manual answer
      refine .same hversion hpath hdisk fun q hq => ?_
      obtain ⟨result, hresult, rfl⟩ := Option.map_eq_some_iff.mp hq
      obtain ⟨rfl, havailable⟩ := foldCheck_starts hresult
      unfold Position.download
      split
      · exact follows_idle rfl (by simp)
      · refine ⟨fun other hother => ?_, by simp, by simp⟩
        obtain rfl := Option.some.inj hother
        exact .inr ⟨⟨manual, rfl⟩, havailable⟩
    | failing =>
      simp only [Update.advance, ne_eq, not_true_eq_false, if_false] at h
      cases h
      exact .returns rfl rfl rfl
    | entering result =>
      simp only [Update.advance, ne_eq, not_true_eq_false, if_false] at h
      cases h
      have hsame : (beginDownload c s result).1.memory = s.memory ∧
          (beginDownload c s result).1.disk = s.disk := by
        unfold beginDownload
        split
        · exact ⟨rfl, rfl⟩
        · split <;> exact ⟨rfl, rfl⟩
      refine .same (by rw [hsame.1]) (by rw [hsame.1]) hsame.2 fun q hq => ?_
      split at hq
      · cases hq
        exact ⟨fun other hother => .inl hother, by simp, by simp⟩
      · cases hq
    | fetching result =>
      simp only [Update.advance, ne_eq, not_true_eq_false, if_false] at h
      split at h
      · cases h
        exact .sweeps rfl
      · cases h
        refine .same rfl rfl rfl fun q hq => ?_
        cases hq
        exact ⟨fun other hother => .inl hother, by simp, by simp⟩
    | fetched result outcome =>
      simp only [Update.advance, ne_eq, not_true_eq_false, if_false] at h
      cases h
      cases outcome with
      | done path => exact .keeps rfl
      | cancelled | failed =>
        refine .same rfl rfl rfl fun q hq => ?_
        cases hq
        exact follows_idle rfl (by simp)
    | releasing =>
      simp only [Update.advance, ne_eq, not_true_eq_false, if_false] at h
      cases h
      exact .returns rfl rfl rfl
    | cancelling =>
      simp only [Update.advance, ne_eq, not_true_eq_false, if_false] at h
      cases h
      exact .returns rfl rfl rfl
    | skipping version =>
      simp only [Update.advance, ne_eq, not_true_eq_false, if_false] at h
      cases h
      exact .returns rfl rfl rfl
    | installing =>
      simp only [Update.advance, ne_eq, not_true_eq_false, if_false] at h
      split at h
      · cases h
        exact .returns rfl rfl rfl
      · rename_i begun hbegun
        cases h
        obtain ⟨-, -, rfl⟩ := beginInstall_spec hbegun
        refine .same rfl rfl rfl fun q hq => ?_
        cases hq
        exact follows_idle rfl (by simp)
    | quitting =>
      simp only [Update.advance, ne_eq, not_true_eq_false, if_false] at h
      split at h
      · cases h
        refine .same rfl rfl rfl fun q hq => ?_
        cases hq
        exact follows_idle rfl (by simp)
      · cases h
        exact .returns rfl rfl rfl
    | opening path quit =>
      simp only [Update.advance, ne_eq, not_true_eq_false, if_false] at h
      cases h
      refine .same rfl rfl rfl fun q hq => ?_
      cases hq
      split
      · exact follows_idle rfl (by simp)
      · exact follows_idle rfl (by simp)
    | applied path quit fails =>
      simp only [Update.advance, ne_eq, not_true_eq_false, if_false] at h
      split at h
      · cases quit with
        | true =>
          cases h
          exact .returns rfl rfl rfl
        | false =>
          cases h
          exact .returns rfl rfl rfl
      · cases h
        exact .forgets rfl
    | resolving | rechecking | attempting | applying => cases h
  · cases p with
    | applying path quit =>
      cases h
      refine .same rfl rfl rfl fun q hq => ?_
      cases hq
      exact follows_idle rfl (by simp)
    | resolving | rechecking | attempting => cases h
    | _ => simp [Update.advance] at h

end Leaves

/-! ## Invariants -/

namespace Place

/-- Past the test of `busy`. -/
def occupies : Place → Bool
  | .call p _ => p.occupies
  | _ => true

/-- The check a call goes by. -/
def release : Place → Option Checked
  | .call _ release => release
  | .asking release _ | .receiving release _ _ | .comparing release _ _ => some release
  | .replacing release _ _ | .moving release _ _ => some release

/-- The bytes a partial file holds. -/
def received : Place → Option (Checked × List UInt8)
  | .receiving release _ bytes | .comparing release _ bytes => some (release, bytes)
  | .replacing release _ bytes | .moving release _ bytes => some (release, bytes)
  | _ => none

/-- The bytes whose digest was compared. -/
def matched : Place → Option (Checked × List UInt8)
  | .replacing release _ bytes | .moving release _ bytes => some (release, bytes)
  | _ => none

/-- The package an install was handed. -/
def package : Place → Option String
  | .call p _ => p.package
  | _ => none

/-- A download goes by an available release, and a check folds in what it found. -/
def Consistent : Place → Prop
  | .call p release =>
    (∀ result, goesBy p = some result →
      release.map Checked.result = some result ∧ result.status = .available) ∧
    ∀ manual answer, p = .folding manual answer → answer = release.map Checked.result
  | .asking release _ | .receiving release _ _ | .comparing release _ _ =>
    release.result.status = .available
  | .replacing release _ _ | .moving release _ _ => release.result.status = .available

end Place

section

variable (c : Config) (sha256 : List UInt8 → String) (w : World)

/-- The path is that of a version's package, and a package was put there. -/
structure Packaged (version path : String) : Prop where
  named : path = c.path (c.packageName version)
  placed : ∃ digest, w.placed[path]? = some digest

/-- **Invariant of the files**. -/
structure Sound : Prop where
  placed : ∀ path digest : String, w.placed[path]? = some digest → Attested c w path digest
  files : ∀ version digest, w.shared.disk[c.path (c.packageName version)]? = some digest →
    w.placed[c.path (c.packageName version)]? = some digest
  newer : w.shared.memory.readyPath ≠ "" →
    older w.running.version w.shared.memory.readyVersion = true
  remembered : w.shared.memory.readyPath ≠ "" →
    Packaged c w w.shared.memory.readyVersion w.shared.memory.readyPath
  stored : ∀ memory, w.stored = some memory → memory.1.readyPath ≠ "" →
    Packaged c w memory.1.readyVersion memory.1.readyPath

/-- **Invariant of a call**. -/
structure Trusted (place : Place) : Prop where
  consistent : place.Consistent
  busy : place.occupies = true → w.shared.busy = true
  accepted : ∀ release, place.release = some release → release ∈ w.accepted ∧
    (release.result.status = .available →
      older w.running.version release.result.latestVersion = true)
  received : ∀ release bytes, place.received = some (release, bytes) →
    w.shared.disk[part c release]? = some (sha256 bytes) ∧
      (want c release).utf8ByteSize = hexSHA256
  matched : ∀ release bytes, place.matched = some (release, bytes) →
    equalFold (sha256 bytes) (want c release) = true
  done : ∀ result path release, place = .call (.fetched result (.done path)) (some release) →
    path = dest c release ∧ ∃ digest, w.placed[path]? = some digest
  package : ∀ path, place.package = some path →
    ∃ version, older w.running.version version = true ∧ Packaged c w version path

end

/-- At most one call is past the test of `busy`. -/
def Apart (p q : Place) : Prop := p.occupies = true → q.occupies = false

theorem Apart.symm {p q : Place} (h : Apart p q) : Apart q p := by
  intro hq
  cases hp : p.occupies with
  | false => rfl
  | true =>
    rw [h hp] at hq
    cases hq

/-! ## What a step keeps -/

/-- The same process, later. -/
structure Onward (w t : World) : Prop where
  running : t.running = w.running
  accepted : ∀ release ∈ w.accepted, release ∈ t.accepted
  placed : ∀ path digest : String, w.placed[path]? = some digest → ∃ later, t.placed[path]? = some later

section Onward

variable {c : Config} {sha256 : List UInt8 → String} {w t u : World}

theorem Onward.refl : Onward w w := ⟨rfl, fun _ h => h, fun _ digest h => ⟨digest, h⟩⟩

theorem Onward.packaged (h : Onward w t) {version path : String} (hp : Packaged c w version path) :
    Packaged c t version path := by
  obtain ⟨digest, hdigest⟩ := hp.placed
  exact ⟨hp.named, h.placed path digest hdigest⟩

theorem Onward.attested (h : Onward w t) {path digest : String} (ha : Attested c w path digest) :
    Attested c t path digest := by
  obtain ⟨release, hrelease, hpath, hfile⟩ := ha
  exact ⟨release, h.accepted release hrelease, hpath, hfile⟩

/-- What is written of the memory concerns no call and no file. -/
theorem writeMemory_onward (h : Onward w t) : Onward w t.writeMemory := by
  unfold World.writeMemory
  split <;> exact ⟨h.running, h.accepted, h.placed⟩

@[simp] theorem writeMemory_shared : w.writeMemory.shared = w.shared := by
  unfold World.writeMemory
  split <;> rfl

@[simp] theorem writeMemory_running : w.writeMemory.running = w.running := by
  unfold World.writeMemory
  split <;> rfl

@[simp] theorem writeMemory_accepted : w.writeMemory.accepted = w.accepted := by
  unfold World.writeMemory
  split <;> rfl

@[simp] theorem writeMemory_placed : w.writeMemory.placed = w.placed := by
  unfold World.writeMemory
  split <;> rfl

/-- What is stored is what was, or what is remembered. -/
theorem Sound.writeMemory (h : Sound c w) : Sound c w.writeMemory := by
  refine ⟨?_, ?_, ?_, ?_, ?_⟩
  · simpa [Attested] using h.placed
  · simpa using h.files
  · simpa using h.newer
  · intro hpath
    have hready := h.remembered (by simpa using hpath)
    exact ⟨by simpa using hready.named, by simpa using hready.placed⟩
  · intro memory hmemory hpath
    have hpackaged : Packaged c w memory.1.readyVersion memory.1.readyPath := by
      unfold World.writeMemory at hmemory
      split at hmemory
      · obtain rfl := Option.some.inj hmemory
        exact h.remembered hpath
      · exact h.stored memory hmemory hpath
      · cases hmemory
    exact ⟨hpackaged.named, by simpa using hpackaged.placed⟩

/-- A later world is sound where its files are no more, and what it remembers and what is stored are
    as they were, or nothing. -/
theorem Sound.fewer (h : Sound c w) (ho : Onward w t) (hplaced : t.placed = w.placed)
    (hstored : t.stored = w.stored)
    (hfiles : ∀ version digest, t.shared.disk[c.path (c.packageName version)]? = some digest →
      w.shared.disk[c.path (c.packageName version)]? = some digest)
    (hready : t.shared.memory.readyPath ≠ "" →
      t.shared.memory.readyVersion = w.shared.memory.readyVersion ∧
        t.shared.memory.readyPath = w.shared.memory.readyPath) : Sound c t where
  placed path digest hdigest := by
    rw [hplaced] at hdigest
    exact ho.attested (h.placed path digest hdigest)
  files version digest hdigest := by
    rw [hplaced]
    exact h.files version digest (hfiles version digest hdigest)
  newer hpath := by
    obtain ⟨hversion, hsame⟩ := hready hpath
    rw [ho.running, hversion]
    exact h.newer (hsame ▸ hpath)
  remembered hpath := by
    obtain ⟨hversion, hsame⟩ := hready hpath
    rw [hversion, hsame]
    exact ho.packaged (h.remembered (hsame ▸ hpath))
  stored memory hmemory hpath := by
    rw [hstored] at hmemory
    exact ho.packaged (h.stored memory hmemory hpath)

/-- **A call elsewhere** may rely on what it relied on. -/
theorem Trusted.later {q : Place} (h : Trusted c sha256 w q) (ho : Onward w t)
    (hbusy : q.occupies = true → t.shared.busy = true)
    (hpart : q.occupies = true → ∀ release,
      t.shared.disk[part c release]? = w.shared.disk[part c release]?) : Trusted c sha256 t q where
  consistent := h.consistent
  busy := hbusy
  accepted release hrelease := by
    obtain ⟨hin, hnewer⟩ := h.accepted release hrelease
    refine ⟨ho.accepted release hin, fun havailable => ?_⟩
    rw [ho.running]
    exact hnewer havailable
  received release bytes hreceived := by
    have hoccupies : q.occupies = true := by
      cases q with
      | call p other => cases hreceived
      | asking | receiving | comparing | replacing | moving => rfl
    rw [hpart hoccupies release]
    exact h.received release bytes hreceived
  matched := h.matched
  done result path release hplace := by
    obtain ⟨hpath, digest, hdigest⟩ := h.done result path release hplace
    exact ⟨hpath, ho.placed path digest hdigest⟩
  package path hpath := by
    obtain ⟨version, hnewer, hpackaged⟩ := h.package path hpath
    refine ⟨version, ?_, ho.packaged hpackaged⟩
    rw [ho.running]
    exact hnewer

theorem Trusted.writeMemory {q : Place} (h : Trusted c sha256 w q) :
    Trusted c sha256 w.writeMemory q := by
  apply h.later (writeMemory_onward .refl)
  · rw [writeMemory_shared]
    exact h.busy
  · rw [writeMemory_shared]
    exact fun _ _ => rfl

end Onward

/-! ## Steps without a mirror -/

section Manage

variable {c : Config} {sha256 : List UInt8 → String} {w t : World} {p : Position}
  {release : Option Checked} {choice : Update.Choice} {next : Option Place}

/-- Such a step is one of the manager's, and what is written of the memory after it. -/
theorem manage_spec (h : manage c w p release choice = some (t, next)) :
    ∃ shared place, Update.advance (w.running.config c) w.shared p choice = some (shared, place) ∧
      t = (if writes p then { w with shared := shared }.writeMemory else { w with shared := shared }) ∧
      next = place.map fun q => .call q release := by
  obtain ⟨⟨shared, place⟩, hadvance, heq⟩ := Option.map_eq_some_iff.mp h
  cases heq
  exact ⟨shared, place, hadvance, rfl, rfl⟩

theorem sweep_subset {disk : Map String String} {keep path digest : String}
    (h : (c.sweep disk keep)[path]? = some digest) : disk[path]? = some digest := by
  unfold Config.sweep at h
  rw [Std.ExtTreeMap.getElem?_filter', Option.filter_eq_some_iff] at h
  exact h.1

/-- The world a step without a mirror leaves, before its memory is written. -/
theorem manage_sound (hw : Sound c w) (hp : Trusted c sha256 w (.call p release))
    (hchoice : choice = .go ∨ ∃ fails, choice = .apply fails) {shared : Shared}
    {place : Option Position}
    (h : Update.advance (w.running.config c) w.shared p choice = some (shared, place)) :
    Sound c { w with shared := shared } := by
  have ho : Onward w { w with shared := shared } := ⟨rfl, fun _ h => h, fun _ d h => ⟨d, h⟩⟩
  cases advance_leaves hchoice h with
  | same hversion hpath hdisk _ =>
    apply hw.fewer ho rfl rfl
    · intro version digest hdigest
      rwa [← hdisk]
    · exact fun _ => ⟨hversion, hpath⟩
  | sweeps =>
    apply hw.fewer ho rfl rfl
    · exact fun version digest hdigest => sweep_subset hdigest
    · exact fun _ => ⟨rfl, rfl⟩
  | keeps hposition =>
    rename_i result path
    subst hposition
    obtain ⟨hresult, havailable⟩ := hp.consistent.1 result rfl
    obtain ⟨checked, rfl, rfl⟩ := Option.map_eq_some_iff.mp hresult
    obtain ⟨hpath, hplaced⟩ := hp.done _ path checked rfl
    refine ⟨hw.placed, hw.files, fun _ => ?_, fun _ => ⟨hpath, hplaced⟩,
      fun memory hmemory hne => ho.packaged (hw.stored memory hmemory hne)⟩
    exact (hp.accepted checked rfl).2 havailable
  | forgets hpath =>
    apply hw.fewer ho rfl rfl
    · intro version digest hdigest
      dsimp only [forgetReady] at hdigest
      split at hdigest
      · exact hdigest
      · rw [Std.ExtTreeMap.getElem?_erase] at hdigest
        split at hdigest
        · cases hdigest
        · exact hdigest
    · intro hne
      exact absurd rfl hne

/-- **A step without a mirror** leaves the files sound, and the call what it may rely on. -/
theorem manage_own (hw : Sound c w) (hp : Trusted c sha256 w (.call p release))
    (hchoice : choice = .go ∨ ∃ fails, choice = .apply fails)
    (h : manage c w p release choice = some (t, next)) :
    Sound c t ∧ ∀ q, next = some q → Trusted c sha256 t q := by
  obtain ⟨shared, place, hadvance, rfl, rfl⟩ := manage_spec h
  have hsound := manage_sound hw hp hchoice hadvance
  have heffect := advance_effect hadvance
  have ho : Onward w { w with shared := shared } := ⟨rfl, fun _ h => h, fun _ d h => ⟨d, h⟩⟩
  have htrusted : ∀ q, (place.map fun q => Place.call q release) = some q →
      Trusted c sha256 { w with shared := shared } q := by
    intro q hq
    obtain ⟨position, hposition, rfl⟩ := Option.map_eq_some_iff.mp hq
    have hfollows : (∀ result, goesBy position = some result →
          release.map Checked.result = some result ∧ result.status = .available) ∧
        (∀ manual answer, position ≠ .folding manual answer) ∧
        ∀ result path, position ≠ .fetched result (.done path) := by
      cases advance_leaves hchoice hadvance with
      | same _ _ _ hnext =>
        have hsame := hnext position hposition
        refine ⟨fun result hresult => ?_, hsame.folding, hsame.done⟩
        rcases hsame.release result hresult with hbefore | ⟨⟨manual, hfolding⟩, havailable⟩
        · exact hp.consistent.1 result hbefore
        · exact ⟨(hp.consistent.2 manual (some result) hfolding).symm, havailable⟩
      | sweeps hfetching =>
        cases hposition
        subst hfetching
        exact ⟨hp.consistent.1, by simp, by simp⟩
      | keeps =>
        cases hposition
        exact ⟨fun result hresult => (by cases hresult), by simp, by simp⟩
      | forgets => cases hposition
    refine ⟨⟨hfollows.1, fun manual answer hsame => absurd hsame (hfollows.2.1 manual answer)⟩,
      heffect.busy_own hp.busy position hposition, hp.accepted, ?_, ?_, ?_, ?_⟩
    · exact fun _ _ hreceived => by cases hreceived
    · exact fun _ _ hmatched => by cases hmatched
    · intro result path other hplace
      cases hplace
      exact absurd rfl (hfollows.2.2 result path)
    · intro path hpath
      rcases heffect.package_from hposition hpath with hbefore | ⟨rfl, hne⟩
      · obtain ⟨version, hnewer, hpackaged⟩ := hp.package path hbefore
        exact ⟨version, hnewer, ho.packaged hpackaged⟩
      · exact ⟨_, hw.newer hne, ho.packaged (hw.remembered hne)⟩
  split
  · exact ⟨hsound.writeMemory, fun q hq => (htrusted q hq).writeMemory⟩
  · exact ⟨hsound, htrusted⟩

/-- Beside a download, only the remembered package is removed. -/
theorem advance_beside (hfree : p.occupies = false)
    (hchoice : choice = .go ∨ ∃ fails, choice = .apply fails) {shared : Shared}
    {place : Option Position}
    (h : Update.advance (w.running.config c) w.shared p choice = some (shared, place))
    {path : String} (hpath : path ≠ w.shared.memory.readyPath) :
    shared.disk[path]? = w.shared.disk[path]? := by
  cases advance_leaves hchoice h with
  | same _ _ hdisk _ => rw [hdisk]
  | sweeps hfetching =>
    rw [hfetching] at hfree
    cases hfree
  | keeps => rfl
  | forgets =>
    dsimp only [forgetReady]
    split
    · rfl
    · exact getElem?_erase_of_ne _ (Ne.symm hpath)

/-- **A step without a mirror** leaves every other call what it may rely on. -/
theorem manage_other (hc : Located c) (hw : Sound c w)
    (hchoice : choice = .go ∨ ∃ fails, choice = .apply fails) {q : Place}
    (hq : Trusted c sha256 w q) (hapart : Apart (.call p release) q)
    (h : manage c w p release choice = some (t, next)) :
    Trusted c sha256 t q ∧ ∀ r, next = some r → Apart r q := by
  obtain ⟨shared, place, hadvance, rfl, rfl⟩ := manage_spec h
  obtain ⟨hbusy, hnext⟩ := (advance_effect hadvance).busy_other hq.busy hapart
  have ho : Onward w { w with shared := shared } := ⟨rfl, fun _ h => h, fun _ d h => ⟨d, h⟩⟩
  have hpart : q.occupies = true → ∀ release, shared.disk[part c release]? =
      w.shared.disk[part c release]? := by
    intro hoccupies other
    have hfree : p.occupies = false := by
      cases hp : p.occupies with
      | false => rfl
      | true =>
        rw [hapart hp] at hoccupies
        cases hoccupies
    by_cases hnone : w.shared.memory.readyPath = ""
    · apply advance_beside hfree hchoice hadvance
      rw [hnone]
      intro hempty
      have hlist := congrArg String.toList hempty
      simp [part] at hlist
    · apply advance_beside hfree hchoice hadvance
      rw [(hw.remembered hnone).named]
      exact part_ne hc other _
  have htrusted : Trusted c sha256 { w with shared := shared } q := hq.later ho hbusy hpart
  refine ⟨?_, fun r hr hoccupies => ?_⟩
  · split
    · exact htrusted.writeMemory
    · exact htrusted
  · obtain ⟨position, hposition, rfl⟩ := Option.map_eq_some_iff.mp hr
    exact hnext position hposition hoccupies

end Manage

/-! ## Steps that ask the mirrors -/

section Resolve

variable {c : Config} {calendar : Calendar} {sha256 : List UInt8 → String} {w t : World}
  {p : Position} {now later : Int} {quick : Answer} {arrivals : List Arrival}
  {next : Option Place}

/-- What a check found is accepted, whatever becomes of it. -/
def found (w : World) (ran : MirrorMemory × Option Checked) : World :=
  { w with mirrors := ran.1, accepted := w.accepted ++ ran.2.toList }

/-- Where a check or a download goes on with what was found. -/
inductive Resolved (p : Position) (checked : Option Checked) : Option Place → Prop where
  | folds {manual : Bool} : p = .resolving manual →
    Resolved p checked (some (.call (.folding manual (checked.map Checked.result)) checked))
  | fails : p = .rechecking → Resolved p checked (some (.call .failing checked))
  | stops : p = .rechecking → Resolved p checked none
  | enters {release : Checked} : p = .rechecking → checked = some release →
    release.result.status = .available →
    Resolved p checked (some (.call (.entering release.result) checked))

theorem resolve_spec (h : resolve c calendar w p now later quick arrivals = some (t, next)) :
    ∃ ran, ran = runCheck calendar w.running.version w.mirrors now later quick arrivals ∧
      t = (if ran.2.isSome then (found w ran).writeMemory else found w ran) ∧
      Resolved p ran.2 next := by
  obtain ⟨⟨shared, place⟩, hadvance, heq⟩ := Option.map_eq_some_iff.mp h
  refine ⟨_, rfl, ?_⟩
  generalize runCheck calendar w.running.version w.mirrors now later quick arrivals = ran at *
  obtain ⟨mirrors, checked⟩ := ran
  cases p with
  | resolving manual =>
    cases hadvance
    cases heq
    exact ⟨rfl, .folds rfl⟩
  | rechecking =>
    cases checked with
    | none =>
      cases hadvance
      cases heq
      exact ⟨rfl, .fails rfl⟩
    | some release =>
      simp only [Update.advance, Option.map_some] at hadvance
      split at hadvance
      · cases hadvance
        cases heq
        exact ⟨rfl, .stops rfl⟩
      · rename_i havailable
        cases hadvance
        cases heq
        exact ⟨rfl, .enters rfl rfl (not_not.mp havailable)⟩
  | attempting => cases hadvance
  | applying => cases hadvance
  | _ => simp [Update.advance] at hadvance

theorem found_onward (ran : MirrorMemory × Option Checked) : Onward w (found w ran) :=
  ⟨rfl, fun _ hrelease => List.mem_append_left _ hrelease, fun _ digest h => ⟨digest, h⟩⟩

theorem found_sound (hw : Sound c w) (ran : MirrorMemory × Option Checked) :
    Sound c (found w ran) := by
  apply hw.fewer (found_onward ran) rfl rfl
  · exact fun version digest h => h
  · exact fun _ => ⟨rfl, rfl⟩

theorem resolve_own (hw : Sound c w) {release : Option Checked}
    (hp : Trusted c sha256 w (.call p release))
    (h : resolve c calendar w p now later quick arrivals = some (t, next)) :
    Sound c t ∧ ∀ q, next = some q → Trusted c sha256 t q := by
  obtain ⟨ran, hran, rfl, hresolved⟩ := resolve_spec h
  have hsound := found_sound hw ran
  have haccepted : ∀ checked, ran.2 = some checked → checked ∈ (found w ran).accepted ∧
      (checked.result.status = .available →
        older w.running.version checked.result.latestVersion = true) := by
    intro checked hchecked
    refine ⟨List.mem_append_right _ (by rw [hchecked]; exact List.mem_cons_self), ?_⟩
    rw [hran] at hchecked
    exact newer_of_runCheck hchecked
  have htrusted : ∀ q, next = some q → Trusted c sha256 (found w ran) q := by
    intro q hq
    cases hresolved with
    | folds hposition =>
      subst hposition
      cases hq
      refine ⟨⟨fun result hresult => (by cases hresult), fun manual answer hsame => ?_⟩,
        fun _ => hp.busy rfl, haccepted, ?_, ?_, ?_, ?_⟩
      · cases hsame
        rfl
      · exact fun _ _ hreceived => by cases hreceived
      · exact fun _ _ hmatched => by cases hmatched
      · exact fun _ _ _ hplace => by cases hplace
      · exact fun _ hpath => by cases hpath
    | fails =>
      cases hq
      refine ⟨⟨fun result hresult => (by cases hresult), fun _ _ hsame => (by cases hsame)⟩,
        fun hoccupies => (by cases hoccupies), haccepted, ?_, ?_, ?_, ?_⟩
      · exact fun _ _ hreceived => by cases hreceived
      · exact fun _ _ hmatched => by cases hmatched
      · exact fun _ _ _ hplace => by cases hplace
      · exact fun _ hpath => by cases hpath
    | stops => cases hq
    | enters _ hchecked havailable =>
      cases hq
      refine ⟨⟨fun result hresult => ?_, fun _ _ hsame => (by cases hsame)⟩,
        fun hoccupies => (by cases hoccupies), haccepted, ?_, ?_, ?_, ?_⟩
      · obtain rfl := Option.some.inj hresult
        rw [hchecked]
        exact ⟨rfl, havailable⟩
      · exact fun _ _ hreceived => by cases hreceived
      · exact fun _ _ hmatched => by cases hmatched
      · exact fun _ _ _ hplace => by cases hplace
      · exact fun _ hpath => by cases hpath
  split
  · exact ⟨hsound.writeMemory, fun q hq => (htrusted q hq).writeMemory⟩
  · exact ⟨hsound, htrusted⟩

theorem resolve_other {release : Option Checked} {q : Place} (hq : Trusted c sha256 w q)
    (hapart : Apart (.call p release) q)
    (h : resolve c calendar w p now later quick arrivals = some (t, next)) :
    Trusted c sha256 t q ∧ ∀ r, next = some r → Apart r q := by
  obtain ⟨ran, -, rfl, hresolved⟩ := resolve_spec h
  have htrusted : Trusted c sha256 (found w ran) q :=
    hq.later (found_onward ran) hq.busy fun _ _ => rfl
  refine ⟨?_, fun r hr hoccupies => ?_⟩
  · split
    · exact htrusted.writeMemory
    · exact htrusted
  · cases hresolved with
    | folds hposition =>
      subst hposition
      exact hapart rfl
    | fails | enters =>
      cases hr
      cases hoccupies
    | stops => cases hr

end Resolve

/-! ## Steps of a fetch -/

section Fetch

variable {c : Config} {calendar : Calendar} {sha256 : List UInt8 → String} {w t : World}
  {place : Place} {choice : Choice} {next : Option Place}

theorem put_onward (path digest : String) : Onward w (w.put path digest) :=
  ⟨rfl, fun _ h => h, fun _ d h => ⟨d, h⟩⟩

theorem remove_onward (path : String) : Onward w (w.remove path) :=
  ⟨rfl, fun _ h => h, fun _ d h => ⟨d, h⟩⟩

theorem moved_onward (release : Checked) (digest : String) :
    Onward w (moved c w release digest) := by
  refine ⟨rfl, fun _ h => h, fun path before h => ?_⟩
  dsimp only [moved]
  rw [getElem?_insert_ite]
  split
  · exact ⟨_, rfl⟩
  · exact ⟨before, h⟩

/-- A partial file is no package. -/
theorem put_part_sound (hc : Located c) (hw : Sound c w) (release : Checked) (digest : String) :
    Sound c (w.put (part c release) digest) := by
  apply hw.fewer (put_onward _ _) rfl rfl
  · intro version other hother
    rwa [World.put, getElem?_insert_of_ne _ _ (part_ne hc release version)] at hother
  · exact fun _ => ⟨rfl, rfl⟩

theorem remove_sound (hw : Sound c w) (path : String) : Sound c (w.remove path) := by
  apply hw.fewer (remove_onward _) rfl rfl
  · intro version other hother
    rw [World.remove, Std.ExtTreeMap.getElem?_erase] at hother
    split at hother
    · cases hother
    · exact hother
  · exact fun _ => ⟨rfl, rfl⟩

/-- What a call of a fetch relies on whatever it holds. -/
structure Fetching (w : World) (release : Checked) : Prop where
  busy : w.shared.busy = true
  accepted : release ∈ w.accepted
  available : release.result.status = .available
  newer : older w.running.version release.result.latestVersion = true

theorem Trusted.fetching (hp : Trusted c sha256 w place) {release : Checked}
    (hrelease : place.release = some release) (hoccupies : place.occupies = true)
    (havailable : release.result.status = .available) : Fetching w release where
  busy := hp.busy hoccupies
  accepted := (hp.accepted release hrelease).1
  available := havailable
  newer := (hp.accepted release hrelease).2 havailable

theorem Fetching.onward {release : Checked} (h : Fetching w release) (ho : Onward w t)
    (hbusy : t.shared.busy = w.shared.busy) : Fetching t release where
  busy := hbusy.trans h.busy
  accepted := ho.accepted release h.accepted
  available := h.available
  newer := by
    rw [ho.running]
    exact h.newer

/-- **A call of a fetch** may rely on what holds of the bytes it received. -/
theorem Fetching.trusted {release : Checked} (h : Fetching w release) {q : Place}
    (hrelease : q.release = some release) (hconsistent : q.Consistent)
    (hpackage : q.package = none)
    (hreceived : ∀ bytes, q.received = some (release, bytes) →
      w.shared.disk[part c release]? = some (sha256 bytes) ∧
        (want c release).utf8ByteSize = hexSHA256)
    (hmatched : ∀ bytes, q.matched = some (release, bytes) →
      equalFold (sha256 bytes) (want c release) = true)
    (hdone : ∀ result path, q = .call (.fetched result (.done path)) (some release) →
      path = dest c release ∧ ∃ digest, w.placed[path]? = some digest) :
    Trusted c sha256 w q where
  consistent := hconsistent
  busy _ := h.busy
  accepted other hother := by
    obtain rfl := Option.some.inj (hrelease.symm.trans hother)
    exact ⟨h.accepted, fun _ => h.newer⟩
  received other bytes hother := by
    have hsame : q.release = some other := by
      cases q with
      | call | asking => cases hother
      | receiving | comparing | replacing | moving =>
        cases hother
        rfl
    obtain rfl := Option.some.inj (hrelease.symm.trans hsame)
    exact hreceived bytes hother
  matched other bytes hother := by
    have hsame : q.release = some other := by
      cases q with
      | call | asking | receiving | comparing => cases hother
      | replacing | moving =>
        cases hother
        rfl
    obtain rfl := Option.some.inj (hrelease.symm.trans hsame)
    exact hmatched bytes hother
  done result path other hother := by
    have hsame : q.release = some other := by rw [hother]; rfl
    obtain rfl := Option.some.inj (hrelease.symm.trans hsame)
    exact hdone result path hother
  package path hpath := by
    rw [hpackage] at hpath
    cases hpath

/-- The next mirror is asked. -/
theorem Fetching.asks {release : Checked} (h : Fetching w release) (rest : List Mirror) :
    Trusted c sha256 w (.asking release rest) := by
  have hconsistent : (Place.asking release rest).Consistent := h.available
  apply h.trusted rfl hconsistent rfl
  · exact fun _ hreceived => by cases hreceived
  · exact fun _ hmatched => by cases hmatched
  · exact fun _ _ hplace => by cases hplace

/-- A fetch that is over without a package. -/
theorem Fetching.ends {release : Checked} (h : Fetching w release) {outcome : Fetched}
    (houtcome : ∀ path, outcome ≠ .done path) :
    Trusted c sha256 w (.call (.fetched release.result outcome) (some release)) := by
  apply h.trusted rfl _ rfl
  · exact fun _ hreceived => by cases hreceived
  · exact fun _ hmatched => by cases hmatched
  · intro result path hplace
    cases hplace
    exact absurd rfl (houtcome path)
  · refine ⟨fun result hresult => ?_, fun _ _ hsame => (by cases hsame)⟩
    obtain rfl := Option.some.inj hresult
    exact ⟨rfl, h.available⟩

/-- **An attempt that is given up** leaves no partial file. -/
theorem giveUp_own (hw : Sound c w) {release : Checked} (hfetching : Fetching w release)
    {rest : List Mirror} {cancelled : Bool}
    (h : giveUp c w release rest cancelled = some (t, next)) :
    Sound c t ∧ ∀ q, next = some q → Trusted c sha256 t q := by
  have hdropped : Fetching (w.remove (part c release)) release :=
    hfetching.onward (remove_onward _) rfl
  unfold giveUp at h
  dsimp only at h
  split at h
  · cases h
    refine ⟨remove_sound hw _, fun q hq => ?_⟩
    cases hq
    exact hdropped.asks rest
  · split at h
    · cases h
      refine ⟨remove_sound hw _, fun q hq => ?_⟩
      cases hq
      exact hdropped.ends (by simp)
    · cases h

/-- **The package is put in its place.** -/
theorem moved_sound (hc : Located c) (hw : Sound c w) {release : Checked} {bytes : List UInt8}
    (hfetching : Fetching w release)
    (hwant : (want c release).utf8ByteSize = hexSHA256)
    (hmatched : equalFold (sha256 bytes) (want c release) = true) :
    Sound c (moved c w release (sha256 bytes)) := by
  have ho : Onward w (moved c w release (sha256 bytes)) := moved_onward release _
  -- a published digest is one of a file that is listed
  have hlisted : ∃ file,
      release.manifest.files[c.packageName release.result.latestVersion]? = some file ∧
        equalFold (sha256 bytes) file.sha256 = true := by
    unfold want at hwant hmatched
    cases hfile : release.manifest.files[c.packageName release.result.latestVersion]? with
    | none =>
      rw [hfile] at hwant
      exact absurd hwant (by decide)
    | some file =>
      rw [hfile] at hmatched
      exact ⟨file, rfl, hmatched⟩
  have hattested : Attested c w (dest c release) (sha256 bytes) :=
    ⟨release, hfetching.accepted, rfl, hlisted⟩
  refine ⟨fun path digest hdigest => ?_, fun version digest hdigest => ?_, hw.newer,
    fun hne => ho.packaged (hw.remembered hne),
    fun memory hmemory hne => ho.packaged (hw.stored memory hmemory hne)⟩
  · dsimp only [moved] at hdigest
    rw [getElem?_insert_ite] at hdigest
    split at hdigest
    · rename_i hsame
      subst hsame
      obtain rfl := Option.some.inj hdigest
      exact ho.attested hattested
    · exact ho.attested (hw.placed path digest hdigest)
  · dsimp only [moved, World.put, World.remove] at hdigest ⊢
    rw [getElem?_insert_ite] at hdigest ⊢
    split at hdigest
    · rename_i hsame
      rw [if_pos hsame]
      exact hdigest
    · rename_i hne
      rw [if_neg hne]
      rw [getElem?_erase_of_ne _ (part_ne hc release version)] at hdigest
      exact hw.files version digest hdigest

/-- **A step of a fetch** leaves the files sound, and the call what it may rely on. -/
theorem fetch_own (hc : Located c) (hw : Sound c w) (hp : Trusted c sha256 w place)
    (hfetch : ∀ p release, place ≠ .call p release)
    (h : advance c calendar sha256 w place choice = some (t, next)) :
    Sound c t ∧ ∀ q, next = some q → Trusted c sha256 t q := by
  cases place with
  | call p release => exact absurd rfl (hfetch p release)
  | asking release rest =>
    have hfetching := hp.fetching rfl rfl hp.consistent
    cases rest with
    | nil =>
      cases choice with
      | go =>
        cases h
        refine ⟨hw, fun q hq => ?_⟩
        cases hq
        exact hfetching.ends (by simp)
      | _ => cases h
    | cons mirror rest =>
      cases choice with
      | go =>
        simp only [advance] at h
        split at h
        · cases h
          refine ⟨hw, fun q hq => ?_⟩
          cases hq
          exact hfetching.asks rest
        · rename_i hwant
          cases h
          have hcreated : Fetching (w.put (part c release) (sha256 [])) release :=
            hfetching.onward (put_onward _ _) rfl
          refine ⟨put_part_sound hc hw release _, fun q hq => ?_⟩
          cases hq
          have hconsistent : (Place.receiving release rest []).Consistent := hfetching.available
          apply hcreated.trusted rfl hconsistent rfl
          · intro bytes hbytes
            cases hbytes
            exact ⟨Std.ExtTreeMap.getElem?_insert_self, not_not.mp hwant⟩
          · exact fun _ hmatched => by cases hmatched
          · exact fun _ _ hplace => by cases hplace
      | fails =>
        cases h
        refine ⟨hw, fun q hq => ?_⟩
        cases hq
        exact hfetching.asks rest
      | cancelled =>
        simp only [advance] at h
        split at h
        · cases h
          refine ⟨hw, fun q hq => ?_⟩
          cases hq
          exact hfetching.ends (by simp)
        · cases h
      | _ => cases h
  | receiving release rest bytes =>
    have hfetching := hp.fetching rfl rfl hp.consistent
    obtain ⟨hheld, hwant⟩ := hp.received release bytes rfl
    cases choice with
    | go =>
      cases h
      refine ⟨hw, fun q hq => ?_⟩
      cases hq
      have hconsistent : (Place.comparing release rest bytes).Consistent := hfetching.available
      apply hfetching.trusted rfl hconsistent rfl
      · intro other hother
        cases hother
        exact ⟨hheld, hwant⟩
      · exact fun _ hmatched => by cases hmatched
      · exact fun _ _ hplace => by cases hplace
    | bytes more =>
      cases h
      have hwritten : Fetching (w.put (part c release) (sha256 (bytes ++ more))) release :=
        hfetching.onward (put_onward _ _) rfl
      refine ⟨put_part_sound hc hw release _, fun q hq => ?_⟩
      cases hq
      have hconsistent : (Place.receiving release rest (bytes ++ more)).Consistent :=
        hfetching.available
      apply hwritten.trusted rfl hconsistent rfl
      · intro other hother
        cases hother
        exact ⟨Std.ExtTreeMap.getElem?_insert_self, hwant⟩
      · exact fun _ hmatched => by cases hmatched
      · exact fun _ _ hplace => by cases hplace
    | fails =>
      simp only [advance] at h
      exact giveUp_own hw hfetching h
    | cancelled =>
      simp only [advance] at h
      exact giveUp_own hw hfetching h
    | _ => cases h
  | comparing release rest bytes =>
    have hfetching := hp.fetching rfl rfl hp.consistent
    cases choice with
    | go =>
      simp only [advance] at h
      split at h
      · rename_i hmatches
        cases h
        refine ⟨hw, fun q hq => ?_⟩
        cases hq
        have hconsistent : (Place.replacing release rest bytes).Consistent := hfetching.available
        apply hfetching.trusted rfl hconsistent rfl
        · intro other hother
          cases hother
          exact hp.received release bytes rfl
        · intro other hother
          cases hother
          exact hmatches
        · exact fun _ _ hplace => by cases hplace
      · exact giveUp_own hw hfetching h
    | fails =>
      simp only [advance] at h
      exact giveUp_own hw hfetching h
    | _ => cases h
  | replacing release rest bytes =>
    have hfetching := hp.fetching rfl rfl hp.consistent
    obtain ⟨hheld, hwant⟩ := hp.received release bytes rfl
    have hconsistent : (Place.moving release rest bytes).Consistent := hfetching.available
    cases choice with
    | go =>
      cases h
      have hcleared : Fetching (w.remove (dest c release)) release :=
        hfetching.onward (remove_onward _) rfl
      refine ⟨remove_sound hw _, fun q hq => ?_⟩
      cases hq
      apply hcleared.trusted rfl hconsistent rfl
      · intro other hother
        cases hother
        have hne : dest c release ≠ part c release := Ne.symm (part_ne hc release _)
        exact ⟨(getElem?_erase_of_ne _ hne).trans hheld, hwant⟩
      · intro other hother
        cases hother
        exact hp.matched release bytes rfl
      · exact fun _ _ hplace => by cases hplace
    | fails =>
      cases h
      refine ⟨hw, fun q hq => ?_⟩
      cases hq
      apply hfetching.trusted rfl hconsistent rfl
      · intro other hother
        cases hother
        exact ⟨hheld, hwant⟩
      · intro other hother
        cases hother
        exact hp.matched release bytes rfl
      · exact fun _ _ hplace => by cases hplace
    | _ => cases h
  | moving release rest bytes =>
    have hfetching := hp.fetching rfl rfl hp.consistent
    obtain ⟨hheld, hwant⟩ := hp.received release bytes rfl
    cases choice with
    | go =>
      simp only [advance, hheld] at h
      cases h
      have hsound := moved_sound hc hw hfetching hwant (hp.matched release bytes rfl)
      refine ⟨hsound, fun q hq => ?_⟩
      cases hq
      have hconsistent : (Place.call (.fetched release.result (.done (dest c release)))
          (some release)).Consistent := by
        refine ⟨fun result hresult => ?_, fun _ _ hsame => (by cases hsame)⟩
        obtain rfl := Option.some.inj hresult
        exact ⟨rfl, hfetching.available⟩
      have hmoved : Fetching (moved c w release (sha256 bytes)) release :=
        hfetching.onward (moved_onward release _) rfl
      apply hmoved.trusted rfl hconsistent rfl
      · exact fun _ hreceived => by cases hreceived
      · exact fun _ hmatched => by cases hmatched
      · intro result path hplace
        cases hplace
        exact ⟨rfl, _, Std.ExtTreeMap.getElem?_insert_self⟩
    | fails =>
      simp only [advance] at h
      exact giveUp_own hw hfetching h
    | _ => cases h

/-- A step of a fetch is a later moment of one process, and leaves the manager as busy as it was. -/
theorem fetch_onward (hfetch : ∀ p release, place ≠ .call p release)
    (h : advance c calendar sha256 w place choice = some (t, next)) :
    Onward w t ∧ t.shared.busy = w.shared.busy := by
  have hgiven : ∀ release rest cancelled, giveUp c w release rest cancelled = some (t, next) →
      Onward w t ∧ t.shared.busy = w.shared.busy := by
    intro release rest cancelled hgive
    unfold giveUp at hgive
    dsimp only at hgive
    split at hgive
    · cases hgive
      exact ⟨remove_onward _, rfl⟩
    · split at hgive
      · cases hgive
        exact ⟨remove_onward _, rfl⟩
      · cases hgive
  unfold advance at h
  split at h
  · exact absurd rfl (hfetch _ _)
  · exact absurd rfl (hfetch _ _)
  · exact absurd rfl (hfetch _ _)
  · exact absurd rfl (hfetch _ _)
  · cases h
    exact ⟨.refl, rfl⟩
  · split at h
    · cases h
      exact ⟨.refl, rfl⟩
    · cases h
      exact ⟨put_onward _ _, rfl⟩
  · cases h
    exact ⟨.refl, rfl⟩
  · split at h
    · cases h
      exact ⟨.refl, rfl⟩
    · cases h
  · cases h
    exact ⟨put_onward _ _, rfl⟩
  · cases h
    exact ⟨.refl, rfl⟩
  · exact hgiven _ _ _ h
  · exact hgiven _ _ _ h
  · split at h
    · cases h
      exact ⟨.refl, rfl⟩
    · exact hgiven _ _ _ h
  · exact hgiven _ _ _ h
  · cases h
    exact ⟨remove_onward _, rfl⟩
  · cases h
    exact ⟨.refl, rfl⟩
  · split at h
    · cases h
    · cases h
      exact ⟨moved_onward _ _, rfl⟩
  · exact hgiven _ _ _ h
  · cases h

end Fetch

/-! ## Every run -/

section Runs

variable {c : Config} {calendar : Calendar} {sha256 : List UInt8 → String} {w t : World}

/-- A step of a call is the manager's, asks the mirrors, or starts a fetch. -/
theorem advance_call {p : Position} {release : Option Checked} {choice : Choice}
    {next : Option Place}
    (h : advance c calendar sha256 w (.call p release) choice = some (t, next)) :
    (∃ result checked, p = .attempting result ∧ release = some checked ∧ t = w ∧
      next = some (.asking checked checked.attempts)) ∨
    (∃ old, (old = .go ∨ ∃ fails, old = .apply fails) ∧
      manage c w p release old = some (t, next)) ∨
    ∃ now later quick arrivals, resolve c calendar w p now later quick arrivals = some (t, next) := by
  generalize hplace : Place.call p release = place at h
  unfold advance at h
  split at h
  · cases hplace
    cases h
    exact .inl ⟨_, _, rfl, rfl, rfl, rfl⟩
  · cases hplace
    exact .inr (.inl ⟨.go, .inl rfl, h⟩)
  · cases hplace
    exact .inr (.inl ⟨.apply _, .inr ⟨_, rfl⟩, h⟩)
  · cases hplace
    exact .inr (.inr ⟨_, _, _, _, h⟩)
  -- the other steps are those of a fetch
  all_goals first | (cases hplace; done) | cases h

theorem advance_own (hc : Located c) (hw : Sound c w) {place : Place}
    (hp : Trusted c sha256 w place) {choice : Choice} {next : Option Place}
    (h : advance c calendar sha256 w place choice = some (t, next)) :
    Sound c t ∧ ∀ q, next = some q → Trusted c sha256 t q := by
  cases place with
  | call p release =>
    rcases advance_call h with ⟨result, checked, rfl, rfl, rfl, rfl⟩ | ⟨old, hold, hmanage⟩ |
      ⟨now, later, quick, arrivals, hresolve⟩
    · refine ⟨hw, fun q hq => ?_⟩
      cases hq
      obtain ⟨hresult, havailable⟩ := hp.consistent.1 result rfl
      obtain rfl := Option.some.inj hresult
      exact (hp.fetching rfl rfl havailable).asks _
    · exact manage_own hw hp hold hmanage
    · exact resolve_own hw hp hresolve
  | _ => exact fetch_own hc hw hp (by simp) h

theorem advance_other (hc : Located c) (hw : Sound c w) {place q : Place}
    (hq : Trusted c sha256 w q) (hapart : Apart place q) {choice : Choice} {next : Option Place}
    (h : advance c calendar sha256 w place choice = some (t, next)) :
    Trusted c sha256 t q ∧ ∀ r, next = some r → Apart r q := by
  have hfetch : place.occupies = true → Onward w t → t.shared.busy = w.shared.busy →
      Trusted c sha256 t q ∧ ∀ r, next = some r → Apart r q := by
    intro hoccupies ho hbusy
    have hfree : q.occupies = false := hapart hoccupies
    refine ⟨hq.later ho (fun hq => ?_) (fun hq => ?_), fun _ _ _ => hfree⟩
    · rw [hfree] at hq
      cases hq
    · rw [hfree] at hq
      cases hq
  cases place with
  | call p release =>
    rcases advance_call h with ⟨result, checked, rfl, rfl, rfl, rfl⟩ | ⟨old, hold, hmanage⟩ |
      ⟨now, later, quick, arrivals, hresolve⟩
    · exact hfetch rfl .refl rfl
    · exact manage_other hc hw hold hq hapart hmanage
    · exact resolve_other hq hapart hresolve
  | _ =>
    obtain ⟨ho, hbusy⟩ := fetch_onward (by simp) h
    exact hfetch rfl ho hbusy

/-- What a manager starts with: what is stored, or nothing that can be installed. -/
theorem new_ready (c : Config) (memory : Memory) (policy : Policy) (disk : Map String String) :
    ((new c memory policy disk).memory = memory ∧ (new c memory policy disk).disk = disk ∧
        (memory.readyPath ≠ "" → older c.version memory.readyVersion = true)) ∨
      (new c memory policy disk).memory.readyPath = "" ∧
        (new c memory policy disk).disk = disk.erase memory.readyPath := by
  unfold new restoreReady
  split
  · rename_i hnone
    exact .inl ⟨rfl, rfl, fun hne => absurd hnone hne⟩
  · split
    · rename_i hkept
      simp only [Bool.and_eq_true] at hkept
      exact .inl ⟨rfl, rfl, fun _ => hkept.2⟩
    · exact .inr ⟨rfl, rfl⟩

/-- **A restart** finds sound files, and trusts of its memory what is newer than itself. -/
theorem restart_sound (hw : Sound c w) : Sound c (restart c w) := by
  have hmemory : (w.stored.getD (⟨"", "", ""⟩, ⟨"", "", []⟩)).1.readyPath ≠ "" →
      Packaged c w (w.stored.getD (⟨"", "", ""⟩, ⟨"", "", []⟩)).1.readyVersion
        (w.stored.getD (⟨"", "", ""⟩, ⟨"", "", []⟩)).1.readyPath := by
    cases hstored : w.stored with
    | none => exact fun hne => absurd rfl hne
    | some memory => exact hw.stored memory hstored
  have hready := new_ready (w.installed.config c)
    (w.stored.getD (⟨"", "", ""⟩, ⟨"", "", []⟩)).1 w.shared.policy w.shared.disk
  have hstarted : Sound c { w with
      running := w.installed
      shared := new (w.installed.config c) (w.stored.getD (⟨"", "", ""⟩, ⟨"", "", []⟩)).1
        w.shared.policy w.shared.disk
      mirrors := (w.stored.getD (⟨"", "", ""⟩, ⟨"", "", []⟩)).2 } := by
    refine ⟨hw.placed, fun version digest hdigest => ?_, fun hne => ?_, fun hne => ?_, fun memory hstored hne => ?_⟩
    · rcases hready with ⟨-, hdisk, -⟩ | ⟨-, hdisk⟩
      · dsimp only at hdigest
        rw [hdisk] at hdigest
        exact hw.files version digest hdigest
      · dsimp only at hdigest
        rw [hdisk, Std.ExtTreeMap.getElem?_erase] at hdigest
        split at hdigest
        · cases hdigest
        · exact hw.files version digest hdigest
    · rcases hready with ⟨hsame, -, hnewer⟩ | ⟨hnone, -⟩
      · dsimp only at hne ⊢
        rw [hsame] at hne ⊢
        exact hnewer hne
      · exact absurd hnone hne
    · rcases hready with ⟨hsame, -, -⟩ | ⟨hnone, -⟩
      · dsimp only at hne ⊢
        rw [hsame] at hne ⊢
        exact ⟨(hmemory hne).named, (hmemory hne).placed⟩
      · exact absurd hnone hne
    · exact ⟨(hw.stored memory hstored hne).named, (hw.stored memory hstored hne).placed⟩
  unfold restart
  dsimp only
  split
  · exact hstarted
  · exact hstarted.writeMemory

/-- **Invariants** of every interleaving. -/
theorem attested_invariants (hc : Located c) :
    (calls c calendar sha256).InvariantsWhen Program.Condition.none (Sound c) (Trusted c sha256)
      Apart where
  symm _ _ h := h.symm
  start w hstart := by
    obtain ⟨build, policy, write, rfl⟩ := hstart
    have hempty : (new (build.config c) ⟨"", "", ""⟩ policy ∅).memory.readyPath = "" := rfl
    refine ⟨fun _ _ h => ?_, fun _ _ h => ?_, fun hne => absurd hempty hne,
      fun hne => absurd hempty hne, fun _ h => by cases h⟩
    · simp at h
    · simp [new, restoreReady] at h
  arrive w place hw harrives := by
    have hidle : Trusted c sha256 w place ∧ place.occupies = false := by
      cases place with
      | call p release =>
        cases release with
        | some release => cases harrives
        | none =>
          cases p with
          | checking | rechecking | cancelling | skipping | installing | quitting =>
            refine ⟨⟨⟨fun _ h => (by cases h), fun _ _ h => (by cases h)⟩,
              fun h => (by cases h), fun _ h => (by cases h), fun _ _ h => (by cases h),
              fun _ _ h => (by cases h), fun _ _ _ h => (by cases h), fun _ h => (by cases h)⟩, rfl⟩
          | _ => cases harrives
      | _ => cases harrives
    refine ⟨hidle.1, fun q _ hoccupies => ?_⟩
    rw [hidle.2] at hoccupies
    cases hoccupies
  own w place choice next hw hp hadvance _ := advance_own hc hw hp hadvance
  other w place choice next q hw _ hadvance _ hq hapart _ _ :=
    advance_other hc hw hq hapart hadvance
  environment w e t hw henvironment _ := by
    have hlater : Onward w t ∧ t.shared.disk = w.shared.disk ∧
        t.shared.memory = w.shared.memory ∧ t.shared.busy = w.shared.busy ∧
        t.stored = w.stored ∧ t.placed = w.placed := by
      cases e with
      | policy policy | installs build | writes write =>
        cases henvironment
        exact ⟨⟨rfl, fun _ h => h, fun _ digest h => ⟨digest, h⟩⟩, rfl, rfl, rfl, rfl, rfl⟩
    obtain ⟨ho, hdisk, hmemory, hbusy, hstored, hplaced⟩ := hlater
    constructor
    · apply hw.fewer ho hplaced hstored
      · intro version digest hdigest
        rwa [hdisk] at hdigest
      · rw [hmemory]
        exact fun _ => ⟨rfl, rfl⟩
    · intro place hp
      apply hp.later ho
      · rw [hbusy]
        exact hp.busy
      · rw [hdisk]
        exact fun _ _ => rfl

/-- **Only attested, newer packages are installed**, in every run over every process. -/
theorem only_attested (c : Config) (calendar : Calendar) (sha256 : List UInt8 → String)
    (hc : Located c) {s : Threads World Place}
    (hs : Reachable (processes c calendar sha256) Always s) : OnlyAttested c s := by
  have hreachable : Reachable (processes c calendar sha256) Program.Condition.none.OkLife s := by
    apply hs.mono
    intro s life _
    cases life with
    | none => trivial
    | some turn => exact Program.Condition.ok_none s turn
  have hkept := (attested_invariants hc).reachableLife (fun _ => restart_sound) hreachable
  have hverified : ∀ version path, older s.shared.running.version version = true →
      Packaged c s.shared version path → Verified c s.shared version path := by
    intro version path hnewer hpackaged
    obtain ⟨digest, hdigest⟩ := hpackaged.placed
    exact ⟨hnewer, hpackaged.named, digest, hdigest, hkept.shared.placed path digest hdigest⟩
  constructor
  case files =>
    intro version digest hdigest
    have hplaced := hkept.shared.files version digest hdigest
    exact ⟨hplaced, hkept.shared.placed _ digest hplaced⟩
  case remembered =>
    intro hne
    exact hverified _ _ (hkept.shared.newer hne) (hkept.shared.remembered hne)
  case handed =>
    intro k p release path hk hpath
    obtain ⟨version, hnewer, hpackaged⟩ := (hkept.local' k _ hk).package path hpath
    exact ⟨version, hverified version path hnewer hpackaged⟩

end Runs

/-! ## A mirror that serves other bytes -/

/-- A build for one platform. -/
def macBuild : Config := ⟨"1.0.0", "/updates", true, "mac", "arm64", "dmg"⟩

/-- The digest of no bytes, and of one that is zero. -/
def digestOf (bytes : List UInt8) : String :=
  if bytes = [] then "e3b0c44298fc1c149afbf4c8996fb92427ae41e4649b934ca495991b7852b855"
  else "6e340b9cffb37a989ca544e6bb780a2c78901d3fb33738768511a30617afa01d"

/-- Nothing was ever downloaded. -/
def fresh : Threads World Place where
  shared :=
    { running := ⟨"1.0.0", true⟩, installed := ⟨"1.0.0", true⟩
      shared := new (Build.config macBuild ⟨"1.0.0", true⟩) ⟨"", "", ""⟩ .notify ∅
      mirrors := ⟨"", "", []⟩, stored := none, write := .done, accepted := [], placed := ∅ }
  threads := ∅

/-- The first mirror serves a byte too many and the second the package, which is then installed. -/
def secondMirror : List (Program.Life Place Choice Around) :=
  let steps (choices : List Choice) : List (Program.Life Place Choice Around) :=
    choices.map fun choice => some (.thread 0 choice)
  some (.arrive 0 (.call .rechecking none)) ::
    steps [.answer 1767571200000000000 1767571200000000000 .fails
        [(r2Mirror, .content (some listedManifest))],
      .go, .go, .go, .go, .bytes [0], .go, .go, .go, .go, .go, .go, .go, .go, .go] ++
    [some (.arrive 0 (.call .installing none))] ++ steps [.go, .go]

theorem only_attested_secondMirror :
    OnlyAttested macBuild ((processes macBuild january digestOf).endOf fresh secondMirror) ∧
      ((((processes macBuild january digestOf).endOf fresh secondMirror).threads[0]?).bind
        Place.package) = some "/updates/mq-studio-1.1.0-mac-arm64.dmg" := by
  have hstart : Reachable (processes macBuild january digestOf) Always fresh :=
    .start ⟨⟨⟨"1.0.0", true⟩, .notify, .done, rfl⟩, rfl⟩
  exact ⟨only_attested macBuild january digestOf (by decide)
    (hstart.endOf (permitted_always _ _ _)), by decide +kernel⟩

end MqStudio.Update.Packages
