import MqStudio.Lib.Threads
import MqStudio.Update.Version

/-!
# The Update Lifecycle

`update.Manager`: a check asks for the latest release, a download fetches and verifies its package,
an install applies it. The calls interleave: the schedule checks, the policy downloads, a person
presses buttons, and the application quits. Each takes the manager's lock for one step at a time.

A check and a download mark the manager `busy` while they work. An install marks it by its phase,
and one at quit by nothing.

What the renderer draws beside the phase (progress, notes, mirror, error text) is left out, and so
are the mirrors; a request is answered as the environment chooses. A package is the digest of its
bytes.
-/

namespace MqStudio.Update

open MqStudio.Lib
open MqStudio.Lib.TreeMap

/-! ## State -/

/-- `Policy` -/
inductive Policy where
  | off | notify | download | auto
  deriving DecidableEq

/-- `downloads`: the policy fetches without being asked. -/
def Policy.downloads : Policy → Bool
  | .download | .auto => true
  | _ => false

/-- `Phase` -/
inductive Phase where
  | idle | checking | available | downloading | ready | installing | error
  deriving DecidableEq

/-- `FailedStep` -/
inductive FailedStep where
  | none | check | download | install
  deriving DecidableEq

/-- `Status` -/
inductive Status where
  | available | current | ahead
  deriving DecidableEq

/-- `Result`, with the digests its manifest publishes for each package. -/
structure Result where
  status : Status
  latestVersion : String
  files : Map String String
  deriving DecidableEq

/-- `State`, as far as the lifecycle reads it. -/
structure State where
  phase : Phase
  latestVersion : String
  failedStep : FailedStep
  deriving DecidableEq

/-- `memory` -/
structure Memory where
  skipped : String
  readyVersion : String
  readyPath : String
  deriving DecidableEq

/-- What a manager is built with. -/
structure Config where
  version : String
  directory : String
  /-- `Location.CanInstall` -/
  canInstall : Bool
  os : String
  arch : String
  ext : String

/-- What the calls share. -/
structure Shared where
  state : State
  memory : Memory
  busy : Bool
  /-- `cancel`: the context of the download under way, and whether it was cancelled. -/
  cancel : Option Bool
  policy : Policy
  /-- The files by their paths, each as the digest of its bytes. -/
  disk : Map String String
  deriving DecidableEq

namespace Config

variable (c : Config)

/-- `Target.PackageName` -/
def packageName (version : String) : String :=
  let bare := if version.toList.head? = some 'v' then String.ofList version.toList.tail else version
  "mq-studio-" ++ bare ++ "-" ++ c.os ++ "-" ++ c.arch ++ "." ++ c.ext

/-- `filepath.Join(directory, name)` -/
def path (name : String) : String := c.directory ++ "/" ++ name

/-- The name of a file of the download directory, or nothing for one elsewhere. -/
def entry (path : String) : Option String :=
  let inside := (c.directory ++ "/").toList
  let name := path.toList.drop inside.length
  if inside.isPrefixOf path.toList && !name.contains '/' then some (String.ofList name) else none

/-- `memoryFile` -/
def memoryFile : String := "update.json"

/-- `sweep`: the abandoned packages are removed. -/
def sweep (disk : Map String String) (keep : String) : Map String String :=
  disk.filter fun path _ =>
    match c.entry path with
    | none => true
    | some name => name = keep || name = memoryFile

end Config

/-! ## Critical sections -/

/-- `setError` -/
def setError (s : Shared) (step : FailedStep) : Shared :=
  { s with state := { s.state with phase := .error, failedStep := step } }

/-- `Check`, up to its request: refused in a development build and while the manager is busy. -/
def beginCheck (c : Config) (s : Shared) : Option Shared :=
  if isDevelopmentBuild c.version then none
  else if s.busy then none
  else some { s with
    busy := true
    state := { s.state with phase := .checking, failedStep := .none } }

/-- A manual check takes the release it found off the skip list. -/
def unskip (s : Shared) (manual : Bool) (result : Result) : Shared :=
  if manual && result.status = .available && s.memory.skipped = result.latestVersion then
    { s with memory := { s.memory with skipped := "" } }
  else s

/-- `Check`, from its answer on, and the release it starts to download. -/
def foldCheck (c : Config) (s : Shared) (manual : Bool) : Option Result → Shared × Option Result
  | none => (setError { s with busy := false } .check, none)
  | some result =>
    let told := unskip { s with busy := false } manual result
    if result.status ≠ .available then
      ({ told with state := { told.state with phase := .idle, latestVersion := "" } }, none)
    else
      let known := { told with state := { told.state with latestVersion := result.latestVersion } }
      -- a download from an earlier run is only still good if it is this release
      if known.state.phase = .ready ∧ known.memory.readyVersion = result.latestVersion then
        (known, none)
      else
        ({ known with state := { known.state with phase := .available } },
          if known.policy.downloads && c.canInstall &&
            result.latestVersion ≠ known.memory.skipped then some result else none)

/-- `Download`, up to the request: refused while the manager is busy, an error where this build
    cannot be replaced. -/
def beginDownload (c : Config) (s : Shared) (release : Result) : Shared × Bool :=
  if s.busy then (s, false)
  else if !c.canInstall then (setError s .download, false)
  else ({ s with
    busy := true
    cancel := some false
    state := ⟨.downloading, release.latestVersion, .none⟩ }, true)

/-- How a fetch came out. -/
inductive Fetched where
  | done (path : String)
  | cancelled
  | failed
  deriving DecidableEq

/-- `Download`, once its package is fetched or not. -/
def endDownload (s : Shared) (release : Result) : Fetched → Shared
  | .done path => { s with
    memory := { s.memory with readyVersion := release.latestVersion, readyPath := path }
    state := { s.state with phase := .ready } }
  | .cancelled => { s with state := { s.state with phase := .available } }
  | .failed => setError s .download

/-- What `Download` does as it returns. -/
def released (s : Shared) : Shared := { s with busy := false, cancel := none }

/-- `Install`, up to applying the package. -/
def beginInstall (s : Shared) : Option Shared :=
  if s.state.phase ≠ .ready ∨ s.memory.readyPath = "" then none
  else some { s with state := { s.state with phase := .installing } }

/-- `InstallOnQuit`, up to applying the package. -/
def installsOnQuit (s : Shared) : Bool :=
  s.state.phase = .ready && s.memory.readyPath ≠ "" && s.policy = .auto

/-- `forgetReady`; there is no file without a name. -/
def forgetReady (s : Shared) : Shared :=
  { s with
    disk := if s.memory.readyPath = "" then s.disk else s.disk.erase s.memory.readyPath
    memory := { s.memory with readyVersion := "", readyPath := "" }
    state := { s.state with phase := .idle } }

/-- `restoreReady`: a finished download is picked back up, or cleared. -/
def restoreReady (c : Config) (s : Shared) : Shared :=
  if s.memory.readyPath = "" then s
  else if s.disk.contains s.memory.readyPath && older c.version s.memory.readyVersion then
    { s with state := { s.state with phase := .ready, latestVersion := s.memory.readyVersion } }
  else
    { s with
      disk := s.disk.erase s.memory.readyPath
      memory := { s.memory with readyVersion := "", readyPath := "" } }

/-- `New`, over what the last session left behind. -/
def new (c : Config) (memory : Memory) (policy : Policy) (disk : Map String String) : Shared :=
  restoreReady c
    { state := ⟨.idle, "", .none⟩, memory := memory, busy := false, cancel := none,
      policy := policy, disk := disk }

/-! ## Calls -/

/-- Where a call stands: what its next step is. -/
inductive Position where
  /-- `Check` -/
  | checking (manual : Bool)
  /-- `runCheck`, of a check. -/
  | resolving (manual : Bool)
  | folding (manual : Bool) (answer : Option Result)
  /-- `runCheck`, of a download that was given no release. -/
  | rechecking
  /-- That failed. -/
  | failing
  | entering (release : Result)
  /-- `fetch`: the package is looked up, and the directory swept. -/
  | fetching (release : Result)
  /-- The mirrors are tried. -/
  | attempting (release : Result)
  | fetched (release : Result) (outcome : Fetched)
  | releasing
  | cancelling
  | skipping (version : String)
  | installing
  /-- `Apply`, of an install or of one at quit: the package is looked for. -/
  | opening (path : String) (quit : Bool)
  /-- The package is put in the place of this build. -/
  | applying (path : String) (quit : Bool)
  | applied (path : String) (quit : Bool) (fails : Bool)
  | quitting
  deriving DecidableEq

/-- What the environment decides in a step. -/
inductive Choice where
  /-- Nothing. -/
  | go
  /-- What the mirrors answered. -/
  | answer (result : Option Result)
  /-- How the download came out: verified, cancelled or failed. -/
  | fetch (outcome : Fetched)
  /-- It was verified, the package of that name removed, and the new one not put in its place. -/
  | lose
  /-- Whether the package could not be applied. -/
  | apply (fails : Bool)
  deriving DecidableEq

/-- The policy is changed in the settings. -/
inductive Around where
  | policy (policy : Policy)
  deriving DecidableEq

/-- `Download`, of a release or of none. -/
def Position.download (release : Result) : Position :=
  if release.latestVersion = "" then .rechecking else .entering release

/-- One step of a call. A check that starts a download goes on as that download. -/
def advance (c : Config) (s : Shared) (p : Position) (choice : Choice) :
    Option (Shared × Option Position) :=
  match p with
  | .checking manual =>
    if choice ≠ .go then none
    else
      match beginCheck c s with
      | none => some (s, none)
      | some next => some (next, some (.resolving manual))
  | .resolving manual =>
    match choice with
    | .answer result => some (s, some (.folding manual result))
    | _ => none
  | .folding manual answer =>
    if choice ≠ .go then none
    else
      let folded := foldCheck c s manual answer
      some (folded.1, folded.2.map .download)
  | .rechecking =>
    match choice with
    | .answer none => some (s, some .failing)
    | .answer (some result) =>
      if result.status ≠ .available then some (s, none) else some (s, some (.entering result))
    | _ => none
  | .failing =>
    if choice ≠ .go then none else some (setError s .download, none)
  | .entering release =>
    if choice ≠ .go then none
    else
      let begun := beginDownload c s release
      some (begun.1, if begun.2 then some (.fetching release) else none)
  | .fetching release =>
    if choice ≠ .go then none
    else
      let name := c.packageName release.latestVersion
      if release.files.contains name then
        some ({ s with disk := c.sweep s.disk name }, some (.attempting release))
      else some (s, some (.fetched release .failed))
  | .attempting release =>
    match choice with
    | .fetch (.done path) =>
      let name := c.packageName release.latestVersion
      if path ≠ c.path name then none
      else
        match release.files[name]? with
        | none => none
        | some digest =>
          some ({ s with disk := s.disk.insert path digest }, some (.fetched release (.done path)))
    | .fetch .cancelled =>
      if s.cancel = some true then some (s, some (.fetched release .cancelled)) else none
    | .fetch .failed => some (s, some (.fetched release .failed))
    | .lose =>
      some ({ s with disk := s.disk.erase (c.path (c.packageName release.latestVersion)) },
        some (.fetched release .failed))
    | _ => none
  | .fetched release outcome =>
    if choice ≠ .go then none else some (endDownload s release outcome, some .releasing)
  | .releasing =>
    if choice ≠ .go then none else some (released s, none)
  | .cancelling =>
    if choice ≠ .go then none
    else some ({ s with cancel := s.cancel.map fun _ => true }, none)
  | .skipping version =>
    if choice ≠ .go then none
    else some ({ s with memory := { s.memory with skipped := version } }, none)
  | .installing =>
    if choice ≠ .go then none
    else
      match beginInstall s with
      | none => some (s, none)
      | some next => some (next, some (.opening s.memory.readyPath false))
  | .quitting =>
    if choice ≠ .go then none
    else if installsOnQuit s then some (s, some (.opening s.memory.readyPath true))
    else some (s, none)
  | .opening path quit =>
    if choice ≠ .go then none
    else
      some (s, some (if c.canInstall && s.disk.contains path then .applying path quit
        else .applied path quit true))
  | .applying path quit =>
    match choice with
    | .apply fails => some (s, some (.applied path quit fails))
    | _ => none
  | .applied _ quit fails =>
    if choice ≠ .go then none
    else if fails then some (if quit then s else setError s .install, none)
    else some (forgetReady s, none)

/-- The positions a call starts from. -/
def arrives : Position → Bool
  | .checking _ | .rechecking | .cancelling | .skipping _ | .installing | .quitting => true
  | .entering release => release.latestVersion ≠ ""
  | _ => false

/-- The manager, from whatever the last session left behind. -/
def program (c : Config) : Program Shared Position Choice Around where
  start s := ∃ memory policy disk, s = new c memory policy disk
  arrives := arrives
  advance := advance c
  environment s
    | .policy policy => some { s with policy := policy }
  holds _ := false
  excludes _ := false

end MqStudio.Update
