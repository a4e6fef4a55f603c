import SectorFS.Volume.OpenFiles
import SectorFS.Volume.Removal

/-!
# Integer statuses

The entry points for programs that know numbers only. Each answers with a status,
and an error becomes a line of the journal and the status that says so.
-/

namespace SectorFS.Volume.Status

-- Powers are those of the core library, whatever else is in scope.
attribute [local instance (2000)] instPowNat

/-- A count as a signed 32-bit number. -/
def signed (count : Nat) : Int := (count : Int).bmod (2 ^ (32 : Nat))

/-- Runs an operation. If it stops with an error, warns that what it attempted has failed and
returns the given value instead. The volume is the one that the operation has reached. -/
def orElse {α : Type} (operation : InPlace Volume α) (attempt : String) (failed : α) :
    InPlace Volume α := fun memory ↦
  match operation memory with
  | .ok value memory => .ok value memory
  | .error (.error cause) memory =>
    (do
      Drive.note .warn (attempt ++ " failed: " ++ cause.message)
      return failed : InPlace Volume α) memory
  | .error (.trap cause) memory => .error (.trap cause) memory

/-- `1` if the file was created, `0` if not. -/
def create (text : String) (size : Nat) : InPlace Volume Int :=
  orElse
    (do
      (← InPlace.current).create text size
      return 1)
    ("create " ++ text) 0

/-- The identifier of the opened file, or `0`. -/
def openFile (text : String) : InPlace Volume Nat :=
  orElse (InPlace.openFile text) ("open " ++ text) 0

/-- The number of bytes read, or `-1`, and the bytes. -/
def read (id count : Nat) : InPlace Volume (Int × ByteArray) :=
  orElse
    (do
      let bytes ← InPlace.read id count
      return (signed bytes.size, bytes))
    ("read from file " ++ toString id) (-1, .empty)

/-- The number of bytes written, or `-1`. -/
def write (id : Nat) (data : ByteArray) : InPlace Volume Int :=
  orElse (do return signed (← InPlace.write id data)) ("write to file " ++ toString id) (-1)

/-- `1` if the file was open, `0` if not. -/
def close (id : Nat) : InPlace Volume Int :=
  orElse
    (do
      InPlace.close id
      return 1)
    ("close of file " ++ toString id) 0

/-- `1` if the file was removed, `0` if not. -/
def remove (text : String) : InPlace Volume Int :=
  orElse
    (do
      InPlace.remove text
      return 1)
    ("remove " ++ text) 0

end SectorFS.Volume.Status
