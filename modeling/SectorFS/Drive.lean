import SectorFS.Disk

/-!
# Drive

What every operation works on: a disk, and the journal that records what was done
to it. An operation either returns a value or stops, and keeps in both cases the
drive it has reached, because an operation that fails halfway has already written
some sectors.
-/

namespace SectorFS

/-! ## The journal -/

/-- How much a record matters, the most severe first. -/
inductive Severity where
  | warn
  | info
  | debug
  deriving DecidableEq, Inhabited

def Severity.rank : Severity → Nat
  | .warn => 0
  | .info => 1
  | .debug => 2

/-- A line of the journal. -/
structure Record where
  severity : Severity
  text : String
  deriving DecidableEq, Inhabited

/-- Whether a record is at least as severe as the threshold. -/
def Record.reaches (record : Record) (threshold : Severity) : Bool :=
  record.severity.rank ≤ threshold.rank

/-! ## Drives and operations on them -/

/-- A disk and the journal of what was done to it. -/
structure Drive where
  disk : Disk
  journal : Array Record
  deriving Inhabited

/-- An operation on a drive. -/
abbrev Action := EStateM Stop Drive

/-- Stops with an error, in any state. -/
def fail {σ α : Type} (cause : Error) : EStateM Stop σ α := throw (.error cause)

/-- Stops with a trap, in any state. -/
def trap {σ α : Type} (cause : Trap) : EStateM Stop σ α := throw (.trap cause)

instance {σ : Type} : MonadLift (Except Trap) (EStateM Stop σ) where
  monadLift
    | .ok value => pure value
    | .error cause => trap cause

instance {σ : Type} : MonadLift (Except Error) (EStateM Stop σ) where
  monadLift
    | .ok value => pure value
    | .error cause => fail cause

namespace Drive

def sectorCount : Action Nat := fun drive ↦ .ok drive.disk.sectorCount drive

/-- Adds a line to the journal. -/
def note (severity : Severity) (text : String) : Action Unit := fun drive ↦
  match drive with
  | ⟨disk, journal⟩ => .ok () ⟨disk, journal.push ⟨severity, text⟩⟩

/-- Reads a sector into a buffer of `room` bytes. -/
def readSectorInto (number room : Nat) : Action Sector := fun drive ↦
  match drive.disk.readRefusal? number room with
  | some stop => .error stop { drive with disk := drive.disk.request }
  | none => .ok (drive.disk.sector number) { drive with disk := drive.disk.request }

/-- Reads a sector over the start of a buffer. The rest of the buffer stays as it is. -/
def readInto (number : Nat) (buffer : ByteArray) : Action ByteArray := do
  let content ← readSectorInto number buffer.size
  return content.bytes ++ buffer.extract sectorSize buffer.size

/-- Reads a sector. -/
def readSector (number : Nat) : Action Sector := readSectorInto number sectorSize

/-- Writes bytes to the start of a sector, a sector of them at most. -/
def writeBytes (number : Nat) (data : ByteArray) : Action Unit := fun drive ↦
  match drive.disk.writeRefusal? number with
  | some stop => .error stop { drive with disk := drive.disk.request }
  | none =>
    match drive with
    | ⟨disk, journal⟩ => .ok () ⟨disk.store number data, journal⟩

/-- Writes a whole sector. -/
def writeSector (number : Nat) (content : Sector) : Action Unit :=
  writeBytes number content.bytes

/-- Waits until everything written is on the medium. -/
def sync : Action Unit := fun drive ↦
  if drive.disk.faults.refusesSync then
    .error (.error (.device .injected)) drive
  else
    .ok () drive

end Drive

end SectorFS
