import SectorFS.Checked
import SectorFS.Sector

/-!
# Disk

A disk presents a medium as numbered sectors. Its sector count is a promise about
the medium, not a fact: a sector beyond the medium's end cannot be read, and
writing it lengthens the medium. A disk may be told to refuse accesses, by sector
and by what has happened so far; a refused access never reaches the medium.
-/

namespace SectorFS

/-! ## Faults -/

/-- What has passed over a disk since its faults were last set. -/
structure Traffic where
  /-- Reads and writes asked for, the refused ones included. -/
  requests : Nat
  /-- Writes carried out. -/
  writes : Nat
  deriving DecidableEq, Inhabited

def Traffic.none : Traffic := ⟨0, 0⟩

/-- Which accesses a disk refuses, given the traffic so far and the sector. -/
structure Faults where
  refusesRead : Traffic → Nat → Bool
  refusesWrite : Traffic → Nat → Bool
  refusesSync : Bool

namespace Faults

/-- A disk that refuses nothing. -/
def none : Faults := ⟨fun _ _ ↦ false, fun _ _ ↦ false, false⟩

instance : Inhabited Faults := ⟨none⟩

/-- Refuses the listed sectors, and every write once `budget` writes have been carried out. -/
def listed (reads writes : List Nat) (budget : Option Nat) (sync : Bool) : Faults where
  refusesRead _ sector := reads.contains sector
  refusesWrite traffic sector :=
    writes.contains sector || budget.any fun limit ↦ decide (limit ≤ traffic.writes)
  refusesSync := sync

end Faults

/-! ## Disks -/

/-- A medium presented as numbered sectors. -/
structure Disk where
  medium : Medium
  sectorCount : Nat
  faults : Faults
  traffic : Traffic
  /-- The sectors written since this list was last emptied, in order. -/
  written : Array Nat
  deriving Inhabited

namespace Disk

/-- The disk that shows nothing of a medium. -/
def detached (medium : Medium) : Disk := ⟨medium, 0, .none, .none, #[]⟩

/-- The same disk over the same medium with another sector count. -/
def present (disk : Disk) (sectors : Nat) : Disk := { disk with sectorCount := sectors }

/-- Prepares a medium of at least one sector, wiping as many sectors as it presents if asked to. A
medium that is longer keeps its length. -/
def prepare (disk : Disk) (sectors : Nat) (wipe : Bool) : Except Trap Disk :=
  if sectors = 0 then
    .error .emptyDevice
  else if wipe then
    match disk with
    | ⟨medium, _, faults, traffic, written⟩ =>
      .ok ⟨medium.write 0 (zeroBytes (sectors * sectorSize)), sectors, faults, traffic, written⟩
  else
    .ok (disk.present sectors)

/-- Replaces the faults and starts counting traffic afresh. -/
def setFaults (disk : Disk) (faults : Faults) : Disk :=
  { disk with faults := faults, traffic := .none }

/-- The content of a sector. -/
def sector (disk : Disk) (number : Nat) : Sector := .ofMedium disk.medium (number * sectorSize)

/-- Why a read of a sector into a buffer of `room` bytes is refused, if it is. -/
def readRefusal? (disk : Disk) (number room : Nat) : Option Stop :=
  if disk.faults.refusesRead disk.traffic number then
    some (.error (.device .injected))
  else if disk.sectorCount ≤ number then
    some (.error (.device .outOfRange))
  else if room < sectorSize then
    some (.error (.device .shortBuffer))
  else if Checked.wordLimit ≤ number * sectorSize then
    some (.trap .overflow)
  else if disk.medium.size < number * sectorSize + sectorSize then
    some (.error (.device .unexpectedEnd))
  else
    none

/-- Why a write to a sector is refused, if it is. -/
def writeRefusal? (disk : Disk) (number : Nat) : Option Stop :=
  if disk.faults.refusesWrite disk.traffic number then
    some (.error (.device .injected))
  else if disk.sectorCount ≤ number then
    some (.error (.device .outOfRange))
  else if Checked.wordLimit ≤ number * sectorSize then
    some (.trap .overflow)
  else
    none

/-- Counts a request that changes nothing. -/
def request (disk : Disk) : Disk :=
  { disk with traffic := ⟨disk.traffic.requests + 1, disk.traffic.writes⟩ }

/-- Carries out a write. Bytes beyond the size of a sector are dropped. -/
def store (disk : Disk) (number : Nat) (data : ByteArray) : Disk :=
  match disk with
  | ⟨medium, sectorCount, faults, traffic, written⟩ =>
    ⟨medium.write (number * sectorSize) (data.extract 0 sectorSize), sectorCount, faults,
      ⟨traffic.requests + 1, traffic.writes + 1⟩, written.push number⟩

end Disk

end SectorFS
