import SectorFS.Handle
import SectorFS.Space

/-!
# The map as a file

The free-sector map is the content of an ordinary file, its bytes in order. Where
the file is shorter than the map the missing bytes count as zero.
-/

namespace SectorFS.FreeMap

/-- Reads a file into the map in memory, which is replaced once all bytes were read. -/
def reload (file : Handle) : Allocation Unit := do
  let map ← InPlace.current
  let count ← checkedByteCount map.sectors
  InPlace.assign (ofBytes map.sectors (← file.readAt 0 count))

/-- The map of the given number of sectors that a file holds. -/
def load (sectors : Nat) (file : Handle) : Action FreeMap := (reload file).after (blank sectors)

/-- Writes the map to a file. -/
def store (map : FreeMap) (file : Handle) : Action Unit := do
  let _ ← checkedByteCount map.sectors
  let _ ← file.writeAt 0 map.bytes

end SectorFS.FreeMap
