import SectorFS.Directory
import SectorFS.Handle

/-!
# Directories as files

The table of a directory is the content of an ordinary file.
-/

namespace SectorFS.Directory

/-- The directory that a file holds. -/
def ofFile (file : Handle) : Action Directory := do
  return ofBytes (← file.readAt 0 directorySize)

/-- The directory whose file has its root node at a sector. -/
def load (sector : Nat) : Action Directory := do
  ofFile (← Handle.fetch sector)

/-- Writes the directory to a file. -/
def store (directory : Directory) (file : Handle) : Action Unit := do
  let _ ← file.writeAt 0 directory.toBytes

end SectorFS.Directory
