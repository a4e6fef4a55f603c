import SectorFS.Directory.Tree
import SectorFS.Volume.Creation

/-!
# Looking into a volume

Listing directories, opening files by their paths, and reporting the state of the
volume as a whole.
-/

namespace SectorFS.Volume

/-- Follows the path with the given text. -/
def resolve (volume : Volume) (text : String) : Action Target := do
  let path ← parsePath text
  path.resolve (← volume.loadRoot) rootSector

/-- Lists the directory at a path, and everything below it if asked to. -/
def list (volume : Volume) (text : String) (recursive : Bool) : Action (List Listed) := do
  let target ← volume.resolve text
  if target.isDirectory then
    let directory ← Directory.load target.sector
    let listing ← if recursive then directory.tree 0 else pure directory.list
    Drive.note .debug
      ("Listing of " ++ text ++ ":\n" ++ (← Listed.render listing recursive))
    return listing
  else
    fail .notADirectory

/-- A new handle on the file or directory at a path. -/
def openHandle (volume : Volume) (text : String) : Action Handle := do
  Drive.note .debug ("Opening file " ++ text)
  Handle.fetch (← volume.resolve text).sector

/-- The number of free sectors, by the map on the disk. -/
def freeSectors (volume : Volume) : Action Nat := do
  (← volume.loadMap).freeCount

/-- A report on the root files, the free sectors and the files in the root directory. -/
def report (volume : Volume) : Action String := do
  let map ← volume.loadMap
  let root ← volume.loadRoot
  let mapText ← volume.mapFile.node.describe
  let rootText ← volume.rootFile.node.describe
  let free ← map.freeCount
  let files ← root.entries.mapM fun entry ↦ do
    let node ← Node.fetch entry.sector.toNat
    return "Name: " ++ entry.shownName ++ ", Sector: " ++ toString entry.sector.toNat ++ "\n" ++
      (← node.describe) ++ "\n"
  return "Bit map file header:\n" ++ mapText ++ "\nDirectory file header:\n" ++ rootText ++
    "\nFree sectors: " ++ toString free ++ " of " ++ toString map.sectors ++
    "\nDirectory contents:\n" ++ String.join files

end SectorFS.Volume
