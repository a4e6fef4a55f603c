import SectorFS.Path.Lookup
import SectorFS.Volume

/-!
# Creating files and directories

Everything that can refuse a request comes before the first write outside the new
tree. Then the root node of the new file is written, the content of a new directory,
the entry that names it, and the map that claims its sectors, in this order.
-/

namespace SectorFS.Volume

/-- Parses the text of a path. -/
def parsePath (text : String) : Action Path :=
  match Path.parse text with
  | .ok path => pure path
  | .error fault => fail (.invalidPath fault)

/-- Claims the sector of a root node, enters it into a directory under a name, and claims the
sectors below it. -/
def claimEntry (directory : Directory) (name : String) (size : Nat) (isDirectory : Bool) :
    Allocation (Nat × Directory × Node) := do
  let sector ← Space.claim
  let directory ← directory.add name sector isDirectory
  let node ← Node.allocate size
  return (sector, directory, node)

/-- Creates an entry of `size` bytes at a path. -/
def createEntry (volume : Volume) (text : String) (size : Nat) (isDirectory : Bool) :
    Action Unit := do
  let path ← parsePath text
  match path.lastName? with
  | none => fail (.invalidPath .rootExists)
  | some name =>
    let root ← volume.loadRoot
    let parentFile ← Handle.fetch (← path.resolveParent root rootSector)
    let parent ← Directory.ofFile parentFile
    if (parent.find? name).isSome then
      fail .alreadyExists
    else
      let map ← volume.loadMap
      let ((sector, parent, node), map) ← (claimEntry parent name size isDirectory).using map
      node.store sector
      if isDirectory then
        Directory.empty.store (← Handle.fetch sector)
      parent.store parentFile
      map.store volume.mapFile
      Drive.note .info
        ("Created " ++ path.toText ++ " with header at sector " ++ toString sector)

/-- Creates a file of `size` bytes. The size of a file never changes. -/
def create (volume : Volume) (text : String) (size : Nat) : Action Unit := do
  Drive.note .debug ("Creating file " ++ text ++ " size " ++ toString size)
  volume.createEntry text size false

/-- Creates an empty directory. -/
def createDirectory (volume : Volume) (text : String) : Action Unit := do
  Drive.note .debug ("Creating directory " ++ text)
  volume.createEntry text directorySize true

end SectorFS.Volume
