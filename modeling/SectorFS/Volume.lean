import SectorFS.Directory.Storage
import SectorFS.FreeMap.Storage
import SectorFS.Node.Allocation
import SectorFS.Path

/-!
# Volumes

A volume is what a formatted disk offers once it is mounted: the files of the
free-sector map and of the root directory, which stay open, and the table of open
files. Everything else is read from the disk when it is needed. Operations change the
table in place.
-/

namespace SectorFS

/-- A mounted volume. -/
structure Volume where
  mapFile : Handle
  rootFile : Handle
  /-- The open files. The file at index `i` has the identifier `i + 1`. -/
  table : Vector (Option Handle) maxOpenFiles
  deriving DecidableEq

namespace Volume

/-- A volume without open files. -/
def withRoots (mapFile rootFile : Handle) : Volume :=
  ⟨mapFile, rootFile, Vector.replicate maxOpenFiles none⟩

/-- The free-sector map on the disk. -/
def loadMap (volume : Volume) : Action FreeMap := do
  let sectors ← Drive.sectorCount
  let _ ← FreeMap.create sectors
  FreeMap.load sectors volume.mapFile

/-- The root directory on the disk. -/
def loadRoot (volume : Volume) : Action Directory := Directory.ofFile volume.rootFile

/-! ## Formatting and mounting -/

/-- The nodes of the two root files, and the map that charges them. -/
def layOut (sectors : Nat) : Allocation (Node × Node) := do
  Space.mark freeMapSector
  Space.mark rootSector
  let mapNode ← Node.allocate (← FreeMap.checkedByteCount sectors)
  let rootNode ← Node.allocate directorySize
  return (mapNode, rootNode)

/-- Lays an empty volume onto the disk, whatever it held before. -/
def format : Action Volume := do
  let sectors ← Drive.sectorCount
  if sectors ≤ rootSector then
    fail (.invalidArgument (.noRoomForRoots sectors))
  else
    Drive.note .info ("Formatting the file system over " ++ toString sectors ++ " sectors.")
    let ((mapNode, rootNode), map) ← (layOut sectors).using (← FreeMap.create sectors)
    Drive.note .debug "Writing headers back to disk."
    mapNode.store freeMapSector
    rootNode.store rootSector
    let mapFile ← Handle.fetch freeMapSector
    let rootFile ← Handle.fetch rootSector
    Drive.note .debug "Writing bitmap and directory back to disk."
    map.store mapFile
    Directory.empty.store rootFile
    Drive.sync
    return withRoots mapFile rootFile

/-- Attaches to a disk that already holds a volume. -/
def mount : Action Volume := do
  Drive.note .info "Mounting the file system."
  let mapFile ← Handle.fetch freeMapSector
  let rootFile ← Handle.fetch rootSector
  return withRoots mapFile rootFile

end Volume

end SectorFS
