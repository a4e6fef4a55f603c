import SectorFS.Directory.Tree
import SectorFS.Volume.OpenFiles

/-!
# Removing files and directories

A removal works out the map without the removed sectors, then writes the directory
that no longer names the file and after it the map. Open files whose root node the
map no longer holds are closed, once both are written.
-/

namespace SectorFS.Volume

/-- Whether the root node of an open file is free in a map. -/
def isDead (map : FreeMap) (handle : Handle) : Except Trap Bool := do
  return !(← map.test handle.sector)

/-- Releases the sectors below a root node, and the sector of the node itself. -/
def releaseFile (sector : Nat) : Allocation Unit := do
  let node ← Node.fetch sector
  node.release true
  Space.clear sector

/-- Releases a directory and everything below it. -/
def releaseDirectory (sector : Nat) : Allocation Unit := do
  let directory ← Directory.load sector
  match ← directory.clear with
  | (_, some stop) => throw stop
  | (_, none) => releaseFile sector

namespace InPlace

/-- Closes the open file at a place of the table if its root node is free in a map. -/
def closeIfDead (map : FreeMap) (index : Fin maxOpenFiles) : InPlace Volume Unit := do
  let volume ← InPlace.current
  match volume.table[index] with
  | none => return ()
  | some handle =>
    if ← isDead map handle then
      Drive.note .debug
        ("Closing open file " ++ toString (index.val + 1) ++ " of a removed file")
      InPlace.assign (volume.setSlot index none)

/-- Closes the open files whose root nodes are free in a map. -/
def closeDead (map : FreeMap) : InPlace Volume Unit :=
  (List.finRange maxOpenFiles).forM (closeIfDead map)

/-- Takes a name out of the directory at a sector and makes a map the map of the volume. -/
def unlink (parentAt : Nat) (name : String) (map : FreeMap) : InPlace Volume Unit := do
  let parentFile ← Handle.fetch parentAt
  let parent ← Directory.ofFile parentFile
  let parent ← parent.remove name
  parent.store parentFile
  map.store (← InPlace.current).mapFile
  closeDead map

/-- Releases the file of a target and takes its name out of the directory at a sector. -/
def discard (path : Path) (name : String) (parentAt : Nat) (target : Target) :
    InPlace Volume Unit := do
  let map ← (← InPlace.current).loadMap
  Drive.note .debug
    ("Start deallocate " ++ path.toText ++ " at sector " ++ toString target.sector)
  let ((), map) ← (releaseFile target.sector).using map
  unlink parentAt name map
  Drive.note .info ("Removed " ++ path.toText)

/-- Removes a file or an empty directory. -/
def remove (text : String) : InPlace Volume Unit := do
  let path ← parsePath text
  match path.lastName? with
  | none => fail (.invalidPath .rootIrremovable)
  | some name =>
    let volume ← InPlace.current
    let root ← volume.loadRoot
    let target ← path.resolve root rootSector
    let parentAt ← path.resolveParent root rootSector
    if target.isDirectory then
      if !(← Directory.load target.sector).isEmpty then
        fail .directoryNotEmpty
    discard path name parentAt target

/-- Removes a file, or a directory and everything below it. -/
def removeTree (text : String) : InPlace Volume Unit := do
  let path ← parsePath text
  match path.lastName? with
  | none => fail (.invalidPath .rootIrremovable)
  | some name =>
    let volume ← InPlace.current
    let root ← volume.loadRoot
    let target ← path.resolve root rootSector
    if target.isDirectory then
      let parentAt ← path.resolveParent root rootSector
      let map ← volume.loadMap
      let ((), map) ← (releaseDirectory target.sector).using map
      unlink parentAt name map
      Drive.note .info ("Removed " ++ path.toText ++ " and everything below it")
    else
      remove text

end InPlace

/-- The volume without the open files whose root nodes are free in a map. -/
def closeDead (volume : Volume) (map : FreeMap) : Action Volume :=
  (InPlace.closeDead map).after volume

/-- The volume after a name was taken out of the directory at a sector. -/
def unlink (volume : Volume) (parentAt : Nat) (name : String) (map : FreeMap) : Action Volume :=
  (InPlace.unlink parentAt name map).after volume

/-- The volume after a file or an empty directory was removed. -/
def remove (volume : Volume) (text : String) : Action Volume := (InPlace.remove text).after volume

/-- The volume after a file, or a directory and everything below it, was removed. -/
def removeTree (volume : Volume) (text : String) : Action Volume :=
  (InPlace.removeTree text).after volume

end SectorFS.Volume
