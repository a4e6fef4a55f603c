import SectorFS.Directory.Listing
import SectorFS.Directory.Storage
import SectorFS.Node.Release

/-!
# Trees of directories

Listing and releasing a whole tree walk it in the order of the tables, each
directory as soon as its entry is met. A descent reads a new directory at every
step, so on a tree it is shorter than the disk has sectors.
-/

namespace SectorFS.Directory

/-! ## Listing -/

/-- The lines of a directory and of everything below it, at most `fuel` directories deep. -/
def treeWithin : (fuel : Nat) → Directory → (depth : Nat) → Action (List Listed)
  | 0, _, _ => trap .runaway
  | fuel + 1, directory, depth => do
    let groups ← directory.entries.mapM fun entry ↦ do
      let line := Listed.ofEntry depth entry
      if entry.isDirectory then
        let nested ← load entry.sector.toNat
        let below ← treeWithin fuel nested (← Checked.add depth 1)
        return line :: below.map (·.under line.name)
      else
        return [line]
    return groups.flatten

/-- The lines of a directory at the given depth, each sub-directory followed by what is below it. -/
def tree (directory : Directory) (depth : Nat) : Action (List Listed) := do
  let sectors ← Drive.sectorCount
  treeWithin (sectors + 2) directory depth

/-! ## Releasing -/

/-- Releases what the entries lead to, at most `fuel` directories deep. -/
def releaseEntriesWithin : (fuel : Nat) → List Entry → Allocation Unit
  | 0, _ => trap .runaway
  | fuel + 1, entries =>
    entries.forM fun entry ↦ do
      if entry.isDirectory then
        let nested ← load entry.sector.toNat
        releaseEntriesWithin fuel nested.entries
      let node ← Node.fetch entry.sector.toNat
      node.release true
      Space.clear entry.sector.toNat

/-- Releases what an entry leads to: everything below it if it is a directory, the file's sectors,
and the sector of its root node. -/
def releaseEntry (entry : Entry) : Allocation Unit := do
  let sectors ← Drive.sectorCount
  releaseEntriesWithin (sectors + 2) [entry]

/-- Runs an allocation and returns what stopped it, if something did. -/
def outcome (allocation : Allocation Unit) : Allocation (Option Stop) := fun space ↦
  match allocation space with
  | .ok () space => .ok none space
  | .error stop space => .ok (some stop) space

/-- Frees the entries at the given places, releasing what they lead to. -/
def clearAt : List (Fin entryCount) → Directory → Allocation (Directory × Option Stop)
  | [], directory => return (directory, none)
  | index :: rest, directory => do
    let entry := directory.table[index]
    if entry.inUse then
      match ← outcome (releaseEntry entry) with
      | some stop => return (directory, some stop)
      | none => clearAt rest (directory.free index)
    else
      clearAt rest directory

/-- Releases what every entry leads to and frees the entries one by one. Returns the directory that
was reached, and what stopped the work before its end. -/
def clear (directory : Directory) : Allocation (Directory × Option Stop) :=
  clearAt (List.finRange entryCount) directory

end SectorFS.Directory
