import SectorFS.Node
import SectorFS.Space

/-!
# Allocating a tree

A tree is built from its root downwards and from left to right. Each slot claims
the lowest free sector before the subtree below it claims its own, and a node below
the root is written as soon as its subtree is complete. The number of sectors is
known beforehand, so a tree that does not fit claims nothing.
-/

namespace SectorFS.Node

/-- Claims the sectors of a tree of the given height over `size` bytes and writes the nodes below
its root. -/
def build : (height : Nat) → height < maxLevel → Nat → Allocation Node
  | height, valid, size => do
    let charge ← Geometry.Words.sectorNeeds (height + 1) size
    let used ← Geometry.Words.slotsUsed size (height + 1)
    if slotCount < used then
      trap .slotOutOfRange
    else
      let sectors ← (List.range used).mapM fun index ↦ do
        let sector ← Space.claim
        match height, valid with
        | 0, _ => pure ()
        | below + 1, valid =>
          let child ← build below (by omega) (← Geometry.Words.childSize size (below + 2) index)
          child.store sector
        return sector
      return ofSectors size charge ⟨height, valid⟩ sectors

/-- Claims the sectors of a new file of `size` bytes. The node that is returned is not written. -/
def allocate (size : Nat) : Allocation Node := do
  match Geometry.heightFor size with
  | none => fail .noSpace
  | some height =>
    let level := height.val + 1
    let needs ← Geometry.Words.sectorNeeds level size
    let free ← Space.freeCount
    if free < needs then
      Drive.note .debug (toString size ++ " bytes need " ++ toString needs ++ " sectors, only " ++
        toString free ++ " free")
      fail .noSpace
    else
      Drive.note .debug ("allocating " ++ toString size ++ " bytes at level " ++ toString level ++
        " using " ++ toString needs ++ " sectors")
      build height height.isLt size

end SectorFS.Node
