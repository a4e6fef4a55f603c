import SectorFS.Node
import SectorFS.Space

/-!
# Releasing a tree

The sectors below a node are given back slot by slot, each subtree before the node
that leads to it. Only the rightmost path of a tree can be partly filled, so every
other node is taken to be full, whatever length it states.
-/

namespace SectorFS.Node

/-- Releases the sectors below a node, following at most `fuel` nodes one below the other. -/
def releaseWithin : (fuel : Nat) → Node → (rightmost : Bool) → Allocation Unit
  | 0, _, _ => trap .runaway
  | fuel + 1, node, rightmost => do
    let share ←
      if rightmost then pure node.length.toNat else Geometry.Words.capacity node.level
    let sectors ← node.sectorsFor share
    sectors.zipIdx.forM fun (sector, index) ↦ do
      if node.height ≠ 0 then
        let child ← fetch sector
        releaseWithin fuel child (rightmost && index + 1 == sectors.length)
      Space.clear sector

/-- Releases the sectors below a node. A descent meets a sector at most twice, first on the
rightmost path and then off it, unless it runs in a circle. -/
def release (node : Node) (rightmost : Bool) : Allocation Unit := do
  let sectors ← Drive.sectorCount
  releaseWithin (2 * sectors + 3) node rightmost

end SectorFS.Node
