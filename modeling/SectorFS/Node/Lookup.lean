import SectorFS.Node

/-!
# Finding a byte in a tree

The slot that covers an offset is the offset divided by the span of a slot, and the
remainder is the offset below it. At level `1` the slot holds the data sector.
-/

namespace SectorFS.Node

/-- The sector that holds the byte at an offset, following at most `fuel` nodes. -/
def locateWithin : (fuel : Nat) → Node → (offset : Nat) → Action Nat
  | 0, _, _ => trap .runaway
  | fuel + 1, node, offset => do
    if node.length.toNat ≤ offset then
      fail (.invalidArgument (.pastEnd offset node.length.toNat))
    else
      let span ← Geometry.Words.span node.level
      match node.slots[offset / span]? with
      | none => trap .slotOutOfRange
      | some sector =>
        if node.height = 0 then
          return sector.toNat
        else
          locateWithin fuel (← fetch sector.toNat) (offset % span)

/-- The sector that holds the byte at an offset. The offset shrinks at most three times on the way
down, and between two times no sector is met again, unless the descent runs in a circle. -/
def locate (node : Node) (offset : Nat) : Action Nat := do
  let sectors ← Drive.sectorCount
  locateWithin (4 * sectors + 5) node offset

end SectorFS.Node
