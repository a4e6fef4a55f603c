import SectorFS.Memory
import SectorFS.Node.Lookup

/-!
# Handles

A handle gives access to the bytes of one file: the sector of its root node, a copy
of that node, and a position for sequential transfers. A transfer is clamped to the
length of the file and cut into chunks that lie within one sector each; the chunks
are carried out in order, so a transfer that stops has done the chunks before it.
-/

namespace SectorFS

/-! ## Chunks -/

/-- Consecutive bytes of a file that lie in one sector. -/
structure Chunk where
  start : Nat
  size : Nat
  deriving DecidableEq

namespace Chunk

/-- Where the chunk begins within its sector. -/
def origin (chunk : Chunk) : Nat := chunk.start % sectorSize

/-- Whether the chunk is its whole sector. -/
def isWhole (chunk : Chunk) : Bool := chunk.size == sectorSize

/-- Cuts the `length` bytes from `start` on at the sector boundaries. -/
def cut (start length : Nat) : List Chunk :=
  if length = 0 then
    []
  else
    let size := min (sectorSize - start % sectorSize) length
    ⟨start, size⟩ :: cut (start + size) (length - size)
termination_by length
decreasing_by
  have hrest : start % sectorSize < sectorSize := Nat.mod_lt _ (by decide)
  omega

end Chunk

/-! ## Handles -/

/-- Access to the bytes of a file. -/
structure Handle where
  /-- The sector of the file's root node. -/
  sector : Nat
  node : Node
  /-- Where the next sequential transfer starts. -/
  position : Nat
  deriving DecidableEq

namespace Handle

/-- A handle on the file whose root node is at a sector. -/
def fetch (sector : Nat) : Action Handle := do
  return ⟨sector, ← Node.fetch sector, 0⟩

/-- The length of the file. It never changes. -/
def length (handle : Handle) : Nat := handle.node.length.toNat

/-- How many of the requested bytes lie before the end of the file. -/
def clamp (handle : Handle) (requested position : Nat) : Nat :=
  min requested (handle.length - position)

def seek (handle : Handle) (position : Nat) : Handle := { handle with position := position }

/-- Moves the position forward. -/
def advance (handle : Handle) (count : Nat) : Except Trap Handle := do
  return handle.seek (← Checked.add handle.position count)

/-- Reads the bytes of a chunk. -/
def readChunk (handle : Handle) (chunk : Chunk) : Action ByteArray := do
  let content ← Drive.readSector (← handle.node.locate chunk.start)
  return content.slice chunk.origin chunk.size

/-- Writes `data`, from `origin` on, over the bytes of a chunk. The other bytes of its sector are
read first and kept. -/
def writeChunk (handle : Handle) (chunk : Chunk) (data : ByteArray) (origin : Nat) :
    Action Unit := do
  let sector ← handle.node.locate chunk.start
  let content ← if chunk.isWhole then pure .blank else Drive.readSector sector
  Drive.writeSector sector (content.splice chunk.origin chunk.size data origin)

/-- Reads up to `count` bytes from `position` on, stopping at the end of the file. -/
def readAt (handle : Handle) (position count : Nat) : Action ByteArray :=
  (Chunk.cut position (handle.clamp count position)).foldlM (fun bytes chunk ↦ do
    return bytes ++ (← handle.readChunk chunk)) .empty

/-- Reads from `position` on over the start of a buffer, until the buffer is full or the file ends.
Returns the number of bytes read and the buffer, of which the rest stays as it is. -/
def readInto (handle : Handle) (position : Nat) (buffer : ByteArray) :
    Action (Nat × ByteArray) := do
  let count := handle.clamp buffer.size position
  let filled ← (Chunk.cut position count).foldlM (fun filled chunk ↦ do
    return (← handle.readChunk chunk).copySlice 0 filled (chunk.start - position) chunk.size) buffer
  return (count, filled)

/-- Writes `data` from `position` on, stopping at the end of the file, and returns the number of
bytes written. -/
def writeAt (handle : Handle) (position : Nat) (data : ByteArray) : Action Nat := do
  let count := handle.clamp data.size position
  (Chunk.cut position count).forM fun chunk ↦
    handle.writeChunk chunk data (chunk.start - position)
  return count

/-! ### Sequential transfers -/

namespace InPlace

/-- Reads at the position of the handle in memory, and moves it past what was read. -/
def read (count : Nat) : InPlace Handle ByteArray := do
  let handle ← InPlace.current
  let bytes ← handle.readAt handle.position count
  InPlace.assign (← handle.advance bytes.size)
  return bytes

/-- Writes at the position of the handle in memory, and moves it past what was written. -/
def write (data : ByteArray) : InPlace Handle Nat := do
  let handle ← InPlace.current
  let count ← handle.writeAt handle.position data
  InPlace.assign (← handle.advance count)
  return count

end InPlace

/-- Reads at the handle's position, and returns the handle moved past what was read. -/
def read (handle : Handle) (count : Nat) : Action (ByteArray × Handle) :=
  (InPlace.read count).using handle

/-- Writes at the handle's position, and returns the handle moved past what was written. -/
def write (handle : Handle) (data : ByteArray) : Action (Nat × Handle) :=
  (InPlace.write data).using handle

end Handle

end SectorFS
