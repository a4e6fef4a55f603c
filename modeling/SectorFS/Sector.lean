import SectorFS.Medium

/-!
# Sectors

A sector is the content of one unit of the device. It is cut out of a medium and
turned back into bytes for writing; `splice` replaces a part of it.
-/

namespace SectorFS

/-- The bytes of one sector. -/
abbrev Sector := Vector UInt8 sectorSize

namespace Sector

/-- A sector of zeros. -/
def blank : Sector := Vector.replicate sectorSize 0

/-- The sector whose bytes start at an offset of a medium. -/
def ofMedium (medium : Medium) (offset : Nat) : Sector :=
  Vector.ofFn fun index ↦ medium.byteAt (offset + index)

def bytes (sector : Sector) : ByteArray := ⟨sector.toArray⟩

/-- The `count` bytes from `start` on. -/
def slice (sector : Sector) (start count : Nat) : ByteArray :=
  ⟨sector.toArray.extract start (start + count)⟩

/-- Replaces `count` bytes from `start` on by the bytes of `data` from `origin` on. -/
def splice (sector : Sector) (start count : Nat) (data : ByteArray) (origin : Nat) : Sector :=
  Vector.ofFn fun index ↦
    if start ≤ index.val ∧ index.val < start + count then
      byteAt data (origin + (index.val - start))
    else
      sector[index]

end Sector

end SectorFS
