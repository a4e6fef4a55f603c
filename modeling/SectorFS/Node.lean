import SectorFS.Geometry.Words
import SectorFS.LittleEndian
import SectorFS.Drive

/-!
# Nodes

A node describes a file, or the part of it below one slot of a larger node. It
fills a sector: the bytes it covers, the sectors below it, its level, and its
slots, each a little-endian word. `toSector` and `ofSector?` convert between nodes
and sectors; only the level can be out of range.
-/

namespace SectorFS

/-- One sector of an index tree. -/
structure Node where
  /-- Bytes of the file that the node covers. -/
  length : UInt32
  /-- Sectors below the node, data and nodes alike. -/
  charge : UInt32
  /-- The height of the tree, one below its level. -/
  height : Fin maxLevel
  /-- Data sectors at level `1`, nodes one level down above it. -/
  slots : Vector UInt32 slotCount
  deriving DecidableEq

namespace Node

-- Powers are those of the core library, whatever else is in scope.
attribute [local instance (2000)] instPowNat

/-- The level of the tree. The slots of a node of level `1` are data sectors. -/
def level (node : Node) : Nat := node.height + 1

/-- The node over the given sectors. -/
def ofSectors (length charge : Nat) (height : Fin maxLevel) (sectors : List Nat) : Node where
  length := UInt32.ofNat length
  charge := UInt32.ofNat charge
  height := height
  slots := Vector.ofFn fun index ↦ UInt32.ofNat (sectors[index.val]?.getD 0)

/-! ## The stored form -/

/-- The stored word at the given place. -/
def word (node : Node) : Nat → Nat
  | 0 => node.length.toNat
  | 1 => node.charge.toNat
  | 2 => node.level
  | place + 3 => (node.slots[place]?.getD 0).toNat

def toSector (node : Node) : Sector :=
  Vector.ofFn fun index ↦ LittleEndian.byte (node.word (index / wordSize)) (index % wordSize)

/-- The word stored at the given place of a sector. -/
def storedWord (sector : Sector) (place : Nat) : Nat :=
  LittleEndian.read wordSize fun digit ↦ sector[wordSize * place + digit]?.getD 0

/-- The level that a sector states, whether or not it is one. -/
def storedLevel (sector : Sector) : Nat := storedWord sector 2

/-- The node a sector holds, if the level it states is one. -/
def ofSector? (sector : Sector) : Option Node :=
  if h : 1 ≤ storedLevel sector ∧ storedLevel sector ≤ maxLevel then
    some {
      length := UInt32.ofNat (storedWord sector 0)
      charge := UInt32.ofNat (storedWord sector 1)
      height := ⟨storedLevel sector - 1, by omega⟩
      slots := Vector.ofFn fun index ↦ UInt32.ofNat (storedWord sector (index + 3)) }
  else
    none

theorem word_lt (node : Node) (place : Nat) : node.word place < 256 ^ wordSize := by
  unfold word
  split
  · exact node.length.toNat_lt
  · exact node.charge.toNat_lt
  · have hheight := node.height.isLt
    simp only [level, maxLevel, wordSize] at hheight ⊢
    omega
  · exact UInt32.toNat_lt _

/-- The words of a stored node are those of the node. -/
theorem storedWord_toSector (node : Node) {place : Nat} (h : place < slotCount + 3) :
    storedWord node.toSector place = node.word place := by
  have hdigit (digit : Nat) (hdigit : digit < wordSize) :
      node.toSector[wordSize * place + digit]?.getD 0 =
        LittleEndian.byte (node.word place) digit := by
    simp only [slotCount, wordSize, sectorSize] at h hdigit ⊢
    have hindex : 4 * place + digit < 128 := by omega
    have hplace : (4 * place + digit) / 4 = place := by omega
    have hrest : (4 * place + digit) % 4 = digit := by omega
    rw [Vector.getElem?_eq_getElem hindex, Option.getD_some]
    simp only [toSector, Vector.getElem_ofFn, wordSize, hplace, hrest]
  rw [← Nat.mod_eq_of_lt (node.word_lt place), ← LittleEndian.read_byte]
  exact LittleEndian.read_congr hdigit

/-- A stored node is read back. -/
@[simp] theorem ofSector?_toSector (node : Node) : ofSector? node.toSector = some node := by
  obtain ⟨length, charge, height, slots⟩ := node
  have hheight := height.isLt
  have hlevel := storedWord_toSector ⟨length, charge, height, slots⟩ (by decide : 2 < slotCount + 3)
  have hlength := storedWord_toSector ⟨length, charge, height, slots⟩ (by decide : 0 < slotCount + 3)
  have hcharge := storedWord_toSector ⟨length, charge, height, slots⟩ (by decide : 1 < slotCount + 3)
  unfold ofSector? storedLevel
  simp only [word, level] at hlevel hlength hcharge
  rw [dif_pos (by omega)]
  simp only [hlength, hcharge, hlevel, UInt32.ofNat_toNat, Option.some.injEq, mk.injEq, true_and]
  refine ⟨Fin.ext (by simp), Vector.ext fun index hindex ↦ ?_⟩
  have hslot := storedWord_toSector ⟨length, charge, height, slots⟩
    (by omega : index + 3 < slotCount + 3)
  rw [Vector.getElem_ofFn, hslot, word, Vector.getElem?_eq_getElem hindex, Option.getD_some,
    UInt32.ofNat_toNat]

theorem storedWord_lt (sector : Sector) (place : Nat) : storedWord sector place < 256 ^ wordSize :=
  LittleEndian.read_lt _ _

/-- A sector that holds a node is what the node is stored as. -/
theorem toSector_of_ofSector? {sector : Sector} {node : Node} (h : ofSector? sector = some node) :
    node.toSector = sector := by
  have hword (place : Nat) (hplace : place < slotCount + 3) :
      node.word place = storedWord sector place := by
    have hlimit (place : Nat) : storedWord sector place % 4294967296 = storedWord sector place :=
      Nat.mod_eq_of_lt (storedWord_lt sector place)
    unfold ofSector? at h
    split at h
    · rename_i hlevel
      obtain rfl := Option.some.inj h
      unfold word
      split
      · simp [hlimit]
      · simp [hlimit]
      · simp only [level, storedLevel] at hlevel ⊢
        omega
      · rename_i slot
        rw [Vector.getElem?_eq_getElem (by omega), Option.getD_some, Vector.getElem_ofFn]
        simp [hlimit]
    · contradiction
  apply Vector.ext
  intro index hindex
  simp only [sectorSize] at hindex
  simp only [toSector, Vector.getElem_ofFn, wordSize]
  rw [hword _ (by simp only [slotCount, sectorSize, wordSize]; omega), storedWord,
    LittleEndian.byte_read _ (by simp only [wordSize]; omega)]
  have hplace : wordSize * (index / 4) + index % 4 = index := by
    simp only [wordSize]
    omega
  rw [hplace, Vector.getElem?_eq_getElem hindex, Option.getD_some]

/-! ## Nodes on a drive -/

/-- Reads the node at a sector. -/
def fetch (number : Nat) : Action Node := do
  let sector ← Drive.readSector number
  match ofSector? sector with
  | some node => return node
  | none => fail (.invalidArgument (.notANode number (storedLevel sector)))

/-- Writes the node to a sector. -/
def store (node : Node) (number : Nat) : Action Unit := Drive.writeSector number node.toSector

/-! ## Slots in use -/

/-- The sectors in the slots that a node covering `share` bytes has in use. -/
def sectorsFor (node : Node) (share : Nat) : Except Trap (List Nat) := do
  let used ← Geometry.Words.slotsUsed share node.level
  if slotCount < used then
    .error .slotOutOfRange
  else
    return (node.slots.toList.take used).map (·.toNat)

/-- The sectors in the slots in use. -/
def sectors (node : Node) : Except Trap (List Nat) := node.sectorsFor node.length.toNat

/-- Two lines: the size of the node, and its slots in use. -/
def describe (node : Node) : Except Trap String := do
  let sectors ← node.sectors
  return "FileHeader: " ++ toString node.length.toNat ++ " bytes, level " ++ toString node.level ++
    ", " ++ toString node.charge.toNat ++ " sectors\nSlots:" ++
    String.join (sectors.map fun sector ↦ " " ++ toString sector)

end Node

end SectorFS
