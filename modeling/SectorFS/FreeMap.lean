import SectorFS.Checked
import SectorFS.Bytes

/-!
# Free-sector map

One bit for each sector of a device, set while the sector is in use. The bits are
kept in as many bytes as they need. The last byte may have bits to spare; they name
no sector and stay as they are.
-/

namespace SectorFS

/-- Which of the first `sectors` sectors are in use. -/
structure FreeMap where
  sectors : Nat
  bytes : ByteArray
  size_bytes : bytes.size = (sectors + 7) / 8

namespace FreeMap

-- Powers and sums are those of the core library, whatever else is in scope.
attribute [local instance (2000)] instPowNat Zero.ofOfNat0

/-- Bytes that the bits of a map take. -/
def byteCount (sectors : Nat) : Nat := (sectors + 7) / 8

/-- The same in machine words. -/
def checkedByteCount (sectors : Nat) : Except Trap Nat := do
  return (← Checked.add sectors 7) / 8

/-- The map of a device of which no sector is in use. -/
def blank (sectors : Nat) : FreeMap :=
  ⟨sectors, zeroBytes (byteCount sectors), by simp [zeroBytes, byteCount, ByteArray.size]⟩

instance : Inhabited FreeMap := ⟨blank 0⟩

/-- The map with the given content. Bytes that are missing count as zero. -/
def ofBytes (sectors : Nat) (content : ByteArray) : FreeMap :=
  ⟨sectors, ⟨Array.ofFn fun index : Fin (byteCount sectors) ↦ byteAt content index⟩,
    by simp [byteCount, ByteArray.size]⟩

/-- A blank map, if its bits can be rounded up to 64-bit words without leaving one. -/
def create (sectors : Nat) : Except Trap FreeMap := do
  let _ ← Checked.add sectors 63
  return blank sectors

/-! ## Single sectors -/

/-- The byte in which only the bit of a sector is set. -/
def mask (sector : Nat) : UInt8 := UInt8.ofNat (2 ^ (sector % 8))

/-- Whether the bit of a sector is set. -/
def isUsed (map : FreeMap) (sector : Nat) : Bool :=
  (byteAt map.bytes (sector / 8)).toNat.testBit (sector % 8)

/-- Replaces the byte that holds the bit of a sector. A sector that the map does not cover changes
nothing. -/
def updateByte (map : FreeMap) (sector : Nat) (update : UInt8 → UInt8) : FreeMap :=
  match map with
  | ⟨sectors, bytes, size_bytes⟩ =>
    if sector < sectors then
      let byte := update (byteAt bytes (sector / 8))
      ⟨sectors, bytes.set! (sector / 8) byte, by rw [ByteArray.size_set!, size_bytes]⟩
    else
      ⟨sectors, bytes, size_bytes⟩

/-- Marks a sector as in use. -/
def mark (map : FreeMap) (sector : Nat) : FreeMap := map.updateByte sector (· ||| mask sector)

/-- Marks a sector as free. -/
def clear (map : FreeMap) (sector : Nat) : FreeMap := map.updateByte sector (· &&& ~~~ mask sector)

/-- Refuses a sector that has no bit in the map. -/
def covers (map : FreeMap) (sector : Nat) : Except Trap Unit :=
  if sector < map.sectors then .ok () else .error (.outsideMap sector)

/-- Whether a sector of the map is in use. -/
def test (map : FreeMap) (sector : Nat) : Except Trap Bool := do
  map.covers sector
  return map.isUsed sector

/-! ## What marking and clearing do -/

theorem testBit_mask {sector bit : Nat} :
    (mask sector).toNat.testBit bit = decide (bit = sector % 8) := by
  have hbit : sector % 8 < 8 := Nat.mod_lt _ (by decide)
  have hpow : 2 ^ (sector % 8) < 2 ^ 8 := Nat.pow_lt_pow_right (by decide) hbit
  rw [mask, UInt8.toNat_ofNat', Nat.mod_eq_of_lt hpow, Nat.testBit_two_pow]
  simp only [eq_comm]

theorem sectors_updateByte (map : FreeMap) (sector : Nat) (update : UInt8 → UInt8) :
    (map.updateByte sector update).sectors = map.sectors := by
  unfold updateByte
  split
  split <;> rfl

theorem byteAt_updateByte (map : FreeMap) {sector : Nat} (update : UInt8 → UInt8) (place : Nat)
    (h : sector < map.sectors) :
    byteAt (map.updateByte sector update).bytes place =
      if sector / 8 = place then update (byteAt map.bytes place) else byteAt map.bytes place := by
  obtain ⟨sectors, bytes, size_bytes⟩ := map
  simp only at h
  simp only [updateByte, if_pos h]
  rw [byteAt_set _ _ (by omega)]
  split
  · rename_i hplace
    rw [hplace]
  · rfl

/-- The bits of a byte after one of them was set. -/
theorem testBit_or_mask (byte : UInt8) (sector bit : Nat) :
    (byte ||| mask sector).toNat.testBit bit =
      (byte.toNat.testBit bit || decide (bit = sector % 8)) := by
  rw [UInt8.toNat_or, Nat.testBit_or, testBit_mask]

/-- The bits of a byte after one of them was cleared. -/
theorem testBit_and_not_mask (byte : UInt8) (sector bit : Nat) :
    (byte &&& ~~~ mask sector).toNat.testBit bit =
      (byte.toNat.testBit bit && !decide (bit = sector % 8)) := by
  by_cases hbit : bit < 8
  · have hmask : (~~~ mask sector).toNat.testBit bit = !decide (bit = sector % 8) := by
      rw [← testBit_mask]
      show (~~~ mask sector).toBitVec.getLsbD bit = !(mask sector).toBitVec.getLsbD bit
      rw [UInt8.toBitVec_not, BitVec.getLsbD_not, decide_eq_true hbit, Bool.true_and]
    rw [UInt8.toNat_and, Nat.testBit_and, hmask]
  · have hbyte : byte.toNat.testBit bit = false :=
      Nat.testBit_lt_two_pow (Nat.lt_of_lt_of_le byte.toNat_lt
        (Nat.pow_le_pow_right (by decide) (by omega)))
    rw [UInt8.toNat_and, Nat.testBit_and, hbyte, Bool.false_and, Bool.false_and]

theorem isUsed_mark (map : FreeMap) {sector : Nat} (other : Nat) (h : sector < map.sectors) :
    (map.mark sector).isUsed other = (map.isUsed other || decide (other = sector)) := by
  unfold isUsed mark
  rw [byteAt_updateByte _ _ _ h]
  split
  · rw [testBit_or_mask]
    congr 2
    apply propext
    constructor <;> intro <;> omega
  · have : other ≠ sector := by
      rintro rfl
      contradiction
    simp [this]

theorem isUsed_clear (map : FreeMap) {sector : Nat} (other : Nat) (h : sector < map.sectors) :
    (map.clear sector).isUsed other = (map.isUsed other && !decide (other = sector)) := by
  unfold isUsed clear
  rw [byteAt_updateByte _ _ _ h]
  split
  · rw [testBit_and_not_mask]
    congr 3
    apply propext
    constructor <;> intro <;> omega
  · have : other ≠ sector := by
      rintro rfl
      contradiction
    simp [this]

/-! ## First fit -/

/-- The lowest clear bit of a byte, or `8` if there is none. -/
def lowestClear (byte : UInt8) : Nat := (List.range 8).findIdx fun bit ↦ !byte.toNat.testBit bit

/-- The lowest clear bit from the byte at `index` on. Bytes without one are passed over whole. -/
def lowestClearFrom (bytes : ByteArray) (index : Nat) : Option Nat :=
  if h : index < bytes.size then
    if bytes[index] = 0xff then
      lowestClearFrom bytes (index + 1)
    else
      some (8 * index + lowestClear bytes[index])
  else
    none
termination_by bytes.size - index

/-- The lowest free sector. -/
def firstFree (map : FreeMap) : Option Nat :=
  (lowestClearFrom map.bytes 0).filter (· < map.sectors)

/-! ## Counting -/

/-- The number of bits set in a byte. -/
def weight (byte : UInt8) : Nat :=
  let value := byte.toNat
  value % 2 + value / 2 % 2 + value / 4 % 2 + value / 8 % 2 + value / 16 % 2 + value / 32 % 2 +
    value / 64 % 2 + value / 128 % 2

/-- The number of bits set, spare bits included. -/
def setBits (map : FreeMap) : Nat :=
  ((List.range map.bytes.size).map fun index ↦ weight (byteAt map.bytes index)).sum

/-- The number of free sectors. It falls below zero where spare bits are set and too few sectors
are free to make up for them. -/
def freeCount (map : FreeMap) : Except Trap Nat := Checked.sub map.sectors map.setBits

/-- The sectors in use, in order. -/
def usedSectors (map : FreeMap) : List Nat := (List.range map.sectors).filter map.isUsed

end FreeMap

end SectorFS
