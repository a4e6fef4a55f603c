import SectorFS.Bytes
import SectorFS.Layout

/-!
# Medium

The storage behind a device: a file of bytes that grows where it is written past
its end. A byte that was never written reads as zero. `size_write` and
`byteAt_write` say what a write does; nothing else about it matters.
-/

namespace SectorFS

/-- A growable file of bytes. -/
structure Medium where
  bytes : ByteArray
  deriving Inhabited

namespace Medium

def empty : Medium := ⟨.empty⟩

def size (medium : Medium) : Nat := medium.bytes.size

/-- The byte at an offset, or zero past the end. -/
def byteAt (medium : Medium) (offset : Nat) : UInt8 := SectorFS.byteAt medium.bytes offset

/-- The medium made at least `size` bytes long by zeros at its end. -/
def extend (medium : Medium) (size : Nat) : Medium :=
  if size ≤ medium.size then medium else ⟨medium.bytes ++ zeroBytes (size - medium.size)⟩

/-- The medium cut or extended with zeros to exactly `size` bytes. -/
def resize (medium : Medium) (size : Nat) : Medium :=
  if size ≤ medium.size then ⟨medium.bytes.extract 0 size⟩ else medium.extend size

/-- Replaces the bytes from `offset` on by `data`. A gap before `offset` is filled with zeros;
writing nothing changes nothing. -/
def write (medium : Medium) (offset : Nat) (data : ByteArray) : Medium :=
  if data.size = 0 then
    medium
  else
    ⟨data.copySlice 0 (medium.extend offset).bytes offset data.size⟩

/-! ## What the operations do -/

theorem size_extend (medium : Medium) (size : Nat) :
    (medium.extend size).size = max medium.size size := by
  unfold extend
  split
  · omega
  · show (medium.bytes ++ zeroBytes (size - medium.size)).size = _
    rw [ByteArray.size_append, size_zeroBytes]
    show medium.size + (size - medium.size) = _
    omega

/-- The bytes added at the end of a medium are zeros, as they were before. -/
@[simp] theorem byteAt_extend (medium : Medium) (size offset : Nat) :
    (medium.extend size).byteAt offset = medium.byteAt offset := by
  unfold extend
  split
  · rfl
  · show SectorFS.byteAt (medium.bytes ++ zeroBytes (size - medium.size)) offset = _
    rw [byteAt_append, byteAt_zeroBytes]
    split
    · rfl
    · exact (byteAt_of_size_le (by omega)).symm

theorem size_resize (medium : Medium) (size : Nat) : (medium.resize size).size = size := by
  unfold resize
  split
  · show (medium.bytes.extract 0 size).size = size
    rw [ByteArray.size_extract]
    show min size medium.size - 0 = size
    omega
  · rw [size_extend]
    omega

theorem size_write (medium : Medium) (offset : Nat) (data : ByteArray) :
    (medium.write offset data).size =
      if data.size = 0 then medium.size else max medium.size (offset + data.size) := by
  unfold write
  split
  · rfl
  · have hextend := medium.size_extend offset
    have hreach : offset ≤ (medium.extend offset).bytes.size := by
      show offset ≤ (medium.extend offset).size
      omega
    show (data.copySlice 0 (medium.extend offset).bytes offset data.size).size = _
    rw [copySlice_eq, ByteArray.size_append, ByteArray.size_append, ByteArray.size_extract,
      ByteArray.size_extract]
    change min offset (medium.extend offset).size - 0 + data.size +
      (min (medium.extend offset).size (medium.extend offset).size - (offset + data.size)) = _
    omega

/-- A write changes the bytes it covers and no others. -/
theorem byteAt_write (medium : Medium) (offset place : Nat) (data : ByteArray) :
    (medium.write offset data).byteAt place =
      if offset ≤ place ∧ place < offset + data.size then
        SectorFS.byteAt data (place - offset)
      else
        medium.byteAt place := by
  unfold write
  split
  · rw [if_neg (by omega)]
  · have hextend := medium.size_extend offset
    have hreach : offset ≤ (medium.extend offset).bytes.size := by
      show offset ≤ (medium.extend offset).size
      omega
    have hstart : ((medium.extend offset).bytes.extract 0 offset).size = offset := by
      rw [ByteArray.size_extract]
      omega
    show SectorFS.byteAt (data.copySlice 0 (medium.extend offset).bytes offset data.size) place = _
    rw [copySlice_eq, byteAt_append, byteAt_append, ByteArray.size_append, hstart,
      byteAt_extract, byteAt_extract, ← medium.byteAt_extend offset place]
    by_cases hbefore : place < offset
    · rw [if_pos (by omega), if_pos hbefore, if_pos (by omega), if_neg (by omega), Nat.zero_add]
      rfl
    · by_cases hwithin : place < offset + data.size
      · rw [if_pos hwithin, if_neg hbefore, if_pos (by omega)]
      · rw [if_neg hwithin, if_neg (by omega : ¬(offset ≤ place ∧ place < offset + data.size))]
        have hplace : offset + data.size + (place - (offset + data.size)) = place := by omega
        rw [hplace]
        split
        · rfl
        · exact (byteAt_of_size_le (by omega)).symm

end Medium

end SectorFS
