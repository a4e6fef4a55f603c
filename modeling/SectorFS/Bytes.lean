/-!
# Bytes

Byte arrays as functions from offsets to bytes. Past its end an array counts as
zero, so that reading it never fails; each lemma says what one operation does to
this view.
-/

namespace SectorFS

/-- The byte at an offset, or zero past the end. -/
def byteAt (bytes : ByteArray) (offset : Nat) : UInt8 :=
  if h : offset < bytes.size then bytes[offset] else 0

/-- A run of zero bytes. -/
def zeroBytes (count : Nat) : ByteArray := ⟨Array.replicate count 0⟩

theorem byteAt_of_lt {bytes : ByteArray} {offset : Nat} (h : offset < bytes.size) :
    byteAt bytes offset = bytes[offset] := dif_pos h

theorem byteAt_of_size_le {bytes : ByteArray} {offset : Nat} (h : bytes.size ≤ offset) :
    byteAt bytes offset = 0 := dif_neg (by omega)

/-- Arrays of one size with the same bytes are equal. -/
theorem eq_of_byteAt {left right : ByteArray} (hsize : left.size = right.size)
    (h : ∀ offset < left.size, byteAt left offset = byteAt right offset) : left = right := by
  apply ByteArray.ext_getElem hsize
  intro offset hleft hright
  rw [← byteAt_of_lt hleft, ← byteAt_of_lt hright]
  exact h offset hleft

@[simp] theorem size_zeroBytes (count : Nat) : (zeroBytes count).size = count :=
  Array.size_replicate

@[simp] theorem byteAt_zeroBytes (count offset : Nat) : byteAt (zeroBytes count) offset = 0 := by
  by_cases h : offset < (zeroBytes count).size
  · rw [byteAt_of_lt h, ByteArray.getElem_eq_getElem_data]
    exact Array.getElem_replicate _
  · exact byteAt_of_size_le (by omega)

theorem byteAt_append (left right : ByteArray) (offset : Nat) :
    byteAt (left ++ right) offset =
      if offset < left.size then byteAt left offset else byteAt right (offset - left.size) := by
  by_cases hleft : offset < left.size
  · rw [if_pos hleft, byteAt_of_lt (by rw [ByteArray.size_append]; omega), byteAt_of_lt hleft,
      ByteArray.getElem_append_left hleft]
  · rw [if_neg hleft]
    by_cases hright : offset - left.size < right.size
    · rw [byteAt_of_lt (by rw [ByteArray.size_append]; omega), byteAt_of_lt hright,
        ByteArray.getElem_append_right (by omega)]
    · rw [byteAt_of_size_le (by rw [ByteArray.size_append]; omega),
        byteAt_of_size_le (by omega)]

theorem byteAt_extract (bytes : ByteArray) (start stop offset : Nat) :
    byteAt (bytes.extract start stop) offset =
      if start + offset < stop then byteAt bytes (start + offset) else 0 := by
  by_cases h : offset < (bytes.extract start stop).size
  · have hsize := h
    rw [ByteArray.size_extract] at hsize
    rw [if_pos (by omega), byteAt_of_lt h, byteAt_of_lt (by omega), ByteArray.getElem_extract]
  · rw [byteAt_of_size_le (by omega)]
    rw [ByteArray.size_extract] at h
    split
    · rw [byteAt_of_size_le (by omega)]
    · rfl

theorem byteAt_set {bytes : ByteArray} {index : Nat} (value : UInt8) (offset : Nat)
    (h : index < bytes.size) :
    byteAt (bytes.set! index value) offset =
      if index = offset then value else byteAt bytes offset := by
  by_cases hoffset : offset < bytes.size
  · rw [byteAt_of_lt (by rw [ByteArray.size_set!]; exact hoffset), byteAt_of_lt hoffset]
    exact ByteArray.getElem_set! bytes index offset value h hoffset
  · have hsize : (bytes.set! index value).size ≤ offset := by
      rw [ByteArray.size_set!]
      omega
    rw [if_neg (by omega), byteAt_of_size_le hsize, byteAt_of_size_le (by omega)]

/-- Copying a whole array over the bytes of another one. -/
theorem copySlice_eq (source target : ByteArray) (start : Nat) :
    source.copySlice 0 target start source.size =
      target.extract 0 start ++ source ++ target.extract (start + source.size) target.size := by
  rw [ByteArray.copySlice_eq_append, Nat.zero_add, ByteArray.extract_zero_size]
  have hsource : min source.size (source.data.size - 0) = source.size := by
    rw [ByteArray.size_data]
    omega
  rw [hsource, ByteArray.size_data]

end SectorFS
