import SectorFS.Directory.Storage
import SectorFS.FreeMap.Storage
import SectorFS.Proofs.FreeMap
import SectorFS.Proofs.Transfer

/-!
# Tables and maps as files

A directory and the free-sector map are stored as the contents of intact files of the right
lengths. Reading one gives what the image holds and writing one puts it there, sector by
sector, so at every point of the writing each entry and each bit that lies in the sectors
written so far is the new one, and each entry and each bit behind them is the old one.
-/

namespace SectorFS

namespace Image

/-- The directory whose root node is at a sector. -/
@[irreducible] def table (image : Image) (sector : Nat) : Directory := .ofBytes (image.content sector)

/-- The free-sector map. -/
@[irreducible] def freeMap (image : Image) (sectors : Nat) : FreeMap :=
  .ofBytes sectors (image.content freeMapSector)

/-- The same content is the same table. -/
theorem table_congr {image changed : Image} {sector : Nat}
    (h : changed.content sector = image.content sector) :
    changed.table sector = image.table sector := by
  rw [table, table, h]

/-- The bytes of a directory are those of its table. -/
theorem content_eq_toBytes {image : Image} {sector : Nat} (h : image.size sector = directorySize) :
    image.content sector = (image.table sector).toBytes := by
  rw [table, Directory.toBytes_ofBytes (by rw [size_content, h])]

theorem table_eq_of_content {image : Image} {sector : Nat} {directory : Directory}
    (h : image.content sector = directory.toBytes) : image.table sector = directory := by
  rw [table, h, Directory.ofBytes_toBytes]

end Image

variable {image : Image} {sectors : Nat} {node : Node}

theorem Handle.fetch_performs {sector : Nat} (h : image.Intact sectors sector node)
    (hword : sectors ≤ 2 ^ 32) :
    Performs (Handle.fetch sector) image sectors (.ok ⟨sector, node, 0⟩) [] := by
  have hlt := h.self_lt
  exact (Node.fetch_performs h.node_eq hlt (by omega)).map fun node ↦ (⟨sector, node, 0⟩ : Handle)

/-- A read from the start of a file that asks for all of it returns all of it. -/
theorem Handle.readAll_performs {handle : Handle}
    (h : image.Intact sectors handle.sector handle.node) (hword : sectors ≤ 2 ^ 32) {count : Nat}
    (hcount : image.size handle.sector = count) :
    Performs (handle.readAt 0 count) image sectors (.ok (image.content handle.sector)) [] := by
  have hclamp : handle.clamp count 0 = count := by
    rw [Handle.clamp, Handle.length, ← h.size_eq, hcount, Nat.sub_zero, Nat.min_self]
  have hrun := Handle.readAt_performs h hword 0 count
  rw [hclamp, Nat.zero_add, ← hcount, ← Image.size_content, ByteArray.extract_zero_size,
    Image.size_content, hcount] at hrun
  exact hrun

theorem Handle.writeAll_performs {handle : Handle}
    (h : image.Intact sectors handle.sector handle.node) (hword : sectors ≤ 2 ^ 32)
    {data : ByteArray} (hdata : image.size handle.sector = data.size) :
    ∃ writes, Performs (handle.writeAt 0 data) image sectors (.ok data.size) writes ∧
      image.Splices handle.sector 0 data.size 0 data writes := by
  have hclamp : handle.clamp data.size 0 = data.size := by
    rw [Handle.clamp, Handle.length, ← h.size_eq, hdata, Nat.sub_zero, Nat.min_self]
  have hwrite := Handle.writeAt_performs h hword 0 data
  rwa [hclamp] at hwrite

namespace Image.Splices

variable {sector length : Nat} {data : ByteArray} {writes : List Write}

/-- The content of a file while it is being written from its start. -/
theorem byteAt_whole (h : image.Splices sector 0 length 0 data writes)
    (hintact : image.Intact sectors sector node) (count : Nat) {offset : Nat}
    (hoffset : offset < image.size sector) :
    byteAt ((image.putAll (writes.take count)).content sector) offset =
      if offset < length ∧ offset / sectorSize < count then byteAt data offset
      else byteAt (image.content sector) offset := by
  rw [h.byteAt_content hintact count hoffset]
  simp only [Nat.zero_le, true_and, Nat.zero_add, Nat.zero_div, Nat.sub_zero]

theorem length_whole (h : image.Splices sector 0 length 0 data writes) :
    writes.length = Geometry.pieces length sectorSize := by
  have hcut := Chunk.length_cut_zero 0 length
  rw [Nat.zero_mul] at hcut
  rw [h.length_eq, hcut]

/-- A file that is written whole has the content that was written. -/
theorem content_eq (h : image.Splices sector 0 data.size 0 data writes)
    (hintact : image.Intact sectors sector node) (hsize : image.size sector = data.size) :
    (image.putAll writes).content sector = data := by
  have hspine := h.spine_kept hintact writes.length
  rw [List.take_length] at hspine
  apply eq_of_byteAt (by rw [size_content, size_congr hspine, hsize])
  intro offset hoffset
  rw [size_content, size_congr hspine] at hoffset
  have hplace : offset / sectorSize < writes.length := by
    rw [h.length_whole, Geometry.lt_pieces_iff (by decide)]
    exact Nat.lt_of_le_of_lt (Nat.div_mul_le_self _ _) (hsize ▸ hoffset)
  have hbyte := h.byteAt_whole hintact writes.length hoffset
  rwa [List.take_length, if_pos ⟨hsize ▸ hoffset, hplace⟩] at hbyte

end Image.Splices

/-! ## Directories -/

namespace Directory

theorem ofFile_performs {handle : Handle} (h : image.Intact sectors handle.sector handle.node)
    (hword : sectors ≤ 2 ^ 32) (hsize : image.size handle.sector = directorySize) :
    Performs (ofFile handle) image sectors (.ok (image.table handle.sector)) [] :=
  by
    rw [Image.table]
    exact (Handle.readAll_performs h hword hsize).map ofBytes

theorem load_performs {sector : Nat} (h : image.Intact sectors sector node)
    (hword : sectors ≤ 2 ^ 32) (hsize : image.size sector = directorySize) :
    Performs (load sector) image sectors (.ok (image.table sector)) [] :=
  (Handle.fetch_performs h hword).step (@ofFile_performs _ _ ⟨sector, node, 0⟩ h hword hsize)

theorem store_performs {handle : Handle} (directory : Directory)
    (h : image.Intact sectors handle.sector handle.node) (hword : sectors ≤ 2 ^ 32)
    (hsize : image.size handle.sector = directorySize) :
    ∃ writes, Performs (directory.store handle) image sectors (.ok ()) writes ∧
      image.Splices handle.sector 0 directorySize 0 directory.toBytes writes := by
  obtain ⟨writes, hrun, hsplices⟩ := Handle.writeAll_performs h hword
    (hsize.trans directory.size_toBytes.symm)
  rw [size_toBytes] at hsplices
  exact ⟨writes, hrun.map fun _ ↦ (), hsplices⟩

end Directory

namespace Entry

variable {entry : Entry} {bytes : Nat → UInt8}

theorem usage_ofStored (h : ∀ place < 2, bytes place = entry.storedByte place) :
    (ofStored bytes).usage = entry.usage := by
  have hself := @ofStored_storedByte entry entry.storedByte fun _ _ ↦ rfl
  rw [← congrArg Entry.usage hself, ofStored, ofStored, LittleEndian.read_congr h]

theorem kind_ofStored (h : ∀ place < 2, bytes (place + 2) = entry.storedByte (place + 2)) :
    (ofStored bytes).kind = entry.kind := by
  have hself := @ofStored_storedByte entry entry.storedByte fun _ _ ↦ rfl
  rw [← congrArg Entry.kind hself, ofStored, ofStored, LittleEndian.read_congr h]

theorem sector_ofStored (h : ∀ place < 4, bytes (place + 4) = entry.storedByte (place + 4)) :
    (ofStored bytes).sector = entry.sector := by
  have hself := @ofStored_storedByte entry entry.storedByte fun _ _ ↦ rfl
  rw [← congrArg Entry.sector hself, ofStored, ofStored, LittleEndian.read_congr h]

end Entry

namespace Image

theorem entry_eq (image : Image) (sector : Nat) (index : Fin entryCount) :
    (image.table sector).table[index] =
      .ofStored fun place ↦ byteAt (image.content sector) (entrySize * index + place) := by
  simp [table, Directory.ofBytes]

theorem storedByte_entry (image : Image) (sector : Nat) (index : Fin entryCount) {place : Nat}
    (hplace : place < entrySize) :
    (image.table sector).table[index].storedByte place =
      byteAt (image.content sector) (entrySize * index + place) := by
  rw [entry_eq, Entry.storedByte_ofStored _ hplace]

namespace Splices

variable {sector : Nat} {directory : Directory} {writes : List Write}

/-- The bytes of an entry while its directory is being written. -/
theorem byteAt_table (h : image.Splices sector 0 directorySize 0 directory.toBytes writes)
    (hintact : image.Intact sectors sector node) (hsize : image.size sector = directorySize)
    (count : Nat) (index : Fin entryCount) {place : Nat} (hplace : place < entrySize) :
    byteAt ((image.putAll (writes.take count)).content sector) (entrySize * index + place) =
      if (entrySize * index + place) / sectorSize < count then
        directory.table[index].storedByte place
      else (image.table sector).table[index].storedByte place := by
  have hoffset : entrySize * index + place < directorySize := by
    have hindex := index.isLt
    simp only [entrySize, wordSize, nameField, nameLimit, entryCount, directorySize] at *
    omega
  rw [h.byteAt_whole hintact count (hsize ▸ hoffset), storedByte_entry _ _ _ hplace]
  simp only [hoffset, true_and, Directory.byteAt_toBytes directory index.isLt hplace]
  rfl

/-- A table is cut between words: while it is being written, each word of an entry is the new one
or the old one. An entry can start in one sector and have the number of its root node in the next. -/
theorem entry_words (h : image.Splices sector 0 directorySize 0 directory.toBytes writes)
    (hintact : image.Intact sectors sector node) (hsize : image.size sector = directorySize)
    (count : Nat) (index : Fin entryCount) :
    ((image.putAll (writes.take count)).table sector).table[index].usage =
      (if entrySize * index / sectorSize < count then directory else image.table sector).table[index].usage ∧
    ((image.putAll (writes.take count)).table sector).table[index].kind =
      (if entrySize * index / sectorSize < count then directory else image.table sector).table[index].kind ∧
    ((image.putAll (writes.take count)).table sector).table[index].sector =
      (if (entrySize * index + wordSize) / sectorSize < count then directory
        else image.table sector).table[index].sector := by
  have hbyte (start place : Nat) (hstart : start = 0 ∨ start = wordSize) (hlow : start ≤ place)
      (hhigh : place < start + wordSize) :
      byteAt ((image.putAll (writes.take count)).content sector) (entrySize * index + place) =
        (if (entrySize * index + start) / sectorSize < count then directory
          else image.table sector).table[index].storedByte place := by
    have hsame : (entrySize * index + place) / sectorSize < count ↔
        (entrySize * index + start) / sectorSize < count := by
      simp only [entrySize, wordSize, nameField, nameLimit, sectorSize] at *
      omega
    rw [h.byteAt_table hintact hsize count index (by
      simp only [entrySize, wordSize, nameField, nameLimit] at *
      omega)]
    simp only [hsame]
    split <;> rfl
  rw [entry_eq]
  refine ⟨Entry.usage_ofStored fun place hplace ↦ ?_, Entry.kind_ofStored fun place hplace ↦ ?_,
    Entry.sector_ofStored fun place hplace ↦ ?_⟩
  · rw [hbyte 0 place (.inl rfl) (Nat.zero_le _) (by simp only [wordSize]; omega), Nat.add_zero]
  · rw [hbyte 0 (place + 2) (.inl rfl) (Nat.zero_le _) (by simp only [wordSize]; omega),
      Nat.add_zero]
  · rw [hbyte wordSize (place + 4) (.inr rfl) (by simp only [wordSize]; omega)
      (by simp only [wordSize]; omega)]

/-- An entry that is not to change does not change on the way. -/
theorem entry_same (h : image.Splices sector 0 directorySize 0 directory.toBytes writes)
    (hintact : image.Intact sectors sector node) (hsize : image.size sector = directorySize)
    (count : Nat) {index : Fin entryCount}
    (hsame : directory.table[index] = (image.table sector).table[index]) :
    ((image.putAll (writes.take count)).table sector).table[index] =
      (image.table sector).table[index] := by
  rw [entry_eq]
  refine Entry.ofStored_storedByte fun place hplace ↦ ?_
  rw [h.byteAt_table hintact hsize count index hplace, hsame, ite_self]

/-- A directory that is written is the one on the image. -/
theorem table_eq (h : image.Splices sector 0 directorySize 0 directory.toBytes writes)
    (hintact : image.Intact sectors sector node) (hsize : image.size sector = directorySize) :
    (image.putAll writes).table sector = directory := by
  have hlength := directory.size_toBytes
  rw [← hlength] at h hsize
  exact table_eq_of_content (h.content_eq hintact hsize)

end Splices

end Image

/-! ## Maps -/

namespace FreeMap

theorem checkedByteCount_eq_ok (h : sectors + 7 < Checked.wordLimit) :
    checkedByteCount sectors = .ok (byteCount sectors) := by
  rw [checkedByteCount, Checked.add_eq_ok h]
  rfl

theorem load_performs {handle : Handle} (hsector : handle.sector = freeMapSector)
    (h : image.Intact sectors handle.sector handle.node) (hword : sectors ≤ 2 ^ 32)
    (hsize : image.size handle.sector = byteCount sectors) :
    Performs (load sectors handle) image sectors (.ok (image.freeMap sectors)) [] := by
  rw [load_eq, checkedByteCount_eq_ok (by simp only [Checked.wordLimit]; omega), Image.freeMap,
    ← hsector]
  exact (Performs.pure _).step ((Handle.readAll_performs h hword hsize).map (ofBytes sectors))

theorem store_performs {handle : Handle} {map : FreeMap} (hmap : map.sectors = sectors)
    (h : image.Intact sectors handle.sector handle.node) (hword : sectors ≤ 2 ^ 32)
    (hsize : image.size handle.sector = byteCount sectors) :
    ∃ writes, Performs (map.store handle) image sectors (.ok ()) writes ∧
      image.Splices handle.sector 0 map.bytes.size 0 map.bytes writes := by
  have hbytes : map.bytes.size = byteCount sectors := hmap ▸ map.size_bytes
  obtain ⟨writes, hrun, hsplices⟩ := Handle.writeAll_performs h hword (hsize.trans hbytes.symm)
  refine ⟨writes, ?_, hsplices⟩
  rw [store, checkedByteCount_eq_ok (by simp only [Checked.wordLimit]; omega)]
  exact (Performs.pure _).step (hrun.map fun _ ↦ ())

end FreeMap

namespace Image

theorem isUsed_freeMap (image : Image) {sectors sector : Nat}
    (h : sector / 8 < FreeMap.byteCount sectors) :
    (image.freeMap sectors).isUsed sector =
      FreeMap.bitAt (image.content freeMapSector) sector := by
  rw [freeMap, FreeMap.isUsed_ofBytes h]

namespace Splices

variable {map : FreeMap} {writes : List Write}

/-- The bits of the map while it is being written. -/
theorem isUsed_eq (h : image.Splices freeMapSector 0 map.bytes.size 0 map.bytes writes)
    (hintact : image.Intact sectors freeMapSector node) (hmap : map.sectors = sectors)
    (hsize : image.size freeMapSector = FreeMap.byteCount sectors) (count sector : Nat) :
    ((image.putAll (writes.take count)).freeMap sectors).isUsed sector =
      if sector / 8 / sectorSize < count then map.isUsed sector
      else (image.freeMap sectors).isUsed sector := by
  have hbytes : map.bytes.size = FreeMap.byteCount sectors := hmap ▸ map.size_bytes
  by_cases hoffset : sector / 8 < FreeMap.byteCount sectors
  · rw [isUsed_freeMap _ hoffset, isUsed_freeMap _ hoffset, FreeMap.bitAt, FreeMap.bitAt,
      FreeMap.isUsed, h.byteAt_whole hintact count (hsize ▸ hoffset)]
    simp only [hbytes ▸ hoffset, true_and]
    split <;> rfl
  · have hnone (other : FreeMap) (hother : other.sectors = sectors) : other.isUsed sector = false :=
      FreeMap.not_isUsed_of_byteCount_le (by rw [hother]; exact Nat.le_of_not_lt hoffset)
    have hfreeMap (other : Image) : (other.freeMap sectors).sectors = sectors := by
      rw [freeMap, FreeMap.sectors_ofBytes]
    rw [hnone _ (hfreeMap _), hnone _ (hfreeMap _), hnone _ hmap, ite_self]

/-- A map that is written is the one on the image. -/
theorem freeMap_eq (h : image.Splices freeMapSector 0 map.bytes.size 0 map.bytes writes)
    (hintact : image.Intact sectors freeMapSector node) (hmap : map.sectors = sectors)
    (hsize : image.size freeMapSector = FreeMap.byteCount sectors) :
    (image.putAll writes).freeMap sectors = map := by
  have hbytes : map.bytes.size = FreeMap.byteCount sectors := hmap ▸ map.size_bytes
  rw [freeMap, h.content_eq hintact (hsize.trans hbytes.symm), ← hmap, FreeMap.ofBytes_bytes]

end Splices

end Image

end SectorFS
