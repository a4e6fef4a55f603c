import SectorFS.Proofs.Deliveries
import SectorFS.Proofs.Files
import SectorFS.Proofs.InPlace
import SectorFS.Proofs.Index.Lookup

/-!
# Reading and writing a file

A read returns a slice of the content and a write replaces one, both clamped to the end of
the file. A transfer is carried out chunk by chunk, one chunk for each sector it touches, so
the first `k` sectors of a write are written before any other.

A transfer needs the root of the file and the tree below it, and does not care where the root
is stored. `Patches` says what a write puts on the data sectors, the bytes past the end of the
file included, and that no other sector is written. For an intact file it follows what the file
contains at every point on the way (`Splices`).
-/

namespace SectorFS

namespace Chunk

theorem cut_zero (start : Nat) : cut start 0 = [] := by
  unfold cut
  rfl

theorem cut_of_pos (start : Nat) {length : Nat} (h : 0 < length) :
    cut start length =
      ⟨start, min (sectorSize - start % sectorSize) length⟩ ::
        cut (start + min (sectorSize - start % sectorSize) length)
          (length - min (sectorSize - start % sectorSize) length) := by
  conv_lhs => unfold cut
  rw [if_neg (by omega)]

/-- A transfer that starts at the start of a sector touches as many sectors as its bytes fill. -/
theorem length_cut_zero (count length : Nat) :
    (cut (count * sectorSize) length).length = Geometry.pieces length sectorSize := by
  induction length using Nat.strong_induction_on generalizing count with
  | _ length ih =>
    cases Nat.eq_zero_or_pos length with
    | inl hzero =>
      rw [hzero, cut_zero, Geometry.pieces_zero (by decide)]
      rfl
    | inr hpos =>
      rw [cut_of_pos _ hpos, List.length_cons, Nat.mul_mod_left, Nat.sub_zero]
      by_cases hwhole : sectorSize ≤ length
      · have hnext : count * sectorSize + sectorSize = (count + 1) * sectorSize := by
          rw [Nat.add_mul, Nat.one_mul]
        rw [Nat.min_eq_left hwhole, hnext, ih _ (by simp only [sectorSize] at *; omega)]
        simp only [Geometry.pieces, sectorSize] at *
        omega
      · rw [Nat.min_eq_right (by omega), Nat.sub_self, cut_zero,
          Geometry.pieces_eq_one hpos (by omega)]
        rfl

/-- The sectors that a transfer touches are enough for all of its bytes. -/
theorem div_lt_of_lt_cut {start length offset : Nat} (hstart : start ≤ offset)
    (hstop : offset < start + length) :
    offset / sectorSize < start / sectorSize + (cut start length).length := by
  induction length using Nat.strong_induction_on generalizing start with
  | _ length ih =>
    have hpos : 0 < length := by omega
    have htail := @ih (length - min (sectorSize - start % sectorSize) length)
      (by simp only [sectorSize]; omega) (start + min (sectorSize - start % sectorSize) length)
    rw [cut_of_pos _ hpos, List.length_cons]
    by_cases hfirst : offset < start + min (sectorSize - start % sectorSize) length
    · simp only [sectorSize] at *
      omega
    · have hrest := htail (by omega) (by omega)
      simp only [sectorSize] at *
      omega

/-- While a chunk is missing, the sectors of those before it end before the transfer does. -/
theorem lt_of_lt_length_cut {start length count : Nat} (h : count + 1 < (cut start length).length) :
    (start / sectorSize + (count + 1)) * sectorSize < start + length := by
  induction length using Nat.strong_induction_on generalizing start count with
  | _ length ih =>
    have hrest : start % sectorSize < sectorSize := Nat.mod_lt _ (by decide)
    have hpos : 0 < length := by
      by_contra hzero
      rw [Nat.eq_zero_of_not_pos hzero, cut_zero] at h
      exact absurd h (Nat.not_lt_zero _)
    rw [cut_of_pos _ hpos, List.length_cons, Nat.add_lt_add_iff_right] at h
    have hmore : min (sectorSize - start % sectorSize) length < length := by
      by_contra hall
      rw [show length - min (sectorSize - start % sectorSize) length = 0 by omega, cut_zero] at h
      exact absurd h (Nat.not_lt_zero _)
    have haligned : start + min (sectorSize - start % sectorSize) length =
        (start / sectorSize + 1) * sectorSize := by
      clear ih h
      simp only [sectorSize] at *
      omega
    cases count with
    | zero =>
      rw [Nat.zero_add, ← haligned]
      omega
    | succ count =>
      have hnext : (start / sectorSize + 1) * sectorSize / sectorSize = start / sectorSize + 1 :=
        Nat.mul_div_cancel _ (by decide)
      have htail := ih _ (by omega) h
      rw [haligned, hnext, ← haligned] at htail
      rw [show count + 1 + 1 = 1 + (count + 1) by omega, ← Nat.add_assoc]
      omega

theorem within_cut_iff {start length offset : Nat} :
    (start ≤ offset ∧ offset < start + length ∧
      offset / sectorSize < start / sectorSize + (cut start length).length) ↔
      start ≤ offset ∧ offset < start + length :=
  ⟨fun h ↦ ⟨h.1, h.2.1⟩, fun h ↦ ⟨h.1, h.2, div_lt_of_lt_cut h.1 h.2⟩⟩

end Chunk

/-! ## Bytes over bytes -/

/-- The bytes with `data` put over them from a position on. Their number does not change. -/
def overwrite (bytes : ByteArray) (position : Nat) (data : ByteArray) : ByteArray :=
  ⟨Array.ofFn fun offset : Fin bytes.size ↦
    if position ≤ offset.val ∧ offset.val < position + data.size then
      byteAt data (offset - position)
    else byteAt bytes offset⟩

@[simp] theorem size_overwrite (bytes : ByteArray) (position : Nat) (data : ByteArray) :
    (overwrite bytes position data).size = bytes.size := Array.size_ofFn

theorem byteAt_overwrite (bytes : ByteArray) (position : Nat) (data : ByteArray) {offset : Nat}
    (h : offset < bytes.size) :
    byteAt (overwrite bytes position data) offset =
      if position ≤ offset ∧ offset < position + data.size then byteAt data (offset - position)
      else byteAt bytes offset := by
  rw [byteAt_of_lt (by rw [size_overwrite]; exact h), ByteArray.getElem_eq_getElem_data]
  simp [overwrite]

theorem extract_append_extract (bytes : ByteArray) {start middle stop : Nat} (hle : start ≤ middle)
    (hstop : middle ≤ stop) :
    bytes.extract start middle ++ bytes.extract middle stop = bytes.extract start stop := by
  rw [ByteArray.extract_append_extract, Nat.min_eq_left hle, Nat.max_eq_right hstop]

/-- Copying a whole array over what follows the start of another one. -/
theorem copySlice_append (source before rest : ByteArray) :
    source.copySlice 0 (before ++ rest) before.size source.size =
      before ++ source ++ rest.extract source.size rest.size := by
  have hstart : (before ++ rest).extract 0 before.size = before := ByteArray.extract_append_eq_left rfl
  have hend : (before ++ rest).extract (before.size + source.size) (before ++ rest).size =
      rest.extract source.size rest.size := by
    rw [ByteArray.size_append, ByteArray.extract_append_size_add]
  rw [copySlice_eq, hstart, hend]

namespace Sector

theorem slice_eq (content : Sector) (start count : Nat) :
    content.slice start count = content.bytes.extract start (start + count) := by
  apply ByteArray.ext
  rw [ByteArray.data_extract]
  rfl

theorem size_slice (content : Sector) {start count : Nat} (h : start + count ≤ sectorSize) :
    (content.slice start count).size = count := by
  rw [slice_eq, ByteArray.size_extract, Disk.size_bytes]
  omega

theorem byteAt_splice (content : Sector) (start count : Nat) (data : ByteArray) (origin : Nat)
    {place : Nat} (h : place < sectorSize) :
    byteAt (content.splice start count data origin).bytes place =
      if start ≤ place ∧ place < start + count then byteAt data (origin + (place - start))
      else byteAt content.bytes place := by
  rw [Disk.byteAt_bytes _ h, Disk.byteAt_bytes _ h, splice, Vector.getElem_ofFn]
  rfl

end Sector

/-! ## Reading into a buffer -/

namespace Handle

variable {handle : Handle} {position : Nat}

/-- What follows the reading of a chunk sees as many bytes as the chunk has. -/
theorem readChunk_bind_congr {α : Type} {chunk : Chunk}
    (hfits : chunk.origin + chunk.size ≤ sectorSize) {first second : ByteArray → Action α}
    (h : ∀ piece : ByteArray, piece.size = chunk.size → first piece = second piece) :
    handle.readChunk chunk >>= first = handle.readChunk chunk >>= second := by
  simp only [readChunk, bind_assoc, pure_bind]
  exact bind_congr fun sector ↦ bind_congr fun content ↦ h _ (Sector.size_slice content hfits)

/-- Reading the chunks into a buffer is reading them, and putting them before the rest of it. -/
theorem readChunks_into {start length : Nat} (before rest : ByteArray)
    (hbefore : start = position + before.size) (hlength : length ≤ rest.size) :
    ((Chunk.cut start length).foldlM (fun filled chunk ↦ do
        return (← handle.readChunk chunk).copySlice 0 filled (chunk.start - position) chunk.size)
      (before ++ rest)) = (do
        let bytes ← (Chunk.cut start length).foldlM (fun bytes chunk ↦ do
          return bytes ++ (← handle.readChunk chunk)) before
        return bytes ++ rest.extract length rest.size) := by
  induction length using Nat.strong_induction_on generalizing start before rest with
  | _ length ih =>
    cases Nat.eq_zero_or_pos length with
    | inl hzero =>
      subst hzero
      rw [Chunk.cut_zero, List.foldlM_nil, List.foldlM_nil, pure_bind, ByteArray.extract_zero_size]
    | inr hpos =>
      have hrest : start % sectorSize < sectorSize := Nat.mod_lt _ (by decide)
      rw [Chunk.cut_of_pos _ hpos, List.foldlM_cons, List.foldlM_cons]
      generalize hcount : min (sectorSize - start % sectorSize) length = count
      simp only [bind_assoc, pure_bind]
      have hfits : (⟨start, count⟩ : Chunk).origin + count ≤ sectorSize := by
        show start % sectorSize + count ≤ sectorSize
        omega
      refine @readChunk_bind_congr _ _ ⟨start, count⟩ hfits _ _ fun piece hpiece ↦ ?_
      replace hpiece : piece.size = count := hpiece
      have hplace : start - position = before.size := by omega
      have hleft : (rest.extract count rest.size).extract (length - count)
          (rest.extract count rest.size).size = rest.extract length rest.size := by
        rw [ByteArray.extract_extract, ByteArray.size_extract]
        congr 1 <;> omega
      have hcopy := copySlice_append piece before rest
      rw [hpiece] at hcopy
      rw [hplace, hcopy, ih (length - count) (by omega) _ _
        (by rw [ByteArray.size_append, hpiece]; omega) (by rw [ByteArray.size_extract]; omega), hleft]

/-- Reading into a buffer is reading as many bytes as it has room for, over its start. -/
theorem readInto_eq (handle : Handle) (position : Nat) (buffer : ByteArray) :
    handle.readInto position buffer = (do
      let bytes ← handle.readAt position buffer.size
      let count := handle.clamp buffer.size position
      return (count, bytes ++ buffer.extract count buffer.size)) := by
  have hchunks := @readChunks_into handle position position (handle.clamp buffer.size position)
    .empty buffer rfl (Nat.min_le_left _ _)
  rw [ByteArray.empty_append] at hchunks
  rw [readInto, readAt, hchunks]
  simp only [bind_assoc, pure_bind]

end Handle

/-! ## Reading -/

/-- A position that is a word stays one when it is moved past what was transferred, as no file is so
long that the position behind its end is not a word. -/
theorem Handle.advance_eq_ok {handle : Handle} {count : Nat}
    (hposition : handle.position < Checked.wordLimit)
    (hcount : count ≤ handle.length - handle.position) :
    handle.advance count = .ok (handle.seek (handle.position + count)) := by
  have hlength : handle.length < 2 ^ 32 := UInt32.toNat_lt _
  have hword : handle.position + count < Checked.wordLimit := by
    simp only [Checked.wordLimit] at hposition ⊢
    omega
  rw [advance, Checked.add_eq_ok hword]
  rfl

theorem Handle.size_extract_clamp (handle : Handle) (image : Image) (count position : Nat) :
    ((handle.node.content image).extract position (position + handle.clamp count position)).size =
      handle.clamp count position := by
  have hclamp : handle.clamp count position ≤ handle.length - position := Nat.min_le_right _ _
  rw [ByteArray.size_extract, Node.size_content, ← length]
  omega

namespace Node.Laid

open SectorFS.Geometry

variable {image : Image} {sectors : Nat} {handle : Handle}

theorem locate_chunk {offset : Nat} (h : handle.node.Laid image sectors)
    (hoffset : offset < handle.length) :
    ∃ leaf ∈ handle.node.data image, (handle.node.data image)[offset / sectorSize]? = some leaf ∧
      Performs (handle.node.locate offset) image sectors (.ok leaf) [] := by
  obtain ⟨leaf, hleaf, hrun⟩ := Node.locate_performs h.formed h.size_le
    (fun sector hsector ↦ h.inner_lt hsector) hoffset
  exact ⟨leaf, List.mem_of_getElem? hleaf, hleaf, hrun⟩

/-- A chunk holds the bytes of the file at its place. -/
theorem readChunk_performs {start count : Nat} (h : handle.node.Laid image sectors)
    (hword : ∀ leaf ∈ handle.node.data image, leaf < 2 ^ 57) (hpos : 0 < count)
    (horigin : start % sectorSize + count ≤ sectorSize) (hend : start + count ≤ handle.length) :
    Performs (handle.readChunk ⟨start, count⟩) image sectors
      (.ok ((handle.node.content image).extract start (start + count))) [] := by
  obtain ⟨leaf, hmem, hleaf, hlocate⟩ := h.locate_chunk (by omega : start < _)
  have hlt := h.data_lt hmem
  have hbytes : (image leaf).slice (start % sectorSize) count =
      (handle.node.content image).extract start (start + count) := by
    rw [Handle.length] at hend
    apply eq_of_byteAt
    · rw [Sector.size_slice _ horigin, ByteArray.size_extract, Node.size_content]
      omega
    · intro offset hoffset
      rw [Sector.size_slice _ horigin] at hoffset
      have hplace : (start + offset) / sectorSize = start / sectorSize := by
        simp only [sectorSize] at *
        omega
      have hrest : (start + offset) % sectorSize = start % sectorSize + offset := by
        simp only [sectorSize] at *
        omega
      rw [Sector.slice_eq, byteAt_extract, if_pos (by omega), byteAt_extract, if_pos (by omega),
        Node.byteAt_content (by omega), Image.byteIn, hplace, hrest, hleaf, Option.getD_some]
  rw [← hbytes]
  refine hlocate.step ((Performs.readSector hlt (hword leaf hmem)).step ?_)
  exact Performs.pure _

/-- The chunks of a transfer, one after the other, hold its bytes. -/
theorem readChunks_performs {start length : Nat} (h : handle.node.Laid image sectors)
    (hword : ∀ leaf ∈ handle.node.data image, leaf < 2 ^ 57) (hend : start + length ≤ handle.length)
    (before : ByteArray) :
    Performs ((Chunk.cut start length).foldlM (fun bytes chunk ↦ do
        return bytes ++ (← handle.readChunk chunk)) before) image sectors
      (.ok (before ++ (handle.node.content image).extract start (start + length))) [] := by
  induction length using Nat.strong_induction_on generalizing start before with
  | _ length ih =>
    cases Nat.eq_zero_or_pos length with
    | inl hzero =>
      subst hzero
      rw [Chunk.cut_zero, Nat.add_zero, ByteArray.extract_same, ByteArray.append_empty]
      exact Performs.pure before
    | inr hpos =>
      have hrest : start % sectorSize < sectorSize := Nat.mod_lt _ (by decide)
      have hsplit := extract_append_extract (handle.node.content image)
        (by omega : start ≤ start + min (sectorSize - start % sectorSize) length)
        (by omega : _ ≤ start + length)
      rw [Chunk.cut_of_pos _ hpos, List.foldlM_cons, ← hsplit, ← ByteArray.append_assoc]
      refine ((h.readChunk_performs hword (by omega) (by omega) (by omega)).map
        (before ++ ·)).step ?_
      have htail := @ih (length - min (sectorSize - start % sectorSize) length) (by omega)
        (start + min (sectorSize - start % sectorSize) length) (by omega)
        (before ++ (handle.node.content image).extract start
          (start + min (sectorSize - start % sectorSize) length))
      rw [show start + min (sectorSize - start % sectorSize) length +
        (length - min (sectorSize - start % sectorSize) length) = start + length by omega] at htail
      exact htail

/-- A read returns the bytes from its position on, up to the end of the file. -/
theorem readAt_performs (h : handle.node.Laid image sectors)
    (hword : ∀ leaf ∈ handle.node.data image, leaf < 2 ^ 57) (position count : Nat) :
    Performs (handle.readAt position count) image sectors
      (.ok ((handle.node.content image).extract position
        (position + handle.clamp count position))) [] := by
  rw [Handle.readAt]
  by_cases hpast : handle.clamp count position = 0
  · rw [hpast, Chunk.cut_zero, Nat.add_zero, ByteArray.extract_same]
    exact Performs.pure _
  · have hend : position + handle.clamp count position ≤ handle.length := by
      rw [Handle.clamp] at *
      omega
    have hrun := h.readChunks_performs hword hend .empty
    rwa [ByteArray.empty_append] at hrun

/-- A read into a buffer leaves what it has no bytes for. -/
theorem readInto_performs (h : handle.node.Laid image sectors)
    (hword : ∀ leaf ∈ handle.node.data image, leaf < 2 ^ 57) (position : Nat)
    (buffer : ByteArray) :
    Performs (handle.readInto position buffer) image sectors
      (.ok (handle.clamp buffer.size position,
        (handle.node.content image).extract position
            (position + handle.clamp buffer.size position) ++
          buffer.extract (handle.clamp buffer.size position) buffer.size)) [] := by
  rw [Handle.readInto_eq]
  exact (h.readAt_performs hword position buffer.size).map fun bytes ↦
    (handle.clamp buffer.size position,
      bytes ++ buffer.extract (handle.clamp buffer.size position) buffer.size)

/-- A sequential read moves the position past the bytes that it returns. -/
theorem read_performs (h : handle.node.Laid image sectors)
    (hword : ∀ leaf ∈ handle.node.data image, leaf < 2 ^ 57)
    (hposition : handle.position < Checked.wordLimit) (count : Nat) :
    Performs (handle.read count) image sectors
      (.ok ((handle.node.content image).extract handle.position
          (handle.position + handle.clamp count handle.position),
        handle.seek (handle.position + handle.clamp count handle.position))) [] := by
  have hclamp : handle.clamp count handle.position ≤ handle.length - handle.position :=
    Nat.min_le_right _ _
  rw [Handle.read_eq]
  refine (h.readAt_performs hword _ _).step ?_
  rw [Handle.size_extract_clamp, Handle.advance_eq_ok hposition hclamp]
  exact (Performs.pure _).step (Performs.pure _)

end Node.Laid

/-- A read of an intact file returns the bytes from its position on, up to the end of the file. -/
theorem Handle.readAt_performs {image : Image} {sectors : Nat} {handle : Handle}
    (h : image.Intact sectors handle.sector handle.node) (hword : sectors ≤ 2 ^ 32)
    (position count : Nat) :
    Performs (handle.readAt position count) image sectors
      (.ok ((image.content handle.sector).extract position
        (position + handle.clamp count position))) [] := by
  rw [h.content_eq]
  exact h.laid.readAt_performs (h.leaf_word hword) position count

/-! ## What a write puts on the data sectors -/

namespace Image

/-- The writes put the bytes of `data`, which belong at `position`, over the `length` bytes from
`start` on that the data sectors hold one after the other. The first of them do so sector by
sector, and each goes to a sector that holds one of these bytes. -/
structure Patches (image : Image) (leaves : List Nat) (start length position : Nat)
    (data : ByteArray) (writes : List Write) : Prop where
  length_eq : writes.length = (Chunk.cut start length).length
  touches : ∀ write ∈ writes, ∃ offset, start ≤ offset ∧ offset < start + length ∧
    leaves[offset / sectorSize]? = some write.1
  byteIn_eq : ∀ count, ∀ offset < leaves.length * sectorSize,
    (image.putAll (writes.take count)).byteIn leaves offset =
      if start ≤ offset ∧ offset < start + length ∧
          offset / sectorSize < start / sectorSize + count then
        byteAt data (offset - position)
      else image.byteIn leaves offset

/-- What the data sectors hold after one of them was written. -/
theorem byteIn_put {image : Image} {leaves : List Nat} (hnodup : leaves.Nodup) {index leaf : Nat}
    (hleaf : leaves[index]? = some leaf) (content : Sector) {offset : Nat}
    (hoffset : offset / sectorSize < leaves.length) :
    (image.put (leaf, content)).byteIn leaves offset =
      if offset / sectorSize = index then byteAt content.bytes (offset % sectorSize)
      else image.byteIn leaves offset := by
  have hhere := List.getElem?_eq_getElem hoffset
  rw [byteIn, byteIn, hhere, Option.getD_some]
  split
  · rename_i hindex
    subst hindex
    rw [Option.some.inj (hhere.symm.trans hleaf), put_self]
  · rename_i hindex
    rw [put_of_ne]
    rintro hsame
    obtain ⟨hlt, hvalue⟩ := List.getElem?_eq_some_iff.mp hleaf
    exact hindex ((hnodup.getElem_inj_iff).mp (hsame.trans hvalue.symm))

namespace Patches

variable {image : Image} {leaves : List Nat} {start length position : Nat} {data : ByteArray}
  {writes : List Write}

theorem nil (image : Image) (leaves : List Nat) (start position : Nat) (data : ByteArray) :
    image.Patches leaves start 0 position data [] where
  length_eq := by rw [Chunk.cut_zero]; rfl
  touches _ hwrite := nomatch hwrite
  byteIn_eq count offset _ := by
    rw [List.take_nil, putAll_nil, if_neg (by omega)]

/-- The rest of a transfer goes on where its first chunk ended. -/
theorem cons {leaf : Nat} {content : Sector} (hnodup : leaves.Nodup) (hposition : position ≤ start)
    (hpos : 0 < length) (hleaf : leaves[start / sectorSize]? = some leaf)
    (hcontent : ∀ place < sectorSize, byteAt content.bytes place =
      if start % sectorSize ≤ place ∧
          place < start % sectorSize + min (sectorSize - start % sectorSize) length then
        byteAt data (start - position + (place - start % sectorSize))
      else byteAt (image leaf).bytes place)
    (hrest : (image.put (leaf, content)).Patches leaves
      (start + min (sectorSize - start % sectorSize) length)
      (length - min (sectorSize - start % sectorSize) length) position data writes) :
    image.Patches leaves start length position data ((leaf, content) :: writes) := by
  constructor
  case length_eq =>
    rw [List.length_cons, hrest.length_eq, Chunk.cut_of_pos start hpos, List.length_cons]
  case touches =>
    intro write hwrite
    rcases List.mem_cons.mp hwrite with rfl | htail
    · exact ⟨start, Nat.le_refl start, by omega, hleaf⟩
    · obtain ⟨offset, hstart, hstop, hoffset⟩ := hrest.touches write htail
      exact ⟨offset, by omega, by omega, hoffset⟩
  case byteIn_eq =>
    intro count offset hoffset
    cases count with
    | zero =>
      have hbefore : ¬ (start ≤ offset ∧ offset < start + length ∧
          offset / sectorSize < start / sectorSize + 0) := by
        rintro ⟨hle, -, hlt⟩
        have := Nat.div_le_div_right (c := sectorSize) hle
        omega
      rw [List.take_zero, putAll_nil, if_neg hbefore]
    | succ count =>
      have hplace : offset / sectorSize < leaves.length :=
        Nat.div_lt_of_lt_mul (by rwa [Nat.mul_comm])
      have hold : offset / sectorSize = start / sectorSize →
          byteAt (image leaf).bytes (offset % sectorSize) = image.byteIn leaves offset := by
        intro hfirst
        rw [byteIn, hfirst, hleaf, Option.getD_some]
      rw [List.take_succ_cons, putAll_cons, hrest.byteIn_eq count offset hoffset,
        byteIn_put hnodup hleaf content hplace, hcontent _ (Nat.mod_lt _ (by decide))]
      simp only [sectorSize] at *
      by_cases hwithin : start ≤ offset ∧ offset < start + length ∧
          offset / 128 < start / 128 + (count + 1)
      · rw [if_pos hwithin]
        by_cases hfirst : offset / 128 = start / 128
        · rw [if_neg (by omega), if_pos hfirst, if_pos (by omega)]
          exact congrArg (byteAt data) (by omega)
        · rw [if_pos (by omega)]
      · rw [if_neg hwithin, if_neg (by omega)]
        split
        · rename_i hfirst
          rw [if_neg (by omega), hold hfirst]
        · rfl

theorem mem_leaves (h : image.Patches leaves start length position data writes) :
    ∀ write ∈ writes, write.1 ∈ leaves := by
  intro write hwrite
  obtain ⟨offset, -, -, hoffset⟩ := h.touches write hwrite
  exact List.mem_of_getElem? hoffset

end Patches

/-- On the data sectors, `count` bytes of `data` lie over those from `position` on, and all other
bytes are as they were. Sectors without one of these bytes have not changed. -/
structure Overlays (image changed : Image) (leaves : List Nat) (position count : Nat)
    (data : ByteArray) : Prop where
  kept : ∀ sector, (∀ offset, position ≤ offset → offset < position + count →
    leaves[offset / sectorSize]? ≠ some sector) → changed sector = image sector
  byteIn_eq : ∀ offset < leaves.length * sectorSize, changed.byteIn leaves offset =
    if position ≤ offset ∧ offset < position + count then byteAt data (offset - position)
    else image.byteIn leaves offset

namespace Overlays

variable {image changed : Image} {leaves : List Nat} {position length count : Nat}
  {data : ByteArray} {writes : List Write}

/-- A data sector without one of the bytes has the bytes that it had. -/
theorem of_byteIn (houtside : ∀ sector ∉ leaves, changed sector = image sector)
    (hbytes : ∀ offset < leaves.length * sectorSize, changed.byteIn leaves offset =
      if position ≤ offset ∧ offset < position + count then byteAt data (offset - position)
      else image.byteIn leaves offset) :
    image.Overlays changed leaves position count data := by
  refine ⟨fun sector hsector ↦ ?_, hbytes⟩
  by_cases hmem : sector ∈ leaves
  · obtain ⟨index, hindex⟩ := List.mem_iff_getElem?.mp hmem
    have hlt : index < leaves.length := (List.getElem?_eq_some_iff.mp hindex).1
    apply Vector.ext
    intro place hplace
    have hoffset : sectorSize * index + place < leaves.length * sectorSize := by
      simp only [sectorSize] at *
      omega
    have hdiv : (sectorSize * index + place) / sectorSize = index := by
      simp only [sectorSize] at *
      omega
    have hmod : (sectorSize * index + place) % sectorSize = place := by
      simp only [sectorSize] at *
      omega
    have hbyte := hbytes _ hoffset
    rw [if_neg fun hwithin ↦ hsector _ hwithin.1 hwithin.2 (by rw [hdiv, hindex]), byteIn, byteIn,
      hdiv, hmod, hindex, Option.getD_some, Disk.byteAt_bytes _ hplace,
      Disk.byteAt_bytes _ hplace] at hbyte
    exact hbyte
  · exact houtside sector hmem

/-- What the data sectors hold once all is written. -/
theorem of_patches (h : image.Patches leaves position length position data writes) :
    image.Overlays (image.putAll writes) leaves position length data := by
  refine of_byteIn (fun sector hsector ↦ putAll_of_not_mem _ fun hmem ↦ ?_) fun offset hoffset ↦ ?_
  · obtain ⟨write, hwrite, rfl⟩ := List.mem_map.mp hmem
    exact hsector (h.mem_leaves write hwrite)
  · have hbyte := h.byteIn_eq writes.length offset hoffset
    rw [List.take_length, h.length_eq] at hbyte
    simp only [Chunk.within_cut_iff] at hbyte
    exact hbyte

/-- While a write is missing, fewer bytes lie on the data sectors, up to the end of a sector. -/
theorem exists_of_patches (h : image.Patches leaves position length position data writes)
    (hcount : count < writes.length) :
    ∃ done < length, (done = 0 ∨ sectorSize ∣ position + done) ∧
      image.Overlays (image.putAll (writes.take count)) leaves position done data := by
  have houtside : ∀ sector ∉ leaves, image.putAll (writes.take count) sector = image sector := by
    refine fun sector hsector ↦ putAll_of_not_mem _ fun hmem ↦ ?_
    obtain ⟨write, hwrite, rfl⟩ := List.mem_map.mp hmem
    exact hsector (h.mem_leaves write (List.mem_of_mem_take hwrite))
  rw [h.length_eq] at hcount
  cases count with
  | zero =>
    have hpos : 0 < length := by
      by_contra hzero
      rw [Nat.eq_zero_of_not_pos hzero, Chunk.cut_zero] at hcount
      exact absurd hcount (Nat.not_lt_zero _)
    refine ⟨0, hpos, .inl rfl, of_byteIn houtside fun offset hoffset ↦ ?_⟩
    rw [List.take_zero, putAll_nil, if_neg (by omega)]
  | succ count =>
    have hbefore := Chunk.lt_of_lt_length_cut hcount
    have hreached : position ≤ (position / sectorSize + (count + 1)) * sectorSize := by
      simp only [sectorSize]
      omega
    refine ⟨(position / sectorSize + (count + 1)) * sectorSize - position, by omega, .inr ?_,
      of_byteIn houtside fun offset hoffset ↦ ?_⟩
    · rw [Nat.add_sub_cancel' hreached]
      exact Nat.dvd_mul_left _ _
    · rw [h.byteIn_eq _ offset hoffset, Nat.add_sub_cancel' hreached]
      refine if_congr ⟨fun hwithin ↦ ⟨hwithin.1, ?_⟩, fun hwithin ↦ ⟨hwithin.1, ?_⟩⟩ rfl rfl
      · exact (Nat.div_lt_iff_lt_mul (by decide)).mp hwithin.2.2
      · exact ⟨hwithin.2.trans hbefore, (Nat.div_lt_iff_lt_mul (by decide)).mpr hwithin.2⟩

/-- Only the bytes that lie on the data sectors matter. -/
theorem extract (h : image.Overlays changed leaves position count data) :
    image.Overlays changed leaves position count (data.extract 0 count) := by
  refine ⟨h.kept, fun offset hoffset ↦ ?_⟩
  rw [h.byteIn_eq offset hoffset]
  refine ite_congr rfl (fun hwithin ↦ ?_) fun _ ↦ rfl
  rw [byteAt_extract, if_pos (by omega), Nat.zero_add]

end Overlays

end Image

/-! ## Writing -/

namespace Node.Laid

variable {image : Image} {sectors : Nat} {handle : Handle}

/-- A chunk is written over the bytes at its place and over no others. -/
theorem writeChunk_delivers {start count leaf : Nat} (data : ByteArray) (origin : Nat)
    (h : handle.node.Laid image sectors) (hword : ∀ leaf ∈ handle.node.data image, leaf < 2 ^ 57)
    (hpos : 0 < count) (horigin : start % sectorSize + count ≤ sectorSize)
    (hend : start + count ≤ handle.length)
    (hleaf : (handle.node.data image)[start / sectorSize]? = some leaf) :
    ∃ content : Sector, Delivers (handle.writeChunk ⟨start, count⟩ data origin) image sectors
        (.ok ()) [(leaf, content)] ∧
      ∀ place < sectorSize, byteAt content.bytes place =
        if start % sectorSize ≤ place ∧ place < start % sectorSize + count then
          byteAt data (origin + (place - start % sectorSize))
        else byteAt (image leaf).bytes place := by
  obtain ⟨found, hmem, hfound, hlocate⟩ := h.locate_chunk (by omega : start < _)
  obtain rfl : found = leaf := Option.some.inj (hfound.symm.trans hleaf)
  have hlt := h.data_lt hmem
  have haddress := hword found hmem
  by_cases hwhole : count = sectorSize
  · refine ⟨Sector.blank.splice (start % sectorSize) count data origin, ?_, fun place hplace ↦ ?_⟩
    · refine .step hlocate ?_ (List.cons_ne_nil _ _)
      simp only [Chunk.isWhole, hwhole, beq_self_eq_true, if_true]
      exact .step (Performs.pure _) (.writeSector _ hlt haddress) (List.cons_ne_nil _ _)
    · have hall : start % sectorSize ≤ place ∧ place < start % sectorSize + count := by omega
      rw [Sector.byteAt_splice _ _ _ _ _ hplace, if_pos hall, if_pos hall]
  · refine ⟨(image found).splice (start % sectorSize) count data origin, ?_, fun place hplace ↦
      Sector.byteAt_splice _ _ _ _ _ hplace⟩
    refine .step hlocate ?_ (List.cons_ne_nil _ _)
    simp only [Chunk.isWhole, beq_eq_false_iff_ne.mpr hwhole, Bool.false_eq_true, if_false]
    exact .step (Performs.readSector hlt haddress) (.writeSector _ hlt haddress)
      (List.cons_ne_nil _ _)

/-- The chunks of a transfer are written one after the other. -/
theorem writeChunks_delivers {start length position : Nat} {data : ByteArray}
    (h : handle.node.Laid image sectors) (hword : ∀ leaf ∈ handle.node.data image, leaf < 2 ^ 57)
    (hposition : position ≤ start) (hend : start + length ≤ handle.length) :
    ∃ writes, Delivers ((Chunk.cut start length).forM fun chunk ↦
        handle.writeChunk chunk data (chunk.start - position)) image sectors (.ok ()) writes ∧
      image.Patches (handle.node.data image) start length position data writes := by
  induction length using Nat.strong_induction_on generalizing start image with
  | _ length ih =>
    cases Nat.eq_zero_or_pos length with
    | inl hzero =>
      subst hzero
      rw [Chunk.cut_zero]
      exact ⟨[], .pure (), .nil _ _ _ _ _⟩
    | inr hpos =>
      have hrest : start % sectorSize < sectorSize := Nat.mod_lt _ (by decide)
      obtain ⟨leaf, hmem, hleaf⟩ := h.exists_leaf (by rw [← Handle.length]; omega : start < _)
      obtain ⟨content, hwrite, hcontent⟩ := h.writeChunk_delivers data (start - position) hword
        (by omega : 0 < min (sectorSize - start % sectorSize) length) (by omega) (by omega) hleaf
      -- A data sector is written, so the nodes that lead to the rest are still there.
      have hinner : ∀ member ∈ handle.node.inner image handle.node.height handle.node.length.toNat,
          image.put (leaf, content) member = image member :=
        fun member hmember ↦ Image.put_of_ne _ fun heq : member = leaf ↦
          h.not_mem_inner hmem (heq ▸ hmember)
      have hdata := Node.data_congr hinner
      obtain ⟨writes, hrun, hpatches⟩ := ih
        (length - min (sectorSize - start % sectorSize) length) (by omega) (h.congr hinner)
        (by rwa [hdata]) (by omega : position ≤ start + min (sectorSize - start % sectorSize) length)
        (by omega)
      rw [hdata] at hpatches
      refine ⟨(leaf, content) :: writes, ?_,
        .cons h.nodup_data hposition hpos hleaf hcontent hpatches⟩
      rw [Chunk.cut_of_pos _ hpos]
      exact hwrite.bind hrun

/-- A write replaces the bytes from its position on, up to the end of the file, and asks for nothing
after them. -/
theorem writeAt_delivers (h : handle.node.Laid image sectors)
    (hword : ∀ leaf ∈ handle.node.data image, leaf < 2 ^ 57) (position : Nat) (data : ByteArray) :
    ∃ writes, Delivers (handle.writeAt position data) image sectors
        (.ok (handle.clamp data.size position)) writes ∧
      image.Patches (handle.node.data image) position (handle.clamp data.size position) position
        data writes := by
  by_cases hpast : handle.clamp data.size position = 0
  · refine ⟨[], ?_, hpast ▸ .nil _ _ _ _ _⟩
    rw [Handle.writeAt, hpast, Chunk.cut_zero]
    exact (Delivers.pure ()).bind (.pure 0)
  · have hend : position + handle.clamp data.size position ≤ handle.length := by
      rw [Handle.clamp] at *
      omega
    obtain ⟨writes, hrun, hpatches⟩ := h.writeChunks_delivers hword (Nat.le_refl position) hend
    exact ⟨writes, hrun.map fun _ ↦ handle.clamp data.size position, hpatches⟩

/-- A sequential write moves the position past the bytes that it writes. -/
theorem write_delivers (h : handle.node.Laid image sectors)
    (hword : ∀ leaf ∈ handle.node.data image, leaf < 2 ^ 57)
    (hposition : handle.position < Checked.wordLimit) (data : ByteArray) :
    ∃ writes, Delivers (handle.write data) image sectors
        (.ok (handle.clamp data.size handle.position,
          handle.seek (handle.position + handle.clamp data.size handle.position))) writes ∧
      image.Patches (handle.node.data image) handle.position
        (handle.clamp data.size handle.position) handle.position data writes := by
  have hclamp : handle.clamp data.size handle.position ≤ handle.length - handle.position :=
    Nat.min_le_right _ _
  obtain ⟨writes, hrun, hpatches⟩ := h.writeAt_delivers hword handle.position data
  refine ⟨writes, ?_, hpatches⟩
  rw [Handle.write_eq, ← List.append_nil writes]
  refine hrun.bind ?_
  rw [Handle.advance_eq_ok hposition hclamp]
  exact (Delivers.pure _).bind (.pure _)

theorem writeAt_performs (h : handle.node.Laid image sectors)
    (hword : ∀ leaf ∈ handle.node.data image, leaf < 2 ^ 57) (position : Nat) (data : ByteArray) :
    ∃ writes, Performs (handle.writeAt position data) image sectors
        (.ok (handle.clamp data.size position)) writes ∧
      image.Patches (handle.node.data image) position (handle.clamp data.size position) position
        data writes := by
  obtain ⟨writes, hrun, hpatches⟩ := h.writeAt_delivers hword position data
  exact ⟨writes, hrun.performs, hpatches⟩

theorem write_performs (h : handle.node.Laid image sectors)
    (hword : ∀ leaf ∈ handle.node.data image, leaf < 2 ^ 57)
    (hposition : handle.position < Checked.wordLimit) (data : ByteArray) :
    ∃ writes, Performs (handle.write data) image sectors
        (.ok (handle.clamp data.size handle.position,
          handle.seek (handle.position + handle.clamp data.size handle.position))) writes ∧
      image.Patches (handle.node.data image) handle.position
        (handle.clamp data.size handle.position) handle.position data writes := by
  obtain ⟨writes, hrun, hpatches⟩ := h.write_delivers hword hposition data
  exact ⟨writes, hrun.performs, hpatches⟩

/-- The content of the file after its data sectors have changed. -/
theorem content_overlaid {root : Node} {position : Nat} {data : ByteArray} {changed : Image}
    (h : root.Laid image sectors)
    (hoverlays : image.Overlays changed (root.data image) position
      (min data.size (root.length.toNat - position)) data) :
    root.content changed = overwrite (root.content image) position data := by
  have hdata : root.data changed = root.data image := by
    refine Node.data_congr fun member hmember ↦ hoverlays.kept member fun offset _ _ hoffset ↦ ?_
    exact h.not_mem_inner (List.mem_of_getElem? hoffset) hmember
  apply eq_of_byteAt
  · rw [size_overwrite, Node.size_content, Node.size_content]
  · intro offset hoffset
    rw [Node.size_content] at hoffset
    rw [Node.byteAt_content hoffset, hdata,
      hoverlays.byteIn_eq offset (Nat.lt_of_lt_of_le hoffset h.le_length_data),
      byteAt_overwrite _ _ _ (by rw [Node.size_content]; exact hoffset), Node.byteAt_content hoffset]
    by_cases hwithin : position ≤ offset ∧ offset < position + data.size
    · rw [if_pos hwithin, if_pos (by omega)]
    · rw [if_neg hwithin, if_neg (by omega)]

end Node.Laid

/-! ## Writing an intact file -/

namespace Image

/-- The first of the writes put the bytes of `data`, which belong at `position`, over the `length`
bytes of a file from `start` on, sector by sector. -/
structure Splices (image : Image) (sector start length position : Nat) (data : ByteArray)
    (writes : List Write) : Prop where
  length_eq : writes.length = (Chunk.cut start length).length
  mem_leaves : ∀ write ∈ writes, write.1 ∈ image.leaves sector
  byteIn_eq : ∀ count, ∀ offset < image.size sector,
    (image.putAll (writes.take count)).byteIn (image.leaves sector) offset =
      if start ≤ offset ∧ offset < start + length ∧
          offset / sectorSize < start / sectorSize + count then
        byteAt data (offset - position)
      else image.byteIn (image.leaves sector) offset

namespace Splices

variable {image : Image} {sectors sector start length position : Nat} {node : Node}
  {data : ByteArray} {writes : List Write}

theorem of_patches (hintact : image.Intact sectors sector node)
    (h : image.Patches (node.data image) start length position data writes) :
    image.Splices sector start length position data writes := by
  have hroom := hintact.laid.le_length_data
  rw [← hintact.leaves_eq] at h hroom
  rw [← hintact.size_eq] at hroom
  exact ⟨h.length_eq, h.mem_leaves,
    fun count offset hoffset ↦ h.byteIn_eq count offset (Nat.lt_of_lt_of_le hoffset hroom)⟩

/-- At every point of the transfer only data sectors of the file have changed. -/
theorem kept (h : image.Splices sector start length position data writes) (count : Nat)
    {member : Nat} (hmember : member ∉ image.leaves sector) :
    image.putAll (writes.take count) member = image member := by
  refine putAll_of_not_mem _ fun hmem ↦ hmember ?_
  obtain ⟨write, hwrite, rfl⟩ := List.mem_map.mp hmem
  exact h.mem_leaves write (List.mem_of_mem_take hwrite)

theorem spine_kept (h : image.Splices sector start length position data writes)
    (hintact : image.Intact sectors sector node) (count : Nat) :
    ∀ member ∈ image.spine sector, image.putAll (writes.take count) member = image member :=
  fun _ hmember ↦ h.kept count fun hleaf ↦ hintact.not_mem_spine hleaf hmember

/-- The content of the file after the first of the writes. -/
theorem byteAt_content (h : image.Splices sector start length position data writes)
    (hintact : image.Intact sectors sector node) (count : Nat) {offset : Nat}
    (hoffset : offset < image.size sector) :
    byteAt ((image.putAll (writes.take count)).content sector) offset =
      if start ≤ offset ∧ offset < start + length ∧
          offset / sectorSize < start / sectorSize + count then
        byteAt data (offset - position)
      else byteAt (image.content sector) offset := by
  have hspine := h.spine_kept hintact count
  rw [Image.byteAt_content (by rw [size_congr hspine]; exact hoffset),
    Image.byteAt_content hoffset, leaves_congr hspine, h.byteIn_eq count offset hoffset]

/-- A file that a transfer was written to has the new bytes at their places. -/
theorem byteAt_written (h : image.Splices sector start length position data writes)
    (hintact : image.Intact sectors sector node) {offset : Nat}
    (hoffset : offset < image.size sector) :
    byteAt ((image.putAll writes).content sector) offset =
      if start ≤ offset ∧ offset < start + length then byteAt data (offset - position)
      else byteAt (image.content sector) offset := by
  have hbyte := h.byteAt_content hintact writes.length hoffset
  rw [List.take_length, h.length_eq] at hbyte
  simp only [Chunk.within_cut_iff] at hbyte
  exact hbyte

end Splices

end Image

/-- A write to an intact file replaces the bytes from its position on, up to the end of the file. -/
theorem Handle.writeAt_performs {image : Image} {sectors : Nat} {handle : Handle}
    (h : image.Intact sectors handle.sector handle.node) (hword : sectors ≤ 2 ^ 32)
    (position : Nat) (data : ByteArray) :
    ∃ writes, Performs (handle.writeAt position data) image sectors
        (.ok (handle.clamp data.size position)) writes ∧
      image.Splices handle.sector position (handle.clamp data.size position) position data
        writes := by
  obtain ⟨writes, hrun, hpatches⟩ := h.laid.writeAt_performs (h.leaf_word hword) position data
  exact ⟨writes, hrun, .of_patches h hpatches⟩

end SectorFS
