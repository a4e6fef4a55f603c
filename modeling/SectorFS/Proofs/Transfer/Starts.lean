import SectorFS.Proofs.Transfer.Allocated

/-!
# Bytes at the start of a file

A map and a directory are stored in the first bytes of a file that can be longer. On a disk that
refuses nothing and serves the tree of the file (`Node.Ready`), bytes that are written to the start
are read from there again, and the bytes behind them are those that were there. The disk is ready
for the next transfer afterwards. Where the bytes that are written are the ones that were read, no
sector of the disk changes, not even past the end of the file.

Nothing is said of what the bytes mean, and a file without room for them is not considered.
-/

namespace SectorFS

/-! ## Bytes over the first ones -/

theorem byteAt_overwrite_past (bytes : ByteArray) {data : ByteArray} {offset : Nat}
    (h : data.size ≤ offset) : byteAt (overwrite bytes 0 data) offset = byteAt bytes offset := by
  by_cases hoffset : offset < bytes.size
  · rw [byteAt_overwrite _ _ _ hoffset, if_neg (by omega)]
  · rw [byteAt_of_size_le (by rw [size_overwrite]; omega), byteAt_of_size_le (by omega)]

/-- What was put over the first bytes is there. -/
theorem extract_overwrite {bytes data : ByteArray} (h : data.size ≤ bytes.size) :
    (overwrite bytes 0 data).extract 0 data.size = data := by
  have hsize : ((overwrite bytes 0 data).extract 0 data.size).size = data.size := by
    rw [ByteArray.size_extract, size_overwrite]
    omega
  apply eq_of_byteAt hsize
  intro offset hoffset
  rw [hsize] at hoffset
  rw [byteAt_extract, Nat.zero_add, if_pos hoffset, byteAt_overwrite _ _ _ (by omega),
    if_pos (by omega), Nat.sub_zero]

/-- Putting the first bytes where they are changes nothing. -/
theorem overwrite_extract (bytes : ByteArray) (count : Nat) :
    overwrite bytes 0 (bytes.extract 0 count) = bytes := by
  apply eq_of_byteAt (size_overwrite _ _ _)
  intro offset hoffset
  rw [size_overwrite] at hoffset
  rw [byteAt_overwrite _ _ _ hoffset]
  split
  · rename_i hwithin
    rw [ByteArray.size_extract] at hwithin
    rw [Nat.sub_zero, byteAt_extract, Nat.zero_add, if_pos (by omega)]
  · rfl

namespace Node

variable {root : Node} {before after disk other : Disk} {sectors position : Nat} {data : ByteArray}

/-! ## Trees that are written to -/

namespace Rewritten

/-- A write through the root leaves the nodes as they were. -/
theorem inner_eq (h : root.Rewritten position data before after)
    (hlaid : root.Laid before.sector sectors) :
    ∀ member ∈ root.inner before.sector root.height root.length.toNat,
      after.sector member = before.sector member :=
  fun _ hmember ↦ h.kept _ fun _ _ _ hoffset ↦
    hlaid.not_mem_inner (List.mem_of_getElem? hoffset) hmember

theorem laid (h : root.Rewritten position data before after)
    (hlaid : root.Laid before.sector sectors) : root.Laid after.sector sectors :=
  hlaid.congr (h.inner_eq hlaid)

theorem data_eq (h : root.Rewritten position data before after)
    (hlaid : root.Laid before.sector sectors) : root.data after.sector = root.data before.sector :=
  data_congr (h.inner_eq hlaid)

/-- A write that leaves the content as it was leaves all sectors as they were. -/
theorem sector_eq (h : root.Rewritten position data before after)
    (hlaid : root.Laid before.sector sectors)
    (hcontent : root.content after.sector = root.content before.sector) :
    after.sector = before.sector := by
  have hbytes : ∀ offset < (root.data before.sector).length * sectorSize,
      Image.byteIn after.sector (root.data before.sector) offset =
        Image.byteIn before.sector (root.data before.sector) offset := by
    intro offset hoffset
    by_cases hend : offset < root.length.toNat
    · rw [← byteAt_content hend, ← hcontent, byteAt_content hend, h.data_eq hlaid]
    · exact h.past_end offset (Nat.not_lt.mp hend) hoffset
  have houtside : ∀ sector ∉ root.data before.sector, after.sector sector = before.sector sector :=
    fun sector hsector ↦ h.kept sector fun _ _ _ hoffset ↦ hsector (List.mem_of_getElem? hoffset)
  -- No byte was put over another one, so no sector has one that was.
  have hoverlays : Image.Overlays before.sector after.sector (root.data before.sector) 0 0 data :=
    .of_byteIn houtside fun offset hoffset ↦ by
      rw [hbytes offset hoffset, if_neg (by omega)]
  exact funext fun sector ↦ hoverlays.kept sector fun offset _ hoffset ↦
    absurd hoffset (Nat.not_lt_zero offset)

end Rewritten

/-! ## Disks ready for transfers -/

/-- A disk that refuses nothing and has all of its sectors, with a tree laid out below the root. -/
structure Ready (root : Node) (disk : Disk) : Prop where
  faults_eq : disk.faults = .none
  le_size : disk.sectorCount * sectorSize ≤ disk.medium.size
  laid : root.Laid disk.sector disk.sectorCount
  data_lt_word : ∀ leaf ∈ root.data disk.sector, leaf < 2 ^ 57

/-- An allocated tree is ready for transfers on every full disk that serves it. -/
theorem Allocated.ready {size : Nat} {space space' : Space} {later : Drive}
    (h : Allocated size space root space') (hword : space.map.sectors ≤ 2 ^ 32)
    (hlater : later.Serves space'.drive.disk.sector root)
    (hdata : ∀ leaf ∈ root.data space'.drive.disk.sector, leaf < later.disk.sectorCount)
    (hmedium : later.disk.sectorCount * sectorSize ≤ later.disk.medium.size) :
    root.Ready later.disk :=
  ⟨hlater.faults_eq, hmedium, h.laid hlater hdata, h.data_lt_word hlater hword⟩

/-- Around a taken sector of a disk there is an allocated tree, and the disk serves it. -/
theorem exists_served_around_taken :
    ((FreeMap.blank 64).mark 1).Clean ∧ ∃ root after, allocate 3713
        ⟨⟨⟨⟨zeroBytes 8192⟩, 64, .none, .none, #[]⟩, #[]⟩, (FreeMap.blank 64).mark 1⟩ =
          .ok root after ∧
      Drive.Serves ⟨after.drive.disk.setFaults .none, #[]⟩ after.drive.disk.sector root ∧
      (∀ leaf ∈ root.data after.drive.disk.sector, leaf < after.drive.disk.sectorCount) ∧
      after.drive.disk.sectorCount * sectorSize ≤ after.drive.disk.medium.size := by
  have hclean : ((FreeMap.blank 64).mark 1).Clean :=
    (FreeMap.clean_blank 64).markAll (by decide : ∀ sector ∈ [1], sector < 64)
  obtain ⟨root, after, hallocate⟩ := exists_allocate_around_taken
  have htree := allocated_of_ok hclean (by decide) hallocate
  have hcount : after.drive.disk.sectorCount = 64 := htree.sectorCount_eq
  have hsize : 8192 ≤ after.drive.disk.medium.size := (size_zeroBytes 8192).ge.trans htree.le_size
  refine ⟨hclean, root, after, hallocate, htree.serves #[], fun leaf hleaf ↦ ?_, ?_⟩
  · rw [htree.data_eq] at hleaf
    rw [hcount]
    exact htree.lt_sectors (mem_below_iff.mpr (.inr hleaf))
  · rw [hcount]
    exact hsize

namespace Ready

variable {drive : Drive} {handle : Handle}

theorem holds (h : root.Ready disk) : disk.Holds disk.sector disk.sectorCount :=
  ⟨rfl, h.le_size, rfl⟩

/-- Traffic makes no difference. -/
theorem of_alike (h : root.Ready disk) (halike : disk.Alike other) : root.Ready other where
  faults_eq := halike.faults_eq.trans h.faults_eq
  le_size := by
    rw [halike.sectorCount_eq, halike.medium_eq]
    exact h.le_size
  laid := by
    rw [halike.sector_eq, halike.sectorCount_eq]
    exact h.laid
  data_lt_word := by
    rw [halike.sector_eq]
    exact h.data_lt_word

/-- The first bytes of the file are read. -/
theorem readAt_start (h : handle.node.Ready disk) {count : Nat} (hcount : count ≤ handle.length) :
    Performs (handle.readAt 0 count) disk.sector disk.sectorCount
      (.ok ((handle.node.content disk.sector).extract 0 count)) [] := by
  have hclamp : handle.clamp count 0 = count := by
    rw [Handle.clamp, Nat.sub_zero, Nat.min_eq_left hcount]
  have hrun := h.laid.readAt_performs h.data_lt_word 0 count
  rwa [hclamp, Nat.zero_add] at hrun

/-- Bytes are put over the first ones of the file, and the disk is ready again. -/
theorem writeAt_start (h : handle.node.Ready drive.disk) (hdata : data.size ≤ handle.length) :
    ∃ final, handle.writeAt 0 data drive = .ok data.size final ∧
      handle.node.Rewritten 0 data drive.disk final.disk ∧ handle.node.Ready final.disk := by
  have hclamp : handle.clamp data.size 0 = data.size := by
    rw [Handle.clamp, Nat.sub_zero, Nat.min_eq_left hdata]
  obtain ⟨writes, hrun, hpatches⟩ := h.laid.writeAt_performs h.data_lt_word 0 data
  obtain ⟨final, hfinal, hholds, hfaults, hsize⟩ := hrun.completed h.holds h.faults_eq
    fun write hwrite ↦ h.laid.data_lt (hpatches.mem_leaves write hwrite)
  have hrewritten : handle.node.Rewritten 0 data drive.disk final.disk := by
    refine h.laid.rewritten ?_ hsize
    rw [hholds.sector_eq]
    exact .of_patches hpatches
  rw [hclamp] at hfinal
  refine ⟨final, hfinal, hrewritten, hfaults, ?_, ?_, ?_⟩
  · rw [hholds.sectorCount_eq, hsize]
    exact h.le_size
  · rw [hholds.sectorCount_eq]
    exact hrewritten.laid h.laid
  · rw [hrewritten.data_eq h.laid]
    exact h.data_lt_word

end Ready

end Node

end SectorFS
