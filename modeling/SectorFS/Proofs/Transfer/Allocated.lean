import SectorFS.Proofs.Index.Allocated
import SectorFS.Proofs.Quiet
import SectorFS.Proofs.Transfer

/-!
# Transfers on allocated trees

A file is there as soon as its tree was allocated: a handle on the root reads and writes its bytes
on every disk that still has the nodes, wherever the root is stored and whether or not a volume
knows of it. A write changes the bytes that were asked for, up to the end of the file, and nothing
else on the medium; a read fills as much of the buffer and changes nothing at all.
-/

namespace SectorFS

open SectorFS.Geometry

/-- A write through the root has put its bytes over those of the file. The bytes past the end of the
file in its last sector and all sectors without a byte that was to be written are as before. -/
structure Node.Rewritten (root : Node) (position : Nat) (data : ByteArray)
    (before after : Disk) : Prop where
  content_eq : root.content after.sector = overwrite (root.content before.sector) position data
  past_end : ∀ offset, root.length.toNat ≤ offset →
    offset < (root.data before.sector).length * sectorSize →
      Image.byteIn after.sector (root.data before.sector) offset =
        Image.byteIn before.sector (root.data before.sector) offset
  kept : ∀ sector, (∀ offset, position ≤ offset →
      offset < position + min data.size (root.length.toNat - position) →
        (root.data before.sector)[offset / sectorSize]? ≠ some sector) →
    after.sector sector = before.sector sector
  size_eq : after.medium.size = before.medium.size

namespace Node.Laid

/-- Where the bytes of `data` lie on the data sectors, the file was rewritten. -/
theorem rewritten {root : Node} {before after : Disk} {sectors position : Nat} {data : ByteArray}
    (h : root.Laid before.sector sectors)
    (hoverlays : Image.Overlays before.sector after.sector (root.data before.sector) position
      (min data.size (root.length.toNat - position)) data)
    (hsize : after.medium.size = before.medium.size) :
    root.Rewritten position data before after where
  content_eq := h.content_overlaid hoverlays
  past_end offset hend hoffset := by
    rw [hoverlays.byteIn_eq offset hoffset, if_neg]
    omega
  kept := hoverlays.kept
  size_eq := hsize

variable {drive : Drive} (hfaults : drive.disk.faults = .none)
  (hmedium : drive.disk.sectorCount * sectorSize ≤ drive.disk.medium.size)

include hfaults hmedium

/-- What was written to the data sectors, and to no others, is all that has changed. -/
theorem exists_rewritten {α : Type} {root : Node}
    (h : root.Laid drive.disk.sector drive.disk.sectorCount) {action : Action α} {value : α}
    {position : Nat} {data : ByteArray} {writes : List Write}
    (hrun : Performs action drive.disk.sector drive.disk.sectorCount (.ok value) writes)
    (hpatches : Image.Patches drive.disk.sector (root.data drive.disk.sector) position
      (min data.size (root.length.toNat - position)) position data writes) :
    ∃ final, action drive = .ok value final ∧ root.Rewritten position data drive.disk final.disk := by
  obtain ⟨final, hfinal, hholds, -, hsize⟩ := hrun.logged ⟨rfl, hmedium, rfl⟩ hfaults
    fun write hwrite ↦ h.data_lt (hpatches.mem_leaves write hwrite)
  refine ⟨final, hfinal, h.rewritten ?_ hsize⟩
  rw [hholds.sector_eq]
  exact .of_patches hpatches

end Node.Laid

namespace Node.Allocated

variable {size : Nat} {before after : Space} {root : Node} {later : Drive}

/-- The nodes are later what the allocation wrote. -/
theorem inner_eq (h : Allocated size before root after)
    (hlater : later.Serves after.drive.disk.sector root) :
    ∀ member ∈ root.inner after.drive.disk.sector root.height root.length.toNat,
      later.disk.sector member = after.drive.disk.sector member := by
  intro member hmember
  rw [h.length_eq] at hmember
  exact (hlater.shows member (h.formed.mem_inner_iff.mp hmember)).sector_eq

/-- An allocated tree is laid out on every disk that serves it and has its data sectors. -/
theorem laid (h : Allocated size before root after)
    (hlater : later.Serves after.drive.disk.sector root)
    (hdata : ∀ leaf ∈ root.data after.drive.disk.sector, leaf < later.disk.sectorCount) :
    root.Laid later.disk.sector later.disk.sectorCount := by
  refine (?_ : root.Laid after.drive.disk.sector _).congr (h.inner_eq hlater)
  constructor
  case size_le =>
    rw [h.length_eq]
    exact h.size_le
  case formed =>
    rw [h.length_eq]
    exact h.formed
  case nodup =>
    rw [h.length_eq]
    exact h.nodup
  case lt =>
    intro member hmember
    rcases mem_below_iff.mp hmember with hinner | hleaf
    · rw [h.length_eq] at hinner
      exact (hlater.shows member (h.formed.mem_inner_iff.mp hinner)).lt
    · exact hdata member hleaf

/-- The data sectors are ones of the map, so their numbers are short enough for any access. -/
theorem data_lt_word (h : Allocated size before root after)
    (hlater : later.Serves after.drive.disk.sector root) (hword : before.map.sectors ≤ 2 ^ 32) :
    ∀ leaf ∈ root.data later.disk.sector, leaf < 2 ^ 57 := by
  intro leaf hleaf
  rw [Node.data_congr (h.inner_eq hlater), h.data_eq] at hleaf
  have hlt := h.lt_sectors (Node.mem_below_iff.mpr (.inr hleaf))
  omega

end Node.Allocated

namespace Handle

/-- What the transfers through a handle answer and do on a drive, for a file of the given size. -/
structure Transfers (handle : Handle) (size : Nat) (drive : Drive) : Prop where
  size_content : (handle.node.content drive.disk.sector).size = size
  writeAt : ∀ position data, ∃ final,
    handle.writeAt position data drive = .ok (min data.size (size - position)) final ∧
      handle.node.Rewritten position data drive.disk final.disk
  readInto : ∀ position buffer, ∃ final,
    handle.readInto position buffer drive = .ok (min buffer.size (size - position),
      (handle.node.content drive.disk.sector).extract position
          (position + min buffer.size (size - position)) ++
        buffer.extract (min buffer.size (size - position)) buffer.size) final ∧
      drive.disk.Alike final.disk
  write : handle.position < Checked.wordLimit → ∀ data, ∃ final,
    handle.write data drive = .ok (min data.size (size - handle.position),
      handle.seek (handle.position + min data.size (size - handle.position))) final ∧
      handle.node.Rewritten handle.position data drive.disk final.disk
  read : handle.position < Checked.wordLimit → ∀ count, ∃ final,
    handle.read count drive = .ok ((handle.node.content drive.disk.sector).extract handle.position
        (handle.position + min count (size - handle.position)),
      handle.seek (handle.position + min count (size - handle.position))) final ∧
      drive.disk.Alike final.disk

/-- A handle on the root of an allocated tree reads and writes the bytes that it is asked for, up to
the end of the file, on every disk that still has the nodes and that has the data sectors. -/
theorem transfers_exactly {size : Nat} {drive later : Drive} {map : FreeMap} {after : Space}
    {root : Node} {handle : Handle} (hclean : map.Clean) (hword : map.sectors ≤ 2 ^ 32)
    (hallocate : Node.allocate size ⟨drive, map⟩ = .ok root after) (hroot : handle.node = root)
    (hlater : later.Serves after.drive.disk.sector root)
    (hdata : ∀ leaf ∈ root.data after.drive.disk.sector, leaf < later.disk.sectorCount)
    (hmedium : later.disk.sectorCount * sectorSize ≤ later.disk.medium.size) :
    handle.Transfers size later := by
  subst hroot
  have htree := Node.allocated_of_ok hclean hword hallocate
  have hlaid := htree.laid hlater hdata
  have hdrive : later.disk.Holds later.disk.sector later.disk.sectorCount := ⟨rfl, hmedium, rfl⟩
  have hlength : handle.length = size := htree.length_eq
  have haddress := htree.data_lt_word hlater hword
  have hclamp (requested position : Nat) :
      handle.clamp requested position = min requested (size - position) := by
    rw [clamp, hlength]
  constructor
  case size_content =>
    rw [Node.size_content, ← length, hlength]
  case writeAt =>
    intro position data
    obtain ⟨writes, hrun, hpatches⟩ := hlaid.writeAt_performs haddress position data
    rw [← hclamp]
    exact hlaid.exists_rewritten hlater.faults_eq hmedium hrun hpatches
  case readInto =>
    intro position buffer
    have hrun := hlaid.readInto_performs haddress position buffer
    rw [hclamp] at hrun
    exact hrun.alike hdrive hlater.faults_eq
  case write =>
    intro hposition data
    obtain ⟨writes, hrun, hpatches⟩ := hlaid.write_performs haddress hposition data
    rw [← hclamp]
    exact hlaid.exists_rewritten hlater.faults_eq hmedium hrun hpatches
  case read =>
    intro hposition count
    have hrun := hlaid.read_performs haddress hposition count
    rw [hclamp] at hrun
    exact hrun.alike hdrive hlater.faults_eq

/-- The handle at the end of a file around a taken sector writes the `13` bytes that fit. -/
theorem transfers_exactly_around_taken :
    ∃ root after final, Node.allocate 3713
        ⟨⟨⟨⟨zeroBytes 8192⟩, 64, .none, .none, #[]⟩, #[]⟩, (FreeMap.blank 64).mark 1⟩ =
          .ok root after ∧
      (⟨1, root, 3700⟩ : Handle).write ⟨.replicate 20 7⟩
        ⟨after.drive.disk.setFaults .none, #[]⟩ = .ok (13, ⟨1, root, 3713⟩) final ∧
      byteAt (root.content final.disk.sector) 3712 = 7 ∧
      final.disk.medium.size = after.drive.disk.medium.size := by
  have hclean : ((FreeMap.blank 64).mark 1).Clean :=
    (FreeMap.clean_blank 64).markAll (by decide : ∀ sector ∈ [1], sector < 64)
  obtain ⟨root, after, hallocate⟩ := Node.exists_allocate_around_taken
  have htree := Node.allocated_of_ok hclean (by decide) hallocate
  have hcount : after.drive.disk.sectorCount = 64 := htree.sectorCount_eq
  have hsize : 8192 ≤ after.drive.disk.medium.size := (size_zeroBytes 8192).ge.trans htree.le_size
  have hdata : ∀ leaf ∈ root.data after.drive.disk.sector, leaf < after.drive.disk.sectorCount := by
    intro leaf hleaf
    rw [htree.data_eq] at hleaf
    rw [hcount]
    exact htree.lt_sectors (Node.mem_below_iff.mpr (.inr hleaf))
  have hmedium : after.drive.disk.sectorCount * sectorSize ≤ after.drive.disk.medium.size := by
    rw [hcount]
    exact hsize
  have htransfers := @transfers_exactly _ _ _ _ _ root ⟨1, root, 3700⟩ hclean (by decide) hallocate
    rfl (htree.serves #[]) hdata hmedium
  obtain ⟨final, hwrite, hrewritten⟩ := htransfers.write
    (by decide : 3700 < Checked.wordLimit) ⟨.replicate 20 7⟩
  refine ⟨root, after, final, hallocate, hwrite, ?_, hrewritten.size_eq⟩
  rw [hrewritten.content_eq, byteAt_overwrite _ _ _ (by rw [htransfers.size_content]; decide)]
  rfl

end Handle

end SectorFS
