import SectorFS.Proofs.Index.Charge
import SectorFS.Proofs.Index.Release

/-!
# Allocated trees

An allocation returns the root of a tree, and from then on this root is all that is needed to find
the bytes of the file and to give its sectors back. Both read the nodes that the allocation wrote and
nothing else, so the data sectors may hold anything, and a disk that has lost the rest of its medium
still serves (`Drive.Serves`).

Releasing the root undoes the allocation (`release_undoes`): it takes the sectors that were marked
out of the map and no others. The search takes the offsets of the file to the data sectors, block by
block from left to right (`locate_translates`).

Nothing is asked of the disk on which the tree was allocated: if the allocation came to its end
there, its nodes were written.
-/

namespace SectorFS

/-- The sector was free and is in use now. -/
def Space.Marks (before after : Space) (sector : Nat) : Prop :=
  before.map.isUsed sector = false ∧ after.map.isUsed sector = true

/-- A drive that refuses nothing and has the nodes of a tree as the image has them. -/
structure Drive.Serves (drive : Drive) (image : Image) (root : Node) : Prop where
  faults_eq : drive.disk.faults = .none
  shows : ∀ sector, root.Holds image sector → drive.disk.Shows image sector

namespace Node

open SectorFS.Geometry

variable {size : Nat} {before after : Space} {root : Node}

/-! ## What an allocation leaves -/

/-- The tree below a root was taken out of a space. -/
structure Allocated (size : Nat) (before : Space) (root : Node) (after : Space) : Prop where
  height_eq : heightFor size = some root.height
  formed : root.Formed after.drive.disk.sector root.height size
  below_eq : root.below after.drive.disk.sector root.height size =
    before.map.free.take (sectorNeeds (root.height + 1) size)
  map_eq : after.map =
    before.map.markAll (before.map.free.take (sectorNeeds (root.height + 1) size))
  shows : ∀ sector ∈ root.inner after.drive.disk.sector root.height size,
    after.drive.disk.Shows after.drive.disk.sector sector
  sectorCount_eq : after.drive.disk.sectorCount = before.drive.disk.sectorCount
  le_size : before.drive.disk.medium.size ≤ after.drive.disk.medium.size

/-- An allocation that comes to its end has made a tree, on whatever disk. -/
theorem allocated_of_ok {drive : Drive} {map : FreeMap} (hclean : map.Clean)
    (hword : map.sectors ≤ 2 ^ 32) (h : allocate size ⟨drive, map⟩ = .ok root after) :
    Allocated size ⟨drive, map⟩ root after := by
  by_cases hroom : ∃ height, heightFor size = some height ∧
      sectorNeeds (height + 1) size ≤ map.free.length
  · obtain ⟨height, hheight, hneeds⟩ := hroom
    obtain ⟨node, writes, hallocate⟩ := @allocate_course drive.disk.sectorCount size map height
      hheight hclean hword hneeds
    obtain ⟨hcourse, hbuilt⟩ := hallocate drive.disk.sector
    have hrun : (allocate size).using map drive = .ok (root, after.map) after.drive := by
      rw [InPlace.using, h]
    obtain ⟨hresult, htaken⟩ := hcourse.of_ok rfl (fun _ hmem ↦ False.elim hmem) hrun
    obtain ⟨rfl, hmap⟩ := Prod.mk.inj hresult
    obtain rfl : root.height = height := Fin.ext hbuilt.formed.states.height_eq
    rw [← htaken.sector_eq] at hbuilt
    refine ⟨hheight, hbuilt.formed, hbuilt.below_eq, hmap, fun sector hsector ↦ ?_,
      htaken.sectorCount_eq, htaken.size_le⟩
    obtain ⟨write, hwrite, rfl⟩ := List.mem_map.mp (hbuilt.writes_perm.mem_iff.mpr hsector)
    obtain ⟨hlt, hsize⟩ := htaken.stored write hwrite
    exact ⟨htaken.sectorCount_eq ▸ hlt, hsize, rfl⟩
  · obtain ⟨journal, hrun⟩ := allocate_eq_noSpace hclean (fun height hheight ↦
      Nat.lt_of_not_le fun hneeds ↦ hroom ⟨height, hheight, hneeds⟩) drive
    rw [hrun] at h
    contradiction

namespace Allocated

variable (h : Allocated size before root after)

include h

theorem size_le : size ≤ capacity (root.height + 1) := le_capacity_of_heightFor h.height_eq

theorem length_eq : root.length.toNat = size := h.formed.states.length_eq

theorem lt_sectors {sector : Nat}
    (hsector : sector ∈ root.below after.drive.disk.sector root.height size) :
    sector < before.map.sectors := by
  rw [h.below_eq] at hsector
  exact FreeMap.lt_of_mem_take_free sector hsector

theorem nodup : (root.below after.drive.disk.sector root.height size).Nodup := by
  rw [h.below_eq]
  exact before.map.nodup_free.sublist (List.take_sublist _ _)

/-- The sectors below the root are those that the allocation marked. -/
theorem marks_iff {sector : Nat} : before.Marks after sector ↔
    sector ∈ root.below after.drive.disk.sector root.height size := by
  have hused := @FreeMap.isUsed_markAll before.map
    (before.map.free.take (sectorNeeds (root.height + 1) size)) sector FreeMap.lt_of_mem_take_free
  rw [← h.map_eq, ← h.below_eq] at hused
  constructor
  · rintro ⟨hfree, hmarked⟩
    rw [hused, hfree, Bool.false_or, decide_eq_true_iff] at hmarked
    exact hmarked
  · intro hsector
    refine ⟨?_, by rw [hused, decide_eq_true hsector, Bool.or_true]⟩
    rw [h.below_eq] at hsector
    exact (FreeMap.mem_free.mp (List.mem_of_mem_take hsector)).2

/-- Used afterwards is what was used before and what the allocation marked. -/
theorem isUsed_iff (sector : Nat) : before.map.isUsed sector = true ↔
    after.map.isUsed sector = true ∧ ¬ before.Marks after sector := by
  have hused := @FreeMap.isUsed_markAll before.map
    (before.map.free.take (sectorNeeds (root.height + 1) size)) sector FreeMap.lt_of_mem_take_free
  rw [← h.map_eq] at hused
  constructor
  · intro hbefore
    refine ⟨by rw [hused, hbefore, Bool.true_or], fun hmarks ↦ ?_⟩
    rw [hmarks.1] at hbefore
    contradiction
  · rintro ⟨hafter, hkept⟩
    by_contra hfree
    exact hkept ⟨Bool.eq_false_of_not_eq_true hfree, hafter⟩

/-- The marked sectors that hold no node are the data sectors. -/
theorem mem_leaves_iff {sector : Nat} :
    sector ∈ root.leaves after.drive.disk.sector root.height size ↔
      before.Marks after sector ∧ ¬ root.Holds after.drive.disk.sector sector := by
  rw [h.marks_iff, ← h.formed.mem_inner_iff, mem_below_iff]
  constructor
  · intro hleaf
    exact ⟨.inr hleaf, not_mem_inner_of_mem_leaves h.nodup hleaf⟩
  · rintro ⟨hinner | hleaf, hnode⟩
    · exact absurd hinner hnode
    · exact hleaf

theorem data_eq :
    root.data after.drive.disk.sector = root.leaves after.drive.disk.sector root.height size := by
  rw [data, h.length_eq]

theorem nodup_data : (root.data after.drive.disk.sector).Nodup := by
  rw [h.data_eq]
  exact nodup_leaves h.nodup

theorem length_data : (root.data after.drive.disk.sector).length = pieces size sectorSize := by
  rw [h.data_eq]
  exact h.formed.length_leaves

/-- A disk that has the nodes of a tree has a sector for it, if the tree has any nodes. -/
theorem height_lt {sectors : Nat}
    (hnodes : ∀ sector, root.Holds after.drive.disk.sector sector → sector < sectors) :
    root.height.val < 2 * sectors + 3 := by
  have hheight : root.height.val < 4 := root.height.isLt
  by_cases hpos : 0 < root.height.val
  · have hlarge : capacity 1 < size := capacity_lt_of_heightFor h.height_eq hpos
    have hused : 0 < slotsUsed root.length.toNat root.level := by
      rw [level, lt_slotsUsed_iff, h.length_eq]
      omega
    have hfirst := hnodes _ ⟨root, 0, .root, Nat.succ_lt_succ hpos, hused, rfl⟩
    omega
  · omega

end Allocated

/-! ## Giving the sectors back -/

/-- The disk on which a tree was allocated serves it once it refuses nothing. -/
theorem Allocated.serves (h : Allocated size before root after) (journal : Array Record) :
    Drive.Serves ⟨after.drive.disk.setFaults .none, journal⟩ after.drive.disk.sector root where
  faults_eq := rfl
  shows sector hsector :=
    have hshows := h.shows sector (h.formed.mem_inner_iff.mpr hsector)
    ⟨hshows.lt, hshows.le_size, hshows.sector_eq⟩

/-- Where sector `1` of `64` is taken, there is room for a tree of level `2`. -/
theorem exists_allocate_around_taken :
    ∃ root after, allocate 3713
      ⟨⟨⟨⟨zeroBytes 8192⟩, 64, .none, .none, #[]⟩, #[]⟩, (FreeMap.blank 64).mark 1⟩ =
        .ok root after := by
  have hfree : ((FreeMap.blank 64).markAll [1]).free = 0 :: List.range' 2 62 := by decide
  have hclean : ((FreeMap.blank 64).markAll [1]).Clean :=
    (FreeMap.clean_blank 64).markAll (by decide)
  obtain ⟨root, after, hallocate, -⟩ := @exists_charged 3713 ((FreeMap.blank 64).markAll [1])
    ⟨⟨⟨zeroBytes 8192⟩, 64, .none, .none, #[]⟩, #[]⟩ 1 (by decide) hclean (by decide) (by decide)
    (size_zeroBytes 8192).ge rfl (by rw [hfree]; decide)
  exact ⟨root, after, hallocate⟩

variable {drive later : Drive} {map bits : FreeMap}

/-- Releasing the root later, where its nodes are still what the allocation wrote, takes the sectors
that the allocation marked out of any map of the same sectors, and no others. It writes nothing. -/
theorem release_undoes (hclean : map.Clean) (hword : map.sectors ≤ 2 ^ 32)
    (hallocate : allocate size ⟨drive, map⟩ = .ok root after)
    (hlater : later.Serves after.drive.disk.sector root) (hsectors : bits.sectors = map.sectors) :
    ∃ final requests, release root true ⟨later, bits⟩ = .ok () final ∧
      final.map.sectors = bits.sectors ∧
      (∀ sector, final.map.isUsed sector = true ↔
        bits.isUsed sector = true ∧ ¬ Space.Marks ⟨drive, map⟩ after sector) ∧
      final.drive.disk = { later.disk with traffic := ⟨requests, later.disk.traffic.writes⟩ } := by
  have htree := allocated_of_ok hclean hword hallocate
  have hbelow (sector : Nat)
      (hsector : sector ∈ root.below after.drive.disk.sector root.height size) :
      sector < bits.sectors := by
    rw [hsectors]
    exact htree.lt_sectors hsector
  have hcourse := @release_course _ {sector | root.Holds after.drive.disk.sector sector}
    later.disk.sectorCount _ _ _ _ htree.formed htree.size_le
    (htree.height_lt fun sector hsector ↦ (hlater.shows sector hsector).lt)
    (fun sector hsector ↦ htree.formed.mem_inner_iff.mp hsector) hbelow
  obtain ⟨requests, journal, hrun⟩ := hcourse.run rfl rfl hlater.faults_eq hlater.shows
  refine ⟨_, requests, Allocation.eq_ok_of_using hrun, FreeMap.sectors_clearAll _ _,
    fun sector ↦ ?_, rfl⟩
  rw [FreeMap.isUsed_clearAll bits sector hbelow, htree.marks_iff, Bool.and_eq_true,
    Bool.not_eq_true', decide_eq_false_iff_not]

/-- The tree around a taken sector is given back on a disk that counts its traffic afresh, and the
map is as it was. -/
theorem release_undoes_around_taken :
    ∃ root after final, allocate 3713
        ⟨⟨⟨⟨zeroBytes 8192⟩, 64, .none, .none, #[]⟩, #[]⟩, (FreeMap.blank 64).mark 1⟩ =
          .ok root after ∧
      release root true ⟨⟨after.drive.disk.setFaults .none, #[]⟩, after.map⟩ = .ok () final ∧
      final.map = (FreeMap.blank 64).mark 1 ∧
      final.drive.disk.medium = after.drive.disk.medium := by
  have hclean : ((FreeMap.blank 64).mark 1).Clean :=
    (FreeMap.clean_blank 64).markAll (by decide : ∀ sector ∈ [1], sector < 64)
  obtain ⟨root, after, hallocate⟩ := exists_allocate_around_taken
  have htree := allocated_of_ok hclean (by decide) hallocate
  have hsectors : after.map.sectors = 64 := by
    rw [htree.map_eq, FreeMap.sectors_markAll]
    rfl
  obtain ⟨final, requests, hrelease, hcount, hused, hdisk⟩ := @release_undoes _ _ _ _ _ _ after.map
    hclean (by decide) hallocate (htree.serves #[]) hsectors
  refine ⟨root, after, final, hallocate, hrelease, ?_, by rw [hdisk]; rfl⟩
  refine FreeMap.eq_of_isUsed (hcount.trans hsectors) fun sector ↦ ?_
  rw [Bool.eq_iff_iff, hused]
  exact (htree.isUsed_iff sector).symm

/-! ## Finding the bytes -/

/-- What the search for the byte at an offset answers. -/
def located (node : Node) (drive : Drive) (offset : Nat) : Except Stop Nat :=
  match node.locate offset drive with
  | .ok sector _ => .ok sector
  | .error stop _ => .error stop

/-- The search takes the offsets of a file of the given size to the data sectors of its tree. -/
structure Translates (size : Nat) (before : Space) (root : Node) (after : Space)
    (later : Drive) : Prop where
  length_data : (root.data after.drive.disk.sector).length = pieces size sectorSize
  found : ∀ offset < size, ∃ sector,
    (root.data after.drive.disk.sector)[offset / sectorSize]? = some sector ∧
      root.located later offset = .ok sector
  same_iff : ∀ first < size, ∀ second < size,
    root.located later first = root.located later second ↔
      first / sectorSize = second / sectorSize
  reached_iff : ∀ sector, (∃ offset < size, root.located later offset = .ok sector) ↔
    sector ∈ root.data after.drive.disk.sector
  mem_data_iff : ∀ sector, sector ∈ root.data after.drive.disk.sector ↔
    before.Marks after sector ∧ ¬ root.Holds after.drive.disk.sector sector
  past_end : ∀ offset, size ≤ offset →
    root.located later offset = .error (.error (.invalidArgument (.pastEnd offset size)))

namespace Allocated

variable (h : Allocated size before root after)
  (hlater : later.Serves after.drive.disk.sector root)

include h hlater

/-- The data sector of an offset is at the place of its block. -/
theorem exists_located {offset : Nat} (hoffset : offset < size) :
    ∃ sector, (root.data after.drive.disk.sector)[offset / sectorSize]? = some sector ∧
      root.located later offset = .ok sector := by
  obtain ⟨sector, hsector, hcourse⟩ := @locate_course _
    {sector | root.Holds after.drive.disk.sector sector} later.disk.sectorCount _ _ _ _
    h.formed h.size_le (fun sector hsector ↦ h.formed.mem_inner_iff.mp hsector) hoffset
  obtain ⟨requests, journal, hrun⟩ := hcourse.run rfl rfl hlater.faults_eq hlater.shows
  rw [h.data_eq]
  exact ⟨sector, hsector, by rw [located, hrun]⟩

/-- Two offsets have the same sector if they lie in the same block, as no sector is met twice. -/
theorem located_eq_iff {first second : Nat} (hfirst : first < size) (hsecond : second < size) :
    root.located later first = root.located later second ↔
      first / sectorSize = second / sectorSize := by
  obtain ⟨sector, hsector, hlocated⟩ := h.exists_located hlater hfirst
  obtain ⟨other, hother, hlocatedOther⟩ := h.exists_located hlater hsecond
  obtain ⟨hplace, -⟩ := List.getElem?_eq_some_iff.mp hsector
  rw [hlocated, hlocatedOther, Except.ok.injEq]
  constructor
  · rintro rfl
    exact (List.getElem?_inj hplace h.nodup_data).mp (hsector.trans hother.symm)
  · intro hsame
    rw [hsame, hother] at hsector
    exact (Option.some.inj hsector).symm

/-- Every data sector is that of the offset at which its block starts. -/
theorem exists_located_iff {sector : Nat} :
    (∃ offset < size, root.located later offset = .ok sector) ↔
      sector ∈ root.data after.drive.disk.sector := by
  constructor
  · rintro ⟨offset, hoffset, hlocated⟩
    obtain ⟨other, hother, hlocatedOther⟩ := h.exists_located hlater hoffset
    obtain rfl := Except.ok.inj (hlocated.symm.trans hlocatedOther)
    exact List.mem_of_getElem? hother
  · intro hsector
    obtain ⟨place, hplace, rfl⟩ := List.mem_iff_getElem.mp hsector
    rw [h.length_data, lt_pieces_iff (by decide)] at hplace
    obtain ⟨other, hother, hlocated⟩ := h.exists_located hlater hplace
    rw [Nat.mul_div_cancel _ (by decide : 0 < sectorSize)] at hother
    obtain ⟨_, rfl⟩ := List.getElem?_eq_some_iff.mp hother
    exact ⟨_, hplace, hlocated⟩

end Allocated

/-- The search for the byte at an offset later, where the nodes below the root are still what the
allocation wrote, goes to the data sector whose place is the number of whole sectors before the
offset: to one for each sector's worth of bytes, and to all the data sectors there are. -/
theorem locate_translates (hclean : map.Clean) (hword : map.sectors ≤ 2 ^ 32)
    (hallocate : allocate size ⟨drive, map⟩ = .ok root after)
    (hlater : later.Serves after.drive.disk.sector root) :
    Translates size ⟨drive, map⟩ root after later := by
  have htree := allocated_of_ok hclean hword hallocate
  constructor
  case length_data => exact htree.length_data
  case found => exact fun offset hoffset ↦ htree.exists_located hlater hoffset
  case same_iff =>
    exact fun first hfirst second hsecond ↦ htree.located_eq_iff hlater hfirst hsecond
  case reached_iff => exact fun sector ↦ htree.exists_located_iff hlater
  case mem_data_iff =>
    intro sector
    rw [htree.data_eq]
    exact htree.mem_leaves_iff
  case past_end =>
    intro offset hoffset
    rw [← htree.length_eq] at hoffset ⊢
    rw [located, locate_past_end hoffset]

/-- The last byte around a taken sector has the last of `30` data sectors to itself, and there is
none after it. -/
theorem locate_translates_around_taken :
    ∃ root after later, allocate 3713
        ⟨⟨⟨⟨zeroBytes 8192⟩, 64, .none, .none, #[]⟩, #[]⟩, (FreeMap.blank 64).mark 1⟩ =
          .ok root after ∧
      later = ⟨after.drive.disk.setFaults .none, #[]⟩ ∧
      (root.data after.drive.disk.sector).length = 30 ∧
      root.located later 3584 = root.located later 3711 ∧
      root.located later 3711 ≠ root.located later 3712 ∧
      root.located later 3713 = .error (.error (.invalidArgument (.pastEnd 3713 3713))) := by
  have hclean : ((FreeMap.blank 64).mark 1).Clean :=
    (FreeMap.clean_blank 64).markAll (by decide : ∀ sector ∈ [1], sector < 64)
  obtain ⟨root, after, hallocate⟩ := exists_allocate_around_taken
  have htree := allocated_of_ok hclean (by decide) hallocate
  have htranslates := locate_translates hclean (by decide) hallocate (htree.serves #[])
  refine ⟨root, after, _, hallocate, rfl, htranslates.length_data, ?_, ?_, ?_⟩
  · exact (htranslates.same_iff 3584 (by decide) 3711 (by decide)).mpr rfl
  · intro hsame
    have hblock := (htranslates.same_iff 3711 (by decide) 3712 (by decide)).mp hsame
    exact absurd hblock (by decide)
  · exact htranslates.past_end 3713 (Nat.le_refl _)

end Node

end SectorFS
