import SectorFS.Proofs.Format
import SectorFS.Proofs.Listing

/-!
# How far a format reaches

The map has to describe the sectors of its own tree, and the larger the disk the more there are of
these. Still a disk can be formatted as soon as it has room for the root nodes, for the tree of the
root directory and for a single sector of the map: the tree of the map grows by less than the disk
does. What remains is the upper end, where the map is larger than the deepest tree.

A format lays the two files behind each other and claims nothing else, so the sectors in use are a
prefix of the disk.
-/

namespace SectorFS

open SectorFS.Geometry

variable {sectors : Nat} {height : Fin maxLevel}

/-! ## Room for the map -/

/-- There is room for the map and the root directory on every disk on which a map of one sector
would fit, if the map has a tree at all. -/
theorem formattable_of_heightFor (hleast : 13 ≤ sectors)
    (hheight : heightFor (FreeMap.byteCount sectors) = some height) :
    Formattable sectors height := by
  refine ⟨hheight, ?_⟩
  have hbound := sectorNeeds_bound height (FreeMap.byteCount sectors)
  have hpieces : pieces (FreeMap.byteCount sectors) sectorSize =
      (FreeMap.byteCount sectors + 127) / 128 := rfl
  have hlevels : height.val < 4 := height.isLt
  by_cases hpos : 0 < height.val
  · have hlarge : 3712 < FreeMap.byteCount sectors := capacity_lt_of_heightFor hheight hpos
    rw [FreeMap.byteCount] at *
    omega
  · have hzero : height.val = 0 := by omega
    have hbase : capacity 0 = sectorSize := rfl
    rw [hzero, hbase] at hbound
    rw [hzero]
    rw [FreeMap.byteCount] at *
    omega

theorem exists_formattable_iff :
    (∃ height, Formattable sectors height) ↔ 13 ≤ sectors ∧ sectors ≤ 8 * capacity maxLevel := by
  constructor
  · rintro ⟨height, h⟩
    have hroom := h.room
    have hneeds := pieces_le_sectorNeeds height (FreeMap.byteCount sectors)
    have hfirst : 0 < pieces (FreeMap.byteCount sectors) sectorSize := by
      rw [lt_pieces_iff (by decide), FreeMap.byteCount]
      omega
    have hmost := le_capacity_maxLevel height.isLt (le_capacity_of_heightFor h.height_eq)
    rw [FreeMap.byteCount] at hmost
    omega
  · rintro ⟨hleast, hmost⟩
    cases hheight : heightFor (FreeMap.byteCount sectors) with
    | none =>
      rw [heightFor_eq_none_iff, FreeMap.byteCount] at hheight
      omega
    | some height => exact ⟨height, formattable_of_heightFor hleast hheight⟩

/-! ## What is in use afterwards -/

theorem Directory.entries_empty : Directory.empty.entries = [] := by decide

namespace Volume

/-- The first sectors are in use and the others are free: two root nodes, the tree of the map and
that of the root directory, which is empty. The map and the nodes are read from the disk. -/
structure FillsPrefix (volume : Volume) (sectors needs : Nat) (drive : Drive) : Prop where
  le_sectors : 12 + needs ≤ sectors
  loadMap_eq : ∃ map final, volume.loadMap drive = .ok map final ∧ map.sectors = sectors ∧
    ∀ sector, map.isUsed sector = true ↔ sector < 12 + needs
  freeSectors_eq : ∃ final, volume.freeSectors drive = .ok (sectors - 12 - needs) final
  mapNode_length : ∃ node final, Node.fetch freeMapSector drive = .ok node final ∧
    node.length.toNat = FreeMap.byteCount sectors
  rootNode_length : ∃ node final, Node.fetch rootSector drive = .ok node final ∧
    node.length.toNat = directorySize
  list_eq : ∃ final, volume.list "/" true drive = .ok [] final

end Volume

/-- A disk that was formatted has its first sectors in use. -/
theorem Image.Formatted.fillsPrefix {image : Image} {mapNode rootNode : Node} {inner : List Write}
    (h : image.Formatted sectors height mapNode rootNode inner) (hroom : Formattable sectors height)
    {drive : Drive} (hdrive : drive.disk.Holds image sectors) (hfaults : drive.disk.faults = .none) :
    (Volume.withRoots ⟨freeMapSector, mapNode, 0⟩ ⟨rootSector, rootNode, 0⟩).FillsPrefix sectors
      (sectorNeeds (height + 1) (FreeMap.byteCount sectors)) drive := by
  have hle := hroom.room
  have hlt := hroom.lt
  have hmapSector : freeMapSector < sectors := (by omega : 0 < sectors)
  have hrootSector : rootSector < sectors := (by omega : 1 < sectors)
  have hsound := h.toSound
  constructor
  case le_sectors => omega
  case loadMap_eq =>
    obtain ⟨final, hrun, -⟩ := (h.attached.loadMap_performs hsound).run hdrive hfaults
    refine ⟨_, final, hrun, Image.Sound.sectors_freeMap .., fun sector ↦ ?_⟩
    rw [h.freeMap_eq, FreeMap.isUsed_filled hle, decide_eq_true_iff]
    omega
  case freeSectors_eq =>
    obtain ⟨final, hrun, -⟩ := (h.attached.freeSectors_performs hsound).run hdrive hfaults
    rw [h.freeMap_eq, FreeMap.free_filled hle, List.length_range'] at hrun
    refine ⟨final, hrun.trans (congrArg (EStateM.Result.ok · final) ?_)⟩
    omega
  case mapNode_length =>
    obtain ⟨final, hrun, -⟩ :=
      (Node.fetch_performs h.attached.mapFile_node hmapSector (by decide)).run hdrive hfaults
    exact ⟨_, final, hrun, (h.attached.intact_mapFile hsound).size_eq.symm.trans
      (h.attached.size_mapFile hsound)⟩
  case rootNode_length =>
    obtain ⟨final, hrun, -⟩ :=
      (Node.fetch_performs h.attached.rootFile_node hrootSector (by decide)).run hdrive hfaults
    exact ⟨_, final, hrun, (h.attached.intact_rootFile hsound).size_eq.symm.trans
      (h.size_directory [] rootSector image.targetAt_nil)⟩
  case list_eq =>
    obtain ⟨lines, hlines, hlist, -⟩ := Volume.list_performs h.attached hsound
      (rfl : image.locate "/" = .ok ⟨rootSector, true⟩)
    rw [h.table_eq, Directory.entries_empty] at hlines
    cases hlines
    obtain ⟨final, hrun, -⟩ := hlist.run hdrive hfaults
    exact ⟨final, hrun⟩

/-! ## Which disks can be formatted -/

namespace Volume

/-- Formatting is refused for its argument on a disk of at most one sector, finds no space on one
that is too small for the root files or too large for the deepest map, and comes to its end on every
other disk. Then the sectors of the root files, as many as the size of the map needs and the `12` of
the nodes and the root directory, are the first of the disk. -/
theorem format_extent {drive : Drive} (hcount : drive.disk.sectorCount = sectors)
    (hword : sectors + 63 < Checked.wordLimit)
    (hsize : sectors * sectorSize ≤ drive.disk.medium.size)
    (hfaults : drive.disk.faults = .none) :
    ((∃ fault final, format drive = .error (.error (.invalidArgument fault)) final) ↔
      sectors ≤ 1) ∧
    ((∃ final, format drive = .error (.error .noSpace) final) ↔
      2 ≤ sectors ∧ sectors ≤ 12 ∨ 8 * capacity maxLevel < sectors) ∧
    ((∃ volume final, format drive = .ok volume final) ↔
      13 ≤ sectors ∧ sectors ≤ 8 * capacity maxLevel) ∧
    ∀ volume final, format drive = .ok volume final →
      ∃ level, levelFor (FreeMap.byteCount sectors) = some level ∧
        volume.FillsPrefix sectors (sectorNeeds level (FreeMap.byteCount sectors)) final := by
  have hlimit : 13 ≤ 8 * capacity maxLevel := by decide
  have hdrive : drive.disk.Holds drive.disk.sector sectors := ⟨hcount, hsize, rfl⟩
  by_cases hroots : sectors ≤ 1
  · obtain ⟨final, hrun, -⟩ := (format_refused_of_le hroots).run hdrive hfaults
    replace hrun : format drive =
      .error (.error (.invalidArgument (.noRoomForRoots sectors))) final := hrun
    rw [hrun]
    exact ⟨iff_of_true ⟨_, _, rfl⟩ hroots, iff_of_false (fun ⟨_, hstop⟩ ↦ nomatch hstop) (by omega),
      iff_of_false (fun ⟨_, _, hok⟩ ↦ nomatch hok) (by omega), nofun⟩
  by_cases hroom : ∃ height, Formattable sectors height
  · obtain ⟨hleast, hmost⟩ := exists_formattable_iff.mp hroom
    obtain ⟨height, hroom⟩ := hroom
    obtain ⟨mapNode, rootNode, inner, hformatted⟩ := format_performs hroom
    obtain ⟨writes, hperforms, hleft⟩ := hformatted drive.disk.sector
    obtain ⟨final, hrun, hholds, hnone⟩ := hperforms.run hdrive hfaults
    replace hrun : format drive = .ok _ final := hrun
    rw [hrun]
    refine ⟨iff_of_false (fun ⟨_, _, hstop⟩ ↦ nomatch hstop) hroots,
      iff_of_false (fun ⟨_, hstop⟩ ↦ nomatch hstop) (by omega),
      iff_of_true ⟨_, _, rfl⟩ ⟨hleast, hmost⟩, fun volume reached hok ↦ ?_⟩
    obtain ⟨rfl, rfl⟩ := EStateM.Result.ok.inj hok
    exact ⟨_, levelFor_eq_some_iff.mpr ⟨height, hroom.height_eq, rfl⟩,
      hleft.fillsPrefix hroom hholds hnone⟩
  · obtain ⟨writes, hperforms⟩ := format_noSpace (Nat.lt_of_not_le hroots) hword
      fun height hheight ↦ hroom ⟨height, hheight⟩
    obtain ⟨final, hrun, -⟩ := (hperforms drive.disk.sector).run hdrive hfaults
    replace hrun : format drive = .error (.error .noSpace) final := hrun
    rw [exists_formattable_iff] at hroom
    rw [hrun]
    exact ⟨iff_of_false (fun ⟨_, _, hstop⟩ ↦ nomatch hstop) hroots, iff_of_true ⟨_, rfl⟩ (by omega),
      iff_of_false (fun ⟨_, _, hok⟩ ↦ nomatch hok) hroom, nofun⟩

/-- Twelve sectors are too few, and thirteen are all in use. -/
theorem format_extent_thirteen :
    (∃ final, format ⟨⟨⟨zeroBytes 1536⟩, 12, .none, .none, #[]⟩, #[]⟩ =
      .error (.error .noSpace) final) ∧
    ∃ volume final left, format ⟨⟨⟨zeroBytes 1664⟩, 13, .none, .none, #[]⟩, #[]⟩ =
      .ok volume final ∧ volume.freeSectors final = .ok 0 left := by
  have hlimit : 13 ≤ 8 * capacity maxLevel := by decide
  have hextent (sectors size : Nat) (hword : sectors + 63 < Checked.wordLimit)
      (hsize : sectors * sectorSize ≤ size) :=
    @format_extent sectors ⟨⟨⟨zeroBytes size⟩, sectors, .none, .none, #[]⟩, #[]⟩ rfl hword
      (hsize.trans (size_zeroBytes size).ge) rfl
  obtain ⟨-, hnoSpace, -⟩ := hextent 12 1536 (by decide) (by decide)
  obtain ⟨-, -, hok, hfills⟩ := hextent 13 1664 (by decide) (by decide)
  obtain ⟨volume, final, hformat⟩ := hok.mpr ⟨Nat.le_refl 13, hlimit⟩
  obtain ⟨level, hlevel, hprefix⟩ := hfills volume final hformat
  obtain rfl := Option.some.inj ((by decide : levelFor (FreeMap.byteCount 13) = some 1).symm.trans
    hlevel)
  obtain ⟨left, hfree⟩ := hprefix.freeSectors_eq
  exact ⟨hnoSpace.mpr (.inl (by decide)), volume, final, left, hformat, hfree⟩

end Volume

end SectorFS
