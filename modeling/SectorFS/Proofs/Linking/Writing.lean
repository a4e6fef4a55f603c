import SectorFS.Proofs.Resolution

/-!
# Writing a table and the map

Creating and removing a file end alike: the table of the parent directory is written with
one entry changed, and then the map. On the way no file moves and no other content changes;
the table is the new one once it is written, and it stays the new one while the bits of the
map follow, sector by sector.
-/

namespace SectorFS

variable {base changed : Image} {sectors directory : Nat} {index : Fin entryCount} {parent : Place}

namespace Image

/-! ## Changes to one entry and to the map -/

/-- At most the content of a directory and of the map has changed, and of the directory at most one
entry. -/
structure Linking (base changed : Image) (directory : Nat) (index : Fin entryCount) : Prop where
  kept : ∀ member, member ∉ base.leaves directory → member ∉ base.leaves freeMapSector →
    changed member = base member
  entries : ∀ other, other ≠ index →
    (changed.table directory).table[other] = (base.table directory).table[other]

namespace Linking

theorem unmoved (hlink : base.Linking changed directory index) (h : base.Sound sectors)
    (hparent : base.targetAt parent = some ⟨directory, true⟩) : Sound.Unmoved base changed :=
  fun _ _ hother member hmember ↦ hlink.kept member
    (fun hleaf ↦ h.not_mem_spine (headOf_item hparent) hother hleaf hmember)
    (fun hleaf ↦ h.not_mem_spine base.headOf_map hother hleaf hmember)

/-- The other files keep their content. -/
theorem content (hlink : base.Linking changed directory index) (h : base.Sound sectors)
    (hparent : base.targetAt parent = some ⟨directory, true⟩) {place : Place} {target : Target}
    (hplace : base.targetAt place = some target) (hne : place ≠ parent) :
    changed.content target.sector = base.content target.sector := by
  obtain ⟨node, hintact⟩ := h.intact_item hplace
  have howns (member : Nat) (hmember : member ∈ base.extent target.sector) :
      base.Owns (.item place) member := ⟨_, headOf_item hplace, hmember⟩
  refine content_congr hintact fun member hmember ↦ hlink.kept member (fun hleaf ↦ hne ?_)
    (fun hleaf ↦ ?_)
  · exact Owner.item.inj (h.owner_of_leaf (headOf_item hparent) hleaf (howns member hmember))
  · exact nomatch h.owner_of_leaf base.headOf_map hleaf (howns member hmember)

theorem onlyEntry (hlink : base.Linking changed directory index) (h : base.Sound sectors)
    (hparent : base.targetAt parent = some ⟨directory, true⟩) :
    base.OnlyEntry changed directory index := by
  intro place sector other hplace hne
  refine child?_congr ?_
  by_cases hsector : sector = directory
  · rw [hsector]
    exact hlink.entries other fun hother ↦ hne ⟨hsector, hother⟩
  · have hother : place ≠ parent := by
      rintro rfl
      rw [hparent] at hplace
      exact hsector (Target.mk.inj (Option.some.inj hplace)).1.symm
    rw [table, hlink.content h hparent hplace hother, table]

/-- What nobody owns is as it was. -/
theorem kept_of_unowned (hlink : base.Linking changed directory index)
    (hparent : base.targetAt parent = some ⟨directory, true⟩) {member : Nat}
    (hmember : ∀ owner, ¬ base.Owns owner member) : changed member = base member :=
  hlink.kept member
    (fun hleaf ↦ hmember _ ⟨_, headOf_item hparent, mem_extent_iff.mpr (.inr hleaf)⟩)
    (fun hleaf ↦ hmember _ ⟨_, base.headOf_map, mem_extent_iff.mpr (.inr hleaf)⟩)

end Linking

/-! ## The writes -/

/-- The writes that put the table of a directory, with one entry changed, and then a map. -/
structure Relinks (base : Image) (sectors directory : Nat) (index : Fin entryCount)
    (updated : Directory) (bits : FreeMap) (table map : List Write) : Prop where
  table_splices : base.Splices directory 0 directorySize 0 updated.toBytes table
  map_splices : (base.putAll table).Splices freeMapSector 0 bits.bytes.size 0 bits.bytes map
  updated_eq : ∀ other, other ≠ index →
    updated.table[other] = (base.table directory).table[other]
  sectors_eq : bits.sectors = sectors

namespace Relinks

variable {updated : Directory} {bits : FreeMap} {table map : List Write}
  (hlinks : base.Relinks sectors directory index updated bits table map) (h : base.Sound sectors)
  (hparent : base.targetAt parent = some ⟨directory, true⟩)

include hlinks

theorem length_table : table.length = 10 := by
  rw [hlinks.table_splices.length_whole]
  decide

theorem length_map :
    map.length = Geometry.pieces (FreeMap.byteCount sectors) sectorSize := by
  rw [hlinks.map_splices.length_whole, FreeMap.size_bytes, hlinks.sectors_eq]
  rfl

include h hparent

/-- The stage at which the table is being written. -/
theorem linking_table (count : Nat) :
    base.Linking (base.putAll (table.take count)) directory index where
  kept member hmember _ := hlinks.table_splices.kept count hmember
  entries other hother := by
    obtain ⟨upper, hupper⟩ := h.intact_item hparent
    exact hlinks.table_splices.entry_same hupper (h.size_directory parent directory hparent) count
      (hlinks.updated_eq other hother)

theorem table_done : (base.putAll table).table directory = updated := by
  obtain ⟨upper, hupper⟩ := h.intact_item hparent
  exact hlinks.table_splices.table_eq hupper (h.size_directory parent directory hparent)

theorem unmoved_table : Sound.Unmoved base (base.putAll table) := by
  have hlink := linking_table hlinks h hparent table.length
  rw [List.take_length] at hlink
  exact hlink.unmoved h hparent

/-- The table stays the new one while the map is being written. -/
theorem table_kept (count : Nat) :
    ((base.putAll table).putAll (map.take count)).table directory = updated := by
  have hspine := unmoved_table hlinks h hparent
  obtain ⟨upper, hupper⟩ := h.intact_item hparent
  have hcontent : ((base.putAll table).putAll (map.take count)).content directory =
      (base.putAll table).content directory := by
    refine content_congr (hupper.congr (hspine _ _ (headOf_item hparent))) fun member hmember ↦
      hlinks.map_splices.kept count fun hleaf ↦ ?_
    rw [extent_congr (hspine _ _ (headOf_item hparent))] at hmember
    rw [leaves_congr (hspine .map _ (headOf_map _))] at hleaf
    exact nomatch h.owner_of_leaf (headOf_map _) hleaf ⟨directory, headOf_item hparent, hmember⟩
  rw [← table_done hlinks h hparent, Image.table, hcontent, Image.table]

/-- The stage at which the map is being written. -/
theorem linking_map (count : Nat) :
    base.Linking ((base.putAll table).putAll (map.take count)) directory index where
  kept member hmember hbits := by
    have hlink := linking_table hlinks h hparent table.length
    rw [List.take_length] at hlink
    rw [hlinks.map_splices.kept count, hlink.kept member hmember hbits]
    rwa [leaves_congr (unmoved_table hlinks h hparent .map _ (headOf_map _))]
  entries other hother := by
    rw [table_kept hlinks h hparent, hlinks.updated_eq other hother]

/-- Writing the table does not change the map. -/
theorem freeMap_table (count : Nat) :
    (base.putAll (table.take count)).freeMap sectors = base.freeMap sectors := by
  rw [Image.freeMap, Image.freeMap, h.content_of_leaves (headOf_item hparent) (headOf_map _) (by simp)
    fun member hmember ↦ hlinks.table_splices.kept count hmember]

/-- The map while it is being written. -/
theorem isUsed_during (count member : Nat) :
    (((base.putAll table).putAll (map.take count)).freeMap sectors).isUsed member =
      if member / 8 / sectorSize < count then bits.isUsed member
      else (base.freeMap sectors).isUsed member := by
  have hspine := unmoved_table hlinks h hparent .map _ (headOf_map _)
  obtain ⟨top, htop⟩ := h.intact_map
  have hold := freeMap_table hlinks h hparent table.length
  rw [List.take_length] at hold
  rw [hlinks.map_splices.isUsed_eq (htop.congr hspine) hlinks.sectors_eq
    (by rw [size_congr hspine, h.size_map]) count member, hold]

/-- In the end the map is the one that was written. -/
theorem freeMap_done : ((base.putAll table).putAll map).freeMap sectors = bits := by
  have hspine := unmoved_table hlinks h hparent .map _ (headOf_map _)
  obtain ⟨top, htop⟩ := h.intact_map
  exact hlinks.map_splices.freeMap_eq (htop.congr hspine) hlinks.sectors_eq
    (by rw [size_congr hspine, h.size_map])

end Relinks

end Image

/-- Storing a table and then a map changes the entry and the bits in which they differ. -/
theorem Volume.Attached.relink_performs {volume : Volume} (hvolume : volume.Attached base)
    (h : base.Sound sectors) {node : Node} {updated : Directory} {bits : FreeMap}
    (hparent : base.targetAt parent = some ⟨directory, true⟩)
    (hintact : base.Intact sectors directory node)
    (hupdated : ∀ other, other ≠ index → updated.table[other] = (base.table directory).table[other])
    (hbits : bits.sectors = sectors) :
    ∃ table map,
      Performs (updated.store ⟨directory, node, 0⟩) base sectors (.ok ()) table ∧
      Performs (bits.store volume.mapFile) (base.putAll table) sectors (.ok ()) map ∧
      base.Relinks sectors directory index updated bits table map := by
  have hword := Nat.le_of_lt h.sectors_lt
  obtain ⟨table, htableRun, htable⟩ := @Directory.store_performs base sectors
    ⟨directory, node, 0⟩ updated hintact hword (h.size_directory parent directory hparent)
  have hkept : ∀ member ∉ base.leaves directory, base.putAll table member = base member := by
    intro member hmember
    have hsame := htable.kept table.length hmember
    rwa [List.take_length] at hsame
  have hspine := h.unmoved_of_leaves (Image.headOf_item hparent) hkept .map freeMapSector
    (Image.headOf_map base)
  obtain ⟨map, hmapRun, hmap⟩ := FreeMap.store_performs hbits
    ((hvolume.intact_mapFile h).congr (hvolume.mapFile_sector ▸ hspine)) hword
    (by rw [hvolume.mapFile_sector, Image.size_congr hspine, h.size_map])
  rw [hvolume.mapFile_sector] at hmap
  exact ⟨table, map, htableRun, hmapRun, htable, hmap, hupdated, hbits⟩

end SectorFS
