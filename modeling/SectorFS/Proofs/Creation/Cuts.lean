import SectorFS.Proofs.Creation.Stages

/-!
# Creations that are cut short

A creation writes the new tree, then the table of the parent directory, then the map. If the
disk stops taking writes on the way, the image that is left can be one on which an entry
leads to sectors that the map calls free. This is so from the write on that brings the entry
into use until the last claimed sector is marked, and at no other cut, except for one case.
An entry can lie across two sectors of the table so that its usage is written and the number
of its root node is not. Then it leads to what its old number names: a sector that nobody
marked or that somebody else owns, or, where the entry was never used before, the map.
-/

namespace SectorFS

open SectorFS.Geometry

namespace Image

variable {image changed : Image} {sectors : Nat}

/-! ## Consistent images -/

/-- Every sector that can be reached through the entries is marked, and none through two of them. -/
structure Consistent (image : Image) (sectors : Nat) : Prop where
  marked : ∀ place target, place ≠ [] → image.targetAt place = some target →
    ∀ member ∈ image.extent target.sector, (image.freeMap sectors).isUsed member = true
  apart : ∀ place other target met, place ≠ [] → other ≠ [] → place ≠ other →
    image.targetAt place = some target → image.targetAt other = some met →
    ∀ member ∈ image.extent target.sector, member ∉ image.extent met.sector

theorem Sound.consistent (h : image.Sound sectors) : image.Consistent sectors where
  marked _ _ _ hplace member hmember := h.marked _ member ⟨_, headOf_item hplace, hmember⟩
  apart _ _ _ _ _ _ hne hplace hother member hmember hmet := hne (Owner.item.inj
    (h.owner_eq _ _ member ⟨_, headOf_item hplace, hmember⟩ ⟨_, headOf_item hother, hmet⟩))

/-- The sector belongs to one of the two root files. -/
def OwnsRoot (image : Image) (sector : Nat) : Prop :=
  image.Owns .map sector ∨ image.Owns (.item []) sector

/-- What is met at a place and below it belongs to the root files of an earlier image, and nothing
of it is met twice. -/
structure Contained (base image : Image) (place : Place) : Prop where
  owned : ∀ below target, image.targetAt (below ++ place) = some target →
    ∀ member ∈ image.extent target.sector, base.OwnsRoot member
  apart : ∀ below other target met, below ≠ other → image.targetAt (below ++ place) = some target →
    image.targetAt (other ++ place) = some met →
    ∀ member ∈ image.extent target.sector, member ∉ image.extent met.sector

section Added

variable {base : Image} (h : base.Exact sectors) {place : Place}
  (htarget : ∀ other, ¬ place <:+ other → changed.targetAt other = base.targetAt other)
  (hunmoved : Sound.Unmoved base changed) (hmap : changed.freeMap sectors = base.freeMap sectors)

include h htarget hunmoved hmap

/-- Where a place and what is below it is added to a sound image without a change of the map, the
image is consistent only if what is added belongs to the root files. -/
theorem Consistent.contained (hconsistent : changed.Consistent sectors)
    (hfree : base.targetAt place = none) : base.Contained changed place := by
  have hne (below : Place) : below ++ place ≠ [] := by
    intro hnil
    obtain ⟨-, rfl⟩ := List.append_eq_nil_iff.mp hnil
    rw [targetAt_nil] at hfree
    contradiction
  refine ⟨fun below target hbelow member hmember ↦ ?_, fun below other target met hdiffer ↦
    hconsistent.apart _ _ target met (hne below) (hne other)
      fun heq ↦ hdiffer (List.append_cancel_right heq)⟩
  have hmarked := hconsistent.marked _ target (hne below) hbelow member hmember
  rw [hmap, h.charged] at hmarked
  obtain ⟨owner, head, howner, howned⟩ := hmarked
  cases owner with
  | map => exact .inl ⟨head, howner, howned⟩
  | item other =>
    by_cases hroot : other = []
    · exact .inr ⟨head, hroot ▸ howner, howned⟩
    · obtain ⟨met, hother, rfl⟩ := Option.map_eq_some_iff.mp howner
      have hsuffix : ¬ place <:+ other := by
        rintro ⟨below, rfl⟩
        rw [targetAt_append_of_none hfree] at hother
        contradiction
      rw [← extent_congr (hunmoved _ _ (headOf_item hother))] at howned
      refine absurd howned (hconsistent.apart _ other target met (hne below) hroot ?_ hbelow
        ((htarget other hsuffix).trans hother) member hmember)
      rintro rfl
      exact hsuffix (List.suffix_append below place)

/-- What is added does no harm if it belongs to the root files. -/
theorem Contained.consistent (hcontained : base.Contained changed place) :
    changed.Consistent sectors := by
  have hcases (other : Place) (met : Target) (hother : changed.targetAt other = some met) :
      (∃ below, other = below ++ place) ∨
        base.targetAt other = some met ∧ changed.extent met.sector = base.extent met.sector := by
    by_cases hsuffix : place <:+ other
    · exact .inl (hsuffix.imp fun below heq ↦ heq.symm)
    · have hbase := (htarget other hsuffix).symm.trans hother
      exact .inr ⟨hbase, extent_congr (hunmoved _ _ (headOf_item hbase))⟩
  have hroots {member : Nat} (hmember : base.OwnsRoot member) {other : Place} {met : Target}
      (hother : base.targetAt other = some met) (hroot : other ≠ []) :
      member ∉ base.extent met.sector := by
    intro hmet
    have howns : base.Owns (.item other) member := ⟨_, headOf_item hother, hmet⟩
    rcases hmember with hmember | hmember
    · exact nomatch h.owner_eq _ _ _ hmember howns
    · exact hroot (Owner.item.inj (h.owner_eq _ _ _ hmember howns)).symm
  constructor
  · intro other met hroot hother member hmember
    rw [hmap, h.charged]
    obtain ⟨below, rfl⟩ | ⟨hbase, hextent⟩ := hcases other met hother
    · exact (hcontained.owned below met hother member hmember).elim (⟨_, ·⟩) (⟨_, ·⟩)
    · exact ⟨_, _, headOf_item hbase, hextent ▸ hmember⟩
  · intro first second target met hfirst hsecond hdiffer htarget' hmet member hmember hmember'
    obtain ⟨below, rfl⟩ | ⟨hbase, hextent⟩ := hcases first target htarget' <;>
      obtain ⟨other, rfl⟩ | ⟨hbase', hextent'⟩ := hcases second met hmet
    · exact hcontained.apart below other target met (fun heq ↦ hdiffer (heq ▸ rfl)) htarget' hmet
        member hmember hmember'
    · exact hroots (hcontained.owned below target htarget' member hmember) hbase' hsecond
        (hextent' ▸ hmember')
    · exact hroots (hcontained.owned other met hmet member hmember') hbase hfirst
        (hextent ▸ hmember)
    · exact hdiffer (Owner.item.inj (h.owner_eq _ _ member
        ⟨_, headOf_item hbase, hextent ▸ hmember⟩ ⟨_, headOf_item hbase', hextent' ▸ hmember'⟩))

end Added

/-! ## Where a cut is harmful -/

/-- The number of writes for a new tree, its root, and the table of a new directory. -/
def treeWrites (size : Nat) (height : Fin maxLevel) (isDirectory : Bool) : Nat :=
  sectorNeeds (height + 1) size - pieces size sectorSize + 1 + if isDirectory then 10 else 0

/-- After so many writes of a creation the entry is in use and a claimed sector is not marked. If
the number of the entry's root node is not written yet, this does harm only if the number that is
there leads out of the root files. -/
structure Exposed (image cut : Image) (sectors size : Nat) (isDirectory : Bool) (parent : Place)
    (directory : Nat) (index : Fin entryCount) (height : Fin maxLevel) (limit : Nat) : Prop where
  entered : treeWrites size height isDirectory + entrySize * index / sectorSize < limit
  unmarked : ∃ member ∈ image.claimed sectors size height,
    limit ≤ treeWrites size height isDirectory + 10 + member / 8 / sectorSize
  torn : limit ≤ treeWrites size height isDirectory + (entrySize * index + wordSize) / sectorSize →
    ¬ ((image.table directory).table[index].sector.toNat = freeMapSector ∧
      (isDirectory = true → image.Contained cut (index :: parent)))

/-- What a creation claims was not marked. -/
theorem not_isUsed_of_mem_claimed {size member : Nat} {height : Fin maxLevel}
    (h : member ∈ image.claimed sectors size height) :
    (image.freeMap sectors).isUsed member = false :=
  (FreeMap.mem_free.mp (List.mem_of_mem_take h)).2

namespace Created

variable {directory size sector : Nat} {index : Fin entryCount} {name : String}
  {isDirectory : Bool} {height : Fin maxLevel} {node : Node} {fresh table map : List Write}
  {parent : Place} {path : Path}
  (hcreated : image.Created sectors directory index name size isDirectory height sector node fresh
    table map) (h : image.Exact sectors)
  (hadmits : image.Admits sectors path size parent directory name index height)

include hcreated

theorem sector_mem_claimed : sector ∈ image.claimed sectors size height := by
  rw [← hcreated.extent_eq]
  exact mem_extent_self _ sector

include h hadmits

/-- The entry while the table of its directory is being written. -/
theorem child?_during (count : Nat) :
    ((image.putAll fresh).putAll (table.take count)).child? directory index =
      if entrySize * index / sectorSize < count then
        some ⟨if (entrySize * index + wordSize) / sectorSize < count then sector
          else (image.table directory).table[index].sector.toNat, isDirectory⟩
      else none := by
  have hparent := parent_fresh hcreated h hadmits
  obtain ⟨upper, hupper⟩ := (sound_fresh hcreated h).intact_item hparent
  obtain ⟨husage, hkind, hsector⟩ := hcreated.relinks.table_splices.entry_words hupper
    ((sound_fresh hcreated h).size_directory parent directory hparent) count index
  rw [table_fresh hcreated h hadmits] at husage hkind hsector
  have hlt := hcreated.intact.self_lt.trans h.sectors_lt
  have hnumber : (UInt32.ofNat sector).toNat = sector := UInt32.toNat_ofNat_of_lt' hlt
  rw [child?]
  by_cases hentered : entrySize * index / sectorSize < count
  · rw [if_pos hentered, Directory.table_update, if_pos rfl] at husage hkind
    have huse : (((image.putAll fresh).putAll (table.take count)).table directory).table[index].inUse =
        true := by
      rw [Entry.inUse, husage]
      rfl
    have hfile : (((image.putAll fresh).putAll (table.take count)).table
        directory).table[index].isDirectory = isDirectory := by
      rw [Entry.isDirectory, hkind]
      cases isDirectory <;> rfl
    rw [if_pos huse, if_pos hentered, hfile, hsector]
    split
    · rw [Directory.table_update, if_pos rfl, Entry.ofName, hnumber]
    · rfl
  · rw [if_neg hentered] at husage
    have hfree : (((image.putAll fresh).putAll (table.take count)).table directory).table[index].inUse =
        false := by
      rw [Entry.inUse, husage]
      exact Directory.not_inUse_of_freeIndex? hadmits.vacant
    rw [if_neg (by rw [hfree]; exact Bool.false_ne_true), if_neg hentered]

/-- Once the entry leads to the new file, the image is consistent if and only if the map marks all
of it. -/
theorem consistent_iff_marked (hsize : isDirectory = true → size = directorySize)
    (hlink : (image.putAll fresh).Linking changed directory index)
    (hentry : changed.child? directory index = some ⟨sector, isDirectory⟩)
    (hmap : ∀ member, (image.freeMap sectors).isUsed member = true →
      (changed.freeMap sectors).isUsed member = true)
    (honly : ∀ member, (changed.freeMap sectors).isUsed member = true →
      (image.freeMap sectors).isUsed member = true ∨ member ∈ image.claimed sectors size height) :
    changed.Consistent sectors ↔ ∀ member ∈ image.claimed sectors size height,
      (changed.freeMap sectors).isUsed member = true := by
  constructor
  · intro hconsistent member hmember
    have hplace := targetAt_after hcreated h hadmits hlink hentry (index :: parent)
    rw [if_pos rfl] at hplace
    refine hconsistent.marked _ _ (List.cons_ne_nil _ _) hplace member ?_
    rwa [new_extent hcreated h hadmits hlink]
  · intro hmarked
    exact (sound_after hcreated h hadmits hlink hsize hentry fun member ↦
      ⟨honly member, fun hor ↦ hor.elim (hmap member) (hmarked member)⟩).consistent

/-- While the number of the root node is missing, the old number decides. -/
theorem consistent_iff_torn {count : Nat}
    (hapart : (image.table directory).table[index].sector.toNat = freeMapSector ∨
      ¬ image.OwnsRoot (image.table directory).table[index].sector.toNat)
    (hentered : entrySize * index / sectorSize < count)
    (htorn : ¬ (entrySize * index + wordSize) / sectorSize < count) :
    ((image.putAll fresh).putAll (table.take count)).Consistent sectors ↔
      (image.table directory).table[index].sector.toNat = freeMapSector ∧
        (isDirectory = true →
          image.Contained ((image.putAll fresh).putAll (table.take count)) (index :: parent)) := by
  have hsame := untouched_fresh hcreated h
  have hparent := parent_fresh hcreated h hadmits
  have hlink := linking_table hcreated h hadmits count
  have honly := hlink.onlyEntry (sound_fresh hcreated h) hparent
  have hunmoved := unmoved_linked hcreated h hadmits hlink
  have hmap : ((image.putAll fresh).putAll (table.take count)).freeMap sectors =
      image.freeMap sectors := by
    rw [hcreated.relinks.freeMap_table (sound_fresh hcreated h) hparent, hsame.freeMap h]
  have hself : ((image.putAll fresh).putAll (table.take count)).targetAt (index :: parent) =
      some ⟨(image.table directory).table[index].sector.toNat, isDirectory⟩ := by
    rw [targetAt_cons_of_directory (honly.targetAt_parent (sound_fresh hcreated h) hparent),
      child?_during hcreated h hadmits, if_pos hentered, if_neg htorn]
  have htarget (other : Place) (hother : ¬ index :: parent <:+ other) :
      ((image.putAll fresh).putAll (table.take count)).targetAt other = image.targetAt other := by
    rw [honly.targetAt (sound_fresh hcreated h) hparent hother, hsame.targetAt h.toSound]
  constructor
  · intro hconsistent
    have hcontained := hconsistent.contained h htarget hunmoved hmap hadmits.targetAt_self
    have howned := hcontained.owned [] _ hself _ (mem_extent_self _ _)
    exact ⟨hapart.resolve_right (not_not_intro howned), fun _ ↦ hcontained⟩
  · rintro ⟨hzero, hdirectory⟩
    refine Contained.consistent h htarget hunmoved hmap ?_
    cases hkind : isDirectory with
    | true => exact hdirectory hkind
    | false =>
      rw [hzero, hkind] at hself
      refine ⟨fun below target htarget member hmember ↦ ?_,
        fun below other target met hne htarget hmet ↦ absurd
          ((eq_nil_of_targetAt_file hself htarget).trans (eq_nil_of_targetAt_file hself hmet).symm)
          hne⟩
      obtain rfl := eq_nil_of_targetAt_file hself htarget
      obtain rfl := Option.some.inj (hself.symm.trans htarget)
      exact .inl ⟨freeMapSector, rfl, extent_congr (hunmoved .map _ image.headOf_map) ▸ hmember⟩

section Cut

variable (hsize : isDirectory = true → size = directorySize)

include hsize

/-- While the table is being written, the map is as it was. -/
theorem consistent_table_iff
    (hapart : (image.table directory).table[index].sector.toNat = freeMapSector ∨
      ¬ image.OwnsRoot (image.table directory).table[index].sector.toNat) {count : Nat}
    (hcount : count ≤ table.length) :
    ((image.putAll fresh).putAll (table.take count)).Consistent sectors ↔
      ¬ image.Exposed ((image.putAll fresh).putAll (table.take count)) sectors size isDirectory
        parent directory index height (fresh.length + count) := by
  have hfresh : fresh.length = treeWrites size height isDirectory := hcreated.length_fresh
  have htable := hcreated.relinks.length_table
  have hlink := linking_table hcreated h hadmits count
  have hmap : ((image.putAll fresh).putAll (table.take count)).freeMap sectors =
      image.freeMap sectors := by
    rw [hcreated.relinks.freeMap_table (sound_fresh hcreated h) (parent_fresh hcreated h hadmits),
      (untouched_fresh hcreated h).freeMap h]
  have hchild := child?_during hcreated h hadmits count
  have hself := sector_mem_claimed hcreated
  have hunmarked : ∃ member ∈ image.claimed sectors size height, fresh.length + count ≤
      treeWrites size height isDirectory + 10 + member / 8 / sectorSize := by
    have hlimit : fresh.length + count ≤ treeWrites size height isDirectory + 10 := by omega
    exact ⟨sector, hself, hlimit.trans (Nat.le_add_right _ _)⟩
  by_cases hentered : entrySize * index / sectorSize < count
  · rw [if_pos hentered] at hchild
    by_cases hnumber : (entrySize * index + wordSize) / sectorSize < count
    · rw [if_pos hnumber] at hchild
      refine iff_of_false (fun hconsistent ↦ ?_) (not_not_intro ⟨by omega, hunmarked,
        fun htorn ↦ by omega⟩)
      have hmarked := (consistent_iff_marked hcreated h hadmits hsize hlink hchild
        (fun _ hused ↦ by rw [hmap, hused]) fun _ hused ↦ .inl (by rw [← hmap, hused])).mp
        hconsistent sector hself
      rw [hmap, not_isUsed_of_mem_claimed hself] at hmarked
      contradiction
    · rw [consistent_iff_torn hcreated h hadmits hapart hentered hnumber]
      constructor
      · exact fun hharmless hexposed ↦ hexposed.torn (by omega) hharmless
      · intro hnot
        by_contra hharmful
        exact hnot ⟨by omega, hunmarked, fun _ ↦ hharmful⟩
  · rw [if_neg hentered] at hchild
    exact iff_of_true (sound_before hcreated h hadmits hlink hchild fun sector ↦ by
      rw [hmap]).consistent fun hexposed ↦ by
        have hentered := hexposed.entered
        omega

/-- While the map is being written, the entry leads to the new file. -/
theorem consistent_map_iff (count : Nat) :
    (((image.putAll fresh).putAll table).putAll (map.take count)).Consistent sectors ↔
      ¬ image.Exposed (((image.putAll fresh).putAll table).putAll (map.take count)) sectors size
        isDirectory parent directory index height (fresh.length + (table.length + count)) := by
  have hfresh : fresh.length = treeWrites size height isDirectory := hcreated.length_fresh
  have htable := hcreated.relinks.length_table
  have hused := isUsed_during hcreated h hadmits count
  have hposition : entrySize * index.val + wordSize < 10 * sectorSize := by
    have hindex := index.isLt
    simp only [entrySize, wordSize, nameField, nameLimit, sectorSize, entryCount] at *
    omega
  rw [consistent_iff_marked hcreated h hadmits hsize (linking_map hcreated h hadmits count)
    (child?_after hcreated h hadmits count)
    (fun member hmember ↦ by
      rw [hused, hmember]
      split <;> rfl)
    fun member hmember ↦ by
      rw [hused] at hmember
      split at hmember
      · rwa [Bool.or_eq_true, decide_eq_true_iff] at hmember
      · exact .inl hmember]
  constructor
  · rintro hmarked ⟨-, ⟨member, hmember, hlate⟩, -⟩
    have hbit := hmarked member hmember
    rw [hused, if_neg (by omega), not_isUsed_of_mem_claimed hmember] at hbit
    contradiction
  · intro hnot member hmember
    rw [hused]
    by_cases hdone : member / 8 / sectorSize < count
    · rw [if_pos hdone, decide_eq_true hmember, Bool.or_true]
    · refine absurd ⟨?_, ⟨member, hmember, by omega⟩, fun htorn ↦ ?_⟩ hnot
      · simp only [sectorSize] at *
        omega
      · simp only [sectorSize] at *
        omega

/-- A creation that is cut short leaves a consistent image, unless the cut is a harmful one. -/
theorem consistent_cut_iff
    (hapart : (image.table directory).table[index].sector.toNat = freeMapSector ∨
      ¬ image.OwnsRoot (image.table directory).table[index].sector.toNat) (limit : Nat) :
    (image.putAll ((fresh ++ (table ++ map)).take limit)).Consistent sectors ↔
      ¬ image.Exposed (image.putAll ((fresh ++ (table ++ map)).take limit)) sectors size isDirectory
        parent directory index height limit := by
  have hfresh : fresh.length = treeWrites size height isDirectory := hcreated.length_fresh
  by_cases htree : limit ≤ fresh.length
  · -- The new tree is on sectors that nobody owns.
    rw [List.take_append_of_le_length htree]
    exact iff_of_true ((hcreated.untouched h limit).sound h).consistent fun hexposed ↦
      absurd hexposed.entered (Nat.not_lt_of_le (htree.trans (hfresh ▸ Nat.le_add_right _ _)))
  · obtain ⟨count, rfl⟩ : ∃ count, limit = fresh.length + count := ⟨limit - fresh.length, by omega⟩
    rw [List.take_length_add_append, putAll_append]
    by_cases hentry : count ≤ table.length
    · rw [List.take_append_of_le_length hentry]
      exact consistent_table_iff hcreated h hadmits hsize hapart hentry
    · obtain ⟨done, rfl⟩ : ∃ done, count = table.length + done := ⟨count - table.length, by omega⟩
      rw [List.take_length_add_append, putAll_append]
      exact consistent_map_iff hcreated h hadmits hsize done

end Cut

end Created

end Image

end SectorFS
