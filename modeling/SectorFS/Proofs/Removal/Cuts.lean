import SectorFS.Proofs.Removal.Effect

/-!
# Removals that are cut short

A removal writes the table of the parent directory and then the map. In the table one word
changes, the one that says whether the entry is in use, and an entry never starts so near to
the end of a sector that this word is cut. So the disk holds the whole tree until the sector
of that word is written, and the tree without the entry from then on. The map is written
behind it and gives up sectors of the removed tree only, which nobody owns any more. What a
cut can leave behind is marks without an owner.
-/

namespace SectorFS

open SectorFS.Geometry

/-! ## Equal trees -/

/-- Every place leads to the same file or directory in both images, with the same root node and the
same content. The names and numbers in the entries are the content of the directories. -/
structure Image.SameTree (image other : Image) : Prop where
  targetAt_eq : ∀ place, other.targetAt place = image.targetAt place
  node?_eq : ∀ place target, image.targetAt place = some target →
    other.node? target.sector = image.node? target.sector
  content_eq : ∀ place target, image.targetAt place = some target →
    other.content target.sector = image.content target.sector

theorem Image.SameTree.refl (image : Image) : image.SameTree image :=
  ⟨fun _ ↦ rfl, fun _ _ _ ↦ rfl, fun _ _ _ ↦ rfl⟩

/-- Texts are followed alike in images with the same tree. -/
theorem Image.SameTree.locate_eq {image other : Image} (h : image.SameTree other) (text : String) :
    other.locate text = image.locate text :=
  locate_congr (fun place sector hplace ↦
    table_congr (h.content_eq place ⟨sector, true⟩ hplace)) text

/-! ## The entry on the way -/

/-- While a table is written to free an entry, the entry is the old one or the freed one, because
the word in which they differ lies in one sector. -/
theorem Image.Splices.entry_freed {image : Image} {sectors sector : Nat} {node : Node}
    {directory : Directory} {writes : List Write}
    (h : image.Splices sector 0 directorySize 0 directory.toBytes writes)
    (hintact : image.Intact sectors sector node) (hsize : image.size sector = directorySize)
    (count : Nat) {index : Fin entryCount}
    (hfreed : directory.table[index] = (image.table sector).table[index].freed) :
    ((image.putAll (writes.take count)).table sector).table[index] =
      if entrySize * index / sectorSize < count then (image.table sector).table[index].freed
      else (image.table sector).table[index] := by
  rw [Image.entry_eq]
  refine Entry.ofStored_storedByte fun place hplace ↦ ?_
  rw [h.byteAt_table hintact hsize count index hplace, hfreed]
  by_cases husage : place < 2
  · have hsame : (entrySize * index + place) / sectorSize = entrySize * index / sectorSize := by
      simp only [entrySize, wordSize, nameField, nameLimit, sectorSize]
      omega
    rw [hsame]
    split <;> rfl
  · have hkept : (image.table sector).table[index].freed.storedByte place =
        (image.table sector).table[index].storedByte place := by
      rw [Entry.storedByte, Entry.storedByte, if_neg husage, if_neg husage]
      rfl
    rw [hkept, ite_self]
    split
    · exact hkept.symm
    · rfl

namespace Image

variable {image first second : Image} {sectors directory : Nat} {index : Fin entryCount}
  {parent : Place}

theorem Linking.refl (image : Image) (directory : Nat) (index : Fin entryCount) :
    image.Linking image directory index := ⟨fun _ _ _ ↦ rfl, fun _ _ ↦ rfl⟩

/-- Two stages have the same tree if the table is the same and nothing is there that was not there
before. -/
theorem Linking.sameTree (hfirst : image.Linking first directory index)
    (hsecond : image.Linking second directory index) (h : image.Sound sectors)
    (hparent : image.targetAt parent = some ⟨directory, true⟩)
    (hold : ∀ place target, first.targetAt place = some target →
      image.targetAt place = some target)
    (htable : second.table directory = first.table directory) : first.SameTree second := by
  have hcontent (place : Place) (target : Target) (hplace : first.targetAt place = some target) :
      second.content target.sector = first.content target.sector := by
    have hbefore := hold place target hplace
    by_cases hsame : place = parent
    · rw [hsame, hparent] at hbefore
      obtain rfl := Option.some.inj hbefore
      have hsize (stage : Image) (hstage : image.Linking stage directory index) :
          stage.size directory = directorySize := by
        have hspine := hstage.unmoved h hparent _ _ (headOf_item hparent)
        rw [size_congr hspine, h.size_directory parent directory hparent]
      rw [content_eq_toBytes (hsize second hsecond), content_eq_toBytes (hsize first hfirst),
        htable]
    · rw [hsecond.content h hparent hbefore hsame, hfirst.content h hparent hbefore hsame]
  refine ⟨targetAt_congr fun place sector hplace ↦
    table_congr (hcontent place ⟨sector, true⟩ hplace), fun place target hplace ↦ ?_, hcontent⟩
  have hhead := headOf_item (hold place target hplace)
  calc second.node? target.sector = image.node? target.sector :=
        node?_of_spine (hsecond.unmoved h hparent _ _ hhead)
    _ = first.node? target.sector :=
        (node?_of_spine (hfirst.unmoved h hparent _ _ hhead)).symm

/-! ## Every cut -/

namespace Removed

variable {target : Target} {table map : List Write} {path : Path} {name : String}
  (hremoved : image.Removed sectors directory index target table map) (h : image.Sound sectors)
  (hnames : image.Names path parent directory name index target) (limit : Nat)

include hremoved h hnames

/-- The table is the old one until the sector is written in which the entry starts. -/
theorem table_stage (count : Nat) :
    (image.putAll (table.take count)).table directory =
      if entrySize * index / sectorSize < count then (image.table directory).free index
      else image.table directory := by
  obtain ⟨upper, hupper⟩ := h.intact_item hnames.place_eq
  have hsize := h.size_directory parent directory hnames.place_eq
  have hfreed : ((image.table directory).free index).table[index] =
      (image.table directory).table[index].freed := by
    rw [Directory.free, Directory.table_update, if_pos rfl]
  have hindex := hremoved.table_splices.entry_freed hupper hsize count hfreed
  have hentry (other : Fin entryCount) :
      ((image.putAll (table.take count)).table directory).table[other] =
        (if entrySize * index / sectorSize < count then (image.table directory).free index
          else image.table directory).table[other] := by
    by_cases hother : other = index
    · subst hother
      rw [hindex]
      split
      · exact hfreed.symm
      · rfl
    · rw [(Relinks.linking_table hremoved h hnames.place_eq count).entries other hother]
      split
      · rw [Directory.free, Directory.table_update, if_neg hother]
      · rfl
  generalize (image.putAll (table.take count)).table directory = stage at hentry
  generalize (if entrySize * index / sectorSize < count then (image.table directory).free index
    else image.table directory) = expected at hentry
  obtain ⟨entries⟩ := stage
  obtain ⟨others⟩ := expected
  congr 1
  apply Vector.ext
  intro other hother
  exact hentry ⟨other, hother⟩

theorem linking_cut :
    image.Linking (image.putAll ((table ++ map).take limit)) directory index := by
  rw [List.take_append, putAll_append]
  by_cases hlimit : limit ≤ table.length
  · rw [Nat.sub_eq_zero_of_le hlimit]
    exact Relinks.linking_table hremoved h hnames.place_eq limit
  · rw [List.take_of_length_le (Nat.le_of_not_le hlimit)]
    exact Relinks.linking_map hremoved h hnames.place_eq (limit - table.length)

/-- After a cut the table is the old one or the one without the entry. -/
theorem table_cut :
    (image.putAll ((table ++ map).take limit)).table directory =
      if entrySize * index / sectorSize < limit then (image.table directory).free index
      else image.table directory := by
  have hlength := hremoved.length_table
  rw [List.take_append, putAll_append]
  by_cases hlimit : limit ≤ table.length
  · rw [Nat.sub_eq_zero_of_le hlimit]
    exact table_stage hremoved h hnames limit
  · have hposition : entrySize * index.val / sectorSize < limit := by
      have hindex := index.isLt
      simp only [entrySize, wordSize, nameField, nameLimit, sectorSize, entryCount] at *
      omega
    rw [List.take_of_length_le (Nat.le_of_not_le hlimit), if_pos hposition]
    exact Relinks.table_kept hremoved h hnames.place_eq (limit - table.length)

/-- After a cut a sector of the removed tree is marked until the sector of its bit is written. -/
theorem isUsed_cut (member : Nat) :
    ((image.putAll ((table ++ map).take limit)).freeMap sectors).isUsed member =
      ((image.freeMap sectors).isUsed member &&
        !(decide (member ∈ image.treeSectors (sectors + 3) target) &&
          decide (10 + member / 8 / sectorSize < limit))) := by
  have hlength := hremoved.length_table
  have htree : sectors < (index :: parent).length + (sectors + 3) := by omega
  rw [List.take_append, putAll_append]
  by_cases hlimit : limit ≤ table.length
  · have hlate : ¬ 10 + member / 8 / sectorSize < limit := by
      have hbit := Nat.le_add_right 10 (member / 8 / sectorSize)
      omega
    rw [Nat.sub_eq_zero_of_le hlimit, List.take_zero, putAll_nil,
      Relinks.freeMap_table hremoved h hnames.place_eq, decide_eq_false hlate, Bool.and_false,
      Bool.not_false, Bool.and_true]
  · have hiff : member / 8 / sectorSize < limit - table.length ↔
        10 + member / 8 / sectorSize < limit := by omega
    rw [List.take_of_length_le (Nat.le_of_not_le hlimit),
      Relinks.isUsed_during hremoved h hnames.place_eq, FreeMap.isUsed_clearAll]
    · simp only [hiff]
      split
      · rename_i hdone
        rw [decide_eq_true hdone, Bool.and_true]
      · rename_i hlate
        rw [decide_eq_false hlate, Bool.and_false, Bool.not_false, Bool.and_true]
    · rw [Sound.sectors_freeMap]
      exact treeSectors_lt h hnames.target_eq htree

/-- What was marked is marked after a cut, unless the whole removal clears it and its bit was
reached. -/
theorem isUsed_cut_iff {member : Nat} (hused : (image.freeMap sectors).isUsed member = true) :
    ((image.putAll ((table ++ map).take limit)).freeMap sectors).isUsed member = true ↔
      (((image.putAll (table ++ map)).freeMap sectors).isUsed member = false →
        limit ≤ 10 + member / 8 / sectorSize) := by
  rw [isUsed_cut hremoved h hnames, isUsed_final hremoved h hnames, hused]
  by_cases hmember : member ∈ image.treeSectors (sectors + 3) target
  · simp [hmember]
  · simp [hmember]

theorem child?_cut (hentered : entrySize * index / sectorSize < limit) :
    (image.putAll ((table ++ map).take limit)).child? directory index = none := by
  have hentry : ((image.putAll ((table ++ map).take limit)).table directory).table[index] =
      (image.table directory).table[index].freed := by
    rw [table_cut hremoved h hnames, if_pos hentered, Directory.free, Directory.table_update,
      if_pos rfl]
  exact child?_of_freed hentry

/-- Before the sector is written in which the entry starts, the tree is the one that was there. -/
theorem sameTree_before (hbefore : ¬ entrySize * index / sectorSize < limit) :
    image.SameTree (image.putAll ((table ++ map).take limit)) := by
  refine (Linking.refl image directory index).sameTree (linking_cut hremoved h hnames limit) h
    hnames.place_eq (fun _ _ hplace ↦ hplace) ?_
  rw [table_cut hremoved h hnames limit, if_neg hbefore]

/-- Once this sector is written, the tree is the one that the whole removal leaves. -/
theorem sameTree_after (hentered : entrySize * index / sectorSize < limit) :
    (image.putAll (table ++ map)).SameTree (image.putAll ((table ++ map).take limit)) := by
  refine (linking_final hremoved h hnames).sameTree (linking_cut hremoved h hnames limit) h
    hnames.place_eq (fun place found hplace ↦ ?_) ?_
  · rw [targetAt_final hremoved h hnames] at hplace
    split at hplace
    · contradiction
    · exact hplace
  · rw [table_cut hremoved h hnames limit, if_pos hentered, table_final hremoved h hnames]

/-- A cut leaves the tree that was there, or the one that the whole removal leaves. -/
theorem sameTree_cut :
    image.SameTree (image.putAll ((table ++ map).take limit)) ∨
      (image.putAll (table ++ map)).SameTree (image.putAll ((table ++ map).take limit)) := by
  by_cases hentered : entrySize * index.val / sectorSize < limit
  · exact .inr (sameTree_after hremoved h hnames limit hentered)
  · exact .inl (sameTree_before hremoved h hnames limit hentered)

/-- A cut leaves a sound image. -/
theorem sound_cut : (image.putAll ((table ++ map).take limit)).Sound sectors := by
  have hused := isUsed_cut hremoved h hnames limit
  have hlink := linking_cut hremoved h hnames limit
  by_cases hentered : entrySize * index.val / sectorSize < limit
  · refine hlink.sound_freed h hnames (child?_cut hremoved h hnames limit hentered)
      (fun sector hmarked hout ↦ ?_) fun sector hmarked ↦ ?_
    · rw [hused, hmarked, decide_eq_false hout]
      rfl
    · rw [hused, Bool.and_eq_true] at hmarked
      exact hmarked.1
  · have htree := sameTree_before hremoved h hnames limit hentered
    refine h.sound_of_unmoved htree.targetAt_eq (hlink.unmoved h hnames.place_eq) fun sector ↦ ?_
    -- The map is not reached before the table is written to its end.
    have hlate : ¬ 10 + sector / 8 / sectorSize < limit := by
      have hindex := index.isLt
      simp only [entrySize, wordSize, nameField, nameLimit, sectorSize, entryCount] at *
      omega
    rw [hused, decide_eq_false hlate, Bool.and_false, Bool.not_false, Bool.and_true]

/-- What is at a place stays there in a cut, or the place is gone. -/
theorem targetAt_cut {place : Place} {found : Target} (hplace : image.targetAt place = some found) :
    (image.putAll ((table ++ map).take limit)).targetAt place = some found ∨
      (image.putAll ((table ++ map).take limit)).targetAt place = none := by
  by_cases hentered : entrySize * index.val / sectorSize < limit
  · rw [(linking_cut hremoved h hnames limit).targetAt_freed h hnames
      (child?_cut hremoved h hnames limit hentered)]
    split
    · exact .inr rfl
    · exact .inl hplace
  · rw [(sameTree_before hremoved h hnames limit hentered).targetAt_eq]
    exact .inl hplace

/-- After a cut every owner is one that was there before. -/
theorem owns_cut {owner : Owner} {sector : Nat}
    (howns : (image.putAll ((table ++ map).take limit)).Owns owner sector) :
    image.Owns owner sector := by
  have hlink := linking_cut hremoved h hnames limit
  by_cases hentered : entrySize * index.val / sectorSize < limit
  · exact ((hlink.owns_freed h hnames (child?_cut hremoved h hnames limit hentered) owner
      sector).mp howns).1
  · have htree := sameTree_before hremoved h hnames limit hentered
    exact (Sound.owns_of_unmoved htree.targetAt_eq (hlink.unmoved h hnames.place_eq) owner
      sector).mp howns

omit h in
/-- What a cut leaves marked belongs to somebody, or it belonged to something that is gone. -/
theorem owned_cut (h : image.Exact sectors) {sector : Nat}
    (hused : ((image.putAll ((table ++ map).take limit)).freeMap sectors).isUsed sector = true) :
    (∃ owner, (image.putAll ((table ++ map).take limit)).Owns owner sector) ∨
      ∃ place, image.Owns (.item place) sector ∧
        (image.putAll ((table ++ map).take limit)).targetAt place = none := by
  have hlink := linking_cut hremoved h hnames limit
  rw [isUsed_cut hremoved h hnames, Bool.and_eq_true] at hused
  obtain ⟨owner, howns⟩ := h.owned sector hused.1
  by_cases hentered : entrySize * index.val / sectorSize < limit
  · have hentry := child?_cut hremoved h hnames limit hentered
    by_cases hbelow : ∃ place, owner = .item place ∧ index :: parent <:+ place
    · obtain ⟨place, rfl, hplace⟩ := hbelow
      refine .inr ⟨place, howns, ?_⟩
      rw [hlink.targetAt_freed h.toSound hnames hentry, if_pos hplace]
    · refine .inl ⟨owner, (hlink.owns_freed h.toSound hnames hentry owner sector).mpr ⟨howns, ?_⟩⟩
      exact fun place howner hplace ↦ hbelow ⟨place, howner, hplace⟩
  · have htree := sameTree_before hremoved h hnames limit hentered
    exact .inl ⟨owner, (Sound.owns_of_unmoved htree.targetAt_eq
      (hlink.unmoved h.toSound hnames.place_eq) owner sector).mpr howns⟩

end Removed

end Image

end SectorFS
