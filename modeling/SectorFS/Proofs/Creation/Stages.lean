import SectorFS.Proofs.Creation

/-!
# The stages of a creation

While a creation writes, the image goes through three stages. The new tree is written where
nobody owns a sector, so nothing is seen of it. Then one entry of the parent's table and
some bits of the map change, and no other content; as long as the entry is not in use the
places are the old ones, and from the sector on that brings it into use there is one more.
Only when the map marks every claimed sector as well is the image sound again.
-/

namespace SectorFS.Image

open SectorFS.Geometry

variable {image base changed : Image} {sectors directory : Nat} {index : Fin entryCount}

/-! ## The images on the way -/

namespace Created

variable {name : String} {size sector : Nat} {isDirectory : Bool} {height : Fin maxLevel}
  {node : Node} {fresh table map : List Write} {parent : Place} {path : Path}

/-- The stage at which the new tree is being written. -/
theorem untouched (hcreated : image.Created sectors directory index name size isDirectory height
      sector node fresh table map) (h : image.Sound sectors) (count : Nat) :
    Sound.Untouched image (image.putAll (fresh.take count)) :=
  h.untouched_of_free fun write hwrite ↦
    List.mem_of_mem_take (hcreated.fresh_claimed write (List.mem_of_mem_take hwrite))

theorem lt_of_mem_claimed {member : Nat} (h : member ∈ image.claimed sectors size height) :
    member < sectors := by
  have hlt := FreeMap.lt_of_mem_take_free member h
  rwa [Sound.sectors_freeMap] at hlt

theorem isUsed_markAll (image : Image) (sectors size : Nat) (height : Fin maxLevel) (member : Nat) :
    ((image.freeMap sectors).markAll (image.claimed sectors size height)).isUsed member =
      ((image.freeMap sectors).isUsed member ||
        decide (member ∈ image.claimed sectors size height)) := by
  apply FreeMap.isUsed_markAll
  intro entry hentry
  rw [Sound.sectors_freeMap]
  exact lt_of_mem_claimed hentry

theorem final_eq (image : Image) (fresh table map : List Write) :
    image.putAll (fresh ++ (table ++ map)) =
      ((image.putAll fresh).putAll table).putAll (map.take map.length) := by
  rw [putAll_append, putAll_append, List.take_length]

section Stages

variable (hcreated : image.Created sectors directory index name size isDirectory height sector node
  fresh table map) (h : image.Sound sectors)
  (hadmits : image.Admits sectors path size parent directory name index height)

include hcreated h

theorem untouched_fresh : Sound.Untouched image (image.putAll fresh) := by
  have hsame := hcreated.untouched h fresh.length
  rwa [List.take_length] at hsame

theorem sound_fresh : (image.putAll fresh).Sound sectors := (untouched_fresh hcreated h).sound h

/-- The new entry leads to the new file. -/
theorem child?_of_entry (hentry : (changed.table directory).table[index] =
    .ofName name sector isDirectory) :
    changed.child? directory index = some ⟨sector, isDirectory⟩ := by
  have hlt := hcreated.intact.self_lt.trans h.sectors_lt
  have hsector : (UInt32.ofNat sector).toNat = sector := UInt32.toNat_ofNat_of_lt' hlt
  have huse : (Entry.ofName name sector isDirectory).inUse = true := rfl
  have hkind : (Entry.ofName name sector isDirectory).isDirectory = isDirectory := by
    cases isDirectory <;> rfl
  rw [child?, hentry, if_pos huse, hkind, Entry.ofName, hsector]

theorem not_owned {member : Nat} (hmember : member ∈ image.claimed sectors size height)
    (owner : Owner) : ¬ (image.putAll fresh).Owns owner member := by
  have hsame := untouched_fresh hcreated h
  rw [Sound.owns_of_unmoved (hsame.targetAt h) hsame.unmoved]
  exact h.not_owns_of_mem_free (List.mem_of_mem_take hmember) owner

include hadmits

theorem parent_fresh : (image.putAll fresh).targetAt parent = some ⟨directory, true⟩ :=
  ((untouched_fresh hcreated h).targetAt h parent).trans hadmits.place_eq

theorem table_fresh : (image.putAll fresh).table directory = image.table directory :=
  (untouched_fresh hcreated h).table h hadmits.place_eq

/-- The stage at which the table of the parent directory is being written. -/
theorem linking_table (count : Nat) :
    (image.putAll fresh).Linking ((image.putAll fresh).putAll (table.take count)) directory index :=
  hcreated.relinks.linking_table (sound_fresh hcreated h) (parent_fresh hcreated h hadmits) count

/-- The stage at which the map is being written. -/
theorem linking_map (count : Nat) :
    (image.putAll fresh).Linking (((image.putAll fresh).putAll table).putAll (map.take count))
      directory index :=
  hcreated.relinks.linking_map (sound_fresh hcreated h) (parent_fresh hcreated h hadmits) count

theorem table_kept (count : Nat) :
    (((image.putAll fresh).putAll table).putAll (map.take count)).table directory =
      (image.table directory).update index (.ofName name sector isDirectory) :=
  hcreated.relinks.table_kept (sound_fresh hcreated h) (parent_fresh hcreated h hadmits) count

/-! ## The places on the way -/

theorem child?_before : (image.putAll fresh).child? directory index = none := by
  rw [child?, table_fresh hcreated h hadmits,
    if_neg (by rw [Directory.not_inUse_of_freeIndex? hadmits.vacant]; exact Bool.false_ne_true)]

variable (hlink : (image.putAll fresh).Linking changed directory index)

include hlink

/-- No file moves on the way. -/
theorem unmoved_linked : Sound.Unmoved image changed := by
  intro owner head howner member hmember
  have hsame := untouched_fresh hcreated h
  have hhead : (image.putAll fresh).headOf owner = some head := by
    rw [← howner]
    cases owner with
    | map => rfl
    | item place => rw [headOf, headOf, hsame.targetAt h]
  have hspine := hsame.unmoved owner head howner
  rw [hlink.unmoved (sound_fresh hcreated h) (parent_fresh hcreated h hadmits) owner head hhead member
    (spine_congr hspine ▸ hmember), hspine member hmember]

/-- The new file stays as it was written. -/
theorem new_kept : ∀ member ∈ (image.putAll fresh).extent sector,
    changed member = (image.putAll fresh) member := by
  rw [hcreated.extent_eq]
  exact fun member hmember ↦ hlink.kept_of_unowned (parent_fresh hcreated h hadmits)
    (not_owned hcreated h hmember)

theorem new_spine : ∀ member ∈ (image.putAll fresh).spine sector,
    changed member = (image.putAll fresh) member := fun member hmember ↦
  new_kept hcreated h hadmits hlink member (mem_extent_iff.mpr (.inl hmember))

theorem new_extent : changed.extent sector = image.claimed sectors size height := by
  rw [extent_congr (new_spine hcreated h hadmits hlink), hcreated.extent_eq]

theorem new_content : changed.content sector = (image.putAll fresh).content sector :=
  content_congr hcreated.intact (new_kept hcreated h hadmits hlink)

theorem child?_new (hdirectory : isDirectory = true) (other : Fin entryCount) :
    changed.child? sector other = none := by
  refine child?_of_empty ?_ other
  rw [table_congr (new_content hcreated h hadmits hlink), hcreated.empty hdirectory]

/-- Until the entry comes into use the places are the old ones. -/
theorem targetAt_before (hentry : changed.child? directory index = none) (place : Place) :
    changed.targetAt place = image.targetAt place := by
  have hbefore := child?_before hcreated h hadmits
  have hsame : ∀ above sector other, (image.putAll fresh).targetAt above = some ⟨sector, true⟩ →
      changed.child? sector other = (image.putAll fresh).child? sector other := by
    intro above sector other habove
    by_cases heq : sector = directory ∧ other = index
    · rw [heq.1, heq.2, hentry, hbefore]
    · exact hlink.onlyEntry (sound_fresh hcreated h) (parent_fresh hcreated h hadmits)
        above sector other habove heq
  rw [← (untouched_fresh hcreated h).targetAt h]
  induction place with
  | nil => rfl
  | cons other place ih =>
    rw [targetAt, targetAt, ih]
    split
    · rename_i sector htarget
      exact hsame place sector other htarget
    · rfl

/-- Once the entry is in use there is one more place. -/
theorem targetAt_after (hentry : changed.child? directory index = some ⟨sector, isDirectory⟩)
    (place : Place) :
    changed.targetAt place =
      if place = index :: parent then some ⟨sector, isDirectory⟩ else image.targetAt place := by
  rw [← (untouched_fresh hcreated h).targetAt h]
  exact (hlink.onlyEntry (sound_fresh hcreated h)
    (parent_fresh hcreated h hadmits)).targetAt_of_entered (sound_fresh hcreated h)
    (parent_fresh hcreated h hadmits) (child?_before hcreated h hadmits) hentry
    (fun hdirectory other ↦ child?_new hcreated h hadmits hlink hdirectory other) place

theorem sound_before (hentry : changed.child? directory index = none)
    (hmap : ∀ sector, (changed.freeMap sectors).isUsed sector =
      (image.freeMap sectors).isUsed sector) : changed.Sound sectors := by
  have hsame := untouched_fresh hcreated h
  refine (sound_fresh hcreated h).sound_of_unmoved (fun place ↦ ?_)
    (hlink.unmoved (sound_fresh hcreated h) (parent_fresh hcreated h hadmits))
    fun sector ↦ ?_
  · rw [targetAt_before hcreated h hadmits hlink hentry, hsame.targetAt h]
  · rw [hmap, hsame.freeMap h]

theorem sound_after (hsize : isDirectory = true → size = directorySize)
    (hentry : changed.child? directory index = some ⟨sector, isDirectory⟩)
    (hmap : ∀ member, (changed.freeMap sectors).isUsed member = true ↔
      (image.freeMap sectors).isUsed member = true ∨ member ∈ image.claimed sectors size height) :
    changed.Sound sectors := by
  have hsame := untouched_fresh hcreated h
  refine @Sound.grow _ changed sectors (index :: parent) ⟨sector, isDirectory⟩ node ?_
    (fun other ↦ ?_) (sound_fresh hcreated h)
    (hlink.unmoved (sound_fresh hcreated h) (parent_fresh hcreated h hadmits))
    (hcreated.intact.congr (new_spine hcreated h hadmits hlink)) (fun hdirectory ↦ ?_) ?_
    fun member ↦ ?_
  · rw [targetAt_cons_of_directory (parent_fresh hcreated h hadmits),
      child?_before hcreated h hadmits]
  · rw [targetAt_after hcreated h hadmits hlink hentry, hsame.targetAt h]
  · rw [size_congr (new_spine hcreated h hadmits hlink), hcreated.size_eq, hsize hdirectory]
  · rw [new_extent hcreated h hadmits hlink]
    exact fun member hmember owner ↦ not_owned hcreated h hmember owner
  · rw [hmap, new_extent hcreated h hadmits hlink, hsame.freeMap h]

omit hlink

/-! ## The end -/

theorem child?_after (count : Nat) :
    (((image.putAll fresh).putAll table).putAll (map.take count)).child? directory index =
      some ⟨sector, isDirectory⟩ := by
  refine child?_of_entry hcreated h ?_
  rw [table_kept hcreated h hadmits, Directory.table_update, if_pos rfl]

/-- The map while it is being written. -/
theorem isUsed_during (count member : Nat) :
    ((((image.putAll fresh).putAll table).putAll (map.take count)).freeMap sectors).isUsed member =
      if member / 8 / sectorSize < count then
        (image.freeMap sectors).isUsed member ||
          decide (member ∈ image.claimed sectors size height)
      else (image.freeMap sectors).isUsed member := by
  rw [hcreated.relinks.isUsed_during (sound_fresh hcreated h) (parent_fresh hcreated h hadmits) count
    member, (untouched_fresh hcreated h).freeMap h, isUsed_markAll]

theorem freeMap_final : (image.putAll (fresh ++ (table ++ map))).freeMap sectors =
    (image.freeMap sectors).markAll (image.claimed sectors size height) := by
  rw [final_eq, List.take_length]
  exact hcreated.relinks.freeMap_done (sound_fresh hcreated h) (parent_fresh hcreated h hadmits)

/-- A creation marks what it claims and clears no bit. -/
theorem isUsed_final (member : Nat) :
    ((image.putAll (fresh ++ (table ++ map))).freeMap sectors).isUsed member =
      ((image.freeMap sectors).isUsed member ||
        decide (member ∈ image.claimed sectors size height)) := by
  rw [freeMap_final hcreated h hadmits, isUsed_markAll]

theorem table_final : (image.putAll (fresh ++ (table ++ map))).table directory =
    (image.table directory).update index (.ofName name sector isDirectory) := by
  rw [final_eq]
  exact table_kept hcreated h hadmits map.length

/-- A new directory has no entries. -/
theorem table_new (hdirectory : isDirectory = true) :
    (image.putAll (fresh ++ (table ++ map))).table sector = Directory.empty := by
  have hcontent := new_content hcreated h hadmits (linking_map hcreated h hadmits map.length)
  rw [final_eq, table_congr hcontent, hcreated.empty hdirectory]

/-- After a creation there is one more place, and it leads to the new file. -/
theorem targetAt_final (place : Place) :
    (image.putAll (fresh ++ (table ++ map))).targetAt place =
      if place = index :: parent then some ⟨sector, isDirectory⟩ else image.targetAt place := by
  rw [final_eq]
  exact targetAt_after hcreated h hadmits (linking_map hcreated h hadmits map.length)
    (child?_after hcreated h hadmits map.length) place

/-- The nodes of the new file stay as they were written. -/
theorem new_spine_final : ∀ member ∈ (image.putAll fresh).spine sector,
    image.putAll (fresh ++ (table ++ map)) member = (image.putAll fresh) member := by
  rw [final_eq]
  exact new_spine hcreated h hadmits (linking_map hcreated h hadmits map.length)

/-- A creation moves no file. -/
theorem unmoved_final : Sound.Unmoved image (image.putAll (fresh ++ (table ++ map))) := by
  rw [final_eq]
  exact unmoved_linked hcreated h hadmits (linking_map hcreated h hadmits map.length)

/-- A creation changes the content of the parent directory only. -/
theorem content_final {place : Place} {target : Target} (hplace : image.targetAt place = some target)
    (hne : place ≠ parent) :
    (image.putAll (fresh ++ (table ++ map))).content target.sector =
      image.content target.sector := by
  have hsame := untouched_fresh hcreated h
  rw [final_eq, (linking_map hcreated h hadmits map.length).content (sound_fresh hcreated h)
    (parent_fresh hcreated h hadmits) ((hsame.targetAt h place).trans hplace) hne,
    hsame.content h (headOf_item hplace)]

/-- After a creation the new directory's table is empty, the parent directory's has one more entry,
and the others are the old ones. -/
theorem table_cases {place : Place} {found : Nat}
    (hplace : (image.putAll (fresh ++ (table ++ map))).targetAt place = some ⟨found, true⟩) :
    (image.putAll (fresh ++ (table ++ map))).table found = Directory.empty ∨
      image.targetAt place = some ⟨found, true⟩ ∧
        ((image.putAll (fresh ++ (table ++ map))).table found = image.table found ∨
          found = directory ∧ (image.putAll (fresh ++ (table ++ map))).table found =
            (image.table found).update index (.ofName name sector isDirectory)) := by
  rw [targetAt_final hcreated h hadmits] at hplace
  split at hplace
  · obtain ⟨rfl, hdirectory⟩ := Target.mk.inj (Option.some.inj hplace)
    exact .inl (table_new hcreated h hadmits hdirectory)
  · refine .inr ⟨hplace, ?_⟩
    by_cases hparent : place = parent
    · rw [hparent, hadmits.place_eq] at hplace
      obtain ⟨rfl, -⟩ := Target.mk.inj (Option.some.inj hplace)
      exact .inr ⟨rfl, table_final hcreated h hadmits⟩
    · exact .inl (table_congr (content_final hcreated h hadmits hplace hparent))

theorem sound_final (hsize : isDirectory = true → size = directorySize) :
    (image.putAll (fresh ++ (table ++ map))).Sound sectors := by
  have hused := isUsed_final hcreated h hadmits
  rw [final_eq] at hused ⊢
  refine sound_after hcreated h hadmits (linking_map hcreated h hadmits map.length) hsize
    (child?_after hcreated h hadmits map.length) fun member ↦ ?_
  rw [hused]
  simp

omit h in
/-- Everything that a creation leaves marked belongs to somebody, if it did before. -/
theorem exact_final (hsize : isDirectory = true → size = directorySize)
    (h : image.Exact sectors) : (image.putAll (fresh ++ (table ++ map))).Exact sectors := by
  refine ⟨sound_final hcreated h hadmits hsize, fun member hused ↦ ?_⟩
  have hplace := targetAt_final hcreated h hadmits
  have hspine := unmoved_final hcreated h hadmits
  rw [isUsed_final hcreated h hadmits, Bool.or_eq_true, decide_eq_true_iff] at hused
  rcases hused with hold | hnew
  · obtain ⟨owner, head, howner, hmember⟩ := h.owned member hold
    refine ⟨owner, head, ?_, extent_congr (hspine owner head howner) ▸ hmember⟩
    cases owner with
    | map => exact howner
    | item place =>
      obtain ⟨target, htarget, rfl⟩ := Option.map_eq_some_iff.mp howner
      refine headOf_item ((hplace place).trans ?_)
      rw [if_neg, htarget]
      rintro rfl
      rw [hadmits.targetAt_self] at htarget
      contradiction
  · refine ⟨.item (index :: parent), sector, headOf_item ((hplace _).trans (if_pos rfl)), ?_⟩
    rw [final_eq, new_extent hcreated h hadmits (linking_map hcreated h hadmits map.length)]
    exact hnew

end Stages

end Created

end SectorFS.Image
