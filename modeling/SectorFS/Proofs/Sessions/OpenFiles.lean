import SectorFS.Proofs.Sessions.Changes

/-!
# Open files on a sound image

A volume fits an image if it keeps the nodes of the two root files and every file in its
table is one that some place leads to. It goes on to fit while files stay where they are,
and after a removal it fits once the files without a charged root node are closed.
-/

namespace SectorFS

variable {image changed : Image} {sectors : Nat} {volume : Volume}

/-! ## Handles -/

/-- The file of a handle is intact, and the handle's position does not lie behind its end. -/
structure Image.Carries (image : Image) (sectors : Nat) (handle : Handle) : Prop where
  intact : image.Intact sectors handle.sector handle.node
  position_le : handle.position ≤ handle.length

/-- An open file is what some place leads to, at a position that does not lie behind its end. -/
structure Image.Serves (image : Image) (handle : Handle) : Prop where
  reached : ∃ place target, image.targetAt place = some target ∧ target.sector = handle.sector
  node_eq : image.node? handle.sector = some handle.node
  position_le : handle.position ≤ handle.length

theorem Image.Serves.intact {handle : Handle} (hserves : image.Serves handle)
    (h : image.Sound sectors) : image.Intact sectors handle.sector handle.node := by
  obtain ⟨place, target, hplace, hsector⟩ := hserves.reached
  obtain ⟨node, hintact⟩ := h.intact_item hplace
  rw [hsector] at hintact
  obtain rfl := Option.some.inj (hserves.node_eq.symm.trans hintact.node_eq)
  exact hintact

theorem Image.Serves.carries {handle : Handle} (hserves : image.Serves handle)
    (h : image.Sound sectors) : image.Carries sectors handle :=
  ⟨hserves.intact h, hserves.position_le⟩

/-- A handle on what a path leads to, before its first transfer. -/
structure Handle.AtStart (handle : Handle) (target : Target) : Prop where
  sector_eq : target.sector = handle.sector
  position_eq : handle.position = 0

theorem Image.Serves.seek {handle : Handle} (hserves : image.Serves handle) {position : Nat}
    (h : position ≤ handle.length) : image.Serves (handle.seek position) :=
  ⟨hserves.reached, hserves.node_eq, h⟩

namespace Volume

/-! ## The table -/

/-- The volume agrees with the image. -/
structure Fits (volume : Volume) (image : Image) : Prop where
  attached : volume.Attached image
  serves : ∀ (index : Fin maxOpenFiles) (handle : Handle), volume.table[index] = some handle →
    image.Serves handle

theorem slot?_place (volume : Volume) (index : Fin maxOpenFiles) :
    volume.slot? (index + 1) = volume.table[index].map (index, ·) := by
  have hindex := index.isLt
  have hplace : (⟨index.val + 1 - 1, by omega⟩ : Fin maxOpenFiles) = index := Fin.ext (by simp)
  have hrange : 1 ≤ index.val + 1 ∧ index.val + 1 - 1 < maxOpenFiles := by omega
  rw [slot?, dif_pos hrange]
  simp only [hplace]

theorem slot?_of_table {index : Fin maxOpenFiles} {handle : Handle}
    (h : volume.table[index] = some handle) :
    volume.slot? (index + 1) = some (index, handle) := by
  rw [slot?_place, h, Option.map_some]

theorem slot?_setSlot (volume : Volume) (index : Fin maxOpenFiles) (handle : Handle) :
    (volume.setSlot index (some handle)).slot? (index + 1) = some (index, handle) := by
  apply slot?_of_table
  rw [table_setSlot, if_pos rfl]

namespace Fits

theorem covered (hfits : volume.Fits image) (h : image.Sound sectors) : volume.Covered sectors :=
  fun index handle hslot ↦ ((hfits.serves index handle hslot).intact h).self_lt

theorem setSlot (hfits : volume.Fits image) (index : Fin maxOpenFiles) {content : Option Handle}
    (hcontent : ∀ handle, content = some handle → image.Serves handle) :
    (volume.setSlot index content).Fits image where
  attached := ⟨hfits.attached.mapFile_sector, hfits.attached.mapFile_node,
    hfits.attached.rootFile_sector, hfits.attached.rootFile_node⟩
  serves place handle hslot := by
    rw [table_setSlot] at hslot
    split at hslot
    · exact hcontent handle hslot
    · exact hfits.serves place handle hslot

/-- A volume goes on to fit while its files stay where they are. -/
theorem kept (hfits : volume.Fits image) (hunmoved : Image.Sound.Unmoved image changed)
    (hplaces : ∀ place target, image.targetAt place = some target →
      changed.targetAt place = some target) : volume.Fits changed where
  attached := hfits.attached.congr hunmoved
  serves index handle hslot := by
    obtain ⟨⟨place, target, hplace, hsector⟩, hnode, hposition⟩ := hfits.serves index handle hslot
    refine ⟨⟨place, target, hplaces place target hplace, hsector⟩, ?_, hposition⟩
    rw [← hnode, ← hsector]
    exact Image.node?_of_spine (hunmoved _ _ (Image.headOf_item hplace))

/-- After a removal the open files that are left are those whose root nodes are still charged. -/
theorem keepLive (hfits : volume.Fits image) (h : image.Sound sectors) {path : Path} {parent : Place}
    {directory : Nat} {name : String} {index : Fin entryCount} {target : Target}
    {table map : List Write} (hnames : image.Names path parent directory name index target)
    (hremoved : image.Removed sectors directory index target table map) :
    (volume.keepLive
      ((image.freeMap sectors).clearAll (image.treeSectors (sectors + 3) target))).Fits
      (image.putAll (table ++ map)) where
  attached :=
    have hattached := hfits.attached.congr (Image.Removed.unmoved_final hremoved h hnames)
    ⟨hattached.mapFile_sector, hattached.mapFile_node, hattached.rootFile_sector,
      hattached.rootFile_node⟩
  serves slot handle hslot := by
    have htable : volume.table[slot] = some handle ∧
        ((image.freeMap sectors).clearAll
          (image.treeSectors (sectors + 3) target)).isUsed handle.sector = true := by
      rwa [Volume.table_keepLive, Option.filter_eq_some_iff] at hslot
    obtain ⟨hold, hused⟩ := htable
    obtain ⟨⟨place, met, hplace, hsector⟩, hnode, hposition⟩ := hfits.serves slot handle hold
    have habove : ¬ index :: parent <:+ place := fun hbelow ↦ by
      have hlength : sectors < (index :: parent).length + (sectors + 3) := by omega
      have hself : image.Owns (.item place) handle.sector :=
        hsector ▸ Image.Sound.owns_self (Image.headOf_item hplace)
      have htree := (Image.mem_treeSectors h hnames.target_eq hlength).mpr ⟨place, hbelow, hself⟩
      rw [← Image.Removed.freeMap_final hremoved h hnames,
        Image.Removed.isUsed_final hremoved h hnames, decide_eq_true htree, Bool.not_true,
        Bool.and_false] at hused
      contradiction
    refine ⟨⟨place, met, ?_, hsector⟩, ?_, hposition⟩
    · rw [Image.Removed.targetAt_final hremoved h hnames, if_neg habove, hplace]
    · rw [← hnode, ← hsector]
      exact Image.node?_of_spine
        (Image.Removed.unmoved_final hremoved h hnames _ _ (Image.headOf_item hplace))

end Fits

/-! ## Mounting, opening, reading and writing -/

/-- Mounting reads the nodes of the two root files. -/
theorem mount_performs {mapNode rootNode : Node} (hmap : image.Intact sectors freeMapSector mapNode)
    (hroot : image.Intact sectors rootSector rootNode) (hword : sectors ≤ 2 ^ 32) :
    Performs mount image sectors
      (.ok (.withRoots ⟨freeMapSector, mapNode, 0⟩ ⟨rootSector, rootNode, 0⟩)) [] :=
  (Performs.note _ _).step ((Handle.fetch_performs hmap hword).step
    ((Handle.fetch_performs hroot hword).step (Performs.pure _)))

/-- Opening a file gives a handle at the start of what the path leads to, or fails if it leads
nowhere. -/
theorem openHandle_performs (hvolume : volume.Attached image) (h : image.Sound sectors)
    (text : String) :
    (∃ cause, image.locate text = .error cause ∧
      Performs (volume.openHandle text) image sectors (.error (.error cause)) []) ∨
      ∃ handle target, image.locate text = .ok target ∧ handle.AtStart target ∧
        image.Serves handle ∧ Performs (volume.openHandle text) image sectors (.ok handle) [] := by
  have hresolve := resolve_performs hvolume h text
  cases htarget : image.locate text with
  | error cause =>
    rw [htarget] at hresolve
    exact .inl ⟨cause, rfl, (Performs.note _ _).step (Performs.stop hresolve)⟩
  | ok target =>
    rw [htarget] at hresolve
    obtain ⟨place, hplace⟩ := Image.exists_place_of_locate htarget
    obtain ⟨node, hintact⟩ := h.intact_item hplace
    exact .inr ⟨⟨target.sector, node, 0⟩, target, rfl, ⟨rfl, rfl⟩, ⟨⟨place, target, hplace, rfl⟩,
      hintact.node_eq, Nat.zero_le _⟩, (Performs.note _ _).step (Performs.step hresolve
        (Handle.fetch_performs hintact (Nat.le_of_lt h.sectors_lt)))⟩

/-- Opening a file into the table takes the first place that is free, and fails if there is none. -/
theorem openFile_performs (hvolume : volume.Attached image) (h : image.Sound sectors)
    (text : String) :
    (∃ cause : Error, cause.IsRefusal ∧
        (image.locate text = .error cause ∨
          (∃ target, image.locate text = .ok target) ∧ cause = .tooManyOpenFiles ∧
            ∀ index : Fin maxOpenFiles, volume.table[index].isNone = false) ∧
        Performs (volume.openFile text) image sectors (.error (.error cause)) []) ∨
      ∃ handle target index, image.locate text = .ok target ∧ handle.AtStart target ∧
        image.Serves handle ∧ volume.table[index] = none ∧
        (∀ other < index, volume.table[other].isNone = false) ∧
        Performs (volume.openFile text) image sectors
          (.ok (index.val + 1, volume.setSlot index (some handle))) [] := by
  rw [openFile_eq]
  obtain ⟨cause, hlocate, hrun⟩ | ⟨handle, target, hlocate, hstart, hserves, hrun⟩ :=
    openHandle_performs hvolume h text
  · exact .inl ⟨cause, Image.isRefusal_of_locate hlocate, .inl hlocate, hrun.stop⟩
  · cases hindex : volume.table.findFinIdx? (·.isNone) with
    | none =>
      refine .inl ⟨.tooManyOpenFiles, by simp [Error.IsRefusal],
        .inr ⟨⟨target, hlocate⟩, rfl, findFinIdx?_none_iff.mp hindex⟩, hrun.step ?_⟩
      exact Performs.fail _
    | some index =>
      obtain ⟨hnone, hbefore⟩ := findFinIdx?_some_iff.mp hindex
      refine .inr ⟨handle, target, index, hlocate, hstart, hserves,
        Option.isNone_iff_eq_none.mp hnone, hbefore, hrun.step ?_⟩
      exact Performs.pure _

end Volume

/-- A write through a handle on an intact file puts the bytes over those of the file. -/
theorem Handle.writeAt_overwrites {handle : Handle}
    (hintact : image.Intact sectors handle.sector handle.node) (hword : sectors ≤ 2 ^ 32)
    (position : Nat) (data : ByteArray) :
    ∃ writes, Performs (handle.writeAt position data) image sectors
        (.ok (handle.clamp data.size position)) writes ∧
      image.Overwrites handle.sector position data writes := by
  have hclamp : handle.clamp data.size position =
      min data.size (image.size handle.sector - position) := by
    rw [Handle.clamp, Handle.length, hintact.size_eq]
  obtain ⟨writes, hrun, hsplices⟩ := Handle.writeAt_performs hintact hword position data
  refine ⟨writes, hrun, ?_⟩
  rw [Image.Overwrites, ← hclamp]
  exact hsplices

namespace Image.Carries

variable {handle : Handle}

theorem position_lt (hcarries : image.Carries sectors handle) :
    handle.position < Checked.wordLimit := by
  have hposition := hcarries.position_le
  have hlength : handle.length < 2 ^ 32 := UInt32.toNat_lt _
  simp only [Checked.wordLimit]
  omega

theorem read_performs (hcarries : image.Carries sectors handle) (hword : sectors ≤ 2 ^ 32)
    (count : Nat) :
    Performs (handle.read count) image sectors
      (.ok ((image.content handle.sector).extract handle.position
          (handle.position + handle.clamp count handle.position),
        handle.seek (handle.position + handle.clamp count handle.position))) [] := by
  have hintact := hcarries.intact
  rw [hintact.content_eq]
  exact hintact.laid.read_performs (hintact.leaf_word hword) hcarries.position_lt count

theorem write_performs (hcarries : image.Carries sectors handle) (hword : sectors ≤ 2 ^ 32)
    (data : ByteArray) :
    ∃ writes, Performs (handle.write data) image sectors
        (.ok (handle.clamp data.size handle.position,
          handle.seek (handle.position + handle.clamp data.size handle.position))) writes ∧
      image.Overwrites handle.sector handle.position data writes := by
  have hintact := hcarries.intact
  obtain ⟨writes, hrun, hpatches⟩ :=
    hintact.laid.write_performs (hintact.leaf_word hword) hcarries.position_lt data
  refine ⟨writes, hrun, ?_⟩
  rw [Image.Overwrites, hintact.size_eq]
  exact .of_patches hintact hpatches

end Image.Carries

end SectorFS
