import SectorFS.Node.Lookup
import SectorFS.Proofs.Courses
import SectorFS.Proofs.Index

/-!
# Finding a byte in a formed tree

In a formed tree every offset before the end of the file is found: the search reads one
node for each level and nothing else, and ends at the data sector whose place among the data
sectors is the number of whole sectors before the offset. An offset past the end is refused
before anything is read.
-/

namespace SectorFS.Node

open SectorFS.Geometry

variable {image : Image} {footprint : Set Nat} {sectors height size : Nat} {node : Node}

theorem fetch_course {number : Nat} (hnode : image.node? number = some node)
    (hmem : number ∈ footprint) (hword : number < 2 ^ 57) :
    Course footprint sectors (fetch number) image node [] := by
  refine (Course.readSector hmem hword).step ?_
  have hholds : ofSector? (image number) = some node := hnode
  rw [hholds]
  exact Course.pure node

theorem fetch_performs {number : Nat} (hnode : image.node? number = some node)
    (hnumber : number < sectors) (hword : number < 2 ^ 57) :
    Performs (fetch number) image sectors (.ok node) [] :=
  (fetch_course hnode (Set.mem_singleton number) hword).performs
    (fun _ hmem ↦ hmem ▸ hnumber) nofun

theorem fetch_refused {number : Nat} (hnode : image.node? number = none)
    (hnumber : number < sectors) (hword : number < 2 ^ 57) :
    Performs (fetch number) image sectors
      (.error (.error (.invalidArgument (.notANode number (storedLevel (image number)))))) [] := by
  refine (Performs.readSector hnumber hword).step ?_
  have hholds : ofSector? (image number) = none := hnode
  rw [hholds]
  exact Performs.fail _

/-- On the levels an index tree can have, the span of a slot is a word. -/
theorem span_eq_ok (node : Node) :
    Words.span node.level = .ok (capacity node.height) := by
  have hheight := node.height.isLt
  simp only [maxLevel] at hheight
  exact Words.span_eq_ok (capacity_lt_iff.mpr (by omega))

theorem slots_getElem?_eq {index : Nat} (h : index < slotCount) :
    ∃ sector, node.slots[index]? = some sector ∧ sector.toNat = node.slot index := by
  refine ⟨node.slots[index], Vector.getElem?_eq_getElem h, ?_⟩
  rw [slot, Vector.getElem?_eq_getElem h, Option.getD_some]

/-- The search follows one slot for each level of a formed tree. -/
theorem locateWithin_course {fuel offset : Nat} (hfuel : height < fuel)
    (hformed : Formed image height node size) (hsize : size ≤ capacity (height + 1))
    (hinner : ∀ sector ∈ inner image height node size, sector ∈ footprint)
    (hoffset : offset < size) :
    ∃ leaf, (leaves image height node size)[offset / sectorSize]? = some leaf ∧
      Course footprint sectors (locateWithin fuel node offset) image leaf [] := by
  induction height generalizing node size offset fuel with
  | zero =>
    obtain ⟨fuel, rfl⟩ := Nat.exists_eq_succ_of_ne_zero (by omega : fuel ≠ 0)
    have hused : offset / capacity 0 < slotsUsed size 1 := div_lt_slotsUsed hoffset
    have hslot : offset / capacity 0 < slotCount := Nat.lt_of_lt_of_le hused (slotsUsed_le hsize)
    obtain ⟨sector, hsector, hvalue⟩ := @slots_getElem?_eq node _ hslot
    refine ⟨node.slot (offset / capacity 0), ?_, ?_⟩
    · rw [leaves_zero, List.getElem?_map, List.getElem?_range (by exact hused)]
      rfl
    · rw [locateWithin, hformed.states.length_eq, if_neg (by omega), span_eq_ok,
        hformed.states.height_eq]
      refine (Course.pure _).step ?_
      rw [hsector]
      simp only [if_pos hformed.states.height_eq_zero, hvalue]
      exact Course.pure _
  | succ height ih =>
    obtain ⟨fuel, rfl⟩ := Nat.exists_eq_succ_of_ne_zero (by omega : fuel ≠ 0)
    have hused : offset / capacity (height + 1) < slotsUsed size (height + 1 + 1) :=
      div_lt_slotsUsed hoffset
    have hslot : offset / capacity (height + 1) < slotCount :=
      Nat.lt_of_lt_of_le hused (slotsUsed_le hsize)
    obtain ⟨sector, hsector, hvalue⟩ := @slots_getElem?_eq node _ hslot
    obtain ⟨child, hchild, hbelow⟩ := hformed.2 _ hused
    obtain ⟨leaf, hleaf, hrun⟩ := @ih _ _ fuel (offset % capacity (height + 1)) (by omega) hbelow
      (childSize_le _ _ _)
      (fun sector hsector ↦ hinner sector (inner_child_subset hused hchild hsector))
      (mod_lt_childSize hoffset)
    refine ⟨leaf, ?_, ?_⟩
    · rw [hformed.leaves_getElem? hoffset hchild]
      exact hleaf
    · rw [locateWithin, hformed.states.length_eq, if_neg (by omega), span_eq_ok,
        hformed.states.height_eq]
      refine (Course.pure _).step ?_
      rw [hsector]
      simp only [if_neg hformed.states.height_ne_zero, hvalue]
      have hword := node.slot_lt (offset / capacity (height + 1))
      exact (fetch_course hchild (hinner _ (slot_mem_inner hused)) (by omega)).step hrun

theorem locate_course {offset : Nat} (hformed : Formed image height node size)
    (hsize : size ≤ capacity (height + 1))
    (hinner : ∀ sector ∈ inner image height node size, sector ∈ footprint)
    (hoffset : offset < size) :
    ∃ leaf, (leaves image height node size)[offset / sectorSize]? = some leaf ∧
      Course footprint sectors (locate node offset) image leaf [] := by
  have hheight : height < 4 := hformed.states.valid
  obtain ⟨leaf, hleaf, hrun⟩ := @locateWithin_course _ _ sectors _ _ _ (4 * sectors + 5) _
    (by omega) hformed hsize hinner hoffset
  exact ⟨leaf, hleaf, Course.sectorCount.step hrun⟩

theorem locate_performs {offset : Nat} (hformed : Formed image height node size)
    (hsize : size ≤ capacity (height + 1))
    (hinner : ∀ sector ∈ inner image height node size, sector < sectors) (hoffset : offset < size) :
    ∃ leaf, (leaves image height node size)[offset / sectorSize]? = some leaf ∧
      Performs (locate node offset) image sectors (.ok leaf) [] := by
  obtain ⟨leaf, hleaf, hcourse⟩ := @locate_course _ {sector | sector < sectors} sectors _ _ _ _
    hformed hsize hinner hoffset
  exact ⟨leaf, hleaf, hcourse.performs (fun _ hmem ↦ hmem) nofun⟩

/-- An offset past the end is refused on every disk. -/
theorem locate_past_end {offset : Nat} (hlength : node.length.toNat ≤ offset) (drive : Drive) :
    locate node offset drive =
      .error (.error (.invalidArgument (.pastEnd offset node.length.toNat))) drive := by
  show locateWithin (4 * drive.disk.sectorCount + 5) node offset drive = _
  rw [locateWithin, if_pos hlength]
  rfl

end SectorFS.Node
