import SectorFS.Node.Release
import SectorFS.Proofs.Index.Lookup

/-!
# Releasing a formed tree

Releasing the root of a formed tree clears exactly the sectors below it and writes
nothing. Off the rightmost path the release takes every node to be full; there a formed
node is full, so nothing is missed and nothing else is cleared.
-/

namespace SectorFS

theorem FreeMap.foldl_clearAll {α : Type} (map : FreeMap) (group : α → List Nat) (items : List α) :
    items.foldl (fun map item ↦ map.clearAll (group item)) map =
      map.clearAll (items.flatMap group) := by
  induction items generalizing map with
  | nil => rfl
  | cons item rest ih => rw [List.foldl_cons, ih, List.flatMap_cons, clearAll_append]

/-- The order in which sectors are cleared does not matter. -/
theorem FreeMap.clear_clearAll {map : FreeMap} {sector : Nat} {rest : List Nat}
    (h : ∀ member ∈ sector :: rest, member < map.sectors) :
    (map.clearAll rest).clear sector = map.clearAll (sector :: rest) := by
  have hlast : ∀ map : FreeMap, map.clear sector = map.clearAll [sector] := fun _ ↦ rfl
  rw [hlast, ← clearAll_append]
  refine (map.clearAll_congr h fun member ↦ ?_).symm
  rw [List.mem_append, List.mem_singleton, List.mem_cons, or_comm]

namespace Node

open SectorFS.Geometry

variable {image : Image} {footprint : Set Nat} {sectors height size : Nat} {node : Node}
  {map : FreeMap}

/-- The sectors in the slots in use. -/
theorem sectorsFor_eq_ok (node : Node) (hsize : size ≤ capacity (node.height + 1)) :
    node.sectorsFor size = .ok ((List.range (slotsUsed size (node.height + 1))).map node.slot) := by
  have hused := slotsUsed_le hsize
  have hslots := Words.slotsUsed_eq_ok (add_capacity_lt node.height.isLt hsize)
  rw [sectorsFor]
  show Words.slotsUsed size (node.height + 1) >>= _ = _
  rw [hslots, Checked.ok_bind, if_neg (by omega)]
  show Except.ok _ = _
  congr 1
  apply List.ext_getElem
  · simp only [List.length_map, List.length_take, Vector.length_toList, List.length_range]
    omega
  · intro index hleft hright
    rw [List.length_map, List.length_range] at hright
    rw [List.getElem_map, List.getElem_take, Vector.getElem_toList, List.getElem_map,
      List.getElem_range, slot, Vector.getElem?_eq_getElem (by omega), Option.getD_some]

/-! ## One slot after the other -/

/-- Releases what is below a slot and then the sector in it. -/
def releaseSlot (fuel : Nat) (node : Node) (rightmost : Bool) (count : Nat) :
    Nat × Nat → Allocation Unit := fun (sector, index) ↦ do
  if node.height ≠ 0 then
    let child ← fetch sector
    releaseWithin fuel child (rightmost && index + 1 == count)
  Space.clear sector

theorem releaseWithin_succ (fuel : Nat) (node : Node) (rightmost : Bool) :
    releaseWithin (fuel + 1) node rightmost = (do
      let share ← if rightmost then pure node.length.toNat else Words.capacity node.level
      let sectors ← node.sectorsFor share
      sectors.zipIdx.forM (releaseSlot fuel node rightmost sectors.length)) := rfl

theorem zipIdx_map_range {α : Type} (entry : Nat → α) (count : Nat) :
    ((List.range count).map entry).zipIdx =
      (List.range count).map fun index ↦ (entry index, index) := by
  apply List.ext_getElem
  · simp
  · intro index hleft hright
    simp

/-- The loop over the slots clears the group of each of them. -/
theorem releaseSlots_course {step : Nat × Nat → Allocation Unit}
    (hslot : ∀ index < slotsUsed size (height + 1), ∀ current : FreeMap,
      current.sectors = map.sectors →
      Course footprint sectors ((step (node.slot index, index)).using current) image
        ((), current.clearAll ((slotWalk image height (node.slot index)
          (childSize size (height + 1) index)).map Prod.fst)) []) :
    Course footprint sectors ((((List.range (slotsUsed size (height + 1))).map fun index ↦
        (node.slot index, index)).forM step).using map) image
      ((), map.clearAll (below image height node size)) [] := by
  rw [below_eq_flatMap, ← FreeMap.foldl_clearAll, ← @List.foldl_map _ _ _
    (fun index ↦ (node.slot index, index)) (fun map visit ↦ FreeMap.clearAll map
      ((slotWalk image height visit.1 (childSize size (height + 1) visit.2)).map Prod.fst))]
  refine Course.usingForM fun done visit rest hsplit ↦ ?_
  have hvisit : visit ∈ (List.range (slotsUsed size (height + 1))).map fun index ↦
      (node.slot index, index) := by
    rw [hsplit]
    exact List.mem_append_right _ List.mem_cons_self
  obtain ⟨index, hindex, rfl⟩ := List.mem_map.mp hvisit
  apply hslot index (List.mem_range.mp hindex)
  rw [FreeMap.foldl_clearAll, FreeMap.sectors_clearAll]

/-- Releasing a node releases the groups of its slots, one after the other. Off the rightmost path it
takes its part of the file to be full. -/
theorem releaseWithin_of_slots {fuel : Nat} {rightmost : Bool} (hstates : node.States height size)
    (hfull : rightmost = false → size = capacity (height + 1)) (hsize : size ≤ capacity (height + 1))
    (hslot : ∀ index < slotsUsed size (height + 1), ∀ current : FreeMap,
      current.sectors = map.sectors →
      Course footprint sectors ((releaseSlot fuel node rightmost (slotsUsed size (height + 1))
        (node.slot index, index)).using current) image
        ((), current.clearAll ((slotWalk image height (node.slot index)
          (childSize size (height + 1) index)).map Prod.fst)) []) :
    Course footprint sectors ((releaseWithin (fuel + 1) node rightmost).using map) image
      ((), map.clearAll (below image height node size)) [] := by
  obtain rfl := hstates.height_eq
  have hrest : Course footprint sectors (InPlace.using (do
      let sectors ← node.sectorsFor size
      sectors.zipIdx.forM (releaseSlot fuel node rightmost sectors.length)) map) image
      ((), map.clearAll (below image node.height node size)) [] := by
    rw [node.sectorsFor_eq_ok hsize]
    refine (Course.usingPure _).usingStep ?_
    rw [zipIdx_map_range, List.length_map, List.length_range]
    exact releaseSlots_course hslot
  rw [releaseWithin_succ]
  cases rightmost with
  | true =>
    simp only [if_true, hstates.length_eq]
    exact (Course.usingPure size).usingStep hrest
  | false =>
    have hlevel : node.height.val < 4 := node.height.isLt
    have hword : capacity (node.height + 1) < Checked.wordLimit := capacity_lt_iff.mpr (by omega)
    simp only [Bool.false_eq_true, if_false, level, Words.capacity_eq_ok hword, ← hfull rfl]
    exact (Course.usingPure size).usingStep hrest

/-! ## Whole trees -/

/-- A part of the file is full, unless it is that of the last slot of a node on the rightmost path. -/
theorem childSize_of_off_path {index : Nat} {rightmost : Bool}
    (hindex : index < slotsUsed size (height + 1))
    (hfull : rightmost = false → size = capacity (height + 1))
    (hoff : (rightmost && index + 1 == slotsUsed size (height + 1)) = false) :
    childSize size (height + 1) index = capacity height := by
  rw [Bool.and_eq_false_iff, beq_eq_false_iff_ne] at hoff
  by_cases hlast : index + 1 = slotsUsed size (height + 1)
  · obtain rfl := hfull (hoff.resolve_right fun hne ↦ hne hlast)
    rw [slotsUsed_capacity] at hindex
    exact childSize_capacity hindex
  · exact childSize_of_not_last (by omega)

/-- The group of a slot above a node is cleared once what is below the node is cleared. -/
theorem releaseSlot_course {fuel index count : Nat} {rightmost : Bool} {child : Node}
    (hheight : node.height ≠ 0) (hchild : image.node? (node.slot index) = some child)
    (hmem : node.slot index ∈ footprint)
    (hgroup : ∀ sector ∈ node.slot index :: below image height child size, sector < map.sectors)
    (hbelow : Course footprint sectors
      ((releaseWithin fuel child (rightmost && index + 1 == count)).using map) image
      ((), map.clearAll (below image height child size)) []) :
    Course footprint sectors
      ((releaseSlot fuel node rightmost count (node.slot index, index)).using map) image
      ((), map.clearAll (node.slot index :: below image height child size)) [] := by
  have hword := node.slot_lt index
  rw [releaseSlot]
  simp only [if_pos hheight]
  refine (Course.usingLift (fetch_course hchild hmem (by omega))).usingStep
    (hbelow.usingStep ?_)
  rw [← FreeMap.clear_clearAll hgroup]
  apply Course.clear
  rw [FreeMap.sectors_clearAll]
  exact hgroup _ List.mem_cons_self

/-- Releasing follows the slots, and off the rightmost path every part of the file is full. -/
theorem releaseWithin_course {fuel : Nat} {rightmost : Bool} (hfuel : height < fuel)
    (hformed : Formed image height node size) (hsize : size ≤ capacity (height + 1))
    (hfull : rightmost = false → size = capacity (height + 1))
    (hinner : ∀ sector ∈ inner image height node size, sector ∈ footprint)
    (hbelow : ∀ sector ∈ below image height node size, sector < map.sectors) :
    Course footprint sectors ((releaseWithin fuel node rightmost).using map) image
      ((), map.clearAll (below image height node size)) [] := by
  induction height generalizing node size fuel rightmost map with
  | zero =>
    obtain ⟨fuel, rfl⟩ := Nat.exists_eq_succ_of_ne_zero (by omega : fuel ≠ 0)
    refine releaseWithin_of_slots hformed.states hfull hsize fun index hindex current hcurrent ↦ ?_
    have hheight : ¬ node.height ≠ 0 := not_not.mpr hformed.states.height_eq_zero
    have hmem : node.slot index ∈ below image 0 node size := by
      rw [below_zero]
      exact List.mem_map_of_mem (List.mem_range.mpr hindex)
    rw [releaseSlot]
    simp only [if_neg hheight]
    apply Course.clear
    rw [hcurrent]
    exact hbelow _ hmem
  | succ height ih =>
    obtain ⟨fuel, rfl⟩ := Nat.exists_eq_succ_of_ne_zero (by omega : fuel ≠ 0)
    refine releaseWithin_of_slots hformed.states hfull hsize fun index hindex current hcurrent ↦ ?_
    obtain ⟨child, hchild, hchildFormed⟩ := hformed.2 index hindex
    have hgroup (sector : Nat) (hsector : sector ∈ (slotWalk image (height + 1) (node.slot index)
        (childSize size (height + 1 + 1) index)).map Prod.fst) :
        sector < current.sectors := by
      rw [hcurrent]
      apply hbelow
      rw [below_eq_flatMap, List.mem_flatMap]
      exact ⟨index, List.mem_range.mpr hindex, hsector⟩
    simp only [slotWalk, hchild, List.map_cons] at hgroup ⊢
    rw [← below] at hgroup ⊢
    apply releaseSlot_course hformed.states.height_ne_zero hchild (hinner _ (slot_mem_inner hindex))
      hgroup
    exact ih (by omega) hchildFormed (childSize_le _ _ _) (childSize_of_off_path hindex hfull)
      (fun sector hsector ↦ hinner sector (inner_child_subset hindex hchild hsector))
      fun sector hsector ↦ hgroup sector (List.mem_cons_of_mem _ hsector)

/-- Releasing the root of a formed tree reads its nodes and clears the sectors below it. -/
theorem release_course (hformed : Formed image height node size)
    (hsize : size ≤ capacity (height + 1)) (hheight : height < 2 * sectors + 3)
    (hinner : ∀ sector ∈ inner image height node size, sector ∈ footprint)
    (hbelow : ∀ sector ∈ below image height node size, sector < map.sectors) :
    Course footprint sectors ((release node true).using map) image
      ((), map.clearAll (below image height node size)) [] :=
  (Course.usingLift Course.sectorCount).usingStep
    (releaseWithin_course hheight hformed hsize (fun hfalse ↦ nomatch hfalse) hinner hbelow)

/-- Releasing the root of a formed tree clears the sectors below it. -/
theorem release_performs (hformed : Formed image height node size)
    (hsize : size ≤ capacity (height + 1)) (hheight : height < 2 * sectors + 3)
    (hinner : ∀ sector ∈ inner image height node size, sector < sectors)
    (hbelow : ∀ sector ∈ below image height node size, sector < map.sectors) :
    Performs ((release node true).using map) image sectors
      (.ok ((), map.clearAll (below image height node size))) [] :=
  (@release_course _ {sector | sector < sectors} _ _ _ _ _ hformed hsize hheight hinner
    hbelow).performs (fun _ hmem ↦ hmem) nofun

end Node

end SectorFS
