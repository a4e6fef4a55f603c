import SectorFS.Node.Allocation
import SectorFS.Proofs.Courses
import SectorFS.Proofs.Index

/-!
# Building a tree

Building claims the first free sectors, as many as the size needs, in the order in which
a walk meets them: each slot's sector before the sectors below it, and the slots from left
to right. The nodes below the root are written, each once, and nothing else is. What is
built is a formed tree whose sectors are exactly the claimed ones, so an allocation that
has room takes what it needs and one that has not takes nothing. No sector is read on the
way: the nodes and the writes depend on the map and the size only.
-/

namespace SectorFS.Node

open SectorFS.Geometry

variable {image : Image} {sectors height size : Nat} {map : FreeMap}

/-! ## One slot after the other -/

/-- Sectors that the first `count` slots of a node lead to. -/
def consumed (height size count : Nat) : Nat :=
  ((List.range count).map fun index ↦
    1 + sectorNeeds height (childSize size (height + 1) index)).sum

theorem consumed_succ (height size count : Nat) :
    consumed height size (count + 1) =
      consumed height size count + (1 + sectorNeeds height (childSize size (height + 1) count)) := by
  rw [consumed, List.range_succ, List.map_append, List.sum_append]
  simp [consumed]

theorem consumed_mono (height size : Nat) {few many : Nat} (h : few ≤ many) :
    consumed height size few ≤ consumed height size many := by
  induction h with
  | refl => exact Nat.le_refl _
  | step _ ih => exact Nat.le_trans ih (consumed_succ height size _ ▸ Nat.le_add_right _ _)

theorem consumed_slotsUsed (height size : Nat) :
    consumed height size (slotsUsed size (height + 1)) = sectorNeeds (height + 1) size :=
  (sectorNeeds_eq_sum height size).symm

theorem consumed_le {height size index : Nat} (h : index < slotsUsed size (height + 1)) :
    consumed height size index + (1 + sectorNeeds height (childSize size (height + 1) index)) ≤
      sectorNeeds (height + 1) size := by
  rw [← consumed_succ, ← consumed_slotsUsed]
  exact consumed_mono height size h

/-- The sector that the slot at an index takes out of a list of free sectors. -/
def place (free : List Nat) (height size index : Nat) : Nat :=
  free[consumed height size index]?.getD 0

/-- The work on one slot. -/
def buildSlot : (height : Nat) → height < maxLevel → (size index : Nat) → Allocation Nat
  | 0, _, _, _ => Space.claim
  | below + 1, valid, size, index => do
    let sector ← Space.claim
    let child ← build below (by omega) (← Words.childSize size (below + 2) index)
    child.store sector
    return sector

theorem build_eq (height : Nat) (valid : height < maxLevel) (size : Nat) :
    build height valid size = (do
      let charge ← Words.sectorNeeds (height + 1) size
      let used ← Words.slotsUsed size (height + 1)
      if slotCount < used then
        trap .slotOutOfRange
      else
        let sectors ← (List.range used).mapM (buildSlot height valid size)
        return ofSectors size charge ⟨height, valid⟩ sectors) := by
  cases height with
  | zero =>
    unfold build
    simp only [bind_pure]
    rfl
  | succ height =>
    unfold build
    rfl

/-- A slot was filled with sectors that were free. -/
structure Filled (image : Image) (height sector size : Nat) (claimed : List Nat)
    (writes : List Write) : Prop where
  formed : SlotFormed image height sector size
  sectors_eq : (slotWalk image height sector size).map Prod.fst = claimed
  writes_perm : (writes.map Prod.fst).Perm (slotInner image height sector size)

theorem slotInner_subset_walk {sector visited : Nat}
    (h : visited ∈ slotInner image height sector size) :
    visited ∈ (slotWalk image height sector size).map Prod.fst := by
  obtain ⟨visit, hvisit, rfl⟩ := List.mem_map.mp h
  exact List.mem_map_of_mem (List.mem_of_mem_filter hvisit)

theorem Filled.mem_claimed {sector visited : Nat} {claimed : List Nat} {writes : List Write}
    (h : Filled image height sector size claimed writes) (hvisited : visited ∈ writes.map Prod.fst) :
    visited ∈ claimed := by
  rw [← h.sectors_eq]
  exact slotInner_subset_walk (h.writes_perm.mem_iff.mp hvisited)

/-- The state of the work after the first `count` slots. -/
structure Progress (image : Image) (map : FreeMap) (height size count : Nat) (built : List Nat)
    (current : FreeMap) (writes : List Write) : Prop where
  built_eq : built = (List.range count).map (place map.free height size)
  current_eq : current = map.markAll (map.free.take (consumed height size count))
  formed : ∀ index < count, SlotFormed (image.putAll writes) height
    (place map.free height size index) (childSize size (height + 1) index)
  sectors_eq : ((List.range count).flatMap fun index ↦
    (slotWalk (image.putAll writes) height (place map.free height size index)
      (childSize size (height + 1) index)).map Prod.fst) =
        map.free.take (consumed height size count)
  writes_perm : (writes.map Prod.fst).Perm ((List.range count).flatMap fun index ↦
    slotInner (image.putAll writes) height (place map.free height size index)
      (childSize size (height + 1) index))

theorem Progress.start (image : Image) (map : FreeMap) (height size : Nat) :
    Progress image map height size 0 [] map [] where
  built_eq := rfl
  current_eq := rfl
  formed index hindex := absurd hindex (Nat.not_lt_zero index)
  sectors_eq := rfl
  writes_perm := .refl _

/-- What is written behind everything that was claimed leaves the nodes of the filled slots. -/
theorem Progress.kept {count : Nat} {built : List Nat} {current : FreeMap}
    {writes more : List Write} (h : Progress image map height size count built current writes)
    (hmore : ∀ visited ∈ more.map Prod.fst, visited ∈ map.free.drop (consumed height size count))
    {index : Nat} (hindex : index < count) {visited : Nat}
    (hvisited : visited ∈ slotInner (image.putAll writes) height (place map.free height size index)
      (childSize size (height + 1) index)) :
    image.putAll (writes ++ more) visited = image.putAll writes visited := by
  rw [Image.putAll_append]
  apply Image.putAll_of_not_mem
  intro hmem
  have hearlier : visited ∈ map.free.take (consumed height size count) := by
    rw [← h.sectors_eq, List.mem_flatMap]
    exact ⟨index, List.mem_range.mpr hindex, slotInner_subset_walk hvisited⟩
  have hnodup := map.nodup_free
  rw [← List.take_append_drop (consumed height size count) map.free] at hnodup
  exact (List.nodup_append.mp hnodup).2.2 visited hearlier visited (hmore visited hmem) rfl

/-- Filling the next slot leaves the filled ones as they are. -/
theorem Progress.next {count : Nat} {built : List Nat} {current : FreeMap}
    {writes more : List Write} (h : Progress image map height size count built current writes)
    (hfilled : Filled ((image.putAll writes).putAll more) height (place map.free height size count)
      (childSize size (height + 1) count)
      (current.free.take (1 + sectorNeeds height (childSize size (height + 1) count))) more) :
    Progress image map height size (count + 1) (built ++ [place map.free height size count])
      (current.markAll
        (current.free.take (1 + sectorNeeds height (childSize size (height + 1) count))))
      (writes ++ more) := by
  have hfree : current.free = map.free.drop (consumed height size count) := by
    rw [h.current_eq, FreeMap.free_markAll_take]
  rw [hfree] at hfilled ⊢
  rw [← Image.putAll_append] at hfilled
  have hkept (index : Nat) (hindex : index < count) (visited : Nat)
      (hvisited : visited ∈ slotInner (image.putAll writes) height
        (place map.free height size index) (childSize size (height + 1) index)) :
      image.putAll (writes ++ more) visited = image.putAll writes visited :=
    h.kept (fun _ hlater ↦ List.mem_of_mem_take (hfilled.mem_claimed hlater)) hindex hvisited
  have hwalk (index : Nat) (hindex : index < count) :
      slotWalk (image.putAll (writes ++ more)) height (place map.free height size index)
        (childSize size (height + 1) index) =
      slotWalk (image.putAll writes) height (place map.free height size index)
        (childSize size (height + 1) index) := slotWalk_congr (hkept index hindex)
  have htake : map.free.take (consumed height size (count + 1)) =
      map.free.take (consumed height size count) ++
        (map.free.drop (consumed height size count)).take
          (1 + sectorNeeds height (childSize size (height + 1) count)) := by
    rw [consumed_succ, List.take_add]
  constructor
  case built_eq => rw [h.built_eq, List.range_succ, List.map_append, List.map_singleton]
  case current_eq => rw [h.current_eq, ← FreeMap.markAll_append, ← htake]
  case formed =>
    intro index hindex
    by_cases hlast : index = count
    · exact hlast ▸ hfilled.formed
    · exact (h.formed index (by omega)).congr (hkept index (by omega))
  case sectors_eq =>
    rw [List.range_succ, List.flatMap_append, List.flatMap_singleton, hfilled.sectors_eq, htake,
      ← h.sectors_eq]
    refine congrArg (· ++ _) (List.flatMap_congr fun index hindex ↦ ?_)
    rw [hwalk index (List.mem_range.mp hindex)]
  case writes_perm =>
    rw [List.map_append, List.range_succ, List.flatMap_append, List.flatMap_singleton]
    refine (h.writes_perm.trans (.of_eq ?_)).append hfilled.writes_perm
    refine List.flatMap_congr fun index hindex ↦ ?_
    rw [slotInner, slotInner, hwalk index (List.mem_range.mp hindex)]

/-! ## Whole trees -/

/-- The root over the claimed sectors. -/
theorem slot_ofSectors {valid : height < maxLevel} {length charge index : Nat} {list : List Nat}
    (hindex : index < slotCount) (hword : list[index]?.getD 0 < 2 ^ 32) :
    (ofSectors length charge ⟨height, valid⟩ list).slot index = list[index]?.getD 0 := by
  rw [slot, ofSectors, Vector.getElem?_eq_getElem hindex, Option.getD_some, Vector.getElem_ofFn]
  exact UInt32.toNat_ofNat_of_lt' hword

/-- The root over the sectors of the slots has each of them in its slot. -/
theorem Progress.slot_eq {built : List Nat} {current : FreeMap} {writes : List Write}
    (h : Progress image map height size (slotsUsed size (height + 1)) built current writes)
    (valid : height < maxLevel) (charge : Nat) {index : Nat}
    (hindex : index < slotsUsed size (height + 1)) (hslot : index < slotCount)
    (hneeds : sectorNeeds (height + 1) size ≤ map.free.length) (hword : map.sectors ≤ 2 ^ 32) :
    (ofSectors size charge ⟨height, valid⟩ built).slot index = place map.free height size index := by
  have hentry : built[index]?.getD 0 = place map.free height size index := by
    rw [h.built_eq, List.getElem?_map, List.getElem?_range hindex]
    rfl
  have hroom := consumed_le hindex
  have hplace : place map.free height size index < map.sectors := by
    rw [place, List.getElem?_eq_getElem (by omega), Option.getD_some]
    exact (FreeMap.mem_free.mp (List.getElem_mem _)).1
  rw [slot_ofSectors hslot (by rw [hentry]; omega), hentry]

/-- Once all slots are filled, the root over their sectors is that of a tree. -/
theorem Progress.built {built : List Nat} {current : FreeMap} {writes : List Write}
    (h : Progress image map height size (slotsUsed size (height + 1)) built current writes)
    (valid : height < maxLevel) (hsize : size ≤ capacity (height + 1))
    (hneeds : sectorNeeds (height + 1) size ≤ map.free.length) (hword : map.sectors ≤ 2 ^ 32) :
    Built (image.putAll writes) height
      (ofSectors size (sectorNeeds (height + 1) size) ⟨height, valid⟩ built) size
      (map.free.take (sectorNeeds (height + 1) size)) writes := by
  have hused := slotsUsed_le hsize
  have hslots (index : Nat) (hindex : index < slotsUsed size (height + 1)) :=
    h.slot_eq valid (sectorNeeds (height + 1) size) hindex (by omega) hneeds hword
  constructor
  case formed =>
    rw [formed_iff]
    refine ⟨⟨rfl, ?_, ?_⟩, fun index hindex ↦ ?_⟩
    · exact UInt32.toNat_ofNat_of_lt' (lt_of_le_capacity valid hsize)
    · exact UInt32.toNat_ofNat_of_lt' (sectorNeeds_lt_of_le valid hsize)
    · rw [hslots index hindex]
      exact h.formed index hindex
  case below_eq =>
    have hclaimed := h.sectors_eq
    rw [consumed_slotsUsed] at hclaimed
    rw [below_eq_flatMap, ← hclaimed]
    apply List.flatMap_congr
    intro index hindex
    rw [hslots index (List.mem_range.mp hindex)]
  case writes_perm =>
    refine h.writes_perm.trans (.of_eq ?_)
    rw [inner_eq_flatMap]
    apply List.flatMap_congr
    intro index hindex
    rw [hslots index (List.mem_range.mp hindex)]

/-- A tree is built once each of its slots can be filled. -/
theorem build_of_slots (valid : height < maxLevel) (hsize : size ≤ capacity (height + 1))
    (hword : map.sectors ≤ 2 ^ 32) (hneeds : sectorNeeds (height + 1) size ≤ map.free.length)
    (hslot : ∀ index < slotsUsed size (height + 1), ∀ current : FreeMap,
      current.sectors = map.sectors →
      1 + sectorNeeds height (childSize size (height + 1) index) ≤ current.free.length →
      ∃ more, ∀ image, Course ∅ sectors ((buildSlot height valid size index).using current) image
        (current.free[0]?.getD 0, current.markAll (current.free.take
          (1 + sectorNeeds height (childSize size (height + 1) index)))) more ∧
        Filled (image.putAll more) height (current.free[0]?.getD 0)
          (childSize size (height + 1) index) (current.free.take
            (1 + sectorNeeds height (childSize size (height + 1) index))) more) :
    ∃ node writes, ∀ image, Course ∅ sectors ((build height valid size).using map) image
        (node, map.markAll (map.free.take (sectorNeeds (height + 1) size))) writes ∧
      Built (image.putAll writes) height node size
        (map.free.take (sectorNeeds (height + 1) size)) writes := by
  have hwords := add_capacity_lt valid hsize
  have hused := slotsUsed_le hsize
  obtain ⟨built, final, writes, hrun, hprogress⟩ := @Course.usingMapM_range Nat ∅ sectors
    (buildSlot height valid size) map (slotsUsed size (height + 1))
    (fun count built current writes ↦
      ∀ image, Progress image map height size count built current writes)
    (fun image ↦ Progress.start image map height size)
    fun index hindex built current writes hprogress ↦ by
      have hcurrent := (hprogress fun _ ↦ default).current_eq
      have hfree : current.free = map.free.drop (consumed height size index) := by
        rw [hcurrent, FreeMap.free_markAll_take]
      have hroom := consumed_le hindex
      obtain ⟨more, hmore⟩ := hslot index hindex current
        (by rw [hcurrent, FreeMap.sectors_markAll])
        (by rw [hfree, List.length_drop]; omega)
      have hplace : current.free[0]?.getD 0 = place map.free height size index := by
        rw [hfree, List.getElem?_drop, Nat.add_zero, place]
      rw [hplace] at hmore
      exact ⟨_, _, more, fun image ↦ (hmore image).1, fun image ↦
        (hprogress image).next (hmore (image.putAll writes)).2⟩
  refine ⟨ofSectors size (sectorNeeds (height + 1) size) ⟨height, valid⟩ built, writes,
    fun image ↦ ⟨?_, (hprogress image).built valid hsize hneeds hword⟩⟩
  rw [build_eq, Words.sectorNeeds_eq_ok hwords, Words.slotsUsed_eq_ok hwords]
  refine (Course.usingPure _).usingStep ((Course.usingPure _).usingStep ?_)
  rw [if_neg (by omega), ← List.append_nil writes, ← consumed_slotsUsed]
  exact ((hprogress image).current_eq ▸ hrun image).usingBind (Course.usingPure _)

/-- Claiming a slot's sector leaves the other free sectors. -/
theorem markAll_cons_take {sector : Nat} {rest : List Nat} (h : map.free = sector :: rest)
    (count : Nat) :
    (map.mark sector).free = rest ∧
      (map.mark sector).markAll ((map.mark sector).free.take count) =
        map.markAll (map.free.take (1 + count)) := by
  have hmark : map.mark sector = map.markAll (map.free.take 1) := by
    rw [h]
    rfl
  have hfree : (map.mark sector).free = rest := by
    rw [hmark, FreeMap.free_markAll_take, h]
    rfl
  refine ⟨hfree, ?_⟩
  rw [hfree, h, Nat.add_comm]
  rfl

/-- A slot is filled by writing the node of the subtree below it. -/
theorem Filled.of_child {sector : Nat} {child : Node} {claimed : List Nat} {writes : List Write}
    (h : Built image height child size claimed writes) (hfresh : sector ∉ claimed) :
    Filled (image.putAll [(sector, child.toSector)]) (height + 1) sector size (sector :: claimed)
      (writes ++ [(sector, child.toSector)]) := by
  rw [Image.putAll_cons, Image.putAll_nil]
  have hinner (visited : Nat) (hvisited : visited ∈ inner image height child size) :
      image.put (sector, child.toSector) visited = image visited := by
    apply Image.put_of_ne
    rintro rfl
    exact hfresh (h.inner_subset hvisited)
  have hnode : Image.node? (image.put (sector, child.toSector)) sector = some child := by
    rw [Image.node?, Image.put_self, ofSector?_toSector]
  constructor
  case formed => exact ⟨child, hnode, h.formed.congr hinner⟩
  case sectors_eq =>
    have hvisits := below_congr hinner
    rw [h.below_eq, below] at hvisits
    rw [slotWalk, hnode, List.map_cons, hvisits]
  case writes_perm =>
    rw [slotInner_succ hnode, inner_congr hinner, List.map_append]
    exact (List.perm_append_singleton _ _).trans (h.writes_perm.cons _)

/-- Building claims the first free sectors and makes a formed tree of them, without a look at the
disk. -/
theorem build_course (valid : height < maxLevel) (hsize : size ≤ capacity (height + 1))
    (hword : map.sectors ≤ 2 ^ 32) (hneeds : sectorNeeds (height + 1) size ≤ map.free.length) :
    ∃ node writes, ∀ image, Course ∅ sectors ((build height valid size).using map) image
        (node, map.markAll (map.free.take (sectorNeeds (height + 1) size))) writes ∧
      Built (image.putAll writes) height node size
        (map.free.take (sectorNeeds (height + 1) size)) writes := by
  induction height generalizing size map with
  | zero =>
    refine build_of_slots valid hsize hword hneeds fun index hindex current hcurrent hroom ↦ ?_
    obtain ⟨sector, rest, hfree⟩ := List.exists_cons_of_length_pos (by omega :
      0 < current.free.length)
    rw [hfree]
    exact ⟨[], fun image ↦ ⟨Course.claim hfree, trivial, rfl, .refl _⟩⟩
  | succ height ih =>
    refine build_of_slots valid hsize hword hneeds fun index hindex current hcurrent hroom ↦ ?_
    obtain ⟨sector, rest, hfree⟩ := List.exists_cons_of_length_pos (by omega :
      0 < current.free.length)
    obtain ⟨hrest, hmark⟩ := markAll_cons_take hfree
      (sectorNeeds (height + 1) (childSize size (height + 1 + 1) index))
    have hsector : sector < map.sectors := by
      rw [← hcurrent]
      exact (FreeMap.mem_free.mp (hfree ▸ List.mem_cons_self)).1
    have hnodup := current.nodup_free
    rw [hfree, List.length_cons] at hroom
    rw [hfree, List.nodup_cons] at hnodup
    obtain ⟨child, writes, hchild⟩ := @ih
      (childSize size (height + 1 + 1) index) (current.mark sector) (by omega)
      (childSize_le _ _ _) (by rw [FreeMap.sectors_mark, hcurrent]; exact hword)
      (by rw [hrest]; omega)
    have hpart := Words.childSize_of_used (add_capacity_lt valid hsize) hindex
    refine ⟨writes ++ [(sector, child.toSector)], fun image ↦ ?_⟩
    obtain ⟨hrun, hbuilt⟩ := hchild image
    constructor
    · rw [hfree, buildSlot]
      refine (Course.claim hfree).usingStep ?_
      rw [hpart]
      refine (Course.usingPure _).usingStep (hrun.usingBind ?_)
      rw [hmark, hfree, ← List.append_nil [(sector, child.toSector)]]
      exact (Course.usingLift (.writeSector child.toSector (by omega))).usingBind
        (Course.usingPure _)
    · rw [Image.putAll_append, hfree, Nat.add_comm 1, List.take_succ_cons]
      rw [hrest] at hbuilt
      exact .of_child hbuilt fun hmem ↦ hnodup.1 (List.mem_of_mem_take hmem)

/-! ## Allocating -/

/-- An allocation that has room makes a formed tree of the first free sectors, whatever the disk
holds. -/
theorem allocate_course {level : Fin maxLevel} (hlevel : heightFor size = some level)
    (hclean : map.Clean) (hword : map.sectors ≤ 2 ^ 32)
    (hneeds : sectorNeeds (level + 1) size ≤ map.free.length) :
    ∃ node writes, ∀ image, Course ∅ sectors ((allocate size).using map) image
        (node, map.markAll (map.free.take (sectorNeeds (level + 1) size))) writes ∧
      Built (image.putAll writes) level node size
        (map.free.take (sectorNeeds (level + 1) size)) writes := by
  obtain ⟨node, writes, hbuilt⟩ := @build_course sectors level size map level.isLt
    (le_capacity_of_heightFor hlevel) hword hneeds
  refine ⟨node, writes, fun image ↦ ⟨?_, (hbuilt image).2⟩⟩
  rw [allocate, hlevel]
  simp only [Words.sectorNeeds_of_heightFor hlevel]
  refine (Course.usingPure _).usingStep ((Course.freeCount hclean).usingStep ?_)
  rw [if_neg (by omega)]
  exact (Course.usingLift (.note _ _)).usingStep (hbuilt image).1

/-- On a disk that has all the sectors of the map the tree is written. -/
theorem allocate_performs {level : Fin maxLevel} (hlevel : heightFor size = some level)
    (hclean : map.Clean) (hsectors : map.sectors ≤ sectors) (hword : map.sectors ≤ 2 ^ 32)
    (hneeds : sectorNeeds (level + 1) size ≤ map.free.length) :
    ∃ node writes, ∀ image, Performs ((allocate size).using map) image sectors
        (.ok (node, map.markAll (map.free.take (sectorNeeds (level + 1) size)))) writes ∧
      Built (image.putAll writes) level node size
        (map.free.take (sectorNeeds (level + 1) size)) writes := by
  obtain ⟨node, writes, hallocate⟩ := @allocate_course sectors size map level hlevel hclean hword
    hneeds
  refine ⟨node, writes, fun image ↦ ?_⟩
  obtain ⟨hcourse, hbuilt⟩ := hallocate image
  refine ⟨hcourse.performs nofun fun write hwrite ↦ ?_, hbuilt⟩
  exact Nat.lt_of_lt_of_le (FreeMap.lt_of_mem_take_free _ (hbuilt.mem_claimed hwrite)) hsectors

/-- An allocation without room leaves the disk and the map as they are. -/
theorem allocate_eq_noSpace (hclean : map.Clean)
    (h : ∀ level, heightFor size = some level →
      map.free.length < sectorNeeds (level + 1) size) (drive : Drive) :
    ∃ journal, allocate size ⟨drive, map⟩ =
      .error (.error .noSpace) ⟨⟨drive.disk, journal⟩, map⟩ := by
  rw [allocate]
  cases hlevel : heightFor size with
  | none => exact ⟨drive.journal, rfl⟩
  | some level =>
    have hcount : Space.freeCount ⟨drive, map⟩ = .ok map.free.length ⟨drive, map⟩ := by
      unfold Space.freeCount
      simp only [hclean.freeCount_eq]
    simp only [Words.sectorNeeds_of_heightFor hlevel]
    show ∃ journal, EStateM.bind Space.freeCount _ ⟨drive, map⟩ = _
    unfold EStateM.bind
    rw [hcount]
    simp only [if_pos (h level hlevel)]
    exact ⟨_, rfl⟩

/-- An allocation without room claims nothing. -/
theorem allocate_refused (hclean : map.Clean)
    (h : ∀ level, heightFor size = some level →
      map.free.length < sectorNeeds (level + 1) size) :
    Performs ((allocate size).using map) image sectors (.error (.error .noSpace)) [] := by
  refine ⟨[], rfl, fun drive _ ↦ ?_⟩
  obtain ⟨journal, hrun⟩ := allocate_eq_noSpace hclean h drive
  refine ⟨journal, ?_⟩
  rw [InPlace.using, hrun]
  rfl

end SectorFS.Node
