import SectorFS.Node
import SectorFS.Proofs.Geometry
import Mathlib.Algebra.BigOperators.Group.Finset.Basic
import Mathlib.Algebra.Order.Floor.Div
import Mathlib.Order.Bounds.Basic

/-!
# Index trees in machine words

What the arithmetic of index trees returns where it is carried out in words. A node cuts the bytes
that it covers into parts, one for each slot in use, and an offset is found in the part that its
quotient by the span of a slot names (`childSize_partitions`). Counted over a whole tree, the
recursion comes to one sector for every span that is started, at each level below the root
(`sectorNeeds_closed_form`).

Both hold at any level, as soon as the size and the span of one slot have a sum that is a word.
Only the last part asks how deep the tree of a file may be.
-/

namespace SectorFS.Geometry

variable {level size total : Nat}

/-! ## The parts of a node -/

/-- The parts into which a node of the given level cuts `total` bytes, as computed in words. -/
structure Parts (level total span used : Nat) (sizes : List Nat) : Prop where
  span_eq : Words.span level = .ok span
  slotsUsed_eq : Words.slotsUsed total level = .ok used
  /-- The sizes of the parts, slot by slot. -/
  childSize_eq : (List.range used).mapM (Words.childSize total level) = .ok sizes
  sum_eq : sizes.sum = total
  within : ∀ size ∈ sizes, 1 ≤ size ∧ size ≤ span
  full : ∀ index, index + 1 < used → sizes[index]? = some span
  /-- The slots behind those in use cover nothing. -/
  beyond : ∀ index, used ≤ index → index * span < Checked.wordLimit →
    Words.childSize total level index = .ok 0
  /-- An offset lies in the part of its slot. -/
  covers : ∀ offset < total, offset / span < used ∧
    ∃ size, Words.childSize total level (offset / span) = .ok size ∧ offset % span < size
  le_slotCount : total ≤ capacity level → used ≤ slotCount

/-- The slots in use cover all bytes. -/
theorem sum_childSize (total level : Nat) :
    ((List.range (slotsUsed total (level + 1))).map (childSize total (level + 1))).sum = total := by
  have hsum := sum_children (fun bytes ↦ bytes) total level
  by_cases hnone : slotsUsed total (level + 1) = 0
  · rw [hnone, slotsUsed_eq_zero_iff.mp hnone]
    rfl
  · have hlast : (slotsUsed total (level + 1) - 1) * capacity level < total :=
      lt_slotsUsed_iff.mp (Nat.sub_one_lt hnone)
    rw [if_neg hnone, childSize_last (Nat.sub_one_add_one hnone)] at hsum
    calc
      _ = (slotsUsed total (level + 1) - 1) * capacity level +
          (total - (slotsUsed total (level + 1) - 1) * capacity level) := hsum
      _ = total := Nat.add_sub_of_le hlast.le

/-- A node cuts its bytes into parts that are full, except for the last one, and not empty. There
are as many as slots in use, and no more than slots if the node can hold the bytes. An offset lies
in the part that its quotient by the span of a slot names, and its remainder lies within it. -/
theorem childSize_partitions (hlevel : 1 ≤ level)
    (hword : total + capacity (level - 1) < Checked.wordLimit) :
    ∃ used sizes, Parts level total (capacity (level - 1)) used sizes := by
  obtain ⟨below, rfl⟩ := Nat.exists_eq_add_of_le' hlevel
  rw [Nat.add_sub_cancel] at hword ⊢
  have hspan : capacity below < Checked.wordLimit := by omega
  refine ⟨slotsUsed total (below + 1),
    (List.range (slotsUsed total (below + 1))).map (childSize total (below + 1)), ?_⟩
  constructor
  case span_eq => exact Words.span_eq_ok hspan
  case slotsUsed_eq => exact Words.slotsUsed_eq_ok hword
  case childSize_eq =>
    apply Checked.mapM_eq_ok
    intro index hindex
    exact Words.childSize_of_used hword (List.mem_range.mp hindex)
  case sum_eq => exact sum_childSize total below
  case within =>
    intro size hsize
    obtain ⟨index, hindex, rfl⟩ := List.mem_map.mp hsize
    exact ⟨childSize_pos (List.mem_range.mp hindex), childSize_le total below index⟩
  case full =>
    intro index hindex
    rw [List.getElem?_map, List.getElem?_range (by omega), Option.map_some,
      childSize_of_not_last hindex]
  case beyond =>
    intro index hindex hstart
    rw [Words.childSize_eq_ok hspan hstart, childSize_eq_zero hindex]
  case covers =>
    intro offset hoffset
    have hslot : offset / capacity below < slotsUsed total (below + 1) := div_lt_slotsUsed hoffset
    exact ⟨hslot, _, Words.childSize_of_used hword hslot, mod_lt_childSize hoffset⟩
  case le_slotCount => exact slotsUsed_le

/-- One byte more than fills two slots is the only byte of the third. -/
theorem childSize_partitions_border :
    7425 + capacity (2 - 1) < Checked.wordLimit ∧
      Parts 2 7425 (capacity (2 - 1)) 3 [3712, 3712, 1] := by
  have hword : 7425 + capacity (2 - 1) < Checked.wordLimit := by decide
  obtain ⟨used, sizes, hparts⟩ := childSize_partitions (by decide : 1 ≤ 2) hword
  have hused : used = 3 := Except.ok.inj (hparts.slotsUsed_eq.symm.trans rfl)
  subst hused
  have hsizes : sizes = [3712, 3712, 1] := Except.ok.inj (hparts.childSize_eq.symm.trans rfl)
  subst hsizes
  exact ⟨hword, hparts⟩

/-! ## The sectors of a tree -/

/-- The power and the product of a capacity are formed one after the other. -/
theorem Words.capacity_eq (level : Nat) :
    capacity level = (do Checked.mul (← Checked.fit (slotCount ^ level)) sectorSize) := by
  have hcapacity : Geometry.capacity level = slotCount ^ level * sectorSize := rfl
  by_cases hpower : slotCount ^ level < Checked.wordLimit
  · have hlevel : level < 64 := by
      by_contra hdeep
      have hgrows : slotCount ^ 64 ≤ slotCount ^ level :=
        Nat.pow_le_pow_right (by decide) (Nat.le_of_not_lt hdeep)
      have hlimit : Checked.wordLimit ≤ slotCount ^ 64 := by decide
      omega
    rw [capacity, if_pos hlevel, Checked.fit_eq_ok hpower, hcapacity]
    rfl
  · have hlarge : ¬ Geometry.capacity level < Checked.wordLimit := by
      simp only [sectorSize] at hcapacity
      omega
    rw [capacity, Checked.fit, Checked.fit, if_neg hpower, if_neg hlarge, ite_self]
    rfl

/-- What the sectors below a node of the given level over `size` bytes come to in words. -/
structure Counts (level size : Nat) : Prop where
  /-- No power of the slot count and no capacity on the way leaves the machine word. -/
  capacity_eq : ∀ height < level,
    (do Checked.mul (← Checked.fit (slotCount ^ height)) sectorSize) = .ok (capacity height)
  /-- Each level below the root has a sector for every span that is started. -/
  sectorNeeds_eq : Words.sectorNeeds level size =
    .ok (∑ height ∈ Finset.range level, size ⌈/⌉ capacity height)
  mono : ∀ smaller ≤ size, ∃ fewer needs, Words.sectorNeeds level smaller = .ok fewer ∧
    Words.sectorNeeds level size = .ok needs ∧ fewer ≤ needs

theorem pieces_eq_ceilDiv (size piece : Nat) : pieces size piece = size ⌈/⌉ piece := rfl

theorem sectorNeeds_eq_sum_ceilDiv (level size : Nat) :
    sectorNeeds level size = ∑ height ∈ Finset.range level, size ⌈/⌉ capacity height := by
  induction level with
  | zero => rfl
  | succ level ih => rw [sectorNeeds_succ, Finset.sum_range_succ, ih, pieces_eq_ceilDiv]

theorem counts (hlevel : 1 ≤ level) (hword : size + capacity (level - 1) < Checked.wordLimit) :
    Counts level size := by
  obtain ⟨below, rfl⟩ := Nat.exists_eq_add_of_le' hlevel
  rw [Nat.add_sub_cancel] at hword
  constructor
  case capacity_eq =>
    intro height hheight
    have hsmaller := capacity_mono (Nat.le_of_lt_succ hheight)
    rw [← Words.capacity_eq]
    apply Words.capacity_eq_ok
    omega
  case sectorNeeds_eq => rw [Words.sectorNeeds_eq_ok hword, sectorNeeds_eq_sum_ceilDiv]
  case mono =>
    intro smaller hsmaller
    have hfewer : smaller + capacity below < Checked.wordLimit := by omega
    exact ⟨_, _, Words.sectorNeeds_eq_ok hfewer, Words.sectorNeeds_eq_ok hword,
      sectorNeeds_mono (below + 1) hsmaller⟩

/-! ## The trees of files -/

/-- The levels whose trees hold `size` bytes. -/
def levelsHolding (size : Nat) : Set Nat :=
  {level | 1 ≤ level ∧ level ≤ maxLevel ∧ size ≤ capacity level}

/-- The tree for a file of `size` bytes: which level it has, and that its root can state it. -/
structure Sizing (size : Nat) : Prop where
  /-- The capacities that are compared with the size are words. -/
  capacity_eq : ∀ level ≤ maxLevel, Words.capacity level = .ok (capacity level)
  levelFor_eq_some_iff : ∀ level,
    levelFor size = some level ↔ IsLeast (levelsHolding size) level
  levelFor_eq_none_iff : levelFor size = none ↔ capacity maxLevel < size
  /-- The words of a node hold the size and the number of sectors. -/
  stated : ∀ level, levelFor size = some level → ∃ needs,
    Words.sectorNeeds level size = .ok needs ∧ ∀ height sectors,
      (Node.ofSectors size needs height sectors).length.toNat = size ∧
      (Node.ofSectors size needs height sectors).charge.toNat = needs

theorem isLeast_of_heightFor {height : Fin maxLevel} (h : heightFor size = some height) :
    IsLeast (levelsHolding size) (height + 1) := by
  constructor
  · exact ⟨Nat.le_add_left _ _, height.isLt, le_capacity_of_heightFor h⟩
  · rintro level ⟨hpos, -, hholds⟩
    obtain ⟨below, rfl⟩ := Nat.exists_eq_add_of_le' hpos
    by_contra hlower
    have hmisses : capacity (below + 1) < size := capacity_lt_of_heightFor h (by omega)
    omega

theorem levelFor_eq_none_iff : levelFor size = none ↔ capacity maxLevel < size := by
  rw [← heightFor_eq_none_iff, levelFor]
  cases heightFor size with
  | none => simp
  | some height => simp

/-- The level of a file is the least one whose trees hold it. -/
theorem levelFor_eq_some_iff_isLeast :
    levelFor size = some level ↔ IsLeast (levelsHolding size) level := by
  rw [levelFor_eq_some_iff]
  constructor
  · rintro ⟨height, hheight, rfl⟩
    exact isLeast_of_heightFor hheight
  · intro hleast
    cases hheight : heightFor size with
    | none =>
      have hlarge := heightFor_eq_none_iff.mp hheight
      have hmost := capacity_mono hleast.1.2.1
      have hholds := hleast.1.2.2
      omega
    | some height => exact ⟨height, rfl, (isLeast_of_heightFor hheight).unique hleast⟩

theorem sizing (size : Nat) : Sizing size := by
  constructor
  case capacity_eq =>
    intro level hlevel
    apply Words.capacity_eq_ok
    rw [capacity_lt_iff]
    exact hlevel.trans (by decide)
  case levelFor_eq_some_iff => exact fun level ↦ levelFor_eq_some_iff_isLeast
  case levelFor_eq_none_iff => exact levelFor_eq_none_iff
  case stated =>
    intro level hlevel
    obtain ⟨height, hheight, rfl⟩ := levelFor_eq_some_iff.mp hlevel
    have hsize := le_capacity_of_heightFor hheight
    have hlength : size < 2 ^ 32 := lt_of_le_capacity height.isLt hsize
    refine ⟨_, Words.sectorNeeds_of_heightFor hheight, fun stated sectors ↦ ⟨?_, ?_⟩⟩
    · exact UInt32.toNat_ofNat_of_lt' hlength
    · exact UInt32.toNat_ofNat_of_lt' (sectorNeeds_lt_of_le height.isLt hsize)

/-- At every level the sectors below a node are counted by a closed form, without a step that leaves
the machine word. The level of a file is the least one whose trees hold it, and the words of its
root hold the size and the count. -/
theorem sectorNeeds_closed_form :
    (∀ level size, 1 ≤ level → size + capacity (level - 1) < Checked.wordLimit →
      Counts level size) ∧
    ∀ size, Sizing size :=
  ⟨fun _ _ ↦ counts, sizing⟩

/-- The highest level whose spans are words, over more bytes than any file has, and the border of
the sizes that a file may have. -/
theorem sectorNeeds_closed_form_deepest :
    2 ^ 63 + capacity (12 - 1) < Checked.wordLimit ∧
      Words.sectorNeeds 12 (2 ^ 63) = .ok 74631079539282511 ∧
      levelFor (capacity maxLevel) = some 4 ∧ levelFor (capacity maxLevel + 1) = none := by
  have hword : 2 ^ 63 + capacity (12 - 1) < Checked.wordLimit := by decide
  have hcounts := sectorNeeds_closed_form.1 12 (2 ^ 63) (by decide) hword
  have hsizing := sectorNeeds_closed_form.2 (capacity maxLevel + 1)
  have hsum : ∑ height ∈ Finset.range 12, 2 ^ 63 ⌈/⌉ capacity height = 74631079539282511 := by
    decide +kernel
  refine ⟨hword, ?_, by decide, hsizing.levelFor_eq_none_iff.mpr (Nat.lt_succ_self _)⟩
  rw [hcounts.sectorNeeds_eq, hsum]

end SectorFS.Geometry
