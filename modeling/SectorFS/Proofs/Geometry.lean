import SectorFS.Geometry.Words
import Mathlib.Algebra.BigOperators.Group.List.Basic
import Mathlib.Algebra.Order.BigOperators.Group.List
import Mathlib.Tactic.Ring

/-!
# The shape of index trees in numbers

The slots in use of a node cut the bytes it covers into pieces, all of them full
except the last. Everything that is counted over a tree follows from this: a sum over
the slots in use is a multiple of the value for a full slot, and one more value for the
last slot. Two sums are needed throughout, the sectors below a node and the data
sectors below it.

The second part shows that none of these quantities leaves the machine word on the
sizes an index tree is built for.
-/

namespace SectorFS.Geometry

/-! ## Pieces -/

/-- How many pieces of the given size cover `size` bytes. -/
def pieces (size piece : Nat) : Nat := (size + piece - 1) / piece

theorem slotsUsed_succ (total level : Nat) :
    slotsUsed total (level + 1) = pieces total (capacity level) := rfl

theorem childSize_succ (total level index : Nat) :
    childSize total (level + 1) index =
      min (total - index * capacity level) (capacity level) := rfl

theorem lt_pieces_iff {size piece index : Nat} (h : 0 < piece) :
    index < pieces size piece ↔ index * piece < size := by
  unfold pieces
  rw [Nat.lt_iff_add_one_le, Nat.le_div_iff_mul_le h, Nat.add_mul]
  omega

theorem pieces_zero {piece : Nat} (h : 0 < piece) : pieces 0 piece = 0 := by
  unfold pieces
  rw [Nat.zero_add]
  exact Nat.div_eq_of_lt (by omega)

theorem pieces_eq_zero_iff {size piece : Nat} (h : 0 < piece) : pieces size piece = 0 ↔ size = 0 := by
  have hlt : 0 < pieces size piece ↔ 0 * piece < size := lt_pieces_iff h
  rw [Nat.zero_mul] at hlt
  omega

/-- Whole pieces are counted apart from the rest. -/
theorem pieces_mul_add (whole rest : Nat) {piece : Nat} (h : 0 < piece) :
    pieces (whole * piece + rest) piece = whole + pieces rest piece := by
  unfold pieces
  have hsplit : whole * piece + rest + piece - 1 = (rest + piece - 1) + whole * piece := by omega
  rw [hsplit, Nat.add_mul_div_right _ _ h, Nat.add_comm]

theorem pieces_mul (whole : Nat) {piece : Nat} (h : 0 < piece) :
    pieces (whole * piece) piece = whole := by
  have hsum := pieces_mul_add whole 0 h
  rwa [pieces_zero h] at hsum

theorem pieces_eq_one {rest piece : Nat} (hpos : 0 < rest) (hle : rest ≤ piece) :
    pieces rest piece = 1 := by
  unfold pieces
  rw [Nat.div_eq_iff (by omega)]
  omega

theorem pieces_le_iff {size piece count : Nat} (h : 0 < piece) :
    pieces size piece ≤ count ↔ size ≤ count * piece := by
  have hlt : count < pieces size piece ↔ count * piece < size := lt_pieces_iff h
  omega

theorem pieces_mono {small large : Nat} (piece : Nat) (h : small ≤ large) :
    pieces small piece ≤ pieces large piece :=
  Nat.div_le_div_right (by omega)

/-! ## Slots in use -/

theorem lt_slotsUsed_iff {total level index : Nat} :
    index < slotsUsed total (level + 1) ↔ index * capacity level < total :=
  lt_pieces_iff (capacity_pos level)

theorem slotsUsed_eq_zero_iff {total level : Nat} : slotsUsed total (level + 1) = 0 ↔ total = 0 :=
  pieces_eq_zero_iff (capacity_pos level)

/-- A node never needs more slots than it has. -/
theorem slotsUsed_le {total level : Nat} (h : total ≤ capacity (level + 1)) :
    slotsUsed total (level + 1) ≤ slotCount := by
  rw [slotsUsed_succ, pieces_le_iff (capacity_pos level), ← capacity_succ]
  exact h

theorem childSize_le (total level index : Nat) :
    childSize total (level + 1) index ≤ capacity level := Nat.min_le_right _ _

theorem childSize_of_not_last {total level index : Nat}
    (h : index + 1 < slotsUsed total (level + 1)) :
    childSize total (level + 1) index = capacity level := by
  have hnext := lt_slotsUsed_iff.mp h
  rw [Nat.add_mul] at hnext
  rw [childSize_succ]
  omega

theorem childSize_last {total level index : Nat} (h : index + 1 = slotsUsed total (level + 1)) :
    childSize total (level + 1) index = total - index * capacity level := by
  have hlast : ¬ (index + 1) * capacity level < total := by
    rw [← lt_slotsUsed_iff]
    omega
  rw [Nat.add_mul] at hlast
  rw [childSize_succ]
  omega

theorem childSize_pos {total level index : Nat} (h : index < slotsUsed total (level + 1)) :
    0 < childSize total (level + 1) index := by
  have hindex := lt_slotsUsed_iff.mp h
  have hspan := capacity_pos level
  rw [childSize_succ]
  omega

theorem childSize_eq_zero {total level index : Nat} (h : slotsUsed total (level + 1) ≤ index) :
    childSize total (level + 1) index = 0 := by
  have hindex : ¬ index * capacity level < total := by
    rw [← lt_slotsUsed_iff]
    omega
  rw [childSize_succ]
  omega

/-- A full node has all its slots in use, and each of them is full. -/
theorem slotsUsed_capacity (level : Nat) : slotsUsed (capacity (level + 1)) (level + 1) = slotCount := by
  rw [slotsUsed_succ, capacity_succ]
  exact pieces_mul _ (capacity_pos level)

theorem childSize_capacity {level index : Nat} (h : index < slotCount) :
    childSize (capacity (level + 1)) (level + 1) index = capacity level := by
  have hbelow : (index + 1) * capacity level ≤ slotCount * capacity level :=
    Nat.mul_le_mul_right _ h
  rw [← capacity_succ, Nat.add_mul] at hbelow
  rw [childSize_succ]
  omega

/-- An offset stays within the part of the file that its slot covers. -/
theorem mod_lt_childSize {size offset level : Nat} (h : offset < size) :
    offset % capacity level < childSize size (level + 1) (offset / capacity level) := by
  have hmod := Nat.mod_lt offset (capacity_pos level)
  have hrest := Nat.div_add_mod offset (capacity level)
  rw [childSize_succ, Nat.mul_comm]
  omega

theorem div_lt_slotsUsed {size offset level : Nat} (h : offset < size) :
    offset / capacity level < slotsUsed size (level + 1) := by
  rw [lt_slotsUsed_iff]
  exact Nat.lt_of_le_of_lt (Nat.div_mul_le_self _ _) h

/-! ## Sums over the slots in use -/

/-- A sum over the slots in use, split into the full ones and the last one. -/
theorem sum_children (value : Nat → Nat) (total level : Nat) :
    ((List.range (slotsUsed total (level + 1))).map
        fun index ↦ value (childSize total (level + 1) index)).sum =
      if slotsUsed total (level + 1) = 0 then 0
      else (slotsUsed total (level + 1) - 1) * value (capacity level) +
        value (childSize total (level + 1) (slotsUsed total (level + 1) - 1)) := by
  cases hused : slotsUsed total (level + 1) with
  | zero => rfl
  | succ last =>
    have hfull : (List.range last).map (fun index ↦ value (childSize total (level + 1) index)) =
        List.replicate last (value (capacity level)) := by
      rw [List.eq_replicate_iff]
      refine ⟨by rw [List.length_map, List.length_range], fun entry hentry ↦ ?_⟩
      obtain ⟨index, hindex, rfl⟩ := List.mem_map.mp hentry
      rw [List.mem_range] at hindex
      rw [childSize_of_not_last (by omega)]
    rw [List.range_succ, List.map_append, List.sum_append, hfull, List.sum_replicate]
    simp

/-- The sectors below a node are one for each slot in use and those below it. -/
theorem sectorNeeds_eq_sum (level size : Nat) :
    sectorNeeds (level + 1) size =
      ((List.range (slotsUsed size (level + 1))).map
        fun index ↦ 1 + sectorNeeds level (childSize size (level + 1) index)).sum := by
  rw [sum_children fun bytes ↦ 1 + sectorNeeds level bytes]
  by_cases hlevel : level = 0
  · subst hlevel
    simp only [sectorNeeds, true_or, if_true]
    split <;> omega
  · rw [sectorNeeds]
    by_cases hused : slotsUsed size (level + 1) = 0
    · rw [if_pos (.inr hused), if_pos hused, hused]
    · rw [if_neg (by simp [hlevel, hused]), if_neg hused]

/-- Pieces that fit evenly into a full slot can be counted slot by slot. -/
theorem sum_pieces_children {total level piece : Nat} (hpiece : 0 < piece)
    (hspan : piece ∣ capacity level) :
    ((List.range (slotsUsed total (level + 1))).map
        fun index ↦ pieces (childSize total (level + 1) index) piece).sum = pieces total piece := by
  obtain ⟨count, hcount⟩ := hspan
  rw [sum_children fun bytes ↦ pieces bytes piece]
  split
  · rename_i hused
    rw [slotsUsed_eq_zero_iff] at hused
    rw [hused, pieces_zero hpiece]
  · rename_i hused
    have hfull : pieces (capacity level) piece = count := by
      rw [hcount, Nat.mul_comm]
      exact pieces_mul count hpiece
    have hlast := childSize_last (by omega :
      slotsUsed total (level + 1) - 1 + 1 = slotsUsed total (level + 1))
    have hreach := lt_slotsUsed_iff.mp (by omega :
      slotsUsed total (level + 1) - 1 < slotsUsed total (level + 1))
    have hsplit : total = (slotsUsed total (level + 1) - 1) * count * piece +
        childSize total (level + 1) (slotsUsed total (level + 1) - 1) := by
      have hspan : (slotsUsed total (level + 1) - 1) * capacity level =
          (slotsUsed total (level + 1) - 1) * count * piece := by
        rw [hcount]
        ring
      omega
    rw [hfull]
    conv_rhs => rw [hsplit]
    rw [pieces_mul_add _ _ hpiece]

theorem capacity_dvd {small large : Nat} (h : small ≤ large) : capacity small ∣ capacity large :=
  Nat.mul_dvd_mul_right (pow_dvd_pow slotCount h) sectorSize

/-- The sectors below a node, counted level by level. -/
theorem sectorNeeds_eq_sum_pieces (level size : Nat) :
    sectorNeeds level size =
      ((List.range level).map fun height ↦ pieces size (capacity height)).sum := by
  induction level generalizing size with
  | zero => rfl
  | succ level ih =>
    have hsplit : ∀ indices : List Nat,
        (indices.map fun index ↦ 1 + sectorNeeds level (childSize size (level + 1) index)).sum =
          indices.length + ((List.range level).map fun height ↦
            (indices.map fun index ↦
              pieces (childSize size (level + 1) index) (capacity height)).sum).sum := by
      intro indices
      induction indices with
      | nil => simp
      | cons index rest ihrest =>
        rw [List.map_cons, List.sum_cons, ihrest, ih]
        simp only [List.map_cons, List.sum_cons, List.length_cons, List.sum_map_add]
        omega
    rw [sectorNeeds_eq_sum, hsplit, List.range_succ, List.map_append, List.sum_append,
      List.length_range, List.map_singleton, List.sum_singleton, ← slotsUsed_succ, Nat.add_comm]
    congr 2
    apply List.map_congr_left
    intro height hheight
    rw [List.mem_range] at hheight
    exact sum_pieces_children (capacity_pos height) (capacity_dvd (by omega))

theorem sectorNeeds_succ (level size : Nat) :
    sectorNeeds (level + 1) size = sectorNeeds level size + pieces size (capacity level) := by
  simp only [sectorNeeds_eq_sum_pieces, List.range_succ, List.map_append, List.sum_append,
    List.map_singleton, List.sum_singleton]

/-- Larger files need no fewer sectors. -/
theorem sectorNeeds_mono (level : Nat) {small large : Nat} (h : small ≤ large) :
    sectorNeeds level small ≤ sectorNeeds level large := by
  rw [sectorNeeds_eq_sum_pieces, sectorNeeds_eq_sum_pieces]
  exact List.sum_le_sum fun height _ ↦ pieces_mono _ h

/-- A slot one level up covers as much as all the slots of a node. -/
theorem slotCount_mul_pieces_le (level size : Nat) :
    slotCount * pieces size (capacity (level + 1)) ≤ pieces size (capacity level) + 28 := by
  have hspan := capacity_pos level
  have hreach := (pieces_le_iff hspan).mp (Nat.le_refl (pieces size (capacity level)))
  have hcover : pieces size (capacity (level + 1)) ≤ (pieces size (capacity level) + 28) / 29 := by
    rw [pieces_le_iff (capacity_pos _), capacity_succ]
    have hround : pieces size (capacity level) ≤
        (pieces size (capacity level) + 28) / 29 * slotCount := by
      show _ ≤ (pieces size (capacity level) + 28) / 29 * 29
      omega
    calc
      size ≤ pieces size (capacity level) * capacity level := hreach
      _ ≤ (pieces size (capacity level) + 28) / 29 * slotCount * capacity level :=
        Nat.mul_le_mul_right _ hround
      _ = _ := Nat.mul_assoc _ _ _
  show 29 * _ ≤ _
  omega

/-- A tree has a data sector for every sector's worth of bytes. -/
theorem pieces_le_sectorNeeds (level size : Nat) :
    pieces size sectorSize ≤ sectorNeeds (level + 1) size := by
  induction level with
  | zero =>
    have hbase : capacity 0 = sectorSize := rfl
    rw [sectorNeeds_succ, hbase]
    exact Nat.le_add_left _ _
  | succ level ih =>
    rw [sectorNeeds_succ]
    exact ih.trans (Nat.le_add_right _ _)

/-- The nodes of a tree add at most a twenty-eighth to its data sectors, up to one node for each
level. -/
theorem sectorNeeds_bound (level size : Nat) :
    28 * sectorNeeds (level + 1) size + pieces size (capacity level) ≤
      29 * pieces size sectorSize + 28 * level := by
  induction level with
  | zero =>
    have hbase : capacity 0 = sectorSize := rfl
    rw [sectorNeeds_succ, hbase]
    simp only [sectorNeeds]
    omega
  | succ level ih =>
    have hstep : 29 * _ ≤ _ := slotCount_mul_pieces_le level size
    rw [sectorNeeds_succ]
    omega

/-! ## The height of a tree -/

theorem capacity_mono {small large : Nat} (h : small ≤ large) : capacity small ≤ capacity large :=
  Nat.le_of_dvd (capacity_pos large) (capacity_dvd h)

theorem le_capacity_of_heightFor {size : Nat} {height : Fin maxLevel}
    (h : heightFor size = some height) : size ≤ capacity (height + 1) := by
  simpa using List.find?_some h

/-- No shallower tree holds as much. -/
theorem capacity_lt_of_heightFor {size : Nat} {height : Fin maxLevel}
    (h : heightFor size = some height) {lower : Nat} (hlower : lower < height) :
    capacity (lower + 1) < size := by
  rw [heightFor, List.find?_eq_some_iff_getElem] at h
  obtain ⟨-, index, hindex, hentry, hbefore⟩ := h
  rw [List.getElem_finRange] at hentry
  subst hentry
  have hmissed := hbefore lower hlower
  rw [List.getElem_finRange] at hmissed
  simpa using hmissed

/-- A tree can be found for the sizes that the deepest one holds. -/
theorem heightFor_eq_none_iff {size : Nat} : heightFor size = none ↔ capacity maxLevel < size := by
  rw [heightFor, List.find?_eq_none]
  constructor
  · intro h
    have htop := h ⟨3, by decide⟩ (List.mem_finRange _)
    simpa using htop
  · intro h height _
    rw [decide_eq_true_eq, not_le]
    exact Nat.lt_of_le_of_lt (capacity_mono height.isLt) h

theorem levelFor_eq_some_iff {size level : Nat} :
    levelFor size = some level ↔ ∃ height, heightFor size = some height ∧ height.val + 1 = level := by
  rw [levelFor]
  cases heightFor size with
  | none => simp
  | some height => simp

section Trees

variable {height size : Nat} (valid : height < maxLevel) (hsize : size ≤ capacity (height + 1))

include valid hsize

theorem le_capacity_maxLevel : size ≤ capacity maxLevel := hsize.trans (capacity_mono valid)

/-- The length of a tree is a number that a node can state. -/
theorem lt_of_le_capacity : size < 2 ^ 32 :=
  calc
    size ≤ capacity maxLevel := le_capacity_maxLevel valid hsize
    _ < 2 ^ 32 := by decide

/-- The sectors of a tree are numbers that a node can state. -/
theorem sectorNeeds_lt_of_le : sectorNeeds (height + 1) size < 2 ^ 32 := by
  have hlevel : height + 1 ≤ 4 := valid
  have hbound := sectorNeeds_bound height size
  have hdata : pieces size sectorSize ≤ slotCount ^ 4 :=
    (pieces_le_iff (by decide)).mpr (le_capacity_maxLevel valid hsize)
  have hlimit : slotCount ^ 4 = 707281 := by decide
  omega

/-- The length of a tree and the span of a slot of its root have a sum that is a word. -/
theorem add_capacity_lt : size + capacity height < Checked.wordLimit := by
  have hspan : capacity height ≤ capacity 3 := capacity_mono (Nat.le_of_lt_succ valid)
  calc
    size + capacity height ≤ capacity maxLevel + capacity 3 :=
      Nat.add_le_add (le_capacity_maxLevel valid hsize) hspan
    _ < Checked.wordLimit := by decide

end Trees

/-! ## In machine words -/

/-- The capacities that are words are those up to level `11`. -/
theorem capacity_lt_iff {level : Nat} : capacity level < Checked.wordLimit ↔ level ≤ 11 := by
  constructor
  · intro hlevel
    by_contra hlarge
    have hmono := capacity_mono (by omega : 12 ≤ level)
    have htop : Checked.wordLimit ≤ capacity 12 := by decide
    omega
  · intro hlevel
    have htop : capacity 11 < Checked.wordLimit := by decide
    exact Nat.lt_of_le_of_lt (capacity_mono hlevel) htop

/-- A level's capacity and that of the level below it have a sum that is a word. -/
theorem capacity_add_capacity_lt {level : Nat} (h : capacity (level + 1) < Checked.wordLimit) :
    capacity (level + 1) + capacity level < Checked.wordLimit := by
  rw [capacity_lt_iff] at h
  have hupper := capacity_mono h
  have hlower := capacity_mono (by omega : level ≤ 10)
  have htop : capacity 11 + capacity 10 < Checked.wordLimit := by decide
  omega

theorem sectorNeeds_lt {level size : Nat} (hlevel : level ≤ 11) (hsize : size < Checked.wordLimit) :
    sectorNeeds (level + 1) size < 2 ^ 58 + 12 := by
  have hbound := sectorNeeds_bound level size
  have hdata : pieces size sectorSize ≤ 2 ^ 57 := by
    rw [pieces_le_iff (by decide)]
    simp only [Checked.wordLimit, sectorSize] at hsize ⊢
    omega
  omega

namespace Words

theorem capacity_eq_ok {level : Nat} (h : Geometry.capacity level < Checked.wordLimit) :
    capacity level = .ok (Geometry.capacity level) := by
  have hlevel := capacity_lt_iff.mp h
  rw [capacity, if_pos (by omega), Checked.fit_eq_ok h]

theorem span_eq_ok {level : Nat} (h : Geometry.capacity level < Checked.wordLimit) :
    span (level + 1) = .ok (Geometry.capacity level) := by
  rw [span, Checked.sub_eq_ok (by omega)]
  exact capacity_eq_ok h

theorem slotsUsed_eq_ok {total level : Nat}
    (h : total + Geometry.capacity level < Checked.wordLimit) :
    slotsUsed total (level + 1) = .ok (Geometry.slotsUsed total (level + 1)) := by
  rw [slotsUsed, span_eq_ok (by omega), Checked.ok_bind, Checked.add_eq_ok h]
  rfl

theorem childSize_eq_ok {total level index : Nat}
    (hspan : Geometry.capacity level < Checked.wordLimit)
    (hstart : index * Geometry.capacity level < Checked.wordLimit) :
    childSize total (level + 1) index = .ok (Geometry.childSize total (level + 1) index) := by
  rw [childSize, span_eq_ok hspan, Checked.ok_bind, Checked.mul_eq_ok hstart]
  rfl

/-- A slot in use starts at an offset that is a word. -/
theorem childSize_of_used {total level index : Nat}
    (hword : total + Geometry.capacity level < Checked.wordLimit)
    (hindex : index < Geometry.slotsUsed total (level + 1)) :
    childSize total (level + 1) index = .ok (Geometry.childSize total (level + 1) index) := by
  have hstart := lt_slotsUsed_iff.mp hindex
  apply childSize_eq_ok
  · omega
  · omega

/-- No step of the recursive count leaves the machine word where its first sum does not. -/
theorem sectorNeeds_eq_ok {level size : Nat}
    (h : size + Geometry.capacity level < Checked.wordLimit) :
    sectorNeeds (level + 1) size = .ok (Geometry.sectorNeeds (level + 1) size) := by
  induction level generalizing size with
  | zero =>
    rw [sectorNeeds, slotsUsed_eq_ok h, Geometry.sectorNeeds]
    rfl
  | succ level ih =>
    rw [sectorNeeds, slotsUsed_eq_ok h, Checked.ok_bind, Geometry.sectorNeeds]
    by_cases hused : Geometry.slotsUsed size (level + 1 + 1) = 0
    · rw [if_pos (.inr hused), if_pos (.inr hused)]
      rfl
    · have hlast := lt_slotsUsed_iff.mp (by omega :
        Geometry.slotsUsed size (level + 1 + 1) - 1 < Geometry.slotsUsed size (level + 1 + 1))
      have hspan : Geometry.capacity (level + 1) < Checked.wordLimit := by omega
      have hsum := capacity_add_capacity_lt hspan
      have hchild := childSize_le size (level + 1) (Geometry.slotsUsed size (level + 1 + 1) - 1)
      have htotal := sectorNeeds_lt (capacity_lt_iff.mp hspan) (by omega : size < _)
      have hfull := sectorNeeds_lt (Nat.le_of_succ_le (capacity_lt_iff.mp hspan)) hspan
      rw [Geometry.sectorNeeds, if_neg (by simp [hused])] at htotal
      rw [if_neg (by simp [hused]), if_neg (by simp [hused])]
      rw [capacity_eq_ok hspan, Checked.ok_bind, ih hsum, Checked.ok_bind]
      simp only [Checked.wordLimit] at h hlast hspan hsum
      rw [Checked.add_eq_ok (by simp only [Checked.wordLimit]; omega), Checked.ok_bind,
        childSize_eq_ok hspan (by simp only [Checked.wordLimit]; omega), Checked.ok_bind,
        ih (by simp only [Checked.wordLimit]; omega), Checked.ok_bind,
        Checked.add_eq_ok (by simp only [Checked.wordLimit]; omega), Checked.ok_bind,
        Checked.mul_eq_ok (by simp only [Checked.wordLimit]; omega), Checked.ok_bind]
      exact Checked.add_eq_ok (by simp only [Checked.wordLimit]; omega)

/-- The sectors of a tree that a file can have are counted without leaving the machine word. -/
theorem sectorNeeds_of_heightFor {size : Nat} {height : Fin maxLevel}
    (h : heightFor size = some height) :
    sectorNeeds (height + 1) size = .ok (Geometry.sectorNeeds (height + 1) size) :=
  sectorNeeds_eq_ok (add_capacity_lt height.isLt (le_capacity_of_heightFor h))

end Words

end SectorFS.Geometry
