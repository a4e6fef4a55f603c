import SectorFS.Node
import SectorFS.Proofs.Geometry
import SectorFS.Proofs.Requests
import Mathlib.Data.List.Perm.Basic
import Mathlib.Data.List.Nodup

/-!
# Index trees on an image

The tree below a node is what an image holds in the sectors its slots name. `walk` lists
these sectors as they are met from the root downwards and from left to right, and marks
those that hold nodes; the sectors below a node, its data sectors and its inner nodes
are read off this list. `Formed` says that every node of the tree has the level, the
length and the charge that the size of its part of the file prescribes.

Both depend on the inner nodes only (`walk_congr`, `Formed.congr`), and on a formed tree
the lists have the lengths the geometry promises.
-/

namespace SectorFS

/-- The node an image holds at a sector, if it holds one there. -/
def Image.node? (image : Image) (sector : Nat) : Option Node := Node.ofSector? (image sector)

namespace Node

open SectorFS.Geometry

/-- The sector in a slot. -/
def slot (node : Node) (index : Nat) : Nat := (node.slots[index]?.getD 0).toNat

theorem slot_lt (node : Node) (index : Nat) : node.slot index < 2 ^ 32 := UInt32.toNat_lt _

/-! ## Walking a tree -/

/-- The sectors below a node of the given height that covers `size` bytes, each with whether it
holds a node. -/
def walk (image : Image) : (height : Nat) → Node → (size : Nat) → List (Nat × Bool)
  | 0, node, size => (List.range (slotsUsed size 1)).map fun index ↦ (node.slot index, false)
  | height + 1, node, size =>
    (List.range (slotsUsed size (height + 1 + 1))).flatMap fun index ↦
      (node.slot index, true) ::
        match image.node? (node.slot index) with
        | none => []
        | some child => walk image height child (childSize size (height + 1 + 1) index)

/-- All sectors below a node. -/
def below (image : Image) (height : Nat) (node : Node) (size : Nat) : List Nat :=
  (walk image height node size).map Prod.fst

/-- The data sectors below a node, from left to right. -/
def leaves (image : Image) (height : Nat) (node : Node) (size : Nat) : List Nat :=
  ((walk image height node size).filter fun visit ↦ !visit.2).map Prod.fst

/-- The sectors of the nodes below a node. -/
def inner (image : Image) (height : Nat) (node : Node) (size : Nat) : List Nat :=
  ((walk image height node size).filter fun visit ↦ visit.2).map Prod.fst

/-- The data sectors of the tree below a root, as many as its own length prescribes. -/
def data (image : Image) (root : Node) : List Nat :=
  leaves image root.height root root.length.toNat

/-- What a slot of a node of the given height leads to: the sector in it, and what is below that. -/
def slotWalk (image : Image) : (height : Nat) → (sector size : Nat) → List (Nat × Bool)
  | 0, sector, _ => [(sector, false)]
  | height + 1, sector, size =>
    (sector, true) ::
      match image.node? sector with
      | none => []
      | some child => walk image height child size

/-- The sectors of the nodes that a slot leads to. -/
def slotInner (image : Image) (height sector size : Nat) : List Nat :=
  ((slotWalk image height sector size).filter fun visit ↦ visit.2).map Prod.fst

variable {image changed : Image} {height size : Nat} {node : Node}

/-- A tree is the trees of its slots. -/
theorem walk_eq_flatMap (image : Image) (height : Nat) (node : Node) (size : Nat) :
    walk image height node size =
      (List.range (slotsUsed size (height + 1))).flatMap fun index ↦
        slotWalk image height (node.slot index) (childSize size (height + 1) index) := by
  cases height with
  | zero => rw [walk, List.map_eq_flatMap]; rfl
  | succ height => rfl

theorem below_eq_flatMap (image : Image) (height : Nat) (node : Node) (size : Nat) :
    below image height node size =
      (List.range (slotsUsed size (height + 1))).flatMap fun index ↦
        (slotWalk image height (node.slot index) (childSize size (height + 1) index)).map
          Prod.fst := by
  rw [below, walk_eq_flatMap, List.map_flatMap]

theorem inner_append_leaves_perm (image : Image) (height : Nat) (node : Node) (size : Nat) :
    (inner image height node size ++ leaves image height node size).Perm
      (below image height node size) := by
  rw [inner, leaves, ← List.map_append]
  exact (List.filter_append_perm (fun visit ↦ visit.2) (walk image height node size)).map _

theorem mem_below_iff {sector : Nat} :
    sector ∈ below image height node size ↔
      sector ∈ inner image height node size ∨ sector ∈ leaves image height node size := by
  rw [← (inner_append_leaves_perm image height node size).mem_iff, List.mem_append]

/-- Where no sector is met twice, no data sector holds a node of the tree. -/
theorem not_mem_inner_of_mem_leaves (hnodup : (below image height node size).Nodup)
    {sector : Nat} (h : sector ∈ leaves image height node size) :
    sector ∉ inner image height node size := by
  have hall := (inner_append_leaves_perm image height node size).nodup_iff.mpr hnodup
  intro hinner
  exact (List.nodup_append.mp hall).2.2 sector hinner sector h rfl

theorem nodup_leaves (hnodup : (below image height node size).Nodup) :
    (leaves image height node size).Nodup := by
  have hall := (inner_append_leaves_perm image height node size).nodup_iff.mpr hnodup
  exact (List.nodup_append.mp hall).2.1

theorem nodup_inner (hnodup : (below image height node size).Nodup) :
    (inner image height node size).Nodup := by
  have hall := (inner_append_leaves_perm image height node size).nodup_iff.mpr hnodup
  exact (List.nodup_append.mp hall).1

theorem leaves_zero (image : Image) (node : Node) (size : Nat) :
    leaves image 0 node size = (List.range (slotsUsed size 1)).map node.slot := by
  simp [leaves, walk, List.filter_map, Function.comp_def]

theorem inner_zero (image : Image) (node : Node) (size : Nat) : inner image 0 node size = [] := by
  simp [inner, walk, List.filter_map, Function.comp_def]

theorem below_zero (image : Image) (node : Node) (size : Nat) :
    below image 0 node size = (List.range (slotsUsed size 1)).map node.slot := by
  simp [below, walk, Function.comp_def]

theorem leaves_succ (image : Image) (height : Nat) (node : Node) (size : Nat) :
    leaves image (height + 1) node size =
      (List.range (slotsUsed size (height + 1 + 1))).flatMap fun index ↦
        match image.node? (node.slot index) with
        | none => []
        | some child => leaves image height child (childSize size (height + 1 + 1) index) := by
  rw [leaves, walk, List.filter_flatMap, List.map_flatMap]
  refine congrArg (fun block ↦ (List.range _).flatMap block) (funext fun index ↦ ?_)
  rw [List.filter_cons_of_neg (by simp)]
  cases image.node? (node.slot index) <;> rfl

theorem inner_eq_flatMap (image : Image) (height : Nat) (node : Node) (size : Nat) :
    inner image height node size =
      (List.range (slotsUsed size (height + 1))).flatMap fun index ↦
        slotInner image height (node.slot index) (childSize size (height + 1) index) := by
  rw [inner, walk_eq_flatMap, List.filter_flatMap, List.map_flatMap]
  rfl

/-! ## What a tree depends on -/

theorem slotInner_subset {index : Nat} (h : index < slotsUsed size (height + 1)) {sector : Nat}
    (hsector : sector ∈
      slotInner image height (node.slot index) (childSize size (height + 1) index)) :
    sector ∈ inner image height node size := by
  rw [inner_eq_flatMap, List.mem_flatMap]
  exact ⟨index, List.mem_range.mpr h, hsector⟩

theorem slotInner_succ {sector : Nat} {child : Node} (hchild : image.node? sector = some child) :
    slotInner image (height + 1) sector size = sector :: inner image height child size := by
  rw [slotInner, slotWalk, hchild, List.filter_cons_of_pos rfl, List.map_cons, inner]

theorem slot_mem_inner {index : Nat} (h : index < slotsUsed size (height + 1 + 1)) :
    node.slot index ∈ inner image (height + 1) node size := by
  refine slotInner_subset h ?_
  rw [slotInner, slotWalk, List.filter_cons_of_pos rfl, List.map_cons]
  exact List.mem_cons_self

theorem inner_child_subset {index : Nat} {child : Node} (h : index < slotsUsed size (height + 1 + 1))
    (hchild : image.node? (node.slot index) = some child) {sector : Nat}
    (hsector : sector ∈ inner image height child (childSize size (height + 1 + 1) index)) :
    sector ∈ inner image (height + 1) node size := by
  refine slotInner_subset h ?_
  rw [slotInner_succ hchild]
  exact List.mem_cons_of_mem _ hsector

theorem node?_congr {sector : Nat} (h : changed sector = image sector) :
    changed.node? sector = image.node? sector := by
  rw [Image.node?, h, Image.node?]

/-- A tree is the same in images that agree on its nodes. -/
theorem walk_congr
    (h : ∀ sector ∈ inner image height node size, changed sector = image sector) :
    walk changed height node size = walk image height node size := by
  induction height generalizing node size with
  | zero => rfl
  | succ height ih =>
    rw [walk, walk]
    apply List.flatMap_congr
    intro index hindex
    rw [List.mem_range] at hindex
    rw [node?_congr (h _ (slot_mem_inner hindex))]
    refine congrArg (_ :: ·) ?_
    cases hchild : image.node? (node.slot index) with
    | none => rfl
    | some child =>
      exact ih fun sector hsector ↦ h sector (inner_child_subset hindex hchild hsector)

theorem below_congr
    (h : ∀ sector ∈ inner image height node size, changed sector = image sector) :
    below changed height node size = below image height node size := by
  rw [below, walk_congr h, below]

theorem leaves_congr
    (h : ∀ sector ∈ inner image height node size, changed sector = image sector) :
    leaves changed height node size = leaves image height node size := by
  rw [leaves, walk_congr h, leaves]

theorem inner_congr
    (h : ∀ sector ∈ inner image height node size, changed sector = image sector) :
    inner changed height node size = inner image height node size := by
  rw [inner, walk_congr h, inner]

theorem slotWalk_congr {sector : Nat}
    (h : ∀ visited ∈ slotInner image height sector size, changed visited = image visited) :
    slotWalk changed height sector size = slotWalk image height sector size := by
  cases height with
  | zero => rfl
  | succ height =>
    have hself : sector ∈ slotInner image (height + 1) sector size := by
      rw [slotInner, slotWalk, List.filter_cons_of_pos rfl, List.map_cons]
      exact List.mem_cons_self
    rw [slotWalk, slotWalk, node?_congr (h _ hself)]
    refine congrArg (_ :: ·) ?_
    cases hchild : image.node? sector with
    | none => rfl
    | some child =>
      rw [slotInner_succ hchild] at h
      exact walk_congr fun visited hvisited ↦ h visited (List.mem_cons_of_mem _ hvisited)

/-! ## Formed trees -/

/-- A node states the level, the length and the charge of its part of the file. -/
structure States (node : Node) (height size : Nat) : Prop where
  height_eq : node.height.val = height
  length_eq : node.length.toNat = size
  charge_eq : node.charge.toNat = sectorNeeds (height + 1) size

namespace States

theorem valid (h : node.States height size) : height < maxLevel := h.height_eq ▸ node.height.isLt

theorem height_eq_zero (h : node.States 0 size) : node.height = 0 := Fin.ext h.height_eq

theorem height_ne_zero (h : node.States (height + 1) size) : node.height ≠ 0 := by
  intro hzero
  have hvalue := h.height_eq
  rw [hzero] at hvalue
  contradiction

end States

/-- Every node of the tree states what the size of its part of the file prescribes. -/
def Formed (image : Image) : (height : Nat) → Node → (size : Nat) → Prop
  | 0, node, size => node.States 0 size
  | height + 1, node, size => node.States (height + 1) size ∧
    ∀ index < slotsUsed size (height + 1 + 1), ∃ child, image.node? (node.slot index) = some child ∧
      Formed image height child (childSize size (height + 1 + 1) index)

/-- A slot leads to a formed tree. Below level `1` a slot leads to a data sector only. -/
def SlotFormed (image : Image) : (height : Nat) → (sector size : Nat) → Prop
  | 0, _, _ => True
  | height + 1, sector, size =>
    ∃ child, image.node? sector = some child ∧ Formed image height child size

theorem formed_iff : Formed image height node size ↔ node.States height size ∧
    ∀ index < slotsUsed size (height + 1),
      SlotFormed image height (node.slot index) (childSize size (height + 1) index) := by
  cases height with
  | zero => exact ⟨fun h ↦ ⟨h, fun _ _ ↦ trivial⟩, fun h ↦ h.1⟩
  | succ height => exact Iff.rfl

theorem Formed.states (h : Formed image height node size) : node.States height size := by
  cases height with
  | zero => exact h
  | succ height => exact h.1

theorem Formed.congr (hformed : Formed image height node size)
    (h : ∀ sector ∈ inner image height node size, changed sector = image sector) :
    Formed changed height node size := by
  induction height generalizing node size with
  | zero => exact hformed
  | succ height ih =>
    refine ⟨hformed.1, fun index hindex ↦ ?_⟩
    obtain ⟨child, hchild, hbelow⟩ := hformed.2 index hindex
    refine ⟨child, ?_, ih hbelow fun sector hsector ↦
      h sector (inner_child_subset hindex hchild hsector)⟩
    rw [node?_congr (h _ (slot_mem_inner hindex)), hchild]

theorem SlotFormed.congr {sector : Nat} (hformed : SlotFormed image height sector size)
    (h : ∀ visited ∈ slotInner image height sector size, changed visited = image visited) :
    SlotFormed changed height sector size := by
  cases height with
  | zero => trivial
  | succ height =>
    obtain ⟨child, hchild, hbelow⟩ := hformed
    rw [slotInner_succ hchild] at h
    refine ⟨child, (node?_congr (h _ List.mem_cons_self)).trans hchild, ?_⟩
    exact hbelow.congr fun visited hvisited ↦ h visited (List.mem_cons_of_mem _ hvisited)

/-- A formed tree has as many sectors as its size needs. -/
theorem Formed.length_below (h : Formed image height node size) :
    (below image height node size).length = sectorNeeds (height + 1) size := by
  induction height generalizing node size with
  | zero => simp [below_zero, sectorNeeds]
  | succ height ih =>
    rw [below_eq_flatMap, List.length_flatMap, sectorNeeds_eq_sum]
    refine congrArg List.sum (List.map_congr_left fun index hindex ↦ ?_)
    rw [List.mem_range] at hindex
    obtain ⟨child, hchild, hbelow⟩ := h.2 index hindex
    have hchildLength := ih hbelow
    rw [below, List.length_map] at hchildLength
    rw [slotWalk, hchild, List.length_map, List.length_cons, hchildLength, Nat.add_comm]

/-- A formed tree has a data sector for every sector's worth of bytes. -/
theorem Formed.length_leaves (h : Formed image height node size) :
    (leaves image height node size).length = pieces size sectorSize := by
  induction height generalizing node size with
  | zero =>
    rw [leaves_zero, List.length_map, List.length_range]
    rfl
  | succ height ih =>
    rw [leaves_succ, List.length_flatMap, ← sum_pieces_children (by decide : 0 < sectorSize)
      (Dvd.intro_left _ rfl : sectorSize ∣ capacity (height + 1))]
    refine congrArg List.sum (List.map_congr_left fun index hindex ↦ ?_)
    rw [List.mem_range] at hindex
    obtain ⟨child, hchild, hbelow⟩ := h.2 index hindex
    rw [hchild, ih hbelow]

/-- An entry of a list made of blocks, all of one length up to the block it is in. -/
theorem getElem?_flatMap_range {α : Type} {block : Nat → List α} {width which count : Nat}
    (hwhich : which < count) (hwidth : ∀ index < which, (block index).length = width)
    {place : Nat} (hplace : place < (block which).length) :
    ((List.range count).flatMap block)[which * width + place]? = (block which)[place]? := by
  have hsplit : List.range count =
      List.range which ++ (which :: (List.range (count - which - 1)).map (which + 1 + ·)) := by
    have hcount : count = which + (1 + (count - which - 1)) := by omega
    conv_lhs => rw [hcount, List.range_add, List.range_add]
    simp [Nat.add_assoc]
  have hlength : ((List.range which).flatMap block).length = which * width := by
    rw [List.length_flatMap, List.map_congr_left (g := fun _ ↦ width) fun index hindex ↦
      hwidth index (List.mem_range.mp hindex)]
    simp
  rw [hsplit, List.flatMap_append, List.flatMap_cons, List.getElem?_append_right (by omega),
    hlength, Nat.add_sub_cancel_left, List.getElem?_append_left hplace]

/-- The data sectors of a tree are those below its slots, each slot covering its span. -/
theorem Formed.leaves_getElem? (h : Formed image (height + 1) node size) {offset : Nat}
    (hoffset : offset < size) {child : Node}
    (hchild : image.node? (node.slot (offset / capacity (height + 1))) = some child) :
    (leaves image (height + 1) node size)[offset / sectorSize]? =
      (leaves image height child
        (childSize size (height + 1 + 1) (offset / capacity (height + 1))))[
          offset % capacity (height + 1) / sectorSize]? := by
  have hwhich : offset / capacity (height + 1) < slotsUsed size (height + 1 + 1) :=
    div_lt_slotsUsed hoffset
  have hblock : capacity (height + 1) = slotCount ^ (height + 1) * sectorSize := rfl
  have hplace : offset / sectorSize =
      offset / capacity (height + 1) * slotCount ^ (height + 1) +
        offset % capacity (height + 1) / sectorSize := by
    conv_lhs => rw [← Nat.div_add_mod offset (capacity (height + 1)), hblock, Nat.mul_comm,
      ← Nat.mul_assoc]
    rw [Nat.add_comm, Nat.add_mul_div_right _ _ (by decide), Nat.add_comm]
    rfl
  have hlength (index : Nat) (hindex : index < slotsUsed size (height + 1 + 1)) :
      (match image.node? (node.slot index) with
        | none => []
        | some child => leaves image height child (childSize size (height + 1 + 1) index)).length =
        pieces (childSize size (height + 1 + 1) index) sectorSize := by
    obtain ⟨child, hchild, hbelow⟩ := h.2 index hindex
    rw [hchild]
    exact hbelow.length_leaves
  rw [leaves_succ, hplace, getElem?_flatMap_range hwhich]
  · rw [hchild]
  · intro index hindex
    have hbefore : index + 1 < slotsUsed size (height + 1 + 1) :=
      Nat.lt_of_le_of_lt hindex hwhich
    rw [hlength index (by omega), childSize_of_not_last hbefore, hblock,
      pieces_mul _ (by decide)]
  · rw [hlength _ hwhich, lt_pieces_iff (by decide)]
    exact Nat.lt_of_le_of_lt (Nat.div_mul_le_self _ _) (mod_lt_childSize hoffset)

/-! ## Written trees -/

/-- A tree was made of the claimed sectors. Its nodes are what was written, each once. -/
structure Built (image : Image) (height : Nat) (node : Node) (size : Nat) (claimed : List Nat)
    (writes : List Write) : Prop where
  formed : Formed image height node size
  below_eq : below image height node size = claimed
  writes_perm : (writes.map Prod.fst).Perm (inner image height node size)

namespace Built

variable {claimed : List Nat} {writes : List Write}
  (h : Built image height node size claimed writes)

include h

theorem inner_subset {sector : Nat} (hsector : sector ∈ inner image height node size) :
    sector ∈ claimed := by
  rw [← h.below_eq, mem_below_iff]
  exact .inl hsector

theorem mem_claimed {write : Write} (hwrite : write ∈ writes) : write.1 ∈ claimed :=
  h.inner_subset (h.writes_perm.mem_iff.mp (List.mem_map_of_mem hwrite))

theorem nodup_writes (hclaimed : claimed.Nodup) : (writes.map Prod.fst).Nodup := by
  rw [h.writes_perm.nodup_iff]
  apply nodup_inner
  rw [h.below_eq]
  exact hclaimed

/-- A tree has as many nodes below its root as it has sectors that hold no bytes. -/
theorem length_writes : writes.length = sectorNeeds (height + 1) size - pieces size sectorSize := by
  have hall := (inner_append_leaves_perm image height node size).length_eq
  have hnodes := h.writes_perm.length_eq
  rw [List.length_append, h.formed.length_below, h.formed.length_leaves] at hall
  rw [List.length_map] at hnodes
  omega

end Built

end Node

end SectorFS
