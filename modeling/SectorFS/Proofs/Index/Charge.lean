import SectorFS.Proofs.Index.Allocation

/-!
# What an allocation charges for

An allocation knows the number of its sectors before it claims the first one, from a count
over sizes that never looks at a tree. Here the result is read back from the disk, node by
node through the slots that each node says it has in use: the sectors that are met are as
many as were counted, they are the lowest free ones, and the nodes among them are all that
was written. A size without room for its tree is refused before anything is claimed.

Nothing is said about what the data sectors hold: an allocation leaves them as they are.
-/

namespace SectorFS

/-! ## Free sectors in order -/

theorem FreeMap.pairwise_free (map : FreeMap) : map.free.Pairwise (· < ·) :=
  List.pairwise_lt_range.filter _

/-- The first free sectors lie below those that stay free. -/
theorem FreeMap.lt_of_mem_take_of_mem_drop {map : FreeMap} {count claimed sector : Nat}
    (hclaimed : claimed ∈ map.free.take count) (hsector : sector ∈ map.free.drop count) :
    claimed < sector := by
  have hordered := map.pairwise_free
  rw [← List.take_append_drop count map.free, List.pairwise_append] at hordered
  exact hordered.2.2 claimed hclaimed sector hsector

namespace Allocation

variable {α : Type} {allocation : Allocation α} {map : FreeMap} {drive final : Drive}

/-- A run on a map that ends well is a run on the space. -/
theorem eq_ok_of_using {value : α} {reached : FreeMap}
    (h : allocation.using map drive = .ok (value, reached) final) :
    allocation ⟨drive, map⟩ = .ok value ⟨final, reached⟩ := by
  rw [InPlace.using] at h
  cases hrun : allocation ⟨drive, map⟩ with
  | error stop space =>
    rw [hrun] at h
    contradiction
  | ok result space =>
    rw [hrun] at h
    obtain ⟨hvalue, rfl⟩ := EStateM.Result.ok.inj h
    obtain ⟨rfl, rfl⟩ := Prod.mk.inj hvalue
    rfl

end Allocation

namespace Node

open SectorFS.Geometry

variable {image : Image} {root node parent child : Node} {size : Nat}

/-! ## Reading a tree back -/

/-- The sectors below a node, as many as its own length prescribes. -/
def subtree (image : Image) (node : Node) : List Nat :=
  node.below image node.height node.length.toNat

/-- The nodes of a tree, read back from its root through the slots that each says it has in use. -/
inductive Reaches (image : Image) (root : Node) : Node → Prop
  | root : Reaches image root root
  | slot {parent child : Node} {index : Nat} (above : Reaches image root parent)
      (inner : 1 < parent.level) (used : index < slotsUsed parent.length.toNat parent.level)
      (stored : image.node? (parent.slot index) = some child) : Reaches image root child

/-- The sectors of a tree that are to hold its nodes. -/
def Holds (image : Image) (root : Node) (sector : Nat) : Prop :=
  ∃ parent index, Reaches image root parent ∧ 1 < parent.level ∧
    index < slotsUsed parent.length.toNat parent.level ∧ parent.slot index = sector

/-- A formed tree is formed as its own root states. -/
def Whole (image : Image) (node : Node) : Prop :=
  node.Formed image node.height node.length.toNat

theorem Formed.whole {height : Nat} (h : node.Formed image height size) : node.Whole image := by
  rw [Whole, h.states.height_eq, h.states.length_eq]
  exact h

namespace Whole

theorem charge_eq (h : node.Whole image) : node.charge.toNat = (node.subtree image).length := by
  rw [subtree, Formed.length_below h]
  exact (Formed.states h).charge_eq

/-- Below a slot in use of a node above level `1` there is a node of the level below. -/
theorem exists_child (h : parent.Whole image) (hlevel : 1 < parent.level) {index : Nat}
    (hindex : index < slotsUsed parent.length.toNat parent.level) :
    ∃ child, image.node? (parent.slot index) = some child ∧ child.Whole image ∧
      child.level + 1 = parent.level ∧
      child.length.toNat = childSize parent.length.toNat parent.level index := by
  rw [Whole] at h
  rw [level] at hlevel hindex ⊢
  obtain ⟨height, hheight⟩ : ∃ height, parent.height.val = height + 1 :=
    Nat.exists_eq_add_one.mpr (by omega)
  rw [hheight] at h hindex ⊢
  obtain ⟨child, hchild, hformed⟩ := h.2 index hindex
  refine ⟨child, hchild, hformed.whole, ?_, hformed.states.length_eq⟩
  rw [level, hformed.states.height_eq]

end Whole

namespace Reaches

theorem whole (h : root.Whole image) (hnode : Reaches image root node) : node.Whole image := by
  induction hnode with
  | root => exact h
  | slot above hlevel hindex hstored ih =>
    obtain ⟨child, hchild, hwhole, -⟩ := ih.exists_child hlevel hindex
    obtain rfl := Option.some.inj (hchild.symm.trans hstored)
    exact hwhole

/-- No node that is met covers more than its level holds. -/
theorem le_capacity (h : root.Whole image) (hroot : root.length.toNat ≤ capacity root.level)
    (hnode : Reaches image root node) : node.length.toNat ≤ capacity node.level := by
  induction hnode with
  | root => exact hroot
  | @slot parent child index above hlevel hindex hstored ih =>
    obtain ⟨_, hchild, -, hbelow, hlength⟩ := (above.whole h).exists_child hlevel hindex
    obtain rfl := Option.some.inj (hchild.symm.trans hstored)
    rw [hlength, ← hbelow]
    exact childSize_le _ _ _

theorem trans (hparent : Reaches image root parent) (hnode : Reaches image parent node) :
    Reaches image root node := by
  induction hnode with
  | root => exact hparent
  | slot _ hlevel hindex hstored ih => exact .slot ih hlevel hindex hstored

end Reaches

/-- The nodes below a node that is met lie below the root. -/
theorem Reaches.inner_subset (h : root.Whole image) (hnode : Reaches image root node)
    {sector : Nat} (hsector : sector ∈ node.inner image node.height node.length.toNat) :
    sector ∈ root.inner image root.height root.length.toNat := by
  induction hnode with
  | root => exact hsector
  | @slot parent child index above hlevel hindex hstored ih =>
    obtain ⟨_, hchild, -, hbelow, hlength⟩ := (above.whole h).exists_child hlevel hindex
    obtain rfl := Option.some.inj (hchild.symm.trans hstored)
    apply ih
    rw [level] at hlevel hindex hbelow hlength
    rw [level] at hbelow
    rw [← Nat.add_right_cancel hbelow] at hindex hlength ⊢
    rw [hlength] at hsector
    exact inner_child_subset hindex hstored hsector

/-- The sectors that hold the nodes of a formed tree are those that a slot in use leads to. -/
theorem Formed.mem_inner_iff {height : Nat} (h : root.Formed image height size) {sector : Nat} :
    sector ∈ root.inner image height size ↔ root.Holds image sector := by
  constructor
  · intro hsector
    induction height generalizing root size with
    | zero =>
      rw [inner_zero] at hsector
      contradiction
    | succ height ih =>
      obtain ⟨hheight, hlength, -⟩ := h.states
      have hlevel : root.level = height + 1 + 1 := by rw [level, hheight]
      rw [inner_eq_flatMap, List.mem_flatMap] at hsector
      obtain ⟨index, hindex, hsector⟩ := hsector
      rw [List.mem_range] at hindex
      obtain ⟨child, hchild, hformed⟩ := h.2 index hindex
      rw [← hlength, ← hlevel] at hindex
      rw [slotInner_succ hchild, List.mem_cons] at hsector
      rcases hsector with rfl | hsector
      · exact ⟨root, index, .root, by omega, hindex, rfl⟩
      · obtain ⟨parent, place, hparent, hrest⟩ := ih hformed hsector
        have hstep : Reaches image root child := .slot .root (by omega) hindex hchild
        exact ⟨parent, place, hstep.trans hparent, hrest⟩
  · rintro ⟨parent, index, hparent, hlevel, hindex, rfl⟩
    have hinner : parent.slot index ∈ parent.inner image parent.height parent.length.toNat := by
      rw [level] at hlevel hindex
      obtain ⟨height, hheight⟩ : ∃ height, parent.height.val = height + 1 :=
        Nat.exists_eq_add_one.mpr (by omega)
      rw [hheight] at hindex ⊢
      exact slot_mem_inner hindex
    have hroot := hparent.inner_subset h.whole hinner
    rwa [h.states.height_eq, h.states.length_eq] at hroot

/-! ## What an allocation makes -/

/-- A tree of `size` bytes was taken out of a space. -/
structure Charged (size : Nat) (before : Space) (root : Node) (after : Space) : Prop where
  levelFor_eq : levelFor size = some root.level
  size_le : size ≤ capacity root.level
  /-- No level below holds as much. -/
  least : ∀ level, 1 ≤ level → level < root.level → capacity level < size
  length_eq : root.length.toNat = size
  charge_eq : root.charge.toNat = sectorNeeds root.level size
  /-- The tree has the first free sectors, each once. -/
  subtree_eq : root.subtree after.drive.disk.sector =
    before.map.free.take (sectorNeeds root.level size)
  nodup : (root.subtree after.drive.disk.sector).Nodup
  length_subtree : (root.subtree after.drive.disk.sector).length = sectorNeeds root.level size
  lowest : ∀ claimed ∈ root.subtree after.drive.disk.sector, ∀ sector ∈ after.map.free,
    claimed < sector
  /-- Its sectors are those that are newly in use. -/
  sectors_eq : after.map.sectors = before.map.sectors
  isUsed_eq : ∀ sector, after.map.isUsed sector =
    (before.map.isUsed sector || decide (sector ∈ root.subtree after.drive.disk.sector))
  /-- Every node that is read back says what its place in the tree prescribes. -/
  child : ∀ parent, Reaches after.drive.disk.sector root parent → 1 < parent.level →
    ∀ index < slotsUsed parent.length.toNat parent.level, ∃ child,
      Image.node? after.drive.disk.sector (parent.slot index) = some child ∧
      child.level + 1 = parent.level ∧
      child.length.toNat = childSize parent.length.toNat parent.level index ∧
      child.charge.toNat = (child.subtree after.drive.disk.sector).length
  /-- The nodes below the root are written, each once, and nothing else is. -/
  written : ∃ nodes, after.drive.disk.written.toList = before.drive.disk.written.toList ++ nodes ∧
    nodes.Nodup ∧ ∀ sector, sector ∈ nodes ↔ root.Holds after.drive.disk.sector sector
  kept : ∀ sector, ¬ root.Holds after.drive.disk.sector sector →
    after.drive.disk.sector sector = before.drive.disk.sector sector
  size_eq : after.drive.disk.medium.size = before.drive.disk.medium.size

variable {map : FreeMap} {drive : Drive}

/-- An allocation that has room makes a tree. -/
theorem exists_charged {height : Fin maxLevel} (hheight : heightFor size = some height)
    (hclean : map.Clean) (hword : map.sectors ≤ 2 ^ 32)
    (hsectors : map.sectors ≤ drive.disk.sectorCount)
    (hmedium : drive.disk.sectorCount * sectorSize ≤ drive.disk.medium.size)
    (hfaults : drive.disk.faults = .none)
    (hroom : sectorNeeds (height + 1) size ≤ map.free.length) :
    ∃ root after, allocate size ⟨drive, map⟩ = .ok root after ∧
      Charged size ⟨drive, map⟩ root after := by
  obtain ⟨root, writes, hallocate⟩ := @allocate_performs drive.disk.sectorCount size map height
    hheight hclean hsectors hword hroom
  obtain ⟨hperforms, hbuilt⟩ := hallocate drive.disk.sector
  obtain rfl : root.height = height := Fin.ext hbuilt.formed.states.height_eq
  have hlength : root.length.toNat = size := hbuilt.formed.states.length_eq
  have hbounds (write : Write) (hwrite : write ∈ writes) : write.1 < drive.disk.sectorCount :=
    Nat.lt_of_lt_of_le (FreeMap.lt_of_mem_take_free _ (hbuilt.mem_claimed hwrite)) hsectors
  obtain ⟨final, hrun, hholds, hlog, hsize⟩ := hperforms.logged ⟨rfl, hmedium, rfl⟩ hfaults hbounds
  rw [← hholds.sector_eq] at hbuilt
  refine ⟨root, _, Allocation.eq_ok_of_using hrun, ?_⟩
  have hsubtree : root.subtree final.disk.sector = map.free.take (sectorNeeds root.level size) := by
    rw [subtree, hlength, hbuilt.below_eq, level]
  have hnodup := map.nodup_free.sublist (List.take_sublist (sectorNeeds root.level size) map.free)
  have hinner (sector : Nat) : sector ∈ writes.map Prod.fst ↔ root.Holds final.disk.sector sector :=
    hbuilt.writes_perm.mem_iff.trans hbuilt.formed.mem_inner_iff
  constructor
  case levelFor_eq => exact levelFor_eq_some_iff.mpr ⟨root.height, hheight, rfl⟩
  case size_le => exact le_capacity_of_heightFor hheight
  case least =>
    intro level hpos hlower
    obtain ⟨lower, rfl⟩ := Nat.exists_eq_add_one.mpr hpos
    exact capacity_lt_of_heightFor hheight (Nat.lt_of_succ_lt_succ hlower)
  case length_eq => exact hlength
  case charge_eq => exact hbuilt.formed.states.charge_eq
  case subtree_eq => exact hsubtree
  case nodup =>
    rw [hsubtree]
    exact hnodup
  case length_subtree =>
    rw [hsubtree, List.length_take]
    exact Nat.min_eq_left hroom
  case lowest =>
    intro claimed hclaimed sector hsector
    rw [hsubtree] at hclaimed
    rw [FreeMap.free_markAll_take] at hsector
    exact FreeMap.lt_of_mem_take_of_mem_drop hclaimed hsector
  case sectors_eq => exact FreeMap.sectors_markAll _ _
  case isUsed_eq =>
    intro sector
    rw [hsubtree]
    exact FreeMap.isUsed_markAll map sector FreeMap.lt_of_mem_take_free
  case child =>
    intro parent hparent hlevel index hindex
    obtain ⟨child, hchild, hwhole, hbelow, hlength⟩ :=
      (hparent.whole hbuilt.formed.whole).exists_child hlevel hindex
    exact ⟨child, hchild, hbelow, hlength, hwhole.charge_eq⟩
  case written =>
    exact ⟨writes.map Prod.fst, hlog, hbuilt.nodup_writes hnodup, hinner⟩
  case kept =>
    intro sector hsector
    rw [← hinner] at hsector
    calc
      final.disk.sector sector = Image.putAll drive.disk.sector writes sector :=
        congrFun hholds.sector_eq sector
      _ = drive.disk.sector sector := Image.putAll_of_not_mem _ hsector
  case size_eq => exact hsize

/-- There is no tree for the size, or fewer sectors are free than the shallowest one needs. -/
def Exceeds (size : Nat) (map : FreeMap) : Prop :=
  capacity maxLevel < size ∨
    ∃ level, levelFor size = some level ∧ map.free.length < sectorNeeds level size

theorem exceeds_iff : Exceeds size map ↔
    ∀ height, heightFor size = some height → map.free.length < sectorNeeds (height + 1) size := by
  rw [Exceeds, ← heightFor_eq_none_iff]
  cases hheight : heightFor size with
  | none =>
    refine ⟨fun _ height hsome ↦ ?_, fun _ ↦ .inl rfl⟩
    contradiction
  | some height =>
    constructor
    · rintro (hnone | ⟨level, hlevel, hshort⟩) other hother
      · contradiction
      · obtain ⟨found, hfound, rfl⟩ := levelFor_eq_some_iff.mp hlevel
        rwa [← Option.some.inj (hfound.symm.trans (hheight.trans hother))]
    · intro hshort
      exact .inr ⟨_, levelFor_eq_some_iff.mpr ⟨height, hheight, rfl⟩, hshort height rfl⟩

/-- An allocation is refused exactly where the tree does not fit, and then leaves the map and the
disk as they are. Otherwise it takes the lowest free sectors, as many as were counted beforehand,
and they are the sectors of the tree it makes. -/
theorem allocate_charges (hclean : map.Clean) (hword : map.sectors ≤ 2 ^ 32)
    (hsectors : map.sectors ≤ drive.disk.sectorCount)
    (hmedium : drive.disk.sectorCount * sectorSize ≤ drive.disk.medium.size)
    (hfaults : drive.disk.faults = .none) :
    ((∃ after, allocate size ⟨drive, map⟩ = .error (.error .noSpace) after) ↔ Exceeds size map) ∧
    (∀ stop after, allocate size ⟨drive, map⟩ = .error stop after →
      stop = .error .noSpace ∧ after.map = map ∧ after.drive.disk = drive.disk) ∧
    ∀ root after, allocate size ⟨drive, map⟩ = .ok root after →
      Charged size ⟨drive, map⟩ root after := by
  by_cases hexceeds : Exceeds size map
  · obtain ⟨journal, hrun⟩ := allocate_eq_noSpace hclean (exceeds_iff.mp hexceeds) drive
    refine ⟨iff_of_true ⟨_, hrun⟩ hexceeds, fun stop after hstop ↦ ?_, fun root after hroot ↦ ?_⟩
    · obtain ⟨rfl, rfl⟩ := EStateM.Result.error.inj (hrun.symm.trans hstop)
      exact ⟨rfl, rfl, rfl⟩
    · rw [hrun] at hroot
      contradiction
  · have hfits := hexceeds
    simp only [exceeds_iff, not_forall, Nat.not_lt] at hfits
    obtain ⟨height, hheight, hroom⟩ := hfits
    obtain ⟨root, after, hrun, hcharged⟩ :=
      exists_charged hheight hclean hword hsectors hmedium hfaults hroom
    refine ⟨iff_of_false ?_ hexceeds, fun stop after hstop ↦ ?_, fun other after hother ↦ ?_⟩
    · rintro ⟨after, hstop⟩
      rw [hrun] at hstop
      contradiction
    · rw [hrun] at hstop
      contradiction
    · obtain ⟨rfl, rfl⟩ := EStateM.Result.ok.inj (hrun.symm.trans hother)
      exact hcharged

/-- Where sector `1` of `64` is taken, a file one byte longer than a tree of level `1` holds takes
`32` sectors around it, and a file that needs `66` is refused. -/
theorem allocate_charges_around_taken :
    (∃ root after, allocate 3713
        ⟨⟨⟨⟨zeroBytes 8192⟩, 64, .none, .none, #[]⟩, #[]⟩, (FreeMap.blank 64).mark 1⟩ =
          .ok root after ∧
      root.level = 2 ∧ root.charge.toNat = 32 ∧
      root.subtree after.drive.disk.sector = 0 :: List.range' 2 31) ∧
    ∃ after, allocate 8000
      ⟨⟨⟨⟨zeroBytes 8192⟩, 64, .none, .none, #[]⟩, #[]⟩, (FreeMap.blank 64).mark 1⟩ =
        .error (.error .noSpace) after := by
  have hclean : ((FreeMap.blank 64).mark 1).Clean :=
    (FreeMap.clean_blank 64).markAll (by decide : ∀ sector ∈ [1], sector < 64)
  have hfree : ((FreeMap.blank 64).mark 1).free = 0 :: List.range' 2 62 := by decide
  have hmedium : 64 * sectorSize ≤ (zeroBytes 8192).size := (size_zeroBytes 8192).ge
  have hcharges (size : Nat) := @allocate_charges size ((FreeMap.blank 64).mark 1)
    ⟨⟨⟨zeroBytes 8192⟩, 64, .none, .none, #[]⟩, #[]⟩ hclean (by decide) (by decide) hmedium rfl
  refine ⟨?_, (hcharges 8000).1.mpr (.inr ⟨2, by decide, by rw [hfree]; decide⟩)⟩
  obtain ⟨hrefused, herror, hok⟩ := hcharges 3713
  cases hrun : allocate 3713
      ⟨⟨⟨⟨zeroBytes 8192⟩, 64, .none, .none, #[]⟩, #[]⟩, (FreeMap.blank 64).mark 1⟩ with
  | error stop after =>
    obtain ⟨rfl, -, -⟩ := herror stop after hrun
    obtain hlarge | ⟨level, hlevel, hshort⟩ := hrefused.mp ⟨after, hrun⟩
    · exact absurd hlarge (by decide)
    · obtain rfl := Option.some.inj ((by decide : levelFor 3713 = some 2).symm.trans hlevel)
      rw [hfree] at hshort
      exact absurd hshort (by decide)
  | ok root after =>
    have hcharged := hok root after hrun
    have hlevel : root.level = 2 := Option.some.inj
      (hcharged.levelFor_eq.symm.trans (by decide : levelFor 3713 = some 2))
    have hcharge := hcharged.charge_eq
    have hsubtree := hcharged.subtree_eq
    rw [hlevel] at hcharge hsubtree
    refine ⟨root, after, rfl, hlevel, hcharge, hsubtree.trans ?_⟩
    rw [hfree]
    decide

end Node

end SectorFS
