import SectorFS.Handle
import SectorFS.Proofs.Index

/-!
# Files on an image

A file is known by the sector of its root node. Its extent is that sector and the sectors
below the node; its spine is the part of the extent that holds nodes. The bytes of the file
are those of its data sectors, one after the other, up to its length.

The spine decides where a file is and how long it is, the extent decides what it contains:
images that agree on the one or on the other agree on these. An intact file is one whose
tree is formed, of the height its length prescribes, and meets no sector twice.

For a transfer the root itself is enough: `Laid` says that a file is laid out below a root, wherever
the root is stored, and an intact file is (`Intact.laid`).
-/

namespace SectorFS

namespace Image

open SectorFS.Geometry

/-! ## What an image says about a file -/

/-- The sectors of the file whose root node is at a sector. -/
def extent (image : Image) (sector : Nat) : List Nat :=
  sector :: match image.node? sector with
    | none => []
    | some node => node.below image node.height node.length.toNat

/-- The sectors that hold nodes of the file. -/
def spine (image : Image) (sector : Nat) : List Nat :=
  sector :: match image.node? sector with
    | none => []
    | some node => node.inner image node.height node.length.toNat

/-- The sectors that hold bytes of the file, from its start on. -/
def leaves (image : Image) (sector : Nat) : List Nat :=
  match image.node? sector with
  | none => []
  | some node => node.leaves image node.height node.length.toNat

def size (image : Image) (sector : Nat) : Nat :=
  match image.node? sector with
  | none => 0
  | some node => node.length.toNat

/-- The byte at an offset of the given data sectors. -/
def byteIn (image : Image) (leaves : List Nat) (offset : Nat) : UInt8 :=
  byteAt (image (leaves[offset / sectorSize]?.getD 0)).bytes (offset % sectorSize)

/-- The bytes of the file. -/
@[irreducible] def content (image : Image) (sector : Nat) : ByteArray :=
  ⟨Array.ofFn fun offset : Fin (image.size sector) ↦ image.byteIn (image.leaves sector) offset⟩

@[simp] theorem size_content (image : Image) (sector : Nat) :
    (image.content sector).size = image.size sector := by
  rw [content]
  exact Array.size_ofFn

theorem byteAt_content {image : Image} {sector offset : Nat} (h : offset < image.size sector) :
    byteAt (image.content sector) offset = image.byteIn (image.leaves sector) offset := by
  rw [byteAt_of_lt (by rw [size_content]; exact h), ByteArray.getElem_eq_getElem_data]
  simp [content]

/-! ## What it depends on -/

section Congruence

variable {image changed : Image} {sector : Nat}

theorem mem_spine_self (image : Image) (sector : Nat) : sector ∈ image.spine sector :=
  List.mem_cons_self

theorem mem_extent_self (image : Image) (sector : Nat) : sector ∈ image.extent sector :=
  List.mem_cons_self

theorem mem_extent_iff {member : Nat} :
    member ∈ image.extent sector ↔
      member ∈ image.spine sector ∨ member ∈ image.leaves sector := by
  rw [extent, spine, leaves]
  cases image.node? sector with
  | none => simp
  | some node => simp only [List.mem_cons, Node.mem_below_iff, or_assoc]

theorem node?_of_spine (h : ∀ member ∈ image.spine sector, changed member = image member) :
    changed.node? sector = image.node? sector :=
  Node.node?_congr (h sector (mem_spine_self image sector))

theorem inner_subset_spine {node : Node} (hnode : image.node? sector = some node) {member : Nat}
    (h : member ∈ node.inner image node.height node.length.toNat) :
    member ∈ image.spine sector := by
  rw [spine, hnode]
  exact List.mem_cons_of_mem _ h

theorem extent_congr (h : ∀ member ∈ image.spine sector, changed member = image member) :
    changed.extent sector = image.extent sector := by
  rw [extent, extent, node?_of_spine h]
  cases hnode : image.node? sector with
  | none => rfl
  | some node =>
    exact congrArg (sector :: ·)
      (Node.below_congr fun member hmember ↦ h member (inner_subset_spine hnode hmember))

theorem spine_congr (h : ∀ member ∈ image.spine sector, changed member = image member) :
    changed.spine sector = image.spine sector := by
  rw [spine, spine, node?_of_spine h]
  cases hnode : image.node? sector with
  | none => rfl
  | some node =>
    exact congrArg (sector :: ·)
      (Node.inner_congr fun member hmember ↦ h member (inner_subset_spine hnode hmember))

theorem leaves_congr (h : ∀ member ∈ image.spine sector, changed member = image member) :
    changed.leaves sector = image.leaves sector := by
  rw [leaves, leaves, node?_of_spine h]
  cases hnode : image.node? sector with
  | none => rfl
  | some node =>
    exact Node.leaves_congr fun member hmember ↦ h member (inner_subset_spine hnode hmember)

theorem size_congr (h : ∀ member ∈ image.spine sector, changed member = image member) :
    changed.size sector = image.size sector := by
  rw [size, size, node?_of_spine h]

/-- Two files of one size are equal if they have the same bytes. -/
theorem content_ext (hspine : ∀ member ∈ image.spine sector, changed member = image member)
    (h : ∀ offset < image.size sector, changed.byteIn (image.leaves sector) offset =
      image.byteIn (image.leaves sector) offset) :
    changed.content sector = image.content sector := by
  have hsize := size_congr hspine
  apply eq_of_byteAt (by rw [size_content, size_content, hsize])
  intro offset hoffset
  rw [size_content] at hoffset
  rw [byteAt_content hoffset, byteAt_content (hsize ▸ hoffset), leaves_congr hspine,
    h offset (hsize ▸ hoffset)]

end Congruence

/-! ## Nodes that were written -/

/-- The sectors of the file that hold nodes are those of the given writes, and the image holds what
these wrote. -/
structure RestsOn (image : Image) (nodes : List Write) (sector : Nat) : Prop where
  mem_spine_iff : ∀ member, member ∈ image.spine sector ↔ member ∈ nodes.map Prod.fst
  written : ∀ write ∈ nodes, image write.1 = write.2

namespace RestsOn

variable {image changed : Image} {nodes : List Write} {sector : Nat}

theorem mem_spine (h : image.RestsOn nodes sector) {write : Write} (hwrite : write ∈ nodes) :
    write.1 ∈ image.spine sector :=
  (h.mem_spine_iff write.1).mpr (List.mem_map_of_mem hwrite)

/-- A file whose nodes stay as they are goes on to rest on what was written. -/
theorem congr (h : image.RestsOn nodes sector)
    (hspine : ∀ member ∈ image.spine sector, changed member = image member) :
    changed.RestsOn nodes sector where
  mem_spine_iff member := by rw [spine_congr hspine, h.mem_spine_iff]
  written write hwrite := (hspine _ (h.mem_spine hwrite)).trans (h.written write hwrite)

/-- Two images on which a file rests on the same writes have the same nodes of it. -/
theorem agree (h : image.RestsOn nodes sector) (hchanged : changed.RestsOn nodes sector) :
    ∀ member ∈ image.spine sector, changed member = image member := by
  intro member hmember
  obtain ⟨write, hwrite, rfl⟩ := List.mem_map.mp ((h.mem_spine_iff member).mp hmember)
  rw [hchanged.written write hwrite, h.written write hwrite]

end RestsOn

end Image

/-! ## Files known by their roots -/

namespace Node

open SectorFS.Geometry

variable {image changed : Image} {sectors : Nat} {root : Node}

/-- The bytes of the file that a root leads to, wherever the root itself is stored. -/
@[irreducible] def content (image : Image) (root : Node) : ByteArray :=
  ⟨Array.ofFn fun offset : Fin root.length.toNat ↦ image.byteIn (root.data image) offset⟩

@[simp] theorem size_content (image : Image) (root : Node) :
    (root.content image).size = root.length.toNat := by
  rw [content]
  exact Array.size_ofFn

theorem byteAt_content {offset : Nat} (h : offset < root.length.toNat) :
    byteAt (root.content image) offset = image.byteIn (root.data image) offset := by
  rw [byteAt_of_lt (by rw [size_content]; exact h), ByteArray.getElem_eq_getElem_data]
  simp [content]

/-- The data sectors are the same while the nodes stay as they are. -/
theorem data_congr (hinner : ∀ member ∈ root.inner image root.height root.length.toNat,
    changed member = image member) : root.data changed = root.data image :=
  leaves_congr hinner

/-- The root of a formed tree, below which there are different sectors of the disk. -/
structure Laid (image : Image) (sectors : Nat) (root : Node) : Prop where
  size_le : root.length.toNat ≤ capacity (root.height + 1)
  formed : root.Formed image root.height root.length.toNat
  nodup : (root.below image root.height root.length.toNat).Nodup
  lt : ∀ member ∈ root.below image root.height root.length.toNat, member < sectors

namespace Laid

variable (h : root.Laid image sectors)

include h

theorem inner_lt {member : Nat}
    (hmember : member ∈ root.inner image root.height root.length.toNat) : member < sectors :=
  h.lt member (mem_below_iff.mpr (.inl hmember))

theorem data_lt {leaf : Nat} (hleaf : leaf ∈ root.data image) : leaf < sectors :=
  h.lt leaf (mem_below_iff.mpr (.inr hleaf))

theorem nodup_data : (root.data image).Nodup := nodup_leaves h.nodup

theorem not_mem_inner {leaf : Nat} (hleaf : leaf ∈ root.data image) :
    leaf ∉ root.inner image root.height root.length.toNat :=
  not_mem_inner_of_mem_leaves h.nodup hleaf

theorem length_data : (root.data image).length = pieces root.length.toNat sectorSize :=
  h.formed.length_leaves

/-- The data sectors have room for all bytes of the file. -/
theorem le_length_data : root.length.toNat ≤ (root.data image).length * sectorSize := by
  rw [h.length_data]
  exact (pieces_le_iff (by decide)).mp (Nat.le_refl _)

/-- The data sector that holds the byte at an offset. -/
theorem exists_leaf {offset : Nat} (hoffset : offset < root.length.toNat) :
    ∃ leaf ∈ root.data image, (root.data image)[offset / sectorSize]? = some leaf := by
  have hplace : offset / sectorSize < (root.data image).length := by
    rw [h.length_data, lt_pieces_iff (by decide)]
    exact Nat.lt_of_le_of_lt (Nat.div_mul_le_self _ _) hoffset
  exact ⟨_, List.getElem_mem hplace, List.getElem?_eq_getElem hplace⟩

theorem congr (hinner : ∀ member ∈ root.inner image root.height root.length.toNat,
    changed member = image member) : root.Laid changed sectors where
  size_le := h.size_le
  formed := h.formed.congr hinner
  nodup := by
    rw [below_congr hinner]
    exact h.nodup
  lt := by
    rw [below_congr hinner]
    exact h.lt

end Laid

end Node

namespace Image

open SectorFS.Geometry

/-! ## Intact files -/

/-- At a sector there is the root of a formed tree of the height that its length prescribes, all of
whose sectors are different sectors of the disk. -/
structure Intact (image : Image) (sectors sector : Nat) (node : Node) : Prop where
  node_eq : image.node? sector = some node
  height_eq : heightFor node.length.toNat = some node.height
  formed : node.Formed image node.height node.length.toNat
  nodup : (image.extent sector).Nodup
  lt : ∀ member ∈ image.extent sector, member < sectors

namespace Intact

variable {image changed : Image} {sectors sector : Nat} {node : Node}

theorem extent_eq (h : image.Intact sectors sector node) :
    image.extent sector = sector :: node.below image node.height node.length.toNat := by
  rw [extent, h.node_eq]

theorem length_extent (h : image.Intact sectors sector node) :
    (image.extent sector).length = 1 + sectorNeeds (node.height + 1) node.length.toNat := by
  rw [h.extent_eq, List.length_cons, h.formed.length_below, Nat.add_comm]

theorem leaves_eq (h : image.Intact sectors sector node) :
    image.leaves sector = node.data image := by
  rw [leaves, h.node_eq, Node.data]

theorem spine_eq (h : image.Intact sectors sector node) :
    image.spine sector = sector :: node.inner image node.height node.length.toNat := by
  rw [spine, h.node_eq]

theorem size_eq (h : image.Intact sectors sector node) :
    image.size sector = node.length.toNat := by
  rw [size, h.node_eq]

theorem self_lt (h : image.Intact sectors sector node) : sector < sectors :=
  h.lt sector (mem_extent_self image sector)

theorem le_capacity (h : image.Intact sectors sector node) :
    node.length.toNat ≤ capacity (node.height + 1) := le_capacity_of_heightFor h.height_eq

/-- An intact file is laid out below its root. -/
theorem laid (h : image.Intact sectors sector node) : node.Laid image sectors where
  size_le := h.le_capacity
  formed := h.formed
  nodup := by
    have hnodup := h.nodup
    rw [h.extent_eq, List.nodup_cons] at hnodup
    exact hnodup.2
  lt member hmember := by
    refine h.lt member ?_
    rw [h.extent_eq]
    exact List.mem_cons_of_mem _ hmember

theorem inner_lt (h : image.Intact sectors sector node) {member : Nat}
    (hmember : member ∈ node.inner image node.height node.length.toNat) : member < sectors :=
  h.laid.inner_lt hmember

theorem leaf_word (h : image.Intact sectors sector node) (hword : sectors ≤ 2 ^ 32) :
    ∀ leaf ∈ node.data image, leaf < 2 ^ 57 := by
  intro leaf hleaf
  have hlt := h.laid.data_lt hleaf
  omega

/-- No data sector of the file holds one of its nodes. -/
theorem not_mem_spine (h : image.Intact sectors sector node) {leaf : Nat}
    (hleaf : leaf ∈ image.leaves sector) : leaf ∉ image.spine sector := by
  have hnodup := h.nodup
  rw [h.extent_eq, List.nodup_cons] at hnodup
  rw [h.leaves_eq] at hleaf
  rw [h.spine_eq, List.mem_cons, not_or]
  refine ⟨?_, Node.not_mem_inner_of_mem_leaves hnodup.2 hleaf⟩
  rintro rfl
  exact hnodup.1 (Node.mem_below_iff.mpr (.inr hleaf))

/-- The data sector that holds the byte at an offset. -/
theorem exists_leaf (h : image.Intact sectors sector node) {offset : Nat}
    (hoffset : offset < image.size sector) :
    ∃ leaf ∈ image.leaves sector, (image.leaves sector)[offset / sectorSize]? = some leaf := by
  rw [h.size_eq] at hoffset
  rw [h.leaves_eq]
  exact h.laid.exists_leaf hoffset

theorem content_eq (h : image.Intact sectors sector node) :
    image.content sector = node.content image := by
  apply eq_of_byteAt (by rw [size_content, Node.size_content, h.size_eq])
  intro offset hoffset
  rw [size_content] at hoffset
  rw [byteAt_content hoffset, Node.byteAt_content (h.size_eq ▸ hoffset), h.leaves_eq]

/-- A file stays intact while its nodes stay as they are. -/
theorem congr (h : image.Intact sectors sector node)
    (hspine : ∀ member ∈ image.spine sector, changed member = image member) :
    changed.Intact sectors sector node where
  node_eq := (node?_of_spine hspine).trans h.node_eq
  height_eq := h.height_eq
  formed := h.formed.congr fun member hmember ↦
    hspine member (inner_subset_spine h.node_eq hmember)
  nodup := by
    rw [extent_congr hspine]
    exact h.nodup
  lt := by
    rw [extent_congr hspine]
    exact h.lt

end Intact

section Roots

variable {base changed : Image} {sectors sector size : Nat} {node : Node} {height : Nat}
  {claimed : List Nat} {writes : List Write}
  (hbuilt : node.Built (base.putAll writes) height size claimed writes)
  (hkept : ∀ member ∈ claimed, changed member = base.putAll writes member)
  (hnode : changed sector = node.toSector) (hnodup : (sector :: claimed).Nodup)

include hbuilt hkept hnode hnodup

/-- A tree becomes an intact file once its root is stored. -/
theorem intact_of_built {level : Fin maxLevel} (hlevel : heightFor size = some level)
    (hheight : level.val = height) (hlt : ∀ member ∈ sector :: claimed, member < sectors) :
    changed.Intact sectors sector node ∧ changed.extent sector = sector :: claimed ∧
      changed.size sector = size := by
  obtain rfl := hbuilt.formed.states.length_eq
  obtain rfl := hbuilt.formed.states.height_eq
  obtain rfl := Fin.ext hheight
  have hroot : changed.node? sector = some node := by
    rw [node?, hnode, Node.ofSector?_toSector]
  have hinner (member : Nat)
      (hmember : member ∈ node.inner (base.putAll writes) node.height node.length.toNat) :
      changed member = base.putAll writes member := hkept member (hbuilt.inner_subset hmember)
  have hextent : changed.extent sector = sector :: claimed := by
    rw [extent, hroot]
    simp only [Node.below_congr hinner, hbuilt.below_eq]
  refine ⟨⟨hroot, hlevel, hbuilt.formed.congr hinner, hextent ▸ hnodup, hextent ▸ hlt⟩, hextent, ?_⟩
  rw [Image.size, hroot]

/-- A file whose root was stored behind its tree rests on what was written. -/
theorem restsOn_of_built : changed.RestsOn (writes ++ [(sector, node.toSector)]) sector := by
  have hroot : changed.node? sector = some node := by
    rw [node?, hnode, Node.ofSector?_toSector]
  have hspine : changed.spine sector = sector :: node.inner (base.putAll writes) height size := by
    rw [spine, hroot]
    simp only [hbuilt.formed.states.height_eq, hbuilt.formed.states.length_eq,
      Node.inner_congr fun member hmember ↦ hkept member (hbuilt.inner_subset hmember)]
  constructor
  case mem_spine_iff =>
    intro member
    rw [hspine, List.map_append, List.mem_append, hbuilt.writes_perm.mem_iff, List.mem_cons,
      or_comm]
    exact or_congr_right List.mem_singleton.symm
  case written =>
    intro write hwrite
    rcases List.mem_append.mp hwrite with hinner | hhead
    · rw [hkept _ (hbuilt.mem_claimed hinner)]
      exact putAll_of_mem base (hbuilt.nodup_writes (List.nodup_cons.mp hnodup).2) hinner
    · obtain rfl := List.mem_singleton.mp hhead
      exact hnode

end Roots

/-- A file keeps its bytes while its extent stays as it is. -/
theorem content_congr {image changed : Image} {sectors sector : Nat} {node : Node}
    (h : image.Intact sectors sector node)
    (hextent : ∀ member ∈ image.extent sector, changed member = image member) :
    changed.content sector = image.content sector := by
  refine content_ext (fun member hmember ↦ hextent member (mem_extent_iff.mpr (.inl hmember)))
    fun offset hoffset ↦ ?_
  obtain ⟨leaf, hleaf, hplace⟩ := h.exists_leaf hoffset
  rw [byteIn, byteIn, hplace, Option.getD_some, hextent leaf (mem_extent_iff.mpr (.inr hleaf))]

end Image

end SectorFS
