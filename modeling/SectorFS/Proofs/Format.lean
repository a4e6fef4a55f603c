import SectorFS.Volume
import SectorFS.Proofs.Index.Allocation
import SectorFS.Proofs.Resolution

/-!
# Formatting

Formatting lays the map and the root directory onto the first sectors of the disk: their
root nodes at the two fixed sectors, the tree of the map behind them, and the tree of the
root directory after that. It succeeds on a disk that has room for all of these, whatever
the disk held before, and leaves a sound image on which the root directory is the only
place.
-/

namespace SectorFS

open SectorFS.Geometry

variable {image changed : Image} {sectors : Nat}

/-! ## Two root files -/

namespace Image

/-- The map and the root directory are intact files on different sectors. -/
structure Rooted (image : Image) (sectors : Nat) (mapNode rootNode : Node) : Prop where
  intact_map : image.Intact sectors freeMapSector mapNode
  intact_root : image.Intact sectors rootSector rootNode
  size_map : image.size freeMapSector = FreeMap.byteCount sectors
  size_root : image.size rootSector = directorySize
  disjoint : ∀ member ∈ image.extent freeMapSector, member ∉ image.extent rootSector

namespace Rooted

variable {mapNode rootNode : Node}

theorem congr (h : image.Rooted sectors mapNode rootNode)
    (hmap : ∀ member ∈ image.spine freeMapSector, changed member = image member)
    (hroot : ∀ member ∈ image.spine rootSector, changed member = image member) :
    changed.Rooted sectors mapNode rootNode where
  intact_map := h.intact_map.congr hmap
  intact_root := h.intact_root.congr hroot
  size_map := (size_congr hmap).trans h.size_map
  size_root := (size_congr hroot).trans h.size_root
  disjoint := by
    rw [extent_congr hmap, extent_congr hroot]
    exact h.disjoint

theorem targetAt_eq_some (hempty : image.table rootSector = Directory.empty) {place : Place}
    {target : Target} (hplace : image.targetAt place = some target) :
    place = [] ∧ target = ⟨rootSector, true⟩ := by
  induction place generalizing target with
  | nil => exact ⟨rfl, (Option.some.inj hplace).symm⟩
  | cons index place ih =>
    obtain ⟨sector, hparent, hchild⟩ := targetAt_cons.mp hplace
    obtain ⟨-, htop⟩ := ih hparent
    obtain ⟨rfl, -⟩ := Target.mk.inj htop
    have hblank : (Directory.empty.table[index]).inUse = false := by
      simp [Directory.empty, Entry.inUse, Entry.blank]
    rw [child?, hempty, if_neg (by rw [hblank]; exact Bool.false_ne_true)] at hchild
    contradiction

/-- Nobody but the two roots owns anything. -/
theorem headOf_cases (hempty : image.table rootSector = Directory.empty) {owner : Owner} {head : Nat}
    (howner : image.headOf owner = some head) :
    owner = .map ∧ head = freeMapSector ∨ owner = .item [] ∧ head = rootSector := by
  cases owner with
  | map => exact .inl ⟨rfl, (Option.some.inj howner).symm⟩
  | item place =>
    obtain ⟨target, hplace, rfl⟩ := Option.map_eq_some_iff.mp howner
    obtain ⟨rfl, rfl⟩ := targetAt_eq_some hempty hplace
    exact .inr ⟨rfl, rfl⟩

theorem owns_cases (hempty : image.table rootSector = Directory.empty) {owner : Owner}
    {sector : Nat} (howns : image.Owns owner sector) :
    owner = .map ∧ sector ∈ image.extent freeMapSector ∨
      owner = .item [] ∧ sector ∈ image.extent rootSector := by
  obtain ⟨head, howner, hmem⟩ := howns
  obtain ⟨rfl, rfl⟩ | ⟨rfl, rfl⟩ := headOf_cases hempty howner
  · exact .inl ⟨rfl, hmem⟩
  · exact .inr ⟨rfl, hmem⟩

variable (h : image.Rooted sectors mapNode rootNode)
  (hempty : image.table rootSector = Directory.empty)
  (hmap : ∀ sector, (image.freeMap sectors).isUsed sector = true ↔
    sector ∈ image.extent freeMapSector ∨ sector ∈ image.extent rootSector)

include h hempty hmap

theorem toSound : image.Sound sectors := by
  constructor
  case intact =>
    intro owner head howner
    obtain ⟨-, rfl⟩ | ⟨-, rfl⟩ := headOf_cases hempty howner
    · exact ⟨mapNode, h.intact_map⟩
    · exact ⟨rootNode, h.intact_root⟩
  case size_map => exact h.size_map
  case size_directory =>
    intro place sector hplace
    obtain ⟨-, htarget⟩ := targetAt_eq_some hempty hplace
    rw [(Target.mk.inj htarget).1, h.size_root]
  case owner_eq =>
    intro owner other sector howner hother
    obtain ⟨rfl, hleft⟩ | ⟨rfl, hleft⟩ := owns_cases hempty howner <;>
      obtain ⟨rfl, hright⟩ | ⟨rfl, hright⟩ := owns_cases hempty hother
    · rfl
    · exact absurd hright (h.disjoint sector hleft)
    · exact absurd hleft (h.disjoint sector hright)
    · rfl
  case marked =>
    intro owner sector howns
    rw [hmap]
    exact (owns_cases hempty howns).imp And.right And.right
  case clean =>
    intro sector hsector
    rw [Sound.sectors_freeMap] at hsector
    apply Bool.eq_false_of_not_eq_true
    intro hused
    rcases (hmap sector).mp hused with hmem | hmem
    · exact absurd (h.intact_map.lt sector hmem) (Nat.not_lt_of_le hsector)
    · exact absurd (h.intact_root.lt sector hmem) (Nat.not_lt_of_le hsector)

/-- Two root files alone make an exact image if the map marks their sectors. -/
theorem toExact : image.Exact sectors where
  toSound := h.toSound hempty hmap
  owned sector hused := by
    rcases (hmap sector).mp hused with hmem | hmem
    · exact ⟨.map, freeMapSector, rfl, hmem⟩
    · exact ⟨.item [], rootSector, rfl, hmem⟩

end Rooted

end Image

/-! ## Maps that are filled from the start -/

namespace FreeMap

/-- The map of which the first `count` sectors are in use. -/
def filled (sectors count : Nat) : FreeMap := (blank sectors).markAll (List.range' 0 count)

variable {count more : Nat}

theorem sectors_filled (sectors count : Nat) : (filled sectors count).sectors = sectors :=
  sectors_markAll _ _

theorem lt_of_mem_range' (h : count ≤ sectors) :
    ∀ sector ∈ List.range' 0 count, sector < (blank sectors).sectors := fun sector hsector ↦ by
  have hbound := List.mem_range'_1.mp hsector
  show sector < sectors
  omega

theorem clean_filled (h : count ≤ sectors) : (filled sectors count).Clean :=
  (clean_blank sectors).markAll (lt_of_mem_range' h)

theorem isUsed_filled (h : count ≤ sectors) (sector : Nat) :
    (filled sectors count).isUsed sector = decide (sector < count) := by
  rw [filled, isUsed_markAll _ _ (lt_of_mem_range' h), isUsed_blank, Bool.false_or]
  refine decide_eq_decide.mpr ?_
  rw [List.mem_range'_1]
  omega

theorem free_filled (h : count ≤ sectors) :
    (filled sectors count).free = List.range' count (sectors - count) := by
  have hblank : (blank sectors).free = List.range' 0 sectors := by
    rw [free, ← List.range_eq_range']
    exact List.filter_eq_self.mpr fun sector _ ↦ by rw [isUsed_blank]; rfl
  have htake : List.range' 0 count = (blank sectors).free.take count := by
    rw [hblank, List.take_range'_of_length_ge h]
  rw [filled, htake, free_markAll_take, hblank, List.drop_range', Nat.mul_one, Nat.zero_add]

theorem take_free_filled (h : count + more ≤ sectors) :
    (filled sectors count).free.take more = List.range' count more := by
  rw [free_filled (by omega), List.take_range'_of_length_ge (by omega)]

/-- Claiming the first free sectors fills the map further. -/
theorem markAll_filled (h : count + more ≤ sectors) :
    (filled sectors count).markAll ((filled sectors count).free.take more) =
      filled sectors (count + more) := by
  rw [take_free_filled h, filled, filled, ← markAll_append, ← List.range'_append, Nat.one_mul,
    Nat.zero_add]

end FreeMap

/-! ## Laying out -/

/-- The disk has room for the two root files. -/
structure Formattable (sectors : Nat) (height : Fin maxLevel) : Prop where
  height_eq : heightFor (FreeMap.byteCount sectors) = some height
  room : 2 + sectorNeeds (height + 1) (FreeMap.byteCount sectors) + 10 ≤ sectors

theorem heightFor_directorySize : heightFor directorySize = some 0 := by decide

theorem sectorNeeds_directorySize : sectorNeeds 1 directorySize = 10 := by decide

variable {height : Fin maxLevel}

/-- A map that has a tree covers fewer sectors than a slot can name. -/
theorem lt_of_heightFor_byteCount (h : heightFor (FreeMap.byteCount sectors) = some height) :
    sectors < 2 ^ 32 := by
  have hsize := le_capacity_maxLevel height.isLt (le_capacity_of_heightFor h)
  have hlimit : 8 * capacity maxLevel < 2 ^ 32 := by decide
  rw [FreeMap.byteCount] at hsize
  omega

namespace Formattable

theorem lt (h : Formattable sectors height) : sectors < 2 ^ 32 :=
  lt_of_heightFor_byteCount h.height_eq

/-- Once the two root sectors are marked, laying out is two allocations. -/
theorem layOut_of_allocations (hroots : 2 ≤ sectors) (hword : sectors + 63 < Checked.wordLimit)
    {outcome : Except Stop ((Node × Node) × FreeMap)} {writes : List Write}
    (h : Performs (InPlace.using (do
        let mapNode ← Node.allocate (FreeMap.byteCount sectors)
        let rootNode ← Node.allocate directorySize
        return (mapNode, rootNode)) (FreeMap.filled sectors 2)) image sectors outcome writes) :
    Performs ((Volume.layOut sectors).using (FreeMap.blank sectors)) image sectors outcome
      writes := by
  have hfirst : freeMapSector < (FreeMap.blank sectors).sectors := (by omega : 0 < sectors)
  have hsecond : rootSector < ((FreeMap.blank sectors).mark freeMapSector).sectors := by
    rw [FreeMap.sectors_mark]
    exact (by omega : 1 < sectors)
  have hmarked : ((FreeMap.blank sectors).mark freeMapSector).mark rootSector =
      FreeMap.filled sectors 2 := rfl
  refine (Performs.mark hfirst).usingStep ((Performs.mark hsecond).usingStep ?_)
  rw [hmarked, FreeMap.checkedByteCount_eq_ok (by omega)]
  exact (Performs.usingPure _).usingStep h

/-- The trees of the map and of the root directory take the sectors behind the two root nodes. -/
theorem layOut_performs (h : Formattable sectors height) :
    ∃ mapNode rootNode writes, ∀ image,
      Performs ((Volume.layOut sectors).using (FreeMap.blank sectors)) image sectors
        (.ok ((mapNode, rootNode), FreeMap.filled sectors
          (2 + sectorNeeds (height + 1) (FreeMap.byteCount sectors) + 10))) writes ∧
      mapNode.Built (image.putAll writes) height (FreeMap.byteCount sectors)
        (List.range' 2 (sectorNeeds (height + 1) (FreeMap.byteCount sectors))) writes ∧
      rootNode.Built (image.putAll writes) 0 directorySize
        (List.range' (2 + sectorNeeds (height + 1) (FreeMap.byteCount sectors)) 10) [] := by
  have hroom := h.room
  have hlt := h.lt
  generalize hneeds : sectorNeeds (height + 1) (FreeMap.byteCount sectors) = needs at hroom ⊢
  obtain ⟨mapNode, writes, hmap⟩ :=
    @Node.allocate_performs sectors _ (FreeMap.filled sectors 2) height h.height_eq
      (FreeMap.clean_filled (by omega)) (FreeMap.sectors_filled sectors 2).le
      (by rw [FreeMap.sectors_filled]; omega)
      (by rw [hneeds, FreeMap.free_filled (by omega), List.length_range']; omega)
  rw [hneeds, FreeMap.markAll_filled (by omega), FreeMap.take_free_filled (by omega)] at hmap
  obtain ⟨rootNode, none, hroot⟩ :=
    @Node.allocate_performs sectors _ (FreeMap.filled sectors (2 + needs)) 0
      heightFor_directorySize (FreeMap.clean_filled (by omega)) (FreeMap.sectors_filled _ _).le
      (by rw [FreeMap.sectors_filled]; omega)
      (by
        rw [Fin.val_zero, sectorNeeds_directorySize, FreeMap.free_filled (by omega),
          List.length_range']
        omega)
  rw [Fin.val_zero, sectorNeeds_directorySize, FreeMap.markAll_filled (by omega),
    FreeMap.take_free_filled (by omega)] at hroot
  refine ⟨mapNode, rootNode, writes, fun image ↦ ?_⟩
  obtain ⟨hmapRun, hmapBuilt⟩ := hmap image
  obtain ⟨hrootRun, hrootBuilt⟩ := hroot (image.putAll writes)
  have hnone := hrootBuilt.writes_perm
  rw [Node.inner_zero, List.perm_nil, List.map_eq_nil_iff] at hnone
  subst hnone
  refine ⟨?_, hmapBuilt, hrootBuilt⟩
  refine layOut_of_allocations (by omega) (by simp only [Checked.wordLimit]; omega) ?_
  rw [← List.append_nil writes]
  exact hmapRun.usingBind (hrootRun.usingStep (Performs.usingPure _))

/-- Storing both root nodes leaves the sectors behind them. -/
theorem putAll_roots (image : Image) (mapNode rootNode : Node) {member : Nat}
    (hmember : 2 ≤ member) :
    image.putAll [(freeMapSector, mapNode.toSector), (rootSector, rootNode.toSector)] member =
      image member := by
  have hzero : freeMapSector = 0 := rfl
  have hone : rootSector = 1 := rfl
  apply Image.putAll_of_not_mem
  intro hmem
  simp only [List.map_cons, List.map_nil, List.mem_cons, List.not_mem_nil, or_false] at hmem
  omega

/-- A root takes its own sector and those of its tree behind it. -/
theorem nodup_root {root start : Nat} (count : Nat) (h : root < start) :
    (root :: List.range' start count).Nodup := by
  rw [List.nodup_cons, List.mem_range'_1]
  exact ⟨by omega, List.nodup_range'⟩

section Roots

variable {mapNode rootNode : Node} {inner : List Write}
  (hmap : mapNode.Built (image.putAll inner) height (FreeMap.byteCount sectors)
    (List.range' 2 (sectorNeeds (height + 1) (FreeMap.byteCount sectors))) inner)
  (hroot : rootNode.Built (image.putAll inner) 0 directorySize
    (List.range' (2 + sectorNeeds (height + 1) (FreeMap.byteCount sectors)) 10) [])
  (hkept : ∀ member, 2 ≤ member → changed member = image.putAll inner member)
  (hmapNode : changed freeMapSector = mapNode.toSector)
  (hrootNode : changed rootSector = rootNode.toSector)

include hmap hroot hkept hmapNode hrootNode

/-- The image once both root nodes are stored. -/
theorem rooted (h : Formattable sectors height) :
    changed.Rooted sectors mapNode rootNode ∧
      ∀ sector, sector < 2 + sectorNeeds (height + 1) (FreeMap.byteCount sectors) + 10 ↔
        sector ∈ changed.extent freeMapSector ∨ sector ∈ changed.extent rootSector := by
  have hroom := h.room
  have hzero : freeMapSector = 0 := rfl
  have hone : rootSector = 1 := rfl
  obtain ⟨hmapIntact, hmapExtent, hmapSize⟩ := @Image.intact_of_built _ _ sectors _ _ _ _ _ _ hmap
    (fun member hmember ↦ hkept member (List.mem_range'_1.mp hmember).1) hmapNode
    (nodup_root _ (by decide)) _ h.height_eq rfl
    (fun member hmember ↦ by
      rw [List.mem_cons, List.mem_range'_1] at hmember
      omega)
  obtain ⟨hrootIntact, hrootExtent, hrootSize⟩ := @Image.intact_of_built _ _ sectors _ _ _ _ _ []
    hroot
    (fun member hmember ↦ hkept member (Nat.le_of_add_right_le (List.mem_range'_1.mp hmember).1))
    hrootNode (nodup_root _ (by omega)) _ heightFor_directorySize rfl
    (fun member hmember ↦ by
      rw [List.mem_cons, List.mem_range'_1] at hmember
      omega)
  refine ⟨⟨hmapIntact, hrootIntact, hmapSize, hrootSize, ?_⟩, fun sector ↦ ?_⟩
  · rw [hmapExtent, hrootExtent]
    intro member hmember
    rw [List.mem_cons, List.mem_range'_1] at hmember ⊢
    omega
  · rw [hmapExtent, hrootExtent, List.mem_cons, List.mem_range'_1, List.mem_cons,
      List.mem_range'_1]
    omega

/-- The nodes of both root files are those that were written. -/
theorem restsOn_roots :
    changed.RestsOn (inner ++ [(freeMapSector, mapNode.toSector)]) freeMapSector ∧
      changed.RestsOn [(rootSector, rootNode.toSector)] rootSector := by
  have hone : rootSector = 1 := rfl
  constructor
  · exact Image.restsOn_of_built hmap
      (fun member hmember ↦ hkept member (List.mem_range'_1.mp hmember).1) hmapNode
      (nodup_root _ (by decide))
  · exact @Image.restsOn_of_built _ _ _ _ _ _ _ [] hroot
      (fun member hmember ↦ hkept member (Nat.le_of_add_right_le (List.mem_range'_1.mp hmember).1))
      hrootNode (nodup_root _ (by omega))

end Roots

end Formattable

/-! ## Formatting -/

namespace Image.Rooted

variable {mapNode rootNode : Node}

/-- Storing the map and then the root directory. -/
theorem store_performs (h : image.Rooted sectors mapNode rootNode) (hword : sectors < 2 ^ 32)
    {bits : FreeMap} (hbits : bits.sectors = sectors) (directory : Directory) :
    ∃ first second,
      Performs (bits.store ⟨freeMapSector, mapNode, 0⟩) image sectors (.ok ()) first ∧
      Performs (directory.store ⟨rootSector, rootNode, 0⟩) (image.putAll first) sectors (.ok ())
        second ∧
      (∀ member ∈ image.spine freeMapSector, image.putAll (first ++ second) member = image member) ∧
      (∀ member ∈ image.spine rootSector, image.putAll (first ++ second) member = image member) ∧
      (image.putAll (first ++ second)).freeMap sectors = bits ∧
      (image.putAll (first ++ second)).table rootSector = directory := by
  obtain ⟨first, hfirstRun, hfirst⟩ := @FreeMap.store_performs image sectors
    ⟨freeMapSector, mapNode, 0⟩ bits hbits h.intact_map (Nat.le_of_lt hword) h.size_map
  have hfirstKept {member : Nat} (hmember : member ∉ image.leaves freeMapSector) :
      image.putAll first member = image member := by
    have hsame := hfirst.kept first.length hmember
    rwa [List.take_length] at hsame
  have hmap : ∀ member ∈ image.spine freeMapSector, image.putAll first member = image member :=
    fun member hmember ↦ hfirstKept fun hleaf ↦ h.intact_map.not_mem_spine hleaf hmember
  have hroot : ∀ member ∈ image.spine rootSector, image.putAll first member = image member :=
    fun member hmember ↦ hfirstKept fun hleaf ↦
      h.disjoint member (mem_extent_iff.mpr (.inr hleaf)) (mem_extent_iff.mpr (.inl hmember))
  have hmiddle := h.congr hmap hroot
  obtain ⟨second, hsecondRun, hsecond⟩ := @Directory.store_performs (image.putAll first) sectors
    ⟨rootSector, rootNode, 0⟩ directory hmiddle.intact_root (Nat.le_of_lt hword) hmiddle.size_root
  have hsecondKept {member : Nat} (hmember : member ∉ (image.putAll first).leaves rootSector) :
      (image.putAll first).putAll second member = image.putAll first member := by
    have hsame := hsecond.kept second.length hmember
    rwa [List.take_length] at hsame
  have hmap' : ∀ member ∈ (image.putAll first).extent freeMapSector,
      (image.putAll first).putAll second member = image.putAll first member :=
    fun member hmember ↦ hsecondKept fun hleaf ↦
      hmiddle.disjoint member hmember (mem_extent_iff.mpr (.inr hleaf))
  have hroot' : ∀ member ∈ (image.putAll first).spine rootSector,
      (image.putAll first).putAll second member = image.putAll first member :=
    fun member hmember ↦ hsecondKept fun hleaf ↦ hmiddle.intact_root.not_mem_spine hleaf hmember
  refine ⟨first, second, hfirstRun, hsecondRun, fun member hmember ↦ ?_, fun member hmember ↦ ?_, ?_, ?_⟩
  all_goals rw [putAll_append]
  · have hextent := mem_extent_iff.mpr (.inl (spine_congr hmap ▸ hmember))
    exact (hmap' member hextent).trans (hmap member hmember)
  · exact (hroot' member (spine_congr hroot ▸ hmember)).trans (hroot member hmember)
  · rw [freeMap, content_congr hmiddle.intact_map hmap', ← freeMap]
    exact hfirst.freeMap_eq h.intact_map hbits h.size_map
  · exact hsecond.table_eq hmiddle.intact_root hmiddle.size_root

end Image.Rooted

/-- What formatting leaves: two root files on the nodes that were written, an empty root directory,
and a map that marks the sectors of both files. -/
structure Image.Formatted (image : Image) (sectors : Nat) (height : Fin maxLevel)
    (mapNode rootNode : Node) (inner : List Write) : Prop extends image.Exact sectors where
  attached : (Volume.withRoots ⟨freeMapSector, mapNode, 0⟩ ⟨rootSector, rootNode, 0⟩).Attached image
  table_eq : image.table rootSector = Directory.empty
  freeMap_eq : image.freeMap sectors =
    FreeMap.filled sectors (2 + sectorNeeds (height + 1) (FreeMap.byteCount sectors) + 10)
  map_restsOn : image.RestsOn (inner ++ [(freeMapSector, mapNode.toSector)]) freeMapSector
  root_restsOn : image.RestsOn [(rootSector, rootNode.toSector)] rootSector

namespace Volume

theorem create_eq_ok (h : sectors + 63 < Checked.wordLimit) :
    FreeMap.create sectors = .ok (FreeMap.blank sectors) := by
  rw [FreeMap.create, Checked.add_eq_ok h]
  rfl

/-- Formatting a disk that has room. The volume and the nodes of its root files do not depend on what
the disk held. -/
theorem format_performs (h : Formattable sectors height) :
    ∃ mapNode rootNode inner, ∀ image, ∃ writes,
      Performs format image sectors
        (.ok (withRoots ⟨freeMapSector, mapNode, 0⟩ ⟨rootSector, rootNode, 0⟩)) writes ∧
      (image.putAll writes).Formatted sectors height mapNode rootNode inner := by
  have hroom := h.room
  have hlt := h.lt
  obtain ⟨mapNode, rootNode, inner, hlayOut⟩ := @Formattable.layOut_performs sectors height h
  refine ⟨mapNode, rootNode, inner, fun image ↦ ?_⟩
  obtain ⟨hlayOut, hmap, hroot⟩ := hlayOut image
  have hkept (member : Nat) (hmember : 2 ≤ member) :=
    Formattable.putAll_roots (image.putAll inner) mapNode rootNode hmember
  obtain ⟨hrooted, hextents⟩ := h.rooted hmap hroot hkept rfl rfl
  obtain ⟨hmapRests, hrootRests⟩ := Formattable.restsOn_roots hmap hroot hkept rfl rfl
  obtain ⟨first, second, hfirst, hsecond, hmapKept, hrootKept, hbits, htable⟩ :=
    hrooted.store_performs hlt (FreeMap.sectors_filled sectors
      (2 + sectorNeeds (height + 1) (FreeMap.byteCount sectors) + 10)) Directory.empty
  have hfinal := hrooted.congr hmapKept hrootKept
  refine ⟨inner ++ ([(freeMapSector, mapNode.toSector), (rootSector, rootNode.toSector)] ++
      (first ++ second)), ?_, ?_⟩
  · rw [format]
    refine Performs.sectorCount.step ?_
    rw [if_neg (by have hone : rootSector = 1 := rfl; omega),
      create_eq_ok (by simp only [Checked.wordLimit]; omega)]
    refine (Performs.note _ _).step ((Performs.pure _).step (hlayOut.bind
      ((Performs.note _ _).step ?_)))
    have hmapStore : Performs (mapNode.store freeMapSector) (image.putAll inner) sectors (.ok ())
        [(freeMapSector, mapNode.toSector)] :=
      Performs.writeSector mapNode.toSector (by omega : 0 < sectors) (by decide)
    have hrootStore : Performs (rootNode.store rootSector)
        ((image.putAll inner).putAll [(freeMapSector, mapNode.toSector)]) sectors (.ok ())
        [(rootSector, rootNode.toSector)] :=
      Performs.writeSector rootNode.toSector (by omega : 1 < sectors) (by decide)
    refine hmapStore.bind (hrootStore.bind ?_)
    refine (Handle.fetch_performs hrooted.intact_map (Nat.le_of_lt hlt)).step
      ((Handle.fetch_performs hrooted.intact_root (Nat.le_of_lt hlt)).step
        ((Performs.note _ _).step (hfirst.bind ?_)))
    rw [← List.append_nil second]
    exact hsecond.bind (Performs.sync.step (Performs.pure _))
  · rw [Image.putAll_append, Image.putAll_append]
    refine ⟨hfinal.toExact htable fun sector ↦ ?_,
      ⟨rfl, hfinal.intact_map.node_eq, rfl, hfinal.intact_root.node_eq⟩, htable, hbits,
      hmapRests.congr hmapKept, hrootRests.congr hrootKept⟩
    rw [hbits, FreeMap.isUsed_filled hroom, decide_eq_true_iff, hextents,
      Image.extent_congr hmapKept, Image.extent_congr hrootKept]

/-- A disk without sectors for both root nodes is refused as it is. -/
theorem format_refused_of_le (h : sectors ≤ rootSector) :
    Performs format image sectors (.error (.error (.invalidArgument (.noRoomForRoots sectors))))
      [] := by
  rw [format]
  refine Performs.sectorCount.step ?_
  rw [if_pos h]
  exact Performs.fail _

/-- Where the root nodes fit and their trees do not, there is no space, whatever the disk holds. -/
theorem format_noSpace (hroots : 2 ≤ sectors) (hword : sectors + 63 < Checked.wordLimit)
    (h : ∀ height, ¬ Formattable sectors height) :
    ∃ writes, ∀ image, Performs format image sectors (.error (.error .noSpace)) writes := by
  suffices hlayOut : ∃ writes, ∀ image, Performs ((layOut sectors).using
      (FreeMap.blank sectors)) image sectors (.error (.error .noSpace)) writes by
    obtain ⟨writes, hrun⟩ := hlayOut
    refine ⟨writes, fun image ↦ Performs.sectorCount.step ?_⟩
    rw [if_neg (Nat.not_le_of_lt hroots), create_eq_ok hword]
    exact (Performs.note _ _).step ((Performs.pure _).step (hrun image).stop)
  by_cases hmap : ∃ level, heightFor (FreeMap.byteCount sectors) = some level ∧
      sectorNeeds (level + 1) (FreeMap.byteCount sectors) ≤ (FreeMap.filled sectors 2).free.length
  · obtain ⟨level, hlevel, hroom⟩ := hmap
    have hlt := lt_of_heightFor_byteCount hlevel
    obtain ⟨mapNode, writes, hallocate⟩ := @Node.allocate_performs sectors _
      (FreeMap.filled sectors 2) level hlevel (FreeMap.clean_filled hroots)
      (FreeMap.sectors_filled sectors 2).le (by rw [FreeMap.sectors_filled]; omega) hroom
    rw [FreeMap.free_filled hroots, List.length_range'] at hroom
    rw [FreeMap.markAll_filled (by omega)] at hallocate
    refine ⟨writes ++ [], fun image ↦
      Formattable.layOut_of_allocations hroots hword ((hallocate image).1.usingBind
        (Node.allocate_refused (FreeMap.clean_filled (by omega)) fun height hheight ↦ ?_).usingStop)⟩
    obtain rfl := Option.some.inj (heightFor_directorySize.symm.trans hheight)
    have hshort : ¬ 2 + sectorNeeds (level + 1) (FreeMap.byteCount sectors) + 10 ≤ sectors :=
      fun hle ↦ h level ⟨hlevel, hle⟩
    rw [FreeMap.free_filled (by omega), List.length_range', Fin.val_zero,
      sectorNeeds_directorySize]
    omega
  · refine ⟨[], fun image ↦ Formattable.layOut_of_allocations hroots hword ?_⟩
    refine (Node.allocate_refused (FreeMap.clean_filled hroots) fun level hlevel ↦ ?_).usingStop
    exact Nat.lt_of_not_le fun hle ↦ hmap ⟨level, hlevel, hle⟩

/-- Formatting a disk that has no room stops, the same way whatever the disk holds. -/
theorem format_refused (h : ∀ height, ¬ Formattable sectors height) :
    ∃ stop writes, ∀ image, Performs format image sectors (.error stop) writes := by
  by_cases hroots : sectors ≤ rootSector
  · exact ⟨_, _, fun image ↦ format_refused_of_le hroots⟩
  · by_cases hword : sectors + 63 < Checked.wordLimit
    · obtain ⟨writes, hrun⟩ := format_noSpace (Nat.lt_of_not_le hroots) hword h
      exact ⟨_, writes, hrun⟩
    · rw [format]
      refine ⟨.trap .overflow, [], fun image ↦ Performs.sectorCount.step ?_⟩
      have hcreate : FreeMap.create sectors = .error .overflow := by
        rw [FreeMap.create, Checked.add, Checked.fit, if_neg hword]
        rfl
      rw [if_neg hroots, hcreate]
      exact (Performs.note _ _).step (Performs.stop (Performs.trap _))

end Volume

end SectorFS
