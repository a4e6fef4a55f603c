import SectorFS.Proofs.Index.Allocation
import SectorFS.Proofs.Linking.Writing
import SectorFS.Proofs.Resolution

/-!
# What a creation does

A creation is refused before its first write unless the path has a parent directory with a
free entry and without the name, the size has a tree, and the free sectors are enough for
the tree and its root. Otherwise it claims the first free sectors, the root's first, and
writes three things in this order: the new tree, on sectors nobody owns; the table of the
parent directory with one entry changed; and the map with the claimed sectors marked.
-/

namespace SectorFS

open SectorFS.Geometry

variable {image : Image} {sectors : Nat}

namespace Image

/-- A path at which a file of some size can be created: its parent's place and sector, its last
component, the entry it will take, and the height of its tree. -/
structure Admits (image : Image) (sectors : Nat) (path : Path) (size : Nat) (parent : Place)
    (directory : Nat) (name : String) (index : Fin entryCount) (height : Fin maxLevel) : Prop where
  name_eq : path.lastName? = some name
  parent_eq : image.resolveParent path = .ok directory
  place_eq : image.targetAt parent = some ⟨directory, true⟩
  absent : (image.table directory).index? name = none
  vacant : (image.table directory).freeIndex? = some index
  height_eq : heightFor size = some height
  room : sectorNeeds (height + 1) size + 1 ≤ (image.freeMap sectors).free.length

/-- Nothing is at the place that the new file will have. -/
theorem Admits.targetAt_self {path : Path} {size directory : Nat} {parent : Place} {name : String}
    {index : Fin entryCount} {height : Fin maxLevel}
    (hadmits : image.Admits sectors path size parent directory name index height) :
    image.targetAt (index :: parent) = none := by
  rw [targetAt_cons_of_directory hadmits.place_eq, child?,
    if_neg (by rw [Directory.not_inUse_of_freeIndex? hadmits.vacant]; exact Bool.false_ne_true)]

/-- The sectors that a creation claims. -/
def claimed (image : Image) (sectors size : Nat) (height : Fin maxLevel) : List Nat :=
  (image.freeMap sectors).free.take (sectorNeeds (height + 1) size + 1)

/-- The writes of a creation: those of the new tree, of the parent's table, and of the map. -/
structure Created (image : Image) (sectors directory : Nat) (index : Fin entryCount) (name : String)
    (size : Nat) (isDirectory : Bool) (height : Fin maxLevel) (sector : Nat) (node : Node)
    (fresh table map : List Write) : Prop where
  fresh_claimed : ∀ write ∈ fresh, write.1 ∈ image.claimed sectors size height
  length_fresh : fresh.length = sectorNeeds (height + 1) size - pieces size sectorSize + 1 +
    if isDirectory then 10 else 0
  intact : (image.putAll fresh).Intact sectors sector node
  extent_eq : (image.putAll fresh).extent sector = image.claimed sectors size height
  size_eq : (image.putAll fresh).size sector = size
  empty : isDirectory = true → (image.putAll fresh).table sector = Directory.empty
  relinks : (image.putAll fresh).Relinks sectors directory index
    ((image.table directory).update index (.ofName name sector isDirectory))
    ((image.freeMap sectors).markAll (image.claimed sectors size height)) table map

/-- The writes of a new tree, from the nodes below its root to the table of a directory. -/
structure Planted (image : Image) (sectors size : Nat) (isDirectory : Bool) (height : Fin maxLevel)
    (sector : Nat) (node : Node) (inner fresh : List Write) : Prop where
  fresh_claimed : ∀ write ∈ fresh, write.1 ∈ image.claimed sectors size height
  length_fresh : fresh.length = sectorNeeds (height + 1) size - pieces size sectorSize + 1 +
    if isDirectory then 10 else 0
  intact : (image.putAll fresh).Intact sectors sector node
  extent_eq : (image.putAll fresh).extent sector = image.claimed sectors size height
  size_eq : (image.putAll fresh).size sector = size
  empty : isDirectory = true → (image.putAll fresh).table sector = Directory.empty
  restsOn : (image.putAll fresh).RestsOn (inner ++ [(sector, node.toSector)]) sector

/-- A new tree that is entered in its parent's table and in the map is a creation. -/
theorem Planted.created {size directory sector : Nat} {isDirectory : Bool} {height : Fin maxLevel}
    {node : Node} {inner fresh table map : List Write} {index : Fin entryCount} {name : String}
    (h : image.Planted sectors size isDirectory height sector node inner fresh)
    (hrelinks : (image.putAll fresh).Relinks sectors directory index
      ((image.table directory).update index (.ofName name sector isDirectory))
      ((image.freeMap sectors).markAll (image.claimed sectors size height)) table map) :
    image.Created sectors directory index name size isDirectory height sector node fresh table map :=
  ⟨h.fresh_claimed, h.length_fresh, h.intact, h.extent_eq, h.size_eq, h.empty, hrelinks⟩

end Image

/-! ## The new tree -/

/-- A tree on the first free sectors of a map, its root's first: the root node, and the writes of the
nodes below it. The map and the size determine them, whatever the disk holds. -/
structure Node.Planned (map : FreeMap) (sectors size : Nat) (height : Fin maxLevel) (sector : Nat)
    (node : Node) (inner : List Write) : Prop where
  free_eq : ∃ rest, map.free = sector :: rest
  performs : ∀ image, Performs ((Node.allocate size).using (map.mark sector)) image sectors
    (.ok (node, map.markAll (map.free.take (sectorNeeds (height + 1) size + 1)))) inner
  length_eq : node.length.toNat = size
  length_inner : inner.length = sectorNeeds (height + 1) size - pieces size sectorSize
  inner_claimed : ∀ write ∈ inner, write.1 ∈ map.free.take (sectorNeeds (height + 1) size + 1)
  intact : ∀ image : Image,
    (image.putAll (inner ++ [(sector, node.toSector)])).Intact sectors sector node
  extent_eq : ∀ image : Image, (image.putAll (inner ++ [(sector, node.toSector)])).extent sector =
    map.free.take (sectorNeeds (height + 1) size + 1)
  restsOn : ∀ image : Image, (image.putAll (inner ++ [(sector, node.toSector)])).RestsOn
    (inner ++ [(sector, node.toSector)]) sector

/-- A tree and its root on the first free sectors. -/
theorem Node.exists_planned {map : FreeMap} {size : Nat} {height : Fin maxLevel}
    (hheight : heightFor size = some height) (hclean : map.Clean) (hsectors : map.sectors = sectors)
    (hword : sectors < 2 ^ 32) (hroom : sectorNeeds (height + 1) size + 1 ≤ map.free.length) :
    ∃ sector node inner, Node.Planned map sectors size height sector node inner := by
  obtain ⟨sector, rest, hfree⟩ := List.exists_cons_of_length_pos (by omega : 0 < map.free.length)
  have hsector : sector < map.sectors := (FreeMap.mem_free.mp (hfree ▸ List.mem_cons_self)).1
  have hnodup := map.nodup_free
  obtain ⟨hrest, hmark⟩ := Node.markAll_cons_take hfree (sectorNeeds (height + 1) size)
  have hmarked : (map.markAll [sector]).Clean := hclean.markAll fun member hmember ↦
    List.mem_singleton.mp hmember ▸ hsector
  have hlength : map.free.length = rest.length + 1 := by rw [hfree, List.length_cons]
  obtain ⟨node, inner, hallocate⟩ := @Node.allocate_performs sectors size (map.mark sector) height
    hheight hmarked (by rw [FreeMap.sectors_mark]; omega) (by rw [FreeMap.sectors_mark]; omega)
    (by rw [hrest]; omega)
  rw [hmark, hrest, Nat.add_comm 1] at hallocate
  have hclaimed : map.free.take (sectorNeeds (height + 1) size + 1) =
      sector :: rest.take (sectorNeeds (height + 1) size) := by
    rw [hfree, List.take_succ_cons]
  have htaken := hnodup.sublist (List.take_sublist (sectorNeeds (height + 1) size + 1) map.free)
  rw [hclaimed] at htaken
  have hkept (image : Image) (member : Nat)
      (hmember : member ∈ rest.take (sectorNeeds (height + 1) size)) :
      image.putAll (inner ++ [(sector, node.toSector)]) member = image.putAll inner member := by
    rw [Image.putAll_append]
    exact Image.put_of_ne _ fun heq : member = sector ↦
      (List.nodup_cons.mp htaken).1 (heq ▸ hmember)
  have hstored (image : Image) :
      image.putAll (inner ++ [(sector, node.toSector)]) sector = node.toSector := by
    rw [Image.putAll_append]
    exact Image.put_self _ _ _
  have htree (image : Image) := @Image.intact_of_built image _ sectors sector size node height _ _
    (hallocate image).2 (hkept image) (hstored image) htaken height hheight rfl
    fun member hmember ↦ hsectors ▸ FreeMap.lt_of_mem_take_free member (hclaimed ▸ hmember)
  obtain ⟨-, hbuilt⟩ := hallocate fun _ ↦ default
  refine ⟨sector, node, inner, ?_⟩
  constructor
  case free_eq => exact ⟨rest, hfree⟩
  case performs => exact fun image ↦ (hallocate image).1
  case length_eq => exact hbuilt.formed.states.length_eq
  case length_inner => exact hbuilt.length_writes
  case inner_claimed =>
    intro write hwrite
    rw [hclaimed]
    exact List.mem_cons_of_mem _ (hbuilt.mem_claimed hwrite)
  case intact => exact fun image ↦ (htree image).1
  case extent_eq => exact fun image ↦ (htree image).2.1.trans hclaimed.symm
  case restsOn =>
    exact fun image ↦ Image.restsOn_of_built (hallocate image).2 (hkept image) (hstored image) htaken

/-! ## Entering it -/

namespace Volume

variable {volume : Volume}

/-- An operation on the parent of a path goes on with the parent's table. -/
theorem readParent_performs (hvolume : volume.Attached image) (h : image.Sound sectors) {path : Path}
    {parent : Place} {directory : Nat} {name : String} {upper : Node}
    (hname : path.lastName? = some name) (hparent : image.resolveParent path = .ok directory)
    (hplace : image.targetAt parent = some ⟨directory, true⟩)
    (hupper : image.Intact sectors directory upper) {β : Type} {next : Handle → Directory → Action β}
    {outcome : Except Stop β} {writes : List Write}
    (hnext : Performs (next ⟨directory, upper, 0⟩ (image.table directory)) image sectors outcome
      writes) :
    Performs (do
        let root ← volume.loadRoot
        let parentFile ← Handle.fetch (← path.resolveParent root rootSector)
        let parent ← Directory.ofFile parentFile
        next parentFile parent) image sectors outcome writes := by
  have hword := Nat.le_of_lt h.sectors_lt
  have hresolve := Path.resolveParent_performs h hname
  rw [hparent] at hresolve
  have htable := @Directory.ofFile_performs image sectors ⟨directory, upper, 0⟩ hupper hword
    (h.size_directory parent directory hplace)
  exact (hvolume.loadRoot_performs h).step (Performs.step hresolve
    ((Handle.fetch_performs hupper hword).step (htable.step hnext)))

/-- Why something new cannot be entered: no sector is free for its root, no entry for its name, or
the free sectors are not enough for its tree. -/
def claimRefusal (map : FreeMap) (directory : Directory) : Error :=
  match map.free, directory.freeIndex? with
  | [], _ => .noSpace
  | _ :: _, none => .directoryFull
  | _ :: _, some _ => .noSpace

/-- Claiming a sector, an entry and a tree stops before its first write if one is missing. -/
theorem claimEntry_refused {map : FreeMap} {directory : Directory} {name : String} {size : Nat}
    {isDirectory : Bool} (hclean : map.Clean) (habsent : directory.index? name = none)
    (hnot : ∀ index height, directory.freeIndex? = some index → heightFor size = some height →
      map.free.length < sectorNeeds (height + 1) size + 1) :
    Performs ((claimEntry directory name size isDirectory).using map) image sectors
      (.error (.error (claimRefusal map directory))) [] := by
  rw [claimEntry, claimRefusal]
  cases hfree : map.free with
  | nil => exact (Performs.claim_of_full hfree).usingStop
  | cons sector rest =>
    cases hindex : directory.freeIndex? with
    | none =>
      refine (Performs.claim hfree).usingStep ?_
      rw [Directory.add_of_full habsent hindex]
      exact (Performs.usingFail _).usingStop
    | some index =>
      refine (Performs.claim hfree).usingStep ?_
      rw [Directory.add_eq_ok habsent hindex]
      obtain ⟨hrest, -⟩ := Node.markAll_cons_take hfree 0
      have hsector : sector < map.sectors := (FreeMap.mem_free.mp (hfree ▸ List.mem_cons_self)).1
      have hmarked : (map.markAll [sector]).Clean := hclean.markAll fun member hmember ↦
        List.mem_singleton.mp hmember ▸ hsector
      refine (Performs.usingPure _).usingStep
        (Node.allocate_refused hmarked fun height hheight ↦ ?_).usingStop
      have hshort := hnot index height hindex hheight
      have hmark : map.markAll [sector] = map.mark sector := rfl
      rw [hmark, hrest]
      rw [hfree, List.length_cons] at hshort
      omega

end Volume

/-- Why nothing new can be created at a path. -/
def Image.creationRefusal (image : Image) (sectors : Nat) (text : String) : Error :=
  match Path.parse text with
  | .error fault => .invalidPath fault
  | .ok path =>
    match path.lastName? with
    | none => .invalidPath .rootExists
    | some name =>
      match image.resolveParent path with
      | .error cause => cause
      | .ok directory =>
        match (image.table directory).index? name with
        | some _ => .alreadyExists
        | none => Volume.claimRefusal (image.freeMap sectors) (image.table directory)

theorem Image.isRefusal_creationRefusal (image : Image) (sectors : Nat) (text : String) :
    (image.creationRefusal sectors text).IsRefusal := by
  rw [creationRefusal]
  split
  · simp [Error.IsRefusal]
  · split
    · simp [Error.IsRefusal]
    · split
      · rename_i hparent
        exact isRefusal_of_resolveParent hparent
      · split
        · simp [Error.IsRefusal]
        · rw [Volume.claimRefusal]
          split <;> simp [Error.IsRefusal]

namespace Volume

variable {volume : Volume}

/-- A creation that the image does not admit is refused and writes nothing. -/
theorem createEntry_refused (hvolume : volume.Attached image) (h : image.Sound sectors)
    (text : String) (size : Nat) (isDirectory : Bool)
    (hnot : ∀ path, Path.parse text = .ok path → ¬ ∃ parent directory name index height,
      image.Admits sectors path size parent directory name index height) :
    Performs (volume.createEntry text size isDirectory) image sectors
      (.error (.error (image.creationRefusal sectors text))) [] := by
  rw [createEntry, parsePath, Image.creationRefusal]
  cases hparse : Path.parse text with
  | error fault => exact Performs.stop (Performs.fail _)
  | ok path =>
    refine (Performs.pure path).step ?_
    dsimp only
    cases hname : path.lastName? with
    | none => exact Performs.fail _
    | some name =>
      have hresolve := Path.resolveParent_performs h hname
      dsimp only
      cases hparent : image.resolveParent path with
      | error cause =>
        rw [hparent] at hresolve
        exact (hvolume.loadRoot_performs h).step (Performs.stop hresolve)
      | ok directory =>
        obtain ⟨parent, hplace⟩ := Image.exists_place_of_resolveParent hparent
        obtain ⟨node, hintact⟩ := h.intact_item hplace
        refine readParent_performs hvolume h hname hparent hplace hintact ?_
        dsimp only
        cases hindex : (image.table directory).index? name with
        | none =>
          have hclaim := @claimEntry_refused image sectors _ _ name size isDirectory h.clean hindex
            fun index height hvacant hheight ↦ by
              by_contra hroom
              exact hnot path hparse ⟨parent, directory, name, index, height, hname, hparent, hplace,
                hindex, hvacant, hheight, by omega⟩
          rw [if_neg (by rw [Directory.find?_isSome, hindex]; exact Bool.false_ne_true)]
          exact (hvolume.loadMap_performs h).step hclaim.stop
        | some index =>
          rw [if_pos (by rw [Directory.find?_isSome, hindex]; rfl)]
          exact Performs.fail _

/-- Storing a root and, in a directory, the empty table makes the listed writes, whatever is done
next. -/
def Completes (image : Image) (sectors sector : Nat) (node : Node) (isDirectory : Bool)
    (writes : List Write) : Prop :=
  ∀ (next : Unit → Action Unit) (outcome : Except Stop Unit) (rest : List Write),
    Performs (next ()) (image.putAll writes) sectors outcome rest →
    Performs (do
      node.store sector
      if isDirectory then
        let file ← Handle.fetch sector
        let done ← Directory.empty.store file
        next done
      else
        next ()) image sectors outcome (writes ++ rest)

/-- A stored root and, in a directory, the empty table in its data sectors complete a new tree. -/
theorem complete_performs {sector : Nat} {node : Node} (isDirectory : Bool)
    (hword : sectors ≤ 2 ^ 32)
    (hintact : (image.put (sector, node.toSector)).Intact sectors sector node)
    (hsize : isDirectory = true → node.length.toNat = directorySize) :
    ∃ content, Completes image sectors sector node isDirectory ((sector, node.toSector) :: content) ∧
      content.length = (if isDirectory then 10 else 0) ∧
      (∀ write ∈ content, write.1 ∈ (image.put (sector, node.toSector)).leaves sector) ∧
      (isDirectory = true → ((image.put (sector, node.toSector)).putAll content).table sector =
        Directory.empty) := by
  have hlt := hintact.self_lt
  have hheader : Performs (node.store sector) image sectors (.ok ()) [(sector, node.toSector)] :=
    Performs.writeSector node.toSector hlt (by omega)
  cases isDirectory with
  | false =>
    refine ⟨[], fun next outcome rest hnext ↦ ?_, rfl, fun write hwrite ↦ (nomatch hwrite),
      fun hfalse ↦ (nomatch hfalse)⟩
    exact hheader.bind hnext
  | true =>
    have htable : (image.put (sector, node.toSector)).size sector = directorySize :=
      hintact.size_eq.trans (hsize rfl)
    obtain ⟨writes, hrun, hsplices⟩ := @Directory.store_performs _ sectors ⟨sector, node, 0⟩
      Directory.empty hintact hword htable
    refine ⟨writes, fun next outcome rest hnext ↦ ?_, hsplices.length_whole, hsplices.mem_leaves,
      fun _ ↦ hsplices.table_eq hintact htable⟩
    exact hheader.bind ((Handle.fetch_performs hintact hword).step (hrun.bind hnext))

/-- A sector, an entry and a tree are claimed together. -/
theorem claimEntry_performs {map reached : FreeMap} {directory : Directory} {name : String}
    {size sector : Nat} {rest : List Nat} {isDirectory : Bool} {index : Fin entryCount} {node : Node}
    {writes : List Write} (hfree : map.free = sector :: rest)
    (habsent : directory.index? name = none) (hvacant : directory.freeIndex? = some index)
    (hallocate : Performs ((Node.allocate size).using (map.mark sector)) image sectors
      (.ok (node, reached)) writes) :
    Performs ((claimEntry directory name size isDirectory).using map) image sectors
      (.ok ((sector, directory.update index (.ofName name sector isDirectory), node), reached))
      writes := by
  rw [claimEntry]
  refine (Performs.claim hfree).usingStep ?_
  rw [Directory.add_eq_ok habsent hvacant]
  refine (Performs.usingPure _).usingStep ?_
  rw [← List.append_nil writes]
  exact hallocate.usingBind (Performs.usingPure _)

/-- The new tree is written to the first free sectors. -/
theorem plant_performs {size sector : Nat} {isDirectory : Bool} {height : Fin maxLevel} {node : Node}
    {inner : List Write} (hword : sectors ≤ 2 ^ 32)
    (hplanned : Node.Planned (image.freeMap sectors) sectors size height sector node inner)
    (hsize : isDirectory = true → size = directorySize) :
    ∃ content, Completes (image.putAll inner) sectors sector node isDirectory
        ((sector, node.toSector) :: content) ∧
      image.Planted sectors size isDirectory height sector node inner
        (inner ++ (sector, node.toSector) :: content) := by
  have hintact := hplanned.intact image
  have hextent := hplanned.extent_eq image
  have hrests := hplanned.restsOn image
  rw [Image.putAll_append, Image.putAll_cons, Image.putAll_nil] at hintact hextent hrests
  obtain ⟨content, hcomplete, hcontents, hleaves, hempty⟩ := complete_performs isDirectory
    hword hintact fun hdirectory ↦ hplanned.length_eq.trans (hsize hdirectory)
  have himage : image.putAll (inner ++ (sector, node.toSector) :: content) =
      ((image.putAll inner).put (sector, node.toSector)).putAll content := by
    rw [Image.putAll_append, Image.putAll_cons]
  have hkept : ∀ member ∈ ((image.putAll inner).put (sector, node.toSector)).spine sector,
      ((image.putAll inner).put (sector, node.toSector)).putAll content member =
        (image.putAll inner).put (sector, node.toSector) member := by
    intro member hmember
    refine Image.putAll_of_not_mem _ fun hmem ↦ ?_
    obtain ⟨write, hwrite, rfl⟩ := List.mem_map.mp hmem
    exact hintact.not_mem_spine (hleaves write hwrite) hmember
  rw [← himage] at hempty
  refine ⟨content, hcomplete, ?_⟩
  constructor
  case fresh_claimed =>
    intro write hwrite
    rw [List.mem_append, List.mem_cons] at hwrite
    rcases hwrite with hwrite | rfl | hwrite
    · exact hplanned.inner_claimed write hwrite
    · rw [Image.claimed, ← hextent]
      exact Image.mem_extent_self _ sector
    · rw [Image.claimed, ← hextent]
      exact Image.mem_extent_iff.mpr (.inr (hleaves write hwrite))
  case length_fresh =>
    rw [List.length_append, List.length_cons, hplanned.length_inner, hcontents]
    omega
  case intact =>
    rw [himage]
    exact hintact.congr hkept
  case extent_eq => rw [himage, Image.extent_congr hkept, hextent, Image.claimed]
  case size_eq => rw [himage, Image.size_congr hkept, hintact.size_eq, hplanned.length_eq]
  case empty => exact hempty
  case restsOn =>
    rw [himage]
    exact hrests.congr hkept

/-- A creation that the image admits claims the first free sectors and enters the new file. -/
theorem createEntry_created {text : String} {path : Path} {size : Nat} {isDirectory : Bool}
    {parent : Place} {directory : Nat} {name : String} {index : Fin entryCount}
    {height : Fin maxLevel} {sector : Nat} {node : Node} {inner : List Write}
    (hvolume : volume.Attached image) (h : image.Sound sectors) (hparse : Path.parse text = .ok path)
    (hadmits : image.Admits sectors path size parent directory name index height)
    (hplanned : Node.Planned (image.freeMap sectors) sectors size height sector node inner)
    (hsize : isDirectory = true → size = directorySize) :
    ∃ fresh table map, Performs (volume.createEntry text size isDirectory) image sectors (.ok ())
        (fresh ++ (table ++ map)) ∧
      image.Created sectors directory index name size isDirectory height sector node fresh table
        map ∧
      (image.putAll fresh).RestsOn (inner ++ [(sector, node.toSector)]) sector := by
  obtain ⟨upper, hupper⟩ := h.intact_item hadmits.place_eq
  obtain ⟨rest, hfree⟩ := hplanned.free_eq
  obtain ⟨content, hcomplete, hplanted⟩ :=
    plant_performs (Nat.le_of_lt h.sectors_lt) hplanned hsize
  have hsame : Image.Sound.Untouched image
      (image.putAll (inner ++ (sector, node.toSector) :: content)) :=
    h.untouched_of_free fun write hwrite ↦ List.mem_of_mem_take (hplanted.fresh_claimed write hwrite)
  have hothers (other : Fin entryCount) (hother : other ≠ index) :
      ((image.table directory).update index (.ofName name sector isDirectory)).table[other] =
        ((image.putAll (inner ++ (sector, node.toSector) :: content)).table directory).table[other] := by
    rw [Directory.table_update, if_neg hother, hsame.table h hadmits.place_eq]
  obtain ⟨table, map, htableRun, hmapRun, hrelinks⟩ := (hvolume.congr hsame.unmoved).relink_performs
    (hsame.sound h) ((hsame.targetAt h parent).trans hadmits.place_eq)
    (hupper.congr (hsame.unmoved _ _ (Image.headOf_item hadmits.place_eq))) hothers
    (((image.freeMap sectors).sectors_markAll (image.claimed sectors size height)).trans
      (Image.Sound.sectors_freeMap image sectors))
  refine ⟨_, table, map, ?_, hplanted.created hrelinks, hplanted.restsOn⟩
  rw [createEntry, parsePath, hparse]
  refine (Performs.pure path).step ?_
  rw [hadmits.name_eq]
  refine readParent_performs hvolume h hadmits.name_eq hadmits.parent_eq hadmits.place_eq hupper ?_
  rw [if_neg (by rw [Directory.find?_isSome, hadmits.absent]; exact Bool.false_ne_true)]
  refine (hvolume.loadMap_performs h).step ?_
  rw [List.append_assoc]
  refine (claimEntry_performs hfree hadmits.absent hadmits.vacant (hplanned.performs image)).bind ?_
  refine hcomplete (fun _ ↦ do
    ((image.table directory).update index (.ofName name sector isDirectory)).store
      ⟨directory, upper, 0⟩
    ((image.freeMap sectors).markAll (image.claimed sectors size height)).store volume.mapFile
    Drive.note .info
      ("Created " ++ path.toText ++ " with header at sector " ++ toString sector)) _ _ ?_
  rw [← Image.putAll_append]
  refine htableRun.bind ?_
  rw [← List.append_nil map]
  exact hmapRun.bind (Performs.note _ _)

end Volume

end SectorFS
