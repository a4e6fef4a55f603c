import SectorFS.Volume.Contents
import SectorFS.Proofs.Linking

/-!
# Following paths on a sound image

On a sound image every directory that a lookup comes through can be read, so following a
path answers what the tables say (`Image.follow`) and nothing else. A volume is attached to
an image while the nodes it keeps of its two root files are the ones on the image; the map
and the root directory are then read as they are stored.
-/

namespace SectorFS

variable {image : Image} {sectors : Nat}

namespace Image.Sound

theorem load_performs (h : image.Sound sectors) {place : Place} {sector : Nat}
    (hplace : image.targetAt place = some ⟨sector, true⟩) :
    Performs (Directory.load sector) image sectors (.ok (image.table sector)) [] := by
  obtain ⟨node, hintact⟩ := h.intact_item hplace
  exact Directory.load_performs hintact (Nat.le_of_lt h.sectors_lt)
    (h.size_directory place sector hplace)

theorem follow_performs (h : image.Sound sectors) {place : Place} {sector : Nat}
    (hplace : image.targetAt place = some ⟨sector, true⟩) (name : String) (rest : List String) :
    Performs ((image.table sector).follow name rest) image sectors
      ((image.follow ⟨sector, true⟩ (name :: rest)).mapError .error) [] := by
  induction rest generalizing place sector name with
  | nil =>
    rw [Directory.follow, follow_cons, Directory.entry?]
    cases (image.table sector).index? name with
    | none => exact Performs.fail .notFound
    | some index => exact Performs.pure _
  | cons next rest ih =>
    rw [Directory.follow, follow_cons, Directory.entry?]
    cases hindex : (image.table sector).index? name with
    | none => exact Performs.fail .notFound
    | some index =>
      have hchild := (targetAt_cons_of_directory hplace).trans (child?_of_index? hindex)
      simp only [Option.map_some]
      cases hdirectory : (image.table sector).table[index].isDirectory with
      | false =>
        rw [if_neg Bool.false_ne_true, follow, if_neg Bool.false_ne_true]
        exact Performs.fail .notADirectory
      | true =>
        rw [hdirectory] at hchild
        rw [if_pos rfl]
        exact (h.load_performs hchild).step (ih hchild next)

end Image.Sound

/-- What the path leads to from the root directory. -/
def Image.resolve (image : Image) (path : Path) : Except Error Target :=
  image.follow ⟨rootSector, true⟩ path.components

theorem Image.isRefusal_of_resolve {path : Path} {cause : Error}
    (h : image.resolve path = .error cause) : cause.IsRefusal := by
  intro reason
  rcases Image.follow_eq_error h with rfl | rfl
  · exact nofun
  · exact nofun

theorem Path.resolve_performs (h : image.Sound sectors) (path : Path) :
    Performs (path.resolve (image.table rootSector) rootSector) image sectors
      ((image.resolve path).mapError .error) [] := by
  rw [Path.resolve, Image.resolve]
  cases hnames : path.components with
  | nil =>
    rw [if_pos (by rw [Path.isRoot, hnames]; rfl)]
    exact Performs.pure _
  | cons name rest =>
    rw [if_neg (by rw [Path.isRoot, hnames]; exact Bool.false_ne_true), Directory.followFrom,
      hnames, List.drop_zero]
    have hrun := h.follow_performs image.targetAt_nil name rest
    cases hfound : image.follow ⟨rootSector, true⟩ (name :: rest) with
    | error cause =>
      rw [hfound] at hrun
      exact Performs.stop hrun
    | ok target =>
      rw [hfound] at hrun
      exact Performs.step hrun ((Performs.note _ _).step (Performs.pure _))

/-- The directory that holds the last component of a path. -/
def Image.resolveParent (image : Image) (path : Path) : Except Error Nat := do
  let target ← image.resolve ⟨path.components.dropLast⟩
  if target.isDirectory then return target.sector else .error .notADirectory

theorem Image.resolveParent_eq_ok {path : Path} {directory : Nat} :
    image.resolveParent path = .ok directory ↔
      image.resolve ⟨path.components.dropLast⟩ = .ok ⟨directory, true⟩ := by
  rw [Image.resolveParent]
  cases image.resolve ⟨path.components.dropLast⟩ with
  | error cause => simp [bind, Except.bind]
  | ok target =>
    obtain ⟨sector, isDirectory⟩ := target
    cases isDirectory <;> simp [bind, Except.bind, pure, Except.pure]

theorem Image.isRefusal_of_resolveParent {path : Path} {cause : Error}
    (h : image.resolveParent path = .error cause) : cause.IsRefusal := by
  rw [Image.resolveParent] at h
  cases hparent : image.resolve ⟨path.components.dropLast⟩ with
  | error other =>
    rw [hparent] at h
    obtain rfl := Except.error.inj h
    exact Image.isRefusal_of_resolve hparent
  | ok target =>
    rw [hparent] at h
    obtain ⟨sector, isDirectory⟩ := target
    cases isDirectory with
    | false =>
      obtain rfl := Except.error.inj h
      exact by simp [Error.IsRefusal]
    | true => contradiction

/-- A directory that holds the last component of a path is at a place. -/
theorem Image.exists_place_of_resolveParent {path : Path} {directory : Nat}
    (h : image.resolveParent path = .ok directory) :
    ∃ place, image.targetAt place = some ⟨directory, true⟩ := by
  obtain ⟨place, -, hplace⟩ :=
    exists_place_of_follow image.targetAt_nil (Image.resolveParent_eq_ok.mp h)
  rw [List.append_nil] at hplace
  exact ⟨place, hplace⟩

theorem Path.resolveParent_performs (h : image.Sound sectors) {path : Path} {name : String}
    (hname : path.lastName? = some name) :
    Performs (path.resolveParent (image.table rootSector) rootSector) image sectors
      ((image.resolveParent path).mapError .error) [] := by
  have hparent : path.parent? = some ⟨path.components.dropLast⟩ := by
    rw [Path.parent?, if_neg]
    intro hroot
    rw [Path.lastName?, List.isEmpty_iff.mp hroot] at hname
    contradiction
  have hrun := Path.resolve_performs h ⟨path.components.dropLast⟩
  rw [Path.resolveParent, hparent, Image.resolveParent]
  cases hfound : image.resolve ⟨path.components.dropLast⟩ with
  | error cause =>
    rw [hfound] at hrun
    exact Performs.stop hrun
  | ok target =>
    rw [hfound] at hrun
    refine Performs.step hrun ?_
    obtain ⟨sector, isDirectory⟩ := target
    cases isDirectory with
    | false => exact Performs.fail _
    | true => exact Performs.pure _

namespace Volume

/-- The volume keeps the nodes of the image's two root files. -/
structure Attached (volume : Volume) (image : Image) : Prop where
  mapFile_sector : volume.mapFile.sector = freeMapSector
  mapFile_node : image.node? freeMapSector = some volume.mapFile.node
  rootFile_sector : volume.rootFile.sector = rootSector
  rootFile_node : image.node? rootSector = some volume.rootFile.node

namespace Attached

variable {volume : Volume}

theorem congr {changed : Image} (hvolume : volume.Attached image)
    (hunmoved : Image.Sound.Unmoved image changed) : volume.Attached changed where
  mapFile_sector := hvolume.mapFile_sector
  mapFile_node := (Image.node?_of_spine (hunmoved .map _ image.headOf_map)).trans
    hvolume.mapFile_node
  rootFile_sector := hvolume.rootFile_sector
  rootFile_node := (Image.node?_of_spine (hunmoved _ _ (Image.headOf_item image.targetAt_nil))).trans
    hvolume.rootFile_node

theorem intact_mapFile (hvolume : volume.Attached image) (h : image.Sound sectors) :
    image.Intact sectors volume.mapFile.sector volume.mapFile.node := by
  obtain ⟨node, hintact⟩ := h.intact_map
  obtain rfl := Option.some.inj (hvolume.mapFile_node.symm.trans hintact.node_eq)
  exact hvolume.mapFile_sector ▸ hintact

theorem intact_rootFile (hvolume : volume.Attached image) (h : image.Sound sectors) :
    image.Intact sectors volume.rootFile.sector volume.rootFile.node := by
  obtain ⟨node, hintact⟩ := h.intact_item image.targetAt_nil
  obtain rfl := Option.some.inj (hvolume.rootFile_node.symm.trans hintact.node_eq)
  exact hvolume.rootFile_sector ▸ hintact

theorem size_mapFile (hvolume : volume.Attached image) (h : image.Sound sectors) :
    image.size volume.mapFile.sector = FreeMap.byteCount sectors :=
  hvolume.mapFile_sector ▸ h.size_map

theorem loadRoot_performs (hvolume : volume.Attached image) (h : image.Sound sectors) :
    Performs volume.loadRoot image sectors (.ok (image.table rootSector)) [] := by
  have hrun := Directory.ofFile_performs (hvolume.intact_rootFile h) (Nat.le_of_lt h.sectors_lt)
    (hvolume.rootFile_sector ▸ h.size_directory [] rootSector image.targetAt_nil)
  rwa [hvolume.rootFile_sector] at hrun

theorem loadMap_performs (hvolume : volume.Attached image) (h : image.Sound sectors) :
    Performs volume.loadMap image sectors (.ok (image.freeMap sectors)) [] := by
  have hlt := h.sectors_lt
  have hcreate : FreeMap.create sectors = .ok (FreeMap.blank sectors) := by
    rw [FreeMap.create, Checked.add_eq_ok (by simp only [Checked.wordLimit]; omega)]
    rfl
  refine Performs.sectorCount.step ?_
  rw [hcreate]
  exact (Performs.pure _).step (FreeMap.load_performs hvolume.mapFile_sector
    (hvolume.intact_mapFile h) (Nat.le_of_lt hlt) (hvolume.size_mapFile h))

theorem freeSectors_performs (hvolume : volume.Attached image) (h : image.Sound sectors) :
    Performs volume.freeSectors image sectors (.ok (image.freeMap sectors).free.length) [] := by
  refine (hvolume.loadMap_performs h).step ?_
  rw [h.clean.freeCount_eq]
  exact Performs.pure _

end Attached

end Volume

/-- What the text of a path leads to. -/
def Image.locate (image : Image) (text : String) : Except Error Target :=
  match Path.parse text with
  | .ok path => image.resolve path
  | .error fault => .error (.invalidPath fault)

/-- What a text leads to is what its components lead to from the root directory. -/
theorem Image.locate_of_parse {text : String} {path : Path} (h : Path.parse text = .ok path) :
    image.locate text = image.resolve path := by
  rw [locate, h]

theorem Image.isRefusal_of_locate {text : String} {cause : Error}
    (h : image.locate text = .error cause) : cause.IsRefusal := by
  rw [Image.locate] at h
  split at h
  · exact Image.isRefusal_of_resolve h
  · obtain rfl := Except.error.inj h
    exact by simp [Error.IsRefusal]

/-- Texts are followed alike while every directory keeps its table. -/
theorem Image.locate_congr {changed : Image}
    (h : ∀ place sector, image.targetAt place = some ⟨sector, true⟩ →
      changed.table sector = image.table sector) (text : String) :
    changed.locate text = image.locate text := by
  rw [locate, locate]
  split
  · refine follow_congr image.targetAt_nil (fun below sector hbelow ↦ ?_) _
    rw [List.append_nil] at hbelow
    exact h below sector hbelow
  · rfl

/-- What a path leads to is at a place. -/
theorem Image.exists_place_of_locate {text : String} {target : Target}
    (h : image.locate text = .ok target) : ∃ place, image.targetAt place = some target := by
  rw [Image.locate] at h
  split at h
  · obtain ⟨place, -, hplace⟩ := exists_place_of_follow image.targetAt_nil h
    rw [List.append_nil] at hplace
    exact ⟨place, hplace⟩
  · contradiction

theorem Volume.resolve_performs {volume : Volume} (hvolume : volume.Attached image)
    (h : image.Sound sectors) (text : String) :
    Performs (volume.resolve text) image sectors ((image.locate text).mapError .error) [] := by
  rw [Volume.resolve, parsePath, Image.locate]
  cases Path.parse text with
  | error fault => exact Performs.stop (Performs.fail _)
  | ok path =>
    exact (Performs.pure path).step ((hvolume.loadRoot_performs h).step
      (Path.resolve_performs h path))

end SectorFS
