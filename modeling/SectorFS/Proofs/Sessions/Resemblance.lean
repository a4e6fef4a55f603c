import SectorFS.Proofs.Format
import SectorFS.Proofs.Listing
import SectorFS.Proofs.Reports
import SectorFS.Proofs.Sessions.Changes

/-!
# Images that resemble each other

Two images of a volume resemble each other if they have the same nodes of every owner, the same
tables and the same map. They need not have anything else in common: the bytes of regular files
and the sectors that nobody owns may differ, and so may the ends of sectors that a file fills in
part. Whatever is looked up through names, listed or reported is the same on both, and so is the
reason of a refusal.

Any two disks of one size resemble each other after formatting, and the same creation, the same
removal or a write to the same file leaves images that resemble each other again, because the
nodes and the tables that it adds are written in full.
-/

namespace SectorFS

open SectorFS.Geometry

variable {image other : Image} {sectors : Nat}

namespace Image

/-- Both images have the same nodes, the same tables and the same map. -/
structure Resembles (image other : Image) (sectors : Nat) : Prop where
  unmoved : Sound.Unmoved image other
  table_eq : ∀ place sector, image.targetAt place = some ⟨sector, true⟩ →
    other.table sector = image.table sector
  freeMap_eq : other.freeMap sectors = image.freeMap sectors

namespace Resembles

/-! ## What is the same -/

section Same

variable (h : image.Resembles other sectors)

include h

theorem targetAt_eq (place : Place) : other.targetAt place = image.targetAt place :=
  targetAt_congr h.table_eq place

theorem headOf_eq (owner : Owner) : other.headOf owner = image.headOf owner := by
  cases owner with
  | map => rfl
  | item place => rw [headOf, headOf, h.targetAt_eq]

theorem hasFile_iff (sector : Nat) : other.HasFile sector ↔ image.HasFile sector := by
  rw [HasFile, HasFile]
  simp only [h.targetAt_eq]

theorem rootTable_eq : other.table rootSector = image.table rootSector :=
  h.table_eq [] rootSector image.targetAt_nil

theorem node?_eq {place : Place} {target : Target} (hplace : image.targetAt place = some target) :
    other.node? target.sector = image.node? target.sector :=
  node?_of_spine (h.unmoved _ _ (headOf_item hplace))

theorem size_eq {place : Place} {target : Target} (hplace : image.targetAt place = some target) :
    other.size target.sector = image.size target.sector :=
  size_congr (h.unmoved _ _ (headOf_item hplace))

theorem intact {place : Place} {target : Target} {node : Node}
    (hplace : image.targetAt place = some target)
    (hintact : image.Intact sectors target.sector node) : other.Intact sectors target.sector node :=
  hintact.congr (h.unmoved _ _ (headOf_item hplace))

theorem attached {volume : Volume} (hvolume : volume.Attached image) : volume.Attached other :=
  hvolume.congr h.unmoved

/-- The other image resembles the first one as well. -/
theorem symm : other.Resembles image sectors where
  unmoved owner head howner member hmember := by
    have hspine := h.unmoved owner head ((h.headOf_eq owner).symm.trans howner)
    rw [spine_congr hspine] at hmember
    exact (hspine member hmember).symm
  table_eq place sector hplace :=
    (h.table_eq place sector ((h.targetAt_eq place).symm.trans hplace)).symm
  freeMap_eq := h.freeMap_eq.symm

/-- A directory has the same bytes on both images, since its table says them all. -/
theorem content_eq (hsound : image.Sound sectors) {place : Place} {directory : Nat}
    (hplace : image.targetAt place = some ⟨directory, true⟩) :
    other.content directory = image.content directory := by
  have hsize := hsound.size_directory place directory hplace
  calc
    other.content directory = (other.table directory).toBytes :=
      content_eq_toBytes ((h.size_eq hplace).trans hsize)
    _ = (image.table directory).toBytes := by rw [h.table_eq place directory hplace]
    _ = image.content directory := (content_eq_toBytes hsize).symm

/-! ### Names -/

theorem resolve_eq (path : Path) : other.resolve path = image.resolve path :=
  follow_congr image.targetAt_nil (fun below sector hbelow ↦ h.table_eq below sector
    (by rwa [List.append_nil] at hbelow)) _

theorem locate_eq (text : String) : other.locate text = image.locate text :=
  locate_congr h.table_eq text

theorem resolveParent_eq (path : Path) : other.resolveParent path = image.resolveParent path := by
  rw [resolveParent, resolveParent, h.resolve_eq]

theorem claimed_eq (size : Nat) (height : Fin maxLevel) :
    other.claimed sectors size height = image.claimed sectors size height := by
  rw [claimed, claimed, h.freeMap_eq]

/-- A path is refused for the same reason. -/
theorem creationRefusal_eq (text : String) :
    other.creationRefusal sectors text = image.creationRefusal sectors text := by
  rw [creationRefusal, creationRefusal]
  cases Path.parse text with
  | error fault => rfl
  | ok path =>
    dsimp only
    cases path.lastName? with
    | none => rfl
    | some name =>
      dsimp only
      rw [h.resolveParent_eq]
      cases hparent : image.resolveParent path with
      | error cause => rfl
      | ok directory =>
        obtain ⟨parent, hplace⟩ := exists_place_of_resolveParent hparent
        dsimp only
        rw [h.table_eq parent directory hplace, h.freeMap_eq]

theorem removalRefusal_eq (text : String) :
    other.removalRefusal text = image.removalRefusal text := by
  rw [removalRefusal, removalRefusal]
  cases Path.parse text with
  | error fault => rfl
  | ok path =>
    dsimp only
    rw [h.resolve_eq]

theorem admits {path : Path} {size directory : Nat} {parent : Place} {name : String}
    {index : Fin entryCount} {height : Fin maxLevel}
    (hadmits : image.Admits sectors path size parent directory name index height) :
    other.Admits sectors path size parent directory name index height := by
  have htable := h.table_eq parent directory hadmits.place_eq
  refine ⟨hadmits.name_eq, (h.resolveParent_eq path).trans hadmits.parent_eq,
    (h.targetAt_eq parent).trans hadmits.place_eq, ?_, ?_, hadmits.height_eq, ?_⟩
  · rw [htable, hadmits.absent]
  · rw [htable, hadmits.vacant]
  · rw [h.freeMap_eq]
    exact hadmits.room

theorem names {path : Path} {parent : Place} {directory : Nat} {name : String}
    {index : Fin entryCount} {target : Target}
    (hnames : image.Names path parent directory name index target) :
    other.Names path parent directory name index target where
  name_eq := hnames.name_eq
  parent_eq := (h.resolveParent_eq path).trans hnames.parent_eq
  place_eq := (h.targetAt_eq parent).trans hnames.place_eq
  index_eq := by rw [h.table_eq parent directory hnames.place_eq, hnames.index_eq]
  target_eq := (h.targetAt_eq _).trans hnames.target_eq

/-! ### Trees -/

/-- The same sectors belong to a file, or to a directory and everything below it. -/
theorem treeSectors_eq (fuel : Nat) {place : Place} {target : Target}
    (hplace : image.targetAt place = some target) :
    other.treeSectors fuel target = image.treeSectors fuel target := by
  induction fuel generalizing place target with
  | zero => rfl
  | succ fuel ih =>
    obtain ⟨sector, isDirectory⟩ := target
    rw [treeSectors, treeSectors, extent_congr (h.unmoved _ _ (headOf_item hplace))]
    cases isDirectory with
    | false => rw [if_neg Bool.false_ne_true, if_neg Bool.false_ne_true]
    | true =>
      rw [if_pos rfl, if_pos rfl, h.table_eq place sector hplace]
      refine congrArg (· ++ image.extent sector) (List.flatMap_congr fun entry hentry ↦ ?_)
      obtain ⟨index, hindex⟩ := (exists_entry_iff hplace).mp ⟨entry, hentry, rfl⟩
      exact ih hindex

/-- A tree is listed by the same lines. -/
theorem preorder_eq {depth : Nat} {place : Place} {sector : Nat} {entries : List Entry}
    {lines met : List Listed} (hplace : image.targetAt place = some ⟨sector, true⟩)
    (hentries : ∀ entry ∈ entries, entry ∈ (image.table sector).entries)
    (hlines : image.Preorder depth entries lines) (hmet : other.Preorder depth entries met) :
    met = lines := by
  induction hlines generalizing place sector met with
  | nil depth =>
    cases hmet
    rfl
  | file hkind hrest ih =>
    have hothers := fun entry hentry ↦ hentries entry (List.mem_cons_of_mem _ hentry)
    cases hmet with
    | file _ hmetRest => rw [ih hplace hothers hmetRest]
    | directory hother => exact absurd (hkind.symm.trans hother) Bool.false_ne_true
  | @directory depth entry rest below lines hkind hbelow hrest ihBelow ih =>
    have hothers := fun entry hentry ↦ hentries entry (List.mem_cons_of_mem _ hentry)
    obtain ⟨index, hindex⟩ :=
      (exists_entry_iff hplace).mp ⟨entry, hentries entry List.mem_cons_self, rfl⟩
    rw [hkind] at hindex
    cases hmet with
    | file hother => exact absurd (hother.symm.trans hkind) Bool.false_ne_true
    | directory _ hmetBelow hmetRest =>
      rw [h.table_eq _ _ hindex] at hmetBelow
      rw [ihBelow hindex (fun _ hentry ↦ hentry) hmetBelow, ih hplace hothers hmetRest]

/-- The report is the same text. -/
theorem report_eq : other.report sectors = image.report sectors := by
  have hmap : other.descriptionAt freeMapSector = image.descriptionAt freeMapSector := by
    rw [descriptionAt, descriptionAt, node?_of_spine (h.unmoved .map _ image.headOf_map)]
  have hroot : other.descriptionAt rootSector = image.descriptionAt rootSector := by
    rw [descriptionAt, descriptionAt, h.node?_eq image.targetAt_nil]
  have hentries : (image.table rootSector).entries.map other.entryReport =
      (image.table rootSector).entries.map image.entryReport := by
    refine List.map_congr_left fun entry hentry ↦ ?_
    obtain ⟨index, hindex⟩ :=
      (exists_entry_iff image.targetAt_nil).mp ⟨entry, hentry, rfl⟩
    rw [entryReport, entryReport, descriptionAt, descriptionAt, h.node?_eq hindex]
  unfold report
  rw [hmap, hroot, h.freeMap_eq, h.rootTable_eq]
  rw [hentries]

end Same

/-! ## The same changes -/

section Changes

variable (h : image.Resembles other sectors)

include h

/-- Two changes that move no file leave the nodes of the files that were there the same. -/
theorem unmoved_of_unmoved {changed altered : Image} (hchanged : Sound.Unmoved image changed)
    (haltered : Sound.Unmoved other altered) (owner : Owner) {head : Nat}
    (howner : image.headOf owner = some head) :
    ∀ member ∈ changed.spine head, altered member = changed member := by
  have hspine := h.unmoved owner head howner
  intro member hmember
  rw [spine_congr (hchanged owner head howner)] at hmember
  have hother : member ∈ other.spine head := by rwa [spine_congr hspine]
  calc
    altered member = other member :=
      haltered owner head ((h.headOf_eq owner).trans howner) member hother
    _ = image member := hspine member hmember
    _ = changed member := (hchanged owner head howner member hmember).symm

/-- After the same removal the images resemble each other. -/
theorem removed {path : Path} {parent : Place} {directory : Nat} {name : String}
    {index : Fin entryCount} {target : Target} {table map table' map' : List Write}
    (hsound : image.Sound sectors) (hother : other.Sound sectors)
    (hnames : image.Names path parent directory name index target)
    (hremoved : image.Removed sectors directory index target table map)
    (hremoved' : other.Removed sectors directory index target table' map') :
    (image.putAll (table ++ map)).Resembles (other.putAll (table' ++ map')) sectors := by
  have hnames' := h.names hnames
  have htarget := Removed.targetAt_final hremoved hsound hnames
  have hold {place : Place} {met : Target}
      (hplace : (image.putAll (table ++ map)).targetAt place = some met) :
      image.targetAt place = some met := by
    rw [htarget] at hplace
    split at hplace
    · contradiction
    · exact hplace
  constructor
  case unmoved =>
    intro owner head howner
    refine h.unmoved_of_unmoved (Removed.unmoved_final hremoved hsound hnames)
      (Removed.unmoved_final hremoved' hother hnames') owner ?_
    cases owner with
    | map => exact howner
    | item place =>
      obtain ⟨met, hplace, rfl⟩ := Option.map_eq_some_iff.mp howner
      exact headOf_item (hold hplace)
  case table_eq =>
    intro place sector hplace
    have hbefore := hold hplace
    by_cases hparent : place = parent
    · rw [hparent, hnames.place_eq] at hbefore
      obtain ⟨rfl, -⟩ := Target.mk.inj (Option.some.inj hbefore)
      rw [Removed.table_final hremoved hsound hnames, Removed.table_final hremoved' hother hnames',
        h.table_eq parent directory hnames.place_eq]
    · have hbefore' := (h.targetAt_eq place).trans hbefore
      rw [table_congr (Removed.content_final hremoved hsound hnames hbefore hparent),
        table_congr (Removed.content_final hremoved' hother hnames' hbefore' hparent),
        h.table_eq place sector hbefore]
  case freeMap_eq =>
    rw [Removed.freeMap_final hremoved hsound hnames, Removed.freeMap_final hremoved' hother hnames',
      h.freeMap_eq, h.treeSectors_eq _ hnames.target_eq]

/-- After writes to the same file the images resemble each other, whatever was written. -/
theorem written {place : Place} {sector position position' : Nat} {data data' : ByteArray}
    {writes writes' : List Write} (hsound : image.Sound sectors) (hother : other.Sound sectors)
    (hplace : image.targetAt place = some ⟨sector, false⟩)
    (hsplices : image.Overwrites sector position data writes)
    (hsplices' : other.Overwrites sector position' data' writes') :
    (image.putAll writes).Resembles (other.putAll writes') sectors := by
  have hplace' := (h.targetAt_eq place).trans hplace
  have htarget := targetAt_written hsplices hsound hplace
  constructor
  case unmoved =>
    intro owner head howner
    refine h.unmoved_of_unmoved (unmoved_written hsplices hsound hplace)
      (unmoved_written hsplices' hother hplace') owner ?_
    cases owner with
    | map => exact howner
    | item met => rwa [headOf, htarget] at howner
  case table_eq =>
    intro met directory hmet
    rw [htarget] at hmet
    rw [table_unwritten hsplices hsound hplace hmet,
      table_unwritten hsplices' hother hplace' ((h.targetAt_eq met).trans hmet),
      h.table_eq met directory hmet]
  case freeMap_eq =>
    rw [freeMap_written hsplices hsound hplace, freeMap_written hsplices' hother hplace',
      h.freeMap_eq]

/-- After the same creation the images resemble each other, since the nodes of the new file are
those that were written. -/
theorem created {path : Path} {size directory sector : Nat} {isDirectory : Bool} {parent : Place}
    {name : String} {index : Fin entryCount} {height : Fin maxLevel} {node : Node}
    {fresh table map fresh' table' map' nodes : List Write} (hsound : image.Sound sectors)
    (hother : other.Sound sectors)
    (hadmits : image.Admits sectors path size parent directory name index height)
    (hcreated : image.Created sectors directory index name size isDirectory height sector node fresh
      table map)
    (hcreated' : other.Created sectors directory index name size isDirectory height sector node
      fresh' table' map')
    (hrests : (image.putAll fresh).RestsOn nodes sector)
    (hrests' : (other.putAll fresh').RestsOn nodes sector) :
    (image.putAll (fresh ++ (table ++ map))).Resembles
      (other.putAll (fresh' ++ (table' ++ map'))) sectors := by
  have hadmits' := h.admits hadmits
  have htarget := Created.targetAt_final hcreated hsound hadmits
  have hnew := (hrests.congr (Created.new_spine_final hcreated hsound hadmits)).agree
    (hrests'.congr (Created.new_spine_final hcreated' hother hadmits'))
  constructor
  case unmoved =>
    intro owner head howner
    have hold (hbefore : image.headOf owner = some head) :=
      h.unmoved_of_unmoved (Created.unmoved_final hcreated hsound hadmits)
        (Created.unmoved_final hcreated' hother hadmits') owner hbefore
    cases owner with
    | map => exact hold howner
    | item place =>
      rw [headOf, htarget] at howner
      split at howner
      · obtain rfl := Option.some.inj howner
        exact hnew
      · exact hold howner
  case table_eq =>
    intro place found hplace
    rw [htarget] at hplace
    split at hplace
    · obtain ⟨rfl, rfl⟩ := Target.mk.inj (Option.some.inj hplace)
      rw [Created.table_new hcreated hsound hadmits rfl,
        Created.table_new hcreated' hother hadmits' rfl]
    · by_cases hparent : place = parent
      · rw [hparent, hadmits.place_eq] at hplace
        obtain ⟨rfl, -⟩ := Target.mk.inj (Option.some.inj hplace)
        rw [Created.table_final hcreated hsound hadmits,
          Created.table_final hcreated' hother hadmits',
          h.table_eq parent directory hadmits.place_eq]
      · have hplace' := (h.targetAt_eq place).trans hplace
        rw [table_congr (Created.content_final hcreated hsound hadmits hplace hparent),
          table_congr (Created.content_final hcreated' hother hadmits' hplace' hparent),
          h.table_eq place found hplace]
  case freeMap_eq =>
    rw [Created.freeMap_final hcreated hsound hadmits, Created.freeMap_final hcreated' hother hadmits',
      h.freeMap_eq, h.claimed_eq]

end Changes

end Resembles

/-- Formatted disks of one size resemble each other. -/
theorem Formatted.resembles {height : Fin maxLevel} {mapNode rootNode : Node} {inner : List Write}
    (h : image.Formatted sectors height mapNode rootNode inner)
    (hother : other.Formatted sectors height mapNode rootNode inner) :
    image.Resembles other sectors := by
  constructor
  case unmoved =>
    intro owner head howner
    cases owner with
    | map =>
      obtain rfl := Option.some.inj howner
      exact h.map_restsOn.agree hother.map_restsOn
    | item place =>
      obtain ⟨target, hplace, rfl⟩ := Option.map_eq_some_iff.mp howner
      obtain ⟨-, rfl⟩ := Rooted.targetAt_eq_some h.table_eq hplace
      exact h.root_restsOn.agree hother.root_restsOn
  case table_eq =>
    intro place sector hplace
    obtain ⟨-, htarget⟩ := Rooted.targetAt_eq_some h.table_eq hplace
    rw [(Target.mk.inj htarget).1, h.table_eq, hother.table_eq]
  case freeMap_eq =>
    rw [h.freeMap_eq, hother.freeMap_eq]

end Image

end SectorFS
