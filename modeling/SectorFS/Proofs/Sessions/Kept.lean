import SectorFS.Proofs.Creation.Cuts
import SectorFS.Proofs.Removal.Cuts
import SectorFS.Proofs.Sessions.Changes

/-!
# Files that have kept their sectors

A removal that is cut short can take a file out of its directory and leave its sectors
marked. Nobody owns these sectors then, but a program that has the file open goes on to read
and to write them. A set of files is kept by an image if each of them is intact and has all of
its sectors marked, is at some place or belongs to nobody, and shares no sector with another
one of the set.

What the volume does leaves such files alone. A creation takes sectors that are free, and these
are none of theirs; a removal, even if it is cut short, writes to the parent directory and to
the map; and what is written to a kept file goes to its own data sectors. So the files that
still have all their sectors marked after a change are kept again.
-/

namespace SectorFS.Image

variable {image changed : Image} {sectors head : Nat} {files : Set (Nat × Node)}

/-! ## Kept files -/

/-- Every sector of the file with this root node is marked. -/
def Marked (image : Image) (sectors head : Nat) : Prop :=
  ∀ member ∈ image.extent head, (image.freeMap sectors).isUsed member = true

/-- Files that can be used without harm to each other and to what is at the places of the image. -/
structure Keeps (image : Image) (sectors : Nat) (files : Set (Nat × Node)) : Prop where
  intact : ∀ file ∈ files, image.Intact sectors file.1 file.2
  marked : ∀ file ∈ files, image.Marked sectors file.1
  apart : ∀ file ∈ files, (∃ place, image.headOf (.item place) = some file.1) ∨
    ∀ owner, ∀ member ∈ image.extent file.1, ¬ image.Owns owner member
  disjoint : ∀ file ∈ files, ∀ other ∈ files, file.1 ≠ other.1 →
    ∀ member ∈ image.extent file.1, member ∉ image.extent other.1

/-- Every sector of what is at a place is marked. -/
theorem Sound.marked_of_headOf (h : image.Sound sectors) {owner : Owner}
    (howner : image.headOf owner = some head) : image.Marked sectors head :=
  fun member hmember ↦ h.marked owner member ⟨head, howner, hmember⟩

/-- A file stays marked where its nodes and the bits of its sectors stay. -/
theorem Marked.congr (h : image.Marked sectors head)
    (hspine : ∀ member ∈ image.spine head, changed member = image member)
    (hmap : ∀ member ∈ image.extent head, (image.freeMap sectors).isUsed member = true →
      (changed.freeMap sectors).isUsed member = true) : changed.Marked sectors head := by
  intro member hmember
  rw [extent_congr hspine] at hmember
  exact hmap member hmember (h member hmember)

namespace Keeps

theorem empty (image : Image) (sectors : Nat) : image.Keeps sectors ∅ :=
  ⟨by simp, by simp, by simp, by simp⟩

/-- If a sector of a kept file has an owner, then the owner is the file itself. -/
theorem headOf_eq (h : image.Keeps sectors files) (hsound : image.Sound sectors) {file : Nat × Node}
    (hfile : file ∈ files) {owner : Owner} {member : Nat} (hmember : member ∈ image.extent file.1)
    (howns : image.Owns owner member) : image.headOf owner = some file.1 := by
  rcases h.apart file hfile with ⟨place, hplace⟩ | hnobody
  · rw [hsound.owner_eq owner (.item place) member howns ⟨file.1, hplace, hmember⟩]
    exact hplace
  · exact absurd howns (hnobody owner member hmember)

/-- What is at a place can be kept as well. -/
theorem union (h : image.Keeps sectors files) (hsound : image.Sound sectors)
    {more : Set (Nat × Node)} (hplace : ∀ file ∈ more,
      (∃ place, image.headOf (.item place) = some file.1) ∧ image.node? file.1 = some file.2) :
    image.Keeps sectors (files ∪ more) := by
  have hshared {file other : Nat × Node} (hfile : file ∈ more)
      (hother : other ∈ files ∪ more) {member : Nat} (hmember : member ∈ image.extent file.1)
      (hshare : member ∈ image.extent other.1) : file.1 = other.1 := by
    obtain ⟨⟨place, hhead⟩, -⟩ := hplace file hfile
    have howns : image.Owns (.item place) member := ⟨file.1, hhead, hmember⟩
    rcases hother with hold | hnew
    · exact Option.some.inj (hhead.symm.trans (h.headOf_eq hsound hold hshare howns))
    · obtain ⟨⟨second, hsecond⟩, -⟩ := hplace other hnew
      have hsame := hsound.owner_eq (.item place) (.item second) member howns ⟨_, hsecond, hshare⟩
      rw [hsame, hsecond] at hhead
      exact (Option.some.inj hhead).symm
  constructor
  case intact =>
    rintro file (hfile | hfile)
    · exact h.intact file hfile
    · obtain ⟨⟨place, hhead⟩, hnode⟩ := hplace file hfile
      obtain ⟨node, hintact⟩ := hsound.intact _ _ hhead
      obtain rfl := Option.some.inj (hnode.symm.trans hintact.node_eq)
      exact hintact
  case marked =>
    rintro file (hfile | hfile)
    · exact h.marked file hfile
    · exact hsound.marked_of_headOf (hplace file hfile).1.choose_spec
  case apart =>
    rintro file (hfile | hfile)
    · exact h.apart file hfile
    · exact .inl (hplace file hfile).1
  case disjoint =>
    rintro file (hfile | hfile) other hother hne member hmember hshare
    · rcases hother with hold | hnew
      · exact h.disjoint file hfile other hold hne member hmember hshare
      · exact hne (hshared hnew (.inl hfile) hshare hmember).symm
    · exact hne (hshared hfile hother hmember hshare)

end Keeps

/-! ## Changes that spare them -/

/-- A change that moves neither the files of the set nor what is at a place, that brings nothing to
a place where something is, and that gives nobody a sector that was marked. -/
structure Spares (image changed : Image) (sectors : Nat) (files : Set (Nat × Node)) : Prop where
  sound : changed.Sound sectors
  unmoved : Sound.Unmoved image changed
  spine : ∀ file ∈ files, ∀ member ∈ image.spine file.1, changed member = image member
  places : ∀ place target, image.targetAt place = some target →
    changed.targetAt place = some target ∨ changed.targetAt place = none
  owned : ∀ owner member, (image.freeMap sectors).isUsed member = true →
    changed.Owns owner member → image.Owns owner member

theorem Spares.refl (h : image.Sound sectors) (files : Set (Nat × Node)) :
    image.Spares image sectors files where
  sound := h
  unmoved _ _ _ _ _ := rfl
  spine _ _ _ _ := rfl
  places _ _ hplace := .inl hplace
  owned _ _ _ howns := howns

/-- After such a change the files are kept that still have all their sectors marked. -/
theorem Keeps.change (h : image.Keeps sectors files) (hsound : image.Sound sectors)
    (hspares : image.Spares changed sectors files) :
    changed.Keeps sectors {file ∈ files | changed.Marked sectors file.1} := by
  have hextent (file : Nat × Node) (hfile : file ∈ files) :
      changed.extent file.1 = image.extent file.1 := extent_congr (hspares.spine file hfile)
  constructor
  case intact =>
    rintro file ⟨hfile, -⟩
    exact (h.intact file hfile).congr (hspares.spine file hfile)
  case marked =>
    rintro file ⟨-, hmarked⟩
    exact hmarked
  case apart =>
    rintro file ⟨hfile, -⟩
    have hbefore {owner : Owner} {member : Nat} (hmember : member ∈ changed.extent file.1)
        (howns : changed.Owns owner member) : image.Owns owner member := by
      rw [hextent file hfile] at hmember
      exact hspares.owned owner member (h.marked file hfile member hmember) howns
    rcases h.apart file hfile with ⟨place, hplace⟩ | hnobody
    · obtain ⟨target, htarget, hsector⟩ := Option.map_eq_some_iff.mp hplace
      rcases hspares.places place target htarget with hstays | hgone
      · exact .inl ⟨place, by rw [headOf_item hstays, hsector]⟩
      · -- The file has lost its place, and its sectors had no other owner.
        refine .inr fun owner member hmember howns ↦ ?_
        have hold := hbefore hmember howns
        rw [hextent file hfile] at hmember
        obtain ⟨top, htop, -⟩ := howns
        rw [hsound.owner_eq owner (.item place) member hold ⟨file.1, hplace, hmember⟩, headOf,
          hgone] at htop
        contradiction
    · refine .inr fun owner member hmember howns ↦ ?_
      exact hnobody owner member (hextent file hfile ▸ hmember) (hbefore hmember howns)
  case disjoint =>
    rintro file ⟨hfile, -⟩ other ⟨hother, -⟩ hne member hmember
    rw [hextent file hfile] at hmember
    rw [hextent other hother]
    exact h.disjoint file hfile other hother hne member hmember

/-- Kept files are not moved by a change that moves nothing at a place and that leaves alone what is
marked without an owner. -/
theorem Keeps.spine_kept (h : image.Keeps sectors files) (hunmoved : Sound.Unmoved image changed)
    (hnobody : ∀ member, (image.freeMap sectors).isUsed member = true →
      (∀ owner, ¬ image.Owns owner member) → changed member = image member) :
    ∀ file ∈ files, ∀ member ∈ image.spine file.1, changed member = image member := by
  intro file hfile member hmember
  rcases h.apart file hfile with ⟨place, hplace⟩ | hapart
  · exact hunmoved (.item place) file.1 hplace member hmember
  · have hextent := mem_extent_iff.mpr (.inl hmember)
    exact hnobody member (h.marked file hfile member hextent)
      fun owner ↦ hapart owner member hextent

/-! ## Creations -/

section Created

variable {path : Path} {parent : Place} {directory size sector : Nat} {name : String}
  {index : Fin entryCount} {height : Fin maxLevel} {isDirectory : Bool} {node : Node}
  {fresh table map : List Write}
  (hcreated : image.Created sectors directory index name size isDirectory height sector node fresh
    table map) (hsound : image.Sound sectors)
  (hadmits : image.Admits sectors path size parent directory name index height)

include hcreated hsound hadmits

/-- A creation writes to free sectors, to the parent directory and to the map. -/
theorem Created.kept_of_nobody {member : Nat} (hused : (image.freeMap sectors).isUsed member = true)
    (hnobody : ∀ owner, ¬ image.Owns owner member) :
    image.putAll (fresh ++ (table ++ map)) member = image member := by
  have huntouched := untouched_fresh hcreated hsound
  have hfresh : image.putAll fresh member = image member := by
    apply putAll_of_not_mem
    intro hmember
    obtain ⟨write, hwrite, rfl⟩ := List.mem_map.mp hmember
    rw [not_isUsed_of_mem_claimed (hcreated.fresh_claimed write hwrite)] at hused
    contradiction
  rw [final_eq]
  calc ((image.putAll fresh).putAll table).putAll (map.take map.length) member
      = image.putAll fresh member := by
        refine (linking_map hcreated hsound hadmits map.length).kept_of_unowned
          (parent_fresh hcreated hsound hadmits) fun owner ↦ ?_
        rw [Sound.owns_of_unmoved (huntouched.targetAt hsound) huntouched.unmoved]
        exact hnobody owner
    _ = image member := hfresh

theorem Created.owns_final {owner : Owner} {member : Nat}
    (hused : (image.freeMap sectors).isUsed member = true)
    (howns : (image.putAll (fresh ++ (table ++ map))).Owns owner member) :
    image.Owns owner member := by
  rcases (Sound.owns_of_grown hadmits.targetAt_self (targetAt_final hcreated hsound hadmits)
    (unmoved_final hcreated hsound hadmits) owner member).mp howns with hold | ⟨-, hnew⟩
  · exact hold
  · rw [final_eq, new_extent hcreated hsound hadmits
      (linking_map hcreated hsound hadmits map.length)] at hnew
    rw [not_isUsed_of_mem_claimed hnew] at hused
    contradiction

theorem Created.spares (hsize : isDirectory = true → size = directorySize)
    (h : image.Keeps sectors files) :
    image.Spares (image.putAll (fresh ++ (table ++ map))) sectors files where
  sound := sound_final hcreated hsound hadmits hsize
  unmoved := unmoved_final hcreated hsound hadmits
  spine := h.spine_kept (unmoved_final hcreated hsound hadmits)
    fun _ hused ↦ kept_of_nobody hcreated hsound hadmits hused
  places place target hplace := by
    refine .inl ((targetAt_final hcreated hsound hadmits place).trans ?_)
    rw [if_neg, hplace]
    rintro rfl
    rw [hadmits.targetAt_self] at hplace
    contradiction
  owned _ _ hused howns := owns_final hcreated hsound hadmits hused howns

end Created

/-! ## Removals -/

section Removed

variable {path : Path} {parent : Place} {directory : Nat} {name : String}
  {index : Fin entryCount} {target : Target} {table map : List Write}
  (hremoved : image.Removed sectors directory index target table map)
  (hsound : image.Sound sectors)
  (hnames : image.Names path parent directory name index target)

include hremoved hsound hnames

/-- A removal spares the files, however much of it is carried out. -/
theorem Removed.spares (h : image.Keeps sectors files) (limit : Nat) :
    image.Spares (image.putAll ((table ++ map).take limit)) sectors files where
  sound := sound_cut hremoved hsound hnames limit
  unmoved := (linking_cut hremoved hsound hnames limit).unmoved hsound hnames.place_eq
  spine := h.spine_kept ((linking_cut hremoved hsound hnames limit).unmoved hsound hnames.place_eq)
    fun _ _ ↦ (linking_cut hremoved hsound hnames limit).kept_of_unowned hnames.place_eq
  places _ _ hplace := targetAt_cut hremoved hsound hnames limit hplace
  owned _ _ _ howns := owns_cut hremoved hsound hnames limit howns

/-- A kept file whose root node stays marked in the end stays marked as a whole. -/
theorem Removed.marked_final (h : image.Keeps sectors files) {file : Nat × Node}
    (hfile : file ∈ files)
    (hhead : ((image.putAll (table ++ map)).freeMap sectors).isUsed file.1 = true) :
    (image.putAll (table ++ map)).Marked sectors file.1 := by
  have hlength : sectors < (index :: parent).length + (sectors + 3) := by omega
  have hspares := hremoved.spares hsound hnames h (table ++ map).length
  rw [List.take_length] at hspares
  refine (h.marked file hfile).congr (hspares.spine file hfile) fun member hmember hused ↦ ?_
  rw [isUsed_final hremoved hsound hnames, Bool.and_eq_true, Bool.not_eq_true',
    decide_eq_false_iff_not, mem_treeSectors hsound hnames.target_eq hlength] at hhead
  rw [isUsed_final hremoved hsound hnames, hused, Bool.true_and, Bool.not_eq_true',
    decide_eq_false_iff_not, mem_treeSectors hsound hnames.target_eq hlength]
  rintro ⟨place, hbelow, howns⟩
  have hself := h.headOf_eq hsound hfile hmember howns
  exact hhead.2 ⟨place, hbelow, Sound.owns_self hself⟩

end Removed

/-! ## Writing -/

/-- What is written to a kept file that is no directory spares all of them. -/
theorem Keeps.spares_written (h : image.Keeps sectors files) (hsound : image.Sound sectors)
    {file : Nat × Node} (hfile : file ∈ files)
    (hregular : ∀ place, image.targetAt place ≠ some ⟨file.1, true⟩) {position : Nat}
    {data : ByteArray} {writes : List Write}
    (hsplices : image.Overwrites file.1 position data writes) :
    image.Spares (image.putAll writes) sectors files ∧
      (image.putAll writes).freeMap sectors = image.freeMap sectors := by
  have hkept := Overwrites.kept hsplices
  have hspine : ∀ other ∈ files, ∀ member ∈ image.spine other.1,
      image.putAll writes member = image member := by
    intro other hother member hmember
    apply hkept
    intro hleaf
    by_cases hsame : file.1 = other.1
    · exact (h.intact file hfile).not_mem_spine hleaf (hsame ▸ hmember)
    · exact h.disjoint file hfile other hother hsame member (mem_extent_iff.mpr (.inr hleaf))
        (mem_extent_iff.mpr (.inl hmember))
  have hof (htarget : ∀ place, (image.putAll writes).targetAt place = image.targetAt place)
      (hunmoved : Sound.Unmoved image (image.putAll writes))
      (hchanged : (image.putAll writes).Sound sectors) :
      image.Spares (image.putAll writes) sectors files :=
    ⟨hchanged, hunmoved, hspine, fun place target hplace ↦ .inl ((htarget place).trans hplace),
      fun owner member _ howns ↦ (Sound.owns_of_unmoved htarget hunmoved owner member).mp howns⟩
  rcases h.apart file hfile with ⟨place, hplace⟩ | hnobody
  · obtain ⟨⟨sector, isDirectory⟩, htarget, rfl⟩ := Option.map_eq_some_iff.mp hplace
    cases isDirectory with
    | true => exact absurd htarget (hregular place)
    | false =>
      exact ⟨hof (targetAt_written hsplices hsound htarget)
        (unmoved_written hsplices hsound htarget) (sound_written hsplices hsound htarget),
        freeMap_written hsplices hsound htarget⟩
  · have huntouched : Sound.Untouched image (image.putAll writes) := fun owner member howns ↦
      hkept member fun hleaf ↦ hnobody owner member (mem_extent_iff.mpr (.inr hleaf)) howns
    exact ⟨hof (huntouched.targetAt hsound) huntouched.unmoved (huntouched.sound hsound),
      huntouched.freeMap hsound⟩

end SectorFS.Image
