import SectorFS.Proofs.Creation.Stages
import SectorFS.Proofs.Removal.Effect
import SectorFS.Proofs.Sessions

/-!
# What a call changes

A call changes the image of a sound volume in one of four ways: not at all, by a creation,
by a removal, or by a write to one regular file. None of them moves a file, each leaves an
exact image of an exact one, and a regular file keeps its bytes unless it is the one that is
written to, which then has the written bytes at their places and the others where they were.
-/

namespace SectorFS

namespace Image

variable {image changed : Image} {sectors : Nat}

/-! ## Writing to a regular file -/

section Writing

variable {place : Place} {sector position : Nat} {data : ByteArray} {writes : List Write}

/-- The writes that put `data` over the bytes of a file, up to its end. -/
abbrev Overwrites (image : Image) (sector position : Nat) (data : ByteArray)
    (writes : List Write) : Prop :=
  image.Splices sector position (min data.size (image.size sector - position)) position data writes

theorem Overwrites.kept (h : image.Overwrites sector position data writes) :
    ∀ member ∉ image.leaves sector, image.putAll writes member = image member := by
  intro member hmember
  have hsame := Splices.kept h writes.length hmember
  rwa [List.take_length] at hsame

theorem Overwrites.content {node : Node} (h : image.Overwrites sector position data writes)
    (hintact : image.Intact sectors sector node) :
    (image.putAll writes).content sector = overwrite (image.content sector) position data := by
  have hsize : (image.putAll writes).size sector = image.size sector :=
    size_congr fun member hmember ↦ Overwrites.kept h member fun hleaf ↦
      hintact.not_mem_spine hleaf hmember
  apply eq_of_byteAt
  · rw [size_overwrite, size_content, size_content, hsize]
  · intro offset hoffset
    rw [size_content, hsize] at hoffset
    rw [Splices.byteAt_written h hintact hoffset,
      byteAt_overwrite _ _ _ (by rw [size_content]; exact hoffset)]
    by_cases hwithin : position ≤ offset ∧ offset < position + data.size
    · rw [if_pos hwithin, if_pos (by omega)]
    · rw [if_neg hwithin, if_neg (by omega)]

variable (hsplices : image.Overwrites sector position data writes) (h : image.Sound sectors)
  (hplace : image.targetAt place = some ⟨sector, false⟩)

include hsplices h hplace

theorem unmoved_written : Sound.Unmoved image (image.putAll writes) :=
  h.unmoved_of_leaves (headOf_item hplace) (Overwrites.kept hsplices)

/-- A write to a file changes the content of no other owner. -/
theorem content_unwritten {owner : Owner} {head : Nat} (howner : image.headOf owner = some head)
    (hne : owner ≠ .item place) : (image.putAll writes).content head = image.content head :=
  h.content_of_leaves (headOf_item hplace) howner hne (Overwrites.kept hsplices)

/-- A write to a file changes no table. -/
theorem table_unwritten {other : Place} {directory : Nat}
    (hother : image.targetAt other = some ⟨directory, true⟩) :
    (image.putAll writes).table directory = image.table directory := by
  have hne : Owner.item other ≠ .item place := by
    rintro heq
    obtain rfl := Owner.item.inj heq
    rw [hplace] at hother
    exact Bool.false_ne_true (Target.mk.inj (Option.some.inj hother)).2
  exact table_congr (content_unwritten hsplices h hplace (headOf_item hother) hne)

theorem targetAt_written (other : Place) :
    (image.putAll writes).targetAt other = image.targetAt other :=
  targetAt_congr (fun _ _ habove ↦ table_unwritten hsplices h hplace habove) other

theorem freeMap_written : (image.putAll writes).freeMap sectors = image.freeMap sectors := by
  rw [Image.freeMap, Image.freeMap, content_unwritten hsplices h hplace image.headOf_map (by simp)]

theorem sound_written : (image.putAll writes).Sound sectors :=
  h.sound_of_unmoved (targetAt_written hsplices h hplace) (unmoved_written hsplices h hplace)
    fun member ↦ by rw [freeMap_written hsplices h hplace]

omit h in
theorem exact_written (h : image.Exact sectors) : (image.putAll writes).Exact sectors := by
  refine ⟨sound_written hsplices h hplace, fun member hused ↦ ?_⟩
  rw [freeMap_written hsplices h hplace] at hused
  obtain ⟨owner, howns⟩ := h.owned member hused
  exact ⟨owner, (Sound.owns_of_unmoved (targetAt_written hsplices h.toSound hplace)
    (unmoved_written hsplices h.toSound hplace) owner member).mpr howns⟩

end Writing

/-! ## Changes -/

/-- The bytes of a file after a write that goes to this file or to another one. -/
def afterWrite (sector : Nat) (bytes : ByteArray) : Option (Nat × Nat × ByteArray) → ByteArray
  | some (target, position, data) => if target = sector then overwrite bytes position data else bytes
  | none => bytes

@[simp] theorem size_afterWrite (sector : Nat) (bytes : ByteArray)
    (written? : Option (Nat × Nat × ByteArray)) :
    (afterWrite sector bytes written?).size = bytes.size := by
  rcases written? with - | ⟨target, position, data⟩
  · rfl
  · rw [afterWrite]
    split
    · exact size_overwrite _ _ _
    · rfl

/-- What a call does to an image. A write is told apart by its file, position and bytes. -/
inductive Change (sectors : Nat) (image : Image) : Option (Nat × Nat × ByteArray) → Image → Prop
  | same : Change sectors image none image
  | created {path : Path} {size directory sector : Nat} {parent : Place} {name : String}
      {index : Fin entryCount} {height : Fin maxLevel} {isDirectory : Bool} {node : Node}
      {fresh table map : List Write}
      (hadmits : image.Admits sectors path size parent directory name index height)
      (hcreated : image.Created sectors directory index name size isDirectory height sector node
        fresh table map)
      (hsize : isDirectory = true → size = directorySize) :
      Change sectors image none (image.putAll (fresh ++ (table ++ map)))
  | removed {path : Path} {parent : Place} {directory : Nat} {name : String}
      {index : Fin entryCount} {target : Target} {table map : List Write}
      (hnames : image.Names path parent directory name index target)
      (hremoved : image.Removed sectors directory index target table map) :
      Change sectors image none (image.putAll (table ++ map))
  | written {place : Place} {sector position : Nat} {data : ByteArray} {writes : List Write}
      (hplace : image.targetAt place = some ⟨sector, false⟩)
      (hsplices : image.Overwrites sector position data writes) :
      Change sectors image (some (sector, position, data)) (image.putAll writes)

namespace Change

variable {written? : Option (Nat × Nat × ByteArray)}

theorem toExact (hchange : Change sectors image written? changed) (h : image.Exact sectors) :
    changed.Exact sectors := by
  cases hchange with
  | same => exact h
  | created hadmits hcreated hsize => exact Created.exact_final hcreated hadmits hsize h
  | removed hnames hremoved => exact Removed.exact_final hremoved hnames h
  | written hplace hsplices => exact exact_written hsplices hplace h

theorem unmoved (hchange : Change sectors image written? changed) (h : image.Sound sectors) :
    Sound.Unmoved image changed := by
  cases hchange with
  | same => exact fun _ _ _ _ _ ↦ rfl
  | created hadmits hcreated => exact Created.unmoved_final hcreated h hadmits
  | removed hnames hremoved => exact Removed.unmoved_final hremoved h hnames
  | written hplace hsplices => exact unmoved_written hsplices h hplace

/-- Every file keeps its root node. -/
theorem node?_eq (hchange : Change sectors image written? changed) (h : image.Sound sectors)
    {place : Place} {target : Target} (hplace : image.targetAt place = some target) :
    changed.node? target.sector = image.node? target.sector :=
  node?_of_spine (hchange.unmoved h _ _ (headOf_item hplace))

/-- What is written to is a regular file. -/
theorem hasFile {sector position : Nat} {data : ByteArray}
    (hchange : Change sectors image (some (sector, position, data)) changed) :
    image.HasFile sector := by
  cases hchange with
  | @written place _ _ _ _ hplace hsplices => exact ⟨place, hplace⟩

/-- A regular file has the bytes that were written to it, and keeps the others. -/
theorem content_eq (hchange : Change sectors image written? changed) (h : image.Sound sectors)
    {sector : Nat} (hfile : image.HasFile sector) :
    changed.content sector = afterWrite sector (image.content sector) written? := by
  obtain ⟨place, hplace⟩ := hfile
  have hparent {parent : Place} {directory : Nat}
      (hdirectory : image.targetAt parent = some ⟨directory, true⟩) : place ≠ parent := by
    rintro rfl
    rw [hplace] at hdirectory
    exact Bool.false_ne_true (Target.mk.inj (Option.some.inj hdirectory)).2
  cases hchange with
  | same => rfl
  | created hadmits hcreated =>
    exact Created.content_final hcreated h hadmits hplace (hparent hadmits.place_eq)
  | removed hnames hremoved =>
    exact Removed.content_final hremoved h hnames hplace (hparent hnames.place_eq)
  | @written at_ target position data writes htarget hsplices =>
    rw [afterWrite]
    split
    · rename_i heq
      subst heq
      obtain ⟨node, hintact⟩ := h.intact_item htarget
      exact Overwrites.content hsplices hintact
    · rename_i hne
      refine content_unwritten hsplices h htarget (headOf_item hplace) fun heq ↦ hne ?_
      obtain rfl := Owner.item.inj heq
      rw [htarget] at hplace
      exact (Target.mk.inj (Option.some.inj hplace)).1

end Change

end Image

end SectorFS
