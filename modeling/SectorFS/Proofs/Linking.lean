import SectorFS.Proofs.Sound

/-!
# Entering and freeing an entry

What a change of a few sectors does to a sound image. Sectors that nobody owns can be
written freely. Data sectors can be written without moving any file, because no data sector
holds a node of any owner. If the content that changes is a directory's and one entry of it
changes, the entry's place and the places below it are the only ones affected: an entry that
comes into use for an empty directory or a file adds one place, and an entry that is freed
takes its place and everything below it away.
-/

namespace SectorFS.Image

variable {image changed : Image} {sectors : Nat}

/-! ## Places around an entry -/

section Entry

variable {parent : Place} {directory : Nat} {index : Fin entryCount}

/-- Only the entry at a position of the directory at a place may have changed. -/
def OnlyEntry (image changed : Image) (directory : Nat) (index : Fin entryCount) : Prop :=
  ∀ place sector other, image.targetAt place = some ⟨sector, true⟩ →
    ¬ (sector = directory ∧ other = index) → changed.child? sector other = image.child? sector other

theorem OnlyEntry.targetAt (h : image.OnlyEntry changed directory index) (hsound : image.Sound sectors)
    (hparent : image.targetAt parent = some ⟨directory, true⟩) {place : Place}
    (hplace : ¬ index :: parent <:+ place) : changed.targetAt place = image.targetAt place := by
  refine targetAt_of_not_suffix (fun above sector other habove hne ↦ ?_) hplace
  refine h above sector other habove fun hsame ↦ hne ?_
  rw [hsame.2, hsound.place_eq habove hparent hsame.1]

theorem OnlyEntry.targetAt_parent (h : image.OnlyEntry changed directory index)
    (hsound : image.Sound sectors) (hparent : image.targetAt parent = some ⟨directory, true⟩) :
    changed.targetAt parent = some ⟨directory, true⟩ := by
  rw [h.targetAt hsound hparent (parent.not_below_self index), hparent]

/-- Entering a file, or a directory without entries, adds one place. -/
theorem OnlyEntry.targetAt_of_entered (h : image.OnlyEntry changed directory index)
    (hsound : image.Sound sectors) (hparent : image.targetAt parent = some ⟨directory, true⟩)
    (hold : image.child? directory index = none) {target : Target}
    (hnew : changed.child? directory index = some target)
    (hempty : target.isDirectory = true → ∀ other, changed.child? target.sector other = none)
    (place : Place) :
    changed.targetAt place =
      if place = index :: parent then some target else image.targetAt place := by
  have hself : changed.targetAt (index :: parent) = some target := by
    rw [targetAt_cons_of_directory (h.targetAt_parent hsound hparent), hnew]
  by_cases hsuffix : index :: parent <:+ place
  · obtain ⟨below, rfl⟩ := hsuffix
    cases below using List.reverseRecOn with
    | nil => rw [List.nil_append, if_pos rfl, hself]
    | append_singleton below other =>
      have hnone : changed.targetAt (other :: index :: parent) = none := by
        rw [Image.targetAt, hself]
        obtain ⟨sector, isDirectory⟩ := target
        cases isDirectory with
        | false => rfl
        | true => exact hempty rfl other
      have hbefore : image.targetAt (index :: parent) = none := by
        rw [targetAt_cons_of_directory hparent, hold]
      have hne : ¬ below ++ [other] ++ index :: parent = index :: parent := fun heq ↦
        Place.not_below_self (index :: parent) other ⟨below, by rwa [List.append_assoc] at heq⟩
      rw [if_neg hne, targetAt_append_of_none hbefore, List.append_assoc, List.singleton_append,
        targetAt_append_of_none hnone]
  · have hne : ¬ place = index :: parent := fun heq ↦ hsuffix (heq ▸ List.suffix_refl _)
    rw [if_neg hne, h.targetAt hsound hparent hsuffix]

/-- Freeing an entry takes away its place and everything below it. -/
theorem OnlyEntry.targetAt_of_freed (h : image.OnlyEntry changed directory index)
    (hsound : image.Sound sectors) (hparent : image.targetAt parent = some ⟨directory, true⟩)
    (hnew : changed.child? directory index = none) (place : Place) :
    changed.targetAt place =
      if index :: parent <:+ place then none else image.targetAt place := by
  split
  · rename_i hsuffix
    obtain ⟨below, rfl⟩ := hsuffix
    refine targetAt_append_of_none ?_ below
    rw [targetAt_cons_of_directory (h.targetAt_parent hsound hparent), hnew]
  · rename_i hsuffix
    exact h.targetAt hsound hparent hsuffix

end Entry

namespace Sound

/-! ## Writes that move nothing -/

/-- Every node of every owner is as it was. -/
def Unmoved (image changed : Image) : Prop :=
  ∀ owner head, image.headOf owner = some head →
    ∀ member ∈ image.spine head, changed member = image member

/-- A data sector of an owner is not a node of another one either. -/
theorem not_mem_spine (h : image.Sound sectors) {owner other : Owner} {head top leaf : Nat}
    (howner : image.headOf owner = some head) (hother : image.headOf other = some top)
    (hleaf : leaf ∈ image.leaves head) : leaf ∉ image.spine top := by
  intro hspine
  obtain rfl : owner = other := h.owner_eq owner other leaf
    ⟨head, howner, mem_extent_iff.mpr (.inr hleaf)⟩
    ⟨top, hother, mem_extent_iff.mpr (.inl hspine)⟩
  obtain rfl := Option.some.inj (howner.symm.trans hother)
  obtain ⟨node, hintact⟩ := h.intact owner head howner
  exact hintact.not_mem_spine hleaf hspine

/-- Different owners have different data sectors. -/
theorem owner_of_leaf (h : image.Sound sectors) {owner other : Owner} {head sector : Nat}
    (howner : image.headOf owner = some head) (hleaf : sector ∈ image.leaves head)
    (hother : image.Owns other sector) : other = owner :=
  h.owner_eq other owner sector hother ⟨head, howner, mem_extent_iff.mpr (.inr hleaf)⟩

theorem unmoved_of_leaves (h : image.Sound sectors) {owner : Owner} {head : Nat}
    (howner : image.headOf owner = some head)
    (hkept : ∀ member ∉ image.leaves head, changed member = image member) :
    Unmoved image changed := fun _ _ hother member hmember ↦
  hkept member fun hleaf ↦ h.not_mem_spine howner hother hleaf hmember

/-- Other owners keep their content when a data sector of one is written. -/
theorem content_of_leaves (h : image.Sound sectors) {owner other : Owner} {head top : Nat}
    (howner : image.headOf owner = some head) (hother : image.headOf other = some top)
    (hne : other ≠ owner) (hkept : ∀ member ∉ image.leaves head, changed member = image member) :
    changed.content top = image.content top := by
  obtain ⟨node, hintact⟩ := h.intact other top hother
  refine content_congr hintact fun member hmember ↦ hkept member fun hleaf ↦ hne ?_
  exact h.owner_of_leaf howner hleaf ⟨top, hother, hmember⟩

theorem owns_of_unmoved (htarget : ∀ place, changed.targetAt place = image.targetAt place)
    (hunmoved : Unmoved image changed) (owner : Owner) (sector : Nat) :
    changed.Owns owner sector ↔ image.Owns owner sector := by
  refine owns_congr ?_ (fun head howner ↦ hunmoved owner head howner) sector
  cases owner with
  | map => rfl
  | item place => rw [headOf, headOf, htarget]

/-- An image stays sound while its files stay where they are and the map says the same. -/
theorem sound_of_unmoved (h : image.Sound sectors)
    (htarget : ∀ place, changed.targetAt place = image.targetAt place)
    (hunmoved : Unmoved image changed)
    (hmap : ∀ sector, (changed.freeMap sectors).isUsed sector =
      (image.freeMap sectors).isUsed sector) : changed.Sound sectors := by
  refine h.restrict (fun place target hplace ↦ htarget place ▸ hplace)
    (fun owner head howner ↦ hunmoved owner head ?_) (fun owner sector howns ↦ ?_)
    fun sector hused ↦ hmap sector ▸ hused
  · cases owner with
    | map => exact howner
    | item place => rwa [headOf, htarget] at howner
  · rw [hmap]
    exact h.marked owner sector ((owns_of_unmoved htarget hunmoved owner sector).mp howns)

/-! ## Writes outside everything -/

/-- Every sector that belongs to an owner is as it was. -/
def Untouched (image changed : Image) : Prop :=
  ∀ owner member, image.Owns owner member → changed member = image member

namespace Untouched

variable (hsame : Untouched image changed)

include hsame

theorem unmoved : Unmoved image changed := fun owner head howner member hmember ↦
  hsame owner member ⟨head, howner, mem_extent_iff.mpr (.inl hmember)⟩

theorem content (h : image.Sound sectors) {owner : Owner} {head : Nat}
    (howner : image.headOf owner = some head) : changed.content head = image.content head := by
  obtain ⟨node, hintact⟩ := h.intact owner head howner
  exact content_congr hintact fun member hmember ↦ hsame owner member ⟨head, howner, hmember⟩

theorem table (h : image.Sound sectors) {place : Place} {target : Target}
    (hplace : image.targetAt place = some target) :
    changed.table target.sector = image.table target.sector := by
  rw [Image.table, Image.table, content hsame h (headOf_item hplace)]

theorem targetAt (h : image.Sound sectors) (place : Place) :
    changed.targetAt place = image.targetAt place :=
  targetAt_congr (fun _ _ habove ↦ table hsame h habove) place

theorem freeMap (h : image.Sound sectors) : changed.freeMap sectors = image.freeMap sectors := by
  rw [Image.freeMap, Image.freeMap, content hsame h (headOf_map image)]

theorem sound (h : image.Sound sectors) : changed.Sound sectors :=
  h.sound_of_unmoved (targetAt hsame h) (unmoved hsame) fun sector ↦ by rw [freeMap hsame h]

end Untouched

/-- Free sectors can be written. -/
theorem untouched_of_free (h : image.Sound sectors) {writes : List Write}
    (hfree : ∀ write ∈ writes, write.1 ∈ (image.freeMap sectors).free) :
    Untouched image (image.putAll writes) := by
  intro owner member howns
  refine putAll_of_not_mem _ fun hmem ↦ ?_
  obtain ⟨write, hwrite, rfl⟩ := List.mem_map.mp hmem
  exact h.not_owns_of_mem_free (hfree write hwrite) owner howns

end Sound

end SectorFS.Image
