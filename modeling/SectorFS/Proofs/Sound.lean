import SectorFS.Proofs.Places
import Mathlib.Data.Fintype.Card

/-!
# Sound images

The owners of a volume are the free-sector map and whatever is at a place, the root
directory included. On a sound image every owner is an intact file, directories have the
length of a table, no sector belongs to two owners, and the map marks every sector that
belongs to one. The sectors of different places are then different, so a place is never
longer than the disk has sectors, and no free sector belongs to anybody.

A sound image may mark more than that: a removal that is cut short can leave sectors marked
that nobody owns. On an exact image the free sectors are exactly those nobody owns.
-/

namespace SectorFS

open SectorFS.Geometry

/-- What sectors can belong to. -/
inductive Owner where
  | map
  | item (place : Place)
  deriving DecidableEq

namespace Image

/-- The sector of an owner's root node. -/
def headOf (image : Image) : Owner → Option Nat
  | .map => some freeMapSector
  | .item place => (image.targetAt place).map (·.sector)

/-- The sector is one of the owner's. -/
def Owns (image : Image) (owner : Owner) (sector : Nat) : Prop :=
  ∃ head, image.headOf owner = some head ∧ sector ∈ image.extent head

/-- What holds of the image of a volume at all times, also where an operation was cut short. -/
structure Sound (image : Image) (sectors : Nat) : Prop where
  intact : ∀ owner head, image.headOf owner = some head → ∃ node, image.Intact sectors head node
  size_map : image.size freeMapSector = FreeMap.byteCount sectors
  size_directory : ∀ place sector, image.targetAt place = some ⟨sector, true⟩ →
    image.size sector = directorySize
  owner_eq : ∀ owner other sector, image.Owns owner sector → image.Owns other sector →
    owner = other
  marked : ∀ owner sector, image.Owns owner sector →
    (image.freeMap sectors).isUsed sector = true
  clean : (image.freeMap sectors).Clean

/-- A sound image whose map marks nothing but the sectors that belong to an owner. -/
structure Exact (image : Image) (sectors : Nat) : Prop extends image.Sound sectors where
  owned : ∀ sector, (image.freeMap sectors).isUsed sector = true →
    ∃ owner, image.Owns owner sector

instance (image : Image) (sectors : Nat) : Coe (image.Exact sectors) (image.Sound sectors) :=
  ⟨Exact.toSound⟩

theorem Exact.charged {image : Image} {sectors : Nat} (h : image.Exact sectors) (sector : Nat) :
    (image.freeMap sectors).isUsed sector = true ↔ ∃ owner, image.Owns owner sector :=
  ⟨h.owned sector, fun ⟨owner, howns⟩ ↦ h.marked owner sector howns⟩

theorem headOf_map (image : Image) : image.headOf .map = some freeMapSector := rfl

theorem headOf_item {image : Image} {place : Place} {target : Target}
    (h : image.targetAt place = some target) : image.headOf (.item place) = some target.sector := by
  rw [headOf, h]
  rfl

namespace Sound

variable {image changed : Image} {sectors : Nat}

/-! ## Owners -/

theorem intact_map (h : image.Sound sectors) :
    ∃ node, image.Intact sectors freeMapSector node := h.intact .map freeMapSector rfl

theorem intact_item (h : image.Sound sectors) {place : Place} {target : Target}
    (hplace : image.targetAt place = some target) :
    ∃ node, image.Intact sectors target.sector node := h.intact _ _ (headOf_item hplace)

theorem owns_self {owner : Owner} {head : Nat} (h : image.headOf owner = some head) :
    image.Owns owner head := ⟨head, h, mem_extent_self image head⟩

theorem sectors_le (h : image.Sound sectors) : sectors ≤ 8 * capacity maxLevel := by
  obtain ⟨node, hmap⟩ := h.intact_map
  have hsize := le_capacity_maxLevel node.height.isLt hmap.le_capacity
  rw [← hmap.size_eq, h.size_map, FreeMap.byteCount] at hsize
  omega

theorem sectors_lt (h : image.Sound sectors) : sectors < 2 ^ 32 := by
  have hle := h.sectors_le
  have hlimit : 8 * capacity maxLevel < 2 ^ 32 := by decide
  omega

theorem lt_of_owns (h : image.Sound sectors) {owner : Owner} {sector : Nat}
    (howns : image.Owns owner sector) : sector < sectors := by
  obtain ⟨head, hhead, hmem⟩ := howns
  obtain ⟨node, hintact⟩ := h.intact owner head hhead
  exact hintact.lt sector hmem

/-- Different places lead to different sectors. -/
theorem place_eq (h : image.Sound sectors) {place other : Place} {target met : Target}
    (hplace : image.targetAt place = some target) (hother : image.targetAt other = some met)
    (hsector : target.sector = met.sector) : place = other := by
  have howns := owns_self (headOf_item hplace)
  have hmet := owns_self (headOf_item hother)
  rw [← hsector] at hmet
  exact Owner.item.inj (h.owner_eq _ _ _ howns hmet)

/-- A chain of nested directories is shorter than the disk has sectors. -/
theorem length_place_lt (h : image.Sound sectors) {place : Place} {target : Target}
    (hplace : image.targetAt place = some target) : place.length < sectors := by
  have hall (dropped : Fin (place.length + 1)) :
      ∃ upper, image.targetAt (place.drop dropped) = some upper := by
    have hsplit := hplace
    rw [← List.take_append_drop dropped place] at hsplit
    obtain ⟨upper, hupper, -⟩ := exists_targetAt_of_append hsplit
    exact ⟨upper, hupper⟩
  choose upper hupper using hall
  have hlt (dropped : Fin (place.length + 1)) : (upper dropped).sector < sectors :=
    h.lt_of_owns (owns_self (headOf_item (hupper dropped)))
  have hinjective : Function.Injective fun dropped ↦
      (⟨(upper dropped).sector, hlt dropped⟩ : Fin sectors) := by
    intro left right hsame
    have hdrop := congrArg List.length
      (h.place_eq (hupper left) (hupper right) (Fin.mk.inj hsame))
    rw [List.length_drop, List.length_drop] at hdrop
    omega
  have hcard := Fintype.card_le_of_injective _ hinjective
  rw [Fintype.card_fin, Fintype.card_fin] at hcard
  omega

/-! ## The map -/

theorem sectors_freeMap (image : Image) (sectors : Nat) :
    (image.freeMap sectors).sectors = sectors := by
  rw [freeMap, FreeMap.sectors_ofBytes]

theorem not_owns_of_mem_free (h : image.Sound sectors) {sector : Nat}
    (hsector : sector ∈ (image.freeMap sectors).free) (owner : Owner) :
    ¬ image.Owns owner sector := by
  intro howns
  have hused := h.marked owner sector howns
  rw [(FreeMap.mem_free.mp hsector).2] at hused
  contradiction

/-! ## Changes -/

/-- Kept owners keep their sectors. -/
theorem owns_congr {owner : Owner} (hhead : changed.headOf owner = image.headOf owner)
    (hspine : ∀ head, image.headOf owner = some head →
      ∀ member ∈ image.spine head, changed member = image member) (sector : Nat) :
    changed.Owns owner sector ↔ image.Owns owner sector := by
  rw [Owns, Owns, hhead]
  refine exists_congr fun head ↦ and_congr_right fun howner ↦ ?_
  rw [extent_congr (hspine head howner)]

/-- A map that marks no more than a clean one does is clean. -/
theorem clean_of_le (h : image.Sound sectors)
    (hmap : ∀ sector, (changed.freeMap sectors).isUsed sector = true →
      (image.freeMap sectors).isUsed sector = true) : (changed.freeMap sectors).Clean := by
  intro sector hsector
  rw [sectors_freeMap] at hsector
  apply Bool.eq_false_of_not_eq_true
  intro hused
  have hold := h.clean sector (by rwa [sectors_freeMap])
  rw [hmap sector hused] at hold
  contradiction

/-- An image stays sound where places are given up and the map goes on to mark what is left. -/
theorem restrict (h : image.Sound sectors)
    (htarget : ∀ place target, changed.targetAt place = some target →
      image.targetAt place = some target)
    (hspine : ∀ owner head, changed.headOf owner = some head →
      ∀ member ∈ image.spine head, changed member = image member)
    (hmarked : ∀ owner sector, changed.Owns owner sector →
      (changed.freeMap sectors).isUsed sector = true)
    (hmap : ∀ sector, (changed.freeMap sectors).isUsed sector = true →
      (image.freeMap sectors).isUsed sector = true) : changed.Sound sectors := by
  have hhead (owner : Owner) (head : Nat) (howner : changed.headOf owner = some head) :
      image.headOf owner = some head := by
    cases owner with
    | map => exact howner
    | item place =>
      obtain ⟨target, hplace, hsector⟩ := Option.map_eq_some_iff.mp howner
      exact (headOf_item (htarget place target hplace)).trans (congrArg some hsector)
  have howns (owner : Owner) (sector : Nat) (h : changed.Owns owner sector) :
      image.Owns owner sector := by
    obtain ⟨head, howner, hmem⟩ := h
    exact ⟨head, hhead owner head howner, extent_congr (hspine owner head howner) ▸ hmem⟩
  constructor
  case intact =>
    intro owner head howner
    obtain ⟨node, hintact⟩ := h.intact owner head (hhead owner head howner)
    exact ⟨node, hintact.congr (hspine owner head howner)⟩
  case size_map => rw [size_congr (hspine .map freeMapSector rfl), h.size_map]
  case size_directory =>
    intro place sector hplace
    rw [size_congr (hspine _ _ (headOf_item hplace)),
      h.size_directory place sector (htarget place _ hplace)]
  case owner_eq =>
    intro owner other sector howner hother
    exact h.owner_eq owner other sector (howns owner sector howner) (howns other sector hother)
  case marked => exact hmarked
  case clean => exact h.clean_of_le hmap

section Growth

variable {place : Place} {target : Target} {node : Node} (hfree : image.targetAt place = none)
  (htarget : ∀ other, changed.targetAt other =
    if other = place then some target else image.targetAt other)

include hfree htarget

theorem headOf_of_grown (owner : Owner) (head : Nat) :
    changed.headOf owner = some head ↔
      image.headOf owner = some head ∨ owner = .item place ∧ target.sector = head := by
  cases owner with
  | map => simp [headOf]
  | item other =>
    rw [headOf, headOf, htarget, Owner.item.injEq]
    split
    · rename_i hother
      rw [hother, hfree]
      simp
    · rename_i hother
      simp [hother]

/-- What is owned after a file was added. -/
theorem owns_of_grown (hspine : ∀ owner head, image.headOf owner = some head →
    ∀ member ∈ image.spine head, changed member = image member) (owner : Owner) (sector : Nat) :
    changed.Owns owner sector ↔ image.Owns owner sector ∨
      owner = .item place ∧ sector ∈ changed.extent target.sector := by
  constructor
  · rintro ⟨head, howner, hmem⟩
    cases (headOf_of_grown hfree htarget owner head).mp howner with
    | inl hold => exact .inl ⟨head, hold, extent_congr (hspine owner head hold) ▸ hmem⟩
    | inr hnew => exact .inr ⟨hnew.1, hnew.2 ▸ hmem⟩
  · rintro (⟨head, howner, hmem⟩ | ⟨howner, hmem⟩)
    · exact ⟨head, (headOf_of_grown hfree htarget owner head).mpr (.inl howner),
        (extent_congr (hspine owner head howner)).symm ▸ hmem⟩
    · exact ⟨_, (headOf_of_grown hfree htarget owner _).mpr (.inr ⟨howner, rfl⟩), hmem⟩

/-- An image stays sound where an intact file is added on sectors nobody owned and the map
follows. -/
theorem grow (h : image.Sound sectors)
    (hspine : ∀ owner head, image.headOf owner = some head →
      ∀ member ∈ image.spine head, changed member = image member)
    (hintact : changed.Intact sectors target.sector node)
    (hsize : target.isDirectory = true → changed.size target.sector = directorySize)
    (hfresh : ∀ sector ∈ changed.extent target.sector, ∀ owner, ¬ image.Owns owner sector)
    (hmap : ∀ sector, (changed.freeMap sectors).isUsed sector = true ↔
      (image.freeMap sectors).isUsed sector = true ∨ sector ∈ changed.extent target.sector) :
    changed.Sound sectors := by
  have howns := owns_of_grown hfree htarget hspine
  constructor
  case intact =>
    intro owner head howner
    cases (headOf_of_grown hfree htarget owner head).mp howner with
    | inl hold =>
      obtain ⟨node, hkept⟩ := h.intact owner head hold
      exact ⟨node, hkept.congr (hspine owner head hold)⟩
    | inr hnew => exact ⟨node, hnew.2 ▸ hintact⟩
  case size_map => rw [size_congr (hspine .map freeMapSector rfl), h.size_map]
  case size_directory =>
    intro other sector hother
    rw [htarget] at hother
    split at hother
    · obtain rfl := Option.some.inj hother
      exact hsize rfl
    · rw [size_congr (hspine _ _ (headOf_item hother)), h.size_directory other sector hother]
  case owner_eq =>
    intro owner other sector howner hother
    rw [howns] at howner hother
    rcases howner with howner | ⟨howner, hmem⟩ <;> rcases hother with hother | ⟨hother, hmem'⟩
    · exact h.owner_eq owner other sector howner hother
    · exact absurd howner (hfresh sector hmem' owner)
    · exact absurd hother (hfresh sector hmem other)
    · rw [howner, hother]
  case marked =>
    intro owner sector howner
    rw [hmap]
    rcases (howns owner sector).mp howner with hold | ⟨-, hmem⟩
    · exact .inl (h.marked owner sector hold)
    · exact .inr hmem
  case clean =>
    intro sector hsector
    rw [sectors_freeMap] at hsector
    apply Bool.eq_false_of_not_eq_true
    intro hused
    rcases (hmap sector).mp hused with hold | hmem
    · rw [h.clean sector (by rwa [sectors_freeMap])] at hold
      contradiction
    · exact absurd (hintact.lt sector hmem) (Nat.not_lt_of_le hsector)

end Growth

end Sound

end Image

end SectorFS
