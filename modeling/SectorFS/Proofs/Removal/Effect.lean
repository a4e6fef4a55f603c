import SectorFS.Proofs.Removal

/-!
# The image after a removal

A removal takes its place and the places below it away, moves no file, and changes no
content but those of the parent directory and the map. This holds from the write on that
frees the entry, whatever part of the map has been written by then: the image is sound as long
as the map goes on to mark what is left. In the end the map marks nothing else of what it
marked, so a removal leaves an exact image if it started from one.
-/

namespace SectorFS.Image

/-! ## Once the entry is free -/

namespace Linking

variable {image changed : Image} {sectors directory : Nat} {index : Fin entryCount}
  {target : Target} {path : Path} {parent : Place} {name : String}
  (hlink : image.Linking changed directory index) (h : image.Sound sectors)
  (hnames : image.Names path parent directory name index target)
  (hentry : changed.child? directory index = none)

include hlink h hnames hentry

/-- The place of the entry and everything below it are gone. -/
theorem targetAt_freed (place : Place) :
    changed.targetAt place =
      if index :: parent <:+ place then none else image.targetAt place :=
  (hlink.onlyEntry h hnames.place_eq).targetAt_of_freed h hnames.place_eq hentry place

/-- The owners that are left are the map and what is not at or below the place. -/
theorem owns_freed (owner : Owner) (sector : Nat) :
    changed.Owns owner sector ↔
      image.Owns owner sector ∧ ∀ place, owner = .item place → ¬ index :: parent <:+ place := by
  have hspine := hlink.unmoved h hnames.place_eq
  cases owner with
  | map =>
    have hsame : changed.headOf .map = image.headOf .map := rfl
    rw [Sound.owns_congr hsame (hspine .map)]
    simp
  | item place =>
    have htarget := hlink.targetAt_freed h hnames hentry place
    by_cases hbelow : index :: parent <:+ place
    · rw [if_pos hbelow] at htarget
      constructor
      · rintro ⟨head, howner, -⟩
        rw [headOf, htarget] at howner
        contradiction
      · rintro ⟨-, hkept⟩
        exact absurd hbelow (hkept place rfl)
    · rw [if_neg hbelow] at htarget
      rw [Sound.owns_congr (by rw [headOf, headOf, htarget]) (hspine _)]
      simp [hbelow]

/-- The image is sound if the map marks what it marked outside the tree, and nothing new. -/
theorem sound_freed
    (hmarked : ∀ sector, (image.freeMap sectors).isUsed sector = true →
      sector ∉ image.treeSectors (sectors + 3) target →
      (changed.freeMap sectors).isUsed sector = true)
    (hmap : ∀ sector, (changed.freeMap sectors).isUsed sector = true →
      (image.freeMap sectors).isUsed sector = true) : changed.Sound sectors := by
  have htarget := hlink.targetAt_freed h hnames hentry
  have hold (place : Place) (other : Target) (hplace : changed.targetAt place = some other) :
      image.targetAt place = some other := by
    rw [htarget] at hplace
    split at hplace
    · contradiction
    · exact hplace
  refine h.restrict hold (fun owner head howner ↦ ?_) (fun owner sector howns ↦ ?_) hmap
  · refine hlink.unmoved h hnames.place_eq owner head ?_
    cases owner with
    | map => exact howner
    | item place =>
      obtain ⟨other, hplace, rfl⟩ := Option.map_eq_some_iff.mp howner
      exact headOf_item (hold place other hplace)
  · have hlength : sectors < (index :: parent).length + (sectors + 3) := by omega
    obtain ⟨hbefore, hkept⟩ := (hlink.owns_freed h hnames hentry owner sector).mp howns
    refine hmarked sector (h.marked owner sector hbefore) fun htree ↦ ?_
    obtain ⟨other, hbelow, hother⟩ := (mem_treeSectors h hnames.target_eq hlength).mp htree
    exact hkept other (h.owner_eq _ _ _ hbefore hother) hbelow

end Linking

/-! ## The end of a removal -/

namespace Removed

variable {image : Image} {sectors directory : Nat} {index : Fin entryCount} {target : Target}
  {table map : List Write} {path : Path} {parent : Place} {name : String}

/-- The entry is no longer in use. -/
theorem child?_of_freed {changed : Image} {entry : Entry} (h : (changed.table directory).table[index] = entry.freed) :
    changed.child? directory index = none := by
  rw [child?, h]
  exact if_neg Bool.false_ne_true

section Effect

variable (hremoved : image.Removed sectors directory index target table map)
  (h : image.Sound sectors) (hnames : image.Names path parent directory name index target)

include hremoved h hnames

theorem linking_final : image.Linking (image.putAll (table ++ map)) directory index := by
  have hlink := Relinks.linking_map hremoved h hnames.place_eq map.length
  rwa [List.take_length, ← putAll_append] at hlink

theorem table_final :
    (image.putAll (table ++ map)).table directory = (image.table directory).free index := by
  have htable := Relinks.table_kept hremoved h hnames.place_eq map.length
  rwa [List.take_length, ← putAll_append] at htable

theorem freeMap_final : (image.putAll (table ++ map)).freeMap sectors =
    (image.freeMap sectors).clearAll (image.treeSectors (sectors + 3) target) := by
  rw [putAll_append]
  exact Relinks.freeMap_done hremoved h hnames.place_eq

theorem isUsed_final (sector : Nat) :
    ((image.putAll (table ++ map)).freeMap sectors).isUsed sector =
      ((image.freeMap sectors).isUsed sector &&
        !decide (sector ∈ image.treeSectors (sectors + 3) target)) := by
  have hlength : sectors < (index :: parent).length + (sectors + 3) := by omega
  rw [freeMap_final hremoved h hnames, FreeMap.isUsed_clearAll]
  rw [Sound.sectors_freeMap]
  exact treeSectors_lt h hnames.target_eq hlength

/-- The entry is no longer in use at the end. -/
theorem child?_final : (image.putAll (table ++ map)).child? directory index = none := by
  have hentry : ((image.putAll (table ++ map)).table directory).table[index] =
      (image.table directory).table[index].freed := by
    rw [table_final hremoved h hnames, Directory.free, Directory.table_update, if_pos rfl]
  exact child?_of_freed hentry

/-- A removal takes away its place and everything below it. -/
theorem targetAt_final (place : Place) :
    (image.putAll (table ++ map)).targetAt place =
      if index :: parent <:+ place then none else image.targetAt place :=
  (linking_final hremoved h hnames).targetAt_freed h hnames (child?_final hremoved h hnames) place

theorem parent_final : (image.putAll (table ++ map)).targetAt parent = some ⟨directory, true⟩ :=
  ((linking_final hremoved h hnames).onlyEntry h hnames.place_eq).targetAt_parent h hnames.place_eq

theorem unmoved_final : Sound.Unmoved image (image.putAll (table ++ map)) :=
  (linking_final hremoved h hnames).unmoved h hnames.place_eq

/-- A removal changes the content of the parent directory only. -/
theorem content_final {place : Place} {other : Target} (hplace : image.targetAt place = some other)
    (hne : place ≠ parent) :
    (image.putAll (table ++ map)).content other.sector = image.content other.sector :=
  (linking_final hremoved h hnames).content h hnames.place_eq hplace hne

/-- After a removal the parent directory's table has one entry less, and the others are the old
ones. -/
theorem table_cases {place : Place} {found : Nat}
    (hplace : (image.putAll (table ++ map)).targetAt place = some ⟨found, true⟩) :
    image.targetAt place = some ⟨found, true⟩ ∧
      ((image.putAll (table ++ map)).table found = image.table found ∨
        (image.putAll (table ++ map)).table found = (image.table found).free index) := by
  rw [targetAt_final hremoved h hnames] at hplace
  split at hplace
  · contradiction
  · refine ⟨hplace, ?_⟩
    by_cases hparent : place = parent
    · rw [hparent, hnames.place_eq] at hplace
      obtain ⟨rfl, -⟩ := Target.mk.inj (Option.some.inj hplace)
      exact .inr (table_final hremoved h hnames)
    · exact .inl (table_congr (content_final hremoved h hnames hplace hparent))

/-- The owners that are left are the map and what is not at or below the place. -/
theorem owns_final (owner : Owner) (sector : Nat) :
    (image.putAll (table ++ map)).Owns owner sector ↔
      image.Owns owner sector ∧ ∀ place, owner = .item place → ¬ index :: parent <:+ place :=
  (linking_final hremoved h hnames).owns_freed h hnames (child?_final hremoved h hnames) owner sector

theorem sound_final : (image.putAll (table ++ map)).Sound sectors := by
  have hused := isUsed_final hremoved h hnames
  refine (linking_final hremoved h hnames).sound_freed h hnames (child?_final hremoved h hnames)
    (fun sector hmarked htree ↦ ?_) fun sector hmarked ↦ ?_
  · rw [hused, hmarked, decide_eq_false htree]
    rfl
  · rw [hused, Bool.and_eq_true] at hmarked
    exact hmarked.1

omit h in
/-- Everything that a removal leaves marked belongs to somebody, if it did before. -/
theorem exact_final (h : image.Exact sectors) : (image.putAll (table ++ map)).Exact sectors := by
  refine ⟨sound_final hremoved h hnames, fun sector hused ↦ ?_⟩
  have hlength : sectors < (index :: parent).length + (sectors + 3) := by omega
  rw [isUsed_final hremoved h hnames, Bool.and_eq_true, Bool.not_eq_true',
    decide_eq_false_iff_not, mem_treeSectors h.toSound hnames.target_eq hlength] at hused
  obtain ⟨owner, howns⟩ := h.owned sector hused.1
  refine ⟨owner, (owns_final hremoved h hnames owner sector).mpr ⟨howns, ?_⟩⟩
  rintro place rfl hbelow
  exact hused.2 ⟨place, hbelow, howns⟩

end Effect

end Removed

end SectorFS.Image
