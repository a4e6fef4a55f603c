import SectorFS.Proofs.Naming.Legible
import SectorFS.Proofs.Removal.Effect

/-!
# What a removal does to paths

After a removal the path and every path below it lead nowhere, and every other path is
followed as before, to the same target or to the same failure. The names of a path are
compared with those of the removed one from the root directory on: where the first difference
lies above the parent directory nothing has changed, and in the parent directory one name is
missing.
-/

namespace SectorFS.Image

variable {image changed : Image} {sectors : Nat} {path : Path} {parent : Place} {directory : Nat}
  {name : String} {index : Fin entryCount} {target : Target}

section Freed

variable (hparent : image.targetAt parent = some ⟨directory, true⟩)
  (htable : changed.table directory = (image.table directory).free index)
  (hkept : ∀ place found, image.targetAt place = some ⟨found, true⟩ → place ≠ parent →
    changed.table found = image.table found)
  (hname : name.utf8ByteSize ≤ nameLimit) (hindex : (image.table directory).index? name = some index)

include hparent htable hkept hname hindex

/-- In the parent directory one name is missing. -/
theorem follow_parent_of_freed (hlegible : (image.table directory).Legible) {names : List String}
    (hnames : ∀ other ∈ names, other.utf8ByteSize ≤ nameLimit) :
    changed.follow ⟨directory, true⟩ names =
      if [name] <+: names then .error .notFound else image.follow ⟨directory, true⟩ names := by
  cases names with
  | nil =>
    rw [if_neg fun hnil ↦ List.cons_ne_nil name [] (List.prefix_nil.mp hnil)]
    rfl
  | cons first rest =>
    rw [follow_cons, follow_cons, htable]
    by_cases hfirst : name = first
    · subst hfirst
      rw [if_pos (List.cons_prefix_cons.mpr ⟨rfl, List.nil_prefix⟩),
        hlegible.index?_free_self hname hindex]
    · rw [if_neg fun hprefix ↦ hfirst (List.cons_prefix_cons.mp hprefix).1]
      have hfits := hnames first List.mem_cons_self
      rw [Directory.index?_free_of_ne hname hfits hindex hfirst]
      cases hfound : (image.table directory).index? first with
      | none => rfl
      | some place =>
        have hne : ¬ place = index :=
          (Directory.index_ne_of_ne hname hfits hindex hfound hfirst).symm
        dsimp only
        rw [Directory.free, Directory.table_update, if_neg hne]
        refine follow_congr ((targetAt_cons_of_directory hparent).trans (child?_of_index? hfound))
          (fun below found hbelow ↦ hkept _ found hbelow fun heq ↦
            parent.not_below_self place ⟨below, heq⟩) rest

omit hparent htable hname hindex in
/-- Names that leave the way to the parent directory are followed as before. -/
theorem follow_aside_of_freed {place lower : Place} {sector : Nat} {next : Fin entryCount}
    {first other : String} (hplace : image.targetAt place = some ⟨sector, true⟩)
    (hthrough : parent = lower ++ next :: place)
    (hfirst : first.utf8ByteSize ≤ nameLimit) (hother : other.utf8ByteSize ≤ nameLimit)
    (hnext : (image.table sector).index? first = some next) (hne : first ≠ other)
    (rest : List String) :
    changed.follow ⟨sector, true⟩ (other :: rest) = image.follow ⟨sector, true⟩ (other :: rest) := by
  have habove : place ≠ parent := fun heq ↦
    place.not_below_self next ⟨lower, (heq.trans hthrough).symm⟩
  rw [follow_cons, follow_cons, hkept place sector hplace habove]
  cases hfound : (image.table sector).index? other with
  | none => rfl
  | some found =>
    refine follow_congr ((targetAt_cons_of_directory hplace).trans (child?_of_index? hfound))
      (fun below met hbelow ↦ hkept _ met hbelow fun heq ↦
        Directory.index_ne_of_ne hfirst hother hnext hfound hne ?_) rest
    -- Both places end where the names part.
    have hsame := heq.trans hthrough
    have hlengths := congrArg List.length hsame
    simp only [List.length_append, List.length_cons] at hlengths
    exact (List.cons.inj (List.append_inj' hsame.symm (by simp)).2).1

/-- From a directory above, exactly the names that come through the freed entry lead nowhere. -/
theorem follow_of_freed (h : image.Sound sectors) (hlegible : (image.table directory).Legible)
    {place : Place} {sector : Nat} (hplace : image.targetAt place = some ⟨sector, true⟩)
    {front : List String} (hfits : ∀ other ∈ front, other.utf8ByteSize ≤ nameLimit)
    (hfront : image.follow ⟨sector, true⟩ front = .ok ⟨directory, true⟩) {names : List String}
    (hnames : ∀ other ∈ names, other.utf8ByteSize ≤ nameLimit) :
    changed.follow ⟨sector, true⟩ names =
      if front ++ [name] <+: names then .error .notFound
      else image.follow ⟨sector, true⟩ names := by
  induction front generalizing place sector names with
  | nil =>
    obtain rfl := (Target.mk.inj (Except.ok.inj hfront)).1
    exact follow_parent_of_freed hparent htable hkept hname hindex hlegible hnames
  | cons first front ih =>
    rw [follow_cons] at hfront
    rw [List.cons_append]
    split at hfront
    · contradiction
    · rename_i next hnext
      have hchild := (targetAt_cons_of_directory hplace).trans (child?_of_index? hnext)
      obtain ⟨lower, -, hlower⟩ := exists_place_of_follow hchild hfront
      have hthrough : parent = lower ++ next :: place := h.place_eq hparent hlower rfl
      cases names with
      | nil =>
        rw [if_neg fun hnil ↦ List.cons_ne_nil _ _ (List.prefix_nil.mp hnil)]
        rfl
      | cons other rest =>
        by_cases hother : first = other
        · subst hother
          have habove : place ≠ parent := fun heq ↦
            place.not_below_self next ⟨lower, (heq.trans hthrough).symm⟩
          rw [follow_cons, follow_cons, hkept place sector hplace habove, hnext]
          dsimp only
          cases hkind : (image.table sector).table[next].isDirectory with
          | false =>
            rw [hkind, follow_file] at hfront
            exact absurd (Target.mk.inj hfront.2).2 Bool.false_ne_true.symm
          | true =>
            rw [hkind] at hfront hchild
            rw [ih hchild (fun name hname ↦ hfits name (List.mem_cons_of_mem _ hname)) hfront
              fun name hname ↦ hnames name (List.mem_cons_of_mem _ hname)]
            simp only [List.cons_prefix_cons, true_and]
        · rw [if_neg fun hprefix ↦ hother (List.cons_prefix_cons.mp hprefix).1]
          exact follow_aside_of_freed hkept hplace hthrough (hfits first List.mem_cons_self)
            (hnames other List.mem_cons_self) hnext hother rest

end Freed

namespace Removed

variable {table map : List Write}
  (hremoved : image.Removed sectors directory index target table map) (h : image.Sound sectors)
  (hnames : image.Names path parent directory name index target)

include hremoved h hnames

/-- The removed path and those below it lead nowhere, and the others are followed as before. -/
theorem locate_final {text other : String} {whole : Path} (hlegible : image.Legible)
    (hparse : Path.parse text = .ok path) (hwhole : Path.parse other = .ok whole) :
    (image.putAll (table ++ map)).locate other =
      if path.components <+: whole.components then .error .notFound else image.locate other := by
  have hsplit := Path.eq_concat_of_lastName? hnames.name_eq
  have hfits {name : String} (hname : name ∈ path.components) := Path.fits_of_parse hparse hname
  have hfollow := follow_of_freed hnames.place_eq
    (table_final hremoved h hnames)
    (fun place found hplace hne ↦ table_congr (content_final hremoved h hnames hplace hne))
    (hfits (hsplit ▸ List.mem_append_right _ List.mem_cons_self)) hnames.index_eq h
    (hlegible parent directory hnames.place_eq) image.targetAt_nil
    (fun name hname ↦ hfits (List.mem_of_mem_dropLast hname))
    (resolveParent_eq_ok.mp hnames.parent_eq)
    fun name hname ↦ Path.fits_of_parse hwhole hname
  rw [← hsplit] at hfollow
  rw [locate, locate, hwhole]
  exact hfollow

end Removed

/-! ## The sectors of a path -/

/-- The sector belongs to what a path leads to, or to something below it. -/
def Under (image : Image) (path : Path) (sector : Nat) : Prop :=
  ∃ text whole found, Path.parse text = .ok whole ∧ path.components <+: whole.components ∧
    image.locate text = .ok found ∧ sector ∈ image.extent found.sector

/-- Nothing is below a file. -/
theorem under_iff_of_file {text : String} {sector member : Nat}
    (hparse : Path.parse text = .ok path) (hfile : image.locate text = .ok ⟨sector, false⟩) :
    image.Under path member ↔ member ∈ image.extent sector := by
  constructor
  · rintro ⟨other, whole, found, hwhole, ⟨rest, hrest⟩, hfound, hmember⟩
    rw [locate_of_parse hparse, resolve] at hfile
    rw [locate_of_parse hwhole, resolve, ← hrest, follow_append, hfile] at hfound
    obtain ⟨-, rfl⟩ := follow_file.mp hfound
    exact hmember
  · exact fun hmember ↦ ⟨text, path, _, hparse, List.prefix_refl _, hfile, hmember⟩

theorem Names.placeOf_self (h : image.Sound sectors)
    (hnames : image.Names path parent directory name index target) :
    image.placeOf path.components = some (index :: parent) :=
  placeOf_eq_some_cons.mpr ⟨path.components.dropLast, name, directory,
    Path.eq_concat_of_lastName? hnames.name_eq,
    placeOf_of_resolveParent h hnames.parent_eq hnames.place_eq, hnames.place_eq, hnames.index_eq⟩

/-- The sectors of the tree are marked. -/
theorem Names.isUsed_of_mem (h : image.Sound sectors)
    (hnames : image.Names path parent directory name index target) {sector : Nat}
    (hsector : sector ∈ image.treeSectors (sectors + 3) target) :
    (image.freeMap sectors).isUsed sector = true := by
  have hlength : sectors < (index :: parent).length + (sectors + 3) := by omega
  obtain ⟨place, -, howns⟩ := (mem_treeSectors h hnames.target_eq hlength).mp hsector
  exact h.marked _ sector howns

/-- The map that a removal writes holds what a path leads to unless the path is the removed one or
below it. -/
theorem Names.isUsed_clearAll_iff (h : image.Sound sectors)
    (hnames : image.Names path parent directory name index target) {text other : String}
    {whole : Path} {found : Target} (hparse : Path.parse text = .ok path)
    (hwhole : Path.parse other = .ok whole) (hfound : image.locate other = .ok found) :
    ((image.freeMap sectors).clearAll
      (image.treeSectors (sectors + 3) target)).isUsed found.sector = true ↔
        ¬ path.components <+: whole.components := by
  have hlength : sectors < (index :: parent).length + (sectors + 3) := by omega
  obtain ⟨again, place, hagain, hplace, htarget⟩ := locate_eq_ok.mp hfound
  obtain rfl := Except.ok.inj (hwhole.symm.trans hagain)
  have howns := Sound.owns_self (headOf_item htarget)
  have hbelow : path.components <+: whole.components ↔ index :: parent <:+ place :=
    prefix_iff_suffix (fun _ hname ↦ Path.fits_of_parse hparse hname)
      (fun _ hname ↦ Path.fits_of_parse hwhole hname) (hnames.placeOf_self h) hplace
  have htree : found.sector ∈ image.treeSectors (sectors + 3) target ↔ index :: parent <:+ place := by
    rw [mem_treeSectors h hnames.target_eq hlength]
    constructor
    · rintro ⟨above, hsuffix, hother⟩
      exact Owner.item.inj (h.owner_eq _ _ _ hother howns) ▸ hsuffix
    · exact fun hsuffix ↦ ⟨place, hsuffix, howns⟩
  have hlt : ∀ member ∈ image.treeSectors (sectors + 3) target,
      member < (image.freeMap sectors).sectors := by
    rw [Sound.sectors_freeMap]
    exact treeSectors_lt h hnames.target_eq hlength
  rw [FreeMap.isUsed_clearAll _ _ hlt, h.marked _ _ howns, Bool.true_and, Bool.not_eq_true',
    decide_eq_false_iff_not, htree, hbelow]

/-- On a legible image the sectors under a path are those of its tree. -/
theorem Names.under_iff (h : image.Sound sectors) (hlegible : image.Legible)
    (hnames : image.Names path parent directory name index target) {text : String}
    (hparse : Path.parse text = .ok path) {sector : Nat} :
    image.Under path sector ↔ sector ∈ image.treeSectors (sectors + 3) target := by
  have hself := hnames.placeOf_self h
  have hfits : ∀ name ∈ path.components, name.utf8ByteSize ≤ nameLimit :=
    fun _ hname ↦ Path.fits_of_parse hparse hname
  rw [mem_treeSectors h hnames.target_eq (by omega)]
  constructor
  · rintro ⟨other, whole, found, hwhole, hprefix, hlocate, hsector⟩
    obtain ⟨again, place, hagain, hplace, hfound⟩ := locate_eq_ok.mp hlocate
    obtain rfl := Except.ok.inj (hwhole.symm.trans hagain)
    exact ⟨place, (prefix_iff_suffix hfits (fun _ hname ↦ Path.fits_of_parse hwhole hname) hself
      hplace).mp hprefix, found.sector, headOf_item hfound, hsector⟩
  · rintro ⟨place, hsuffix, head, hhead, hsector⟩
    obtain ⟨found, hfound, rfl⟩ := Option.map_eq_some_iff.mp hhead
    obtain ⟨whole, hplain, hplace⟩ := hlegible.exists_path hfound
    have hwhole := Path.parse_toText fun name hname ↦ (hplain name hname).toIsComponent
    exact ⟨whole.toText, whole, found, hwhole, (prefix_iff_suffix hfits
      (fun name hname ↦ (hplain name hname).fits) hself hplace).mpr hsuffix,
      locate_eq_ok.mpr ⟨whole, place, hwhole, hplace, hfound⟩, hsector⟩

end SectorFS.Image
