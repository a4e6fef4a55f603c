import SectorFS.Proofs.Creation.Stages
import SectorFS.Proofs.Naming

/-!
# What a creation does to paths

After a creation the new path leads to the new file and every other path to what it led to
before, if it led anywhere. So no path comes to lead somewhere but the new one, and apart
from the parent directory, whose table has one entry more, every file has the node and the
bytes that it had.
-/

namespace SectorFS

namespace Image

variable {image : Image} {sectors directory : Nat} {index : Fin entryCount} {path : Path}
  {name : String} {size sector : Nat} {isDirectory : Bool} {height : Fin maxLevel} {node : Node}
  {fresh table map : List Write} {parent : Place}

namespace Admits

theorem placeOf_parent (h : image.Sound sectors)
    (hadmits : image.Admits sectors path size parent directory name index height) :
    image.placeOf path.components.dropLast = some parent :=
  placeOf_of_resolveParent h hadmits.parent_eq hadmits.place_eq

/-- A path that is admitted leads nowhere yet. -/
theorem placeOf_self (h : image.Sound sectors)
    (hadmits : image.Admits sectors path size parent directory name index height) :
    image.placeOf path.components = none := by
  rw [Path.eq_concat_of_lastName? hadmits.name_eq, placeOf_concat, hadmits.placeOf_parent h,
    Option.bind_some, enter?_of_directory hadmits.place_eq, hadmits.absent]
  rfl

/-- The name is that of the new entry of the parent directory if and only if the path is the new
one. -/
theorem concat_eq_iff (h : image.Sound sectors)
    (hadmits : image.Admits sectors path size parent directory name index height)
    (hpath : ∀ name ∈ path.components, name.utf8ByteSize ≤ nameLimit) {names : List String}
    (hnames : ∀ name ∈ names, name.utf8ByteSize ≤ nameLimit) {other : String}
    (hother : other.utf8ByteSize ≤ nameLimit) {place : Place}
    (hplace : image.placeOf names = some place) :
    (place = parent ∧ Name.key name = Name.key other) ↔ names ++ [other] = path.components := by
  have hsplit := Path.eq_concat_of_lastName? hadmits.name_eq
  have hlast : name.utf8ByteSize ≤ nameLimit :=
    hpath name (hsplit ▸ List.mem_append_right _ List.mem_cons_self)
  rw [hsplit, Name.key_inj hlast hother]
  constructor
  · rintro ⟨rfl, rfl⟩
    rw [placeOf_inj hnames (fun name hname ↦ hpath name (List.mem_of_mem_dropLast hname))
      hplace (hadmits.placeOf_parent h)]
  · intro heq
    obtain ⟨hupper, hname⟩ := List.append_inj' heq rfl
    rw [hupper, hadmits.placeOf_parent h] at hplace
    exact ⟨(Option.some.inj hplace).symm, (List.cons.inj hname).1.symm⟩

end Admits

namespace Created

variable (hcreated : image.Created sectors directory index name size isDirectory height sector node
    fresh table map) (h : image.Sound sectors)
  (hadmits : image.Admits sectors path size parent directory name index height)

include hcreated h hadmits

/-- Nothing has a name in the new file. -/
theorem enter?_new (other : String) :
    (image.putAll (fresh ++ (table ++ map))).enter? (index :: parent) other = none := by
  have htarget := targetAt_final hcreated h hadmits (index :: parent)
  rw [if_pos rfl] at htarget
  cases isDirectory with
  | false =>
    refine enter?_of_not_directory fun found hfound ↦ ?_
    rw [htarget] at hfound
    exact Bool.false_ne_true (Target.mk.inj (Option.some.inj hfound)).2
  | true =>
    rw [enter?_of_directory htarget, table_new hcreated h hadmits rfl, Directory.index?_empty]
    rfl

/-- A directory gets one name more if it is the parent, and none if it is not. -/
theorem enter?_final (hzero : '\x00' ∉ name.toList) {place : Place} (hplace : place ≠ index :: parent)
    (other : String) :
    (image.putAll (fresh ++ (table ++ map))).enter? place other =
      if place = parent ∧ Name.key name = Name.key other then some (index :: parent)
      else image.enter? place other := by
  have htarget := targetAt_final hcreated h hadmits place
  rw [if_neg hplace] at htarget
  by_cases hparent : place = parent
  · subst hparent
    have hnamed : (Entry.ofName name sector isDirectory).isNamed name = true := by
      rw [Directory.isNamed_ofName hzero, beq_self_eq_true]
    rw [enter?_of_directory (htarget.trans hadmits.place_eq), enter?_of_directory hadmits.place_eq,
      table_final hcreated h hadmits]
    split
    · rename_i hkey
      rw [← Directory.index?_congr hkey.2, Directory.index?_update_self hadmits.absent hnamed]
      rfl
    · rename_i hkey
      rw [Directory.index?_update_of_not_named (Directory.not_inUse_of_freeIndex? hadmits.vacant)]
      rw [Directory.isNamed_ofName hzero, beq_eq_false_iff_ne]
      exact fun heq ↦ hkey ⟨rfl, heq⟩
  · rw [if_neg fun hboth ↦ hparent hboth.1]
    by_cases hdirectory : ∃ found, image.targetAt place = some ⟨found, true⟩
    · obtain ⟨found, hfound⟩ := hdirectory
      have hcontent := content_final hcreated h hadmits hfound hparent
      rw [enter?_of_directory (htarget.trans hfound), enter?_of_directory hfound, Image.table,
        Image.table, hcontent]
    · rw [enter?_of_not_directory fun found hfound ↦ hdirectory ⟨found, htarget.symm.trans hfound⟩,
        enter?_of_not_directory fun found hfound ↦ hdirectory ⟨found, hfound⟩]

/-- The new path gets a place, and every other path keeps what it has. -/
theorem placeOf_final (hzero : '\x00' ∉ name.toList)
    (hpath : ∀ name ∈ path.components, name.utf8ByteSize ≤ nameLimit) {names : List String}
    (hnames : ∀ name ∈ names, name.utf8ByteSize ≤ nameLimit) :
    (image.putAll (fresh ++ (table ++ map))).placeOf names =
      if names = path.components then some (index :: parent) else image.placeOf names := by
  have hsplit := Path.eq_concat_of_lastName? hadmits.name_eq
  induction names using List.reverseRecOn with
  | nil =>
    rw [placeOf_nil, placeOf_nil, if_neg]
    intro hnil
    rw [← hnil] at hsplit
    exact nomatch hsplit
  | append_singleton names other ih =>
    have hother := hnames other (List.mem_append_right _ List.mem_cons_self)
    have habove : ∀ name ∈ names, name.utf8ByteSize ≤ nameLimit :=
      fun name hname ↦ hnames name (List.mem_append_left _ hname)
    rw [placeOf_concat, placeOf_concat, ih habove]
    by_cases hself : names = path.components
    · -- Below the new file there was nothing before and is nothing now.
      rw [if_pos hself, Option.bind_some, enter?_new hcreated h hadmits, hself,
        hadmits.placeOf_self h, if_neg fun heq ↦ ?_]
      · rfl
      · exact nomatch List.append_right_eq_self.mp heq
    · rw [if_neg hself]
      cases hplace : image.placeOf names with
      | none =>
        rw [if_neg fun heq ↦ ?_, Option.bind_none, Option.bind_none]
        · rw [hsplit] at heq
          rw [(List.append_inj' heq rfl).1, hadmits.placeOf_parent h] at hplace
          contradiction
      | some place =>
        have hne : place ≠ index :: parent := by
          rintro rfl
          obtain ⟨target, htarget⟩ := exists_target_of_placeOf hplace
          rw [hadmits.targetAt_self] at htarget
          contradiction
        rw [Option.bind_some, Option.bind_some, enter?_final hcreated h hadmits hzero hne]
        exact if_congr (hadmits.concat_eq_iff h hpath habove hother hplace) rfl rfl

/-- The new text leads to the new file, and every other text to what it led to. -/
theorem locate_final {text other : String} (hparse : Path.parse text = .ok path)
    (hzero : '\x00' ∉ text.toList) {target : Target} :
    (image.putAll (fresh ++ (table ++ map))).locate other = .ok target ↔
      if other = text then target = ⟨sector, isDirectory⟩ else image.locate other = .ok target := by
  have hname : '\x00' ∉ name.toList := fun hmem ↦ hzero (Path.mem_text_of_parse hparse
    (Path.eq_concat_of_lastName? hadmits.name_eq ▸ List.mem_append_right _ List.mem_cons_self) hmem)
  rw [locate_eq_ok, locate_eq_ok]
  by_cases hother : other = text
  · rw [if_pos hother, hother]
    constructor
    · rintro ⟨found, place, hfound, hplace, htarget⟩
      obtain rfl := Except.ok.inj (hparse.symm.trans hfound)
      rw [placeOf_final hcreated h hadmits hname (fun _ ↦ Path.fits_of_parse hparse)
        (fun _ ↦ Path.fits_of_parse hparse), if_pos rfl] at hplace
      obtain rfl := Option.some.inj hplace
      rw [targetAt_final hcreated h hadmits, if_pos rfl] at htarget
      exact (Option.some.inj htarget).symm
    · rintro rfl
      refine ⟨path, index :: parent, hparse, ?_, ?_⟩
      · rw [placeOf_final hcreated h hadmits hname (fun _ ↦ Path.fits_of_parse hparse)
          (fun _ ↦ Path.fits_of_parse hparse), if_pos rfl]
      · rw [targetAt_final hcreated h hadmits, if_pos rfl]
  · rw [if_neg hother]
    refine exists_congr fun found ↦ exists_congr fun place ↦ and_congr_right fun hfound ↦ ?_
    have hne : found.components ≠ path.components := by
      intro heq
      have hsame : found = path := by
        cases found
        cases path
        exact congrArg Path.mk heq
      rw [hsame] at hfound
      exact hother (Path.parse_inj hfound hparse)
    rw [placeOf_final hcreated h hadmits hname (fun _ ↦ Path.fits_of_parse hparse)
      (fun _ ↦ Path.fits_of_parse hfound), if_neg hne, targetAt_final hcreated h hadmits]
    refine and_congr_right fun hplace ↦ ?_
    rw [if_neg]
    rintro rfl
    obtain ⟨met, hmet⟩ := exists_target_of_placeOf hplace
    rw [hadmits.targetAt_self] at hmet
    contradiction

end Created

end Image

end SectorFS
