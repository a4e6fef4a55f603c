import SectorFS.Proofs.Naming.Texts

/-!
# Tables that tell their names apart

A table is legible if each entry in use keeps a whole component without a zero character and
no two of them keep the same one. In a legible table a name is found at the entry that shows
it, freeing an entry makes its name unknown, and no other name is affected. A table stays
legible when an entry is freed, and when a component without a zero character that it does not
have is entered.
-/

namespace SectorFS

/-- A component that an entry keeps whole and gives back. -/
structure Path.IsPlain (name : String) : Prop extends Path.IsComponent name where
  no_zero : '\x00' ∉ name.toList

/-- The components of a text without a zero character have none either. -/
theorem Path.isPlain_of_parse {text : String} {path : Path} (h : parse text = .ok path)
    (hzero : '\x00' ∉ text.toList) {name : String} (hname : name ∈ path.components) : IsPlain name :=
  ⟨isComponent_of_parse h hname, fun hmem ↦ hzero (mem_text_of_parse h hname hmem)⟩

namespace Name

variable {name : String}

theorem shown_field (h : Path.IsPlain name) : shown (field name) = name := by
  rw [shown, storedKey_field h.no_zero, key_of_fits h.fits, Text.Utf8.decode_encode,
    String.ofList_toList]

end Name

namespace Directory

variable {directory : Directory} {name other : String} {index : Fin entryCount}

/-- Each entry in use keeps a plain component, and no two of them the same one. -/
structure Legible (directory : Directory) : Prop where
  named : ∀ index : Fin entryCount, directory.table[index].inUse = true →
    ∃ name, Path.IsPlain name ∧ directory.table[index].name = Name.field name
  apart : ∀ index place : Fin entryCount, directory.table[index].inUse = true →
    directory.table[place].inUse = true →
    Name.storedKey directory.table[index].name = Name.storedKey directory.table[place].name →
      index = place

/-! ## Looking names up -/

namespace Legible

/-- An entry in use shows a plain component, which is the name it was given. -/
theorem shown (h : directory.Legible) (hused : directory.table[index].inUse = true) :
    Path.IsPlain directory.table[index].shownName ∧
      directory.table[index].name = Name.field directory.table[index].shownName := by
  obtain ⟨name, hname, hfield⟩ := h.named index hused
  have hshown : directory.table[index].shownName = name := by
    rw [Entry.shownName, hfield, Name.shown_field hname]
  rw [hshown]
  exact ⟨hname, hfield⟩

theorem index_eq {place : Fin entryCount} (h : directory.Legible)
    (hused : directory.table[index].inUse = true) (hplace : directory.table[place].inUse = true)
    (hshown : directory.table[index].shownName = directory.table[place].shownName) :
    index = place := by
  refine h.apart index place hused hplace ?_
  rw [(h.shown hused).2, (h.shown hplace).2, hshown]

/-- A name that fits is found at the entry that shows it. -/
theorem index?_eq_some_iff (h : directory.Legible) (hname : name.utf8ByteSize ≤ nameLimit) :
    directory.index? name = some index ↔
      directory.table[index].inUse = true ∧ directory.table[index].shownName = name := by
  have hnamed {place : Fin entryCount} (hused : directory.table[place].inUse = true) :
      directory.table[place].isNamed name = true ↔ directory.table[place].shownName = name := by
    obtain ⟨hplain, hfield⟩ := h.shown hused
    rw [Entry.isNamed, hused, Bool.true_and, beq_iff_eq, hfield,
      Name.storedKey_field hplain.no_zero, Name.key_inj hplain.fits hname]
  constructor
  · intro hindex
    have hused := inUse_of_index? hindex
    exact ⟨hused, (hnamed hused).mp (Directory.index?_eq_some_iff.mp hindex).1⟩
  · rintro ⟨hused, hshown⟩
    refine Directory.index?_eq_some_iff.mpr ⟨(hnamed hused).mpr hshown, fun before hbefore ↦ ?_⟩
    by_contra hfound
    rw [Bool.not_eq_false] at hfound
    have hbefore_used : directory.table[before].inUse = true := by
      rw [Entry.isNamed, Bool.and_eq_true] at hfound
      exact hfound.1
    have hsame := h.index_eq hbefore_used hused
      (((hnamed hbefore_used).mp hfound).trans hshown.symm)
    exact absurd hsame (Fin.ne_of_lt hbefore)

theorem index?_shownName (h : directory.Legible) (hused : directory.table[index].inUse = true) :
    directory.index? directory.table[index].shownName = some index :=
  (h.index?_eq_some_iff (h.shown hused).1.fits).mpr ⟨hused, rfl⟩

/-! ## Changes -/

theorem empty : Directory.empty.Legible where
  named index hused := by
    rw [inUse_empty] at hused
    contradiction
  apart index _ hused := by
    rw [inUse_empty] at hused
    contradiction

/-- A table that keeps fewer entries stays legible. -/
theorem free (h : directory.Legible) (index : Fin entryCount) : (directory.free index).Legible := by
  have hkept {place : Fin entryCount}
      (hused : ((directory.free index).table[place]).inUse = true) :
      (directory.free index).table[place] = directory.table[place] := by
    rw [Directory.free, table_update] at hused ⊢
    split
    · rename_i heq
      rw [if_pos heq] at hused
      contradiction
    · rfl
  constructor
  · intro place hused
    have hsame := hkept hused
    rw [hsame] at hused ⊢
    exact h.named place hused
  · intro place other hused hother hname
    have hsame := hkept hused
    have hsame' := hkept hother
    rw [hsame] at hused hname
    rw [hsame'] at hother hname
    exact h.apart place other hused hother hname

/-- A plain component that the table does not have can be entered. -/
theorem enter (h : directory.Legible) (hplain : Path.IsPlain name)
    (habsent : directory.index? name = none) (sector : Nat) (isDirectory : Bool) :
    (directory.update index (.ofName name sector isDirectory)).Legible := by
  have hnew : (Entry.ofName name sector isDirectory).name = Name.field name := rfl
  have hold {place : Fin entryCount} (hused : directory.table[place].inUse = true) :
      Name.storedKey directory.table[place].name ≠ Name.storedKey (Name.field name) := by
    intro hkey
    have hnamed := index?_eq_none_iff.mp habsent place
    rw [Entry.isNamed, hused, Bool.true_and, beq_eq_false_iff_ne] at hnamed
    exact hnamed (hkey.trans (Name.storedKey_field hplain.no_zero))
  constructor
  · intro place hused
    rw [table_update] at hused ⊢
    split at hused
    · rename_i heq
      rw [if_pos heq]
      exact ⟨name, hplain, hnew⟩
    · rename_i hne
      rw [if_neg hne]
      exact h.named place hused
  · intro place other hused hother hname
    rw [table_update] at hused hother
    rw [table_update, table_update] at hname
    by_cases hplace : place = index <;> by_cases hthere : other = index
    · rw [hplace, hthere]
    · rw [if_neg hthere] at hother
      rw [if_pos hplace, if_neg hthere, hnew] at hname
      exact absurd hname.symm (hold hother)
    · rw [if_neg hplace] at hused
      rw [if_neg hplace, if_pos hthere, hnew] at hname
      exact absurd hname (hold hused)
    · rw [if_neg hplace] at hused
      rw [if_neg hthere] at hother
      rw [if_neg hplace, if_neg hthere] at hname
      exact h.apart place other hused hother hname

/-- A name whose entry was freed is not found. -/
theorem index?_free_self (h : directory.Legible) (hname : name.utf8ByteSize ≤ nameLimit)
    (hindex : directory.index? name = some index) : (directory.free index).index? name = none := by
  obtain ⟨hused, hshown⟩ := (h.index?_eq_some_iff hname).mp hindex
  cases hfound : (directory.free index).index? name with
  | none => rfl
  | some place =>
    obtain ⟨hkept, hsame⟩ := ((h.free index).index?_eq_some_iff hname).mp hfound
    rw [Directory.free, table_update] at hkept hsame
    by_cases heq : place = index
    · rw [if_pos heq] at hkept
      contradiction
    · rw [if_neg heq] at hkept hsame
      exact absurd (h.index_eq hkept hused (hsame.trans hshown.symm)) heq

end Legible

/-- Freeing the entry of one name does not affect another one. -/
theorem index?_free_of_ne (hname : name.utf8ByteSize ≤ nameLimit)
    (hother : other.utf8ByteSize ≤ nameLimit) (hindex : directory.index? name = some index)
    (hne : name ≠ other) : (directory.free index).index? other = directory.index? other := by
  have hkey := (index?_eq_some_iff.mp hindex).1
  rw [Entry.isNamed, Bool.and_eq_true, beq_iff_eq] at hkey
  refine index?_of_table fun place ↦ ?_
  rw [free, table_update]
  split
  · rename_i heq
    have hdifferent : (Name.key name == Name.key other) = false :=
      beq_eq_false_iff_ne.mpr fun hsame ↦ hne ((Name.key_inj hname hother).mp hsame)
    rw [heq, Entry.isNamed, Entry.isNamed, hkey.2, hdifferent, Bool.and_false]
    rfl
  · rfl

end Directory

/-! ## Legible images -/

namespace Image

/-- Every directory on the image tells its names apart. -/
def Legible (image : Image) : Prop :=
  ∀ place directory, image.targetAt place = some ⟨directory, true⟩ →
    (image.table directory).Legible

/-- What is at a place has a path. -/
theorem Legible.exists_path {image : Image} (h : image.Legible) {place : Place} {target : Target}
    (hplace : image.targetAt place = some target) :
    ∃ path : Path, (∀ name ∈ path.components, Path.IsPlain name) ∧
      image.placeOf path.components = some place := by
  induction place generalizing target with
  | nil => exact ⟨⟨[]⟩, fun _ hname ↦ absurd hname List.not_mem_nil, rfl⟩
  | cons index place ih =>
    obtain ⟨directory, hparent, hchild⟩ := targetAt_cons.mp hplace
    obtain ⟨⟨names⟩, hnames, hupper⟩ := ih hparent
    have hused : (image.table directory).table[index].inUse = true := by
      by_contra hfree
      rw [child?, if_neg hfree] at hchild
      contradiction
    have hlegible := h place directory hparent
    refine ⟨⟨names ++ [(image.table directory).table[index].shownName]⟩, fun name hname ↦ ?_, ?_⟩
    · rcases List.mem_append.mp hname with hname | hname
      · exact hnames name hname
      · rw [List.mem_singleton.mp hname]
        exact (hlegible.shown hused).1
    · rw [placeOf_concat, hupper, Option.bind_some, enter?_of_directory hparent,
        hlegible.index?_shownName hused]
      rfl

end Image

end SectorFS
