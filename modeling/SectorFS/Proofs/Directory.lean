import SectorFS.Directory
import Mathlib.Data.Fin.Basic
import Mathlib.Data.List.FinRange

/-!
# Looking names up in a table

A name is found at the first entry in use that is stored under its key. Entering a name at a
free position gives it that position and leaves every other name where it was, because a
free entry has no name. Among names that fit into an entry whole, the key tells two apart.
-/

namespace SectorFS

theorem findFinIdx?_some_iff {α : Type} {count : Nat} {entries : Vector α count}
    {holds : α → Bool} {index : Fin count} :
    entries.findFinIdx? holds = some index ↔
      holds entries[index] = true ∧ ∀ other < index, holds entries[other] = false := by
  obtain ⟨items, rfl⟩ := entries
  simp only [Vector.findFinIdx?_mk, Fin.cast_refl, Option.map_id, id_eq,
    Array.findFinIdx?_eq_some_iff, Bool.not_eq_true, Fin.getElem_fin, getElem_position,
    Vector.getElem_mk]

theorem findFinIdx?_none_iff {α : Type} {count : Nat} {entries : Vector α count}
    {holds : α → Bool} :
    entries.findFinIdx? holds = none ↔ ∀ index : Fin count, holds entries[index] = false := by
  rw [Vector.findFinIdx?_eq_none_iff]
  simp only [Vector.mem_iff_getElem, Bool.not_eq_true, getElem_position]
  constructor
  · intro h index
    exact h _ ⟨index, index.isLt, rfl⟩
  · rintro h _ ⟨index, hindex, rfl⟩
    exact h ⟨index, hindex⟩

namespace Directory

variable {directory : Directory} {name other : String} {index : Fin entryCount} {entry : Entry}

theorem index?_eq_some_iff :
    directory.index? name = some index ↔ directory.table[index].isNamed name = true ∧
      ∀ before < index, directory.table[before].isNamed name = false :=
  findFinIdx?_some_iff

theorem index?_eq_none_iff :
    directory.index? name = none ↔
      ∀ index : Fin entryCount, directory.table[index].isNamed name = false :=
  findFinIdx?_none_iff

theorem inUse_of_index? (h : directory.index? name = some index) :
    directory.table[index].inUse = true := by
  have hnamed := (index?_eq_some_iff.mp h).1
  rw [Entry.isNamed, Bool.and_eq_true] at hnamed
  exact hnamed.1

theorem not_inUse_of_freeIndex? (h : directory.freeIndex? = some index) :
    directory.table[index].inUse = false := by
  simpa using (findFinIdx?_some_iff.mp h).1

theorem freeIndex?_eq_none_iff :
    directory.freeIndex? = none ↔
      ∀ index : Fin entryCount, directory.table[index].inUse = true := by
  rw [freeIndex?, findFinIdx?_none_iff]
  simp

theorem entry?_eq_none_iff : directory.entry? name = none ↔ directory.index? name = none := by
  unfold entry?
  exact Option.map_eq_none_iff

/-- Names with the same key are found at the same entry. -/
theorem index?_congr {directory : Directory} {name other : String}
    (h : Name.key name = Name.key other) : directory.index? name = directory.index? other := by
  have hnamed : (fun entry : Entry ↦ entry.isNamed name) = fun entry ↦ entry.isNamed other :=
    funext fun entry ↦ by rw [Entry.isNamed, Entry.isNamed, h]
  rw [index?, index?, hnamed]

/-- A name is found where it was as long as the same entries have it. -/
theorem index?_of_table {changed : Directory}
    (h : ∀ place : Fin entryCount, (changed.table[place]).isNamed name =
      (directory.table[place]).isNamed name) : changed.index? name = directory.index? name := by
  cases hfound : directory.index? name with
  | none =>
    rw [index?_eq_none_iff] at hfound ⊢
    exact fun place ↦ (h place).trans (hfound place)
  | some place =>
    rw [index?_eq_some_iff] at hfound ⊢
    exact ⟨(h place).trans hfound.1, fun before hbefore ↦
      (h before).trans (hfound.2 before hbefore)⟩

/-- The positions of a table give its entries in order. -/
theorem map_finRange_table (directory : Directory) :
    (List.finRange entryCount).map (directory.table[·]) = directory.table.toList := by
  apply List.ext_getElem
  · rw [List.length_map, List.length_finRange, Vector.length_toList]
  · intro place _ _
    rw [List.getElem_map, List.getElem_finRange, Vector.getElem_toList]
    rfl

theorem inUse_empty (index : Fin entryCount) : (empty.table[index]).inUse = false := by
  simp [empty, Entry.inUse, Entry.blank]

theorem index?_empty (name : String) : empty.index? name = none := by
  rw [index?_eq_none_iff]
  intro index
  rw [Entry.isNamed, inUse_empty, Bool.false_and]

theorem freeIndex?_empty : empty.freeIndex? = some 0 := by
  rw [freeIndex?, findFinIdx?_some_iff]
  refine ⟨?_, fun other hother ↦ absurd hother (Fin.not_lt_zero other)⟩
  rw [inUse_empty]
  rfl

theorem find?_isSome : (directory.find? name).isSome = (directory.index? name).isSome := by
  rw [find?, entry?, Option.isSome_map, Option.isSome_map]

theorem find?_eq_none_iff : directory.find? name = none ↔ directory.index? name = none := by
  rw [find?, Option.map_eq_none_iff, entry?_eq_none_iff]

/-! ## Entering and freeing -/

theorem table_update (directory : Directory) (index place : Fin entryCount) (entry : Entry) :
    (directory.update index entry).table[place] =
      if place = index then entry else directory.table[place] := by
  rw [update, getElem_position, getElem_position, Vector.getElem_set]
  simp only [Fin.ext_iff, eq_comm]

namespace InPlace

/-- An edit begins with a look at the table. -/
theorem get_bind_run (next : Directory → EStateM Error Directory Unit) (directory : Directory) :
    (get >>= next) directory = next directory directory := rfl

theorem add_run (directory : Directory) (name : String) (sector : Nat) (isDirectory : Bool) :
    add name sector isDirectory directory =
      match directory.index? name with
      | some _ => .error .alreadyExists directory
      | none =>
        match directory.freeIndex? with
        | none => .error .directoryFull directory
        | some index => .ok () (directory.update index (.ofName name sector isDirectory)) := by
  rw [add, get_bind_run]
  cases directory.index? name with
  | some index => rfl
  | none => cases directory.freeIndex? <;> rfl

theorem remove_run (directory : Directory) (name : String) :
    remove name directory =
      match directory.index? name with
      | none => .error .notFound directory
      | some index => .ok () (directory.free index) := by
  rw [remove, get_bind_run]
  cases directory.index? name <;> rfl

end InPlace

theorem add_eq (directory : Directory) (name : String) (sector : Nat) (isDirectory : Bool) :
    directory.add name sector isDirectory =
      match directory.index? name with
      | some _ => .error .alreadyExists
      | none =>
        match directory.freeIndex? with
        | none => .error .directoryFull
        | some index => .ok (directory.update index (.ofName name sector isDirectory)) := by
  rw [add, edited, InPlace.add_run]
  cases directory.index? name with
  | some index => rfl
  | none => cases directory.freeIndex? <;> rfl

theorem remove_eq (directory : Directory) (name : String) :
    directory.remove name =
      match directory.index? name with
      | none => .error .notFound
      | some index => .ok (directory.free index) := by
  rw [remove, edited, InPlace.remove_run]
  cases directory.index? name <;> rfl

theorem add_eq_ok {sector : Nat} {isDirectory : Bool} (hname : directory.index? name = none)
    (hfree : directory.freeIndex? = some index) :
    directory.add name sector isDirectory =
      .ok (directory.update index (.ofName name sector isDirectory)) := by
  rw [add_eq, hname, hfree]

theorem add_of_full {sector : Nat} {isDirectory : Bool} (hname : directory.index? name = none)
    (hfull : directory.freeIndex? = none) :
    directory.add name sector isDirectory = .error .directoryFull := by
  rw [add_eq, hname, hfull]

theorem remove_eq_ok (h : directory.index? name = some index) :
    directory.remove name = .ok (directory.free index) := by
  rw [remove_eq, h]

/-- A name that an entry does not have is found where it was. -/
theorem index?_update_of_not_named (hfree : directory.table[index].inUse = false)
    (hentry : entry.isNamed other = false) :
    (directory.update index entry).index? other = directory.index? other := by
  refine index?_of_table fun place ↦ ?_
  rw [table_update]
  split
  · rename_i hplace
    rw [hplace, hentry, Entry.isNamed, hfree, Bool.false_and]
  · rfl

/-- A new name is found at the position it was given. -/
theorem index?_update_self (hname : directory.index? name = none)
    (hentry : entry.isNamed name = true) :
    (directory.update index entry).index? name = some index := by
  rw [index?_eq_some_iff, table_update, if_pos rfl]
  refine ⟨hentry, fun before hbefore ↦ ?_⟩
  rw [table_update, if_neg (Fin.ne_of_lt hbefore)]
  exact index?_eq_none_iff.mp hname before

theorem isNamed_ofName {sector : Nat} {isDirectory : Bool} (hname : '\x00' ∉ name.toList) :
    (Entry.ofName name sector isDirectory).isNamed other = (Name.key name == Name.key other) := by
  rw [Entry.isNamed, Entry.ofName, Name.storedKey_field hname]
  rfl

end Directory

/-! ## Keys -/

namespace Name

/-- The key of a name that fits is its encoding. -/
theorem key_of_fits {name : String} (h : name.utf8ByteSize ≤ nameLimit) :
    key name = Text.Utf8.encode name.toList := by
  rw [key, fitting_eq_self (Text.Utf8.length_encode_toList name ▸ h)]

/-- Among names that fit, the key tells two apart. -/
theorem key_inj {left right : String} (hleft : left.utf8ByteSize ≤ nameLimit)
    (hright : right.utf8ByteSize ≤ nameLimit) : key left = key right ↔ left = right := by
  refine ⟨fun h ↦ ?_, fun h ↦ by rw [h]⟩
  rw [key_of_fits hleft, key_of_fits hright] at h
  exact String.toList_inj.mp (Text.Utf8.encode_inj h)

theorem zero_not_mem_storedKey (field : Vector UInt8 nameField) : 0 ∉ storedKey field := by
  intro hmem
  have hpos := List.all_takeWhile (p := (· ≠ (0 : UInt8))) (l := field.toList)
  simpa using List.all_eq_true.mp hpos 0 hmem

/-- A zero character of a name that fits is a zero byte of its key. -/
theorem zero_mem_key {name : String} (h : name.utf8ByteSize ≤ nameLimit)
    (hzero : '\x00' ∈ name.toList) : 0 ∈ key name := by
  rw [key_of_fits h, Text.Utf8.encode, List.mem_flatMap]
  exact ⟨'\x00', hzero, by decide⟩

end Name

/-! ## Names that fit -/

/-- Different names that fit are found at different entries. -/
theorem Directory.index_ne_of_ne {directory : Directory} {name other : String}
    {index place : Fin entryCount} (hname : name.utf8ByteSize ≤ nameLimit)
    (hother : other.utf8ByteSize ≤ nameLimit) (h : directory.index? name = some index)
    (hplace : directory.index? other = some place) (hne : name ≠ other) : index ≠ place := by
  rintro rfl
  have hkey := (index?_eq_some_iff.mp h).1
  have hotherKey := (index?_eq_some_iff.mp hplace).1
  rw [Entry.isNamed, Bool.and_eq_true, beq_iff_eq] at hkey hotherKey
  exact hne ((Name.key_inj hname hother).mp (hkey.2.symm.trans hotherKey.2))

/-! ## Names with a zero character -/

/-- A stored name ends before the first zero, so a name with a zero character is not found. -/
theorem Directory.index?_of_zero {directory : Directory} {name : String}
    (h : name.utf8ByteSize ≤ nameLimit) (hzero : '\x00' ∈ name.toList) :
    directory.index? name = none := by
  rw [index?_eq_none_iff]
  intro index
  rw [Entry.isNamed, Bool.and_eq_false_iff, beq_eq_false_iff_ne]
  right
  intro hkey
  have hmem := Name.zero_mem_key h hzero
  rw [← hkey] at hmem
  exact Name.zero_not_mem_storedKey _ hmem

end SectorFS
