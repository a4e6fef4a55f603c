import SectorFS.Path.Lookup
import SectorFS.Directory.Listing
import SectorFS.Proofs.Directory
import Mathlib.Algebra.GroupWithZero.Nat
import Mathlib.Logic.Function.Basic
import Mathlib.Order.Bounds.Basic

/-!
# A table as an ordered finite map

A table knows a name by its key, the longest start of the name that fits into an entry and that
breaks no character off. Whatever names were added to an empty table and removed from it again, an
entry in use has the key of some name, no two of them have the same one, and a name is found if and
only if its key is there. So the table acts as a finite map that takes each key to what was added
under it last, and the positions of the entries are the order in which it is listed.

What an entry in use once was is still in its bytes after the entry was freed. This name is never
found, since only an entry in use has a key (`HasKey`). One edit either enters a key at a free
position, frees the position of one, or fails (`Stores.edit`), and the map is updated accordingly
(`lastAdded_add`, `lastAdded_remove`).
-/

namespace SectorFS

open Text.Utf8 (encode)

namespace Name

variable {name other start : String}

/-! ## The kept start of a name -/

/-- The start of a name by which a table knows it. -/
def kept (name : String) : String := String.ofList (fitting nameLimit name.toList)

/-- A start of a name that fits into an entry, and that has every other such start in it. -/
structure IsLongestFitting (name start : String) : Prop where
  is_start : start.toList <+: name.toList
  fits : start.utf8ByteSize ≤ nameLimit
  longest : ∀ other : String, other.toList <+: name.toList → other.utf8ByteSize ≤ nameLimit →
    other.toList <+: start.toList

/-- Where a start of a text fits, all of it is kept. -/
theorem prefix_fitting {room : Nat} {start chars : List Char} (hstart : start <+: chars)
    (hfits : (encode start).length ≤ room) : start <+: fitting room chars := by
  induction start generalizing room chars with
  | nil => exact List.nil_prefix
  | cons char start ih =>
    obtain ⟨rest, rfl⟩ := hstart
    rw [Text.Utf8.encode_cons, List.length_append, String.length_utf8EncodeChar] at hfits
    rw [List.cons_append, fitting, if_pos (by omega), List.cons_prefix_cons]
    exact ⟨rfl, ih (List.prefix_append start rest) (by omega)⟩

theorem encode_kept (name : String) : encode (kept name).toList = key name := by
  rw [kept, String.toList_ofList, key]

theorem isLongestFitting_kept (name : String) : IsLongestFitting name (kept name) where
  is_start := by
    obtain ⟨rest, hrest⟩ := exists_fitting_append nameLimit name.toList
    exact ⟨rest, by rw [kept, String.toList_ofList, hrest]⟩
  fits := by
    rw [← Text.Utf8.length_encode_toList, encode_kept]
    exact length_key_le name
  longest other hother hfits := by
    rw [kept, String.toList_ofList]
    exact prefix_fitting hother (by rwa [Text.Utf8.length_encode_toList])

/-- The kept start of a name is the longest one that fits, and there is no other. -/
theorem isLongestFitting_iff : IsLongestFitting name start ↔ start = kept name := by
  constructor
  · intro h
    have hkept := isLongestFitting_kept name
    exact String.toList_inj.mp ((hkept.longest start h.is_start h.fits).eq_of_length_le
      (h.longest _ hkept.is_start hkept.fits).length_le)
  · rintro rfl
    exact isLongestFitting_kept name

end Name

namespace Directory

/-! ## Edits and their history -/

/-- What changes a table. -/
inductive Edit where
  | add (name : String) (sector : Nat) (isDirectory : Bool)
  | remove (name : String)

namespace Edit

/-- Carries out an edit on the table in memory. -/
def perform : Edit → EStateM Error Directory Unit
  | add name sector isDirectory => InPlace.add name sector isDirectory
  | remove name => InPlace.remove name

/-- Names have no zero character, and the number of a sector fits into a word. -/
def Proper : Edit → Prop
  | add name sector _ => '\x00' ∉ name.toList ∧ sector < 2 ^ 32
  | remove name => '\x00' ∉ name.toList

instance (edit : Edit) : Decidable edit.Proper :=
  match edit with
  | add name sector _ => inferInstanceAs (Decidable ('\x00' ∉ name.toList ∧ sector < 2 ^ 32))
  | remove name => inferInstanceAs (Decidable ('\x00' ∉ name.toList))

/-- The table that an edit has reached at its end, and what the edit failed for. -/
def outcome (edit : Edit) (directory : Directory) : Directory × Option Error :=
  match edit.perform directory with
  | .ok () reached => (reached, none)
  | .error cause reached => (reached, some cause)

/-- An edit looks for a position before it changes the table, so one that fails has changed
nothing. -/
theorem eq_of_perform_error {edit : Edit} {directory reached : Directory} {cause : Error}
    (h : edit.perform directory = .error cause reached) : reached = directory := by
  cases edit with
  | add name sector isDirectory =>
    rw [perform, InPlace.add_run] at h
    split at h
    · exact (EStateM.Result.error.inj h).2.symm
    · split at h
      · exact (EStateM.Result.error.inj h).2.symm
      · contradiction
  | remove name =>
    rw [perform, InPlace.remove_run] at h
    split at h
    · exact (EStateM.Result.error.inj h).2.symm
    · contradiction

theorem outcome_of_failure {edit : Edit} {directory : Directory} {cause : Error}
    (h : (edit.outcome directory).2 = some cause) : (edit.outcome directory).1 = directory := by
  rw [outcome] at h ⊢
  split at h
  · contradiction
  · rename_i reached hperform
    exact eq_of_perform_error hperform

end Edit

/-- An edit that was tried, and what it failed for. -/
structure Event where
  edit : Edit
  failure : Option Error

/-- Tries edits one after the other. Returns the table that they leave, and what has happened, the
latest first. -/
def editAll (directory : Directory) (past : List Event) : List Edit → Directory × List Event
  | [] => (directory, past)
  | edit :: rest =>
    editAll (edit.outcome directory).1 (⟨edit, (edit.outcome directory).2⟩ :: past) rest

/-- What was entered last under a key, unless it was removed since. -/
def lastAdded (key : String) : List Event → Option Target
  | [] => none
  | ⟨_, some _⟩ :: past => lastAdded key past
  | ⟨.add name sector isDirectory, none⟩ :: past =>
    if Name.kept name = key then some ⟨sector, isDirectory⟩ else lastAdded key past
  | ⟨.remove name, none⟩ :: past => if Name.kept name = key then none else lastAdded key past

variable {directory : Directory} {known : String → Option Target} {name key : String}
  {sector : Nat} {isDirectory : Bool} {index place : Fin entryCount} {past : List Event}

theorem lastAdded_add : (lastAdded · (⟨.add name sector isDirectory, none⟩ :: past)) =
    Function.update (lastAdded · past) (Name.kept name) (some ⟨sector, isDirectory⟩) := by
  funext key
  rw [Function.update_apply, lastAdded]
  simp only [eq_comm]

theorem lastAdded_remove : (lastAdded · (⟨.remove name, none⟩ :: past)) =
    Function.update (lastAdded · past) (Name.kept name) none := by
  funext key
  rw [Function.update_apply, lastAdded]
  simp only [eq_comm]

/-! ## Slots and keys -/

/-- The slot is in use and its stored name is the key. -/
def HasKey (directory : Directory) (index : Fin entryCount) (key : String) : Prop :=
  directory.table[index].inUse = true ∧
    Name.storedKey directory.table[index].name = encode key.toList

/-- What an entry leads to. -/
def targetIn (directory : Directory) (index : Fin entryCount) : Target :=
  ⟨directory.table[index].sector.toNat, directory.table[index].isDirectory⟩

/-- The text of a slot in use. -/
def keyAt (directory : Directory) (index : Fin entryCount) : Option String :=
  if directory.table[index].inUse then some directory.table[index].shownName else none

theorem isNamed_iff_hasKey :
    directory.table[index].isNamed name = true ↔ directory.HasKey index (Name.kept name) := by
  rw [Entry.isNamed, Bool.and_eq_true, beq_iff_eq, HasKey, Name.encode_kept]

theorem HasKey.key_eq {other : String} (h : directory.HasKey index key)
    (hother : directory.HasKey index other) : key = other :=
  String.toList_inj.mp (Text.Utf8.encode_inj (h.2.symm.trans hother.2))

theorem HasKey.shownName_eq (h : directory.HasKey index key) :
    directory.table[index].shownName = key := by
  rw [Entry.shownName, Name.shown, h.2, Text.Utf8.decode_encode, String.ofList_toList]

theorem not_hasKey_empty : ¬ empty.HasKey index key := fun h ↦ by
  rw [HasKey, inUse_empty] at h
  exact nomatch h.1

/-- A name that is entered makes its kept start the key of its slot. -/
theorem hasKey_enter (hname : '\x00' ∉ name.toList) :
    (directory.update index (.ofName name sector isDirectory)).HasKey place key ↔
      if place = index then key = Name.kept name else directory.HasKey place key := by
  rw [HasKey, table_update]
  split
  · rw [Entry.ofName, Name.storedKey_field hname, ← Name.encode_kept]
    constructor
    · rintro ⟨-, hkey⟩
      exact String.toList_inj.mp (Text.Utf8.encode_inj hkey.symm)
    · rintro rfl
      exact ⟨rfl, rfl⟩
  · rfl

/-- A slot that is freed has no key any more. -/
theorem hasKey_free :
    (directory.free index).HasKey place key ↔ place ≠ index ∧ directory.HasKey place key := by
  rw [HasKey, free, table_update]
  split
  · rename_i hplace
    simp [hplace, Entry.freed, Entry.inUse]
  · rename_i hplace
    simp [hplace, HasKey]

theorem targetIn_update (entry : Entry) :
    (directory.update index entry).targetIn place =
      if place = index then ⟨entry.sector.toNat, entry.isDirectory⟩
      else directory.targetIn place := by
  rw [targetIn, table_update]
  split <;> rfl

theorem targetIn_enter (hsector : sector < 2 ^ 32) :
    (directory.update index (.ofName name sector isDirectory)).targetIn place =
      if place = index then ⟨sector, isDirectory⟩ else directory.targetIn place := by
  rw [targetIn_update, Entry.ofName, UInt32.toNat_ofNat_of_lt' hsector, Entry.isDirectory]
  cases isDirectory <;> rfl

/-- A table stores what is known under each key in a slot of its own, and has no other entries. -/
structure Stores (directory : Directory) (known : String → Option Target) : Prop where
  unique : ∀ first second key, directory.HasKey first key → directory.HasKey second key →
    first = second
  keyed : ∀ index : Fin entryCount, directory.table[index].inUse = true →
    ∃ key, directory.HasKey index key
  known_iff : ∀ key target, known key = some target ↔
    ∃ index, directory.HasKey index key ∧ directory.targetIn index = target

namespace Stores

theorem empty : Stores .empty fun _ ↦ none where
  unique _ _ _ hfirst := absurd hfirst not_hasKey_empty
  keyed index hused := by
    rw [inUse_empty] at hused
    contradiction
  known_iff key target := by
    simp [not_hasKey_empty]

variable (h : directory.Stores known)

include h

theorem index?_eq_some_iff :
    directory.index? name = some index ↔ directory.HasKey index (Name.kept name) := by
  rw [Directory.index?_eq_some_iff, isNamed_iff_hasKey]
  refine ⟨fun hindex ↦ hindex.1, fun hkey ↦ ⟨hkey, fun before hbefore ↦ ?_⟩⟩
  rw [Bool.eq_false_iff, ne_eq, isNamed_iff_hasKey]
  exact fun hearlier ↦ Fin.ne_of_lt hbefore (h.unique _ _ _ hearlier hkey)

theorem index?_eq_none_iff : directory.index? name = none ↔ known (Name.kept name) = none := by
  rw [Option.eq_none_iff_forall_ne_some, Option.eq_none_iff_forall_ne_some]
  constructor
  · intro habsent target hknown
    obtain ⟨index, hkey, -⟩ := (h.known_iff _ _).mp hknown
    exact habsent index (h.index?_eq_some_iff.mpr hkey)
  · intro hunknown index hindex
    exact hunknown _ ((h.known_iff _ _).mpr ⟨index, h.index?_eq_some_iff.mp hindex, rfl⟩)

/-- No slot has the key of a name that is not found. -/
theorem not_hasKey (habsent : directory.index? name = none) (place : Fin entryCount) :
    ¬ directory.HasKey place (Name.kept name) := fun hkey ↦ by
  rw [h.index?_eq_some_iff.mpr hkey] at habsent
  contradiction

/-! ## Steps -/

/-- A new name at a free position gets its key into the map. -/
theorem enter (isDirectory : Bool) (hname : '\x00' ∉ name.toList) (hsector : sector < 2 ^ 32)
    (habsent : directory.index? name = none) (hfree : directory.freeIndex? = some index) :
    (directory.update index (.ofName name sector isDirectory)).Stores
      (Function.update known (Name.kept name) (some ⟨sector, isDirectory⟩)) := by
  have hunused := not_inUse_of_freeIndex? hfree
  have hother := h.not_hasKey habsent
  constructor
  case unique =>
    intro first second key hfirst hsecond
    rw [hasKey_enter hname] at hfirst hsecond
    split at hfirst <;> split at hsecond
    · rename_i hfirst_eq hsecond_eq
      rw [hfirst_eq, hsecond_eq]
    · exact absurd (hfirst ▸ hsecond) (hother second)
    · exact absurd (hsecond ▸ hfirst) (hother first)
    · exact h.unique _ _ _ hfirst hsecond
  case keyed =>
    intro place hused
    by_cases hplace : place = index
    · exact ⟨Name.kept name, (hasKey_enter hname).mpr (by rw [if_pos hplace])⟩
    · rw [table_update, if_neg hplace] at hused
      obtain ⟨key, hkey⟩ := h.keyed place hused
      exact ⟨key, (hasKey_enter hname).mpr (by rwa [if_neg hplace])⟩
  case known_iff =>
    intro key target
    rw [Function.update_apply]
    split
    · rename_i hkey
      constructor
      · rintro ⟨⟩
        exact ⟨index, (hasKey_enter hname).mpr (by rwa [if_pos rfl]), by
          rw [targetIn_enter hsector, if_pos rfl]⟩
      · rintro ⟨place, hplace, rfl⟩
        rw [hasKey_enter hname] at hplace
        split at hplace
        · rename_i heq
          rw [targetIn_enter hsector, if_pos heq]
        · exact absurd (hkey ▸ hplace) (hother place)
    · rename_i hkey
      rw [h.known_iff]
      refine exists_congr fun place ↦ ?_
      rw [hasKey_enter hname, targetIn_enter hsector]
      split
      · rename_i heq
        simp only [hkey, false_and, iff_false, not_and]
        intro hplace
        rw [HasKey, heq, hunused] at hplace
        exact absurd hplace.1 Bool.false_ne_true
      · rfl

/-- The name at a position that is freed leaves the map. -/
theorem free (hindex : directory.index? name = some index) :
    (directory.free index).Stores (Function.update known (Name.kept name) none) := by
  have hkey := h.index?_eq_some_iff.mp hindex
  constructor
  case unique =>
    intro first second key hfirst hsecond
    exact h.unique _ _ _ (hasKey_free.mp hfirst).2 (hasKey_free.mp hsecond).2
  case keyed =>
    intro place hused
    rw [Directory.free, table_update] at hused
    split at hused
    · contradiction
    · rename_i hplace
      obtain ⟨other, hother⟩ := h.keyed place hused
      exact ⟨other, hasKey_free.mpr ⟨hplace, hother⟩⟩
  case known_iff =>
    intro other target
    rw [Function.update_apply]
    split
    · rename_i hsame
      simp only [reduceCtorEq, false_iff, not_exists, not_and]
      intro place hplace
      rw [hasKey_free, hsame] at hplace
      exact absurd (h.unique _ _ _ hplace.2 hkey) hplace.1
    · rename_i hdifferent
      rw [h.known_iff]
      refine exists_congr fun place ↦ ?_
      rw [hasKey_free, Directory.free, targetIn_update]
      split
      · rename_i heq
        simp only [heq, ne_eq, not_true_eq_false, false_and, iff_false, not_and]
        exact fun hplace ↦ absurd (hplace.key_eq hkey) hdifferent
      · rename_i hne
        simp [hne]

/-- A proper edit is stored, and one that fails leaves everything as it was. -/
theorem edit {edit : Edit} (hpast : known = (lastAdded · past)) (hproper : edit.Proper) :
    (edit.outcome directory).1.Stores
      (lastAdded · (⟨edit, (edit.outcome directory).2⟩ :: past)) := by
  subst hpast
  have hfailed (cause : Error) (hcause : (edit.outcome directory).2 = some cause) :
      (edit.outcome directory).1.Stores
        (lastAdded · (⟨edit, (edit.outcome directory).2⟩ :: past)) := by
    rw [Edit.outcome_of_failure hcause, hcause]
    exact h
  cases edit with
  | add name sector isDirectory =>
    cases habsent : directory.index? name with
    | some index =>
      exact hfailed .alreadyExists (by rw [Edit.outcome, Edit.perform, InPlace.add_run, habsent])
    | none =>
      cases hfree : directory.freeIndex? with
      | none =>
        exact hfailed .directoryFull
          (by rw [Edit.outcome, Edit.perform, InPlace.add_run, habsent, hfree])
      | some index =>
        rw [Edit.outcome, Edit.perform, InPlace.add_run, habsent, hfree, lastAdded_add]
        exact h.enter isDirectory hproper.1 hproper.2 habsent hfree
  | remove name =>
    cases hindex : directory.index? name with
    | none =>
      exact hfailed .notFound (by rw [Edit.outcome, Edit.perform, InPlace.remove_run, hindex])
    | some index =>
      rw [Edit.outcome, Edit.perform, InPlace.remove_run, hindex, lastAdded_remove]
      exact h.free hindex

end Stores

/-- Whatever proper edits were tried, the table stores what was entered last under each key. -/
theorem stores_editAll {edits : List Edit} (h : directory.Stores (lastAdded · past))
    (hproper : ∀ edit ∈ edits, edit.Proper) :
    (editAll directory past edits).1.Stores (lastAdded · (editAll directory past edits).2) := by
  induction edits generalizing directory past with
  | nil => exact h
  | cons edit rest ih =>
    exact ih (h.edit rfl (hproper edit List.mem_cons_self)) fun other hother ↦
      hproper other (List.mem_cons_of_mem _ hother)

/-! ## What can be seen of a table -/

/-- A table is full if and only if it has an entry in use for each slot. -/
theorem freeIndex?_eq_none_iff_length :
    directory.freeIndex? = none ↔ directory.entries.length = entryCount := by
  have hfull : directory.entries.length = directory.table.toList.length ↔
      ∀ entry ∈ directory.table.toList, entry.inUse = true := List.length_filter_eq_length_iff
  rw [Vector.length_toList, ← map_finRange_table, List.forall_mem_map] at hfull
  rw [freeIndex?_eq_none_iff, hfull]
  simp

/-- A table answers as the finite map of what is known under each key, and shows it slot by slot. -/
structure ActsAs (directory : Directory) (known : String → Option Target) : Prop where
  /-- At most one slot in use has a key, and the keys that slots have are those that are known. -/
  unique : ∀ first second key, directory.HasKey first key → directory.HasKey second key →
    first = second
  known_iff : ∀ key, (known key).isSome ↔ ∃ index, directory.HasKey index key
  find?_eq : ∀ name, directory.find? name = (known (Name.kept name)).map Target.sector
  /-- A key that is present is reported before a table that is full. -/
  add_alreadyExists_iff : ∀ name sector isDirectory,
    directory.add name sector isDirectory = .error .alreadyExists ↔
      (known (Name.kept name)).isSome
  add_directoryFull_iff : ∀ name sector isDirectory,
    directory.add name sector isDirectory = .error .directoryFull ↔
      known (Name.kept name) = none ∧ directory.entries.length = entryCount
  /-- Otherwise the lowest free slot is filled. -/
  add_ok : ∀ name sector isDirectory, '\x00' ∉ name.toList → sector < 2 ^ 32 →
    known (Name.kept name) = none → directory.entries.length ≠ entryCount →
      ∃ index next, directory.add name sector isDirectory = .ok next ∧
        IsLeast {place : Fin entryCount | directory.table[place].inUse = false} index ∧
        next.HasKey index (Name.kept name) ∧ next.targetIn index = ⟨sector, isDirectory⟩ ∧
        ∀ place ≠ index, next.table[place] = directory.table[place]
  remove_notFound_iff : ∀ name,
    directory.remove name = .error .notFound ↔ known (Name.kept name) = none
  /-- Otherwise the slot that has the key is freed. -/
  remove_ok : ∀ name, (known (Name.kept name)).isSome →
    ∃ index next, directory.remove name = .ok next ∧ directory.HasKey index (Name.kept name) ∧
      next.table[index].inUse = false ∧ ∀ place ≠ index, next.table[place] = directory.table[place]
  /-- What fails leaves the table as it was. -/
  failed : ∀ (edit : Edit) cause, (edit.outcome directory).2 = some cause →
    (edit.outcome directory).1 = directory
  /-- The listing has a line for each key, in the order of the slots that have them. -/
  keyAt_iff : ∀ index key, directory.keyAt index = some key ↔ directory.HasKey index key
  list_eq : directory.list = (List.finRange entryCount).filterMap fun index ↦
    (directory.keyAt index).bind fun key ↦ (known key).map fun target ↦
      ⟨0, key, key, target.isDirectory, target.sector⟩

namespace Stores

variable (h : directory.Stores known)

include h

theorem target_eq (hkey : directory.HasKey index key) :
    known key = some (directory.targetIn index) :=
  (h.known_iff _ _).mpr ⟨index, hkey, rfl⟩

theorem find?_eq (name : String) :
    directory.find? name = (known (Name.kept name)).map Target.sector := by
  rw [find?, entry?]
  cases hindex : directory.index? name with
  | none => rw [h.index?_eq_none_iff.mp hindex]; rfl
  | some index => rw [h.target_eq (h.index?_eq_some_iff.mp hindex)]; rfl

theorem add_alreadyExists_iff : directory.add name sector isDirectory = .error .alreadyExists ↔
    (known (Name.kept name)).isSome := by
  rw [← Option.ne_none_iff_isSome, ne_eq, ← h.index?_eq_none_iff, add_eq]
  cases directory.index? name with
  | some index => simp
  | none => cases directory.freeIndex? <;> simp

theorem add_directoryFull_iff : directory.add name sector isDirectory = .error .directoryFull ↔
    known (Name.kept name) = none ∧ directory.entries.length = entryCount := by
  rw [← h.index?_eq_none_iff, ← freeIndex?_eq_none_iff_length, add_eq]
  cases directory.index? name with
  | some index => simp
  | none => cases directory.freeIndex? <;> simp

/-- A name whose key is not there is entered at the lowest free position, if there is one. -/
theorem add_ok (isDirectory : Bool) (hname : '\x00' ∉ name.toList) (hsector : sector < 2 ^ 32)
    (hnone : known (Name.kept name) = none) (hroom : directory.entries.length ≠ entryCount) :
    ∃ index next, directory.add name sector isDirectory = .ok next ∧
      IsLeast {place : Fin entryCount | directory.table[place].inUse = false} index ∧
      next.HasKey index (Name.kept name) ∧ next.targetIn index = ⟨sector, isDirectory⟩ ∧
      ∀ place ≠ index, next.table[place] = directory.table[place] := by
  have habsent := h.index?_eq_none_iff.mpr hnone
  obtain ⟨index, hfree⟩ := Option.ne_none_iff_exists'.mp
    (mt freeIndex?_eq_none_iff_length.mp hroom)
  obtain ⟨-, hbelow⟩ := findFinIdx?_some_iff.mp hfree
  refine ⟨index, _, add_eq_ok habsent hfree,
    ⟨not_inUse_of_freeIndex? hfree, fun place hplace ↦ ?_⟩, ?_, ?_, fun place hplace ↦ ?_⟩
  · by_contra hless
    have hunused : directory.table[place].inUse = false := hplace
    have hused := hbelow place (Fin.not_le.mp hless)
    rw [hunused] at hused
    contradiction
  · rw [hasKey_enter hname, if_pos rfl]
  · rw [targetIn_enter hsector, if_pos rfl]
  · rw [table_update, if_neg hplace]

theorem remove_notFound_iff :
    directory.remove name = .error .notFound ↔ known (Name.kept name) = none := by
  rw [← h.index?_eq_none_iff, remove_eq]
  cases directory.index? name <;> simp

/-- A name whose key is there has its position freed. -/
theorem remove_ok (hsome : (known (Name.kept name)).isSome) :
    ∃ index next, directory.remove name = .ok next ∧ directory.HasKey index (Name.kept name) ∧
      next.table[index].inUse = false ∧
      ∀ place ≠ index, next.table[place] = directory.table[place] := by
  obtain ⟨index, hindex⟩ := Option.ne_none_iff_exists'.mp fun hnone ↦ by
    rw [h.index?_eq_none_iff.mp hnone] at hsome
    contradiction
  refine ⟨index, _, remove_eq_ok hindex, h.index?_eq_some_iff.mp hindex, ?_, fun place hplace ↦ ?_⟩
  · rw [Directory.free, table_update, if_pos rfl]
    rfl
  · rw [Directory.free, table_update, if_neg hplace]

theorem keyAt_iff : directory.keyAt index = some key ↔ directory.HasKey index key := by
  rw [keyAt]
  constructor
  · intro hkey
    split at hkey
    · rename_i hused
      obtain ⟨other, hother⟩ := h.keyed index hused
      rwa [← Option.some.inj hkey, hother.shownName_eq]
    · contradiction
  · intro hkey
    rw [if_pos hkey.1, hkey.shownName_eq]

/-- The listing is read off the slots that have a key. -/
theorem list_eq : directory.list = (List.finRange entryCount).filterMap fun index ↦
    (directory.keyAt index).bind fun key ↦ (known key).map fun target ↦
      ⟨0, key, key, target.isDirectory, target.sector⟩ := by
  rw [list, entries, ← map_finRange_table, List.filter_map, List.map_map,
    ← List.filterMap_eq_map, List.filterMap_filter]
  refine List.filterMap_congr fun index _ ↦ ?_
  rw [Function.comp_apply, keyAt]
  split
  · rename_i hused
    obtain ⟨key, hkey⟩ := h.keyed index hused
    rw [Option.bind_some, hkey.shownName_eq, h.target_eq hkey, Option.map_some, Function.comp_apply,
      Function.comp_apply, Listed.ofEntry, hkey.shownName_eq, targetIn]
  · rfl

theorem actsAs : directory.ActsAs known where
  unique := h.unique
  known_iff key := by
    rw [Option.isSome_iff_exists]
    constructor
    · rintro ⟨target, htarget⟩
      obtain ⟨index, hkey, -⟩ := (h.known_iff _ _).mp htarget
      exact ⟨index, hkey⟩
    · rintro ⟨index, hkey⟩
      exact ⟨_, h.target_eq hkey⟩
  find?_eq := h.find?_eq
  add_alreadyExists_iff _ _ _ := h.add_alreadyExists_iff
  add_directoryFull_iff _ _ _ := h.add_directoryFull_iff
  add_ok _ _ isDirectory hname hsector := h.add_ok isDirectory hname hsector
  remove_notFound_iff _ := h.remove_notFound_iff
  remove_ok _ := h.remove_ok
  failed _ _ := Edit.outcome_of_failure
  keyAt_iff _ _ := h.keyAt_iff
  list_eq := h.list_eq

end Stores

/-- After any proper edits of an empty table, it acts as the finite map that takes each key to what
was entered under it last and not removed since, and the key of a name is its longest start that
fits. -/
theorem actsAs_lastAdded (edits : List Edit) (hproper : ∀ edit ∈ edits, edit.Proper) :
    (editAll .empty [] edits).1.ActsAs (lastAdded · (editAll .empty [] edits).2) ∧
      ∀ name start, Name.IsLongestFitting name start ↔ start = Name.kept name :=
  ⟨(@stores_editAll _ [] edits .empty hproper).actsAs, fun _ _ ↦ Name.isLongestFitting_iff⟩

/-- Two long names with the same first eleven bytes: the second one is refused, and after the first
was removed under a third one, a shorter name takes its slot. -/
theorem actsAs_lastAdded_truncated :
    let edits : List Edit := [.add "abcdefghijklm" 3 false, .add "abcdefghijkkk" 4 true,
      .remove "abcdefghijk", .add "aaaaaaaaaaé" 5 true]
    (∀ edit ∈ edits, edit.Proper) ∧
      (editAll .empty [] edits).1.find? "abcdefghijklm" = none ∧
      (editAll .empty [] edits).1.find? "aaaaaaaaaa" = some 5 ∧
      (editAll .empty [] edits).1.add "aaaaaaaaaaé" 6 false = .error .alreadyExists := by
  intro edits
  have hproper : ∀ edit ∈ edits, edit.Proper := by decide
  obtain ⟨hacts, -⟩ := actsAs_lastAdded edits hproper
  refine ⟨hproper, ?_, ?_, ?_⟩
  · rw [hacts.find?_eq]
    decide +kernel
  · rw [hacts.find?_eq]
    decide +kernel
  · rw [hacts.add_alreadyExists_iff]
    decide +kernel

end Directory

end SectorFS
