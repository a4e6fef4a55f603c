import SectorFS.Layout
import SectorFS.Text.Utf8

/-!
# Names

A directory keeps the first bytes of a name, as many whole characters as fit. Two
names with the same kept bytes are the same name to a directory. A name without a zero character is
found under its key again (`storedKey_field`), and one that fits is kept whole.
-/

namespace SectorFS.Name

/-- The longest start of a text whose encoding has at most `room` bytes. -/
def fitting (room : Nat) : List Char → List Char
  | [] => []
  | char :: rest =>
    if char.utf8Size ≤ room then char :: fitting (room - char.utf8Size) rest else []

/-- The bytes by which a directory knows a name. -/
def key (name : String) : List UInt8 := Text.Utf8.encode (fitting nameLimit name.toList)

/-- The stored form of a name: its key, filled up with zeros. -/
def field (name : String) : Vector UInt8 nameField :=
  Vector.ofFn fun index ↦ (key name)[index.val]?.getD 0

/-- The bytes of a stored name, which ends at the first zero. -/
def storedKey (field : Vector UInt8 nameField) : List UInt8 := field.toList.takeWhile (· ≠ 0)

/-- The text of a stored name. -/
def shown (field : Vector UInt8 nameField) : String :=
  String.ofList (Text.Utf8.decode (storedKey field))

theorem length_encode_fitting_le (room : Nat) (chars : List Char) :
    (Text.Utf8.encode (fitting room chars)).length ≤ room := by
  induction chars generalizing room with
  | nil => exact Nat.zero_le _
  | cons char rest ih =>
    rw [fitting]
    split
    · have hrest := ih (room - char.utf8Size)
      rw [Text.Utf8.encode_cons, List.length_append, String.length_utf8EncodeChar]
      omega
    · exact Nat.zero_le _

/-- A text that fits is kept whole. -/
theorem fitting_eq_self {room : Nat} {chars : List Char}
    (h : (Text.Utf8.encode chars).length ≤ room) : fitting room chars = chars := by
  induction chars generalizing room with
  | nil => rfl
  | cons char rest ih =>
    rw [Text.Utf8.encode_cons, List.length_append, String.length_utf8EncodeChar] at h
    rw [fitting, if_pos (by omega), ih (by omega)]

/-- What is kept is a start of the text. -/
theorem exists_fitting_append (room : Nat) (chars : List Char) :
    ∃ rest, fitting room chars ++ rest = chars := by
  induction chars generalizing room with
  | nil => exact ⟨[], rfl⟩
  | cons char rest ih =>
    rw [fitting]
    split
    · obtain ⟨dropped, hrest⟩ := ih (room - char.utf8Size)
      exact ⟨dropped, by rw [List.cons_append, hrest]⟩
    · exact ⟨char :: rest, rfl⟩

theorem length_key_le (name : String) : (key name).length ≤ nameLimit :=
  length_encode_fitting_le nameLimit name.toList

/-- A stored name without a zero character is known by the key it was stored under. -/
theorem storedKey_field {name : String} (h : '\x00' ∉ name.toList) :
    storedKey (field name) = key name := by
  obtain ⟨dropped, hname⟩ := exists_fitting_append nameLimit name.toList
  have hzero : 0 ∉ key name := Text.Utf8.zero_not_mem_encode fun hmem ↦
    h (hname ▸ List.mem_append_left dropped hmem)
  have hlength := length_key_le name
  have hbytes : (field name).toList =
      key name ++ List.replicate (nameField - (key name).length) 0 := by
    apply List.ext_getElem
    · rw [Vector.length_toList, List.length_append, List.length_replicate]
      simp only [nameField]
      omega
    · intro index hleft hright
      simp only [field, Vector.getElem_toList, Vector.getElem_ofFn]
      by_cases hindex : index < (key name).length
      · rw [List.getElem_append_left hindex, List.getElem?_eq_getElem hindex, Option.getD_some]
      · rw [List.getElem_append_right (by omega), List.getElem_replicate,
          List.getElem?_eq_none (by omega), Option.getD_none]
  have hspare : nameField - (key name).length = nameLimit - (key name).length + 1 := by
    simp only [nameField]
    omega
  rw [storedKey, hbytes, List.takeWhile_append_of_pos fun byte hbyte ↦ by
    simpa using fun heq : byte = 0 ↦ hzero (heq ▸ hbyte)]
  rw [hspare, List.replicate_succ, List.takeWhile_cons_of_neg (by simp), List.append_nil]

end SectorFS.Name
