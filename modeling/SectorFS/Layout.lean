/-!
# Layout of a volume

All sizes follow from the sector size. A node of the index tree fills one sector:
three words describe it and the remaining words are its slots. Two nodes sit at
sectors known in advance, the one of the free-sector map and the one of the root
directory.
-/

namespace SectorFS

/-- Bytes in a sector, the unit of allocation and of transfer. -/
abbrev sectorSize : Nat := 128

/-- Bytes in a stored word. -/
abbrev wordSize : Nat := 4

/-- Slots of a node: the words its three leading fields leave free. -/
abbrev slotCount : Nat := (sectorSize - 3 * wordSize) / wordSize

/-- The deepest index tree a file may use. -/
abbrev maxLevel : Nat := 4

/-- The sector of the free-sector map's node. -/
abbrev freeMapSector : Nat := 0

/-- The sector of the root directory's node. -/
abbrev rootSector : Nat := 1

/-- Entries of a directory. A directory never grows. -/
abbrev entryCount : Nat := 64

/-- The longest name an entry keeps, in bytes. -/
abbrev nameLimit : Nat := 11

/-- Bytes an entry reserves for its name, one more than the longest name takes. -/
abbrev nameField : Nat := nameLimit + 1

/-- Bytes of a stored entry: two halfwords, a word and the name. -/
abbrev entrySize : Nat := 2 + 2 + wordSize + nameField

/-- Bytes of a directory's content. -/
abbrev directorySize : Nat := entrySize * entryCount

/-- Files the open-file table holds at once. -/
abbrev maxOpenFiles : Nat := 16

/-! ## Positions -/

-- The zero of the numbers is that of the core library, whatever else is in scope.
attribute [local instance (2000)] Zero.ofOfNat0

instance neZeroMaxLevel : NeZero maxLevel := Nat.instNeZeroSucc

/-- A position of a table lies within it by its type, so looking it up takes no proof. -/
instance instGetElemPosition {α : Type} {count : Nat} :
    GetElem (Vector α count) (Fin count) α fun _ _ ↦ True where
  getElem items position _ := getElem items position.val position.isLt

@[simp] theorem getElem_position {α : Type} {count : Nat} (items : Vector α count)
    (position : Fin count) : items[position] = getElem items position.val position.isLt := rfl

end SectorFS
