import SectorFS.Layout

/-!
# Geometry of index trees

A node of level `1` has data sectors in its slots, and a node of level `L + 1` has
nodes of level `L`, each covering `capacity L` bytes of the file. Only the last
slot in use may cover less. The functions below are the arithmetic of this shape
over the natural numbers.
-/

namespace SectorFS.Geometry

-- Powers are those of the core library, whatever else is in scope.
attribute [local instance (2000)] instPowNat

/-- Bytes a tree of the given level can address. Level `0` is a single sector. -/
def capacity (level : Nat) : Nat := slotCount ^ level * sectorSize

/-- The shallowest height, one below the level, of a tree that holds `size` bytes. -/
def heightFor (size : Nat) : Option (Fin maxLevel) :=
  (List.finRange maxLevel).find? fun height ↦ size ≤ capacity (height + 1)

/-- The shallowest level of a tree that holds `size` bytes, if one does. -/
def levelFor (size : Nat) : Option Nat := (heightFor size).map (· + 1)

/-- Slots in use in a node of the given level that covers `total` bytes. -/
def slotsUsed (total level : Nat) : Nat :=
  (total + capacity (level - 1) - 1) / capacity (level - 1)

/-- Bytes that slot `index` covers: all of its span, except in the last slot in use. -/
def childSize (total level index : Nat) : Nat :=
  min (total - index * capacity (level - 1)) (capacity (level - 1))

/-- Sectors below a node of the given level that covers `size` bytes, data and nodes alike. -/
def sectorNeeds : Nat → Nat → Nat
  | 0, _ => 0
  | level + 1, size =>
    let used := slotsUsed size (level + 1)
    if level = 0 ∨ used = 0 then
      used
    else
      (used - 1) * (1 + sectorNeeds level (capacity level)) +
        (1 + sectorNeeds level (childSize size (level + 1) (used - 1)))

theorem capacity_pos (level : Nat) : 0 < capacity level :=
  Nat.mul_pos (Nat.pow_pos (by decide)) (by decide)

theorem capacity_succ (level : Nat) : capacity (level + 1) = slotCount * capacity level := by
  simp only [capacity, Nat.pow_succ]
  rw [Nat.mul_comm (slotCount ^ level) slotCount, Nat.mul_assoc]

end SectorFS.Geometry
