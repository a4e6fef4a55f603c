import SectorFS.FreeMap
import SectorFS.Memory

/-!
# Space

Allocation works on a drive together with the map of its free sectors. As with
drives, an operation that stops keeps the map it has reached.
-/

namespace SectorFS

/-- A drive and the map of its free sectors. -/
abbrev Space := Memory FreeMap

/-- An operation that may claim and release sectors. -/
abbrev Allocation := InPlace FreeMap

/-- The map of the free sectors. -/
abbrev Memory.map (space : Space) : FreeMap := space.value

namespace Space

def freeCount : Allocation Nat := fun space ↦
  match space.map.freeCount with
  | .ok count => .ok count space
  | .error cause => .error (.trap cause) space

/-- Marks a sector of the map as in use. -/
def mark (sector : Nat) : Allocation Unit := fun space ↦
  match space.map.covers sector with
  | .ok () =>
    match space with
    | ⟨drive, map⟩ => .ok () ⟨drive, map.mark sector⟩
  | .error cause => .error (.trap cause) space

/-- Marks a sector of the map as free. -/
def clear (sector : Nat) : Allocation Unit := fun space ↦
  match space.map.covers sector with
  | .ok () =>
    match space with
    | ⟨drive, map⟩ => .ok () ⟨drive, map.clear sector⟩
  | .error cause => .error (.trap cause) space

/-- Claims the lowest free sector, if there is one. -/
def claim? : Allocation (Option Nat) := fun space ↦
  match space.map.firstFree with
  | none => .ok none space
  | some sector =>
    match space with
    | ⟨drive, map⟩ => .ok (some sector) ⟨drive, map.mark sector⟩

/-- Claims the lowest free sector. -/
def claim : Allocation Nat := do
  match ← claim? with
  | some sector => return sector
  | none => fail .noSpace

end Space

end SectorFS
