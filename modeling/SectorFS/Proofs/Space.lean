import SectorFS.Proofs.FreeMap
import SectorFS.Proofs.Memory

/-!
# Allocations as operations on a map

Each operation of a space has one rule that says what it does to a map.
-/

namespace SectorFS

namespace Space

variable {map : FreeMap} {sector : Nat}

/-- Claiming looks at the map only. -/
theorem claim_using {rest : List Nat} (h : map.free = sector :: rest) :
    claim.using map = return (sector, map.mark sector) := by
  have hfirst : map.firstFree = some sector := by
    rw [FreeMap.firstFree_eq_head?, h]
    rfl
  funext drive
  have hclaim : claim? ⟨drive, map⟩ = .ok (some sector) ⟨drive, map.mark sector⟩ := by
    rw [claim?]
    simp only [hfirst]
  show InPlace.using (EStateM.bind claim? _) map drive = _
  unfold InPlace.using EStateM.bind
  rw [hclaim]
  rfl

theorem clear_using (h : sector < map.sectors) :
    (clear sector).using map = return ((), map.clear sector) := by
  funext drive
  unfold InPlace.using clear FreeMap.covers
  simp only [if_pos h]
  rfl

theorem freeCount_using (h : map.Clean) :
    freeCount.using map = return (map.free.length, map) := by
  funext drive
  unfold InPlace.using freeCount
  simp only [h.freeCount_eq]
  rfl

end Space

namespace Performs

variable {α : Type} {image : Image} {sectors : Nat} {map : FreeMap}

/-! ### Operations of a space -/

theorem claim {sector : Nat} {rest : List Nat} (h : map.free = sector :: rest) :
    Performs (Space.claim.using map) image sectors (.ok (sector, map.mark sector)) [] := by
  rw [Space.claim_using h]
  exact pure _

theorem claim_of_full (h : map.free = []) :
    Performs (Space.claim.using map) image sectors (.error (.error .noSpace)) [] := by
  refine ⟨[], rfl, fun drive _ ↦ ⟨drive.journal, ?_⟩⟩
  have hfirst : map.firstFree = none := by
    rw [FreeMap.firstFree_eq_head?, h]
    rfl
  have hclaim : Space.claim? ⟨drive, map⟩ = .ok none ⟨drive, map⟩ := by
    rw [Space.claim?]
    simp only [hfirst]
  show InPlace.using (EStateM.bind Space.claim? _) map drive = _
  unfold InPlace.using EStateM.bind
  rw [hclaim]
  rfl

theorem mark {sector : Nat} (h : sector < map.sectors) :
    Performs ((Space.mark sector).using map) image sectors (.ok ((), map.mark sector)) [] := by
  refine ⟨[], rfl, fun drive _ ↦ ⟨drive.journal, ?_⟩⟩
  unfold InPlace.using Space.mark FreeMap.covers
  simp only [if_pos h]
  rfl

theorem clear {sector : Nat} (h : sector < map.sectors) :
    Performs ((Space.clear sector).using map) image sectors (.ok ((), map.clear sector)) [] := by
  rw [Space.clear_using h]
  exact pure _

end Performs

end SectorFS
