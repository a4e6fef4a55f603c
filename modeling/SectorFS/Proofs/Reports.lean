import SectorFS.Volume.Contents
import SectorFS.Proofs.Removal

/-!
# Reports

A report describes the two root files and every file that the root directory names, each by
the node on the disk and the slots that it has in use. On a sound image it is a text that the
image determines, `Image.report`: no slot in use lies outside its node, and the free sectors are
no fewer than none.
-/

namespace SectorFS

open SectorFS.Geometry

variable {image : Image} {sectors : Nat}

/-! ## Nodes -/

/-- The size of a node and its slots in use. -/
def Node.description (node : Node) : String :=
  "FileHeader: " ++ toString node.length.toNat ++ " bytes, level " ++ toString node.level ++
    ", " ++ toString node.charge.toNat ++ " sectors\nSlots:" ++
    String.join ((List.range (slotsUsed node.length.toNat node.level)).map fun index ↦
      " " ++ toString (node.slot index))

/-- A node that covers no more than its level holds can be described. -/
theorem Node.describe_eq_ok {node : Node} (h : node.length.toNat ≤ capacity node.level) :
    node.describe = .ok node.description := by
  rw [describe, Node.sectors, sectorsFor_eq_ok node h, Checked.ok_bind, List.map_map]
  rfl

/-! ## Volumes -/

namespace Image

/-- The description of the file at a sector. -/
def descriptionAt (image : Image) (sector : Nat) : String :=
  (image.node? sector).elim "" Node.description

/-- The part of a report that an entry of the root directory stands for. -/
def entryReport (image : Image) (entry : Entry) : String :=
  "Name: " ++ entry.shownName ++ ", Sector: " ++ toString entry.sector.toNat ++ "\n" ++
    image.descriptionAt entry.sector.toNat ++ "\n"

/-- The report on a volume of the given number of sectors. -/
def report (image : Image) (sectors : Nat) : String :=
  "Bit map file header:\n" ++ image.descriptionAt freeMapSector ++
    "\nDirectory file header:\n" ++ image.descriptionAt rootSector ++
    "\nFree sectors: " ++ toString (image.freeMap sectors).free.length ++ " of " ++
    toString sectors ++ "\nDirectory contents:\n" ++
    String.join ((image.table rootSector).entries.map image.entryReport)

theorem descriptionAt_eq {sector : Nat} {node : Node} (h : image.node? sector = some node) :
    image.descriptionAt sector = node.description := by
  rw [descriptionAt, h]
  rfl

theorem Intact.describe_eq_ok {sector : Nat} {node : Node} (h : image.Intact sectors sector node) :
    node.describe = .ok (image.descriptionAt sector) := by
  rw [descriptionAt_eq h.node_eq]
  exact Node.describe_eq_ok h.le_capacity

end Image

namespace Volume

variable {volume : Volume}

/-- A volume on a sound image reports what the image says. -/
theorem report_performs (hvolume : volume.Attached image) (h : image.Sound sectors) :
    Performs volume.report image sectors (.ok (image.report sectors)) [] := by
  have hmap := (hvolume.intact_mapFile h).describe_eq_ok
  have hroot := (hvolume.intact_rootFile h).describe_eq_ok
  rw [hvolume.mapFile_sector] at hmap
  rw [hvolume.rootFile_sector] at hroot
  have hentry (entry : Entry) (hmem : entry ∈ (image.table rootSector).entries) :
      Performs (do
        let node ← Node.fetch entry.sector.toNat
        return "Name: " ++ entry.shownName ++ ", Sector: " ++ toString entry.sector.toNat ++ "\n" ++
          (← node.describe) ++ "\n") image sectors (.ok (image.entryReport entry)) [] := by
    obtain ⟨index, hindex⟩ :=
      (Image.exists_entry_iff image.targetAt_nil).mp ⟨entry, hmem, rfl⟩
    obtain ⟨node, hintact⟩ := h.intact_item hindex
    have hlt := hintact.self_lt
    have hword := h.sectors_lt
    refine (Node.fetch_performs hintact.node_eq hlt (by omega)).step ?_
    rw [hintact.describe_eq_ok]
    exact (Performs.pure _).step (Performs.pure _)
  refine (hvolume.loadMap_performs h).step ((hvolume.loadRoot_performs h).step ?_)
  rw [hmap, hroot, h.clean.freeCount_eq]
  refine (Performs.pure _).step ((Performs.pure _).step ((Performs.pure _).step
    ((Performs.listMapM hentry).step ?_)))
  rw [Image.Sound.sectors_freeMap]
  exact Performs.pure _

end Volume

end SectorFS
