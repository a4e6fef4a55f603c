import SectorFS.Proofs.Format
import SectorFS.Proofs.Sessions.Steps

/-!
# Sessions that start with a format

Formatting a disk that has room for the two root files leaves a valid session with an empty root
directory and no open file. Every permitted call keeps a session valid, so each session that is
reached from a format is, and the volume can say at any time how many sectors the map holds free.
-/

namespace SectorFS

variable {sectors : Nat} {session : Session}

/-- A disk of so many sectors, all of them zero, that refuses nothing. -/
def Drive.blank (sectors : Nat) : Drive where
  disk :=
    { medium := ⟨zeroBytes (sectors * sectorSize)⟩
      sectorCount := sectors
      faults := .none
      traffic := .none
      written := #[] }
  journal := #[]

namespace Session

section Formatting

variable {drive formatted : Drive} {volume : Volume} (hcount : drive.disk.sectorCount = sectors)
  (hsize : sectors * sectorSize ≤ drive.disk.medium.size) (hfaults : drive.disk.faults = .none)
  (hformat : Volume.format drive = .ok volume formatted)

include hcount hsize hfaults hformat

/-- A disk that was formatted has room for the two root files. -/
theorem formattable_of_format : ∃ height, Formattable sectors height := by
  by_contra hroom
  obtain ⟨stop, writes, hperforms⟩ := Volume.format_refused fun height hheight ↦
    hroom ⟨height, hheight⟩
  obtain ⟨final, hfinal, -⟩ := (hperforms drive.disk.sector).run ⟨hcount, hsize, rfl⟩ hfaults
  rw [hformat] at hfinal
  contradiction

/-- After formatting the session is valid, the root directory is empty, and no file is open. -/
theorem begin_valid : (begin formatted volume).Valid sectors ∧
    (begin formatted volume).image.table rootSector = Directory.empty ∧
    ∀ index : Fin maxOpenFiles, volume.table[index] = none := by
  obtain ⟨height, hroom⟩ := formattable_of_format hcount hsize hfaults hformat
  obtain ⟨mapNode, rootNode, inner, hformatted⟩ := Volume.format_performs hroom
  obtain ⟨writes, hperforms, hleft⟩ := hformatted drive.disk.sector
  obtain ⟨final, hfinal, hdisk, hnone⟩ := hperforms.run ⟨hcount, hsize, rfl⟩ hfaults
  obtain ⟨rfl, rfl⟩ := EStateM.Result.ok.inj (hfinal.symm.trans hformat)
  have himage : final.disk.sector = Image.putAll drive.disk.sector writes := hdisk.sector_eq
  refine ⟨.of_fits ?_ hnone ?_ ⟨?_, fun index handle hslot ↦ ?_⟩ fun _ hfile ↦ hfile.elim, ?_,
    fun index ↦ by simp [Volume.withRoots]⟩
  · rw [begin, image, himage]
    exact hdisk
  · rw [begin, image, himage]
    exact hleft.toExact
  · rw [begin, image, himage]
    exact hleft.attached
  · simp [begin, Volume.withRoots] at hslot
  · rw [begin, image, himage]
    exact hleft.table_eq

end Formatting

theorem Reached.valid (h : Reached sectors session) : session.Valid sectors := by
  induction h with
  | format hcount hsize hfaults hformat => exact (begin_valid hcount hsize hfaults hformat).1
  | call hsession hpermits ih => exact (ih.step hpermits).1

/-- The number of free sectors is the answer of the volume. -/
theorem Valid.answer_freeSectors (h : session.Valid sectors) :
    session.answer .freeSectors = .ok (.count (session.image.freeMap sectors).free.length) :=
  @Mounted.answer_of_performs sectors session .freeSectors h.toMounted _ _
    ((h.fits.attached.freeSectors_performs h.sound).map fun count ↦
      (Answer.count count, session.volume))

/-- A disk with room for the two root files can be formatted. Its root directory is empty then, and
its first sectors are in use. -/
theorem exists_reached {height : Fin maxLevel} (h : Formattable sectors height) :
    ∃ volume formatted, Volume.format (.blank sectors) = .ok volume formatted ∧
      Reached sectors (begin formatted volume) ∧
      (begin formatted volume).image.table rootSector = Directory.empty ∧
      (begin formatted volume).image.freeMap sectors = FreeMap.filled sectors
        (2 + Geometry.sectorNeeds (height + 1) (FreeMap.byteCount sectors) + 10) := by
  have hsize : sectors * sectorSize ≤ (Drive.blank sectors).disk.medium.size :=
    (size_zeroBytes _).ge
  obtain ⟨mapNode, rootNode, inner, hformatted⟩ := Volume.format_performs h
  obtain ⟨writes, hperforms, hleft⟩ := hformatted (Drive.blank sectors).disk.sector
  obtain ⟨formatted, hformat, hdisk, -⟩ := hperforms.run ⟨rfl, hsize, rfl⟩ rfl
  refine ⟨_, formatted, hformat, .format rfl hsize rfl hformat, ?_⟩
  rw [begin, image, hdisk.sector_eq]
  exact ⟨hleft.table_eq, hleft.freeMap_eq⟩

end Session

end SectorFS
