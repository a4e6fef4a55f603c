import SectorFS.Proofs.Creation.Cuts
import SectorFS.Proofs.Sessions.Creations

/-!
# Sessions that are cut short in a creation

Before the last call of a session the disk is told to accept a number of writes and no more.
If this call is a creation and is stopped, the image that it leaves is consistent unless the
cut is a harmful one, whatever was created and removed before. What was before matters in
one respect: no entry of a directory, in use or free, has ever been given the number of a
sector of the root files, so an old number that leads into them is that of an entry that was
never used.
-/

namespace SectorFS

open SectorFS.Geometry

variable {sectors : Nat} {session : Session} {call : Call} {text : String} {size : Nat}
  {isDirectory : Bool}

/-! ## Numbers in entries -/

namespace Image

variable {image changed : Image} {written? : Option (Nat × Nat × ByteArray)}

/-- The numbers in the entries of directories, in use or free, are zero or lead out of the root
files. -/
def EntriesApart (image : Image) : Prop :=
  ∀ place directory, image.targetAt place = some ⟨directory, true⟩ → ∀ index : Fin entryCount,
    (image.table directory).table[index].sector.toNat = freeMapSector ∨
      ¬ image.OwnsRoot (image.table directory).table[index].sector.toNat

theorem Change.ownsRoot_iff (hchange : Change sectors image written? changed)
    (h : image.Sound sectors) (sector : Nat) : changed.OwnsRoot sector ↔ image.OwnsRoot sector := by
  have hunmoved := hchange.unmoved h
  have hmap : changed.headOf .map = image.headOf .map := rfl
  have hroot : changed.headOf (.item []) = image.headOf (.item []) := rfl
  exact or_congr (Sound.owns_congr hmap (hunmoved .map) sector)
    (Sound.owns_congr hroot (hunmoved (.item [])) sector)

/-- A change enters no number of a sector of the root files. -/
theorem Change.entriesApart (hchange : Change sectors image written? changed)
    (h : image.Sound sectors) (hapart : image.EntriesApart) : changed.EntriesApart := by
  intro place found hplace entry
  rw [hchange.ownsRoot_iff h]
  have hold {table : Directory} (hfound : image.targetAt place = some ⟨found, true⟩)
      (hsame : table.table[entry].sector = (image.table found).table[entry].sector) :
      table.table[entry].sector.toNat = freeMapSector ∨
        ¬ image.OwnsRoot table.table[entry].sector.toNat := by
    rw [hsame]
    exact hapart place found hfound entry
  cases hchange with
  | same => exact hapart place found hplace entry
  | @created path size directory sector parent name index height isDirectory node fresh table map
      hadmits hcreated hsize =>
    obtain hempty | ⟨hfound, hsame | ⟨rfl, hentered⟩⟩ := Created.table_cases hcreated h hadmits hplace
    · left
      rw [hempty]
      simp [Directory.empty, Entry.blank]
    · exact hold hfound (by rw [hsame])
    · rw [hentered, Directory.table_update]
      by_cases hentry : entry = index
      · right
        have hlt := hcreated.intact.self_lt.trans h.sectors_lt
        have hnumber : (UInt32.ofNat sector).toNat = sector := UInt32.toNat_ofNat_of_lt' hlt
        have hfree := List.mem_of_mem_take (Created.sector_mem_claimed hcreated)
        rw [if_pos hentry, Entry.ofName, hnumber]
        exact fun howned ↦ howned.elim (h.not_owns_of_mem_free hfree _)
          (h.not_owns_of_mem_free hfree _)
      · rw [if_neg hentry]
        exact hapart place found hfound entry
  | @removed path parent directory name index target table map hnames hremoved =>
    obtain ⟨hfound, hsame | hfreed⟩ := Removed.table_cases hremoved h hnames hplace
    · exact hold hfound (by rw [hsame])
    · refine hold hfound ?_
      rw [hfreed, Directory.free, Directory.table_update]
      split
      · rename_i hentry
        rw [hentry]
        rfl
      · rfl
  | @written at_ sector position data writes hat hsplices =>
    rw [targetAt_written hsplices h hat] at hplace
    exact hold hplace (by rw [table_unwritten hsplices h hat hplace])

end Image

namespace Session

theorem Reached.entriesApart (h : Reached sectors session) : session.image.EntriesApart := by
  induction h with
  | @format drive formatted volume hcount hsize hfaults hformat =>
    obtain ⟨-, htable, -⟩ := begin_valid hcount hsize hfaults hformat
    intro place directory hplace index
    obtain ⟨-, htarget⟩ := Image.Rooted.targetAt_eq_some htable hplace
    obtain ⟨rfl, -⟩ := Target.mk.inj htarget
    left
    rw [htable]
    simp [Directory.empty, Entry.blank]
  | call hsession hpermits ih =>
    exact (hsession.valid.step hpermits).2.entriesApart hsession.valid.sound ih

end Session

/-! ## Limited drives -/

/-- The drive, told to accept so many writes and no more. -/
def Drive.limited (drive : Drive) (limit : Nat) : Drive :=
  { drive with disk := drive.disk.setFaults (Disk.budget limit) }

/-- What an image admits at a path is determined by the path. -/
theorem Image.Admits.unique {image : Image} {path : Path} {parent other : Place}
    {directory directory' : Nat} {name name' : String} {index index' : Fin entryCount}
    {height height' : Fin maxLevel} (h : image.Sound sectors)
    (hadmits : image.Admits sectors path size parent directory name index height)
    (hother : image.Admits sectors path size other directory' name' index' height') :
    parent = other ∧ directory = directory' ∧ index = index' ∧ height = height' := by
  obtain rfl := Except.ok.inj (hadmits.parent_eq.symm.trans hother.parent_eq)
  exact ⟨h.place_eq hadmits.place_eq hother.place_eq rfl, rfl,
    Option.some.inj (hadmits.vacant.symm.trans hother.vacant),
    Option.some.inj (hadmits.height_eq.symm.trans hother.height_eq)⟩

namespace Session

/-- A creation that the disk stops leaves a consistent image if and only if it does not stop it
where the new entry is in use and the map does not mark all that it leads to. -/
theorem Reached.consistent_cut (h : Reached sectors session)
    (hcall : call.Creates text size isDirectory) {limit : Nat} {stop : Stop} {final : Drive}
    (hcut : call.perform session.volume (session.drive.limited limit) = .error stop final) :
    Image.Consistent final.disk.sector sectors ↔
      ¬ ∃ path parent directory name index height, Path.parse text = .ok path ∧
        session.image.Admits sectors path size parent directory name index height ∧
        session.image.Exposed final.disk.sector sectors size isDirectory parent directory index
          height limit := by
  have hvalid := h.valid
  have hholds : (session.drive.limited limit).disk.Holds session.image sectors :=
    ⟨hvalid.holds.sectorCount_eq, hvalid.holds.le_size, hvalid.holds.sector_eq⟩
  obtain ⟨path, parent, directory, name, index, height, sector, node, fresh, table, map, hparse,
    hadmits, hrun, hcreated⟩ | ⟨hnot, cause, -, hrun⟩ := hvalid.create_performs hcall
  · by_cases hlimit : limit < (fresh ++ (table ++ map)).length
    · obtain ⟨reached, hreached, hdisk⟩ := hrun.cut hholds rfl rfl hlimit
      obtain ⟨-, rfl⟩ := EStateM.Result.error.inj (hcut.symm.trans hreached)
      have hiff := Image.Created.consistent_cut_iff hcreated hvalid.sound hadmits hcall.size_eq
        (h.entriesApart parent directory hadmits.place_eq index) limit
      rw [hdisk.sector_eq, hiff]
      refine not_congr ⟨fun hexposed ↦
        ⟨path, parent, directory, name, index, height, hparse, hadmits, hexposed⟩, ?_⟩
      rintro ⟨path', parent', directory', name', index', height', hparse', hadmits', hexposed⟩
      obtain rfl := Except.ok.inj (hparse.symm.trans hparse')
      obtain ⟨rfl, rfl, rfl, rfl⟩ := hadmits.unique hvalid.sound hadmits'
      exact hexposed
    · obtain ⟨reached, hreached, -⟩ := hrun.spared hholds rfl rfl (Nat.le_of_not_lt hlimit)
      exact nomatch hcut.symm.trans hreached
  · obtain ⟨reached, hreached, hdisk⟩ := hrun.spared hholds rfl rfl (Nat.zero_le limit)
    obtain ⟨-, rfl⟩ := EStateM.Result.error.inj (hcut.symm.trans hreached)
    rw [hdisk.sector_eq, Image.putAll_nil]
    exact iff_of_true hvalid.sound.consistent fun ⟨path, parent, directory, name, index, height,
      hparse, hadmits, _⟩ ↦ hnot path hparse ⟨parent, directory, name, index, height, hadmits⟩

/-- On a new volume, a creation that is stopped after two writes leaves an entry whose sectors are
not marked. -/
theorem inconsistent_cut_first : ∃ volume formatted final,
    Volume.format (.blank 64) = .ok volume formatted ∧
      (Call.create "/a" 128).perform volume (formatted.limited 2) =
        .error (.error (.device .injected)) final ∧
      ¬ Image.Consistent final.disk.sector 64 := by
  obtain ⟨volume, formatted, hformat, hreached, htable, hlength⟩ := exists_reached_small
  have hvalid := hreached.valid
  obtain ⟨path, parent, directory, name, index, height, sector, node, fresh, table, map, hparse,
    hadmits, hrun, hcreated⟩ | ⟨hnot, -⟩ := hvalid.create_performs (.file "/a" 128)
  · obtain rfl : path = ⟨["a"]⟩ := Except.ok.inj (hparse.symm.trans (by rfl))
    obtain rfl : rootSector = directory := Except.ok.inj hadmits.parent_eq
    obtain rfl : height = 0 := Option.some.inj (hadmits.height_eq.symm.trans (by rfl))
    have hvacant := hadmits.vacant
    rw [htable, Directory.freeIndex?_empty] at hvacant
    obtain rfl := Option.some.inj hvacant
    have hfresh := hcreated.length_fresh
    have hentry := hcreated.relinks.length_table
    have hholds : (formatted.limited 2).disk.Holds (begin formatted volume).image 64 :=
      ⟨hvalid.holds.sectorCount_eq, hvalid.holds.le_size, hvalid.holds.sector_eq⟩
    have hlength : 2 < (fresh ++ (table ++ map)).length := by
      rw [List.length_append, List.length_append, hentry]
      omega
    obtain ⟨final, hcut, -⟩ := hrun.cut hholds rfl rfl hlength
    refine ⟨volume, formatted, final, hformat, hcut, fun hconsistent ↦ ?_⟩
    refine (Reached.consistent_cut hreached (.file "/a" 128) hcut).mp hconsistent
      ⟨_, parent, _, name, _, _, hparse, hadmits, by decide,
        ⟨sector, Image.Created.sector_mem_claimed hcreated, ?_⟩, fun htorn ↦ ?_⟩
    · have hone : Image.treeWrites 128 0 false = 1 := by decide
      rw [hone]
      exact Nat.le_trans (by decide) (Nat.le_add_right _ _)
    · exact absurd htorn (by decide)
  · obtain ⟨path, hparse, hadmits⟩ := Image.accepts_iff.mp (Image.accepts_of_empty htable
      (by rfl : Path.parse "/a" = _) (by rfl : levelFor 128 = _) (by rw [hlength]; decide))
    exact (hnot path hparse hadmits).elim

end Session

end SectorFS
