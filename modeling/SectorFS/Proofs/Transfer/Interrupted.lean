import SectorFS.Proofs.Transfer.Allocated

/-!
# Transfers that a disk interrupts

A disk may refuse any access at any time. Whichever it refuses: a write that is stopped has put its
first bytes in place, none at all or those up to the end of a sector, and has changed nothing else;
a read that is stopped has changed nothing. The position of the handle stays where it was in both
cases. This holds of a handle on the root of any allocated tree whose nodes are still on the disk.
-/

namespace SectorFS

open SectorFS.Geometry

/-! ## Reading -/

/-- A transfer that leaves the disk as it was has returned the value, or the disk refused one of its
accesses. -/
def ReadEnds {α : Type} (before : Disk) (result : EStateM.Result Stop Drive α) (value : α) : Prop :=
  ∃ final : Drive, before.Alike final.disk ∧
    (result = .ok value final ∨ result = .error (.error (.device .injected)) final)

theorem Disk.alike_turnDown (disk : Disk) (request : Request) :
    disk.Alike (disk.turnDown request) := by
  cases request <;> exact ⟨rfl, rfl, rfl, rfl⟩

/-- What writes nothing leaves the disk as it was, whatever the disk refuses. -/
theorem Performs.readEnds {α : Type} {action : Action α} {image : Image} {sectors : Nat} {value : α}
    (h : Performs action image sectors (.ok value) []) {drive : Drive}
    (hdrive : drive.disk.Holds image sectors) : ReadEnds drive.disk (action drive) value := by
  obtain ⟨requests, hnone, h⟩ := h
  obtain ⟨journal, hrun⟩ := h drive hdrive
  cases hserve : drive.disk.serveAll requests with
  | ok disk =>
    rw [hserve] at hrun
    exact ⟨⟨disk, journal⟩, Disk.alike_of_serveAll hserve hnone, .inl hrun⟩
  | error disk =>
    rw [hserve] at hrun
    obtain ⟨before, refused, rest, served, rfl, hserved, rfl⟩ :=
      Disk.exists_served_of_stopped hserve
    rw [writesOf_append, List.append_eq_nil_iff] at hnone
    exact ⟨⟨served.turnDown refused, journal⟩, (Disk.alike_of_serveAll hserved hnone.1).trans
      (served.alike_turnDown refused), .inr hrun⟩

/-! ## Writing -/

/-- A write through the root was stopped with `count` of its bytes over those of the file. -/
structure Node.Interrupted (root : Node) (position count : Nat) (data : ByteArray)
    (before after : Disk) : Prop where
  lt : count < min data.size (root.length.toNat - position)
  boundary : count = 0 ∨ sectorSize ∣ position + count
  rewritten : root.Rewritten position (data.extract 0 count) before after
  outside : ∀ sector ∉ root.data before.sector, after.sector sector = before.sector sector

/-- A write through the root has returned the value with all of its bytes in place, or the disk
refused one of its accesses and has the first of them. -/
def Node.WriteEnds {α : Type} (root : Node) (position : Nat) (data : ByteArray) (before : Disk)
    (result : EStateM.Result Stop Drive α) (value : α) : Prop :=
  ∃ final : Drive,
    (result = .ok value final ∧ root.Rewritten position data before final.disk) ∨
    (result = .error (.error (.device .injected)) final ∧
      ∃ count, root.Interrupted position count data before final.disk)

/-- What puts bytes on the data sectors of a tree, and asks for nothing afterwards, leaves a sector
unwritten when it is stopped. -/
theorem Node.Laid.writeEnds {α : Type} {root : Node} {drive : Drive} {action : Action α} {value : α}
    {position : Nat} {data : ByteArray} {writes : List Write}
    (h : root.Laid drive.disk.sector drive.disk.sectorCount)
    (hmedium : drive.disk.sectorCount * sectorSize ≤ drive.disk.medium.size)
    (hrun : Delivers action drive.disk.sector drive.disk.sectorCount (.ok value) writes)
    (hpatches : Image.Patches drive.disk.sector (root.data drive.disk.sector) position
      (min data.size (root.length.toNat - position)) position data writes) :
    root.WriteEnds position data drive.disk (action drive) value := by
  obtain ⟨final, hsize, hend⟩ := hrun.ends ⟨rfl, hmedium, rfl⟩
    fun write hwrite ↦ h.data_lt (hpatches.mem_leaves write hwrite)
  rcases hend with ⟨hdone, hholds⟩ | ⟨count, hcount, hstopped, hholds⟩
  · refine ⟨final, .inl ⟨hdone, h.rewritten ?_ hsize⟩⟩
    rw [hholds.sector_eq]
    exact .of_patches hpatches
  · obtain ⟨done, hlt, hboundary, hoverlays⟩ := Image.Overlays.exists_of_patches hpatches hcount
    rw [← hholds.sector_eq] at hoverlays
    have hsame : min (data.extract 0 done).size (root.length.toNat - position) = done := by
      rw [ByteArray.size_extract]
      omega
    refine ⟨final, .inr ⟨hstopped, done, hlt, hboundary, h.rewritten ?_ hsize,
      fun sector hsector ↦ ?_⟩⟩
    · rw [hsame]
      exact hoverlays.extract
    · exact hoverlays.kept sector fun offset _ _ hoffset ↦ hsector (List.mem_of_getElem? hoffset)

/-! ## Transfers through a handle -/

namespace Handle

/-- The handle that a program goes on with after a sequential transfer: the one in memory at its
end, however it has ended. -/
def goingOn {α : Type} (handle : Handle) (transfer : InPlace Handle α) (drive : Drive) : Handle :=
  match transfer ⟨drive, handle⟩ with
  | .ok _ final => final.value
  | .error _ final => final.value

/-- A transfer that moves the handle last has not moved it where it is stopped. -/
theorem goingOn_of_stopped {α : Type} {handle : Handle} {transfer : InPlace Handle α}
    {drive final : Drive} {stop : Stop} (hcommits : transfer.Commits fun _ ↦ True)
    (h : transfer.using handle drive = .error stop final) :
    handle.goingOn transfer drive = handle := by
  rw [goingOn, hcommits.eq_error_of_using trivial h]

/-- How the transfers through a handle end, for a file of the given size on a drive that may refuse
any access. -/
structure Withstands (handle : Handle) (size : Nat) (drive : Drive) : Prop where
  size_content : (handle.node.content drive.disk.sector).size = size
  writeAt : ∀ position data, handle.node.WriteEnds position data drive.disk
    (handle.writeAt position data drive) (min data.size (size - position))
  readInto : ∀ position buffer, ReadEnds drive.disk (handle.readInto position buffer drive)
    (min buffer.size (size - position),
      (handle.node.content drive.disk.sector).extract position
          (position + min buffer.size (size - position)) ++
        buffer.extract (min buffer.size (size - position)) buffer.size)
  write : handle.position < Checked.wordLimit → ∀ data,
    handle.node.WriteEnds handle.position data drive.disk (handle.write data drive)
      (min data.size (size - handle.position),
        handle.seek (handle.position + min data.size (size - handle.position)))
  read : handle.position < Checked.wordLimit → ∀ count,
    ReadEnds drive.disk (handle.read count drive)
      ((handle.node.content drive.disk.sector).extract handle.position
          (handle.position + min count (size - handle.position)),
        handle.seek (handle.position + min count (size - handle.position)))
  write_position : ∀ data stop final, handle.write data drive = .error stop final →
    (handle.goingOn (InPlace.write data) drive).position = handle.position
  read_position : ∀ count stop final, handle.read count drive = .error stop final →
    (handle.goingOn (InPlace.read count) drive).position = handle.position

/-- Whatever accesses a disk refuses, a transfer through a handle on the root of an allocated tree
is carried out, or stopped with a prefix of the bytes written that ends with a sector, or stopped
with nothing changed if it reads. -/
theorem withstands_faults {size : Nat} {drive later : Drive} {map : FreeMap} {after : Space}
    {root : Node} {handle : Handle} (hclean : map.Clean) (hword : map.sectors ≤ 2 ^ 32)
    (hallocate : Node.allocate size ⟨drive, map⟩ = .ok root after) (hroot : handle.node = root)
    (hnodes : ∀ sector, root.Holds after.drive.disk.sector sector →
      later.disk.Shows after.drive.disk.sector sector)
    (hdata : ∀ leaf ∈ root.data after.drive.disk.sector, leaf < later.disk.sectorCount)
    (hmedium : later.disk.sectorCount * sectorSize ≤ later.disk.medium.size) :
    handle.Withstands size later := by
  subst hroot
  have htree := Node.allocated_of_ok hclean hword hallocate
  -- The same disk without its faults has the same sectors.
  have hserves : Drive.Serves ⟨later.disk.setFaults .none, #[]⟩ after.drive.disk.sector
      handle.node := ⟨rfl, fun sector hsector ↦
        ⟨(hnodes sector hsector).lt, (hnodes sector hsector).le_size,
          (hnodes sector hsector).sector_eq⟩⟩
  have hlaid := htree.laid hserves hdata
  change handle.node.Laid later.disk.sector later.disk.sectorCount at hlaid
  have haddress := htree.data_lt_word hserves hword
  change ∀ leaf ∈ handle.node.data later.disk.sector, leaf < 2 ^ 57 at haddress
  have hdrive : later.disk.Holds later.disk.sector later.disk.sectorCount := ⟨rfl, hmedium, rfl⟩
  have hlength : handle.length = size := htree.length_eq
  have hclamp (requested position : Nat) :
      handle.clamp requested position = min requested (size - position) := by
    rw [clamp, hlength]
  constructor
  case size_content =>
    rw [Node.size_content, ← length, hlength]
  case writeAt =>
    intro position data
    obtain ⟨writes, hrun, hpatches⟩ := hlaid.writeAt_delivers haddress position data
    rw [← hclamp]
    exact hlaid.writeEnds hmedium hrun hpatches
  case readInto =>
    intro position buffer
    have hrun := hlaid.readInto_performs haddress position buffer
    rw [hclamp] at hrun
    exact hrun.readEnds hdrive
  case write =>
    intro hposition data
    obtain ⟨writes, hrun, hpatches⟩ := hlaid.write_delivers haddress hposition data
    rw [← hclamp]
    exact hlaid.writeEnds hmedium hrun hpatches
  case read =>
    intro hposition count
    have hrun := hlaid.read_performs haddress hposition count
    rw [hclamp] at hrun
    exact hrun.readEnds hdrive
  case write_position =>
    intro data stop final hstopped
    rw [goingOn_of_stopped (commits_write data) hstopped]
  case read_position =>
    intro count stop final hstopped
    rw [goingOn_of_stopped (commits_read count) hstopped]

/-- A disk accepts one write: of `200` bytes at `3500`, the `84` up to the end of the first sector
are in place or none, and the position has not moved. -/
theorem withstands_faults_around_taken :
    ∃ root after final count, Node.allocate 3713
        ⟨⟨⟨⟨zeroBytes 8192⟩, 64, .none, .none, #[]⟩, #[]⟩, (FreeMap.blank 64).mark 1⟩ =
          .ok root after ∧
      let drive : Drive := ⟨after.drive.disk.setFaults (Disk.budget 1), #[]⟩
      let handle : Handle := ⟨1, root, 3500⟩
      handle.write ⟨.replicate 200 7⟩ drive = .error (.error (.device .injected)) final ∧
      (handle.goingOn (InPlace.write ⟨.replicate 200 7⟩) drive).position = 3500 ∧
      (count = 0 ∨ count = 84) ∧
      root.Interrupted 3500 count ⟨.replicate 200 7⟩ drive.disk final.disk := by
  have hclean : ((FreeMap.blank 64).mark 1).Clean :=
    (FreeMap.clean_blank 64).markAll (by decide : ∀ sector ∈ [1], sector < 64)
  obtain ⟨root, after, hallocate⟩ := Node.exists_allocate_around_taken
  have htree := Node.allocated_of_ok hclean (by decide) hallocate
  have hserves := htree.serves #[]
  have hcount : after.drive.disk.sectorCount = 64 := htree.sectorCount_eq
  have hsize : 8192 ≤ after.drive.disk.medium.size := (size_zeroBytes 8192).ge.trans htree.le_size
  have hlt : ∀ leaf ∈ root.data after.drive.disk.sector, leaf < 64 := by
    intro leaf hleaf
    rw [htree.data_eq] at hleaf
    exact htree.lt_sectors (Node.mem_below_iff.mpr (.inr hleaf))
  have hdata : ∀ leaf ∈ root.data after.drive.disk.sector, leaf < after.drive.disk.sectorCount := by
    rwa [hcount]
  have hmedium : after.drive.disk.sectorCount * sectorSize ≤ after.drive.disk.medium.size := by
    rw [hcount]
    exact hsize
  have hwithstands := @withstands_faults _ _
    ⟨after.drive.disk.setFaults (Disk.budget 1), #[]⟩ _ _ root ⟨1, root, 3500⟩ hclean (by decide)
    hallocate rfl (fun sector hsector ↦ ⟨(hserves.shows sector hsector).lt,
      (hserves.shows sector hsector).le_size, (hserves.shows sector hsector).sector_eq⟩) hdata hmedium
  have hlength : root.length.toNat = 3713 := htree.length_eq
  have hbytes : (⟨.replicate 200 7⟩ : ByteArray).size = 200 := by
    rw [ByteArray.size, Array.size_replicate]
  have hclamp : (⟨1, root, 3500⟩ : Handle).clamp 200 3500 = 200 := by
    rw [clamp, length, hlength]
    rfl
  -- The bytes lie in two sectors, so one write is not enough for them.
  have hlaid := htree.laid hserves hdata
  obtain ⟨writes, hrun, hpatches⟩ := @Node.Laid.write_performs _ _ ⟨1, root, 3500⟩ hlaid
    (htree.data_lt_word hserves (by decide)) (by decide : 3500 < Checked.wordLimit)
    ⟨.replicate 200 7⟩
  have hmore : 1 < writes.length := by
    have hlast := @Chunk.div_lt_of_lt_cut 3500 200 3699 (by decide) (by decide)
    rw [hpatches.length_eq, hbytes, hclamp]
    change 1 < (Chunk.cut 3500 200).length
    change 28 < 27 + _ at hlast
    omega
  obtain ⟨stopped, hstopped, -⟩ := @Performs.cut _ _ _ _ _ _ hrun
    ⟨after.drive.disk.setFaults (Disk.budget 1), #[]⟩ 1 ⟨rfl, hmedium, rfl⟩ rfl rfl hmore
  obtain ⟨final, ⟨hdone, -⟩ | ⟨hend, count, hinterrupted⟩⟩ := hwithstands.write
    (by decide : 3500 < Checked.wordLimit) ⟨.replicate 200 7⟩
  · rw [hstopped] at hdone
    cases hdone
  · refine ⟨root, after, final, count, hallocate, hend, hwithstands.write_position _ _ _ hend, ?_,
      hinterrupted⟩
    have hcounted := hinterrupted.lt
    have hboundary := hinterrupted.boundary
    rw [hbytes, hlength] at hcounted
    change count = 0 ∨ 128 ∣ 3500 + count at hboundary
    omega

end Handle

end SectorFS
