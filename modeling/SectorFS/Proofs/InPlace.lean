import SectorFS.Volume.Removal
import SectorFS.Proofs.Memory

/-!
# The operations that change a value in memory

For each operation on a handle or on a volume, what it is as an operation on the drive
(`Handle.read_eq` and its like), and that it commits: the handle and the volume change after
everything that can fail, so an operation that is stopped leaves them as they were. The closing
of dead files, at the end of a removal, works on the table place by place. There a trap leaves
the places before it changed, and only errors are spoken of.
-/

namespace SectorFS

/-! ## Maps -/

namespace FreeMap

theorem load_eq (sectors : Nat) (file : Handle) :
    load sectors file = do
      let count ← checkedByteCount sectors
      let bytes ← file.readAt 0 count
      return ofBytes sectors bytes := by
  simp only [load, reload, InPlace.after_current_bind, InPlace.after_liftTrap_bind,
    InPlace.after_lift_bind, InPlace.after_assign]
  rfl

/-- The map in memory only says how many sectors there are. -/
theorem using_reload (file : Handle) (old : FreeMap) :
    (reload file).using old = do return ((), ← load old.sectors file) := by
  simp only [reload, load_eq, InPlace.using_current_bind, InPlace.using_liftTrap_bind,
    InPlace.using_lift_bind, bind_assoc, pure_bind]
  rfl

theorem commits_reload {kind : Stop → Prop} (file : Handle) : (reload file).Commits kind := by
  refine .bind .current fun map ↦ .bind (.liftTrap _) fun count ↦ .bind (.lift _) fun bytes ↦ ?_
  exact (InPlace.Certain.assign _).commits

end FreeMap

/-! ## Handles -/

namespace Handle

theorem read_eq (handle : Handle) (count : Nat) :
    handle.read count = do
      let bytes ← handle.readAt handle.position count
      let moved ← handle.advance bytes.size
      return (bytes, moved) := by
  simp only [read, InPlace.read, InPlace.using_current_bind, InPlace.using_lift_bind,
    InPlace.using_liftTrap_bind, InPlace.using_assign_bind]
  rfl

theorem write_eq (handle : Handle) (data : ByteArray) :
    handle.write data = do
      let count ← handle.writeAt handle.position data
      let moved ← handle.advance count
      return (count, moved) := by
  simp only [write, InPlace.write, InPlace.using_current_bind, InPlace.using_lift_bind,
    InPlace.using_liftTrap_bind, InPlace.using_assign_bind]
  rfl

variable {kind : Stop → Prop}

/-- The position moves once the bytes are read. -/
theorem commits_read (count : Nat) : (InPlace.read count).Commits kind := by
  refine .bind .current fun handle ↦ .bind (.lift _) fun bytes ↦ .bind (.liftTrap _) fun moved ↦ ?_
  exact (InPlace.Certain.assign moved).commits.followed fun _ ↦ .pure bytes

/-- The position moves once the bytes are written. -/
theorem commits_write (data : ByteArray) : (InPlace.write data).Commits kind := by
  refine .bind .current fun handle ↦ .bind (.lift _) fun count ↦ .bind (.liftTrap _) fun moved ↦ ?_
  exact (InPlace.Certain.assign moved).commits.followed fun _ ↦ .pure count

end Handle

/-! ## Open files -/

namespace Volume

variable {α : Type} {kind : Stop → Prop} {volume : Volume} {id : Nat} {index : Fin maxOpenFiles}
  {handle : Handle}

/-! ### The table -/

theorem table_setSlot (volume : Volume) (index place : Fin maxOpenFiles) (content : Option Handle) :
    (volume.setSlot index content).table[place] =
      if place = index then content else volume.table[place] := by
  rw [setSlot, getElem_position, getElem_position, Vector.getElem_set]
  simp only [Fin.ext_iff, eq_comm]

theorem table_of_slot? (h : volume.slot? id = some (index, handle)) :
    volume.table[index] = some handle ∧ id = index + 1 := by
  rw [slot?] at h
  split at h
  · obtain ⟨found, hfound, heq⟩ := Option.map_eq_some_iff.mp h
    obtain ⟨rfl, rfl⟩ := Prod.mk.inj heq
    exact ⟨hfound, by simp only; omega⟩
  · contradiction

theorem slot_eq_ok : volume.slot id = .ok (index, handle) ↔
    volume.slot? id = some (index, handle) := by
  rw [slot]
  cases volume.slot? id <;> simp

/-- Putting back what is there changes nothing. -/
theorem setSlot_self {content : Option Handle} (h : volume.table[index] = content) :
    volume.setSlot index content = volume := by
  rw [setSlot, ← h, getElem_position, Vector.set_getElem_self]

/-! ### As operations on the drive -/

/-- An operation on a handle of the table is one on the handle alone, which is then put back. -/
theorem using_onSlot (volume : Volume) (index : Fin maxOpenFiles) (handle : Handle)
    (operation : InPlace Handle α) :
    (onSlot index handle operation).using volume = do
      let (result, moved) ← operation.using handle
      return (result, volume.setSlot index (some moved)) := by
  funext drive
  show _ = EStateM.bind (operation.using handle) _ drive
  simp only [InPlace.using, EStateM.bind, onSlot]
  cases operation ⟨drive, handle⟩ <;> rfl

theorem openFile_eq (volume : Volume) (text : String) :
    volume.openFile text = do
      let handle ← volume.openHandle text
      match volume.table.findFinIdx? (·.isNone) with
      | none => fail .tooManyOpenFiles
      | some index => return (index + 1, volume.setSlot index (some handle)) := by
  rw [openFile, InPlace.openFile, InPlace.using_current_bind, InPlace.using_lift_bind]
  refine bind_congr fun handle ↦ ?_
  cases volume.table.findFinIdx? (·.isNone) <;> rfl

theorem read_eq (volume : Volume) (id count : Nat) :
    volume.read id count = do
      let (index, handle) ← volume.slot id
      let (bytes, handle) ← handle.read count
      return (bytes, volume.setSlot index (some handle)) := by
  simp only [read, InPlace.read, InPlace.using_current_bind, InPlace.using_liftError_bind,
    using_onSlot]
  rfl

theorem write_eq (volume : Volume) (id : Nat) (data : ByteArray) :
    volume.write id data = do
      let (index, handle) ← volume.slot id
      let (count, handle) ← handle.write data
      return (count, volume.setSlot index (some handle)) := by
  simp only [write, InPlace.write, InPlace.using_current_bind, InPlace.using_liftError_bind,
    using_onSlot]
  rfl

theorem close_eq (volume : Volume) (id : Nat) :
    volume.close id = do
      let (index, _) ← volume.slot id
      return volume.setSlot index none := by
  rw [close, InPlace.close, InPlace.after_current_bind]
  cases volume.slot id <;> rfl

theorem commits_openFile (text : String) : (InPlace.openFile text).Commits kind := by
  refine .bind .current fun volume ↦ .bind (.lift _) fun handle ↦ ?_
  split
  · exact (InPlace.Looks.fail _).commits
  · exact (InPlace.Certain.assign _).commits.followed fun _ ↦ .pure _

/-- A handle that is put back as it was changes nothing. -/
theorem commits_onSlot {operation : InPlace Handle α} (h : operation.Commits kind) (id : Nat) :
    InPlace.Commits kind (do
      let (index, handle) ← (← InPlace.current).slot id
      onSlot index handle operation) := by
  rintro ⟨drive, volume⟩ stop final hrun hkind
  change (liftM (volume.slot id) >>= fun found ↦ onSlot found.1 found.2 operation)
    ⟨drive, volume⟩ = _ at hrun
  cases hslot : volume.slot id with
  | error cause =>
    rw [hslot] at hrun
    obtain ⟨-, rfl⟩ := EStateM.Result.error.inj hrun
    rfl
  | ok found =>
    rw [hslot] at hrun
    change onSlot found.1 found.2 operation ⟨drive, volume⟩ = _ at hrun
    rw [onSlot] at hrun
    cases hend : operation ⟨drive, found.2⟩ with
    | ok result reached =>
      rw [hend] at hrun
      contradiction
    | error cause reached =>
      rw [hend] at hrun
      obtain ⟨rfl, rfl⟩ := EStateM.Result.error.inj hrun
      have hkept : reached.value = found.2 := h _ _ _ hend hkind
      show volume.setSlot found.1 (some reached.value) = volume
      rw [hkept]
      exact setSlot_self (table_of_slot? (slot_eq_ok.mp hslot)).1

theorem commits_read (id count : Nat) : (InPlace.read id count).Commits kind :=
  commits_onSlot (Handle.commits_read count) id

theorem commits_write (id : Nat) (data : ByteArray) : (InPlace.write id data).Commits kind :=
  commits_onSlot (Handle.commits_write data) id

theorem commits_close (id : Nat) : (InPlace.close id).Commits kind := by
  refine .bind .current fun volume ↦ .bind (.liftError _) fun found ↦ ?_
  exact (InPlace.Certain.assign _).commits

/-! ## Removals -/

theorem unlink_eq (volume : Volume) (parentAt : Nat) (name : String) (map : FreeMap) :
    volume.unlink parentAt name map = (do
      let parentFile ← Handle.fetch parentAt
      let parent ← Directory.ofFile parentFile
      let parent ← parent.remove name
      parent.store parentFile
      map.store volume.mapFile
      volume.closeDead map) := by
  simp only [unlink, InPlace.unlink, InPlace.after_lift_bind, InPlace.after_liftError_bind,
    InPlace.after_current_bind, closeDead]

theorem using_closeIfDead (volume : Volume) (map : FreeMap) (index : Fin maxOpenFiles) :
    (InPlace.closeIfDead map index).using volume =
      match volume.table[index] with
      | none => return ((), volume)
      | some handle => do
        if ← isDead map handle then
          Drive.note .debug
            ("Closing open file " ++ toString (index.val + 1) ++ " of a removed file")
          return ((), volume.setSlot index none)
        else
          return ((), volume) := by
  rw [InPlace.closeIfDead, InPlace.using_current_bind]
  cases volume.table[index] with
  | none => rfl
  | some handle =>
    dsimp only
    rw [InPlace.using_liftTrap_bind]
    refine bind_congr fun dead ↦ ?_
    cases dead <;> rfl

/-- Closing the dead files can only trap. -/
theorem certain_closeDead (map : FreeMap) : (InPlace.closeDead map).Certain Stop.IsError := by
  refine .listForM (fun index ↦ .bind .current fun volume ↦ ?_) _
  split
  · exact .pure ()
  · refine .bind (.liftTrap _) fun isDead ↦ ?_
    split
    · exact .bind (.note _ _) fun _ ↦ .assign _
    · exact .pure ()

/-- Files are closed once everything is written. -/
theorem commits_unlink (parentAt : Nat) (name : String) (map : FreeMap) :
    (InPlace.unlink parentAt name map).Commits Stop.IsError := by
  refine .bind (.lift _) fun parentFile ↦ .bind (.lift _) fun parent ↦ .bind (.liftError _)
    fun left ↦ .bind (.lift _) fun _ ↦ .bind .current fun volume ↦ .bind (.lift _) fun _ ↦ ?_
  exact (certain_closeDead map).commits

theorem commits_discard (path : Path) (name : String) (parentAt : Nat) (target : Target) :
    (InPlace.discard path name parentAt target).Commits Stop.IsError := by
  refine .bind .current fun volume ↦ .bind (.lift _) fun map ↦ .bind (.lift _) fun _ ↦
    .bind (.lift _) fun released ↦ ?_
  exact (commits_unlink _ _ _).followed fun _ ↦ .note _ _

theorem commits_remove (text : String) : (InPlace.remove text).Commits Stop.IsError := by
  refine .bind (.lift _) fun path ↦ ?_
  split
  · exact (InPlace.Looks.fail _).commits
  · refine .bind .current fun volume ↦ .bind (.lift _) fun root ↦ .bind (.lift _) fun target ↦
      .bind (.lift _) fun parentAt ↦ ?_
    split
    · refine .bind (.lift _) fun directory ↦ ?_
      split
      · exact .bind (.fail _) fun _ ↦ commits_discard _ _ _ _
      · exact commits_discard _ _ _ _
    · exact commits_discard _ _ _ _

theorem commits_removeTree (text : String) : (InPlace.removeTree text).Commits Stop.IsError := by
  refine .bind (.lift _) fun path ↦ ?_
  split
  · exact (InPlace.Looks.fail _).commits
  · refine .bind .current fun volume ↦ .bind (.lift _) fun root ↦ .bind (.lift _) fun target ↦ ?_
    split
    · refine .bind (.lift _) fun parentAt ↦ .bind (.lift _) fun map ↦ .bind (.lift _)
        fun released ↦ ?_
      exact (commits_unlink _ _ _).followed fun _ ↦ .note _ _
    · exact commits_remove text

end Volume

end SectorFS
