import SectorFS.Proofs.Sessions.OpenFiles

/-!
# Sessions on sound images

As long as the image is sound and the files of the table are intact, what a call does is
determined by the content of the disk: the outcome of a call and its writes are those that
the operations perform. This does not depend on whether the map marks more than the owned
sectors, nor on whether an open file can still be reached by a path.
-/

namespace SectorFS

variable {sectors : Nat} {session : Session} {call : Call}

/-- The disk refuses nothing and its image is sound, the volume keeps the nodes of the root files,
and the open files and the live files are intact. -/
structure Session.Mounted (session : Session) (sectors : Nat) : Prop where
  holds : session.drive.disk.Holds session.image sectors
  faults_eq : session.drive.disk.faults = .none
  whole : session.image.Sound sectors
  attached : session.volume.Attached session.image
  carries : ∀ (index : Fin maxOpenFiles) (handle : Handle),
    session.volume.table[index] = some handle → session.image.Carries sectors handle
  live : ∀ file ∈ session.live, session.image.HasFile file.1 ∧
    session.image.node? file.1 = some file.2

namespace Session.Mounted

theorem covered (h : session.Mounted sectors) : session.volume.Covered sectors :=
  fun index handle hslot ↦ (h.carries index handle hslot).intact.self_lt

/-- A file that is live is intact, with the node it was opened with. -/
theorem intact_of_live (h : session.Mounted sectors) {sector : Nat} {node : Node}
    (hlive : (sector, node) ∈ session.live) :
    session.image.HasFile sector ∧ session.image.Intact sectors sector node := by
  obtain ⟨⟨place, hplace⟩, hnode⟩ := h.live _ hlive
  obtain ⟨found, hintact⟩ := h.whole.intact_item hplace
  obtain rfl := Option.some.inj (hnode.symm.trans hintact.node_eq)
  exact ⟨⟨place, hplace⟩, hintact⟩

/-! ## Outcomes -/

/-- The outcome of a call on a disk that refuses nothing is the answer of the session. -/
theorem answer_of_performs (h : session.Mounted sectors)
    {outcome : Except Stop (Answer × Volume)} {writes : List Write}
    (hrun : Performs (call.perform session.volume) session.image sectors outcome writes) :
    session.answer call = outcome.map Prod.fst := by
  obtain ⟨final, hfinal, -, -⟩ := hrun.run h.holds h.faults_eq
  rw [answer, hfinal]
  cases outcome with
  | error stop => rfl
  | ok result => rfl

/-- Paths are resolved by the tables on the disk. -/
theorem resolve_eq (h : session.Mounted sectors) (text : String) :
    session.resolve text = (session.image.locate text).mapError .error := by
  obtain ⟨final, hfinal, -, -⟩ :=
    (Volume.resolve_performs h.attached h.whole text).run h.holds h.faults_eq
  rw [resolve, hfinal]
  cases session.image.locate text <;> rfl

theorem resolve_eq_ok (h : session.Mounted sectors) {text : String} {target : Target} :
    session.resolve text = .ok target ↔ session.image.locate text = .ok target := by
  rw [h.resolve_eq]
  cases session.image.locate text <;> simp [Except.mapError]

theorem resolve_eq_error (h : session.Mounted sectors) {text : String} {cause : Error} :
    session.resolve text = .error (.error cause) ↔ session.image.locate text = .error cause := by
  rw [h.resolve_eq]
  cases session.image.locate text <;> simp [Except.mapError]

/-- The volume that a call returns is the one that the session goes on with. -/
theorem volume_of_performs (h : session.Mounted sectors) {answer : Answer} {volume : Volume}
    {writes : List Write}
    (hrun : Performs (call.perform session.volume) session.image sectors (.ok (answer, volume))
      writes) : (session.step call).volume = volume := by
  obtain ⟨final, hfinal, -, -⟩ := hrun.run h.holds h.faults_eq
  rw [Session.step_eq_resume, hfinal]
  rfl

/-- A call that is stopped leaves the volume as it was. -/
theorem volume_of_stopped (h : session.Mounted sectors) {stop : Stop} {writes : List Write}
    (hrun : Performs (call.perform session.volume) session.image sectors (.error stop) writes) :
    (session.step call).volume = session.volume := by
  obtain ⟨final, hfinal, -, -⟩ := hrun.run h.holds h.faults_eq
  rw [Session.step_eq_resume, hfinal]
  rfl

/-- The writes of a call are what it leaves on the disk. -/
theorem image_of_performs (h : session.Mounted sectors)
    {outcome : Except Stop (Answer × Volume)} {writes : List Write}
    (hrun : Performs (call.perform session.volume) session.image sectors outcome writes) :
    (session.step call).image = session.image.putAll writes := by
  obtain ⟨final, hfinal, hholds, -⟩ := hrun.run h.holds h.faults_eq
  rw [Session.step_eq_resume, hfinal, image]
  cases outcome with
  | error stop => exact hholds.sector_eq
  | ok result => exact hholds.sector_eq

/-! ## Creations -/

/-- A creation that the image does not admit is refused. -/
theorem create_refused_performs (h : session.Mounted sectors) {text : String} {size : Nat}
    {isDirectory : Bool} (hcall : call.Creates text size isDirectory)
    (hnot : ∀ path, Path.parse text = .ok path → ¬ ∃ parent directory name index height,
      session.image.Admits sectors path size parent directory name index height) :
    Performs (call.perform session.volume) session.image sectors
      (.error (.error (session.image.creationRefusal sectors text))) [] := by
  obtain ⟨severity, noted, hperform⟩ := hcall.perform_eq session.volume
  rw [hperform]
  exact (Performs.note _ _).step
    (Volume.createEntry_refused h.attached h.whole text size isDirectory hnot).stop

/-- A creation is carried out if the image admits it, and refused if it does not. -/
theorem create_performs (h : session.Mounted sectors) {text : String} {size : Nat}
    {isDirectory : Bool} (hcall : call.Creates text size isDirectory) :
    (∃ path parent directory name index height sector node fresh table map,
      Path.parse text = .ok path ∧
      session.image.Admits sectors path size parent directory name index height ∧
      Performs (call.perform session.volume) session.image sectors (.ok (.done, session.volume))
        (fresh ++ (table ++ map)) ∧
      session.image.Created sectors directory index name size isDirectory height sector node fresh
        table map) ∨
    ((∀ path, Path.parse text = .ok path → ¬ ∃ parent directory name index height,
        session.image.Admits sectors path size parent directory name index height) ∧
      ∃ cause : Error, cause.IsRefusal ∧ Performs (call.perform session.volume) session.image
        sectors (.error (.error cause)) []) := by
  by_cases hadmitted : ∃ path, Path.parse text = .ok path ∧ ∃ parent directory name index height,
      session.image.Admits sectors path size parent directory name index height
  · obtain ⟨path, hparse, parent, directory, name, index, height, hadmits⟩ := hadmitted
    obtain ⟨sector, node, inner, hplanned⟩ := Node.exists_planned hadmits.height_eq h.whole.clean
      (Image.Sound.sectors_freeMap _ sectors) h.whole.sectors_lt hadmits.room
    obtain ⟨fresh, table, map, hrun, hcreated, -⟩ :=
      Volume.createEntry_created h.attached h.whole hparse hadmits hplanned hcall.size_eq
    obtain ⟨severity, noted, hperform⟩ := hcall.perform_eq session.volume
    refine .inl ⟨path, parent, directory, name, index, height, sector, node, fresh, table, map,
      hparse, hadmits, ?_, hcreated⟩
    rw [hperform, ← List.append_nil (fresh ++ (table ++ map))]
    exact (Performs.note _ _).step (hrun.bind (Performs.pure _))
  · have hnot (path : Path) (hparse : Path.parse text = .ok path)
        (hadmits : ∃ parent directory name index height,
          session.image.Admits sectors path size parent directory name index height) : False :=
      hadmitted ⟨path, hparse, hadmits⟩
    exact .inr ⟨hnot, _, session.image.isRefusal_creationRefusal sectors text,
      h.create_refused_performs hcall hnot⟩

/-- Done or refused, a creation opens and closes nothing. -/
theorem volume_of_creates (h : session.Mounted sectors) {text : String} {size : Nat}
    {isDirectory : Bool} (hcall : call.Creates text size isDirectory) :
    (session.step call).volume = session.volume := by
  obtain ⟨_, _, _, _, _, _, _, _, _, _, _, -, -, hrun, -⟩ | ⟨-, cause, -, hrun⟩ :=
    h.create_performs hcall
  · exact h.volume_of_performs hrun
  · exact h.volume_of_stopped hrun

/-! ## Opening -/

/-- A file is opened into the first place of the table that is free, at its start, or it is refused
because its path leads nowhere or because there is no such place. -/
theorem openFile_performs (h : session.Mounted sectors) (text : String) :
    (∃ cause : Error, cause.IsRefusal ∧
        (session.image.locate text = .error cause ∨
          (∃ target, session.image.locate text = .ok target) ∧ cause = .tooManyOpenFiles ∧
            ∀ index : Fin maxOpenFiles, session.volume.table[index].isNone = false) ∧
        Performs ((Call.openFile text).perform session.volume) session.image sectors
          (.error (.error cause)) []) ∨
      ∃ handle target index, session.image.locate text = .ok target ∧ handle.AtStart target ∧
        session.image.Serves handle ∧ session.volume.table[index] = none ∧
        (∀ other < index, session.volume.table[other].isNone = false) ∧
        Performs ((Call.openFile text).perform session.volume) session.image sectors
          (.ok (.identifier (index.val + 1), session.volume.setSlot index (some handle))) [] := by
  obtain ⟨cause, hcause, hstop, hrun⟩ | ⟨handle, target, index, hlocate, hstart, hserves, hnone,
    hbefore, hrun⟩ := Volume.openFile_performs h.attached h.whole text
  · exact .inl ⟨cause, hcause, hstop, hrun.stop⟩
  · exact .inr ⟨handle, target, index, hlocate, hstart, hserves, hnone, hbefore,
      hrun.step (Performs.pure _)⟩

/-! ## Reading and writing -/

/-- A read from the table returns the bytes at the position of the file. -/
theorem read_performs (h : session.Mounted sectors) {id : Nat} {index : Fin maxOpenFiles}
    {handle : Handle} (hslot : session.volume.slot? id = some (index, handle)) (count : Nat) :
    Performs ((Call.read id count).perform session.volume) session.image sectors
      (.ok (.bytes ((session.image.content handle.sector).extract handle.position
          (handle.position + handle.clamp count handle.position)),
        session.volume.setSlot index
          (some (handle.seek (handle.position + handle.clamp count handle.position))))) [] := by
  have hcarries := h.carries index handle (Volume.table_of_slot? hslot).1
  have hfound : session.volume.slot id = .ok (index, handle) := by
    rw [Volume.slot, hslot]
  have hread : Performs (session.volume.read id count) session.image sectors
      (.ok ((session.image.content handle.sector).extract handle.position
          (handle.position + handle.clamp count handle.position),
        session.volume.setSlot index
          (some (handle.seek (handle.position + handle.clamp count handle.position))))) [] := by
    rw [Volume.read_eq, hfound]
    exact (Performs.pure (index, handle)).step
      ((hcarries.read_performs (Nat.le_of_lt h.whole.sectors_lt) count).step (Performs.pure _))
  exact hread.step (Performs.pure _)

/-- A write to the table puts bytes over those of the file from its position on. -/
theorem write_performs (h : session.Mounted sectors) {id : Nat} {index : Fin maxOpenFiles}
    {handle : Handle} (hslot : session.volume.slot? id = some (index, handle)) (data : ByteArray) :
    ∃ writes, Performs ((Call.write id data).perform session.volume) session.image sectors
        (.ok (.count (handle.clamp data.size handle.position), session.volume.setSlot index
          (some (handle.seek (handle.position + handle.clamp data.size handle.position))))) writes ∧
      session.image.Overwrites handle.sector handle.position data writes := by
  have hcarries := h.carries index handle (Volume.table_of_slot? hslot).1
  have hfound : session.volume.slot id = .ok (index, handle) := by
    rw [Volume.slot, hslot]
  obtain ⟨writes, hrun, hsplices⟩ :=
    hcarries.write_performs (Nat.le_of_lt h.whole.sectors_lt) data
  have hwrite : Performs (session.volume.write id data) session.image sectors
      (.ok (handle.clamp data.size handle.position, session.volume.setSlot index
        (some (handle.seek (handle.position + handle.clamp data.size handle.position))))) writes := by
    rw [Volume.write_eq, hfound, ← List.append_nil writes]
    exact (Performs.pure (index, handle)).step (hrun.bind (Performs.pure _))
  refine ⟨writes, ?_, hsplices⟩
  rw [← List.append_nil writes]
  exact hwrite.bind (Performs.pure _)

theorem writeAt_performs (h : session.Mounted sectors) {handle : Handle}
    (hintact : session.image.Intact sectors handle.sector handle.node) (position : Nat)
    (data : ByteArray) :
    ∃ writes, Performs ((Call.writeAt handle position data).perform session.volume) session.image
        sectors (.ok (.count (handle.clamp data.size position), session.volume)) writes ∧
      session.image.Overwrites handle.sector position data writes := by
  obtain ⟨writes, hrun, hsplices⟩ := Handle.writeAt_overwrites hintact
    (Nat.le_of_lt h.whole.sectors_lt) position data
  exact ⟨writes, hrun.map fun count ↦ (Answer.count count, session.volume), hsplices⟩

/-! ## Closing and mounting -/

theorem close_performs {id : Nat} {index : Fin maxOpenFiles} {handle : Handle}
    (hslot : session.volume.slot? id = some (index, handle)) :
    Performs ((Call.close id).perform session.volume) session.image sectors
      (.ok (.done, session.volume.setSlot index none)) [] := by
  rw [Call.perform, Volume.close_eq, Volume.slot, hslot]
  exact (Performs.pure _).step (Performs.pure _)

/-- Mounting goes on with the nodes of the two root files and an empty table. -/
theorem remount_performs (h : session.Mounted sectors) :
    ∃ mapNode rootNode, session.image.node? freeMapSector = some mapNode ∧
      session.image.node? rootSector = some rootNode ∧
      Performs (Call.remount.perform session.volume) session.image sectors
        (.ok (.done, .withRoots ⟨freeMapSector, mapNode, 0⟩ ⟨rootSector, rootNode, 0⟩)) [] := by
  obtain ⟨mapNode, hmap⟩ := h.whole.intact_map
  obtain ⟨rootNode, hroot⟩ := h.whole.intact_item session.image.targetAt_nil
  have hmount := Volume.mount_performs hmap hroot (Nat.le_of_lt h.whole.sectors_lt)
  exact ⟨mapNode, rootNode, hmap.node_eq, hroot.node_eq,
    hmount.map fun volume ↦ (Answer.done, volume)⟩

theorem image_remount (h : session.Mounted sectors) :
    (session.step .remount).image = session.image := by
  obtain ⟨mapNode, rootNode, -, -, hrun⟩ := h.remount_performs
  rw [h.image_of_performs hrun, Image.putAll_nil]

end Session.Mounted

end SectorFS
