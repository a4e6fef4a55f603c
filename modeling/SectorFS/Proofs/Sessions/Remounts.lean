import SectorFS.Proofs.Sessions.Formatted

/-!
# Mounting again

A volume keeps the nodes of the two root files from the time it was formatted or mounted, while
its operations go on to write to the disk. Mounting the disk again reads these nodes anew. In
every session they are the ones the volume has kept, so a volume that is mounted again is the
old one with its table of open files emptied, over a disk that is the same to the byte.

From then on both go the same way, whatever they are asked for. This needs no well-formed disk:
bytes may even be written to a directory, and the two volumes fall into the same disorder.
-/

namespace SectorFS

variable {sectors : Nat} {session : Session} {call : Call}

/-- The volume with its table of open files emptied. -/
def Volume.closeAll (volume : Volume) : Volume :=
  { volume with table := Vector.replicate maxOpenFiles none }

/-! ## What is kept of the root files -/

namespace Session

/-- A call goes on with the root files as the volume has them, or with both of them at their
start. -/
theorem Effect.roots {answer : Answer} {volume : Volume} {writes : List Write}
    (h : session.Effect sectors call (.ok (answer, volume)) writes) :
    (volume.mapFile = session.volume.mapFile ∧ volume.rootFile = session.volume.rootFile) ∨
      (volume.mapFile.position = 0 ∧ volume.rootFile.position = 0) := by
  cases h with
  | remounted hmap hroot => exact .inr ⟨rfl, rfl⟩
  | created | removed | listed | handed | opened | read | written | closed | writtenAt =>
    exact .inl ⟨rfl, rfl⟩

/-- The root files are never moved. -/
theorem Reached.rewound (h : Reached sectors session) :
    session.volume.mapFile.position = 0 ∧ session.volume.rootFile.position = 0 := by
  induction h with
  | @format drive formatted volume hcount hsize hfaults hformat =>
    obtain ⟨height, hroom⟩ := formattable_of_format hcount hsize hfaults hformat
    obtain ⟨mapNode, rootNode, inner, hformatted⟩ := Volume.format_performs hroom
    obtain ⟨writes, hperforms, -⟩ := hformatted drive.disk.sector
    obtain ⟨final, hfinal, -⟩ := hperforms.run ⟨hcount, hsize, rfl⟩ hfaults
    obtain ⟨rfl, -⟩ := EStateM.Result.ok.inj (hfinal.symm.trans hformat)
    exact ⟨rfl, rfl⟩
  | @call session call hsession hpermits ih =>
    have hvalid := hsession.valid
    obtain ⟨outcome, writes, hrun, heffect⟩ | hlooks := hvalid.performed_of_permits hpermits
    · cases outcome with
      | error stop =>
        rw [hvalid.volume_of_stopped hrun]
        exact ih
      | ok result =>
        rw [hvalid.volume_of_performs hrun]
        obtain ⟨hmap, hroot⟩ | hstart := heffect.roots
        · rw [hmap, hroot]
          exact ih
        · exact hstart
    · obtain ⟨final, live, hstep, -⟩ := hlooks.step_eq
      rw [hstep]
      exact ih

/-- Mounting the disk of a session gives its volume without the open files, and leaves the disk
alike. -/
theorem Reached.mount_eq (h : Reached sectors session) :
    ∃ mounted, Volume.mount session.drive = .ok session.volume.closeAll mounted ∧
      session.drive.disk.Alike mounted.disk := by
  have hvalid := h.valid
  obtain ⟨hmapPosition, hrootPosition⟩ := h.rewound
  obtain ⟨hmapSector, -, hrootSector, -⟩ := hvalid.attached
  have hmapFile : (⟨freeMapSector, session.volume.mapFile.node, 0⟩ : Handle) =
      session.volume.mapFile := by
    rw [← hmapSector, ← hmapPosition]
  have hrootFile : (⟨rootSector, session.volume.rootFile.node, 0⟩ : Handle) =
      session.volume.rootFile := by
    rw [← hrootSector, ← hrootPosition]
  have hmap := hvalid.attached.intact_mapFile hvalid.whole
  have hroot := hvalid.attached.intact_rootFile hvalid.whole
  rw [hmapSector] at hmap
  rw [hrootSector] at hroot
  have hmount := Volume.mount_performs hmap hroot (Nat.le_of_lt hvalid.whole.sectors_lt)
  rw [hmapFile, hrootFile] at hmount
  obtain ⟨mounted, hmounted, halike⟩ := hmount.alike hvalid.holds hvalid.faults_eq
  exact ⟨mounted, hmounted, halike⟩

end Session

/-! ## What no call sees -/

/-- Every call is put together from requests. -/
theorem InPlace.Composed.carryOut (call : Call) : InPlace.Composed True call.carryOut := by
  cases call with
  | create text size =>
    exact current.bind fun volume ↦ (lift ((SectorFS.Composed.note _ _).bind fun _ ↦
      .createEntry trivial volume text size false)).bind fun _ ↦ pure _
  | createDirectory text =>
    exact current.bind fun volume ↦ (lift ((SectorFS.Composed.note _ _).bind fun _ ↦
      .createEntry trivial volume text directorySize true)).bind fun _ ↦ pure _
  | remove text => exact (remove trivial text).bind fun _ ↦ pure _
  | removeTree text => exact (removeTree trivial text).bind fun _ ↦ pure _
  | list text recursive =>
    exact current.bind fun volume ↦ (lift (.list volume text recursive)).bind fun _ ↦ pure _
  | openHandle text =>
    exact current.bind fun volume ↦ (lift (.openHandle volume text)).bind fun _ ↦ pure _
  | openFile text => exact (openFile text).bind fun _ ↦ pure _
  | read id count => exact (read id count).bind fun _ ↦ pure _
  | write id data => exact (write trivial id data).bind fun _ ↦ pure _
  | close id => exact (close id).bind fun _ ↦ pure _
  | readAt handle position count =>
    exact (lift (.readAt handle position count)).bind fun _ ↦ pure _
  | writeAt handle position data =>
    exact (lift (.writeAt trivial handle position data)).bind fun _ ↦ pure _
  | freeSectors => exact current.bind fun volume ↦ (lift (.freeSectors volume)).bind fun _ ↦ pure _
  | report => exact current.bind fun volume ↦ (lift (.report volume)).bind fun _ ↦ pure _
  | sync => exact (lift .sync).bind fun _ ↦ pure _
  | remount => exact (lift .mount).bind fun volume ↦ (assign volume).bind fun _ ↦ pure _

theorem Composed.perform (volume : Volume) (call : Call) : Composed True (call.perform volume) := by
  rw [← Call.using_carryOut]
  exact InPlace.Composed.carryOut call volume

namespace Session

/-- What calls return, one after the other. -/
def answers (session : Session) : List Call → List (Except Stop Answer)
  | [] => []
  | call :: rest => session.answer call :: (session.step call).answers rest

/-- The sessions have the same volume, over disks that refuse nothing and are alike. -/
structure Twins (left right : Session) : Prop where
  volume_eq : left.volume = right.volume
  alike : left.drive.disk.Alike right.drive.disk
  faults_eq : left.drive.disk.faults = .none

namespace Twins

variable {left right : Session}

/-- A call has the same answer in both sessions and leaves them twins. -/
theorem step (h : left.Twins right) (call : Call) :
    left.answer call = right.answer call ∧ (left.step call).Twins (right.step call) := by
  obtain ⟨outcome, first, second, hfirst, hsecond, halike, hfaults⟩ :=
    (Composed.perform left.volume call).blind left.drive right.drive h.alike h.faults_eq
  rw [answer, answer, Session.step_eq_resume, Session.step_eq_resume, ← h.volume_eq, hfirst,
    hsecond]
  cases outcome with
  | ok result => exact ⟨rfl, rfl, halike, hfaults⟩
  | error stop => exact ⟨rfl, h.volume_eq, halike, hfaults⟩

theorem run (h : left.Twins right) (calls : List Call) :
    left.answers calls = right.answers calls ∧ (left.run calls).Twins (right.run calls) := by
  induction calls generalizing left right with
  | nil => exact ⟨rfl, h⟩
  | cons call rest ih =>
    obtain ⟨hanswer, hstep⟩ := h.step call
    obtain ⟨hrest, hrun⟩ := ih hstep
    rw [answers, answers, hanswer, hrest]
    exact ⟨rfl, hrun⟩

end Twins

/-! ## Sessions -/

/-- In every session the disk can be mounted again. Then the calls that follow have the answers,
and leave the bytes on the medium, that they have and leave if the volume goes on with its table
emptied. -/
theorem Reached.remounting (h : Reached sectors session) :
    ∃ volume mounted, Volume.mount session.drive = .ok volume mounted ∧
      mounted.disk.medium = session.drive.disk.medium ∧
      ∀ calls : List Call,
        (begin mounted volume).answers calls =
          (begin session.drive session.volume.closeAll).answers calls ∧
        ((begin mounted volume).run calls).drive.disk.medium =
          ((begin session.drive session.volume.closeAll).run calls).drive.disk.medium := by
  obtain ⟨mounted, hmount, halike⟩ := h.mount_eq
  have htwins : (begin session.drive session.volume.closeAll).Twins
      (begin mounted session.volume.closeAll) := ⟨rfl, halike, h.valid.faults_eq⟩
  refine ⟨_, mounted, hmount, halike.medium_eq, fun calls ↦ ?_⟩
  obtain ⟨hanswers, hrun⟩ := htwins.run calls
  exact ⟨hanswers.symm, hrun.alike.medium_eq⟩

/-- A volume with an open file is mounted again, and the next calls do not tell. -/
theorem remounting_open : ∃ volume formatted, Volume.format (.blank 64) = .ok volume formatted ∧
    let session := (begin formatted volume).run [.create "/a" 300, .openFile "/a"]
    ∃ after mounted, Volume.mount session.drive = .ok after mounted ∧
      (begin mounted after).answers [.read 1 10, .createDirectory "/b", .openFile "/a", .report] =
        (begin session.drive session.volume.closeAll).answers
          [.read 1 10, .createDirectory "/b", .openFile "/a", .report] := by
  obtain ⟨volume, formatted, hformat, hreached, -⟩ := @exists_reached 64 0 ⟨by decide, by decide⟩
  have hpermits : (begin formatted volume).PermitsAll [.create "/a" 300, .openFile "/a"] :=
    ⟨trivial, trivial, trivial⟩
  obtain ⟨after, mounted, hmount, -, hsame⟩ := Reached.remounting (hreached.run hpermits)
  exact ⟨volume, formatted, hformat, after, mounted, hmount, (hsame _).1⟩

end Session

end SectorFS
