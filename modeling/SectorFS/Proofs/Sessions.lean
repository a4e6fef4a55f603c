import SectorFS.Proofs.InPlace
import SectorFS.Proofs.Places
import Mathlib.Data.Set.Defs

/-!
# Sessions

A session is a mounted volume in use: its drive, and what the programs hold that opened
files on it. It takes one call after the other, and each works on the volume in memory. A
call that fails leaves the drive and the volume as it has reached them; mounting the disk
again is a call as well. That the volume is then the one from before the call is proved
(`Call.commits`), so what a call does can be said of the volume as a value (`Call.perform`,
`Session.step_eq_resume`).

Programs keep the handles that they opened, whatever happens to the files, and a handle on a
file that was removed leads to sectors that may belong to other files by now. So a session
keeps a record of the regular files that were opened and have not been removed since, and a
call that writes is permitted only if it goes to one of these.
-/

namespace SectorFS

/-! ## Calls -/

/-- What a program asks of a volume. -/
inductive Call where
  | create (text : String) (size : Nat)
  | createDirectory (text : String)
  | remove (text : String)
  | removeTree (text : String)
  | list (text : String) (recursive : Bool)
  | openHandle (text : String)
  | openFile (text : String)
  | read (id count : Nat)
  | write (id : Nat) (data : ByteArray)
  | close (id : Nat)
  | readAt (handle : Handle) (position count : Nat)
  | writeAt (handle : Handle) (position : Nat) (data : ByteArray)
  | freeSectors
  | report
  | sync
  | remount

/-- What a call that does not stop returns. -/
inductive Answer where
  | done
  | listing (lines : List Listed)
  | handle (handle : Handle)
  | identifier (id : Nat)
  | bytes (bytes : ByteArray)
  | count (count : Nat)
  | text (text : String)

/-- Carries out a call on the volume in memory. -/
def Call.carryOut : Call → InPlace Volume Answer
  | .create text size => do
    (← InPlace.current).create text size
    return .done
  | .createDirectory text => do
    (← InPlace.current).createDirectory text
    return .done
  | .remove text => do
    Volume.InPlace.remove text
    return .done
  | .removeTree text => do
    Volume.InPlace.removeTree text
    return .done
  | .list text recursive => do return .listing (← (← InPlace.current).list text recursive)
  | .openHandle text => do return .handle (← (← InPlace.current).openHandle text)
  | .openFile text => do return .identifier (← Volume.InPlace.openFile text)
  | .read id count => do return .bytes (← Volume.InPlace.read id count)
  | .write id data => do return .count (← Volume.InPlace.write id data)
  | .close id => do
    Volume.InPlace.close id
    return .done
  | .readAt handle position count => do return .bytes (← handle.readAt position count)
  | .writeAt handle position data => do return .count (← handle.writeAt position data)
  | .freeSectors => do return .count (← (← InPlace.current).freeSectors)
  | .report => do return .text (← (← InPlace.current).report)
  | .sync => do
    Drive.sync
    return .done
  | .remount => do
    InPlace.assign (← Volume.mount)
    return .done

/-- What a call does with a volume. The volume that is returned is the one to go on with. -/
def Call.perform (volume : Volume) : Call → Action (Answer × Volume)
  | .create text size => do
    volume.create text size
    return (.done, volume)
  | .createDirectory text => do
    volume.createDirectory text
    return (.done, volume)
  | .remove text => do return (.done, ← volume.remove text)
  | .removeTree text => do return (.done, ← volume.removeTree text)
  | .list text recursive => do return (.listing (← volume.list text recursive), volume)
  | .openHandle text => do return (.handle (← volume.openHandle text), volume)
  | .openFile text => do
    let (id, volume) ← volume.openFile text
    return (.identifier id, volume)
  | .read id count => do
    let (bytes, volume) ← volume.read id count
    return (.bytes bytes, volume)
  | .write id data => do
    let (count, volume) ← volume.write id data
    return (.count count, volume)
  | .close id => do return (.done, ← volume.close id)
  | .readAt handle position count => do
    return (.bytes (← handle.readAt position count), volume)
  | .writeAt handle position data => do
    return (.count (← handle.writeAt position data), volume)
  | .freeSectors => do return (.count (← volume.freeSectors), volume)
  | .report => do return (.text (← volume.report), volume)
  | .sync => do
    Drive.sync
    return (.done, volume)
  | .remount => do return (.done, ← Volume.mount)

theorem Call.using_carryOut (call : Call) (volume : Volume) :
    call.carryOut.using volume = call.perform volume := by
  cases call with
  | remove text | removeTree text | close id =>
    simp only [carryOut, perform, InPlace.using_bind, Volume.remove, Volume.removeTree,
      Volume.close, InPlace.after, bind_assoc]
    rfl
  | openFile text | read id count | write id data =>
    simp only [carryOut, perform, InPlace.using_bind]
    rfl
  | _ =>
    simp only [carryOut, perform, InPlace.using_current_bind, InPlace.using_lift_bind]
    rfl

/-- A call that fails has not changed the volume. -/
theorem Call.commits (call : Call) : call.carryOut.Commits Stop.IsError := by
  cases call with
  | create text size | createDirectory text | list text recursive | openHandle text | freeSectors
  | report =>
    exact .bind .current fun volume ↦ .bind (.lift _) fun _ ↦ (InPlace.Looks.pure _).commits
  | readAt handle position count | writeAt handle position data | sync =>
    exact .bind (.lift _) fun _ ↦ (InPlace.Looks.pure _).commits
  | remove text => exact (Volume.commits_remove text).followed fun _ ↦ .pure _
  | removeTree text => exact (Volume.commits_removeTree text).followed fun _ ↦ .pure _
  | openFile text => exact (Volume.commits_openFile text).followed fun _ ↦ .pure _
  | read id count => exact (Volume.commits_read id count).followed fun _ ↦ .pure _
  | write id data => exact (Volume.commits_write id data).followed fun _ ↦ .pure _
  | close id => exact (Volume.commits_close id).followed fun _ ↦ .pure _
  | remount =>
    exact .bind (.lift _) fun volume ↦ (InPlace.Certain.assign volume).commits.followed fun _ ↦
      .pure _

/-- The call creates a file of a size, or a directory, at a path. -/
inductive Call.Creates : Call → String → Nat → Bool → Prop
  | file (text : String) (size : Nat) : Creates (.create text size) text size false
  | directory (text : String) : Creates (.createDirectory text) text directorySize true

theorem Call.Creates.size_eq {call : Call} {text : String} {size : Nat} {isDirectory : Bool}
    (h : call.Creates text size isDirectory) : isDirectory = true → size = directorySize := by
  cases h with
  | file text size => exact nofun
  | directory text => exact fun _ ↦ rfl

theorem Call.Creates.perform_eq {call : Call} {text : String} {size : Nat} {isDirectory : Bool}
    (h : call.Creates text size isDirectory) (volume : Volume) :
    ∃ severity noted, call.perform volume = (do
      Drive.note severity noted
      volume.createEntry text size isDirectory
      return (.done, volume)) := by
  cases h with
  | file text size => exact ⟨_, _, rfl⟩
  | directory text => exact ⟨_, _, rfl⟩

/-- The handle that was opened for the program or into the table, if the answer is to an open. -/
def Answer.opened (volume : Volume) : Answer → Option Handle
  | .handle found => some found
  | .identifier id => (volume.slot? id).map Prod.snd
  | _ => none

/-! ## Sessions -/

/-- A regular file of the volume has its root node at the sector. -/
def Image.HasFile (image : Image) (sector : Nat) : Prop :=
  ∃ place, image.targetAt place = some ⟨sector, false⟩

/-- A volume in use. -/
structure Session where
  drive : Drive
  volume : Volume
  /-- The sectors and the nodes of the regular files that were opened and have not been removed
  since. -/
  live : Set (Nat × Node)

namespace Session

/-- What the disk holds. -/
def image (session : Session) : Image := session.drive.disk.sector

/-- A session right after its volume was formatted or mounted. -/
def begin (drive : Drive) (volume : Volume) : Session := ⟨drive, volume, ∅⟩

/-- The session after a call with the given result, with the volume that the call has reached. A
trap ends the program and its memory with it: there the volume is the one from before. -/
def proceed (session : Session) : EStateM.Result Stop (Memory Volume) Answer → Session
  | .ok answer ⟨drive, volume⟩ =>
    ⟨drive, volume, fun file ↦
      (file ∈ session.live ∨ ∃ handle, answer.opened volume = some handle ∧
        file = (handle.sector, handle.node)) ∧ Image.HasFile drive.disk.sector file.1⟩
  | .error (.error _) ⟨drive, volume⟩ =>
    ⟨drive, volume, fun file ↦ file ∈ session.live ∧ Image.HasFile drive.disk.sector file.1⟩
  | .error (.trap _) ⟨drive, _⟩ =>
    ⟨drive, session.volume, fun file ↦
      file ∈ session.live ∧ Image.HasFile drive.disk.sector file.1⟩

/-- What a call returns or is stopped by. -/
def answer (session : Session) (call : Call) : Except Stop Answer :=
  match call.perform session.volume session.drive with
  | .ok (answer, _) _ => .ok answer
  | .error stop _ => .error stop

/-- What a path leads to, or what stops its resolution. -/
def resolve (session : Session) (text : String) : Except Stop Target :=
  match session.volume.resolve text session.drive with
  | .ok target _ => .ok target
  | .error stop _ => .error stop

def step (session : Session) (call : Call) : Session :=
  session.proceed (call.carryOut ⟨session.drive, session.volume⟩)

def run (session : Session) (calls : List Call) : Session := calls.foldl step session

theorem run_cons (session : Session) (call : Call) (rest : List Call) :
    session.run (call :: rest) = (session.step call).run rest := rfl

/-! ### By what a call does with the volume -/

/-- The session after a call that has returned a volume or was stopped. -/
def resume (session : Session) : EStateM.Result Stop Drive (Answer × Volume) → Session
  | .ok (answer, volume) drive =>
    ⟨drive, volume, fun file ↦
      (file ∈ session.live ∨ ∃ handle, answer.opened volume = some handle ∧
        file = (handle.sector, handle.node)) ∧ Image.HasFile drive.disk.sector file.1⟩
  | .error _ drive =>
    ⟨drive, session.volume, fun file ↦
      file ∈ session.live ∧ Image.HasFile drive.disk.sector file.1⟩

/-- Where a call fails, the volume that it has reached is the one from before. -/
theorem proceed_carryOut (session : Session) (call : Call) (drive : Drive) :
    session.proceed (call.carryOut ⟨drive, session.volume⟩) =
      session.resume (call.perform session.volume drive) := by
  rw [← Call.using_carryOut, InPlace.using]
  cases hend : call.carryOut ⟨drive, session.volume⟩ with
  | ok answer final => rfl
  | error stop final =>
    cases stop with
    | trap cause => rfl
    | error cause =>
      obtain ⟨final, volume⟩ := final
      obtain rfl : volume = session.volume := call.commits _ _ _ hend trivial
      rfl

theorem step_eq_resume (session : Session) (call : Call) :
    session.step call = session.resume (call.perform session.volume session.drive) :=
  session.proceed_carryOut call session.drive

/-! ## Writing -/

/-- The file that a call writes to, the position it writes at, and the bytes. -/
def writing (session : Session) : Call → Option (Nat × Nat × ByteArray)
  | .write id data => (session.volume.slot? id).map fun found ↦
      (found.2.sector, found.2.position, data)
  | .writeAt handle position data => some (handle.sector, position, data)
  | _ => none

theorem writing_of_creates {session : Session} {call : Call} {text : String} {size : Nat}
    {isDirectory : Bool} (h : call.Creates text size isDirectory) : session.writing call = none := by
  cases h <;> rfl

/-- Writes go to regular files that have not been removed since they were opened. -/
def Permits (session : Session) : Call → Prop
  | .write id _ => ∀ index handle, session.volume.slot? id = some (index, handle) →
      (handle.sector, handle.node) ∈ session.live
  | .writeAt handle _ _ => (handle.sector, handle.node) ∈ session.live
  | _ => True

theorem permits_of_creates {session : Session} {call : Call} {text : String} {size : Nat}
    {isDirectory : Bool} (h : call.Creates text size isDirectory) : session.Permits call := by
  cases h <;> trivial

/-- Every call is permitted when its turn comes. -/
def PermitsAll (session : Session) : List Call → Prop
  | [] => True
  | call :: rest => session.Permits call ∧ (session.step call).PermitsAll rest

/-! ## Runs -/

/-- The sessions that start with a successful format of a disk that has all its sectors and refuses
nothing, and go on with permitted calls. -/
inductive Reached (sectors : Nat) : Session → Prop
  | format {drive formatted : Drive} {volume : Volume}
      (hcount : drive.disk.sectorCount = sectors)
      (hsize : sectors * sectorSize ≤ drive.disk.medium.size)
      (hfaults : drive.disk.faults = .none)
      (hformat : Volume.format drive = .ok volume formatted) :
      Reached sectors (begin formatted volume)
  | call {session : Session} {call : Call} (hsession : Reached sectors session)
      (hpermits : session.Permits call) : Reached sectors (session.step call)

theorem Reached.run {sectors : Nat} {session : Session} (h : Reached sectors session)
    {calls : List Call} (hpermits : session.PermitsAll calls) :
    Reached sectors (session.run calls) := by
  induction calls generalizing session with
  | nil => exact h
  | cons call rest ih => exact ih (h.call hpermits.1) hpermits.2

end Session

end SectorFS
