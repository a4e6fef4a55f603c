import SectorFS.Volume.Contents

/-!
# Open files

The table of a volume gives an open file a small number, the lowest that is not in
use, and keeps its position between transfers.
-/

namespace SectorFS.Volume

/-- The place of an identifier in the table, if a file is open under it. -/
def slot? (volume : Volume) (id : Nat) : Option (Fin maxOpenFiles × Handle) :=
  if h : 1 ≤ id ∧ id - 1 < maxOpenFiles then
    let index : Fin maxOpenFiles := ⟨id - 1, h.2⟩
    volume.table[index].map (index, ·)
  else
    none

/-- The open file with an identifier, with its place in the table. -/
def slot (volume : Volume) (id : Nat) : Except Error (Fin maxOpenFiles × Handle) :=
  match volume.slot? id with
  | some found => .ok found
  | none => .error (.invalidArgument (.unknownFile id))

/-- Replaces what the table holds at a place. -/
def setSlot (volume : Volume) (index : Fin maxOpenFiles) (content : Option Handle) : Volume :=
  { volume with table := volume.table.set index content }

/-- Carries out an operation on the handle at a place of the table, where the handle is kept as it
was reached. -/
def onSlot {α : Type} (index : Fin maxOpenFiles) (handle : Handle) (operation : InPlace Handle α) :
    InPlace Volume α := fun memory ↦
  match operation ⟨memory.drive, handle⟩ with
  | .ok result ⟨drive, handle⟩ => .ok result ⟨drive, memory.value.setSlot index (some handle)⟩
  | .error stop ⟨drive, handle⟩ => .error stop ⟨drive, memory.value.setSlot index (some handle)⟩

namespace InPlace

/-- Opens a file into the table and returns its identifier. The file is opened before a place is
looked for. -/
def openFile (text : String) : InPlace Volume Nat := do
  let volume ← InPlace.current
  let handle ← volume.openHandle text
  match volume.table.findFinIdx? (·.isNone) with
  | none => fail .tooManyOpenFiles
  | some index =>
    InPlace.assign (volume.setSlot index (some handle))
    return index + 1

/-- Reads from an open file at its position. -/
def read (id count : Nat) : InPlace Volume ByteArray := do
  let (index, handle) ← (← InPlace.current).slot id
  onSlot index handle (Handle.InPlace.read count)

/-- Writes to an open file at its position. -/
def write (id : Nat) (data : ByteArray) : InPlace Volume Nat := do
  let (index, handle) ← (← InPlace.current).slot id
  onSlot index handle (Handle.InPlace.write data)

/-- Closes an open file. -/
def close (id : Nat) : InPlace Volume Unit := do
  let volume ← InPlace.current
  let (index, _) ← volume.slot id
  InPlace.assign (volume.setSlot index none)

end InPlace

/-- The identifier of a file that was opened, and the volume with it. -/
def openFile (volume : Volume) (text : String) : Action (Nat × Volume) :=
  (InPlace.openFile text).using volume

/-- The bytes at the position of an open file, and the volume with the position moved. -/
def read (volume : Volume) (id count : Nat) : Action (ByteArray × Volume) :=
  (InPlace.read id count).using volume

/-- The number of bytes written to an open file, and the volume with the position moved. -/
def write (volume : Volume) (id : Nat) (data : ByteArray) : Action (Nat × Volume) :=
  (InPlace.write id data).using volume

/-- The volume without an open file. -/
def close (volume : Volume) (id : Nat) : Action Volume := (InPlace.close id).after volume

end SectorFS.Volume
