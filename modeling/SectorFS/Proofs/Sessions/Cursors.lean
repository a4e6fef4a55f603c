import SectorFS.Proofs.Sessions.Openings
import SectorFS.Proofs.Sessions.Regular
import Mathlib.Order.Bounds.Basic

/-!
# Cursors

To its programs the table of open files is a map from identifiers to cursors, each of them a
file and a position in it. Opening takes the least identifier that is not in use, closing frees
exactly the one that is closed, a transfer moves no cursor but its own, and by no more than the
bytes that it reports. What is shared is the file: a write is seen by every identifier that is
open on the same file. A removal takes away the cursors whose files are gone, and any other call
leaves the map as it is.
-/

namespace SectorFS

variable {sectors : Nat} {session : Session} {call : Call}

/-! ## The map -/

/-- A file, by the sector of its root node, and the position that the next transfer starts at. -/
structure Cursor where
  sector : Nat
  position : Nat

/-- The cursor behind so many bytes. -/
def Cursor.advance (cursor : Cursor) (count : Nat) : Cursor :=
  ⟨cursor.sector, cursor.position + count⟩

theorem Cursor.advance_zero (cursor : Cursor) : cursor.advance 0 = cursor := rfl

theorem Cursor.advance_advance (cursor : Cursor) (count other : Nat) :
    (cursor.advance count).advance other = cursor.advance (count + other) := by
  rw [advance, advance, advance, Nat.add_assoc]

def Handle.cursor (handle : Handle) : Cursor := ⟨handle.sector, handle.position⟩

theorem Handle.AtStart.cursor_eq {handle : Handle} {target : Target} (h : handle.AtStart target) :
    handle.cursor = ⟨target.sector, 0⟩ := by
  rw [Handle.cursor, h.sector_eq, h.position_eq]

namespace Volume

variable {volume : Volume} {id : Nat} {cursor : Cursor} {index : Fin maxOpenFiles}

/-- The cursors of the identifiers that are in use. -/
def cursors (volume : Volume) (id : Nat) : Option Cursor :=
  (volume.slot? id).map fun found ↦ found.2.cursor

/-- The identifiers that are not in use. -/
def vacant (volume : Volume) : Set Nat :=
  {id | 1 ≤ id ∧ id ≤ maxOpenFiles ∧ volume.cursors id = none}

theorem cursors_eq_none : volume.cursors id = none ↔ volume.slot? id = none := by
  rw [cursors, Option.map_eq_none_iff]

theorem cursors_place (volume : Volume) (index : Fin maxOpenFiles) :
    volume.cursors (index + 1) = volume.table[index].map Handle.cursor := by
  rw [cursors, slot?_place, Option.map_map]
  rfl

/-- An identifier in use is the number of a place of the table, counted from one. -/
theorem cursors_eq_some : volume.cursors id = some cursor ↔
    ∃ (index : Fin maxOpenFiles) (handle : Handle), id = index + 1 ∧
      volume.table[index] = some handle ∧ handle.cursor = cursor := by
  constructor
  · intro hcursor
    obtain ⟨⟨index, handle⟩, hslot, hcursor⟩ := Option.map_eq_some_iff.mp hcursor
    obtain ⟨htable, hid⟩ := table_of_slot? hslot
    exact ⟨index, handle, hid, htable, hcursor⟩
  · rintro ⟨index, handle, rfl, htable, rfl⟩
    rw [cursors_place, htable, Option.map_some]

theorem cursors_setSlot (volume : Volume) (index : Fin maxOpenFiles) (content : Option Handle) :
    (volume.setSlot index content).cursors =
      Function.update volume.cursors (index + 1) (content.map Handle.cursor) := by
  funext id
  by_cases hplace : ∃ place : Fin maxOpenFiles, id = place + 1
  · obtain ⟨place, rfl⟩ := hplace
    rw [cursors_place, table_setSlot, Function.update_apply, cursors_place]
    by_cases hsame : place = index
    · rw [if_pos hsame, if_pos (by rw [hsame])]
    · rw [if_neg hsame, if_neg fun hid ↦ hsame (Fin.ext (Nat.succ_inj.mp hid))]
  · have hnone (other : Volume) : other.cursors id = none := by
      refine Option.eq_none_iff_forall_ne_some.mpr fun cursor hcursor ↦ hplace ?_
      obtain ⟨place, -, hid, -⟩ := cursors_eq_some.mp hcursor
      exact ⟨place, hid⟩
    rw [Function.update_of_ne fun hid ↦ hplace ⟨index, hid⟩, hnone, hnone]

theorem cursors_of_closed (h : ∀ index : Fin maxOpenFiles, volume.table[index] = none) :
    volume.cursors = fun _ ↦ none := by
  refine funext fun id ↦ Option.eq_none_iff_forall_ne_some.mpr fun cursor hcursor ↦ ?_
  obtain ⟨index, handle, -, htable, -⟩ := cursors_eq_some.mp hcursor
  rw [h index] at htable
  contradiction

theorem mem_vacant : id ∈ volume.vacant ↔
    ∃ index : Fin maxOpenFiles, id = index + 1 ∧ volume.table[index] = none := by
  constructor
  · rintro ⟨hpos, hle, hnone⟩
    obtain ⟨place, rfl⟩ : ∃ place, id = place + 1 := ⟨id - 1, by omega⟩
    refine ⟨⟨place, hle⟩, rfl, ?_⟩
    rwa [cursors_place volume ⟨place, hle⟩, Option.map_eq_none_iff] at hnone
  · rintro ⟨index, rfl, hnone⟩
    refine ⟨Nat.succ_pos _, index.isLt, ?_⟩
    rw [cursors_place, hnone, Option.map_none]

/-- The first place that is free is that of the least identifier that is not in use. -/
theorem isLeast_vacant (hnone : volume.table[index] = none)
    (hbefore : ∀ other < index, volume.table[other].isNone = false) :
    IsLeast volume.vacant (index + 1) := by
  refine ⟨mem_vacant.mpr ⟨index, rfl, hnone⟩, fun id hid ↦ ?_⟩
  obtain ⟨other, rfl, hother⟩ := mem_vacant.mp hid
  by_contra hlt
  have hused := hbefore other (Fin.lt_def.mpr (by omega))
  rw [hother] at hused
  contradiction

theorem vacant_eq_empty (h : ∀ index : Fin maxOpenFiles, volume.table[index].isNone = false) :
    volume.vacant = ∅ := by
  refine Set.eq_empty_of_forall_notMem fun id hid ↦ ?_
  obtain ⟨index, -, hnone⟩ := mem_vacant.mp hid
  have hused := h index
  rw [hnone] at hused
  contradiction

end Volume

/-! ## One call -/

/-- The call goes to the file that is open under an identifier. -/
inductive Call.GoesTo (id : Nat) : Call → Prop
  | read (count : Nat) : GoesTo id (.read id count)
  | write (data : ByteArray) : GoesTo id (.write id data)
  | close : GoesTo id (.close id)

/-- The call neither opens a file into the table nor moves or closes one of it. -/
def Call.IsAside : Call → Prop
  | .create .. | .createDirectory _ | .list .. | .openHandle _ | .readAt .. | .writeAt ..
  | .freeSectors | .report | .sync => True
  | .remove _ | .removeTree _ | .openFile _ | .read .. | .write .. | .close _ | .remount => False

/-- The identifier whose cursor a transfer moves. -/
def Call.mover? : Call → Option Nat
  | .read id _ | .write id _ => some id
  | _ => none

/-- How many bytes were transferred. -/
def Answer.transferred : Answer → Nat
  | .bytes read => read.size
  | .count written => written
  | _ => 0

namespace Session

variable {id : Nat} {cursor : Cursor} {text : String} {target : Target}

section Mounted

variable (h : session.Mounted sectors)

include h

/-- What a path leads to is opened at its start, under the least identifier that is not in use, or
there is none. -/
theorem Mounted.openFile_cursors (hresolve : session.resolve text = .ok target) :
    (session.volume.vacant = ∅ ∧
      session.answer (.openFile text) = .error (.error .tooManyOpenFiles)) ∨
    ∃ id, IsLeast session.volume.vacant id ∧
      session.answer (.openFile text) = .ok (.identifier id) ∧
      (session.step (.openFile text)).volume.cursors =
        Function.update session.volume.cursors id (some ⟨target.sector, 0⟩) := by
  rw [h.resolve_eq_ok] at hresolve
  obtain ⟨cause, -, hstop, hrun⟩ | ⟨handle, found, index, hfound, hstart, -, hnone, hbefore, hrun⟩ :=
    h.openFile_performs text
  · obtain hnowhere | ⟨-, rfl, hfull⟩ := hstop
    · rw [hresolve] at hnowhere
      contradiction
    · exact .inl ⟨Volume.vacant_eq_empty hfull, h.answer_of_performs hrun⟩
  · obtain rfl := Except.ok.inj (hfound.symm.trans hresolve)
    refine .inr ⟨index + 1, Volume.isLeast_vacant hnone hbefore, h.answer_of_performs hrun, ?_⟩
    rw [h.volume_of_performs hrun, Volume.cursors_setSlot, Option.map_some, hstart.cursor_eq]

/-- A path that leads nowhere is not opened. -/
theorem Mounted.openFile_nowhere {stop : Stop} (hresolve : session.resolve text = .error stop) :
    session.answer (.openFile text) = .error stop := by
  rw [h.resolve_eq] at hresolve
  obtain ⟨cause, -, hnowhere | ⟨⟨target, htarget⟩, -, -⟩, hrun⟩ |
    ⟨handle, target, index, htarget, -, -, -, -, hrun⟩ := h.openFile_performs text
  · rw [hnowhere] at hresolve
    obtain rfl := Except.error.inj hresolve
    exact h.answer_of_performs hrun
  · rw [htarget] at hresolve
    contradiction
  · rw [htarget] at hresolve
    contradiction

/-- Opening a file writes nothing, and if it is refused it leaves the table as it is. -/
theorem Mounted.openFile_kept (text : String) :
    (session.step (.openFile text)).image = session.image ∧
      ∀ stop, session.answer (.openFile text) = .error stop →
        (session.step (.openFile text)).volume = session.volume := by
  obtain ⟨cause, -, -, hrun⟩ | ⟨handle, found, index, -, -, -, -, -, hrun⟩ :=
    h.openFile_performs text
  · rw [h.image_of_performs hrun, Image.putAll_nil]
    exact ⟨rfl, fun _ _ ↦ h.volume_of_stopped hrun⟩
  · rw [h.image_of_performs hrun, Image.putAll_nil]
    refine ⟨rfl, fun stop hstop ↦ ?_⟩
    rw [h.answer_of_performs hrun] at hstop
    contradiction

/-- Opening a file moves no cursor. -/
theorem Mounted.openFile_others (hcursor : session.volume.cursors id = some cursor) (text : String) :
    (session.step (.openFile text)).volume.cursors id = some cursor := by
  obtain ⟨-, hrefused⟩ := h.openFile_kept text
  cases hresolve : session.resolve text with
  | error stop => rw [hrefused stop (h.openFile_nowhere hresolve), hcursor]
  | ok target =>
    obtain ⟨-, hfull⟩ | ⟨other, ⟨⟨-, -, hvacant⟩, -⟩, -, hcursors⟩ := h.openFile_cursors hresolve
    · rw [hrefused _ hfull, hcursor]
    · have hne : id ≠ other := by
        rintro rfl
        rw [hvacant] at hcursor
        contradiction
      rw [hcursors, Function.update_of_ne hne, hcursor]

/-- A read returns the bytes at the cursor of its identifier, and moves this cursor behind them. -/
theorem Mounted.read_cursors (hcursor : session.volume.cursors id = some cursor) (count : Nat) :
    session.answer (.read id count) =
        .ok (.bytes (slice (session.image.content cursor.sector) cursor.position count)) ∧
      (session.step (.read id count)).volume.cursors =
        Function.update session.volume.cursors id (some (cursor.advance
          (slice (session.image.content cursor.sector) cursor.position count).size)) ∧
      (session.step (.read id count)).image = session.image := by
  obtain ⟨index, handle, rfl, htable, rfl⟩ := Volume.cursors_eq_some.mp hcursor
  have hrun := h.read_performs (Volume.slot?_of_table htable) count
  rw [h.clamp_eq htable] at hrun
  refine ⟨h.answer_of_performs hrun, ?_, ?_⟩
  · rw [h.volume_of_performs hrun, Volume.cursors_setSlot, size_slice]
    rfl
  · rw [h.image_of_performs hrun, Image.putAll_nil]

/-- A write moves the cursor of its identifier behind the bytes that it puts into the file. -/
theorem Mounted.write_cursors (hcursor : session.volume.cursors id = some cursor)
    (data : ByteArray) :
    ∃ count, count = min data.size
        ((session.image.content cursor.sector).size - cursor.position) ∧
      session.answer (.write id data) = .ok (.count count) ∧
      (session.step (.write id data)).volume.cursors =
        Function.update session.volume.cursors id (some (cursor.advance count)) := by
  obtain ⟨index, handle, rfl, htable, rfl⟩ := Volume.cursors_eq_some.mp hcursor
  obtain ⟨writes, hrun, -⟩ := h.write_performs (Volume.slot?_of_table htable) data
  refine ⟨_, h.clamp_eq htable data.size, h.answer_of_performs hrun, ?_⟩
  rw [h.volume_of_performs hrun, Volume.cursors_setSlot]
  rfl

/-- Closing frees the identifier. -/
theorem Mounted.close_cursors (hcursor : session.volume.cursors id = some cursor) :
    session.answer (.close id) = .ok .done ∧
      (session.step (.close id)).volume.cursors =
        Function.update session.volume.cursors id none ∧
      (session.step (.close id)).image = session.image := by
  obtain ⟨index, handle, rfl, htable, rfl⟩ := Volume.cursors_eq_some.mp hcursor
  have hrun := @close_performs sectors session _ _ _ (Volume.slot?_of_table htable)
  refine ⟨h.answer_of_performs hrun, ?_, ?_⟩
  · rw [h.volume_of_performs hrun, Volume.cursors_setSlot, Option.map_none]
  · rw [h.image_of_performs hrun, Image.putAll_nil]

/-- Nothing is open under an identifier that is not in use. -/
theorem Mounted.unused_step (hnone : session.volume.cursors id = none) (hcall : call.GoesTo id) :
    session.answer call = .error (.error (.invalidArgument (.unknownFile id))) ∧
      session.step call = session := by
  have hslot := slot_of_none (Volume.cursors_eq_none.mp hnone)
  have hperform : call.perform session.volume = fail (.invalidArgument (.unknownFile id)) := by
    cases hcall with
    | read count =>
      rw [Call.perform, Volume.read_eq, hslot]
      rfl
    | write data =>
      rw [Call.perform, Volume.write_eq, hslot]
      rfl
    | close =>
      rw [Call.perform, Volume.close_eq, hslot]
      rfl
  have hlive : (fun file ↦ file ∈ session.live ∧ session.image.HasFile file.1) = session.live :=
    funext fun file ↦ propext ⟨And.left, fun hfile ↦ ⟨hfile, (h.live file hfile).1⟩⟩
  constructor
  · rw [answer, hperform]
    rfl
  · rw [step_eq_resume, hperform]
    exact congrArg (Session.mk session.drive session.volume) hlive

/-- A call that goes past the table leaves it as it is. -/
theorem Mounted.volume_of_aside (hpermits : session.Permits call) (haside : call.IsAside) :
    (session.step call).volume = session.volume := by
  obtain ⟨outcome, writes, hrun, heffect⟩ | hlooks := h.performed_of_permits hpermits
  · cases heffect with
    | refused => exact h.volume_of_stopped hrun
    | created | listed | handed | writtenAt => exact h.volume_of_performs hrun
    | removed hcall =>
      rcases hcall with rfl | rfl
      · exact haside.elim
      · exact haside.elim
    | opened | read | written | closed | remounted => exact haside.elim
  · obtain ⟨final, live, hstep, -⟩ := hlooks.step_eq
    rw [hstep]

/-- Nothing is open after the disk was mounted. -/
theorem Mounted.remount_cursors : (session.step .remount).volume.cursors = fun _ ↦ none := by
  obtain ⟨mapNode, rootNode, -, -, hrun⟩ := h.remount_performs
  rw [h.volume_of_performs hrun]
  exact Volume.cursors_of_closed fun index ↦ by simp [Volume.withRoots]

end Mounted

section Live

variable (h : session.Valid sectors) (hlive : session.TableLive)

include h hlive

/-- A cursor lies in a regular file that is there, and not behind its end. -/
theorem Valid.cursor_within (hcursor : session.volume.cursors id = some cursor) :
    session.image.HasFile cursor.sector ∧
      cursor.position ≤ (session.image.content cursor.sector).size := by
  obtain ⟨index, handle, -, htable, rfl⟩ := Volume.cursors_eq_some.mp hcursor
  obtain ⟨hfile, hintact⟩ := h.intact_of_live (hlive index handle htable)
  refine ⟨hfile, ?_⟩
  rw [Image.size_content, Handle.cursor, hintact.size_eq]
  exact (h.carries index handle htable).position_le

/-- A write puts bytes over those of its file from the cursor on, and changes no other file. -/
theorem Valid.write_content (hcursor : session.volume.cursors id = some cursor) (data : ByteArray)
    {sector : Nat} (hfile : session.image.HasFile sector) :
    (session.step (.write id data)).image.content sector = if cursor.sector = sector then
      overwrite (session.image.content sector) cursor.position data
    else session.image.content sector := by
  obtain ⟨index, handle, rfl, htable, rfl⟩ := Volume.cursors_eq_some.mp hcursor
  obtain ⟨-, hchange⟩ := @step sectors session (.write (index + 1) data) h (hlive.permits trivial)
  rw [hchange.content_eq h.whole hfile, writing, Volume.slot?_of_table htable]
  rfl

/-- A removal closes the files that it takes away, and leaves the others as they are. -/
theorem Valid.removal_table (hcall : call = .remove text ∨ call = .removeTree text)
    {index : Fin maxOpenFiles} {handle : Handle} :
    (session.step call).volume.table[index] = some handle ↔
      session.volume.table[index] = some handle ∧
        (session.step call).image.HasFile handle.sector := by
  have hfile : session.OnFile call := by
    rcases hcall with rfl | rfl
    · trivial
    · trivial
  have hafter := (h.step (hlive.permits hfile)).1
  have hthere (hslot : (session.step call).volume.table[index] = some handle) :
      (session.step call).image.HasFile handle.sector :=
    (hafter.intact_of_live (h.tableLive_step hlive hfile index handle hslot)).1
  obtain ⟨outcome, writes, hrun, heffect⟩ := h.performed_of_removal hcall
  obtain ⟨cause, rfl, -⟩ | ⟨path, parent, directory, name, entry, target, table, map, -, hnames,
    hremoved, rfl, rfl⟩ := heffect.of_removal hcall
  · have hvolume := h.volume_of_stopped hrun
    refine ⟨fun hslot ↦ ⟨?_, hthere hslot⟩, fun hold ↦ ?_⟩
    · rwa [hvolume] at hslot
    · rw [hvolume, hold.1]
  · have hvolume := h.volume_of_performs hrun
    refine ⟨fun hslot ↦ ⟨?_, hthere hslot⟩, fun ⟨hold, place, hplace⟩ ↦ ?_⟩
    · rw [hvolume, Volume.table_keepLive, Option.filter_eq_some_iff] at hslot
      exact hslot.1
    · rw [hvolume, Volume.table_keepLive, Option.filter_eq_some_iff,
        ← Image.Removed.freeMap_final hremoved h.whole hnames, ← h.image_of_performs hrun,
        hafter.sound.charged]
      exact ⟨hold, .item place, Image.Sound.owns_self (Image.headOf_item hplace)⟩

theorem Valid.removal_cursors (hcall : call = .remove text ∨ call = .removeTree text) :
    (session.step call).volume.cursors id = some cursor ↔
      session.volume.cursors id = some cursor ∧
        (session.step call).image.HasFile cursor.sector := by
  rw [Volume.cursors_eq_some, Volume.cursors_eq_some]
  constructor
  · rintro ⟨index, handle, rfl, hslot, rfl⟩
    obtain ⟨hold, hfile⟩ := (h.removal_table hlive hcall).mp hslot
    exact ⟨⟨index, handle, rfl, hold, rfl⟩, hfile⟩
  · rintro ⟨⟨index, handle, rfl, hold, rfl⟩, hfile⟩
    exact ⟨index, handle, rfl, (h.removal_table hlive hcall).mpr ⟨hold, hfile⟩, rfl⟩

end Live

/-! ## Runs -/

/-- How far a call moves the cursor of an identifier: as far as its answer says, if it is a transfer
of this identifier. -/
def moved (session : Session) (id : Nat) (call : Call) : Nat :=
  if call.mover? = some id then
    match session.answer call with
    | .ok answer => answer.transferred
    | .error _ => 0
  else
    0

/-- How far the calls move the cursor of an identifier. -/
def movedAll (session : Session) (id : Nat) : List Call → Nat
  | [] => 0
  | call :: rest => session.moved id call + (session.step call).movedAll id rest

theorem moved_of_ne (hmover : call.mover? ≠ some id) : session.moved id call = 0 := if_neg hmover

theorem moved_of_answer {answer : Answer} (hmover : call.mover? = some id)
    (hanswer : session.answer call = .ok answer) : session.moved id call = answer.transferred := by
  rw [moved, if_pos hmover, hanswer]

/-- A transfer moves its own cursor and no other one. -/
theorem cursors_of_transfer {other : Nat} {met : Cursor} {answer : Answer}
    (hmover : call.mover? = some other) (hanswer : session.answer call = .ok answer)
    (hcursors : (session.step call).volume.cursors =
      Function.update session.volume.cursors other (some (met.advance answer.transferred)))
    (hother : session.volume.cursors other = some met)
    (hcursor : session.volume.cursors id = some cursor) :
    (session.step call).volume.cursors id = some (cursor.advance (session.moved id call)) := by
  rw [hcursors]
  by_cases hself : id = other
  · subst hself
    obtain rfl := Option.some.inj (hother.symm.trans hcursor)
    rw [Function.update_self, moved_of_answer hmover hanswer]
  · have hne : call.mover? ≠ some id := fun hid ↦
      hself (Option.some.inj (hid.symm.trans hmover))
    rw [Function.update_of_ne hself, hcursor, moved_of_ne hne, Cursor.advance_zero]

/-- Whatever is called, a cursor moves by the answers to its own transfers only, unless the call
closes it, removes its file or mounts the disk. -/
theorem Valid.cursor_step (h : session.Valid sectors) (hlive : session.TableLive)
    (hfile : session.OnFile call) (hcursor : session.volume.cursors id = some cursor)
    (hstays : (session.step call).image.HasFile cursor.sector) (hopen : call ≠ .close id)
    (hmount : call ≠ .remount) :
    (session.step call).volume.cursors id = some (cursor.advance (session.moved id call)) := by
  have hunmoved (hsame : (session.step call).volume.cursors id = some cursor)
      (hne : call.mover? ≠ some id) :
      (session.step call).volume.cursors id = some (cursor.advance (session.moved id call)) := by
    rw [hsame, moved_of_ne hne, Cursor.advance_zero]
  have hunused {other : Nat} (hother : session.volume.cursors other = none)
      (hgoes : call.GoesTo other) : (session.step call).volume.cursors id = some cursor := by
    rw [(h.unused_step hother hgoes).2, hcursor]
  have hinuse {other : Nat} (hother : session.volume.cursors other = none) :
      some other ≠ some id := by
    rintro heq
    rw [Option.some.inj heq, hcursor] at hother
    contradiction
  cases call with
  | read other count =>
    cases hother : session.volume.cursors other with
    | none => exact hunmoved (hunused hother (.read count)) (hinuse hother)
    | some met =>
      obtain ⟨hanswer, hcursors, -⟩ := h.read_cursors hother count
      exact cursors_of_transfer rfl hanswer hcursors hother hcursor
  | write other data =>
    cases hother : session.volume.cursors other with
    | none => exact hunmoved (hunused hother (.write data)) (hinuse hother)
    | some met =>
      obtain ⟨count, -, hanswer, hcursors⟩ := h.write_cursors hother data
      exact cursors_of_transfer rfl hanswer hcursors hother hcursor
  | close other =>
    refine hunmoved ?_ nofun
    cases hother : session.volume.cursors other with
    | none => exact hunused hother .close
    | some met =>
      have hne : id ≠ other := by
        rintro rfl
        exact hopen rfl
      rw [(h.close_cursors hother).2.1, Function.update_of_ne hne, hcursor]
  | openFile text => exact hunmoved (h.openFile_others hcursor text) nofun
  | remove text =>
    exact hunmoved ((h.removal_cursors hlive (.inl rfl)).mpr ⟨hcursor, hstays⟩) nofun
  | removeTree text =>
    exact hunmoved ((h.removal_cursors hlive (.inr rfl)).mpr ⟨hcursor, hstays⟩) nofun
  | remount => exact (hmount rfl).elim
  | create | createDirectory | list | openHandle | readAt | writeAt | freeSectors | report | sync =>
    refine hunmoved ?_ nofun
    rw [h.volume_of_aside (hlive.permits hfile) trivial, hcursor]

/-- Over a whole run a cursor moves by the answers to its own transfers, whatever is called in
between. -/
theorem OnFiles.cursor_run (h : OnFiles sectors session) {calls : List Call}
    (hcursor : session.volume.cursors id = some cursor) (hfiles : session.OnFileAll calls)
    (hkeeps : session.Keeps cursor.sector calls) (hopen : .close id ∉ calls)
    (hmount : .remount ∉ calls) :
    (session.run calls).volume.cursors id =
      some (cursor.advance (session.movedAll id calls)) := by
  induction calls generalizing session cursor with
  | nil => exact hcursor
  | cons call rest ih =>
    obtain ⟨hreached, hlive⟩ := h.reached_live
    rw [List.mem_cons, not_or] at hopen hmount
    have hnext := hreached.valid.cursor_step hlive hfiles.1 hcursor (hkeeps.tail [] rest rfl)
      (Ne.symm hopen.1) (Ne.symm hmount.1)
    rw [run_cons, ih (h.call hfiles.1) hnext hfiles.2 hkeeps.tail hopen.2 hmount.2, movedAll,
      Cursor.advance_advance]

/-! ## Programs -/

/-- To the programs the table of open files is a map of cursors. They lie in files that are there.
Opening takes the least identifier that is not in use, and is refused if there is none or if the
path leads nowhere. A read and a write are at the cursor of the identifier and move this cursor
alone; a write is seen by what else is open on the file, and by nothing else. Closing frees the
identifier, and nothing is done for one that is not in use. The other calls keep the cursors, apart
from those in files that are removed. -/
structure MapsCursors (session : Session) : Prop where
  placed : ∀ id cursor, session.volume.cursors id = some cursor →
    1 ≤ id ∧ id ≤ maxOpenFiles ∧ session.image.HasFile cursor.sector ∧
      cursor.position ≤ (session.image.content cursor.sector).size
  opens : ∀ text target id, session.resolve text = .ok target → IsLeast session.volume.vacant id →
    session.answer (.openFile text) = .ok (.identifier id) ∧
      (session.step (.openFile text)).volume.cursors =
        Function.update session.volume.cursors id (some ⟨target.sector, 0⟩)
  full : ∀ text target, session.resolve text = .ok target →
    (session.answer (.openFile text) = .error (.error .tooManyOpenFiles) ↔
      session.volume.vacant = ∅)
  nowhere : ∀ text stop, session.resolve text = .error stop →
    session.answer (.openFile text) = .error stop
  refused : ∀ text stop, session.answer (.openFile text) = .error stop →
    (session.step (.openFile text)).volume = session.volume
  unwritten : ∀ text, (session.step (.openFile text)).image = session.image
  reads : ∀ id cursor count, session.volume.cursors id = some cursor →
    session.answer (.read id count) =
        .ok (.bytes (slice (session.image.content cursor.sector) cursor.position count)) ∧
      (session.step (.read id count)).volume.cursors =
        Function.update session.volume.cursors id (some (cursor.advance
          (slice (session.image.content cursor.sector) cursor.position count).size)) ∧
      (session.step (.read id count)).image = session.image
  writes : ∀ id cursor data, session.volume.cursors id = some cursor →
    (∃ count, count = min data.size
          ((session.image.content cursor.sector).size - cursor.position) ∧
        session.answer (.write id data) = .ok (.count count) ∧
        (session.step (.write id data)).volume.cursors =
          Function.update session.volume.cursors id (some (cursor.advance count))) ∧
      ∀ sector, session.image.HasFile sector →
        (session.step (.write id data)).image.content sector = if cursor.sector = sector then
          overwrite (session.image.content sector) cursor.position data
        else session.image.content sector
  seen : ∀ id cursor data other met, session.volume.cursors id = some cursor →
    session.volume.cursors other = some met → other ≠ id → met.sector = cursor.sector → ∀ count,
      (session.step (.write id data)).answer (.read other count) = .ok (.bytes (slice
        (overwrite (session.image.content cursor.sector) cursor.position data) met.position count))
  closes : ∀ id cursor, session.volume.cursors id = some cursor →
    session.answer (.close id) = .ok .done ∧
      (session.step (.close id)).volume.cursors =
        Function.update session.volume.cursors id none ∧
      (session.step (.close id)).image = session.image
  unused : ∀ id call, session.volume.cursors id = none → call.GoesTo id →
    session.answer call = .error (.error (.invalidArgument (.unknownFile id))) ∧
      session.step call = session
  removes : ∀ call text, call = .remove text ∨ call = .removeTree text → ∀ id cursor,
    (session.step call).volume.cursors id = some cursor ↔
      session.volume.cursors id = some cursor ∧ (session.step call).image.HasFile cursor.sector
  aside : ∀ call, session.OnFile call → call.IsAside →
    (session.step call).volume.cursors = session.volume.cursors
  remounts : (session.step .remount).volume.cursors = fun _ ↦ none

theorem Valid.mapsCursors (h : session.Valid sectors) (hlive : session.TableLive) :
    session.MapsCursors where
  placed id cursor hcursor := by
    obtain ⟨index, handle, rfl, -⟩ := Volume.cursors_eq_some.mp hcursor
    exact ⟨Nat.succ_pos _, index.isLt, h.cursor_within hlive hcursor⟩
  opens text target id hresolve hleast := by
    obtain ⟨hempty, -⟩ | ⟨other, hother, hopened⟩ := h.openFile_cursors hresolve
    · rw [hempty] at hleast
      exact hleast.1.elim
    · rwa [hleast.unique hother]
  full text target hresolve := by
    obtain ⟨hempty, hanswer⟩ | ⟨id, hleast, hanswer, -⟩ := h.openFile_cursors hresolve
    · exact iff_of_true hanswer hempty
    · refine iff_of_false (fun hstop ↦ ?_) fun hempty ↦ ?_
      · rw [hanswer] at hstop
        contradiction
      · rw [hempty] at hleast
        exact hleast.1.elim
  nowhere text stop hresolve := h.openFile_nowhere hresolve
  refused text := (h.openFile_kept text).2
  unwritten text := (h.openFile_kept text).1
  reads id cursor count hcursor := h.read_cursors hcursor count
  writes id cursor data hcursor :=
    ⟨h.write_cursors hcursor data, fun sector hfile ↦ h.write_content hlive hcursor data hfile⟩
  seen id cursor data other met hcursor hmet hne hsector count := by
    obtain ⟨written, -, -, hcursors⟩ := h.write_cursors hcursor data
    have hafter := (@Valid.step sectors session (.write id data) h (hlive.permits trivial)).1
    have hother : (session.step (.write id data)).volume.cursors other = some met := by
      rw [hcursors, Function.update_of_ne hne, hmet]
    obtain ⟨hfile, -⟩ := h.cursor_within hlive hcursor
    rw [(hafter.read_cursors hother count).1, hsector, h.write_content hlive hcursor data hfile,
      if_pos rfl]
  closes id cursor hcursor := h.close_cursors hcursor
  unused id call hnone hgoes := h.unused_step hnone hgoes
  removes call text hcall id cursor := h.removal_cursors hlive hcall
  aside call hfile haside := by rw [h.volume_of_aside (hlive.permits hfile) haside]
  remounts := h.remount_cursors

/-- As long as only regular files are opened into it, the table is a map of independent cursors, and
over a whole run a cursor is moved by its own transfers only. -/
theorem OnFiles.maps_cursors (h : OnFiles sectors session) :
    session.MapsCursors ∧ ∀ id cursor calls, session.volume.cursors id = some cursor →
      session.OnFileAll calls → session.Keeps cursor.sector calls → .close id ∉ calls →
        .remount ∉ calls → (session.run calls).volume.cursors id =
          some (cursor.advance (session.movedAll id calls)) := by
  obtain ⟨hreached, hlive⟩ := h.reached_live
  exact ⟨hreached.valid.mapsCursors hlive, fun id cursor calls hcursor hfiles hkeeps hopen hmount ↦
    h.cursor_run hcursor hfiles hkeeps hopen hmount⟩

/-- A regular file can be opened as long as there is an identifier that is not in use. -/
theorem OnFiles.open_next (h : OnFiles sectors session) {sector : Nat}
    (hlocate : session.image.locate text = .ok ⟨sector, false⟩)
    (hleast : IsLeast session.volume.vacant id) :
    session.answer (.openFile text) = .ok (.identifier id) ∧
      OnFiles sectors (session.step (.openFile text)) ∧
      (session.step (.openFile text)).image = session.image ∧
      (session.step (.openFile text)).volume.cursors =
        Function.update session.volume.cursors id (some ⟨sector, 0⟩) := by
  obtain ⟨hreached, hlive⟩ := h.reached_live
  have hresolve := hreached.valid.resolve_eq_ok.mpr hlocate
  have hmaps := hreached.valid.mapsCursors hlive
  obtain ⟨hanswer, hcursors⟩ := hmaps.opens text _ id hresolve hleast
  refine ⟨hanswer, h.call fun target htarget ↦ ?_, hmaps.unwritten text, hcursors⟩
  rw [← Except.ok.inj (hresolve.symm.trans htarget)]

/-- A file that is opened twice has two cursors, and what is written at the one is read at the
other. -/
theorem maps_cursors_twice : ∃ volume formatted,
    Volume.format (.blank 64) = .ok volume formatted ∧
      let created := (begin formatted volume).step (.create "/a" 300)
      let once := created.step (.openFile "/a")
      let twice := once.step (.openFile "/a")
      created.answer (.openFile "/a") = .ok (.identifier 1) ∧
        once.answer (.openFile "/a") = .ok (.identifier 2) ∧
        twice.answer (.write 1 ⟨#[97, 98, 99]⟩) = .ok (.count 3) ∧
        (twice.step (.write 1 ⟨#[97, 98, 99]⟩)).answer (.read 2 3) =
          .ok (.bytes ⟨#[97, 98, 99]⟩) ∧
        twice.answer (.close 0) = .error (.error (.invalidArgument (.unknownFile 0))) := by
  obtain ⟨volume, formatted, hformat, hreached, -, -, -, sector, hgains⟩ := exists_created_small
  refine ⟨volume, formatted, hformat, ?_⟩
  intro created once twice
  have hcreated : OnFiles 64 created :=
    .call (.format rfl (size_zeroBytes _).ge rfl hformat) trivial
  have hlocate : created.image.locate "/a" = .ok ⟨sector, false⟩ := hgains.locate_eq
  have hclosed : created.volume.cursors = fun _ ↦ none := by
    rw [hreached.valid.volume_of_creates (.file "/a" 300)]
    exact Volume.cursors_of_closed (begin_valid rfl (size_zeroBytes _).ge rfl hformat).2.2
  have hleast : IsLeast created.volume.vacant 1 :=
    ⟨⟨Nat.le_refl 1, by decide, by rw [hclosed]⟩, fun id hid ↦ hid.1⟩
  obtain ⟨hfirst, honce, himage, hcursors⟩ := hcreated.open_next hlocate hleast
  have hleast' : IsLeast once.volume.vacant 2 := by
    refine ⟨⟨by decide, by decide, by rw [hcursors, hclosed]; rfl⟩, fun id hid ↦ ?_⟩
    have hpos : 1 ≤ id := hid.1
    have hne : id ≠ 1 := by
      rintro rfl
      have hnone := hid.2.2
      rw [hcursors, Function.update_self] at hnone
      contradiction
    omega
  obtain ⟨hsecond, htwice, himage', hcursors'⟩ :=
    honce.open_next (himage.symm ▸ hlocate) hleast'
  have hone : twice.volume.cursors 1 = some ⟨sector, 0⟩ := by
    rw [hcursors', Function.update_of_ne (by decide), hcursors, Function.update_self]
  have htwo : twice.volume.cursors 2 = some ⟨sector, 0⟩ := by
    rw [hcursors', Function.update_self]
  have hsize : (twice.image.content sector).size = 300 := by
    rw [himage', himage, Image.size_content]
    exact hgains.size_eq
  obtain ⟨hmaps, -⟩ := OnFiles.maps_cursors htwice
  obtain ⟨⟨count, hcount, hanswer, -⟩, -⟩ := hmaps.writes 1 _ ⟨#[97, 98, 99]⟩ hone
  rw [hsize] at hcount
  obtain rfl : count = 3 := hcount.trans (by rfl)
  have hseen := hmaps.seen 1 _ ⟨#[97, 98, 99]⟩ 2 _ hone htwo (by decide) rfl 3
  have hzero : twice.volume.cursors 0 = none := by
    cases hcursor : twice.volume.cursors 0 with
    | none => rfl
    | some cursor => exact absurd (hmaps.placed 0 cursor hcursor).1 (by decide)
  refine ⟨hfirst, hsecond, hanswer, ?_, (hmaps.unused 0 _ hzero .close).1⟩
  rw [hseen]
  exact congrArg (fun bytes ↦ Except.ok (Answer.bytes bytes))
    (@slice_overwrite _ ⟨#[97, 98, 99]⟩ 0 (by rw [hsize]; decide))

end Session

end SectorFS
