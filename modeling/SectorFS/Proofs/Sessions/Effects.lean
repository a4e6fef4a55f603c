import SectorFS.Proofs.Listing
import SectorFS.Proofs.Quiet
import SectorFS.Proofs.Sessions.Mounted

/-!
# What a call does

On a mounted session a call is refused before its first write, or it does one of a few
things to the image and to the table of open files. `Session.Effect` lists them once, and
what holds of sessions is derived from the list, one case for each of its lines. A call that
reads through a handle of its own or asks about the volume as a whole is not on the list: it
may be given a handle whose file is gone, but it only looks at the disk.
-/

namespace SectorFS

variable {sectors : Nat} {session : Session} {call : Call}

/-- The call goes through the volume, by a path or by an identifier of its table. -/
def Call.IsAddressed : Call → Prop
  | .create .. | .createDirectory _ | .remove _ | .removeTree _ | .list .. | .openHandle _
  | .openFile _ | .read .. | .write .. | .close _ => True
  | .readAt .. | .writeAt .. | .freeSectors | .report | .sync | .remount => False

namespace Session

/-- What a call returns and what it writes. -/
inductive Effect (session : Session) (sectors : Nat) :
    Call → Except Stop (Answer × Volume) → List Write → Prop
  | refused {call : Call} {cause : Error} (hcause : cause.IsRefusal)
      (hwriting : session.writing call = none) :
      Effect session sectors call (.error (.error cause)) []
  | created {call : Call} {text : String} {size directory sector : Nat} {isDirectory : Bool}
      {path : Path} {parent : Place} {name : String} {index : Fin entryCount}
      {height : Fin maxLevel} {node : Node} {fresh table map : List Write}
      (hcall : call.Creates text size isDirectory) (hparse : Path.parse text = .ok path)
      (hadmits : session.image.Admits sectors path size parent directory name index height)
      (hcreated : session.image.Created sectors directory index name size isDirectory height sector
        node fresh table map) :
      Effect session sectors call (.ok (.done, session.volume)) (fresh ++ (table ++ map))
  | removed {call : Call} {text : String} {path : Path} {parent : Place} {directory : Nat}
      {name : String} {index : Fin entryCount} {target : Target} {table map : List Write}
      (hcall : call = .remove text ∨ call = .removeTree text) (hparse : Path.parse text = .ok path)
      (hnames : session.image.Names path parent directory name index target)
      (hremoved : session.image.Removed sectors directory index target table map) :
      Effect session sectors call (.ok (.done, session.volume.keepLive
        ((session.image.freeMap sectors).clearAll
          (session.image.treeSectors (sectors + 3) target)))) (table ++ map)
  | listed {text : String} {recursive : Bool} {lines : List Listed} :
      Effect session sectors (.list text recursive) (.ok (.listing lines, session.volume)) []
  | handed {text : String} {handle : Handle} {target : Target}
      (hlocate : session.image.locate text = .ok target) (hsector : target.sector = handle.sector)
      (hserves : session.image.Serves handle) :
      Effect session sectors (.openHandle text) (.ok (.handle handle, session.volume)) []
  | opened {text : String} {handle : Handle} {target : Target} {index : Fin maxOpenFiles}
      (hlocate : session.image.locate text = .ok target) (hsector : target.sector = handle.sector)
      (hserves : session.image.Serves handle) (hclosed : session.volume.table[index] = none) :
      Effect session sectors (.openFile text)
        (.ok (.identifier (index + 1), session.volume.setSlot index (some handle))) []
  | read {id count : Nat} {index : Fin maxOpenFiles} {handle : Handle} {bytes : ByteArray}
      (hslot : session.volume.slot? id = some (index, handle)) :
      Effect session sectors (.read id count) (.ok (.bytes bytes, session.volume.setSlot index
        (some (handle.seek (handle.position + handle.clamp count handle.position))))) []
  | written {id : Nat} {data : ByteArray} {index : Fin maxOpenFiles} {handle : Handle}
      {writes : List Write} (hslot : session.volume.slot? id = some (index, handle))
      (hsplices : session.image.Overwrites handle.sector handle.position data writes) :
      Effect session sectors (.write id data) (.ok (.count (handle.clamp data.size handle.position),
        session.volume.setSlot index (some (handle.seek
          (handle.position + handle.clamp data.size handle.position))))) writes
  | closed {id : Nat} {index : Fin maxOpenFiles} {handle : Handle}
      (hslot : session.volume.slot? id = some (index, handle)) :
      Effect session sectors (.close id) (.ok (.done, session.volume.setSlot index none)) []
  | writtenAt {handle : Handle} {position : Nat} {data : ByteArray} {writes : List Write}
      (hintact : session.image.Intact sectors handle.sector handle.node)
      (hsplices : session.image.Overwrites handle.sector position data writes) :
      Effect session sectors (.writeAt handle position data)
        (.ok (.count (handle.clamp data.size position), session.volume)) writes
  | remounted {mapNode rootNode : Node}
      (hmap : session.image.node? freeMapSector = some mapNode)
      (hroot : session.image.node? rootSector = some rootNode) :
      Effect session sectors .remount
        (.ok (.done, .withRoots ⟨freeMapSector, mapNode, 0⟩ ⟨rootSector, rootNode, 0⟩)) []

/-- The call ends with one of the effects. -/
def Performed (session : Session) (sectors : Nat) (call : Call) : Prop :=
  ∃ outcome writes, Performs (call.perform session.volume) session.image sectors outcome writes ∧
    session.Effect sectors call outcome writes

/-- The call does not go through the volume, it only looks at the disk, and it returns the volume as
it is. -/
def LooksOnly (session : Session) (call : Call) : Prop :=
  ¬ call.IsAddressed ∧ ∃ (α : Type) (action : Action α) (answer : α → Answer), Quiet action ∧
    (call.perform session.volume = do return (answer (← action), session.volume)) ∧
    session.writing call = none ∧ ∀ value, (answer value).opened session.volume = none

/-- What a call stops with is a refusal, and then nothing is written. -/
theorem Effect.of_error {stop : Stop} {writes : List Write}
    (h : session.Effect sectors call (.error stop) writes) :
    (∃ cause, stop = .error cause ∧ cause.IsRefusal) ∧ writes = [] := by
  cases h with
  | refused hcause hwriting => exact ⟨⟨_, rfl, hcause⟩, rfl⟩

/-- A removal is refused, or it frees the entry that its path names. -/
theorem Effect.of_removal {text : String} {outcome : Except Stop (Answer × Volume)}
    {writes : List Write} (h : session.Effect sectors call outcome writes)
    (hcall : call = .remove text ∨ call = .removeTree text) :
    (∃ cause, outcome = .error cause ∧ writes = []) ∨
      ∃ path parent directory name index target table map, Path.parse text = .ok path ∧
        session.image.Names path parent directory name index target ∧
        session.image.Removed sectors directory index target table map ∧
        outcome = .ok (.done, session.volume.keepLive ((session.image.freeMap sectors).clearAll
          (session.image.treeSectors (sectors + 3) target))) ∧
        writes = table ++ map := by
  cases h with
  | refused hcause hwriting => exact .inl ⟨_, rfl, rfl⟩
  | @removed _ other _ _ _ _ _ _ _ _ hremoval hparse hnames hremoved =>
    obtain rfl : text = other := by
      rcases hcall with rfl | rfl
      · simpa using hremoval
      · simpa using hremoval
    exact .inr ⟨_, _, _, _, _, _, _, _, hparse, hnames, hremoved, rfl, rfl⟩
  | created hcreates => rcases hcall with rfl | rfl <;> cases hcreates
  | listed | handed | opened | read | written | closed | writtenAt | remounted =>
    rcases hcall with hcall | hcall <;> cases hcall

/-- The handle was in the table before, at this or another position. -/
def Had (session : Session) (index : Fin maxOpenFiles) (handle : Handle) : Prop :=
  ∃ old position, session.volume.table[index] = some old ∧ position ≤ old.length ∧
    handle = old.seek position

section Table

variable {index : Fin maxOpenFiles} {handle : Handle}

theorem Mounted.had_of_slot (h : session.Mounted sectors)
    (hslot : session.volume.table[index] = some handle) : session.Had index handle :=
  ⟨handle, handle.position, hslot, (h.carries index handle hslot).position_le, rfl⟩

/-- A transfer moves one position, and not past the end of the file. -/
theorem Mounted.had_of_transfer (h : session.Mounted sectors) {id count : Nat}
    {place : Fin maxOpenFiles} {found : Handle}
    (hfound : session.volume.slot? id = some (place, found))
    (hslot : (session.volume.setSlot place (some (found.seek
      (found.position + found.clamp count found.position)))).table[index] = some handle) :
    session.Had index handle := by
  obtain ⟨htable, -⟩ := Volume.table_of_slot? hfound
  rw [Volume.table_setSlot] at hslot
  split at hslot
  · rename_i hindex
    have hposition := (h.carries place found htable).position_le
    refine ⟨found, _, hindex ▸ htable, ?_, (Option.some.inj hslot).symm⟩
    rw [Handle.clamp]
    omega
  · exact h.had_of_slot hslot

/-- What is in the table after a call was opened by it at the start of what its path leads to, or it
was there before, at this or another position. -/
theorem Effect.slot_cases {answer : Answer} {volume : Volume} {writes : List Write}
    (h : session.Effect sectors call (.ok (answer, volume)) writes)
    (hmounted : session.Mounted sectors) (hslot : volume.table[index] = some handle) :
    (∃ text target, call = .openFile text ∧ answer = .identifier (index + 1) ∧
      session.volume.table[index] = none ∧ session.image.locate text = .ok target ∧
      target.sector = handle.sector ∧ session.image.Serves handle ∧ writes = []) ∨
    (answer ≠ .identifier (index + 1) ∧ session.Had index handle) := by
  cases h with
  | created hcreates => exact .inr ⟨by simp, hmounted.had_of_slot hslot⟩
  | removed hcall hparse hnames hremoved =>
    rw [Volume.table_keepLive, Option.filter_eq_some_iff] at hslot
    exact .inr ⟨by simp, hmounted.had_of_slot hslot.1⟩
  | listed => exact .inr ⟨by simp, hmounted.had_of_slot hslot⟩
  | handed => exact .inr ⟨by simp, hmounted.had_of_slot hslot⟩
  | @opened text opened target place hlocate hsector hserves hclosed =>
    rw [Volume.table_setSlot] at hslot
    split at hslot
    · rename_i hindex
      subst hindex
      obtain rfl := Option.some.inj hslot
      exact .inl ⟨text, target, rfl, rfl, hclosed, hlocate, hsector, hserves, rfl⟩
    · rename_i hindex
      refine .inr ⟨fun hsame ↦ hindex ?_, hmounted.had_of_slot hslot⟩
      exact Fin.ext (Nat.succ_inj.mp (Answer.identifier.inj hsame)).symm
  | read hfound => exact .inr ⟨by simp, hmounted.had_of_transfer hfound hslot⟩
  | written hfound => exact .inr ⟨by simp, hmounted.had_of_transfer hfound hslot⟩
  | closed hfound =>
    rw [Volume.table_setSlot] at hslot
    split at hslot
    · contradiction
    · exact .inr ⟨by simp, hmounted.had_of_slot hslot⟩
  | writtenAt => exact .inr ⟨by simp, hmounted.had_of_slot hslot⟩
  | remounted => simp [Volume.withRoots] at hslot

end Table

/-- What a call opens is the file of some place, and then nothing is written. -/
theorem Effect.of_opened {answer : Answer} {volume : Volume} {writes : List Write}
    (h : session.Effect sectors call (.ok (answer, volume)) writes) {handle : Handle}
    (hopened : answer.opened volume = some handle) :
    session.image.Serves handle ∧ writes = [] := by
  cases h with
  | handed hlocate hsector hserves =>
    obtain rfl := Option.some.inj hopened
    exact ⟨hserves, rfl⟩
  | opened hlocate hsector hserves hclosed =>
    rw [Answer.opened, Volume.slot?_setSlot] at hopened
    obtain rfl := Option.some.inj hopened
    exact ⟨hserves, rfl⟩
  | created | removed | listed | read | written | closed | writtenAt | remounted =>
    simp [Answer.opened] at hopened

/-- Every call goes on with the nodes of the root files. -/
theorem Effect.attached {answer : Answer} {volume : Volume} {writes : List Write}
    (h : session.Effect sectors call (.ok (answer, volume)) writes)
    (hattached : session.volume.Attached session.image) : volume.Attached session.image := by
  have hsame {other : Volume} (hmap : other.mapFile = session.volume.mapFile)
      (hroot : other.rootFile = session.volume.rootFile) : other.Attached session.image :=
    ⟨hmap ▸ hattached.mapFile_sector, hmap ▸ hattached.mapFile_node,
      hroot ▸ hattached.rootFile_sector, hroot ▸ hattached.rootFile_node⟩
  cases h with
  | created | listed | handed | writtenAt => exact hattached
  | removed | opened | read | written | closed => exact hsame rfl rfl
  | remounted hmap hroot => exact ⟨rfl, hmap, rfl, hroot⟩

/-- A call that only looks leaves the disk alike and the volume as it is, and it opens nothing. -/
theorem LooksOnly.perform_eq (h : session.LooksOnly call) :
    ∃ outcome final, call.perform session.volume session.drive = conclude outcome final ∧
      session.drive.disk.Alike final.disk ∧ ∀ answer volume, outcome = .ok (answer, volume) →
        volume = session.volume ∧ answer.opened volume = none := by
  obtain ⟨-, α, action, answer, hquiet, hcall, -, hopened⟩ := h
  have halike := hquiet session.drive
  rw [hcall]
  change ∃ outcome final, EStateM.bind action _ session.drive = conclude outcome final ∧ _
  rw [EStateM.bind]
  cases hrun : action session.drive with
  | error stop final =>
    rw [hrun] at halike
    exact ⟨.error stop, final, rfl, halike, by simp⟩
  | ok value final =>
    rw [hrun] at halike
    refine ⟨.ok (answer value, session.volume), final, rfl, halike, fun _ volume hsame ↦ ?_⟩
    obtain ⟨rfl, rfl⟩ := Prod.mk.inj (Except.ok.inj hsame)
    exact ⟨rfl, hopened value⟩

/-- After a call that only looks, the disk, the volume and the files that are live are as before. -/
theorem LooksOnly.step_eq (h : session.LooksOnly call) :
    ∃ final live, session.step call = ⟨final, session.volume, live⟩ ∧
      session.drive.disk.Alike final.disk ∧ ∀ file ∈ live, file ∈ session.live := by
  obtain ⟨outcome, final, hfinal, halike, hok⟩ := h.perform_eq
  rw [step_eq_resume, hfinal]
  cases outcome with
  | error stop => exact ⟨final, _, rfl, halike, fun _ hfile ↦ hfile.1⟩
  | ok result =>
    obtain ⟨answer, volume⟩ := result
    obtain ⟨rfl, hopened⟩ := hok answer volume rfl
    refine ⟨final, _, rfl, halike, fun file hfile ↦ ?_⟩
    obtain ⟨hold | ⟨handle, hhandle, -⟩, -⟩ := hfile
    · exact hold
    · rw [hopened] at hhandle
      contradiction

namespace Mounted

/-! ## Call by call -/

theorem performed_creates (h : session.Mounted sectors) {text : String} {size : Nat}
    {isDirectory : Bool} (hcall : call.Creates text size isDirectory) :
    session.Performed sectors call := by
  obtain ⟨path, parent, directory, name, index, height, sector, node, fresh, table, map, hparse,
    hadmits, hrun, hcreated⟩ | ⟨-, cause, hcause, hrun⟩ := h.create_performs hcall
  · exact ⟨_, _, hrun, .created hcall hparse hadmits hcreated⟩
  · exact ⟨_, _, hrun, .refused hcause (writing_of_creates hcall)⟩

theorem performed_removal {text : String} {action : Action Volume}
    (hremoval : Volume.RemovalPerforms action session.volume session.image sectors text)
    (hcall : call = .remove text ∨ call = .removeTree text)
    (hperform : call.perform session.volume = do return (.done, ← action)) :
    session.Performed sectors call := by
  rw [Performed, hperform]
  obtain ⟨cause, hcause, hrun⟩ | ⟨path, parent, directory, name, index, target, table, map, hparse,
    hnames, hrun, hremoved⟩ := hremoval
  · refine ⟨_, _, hrun.stop, .refused hcause ?_⟩
    rcases hcall with rfl | rfl <;> rfl
  · exact ⟨_, _, hrun.map fun volume ↦ (Answer.done, volume), .removed hcall hparse hnames hremoved⟩

theorem performed_list (h : session.Mounted sectors) (text : String) (recursive : Bool) :
    session.Performed sectors (.list text recursive) := by
  have hresolve := Volume.resolve_performs h.attached h.whole text
  cases hlocate : session.image.locate text with
  | error cause =>
    rw [hlocate] at hresolve
    exact ⟨_, _, Performs.stop (Performs.stop hresolve),
      .refused (Image.isRefusal_of_locate hlocate) rfl⟩
  | ok target =>
    obtain ⟨sector, isDirectory⟩ := target
    cases isDirectory with
    | false =>
      rw [hlocate] at hresolve
      refine ⟨_, _, Performs.stop (Performs.step hresolve (Performs.fail .notADirectory)),
        .refused (by simp [Error.IsRefusal]) rfl⟩
    | true =>
      obtain ⟨lines, -, hdeep, hflat⟩ := Volume.list_performs h.attached h.whole hlocate
      cases recursive with
      | false => exact ⟨_, _, hflat.step (Performs.pure _), .listed⟩
      | true => exact ⟨_, _, hdeep.step (Performs.pure _), .listed⟩

theorem performed_openHandle (h : session.Mounted sectors) (text : String) :
    session.Performed sectors (.openHandle text) := by
  obtain ⟨cause, hlocate, hrun⟩ | ⟨handle, target, hlocate, hstart, hserves, hrun⟩ :=
    Volume.openHandle_performs h.attached h.whole text
  · exact ⟨_, _, hrun.stop, .refused (Image.isRefusal_of_locate hlocate) rfl⟩
  · exact ⟨_, _, hrun.step (Performs.pure _), .handed hlocate hstart.sector_eq hserves⟩

theorem performed_openFile (h : session.Mounted sectors) (text : String) :
    session.Performed sectors (.openFile text) := by
  obtain ⟨cause, hcause, -, hrun⟩ | ⟨handle, target, index, hlocate, hstart, hserves, hclosed, -,
    hrun⟩ := h.openFile_performs text
  · exact ⟨_, _, hrun, .refused hcause rfl⟩
  · exact ⟨_, _, hrun, .opened hlocate hstart.sector_eq hserves hclosed⟩

theorem slot_of_none {volume : Volume} {id : Nat} (h : volume.slot? id = none) :
    volume.slot id = .error (.invalidArgument (.unknownFile id)) := by
  rw [Volume.slot, h]

theorem performed_read (h : session.Mounted sectors) (id count : Nat) :
    session.Performed sectors (.read id count) := by
  cases hslot : session.volume.slot? id with
  | none =>
    refine ⟨.error (.error (.invalidArgument (.unknownFile id))), [], ?_,
      .refused (by simp [Error.IsRefusal]) rfl⟩
    rw [Call.perform, Volume.read_eq, slot_of_none hslot]
    exact Performs.stop (Performs.stop (Performs.fail _))
  | some found => exact ⟨_, _, h.read_performs hslot count, .read hslot⟩

theorem performed_write (h : session.Mounted sectors) (id : Nat) (data : ByteArray) :
    session.Performed sectors (.write id data) := by
  cases hslot : session.volume.slot? id with
  | none =>
    refine ⟨.error (.error (.invalidArgument (.unknownFile id))), [], ?_,
      .refused (by simp [Error.IsRefusal]) (by rw [writing, hslot]; rfl)⟩
    rw [Call.perform, Volume.write_eq, slot_of_none hslot]
    exact Performs.stop (Performs.stop (Performs.fail _))
  | some found =>
    obtain ⟨writes, hrun, hsplices⟩ := h.write_performs hslot data
    exact ⟨_, _, hrun, .written hslot hsplices⟩

theorem performed_close (session : Session) (sectors id : Nat) :
    session.Performed sectors (.close id) := by
  cases hslot : session.volume.slot? id with
  | none =>
    refine ⟨.error (.error (.invalidArgument (.unknownFile id))), [], ?_,
      .refused (by simp [Error.IsRefusal]) rfl⟩
    rw [Call.perform, Volume.close_eq, slot_of_none hslot]
    exact Performs.stop (Performs.fail _)
  | some found => exact ⟨_, _, close_performs hslot, .closed hslot⟩

theorem performed_remount (h : session.Mounted sectors) : session.Performed sectors .remount := by
  obtain ⟨mapNode, rootNode, hmap, hroot, hrun⟩ := h.remount_performs
  exact ⟨_, _, hrun, .remounted hmap hroot⟩

/-! ## Every call -/

/-- Every call that goes through the volume ends with one of the effects. -/
theorem performed (h : session.Mounted sectors) (hcall : call.IsAddressed) :
    session.Performed sectors call := by
  cases call with
  | create text size => exact h.performed_creates (.file text size)
  | createDirectory text => exact h.performed_creates (.directory text)
  | remove text =>
    exact performed_removal (Volume.remove_performs h.attached h.whole h.covered text)
      (.inl rfl) rfl
  | removeTree text =>
    exact performed_removal (Volume.removeTree_performs h.attached h.whole h.covered text)
      (.inr rfl) rfl
  | list text recursive => exact h.performed_list text recursive
  | openHandle text => exact h.performed_openHandle text
  | openFile text => exact h.performed_openFile text
  | read id count => exact h.performed_read id count
  | write id data => exact h.performed_write id data
  | close id => exact performed_close session sectors id
  | readAt | writeAt | freeSectors | report | sync | remount => exact hcall.elim

theorem performed_of_removal (h : session.Mounted sectors) {text : String}
    (hcall : call = .remove text ∨ call = .removeTree text) : session.Performed sectors call := by
  apply h.performed
  rcases hcall with rfl | rfl <;> trivial

/-- Every call ends with one of the effects or only looks at the disk, if what is written through a
handle goes to an intact file. -/
theorem performed_or_looks (h : session.Mounted sectors)
    (hintact : ∀ handle position data, call = .writeAt handle position data →
      session.image.Intact sectors handle.sector handle.node) :
    session.Performed sectors call ∨ session.LooksOnly call := by
  cases call with
  | writeAt handle position data =>
    have hfile := hintact handle position data rfl
    obtain ⟨writes, hrun, hsplices⟩ := h.writeAt_performs hfile position data
    exact .inl ⟨_, _, hrun, .writtenAt hfile hsplices⟩
  | remount => exact .inl h.performed_remount
  | readAt handle position count =>
    exact .inr ⟨id, _, _, Answer.bytes, (Composed.readAt handle position count).quiet, rfl, rfl,
      fun _ ↦ rfl⟩
  | freeSectors =>
    exact .inr ⟨id, _, _, Answer.count, (Composed.freeSectors session.volume).quiet, rfl, rfl,
      fun _ ↦ rfl⟩
  | report =>
    exact .inr ⟨id, _, _, Answer.text, (Composed.report session.volume).quiet, rfl, rfl,
      fun _ ↦ rfl⟩
  | sync => exact .inr ⟨id, _, _, fun _ ↦ Answer.done, Composed.sync.quiet, rfl, rfl, fun _ ↦ rfl⟩
  | create | createDirectory | remove | removeTree | list | openHandle | openFile | read | write
  | close => exact .inl (h.performed trivial)

/-- Every permitted call ends with one of the effects or only looks at the disk. -/
theorem performed_of_permits (h : session.Mounted sectors) (hpermits : session.Permits call) :
    session.Performed sectors call ∨ session.LooksOnly call := by
  refine h.performed_or_looks fun handle position data hcall ↦ ?_
  subst hcall
  exact (h.intact_of_live hpermits).2

end Mounted

end Session

end SectorFS
