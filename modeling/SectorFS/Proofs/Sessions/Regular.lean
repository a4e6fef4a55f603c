import SectorFS.Proofs.Sessions.Isolation

/-!
# Tables of regular files

A call that writes is permitted only if it goes to a regular file that has not been removed
since it was opened. For a file of the table this need not be asked of the programs: a removal
closes the files that it takes away, so if only regular files are opened into the table, all
files in it are live, and every write to one of them is permitted.
-/

namespace SectorFS

variable {sectors : Nat} {session : Session} {call : Call}

/-- Where a regular file was, and where some place still leads to after a change, there is a
regular file. -/
theorem Image.Change.hasFile_kept {image changed : Image}
    {written? : Option (Nat × Nat × ByteArray)} (hchange : Change sectors image written? changed)
    (h : image.Sound sectors) {target : Target} (hfile : image.HasFile target.sector)
    {place : Place} (hplace : changed.targetAt place = some target) :
    changed.HasFile target.sector := by
  obtain ⟨home, hhome⟩ := hfile
  cases hchange with
  | same => exact ⟨home, hhome⟩
  | created hadmits hcreated =>
    refine ⟨home, ?_⟩
    rw [Created.targetAt_final hcreated h hadmits, if_neg, hhome]
    rintro rfl
    rw [hadmits.targetAt_self] at hhome
    contradiction
  | removed hnames hremoved =>
    have hold := hplace
    rw [Removed.targetAt_final hremoved h hnames] at hold
    split at hold
    · contradiction
    · obtain rfl := h.place_eq hold hhome rfl
      exact ⟨place, hplace.trans (hold.symm.trans hhome)⟩
  | written hwritten hsplices =>
    exact ⟨home, (targetAt_written hsplices h hwritten home).trans hhome⟩

namespace Session

/-! ## Live tables -/

/-- Every file of the table is a regular file that has been there since it was opened. -/
def TableLive (session : Session) : Prop :=
  ∀ (index : Fin maxOpenFiles) (handle : Handle), session.volume.table[index] = some handle →
    (handle.sector, handle.node) ∈ session.live

/-- What the table opens is a regular file, if the path leads anywhere, and what is written through a
handle goes to a regular file that has not been removed since it was opened. -/
def OnFile (session : Session) : Call → Prop
  | .openFile text => ∀ target, session.resolve text = .ok target → target.isDirectory = false
  | .writeAt handle _ _ => (handle.sector, handle.node) ∈ session.live
  | _ => True

theorem TableLive.permits (hlive : session.TableLive) (hfile : session.OnFile call) :
    session.Permits call := by
  cases call with
  | write id data => exact fun index handle hslot ↦ hlive index handle (Volume.table_of_slot? hslot).1
  | writeAt handle position data => exact hfile
  | create | createDirectory | remove | removeTree | list | openHandle | openFile | read | close
  | readAt | freeSectors | report | sync | remount => trivial

/-- What was opened into the table by a path to a regular file is live. -/
theorem Valid.live_openFile (h : session.Valid sectors) {text : String}
    (hfile : session.OnFile (.openFile text)) {answer : Answer} {volume : Volume}
    (hrun : Performs ((Call.openFile text).perform session.volume) session.image sectors
      (.ok (answer, volume)) [])
    {index : Fin maxOpenFiles} {handle : Handle} (hanswer : answer = .identifier (index + 1))
    (hslot : volume.table[index] = some handle) {target : Target}
    (hlocate : session.image.locate text = .ok target) (hsector : target.sector = handle.sector) :
    (handle.sector, handle.node) ∈ (session.step (.openFile text)).live := by
  have hopened : answer.opened volume = some handle := by
    rw [hanswer, Answer.opened, Volume.slot?_of_table hslot, Option.map_some]
  have hkind := hfile target (h.resolve_eq_ok.mpr hlocate)
  obtain ⟨place, hplace⟩ := Image.exists_place_of_locate hlocate
  refine h.live_opened hrun hopened ⟨place, ?_⟩
  rw [h.image_of_performs hrun, Image.putAll_nil, hplace, ← hsector, ← hkind]

/-- The files of the table stay live: a removal closes those that it takes away, and no call makes
a directory of a file. -/
theorem Valid.tableLive_step (h : session.Valid sectors) (hlive : session.TableLive)
    (hfile : session.OnFile call) : (session.step call).TableLive := by
  have hpermits := hlive.permits hfile
  obtain ⟨hvalid, hchange⟩ := h.step hpermits
  intro index handle hslot
  obtain ⟨place, target, hplace, hsector⟩ := hvalid.reached index handle hslot
  have hkept {old : Handle} (hold : session.volume.table[index] = some old)
      (hsame : handle.sector = old.sector) (hnode : handle.node = old.node) :
      (handle.sector, handle.node) ∈ (session.step call).live := by
    have hbefore := hlive index old hold
    rw [← hsame, ← hnode, ← hsector] at hbefore
    rw [← hsector]
    exact live_step hbefore
      (hchange.hasFile_kept h.whole (h.intact_of_live hbefore).1 hplace)
  obtain ⟨outcome, writes, hrun, heffect⟩ | hlooks := h.performed_of_permits hpermits
  · cases outcome with
    | error stop =>
      rw [h.volume_of_stopped hrun] at hslot
      exact hkept hslot rfl rfl
    | ok result =>
      obtain ⟨answer, volume⟩ := result
      rw [h.volume_of_performs hrun] at hslot
      obtain ⟨text, found, rfl, hanswer, -, hlocate, hfound, -, rfl⟩ |
        ⟨-, old, position, hold, -, rfl⟩ := heffect.slot_cases h.toMounted hslot
      · exact h.live_openFile hfile hrun hanswer hslot hlocate hfound
      · exact hkept hold rfl rfl
  · obtain ⟨final, live, hstep, -⟩ := hlooks.step_eq
    have hvolume : (session.step call).volume = session.volume := by rw [hstep]
    rw [hvolume] at hslot
    exact hkept hslot rfl rfl

/-! ## Runs -/

/-- The sessions that start with a successful format of a disk that has all its sectors and refuses
nothing, and go on with calls that open regular files only into the table. -/
inductive OnFiles (sectors : Nat) : Session → Prop
  | format {drive formatted : Drive} {volume : Volume}
      (hcount : drive.disk.sectorCount = sectors)
      (hsize : sectors * sectorSize ≤ drive.disk.medium.size)
      (hfaults : drive.disk.faults = .none)
      (hformat : Volume.format drive = .ok volume formatted) :
      OnFiles sectors (begin formatted volume)
  | call {session : Session} {call : Call} (hsession : OnFiles sectors session)
      (hfile : session.OnFile call) : OnFiles sectors (session.step call)

/-- Every call of such a session is permitted. -/
theorem OnFiles.reached_live (h : OnFiles sectors session) :
    Reached sectors session ∧ session.TableLive := by
  induction h with
  | format hcount hsize hfaults hformat =>
    refine ⟨.format hcount hsize hfaults hformat, fun index handle hslot ↦ ?_⟩
    rw [begin, (begin_valid hcount hsize hfaults hformat).2.2 index] at hslot
    contradiction
  | call hsession hfile ih =>
    obtain ⟨hreached, hlive⟩ := ih
    exact ⟨hreached.call (hlive.permits hfile), hreached.valid.tableLive_step hlive hfile⟩

/-- Every call keeps to regular files when its turn comes. -/
def OnFileAll (session : Session) : List Call → Prop
  | [] => True
  | call :: rest => session.OnFile call ∧ (session.step call).OnFileAll rest

end Session

end SectorFS
