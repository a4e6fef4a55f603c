import SectorFS.Proofs.Sessions.Resemblance
import SectorFS.Proofs.Sessions.Steps

/-!
# The same call on two sessions

Two sessions resemble each other if their volumes are the same and their images resemble each
other. Every call but a read ends on both in the same way, with the same answer or the same
refusal, and leaves images that resemble each other. A read may return other bytes, but as many
of them, and it moves the file to the same position. So two sessions that resemble each other
go on to do so, whatever is asked of both.
-/

namespace SectorFS

variable {image other : Image} {sectors : Nat}

/-! ## The same outcome on two images -/

/-- On both images the action ends in the same way and writes nothing. -/
def Concurs {α : Type} (action : Action α) (image other : Image) (sectors : Nat) : Prop :=
  ∃ outcome, Performs action image sectors outcome [] ∧ Performs action other sectors outcome []

namespace Concurs

variable {α β : Type}

theorem pure (value : α) : Concurs (Pure.pure value) image other sectors :=
  ⟨_, Performs.pure value, Performs.pure value⟩

theorem fail (cause : Error) : Concurs (SectorFS.fail cause : Action α) image other sectors :=
  ⟨_, Performs.fail cause, Performs.fail cause⟩

theorem liftError (result : Except Error α) :
    Concurs (liftM result : Action α) image other sectors := by
  cases result with
  | ok value => exact pure value
  | error cause => exact fail cause

theorem bind {action : Action α} {next : α → Action β}
    (haction : Concurs action image other sectors)
    (hnext : ∀ value, Concurs (next value) image other sectors) :
    Concurs (action >>= next) image other sectors := by
  obtain ⟨outcome, hleft, hright⟩ := haction
  cases outcome with
  | error stop => exact ⟨.error stop, hleft.stop, hright.stop⟩
  | ok value =>
    obtain ⟨outcome, hnextLeft, hnextRight⟩ := hnext value
    exact ⟨outcome, hleft.step hnextLeft, hright.step hnextRight⟩

/-! ### Looking into a volume -/

section Volumes

variable (h : image.Resembles other sectors) (hsound : image.Sound sectors)
  (hother : other.Sound sectors) {volume : Volume} (hvolume : volume.Attached image)

include h hsound

theorem mount : Concurs Volume.mount image other sectors := by
  have hword := Nat.le_of_lt hsound.sectors_lt
  obtain ⟨mapNode, hmap⟩ := hsound.intact_map
  obtain ⟨rootNode, hroot⟩ := hsound.intact_item image.targetAt_nil
  exact ⟨_, Volume.mount_performs hmap hroot hword,
    Volume.mount_performs (hmap.congr (h.unmoved .map _ image.headOf_map))
      (h.intact image.targetAt_nil hroot) hword⟩

include hother hvolume

theorem openHandle (text : String) : Concurs (volume.openHandle text) image other sectors := by
  have hword := Nat.le_of_lt hsound.sectors_lt
  have hleft := Volume.resolve_performs hvolume hsound text
  have hright := Volume.resolve_performs (h.attached hvolume) hother text
  rw [h.locate_eq] at hright
  cases hlocate : image.locate text with
  | error cause =>
    rw [hlocate] at hleft hright
    exact ⟨_, (Performs.note _ _).step (Performs.stop hleft),
      (Performs.note _ _).step (Performs.stop hright)⟩
  | ok target =>
    rw [hlocate] at hleft hright
    obtain ⟨place, hplace⟩ := Image.exists_place_of_locate hlocate
    obtain ⟨node, hintact⟩ := hsound.intact_item hplace
    exact ⟨_, (Performs.note _ _).step (Performs.step hleft (Handle.fetch_performs hintact hword)),
      (Performs.note _ _).step (Performs.step hright
        (Handle.fetch_performs (h.intact hplace hintact) hword))⟩

theorem openFile (text : String) : Concurs (volume.openFile text) image other sectors := by
  rw [Volume.openFile_eq]
  refine (openHandle h hsound hother hvolume text).bind fun handle ↦ ?_
  split
  · exact fail _
  · exact pure _

theorem list (text : String) (recursive : Bool) :
    Concurs (volume.list text recursive) image other sectors := by
  have hleft := Volume.resolve_performs hvolume hsound text
  have hright := Volume.resolve_performs (h.attached hvolume) hother text
  have hsame := h.locate_eq text
  rw [hsame] at hright
  cases hlocate : image.locate text with
  | error cause =>
    rw [hlocate] at hleft hright
    exact ⟨_, Performs.stop hleft, Performs.stop hright⟩
  | ok target =>
    obtain ⟨sector, isDirectory⟩ := target
    cases isDirectory with
    | false =>
      rw [hlocate] at hleft hright
      exact ⟨_, Performs.step hleft (Performs.fail .notADirectory),
        Performs.step hright (Performs.fail .notADirectory)⟩
    | true =>
      obtain ⟨place, hplace⟩ := Image.exists_place_of_locate hlocate
      obtain ⟨lines, hlines, hdeep, hflat⟩ := Volume.list_performs hvolume hsound hlocate
      obtain ⟨met, hmet, hdeep', hflat'⟩ :=
        Volume.list_performs (h.attached hvolume) hother (hsame.trans hlocate)
      rw [h.table_eq place sector hplace] at hmet hflat'
      rw [h.preorder_eq hplace (fun _ hentry ↦ hentry) hlines hmet] at hdeep'
      cases recursive with
      | false => exact ⟨_, hflat, hflat'⟩
      | true => exact ⟨_, hdeep, hdeep'⟩

theorem freeSectors : Concurs volume.freeSectors image other sectors := by
  have hright := (h.attached hvolume).freeSectors_performs hother
  rw [h.freeMap_eq] at hright
  exact ⟨_, hvolume.freeSectors_performs hsound, hright⟩

theorem report : Concurs volume.report image other sectors := by
  have hright := Volume.report_performs (h.attached hvolume) hother
  rw [h.report_eq] at hright
  exact ⟨_, Volume.report_performs hvolume hsound, hright⟩

end Volumes

end Concurs

/-! ## Two sessions -/

/-- The volume to go on with after an outcome, and the handle that was opened. -/
def Volume.after (volume : Volume) : Except Stop (Answer × Volume) → Volume × Option Handle
  | .ok (answer, next) => (next, answer.opened next)
  | .error _ => (volume, none)

theorem Volume.after_of_silent {volume : Volume} {outcome : Except Stop (Answer × Volume)}
    (h : ∀ answer next, outcome = .ok (answer, next) → next = volume ∧ answer.opened next = none) :
    volume.after outcome = (volume, none) := by
  cases outcome with
  | error stop => rfl
  | ok result =>
    obtain ⟨answer, next⟩ := result
    obtain ⟨rfl, hnone⟩ := h answer next rfl
    rw [after, hnone]

namespace Session

variable {session : Session} {call : Call}

/-- What a session is after a call, by what the call ended with. -/
theorem step_of_conclude {outcome : Except Stop (Answer × Volume)} {final : Drive}
    (hfinal : call.perform session.volume session.drive = conclude outcome final) :
    (session.step call).drive = final ∧
      (session.step call).volume = (session.volume.after outcome).1 ∧
      ∀ file, file ∈ (session.step call).live ↔
        (file ∈ session.live ∨ ∃ handle, (session.volume.after outcome).2 = some handle ∧
          file = (handle.sector, handle.node)) ∧ Image.HasFile final.disk.sector file.1 := by
  rw [step_eq_resume, hfinal]
  cases outcome with
  | ok result => exact ⟨rfl, rfl, fun _ ↦ Iff.rfl⟩
  | error stop =>
    refine ⟨rfl, rfl, fun file ↦ and_congr_left' (or_iff_left ?_).symm⟩
    rintro ⟨handle, hnone, -⟩
    contradiction

/-- Two valid sessions with the same volume and the same live files, on images that resemble each
other. -/
structure Resembles (session other : Session) (sectors : Nat) : Prop where
  valid : session.Valid sectors
  other_valid : other.Valid sectors
  volume_eq : other.volume = session.volume
  live_subset : ∀ file ∈ session.live, file ∈ other.live
  images : session.image.Resembles other.image sectors

/-- The sessions end the call in the same way and go on with images that resemble each other. -/
def Joint (session other : Session) (sectors : Nat) (call : Call) : Prop :=
  ∃ outcome writes writes',
    Performs (call.perform session.volume) session.image sectors outcome writes ∧
    Performs (call.perform session.volume) other.image sectors outcome writes' ∧
    (session.image.putAll writes).Resembles (other.image.putAll writes') sectors

namespace Resembles

variable {other : Session} (h : session.Resembles other sectors)

include h

theorem attached : session.volume.Attached other.image := h.images.attached h.valid.attached

theorem covered : session.volume.Covered sectors := h.valid.covered

theorem permits (hpermits : session.Permits call) : other.Permits call := by
  cases call with
  | write id data =>
    intro index handle hslot
    rw [h.volume_eq] at hslot
    exact h.live_subset _ (hpermits index handle hslot)
  | writeAt handle position data => exact h.live_subset _ hpermits
  | create | createDirectory | remove | removeTree | list | openHandle | openFile | read | close
  | readAt | freeSectors | report | sync | remount => trivial

theorem writing_eq (call : Call) : other.writing call = session.writing call := by
  cases call <;> simp only [writing, h.volume_eq]

/-! ### Creations and removals -/

/-- A creation is admitted on both or refused on both for the same reason. -/
theorem joint_creates {text : String} {size : Nat} {isDirectory : Bool}
    (hcall : call.Creates text size isDirectory) : session.Joint other sectors call := by
  have hsound := h.valid.whole
  have hother := h.other_valid.whole
  obtain ⟨severity, noted, hperform⟩ := hcall.perform_eq session.volume
  rw [Joint, hperform]
  by_cases hadmitted : ∃ path, Path.parse text = .ok path ∧ ∃ parent directory name index height,
      session.image.Admits sectors path size parent directory name index height
  · obtain ⟨path, hparse, parent, directory, name, index, height, hadmits⟩ := hadmitted
    obtain ⟨sector, node, inner, hplanned⟩ := Node.exists_planned hadmits.height_eq hsound.clean
      (Image.Sound.sectors_freeMap _ sectors) hsound.sectors_lt hadmits.room
    have hplanned' := hplanned
    rw [← h.images.freeMap_eq] at hplanned'
    obtain ⟨fresh, table, map, hrun, hcreated, hrests⟩ := Volume.createEntry_created
      h.valid.attached hsound hparse hadmits hplanned hcall.size_eq
    obtain ⟨fresh', table', map', hrun', hcreated', hrests'⟩ := Volume.createEntry_created
      h.attached hother hparse (h.images.admits hadmits) hplanned' hcall.size_eq
    refine ⟨_, _, _, (Performs.note _ _).step (hrun.bind (Performs.pure _)),
      (Performs.note _ _).step (hrun'.bind (Performs.pure _)), ?_⟩
    rw [List.append_nil, List.append_nil]
    exact h.images.created hsound hother hadmits hcreated hcreated' hrests hrests'
  · have hrun := Volume.createEntry_refused h.valid.attached hsound text size isDirectory
      fun path hparse hadmits ↦ hadmitted ⟨path, hparse, hadmits⟩
    have hrun' := Volume.createEntry_refused h.attached hother text size isDirectory
      fun path hparse ⟨parent, directory, name, index, height, hadmits⟩ ↦
        hadmitted ⟨path, hparse, parent, directory, name, index, height,
          h.images.symm.admits hadmits⟩
    rw [h.images.creationRefusal_eq] at hrun'
    exact ⟨_, [], [], (Performs.note _ _).step hrun.stop, (Performs.note _ _).step hrun'.stop,
      h.images⟩

/-- What is removed from both images is the same entry. -/
theorem joint_frees {action : Action Volume} {path : Path} {name : String} {target : Target}
    (hperform : call.perform session.volume = do return (.done, ← action))
    (hfrees : Volume.Frees action session.volume session.image sectors path name target)
    (hfrees' : Volume.Frees action session.volume other.image sectors path name target) :
    session.Joint other sectors call := by
  have hsound := h.valid.whole
  have hother := h.other_valid.whole
  obtain ⟨parent, directory, index, table, map, hnames, hrun, hremoved⟩ := hfrees
  obtain ⟨parent', directory', index', table', map', hnames', hrun', hremoved'⟩ := hfrees'
  obtain ⟨rfl, rfl, rfl⟩ := hnames'.unique hother (h.images.names hnames)
  rw [h.images.freeMap_eq, h.images.treeSectors_eq _ hnames.target_eq] at hrun'
  rw [Joint, hperform]
  exact ⟨_, _, _, hrun.map fun volume ↦ (Answer.done, volume),
    hrun'.map fun volume ↦ (Answer.done, volume),
    h.images.removed hsound hother hnames hremoved hremoved'⟩

theorem joint_refused {action : Action Volume} {stop : Stop}
    (hperform : call.perform session.volume = do return (.done, ← action))
    (hrun : Performs action session.image sectors (.error stop) [])
    (hrun' : Performs action other.image sectors (.error stop) []) :
    session.Joint other sectors call := by
  rw [Joint, hperform]
  exact ⟨_, [], [], hrun.stop, hrun'.stop, h.images⟩

theorem leads {text : String} {path : Path} {name : String} {target : Target}
    (hleads : Volume.Leads session.image text path name target) :
    Volume.Leads other.image text path name target :=
  ⟨hleads.parse_eq, hleads.name_eq, (h.images.resolve_eq path).trans hleads.target_eq⟩

/-- A removal whose path leads nowhere is refused on both for the same reason. -/
theorem joint_nowhere {action : Action Volume} {text : String}
    (hperform : call.perform session.volume = do return (.done, ← action))
    (haction : ∃ next, action = session.volume.atTarget text next)
    (hnot : ∀ path name target, ¬ Volume.Leads session.image text path name target) :
    session.Joint other sectors call := by
  obtain ⟨next, rfl⟩ := haction
  have hrun := @Volume.atTarget_refused _ _ _ text next h.valid.attached h.valid.whole hnot
  have hrun' := @Volume.atTarget_refused _ _ _ text next h.attached h.other_valid.whole
    fun path name target hleads ↦ hnot path name target
      ⟨hleads.parse_eq, hleads.name_eq, (h.images.resolve_eq path).symm.trans hleads.target_eq⟩
  rw [h.images.removalRefusal_eq] at hrun'
  exact h.joint_refused hperform hrun hrun'

theorem joint_remove (text : String) : session.Joint other sectors (.remove text) := by
  by_cases hleads : ∃ path name target, Volume.Leads session.image text path name target
  · obtain ⟨path, name, target, hleads⟩ := hleads
    have hleads' := h.leads hleads
    obtain ⟨parent, directory, index, hnames⟩ :=
      Image.exists_names hleads.name_eq hleads.target_eq
    have htable (hdirectory : target.isDirectory = true) :
        other.image.table target.sector = session.image.table target.sector := by
      obtain ⟨sector, isDirectory⟩ := target
      obtain rfl : isDirectory = true := hdirectory
      exact h.images.table_eq _ _ hnames.target_eq
    by_cases hchildless : target.isDirectory = true →
        (session.image.table target.sector).isEmpty = true
    · exact h.joint_frees rfl
        (Volume.remove_frees h.valid.attached h.valid.whole hleads h.covered hchildless)
        (Volume.remove_frees h.attached h.other_valid.whole hleads' h.covered fun hdirectory ↦ by
          rw [htable hdirectory]
          exact hchildless hdirectory)
    · rw [Classical.not_imp, Bool.not_eq_true] at hchildless
      obtain ⟨hdirectory, hentries⟩ := hchildless
      have hentries' : (other.image.table target.sector).isEmpty = false := by
        rw [htable hdirectory, hentries]
      exact h.joint_refused rfl
        (Volume.remove_occupied h.valid.attached h.valid.whole hleads hdirectory hentries)
        (Volume.remove_occupied h.attached h.other_valid.whole hleads' hdirectory hentries')
  · exact h.joint_nowhere rfl ⟨_, Volume.remove_eq session.volume text⟩
      fun path name target hfound ↦ hleads ⟨path, name, target, hfound⟩

theorem joint_removeTree (text : String) : session.Joint other sectors (.removeTree text) := by
  by_cases hleads : ∃ path name target, Volume.Leads session.image text path name target
  · obtain ⟨path, name, target, hleads⟩ := hleads
    exact h.joint_frees rfl
      (Volume.removeTree_frees h.valid.attached h.valid.whole hleads h.covered)
      (Volume.removeTree_frees h.attached h.other_valid.whole (h.leads hleads) h.covered)
  · exact h.joint_nowhere rfl ⟨_, Volume.removeTree_eq session.volume text⟩
      fun path name target hfound ↦ hleads ⟨path, name, target, hfound⟩

/-! ### Writing -/

/-- The same bytes go to the same regular file of both images. -/
theorem joint_write {id : Nat} (data : ByteArray) (hpermits : session.Permits (.write id data)) :
    session.Joint other sectors (.write id data) := by
  cases hslot : session.volume.slot? id with
  | none =>
    have hrun (image : Image) : Performs ((Call.write id data).perform session.volume) image sectors
        (.error (.error (.invalidArgument (.unknownFile id)))) [] := by
      rw [Call.perform, Volume.write_eq, Mounted.slot_of_none hslot]
      exact Performs.stop (Performs.stop (Performs.fail _))
    exact ⟨_, [], [], hrun _, hrun _, h.images⟩
  | some found =>
    obtain ⟨index, handle⟩ := found
    have hslot' : other.volume.slot? id = some (index, handle) := by rw [h.volume_eq, hslot]
    obtain ⟨⟨place, hplace⟩, -⟩ := h.valid.intact_of_live (hpermits index handle hslot)
    obtain ⟨writes, hrun, hsplices⟩ := h.valid.write_performs hslot data
    obtain ⟨writes', hrun', hsplices'⟩ := h.other_valid.write_performs hslot' data
    rw [h.volume_eq] at hrun'
    exact ⟨_, writes, writes', hrun, hrun',
      h.images.written h.valid.whole h.other_valid.whole hplace hsplices hsplices'⟩

theorem joint_writeAt {handle : Handle} {position : Nat} {data : ByteArray}
    (hpermits : session.Permits (.writeAt handle position data)) :
    session.Joint other sectors (.writeAt handle position data) := by
  obtain ⟨⟨place, hplace⟩, hintact⟩ := h.valid.intact_of_live hpermits
  obtain ⟨writes, hrun, hsplices⟩ := h.valid.writeAt_performs hintact position data
  obtain ⟨writes', hrun', hsplices'⟩ :=
    h.other_valid.writeAt_performs (h.images.intact hplace hintact) position data
  rw [h.volume_eq] at hrun'
  exact ⟨_, writes, writes', hrun, hrun',
    h.images.written h.valid.whole h.other_valid.whole hplace hsplices hsplices'⟩

/-! ### Every call -/

theorem joint_of_concurs
    (hconcurs : Concurs (call.perform session.volume) session.image other.image sectors) :
    session.Joint other sectors call := by
  obtain ⟨outcome, hrun, hrun'⟩ := hconcurs
  exact ⟨outcome, [], [], hrun, hrun', h.images⟩

/-- Both sessions end every call in the same way, except for the two that return bytes. -/
theorem joint (hpermits : session.Permits call) :
    session.Joint other sectors call ∨ (∃ id count, call = .read id count) ∨
      ∃ handle position count, call = .readAt handle position count := by
  have hsound := h.valid.whole
  have hother := h.other_valid.whole
  have hvolume := h.valid.attached
  cases call with
  | read id count => exact .inr (.inl ⟨id, count, rfl⟩)
  | readAt handle position count => exact .inr (.inr ⟨handle, position, count, rfl⟩)
  | create text size => exact .inl (h.joint_creates (.file text size))
  | createDirectory text => exact .inl (h.joint_creates (.directory text))
  | remove text => exact .inl (h.joint_remove text)
  | removeTree text => exact .inl (h.joint_removeTree text)
  | write id data => exact .inl (h.joint_write data hpermits)
  | writeAt handle position data => exact .inl (h.joint_writeAt hpermits)
  -- The others write nothing, and an answer is made of what they return.
  | list text recursive =>
    exact .inl (h.joint_of_concurs
      ((Concurs.list h.images hsound hother hvolume text recursive).bind fun _ ↦ .pure _))
  | openHandle text =>
    exact .inl (h.joint_of_concurs
      ((Concurs.openHandle h.images hsound hother hvolume text).bind fun _ ↦ .pure _))
  | openFile text =>
    exact .inl (h.joint_of_concurs
      ((Concurs.openFile h.images hsound hother hvolume text).bind fun _ ↦ .pure _))
  | close id =>
    have hclose : Concurs (session.volume.close id) session.image other.image sectors := by
      rw [Volume.close_eq]
      exact (Concurs.liftError _).bind fun _ ↦ .pure _
    exact .inl (h.joint_of_concurs (hclose.bind fun _ ↦ .pure _))
  | freeSectors =>
    exact .inl (h.joint_of_concurs
      ((Concurs.freeSectors h.images hsound hother hvolume).bind fun _ ↦ .pure _))
  | report =>
    exact .inl (h.joint_of_concurs
      ((Concurs.report h.images hsound hother hvolume).bind fun _ ↦ .pure _))
  | sync =>
    exact .inl (h.joint_of_concurs
      (Concurs.bind ⟨_, Performs.sync, Performs.sync⟩ fun _ ↦ .pure _))
  | remount =>
    exact .inl (h.joint_of_concurs ((Concurs.mount h.images hsound).bind fun _ ↦ .pure _))

/-! ## One call after the other -/

/-- Two sessions go on to resemble each other if the images do and both go on with the same volume
and have opened the same file. -/
theorem next (hpermits : session.Permits call) {outcome outcome' : Except Stop (Answer × Volume)}
    {final final' : Drive}
    (hfinal : call.perform session.volume session.drive = conclude outcome final)
    (hfinal' : call.perform session.volume other.drive = conclude outcome' final')
    (hafter : session.volume.after outcome' = session.volume.after outcome)
    (himages : Image.Resembles final.disk.sector final'.disk.sector sectors) :
    (session.step call).Resembles (other.step call) sectors := by
  rw [← h.volume_eq] at hfinal'
  obtain ⟨hdrive, hvolume, hlive⟩ := step_of_conclude hfinal
  obtain ⟨hdrive', hvolume', hlive'⟩ := step_of_conclude hfinal'
  rw [h.volume_eq, hafter] at hvolume' hlive'
  refine ⟨(h.valid.step hpermits).1, (h.other_valid.step (h.permits hpermits)).1,
    hvolume'.trans hvolume.symm, fun file hfile ↦ ?_, ?_⟩
  · obtain ⟨hopened, hplace⟩ := (hlive file).mp hfile
    exact (hlive' file).mpr ⟨hopened.imp_left (h.live_subset file),
      (himages.hasFile_iff file.1).mpr hplace⟩
  · rw [image, image, hdrive, hdrive']
    exact himages

/-- A read moves the file to the same position, whatever it returns. -/
theorem step_read (id count : Nat) :
    (session.step (.read id count)).Resembles (other.step (.read id count)) sectors := by
  cases hslot : session.volume.slot? id with
  | none =>
    have hrun (drive : Drive) : (Call.read id count).perform session.volume drive =
        conclude (.error (.error (.invalidArgument (.unknownFile id)))) drive := by
      rw [Call.perform, Volume.read_eq, Mounted.slot_of_none hslot]
      rfl
    exact @next _ _ (.read id count) _ h trivial _ _ _ _ (hrun _) (hrun _) rfl h.images
  | some found =>
    obtain ⟨index, handle⟩ := found
    have hslot' : other.volume.slot? id = some (index, handle) := by rw [h.volume_eq, hslot]
    have hrun := h.valid.read_performs hslot count
    have hrun' := h.other_valid.read_performs hslot' count
    rw [h.volume_eq] at hrun'
    obtain ⟨final, hfinal, halike⟩ := hrun.alike h.valid.holds h.valid.faults_eq
    obtain ⟨final', hfinal', halike'⟩ := hrun'.alike h.other_valid.holds h.other_valid.faults_eq
    refine @next _ _ (.read id count) _ h trivial _ _ _ _ hfinal hfinal' ?_ ?_
    · simp only [Volume.after, Answer.opened]
    · rw [halike.sector_eq, halike'.sector_eq]
      exact h.images

theorem step_readAt (handle : Handle) (position count : Nat) :
    (session.step (.readAt handle position count)).Resembles
      (other.step (.readAt handle position count)) sectors := by
  have hlooks (looking : Session) : looking.LooksOnly (.readAt handle position count) :=
    ⟨id, _, _, Answer.bytes, (Composed.readAt handle position count).quiet, rfl, rfl, fun _ ↦ rfl⟩
  obtain ⟨outcome, final, hfinal, halike, hok⟩ := (hlooks session).perform_eq
  obtain ⟨outcome', final', hfinal', halike', hok'⟩ := (hlooks other).perform_eq
  rw [h.volume_eq] at hfinal' hok'
  refine @next _ _ (.readAt handle position count) _ h trivial _ _ _ _ hfinal hfinal' ?_ ?_
  · rw [Volume.after_of_silent hok, Volume.after_of_silent hok']
  · rw [halike.sector_eq, halike'.sector_eq]
    exact h.images

/-- Sessions that resemble each other go on to do so after every permitted call. -/
theorem step (hpermits : session.Permits call) :
    (session.step call).Resembles (other.step call) sectors := by
  obtain ⟨outcome, writes, writes', hrun, hrun', himages⟩ | ⟨id, count, rfl⟩ |
    ⟨handle, position, count, rfl⟩ := h.joint hpermits
  · obtain ⟨final, hfinal, hholds, -⟩ := hrun.run h.valid.holds h.valid.faults_eq
    obtain ⟨final', hfinal', hholds', -⟩ := hrun'.run h.other_valid.holds h.other_valid.faults_eq
    refine h.next hpermits hfinal hfinal' rfl ?_
    rw [hholds.sector_eq, hholds'.sector_eq]
    exact himages
  · exact h.step_read id count
  · exact h.step_readAt handle position count

end Resembles

end Session

end SectorFS
