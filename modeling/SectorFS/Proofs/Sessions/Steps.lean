import SectorFS.Proofs.Sessions.Effects

/-!
# One call at a time

A session is valid if its disk is whole and refuses nothing, the image is exact, and the
volume, the table of open files and the record of live files agree with the image. Every
permitted call leaves a valid session, whatever it is given and however it ends, and changes
the image as `Image.Change` says.
-/

namespace SectorFS

variable {sectors : Nat} {session : Session} {call : Call}

/-! ## Valid sessions -/

/-- What holds of a session after every call. -/
structure Session.Valid (session : Session) (sectors : Nat) : Prop
    extends session.Mounted sectors where
  owned : ∀ sector, (session.image.freeMap sectors).isUsed sector = true →
    ∃ owner, session.image.Owns owner sector
  reached : ∀ (index : Fin maxOpenFiles) (handle : Handle),
    session.volume.table[index] = some handle →
      ∃ place target, session.image.targetAt place = some target ∧ target.sector = handle.sector

namespace Session.Valid

theorem sound (h : session.Valid sectors) : session.image.Exact sectors := ⟨h.whole, h.owned⟩

theorem fits (h : session.Valid sectors) : session.volume.Fits session.image where
  attached := h.attached
  serves index handle hslot :=
    have hcarries := h.carries index handle hslot
    ⟨h.reached index handle hslot, hcarries.intact.node_eq, hcarries.position_le⟩

/-- A session is valid if its disk refuses nothing, its image is exact, its volume fits, and what it
takes for live is on the disk. -/
theorem of_fits (hholds : session.drive.disk.Holds session.image sectors)
    (hfaults : session.drive.disk.faults = .none) (hsound : session.image.Exact sectors)
    (hfits : session.volume.Fits session.image)
    (hlive : ∀ file ∈ session.live, session.image.HasFile file.1 ∧
      session.image.node? file.1 = some file.2) : session.Valid sectors where
  holds := hholds
  faults_eq := hfaults
  whole := hsound.toSound
  attached := hfits.attached
  carries index handle hslot := (hfits.serves index handle hslot).carries hsound.toSound
  live := hlive
  owned := hsound.owned
  reached index handle hslot := (hfits.serves index handle hslot).reached

/-! ## From results to sessions -/

/-- A call leaves a valid session if what it returns fits the image that it leaves. -/
theorem step_of_result (h : session.Valid sectors) {outcome : Except Stop (Answer × Volume)}
    {final : Drive} {changed : Image}
    (hfinal : call.perform session.volume session.drive = conclude outcome final)
    (hholds : final.disk.Holds changed sectors) (hfaults : final.disk.faults = .none)
    (hchange : session.image.Change sectors (session.writing call) changed)
    (hok : ∀ answer volume, outcome = .ok (answer, volume) →
      volume.Fits changed ∧ ∀ handle, answer.opened volume = some handle →
        changed.node? handle.sector = some handle.node)
    (herror : ∀ stop, outcome = .error stop → session.volume.Fits changed) :
    (session.step call).Valid sectors ∧
      session.image.Change sectors (session.writing call) (session.step call).image := by
  obtain rfl : final.disk.sector = changed := hholds.sector_eq
  have hlive (file : Nat × Node) (hfile : file ∈ session.live) :
      Image.node? final.disk.sector file.1 = some file.2 := by
    obtain ⟨⟨place, hplace⟩, hnode⟩ := h.live file hfile
    exact (hchange.node?_eq h.sound hplace).trans hnode
  cases outcome with
  | error stop =>
    have hstep : session.step call = ⟨final, session.volume, fun file ↦
        file ∈ session.live ∧ Image.HasFile final.disk.sector file.1⟩ := by
      rw [step_eq_resume, hfinal]
      rfl
    rw [hstep]
    exact ⟨of_fits hholds hfaults (hchange.toExact h.sound) (herror stop rfl) fun file hfile ↦
      ⟨hfile.2, hlive file hfile.1⟩, hchange⟩
  | ok result =>
    obtain ⟨answer, volume⟩ := result
    obtain ⟨hfits, hopened⟩ := hok answer volume rfl
    have hstep : session.step call = ⟨final, volume, fun file ↦
        (file ∈ session.live ∨ ∃ handle, answer.opened volume = some handle ∧
          file = (handle.sector, handle.node)) ∧ Image.HasFile final.disk.sector file.1⟩ := by
      rw [step_eq_resume, hfinal]
      rfl
    rw [hstep]
    refine ⟨of_fits hholds hfaults (hchange.toExact h.sound) hfits fun file hfile ↦
      ⟨hfile.2, ?_⟩, hchange⟩
    obtain ⟨hfile | ⟨handle, hhandle, rfl⟩, -⟩ := hfile
    · exact hlive file hfile
    · exact hopened handle hhandle

theorem step_of_performs (h : session.Valid sectors)
    {outcome : Except Stop (Answer × Volume)} {writes : List Write}
    (hrun : Performs (call.perform session.volume) session.image sectors outcome writes)
    (hchange : session.image.Change sectors (session.writing call) (session.image.putAll writes))
    (hok : ∀ answer volume, outcome = .ok (answer, volume) →
      volume.Fits (session.image.putAll writes) ∧ ∀ handle, answer.opened volume = some handle →
        (session.image.putAll writes).node? handle.sector = some handle.node)
    (herror : ∀ stop, outcome = .error stop →
      session.volume.Fits (session.image.putAll writes)) :
    (session.step call).Valid sectors ∧
      session.image.Change sectors (session.writing call) (session.step call).image := by
  obtain ⟨final, hfinal, hholds, hfaults⟩ := hrun.run h.holds h.faults_eq
  exact h.step_of_result hfinal hholds hfaults hchange hok herror

/-- A call that is carried out and returns a volume that fits. -/
theorem step_of_done (h : session.Valid sectors) {answer : Answer} {volume : Volume}
    {writes : List Write}
    (hrun : Performs (call.perform session.volume) session.image sectors (.ok (answer, volume))
      writes)
    (hchange : session.image.Change sectors (session.writing call) (session.image.putAll writes))
    (hfits : volume.Fits (session.image.putAll writes))
    (hopened : ∀ handle, answer.opened volume = some handle →
      (session.image.putAll writes).node? handle.sector = some handle.node) :
    (session.step call).Valid sectors ∧
      session.image.Change sectors (session.writing call) (session.step call).image := by
  refine h.step_of_performs hrun hchange (fun found other hok ↦ ?_) fun _ herror ↦ nomatch herror
  obtain ⟨rfl, rfl⟩ := Prod.mk.inj (Except.ok.inj hok)
  exact ⟨hfits, hopened⟩

/-- A call that is carried out and opens nothing. -/
theorem step_of_silent (h : session.Valid sectors) {answer : Answer} {volume : Volume}
    {writes : List Write}
    (hrun : Performs (call.perform session.volume) session.image sectors (.ok (answer, volume))
      writes)
    (hchange : session.image.Change sectors (session.writing call) (session.image.putAll writes))
    (hfits : volume.Fits (session.image.putAll writes)) (hsilent : answer.opened volume = none) :
    (session.step call).Valid sectors ∧
      session.image.Change sectors (session.writing call) (session.step call).image := by
  refine h.step_of_done hrun hchange hfits fun handle hopened ↦ ?_
  rw [hsilent] at hopened
  contradiction

/-- A call that stops before its first write. -/
theorem step_of_refused (h : session.Valid sectors) {stop : Stop}
    (hrun : Performs (call.perform session.volume) session.image sectors (.error stop) [])
    (hwriting : session.writing call = none) :
    (session.step call).Valid sectors ∧
      session.image.Change sectors (session.writing call) (session.step call).image := by
  refine h.step_of_performs hrun ?_ (fun _ _ hok ↦ nomatch hok) fun _ _ ↦ h.fits
  rw [hwriting]
  exact .same

/-- A call that only looks at the disk. -/
theorem step_of_looks (h : session.Valid sectors) (hlooks : session.LooksOnly call) :
    (session.step call).Valid sectors ∧
      session.image.Change sectors (session.writing call) (session.step call).image := by
  obtain ⟨final, live, hstep, halike, hlive⟩ := hlooks.step_eq
  obtain ⟨-, -, -, -, -, -, hwriting, -⟩ := hlooks
  have himage : Session.image ⟨final, session.volume, live⟩ = session.image := halike.sector_eq
  rw [hstep, hwriting, himage]
  refine ⟨of_fits ?_ (halike.faults_eq.trans h.faults_eq) ?_ ?_ fun file hfile ↦ ?_, .same⟩
  · rw [himage]
    exact halike.holds h.holds
  · rw [himage]
    exact h.sound
  · rw [himage]
    exact h.fits
  · rw [himage]
    exact h.live file (hlive file hfile)

/-! ## Volumes that fit -/

/-- A creation moves no file and closes none. -/
theorem fits_created (h : session.Valid sectors) {path : Path} {size directory sector : Nat}
    {isDirectory : Bool} {parent : Place} {name : String} {index : Fin entryCount}
    {height : Fin maxLevel} {node : Node} {fresh table map : List Write}
    (hadmits : session.image.Admits sectors path size parent directory name index height)
    (hcreated : session.image.Created sectors directory index name size isDirectory height sector
      node fresh table map) :
    session.volume.Fits (session.image.putAll (fresh ++ (table ++ map))) := by
  refine h.fits.kept (Image.Created.unmoved_final hcreated h.sound hadmits)
    fun place target hplace ↦ ?_
  rw [Image.Created.targetAt_final hcreated h.sound hadmits, if_neg, hplace]
  rintro rfl
  rw [hadmits.targetAt_self] at hplace
  contradiction

theorem fits_written (h : session.Valid sectors) {place : Place} {sector position : Nat}
    {data : ByteArray} {writes : List Write} {volume : Volume}
    (hplace : session.image.targetAt place = some ⟨sector, false⟩)
    (hsplices : session.image.Overwrites sector position data writes)
    (hfits : volume.Fits session.image) : volume.Fits (session.image.putAll writes) :=
  hfits.kept (Image.unmoved_written hsplices h.sound.toSound hplace) fun other _ hother ↦
    (Image.targetAt_written hsplices h.sound.toSound hplace other).trans hother

/-- An open file can be moved to any position up to its end. -/
theorem fits_moved (h : session.Valid sectors) {id count : Nat} {index : Fin maxOpenFiles}
    {handle : Handle} (hslot : session.volume.slot? id = some (index, handle)) :
    (session.volume.setSlot index
      (some (handle.seek (handle.position + handle.clamp count handle.position)))).Fits
        session.image := by
  have hserves := h.fits.serves index handle (Volume.table_of_slot? hslot).1
  refine h.fits.setSlot index fun moved hmoved ↦ ?_
  obtain rfl := Option.some.inj hmoved
  refine hserves.seek ?_
  have hposition := hserves.position_le
  rw [Handle.clamp]
  omega

theorem fits_remounted {mapNode rootNode : Node}
    (hmap : session.image.node? freeMapSector = some mapNode)
    (hroot : session.image.node? rootSector = some rootNode) :
    (Volume.withRoots ⟨freeMapSector, mapNode, 0⟩ ⟨rootSector, rootNode, 0⟩).Fits
      session.image where
  attached := ⟨rfl, hmap, rfl, hroot⟩
  serves index handle hslot := by simp [Volume.withRoots] at hslot

/-! ## Every call -/

theorem step_of_effect (h : session.Valid sectors) (hpermits : session.Permits call)
    {outcome : Except Stop (Answer × Volume)} {writes : List Write}
    (hrun : Performs (call.perform session.volume) session.image sectors outcome writes)
    (heffect : session.Effect sectors call outcome writes) :
    (session.step call).Valid sectors ∧
      session.image.Change sectors (session.writing call) (session.step call).image := by
  have hsame : session.image.Change sectors none (session.image.putAll []) := .same
  cases heffect with
  | refused hcause hwriting => exact h.step_of_refused hrun hwriting
  | created hcall hparse hadmits hcreated =>
    refine h.step_of_silent hrun ?_ (h.fits_created hadmits hcreated) rfl
    rw [writing_of_creates hcall]
    exact .created hadmits hcreated hcall.size_eq
  | removed hcall hparse hnames hremoved =>
    refine h.step_of_silent hrun ?_ (h.fits.keepLive h.sound hnames hremoved) rfl
    rcases hcall with rfl | rfl
    · exact .removed hnames hremoved
    · exact .removed hnames hremoved
  | listed => exact h.step_of_silent hrun hsame h.fits rfl
  | handed hlocate hsector hserves =>
    refine h.step_of_done hrun hsame h.fits fun found hfound ↦ ?_
    obtain rfl := Option.some.inj hfound
    exact hserves.node_eq
  | @opened _ handle _ index hlocate hsector hserves hclosed =>
    refine h.step_of_done hrun hsame (h.fits.setSlot index fun found hfound ↦
      Option.some.inj hfound ▸ hserves) fun found hfound ↦ ?_
    rw [Answer.opened, Volume.slot?_setSlot] at hfound
    obtain rfl := Option.some.inj hfound
    exact hserves.node_eq
  | read hslot =>
    exact h.step_of_silent hrun hsame (h.fits_moved hslot) rfl
  | @written id data index handle writes hslot hsplices =>
    obtain ⟨⟨place, hplace⟩, -⟩ := h.intact_of_live (hpermits index handle hslot)
    refine h.step_of_silent hrun ?_ (h.fits_written hplace hsplices (h.fits_moved hslot)) rfl
    rw [Session.writing, hslot]
    exact .written hplace hsplices
  | closed hslot =>
    exact h.step_of_silent hrun hsame (h.fits.setSlot _ (by simp)) rfl
  | writtenAt _ hsplices =>
    obtain ⟨⟨place, hplace⟩, -⟩ := h.intact_of_live hpermits
    exact h.step_of_silent hrun (.written hplace hsplices)
      (h.fits_written hplace hsplices h.fits) rfl
  | remounted hmap hroot =>
    exact h.step_of_silent hrun hsame (fits_remounted hmap hroot) rfl

/-- Every permitted call leaves a valid session and changes the image in one of the four ways. -/
theorem step (h : session.Valid sectors) (hpermits : session.Permits call) :
    (session.step call).Valid sectors ∧
      session.image.Change sectors (session.writing call) (session.step call).image := by
  obtain ⟨outcome, writes, hrun, heffect⟩ | hlooks := h.performed_of_permits hpermits
  · exact h.step_of_effect hpermits hrun heffect
  · exact h.step_of_looks hlooks

end Session.Valid

end SectorFS
