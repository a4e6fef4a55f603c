import SectorFS.Volume.Status
import SectorFS.Proofs.Sessions.Creations

/-!
# Programs that know numbers only

The entry points that answer with a status turn every error into a status and never stop. As
long as they transfer no bytes to a directory, whatever they are asked for leaves a volume
whose files lie apart and whose map marks the sectors of these files. A directory can be opened
and written to like any other file, and then an entry can come to lead to a sector that belongs
to somebody else.
-/

namespace SectorFS

variable {sectors : Nat} {drive : Drive} {volume : Volume}

/-! ## Volumes in use -/

/-- A drive and a volume as a session in which every regular file is live. -/
def Session.view (drive : Drive) (volume : Volume) : Session :=
  ⟨drive, volume, fun file ↦ Image.HasFile drive.disk.sector file.1 ∧
    Image.node? drive.disk.sector file.1 = some file.2⟩

theorem Session.view_valid (hholds : drive.disk.Holds drive.disk.sector sectors)
    (hfaults : drive.disk.faults = .none) (hsound : Image.Exact drive.disk.sector sectors)
    (hfits : volume.Fits drive.disk.sector) : (view drive volume).Valid sectors :=
  .of_fits hholds hfaults hsound hfits fun _ hfile ↦ hfile

/-- The drive and the volume of a valid session are enough for it to be valid. -/
theorem Session.Valid.view {session : Session} (h : session.Valid sectors)
    (hdisk : drive.disk = session.drive.disk) (hvolume : volume = session.volume) :
    (view drive volume).Valid sectors := by
  subst hvolume
  have hsame : drive.disk.sector = session.image := congrArg Disk.sector hdisk
  refine view_valid ?_ (hdisk ▸ h.faults_eq) (hsame ▸ h.sound) (hsame ▸ h.fits)
  rw [hsame, hdisk]
  exact h.holds

namespace Volume.Status

/-! ## Calls -/

/-- What a program that knows numbers only asks for. -/
inductive Call where
  | create (text : String) (size : Nat)
  | openFile (text : String)
  | read (id count : Nat)
  | write (id : Nat) (data : ByteArray)
  | close (id : Nat)
  | remove (text : String)

namespace Call

/-- Carries out a call on the volume in memory and returns its status. -/
def carryOut : Status.Call → InPlace Volume Int
  | .create text size => Status.create text size
  | .openFile text => do return (← Status.openFile text : Nat)
  | .read id count => do return (← Status.read id count).1
  | .write id data => Status.write id data
  | .close id => Status.close id
  | .remove text => Status.remove text

/-- What a call does with a volume. Returns its status and the volume to go on with. -/
def perform (volume : Volume) (call : Status.Call) : Action (Int × Volume) :=
  call.carryOut.using volume

/-- The operation that a call is answered by. -/
def asked : Status.Call → SectorFS.Call
  | .create text size => .create text size
  | .openFile text => .openFile text
  | .read id count => .read id count
  | .write id data => .write id data
  | .close id => .close id
  | .remove text => .remove text

/-- The call transfers no bytes to a directory. -/
def Spares (call : Status.Call) (drive : Drive) (volume : Volume) : Prop :=
  ∀ id data, call = .write id data → ∀ index handle, volume.slot? id = some (index, handle) →
    (∃ place, Image.targetAt drive.disk.sector place = some ⟨handle.sector, true⟩) →
      handle.clamp data.size handle.position = 0

end Call

/-! ## Statuses in place of errors -/

/-- The status that says what an operation has answered. -/
def ofAnswer : Answer → Int
  | .identifier id => id
  | .bytes bytes => signed bytes.size
  | .count count => signed count
  | _ => 1

/-- The status that says that a call has failed. -/
def Call.failed : Status.Call → Int
  | .read _ _ | .write _ _ => -1
  | _ => 0

/-- A call ends like an operation, with a status in place of its answer or its error. -/
def Follows (call : Status.Call) (volume : Volume) (operation : Action (Answer × Volume)) : Prop :=
  ∀ drive, match operation drive with
    | .ok (answer, after) final => call.perform volume drive = .ok (ofAnswer answer, after) final
    | .error (.error _) final =>
      ∃ other, call.perform volume drive = .ok (call.failed, volume) other ∧ other.disk = final.disk
    | .error (.trap _) _ => True

theorem run_map {α β : Type} (operation : InPlace Volume α) (change : α → β)
    (memory : Memory Volume) :
    (do return change (← operation) : InPlace Volume β) memory = match operation memory with
      | .ok value final => .ok (change value) final
      | .error stop final => .error stop final := by
  show EStateM.bind operation _ memory = _
  rw [EStateM.bind]
  cases operation memory <;> rfl

/-- What an operation returns or fails with decides the status, and one that fails has not changed
the volume. -/
theorem follows_of_map {α β : Type} {call : Status.Call} {base : InPlace Volume α}
    (hbase : base.Commits Stop.IsError) (answer : α → Answer) (value : α → β) (attempt : String)
    (failed : β) (finish : β → Int)
    (hvalue : ∀ result, finish (value result) = ofAnswer (answer result)) (hfailed : finish failed = call.failed)
    (hcall : call.carryOut = do
      return finish (← orElse (do return value (← base)) attempt failed))
    (hasked : call.asked.carryOut = do return answer (← base)) (volume : Volume) :
    Follows call volume (call.asked.perform volume) := by
  intro drive
  rw [← SectorFS.Call.using_carryOut, hasked, Call.perform, hcall, InPlace.using, InPlace.using,
    run_map, run_map, orElse, run_map]
  cases hend : base ⟨drive, volume⟩ with
  | ok result final =>
    show EStateM.Result.ok (finish (value result), final.value) final.drive = _
    rw [hvalue]
  | error stop final =>
    cases stop with
    | trap cause => trivial
    | error cause =>
      obtain ⟨final, reached⟩ := final
      obtain rfl : reached = volume := hbase _ _ _ hend trivial
      refine ⟨⟨final.disk, final.journal.push ⟨.warn, attempt ++ " failed: " ++ cause.message⟩⟩, ?_,
        rfl⟩
      show EStateM.Result.ok (finish failed, reached) _ = _
      rw [hfailed]

/-- Every call ends like the operation it asks for. -/
theorem Call.follows (call : Status.Call) (volume : Volume) :
    Follows call volume (call.asked.perform volume) := by
  cases call with
  | create text size =>
    have hcreate : InPlace.Commits Stop.IsError
        (do Volume.create (← InPlace.current) text size : InPlace Volume Unit) :=
      .bind .current fun volume ↦ (InPlace.Looks.lift _).commits
    refine follows_of_map hcreate (fun _ ↦ .done) (fun _ ↦ 1) ("create " ++ text) 0 id (fun _ ↦ rfl)
      rfl ?_ ?_ volume
    · simp only [bind_assoc, bind_pure, id_eq]
      rfl
    · simp only [bind_assoc]
      rfl
  | openFile text =>
    refine follows_of_map (commits_openFile text) .identifier id ("open " ++ text) 0
      (fun found ↦ (found : Int)) (fun _ ↦ rfl) rfl ?_ rfl volume
    simp only [bind_pure, id_eq]
    rfl
  | read number count =>
    exact follows_of_map (commits_read number count) .bytes (fun bytes ↦ (signed bytes.size, bytes))
      ("read from file " ++ toString number) (-1, .empty) Prod.fst
      (fun _ ↦ by rw [ofAnswer]) rfl rfl rfl volume
  | write number data =>
    refine follows_of_map (commits_write number data) .count signed
      ("write to file " ++ toString number) (-1) id (fun _ ↦ by rw [ofAnswer, id_eq])
      rfl ?_ rfl volume
    simp only [bind_pure, id_eq]
    rfl
  | close number =>
    refine follows_of_map (commits_close number) (fun _ ↦ .done) (fun _ ↦ 1)
      ("close of file " ++ toString number) 0 id (fun _ ↦ rfl) rfl ?_ rfl volume
    simp only [bind_pure, id_eq]
    rfl
  | remove text =>
    refine follows_of_map (commits_remove text) (fun _ ↦ .done) (fun _ ↦ 1) ("remove " ++ text) 0 id
      (fun _ ↦ rfl) rfl ?_ rfl volume
    simp only [bind_pure, id_eq]
    rfl

/-- No call of a program traps. -/
theorem Call.asked_performs {session : Session} (h : session.Valid sectors) (call : Status.Call) :
    ∃ outcome writes, Performs (call.asked.perform session.volume) session.image sectors outcome
      writes ∧ ∀ cause, outcome ≠ .error (.trap cause) := by
  have hasked : call.asked.IsAddressed := by cases call <;> trivial
  obtain ⟨outcome, writes, hrun, heffect⟩ := h.performed hasked
  refine ⟨outcome, writes, hrun, ?_⟩
  rintro trap rfl
  obtain ⟨⟨cause, hcause, -⟩, -⟩ := heffect.of_error
  contradiction

/-- A call that ends like a permitted one leaves a valid session. -/
theorem Call.step_of_permits (h : (Session.view drive volume).Valid sectors) {call : Status.Call}
    (hpermits : (Session.view drive volume).Permits call.asked) :
    ∃ status final after, call.perform volume drive = .ok (status, after) final ∧
      (Session.view final after).Valid sectors := by
  have hvalid := (h.step hpermits).1
  obtain ⟨outcome, writes, hrun, hno⟩ := asked_performs h call
  obtain ⟨final, hfinal, -, -⟩ := hrun.run h.holds h.faults_eq
  have hfollows := call.follows volume drive
  change call.asked.perform volume drive = _ at hfinal
  rw [hfinal] at hfollows
  have hstep : (Session.view drive volume).step call.asked =
      (Session.view drive volume).resume (conclude outcome final) := by
    rw [Session.step_eq_resume]
    exact congrArg _ hfinal
  rw [hstep] at hvalid
  cases outcome with
  | ok result => exact ⟨ofAnswer result.1, final, result.2, hfollows, hvalid.view rfl rfl⟩
  | error stop =>
    cases stop with
    | error cause =>
      obtain ⟨other, hstatus, hdisk⟩ := hfollows
      exact ⟨call.failed, other, volume, hstatus, hvalid.view hdisk rfl⟩
    | trap cause => exact absurd rfl (hno cause)

/-- Where the operation that a call asks for succeeds, the call ends on the same disk, with the
status that says so. -/
theorem Call.ends_of_performs (call : Status.Call) (h : (Session.view drive volume).Valid sectors)
    {result : Answer × Volume} {writes : List Write}
    (hrun : Performs (call.asked.perform volume) drive.disk.sector sectors (.ok result) writes) :
    ∃ final, call.perform volume drive = .ok (ofAnswer result.1, result.2) final ∧
      final.disk.Holds (Image.putAll drive.disk.sector writes) sectors ∧
      final.disk.faults = .none := by
  have hdisk : drive.disk.Holds drive.disk.sector sectors := h.holds
  obtain ⟨final, hfinal, hholds, hfaults⟩ := hrun.run hdisk h.faults_eq
  have hfollows := call.follows volume drive
  rw [hfinal] at hfollows
  exact ⟨final, hfollows, hholds, hfaults⟩

/-- A write that transfers nothing leaves a valid session, whatever it goes to. -/
theorem Call.step_of_idle (h : (Session.view drive volume).Valid sectors) {id : Nat}
    {data : ByteArray} {index : Fin maxOpenFiles} {handle : Handle}
    (hslot : volume.slot? id = some (index, handle))
    (hidle : handle.clamp data.size handle.position = 0) :
    ∃ status final after, (Call.write id data).perform volume drive = .ok (status, after) final ∧
      (Session.view final after).Valid sectors := by
  have hserves := h.fits.serves index handle (Volume.table_of_slot? hslot).1
  obtain ⟨writes, hrun, hsplices⟩ := h.write_performs hslot data
  have hnone : writes = [] := by
    have hlength : min data.size
        ((Session.view drive volume).image.size handle.sector - handle.position) = 0 := by
      rw [(hserves.intact h.sound.toSound).size_eq]
      exact hidle
    rw [Image.Overwrites, hlength] at hsplices
    refine List.eq_nil_of_length_eq_zero ?_
    rw [hsplices.length_eq, Chunk.cut]
    rfl
  rw [hnone] at hrun
  obtain ⟨final, hstatus, hholds, hfaults⟩ := (write id data).ends_of_performs h hrun
  rw [Image.putAll_nil] at hholds
  have hsame : final.disk.sector = (Session.view drive volume).image := hholds.sector_eq
  refine ⟨_, final, _, hstatus, Session.view_valid (hsame ▸ hholds) hfaults
    (hsame ▸ h.sound) ?_⟩
  rw [hsame]
  refine h.fits.setSlot index fun moved hmoved ↦ ?_
  obtain rfl := Option.some.inj hmoved
  have hposition := hserves.position_le
  exact hserves.seek (by rw [hidle]; exact hposition)

/-- Every call that transfers no bytes to a directory returns a status and leaves a valid session. -/
theorem Call.step (h : (Session.view drive volume).Valid sectors) {call : Status.Call}
    (hspares : call.Spares drive volume) :
    ∃ status final after, call.perform volume drive = .ok (status, after) final ∧
      (Session.view final after).Valid sectors := by
  by_cases hpermits : (Session.view drive volume).Permits call.asked
  · exact step_of_permits h hpermits
  · cases call with
    | write id data =>
      simp only [asked, Session.Permits, not_forall] at hpermits
      obtain ⟨index, handle, hslot, hdead⟩ := hpermits
      obtain ⟨⟨place, target, hplace, hsector⟩, hnode, -⟩ :=
        h.fits.serves index handle (Volume.table_of_slot? hslot).1
      obtain ⟨sector, isDirectory⟩ := target
      obtain rfl : sector = handle.sector := hsector
      cases isDirectory with
      | false => exact absurd ⟨⟨place, hplace⟩, hnode⟩ hdead
      | true => exact step_of_idle h hslot (hspares id data rfl index handle hslot ⟨place, hplace⟩)
    | _ => exact absurd trivial hpermits

/-! ## Runs -/

/-- The drives and volumes that a successful format of a disk that has all its sectors and refuses
nothing leads to, by calls that transfer no bytes to a directory. -/
inductive Reached (sectors : Nat) : Drive → Volume → Prop
  | format {drive formatted : Drive} {volume : Volume}
      (hcount : drive.disk.sectorCount = sectors)
      (hsize : sectors * sectorSize ≤ drive.disk.medium.size)
      (hfaults : drive.disk.faults = .none)
      (hformat : Volume.format drive = .ok volume formatted) : Reached sectors formatted volume
  | call {drive final : Drive} {volume after : Volume} {call : Status.Call} {status : Int}
      (hreached : Reached sectors drive volume) (hspares : call.Spares drive volume)
      (hrun : call.perform volume drive = .ok (status, after) final) : Reached sectors final after

theorem Reached.valid (h : Reached sectors drive volume) :
    (Session.view drive volume).Valid sectors := by
  induction h with
  | format hcount hsize hfaults hformat =>
    exact (Session.begin_valid hcount hsize hfaults hformat).1.view rfl rfl
  | call hreached hspares hrun ih =>
    obtain ⟨status, final, after, hperform, hvalid⟩ := Call.step ih hspares
    obtain ⟨hsame, rfl⟩ := EStateM.Result.ok.inj (hperform.symm.trans hrun)
    rwa [← (Prod.mk.inj hsame).2]

/-- Whatever a program asks for, as long as it transfers no bytes to a directory, it gets a status,
no sector belongs to two files, and the map marks exactly the sectors that belong to one. -/
theorem Reached.uncorrupted (h : Reached sectors drive volume) :
    (∀ sector, (Image.freeMap drive.disk.sector sectors).isUsed sector = true ↔
      ∃ owner, Image.Owns drive.disk.sector owner sector) ∧
    (∀ owner other sector, Image.Owns drive.disk.sector owner sector →
      Image.Owns drive.disk.sector other sector → owner = other) ∧
    ∀ call : Status.Call, call.Spares drive volume →
      ∃ status final after, call.perform volume drive = .ok (status, after) final := by
  refine ⟨h.valid.sound.charged, h.valid.sound.owner_eq, fun call hspares ↦ ?_⟩
  obtain ⟨status, final, after, hrun, -⟩ := Call.step h.valid hspares
  exact ⟨status, final, after, hrun⟩

/-- A program creates a file on a new volume, is told so, and no sector belongs to two files. -/
theorem uncorrupted_created : ∃ volume formatted, Volume.format (.blank 64) = .ok volume formatted ∧
    ∃ final, (Call.create "/a" 300).perform volume formatted = .ok (1, volume) final ∧
      (∃ sector, Image.locate final.disk.sector "/a" = .ok ⟨sector, false⟩) ∧
      ∀ owner other sector, Image.Owns final.disk.sector owner sector →
        Image.Owns final.disk.sector other sector → owner = other := by
  obtain ⟨volume, formatted, hformat, hsession, hempty, hlength⟩ := Session.exists_reached_small
  have hreached : Reached 64 formatted volume := .format rfl (size_zeroBytes _).ge rfl hformat
  have hspares : (Call.create "/a" 300).Spares formatted volume := fun _ _ hwrite ↦ by contradiction
  have hvalid := hreached.valid
  have hcreates : (SectorFS.Call.create "/a" 300).Creates "/a" 300 false := .file "/a" 300
  obtain ⟨path, parent, directory, name, index, height, sector, node, fresh, table, map, hparse,
    hadmits, hrun, hcreated⟩ | ⟨hnot, -⟩ := hvalid.create_performs hcreates
  · obtain ⟨final, hend, hholds, -⟩ := (Call.create "/a" 300).ends_of_performs hvalid hrun
    have hgains := hcreated.gains hvalid.whole hadmits hparse (by decide) hcreates.size_eq
    have himage : final.disk.sector =
        (Session.view formatted volume).image.putAll (fresh ++ (table ++ map)) := hholds.sector_eq
    rw [← himage] at hgains
    exact ⟨volume, formatted, hformat, final, hend, ⟨sector, hgains.locate_eq⟩,
      (Reached.uncorrupted (hreached.call hspares hend)).2.1⟩
  · obtain ⟨path, hparse, hadmits⟩ := Image.accepts_iff.mp
      (Image.accepts_of_empty hempty (by rfl : Path.parse "/a" = _)
        (by rfl : Geometry.levelFor 300 = _) (by rw [hlength]; decide))
    exact (hnot path hparse hadmits).elim

/-! ## Writing to a directory -/

/-- The first byte of a table says whether its first entry is in use. -/
theorem entry_of_overwritten {image : Image} {sector : Nat}
    (h : image.content sector = overwrite Directory.empty.toBytes 0 ⟨#[1]⟩) :
    (image.table sector).table[(0 : Fin entryCount)] = { Entry.blank with usage := 1 } := by
  rw [Image.entry_eq, h]
  refine Entry.ofStored_storedByte fun place hplace ↦ ?_
  have hempty := Directory.empty.byteAt_toBytes (by decide : 0 < entryCount) hplace
  have hsize : place < Directory.empty.toBytes.size := by
    rw [Directory.size_toBytes]
    exact Nat.lt_of_lt_of_le hplace (by decide)
  have hzero : entrySize * ((0 : Fin entryCount) : Nat) + place = place := Nat.zero_add place
  rw [Nat.mul_zero, Nat.zero_add] at hempty
  have hblank : Directory.empty.table[0] = Entry.blank := by simp [Directory.empty]
  rw [hzero, byteAt_overwrite _ _ _ hsize, hempty, hblank]
  by_cases hfirst : place = 0
  · subst hfirst
    rfl
  · rw [if_neg (fun hwithin ↦ hfirst (Nat.lt_one_iff.mp hwithin.2))]
    by_cases hsecond : place = 1
    · subst hsecond
      rfl
    · have hlater : ¬ place < 2 := by omega
      simp only [Entry.storedByte, if_neg hlater]

/-- Writing one byte to an empty root directory gives the root node of the map a second owner. -/
theorem owns_of_overwritten {image : Image} {node : Node} {writes : List Write}
    (h : image.Sound sectors) (hempty : image.table rootSector = Directory.empty)
    (hintact : image.Intact sectors rootSector node)
    (hsplices : image.Overwrites rootSector 0 ⟨#[1]⟩ writes) :
    (image.putAll writes).Owns (.item [0]) freeMapSector := by
  have hcontent := hsplices.content hintact
  rw [Image.content_eq_toBytes (h.size_directory [] _ (Image.targetAt_nil _)), hempty] at hcontent
  have hentry : (image.putAll writes).targetAt [0] = some ⟨freeMapSector, false⟩ := by
    rw [Image.targetAt_cons_of_directory (Image.targetAt_nil _), Image.child?,
      entry_of_overwritten hcontent]
    rfl
  exact Image.Sound.owns_self (Image.headOf_item hentry)

/-- Opening the root directory first of all puts it at the first place of the table. -/
theorem openRoot_performs {session : Session} (h : session.Valid sectors)
    (hclosed : ∀ index : Fin maxOpenFiles, session.volume.table[index] = none) {node : Node}
    (hintact : session.image.Intact sectors rootSector node) :
    Performs ((SectorFS.Call.openFile "/").perform session.volume) session.image sectors
      (.ok (.identifier 1, session.volume.setSlot 0 (some ⟨rootSector, node, 0⟩))) [] := by
  have hresolve := Volume.resolve_performs h.fits.attached h.sound.toSound "/"
  have hindex : session.volume.table.findFinIdx? (·.isNone) = some 0 :=
    findFinIdx?_some_iff.mpr ⟨by rw [hclosed 0]; rfl, fun other hother ↦
      absurd hother (Fin.not_lt_zero other)⟩
  have hhandle : Performs (session.volume.openHandle "/") session.image sectors
      (.ok ⟨rootSector, node, 0⟩) [] :=
    (Performs.note _ _).step (Performs.step hresolve
      (Handle.fetch_performs hintact (Nat.le_of_lt h.sound.sectors_lt)))
  have hopen : Performs (session.volume.openFile "/") session.image sectors
      (.ok (1, session.volume.setSlot 0 (some ⟨rootSector, node, 0⟩))) [] := by
    rw [openFile_eq, hindex]
    exact hhandle.step (Performs.pure _)
  exact hopen.step (Performs.pure _)

/-- A program that opens the root directory and writes one byte to it brings an entry into use that
leads to the root node of the free-sector map. -/
theorem writing_root_corrupts : ∃ volume formatted,
    Volume.format (.blank 64) = .ok volume formatted ∧
      ∃ status opened drive written after final,
        (Call.openFile "/").perform volume formatted = .ok (status, opened) drive ∧
        (Call.write 1 ⟨#[1]⟩).perform opened drive = .ok (written, after) final ∧
        Image.Owns final.disk.sector .map freeMapSector ∧
        Image.Owns final.disk.sector (.item [0]) freeMapSector := by
  obtain ⟨volume, formatted, hformat, -, -, -⟩ := Session.exists_reached_small
  obtain ⟨hbegun, htable, hclosed⟩ :=
    @Session.begin_valid 64 _ _ _ rfl (size_zeroBytes _).ge rfl hformat
  have hvalid : (Session.view formatted volume).Valid 64 := hbegun.view rfl rfl
  obtain ⟨node, hintact⟩ := hvalid.sound.intact_item (Image.targetAt_nil _)
  obtain ⟨drive, hopen, hholds, hfaults⟩ :=
    (Call.openFile "/").ends_of_performs hvalid (openRoot_performs hvalid hclosed hintact)
  have hsame : drive.disk.sector = (Session.view formatted volume).image := hholds.sector_eq
  have hserves : (Session.view formatted volume).image.Serves ⟨rootSector, node, 0⟩ :=
    ⟨⟨[], _, Image.targetAt_nil _, rfl⟩, hintact.node_eq, Nat.zero_le _⟩
  have hopened : (Session.view drive (volume.setSlot 0 (some ⟨rootSector, node, 0⟩))).Valid 64 := by
    refine Session.view_valid (hsame ▸ hholds) hfaults (hsame ▸ hvalid.sound) ?_
    rw [hsame]
    exact hvalid.fits.setSlot 0 fun handle hhandle ↦ Option.some.inj hhandle ▸ hserves
  obtain ⟨writes, hperforms, hsplices⟩ := hopened.write_performs
    (volume.slot?_setSlot 0 ⟨rootSector, node, 0⟩) ⟨#[1]⟩
  obtain ⟨final, hwrite, hafter, -⟩ :=
    (Call.write 1 ⟨#[1]⟩).ends_of_performs hopened hperforms
  have himage : final.disk.sector = Image.putAll drive.disk.sector writes := hafter.sector_eq
  refine ⟨volume, formatted, hformat, _, _, drive, _, _, final, hopen, hwrite,
    Image.Sound.owns_self (Image.headOf_map _), ?_⟩
  rw [himage]
  exact owns_of_overwritten hopened.sound.toSound (hsame ▸ htable) (hsame ▸ hintact) hsplices

end Volume.Status

end SectorFS
