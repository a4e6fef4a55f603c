import SectorFS.Proofs.Sessions.Creations

/-!
# What a program reads

Beside a session goes a reference: for one regular file, the bytes that a program expects in
it, which start as what the file holds and change when a call writes to this file, and at no
other call. As long as the file is there, the file holds the bytes of its reference, whatever
happens in the meantime to other files, to the directories and to the open files; and every
read, through the table or through a handle, returns a slice of them.
-/

namespace SectorFS

/-- The bytes from a position on, as many as asked for and no more than there are. -/
def slice (bytes : ByteArray) (position count : Nat) : ByteArray :=
  bytes.extract position (position + min count (bytes.size - position))

theorem size_slice (bytes : ByteArray) (position count : Nat) :
    (slice bytes position count).size = min count (bytes.size - position) := by
  rw [slice, ByteArray.size_extract]
  omega

/-- What was written to a file is read back at the same position. -/
theorem slice_overwrite {bytes data : ByteArray} {position : Nat}
    (h : position + data.size ≤ bytes.size) :
    slice (overwrite bytes position data) position data.size = data := by
  have hsize : (slice (overwrite bytes position data) position data.size).size = data.size := by
    rw [size_slice, size_overwrite]
    omega
  refine eq_of_byteAt hsize fun offset hoffset ↦ ?_
  rw [hsize] at hoffset
  rw [slice, size_overwrite, byteAt_extract, if_pos (by omega),
    byteAt_overwrite _ _ _ (by omega), if_pos (by omega), Nat.add_sub_cancel_left]

variable {sectors : Nat} {session : Session} {sector : Nat}

namespace Session

/-! ## The reference -/

/-- The bytes expected in a file after the calls. -/
def reference (session : Session) (sector : Nat) (bytes : ByteArray) : List Call → ByteArray
  | [] => bytes
  | call :: rest =>
    (session.step call).reference sector (Image.afterWrite sector bytes (session.writing call)) rest

@[simp] theorem size_reference (session : Session) (sector : Nat) (bytes : ByteArray)
    (calls : List Call) : (session.reference sector bytes calls).size = bytes.size := by
  induction calls generalizing session bytes with
  | nil => rfl
  | cons call rest ih => rw [reference, ih, Image.size_afterWrite]

/-! ## The file and its reference -/

/-- The file is there before and after every one of the calls. -/
def Keeps (session : Session) (sector : Nat) (calls : List Call) : Prop :=
  ∀ done rest, calls = done ++ rest → (session.run done).image.HasFile sector

theorem Keeps.tail {call : Call} {rest : List Call} (h : session.Keeps sector (call :: rest)) :
    (session.step call).Keeps sector rest := by
  rintro first last rfl
  exact h (call :: first) last rfl

theorem Keeps.nil (h : session.image.HasFile sector) : session.Keeps sector [] := by
  intro done rest hsplit
  obtain ⟨rfl, -⟩ := List.append_eq_nil_iff.mp hsplit.symm
  exact h

theorem Keeps.cons {call : Call} {rest : List Call} (h : session.image.HasFile sector)
    (hrest : (session.step call).Keeps sector rest) : session.Keeps sector (call :: rest) := by
  intro done last hsplit
  cases done with
  | nil => exact h
  | cons first done =>
    obtain ⟨rfl, hafter⟩ := List.cons.inj hsplit
    exact hrest done last hafter

theorem Valid.content_run (h : session.Valid sectors) {calls : List Call}
    (hpermits : session.PermitsAll calls) (hkeeps : session.Keeps sector calls) :
    (session.run calls).image.content sector =
      session.reference sector (session.image.content sector) calls := by
  induction calls generalizing session with
  | nil => rfl
  | cons call rest ih =>
    obtain ⟨hvalid, hchange⟩ := h.step hpermits.1
    have hfile : session.image.HasFile sector := hkeeps [] (call :: rest) rfl
    rw [run_cons, ih hvalid hpermits.2 hkeeps.tail, hchange.content_eq h.sound hfile, reference]

/-! ## Reading and writing -/

/-- The programs find the bytes in the file: every open file has their number as its length,
every read returns a slice of them, and every transfer stops at their end. -/
structure Shows (session : Session) (sector : Nat) (bytes : ByteArray) : Prop where
  length_eq : ∀ node, (sector, node) ∈ session.live → node.length.toNat = bytes.size
  readAt : ∀ node, (sector, node) ∈ session.live → ∀ start position count,
    session.answer (.readAt ⟨sector, node, start⟩ position count) =
      .ok (.bytes (slice bytes position count))
  writeAt : ∀ node, (sector, node) ∈ session.live → ∀ start position data,
    session.answer (.writeAt ⟨sector, node, start⟩ position data) =
      .ok (.count (min data.size (bytes.size - position)))
  read : ∀ id index handle, session.volume.slot? id = some (index, handle) →
    handle.sector = sector → ∀ count,
      session.answer (.read id count) = .ok (.bytes (slice bytes handle.position count)) ∧
      (session.step (.read id count)).volume.slot? id =
        some (index, handle.seek (handle.position + min count (bytes.size - handle.position)))
  write : ∀ id index handle, session.volume.slot? id = some (index, handle) →
    handle.sector = sector → ∀ data,
      session.answer (.write id data) =
        .ok (.count (min data.size (bytes.size - handle.position))) ∧
      (session.step (.write id data)).volume.slot? id =
        some (index, handle.seek (handle.position + min data.size (bytes.size - handle.position)))

/-- A transfer through the table moves as many bytes as there are up to the end of the file. -/
theorem Mounted.clamp_eq (h : session.Mounted sectors) {index : Fin maxOpenFiles}
    {handle : Handle} (hslot : session.volume.table[index] = some handle) (count : Nat) :
    handle.clamp count handle.position =
      min count ((session.image.content handle.sector).size - handle.position) := by
  rw [Image.size_content, (h.carries index handle hslot).intact.size_eq]
  rfl

theorem Valid.shows (h : session.Valid sectors) :
    session.Shows sector (session.image.content sector) where
  length_eq node hlive := by
    rw [Image.size_content, (h.intact_of_live hlive).2.size_eq]
  readAt node hlive start position count := by
    have hintact := (h.intact_of_live hlive).2
    have hperforms := @Handle.readAt_performs session.image sectors ⟨sector, node, start⟩ hintact
      (Nat.le_of_lt h.sound.sectors_lt) position count
    have hcall : Performs
        ((Call.readAt ⟨sector, node, start⟩ position count).perform session.volume) session.image
        sectors _ [] := hperforms.map fun bytes ↦ (Answer.bytes bytes, session.volume)
    rw [h.answer_of_performs hcall, slice, Image.size_content, hintact.size_eq]
    rfl
  writeAt node hlive start position data := by
    obtain ⟨writes, hrun, -⟩ :=
      @Mounted.writeAt_performs sectors session h.toMounted ⟨sector, node, start⟩
        (h.intact_of_live hlive).2 position data
    rw [h.answer_of_performs hrun, Image.size_content, (h.intact_of_live hlive).2.size_eq]
    rfl
  read id index handle hslot hsector count := by
    obtain ⟨htable, hid⟩ := Volume.table_of_slot? hslot
    have hrun := h.read_performs hslot count
    have hclamp := h.clamp_eq htable count
    rw [hsector] at hclamp
    constructor
    · rw [h.answer_of_performs hrun, slice, ← hclamp, hsector]
      rfl
    · rw [h.volume_of_performs hrun, hid, Volume.slot?_setSlot, hclamp]
  write id index handle hslot hsector data := by
    obtain ⟨htable, hid⟩ := Volume.table_of_slot? hslot
    obtain ⟨writes, hrun, -⟩ := h.write_performs hslot data
    have hclamp := h.clamp_eq htable data.size
    rw [hsector] at hclamp
    constructor
    · rw [h.answer_of_performs hrun, ← hclamp]
      rfl
    · rw [h.volume_of_performs hrun, hid, Volume.slot?_setSlot, hclamp]

/-! ## A run of several files -/

/-- A regular file that a call opens is live after it. -/
theorem Mounted.live_opened (h : session.Mounted sectors) {call : Call} {answer : Answer}
    {volume : Volume} {writes : List Write} {handle : Handle}
    (hrun : Performs (call.perform session.volume) session.image sectors (.ok (answer, volume))
      writes) (hopened : answer.opened volume = some handle)
    (hfile : (session.step call).image.HasFile handle.sector) :
    (handle.sector, handle.node) ∈ (session.step call).live := by
  obtain ⟨final, hfinal, -, -⟩ := hrun.run h.holds h.faults_eq
  rw [Session.step_eq_resume, hfinal, image] at hfile
  rw [Session.step_eq_resume, hfinal]
  exact ⟨.inr ⟨handle, hopened, rfl⟩, hfile⟩

/-- A regular file that a path leads to can be opened, and its handle is live then. -/
theorem Valid.open_live (h : session.Valid sectors) {text : String}
    (hlocate : session.image.locate text = .ok ⟨sector, false⟩) :
    (session.step (.openHandle text)).image = session.image ∧
      ∃ node, (sector, node) ∈ (session.step (.openHandle text)).live := by
  obtain ⟨cause, hcause, -⟩ | ⟨handle, target, htarget, hstart, -, hrun⟩ :=
    Volume.openHandle_performs h.fits.attached h.sound.toSound text
  · rw [hlocate] at hcause
    contradiction
  · obtain rfl := Except.ok.inj (hlocate.symm.trans htarget)
    have hperforms : Performs ((Call.openHandle text).perform session.volume) session.image sectors
        (.ok (.handle handle, session.volume)) [] :=
      hrun.map fun handle ↦ (Answer.handle handle, session.volume)
    have himage := h.image_of_performs hperforms
    rw [Image.putAll_nil] at himage
    obtain ⟨place, hplace⟩ := Image.exists_place_of_locate hlocate
    obtain rfl : sector = handle.sector := hstart.sector_eq
    have hfile : (session.step (.openHandle text)).image.HasFile handle.sector := by
      rw [himage]
      exact ⟨place, hplace⟩
    exact ⟨himage, handle.node, h.live_opened hperforms rfl hfile⟩

/-- A file that is live stays so as long as it is there. -/
theorem live_step {call : Call} {node : Node} (hlive : (sector, node) ∈ session.live)
    (hfile : (session.step call).image.HasFile sector) :
    (sector, node) ∈ (session.step call).live := by
  rw [step_eq_resume, image] at hfile
  rw [step_eq_resume]
  cases hrun : call.perform session.volume session.drive with
  | error stop drive =>
    rw [hrun] at hfile
    exact ⟨hlive, hfile⟩
  | ok result drive =>
    rw [hrun] at hfile
    exact ⟨.inl hlive, hfile⟩

/-- A write to a regular file removes none. -/
theorem Valid.hasFile_writeAt (h : session.Valid sectors) {handle : Handle} {position : Nat}
    {data : ByteArray} (hlive : (handle.sector, handle.node) ∈ session.live)
    (hfile : session.image.HasFile sector) :
    (session.step (.writeAt handle position data)).image.HasFile sector := by
  obtain ⟨⟨place, hplace⟩, hintact⟩ := h.intact_of_live hlive
  obtain ⟨writes, hrun, hsplices⟩ := h.writeAt_performs hintact position data
  obtain ⟨other, hother⟩ := hfile
  refine ⟨other, ?_⟩
  rw [h.image_of_performs hrun, Image.targetAt_written hsplices h.sound.toSound hplace, hother]

/-- While a regular file is there, its length does not change, and its programs find the bytes of
its reference, which only the writes to this file change. -/
theorem Reached.isolation (h : Reached sectors session) {calls : List Call}
    (hpermits : session.PermitsAll calls) (hkeeps : session.Keeps sector calls) :
    (session.run calls).image.size sector = session.image.size sector ∧
      (session.run calls).image.content sector =
        session.reference sector (session.image.content sector) calls ∧
      (session.run calls).Shows sector
        (session.reference sector (session.image.content sector) calls) := by
  have hcontent := h.valid.content_run hpermits hkeeps
  refine ⟨?_, hcontent, ?_⟩
  · rw [← Image.size_content, hcontent, size_reference, Image.size_content]
  · rw [← hcontent]
    exact (h.run hpermits).valid.shows

/-- A file of 300 bytes is opened, another one is created beside it, and three bytes are written over
its end, of which two are kept. -/
theorem isolation_interleaved : ∃ volume formatted node sector,
    Volume.format (.blank 64) = .ok volume formatted ∧
      let start := (begin formatted volume).run [.create "/a" 300, .openHandle "/a"]
      let calls := [.create "/b" 10, .writeAt ⟨sector, node, 0⟩ 298 ⟨#[1, 2, 3]⟩]
      start.image.size sector = 300 ∧
        (start.run calls).Shows sector
          (overwrite (start.image.content sector) 298 ⟨#[1, 2, 3]⟩) := by
  obtain ⟨volume, formatted, hformat, hreached, -, -, -, sector, hgains⟩ := exists_created_small
  have hfirst := hreached.valid.step (permits_of_creates (.file "/a" 300))
  obtain ⟨himage, node, hlive⟩ := hfirst.1.open_live hgains.locate_eq
  have hsecond := @Valid.step 64 _ (.openHandle "/a") hfirst.1 trivial
  have hlocate := hgains.locate_eq
  rw [← himage] at hlocate
  have hthird := hsecond.1.step (permits_of_creates (.file "/b" 10))
  obtain ⟨place, hplace⟩ := Image.exists_place_of_locate
    (hsecond.1.locate_creates (.file "/b" 10) (by decide) hlocate)
  have hkept := live_step hlive ⟨place, hplace⟩
  have hwritten := @Valid.hasFile_writeAt 64 _ sector hthird.1 ⟨sector, node, 0⟩ 298 ⟨#[1, 2, 3]⟩
    hkept ⟨place, hplace⟩
  obtain ⟨hfile, -⟩ := hsecond.1.intact_of_live hlive
  refine ⟨volume, formatted, node, sector, hformat, ?_, ?_⟩
  · exact (congrArg (Image.size · sector) himage).trans hgains.size_eq
  · have hstart : Reached 64 ((begin formatted volume).run [.create "/a" 300, .openHandle "/a"]) :=
      hreached.run ⟨trivial, trivial, trivial⟩
    have hreference := (@Reached.isolation 64 _ sector hstart
      [.create "/b" 10, .writeAt ⟨sector, node, 0⟩ 298 ⟨#[1, 2, 3]⟩] ⟨trivial, hkept, trivial⟩
      (.cons hfile (.cons ⟨place, hplace⟩ (.nil hwritten)))).2.2
    simpa [reference, writing, Image.afterWrite] using hreference

end Session

end SectorFS
