import SectorFS.Proofs.Sessions.Isolation
import SectorFS.Proofs.Sessions.Joint
import SectorFS.Proofs.Sessions.Returns

/-!
# Formatting forgets

Two disks of one size that were formatted cannot be told apart by what they held before, except
by reading from a regular file where nothing was written since the file was created: such bytes
are what the disk held there. Every other answer is the same on both disks, whatever calls are
made, and so are the number of bytes that a read returns and the bytes of directories.

A byte counts as written from the call that writes it for as long as its file is there. When the
sectors of a removed file go to a new one, nothing of the new file counts as written.
-/

namespace SectorFS

variable {sectors : Nat}

/-- A disk like a blank one, but with all its bits set. -/
def Drive.full (sectors : Nat) : Drive where
  disk := { (Drive.blank sectors).disk with
    medium := ⟨⟨.replicate (sectors * sectorSize) 255⟩⟩ }
  journal := #[]

/-- The write goes over the byte at an offset of a file. -/
def Covers (written? : Option (Nat × Nat × ByteArray)) (sector offset : Nat) : Prop :=
  ∃ position data, written? = some (sector, position, data) ∧ position ≤ offset ∧
    offset < position + data.size

namespace Image

variable {sector offset : Nat} {bytes other : ByteArray}
  {written? : Option (Nat × Nat × ByteArray)}

/-- What a write covers it replaces, whatever was there. -/
theorem byteAt_afterWrite_of_covers (h : Covers written? sector offset) :
    ∃ byte, ∀ bytes : ByteArray, offset < bytes.size →
      byteAt (afterWrite sector bytes written?) offset = byte := by
  obtain ⟨position, data, rfl, hcovers⟩ := h
  refine ⟨byteAt data (offset - position), fun bytes hoffset ↦ ?_⟩
  rw [afterWrite, if_pos rfl, byteAt_overwrite _ _ _ hoffset, if_pos hcovers]

theorem byteAt_afterWrite_of_not_covers (h : ¬ Covers written? sector offset)
    (hoffset : offset < bytes.size) :
    byteAt (afterWrite sector bytes written?) offset = byteAt bytes offset := by
  rcases written? with - | ⟨target, position, data⟩
  · rfl
  · rw [afterWrite]
    split
    · rename_i htarget
      rw [byteAt_overwrite _ _ _ hoffset, if_neg]
      intro hcovers
      exact h ⟨position, data, by rw [htarget], hcovers⟩
    · rfl

/-- The same write leaves the same byte where it covers it, and where the byte was the same. -/
theorem byteAt_afterWrite_congr (hsize : other.size = bytes.size)
    (h : byteAt other offset = byteAt bytes offset ∨ Covers written? sector offset) :
    byteAt (afterWrite sector other written?) offset =
      byteAt (afterWrite sector bytes written?) offset := by
  by_cases hoffset : offset < bytes.size
  · by_cases hcovers : Covers written? sector offset
    · obtain ⟨byte, hbyte⟩ := byteAt_afterWrite_of_covers hcovers
      rw [hbyte other (hsize ▸ hoffset), hbyte bytes hoffset]
    · rw [byteAt_afterWrite_of_not_covers hcovers (hsize ▸ hoffset),
        byteAt_afterWrite_of_not_covers hcovers hoffset]
      exact h.resolve_right hcovers
  · rw [byteAt_of_size_le (by rw [size_afterWrite]; omega),
      byteAt_of_size_le (by rw [size_afterWrite]; omega)]

end Image

namespace Session

variable {session other : Session} {call : Call} {written : Set (Nat × Nat)}

/-! ## What was written -/

/-- The file that a call reads from and the position that it starts at. -/
def reading (session : Session) : Call → Option (Nat × Nat)
  | .read id _ => (session.volume.slot? id).map fun found ↦ (found.2.sector, found.2.position)
  | .readAt handle position _ => some (handle.sector, position)
  | _ => none

/-- The bytes that are known after a call, by the sectors of their files and their offsets: those
that were known and those that the call writes, as far as their files are still there. -/
def knownAfter (session : Session) (known : Set (Nat × Nat)) (call : Call) : Set (Nat × Nat) :=
  {byte | (byte ∈ known ∨ Covers (session.writing call) byte.1 byte.2) ∧
    (session.step call).image.HasFile byte.1}

/-- The bytes that were written by some calls to files that are still there. -/
def writtenBy (session : Session) (known : Set (Nat × Nat)) : List Call → Set (Nat × Nat)
  | [] => known
  | call :: rest => (session.step call).writtenBy (session.knownAfter known call) rest

/-- The sessions answer alike: in the same way, or with as many bytes of a regular file, which are
the same where the file was written. -/
def AnswersAlike (session other : Session) (written : Set (Nat × Nat)) (call : Call) : Prop :=
  session.answer call = other.answer call ∨
  ∃ sector position bytes found, session.reading call = some (sector, position) ∧
    session.image.HasFile sector ∧ session.answer call = .ok (.bytes bytes) ∧
    other.answer call = .ok (.bytes found) ∧ bytes.size = found.size ∧
    ∀ offset < bytes.size, (sector, position + offset) ∈ written →
      byteAt bytes offset = byteAt found offset

/-! ## Sessions with the same written bytes -/

/-- The sessions resemble each other and have the same bytes where these were written. -/
structure Shares (session other : Session) (sectors : Nat) (written : Set (Nat × Nat)) : Prop
    extends session.Resembles other sectors where
  hasFile : ∀ byte ∈ written, session.image.HasFile byte.1
  byte_eq : ∀ byte ∈ written,
    byteAt (other.image.content byte.1) byte.2 = byteAt (session.image.content byte.1) byte.2

namespace Shares

variable (h : session.Shares other sectors written)

include h

/-- A call leaves the same bytes where they were the same before and where it writes. -/
theorem step (hpermits : session.Permits call) :
    (session.step call).Shares (other.step call) sectors (session.knownAfter written call) where
  toResembles := h.toResembles.step hpermits
  hasFile _ hbyte := hbyte.2
  byte_eq byte hbyte := by
    have hchange := (h.valid.step hpermits).2
    have hchange' := (h.other_valid.step (h.permits hpermits)).2
    rw [h.writing_eq] at hchange'
    have hbefore : session.image.HasFile byte.1 := by
      obtain hold | ⟨position, data, hwriting, -⟩ := hbyte.1
      · exact h.hasFile byte hold
      · rw [hwriting] at hchange
        exact hchange.hasFile
    obtain ⟨place, hplace⟩ := hbefore
    have hsize : (other.image.content byte.1).size = (session.image.content byte.1).size := by
      rw [Image.size_content, Image.size_content, h.images.size_eq hplace]
    rw [hchange.content_eq h.valid.whole ⟨place, hplace⟩, hchange'.content_eq h.other_valid.whole
      ((h.images.hasFile_iff byte.1).mpr ⟨place, hplace⟩)]
    exact Image.byteAt_afterWrite_congr hsize (hbyte.1.imp_left (h.byte_eq byte))

/-- What both sessions know is the same after any calls. -/
theorem run {calls : List Call} (hpermits : session.PermitsAll calls) :
    other.PermitsAll calls ∧
      (session.run calls).Shares (other.run calls) sectors (session.writtenBy written calls) := by
  induction calls generalizing session other written with
  | nil => exact ⟨trivial, h⟩
  | cons call rest ih =>
    obtain ⟨hrest, hrun⟩ := ih (h.step hpermits.1) hpermits.2
    exact ⟨⟨h.permits hpermits.1, hrest⟩, hrun⟩

/-! ## Reading -/

/-- The bytes that are read from what is at a place are the same, or it is a regular file and there
are as many of them, the same ones where the file was written. -/
theorem extract_alike {place : Place} {target : Target}
    (hplace : session.image.targetAt place = some target) (start stop : Nat) :
    (session.image.content target.sector).extract start stop =
        (other.image.content target.sector).extract start stop ∨
      session.image.HasFile target.sector ∧
        ((session.image.content target.sector).extract start stop).size =
          ((other.image.content target.sector).extract start stop).size ∧
        ∀ offset < ((session.image.content target.sector).extract start stop).size,
          (target.sector, start + offset) ∈ written →
            byteAt ((session.image.content target.sector).extract start stop) offset =
              byteAt ((other.image.content target.sector).extract start stop) offset := by
  have hsize := h.images.size_eq hplace
  obtain ⟨sector, isDirectory⟩ := target
  cases isDirectory with
  | true => exact .inl (by rw [h.images.content_eq h.valid.whole hplace])
  | false =>
    refine .inr ⟨⟨place, hplace⟩, ?_, fun offset _ hwritten ↦ ?_⟩
    · rw [ByteArray.size_extract, ByteArray.size_extract, Image.size_content, Image.size_content,
        hsize]
    · rw [byteAt_extract, byteAt_extract, h.byte_eq _ hwritten]

/-- A read of what is at a place is answered alike. -/
theorem alike_of_read {place : Place} {target : Target} {start stop : Nat}
    (hplace : session.image.targetAt place = some target)
    (hreading : session.reading call = some (target.sector, start))
    (hanswer : session.answer call =
      .ok (.bytes ((session.image.content target.sector).extract start stop)))
    (hanswer' : other.answer call =
      .ok (.bytes ((other.image.content target.sector).extract start stop))) :
    session.AnswersAlike other written call := by
  obtain hsame | ⟨hfile, hsize, hbytes⟩ := h.extract_alike hplace start stop
  · exact .inl (by rw [hanswer, hanswer', hsame])
  · exact .inr ⟨target.sector, start, _, _, hreading, hfile, hanswer, hanswer', hsize, hbytes⟩

theorem alike_read (id count : Nat) : session.AnswersAlike other written (.read id count) := by
  cases hslot : session.volume.slot? id with
  | none =>
    have hanswer (asked : Session) (hvolume : asked.volume = session.volume) :
        asked.answer (.read id count) =
          .error (.error (.invalidArgument (.unknownFile id))) := by
      rw [answer, Call.perform, Volume.read_eq, Mounted.slot_of_none (hvolume ▸ hslot)]
      rfl
    exact .inl ((hanswer session rfl).trans (hanswer other h.volume_eq).symm)
  | some found =>
    obtain ⟨index, handle⟩ := found
    have hslot' : other.volume.slot? id = some (index, handle) := by rw [h.volume_eq, hslot]
    obtain ⟨place, target, hplace, hsector⟩ :=
      h.valid.reached index handle (Volume.table_of_slot? hslot).1
    have hrun := h.valid.read_performs hslot count
    have hrun' := h.other_valid.read_performs hslot' count
    rw [← hsector] at hrun hrun'
    refine h.alike_of_read hplace ?_ (h.valid.answer_of_performs hrun)
      (h.other_valid.answer_of_performs hrun')
    rw [reading, hslot, hsector]
    rfl

theorem alike_readAt {handle : Handle} (hheld : Held sectors session (handle.sector, handle.node))
    (position count : Nat) :
    session.AnswersAlike other written (.readAt handle position count) := by
  have hword := Nat.le_of_lt h.valid.whole.sectors_lt
  obtain ⟨-, ⟨place, target, hplace, htarget⟩, -⟩ := hheld.leads
  have hsector : target.sector = handle.sector := htarget
  have hintact := hheld.intact
  have hintact' : other.image.Intact sectors handle.sector handle.node := by
    rw [← hsector] at hintact ⊢
    exact h.images.intact hplace hintact
  have hrun := (Handle.readAt_performs hintact hword position count).map
    fun bytes ↦ (Answer.bytes bytes, session.volume)
  have hrun' := (Handle.readAt_performs hintact' hword position count).map
    fun bytes ↦ (Answer.bytes bytes, other.volume)
  rw [← hsector] at hrun hrun'
  refine h.alike_of_read hplace ?_
    (@Mounted.answer_of_performs _ _ (.readAt handle position count) h.valid.toMounted _ _ hrun)
    (@Mounted.answer_of_performs _ _ (.readAt handle position count) h.other_valid.toMounted _ _
      hrun')
  rw [reading, hsector]

/-- Every permitted call is answered alike. -/
theorem alike (hpermits : session.Permits call)
    (hheld : ∀ handle position count, call = .readAt handle position count →
      Held sectors session (handle.sector, handle.node)) :
    session.AnswersAlike other written call := by
  obtain ⟨outcome, _, _, hrun, hrun', -⟩ | ⟨id, count, rfl⟩ | ⟨handle, position, count, rfl⟩ :=
    h.joint hpermits
  · rw [← h.volume_eq] at hrun'
    exact .inl ((h.valid.answer_of_performs hrun).trans
      (h.other_valid.answer_of_performs hrun').symm)
  · exact h.alike_read id count
  · exact h.alike_readAt (hheld handle position count rfl) position count

end Shares

/-! ## Formatted disks -/

section Formatting

variable {left right : Drive} (hleft : left.disk.sectorCount = sectors)
  (hright : right.disk.sectorCount = sectors)
  (hleftSize : sectors * sectorSize ≤ left.disk.medium.size)
  (hrightSize : sectors * sectorSize ≤ right.disk.medium.size)
  (hleftFaults : left.disk.faults = .none) (hrightFaults : right.disk.faults = .none)

include hleft hright hleftSize hrightSize hleftFaults hrightFaults

/-- Formatting ends in the same way on both disks, and if it succeeds both go on with the same
volume and resemble each other. -/
theorem format_shares :
    (∃ stop first second, Volume.format left = .error stop first ∧
      Volume.format right = .error stop second) ∨
    ∃ volume first second, Volume.format left = .ok volume first ∧
      Volume.format right = .ok volume second ∧
      (begin first volume).Shares (begin second volume) sectors ∅ := by
  have hholds : left.disk.Holds left.disk.sector sectors := ⟨hleft, hleftSize, rfl⟩
  have hholds' : right.disk.Holds right.disk.sector sectors := ⟨hright, hrightSize, rfl⟩
  by_cases hroom : ∃ height, Formattable sectors height
  · obtain ⟨height, hroom⟩ := hroom
    obtain ⟨mapNode, rootNode, inner, hformatted⟩ := Volume.format_performs hroom
    obtain ⟨writes, hrun, hfirst⟩ := hformatted left.disk.sector
    obtain ⟨writes', hrun', hsecond⟩ := hformatted right.disk.sector
    obtain ⟨first, hfinal, hdisk, -⟩ := hrun.run hholds hleftFaults
    obtain ⟨second, hfinal', hdisk', -⟩ := hrun'.run hholds' hrightFaults
    refine .inr ⟨_, first, second, hfinal, hfinal', ⟨⟨?_, ?_, rfl, fun _ hfile ↦ hfile, ?_⟩,
      fun _ hbyte ↦ hbyte.elim, fun _ hbyte ↦ hbyte.elim⟩⟩
    · exact (begin_valid hleft hleftSize hleftFaults hfinal).1
    · exact (begin_valid hright hrightSize hrightFaults hfinal').1
    · rw [image, image, begin, begin, hdisk.sector_eq, hdisk'.sector_eq]
      exact hfirst.resembles hsecond
  · obtain ⟨stop, writes, hrun⟩ := Volume.format_refused fun height hheight ↦
      hroom ⟨height, hheight⟩
    obtain ⟨first, hfinal, -⟩ := (hrun left.disk.sector).run hholds hleftFaults
    obtain ⟨second, hfinal', -⟩ := (hrun right.disk.sector).run hholds' hrightFaults
    exact .inl ⟨stop, first, second, hfinal, hfinal'⟩

/-- Two disks of one size that refuse nothing end a format in the same way, whatever they hold. After
it every call is answered alike on both, whatever calls came before: in the same way, except that
a read from a regular file may return other bytes where the file was not written since it was
created. What is permitted on one is permitted on the other. -/
theorem format_forgets :
    (∃ stop first second, Volume.format left = .error stop first ∧
      Volume.format right = .error stop second) ∨
    ∃ volume first second, Volume.format left = .ok volume first ∧
      Volume.format right = .ok volume second ∧
      ∀ calls : List Call, (begin first volume).PermitsAll calls →
        (begin second volume).PermitsAll calls ∧
        ∀ call : Call, ((begin first volume).run calls).Permits call →
          (∀ handle position count, call = .readAt handle position count →
            Held sectors ((begin first volume).run calls) (handle.sector, handle.node)) →
          ((begin first volume).run calls).AnswersAlike ((begin second volume).run calls)
            ((begin first volume).writtenBy ∅ calls) call := by
  obtain hstopped | ⟨volume, first, second, hfirst, hsecond, hshares⟩ :=
    format_shares hleft hright hleftSize hrightSize hleftFaults hrightFaults
  · exact .inl hstopped
  · refine .inr ⟨volume, first, second, hfirst, hsecond, fun calls hcalls ↦ ?_⟩
    obtain ⟨hpermits, hrun⟩ := hshares.run hcalls
    exact ⟨hpermits, fun call hcall hheld ↦ hrun.alike hcall hheld⟩

end Formatting

/-- A blank disk and one with all bits set are formatted. A new file of which three bytes are written
may read differently on them elsewhere, but the reports are the same. -/
theorem format_forgets_full : ∃ volume first second handle,
    Volume.format (.blank 64) = .ok volume first ∧
      Volume.format (.full 64) = .ok volume second ∧
      let calls := [.create "/a" 300, .openHandle "/a", .writeAt handle 100 ⟨#[1, 2, 3]⟩]
      let session := (begin first volume).run calls
      let other := (begin second volume).run calls
      let written := (begin first volume).writtenBy ∅ calls
      (handle.sector, 101) ∈ written ∧
        session.AnswersAlike other written (.readAt handle 0 300) ∧
        session.answer .report = other.answer .report := by
  obtain ⟨volume, first, hformat, hreached, -, -, -, sector, hgains⟩ := exists_created_small
  have hcreated := hreached.call (permits_of_creates (.file "/a" 300))
  obtain ⟨-, node, hlive⟩ := hcreated.valid.open_live hgains.locate_eq
  have hopened := @Reached.call 64 _ (.openHandle "/a") hcreated trivial
  have hfile := @Valid.hasFile_writeAt 64 _ sector hopened.valid ⟨sector, node, 0⟩ 100 ⟨#[1, 2, 3]⟩
    hlive (hopened.valid.intact_of_live hlive).1
  have hwritten := @Reached.call 64 _ (.writeAt ⟨sector, node, 0⟩ 100 ⟨#[1, 2, 3]⟩) hopened hlive
  have hheld := hwritten.held_of_live (live_step hlive hfile)
  obtain ⟨stop, final, _, hstopped, -⟩ | ⟨volume', first', second, hfirst, hsecond, hcalls⟩ :=
    @format_forgets 64 (.blank 64) (.full 64) rfl rfl (size_zeroBytes _).ge
      Array.size_replicate.ge rfl rfl
  · rw [hformat] at hstopped
    contradiction
  · obtain ⟨rfl, rfl⟩ := EStateM.Result.ok.inj (hformat.symm.trans hfirst)
    obtain ⟨-, hanswers⟩ := hcalls
      [.create "/a" 300, .openHandle "/a", .writeAt ⟨sector, node, 0⟩ 100 ⟨#[1, 2, 3]⟩]
      ⟨trivial, trivial, hlive, trivial⟩
    refine ⟨volume, first, second, ⟨sector, node, 0⟩, hfirst, hsecond,
      ⟨.inr ⟨100, _, rfl, Nat.le_succ 100, show 101 < 100 + 3 by decide⟩, hfile⟩,
      hanswers (.readAt ⟨sector, node, 0⟩ 0 300) trivial fun _ _ _ hcall ↦ ?_, ?_⟩
    · obtain ⟨rfl, -, -⟩ := Call.readAt.inj hcall
      exact hheld
    · obtain hreport | ⟨_, _, _, _, hreading, -⟩ :=
        hanswers .report trivial fun _ _ _ hcall ↦ nomatch hcall
      · exact hreport
      · contradiction

end Session

end SectorFS
