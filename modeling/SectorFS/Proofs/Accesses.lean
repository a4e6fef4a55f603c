import SectorFS.Proofs.Quiet

/-!
# A disk as an array of sectors

The accesses that a disk itself offers, with nothing assumed about its medium, which may be shorter
or longer than the sectors that the disk counts, and with buffers of any size. Reads and refused
accesses leave no trace and a write puts its bytes over those that it covers, so after any accesses
the medium holds at every place the byte that was written there last. `Drive.answers_after` says
how the next access is answered then.

The disk here refuses nothing of its own accord. What a disk does that is told to refuse accesses
is said where operations meet such a disk.
-/

namespace SectorFS

/-! ## Accesses -/

/-- What a disk is asked for: to read a sector over the start of a buffer, or to write the start of
a sector. -/
inductive Access where
  | read (number : Nat) (buffer : ByteArray)
  | write (number : Nat) (data : ByteArray)

namespace Access

/-- The drive after an access, whether or not it was refused. -/
def leaves (drive : Drive) : Access → Drive
  | read number buffer => reached (Drive.readInto number buffer drive)
  | write number data => reached (Drive.writeBytes number data drive)

/-- The byte that an access puts at a place of a disk with the given number of sectors. -/
def byte? (sectors place : Nat) : Access → Option UInt8
  | read _ _ => none
  | write number data =>
    if number < sectors ∧ number * sectorSize ≤ place ∧
        place < number * sectorSize + min data.size sectorSize then
      some (byteAt data (place - number * sectorSize))
    else
      none

/-- Where the bytes end that an access puts on a disk with the given number of sectors. -/
def reach (sectors : Nat) : Access → Nat
  | read _ _ => 0
  | write number data =>
    if number < sectors ∧ 0 < data.size then number * sectorSize + min data.size sectorSize else 0

end Access

namespace Disk

/-- The byte that was written last at a place, or else the one that the medium started with. -/
def lastByte (disk : Disk) (accesses : List Access) (place : Nat) : UInt8 :=
  (accesses.reverse.findSome? (Access.byte? disk.sectorCount place)).getD
    (disk.medium.byteAt place)

/-- The end of the farthest byte written, or else that of the medium. -/
def farthest (disk : Disk) (accesses : List Access) : Nat :=
  (accesses.map (Access.reach disk.sectorCount)).foldl max disk.medium.size

theorem lastByte_concat (disk : Disk) (accesses : List Access) (access : Access) (place : Nat) :
    disk.lastByte (accesses ++ [access]) place =
      (access.byte? disk.sectorCount place).getD (disk.lastByte accesses place) := by
  rw [lastByte, List.reverse_append, List.reverse_singleton, List.singleton_append,
    List.findSome?_cons]
  cases access.byte? disk.sectorCount place with
  | none => rfl
  | some byte => rfl

theorem farthest_concat (disk : Disk) (accesses : List Access) (access : Access) :
    disk.farthest (accesses ++ [access]) =
      max (disk.farthest accesses) (access.reach disk.sectorCount) := by
  rw [farthest, List.map_append, List.foldl_append]
  rfl

end Disk

/-- The drive after accesses, the refused ones included. -/
def Drive.after (drive : Drive) (accesses : List Access) : Drive :=
  accesses.foldl Access.leaves drive

theorem Drive.after_concat (drive : Drive) (accesses : List Access) (access : Access) :
    drive.after (accesses ++ [access]) = access.leaves (drive.after accesses) :=
  List.foldl_concat ..

/-! ## Answers -/

/-- The disk reports a failure of the given kind, and has not changed. -/
def Fails {α : Type} (action : Action α) (drive : Drive) (cause : DeviceError)
    (kind : FailureKind) : Prop :=
  cause.kind = kind ∧ ∃ final : Drive,
    action drive = .error (.error (.device cause)) final ∧ drive.disk.Alike final.disk

/-- A failed access has left the disk as it was. -/
theorem Fails.alike {α : Type} {action : Action α} {drive : Drive} {cause : DeviceError}
    {kind : FailureKind} (h : Fails action drive cause kind) :
    drive.disk.Alike (reached (action drive)).disk := by
  obtain ⟨-, final, hrun, halike⟩ := h
  rw [hrun]
  exact halike

/-- A buffer with the bytes of a sector over its start. -/
structure Fills (filled buffer : ByteArray) (byte : Nat → UInt8) : Prop where
  size_eq : filled.size = buffer.size
  start : ∀ index < sectorSize, byteAt filled index = byte index
  rest : ∀ index, sectorSize ≤ index → byteAt filled index = byteAt buffer index

/-- A medium with `data` put over the start of a sector, as much of it as the sector has room
for. -/
structure Medium.Takes (before after : Medium) (number : Nat) (data : ByteArray) : Prop where
  replaced : ∀ index < min data.size sectorSize,
    after.byteAt (number * sectorSize + index) = SectorFS.byteAt data index
  kept : ∀ place, place < number * sectorSize ∨
    number * sectorSize + min data.size sectorSize ≤ place →
    after.byteAt place = before.byteAt place
  /-- A medium that is too short is made longer by zeros. -/
  gap : ∀ place, before.size ≤ place → place < number * sectorSize → after.byteAt place = 0
  size_eq : 0 < data.size →
    after.size = max before.size (number * sectorSize + min data.size sectorSize)
  eq_of_empty : data.size = 0 → after = before

namespace Drive

/-- What accesses leave of a disk: the bytes that were written last, and nothing else new. -/
structure Reflects (start : Disk) (accesses : List Access) (drive : Drive) : Prop where
  faults_eq : drive.disk.faults = start.faults
  sectorCount_eq : drive.disk.sectorCount = start.sectorCount
  size_eq : drive.disk.medium.size = start.farthest accesses
  byteAt_eq : ∀ place, drive.disk.medium.byteAt place = start.lastByte accesses place

/-- How a drive answers an access, where others have made it from a disk. -/
structure Answers (start : Disk) (accesses : List Access) (drive : Drive) : Prop
    extends Reflects start accesses drive where
  read_outside : ∀ number buffer, start.sectorCount ≤ number →
    Fails (readInto number buffer) drive .outOfRange .invalidInput
  write_outside : ∀ number data, start.sectorCount ≤ number →
    Fails (writeBytes number data) drive .outOfRange .invalidInput
  read_short : ∀ number buffer, number < start.sectorCount → buffer.size < sectorSize →
    Fails (readInto number buffer) drive .shortBuffer .invalidInput
  read_past : ∀ number buffer, number < start.sectorCount → sectorSize ≤ buffer.size →
    drive.disk.medium.size < (number + 1) * sectorSize →
    Fails (readInto number buffer) drive .unexpectedEnd .unexpectedEnd
  read : ∀ number buffer, number < start.sectorCount → sectorSize ≤ buffer.size →
    (number + 1) * sectorSize ≤ drive.disk.medium.size → ∃ filled final,
      readInto number buffer drive = .ok filled final ∧ drive.disk.Alike final.disk ∧
      Fills filled buffer fun index ↦ start.lastByte accesses (number * sectorSize + index)
  write : ∀ number data, number < start.sectorCount → ∃ final,
    writeBytes number data drive = .ok () final ∧
    drive.disk.medium.Takes final.disk.medium number data

end Drive

/-! ## What is written and what is read -/

theorem size_extract_sector (data : ByteArray) :
    (data.extract 0 sectorSize).size = min data.size sectorSize := by
  rw [ByteArray.size_extract, Nat.sub_zero, Nat.min_comm]

namespace Disk

variable (disk : Disk) (number : Nat) (data : ByteArray)

/-- A write replaces the bytes that it covers. -/
theorem byteAt_medium_store (place : Nat) :
    (disk.store number data).medium.byteAt place =
      if number * sectorSize ≤ place ∧ place < number * sectorSize + min data.size sectorSize then
        byteAt data (place - number * sectorSize)
      else
        disk.medium.byteAt place := by
  rw [store_eq, Medium.byteAt_write, size_extract_sector, byteAt_extract, Nat.zero_add]
  apply ite_congr rfl
  · intro hplace
    rw [if_pos (by omega)]
  · exact fun _ ↦ rfl

theorem size_medium_store_of_pos (hdata : 0 < data.size) :
    (disk.store number data).medium.size =
      max disk.medium.size (number * sectorSize + min data.size sectorSize) := by
  have hsome : (data.extract 0 sectorSize).size ≠ 0 := by
    rw [size_extract_sector]
    simp only [sectorSize]
    omega
  rw [store_eq, Medium.size_write, if_neg hsome, size_extract_sector]

theorem medium_store_of_empty (hdata : data.size = 0) :
    (disk.store number data).medium = disk.medium := by
  have hnone : (data.extract 0 sectorSize).size = 0 := by
    rw [size_extract_sector, hdata, Nat.zero_min]
  rw [store_eq, Medium.write, if_pos hnone]

theorem takes_store : disk.medium.Takes (disk.store number data).medium number data := by
  constructor
  case replaced =>
    intro index hindex
    rw [byteAt_medium_store, if_pos ⟨Nat.le_add_right _ _, Nat.add_lt_add_left hindex _⟩,
      Nat.add_sub_cancel_left]
  case kept =>
    intro place hplace
    rw [byteAt_medium_store, if_neg (by omega)]
  case gap =>
    intro place hsize hbefore
    rw [byteAt_medium_store, if_neg (by omega)]
    exact SectorFS.byteAt_of_size_le hsize
  case size_eq => exact disk.size_medium_store_of_pos number data
  case eq_of_empty => exact disk.medium_store_of_empty number data

theorem fills_sector {buffer : ByteArray} (hroom : sectorSize ≤ buffer.size) :
    Fills ((disk.sector number).bytes ++ buffer.extract sectorSize buffer.size) buffer
      fun index ↦ disk.medium.byteAt (number * sectorSize + index) := by
  have hsize : (disk.sector number).bytes.size = sectorSize := size_bytes _
  constructor
  case size_eq =>
    rw [ByteArray.size_append, ByteArray.size_extract, hsize]
    omega
  case start =>
    intro index hindex
    rw [byteAt_append, hsize, if_pos hindex, byteAt_bytes _ hindex, sector, Sector.ofMedium,
      Vector.getElem_ofFn]
  case rest =>
    intro index hindex
    rw [byteAt_append, hsize, if_neg (Nat.not_lt.mpr hindex), byteAt_extract,
      Nat.add_sub_of_le hindex]
    by_cases hwithin : index < buffer.size
    · exact if_pos hwithin
    · rw [if_neg hwithin, byteAt_of_size_le (Nat.le_of_not_lt hwithin)]

theorem alike_request : disk.Alike disk.request := ⟨rfl, rfl, rfl, rfl⟩

end Disk

/-! ## One access -/

namespace Drive

theorem readInto_eq (number : Nat) (buffer : ByteArray) (drive : Drive) :
    readInto number buffer drive =
      match drive.disk.readRefusal? number buffer.size with
      | some stop => .error stop { drive with disk := drive.disk.request }
      | none => .ok ((drive.disk.sector number).bytes ++ buffer.extract sectorSize buffer.size)
          { drive with disk := drive.disk.request } := by
  change EStateM.bind (readSectorInto number buffer.size) _ drive = _
  unfold EStateM.bind readSectorInto
  cases drive.disk.readRefusal? number buffer.size with
  | some stop => rfl
  | none => rfl

variable {drive : Drive} {number : Nat}

theorem readInto_of_refused {buffer : ByteArray} {cause : DeviceError}
    (h : drive.disk.readRefusal? number buffer.size = some (.error (.device cause))) :
    Fails (readInto number buffer) drive cause cause.kind := by
  refine ⟨rfl, { drive with disk := drive.disk.request }, ?_, drive.disk.alike_request⟩
  rw [readInto_eq, h]

theorem writeBytes_of_refused {data : ByteArray} {cause : DeviceError}
    (h : drive.disk.writeRefusal? number = some (.error (.device cause))) :
    Fails (writeBytes number data) drive cause cause.kind := by
  refine ⟨rfl, { drive with disk := drive.disk.request }, ?_, drive.disk.alike_request⟩
  rw [writeBytes, h]

theorem readInto_of_accepted {buffer : ByteArray}
    (h : drive.disk.readRefusal? number buffer.size = none) :
    readInto number buffer drive =
      .ok ((drive.disk.sector number).bytes ++ buffer.extract sectorSize buffer.size)
        { drive with disk := drive.disk.request } := by
  rw [readInto_eq, h]

theorem writeBytes_of_accepted {data : ByteArray} (h : drive.disk.writeRefusal? number = none) :
    writeBytes number data drive =
      .ok () { drive with disk := drive.disk.store number data } := by
  rw [writeBytes, h]

/-- Reading leaves the disk as it was, refused or not. -/
theorem alike_readInto (number : Nat) (buffer : ByteArray) (drive : Drive) :
    drive.disk.Alike (reached (readInto number buffer drive)).disk := by
  rw [readInto_eq]
  cases drive.disk.readRefusal? number buffer.size with
  | some stop => exact drive.disk.alike_request
  | none => exact drive.disk.alike_request

/-! ## Sequences of accesses -/

namespace Reflects

variable {start : Disk} {accesses : List Access}

theorem refl (drive : Drive) : Reflects drive.disk [] drive := ⟨rfl, rfl, rfl, fun _ ↦ rfl⟩

/-- An access that puts no bytes on the disk adds nothing to what was written. -/
theorem of_alike (h : Reflects start accesses drive) {access : Access} {next : Drive}
    (halike : drive.disk.Alike next.disk)
    (hbyte : ∀ place, access.byte? start.sectorCount place = none)
    (hreach : access.reach start.sectorCount = 0) : Reflects start (accesses ++ [access]) next := by
  constructor
  case faults_eq => rw [halike.faults_eq, h.faults_eq]
  case sectorCount_eq => rw [halike.sectorCount_eq, h.sectorCount_eq]
  case size_eq => rw [halike.medium_eq, h.size_eq, Disk.farthest_concat, hreach, Nat.max_zero]
  case byteAt_eq =>
    intro place
    rw [halike.medium_eq, h.byteAt_eq, Disk.lastByte_concat, hbyte]
    rfl

/-- A write is the last one at the places that it covers. -/
theorem store (h : Reflects start accesses drive) {data : ByteArray} {next : Drive}
    (hnumber : number < start.sectorCount) (hnext : next.disk = drive.disk.store number data) :
    Reflects start (accesses ++ [.write number data]) next := by
  constructor
  case faults_eq => rw [hnext, Disk.faults_store, h.faults_eq]
  case sectorCount_eq => rw [hnext, Disk.sectorCount_store, h.sectorCount_eq]
  case size_eq =>
    rw [hnext, Disk.farthest_concat, Access.reach, ← h.size_eq]
    cases Nat.eq_zero_or_pos data.size with
    | inl hempty =>
      rw [Disk.medium_store_of_empty _ _ _ hempty, if_neg (by omega), Nat.max_zero]
    | inr hpos => rw [Disk.size_medium_store_of_pos _ _ _ hpos, if_pos ⟨hnumber, hpos⟩]
  case byteAt_eq =>
    intro place
    rw [hnext, Disk.byteAt_medium_store, Disk.lastByte_concat, ← h.byteAt_eq, Access.byte?]
    simp only [hnumber, true_and]
    split
    · rfl
    · rfl

/-- A disk without faults refuses to read what it does not have, and what the buffer has no room
for. -/
theorem readRefusal?_eq (h : Reflects start accesses drive) (hfaults : start.faults = .none)
    (hcount : start.sectorCount * sectorSize < 2 ^ 63) (number room : Nat) :
    drive.disk.readRefusal? number room =
      if start.sectorCount ≤ number then some (.error (.device .outOfRange))
      else if room < sectorSize then some (.error (.device .shortBuffer))
      else if drive.disk.medium.size < (number + 1) * sectorSize then
        some (.error (.device .unexpectedEnd))
      else none := by
  have haccepts : ¬ drive.disk.faults.refusesRead drive.disk.traffic number = true := by
    rw [h.faults_eq, hfaults]
    exact Bool.false_ne_true
  rw [Disk.readRefusal?, if_neg haccepts, h.sectorCount_eq]
  apply ite_congr rfl
  · exact fun _ ↦ rfl
  · intro hnumber
    have hword : ¬ Checked.wordLimit ≤ number * sectorSize := by
      simp only [Checked.wordLimit, sectorSize] at *
      omega
    rw [if_neg hword, Nat.add_mul, Nat.one_mul]

/-- A disk without faults refuses to write what it does not have. -/
theorem writeRefusal?_eq (h : Reflects start accesses drive) (hfaults : start.faults = .none)
    (hcount : start.sectorCount * sectorSize < 2 ^ 63) (number : Nat) :
    drive.disk.writeRefusal? number =
      if start.sectorCount ≤ number then some (.error (.device .outOfRange)) else none := by
  have haccepts : ¬ drive.disk.faults.refusesWrite drive.disk.traffic number = true := by
    rw [h.faults_eq, hfaults]
    exact Bool.false_ne_true
  rw [Disk.writeRefusal?, if_neg haccepts, h.sectorCount_eq]
  apply ite_congr rfl
  · exact fun _ ↦ rfl
  · intro hnumber
    apply if_neg
    simp only [Checked.wordLimit, sectorSize] at *
    omega

theorem step (h : Reflects start accesses drive) (hfaults : start.faults = .none)
    (hcount : start.sectorCount * sectorSize < 2 ^ 63) (access : Access) :
    Reflects start (accesses ++ [access]) (access.leaves drive) := by
  cases access with
  | read number buffer =>
    exact h.of_alike (alike_readInto number buffer drive) (fun _ ↦ rfl) rfl
  | write number data =>
    have hrefusal := h.writeRefusal?_eq hfaults hcount number
    by_cases hnumber : start.sectorCount ≤ number
    · rw [if_pos hnumber] at hrefusal
      have hout : ¬ number < start.sectorCount := Nat.not_lt.mpr hnumber
      apply h.of_alike
      · exact (writeBytes_of_refused hrefusal).alike
      · exact fun place ↦ if_neg fun hplace ↦ hout hplace.1
      · exact if_neg fun hreach ↦ hout hreach.1
    · rw [if_neg hnumber] at hrefusal
      apply h.store (Nat.lt_of_not_le hnumber)
      rw [Access.leaves, writeBytes_of_accepted hrefusal]
      rfl

/-- Whatever is asked of a disk, it keeps what was written last. -/
theorem after (hfaults : drive.disk.faults = .none)
    (hcount : drive.disk.sectorCount * sectorSize < 2 ^ 63) (accesses : List Access) :
    Reflects drive.disk accesses (drive.after accesses) := by
  induction accesses using List.reverseRecOn with
  | nil => exact refl drive
  | append_singleton accesses access ih =>
    rw [after_concat]
    exact ih.step hfaults hcount access

/-- How the next access is answered. -/
theorem answers (h : Reflects start accesses drive) (hfaults : start.faults = .none)
    (hcount : start.sectorCount * sectorSize < 2 ^ 63) : Answers start accesses drive := by
  have hread := h.readRefusal?_eq hfaults hcount
  have hwrite := h.writeRefusal?_eq hfaults hcount
  constructor
  case toReflects => exact h
  case read_outside =>
    intro number buffer hnumber
    apply readInto_of_refused
    rw [hread, if_pos hnumber]
  case write_outside =>
    intro number data hnumber
    apply writeBytes_of_refused
    rw [hwrite, if_pos hnumber]
  case read_short =>
    intro number buffer hnumber hshort
    apply readInto_of_refused
    rw [hread, if_neg (Nat.not_le.mpr hnumber), if_pos hshort]
  case read_past =>
    intro number buffer hnumber hroom hpast
    apply readInto_of_refused
    rw [hread, if_neg (Nat.not_le.mpr hnumber), if_neg (Nat.not_lt.mpr hroom), if_pos hpast]
  case read =>
    intro number buffer hnumber hroom hwithin
    have hnone : drive.disk.readRefusal? number buffer.size = none := by
      rw [hread, if_neg (Nat.not_le.mpr hnumber), if_neg (Nat.not_lt.mpr hroom),
        if_neg (Nat.not_lt.mpr hwithin)]
    refine ⟨_, _, readInto_of_accepted hnone, drive.disk.alike_request, ?_⟩
    simp only [← h.byteAt_eq]
    exact drive.disk.fills_sector number hroom
  case write =>
    intro number data hnumber
    have hnone : drive.disk.writeRefusal? number = none := by
      rw [hwrite, if_neg (Nat.not_le.mpr hnumber)]
    exact ⟨_, writeBytes_of_accepted hnone, drive.disk.takes_store number data⟩

end Reflects

/-- After any accesses a disk answers as an array of sectors does that keeps what was written last.
Refused accesses and reads change nothing, and a write changes the bytes that it covers. -/
theorem answers_after {drive : Drive} (hfaults : drive.disk.faults = .none)
    (hcount : drive.disk.sectorCount * sectorSize < 2 ^ 63) (accesses : List Access) :
    Answers drive.disk accesses (drive.after accesses) :=
  (Reflects.after hfaults hcount accesses).answers hfaults hcount

/-- A medium of less than two sectors under a disk of four: three bytes at the last sector make it
longer, but not long enough for that sector to be read. The one before reads as zeros, and the byte
of the buffer behind it stays. -/
theorem answers_after_short_medium :
    ∃ later : Drive, later = (⟨⟨⟨zeroBytes 200⟩, 4, .none, .none, #[]⟩, #[]⟩ : Drive).after
        [.write 3 ⟨#[1, 2, 3]⟩, .write 9 ⟨#[4]⟩, .read 3 (zeroBytes 128)] ∧
      later.disk.medium.size = 387 ∧ later.disk.medium.byteAt 385 = 2 ∧
      Fails (readInto 3 (zeroBytes 128)) later .unexpectedEnd .unexpectedEnd ∧
      ∃ filled final, readInto 2 (zeroBytes 128 ++ ⟨#[9]⟩) later = .ok filled final ∧
        byteAt filled 0 = 0 ∧ byteAt filled 128 = 9 := by
  have hafter := answers_after
    (rfl : (⟨⟨⟨zeroBytes 200⟩, 4, .none, .none, #[]⟩, #[]⟩ : Drive).disk.faults = .none)
    (by decide : 4 * sectorSize < 2 ^ 63)
    [.write 3 ⟨#[1, 2, 3]⟩, .write 9 ⟨#[4]⟩, .read 3 (zeroBytes 128)]
  have hsize := hafter.size_eq
  rw [Disk.farthest, Medium.size, Medium.size, size_zeroBytes] at hsize
  have hpast := hafter.read_past 3 (zeroBytes 128) (by decide) (size_zeroBytes 128).ge
    (by rw [Medium.size, hsize]; decide)
  have hroom : (zeroBytes 128 ++ ⟨#[9]⟩).size = 129 := by
    rw [ByteArray.size_append, size_zeroBytes]
    rfl
  obtain ⟨filled, final, hread, -, hfilled⟩ := hafter.read 2 (zeroBytes 128 ++ ⟨#[9]⟩) (by decide)
    (by rw [hroom]; decide) (by rw [Medium.size, hsize]; decide)
  refine ⟨_, rfl, hsize, (hafter.byteAt_eq 385).trans (by decide), hpast, filled, final, hread, ?_,
    ?_⟩
  · rw [hfilled.start 0 (by decide)]
    simp only [Disk.lastByte, Medium.byteAt, byteAt_zeroBytes]
    rfl
  · rw [hfilled.rest 128 (by decide), byteAt_append, size_zeroBytes]
    rfl

end Drive

end SectorFS
