import SectorFS.Proofs.FreeMap.Words
import SectorFS.Proofs.Tables
import SectorFS.Proofs.Transfer.Interrupted
import SectorFS.Proofs.Transfer.Starts

/-!
# The map in its file

A map takes the first bytes of a file, and the last of its words is stored only as far as the map
has bytes. What is missing of a word is read as zeros, so a map is the same after it was saved and
read again, whatever the number of its sectors is and however long the file is. The rest of the file
keeps its bytes. Nothing is asked of the bits that name no sector: those that have a byte of the map
are saved with it.

A map in memory is replaced once all of its bytes were read (`reload`). If a request is refused
before, it stays what it was.
-/

namespace SectorFS.FreeMap

variable {map old : FreeMap} {root : Node} {handle : Handle} {before after disk : Disk}

/-! ## Words and bytes -/

/-- The bytes of a map are those of its words, the least significant first. -/
theorem byteAt_bytes_eq_word (map : FreeMap) (place : Nat) :
    byteAt map.bytes place = LittleEndian.byte (map.word (place / 8)).toNat (place % 8) := by
  have hword : (map.word (place / 8)).toNat =
      LittleEndian.read 8 fun digit ↦ byteAt map.bytes (8 * (place / 8) + digit) := by
    rw [word, BitVec.toNat_ofNat]
    exact Nat.mod_eq_of_lt (LittleEndian.read_lt 8 _)
  rw [hword, LittleEndian.byte_read _ (Nat.mod_lt _ (by decide)), Nat.div_add_mod]

theorem byteAt_ofBytes (sectors : Nat) (content : ByteArray) (place : Nat) :
    byteAt (ofBytes sectors content).bytes place =
      if place < byteCount sectors then byteAt content place else 0 := by
  have hsize : (ofBytes sectors content).bytes.size = byteCount sectors :=
    (ofBytes sectors content).size_bytes
  split
  · rename_i hplace
    rw [byteAt_of_lt (hsize ▸ hplace), ByteArray.getElem_eq_getElem_data]
    simp [ofBytes]
  · exact byteAt_of_size_le (by omega)

/-- Bytes past those of the map count as zero in the words that are read. -/
theorem word_ofBytes (sectors : Nat) (content : ByteArray) (index : Nat) :
    (ofBytes sectors content).word index = BitVec.ofNat 64 (LittleEndian.read 8 fun digit ↦
      if 8 * index + digit < byteCount sectors then byteAt content (8 * index + digit) else 0) := by
  simp only [word, byteAt_ofBytes]

/-! ## Saving -/

/-- The file below a root has the bytes of a map at its start, and nothing else has changed. -/
structure SavedIn (map : FreeMap) (root : Node) (before after : Disk) : Prop where
  extract_content : (root.content after.sector).extract 0 (byteCount map.sectors) = map.bytes
  /-- The bytes are those of the words, of which the last one can be cut off. -/
  byteAt_content : ∀ place < byteCount map.sectors, byteAt (root.content after.sector) place =
    LittleEndian.byte (map.word (place / 8)).toNat (place % 8)
  /-- The words are those of the bytes, with zeros where the last one was cut off. -/
  word_eq : ∀ index, map.word index = BitVec.ofNat 64 (LittleEndian.read 8 fun digit ↦
    if 8 * index + digit < byteCount map.sectors then
      byteAt (root.content after.sector) (8 * index + digit)
    else 0)
  byteAt_past : ∀ place, byteCount map.sectors ≤ place →
    byteAt (root.content after.sector) place = byteAt (root.content before.sector) place
  size_content : (root.content after.sector).size = (root.content before.sector).size
  rewritten : root.Rewritten 0 map.bytes before after

theorem savedIn (hroom : byteCount map.sectors ≤ root.length.toNat)
    (h : root.Rewritten 0 map.bytes before after) : map.SavedIn root before after := by
  have hbytes : map.bytes.size = byteCount map.sectors := map.size_bytes
  have hstart := @extract_overwrite (root.content before.sector) map.bytes
    (by rw [Node.size_content, hbytes]; exact hroom)
  rw [← h.content_eq, hbytes] at hstart
  have hbyte (place : Nat) (hplace : place < byteCount map.sectors) :
      byteAt (root.content after.sector) place = byteAt map.bytes place := by
    rw [← hstart, byteAt_extract, Nat.zero_add, if_pos hplace]
  constructor
  case extract_content => exact hstart
  case byteAt_content =>
    intro place hplace
    rw [hbyte place hplace, map.byteAt_bytes_eq_word]
  case word_eq =>
    intro index
    conv_lhs => rw [← map.ofBytes_bytes, word_ofBytes]
    refine congrArg _ (LittleEndian.read_congr fun digit _ ↦ ?_)
    exact ite_congr rfl (fun hplace ↦ (hbyte _ hplace).symm) fun _ ↦ rfl
  case byteAt_past =>
    intro place hplace
    rw [h.content_eq]
    exact byteAt_overwrite_past _ (hbytes ▸ hplace)
  case size_content => rw [h.content_eq, size_overwrite]
  case rewritten => exact h

/-- A map is saved in a file that has room for it. -/
theorem store_ready {drive : Drive} (h : handle.node.Ready drive.disk)
    (hwords : map.sectors + 63 < Checked.wordLimit)
    (hroom : byteCount map.sectors ≤ handle.length) :
    ∃ stored, map.store handle drive = .ok () stored ∧
      map.SavedIn handle.node drive.disk stored.disk ∧ handle.node.Ready stored.disk := by
  obtain ⟨stored, hwrite, hrewritten, hready⟩ := h.writeAt_start (map.size_bytes.trans_le hroom)
  refine ⟨stored, ?_, savedIn hroom hrewritten, hready⟩
  rw [store, checkedByteCount_eq_ok (by omega)]
  exact bind_of_ok hwrite

/-! ## Loading -/

/-- The map of a file is read from its start. -/
theorem load_ready (h : handle.node.Ready disk) {sectors : Nat}
    (hwords : sectors + 63 < Checked.wordLimit) (hroom : byteCount sectors ≤ handle.length) :
    Performs (load sectors handle) disk.sector disk.sectorCount
      (.ok (ofBytes sectors
        ((handle.node.content disk.sector).extract 0 (byteCount sectors)))) [] := by
  rw [load_eq, checkedByteCount_eq_ok (by omega)]
  exact (Performs.pure _).step ((h.readAt_start hroom).map (ofBytes sectors))

/-- A map that could not be read leaves the one in memory. -/
theorem reload_eq (file : Handle) (drive : Drive) (old : FreeMap) :
    reload file ⟨drive, old⟩ =
      match load old.sectors file drive with
      | .ok map final => .ok () ⟨final, map⟩
      | .error stop final => .error stop ⟨final, old⟩ := by
  have husing : (reload file).using old drive = match load old.sectors file drive with
      | .ok map final => .ok ((), map) final
      | .error stop final => .error stop final := by
    rw [using_reload]
    show EStateM.bind (load old.sectors file) _ drive = _
    rw [EStateM.bind]
    cases load old.sectors file drive <;> rfl
  cases hload : load old.sectors file drive with
  | ok map final =>
    rw [hload] at husing
    exact InPlace.eq_ok_of_using husing
  | error stop final =>
    rw [hload] at husing
    exact (@commits_reload (fun _ ↦ True) file).eq_error_of_using trivial husing

/-- How reading a file into memory ends on a disk that can refuse any access: the map of the file is
in memory, or the one that was there before still is. -/
def ReloadEnds (map old : FreeMap) (file : Handle) (drive : Drive) : Prop :=
  ∃ final : Drive, drive.disk.Alike final.disk ∧
    (reload file ⟨drive, old⟩ = .ok () ⟨final, map⟩ ∨
      reload file ⟨drive, old⟩ = .error (.error (.device .injected)) ⟨final, old⟩)

/-- A map that is read unless a request is refused gets into memory or changes nothing there. -/
theorem reloadEnds_of_performs {file : Handle} {image : Image} {sectors : Nat}
    (h : Performs (load old.sectors file) image sectors (.ok map) []) {drive : Drive}
    (hdrive : drive.disk.Holds image sectors) : map.ReloadEnds old file drive := by
  obtain ⟨final, halike, hend⟩ := h.readEnds hdrive
  refine ⟨final, halike, ?_⟩
  rcases hend with hread | hrefused
  · left
    rw [reload_eq, hread]
  · right
    rw [reload_eq, hrefused]

/-! ## Saving and loading -/

/-- A map that is saved in a file of any length that has room for it is read back over any other map
of as many sectors, or as a map of its own, and the rest of the file is as it was. No refused
request and nothing else that ends the reading early touches the map in memory. -/
theorem survives_file {size : Nat} {drive later : Drive} {owner : FreeMap} {after : Space}
    (hclean : owner.Clean) (hword : owner.sectors ≤ 2 ^ 32)
    (hallocate : Node.allocate size ⟨drive, owner⟩ = .ok root after) (hroot : handle.node = root)
    (hlater : later.Serves after.drive.disk.sector root)
    (hdata : ∀ leaf ∈ root.data after.drive.disk.sector, leaf < later.disk.sectorCount)
    (hmedium : later.disk.sectorCount * sectorSize ≤ later.disk.medium.size)
    (hwords : map.sectors + 63 < Checked.wordLimit) (hroom : byteCount map.sectors ≤ size) :
    ∃ stored, map.store handle later = .ok () stored ∧ map.SavedIn root later.disk stored.disk ∧
      (∀ old : FreeMap, old.sectors = map.sectors → ∃ final,
        reload handle ⟨stored, old⟩ = .ok () ⟨final, map⟩ ∧ stored.disk.Alike final.disk) ∧
      (∃ final, load map.sectors handle stored = .ok map final ∧ stored.disk.Alike final.disk) ∧
      (∀ (old : FreeMap) faults, old.sectors = map.sectors →
        map.ReloadEnds old handle ⟨stored.disk.setFaults faults, stored.journal⟩) ∧
      ∀ file space stop final, reload file space = .error stop final → final.map = space.map := by
  subst hroot
  have htree := Node.allocated_of_ok hclean hword hallocate
  have hlength : handle.length = size := htree.length_eq
  obtain ⟨stored, hstored, hsaved, hready⟩ := store_ready
    (htree.ready hword hlater hdata hmedium) hwords (hlength ▸ hroom)
  have hload (old : FreeMap) (hold : old.sectors = map.sectors) :
      Performs (load old.sectors handle) stored.disk.sector stored.disk.sectorCount
        (.ok map) [] := by
    have hrun := load_ready hready hwords (hlength ▸ hroom)
    rwa [hsaved.extract_content, ofBytes_bytes, ← hold] at hrun
  refine ⟨stored, hstored, hsaved, fun old hold ↦ ?_,
    (hload map rfl).alike hready.holds hready.faults_eq, fun old faults hold ↦ ?_,
    fun file space stop final hstopped ↦
      @commits_reload (fun _ ↦ True) file space stop final hstopped trivial⟩
  · obtain ⟨final, hrun, halike⟩ := (hload old hold).alike hready.holds hready.faults_eq
    refine ⟨final, ?_, halike⟩
    rw [reload_eq, hrun]
    rfl
  · exact reloadEnds_of_performs (hload old hold) ⟨rfl, hready.le_size, rfl⟩

/-- A map of `28701` sectors, the last one in use, in a file of level `2`: its last word is half in
the file, where `125` bytes follow it. It is read back over a blank map and as a map of its own. -/
theorem survives_file_around_taken :
    ∃ root after stored final loaded, Node.allocate 3713
        ⟨⟨⟨⟨zeroBytes 8192⟩, 64, .none, .none, #[]⟩, #[]⟩, (FreeMap.blank 64).mark 1⟩ =
          .ok root after ∧
      let map := (blank 28701).mark 28700
      let drive : Drive := ⟨after.drive.disk.setFaults .none, #[]⟩
      map.store ⟨1, root, 0⟩ drive = .ok () stored ∧
      reload ⟨1, root, 0⟩ ⟨stored, blank 28701⟩ = .ok () ⟨final, map⟩ ∧
      load 28701 ⟨1, root, 0⟩ stored = .ok map loaded ∧
      byteAt (root.content stored.disk.sector) 3588 =
        byteAt (root.content drive.disk.sector) 3588 := by
  obtain ⟨hclean, root, after, hallocate, hserves, hdata, hmedium⟩ :=
    Node.exists_served_around_taken
  have hsectors : ((blank 28701).mark 28700).sectors = 28701 := sectors_mark _ _
  obtain ⟨stored, hstored, hsaved, hreload, ⟨loaded, hloaded, -⟩, -⟩ :=
    @survives_file ((blank 28701).mark 28700) root
    ⟨1, root, 0⟩ _ _ _ _ _ hclean (by decide) hallocate rfl hserves hdata hmedium
    (by rw [hsectors]; decide) (by rw [hsectors]; decide)
  obtain ⟨final, hfinal, -⟩ := hreload (blank 28701) hsectors.symm
  rw [hsectors] at hloaded
  exact ⟨root, after, stored, final, loaded, hallocate, hstored, hfinal, hloaded,
    hsaved.byteAt_past 3588 (by rw [hsectors]; decide)⟩

end SectorFS.FreeMap
