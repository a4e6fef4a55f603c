import SectorFS.Directory.Storage
import SectorFS.Proofs.Index.Lookup
import SectorFS.Proofs.Transfer.Starts

/-!
# Stored forms

A node fills a sector, and the table of a directory the first bytes of a file. Both are stored whole
and read back as they were, and what is read is stored again as the bytes that were read, whatever
these bytes are. Every content of a file is that of some table, free entries included; a sector is
that of some node if and only if the level it states is one.

Storing a node changes its sector and no other. Storing a table changes the bytes of the table and
no others, and storing the table that is there changes nothing on the disk.
-/

namespace SectorFS

/-! ## Disks that serve every sector -/

/-- A disk that refuses nothing, on a medium with room for all sectors and a machine word for the
address of each byte. -/
structure Disk.Full (disk : Disk) : Prop where
  faults_eq : disk.faults = .none
  le_size : disk.sectorCount * sectorSize ≤ disk.medium.size
  size_lt : disk.medium.size < Checked.wordLimit

namespace Disk.Full

variable {disk other : Disk} {number : Nat}

theorem holds (h : disk.Full) : disk.Holds disk.sector disk.sectorCount := ⟨rfl, h.le_size, rfl⟩

theorem lt_word (h : disk.Full) (hnumber : number < disk.sectorCount) : number < 2 ^ 57 := by
  have hsize := h.le_size
  have hlt := h.size_lt
  simp only [sectorSize, Checked.wordLimit] at hsize hlt
  omega

theorem of_alike (h : disk.Full) (halike : disk.Alike other) : other.Full where
  faults_eq := halike.faults_eq.trans h.faults_eq
  le_size := by
    rw [halike.sectorCount_eq, halike.medium_eq]
    exact h.le_size
  size_lt := by
    rw [halike.medium_eq]
    exact h.size_lt

end Disk.Full

/-! ## Nodes -/

namespace Node

variable {drive : Drive} {number : Nat} {node : Node}

/-- What storing and fetching nodes at a sector does. -/
structure KeptAt (drive : Drive) (number : Nat) : Prop where
  /-- A stored node is fetched, and no other sector has changed. -/
  fetch_store : ∀ node : Node, ∃ stored final, node.store number drive = .ok () stored ∧
    stored.disk.sector = Image.put drive.disk.sector (number, node.toSector) ∧
    fetch number stored = .ok node final ∧ stored.disk.Alike final.disk
  fetch_iff : (∃ node final, fetch number drive = .ok node final) ↔
    1 ≤ storedLevel (drive.disk.sector number) ∧ storedLevel (drive.disk.sector number) ≤ maxLevel
  refused : ¬ (1 ≤ storedLevel (drive.disk.sector number) ∧
      storedLevel (drive.disk.sector number) ≤ maxLevel) →
    ∃ final, drive.disk.Alike final.disk ∧ fetch number drive =
      .error (.error (.invalidArgument
        (.notANode number (storedLevel (drive.disk.sector number))))) final
  /-- A node that was fetched is stored as the bytes that it was fetched from. -/
  store_fetch : ∀ node read, fetch number drive = .ok node read →
    ∀ target < drive.disk.sectorCount, ∃ stored, node.store target read = .ok () stored ∧
      stored.disk.sector = Image.put drive.disk.sector (target, drive.disk.sector number)
  /-- Stored where it was fetched from, it changes nothing. -/
  store_same : ∀ node read, fetch number drive = .ok node read →
    ∃ stored, node.store number read = .ok () stored ∧ stored.disk.sector = drive.disk.sector ∧
      stored.disk.medium.size = drive.disk.medium.size

theorem ofSector?_isSome_iff {sector : Sector} : (ofSector? sector).isSome ↔
    1 ≤ storedLevel sector ∧ storedLevel sector ≤ maxLevel := by
  rw [ofSector?]
  split
  · rename_i hlevel
    exact iff_of_true rfl hlevel
  · rename_i hlevel
    exact iff_of_false Bool.false_ne_true hlevel

/-- Storing a node puts its bytes at the sector. -/
theorem exists_stored (h : drive.disk.Full) (hnumber : number < drive.disk.sectorCount)
    (node : Node) :
    ∃ stored, node.store number drive = .ok () stored ∧
      stored.disk.Holds (Image.put drive.disk.sector (number, node.toSector))
        drive.disk.sectorCount ∧
      stored.disk.faults = .none ∧ stored.disk.medium.size = drive.disk.medium.size := by
  have hrun : Performs (node.store number) drive.disk.sector drive.disk.sectorCount (.ok ())
      [(number, node.toSector)] := .writeSector _ hnumber (h.lt_word hnumber)
  exact hrun.completed h.holds h.faults_eq (by simpa using hnumber)

/-- Fetching tells whether the sector holds a node, and which. -/
theorem fetch_full (h : drive.disk.Full) (hnumber : number < drive.disk.sectorCount) :
    ∃ final, drive.disk.Alike final.disk ∧ fetch number drive =
      match ofSector? (drive.disk.sector number) with
      | some node => .ok node final
      | none => .error (.error (.invalidArgument
          (.notANode number (storedLevel (drive.disk.sector number))))) final := by
  cases hnode : ofSector? (drive.disk.sector number) with
  | some node =>
    obtain ⟨final, hrun, halike⟩ :=
      (fetch_performs hnode hnumber (h.lt_word hnumber)).alike h.holds h.faults_eq
    exact ⟨final, halike, hrun⟩
  | none =>
    obtain ⟨final, hrun, halike⟩ :=
      (fetch_refused hnode hnumber (h.lt_word hnumber)).alike h.holds h.faults_eq
    exact ⟨final, halike, hrun⟩

/-- A node that was fetched is the one that its sector holds. -/
theorem ofSector?_of_fetch (h : drive.disk.Full) (hnumber : number < drive.disk.sectorCount)
    {read : Drive} (hfetch : fetch number drive = .ok node read) :
    ofSector? (drive.disk.sector number) = some node ∧ drive.disk.Alike read.disk := by
  obtain ⟨final, halike, hrun⟩ := fetch_full h hnumber
  cases hfound : ofSector? (drive.disk.sector number) with
  | some found =>
    rw [hrun, hfound] at hfetch
    obtain ⟨rfl, rfl⟩ := EStateM.Result.ok.inj hfetch
    exact ⟨rfl, halike⟩
  | none =>
    rw [hrun, hfound] at hfetch
    exact nomatch hfetch

/-- A node that was fetched is stored as the bytes of the sector that it was fetched from. -/
theorem exists_stored_of_fetch (h : drive.disk.Full) (hnumber : number < drive.disk.sectorCount)
    {read : Drive} (hfetch : fetch number drive = .ok node read) {target : Nat}
    (htarget : target < drive.disk.sectorCount) :
    ∃ stored, node.store target read = .ok () stored ∧
      stored.disk.sector = Image.put drive.disk.sector (target, drive.disk.sector number) ∧
      stored.disk.medium.size = drive.disk.medium.size := by
  obtain ⟨hnode, hread⟩ := ofSector?_of_fetch h hnumber hfetch
  obtain ⟨stored, hstored, hholds, -, hsize⟩ :=
    exists_stored (h.of_alike hread) (hread.sectorCount_eq.symm ▸ htarget) node
  refine ⟨stored, hstored, ?_, hsize.trans (congrArg Medium.size hread.medium_eq)⟩
  rw [hholds.sector_eq, hread.sector_eq, toSector_of_ofSector? hnode]

/-- On a full disk, all sectors are ones at which nodes are kept. -/
theorem keptAt (h : drive.disk.Full) (hnumber : number < drive.disk.sectorCount) :
    KeptAt drive number := by
  obtain ⟨final, halike, hrun⟩ := fetch_full h hnumber
  constructor
  case fetch_store =>
    intro node
    obtain ⟨stored, hstored, hholds, hfaults, -⟩ := exists_stored h hnumber node
    have hnode : Image.node? (Image.put drive.disk.sector (number, node.toSector)) number =
        some node := by
      rw [Image.node?, Image.put_self, ofSector?_toSector]
    obtain ⟨final, hfetch, hfinal⟩ :=
      (fetch_performs hnode hnumber (h.lt_word hnumber)).alike hholds hfaults
    exact ⟨stored, final, hstored, hholds.sector_eq, hfetch, hfinal⟩
  case fetch_iff =>
    rw [← ofSector?_isSome_iff, Option.isSome_iff_exists]
    constructor
    · rintro ⟨node, read, hfetch⟩
      exact ⟨node, (ofSector?_of_fetch h hnumber hfetch).1⟩
    · rintro ⟨node, hnode⟩
      exact ⟨node, final, by rw [hrun, hnode]⟩
  case refused =>
    intro hlevel
    rw [← ofSector?_isSome_iff, Bool.not_eq_true, Option.isSome_eq_false_iff,
      Option.isNone_iff_eq_none] at hlevel
    exact ⟨final, halike, by rw [hrun, hlevel]⟩
  case store_fetch =>
    intro node read hfetch target htarget
    obtain ⟨stored, hstored, hsector, -⟩ := exists_stored_of_fetch h hnumber hfetch htarget
    exact ⟨stored, hstored, hsector⟩
  case store_same =>
    intro node read hfetch
    obtain ⟨stored, hstored, hsector, hsize⟩ := exists_stored_of_fetch h hnumber hfetch hnumber
    refine ⟨stored, hstored, ?_, hsize⟩
    rw [hsector, Image.put_eq_self]

end Node

/-! ## Tables -/

namespace Directory

variable {drive : Drive} {handle : Handle}

/-- What storing and reading tables at the start of a file does. -/
structure KeptIn (handle : Handle) (drive : Drive) : Prop where
  /-- A stored table is read back, and no byte behind it has changed. -/
  ofFile_store : ∀ directory : Directory, ∃ stored final,
    directory.store handle drive = .ok () stored ∧
    ofFile handle stored = .ok directory final ∧ stored.disk.Alike final.disk ∧
    (handle.node.content stored.disk.sector).size = (handle.node.content drive.disk.sector).size ∧
    (∀ place, directorySize ≤ place → byteAt (handle.node.content stored.disk.sector) place =
      byteAt (handle.node.content drive.disk.sector) place) ∧
    handle.node.Rewritten 0 directory.toBytes drive.disk stored.disk
  /-- Whatever the file contains, it is read as a table, and storing that table changes nothing. -/
  store_ofFile : ∃ directory read stored, ofFile handle drive = .ok directory read ∧
    directory.store handle read = .ok () stored ∧
    handle.node.content stored.disk.sector = handle.node.content drive.disk.sector ∧
    stored.disk.sector = drive.disk.sector ∧ stored.disk.medium.size = drive.disk.medium.size

/-- A table is stored in a file that has room for it. -/
theorem store_ready (h : handle.node.Ready drive.disk) (hroom : directorySize ≤ handle.length)
    (directory : Directory) : ∃ stored, directory.store handle drive = .ok () stored ∧
      handle.node.Rewritten 0 directory.toBytes drive.disk stored.disk ∧
      handle.node.Ready stored.disk := by
  obtain ⟨stored, hwrite, hrewritten, hready⟩ :=
    h.writeAt_start (directory.size_toBytes.trans_le hroom)
  refine ⟨stored, ?_, hrewritten, hready⟩
  rw [store, bind_of_ok hwrite]
  rfl

/-- The table of a file is read from its start. -/
theorem ofFile_ready (h : handle.node.Ready drive.disk) (hroom : directorySize ≤ handle.length) :
    ∃ final, drive.disk.Alike final.disk ∧ ofFile handle drive =
      .ok (ofBytes ((handle.node.content drive.disk.sector).extract 0 directorySize)) final := by
  obtain ⟨final, hrun, halike⟩ := ((h.readAt_start hroom).map ofBytes).alike h.holds h.faults_eq
  exact ⟨final, halike, hrun⟩

theorem keptIn (h : handle.node.Ready drive.disk) (hroom : directorySize ≤ handle.length) :
    KeptIn handle drive := by
  have hsize : directorySize ≤ (handle.node.content drive.disk.sector).size := by
    rw [Node.size_content]
    exact hroom
  constructor
  case ofFile_store =>
    intro directory
    have hbytes := directory.size_toBytes
    obtain ⟨stored, hstored, hrewritten, hready⟩ := store_ready h hroom directory
    obtain ⟨final, halike, hread⟩ := ofFile_ready hready hroom
    have hstart := extract_overwrite (hbytes.trans_le hsize)
    rw [← hrewritten.content_eq, hbytes] at hstart
    rw [hstart, ofBytes_toBytes] at hread
    refine ⟨stored, final, hstored, hread, halike, ?_, fun place hplace ↦ ?_, hrewritten⟩
    · rw [hrewritten.content_eq, size_overwrite]
    · rw [hrewritten.content_eq]
      exact byteAt_overwrite_past _ (hbytes.trans_le hplace)
  case store_ofFile =>
    obtain ⟨read, halike, hread⟩ := ofFile_ready h hroom
    obtain ⟨stored, hstored, hrewritten, -⟩ := store_ready (h.of_alike halike) hroom
      (ofBytes ((handle.node.content drive.disk.sector).extract 0 directorySize))
    have hextract : ((handle.node.content drive.disk.sector).extract 0 directorySize).size =
        directorySize := by
      rw [ByteArray.size_extract]
      omega
    -- The bytes that are stored are the ones that were read.
    have hcontent := hrewritten.content_eq
    rw [halike.sector_eq, toBytes_ofBytes hextract, overwrite_extract,
      ← halike.sector_eq] at hcontent
    have hsector := hrewritten.sector_eq (h.of_alike halike).laid hcontent
    rw [halike.sector_eq] at hcontent hsector
    exact ⟨_, read, stored, hread, hstored, hcontent, hsector,
      hrewritten.size_eq.trans (congrArg Medium.size halike.medium_eq)⟩

end Directory

/-! ## All of it -/

/-- Nodes are stored and fetched as they are at every sector of a full disk, and tables in every
allocated file with room for one. -/
theorem stored_forms_invert :
    (∀ (drive : Drive) (number : Nat), drive.disk.Full → number < drive.disk.sectorCount →
      Node.KeptAt drive number) ∧
    ∀ (size : Nat) (drive later : Drive) (map : FreeMap) (after : Space) (handle : Handle),
      map.Clean → map.sectors ≤ 2 ^ 32 →
      Node.allocate size ⟨drive, map⟩ = .ok handle.node after →
      later.Serves after.drive.disk.sector handle.node →
      (∀ leaf ∈ handle.node.data after.drive.disk.sector, leaf < later.disk.sectorCount) →
      later.disk.sectorCount * sectorSize ≤ later.disk.medium.size →
      directorySize ≤ size → Directory.KeptIn handle later := by
  refine ⟨fun drive number ↦ Node.keptAt, ?_⟩
  intro size drive later map after handle hclean hword hallocate hlater hdata hmedium hroom
  have htree := Node.allocated_of_ok hclean hword hallocate
  have hlength : handle.length = size := htree.length_eq
  exact Directory.keptIn (htree.ready hword hlater hdata hmedium) (hlength ▸ hroom)

/-- A node of three data sectors at sector `5`, and a table whose only name was removed again, the
bytes of the name still in it. -/
theorem stored_forms_invert_freed :
    (∃ stored final, (Node.ofSectors 300 3 0 [9, 10, 11]).store 5
        ⟨⟨⟨zeroBytes 8192⟩, 64, .none, .none, #[]⟩, #[]⟩ = .ok () stored ∧
      Node.fetch 5 stored = .ok (Node.ofSectors 300 3 0 [9, 10, 11]) final) ∧
    ∃ root after stored final, Node.allocate 3713
        ⟨⟨⟨⟨zeroBytes 8192⟩, 64, .none, .none, #[]⟩, #[]⟩, (FreeMap.blank 64).mark 1⟩ =
          .ok root after ∧
      let directory := Directory.empty.update 0 (Entry.ofName "notes" 7 true).freed
      directory.store ⟨1, root, 0⟩ ⟨after.drive.disk.setFaults .none, #[]⟩ = .ok () stored ∧
      Directory.ofFile ⟨1, root, 0⟩ stored = .ok directory final := by
  constructor
  · have hfull : Disk.Full ⟨⟨zeroBytes 8192⟩, 64, .none, .none, #[]⟩ :=
      ⟨rfl, (size_zeroBytes 8192).ge, (size_zeroBytes 8192).trans_lt (by decide)⟩
    have hkept := stored_forms_invert.1 ⟨_, #[]⟩ 5 hfull (by decide : 5 < 64)
    obtain ⟨stored, final, hstored, -, hfetch, -⟩ :=
      hkept.fetch_store (Node.ofSectors 300 3 0 [9, 10, 11])
    exact ⟨stored, final, hstored, hfetch⟩
  · obtain ⟨hclean, root, after, hallocate, hserves, hdata, hmedium⟩ :=
      Node.exists_served_around_taken
    have hkept := stored_forms_invert.2 3713 _ _ _ after ⟨1, root, 0⟩ hclean (by decide) hallocate
      hserves hdata hmedium (by decide)
    obtain ⟨stored, final, hstored, hread, -⟩ := hkept.ofFile_store
      (Directory.empty.update 0 (Entry.ofName "notes" 7 true).freed)
    exact ⟨root, after, stored, final, hallocate, hstored, hread⟩

end SectorFS
