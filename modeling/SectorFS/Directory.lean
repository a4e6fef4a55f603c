import SectorFS.Error
import SectorFS.LittleEndian
import SectorFS.Bytes
import SectorFS.Name

/-!
# Directories

A directory is a table of entries. An entry that is not in use is free, whatever
else it still says. Names are looked up by their key, from the first entry on, and
a new name takes the first free entry.

The stored form keeps every entry whole, free ones included: a table is read back as it
was (`Directory.ofBytes_toBytes`), and content of the right size is written back as it was
read (`Directory.toBytes_ofBytes`).
-/

namespace SectorFS

/-! ## Entries -/

/-- An entry of a directory, as it is stored. -/
structure Entry where
  /-- Not zero while the entry is in use. -/
  usage : UInt16
  /-- Not zero if the entry names a directory. -/
  kind : UInt16
  /-- The sector of the entry's root node. -/
  sector : UInt32
  name : Vector UInt8 nameField
  deriving DecidableEq

namespace Entry

/-- An entry of zeros. -/
def blank : Entry := ⟨0, 0, 0, Vector.replicate nameField 0⟩

/-- An entry in use. Only the low word of the sector number is kept. -/
def ofName (name : String) (sector : Nat) (isDirectory : Bool) : Entry :=
  ⟨1, if isDirectory then 1 else 0, UInt32.ofNat sector, Name.field name⟩

def inUse (entry : Entry) : Bool := entry.usage ≠ 0

def isDirectory (entry : Entry) : Bool := entry.kind ≠ 0

/-- Whether the entry is in use under the given name. -/
def isNamed (entry : Entry) (name : String) : Bool :=
  entry.inUse && Name.storedKey entry.name == Name.key name

/-- The name of the entry, with replacement characters where it is no text. -/
def shownName (entry : Entry) : String := Name.shown entry.name

/-- The entry as it is after it was freed. -/
def freed (entry : Entry) : Entry := { entry with usage := 0 }

/-- The stored byte at the given place. -/
def storedByte (entry : Entry) (place : Nat) : UInt8 :=
  if place < 2 then LittleEndian.byte entry.usage.toNat place
  else if place < 4 then LittleEndian.byte entry.kind.toNat (place - 2)
  else if place < 8 then LittleEndian.byte entry.sector.toNat (place - 4)
  else entry.name[place - 8]?.getD 0

/-- The entry stored in the given bytes. -/
def ofStored (bytes : Nat → UInt8) : Entry where
  usage := UInt16.ofNat (LittleEndian.read 2 bytes)
  kind := UInt16.ofNat (LittleEndian.read 2 fun place ↦ bytes (place + 2))
  sector := UInt32.ofNat (LittleEndian.read 4 fun place ↦ bytes (place + 4))
  name := Vector.ofFn fun index ↦ bytes (index + 8)

/-- A stored entry is read back. -/
theorem ofStored_storedByte {entry : Entry} {bytes : Nat → UInt8}
    (h : ∀ place < entrySize, bytes place = entry.storedByte place) : ofStored bytes = entry := by
  simp only [entrySize, wordSize, nameField, nameLimit] at h
  have husage : LittleEndian.read 2 bytes = entry.usage.toNat := by
    rw [← Nat.mod_eq_of_lt entry.usage.toNat_lt]
    refine (LittleEndian.read_congr fun place hplace ↦ ?_).trans (LittleEndian.read_byte 2 _)
    rw [h place (by omega), storedByte, if_pos (by omega)]
  have hkind : (LittleEndian.read 2 fun place ↦ bytes (place + 2)) = entry.kind.toNat := by
    rw [← Nat.mod_eq_of_lt entry.kind.toNat_lt]
    refine (LittleEndian.read_congr fun place hplace ↦ ?_).trans (LittleEndian.read_byte 2 _)
    rw [h (place + 2) (by omega), storedByte, if_neg (by omega), if_pos (by omega),
      Nat.add_sub_cancel]
  have hsector : (LittleEndian.read 4 fun place ↦ bytes (place + 4)) = entry.sector.toNat := by
    rw [← Nat.mod_eq_of_lt entry.sector.toNat_lt]
    refine (LittleEndian.read_congr fun place hplace ↦ ?_).trans (LittleEndian.read_byte 4 _)
    rw [h (place + 4) (by omega), storedByte, if_neg (by omega), if_neg (by omega),
      if_pos (by omega), Nat.add_sub_cancel]
  have hname : (Vector.ofFn fun index : Fin nameField ↦ bytes (index + 8)) = entry.name := by
    apply Vector.ext
    intro index hindex
    simp only [nameField, nameLimit] at hindex
    rw [Vector.getElem_ofFn, h (index + 8) (by omega), storedByte, if_neg (by omega),
      if_neg (by omega), if_neg (by omega), Nat.add_sub_cancel, Vector.getElem?_eq_getElem hindex,
      Option.getD_some]
  unfold ofStored
  rw [husage, hkind, hsector, hname, UInt16.ofNat_toNat, UInt16.ofNat_toNat, UInt32.ofNat_toNat]

/-- The bytes of an entry that was read are the ones it was read from. -/
theorem storedByte_ofStored (bytes : Nat → UInt8) {place : Nat} (h : place < entrySize) :
    (ofStored bytes).storedByte place = bytes place := by
  simp only [entrySize, wordSize, nameField, nameLimit] at h
  unfold storedByte ofStored
  split
  · rw [UInt16.toNat_ofNat_of_lt' (LittleEndian.read_lt 2 _)]
    exact LittleEndian.byte_read bytes (by omega)
  · split
    · rw [UInt16.toNat_ofNat_of_lt' (LittleEndian.read_lt 2 _),
        LittleEndian.byte_read _ (by omega)]
      congr 1
      omega
    · split
      · rw [UInt32.toNat_ofNat_of_lt' (LittleEndian.read_lt 4 _),
          LittleEndian.byte_read _ (by omega)]
        congr 1
        omega
      · rw [Vector.getElem?_eq_getElem (by simp only [nameField, nameLimit]; omega),
          Option.getD_some, Vector.getElem_ofFn]
        congr 1
        exact Nat.sub_add_cancel (by omega)

end Entry

/-! ## Tables -/

/-- A table of entries. -/
structure Directory where
  table : Vector Entry entryCount
  deriving DecidableEq

namespace Directory

/-- A directory without entries in use. -/
def empty : Directory := ⟨Vector.replicate entryCount .blank⟩

/-- The entries in use, in the order of the table. -/
def entries (directory : Directory) : List Entry := directory.table.toList.filter (·.inUse)

def isEmpty (directory : Directory) : Bool := directory.table.toList.all fun entry ↦ !entry.inUse

/-- The place of a name in the table. -/
def index? (directory : Directory) (name : String) : Option (Fin entryCount) :=
  directory.table.findFinIdx? (·.isNamed name)

/-- The entry of a name. -/
def entry? (directory : Directory) (name : String) : Option Entry :=
  (directory.index? name).map fun index ↦ directory.table[index]

/-- The sector a name leads to. -/
def find? (directory : Directory) (name : String) : Option Nat :=
  directory.entry? name |>.map (·.sector.toNat)

/-- The first free place of the table. -/
def freeIndex? (directory : Directory) : Option (Fin entryCount) :=
  directory.table.findFinIdx? fun entry ↦ !entry.inUse

/-- Replaces the entry at a place. -/
def update (directory : Directory) (index : Fin entryCount) (entry : Entry) : Directory :=
  ⟨directory.table.set index entry⟩

/-- Frees the entry at a place. -/
def free (directory : Directory) (index : Fin entryCount) : Directory :=
  directory.update index directory.table[index].freed

/-! ### Edits -/

namespace InPlace

/-- Enters a name into the table in memory. A name that is present is reported before a table that
is full. -/
def add (name : String) (sector : Nat) (isDirectory : Bool) : EStateM Error Directory Unit := do
  let directory ← get
  match directory.index? name with
  | some _ => throw .alreadyExists
  | none =>
    match directory.freeIndex? with
    | none => throw .directoryFull
    | some index => set (directory.update index (.ofName name sector isDirectory))

/-- Frees the entry of a name in the table in memory. What the entry leads to is not touched. -/
def remove (name : String) : EStateM Error Directory Unit := do
  let directory ← get
  match directory.index? name with
  | none => throw .notFound
  | some index => set (directory.free index)

end InPlace

/-- The table after an edit of it. If the edit fails, the table is lost. -/
def edited (edit : EStateM Error Directory Unit) (directory : Directory) : Except Error Directory :=
  match edit directory with
  | .ok () directory => .ok directory
  | .error cause _ => .error cause

/-- The table with a name entered. -/
def add (directory : Directory) (name : String) (sector : Nat) (isDirectory : Bool) :
    Except Error Directory := edited (InPlace.add name sector isDirectory) directory

/-- The table with the entry of a name freed. -/
def remove (directory : Directory) (name : String) : Except Error Directory :=
  edited (InPlace.remove name) directory

/-! ## The stored form -/

/-- The content of the directory's file. -/
def toBytes (directory : Directory) : ByteArray :=
  ⟨Array.ofFn fun place : Fin directorySize ↦
    (directory.table[place.val / entrySize]?.getD .blank).storedByte (place % entrySize)⟩

/-- The directory whose file has the given content. Bytes that are missing count as zero. -/
def ofBytes (content : ByteArray) : Directory :=
  ⟨Vector.ofFn fun index ↦ .ofStored fun place ↦ byteAt content (entrySize * index + place)⟩

@[simp] theorem size_toBytes (directory : Directory) : directory.toBytes.size = directorySize :=
  Array.size_ofFn

theorem byteAt_toBytes (directory : Directory) {index place : Nat} (hindex : index < entryCount)
    (hplace : place < entrySize) :
    byteAt directory.toBytes (entrySize * index + place) =
      directory.table[index].storedByte place := by
  have hbyte : entrySize * index + place < directory.toBytes.size := by
    rw [size_toBytes]
    simp only [directorySize, entrySize, entryCount, wordSize, nameField, nameLimit] at *
    omega
  have hentry : (entrySize * index + place) / entrySize = index := by
    simp only [entrySize, wordSize, nameField, nameLimit] at *
    omega
  have hrest : (entrySize * index + place) % entrySize = place := by
    simp only [entrySize, wordSize, nameField, nameLimit] at *
    omega
  rw [byteAt_of_lt hbyte, ByteArray.getElem_eq_getElem_data]
  simp only [toBytes, Array.getElem_ofFn, hentry, hrest]
  rw [Vector.getElem?_eq_getElem hindex, Option.getD_some]

/-- A stored directory is read back, free entries included. -/
@[simp] theorem ofBytes_toBytes (directory : Directory) : ofBytes directory.toBytes = directory := by
  obtain ⟨table⟩ := directory
  simp only [ofBytes, mk.injEq]
  apply Vector.ext
  intro index hindex
  rw [Vector.getElem_ofFn]
  exact Entry.ofStored_storedByte fun place hplace ↦ byteAt_toBytes ⟨table⟩ hindex hplace

/-- The content of a directory that was read is what it was read from. -/
theorem toBytes_ofBytes {content : ByteArray} (h : content.size = directorySize) :
    (ofBytes content).toBytes = content := by
  apply eq_of_byteAt (by rw [size_toBytes, h])
  intro offset hoffset
  rw [size_toBytes] at hoffset
  have hsplit : entrySize * (offset / entrySize) + offset % entrySize = offset :=
    Nat.div_add_mod offset entrySize
  have hindex : offset / entrySize < entryCount := Nat.div_lt_of_lt_mul hoffset
  have hplace : offset % entrySize < entrySize := Nat.mod_lt _ (by decide)
  rw [← hsplit, byteAt_toBytes _ hindex hplace]
  simp only [ofBytes, Vector.getElem_ofFn]
  exact Entry.storedByte_ofStored _ hplace

end Directory

end SectorFS
