import SectorFS.Directory

/-!
# Listings

A listing is a sequence of lines, one for each entry shown. A flat listing prints
bare names. A marked listing indents each name by its depth and says whether it is a
directory or a file.
-/

namespace SectorFS

/-- A line of a listing. -/
structure Listed where
  /-- Nesting below the directory that is listed. -/
  depth : Nat
  name : String
  /-- The path from the directory that is listed, without a leading slash. -/
  path : String
  isDirectory : Bool
  sector : Nat
  deriving DecidableEq

namespace Listed

-- Powers are those of the core library, whatever else is in scope.
attribute [local instance (2000)] instPowNat

/-- The line of an entry of the directory at the given depth. -/
def ofEntry (depth : Nat) (entry : Entry) : Listed :=
  ⟨depth, entry.shownName, entry.shownName, entry.isDirectory, entry.sector.toNat⟩

/-- The line as seen from one directory further up. -/
def under (line : Listed) (parent : String) : Listed :=
  { line with path := parent ++ "/" ++ line.path }

/-- Two spaces for each level. No text is longer than half the address space. -/
def indent (depth : Nat) : Except Trap String :=
  if depth < 2 ^ (62 : Nat) then
    .ok (String.ofList (List.replicate (2 * depth) ' '))
  else
    .error .overflow

/-- The line with its indentation and marker. -/
def marked (line : Listed) : Except Trap String := do
  return (← indent line.depth) ++ (if line.isDirectory then "[D]" else "[F]") ++ " " ++ line.name

/-- The text of a listing. -/
def render (listing : List Listed) (marks : Bool) : Except Trap String := do
  let lines ← listing.mapM fun line ↦ if marks then line.marked else pure line.name
  return String.intercalate "\n" lines

end Listed

/-- The entries in use, without what is below them. -/
def Directory.list (directory : Directory) : List Listed :=
  directory.entries.map (.ofEntry 0)

end SectorFS
