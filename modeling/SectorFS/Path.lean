import SectorFS.Error
import SectorFS.Layout

/-!
# Paths

An absolute path is a sequence of components, none for the root. Its text has a
slash before each component; a component has at least one byte, no slash, and at
most as many bytes as an entry keeps.
-/

namespace SectorFS

/-- An absolute path. -/
structure Path where
  components : List String
  deriving DecidableEq

namespace Path

/-! ## Text -/

/-- The pieces between the slashes of a text, one more than it has slashes. -/
def splitSlashes : List Char → List (List Char)
  | [] => [[]]
  | char :: rest =>
    if char = '/' then
      [] :: splitSlashes rest
    else
      match splitSlashes rest with
      | [] => [[char]]
      | piece :: pieces => (char :: piece) :: pieces

/-- A piece of a path text as a component. -/
def component (text : String) (piece : List Char) : Except PathFault String :=
  let name := String.ofList piece
  if piece = [] then .error (.emptyComponent text)
  else if nameLimit < name.utf8ByteSize then .error (.componentTooLong name nameLimit)
  else .ok name

/-- The path with the given text. The first component that is none decides the failure. -/
def parse (text : String) : Except PathFault Path :=
  match text.toList with
  | ['/'] => .ok ⟨[]⟩
  | '/' :: rest => do return ⟨← (splitSlashes rest).mapM (component text)⟩
  | _ => .error (.notAbsolute text)

/-- The text of a path. -/
def toText (path : Path) : String :=
  if path.components = [] then "/" else String.join (path.components.map ("/" ++ ·))

instance : ToString Path := ⟨toText⟩

/-! ## Parts -/

def root : Path := ⟨[]⟩

def isRoot (path : Path) : Bool := path.components.isEmpty

def depth (path : Path) : Nat := path.components.length

/-- The component at an index, the first one at `0`. -/
def component? (path : Path) (index : Nat) : Option String := path.components[index]?

/-- The last component. The root has none. -/
def lastName? (path : Path) : Option String := path.components.getLast?

/-- The path one level up. The root has none. -/
def parent? (path : Path) : Option Path :=
  if path.isRoot then none else some ⟨path.components.dropLast⟩

/-- The paths above a path, the nearest first, up to the root. -/
def ancestors (path : Path) : List Path :=
  (List.range path.depth).map fun dropped ↦ ⟨path.components.take (path.depth - 1 - dropped)⟩

end Path

end SectorFS
