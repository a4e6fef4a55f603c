import SectorFS.Directory.Storage
import SectorFS.Path

/-!
# Following a path

A path is followed from a directory by looking up its components one after the
other, reading each intermediate directory on the way. The root is known without a
lookup.
-/

namespace SectorFS

/-- What a path leads to: the sector of its root node, and whether it is a directory. -/
structure Target where
  sector : Nat
  isDirectory : Bool
  deriving DecidableEq

namespace Directory

/-- Looks up a name in a directory and the further names in the directories below it. -/
def follow : Directory → String → List String → Action Target
  | directory, name, rest => do
    match directory.entry? name with
    | none => fail .notFound
    | some entry =>
      match rest with
      | [] => return ⟨entry.sector.toNat, entry.isDirectory⟩
      | next :: rest =>
        if entry.isDirectory then
          follow (← load entry.sector.toNat) next rest
        else
          fail .notADirectory

/-- Follows the components of a path from the given index on. -/
def followFrom (directory : Directory) (path : Path) (index : Nat) : Action Target :=
  match path.components.drop index with
  | [] => fail (.invalidPath (.noComponent path.toText index))
  | name :: rest => directory.follow name rest

end Directory

namespace Path

/-- Follows a path from the root directory, which is stored at `rootAt`. -/
def resolve (path : Path) (root : Directory) (rootAt : Nat) : Action Target := do
  if path.isRoot then
    return ⟨rootAt, true⟩
  else
    let target ← root.followFrom path 0
    Drive.note .debug ("resolved " ++ path.toText ++ " to sector " ++ toString target.sector)
    return target

/-- The sector of the directory that holds the last component of a path. -/
def resolveParent (path : Path) (root : Directory) (rootAt : Nat) : Action Nat := do
  match path.parent? with
  | none => fail (.invalidPath .rootHasNoParent)
  | some parent =>
    let target ← parent.resolve root rootAt
    if target.isDirectory then return target.sector else fail .notADirectory

end Path

end SectorFS
