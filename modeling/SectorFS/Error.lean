/-!
# Failures

An operation stops in one of two ways. An `Error` is an answer: the request cannot
be served, and its message says why. A `Trap` means that the operation left the
range its arithmetic, its tables or its recursion provide for; a volume that was
only ever changed through its own operations gives no occasion for one.
-/

namespace SectorFS

/-! ## The device -/

/-- Why a device refuses an access. -/
inductive DeviceError where
  | outOfRange
  | shortBuffer
  | unexpectedEnd
  | injected
  deriving DecidableEq, Inhabited

def DeviceError.message : DeviceError → String
  | .outOfRange => "sector out of range"
  | .shortBuffer => "buffer does not contain enough space to read sector"
  | .unexpectedEnd => "failed to fill whole buffer"
  | .injected => "injected"

/-- The kinds of failure that a device tells apart. -/
inductive FailureKind where
  | invalidInput
  | unexpectedEnd
  | other
  deriving DecidableEq

def DeviceError.kind : DeviceError → FailureKind
  | .outOfRange => .invalidInput
  | .shortBuffer => .invalidInput
  | .unexpectedEnd => .unexpectedEnd
  | .injected => .other

/-! ## Requests -/

/-- What is wrong with a path, or with using it for the requested operation. -/
inductive PathFault where
  | notAbsolute (text : String)
  | emptyComponent (text : String)
  | componentTooLong (name : String) (limit : Nat)
  | rootExists
  | rootIrremovable
  | rootHasNoParent
  | noComponent (path : String) (index : Nat)
  deriving DecidableEq

def PathFault.message : PathFault → String
  | .notAbsolute text => "path must start with \"/\": " ++ text
  | .emptyComponent text => "empty component in " ++ text
  | .componentTooLong name limit => name ++ " is longer than " ++ toString limit ++ " bytes"
  | .rootExists => "\"/\" always exists"
  | .rootIrremovable => "cannot remove \"/\""
  | .rootHasNoParent => "\"/\" has no parent directory"
  | .noComponent path index => path ++ " has no component " ++ toString index

/-- What is wrong with a number that a request or a sector carries. -/
inductive ArgumentFault where
  | noRoomForRoots (sectors : Nat)
  | notANode (sector level : Nat)
  | pastEnd (offset length : Nat)
  | unknownFile (id : Nat)
  deriving DecidableEq

def ArgumentFault.message : ArgumentFault → String
  | .noRoomForRoots sectors =>
    "a device of " ++ toString sectors ++ " sectors cannot hold the root headers"
  | .notANode sector level =>
    "sector " ++ toString sector ++ " holds a header of level " ++ toString level
  | .pastEnd offset length =>
    "offset " ++ toString offset ++ " past end of " ++ toString length ++ " byte file"
  | .unknownFile id => "no open file with id " ++ toString id

/-- Why a request cannot be served. -/
inductive Error where
  | notFound
  | alreadyExists
  | noSpace
  | directoryFull
  | invalidPath (fault : PathFault)
  | notADirectory
  | directoryNotEmpty
  | invalidArgument (fault : ArgumentFault)
  | tooManyOpenFiles
  | device (cause : DeviceError)
  deriving DecidableEq

def Error.message : Error → String
  | .notFound => "found no file at path"
  | .alreadyExists => "a file with that name already exists"
  | .noSpace => "not enough free sectors"
  | .directoryFull => "directory has no free entry"
  | .invalidPath fault => "invalid path: " ++ fault.message
  | .notADirectory => "path component is not a directory"
  | .directoryNotEmpty => "directory is not empty, remove it recursively"
  | .invalidArgument fault => "invalid argument: " ++ fault.message
  | .tooManyOpenFiles => "open file table is full"
  | .device _ => "disk i/o failed"

/-- An answer that the volume itself gives, whatever the device does. -/
def Error.IsRefusal (cause : Error) : Prop := ∀ reason, cause ≠ .device reason

/-! ## Traps -/

/-- How an operation can leave the range it is defined on. -/
inductive Trap where
  /-- A sum, product or power left the machine word, or a difference fell below zero. -/
  | overflow
  /-- A node claims more slots than it has. -/
  | slotOutOfRange
  /-- A sector number has no bit in the free-sector map. -/
  | outsideMap (sector : Nat)
  /-- A device was to be prepared with no sector at all. -/
  | emptyDevice
  /-- A descent visited more sectors than a tree on this device can hold. -/
  | runaway
  deriving DecidableEq

/-- The text that accompanies a trap, if it has one. -/
def Trap.message? : Trap → Option String
  | .outsideMap sector => some ("sector " ++ toString sector ++ " outside bitmap")
  | _ => none

/-- The two ways in which an operation stops early. -/
inductive Stop where
  | error (cause : Error)
  | trap (cause : Trap)
  deriving DecidableEq

end SectorFS
