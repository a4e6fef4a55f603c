import SectorFS.Drive

/-!
# Memory

What a program keeps in memory while it works on a drive: the map of the free sectors,
the position in an open file, the table of open files. Operations change it in place. As
with drives, an operation that stops keeps the value it has reached.
-/

namespace SectorFS

/-- A drive and a value in memory. -/
structure Memory (σ : Type) where
  drive : Drive
  value : σ
  deriving Inhabited

/-- An operation on a drive that may change the value in memory. -/
abbrev InPlace (σ : Type) := EStateM Stop (Memory σ)

/-- Operations on the drive leave the value alone. -/
instance {σ : Type} : MonadLift Action (InPlace σ) where
  monadLift action := fun memory ↦
    match memory with
    | ⟨drive, value⟩ =>
      match action drive with
      | .ok result drive => .ok result ⟨drive, value⟩
      | .error stop drive => .error stop ⟨drive, value⟩

namespace InPlace

variable {σ : Type}

/-- The value in memory. -/
def current : InPlace σ σ := fun memory ↦ .ok memory.value memory

/-- Replaces the value in memory. -/
def assign (value : σ) : InPlace σ Unit := fun memory ↦
  match memory with
  | ⟨drive, _⟩ => .ok () ⟨drive, value⟩

end InPlace

/-- Runs an operation on a value and returns the value it has reached. If it stops, the value is
lost. -/
def InPlace.using {σ α : Type} (operation : InPlace σ α) (value : σ) : Action (α × σ) := fun drive ↦
  match operation ⟨drive, value⟩ with
  | .ok result ⟨drive, value⟩ => .ok (result, value) drive
  | .error stop ⟨drive, _⟩ => .error stop drive

/-- The value that an operation has reached at its end. -/
def InPlace.after {σ : Type} (operation : InPlace σ Unit) (value : σ) : Action σ := do
  let ((), value) ← operation.using value
  return value

end SectorFS
