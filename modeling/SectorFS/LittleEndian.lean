/-!
# Little-endian numbers

A number is stored as its digits in base `256`, the least significant first.
Digits beyond the stored ones are dropped, and `read_byte` and `byte_read` say that
nothing else is lost in either direction.
-/

namespace SectorFS.LittleEndian

-- Powers are those of the core library, whatever else is in scope.
attribute [local instance (2000)] instPowNat

/-- The digit of `value` at the given place. -/
def byte (value place : Nat) : UInt8 := UInt8.ofNat (value / 256 ^ place)

/-- The number whose digits are the first `count` bytes. -/
def read : Nat → (Nat → UInt8) → Nat
  | 0, _ => 0
  | count + 1, bytes => (bytes 0).toNat + 256 * read count fun place ↦ bytes (place + 1)

theorem toNat_byte_zero (value : Nat) : (byte value 0).toNat = value % 256 := by
  simp [byte]

theorem byte_succ (value place : Nat) : byte value (place + 1) = byte (value / 256) place := by
  simp only [byte, Nat.pow_succ, Nat.mul_comm _ 256, Nat.div_div_eq_div_mul]

theorem read_lt (count : Nat) (bytes : Nat → UInt8) : read count bytes < 256 ^ count := by
  induction count generalizing bytes with
  | zero => simp [read]
  | succ count ih =>
    have hrest := ih fun place ↦ bytes (place + 1)
    have hfirst := (bytes 0).toNat_lt
    simp only [read, Nat.pow_succ]
    omega

/-- Only the stored digits matter. -/
theorem read_congr {count : Nat} {left right : Nat → UInt8}
    (h : ∀ place < count, left place = right place) : read count left = read count right := by
  induction count generalizing left right with
  | zero => rfl
  | succ count ih =>
    rw [read, read, h 0 (by omega), ih fun place hplace ↦ h (place + 1) (by omega)]

/-- Reading the digits of a number gives the number, up to the digits that were dropped. -/
theorem read_byte (count value : Nat) : read count (byte value) = value % 256 ^ count := by
  induction count generalizing value with
  | zero => simp [read, Nat.mod_one]
  | succ count ih =>
    have hshift : (fun place ↦ byte value (place + 1)) = byte (value / 256) :=
      funext (byte_succ value)
    rw [read, hshift, ih, toNat_byte_zero, Nat.pow_succ, Nat.mul_comm (256 ^ count) 256,
      Nat.mod_mul]

/-- The digits of a number that was read are the bytes it was read from. -/
theorem byte_read {count place : Nat} (bytes : Nat → UInt8) (h : place < count) :
    byte (read count bytes) place = bytes place := by
  induction count generalizing bytes place with
  | zero => omega
  | succ count ih =>
    have hfirst := (bytes 0).toNat_lt
    cases place with
    | zero =>
      apply UInt8.toNat_inj.mp
      rw [toNat_byte_zero, read]
      omega
    | succ place =>
      have hdiv : read (count + 1) bytes / 256 = read count fun place ↦ bytes (place + 1) := by
        rw [read]
        omega
      rw [byte_succ, hdiv]
      exact ih (fun place ↦ bytes (place + 1)) (by omega)

end SectorFS.LittleEndian
