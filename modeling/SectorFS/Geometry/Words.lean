import SectorFS.Checked
import SectorFS.Geometry

/-!
# Geometry in machine words

The same quantities as in `SectorFS.Geometry`, computed in machine words: every
intermediate power, product and sum has to be a word as well. Where no step traps
the result is the one over the natural numbers.
-/

namespace SectorFS.Geometry.Words

open Checked

/-- The capacity of a level. No power of the slot count above the `63`rd is a word, so such a
power is refused without being formed. -/
def capacity (level : Nat) : Except Trap Nat :=
  if level < 64 then fit (Geometry.capacity level) else .error .overflow

/-- The capacity one level below. There is nothing below level `0`. -/
def span (level : Nat) : Except Trap Nat := do
  capacity (← sub level 1)

def slotsUsed (total level : Nat) : Except Trap Nat := do
  let span ← span level
  let sum ← add total span
  return (sum - 1) / span

def childSize (total level index : Nat) : Except Trap Nat := do
  let span ← span level
  let start ← mul index span
  return min (total - start) span

def sectorNeeds : Nat → Nat → Except Trap Nat
  | 0, _ => .error .overflow
  | level + 1, size => do
    let used ← slotsUsed size (level + 1)
    if level = 0 ∨ used = 0 then
      return used
    let full ← add 1 (← sectorNeeds level (← capacity level))
    let last ← add 1 (← sectorNeeds level (← childSize size (level + 1) (used - 1)))
    add (← mul (used - 1) full) last

end SectorFS.Geometry.Words
