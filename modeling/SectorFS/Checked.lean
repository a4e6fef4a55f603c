import SectorFS.Error

/-!
# Arithmetic on machine words

Sizes, offsets and sector numbers are unsigned 64-bit words. Each operation here
computes in the natural numbers and traps where the result is not a word, so a
computation that does not trap has the value it has in the natural numbers.
-/

namespace SectorFS.Checked

-- Powers are those of the core library, whatever else is in scope.
attribute [local instance (2000)] instPowNat

/-- The number of values of a machine word. -/
abbrev wordLimit : Nat := 2 ^ (64 : Nat)

/-- A natural number as a word. -/
def fit (value : Nat) : Except Trap Nat :=
  if value < wordLimit then .ok value else .error .overflow

def add (left right : Nat) : Except Trap Nat := fit (left + right)

def mul (left right : Nat) : Except Trap Nat := fit (left * right)

def sub (left right : Nat) : Except Trap Nat :=
  if right ≤ left then .ok (left - right) else .error .overflow

/-- A computation that has not trapped goes on with its value. -/
theorem ok_bind {ε α β : Type} (value : α) (next : α → Except ε β) :
    (Except.ok value >>= next) = next value := rfl

/-- Computations of which none has trapped go on with their values. -/
theorem mapM_eq_ok {ε α β : Type} {items : List α} {step : α → Except ε β} {value : α → β}
    (h : ∀ item ∈ items, step item = .ok (value item)) :
    items.mapM step = .ok (items.map value) := by
  induction items with
  | nil => rfl
  | cons item rest ih =>
    rw [List.mapM_cons, h item List.mem_cons_self,
      ih fun other hother ↦ h other (List.mem_cons_of_mem _ hother)]
    rfl

theorem fit_eq_ok {value : Nat} (h : value < wordLimit) : fit value = .ok value := if_pos h

theorem add_eq_ok {left right : Nat} (h : left + right < wordLimit) :
    add left right = .ok (left + right) := fit_eq_ok h

theorem mul_eq_ok {left right : Nat} (h : left * right < wordLimit) :
    mul left right = .ok (left * right) := fit_eq_ok h

theorem sub_eq_ok {left right : Nat} (h : right ≤ left) :
    sub left right = .ok (left - right) := if_pos h

end SectorFS.Checked
