import Mathlib.Algebra.Group.Nat.Defs
/-!
# Checked — blocks of C that stop at an overflow

A block changes a state and ends past its last statement, at a `return`, or at an `int` operation with no `int32_t`
value: signed overflow is not defined, so the block stops where it happens.  A sum or a difference is the integers' own, with
its range tested; where it fits it is the wrapping one of `Int32` (`add_eq`, `sub_eq`).
-/
namespace Checked

/-- A block that does not end past its last statement. -/
inductive Exit (ρ : Type) where
  | returned (r : ρ)
  | overflow
deriving DecidableEq

/-- A block over the state `σ` in a function that returns a `ρ`, giving the statements after it an `α`. -/
abbrev Block (σ ρ α : Type) := ExceptT (Exit ρ) (StateM σ) α

variable {σ ρ α β : Type}

/-- How the block ends from `s`, and the state there. -/
def exec (x : Block σ ρ α) (s : σ) : Except (Exit ρ) α × σ := x.run.run s

def ret (r : ρ) : Block σ ρ α := throw (.returned r)

/-- The value of an `int` operation, if it is one. -/
def int (z : Int) : Block σ ρ Int32 :=
  if Int32.minValue.toInt ≤ z ∧ z ≤ Int32.maxValue.toInt then pure (Int32.ofInt z) else throw .overflow

def add (a b : Int32) : Block σ ρ Int32 := int (a.toInt + b.toInt)

def sub (a b : Int32) : Block σ ρ Int32 := int (a.toInt - b.toInt)

/-- `%`, defined where the quotient is: not by zero, and not of the least value by `-1`. -/
def mod (a b : Int32) : Block σ ρ Int32 :=
  if b = 0 ∨ a = Int32.minValue ∧ b = -1 then throw .overflow else pure (a % b)

/-! ## Where the value fits -/

/-- **An operation whose exact value an `int32_t` holds is that `int32_t`.** -/
theorem int_eq {z : Int} {a : Int32} (h : a.toInt = z) : (int z : Block σ ρ Int32) = pure a := by
  subst h
  rw [int, if_pos ⟨a.minValue_le_toInt, a.toInt_le⟩, Int32.ofInt_toInt]

section
variable {a b : Int32} {m n : Nat}

theorem add_eq (ha : a.toInt = m) (hb : b.toInt = n) (h : m + n < 2 ^ 31) :
    (add a b : Block σ ρ Int32) = pure (a + b) := by
  refine int_eq ?_
  rw [Int32.toInt_add, ha, hb, Int.bmod_eq_of_le (by omega) (by omega)]

/-- A difference of two numbers in order never overflows. -/
theorem sub_eq (ha : a.toInt = m) (hb : b.toInt = n) (hle : n ≤ m) : (sub a b : Block σ ρ Int32) = pure (a - b) := by
  have hlt := a.toInt_lt
  refine int_eq ?_
  rw [Int32.toInt_sub, ha, hb, Int.bmod_eq_of_le (by omega) (by omega)]

theorem mod_eq (hb : 0 < b.toInt) : (mod a b : Block σ ρ Int32) = pure (a % b) := by
  have hdef : ¬ (b = 0 ∨ a = Int32.minValue ∧ b = -1) := by
    rintro (rfl | ⟨-, rfl⟩)
    · exact absurd hb (by decide)
    · exact absurd hb (by decide)
  rw [mod, if_neg hdef]

end

/-! ## One block after another -/

theorem exec_get (s : σ) : exec (get : Block σ ρ σ) s = (.ok s, s) := rfl

theorem exec_modify (f : σ → σ) (s : σ) : exec (modify f : Block σ ρ PUnit) s = (.ok ⟨⟩, f s) := rfl

theorem exec_bind_ok {x : Block σ ρ α} {f : α → Block σ ρ β} {s s' : σ} {a : α} (h : exec x s = (.ok a, s')) :
    exec (x >>= f) s = exec (f a) s' := by
  simp only [exec, ExceptT.run_bind, StateT.run_bind] at h ⊢
  rw [h]
  rfl

/-- **What comes after a block that left the function is not reached.** -/
theorem exec_bind_exit {x : Block σ ρ α} {f : α → Block σ ρ β} {s s' : σ} {e : Exit ρ} (h : exec x s = (.error e, s')) :
    exec (x >>= f) s = (.error e, s') := by
  simp only [exec, ExceptT.run_bind, StateT.run_bind] at h ⊢
  rw [h]
  rfl

end Checked
