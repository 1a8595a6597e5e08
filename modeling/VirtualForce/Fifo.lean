/-!
# Fifo — a bounded first-in first-out queue

The list of what is in it, never longer than its capacity.
-/
namespace Fifo

structure Queue (α : Type) (cap : Nat) where
  items : List α
  length_le : items.length ≤ cap

variable {α : Type} {cap : Nat}

namespace Queue

def empty : Queue α cap := ⟨[], Nat.zero_le _⟩

def push (q : Queue α cap) (x : α) : Bool × Queue α cap :=
  if h : q.items.length < cap then (true, ⟨q.items ++ [x], by simpa using Nat.succ_le_of_lt h⟩) else (false, q)

def pop (q : Queue α cap) : Option α × Queue α cap :=
  match h : q.items with
  | [] => (none, q)
  | x :: xs => (some x, ⟨xs, by have := q.length_le; rw [h, List.length_cons] at this; omega⟩)

theorem push_of_lt (q : Queue α cap) (x : α) (h : q.items.length < cap) :
    (q.push x).1 = true ∧ (q.push x).2.items = q.items ++ [x] := by simp [push, h]

theorem push_of_full (q : Queue α cap) (x : α) (h : ¬ q.items.length < cap) : q.push x = (false, q) := by
  simp [push, h]

theorem pop_nil (q : Queue α cap) (h : q.items = []) : q.pop = (none, q) := by
  unfold pop
  split
  · rfl
  · rename_i x xs hq
    rw [hq] at h; cases h

theorem pop_cons (q : Queue α cap) {x : α} {xs : List α} (h : q.items = x :: xs) :
    q.pop.1 = some x ∧ q.pop.2.items = xs := by
  unfold pop
  split
  · rename_i hq
    rw [hq] at h; cases h
  · rename_i y ys hq
    rw [hq] at h; cases h
    exact ⟨rfl, rfl⟩

end Queue
end Fifo
