import Mathlib.Data.List.Basic
import Mathlib.Tactic.Common
/-!
# Memory — memory seen from one base pointer

A value at every offset, negative ones and ones past any declared length too, so that a copy out of range is a copy
like any other and being in range is a theorem.  `memcpy` copies between two such memories, `slice` reads a run of
cells as a list, `put` writes a list.
-/
namespace Memory

abbrev Mem (α : Type) := Int → α

variable {α : Type}

/-- `memcpy(dst + d, src + s, n)` between two disjoint objects: `dst` afterwards. -/
def memcpy (dst : Mem α) (d : Int) (src : Mem α) (s n : Int) : Mem α :=
  fun x => if d ≤ x ∧ x < d + n then src (s + (x - d)) else dst x

def slice (m : Mem α) (o : Int) (n : Nat) : List α := (List.range n).map (fun i : Nat => m (o + i))

/-- The list `l` stored from offset `o` on. -/
def put (m : Mem α) (o : Int) (l : List α) : Mem α :=
  fun x => if o ≤ x then (l[(x - o).toNat]?).getD (m x) else m x

def set (m : Mem α) (o : Int) (a : α) : Mem α := fun x => if x = o then a else m x

@[simp] theorem set_self (m : Mem α) (o : Int) (a : α) : set m o a o = a := by simp [set]

theorem set_of_ne (m : Mem α) {o x : Int} (a : α) (h : x ≠ o) : set m o a x = m x := by simp [set, h]

theorem memcpy_in (dst : Mem α) {d : Int} (src : Mem α) (s : Int) {n x : Int} (h : d ≤ x) (h' : x < d + n) :
    memcpy dst d src s n x = src (s + (x - d)) := if_pos ⟨h, h'⟩

theorem memcpy_out (dst : Mem α) {d : Int} (src : Mem α) (s : Int) {n x : Int} (h : x < d ∨ d + n ≤ x) :
    memcpy dst d src s n x = dst x := if_neg (by omega)

/-- **A copy writes nothing outside `[lo, hi)` exactly when it goes there**, whatever it copies. -/
theorem memcpy_keeps_iff [Nontrivial α] {dst : Mem α} {d s n lo hi : Int} (hn : 0 < n) :
    (∀ src x, x < lo ∨ hi ≤ x → memcpy dst d src s n x = dst x) ↔ lo ≤ d ∧ d + n ≤ hi := by
  constructor
  · intro h
    have hin : ∀ x, d ≤ x → x < d + n → lo ≤ x ∧ x < hi := by
      intro x hx hx'
      obtain ⟨a, ha⟩ := exists_ne (dst x)
      by_contra hout
      have hkeep := h (fun _ => a) x (by omega)
      rw [memcpy_in dst _ s hx hx'] at hkeep
      exact ha hkeep
    have hfirst := hin d (by omega) (by omega)
    have hlast := hin (d + n - 1) (by omega) (by omega)
    omega
  · intro h src x hx
    exact memcpy_out dst src s (by omega)

/-- **A copy reads nothing outside `[lo, hi)` exactly when it comes from there.** -/
theorem memcpy_reads_iff [Nontrivial α] {dst src : Mem α} {d s n lo hi : Int} (hn : 0 < n) :
    (∀ src', (∀ x, lo ≤ x → x < hi → src' x = src x) → memcpy dst d src' s n = memcpy dst d src s n) ↔
      lo ≤ s ∧ s + n ≤ hi := by
  constructor
  · intro h
    have hin : ∀ x, s ≤ x → x < s + n → lo ≤ x ∧ x < hi := by
      intro x hx hx'
      obtain ⟨a, ha⟩ := exists_ne (src x)
      by_contra hout
      have hsame := congrFun (h (set src x a) (fun y hy hy' => set_of_ne src a (by omega))) (d + (x - s))
      rw [memcpy_in dst _ s (by omega) (by omega), memcpy_in dst _ s (by omega) (by omega),
        show s + (d + (x - s) - d) = x by omega, set_self] at hsame
      exact ha hsame
    have hfirst := hin s (by omega) (by omega)
    have hlast := hin (s + n - 1) (by omega) (by omega)
    omega
  · intro h src' hsame
    funext x
    by_cases hx : d ≤ x ∧ x < d + n
    · rw [memcpy_in dst src' s hx.1 hx.2, memcpy_in dst src s hx.1 hx.2]
      exact hsame _ (by omega) (by omega)
    · rw [memcpy_out dst src' s (by omega), memcpy_out dst src s (by omega)]

@[simp] theorem slice_length (m : Mem α) (o : Int) (n : Nat) : (slice m o n).length = n := by simp [slice]

@[simp] theorem getElem_slice (m : Mem α) (o : Int) (n i : Nat) (h : i < (slice m o n).length) :
    (slice m o n)[i] = m (o + i) := by simp [slice]

/-- **Two slices are equal when their cells are.** -/
theorem slice_eq_iff (m m' : Mem α) (o o' : Int) (n : Nat) :
    slice m o n = slice m' o' n ↔ ∀ i : Nat, i < n → m (o + i) = m' (o' + i) := by
  constructor
  · intro h i hi
    have := List.getElem_of_eq h (i := i) (by simpa using hi)
    simpa using this
  · intro h
    exact List.map_congr_left (fun i hi => h i (List.mem_range.1 hi))

/-- **What a copy put there is what it took.** -/
theorem slice_memcpy (dst : Mem α) (d : Int) (src : Mem α) (s : Int) (n : Nat) :
    slice (memcpy dst d src s n) d n = slice src s n := by
  rw [slice_eq_iff]
  intro i hi
  rw [memcpy_in dst src s (by omega) (by omega)]
  congr 1; omega

/-- One more cell is a copy one longer. -/
theorem set_memcpy (dst : Mem α) (d : Int) (src : Mem α) (s : Int) (n : Nat) :
    set (memcpy dst d src s n) (d + n) (src (s + n)) = memcpy dst d src s (n + 1 : Nat) := by
  funext x
  by_cases hx : x = d + n
  · subst hx
    rw [set_self, memcpy_in dst src s (by omega) (by push_cast; omega)]
    congr 1; omega
  · rw [set_of_ne _ _ hx]
    by_cases hin : d ≤ x ∧ x < d + n
    · rw [memcpy_in dst src s hin.1 hin.2, memcpy_in dst src s hin.1 (by push_cast; omega)]
    · rw [memcpy_out dst src s (by omega), memcpy_out dst src s (by push_cast; omega)]

theorem put_slice (dst : Mem α) (d : Int) (src : Mem α) (s : Int) (n : Nat) :
    put dst d (slice src s n) = memcpy dst d src s n := by
  funext x
  unfold put memcpy
  by_cases hx : d ≤ x
  · by_cases hn : x < d + n
    · have hlt : (x - d).toNat < n := by omega
      rw [if_pos hx, if_pos ⟨hx, hn⟩, List.getElem?_eq_getElem (by simpa using hlt), getElem_slice]
      simp only [Option.getD_some]
      congr 1; omega
    · have hge : n ≤ (x - d).toNat := by omega
      rw [if_pos hx, if_neg (by omega), List.getElem?_eq_none (by simpa using hge)]
      rfl
  · rw [if_neg hx, if_neg (by omega)]

theorem put_in (m : Mem α) (o : Int) (l : List α) (i : Nat) (h : i < l.length) : put m o l (o + i) = l[i] := by
  unfold put
  rw [if_pos (by omega)]
  have : (o + (i : Int) - o).toNat = i := by omega
  rw [this, List.getElem?_eq_getElem h]
  rfl

theorem slice_put (m : Mem α) (o : Int) (l : List α) : slice (put m o l) o l.length = l := by
  apply List.ext_getElem (by simp)
  intro i h1 h2
  rw [getElem_slice, put_in m o l i h2]

end Memory
