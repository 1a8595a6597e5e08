import Mathlib.Data.Int.GCD
import Mathlib.Data.Nat.ModEq
import VirtualForce.Memory
/-!
# Slots — the offsets an index takes round a circle

An index that starts at a multiple of `e` and steps by `e` modulo `L` is at `slot e L k` after `k` steps.  Two steps
land on one offset exactly when their counts agree modulo `L / gcd L e`; when `e` divides `L` the slots tile the
circle.  `Stored` says what a memory holds in a run of consecutive slots.
-/
namespace Slots

open Memory

def slot (e L k : Nat) : Nat := k * e % L

variable {e L : Nat}

theorem slot_lt (k : Nat) (hL : 0 < L) : slot e L k < L := Nat.mod_lt _ hL

theorem slot_succ (e L k : Nat) : (slot e L k + e) % L = slot e L (k + 1) := by
  unfold slot
  rw [Nat.mod_add_mod, Nat.add_mul, Nat.one_mul]

/-- **Two step counts land on one offset exactly when they agree modulo `L / gcd L e`.** -/
theorem slot_eq_iff (hL : 0 < L) (a b : Nat) : slot e L a = slot e L b ↔ a ≡ b [MOD L / Nat.gcd L e] := by
  constructor
  · exact fun h => Nat.ModEq.cancel_right_div_gcd hL h
  · intro h
    have hd : L ∣ L / Nat.gcd L e * e := by
      have hmul : L / Nat.gcd L e * e = L * (e / Nat.gcd L e) := by
        rw [← Nat.mul_div_assoc _ (Nat.gcd_dvd_right L e), Nat.div_mul_right_comm (Nat.gcd_dvd_left L e)]
      rw [hmul]
      exact Nat.dvd_mul_right L _
    exact (h.mul_right' e).of_dvd hd

theorem slot_inj (hL : 0 < L) {a b : Nat} (hab : a ≤ b) (hb : b < a + L / Nat.gcd L e)
    (h : slot e L a = slot e L b) : a = b := by
  have hdvd := (Nat.modEq_iff_dvd' hab).1 ((slot_eq_iff hL a b).1 h)
  have := Nat.eq_zero_of_dvd_of_lt hdvd (by omega)
  omega

/-- **One step short of a full period is the only count whose next step meets the start.** -/
theorem slot_next_eq_iff (hL : 0 < L) {a b : Nat} (hab : a ≤ b) (hb : b < a + L / Nat.gcd L e) :
    slot e L (b + 1) = slot e L a ↔ b + 1 = a + L / Nat.gcd L e := by
  constructor
  · intro h
    by_cases hlt : b + 1 < a + L / Nat.gcd L e
    · have := slot_inj hL (by omega) hlt h.symm
      omega
    · omega
  · intro h
    rw [h, slot_eq_iff hL]
    exact Nat.add_modEq_right

theorem div_gcd_of_dvd (hd : e ∣ L) : L / Nat.gcd L e = L / e := by rw [Nat.gcd_eq_right hd]

theorem slot_of_dvd (hd : e ∣ L) (k : Nat) : slot e L k = k % (L / e) * e := by
  unfold slot
  conv_lhs => rw [← Nat.div_mul_cancel hd]
  exact Nat.mul_mod_mul_right e k (L / e)

/-- **An aligned slot ends inside the circle.** -/
theorem slot_add_le (he : 0 < e) (hL : 0 < L) (hd : e ∣ L) (k : Nat) : slot e L k + e ≤ L := by
  rw [slot_of_dvd hd]
  have hN : 0 < L / e := Nat.div_pos (Nat.le_of_dvd hL hd) he
  have := Nat.mul_le_mul_right e (Nat.succ_le_of_lt (Nat.mod_lt k hN))
  rw [Nat.div_mul_cancel hd] at this
  simpa [Nat.succ_eq_add_one, Nat.add_mul] using this

/-- **Aligned slots of different counts in one period are disjoint.** -/
theorem slot_disjoint (hL : 0 < L) (hd : e ∣ L) {a b : Nat} (hab : a < b) (hb : b < a + L / e) :
    slot e L a + e ≤ slot e L b ∨ slot e L b + e ≤ slot e L a := by
  have hne : a % (L / e) ≠ b % (L / e) := by
    intro h
    have : slot e L a = slot e L b := by rw [slot_of_dvd hd, slot_of_dvd hd, h]
    have := slot_inj hL (Nat.le_of_lt hab) (by rwa [div_gcd_of_dvd hd]) this
    omega
  rw [slot_of_dvd hd, slot_of_dvd hd]
  rcases Nat.lt_or_gt_of_ne hne with h | h
  · left
    have := Nat.mul_le_mul_right e (Nat.succ_le_of_lt h)
    simpa [Nat.succ_eq_add_one, Nat.add_mul] using this
  · right
    have := Nat.mul_le_mul_right e (Nat.succ_le_of_lt h)
    simpa [Nat.succ_eq_add_one, Nat.add_mul] using this

theorem slot_gap {a b : Nat} (hab : a ≤ b) (h : (b - a) * e < L) :
    (slot e L b + (L - slot e L a)) % L = (b - a) * e := by
  have hL : 0 < L := by omega
  have hlt : slot e L a < L := slot_lt a hL
  have hb : slot e L b = (slot e L a + (b - a) * e) % L := by
    unfold slot
    rw [Nat.mod_add_mod, ← Nat.add_mul, Nat.add_sub_cancel' hab]
  rw [hb, Nat.mod_add_mod, show slot e L a + (b - a) * e + (L - slot e L a) = (b - a) * e + L by omega,
    Nat.add_mod_right, Nat.mod_eq_of_lt h]

theorem slot_from (a k : Nat) : (slot e L a + k * e) % L = slot e L (a + k) := by
  unfold slot
  rw [Nat.mod_add_mod, ← Nat.add_mul]

/-- **A byte some way after slot `a` is in the slot that many whole steps on.** -/
theorem slot_byte (he : 0 < e) (hL : 0 < L) (hd : e ∣ L) (a j : Nat) :
    (slot e L a + j) % L = slot e L (a + j / e) + j % e := by
  have hfit := slot_add_le he hL hd (a + j / e)
  have hr : j % e < e := Nat.mod_lt _ he
  have hj : j = j / e * e + j % e := by rw [Nat.mul_comm]; exact (Nat.div_add_mod j e).symm
  conv_lhs => rw [hj, ← Nat.add_assoc, ← Nat.mod_add_mod, slot_from]
  exact Nat.mod_eq_of_lt (by omega)

theorem mul_lt_of_lt_div (he : 0 < e) {n : Nat} (h : n < L / e) : n * e < L := by
  have := (Nat.lt_div_iff_mul_lt he).1 h
  omega

/-! ## What the slots hold -/

variable {α : Type}

/-- **The lists `items`, one a slot, in the slots from the `a`-th on.** -/
def Stored (e L : Nat) (m : Mem α) (a : Nat) (items : List (List α)) : Prop :=
  ∀ k (h : k < items.length), slice m (slot e L (a + k)) e = items[k]

theorem stored_nil (m : Mem α) (a : Nat) : Stored e L m a [] := fun _ h => by simp at h

theorem Stored.head {m : Mem α} {a : Nat} {x : List α} {xs : List (List α)} (h : Stored e L m a (x :: xs)) :
    slice m (slot e L a) e = x := h 0 (by simp)

theorem Stored.tail {m : Mem α} {a : Nat} {x : List α} {xs : List (List α)} (h : Stored e L m a (x :: xs)) :
    Stored e L m (a + 1) xs := by
  intro k hk
  have := h (k + 1) (by simpa using hk)
  simpa [Nat.add_assoc, Nat.add_comm 1 k] using this

/-- **What is stored survives every write outside its slots.** -/
theorem Stored.congr {m m' : Mem α} {a : Nat} {items : List (List α)} (h : Stored e L m a items)
    (heq : ∀ k, k < items.length → ∀ i : Nat, i < e → m' (slot e L (a + k) + i) = m (slot e L (a + k) + i)) :
    Stored e L m' a items := by
  intro k hk
  rw [← h k hk]
  exact (slice_eq_iff _ _ _ _ _).2 (heq k hk)

theorem Stored.snoc {m : Mem α} {a : Nat} {items : List (List α)} {x : List α} (h : Stored e L m a items)
    (hx : slice m (slot e L (a + items.length)) e = x) : Stored e L m a (items ++ [x]) := by
  intro k hk
  rw [List.length_append, List.length_singleton] at hk
  by_cases hlt : k < items.length
  · rw [List.getElem_append_left hlt]
    exact h k hlt
  · have hke : k = items.length := by omega
    subst hke
    simpa using hx

def around (m : Mem α) (L o : Int) (n : Nat) : List α := (List.range n).map (fun j : Nat => m ((o + j) % L))

theorem around_eq (m : Mem α) (L o n : Nat) :
    around m L o n = (List.range n).map (fun j => m ((o + j) % L : Nat)) := by
  refine List.map_congr_left (fun j _ => ?_)
  push_cast
  rfl

theorem around_congr {m m' : Mem α} {L o L' o' n : Nat}
    (h : ∀ j, j < n → m ((o + j) % L : Nat) = m' ((o' + j) % L' : Nat)) : around m L o n = around m' L' o' n := by
  rw [around_eq, around_eq]
  exact List.map_congr_left (fun j hj => h j (List.mem_range.1 hj))

theorem around_add (m : Mem α) (L o a b : Nat) : around m L o (a + b) = around m L o a ++ around m L (o + a : Nat) b := by
  rw [around_eq, around_eq, around_eq, List.range_add, List.map_append, List.map_map]
  congr 1
  refine List.map_congr_left (fun j _ => ?_)
  simp only [Function.comp_apply, Nat.add_assoc]

/-- **The cells from a slot on are the stored lists in a row.** -/
theorem Stored.around_eq_flatten (he : 0 < e) (hL : 0 < L) (hd : e ∣ L) {m : Mem α} :
    ∀ (items : List (List α)) (a : Nat), Stored e L m a items →
      around m L (slot e L a) (items.length * e) = items.flatten
  | [], _, _ => by simp [around]
  | x :: xs, a, h => by
    have ih := Stored.around_eq_flatten he hL hd xs (a + 1) h.tail
    rw [around_eq] at ih ⊢
    rw [List.length_cons, Nat.add_one_mul, Nat.add_comm, List.range_add, List.map_append, List.flatten_cons]
    congr 1
    · have hfit := slot_add_le he hL hd a
      rw [← h.head]
      refine List.map_congr_left (fun j hj => ?_)
      rw [List.mem_range] at hj
      rw [Nat.mod_eq_of_lt (by omega)]
      push_cast
      rfl
    · rw [← ih, List.map_map]
      refine List.map_congr_left (fun j _ => ?_)
      simp only [Function.comp_apply]
      rw [← slot_succ, Nat.mod_add_mod, Nat.add_assoc]

theorem Stored.append {m : Mem α} {a : Nat} {items items' : List (List α)} (h : Stored e L m a items)
    (h' : Stored e L m (a + items.length) items') : Stored e L m a (items ++ items') := by
  intro k hk
  rw [List.length_append] at hk
  by_cases hlt : k < items.length
  · rw [List.getElem_append_left hlt]
    exact h k hlt
  · have hstored := h' (k - items.length) (by omega)
    rw [List.getElem_append_right (by omega), ← hstored, Nat.add_assoc, Nat.add_sub_cancel' (Nat.le_of_not_lt hlt)]

/-- The first `n` pieces of `e`, one after the other. -/
def cut (e n : Nat) (l : List α) : List (List α) := (List.range n).map (fun k => (l.drop (k * e)).take e)

@[simp] theorem cut_length (e n : Nat) (l : List α) : (cut e n l).length = n := by simp [cut]

/-- **The cells from a slot on, cut in pieces, are what the slots hold.** -/
theorem stored_cut (he : 0 < e) (hL : 0 < L) (hd : e ∣ L) (m : Mem α) (a n : Nat) :
    Stored e L m a (cut e n (around m L (slot e L a) (n * e))) := by
  intro k hk
  rw [cut_length] at hk
  have hfit : k * e + e ≤ n * e := by
    rw [← Nat.succ_mul]
    exact Nat.mul_le_mul_right e hk
  simp only [cut, List.getElem_map, List.getElem_range, around_eq]
  apply List.ext_getElem
  · simp only [slice_length, List.length_take, List.length_drop, List.length_map, List.length_range]
    omega
  · intro i h1 h2
    rw [slice_length] at h1
    rw [List.getElem_take, List.getElem_drop, List.getElem_map, List.getElem_range, getElem_slice, slot_byte he hL hd,
      show (k * e + i) / e = k by rw [Nat.mul_comm, Nat.mul_add_div he, Nat.div_eq_of_lt h1, Nat.add_zero],
      show (k * e + i) % e = i by rw [Nat.mul_comm, Nat.mul_add_mod, Nat.mod_eq_of_lt h1]]
    push_cast
    rfl

end Slots
