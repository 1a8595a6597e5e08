import VirtualForce.BufferManager
import VirtualForce.Slots
import Mathlib.Tactic.Ring
/-!
# RingItem — the item operations, in numbers

`RingAt b e L h t` reads the control block as the natural numbers it stands for.  One lemma an operation: the two tests
compare `(t + e) % L` and `t` with `h`, a push moves `t` and a pull moves `h` to `(_ + e) % L`.  Sizes are at most
`2 ^ 30`, so no `int32` sum wraps.
-/
namespace VirtualForce

open Memory Slots

/-- **The control block stands for these numbers**: item and buffer size, head and tail. -/
structure RingAt (b : BufferInfo) (e L h t : Nat) : Prop where
  elem : b.elementLength.toInt = e
  len : b.buffLength.toInt = L
  head : b.headIndexOffset.toInt = h
  tail : b.tailIndexOffset.toInt = t
  elem_pos : 0 < e
  elem_le : e ≤ 2 ^ 30
  len_le : L ≤ 2 ^ 30
  head_lt : h < L
  tail_lt : t < L

def BufferInfo.control (b : BufferInfo) : Int32 × Int32 × Int32 × Int32 × Int32 :=
  (b.elementLength, b.buffLength, b.safetyResevd, b.semaphore, b.writeLock)

/-- **A sum of offsets below `2 ^ 31` does not wrap.** -/
theorem toInt_add_of_lt {x y : Int32} {m n : Nat} (hx : x.toInt = m) (hy : y.toInt = n) (h : m + n < 2 ^ 31) :
    (x + y).toInt = (m + n : Nat) := by
  rw [Int32.toInt_add, hx, hy, Int.bmod_eq_of_le (by omega) (by omega)]
  push_cast; rfl

theorem toInt_sub_of_le {x y : Int32} {m n : Nat} (hx : x.toInt = m) (hy : y.toInt = n) (hle : n ≤ m)
    (h : m < 2 ^ 31) : (x - y).toInt = (m - n : Nat) := by
  rw [Int32.toInt_sub, hx, hy, Int.bmod_eq_of_le (by omega) (by omega), Int.ofNat_sub hle]

section
variable {x y : Int32} {m n : Nat}

theorem lt_iff_of_toInt (hx : x.toInt = m) (hy : y.toInt = n) : x < y ↔ m < n := by
  rw [Int32.lt_iff_toInt_lt, hx, hy]
  exact Int.ofNat_lt

theorem le_iff_of_toInt (hx : x.toInt = m) (hy : y.toInt = n) : x ≤ y ↔ m ≤ n := by
  rw [Int32.le_iff_toInt_le, hx, hy]
  exact Int.ofNat_le

end

theorem toInt_advance {o e L : Int32} {m n l : Nat} (ho : o.toInt = m) (he : e.toInt = n) (hL : L.toInt = l)
    (h : m + n < 2 ^ 31) : ((o + e) % L).toInt = ((m + n) % l : Nat) := by
  rw [Int32.toInt_mod, toInt_add_of_lt ho he h, hL]
  exact Int.ofNat_tmod _ _

namespace RingAt

variable {b : BufferInfo} {e L h t : Nat}

theorem len_pos (v : RingAt b e L h t) : 0 < L := Nat.lt_of_le_of_lt (Nat.zero_le _) v.head_lt

/-- An offset and an item are far from `2 ^ 31`. -/
theorem add_elem_lt (v : RingAt b e L h t) {o : Nat} (ho : o < L) : o + e < 2 ^ 31 := by
  have hlen := v.len_le
  have helem := v.elem_le
  omega

theorem isBuffFull_iff (v : RingAt b e L h t) : isBuffFull b = true ↔ (t + e) % L = h := by
  unfold isBuffFull
  rw [beq_iff_eq, ← Int32.toInt_inj, toInt_advance v.tail v.elem v.len (v.add_elem_lt v.tail_lt), v.head]
  exact Int.ofNat_inj

theorem isBuffEmpty_iff (v : RingAt b e L h t) : isBuffEmpty b = true ↔ t = h := by
  unfold isBuffEmpty
  rw [beq_iff_eq, ← Int32.toInt_inj, v.tail, v.head]
  exact Int.ofNat_inj

theorem push (v : RingAt b e L h t) :
    RingAt { b with tailIndexOffset := (b.tailIndexOffset + b.elementLength) % b.buffLength } e L h ((t + e) % L) where
  __ := v
  tail := toInt_advance v.tail v.elem v.len (v.add_elem_lt v.tail_lt)
  tail_lt := Nat.mod_lt _ v.len_pos

theorem pull (v : RingAt b e L h t) :
    RingAt { b with headIndexOffset := (b.headIndexOffset + b.elementLength) % b.buffLength } e L ((h + e) % L) t where
  __ := v
  head := toInt_advance v.head v.elem v.len (v.add_elem_lt v.head_lt)
  head_lt := Nat.mod_lt _ v.len_pos

end RingAt

/-! ## A ring that has gone round from slot `a` -/

/-- **The offsets after `p` items in and `q` out**: the items still in are fewer than a full period. -/
structure Turned (e L q p : Nat) (b : BufferInfo) : Prop where
  at_ : RingAt b e L (slot e L q) (slot e L p)
  le : q ≤ p
  short : p < q + L / Nat.gcd L e

namespace Turned

variable {e L q p : Nat} {b : BufferInfo}

/-- **The full test counts the items**, whether or not `e` divides `L`. -/
theorem full_iff (T : Turned e L q p b) : isBuffFull b = true ↔ p + 1 = q + L / Nat.gcd L e := by
  rw [T.at_.isBuffFull_iff, slot_succ, slot_next_eq_iff T.at_.len_pos T.le T.short]

theorem empty_iff (T : Turned e L q p b) : isBuffEmpty b = true ↔ p = q := by
  rw [T.at_.isBuffEmpty_iff]
  constructor
  · exact fun h => (slot_inj T.at_.len_pos T.le T.short h.symm).symm
  · rintro rfl; rfl

theorem push (T : Turned e L q p b) (hf : isBuffFull b = false) :
    Turned e L q (p + 1) { b with tailIndexOffset := (b.tailIndexOffset + b.elementLength) % b.buffLength } where
  at_ := by
    have hat := T.at_.push
    rwa [slot_succ] at hat
  le := Nat.le_succ_of_le T.le
  short := by
    have hne := T.full_iff.not.1 (by rw [hf]; decide)
    have hshort := T.short
    omega

theorem pull (T : Turned e L q p b) (he : isBuffEmpty b = false) :
    Turned e L (q + 1) p { b with headIndexOffset := (b.headIndexOffset + b.elementLength) % b.buffLength } where
  at_ := by
    have hat := T.at_.pull
    rwa [slot_succ] at hat
  le := by
    have hne := T.empty_iff.not.1 (by rw [he]; decide)
    have hle := T.le
    omega
  short := by
    have hshort := T.short
    omega

/-- **A ring starts empty where its head and tail are one slot.** -/
theorem start {k : Nat} (he : 0 < e) (hL : 0 < L) (he' : e ≤ 2 ^ 30) (hL' : L ≤ 2 ^ 30) (hbe : b.elementLength.toInt = e)
    (hbL : b.buffLength.toInt = L) (hh : b.headIndexOffset.toInt = slot e L k)
    (ht : b.tailIndexOffset.toInt = slot e L k) : Turned e L k k b where
  at_ := ⟨hbe, hbL, hh, ht, he, he', hL', slot_lt _ hL, slot_lt _ hL⟩
  le := Nat.le_refl _
  short := Nat.lt_add_of_pos_right (Nat.div_pos (Nat.le_of_dvd hL (Nat.gcd_dvd_left _ _)) (Nat.gcd_pos_of_pos_left _ hL))

end Turned

/-- **The ring holds `items`**: its head is at slot `a`, its tail that many slots further on, fewer than a full period,
and the slots between hold the items. -/
structure Holds (e L a : Nat) (r : Ring) (items : List (List UInt8)) : Prop where
  at_ : RingAt r.info e L (slot e L a) (slot e L (a + items.length))
  short : items.length < L / Nat.gcd L e
  stored : Stored e L r.buff a items

namespace Holds

variable {e L a : Nat} {r : Ring} {items : List (List UInt8)}

theorem turned (H : Holds e L a r items) : Turned e L a (a + items.length) r.info :=
  ⟨H.at_, Nat.le_add_right _ _, Nat.add_lt_add_left H.short a⟩

theorem full_iff (H : Holds e L a r items) : isBuffFull r.info = true ↔ items.length + 1 = L / Nat.gcd L e := by
  rw [H.turned.full_iff]
  omega

theorem empty_iff (H : Holds e L a r items) : isBuffEmpty r.info = true ↔ items = [] := by
  rw [H.turned.empty_iff, ← List.length_eq_zero_iff]
  omega

theorem push_full (r : Ring) (src : Mem UInt8) (h : isBuffFull r.info = true) :
    pushCircleBuffItem r src = (-1, r) := by simp [pushCircleBuffItem, h]

theorem pull_empty (r : Ring) (dst : Mem UInt8) (h : isBuffEmpty r.info = true) :
    pullCircleBuffItem r dst = (-1, r, dst) := by simp [pullCircleBuffItem, h]

/-- **An accepted push appends the item**, once its slot is disjoint from those of the unread ones. -/
theorem push (H : Holds e L a r items) (src : Mem UInt8) (hf : isBuffFull r.info = false)
    (hd : ∀ k, k < items.length → slot e L (a + k) + e ≤ slot e L (a + items.length) ∨
      slot e L (a + items.length) + e ≤ slot e L (a + k)) :
    (pushCircleBuffItem r src).1 = r.info.elementLength ∧
      Holds e L a (pushCircleBuffItem r src).2 (items ++ [slice src 0 e]) := by
  have T := H.turned.push hf
  simp only [pushCircleBuffItem, hf, Bool.false_eq_true, if_false, true_and]
  refine ⟨?_, ?_, ?_⟩
  · rw [List.length_append, List.length_singleton, ← Nat.add_assoc]
    exact T.at_
  · have hshort := T.short
    rw [List.length_append, List.length_singleton]
    omega
  · rw [H.at_.tail, H.at_.elem]
    refine Stored.snoc (H.stored.congr fun k hk i hi => ?_) (slice_memcpy _ _ _ _ _)
    have := hd k hk
    exact memcpy_out _ _ _ (by omega)

/-- **An accepted pull takes the oldest item.** -/
theorem pull {x : List UInt8} (H : Holds e L a r (x :: items)) (dst : Mem UInt8) :
    (pullCircleBuffItem r dst).1 = 0 ∧ (pullCircleBuffItem r dst).2.2 = put dst 0 x ∧
      Holds e L (a + 1) (pullCircleBuffItem r dst).2.1 items := by
  have he : isBuffEmpty r.info = false := by
    rw [Bool.eq_false_iff, ne_eq, H.empty_iff]; simp
  have T := H.turned.pull he
  rw [List.length_cons, Nat.add_comm items.length, ← Nat.add_assoc] at T
  simp only [pullCircleBuffItem, he, Bool.false_eq_true, if_false, true_and]
  refine ⟨?_, T.at_, ?_, H.stored.tail⟩
  · rw [← H.stored.head, put_slice, H.at_.head, H.at_.elem]
  · have hshort := T.short
    omega

end Holds

/-! ## The bytes an item operation touches -/

theorem nontrivial_byte : Nontrivial UInt8 := ⟨0, 1, by decide⟩

/-- **A push writes nothing outside the buffer exactly when an accepted one has its item inside it.** -/
theorem pushCircleBuffItem_keeps_iff {r : Ring} (he : 0 < r.info.elementLength.toInt) :
    (∀ src x, x < 0 ∨ r.info.buffLength.toInt ≤ x → (pushCircleBuffItem r src).2.buff x = r.buff x) ↔
      (isBuffFull r.info = false → 0 ≤ r.info.tailIndexOffset.toInt ∧
        r.info.tailIndexOffset.toInt + r.info.elementLength.toInt ≤ r.info.buffLength.toInt) := by
  cases hf : isBuffFull r.info with
  | true => simp [Holds.push_full r _ hf]
  | false =>
    have := nontrivial_byte
    simp only [pushCircleBuffItem, hf, Bool.false_eq_true, if_false, true_imp_iff]
    exact memcpy_keeps_iff he

/-- **A pull reads nothing outside the buffer exactly when the item it takes is inside it.** -/
theorem pullCircleBuffItem_reads_iff {r : Ring} (dst : Mem UInt8) (he : 0 < r.info.elementLength.toInt) :
    (∀ m, (∀ x, 0 ≤ x → x < r.info.buffLength.toInt → m x = r.buff x) →
        (pullCircleBuffItem ⟨r.info, m⟩ dst).2.2 = (pullCircleBuffItem r dst).2.2) ↔
      (isBuffEmpty r.info = false → 0 ≤ r.info.headIndexOffset.toInt ∧
        r.info.headIndexOffset.toInt + r.info.elementLength.toInt ≤ r.info.buffLength.toInt) := by
  cases hne : isBuffEmpty r.info with
  | true => simp [pullCircleBuffItem, hne]
  | false =>
    have := nontrivial_byte
    simp only [pullCircleBuffItem, hne, Bool.false_eq_true, if_false, true_imp_iff]
    exact memcpy_reads_iff he

end VirtualForce
