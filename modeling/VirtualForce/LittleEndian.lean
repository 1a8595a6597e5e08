import Mathlib.Tactic.Ring
/-!
# LittleEndian — numbers as bytes, least significant first

`toBytes k n` is `n` in `k` bytes, `ofBytes` the number a byte list stands for, and `field k o l` the number in the `k`
bytes from offset `o` on.
-/
namespace LittleEndian

def ofBytes : List UInt8 → Nat
  | [] => 0
  | b :: bs => b.toNat + 256 * ofBytes bs

def toBytes : Nat → Nat → List UInt8
  | 0, _ => []
  | k + 1, n => UInt8.ofNat n :: toBytes k (n / 256)

def field (k o : Nat) (l : List UInt8) : Nat := ofBytes ((l.drop o).take k)

def int32At (o : Nat) (l : List UInt8) : Int32 := Int32.ofNat (field 4 o l)

def uint64At (o : Nat) (l : List UInt8) : UInt64 := UInt64.ofNat (field 8 o l)

def int32Bytes (x : Int32) : List UInt8 := toBytes 4 x.toUInt32.toNat

def uint64Bytes (x : UInt64) : List UInt8 := toBytes 8 x.toNat

@[simp] theorem toBytes_length : ∀ k n, (toBytes k n).length = k
  | 0, _ => rfl
  | k + 1, n => by rw [toBytes, List.length_cons, toBytes_length k]

@[simp] theorem int32Bytes_length (x : Int32) : (int32Bytes x).length = 4 := toBytes_length 4 _

@[simp] theorem uint64Bytes_length (x : UInt64) : (uint64Bytes x).length = 8 := toBytes_length 8 _

/-- **What `k` bytes keep of a number.** -/
theorem ofBytes_toBytes : ∀ k n, ofBytes (toBytes k n) = n % 256 ^ k
  | 0, n => by rw [Nat.pow_zero, Nat.mod_one]; rfl
  | k + 1, n => by
    have hlow : (UInt8.ofNat n).toNat = n % 256 := UInt8.toNat_ofNat'
    rw [toBytes, ofBytes, ofBytes_toBytes k, hlow, Nat.pow_succ', Nat.mod_mul]

theorem field_skip (k o : Nat) (a l : List UInt8) : field k (a.length + o) (a ++ l) = field k o l := by
  rw [field, field, ← List.drop_drop, List.drop_left]

theorem field_first {k : Nat} {a : List UInt8} (ha : a.length = k) (l : List UInt8) : field k 0 (a ++ l) = ofBytes a := by
  rw [field, List.drop_zero, ← ha, List.take_left]

theorem int32At_skip {n : Nat} {a : List UInt8} (ha : a.length = n) (o : Nat) (l : List UInt8) :
    int32At (n + o) (a ++ l) = int32At o l := by
  subst ha
  rw [int32At, field_skip, int32At]

theorem uint64At_skip {n : Nat} {a : List UInt8} (ha : a.length = n) (o : Nat) (l : List UInt8) :
    uint64At (n + o) (a ++ l) = uint64At o l := by
  subst ha
  rw [uint64At, field_skip, uint64At]

theorem int32At_append {a : List UInt8} (h : 4 ≤ a.length) (l : List UInt8) : int32At 0 (a ++ l) = int32At 0 a := by
  rw [int32At, int32At, field, field, List.drop_zero, List.drop_zero, List.take_append_of_le_length h]

theorem int32At_first (x : Int32) (l : List UInt8) : int32At 0 (int32Bytes x ++ l) = x := by
  have hx : x.toUInt32.toNat < 256 ^ 4 := x.toUInt32.toNat_lt
  rw [int32At, field_first (int32Bytes_length x), int32Bytes, ofBytes_toBytes, Nat.mod_eq_of_lt hx,
    ← UInt32.toInt32_ofNat', UInt32.ofNat_toNat, Int32.toInt32_toUInt32]

theorem uint64At_first (x : UInt64) (l : List UInt8) : uint64At 0 (uint64Bytes x ++ l) = x := by
  have hx : x.toNat < 256 ^ 8 := x.toNat_lt
  rw [uint64At, field_first (uint64Bytes_length x), uint64Bytes, ofBytes_toBytes, Nat.mod_eq_of_lt hx,
    UInt64.ofNat_toNat]

/-- **An array of words, read word by word.** -/
theorem int32At_flatMap : ∀ (ws : List Int32) (l : List UInt8) (i : Nat) (h : i < ws.length),
    int32At (4 * i) (ws.flatMap int32Bytes ++ l) = ws[i]
  | w :: ws, l, 0, _ => by
    rw [List.flatMap_cons, List.append_assoc]
    exact int32At_first w _
  | w :: ws, l, i + 1, h => by
    rw [List.flatMap_cons, List.append_assoc, Nat.mul_succ, Nat.add_comm, int32At_skip (int32Bytes_length w),
      int32At_flatMap ws l i (Nat.lt_of_succ_lt_succ h)]
    rfl

theorem uint64At_flatMap : ∀ (ws : List UInt64) (l : List UInt8) (i : Nat) (h : i < ws.length),
    uint64At (8 * i) (ws.flatMap uint64Bytes ++ l) = ws[i]
  | w :: ws, l, 0, _ => by
    rw [List.flatMap_cons, List.append_assoc]
    exact uint64At_first w _
  | w :: ws, l, i + 1, h => by
    rw [List.flatMap_cons, List.append_assoc, Nat.mul_succ, Nat.add_comm, uint64At_skip (uint64Bytes_length w),
      uint64At_flatMap ws l i (Nat.lt_of_succ_lt_succ h)]
    rfl

end LittleEndian
