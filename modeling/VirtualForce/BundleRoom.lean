import Mathlib.Data.Nat.Prime.Basic
import VirtualForce.BundleTransfer
/-!
# BundleRoom — what the bundle functions do not test

An item is pushed only on a ring that is not full and pulled only from one that is not empty.  Of the bundle functions
only the pull tests its source, so that on an empty one the push returns the size of its buffer and the two differ; and
neither tests the room of its destination, whose read offset both load and neither uses.
-/
namespace VirtualForce

open Memory Slots Circle

/-! ## An empty source -/

/-- **A bundle pushed from an empty ring is as long as its buffer**, by the value returned. -/
theorem pushBundleLength_empty {b : BufferInfo} (h : isBuffEmpty b = true) : pushBundleLength b = b.buffLength := by
  have heq : b.tailIndexOffset = b.headIndexOffset := eq_of_beq h
  unfold pushBundleLength
  rw [heq, if_neg Int32.lt_irrefl, Int32.sub_add_cancel]

/-- **The two bundle functions are one transfer exactly from a ring that is not empty**, whatever the sizes, the offsets
and the room. -/
theorem bundles_agree_iff (src dst : Ring) (hlen : src.info.buffLength ≠ 0) : pushCircleBuffBundle dst src =
    ((pullCircleBuffBundle src dst).1, (pullCircleBuffBundle src dst).2.2, (pullCircleBuffBundle src dst).2.1) ↔
      isBuffEmpty src.info = false := by
  constructor
  · intro h
    by_cases he : isBuffEmpty src.info = true
    · have hret := congrArg Prod.fst h
      rw [pullCircleBuffBundle, if_pos he] at hret
      exact absurd ((pushBundleLength_empty he).symm.trans hret) hlen
    · exact Bool.eq_false_iff.2 he
  · exact pushCircleBuffBundle_eq src dst

/-- Two unread bytes round the end of a buffer of three, to a buffer of four. -/
theorem bundles_agree_iff_round :
    pushCircleBuffBundle ⟨⟨3, 2, 1, 4, 0, 1, 0⟩, fun _ => 0⟩ ⟨⟨1, 2, 1, 3, 0, 1, 0⟩, fun _ => 7⟩ =
      ((pullCircleBuffBundle ⟨⟨1, 2, 1, 3, 0, 1, 0⟩, fun _ => 7⟩ ⟨⟨3, 2, 1, 4, 0, 1, 0⟩, fun _ => 0⟩).1,
        (pullCircleBuffBundle ⟨⟨1, 2, 1, 3, 0, 1, 0⟩, fun _ => 7⟩ ⟨⟨3, 2, 1, 4, 0, 1, 0⟩, fun _ => 0⟩).2.2,
        (pullCircleBuffBundle ⟨⟨1, 2, 1, 3, 0, 1, 0⟩, fun _ => 7⟩ ⟨⟨3, 2, 1, 4, 0, 1, 0⟩, fun _ => 0⟩).2.1) ↔
      isBuffEmpty (⟨1, 2, 1, 3, 0, 1, 0⟩ : BufferInfo) = false :=
  bundles_agree_iff ⟨⟨1, 2, 1, 3, 0, 1, 0⟩, fun _ => 7⟩ ⟨⟨3, 2, 1, 4, 0, 1, 0⟩, fun _ => 0⟩ (by decide)

/-- Two empty rings, of four bytes and of eight: the push says it moved four bytes, the pull none. -/
theorem bundles_differ_empty : ¬ ∀ src dst : Ring, src.info.InRange → dst.info.InRange →
    (dst.info.unreadBytes + src.info.unreadBytes : Nat) < dst.info.buffLength.toInt → pushCircleBuffBundle dst src =
      ((pullCircleBuffBundle src dst).1, (pullCircleBuffBundle src dst).2.2, (pullCircleBuffBundle src dst).2.1) := by
  intro h
  have hret := congrArg Prod.fst (h ⟨⟨0, 0, 1, 4, 0, 1, 0⟩, fun _ => 7⟩ ⟨⟨0, 0, 1, 8, 0, 1, 0⟩, fun _ => 0⟩ (by decide)
    (by decide) (by decide))
  exact absurd hret (by decide)

/-! ## A destination without room -/

/-- **A transfer that loses nothing**: all the unread bytes of `src` are appended if they fit below the length of `dst`;
if not, the call fails and leaves both rings; and what was unread in `dst` can still be read, first. -/
structure NothingLost (src dst : Ring) (ret : Int32) (src' dst' : Ring) : Prop where
  fits : (dst.info.unreadBytes + src.info.unreadBytes : Nat) < dst.info.buffLength.toInt →
    Transferred src dst ret src' dst'
  refused : ¬ (dst.info.unreadBytes + src.info.unreadBytes : Nat) < dst.info.buffLength.toInt →
    ret < 0 ∧ src' = src ∧ dst' = dst
  kept : dst.unread <+: dst'.unread

/-- The unread bytes of `src` fit below the length of `dst`, and the sum the tail goes through is an `int32`. -/
def HasRoom (src dst : BufferInfo) : Prop :=
  (dst.unreadBytes + src.unreadBytes : Nat) < dst.buffLength.toInt ∧
    dst.tailIndexOffset.toInt + src.unreadBytes < 2 ^ 31

instance (src dst : BufferInfo) : Decidable (HasRoom src dst) := inferInstanceAs (Decidable (_ ∧ _))

/-- **The value returned counts the unread bytes**, room or not. -/
theorem pullCircleBuffBundle_ret {src : Ring} {h t L : Nat} (dst : Ring) (S : OffsetsAt src.info h t L)
    (hn : 0 < src.info.unreadBytes) : (pullCircleBuffBundle src dst).1.toInt = src.info.unreadBytes := by
  rw [pullCircleBuffBundle_of_not_empty dst (S.not_empty hn)]
  exact S.pullBundleLength_toInt hn

/-- **A tail that goes on through an overflow lands right only on a circle whose length divides `2 ^ 32`.** -/
theorem OffsetsAt.dvd_of_overflow {b : BufferInfo} {h t L n : Nat} {len : Int32} (D : OffsetsAt b h t L)
    (hlen : len.toInt = n) (hover : 2 ^ 31 ≤ t + n)
    (heq : BufferInfo.unreadBytes { b with tailIndexOffset := (b.tailIndexOffset + len) % b.buffLength } =
      b.unreadBytes + n) : L ∣ 2 ^ 32 := by
  have ht := D.tail_lt
  have hL := D.len_lt
  have hn := len.toInt_lt
  have hsum : (b.tailIndexOffset + len).toInt = (t + n : Int) - 2 ^ 32 := by
    rw [Int32.toInt_add, D.tail, hlen, Int.bmod_def]
    omega
  have hnew : ((((b.tailIndexOffset + len) % b.buffLength).toInt + (L - h)) % (L : Int)) = (b.unreadBytes + n : Nat) := by
    rw [← heq, BufferInfo.unreadBytes, D.len, D.head, Int.toNat_of_nonneg (Int.emod_nonneg _ (by omega))]
  have hold : ((t : Int) + (L - h)) % L = b.unreadBytes := by
    rw [BufferInfo.unreadBytes, D.tail, D.len, D.head, Int.toNat_of_nonneg (Int.emod_nonneg _ (by omega))]
  rw [Int32.toInt_mod, D.len, hsum] at hnew
  have hrest : (L : Int) ∣ (t + n - 2 ^ 32) - Int.tmod (t + n - 2 ^ 32) L := Int.dvd_self_sub_tmod
  obtain ⟨x, hx⟩ := hrest
  obtain ⟨y, hy⟩ : (L : Int) ∣ Int.tmod (t + n - 2 ^ 32) L + (L - h) - (b.unreadBytes + n : Nat) :=
    hnew ▸ Int.dvd_self_sub_emod
  obtain ⟨z, hz⟩ : (L : Int) ∣ (t : Int) + (L - h) - b.unreadBytes := hold ▸ Int.dvd_self_sub_emod
  rw [← Int.natCast_dvd_natCast]
  refine ⟨z - y - x, ?_⟩
  rw [Int.mul_sub, Int.mul_sub, ← hx, ← hy, ← hz]
  push_cast
  omega

/-- **If what was carried is appended, nothing overflowed.** -/
theorem Transferred.sum_lt {src dst : Ring} {ret : Int32} {src' : Ring} {buff : Mem UInt8} {h t L : Nat}
    (D : OffsetsAt dst.info h t L)
    (hfit : (dst.info.unreadBytes + src.info.unreadBytes : Nat) < dst.info.buffLength.toInt)
    (T : Transferred src dst ret src' ⟨{ dst.info with
      tailIndexOffset := (dst.info.tailIndexOffset + ret) % dst.info.buffLength }, buff⟩) :
    dst.info.tailIndexOffset.toInt + src.info.unreadBytes < 2 ^ 31 := by
  by_cases hover : 2 ^ 31 ≤ t + src.info.unreadBytes
  · have hbytes := congrArg List.length T.unread
    simp only [Ring.unread, around, List.length_append, List.length_map, List.length_range] at hbytes
    obtain ⟨k, -, rfl⟩ := (Nat.dvd_prime_pow Nat.prime_two).1 (D.dvd_of_overflow T.ret hover hbytes)
    have hk : k < 31 := (Nat.pow_lt_pow_iff_right (by decide)).1 D.len_lt
    have hle : 2 ^ k ≤ 2 ^ 30 := Nat.pow_le_pow_right (by decide) (Nat.le_of_lt_succ hk)
    have ht := D.tail_lt
    rw [D.len] at hfit
    omega
  · rw [D.tail]
    omega

theorem pull_nothing_lost_iff {src dst : Ring} (hsrc : src.info.Inside) (hdst : dst.info.Inside)
    (hn : 0 < src.info.unreadBytes) :
    NothingLost src dst (pullCircleBuffBundle src dst).1 (pullCircleBuffBundle src dst).2.1
      (pullCircleBuffBundle src dst).2.2 ↔ HasRoom src.info dst.info := by
  constructor
  · intro N
    by_cases hfit : (dst.info.unreadBytes + src.info.unreadBytes : Nat) < dst.info.buffLength.toInt
    · have T := N.fits hfit
      have hdata : (pullCircleBuffBundle src dst).2.2 = ⟨{ dst.info with tailIndexOffset :=
          (dst.info.tailIndexOffset + (pullCircleBuffBundle src dst).1) % dst.info.buffLength },
          (pullCircleBuffBundle src dst).2.2.buff⟩ := by
        rw [pullCircleBuffBundle_of_not_empty dst (hsrc.offsetsAt.not_empty hn)]
        rfl
      rw [hdata] at T
      exact ⟨hfit, T.sum_lt hdst.offsetsAt hfit⟩
    · -- the call returns the number of bytes, which is not negative
      have hret := Int32.lt_iff_toInt_lt.1 (N.refused hfit).1
      rw [pullCircleBuffBundle_ret dst hsrc.offsetsAt hn, Int32.toInt_zero] at hret
      omega
  · rintro ⟨hfit, hsum⟩
    have T := pullCircleBuffBundle_transfers hsrc hdst hn hfit hsum
    refine ⟨fun _ => T, fun hno => absurd hfit hno, ?_⟩
    rw [T.unread]
    exact List.prefix_append _ _

/-- **Either bundle function loses nothing exactly where there is room**, at any sizes and offsets, from a source that is
not empty. -/
theorem bundle_nothing_lost_iff (src dst : Ring) (hsrc : src.info.Inside) (hdst : dst.info.Inside)
    (hn : 0 < src.info.unreadBytes) :
    (NothingLost src dst (pushCircleBuffBundle dst src).1 (pushCircleBuffBundle dst src).2.2
        (pushCircleBuffBundle dst src).2.1 ↔ HasRoom src.info dst.info) ∧
      (NothingLost src dst (pullCircleBuffBundle src dst).1 (pullCircleBuffBundle src dst).2.1
        (pullCircleBuffBundle src dst).2.2 ↔ HasRoom src.info dst.info) := by
  have hpull := pull_nothing_lost_iff hsrc hdst hn
  rw [pushCircleBuffBundle_eq src dst (hsrc.offsetsAt.not_empty hn)]
  exact ⟨hpull, hpull⟩

/-- Two bytes to a buffer of four that holds one. -/
theorem bundle_nothing_lost_iff_round :
    (NothingLost ⟨⟨1, 2, 1, 3, 0, 1, 0⟩, fun _ => 7⟩ ⟨⟨3, 2, 1, 4, 0, 1, 0⟩, fun _ => 0⟩
        (pushCircleBuffBundle ⟨⟨3, 2, 1, 4, 0, 1, 0⟩, fun _ => 0⟩ ⟨⟨1, 2, 1, 3, 0, 1, 0⟩, fun _ => 7⟩).1
        (pushCircleBuffBundle ⟨⟨3, 2, 1, 4, 0, 1, 0⟩, fun _ => 0⟩ ⟨⟨1, 2, 1, 3, 0, 1, 0⟩, fun _ => 7⟩).2.2
        (pushCircleBuffBundle ⟨⟨3, 2, 1, 4, 0, 1, 0⟩, fun _ => 0⟩ ⟨⟨1, 2, 1, 3, 0, 1, 0⟩, fun _ => 7⟩).2.1 ↔
      HasRoom ⟨1, 2, 1, 3, 0, 1, 0⟩ ⟨3, 2, 1, 4, 0, 1, 0⟩) ∧
      (NothingLost ⟨⟨1, 2, 1, 3, 0, 1, 0⟩, fun _ => 7⟩ ⟨⟨3, 2, 1, 4, 0, 1, 0⟩, fun _ => 0⟩
        (pullCircleBuffBundle ⟨⟨1, 2, 1, 3, 0, 1, 0⟩, fun _ => 7⟩ ⟨⟨3, 2, 1, 4, 0, 1, 0⟩, fun _ => 0⟩).1
        (pullCircleBuffBundle ⟨⟨1, 2, 1, 3, 0, 1, 0⟩, fun _ => 7⟩ ⟨⟨3, 2, 1, 4, 0, 1, 0⟩, fun _ => 0⟩).2.1
        (pullCircleBuffBundle ⟨⟨1, 2, 1, 3, 0, 1, 0⟩, fun _ => 7⟩ ⟨⟨3, 2, 1, 4, 0, 1, 0⟩, fun _ => 0⟩).2.2 ↔
      HasRoom ⟨1, 2, 1, 3, 0, 1, 0⟩ ⟨3, 2, 1, 4, 0, 1, 0⟩) :=
  bundle_nothing_lost_iff ⟨⟨1, 2, 1, 3, 0, 1, 0⟩, fun _ => 7⟩ ⟨⟨3, 2, 1, 4, 0, 1, 0⟩, fun _ => 0⟩ (by decide) (by decide)
    (by decide)

/-- Three bytes to a buffer of four that holds two: the tail goes past the head, and the two functions return 3. -/
theorem bundle_overwrites : ¬ ∀ src dst : Ring, src.info.Inside → dst.info.Inside → 0 < src.info.unreadBytes →
    NothingLost src dst (pushCircleBuffBundle dst src).1 (pushCircleBuffBundle dst src).2.2
        (pushCircleBuffBundle dst src).2.1 ∧
      NothingLost src dst (pullCircleBuffBundle src dst).1 (pullCircleBuffBundle src dst).2.1
        (pullCircleBuffBundle src dst).2.2 := by
  intro h
  have N := (h ⟨⟨3, 0, 1, 4, 0, 1, 0⟩, fun _ => 7⟩ ⟨⟨2, 0, 1, 4, 0, 1, 0⟩, fun _ => 0⟩ (by decide) (by decide)
    (by decide)).1
  exact absurd (N.refused (by decide)).1 (by decide)

end VirtualForce
