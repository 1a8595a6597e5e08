import VirtualForce.BundlePlan
import VirtualForce.RingQueue
/-!
# BundleTransfer — a bundle is appended whole

Between two rings of any sizes, at any byte offsets, either bundle function moves the unread bytes of one behind the
unread bytes of the other, if they fit below its length: `n` bytes back, the source empty, nothing else written.
-/
namespace VirtualForce

open Memory Slots Circle

/-- The offsets are inside a buffer of at most `2 ^ 30` bytes; the item size does not matter to a bundle. -/
def BufferInfo.InRange (b : BufferInfo) : Prop :=
  (0 ≤ b.headIndexOffset.toInt ∧ b.headIndexOffset.toInt < b.buffLength.toInt) ∧
    (0 ≤ b.tailIndexOffset.toInt ∧ b.tailIndexOffset.toInt < b.buffLength.toInt) ∧ b.buffLength.toInt ≤ 2 ^ 30

instance (b : BufferInfo) : Decidable b.InRange := inferInstanceAs (Decidable (_ ∧ _))

/-- The unread bytes, oldest first. -/
def Ring.unread (r : Ring) : List UInt8 :=
  around r.buff r.info.buffLength.toInt r.info.headIndexOffset.toInt r.info.unreadBytes

/-- **The offsets stand for these numbers.** -/
structure OffsetsAt (b : BufferInfo) (h t L : Nat) : Prop where
  head : b.headIndexOffset.toInt = h
  tail : b.tailIndexOffset.toInt = t
  len : b.buffLength.toInt = L
  head_lt : h < L
  tail_lt : t < L

/-- The offsets are inside a buffer of any size. -/
def BufferInfo.Inside (b : BufferInfo) : Prop :=
  (0 ≤ b.headIndexOffset.toInt ∧ b.headIndexOffset.toInt < b.buffLength.toInt) ∧
    (0 ≤ b.tailIndexOffset.toInt ∧ b.tailIndexOffset.toInt < b.buffLength.toInt)

instance (b : BufferInfo) : Decidable b.Inside := inferInstanceAs (Decidable (_ ∧ _))

theorem BufferInfo.InRange.inside {b : BufferInfo} (h : b.InRange) : b.Inside := ⟨h.1, h.2.1⟩

/-- In a buffer of at most `2 ^ 30` bytes no sum of an offset and what fits overflows. -/
theorem BufferInfo.InRange.sum_lt {b : BufferInfo} (h : b.InRange) {n : Nat}
    (hn : (b.unreadBytes + n : Nat) < b.buffLength.toInt) : b.tailIndexOffset.toInt + n < 2 ^ 31 := by
  obtain ⟨-, ⟨-, htail⟩, hlen⟩ := h
  omega

theorem BufferInfo.Inside.offsetsAt {b : BufferInfo} (h : b.Inside) :
    OffsetsAt b b.headIndexOffset.toInt.toNat b.tailIndexOffset.toInt.toNat b.buffLength.toInt.toNat := by
  obtain ⟨⟨h1, h2⟩, ⟨h3, h4⟩⟩ := h
  exact ⟨by omega, by omega, by omega, by omega, by omega⟩

namespace OffsetsAt

variable {b : BufferInfo} {h t L : Nat}

theorem len_lt (O : OffsetsAt b h t L) : L < 2 ^ 31 := by
  have hlt := b.buffLength.toInt_lt
  rw [O.len] at hlt
  omega

theorem unreadBytes_eq (O : OffsetsAt b h t L) : b.unreadBytes = (t + (L - h)) % L := by
  have hle := Nat.le_of_lt O.head_lt
  unfold BufferInfo.unreadBytes
  rw [O.tail, O.len, O.head, ← Int.ofNat_sub hle, ← Int.natCast_add, ← Int.natCast_emod]
  exact Int.toNat_natCast _

theorem unreadBytes_lt (O : OffsetsAt b h t L) : b.unreadBytes < L := by
  rw [O.unreadBytes_eq]
  exact Nat.mod_lt _ (Nat.lt_of_le_of_lt (Nat.zero_le _) O.head_lt)

/-- The unread bytes end at the tail. -/
theorem head_add (O : OffsetsAt b h t L) : (h + b.unreadBytes) % L = t := by
  have hlt := O.head_lt
  rw [O.unreadBytes_eq, Nat.add_mod_mod, show h + (t + (L - h)) = t + L by omega, Nat.add_mod_right,
    Nat.mod_eq_of_lt O.tail_lt]

theorem ne_of_pos (O : OffsetsAt b h t L) (hn : 0 < b.unreadBytes) : h ≠ t := by
  rintro rfl
  have hlt := O.head_lt
  rw [O.unreadBytes_eq, show h + (L - h) = L by omega, Nat.mod_self] at hn
  exact absurd hn (Nat.lt_irrefl 0)

theorem not_empty (O : OffsetsAt b h t L) (hn : 0 < b.unreadBytes) : isBuffEmpty b = false := by
  rw [isBuffEmpty, beq_eq_false_iff_ne, ne_eq, ← Int32.toInt_inj, O.tail, O.head]
  exact fun heq => O.ne_of_pos hn (Int.ofNat_inj.1 heq).symm

theorem planLength_eq (O : OffsetsAt b h t L) (hn : 0 < b.unreadBytes) : planLength h t L = b.unreadBytes := by
  rw [VirtualForce.planLength_eq O.head_lt O.tail_lt (O.ne_of_pos hn), O.unreadBytes_eq]

theorem pullBundleLength_toInt (O : OffsetsAt b h t L) (hn : 0 < b.unreadBytes) :
    (pullBundleLength b.headIndexOffset b.tailIndexOffset b.buffLength).toInt = b.unreadBytes := by
  rw [VirtualForce.pullBundleLength_toInt O.head O.tail O.len O.head_lt O.tail_lt O.len_lt, O.planLength_eq hn]

theorem unread_eq {r : Ring} (O : OffsetsAt r.info h t L) : r.unread = around r.buff L h r.info.unreadBytes := by
  rw [Ring.unread, O.len, O.head]

/-- **The offsets after `n` more bytes**, if they fit. -/
theorem advance (O : OffsetsAt b h t L) {tail : Int32} {n : Nat} (htail : tail.toInt = ((t + n) % L : Nat))
    (hn : b.unreadBytes + n < L) :
    OffsetsAt { b with tailIndexOffset := tail } h ((t + n) % L) L ∧
      BufferInfo.unreadBytes { b with tailIndexOffset := tail } = b.unreadBytes + n := by
  have hL : 0 < L := Nat.lt_of_le_of_lt (Nat.zero_le _) O.head_lt
  have O' : OffsetsAt { b with tailIndexOffset := tail } h ((t + n) % L) L :=
    ⟨O.head, htail, O.len, O.head_lt, Nat.mod_lt _ hL⟩
  refine ⟨O', ?_⟩
  rw [O'.unreadBytes_eq, Nat.mod_add_mod, show t + n + (L - h) = t + (L - h) + n by omega, ← Nat.mod_add_mod,
    ← O.unreadBytes_eq, Nat.mod_eq_of_lt hn]

end OffsetsAt

/-! ## One way round -/

/-- The pull goes past its test where the source is not empty, and is then the push. -/
theorem pullCircleBuffBundle_of_not_empty {src : Ring} (dst : Ring) (h : isBuffEmpty src.info = false) :
    pullCircleBuffBundle src dst =
      ((pushCircleBuffBundle dst src).1, (pushCircleBuffBundle dst src).2.2, (pushCircleBuffBundle dst src).2.1) :=
  if_neg (by rw [h]; decide)

/-- **A bundle pull from a ring that is not empty**: its copies are one way round both rings, the head of the source goes
to its tail, and the tail of the destination goes on by the bytes carried. -/
theorem pullCircleBuffBundle_eq {src dst : Ring} {hs ts Ls hd td Ld : Nat} (S : OffsetsAt src.info hs ts Ls)
    (D : OffsetsAt dst.info hd td Ld) (hn : 0 < src.info.unreadBytes) (hfit : src.info.unreadBytes ≤ 2 * Ld - td) :
    ∃ len : Int32, len.toInt = src.info.unreadBytes ∧ pullCircleBuffBundle src dst = (len,
      { src with info := { src.info with headIndexOffset := src.info.tailIndexOffset } },
      { info := { dst.info with tailIndexOffset := (dst.info.tailIndexOffset + len) % dst.info.buffLength }
        buff := runMoves dst.buff src.buff (round td hs Ld Ls src.info.unreadBytes) }) := by
  have hlen := S.planLength_eq hn
  have hnums := pullBundleCopies_nums S.head S.tail D.tail S.len D.len S.head_lt S.tail_lt D.tail_lt S.len_lt D.len_lt
  have hmoves := plan_moves S.head_lt S.tail_lt D.tail_lt (by rw [hlen]; exact hfit)
  have hbuff := runCopies_eq dst.buff src.buff _ (len_nonneg_of_nums hnums)
  rw [copyMoves_eq_planMoves _ _ hnums, hmoves, hlen] at hbuff
  refine ⟨pushBundleLength src.info, S.pullBundleLength_toInt hn, ?_⟩
  rw [pullCircleBuffBundle_of_not_empty dst (S.not_empty hn), ← hbuff]
  rfl

/-- **On a ring that is not empty the two bundle functions are one**, with the rings the other way round. -/
theorem pushCircleBuffBundle_eq (src dst : Ring) (h : isBuffEmpty src.info = false) : pushCircleBuffBundle dst src =
    ((pullCircleBuffBundle src dst).1, (pullCircleBuffBundle src dst).2.2, (pullCircleBuffBundle src dst).2.1) := by
  rw [pullCircleBuffBundle_of_not_empty dst h]

/-! ## The transfer -/

/-- **The unread bytes of `src` are now behind those of `dst`**: `ret` of them, the source empty and its bytes as they
were, the head of the destination where it was, and no byte written but the ones appended. -/
structure Transferred (src dst : Ring) (ret : Int32) (src' dst' : Ring) : Prop where
  ret : ret.toInt = src.info.unreadBytes
  src_info : src'.info = { src.info with headIndexOffset := src.info.tailIndexOffset }
  src_empty : isBuffEmpty src'.info = true
  src_buff : src'.buff = src.buff
  dst_info : dst'.info = { dst.info with tailIndexOffset := dst'.info.tailIndexOffset }
  unread : dst'.unread = dst.unread ++ src.unread
  outside : ∀ x : Int, (∀ j : Nat, j < src.info.unreadBytes →
    x ≠ (dst.info.tailIndexOffset.toInt + j) % dst.info.buffLength.toInt) → dst'.buff x = dst.buff x

/-- **The transfer at any size**, if the sum the tail goes through does not overflow. -/
theorem pullCircleBuffBundle_transfers {src dst : Ring} (hsrc : src.info.Inside) (hdst : dst.info.Inside)
    (hn : 0 < src.info.unreadBytes)
    (hroom : (dst.info.unreadBytes + src.info.unreadBytes : Nat) < dst.info.buffLength.toInt)
    (hsum : dst.info.tailIndexOffset.toInt + src.info.unreadBytes < 2 ^ 31) :
    Transferred src dst (pullCircleBuffBundle src dst).1 (pullCircleBuffBundle src dst).2.1
      (pullCircleBuffBundle src dst).2.2 := by
  have S := hsrc.offsetsAt
  have D := hdst.offsetsAt
  generalize src.info.headIndexOffset.toInt.toNat = hs at S
  generalize src.info.tailIndexOffset.toInt.toNat = ts at S
  generalize src.info.buffLength.toInt.toNat = Ls at S
  generalize dst.info.headIndexOffset.toInt.toNat = hd at D
  generalize dst.info.tailIndexOffset.toInt.toNat = td at D
  generalize dst.info.buffLength.toInt.toNat = Ld at D
  rw [D.len] at hroom
  rw [D.tail] at hsum
  have htd := D.tail_lt
  obtain ⟨len, hlen, heq⟩ := pullCircleBuffBundle_eq S D hn (by omega)
  have htail : ((dst.info.tailIndexOffset + len) % dst.info.buffLength).toInt =
      ((td + src.info.unreadBytes) % Ld : Nat) := toInt_advance D.tail hlen D.len (by omega)
  obtain ⟨D', hbytes⟩ := D.advance htail (by omega)
  rw [heq]
  refine ⟨hlen, rfl, ?_, rfl, rfl, ?_, fun x hx => ?_⟩
  · exact beq_self_eq_true _
  · have hunread := OffsetsAt.unread_eq (r := ⟨{ dst.info with
        tailIndexOffset := (dst.info.tailIndexOffset + len) % dst.info.buffLength },
        runMoves dst.buff src.buff (round td hs Ld Ls src.info.unreadBytes)⟩) D'
    rw [hunread, D.unread_eq, S.unread_eq, hbytes]
    exact around_runMoves _ _ (by omega) D.head_add
  · refine runMoves_round_out _ _ _ (fun j hj => ?_)
    have hxj := hx j hj
    rw [D.tail, D.len] at hxj
    exact hxj

/-- **Either bundle function appends all the unread bytes of one ring to those of the other**, whatever the sizes and the
offsets, if they fit. -/
theorem bundle_transfers (src dst : Ring) (hsrc : src.info.InRange) (hdst : dst.info.InRange)
    (hn : 0 < src.info.unreadBytes)
    (hroom : (dst.info.unreadBytes + src.info.unreadBytes : Nat) < dst.info.buffLength.toInt) :
    Transferred src dst (pushCircleBuffBundle dst src).1 (pushCircleBuffBundle dst src).2.2
        (pushCircleBuffBundle dst src).2.1 ∧
      Transferred src dst (pullCircleBuffBundle src dst).1 (pullCircleBuffBundle src dst).2.1
        (pullCircleBuffBundle src dst).2.2 := by
  have hpull := pullCircleBuffBundle_transfers hsrc.inside hdst.inside hn hroom (hdst.sum_lt hroom)
  rw [pushCircleBuffBundle_eq src dst (hsrc.inside.offsetsAt.not_empty hn)]
  exact ⟨hpull, hpull⟩

/-- Two bytes across the end of a buffer of three, to a buffer of four that goes round after the first. -/
theorem bundle_transfers_round :
    Transferred ⟨⟨1, 2, 1, 3, 0, 1, 0⟩, fun _ => 7⟩ ⟨⟨3, 2, 1, 4, 0, 1, 0⟩, fun _ => 0⟩
        (pushCircleBuffBundle ⟨⟨3, 2, 1, 4, 0, 1, 0⟩, fun _ => 0⟩ ⟨⟨1, 2, 1, 3, 0, 1, 0⟩, fun _ => 7⟩).1
        (pushCircleBuffBundle ⟨⟨3, 2, 1, 4, 0, 1, 0⟩, fun _ => 0⟩ ⟨⟨1, 2, 1, 3, 0, 1, 0⟩, fun _ => 7⟩).2.2
        (pushCircleBuffBundle ⟨⟨3, 2, 1, 4, 0, 1, 0⟩, fun _ => 0⟩ ⟨⟨1, 2, 1, 3, 0, 1, 0⟩, fun _ => 7⟩).2.1 ∧
      Transferred ⟨⟨1, 2, 1, 3, 0, 1, 0⟩, fun _ => 7⟩ ⟨⟨3, 2, 1, 4, 0, 1, 0⟩, fun _ => 0⟩
        (pullCircleBuffBundle ⟨⟨1, 2, 1, 3, 0, 1, 0⟩, fun _ => 7⟩ ⟨⟨3, 2, 1, 4, 0, 1, 0⟩, fun _ => 0⟩).1
        (pullCircleBuffBundle ⟨⟨1, 2, 1, 3, 0, 1, 0⟩, fun _ => 7⟩ ⟨⟨3, 2, 1, 4, 0, 1, 0⟩, fun _ => 0⟩).2.1
        (pullCircleBuffBundle ⟨⟨1, 2, 1, 3, 0, 1, 0⟩, fun _ => 7⟩ ⟨⟨3, 2, 1, 4, 0, 1, 0⟩, fun _ => 0⟩).2.2 :=
  bundle_transfers ⟨⟨1, 2, 1, 3, 0, 1, 0⟩, fun _ => 7⟩ ⟨⟨3, 2, 1, 4, 0, 1, 0⟩, fun _ => 0⟩ (by decide) (by decide)
    (by decide) (by decide)

end VirtualForce
