import VirtualForce.RingQueue
/-!
# RingCapacity — item rings of any sizes

The item size need not divide the buffer size.  The tests compare offsets only, yet over any run they count the items:
full is `L / gcd e L - 1` unread, empty is none (`ring_counts`).  Whether the copies stay inside the buffer is another
matter: they do, over every run, exactly when one size divides the other (`memory_safe_iff`).
-/
namespace VirtualForce

open Memory Slots Runs

def RingRet.isPush : RingRet → Bool
  | .pushed ret => ret != -1
  | .pulled _ _ => false

def RingRet.isPull : RingRet → Bool
  | .pushed _ => false
  | .pulled ret _ => ret != -1

/-- The pushes accepted, and the pulls. -/
def pushes (answers : List RingRet) : Nat := answers.countP RingRet.isPush

def pulls (answers : List RingRet) : Nat := answers.countP RingRet.isPull

theorem pushes_snoc (l : List RingRet) (x : RingRet) : pushes (l ++ [x]) = pushes l + if x.isPush then 1 else 0 := by
  rw [pushes, List.countP_append, List.countP_singleton]
  rfl

theorem pulls_snoc (l : List RingRet) (x : RingRet) : pulls (l ++ [x]) = pulls l + if x.isPull then 1 else 0 := by
  rw [pulls, List.countP_append, List.countP_singleton]
  rfl

/-- **One call**: the offsets count it if it was accepted. -/
theorem Turned.call {e L q p : Nat} {r : Ring} (T : Turned e L q p r.info) (op : RingOp) :
    Turned e L (q + if (ringStep r op).2.isPull then 1 else 0) (p + if (ringStep r op).2.isPush then 1 else 0)
      (ringStep r op).1.info := by
  cases op with
  | push src =>
    cases hf : isBuffFull r.info with
    | true =>
      have hret : ringStep r (.push src) = (r, .pushed (-1)) := by
        simp only [ringStep, Holds.push_full r src hf]
        rfl
      rw [hret]
      exact T
    | false =>
      have hpos : r.info.elementLength.toInt ≠ -1 := by rw [T.at_.elem]; omega
      have hpush : (ringStep r (.push src)).2.isPush = true := by
        simp [ringStep, pushCircleBuffItem, hf, RingRet.isPush, hpos]
      have hpull : (ringStep r (.push src)).2.isPull = false := rfl
      rw [hpush, hpull]
      simpa [ringStep, pushCircleBuffItem, hf] using T.push hf
  | pull dst =>
    cases he : isBuffEmpty r.info with
    | true =>
      have hret : ringStep r (.pull dst) = (r, .pulled (-1) dst) := by
        simp only [ringStep, Holds.pull_empty r dst he]
        rfl
      rw [hret]
      exact T
    | false =>
      have hpull : (ringStep r (.pull dst)).2.isPull = true := by
        simp [ringStep, pullCircleBuffItem, he, RingRet.isPull]
      have hpush : (ringStep r (.pull dst)).2.isPush = false := rfl
      rw [hpush, hpull]
      simpa [ringStep, pullCircleBuffItem, he] using T.pull he

/-- **Over any calls the offsets count what was accepted.** -/
theorem Turned.calls {e L q p : Nat} {r : Ring} (T : Turned e L q p r.info) (ops : List RingOp) :
    Turned e L (q + pulls (feed ringStep r ops).2) (p + pushes (feed ringStep r ops).2)
      (feed ringStep r ops).1.info := by
  have hstep : ∀ r t op, Turned e L (q + pulls t) (p + pushes t) r.info →
      Turned e L (q + pulls (t ++ [(ringStep r op).2])) (p + pushes (t ++ [(ringStep r op).2]))
        (ringStep r op).1.info := by
    intro r t op T
    rw [pulls_snoc, pushes_snoc, ← Nat.add_assoc, ← Nat.add_assoc]
    exact T.call op
  exact feed_inv (I := fun r t => Turned e L (q + pulls t) (p + pushes t) r.info) hstep ops r []
    (by simpa [pulls, pushes] using T)

/-! ## What the tests count -/

/-- **The ring after `p` accepted pushes and `q` accepted pulls.** -/
structure RingCounts (e L p q : Nat) (b : BufferInfo) : Prop where
  tail : b.tailIndexOffset.toInt = (p * e % L : Nat)
  head : b.headIndexOffset.toInt = (q * e % L : Nat)
  le : q ≤ p
  unread_le : p - q ≤ L / Nat.gcd e L - 1
  full_iff : isBuffFull b = true ↔ p - q = L / Nat.gcd e L - 1
  empty_iff : isBuffEmpty b = true ↔ p = q

theorem Turned.counts {e L p q : Nat} {b : BufferInfo} (T : Turned e L q p b) : RingCounts e L p q b := by
  have hle := T.le
  have hshort := T.short
  have hfull := T.full_iff
  rw [Nat.gcd_comm] at hshort hfull
  refine ⟨T.at_.tail, T.at_.head, hle, by omega, ?_, T.empty_iff⟩
  rw [hfull]
  omega

theorem Turned.zero {b : BufferInfo} {e L : Nat} (he : 0 < e) (hL : 0 < L) (he' : e ≤ 2 ^ 30) (hL' : L ≤ 2 ^ 30)
    (hbe : b.elementLength.toInt = e) (hbL : b.buffLength.toInt = L) (hh : b.headIndexOffset.toInt = 0)
    (ht : b.tailIndexOffset.toInt = 0) : Turned e L 0 0 b := by
  have hslot : slot e L 0 = 0 := by simp [slot]
  exact Turned.start he hL he' hL' hbe hbL (by rw [hh, hslot]; rfl) (by rw [ht, hslot]; rfl)

/-- **The tests count the unread items, whatever the sizes**, over every run from offset 0. -/
theorem ring_counts (b : BufferInfo) (m : Mem UInt8) (e L : Nat) (he : 0 < e) (hL : 0 < L) (he' : e ≤ 2 ^ 30)
    (hL' : L ≤ 2 ^ 30) (hbe : b.elementLength.toInt = e) (hbL : b.buffLength.toInt = L)
    (hh : b.headIndexOffset.toInt = 0) (ht : b.tailIndexOffset.toInt = 0) (ops : List RingOp) :
    RingCounts e L (pushes (feed ringStep ⟨b, m⟩ ops).2) (pulls (feed ringStep ⟨b, m⟩ ops).2)
      (feed ringStep ⟨b, m⟩ ops).1.info := by
  have T : Turned e L 0 0 (Ring.mk b m).info := .zero he hL he' hL' hbe hbL hh ht
  have hcounts := (T.calls ops).counts
  rwa [Nat.zero_add, Nat.zero_add] at hcounts

/-- Three bytes an item in a buffer of five: four items are admitted. -/
theorem ring_counts_three_of_five :
    RingCounts 3 5 2 1 (feed ringStep ⟨⟨0, 0, 3, 5, 0, 1, 0⟩, fun _ => 0⟩
      [.push (fun _ => 7), .pull (fun _ => 0), .push (fun _ => 8)]).1.info :=
  ring_counts ⟨0, 0, 3, 5, 0, 1, 0⟩ (fun _ => 0) 3 5 (by decide) (by decide) (by decide) (by decide) (by decide)
    (by decide) (by decide) (by decide) [.push (fun _ => 7), .pull (fun _ => 0), .push (fun _ => 8)]

/-! ## Which sizes are safe -/

/-- The copy an accepted call makes is inside the buffer. -/
def Ring.CopyInside (r : Ring) : RingOp → Prop
  | .push _ => isBuffFull r.info = false →
      0 ≤ r.info.tailIndexOffset.toInt ∧ r.info.tailIndexOffset.toInt + r.info.elementLength.toInt ≤ r.info.buffLength.toInt
  | .pull _ => isBuffEmpty r.info = false →
      0 ≤ r.info.headIndexOffset.toInt ∧ r.info.headIndexOffset.toInt + r.info.elementLength.toInt ≤ r.info.buffLength.toInt

/-- **The range of an accepted push is what it writes.** -/
theorem Ring.copyInside_push_iff {r : Ring} (src : Mem UInt8) (he : 0 < r.info.elementLength.toInt) :
    r.CopyInside (.push src) ↔ ∀ src' x, x < 0 ∨ r.info.buffLength.toInt ≤ x →
      (ringStep r (.push src')).1.buff x = r.buff x :=
  (pushCircleBuffItem_keeps_iff he).symm

/-- **The range of an accepted pull is what it reads.** -/
theorem Ring.copyInside_pull_iff {r : Ring} (dst : Mem UInt8) (he : 0 < r.info.elementLength.toInt) :
    r.CopyInside (.pull dst) ↔ ∀ m, (∀ x, 0 ≤ x → x < r.info.buffLength.toInt → m x = r.buff x) →
      (ringStep ⟨r.info, m⟩ (.pull dst)).2 = (ringStep r (.pull dst)).2 := by
  have hret : ∀ m, (pullCircleBuffItem ⟨r.info, m⟩ dst).1 = (pullCircleBuffItem r dst).1 := by
    intro m
    simp only [pullCircleBuffItem]
    split <;> rfl
  simp only [ringStep, RingRet.pulled.injEq, hret, true_and]
  exact (pullCircleBuffItem_reads_iff dst he).symm

theorem Turned.copyInside {e L q p : Nat} {r : Ring} (T : Turned e L q p r.info) (hd : e ∣ L) (op : RingOp) :
    r.CopyInside op := by
  have hat := T.at_
  cases op with
  | push src =>
    have hfit := slot_add_le hat.elem_pos hat.len_pos hd p
    simp only [Ring.CopyInside, hat.tail, hat.elem, hat.len]
    omega
  | pull dst =>
    have hfit := slot_add_le hat.elem_pos hat.len_pos hd q
    simp only [Ring.CopyInside, hat.head, hat.elem, hat.len]
    omega

/-- **An item that is a multiple of the buffer is never accepted.** -/
theorem Turned.refused {e L q p : Nat} {b : BufferInfo} (T : Turned e L q p b) (hd : L ∣ e) :
    isBuffFull b = true ∧ isBuffEmpty b = true := by
  have hone : L / Nat.gcd L e = 1 := by rw [Nat.gcd_eq_left hd, Nat.div_self T.at_.len_pos]
  have hle := T.le
  have hshort := T.short
  rw [T.full_iff, T.empty_iff]
  omega

/-- Otherwise a ring with nothing in it takes an item. -/
theorem Turned.accepts {e L q : Nat} {b : BufferInfo} (T : Turned e L q q b) (hd : ¬ L ∣ e) : isBuffFull b = false := by
  have hperiod : L / Nat.gcd L e ≠ 1 := by
    intro hone
    have hgcd := Nat.div_mul_cancel (Nat.gcd_dvd_left L e)
    rw [hone, Nat.one_mul] at hgcd
    exact hd (hgcd ▸ Nat.gcd_dvd_right L e)
  rw [Bool.eq_false_iff, ne_eq, T.full_iff]
  omega

/-- Pushes and pulls in turn, `n` of each. -/
def inTurn : Nat → List RingOp
  | 0 => []
  | n + 1 => .push (fun _ => 0) :: .pull (fun _ => 0) :: inTurn n

/-- **In turn, both are accepted each time**, unless the item is a multiple of the buffer. -/
theorem Turned.inTurn {e L : Nat} (hd : ¬ L ∣ e) : ∀ (n q : Nat) (r : Ring), Turned e L q q r.info →
    Turned e L (q + n) (q + n) (feed ringStep r (inTurn n)).1.info
  | 0, _, _, T => T
  | n + 1, q, r, T => by
    have hfull := T.accepts hd
    have T1 := T.push hfull
    have hempty := T1.empty_iff.not.2 (by omega)
    rw [Bool.not_eq_true] at hempty
    have T2 := T1.pull hempty
    have hstep : (ringStep (ringStep r (.push (fun _ => 0))).1 (.pull (fun _ => 0))).1.info = { r.info with
        tailIndexOffset := (r.info.tailIndexOffset + r.info.elementLength) % r.info.buffLength
        headIndexOffset := (r.info.headIndexOffset + r.info.elementLength) % r.info.buffLength } := by
      simp only [ringStep, pushCircleBuffItem, hfull, Bool.false_eq_true, if_false, pullCircleBuffItem, hempty]
    rw [VirtualForce.inTurn, feed, feed]
    simp only
    rw [show q + (n + 1) = q + 1 + n by omega]
    exact Turned.inTurn hd n (q + 1) _ (by rw [hstep]; exact T2)

/-- **In the last slot before the end of the buffer an item does not fit**, if the item size does not divide the other. -/
theorem Turned.overrun {e L q : Nat} {r : Ring} (T : Turned e L q (L / e) r.info) (hd : ¬ e ∣ L)
    (hfull : isBuffFull r.info = false) (src : Mem UInt8) : ¬ r.CopyInside (.push src) := by
  intro h
  have hin := h hfull
  rw [T.at_.tail, T.at_.elem, T.at_.len] at hin
  have hmul : L / e * e < L := by
    refine Nat.lt_of_le_of_ne (Nat.div_mul_le_self L e) fun heq => hd ?_
    exact ⟨L / e, by rw [Nat.mul_comm]; exact heq.symm⟩
  have hlast : slot e L (L / e) = L / e * e := Nat.mod_eq_of_lt hmul
  have hover : L < L / e * e + e := Nat.lt_div_mul_add T.at_.elem_pos
  omega

/-- **Every copy of every run is inside the buffer exactly when one size divides the other**; if the item is a multiple
of the buffer, nothing is ever accepted. -/
theorem memory_safe_iff (b : BufferInfo) (m : Mem UInt8) (e L : Nat) (he : 0 < e) (hL : 0 < L) (he' : e ≤ 2 ^ 30)
    (hL' : L ≤ 2 ^ 30) (hbe : b.elementLength.toInt = e) (hbL : b.buffLength.toInt = L)
    (hh : b.headIndexOffset.toInt = 0) (ht : b.tailIndexOffset.toInt = 0) :
    ((∀ ops op, (feed ringStep ⟨b, m⟩ ops).1.CopyInside op) ↔ e ∣ L ∨ L ∣ e) ∧
      (L ∣ e → ∀ ops src, (pushCircleBuffItem (feed ringStep ⟨b, m⟩ ops).1 src).1 = -1) := by
  have T0 : Turned e L 0 0 (Ring.mk b m).info := .zero he hL he' hL' hbe hbL hh ht
  refine ⟨⟨fun h => ?_, ?_⟩, fun hd ops src => ?_⟩
  · by_contra hne
    rw [not_or] at hne
    obtain ⟨hne, hne'⟩ := hne
    have T := Turned.inTurn hne' (L / e) 0 _ T0
    rw [Nat.zero_add] at T
    exact T.overrun hne (T.accepts hne') (fun _ => 0) (h _ _)
  · rintro (hd | hd) ops op
    · exact (T0.calls ops).copyInside hd op
    · have hno := (T0.calls ops).refused hd
      cases op with
      | push src => exact fun hf => absurd hno.1 (by rw [hf]; decide)
      | pull dst => exact fun hf => absurd hno.2 (by rw [hf]; decide)
  · rw [Holds.push_full _ _ ((T0.calls ops).refused hd).1]

/-- Three bytes an item in a buffer of five are not safe, two in a buffer of four are. -/
theorem memory_safe_two_of_four :
    (∀ ops op, (feed ringStep ⟨⟨0, 0, 2, 4, 0, 1, 0⟩, fun _ => 0⟩ ops).1.CopyInside op) ∧
      ¬ ∀ ops op, (feed ringStep ⟨⟨0, 0, 3, 5, 0, 1, 0⟩, fun _ => 0⟩ ops).1.CopyInside op :=
  ⟨(memory_safe_iff ⟨0, 0, 2, 4, 0, 1, 0⟩ (fun _ => 0) 2 4 (by decide) (by decide) (by decide) (by decide) (by decide)
      (by decide) (by decide) (by decide)).1.2 (by decide),
    (memory_safe_iff ⟨0, 0, 3, 5, 0, 1, 0⟩ (fun _ => 0) 3 5 (by decide) (by decide) (by decide) (by decide) (by decide)
      (by decide) (by decide) (by decide)).1.not.2 (by decide)⟩

end VirtualForce
