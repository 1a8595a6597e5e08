import VirtualForce.RingItem
import VirtualForce.Runs
import VirtualForce.Fifo
/-!
# RingQueue — an aligned ring is a bounded queue

Over any sequence of item pushes and pulls, a ring whose item size divides its buffer size answers as a first-in
first-out queue of `L / e - 1` items does, and holds between its head and its tail what the queue holds.
-/
namespace VirtualForce

open Memory Slots Runs Fifo

inductive RingOp where
  | push (src : Mem UInt8)
  | pull (dst : Mem UInt8)

inductive RingRet where
  | pushed (ret : Int)
  | pulled (ret : Int) (dst : Mem UInt8)

def ringStep (r : Ring) : RingOp → Ring × RingRet
  | .push src => ((pushCircleBuffItem r src).2, .pushed (pushCircleBuffItem r src).1.toInt)
  | .pull dst => ((pullCircleBuffItem r dst).2.1,
      .pulled (pullCircleBuffItem r dst).1.toInt (pullCircleBuffItem r dst).2.2)

/-- **The purpose of the ring**: a bounded queue of items of `e` bytes. -/
def queueStep {cap : Nat} (e : Nat) (q : Queue (List UInt8) cap) : RingOp → Queue (List UInt8) cap × RingRet
  | .push src => ((q.push (slice src 0 e)).2, .pushed (if (q.push (slice src 0 e)).1 then e else -1))
  | .pull dst => (q.pop.2, match q.pop.1 with
      | none => .pulled (-1) dst
      | some x => .pulled 0 (put dst 0 x))

/-! ## What a ring holds, read off its offsets -/

def BufferInfo.unreadBytes (b : BufferInfo) : Nat :=
  ((b.tailIndexOffset.toInt + (b.buffLength.toInt - b.headIndexOffset.toInt)) % b.buffLength.toInt).toNat

/-- Offset `x` is between the head and the tail, going round. -/
def BufferInfo.Unread (b : BufferInfo) (x : Int) : Prop :=
  ∃ j : Nat, j < b.unreadBytes ∧ x = (b.headIndexOffset.toInt + j) % b.buffLength.toInt

def Ring.unreadItems (r : Ring) : List (List UInt8) :=
  (List.range (r.info.unreadBytes / r.info.elementLength.toInt.toNat)).map (fun k : Nat =>
    slice r.buff ((r.info.headIndexOffset.toInt + k * r.info.elementLength.toInt) % r.info.buffLength.toInt)
      r.info.elementLength.toInt.toNat)

/-- **What no call of a run breaks**, `b` being the control block it started from: the other control fields are
unchanged, the offsets are multiples of the item size inside the buffer, the copy an accepted call makes is inside the
buffer, an accepted push writes no unread byte, and a refused call changes nothing. -/
structure RingSafe (e L : Nat) (b : BufferInfo) (r : Ring) : Prop where
  control : r.info.control = b.control
  head_aligned : ∃ i : Nat, i * e < L ∧ r.info.headIndexOffset.toInt = (i * e : Nat)
  tail_aligned : ∃ i : Nat, i * e < L ∧ r.info.tailIndexOffset.toInt = (i * e : Nat)
  push_inside : isBuffFull r.info = false → r.info.tailIndexOffset.toInt + e ≤ L
  pull_inside : isBuffEmpty r.info = false → r.info.headIndexOffset.toInt + e ≤ L
  push_fresh : isBuffFull r.info = false → ∀ x, r.info.Unread x →
    x < r.info.tailIndexOffset.toInt ∨ r.info.tailIndexOffset.toInt + e ≤ x
  push_refused : isBuffFull r.info = true → ∀ src, ringStep r (.push src) = (r, .pushed (-1))
  pull_refused : isBuffEmpty r.info = true → ∀ dst, ringStep r (.pull dst) = (r, .pulled (-1) dst)
  pull_keeps : ∀ dst, (ringStep r (.pull dst)).1.buff = r.buff

section

variable {e L a : Nat} {r : Ring} {items : List (List UInt8)}

theorem Turned.unreadBytes_eq {q p : Nat} {b : BufferInfo} (T : Turned e L q p b) (hd : e ∣ L) :
    b.unreadBytes = (p - q) * e := by
  have hshort := T.short
  have hle := T.le
  rw [div_gcd_of_dvd hd] at hshort
  have hgap := slot_gap (L := L) hle (mul_lt_of_lt_div T.at_.elem_pos (by omega))
  have hhead := Nat.le_of_lt T.at_.head_lt
  unfold BufferInfo.unreadBytes
  rw [T.at_.tail, T.at_.len, T.at_.head, ← Int.ofNat_sub hhead, ← Int.natCast_add, ← Int.natCast_emod, hgap]
  exact Int.toNat_natCast _

theorem Holds.unreadBytes_eq (H : Holds e L a r items) (hd : e ∣ L) :
    r.info.unreadBytes = items.length * e := by
  rw [H.turned.unreadBytes_eq hd, Nat.add_sub_cancel_left]

theorem Holds.unreadItems_eq (H : Holds e L a r items) (hd : e ∣ L) : r.unreadItems = items := by
  have hn : r.info.unreadBytes / r.info.elementLength.toInt.toNat = items.length := by
    rw [H.unreadBytes_eq hd, H.at_.elem, Int.toNat_natCast, Nat.mul_div_cancel _ H.at_.elem_pos]
  unfold Ring.unreadItems
  rw [hn]
  apply List.ext_getElem (by simp)
  intro k h1 h2
  rw [List.getElem_map, List.getElem_range, H.at_.head, H.at_.elem, H.at_.len, Int.toNat_natCast, ← H.stored k h2,
    ← slot_from]
  congr 1

theorem Holds.unread_slot (H : Holds e L a r items) (hd : e ∣ L) {x : Int} (hx : r.info.Unread x) :
    ∃ k, k < items.length ∧ (slot e L (a + k) : Int) ≤ x ∧ x < slot e L (a + k) + e := by
  obtain ⟨j, hj, rfl⟩ := hx
  rw [H.unreadBytes_eq hd] at hj
  have hk : j / e < items.length := (Nat.div_lt_iff_lt_mul H.at_.elem_pos).2 hj
  have hr : j % e < e := Nat.mod_lt _ H.at_.elem_pos
  refine ⟨j / e, hk, ?_⟩
  rw [H.at_.head, H.at_.len, ← Int.natCast_add, ← Int.natCast_emod, slot_byte H.at_.elem_pos H.at_.len_pos hd]
  omega

theorem Holds.fresh (H : Holds e L a r items) (hd : e ∣ L) (k : Nat) (hk : k < items.length) :
    slot e L (a + k) + e ≤ slot e L (a + items.length) ∨ slot e L (a + items.length) + e ≤ slot e L (a + k) := by
  have hs := H.short
  rw [div_gcd_of_dvd hd] at hs
  exact slot_disjoint H.at_.len_pos hd (by omega) (by omega)

theorem slot_aligned (hL : 0 < L) (hd : e ∣ L) (k : Nat) : ∃ i : Nat, i * e < L ∧ slot e L k = i * e := by
  have := slot_lt (e := e) k hL
  rw [slot_of_dvd hd] at this
  exact ⟨_, this, slot_of_dvd hd k⟩

theorem Holds.safe (H : Holds e L a r items) (hd : e ∣ L) {b : BufferInfo} (hc : r.info.control = b.control) :
    RingSafe e L b r where
  control := hc
  head_aligned := by
    obtain ⟨i, hi, h⟩ := slot_aligned H.at_.len_pos hd a
    exact ⟨i, hi, by rw [H.at_.head, h]⟩
  tail_aligned := by
    obtain ⟨i, hi, h⟩ := slot_aligned H.at_.len_pos hd (a + items.length)
    exact ⟨i, hi, by rw [H.at_.tail, h]⟩
  push_inside := fun _ => by
    have := slot_add_le H.at_.elem_pos H.at_.len_pos hd (a + items.length)
    rw [H.at_.tail]; omega
  pull_inside := fun _ => by
    have := slot_add_le H.at_.elem_pos H.at_.len_pos hd a
    rw [H.at_.head]; omega
  push_fresh := fun _ x hx => by
    obtain ⟨k, hk, h1, h2⟩ := H.unread_slot hd hx
    have := H.fresh hd k hk
    rw [H.at_.tail]; omega
  push_refused := fun hf src => by
    simp only [ringStep, Holds.push_full r src hf]; rfl
  pull_refused := fun he dst => by
    simp only [ringStep, Holds.pull_empty r dst he]; rfl
  pull_keeps := fun dst => by
    simp only [ringStep, pullCircleBuffItem]
    split <;> rfl

end

/-- **An aligned ring starts empty** where its head and tail are one multiple of the item size. -/
theorem Holds.start {b : BufferInfo} {m : Mem UInt8} {e L i : Nat} (he : 0 < e) (hd : e ∣ L) (hL : L ≤ 2 ^ 30)
    (hbe : b.elementLength.toInt = e) (hbL : b.buffLength.toInt = L) (hi : i * e < L)
    (hh : b.headIndexOffset.toInt = (i * e : Nat)) (ht : b.tailIndexOffset.toInt = (i * e : Nat)) :
    Holds e L i ⟨b, m⟩ [] := by
  have hLpos : 0 < L := Nat.lt_of_le_of_lt (Nat.zero_le _) hi
  have hslot : slot e L i = i * e := Nat.mod_eq_of_lt hi
  have hle : e ≤ 2 ^ 30 := Nat.le_trans (Nat.le_of_dvd hLpos hd) hL
  refine ⟨⟨hbe, hbL, ?_, ?_, he, hle, hL, slot_lt _ hLpos, slot_lt _ hLpos⟩, ?_, stored_nil _ _⟩
  · rw [hslot]; exact hh
  · rw [List.length_nil, Nat.add_zero, hslot]; exact ht
  · rw [div_gcd_of_dvd hd]; exact Nat.div_pos (Nat.le_of_dvd hLpos hd) he

section

variable {e L : Nat} {b : BufferInfo} {r : Ring}

theorem RingSafe.sizes (S : RingSafe e L b r) : r.info.elementLength = b.elementLength ∧ r.info.buffLength = b.buffLength := by
  have hc := S.control
  simp only [BufferInfo.control, Prod.mk.injEq] at hc
  exact ⟨hc.1, hc.2.1⟩

/-- **Inside is what it says**: no call writes a byte outside the buffer. -/
theorem RingSafe.keeps_outside (S : RingSafe e L b r) (he : 0 < e) (hbe : b.elementLength.toInt = e)
    (hbL : b.buffLength.toInt = L) (op : RingOp) {x : Int} (hx : x < 0 ∨ L ≤ x) : (ringStep r op).1.buff x = r.buff x := by
  obtain ⟨helem, hlen⟩ := S.sizes
  rw [← helem] at hbe
  rw [← hlen] at hbL
  cases op with
  | push src =>
    refine (pushCircleBuffItem_keeps_iff (by omega)).2 (fun hf => ?_) src x (by omega)
    obtain ⟨i, -, htail⟩ := S.tail_aligned
    have hin := S.push_inside hf
    omega
  | pull dst => rw [S.pull_keeps dst]

/-- **And no pull reads one.** -/
theorem RingSafe.reads_inside (S : RingSafe e L b r) (he : 0 < e) (hbe : b.elementLength.toInt = e)
    (hbL : b.buffLength.toInt = L) (dst m : Mem UInt8) (hm : ∀ x : Int, 0 ≤ x → x < L → m x = r.buff x) :
    (pullCircleBuffItem ⟨r.info, m⟩ dst).2.2 = (pullCircleBuffItem r dst).2.2 := by
  obtain ⟨helem, hlen⟩ := S.sizes
  rw [← helem] at hbe
  rw [← hlen] at hbL
  refine (pullCircleBuffItem_reads_iff dst (by omega)).2 (fun hne => ?_) m (by rwa [hbL])
  obtain ⟨i, -, hhead⟩ := S.head_aligned
  have hin := S.pull_inside hne
  omega

end

/-! ## The simulation -/

def RingRel (e L : Nat) (b : BufferInfo) (r : Ring) (q : Queue (List UInt8) (L / e - 1)) : Prop :=
  r.info.control = b.control ∧ ∃ a, Holds e L a r q.items

theorem pushCircleBuffItem_control (r : Ring) (src : Mem UInt8) :
    (pushCircleBuffItem r src).2.info.control = r.info.control := by
  simp only [pushCircleBuffItem]
  split <;> rfl

theorem pullCircleBuffItem_control (r : Ring) (dst : Mem UInt8) :
    (pullCircleBuffItem r dst).2.1.info.control = r.info.control := by
  simp only [pullCircleBuffItem]
  split <;> rfl

/-- **One call answers as the queue does.** -/
theorem ringStep_sim {e L : Nat} (hd : e ∣ L) {b : BufferInfo} (r : Ring) (q : Queue (List UInt8) (L / e - 1))
    (op : RingOp) (h : RingRel e L b r q) :
    RingRel e L b (ringStep r op).1 (queueStep e q op).1 ∧ (ringStep r op).2 = (queueStep e q op).2 := by
  obtain ⟨hc, a, H⟩ := h
  have hN : 0 < L / e := Nat.div_pos (Nat.le_of_dvd H.at_.len_pos hd) H.at_.elem_pos
  cases op with
  | push src =>
    simp only [ringStep, queueStep]
    by_cases hf : isBuffFull r.info = true
    · -- full: fewer than `L / e - 1` items does not hold
      have hlen := H.full_iff.1 hf
      rw [div_gcd_of_dvd hd] at hlen
      rw [Holds.push_full r src hf, Queue.push_of_full q _ (by omega)]
      exact ⟨⟨hc, a, H⟩, rfl⟩
    · have hlen : q.items.length < L / e - 1 := by
        have := H.full_iff.not.1 hf
        have := H.short
        rw [div_gcd_of_dvd hd] at *
        omega
      obtain ⟨hret, H'⟩ := H.push src (by simpa using hf) (H.fresh hd)
      obtain ⟨hok, hitems⟩ := Queue.push_of_lt q (slice src 0 e) hlen
      refine ⟨⟨(pushCircleBuffItem_control r src).trans hc, a, by rwa [hitems]⟩, ?_⟩
      rw [hret, hok, H.at_.elem, if_pos rfl]
  | pull dst =>
    simp only [ringStep, queueStep]
    cases hq : q.items with
    | nil =>
      have he := H.empty_iff.2 hq
      rw [Holds.pull_empty r dst he, Queue.pop_nil q hq]
      exact ⟨⟨hc, a, H⟩, rfl⟩
    | cons x xs =>
      rw [hq] at H
      obtain ⟨hret, hdst, H'⟩ := H.pull dst
      obtain ⟨hsome, hitems⟩ := Queue.pop_cons q hq
      refine ⟨⟨(pullCircleBuffItem_control r dst).trans hc, a + 1, by rwa [hitems]⟩, ?_⟩
      rw [hret, hdst, hsome]
      rfl

/-- **No run writes a byte outside the buffer.** -/
theorem RingRel.feed_keeps_outside {e L : Nat} (he : 0 < e) (hd : e ∣ L) {b : BufferInfo} (hbe : b.elementLength.toInt = e)
    (hbL : b.buffLength.toInt = L) {r : Ring} {q : Queue (List UInt8) (L / e - 1)} (R : RingRel e L b r q)
    (ops : List RingOp) {x : Int} (hx : x < 0 ∨ L ≤ x) : (feed ringStep r ops).1.buff x = r.buff x := by
  refine (feed_inv (I := fun s (_ : List RingRet) => (∃ q, RingRel e L b s q) ∧ s.buff x = r.buff x) ?_ ops r []
    ⟨⟨q, R⟩, rfl⟩).2
  rintro s - op ⟨⟨q, R⟩, hsame⟩
  obtain ⟨hc, a, H⟩ := R
  exact ⟨⟨_, (ringStep_sim hd s q op ⟨hc, a, H⟩).1⟩,
    ((H.safe hd hc).keeps_outside he hbe hbL op hx).trans hsame⟩

/-- **The ring after a run, beside the queue after the same calls.** -/
structure RefinesQueue (e L : Nat) (b : BufferInfo) (m : Mem UInt8) (ops : List RingOp) : Prop where
  answers : (feed ringStep ⟨b, m⟩ ops).2 = (feed (queueStep e) (Queue.empty : Queue (List UInt8) (L / e - 1)) ops).2
  contents : (feed ringStep ⟨b, m⟩ ops).1.unreadItems =
    (feed (queueStep e) (Queue.empty : Queue (List UInt8) (L / e - 1)) ops).1.items
  safe : RingSafe e L b (feed ringStep ⟨b, m⟩ ops).1

/-- **An aligned ring refines a bounded queue**: from `head = tail` at a multiple of the item size, over every sequence
of calls. -/
theorem ring_refines_queue (b : BufferInfo) (m : Mem UInt8) (e L i : Nat) (he : 0 < e) (hd : e ∣ L)
    (hL : L ≤ 2 ^ 30) (hbe : b.elementLength.toInt = e) (hbL : b.buffLength.toInt = L) (hi : i * e < L)
    (hh : b.headIndexOffset.toInt = (i * e : Nat)) (ht : b.tailIndexOffset.toInt = (i * e : Nat))
    (ops : List RingOp) : RefinesQueue e L b m ops := by
  have H0 := Holds.start (m := m) he hd hL hbe hbL hi hh ht
  obtain ⟨⟨hc, a, H⟩, hans⟩ := feed_sim (R := RingRel e L b) (fun r q op h => ringStep_sim hd r q op h) ops
    ⟨b, m⟩ Queue.empty ⟨rfl, i, H0⟩
  exact ⟨hans, H.unreadItems_eq hd, H.safe hd hc⟩

/-- The ring of `shmem_init`: two slots of 2048 bytes. -/
theorem ring_refines_queue_shmem :
    RefinesQueue 2048 4096 ⟨0, 0, 2048, 4096, 0, 1, 0⟩ (fun _ => 0)
      [.push (fun _ => 7), .push (fun _ => 8), .pull (fun _ => 0), .pull (fun _ => 0)] :=
  ring_refines_queue _ _ 2048 4096 0 (by decide) (by decide) (by decide) (by decide) (by decide) (by decide)
    (by decide) (by decide) _

end VirtualForce
