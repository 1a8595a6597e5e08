import Mathlib.Data.List.Infix
import VirtualForce.RingPusher
/-!
# RingSpsc — one pusher and one puller, no lock

The steps of `pull_circle_buff_item` (tail and head read for the empty test, a byte a step, the head store) interleaved
in any way with those of the pusher.  A tail the puller has read may be stale, but only ever too small; the slot it
copies from is published and not released, so no step of the pusher writes it.
-/
namespace VirtualForce

open Memory Slots Runs

inductive Puller where
  | idle
  | tailRead (dst : Mem UInt8) (tail : Int32)
  | copying (dst : Mem UInt8) (i : Nat)

/-- The two processes; `delivered` is what the completed pulls have put at their `pull_ptr`, in order. -/
structure Spsc where
  shared : Shared
  puller : Puller
  delivered : List (List UInt8)

def Spsc.init (r : Ring) : Spsc := ⟨⟨r, .idle, []⟩, .idle, []⟩

inductive SpscAct where
  | push (act : PushAct)
  | readTail (dst : Mem UInt8)
  | readHead
  | copyByte
  | storeHead

def Spsc.step (s : Spsc) : SpscAct → Option Spsc
  | .push act => (s.shared.push act).map (fun sh => { s with shared := sh })
  | .readTail dst => match s.puller with
    | .idle => some { s with puller := .tailRead dst s.shared.ring.info.tailIndexOffset }
    | _ => none
  | .readHead => match s.puller with
    | .tailRead dst tail =>
      if tail = s.shared.ring.info.headIndexOffset then some { s with puller := .idle }
      else some { s with puller := .copying dst 0 }
    | _ => none
  | .copyByte => match s.puller with
    | .copying dst i =>
      if (i : Int) < s.shared.ring.info.elementLength.toInt then
        let dst' := set dst i (s.shared.ring.buff (s.shared.ring.info.headIndexOffset.toInt + i))
        some { s with puller := .copying dst' (i + 1) }
      else none
    | _ => none
  | .storeHead => match s.puller with
    | .copying dst i =>
      if (i : Int) < s.shared.ring.info.elementLength.toInt then none
      else some {
        shared := s.shared.storeHead ((s.shared.ring.info.headIndexOffset + s.shared.ring.info.elementLength) %
          s.shared.ring.info.buffLength)
        puller := .idle
        delivered := s.delivered ++ [slice dst 0 s.shared.ring.info.elementLength.toInt.toNat] }
    | _ => none

/-! ## The steps together are the call -/

def pullActs (dst : Mem UInt8) (e : Nat) : List SpscAct :=
  .readTail dst :: .readHead :: (List.replicate e .copyByte ++ [.storeHead])

theorem run_copyOut (s : Spsc) (dst : Mem UInt8) : ∀ (n i : Nat),
    ((i + n : Nat) : Int) ≤ s.shared.ring.info.elementLength.toInt →
    s.puller = .copying (memcpy dst 0 s.shared.ring.buff s.shared.ring.info.headIndexOffset.toInt i) i →
    run Spsc.step s (List.replicate n .copyByte) = some { s with
      puller := .copying (memcpy dst 0 s.shared.ring.buff s.shared.ring.info.headIndexOffset.toInt (i + n : Nat)) (i + n) }
  | 0, i, _, hp => by
    rw [List.replicate_zero, run_nil, Nat.add_zero, ← hp]
  | n + 1, i, hn, hp => by
    have hstep : s.step .copyByte = some { s with
        puller := .copying (memcpy dst 0 s.shared.ring.buff s.shared.ring.info.headIndexOffset.toInt (i + 1 : Nat)) (i + 1) } := by
      simp only [Spsc.step, hp]
      have hset := set_memcpy dst 0 s.shared.ring.buff s.shared.ring.info.headIndexOffset.toInt i
      rw [Int.zero_add] at hset
      rw [if_pos (by omega), hset]
    have hrest := run_copyOut { s with
        puller := .copying (memcpy dst 0 s.shared.ring.buff s.shared.ring.info.headIndexOffset.toInt (i + 1 : Nat)) (i + 1) }
      dst n (i + 1) (by simp only; omega) rfl
    rw [List.replicate_succ, run_cons, hstep, Option.bind_some, hrest, show i + 1 + n = i + (n + 1) by omega]

/-- **Uninterrupted, the steps of an accepted pull are `pull_circle_buff_item`.** -/
theorem run_pull_uninterrupted (s : Spsc) (dst : Mem UInt8) (e : Nat) (hi : s.puller = .idle)
    (he : s.shared.ring.info.elementLength.toInt = e) (hne : isBuffEmpty s.shared.ring.info = false) :
    run Spsc.step s (pullActs dst e) = some ⟨{ s.shared with ring := (pullCircleBuffItem s.shared.ring dst).2.1 }, .idle,
      s.delivered ++ [slice (pullCircleBuffItem s.shared.ring dst).2.2 0 e]⟩ := by
  have hdiff : ¬ s.shared.ring.info.tailIndexOffset = s.shared.ring.info.headIndexOffset := by simpa [isBuffEmpty] using hne
  have hcopy := run_copyOut { s with puller := .copying dst 0 } dst e 0 (by simp [he])
    (by simp only; congr 1; funext x; simp [memcpy])
  have h1 : s.step (.readTail dst) = some { s with puller := .tailRead dst s.shared.ring.info.tailIndexOffset } := by
    simp only [Spsc.step, hi]
  have h2 : Spsc.step { s with puller := .tailRead dst s.shared.ring.info.tailIndexOffset } .readHead =
      some { s with puller := .copying dst 0 } := by
    simp only [Spsc.step]
    rw [if_neg hdiff]
  rw [pullActs, run_cons, h1, Option.bind_some, run_cons, h2, Option.bind_some, run_append, hcopy, Option.bind_some, run_cons]
  simp only [Spsc.step, Nat.zero_add, he, Int.lt_irrefl, if_false, Option.bind_some, run_nil, Shared.storeHead, Ring.storeHead,
    pullCircleBuffItem, hne, Bool.false_eq_true, Int.toNat_natCast]

/-! ## What holds at every point -/

/-- What the puller knows at each point: a tail it has read is a tail the ring had, and past the empty test the oldest
item is still there, its first bytes copied. -/
def PullerOk (e L a : Nat) (s : Spsc) : Prop :=
  match s.puller with
  | .idle => True
  | .tailRead _ tail => ∃ p, s.delivered.length ≤ p ∧ p ≤ s.shared.published.length ∧ tail.toInt = slot e L (a + p)
  | .copying dst i => s.delivered.length < s.shared.published.length ∧ i ≤ e ∧
      ∀ j : Nat, j < i → dst j = s.shared.ring.buff (slot e L (a + s.delivered.length) + j)

structure SpscInv (e L a : Nat) (s : Spsc) : Prop where
  pusher : PushInv e L a s.delivered.length s.shared
  delivered : s.delivered <+: s.shared.published
  puller : PullerOk e L a s

theorem SpscInv.push {e L a : Nat} {s : Spsc} (I : SpscInv e L a s) {act : PushAct} {sh : Shared}
    (h : s.shared.push act = some sh) : SpscInv e L a { s with shared := sh } := by
  obtain ⟨I', hpub, -, -, hkeep⟩ := I.pusher.push h
  refine ⟨I', I.delivered.trans hpub, ?_⟩
  have hok := I.puller
  have hlen := hpub.length_le
  unfold PullerOk at hok ⊢
  simp only
  cases hp : s.puller with
  | idle => trivial
  | tailRead dst tail =>
    rw [hp] at hok
    obtain ⟨p, h1, h2, h3⟩ := hok
    exact ⟨p, h1, Nat.le_trans h2 hlen, h3⟩
  | copying dst i =>
    rw [hp] at hok
    obtain ⟨h1, h2, h3⟩ := hok
    refine ⟨Nat.lt_of_lt_of_le h1 hlen, h2, fun j hj => ?_⟩
    rw [h3 j hj]
    exact (hkeep _ (Nat.le_refl _) h1 j (by omega)).symm

/-- **Every step keeps the invariant.** -/
theorem SpscInv.step {e L a : Nat} (s : Spsc) (act : SpscAct) (s' : Spsc) (I : SpscInv e L a s)
    (h : s.step act = some s') : SpscInv e L a s' := by
  have hat := I.pusher.at_
  cases act with
  | push act =>
    simp only [Spsc.step, Option.map_eq_some_iff] at h
    obtain ⟨sh, hsh, rfl⟩ := h
    exact I.push hsh
  | readTail dst =>
    simp only [Spsc.step] at h
    split at h
    · cases h
      exact ⟨I.pusher, I.delivered, _, I.pusher.le, Nat.le_refl _, hat.tail⟩
    · cases h
  | readHead =>
    simp only [Spsc.step] at h
    split at h
    · rename_i dst tail hp
      have hok := I.puller
      rw [PullerOk, hp] at hok
      obtain ⟨p, hqp, hpn, htail⟩ := hok
      split at h
      · cases h
        exact ⟨I.pusher, I.delivered, trivial⟩
      · -- a tail that is not the head, however stale, is the tail of a longer ring
        rename_i hne
        cases h
        refine ⟨I.pusher, I.delivered, ?_, Nat.zero_le _, fun j hj => by omega⟩
        simp only
        by_contra hle
        have hpq : p = s.delivered.length := by omega
        exact hne (Int32.toInt_inj.1 (by rw [htail, hpq, hat.head]))
    · cases h
  | copyByte =>
    simp only [Spsc.step] at h
    split at h
    · rename_i dst i hp
      have hok := I.puller
      rw [PullerOk, hp] at hok
      obtain ⟨hlt, hie, hcopied⟩ := hok
      split at h
      · rename_i hi
        rw [hat.elem] at hi
        cases h
        refine ⟨I.pusher, I.delivered, hlt, by omega, fun j hj => ?_⟩
        simp only
        by_cases hji : j = i
        · subst hji
          rw [set_self, hat.head]
        · rw [set_of_ne _ _ (by omega)]
          exact hcopied j (by omega)
      · cases h
    · cases h
  | storeHead =>
    simp only [Spsc.step] at h
    split at h
    · rename_i dst i hp
      have hok := I.puller
      rw [PullerOk, hp] at hok
      obtain ⟨hlt, hie, hcopied⟩ := hok
      split at h
      · cases h
      · rename_i hi
        rw [hat.elem] at hi
        have hie' : i = e := by omega
        subst hie'
        cases h
        -- the bytes copied are the oldest item
        have hitem : slice dst 0 i = s.shared.published[s.delivered.length] := by
          rw [← I.pusher.slice_published (Nat.le_refl _) hlt, slice_eq_iff]
          intro j hj
          simpa using hcopied j hj
        have hhead := hat.pull.head
        rw [slot_succ] at hhead
        refine ⟨?_, ?_, trivial⟩
        · rw [List.length_append, List.length_singleton]
          exact I.pusher.release (Nat.le_succ _) hlt _ hhead
        · rw [hat.elem, Int.toNat_natCast, hitem]
          exact List.concat_get_prefix I.delivered hlt
    · cases h

/-- **What every state of the two processes is safe from**: the items delivered are a prefix of the items published,
each a whole published item, and the byte the pusher writes next is in no item published and not released. -/
structure SpscSafe (s : Spsc) : Prop where
  in_order : s.delivered <+: s.shared.published
  whole : ∀ x ∈ s.delivered, x ∈ s.shared.published
  apart : ∀ (item : Mem UInt8) (i : Nat), s.shared.pusher = .copying item i →
    (i : Int) < s.shared.ring.info.elementLength.toInt →
    ¬ s.shared.ring.info.Unread (s.shared.ring.info.tailIndexOffset.toInt + i)

theorem SpscInv.safe {e L a : Nat} {s : Spsc} (I : SpscInv e L a s) : SpscSafe s where
  in_order := I.delivered
  whole := fun _ hx => I.delivered.subset hx
  apart := fun item i hp hi hx => by
    have hat := I.pusher.at_
    obtain ⟨k, hk, h1, h2⟩ := I.pusher.holds.unread_slot I.pusher.dvd hx
    rw [List.length_drop] at hk
    have hd := I.pusher.fresh (k := s.delivered.length + k) (by omega) (by omega)
    rw [← Nat.add_assoc] at hd
    rw [hat.elem] at hi
    rw [hat.tail] at h1 h2
    omega

/-- **The item ring is safe for one pusher and one puller without a lock**, over every interleaving of their steps, from
an empty ring at an aligned offset. -/
theorem ring_spsc (b : BufferInfo) (m : Mem UInt8) (e L i : Nat) (he : 0 < e) (hd : e ∣ L) (hL : L ≤ 2 ^ 30)
    (hbe : b.elementLength.toInt = e) (hbL : b.buffLength.toInt = L) (hi : i * e < L)
    (hh : b.headIndexOffset.toInt = (i * e : Nat)) (ht : b.tailIndexOffset.toInt = (i * e : Nat))
    (acts : List SpscAct) (s : Spsc) (hrun : run Spsc.step (Spsc.init ⟨b, m⟩) acts = some s) : SpscSafe s := by
  have H0 := Holds.start (m := m) he hd hL hbe hbL hi hh ht
  have I0 : SpscInv e L i (Spsc.init ⟨b, m⟩) :=
    ⟨⟨hd, Nat.le_refl _, H0, trivial⟩, List.prefix_rfl, trivial⟩
  exact (run_inv SpscInv.step acts _ _ I0 hrun).safe

/-- Three slots of two bytes: the first item is copied out and released while the second is being copied in, and the
third is half copied. -/
theorem ring_spsc_overlapping : ∃ s : Spsc,
    run Spsc.step (Spsc.init ⟨⟨0, 0, 2, 6, 0, 1, 0⟩, fun _ => 0⟩)
      ((pushActs (put (fun _ => 0) 0 [5, 6]) 2).map .push ++
        [.readTail (fun _ => 0), .push (.readTail (put (fun _ => 0) 0 [7, 8])), .push .readHead, .readHead,
          .push .copyByte, .copyByte, .copyByte, .storeHead, .push .copyByte, .push .storeTail,
          .push (.readTail (put (fun _ => 0) 0 [9, 10])), .push .readHead, .push .copyByte]) = some s ∧
      SpscSafe s ∧ s.delivered = [[5, 6]] ∧ s.shared.published = [[5, 6], [7, 8]] ∧
      (s.step (.push .copyByte)).isSome = true :=
  exists_run_check (by decide +kernel) (fun s hs _ => ring_spsc ⟨0, 0, 2, 6, 0, 1, 0⟩ (fun _ => 0) 2 6 0 (by decide)
    (by decide) (by decide) (by decide) (by decide) (by decide) (by decide) (by decide) _ s hs)

end VirtualForce
