import VirtualForce.RingQueue
/-!
# RingPusher — `push_circle_buff_item` one memory access at a time

A process that pushes items on a ring another process may be reading: it reads the tail and then the head for the full
test, copies the item a byte a step, and stores the new tail.  `PushInv q` says what holds at every point of it when
`q` of the items it has published have been released by a head store; each of its steps preserves it, and so does a
head store that releases more of them (`PushInv.release`).
-/
namespace VirtualForce

open Memory Slots Runs

/-! ## The stores -/

def Ring.storeTail (r : Ring) (tail : Int32) : Ring := { r with info := { r.info with tailIndexOffset := tail } }

def Ring.storeHead (r : Ring) (head : Int32) : Ring := { r with info := { r.info with headIndexOffset := head } }

def Ring.storeByte (r : Ring) (x : Int) (byte : UInt8) : Ring := { r with buff := set r.buff x byte }

@[simp] theorem Ring.storeByte_buff (r : Ring) (x : Int) (byte : UInt8) :
    (r.storeByte x byte).buff = set r.buff x byte := rfl

inductive Pusher where
  | idle
  /-- in `is_buff_full`, the tail read -/
  | tailRead (item : Mem UInt8) (tail : Int32)
  /-- past the full test, `i` bytes copied -/
  | copying (item : Mem UInt8) (i : Nat)

/-- A shared ring and its pusher; `published` is the items whose tail store has happened, oldest first. -/
structure Shared where
  ring : Ring
  pusher : Pusher
  published : List (List UInt8)

def Shared.storeHead (s : Shared) (head : Int32) : Shared := { s with ring := s.ring.storeHead head }

@[simp] theorem Shared.storeHead_pusher (s : Shared) (o : Int32) : (s.storeHead o).pusher = s.pusher := rfl
@[simp] theorem Shared.storeHead_published (s : Shared) (o : Int32) : (s.storeHead o).published = s.published := rfl

inductive PushAct where
  | readTail (item : Mem UInt8)
  | readHead
  | copyByte
  | storeTail

def Shared.push (s : Shared) : PushAct → Option Shared
  | .readTail item => match s.pusher with
    | .idle => some { s with pusher := .tailRead item s.ring.info.tailIndexOffset }
    | _ => none
  | .readHead => match s.pusher with
    | .tailRead item tail =>
      if (tail + s.ring.info.elementLength) % s.ring.info.buffLength = s.ring.info.headIndexOffset then
        some { s with pusher := .idle }
      else some { s with pusher := .copying item 0 }
    | _ => none
  | .copyByte => match s.pusher with
    | .copying item i =>
      if (i : Int) < s.ring.info.elementLength.toInt then
        some { s with
          ring := s.ring.storeByte (s.ring.info.tailIndexOffset.toInt + i) (item i)
          pusher := .copying item (i + 1) }
      else none
    | _ => none
  | .storeTail => match s.pusher with
    | .copying item i =>
      if (i : Int) < s.ring.info.elementLength.toInt then none
      else some {
        ring := s.ring.storeTail
          ((s.ring.info.tailIndexOffset + s.ring.info.elementLength) % s.ring.info.buffLength)
        pusher := .idle
        published := s.published ++ [slice item 0 s.ring.info.elementLength.toInt.toNat] }
    | _ => none

/-! ## The steps together are the call -/

def pushActs (item : Mem UInt8) (e : Nat) : List PushAct :=
  .readTail item :: .readHead :: (List.replicate e .copyByte ++ [.storeTail])

theorem run_copyBytes (s : Shared) (item : Mem UInt8) (m : Mem UInt8) : ∀ (n i : Nat),
    ((i + n : Nat) : Int) ≤ s.ring.info.elementLength.toInt → s.pusher = .copying item i →
    s.ring.buff = memcpy m s.ring.info.tailIndexOffset.toInt item 0 i →
    run Shared.push s (List.replicate n .copyByte) = some { s with
      ring := { s.ring with buff := memcpy m s.ring.info.tailIndexOffset.toInt item 0 (i + n : Nat) }
      pusher := .copying item (i + n) }
  | 0, i, _, hp, hb => by
    rw [List.replicate_zero, run_nil, Nat.add_zero, ← hb, ← hp]
  | n + 1, i, hn, hp, hb => by
    have hstep : s.push .copyByte = some { s with
        ring := { s.ring with buff := memcpy m s.ring.info.tailIndexOffset.toInt item 0 (i + 1 : Nat) }
        pusher := .copying item (i + 1) } := by
      simp only [Shared.push, hp, Ring.storeByte]
      have hset := set_memcpy m s.ring.info.tailIndexOffset.toInt item 0 i
      rw [Int.zero_add] at hset
      rw [if_pos (by omega), hb, hset]
    have hrest := run_copyBytes { s with
        ring := { s.ring with buff := memcpy m s.ring.info.tailIndexOffset.toInt item 0 (i + 1 : Nat) }
        pusher := .copying item (i + 1) } item m n (i + 1) (by simp only; omega) rfl rfl
    rw [List.replicate_succ, run_cons, hstep, Option.bind_some, hrest]
    simp only [Option.some.injEq, Shared.mk.injEq, Ring.mk.injEq, Pusher.copying.injEq, true_and, and_true]
    rw [show i + 1 + n = i + (n + 1) by omega]
    exact ⟨rfl, rfl⟩

/-- **Uninterrupted, the steps of an accepted push are `push_circle_buff_item`.** -/
theorem run_push_uninterrupted (s : Shared) (item : Mem UInt8) (e : Nat) (hi : s.pusher = .idle)
    (he : s.ring.info.elementLength.toInt = e) (hf : isBuffFull s.ring.info = false) :
    run Shared.push s (pushActs item e) =
      some ⟨(pushCircleBuffItem s.ring item).2, .idle, s.published ++ [slice item 0 e]⟩ := by
  have hne : ¬ (s.ring.info.tailIndexOffset + s.ring.info.elementLength) % s.ring.info.buffLength =
      s.ring.info.headIndexOffset := by simpa [isBuffFull] using hf
  have hcopy := run_copyBytes { s with pusher := .copying item 0 } item s.ring.buff e 0 (by simp [he]) rfl
    (by funext x; simp [memcpy])
  have h1 : s.push (.readTail item) = some { s with pusher := .tailRead item s.ring.info.tailIndexOffset } := by
    simp only [Shared.push, hi]
  have h2 : Shared.push { s with pusher := .tailRead item s.ring.info.tailIndexOffset } .readHead =
      some { s with pusher := .copying item 0 } := by
    simp only [Shared.push]
    rw [if_neg hne]
  rw [pushActs, run_cons, h1, Option.bind_some, run_cons, h2, Option.bind_some, run_append, hcopy, Option.bind_some, run_cons]
  simp only [Shared.push, Nat.zero_add, he, Int.lt_irrefl, if_false, Option.bind_some, run_nil, Ring.storeTail,
    pushCircleBuffItem, hf, Bool.false_eq_true, Int.toNat_natCast]

/-! ## What holds at every point -/

/-- What the pusher knows at each point, `q` items released: a tail it has read is the tail, and past the full test
there is a free slot, whose first bytes are the item's. -/
def PusherOk (e L a q : Nat) (s : Shared) : Prop :=
  match s.pusher with
  | .idle => True
  | .tailRead _ tail => tail = s.ring.info.tailIndexOffset
  | .copying item i => i ≤ e ∧ s.published.length + 1 < q + L / e ∧
      ∀ j : Nat, j < i → s.ring.buff (slot e L (a + s.published.length) + j) = item j

/-- **The pusher's invariant**: the ring holds the published items after the first `q`. -/
structure PushInv (e L a q : Nat) (s : Shared) : Prop where
  dvd : e ∣ L
  le : q ≤ s.published.length
  holds : Holds e L (a + q) s.ring (s.published.drop q)
  ok : PusherOk e L a q s

namespace PushInv

variable {e L a q : Nat} {s s' : Shared}

theorem at_ (I : PushInv e L a q s) : RingAt s.ring.info e L (slot e L (a + q)) (slot e L (a + s.published.length)) := by
  have h := I.holds.at_
  have hle := I.le
  rwa [List.length_drop, show a + q + (s.published.length - q) = a + s.published.length by omega] at h

theorem short (I : PushInv e L a q s) : s.published.length < q + L / e := by
  have h := I.holds.short
  have hle := I.le
  rw [List.length_drop, div_gcd_of_dvd I.dvd] at h
  omega

theorem slice_published (I : PushInv e L a q s) {k : Nat} (hq : q ≤ k) (hk : k < s.published.length) :
    slice s.ring.buff (slot e L (a + k)) e = s.published[k] := by
  have h := I.holds.stored (k - q) (by rw [List.length_drop]; omega)
  rw [List.getElem_drop] at h
  simpa only [show a + q + (k - q) = a + k by omega, show q + (k - q) = k by omega] using h

theorem not_full (I : PushInv e L a q s) (h : ¬ (s.ring.info.tailIndexOffset + s.ring.info.elementLength) %
    s.ring.info.buffLength = s.ring.info.headIndexOffset) : s.published.length + 1 < q + L / e := by
  have hf : ¬ isBuffFull s.ring.info = true := by simpa [isBuffFull] using h
  rw [I.holds.full_iff, List.length_drop, div_gcd_of_dvd I.dvd] at hf
  have := I.short
  have := I.le
  omega

/-- **The slot being written is apart from every published one not released.** -/
theorem fresh (I : PushInv e L a q s) {k : Nat} (hq : q ≤ k) (hk : k < s.published.length) :
    slot e L (a + k) + e ≤ slot e L (a + s.published.length) ∨
      slot e L (a + s.published.length) + e ≤ slot e L (a + k) := by
  have := I.short
  exact slot_disjoint I.at_.len_pos I.dvd (by omega) (by omega)

/-- **One step of the pusher**: what it publishes and what it leaves. -/
theorem push (I : PushInv e L a q s) {act : PushAct} (h : s.push act = some s') :
    PushInv e L a q s' ∧ s.published <+: s'.published ∧
      (act ≠ .storeTail → s'.published = s.published) ∧ s'.ring.info.control = s.ring.info.control ∧
      (∀ k, q ≤ k → k < s.published.length → ∀ i : Nat, i < e →
        s'.ring.buff (slot e L (a + k) + i) = s.ring.buff (slot e L (a + k) + i)) := by
  cases act with
  | readTail item =>
    simp only [Shared.push] at h
    split at h
    · cases h
      exact ⟨⟨I.dvd, I.le, I.holds, rfl⟩, List.prefix_rfl, fun _ => rfl, rfl, fun _ _ _ _ _ => rfl⟩
    · cases h
  | readHead =>
    simp only [Shared.push] at h
    split at h
    · rename_i item tail hp
      have hok := I.ok
      rw [PusherOk, hp] at hok
      subst hok
      split at h
      · cases h
        exact ⟨⟨I.dvd, I.le, I.holds, trivial⟩, List.prefix_rfl, fun _ => rfl, rfl, fun _ _ _ _ _ => rfl⟩
      · rename_i hne
        cases h
        refine ⟨⟨I.dvd, I.le, I.holds, ?_⟩, List.prefix_rfl, fun _ => rfl, rfl, fun _ _ _ _ _ => rfl⟩
        exact ⟨Nat.zero_le _, I.not_full hne, fun j hj => by omega⟩
    · cases h
  | copyByte =>
    simp only [Shared.push] at h
    split at h
    · rename_i item i hp
      split at h
      · rename_i hi
        have hok := I.ok
        rw [PusherOk, hp] at hok
        obtain ⟨hie, hroom, hcopied⟩ := hok
        rw [I.at_.elem] at hi
        cases h
        -- every byte of an unreleased slot is outside the slot being written
        have hkeep : ∀ k, q ≤ k → k < s.published.length → ∀ j : Nat, j < e →
            set s.ring.buff (s.ring.info.tailIndexOffset.toInt + i) (item i) (slot e L (a + k) + j) =
              s.ring.buff (slot e L (a + k) + j) := by
          intro k hq hk j hj
          have := I.fresh hq hk
          exact set_of_ne _ _ (by rw [I.at_.tail]; omega)
        refine ⟨⟨I.dvd, I.le, ⟨I.holds.at_, I.holds.short, ?_⟩, ?_, hroom, ?_⟩, List.prefix_rfl, fun _ => rfl, rfl, hkeep⟩
        · refine I.holds.stored.congr fun k hk j hj => ?_
          rw [List.length_drop] at hk
          have := hkeep (q + k) (by omega) (by omega) j hj
          rwa [← Nat.add_assoc] at this
        · omega
        · intro j hj
          simp only [Ring.storeByte_buff]
          rw [I.at_.tail]
          by_cases hji : j = i
          · subst hji; exact set_self _ _ _
          · rw [set_of_ne _ _ (by omega)]
            exact hcopied j (by omega)
      · cases h
    · cases h
  | storeTail =>
    simp only [Shared.push] at h
    split at h
    · rename_i item i hp
      split at h
      · cases h
      · rename_i hi
        have hok := I.ok
        rw [PusherOk, hp] at hok
        obtain ⟨hie, hroom, hcopied⟩ := hok
        rw [I.at_.elem] at hi
        have hie' : i = e := by omega
        subst hie'
        cases h
        have hle := I.le
        have hdrop : (s.published ++ [slice item 0 i]).drop q = s.published.drop q ++ [slice item 0 i] :=
          List.drop_append_of_le_length hle
        refine ⟨⟨I.dvd, ?_, ⟨?_, ?_, ?_⟩, trivial⟩, List.prefix_append _ _, fun h => absurd rfl h, rfl, fun _ _ _ _ _ => rfl⟩
        · simp only [List.length_append]; omega
        · have := I.at_.push
          rw [slot_succ] at this
          simp only [I.at_.elem, Int.toNat_natCast, hdrop, List.length_append, List.length_drop, List.length_singleton]
          rwa [show a + q + (s.published.length - q + 1) = a + s.published.length + 1 by omega]
        · simp only [I.at_.elem, Int.toNat_natCast, hdrop, List.length_append, List.length_drop, List.length_singleton,
            div_gcd_of_dvd I.dvd]
          omega
        · simp only [I.at_.elem, Int.toNat_natCast, hdrop]
          refine I.holds.stored.snoc ?_
          rw [List.length_drop, show a + q + (s.published.length - q) = a + s.published.length by omega,
            slice_eq_iff]
          intro j hj
          simpa using hcopied j hj
    · cases h

/-- **A head store that releases the items up to `q'`.** -/
theorem release (I : PushInv e L a q s) {q' : Nat} (hq : q ≤ q') (hq' : q' ≤ s.published.length) (head : Int32)
    (hh : head.toInt = slot e L (a + q')) : PushInv e L a q' (s.storeHead head) := by
  have hshort := I.short
  have hlen : a + q' + (s.published.length - q') = a + s.published.length := by omega
  refine ⟨I.dvd, hq', ⟨?_, ?_, ?_⟩, ?_⟩
  · have hat := I.at_
    rw [Shared.storeHead_published, List.length_drop, hlen]
    exact { hat with head := hh, head_lt := slot_lt _ hat.len_pos }
  · rw [Shared.storeHead_published, List.length_drop, div_gcd_of_dvd I.dvd]
    omega
  · intro k hk
    simp only [Shared.storeHead_published, List.length_drop] at hk
    simp only [Shared.storeHead_published, List.getElem_drop]
    have := I.slice_published (k := q' + k) (by omega) (by omega)
    rwa [← Nat.add_assoc] at this
  · have hok := I.ok
    unfold PusherOk at hok ⊢
    rw [Shared.storeHead_pusher]
    cases hp : s.pusher with
    | idle => trivial
    | tailRead item tail =>
      rw [hp] at hok
      exact hok
    | copying item i =>
      rw [hp] at hok
      obtain ⟨hie, hroom, hcopied⟩ := hok
      exact ⟨hie, Nat.lt_of_lt_of_le hroom (by omega), hcopied⟩

end PushInv

end VirtualForce
