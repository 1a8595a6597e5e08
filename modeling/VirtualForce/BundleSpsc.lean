import VirtualForce.RingPusher
import VirtualForce.BundlePlan
/-!
# BundleSpsc — a bundle pull beside a pusher

`pull_circle_buff_bundle` one access to a shared index or one byte a step, from a ring another process pushes items on.
It reads the tail three times: into `iw`, in the empty test, and again to store it as the head.  An item published
between the first and the last is skipped; when none is (`Quiet`), the bytes received are the bytes published.
-/
namespace VirtualForce

open Memory Slots Circle Runs

/-- Where the bundle pull is.  `ow` is the tail of the local ring, which nobody else writes. -/
inductive BundlePuller where
  | idle
  | headRead (ir : Int32)
  | tailRead (ir iw : Int32)
  | emptyTail (ir iw tail : Int32)
  | copying (ir iw : Int32) (k : Nat)
  | tailReread (ir iw tail : Int32)
  | headStored (ir iw : Int32)
deriving DecidableEq

/-- The pusher's ring, the puller's local ring, and the bytes the completed pulls have appended to local rings. -/
structure BundleSpsc where
  shared : Shared
  loc : Ring
  puller : BundlePuller
  received : List UInt8

def BundleSpsc.init (r : Ring) : BundleSpsc := ⟨⟨r, .idle, []⟩, r, .idle, []⟩

inductive BundleAct where
  | push (act : PushAct)
  | readHead (loc : Ring)
  | readTail
  | testTail
  | testHead
  | copyByte
  | rereadTail
  | storeHead
  | storeLocalTail

namespace BundleSpsc

def moves (s : BundleSpsc) (ir iw : Int32) : List (Int × Int) :=
  copyMoves (pullBundleCopies ir iw s.loc.info.tailIndexOffset s.shared.ring.info.buffLength s.loc.info.buffLength)

def copied (s : BundleSpsc) (m : Int × Int) : Ring := s.loc.storeByte m.1 (s.shared.ring.buff m.2)

def finish (s : BundleSpsc) (n : Int32) : BundleSpsc :=
  { s with
    loc := s.loc.storeTail ((s.loc.info.tailIndexOffset + n) % s.loc.info.buffLength)
    puller := .idle
    received := s.received ++
      around s.loc.buff s.loc.info.buffLength.toInt s.loc.info.tailIndexOffset.toInt n.toInt.toNat }

def step (s : BundleSpsc) : BundleAct → Option BundleSpsc
  | .push act => (s.shared.push act).map (fun sh => { s with shared := sh })
  | .readHead loc => match s.puller with
    | .idle => some { s with loc := loc, puller := .headRead s.shared.ring.info.headIndexOffset }
    | _ => none
  | .readTail => match s.puller with
    | .headRead ir => some { s with puller := .tailRead ir s.shared.ring.info.tailIndexOffset }
    | _ => none
  | .testTail => match s.puller with
    | .tailRead ir iw => some { s with puller := .emptyTail ir iw s.shared.ring.info.tailIndexOffset }
    | _ => none
  | .testHead => match s.puller with
    | .emptyTail ir iw tail =>
      if tail = s.shared.ring.info.headIndexOffset then some { s with puller := .idle }
      else some { s with puller := .copying ir iw 0 }
    | _ => none
  | .copyByte => match s.puller with
    | .copying ir iw k => ((s.moves ir iw)[k]?).map (fun m =>
      { s with loc := s.copied m, puller := .copying ir iw (k + 1) })
    | _ => none
  | .rereadTail => match s.puller with
    | .copying ir iw k =>
      if k < (s.moves ir iw).length then none
      else some { s with puller := .tailReread ir iw s.shared.ring.info.tailIndexOffset }
    | _ => none
  | .storeHead => match s.puller with
    | .tailReread ir iw tail => some { s with shared := s.shared.storeHead tail, puller := .headStored ir iw }
    | _ => none
  | .storeLocalTail => match s.puller with
    | .headStored ir iw => some (s.finish (pullBundleLength ir iw s.shared.ring.info.buffLength))
    | _ => none

/-- **The local ring has room** for what the circle holds at the snapshot of its tail. -/
def HasRoom (s : BundleSpsc) : BundleAct → Prop
  | .readHead loc => (0 ≤ loc.info.headIndexOffset.toInt ∧ loc.info.headIndexOffset < loc.info.buffLength) ∧
      (0 ≤ loc.info.tailIndexOffset.toInt ∧ loc.info.tailIndexOffset < loc.info.buffLength) ∧
      loc.info.buffLength.toInt ≤ 2 ^ 30
  | .readTail => s.loc.info.unreadBytes + s.shared.ring.info.unreadBytes < s.loc.info.buffLength.toInt.toNat
  | _ => True

/-- **Nothing is published between the snapshot of the tail and its second reading**, unless the pull is about to find
the circle empty. -/
def Quiet (s : BundleSpsc) : BundleAct → Prop
  | .push .storeTail => match s.puller with
    | .tailRead _ _ => False
    | .emptyTail _ _ tail => tail = s.shared.ring.info.headIndexOffset
    | .copying _ _ _ => False
    | _ => True
  | _ => True

instance (s : BundleSpsc) (a : BundleAct) : Decidable (s.HasRoom a) := by
  unfold HasRoom
  cases a <;> infer_instance

instance (s : BundleSpsc) (a : BundleAct) : Decidable (s.Quiet a) := by
  unfold Quiet
  cases a with
  | push act => cases act <;> first | infer_instance | (simp only []; split <;> infer_instance)
  | _ => infer_instance

end BundleSpsc

/-! ## The steps together are the call -/

def bundleActs (loc : Ring) (n : Nat) : List BundleAct :=
  .readHead loc :: .readTail :: .testTail :: .testHead ::
    (List.replicate n .copyByte ++ [.rereadTail, .storeHead, .storeLocalTail])

theorem run_copyMoves (s : BundleSpsc) (ir iw : Int32) (m : Mem UInt8) : ∀ (n k : Nat),
    k + n = (s.moves ir iw).length → s.puller = .copying ir iw k →
    s.loc.buff = runMoves m s.shared.ring.buff ((s.moves ir iw).take k) →
    run BundleSpsc.step s (List.replicate n .copyByte) = some { s with
      loc := { s.loc with buff := runMoves m s.shared.ring.buff (s.moves ir iw) }
      puller := .copying ir iw (k + n) }
  | 0, k, hk, hp, hb => by
    rw [Nat.add_zero] at hk
    rw [hk, List.take_length] at hb
    rw [List.replicate_zero, run_nil, Nat.add_zero, ← hb, ← hp]
  | n + 1, k, hk, hp, hb => by
    have hlt : k < (s.moves ir iw).length := by omega
    have hmem : set s.loc.buff ((s.moves ir iw)[k]).1 (s.shared.ring.buff ((s.moves ir iw)[k]).2) =
        runMoves m s.shared.ring.buff ((s.moves ir iw).take (k + 1)) := by
      rw [List.take_add_one, List.getElem?_eq_getElem hlt, hb]
      exact (runMoves_snoc _ _ _ _ _).symm
    have hstep : s.step .copyByte = some { s with
        loc := { s.loc with buff := runMoves m s.shared.ring.buff ((s.moves ir iw).take (k + 1)) }
        puller := .copying ir iw (k + 1) } := by
      simp only [BundleSpsc.step, hp, List.getElem?_eq_getElem hlt, Option.map_some, BundleSpsc.copied,
        Ring.storeByte, hmem]
    have hrest := run_copyMoves { s with
        loc := { s.loc with buff := runMoves m s.shared.ring.buff ((s.moves ir iw).take (k + 1)) }
        puller := .copying ir iw (k + 1) } ir iw m n (k + 1) (by rw [show k + 1 + n = k + (n + 1) by omega]; exact hk) rfl rfl
    rw [List.replicate_succ, run_cons, hstep, Option.bind_some, hrest, show k + 1 + n = k + (n + 1) by omega]
    rfl

/-- **Uninterrupted, the steps of a bundle pull are `pull_circle_buff_bundle`.** -/
theorem run_bundle_uninterrupted (s : BundleSpsc) (loc : Ring) (hi : s.puller = .idle)
    (he : isBuffEmpty s.shared.ring.info = false)
    (hlen : ∀ c ∈ pullBundleCopies s.shared.ring.info.headIndexOffset s.shared.ring.info.tailIndexOffset
      loc.info.tailIndexOffset s.shared.ring.info.buffLength loc.info.buffLength, 0 ≤ c.len.toInt) :
    (run BundleSpsc.step s (bundleActs loc (copyMoves (pullBundleCopies s.shared.ring.info.headIndexOffset
      s.shared.ring.info.tailIndexOffset loc.info.tailIndexOffset s.shared.ring.info.buffLength
      loc.info.buffLength)).length)).map (fun t => (t.shared.ring, t.loc)) = some (pullCircleBuffBundle s.shared.ring loc).2 := by
  have hne : ¬ s.shared.ring.info.tailIndexOffset = s.shared.ring.info.headIndexOffset := by
    simpa [isBuffEmpty] using he
  have hcopy := run_copyMoves
    { s with loc := loc, puller := .copying s.shared.ring.info.headIndexOffset s.shared.ring.info.tailIndexOffset 0 }
    s.shared.ring.info.headIndexOffset s.shared.ring.info.tailIndexOffset loc.buff _ 0 (Nat.zero_add _) rfl rfl
  simp only [BundleSpsc.moves] at hcopy
  simp only [bundleActs, run_cons, BundleSpsc.step, hi, Option.bind_some, if_neg hne]
  rw [run_append, hcopy]
  simp only [run_cons, run_nil, BundleSpsc.step, BundleSpsc.moves, Option.bind_some, Nat.zero_add, Nat.lt_irrefl,
    if_false, Option.map_some, BundleSpsc.finish, pullCircleBuffBundle, he, Bool.false_eq_true, Ring.storeTail,
    Shared.storeHead, Ring.storeHead]
  rw [runCopies_eq _ _ _ hlen]

/-! ## What holds at every point -/

structure LocAt (b : BufferInfo) (c Ld : Nat) : Prop where
  tail : b.tailIndexOffset.toInt = c
  len : b.buffLength.toInt = Ld
  lt : c < Ld
  le : Ld ≤ 2 ^ 30

/-- **The snapshot of items `q` to `p`**: fewer than a ring of them, and room for them from offset `c` of the local ring. -/
structure Snap (e L a q p : Nat) (ir iw : Int32) (b : BufferInfo) (c Ld : Nat) : Prop where
  ir : ir.toInt = slot e L (a + q)
  iw : iw.toInt = slot e L (a + p)
  le : q ≤ p
  short : p < q + L / e
  loc : LocAt b c Ld
  room : (p - q) * e < Ld

namespace Snap

variable {e L a q p c Ld : Nat} {ir iw : Int32} {b : BufferInfo}

theorem planLength_eq (S : Snap e L a q p ir iw b c Ld) (hL : 0 < L) (he : 0 < e) (hd : e ∣ L) (hqp : q < p) :
    planLength (slot e L (a + q)) (slot e L (a + p)) L = (p - q) * e := by
  have hle := S.le
  have hshort := S.short
  have hlt : (a + p - (a + q)) * e < L := mul_lt_of_lt_div he (by omega)
  have hgap := slot_gap (Nat.add_le_add_left S.le a) hlt
  rw [show a + p - (a + q) = p - q by omega] at hgap
  have hne : slot e L (a + q) ≠ slot e L (a + p) := by
    intro h
    have := slot_inj hL (Nat.add_le_add_left S.le a) (by rw [div_gcd_of_dvd hd]; omega) h
    omega
  rw [VirtualForce.planLength_eq (slot_lt _ hL) (slot_lt _ hL) hne, hgap]

theorem moves_eq {cl : Int32} (S : Snap e L a q p ir iw b c Ld) (hcl : cl.toInt = L) (hL : 0 < L) (hle : L ≤ 2 ^ 30)
    (he : 0 < e) (hd : e ∣ L) (hqp : q < p) :
    copyMoves (pullBundleCopies ir iw b.tailIndexOffset cl b.buffLength) =
      round c (slot e L (a + q)) Ld L ((p - q) * e) := by
  have hplan := S.planLength_eq hL he hd hqp
  have hroom := S.room
  have hc := S.loc.lt
  have hnums := pullBundleCopies_nums S.ir S.iw S.loc.tail hcl S.loc.len (slot_lt _ hL) (slot_lt _ hL) hc
    (by omega) (by have hle' := S.loc.le; omega)
  rw [copyMoves_eq_planMoves _ _ hnums, plan_moves (slot_lt _ hL) (slot_lt _ hL) hc (by omega), hplan]

theorem length_eq {cl : Int32} (S : Snap e L a q p ir iw b c Ld) (hcl : cl.toInt = L) (hL : 0 < L) (hle : L ≤ 2 ^ 30)
    (he : 0 < e) (hd : e ∣ L) (hqp : q < p) : (pullBundleLength ir iw cl).toInt = ((p - q) * e : Nat) := by
  rw [pullBundleLength_toInt S.ir S.iw hcl (slot_lt _ hL) (slot_lt _ hL) (by omega), S.planLength_eq hL he hd hqp]

end Snap

def Carried (e d p : Nat) (s : BundleSpsc) (ir iw : Int32) : Prop :=
  d < p ∧ p ≤ s.shared.published.length ∧
    (pullBundleLength ir iw s.shared.ring.info.buffLength).toInt = ((p - d) * e : Nat) ∧
    ∃ c Ld, LocAt s.loc.info c Ld ∧
      around s.loc.buff Ld c ((p - d) * e) = ((s.shared.published.take p).drop d).flatten

/-- What the puller knows at each point, `d` items received and `q` released. -/
def BundleOk (e L a d q : Nat) (s : BundleSpsc) : Prop :=
  match s.puller with
  | .idle => d = q
  | .headRead ir => d = q ∧ ir.toInt = slot e L (a + q) ∧ ∃ c Ld, LocAt s.loc.info c Ld
  | .tailRead ir iw => d = q ∧ ∃ c Ld, Snap e L a q s.shared.published.length ir iw s.loc.info c Ld
  | .emptyTail ir iw tail => d = q ∧ ∃ p c Ld, Snap e L a q p ir iw s.loc.info c Ld ∧
      tail.toInt = slot e L (a + p) ∧ (p = q ∨ p = s.shared.published.length)
  | .copying ir iw k => d = q ∧ q < s.shared.published.length ∧ ∃ c Ld,
      Snap e L a q s.shared.published.length ir iw s.loc.info c Ld ∧ k ≤ (s.shared.published.length - q) * e ∧
      ∀ j, j < k → s.loc.buff ((c + j) % Ld : Nat) = s.shared.ring.buff ((slot e L (a + q) + j) % L : Nat)
  | .tailReread ir iw tail => d = q ∧ ∃ p, tail.toInt = slot e L (a + p) ∧ Carried e q p s ir iw
  | .headStored ir iw => Carried e d q s ir iw

structure BundleInv (e L a d q : Nat) (s : BundleSpsc) : Prop where
  pusher : PushInv e L a q s.shared
  le : d ≤ q
  received : s.received = (s.shared.published.take d).flatten
  puller : BundleOk e L a d q s

theorem take_of_extends {α : Type} {l l' : List α} (h : l <+: l') {n : Nat} (hn : n ≤ l.length) : l'.take n = l.take n := by
  obtain ⟨t, rfl⟩ := h
  exact List.take_append_of_le_length hn

namespace BundleInv

variable {e L a d q : Nat} {s : BundleSpsc}

theorem push (I : BundleInv e L a d q s) {act : PushAct} {sh : Shared} (h : s.shared.push act = some sh)
    (hquiet : s.Quiet (.push act)) : BundleInv e L a d q { s with shared := sh } := by
  obtain ⟨I', hpub, hsame, hctl, hkeep⟩ := I.pusher.push h
  have hat := I.pusher.at_
  have hlen := hpub.length_le
  have hq := I.pusher.le
  have hd := I.le
  have hbl : sh.ring.info.buffLength = s.shared.ring.info.buffLength := congrArg (fun c => c.2.1) hctl
  have hcarried : ∀ p ir iw, Carried e d p s ir iw → Carried e d p { s with shared := sh } ir iw := by
    rintro p ir iw ⟨hdp, hp, hret, c, Ld, hloc, hbytes⟩
    refine ⟨hdp, Nat.le_trans hp hlen, ?_, c, Ld, hloc, ?_⟩
    · simp only [hbl, hret]
    · simp only [take_of_extends hpub hp, hbytes]
  refine ⟨I', I.le, ?_, ?_⟩
  · simp only [take_of_extends hpub (Nat.le_trans hd hq)]
    exact I.received
  have hok := I.puller
  unfold BundleOk at hok ⊢
  simp only
  cases hp : s.puller with
  | idle =>
    rw [hp] at hok
    exact hok
  | headRead ir =>
    rw [hp] at hok
    exact hok
  | tailRead ir iw =>
    rw [hp] at hok
    have hst : act ≠ .storeTail := by
      rintro rfl
      simp [BundleSpsc.Quiet, hp] at hquiet
    simp only [hsame hst]
    exact hok
  | emptyTail ir iw tail =>
    rw [hp] at hok
    obtain ⟨hdq, p, c, Ld, S, htail, hcase⟩ := hok
    refine ⟨hdq, p, c, Ld, S, htail, ?_⟩
    by_cases hst : act = .storeTail
    · -- the test is about to find the circle empty
      subst hst
      simp only [BundleSpsc.Quiet, hp] at hquiet
      rw [hquiet, hat.head] at htail
      left
      have hshort := S.short
      have hslot : slot e L (a + q) = slot e L (a + p) := Int.ofNat_inj.1 htail
      have := slot_inj hat.len_pos (Nat.add_le_add_left S.le a) (by rw [div_gcd_of_dvd I.pusher.dvd]; omega) hslot
      omega
    · simp only [hsame hst]
      exact hcase
  | copying ir iw k =>
    rw [hp] at hok
    have hst : act ≠ .storeTail := by
      rintro rfl
      simp [BundleSpsc.Quiet, hp] at hquiet
    obtain ⟨hdq, hqp, c, Ld, S, hk, hbytes⟩ := hok
    simp only [hsame hst]
    refine ⟨hdq, hqp, c, Ld, S, hk, fun j hj => ?_⟩
    have hj' : j / e < s.shared.published.length - q := (Nat.div_lt_iff_lt_mul hat.elem_pos).2 (by omega)
    have hr : j % e < e := Nat.mod_lt _ hat.elem_pos
    have hkept := hkeep (q + j / e) (Nat.le_add_right _ _) (by omega) (j % e) hr
    rw [hbytes j hj, slot_byte hat.elem_pos hat.len_pos I.pusher.dvd]
    rw [← Nat.add_assoc] at hkept
    push_cast
    exact hkept.symm
  | tailReread ir iw tail =>
    rw [hp] at hok
    obtain ⟨rfl, p, htail, hc⟩ := hok
    exact ⟨rfl, p, htail, hcarried _ _ _ hc⟩
  | headStored ir iw =>
    rw [hp] at hok
    exact hcarried _ _ _ hok

/-- **Every quiet step keeps the invariant**, with room in the local ring. -/
theorem step (I : BundleInv e L a d q s) {act : BundleAct} {s' : BundleSpsc} (hroom : s.HasRoom act)
    (hquiet : s.Quiet act) (h : s.step act = some s') : ∃ d' q', BundleInv e L a d' q' s' := by
  have hat := I.pusher.at_
  have hdvd := I.pusher.dvd
  have hq := I.pusher.le
  have hok := I.puller
  unfold BundleOk at hok
  cases act with
  | push act =>
    simp only [BundleSpsc.step, Option.map_eq_some_iff] at h
    obtain ⟨sh, hsh, rfl⟩ := h
    exact ⟨d, q, I.push hsh hquiet⟩
  | readHead loc =>
    simp only [BundleSpsc.step] at h
    split at h
    · rename_i hp
      rw [hp] at hok
      cases h
      obtain ⟨-, ⟨ht0, ht⟩, hle⟩ := hroom
      rw [Int32.lt_iff_toInt_lt] at ht
      have hloc : LocAt loc.info loc.info.tailIndexOffset.toInt.toNat loc.info.buffLength.toInt.toNat :=
        ⟨by omega, by omega, by omega, by omega⟩
      exact ⟨d, q, I.pusher, I.le, I.received, hok, hat.head, _, _, hloc⟩
    · cases h
  | readTail =>
    simp only [BundleSpsc.step] at h
    split at h
    · rename_i ir hp
      rw [hp] at hok
      obtain ⟨hdq, hir, c, Ld, hloc⟩ := hok
      cases h
      have hshort := I.pusher.short
      refine ⟨d, q, I.pusher, I.le, I.received, hdq, c, Ld, hir, hat.tail, hq, hshort, hloc, ?_⟩
      have hunread := I.pusher.holds.unreadBytes_eq hdvd
      rw [List.length_drop] at hunread
      simp only [BundleSpsc.HasRoom, hunread, hloc.len, Int.toNat_natCast] at hroom
      exact Nat.lt_of_le_of_lt (Nat.le_add_left _ _) hroom
    · cases h
  | testTail =>
    simp only [BundleSpsc.step] at h
    split at h
    · rename_i ir iw hp
      rw [hp] at hok
      obtain ⟨hdq, c, Ld, S⟩ := hok
      cases h
      exact ⟨d, q, I.pusher, I.le, I.received, hdq, _, c, Ld, S, hat.tail, .inr rfl⟩
    · cases h
  | testHead =>
    simp only [BundleSpsc.step] at h
    split at h
    · rename_i ir iw tail hp
      rw [hp] at hok
      obtain ⟨hdq, p, c, Ld, S, htail, hcase⟩ := hok
      split at h
      · cases h
        exact ⟨d, q, I.pusher, I.le, I.received, hdq⟩
      · rename_i hne
        cases h
        have hpq : p ≠ q := by
          rintro rfl
          exact hne (Int32.toInt_inj.1 (by rw [htail, hat.head]))
        have hp : p = s.shared.published.length := hcase.resolve_left hpq
        subst hp
        exact ⟨d, q, I.pusher, I.le, I.received, hdq, Nat.lt_of_le_of_ne hq (Ne.symm hpq), c, Ld, S, Nat.zero_le _,
          fun j hj => absurd hj (Nat.not_lt_zero j)⟩
    · cases h
  | copyByte =>
    simp only [BundleSpsc.step] at h
    split at h
    · rename_i ir iw k hp
      rw [hp] at hok
      obtain ⟨hdq, hqp, c, Ld, S, hk, hbytes⟩ := hok
      rw [BundleSpsc.moves, S.moves_eq hat.len hat.len_pos hat.len_le hat.elem_pos hdvd hqp,
        Option.map_eq_some_iff] at h
      obtain ⟨m, hm, rfl⟩ := h
      obtain ⟨hlt, hm⟩ := List.getElem?_eq_some_iff.1 hm
      rw [getElem_round] at hm
      rw [round_length] at hlt
      subst hm
      have hroom' := S.room
      exact ⟨d, q, I.pusher, I.le, I.received, hdq, hqp, c, Ld, S, hlt, set_round (by omega) hbytes⟩
    · cases h
  | rereadTail =>
    simp only [BundleSpsc.step] at h
    split at h
    · rename_i ir iw k hp
      rw [hp] at hok
      obtain ⟨hdq, hqp, c, Ld, S, hk, hbytes⟩ := hok
      rw [BundleSpsc.moves, S.moves_eq hat.len hat.len_pos hat.len_le hat.elem_pos hdvd hqp, round_length] at h
      split at h
      · cases h
      · rename_i hall
        cases h
        have hkn : k = (s.shared.published.length - q) * e := by omega
        subst hkn
        refine ⟨d, q, I.pusher, I.le, I.received, hdq, _, hat.tail, hqp, Nat.le_refl _,
          S.length_eq hat.len hat.len_pos hat.len_le hat.elem_pos hdvd hqp, c, Ld, S.loc, ?_⟩
        have hstored := Stored.around_eq_flatten hat.elem_pos hat.len_pos hdvd _ _ I.pusher.holds.stored
        rw [List.length_drop] at hstored
        rw [List.take_length, ← hstored]
        exact around_congr hbytes
    · cases h
  | storeHead =>
    simp only [BundleSpsc.step] at h
    split at h
    · rename_i ir iw tail hp
      rw [hp] at hok
      obtain ⟨rfl, p, htail, hc⟩ := hok
      cases h
      have hle := Nat.le_of_lt hc.1
      exact ⟨d, p, I.pusher.release hle hc.2.1 tail htail, hle, I.received, hc⟩
    · cases h
  | storeLocalTail =>
    simp only [BundleSpsc.step] at h
    split at h
    · rename_i ir iw hp
      rw [hp] at hok
      obtain ⟨hdq, -, hret, c, Ld, hloc, hbytes⟩ := hok
      cases h
      refine ⟨q, q, I.pusher, Nat.le_refl _, ?_, rfl⟩
      simp only [BundleSpsc.finish]
      rw [hret, hloc.tail, hloc.len, Int.toNat_natCast, hbytes, I.received, ← List.flatten_append]
      congr 1
      conv_rhs => rw [← List.take_append_drop d (s.shared.published.take q)]
      rw [List.take_take, Nat.min_eq_left I.le]
    · cases h

end BundleInv

/-! ## Every quiet run -/

/-- **Nothing is lost**: the bytes received are a prefix of the bytes published, and outside a pull the rest is what the
circle still holds unread. -/
structure BundleSafe (s : BundleSpsc) : Prop where
  in_order : s.received <+: s.shared.published.flatten
  accounted : s.puller = .idle → s.shared.published.flatten = s.received ++
    around s.shared.ring.buff s.shared.ring.info.buffLength.toInt s.shared.ring.info.headIndexOffset.toInt
      s.shared.ring.info.unreadBytes

theorem BundleInv.safe {e L a d q : Nat} {s : BundleSpsc} (I : BundleInv e L a d q s) : BundleSafe s where
  in_order := by
    refine ⟨(s.shared.published.drop d).flatten, ?_⟩
    rw [I.received, ← List.flatten_append, List.take_append_drop]
  accounted := fun hi => by
    have hat := I.pusher.at_
    have hdq : d = q := by
      have hok := I.puller
      unfold BundleOk at hok
      rw [hi] at hok
      exact hok
    subst hdq
    have hstored := Stored.around_eq_flatten hat.elem_pos hat.len_pos I.pusher.dvd _ _ I.pusher.holds.stored
    rw [I.pusher.holds.unreadBytes_eq I.pusher.dvd, hat.len, hat.head, hstored, I.received, ← List.flatten_append,
      List.take_append_drop]

/-- **A bundle pull loses nothing to a pusher that publishes nothing between its two readings of the tail.** -/
theorem bundle_spsc_quiet (b : BufferInfo) (m : Mem UInt8) (e L i : Nat) (he : 0 < e) (hd : e ∣ L) (hL : L ≤ 2 ^ 30)
    (hbe : b.elementLength.toInt = e) (hbL : b.buffLength.toInt = L) (hi : i * e < L)
    (hh : b.headIndexOffset.toInt = (i * e : Nat)) (ht : b.tailIndexOffset.toInt = (i * e : Nat))
    (acts : List BundleAct) (s : BundleSpsc) (hroom : Along BundleSpsc.step BundleSpsc.HasRoom (.init ⟨b, m⟩) acts)
    (hquiet : Along BundleSpsc.step BundleSpsc.Quiet (.init ⟨b, m⟩) acts)
    (hrun : run BundleSpsc.step (.init ⟨b, m⟩) acts = some s) : BundleSafe s := by
  have H0 := Holds.start (m := m) he hd hL hbe hbL hi hh ht
  have I0 : ∃ d q, BundleInv e L i d q (.init ⟨b, m⟩) :=
    ⟨0, 0, ⟨hd, Nat.le_refl _, H0, trivial⟩, Nat.le_refl _, rfl, rfl⟩
  obtain ⟨d, q, I⟩ := run_inv_along (I := fun s => ∃ d q, BundleInv e L i d q s)
    (fun _ _ _ ⟨_, _, I⟩ hC hs => I.step hC.1 hC.2 hs) acts _ _ I0 (hroom.and hquiet) hrun
  exact I.safe

/-- Two pulls, the second item being pushed while the first one copies. -/
theorem bundle_spsc_quiet_two_pulls : ∃ s : BundleSpsc,
    run BundleSpsc.step (.init ⟨⟨0, 0, 1, 4, 0, 1, 0⟩, fun _ => 0⟩)
      ((pushActs (fun _ => 1) 1).map .push ++
        [.readHead ⟨⟨0, 0, 1, 8, 0, 1, 0⟩, fun _ => 0⟩, .push (.readTail (fun _ => 2)), .readTail, .push .readHead, .testTail,
          .testHead, .push .copyByte, .copyByte, .rereadTail, .push .storeTail, .storeHead, .storeLocalTail] ++
        bundleActs ⟨⟨0, 0, 1, 8, 0, 1, 0⟩, fun _ => 0⟩ 1) = some s ∧ BundleSafe s ∧ s.received = [1, 2] :=
  exists_run_check (by decide +kernel) (fun s hs _ => bundle_spsc_quiet ⟨0, 0, 1, 4, 0, 1, 0⟩ (fun _ => 0) 1 4 0 (by decide)
    (by decide) (by decide) (by decide) (by decide) (by decide) (by decide) (by decide) _ s (by decide +kernel)
    (by decide +kernel) hs)

/-- Item `2` is published after the tail is read into `iw` and before it is read again: neither pull gets it. -/
theorem bundle_pull_skips_item : ∃ (acts : List BundleAct) (s : BundleSpsc),
    Along BundleSpsc.step BundleSpsc.HasRoom (.init ⟨⟨0, 0, 1, 4, 0, 1, 0⟩, fun _ => 0⟩) acts ∧
    run BundleSpsc.step (.init ⟨⟨0, 0, 1, 4, 0, 1, 0⟩, fun _ => 0⟩) acts = some s ∧ s.puller = .idle ∧
    s.shared.published = [[1], [2], [3]] ∧ s.received = [1, 3] ∧ ¬ s.received <+: s.shared.published.flatten := by
  refine ⟨(pushActs (fun _ => 1) 1).map .push ++
    [.readHead ⟨⟨0, 0, 1, 8, 0, 1, 0⟩, fun _ => 0⟩, .readTail, .testTail, .testHead, .copyByte] ++
    (pushActs (fun _ => 2) 1).map .push ++ [.rereadTail, .storeHead, .storeLocalTail] ++
    (pushActs (fun _ => 3) 1).map .push ++ bundleActs ⟨⟨0, 0, 1, 8, 0, 1, 0⟩, fun _ => 0⟩ 1, _, ?_, rfl, ?_⟩
  · decide
  · decide

end VirtualForce
