import VirtualForce.RingSpsc
import VirtualForce.BundleTransfer
/-!
# BundleFeed — a pusher of items and bundles beside a puller

A process that calls `push_circle_buff_item` and `push_circle_buff_bundle` in any order on a ring whose items another
process pulls.  The bundle function has no full test and reads no index the puller writes: it copies a byte a step,
empties its local ring, and stores the tail once for the whole bundle.  Where each bundle fits when it is begun, the
puller still gets every item, whole and in order.
-/
namespace VirtualForce

open Memory Slots Circle Runs

/-- Where `push_circle_buff_bundle` is. -/
inductive Feeder where
  | idle
  | copying (k : Nat)
  | headStored (ir iw : Int32)
deriving DecidableEq

/-- The item pusher and puller of one ring, and the local ring of a bundle under way. -/
structure Feed where
  spsc : Spsc
  loc : Ring
  feeder : Feeder

inductive FeedAct where
  | item (act : PushAct)
  | readTail (dst : Mem UInt8)
  | readHead
  | pullByte
  | storeHead
  | bundle (loc : Ring)
  | copyByte
  | storeLocalHead
  | storeTail

namespace Feed

def init (r : Ring) : Feed := ⟨Spsc.init r, r, .idle⟩

def ring (s : Feed) : Ring := s.spsc.shared.ring

def published (s : Feed) : List (List UInt8) := s.spsc.shared.published

def moves (s : Feed) : List (Int × Int) := copyMoves (pushBundleCopies s.ring.info s.loc.info)

def setShared (s : Feed) (sh : Shared) : Feed := { s with spsc := { s.spsc with shared := sh } }

/-- The items of the bundle: `n` bytes of the local ring from `ir` on, cut in pieces of the circle's item size. -/
def items (s : Feed) (ir n : Int32) : List (List UInt8) :=
  let e := s.ring.info.elementLength.toInt.toNat
  cut e (n.toInt.toNat / e) (around s.loc.buff s.loc.info.buffLength.toInt ir.toInt n.toInt.toNat)

def publish (s : Feed) (ir n : Int32) : Feed :=
  { s.setShared {
      ring := s.ring.storeTail ((s.ring.info.tailIndexOffset + n) % s.ring.info.buffLength)
      pusher := s.spsc.shared.pusher
      published := s.published ++ s.items ir n } with feeder := .idle }

def onSpsc (s : Feed) (act : SpscAct) : Option Feed := (s.spsc.step act).map (fun t => { s with spsc := t })

def step (s : Feed) : FeedAct → Option Feed
  | .item act => match s.feeder with
    | .idle => s.onSpsc (.push act)
    | _ => none
  | .readTail dst => s.onSpsc (.readTail dst)
  | .readHead => s.onSpsc .readHead
  | .pullByte => s.onSpsc .copyByte
  | .storeHead => s.onSpsc .storeHead
  | .bundle loc => match s.feeder, s.spsc.shared.pusher with
    | .idle, .idle => some { s with loc := loc, feeder := .copying 0 }
    | _, _ => none
  | .copyByte => match s.feeder with
    | .copying k => (s.moves[k]?).map (fun m =>
      { s.setShared { s.spsc.shared with ring := s.ring.storeByte m.1 (s.loc.buff m.2) } with feeder := .copying (k + 1) })
    | _ => none
  | .storeLocalHead => match s.feeder with
    | .copying k =>
      if k < s.moves.length then none
      else some { s with
        loc := s.loc.storeHead s.loc.info.tailIndexOffset
        feeder := .headStored s.loc.info.headIndexOffset s.loc.info.tailIndexOffset }
    | _ => none
  | .storeTail => match s.feeder with
    | .headStored ir iw => some (s.publish ir (pullBundleLength ir iw s.loc.info.buffLength))
    | _ => none

/-- **A bundle that is begun fits**: whole items, at least one, and with the unread bytes less than the ring. -/
def Fits (s : Feed) : FeedAct → Prop
  | .bundle loc => loc.info.InRange ∧ 0 < loc.info.unreadBytes ∧
      s.ring.info.elementLength.toInt.toNat ∣ loc.info.unreadBytes ∧
      (s.ring.info.unreadBytes + loc.info.unreadBytes : Nat) < s.ring.info.buffLength.toInt
  | _ => True

instance (s : Feed) (a : FeedAct) : Decidable (s.Fits a) := by
  unfold Fits
  cases a <;> infer_instance

end Feed

/-! ## The steps together are the call -/

def feedActs (loc : Ring) (n : Nat) : List FeedAct :=
  .bundle loc :: (List.replicate n .copyByte ++ [.storeLocalHead, .storeTail])

theorem run_feedBytes (s : Feed) (m : Mem UInt8) : ∀ (n k : Nat), k + n = s.moves.length → s.feeder = .copying k →
    s.ring.buff = runMoves m s.loc.buff (s.moves.take k) →
    run Feed.step s (List.replicate n .copyByte) =
      some { s.setShared { s.spsc.shared with ring := { s.ring with buff := runMoves m s.loc.buff s.moves } } with
        feeder := .copying (k + n) }
  | 0, k, hk, hf, hb => by
    rw [Nat.add_zero] at hk
    rw [hk, List.take_length] at hb
    rw [List.replicate_zero, run_nil, Nat.add_zero, ← hb, ← hf]
    rfl
  | n + 1, k, hk, hf, hb => by
    have hlt : k < s.moves.length := by omega
    have hmem : set s.ring.buff (s.moves[k]).1 (s.loc.buff (s.moves[k]).2) =
        runMoves m s.loc.buff (s.moves.take (k + 1)) := by
      rw [List.take_add_one, List.getElem?_eq_getElem hlt, hb]
      exact (runMoves_snoc _ _ _ _ _).symm
    have hstep : s.step .copyByte = some { s.setShared { s.spsc.shared with
        ring := { s.ring with buff := runMoves m s.loc.buff (s.moves.take (k + 1)) } } with
        feeder := .copying (k + 1) } := by
      simp only [Feed.step, hf, List.getElem?_eq_getElem hlt, Option.map_some, Ring.storeByte, hmem]
    have hrest := run_feedBytes { s.setShared { s.spsc.shared with
        ring := { s.ring with buff := runMoves m s.loc.buff (s.moves.take (k + 1)) } } with
        feeder := .copying (k + 1) } m n (k + 1) (by rw [show k + 1 + n = k + (n + 1) by omega]; exact hk) rfl rfl
    rw [List.replicate_succ, run_cons, hstep, Option.bind_some, hrest, show k + 1 + n = k + (n + 1) by omega]
    rfl

/-- **Uninterrupted, the steps of a bundle push are `push_circle_buff_bundle`.** -/
theorem run_feed_uninterrupted (s : Feed) (loc : Ring) (hf : s.feeder = .idle) (hp : s.spsc.shared.pusher = .idle)
    (hlen : ∀ c ∈ pushBundleCopies s.ring.info loc.info, 0 ≤ c.len.toInt) :
    (run Feed.step s (feedActs loc (copyMoves (pushBundleCopies s.ring.info loc.info)).length)).map
      (fun t => (t.ring, t.loc)) = some (pushCircleBuffBundle s.ring loc).2 := by
  have hcopy := run_feedBytes { s with loc := loc, feeder := .copying 0 } s.ring.buff _ 0 (Nat.zero_add _) rfl rfl
  have hbegin : s.step (.bundle loc) = some { s with loc := loc, feeder := .copying 0 } := by
    simp only [Feed.step, hf, hp]
  have hmoves : (copyMoves (pushBundleCopies s.ring.info loc.info)).length =
      (Feed.moves { s with loc := loc, feeder := .copying 0 }).length := rfl
  rw [feedActs, run_cons, hbegin, Option.bind_some, run_append, hmoves, hcopy, Option.bind_some, pushCircleBuffBundle,
    runCopies_eq _ _ _ hlen]
  simp only [run_cons, run_nil, Feed.step, Feed.moves, Feed.setShared, Feed.ring, Nat.zero_add, Nat.lt_irrefl, if_false,
    Option.bind_some, Option.map_some, Feed.publish, Ring.storeTail, Ring.storeHead]
  rfl

/-! ## What holds at every point -/

/-- **The other process has changed the ring**, but no byte of an item published and not released. -/
theorem SpscInv.of_shared {e L a : Nat} {s : Spsc} (I : SpscInv e L a s) {sh : Shared}
    (I' : PushInv e L a s.delivered.length sh) (hpub : s.shared.published <+: sh.published)
    (hkeep : ∀ k, s.delivered.length ≤ k → k < s.shared.published.length → ∀ i : Nat, i < e →
      sh.ring.buff (slot e L (a + k) + i) = s.shared.ring.buff (slot e L (a + k) + i)) :
    SpscInv e L a { s with shared := sh } := by
  refine ⟨I', I.delivered.trans hpub, ?_⟩
  have hok := I.puller
  have hlen := hpub.length_le
  unfold PullerOk at hok ⊢
  simp only
  cases hp : s.puller with
  | idle => trivial
  | tailRead dst tail =>
    rw [hp] at hok
    obtain ⟨p, h1, h2, h3⟩ := hok
    exact ⟨p, h1, Nat.le_trans h2 hlen, h3⟩
  | copying dst i =>
    rw [hp] at hok
    obtain ⟨h1, h2, h3⟩ := hok
    refine ⟨Nat.lt_of_lt_of_le h1 hlen, h2, fun j hj => ?_⟩
    rw [h3 j hj]
    exact (hkeep _ (Nat.le_refl _) h1 j (by omega)).symm

/-- **What a step of the puller leaves**: it writes the head, and nothing else of the ring. -/
theorem Spsc.step_pull {s s' : Spsc} {act : SpscAct} (hact : ∀ a, act ≠ .push a) (h : s.step act = some s') :
    s'.shared.pusher = s.shared.pusher ∧ s'.shared.published = s.shared.published ∧
      s'.shared.ring.buff = s.shared.ring.buff ∧ s.delivered.length ≤ s'.delivered.length := by
  cases act with
  | push a => exact absurd rfl (hact a)
  | readTail dst =>
    simp only [Spsc.step] at h
    split at h
    · cases h
      exact ⟨rfl, rfl, rfl, Nat.le_refl _⟩
    · cases h
  | readHead =>
    simp only [Spsc.step] at h
    split at h
    · split at h <;> cases h <;> exact ⟨rfl, rfl, rfl, Nat.le_refl _⟩
    · cases h
  | copyByte =>
    simp only [Spsc.step] at h
    split at h
    · split at h <;> cases h
      exact ⟨rfl, rfl, rfl, Nat.le_refl _⟩
    · cases h
  | storeHead =>
    simp only [Spsc.step] at h
    split at h
    · split at h <;> cases h
      refine ⟨rfl, rfl, rfl, ?_⟩
      rw [List.length_append]
      exact Nat.le_add_right _ _
    · cases h

/-- **`n` items are being placed behind the published ones**, `k` bytes so far, from byte `b` of a local
ring of `Ls` bytes. -/
structure Placing (e L a : Nat) (s : Spsc) (src : Mem UInt8) (n b Ls k : Nat) : Prop where
  idle : s.shared.pusher = .idle
  room : s.shared.published.length + n < s.delivered.length + L / e
  copied : ∀ j, j < k →
    s.shared.ring.buff ((slot e L (a + s.shared.published.length) + j) % L : Nat) = src ((b + j) % Ls : Nat)

def FeederOk (e L a : Nat) (s : Feed) : Prop :=
  match s.feeder with
  | .idle => True
  | .copying k => ∃ n b t Ls, OffsetsAt s.loc.info b t Ls ∧ s.loc.info.unreadBytes = n * e ∧ 0 < n ∧ k ≤ n * e ∧
      Placing e L a s.spsc s.loc.buff n b Ls k
  | .headStored ir iw => ∃ n b Ls, ir.toInt = (b : Nat) ∧ s.loc.info.buffLength.toInt = (Ls : Nat) ∧
      (pullBundleLength ir iw s.loc.info.buffLength).toInt = (n * e : Nat) ∧
      Placing e L a s.spsc s.loc.buff n b Ls (n * e)

structure FeedInv (e L a : Nat) (s : Feed) : Prop where
  spsc : SpscInv e L a s.spsc
  feeder : FeederOk e L a s

namespace FeedInv

variable {e L a : Nat} {s s' : Feed}

theorem onSpsc_pull (I : FeedInv e L a s) {act : SpscAct} (hact : ∀ p, act ≠ .push p) (h : s.onSpsc act = some s') :
    FeedInv e L a s' := by
  simp only [Feed.onSpsc, Option.map_eq_some_iff] at h
  obtain ⟨t, ht, rfl⟩ := h
  obtain ⟨hpusher, hpub, hbuff, hdel⟩ := Spsc.step_pull hact ht
  have hplacing : ∀ n b Ls k, Placing e L a s.spsc s.loc.buff n b Ls k → Placing e L a t s.loc.buff n b Ls k := by
    intro n b Ls k P
    refine ⟨hpusher.trans P.idle, ?_, ?_⟩
    · rw [hpub]
      exact Nat.lt_of_lt_of_le P.room (Nat.add_le_add_right hdel _)
    · rw [hpub, hbuff]
      exact P.copied
  refine ⟨SpscInv.step _ _ _ I.spsc ht, ?_⟩
  have hok := I.feeder
  unfold FeederOk at hok ⊢
  simp only
  cases hf : s.feeder with
  | idle => trivial
  | copying k =>
    rw [hf] at hok
    obtain ⟨n, b, t', Ls, O, hn, hpos, hk, P⟩ := hok
    exact ⟨n, b, t', Ls, O, hn, hpos, hk, hplacing _ _ _ _ P⟩
  | headStored ir iw =>
    rw [hf] at hok
    obtain ⟨n, b, Ls, hir, hL, hlen, P⟩ := hok
    exact ⟨n, b, Ls, hir, hL, hlen, hplacing _ _ _ _ P⟩

section
variable {n b Ls k : Nat}

theorem bytes_lt (I : FeedInv e L a s) (P : Placing e L a s.spsc s.loc.buff n b Ls k) : n * e < L := by
  have hle := I.spsc.pusher.le
  have hroom := P.room
  exact mul_lt_of_lt_div I.spsc.pusher.at_.elem_pos (by omega)

/-- The moves of a bundle that fits are one way round both rings. -/
theorem moves_eq (I : FeedInv e L a s) (P : Placing e L a s.spsc s.loc.buff n b Ls k) {t : Nat}
    (O : OffsetsAt s.loc.info b t Ls) (hn : s.loc.info.unreadBytes = n * e) (hpos : 0 < n) :
    s.moves = round (slot e L (a + s.spsc.shared.published.length)) b L Ls (n * e) := by
  have hat := I.spsc.pusher.at_
  have hbytes := I.bytes_lt P
  have hlen := hat.len_le
  have htail := hat.tail_lt
  have hplan : planLength b t Ls = n * e := by
    rw [← hn]
    exact O.planLength_eq (by rw [hn]; exact Nat.mul_pos hpos hat.elem_pos)
  have hnums := pullBundleCopies_nums O.head O.tail hat.tail O.len hat.len O.head_lt O.tail_lt htail O.len_lt (by omega)
  have hmoves := plan_moves O.head_lt O.tail_lt htail (by rw [hplan]; omega)
  rw [hplan] at hmoves
  rw [← hmoves, ← copyMoves_eq_planMoves _ _ hnums]
  rfl

/-- **No byte of the bundle is a byte of an item published and not released.** -/
theorem apart (I : FeedInv e L a s) (P : Placing e L a s.spsc s.loc.buff n b Ls k) {j : Nat} (hj : j < n * e) {i : Nat}
    (hq : s.spsc.delivered.length ≤ i) (hi : i < s.spsc.shared.published.length) {o : Nat} (ho : o < e) :
    slot e L (a + i) + o ≠ (slot e L (a + s.spsc.shared.published.length) + j) % L := by
  have hat := I.spsc.pusher.at_
  have hdvd := I.spsc.pusher.dvd
  have hroom := P.room
  have hjn : j / e < n := (Nat.div_lt_iff_lt_mul hat.elem_pos).2 hj
  have hr : j % e < e := Nat.mod_lt _ hat.elem_pos
  rw [slot_byte hat.elem_pos hat.len_pos hdvd]
  generalize j / e = c at hjn
  generalize j % e = r at hr
  rcases slot_disjoint hat.len_pos hdvd (a := a + i) (b := a + s.spsc.shared.published.length + c) (by omega) (by omega)
    with h | h
  · omega
  · omega

end

theorem copyByte (I : FeedInv e L a s) (h : s.step .copyByte = some s') : FeedInv e L a s' := by
  have hat := I.spsc.pusher.at_
  simp only [Feed.step] at h
  split at h
  · rename_i k hf
    have hok := I.feeder
    rw [FeederOk, hf] at hok
    obtain ⟨n, b, t, Ls, O, hn, hpos, hk, P⟩ := hok
    have hbytes := I.bytes_lt P
    rw [I.moves_eq P O hn hpos, Option.map_eq_some_iff] at h
    obtain ⟨m, hm, rfl⟩ := h
    obtain ⟨hlt, hm⟩ := List.getElem?_eq_some_iff.1 hm
    rw [getElem_round] at hm
    rw [round_length] at hlt
    subst hm
    have hkeep : ∀ i, s.spsc.delivered.length ≤ i → i < s.spsc.shared.published.length → ∀ o : Nat, o < e →
        set s.ring.buff ((slot e L (a + s.spsc.shared.published.length) + k) % L : Nat) (s.loc.buff ((b + k) % Ls : Nat))
          (slot e L (a + i) + o) = s.ring.buff (slot e L (a + i) + o) := by
      intro i hq hi o ho
      have hne := I.apart P hlt hq hi ho
      exact set_of_ne _ _ (by omega)
    have H := I.spsc.pusher.holds
    refine ⟨I.spsc.of_shared ⟨I.spsc.pusher.dvd, I.spsc.pusher.le, ⟨H.at_, H.short, ?_⟩, ?_⟩
      List.prefix_rfl hkeep, n, b, t, Ls, O, hn, hpos, hlt, P.idle, P.room, ?_⟩
    · refine I.spsc.pusher.holds.stored.congr fun i hi o ho => ?_
      rw [List.length_drop] at hi
      have hkept := hkeep (s.spsc.delivered.length + i) (by omega) (by omega) o ho
      rwa [← Nat.add_assoc] at hkept
    · rw [PusherOk, P.idle]
      trivial
    · exact set_round (by omega) P.copied
  · cases h

theorem storeLocalHead (I : FeedInv e L a s) (h : s.step .storeLocalHead = some s') : FeedInv e L a s' := by
  simp only [Feed.step] at h
  split at h
  · rename_i k hf
    have hok := I.feeder
    rw [FeederOk, hf] at hok
    obtain ⟨n, b, t, Ls, O, hn, hpos, hk, P⟩ := hok
    rw [I.moves_eq P O hn hpos, round_length] at h
    split at h
    · cases h
    · rename_i hall
      cases h
      have hkn : k = n * e := by omega
      subst hkn
      have hlen := O.pullBundleLength_toInt (by rw [hn]; exact Nat.mul_pos hpos I.spsc.pusher.at_.elem_pos)
      rw [hn] at hlen
      exact ⟨I.spsc, n, b, Ls, O.head, O.len, hlen, P⟩
  · cases h

/-- **One store of the tail publishes the whole bundle.** -/
theorem storeTail (I : FeedInv e L a s) (h : s.step .storeTail = some s') : FeedInv e L a s' := by
  have hat := I.spsc.pusher.at_
  have hdvd := I.spsc.pusher.dvd
  have hle := I.spsc.pusher.le
  simp only [Feed.step] at h
  split at h
  · rename_i ir iw hf
    cases h
    have hok := I.feeder
    rw [FeederOk, hf] at hok
    obtain ⟨n, b, Ls, hir, hLs, hlen, P⟩ := hok
    have hbytes := I.bytes_lt P
    have hroom := P.room
    -- the items are what the slots behind the published ones now hold
    have hitems : s.items ir (pullBundleLength ir iw s.loc.info.buffLength) =
        cut e n (around s.ring.buff L (slot e L (a + s.spsc.shared.published.length)) (n * e)) := by
      have hsame := around_congr P.copied
      have hcount := Nat.mul_div_cancel n hat.elem_pos
      simp only [Feed.items, Feed.ring, hat.elem, hlen, hir, hLs, Int.toNat_natCast, hcount] at hsame ⊢
      rw [hsame]
    have hlength : (s.items ir (pullBundleLength ir iw s.loc.info.buffLength)).length = n := by
      rw [hitems, cut_length]
    have htail : ((s.ring.info.tailIndexOffset + pullBundleLength ir iw s.loc.info.buffLength) %
        s.ring.info.buffLength).toInt = slot e L (a + s.spsc.shared.published.length + n) := by
      have hlt := hat.tail_lt
      have hmax := hat.len_le
      rw [← slot_from]
      exact toInt_advance hat.tail hlen hat.len (by omega)
    have hdrop (l : List (List UInt8)) : (s.spsc.shared.published ++ l).drop s.spsc.delivered.length =
        s.spsc.shared.published.drop s.spsc.delivered.length ++ l := List.drop_append_of_le_length hle
    refine ⟨I.spsc.of_shared ⟨hdvd, ?_, ⟨?_, ?_, ?_⟩, ?_⟩ (List.prefix_append _ _) (fun _ _ _ _ _ => rfl), trivial⟩
    · rw [Feed.published, List.length_append]
      exact Nat.le_trans hle (Nat.le_add_right _ _)
    · rw [Feed.published, hdrop, List.length_append, List.length_drop, hlength]
      have hend : a + s.spsc.delivered.length + (s.spsc.shared.published.length - s.spsc.delivered.length + n) =
          a + s.spsc.shared.published.length + n := by omega
      rw [hend]
      exact { hat with tail := htail, tail_lt := slot_lt _ hat.len_pos }
    · rw [Feed.published, hdrop, List.length_append, List.length_drop, hlength, div_gcd_of_dvd hdvd]
      omega
    · rw [Feed.published, hdrop]
      refine I.spsc.pusher.holds.stored.append ?_
      rw [List.length_drop, Nat.add_assoc, Nat.add_sub_cancel' hle, hitems]
      exact stored_cut hat.elem_pos hat.len_pos hdvd _ _ _
    · rw [PusherOk, P.idle]
      trivial
  · cases h

theorem bundle (I : FeedInv e L a s) {loc : Ring} (hfits : s.Fits (.bundle loc)) (h : s.step (.bundle loc) = some s') :
    FeedInv e L a s' := by
  have hat := I.spsc.pusher.at_
  have hdvd := I.spsc.pusher.dvd
  have hle := I.spsc.pusher.le
  simp only [Feed.step] at h
  split at h
  · rename_i hf hp
    cases h
    obtain ⟨hrange, hpos, hmul, hroom⟩ := hfits
    have hunread := I.spsc.pusher.holds.unreadBytes_eq hdvd
    rw [List.length_drop] at hunread
    rw [Feed.ring, hat.elem, Int.toNat_natCast] at hmul
    obtain ⟨n, hn⟩ := hmul
    rw [Feed.ring, hunread, hat.len, hn, Nat.mul_comm e n, ← Nat.add_mul] at hroom
    have hitems : s.spsc.shared.published.length - s.spsc.delivered.length + n < L / e := by
      by_contra hge
      have hmul := Nat.mul_le_mul_right e (Nat.le_of_not_lt hge)
      rw [Nat.div_mul_cancel hdvd] at hmul
      omega
    have hend : s.spsc.shared.published.length + n < s.spsc.delivered.length + L / e := by omega
    refine ⟨I.spsc, n, _, _, _, hrange.inside.offsetsAt, by rw [hn, Nat.mul_comm], ?_, Nat.zero_le _, hp, hend,
      fun j hj => absurd hj (Nat.not_lt_zero j)⟩
    exact Nat.pos_of_ne_zero (fun h0 => by rw [hn, h0] at hpos; exact absurd hpos (Nat.lt_irrefl 0))
  · cases h

/-- **Every step keeps the invariant**, where a bundle that is begun fits. -/
theorem step (I : FeedInv e L a s) {act : FeedAct} (hfits : s.Fits act) (h : s.step act = some s') :
    FeedInv e L a s' := by
  cases act with
  | item act =>
    simp only [Feed.step] at h
    split at h
    · rename_i hf
      simp only [Feed.onSpsc, Option.map_eq_some_iff] at h
      obtain ⟨t, ht, rfl⟩ := h
      refine ⟨SpscInv.step _ _ _ I.spsc ht, ?_⟩
      simp only [FeederOk, hf]
    · cases h
  | readTail dst => exact I.onSpsc_pull (fun _ hp => by cases hp) h
  | readHead => exact I.onSpsc_pull (fun _ hp => by cases hp) h
  | pullByte => exact I.onSpsc_pull (fun _ hp => by cases hp) h
  | storeHead => exact I.onSpsc_pull (fun _ hp => by cases hp) h
  | bundle loc => exact I.bundle hfits h
  | copyByte => exact I.copyByte h
  | storeLocalHead => exact I.storeLocalHead h
  | storeTail => exact I.storeTail h

end FeedInv

/-! ## Every run -/

/-- **What every state is safe from**: the items delivered are a prefix of the items published, singly or in bundles, each
a whole one, and the byte written next, of an item or of a bundle, is in no item published and not released. -/
structure FeedSafe (s : Feed) : Prop where
  spsc : SpscSafe s.spsc
  apart : ∀ (k : Nat) (m : Int × Int), s.feeder = .copying k → s.moves[k]? = some m → ¬ s.ring.info.Unread m.1

theorem FeedInv.safe {e L a : Nat} {s : Feed} (I : FeedInv e L a s) : FeedSafe s where
  spsc := I.spsc.safe
  apart := fun k m hf hm hx => by
    have hok := I.feeder
    rw [FeederOk, hf] at hok
    obtain ⟨n, b, t, Ls, O, hn, hpos, hk, P⟩ := hok
    rw [I.moves_eq P O hn hpos] at hm
    obtain ⟨hlt, rfl⟩ := List.getElem?_eq_some_iff.1 hm
    rw [getElem_round] at hx
    rw [round_length] at hlt
    obtain ⟨i, hi, h1, h2⟩ := I.spsc.pusher.holds.unread_slot I.spsc.pusher.dvd hx
    rw [List.length_drop] at hi
    have hne := I.apart P hlt (i := s.spsc.delivered.length + i) (by omega) (by omega)
      (o := (slot e L (a + s.spsc.shared.published.length) + k) % L - slot e L (a + s.spsc.delivered.length + i)) (by omega)
    rw [← Nat.add_assoc] at hne
    omega

/-- **Bundles are pushed beside a puller of items without a lock**: over every interleaving, from an empty ring at an
aligned offset, where each bundle fits when it is begun. -/
theorem bundle_feed (b : BufferInfo) (m : Mem UInt8) (e L i : Nat) (he : 0 < e) (hd : e ∣ L) (hL : L ≤ 2 ^ 30)
    (hbe : b.elementLength.toInt = e) (hbL : b.buffLength.toInt = L) (hi : i * e < L)
    (hh : b.headIndexOffset.toInt = (i * e : Nat)) (ht : b.tailIndexOffset.toInt = (i * e : Nat))
    (acts : List FeedAct) (s : Feed) (hfits : Along Feed.step Feed.Fits (.init ⟨b, m⟩) acts)
    (hrun : run Feed.step (.init ⟨b, m⟩) acts = some s) : FeedSafe s := by
  have H0 := Holds.start (m := m) he hd hL hbe hbL hi hh ht
  have I0 : FeedInv e L i (.init ⟨b, m⟩) :=
    ⟨⟨⟨hd, Nat.le_refl _, H0, trivial⟩, List.prefix_rfl, trivial⟩, trivial⟩
  exact (run_inv_along (fun _ _ _ I hC hs => I.step hC hs) acts _ _ I0 hfits hrun).safe

/-- An item in the last slot, pulled while a bundle of two goes to the first ones. -/
theorem bundle_feed_round : ∃ s : Feed, run Feed.step (.init ⟨⟨6, 6, 2, 8, 0, 1, 0⟩, fun _ => 0⟩)
      ((pushActs (fun _ => 9) 2).map .item ++
        [.readTail (fun _ => 0), .bundle ⟨⟨2, 6, 1, 8, 0, 1, 0⟩, fun x => x.toNat.toUInt8⟩, .copyByte, .readHead, .copyByte,
          .pullByte, .copyByte, .pullByte, .copyByte, .storeLocalHead, .storeHead, .storeTail]) = some s ∧ FeedSafe s :=
  exists_run (by decide +kernel) (fun s hs => bundle_feed ⟨6, 6, 2, 8, 0, 1, 0⟩ (fun _ => 0) 2 8 3 (by decide) (by decide)
    (by decide) (by decide) (by decide) (by decide) (by decide) (by decide) _ s (by decide +kernel) hs)

end VirtualForce
