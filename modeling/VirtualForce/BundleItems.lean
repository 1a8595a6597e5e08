import VirtualForce.BundleTransfer
/-!
# BundleItems — a bundle is its items, one by one

Between two aligned rings of one item size, a bundle ends as pulling an item and pushing it does, over and over until
the source is empty: the same control blocks, the same bytes.
-/
namespace VirtualForce

open Memory Slots Circle

/-- **Item by item**: pull one and push it until the source is empty, and what each push returned.  `none` when `fuel`
tests of the source are not enough. -/
def moveItems : Nat → Ring → Ring → Mem UInt8 → Option (Ring × Ring × List Int32)
  | 0, _, _, _ => none
  | fuel + 1, src, dst, item =>
    if isBuffEmpty src.info then some (src, dst, [])
    else
      let (_, src', item') := pullCircleBuffItem src item
      let (ret, dst') := pushCircleBuffItem dst item'
      (moveItems fuel src' dst' item').map (fun (s, d, rets) => (s, d, ret :: rets))

/-- A positive item size divides the buffer size and both offsets. -/
def BufferInfo.Aligned (b : BufferInfo) : Prop :=
  b.InRange ∧ 0 < b.elementLength.toInt ∧ b.elementLength.toInt ∣ b.buffLength.toInt ∧
    b.elementLength.toInt ∣ b.headIndexOffset.toInt ∧ b.elementLength.toInt ∣ b.tailIndexOffset.toInt

instance (b : BufferInfo) : Decidable b.Aligned := inferInstanceAs (Decidable (_ ∧ _))

/-- The offsets of an aligned ring are those of some items in and some out. -/
theorem BufferInfo.Aligned.turned {b : BufferInfo} (h : b.Aligned) :
    ∃ e L q p : Nat, e ∣ L ∧ Turned e L q p b := by
  obtain ⟨hrange, hpos, hlen, hhead, htail⟩ := h
  have O := hrange.inside.offsetsAt
  have hle : b.buffLength.toInt.toNat ≤ 2 ^ 30 := Int.toNat_le.2 hrange.2.2
  obtain ⟨e, he⟩ := Int.eq_ofNat_of_zero_le (Int.le_of_lt hpos)
  rw [he, O.len, Int.natCast_dvd_natCast] at hlen
  rw [he, O.head, Int.natCast_dvd_natCast] at hhead
  rw [he, O.tail, Int.natCast_dvd_natCast] at htail
  generalize b.headIndexOffset.toInt.toNat = h at O hhead
  generalize b.tailIndexOffset.toInt.toNat = t at O htail
  generalize b.buffLength.toInt.toNat = L at O hlen hle
  have hL : 0 < L := Nat.lt_of_le_of_lt (Nat.zero_le _) O.head_lt
  have hunread : e ∣ b.unreadBytes := by
    rw [O.unreadBytes_eq, Nat.dvd_mod_iff hlen]
    exact Nat.dvd_add htail (Nat.dvd_sub hlen hhead)
  have hq : slot e L (h / e) = h := by rw [slot, Nat.div_mul_cancel hhead, Nat.mod_eq_of_lt O.head_lt]
  have hp : slot e L (h / e + b.unreadBytes / e) = t := by
    rw [slot, Nat.add_mul, Nat.div_mul_cancel hhead, Nat.div_mul_cancel hunread, O.head_add]
  refine ⟨e, L, h / e, h / e + b.unreadBytes / e, hlen, ⟨he, O.len, ?_, ?_, ?_, ?_, hle, slot_lt _ hL, slot_lt _ hL⟩,
    Nat.le_add_right _ _, Nat.add_lt_add_left ?_ _⟩
  · rw [hq, O.head]
  · rw [hp, O.tail]
  · omega
  · exact Nat.le_trans (Nat.le_of_dvd hL hlen) hle
  · rw [div_gcd_of_dvd hlen]
    exact Nat.div_lt_div_of_lt_of_dvd hlen O.unreadBytes_lt

theorem Turned.offsetsAt {e L q p : Nat} {b : BufferInfo} (T : Turned e L q p b) :
    OffsetsAt b (slot e L q) (slot e L p) L :=
  ⟨T.at_.head, T.at_.tail, T.at_.len, T.at_.head_lt, T.at_.tail_lt⟩

/-- Carried through a buffer of its own, an item is carried. -/
theorem memcpy_memcpy {α : Type} (dst : Mem α) (d : Int) (tmp src : Mem α) (s n : Int) :
    memcpy dst d (memcpy tmp 0 src s n) 0 n = memcpy dst d src s n := by
  funext x
  unfold memcpy
  by_cases hx : d ≤ x ∧ x < d + n
  · rw [if_pos hx, if_pos hx, if_pos (by omega)]
    congr 1; omega
  · rw [if_neg hx, if_neg hx]

/-- **One item**, the source not empty and the destination not full. -/
theorem moveItems_succ (fuel : Nat) {src dst : Ring} (item : Mem UInt8) (he : isBuffEmpty src.info = false)
    (hf : isBuffFull dst.info = false) (hlen : src.info.elementLength = dst.info.elementLength) :
    ∃ item', moveItems (fuel + 1) src dst item = (moveItems fuel
      { src with info := { src.info with
          headIndexOffset := (src.info.headIndexOffset + src.info.elementLength) % src.info.buffLength } }
      { info := { dst.info with
          tailIndexOffset := (dst.info.tailIndexOffset + dst.info.elementLength) % dst.info.buffLength }
        buff := memcpy dst.buff dst.info.tailIndexOffset.toInt src.buff src.info.headIndexOffset.toInt
          dst.info.elementLength.toInt } item').map
      (fun (s, d, rets) => (s, d, dst.info.elementLength :: rets)) := by
  refine ⟨memcpy item 0 src.buff src.info.headIndexOffset.toInt src.info.elementLength.toInt, ?_⟩
  rw [moveItems, if_neg (by rw [he]; decide)]
  simp only [pullCircleBuffItem, he, pushCircleBuffItem, hf, Bool.false_eq_true, if_false]
  rw [hlen, memcpy_memcpy]

theorem round_mod (ow ir Ld Ls n : Nat) : round (ow % Ld) (ir % Ls) Ld Ls n = round ow ir Ld Ls n := by
  refine List.map_congr_left (fun i _ => ?_)
  rw [Nat.mod_add_mod, Nat.mod_add_mod]

/-- **One item and then `c` more** are `c + 1`. -/
theorem runMoves_items {e Ls Ld : Nat} (he : 0 < e) (hLs : 0 < Ls) (hLd : 0 < Ld) (hds : e ∣ Ls) (hdd : e ∣ Ld)
    (dst src : Mem UInt8) (p q c : Nat) :
    runMoves (memcpy dst (slot e Ld p) src (slot e Ls q) e) src
        (round (slot e Ld (p + 1)) (slot e Ls (q + 1)) Ld Ls (c * e)) =
      runMoves dst src (round (slot e Ld p) (slot e Ls q) Ld Ls ((c + 1) * e)) := by
  have hp := slot_add_le he hLd hdd p
  have hq := slot_add_le he hLs hds q
  rw [Nat.add_one_mul, Nat.add_comm (c * e), round_add, runMoves_append, round_eq_straight (.inl ⟨rfl, hp⟩) (.inl ⟨rfl, hq⟩),
    runMoves_straight, ← slot_succ, ← slot_succ, round_mod]

/-- **Carrying `c` items one by one carries their bytes one way round**, if the destination does not fill up before. -/
theorem moveItems_eq {e Ls Ld d : Nat} (hds : e ∣ Ls) (hdd : e ∣ Ld) : ∀ (c fuel q p : Nat) (src dst : Ring) (item : Mem UInt8),
    Turned e Ls q (q + c) src.info → Turned e Ld d p dst.info → p + c < d + Ld / e → c < fuel →
    ∃ tail : Int32, tail.toInt = slot e Ld (p + c) ∧ moveItems fuel src dst item = some
      ({ src with info := { src.info with headIndexOffset := src.info.tailIndexOffset } },
        { info := { dst.info with tailIndexOffset := tail }
          buff := runMoves dst.buff src.buff (round (slot e Ld p) (slot e Ls q) Ld Ls (c * e)) },
        List.replicate c dst.info.elementLength)
  | _, 0, _, _, _, _, _, _, _, _, hfuel => absurd hfuel (Nat.not_lt_zero _)
  | 0, fuel + 1, q, p, src, dst, item, S, D, _, _ => by
    have he := S.empty_iff.2 rfl
    refine ⟨dst.info.tailIndexOffset, D.at_.tail, ?_⟩
    rw [moveItems, if_pos he]
    have heq : src.info.tailIndexOffset = src.info.headIndexOffset := eq_of_beq he
    rw [heq, Nat.zero_mul]
    rfl
  | c + 1, fuel + 1, q, p, src, dst, item, S, D, hroom, hfuel => by
    have he : isBuffEmpty src.info = false := by
      rw [Bool.eq_false_iff, ne_eq, S.empty_iff]
      omega
    have hf : isBuffFull dst.info = false := by
      rw [Bool.eq_false_iff, ne_eq, D.full_iff, div_gcd_of_dvd hdd]
      omega
    have hlen : src.info.elementLength = dst.info.elementLength := by
      rw [← Int32.toInt_inj, S.at_.elem, D.at_.elem]
    obtain ⟨item', hstep⟩ := moveItems_succ fuel item he hf hlen
    have S' := S.pull he
    have D' := D.push hf
    rw [show q + (c + 1) = q + 1 + c by omega] at S'
    obtain ⟨tail, htail, hrest⟩ := moveItems_eq hds hdd c fuel (q + 1) (p + 1) ⟨_, src.buff⟩ ⟨_, _⟩
      item' S' D' (by omega) (by omega)
    refine ⟨tail, by rw [htail, show p + 1 + c = p + (c + 1) by omega], ?_⟩
    rw [hstep, hrest, Option.map_some, D.at_.tail, S.at_.head, D.at_.elem,
      runMoves_items S.at_.elem_pos S.at_.len_pos D.at_.len_pos hds hdd]
    rfl

/-- **The bundle is the loop**: the same rings, as many turns as items carried. -/
theorem pullCircleBuffBundle_items {src dst : Ring} {e Ls Ld qs ps qd pd : Nat} (hds : e ∣ Ls) (hdd : e ∣ Ld)
    (S : Turned e Ls qs ps src.info) (D : Turned e Ld qd pd dst.info) (hn : qs < ps) (hroom : pd + (ps - qs) < qd + Ld / e)
    (item : Mem UInt8) (fuel : Nat) (hfuel : ps - qs < fuel) :
    (pullCircleBuffBundle src dst).1.toInt = ((ps - qs) * e : Nat) ∧ moveItems fuel src dst item = some
      ((pullCircleBuffBundle src dst).2.1, (pullCircleBuffBundle src dst).2.2,
        List.replicate (ps - qs) dst.info.elementLength) := by
  have hle := D.le
  have hbytes := S.unreadBytes_eq hds
  have hfit : (ps - qs) * e < Ld := mul_lt_of_lt_div D.at_.elem_pos (by omega)
  have htd := D.at_.tail_lt
  obtain ⟨len, hlen, heq⟩ := pullCircleBuffBundle_eq S.offsetsAt D.offsetsAt
    (by rw [hbytes]; exact Nat.mul_pos (by omega) S.at_.elem_pos) (by omega)
  rw [hbytes] at hlen heq
  have S' : Turned e Ls qs (qs + (ps - qs)) src.info := by rwa [Nat.add_sub_cancel' (Nat.le_of_lt hn)]
  obtain ⟨tail, htail, hmoved⟩ := moveItems_eq hds hdd (ps - qs) fuel qs pd src dst item S' D hroom hfuel
  have hlast : tail = (dst.info.tailIndexOffset + len) % dst.info.buffLength := by
    have hLd := D.at_.len_le
    rw [← Int32.toInt_inj, htail, toInt_advance D.at_.tail hlen D.at_.len (by omega), slot_from]
  rw [heq]
  refine ⟨hlen, ?_⟩
  rw [hmoved, hlast]

/-- **The rings a bundle leaves are those of the loop**: it comes to an end, no push in it is refused, and it takes as
many turns as there are items in the bytes the bundle returns. -/
structure SameAsItems (src dst : Ring) (ret : Int32) (src' dst' : Ring) : Prop where
  bytes : ret.toInt = src.info.unreadBytes
  loop : ∀ item fuel, ret.toInt.toNat / src.info.elementLength.toInt.toNat < fuel →
    ∃ rets, moveItems fuel src dst item = some (src', dst', rets) ∧
      rets.length = ret.toInt.toNat / src.info.elementLength.toInt.toNat ∧ ∀ r ∈ rets, r ≠ -1

/-- **Either bundle function does what the item functions do**, from a source that is not empty, if there is room. -/
theorem bundle_same_as_items (src dst : Ring) (hsrc : src.info.Aligned) (hdst : dst.info.Aligned)
    (he : src.info.elementLength = dst.info.elementLength) (hn : 0 < src.info.unreadBytes)
    (hroom : (dst.info.unreadBytes + src.info.unreadBytes : Nat) ≤
      dst.info.buffLength.toInt - dst.info.elementLength.toInt) :
    SameAsItems src dst (pushCircleBuffBundle dst src).1 (pushCircleBuffBundle dst src).2.2
        (pushCircleBuffBundle dst src).2.1 ∧
      SameAsItems src dst (pullCircleBuffBundle src dst).1 (pullCircleBuffBundle src dst).2.1
        (pullCircleBuffBundle src dst).2.2 := by
  obtain ⟨e, Ls, qs, ps, hds, S⟩ := hsrc.turned
  obtain ⟨e', Ld, qd, pd, hdd, D⟩ := hdst.turned
  have hee : e' = e := by
    have h := he ▸ S.at_.elem
    rw [D.at_.elem] at h
    exact Int.ofNat_inj.1 h
  subst hee
  have hpos := S.at_.elem_pos
  rw [S.unreadBytes_eq hds] at hn hroom
  rw [D.unreadBytes_eq hdd, D.at_.len, D.at_.elem, ← Nat.add_mul] at hroom
  have hsome : qs < ps := by
    have := Nat.pos_of_mul_pos_right hn
    omega
  have hle := D.le
  have hturn : pd - qd + (ps - qs) + 1 ≤ Ld / e' := by
    rw [Nat.le_div_iff_mul_le hpos, Nat.add_one_mul]
    omega
  have hmoved := fun item fuel => pullCircleBuffBundle_items hds hdd S D hsome (by omega) item fuel
  have hret := (hmoved (fun _ => 0) _ (Nat.lt_succ_self _)).1
  have hpull : SameAsItems src dst (pullCircleBuffBundle src dst).1 (pullCircleBuffBundle src dst).2.1
      (pullCircleBuffBundle src dst).2.2 := by
    refine ⟨by rw [hret, S.unreadBytes_eq hds], fun item fuel hfuel => ?_⟩
    rw [hret, Int.toNat_natCast, S.at_.elem, Int.toNat_natCast, Nat.mul_div_cancel _ hpos] at hfuel ⊢
    refine ⟨_, (hmoved item fuel hfuel).2, List.length_replicate, fun r hr => ?_⟩
    have hneg : (-1 : Int32).toInt = -1 := rfl
    rw [List.eq_of_mem_replicate hr, ne_eq, ← Int32.toInt_inj, D.at_.elem, hneg]
    omega
  rw [pushCircleBuffBundle_eq src dst (S.offsetsAt.not_empty (by rw [S.unreadBytes_eq hds]; exact hn))]
  exact ⟨hpull, hpull⟩

/-- Two items of two bytes across the end of a buffer of three items, to a buffer of four that goes round between. -/
theorem bundle_same_as_items_round :
    SameAsItems ⟨⟨2, 4, 2, 6, 0, 1, 0⟩, fun _ => 7⟩ ⟨⟨6, 4, 2, 8, 0, 1, 0⟩, fun _ => 0⟩
        (pushCircleBuffBundle ⟨⟨6, 4, 2, 8, 0, 1, 0⟩, fun _ => 0⟩ ⟨⟨2, 4, 2, 6, 0, 1, 0⟩, fun _ => 7⟩).1
        (pushCircleBuffBundle ⟨⟨6, 4, 2, 8, 0, 1, 0⟩, fun _ => 0⟩ ⟨⟨2, 4, 2, 6, 0, 1, 0⟩, fun _ => 7⟩).2.2
        (pushCircleBuffBundle ⟨⟨6, 4, 2, 8, 0, 1, 0⟩, fun _ => 0⟩ ⟨⟨2, 4, 2, 6, 0, 1, 0⟩, fun _ => 7⟩).2.1 ∧
      SameAsItems ⟨⟨2, 4, 2, 6, 0, 1, 0⟩, fun _ => 7⟩ ⟨⟨6, 4, 2, 8, 0, 1, 0⟩, fun _ => 0⟩
        (pullCircleBuffBundle ⟨⟨2, 4, 2, 6, 0, 1, 0⟩, fun _ => 7⟩ ⟨⟨6, 4, 2, 8, 0, 1, 0⟩, fun _ => 0⟩).1
        (pullCircleBuffBundle ⟨⟨2, 4, 2, 6, 0, 1, 0⟩, fun _ => 7⟩ ⟨⟨6, 4, 2, 8, 0, 1, 0⟩, fun _ => 0⟩).2.1
        (pullCircleBuffBundle ⟨⟨2, 4, 2, 6, 0, 1, 0⟩, fun _ => 7⟩ ⟨⟨6, 4, 2, 8, 0, 1, 0⟩, fun _ => 0⟩).2.2 :=
  bundle_same_as_items ⟨⟨2, 4, 2, 6, 0, 1, 0⟩, fun _ => 7⟩ ⟨⟨6, 4, 2, 8, 0, 1, 0⟩, fun _ => 0⟩ (by decide) (by decide)
    (by decide) (by decide) (by decide)

end VirtualForce
