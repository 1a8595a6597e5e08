import Mathlib.Data.Set.Basic
import VirtualForce.BundleTransfer
import VirtualForce.Checked
/-!
# BundleBounds — how far the copies of a bundle reach

Neither bundle function tests the room of its destination.  Statement by statement, with an `int` operation stopping at
an overflow, a bundle between rings of at most `2 ^ 30` bytes takes one branch and returns from it, and reads inside its
source; it writes inside its destination exactly when the destination is met at its end at most once:
`n ≤ 2 * Ld - ow`.
-/
namespace VirtualForce

open Memory Checked

/-- The branches that copy, in the order of the source. -/
inductive Branch where
  | straight
  | dstRound
  | srcRound
  | srcThenDst
  | dstThenSrc
deriving DecidableEq

/-- The rings of a bundle, from `src` to `dst`; what it did: the branches it took, its copies; and whether it came to
its last `return -1`. -/
structure BundleState where
  src : Ring
  dst : Ring
  branches : List Branch
  copies : List Copy
  atEnd : Bool

abbrev Bundle (α : Type) := Block BundleState Int32 α

def enter (b : Branch) : Bundle Unit := modify fun s => { s with branches := s.branches ++ [b] }

/-- `memcpy(dst + d, src + o, n)`, from buffer to buffer. -/
def copyBytes (d o n : Int32) : Bundle Unit := modify fun s =>
  { s with
    dst := { s.dst with buff := memcpy s.dst.buff d.toInt s.src.buff o.toInt n.toInt }
    copies := s.copies ++ [⟨d, o, n⟩] }

/-- The copies where `ir < iw`. -/
def copyAhead (ir iw ow dstLen : Int32) : Bundle Unit := do
  if (← sub dstLen ow) > (← sub iw ir) then
    enter .straight
    copyBytes ow ir (← sub iw ir)
  else
    enter .dstRound
    copyBytes ow ir (← sub dstLen ow)
    copyBytes 0 (← add ir (← sub dstLen ow)) (← sub (← sub iw ir) (← sub dstLen ow))

/-- The copies where `ir ≥ iw`; the last condition is tested like the others. -/
def copyRound (ir iw ow srcLen dstLen : Int32) : Bundle Unit := do
  if (← sub dstLen ow) ≥ (← add (← sub srcLen ir) iw) then
    enter .srcRound
    copyBytes ow ir (← sub srcLen ir)
    copyBytes (← add ow (← sub srcLen ir)) 0 iw
  else if (← sub dstLen ow) ≥ (← sub srcLen ir) then
    enter .srcThenDst
    copyBytes ow ir (← sub srcLen ir)
    copyBytes (← add ow (← sub srcLen ir)) 0 (← sub (← sub dstLen ow) (← sub srcLen ir))
    copyBytes 0 (← sub (← sub dstLen ow) (← sub srcLen ir))
      (← sub (← add (← sub srcLen ir) iw) (← sub dstLen ow))
  else if (← sub dstLen ow) < (← sub srcLen ir) then
    enter .dstThenSrc
    copyBytes ow ir (← sub dstLen ow)
    copyBytes 0 (← add ir (← sub dstLen ow)) (← sub (← sub srcLen ir) (← sub dstLen ow))
    copyBytes (← sub (← sub srcLen ir) (← sub dstLen ow)) 0 iw

/-- The offsets on, and out of the function: `n` is written twice in the source. -/
def carry (n : Bundle Int32) : Bundle Unit := do
  modify fun s => { s with
    src := { s.src with info := { s.src.info with headIndexOffset := s.src.info.tailIndexOffset } } }
  let info := (← get).dst.info
  let tail ← mod (← add info.tailIndexOffset (← n)) info.buffLength
  modify fun s => { s with dst := { s.dst with info := { s.dst.info with tailIndexOffset := tail } } }
  ret (← n)

/-- The statements the two functions share. -/
def bundleBody : Bundle Unit := do
  let src := (← get).src.info
  let dst := (← get).dst.info
  let ir := src.headIndexOffset
  let iw := src.tailIndexOffset
  let ow := dst.tailIndexOffset
  if ir < iw then
    copyAhead ir iw ow dst.buffLength
    carry (sub iw ir)
  else
    copyRound ir iw ow src.buffLength dst.buffLength
    carry (do add (← sub src.buffLength ir) iw)

/-- The `return -1` behind the branches. -/
def lastReturn : Bundle Unit := do
  modify fun s => { s with atEnd := true }
  ret (-1)

/-- `push_circle_buff_bundle`, statement by statement. -/
def pushCircleBuffBundleChecked (circle loc : Ring) : Except (Exit Int32) Unit × BundleState :=
  exec (do bundleBody; lastReturn) { src := loc, dst := circle, branches := [], copies := [], atEnd := false }

/-- `pull_circle_buff_bundle`, statement by statement. -/
def pullCircleBuffBundleChecked (circle loc : Ring) : Except (Exit Int32) Unit × BundleState :=
  exec (do
      if isBuffEmpty (← get).src.info then ret 0
      bundleBody
      lastReturn)
    { src := circle, dst := loc, branches := [], copies := [], atEnd := false }

/-! ## Nothing overflows -/

/-- A branch and its copies. -/
def copyAll (br : Branch) (cs : List Copy) : Bundle Unit := do
  enter br
  forM cs fun c => copyBytes c.dst c.src c.len

def BundleState.copied (s : BundleState) (br : Branch) (cs : List Copy) : BundleState :=
  { s with
    dst := { s.dst with buff := runCopies s.dst.buff s.src.buff cs }
    branches := s.branches ++ [br]
    copies := s.copies ++ cs }

theorem exec_copies (cs : List Copy) (s : BundleState) : exec (forM cs fun c => copyBytes c.dst c.src c.len) s = (.ok (),
    { s with dst := { s.dst with buff := runCopies s.dst.buff s.src.buff cs }, copies := s.copies ++ cs }) := by
  induction cs generalizing s with
  | nil =>
    rw [List.append_nil]
    rfl
  | cons c cs ih =>
    have hstep : exec (copyBytes c.dst c.src c.len) s = (.ok (), { s with
        dst := { s.dst with buff := memcpy s.dst.buff c.dst.toInt s.src.buff c.src.toInt c.len.toInt }
        copies := s.copies ++ [c] }) := rfl
    rw [List.forM_cons, exec_bind_ok hstep, ih, List.append_assoc]
    rfl

theorem exec_copyAll (br : Branch) (cs : List Copy) (s : BundleState) :
    exec (copyAll br cs) s = (.ok (), s.copied br cs) := by
  have henter : exec (enter br) s = (.ok (), { s with branches := s.branches ++ [br] }) := rfl
  rw [copyAll, exec_bind_ok henter, exec_copies]
  rfl

/-- **The offsets a bundle uses are inside buffers of at most `2 ^ 30` bytes.**  The read offset of the destination is
not one of them. -/
def BundleRange (src dst : BufferInfo) : Prop :=
  src.InRange ∧ (0 ≤ dst.tailIndexOffset.toInt ∧ dst.tailIndexOffset.toInt < dst.buffLength.toInt) ∧
    dst.buffLength.toInt ≤ 2 ^ 30

instance (src dst : BufferInfo) : Decidable (BundleRange src dst) := inferInstanceAs (Decidable (_ ∧ _))

/-- **They stand for these numbers.** -/
structure BundleAt (src dst : BufferInfo) (a b c Ls Ld : Nat) : Prop where
  src : OffsetsAt src a b Ls
  tail : dst.tailIndexOffset.toInt = c
  len : dst.buffLength.toInt = Ld
  tail_lt : c < Ld
  src_le : Ls ≤ 2 ^ 30
  dst_le : Ld ≤ 2 ^ 30

theorem BundleRange.bundleAt {src dst : BufferInfo} (h : BundleRange src dst) :
    ∃ a b c Ls Ld, BundleAt src dst a b c Ls Ld := by
  obtain ⟨hsrc, ⟨hnonneg, hlt⟩, hle⟩ := h
  have hsrcLe := hsrc.2.2
  exact ⟨_, _, dst.tailIndexOffset.toInt.toNat, _, dst.buffLength.toInt.toNat, hsrc.inside.offsetsAt, by omega, by omega,
    by omega, by omega, by omega⟩

namespace BundleAt

variable {src dst : BufferInfo} {a b c Ls Ld : Nat}

/-- The bytes to the end of the destination. -/
theorem room (B : BundleAt src dst a b c Ls Ld) : (dst.buffLength - dst.tailIndexOffset).toInt = (Ld - c : Nat) := by
  have hlt := B.tail_lt
  have hle := B.dst_le
  exact toInt_sub_of_le B.len B.tail (by omega) (by omega)

/-- The bytes to the end of the source. -/
theorem first (B : BundleAt src dst a b c Ls Ld) : (src.buffLength - src.headIndexOffset).toInt = (Ls - a : Nat) := by
  have hlt := B.src.head_lt
  have hle := B.src_le
  exact toInt_sub_of_le B.src.len B.src.head (by omega) (by omega)

theorem copyAhead_eq (B : BundleAt src dst a b c Ls Ld) (hlt : a < b) :
    ∃ br, copyAhead src.headIndexOffset src.tailIndexOffset dst.tailIndexOffset dst.buffLength =
      copyAll br (pushBundleCopies dst src) := by
  have ⟨S, _, _, hc, hLs, hLd⟩ := B
  have ht := S.tail_lt
  have hroom := B.room
  have hgap := toInt_sub_of_le S.tail S.head (by omega) (by omega)
  unfold copyAhead pushBundleCopies
  rw [if_pos ((lt_iff_of_toInt S.head S.tail).2 hlt), sub_eq B.len B.tail (by omega), sub_eq S.tail S.head (by omega)]
  simp only [pure_bind]
  by_cases hfit : Ld - c > b - a
  · have hcond := (lt_iff_of_toInt hgap hroom).2 hfit
    refine ⟨.straight, ?_⟩
    rw [if_pos hcond, if_pos hcond]
    simp [copyAll]
  · have hcond := mt (lt_iff_of_toInt hgap hroom).1 hfit
    refine ⟨.dstRound, ?_⟩
    rw [if_neg hcond, if_neg hcond, add_eq S.head hroom (by omega), sub_eq hgap hroom (by omega)]
    simp [copyAll]

theorem copyRound_eq (B : BundleAt src dst a b c Ls Ld) (hle : b ≤ a) :
    ∃ br, copyRound src.headIndexOffset src.tailIndexOffset dst.tailIndexOffset src.buffLength dst.buffLength =
      copyAll br (pushBundleCopies dst src) := by
  have ⟨S, _, _, hc, hLs, hLd⟩ := B
  have hh := S.head_lt
  have hroom := B.room
  have hfirst := B.first
  have hwhole := toInt_add_of_lt hfirst S.tail (by omega)
  unfold copyRound pushBundleCopies
  rw [if_neg (mt (lt_iff_of_toInt S.head S.tail).1 (by omega)), sub_eq B.len B.tail (by omega),
    sub_eq S.len S.head (by omega)]
  simp only [pure_bind]
  rw [add_eq hfirst S.tail (by omega)]
  simp only [pure_bind]
  by_cases hall : Ld - c ≥ Ls - a + b
  · have hcond := (le_iff_of_toInt hwhole hroom).2 hall
    refine ⟨.srcRound, ?_⟩
    rw [if_pos hcond, if_pos hcond, add_eq B.tail hfirst (by omega)]
    simp [copyAll]
  · have hcond := mt (le_iff_of_toInt hwhole hroom).1 hall
    rw [if_neg hcond, if_neg hcond]
    by_cases hpart : Ld - c ≥ Ls - a
    · have hcond := (le_iff_of_toInt hfirst hroom).2 hpart
      refine ⟨.srcThenDst, ?_⟩
      rw [if_pos hcond, if_pos hcond, add_eq B.tail hfirst (by omega), sub_eq hroom hfirst (by omega),
        sub_eq hwhole hroom (by omega)]
      simp [copyAll]
    · -- what is left of the conditions is the last one
      have hcond := mt (le_iff_of_toInt hfirst hroom).1 hpart
      have hlast := (lt_iff_of_toInt hroom hfirst).2 (by omega)
      refine ⟨.dstThenSrc, ?_⟩
      rw [if_neg hcond, if_neg hcond, if_pos hlast, if_pos hlast, add_eq S.head hroom (by omega),
        sub_eq hfirst hroom (by omega)]
      simp [copyAll]

end BundleAt

/-- The state a bundle of `len` bytes leaves. -/
def BundleState.carried (s : BundleState) (len : Int32) : BundleState :=
  { s with
    src := { s.src with info := { s.src.info with headIndexOffset := s.src.info.tailIndexOffset } }
    dst := { s.dst with info := { s.dst.info with
      tailIndexOffset := (s.dst.info.tailIndexOffset + len) % s.dst.info.buffLength } } }

theorem exec_carry {s : BundleState} {len : Int32} {m n : Nat} (hm : s.dst.info.tailIndexOffset.toInt = m)
    (hn : len.toInt = n) (hsum : m + n < 2 ^ 31) (hlen : 0 < s.dst.info.buffLength.toInt) :
    exec (carry (pure len)) s = (.error (.returned len), s.carried len) := by
  rw [carry, exec_bind_ok (exec_modify _ s), exec_bind_ok (exec_get _)]
  simp only [pure_bind]
  rw [add_eq hm hn hsum, pure_bind, mod_eq hlen, pure_bind]
  rfl

theorem planLength_le {a b L : Nat} (hb : b < L) : planLength a b L ≤ L := by
  unfold planLength
  split <;> omega

/-- **The shared statements are one branch, its copies and a `return`.** -/
theorem exec_bundleBody {s : BundleState} (h : BundleRange s.src.info s.dst.info) : ∃ br, exec bundleBody s =
    (.error (.returned (pushBundleLength s.src.info)),
      (s.copied br (pushBundleCopies s.dst.info s.src.info)).carried (pushBundleLength s.src.info)) := by
  obtain ⟨a, b, c, Ls, Ld, B⟩ := h.bundleAt
  have ⟨S, hc, hlen, hlt, hLs, hLd⟩ := B
  have ht := S.tail_lt
  have hle := planLength_le (a := a) ht
  have hret := pullBundleLength_toInt S.head S.tail S.len S.head_lt ht S.len_lt
  have hout (br : Branch) : exec (carry (pure (pushBundleLength s.src.info)))
      (s.copied br (pushBundleCopies s.dst.info s.src.info)) = (.error (.returned (pushBundleLength s.src.info)),
      (s.copied br (pushBundleCopies s.dst.info s.src.info)).carried (pushBundleLength s.src.info)) :=
    exec_carry hc hret (by omega) (by rw [BundleState.copied, hlen]; omega)
  rw [bundleBody, exec_bind_ok (exec_get s), exec_bind_ok (exec_get s)]
  dsimp only
  by_cases hahead : a < b
  · have hcond := (lt_iff_of_toInt S.head S.tail).2 hahead
    obtain ⟨br, hcopy⟩ := B.copyAhead_eq hahead
    have hn : pushBundleLength s.src.info = s.src.info.tailIndexOffset - s.src.info.headIndexOffset := if_pos hcond
    refine ⟨br, ?_⟩
    rw [if_pos hcond, hcopy, exec_bind_ok (exec_copyAll _ _ _), sub_eq S.tail S.head (by omega), ← hn]
    exact hout br
  · have hcond := mt (lt_iff_of_toInt S.head S.tail).1 hahead
    obtain ⟨br, hcopy⟩ := B.copyRound_eq (by omega)
    have hn : pushBundleLength s.src.info =
      s.src.info.buffLength - s.src.info.headIndexOffset + s.src.info.tailIndexOffset := if_neg hcond
    have hh := S.head_lt
    refine ⟨br, ?_⟩
    rw [if_neg hcond, hcopy, exec_bind_ok (exec_copyAll _ _ _), sub_eq S.len S.head (by omega), pure_bind,
      add_eq B.first S.tail (by omega), ← hn]
    exact hout br

/-- **Statement by statement or at once, the push is the same.** -/
theorem pushCircleBuffBundleChecked_eq {src dst : Ring} (h : BundleRange src.info dst.info) :
    ∃ br, pushCircleBuffBundleChecked dst src = (.error (.returned (pushCircleBuffBundle dst src).1),
      { src := (pushCircleBuffBundle dst src).2.2, dst := (pushCircleBuffBundle dst src).2.1, branches := [br]
        copies := pushBundleCopies dst.info src.info, atEnd := false }) := by
  obtain ⟨br, hbody⟩ := exec_bundleBody (s := { src := src, dst := dst, branches := [], copies := [], atEnd := false }) h
  exact ⟨br, exec_bind_exit hbody⟩

theorem pullCircleBuffBundleChecked_eq {src dst : Ring} (h : BundleRange src.info dst.info)
    (hne : isBuffEmpty src.info = false) :
    ∃ br, pullCircleBuffBundleChecked src dst = (.error (.returned (pullCircleBuffBundle src dst).1),
      { src := (pullCircleBuffBundle src dst).2.1, dst := (pullCircleBuffBundle src dst).2.2, branches := [br]
        copies := pushBundleCopies dst.info src.info, atEnd := false }) := by
  obtain ⟨br, hpush⟩ := pushCircleBuffBundleChecked_eq h
  refine ⟨br, ?_⟩
  rw [pushCircleBuffBundle_eq src dst hne] at hpush
  rw [← hpush, pullCircleBuffBundleChecked, exec_bind_ok (exec_get _)]
  rw [if_neg (by rw [hne]; decide)]
  rfl

/-! ## Where the copies reach -/

/-- The `n` bytes from offset `o` on. -/
def bytesFrom (o n : Int) : Set Int := {x | o ≤ x ∧ x < o + n}

theorem bytesFrom_subset_iff {o n L : Nat} : bytesFrom o n ⊆ bytesFrom 0 L ↔ n = 0 ∨ o + n ≤ L := by
  constructor
  · intro h
    by_cases hn : n = 0
    · exact .inl hn
    · -- the last byte of the range
      have hlast : (o + n - 1 : Int) ∈ bytesFrom 0 L := h ⟨by omega, by omega⟩
      have hlt := hlast.2
      exact .inr (by omega)
  · rintro h x ⟨hle, hlt⟩
    exact ⟨by omega, by omega⟩

/-- What a copy reads. -/
def Copy.srcRange (c : Copy) : Set Int := bytesFrom c.src.toInt c.len.toInt

/-- What a copy writes. -/
def Copy.dstRange (c : Copy) : Set Int := bytesFrom c.dst.toInt c.len.toInt

section
variable {a b c Ls Ld : Nat}

/-- **A plan reads inside its source**, wherever it writes. -/
theorem plan_src (ha : a < Ls) (hb : b < Ls) : ∀ p ∈ plan a b c Ls Ld, p.2.1 + p.2.2 ≤ Ls := by
  apply plan_cases (P := fun ps _ => ∀ p ∈ ps, p.2.1 + p.2.2 ≤ Ls)
  case straight =>
    intro hlt hfit
    simp only [List.mem_cons, List.not_mem_nil, or_false, forall_eq]
    omega
  case dstRound =>
    intro hlt hfit
    simp only [List.mem_cons, List.not_mem_nil, or_false, forall_eq_or_imp, forall_eq]
    omega
  case srcRound =>
    intro hle hall
    simp only [List.mem_cons, List.not_mem_nil, or_false, forall_eq_or_imp, forall_eq]
    omega
  case srcThenDst =>
    -- the two copies from the start of the source end at `iw` together
    intro hle hall hpart
    simp only [List.mem_cons, List.not_mem_nil, or_false, forall_eq_or_imp, forall_eq]
    omega
  case dstThenSrc =>
    intro hle hpart
    simp only [List.mem_cons, List.not_mem_nil, or_false, forall_eq_or_imp, forall_eq]
    omega

/-- **A plan writes inside its destination exactly when it meets the end of it at most once.** -/
theorem plan_dst_iff (hc : c < Ld) : (∀ p ∈ plan a b c Ls Ld, p.2.2 = 0 ∨ p.1 + p.2.2 ≤ Ld) ↔
    planLength a b Ls ≤ 2 * Ld - c := by
  apply plan_cases (P := fun ps n => (∀ p ∈ ps, p.2.2 = 0 ∨ p.1 + p.2.2 ≤ Ld) ↔ n ≤ 2 * Ld - c)
  case straight =>
    -- short of the end: both sides hold
    intro hlt hfit
    simp only [List.mem_cons, List.not_mem_nil, or_false, forall_eq]
    omega
  case dstRound =>
    -- the second copy ends `n - (Ld - c)` bytes from the start
    intro hlt hfit
    simp only [List.mem_cons, List.not_mem_nil, or_false, forall_eq_or_imp, forall_eq]
    omega
  case srcRound =>
    -- up to the end at most: both sides hold
    intro hle hall
    simp only [List.mem_cons, List.not_mem_nil, or_false, forall_eq_or_imp, forall_eq]
    omega
  case srcThenDst =>
    -- the third copy is not empty and ends `n - (Ld - c)` bytes from the start
    intro hle hall hpart
    simp only [List.mem_cons, List.not_mem_nil, or_false, forall_eq_or_imp, forall_eq]
    omega
  case dstThenSrc =>
    -- the third copy ends there, or is empty and the second does
    intro hle hpart
    simp only [List.mem_cons, List.not_mem_nil, or_false, forall_eq_or_imp, forall_eq]
    omega

end

/-- What a bundle carries, by the offsets of its source. -/
def bundleBytes (src : BufferInfo) : Int :=
  if src.headIndexOffset.toInt < src.tailIndexOffset.toInt then
    src.tailIndexOffset.toInt - src.headIndexOffset.toInt
  else src.buffLength.toInt - src.headIndexOffset.toInt + src.tailIndexOffset.toInt

/-- **The bounds of a bundle**, whatever the room: one branch, and a `return` from it; no overflow; no copy of a negative
length or from outside the source; and copies into the destination exactly when `n ≤ 2 * Ld - ow`. -/
structure Bounds (src dst : BufferInfo) (out : Except (Exit Int32) Unit × BundleState) : Prop where
  branch : ∃ br, out.2.branches = [br]
  not_atEnd : out.2.atEnd = false
  returned : ∃ ret, out.1 = .error (.returned ret) ∧ ret.toInt = bundleBytes src
  no_overflow : out.1 ≠ .error .overflow
  len_nonneg : ∀ c ∈ out.2.copies, 0 ≤ c.len.toInt
  src_inside : ∀ c ∈ out.2.copies, c.srcRange ⊆ bytesFrom 0 src.buffLength.toInt
  dst_inside_iff : (∀ c ∈ out.2.copies, c.dstRange ⊆ bytesFrom 0 dst.buffLength.toInt) ↔
    bundleBytes src ≤ 2 * dst.buffLength.toInt - dst.tailIndexOffset.toInt

namespace BundleAt

variable {src dst : BufferInfo} {a b c Ls Ld : Nat}

theorem bundleBytes_eq (B : BundleAt src dst a b c Ls Ld) : bundleBytes src = planLength a b Ls := by
  have hh := B.src.head_lt
  unfold bundleBytes planLength
  rw [B.src.head, B.src.tail, B.src.len]
  split <;> split <;> omega

theorem nums (B : BundleAt src dst a b c Ls Ld) :
    (pushBundleCopies dst src).map Copy.nums = (plan a b c Ls Ld).map natNums := by
  have ⟨S, _, _, hc, hLs, hLd⟩ := B
  exact pullBundleCopies_nums S.head S.tail B.tail S.len B.len S.head_lt S.tail_lt hc (by omega) (by omega)

theorem bounds (B : BundleAt src dst a b c Ls Ld) {ret : Int32} (hret : ret.toInt = planLength a b Ls)
    {s : BundleState} {br : Branch} (hbr : s.branches = [br]) (hend : s.atEnd = false)
    (hcopies : s.copies = pushBundleCopies dst src) : Bounds src dst (.error (.returned ret), s) where
  branch := ⟨br, hbr⟩
  not_atEnd := hend
  returned := ⟨ret, rfl, by rw [hret, B.bundleBytes_eq]⟩
  no_overflow := by simp
  len_nonneg := by
    rw [hcopies]
    exact len_nonneg_of_nums B.nums
  src_inside := by
    rw [hcopies]
    refine (forall_nums B.nums (fun x => bytesFrom x.2.1 x.2.2 ⊆ bytesFrom 0 src.buffLength.toInt)).2 ?_
    intro p hp
    rw [B.src.len]
    exact bytesFrom_subset_iff.2 (.inr (plan_src B.src.head_lt B.src.tail_lt p hp))
  dst_inside_iff := by
    have hlt := B.tail_lt
    rw [hcopies, B.bundleBytes_eq, B.len, B.tail]
    calc (∀ c ∈ pushBundleCopies dst src, c.dstRange ⊆ bytesFrom 0 Ld)
        ↔ ∀ p ∈ plan a b c Ls Ld, bytesFrom p.1 p.2.2 ⊆ bytesFrom 0 Ld :=
          forall_nums B.nums (fun x => bytesFrom x.1 x.2.2 ⊆ bytesFrom 0 Ld)
      _ ↔ ∀ p ∈ plan a b c Ls Ld, p.2.2 = 0 ∨ p.1 + p.2.2 ≤ Ld := by simp only [bytesFrom_subset_iff]
      _ ↔ planLength a b Ls ≤ 2 * Ld - c := plan_dst_iff hlt
      _ ↔ (planLength a b Ls : Int) ≤ 2 * (Ld : Int) - c := by omega

end BundleAt

/-- **How far the copies of a bundle reach**, of the push whatever the offsets, and of the pull where they are not
equal. -/
theorem bundle_bounds (src dst : Ring) (h : BundleRange src.info dst.info) :
    Bounds src.info dst.info (pushCircleBuffBundleChecked dst src) ∧
      (src.info.headIndexOffset ≠ src.info.tailIndexOffset →
        Bounds src.info dst.info (pullCircleBuffBundleChecked src dst)) := by
  obtain ⟨a, b, c, Ls, Ld, B⟩ := h.bundleAt
  have hret := pullBundleLength_toInt B.src.head B.src.tail B.src.len B.src.head_lt B.src.tail_lt B.src.len_lt
  constructor
  · obtain ⟨br, hpush⟩ := pushCircleBuffBundleChecked_eq h
    rw [hpush]
    exact B.bounds hret rfl rfl rfl
  · intro hne
    have hempty : isBuffEmpty src.info = false := beq_eq_false_iff_ne.2 hne.symm
    obtain ⟨br, hpull⟩ := pullCircleBuffBundleChecked_eq h hempty
    rw [hpull, pullCircleBuffBundle_of_not_empty dst hempty]
    exact B.bounds hret rfl rfl rfl

/-- Three bytes to a buffer of one. -/
theorem bundle_bounds_three_to_one :
    Bounds ⟨3, 0, 1, 4, 0, 1, 0⟩ ⟨0, 0, 1, 1, 0, 1, 0⟩
        (pushCircleBuffBundleChecked ⟨⟨0, 0, 1, 1, 0, 1, 0⟩, fun _ => 0⟩ ⟨⟨3, 0, 1, 4, 0, 1, 0⟩, fun _ => 7⟩) ∧
      Bounds ⟨3, 0, 1, 4, 0, 1, 0⟩ ⟨0, 0, 1, 1, 0, 1, 0⟩
        (pullCircleBuffBundleChecked ⟨⟨3, 0, 1, 4, 0, 1, 0⟩, fun _ => 7⟩ ⟨⟨0, 0, 1, 1, 0, 1, 0⟩, fun _ => 0⟩) :=
  have hboth := bundle_bounds ⟨⟨3, 0, 1, 4, 0, 1, 0⟩, fun _ => 7⟩ ⟨⟨0, 0, 1, 1, 0, 1, 0⟩, fun _ => 0⟩ (by decide)
  ⟨hboth.1, hboth.2 (by decide)⟩

end VirtualForce
