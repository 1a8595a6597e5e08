import VirtualForce.Circle
import VirtualForce.RingItem
/-!
# BundlePlan — the copies of a bundle are one way round

The five branches of either bundle function, in numbers, are `plan`; whichever branch is taken, its copies one after the
other are the moves that carry the unread bytes round both rings (`plan_moves`), as long as the destination is met at
most once at its end: `n ≤ 2 * Ld - ow`.
-/
namespace VirtualForce

open Memory Slots Circle

/-- The copies of a bundle in numbers: destination, source and length. -/
def plan (ir iw ow Ls Ld : Nat) : List (Nat × Nat × Nat) :=
  if ir < iw then
    if Ld - ow > iw - ir then [(ow, ir, iw - ir)]
    else [(ow, ir, Ld - ow), (0, ir + (Ld - ow), iw - ir - (Ld - ow))]
  else if Ld - ow ≥ Ls - ir + iw then
    [(ow, ir, Ls - ir), (ow + (Ls - ir), 0, iw)]
  else if Ld - ow ≥ Ls - ir then
    [(ow, ir, Ls - ir), (ow + (Ls - ir), 0, (Ld - ow) - (Ls - ir)),
     (0, (Ld - ow) - (Ls - ir), (Ls - ir + iw) - (Ld - ow))]
  else
    [(ow, ir, Ld - ow), (0, ir + (Ld - ow), (Ls - ir) - (Ld - ow)), ((Ls - ir) - (Ld - ow), 0, iw)]

def planLength (ir iw Ls : Nat) : Nat := if ir < iw then iw - ir else Ls - ir + iw

/-- **The five ways a bundle goes**, and what it carries. -/
theorem plan_cases {a b c Ls Ld : Nat} {P : List (Nat × Nat × Nat) → Nat → Prop}
    (straight : a < b → b - a < Ld - c → P [(c, a, b - a)] (b - a))
    (dstRound : a < b → Ld - c ≤ b - a → P [(c, a, Ld - c), (0, a + (Ld - c), b - a - (Ld - c))] (b - a))
    (srcRound : b ≤ a → Ls - a + b ≤ Ld - c → P [(c, a, Ls - a), (c + (Ls - a), 0, b)] (Ls - a + b))
    (srcThenDst : b ≤ a → Ld - c < Ls - a + b → Ls - a ≤ Ld - c →
      P [(c, a, Ls - a), (c + (Ls - a), 0, (Ld - c) - (Ls - a)),
        (0, (Ld - c) - (Ls - a), (Ls - a + b) - (Ld - c))] (Ls - a + b))
    (dstThenSrc : b ≤ a → Ld - c < Ls - a →
      P [(c, a, Ld - c), (0, a + (Ld - c), (Ls - a) - (Ld - c)), ((Ls - a) - (Ld - c), 0, b)] (Ls - a + b)) :
    P (plan a b c Ls Ld) (planLength a b Ls) := by
  unfold plan planLength
  by_cases hlt : a < b
  · rw [if_pos hlt, if_pos hlt]
    by_cases hfit : Ld - c > b - a
    · rw [if_pos hfit]
      exact straight hlt hfit
    · rw [if_neg hfit]
      exact dstRound hlt (Nat.le_of_not_lt hfit)
  · have hle := Nat.le_of_not_lt hlt
    rw [if_neg hlt, if_neg hlt]
    by_cases hall : Ld - c ≥ Ls - a + b
    · rw [if_pos hall]
      exact srcRound hle hall
    · rw [if_neg hall]
      by_cases hpart : Ld - c ≥ Ls - a
      · rw [if_pos hpart]
        exact srcThenDst hle (Nat.lt_of_not_le hall) hpart
      · rw [if_neg hpart]
        exact dstThenSrc hle (Nat.lt_of_not_le hpart)

def Copy.nums (c : Copy) : Int × Int × Int := (c.dst.toInt, c.src.toInt, c.len.toInt)

def natNums (c : Nat × Nat × Nat) : Int × Int × Int := (c.1, c.2.1, c.2.2)

theorem nums_eq {d s l : Int32} {a b c : Nat} (hd : d.toInt = a) (hs : s.toInt = b) (hl : l.toInt = c) :
    Copy.nums ⟨d, s, l⟩ = natNums (a, b, c) := by simp [Copy.nums, natNums, hd, hs, hl]

section
variable {ir iw ow cl ll : Int32} {a b c Ls Ld : Nat}

/-- **The copies of `pull_circle_buff_bundle`, in numbers.** -/
theorem pullBundleCopies_nums (hir : ir.toInt = a) (hiw : iw.toInt = b) (how : ow.toInt = c) (hcl : cl.toInt = Ls)
    (hll : ll.toInt = Ld) (ha : a < Ls) (hb : b < Ls) (hc : c < Ld) (hLs : Ls < 2 ^ 31) (hLd : Ld < 2 ^ 31) :
    (pullBundleCopies ir iw ow cl ll).map Copy.nums = (plan a b c Ls Ld).map natNums := by
  have h0 : (0 : Int32).toInt = (0 : Nat) := rfl
  -- to the end of the destination, to the end of the source, and past it
  have hroom := toInt_sub_of_le hll how (by omega) (by omega)
  have hfirst := toInt_sub_of_le hcl hir (by omega) (by omega)
  unfold pullBundleCopies plan
  by_cases hlt : a < b
  · have hgap := toInt_sub_of_le hiw hir (by omega) (by omega)
    rw [if_pos hlt, if_pos ((lt_iff_of_toInt hir hiw).2 hlt)]
    by_cases hfit : Ld - c > b - a
    · rw [if_pos hfit, if_pos ((lt_iff_of_toInt hgap hroom).2 hfit)]
      simp only [List.map_cons, List.map_nil]
      rw [nums_eq how hir hgap]
    · have hskip := toInt_add_of_lt hir hroom (by omega)
      have hrest := toInt_sub_of_le hgap hroom (by omega) (by omega)
      rw [if_neg hfit, if_neg (mt (lt_iff_of_toInt hgap hroom).1 hfit)]
      simp only [List.map_cons, List.map_nil]
      rw [nums_eq how hir hroom, nums_eq h0 hskip hrest]
  · have hwhole := toInt_add_of_lt hfirst hiw (by omega)
    rw [if_neg hlt, if_neg (mt (lt_iff_of_toInt hir hiw).1 hlt)]
    by_cases hall : Ld - c ≥ Ls - a + b
    · have hnext := toInt_add_of_lt how hfirst (by omega)
      rw [if_pos hall, if_pos ((le_iff_of_toInt hwhole hroom).2 hall)]
      simp only [List.map_cons, List.map_nil]
      rw [nums_eq how hir hfirst, nums_eq hnext h0 hiw]
    · rw [if_neg hall, if_neg (mt (le_iff_of_toInt hwhole hroom).1 hall)]
      by_cases hpart : Ld - c ≥ Ls - a
      · have hnext := toInt_add_of_lt how hfirst (by omega)
        have hleft := toInt_sub_of_le hroom hfirst hpart (by omega)
        have hrest := toInt_sub_of_le hwhole hroom (by omega) (by omega)
        rw [if_pos hpart, if_pos ((le_iff_of_toInt hfirst hroom).2 hpart)]
        simp only [List.map_cons, List.map_nil]
        rw [nums_eq how hir hfirst, nums_eq hnext h0 hleft, nums_eq h0 hleft hrest]
      · have hskip := toInt_add_of_lt hir hroom (by omega)
        have hleft := toInt_sub_of_le hfirst hroom (by omega) (by omega)
        rw [if_neg hpart, if_neg (mt (le_iff_of_toInt hfirst hroom).1 hpart),
          if_pos ((lt_iff_of_toInt hroom hfirst).2 (by omega))]
        simp only [List.map_cons, List.map_nil]
        rw [nums_eq how hir hroom, nums_eq h0 hskip hleft, nums_eq hleft h0 hiw]

theorem planLength_eq {x y L : Nat} (hx : x < L) (hy : y < L) (hne : x ≠ y) :
    planLength x y L = (y + (L - x)) % L := by
  unfold planLength
  rw [mod_of_lt_two_mul (by omega)]
  split <;> split <;> omega

theorem pullBundleLength_toInt (hir : ir.toInt = a) (hiw : iw.toInt = b) (hcl : cl.toInt = Ls) (ha : a < Ls)
    (hb : b < Ls) (hLs : Ls < 2 ^ 31) : (pullBundleLength ir iw cl).toInt = planLength a b Ls := by
  unfold pullBundleLength planLength
  by_cases hlt : a < b
  · rw [if_pos hlt, if_pos ((lt_iff_of_toInt hir hiw).2 hlt)]
    exact toInt_sub_of_le hiw hir (by omega) (by omega)
  · rw [if_neg hlt, if_neg (mt (lt_iff_of_toInt hir hiw).1 hlt)]
    exact toInt_add_of_lt (toInt_sub_of_le hcl hir (by omega) (by omega)) hiw (by omega)

end

/-! ## One way round -/

def Copy.moves (c : Copy) : List (Int × Int) := straight c.dst.toInt c.src.toInt c.len.toInt.toNat

def copyMoves (cs : List Copy) : List (Int × Int) := cs.flatMap Copy.moves

def planMoves (cs : List (Nat × Nat × Nat)) : List (Int × Int) := cs.flatMap (fun c => straight c.1 c.2.1 c.2.2)

theorem copyMoves_eq_planMoves : ∀ (cs : List Copy) (ps : List (Nat × Nat × Nat)),
    cs.map Copy.nums = ps.map natNums → copyMoves cs = planMoves ps
  | [], [], _ => rfl
  | [], _ :: _, h => by simp at h
  | _ :: _, [], h => by simp at h
  | c :: cs, p :: ps, h => by
    simp only [List.map_cons, List.cons.injEq] at h
    obtain ⟨hc, hcs⟩ := h
    simp only [Copy.nums, natNums, Prod.mk.injEq] at hc
    obtain ⟨hd, hs, hl⟩ := hc
    have ih := copyMoves_eq_planMoves cs ps hcs
    unfold copyMoves planMoves at ih ⊢
    rw [List.flatMap_cons, List.flatMap_cons, ih, Copy.moves, hd, hs, hl, Int.toNat_natCast]

/-- **What holds of the numbers of a plan holds of its copies.** -/
theorem forall_nums {cs : List Copy} {ps : List (Nat × Nat × Nat)} (h : cs.map Copy.nums = ps.map natNums)
    (P : Int × Int × Int → Prop) : (∀ c ∈ cs, P c.nums) ↔ ∀ p ∈ ps, P (natNums p) := by
  rw [← List.forall_mem_map, h, List.forall_mem_map]

/-- No copy of a plan has a negative length. -/
theorem len_nonneg_of_nums {cs : List Copy} {ps : List (Nat × Nat × Nat)} (h : cs.map Copy.nums = ps.map natNums) :
    ∀ c ∈ cs, 0 ≤ c.len.toInt :=
  (forall_nums h (fun x => 0 ≤ x.2.2)).2 (fun p _ => Int.natCast_nonneg p.2.2)

theorem runCopies_eq (dst src : Mem UInt8) (cs : List Copy) (h : ∀ c ∈ cs, 0 ≤ c.len.toInt) :
    runCopies dst src cs = runMoves dst src (copyMoves cs) := by
  induction cs generalizing dst with
  | nil => rfl
  | cons c cs ih =>
    have hc : (c.len.toInt.toNat : Int) = c.len.toInt := Int.toNat_of_nonneg (h c List.mem_cons_self)
    have hmoves : copyMoves (c :: cs) = c.moves ++ copyMoves cs := List.flatMap_cons
    rw [hmoves, runMoves_append, Copy.moves, runMoves_straight, hc,
      ← ih _ (fun c' hc' => h c' (List.mem_cons_of_mem _ hc'))]
    rfl

/-- **Whichever branch is taken, the copies are one way round both rings**, if the destination is met at its end at most
once. -/
theorem plan_moves {a b c Ls Ld : Nat} (ha : a < Ls) (hb : b < Ls) (hc : c < Ld)
    (hn : planLength a b Ls ≤ 2 * Ld - c) : planMoves (plan a b c Ls Ld) = round c a Ld Ls (planLength a b Ls) := by
  revert hn
  apply plan_cases (P := fun ps n => n ≤ 2 * Ld - c → planMoves ps = round c a Ld Ls n)
  case straight =>
    intro hlt hfit hn
    simp only [planMoves, List.flatMap_cons, List.flatMap_nil, List.append_nil]
    exact (round_eq_straight (.inl (by omega)) (.inl (by omega))).symm
  case dstRound =>
    intro hlt hfit hn
    have hsum : b - a = (Ld - c) + (b - a - (Ld - c)) := by omega
    conv_rhs => rw [hsum, round_add]
    simp only [planMoves, List.flatMap_cons, List.flatMap_nil, List.append_nil]
    rw [round_eq_straight (d := c) (s := a) (.inl (by omega)) (.inl (by omega)),
      round_eq_straight (d := 0) (s := a + (Ld - c)) (.inr (by omega)) (.inl (by omega))]
  case srcRound =>
    intro hle hall hn
    rw [round_add]
    simp only [planMoves, List.flatMap_cons, List.flatMap_nil, List.append_nil]
    rw [round_eq_straight (d := c) (s := a) (.inl (by omega)) (.inl (by omega)),
      round_eq_straight (d := c + (Ls - a)) (s := 0) (.inl (by omega)) (.inr (by omega))]
  case srcThenDst =>
    intro hle hall hpart hn
    have hsum : Ls - a + b = (Ls - a) + (((Ld - c) - (Ls - a)) + ((Ls - a + b) - (Ld - c))) := by omega
    conv_rhs => rw [hsum, round_add, round_add]
    simp only [planMoves, List.flatMap_cons, List.flatMap_nil, List.append_nil]
    rw [round_eq_straight (d := c) (s := a) (.inl (by omega)) (.inl (by omega)),
      round_eq_straight (d := c + (Ls - a)) (s := 0) (.inl (by omega)) (.inr (by omega)),
      round_eq_straight (d := 0) (s := (Ld - c) - (Ls - a)) (.inr (by omega)) (.inr (by omega))]
  case dstThenSrc =>
    intro hle hpart hn
    have hsum : Ls - a + b = (Ld - c) + (((Ls - a) - (Ld - c)) + b) := by omega
    conv_rhs => rw [hsum, round_add, round_add]
    simp only [planMoves, List.flatMap_cons, List.flatMap_nil, List.append_nil]
    rw [round_eq_straight (d := c) (s := a) (.inl (by omega)) (.inl (by omega)),
      round_eq_straight (d := 0) (s := a + (Ld - c)) (.inr (by omega)) (.inl (by omega)),
      round_eq_straight (d := (Ls - a) - (Ld - c)) (s := 0) (.inr (by omega)) (.inr (by omega))]

end VirtualForce
