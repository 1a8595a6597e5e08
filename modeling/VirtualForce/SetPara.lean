import VirtualForce.Binary64
/-!
# SetPara — the parameters of a robot on their way to the force core

`Servo_Force_Comm_Set_Para` is to hand 86 words in Q24 over as doubles. It takes the first of them, `dh_d1`, for the
address of the words, and stores every quotient at `para_data[0]`: the area is right only where it was right before.
-/
namespace VirtualForce

open Binary64

/-- `PARA_FORCE_STD_INFO_t`; `words` is `dh_d1` to `adnit_kd_6`. -/
structure ParaForceStdInfo where
  arm : Int32
  elbow : Int32
  wrist : Int32
  flip : Int32
  words : Fin 86 → Int32

/-- `sizeof(PARA_FORCE_STD_INFO_t)`. -/
def paraForceStdInfoSize : Nat := 360

/-- `PARA_FORCE_INFO_t`; a `double` is its eight bytes. -/
structure ParaForceInfo where
  updateFlag : Int32
  rsvData : Int32
  posture : Fin 4 → Int32
  paraData : Fin 90 → UInt64
  paraRsv : Fin 35 → UInt64

/-- One store to the parameter area. -/
inductive ParaStore where
  | posture (i : Nat) (v : Int32)
  | paraData (i : Nat) (v : UInt64)
  | updateFlag (v : Int32)
deriving DecidableEq

def ParaForceInfo.store (m : ParaForceInfo) : ParaStore → ParaForceInfo
  | .posture i v => { m with posture := fun j => if j.val = i then v else m.posture j }
  | .paraData i v => { m with paraData := fun j => if j.val = i then v else m.paraData j }
  | .updateFlag v => { m with updateFlag := v }

/-- The `int32_t` objects of the process by their addresses, beside the parameter area; a store of a `double` changes
none of them. -/
structure Int32Objects where
  load : ParaForceInfo → Int → Option Int32
  load_paraData : ∀ m i v a, load (m.store (.paraData i v)) a = load m a

/-- `((double)word)/16777216.0`. -/
def q24 (word : Int32) : UInt64 := (Float.Model.ofInt32 word / Float.Model.ofInt 16777216).toBits

/-- The loop of `Servo_Force_Comm_Set_Para` from some `i` on, as its stores; `dst` stays at `para_data[0]`. -/
def setParaLoop (mem : Int32Objects) (src : Int) (m : ParaForceInfo) : List Nat → Option (List ParaStore)
  | [] => some []
  | i :: is => (mem.load m (src + 4 * i)).bind (fun word =>
    (setParaLoop mem src (m.store (.paraData 0 (q24 word))) is).map (.paraData 0 (q24 word) :: ·))

def postureStores (para : ParaForceStdInfo) : List ParaStore :=
  [.posture 0 para.arm, .posture 1 para.elbow, .posture 2 para.wrist, .posture 3 para.flip]

/-- `Servo_Force_Comm_Set_Para`, as its stores in their order; none if it reads where no `int32_t` is. -/
def servoForceCommSetPara (mem : Int32Objects) (m : ParaForceInfo) (para : ParaForceStdInfo) : Option (List ParaStore) :=
  (setParaLoop mem (para.words 0).toInt ((postureStores para).foldl ParaForceInfo.store m)
    (List.range ((paraForceStdInfoSize - 32) / 4))).map (fun stores => postureStores para ++ (stores ++ [.updateFlag 1]))

/-! ## What the loop stores -/

theorem value_q24 (word : Int32) : valueOfBits (q24 word) = some ((word.toInt : ℚ) / 2 ^ 24) := by
  have hlt := word.toInt_lt
  have hle := word.le_toInt
  have hconst : (16777216 : Int) = 2 ^ 24 := by decide
  unfold q24
  rw [valueOfBits_toBits, hconst]
  exact value_ofInt_div_two_pow (by decide) (by omega)

theorem value_q24_inj {w word : Int32} (h : valueOfBits (q24 w) = some ((word.toInt : ℚ) / 2 ^ 24)) : w = word := by
  rw [value_q24, Option.some.injEq, div_left_inj' (by norm_num), Int.cast_inj] at h
  exact Int32.toInt_inj.1 h

/-- **The loop reads a row of words and stores their quotients in one place.** -/
theorem setParaLoop_eq_some (mem : Int32Objects) (src : Int) {stores : List ParaStore} {is : List Nat}
    {m : ParaForceInfo} : setParaLoop mem src m is = some stores ↔
      ∃ ws, List.Forall₂ (fun (i : Nat) w => mem.load m (src + 4 * i) = some w) is ws ∧
        stores = ws.map (fun w => .paraData 0 (q24 w)) := by
  induction is generalizing m stores with
  | nil =>
    constructor
    · intro h
      cases h
      exact ⟨[], .nil, rfl⟩
    · rintro ⟨ws, hreads, rfl⟩
      cases hreads
      rfl
  | cons i is ih =>
    simp only [setParaLoop, Option.bind_eq_some_iff, Option.map_eq_some_iff]
    constructor
    · rintro ⟨word, hword, rest, hrest, rfl⟩
      obtain ⟨ws, hreads, rfl⟩ := ih.1 hrest
      simp only [mem.load_paraData] at hreads
      exact ⟨word :: ws, .cons hword hreads, rfl⟩
    · rintro ⟨ws, hreads, rfl⟩
      cases hreads with
      | cons hword hreads =>
        refine ⟨_, hword, _, ih.2 ⟨_, ?_, rfl⟩, rfl⟩
        simp only [mem.load_paraData]
        exact hreads

/-- A row of numbers beside another list, number by number. -/
theorem forall₂_range {β : Type} {R : Nat → β → Prop} {n : Nat} {l : List β} (h : List.Forall₂ R (List.range n) l) :
    l.length = n ∧ ∀ (i : Nat) (hi : i < l.length), R i l[i] := by
  have hlen := h.length_eq
  rw [List.length_range] at hlen
  refine ⟨hlen.symm, fun i hi => ?_⟩
  have hget := h.get (by rw [List.length_range, hlen]; exact hi) hi
  simp only [List.get_eq_getElem, List.getElem_range] at hget
  exact hget

theorem store_paraData_twice (m : ParaForceInfo) (i : Nat) (v v' : UInt64) :
    (m.store (.paraData i v)).store (.paraData i v') = m.store (.paraData i v') := by
  have hdata : (fun j : Fin 90 => if j.val = i then v' else (m.store (.paraData i v)).paraData j) =
      fun j => if j.val = i then v' else m.paraData j := by
    funext j
    by_cases hj : j.val = i
    · rw [if_pos hj, if_pos hj]
    · rw [if_neg hj, if_neg hj]
      exact if_neg hj
  exact congrArg (fun d => { m with paraData := d }) hdata

/-- **Of all the quotients the last stays.** -/
theorem foldl_store_words (ws : List Int32) (w : Int32) (m : ParaForceInfo) :
    ((ws ++ [w]).map (fun w => ParaStore.paraData 0 (q24 w))).foldl ParaForceInfo.store m =
      m.store (.paraData 0 (q24 w)) := by
  induction ws generalizing m with
  | nil => rfl
  | cons x ws ih => rw [List.cons_append, List.map_cons, List.foldl_cons, ih, store_paraData_twice]

/-- The area once the posture is stored. -/
def ParaForceInfo.withPosture (m : ParaForceInfo) (para : ParaForceStdInfo) : ParaForceInfo :=
  (postureStores para).foldl ParaForceInfo.store m

/-- The stores of a call that reads the words `ws` and then `w`. -/
def paraStores (para : ParaForceStdInfo) (ws : List Int32) (w : Int32) : List ParaStore :=
  postureStores para ++ ((ws ++ [w]).map (fun w => .paraData 0 (q24 w)) ++ [.updateFlag 1])

theorem foldl_paraStores (m : ParaForceInfo) (para : ParaForceStdInfo) (ws : List Int32) (w : Int32) :
    (paraStores para ws w).foldl ParaForceInfo.store m =
      ((m.withPosture para).store (.paraData 0 (q24 w))).store (.updateFlag 1) := by
  rw [paraStores, List.foldl_append, List.foldl_append, foldl_store_words]
  rfl

theorem paraData_after (m : ParaForceInfo) (para : ParaForceStdInfo) (v : UInt64) (j : Fin 90) :
    (((m.withPosture para).store (.paraData 0 v)).store (.updateFlag 1)).paraData j =
      if j.val = 0 then v else m.paraData j := rfl

/-- **What a call stores**: the posture, 82 quotients, the flag. -/
theorem servoForceCommSetPara_eq_some {mem : Int32Objects} {m : ParaForceInfo} {para : ParaForceStdInfo}
    {stores : List ParaStore} : servoForceCommSetPara mem m para = some stores ↔
      ∃ ws w, List.Forall₂ (fun (i : Nat) w => mem.load (m.withPosture para) ((para.words 0).toInt + 4 * i) = some w)
        (List.range 82) (ws ++ [w]) ∧ stores = paraStores para ws w := by
  have hbound : (paraForceStdInfoSize - 32) / 4 = 82 := rfl
  rw [servoForceCommSetPara, hbound, Option.map_eq_some_iff]
  constructor
  · rintro ⟨rest, hloop, rfl⟩
    obtain ⟨ws, hreads, rfl⟩ := (setParaLoop_eq_some mem _).1 hloop
    have hlen := hreads.length_eq
    rw [List.length_range] at hlen
    cases ws using List.reverseRecOn with
    | nil => cases hlen
    | append_singleton ws w => exact ⟨ws, w, hreads, rfl⟩
  · rintro ⟨ws, w, hreads, rfl⟩
    exact ⟨_, (setParaLoop_eq_some mem _).2 ⟨_, hreads, rfl⟩, rfl⟩

/-! ## The parameters, and where they are right -/

/-- **The parameters are handed over**: stores that leave the posture, the quotients and the rest of the area as they
should be, the flag the last of them. -/
structure HandsOver (m : ParaForceInfo) (para : ParaForceStdInfo) (stores : List ParaStore) : Prop where
  posture : List.ofFn (stores.foldl ParaForceInfo.store m).posture = [para.arm, para.elbow, para.wrist, para.flip]
  words : ∀ (i : Fin 86) (j : Fin 90), j.val = i.val →
    valueOfBits ((stores.foldl ParaForceInfo.store m).paraData j) = some (((para.words i).toInt : ℚ) / 2 ^ 24)
  others : ∀ j : Fin 90, 86 ≤ j.val → (stores.foldl ParaForceInfo.store m).paraData j = m.paraData j
  rsvData : (stores.foldl ParaForceInfo.store m).rsvData = m.rsvData
  paraRsv : (stores.foldl ParaForceInfo.store m).paraRsv = m.paraRsv
  flagLast : ∃ before, stores = before ++ [.updateFlag 1] ∧ ∀ v, ParaStore.updateFlag v ∉ before

/-- **The area was right but for its first parameter, and the last word read is `dh_d1`.** -/
structure RightBefore (mem : Int32Objects) (m : ParaForceInfo) (para : ParaForceStdInfo) : Prop where
  words : ∀ (i : Fin 86) (j : Fin 90), j.val = i.val → i.val ≠ 0 →
    valueOfBits (m.paraData j) = some (((para.words i).toInt : ℚ) / 2 ^ 24)
  reads : ∀ i : Nat, i < 82 → (mem.load (m.withPosture para) ((para.words 0).toInt + 4 * i)).isSome
  last : mem.load (m.withPosture para) ((para.words 0).toInt + 4 * (81 : Nat)) = some (para.words 0)

/-- The words such a call reads. -/
theorem RightBefore.row {mem : Int32Objects} {m : ParaForceInfo} {para : ParaForceStdInfo} (R : RightBefore mem m para) :
    ∃ ws, List.Forall₂ (fun (i : Nat) w => mem.load (m.withPosture para) ((para.words 0).toInt + 4 * i) = some w)
      (List.range 82) (ws ++ [para.words 0]) := by
  refine ⟨(List.range 81).map
    (fun (i : Nat) => (mem.load (m.withPosture para) ((para.words 0).toInt + 4 * i)).getD 0), ?_⟩
  rw [List.range_succ]
  apply List.rel_append
  · rw [List.forall₂_map_right_iff, List.forall₂_same]
    intro i hi
    have hlt := List.mem_range.1 hi
    obtain ⟨w, hw⟩ := Option.isSome_iff_exists.1 (R.reads i (by omega))
    rw [hw]
    rfl
  · exact .cons R.last .nil

theorem HandsOver.of_rightBefore {mem : Int32Objects} {m : ParaForceInfo} {para : ParaForceStdInfo} {ws : List Int32}
    (R : RightBefore mem m para) : HandsOver m para (paraStores para ws (para.words 0)) where
  posture := by
    rw [foldl_paraStores]
    rfl
  words i j hj := by
    rw [foldl_paraStores, paraData_after]
    by_cases h0 : j.val = 0
    · obtain rfl : i = 0 := Fin.ext (by omega)
      rw [if_pos h0, value_q24]
    · rw [if_neg h0]
      exact R.words i j hj (by omega)
  others j hj := by
    rw [foldl_paraStores, paraData_after, if_neg (by omega)]
  rsvData := by
    rw [foldl_paraStores]
    rfl
  paraRsv := by
    rw [foldl_paraStores]
    rfl
  flagLast := by
    refine ⟨postureStores para ++ (ws ++ [para.words 0]).map (fun w => .paraData 0 (q24 w)), ?_, fun v hv => ?_⟩
    · rw [paraStores, List.append_assoc]
    · simp [postureStores] at hv

/-- **`Servo_Force_Comm_Set_Para` hands the parameters over exactly where all but the first are there already**, the
words at the address `dh_d1` can be read, and the last of them is `dh_d1`. -/
theorem set_para_iff (mem : Int32Objects) (m : ParaForceInfo) (para : ParaForceStdInfo) :
    (∃ stores, servoForceCommSetPara mem m para = some stores ∧ HandsOver m para stores) ↔ RightBefore mem m para := by
  constructor
  · rintro ⟨stores, hcall, H⟩
    obtain ⟨ws, w, hreads, rfl⟩ := servoForceCommSetPara_eq_some.1 hcall
    obtain ⟨hlen, hread⟩ := forall₂_range hreads
    have hwords := H.words
    rw [foldl_paraStores] at hwords
    obtain rfl : w = para.words 0 := value_q24_inj (hwords 0 0 rfl)
    refine ⟨fun i j hj hi => ?_, fun i hi => ?_, ?_⟩
    · have hkept := hwords i j hj
      rw [paraData_after, if_neg (by omega)] at hkept
      exact hkept
    · rw [hread i (hlen ▸ hi)]
      rfl
    · have hws : ws.length = 81 := by simpa using hlen
      have hlast := hread 81 (hlen ▸ (by decide))
      rw [List.getElem_append_right (by omega)] at hlast
      simpa [hws] using hlast
  · intro R
    obtain ⟨ws, hreads⟩ := R.row
    exact ⟨_, servoForceCommSetPara_eq_some.2 ⟨ws, _, hreads, rfl⟩, .of_rightBefore R⟩

/-- Words of one half, where every address holds a zero, for an area of zeros: the second parameter stays zero. -/
theorem para_not_copied : ¬ ∀ (mem : Int32Objects) (m : ParaForceInfo) (para : ParaForceStdInfo),
    ∃ stores, servoForceCommSetPara mem m para = some stores ∧ HandsOver m para stores := by
  intro h
  obtain ⟨stores, hcall, H⟩ := h ⟨fun _ _ => some 0, fun _ _ _ _ => rfl⟩
    ⟨0, 0, fun _ => 0, fun _ => 0, fun _ => 0⟩ ⟨1, 1, 1, 1, fun _ => 8388608⟩
  obtain ⟨ws, w, -, rfl⟩ := servoForceCommSetPara_eq_some.1 hcall
  have hsecond := H.words 1 1 rfl
  rw [foldl_paraStores] at hsecond
  have hzero : valueOfBits 0 = some 0 := rfl
  have hhalf : some (0 : ℚ) = some (((8388608 : Int32).toInt : ℚ) / 2 ^ 24) := hzero.symm.trans hsecond
  rw [Option.some.injEq, show (8388608 : Int32).toInt = 8388608 by decide] at hhalf
  norm_num at hhalf

end VirtualForce
