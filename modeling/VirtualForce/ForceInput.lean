import VirtualForce.Binary64
import VirtualForce.MainLoop
import VirtualForce.ReadRounds
/-!
# ForceInput — a typed force on its way to the mailbox

The force button of the widget: six doubles from the line edits, scaled to Q24 and converted to `int`, sent as the bytes
of a command and stored by the dispatcher.  Nothing on the way bounds them: the conversion is undefined for a value that
Q24 has no 32-bit integer for, and every other arrives truncated (`force_reaches_iff`).
-/
namespace VirtualForce

open Memory Binary64 Runs

/-- `Force_Comm_Send_t` has the fields of `Pc_Comm_Cmd_t`. -/
abbrev ForceCommSend := PcCommCmd

/-- The checkbox of an axis, and what `toDouble()` makes of its line edit. -/
structure AxisInput where
  checked : Bool
  val : Float.Model
  finite : val.isFinite = true

/-- An axis of `setForceVal`; none where the conversion to `int` is undefined. -/
def setAxis (axes : Fin 6 → AxisInput) (data : ForceCommSend) (j : Fin 6) : Option ForceCommSend :=
  if (axes j).checked = true then
    (toInt32? ((axes j).val * Float.Model.ofInt 16777216)).map
      (fun n => { data with params := fun i => if i = j then n else data.params i })
  else some data

/-- `Widget::setForceVal`, one `if` after the other. -/
def setForceVal (axes : Fin 6 → AxisInput) (data : ForceCommSend) : Option ForceCommSend :=
  (List.finRange 6).foldlM (setAxis axes) data

/-- `Widget::on_btn_force_pressed`: the bytes `sendMsg` writes to the connection. -/
def onBtnForcePressed (axes : Fin 6 → AxisInput) : Option (List UInt8) :=
  (setForceVal axes ⟨ForceCmd.forceGiveStart.code, 0, fun _ => 0⟩).map PcCommCmd.bytes

/-! ## The words of a command -/

/-- **The value of an axis has an integer part of 32 bits in Q24.** -/
def AxisInput.InForceRange (a : AxisInput) : Prop :=
  ∀ v, value a.val = some v → -(2 ^ 31 + 1) < v * 2 ^ 24 ∧ v * 2 ^ 24 < 2 ^ 31

theorem AxisInput.exists_value (a : AxisInput) : ∃ v, value a.val = some v :=
  Option.isSome_iff_exists.1 ((isSome_value a.val).trans a.finite)

theorem truncate_fits_iff (q : ℚ) : (-2 ^ 31 ≤ truncate q ∧ truncate q ≤ 2 ^ 31 - 1) ↔
    -(2 ^ 31 + 1) < q ∧ q < 2 ^ 31 := by
  rw [le_truncate_iff (by decide), truncate_le_iff (by decide)]
  norm_num

/-- **The conversion of an axis gives the truncated value**, where that is a 32-bit integer. -/
theorem toInt32?_scaled {a : AxisInput} {v : ℚ} (hv : value a.val = some v) (n : Int32) :
    toInt32? (a.val * Float.Model.ofInt 16777216) = some n ↔ n.toInt = truncate (v * 2 ^ 24) := by
  have hconst : (16777216 : Int) = 2 ^ 24 := by decide
  rw [toInt32?_eq_some_iff, hconst]
  rcases value_mul_two_pow (k := 24) (by decide) hv with hexact | ⟨hnone, hlarge⟩
  · rw [hexact]
    exact ⟨fun ⟨q, hq, hn⟩ => by cases hq; exact hn, fun hn => ⟨_, rfl, hn⟩⟩
  · rw [hnone]
    constructor
    · rintro ⟨q, hq, -⟩
      cases hq
    · -- what no double can hold is no 32-bit integer either
      intro hn
      have hle := n.le_toInt
      have hlt := n.toInt_lt
      rw [hn] at hle hlt
      obtain ⟨hlo, hhi⟩ := (truncate_fits_iff _).1 ⟨hle, Int.le_sub_one_of_lt hlt⟩
      have habs : |v * 2 ^ 24| < 2 ^ 32 := abs_lt.2 ⟨lt_trans (by norm_num) hlo, lt_trans hhi (by norm_num)⟩
      have hbig : (2 : ℚ) ^ 32 ≤ 2 ^ 1024 := pow_le_pow_right₀ one_le_two (by decide)
      exact absurd hlarge (not_le.2 (lt_of_lt_of_le habs hbig))

theorem inForceRange_iff (a : AxisInput) :
    a.InForceRange ↔ ∃ n, toInt32? (a.val * Float.Model.ofInt 16777216) = some n := by
  obtain ⟨v, hv⟩ := a.exists_value
  constructor
  · intro h
    obtain ⟨hlo, hhi⟩ := (truncate_fits_iff _).2 (h v hv)
    refine ⟨.ofInt (truncate (v * 2 ^ 24)), (toInt32?_scaled hv _).2 ?_⟩
    exact Int32.toInt_ofInt_of_le hlo (by omega)
  · rintro ⟨n, hn⟩ w hw
    obtain rfl : v = w := Option.some.inj (hv.symm.trans hw)
    have htrunc := (toInt32?_scaled hv n).1 hn
    have hle := n.le_toInt
    have hlt := n.toInt_lt
    exact (truncate_fits_iff _).1 ⟨htrunc ▸ hle, htrunc ▸ Int.le_sub_one_of_lt hlt⟩

/-- What an axis puts into a command. -/
def AxisInput.Gives (a : AxisInput) (old new : Int32) : Prop :=
  if a.checked = true then toInt32? (a.val * Float.Model.ofInt 16777216) = some new else new = old

theorem setAxis_eq_some {axes : Fin 6 → AxisInput} {data d : ForceCommSend} {i : Fin 6} :
    setAxis axes data i = some d ↔ d.cmd = data.cmd ∧ d.rsv = data.rsv ∧ (axes i).Gives (data.params i) (d.params i) ∧
      ∀ j, j ≠ i → d.params j = data.params j := by
  unfold setAxis AxisInput.Gives
  by_cases hc : (axes i).checked = true
  · rw [if_pos hc, if_pos hc, Option.map_eq_some_iff]
    constructor
    · rintro ⟨n, hn, rfl⟩
      exact ⟨rfl, rfl, hn.trans (congrArg some (if_pos rfl).symm), fun j hj => if_neg hj⟩
    · rintro ⟨hcmd, hrsv, hn, hothers⟩
      refine ⟨_, hn, ?_⟩
      have hparams : (fun j => if j = i then d.params i else data.params j) = d.params := by
        funext j
        by_cases hj : j = i
        · rw [if_pos hj, hj]
        · rw [if_neg hj, hothers j hj]
      rw [hparams, ← hcmd, ← hrsv]
  · rw [if_neg hc, if_neg hc]
    constructor
    · intro h
      cases h
      exact ⟨rfl, rfl, rfl, fun j _ => rfl⟩
    · rintro ⟨hcmd, hrsv, hi, hothers⟩
      have hparams : data.params = d.params := by
        funext j
        by_cases hj : j = i
        · rw [hj, hi]
        · rw [hothers j hj]
      have hdata : data = ⟨data.cmd, data.rsv, data.params⟩ := rfl
      rw [hdata, hparams, ← hcmd, ← hrsv]

/-- **A row of axes, each once**: those in the row give their words, and the rest stay. -/
theorem foldlM_setAxis_eq_some {axes : Fin 6 → AxisInput} {l : List (Fin 6)} (hl : l.Nodup) {data d : ForceCommSend} :
    l.foldlM (setAxis axes) data = some d ↔ d.cmd = data.cmd ∧ d.rsv = data.rsv ∧
      (∀ j ∈ l, (axes j).Gives (data.params j) (d.params j)) ∧ ∀ j, j ∉ l → d.params j = data.params j := by
  induction l generalizing data with
  | nil =>
    rw [List.foldlM_nil]
    constructor
    · intro h
      cases h
      exact ⟨rfl, rfl, fun j hj => absurd hj List.not_mem_nil, fun j _ => rfl⟩
    · rintro ⟨hcmd, hrsv, -, hparams⟩
      have hdata : data = ⟨data.cmd, data.rsv, data.params⟩ := rfl
      have hd : d.params = data.params := funext (fun j => hparams j List.not_mem_nil)
      rw [hdata, ← hcmd, ← hrsv, ← hd]
      rfl
  | cons i l ih =>
    obtain ⟨hi, hl⟩ := List.nodup_cons.1 hl
    rw [List.foldlM_cons]
    constructor
    · intro h
      obtain ⟨d₁, h₁, h₂⟩ := Option.bind_eq_some_iff.1 h
      obtain ⟨hcmd₁, hrsv₁, hgives₁, hothers₁⟩ := setAxis_eq_some.1 h₁
      obtain ⟨hcmd, hrsv, hgives, hothers⟩ := (ih hl).1 h₂
      refine ⟨hcmd.trans hcmd₁, hrsv.trans hrsv₁, fun j hj => ?_, fun j hj => ?_⟩
      · rcases List.mem_cons.1 hj with rfl | hj
        · rw [hothers j hi]
          exact hgives₁
        · rw [← hothers₁ j (fun heq => hi (heq ▸ hj))]
          exact hgives j hj
      · obtain ⟨hne, hj⟩ := not_or.1 (fun h => hj (List.mem_cons.2 h))
        rw [hothers j hj, hothers₁ j hne]
    · rintro ⟨hcmd, hrsv, hgives, hothers⟩
      refine Option.bind_eq_some_iff.2 ⟨{ d with params := fun j => if j = i then d.params i else data.params j }, ?_, ?_⟩
      · refine setAxis_eq_some.2 ⟨hcmd, hrsv, ?_, fun j hj => if_neg hj⟩
        dsimp only
        rw [if_pos rfl]
        exact hgives i List.mem_cons_self
      · refine (ih hl).2 ⟨rfl, rfl, fun j hj => ?_, fun j hj => ?_⟩
        · have hne : j ≠ i := fun heq => hi (heq ▸ hj)
          dsimp only
          rw [if_neg hne]
          exact hgives j (List.mem_cons_of_mem i hj)
        · dsimp only
          by_cases heq : j = i
          · rw [if_pos heq, heq]
          · rw [if_neg heq]
            exact hothers j (fun h => (List.mem_cons.1 h).elim heq hj)

/-- **The bytes of a press** are those of one command: every axis's word, on a command of zeros. -/
theorem onBtnForcePressed_eq_some {axes : Fin 6 → AxisInput} {bytes : List UInt8} :
    onBtnForcePressed axes = some bytes ↔ ∃ params : Fin 6 → Int32, (∀ j, (axes j).Gives 0 (params j)) ∧
      bytes = PcCommCmd.bytes ⟨ForceCmd.forceGiveStart.code, 0, params⟩ := by
  unfold onBtnForcePressed setForceVal
  rw [Option.map_eq_some_iff]
  simp only [foldlM_setAxis_eq_some (List.nodup_finRange 6)]
  constructor
  · rintro ⟨⟨cmd, rsv, params⟩, ⟨rfl, rfl, hgives, -⟩, rfl⟩
    exact ⟨params, fun j => hgives j (List.mem_finRange j), rfl⟩
  · rintro ⟨params, hgives, rfl⟩
    exact ⟨_, ⟨rfl, rfl, fun j _ => hgives j, fun j hj => absurd (List.mem_finRange j) hj⟩, rfl⟩

theorem pressed_iff (axes : Fin 6 → AxisInput) :
    (∃ bytes, onBtnForcePressed axes = some bytes) ↔ ∀ j, (axes j).checked = true → (axes j).InForceRange := by
  constructor
  · rintro ⟨bytes, h⟩ j hc
    obtain ⟨params, hgives, -⟩ := onBtnForcePressed_eq_some.1 h
    have hj := hgives j
    rw [AxisInput.Gives, if_pos hc] at hj
    exact (inForceRange_iff _).2 ⟨_, hj⟩
  · intro h
    have hword : ∀ j, ∃ n, (axes j).Gives 0 n := by
      intro j
      by_cases hc : (axes j).checked = true
      · obtain ⟨n, hn⟩ := (inForceRange_iff _).1 (h j hc)
        exact ⟨n, (if_pos hc).mpr hn⟩
      · exact ⟨0, (if_neg hc).mpr rfl⟩
    choose params hgives using hword
    exact ⟨_, onBtnForcePressed_eq_some.2 ⟨params, hgives, rfl⟩⟩

/-! ## The word in the mailbox -/

/-- **The word of an axis**: 0, or the value in Q24 without its fraction, which is less than 2^-24 off and has not the other
sign. -/
structure ForceWord (a : AxisInput) (w : Int32) : Prop where
  unchecked : a.checked = false → w = 0
  truncated : a.checked = true → ∀ v, value a.val = some v → w.toInt = truncate (v * 2 ^ 24)
  close : a.checked = true → ∀ v, value a.val = some v → |(w.toInt : ℚ) / 2 ^ 24 - v| < 1 / 2 ^ 24
  sign : a.checked = true → ∀ v, value a.val = some v → 0 ≤ (w.toInt : ℚ) * v

theorem AxisInput.Gives.forceWord {a : AxisInput} {w : Int32} (h : a.Gives 0 w) : ForceWord a w := by
  have htrunc : a.checked = true → ∀ v, value a.val = some v → w.toInt = truncate (v * 2 ^ 24) := by
    intro hc v hv
    rw [AxisInput.Gives, if_pos hc] at h
    exact (toInt32?_scaled hv w).1 h
  have hpow : (0 : ℚ) < 2 ^ 24 := by norm_num
  refine ⟨fun hc => ?_, htrunc, fun hc v hv => ?_, fun hc v hv => ?_⟩
  · rw [AxisInput.Gives, if_neg (by rw [hc]; decide)] at h
    exact h
  · have hoff := abs_truncate_sub_lt (v * 2 ^ 24)
    have hscale : (w.toInt : ℚ) / 2 ^ 24 - v = ((truncate (v * 2 ^ 24) : Int) - v * 2 ^ 24) / 2 ^ 24 := by
      rw [htrunc hc v hv, sub_div, mul_div_cancel_right₀ _ hpow.ne']
    rw [hscale, abs_div, abs_of_pos hpow]
    exact div_lt_div_of_pos_right hoff hpow
  · have hsame := truncate_mul_nonneg (v * 2 ^ 24)
    rw [← htrunc hc v hv, ← mul_assoc] at hsame
    exact nonneg_of_mul_nonneg_left hsame hpow

/-- **An iteration takes a record**: the connection is up, the record is next in the stream, and the read gets all of it
in pieces that fit. -/
structure TakesRecord (t : Parent) (env : RcvEnv) (bytes : List UInt8) : Prop where
  up : env.tcpiState = 1
  next : ∃ rest, t.net.fp.pending = bytes ++ rest
  read : ∃ fp buffer, readLoop t.net.fp (fun _ => 0) clientBuffSize env.freads = .returned (fp, buffer, 0)
  fit : PiecesFit (pieces t.net.fp env.freads)

/-- **The record an iteration takes is dispatched in it.** -/
theorem TakesRecord.iterate {n : Nat} {t : Parent} {env : RcvEnv} {c : PcCommCmd} (T : TakesRecord t env c.bytes)
    (I : LoopInv n t) : ∃ t', t.step (.iterate env) = some t' ∧ t'.mem = controllerSwitch t.mem c := by
  obtain ⟨rest, hnext⟩ := T.next
  obtain ⟨fp, buffer, hread⟩ := T.read
  have hroom : isBuffFull t.net.localBuff.info = false := by
    rw [Bool.eq_false_iff, ne_eq, I.holds.full_iff]
    decide
  have hbytes : slice buffer 0 clientBuffSize = c.bytes := by
    rw [(slice_pieces_iff hread).2 T.fit, hnext]
    exact List.take_left' c.bytes_length
  have hrecord : t.records (.iterate env) = [c.bytes] := by
    rw [Parent.records, if_pos T.up, wholeRecord, hread]
    exact congrArg (fun x => [x]) hbytes
  have hrcv : ∃ net events, networkRcv t.net t.pidChild env = .returned (t.pidChild, net, events) := by
    rw [networkRcv, if_pos T.up, hroom, if_neg Bool.false_ne_true, readData, hread]
    exact ⟨_, _, rfl⟩
  obtain ⟨net, events, hrcv⟩ := hrcv
  have hstep : ∃ t', t.step (.iterate env) = some t' := by
    rw [Parent.step, Parent.iterate, hrcv]
    exact ⟨_, rfl⟩
  obtain ⟨t', hstep⟩ := hstep
  obtain ⟨events, -, J⟩ := Parent.iterate_spec I.holds hstep
  refine ⟨t', hstep, ?_⟩
  rw [J.mem, hrecord, List.foldl_cons, List.foldl_nil, PcCommCmd.ofBytes_bytes]

/-- **A press on a connection with nothing on its way is taken by the next iteration.** -/
theorem takesRecord_arrive {s : Parent} (h : s.net.fp.pending = []) (c : PcCommCmd) :
    ∃ t, s.step (.arrive c.bytes) = some t ∧ TakesRecord t ⟨1, [none], 0, none, 0⟩ c.bytes := by
  have hnext : s.net.fp.pending ++ c.bytes = c.bytes := by rw [h, List.nil_append]
  have hread : (fread { s.net.fp with pending := s.net.fp.pending ++ c.bytes } clientBuffSize none).1 = c.bytes := by
    rw [fread, hnext]
    exact List.take_of_length_le c.bytes_length.le
  have hfull := (congrArg List.length hread).trans c.bytes_length
  have hpieces : pieces { s.net.fp with pending := s.net.fp.pending ++ c.bytes } [none] = [c.bytes] := by
    have hround := @readRound_full _ (fun _ => 0) _ _ (Nat.le_refl clientBuffSize) hfull
    have hkept : c.bytes.isEmpty = false := rfl
    rw [pieces, rounds, if_neg (by decide), Nat.min_self, hround]
    dsimp only
    rw [rounds_zero, List.map_cons, List.map_nil, hread, List.filter_cons_of_pos (by rw [hkept]; rfl), List.filter_nil]
  refine ⟨_, rfl, rfl, ⟨[], hnext.trans (List.append_nil _).symm⟩, ⟨_, _, readLoop_full _ [] hfull⟩, ?_⟩
  rw [hpieces]
  exact fun j hj => .inl ⟨hj.trans_eq c.bytes_length.symm, fun p hp => absurd hp List.not_mem_nil⟩

/-- **The forces reach the mailbox**: the press sends a command, and whenever the parent loop takes it with the mailbox
free, the mailbox holds the word of every axis. -/
structure ForceReaches (axes : Fin 6 → AxisInput) (bytes : List UInt8) : Prop where
  sent : onBtnForcePressed axes = some bytes
  stored : ∀ (pid sfd fd : Int32) (fp : File) (buff : Mem UInt8) (mem : ForceMem) (acts : List LoopAct) (t : Parent)
    (env : RcvEnv), run Parent.step (.start pid sfd fd fp buff mem) acts = some t → t.mem.virtualInfo.valid = 0 →
      TakesRecord t env bytes → ∃ t', t.step (.iterate env) = some t' ∧
        ∀ j, ForceWord (axes j) (t'.mem.virtualInfo.force j)

/-- **Every typed force reaches the mailbox exactly if each checked one fits in Q24.** -/
theorem force_reaches_iff (axes : Fin 6 → AxisInput) :
    (∃ bytes, ForceReaches axes bytes) ↔ ∀ j, (axes j).checked = true → (axes j).InForceRange := by
  rw [← pressed_iff]
  constructor
  · rintro ⟨bytes, F⟩
    exact ⟨bytes, F.sent⟩
  · rintro ⟨bytes, hsent⟩
    refine ⟨bytes, hsent, fun pid sfd fd fp buff mem acts t env hrun hfree T => ?_⟩
    obtain ⟨params, hgives, rfl⟩ := onBtnForcePressed_eq_some.1 hsent
    obtain ⟨t', hstep, hmem⟩ := T.iterate (loopInv_of_run hrun)
    refine ⟨t', hstep, fun j => ?_⟩
    have hforce : t'.mem.virtualInfo = ⟨virtualPending, params⟩ := by
      rw [hmem, controllerSwitch, ForceCmd.ofCode?_code]
      exact forceVirtualDownload_free _ hfree
    rw [hforce]
    exact (hgives j).forceWord

/-- 128 on the first axis: in Q24 it is `2 ^ 31`. -/
theorem force_out_of_range : ¬ ∀ axes : Fin 6 → AxisInput, ∃ bytes, ForceReaches axes bytes := by
  intro h
  obtain ⟨bytes, F⟩ := h (fun _ => ⟨true, Float.Model.ofInt 128, by decide⟩)
  have hnone : onBtnForcePressed (fun _ => ⟨true, Float.Model.ofInt 128, by decide⟩) = none := by decide +kernel
  exact absurd (F.sent.symm.trans hnone) (by simp)

end VirtualForce
