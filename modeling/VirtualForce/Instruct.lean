import VirtualForce.Mailboxes
/-!
# Instruct — an instruction beside the force core

`Servo_Force_Comm_Set_Instruct` a word at a time.  Its `memcpy` copies the caller's `valid` first, over the flag that
the core tests: when that is not 0 the core may take the record before its words are there, and take it once more when
the call has stored 1.  Where the core does not find the flag set in the middle of a copy the mailbox hands over whole
records.
-/
namespace VirtualForce

open Mailbox Runs

/-- The words of `FORCE_INSTRUCTION_INFO_t` behind `valid`; a `double` is two, the low one first. -/
def ForceInstructionInfo.ofWords (valid : Int32) (w : Fin 97 → UInt32) : ForceInstructionInfo where
  valid := valid
  notUsed := (w 0).toInt32
  doubles := fun i j =>
    (w ⟨1 + 12 * i + 2 * j, by omega⟩).toUInt64 ||| (w ⟨2 + 12 * i + 2 * j, by omega⟩).toUInt64 <<< 32

/-- The mailbox, and the `valid` of the record under way, until it is copied. -/
structure InstructLink where
  box : Box Int32 UInt32 97
  callValid : Option Int32

inductive InstructAct where
  /-- `Servo_Force_Comm_Set_Instruct` tests `valid` -/
  | call (valid : Int32) (words : Fin 97 → UInt32)
  | copyValid
  | copyWord (j : Fin 97)
  | storeValid
  | coreTest (buf : Fin 97 → UInt32)
  | coreWord (j : Fin 97)
  | coreClear

namespace InstructLink

def startWith (valid : Int32) (words : Fin 97 → UInt32) : InstructLink := ⟨.startWith backSignal valid words, none⟩

def instructInfo (s : InstructLink) : ForceInstructionInfo := .ofWords s.box.flag s.box.words

def onBox (s : InstructLink) (act : Act UInt32 97) : Option InstructLink :=
  (s.box.step backSignal act).map (fun box => { s with box := box })

/-- `valid` is the first word copied. -/
def step (s : InstructLink) : InstructAct → Option InstructLink
  | .call valid words => (s.onBox (.offer words)).map (fun t =>
      { t with callValid := if s.box.flag = 0 then some valid else none })
  | .copyValid => match s.callValid with
    | none => none
    | some valid => some ⟨{ s.box with flag := valid }, none⟩
  | .copyWord j => match s.callValid with
    | none => s.onBox (.writeWord j)
    | some _ => none
  | .storeValid => match s.callValid with
    | none => s.onBox .mark
    | some _ => none
  | .coreTest buf => s.onBox (.look buf)
  | .coreWord j => s.onBox (.readWord j)
  | .coreClear => s.onBox .clear

/-- **The core does not find `valid` set in the middle of a copy.** -/
def Quiet (s : InstructLink) : InstructAct → Prop
  | .coreTest _ => s.box.flag ≠ 0 → s.box.writer = .idle
  | _ => True

end InstructLink

/-- The mailbox as it should be while a record is copied: free. -/
def calm (b : Box Int32 UInt32 97) : Box Int32 UInt32 97 := match b.writer with
  | .idle => b
  | .copying _ _ => { b with flag := 0 }

theorem calm_idle {b : Box Int32 UInt32 97} (h : b.writer = .idle) : calm b = b := by
  unfold calm
  rw [h]

theorem calm_copying {b : Box Int32 UInt32 97} (h : b.writer ≠ .idle) : calm b = { b with flag := 0 } := by
  unfold calm
  split
  · rename_i hidle
    exact absurd hidle h
  · rfl

theorem calm_free {b : Box Int32 UInt32 97} (h : b.flag = 0) : calm b = b := by
  by_cases hw : b.writer = .idle
  · exact calm_idle hw
  · rw [calm_copying hw, ← h]

/-- **The calm mailbox keeps its invariant**, and a `valid` not yet copied is that of a record under way. -/
structure InstructInv (s : InstructLink) : Prop where
  box : Kept backSignal (calm s.box)
  copying : s.callValid ≠ none → s.box.writer ≠ .idle

namespace InstructInv

variable {s s' : InstructLink}

theorem onBox {act : Act UInt32 97} (I : InstructInv s) (h : s.onBox act = some s')
    (hcalm : ∀ box, s.box.step backSignal act = some box → (calm s.box).step backSignal act = some (calm box))
    (hwriter : ∀ box, s.box.step backSignal act = some box → s.callValid ≠ none → box.writer ≠ .idle) :
    InstructInv s' := by
  simp only [InstructLink.onBox, Option.map_eq_some_iff] at h
  obtain ⟨box, hbox, rfl⟩ := h
  exact ⟨I.box.step (hcalm box hbox), hwriter box hbox⟩

/-- **Every step keeps the invariant**, if the core does not find `valid` set in the middle of a copy. -/
theorem step {act : InstructAct} (I : InstructInv s) (hq : s.Quiet act) (h : s.step act = some s') : InstructInv s' := by
  have hkept := I.box
  cases act with
  | call valid words =>
    simp only [InstructLink.step, InstructLink.onBox, Option.map_map, Option.map_eq_some_iff] at h
    obtain ⟨box, hbox, rfl⟩ := h
    obtain ⟨hidle, hcase⟩ := step_offer hbox
    rw [calm_idle hidle] at hkept
    rcases hcase with ⟨hfree, rfl⟩ | ⟨hfull, rfl⟩
    · have hflag : s.box.flag = 0 := backSignal_free_iff.1 hfree
      refine ⟨?_, fun _ => by simp⟩
      rw [Function.comp_apply, calm_free (by exact hflag)]
      exact hkept.step hbox
    · have hflag : s.box.flag ≠ 0 := backSignal_taken_iff.1 hfull
      refine ⟨?_, fun hcall => absurd (if_neg hflag) hcall⟩
      rw [Function.comp_apply, calm_idle (by exact hidle)]
      exact hkept.step hbox
  | copyValid =>
    simp only [InstructLink.step] at h
    split at h
    · cases h
    · rename_i valid hvalid
      cases h
      have hw : s.box.writer ≠ .idle := I.copying (by rw [hvalid]; simp)
      refine ⟨?_, fun hcall => absurd rfl hcall⟩
      rw [calm_copying hw] at hkept
      rw [calm_copying (by exact hw)]
      exact hkept
  | copyWord j =>
    simp only [InstructLink.step] at h
    split at h
    · rename_i hnone
      refine I.onBox h (fun box hbox => ?_) (fun box _ hcall => absurd hnone hcall)
      obtain ⟨record, done, hw, rfl⟩ := step_writeWord hbox
      rw [calm_copying (by rw [hw]; simp), calm_copying (by simp)]
      simp only [Box.step, hw]
    · cases h
  | storeValid =>
    simp only [InstructLink.step] at h
    split at h
    · rename_i hnone
      refine I.onBox h (fun box hbox => ?_) (fun box _ hcall => absurd hnone hcall)
      obtain ⟨record, done, hw, hall, rfl⟩ := step_mark hbox
      rw [calm_copying (by rw [hw]; simp), calm_idle rfl]
      simp only [Box.step, hw, if_pos hall]
    · cases h
  | coreTest buf =>
    have hsame : ∀ b : Box Int32 UInt32 97, b.flag = s.box.flag → b.writer = s.box.writer → calm b = b := by
      intro b hflag hw
      by_cases hfree : s.box.flag = 0
      · exact calm_free (hflag.trans hfree)
      · exact calm_idle (hw.trans (hq hfree))
    refine I.onBox h (fun box hbox => ?_) (fun box hbox hcall => ?_)
    · rw [hsame s.box rfl rfl, hbox]
      obtain ⟨-, ⟨-, rfl⟩ | ⟨-, rfl⟩⟩ := step_look hbox
      · rw [hsame _ (by exact rfl) (by exact rfl)]
      · rw [hsame _ (by exact rfl) (by exact rfl)]
    · obtain ⟨-, ⟨-, rfl⟩ | ⟨-, rfl⟩⟩ := step_look hbox
      · exact I.copying hcall
      · exact I.copying hcall
  | coreWord j =>
    refine I.onBox h (fun box hbox => ?_) (fun box hbox hcall => ?_)
    · obtain ⟨buf, done, hr, rfl⟩ := step_readWord hbox
      by_cases hw : s.box.writer = .idle
      · rw [calm_idle hw, calm_idle (by exact hw), hbox]
      · rw [calm_copying hw, calm_copying (by exact hw)]
        simp only [Box.step, hr]
    · obtain ⟨buf, done, -, rfl⟩ := step_readWord hbox
      exact I.copying hcall
  | coreClear =>
    refine I.onBox h (fun box hbox => ?_) (fun box hbox hcall => ?_)
    · obtain ⟨buf, done, hr, hall, rfl⟩ := step_clear hbox
      rw [calm_free (b := { s.box with flag := backSignal.clear, reader := .idle, taken := s.box.taken ++ [buf] }) rfl]
      by_cases hw : s.box.writer = .idle
      · rw [calm_idle hw, hbox]
      · rw [calm_copying hw]
        simp only [Box.step, hr, if_pos hall]
    · obtain ⟨buf, done, -, -, rfl⟩ := step_clear hbox
      exact I.copying hcall

end InstructInv

/-! ## A call that nobody interrupts -/

namespace InstructLink

/-- **A row of steps on the mailbox alone** is that row of the mailbox's. -/
theorem run_onBox {acts : Fin 97 → InstructAct} {boxActs : Fin 97 → Act UInt32 97} {callValid : Option Int32}
    (hstep : ∀ (s : InstructLink) j, s.callValid = callValid → s.step (acts j) = s.onBox (boxActs j)) :
    ∀ (l : List (Fin 97)) (s : InstructLink), s.callValid = callValid → run step s (l.map acts) =
      (run (Box.step backSignal) s.box (l.map boxActs)).map (fun box => { s with box := box })
  | [], _, _ => rfl
  | j :: l, s, hs => by
    rw [List.map_cons, List.map_cons, run_cons, run_cons, hstep s j hs, onBox]
    cases s.box.step backSignal (boxActs j) with
    | none => rfl
    | some box => exact run_onBox hstep l { s with box := box } hs

theorem step_call_free {s : InstructLink} (valid : Int32) (words : Fin 97 → UInt32) (hidle : s.box.writer = .idle)
    (hfree : s.box.flag = 0) : s.step (.call valid words) = some ⟨{ s.box with
      writer := .copying words (fun _ => false)
      offered := s.box.offered ++ [words] }, some valid⟩ := by
  have haccept := step_accepted backSignal s.box words hidle (backSignal_free_iff.2 hfree)
  simp only [step, onBox, haccept, if_pos hfree, Option.map_some]

theorem step_copyValid {s : InstructLink} {valid : Int32} (h : s.callValid = some valid) :
    s.step .copyValid = some ⟨{ s.box with flag := valid }, none⟩ := by simp only [step, h]

theorem step_storeValid {s : InstructLink} {record : Fin 97 → UInt32} {done : Fin 97 → Bool}
    (hw : s.box.writer = .copying record done) (hall : ∀ i, done i = true) (hnone : s.callValid = none) :
    s.step .storeValid =
      some ⟨{ s.box with flag := 1, writer := .idle, put := s.box.put ++ [record] }, none⟩ := by
  have hmark := step_mark_all backSignal hw hall
  simp only [step, hnone, onBox, hmark, Option.map_some]
  rfl

theorem step_coreTest {s : InstructLink} (buf : Fin 97 → UInt32) (hidle : s.box.reader = .idle) (hset : s.box.flag ≠ 0) :
    s.step (.coreTest buf) = some { s with box := { s.box with reader := .copying buf (fun _ => false) } } := by
  have hfound := step_found backSignal s.box buf hidle (backSignal_full_iff.2 hset)
  simp only [step, onBox, hfound, Option.map_some]

theorem step_coreClear {s : InstructLink} {buf : Fin 97 → UInt32} {done : Fin 97 → Bool}
    (hr : s.box.reader = .copying buf done) (hall : ∀ i, done i = true) : s.step .coreClear = some { s with
      box := { s.box with flag := 0, reader := .idle, taken := s.box.taken ++ [buf] } } := by
  have hclear := step_clear_all backSignal hr hall
  simp only [step, onBox, hclear, Option.map_some]
  rfl

/-- The steps of a call, and those of the core when it finds `valid` set. -/
def callActs (valid : Int32) (words : Fin 97 → UInt32) : List InstructAct :=
  .call valid words :: .copyValid :: ((List.finRange 97).map .copyWord ++ [.storeValid])

def coreActs (buf : Fin 97 → UInt32) : List InstructAct :=
  .coreTest buf :: ((List.finRange 97).map .coreWord ++ [.coreClear])

theorem run_callActs (s : InstructLink) (valid : Int32) (words : Fin 97 → UInt32) (hidle : s.box.writer = .idle)
    (hfree : s.box.flag = 0) : run step s (callActs valid words) = some ⟨{ s.box with
      flag := 1
      words := words
      offered := s.box.offered ++ [words]
      put := s.box.put ++ [words] }, none⟩ := by
  have hcopy := @run_onBox .copyWord .writeWord none (fun s j hs => by simp only [step, hs]) (List.finRange 97) ⟨{ s.box with
    flag := valid
    writer := .copying words (fun _ => false)
    offered := s.box.offered ++ [words] }, none⟩ rfl
  rw [run_written backSignal rfl, Option.map_some] at hcopy
  rw [callActs, run_cons, step_call_free valid words hidle hfree, Option.bind_some, run_cons, step_copyValid rfl,
    Option.bind_some, run_append, hcopy, Option.bind_some, run_cons, step_storeValid rfl (fun _ => rfl) rfl,
    Option.bind_some, run_nil, ← hidle]

/-- **Uninterrupted, the steps of a call are `Servo_Force_Comm_Set_Instruct`** on a free mailbox. -/
theorem run_setInstruct (s : InstructLink) (valid : Int32) (words : Fin 97 → UInt32) (hidle : s.box.writer = .idle)
    (hfree : s.box.flag = 0) : ∃ s', run step s (callActs valid words) = some s' ∧
      servoForceCommSetInstruct s.instructInfo (.ofWords valid words) = (0, s'.instructInfo) ∧
        s'.box.put = s.box.put ++ [words] := by
  refine ⟨_, run_callActs s valid words hidle hfree, ?_, rfl⟩
  rw [servoForceCommSetInstruct, if_pos (by exact hfree)]
  rfl

/-- **The core takes what is there** when it finds `valid` set. -/
theorem run_coreActs (s : InstructLink) (buf : Fin 97 → UInt32) (hidle : s.box.reader = .idle) (hset : s.box.flag ≠ 0) :
    run step s (coreActs buf) = some { s with box := { s.box with flag := 0, taken := s.box.taken ++ [s.box.words] } } := by
  have hcopy := @run_onBox .coreWord .readWord s.callValid (fun _ _ _ => rfl) (List.finRange 97)
    { s with box := { s.box with reader := .copying buf (fun _ => false) } } rfl
  rw [run_copied backSignal rfl, Option.map_some] at hcopy
  rw [coreActs, run_cons, step_coreTest buf hidle hset, Option.bind_some, run_append, hcopy, Option.bind_some, run_cons,
    step_coreClear rfl (fun _ => rfl), Option.bind_some, run_nil, ← hidle]

/-- A call on a mailbox that is not free leaves it. -/
theorem step_call_pending (s : InstructLink) (valid : Int32) (words : Fin 97 → UInt32) (hidle : s.box.writer = .idle)
    (hpending : s.box.flag ≠ 0) : ∃ s', s.step (.call valid words) = some s' ∧
      servoForceCommSetInstruct s.instructInfo (.ofWords valid words) = (-1, s'.instructInfo) ∧
        s'.box.put = s.box.put := by
  have hdrop := step_dropped backSignal s.box words hidle (backSignal_taken_iff.2 hpending)
  refine ⟨⟨{ s.box with offered := s.box.offered ++ [words] }, none⟩, ?_, ?_, rfl⟩
  · simp only [step, onBox, hdrop, Option.map_some, if_neg hpending]
  · rw [servoForceCommSetInstruct, if_neg (by exact hpending)]
    rfl

end InstructLink

/-! ## Every run -/

theorem calm_lists (b : Box Int32 UInt32 97) :
    (calm b).taken = b.taken ∧ (calm b).put = b.put ∧ (calm b).offered = b.offered := by
  by_cases hw : b.writer = .idle
  · rw [calm_idle hw]
    exact ⟨rfl, rfl, rfl⟩
  · rw [calm_copying hw]
    exact ⟨rfl, rfl, rfl⟩

theorem InstructInv.handedOver {s : InstructLink} (I : InstructInv s) : HandedOver s.box := by
  obtain ⟨htaken, hput, hoffered⟩ := calm_lists s.box
  have H := I.box.handedOver
  refine ⟨?_, ?_⟩
  · have htake := H.taken
    rw [htaken, hput] at htake
    exact htake
  · have hsub := H.put
    rw [hput, hoffered] at hsub
    exact hsub

/-- A record with `valid` 0 leaves the flag at 0 while it is copied. -/
structure FlagFree (s : InstructLink) : Prop where
  flag : s.box.writer ≠ .idle → s.box.flag = 0
  call : ∀ v, s.callValid = some v → v = 0

theorem FlagFree.onBox {s s' : InstructLink} {act : Act UInt32 97} (F : FlagFree s) (h : s.onBox act = some s')
    (hflag : ∀ box, s.box.step backSignal act = some box → box.writer ≠ .idle → box.flag = 0) : FlagFree s' := by
  simp only [InstructLink.onBox, Option.map_eq_some_iff] at h
  obtain ⟨box, hbox, rfl⟩ := h
  exact ⟨hflag box hbox, F.call⟩

theorem FlagFree.step {s s' : InstructLink} {act : InstructAct} (F : FlagFree s)
    (hzero : ∀ valid words, act = .call valid words → valid = 0) (h : s.step act = some s') : FlagFree s' := by
  cases act with
  | call valid words =>
    simp only [InstructLink.step, InstructLink.onBox, Option.map_map, Option.map_eq_some_iff] at h
    obtain ⟨box, hbox, rfl⟩ := h
    obtain ⟨hidle, ⟨hfree, rfl⟩ | ⟨hfull, rfl⟩⟩ := step_offer hbox
    · have hflag : s.box.flag = 0 := backSignal_free_iff.1 hfree
      refine ⟨fun _ => hflag, fun v hv => ?_⟩
      simp only [Function.comp_apply, if_pos hflag, Option.some.injEq] at hv
      rw [← hv]
      exact hzero valid words rfl
    · have hflag : s.box.flag ≠ 0 := backSignal_taken_iff.1 hfull
      refine ⟨fun hw => absurd hidle hw, fun v hv => ?_⟩
      simp only [Function.comp_apply, if_neg hflag] at hv
      cases hv
  | copyValid =>
    simp only [InstructLink.step] at h
    split at h
    · cases h
    · rename_i valid hvalid
      cases h
      exact ⟨fun _ => F.call valid hvalid, fun v hv => by cases hv⟩
  | copyWord j =>
    simp only [InstructLink.step] at h
    split at h
    · refine F.onBox h (fun box hbox _ => ?_)
      obtain ⟨record, done, hw, rfl⟩ := step_writeWord hbox
      exact F.flag (by rw [hw]; simp)
    · cases h
  | storeValid =>
    simp only [InstructLink.step] at h
    split at h
    · refine F.onBox h (fun box hbox hw => ?_)
      obtain ⟨record, done, -, -, rfl⟩ := step_mark hbox
      exact absurd rfl hw
    · cases h
  | coreTest buf =>
    refine F.onBox h (fun box hbox hw => ?_)
    obtain ⟨-, ⟨-, rfl⟩ | ⟨-, rfl⟩⟩ := step_look hbox
    · exact F.flag hw
    · exact F.flag hw
  | coreWord j =>
    refine F.onBox h (fun box hbox hw => ?_)
    obtain ⟨buf, done, -, rfl⟩ := step_readWord hbox
    exact F.flag hw
  | coreClear =>
    refine F.onBox h (fun box hbox _ => ?_)
    obtain ⟨buf, done, -, -, rfl⟩ := step_clear hbox
    rfl

/-- **Calls whose records have `valid` 0 are never found in the middle of a copy.** -/
theorem quiet_of_valid_zero (valid : Int32) (words : Fin 97 → UInt32) {acts : List InstructAct}
    (hzero : ∀ v w, InstructAct.call v w ∈ acts → v = 0) :
    Along InstructLink.step InstructLink.Quiet (.startWith valid words) acts := by
  have hstart : FlagFree (.startWith valid words) := ⟨fun hw => absurd rfl hw, fun v hv => by cases hv⟩
  refine Along.of_inv (I := FlagFree) (C := fun _ act => ∀ v w, act = .call v w → v = 0) (fun s act F _ => ?_)
    (fun s act s' F hact h => F.step hact h) acts _ hstart (along_of_forall_mem (fun _ act hact v w heq => ?_))
  · cases act with
    | coreTest buf =>
      intro hflag
      by_cases hw : s.box.writer = .idle
      · exact hw
      · exact absurd (F.flag hw) hflag
    | _ => trivial
  · exact hzero v w (heq ▸ hact)

/-- **The core takes each record whole, in order, and once**, from any content of the mailbox, in every run in which it does
not find `valid` set in the middle of a copy. -/
theorem instruct_handed_over (valid : Int32) (words : Fin 97 → UInt32) (acts : List InstructAct) (s : InstructLink)
    (hrun : run InstructLink.step (.startWith valid words) acts = some s)
    (hquiet : Along InstructLink.step InstructLink.Quiet (.startWith valid words) acts) : HandedOver s.box := by
  have hstart : InstructInv (.startWith valid words) := ⟨.startWith backSignal valid words, fun hcall => absurd rfl hcall⟩
  exact (run_inv_along (fun _ _ _ I hq h => I.step hq h) acts _ s hstart hquiet hrun).handedOver

/-- The core tests in the middle of a copy, and takes the record when it is there; another call comes in the middle of its
copy, and one more when it has taken the record. -/
def testedActs : List InstructAct :=
  [[.call 0 (fun _ => 7), .copyValid], ((List.finRange 97).take 48).map .copyWord, [.coreTest (fun _ => 0)],
    ((List.finRange 97).drop 48).map .copyWord, [.storeValid, .coreTest (fun _ => 0)],
    ((List.finRange 97).take 30).map .coreWord, [.call 0 (fun _ => 8)], ((List.finRange 97).drop 30).map .coreWord,
    [.coreClear, .call 0 (fun _ => 9), .copyValid]].flatten

theorem instruct_handed_over_tested : ∃ s : InstructLink,
    run InstructLink.step (.startWith 0 (fun _ => 0)) testedActs = some s ∧ HandedOver s.box ∧
      s.box.offered.length = 3 ∧ s.box.put.length = 1 ∧ s.box.taken.length = 1 := by
  have hzero : ∀ v w, InstructAct.call v w ∈ testedActs → v = 0 := by
    intro v w hmem
    simp only [testedActs, List.mem_flatten, List.mem_cons, List.not_mem_nil, or_false, exists_eq_or_imp, exists_eq_left,
      List.mem_map, reduceCtorEq, and_false, exists_const, InstructAct.call.injEq, or_self, false_or] at hmem
    rcases hmem with ⟨h, -⟩ | ⟨h, -⟩ | ⟨h, -⟩ <;> exact h
  exact exists_run_check (by decide +kernel) (fun s hs _ =>
    instruct_handed_over 0 (fun _ => 0) _ s hs (quiet_of_valid_zero 0 _ hzero))

/-- A record with `valid` 1, found when no other word of it is there: the core takes a record of zeros, and no call has
put one. -/
theorem instruct_torn : ¬ ∀ (words : Fin 97 → UInt32) (acts : List InstructAct) (s : InstructLink),
    run InstructLink.step (.startWith 0 words) acts = some s → HandedOver s.box := by
  intro h
  have hset : (1 : Int32) ≠ 0 := by decide
  have hcall := InstructLink.step_call_free (s := .startWith 0 (fun _ => 0)) 1 (fun _ => 7) rfl rfl
  have hrun : ∃ s, run InstructLink.step (.startWith 0 (fun _ => 0))
      (.call 1 (fun _ => 7) :: .copyValid :: InstructLink.coreActs (fun _ => 0)) = some s ∧
        s.box.taken.length = 1 ∧ s.box.put.length = 0 := by
    rw [run_cons, hcall, Option.bind_some, run_cons, InstructLink.step_copyValid rfl, Option.bind_some,
      InstructLink.run_coreActs _ _ (by exact rfl) (by exact hset)]
    exact ⟨_, rfl, rfl, rfl⟩
  obtain ⟨s, hs, htaken, hput⟩ := hrun
  have hle := (h _ _ s hs).taken.length_le
  omega

end VirtualForce
