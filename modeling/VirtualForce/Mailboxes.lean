import VirtualForce.VirtualMailbox
/-!
# Mailboxes — the three mailboxes beside the force core

The virtual-force mailbox is filled here and emptied by the core; `back_info` and `monitor_info` are filled by the core
and emptied by `Servo_Force_Comm_Get_Result` and `Force_Monitor_Upload`.  The core keeps to the protocol: it reads only
while `valid` is not 0 and then stores 0, it writes only while `valid` is 0 and then stores 1.  A word is 32 bits.
-/
namespace VirtualForce

open Mailbox Runs

/-! ## The results of the core -/

theorem valid_marked : ((1 : Int32) != 0) = true := by decide

/-- `back_info->valid`: tested for being set here, stored 1 by the core. -/
def backSignal : Signal Int32 where
  free := fun valid => valid == 0
  full := fun valid => valid != 0
  mark := 1
  clear := 0
  full_mark := valid_marked
  free_clear := valid_cleared
  not_both := valid_not_both

theorem backSignal_full_iff {valid : Int32} : backSignal.full valid = true ↔ valid ≠ 0 := bne_iff_ne

theorem backSignal_free_iff {valid : Int32} : backSignal.free valid = true ↔ valid = 0 := beq_iff_eq

theorem backSignal_taken_iff {valid : Int32} : backSignal.free valid = false ↔ valid ≠ 0 := beq_eq_false_iff_ne

/-- The words of `FORCE_BACK_INFO_t` behind `valid`. -/
def ForceBackInfo.ofWords (valid : Int32) (w : Fin 49 → Int32) : ForceBackInfo where
  valid := valid
  theta := fun j => w ⟨j, by omega⟩
  force := fun j => w ⟨6 + j, by omega⟩
  dignoseVar := fun i j => w ⟨12 + 6 * i + j, by omega⟩
  rsvData := w 48

/-- The mailbox, the word of `pull_ptr` that `valid` is copied to, and what `pull_ptr` pointed to when a call returned
0. -/
structure BackLink where
  box : Box Int32 Int32 49
  pullValid : Option Int32
  results : List ForceBackInfo

inductive BackAct where
  | coreFill (record : Fin 49 → Int32)
  | coreWord (j : Fin 49)
  | coreMark
  | test (buf : Fin 49 → Int32)
  | copyWord (j : Fin 49)
  | copyValid
  | storeValid

namespace BackLink

def startWith (valid : Int32) (words : Fin 49 → Int32) : BackLink := ⟨.startWith backSignal valid words, none, []⟩

def backInfo (s : BackLink) : ForceBackInfo := .ofWords s.box.flag s.box.words

def onBox (s : BackLink) (act : Act Int32 49) : Option BackLink :=
  (s.box.step backSignal act).map (fun box => { s with box := box })

/-- `memcpy` copies `valid` with the rest. -/
def step (s : BackLink) : BackAct → Option BackLink
  | .coreFill record => s.onBox (.offer record)
  | .coreWord j => s.onBox (.writeWord j)
  | .coreMark => s.onBox .mark
  | .test buf => (s.onBox (.look buf)).map (fun s => { s with pullValid := none })
  | .copyWord j => s.onBox (.readWord j)
  | .copyValid => match s.box.reader with
    | .idle => none
    | .copying _ _ => some { s with pullValid := some s.box.flag }
  | .storeValid => match s.pullValid, s.box.reader with
    | some valid, .copying buf _ =>
      (s.onBox .clear).map (fun s => { s with results := s.results ++ [.ofWords valid buf] })
    | _, _ => none

end BackLink

/-- Each result is a record taken, with a `valid` that was set. -/
structure BackInv (s : BackLink) : Prop where
  box : Kept backSignal s.box
  valid : ∀ v, s.pullValid = some v → v ≠ 0
  results : List.Forall₂ (fun r w => r = ForceBackInfo.ofWords r.valid w ∧ r.valid ≠ 0) s.results s.box.taken

theorem BackInv.onBox {s s' : BackLink} {act : Act Int32 49} (I : BackInv s) (hact : s.box.takes act = [])
    (h : s.onBox act = some s') : BackInv s' := by
  simp only [BackLink.onBox, Option.map_eq_some_iff] at h
  obtain ⟨box, hbox, rfl⟩ := h
  have htaken := taken_step backSignal hbox
  rw [hact, List.append_nil] at htaken
  exact ⟨I.box.step hbox, I.valid, by rw [htaken]; exact I.results⟩

theorem BackInv.step {s s' : BackLink} {act : BackAct} (I : BackInv s) (h : s.step act = some s') : BackInv s' := by
  cases act with
  | coreFill record => exact I.onBox rfl h
  | coreWord j => exact I.onBox rfl h
  | coreMark => exact I.onBox rfl h
  | test buf =>
    simp only [BackLink.step, Option.map_eq_some_iff] at h
    obtain ⟨t, ht, rfl⟩ := h
    have I' := I.onBox rfl ht
    exact ⟨I'.box, fun v hv => (by simp at hv), I'.results⟩
  | copyWord j => exact I.onBox rfl h
  | copyValid =>
    simp only [BackLink.step] at h
    split at h
    · cases h
    · rename_i buf done hs
      rw [← Option.some.inj h]
      refine ⟨I.box, fun v hv => ?_, I.results⟩
      have hfull := I.box.full_of_copying hs
      rw [← Option.some.inj hv]
      exact backSignal_full_iff.1 hfull
  | storeValid =>
    simp only [BackLink.step] at h
    split at h
    · rename_i valid buf done hv hs
      simp only [BackLink.onBox, Option.map_map, Option.map_eq_some_iff] at h
      obtain ⟨box, hbox, rfl⟩ := h
      have htaken := taken_step backSignal hbox
      simp only [Box.takes, hs] at htaken
      refine ⟨I.box.step hbox, I.valid, ?_⟩
      simp only [Function.comp_apply, htaken]
      exact List.rel_append I.results (.cons ⟨rfl, I.valid valid hv⟩ .nil)
    · cases h

theorem run_copyWords : ∀ (l : List (Fin 49)) (s : BackLink), run BackLink.step s (l.map .copyWord) =
    (run (Box.step backSignal) s.box (l.map .readWord)).map (fun box => { s with box := box })
  | [], s => rfl
  | j :: l, s => by
    rw [List.map_cons, List.map_cons, run_cons, run_cons]
    simp only [BackLink.step, BackLink.onBox]
    cases s.box.step backSignal (.readWord j) with
    | none => rfl
    | some box => exact run_copyWords l { s with box := box }

theorem step_copyValid {s : BackLink} {buf : Fin 49 → Int32} {done : Fin 49 → Bool} (hs : s.box.reader = .copying buf done) :
    s.step .copyValid = some { s with pullValid := some s.box.flag } := by
  simp only [BackLink.step, hs]

theorem step_storeValid {s : BackLink} {buf : Fin 49 → Int32} {done : Fin 49 → Bool} {valid : Int32}
    (hs : s.box.reader = .copying buf done) (hall : ∀ i, done i = true) (hv : s.pullValid = some valid) :
    s.step .storeValid = some { s with
      box := { s.box with flag := 0, reader := .idle, taken := s.box.taken ++ [buf] }
      results := s.results ++ [.ofWords valid buf] } := by
  have hclear := step_clear_all backSignal hs hall
  simp only [BackLink.step, BackLink.onBox, hv, hs, hclear, Option.map_some]
  rfl

/-- **Uninterrupted, the reader's steps are `Servo_Force_Comm_Get_Result`**, when there is a result. -/
theorem run_getResult (s : BackLink) (buf : Fin 49 → Int32) (pull : ForceBackInfo) (hidle : s.box.reader = .idle)
    (hfull : s.box.flag ≠ 0) : ∃ s', run BackLink.step s (.test buf :: ((List.finRange 49).map .copyWord ++
        [.copyValid, .storeValid])) = some s' ∧
      servoForceCommGetResult s.backInfo pull = (0, s'.backInfo, s.backInfo) ∧ s'.results = s.results ++ [s.backInfo] := by
  have hlook := step_found backSignal s.box buf hidle (backSignal_full_iff.2 hfull)
  have htest : s.step (.test buf) =
      some { s with box := { s.box with reader := .copying buf (fun _ => false) }, pullValid := none } := by
    simp only [BackLink.step, BackLink.onBox, hlook, Option.map_some]
  have hcopy := run_copyWords (List.finRange 49)
    { s with box := { s.box with reader := .copying buf (fun _ => false) }, pullValid := none }
  rw [run_copied backSignal rfl, Option.map_some] at hcopy
  have hend : run BackLink.step { s with box := { s.box with reader := .copying s.box.words (fun _ => true) }, pullValid := none }
      [.copyValid, .storeValid] = some { s with
        box := { s.box with flag := 0, taken := s.box.taken ++ [s.box.words] }
        pullValid := some s.box.flag
        results := s.results ++ [s.backInfo] } := by
    rw [run_cons, step_copyValid rfl, Option.bind_some, run_cons, step_storeValid rfl (fun _ => rfl) rfl, Option.bind_some,
      run_nil, ← hidle]
    rfl
  refine ⟨{ s with
    box := { s.box with flag := 0, taken := s.box.taken ++ [s.box.words] }
    pullValid := some s.box.flag
    results := s.results ++ [s.backInfo] }, ?_, ?_, rfl⟩
  · rw [run_cons, htest, Option.bind_some, run_append, hcopy, Option.bind_some, hend]
  · rw [servoForceCommGetResult, if_pos (by simpa [BackLink.backInfo, ForceBackInfo.ofWords] using hfull)]
    rfl

theorem step_getResult_none (s : BackLink) (buf : Fin 49 → Int32) (pull : ForceBackInfo) (hidle : s.box.reader = .idle)
    (hfree : s.box.flag = 0) : s.step (.test buf) = some { s with pullValid := none } ∧
      servoForceCommGetResult s.backInfo pull = (-1, s.backInfo, pull) := by
  have hunset : backSignal.full s.box.flag = false := by rw [hfree]; rfl
  constructor
  · simp only [BackLink.step, BackLink.onBox, step_passed backSignal s.box buf hidle hunset, Option.map_some]
  · rw [servoForceCommGetResult, if_neg (by simpa [BackLink.backInfo, ForceBackInfo.ofWords] using hfree)]

/-! ## The monitor samples of the core -/

theorem monitor_marked : ((1 : Int32) == 1) = true := by decide

theorem monitor_not_both (valid : Int32) (h : (valid == 0) = true) : (valid == 1) = false := by rw [eq_of_beq h]; rfl

/-- `monitor_info->valid`: tested against 1 here and against 0 by the core. -/
def monitorSignal : Signal Int32 where
  free := fun valid => valid == 0
  full := fun valid => valid == 1
  mark := 1
  clear := 0
  full_mark := monitor_marked
  free_clear := valid_cleared
  not_both := monitor_not_both

abbrev MonitorBox := Box Int32 UInt32 13

/-- The words of `Force_Monitor_t` behind `valid`; a `double` is two, the low one first. -/
def ForceMonitor.ofWords (valid : Int32) (w : Fin 13 → UInt32) : ForceMonitor where
  valid := valid
  forceState := (w 0).toInt32
  forceTheta := fun j => (w ⟨1 + 2 * j, by omega⟩).toUInt64 ||| (w ⟨2 + 2 * j, by omega⟩).toUInt64 <<< 32

def MonitorBox.monitorInfo (s : MonitorBox) : ForceMonitor := .ofWords s.flag s.words

/-- **Uninterrupted, the reader's steps are `Force_Monitor_Upload`** of a fresh sample. -/
theorem run_upload (s : MonitorBox) (buf : Fin 13 → UInt32) (frame : PcCommData) (hidle : s.reader = .idle)
    (hfresh : s.flag = 1) : ∃ s' : MonitorBox,
    run (Box.step monitorSignal) s (.look buf :: (List.finRange 13).map .readWord ++ [.clear]) = some s' ∧
      s'.taken = s.taken ++ [s.words] ∧ forceMonitorUpload s.monitorInfo frame = ({ frame with
        forceState := s.monitorInfo.forceState
        forceTheta := s.monitorInfo.forceTheta }, s'.monitorInfo) := by
  refine ⟨_, run_take monitorSignal s buf hidle (by rw [hfresh]; rfl), rfl, ?_⟩
  have hvalid : s.monitorInfo.valid = 1 := hfresh
  rw [forceMonitorUpload, if_pos hvalid]
  rfl

theorem step_upload_stale (s : MonitorBox) (buf : Fin 13 → UInt32) (frame : PcCommData) (hidle : s.reader = .idle)
    (hstale : s.flag ≠ 1) : s.step monitorSignal (.look buf) = some s ∧
      forceMonitorUpload s.monitorInfo frame = (frame, s.monitorInfo) := by
  refine ⟨step_passed monitorSignal s buf hidle (by simpa [monitorSignal] using hstale), ?_⟩
  have hvalid : s.monitorInfo.valid ≠ 1 := hstale
  rw [forceMonitorUpload, if_neg hvalid]

/-! ## All three -/

structure Mailboxes where
  virtual : VirtualBox
  back : BackLink
  monitor : MonitorBox

inductive MailAct where
  | virtual (act : Act Int32 6)
  | back (act : BackAct)
  | monitor (act : Act UInt32 13)

namespace Mailboxes

/-- From any `valid` and any words in each. -/
def startWith (virtualInfo : Int32 × (Fin 6 → Int32)) (backInfo : Int32 × (Fin 49 → Int32))
    (monitorInfo : Int32 × (Fin 13 → UInt32)) : Mailboxes where
  virtual := .startWith virtualSignal virtualInfo.1 virtualInfo.2
  back := .startWith backInfo.1 backInfo.2
  monitor := .startWith monitorSignal monitorInfo.1 monitorInfo.2

def step (s : Mailboxes) : MailAct → Option Mailboxes
  | .virtual act => (s.virtual.step virtualSignal act).map (fun box => { s with virtual := box })
  | .back act => (s.back.step act).map (fun back => { s with back := back })
  | .monitor act => (s.monitor.step monitorSignal act).map (fun box => { s with monitor := box })

structure Inv (s : Mailboxes) : Prop where
  virtual : Kept virtualSignal s.virtual
  back : BackInv s.back
  monitor : Kept monitorSignal s.monitor

theorem Inv.step {s s' : Mailboxes} {act : MailAct} (I : Inv s) (h : s.step act = some s') : Inv s' := by
  cases act with
  | virtual act =>
    simp only [Mailboxes.step, Option.map_eq_some_iff] at h
    obtain ⟨box, hbox, rfl⟩ := h
    exact ⟨I.virtual.step hbox, I.back, I.monitor⟩
  | back act =>
    simp only [Mailboxes.step, Option.map_eq_some_iff] at h
    obtain ⟨back, hback, rfl⟩ := h
    exact ⟨I.virtual, I.back.step hback, I.monitor⟩
  | monitor act =>
    simp only [Mailboxes.step, Option.map_eq_some_iff] at h
    obtain ⟨box, hbox, rfl⟩ := h
    exact ⟨I.virtual, I.back, I.monitor.step hbox⟩

/-- **Every mailbox hands over whole records**: those taken are those put, all or all but the last, each once, in order;
and a result is the words of a record taken, under a `valid` that was set. -/
structure HandsOver (s : Mailboxes) : Prop where
  virtual : HandedOver s.virtual
  back : HandedOver s.back.box
  results : List.Forall₂ (fun r w => r = ForceBackInfo.ofWords r.valid w ∧ r.valid ≠ 0) s.back.results s.back.box.taken
  monitor : HandedOver s.monitor

theorem Inv.handsOver {s : Mailboxes} (I : Inv s) : HandsOver s :=
  ⟨I.virtual.handedOver, I.back.box.handedOver, I.back.results, I.monitor.handedOver⟩

end Mailboxes

/-- **Whole records, in order, over every interleaving** of single words. -/
theorem mailboxes_hand_over (virtualInfo : Int32 × (Fin 6 → Int32)) (backInfo : Int32 × (Fin 49 → Int32))
    (monitorInfo : Int32 × (Fin 13 → UInt32)) (acts : List MailAct) (s : Mailboxes)
    (hrun : run Mailboxes.step (.startWith virtualInfo backInfo monitorInfo) acts = some s) : s.HandsOver := by
  have I0 : (Mailboxes.startWith virtualInfo backInfo monitorInfo).Inv :=
    ⟨.startWith _ _ _, ⟨.startWith _ _ _, fun v hv => (by simp [Mailboxes.startWith, BackLink.startWith] at hv), .nil⟩,
      .startWith _ _ _⟩
  exact (run_inv (fun _ _ _ I hs => Mailboxes.Inv.step I hs) acts _ _ I0 hrun).handsOver

/-- A result of before, a sample put and taken, and a command half written. -/
theorem mailboxes_hand_over_mixed : ∃ s : Mailboxes,
    run Mailboxes.step (.startWith (0, fun _ => 0) (1, fun _ => 3) (0, fun _ => 0))
      (.monitor (.offer (fun _ => 7)) :: .virtual (.offer (fun _ => 5)) :: (List.finRange 13).map (.monitor ∘ .writeWord) ++
        .monitor .mark :: .back (.test (fun _ => 0)) :: .monitor (.look (fun _ => 0)) :: .virtual (.writeWord 2) ::
        (List.finRange 49).map (.back ∘ .copyWord) ++ .back .copyValid ::
        (List.finRange 13).map (.monitor ∘ .readWord) ++ [.monitor .clear, .back .storeValid]) = some s ∧ s.HandsOver :=
  exists_run (by decide +kernel) (fun _ hs => mailboxes_hand_over _ _ _ _ _ hs)

end VirtualForce
