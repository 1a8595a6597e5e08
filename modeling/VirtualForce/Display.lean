import Mathlib.Data.List.ReduceOption
import VirtualForce.Mailboxes
/-!
# Display — the frames of `controller_display_res`

The display process beside the force core, a word at a time.  Each frame starts as zeros; `Force_Monitor_Upload` copies
a sample into it only when it finds `valid` to be 1, and nothing is kept from the frame before.  The core need not wait
for `valid` to be 0: then what it writes while a sample is copied shows in the frame.
-/
namespace VirtualForce

open Mailbox Runs

/-- What a frame carries: the `valid` that its upload found, and the sample, if it copied one. -/
structure FrameLoad where
  found : Int32
  sample : Option (Fin 13 → UInt32)

/-- A sample is carried when `valid` was found to be 1. -/
def FrameLoad.Ok (c : FrameLoad) : Prop := c.found = 1 ↔ c.sample.isSome = true

/-- Where `controller_display_res` is: the buffer cleared and `valid` found to be 1, or the upload done. -/
inductive Upload where
  | idle
  | copying (found : Int32) (buf : Fin 13 → UInt32) (done : Fin 13 → Bool)
  | done (carried : FrameLoad)

/-- What `network_set` is handed: a sample, or the cleared buffer. -/
def frameOf : Option (Fin 13 → UInt32) → PcCommData
  | none => ⟨magigHead, 0, fun _ => 0⟩
  | some w => ⟨magigHead, (ForceMonitor.ofWords 0 w).forceState, (ForceMonitor.ofWords 0 w).forceTheta⟩

/-- The monitor mailbox, the core and the display; the samples published and the frames sent. -/
structure Display where
  valid : Int32
  words : Fin 13 → UInt32
  core : Party UInt32 13
  upload : Upload
  published : List (Fin 13 → UInt32)
  carried : List FrameLoad
  sent : List PcCommData

inductive DisplayAct where
  | begin (sample : Fin 13 → UInt32)
  | writeWord (j : Fin 13)
  | publish
  | test
  | copyWord (j : Fin 13)
  | release
  | networkSet

namespace Display

/-- A sample that is in the mailbox before anything runs has been published. -/
def startWith (valid : Int32) (words : Fin 13 → UInt32) : Display :=
  ⟨valid, words, .idle, .idle, if valid = 1 then [words] else [], [], []⟩

def monitorInfo (s : Display) : ForceMonitor := .ofWords s.valid s.words

def step (s : Display) : DisplayAct → Option Display
  | .begin sample => match s.core with
    | .idle => some { s with core := .copying sample (fun _ => false) }
    | .copying _ _ => none
  | .writeWord j => match s.core with
    | .idle => none
    | .copying sample done => some { s with
        words := Function.update s.words j (sample j)
        core := .copying sample (Function.update done j true) }
  | .publish => match s.core with
    | .idle => none
    | .copying sample done =>
      if ∀ j, done j = true then some { s with valid := 1, core := .idle, published := s.published ++ [sample] }
      else none
  | .test => match s.upload with
    | .idle =>
      if s.valid = 1 then some { s with upload := .copying s.valid (fun _ => 0) (fun _ => false) }
      else some { s with upload := .done ⟨s.valid, none⟩ }
    | _ => none
  | .copyWord j => match s.upload with
    | .copying found buf done => some { s with
        upload := .copying found (Function.update buf j (s.words j)) (Function.update done j true) }
    | _ => none
  | .release => match s.upload with
    | .copying found buf done =>
      if ∀ j, done j = true then some { s with valid := 0, upload := .done ⟨found, some buf⟩ } else none
    | _ => none
  | .networkSet => match s.upload with
    | .done carried => some { s with
        upload := .idle
        carried := s.carried ++ [carried]
        sent := s.sent ++ [frameOf carried.sample] }
    | _ => none

def Copying (s : Display) : Prop := match s.upload with
  | .copying _ _ _ => True
  | _ => False

def Writing (s : Display) : Prop := match s.core with
  | .idle => False
  | .copying _ _ => True

/-- **The core writes no sample while one is copied**, and none is copied while it writes. -/
def Apart (s : Display) : DisplayAct → Prop
  | .begin _ => ¬ s.Copying
  | .writeWord _ => s.Writing → ¬ s.Copying
  | .publish => s.Writing → ¬ s.Copying
  | .test => s.valid = 1 → ¬ s.Writing
  | _ => True

/-- **The core waits for `valid` to be 0.** -/
def Waits (s : Display) : DisplayAct → Prop
  | .begin _ => s.valid = 0
  | _ => True

instance (s : Display) : Decidable s.Copying := by
  unfold Copying
  cases s.upload <;> infer_instance

instance (s : Display) : Decidable s.Writing := by
  unfold Writing
  cases s.core <;> infer_instance

instance (s : Display) (act : DisplayAct) : Decidable (s.Apart act) := by
  unfold Apart
  cases act <;> infer_instance

instance (s : Display) (act : DisplayAct) : Decidable (s.Waits act) := by
  unfold Waits
  cases act <;> infer_instance

/-! ## What each step takes and does -/

section
variable {s s' : Display}

theorem step_begin {sample : Fin 13 → UInt32} (h : s.step (.begin sample) = some s') :
    s.core = .idle ∧ s' = { s with core := .copying sample (fun _ => false) } := by
  simp only [step] at h
  split at h
  · rename_i hidle
    exact ⟨hidle, (Option.some.inj h).symm⟩
  · cases h

theorem step_writeWord {j : Fin 13} (h : s.step (.writeWord j) = some s') : ∃ sample done, s.core = .copying sample done ∧
    s' = { s with
      words := Function.update s.words j (sample j)
      core := .copying sample (Function.update done j true) } := by
  simp only [step] at h
  split at h
  · cases h
  · rename_i sample done hs
    exact ⟨sample, done, hs, (Option.some.inj h).symm⟩

theorem step_publish (h : s.step .publish = some s') : ∃ sample done, s.core = .copying sample done ∧
    (∀ j, done j = true) ∧ s' = { s with valid := 1, core := .idle, published := s.published ++ [sample] } := by
  simp only [step] at h
  split at h
  · cases h
  · rename_i sample done hs
    split at h
    · rename_i hall
      exact ⟨sample, done, hs, hall, (Option.some.inj h).symm⟩
    · cases h

theorem step_test (h : s.step .test = some s') : s.upload = .idle ∧
    ((s.valid = 1 ∧ s' = { s with upload := .copying s.valid (fun _ => 0) (fun _ => false) }) ∨
      (s.valid ≠ 1 ∧ s' = { s with upload := .done ⟨s.valid, none⟩ })) := by
  simp only [step] at h
  split at h
  · rename_i hidle
    refine ⟨hidle, ?_⟩
    split at h
    · rename_i hv
      exact .inl ⟨hv, (Option.some.inj h).symm⟩
    · rename_i hv
      exact .inr ⟨hv, (Option.some.inj h).symm⟩
  · cases h

theorem step_copyWord {j : Fin 13} (h : s.step (.copyWord j) = some s') : ∃ found buf done, s.upload = .copying found buf done ∧
    s' = { s with upload := .copying found (Function.update buf j (s.words j)) (Function.update done j true) } := by
  simp only [step] at h
  split at h
  · rename_i found buf done hs
    exact ⟨found, buf, done, hs, (Option.some.inj h).symm⟩
  · cases h

theorem step_release (h : s.step .release = some s') : ∃ found buf done, s.upload = .copying found buf done ∧
    (∀ j, done j = true) ∧ s' = { s with valid := 0, upload := .done ⟨found, some buf⟩ } := by
  simp only [step] at h
  split at h
  · rename_i found buf done hs
    split at h
    · rename_i hall
      exact ⟨found, buf, done, hs, hall, (Option.some.inj h).symm⟩
    · cases h
  · cases h

theorem step_networkSet (h : s.step .networkSet = some s') : ∃ carried, s.upload = .done carried ∧
    s' = { s with upload := .idle, carried := s.carried ++ [carried], sent := s.sent ++ [frameOf carried.sample] } := by
  simp only [step] at h
  split at h
  · rename_i carried hs
    exact ⟨carried, hs, (Option.some.inj h).symm⟩
  · cases h

end

/-! ## A call that nobody interrupts -/

theorem run_copyWords (l : List (Fin 13)) : ∀ (s : Display) (found : Int32) (buf : Fin 13 → UInt32) (done : Fin 13 → Bool),
    s.upload = .copying found buf done → (∀ j, done j = true → buf j = s.words j) →
    ∃ buf' done', run step s (l.map .copyWord) = some { s with upload := .copying found buf' done' } ∧
      (∀ j, done' j = true → buf' j = s.words j) ∧ ∀ j, done j = true ∨ j ∈ l → done' j = true := by
  induction l with
  | nil => exact fun s found buf done hs hw => ⟨buf, done, by rw [← hs]; rfl, hw, fun j hj => hj.elim id (by simp)⟩
  | cons j l ih =>
    intro s found buf done hs hw
    have hstep : s.step (.copyWord j) = some { s with
        upload := .copying found (Function.update buf j (s.words j)) (Function.update done j true) } := by
      simp only [step, hs]
    obtain ⟨buf', done', hrun, hw', hdone⟩ := ih { s with
      upload := .copying found (Function.update buf j (s.words j)) (Function.update done j true) } _ _ _ rfl
      (copied_update j hw)
    refine ⟨buf', done', ?_, hw', covered_cons hdone⟩
    rw [List.map_cons, run_cons, hstep]
    exact hrun

/-- **Uninterrupted, the steps are `controller_display_res`** on a fresh sample. -/
theorem run_display (s : Display) (hidle : s.upload = .idle) (hfresh : s.valid = 1) : ∃ s',
    run step s (.test :: ((List.finRange 13).map .copyWord ++ [.release, .networkSet])) = some s' ∧
      controllerDisplayRes s.monitorInfo = (frameOf (some s.words), s'.monitorInfo) ∧
      s'.sent = s.sent ++ [frameOf (some s.words)] := by
  have htest : s.step .test = some { s with upload := .copying s.valid (fun _ => 0) (fun _ => false) } := by
    simp only [step, hidle, if_pos hfresh]
  obtain ⟨buf', done', hrun, hw, hdone⟩ := run_copyWords (List.finRange 13)
    { s with upload := .copying s.valid (fun _ => 0) (fun _ => false) } _ _ _ rfl
    (fun j hj => absurd hj Bool.false_ne_true)
  have hall : ∀ j, done' j = true := fun j => hdone j (.inr (List.mem_finRange j))
  obtain rfl := eq_of_copied hall hw
  have hvalid : s.monitorInfo.valid = 1 := hfresh
  refine ⟨{ s with
    valid := 0
    upload := .idle
    carried := s.carried ++ [⟨s.valid, some s.words⟩]
    sent := s.sent ++ [frameOf (some s.words)] }, ?_, ?_, rfl⟩
  · rw [run_cons, htest, Option.bind_some, run_append, hrun, Option.bind_some, run_cons]
    simp only [step, if_pos hall, Option.bind_some, run_cons, run_nil]
  · rw [controllerDisplayRes, forceMonitorUpload, if_pos hvalid]
    rfl

theorem run_display_stale (s : Display) (hidle : s.upload = .idle) (hstale : s.valid ≠ 1) : ∃ s',
    run step s [.test, .networkSet] = some s' ∧ controllerDisplayRes s.monitorInfo = (frameOf none, s'.monitorInfo) ∧
      s'.sent = s.sent ++ [frameOf none] := by
  have htest : s.step .test = some { s with upload := .done ⟨s.valid, none⟩ } := by
    simp only [step, hidle, if_neg hstale]
  have hvalid : s.monitorInfo.valid ≠ 1 := hstale
  refine ⟨{ s with
    upload := .idle
    carried := s.carried ++ [⟨s.valid, none⟩]
    sent := s.sent ++ [frameOf none] }, ?_, ?_, rfl⟩
  · rw [run_cons, htest, Option.bind_some]
    rfl
  · rw [controllerDisplayRes, forceMonitorUpload, if_neg hvalid]
    rfl

/-! ## A core that waits -/

/-- While a sample is copied `valid` is 1; while one is written by a core that waited, it is 0. -/
structure Waited (s : Display) : Prop where
  copying : s.Copying → s.valid = 1
  writing : s.Writing → s.valid = 0

theorem Waited.apart {s : Display} (W : Waited s) {act : DisplayAct} (h : s.Waits act) : s.Apart act := by
  have hclash : s.Writing → ¬ s.Copying := fun hw hc =>
    absurd ((W.writing hw).symm.trans (W.copying hc)) (by decide)
  cases act with
  | begin sample =>
    have hvalid : s.valid = 0 := h
    exact fun hc => absurd (hvalid.symm.trans (W.copying hc)) (by decide)
  | writeWord j => exact hclash
  | publish => exact hclash
  | test => exact fun hvalid hw => absurd (hvalid.symm.trans (W.writing hw)) (by decide)
  | copyWord j => trivial
  | release => trivial
  | networkSet => trivial

theorem Waited.step {s s' : Display} (W : Waited s) {act : DisplayAct} (h : s.Waits act) (hstep : s.step act = some s') :
    Waited s' := by
  cases act with
  | begin sample =>
    obtain ⟨-, rfl⟩ := step_begin hstep
    exact ⟨W.copying, fun _ => h⟩
  | writeWord j =>
    obtain ⟨sample, done, hs, rfl⟩ := step_writeWord hstep
    exact ⟨W.copying, fun _ => W.writing (by simp only [Writing, hs])⟩
  | publish =>
    obtain ⟨sample, done, hs, -, rfl⟩ := step_publish hstep
    exact ⟨fun _ => rfl, fun hw => absurd hw (by simp [Writing])⟩
  | test =>
    obtain ⟨-, ⟨hv, rfl⟩ | ⟨-, rfl⟩⟩ := step_test hstep
    · exact ⟨fun _ => hv, W.writing⟩
    · exact ⟨fun hc => absurd hc (by simp [Copying]), W.writing⟩
  | copyWord j =>
    obtain ⟨found, buf, done, hs, rfl⟩ := step_copyWord hstep
    exact ⟨fun _ => W.copying (by simp only [Copying, hs]), W.writing⟩
  | release =>
    obtain ⟨found, buf, done, -, -, rfl⟩ := step_release hstep
    exact ⟨fun hc => absurd hc (by simp [Copying]), fun _ => rfl⟩
  | networkSet =>
    obtain ⟨carried, -, rfl⟩ := step_networkSet hstep
    exact ⟨fun hc => absurd hc (by simp [Copying]), W.writing⟩

/-- **A core that waits keeps apart.** -/
theorem apart_of_waits (valid : Int32) (words : Fin 13 → UInt32) (acts : List DisplayAct)
    (h : Along step Waits (startWith valid words) acts) : Along step Apart (startWith valid words) acts :=
  Along.of_inv (fun _ _ W hc => Waited.apart W hc) (fun _ _ _ W hc hs => Waited.step W hc hs) acts _
    ⟨fun hc => absurd hc (by simp [Copying, startWith]), fun hw => absurd hw (by simp [Writing, startWith])⟩ h

/-! ## What the frames carry -/

/-- The samples in the frames sent, with the one in the frame that is ready. -/
def shown (s : Display) : List (Fin 13 → UInt32) := (s.carried.map FrameLoad.sample).reduceOption ++ match s.upload with
  | .done carried => carried.sample.toList
  | _ => []

def CoreOk (s : Display) : Prop := match s.core with
  | .idle => True
  | .copying sample done => ∀ j, done j = true → s.words j = sample j

def UploadOk (s : Display) : Prop := match s.upload with
  | .idle => True
  | .copying found buf done => found = 1 ∧ s.valid = 1 ∧ ¬ s.Writing ∧ ∀ j, done j = true → buf j = s.words j
  | .done carried => carried.Ok

/-- An upload that is not copying does not depend on the core. -/
theorem uploadOk_of_not_copying {s s' : Display} (h : ¬ s.Copying) (hs : s.UploadOk) (heq : s'.upload = s.upload) :
    s'.UploadOk := by
  unfold Copying at h
  unfold UploadOk at hs ⊢
  rw [heq]
  cases hu : s.upload with
  | idle => trivial
  | copying found buf done => simp [hu] at h
  | done carried => simpa only [hu] using hs

/-- **The samples shown are published ones, in order**; a fresh one in the mailbox is the last, and not shown yet. -/
structure Inv (s : Display) : Prop where
  sent : s.sent = s.carried.map (fun c => frameOf c.sample)
  carried : ∀ c ∈ s.carried, c.Ok
  shown : s.shown.Sublist s.published
  fresh : s.valid = 1 → ¬ s.Writing → ∃ before, s.published = before ++ [s.words] ∧ s.shown.Sublist before
  core : s.CoreOk
  upload : s.UploadOk

theorem Inv.startWith (valid : Int32) (words : Fin 13 → UInt32) : Inv (Display.startWith valid words) where
  sent := rfl
  carried := fun c hc => absurd hc List.not_mem_nil
  shown := List.nil_sublist _
  fresh := fun hv _ => by
    have hv : valid = 1 := hv
    exact ⟨[], by simp only [Display.startWith, if_pos hv, List.nil_append], List.Sublist.refl _⟩
  core := trivial
  upload := trivial

theorem Inv.step {s s' : Display} (I : Inv s) {act : DisplayAct} (h : s.Apart act) (hstep : s.step act = some s') :
    Inv s' := by
  have hcore := I.core
  have hupload := I.upload
  unfold CoreOk at hcore
  unfold UploadOk at hupload
  cases act with
  | begin sample =>
    obtain ⟨-, rfl⟩ := step_begin hstep
    exact ⟨I.sent, I.carried, I.shown, fun _ hw => absurd trivial hw, fun j hj => absurd hj Bool.false_ne_true,
      uploadOk_of_not_copying h I.upload rfl⟩
  | writeWord j =>
    obtain ⟨sample, done, hs, rfl⟩ := step_writeWord hstep
    rw [hs] at hcore
    have hw : s.Writing := by simp only [Writing, hs]
    exact ⟨I.sent, I.carried, I.shown, fun _ hw => absurd trivial hw, copied_update j hcore,
      uploadOk_of_not_copying (h hw) I.upload rfl⟩
  | publish =>
    obtain ⟨sample, done, hs, hall, rfl⟩ := step_publish hstep
    rw [hs] at hcore
    have hw : s.Writing := by simp only [Writing, hs]
    refine ⟨I.sent, I.carried, I.shown.trans (List.sublist_append_left _ _), fun _ _ => ?_, trivial,
      uploadOk_of_not_copying (h hw) I.upload rfl⟩
    exact ⟨s.published, by rw [eq_of_copied hall hcore], I.shown⟩
  | test =>
    have hshown := I.shown
    have hfresh := I.fresh
    obtain ⟨hidle, ⟨hv, rfl⟩ | ⟨hv, rfl⟩⟩ := step_test hstep
    · simp only [Display.shown, hidle] at hshown hfresh
      exact ⟨I.sent, I.carried, hshown, hfresh, I.core, hv, hv, h hv, fun j hj => absurd hj Bool.false_ne_true⟩
    · simp only [Display.shown, hidle] at hshown hfresh
      exact ⟨I.sent, I.carried, hshown, hfresh, I.core, iff_of_false hv Bool.false_ne_true⟩
  | copyWord j =>
    obtain ⟨found, buf, done, hs, rfl⟩ := step_copyWord hstep
    rw [hs] at hupload
    obtain ⟨hfound, hv, hw, hwords⟩ := hupload
    have hshown := I.shown
    have hfresh := I.fresh
    simp only [Display.shown, hs] at hshown hfresh
    exact ⟨I.sent, I.carried, hshown, hfresh, I.core, hfound, hv, hw, copied_update j hwords⟩
  | release =>
    obtain ⟨found, buf, done, hs, hall, rfl⟩ := step_release hstep
    rw [hs] at hupload
    obtain ⟨hfound, hv, hw, hwords⟩ := hupload
    obtain ⟨before, hpub, hsub⟩ := I.fresh hv hw
    simp only [Display.shown, hs, List.append_nil] at hsub
    refine ⟨I.sent, I.carried, ?_, fun hv0 => absurd (show (0 : Int32) = 1 from hv0) (by decide), I.core,
      iff_of_true hfound rfl⟩
    simp only [Display.shown, Option.toList_some, hpub, eq_of_copied hall hwords]
    exact hsub.append (List.Sublist.refl _)
  | networkSet =>
    obtain ⟨carried, hs, rfl⟩ := step_networkSet hstep
    rw [hs] at hupload
    have hshown : s.shown = ((s.carried ++ [carried]).map FrameLoad.sample).reduceOption ++ [] := by
      simp only [Display.shown, hs, List.map_append, List.reduceOption_append, List.append_nil, List.map_singleton]
      cases carried.sample <;> rfl
    have hsub := I.shown
    have hfresh := I.fresh
    rw [hshown] at hsub hfresh
    refine ⟨by simp only [I.sent, List.map_append, List.map_singleton], fun c hc => ?_, hsub, hfresh, I.core, trivial⟩
    rcases List.mem_append.1 hc with hc | hc
    · exact I.carried c hc
    · rw [List.mem_singleton.1 hc]
      exact hupload

/-- **What the frames report**: each is a sample if its upload found `valid` to be 1, and else the cleared buffer; and
the samples are published ones, each at most once, in the order they were published in. -/
structure Reports (s : Display) : Prop where
  frames : s.sent = s.carried.map (fun c => frameOf c.sample)
  fresh : ∀ c ∈ s.carried, c.Ok
  order : (s.carried.map FrameLoad.sample).reduceOption.Sublist s.published

theorem Inv.reports {s : Display} (I : Inv s) : s.Reports :=
  ⟨I.sent, I.carried, (List.sublist_append_left _ _).trans I.shown⟩

end Display

/-- **Every frame is the cleared buffer or a published sample**, none older than one before it, over every interleaving
in which the core waits for `valid` to be 0, or at least writes no sample while one is copied. -/
theorem display_reports (valid : Int32) (words : Fin 13 → UInt32) (acts : List DisplayAct) (s : Display)
    (h : Along Display.step Display.Waits (.startWith valid words) acts ∨
      Along Display.step Display.Apart (.startWith valid words) acts)
    (hrun : run Display.step (.startWith valid words) acts = some s) : s.Reports := by
  have hapart := h.elim (Display.apart_of_waits valid words acts) id
  exact (run_inv_along (fun _ _ _ I hc hs => Display.Inv.step I hc hs) acts _ _ (.startWith valid words) hapart
    hrun).reports

/-- What the core and the display do uninterrupted. -/
def publishActs (sample : Fin 13 → UInt32) : List DisplayAct :=
  .begin sample :: ((List.finRange 13).map .writeWord ++ [.publish])

def displayActs : List DisplayAct := .test :: ((List.finRange 13).map .copyWord ++ [.release, .networkSet])

/-- A frame with no sample, a sample published while it is ready, and the frame that carries it. -/
theorem display_reports_sample : ∃ s, run Display.step (.startWith 0 (fun _ => 0))
      (.test :: publishActs (fun _ => 5) ++ .networkSet :: displayActs) = some s ∧ s.Reports :=
  exists_run (by decide +kernel) (fun s hs => display_reports 0 (fun _ => 0) _ s (.inl (by decide +kernel)) hs)

/-- After a sample is published the frame sent next: one of the published ones, or (`blank`) the cleared buffer. -/
def NextReports (blank : Bool) : Prop :=
  ∀ (acts : List DisplayAct) (s s' : Display), run Display.step (.startWith 0 (fun _ => 0)) acts = some s →
    s.published ≠ [] → s.step .networkSet = some s' →
      (∃ w ∈ s.published, s'.sent.getLast? = some (frameOf (some w))) ∨ (blank = true ∧ s'.sent.getLast? = some (frameOf none))

/-- The frame that is sent after `acts` and the samples published by then, as far as the state and the first angle. -/
def nextFrame (acts : List DisplayAct) : Option (List (Int32 × UInt64) × Option (Int32 × UInt64)) :=
  (run Display.step (.startWith 0 (fun _ => 0)) acts).bind (fun s => (s.step .networkSet).map (fun s' =>
    (s.published.map (fun w => ((frameOf (some w)).forceState, (frameOf (some w)).forceTheta 0)),
      s'.sent.getLast?.map (fun f => (f.forceState, f.forceTheta 0)))))

theorem NextReports.of_nextFrame {blank : Bool} (h : NextReports blank) {acts : List DisplayAct}
    {published : List (Int32 × UInt64)} {last : Option (Int32 × UInt64)} (hnext : nextFrame acts = some (published, last))
    (hne : published ≠ []) : (∃ w ∈ published, last = some w) ∨ (blank = true ∧ last = some (0, 0)) := by
  rw [VirtualForce.nextFrame, Option.bind_eq_some_iff] at hnext
  obtain ⟨s, hs, hnext⟩ := hnext
  rw [Option.map_eq_some_iff] at hnext
  obtain ⟨s', hs', heq⟩ := hnext
  obtain ⟨rfl, rfl⟩ := Prod.mk.inj heq
  rcases h acts s s' hs (fun hnil => hne (by rw [hnil]; rfl)) hs' with ⟨w, hw, hlast⟩ | ⟨hblank, hlast⟩
  · rw [hlast]
    exact .inl ⟨_, List.mem_map_of_mem hw, rfl⟩
  · rw [hlast]
    exact .inr ⟨hblank, rfl⟩

/-- A sample shown once is not shown again: the next frame is blank.  And a core that does not wait writes the second
sample while the first is copied: the frame has the state of one and the angles of the other. -/
theorem blank_and_torn : ¬ NextReports false ∧ ¬ NextReports true := by
  constructor
  · intro h
    have hnext : nextFrame (publishActs (fun _ => 5) ++ displayActs ++ [.test]) =
        some ([(5, 0x0000000500000005)], some (0, 0)) := by decide +kernel
    exact absurd (h.of_nextFrame hnext (List.cons_ne_nil _ _)) (by decide)
  · intro h
    have hnext : nextFrame (publishActs (fun _ => 5) ++ .test :: .copyWord 0 :: .begin (fun _ => 6) ::
        (List.finRange 13).map .writeWord ++ (List.finRange 13).tail.map .copyWord ++ [.release]) =
        some ([(5, 0x0000000500000005)], some (5, 0x0000000600000006)) := by decide +kernel
    exact absurd (h.of_nextFrame hnext (List.cons_ne_nil _ _)) (by decide)

end VirtualForce
