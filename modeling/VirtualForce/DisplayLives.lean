import VirtualForce.Display
/-!
# DisplayLives — one display child after another

The display child may be killed, or exit in `network_set`, between any two of its steps, and another is forked for the
next connection.  A child that dies while it copies a sample leaves it in the mailbox for the next; one that dies with a
sample copied and not sent loses it, and no other.
-/
namespace VirtualForce

open Mailbox Runs

/-- The monitor mailbox with the core and the child alive, if one is; the children that have died, and the samples they
had taken out of the mailbox and not sent. -/
structure Lives where
  display : Display
  alive : Bool
  deaths : Nat
  lost : List (Fin 13 → UInt32)

inductive LivesAct where
  | core (act : DisplayAct)
  | child (act : DisplayAct)
  | die
  | fork

/-- The steps of `controller_display_res`; the others are the core's. -/
def DisplayAct.ofChild : DisplayAct → Bool
  | .test => true
  | .copyWord _ => true
  | .release => true
  | .networkSet => true
  | _ => false

/-- The sample of a frame that is ready. -/
def Upload.ready : Upload → List (Fin 13 → UInt32)
  | .done carried => carried.sample.toList
  | _ => []

namespace Lives

def startWith (valid : Int32) (words : Fin 13 → UInt32) : Lives := ⟨.startWith valid words, true, 0, []⟩

def step (s : Lives) : LivesAct → Option Lives
  | .core act =>
    if act.ofChild = true then none else (s.display.step act).map (fun d => { s with display := d })
  | .child act =>
    if act.ofChild = true ∧ s.alive = true then (s.display.step act).map (fun d => { s with display := d }) else none
  | .die =>
    if s.alive = true then some {
      display := { s.display with upload := .idle }
      alive := false
      deaths := s.deaths + 1
      lost := s.lost ++ s.display.upload.ready }
    else none
  | .fork => if s.alive = true then none else some { s with alive := true }

/-- **The core waits for `valid` to be 0.** -/
def Waits (s : Lives) : LivesAct → Prop
  | .core act => s.display.Waits act
  | _ => True

instance (s : Lives) (act : LivesAct) : Decidable (s.Waits act) := by
  unfold Waits
  cases act <;> infer_instance

end Lives

namespace Display

/-- A published sample that is still in the mailbox. -/
def pending (s : Display) : List (Fin 13 → UInt32) := if s.valid = 1 then [s.words] else []

/-- The samples of the frames sent. -/
def samples (s : Display) : List (Fin 13 → UInt32) := (s.carried.map FrameLoad.sample).reduceOption

theorem shown_eq (s : Display) : s.shown = s.samples ++ s.upload.ready := by
  unfold shown samples Upload.ready
  cases s.upload <;> rfl

theorem pending_writing {s : Display} (W : Waited s) (h : s.Writing) : s.pending = [] := by
  unfold pending
  rw [W.writing h]
  rfl

/-- **What a step of the core or of the child does to the samples**: one published is pending, and one taken out of the
mailbox is shown. -/
theorem step_samples {s s' : Display} (I : Inv s) (W : Waited s) {act : DisplayAct} (h : s.step act = some s') :
    (s'.published = s.published ∧ s'.shown = s.shown ∧ s'.pending = s.pending) ∨
      (∃ sample, s'.published = s.published ++ [sample] ∧ s'.shown = s.shown ∧ s.pending = [] ∧ s'.pending = [sample]) ∨
      (∃ sample, s'.published = s.published ∧ s'.shown = s.shown ++ [sample] ∧ s.pending = [sample] ∧ s'.pending = []) := by
  have hcore := I.core
  have hupload := I.upload
  unfold CoreOk at hcore
  unfold UploadOk at hupload
  cases act with
  | begin sample =>
    obtain ⟨-, rfl⟩ := step_begin h
    exact .inl ⟨rfl, rfl, rfl⟩
  | writeWord j =>
    obtain ⟨sample, done, hs, rfl⟩ := step_writeWord h
    have hw : s.Writing := by simp only [Writing, hs]
    refine .inl ⟨rfl, rfl, ?_⟩
    rw [pending_writing W hw]
    unfold pending
    rw [W.writing hw]
    rfl
  | publish =>
    obtain ⟨sample, done, hs, hall, rfl⟩ := step_publish h
    rw [hs] at hcore
    have hw : s.Writing := by simp only [Writing, hs]
    refine .inr (.inl ⟨sample, rfl, rfl, pending_writing W hw, ?_⟩)
    simp only [pending, if_true, eq_of_copied hall hcore]
  | test =>
    obtain ⟨hidle, ⟨hv, rfl⟩ | ⟨hv, rfl⟩⟩ := step_test h
    · exact .inl ⟨rfl, by simp only [shown, hidle], rfl⟩
    · exact .inl ⟨rfl, by simp only [shown, hidle, Option.toList_none], rfl⟩
  | copyWord j =>
    obtain ⟨found, buf, done, hs, rfl⟩ := step_copyWord h
    exact .inl ⟨rfl, by simp only [shown, hs], rfl⟩
  | release =>
    obtain ⟨found, buf, done, hs, hall, rfl⟩ := step_release h
    rw [hs] at hupload
    obtain ⟨-, hv, -, hwords⟩ := hupload
    refine .inr (.inr ⟨s.words, rfl, ?_, ?_, rfl⟩)
    · simp only [shown, hs, List.append_nil, Option.toList_some, eq_of_copied hall hwords]
    · rw [pending, if_pos hv]
  | networkSet =>
    obtain ⟨carried, hs, rfl⟩ := step_networkSet h
    refine .inl ⟨rfl, ?_, rfl⟩
    simp only [shown, hs, List.map_append, List.reduceOption_append, List.append_nil, List.map_singleton]
    cases carried.sample <;> rfl

end Display

/-- **Every sample published is accounted for**: sent, ready, lost with a child, or in the mailbox. -/
structure LivesInv (s : Lives) : Prop where
  display : s.display.Inv
  waited : s.display.Waited
  accounted : s.display.published.Perm (s.display.shown ++ (s.lost ++ s.display.pending))
  deaths : s.lost.length ≤ s.deaths

namespace LivesInv

variable {s s' : Lives}

theorem startWith (valid : Int32) (words : Fin 13 → UInt32) : LivesInv (.startWith valid words) := by
  refine ⟨.startWith valid words, ⟨(fun hc => absurd hc (by simp [Display.Copying, Lives.startWith, Display.startWith])),
    (fun hw => absurd hw (by simp [Display.Writing, Lives.startWith, Display.startWith]))⟩, ?_, Nat.le_refl _⟩
  simp only [Lives.startWith, Display.startWith, Display.shown, Display.pending, List.map_nil, List.reduceOption_nil,
    List.nil_append]
  exact List.Perm.refl _

theorem onDisplay (I : LivesInv s) {act : DisplayAct} (hwaits : s.display.Waits act) {d : Display}
    (h : s.display.step act = some d) : LivesInv { s with display := d } := by
  refine ⟨I.display.step (I.waited.apart hwaits) h, I.waited.step hwaits h, ?_, I.deaths⟩
  have hacc := I.accounted
  rcases Display.step_samples I.display I.waited h with ⟨hpub, hshown, hpend⟩ |
    ⟨sample, hpub, hshown, hpend, hpend'⟩ | ⟨sample, hpub, hshown, hpend, hpend'⟩
  · simp only [hpub, hshown, hpend]
    exact hacc
  · rw [hpend, List.append_nil] at hacc
    simp only [hpub, hshown, hpend', ← List.append_assoc]
    exact hacc.append_right [sample]
  · rw [hpend] at hacc
    simp only [hpub, hshown, hpend', List.append_nil, List.append_assoc]
    exact hacc.trans (List.perm_append_comm.append_left _)

theorem die (I : LivesInv s) (h : s.step .die = some s') : LivesInv s' := by
  simp only [Lives.step] at h
  split at h
  · cases h
    have hshown := s.display.shown_eq
    have hacc := I.accounted
    rw [hshown, List.append_assoc] at hacc
    refine ⟨⟨I.display.sent, I.display.carried, ?_, fun hv hw => ?_, I.display.core, trivial⟩,
      ⟨(fun hc => absurd hc (by simp [Display.Copying])), I.waited.writing⟩, ?_, ?_⟩
    · simp only [Display.shown, List.append_nil]
      exact I.display.reports.order
    · obtain ⟨before, hpub, hsub⟩ := I.display.fresh hv hw
      rw [hshown] at hsub
      refine ⟨before, hpub, ?_⟩
      simp only [Display.shown, List.append_nil]
      exact (List.sublist_append_left _ _).trans hsub
    · simp only [Display.shown, List.append_nil]
      refine hacc.trans (List.Perm.append_left _ ?_)
      rw [← List.append_assoc]
      exact List.perm_append_comm.append_right _
    · have hdeaths := I.deaths
      have hready : s.display.upload.ready.length ≤ 1 := by
        unfold Upload.ready
        cases s.display.upload with
        | done carried => cases carried.sample <;> simp
        | _ => exact Nat.zero_le _
      simp only [List.length_append]
      omega
  · cases h

/-- **Every step keeps the invariant**, where the core waits. -/
theorem step (I : LivesInv s) {act : LivesAct} (hwaits : s.Waits act) (h : s.step act = some s') : LivesInv s' := by
  cases act with
  | core act =>
    simp only [Lives.step] at h
    split at h
    · cases h
    · simp only [Option.map_eq_some_iff] at h
      obtain ⟨d, hd, rfl⟩ := h
      exact I.onDisplay hwaits hd
  | child act =>
    simp only [Lives.step] at h
    split at h
    · rename_i hchild
      simp only [Option.map_eq_some_iff] at h
      obtain ⟨d, hd, rfl⟩ := h
      refine I.onDisplay ?_ hd
      -- a child's step is not one that waits
      cases act with
      | begin sample => exact absurd hchild.1 (by simp [DisplayAct.ofChild])
      | _ => trivial
    · cases h
  | die => exact I.die h
  | fork =>
    simp only [Lives.step] at h
    split at h
    · cases h
    · cases h
      exact ⟨I.display, I.waited, I.accounted, I.deaths⟩

end LivesInv

/-- **What the frames of all the children report**: the samples are published ones, each at most once and in the order
published; and those published and not sent are in the mailbox, in a frame that is ready, or lost, one a death at most. -/
structure LivesReport (s : Lives) : Prop where
  frames : s.display.Reports
  accounted : s.display.published.Perm
    (s.display.samples ++ (s.display.upload.ready ++ (s.lost ++ s.display.pending)))
  deaths : s.lost.length ≤ s.deaths

/-- **A display child that dies costs at most the sample it carries**, over every interleaving of the core, the children,
their deaths and the forks, where the core waits for `valid` to be 0. -/
theorem display_lives_report (valid : Int32) (words : Fin 13 → UInt32) (acts : List LivesAct) (s : Lives)
    (hwaits : Along Lives.step Lives.Waits (.startWith valid words) acts)
    (hrun : run Lives.step (.startWith valid words) acts = some s) : LivesReport s := by
  have I := run_inv_along (fun _ _ _ I hw hs => LivesInv.step I hw hs) acts _ _ (.startWith valid words) hwaits hrun
  have hacc := I.accounted
  rw [Display.shown_eq, List.append_assoc] at hacc
  exact ⟨I.display.reports, hacc, I.deaths⟩

/-- A child dies with sample 5 ready, the next one sends sample 6. -/
theorem display_lives_report_death : ∃ s, run Lives.step (.startWith 0 (fun _ => 0))
      ((publishActs (fun _ => 5)).map .core ++ (displayActs.dropLast).map .child ++ [.die, .fork] ++
        (publishActs (fun _ => 6)).map .core ++ displayActs.map .child) = some s ∧ LivesReport s :=
  exists_run (by decide +kernel) (fun s hs => display_lives_report 0 (fun _ => 0) _ s (by decide +kernel) hs)

end VirtualForce
