import VirtualForce.Monitor
/-!
# Showing — what can still be shown

A sample in the mailbox, or in a frame that is ready, is never stuck there: whatever the child and the widget are in the
middle of, they can go on until the labels show it, and the core has no part in it.
-/
namespace VirtualForce

open Mailbox Runs

/-- No step of the core, and no child dies. -/
def MonitorAct.WithoutCore : MonitorAct → Prop
  | .lives (.core _) => False
  | .lives .die => False
  | _ => True

def Monitor.Alone (s : Monitor) (act : MonitorAct) : Prop := act.WithoutCore ∧ s.Clean act

theorem frames_length : ∀ frames : List PcCommData,
    (frames.flatMap PcCommData.bytes).length = monitorFrameSize * frames.length
  | [] => rfl
  | f :: frames => by
    rw [List.flatMap_cons, List.length_append, f.bytes_length, frames_length frames, List.length_cons, Nat.mul_succ,
      Nat.add_comm]

namespace Monitor

variable {s s' : Monitor}

def onDisplay (s : Monitor) (d : Display) : Monitor := { s with lives := { s.lives with display := d } }

/-- A step of the child that sends nothing. -/
theorem step_child {act : DisplayAct} {d : Display} (halive : s.lives.alive = true) (hact : act.ofChild = true)
    (h : s.lives.display.step act = some d) (hsent : d.sent = s.lives.display.sent) :
    s.step (.lives (.child act)) = some (s.onDisplay d) := by
  have hlives : s.lives.step (.child act) = some { s.lives with display := d } := by
    simp only [Lives.step, if_pos (And.intro hact halive), h]
    rfl
  simp only [step, hlives, Option.map_some, hsent, sent, List.drop_length, List.flatMap_nil, List.append_nil]
  rfl

/-- The frame that is ready is sent. -/
theorem step_networkSet {carried : FrameLoad} (halive : s.lives.alive = true)
    (hup : s.lives.display.upload = .done carried) : s.step (.lives (.child .networkSet)) = some
      { s.onDisplay { s.lives.display with
          upload := .idle
          carried := s.lives.display.carried ++ [carried]
          sent := s.lives.display.sent ++ [frameOf carried.sample] } with
        inFlight := s.inFlight ++ (frameOf carried.sample).bytes } := by
  have hact : DisplayAct.networkSet.ofChild = true := rfl
  simp only [step, Lives.step, if_pos (And.intro hact halive), Display.step, hup, Option.map_some, sent, List.drop_left,
    List.flatMap_singleton]
  rfl

/-! ## The chunks -/

/-- **A chunk of one byte is no frame**: the bytes on the way can be read and show nothing. -/
theorem reads_on : ∀ (bytes : List UInt8) (s : Monitor), s.inFlight = bytes →
    ∃ seen, Leads step Alone s { s with seen := seen, inFlight := [] }
  | [], s, h => by
    refine ⟨s.seen, ?_⟩
    rw [← h]
    exact .refl s
  | b :: bytes, s, h => by
    have hchunk : s.inFlight.take 1 = [b] := by rw [h]; rfl
    have hnone : isFrame [b] = false := by simp [isFrame, monitorFrameSize]
    have hstep : s.step (.readyRead 1) = some { s with seen := s.seen ++ [[b]], inFlight := bytes } := by
      rw [step, hchunk, readyReadSlot_eq, hnone, h]
      rfl
    have hclean : s.Alone (.readyRead 1) := by
      refine ⟨trivial, ?_⟩
      rw [Clean, hchunk]
      exact fun hd => absurd hd.1 (by rw [hnone]; decide)
    obtain ⟨seen, hrest⟩ := reads_on bytes { s with seen := s.seen ++ [[b]], inFlight := bytes } rfl
    exact ⟨seen, .trans (.one hclean hstep) hrest⟩

/-! ## The sample in the mailbox -/

/-- **A copy under way is ended**, and the sample is ready. -/
theorem ends_copy {found : Int32} {buf : Fin 13 → UInt32} {done : Fin 13 → Bool} (halive : s.lives.alive = true)
    (hup : s.lives.display.upload = .copying found buf done)
    (hbuf : ∀ j, done j = true → buf j = s.lives.display.words j) : ∃ t found, Leads step Alone s t ∧
      t.lives.alive = true ∧ t.lives.display.upload = .done ⟨found, some s.lives.display.words⟩ := by
  have hword : ∀ (d : Display) (j : Fin 13) (d' : Display), d.step (.copyWord j) = some d' →
      (s.onDisplay d).step (.lives (.child (.copyWord j))) = some (s.onDisplay d') := by
    intro d j d' hd
    obtain ⟨found, buf, done, -, rfl⟩ := Display.step_copyWord hd
    exact step_child halive rfl hd rfl
  obtain ⟨buf', done', hcopied, hbuf', hall⟩ := Display.run_copyWords (List.finRange 13) _ _ _ _ hup hbuf
  rw [run_map] at hcopied
  have hall : ∀ j, done' j = true := fun j => hall j (.inr (List.mem_finRange j))
  obtain rfl := eq_of_copied hall hbuf'
  have hrelease : (s.onDisplay { s.lives.display with upload := .copying found s.lives.display.words done' }).step
      (.lives (.child .release)) = some (s.onDisplay { s.lives.display with
        valid := 0
        upload := .done ⟨found, some s.lives.display.words⟩ }) := by
    refine step_child halive rfl ?_ rfl
    simp only [onDisplay, Display.step, if_pos hall]
  have hlast : (s.onDisplay { s.lives.display with upload := .copying found s.lives.display.words done' }).Alone
      (.lives (.child .release)) := ⟨trivial, trivial⟩
  refine ⟨_, found, .trans ⟨_, along_of_forall_mem ?_, run_lift hword _ _ _ hcopied⟩ (.one hlast hrelease), halive, rfl⟩
  intro _ act hact
  obtain ⟨j, -, rfl⟩ := List.mem_map.1 hact
  exact ⟨trivial, trivial⟩

theorem takes_idle (halive : s.lives.alive = true) (hup : s.lives.display.upload = .idle)
    (hvalid : s.lives.display.valid = 1) : ∃ t found, Leads step Alone s t ∧ t.lives.alive = true ∧
      t.lives.display.upload = .done ⟨found, some s.lives.display.words⟩ := by
  have htest : s.step (.lives (.child .test)) = some (s.onDisplay { s.lives.display with
      upload := .copying s.lives.display.valid (fun _ => 0) (fun _ => false) }) := by
    refine step_child halive rfl ?_ rfl
    simp only [Display.step, hup, if_pos hvalid]
  have hfirst : s.Alone (.lives (.child .test)) := ⟨trivial, trivial⟩
  obtain ⟨t, found, hcopy, ht⟩ := ends_copy (s := s.onDisplay { s.lives.display with
    upload := .copying s.lives.display.valid (fun _ => 0) (fun _ => false) }) halive rfl
    (fun j hj => absurd hj Bool.false_ne_true)
  exact ⟨t, found, .trans (.one hfirst htest) hcopy, ht⟩

/-- **A child that is alive takes the sample**, whatever it is in the middle of. -/
theorem takes (I : s.lives.display.UploadOk) (halive : s.lives.alive = true) (hvalid : s.lives.display.valid = 1) :
    ∃ t found, Leads step Alone s t ∧ t.lives.alive = true ∧
      t.lives.display.upload = .done ⟨found, some s.lives.display.words⟩ := by
  cases hup : s.lives.display.upload with
  | idle => exact takes_idle halive hup hvalid
  | copying found buf done =>
    rw [Display.UploadOk, hup] at I
    exact ends_copy halive hup I.2.2.2
  | done carried =>
    -- the frame that is ready goes first
    have hfirst : s.Alone (.lives (.child .networkSet)) := ⟨trivial, trivial⟩
    have hsent : Leads step Alone s _ := .one hfirst (step_networkSet halive hup)
    obtain ⟨t, found, htakes, ht⟩ := takes_idle (s := { s.onDisplay { s.lives.display with
          upload := .idle
          carried := s.lives.display.carried ++ [carried]
          sent := s.lives.display.sent ++ [frameOf carried.sample] } with
        inFlight := s.inFlight ++ (frameOf carried.sample).bytes }) halive rfl hvalid
    exact ⟨t, found, hsent.trans htakes, ht⟩

end Monitor

/-! ## The labels -/

theorem frameOf_head (sample : Option (Fin 13 → UInt32)) : (frameOf sample).head = magigHead := by cases sample <;> rfl

/-- Where no child is alive no frame is under way. -/
def Lives.Asleep (s : Lives) : Prop := s.alive = false → s.display.upload = .idle

theorem Lives.Asleep.step {s s' : Lives} (I : s.Asleep) {act : LivesAct} (h : s.step act = some s') : s'.Asleep := by
  cases act with
  | core act =>
    simp only [Lives.step] at h
    split at h
    · cases h
    · rename_i hcore
      obtain ⟨d, hd, rfl⟩ := Option.map_eq_some_iff.1 h
      intro hdead
      have hidle := I hdead
      cases act with
      | begin sample =>
        obtain ⟨-, rfl⟩ := Display.step_begin hd
        exact hidle
      | writeWord j =>
        obtain ⟨sample, done, -, rfl⟩ := Display.step_writeWord hd
        exact hidle
      | publish =>
        obtain ⟨sample, done, -, -, rfl⟩ := Display.step_publish hd
        exact hidle
      | _ => exact absurd rfl hcore
  | child act =>
    simp only [Lives.step] at h
    split at h
    · rename_i hchild
      obtain ⟨d, -, rfl⟩ := Option.map_eq_some_iff.1 h
      exact fun hdead => absurd (hchild.2.symm.trans hdead) (by decide)
    · cases h
  | die =>
    simp only [Lives.step] at h
    split at h
    · cases h
      exact fun _ => rfl
    · cases h
  | fork =>
    simp only [Lives.step] at h
    split at h
    · cases h
    · cases h
      intro hdead
      cases hdead

/-- **The invariant.** -/
structure ShowInv (s : Monitor) : Prop where
  monitor : ∃ is i, MonitorInv is i s
  asleep : s.lives.Asleep

namespace ShowInv

variable {s s' : Monitor}

theorem step (I : ShowInv s) {act : MonitorAct} (hclean : s.Clean act) (h : s.step act = some s') : ShowInv s' := by
  obtain ⟨is, i, M⟩ := I.monitor
  refine ⟨M.step hclean h, ?_⟩
  cases act with
  | lives act =>
    obtain ⟨l, hl, rfl⟩ := Option.map_eq_some_iff.1 h
    exact I.asleep.step hl
  | connect =>
    simp only [Monitor.step] at h
    split at h
    · cases h
    · cases h
      exact I.asleep
  | readyRead n =>
    cases h
    exact I.asleep
  | timeout =>
    cases h
    exact I.asleep

theorem leads (I : ShowInv s) (h : Leads Monitor.step Monitor.Alone s s') : ShowInv s' :=
  h.inv (fun _ _ _ I hact hstep => ShowInv.step I hact.2 hstep) I

/-- **A frame that is ready can be shown**: what is on the way is read a byte at a time, and the frame in one chunk. -/
theorem shows_ready (I : ShowInv s) {carried : FrameLoad} (hup : s.lives.display.upload = .done carried) :
    ∃ t, Leads Monitor.step Monitor.Alone s t ∧ t.ticks.getLast? = some (updateMonitor (frameOf carried.sample)) := by
  have halive : s.lives.alive = true := by
    by_contra hdead
    rw [Bool.not_eq_true] at hdead
    rw [I.asleep hdead] at hup
    cases hup
  obtain ⟨seen, hread⟩ := Monitor.reads_on s.inFlight s rfl
  obtain ⟨is, i, M⟩ := (I.leads hread).monitor
  have hplace : monitorFrameSize ∣ seen.flatten.length := by
    have hlength := congrArg List.length M.stream
    rw [frames_length, List.append_nil] at hlength
    exact ⟨_, hlength⟩
  have hsent := Monitor.step_networkSet (s := { s with seen := seen, inFlight := [] }) halive hup
  have hnext : ({ s with seen := seen, inFlight := [] } : Monitor).Alone (.lives (.child .networkSet)) :=
    ⟨trivial, trivial⟩
  refine ⟨_, (hread.trans (.one hnext hsent)).trans (.trans (.one (a := .readyRead monitorFrameSize) ⟨trivial, ?_⟩ rfl)
    (.one (a := .timeout) ⟨trivial, trivial⟩ rfl)), ?_⟩
  · exact fun hd => hd.2 hplace
  · have hchunk : ([] ++ (frameOf carried.sample).bytes).take monitorFrameSize = (frameOf carried.sample).bytes :=
      List.take_of_length_le (Nat.le_of_eq (PcCommData.bytes_length _))
    simp only [List.getLast?_append, List.getLast?_singleton, Option.some_or, hchunk, readyReadSlot_eq,
      isFrame_bytes (frameOf_head _), if_true, PcCommData.ofBytes_bytes]

/-- **A sample in the mailbox can be shown**: by the child that is alive, or by the one for the next connection. -/
theorem shows_waiting (I : ShowInv s) (hvalid : s.lives.display.valid = 1) : ∃ t, Leads Monitor.step Monitor.Alone s t ∧
    t.ticks.getLast? = some (updateMonitor (frameOf (some s.lives.display.words))) := by
  have halive : ∃ u, Leads Monitor.step Monitor.Alone s u ∧ u.lives.alive = true ∧ u.lives.display = s.lives.display := by
    cases halive : s.lives.alive with
    | true => exact ⟨s, .refl s, halive, rfl⟩
    | false =>
      have hconnect : s.step .connect = some { s with conn := s.sent.length, seen := [], inFlight := [] } := by
        rw [Monitor.step, if_neg (by rw [halive]; decide)]
      have hfork : ({ s with conn := s.sent.length, seen := [], inFlight := [] } : Monitor).step (.lives .fork) =
          some { s with lives := { s.lives with alive := true }, conn := s.sent.length, seen := [], inFlight := [] } := by
        simp only [Monitor.step, Lives.step, halive, Option.map_some, Monitor.sent, List.drop_length, List.flatMap_nil,
          List.append_nil, Bool.false_eq_true, if_false]
      exact ⟨_, .trans (.one (a := .connect) ⟨trivial, trivial⟩ hconnect)
        (.one (a := .lives .fork) ⟨trivial, trivial⟩ hfork), rfl, rfl⟩
  obtain ⟨u, hu, halive, hdisplay⟩ := halive
  obtain ⟨is, i, M⟩ := (I.leads hu).monitor
  obtain ⟨t, found, htakes, -, hready⟩ := Monitor.takes M.lives.display.upload halive (hdisplay ▸ hvalid)
  obtain ⟨v, hshows, htick⟩ := ((I.leads hu).leads htakes).shows_ready hready
  refine ⟨v, hu.trans (htakes.trans hshows), ?_⟩
  rw [htick, hdisplay]

end ShowInv

/-- **No sample is stuck**: in every state that a run leads to, each sample in a frame that is ready or in the mailbox can
still be shown, without a step of the core and without the death of a child. -/
theorem samples_can_show (valid : Int32) (words : Fin 13 → UInt32) (acts : List MonitorAct) (s : Monitor)
    (hclean : Along Monitor.step Monitor.Clean (.startWith valid words) acts)
    (hrun : run Monitor.step (.startWith valid words) acts = some s) (sample : Fin 13 → UInt32)
    (hsample : sample ∈ s.lives.display.upload.ready ++ s.lives.display.pending) :
    ∃ t, Leads Monitor.step Monitor.Alone s t ∧ t.ticks.getLast? = some (updateMonitor (frameOf (some sample))) := by
  have I0 : ShowInv (.startWith valid words) := ⟨⟨[], 0, .startWith valid words⟩, fun hdead => by cases hdead⟩
  have I := run_inv_along (fun _ _ _ I hc h => ShowInv.step I hc h) acts _ _ I0 hclean hrun
  rcases List.mem_append.1 hsample with hready | hwaiting
  · cases hup : s.lives.display.upload with
    | done carried =>
      rw [hup, Upload.ready, Option.mem_toList] at hready
      have hshows := I.shows_ready hup
      rwa [hready] at hshows
    | _ =>
      rw [hup] at hready
      cases hready
  · unfold Display.pending at hwaiting
    split at hwaiting
    · rename_i hvalid
      rw [List.mem_singleton.1 hwaiting]
      exact I.shows_waiting hvalid
    · cases hwaiting

/-- Sample 3 in the mailbox, half copied by a child that dies, a cleared frame before it cut in two. -/
theorem samples_can_show_half : ∃ s, run Monitor.step (.startWith 0 (fun _ => 0))
      ([.lives (.child .test), .lives (.child .networkSet), .readyRead 20] ++
        (publishActs (fun _ => 3)).map (fun a => .lives (.core a)) ++
        [.lives (.child .test), .lives (.child (.copyWord 4)), .lives .die]) = some s ∧
    ∀ sample ∈ s.lives.display.upload.ready ++ s.lives.display.pending,
      ∃ t, Leads Monitor.step Monitor.Alone s t ∧ t.ticks.getLast? = some (updateMonitor (frameOf (some sample))) :=
  exists_run (by decide +kernel) (fun s hs => samples_can_show 0 (fun _ => 0) _ s (by decide +kernel) hs)

end VirtualForce
