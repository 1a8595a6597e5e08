import VirtualForce.DisplayLives
import VirtualForce.WidgetReads
/-!
# Monitor — from the core's samples to the widget's labels

The core publishes samples; the display children, one after another, send frames; the connection cuts the stream; the
slot of the widget keeps the chunks that are frames by themselves, and the timer shows the last one.  What the labels show
at a tick is the zeros of the start or a frame that was sent, none older than the one shown before.
-/
namespace VirtualForce

open LittleEndian Runs

/-- The lives of the display children beside the widget.  `conn` is the number of frames sent before the connection,
`seen` the chunks `readAll` has returned on it, and `inFlight` the bytes sent on it since. -/
structure Monitor where
  lives : Lives
  conn : Nat
  seen : List (List UInt8)
  inFlight : List UInt8
  rcvMsg : ForceCommRcv
  ticks : List (Option String × (Fin 6 → UInt64))

inductive MonitorAct where
  | lives (act : LivesAct)
  /-- the next connection of the widget, after the child of the last one is gone -/
  | connect
  /-- `readAll` returns `n` bytes -/
  | readyRead (n : Nat)
  | timeout

namespace Monitor

def startWith (valid : Int32) (words : Fin 13 → UInt32) : Monitor :=
  ⟨.startWith valid words, 0, [], [], .zero, []⟩

def sent (s : Monitor) : List PcCommData := s.lives.display.sent

def step (s : Monitor) : MonitorAct → Option Monitor
  | .lives act => (s.lives.step act).map (fun l => { s with
      lives := l
      inFlight := s.inFlight ++ (l.display.sent.drop s.sent.length).flatMap PcCommData.bytes })
  | .connect =>
    if s.lives.alive = true then none else some { s with conn := s.sent.length, seen := [], inFlight := [] }
  | .readyRead n => some { s with
      seen := s.seen ++ [s.inFlight.take n]
      inFlight := s.inFlight.drop n
      rcvMsg := readyReadSlot s.rcvMsg (s.inFlight.take n) }
  | .timeout => some { s with ticks := s.ticks ++ [updateMonitor s.rcvMsg] }

/-- **The core waits for `valid` to be 0, and no chunk is one in disguise.** -/
def Clean (s : Monitor) : MonitorAct → Prop
  | .lives act => s.lives.Waits act
  | .readyRead n => ¬ Disguised s.seen (s.inFlight.take n)
  | _ => True

instance (before : List (List UInt8)) (chunk : List UInt8) : Decidable (Disguised before chunk) :=
  inferInstanceAs (Decidable (_ ∧ _))

instance (s : Monitor) (act : MonitorAct) : Decidable (s.Clean act) := by
  unfold Clean
  cases act <;> infer_instance

end Monitor

/-! ## The frames sent -/

theorem Display.step_sent {s s' : Display} {act : DisplayAct} (h : s.step act = some s') : s.sent <+: s'.sent := by
  cases act with
  | begin sample =>
    obtain ⟨-, rfl⟩ := step_begin h
    exact List.prefix_rfl
  | writeWord j =>
    obtain ⟨sample, done, -, rfl⟩ := step_writeWord h
    exact List.prefix_rfl
  | publish =>
    obtain ⟨sample, done, -, -, rfl⟩ := step_publish h
    exact List.prefix_rfl
  | test =>
    obtain ⟨-, ⟨-, rfl⟩ | ⟨-, rfl⟩⟩ := step_test h
    · exact List.prefix_rfl
    · exact List.prefix_rfl
  | copyWord j =>
    obtain ⟨found, buf, done, -, rfl⟩ := step_copyWord h
    exact List.prefix_rfl
  | release =>
    obtain ⟨found, buf, done, -, -, rfl⟩ := step_release h
    exact List.prefix_rfl
  | networkSet =>
    obtain ⟨carried, -, rfl⟩ := step_networkSet h
    exact List.prefix_append _ _

theorem Lives.step_sent {s s' : Lives} {act : LivesAct} (h : s.step act = some s') : s.display.sent <+: s'.display.sent := by
  cases act with
  | core act =>
    simp only [Lives.step] at h
    split at h
    · cases h
    · obtain ⟨d, hd, rfl⟩ := Option.map_eq_some_iff.1 h
      exact Display.step_sent hd
  | child act =>
    simp only [Lives.step] at h
    split at h
    · obtain ⟨d, hd, rfl⟩ := Option.map_eq_some_iff.1 h
      exact Display.step_sent hd
    · cases h
  | die =>
    simp only [Lives.step] at h
    split at h
    · cases h
      exact List.prefix_rfl
    · cases h
  | fork =>
    simp only [Lives.step] at h
    split at h
    · cases h
    · cases h
      exact List.prefix_rfl

/-! ## What a tick shows -/

/-- **Each tick showed the zeros or a frame of `sent`**: number `i`, counted from 1, `i` never going down. -/
def Shown (sent : List PcCommData) (ticks : List (Option String × (Fin 6 → UInt64))) (is : List Nat) : Prop :=
  is.Pairwise (· ≤ ·) ∧
    List.Forall₂ (fun t i => ∃ f, (PcCommData.zero :: sent)[i]? = some f ∧ t = updateMonitor f) ticks is

/-- **The invariant**, frame number `i` being in `rcvMsg`: the chunks seen are past it. -/
structure MonitorInv (is : List Nat) (i : Nat) (s : Monitor) : Prop where
  lives : LivesInv s.lives
  conn : s.conn ≤ s.sent.length
  stream : s.seen.flatten ++ s.inFlight = (s.sent.drop s.conn).flatMap PcCommData.bytes
  rcvMsg : (PcCommData.zero :: s.sent)[i]? = some s.rcvMsg
  past : monitorFrameSize * i ≤ monitorFrameSize * s.conn + s.seen.flatten.length
  shown : Shown s.sent s.ticks is
  last : ∀ j ∈ is, j ≤ i

theorem getElem?_cons_prefix {α : Type} {l l' : List α} (h : l <+: l') {a b : α} {i : Nat} (hi : (a :: l)[i]? = some b) :
    (a :: l')[i]? = some b := by
  obtain ⟨r, rfl⟩ := h
  rw [← List.cons_append]
  exact (List.getElem?_append_left (List.getElem?_eq_some_iff.1 hi).1).trans hi

theorem Shown.mono {sent sent' : List PcCommData} (h : sent <+: sent') {ticks : List (Option String × (Fin 6 → UInt64))}
    {is : List Nat} (hs : Shown sent ticks is) : Shown sent' ticks is :=
  ⟨hs.1, hs.2.imp (fun _ _ ⟨f, hf, ht⟩ => ⟨f, getElem?_cons_prefix h hf, ht⟩)⟩

namespace MonitorInv

variable {is : List Nat} {i : Nat} {s s' : Monitor}

theorem startWith (valid : Int32) (words : Fin 13 → UInt32) : MonitorInv [] 0 (.startWith valid words) :=
  ⟨.startWith valid words, Nat.le_refl _, rfl, rfl, Nat.zero_le _, ⟨.nil, .nil⟩, (fun _ h => nomatch h)⟩

theorem onLives (I : MonitorInv is i s) {act : LivesAct} (hwaits : s.lives.Waits act) {l : Lives}
    (h : s.lives.step act = some l) : MonitorInv is i { s with
      lives := l
      inFlight := s.inFlight ++ (l.display.sent.drop s.sent.length).flatMap PcCommData.bytes } := by
  have hpre : s.sent <+: l.display.sent := Lives.step_sent h
  refine ⟨I.lives.step hwaits h, Nat.le_trans I.conn hpre.length_le, ?_, getElem?_cons_prefix hpre I.rcvMsg, I.past,
    I.shown.mono hpre, I.last⟩
  obtain ⟨new, hnew⟩ := hpre
  have hstream := I.stream
  have hconn := I.conn
  dsimp only [Monitor.sent] at hnew hstream hconn ⊢
  rw [← hnew, List.drop_left, ← List.append_assoc, List.drop_append_of_le_length hconn, List.flatMap_append, hstream]

/-- **A chunk that is a frame is the frame at its place in the stream.** -/
theorem readyRead (I : MonitorInv is i s) {n : Nat} (hclean : ¬ Disguised s.seen (s.inFlight.take n)) :
    ∃ i', MonitorInv is i' { s with
      seen := s.seen ++ [s.inFlight.take n]
      inFlight := s.inFlight.drop n
      rcvMsg := readyReadSlot s.rcvMsg (s.inFlight.take n) } := by
  have hstream := I.stream
  have hseen : (s.seen ++ [s.inFlight.take n]).flatten = s.seen.flatten ++ s.inFlight.take n := by
    rw [List.flatten_append, List.flatten_singleton]
  have hnext : (s.seen ++ [s.inFlight.take n]).flatten ++ s.inFlight.drop n =
      (s.sent.drop s.conn).flatMap PcCommData.bytes := by
    rw [hseen, List.append_assoc, List.take_append_drop, hstream]
  have hpast := I.past
  cases hframe : isFrame (s.inFlight.take n) with
  | false =>
    refine ⟨i, I.lives, I.conn, hnext, ?_, ?_, I.shown, I.last⟩
    · rw [readyReadSlot_eq, hframe]
      exact I.rcvMsg
    · dsimp only
      rw [hseen, List.length_append]
      omega
  | true =>
    obtain ⟨k, hk⟩ := Classical.byContradiction (fun hmid => hclean ⟨hframe, hmid⟩)
    have hlen : (s.inFlight.take n).length = monitorFrameSize := by
      simp only [isFrame, Bool.and_eq_true, beq_iff_eq] at hframe
      exact hframe.2
    rw [hseen, List.append_assoc] at hnext
    obtain ⟨f, hf, hbytes⟩ := getElem?_of_flatMap_eq PcCommData.bytes_length (by decide) k _ _ _ _ hnext.symm hk hlen
    rw [List.getElem?_drop] at hf
    have hpos : 0 < monitorFrameSize := by decide
    have hle : i ≤ s.conn + k := by
      rw [hk, ← Nat.mul_add] at hpast
      exact Nat.le_of_mul_le_mul_left hpast hpos
    refine ⟨s.conn + k + 1, I.lives, I.conn, by rw [hseen, List.append_assoc]; exact hnext, ?_, ?_, I.shown, fun j hj => ?_⟩
    · rw [readyReadSlot_eq, if_pos hframe, List.getElem?_cons_succ]
      refine hf.trans (congrArg some ?_)
      rw [hbytes, PcCommData.ofBytes_bytes]
    · dsimp only
      rw [hseen, List.length_append, hlen, hk, Nat.mul_succ, Nat.mul_add]
      omega
    · have hj := I.last j hj
      omega

theorem step (I : MonitorInv is i s) {act : MonitorAct} (hclean : s.Clean act) (h : s.step act = some s') :
    ∃ is' i', MonitorInv is' i' s' := by
  cases act with
  | lives act =>
    obtain ⟨l, hl, rfl⟩ := Option.map_eq_some_iff.1 h
    exact ⟨is, i, I.onLives hclean hl⟩
  | connect =>
    simp only [Monitor.step] at h
    split at h
    · cases h
    · cases h
      have hi := (List.getElem?_eq_some_iff.1 I.rcvMsg).1
      rw [List.length_cons] at hi
      refine ⟨is, i, I.lives, Nat.le_refl _, ?_, I.rcvMsg, ?_, I.shown, I.last⟩
      · exact (congrArg (List.flatMap PcCommData.bytes) (List.drop_length (l := s.sent))).symm
      · exact Nat.le_trans (Nat.mul_le_mul_left _ (Nat.le_of_lt_succ hi)) (Nat.le_add_right _ _)
  | readyRead n =>
    cases h
    exact ⟨is, I.readyRead hclean⟩
  | timeout =>
    cases h
    refine ⟨is ++ [i], i, I.lives, I.conn, I.stream, I.rcvMsg, I.past, ⟨?_, ?_⟩, fun j hj => ?_⟩
    · refine List.pairwise_append.2 ⟨I.shown.1, List.pairwise_singleton _ _, fun a ha b hb => ?_⟩
      rw [List.mem_singleton.1 hb]
      exact I.last a ha
    · exact List.rel_append I.shown.2 (.cons ⟨s.rcvMsg, I.rcvMsg, rfl⟩ .nil)
    · rcases List.mem_append.1 hj with hj | hj
      · exact I.last j hj
      · exact Nat.le_of_eq (List.mem_singleton.1 hj)

end MonitorInv

/-- **What the labels show**: at each tick the zeros of the start or a frame sent, none older than the one before; the
frames are the cleared buffer or published samples, each sample at most once and in order; and each tick has a text for
the state, if every sample published has a state that has one. -/
structure MonitorShows (s : Monitor) : Prop where
  ticks : ∃ is, Shown s.sent s.ticks is
  frames : s.lives.display.Reports
  texts : (∀ w ∈ s.lives.display.published, (WidgetRead.stateStr (ForceMonitor.ofWords 0 w).forceState).InRange) →
    ∀ t ∈ s.ticks, t.1.isSome = true

theorem MonitorInv.shows {is : List Nat} {i : Nat} {s : Monitor} (I : MonitorInv is i s) : MonitorShows s := by
  have R := I.lives.display.reports
  refine ⟨⟨is, I.shown⟩, R, fun hstates t ht => ?_⟩
  obtain ⟨k, hk, rfl⟩ := List.getElem_of_mem ht
  have hone := List.forall₂_iff_get.1 I.shown.2
  obtain ⟨f, hf, htick⟩ := hone.2 k hk (hone.1 ▸ hk)
  rw [List.get_eq_getElem] at htick
  rw [htick, updateMonitor_text]
  rcases List.mem_cons.1 (List.mem_of_getElem? hf) with rfl | hsent
  · decide
  · rw [Monitor.sent, R.frames] at hsent
    obtain ⟨c, hc, rfl⟩ := List.mem_map.1 hsent
    cases hsample : c.sample with
    | none => exact (by decide : (WidgetRead.stateStr (frameOf none).forceState).InRange)
    | some w =>
      refine hstates w (R.order.mem ?_)
      rw [List.reduceOption_mem_iff]
      exact List.mem_map.2 ⟨c, hc, hsample⟩

/-- **From the core's samples to the labels**, over every interleaving of the core, the display children, their deaths, the
connections, chunks of any lengths and ticks, where the core waits for `valid` to be 0 and no chunk is in disguise. -/
theorem monitor_shows (valid : Int32) (words : Fin 13 → UInt32) (acts : List MonitorAct) (s : Monitor)
    (hclean : Along Monitor.step Monitor.Clean (.startWith valid words) acts)
    (hrun : run Monitor.step (.startWith valid words) acts = some s) : MonitorShows s := by
  obtain ⟨is, i, I⟩ := run_inv_along (I := fun s => ∃ is i, MonitorInv is i s)
    (fun _ _ _ ⟨_, _, I⟩ hc h => I.step hc h) acts _ _ ⟨_, _, .startWith valid words⟩ hclean hrun
  exact I.shows

/-- State 3 in one chunk, then a cleared frame on the next connection, cut in two, and ticks after both. -/
theorem monitor_shows_working : ∃ s, run Monitor.step (.startWith 0 (fun _ => 0))
      ((publishActs (fun _ => 3)).map (fun a => .lives (.core a)) ++ displayActs.map (fun a => .lives (.child a)) ++
        [.readyRead 56, .timeout, .lives .die, .connect, .lives .fork, .lives (.child .test),
          .lives (.child .networkSet), .readyRead 9, .readyRead 47, .timeout]) = some s ∧ MonitorShows s :=
  exists_run (by decide +kernel) (fun s hs => monitor_shows 0 (fun _ => 0) _ s (by decide +kernel) hs)

end VirtualForce
