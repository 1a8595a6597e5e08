import VirtualForce.ReadRounds
/-!
# ReadEnds — when `read_data` comes back

A schedule says how each `fread` of one call ends.  A signal makes a round go on, and it leaves the error indicator and
`errno` behind: an end of file that comes later in the call is taken for one more signal, and the loop reads the end for
ever.
-/
namespace VirtualForce

open Memory

/-- The first `n` outcomes of a schedule. -/
def firstFreads (sched : Nat → Option Interrupt) (n : Nat) : List (Option Interrupt) := (List.range n).map sched

theorem firstFreads_succ (sched : Nat → Option Interrupt) (n : Nat) :
    firstFreads sched (n + 1) = sched 0 :: firstFreads (fun i => sched (i + 1)) n := by
  unfold firstFreads
  rw [List.range_succ_eq_map, List.map_cons, List.map_map]
  rfl

/-- The stream and what is still missing, after `k` reads of what is missing. -/
def streamAt (fp : File) (left : Nat) (sched : Nat → Option Interrupt) : Nat → File × Nat
  | 0 => (fp, left)
  | k + 1 =>
    ((fread (streamAt fp left sched k).1 (streamAt fp left sched k).2 (sched k)).2, (streamAt fp left sched k).2 -
      (fread (streamAt fp left sched k).1 (streamAt fp left sched k).2 (sched k)).1.length)

/-- The read is cut short by a signal. -/
def Signalled (fp : File) (left : Nat) (o : Option Interrupt) : Prop :=
  ∃ i, o = some i ∧ i.errno = .eintr ∧ i.count < left ∧ i.count ≤ fp.pending.length

/-- The read is not cut short and meets the end of the file. -/
def MeetsEof (fp : File) (left : Nat) (o : Option Interrupt) : Prop :=
  fread fp left o = fread fp left none ∧ (fread fp left none).1.length < left

/-- Only finitely many reads are cut short by a signal. -/
def SignalsCease (fp : File) (left : Nat) (sched : Nat → Option Interrupt) : Prop :=
  ∃ N, ∀ i, N ≤ i → ¬ Signalled (streamAt fp left sched i).1 (streamAt fp left sched i).2 (sched i)

/-- At the end of the file every read delivers nothing and leaves the error indicator and `errno`. -/
def EofStays (fp : File) (left : Nat) (sched : Nat → Option Interrupt) : Prop :=
  ∀ k, MeetsEof (streamAt fp left sched k).1 (streamAt fp left sched k).2 (sched k) → ∀ i, k < i →
    fread (streamAt fp left sched i).1 (streamAt fp left sched i).2 (sched i) = ([], (streamAt fp left sched i).1)

/-- **The file ends with bytes missing while a signal still shows**: the reads before were all cut short by signals, and
the error indicator is set and `errno` is `EINTR`, from one of them or from an earlier call. -/
def EndsAfterSignal (fp : File) (left : Nat) (sched : Nat → Option Interrupt) : Prop :=
  ∃ k, (∀ i, i < k → Signalled (streamAt fp left sched i).1 (streamAt fp left sched i).2 (sched i)) ∧
    MeetsEof (streamAt fp left sched k).1 (streamAt fp left sched k).2 (sched k) ∧
    (streamAt fp left sched k).1.err = true ∧ (streamAt fp left sched k).1.errno = .eintr

section
variable {fp : File} {left : Nat} {o : Option Interrupt} {sched : Nat → Option Interrupt}

/-- **A schedule after its first read.** -/
theorem streamAt_shift (fp : File) (left : Nat) (sched : Nat → Option Interrupt) : ∀ k,
    streamAt fp left sched (k + 1) = streamAt (fread fp left (sched 0)).2
      (left - (fread fp left (sched 0)).1.length) (fun i => sched (i + 1)) k
  | 0 => rfl
  | k + 1 => by
    have ih := streamAt_shift fp left sched k
    rw [streamAt, ih]
    rfl

theorem EofStays.shift (h : EofStays fp left sched) : EofStays (fread fp left (sched 0)).2
    (left - (fread fp left (sched 0)).1.length) (fun i => sched (i + 1)) := by
  intro k hk i hi
  rw [← streamAt_shift] at hk ⊢
  exact h (k + 1) hk (i + 1) (by omega)

/-! ## What a read was -/

theorem Signalled.fread (h : Signalled fp left o) : (fread fp left o).1.length < left ∧
    (VirtualForce.fread fp left o).2.err = true ∧ (VirtualForce.fread fp left o).2.errno = .eintr := by
  obtain ⟨i, rfl, herrno, hcount, hle⟩ := h
  simp only [VirtualForce.fread, if_pos (And.intro hcount hle), herrno, List.length_take, and_self, and_true]
  omega

theorem MeetsEof.fread (h : MeetsEof fp left o) : (fread fp left o).1.length < left ∧
    (VirtualForce.fread fp left o).2.err = fp.err ∧ (VirtualForce.fread fp left o).2.errno = fp.errno := by
  obtain ⟨heq, hshort⟩ := h
  rw [heq]
  exact ⟨hshort, rfl, rfl⟩

/-- **A short read that shows a signal was cut short by one, or met the end behind one.** -/
theorem short_signal_cases (hshort : (fread fp left o).1.length < left) (herr : (fread fp left o).2.err = true)
    (herrno : (fread fp left o).2.errno = .eintr) :
    Signalled fp left o ∨ (MeetsEof fp left o ∧ fp.err = true ∧ fp.errno = .eintr) := by
  cases o with
  | none => exact .inr ⟨⟨rfl, hshort⟩, herr, herrno⟩
  | some i =>
    by_cases hi : i.count < left ∧ i.count ≤ fp.pending.length
    · simp only [VirtualForce.fread, if_pos hi] at herrno
      exact .inl ⟨i, rfl, herrno, hi.1, hi.2⟩
    · have heq : fread fp left (some i) = fread fp left none := by
        simp only [VirtualForce.fread, if_neg hi]
      rw [heq] at hshort herr herrno
      exact .inr ⟨⟨heq, hshort⟩, herr, herrno⟩

/-! ## The end of the loop -/

/-- **A loop that reads the end of the file behind a signal goes on reading it.** -/
theorem readLoop_stuck (h0 : left ≠ 0) (hsize : left ≤ clientBuffSize) (herr : fp.err = true)
    (herrno : fp.errno = .eintr) : ∀ (n : Nat) (sched : Nat → Option Interrupt) (buffer : Mem UInt8),
      (∀ i, fread fp left (sched i) = ([], fp)) → readLoop fp buffer left (firstFreads sched n) = .waiting
  | 0, _, _, _ => by
    rw [firstFreads, List.range_zero, List.map_nil, readLoop, if_neg h0]
  | n + 1, sched, buffer, hread => by
    have hshort : (fread fp left (sched 0)).1.length < left := by
      rw [hread 0]
      exact Nat.pos_of_ne_zero h0
    rw [firstFreads_succ, readLoop_cons h0, readRound_signalled hsize hshort (by rw [hread 0]; exact herr)
      (by rw [hread 0]; exact herrno), hread 0]
    exact readLoop_stuck h0 hsize herr herrno n _ _ (fun i => hread (i + 1))

theorem streamAt_of_empty (hread : ∀ i, 0 < i → fread (streamAt fp left sched i).1 (streamAt fp left sched i).2 (sched i) =
    ([], (streamAt fp left sched i).1)) : ∀ i, streamAt fp left sched (i + 1) = streamAt fp left sched 1
  | 0 => rfl
  | i + 1 => by
    rw [streamAt, hread (i + 1) (Nat.succ_pos i), streamAt_of_empty hread i]
    rfl

theorem readLoop_waiting_of_ends (k : Nat) : ∀ (fp : File) (left : Nat) (sched : Nat → Option Interrupt)
    (buffer : Mem UInt8), left ≤ clientBuffSize → EofStays fp left sched →
      (∀ i, i < k → Signalled (streamAt fp left sched i).1 (streamAt fp left sched i).2 (sched i)) →
      MeetsEof (streamAt fp left sched k).1 (streamAt fp left sched k).2 (sched k) →
      (streamAt fp left sched k).1.err = true → (streamAt fp left sched k).1.errno = .eintr →
        ∀ n, readLoop fp buffer left (firstFreads sched n) = .waiting := by
  induction k with
  | zero =>
    intro fp left sched buffer hsize hstays _ heof herr herrno n
    obtain ⟨hshort, herr', herrno'⟩ := heof.fread
    simp only [streamAt] at hshort herr herrno herr' herrno'
    have h0 : left ≠ 0 := by omega
    cases n with
    | zero => rw [firstFreads, List.range_zero, List.map_nil, readLoop, if_neg h0]
    | succ n =>
      rw [firstFreads_succ, readLoop_cons h0, readRound_signalled hsize hshort (herr'.trans herr) (herrno'.trans herrno)]
      have hread := hstays 0 heof
      have hsame := streamAt_of_empty hread
      apply readLoop_stuck (by omega) (by omega) (herr'.trans herr) (herrno'.trans herrno)
      intro i
      have hi := hread (i + 1) (Nat.succ_pos i)
      rw [hsame i] at hi
      exact hi
  | succ k ih =>
    intro fp left sched buffer hsize hstays hsignals heof herr herrno n
    obtain ⟨hshort, herr0, herrno0⟩ := (hsignals 0 (Nat.succ_pos k)).fread
    simp only [streamAt] at hshort herr0 herrno0
    have h0 : left ≠ 0 := by omega
    cases n with
    | zero => rw [firstFreads, List.range_zero, List.map_nil, readLoop, if_neg h0]
    | succ n =>
      rw [firstFreads_succ, readLoop_cons h0, readRound_signalled hsize hshort herr0 herrno0]
      rw [streamAt_shift] at heof herr herrno
      refine ih _ _ _ _ (by omega) hstays.shift (fun i hi => ?_) heof herr herrno n
      rw [← streamAt_shift]
      exact hsignals (i + 1) (by omega)

/-- **A loop whose file does not end behind a signal comes back from its first read, or that read was cut short by a
signal.** -/
theorem first_read_cases (buffer : Mem UInt8) (hsize : left ≤ clientBuffSize) (hno : ¬ EndsAfterSignal fp left sched) :
    (∃ n, readLoop fp buffer left (firstFreads sched n) ≠ .waiting) ∨ (Signalled fp left (sched 0) ∧
      ∀ n, readLoop fp buffer left (firstFreads sched (n + 1)) = readLoop (fread fp left (sched 0)).2
        (put buffer 0 (fread fp left (sched 0)).1) (left - (fread fp left (sched 0)).1.length)
        (firstFreads (fun i => sched (i + 1)) n)) := by
  by_cases h0 : left = 0
  · subst h0
    refine .inl ⟨0, ?_⟩
    rw [readLoop_zero]
    exact fun h => by cases h
  · have hround := fun os => @round_cases fp _ (sched 0) buffer os h0 hsize
    rcases hround [] with ⟨-, hloop, -⟩ | ⟨hshort, ⟨herr, herrno⟩, -, -⟩ | ⟨-, -, hloop, -⟩
    · refine .inl ⟨1, ?_⟩
      rw [firstFreads_succ, firstFreads, List.range_zero, List.map_nil, hloop]
      exact fun h => by cases h
    · rcases short_signal_cases hshort herr herrno with hsig | ⟨heof, herr', herrno'⟩
      · refine .inr ⟨hsig, fun n => ?_⟩
        rw [firstFreads_succ, readLoop_cons h0, readRound_signalled hsize hshort herr herrno]
      · exact absurd ⟨0, fun i hi => absurd hi (Nat.not_lt_zero i), heof, herr', herrno'⟩ hno
    · refine .inl ⟨1, ?_⟩
      rw [firstFreads_succ, firstFreads, List.range_zero, List.map_nil]
      rcases hloop with hexit | hstop
      · rw [hexit]
        exact fun h => by cases h
      · rw [hstop]
        exact fun h => by cases h

theorem EndsAfterSignal.of_shift (hsig : Signalled fp left (sched 0)) (h : EndsAfterSignal (fread fp left (sched 0)).2
    (left - (fread fp left (sched 0)).1.length) (fun i => sched (i + 1))) : EndsAfterSignal fp left sched := by
  obtain ⟨k, hsignals, heof, herr, herrno⟩ := h
  rw [← streamAt_shift] at heof herr herrno
  refine ⟨k + 1, fun i hi => ?_, heof, herr, herrno⟩
  cases i with
  | zero => exact hsig
  | succ i =>
    rw [streamAt_shift]
    exact hsignals i (by omega)

/-- By induction on the reads until the last signal. -/
theorem readLoop_ends_of_not (N : Nat) : ∀ (fp : File) (left : Nat) (sched : Nat → Option Interrupt)
    (buffer : Mem UInt8), left ≤ clientBuffSize →
      (∀ i, N ≤ i → ¬ Signalled (streamAt fp left sched i).1 (streamAt fp left sched i).2 (sched i)) →
      ¬ EndsAfterSignal fp left sched → ∃ n, readLoop fp buffer left (firstFreads sched n) ≠ .waiting := by
  induction N with
  | zero =>
    intro fp left sched buffer hsize hcease hno
    rcases first_read_cases buffer hsize hno with hends | ⟨hsig, -⟩
    · exact hends
    · exact absurd hsig (hcease 0 (Nat.le_refl 0))
  | succ N ih =>
    intro fp left sched buffer hsize hcease hno
    rcases first_read_cases buffer hsize hno with hends | ⟨hsig, hgo⟩
    · exact hends
    · obtain ⟨n, hn⟩ := ih (fread fp left (sched 0)).2 (left - (fread fp left (sched 0)).1.length)
        (fun i => sched (i + 1)) (put buffer 0 (fread fp left (sched 0)).1) (by omega)
        (fun i hi => by rw [← streamAt_shift]; exact hcease (i + 1) (by omega)) (fun h => hno (.of_shift hsig h))
      exact ⟨n + 1, by rw [hgo n]; exact hn⟩

/-- **`total_len` stays in its range**, and each read delivers no more than is missing. -/
theorem rounds_le : ∀ (freads : List (Option Interrupt)) (fp : File) (buffer : Mem UInt8) (left : Nat),
    left ≤ clientBuffSize → ∀ r ∈ rounds fp buffer left freads, r.totalLen ≤ left ∧ r.bytes.length ≤ r.totalLen
  | [], _, _, _, _, r, hr => absurd hr List.not_mem_nil
  | o :: os, fp, buffer, left, hsize, r, hr => by
    have hle := fread_le fp left o
    by_cases h0 : left = 0
    · subst h0
      rw [rounds_zero] at hr
      exact absurd hr List.not_mem_nil
    · rcases round_cases buffer os h0 hsize with ⟨-, -, hrounds⟩ | ⟨-, -, -, hrounds⟩ | ⟨-, -, -, hrounds⟩
      · rw [hrounds, List.mem_singleton] at hr
        subst hr
        exact ⟨Nat.le_refl _, hle⟩
      · rw [hrounds, List.mem_cons] at hr
        rcases hr with rfl | hrest
        · exact ⟨Nat.le_refl _, hle⟩
        · obtain ⟨htotal, hbytes⟩ := rounds_le os _ _ _ (by omega) r hrest
          exact ⟨by omega, hbytes⟩
      · rw [hrounds, List.mem_singleton] at hr
        subst hr
        exact ⟨Nat.le_refl _, hle⟩

end

/-- **The call comes back** (or exits the process), and `total_len` is in `[0, 32]` at the test and after the subtraction
of every round on the way. -/
structure Terminates (net : NetCircleBuff) (sched : Nat → Option Interrupt) : Prop where
  ends : ∃ n, readData net clientBuffSize (firstFreads sched n) ≠ .waiting
  totalLen : ∀ n, ∀ r ∈ rounds net.fp (fun _ => 0) clientBuffSize (firstFreads sched n),
    r.totalLen ≤ clientBuffSize ∧ (0 : Int) ≤ r.totalLen - r.bytes.length

theorem Outcome.map_eq_waiting {α β : Type} {f : α → β} {o : Outcome α} : o.map f = .waiting ↔ o = .waiting := by
  cases o <;> simp [Outcome.map]

/-- **A call comes back exactly if the file does not end, bytes missing, behind a signal**, on every schedule in which the
signals cease and the end of the file stays. -/
theorem read_data_ends_iff (net : NetCircleBuff) (sched : Nat → Option Interrupt)
    (hcease : SignalsCease net.fp clientBuffSize sched) (hstays : EofStays net.fp clientBuffSize sched) :
    Terminates net sched ↔ ¬ EndsAfterSignal net.fp clientBuffSize sched := by
  constructor
  · rintro ⟨⟨n, hn⟩, -⟩ ⟨k, hsignals, heof, herr, herrno⟩
    have hwaiting := readLoop_waiting_of_ends k net.fp clientBuffSize sched (fun _ => 0) (Nat.le_refl _) hstays hsignals
      heof herr herrno n
    exact hn (Outcome.map_eq_waiting.2 hwaiting)
  · intro hno
    obtain ⟨N, hN⟩ := hcease
    obtain ⟨n, hn⟩ := readLoop_ends_of_not N net.fp clientBuffSize sched (fun _ => 0) (Nat.le_refl _) hN hno
    refine ⟨⟨n, fun h => hn (Outcome.map_eq_waiting.1 h)⟩, fun m r hr => ?_⟩
    obtain ⟨htotal, hbytes⟩ := rounds_le _ _ _ _ (Nat.le_refl _) r hr
    exact ⟨htotal, by omega⟩

/-- A signal after five bytes, and no other. -/
def signalAfterFive : Nat → Option Interrupt
  | 0 => some ⟨5, .eintr⟩
  | _ + 1 => none

theorem signalAfterFive_ceases (fp : File) (left : Nat) : SignalsCease fp left signalAfterFive := by
  refine ⟨1, fun i hi hsig => ?_⟩
  obtain ⟨i, rfl⟩ := Nat.exists_eq_add_of_le' hi
  obtain ⟨j, hj, -⟩ := hsig
  cases hj

/-- Five bytes and a signal, and then the other 27. -/
theorem read_data_ends_iff_signal : Terminates (twoSlots (List.replicate 32 7)) signalAfterFive ↔
    ¬ EndsAfterSignal (twoSlots (List.replicate 32 7)).fp clientBuffSize signalAfterFive := by
  apply read_data_ends_iff _ _ (signalAfterFive_ceases _ _)
  -- no read meets the end: two get the record, and nothing is missing after them
  have hdone : ∀ k, streamAt (twoSlots (List.replicate 32 7)).fp clientBuffSize signalAfterFive (k + 2) =
      (⟨[], true, .eintr⟩, 0) := by
    intro k
    induction k with
    | zero => decide +kernel
    | succ k ih =>
      rw [streamAt, ih]
      rfl
  intro k hk
  obtain ⟨hshort, -⟩ := hk.fread
  match k with
  | 0 => exact absurd hk.1 (by decide +kernel)
  | 1 => exact absurd hshort (by decide +kernel)
  | k + 2 =>
    rw [hdone] at hshort
    exact absurd hshort (Nat.not_lt_zero _)

/-- Five bytes, a signal, and the connection closed: the read that meets the end is taken for a signal, and so is every
one after it. -/
theorem close_after_signal : ¬ ∀ (net : NetCircleBuff) (sched : Nat → Option Interrupt),
    SignalsCease net.fp clientBuffSize sched → EofStays net.fp clientBuffSize sched → Terminates net sched := by
  intro h
  have hfile : ∀ k, streamAt (twoSlots (List.replicate 5 7)).fp clientBuffSize signalAfterFive (k + 1) =
      (⟨[], true, .eintr⟩, 27) := by
    intro k
    induction k with
    | zero => decide +kernel
    | succ k ih =>
      rw [streamAt, ih]
      rfl
  have hstays : EofStays (twoSlots (List.replicate 5 7)).fp clientBuffSize signalAfterFive := by
    intro k _ i hi
    obtain ⟨i, rfl⟩ := Nat.exists_eq_add_of_lt hi
    rw [hfile]
    rfl
  obtain ⟨⟨n, hn⟩, -⟩ := h _ _ (signalAfterFive_ceases _ _) hstays
  apply hn
  apply Outcome.map_eq_waiting.2
  refine readLoop_waiting_of_ends 1 _ _ _ _ (Nat.le_refl _) hstays (fun i hi => ?_) ?_ ?_ ?_ n
  · obtain rfl : i = 0 := by omega
    exact ⟨⟨5, .eintr⟩, rfl, rfl, by decide, by decide⟩
  · rw [hfile 0]
    exact ⟨rfl, by decide⟩
  · rw [hfile 0]
  · rw [hfile 0]

end VirtualForce
