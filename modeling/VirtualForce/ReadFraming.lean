import VirtualForce.NetworkClient
import VirtualForce.Runs
/-!
# ReadFraming — where on the stream `read_data` begins

An interrupted `fread` goes on with the rest of the record, an end of file comes between records, but a timeout leaves
the loop with the bytes already taken.  A call that begins on a record ends on one exactly when none of its `fread`s
times out with the record begun (`readData_aligned_iff`).
-/
namespace VirtualForce

open Memory Runs

/-- **A `fread` of the call times out with the record begun**, `left` bytes of the `len` being still to come. -/
def timesOutMidRecord (len : Nat) : File → Nat → List (Option Interrupt) → Bool
  | _, _, [] => false
  | fp, left, o :: os =>
    let readLen := min left clientBuffSize
    let bytes := (fread fp readLen o).1
    let fp' := (fread fp readLen o).2
    decide (bytes.length < readLen) && fp'.err &&
      match fp'.errno with
      | .eintr => timesOutMidRecord len fp' (left - bytes.length) os
      | .eagain => decide (left - bytes.length < len)
      | .ewouldblock => decide (left - bytes.length < len)
      | .other => false

/-- **What a `fread` takes is what the stream loses**, and a short one met an error or the end. -/
theorem fread_spec (fp : File) (n : Nat) (o : Option Interrupt) :
    (fread fp n o).1.length ≤ n ∧ (fread fp n o).1.length ≤ fp.pending.length ∧
      (fread fp n o).2.pending = fp.pending.drop (fread fp n o).1.length ∧
      ((fread fp n o).1.length < n → (fread fp n o).2.err = false → (fread fp n o).2.pending = []) := by
  have hwhole : (fp.pending.take n).length ≤ n ∧ (fp.pending.take n).length ≤ fp.pending.length ∧
      fp.pending.drop n = fp.pending.drop (fp.pending.take n).length ∧
      ((fp.pending.take n).length < n → fp.pending.drop n = []) := by
    rw [List.length_take]
    refine ⟨Nat.min_le_left _ _, Nat.min_le_right _ _, ?_, fun h => List.drop_eq_nil_of_le (by omega)⟩
    rcases Nat.le_total n fp.pending.length with h | h
    · rw [Nat.min_eq_left h]
    · rw [Nat.min_eq_right h, List.drop_eq_nil_of_le h, List.drop_length]
  obtain ⟨h1, h2, h3, h4⟩ := hwhole
  cases o with
  | none => exact ⟨h1, h2, h3, fun h _ => h4 h⟩
  | some i =>
    simp only [fread]
    split
    · rename_i hi
      have hlen : (fp.pending.take i.count).length = i.count := by rw [List.length_take]; omega
      simp only [hlen]
      exact ⟨by omega, hi.2, trivial, fun _ h => absurd h (by decide)⟩
    · exact ⟨h1, h2, h3, fun h _ => h4 h⟩

/-- **How the loop ends**, at most a record being wanted: with the whole of it, with the stream at its end, with nothing
of it, or timed out in the middle. -/
theorem readLoop_ends (len : Nat) {fp' : File} {buffer' : Mem UInt8} {left' : Nat} :
    ∀ (freads : List (Option Interrupt)) (fp : File) (buffer : Mem UInt8) (left : Nat), left ≤ len →
      left ≤ clientBuffSize → readLoop fp buffer left freads = .returned (fp', buffer', left') →
      left' ≤ left ∧ left - left' ≤ fp.pending.length ∧ fp'.pending = fp.pending.drop (left - left') ∧
        if timesOutMidRecord len fp left freads then 0 < left' ∧ left' < len
        else left' = 0 ∨ left' = len ∨ fp'.pending = []
  | [], fp, buffer, left, _, _, h => by
    rw [readLoop] at h
    split at h
    · rename_i h0
      cases h
      simp [timesOutMidRecord, h0]
    · cases h
  | o :: os, fp, buffer, left, hlen, hsize, h => by
    rw [readLoop] at h
    split at h
    · rename_i h0
      cases h
      simp [timesOutMidRecord, h0]
    · rename_i h0
      obtain ⟨hle, havail, hrest, hend⟩ := fread_spec fp left o
      -- what the rounds after an unfinished one do, said of the whole loop
      have hgo : ∀ m : Bool, readLoop (fread fp left o).2 (put buffer 0 (fread fp left o).1)
          (left - (fread fp left o).1.length) os = .returned (fp', buffer', left') →
          timesOutMidRecord len (fread fp left o).2 (left - (fread fp left o).1.length) os = m →
          left' ≤ left ∧ left - left' ≤ fp.pending.length ∧ fp'.pending = fp.pending.drop (left - left') ∧
            if m then 0 < left' ∧ left' < len else left' = 0 ∨ left' = len ∨ fp'.pending = [] := by
        rintro m hloop rfl
        obtain ⟨i1, i2, i3, i4⟩ := readLoop_ends len os _ _ (left - (fread fp left o).1.length) (by omega) (by omega) hloop
        rw [hrest, List.length_drop] at i2
        rw [hrest, List.drop_drop] at i3
        refine ⟨by omega, by omega, ?_, i4⟩
        rw [i3]
        congr 1
        omega
      have hmin : min left clientBuffSize = left := Nat.min_eq_left hsize
      unfold readRound at h
      rw [timesOutMidRecord]
      simp only [hmin] at h ⊢
      by_cases hshort : (fread fp left o).1.length < left
      · -- timed out, with the record begun or not
        have hstop : if decide (left - (fread fp left o).1.length < len) then
            0 < left - (fread fp left o).1.length ∧ left - (fread fp left o).1.length < len
            else left - (fread fp left o).1.length = 0 ∨ left - (fread fp left o).1.length = len ∨
              (fread fp left o).2.pending = [] := by
          by_cases hlt : left - (fread fp left o).1.length < len
          · rw [if_pos (decide_eq_true hlt)]
            exact ⟨by omega, hlt⟩
          · rw [if_neg (by simpa using hlt)]
            exact .inr (.inl (by omega))
        rw [if_pos hshort] at h
        simp only [hshort, decide_true, Bool.true_and]
        cases herr : (fread fp left o).2.err with
        | true =>
          simp only [herr, if_true] at h
          simp only [Bool.true_and]
          cases herrno : (fread fp left o).2.errno with
          | eintr =>
            simp only [herrno] at h
            exact hgo _ h rfl
          | eagain =>
            simp only [herrno] at h
            cases h
            exact ⟨by omega, by omega, by rw [hrest]; congr 1; omega, hstop⟩
          | ewouldblock =>
            simp only [herrno] at h
            cases h
            exact ⟨by omega, by omega, by rw [hrest]; congr 1; omega, hstop⟩
          | other =>
            simp only [herrno] at h
            cases h
        | false =>
          -- the end of the file
          simp only [herr, Bool.false_eq_true, if_false] at h
          cases h
          simp only [Bool.false_and, Bool.false_eq_true, if_false]
          exact ⟨by omega, by omega, by rw [hrest]; congr 1; omega, .inr (.inr (hend hshort herr))⟩
      · rw [if_neg hshort] at h
        simp only [hshort, decide_false, Bool.false_and]
        have hzero : left - (fread fp left o).1.length = 0 := by omega
        rw [hzero] at h
        dsimp only at h
        rw [readLoop.eq_def, if_pos rfl] at h
        cases h
        exact ⟨by omega, by omega, by rw [hrest]; congr 1; omega, .inl rfl⟩

/-- **A call that begins on a record ends on one exactly when it does not time out with the record begun.** -/
theorem readData_aligned_iff {net net' : NetCircleBuff} {ret : Int32} {events : List Event}
    {freads : List (Option Interrupt)} (h : readData net clientBuffSize freads = .returned (ret, net', events))
    (hbegin : clientBuffSize ∣ net.fp.pending.length) :
    clientBuffSize ∣ net'.fp.pending.length ↔ timesOutMidRecord clientBuffSize net.fp clientBuffSize freads = false := by
  obtain ⟨⟨fp, buffer, left⟩, hloop, hdone⟩ := Outcome.map_eq_returned h
  have hfp : net'.fp = fp := by
    unfold readDone at hdone
    split at hdone <;> cases hdone <;> rfl
  obtain ⟨hle, havail, hrest, hend⟩ :=
    readLoop_ends clientBuffSize freads _ _ _ (Nat.le_refl _) (Nat.le_refl _) hloop
  have hlen := congrArg List.length hrest
  rw [List.length_drop] at hlen
  rw [hfp]
  cases hmid : timesOutMidRecord clientBuffSize net.fp clientBuffSize freads with
  | true =>
    rw [hmid, if_pos rfl] at hend
    simp only [clientBuffSize, Bool.true_eq_false, iff_false] at *
    omega
  | false =>
    rw [hmid, if_neg (by decide)] at hend
    simp only [clientBuffSize, iff_true] at *
    rcases hend with rfl | rfl | hnil
    · omega
    · omega
    · rw [hnil]
      exact ⟨0, rfl⟩

/-! ## Successive calls -/

/-- A connection on which `sent` bytes were sent and the calls made on it: where on the stream each began, and what it
returned. -/
structure Reader where
  net : NetCircleBuff
  calls : List (Nat × Int32)

def Reader.step (sent : Nat) (s : Reader) (freads : List (Option Interrupt)) : Option Reader :=
  match readData s.net clientBuffSize freads with
  | .returned (ret, net, _) => some ⟨net, s.calls ++ [(sent - s.net.fp.pending.length, ret)]⟩
  | _ => none

def Reader.NoTimeoutMidRecord (s : Reader) (freads : List (Option Interrupt)) : Prop :=
  timesOutMidRecord clientBuffSize s.net.fp clientBuffSize freads = false

instance (s : Reader) (freads : List (Option Interrupt)) : Decidable (s.NoTimeoutMidRecord freads) := by
  unfold Reader.NoTimeoutMidRecord
  infer_instance

structure ReaderInv (sent : Nat) (s : Reader) : Prop where
  aligned : clientBuffSize ∣ s.net.fp.pending.length
  calls : ∀ c ∈ s.calls, clientBuffSize ∣ c.1

/-- **Framing is kept on every connection on which no call times out with its record begun**: every call that returns 0
begins on a record. -/
theorem framing_kept (net : NetCircleBuff) (hsent : clientBuffSize ∣ net.fp.pending.length)
    (acts : List (List (Option Interrupt))) (s : Reader)
    (hmid : Along (Reader.step net.fp.pending.length) Reader.NoTimeoutMidRecord ⟨net, []⟩ acts)
    (hrun : run (Reader.step net.fp.pending.length) ⟨net, []⟩ acts = some s) :
    ∀ c ∈ s.calls, c.2 = 0 → clientBuffSize ∣ c.1 := by
  have I0 : ReaderInv net.fp.pending.length ⟨net, []⟩ := ⟨hsent, by simp⟩
  have hstep : ∀ s freads s', ReaderInv net.fp.pending.length s → s.NoTimeoutMidRecord freads →
      s.step net.fp.pending.length freads = some s' → ReaderInv net.fp.pending.length s' := by
    intro s freads s' I hC hs
    simp only [Reader.step] at hs
    split at hs
    · rename_i ret net' events hread
      cases hs
      refine ⟨(readData_aligned_iff hread I.aligned).2 hC, ?_⟩
      intro c hc
      rcases List.mem_append.1 hc with hc | hc
      · exact I.calls c hc
      · rw [List.mem_singleton.1 hc]
        exact Nat.dvd_sub hsent I.aligned
    · cases hs
  have I := run_inv_along hstep acts _ _ I0 hmid hrun
  exact fun c hc _ => I.calls c hc

def twoRecords : NetCircleBuff := networkInit 3 4 ⟨List.range' 0 64 |>.map UInt8.ofNat, false, .other⟩ (fun _ => 0)

theorem framing_kept_interrupted : ∃ s : Reader,
    run (Reader.step 64) ⟨twoRecords, []⟩ [[some ⟨5, .eintr⟩, none], [some ⟨0, .eagain⟩], [none]] = some s ∧
      ∀ c ∈ s.calls, c.2 = 0 → clientBuffSize ∣ c.1 :=
  exists_run (by decide +kernel)
    (fun _ hs => framing_kept twoRecords (by decide +kernel) _ _ (by decide +kernel) hs)

/-- A timeout after five bytes: the next call returns 0 and began at the sixth. -/
theorem timeout_breaks_framing : ¬ ∀ (acts : List (List (Option Interrupt))) (s : Reader),
    run (Reader.step 64) ⟨twoRecords, []⟩ acts = some s → ∀ c ∈ s.calls, c.2 = 0 → clientBuffSize ∣ c.1 := by
  intro h
  have hcalls : (run (Reader.step 64) ⟨twoRecords, []⟩ [[some ⟨5, .eagain⟩], [none]]).map (fun s => s.calls) =
      some [(0, -1), (5, 0)] := by decide +kernel
  obtain ⟨s, hs, heq⟩ := Option.map_eq_some_iff.1 hcalls
  have h5 := h _ s hs (5, 0) (by rw [heq]; simp) rfl
  exact absurd h5 (by decide)

end VirtualForce
