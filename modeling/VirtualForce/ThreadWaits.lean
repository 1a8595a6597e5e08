import VirtualForce.Mutex
/-!
# ThreadWaits — when the threads stand still

`network_producer` waits for a record with the mutex held.  While it does, `controller_msg_process` cannot take the records
that are in the ring already; at any other moment one of the two can go on.
-/
namespace VirtualForce

open Memory Runs Sections

def Inside : Thread → ThreadPc → Prop
  | .networkProducer, .locked | .networkProducer, .reading _ _ | .networkProducer, .pushing _
  | .networkProducer, .pushCopying _ _ | .networkProducer, .unlocking => True
  | .controllerMsgProcess, .locked | .controllerMsgProcess, .pulling | .controllerMsgProcess, .pullCopying _ _
  | .controllerMsgProcess, .unlocking => True
  | _, _ => False

def Outside : Thread → ThreadPc → Prop
  | .networkProducer, .idle | .networkProducer, .locking | .controllerMsgProcess, .idle => True
  | _, _ => False

theorem threads_split : threads.Splits Inside Outside where
  outside i p a q h := by
    cases i <;> cases p <;> cases a <;> cases h
    rename_i state
    by_cases hstate : state = 1
    · rw [if_pos hstate]
      trivial
    · rw [if_neg hstate]
      trivial
  enter i p q h := by
    rw [enter_eq_some h]
    cases i <;> trivial
  inside i x a y h := by
    obtain ⟨p, sh⟩ := x
    obtain ⟨q, sh'⟩ := y
    cases i with
    | networkProducer =>
      cases producerInside_iff.1 h with
      | next hret hr =>
        dsimp only
        split <;> trivial
      | stop hret hr =>
        dsimp only
        split <;> trivial
      | _ => trivial
    | controllerMsgProcess => cases processInside_iff.1 h <;> trivial
  leave i p q h := by
    cases i <;> cases p <;> cases h <;> trivial

/-! ## The stream -/

/-- `read_data` has not exited on an error of the stream. -/
def NotFailed (fp : File) : Prop := fp.err = true → fp.errno ≠ .other

theorem fread_notFailed {fp : File} (h : NotFailed fp) (n : Nat) (o : Option Interrupt) :
    NotFailed (fread fp n o).2 ∨ (o.isSome = true ∧ (fread fp n o).1.length < n ∧ (fread fp n o).2.err = true ∧
      (fread fp n o).2.errno = .other) := by
  cases o with
  | none => exact .inl h
  | some i =>
    by_cases hi : i.count < n ∧ i.count ≤ fp.pending.length
    · simp only [fread, if_pos hi]
      by_cases hother : i.errno = .other
      · refine .inr ⟨rfl, ?_, trivial, hother⟩
        rw [List.length_take]
        omega
      · exact .inl (fun _ => hother)
    · simp only [fread, if_neg hi]
      exact .inl h

/-- **A round goes on, or ends, or exits behind a read that failed.** -/
theorem readRound_notFailed {fp : File} (h : NotFailed fp) (buffer : Mem UInt8) (totalLen : Nat) (o : Option Interrupt) :
    match readRound fp buffer totalLen o with
    | .next fp' _ _ => NotFailed fp'
    | .stop fp' _ _ => NotFailed fp'
    | .exit => o.isSome = true := by
  have hread := fread_notFailed h (min totalLen clientBuffSize) o
  simp only [readRound]
  generalize fread fp (min totalLen clientBuffSize) o = r at hread
  by_cases hshort : r.1.length < min totalLen clientBuffSize
  · rw [if_pos hshort]
    by_cases herr : r.2.err = true
    · rw [if_pos herr]
      rcases hread with hread | ⟨hsome, -, -, hother⟩
      · have hne := hread herr
        cases herrno : r.2.errno with
        | other => exact absurd herrno hne
        | _ => exact hread
      · rw [hother]
        exact hsome
    · rw [if_neg herr]
      exact fun he => absurd he herr
  · rw [if_neg hshort]
    rcases hread with hread | ⟨-, hlt, -⟩
    · exact hread
    · exact absurd hlt hshort

theorem ProducerStep.notFailed {p p' : ThreadPc} {sh sh' : NetShared} {a : ThreadAns} (h : ProducerStep p sh a p' sh')
    (hfp : NotFailed sh.net.fp) : NotFailed sh'.net.fp := by
  cases h with
  | next hret hr =>
    rename_i buffer totalLen o _ _ _
    have hround := readRound_notFailed hfp buffer totalLen o
    rw [hr] at hround
    exact hround
  | stop hret hr =>
    rename_i buffer totalLen o _ _ _
    have hround := readRound_notFailed hfp buffer totalLen o
    rw [hr] at hround
    exact hround
  | _ => exact hfp

theorem ProcessStep.notFailed {p p' : ThreadPc} {sh sh' : NetShared} {a : ThreadAns} (h : ProcessStep p sh a p' sh')
    (hfp : NotFailed sh.net.fp) : NotFailed sh'.net.fp := by
  cases h <;> exact hfp

/-- **A read that returns and is not interrupted goes on.** -/
theorem ProducerStep.of_returns {sh : NetShared} {totalLen : Nat} (hfp : NotFailed sh.net.fp)
    (hret : sh.Returns (min totalLen clientBuffSize) none) (buffer : Mem UInt8) :
    ∃ p' sh', ProducerStep (.reading buffer totalLen) sh (.fread none) p' sh' := by
  have hround := readRound_notFailed hfp buffer totalLen none
  cases hr : readRound sh.net.fp buffer totalLen none with
  | next fp buffer' totalLen' => exact ⟨_, _, .next hret hr⟩
  | stop fp buffer' totalLen' => exact ⟨_, _, .stop hret hr⟩
  | exit =>
    rw [hr] at hround
    cases hround

/-- Under the lock the producer goes on by itself, but to read. -/
theorem producerInside_go (sh : NetShared) : ∀ {p : ThreadPc}, Inside .networkProducer p →
    (∀ buffer totalLen, p ≠ .reading buffer totalLen) → p ≠ .unlocking → (producerInside (p, sh) .go).isSome = true
  | .locked, _, _, _ | .pushing _, _, _, _ | .pushCopying _ _, _, _, _ => by
    dsimp only [producerInside]
    split <;> rfl
  | .reading buffer totalLen, _, hread, _ => absurd rfl (hread buffer totalLen)
  | .unlocking, _, _, hunlock => absurd rfl hunlock

theorem processInside_go (sh : NetShared) : ∀ {p : ThreadPc}, Inside .controllerMsgProcess p → p ≠ .unlocking →
    (processInside (p, sh) .go).isSome = true
  | .locked, _, _ | .pulling, _, _ | .pullCopying _ _, _, _ => by
    dsimp only [processInside]
    split <;> rfl
  | .unlocking, _, hunlock => absurd rfl hunlock

/-! ## The threads -/

/-- **The invariant.** -/
structure WaitInv (s : Fine Thread ThreadPc NetShared) : Prop where
  placed : Placed Inside Outside s
  stream : NotFailed s.shared.net.fp

theorem WaitInv.step {s s' : Fine Thread ThreadPc NetShared} {act : FineAct Thread ThreadAns ClientAct}
    (I : WaitInv s) (h : threads.step clientStep s act = some s') : WaitInv s' := by
  refine ⟨I.placed.step threads_split h, ?_⟩
  have hcases := Program.step_cases h
  cases act with
  | inside i a =>
    obtain ⟨-, p, sh, ha, rfl⟩ := hcases
    cases i with
    | networkProducer => exact (producerInside_iff.1 ha).notFailed I.stream
    | controllerMsgProcess => exact (processInside_iff.1 ha).notFailed I.stream
  | env c =>
    obtain ⟨sh, hc, rfl⟩ := hcases
    unfold clientStep at hc
    split at hc
    · cases hc
      cases c <;> exact I.stream
    · cases hc
  | _ =>
    obtain ⟨-, p, -, rfl⟩ := hcases
    exact I.stream

/-- **`network_producer` waits for the client**, the mutex held. -/
def ThreadsWait (s : Fine Thread ThreadPc NetShared) : Prop :=
  s.holder = some .networkProducer ∧ ∃ buffer totalLen, s.pc .networkProducer = .reading buffer totalLen ∧
    s.shared.closed = false ∧ s.shared.net.fp.pending.length < min totalLen clientBuffSize

/-- A step the threads take by themselves: not the client's, and no signal to a read. -/
def Unprompted : FineAct Thread ThreadAns ClientAct → Prop
  | .env _ => False
  | .inside _ (.fread (some _)) => False
  | _ => True

section
variable {s : Fine Thread ThreadPc NetShared}

/-- A thread with the mutex can go on, but for a read that waits. -/
theorem WaitInv.goes_on {i : Thread} (I : WaitInv s) (hs : s.holder = some i) (hwait : ¬ ThreadsWait s) :
    ∃ act, Unprompted act ∧ (threads.step clientStep s act).isSome = true := by
  have hin := I.placed.inside i hs
  have hinside : ∀ a, (threads.inside i (s.pc i, s.shared) a).isSome = true →
      (threads.step clientStep s (.inside i a)).isSome = true := by
    intro a ha
    simp only [Program.step, if_pos hs, Option.isSome_map]
    exact ha
  by_cases hunlock : s.pc i = .unlocking
  · refine ⟨.unlock i, trivial, ?_⟩
    simp only [Program.step, if_pos hs, Option.isSome_map, hunlock]
    rfl
  cases i with
  | networkProducer =>
    by_cases hread : ∃ buffer totalLen, s.pc .networkProducer = .reading buffer totalLen
    · obtain ⟨buffer, totalLen, hp⟩ := hread
      have hret : s.shared.Returns (min totalLen clientBuffSize) none := by
        by_contra hret
        refine hwait ⟨hs, buffer, totalLen, hp, ?_, ?_⟩
        · rw [← Bool.not_eq_true]
          exact fun hclosed => hret (.inr (.inr hclosed))
        · exact Nat.lt_of_not_le (fun hle => hret (.inr (.inl hle)))
      obtain ⟨p', sh', hstep⟩ := ProducerStep.of_returns I.stream hret buffer
      refine ⟨.inside .networkProducer (.fread none), trivial, hinside _ ?_⟩
      rw [hp]
      exact Option.isSome_iff_exists.2 ⟨_, producerInside_iff.2 hstep⟩
    · exact ⟨.inside .networkProducer .go, trivial,
        hinside _ (producerInside_go _ hin (fun b n hp => hread ⟨b, n, hp⟩) hunlock)⟩
  | controllerMsgProcess =>
    exact ⟨.inside .controllerMsgProcess .go, trivial, hinside _ (processInside_go _ hin hunlock)⟩

/-- **While the producer waits no thread goes on.** -/
theorem ThreadsWait.stuck (W : ThreadsWait s) {act : FineAct Thread ThreadAns ClientAct} (hact : Unprompted act) :
    threads.step clientStep s act = none := by
  obtain ⟨hs, buffer, totalLen, hp, hopen, hfew⟩ := W
  have hother : s.holder ≠ some .controllerMsgProcess := by
    rw [hs]
    exact fun h => nomatch h
  cases act with
  | outside i a =>
    cases i with
    | networkProducer => exact if_pos hs
    | controllerMsgProcess => exact if_neg hother
  | lock i => exact if_neg (by rw [hs]; exact fun h => nomatch h)
  | inside i a =>
    cases i with
    | controllerMsgProcess => exact if_neg hother
    | networkProducer =>
      simp only [Program.step, if_pos hs, hp]
      cases a with
      | fread o =>
        cases o with
        | some i => exact hact.elim
        | none =>
          have hwaits : ¬ s.shared.Returns (min totalLen clientBuffSize) none := by
            rintro (h | h | h)
            · cases h
            · exact absurd h (Nat.not_le_of_lt hfew)
            · rw [hopen] at h
              cases h
          dsimp only [threads, producerInside]
          rw [if_neg hwaits]
          rfl
      | _ => rfl
  | unlock i =>
    cases i with
    | networkProducer =>
      simp only [Program.step, if_pos hs, hp]
      rfl
    | controllerMsgProcess => exact if_neg hother
  | env c => exact hact.elim

end

/-- **The threads stand still exactly while the producer waits for the client**, in every state that an interleaving of
their statements with what the client does leads to. -/
theorem threads_wait_iff (sfd fd : Int32) (pending : List UInt8) (errno : Errno) (buff : Mem UInt8)
    (acts : List (FineAct Thread ThreadAns ClientAct)) (s : Fine Thread ThreadPc NetShared)
    (hrun : run (threads.step clientStep) (threadsStart sfd fd ⟨pending, false, errno⟩ buff) acts = some s) :
    (∀ act, Unprompted act → threads.step clientStep s act = none) ↔ ThreadsWait s := by
  have I0 : WaitInv (threadsStart sfd fd ⟨pending, false, errno⟩ buff) := by
    refine ⟨⟨fun i h => (by cases h), fun i _ => ?_⟩, fun h => (by cases h)⟩
    cases i <;> trivial
  have I := run_inv (I := WaitInv) (fun _ _ _ I h => WaitInv.step I h) acts _ _ I0 hrun
  constructor
  · intro hstuck
    by_contra hwait
    cases hs : s.holder with
    | some i =>
      obtain ⟨act, hact, hgo⟩ := I.goes_on hs hwait
      rw [hstuck act hact] at hgo
      cases hgo
    | none =>
      -- the consumer takes the mutex
      have hout := I.placed.outside .controllerMsgProcess (by rw [hs]; exact fun h => nomatch h)
      have hlock := hstuck (.lock .controllerMsgProcess) trivial
      cases hp : s.pc .controllerMsgProcess with
      | idle =>
        simp only [Program.step, if_pos hs, hp] at hlock
        cases hlock
      | _ =>
        rw [hp] at hout
        exact hout.elim
  · exact fun W act hact => W.stuck hact

/-- A record in the ring and five bytes of the next. -/
theorem threads_wait_iff_five : ∃ s, run (threads.step clientStep)
      (threadsStart 3 4 ⟨List.replicate 37 7, false, .other⟩ (fun _ => 0))
      [[.outside .networkProducer (.tcpiState 1), .lock .networkProducer, .inside .networkProducer .go,
          .inside .networkProducer (.fread none)], List.replicate 34 (.inside .networkProducer .go),
        [.unlock .networkProducer, .outside .networkProducer (.tcpiState 1), .lock .networkProducer,
          .inside .networkProducer .go]].flatten = some s ∧
    ((∀ act, Unprompted act → threads.step clientStep s act = none) ↔ ThreadsWait s) :=
  exists_run (by decide +kernel) (fun s hs => threads_wait_iff _ _ _ _ _ _ s hs)

end VirtualForce
