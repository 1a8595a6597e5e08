import VirtualForce.Overlay
import VirtualForce.ReadFraming
import VirtualForce.RingQueue
/-!
# ReadRounds — the rounds of one `read_data`

Each round of `while(total_len)` reads to the start of the one buffer.  What the call leaves there is its pieces written
over one another, and they are a record only when no later piece covers an earlier one (`record_kept_iff`).
-/
namespace VirtualForce

open Memory Slots

/-- `total_len` at the test of a round, and what its `fread` delivers. -/
structure Round where
  totalLen : Nat
  bytes : List UInt8

/-- The rounds that `readLoop` makes. -/
def rounds (fp : File) (buffer : Mem UInt8) (totalLen : Nat) : List (Option Interrupt) → List Round
  | [] => []
  | o :: os =>
    if totalLen = 0 then []
    else ⟨totalLen, (fread fp (min totalLen clientBuffSize) o).1⟩ :: match readRound fp buffer totalLen o with
      | .next fp' buffer' totalLen' => rounds fp' buffer' totalLen' os
      | .stop _ _ _ => []
      | .exit => []

/-- What the `fread`s of a call deliver, those that deliver nothing left out. -/
def pieces (fp : File) (freads : List (Option Interrupt)) : List (List UInt8) :=
  ((rounds fp (fun _ => 0) clientBuffSize freads).map Round.bytes).filter (fun p => !p.isEmpty)

/-! ## One round -/

section
variable {fp : File} {buffer : Mem UInt8} {left : Nat} {o : Option Interrupt} {os : List (Option Interrupt)}

theorem fread_le (fp : File) (n : Nat) (o : Option Interrupt) : (fread fp n o).1.length ≤ n := (fread_spec fp n o).1

theorem fread_bytes (fp : File) (n : Nat) (o : Option Interrupt) :
    (fread fp n o).1 = fp.pending.take (fread fp n o).1.length := by
  apply List.prefix_iff_eq_take.1
  cases o with
  | none => exact List.take_prefix n _
  | some i =>
    simp only [fread]
    split
    · exact List.take_prefix i.count _
    · exact List.take_prefix n _

theorem readRound_full (hsize : left ≤ clientBuffSize) (h : (fread fp left o).1.length = left) :
    readRound fp buffer left o = .next (fread fp left o).2 (put buffer 0 (fread fp left o).1) 0 := by
  simp only [readRound, Nat.min_eq_left hsize, h, Nat.lt_irrefl, if_false, Nat.sub_self]

theorem readRound_signalled (hsize : left ≤ clientBuffSize) (hshort : (fread fp left o).1.length < left)
    (herr : (fread fp left o).2.err = true) (herrno : (fread fp left o).2.errno = .eintr) :
    readRound fp buffer left o = .next (fread fp left o).2 (put buffer 0 (fread fp left o).1)
      (left - (fread fp left o).1.length) := by
  simp only [readRound, Nat.min_eq_left hsize, hshort, if_true, herr, herrno]

/-- **A short read without a signal ends the loop.** -/
theorem readRound_ends (hsize : left ≤ clientBuffSize) (hshort : (fread fp left o).1.length < left)
    (h : ¬ ((fread fp left o).2.err = true ∧ (fread fp left o).2.errno = .eintr)) :
    readRound fp buffer left o = .exit ∨ readRound fp buffer left o = .stop (fread fp left o).2
      (put buffer 0 (fread fp left o).1) (left - (fread fp left o).1.length) := by
  simp only [readRound, Nat.min_eq_left hsize, hshort, if_true]
  by_cases herr : (fread fp left o).2.err = true
  · rw [if_pos herr]
    cases herrno : (fread fp left o).2.errno with
    | eintr => exact absurd ⟨herr, herrno⟩ h
    | eagain => exact .inr rfl
    | ewouldblock => exact .inr rfl
    | other => exact .inl rfl
  · rw [if_neg herr]
    exact .inr rfl

theorem readLoop_cons (h0 : left ≠ 0) : readLoop fp buffer left (o :: os) = match readRound fp buffer left o with
    | .next fp' buffer' totalLen' => readLoop fp' buffer' totalLen' os
    | .stop fp' buffer' totalLen' => .returned (fp', buffer', totalLen')
    | .exit => .exited [] := by
  rw [readLoop.eq_def]
  exact if_neg h0

theorem readLoop_zero (os : List (Option Interrupt)) : readLoop fp buffer 0 os = .returned (fp, buffer, 0) := by
  rw [readLoop.eq_def, if_pos rfl]

theorem rounds_zero (os : List (Option Interrupt)) : rounds fp buffer 0 os = [] := by
  cases os with
  | nil => rfl
  | cons o os => rw [rounds, if_pos rfl]

/-- **The three ways a round goes**: it gets all that is missing; it goes on after a signal; or it ends the loop. -/
theorem round_cases (buffer : Mem UInt8) (os : List (Option Interrupt)) (h0 : left ≠ 0) (hsize : left ≤ clientBuffSize) :
    ((fread fp left o).1.length = left ∧
        readLoop fp buffer left (o :: os) = .returned ((fread fp left o).2, put buffer 0 (fread fp left o).1, 0) ∧
        rounds fp buffer left (o :: os) = [⟨left, (fread fp left o).1⟩]) ∨
      ((fread fp left o).1.length < left ∧ ((fread fp left o).2.err = true ∧ (fread fp left o).2.errno = .eintr) ∧
        readLoop fp buffer left (o :: os) = readLoop (fread fp left o).2 (put buffer 0 (fread fp left o).1)
          (left - (fread fp left o).1.length) os ∧
        rounds fp buffer left (o :: os) = ⟨left, (fread fp left o).1⟩ :: rounds (fread fp left o).2
          (put buffer 0 (fread fp left o).1) (left - (fread fp left o).1.length) os) ∨
      ((fread fp left o).1.length < left ∧ ¬ ((fread fp left o).2.err = true ∧ (fread fp left o).2.errno = .eintr) ∧
        (readLoop fp buffer left (o :: os) = .exited [] ∨ readLoop fp buffer left (o :: os) =
          .returned ((fread fp left o).2, put buffer 0 (fread fp left o).1, left - (fread fp left o).1.length)) ∧
        rounds fp buffer left (o :: os) = [⟨left, (fread fp left o).1⟩]) := by
  rw [readLoop_cons h0, rounds, if_neg h0, Nat.min_eq_left hsize]
  rcases Nat.lt_or_eq_of_le (fread_le fp left o) with hshort | hfull
  · by_cases hsig : (fread fp left o).2.err = true ∧ (fread fp left o).2.errno = .eintr
    · rw [readRound_signalled hsize hshort hsig.1 hsig.2]
      exact .inr (.inl ⟨hshort, hsig, rfl, rfl⟩)
    · refine .inr (.inr ⟨hshort, hsig, ?_⟩)
      rcases @readRound_ends _ buffer _ _ hsize hshort hsig with hexit | hstop
      · rw [hexit]
        exact ⟨.inl rfl, rfl⟩
      · rw [hstop]
        exact ⟨.inr rfl, rfl⟩
  · rw [readRound_full hsize hfull]
    exact .inl ⟨hfull, readLoop_zero os, congrArg (List.cons _) (rounds_zero os)⟩

end

/-! ## The whole call -/

/-- **What a call that gets all it wants leaves**: its pieces one over the other in the buffer, in a row the bytes it
took from the stream. -/
theorem readLoop_pieces {fp' : File} {buffer' : Mem UInt8} : ∀ (freads : List (Option Interrupt)) (fp : File)
    (buffer : Mem UInt8) (left : Nat), left ≤ clientBuffSize →
      readLoop fp buffer left freads = .returned (fp', buffer', 0) →
      buffer' = overlay buffer ((rounds fp buffer left freads).map Round.bytes) ∧
        ((rounds fp buffer left freads).map Round.bytes).flatten = fp.pending.take left ∧ left ≤ fp.pending.length
  | [], fp, buffer, left, _, h => by
    rw [readLoop] at h
    split at h
    · rename_i h0
      cases h
      exact ⟨rfl, rfl, Nat.zero_le _⟩
    · cases h
  | o :: os, fp, buffer, left, hsize, h => by
    obtain ⟨-, havail, hrest, -⟩ := fread_spec fp left o
    have hbytes := fread_bytes fp left o
    by_cases h0 : left = 0
    · subst h0
      rw [readLoop_zero] at h
      cases h
      rw [rounds_zero]
      exact ⟨rfl, rfl, Nat.zero_le _⟩
    · rcases round_cases buffer os h0 hsize with ⟨hfull, hloop, hrounds⟩ | ⟨hshort, -, hloop, hrounds⟩ |
        ⟨hshort, -, hloop, -⟩
      · rw [hloop] at h
        cases h
        rw [hrounds, List.map_singleton, List.flatten_singleton]
        rw [hfull] at hbytes havail
        exact ⟨rfl, hbytes, havail⟩
      · rw [hloop] at h
        obtain ⟨hbuffer, hflat, hle⟩ := readLoop_pieces os _ _ _ (by omega) h
        rw [hrest, List.length_drop] at hle
        rw [hrounds, List.map_cons, List.flatten_cons]
        refine ⟨hbuffer, ?_, by omega⟩
        rw [hflat, hrest, hbytes, List.length_take_of_le havail]
        have hsum : left = (fread fp left o).1.length + (left - (fread fp left o).1.length) := by omega
        conv_rhs => rw [hsum, List.take_add]
      · rw [hloop.resolve_left (fun hexit => by rw [hexit] at h; cases h)] at h
        simp only [Outcome.returned.injEq, Prod.mk.injEq] at h
        omega

theorem readData_zero {net net' : NetCircleBuff} {events : List Event} {freads : List (Option Interrupt)}
    (h : readData net clientBuffSize freads = .returned (0, net', events)) : ∃ fp' buffer',
      readLoop net.fp (fun _ => 0) clientBuffSize freads = .returned (fp', buffer', 0) ∧
        net'.localBuff = (pushCircleBuffItem net.localBuff buffer').2 := by
  obtain ⟨⟨fp', buffer', left'⟩, hloop, hdone⟩ := Outcome.map_eq_returned h
  unfold readDone at hdone
  split at hdone
  · cases hdone
  · rename_i hleft
    simp only [ne_eq, Decidable.not_not] at hleft
    cases hdone
    exact ⟨fp', buffer', hleft ▸ hloop, rfl⟩

/-- **Every byte of the record is in the first piece, past the reach of the later ones, or 0.** -/
def PiecesFit (pieces : List (List UInt8)) : Prop := match pieces with
  | [] => True
  | first :: later => ∀ j, j < clientBuffSize →
    (j < first.length ∧ ∀ p ∈ later, p.length ≤ j) ∨ (first ++ later.flatten)[j]? = some 0

theorem slice_pieces_iff {fp fp' : File} {buffer' : Mem UInt8} {freads : List (Option Interrupt)}
    (h : readLoop fp (fun _ => 0) clientBuffSize freads = .returned (fp', buffer', 0)) :
    slice buffer' 0 clientBuffSize = fp.pending.take clientBuffSize ↔ PiecesFit (pieces fp freads) := by
  obtain ⟨hbuffer, hflat, hlen⟩ := readLoop_pieces freads fp _ clientBuffSize (Nat.le_refl _) h
  rw [← overlay_filter, ← pieces] at hbuffer
  rw [← List.flatten_filter_not_isEmpty, ← pieces] at hflat
  have hmem : ∀ p ∈ pieces fp freads, p ≠ [] := by
    intro p hp hnil
    have hkept := (List.mem_filter.1 hp).2
    rw [hnil] at hkept
    exact absurd hkept (by decide)
  rw [hbuffer, ← hflat]
  cases hpieces : pieces fp freads with
  | nil =>
    -- a record is not made of no pieces
    rw [hpieces] at hflat
    have hzero := congrArg List.length hflat
    rw [List.length_take_of_le hlen] at hzero
    exact absurd hzero (by decide)
  | cons first later =>
    rw [hpieces] at hflat hmem
    have hsize : (first ++ later.flatten).length = clientBuffSize := by
      rw [← List.flatten_cons, hflat, List.length_take_of_le hlen]
    have hiff := @slice_overlay_iff _ (0 : UInt8) first later (hmem first List.mem_cons_self)
    rw [hsize] at hiff
    rw [List.flatten_cons]
    exact hiff

/-- **A record comes whole through a call exactly when its pieces fit**, whatever the reads, on a ring with room: then
the ring holds after its items the 32 bytes the call took. -/
theorem record_kept_iff {net net' : NetCircleBuff} {events : List Event} {freads : List (Option Interrupt)} {L a : Nat}
    {items : List (List UInt8)} (hring : Holds clientBuffSize L a net.localBuff items) (hdvd : clientBuffSize ∣ L)
    (hroom : isBuffFull net.localBuff.info = false)
    (h : readData net clientBuffSize freads = .returned (0, net', events)) :
    Holds clientBuffSize L a net'.localBuff (items ++ [net.fp.pending.take clientBuffSize]) ↔
      PiecesFit (pieces net.fp freads) := by
  obtain ⟨fp', buffer', hloop, hbuff⟩ := readData_zero h
  have H := (hring.push buffer' hroom (hring.fresh hdvd)).2
  rw [hbuff, ← slice_pieces_iff hloop]
  constructor
  · intro H'
    have hlast : items.length < (items ++ [net.fp.pending.take clientBuffSize]).length := by simp
    have hpushed := H.stored items.length (by simp)
    have hwanted := H'.stored items.length hlast
    rw [hpushed] at hwanted
    simpa using hwanted
  · intro heq
    rw [← heq]
    exact H

/-- A ring of two slots, empty, and a connection on which these bytes come. -/
def twoSlots (pending : List UInt8) : NetCircleBuff :=
  ⟨4, 3, ⟨pending, false, .other⟩, ⟨⟨0, 0, 32, 64, 0, 1, 0⟩, fun _ => 0⟩⟩

theorem holds_twoSlots (pending : List UInt8) : Holds clientBuffSize 64 0 (twoSlots pending).localBuff [] :=
  Holds.start (i := 0) (by decide) (by decide) (by decide) rfl rfl (by decide) rfl rfl

/-- A signal before the first byte. -/
theorem record_kept_iff_signal : ∃ net' events,
    readData (twoSlots (List.replicate 32 7)) clientBuffSize [some ⟨0, .eintr⟩, none] = .returned (0, net', events) ∧
      (Holds clientBuffSize 64 0 net'.localBuff ([] ++ [(List.replicate 32 7).take clientBuffSize]) ↔
        PiecesFit (pieces (twoSlots (List.replicate 32 7)).fp [some ⟨0, .eintr⟩, none])) :=
  ⟨_, _, rfl, record_kept_iff (holds_twoSlots _) (by decide) (by decide) rfl⟩

/-- A signal after 16 of the bytes 0, 1, .. 31: the second half is pushed, and 16 zeros. -/
theorem record_torn : ¬ ∀ (net net' : NetCircleBuff) (events : List Event) (freads : List (Option Interrupt))
    (L a : Nat) (items : List (List UInt8)), Holds clientBuffSize L a net.localBuff items → clientBuffSize ∣ L →
      isBuffFull net.localBuff.info = false → readData net clientBuffSize freads = .returned (0, net', events) →
        Holds clientBuffSize L a net'.localBuff (items ++ [net.fp.pending.take clientBuffSize]) := by
  intro h
  have H := h (twoSlots ((List.range 32).map UInt8.ofNat)) _ _ [some ⟨16, .eintr⟩, none] 64 0 [] (holds_twoSlots _)
    (by decide) (by decide) rfl
  exact absurd (H.stored 0 (by decide)) (by decide +kernel)

end VirtualForce
