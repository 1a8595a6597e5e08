import VirtualForce.NetRing
import VirtualForce.ReadRounds
import VirtualForce.RingPusher
import VirtualForce.Sections
/-!
# Mutex — the threads of the ring, statement by statement

`network_producer` and `controller_msg_process` share the ring under `mutex`.  Here they go a statement at a time, and a
byte of a copy at a time, while bytes arrive and the client closes whenever it likes.  What they do is what whole rounds
of them do, one after the other: `threads_by_rounds`.  The mutex is a lock here and not the bytes behind `local_buff`: what
a copy past its end does to them is left out.
-/
namespace VirtualForce

open Memory Runs Sections

inductive Thread where
  | networkProducer
  | controllerMsgProcess
deriving DecidableEq

/-- What the threads share, beside what they have done; `closed` once the client has closed the connection. -/
structure NetShared where
  net : NetCircleBuff
  closed : Bool
  log : List Event

/-- The next statement of a thread, with its locals. -/
inductive ThreadPc where
  | idle
  /-- the connection was up, `pthread_mutex_lock` is next -/
  | locking
  | locked
  | reading (buffer : Mem UInt8) (totalLen : Nat)
  | pushing (buffer : Mem UInt8)
  | pushCopying (buffer : Mem UInt8) (i : Nat)
  | pulling
  | pullCopying (buff : Mem UInt8) (i : Nat)
  | unlocking

inductive ThreadAns where
  | go
  | tcpiState (state : UInt8)
  | fread (o : Option Interrupt)

def ThreadAns.freads : ThreadAns → List (Option Interrupt)
  | .fread o => [o]
  | _ => []

@[simp] theorem freads_go : ThreadAns.go.freads = [] := rfl

namespace NetShared

def withFp (sh : NetShared) (fp : File) : NetShared := { sh with net := { sh.net with fp := fp } }

def withRing (sh : NetShared) (r : Ring) : NetShared := { sh with net := { sh.net with localBuff := r } }

def did (sh : NetShared) (events : List Event) : NetShared := { sh with log := sh.log ++ events }

def info (sh : NetShared) : BufferInfo := sh.net.localBuff.info

def threads (sh : NetShared) : Threads := ⟨sh.net, sh.log⟩

/-- **`fread` of `n` bytes returns**: it is interrupted, has them all, or is at the end of the file. -/
def Returns (sh : NetShared) (n : Nat) (o : Option Interrupt) : Prop :=
  o.any (fun i => i.count < n ∧ i.count ≤ sh.net.fp.pending.length) = true ∨ n ≤ sh.net.fp.pending.length ∨
    sh.closed = true

instance (sh : NetShared) (n : Nat) (o : Option Interrupt) : Decidable (sh.Returns n o) :=
  inferInstanceAs (Decidable (_ ∨ _))

end NetShared

/-- `network_producer` with the mutex held, down into `read_data` and `push_circle_buff_item`. -/
def producerInside : ThreadPc × NetShared → ThreadAns → Option (ThreadPc × NetShared)
  | (.locked, sh), .go =>
    if isBuffFull sh.info then some (.unlocking, sh.did [.buffFull])
    else some (.reading (fun _ => 0) clientBuffSize, sh)
  | (.reading buffer totalLen, sh), .fread o =>
    if sh.Returns (min totalLen clientBuffSize) o then match readRound sh.net.fp buffer totalLen o with
      | .next fp buffer totalLen =>
        some (if totalLen = 0 then .pushing buffer else .reading buffer totalLen, sh.withFp fp)
      | .stop fp buffer totalLen => some (if totalLen = 0 then .pushing buffer else .unlocking, sh.withFp fp)
      | .exit => none
    else none
  | (.pushing buffer, sh), .go =>
    if isBuffFull sh.info then some (.unlocking, sh) else some (.pushCopying buffer 0, sh)
  | (.pushCopying buffer i, sh), .go =>
    let r := sh.net.localBuff
    if (i : Int) < r.info.elementLength.toInt then
      some (.pushCopying buffer (i + 1), sh.withRing (r.storeByte (r.info.tailIndexOffset.toInt + i) (buffer i)))
    else some (.unlocking, (sh.withRing (r.storeTail
        ((r.info.tailIndexOffset + r.info.elementLength) % r.info.buffLength))).did
      [.pushed r.info.tailIndexOffset (slice buffer 0 r.info.elementLength.toInt.toNat)])
  | _, _ => none

/-- `controller_msg_process` with the mutex held, down into `pull_circle_buff_item`. -/
def processInside : ThreadPc × NetShared → ThreadAns → Option (ThreadPc × NetShared)
  | (.locked, sh), .go => if isBuffEmpty sh.info then some (.unlocking, sh) else some (.pulling, sh)
  | (.pulling, sh), .go => if isBuffEmpty sh.info then some (.unlocking, sh) else some (.pullCopying (fun _ => 0) 0, sh)
  | (.pullCopying buff i, sh), .go =>
    let r := sh.net.localBuff
    if (i : Int) < r.info.elementLength.toInt then
      some (.pullCopying (set buff i (r.buff (r.info.headIndexOffset.toInt + i))) (i + 1), sh)
    else some (.unlocking, (sh.withRing (r.storeHead
        ((r.info.headIndexOffset + r.info.elementLength) % r.info.buffLength))).did
      [.pulled r.info.headIndexOffset (slice buff 0 r.info.elementLength.toInt.toNat)])
  | _, _ => none

def threads : Program Thread ThreadPc NetShared ThreadAns where
  outside
    | .networkProducer, .idle, .tcpiState state => some (if state = 1 then .locking else .idle)
    | _, _, _ => none
  enter
    | .networkProducer, .locking => some .locked
    | .controllerMsgProcess, .idle => some .locked
    | _, _ => none
  inside
    | .networkProducer => producerInside
    | .controllerMsgProcess => processInside
  leave
    | _, .unlocking => some .idle
    | _, _ => none

/-- What the client does meanwhile. -/
inductive ClientAct where
  | arrive (bytes : List UInt8)
  | close

def ClientAct.onFile : ClientAct → File → File
  | .arrive bytes, fp => { fp with pending := fp.pending ++ bytes }
  | .close, fp => fp

/-- Nothing arrives on a connection that is closed. -/
def ClientAct.Possible (sh : NetShared) : ClientAct → Prop
  | .arrive _ => sh.closed = false
  | .close => True

instance (sh : NetShared) (c : ClientAct) : Decidable (c.Possible sh) := by
  cases c <;> unfold ClientAct.Possible <;> infer_instance

def NetShared.meanwhile (sh : NetShared) : ClientAct → NetShared
  | .arrive bytes => sh.withFp ((ClientAct.arrive bytes).onFile sh.net.fp)
  | .close => { sh with closed := true }

def clientStep (c : ClientAct) (sh : NetShared) : Option NetShared :=
  if c.Possible sh then some (sh.meanwhile c) else none

/-! ## A statement at a time -/

/-- What a statement of the producer does under the lock. -/
inductive ProducerStep : ThreadPc → NetShared → ThreadAns → ThreadPc → NetShared → Prop
  | full {sh} (hf : isBuffFull sh.info = true) : ProducerStep .locked sh .go .unlocking (sh.did [.buffFull])
  | room {sh} (hf : isBuffFull sh.info = false) :
      ProducerStep .locked sh .go (.reading (fun _ => 0) clientBuffSize) sh
  | next {sh buffer totalLen o fp buffer' totalLen'} (hret : sh.Returns (min totalLen clientBuffSize) o)
      (hr : readRound sh.net.fp buffer totalLen o = .next fp buffer' totalLen') :
      ProducerStep (.reading buffer totalLen) sh (.fread o)
        (if totalLen' = 0 then .pushing buffer' else .reading buffer' totalLen') (sh.withFp fp)
  | stop {sh buffer totalLen o fp buffer' totalLen'} (hret : sh.Returns (min totalLen clientBuffSize) o)
      (hr : readRound sh.net.fp buffer totalLen o = .stop fp buffer' totalLen') :
      ProducerStep (.reading buffer totalLen) sh (.fread o)
        (if totalLen' = 0 then .pushing buffer' else .unlocking) (sh.withFp fp)
  | refused {sh buffer} (hf : isBuffFull sh.info = true) : ProducerStep (.pushing buffer) sh .go .unlocking sh
  | begun {sh buffer} (hf : isBuffFull sh.info = false) :
      ProducerStep (.pushing buffer) sh .go (.pushCopying buffer 0) sh
  | byte {sh buffer} {i : Nat} (hlt : (i : Int) < sh.info.elementLength.toInt) :
      ProducerStep (.pushCopying buffer i) sh .go (.pushCopying buffer (i + 1))
        (sh.withRing (sh.net.localBuff.storeByte (sh.info.tailIndexOffset.toInt + i) (buffer i)))
  | pushed {sh buffer} {i : Nat} (hge : ¬ (i : Int) < sh.info.elementLength.toInt) :
      ProducerStep (.pushCopying buffer i) sh .go .unlocking
        ((sh.withRing (sh.net.localBuff.storeTail
          ((sh.info.tailIndexOffset + sh.info.elementLength) % sh.info.buffLength))).did
          [.pushed sh.info.tailIndexOffset (slice buffer 0 sh.info.elementLength.toInt.toNat)])

/-- What a statement of the consumer does under the lock. -/
inductive ProcessStep : ThreadPc → NetShared → ThreadAns → ThreadPc → NetShared → Prop
  | empty {sh} (he : isBuffEmpty sh.info = true) : ProcessStep .locked sh .go .unlocking sh
  | unread {sh} (he : isBuffEmpty sh.info = false) : ProcessStep .locked sh .go .pulling sh
  | refused {sh} (he : isBuffEmpty sh.info = true) : ProcessStep .pulling sh .go .unlocking sh
  | begun {sh} (he : isBuffEmpty sh.info = false) : ProcessStep .pulling sh .go (.pullCopying (fun _ => 0) 0) sh
  | byte {sh buff} {i : Nat} (hlt : (i : Int) < sh.info.elementLength.toInt) :
      ProcessStep (.pullCopying buff i) sh .go
        (.pullCopying (set buff i (sh.net.localBuff.buff (sh.info.headIndexOffset.toInt + i))) (i + 1)) sh
  | pulled {sh buff} {i : Nat} (hge : ¬ (i : Int) < sh.info.elementLength.toInt) :
      ProcessStep (.pullCopying buff i) sh .go .unlocking
        ((sh.withRing (sh.net.localBuff.storeHead
          ((sh.info.headIndexOffset + sh.info.elementLength) % sh.info.buffLength))).did
          [.pulled sh.info.headIndexOffset (slice buff 0 sh.info.elementLength.toInt.toNat)])

section
variable {sh sh' : NetShared} {p p' : ThreadPc} {a : ThreadAns}

theorem producerInside_iff : producerInside (p, sh) a = some (p', sh') ↔ ProducerStep p sh a p' sh' := by
  constructor
  · intro h
    unfold producerInside at h
    split at h
    · rename_i hx
      cases hx
      split at h
      · rename_i hf
        cases h
        exact .full hf
      · rename_i hf
        cases h
        exact .room (Bool.not_eq_true _ ▸ hf)
    · rename_i hx
      cases hx
      split at h
      · rename_i hret
        split at h
        · rename_i hr
          cases h
          exact .next hret hr
        · rename_i hr
          cases h
          exact .stop hret hr
        · cases h
      · cases h
    · rename_i hx
      cases hx
      split at h
      · rename_i hf
        cases h
        exact .refused hf
      · rename_i hf
        cases h
        exact .begun (Bool.not_eq_true _ ▸ hf)
    · rename_i hx
      cases hx
      dsimp only at h
      split at h
      · rename_i hlt
        cases h
        exact .byte hlt
      · rename_i hge
        cases h
        exact .pushed hge
    · cases h
  · intro h
    cases h with
    | full hf => exact if_pos hf
    | room hf => exact if_neg (by rw [hf]; decide)
    | next hret hr =>
      dsimp only [producerInside]
      rw [if_pos hret, hr]
    | stop hret hr =>
      dsimp only [producerInside]
      rw [if_pos hret, hr]
    | refused hf => exact if_pos hf
    | begun hf => exact if_neg (by rw [hf]; decide)
    | byte hlt => exact if_pos hlt
    | pushed hge => exact if_neg hge

theorem processInside_iff : processInside (p, sh) a = some (p', sh') ↔ ProcessStep p sh a p' sh' := by
  constructor
  · intro h
    unfold processInside at h
    split at h
    · rename_i hx
      cases hx
      split at h
      · rename_i he
        cases h
        exact .empty he
      · rename_i he
        cases h
        exact .unread (Bool.not_eq_true _ ▸ he)
    · rename_i hx
      cases hx
      split at h
      · rename_i he
        cases h
        exact .refused he
      · rename_i he
        cases h
        exact .begun (Bool.not_eq_true _ ▸ he)
    · rename_i hx
      cases hx
      dsimp only at h
      split at h
      · rename_i hlt
        cases h
        exact .byte hlt
      · rename_i hge
        cases h
        exact .pulled hge
    · cases h
  · intro h
    cases h with
    | empty he => exact if_pos he
    | unread he => exact if_neg (by rw [he]; decide)
    | refused he => exact if_pos he
    | begun he => exact if_neg (by rw [he]; decide)
    | byte hlt => exact if_pos hlt
    | pulled hge => exact if_neg hge

end

/-! ## The client meanwhile -/

def ReadRound.onFile (f : File → File) : ReadRound → ReadRound
  | .next fp buffer totalLen => .next (f fp) buffer totalLen
  | .stop fp buffer totalLen => .stop (f fp) buffer totalLen
  | .exit => .exit

section
variable {sh sh' : NetShared} {p p' : ThreadPc} {a : ThreadAns} {n : Nat} {o : Option Interrupt} {c : ClientAct}

theorem NetShared.Returns.meanwhile (c : ClientAct) (h : sh.Returns n o) : (sh.meanwhile c).Returns n o := by
  have hlen : sh.net.fp.pending.length ≤ (sh.meanwhile c).net.fp.pending.length := by
    cases c with
    | arrive bytes =>
      rw [NetShared.meanwhile, NetShared.withFp, ClientAct.onFile, List.length_append]
      exact Nat.le_add_right _ _
    | close => exact Nat.le_refl _
  rcases h with h | h | h
  · refine .inl ?_
    cases o with
    | none => cases h
    | some i =>
      have hi := of_decide_eq_true h
      exact decide_eq_true ⟨hi.1, Nat.le_trans hi.2 hlen⟩
  · exact .inr (.inl (Nat.le_trans h hlen))
  · refine .inr (.inr ?_)
    cases c with
    | arrive bytes => exact h
    | close => rfl

/-- **A read that returns does not see what the client does after it.** -/
theorem fread_meanwhile (hc : c.Possible sh) (h : sh.Returns n o) :
    fread (sh.meanwhile c).net.fp n o = ((fread sh.net.fp n o).1, c.onFile (fread sh.net.fp n o).2) := by
  cases c with
  | close => rfl
  | arrive bytes =>
    have hopen : sh.closed = false := hc
    have hfull : n ≤ sh.net.fp.pending.length → ((sh.net.fp.pending ++ bytes).take n,
        { sh.net.fp with pending := (sh.net.fp.pending ++ bytes).drop n }) = (sh.net.fp.pending.take n,
          (ClientAct.arrive bytes).onFile { sh.net.fp with pending := sh.net.fp.pending.drop n }) := by
      intro hn
      rw [List.take_append_of_le_length hn, List.drop_append_of_le_length hn]
      rfl
    cases o with
    | none => exact hfull (h.elim (fun h => nomatch h) (fun h => h.resolve_right (by rw [hopen]; decide)))
    | some i =>
      have hlen : (sh.meanwhile (.arrive bytes)).net.fp.pending.length =
        sh.net.fp.pending.length + bytes.length := List.length_append
      by_cases hi : i.count < n ∧ i.count ≤ sh.net.fp.pending.length
      · simp only [fread]
        rw [if_pos ⟨hi.1, by omega⟩, if_pos hi, NetShared.meanwhile, NetShared.withFp, ClientAct.onFile,
          List.take_append_of_le_length hi.2, List.drop_append_of_le_length hi.2]
        rfl
      · have hn : n ≤ sh.net.fp.pending.length := by
          rcases h with h | h | h
          · exact absurd (of_decide_eq_true h) hi
          · exact h
          · rw [hopen] at h
            cases h
        simp only [fread]
        rw [if_neg (by omega), if_neg hi]
        exact hfull hn

theorem readRound_meanwhile {buffer : Mem UInt8} {totalLen : Nat} (hc : c.Possible sh)
    (h : sh.Returns (min totalLen clientBuffSize) o) :
    readRound (sh.meanwhile c).net.fp buffer totalLen o = (readRound sh.net.fp buffer totalLen o).onFile c.onFile := by
  simp only [readRound, fread_meanwhile hc h]
  generalize fread sh.net.fp (min totalLen clientBuffSize) o = r
  have herr : (c.onFile r.2).err = r.2.err := by cases c <;> rfl
  have herrno : (c.onFile r.2).errno = r.2.errno := by cases c <;> rfl
  rw [herr, herrno]
  by_cases hshort : r.1.length < min totalLen clientBuffSize
  · rw [if_pos hshort, if_pos hshort]
    by_cases he : r.2.err = true
    · rw [if_pos he, if_pos he]
      cases r.2.errno <;> rfl
    · rw [if_neg he, if_neg he]
      rfl
  · rw [if_neg hshort, if_neg hshort]
    rfl

theorem withFp_meanwhile (sh : NetShared) (fp : File) (c : ClientAct) :
    (sh.meanwhile c).withFp (c.onFile fp) = (sh.withFp fp).meanwhile c := by cases c <;> rfl

/-- **Under the lock the producer does not see what the client does after a statement.** -/
theorem ProducerStep.meanwhile (hc : c.Possible sh) (h : ProducerStep p sh a p' sh') :
    ProducerStep p (sh.meanwhile c) a p' (sh'.meanwhile c) := by
  cases h with
  | full hf => cases c <;> exact .full hf
  | room hf => cases c <;> exact .room hf
  | next hret hr =>
    rw [← withFp_meanwhile]
    exact .next (hret.meanwhile c) (by rw [readRound_meanwhile hc hret, hr]; rfl)
  | stop hret hr =>
    rw [← withFp_meanwhile]
    exact .stop (hret.meanwhile c) (by rw [readRound_meanwhile hc hret, hr]; rfl)
  | refused hf => cases c <;> exact .refused hf
  | begun hf => cases c <;> exact .begun hf
  | byte hlt => cases c <;> exact .byte hlt
  | pushed hge => cases c <;> exact .pushed hge

theorem ProcessStep.meanwhile (h : ProcessStep p sh a p' sh') :
    ProcessStep p (sh.meanwhile c) a p' (sh'.meanwhile c) := by
  cases h with
  | empty he => cases c <;> exact .empty he
  | unread he => cases c <;> exact .unread he
  | refused he => cases c <;> exact .refused he
  | begun he => cases c <;> exact .begun he
  | byte hlt => cases c <;> exact .byte hlt
  | pulled hge => cases c <;> exact .pulled hge

theorem ProducerStep.closed (h : ProducerStep p sh a p' sh') : sh'.closed = sh.closed := by cases h <;> rfl

theorem ProcessStep.closed (h : ProcessStep p sh a p' sh') : sh'.closed = sh.closed := by cases h <;> rfl

end

/-- **A record is copied to the ring where `G` holds.** -/
def CopiesWhere (G : Threads → Prop) : Thread → ThreadPc × NetShared → ThreadAns → Prop
  | .networkProducer, (.pushing _, sh), _ => isBuffFull sh.info = false → G sh.threads
  | _, _, _ => True

theorem copiesWhere_true (i : Thread) (x : ThreadPc × NetShared) (a : ThreadAns) :
    CopiesWhere (fun _ => True) i x a := by
  unfold CopiesWhere
  split
  · exact fun _ => trivial
  · trivial

/-- `G` looks at the ring and at what has been done. -/
def OfRing (G : Threads → Prop) : Prop := ∀ net fp log, G ⟨{ net with fp := fp }, log⟩ ↔ G ⟨net, log⟩

theorem threads_commute {G : Threads → Prop} (hG : OfRing G) : threads.Commutes clientStep (CopiesWhere G) where
  step i p sh a p' sh' c sh'' h hc := by
    unfold clientStep at hc
    split at hc
    · rename_i hpossible
      cases hc
      have hclosed : sh'.closed = sh.closed := by
        cases i with
        | networkProducer => exact (producerInside_iff.1 h).closed
        | controllerMsgProcess => exact (processInside_iff.1 h).closed
      have hbefore : c.Possible sh := by
        cases c with
        | arrive bytes => exact hclosed.symm.trans hpossible
        | close => trivial
      refine ⟨sh.meanwhile c, if_pos hbefore, ?_⟩
      cases i with
      | networkProducer => exact producerInside_iff.2 ((producerInside_iff.1 h).meanwhile hbefore)
      | controllerMsgProcess => exact processInside_iff.2 (processInside_iff.1 h).meanwhile
    · cases hc
  meets i p sh a c sh' hc h := by
    unfold clientStep at hc
    split at hc
    · cases hc
      cases i with
      | controllerMsgProcess => trivial
      | networkProducer =>
        cases p with
        | pushing buffer =>
          intro hf
          cases c with
          | arrive bytes => exact (hG _ _ _).2 (h hf)
          | close => exact h hf
        | _ => trivial
    · cases hc

/-! ## A section -/

/-- **The producer under the lock**, the shared state having been `sh₀` when it took it and `os` being how the `fread`s
since have ended; `R` holds if it copies a record. -/
def ProducerAt (R : Prop) (sh₀ : NetShared) (os : List (Option Interrupt)) : ThreadPc × NetShared → Prop
  | (.locked, sh) => os = [] ∧ sh = sh₀
  | (.reading buffer totalLen, sh) => isBuffFull sh₀.info = false ∧ totalLen ≠ 0 ∧ ∃ fp, sh = sh₀.withFp fp ∧
      ∀ more, readLoop sh₀.net.fp (fun _ => 0) clientBuffSize (os ++ more) = readLoop fp buffer totalLen more
  | (.pushing buffer, sh) => isBuffFull sh₀.info = false ∧ ∃ fp, sh = sh₀.withFp fp ∧
      readLoop sh₀.net.fp (fun _ => 0) clientBuffSize os = .returned (fp, buffer, 0)
  | (.pushCopying buffer i, sh) => isBuffFull sh₀.info = false ∧ R ∧ i ≤ sh₀.info.elementLength.toInt.toNat ∧
      ∃ fp, readLoop sh₀.net.fp (fun _ => 0) clientBuffSize os = .returned (fp, buffer, 0) ∧
        sh = (sh₀.withFp fp).withRing { sh₀.net.localBuff with
          buff := memcpy sh₀.net.localBuff.buff sh₀.info.tailIndexOffset.toInt buffer 0 i }
  | (.unlocking, sh) => (isBuffFull sh₀.info = false → wholeRecord sh₀.net.fp os ≠ [] → R) ∧
      ∃ net events, networkProducer sh₀.net 1 os = .returned (net, events) ∧
        sh = { sh₀ with net := net, log := sh₀.log ++ events }
  | _ => False

def ProcessAt (sh₀ : NetShared) : ThreadPc × NetShared → Prop
  | (.locked, sh) => sh = sh₀
  | (.pulling, sh) => isBuffEmpty sh₀.info = false ∧ sh = sh₀
  | (.pullCopying buff i, sh) => isBuffEmpty sh₀.info = false ∧ sh = sh₀ ∧ i ≤ sh₀.info.elementLength.toInt.toNat ∧
      buff = memcpy (fun _ => 0) 0 sh₀.net.localBuff.buff sh₀.info.headIndexOffset.toInt i
  | (.unlocking, sh) =>
      sh = { sh₀ with net := (controllerMsgProcess sh₀.net).1, log := sh₀.log ++ (controllerMsgProcess sh₀.net).2 }
  | _ => False

theorem memcpy_zero {α : Type} (dst : Mem α) (d : Int) (src : Mem α) (s : Int) :
    memcpy dst d src s (0 : Nat) = dst := by
  funext x
  exact memcpy_out dst src s (by omega)

/-- A length below zero copies nothing. -/
theorem memcpy_toNat {α : Type} (dst : Mem α) (d : Int) (src : Mem α) (s n : Int) :
    memcpy dst d src s n.toNat = memcpy dst d src s n := by
  funext x
  unfold memcpy
  by_cases hx : d ≤ x ∧ x < d + n
  · rw [if_pos hx, if_pos (by omega)]
  · rw [if_neg hx, if_neg (by omega)]

section
variable {R : Prop} {sh₀ sh sh' : NetShared} {p p' : ThreadPc} {a : ThreadAns} {os : List (Option Interrupt)}

theorem networkProducer_full (hf : isBuffFull sh₀.info = true) :
    networkProducer sh₀.net 1 os = .returned (sh₀.net, [.buffFull]) := by
  rw [networkProducer, if_pos rfl]
  exact if_pos hf

theorem networkProducer_read (hf : isBuffFull sh₀.info = false) {fp : File} {buffer : Mem UInt8} {totalLen : Nat}
    (h : readLoop sh₀.net.fp (fun _ => 0) clientBuffSize os = .returned (fp, buffer, totalLen)) :
    networkProducer sh₀.net 1 os = .returned (readDone sh₀.net fp buffer totalLen).2 := by
  have hf' : ¬ isBuffFull sh₀.net.localBuff.info = true := by rw [Bool.not_eq_true]; exact hf
  rw [networkProducer, if_pos rfl, if_neg hf', readData, h]
  rfl

/-- **Every statement of the producer keeps it.** -/
theorem ProducerAt.step (I : ProducerAt R sh₀ os (p, sh)) (hR : ∀ buffer, p = .pushing buffer → R)
    (h : ProducerStep p sh a p' sh') : ProducerAt R sh₀ (os ++ a.freads) (p', sh') := by
  cases h with
  | full hf =>
    obtain ⟨rfl, rfl⟩ := I
    exact ⟨fun hroom => absurd hf (by rw [hroom]; decide), _, _, networkProducer_full hf, rfl⟩
  | room hf =>
    obtain ⟨rfl, rfl⟩ := I
    exact ⟨hf, by decide, sh.net.fp, rfl, fun more => rfl⟩
  | next hret hr =>
    rename_i o fp' buffer' totalLen'
    obtain ⟨hf, h0, fp, rfl, hloop⟩ := I
    have hround : ∀ more, readLoop sh₀.net.fp (fun _ => 0) clientBuffSize (os ++ ThreadAns.freads (.fread o) ++ more) =
        readLoop fp' buffer' totalLen' more := by
      intro more
      rw [List.append_assoc, hloop]
      exact (readLoop_cons h0).trans (by rw [show readRound fp _ _ o = _ from hr]; rfl)
    by_cases hzero : totalLen' = 0
    · subst hzero
      have hdone := hround []
      rw [List.append_nil, readLoop_zero] at hdone
      exact ⟨hf, fp', rfl, hdone⟩
    · rw [if_neg hzero]
      exact ⟨hf, hzero, fp', rfl, hround⟩
  | stop hret hr =>
    rename_i o fp' buffer' totalLen'
    obtain ⟨hf, h0, fp, rfl, hloop⟩ := I
    have hdone : readLoop sh₀.net.fp (fun _ => 0) clientBuffSize (os ++ ThreadAns.freads (.fread o)) =
        .returned (fp', buffer', totalLen') :=
      (hloop _).trans ((readLoop_cons h0).trans (by rw [show readRound fp _ _ o = _ from hr]))
    by_cases hzero : totalLen' = 0
    · subst hzero
      exact ⟨hf, fp', rfl, hdone⟩
    · rw [if_neg hzero]
      refine ⟨fun _ hrecord => absurd ?_ hrecord, _, _, networkProducer_read hf hdone, ?_⟩
      · rw [wholeRecord, hdone]
        cases totalLen' with
        | zero => exact absurd rfl hzero
        | succ n => rfl
      · rw [readDone, if_pos hzero, List.append_nil]
        rfl
  | refused hfull =>
    obtain ⟨hf, fp, rfl, -⟩ := I
    exact absurd (hfull.symm.trans hf) (by decide)
  | begun hf =>
    obtain ⟨-, fp, rfl, hread⟩ := I
    refine ⟨hf, hR _ rfl, Nat.zero_le _, fp, ?_, ?_⟩
    · rw [freads_go, List.append_nil]
      exact hread
    · rw [memcpy_zero]
      rfl
  | byte hlt =>
    rename_i buffer i
    obtain ⟨hf, hroom, -, fp, hread, rfl⟩ := I
    have hlt : (i : Int) < sh₀.info.elementLength.toInt := hlt
    have hset := set_memcpy sh₀.net.localBuff.buff sh₀.info.tailIndexOffset.toInt buffer 0 i
    rw [Int.zero_add] at hset
    refine ⟨hf, hroom, by omega, fp, ?_, ?_⟩
    · rw [freads_go, List.append_nil]
      exact hread
    · rw [← hset]
      rfl
  | pushed hge =>
    rename_i buffer i
    obtain ⟨hf, hroom, hi, fp, hread, rfl⟩ := I
    have hge : ¬ (i : Int) < sh₀.info.elementLength.toInt := hge
    obtain rfl : i = sh₀.info.elementLength.toInt.toNat := by omega
    have hf' : ¬ isBuffFull sh₀.net.localBuff.info = true := by rw [Bool.not_eq_true]; exact hf
    refine ⟨fun _ _ => hroom, _, _, networkProducer_read hf (by rw [freads_go, List.append_nil]; exact hread), ?_⟩
    rw [memcpy_toNat, readDone, if_neg (by decide), pushCircleBuffItem, if_neg hf', pushEvents, if_neg hf']
    rfl

theorem ProcessAt.step (I : ProcessAt sh₀ (p, sh)) (h : ProcessStep p sh a p' sh') : ProcessAt sh₀ (p', sh') := by
  cases h with
  | empty he =>
    obtain rfl := I
    have hp : controllerMsgProcess sh.net = (sh.net, []) := if_pos he
    rw [ProcessAt, hp, List.append_nil]
  | unread he =>
    obtain rfl := I
    exact ⟨he, rfl⟩
  | refused hempty =>
    obtain ⟨he, rfl⟩ := I
    exact absurd (hempty.symm.trans he) (by decide)
  | begun he =>
    obtain ⟨-, rfl⟩ := I
    exact ⟨he, rfl, Nat.zero_le _, (memcpy_zero _ _ _ _).symm⟩
  | byte hlt =>
    rename_i buff i
    obtain ⟨he, rfl, -, rfl⟩ := I
    have hset := set_memcpy (fun _ => 0) 0 sh.net.localBuff.buff sh.info.headIndexOffset.toInt i
    rw [Int.zero_add] at hset
    exact ⟨he, rfl, by omega, hset⟩
  | pulled hge =>
    rename_i buff i
    obtain ⟨he, rfl, hi, rfl⟩ := I
    obtain rfl : i = sh.info.elementLength.toInt.toNat := by omega
    have he' : ¬ isBuffEmpty sh.net.localBuff.info = true := by rw [Bool.not_eq_true]; exact he
    rw [ProcessAt, controllerMsgProcess, if_neg he', pullCircleBuffItem, if_neg he', pullEvents, if_neg he']
    -- what the event shows is what was copied
    unfold NetShared.info
    rw [slice_memcpy]
    rfl

/-- What a round of the producer asks of `G`. -/
def Threads.CopiesWhere (G : Threads → Prop) (u : Threads) : ThreadAct → Prop
  | .produce tcpiState freads => tcpiState = 1 → isBuffFull u.net.localBuff.info = false →
      wholeRecord u.net.fp freads ≠ [] → G u
  | _ => True

theorem ProducerAt.unlocking {G : Threads → Prop} (I : ProducerAt (G sh₀.threads) sh₀ os (.unlocking, sh)) :
    Threads.step sh₀.threads (.produce 1 os) = some sh.threads ∧ sh₀.threads.CopiesWhere G (.produce 1 os) := by
  obtain ⟨hroom, net, events, hcall, rfl⟩ := I
  refine ⟨?_, fun _ => hroom⟩
  have hcall : networkProducer sh₀.threads.net 1 os = .returned (net, events) := hcall
  simp only [Threads.step, hcall]
  rfl

theorem ProducerAt.log_eq (I : ProducerAt R sh₀ os (p, sh)) (hp : p ≠ .unlocking) : sh.log = sh₀.log := by
  cases p with
  | locked =>
    obtain ⟨-, rfl⟩ := I
    rfl
  | reading buffer totalLen =>
    obtain ⟨-, -, fp, rfl, -⟩ := I
    rfl
  | pushing buffer =>
    obtain ⟨-, fp, rfl, -⟩ := I
    rfl
  | pushCopying buffer i =>
    obtain ⟨-, -, -, fp, -, rfl⟩ := I
    rfl
  | unlocking => exact absurd rfl hp
  | _ => exact I.elim

theorem ProcessAt.unlocking (I : ProcessAt sh₀ (.unlocking, sh)) :
    Threads.step sh₀.threads .process = some sh.threads := by
  obtain rfl := I
  rfl

theorem ProcessAt.log_eq (I : ProcessAt sh₀ (p, sh)) (hp : p ≠ .unlocking) : sh.log = sh₀.log := by
  cases p with
  | locked =>
    obtain rfl := I
    rfl
  | pulling =>
    obtain ⟨-, rfl⟩ := I
    rfl
  | pullCopying buff i =>
    obtain ⟨-, rfl, -⟩ := I
    rfl
  | unlocking => exact absurd rfl hp
  | _ => exact I.elim

theorem ProducerAt.locked (R : Prop) (sh : NetShared) : ProducerAt R sh [] (.locked, sh) := ⟨rfl, rfl⟩

theorem ProcessAt.locked (sh : NetShared) : ProcessAt sh (.locked, sh) := rfl

theorem ProcessAt.run {y : ThreadPc × NetShared} (as : List ThreadAns) (x : ThreadPc × NetShared)
    (I : ProcessAt sh₀ x) (h : Runs.run processInside x as = some y) : ProcessAt sh₀ y :=
  run_inv (I := ProcessAt sh₀) (fun _ _ _ I h => ProcessAt.step I (processInside_iff.1 h)) as _ _ I h

theorem ProducerAt.run {G : Threads → Prop} (hG : OfRing G) {y : ThreadPc × NetShared} : ∀ (as : List ThreadAns)
    (x : ThreadPc × NetShared) (os : List (Option Interrupt)), ProducerAt (G sh₀.threads) sh₀ os x →
      Along producerInside (CopiesWhere G .networkProducer) x as → Runs.run producerInside x as = some y →
        ProducerAt (G sh₀.threads) sh₀ (os ++ as.flatMap ThreadAns.freads) y
  | [], x, os, I, _, h => by
    cases h
    rw [List.flatMap_nil, List.append_nil]
    exact I
  | a :: as, (p, sh), os, I, hmeets, h => by
    obtain ⟨⟨p', sh'⟩, ha, hrest⟩ := run_cons_eq_some h
    have hmeets' := hmeets.2
    rw [ha] at hmeets'
    have I' := I.step (fun buffer hp => by
      subst hp
      obtain ⟨hf, fp, rfl, -⟩ := I
      exact (hG _ _ _).1 (hmeets.1 hf)) (producerInside_iff.1 ha)
    rw [List.flatMap_cons, ← List.append_assoc]
    exact ProducerAt.run hG as _ _ I' hmeets' hrest

end

/-! ## Round by round -/

section
variable {G : Threads → Prop} {t t' : Coarse Thread ThreadPc NetShared} {s : Fine Thread ThreadPc NetShared}

/-- The round a section is. -/
def threadRounds : CoarseAct Thread ThreadAns ClientAct → List ThreadAct
  | .outside _ _ => []
  | .whole .networkProducer as => [.produce 1 (as.flatMap ThreadAns.freads)]
  | .whole .controllerMsgProcess _ => [.process]
  | .env (.arrive bytes) => [.arrive bytes]
  | .env .close => []

theorem enter_eq_some {i : Thread} {p q : ThreadPc} (h : threads.enter i p = some q) : q = .locked := by
  cases i <;> cases p <;> cases h <;> rfl

theorem leave_eq_some {i : Thread} {p q : ThreadPc} (h : threads.leave i p = some q) : p = .unlocking := by
  cases p <;> first | rfl | cases h

/-- How far the section of the producer is. -/
theorem producerAt_of_under (hG : OfRing G) (U : Under threads (CopiesWhere G) .networkProducer t s) :
    ∃ os, ProducerAt (G t.shared.threads) t.shared os (s.pc .networkProducer, s.shared) := by
  obtain ⟨p, as, henter, hrun, halong⟩ := U.far
  obtain rfl := enter_eq_some henter
  exact ⟨_, ProducerAt.run hG as _ [] (.locked _ _) halong hrun⟩

theorem processAt_of_under (U : Under threads (CopiesWhere G) .controllerMsgProcess t s) :
    ProcessAt t.shared (s.pc .controllerMsgProcess, s.shared) := by
  obtain ⟨p, as, henter, hrun, -⟩ := U.far
  obtain rfl := enter_eq_some henter
  exact ProcessAt.run as _ (.locked _) hrun

/-- **A section is a round.** -/
theorem coarseStep_rounds (hG : OfRing G) {act : CoarseAct Thread ThreadAns ClientAct}
    (hmeets : Coarse.Meets threads (CopiesWhere G) t act) (h : threads.coarseStep clientStep t act = some t') :
    run Threads.step t.shared.threads (threadRounds act) = some t'.shared.threads ∧
      Along Threads.step (Threads.CopiesWhere G) t.shared.threads (threadRounds act) := by
  cases act with
  | outside i a =>
    obtain ⟨p, -, rfl⟩ := Option.map_eq_some_iff.1 h
    exact ⟨rfl, trivial⟩
  | whole i as =>
    obtain ⟨⟨p', sh'⟩, honce, rfl⟩ := Option.map_eq_some_iff.1 h
    obtain ⟨q, henter, honce⟩ := Option.bind_eq_some_iff.1 honce
    obtain ⟨⟨p, sh⟩, hrun, honce⟩ := Option.bind_eq_some_iff.1 honce
    obtain ⟨r, hleave, hr⟩ := Option.map_eq_some_iff.1 honce
    cases hr
    obtain rfl := leave_eq_some hleave
    have halong := hmeets q henter
    obtain rfl := enter_eq_some henter
    cases i with
    | networkProducer =>
      have I : ProducerAt _ t.shared (as.flatMap ThreadAns.freads) (.unlocking, sh) :=
        ProducerAt.run hG as _ [] (.locked _ _) halong hrun
      obtain ⟨hstep, hclear⟩ := I.unlocking
      refine ⟨?_, hclear, ?_⟩
      · rw [threadRounds, run_cons, hstep]
        rfl
      · rw [hstep]
        trivial
    | controllerMsgProcess =>
      have I := ProcessAt.run as _ (.locked _) hrun
      refine ⟨?_, trivial, ?_⟩
      · rw [threadRounds, run_cons, I.unlocking]
        rfl
      · rw [I.unlocking]
        trivial
  | env c =>
    obtain ⟨sh, hc, rfl⟩ := Option.map_eq_some_iff.1 h
    unfold clientStep at hc
    split at hc
    · cases hc
      cases c with
      | arrive bytes => exact ⟨rfl, trivial, trivial⟩
      | close => exact ⟨rfl, trivial⟩
    · cases hc

theorem run_rounds (hG : OfRing G) : ∀ (acts : List (CoarseAct Thread ThreadAns ClientAct))
    (t : Coarse Thread ThreadPc NetShared),
      Along (threads.coarseStep clientStep) (Coarse.Meets threads (CopiesWhere G)) t acts →
      run (threads.coarseStep clientStep) t acts = some t' →
        run Threads.step t.shared.threads (acts.flatMap threadRounds) = some t'.shared.threads ∧
          Along Threads.step (Threads.CopiesWhere G) t.shared.threads (acts.flatMap threadRounds)
  | [], t, _, h => by
    cases h
    exact ⟨rfl, trivial⟩
  | act :: acts, t, hmeets, h => by
    obtain ⟨u, hu, hrest⟩ := run_cons_eq_some h
    have hmeets' := hmeets.2
    rw [hu] at hmeets'
    obtain ⟨hrun, halong⟩ := coarseStep_rounds hG hmeets.1 hu
    obtain ⟨hrun', halong'⟩ := run_rounds hG acts u hmeets' hrest
    rw [List.flatMap_cons]
    refine ⟨?_, halong.append hrun halong'⟩
    rw [run_append, hrun]
    exact hrun'

end

/-! ## Every run -/

def threadsStart (sfd fd : Int32) (fp : File) (buff : Mem UInt8) : Fine Thread ThreadPc NetShared :=
  ⟨⟨networkInit sfd fd fp buff, false, []⟩, none, fun _ => .idle⟩

/-- The state after some rounds beside one between two statements. -/
structure ByRounds (G : Threads → Prop) (start u : Threads) (s : Fine Thread ThreadPc NetShared) : Prop where
  run : ∃ acts, Runs.run Threads.step start acts = some u ∧ Along Threads.step (Threads.CopiesWhere G) start acts
  log : u.log = s.shared.log
  free : s.holder = none → u = s.shared.threads

theorem exists_rounds {G : Threads → Prop} (hG : OfRing G) {sfd fd : Int32} {fp : File} {buff : Mem UInt8}
    {acts : List (FineAct Thread ThreadAns ClientAct)} {s : Fine Thread ThreadPc NetShared}
    (halong : Along (threads.step clientStep) (Fine.Meets (CopiesWhere G)) (threadsStart sfd fd fp buff) acts)
    (hrun : run (threads.step clientStep) (threadsStart sfd fd fp buff) acts = some s) :
    ∃ u, ByRounds G ⟨networkInit sfd fd fp buff, []⟩ u s := by
  obtain ⟨coarse, t, hcoarse, hmeets, B⟩ := run_beside (threads_commute hG) _ _ acts s halong hrun
  obtain ⟨hrounds, hclear⟩ : run Threads.step ⟨networkInit sfd fd fp buff, []⟩ (coarse.flatMap threadRounds) =
      some t.shared.threads ∧ Along Threads.step (Threads.CopiesWhere G) ⟨networkInit sfd fd fp buff, []⟩
        (coarse.flatMap threadRounds) := run_rounds hG coarse _ hmeets hcoarse
  cases hs : s.holder with
  | none =>
    obtain ⟨hsh, -⟩ := B.of_none hs
    exact ⟨_, ⟨_, hrounds, hclear⟩, congrArg NetShared.log hsh, fun _ => congrArg NetShared.threads hsh⟩
  | some i =>
    have U := B.of_some hs
    have hheld : ∀ {P : Prop}, s.holder = none → P := fun h => by rw [hs] at h; cases h
    have hafter : ∀ act, Threads.step t.shared.threads act = some s.shared.threads →
        t.shared.threads.CopiesWhere G act → ∃ u, ByRounds G ⟨networkInit sfd fd fp buff, []⟩ u s := by
      intro act hact hG
      refine ⟨s.shared.threads, ⟨_ ++ [act], ?_, hclear.append hrounds ⟨hG, by rw [hact]; trivial⟩⟩, rfl, hheld⟩
      rw [run_append, hrounds, Option.bind_some, run_cons, hact]
      rfl
    cases i with
    | networkProducer =>
      obtain ⟨os, I⟩ := producerAt_of_under hG U
      by_cases hp : s.pc .networkProducer = .unlocking
      · rw [hp] at I
        exact hafter _ I.unlocking.1 I.unlocking.2
      · exact ⟨_, ⟨_, hrounds, hclear⟩, (I.log_eq hp).symm, hheld⟩
    | controllerMsgProcess =>
      have I := processAt_of_under U
      by_cases hp : s.pc .controllerMsgProcess = .unlocking
      · rw [hp] at I
        exact hafter _ I.unlocking trivial
      · exact ⟨_, ⟨_, hrounds, hclear⟩, (I.log_eq hp).symm, hheld⟩

/-- **Statement by statement is round by round**: whatever the interleaving, the two threads have done what some rounds of
them did, one after the other, and have left the same whenever the mutex is free. -/
theorem threads_by_rounds (sfd fd : Int32) (fp : File) (buff : Mem UInt8)
    (acts : List (FineAct Thread ThreadAns ClientAct)) (s : Fine Thread ThreadPc NetShared)
    (hrun : run (threads.step clientStep) (threadsStart sfd fd fp buff) acts = some s) :
    ∃ rounds u, run Threads.step ⟨networkInit sfd fd fp buff, []⟩ rounds = some u ∧ u.log = s.shared.log ∧
      (s.holder = none → u = s.shared.threads) := by
  have hall : Along (threads.step clientStep) (Fine.Meets (CopiesWhere (fun _ => True)))
      (threadsStart sfd fd fp buff) acts := by
    refine along_of_forall_mem (fun s act _ => ?_)
    cases act with
    | inside i a => exact copiesWhere_true i _ a
    | _ => trivial
  obtain ⟨u, ⟨rounds, hrounds, -⟩, hlog, hfree⟩ := exists_rounds (fun _ _ _ => Iff.rfl) hall hrun
  exact ⟨rounds, u, hrounds, hlog, hfree⟩

/-- A record in two reads, the rest arriving between them, pushed, and pulled. -/
def twoReads : List (FineAct Thread ThreadAns ClientAct) :=
  [[.env (.arrive (List.replicate 5 7)), .outside .networkProducer (.tcpiState 1), .lock .networkProducer,
      .inside .networkProducer .go, .inside .networkProducer (.fread (some ⟨5, .eintr⟩)),
      .env (.arrive (List.replicate 27 7)), .inside .networkProducer (.fread none)],
    List.replicate 34 (.inside .networkProducer .go), [.unlock .networkProducer, .lock .controllerMsgProcess],
    List.replicate 35 (.inside .controllerMsgProcess .go), [.env .close, .unlock .controllerMsgProcess]].flatten

theorem threads_by_rounds_two : ∃ s, run (threads.step clientStep)
      (threadsStart 3 4 ⟨[], false, .other⟩ (fun _ => 0)) twoReads = some s ∧
    ∃ rounds u, run Threads.step ⟨networkInit 3 4 ⟨[], false, .other⟩ (fun _ => 0), []⟩ rounds = some u ∧
      u.log = s.shared.log ∧ (s.holder = none → u = s.shared.threads) :=
  exists_run (by decide +kernel) (fun s hs => threads_by_rounds _ _ _ _ _ s hs)

/-- At most seven unread records, or eight and the next one goes past the end. -/
def Threads.Room (u : Threads) : Prop :=
  u.unread ≤ 7 ∨ (u.unread = 8 ∧ 256 ≤ u.net.localBuff.info.tailIndexOffset.toInt)

instance : DecidablePred Threads.Room := fun _ => inferInstanceAs (Decidable (_ ∨ _))

instance (i : Thread) (x : ThreadPc × NetShared) (a : ThreadAns) : Decidable (CopiesWhere Threads.Room i x a) := by
  unfold CopiesWhere
  split <;> infer_instance

instance (s : Fine Thread ThreadPc NetShared) (act : FineAct Thread ThreadAns ClientAct) :
    Decidable (s.Meets (CopiesWhere Threads.Room) act) := by
  unfold Fine.Meets
  split <;> infer_instance

/-- **No record is lost, altered, doubled or out of order, statement by statement**, where each is copied to the ring
clear of the unread ones. -/
theorem threads_in_order (sfd fd : Int32) (fp : File) (buff : Mem UInt8)
    (acts : List (FineAct Thread ThreadAns ClientAct)) (s : Fine Thread ThreadPc NetShared)
    (hclear : Along (threads.step clientStep) (Fine.Meets (CopiesWhere Threads.Room)) (threadsStart sfd fd fp buff) acts)
    (hrun : run (threads.step clientStep) (threadsStart sfd fd fp buff) acts = some s) :
    pulledItems s.shared.log <+: pushedItems s.shared.log ∧ (s.holder = none → ThreadSafe s.shared.threads) := by
  obtain ⟨u, ⟨rounds, hrounds, halong⟩, hlog, hfree⟩ := exists_rounds (fun _ _ _ => Iff.rfl) hclear hrun
  have I0 : ∃ rest, ThreadInv rest ⟨networkInit sfd fd fp buff, []⟩ := ⟨[], rfl, networkInit_holds sfd fd fp buff⟩
  obtain ⟨rest, I⟩ := run_inv_along (I := fun u => ∃ rest, ThreadInv rest u) (by
    rintro u act u' ⟨rest, I⟩ hmeets h
    refine I.step ?_ h
    cases act with
    | produce tcpiState freads => exact hmeets
    | _ => trivial) rounds _ _ I0 halong hrounds
  refine ⟨?_, fun h => hfree h ▸ I.safe⟩
  rw [← hlog]
  exact I.safe.in_order

/-- The connection test of the producer. -/
def isConnected : FineAct Thread ThreadAns ClientAct := .outside .networkProducer (.tcpiState 1)

/-- A critical section of the producer that pushes a record, and one of the consumer that pulls one. -/
def produceRound : List (FineAct Thread ThreadAns ClientAct) :=
  [.lock .networkProducer, .inside .networkProducer .go, .inside .networkProducer (.fread none)] ++
    List.replicate 34 (.inside .networkProducer .go) ++ [.unlock .networkProducer]

def processRound : List (FineAct Thread ThreadAns ClientAct) :=
  .lock .controllerMsgProcess :: List.replicate 35 (.inside .controllerMsgProcess .go) ++ [.unlock .controllerMsgProcess]

/-- Ten records arrive at once: nine are pushed, two are pulled, the tenth is pushed where they were, and the other eight
are pulled. -/
theorem threads_in_order_backlog : ∃ s, run (threads.step clientStep) (threadsStart 3 4 ⟨[], false, .other⟩ (fun _ => 0))
      (.env (.arrive ((List.range 10).flatMap (fun i => List.replicate 32 (UInt8.ofNat i)))) ::
        ((List.replicate 9 (isConnected :: produceRound) ++ [processRound, [isConnected], processRound, produceRound] ++
          List.replicate 8 processRound).flatten ++ [isConnected, .env .close])) = some s ∧
    (pulledItems s.shared.log <+: pushedItems s.shared.log ∧ (s.holder = none → ThreadSafe s.shared.threads)) ∧
    (pulledItems s.shared.log).length = 10 :=
  exists_run_check (by decide +kernel) (fun s hs _ => threads_in_order _ _ _ _ _ s (by decide +kernel) hs)

end VirtualForce
