import VirtualForce.Controller
import VirtualForce.Circle
import VirtualForce.RingItem
import VirtualForce.Runs
import Mathlib.Data.List.Infix
/-!
# NetRing — records of 32 bytes in a buffer of 280

The ring as `network_init` configures it.  280 is no multiple of 32: the offsets go round in steps of eight, 35 of them
before the first comes again, and the full test fires only at 34 unread records, far more than 280 bytes hold.  A record
is written clear of the unread ones exactly when at most seven are unread, or eight and the write is past offset 256.
-/
namespace VirtualForce

open Memory Slots Circle Runs

theorem networkInit_holds (sfd fd : Int32) (fp : File) (buff : Mem UInt8) :
    Holds 32 280 0 (networkInit sfd fd fp buff).localBuff [] where
  at_ := ⟨rfl, rfl, rfl, rfl, by decide, by decide, by decide, by decide, by decide⟩
  short := by decide
  stored := stored_nil _ _

/-- **When a record is written clear of the unread ones**: `n` of them, the oldest at slot `a`. -/
theorem write_clear_iff {a n : Nat} (hn : n < 35) :
    (∀ k, k < n → slot 32 280 (a + k) + 32 ≤ slot 32 280 (a + n) ∨ slot 32 280 (a + n) + 32 ≤ slot 32 280 (a + k)) ↔
      n ≤ 7 ∨ (n = 8 ∧ 256 ≤ slot 32 280 (a + n)) := by
  -- up to eight steps on is less than a turn on
  have hon : ∀ k, k < n → n - k ≤ 8 → slot 32 280 (a + n) = if slot 32 280 (a + k) + (n - k) * 32 < 280
      then slot 32 280 (a + k) + (n - k) * 32 else slot 32 280 (a + k) + (n - k) * 32 - 280 := by
    intro k hk hnk
    have hlt := slot_lt (e := 32) (L := 280) (a + k) (by omega)
    rw [← mod_of_lt_two_mul (by omega), slot_from, show a + k + (n - k) = a + n by omega]
  constructor
  · intro h
    by_contra hne
    by_cases h8 : n = 8
    · have h0 := h 0 (by omega)
      have hon0 := hon 0 (by omega) (by omega)
      have hlt := slot_lt (e := 32) (L := 280) (a + 0) (by omega)
      split at hon0 <;> omega
    · -- nine back, or where that wraps eight back, is in the way
      have h9 := h (n - 9) (by omega)
      have h8 := h (n - 8) (by omega)
      have hon8 := hon (n - 8) (by omega) (by omega)
      have hnext := slot_succ 32 280 (a + (n - 9))
      rw [show a + (n - 9) + 1 = a + (n - 8) by omega, mod_of_lt_two_mul
        (by have := slot_lt (e := 32) (L := 280) (a + (n - 9)) (by omega); omega)] at hnext
      split at hon8 <;> split at hnext <;> omega
  · intro h k hk
    have honk := hon k hk (by omega)
    have hlt := slot_lt (e := 32) (L := 280) (a + k) (by omega)
    split at honk <;> omega

/-! ## What is done, in order -/

def Event.pushed? : Event → Option (List UInt8)
  | .pushed _ item => some item
  | _ => none

def Event.pulled? : Event → Option (List UInt8)
  | .pulled _ item => some item
  | _ => none

def pushedItems (log : List Event) : List (List UInt8) := log.filterMap Event.pushed?

def pulledItems (log : List Event) : List (List UInt8) := log.filterMap Event.pulled?

/-- The two threads, at the end of a critical section of either. -/
structure Threads where
  net : NetCircleBuff
  log : List Event

inductive ThreadAct where
  | arrive (bytes : List UInt8)
  | produce (tcpiState : UInt8) (freads : List (Option Interrupt))
  | process

def Threads.step (s : Threads) : ThreadAct → Option Threads
  | .arrive bytes => some { s with net := { s.net with fp := { s.net.fp with pending := s.net.fp.pending ++ bytes } } }
  | .produce tcpiState freads => match networkProducer s.net tcpiState freads with
    | .returned (net, events) => some ⟨net, s.log ++ events⟩
    | _ => none
  | .process => some ⟨(controllerMsgProcess s.net).1, s.log ++ (controllerMsgProcess s.net).2⟩

def Threads.unread (s : Threads) : Nat := (pushedItems s.log).length - (pulledItems s.log).length

/-- **A record that is about to be pushed is clear of the unread ones.** -/
def Threads.Clear (s : Threads) : ThreadAct → Prop
  | .produce tcpiState freads => tcpiState = 1 → isBuffFull s.net.localBuff.info = false →
      wholeRecord s.net.fp freads ≠ [] → s.unread ≤ 7 ∨ (s.unread = 8 ∧ 256 ≤ s.net.localBuff.info.tailIndexOffset.toInt)
  | _ => True

instance (s : Threads) (act : ThreadAct) : Decidable (s.Clear act) := by
  cases act <;> simp only [Threads.Clear] <;> infer_instance

section
variable (l l' : List Event) (o : Int32) (x : List UInt8)

@[simp] theorem pushedItems_nil : pushedItems [] = [] := rfl
@[simp] theorem pulledItems_nil : pulledItems [] = [] := rfl
@[simp] theorem pushedItems_buffFull : pushedItems (.buffFull :: l) = pushedItems l := rfl
@[simp] theorem pulledItems_buffFull : pulledItems (.buffFull :: l) = pulledItems l := rfl
@[simp] theorem pushedItems_pushed : pushedItems (.pushed o x :: l) = x :: pushedItems l := rfl
@[simp] theorem pulledItems_pushed : pulledItems (.pushed o x :: l) = pulledItems l := rfl
@[simp] theorem pushedItems_pulled : pushedItems (.pulled o x :: l) = pushedItems l := rfl
@[simp] theorem pulledItems_pulled : pulledItems (.pulled o x :: l) = x :: pulledItems l := rfl

@[simp] theorem pushedItems_append : pushedItems (l ++ l') = pushedItems l ++ pushedItems l' := List.filterMap_append

@[simp] theorem pulledItems_append : pulledItems (l ++ l') = pulledItems l ++ pulledItems l' := List.filterMap_append

end

section
variable {a : Nat} {r : Ring} {rest : List (List UInt8)}

/-- **A record pushed clear of the unread ones follows them.** -/
theorem Holds.push_clear (H : Holds 32 280 a r rest) (buffer : Mem UInt8) (hf : isBuffFull r.info = false)
    (hclear : rest.length ≤ 7 ∨ (rest.length = 8 ∧ 256 ≤ r.info.tailIndexOffset.toInt)) :
    Holds 32 280 a (pushCircleBuffItem r buffer).2 (rest ++ [slice buffer 0 clientBuffSize]) ∧
      pushEvents r buffer = [.pushed r.info.tailIndexOffset (slice buffer 0 clientBuffSize)] := by
  have hshort : rest.length < 35 := H.short
  have hslot : rest.length ≤ 7 ∨ (rest.length = 8 ∧ 256 ≤ slot 32 280 (a + rest.length)) := by
    have htail := H.at_.tail
    omega
  refine ⟨(H.push buffer hf ((write_clear_iff hshort).2 hslot)).2, ?_⟩
  have he : r.info.elementLength.toInt.toNat = clientBuffSize := by rw [H.at_.elem]; rfl
  simp only [pushEvents, hf, Bool.false_eq_true, if_false, he]

theorem Holds.pullEvents_cons {x : List UInt8} (H : Holds 32 280 a r (x :: rest)) :
    pullEvents r = [.pulled r.info.headIndexOffset x] := by
  have he : ¬ isBuffEmpty r.info = true := by rw [H.empty_iff]; simp
  have hx := H.stored.head
  rw [pullEvents, if_neg he, H.at_.elem, H.at_.head, Int.toNat_natCast, hx]

end

/-- **What is pushed and not pulled is in the ring**, from the slot on that as many pulls lead to. -/
def ThreadInv (rest : List (List UInt8)) (s : Threads) : Prop :=
  pushedItems s.log = pulledItems s.log ++ rest ∧ Holds 32 280 (pulledItems s.log).length s.net.localBuff rest

theorem ThreadInv.unread {rest : List (List UInt8)} {s : Threads} (I : ThreadInv rest s) : s.unread = rest.length := by
  rw [Threads.unread, I.1, List.length_append, Nat.add_sub_cancel_left]

/-- **Every critical section keeps the invariant**, a push being clear of the unread records. -/
theorem ThreadInv.step {rest : List (List UInt8)} {s s' : Threads} {act : ThreadAct} (I : ThreadInv rest s)
    (hclear : s.Clear act) (h : s.step act = some s') : ∃ rest', ThreadInv rest' s' := by
  obtain ⟨hlog, H⟩ := I
  cases act with
  | arrive bytes =>
    cases h
    exact ⟨rest, hlog, H⟩
  | produce tcpiState freads =>
    simp only [Threads.step] at h
    split at h
    · rename_i net events hprod
      cases h
      simp only [networkProducer] at hprod
      split at hprod
      · rename_i hst
        split at hprod
        · -- full
          cases hprod
          exact ⟨rest, by simpa using hlog, by simpa using H⟩
        · rename_i hfull
          rw [Bool.not_eq_true] at hfull
          obtain ⟨⟨ret, net', events'⟩, hread, hr⟩ := Outcome.map_eq_returned hprod
          cases hr
          rcases readData_cases hread with ⟨-, -, hring, rfl⟩ | ⟨-, buffer, hrec, hring, rfl⟩
          · -- no whole record
            refine ⟨rest, by simpa using hlog, ?_⟩
            rw [hring]
            simpa using H
          · have hroom := hclear hst hfull (by simp [hrec])
            rw [ThreadInv.unread ⟨hlog, H⟩] at hroom
            obtain ⟨H', hev⟩ := H.push_clear buffer hfull hroom
            refine ⟨rest ++ [slice buffer 0 clientBuffSize], ?_, ?_⟩
            · simp [hev, hlog]
            · rw [hring, hev]
              simpa using H'
      · -- not connected
        cases hprod
        exact ⟨rest, by simpa using hlog, by simpa using H⟩
    · cases h
  | process =>
    simp only [Threads.step, Option.some.injEq] at h
    subst h
    cases rest with
    | nil =>
      have hp : controllerMsgProcess s.net = (s.net, []) := by
        rw [controllerMsgProcess, if_pos (H.empty_iff.2 rfl)]
      exact ⟨[], by simpa [hp] using hlog, by simpa [hp] using H⟩
    | cons x xs =>
      have he : ¬ isBuffEmpty s.net.localBuff.info = true := by rw [H.empty_iff]; simp
      obtain ⟨-, -, H'⟩ := H.pull (fun _ => 0)
      have hpulled : pulledItems (s.log ++ (controllerMsgProcess s.net).2) = pulledItems s.log ++ [x] := by
        rw [controllerMsgProcess, if_neg he, H.pullEvents_cons]
        simp
      have hpushed : pushedItems (s.log ++ (controllerMsgProcess s.net).2) = pushedItems s.log := by
        rw [controllerMsgProcess, if_neg he, H.pullEvents_cons]
        simp
      refine ⟨xs, ?_, ?_⟩
      · rw [hpulled, hpushed, hlog, List.append_assoc, List.singleton_append]
      · rw [hpulled, List.length_append, List.length_singleton, controllerMsgProcess, if_neg he]
        exact H'

/-- **No record is lost, altered, doubled or out of order**: those pulled are a prefix of those pushed, and the rest are
in the ring, where the pulls to come read them. -/
structure ThreadSafe (s : Threads) : Prop where
  in_order : pulledItems s.log <+: pushedItems s.log
  kept : ∀ k (h : k < (pushedItems s.log).length), (pulledItems s.log).length ≤ k →
    slice s.net.localBuff.buff (k * 32 % 280 : Nat) 32 = (pushedItems s.log)[k]

theorem ThreadInv.safe {rest : List (List UInt8)} {s : Threads} (I : ThreadInv rest s) : ThreadSafe s where
  in_order := ⟨rest, I.1.symm⟩
  kept := fun k h hk => by
    have hlen := congrArg List.length I.1
    rw [List.length_append] at hlen
    have hstored := I.2.stored (k - (pulledItems s.log).length) (by omega)
    rw [List.getElem_of_eq I.1, List.getElem_append_right hk, ← hstored, Nat.add_sub_cancel' hk]
    rfl

/-- **The records pulled are a prefix of the records pushed while every record is pushed clear of the unread ones.** -/
theorem net_ring_in_order (sfd fd : Int32) (fp : File) (buff : Mem UInt8) (acts : List ThreadAct) (s : Threads)
    (hclear : Along Threads.step Threads.Clear ⟨networkInit sfd fd fp buff, []⟩ acts)
    (hrun : run Threads.step ⟨networkInit sfd fd fp buff, []⟩ acts = some s) : ThreadSafe s := by
  have I0 : ∃ rest, ThreadInv rest ⟨networkInit sfd fd fp buff, []⟩ := ⟨[], rfl, networkInit_holds sfd fd fp buff⟩
  obtain ⟨rest, I⟩ := run_inv_along (I := fun s => ∃ rest, ThreadInv rest s)
    (fun _ _ _ ⟨_, I⟩ hC hs => I.step hC hs) acts _ _ I0 hclear hrun
  exact I.safe

/-- Ten records arrive at once: nine are pushed, the ninth past the end, two are pulled, the tenth is pushed where they
were, and the other eight are pulled. -/
theorem net_ring_in_order_ten : ∃ s : Threads,
    run Threads.step ⟨networkInit 3 4 ⟨[], false, .other⟩ (fun _ => 0), []⟩
      (.arrive ((List.range 10).flatMap (fun i => List.replicate 32 (UInt8.ofNat i))) ::
        (List.replicate 9 (.produce 1 [none]) ++ [.process, .process, .produce 1 [none]] ++ List.replicate 8 .process)) =
        some s ∧ ThreadSafe s ∧ (pulledItems s.log).length = 10 :=
  exists_run_check (by decide +kernel) (fun s hs _ => net_ring_in_order _ _ _ _ _ s (by decide +kernel) hs)

/-- Ten records pushed before the first pull: the tenth is written over the first, which is pulled as eight of its own
bytes and 24 of the tenth's. -/
theorem net_ring_overrun : ¬ ∀ (acts : List ThreadAct) (s : Threads),
    run Threads.step ⟨networkInit 3 4 ⟨[], false, .other⟩ (fun _ => 0), []⟩ acts = some s →
      pulledItems s.log <+: pushedItems s.log := by
  intro h
  have hpulled : (run Threads.step ⟨networkInit 3 4 ⟨[], false, .other⟩ (fun _ => 0), []⟩
      (.arrive ((List.range 10).flatMap (fun i => List.replicate 32 (UInt8.ofNat i))) ::
        (List.replicate 10 (.produce 1 [none]) ++ [.process]))).map
      (fun s => (pulledItems s.log, decide (pulledItems s.log <+: pushedItems s.log))) =
        some ([List.replicate 8 0 ++ List.replicate 24 9], false) := by decide +kernel
  obtain ⟨s, hs, heq⟩ := Option.map_eq_some_iff.1 hpulled
  obtain ⟨-, hnot⟩ := Prod.mk.inj heq
  exact of_decide_eq_false hnot (h _ s hs)

end VirtualForce
