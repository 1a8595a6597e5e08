import VirtualForce.Memory
import VirtualForce.Runs
/-!
# ShakeHand — the request, the core's answer, the connection

The communication area again, beside a core that stores what it likes where it likes.  `ShakeHand_Request` and
`ShakeHand_Bind` share word 0 with the core, and `ShakeHand_Bind` spins on it before it stores in word 3.  A bind is the
answer to the last request, as long as the area does not start with an answer in it; what `Get_State` reads is what the
core stored.
-/
namespace VirtualForce

open Memory Runs

def magicReqData : Int32 := Int32.ofNat 0xaa55aa55

def magicBindData : Int32 := Int32.ofNat 0x55aa55aa

def magicConnectData : Int32 := Int32.ofNat 0xa5a5a5a5

def servoForceCommShakeHandRequest (commInfo : Mem Int32) : Mem Int32 := set commInfo 0 magicReqData

/-- `Servo_Force_Comm_ShakeHand_Bind` on an area nobody else writes: its loop is left at once or never. -/
def servoForceCommShakeHandBind (commInfo : Mem Int32) : Option (Mem Int32) :=
  if commInfo 0 ≠ magicBindData then none else some (set commInfo 3 magicConnectData)

def servoForceCommGetState (commInfo : Mem Int32) : Int32 := commInfo 4

/-- Where the servo core is. -/
inductive ShakePc where
  | idle
  /-- in the loop of `ShakeHand_Bind` -/
  | spinning
  /-- past the loop -/
  | bound
  | incLoaded (v : Int32)
deriving DecidableEq

/-- The area and the servo core; `core` is the area with the stores of the force core alone, `answered` whether it has
stored the answer in word 0 since the last request, `connects` what `answered` was at each connection, and `states` what
each `Get_State` returned beside what the core stored. -/
structure ShakeHand where
  commInfo : Mem Int32
  servo : ShakePc
  core : Mem Int32
  answered : Bool
  connects : List Bool
  states : List (Int32 × Int32)

inductive ShakeAct where
  | request
  | bind
  | poll
  | connect
  | incLoad
  | incStore
  | getState
  | coreStore (i : Int) (v : Int32)

namespace ShakeHand

def startWith (commInfo : Mem Int32) : ShakeHand := ⟨commInfo, .idle, commInfo, false, [], []⟩

def step (s : ShakeHand) : ShakeAct → Option ShakeHand
  | .request => match s.servo with
    | .idle => some { s with commInfo := servoForceCommShakeHandRequest s.commInfo, answered := false }
    | _ => none
  | .bind => match s.servo with
    | .idle => some { s with servo := .spinning }
    | _ => none
  | .poll => match s.servo with
    | .spinning => if s.commInfo 0 ≠ magicBindData then some s else some { s with servo := .bound }
    | _ => none
  | .connect => match s.servo with
    | .bound => some { s with
        commInfo := set s.commInfo 3 magicConnectData
        servo := .idle
        connects := s.connects ++ [s.answered] }
    | _ => none
  | .incLoad => match s.servo with
    | .idle => some { s with servo := .incLoaded (s.commInfo 2) }
    | _ => none
  | .incStore => match s.servo with
    | .incLoaded v => some { s with commInfo := set s.commInfo 2 (v + 1), servo := .idle }
    | _ => none
  | .getState => match s.servo with
    | .idle => some { s with states := s.states ++ [(servoForceCommGetState s.commInfo, s.core 4)] }
    | _ => none
  | .coreStore i v => some { s with
      commInfo := set s.commInfo i v
      core := set s.core i v
      answered := s.answered || (i == 0 && v == magicBindData) }

/-- **Uninterrupted, `ShakeHand_Bind` is its steps** where it returns; where it does not, its loop goes on. -/
theorem run_bind (s : ShakeHand) (hidle : s.servo = .idle) : match servoForceCommShakeHandBind s.commInfo with
    | some commInfo => run step s [.bind, .poll, .connect] =
        some { s with commInfo := commInfo, connects := s.connects ++ [s.answered] }
    | none => ∀ n, run step s (.bind :: List.replicate n .poll) = some { s with servo := .spinning } := by
  unfold servoForceCommShakeHandBind
  by_cases hword : s.commInfo 0 = magicBindData
  · rw [if_neg (by rw [hword]; exact fun h => h rfl)]
    simp only [run_cons, run_nil, step, hidle, hword, ne_eq, not_true_eq_false, if_false, Option.bind_some]
  · rw [if_pos hword]
    intro n
    have hpoll : ∀ n, run step { s with servo := .spinning } (List.replicate n .poll) =
        some { s with servo := .spinning } := by
      intro n
      induction n with
      | zero => rfl
      | succ n ih =>
        rw [List.replicate_succ, run_cons]
        simp only [step, hword, ne_eq, not_false_eq_true, if_true, Option.bind_some]
        exact ih
    rw [run_cons]
    simp only [step, hidle, Option.bind_some]
    exact hpoll n

/-- **What no run breaks**: each connection was made after an answer to the last request, and each state read is what the
core stored. -/
structure Safe (s : ShakeHand) : Prop where
  connects : ∀ b ∈ s.connects, b = true
  states : ∀ g ∈ s.states, g.1 = g.2

/-- **The invariant**: an answer in word 0, or a loop left, is an answer to the last request; the words the servo core
does not write are the core's. -/
structure Inv (s : ShakeHand) : Prop where
  answer : s.commInfo 0 = magicBindData → s.answered = true
  bound : s.servo = .bound → s.answered = true
  frame : ∀ i, i ≠ 0 → i ≠ 2 → i ≠ 3 → s.commInfo i = s.core i
  safe : s.Safe

variable {s s' : ShakeHand}

theorem Inv.step {act : ShakeAct} (I : s.Inv) (h : s.step act = some s') : s'.Inv := by
  cases act with
  | request =>
    simp only [ShakeHand.step] at h
    split at h
    · rename_i hidle
      cases h
      refine ⟨fun hword => ?_, fun hb => ?_, fun i h0 h2 h3 => ?_, I.safe.1, I.safe.2⟩
      · simp only [servoForceCommShakeHandRequest, set_self] at hword
        exact absurd hword (by decide)
      · simp only [hidle] at hb
        cases hb
      · simp only [servoForceCommShakeHandRequest, set_of_ne _ _ h0]
        exact I.frame i h0 h2 h3
    · cases h
  | bind =>
    simp only [ShakeHand.step] at h
    split at h
    · cases h
      exact ⟨I.answer, (fun hb => nomatch hb), I.frame, I.safe.1, I.safe.2⟩
    · cases h
  | poll =>
    simp only [ShakeHand.step] at h
    split at h
    · split at h
      · cases h
        exact I
      · rename_i hword
        cases h
        exact ⟨I.answer, fun _ => I.answer (Classical.not_not.1 hword), I.frame, I.safe.1, I.safe.2⟩
    · cases h
  | connect =>
    simp only [ShakeHand.step] at h
    split at h
    · rename_i hbound
      cases h
      refine ⟨fun hword => ?_, (fun hb => nomatch hb), fun i h0 h2 h3 => ?_, fun b hb => ?_, I.safe.2⟩
      · dsimp only at hword
        rw [set_of_ne _ _ (by decide)] at hword
        exact I.answer hword
      · simp only [set_of_ne _ _ h3]
        exact I.frame i h0 h2 h3
      · rcases List.mem_append.1 hb with hb | hb
        · exact I.safe.1 b hb
        · rw [List.mem_singleton.1 hb]
          exact I.bound hbound
    · cases h
  | incLoad =>
    simp only [ShakeHand.step] at h
    split at h
    · cases h
      exact ⟨I.answer, (fun hb => nomatch hb), I.frame, I.safe.1, I.safe.2⟩
    · cases h
  | incStore =>
    simp only [ShakeHand.step] at h
    split at h
    · cases h
      refine ⟨fun hword => ?_, (fun hb => nomatch hb), fun i h0 h2 h3 => ?_, I.safe.1, I.safe.2⟩
      · dsimp only at hword
        rw [set_of_ne _ _ (by decide)] at hword
        exact I.answer hword
      · simp only [set_of_ne _ _ h2]
        exact I.frame i h0 h2 h3
    · cases h
  | getState =>
    simp only [ShakeHand.step] at h
    split at h
    · cases h
      refine ⟨I.answer, I.bound, I.frame, I.safe.1, fun g hg => ?_⟩
      rcases List.mem_append.1 hg with hg | hg
      · exact I.safe.2 g hg
      · rw [List.mem_singleton.1 hg]
        exact I.frame 4 (by decide) (by decide) (by decide)
    · cases h
  | coreStore i v =>
    cases h
    refine ⟨fun hword => ?_, fun hb => ?_, fun j h0 h2 h3 => ?_, I.safe.1, I.safe.2⟩
    · by_cases hi : i = 0
      · subst hi
        simp only [set_self] at hword
        simp [hword]
      · simp only [set_of_ne _ _ (Ne.symm hi)] at hword
        simp [I.answer hword]
    · simp [I.bound hb]
    · by_cases hj : j = i
      · subst hj
        simp only [set_self]
      · simp only [set_of_ne _ _ hj]
        exact I.frame j h0 h2 h3

end ShakeHand

/-- **A bind is the answer to the last request, in every run, exactly if the area does not start with an answer in it.** -/
theorem shake_hand_answered_iff (commInfo : Mem Int32) : (∀ (acts : List ShakeAct) (s : ShakeHand),
    run ShakeHand.step (.startWith commInfo) acts = some s → s.Safe) ↔ commInfo 0 ≠ magicBindData := by
  constructor
  · intro h hword
    have hrun := ShakeHand.run_bind (.startWith commInfo) rfl
    have hleft : ¬ (ShakeHand.startWith commInfo).commInfo 0 ≠ magicBindData := fun hne => hne hword
    rw [servoForceCommShakeHandBind, if_neg hleft] at hrun
    have hsafe := h _ _ hrun
    exact absurd (hsafe.connects false (List.mem_append_right _ (List.mem_singleton_self _))) (by decide)
  · intro hword acts s hrun
    have I0 : (ShakeHand.startWith commInfo).Inv :=
      ⟨fun h => absurd h hword, (fun h => nomatch h), fun _ _ _ _ => rfl, (fun _ h => nomatch h), (fun _ h => nomatch h)⟩
    exact (run_inv (fun _ _ _ I hs => ShakeHand.Inv.step I hs) acts _ _ I0 hrun).safe

end VirtualForce
