import VirtualForce.Memory
import VirtualForce.Runs
/-!
# Heartbeat — two heartbeats in one word

The words of the communication area, and the servo core beside the force core.  The header gives each core a word;
`Servo_Force_Comm_ServoHeart_Inc` increments the one that `Servo_Force_Comm_Get_ForceHeart` reads, so that a force core
which has stopped seems to count.
-/
namespace VirtualForce

open Memory Runs

/-- `SERVO_CORE_HEART`, in words from the start of the area. -/
def servoCoreHeart : Int := (0x3b000004 - 0x3b000000) / 4

/-- `FORCE_CORE_HEART`, in words from the start of the area. -/
def forceCoreHeart : Int := (0x3b000008 - 0x3b000000) / 4

def servoForceCommGetForceHeart (commInfo : Mem Int32) : Int32 := commInfo 2

def servoForceCommServoHeartInc (commInfo : Mem Int32) : Mem Int32 := set commInfo 2 (commInfo 2 + 1)

/-- The area, the value an increment under way has loaded, the increments completed, what the force core stored last
(or found there), and what each `Get_ForceHeart` returned beside that. -/
structure Heartbeat where
  commInfo : Mem Int32
  loaded : Option Int32
  incs : Nat
  stored : Int32
  gets : List (Int32 × Int32)

/-- A store is one step and so is a load; the calls of the servo core are one after the other. -/
inductive HeartAct where
  | incLoad
  | incStore
  | get
  | coreStore (v : Int32)
deriving DecidableEq

namespace Heartbeat

def startWith (commInfo : Mem Int32) : Heartbeat := ⟨commInfo, none, 0, commInfo forceCoreHeart, []⟩

def step (s : Heartbeat) : HeartAct → Option Heartbeat
  | .incLoad => match s.loaded with
    | none => some { s with loaded := some (s.commInfo 2) }
    | some _ => none
  | .incStore => match s.loaded with
    | none => none
    | some v => some { s with commInfo := set s.commInfo 2 (v + 1), loaded := none, incs := s.incs + 1 }
  | .get => match s.loaded with
    | none => some { s with gets := s.gets ++ [(servoForceCommGetForceHeart s.commInfo, s.stored)] }
    | some _ => none
  | .coreStore v => some { s with commInfo := set s.commInfo forceCoreHeart v, stored := v }

/-- **An increment the core does not interrupt is the call.** -/
theorem run_inc (s : Heartbeat) (h : s.loaded = none) : run step s [.incLoad, .incStore] =
    some { s with commInfo := servoForceCommServoHeartInc s.commInfo, incs := s.incs + 1 } := by
  simp only [run_cons, step, h, Option.bind_some, run_nil]
  rfl

/-- **The heartbeats are independent so far**, in an area that held `commInfo`. -/
structure Apart (commInfo : Mem Int32) (s : Heartbeat) : Prop where
  got : ∀ g ∈ s.gets, g.1 = g.2
  servo : s.commInfo servoCoreHeart = commInfo servoCoreHeart + Int32.ofNat s.incs
  force : s.commInfo forceCoreHeart = s.stored
  others : ∀ i, i ≠ servoCoreHeart → i ≠ forceCoreHeart → s.commInfo i = commInfo i

/-! ## What a step writes -/

variable {s s' : Heartbeat}

/-- **No step writes a word but that of the force core**, an increment no other. -/
theorem step_commInfo {act : HeartAct} (h : s.step act = some s') {i : Int} (hi : i ≠ forceCoreHeart) :
    s'.commInfo i = s.commInfo i := by
  cases act with
  | incLoad | get =>
    simp only [step] at h
    split at h <;> cases h
    rfl
  | incStore =>
    simp only [step] at h
    split at h <;> cases h
    exact set_of_ne _ _ hi
  | coreStore v =>
    cases h
    exact set_of_ne _ _ hi

theorem run_commInfo {commInfo : Mem Int32} {acts : List HeartAct} (h : run step (startWith commInfo) acts = some s)
    {i : Int} (hi : i ≠ forceCoreHeart) : s.commInfo i = commInfo i := by
  have hstep : ∀ (u : Heartbeat) (a : HeartAct) (u' : Heartbeat), u.commInfo i = commInfo i → u.step a = some u' →
      u'.commInfo i = commInfo i := fun u a u' hu hs => (step_commInfo hs hi).trans hu
  exact run_inv hstep acts (startWith commInfo) s rfl h

/-- What no step but the store of an increment breaks. -/
structure Quiet (s : Heartbeat) : Prop where
  incs : s.incs = 0
  force : s.commInfo forceCoreHeart = s.stored
  got : ∀ g ∈ s.gets, g.1 = g.2

theorem Quiet.step {act : HeartAct} (Q : s.Quiet) (hact : act ≠ .incStore) (h : s.step act = some s') : s'.Quiet := by
  cases act with
  | incStore => exact absurd rfl hact
  | incLoad =>
    simp only [Heartbeat.step] at h
    split at h <;> cases h
    exact ⟨Q.incs, Q.force, Q.got⟩
  | coreStore v =>
    cases h
    exact ⟨Q.incs, set_self s.commInfo forceCoreHeart v, Q.got⟩
  | get =>
    simp only [Heartbeat.step] at h
    split at h <;> cases h
    refine ⟨Q.incs, Q.force, fun g hg => ?_⟩
    rcases List.mem_append.1 hg with hold | hnew
    · exact Q.got g hold
    · obtain rfl := List.mem_singleton.1 hnew
      exact Q.force

theorem Quiet.run {acts : List HeartAct} (Q : s.Quiet) (hacts : HeartAct.incStore ∉ acts)
    (h : run Heartbeat.step s acts = some s') : s'.Quiet := by
  have hstep : ∀ (u : Heartbeat) (a : HeartAct) (u' : Heartbeat), u.Quiet → a ≠ .incStore → u.step a = some u' →
      u'.Quiet := fun _ _ _ hu ha hs => hu.step ha hs
  have halong : Along Heartbeat.step (fun _ a => a ≠ HeartAct.incStore) s acts :=
    along_of_forall_mem (fun u a ha => ne_of_mem_of_not_mem ha hacts)
  exact run_inv_along hstep acts s s' Q halong h

theorem Quiet.apart {commInfo : Mem Int32} {acts : List HeartAct} (Q : s.Quiet)
    (h : Runs.run Heartbeat.step (startWith commInfo) acts = some s) : Apart commInfo s where
  got := Q.got
  servo := by
    rw [run_commInfo h (by decide), Q.incs]
    exact (Int32.add_zero _).symm
  force := Q.force
  others _ _ hi := run_commInfo h hi

/-- **The increment that completes first shows**: the word of the servo core has not grown. -/
theorem not_apart_of_inc {commInfo : Mem Int32} {acts : List HeartAct} (hacts : HeartAct.incStore ∉ acts)
    (h : Runs.run Heartbeat.step (startWith commInfo) (acts ++ [.incStore]) = some s) : ¬ Apart commInfo s := by
  intro A
  have hservo := A.servo
  rw [run_commInfo h (by decide)] at hservo
  rw [run_append] at h
  obtain ⟨u, hu, hlast⟩ := Option.bind_eq_some_iff.1 h
  have hstart : (startWith commInfo).Quiet := ⟨rfl, rfl, fun g hg => absurd hg List.not_mem_nil⟩
  have hincs : s.incs = 1 := by
    obtain ⟨t, ht, hend⟩ := run_cons_eq_some hlast
    rw [run_nil, Option.some.injEq] at hend
    subst hend
    simp only [Heartbeat.step] at ht
    split at ht <;> cases ht
    rw [(hstart.run hacts hu).incs]
  rw [hincs] at hservo
  exact absurd (Int32.left_eq_add.1 hservo) (by decide)

end Heartbeat

/-- **The heartbeats are independent in every state of a run exactly if it completes no `ServoHeart_Inc`**, from any
content of the area. -/
theorem hearts_apart_iff (commInfo : Mem Int32) (acts : List HeartAct) (s : Heartbeat)
    (h : run Heartbeat.step (Heartbeat.startWith commInfo) acts = some s) :
    (∀ as, as <+: acts → ∀ t, run Heartbeat.step (Heartbeat.startWith commInfo) as = some t → t.Apart commInfo) ↔
      HeartAct.incStore ∉ acts := by
  constructor
  · intro hall hmem
    obtain ⟨as, bs, rfl, hfirst⟩ := List.eq_append_cons_of_mem hmem
    have hpre : as ++ [HeartAct.incStore] <+: as ++ HeartAct.incStore :: bs :=
      ⟨bs, by rw [List.append_assoc, List.singleton_append]⟩
    obtain ⟨rest, hrest⟩ := hpre
    rw [← hrest, run_append] at h
    obtain ⟨t, ht, -⟩ := Option.bind_eq_some_iff.1 h
    exact Heartbeat.not_apart_of_inc hfirst ht (hall _ ⟨rest, hrest⟩ t ht)
  · intro hno as has t ht
    have hstart : (Heartbeat.startWith commInfo).Quiet := ⟨rfl, rfl, fun g hg => absurd hg List.not_mem_nil⟩
    exact (hstart.run (fun hmem => hno (has.subset hmem)) ht).apart ht

/-- The core stores 5, and `Get_ForceHeart` is called. -/
theorem hearts_apart_iff_alive :
    (∀ as, as <+: [HeartAct.coreStore 5, .get] → ∀ t,
      run Heartbeat.step (Heartbeat.startWith (fun _ => 0)) as = some t → t.Apart (fun _ => 0)) ↔
        HeartAct.incStore ∉ [HeartAct.coreStore 5, .get] :=
  hearts_apart_iff (fun _ => 0) [.coreStore 5, .get] _ rfl

/-- A core that never stores, one increment, and the heartbeat read is 1. -/
theorem dead_core_counts : ¬ ∀ (commInfo : Mem Int32) (acts : List HeartAct) (s : Heartbeat),
    run Heartbeat.step (Heartbeat.startWith commInfo) acts = some s → s.Apart commInfo := by
  intro h
  have A := h (fun _ => 0) [.incLoad, .incStore, .get] _ rfl
  exact absurd (A.got (1, 0) (by decide)) (by decide)

end VirtualForce
