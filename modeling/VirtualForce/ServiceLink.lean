import VirtualForce.Register
import VirtualForce.ServiceCall
import VirtualForce.Controller
/-!
# ServiceLink — the service record beside the core that copies it

`Servo_Force_Comm_Set_Cmd` copies a record over `service_info` with no flag, and the core copies it out when it likes, a
word a step on either side.  A call with no parameter replaces the command alone, so the core reads it whole or not at
all; these are the calls a PC's commands make.  A call with a parameter can be read half placed.
-/
namespace VirtualForce

open Runs Register

/-- The words of `ServoCoreProcessCall_t`. -/
def ServoCoreProcessCall.words (c : ServoCoreProcessCall) : Fin 8 → Int32 := fun j =>
  match j.val with
  | 0 => c.cmd
  | 1 => c.param1
  | 2 => c.param2
  | 3 => c.param3
  | 4 => c.param4
  | 5 => c.param5
  | 6 => c.param6
  | _ => c.param7

/-- A page no call was placed in. -/
def noCall : ServoCoreProcessCall := ⟨0, 0, 0, 0, 0, 0, 0, 0⟩

namespace ServiceCall

/-- `app`, as the call hands it to `Servo_Force_Comm_Set_Cmd`. -/
def app : ServiceCall → ServoCoreProcessCall
  | .working => ServoCmd.call .working
  | .idle => ServoCmd.call .idle
  | .setFault => ServoCmd.call .setFault
  | .resetFault => ServoCmd.call .resetFault
  | .mode md sub => { ServoCmd.call .switchMode with param1 := md, param2 := sub }
  | .dignoseCfg ptr => { ServoCmd.call .switchMode with
    param1 := dignosePair (ptr 0) (ptr 1)
    param2 := dignosePair (ptr 2) (ptr 3)
    param3 := dignosePair (ptr 4) (ptr 5) }

theorem run_eq (m : ForceMem) (c : ServiceCall) : c.run m = servoForceCommSetCmd m c.app := by cases c <;> rfl

theorem app_cmd (c : ServiceCall) : c.app.cmd = c.cmd.code := by cases c <;> rfl

/-- The call carries no parameter. -/
def Bare (c : ServiceCall) : Prop := ∀ j : Fin 8, j.val ≠ 0 → c.app.words j = 0

end ServiceCall

inductive ServiceAct where
  | call (c : ServiceCall)
  | storeWord (j : Fin 8)
  | setCmdDone
  | coreLook (buf : Fin 8 → Int32)
  | coreWord (j : Fin 8)
  | coreDone

def ServiceAct.act : ServiceAct → Act Int32 8
  | .call c => .write c.app.words
  | .storeWord j => .writeWord j
  | .setCmdDone => .finish
  | .coreLook buf => .look buf
  | .coreWord j => .readWord j
  | .coreDone => .keep

abbrev ServiceReg := Reg Int32 8

namespace ServiceReg

def start (c : ServoCoreProcessCall) : ServiceReg := Reg.start c.words

def step (s : ServiceReg) (a : ServiceAct) : Option ServiceReg := Reg.step s a.act

theorem run_eq (s : ServiceReg) (acts : List ServiceAct) : run step s acts = run Reg.step s (acts.map ServiceAct.act) :=
  (run_map Reg.step ServiceAct.act s acts).symm

/-- **Uninterrupted, the steps of a call are the call.** -/
theorem run_call (s : ServiceReg) (m : ForceMem) (c : ServiceCall) (hidle : s.writer = .idle) :
    run step s (.call c :: ((List.finRange 8).map .storeWord ++ [.setCmdDone])) = some { s with
      words := (c.run m).serviceInfo.words
      written := s.written ++ [(c.run m).serviceInfo.words]
      finished := s.finished + 1 } := by
  rw [run_eq, List.map_cons, List.map_append, List.map_map, ServiceCall.run_eq]
  exact run_write s c.app.words hidle

/-- Steps of the register that begin only calls of `C` are steps of the link. -/
theorem exists_acts {C : Set ServiceCall} : ∀ {acts : List (Act Int32 8)},
    (∀ r, .write r ∈ acts → r ∈ (fun c : ServiceCall => c.app.words) '' C) →
    ∃ as : List ServiceAct, as.map ServiceAct.act = acts ∧ ∀ c, .call c ∈ as → c ∈ C
  | [], _ => ⟨[], rfl, fun _ h => nomatch h⟩
  | act :: acts, h => by
    obtain ⟨as, has, hC⟩ := exists_acts (fun r hr => h r (List.mem_cons_of_mem act hr))
    have hcons : ∀ a : ServiceAct, a.act = act → (∀ c, a = .call c → c ∈ C) →
        ∃ as : List ServiceAct, as.map ServiceAct.act = act :: acts ∧ ∀ c, .call c ∈ as → c ∈ C := by
      intro a ha hc
      refine ⟨a :: as, by rw [List.map_cons, ha, has], fun c hmem => ?_⟩
      rcases List.mem_cons.1 hmem with heq | hmem
      · exact hc c heq.symm
      · exact hC c hmem
    cases act with
    | write record =>
      obtain ⟨c, hc, hrecord⟩ := h record List.mem_cons_self
      exact hcons (.call c) (congrArg Act.write hrecord) (fun d hd => by cases hd; exact hc)
    | writeWord j => exact hcons (.storeWord j) rfl (fun _ hd => nomatch hd)
    | finish => exact hcons .setCmdDone rfl (fun _ hd => nomatch hd)
    | look buf => exact hcons (.coreLook buf) rfl (fun _ hd => nomatch hd)
    | readWord j => exact hcons (.coreWord j) rfl (fun _ hd => nomatch hd)
    | keep => exact hcons .coreDone rfl (fun _ hd => nomatch hd)

end ServiceReg

/-! ## Calls without parameters -/

theorem cmd_words (c : ServoCoreProcessCall) {j : Fin 8} (h : j.val = 0) : c.words j = c.cmd := by
  simp only [ServoCoreProcessCall.words, h]

theorem noCall_words (j : Fin 8) : noCall.words j = 0 := by
  unfold ServoCoreProcessCall.words noCall
  split <;> rfl

theorem ServoCmd.code_ne_zero (c : ServoCmd) : c.code ≠ 0 := by cases c <;> decide

/-- The calls of a link, with the empty record, two by two at most a word apart: there is no parameter. -/
theorem pairwise_iff_bare (C : Set ServiceCall) :
    (insert noCall.words ((fun c : ServiceCall => c.app.words) '' C)).Pairwise (fun r r' => hammingDist r r' ≤ 1) ↔
      ∀ c ∈ C, c.Bare := by
  constructor
  · intro h c hc j hj
    by_contra hne
    have hcmd : noCall.words ⟨0, by decide⟩ ≠ c.app.words ⟨0, by decide⟩ := by
      rw [noCall_words, cmd_words _ rfl, c.app_cmd]
      exact (ServoCmd.code_ne_zero c.cmd).symm
    have hdist := h (Set.mem_insert _ _) (Set.mem_insert_of_mem _ ⟨c, hc, rfl⟩) (fun heq => hcmd (congrFun heq _))
    have heq := eq_of_dist hdist hcmd (j := j) (fun h0 => hj (congrArg Fin.val h0))
    rw [noCall_words] at heq
    exact hne heq.symm
  · intro h
    have hzero : ∀ r ∈ insert noCall.words ((fun c : ServiceCall => c.app.words) '' C),
        ∀ j : Fin 8, j.val ≠ 0 → r j = 0 := by
      rintro r (rfl | ⟨c, hc, rfl⟩) j hj
      · exact noCall_words j
      · exact h c hc j hj
    intro r hr r' hr' _
    refine dist_le_one ⟨0, by decide⟩ (fun j hj => ?_)
    have hj0 : j.val ≠ 0 := fun h0 => hj (Fin.ext h0)
    rw [hzero r hr j hj0, hzero r' hr' j hj0]

/-- **The core reads every call whole, and in order, exactly when no call carries a parameter**: over every run of calls
from `C` from an empty record, each read is the record of a call in its window. -/
theorem service_reads_atomic_iff (C : Set ServiceCall) :
    (∀ (acts : List ServiceAct) (s : ServiceReg), (∀ c, .call c ∈ acts → c ∈ C) →
      run ServiceReg.step (ServiceReg.start noCall) acts = some s → s.Atomic) ↔ ∀ c ∈ C, c.Bare := by
  rw [← pairwise_iff_bare, ← atomic_iff]
  constructor
  · intro h acts s hacts hrun
    obtain ⟨as, has, hC⟩ := ServiceReg.exists_acts hacts
    exact h as s hC (by rw [ServiceReg.run_eq, has]; exact hrun)
  · intro h acts s hC hrun
    rw [ServiceReg.run_eq] at hrun
    refine h (acts.map ServiceAct.act) s (fun r hr => ?_) hrun
    obtain ⟨a, ha, har⟩ := List.mem_map.1 hr
    cases a with
    | call c =>
      cases har
      exact ⟨c, hC c ha, rfl⟩
    | _ => cases har

/-! ## What a PC's commands place -/

/-- The call `controller_msg_parase` makes for a command, where it makes one. -/
def ServiceCall.ofPc (cmd : PcCommCmd) : Option ServiceCall :=
  match ForceCmd.ofCode? cmd.cmd with
  | some .resetFault => some .resetFault
  | some .idle => some .idle
  | some .working => some .working
  | some .setFault => some .setFault
  | some .forceGiveStart => none
  | some .forceGiveStop => none
  | none => none

theorem controllerSwitch_serviceInfo (m : ForceMem) (cmd : PcCommCmd) : (controllerSwitch m cmd).serviceInfo =
    ((ServiceCall.ofPc cmd).map ServiceCall.app).getD m.serviceInfo := by
  unfold controllerSwitch ServiceCall.ofPc
  cases ForceCmd.ofCode? cmd.cmd with
  | none => rfl
  | some k => cases k <;> rfl

theorem ServiceCall.bare_of_ofPc {cmd : PcCommCmd} {c : ServiceCall} (h : ServiceCall.ofPc cmd = some c) : c.Bare := by
  have hcall : ∀ k : ServoCmd, ∀ j : Fin 8, j.val ≠ 0 → k.call.words j = 0 := by
    intro k j hj
    unfold ServoCoreProcessCall.words ServoCmd.call
    split
    · exact absurd ‹_› hj
    all_goals rfl
  unfold ServiceCall.ofPc at h
  split at h <;> cases h <;> exact hcall _

/-- The steps of the loop that dispatches a PC's commands, as far as they reach `service_info`, beside the core. -/
inductive DispatchAct where
  | switch (cmd : PcCommCmd)
  | storeWord (j : Fin 8)
  | setCmdDone
  | coreLook (buf : Fin 8 → Int32)
  | coreWord (j : Fin 8)
  | coreDone

namespace DispatchAct

def commands : DispatchAct → List PcCommCmd
  | .switch cmd => [cmd]
  | _ => []

def acts : DispatchAct → List (Act Int32 8)
  | .switch cmd => (ServiceCall.ofPc cmd).toList.map (fun c => .write c.app.words)
  | .storeWord j => [.writeWord j]
  | .setCmdDone => [.finish]
  | .coreLook buf => [.look buf]
  | .coreWord j => [.readWord j]
  | .coreDone => [.keep]

/-- A command is dispatched when the call before it has returned. -/
def step (s : ServiceReg) (a : DispatchAct) : Option ServiceReg :=
  match a, s.writer with
  | .switch _, .copying _ _ => none
  | _, _ => run Reg.step s a.acts

theorem run_of_step {s s' : ServiceReg} {a : DispatchAct} (h : step s a = some s') : run Reg.step s a.acts = some s' := by
  unfold step at h
  split at h
  · cases h
  · exact h

theorem begins_acts (a : DispatchAct) :
    a.acts.flatMap Act.begins = (a.commands.filterMap ServiceCall.ofPc).map (fun c => c.app.words) := by
  cases a with
  | switch cmd =>
    simp only [acts, commands, List.filterMap_cons, List.filterMap_nil]
    cases ServiceCall.ofPc cmd <;> rfl
  | _ => rfl

end DispatchAct

/-- **Over every run of the dispatcher beside the core, the core reads the commands whole and in order**: what is placed
is the calls of the commands dispatched, one after the other, and each read is one of them or the empty record. -/
theorem dispatched_reads_atomic (acts : List DispatchAct) (s : ServiceReg)
    (hrun : run DispatchAct.step (ServiceReg.start noCall) acts = some s) :
    s.Atomic ∧ s.written = noCall.words ::
      ((acts.flatMap DispatchAct.commands).filterMap ServiceCall.ofPc).map (fun c => c.app.words) := by
  have hreg := run_flatMap (fun _ _ _ h => DispatchAct.run_of_step h) acts _ _ hrun
  have hbegins : (acts.flatMap DispatchAct.acts).flatMap Act.begins =
      ((acts.flatMap DispatchAct.commands).filterMap ServiceCall.ofPc).map (fun c => c.app.words) := by
    rw [List.flatMap_assoc, List.filterMap_flatMap, List.map_flatMap]
    exact congrArg (fun f => acts.flatMap f) (funext DispatchAct.begins_acts)
  constructor
  · refine atomic_of_pairwise ((pairwise_iff_bare {c | c.Bare}).2 (fun c hc => hc)) (fun r hr => ?_) hreg
    have hmem : r ∈ (acts.flatMap DispatchAct.acts).flatMap Act.begins :=
      List.mem_flatMap.2 ⟨_, hr, List.mem_singleton_self r⟩
    rw [hbegins, List.mem_map] at hmem
    obtain ⟨c, hc, rfl⟩ := hmem
    obtain ⟨cmd, -, hcmd⟩ := List.mem_filterMap.1 hc
    exact ⟨c, ServiceCall.bare_of_ofPc hcmd, rfl⟩
  · rw [written_run _ _ _ hreg, hbegins]
    rfl

end VirtualForce
