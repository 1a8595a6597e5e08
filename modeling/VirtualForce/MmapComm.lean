import Mathlib.Data.Set.Basic
import VirtualForce.ForceInterface
import VirtualForce.Runs
/-!
# MmapComm — which pages are there

`mmap_init` maps three of the pages of `MMAP_COMM_PTR_t`; the pointers to the others stay null, and
`Servo_Force_Comm_Init` takes all of them.  A process forked later has the pages of its parent; the handler of SIGINT
unmaps them and exits.  The calls that are safe in every process of every run are those on the three pages.
-/
namespace VirtualForce

open Runs

/-- `MMAP_COMM_PTR_t`; `none` is the null pointer. -/
structure MmapCommPtr where
  commPtr : Option Nat
  paraPtr : Option Nat
  cmdPtr : Option Nat
  cmdBakPtr : Option Nat
  insPtr : Option Nat
  statePtr : Option Nat
  resPtr : Option Nat
  monitorPtr : Option Nat
  virtualPtr : Option Nat

/-- What a process has mapped, each page with its physical address, and its `mmap_addr`. -/
structure Space where
  mmapAddr : MmapCommPtr
  mapped : List (Nat × Nat)

/-- What the system answers: the descriptor of `/dev/mem`, and the address of each mapping that does not fail. -/
structure MmapEnv where
  fd : Int32
  cmd : Option Nat
  monitor : Option Nat
  virtual : Option Nat

def servoCmdAddr : Nat := 0x3b001000

def forceMonitorAddr : Nat := 0x3b310000

def forceGivenVirAddr : Nat := 0x3b320000

namespace Space

def start : Space := ⟨⟨none, none, none, none, none, none, none, none, none⟩, []⟩

def map (s : Space) (ptr physical : Nat) : Space := { s with mapped := s.mapped ++ [(ptr, physical)] }

def munmap (s : Space) (ptr : Option Nat) : Space := { s with mapped := s.mapped.filter (fun p => some p.1 != ptr) }

def setCmd (s : Space) (ptr : Nat) : Space := { s with mmapAddr := { s.mmapAddr with cmdPtr := some ptr } }

def setMonitor (s : Space) (ptr : Nat) : Space := { s with mmapAddr := { s.mmapAddr with monitorPtr := some ptr } }

def setVirtual (s : Space) (ptr : Nat) : Space := { s with mmapAddr := { s.mmapAddr with virtualPtr := some ptr } }

end Space

/-- `mmap_init`: the process at its `exit(0)`, or once it returns. -/
def mmapInit (env : MmapEnv) : Except Space Space :=
  if env.fd < 0 then .error Space.start
  else match env.cmd with
    | none => .error Space.start
    | some cmd =>
      let s := (Space.start.map cmd servoCmdAddr).setCmd cmd
      match env.monitor with
      | none => .error (s.munmap s.mmapAddr.cmdPtr)
      | some monitor =>
        let s := (s.map monitor forceMonitorAddr).setMonitor monitor
        match env.virtual with
        | none => .error ((s.munmap s.mmapAddr.cmdPtr).munmap s.mmapAddr.monitorPtr)
        | some virtual => .ok ((s.map virtual forceGivenVirAddr).setVirtual virtual)

/-- `mmap_close`, after its first `n` statements. -/
def mmapClose (s : Space) (n : Nat) : Space :=
  ([s.mmapAddr.cmdPtr, s.mmapAddr.monitorPtr, s.mmapAddr.virtualPtr].take n).foldl Space.munmap s

/-- The process has the three pages, and pointers to these alone. -/
def Space.Three (s : Space) : Prop := ∃ cmd monitor virtual,
  s = ⟨⟨none, none, some cmd, none, none, none, none, some monitor, some virtual⟩,
    [(cmd, servoCmdAddr), (monitor, forceMonitorAddr), (virtual, forceGivenVirAddr)]⟩

/-- **`mmap_init` exits with nothing mapped, or returns with the three pages.** -/
theorem mmapInit_cases (env : MmapEnv) :
    (∃ s, mmapInit env = .error s ∧ s.mapped = []) ∨ ∃ s, mmapInit env = .ok s ∧ s.Three := by
  unfold mmapInit
  by_cases hfd : env.fd < 0
  · rw [if_pos hfd]
    exact .inl ⟨_, rfl, rfl⟩
  · rw [if_neg hfd]
    cases env.cmd with
    | none => exact .inl ⟨_, rfl, rfl⟩
    | some cmd =>
      cases env.monitor with
      | none => exact .inl ⟨_, rfl, by simp [Space.start, Space.map, Space.setCmd, Space.munmap]⟩
      | some monitor =>
        cases env.virtual with
        | none =>
          refine .inl ⟨_, rfl, ?_⟩
          simp [Space.start, Space.map, Space.setCmd, Space.setMonitor, Space.munmap, List.filter_cons]
        | some virtual => exact .inr ⟨_, rfl, cmd, monitor, virtual, rfl⟩

/-- **`mmap_close` leaves nothing mapped.** -/
theorem mmapClose_three {s : Space} (h : s.Three) : (mmapClose s 3).mapped = [] := by
  obtain ⟨cmd, monitor, virtual, rfl⟩ := h
  simp only [mmapClose, List.take, List.foldl, Space.munmap, List.filter_filter, List.filter_eq_nil_iff, List.mem_cons,
    List.not_mem_nil, or_false]
  rintro p (rfl | rfl | rfl) <;> simp

/-! ## The interface -/

/-- The static pointers of `force_interface.c`. -/
structure Interface where
  commInfo : Option Nat
  serviceInfo : Option Nat
  paraInfo : Option Nat
  instructInfo : Option Nat
  stateInfo : Option Nat
  backInfo : Option Nat
  monitorInfo : Option Nat
  virtualInfo : Option Nat

def servoForceCommInit (ptr : MmapCommPtr) : Interface where
  serviceInfo := ptr.cmdPtr
  commInfo := ptr.commPtr
  paraInfo := ptr.paraPtr
  stateInfo := ptr.statePtr
  backInfo := ptr.resPtr
  instructInfo := ptr.insPtr
  monitorInfo := ptr.monitorPtr
  virtualInfo := ptr.virtualPtr

/-- The functions of `force_interface.c` that use the pages. -/
inductive InterfaceCall where
  | getParaUpdateFlag
  | shakeHandRequest
  | shakeHandBind
  | getForceHeart
  | servoHeartInc
  | cmdWorking
  | cmdIdle
  | cmdMode
  | cmdSetFault
  | cmdResetFault
  | cmdDignoseCfg
  | setPara
  | setInstruct
  | getResult
  | discardResult
  | getState
  | monitorUpload
  | virtualDownload
  | virtualReset
deriving DecidableEq

/-- The pointers a call goes through. -/
def InterfaceCall.pointers (i : Interface) : InterfaceCall → List (Option Nat)
  | .getParaUpdateFlag => [i.paraInfo]
  | .shakeHandRequest => [i.commInfo]
  | .shakeHandBind => [i.commInfo]
  | .getForceHeart => [i.commInfo]
  | .servoHeartInc => [i.commInfo]
  | .cmdWorking => [i.serviceInfo]
  | .cmdIdle => [i.serviceInfo]
  | .cmdMode => [i.serviceInfo]
  | .cmdSetFault => [i.serviceInfo]
  | .cmdResetFault => [i.serviceInfo]
  | .cmdDignoseCfg => [i.serviceInfo]
  | .setPara => [i.paraInfo]
  | .setInstruct => [i.instructInfo]
  | .getResult => [i.backInfo]
  | .discardResult => []
  | .getState => [i.commInfo]
  | .monitorUpload => [i.monitorInfo]
  | .virtualDownload => [i.virtualInfo]
  | .virtualReset => [i.virtualInfo]

/-- The calls on the command page, the monitor page and the virtual page, and the empty one. -/
def InterfaceCall.OnThree : InterfaceCall → Prop
  | .cmdWorking | .cmdIdle | .cmdMode | .cmdSetFault | .cmdResetFault | .cmdDignoseCfg => True
  | .monitorUpload | .virtualDownload | .virtualReset | .discardResult => True
  | _ => False

instance (c : InterfaceCall) : Decidable c.OnThree := by
  unfold InterfaceCall.OnThree
  cases c <;> infer_instance

/-- A pointer into a page that is mapped. -/
def Space.Has (s : Space) (ptr : Option Nat) : Prop := ∃ p ∈ s.mapped, some p.1 = ptr

instance (s : Space) (ptr : Option Nat) : Decidable (s.Has ptr) := inferInstanceAs (Decidable (∃ p ∈ s.mapped, _))

/-- **On the three pages a call is safe exactly if it is on one of them.** -/
theorem pointers_mapped_iff {s : Space} (h : s.Three) (c : InterfaceCall) :
    (∀ ptr ∈ c.pointers (servoForceCommInit s.mmapAddr), s.Has ptr) ↔ c.OnThree := by
  obtain ⟨cmd, monitor, virtual, rfl⟩ := h
  cases c <;> simp [InterfaceCall.pointers, servoForceCommInit, Space.Has, InterfaceCall.OnThree]

/-! ## The processes -/

inductive ProcStatus where
  | running
  /-- in `sighandler`, `n` statements of `mmap_close` done -/
  | closing (n : Nat)
  | exited
  | killed
  | faulted
deriving DecidableEq

structure Proc where
  interface : Interface
  space : Space
  status : ProcStatus

inductive ProcAct where
  | call (i : Nat) (c : InterfaceCall)
  | fork (i : Nat)
  | sigint (i : Nat)
  | close (i : Nat)
  | exit (i : Nat)
  | kill (i : Nat)

namespace Proc

/-- The process, `mmap_init` and `Servo_Force_Comm_Init` returned. -/
def start (s : Space) : Proc := ⟨servoForceCommInit s.mmapAddr, s, .running⟩

def call (p : Proc) (c : InterfaceCall) : Option Proc :=
  if p.status = .running then
    if ∀ ptr ∈ c.pointers p.interface, p.space.Has ptr then some p else some { p with status := .faulted }
  else none

def sigint (p : Proc) : Option Proc := if p.status = .running then some { p with status := .closing 0 } else none

/-- One statement of `mmap_close`. -/
def close (p : Proc) : Option Proc :=
  match p.status with
  | .closing 0 => some { p with space := p.space.munmap p.space.mmapAddr.cmdPtr, status := .closing 1 }
  | .closing 1 => some { p with space := p.space.munmap p.space.mmapAddr.monitorPtr, status := .closing 2 }
  | .closing 2 => some { p with space := p.space.munmap p.space.mmapAddr.virtualPtr, status := .closing 3 }
  | _ => none

def exit (p : Proc) : Option Proc := if p.status = .closing 3 then some { p with status := .exited } else none

/-- It has touched no page that is not there, and has left none mapped if it is past its handler. -/
structure Safe (p : Proc) : Prop where
  no_fault : p.status ≠ .faulted
  unmapped : p.status = .exited → p.space.mapped = []

end Proc

/-- The processes, a fork adding one at the end. -/
def procStep (ps : List Proc) : ProcAct → Option (List Proc)
  | .call i c => (ps[i]?.bind (·.call c)).map (ps.set i)
  | .fork i => (ps[i]?.bind (fun p => if p.status = .running then some p else none)).map (fun p => ps ++ [p])
  | .sigint i => (ps[i]?.bind Proc.sigint).map (ps.set i)
  | .close i => (ps[i]?.bind Proc.close).map (ps.set i)
  | .exit i => (ps[i]?.bind Proc.exit).map (ps.set i)
  | .kill i => (ps[i]?).map (fun p => ps.set i { p with status := .killed })

/-- **The invariant of a process** of a program whose pages were `s`. -/
structure ProcInv (s : Space) (p : Proc) : Prop where
  interface : p.interface = servoForceCommInit s.mmapAddr
  no_fault : p.status ≠ .faulted
  running : p.status = .running → p.space = s
  closing : ∀ n, p.status = .closing n → n ≤ 3 ∧ p.space = mmapClose s n
  exited : p.status = .exited → p.space = mmapClose s 3

namespace ProcInv

variable {s : Space} {p p' : Proc}

theorem call (h : s.Three) (I : ProcInv s p) {c : InterfaceCall} (hc : c.OnThree) (hstep : p.call c = some p') :
    ProcInv s p' := by
  unfold Proc.call at hstep
  by_cases hrun : p.status = .running
  · have hmapped : ∀ ptr ∈ c.pointers p.interface, p.space.Has ptr := by
      rw [I.interface, I.running hrun]
      exact (pointers_mapped_iff h c).2 hc
    rw [if_pos hrun, if_pos hmapped] at hstep
    cases hstep
    exact I
  · rw [if_neg hrun] at hstep
    cases hstep

theorem sigint (I : ProcInv s p) (hstep : p.sigint = some p') : ProcInv s p' := by
  unfold Proc.sigint at hstep
  by_cases hrun : p.status = .running
  · rw [if_pos hrun] at hstep
    cases hstep
    refine ⟨I.interface, (fun h => nomatch h), (fun h => nomatch h), fun n hn => ?_, (fun h => nomatch h)⟩
    cases hn
    exact ⟨Nat.zero_le _, I.running hrun⟩
  · rw [if_neg hrun] at hstep
    cases hstep

theorem mmapClose_mmapAddr (s : Space) (n : Nat) : (mmapClose s n).mmapAddr = s.mmapAddr := by
  have hfold : ∀ (l : List (Option Nat)) (t : Space), (l.foldl Space.munmap t).mmapAddr = t.mmapAddr := by
    intro l
    induction l with
    | nil => exact fun t => rfl
    | cons ptr l ih => exact fun t => ih (t.munmap ptr)
  exact hfold _ s

theorem close (I : ProcInv s p) (hstep : p.close = some p') : ProcInv s p' := by
  have hone : ∀ n t, n < 3 → t = mmapClose s (n + 1) → ProcInv s { p with space := t, status := .closing (n + 1) } := by
    intro n t hn ht
    refine ⟨I.interface, (fun h => nomatch h), (fun h => nomatch h), fun m hm => ?_, (fun h => nomatch h)⟩
    cases hm
    exact ⟨hn, ht⟩
  unfold Proc.close at hstep
  split at hstep
  · rename_i hst
    cases hstep
    refine hone 0 _ (by decide) ?_
    rw [(I.closing 0 hst).2, mmapClose_mmapAddr]
    rfl
  · rename_i hst
    cases hstep
    refine hone 1 _ (by decide) ?_
    rw [(I.closing 1 hst).2, mmapClose_mmapAddr]
    rfl
  · rename_i hst
    cases hstep
    refine hone 2 _ (by decide) ?_
    rw [(I.closing 2 hst).2, mmapClose_mmapAddr]
    rfl
  · cases hstep

theorem exit (I : ProcInv s p) (hstep : p.exit = some p') : ProcInv s p' := by
  unfold Proc.exit at hstep
  by_cases hst : p.status = .closing 3
  · rw [if_pos hst] at hstep
    cases hstep
    exact ⟨I.interface, (fun h => nomatch h), (fun h => nomatch h), (fun _ h => nomatch h), fun _ => (I.closing 3 hst).2⟩
  · rw [if_neg hst] at hstep
    cases hstep

theorem killed (I : ProcInv s p) : ProcInv s { p with status := .killed } :=
  ⟨I.interface, (fun h => nomatch h), (fun h => nomatch h), (fun _ h => nomatch h), (fun h => nomatch h)⟩

theorem safe (h : s.Three) (I : ProcInv s p) : p.Safe where
  no_fault := I.no_fault
  unmapped := fun hst => by rw [I.exited hst]; exact mmapClose_three h

/-- **Every step keeps the invariant of every process**, where its call is on the three pages. -/
theorem step (h : s.Three) {ps ps' : List Proc} {act : ProcAct} (I : ∀ p ∈ ps, ProcInv s p)
    (hact : ∀ i c, act = .call i c → c.OnThree) (hstep : procStep ps act = some ps') : ∀ p ∈ ps', ProcInv s p := by
  have hset : ∀ (i : Nat) (f : Proc → Option Proc), (∀ p p', ProcInv s p → f p = some p' → ProcInv s p') →
      (ps[i]?.bind f).map (ps.set i) = some ps' → ∀ p ∈ ps', ProcInv s p := by
    intro i f hf hmap p hp
    rw [Option.map_eq_some_iff] at hmap
    obtain ⟨q', hq', rfl⟩ := hmap
    rw [Option.bind_eq_some_iff] at hq'
    obtain ⟨q, hq, hfq⟩ := hq'
    rcases List.mem_or_eq_of_mem_set hp with hp | rfl
    · exact I p hp
    · exact hf q _ (I q (List.mem_of_getElem? hq)) hfq
  cases act with
  | call i c => exact hset i (·.call c) (fun _ _ Iq hq => Iq.call h (hact i c rfl) hq) hstep
  | sigint i => exact hset i Proc.sigint (fun _ _ Iq hq => Iq.sigint hq) hstep
  | close i => exact hset i Proc.close (fun _ _ Iq hq => Iq.close hq) hstep
  | exit i => exact hset i Proc.exit (fun _ _ Iq hq => Iq.exit hq) hstep
  | fork i =>
    simp only [procStep, Option.map_eq_some_iff, Option.bind_eq_some_iff] at hstep
    obtain ⟨q, ⟨q', hq', hrun⟩, rfl⟩ := hstep
    intro p hp
    rcases List.mem_append.1 hp with hp | hp
    · exact I p hp
    · split at hrun
      · cases hrun
        rw [List.mem_singleton.1 hp]
        exact I _ (List.mem_of_getElem? hq')
      · cases hrun
  | kill i =>
    simp only [procStep, Option.map_eq_some_iff] at hstep
    obtain ⟨q, hq, rfl⟩ := hstep
    intro p hp
    rcases List.mem_or_eq_of_mem_set hp with hp | rfl
    · exact I p hp
    · exact (I q (List.mem_of_getElem? hq)).killed

end ProcInv

/-- **No process of any run touches a page that is not there, and each that exits through its handler has unmapped its
pages, exactly if the calls made are on the three pages**, whatever `mmap` answered. -/
theorem pages_mapped_iff (env : MmapEnv) (s : Space) (hinit : mmapInit env = .ok s) (K : Set InterfaceCall) :
    (∀ (acts : List ProcAct) (ps : List Proc), (∀ i c, .call i c ∈ acts → c ∈ K) →
      run procStep [Proc.start s] acts = some ps → ∀ p ∈ ps, p.Safe) ↔ ∀ c ∈ K, c.OnThree := by
  have hthree : s.Three := by
    rcases mmapInit_cases env with ⟨t, ht, -⟩ | ⟨t, ht, h3⟩
    · rw [hinit] at ht
      cases ht
    · rw [hinit] at ht
      cases ht
      exact h3
  constructor
  · intro h c hc
    by_contra hnot
    have hpointers := (pointers_mapped_iff hthree c).not.2 hnot
    have hcall : (Proc.start s).call c = some { Proc.start s with status := .faulted } := by
      have hrunning : (Proc.start s).status = .running := rfl
      unfold Proc.call
      rw [if_pos hrunning]
      exact if_neg hpointers
    have hrun : run procStep [Proc.start s] [.call 0 c] = some [{ Proc.start s with status := .faulted }] := by
      simp only [run_cons, run_nil, procStep, List.getElem?_cons_zero, Option.bind_some, hcall, Option.map_some, List.set]
    refine (h _ _ (fun i d hd => ?_) hrun _ (List.mem_singleton_self _)).no_fault rfl
    cases List.mem_singleton.1 hd
    exact hc
  · intro hK acts ps hacts hrun p hp
    have hstart : ∀ p ∈ [Proc.start s], ProcInv s p := by
      intro p hp
      rw [List.mem_singleton.1 hp]
      exact ⟨rfl, (fun h => nomatch h), (fun _ => rfl), (fun _ h => nomatch h), (fun h => nomatch h)⟩
    have halong : Along procStep (fun _ a => ∀ i c, a = ProcAct.call i c → c.OnThree) [Proc.start s] acts :=
      along_of_forall_mem (fun _ a ha i c hac => hK c (hacts i c (hac ▸ ha)))
    exact (run_inv_along (I := fun ps => ∀ p ∈ ps, ProcInv s p)
      (fun _ _ _ I hC hs => ProcInv.step hthree I hC hs) acts _ _ hstart halong hrun p hp).safe hthree

/-- The call the dispatcher makes for a command. -/
def ForceCmd.interfaceCall : ForceCmd → InterfaceCall
  | .resetFault => .cmdResetFault
  | .idle => .cmdIdle
  | .working => .cmdWorking
  | .setFault => .cmdSetFault
  | .forceGiveStart => .virtualDownload
  | .forceGiveStop => .virtualDownload

/-- The calls of the program: those of the dispatcher, and the display's. -/
def programCalls : Set InterfaceCall := insert .monitorUpload (Set.range ForceCmd.interfaceCall)

theorem pages_mapped_iff_program :
    (∀ (acts : List ProcAct) (ps : List Proc), (∀ i c, .call i c ∈ acts → c ∈ programCalls) →
      run procStep [Proc.start ⟨⟨none, none, some 1, none, none, none, none, some 2, some 3⟩,
        [(1, servoCmdAddr), (2, forceMonitorAddr), (3, forceGivenVirAddr)]⟩] acts = some ps → ∀ p ∈ ps, p.Safe) ↔
      ∀ c ∈ programCalls, c.OnThree :=
  pages_mapped_iff ⟨3, some 1, some 2, some 3⟩ _ rfl programCalls

end VirtualForce
