import VirtualForce.ChildPid
/-!
# DisplayChild — one display child, and the handler of SIGINT

The loop of the parent a statement at a time, its children that may exit whenever they like, and one SIGINT.  The handler
kills the pid that `main` has; between `fork` in `network_rcv` and the assignment in `main` that is the pid of the child
before.
-/
namespace VirtualForce

open Runs

/-- The next statement of the parent, in `main` or in `network_rcv`. -/
inductive Statement where
  | ignoreChild
  | takePid
  | getsockopt
  | readData
  | kill
  | close
  | accept
  | fdopen
  | fork
  | returnPid
  | assignPid
  | parse
  | usleep
deriving DecidableEq

/-- The next statement of `sighandler`. -/
inductive Handling where
  | kill
  | mmapClose
  | exit
deriving DecidableEq

inductive Status where
  | running
  | handling (next : Handling)
  | handlerExited
  | exited
deriving DecidableEq

/-- The parent and its display children: `pidChild` of `main`, the static `pid` of `network_rcv`, and the children that
are alive: neither exited nor sent SIGKILL. -/
structure Family where
  status : Status
  next : Statement
  pidChild : Int32
  pid : Int32
  alive : List Int32

/-- What the system answers to a statement. -/
structure Answer where
  tcpiState : UInt8
  readExits : Bool
  fdopened : Bool
  forkPid : Int32

inductive FamilyAct where
  | execute (answer : Answer)
  | childExit (pid : Int32)
  | sigint
  | handle

namespace Family

/-- The parent once its handler is installed, `main` having forked `pid0`. -/
def start (pid0 : Int32) : Family := ⟨.running, .ignoreChild, pid0, 0, [pid0]⟩

/-- `kill(pid, SIGKILL)`, which only sends the signal: from here on the child is not counted alive. -/
def kill (s : Family) (pid : Int32) : Family := { s with alive := s.alive.filter (· ≠ pid) }

/-- One statement of the parent.  A `fork` that succeeds returns a positive pid that no child alive has. -/
def execute (s : Family) (answer : Answer) : Option Family :=
  match s.next with
  | .ignoreChild => some { s with next := .takePid }
  | .takePid => some { s with pid := s.pidChild, next := .getsockopt }
  | .getsockopt => some { s with next := if answer.tcpiState = 1 then .readData else .kill }
  | .readData => if answer.readExits then some { s with status := .exited } else some { s with next := .returnPid }
  | .kill => some { s.kill s.pid with next := .close }
  | .close => some { s with next := .accept }
  | .accept => some { s with next := .fdopen }
  | .fdopen => if answer.fdopened then some { s with next := .fork } else some { s with status := .exited }
  | .fork =>
    if 0 < answer.forkPid ∧ answer.forkPid ∉ s.alive then
      some { s with pid := answer.forkPid, alive := s.alive ++ [answer.forkPid], next := .returnPid }
    else none
  | .returnPid => some { s with next := .assignPid }
  | .assignPid => some { s with pidChild := s.pid, next := .parse }
  | .parse => some { s with next := .usleep }
  | .usleep => some { s with next := .takePid }

def step (s : Family) : FamilyAct → Option Family
  | .execute answer => match s.status with
    | .running => s.execute answer
    | _ => none
  | .childExit pid => if pid ∈ s.alive then some (s.kill pid) else none
  | .sigint => match s.status with
    | .running => some { s with status := .handling .kill }
    | _ => none
  | .handle => match s.status with
    | .handling .kill => some { s.kill s.pidChild with status := .handling .mmapClose }
    | .handling .mmapClose => some { s with status := .handling .exit }
    | .handling .exit => some { s with status := .handlerExited }
    | _ => none

/-- `fork` has returned in `network_rcv`, and `main` has not its pid yet. -/
def Unassigned (s : Family) : Prop := (s.next = .returnPid ∨ s.next = .assignPid) ∧ s.pid ≠ s.pidChild

/-- **SIGINT does not come between `fork` and the assignment of its pid in `main`.** -/
def Assigned (s : Family) : FamilyAct → Prop
  | .sigint => ¬ s.Unassigned
  | _ => True

instance (s : Family) (act : FamilyAct) : Decidable (s.Assigned act) := by
  unfold Assigned Unassigned
  cases act <;> infer_instance

end Family

/-! ## An iteration that nothing interrupts -/

def RcvEnv.answer (env : RcvEnv) : Answer := ⟨env.tcpiState, false, env.fdopen.isSome, env.forkPid⟩

/-- The statements of an iteration, from `network_rcv` on. -/
def iteration (env : RcvEnv) : List FamilyAct := List.replicate (if env.tcpiState = 1 then 7 else 11) (.execute env.answer)

theorem Family.run_execute {s s' : Family} {answer : Answer} (hrunning : s.status = .running)
    (h : s.execute answer = some s') (n : Nat) :
    run step s (List.replicate (n + 1) (.execute answer)) = run step s' (List.replicate n (.execute answer)) := by
  rw [List.replicate_succ, run_cons]
  simp only [Family.step, hrunning, h, Option.bind_some]

/-- **The statements together are an iteration of the loop**, as far as the children and `main`'s pid. -/
theorem run_iteration {net net' : NetCircleBuff} {env : RcvEnv} {pid' : Int32} {events : List Event} (s : Family)
    (hrunning : s.status = .running) (hnext : s.next = .takePid)
    (h : networkRcv net s.pidChild env = .returned (pid', net', events))
    (hfork : env.tcpiState ≠ 1 → 0 < env.forkPid ∧ env.forkPid ∉ (s.kill s.pidChild).alive) : ∃ s',
    run Family.step s (iteration env) = some s' ∧ s'.status = .running ∧ s'.next = .takePid ∧ s'.pidChild = pid' ∧
      s'.alive = if env.tcpiState = 1 then s.alive else (s.kill s.pidChild).alive ++ [pid'] := by
  have hpid := networkRcv_pid h
  obtain ⟨status, next, pidChild, pid, alive⟩ := s
  obtain rfl : status = .running := hrunning
  obtain rfl : next = .takePid := hnext
  unfold iteration
  by_cases hst : env.tcpiState = 1
  · rw [if_pos hst] at hpid ⊢
    refine ⟨⟨.running, .takePid, pidChild, pidChild, alive⟩, ?_, rfl, rfl, hpid.symm, by rw [if_pos hst]⟩
    have hread : Family.execute ⟨.running, .getsockopt, pidChild, pidChild, alive⟩ env.answer =
        some ⟨.running, .readData, pidChild, pidChild, alive⟩ := by
      simp only [Family.execute, RcvEnv.answer, hst, if_true]
    rw [Family.run_execute rfl rfl, Family.run_execute rfl hread]
    rfl
  · rw [if_neg hst] at hpid ⊢
    obtain ⟨rfl, -⟩ := hpid
    have hfp : env.fdopen.isSome = true := by
      rw [networkRcv, if_neg hst] at h
      obtain ⟨fp, hfp, -⟩ := rcvReconnect_returned h
      rw [hfp]
      rfl
    refine ⟨⟨.running, .takePid, env.forkPid, env.forkPid, alive.filter (· ≠ pidChild) ++ [env.forkPid]⟩, ?_, rfl, rfl, rfl,
      by rw [if_neg hst]; rfl⟩
    have hgone : Family.execute ⟨.running, .getsockopt, pidChild, pidChild, alive⟩ env.answer =
        some ⟨.running, .kill, pidChild, pidChild, alive⟩ := by
      simp only [Family.execute, RcvEnv.answer, hst, if_false]
    have hkill : Family.execute ⟨.running, .kill, pidChild, pidChild, alive⟩ env.answer =
        some ⟨.running, .close, pidChild, pidChild, alive.filter (· ≠ pidChild)⟩ := rfl
    have hopened : Family.execute ⟨.running, .fdopen, pidChild, pidChild, alive.filter (· ≠ pidChild)⟩ env.answer =
        some ⟨.running, .fork, pidChild, pidChild, alive.filter (· ≠ pidChild)⟩ := by
      simp only [Family.execute, RcvEnv.answer, hfp, if_true]
    have hforked : Family.execute ⟨.running, .fork, pidChild, pidChild, alive.filter (· ≠ pidChild)⟩ env.answer =
        some ⟨.running, .returnPid, pidChild, env.forkPid, alive.filter (· ≠ pidChild) ++ [env.forkPid]⟩ :=
      if_pos (hfork hst)
    calc run Family.step ⟨.running, .takePid, pidChild, pid, alive⟩ (List.replicate 11 (.execute env.answer))
      _ = run Family.step ⟨.running, .getsockopt, pidChild, pidChild, alive⟩ (List.replicate 10 (.execute env.answer)) :=
        Family.run_execute rfl rfl 10
      _ = run Family.step ⟨.running, .close, pidChild, pidChild, alive.filter (· ≠ pidChild)⟩
          (List.replicate 8 (.execute env.answer)) := by
        rw [Family.run_execute rfl hgone, Family.run_execute rfl hkill]
      _ = run Family.step ⟨.running, .fdopen, pidChild, pidChild, alive.filter (· ≠ pidChild)⟩
          (List.replicate 6 (.execute env.answer)) := rfl
      _ = run Family.step ⟨.running, .returnPid, pidChild, env.forkPid, alive.filter (· ≠ pidChild) ++ [env.forkPid]⟩
          (List.replicate 4 (.execute env.answer)) := by
        rw [Family.run_execute rfl hopened, Family.run_execute rfl hforked]
      _ = some ⟨.running, .takePid, env.forkPid, env.forkPid, alive.filter (· ≠ pidChild) ++ [env.forkPid]⟩ := rfl

/-! ## One child at a time -/

/-- Nobody, or only this child. -/
def Sole (alive : List Int32) (pid : Int32) : Prop := alive = [] ∨ alive = [pid]

theorem Sole.filter {alive : List Int32} {pid : Int32} (h : Sole alive pid) (p : Int32 → Bool) : Sole (alive.filter p) pid := by
  rcases h with rfl | rfl
  · exact .inl rfl
  · rw [Sole, List.filter_singleton]
    cases p pid
    · exact .inl rfl
    · exact .inr rfl

theorem Sole.length_le {alive : List Int32} {pid : Int32} (h : Sole alive pid) : alive.length ≤ 1 := by
  rcases h with rfl | rfl
  · exact Nat.zero_le 1
  · exact Nat.le_refl 1

theorem Sole.kill {alive : List Int32} {pid : Int32} (h : Sole alive pid) : alive.filter (· ≠ pid) = [] := by
  rcases h with rfl | rfl
  · rfl
  · simp

namespace Family

/-- **Whose child may be alive** before a statement: `main`'s, that of `network_rcv`, or nobody's between `kill` and
`fork`. -/
def Tracks (s : Family) : Prop :=
  match s.next with
  | .ignoreChild | .takePid | .parse | .usleep => Sole s.alive s.pidChild
  | .getsockopt | .readData | .kill => s.pid = s.pidChild ∧ Sole s.alive s.pidChild
  | .close | .accept | .fdopen | .fork => s.alive = []
  | .returnPid | .assignPid => Sole s.alive s.pid

theorem Tracks.kill {s : Family} (T : s.Tracks) (pid : Int32) : (s.kill pid).Tracks := by
  unfold Tracks at T ⊢
  cases hn : s.next <;> simp only [hn, Family.kill] at T ⊢
  case close | accept | fdopen | fork => rw [T]; rfl
  case getsockopt | readData | kill => exact ⟨T.1, T.2.filter _⟩
  all_goals exact T.filter _

/-- **At most one child is alive.** -/
theorem Tracks.length_le {s : Family} (T : s.Tracks) : s.alive.length ≤ 1 := by
  unfold Tracks at T
  cases hn : s.next <;> simp only [hn] at T
  case close | accept | fdopen | fork => simp [T]
  case getsockopt | readData | kill => exact T.2.length_le
  all_goals exact T.length_le

/-- The child alive is `main`'s, unless `main` has not its pid yet. -/
theorem Tracks.sole {s : Family} (T : s.Tracks) (h : ¬ s.Unassigned) : Sole s.alive s.pidChild := by
  unfold Tracks at T
  unfold Unassigned at h
  cases hn : s.next <;> simp only [hn] at T h
  case close | accept | fdopen | fork => exact .inl T
  case getsockopt | readData | kill => exact T.2
  case returnPid | assignPid =>
    have hpid : s.pid = s.pidChild := by simpa using h
    rwa [← hpid]
  all_goals exact T

theorem Tracks.sole_pid {s : Family} (T : s.Tracks) (h : s.Unassigned) : Sole s.alive s.pid := by
  unfold Tracks at T
  rcases h.1 with hn | hn
  · rwa [hn] at T
  · rwa [hn] at T

/-- **A statement keeps track of the child**, or leaves the process. -/
theorem Tracks.execute {s s' : Family} {answer : Answer} (T : s.Tracks) (h : s.execute answer = some s') :
    (s'.status = s.status ∧ s'.Tracks) ∨ (s'.status = .exited ∧ s'.alive = s.alive) := by
  unfold Tracks at T
  unfold Family.execute at h
  cases hn : s.next with
  | ignoreChild | parse | usleep | close | accept | returnPid =>
    simp only [hn] at T h
    cases h
    exact .inl ⟨rfl, T⟩
  | takePid =>
    simp only [hn] at T h
    cases h
    exact .inl ⟨rfl, rfl, T⟩
  | getsockopt =>
    simp only [hn] at T h
    cases h
    refine .inl ⟨rfl, ?_⟩
    unfold Tracks
    by_cases hst : answer.tcpiState = 1
    · simpa only [if_pos hst] using T
    · simpa only [if_neg hst] using T
  | readData =>
    simp only [hn] at T h
    split at h
    · cases h
      exact .inr ⟨rfl, rfl⟩
    · cases h
      exact .inl ⟨rfl, by rw [Tracks]; simp only; rw [T.1]; exact T.2⟩
  | kill =>
    simp only [hn] at T h
    cases h
    refine .inl ⟨rfl, ?_⟩
    simp only [Tracks, Family.kill]
    rw [T.1]
    exact T.2.kill
  | fdopen =>
    simp only [hn] at T h
    split at h
    · cases h
      exact .inl ⟨rfl, T⟩
    · cases h
      exact .inr ⟨rfl, rfl⟩
  | fork =>
    simp only [hn] at T h
    split at h
    · cases h
      refine .inl ⟨rfl, .inr ?_⟩
      simp only [T, List.nil_append]
    · cases h
  | assignPid =>
    simp only [hn] at T h
    cases h
    exact .inl ⟨rfl, T⟩

/-- `assigned` says that SIGINT, if it came, did not come before the pid of a new child was assigned. -/
structure Inv (assigned : Prop) (s : Family) : Prop where
  tracks : s.status = .running → s.Tracks
  one : s.alive.length ≤ 1
  handling : assigned → s.status = .handling .kill → Sole s.alive s.pidChild
  gone : assigned → s.status = .handling .mmapClose ∨ s.status = .handling .exit ∨ s.status = .handlerExited → s.alive = []

theorem Inv.start (assigned : Prop) (pid0 : Int32) : Inv assigned (Family.start pid0) where
  tracks := fun _ => .inr rfl
  one := Nat.le_refl 1
  handling := fun _ h => by simp [Family.start] at h
  gone := fun _ h => by simp [Family.start] at h

theorem Inv.step {assigned : Prop} {s s' : Family} {act : FamilyAct} (I : Inv assigned s)
    (hact : assigned → s.Assigned act) (h : s.step act = some s') : Inv assigned s' := by
  cases act with
  | execute answer =>
    simp only [Family.step] at h
    split at h
    · rename_i hrunning
      rcases (I.tracks hrunning).execute h with ⟨hst, T⟩ | ⟨hst, halive⟩
      · rw [hrunning] at hst
        exact ⟨fun _ => T, T.length_le, fun _ hk => by simp [hst] at hk, fun _ hg => by simp [hst] at hg⟩
      · exact ⟨fun hr => by simp [hst] at hr, by rw [halive]; exact I.one, fun _ hk => by simp [hst] at hk,
          fun _ hg => by simp [hst] at hg⟩
    · cases h
  | childExit pid =>
    simp only [Family.step] at h
    split at h
    · cases h
      refine ⟨fun hr => (I.tracks hr).kill pid, (List.length_filter_le _ _).trans I.one, fun ha hk => ?_, fun ha hg => ?_⟩
      · exact (I.handling ha hk).filter _
      · simp only [Family.kill, I.gone ha hg, List.filter_nil]
    · cases h
  | sigint =>
    simp only [Family.step] at h
    split at h
    · rename_i hrunning
      cases h
      exact ⟨fun hr => by simp at hr, I.one, fun ha _ => (I.tracks hrunning).sole (hact ha), fun _ hg => by simp at hg⟩
    · cases h
  | handle =>
    simp only [Family.step] at h
    split at h
    · rename_i hst
      cases h
      exact ⟨fun hr => by simp at hr, (List.length_filter_le _ _).trans I.one, fun _ hk => by simp at hk,
        fun ha _ => (I.handling ha hst).kill⟩
    · rename_i hst
      cases h
      exact ⟨fun hr => by simp at hr, I.one, fun _ hk => by simp at hk, fun ha _ => I.gone ha (.inl hst)⟩
    · rename_i hst
      cases h
      exact ⟨fun hr => by simp at hr, I.one, fun _ hk => by simp at hk, fun ha _ => I.gone ha (.inr (.inl hst))⟩
    · cases h

/-- **SIGINT leaves a child alive exactly when it is a new one whose pid `main` has not yet.** -/
theorem Tracks.run_sigint {s : Family} (T : s.Tracks) (hrunning : s.status = .running) : ∃ s',
    run step s [.sigint, .handle, .handle, .handle] = some s' ∧ s'.status = .handlerExited ∧
      (s'.alive = [] ↔ ¬ (s.Unassigned ∧ s.pid ∈ s.alive)) := by
  refine ⟨{ s.kill s.pidChild with status := .handlerExited }, ?_, rfl, ?_⟩
  · simp only [run_cons, Family.step, hrunning, Option.bind_some, run_nil]
    rfl
  · simp only [Family.kill]
    by_cases hun : s.Unassigned
    · rcases T.sole_pid hun with hnone | hone
      · simp [hnone]
      · simp [hone, hun, hun.2]
    · rw [(T.sole hun).kill]
      exact iff_of_true rfl (fun h => hun h.1)

end Family

/-- **The children of a run**: never two, none after an exit through the handler unless SIGINT came before the pid of a
new child was assigned, and whether one is left if SIGINT comes now. -/
structure ChildrenKept (pid0 : Int32) (acts : List FamilyAct) (s : Family) : Prop where
  one : s.alive.length ≤ 1
  none_left : Along Family.step Family.Assigned (.start pid0) acts → s.status = .handlerExited → s.alive = []
  sigint_now : s.status = .running → ∃ s', run Family.step s [.sigint, .handle, .handle, .handle] = some s' ∧
    s'.status = .handlerExited ∧ (s'.alive = [] ↔ ¬ (s.Unassigned ∧ s.pid ∈ s.alive))

/-- **At most one child at a time, and none left behind by SIGINT** but in the window between `fork` and the assignment
of its pid. -/
theorem children_kept (pid0 : Int32) (acts : List FamilyAct) (s : Family)
    (hrun : run Family.step (.start pid0) acts = some s) : ChildrenKept pid0 acts s := by
  have I : Family.Inv False s := run_inv (fun _ _ _ I hs => Family.Inv.step I False.elim hs) acts _ _ (.start _ pid0) hrun
  refine ⟨I.one, fun hassigned hexit => ?_, fun hrunning => (I.tracks hrunning).run_sigint hrunning⟩
  have J : Family.Inv True s := run_inv_along (fun _ _ _ I hc hs => Family.Inv.step I (fun _ => hc) hs) acts _ _
    (.start _ pid0) hassigned hrun
  exact J.gone trivial (.inr (.inr hexit))

/-- A client goes, and SIGINT comes while the next one is waited for. -/
theorem children_kept_accept : ∃ s, run Family.step (.start 100)
    (List.replicate 6 (.execute ⟨8, false, true, 101⟩) ++ [.sigint, .handle, .handle, .handle]) = some s ∧
      ChildrenKept 100 (List.replicate 6 (.execute ⟨8, false, true, 101⟩) ++ [.sigint, .handle, .handle, .handle]) s :=
  exists_run (by decide) (fun s hs => children_kept 100 _ s hs)

/-- A client goes, `fork` returns 101 for the next, and SIGINT comes before `main` has it: 100 is killed once more, and
101 stays. -/
theorem child_left : ¬ ∀ (pid0 : Int32) (acts : List FamilyAct) (s : Family), 0 < pid0 →
    run Family.step (.start pid0) acts = some s →
      s.alive.length ≤ 1 ∧ (s.status = .handlerExited → s.alive = []) := by
  intro h
  have hend : (run Family.step (.start 100)
      (List.replicate 8 (.execute ⟨8, false, true, 101⟩) ++ [.sigint, .handle, .handle, .handle])).map
        (fun s => (s.status, s.alive)) = some (.handlerExited, [101]) := by decide
  obtain ⟨s, hs, heq⟩ := Option.map_eq_some_iff.1 hend
  obtain ⟨hstatus, halive⟩ := Prod.mk.inj heq
  have hnone := (h 100 _ s (by decide) hs).2 hstatus
  rw [halive] at hnone
  exact absurd hnone (by decide)

end VirtualForce
