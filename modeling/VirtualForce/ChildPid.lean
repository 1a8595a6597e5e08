import VirtualForce.MainLoop
/-!
# ChildPid — whom `network_rcv` kills

The pid of the display child goes from `main` to `network_rcv` and back.  When a client goes the pid that came with it is
killed, and what `fork` returns for the next client takes its place, `-1` too: `main` looks at the pid of its own `fork`
only.
-/
namespace VirtualForce

open Runs

/-- `main` up to its loop: the parent is in it only with a positive pid. -/
def mainParent (forkPid sfd fd : Int32) (fp : File) (buff : Memory.Mem UInt8) (mem : ForceMem) : Option Parent :=
  if 0 < forkPid then some (.start forkPid sfd fd fp buff mem) else none

/-- What a call did before it returned, left the process or went on in the child. -/
def Outcome.events : Outcome (Int32 × NetCircleBuff × List Event) → List Event
  | .returned r => r.2.2
  | .exited events => events
  | .child events => events
  | .waiting => []

def Event.killed? : Event → Option Int32
  | .killed pid => some pid
  | _ => none

def kills (log : List Event) : List Int32 := log.filterMap Event.killed?

/-- The iterations that find the client gone. -/
def LoopAct.lost : LoopAct → List RcvEnv
  | .iterate env => if env.tcpiState = 1 then [] else [env]
  | _ => []

def disconnects (acts : List LoopAct) : List RcvEnv := acts.flatMap LoopAct.lost

/-- Whatever is killed was forked before. -/
def Earlier (log : List Event) : Prop :=
  ∀ before pid after, log = before ++ .killed pid :: after → Event.forked pid ∈ before

/-- **Only children are killed**: positive pids that `fork` returned before. -/
def KillsForked (log : List Event) : Prop :=
  ∀ before pid after, log = before ++ .killed pid :: after → 0 < pid ∧ Event.forked pid ∈ before

theorem kills_append (l l' : List Event) : kills (l ++ l') = kills l ++ kills l' := List.filterMap_append

theorem mem_kills {log : List Event} {pid : Int32} : pid ∈ kills log ↔ Event.killed pid ∈ log := by
  rw [kills, List.mem_filterMap]
  constructor
  · rintro ⟨e, he, hpid⟩
    cases e <;> simp only [Event.killed?, reduceCtorEq, Option.some.injEq] at hpid
    rwa [← hpid]
  · exact fun h => ⟨_, h, rfl⟩

theorem killsForked_iff {log : List Event} (h : Earlier log) : KillsForked log ↔ ∀ pid ∈ kills log, 0 < pid := by
  constructor
  · intro hk pid hpid
    obtain ⟨before, after, heq⟩ := List.append_of_mem (mem_kills.1 hpid)
    exact (hk before pid after heq).1
  · intro hpos before pid after heq
    refine ⟨hpos pid (mem_kills.2 ?_), h before pid after heq⟩
    rw [heq]
    exact List.mem_append_right _ List.mem_cons_self

theorem Earlier.append {log rest : List Event} (h : Earlier log) (hrest : ∀ pid ∈ kills rest, Event.forked pid ∈ log) :
    Earlier (log ++ rest) := by
  intro before pid after heq
  rcases List.append_eq_append_iff.1 heq with ⟨mid, rfl, hmid⟩ | ⟨mid, rfl, hmid⟩
  · -- killed in `rest`, after more of it
    refine List.mem_append_left _ (hrest pid (mem_kills.2 ?_))
    rw [hmid]
    exact List.mem_append_right _ List.mem_cons_self
  · cases mid with
    | nil =>
      -- first thing in `rest`
      rw [List.append_nil] at hrest
      refine hrest pid (mem_kills.2 ?_)
      rw [List.nil_append] at hmid
      rw [← hmid]
      exact List.mem_cons_self
    | cons e mid =>
      obtain ⟨rfl, -⟩ := List.cons.inj hmid
      exact h before pid mid rfl

/-! ## One iteration -/

/-- A read that leaves the process has done nothing else. -/
theorem readLoop_cases (freads : List (Option Interrupt)) : ∀ (fp : File) (buffer : Memory.Mem UInt8) (totalLen : Nat),
    (∃ r, readLoop fp buffer totalLen freads = .returned r) ∨ readLoop fp buffer totalLen freads = .exited [] ∨
      readLoop fp buffer totalLen freads = .waiting := by
  induction freads with
  | nil =>
    intro fp buffer totalLen
    rw [readLoop]
    split
    · exact .inl ⟨_, rfl⟩
    · exact .inr (.inr rfl)
  | cons o os ih =>
    intro fp buffer totalLen
    rw [readLoop]
    split
    · exact .inl ⟨_, rfl⟩
    · split
      · exact ih _ _ _
      · exact .inl ⟨_, rfl⟩
      · exact .inr (.inl rfl)

theorem readData_kills (net : NetCircleBuff) (pid : Int32) (freads : List (Option Interrupt)) :
    kills ((readData net clientBuffSize freads).map (fun r => (pid, r.2))).events = [] := by
  rcases readLoop_cases freads net.fp (fun _ => 0) clientBuffSize with ⟨⟨fp, buffer, totalLen⟩, hloop⟩ | hloop | hloop
  · rw [readData, hloop]
    simp only [Outcome.map, Outcome.events, readDone, pushEvents]
    split
    · rfl
    · split <;> rfl
  · rw [readData, hloop]
    rfl
  · rw [readData, hloop]
    rfl

/-- **What a call kills**: nothing while the client is there, and else the pid it was called with. -/
theorem networkRcv_kills (net : NetCircleBuff) (pid : Int32) (env : RcvEnv) :
    kills (networkRcv net pid env).events = if env.tcpiState = 1 then [] else [pid] := by
  unfold networkRcv
  by_cases hst : env.tcpiState = 1
  · rw [if_pos hst, if_pos hst]
    split
    · rfl
    · exact readData_kills net pid env.freads
  · rw [if_neg hst, if_neg hst]
    unfold rcvReconnect
    split
    · rfl
    · split <;> rfl

/-- **The pid it returns**: the one it was called with, or that of the child for the next client. -/
theorem networkRcv_pid {net net' : NetCircleBuff} {pid pid' : Int32} {env : RcvEnv} {events : List Event}
    (h : networkRcv net pid env = .returned (pid', net', events)) :
    if env.tcpiState = 1 then pid' = pid else pid' = env.forkPid ∧ Event.forked env.forkPid ∈ events := by
  unfold networkRcv at h
  by_cases hst : env.tcpiState = 1
  · rw [if_pos hst] at h ⊢
    split at h
    · cases h
      rfl
    · obtain ⟨⟨ret, net'', events'⟩, -, hr⟩ := Outcome.map_eq_returned h
      cases hr
      rfl
  · rw [if_neg hst] at h ⊢
    obtain ⟨fp, -, rfl, -, rfl⟩ := rcvReconnect_returned h
    exact ⟨rfl, by simp⟩

theorem controllerMsgParase_kills (net : NetCircleBuff) (m : ForceMem) : kills (controllerMsgParase net m).2.2 = [] := by
  have hpull : kills (pullEvents net.localBuff) = [] := by
    unfold pullEvents
    split <;> rfl
  unfold controllerMsgParase
  split
  · rfl
  · simp only
    split
    · exact hpull
    · rw [kills_append, hpull]
      rfl

/-- **One iteration**: it kills the pid it has if the client is gone, and then has the pid of the next child. -/
theorem Parent.iterate_pid {s s' : Parent} {env : RcvEnv} (h : s.iterate env = some s') : ∃ events,
    s'.log = s.log ++ events ∧ kills events = (if env.tcpiState = 1 then [] else [s.pidChild]) ∧
      if env.tcpiState = 1 then s'.pidChild = s.pidChild
      else s'.pidChild = env.forkPid ∧ Event.forked env.forkPid ∈ events := by
  unfold Parent.iterate at h
  split at h
  · rename_i pid net events hrcv
    cases h
    have hkills := networkRcv_kills s.net s.pidChild env
    have hpid := networkRcv_pid hrcv
    rw [hrcv] at hkills
    refine ⟨events ++ (controllerMsgParase net s.mem).2.2, by rw [List.append_assoc], ?_, ?_⟩
    · rw [kills_append, controllerMsgParase_kills, List.append_nil]
      exact hkills
    · split
      · rename_i hst
        rwa [if_pos hst] at hpid
      · rename_i hst
        rw [if_neg hst] at hpid
        exact ⟨hpid.1, List.mem_append_left _ hpid.2⟩
  · cases h

/-! ## Over a run -/

/-- **The pid after these disconnects**, `pid0` being the first: it was forked, as was all that was killed, and each but
the last one in turn was killed. -/
structure PidInv (pid0 : Int32) (s : Parent) (lost : List RcvEnv) : Prop where
  pid : (pid0 :: lost.map RcvEnv.forkPid).getLast? = some s.pidChild
  kills : kills s.log = (pid0 :: lost.map RcvEnv.forkPid).dropLast
  forked : Event.forked s.pidChild ∈ Event.forked pid0 :: s.log
  earlier : Earlier (.forked pid0 :: s.log)

theorem PidInv.start {pid0 : Int32} {s : Parent} (hpid : s.pidChild = pid0) (hlog : s.log = []) : PidInv pid0 s [] where
  pid := by rw [hpid]; rfl
  kills := by rw [hlog]; rfl
  forked := by rw [hpid]; exact List.mem_cons_self
  earlier := fun before pid after heq => by
    rw [hlog] at heq
    cases before with
    | nil => simp at heq
    | cons e before => simp at heq

/-- **What one more call does to the log**: it kills the pid the parent has, if the client is gone. -/
theorem PidInv.append {pid0 : Int32} {s : Parent} {lost : List RcvEnv} (I : PidInv pid0 s lost) {env : RcvEnv}
    {events : List Event} (h : VirtualForce.kills events = if env.tcpiState = 1 then [] else [s.pidChild]) :
    Earlier (.forked pid0 :: s.log ++ events) ∧
      VirtualForce.kills (s.log ++ events) = (pid0 :: (lost ++ (LoopAct.iterate env).lost).map RcvEnv.forkPid).dropLast := by
  constructor
  · refine I.earlier.append (fun pid hmem => ?_)
    rw [h] at hmem
    split at hmem
    · exact absurd hmem List.not_mem_nil
    · rw [List.mem_singleton.1 hmem]
      exact I.forked
  · rw [kills_append, I.kills, h]
    simp only [LoopAct.lost]
    split
    · simp only [List.append_nil]
    · rw [List.map_append, List.map_singleton, ← List.cons_append, List.dropLast_concat]
      exact List.dropLast_append_getLast? _ I.pid

theorem PidInv.step {pid0 : Int32} {s s' : Parent} {lost : List RcvEnv} {act : LoopAct} (I : PidInv pid0 s lost)
    (h : s.step act = some s') : PidInv pid0 s' (lost ++ act.lost) := by
  cases act with
  | arrive bytes =>
    cases h
    simp only [LoopAct.lost, List.append_nil]
    exact ⟨I.pid, I.kills, I.forked, I.earlier⟩
  | coreClear =>
    cases h
    simp only [LoopAct.lost, List.append_nil]
    exact ⟨I.pid, I.kills, I.forked, I.earlier⟩
  | iterate env =>
    obtain ⟨events, hlog, hkills, hpid⟩ := Parent.iterate_pid h
    obtain ⟨hearlier, hkilled⟩ := I.append hkills
    rw [List.cons_append, ← hlog] at hearlier
    rw [← hlog] at hkilled
    by_cases hst : env.tcpiState = 1
    · rw [if_pos hst] at hpid
      refine ⟨?_, hkilled, ?_, hearlier⟩
      · simp only [LoopAct.lost, if_pos hst, List.append_nil]
        rw [hpid]
        exact I.pid
      · rw [hpid, hlog, ← List.cons_append]
        exact List.mem_append_left _ I.forked
    · rw [if_neg hst] at hpid
      refine ⟨?_, hkilled, ?_, hearlier⟩
      · simp only [LoopAct.lost, if_neg hst]
        rw [List.map_append, List.map_singleton, ← List.cons_append, List.getLast?_concat, hpid.1]
      · rw [hpid.1, hlog, ← List.cons_append]
        exact List.mem_append_right _ hpid.2

theorem pos_dropLast_iff {pid0 : Int32} (h : 0 < pid0) (l : List RcvEnv) :
    (∀ pid ∈ (pid0 :: l.map RcvEnv.forkPid).dropLast, 0 < pid) ↔ ∀ d ∈ l.dropLast, 0 < d.forkPid := by
  cases l with
  | nil => simp
  | cons d ds =>
    rw [List.dropLast_cons_of_ne_nil (by simp), List.forall_mem_cons, ← List.map_dropLast, List.forall_mem_map]
    exact and_iff_right h

/-- **Only children are killed exactly when every `fork` before the last disconnect returned a positive pid**, over every
run of the loop, the iteration under way included. -/
theorem kills_forked_iff (pid0 sfd fd : Int32) (fp : File) (buff : Memory.Mem UInt8) (mem : ForceMem) (s0 s : Parent)
    (hmain : mainParent pid0 sfd fd fp buff mem = some s0) (acts : List LoopAct) (hrun : run Parent.step s0 acts = some s)
    (env : RcvEnv) : KillsForked (.forked pid0 :: s.log ++ (networkRcv s.net s.pidChild env).events) ↔
      ∀ d ∈ (disconnects (acts ++ [.iterate env])).dropLast, 0 < d.forkPid := by
  obtain ⟨hpos, hs0⟩ : 0 < pid0 ∧ Parent.start pid0 sfd fd fp buff mem = s0 := by
    unfold mainParent at hmain
    split at hmain
    · rename_i hpos
      exact ⟨hpos, Option.some.inj hmain⟩
    · cases hmain
  have I0 : PidInv pid0 s0 [] := by
    rw [← hs0]
    exact .start rfl rfl
  have I := run_inv_trace (I := PidInv pid0) (fun _ _ _ _ I _ hs => PidInv.step I hs) acts s0 s [] I0
    (along_true _ _ _) hrun
  rw [List.nil_append, trace_of_run LoopAct.lost acts s0 s hrun] at I
  obtain ⟨hearlier, hkills⟩ := I.append (networkRcv_kills s.net s.pidChild env)
  have hfirst : kills (.forked pid0 :: s.log ++ (networkRcv s.net s.pidChild env).events) =
      kills (s.log ++ (networkRcv s.net s.pidChild env).events) := rfl
  rw [killsForked_iff hearlier, hfirst, hkills, pos_dropLast_iff hpos, disconnects, List.flatMap_append,
    List.flatMap_singleton]

/-- A client goes and the next one comes; `fork` returns `pid`. -/
def reconnect (pid : Int32) : RcvEnv := ⟨8, [], 5, some ⟨[], false, .other⟩, pid⟩

/-- Two clients go; each time the child killed is the last one forked. -/
theorem kills_forked_reconnect : ∃ s, run Parent.step Parent.blank [.iterate (reconnect 101)] = some s ∧
    KillsForked (.forked 7 :: s.log ++ (networkRcv s.net s.pidChild (reconnect 102)).events) :=
  exists_run (by decide +kernel) (fun s hs => (kills_forked_iff 7 3 4 ⟨[], false, .other⟩ (fun _ => 0)
    ⟨⟨0, 0, 0, 0, 0, 0, 0, 0⟩, ⟨0, fun _ => 0⟩⟩ Parent.blank s rfl [.iterate (reconnect 101)] hs (reconnect 102)).2 (by decide))

/-- `fork` fails for the second client, and when that one goes `kill(-1, SIGKILL)` is called. -/
theorem kill_minus_one : ¬ ∀ (acts : List LoopAct) (s : Parent) (env : RcvEnv), run Parent.step Parent.blank acts = some s →
    (∀ d ∈ disconnects (acts ++ [.iterate env]), 0 < d.forkPid ∨ d.forkPid = -1) →
      KillsForked (.forked 7 :: s.log ++ (networkRcv s.net s.pidChild env).events) := by
  intro h
  have hend : (run Parent.step Parent.blank [.iterate (reconnect (-1))]).map
      (fun s => .forked 7 :: s.log ++ (networkRcv s.net s.pidChild (reconnect 102)).events) =
        some [.forked 7, .killed 7, .closed 4, .forked (-1), .killed (-1), .closed 5, .forked 102] := by decide +kernel
  obtain ⟨s, hs, hlog⟩ := Option.map_eq_some_iff.1 hend
  have hkills := h _ s (reconnect 102) hs (by decide)
  rw [hlog] at hkills
  have hpos := (hkills [.forked 7, .killed 7, .closed 4, .forked (-1)] (-1) [.closed 5, .forked 102] rfl).1
  exact absurd hpos (by decide)

end VirtualForce
