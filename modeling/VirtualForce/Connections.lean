import VirtualForce.Descriptors
import VirtualForce.Runs
/-!
# Connections — who holds a client's connection

The descriptors behind `net_buff`: `network_client_connect`, then the branch of `network_rcv` that takes the next client,
a system call a step, beside the display children, each with a copy of the parent's table.  The descriptor that `socket`
returns is never tested (`net_buff.fd` is, and that is 0), nor is that of the second `accept`; a call on one that is not
open fails.  However many clients come and go, each gets the same number, and no process that was not killed holds the
connection of an earlier one.
-/
namespace VirtualForce

open Descriptors Runs

/-- What a descriptor is open on. -/
inductive OpenFile where
  /-- what the process had before `network_init` -/
  | other
  | listener
  /-- the connection of the `k`th client -/
  | conn (k : Nat)
deriving DecidableEq

/-- The next system call of the parent. -/
inductive ConnPc where
  | socket
  | setsockopt
  | bind
  | listen
  | accept
  | fdopen
  | fork
  /-- `getsockopt` of `network_rcv` -/
  | rcv
  | close
  | acceptNext
  | fdopenNext
  | forkNext
  | exited (code : Int32)
deriving DecidableEq

structure ChildProc where
  pid : Int32
  table : Table OpenFile
  killed : Bool

/-- The parent's table and the descriptors of `net_buff`, `none` being -1, with the children alive; `accepted` counts the
clients, and `calls` is what each call on a descriptor of `net_buff` was meant for beside what it found. -/
structure Conns where
  table : Table OpenFile
  fd : Option Nat
  sfd : Option Nat
  pid : Int32
  pc : ConnPc
  accepted : Nat
  calls : List (OpenFile × Option OpenFile)
  children : List ChildProc

inductive ConnAct where
  /-- the parent's next call, which fails if `ok` is false -/
  | call (ok : Bool)
  | fork (pid : Int32)
  | rcv (tcpiState : UInt8)
  /-- `read_data` exits -/
  | readExit
  /-- the `i`th child exits, or a signal reaches it -/
  | childGone (i : Nat)

namespace Conns

/-- `net_buff` is static. -/
def start (base : Table OpenFile) : Conns := ⟨base, some 0, some 0, 0, .socket, 0, [], []⟩

def exit (s : Conns) (code : Int32) : Conns := { s with table := [], pc := .exited code }

def onSfd (s : Conns) : Conns := { s with calls := s.calls ++ [(.listener, get s.table s.sfd)] }

def onFd (s : Conns) : Conns := { s with calls := s.calls ++ [(.conn s.accepted, get s.table s.fd)] }

def socket (s : Conns) (ok : Bool) : Conns :=
  let s := if ok = true then { s with sfd := some (lowest s.table), table := openAt s.table .listener }
    else { s with sfd := none }
  if s.fd = none then s.exit 0 else { s with pc := .setsockopt }

/-- A call on the listening socket that exits if it fails. -/
def serverCall (s : Conns) (ok : Bool) (next : ConnPc) : Conns :=
  if ok = true ∧ (get s.table s.sfd).isSome = true then { s.onSfd with pc := next } else s.onSfd.exit 1

/-- `accept` on a socket that listens. -/
def accept (s : Conns) (ok : Bool) : Conns :=
  if ok = true ∧ get s.table s.sfd = some .listener then { s.onSfd with
    fd := some (lowest s.table)
    table := openAt s.table (.conn (s.accepted + 1))
    accepted := s.accepted + 1 }
  else { s.onSfd with fd := none }

def fdopen (s : Conns) (ok : Bool) (next : ConnPc) : Conns :=
  if ok = true ∧ (get s.table s.fd).isSome = true then { s.onFd with pc := next } else s.onFd.exit 1

def closeFd (s : Conns) : Conns :=
  match s.fd with
  | none => s.onFd
  | some n => { s.onFd with table := close s.table n }

/-- `kill(pid, SIGKILL)`; with -1 it is sent to every child. -/
def kill (s : Conns) : Conns :=
  { s with children := s.children.map (fun c => if s.pid = -1 ∨ c.pid = s.pid then { c with killed := true } else c) }

def forked (s : Conns) (pid : Int32) : Conns :=
  { s with pid := pid, children := s.children ++ [⟨pid, s.table, false⟩], pc := .rcv }

def step (s : Conns) : ConnAct → Option Conns
  | .call ok => match s.pc with
    | .socket => some (s.socket ok)
    | .setsockopt => some (s.serverCall ok .bind)
    | .bind => some (s.serverCall ok .listen)
    | .listen => some (s.serverCall ok .accept)
    | .accept => some (if (s.accept ok).fd = none then (s.accept ok).exit 1 else { s.accept ok with pc := .fdopen })
    | .fdopen => some (s.fdopen ok .fork)
    | .close => some { s.closeFd with pc := .acceptNext }
    | .acceptNext => some { s.accept ok with pc := .fdopenNext }
    | .fdopenNext => some (s.fdopen ok .forkNext)
    | _ => none
  | .fork pid => match s.pc with
    | .fork => if pid = -1 then some (s.exit 0) else if 0 < pid then some (s.forked pid) else none
    | .forkNext =>
      if pid = -1 then some { s with pid := pid, pc := .rcv } else if 0 < pid then some (s.forked pid) else none
    | _ => none
  | .rcv tcpiState => match s.pc with
    | .rcv => some (if tcpiState = 1 then s.onFd else { s.onFd.kill with pc := .close })
    | _ => none
  | .readExit => match s.pc with
    | .rcv => some (s.exit 1)
    | _ => none
  | .childGone i => if i < s.children.length then some { s with children := s.children.eraseIdx i } else none

/-- The children that were not killed. -/
def live (s : Conns) : List ChildProc := s.children.filter (fun c => !c.killed)

/-- The parent or a child that was not killed holds the connection of client `k`. -/
def Held (s : Conns) (k : Nat) : Prop := Holds s.table (.conn k) ∨ ∃ c ∈ s.live, Holds c.table (.conn k)

def Listening (base : Table OpenFile) (s : Conns) : Prop :=
  s.sfd = some (lowest base) ∧ s.table = openAt base .listener

/-- **Two descriptors more than at the start**: the listening socket, and at the next number the last client. -/
def Connected (base : Table OpenFile) (s : Conns) : Prop :=
  s.sfd = some (lowest base) ∧ s.fd = some (lowest (openAt base .listener)) ∧
    s.table = openAt (openAt base .listener) (.conn s.accepted)

end Conns

/-! ## What holds at each call -/

section
open Conns

def ParentAt (base : Table OpenFile) (s : Conns) : ConnPc → Prop
  | .socket => s.fd = some 0 ∧ s.table = base
  | .setsockopt => s.Listening base ∨ (s.sfd = none ∧ s.table = base)
  | .bind | .listen | .accept | .acceptNext => s.Listening base
  | .fdopenNext => s.Connected base ∨ (s.sfd = some (lowest base) ∧ s.fd = none ∧ s.table = openAt base .listener)
  | .fdopen | .fork | .rcv | .close | .forkNext => s.Connected base
  | .exited _ => s.table = []

def ChildrenAt (base : Table OpenFile) (s : Conns) : ConnPc → Prop
  | .rcv | .exited _ => s.live.length ≤ 1 ∧
      ∀ c ∈ s.live, c.pid = s.pid ∧ c.table = openAt (openAt base .listener) (.conn s.accepted)
  | _ => s.live = []

/-- **The invariant**: the table and the children that go with the next call, and every call so far found what it was
meant for, unless the parent is out. -/
structure ConnsInv (base : Table OpenFile) (s : Conns) : Prop where
  parent : ParentAt base s s.pc
  children : ChildrenAt base s s.pc
  calls : (∀ c ∈ s.calls, c.2 = some c.1) ∨ s.pc = .exited 1

end

namespace Conns

variable {base : Table OpenFile} {s s' : Conns}

theorem Listening.get (h : s.Listening base) : get s.table s.sfd = some .listener := by
  rw [h.1, h.2]
  exact get_openAt base _

theorem Connected.get_fd (h : s.Connected base) : get s.table s.fd = some (.conn s.accepted) := by
  rw [h.2.1, h.2.2]
  exact get_openAt _ _

theorem live_kill (h : ∀ c ∈ s.live, c.pid = s.pid) : s.kill.live = [] := by
  refine List.filter_eq_nil_iff.2 (fun c hc => ?_)
  obtain ⟨d, hd, rfl⟩ := List.mem_map.1 hc
  by_cases hpid : s.pid = -1 ∨ d.pid = s.pid
  · rw [if_pos hpid]
    exact Bool.false_ne_true
  · rw [if_neg hpid]
    intro hlive
    exact hpid (.inr (h d (List.mem_filter.2 ⟨hd, hlive⟩)))

theorem live_forked (h : s.live = []) (pid : Int32) : (s.forked pid).live = [⟨pid, s.table, false⟩] := by
  unfold live forked
  rw [List.filter_append]
  exact congrArg (· ++ _) h

theorem call_found (hc : ∀ c ∈ s.calls, c.2 = some c.1) {f : OpenFile} {fd : Option Nat}
    (hget : Descriptors.get s.table fd = some f) : ∀ c ∈ s.calls ++ [(f, Descriptors.get s.table fd)], c.2 = some c.1 := by
  intro c hmem
  rcases List.mem_append.1 hmem with hmem | hmem
  · exact hc c hmem
  · rw [List.mem_singleton.1 hmem]
    exact hget

theorem exit_inv (hl : s.live = []) {code : Int32} (hc : (∀ c ∈ s.calls, c.2 = some c.1) ∨ code = 1) :
    ConnsInv base (s.exit code) := by
  have hlive : (s.exit code).live = [] := hl
  refine ⟨rfl, ⟨by rw [hlive]; decide, fun c hmem => ?_⟩, hc.imp id (congrArg ConnPc.exited)⟩
  rw [hlive] at hmem
  cases hmem

/-- **A call on the listening socket** goes through on the descriptor `socket` returned, and exits on -1. -/
theorem serverCall_inv (hp : s.Listening base ∨ s.sfd = none) (hl : s.live = []) (hc : ∀ c ∈ s.calls, c.2 = some c.1)
    (ok : Bool) {next : ConnPc} (hnext : next = .bind ∨ next = .listen ∨ next = .accept) :
    ConnsInv base (s.serverCall ok next) := by
  unfold serverCall
  split
  · rename_i hok
    have hL : s.Listening base := hp.resolve_right (fun h => by rw [h] at hok; cases hok.2)
    refine ⟨?_, ?_, .inl (call_found hc hL.get)⟩
    · rcases hnext with rfl | rfl | rfl <;> exact hL
    · rcases hnext with rfl | rfl | rfl <;> exact hl
  · exact exit_inv (s := s.onSfd) hl (.inr rfl)

/-- **`accept` gives the client the number after the listening socket's**, or -1. -/
theorem accept_cases (h : s.Listening base) (ok : Bool) :
    (s.accept ok).live = s.live ∧ (s.accept ok).calls = s.calls ++ [(.listener, Descriptors.get s.table s.sfd)] ∧
      ((s.accept ok).Connected base ∨
        ((s.accept ok).sfd = some (lowest base) ∧ (s.accept ok).fd = none ∧
          (s.accept ok).table = openAt base .listener)) := by
  unfold accept
  split
  · refine ⟨rfl, rfl, .inl ⟨h.1, ?_, ?_⟩⟩
    · dsimp only
      rw [h.2]
    · dsimp only
      rw [h.2]
  · exact ⟨rfl, rfl, .inr ⟨h.1, rfl, h.2⟩⟩

/-- **`fdopen` goes through on the client's descriptor**, and exits on -1. -/
theorem fdopen_inv (hp : s.Connected base ∨ s.fd = none) (hl : s.live = []) (hc : ∀ c ∈ s.calls, c.2 = some c.1)
    (ok : Bool) {next : ConnPc} (hnext : next = .fork ∨ next = .forkNext) : ConnsInv base (s.fdopen ok next) := by
  unfold fdopen
  split
  · rename_i hok
    have hC : s.Connected base := hp.resolve_right (fun h => by rw [h] at hok; cases hok.2)
    refine ⟨?_, ?_, .inl (call_found hc hC.get_fd)⟩
    · rcases hnext with rfl | rfl <;> exact hC
    · rcases hnext with rfl | rfl <;> exact hl
  · exact exit_inv (s := s.onFd) hl (.inr rfl)

theorem forked_inv (hC : s.Connected base) (hl : s.live = []) (hc : ∀ c ∈ s.calls, c.2 = some c.1) (pid : Int32) :
    ConnsInv base (s.forked pid) := by
  have hlive := live_forked hl pid
  refine ⟨hC, ⟨by rw [hlive]; exact Nat.le_refl 1, fun c hmem => ?_⟩, .inl hc⟩
  rw [hlive] at hmem
  obtain rfl := List.mem_singleton.1 hmem
  exact ⟨rfl, hC.2.2⟩

end Conns

namespace ConnsInv

open Conns

variable {base : Table OpenFile} {s s' : Conns}

theorem found (I : ConnsInv base s) (h : s.pc ≠ .exited 1) : ∀ c ∈ s.calls, c.2 = some c.1 := I.calls.resolve_right h

/-- What the invariant says at a call. -/
theorem at_pc (I : ConnsInv base s) {pc : ConnPc} (hpc : s.pc = pc) (hne : pc ≠ .exited 1) :
    ParentAt base s pc ∧ ChildrenAt base s pc ∧ ∀ c ∈ s.calls, c.2 = some c.1 := by
  subst hpc
  exact ⟨I.parent, I.children, I.calls.resolve_right hne⟩

theorem socket (I : ConnsInv base s) (hpc : s.pc = .socket) (ok : Bool) : ConnsInv base (s.socket ok) := by
  obtain ⟨⟨hfd, htable⟩, hl, hc⟩ := I.at_pc hpc (fun h => nomatch h)
  cases ok with
  | true =>
    simp only [Conns.socket, if_true, hfd, reduceCtorEq, if_false]
    exact ⟨.inl ⟨by rw [htable], by rw [htable]⟩, hl, .inl hc⟩
  | false =>
    -- the test that follows `socket` is on the other descriptor
    simp only [Conns.socket, Bool.false_eq_true, if_false, hfd, reduceCtorEq]
    exact ⟨.inr ⟨rfl, htable⟩, hl, .inl hc⟩

theorem accept (I : ConnsInv base s) (hpc : s.pc = .accept) (ok : Bool) :
    ConnsInv base (if (s.accept ok).fd = none then (s.accept ok).exit 1 else { s.accept ok with pc := .fdopen }) := by
  obtain ⟨hL, hl, hc⟩ := I.at_pc hpc (fun h => nomatch h)
  obtain ⟨hlive, hcalls, hC | ⟨-, hfd, -⟩⟩ := accept_cases hL ok
  · have hsome : (s.accept ok).fd ≠ none := by rw [hC.2.1]; exact fun h => nomatch h
    rw [if_neg hsome]
    exact ⟨hC, hlive.trans hl, .inl (by dsimp only; rw [hcalls]; exact call_found hc hL.get)⟩
  · rw [if_pos hfd]
    exact exit_inv (hlive.trans hl) (.inr rfl)

theorem acceptNext (I : ConnsInv base s) (hpc : s.pc = .acceptNext) (ok : Bool) :
    ConnsInv base { s.accept ok with pc := .fdopenNext } := by
  obtain ⟨hL, hl, hc⟩ := I.at_pc hpc (fun h => nomatch h)
  obtain ⟨hlive, hcalls, hp⟩ := accept_cases hL ok
  exact ⟨hp, hlive.trans hl, .inl (by dsimp only; rw [hcalls]; exact call_found hc hL.get)⟩

theorem close (I : ConnsInv base s) (hpc : s.pc = .close) : ConnsInv base { s.closeFd with pc := .acceptNext } := by
  obtain ⟨hC, hl, hc⟩ := I.at_pc hpc (fun h => nomatch h)
  have hclose : s.closeFd = { s.onFd with table := openAt base .listener } := by
    rw [closeFd, hC.2.1]
    dsimp only
    rw [hC.2.2, openAt_close]
  rw [hclose]
  exact ⟨⟨hC.1, rfl⟩, hl, .inl (call_found hc hC.get_fd)⟩

theorem call (I : ConnsInv base s) {ok : Bool} (h : s.step (.call ok) = some s') : ConnsInv base s' := by
  simp only [Conns.step] at h
  cases hpc : s.pc with
  | rcv | fork | forkNext | exited code =>
    rw [hpc] at h
    cases h
  | socket =>
    rw [hpc] at h
    cases h
    exact I.socket hpc ok
  | setsockopt =>
    rw [hpc] at h
    cases h
    obtain ⟨hp, hl, hc⟩ := I.at_pc hpc (fun h => nomatch h)
    exact serverCall_inv (hp.imp_right And.left) hl hc ok (.inl rfl)
  | bind =>
    rw [hpc] at h
    cases h
    obtain ⟨hL, hl, hc⟩ := I.at_pc hpc (fun h => nomatch h)
    exact serverCall_inv (.inl hL) hl hc ok (.inr (.inl rfl))
  | listen =>
    rw [hpc] at h
    cases h
    obtain ⟨hL, hl, hc⟩ := I.at_pc hpc (fun h => nomatch h)
    exact serverCall_inv (.inl hL) hl hc ok (.inr (.inr rfl))
  | accept =>
    rw [hpc] at h
    cases h
    exact I.accept hpc ok
  | fdopen =>
    rw [hpc] at h
    cases h
    obtain ⟨hC, hl, hc⟩ := I.at_pc hpc (fun h => nomatch h)
    exact fdopen_inv (.inl hC) hl hc ok (.inl rfl)
  | close =>
    rw [hpc] at h
    cases h
    exact I.close hpc
  | acceptNext =>
    rw [hpc] at h
    cases h
    exact I.acceptNext hpc ok
  | fdopenNext =>
    rw [hpc] at h
    cases h
    obtain ⟨hp, hl, hc⟩ := I.at_pc hpc (fun h => nomatch h)
    exact fdopen_inv (hp.imp_right (fun h => h.2.1)) hl hc ok (.inr rfl)

theorem fork (I : ConnsInv base s) {pid : Int32} (h : s.step (.fork pid) = some s') : ConnsInv base s' := by
  simp only [Conns.step] at h
  split at h
  · rename_i hpc
    obtain ⟨hC, hl, hc⟩ := I.at_pc hpc (fun h => nomatch h)
    split at h
    · cases h
      exact exit_inv hl (.inl hc)
    · split at h
      · cases h
        exact forked_inv hC hl hc pid
      · cases h
  · rename_i hpc
    obtain ⟨hC, hl, hc⟩ := I.at_pc hpc (fun h => nomatch h)
    split at h
    · cases h
      have hlive : { s with pid := pid, pc := .rcv }.live = [] := hl
      refine ⟨hC, ⟨by rw [hlive]; exact Nat.zero_le 1, fun c hmem => ?_⟩, .inl hc⟩
      rw [hlive] at hmem
      cases hmem
    · split at h
      · cases h
        exact forked_inv hC hl hc pid
      · cases h
  · cases h

theorem rcv (I : ConnsInv base s) {tcpiState : UInt8} (h : s.step (.rcv tcpiState) = some s') : ConnsInv base s' := by
  simp only [Conns.step] at h
  split at h
  · rename_i hpc
    cases h
    obtain ⟨hC, ⟨hone, hl⟩, hc⟩ := I.at_pc hpc (fun h => nomatch h)
    have hcalls := call_found hc (Connected.get_fd hC)
    split
    · exact ⟨by rw [onFd, hpc]; exact hC, by rw [onFd, hpc]; exact ⟨hone, hl⟩, .inl hcalls⟩
    · exact ⟨hC, live_kill (s := s.onFd) (fun c hmem => (hl c hmem).1), .inl hcalls⟩
  · cases h

theorem readExit (I : ConnsInv base s) (h : s.step .readExit = some s') : ConnsInv base s' := by
  simp only [Conns.step] at h
  split at h
  · rename_i hpc
    cases h
    obtain ⟨-, hl, -⟩ := I.at_pc hpc (fun h => nomatch h)
    exact ⟨rfl, hl, .inr rfl⟩
  · cases h

theorem childGone (I : ConnsInv base s) {i : Nat} (h : s.step (.childGone i) = some s') : ConnsInv base s' := by
  simp only [Conns.step] at h
  split at h
  · cases h
    have hsub : { s with children := s.children.eraseIdx i }.live.Sublist s.live :=
      (List.eraseIdx_sublist s.children i).filter _
    have hl := I.children
    refine ⟨I.parent, ?_, I.calls⟩
    dsimp only
    unfold ChildrenAt at hl ⊢
    split at hl
    · exact ⟨Nat.le_trans hsub.length_le hl.1, fun c hmem => hl.2 c (hsub.mem hmem)⟩
    · exact ⟨Nat.le_trans hsub.length_le hl.1, fun c hmem => hl.2 c (hsub.mem hmem)⟩
    · rw [hl] at hsub
      exact List.sublist_nil.1 hsub
  · cases h

theorem step (I : ConnsInv base s) {act : ConnAct} (h : s.step act = some s') : ConnsInv base s' := by
  cases act with
  | call ok => exact I.call h
  | fork pid => exact I.fork h
  | rcv tcpiState => exact I.rcv h
  | readExit => exact I.readExit h
  | childGone i => exact I.childGone h

end ConnsInv

/-! ## Every run -/

/-- **What every state keeps to**: each call was on what it was meant for, or the parent has exited; nobody but a child
that was killed holds the connection of a client before the last, and while the parent waits for the next client nobody
holds any; one child at most goes on; in the loop the table has two descriptors more than at the start, at the same
numbers for every client. -/
structure ConnsHeld (base : Table OpenFile) (s : Conns) : Prop where
  calls : (∀ c ∈ s.calls, c.2 = some c.1) ∨ s.pc = .exited 1
  last : ∀ k, s.Held k → k = s.accepted
  waiting : s.pc = .acceptNext → ∀ k, ¬ s.Held k
  one : s.live.length ≤ 1
  loop : s.pc = .rcv → s.Connected base

section
variable {base : Table OpenFile} (hbase : ∀ k, ¬ Holds base (.conn k))
include hbase

theorem not_holds_listening (k : Nat) : ¬ Holds (openAt base .listener) (.conn k) := by
  rw [holds_openAt]
  exact fun h => h.elim (hbase k) (fun h => nomatch h)

theorem holds_connected {k n : Nat} (h : Holds (openAt (openAt base .listener) (.conn n)) (.conn k)) : k = n := by
  rw [holds_openAt] at h
  rcases h with h | h
  · exact absurd h (not_holds_listening hbase k)
  · cases h
    rfl

/-- The parent's table holds the last connection or none. -/
theorem ParentAt.last {s : Conns} : ∀ {pc : ConnPc}, ParentAt base s pc → ∀ k, Holds s.table (.conn k) → k = s.accepted
  | .socket, h, k, hk => absurd (h.2 ▸ hk) (hbase k)
  | .setsockopt, h, k, hk => by
    rcases h with h | h
    · exact absurd (h.2 ▸ hk) (not_holds_listening hbase k)
    · exact absurd (h.2 ▸ hk) (hbase k)
  | .bind, h, k, hk | .listen, h, k, hk | .accept, h, k, hk | .acceptNext, h, k, hk =>
    absurd (h.2 ▸ hk) (not_holds_listening hbase k)
  | .fdopenNext, h, k, hk => by
    rcases h with h | h
    · exact holds_connected hbase (h.2.2 ▸ hk)
    · exact absurd (h.2.2 ▸ hk) (not_holds_listening hbase k)
  | .fdopen, h, k, hk | .fork, h, k, hk | .rcv, h, k, hk | .close, h, k, hk | .forkNext, h, k, hk =>
    holds_connected hbase (h.2.2 ▸ hk)
  | .exited _, h, k, hk => by
    rw [show s.table = [] from h] at hk
    obtain ⟨n, hn⟩ := hk
    cases hn

theorem ConnsInv.held {s : Conns} (I : ConnsInv base s) : ConnsHeld base s := by
  have hl := I.children
  have hlive : s.live.length ≤ 1 ∧
      ∀ c ∈ s.live, c.table = openAt (openAt base .listener) (.conn s.accepted) := by
    unfold ChildrenAt at hl
    split at hl
    · exact ⟨hl.1, fun c hc => (hl.2 c hc).2⟩
    · exact ⟨hl.1, fun c hc => (hl.2 c hc).2⟩
    · rw [hl]
      exact ⟨Nat.zero_le 1, fun c hc => nomatch hc⟩
  refine ⟨I.calls, ?_, fun hpc => ?_, hlive.1, fun hpc => ?_⟩
  · rintro k (hk | ⟨c, hc, hk⟩)
    · exact I.parent.last hbase k hk
    · rw [hlive.2 c hc] at hk
      exact holds_connected hbase hk
  · obtain ⟨hL, hnone, -⟩ := I.at_pc hpc (fun h => nomatch h)
    rintro k (hk | ⟨c, hc, -⟩)
    · exact not_holds_listening hbase k (hL.2 ▸ hk)
    · rw [show s.live = [] from hnone] at hc
      cases hc
  · exact (I.at_pc hpc (fun h => nomatch h)).1

end

/-- **Clients come and go, and no connection stays behind**: over every interleaving of the parent's calls, whatever the
system answers, with the deaths of its children. -/
theorem connections_held (base : Table OpenFile) (hbase : ∀ k, ¬ Holds base (.conn k)) (acts : List ConnAct) (s : Conns)
    (hrun : run Conns.step (.start base) acts = some s) : ConnsHeld base s := by
  have I0 : ConnsInv base (.start base) := ⟨⟨rfl, rfl⟩, rfl, .inl (fun c hc => nomatch hc)⟩
  exact (run_inv (fun _ _ _ I h => ConnsInv.step I h) acts _ _ I0 hrun).held hbase

/-- A client, the next one, and the first one's child gone after that. -/
theorem connections_held_two : ∃ s, run Conns.step (.start [(0, .other), (1, .other), (2, .other), (3, .other)])
      (List.replicate 6 (.call true) ++ [.fork 7, .rcv 1, .rcv 8, .call true, .call true, .call true, .fork 9, .childGone 0])
      = some s ∧ ConnsHeld [(0, .other), (1, .other), (2, .other), (3, .other)] s :=
  exists_run (by decide +kernel) (fun s hs => connections_held _ (by simp [Holds]) _ s hs)

end VirtualForce
