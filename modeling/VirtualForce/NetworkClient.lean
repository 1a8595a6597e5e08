import VirtualForce.BufferManager
import VirtualForce.ForceInterface
/-!
# NetworkClient — the connection and its ring

`network_client.c`, one call or one round of a loop at a time.  What the system decides is an argument: the TCP state
`getsockopt` reports, how each `fread` ends, what `accept`, `fdopen` and `fork` return.  A call returns, exits the
process, goes on for ever as the display child, or is still waiting when its arguments run out; beside its result it
says what it did (`Event`).
-/
namespace VirtualForce

open Memory

/-! ## The stream -/

inductive Errno where
  | eintr
  | eagain
  | ewouldblock
  | other
deriving DecidableEq

/-- A read that fails inside `fread`: the bytes already delivered, and the error. -/
structure Interrupt where
  count : Nat
  errno : Errno
deriving DecidableEq

/-- A `FILE` on a socket: the bytes sent on it and not read yet, the error indicator, and `errno` as its last failing
read left it. -/
structure File where
  pending : List UInt8
  err : Bool
  errno : Errno
deriving DecidableEq

/-- `fread(buffer, 1, n, fp)`: the bytes delivered and the stream.  Without an interrupt it delivers all `n`, or all there
are before the end of the file. -/
def fread (fp : File) (n : Nat) : Option Interrupt → List UInt8 × File
  | none => (fp.pending.take n, { fp with pending := fp.pending.drop n })
  | some i =>
    if i.count < n ∧ i.count ≤ fp.pending.length then
      (fp.pending.take i.count, { pending := fp.pending.drop i.count, err := true, errno := i.errno })
    else (fp.pending.take n, { fp with pending := fp.pending.drop n })

/-! ## The connection -/

def clientBuffSize : Nat := 32

def maxSize : Int32 := 280

/-- `Net_Circle_Buff_t`; `localBuff` is `local_buff_info` with `local_buff` and whatever memory follows it. -/
structure NetCircleBuff where
  fd : Int32
  sfd : Int32
  fp : File
  localBuff : Ring

/-- What a call did that others can see. -/
inductive Event where
  | buffFull
  /-- an item copied to `local_buff` at `tail` -/
  | pushed (tail : Int32) (item : List UInt8)
  /-- an item copied from `local_buff` at `head` -/
  | pulled (head : Int32) (item : List UInt8)
  /-- a command taken into the switch of `controller_msg_parase` -/
  | dispatched (cmd : PcCommCmd)
  | killed (pid : Int32)
  | closed (fd : Int32)
  | forked (pid : Int32)
deriving DecidableEq

inductive Outcome (α : Type) where
  | returned (a : α)
  /-- `exit(1)`, after these events -/
  | exited (events : List Event)
  /-- in the display loop of a forked child, after these events -/
  | child (events : List Event)
  /-- not returned yet -/
  | waiting

def Outcome.map {α β : Type} (f : α → β) : Outcome α → Outcome β
  | .returned a => .returned (f a)
  | .exited events => .exited events
  | .child events => .child events
  | .waiting => .waiting

theorem Outcome.map_eq_returned {α β : Type} {f : α → β} {o : Outcome α} {b : β} (h : o.map f = .returned b) :
    ∃ a, o = .returned a ∧ f a = b := by
  cases o <;> cases h
  exact ⟨_, rfl, rfl⟩

def Outcome.result? {α : Type} : Outcome α → Option α
  | .returned a => some a
  | _ => none

theorem Outcome.mem_result?_iff {α : Type} {o : Outcome α} {a : α} : a ∈ o.result? ↔ o = .returned a := by
  cases o <;> simp [Outcome.result?]

/-- `network_init`, with what `network_client_connect` got; `net_buff` is static, so its other fields are zero. -/
def networkInit (sfd fd : Int32) (fp : File) (buff : Mem UInt8) : NetCircleBuff where
  fd := fd
  sfd := sfd
  fp := fp
  localBuff := {
    info := {
      headIndexOffset := 0
      tailIndexOffset := 0
      elementLength := Int32.ofNat clientBuffSize
      buffLength := maxSize
      safetyResevd := 0
      semaphore := 1
      writeLock := 0 }
    buff := buff }

/-! ## `read_data` -/

inductive ReadRound where
  | next (fp : File) (buffer : Mem UInt8) (totalLen : Nat)
  | stop (fp : File) (buffer : Mem UInt8) (totalLen : Nat)
  | exit

def readRound (fp : File) (buffer : Mem UInt8) (totalLen : Nat) (o : Option Interrupt) : ReadRound :=
  let readLen := min totalLen clientBuffSize
  let bytes := (fread fp readLen o).1
  let fp' := (fread fp readLen o).2
  if bytes.length < readLen then
    if fp'.err then
      match fp'.errno with
      | .eintr => .next fp' (put buffer 0 bytes) (totalLen - bytes.length)
      | .eagain => .stop fp' (put buffer 0 bytes) (totalLen - bytes.length)
      | .ewouldblock => .stop fp' (put buffer 0 bytes) (totalLen - bytes.length)
      | .other => .exit
    else .stop fp' (put buffer 0 bytes) (totalLen - bytes.length)
  else .next fp' (put buffer 0 bytes) (totalLen - bytes.length)

def readLoop (fp : File) (buffer : Mem UInt8) (totalLen : Nat) (freads : List (Option Interrupt)) :
    Outcome (File × Mem UInt8 × Nat) :=
  if totalLen = 0 then .returned (fp, buffer, totalLen)
  else match freads with
    | [] => .waiting
    | o :: os => match readRound fp buffer totalLen o with
      | .next fp' buffer' totalLen' => readLoop fp' buffer' totalLen' os
      | .stop fp' buffer' totalLen' => .returned (fp', buffer', totalLen')
      | .exit => .exited []

/-- What `push_circle_buff_item` does to others' eyes. -/
def pushEvents (r : Ring) (pushPtr : Mem UInt8) : List Event :=
  if isBuffFull r.info then []
  else [.pushed r.info.tailIndexOffset (slice pushPtr 0 r.info.elementLength.toInt.toNat)]

def readDone (net : NetCircleBuff) (fp : File) (buffer : Mem UInt8) (totalLen : Nat) :
    Int32 × NetCircleBuff × List Event :=
  if totalLen ≠ 0 then (-1, { net with fp := fp }, [])
  else (0, { net with fp := fp, localBuff := (pushCircleBuffItem net.localBuff buffer).2 },
    pushEvents net.localBuff buffer)

def readData (net : NetCircleBuff) (len : Nat) (freads : List (Option Interrupt)) :
    Outcome (Int32 × NetCircleBuff × List Event) :=
  (readLoop net.fp (fun _ => 0) len freads).map (fun r => readDone net r.1 r.2.1 r.2.2)

/-! ## The two loops that call it -/

/-- What the system answers to one call of `network_rcv`. -/
structure RcvEnv where
  tcpiState : UInt8
  freads : List (Option Interrupt)
  acceptFd : Int32
  fdopen : Option File
  forkPid : Int32

/-- The branch of `network_rcv` that takes the next client, `pid` being the display child of the last one. -/
def rcvReconnect (net : NetCircleBuff) (pid : Int32) (env : RcvEnv) : Outcome (Int32 × NetCircleBuff × List Event) :=
  match env.fdopen with
  | none => .exited [.killed pid, .closed net.fd]
  | some fp =>
    if env.forkPid = 0 then .child [.killed pid, .closed net.fd]
    else .returned (env.forkPid, { net with fd := env.acceptFd, fp := fp },
      [.killed pid, .closed net.fd, .forked env.forkPid])

def networkRcv (net : NetCircleBuff) (child : Int32) (env : RcvEnv) : Outcome (Int32 × NetCircleBuff × List Event) :=
  if env.tcpiState = 1 then
    if isBuffFull net.localBuff.info then .returned (child, net, [.buffFull])
    else (readData net clientBuffSize env.freads).map (fun r => (child, r.2))
  else rcvReconnect net child env

/-- One round of `network_producer`, its mutex held from the full test on. -/
def networkProducer (net : NetCircleBuff) (tcpiState : UInt8) (freads : List (Option Interrupt)) :
    Outcome (NetCircleBuff × List Event) :=
  if tcpiState = 1 then
    if isBuffFull net.localBuff.info then .returned (net, [.buffFull])
    else (readData net clientBuffSize freads).map (fun r => r.2)
  else .returned (net, [])

/-! ## What a read does -/

/-- The record a call of `read_data` on the stream reads whole, if it does. -/
def wholeRecord (fp : File) (freads : List (Option Interrupt)) : List (List UInt8) :=
  match readLoop fp (fun _ => 0) clientBuffSize freads with
  | .returned (_, buffer, 0) => [slice buffer 0 clientBuffSize]
  | _ => []

/-- **A read that returns pushed the record it read whole**, or read none and left the ring alone. -/
theorem readData_cases {net net' : NetCircleBuff} {ret : Int32} {events : List Event}
    {freads : List (Option Interrupt)} (h : readData net clientBuffSize freads = .returned (ret, net', events)) :
    (ret = -1 ∧ wholeRecord net.fp freads = [] ∧ net'.localBuff = net.localBuff ∧ events = []) ∨
    (ret = 0 ∧ ∃ buffer, wholeRecord net.fp freads = [slice buffer 0 clientBuffSize] ∧
      net'.localBuff = (pushCircleBuffItem net.localBuff buffer).2 ∧ events = pushEvents net.localBuff buffer) := by
  obtain ⟨⟨fp, buffer, totalLen⟩, hloop, hdone⟩ := Outcome.map_eq_returned h
  unfold wholeRecord
  rw [hloop]
  cases totalLen with
  | zero =>
    cases hdone
    exact .inr ⟨rfl, buffer, rfl, rfl, rfl⟩
  | succ n =>
    cases hdone
    exact .inl ⟨rfl, rfl, rfl, rfl⟩

theorem rcvReconnect_returned {net net' : NetCircleBuff} {pid pid' : Int32} {env : RcvEnv} {events : List Event}
    (h : rcvReconnect net pid env = .returned (pid', net', events)) :
    ∃ fp, env.fdopen = some fp ∧ pid' = env.forkPid ∧ net' = { net with fd := env.acceptFd, fp := fp } ∧
      events = [.killed pid, .closed net.fd, .forked env.forkPid] := by
  unfold rcvReconnect at h
  split at h
  · cases h
  · rename_i fp hfp
    split at h
    · cases h
    · cases h
      exact ⟨fp, hfp, rfl, rfl, rfl⟩

theorem readLoop_full {fp : File} (buffer : Mem UInt8) {o : Option Interrupt} (os : List (Option Interrupt))
    (h : (fread fp clientBuffSize o).1.length = clientBuffSize) :
    readLoop fp buffer clientBuffSize (o :: os) =
      .returned ((fread fp clientBuffSize o).2, put buffer 0 (fread fp clientBuffSize o).1, 0) := by
  have hround : readRound fp buffer clientBuffSize o =
      .next (fread fp clientBuffSize o).2 (put buffer 0 (fread fp clientBuffSize o).1) 0 := by
    simp only [readRound, Nat.min_self, h, Nat.lt_irrefl, if_false, Nat.sub_self]
  rw [readLoop, if_neg (by decide), hround]
  simp only
  rw [readLoop.eq_def, if_pos rfl]

end VirtualForce
