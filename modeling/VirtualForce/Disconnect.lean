import VirtualForce.MainLoop
import VirtualForce.ReadFraming
/-!
# Disconnect — what is left on a connection when it is closed

The parent loop beside a client that sends whole records and then closes.  An iteration asks for the TCP state, then
takes one record or the next client, then dispatches.  A `network_rcv` that finds the connection established takes one
record, so as many are dispatched, once each and in order, as there were of these; nothing reads the stream once the
state is no longer established, so the records still on it go with it.
-/
namespace VirtualForce

open Memory Slots Runs

inductive LoopPc where
  | rcv
  | tested (tcpiState : UInt8)
  | parse
deriving DecidableEq

/-- The parent, and the client it is connected to: the records sent so far, whether it has closed, the commands
dispatched since it connected, and how many `network_rcv`s since then found it established. -/
structure Session where
  parent : Parent
  pc : LoopPc
  arrived : List (List UInt8)
  closed : Bool
  dispatched : List PcCommCmd
  reads : Nat

inductive SessionAct where
  | arrive (record : List UInt8)
  | close
  | getsockopt
  /-- the rest of `network_rcv`, with what `accept` and `fork` return if it comes to that -/
  | receive (acceptFd forkPid : Int32)
  | parse

/-- `TCP_ESTABLISHED` until the client closes, then `TCP_CLOSE_WAIT`. -/
def Session.tcpiState (s : Session) : UInt8 := if s.closed then 8 else 1

def Session.rcvEnv (s : Session) (tcpiState : UInt8) (acceptFd forkPid : Int32) : RcvEnv where
  tcpiState := tcpiState
  freads := [none]
  acceptFd := acceptFd
  fdopen := some ⟨[], false, s.parent.net.fp.errno⟩
  forkPid := forkPid

def Parent.arrive (p : Parent) (bytes : List UInt8) : Parent :=
  { p with net := { p.net with fp := { p.net.fp with pending := p.net.fp.pending ++ bytes } } }

def Parent.received (p : Parent) (pid : Int32) (net : NetCircleBuff) (events : List Event) : Parent :=
  { p with pidChild := pid, net := net, log := p.log ++ events }

def Parent.parsed (p : Parent) : Parent :=
  { p with
    net := (controllerMsgParase p.net p.mem).1
    mem := (controllerMsgParase p.net p.mem).2.1
    log := p.log ++ (controllerMsgParase p.net p.mem).2.2 }

/-- An `fread` of an established connection waits for a whole record, or for the client to close. -/
def Session.step (s : Session) : SessionAct → Option Session
  | .arrive record =>
    if s.closed = false ∧ record.length = clientBuffSize then
      some { s with parent := s.parent.arrive record, arrived := s.arrived ++ [record] }
    else none
  | .close => if s.closed then none else some { s with closed := true }
  | .getsockopt => if s.pc = .rcv then some { s with pc := .tested s.tcpiState } else none
  | .receive acceptFd forkPid => match s.pc with
    | .tested st =>
      if st = 1 ∧ s.closed = false ∧ s.parent.net.fp.pending.length < clientBuffSize then none
      else match networkRcv s.parent.net s.parent.pidChild (s.rcvEnv st acceptFd forkPid) with
        | .returned (pid, net, events) =>
          if st = 1 then
            some { s with parent := s.parent.received pid net events, pc := .parse, reads := s.reads + 1 }
          else some ⟨s.parent.received pid net events, .parse, [], false, [], 0⟩
        | _ => none
    | _ => none
  | .parse =>
    if s.pc = .parse then
      some { s with
        parent := s.parent.parsed
        pc := .rcv
        dispatched := s.dispatched ++ commands (controllerMsgParase s.parent.net s.parent.mem).2.2 }
    else none

/-- **The records of the connection**: those dispatched, the one in the ring, and those on the stream.  Each read took
one, but for those of a closed connection with none left. -/
structure SessionInv (n : Nat) (done items rest : List (List UInt8)) (s : Session) : Prop where
  arrived : s.arrived = done ++ items ++ rest
  dispatched : s.dispatched = done.map PcCommCmd.ofBytes
  pending : s.parent.net.fp.pending = rest.flatten
  whole : ∀ x ∈ s.arrived, x.length = clientBuffSize
  holds : Holds 32 280 n s.parent.net.localBuff items
  one : items.length ≤ 1
  taken : s.pc ≠ .parse → items = []
  each : (done ++ items).length = s.reads ∨ ((done ++ items).length ≤ s.reads ∧ rest = [] ∧ s.closed = true)

/-- **A record on the stream is read whole.** -/
theorem networkRcv_record {n : Nat} {net : NetCircleBuff} (pid : Int32) (env : RcvEnv) {x tail : List UInt8}
    (H : Holds 32 280 n net.localBuff []) (hst : env.tcpiState = 1) (hf : env.freads = [none])
    (hp : net.fp.pending = x ++ tail) (hx : x.length = clientBuffSize) :
    ∃ net' events, networkRcv net pid env = .returned (pid, net', events) ∧ net'.fp.pending = tail ∧
      Holds 32 280 n net'.localBuff [x] := by
  have hfull : isBuffFull net.localBuff.info = false := by
    rw [Bool.eq_false_iff, ne_eq, H.full_iff]
    decide
  have hread : (fread net.fp clientBuffSize none).1 = x := by
    simp only [fread]
    rw [hp, ← hx, List.take_left]
  have hrest : (fread net.fp clientBuffSize none).2.pending = tail := by
    simp only [fread]
    rw [hp, ← hx, List.drop_left]
  have hloop := readLoop_full (fun _ => 0) [] (by rw [hread, hx])
  rw [hread] at hloop
  obtain ⟨H', -⟩ := H.push_clear (put (fun _ => 0) 0 x) hfull (.inl (by simp))
  have hslice : slice (put (fun _ => 0) 0 x) 0 clientBuffSize = x := by
    rw [← hx]
    exact slice_put _ _ _
  rw [hslice] at H'
  refine ⟨{ net with
    fp := (fread net.fp clientBuffSize none).2
    localBuff := (pushCircleBuffItem net.localBuff (put (fun _ => 0) 0 x)).2 }, pushEvents net.localBuff (put (fun _ => 0) 0 x),
    ?_, hrest, H'⟩
  rw [networkRcv, if_pos hst, hfull, if_neg (by decide), hf, readData, hloop]
  rfl

theorem networkRcv_ended {n : Nat} {net net' : NetCircleBuff} {pid pid' : Int32} {env : RcvEnv} {events : List Event}
    (H : Holds 32 280 n net.localBuff []) (hst : env.tcpiState = 1) (hp : net.fp.pending = [])
    (h : networkRcv net pid env = .returned (pid', net', events)) :
    net'.fp.pending = [] ∧ Holds 32 280 n net'.localBuff [] := by
  have hnone : wholeRecord net.fp env.freads = [] := by
    unfold wholeRecord
    split
    · rename_i fp buffer hloop
      obtain ⟨-, havail, -⟩ := readLoop_ends clientBuffSize _ _ _ _ (Nat.le_refl _) (Nat.le_refl _) hloop
      rw [hp] at havail
      exact absurd havail (by decide)
    · rfl
  obtain ⟨H', -⟩ := networkRcv_empty H h
  rw [if_pos hst, hnone] at H'
  refine ⟨?_, H'⟩
  rw [networkRcv, if_pos hst] at h
  split at h
  · cases h
    exact hp
  · obtain ⟨⟨ret, net'', events'⟩, hread, hr⟩ := Outcome.map_eq_returned h
    cases hr
    obtain ⟨⟨fp, buffer, left⟩, hloop, hdone⟩ := Outcome.map_eq_returned hread
    obtain ⟨-, -, hrest, -⟩ := readLoop_ends clientBuffSize _ _ _ _ (Nat.le_refl _) (Nat.le_refl _) hloop
    rw [hp, List.drop_nil] at hrest
    unfold readDone at hdone
    split at hdone <;> cases hdone <;> exact hrest

namespace SessionInv

variable {n : Nat} {done items rest : List (List UInt8)} {s s' : Session}

/-- **Every step keeps the records of the connection in order.** -/
theorem step (I : SessionInv n done items rest s) {act : SessionAct} (h : s.step act = some s') :
    ∃ n' done' items' rest', SessionInv n' done' items' rest' s' := by
  cases act with
  | arrive record =>
    simp only [Session.step] at h
    split at h
    · rename_i hrec
      cases h
      have hopen : ¬ s.closed = true := by rw [hrec.1]; decide
      refine ⟨n, done, items, rest ++ [record], ?_, I.dispatched, ?_, ?_, I.holds, I.one, I.taken,
        .inl (I.each.resolve_right (fun h => hopen h.2.2))⟩
      · rw [I.arrived, List.append_assoc _ rest]
      · simp only [Parent.arrive]
        rw [I.pending, List.flatten_append, List.flatten_singleton]
      · intro x hx
        rcases List.mem_append.1 hx with hx | hx
        · exact I.whole x hx
        · rw [List.mem_singleton.1 hx]
          exact hrec.2
    · cases h
  | close =>
    simp only [Session.step] at h
    split at h <;> cases h
    refine ⟨n, done, items, rest, I.arrived, I.dispatched, I.pending, I.whole, I.holds, I.one, I.taken, ?_⟩
    exact I.each.imp_right (fun h => ⟨h.1, h.2.1, rfl⟩)
  | getsockopt =>
    simp only [Session.step] at h
    split at h
    · rename_i hpc
      cases h
      have hitems := I.taken (by rw [hpc]; decide)
      exact ⟨n, done, items, rest, I.arrived, I.dispatched, I.pending, I.whole, I.holds, I.one, fun _ => hitems, I.each⟩
    · cases h
  | receive acceptFd forkPid =>
    simp only [Session.step] at h
    split at h
    · rename_i st hpc
      obtain rfl := I.taken (by rw [hpc]; nofun)
      split at h
      · cases h
      · rename_i hwait
        split at h
        · rename_i pid net events hrcv
          by_cases hst : st = 1
          · rw [if_pos hst] at h
            cases h
            cases rest with
            | nil =>
              obtain ⟨hp, H'⟩ := networkRcv_ended I.holds hst I.pending hrcv
              -- `fread` would have waited for a record of a client that has not closed
              have hclosed : s.closed = true := by
                by_contra hopen
                exact hwait ⟨hst, Bool.eq_false_iff.2 hopen, by rw [I.pending]; decide⟩
              refine ⟨n, done, [], [], I.arrived, I.dispatched, hp, I.whole, H', Nat.zero_le _, fun _ => rfl, .inr ?_⟩
              exact ⟨Nat.le_succ_of_le (I.each.elim Nat.le_of_eq (fun h => h.1)), rfl, hclosed⟩
            | cons x xs =>
              have hx := I.whole x (by rw [I.arrived]; simp)
              obtain ⟨net', events', hret, hp, H'⟩ :=
                networkRcv_record s.parent.pidChild (s.rcvEnv st acceptFd forkPid) I.holds hst rfl
                  (by rw [I.pending, List.flatten_cons]) hx
              rw [hret] at hrcv
              cases hrcv
              have heach := I.each.resolve_right (fun h => List.cons_ne_nil x xs h.2.1)
              rw [List.append_nil] at heach
              refine ⟨n, done, [x], xs, ?_, I.dispatched, hp, I.whole, H', Nat.le_refl _, fun hpc => absurd rfl hpc, .inl ?_⟩
              · rw [I.arrived, List.append_nil, List.append_assoc, List.singleton_append]
              · rw [List.length_append, List.length_singleton, heach]
          · rw [if_neg hst] at h
            cases h
            rw [networkRcv, if_neg (show ¬ (s.rcvEnv st acceptFd forkPid).tcpiState = 1 from hst)] at hrcv
            obtain ⟨fp, hfp, -, rfl, -⟩ := rcvReconnect_returned hrcv
            obtain rfl := Option.some.inj hfp
            exact ⟨n, [], [], [], rfl, rfl, rfl, by simp, I.holds, Nat.zero_le _, fun _ => rfl, .inl rfl⟩
        · cases h
    · cases h
  | parse =>
    simp only [Session.step] at h
    split at h
    · cases h
      have hone := I.one
      match items, I, hone with
      | [], I, _ =>
        have hparse := controllerMsgParase_nil I.holds s.parent.mem
        refine ⟨n, done, [], rest, I.arrived, ?_, ?_, I.whole, ?_, Nat.zero_le _, fun _ => rfl, I.each⟩
        · rw [hparse]
          simpa [commands] using I.dispatched
        · simp only [Parent.parsed, hparse]
          exact I.pending
        · simp only [Parent.parsed, hparse]
          exact I.holds
      | [x], I, _ =>
        have hx := I.whole x (by rw [I.arrived]; simp)
        obtain ⟨ring, H', hparse⟩ := controllerMsgParase_cons I.holds hx s.parent.mem
        refine ⟨n + 1, done ++ [x], [], rest, ?_, ?_, ?_, I.whole, ?_, Nat.zero_le _, fun _ => rfl, ?_⟩
        · rw [I.arrived, List.append_nil]
        · rw [hparse, List.map_append, I.dispatched]
          rfl
        · simp only [Parent.parsed, hparse]
          exact I.pending
        · simp only [Parent.parsed, hparse]
          exact H'
        · rw [List.append_nil]
          exact I.each
      | _ :: _ :: _, _, hone => simp at hone
    · cases h

/-- **The records taken are the first ones of the connection, one for each read.** -/
theorem taken_eq (I : SessionInv n done items rest s) :
    done ++ items = s.arrived.take s.reads ∧ rest = s.arrived.drop s.reads := by
  rw [I.arrived]
  rcases I.each with hlen | ⟨hle, rfl, -⟩
  · rw [← hlen, List.take_left, List.drop_left]
    exact ⟨rfl, rfl⟩
  · rw [List.append_nil, List.take_of_length_le hle, List.drop_eq_nil_of_le hle]
    exact ⟨rfl, rfl⟩

end SessionInv

def Session.start (pid sfd fd : Int32) (buff : Mem UInt8) (mem : ForceMem) : Session where
  parent := .start pid sfd fd ⟨[], false, .other⟩ buff mem
  pc := .rcv
  arrived := []
  closed := false
  dispatched := []
  reads := 0

/-- **What a connection's records have come to when `network_rcv` is about to close it**: the first ones, one for each
`network_rcv` that found it established, have been dispatched, once each and in order, and the others are on the stream, so
all of them were dispatched exactly when it has none. -/
structure ClosesWith (s : Session) : Prop where
  dispatched : s.dispatched = (s.arrived.take s.reads).map PcCommCmd.ofBytes
  left : s.parent.net.fp.pending = (s.arrived.drop s.reads).flatten
  all_iff : s.dispatched = s.arrived.map PcCommCmd.ofBytes ↔ s.parent.net.fp.pending = []

/-- **At every close, the records dispatched are the records that were read.** -/
theorem session_close (pid sfd fd : Int32) (buff : Mem UInt8) (mem : ForceMem) (acts : List SessionAct) (s : Session)
    (hrun : run Session.step (.start pid sfd fd buff mem) acts = some s) (st : UInt8) (hpc : s.pc = .tested st) :
    ClosesWith s := by
  let I := fun s : Session => ∃ n done items rest, SessionInv n done items rest s
  have I0 : I (.start pid sfd fd buff mem) :=
    ⟨0, [], [], [], rfl, rfl, rfl, by simp [Session.start], networkInit_holds sfd fd _ buff, Nat.zero_le _, fun _ => rfl,
      .inl rfl⟩
  obtain ⟨n, done, items, rest, J⟩ := run_inv (I := I)
    (fun _ _ _ ⟨_, _, _, _, J⟩ hs => J.step hs) acts _ _ I0 hrun
  obtain rfl := J.taken (by rw [hpc]; nofun)
  have harrived := J.arrived
  obtain ⟨hdone, hrest⟩ := J.taken_eq
  rw [List.append_nil] at harrived hdone
  refine ⟨by rw [← hdone, J.dispatched], by rw [← hrest, J.pending], ?_⟩
  have hwhole : ∀ x ∈ rest, x.length = clientBuffSize := fun x hx => J.whole x (by rw [harrived]; simp [hx])
  rw [J.dispatched, harrived, List.map_append, J.pending]
  constructor
  · intro h
    have hmap : rest.map PcCommCmd.ofBytes = [] := List.self_eq_append_right.1 h
    rw [List.map_eq_nil_iff.1 hmap]
    rfl
  · intro h
    cases rest with
    | nil => simp
    | cons x xs =>
      have hx := hwhole x (by simp)
      rw [List.flatten_cons, List.append_eq_nil_iff] at h
      rw [h.1] at hx
      exact absurd hx (by decide)

/-- Five commands arrive, and three are read, the third after the client has closed, by a `network_rcv` that had asked
before: `SetFault` and `Stop` are on the stream when the connection is closed. -/
theorem session_close_backlog : ∃ s : Session,
    run Session.step (.start 7 3 4 (fun _ => 0) Parent.blank.mem)
      (([13, 15, 11, 14, 16].map (fun cmd => .arrive (PcCommCmd.bytes ⟨cmd, 0, fun _ => 7⟩))) ++
        [.getsockopt, .receive 5 8, .parse, .getsockopt, .receive 5 8, .parse, .getsockopt, .close, .receive 5 8, .parse,
          .getsockopt]) = some s ∧
      ClosesWith s ∧ s.pc = .tested 8 ∧ s.reads = 3 ∧ s.dispatched.map (fun c => c.cmd) = [13, 15, 11] :=
  exists_run_check (by decide +kernel) (fun s hs hend => session_close _ _ _ _ _ _ s hs 8 hend.1)

/-- Two records arrive before the first is read, and the client closes: the second is on the stream when its connection
is closed. -/
theorem close_drops_backlog : ¬ ∀ (acts : List SessionAct) (s : Session) (st : UInt8),
    run Session.step (.start 7 3 4 (fun _ => 0) Parent.blank.mem) acts = some s → s.pc = .tested st → st ≠ 1 →
      s.dispatched = s.arrived.map PcCommCmd.ofBytes := by
  intro h
  have hend : (run Session.step (.start 7 3 4 (fun _ => 0) Parent.blank.mem)
      [.arrive (List.replicate 32 0), .arrive (List.replicate 32 0), .getsockopt, .receive 5 8, .parse, .close,
        .getsockopt]).map (fun s => (s.pc, decide (s.dispatched = s.arrived.map PcCommCmd.ofBytes))) =
      some (.tested 8, false) := by decide +kernel
  obtain ⟨s, hs, heq⟩ := Option.map_eq_some_iff.1 hend
  obtain ⟨hpc, hnot⟩ := Prod.mk.inj heq
  exact of_decide_eq_false hnot (h _ s 8 hs hpc (by decide))

end VirtualForce
