import VirtualForce.Buttons
/-!
# Clients — one client after another

The parent loop through any number of clients.  A read takes a record whole, or comes back without one, and then no other
on that connection takes one.  What is dispatched is a first part of what each client sent, one client after the other:
what a connection still holds when it is found down goes with it, and nothing of it reaches the next.
-/
namespace VirtualForce

open Memory Runs

/-- The parent and its client: the commands it `sent`, the bytes on the way, and whether a read has come `short` on its
connection; `past` is what each client before it sent. -/
structure Clients where
  past : List (List PcCommCmd)
  sent : List PcCommCmd
  inFlight : List UInt8
  short : Bool
  parent : Parent

inductive ClientsAct where
  | send (cmd : PcCommCmd)
  /-- `n` bytes more reach the parent's socket -/
  | arrive (n : Nat)
  | iterate (env : RcvEnv)

namespace Clients

def start (pid sfd fd : Int32) (err : Bool) (errno : Errno) (buff : Mem UInt8) (mem : ForceMem) : Clients :=
  ⟨[], [], [], false, .start pid sfd fd ⟨[], err, errno⟩ buff mem⟩

def record (s : Clients) (env : RcvEnv) : List (List UInt8) := wholeRecord s.parent.net.fp env.freads

def iterated (s : Clients) (env : RcvEnv) (p : Parent) : Clients :=
  if env.tcpiState = 1 then { s with parent := p, short := s.short || (s.record env).isEmpty }
  else ⟨s.past ++ [s.sent], [], [], false, p⟩

def step (s : Clients) : ClientsAct → Option Clients
  | .send cmd => some { s with sent := s.sent ++ [cmd], inFlight := s.inFlight ++ cmd.bytes }
  | .arrive n => (s.parent.step (.arrive (s.inFlight.take n))).map (fun p =>
      { s with inFlight := s.inFlight.drop n, parent := p })
  | .iterate env => (s.parent.step (.iterate env)).map (s.iterated env)

/-- **A record is read in pieces that fit, before any read has come short; a new connection has nothing on it.** -/
def Orderly (s : Clients) : ClientsAct → Prop
  | .iterate env =>
    if env.tcpiState = 1 then s.record env ≠ [] → s.short = false ∧ PiecesFit (pieces s.parent.net.fp env.freads)
    else env.fdopen.all (fun fp => fp.pending.isEmpty) = true
  | _ => True

instance (s : Clients) (act : ClientsAct) : Decidable (s.Orderly act) := by
  unfold Orderly
  cases act <;> infer_instance

end Clients

/-- **Each client's part**: the commands dispatched are first parts of what the clients sent, one after the other, `cur`
that of the present one; what is left of that is on the way, until a read comes short. -/
structure ClientsInv (n : Nat) (parts : List (List PcCommCmd)) (cur : List PcCommCmd) (s : Clients) : Prop where
  loop : LoopInv n s.parent
  dispatched : commands s.parent.log = parts.flatten ++ cur
  past : List.Forall₂ (· <+: ·) parts s.past
  present : cur <+: s.sent
  rest : s.short = false → ∃ rest, s.sent = cur ++ rest ∧
    s.parent.net.fp.pending ++ s.inFlight = rest.flatMap PcCommCmd.bytes

/-! ## One iteration -/

/-- **An iteration that takes no record dispatches nothing.** -/
theorem Parent.iterate_none {n : Nat} {p p' : Parent} {env : RcvEnv} (I : LoopInv n p) (h : p.step (.iterate env) = some p')
    (hnone : p.records (.iterate env) = []) : commands p'.log = commands p.log := by
  obtain ⟨events, hlog, J⟩ := Parent.iterate_spec I.holds h
  have hcommands := J.commands
  rw [hnone] at hcommands
  rw [hlog, commands_append, hcommands, List.map_nil, List.append_nil]

theorem Parent.iterate_fdopen {p p' : Parent} {env : RcvEnv} (hdown : env.tcpiState ≠ 1)
    (h : p.step (.iterate env) = some p') : env.fdopen = some p'.net.fp := by
  rw [Parent.step, Parent.iterate] at h
  split at h
  · rename_i pid net events hrcv
    rw [networkRcv, if_neg hdown] at hrcv
    obtain ⟨fp, hfp, -, rfl, -⟩ := rcvReconnect_returned hrcv
    cases h
    dsimp only
    rw [controllerMsgParase_fp]
    exact hfp
  · cases h

namespace ClientsInv

variable {n : Nat} {parts : List (List PcCommCmd)} {cur : List PcCommCmd} {s s' : Clients}

theorem iterate (I : ClientsInv n parts cur s) {env : RcvEnv} (hO : s.Orderly (.iterate env))
    (h : s.step (.iterate env) = some s') : ∃ n' parts' cur', ClientsInv n' parts' cur' s' := by
  obtain ⟨p, hp, rfl⟩ := Option.map_eq_some_iff.1 h
  have L := I.loop.step hp
  by_cases hup : env.tcpiState = 1
  · have hrecords : s.parent.records (.iterate env) = s.record env := if_pos hup
    rw [Clients.Orderly, if_pos hup] at hO
    rw [Clients.iterated, if_pos hup]
    by_cases hnone : s.record env = []
    · -- a read that comes short
      rw [hnone, List.isEmpty_nil, Bool.or_true]
      refine ⟨_, parts, cur, L, ?_, I.past, I.present, fun hshort => by cases hshort⟩
      exact (Parent.iterate_none I.loop hp (hrecords.trans hnone)).trans I.dispatched
    · obtain ⟨hshort, hfit⟩ := hO hnone
      obtain ⟨rest, hsent, hstream⟩ := I.rest hshort
      obtain ⟨c, rest', rfl, hlog, -, hstream'⟩ := Parent.iterate_next I.loop ⟨hup, hnone, hfit⟩ hstream hp
      refine ⟨_, parts, cur ++ [c], L, ?_, I.past, ?_, fun _ => ⟨rest', ?_, hstream'⟩⟩
      · rw [hlog, I.dispatched, List.append_assoc]
      · rw [hsent]
        exact ⟨rest', by rw [List.append_assoc]; rfl⟩
      · rw [hsent, List.append_assoc]
        rfl
  · -- the next client
    have hrecords : s.parent.records (.iterate env) = [] := if_neg hup
    have hfp := Parent.iterate_fdopen hup hp
    rw [Clients.Orderly, if_neg hup, hfp, Option.all_some, List.isEmpty_iff] at hO
    rw [Clients.iterated, if_neg hup]
    refine ⟨_, parts ++ [cur], [], L, ?_, List.rel_append I.past (.cons I.present .nil), List.nil_prefix,
      fun _ => ⟨[], rfl, ?_⟩⟩
    · rw [Parent.iterate_none I.loop hp hrecords, I.dispatched]
      simp
    · rw [hO]
      rfl

theorem step (I : ClientsInv n parts cur s) {act : ClientsAct} (hO : s.Orderly act) (h : s.step act = some s') :
    ∃ n' parts' cur', ClientsInv n' parts' cur' s' := by
  cases act with
  | send cmd =>
    cases h
    refine ⟨n, parts, cur, I.loop, I.dispatched, I.past, I.present.trans (List.prefix_append _ _), fun hshort => ?_⟩
    obtain ⟨rest, hsent, hstream⟩ := I.rest hshort
    refine ⟨rest ++ [cmd], ?_, ?_⟩
    · dsimp only
      rw [hsent, List.append_assoc]
    · rw [List.flatMap_append, ← hstream, List.append_assoc, List.flatMap_singleton]
  | arrive k =>
    simp only [Clients.step] at h
    obtain ⟨p, hp, rfl⟩ := Option.map_eq_some_iff.1 h
    have L := I.loop.step hp
    cases hp
    refine ⟨_, parts, cur, L, I.dispatched, I.past, I.present, fun hshort => ?_⟩
    obtain ⟨rest, hsent, hstream⟩ := I.rest hshort
    refine ⟨rest, hsent, ?_⟩
    dsimp only
    rw [List.append_assoc, List.take_append_drop]
    exact hstream
  | iterate env => exact I.iterate hO h

end ClientsInv

/-! ## Every run -/

end VirtualForce
