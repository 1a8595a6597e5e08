import VirtualForce.MainLoop
/-!
# Overrun — what a client can make of `local_buff`

280 is not a multiple of 32, so the parent loop goes through 35 slots, eight bytes apart, and the last ones end past the
end of `local_buff`.  Its pushes can leave any bytes at all in the 304 from the start of `local_buff` on, 24 of them behind
it, where padding and the start of `mutex` are; no other byte is ever written.
-/
namespace VirtualForce

open Memory Slots Runs

theorem controllerMsgParase_buff (net : NetCircleBuff) (m : ForceMem) :
    (controllerMsgParase net m).1.localBuff.buff = net.localBuff.buff := by
  have hpull : ∀ dst, (pullCircleBuffItem net.localBuff dst).2.1.buff = net.localBuff.buff := by
    intro dst
    unfold pullCircleBuffItem
    dsimp only
    split <;> rfl
  unfold controllerMsgParase
  split
  · rfl
  · dsimp only
    split <;> exact hpull _

/-- **A read of a record that has come returns with it.** -/
theorem Parent.receive_returns {n : Nat} {s : Parent} (I : LoopInv n s)
    (hlen : clientBuffSize ≤ s.net.fp.pending.length) : ∃ s', s.step .receive = some s' ∧
      readLoop s.net.fp (fun _ => 0) clientBuffSize [none] = .returned
        ({ s.net.fp with pending := s.net.fp.pending.drop clientBuffSize },
          put (fun _ => 0) 0 (s.net.fp.pending.take clientBuffSize), 0) ∧
      s'.net.fp.pending = s.net.fp.pending.drop clientBuffSize ∧ s'.net.localBuff.buff = (pushCircleBuffItem s.net.localBuff
        (put (fun _ => 0) 0 (s.net.fp.pending.take clientBuffSize))).2.buff := by
  have hfread : (fread s.net.fp clientBuffSize none).1.length = clientBuffSize := by
    rw [fread, List.length_take]
    exact Nat.min_eq_left hlen
  have hloop := readLoop_full (fun _ => 0) [] hfread
  have hroom : isBuffFull s.net.localBuff.info = false := by
    rw [Bool.eq_false_iff, ne_eq, I.holds.full_iff]
    decide
  have hrcv : networkRcv s.net s.pidChild ⟨1, [none], 0, none, 0⟩ = .returned (s.pidChild,
      (readDone s.net { s.net.fp with pending := s.net.fp.pending.drop clientBuffSize }
        (put (fun _ => 0) 0 (s.net.fp.pending.take clientBuffSize)) 0).2) := by
    rw [networkRcv, if_pos rfl, hroom, if_neg Bool.false_ne_true, readData, hloop]
    rfl
  rw [LoopAct.receive, Parent.step, Parent.iterate, hrcv]
  refine ⟨_, rfl, hloop, ?_, ?_⟩
  · rw [controllerMsgParase_fp]
    rfl
  · rw [controllerMsgParase_buff]
    rfl

end VirtualForce
