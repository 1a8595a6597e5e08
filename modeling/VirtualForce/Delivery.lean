import VirtualForce.Buttons
import VirtualForce.Overrun
/-!
# Delivery — what is pressed gets through

The parent waits for bytes and for nothing else.  Whatever the core is doing, or has stopped doing, the parent ends the
call it is in and dispatches every command still on its way, and the page is left with the last call of them.
-/
namespace VirtualForce

open Memory Runs Register

/-- The arrival of bytes and the steps of the parent: no button, no step of the core. -/
def LinkAct.WithoutCore : LinkAct → Prop
  | .arrive _ | .iterate _ => True
  | .page (.storeWord _) | .page .setCmdDone => True
  | .mailbox (.storeWord _) | .mailbox .storeValid => True
  | _ => False

def Link.Alone (s : Link) (act : LinkAct) : Prop := act.WithoutCore ∧ s.ReadsWhole act

namespace Link

variable {s s' : Link}

theorem pressed_iterate {env : RcvEnv} (h : s.iterate env = some s') : s'.pressed = s.pressed := by
  unfold iterate at h
  split at h
  · obtain ⟨p, -, h⟩ := Option.bind_eq_some_iff.1 h
    obtain ⟨r, -, h⟩ := Option.bind_eq_some_iff.1 h
    obtain ⟨v, -, rfl⟩ := Option.map_eq_some_iff.1 h
    rfl
  · cases h

theorem pressed_step {act : LinkAct} (hact : act.WithoutCore) (h : s.step act = some s') : s'.pressed = s.pressed := by
  cases act with
  | press b => exact hact.elim
  | arrive n =>
    simp only [step] at h
    obtain ⟨p, -, rfl⟩ := Option.map_eq_some_iff.1 h
    rfl
  | iterate env => exact pressed_iterate h
  | page act =>
    cases act with
    | switch cmd => exact hact.elim
    | _ =>
      obtain ⟨r, -, rfl⟩ := Option.map_eq_some_iff.1 h
      rfl
  | mailbox act =>
    cases act with
    | dispatch cmd => exact hact.elim
    | _ =>
      obtain ⟨v, -, rfl⟩ := Option.map_eq_some_iff.1 h
      rfl

theorem pressed_leads (h : Leads step Alone s s') : s'.pressed = s.pressed :=
  h.inv (I := fun t => t.pressed = s.pressed) (fun _ _ _ I hact hstep => (pressed_step hact.1 hstep).trans I) rfl

/-! ## The call under way -/

/-- The words of the call under way are stored. -/
theorem stores_call {r : ServiceReg} {record : Fin 8 → Int32} {done : Fin 8 → Bool} (hw : r.writer = .copying record done) :
    ∃ r' done', run (fun r j => Reg.step r (.writeWord j)) r (List.finRange 8) = some r' ∧
      r'.writer = .copying record done' ∧ ∀ j, done' j = true := by
  have hstored := run_writeWords record (List.finRange 8) r done hw
  rw [run_map] at hstored
  refine ⟨_, _, hstored, rfl, fun j => ?_⟩
  rw [decide_eq_true (List.mem_finRange j), Bool.or_true]

/-- **The call under way ends**, and the page is free. -/
theorem ends_call (s : Link) : ∃ r, Leads step Alone s { s with service := r } ∧ r.writer = .idle := by
  cases hw : s.service.writer with
  | idle => exact ⟨s.service, .refl s, hw⟩
  | copying record done =>
    have hword : ∀ (r : ServiceReg) (j : Fin 8) (r' : ServiceReg), Reg.step r (.writeWord j) = some r' →
        step { s with service := r } (.page (.storeWord j)) = some { s with service := r' } := by
      intro r j r' hr
      have hrun : DispatchAct.step r (.storeWord j) = some r' := by
        rw [DispatchAct.step, DispatchAct.acts, run_cons, hr]
        · rfl
        · intro cmd _ _ h
          cases h
      simp only [step, hrun]
      rfl
    obtain ⟨r, done', hstored, hw', hall⟩ := stores_call hw
    have hdone : step { s with service := r } (.page .setCmdDone) =
        some { s with service := { r with writer := .idle, finished := r.finished + 1 } } := by
      simp only [step, DispatchAct.step, DispatchAct.acts, run_cons, Reg.step, hw', if_pos hall]
      rfl
    have hlast : Alone { s with service := r } (.page .setCmdDone) := ⟨trivial, trivial⟩
    refine ⟨_, Leads.trans ⟨_, along_of_forall_mem ?_, run_lift hword _ _ _ hstored⟩ (.one hlast hdone), rfl⟩
    intro _ act hact
    obtain ⟨j, -, rfl⟩ := List.mem_map.1 hact
    exact ⟨trivial, trivial⟩

theorem stores_download {b : VirtualBox} {record : Fin 6 → Int32} {done : Fin 6 → Bool}
    (I : Mailbox.Inv virtualSignal b) (hw : b.writer = .copying record done) :
    ∃ b' done', run (fun b j => Mailbox.Box.step virtualSignal b (.writeWord j)) b (List.finRange 6) = some b' ∧
      b'.writer = .copying record done' ∧ ∀ j, done' j = true := by
  have hcopied := I.writer
  rw [Mailbox.WriterOk, hw] at hcopied
  obtain ⟨words, done', hstored, -, hall⟩ :=
    Mailbox.run_writeWords virtualSignal record (List.finRange 6) b done hw hcopied.2.1
  rw [run_map] at hstored
  exact ⟨_, done', hstored, rfl, fun j => hall j (.inr (List.mem_finRange j))⟩

/-- **The copy to the mailbox under way ends.** -/
theorem ends_download (s : Link) (I : VirtualInv s.virtual) :
    ∃ b, Leads step Alone s { s with virtual := { s.virtual with box := b } } ∧ b.writer = .idle := by
  cases hw : s.virtual.box.writer with
  | idle => exact ⟨s.virtual.box, .refl s, hw⟩
  | copying record done =>
    have hword : ∀ (b : VirtualBox) (j : Fin 6) (b' : VirtualBox), b.step virtualSignal (.writeWord j) = some b' →
        step { s with virtual := { s.virtual with box := b } } (.mailbox (.storeWord j)) =
          some { s with virtual := { s.virtual with box := b' } } := by
      intro b j b' hb
      simp only [step, VirtualLink.step, VirtualLink.onBox, hb]
      rfl
    obtain ⟨b, done', hstored, hw', hall⟩ := stores_download I.box hw
    have hvalid : step { s with virtual := { s.virtual with box := b } } (.mailbox .storeValid) =
        some { s with virtual := { s.virtual with box :=
          { b with flag := virtualPending, writer := .idle, put := b.put ++ [record] } } } := by
      simp only [step, VirtualLink.step, VirtualLink.onBox, Mailbox.step_mark_all virtualSignal hw' hall]
      rfl
    have hlast : Alone { s with virtual := { s.virtual with box := b } } (.mailbox .storeValid) := ⟨trivial, trivial⟩
    refine ⟨_, Leads.trans ⟨_, along_of_forall_mem ?_, run_lift hword _ _ _ hstored⟩ (.one hlast hvalid), rfl⟩
    intro _ act hact
    obtain ⟨j, -, rfl⟩ := List.mem_map.1 hact
    exact ⟨trivial, trivial⟩

/-! ## The next command -/

end Link

/-- A read that nothing interrupts gets its record whole. -/
theorem readsWhole_receive {n : Nat} {p : Parent} (I : LoopInv n p) (hlen : clientBuffSize ≤ p.net.fp.pending.length) :
    ReadsWhole p ⟨1, [none], 0, none, 0⟩ := by
  obtain ⟨-, -, hloop, -⟩ := Parent.receive_returns I hlen
  refine ⟨rfl, ?_, (slice_pieces_iff hloop).1 ?_⟩
  · rw [wholeRecord, hloop]
    exact List.cons_ne_nil _ _
  · have hlength : (p.net.fp.pending.take clientBuffSize).length = clientBuffSize := by
      rw [List.length_take]
      exact Nat.min_eq_left hlen
    exact (congrArg (slice _ 0) hlength.symm).trans (slice_put _ _ _)

theorem DispatchAct.switch_some {r : ServiceReg} (hidle : r.writer = .idle) (c : PcCommCmd) :
    ∃ r', run DispatchAct.step r ([c].map .switch) = some r' := by
  have hstep : DispatchAct.step r (.switch c) = run Reg.step r (DispatchAct.switch c).acts := by
    simp only [DispatchAct.step, hidle]
  rw [List.map_singleton, run_cons, hstep, DispatchAct.acts]
  cases ServiceCall.ofPc c with
  | none => exact ⟨_, rfl⟩
  | some call =>
    simp only [Option.toList_some, List.map_singleton, run_cons, run_nil, Reg.step, hidle, Option.bind_some]
    exact ⟨_, rfl⟩

theorem VirtualLink.dispatch_some {v : VirtualLink} (hidle : v.box.writer = .idle) (c : PcCommCmd) :
    ∃ v', run VirtualLink.step v (([c].filter (fun c => c.IsVirtual)).map .dispatch) = some v' := by
  by_cases hc : c.IsVirtual
  · have hone : [c].filter (fun c => c.IsVirtual) = [c] := by simp [hc]
    rw [hone, List.map_singleton, run_cons]
    cases hfree : virtualSignal.free v.box.flag with
    | true =>
      simp only [VirtualLink.step, if_pos hc, Mailbox.step_accepted virtualSignal _ _ hidle hfree]
      exact ⟨_, rfl⟩
    | false =>
      simp only [VirtualLink.step, if_pos hc, Mailbox.step_dropped virtualSignal _ _ hidle hfree]
      exact ⟨_, rfl⟩
  · have hnone : [c].filter (fun c => c.IsVirtual) = [] := by simp [hc]
    rw [hnone]
    exact ⟨v, rfl⟩

theorem Link.iterate_eq {t : Link} {env : RcvEnv} {p : Parent} {c : PcCommCmd} {r : ServiceReg} {v : VirtualLink}
    (hpage : t.service.writer = .idle) (hbox : t.virtual.box.writer = .idle)
    (hp : (t.parent.finds t.virtual.box.virtualInfo).step (.iterate env) = some p)
    (hlog : commands p.log = t.dispatched ++ [c]) (hr : run DispatchAct.step t.service ([c].map .switch) = some r)
    (hv : run VirtualLink.step t.virtual (([c].filter (fun c => c.IsVirtual)).map .dispatch) = some v) :
    t.iterate env = some { t with parent := p, service := r, virtual := v } := by
  simp only [Link.iterate, hpage, hbox, hp, Option.bind_some, hlog, List.drop_left, hr, hv]
  rfl

namespace LinkInv

variable {n : Nat} {acts : List DispatchAct} {rest : List PcCommCmd} {s s' : Link}

theorem leads (I : LinkInv n acts rest s) (h : Leads Link.step Link.Alone s s') :
    ∃ n' acts' rest', LinkInv n' acts' rest' s' := by
  refine h.inv (I := fun s => ∃ n acts rest, LinkInv n acts rest s) ?_ ⟨n, acts, rest, I⟩
  rintro s act s' ⟨_, _, _, I⟩ hact hstep
  exact I.step hact.2 hstep

/-- What is left to dispatch after the commands dispatched is known. -/
theorem leads_rest (I : LinkInv n acts rest s) (h : Leads Link.step Link.Alone s s') {cmds rest' : List PcCommCmd}
    (hdispatched : s'.dispatched = s.dispatched ++ cmds) (hrest : rest = cmds ++ rest') :
    ∃ n' acts', LinkInv n' acts' rest' s' := by
  obtain ⟨n', acts', left, I'⟩ := I.leads h
  have hpressed := I'.pressed
  rw [Link.pressed_leads h, I.pressed, hdispatched, hrest, List.append_assoc] at hpressed
  obtain rfl := List.append_cancel_left (List.append_cancel_left hpressed)
  exact ⟨n', acts', I'⟩

/-- **What is under way ends**, and nothing is dispatched meanwhile. -/
theorem ends (I : LinkInv n acts rest s) : ∃ s', Leads Link.step Link.Alone s s' ∧ s'.dispatched = s.dispatched ∧
    s'.service.writer = .idle ∧ s'.virtual.box.writer = .idle := by
  obtain ⟨r, hcall, hr⟩ := s.ends_call
  obtain ⟨b, hdownload, hb⟩ := Link.ends_download { s with service := r } I.mailbox
  exact ⟨_, hcall.trans hdownload, rfl, hr, hb⟩

/-- **The next command on its way is dispatched**, once the call before it has returned. -/
theorem dispatches {c : PcCommCmd} (I : LinkInv n acts (c :: rest) s) (hpage : s.service.writer = .idle)
    (hbox : s.virtual.box.writer = .idle) :
    ∃ s', Leads Link.step Link.Alone s s' ∧ s'.dispatched = s.dispatched ++ [c] := by
  -- all bytes on the way arrive
  let p : Parent := { s.parent with net := { s.parent.net with fp := { s.parent.net.fp with
    pending := s.parent.net.fp.pending ++ s.inFlight.take s.inFlight.length } } }
  let t : Link := { s with inFlight := s.inFlight.drop s.inFlight.length, parent := p }
  have harrive : Leads Link.step Link.Alone s t :=
    .one (⟨trivial, trivial⟩ : s.Alone (.arrive s.inFlight.length)) rfl
  have hpending : p.net.fp.pending = (c :: rest).flatMap PcCommCmd.bytes := by
    rw [← I.stream]
    exact congrArg _ List.take_length
  have hlen : clientBuffSize ≤ p.net.fp.pending.length := by
    rw [hpending, List.flatMap_cons, List.length_append, c.bytes_length]
    exact Nat.le_add_right _ _
  have R : VirtualForce.ReadsWhole p ⟨1, [none], 0, none, 0⟩ :=
    readsWhole_receive (⟨I.loop.holds, I.loop.copies, I.loop.never_full⟩ : LoopInv n p) hlen
  have L : LoopInv n (p.finds s.virtual.box.virtualInfo) := ⟨I.loop.holds, I.loop.copies, I.loop.never_full⟩
  obtain ⟨p', hp, -⟩ := Parent.receive_returns L hlen
  have hstream : (p.finds s.virtual.box.virtualInfo).net.fp.pending ++ [] = (c :: rest).flatMap PcCommCmd.bytes := by
    rw [List.append_nil]
    exact hpending
  obtain ⟨c', rest', heq, hlog, -⟩ := Parent.iterate_next L R hstream hp
  obtain ⟨rfl, rfl⟩ := List.cons.inj heq
  obtain ⟨r, hr⟩ := DispatchAct.switch_some hpage c
  obtain ⟨v, hv⟩ := VirtualLink.dispatch_some hbox c
  have hstep : t.step (.iterate ⟨1, [none], 0, none, 0⟩) = some { t with parent := p', service := r, virtual := v } :=
    Link.iterate_eq (t := t) hpage hbox hp hlog hr hv
  exact ⟨_, harrive.trans (.one (⟨trivial, R⟩ : t.Alone (.iterate _)) hstep), hlog⟩

/-- **Every command on its way is dispatched**, by induction on them. -/
theorem delivers : ∀ (rest : List PcCommCmd) {n : Nat} {acts : List DispatchAct} {s : Link}, LinkInv n acts rest s →
    ∃ s' n' acts', Leads Link.step Link.Alone s s' ∧ LinkInv n' acts' [] s' ∧ s'.service.writer = .idle ∧
      s'.virtual.box.writer = .idle
  | [], n, acts, s, I => by
    obtain ⟨t, hends, hdispatched, hpage, hbox⟩ := I.ends
    have hnone : t.dispatched = s.dispatched ++ [] := hdispatched.trans (List.append_nil _).symm
    obtain ⟨n', acts', I'⟩ := I.leads_rest hends hnone rfl
    exact ⟨t, n', acts', hends, I', hpage, hbox⟩
  | c :: rest, n, acts, s, I => by
    obtain ⟨t, hends, hdispatched, hpage, hbox⟩ := I.ends
    have hnone : t.dispatched = s.dispatched ++ [] := hdispatched.trans (List.append_nil _).symm
    obtain ⟨n', acts', I'⟩ := I.leads_rest hends hnone rfl
    obtain ⟨u, hnext, hdispatched'⟩ := I'.dispatches hpage hbox
    obtain ⟨n'', acts'', I''⟩ := I'.leads_rest hnext hdispatched' rfl
    obtain ⟨s', m, more, hrest, J, hfree⟩ := delivers rest I''
    exact ⟨s', m, more, hends.trans (hnext.trans hrest), J, hfree⟩

end LinkInv

/-! ## From every state -/

/-- **Delivered**: all that was pressed is dispatched, and the page holds the last call of it. -/
structure Delivered (pressed : List ForceCommSend) (s : Link) : Prop where
  dispatched : s.dispatched = pressed
  nothing_left : s.parent.net.fp.pending ++ s.inFlight = []
  page : (noCall.words :: (pressed.filterMap ServiceCall.ofPc).map (fun c => c.app.words)).getLast? = some s.service.words
  free : s.service.writer = .idle ∧ s.virtual.box.writer = .idle

theorem LinkInv.delivered {n : Nat} {acts : List DispatchAct} {s : Link} (I : LinkInv n acts [] s)
    (hpage : s.service.writer = .idle) (hbox : s.virtual.box.writer = .idle) : Delivered s.pressed s := by
  have hdispatched : s.dispatched = s.pressed := (I.pressed.trans (List.append_nil _)).symm
  refine ⟨hdispatched, I.stream, ?_, hpage, hbox⟩
  have hreg := run_flatMap (fun _ _ _ h => DispatchAct.run_of_step h) acts _ _ I.run
  have hlast := getLast_written hreg hpage
  rwa [I.reach.written, hdispatched] at hlast

/-- **Whatever was pressed gets through**: from every state a run leads to, the parent can go on by itself, the core doing
nothing, until every command pressed is dispatched and the last call of them is on the page. -/
theorem buttons_deliver (pid sfd fd : Int32) (err : Bool) (errno : Errno) (buff : Mem UInt8) (force : Fin 6 → Int32)
    (acts : List LinkAct) (s : Link)
    (hwhole : Along Link.step Link.ReadsWhole (.start pid sfd fd err errno buff force) acts)
    (hrun : run Link.step (.start pid sfd fd err errno buff force) acts = some s) :
    ∃ s', Leads Link.step Link.Alone s s' ∧ Delivered s.pressed s' := by
  obtain ⟨n, dispatchActs, rest, I⟩ := LinkInv.of_run hwhole hrun
  obtain ⟨s', n', more, hleads, J, hpage, hbox⟩ := LinkInv.delivers rest I
  refine ⟨s', hleads, ?_⟩
  rw [← Link.pressed_leads hleads]
  exact J.delivered hpage hbox

/-- Two clicks, half a record there, and a call the core never looks at. -/
theorem buttons_deliver_two : ∃ s, run Link.step (.start 7 3 4 false .other (fun _ => 0) (fun _ => 9))
      [.press .workingClicked, .press .forceReleased, .press .idleClicked, .arrive 48,
        .iterate ⟨1, [none], 0, none, 0⟩, .page (.storeWord ⟨5, by decide⟩), .page (.coreLook (fun _ => 0))] = some s ∧
    ∃ s', Leads Link.step Link.Alone s s' ∧ Delivered s.pressed s' :=
  exists_run (by decide +kernel) (fun s hs => buttons_deliver 7 3 4 false .other (fun _ => 0) (fun _ => 9) _ s
    (by decide +kernel) hs)

end VirtualForce
