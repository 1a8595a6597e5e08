import VirtualForce.NetRing
/-!
# MainLoop — the parent loop of `main`

`network_rcv`, then `controller_msg_parase`, over and over.  A record is pushed and pulled in the same iteration, so the
ring is empty at every `network_rcv` and its offsets have gone one slot on for each record: the loop is direct dispatch
(`main_loop_refines_dispatch`), and the ninth record is copied past the end of `local_buff` (`copies_inside_iff`).
-/
namespace VirtualForce

open Memory Slots Runs

/-- The parent between two iterations; `log` is what it has done. -/
structure Parent where
  pidChild : Int32
  net : NetCircleBuff
  mem : ForceMem
  log : List Event

inductive LoopAct where
  | arrive (bytes : List UInt8)
  | coreClear
  | iterate (env : RcvEnv)

def Parent.iterate (s : Parent) (env : RcvEnv) : Option Parent :=
  match networkRcv s.net s.pidChild env with
  | .returned (pid, net, events) =>
    let parsed := controllerMsgParase net s.mem
    some ⟨pid, parsed.1, parsed.2.1, s.log ++ events ++ parsed.2.2⟩
  | _ => none

def ForceMem.clearVirtual (m : ForceMem) : ForceMem := { m with virtualInfo := { m.virtualInfo with valid := 0 } }

def Parent.step (s : Parent) : LoopAct → Option Parent
  | .arrive bytes => some { s with net := { s.net with fp := { s.net.fp with pending := s.net.fp.pending ++ bytes } } }
  | .coreClear => some { s with mem := s.mem.clearVirtual }
  | .iterate env => s.iterate env

/-- The record `network_rcv` takes whole from the connection. -/
def Parent.records (s : Parent) : LoopAct → List (List UInt8)
  | .iterate env => if env.tcpiState = 1 then wholeRecord s.net.fp env.freads else []
  | _ => []

/-! ## One iteration -/

def Event.command? : Event → Option PcCommCmd
  | .dispatched cmd => some cmd
  | _ => none

def Event.copyOffset? : Event → Option Int
  | .pushed tail _ => some tail.toInt
  | .pulled head _ => some head.toInt
  | _ => none

def commands (log : List Event) : List PcCommCmd := log.filterMap Event.command?

def copyOffsets (log : List Event) : List Int := log.filterMap Event.copyOffset?

section
variable (l l' : List Event)

theorem commands_append : commands (l ++ l') = commands l ++ commands l' := List.filterMap_append

theorem copyOffsets_append : copyOffsets (l ++ l') = copyOffsets l ++ copyOffsets l' := List.filterMap_append

end

/-- **What an iteration did**, `n` records having been through the ring and `items` being the one it took, if any. -/
structure Iterated (n : Nat) (items : List (List UInt8)) (m m' : ForceMem) (net' : NetCircleBuff)
    (events : List Event) : Prop where
  holds : Holds 32 280 (n + items.length) net'.localBuff []
  mem : m' = items.foldl (fun m x => controllerSwitch m (PcCommCmd.ofBytes x)) m
  commands : commands events = items.map PcCommCmd.ofBytes
  copies : copyOffsets events = items.flatMap (fun _ => [(slot 32 280 n : Int), (slot 32 280 n : Int)])
  not_full : Event.buffFull ∉ events

/-- **`network_rcv` on an empty ring**: it pushes the record it reads whole. -/
theorem networkRcv_empty {n : Nat} {net net' : NetCircleBuff} {pid pid' : Int32} {env : RcvEnv} {events : List Event}
    (H : Holds 32 280 n net.localBuff []) (h : networkRcv net pid env = .returned (pid', net', events)) :
    let items := if env.tcpiState = 1 then wholeRecord net.fp env.freads else []
    Holds 32 280 n net'.localBuff items ∧ items.length ≤ 1 ∧ (∀ x ∈ items, x.length = clientBuffSize) ∧
      commands events = [] ∧ copyOffsets events = items.map (fun _ => (slot 32 280 n : Int)) ∧
      Event.buffFull ∉ events := by
  have hfull : isBuffFull net.localBuff.info = false := by
    rw [Bool.eq_false_iff, ne_eq, H.full_iff]
    decide
  unfold networkRcv at h
  split at h
  · rename_i hst
    rw [hfull, if_neg (by decide)] at h
    obtain ⟨⟨ret, net'', events'⟩, hread, hr⟩ := Outcome.map_eq_returned h
    cases hr
    simp only [hst, if_true]
    rcases readData_cases hread with ⟨-, hrec, hring, rfl⟩ | ⟨-, buffer, hrec, hring, rfl⟩
    · rw [hrec, hring]
      exact ⟨H, by simp, by simp, rfl, rfl, by simp⟩
    · obtain ⟨H', hev⟩ := H.push_clear buffer hfull (.inl (by simp))
      rw [hrec, hring, hev]
      refine ⟨H', by simp, by simp, rfl, ?_, by simp⟩
      have htail := H.at_.tail
      simp only [copyOffsets, List.filterMap_cons, Event.copyOffset?, List.filterMap_nil, List.map_cons, List.map_nil]
      rw [htail]
      rfl
  · rename_i hst
    simp only [hst, if_false]
    obtain ⟨fp, -, -, rfl, rfl⟩ := rcvReconnect_returned h
    exact ⟨H, by simp, by simp, rfl, rfl, by simp⟩

theorem controllerMsgParase_nil {n : Nat} {net : NetCircleBuff} (H : Holds 32 280 n net.localBuff []) (m : ForceMem) :
    controllerMsgParase net m = (net, m, []) := by
  rw [controllerMsgParase, if_pos (H.empty_iff.2 rfl)]

theorem controllerMsgParase_cons {n : Nat} {net : NetCircleBuff} {x : List UInt8} {xs : List (List UInt8)}
    (H : Holds 32 280 n net.localBuff (x :: xs)) (hx : x.length = clientBuffSize) (m : ForceMem) :
    ∃ ring, Holds 32 280 (n + 1) ring xs ∧ controllerMsgParase net m =
      ({ net with localBuff := ring }, controllerSwitch m (PcCommCmd.ofBytes x),
        [.pulled net.localBuff.info.headIndexOffset x, .dispatched (PcCommCmd.ofBytes x)]) := by
  have he : ¬ isBuffEmpty net.localBuff.info = true := by rw [H.empty_iff]; simp
  obtain ⟨hret, hdst, H'⟩ := H.pull (fun _ => 0)
  have hbytes : slice (pullCircleBuffItem net.localBuff (fun _ => 0)).2.2 0 clientBuffSize = x := by
    rw [hdst, ← hx]
    exact slice_put _ _ _
  refine ⟨_, H', ?_⟩
  rw [controllerMsgParase, if_neg he]
  simp only [hret, hbytes, H.pullEvents_cons]
  rw [if_neg (by decide)]
  rfl

theorem controllerMsgParase_fp (net : NetCircleBuff) (m : ForceMem) : (controllerMsgParase net m).1.fp = net.fp := by
  unfold controllerMsgParase
  split
  · rfl
  · dsimp only
    split <;> rfl

/-- **One iteration from an empty ring** does what it does with the record it takes, and leaves the ring empty. -/
theorem Parent.iterate_spec {n : Nat} {s s' : Parent} {env : RcvEnv} (H : Holds 32 280 n s.net.localBuff [])
    (h : s.iterate env = some s') : ∃ events, s'.log = s.log ++ events ∧
      Iterated n (s.records (.iterate env)) s.mem s'.mem s'.net events := by
  unfold Parent.iterate at h
  split at h
  · rename_i pid net events hrcv
    cases h
    obtain ⟨H1, hone, hlen, hcmd, hcopy, hfull⟩ := networkRcv_empty H hrcv
    simp only [Parent.records]
    generalize (if env.tcpiState = 1 then wholeRecord s.net.fp env.freads else []) = items at *
    refine ⟨events ++ (controllerMsgParase net s.mem).2.2, by rw [List.append_assoc], ?_⟩
    match items with
    | [] =>
      rw [controllerMsgParase_nil H1]
      simp only [List.append_nil]
      exact ⟨H1, rfl, hcmd, hcopy, hfull⟩
    | [x] =>
      obtain ⟨ring, H2, hparse⟩ := controllerMsgParase_cons H1 (hlen x (by simp)) s.mem
      have hhead := H1.at_.head
      rw [hparse]
      refine ⟨H2, rfl, ?_, ?_, ?_⟩
      · rw [commands_append, hcmd]
        rfl
      · rw [copyOffsets_append, hcopy]
        simp only [copyOffsets, List.filterMap_cons, Event.copyOffset?, List.filterMap_nil, hhead]
        rfl
      · simp [hfull]
    | _ :: _ :: _ => simp at hone
  · cases h

/-- **The loop between two iterations**, after `n` records: the ring is empty, one slot on for each, and each was copied
in and out of its slot. -/
structure LoopInv (n : Nat) (s : Parent) : Prop where
  holds : Holds 32 280 n s.net.localBuff []
  copies : copyOffsets s.log = (List.range n).flatMap (fun k => [(slot 32 280 k : Int), (slot 32 280 k : Int)])
  never_full : Event.buffFull ∉ s.log

theorem LoopInv.step {n : Nat} {s s' : Parent} {act : LoopAct} (I : LoopInv n s) (h : s.step act = some s') :
    LoopInv (n + (s.records act).length) s' := by
  cases act with
  | arrive bytes =>
    cases h
    exact ⟨I.holds, I.copies, I.never_full⟩
  | coreClear =>
    cases h
    exact ⟨I.holds, I.copies, I.never_full⟩
  | iterate env =>
    obtain ⟨events, hlog, J⟩ := Parent.iterate_spec I.holds h
    have hone : (s.records (.iterate env)).length ≤ 1 := by
      simp only [Parent.records, wholeRecord]
      split
      · split <;> simp
      · simp
    refine ⟨J.holds, ?_, ?_⟩
    · rw [hlog, copyOffsets_append, I.copies, J.copies]
      match hrec : s.records (.iterate env) with
      | [] => simp
      | [x] => simp [List.range_succ]
      | _ :: _ :: _ => rw [hrec] at hone; simp at hone
    · rw [hlog, List.mem_append]
      exact fun h => h.elim I.never_full J.not_full

def Parent.start (pid sfd fd : Int32) (fp : File) (buff : Mem UInt8) (mem : ForceMem) : Parent :=
  ⟨pid, networkInit sfd fd fp buff, mem, []⟩

/-- **Every run keeps the invariant**, one slot on for each record taken. -/
theorem loopInv_of_run {pid sfd fd : Int32} {fp : File} {buff : Mem UInt8} {mem : ForceMem} {acts : List LoopAct}
    {s : Parent} (hrun : run Parent.step (.start pid sfd fd fp buff mem) acts = some s) :
    LoopInv (trace Parent.step Parent.records (.start pid sfd fd fp buff mem) acts).length s := by
  have I0 : LoopInv ([] : List (List UInt8)).length (.start pid sfd fd fp buff mem) :=
    ⟨networkInit_holds sfd fd fp buff, rfl, by simp [Parent.start]⟩
  have I := run_inv_trace (I := fun s (t : List (List UInt8)) => LoopInv t.length s)
    (fun _ _ _ _ I _ hs => by rw [List.length_append]; exact I.step hs) acts _ _ _ I0 (along_true _ _ _) hrun
  rw [List.nil_append] at I
  exact I

def Parent.blank : Parent :=
  .start 7 3 4 ⟨[], false, .other⟩ (fun _ => 0) ⟨⟨0, 0, 0, 0, 0, 0, 0, 0⟩, ⟨0, fun _ => 0⟩⟩

def LoopAct.receive : LoopAct := .iterate ⟨1, [none], 0, none, 0⟩

/-! ## The copies -/

def Event.Inside : Event → Prop
  | .pushed tail _ => 0 ≤ tail.toInt ∧ tail.toInt + clientBuffSize ≤ maxSize.toInt
  | .pulled head _ => 0 ≤ head.toInt ∧ head.toInt + clientBuffSize ≤ maxSize.toInt
  | _ => True

instance : DecidablePred Event.Inside := fun ev => by
  cases ev <;> simp only [Event.Inside] <;> infer_instance

/-- **The range logged for a push is what it writes.** -/
theorem pushEvents_inside_iff {r : Ring} (buffer : Mem UInt8) (he : r.info.elementLength.toInt = clientBuffSize)
    (hL : r.info.buffLength = maxSize) : (∀ ev ∈ pushEvents r buffer, ev.Inside) ↔
      ∀ src x, x < 0 ∨ maxSize.toInt ≤ x → (pushCircleBuffItem r src).2.buff x = r.buff x := by
  rw [← hL, pushCircleBuffItem_keeps_iff (by rw [he]; decide), he, hL, pushEvents]
  cases isBuffFull r.info <;> simp [Event.Inside]

/-- **The range logged for a pull is what it reads.** -/
theorem pullEvents_inside_iff {r : Ring} (dst : Mem UInt8) (he : r.info.elementLength.toInt = clientBuffSize)
    (hL : r.info.buffLength = maxSize) : (∀ ev ∈ pullEvents r, ev.Inside) ↔
      ∀ m, (∀ x, 0 ≤ x → x < maxSize.toInt → m x = r.buff x) →
        (pullCircleBuffItem ⟨r.info, m⟩ dst).2.2 = (pullCircleBuffItem r dst).2.2 := by
  rw [← hL, pullCircleBuffItem_reads_iff dst (by rw [he]; decide), he, hL, pullEvents]
  cases isBuffEmpty r.info <;> simp [Event.Inside]

theorem inside_iff (log : List Event) :
    (∀ ev ∈ log, ev.Inside) ↔ ∀ o ∈ copyOffsets log, 0 ≤ o ∧ o + 32 ≤ 280 := by
  unfold copyOffsets
  simp only [List.mem_filterMap]
  constructor
  · rintro h o ⟨ev, hev, ho⟩
    have hin := h ev hev
    cases ev <;> cases ho <;> exact hin
  · intro h ev hev
    cases ev with
    | pushed tail item => exact h _ ⟨_, hev, rfl⟩
    | pulled head item => exact h _ ⟨_, hev, rfl⟩
    | _ => trivial

/-- **Every copy made is inside `local_buff` exactly while at most eight records have been taken.** -/
theorem copies_inside_iff (pid sfd fd : Int32) (fp : File) (buff : Mem UInt8) (mem : ForceMem) (acts : List LoopAct)
    (s : Parent) (hrun : run Parent.step (.start pid sfd fd fp buff mem) acts = some s) :
    (∀ ev ∈ s.log, ev.Inside) ↔
      (trace Parent.step Parent.records (.start pid sfd fd fp buff mem) acts).length ≤ 8 := by
  have I := loopInv_of_run hrun
  generalize (trace Parent.step Parent.records (.start pid sfd fd fp buff mem) acts).length = n at I ⊢
  rw [inside_iff, I.copies]
  simp only [List.mem_flatMap, List.mem_range, List.mem_cons, List.not_mem_nil, or_false, or_self, slot]
  constructor
  · intro h
    by_contra hn
    have := h _ ⟨8, by omega, rfl⟩
    omega
  · rintro h o ⟨k, hk, rfl⟩
    rw [Nat.mod_eq_of_lt (show k * 32 < 280 by omega)]
    omega

theorem copies_inside_eight : ∃ s : Parent,
    run Parent.step .blank (.arrive (List.replicate 256 0) :: List.replicate 8 .receive) = some s ∧
      ∀ ev ∈ s.log, ev.Inside :=
  exists_run (by decide +kernel) (fun _ hs => (copies_inside_iff _ _ _ _ _ _ _ _ hs).2 (by decide +kernel))

/-- The ninth record goes to offsets 256 to 288. -/
theorem ninth_record_outside : ¬ ∀ (acts : List LoopAct) (s : Parent),
    run Parent.step .blank acts = some s → ∀ ev ∈ s.log, ev.Inside := by
  intro h
  have hlog : (run Parent.step .blank (.arrive (List.replicate 288 0) :: List.replicate 9 .receive)).map
      (fun s => decide (∀ ev ∈ s.log, ev.Inside)) = some false := by decide +kernel
  obtain ⟨s, hs, hnot⟩ := Option.map_eq_some_iff.1 hlog
  exact of_decide_eq_false hnot (h _ s hs)

/-! ## Direct dispatch -/

/-- **What a command is for**: 11 to 14 replace the service call; 15 and 16 fill the virtual mailbox where it is free
(`forceVirtualDownload_free`) and are dropped where it is not (`forceVirtualDownload_pending`). -/
def directDispatch (m : ForceMem) (c : PcCommCmd) : ForceMem :=
  if c.cmd = 11 then { m with serviceInfo := ⟨0x04, 0, 0, 0, 0, 0, 0, 0⟩ }
  else if c.cmd = 12 then { m with serviceInfo := ⟨0x02, 0, 0, 0, 0, 0, 0, 0⟩ }
  else if c.cmd = 13 then { m with serviceInfo := ⟨0x01, 0, 0, 0, 0, 0, 0, 0⟩ }
  else if c.cmd = 14 then { m with serviceInfo := ⟨0x03, 0, 0, 0, 0, 0, 0, 0⟩ }
  else if c.cmd = 15 ∨ c.cmd = 16 then { m with virtualInfo := forceVirtualDownload m.virtualInfo c }
  else m

theorem controllerSwitch_eq (m : ForceMem) (c : PcCommCmd) : controllerSwitch m c = directDispatch m c := by
  unfold controllerSwitch directDispatch
  cases hk : ForceCmd.ofCode? c.cmd with
  | some k =>
    rw [ForceCmd.code_of_ofCode? hk]
    cases k <;> rfl
  | none =>
    have hne := List.find?_eq_none.1 hk
    simp only [List.mem_cons, List.not_mem_nil, or_false, beq_iff_eq, forall_eq_or_imp, forall_eq, ForceCmd.code] at hne
    obtain ⟨h11, h12, h13, h14, h15, h16⟩ := hne
    rw [if_neg (Ne.symm h11), if_neg (Ne.symm h12), if_neg (Ne.symm h13), if_neg (Ne.symm h14),
      if_neg (by rintro (h | h); exacts [h15 h.symm, h16 h.symm])]

inductive DirectAct where
  | record (bytes : List UInt8)
  | clear
deriving DecidableEq

/-- A record is the command its 32 bytes are (`PcCommCmd.ofBytes_bytes`). -/
def directStep (m : ForceMem) : DirectAct → ForceMem
  | .record bytes => directDispatch m (PcCommCmd.ofBytes bytes)
  | .clear => m.clearVirtual

/-- **Each `read_data` gets one whole record by a full `fread`, or none.** -/
def Parent.WholeReads (s : Parent) : LoopAct → Prop
  | .iterate env => env.tcpiState = 1 →
      (∃ o os, env.freads = o :: os ∧ (fread s.net.fp clientBuffSize o).1.length = clientBuffSize) ∨
      (∃ net events, readData s.net clientBuffSize env.freads = .returned (-1, net, events))
  | _ => True

instance (fp : File) (n : Nat) (freads : List (Option Interrupt)) :
    Decidable (∃ o os, freads = o :: os ∧ (fread fp n o).1.length = n) :=
  decidable_of_iff (∃ o ∈ freads.head?, (fread fp n o).1.length = n) (by cases freads <;> simp)

instance (net : NetCircleBuff) (n : Nat) (freads : List (Option Interrupt)) (ret : Int32) :
    Decidable (∃ net' events, readData net n freads = .returned (ret, net', events)) :=
  decidable_of_iff (∃ r ∈ (readData net n freads).result?, r.1 = ret) (by
    simp only [Outcome.mem_result?_iff, Prod.exists]
    exact ⟨fun ⟨_, net', events, h, hret⟩ => ⟨net', events, hret ▸ h⟩, fun ⟨net', events, h⟩ => ⟨_, net', events, h, rfl⟩⟩)

instance (s : Parent) (act : LoopAct) : Decidable (s.WholeReads act) := by
  unfold Parent.WholeReads
  cases act <;> infer_instance

def Parent.delivered (s : Parent) (env : RcvEnv) : List (List UInt8) :=
  match env.freads with
  | [] => []
  | o :: _ =>
    if env.tcpiState = 1 ∧ (fread s.net.fp clientBuffSize o).1.length = clientBuffSize then
      [(fread s.net.fp clientBuffSize o).1]
    else []

theorem Parent.records_eq_delivered {s : Parent} {env : RcvEnv} (h : s.WholeReads (.iterate env)) :
    s.records (.iterate env) = s.delivered env := by
  unfold Parent.records Parent.delivered
  by_cases hst : env.tcpiState = 1
  · simp only [hst, if_true, true_and]
    rcases h hst with ⟨o, os, hf, hfull⟩ | ⟨net, events, hread⟩
    · simp only [hf, hfull, if_true, wholeRecord, readLoop_full _ os hfull]
      have hslice := slice_put (fun _ => 0) 0 (fread s.net.fp clientBuffSize o).1
      rw [hfull] at hslice
      rw [hslice]
    · rcases readData_cases hread with ⟨-, hrec, -⟩ | ⟨hret, -⟩
      · rw [hrec]
        cases hf : env.freads with
        | nil => rfl
        | cons o os =>
          simp only
          split
          · rename_i hfull
            rw [wholeRecord, hf, readLoop_full _ os hfull] at hrec
            cases hrec
          · rfl
      · exact absurd hret (by decide)
  · simp only [hst, if_false, false_and]
    split <;> rfl

def Parent.inputs (s : Parent) : LoopAct → List DirectAct
  | .arrive _ => []
  | .coreClear => [.clear]
  | .iterate env => (s.delivered env).map .record

/-- **The loop beside direct dispatch of the same records**: at every `network_rcv` the ring is empty, it was never found
full, the memory is the fold of the records and the core's stores, and the next iteration dispatches just the record it
takes. -/
structure LoopRefines (mem : ForceMem) (inputs : List DirectAct) (s : Parent) : Prop where
  ring_empty : isBuffEmpty s.net.localBuff.info = true
  never_full : Event.buffFull ∉ s.log
  direct : s.mem = inputs.foldl directStep mem
  dispatched_now : ∀ env s', s.WholeReads (.iterate env) → s.step (.iterate env) = some s' →
    commands s'.log = commands s.log ++ (s.delivered env).map PcCommCmd.ofBytes

/-- **The parent loop refines direct dispatch.** -/
theorem main_loop_refines_dispatch (pid sfd fd : Int32) (fp : File) (buff : Mem UInt8) (mem : ForceMem)
    (acts : List LoopAct) (s : Parent)
    (hwhole : Along Parent.step Parent.WholeReads (.start pid sfd fd fp buff mem) acts)
    (hrun : run Parent.step (.start pid sfd fd fp buff mem) acts = some s) :
    LoopRefines mem (trace Parent.step Parent.inputs (.start pid sfd fd fp buff mem) acts) s := by
  let I := fun (s : Parent) (t : List DirectAct) => (∃ n, LoopInv n s) ∧ s.mem = t.foldl directStep mem
  have I0 : I (.start pid sfd fd fp buff mem) [] :=
    ⟨⟨0, networkInit_holds sfd fd fp buff, rfl, by simp [Parent.start]⟩, rfl⟩
  have hstep : ∀ s t act s', I s t → s.WholeReads act → s.step act = some s' → I s' (t ++ s.inputs act) := by
    rintro s t act s' ⟨⟨n, I⟩, hmem⟩ hC hs
    refine ⟨⟨_, I.step hs⟩, ?_⟩
    rw [List.foldl_append, ← hmem]
    cases act with
    | arrive bytes => cases hs; rfl
    | coreClear => cases hs; rfl
    | iterate env =>
      obtain ⟨events, -, J⟩ := Parent.iterate_spec I.holds hs
      rw [J.mem, Parent.records_eq_delivered hC, Parent.inputs, List.foldl_map]
      simp only [controllerSwitch_eq, directStep]
  obtain ⟨⟨n, I⟩, hmem⟩ := run_inv_trace hstep acts _ _ _ I0 hwhole hrun
  rw [List.nil_append] at hmem
  refine ⟨I.holds.empty_iff.2 rfl, I.never_full, hmem, fun env s' hw hs => ?_⟩
  obtain ⟨events, hlog, J⟩ := Parent.iterate_spec I.holds hs
  rw [hlog, commands_append, J.commands, Parent.records_eq_delivered hw]

/-- A START, and the mode is set; a STOP while the core has not read the START; seven bytes of the next command before the
read times out, and the client is gone; the next client's STOP, and the mailbox is free. -/
def reconnectActs : List LoopAct :=
  [.arrive (PcCommCmd.bytes ⟨15, 0, fun _ => 5⟩), .arrive (PcCommCmd.bytes ⟨13, 0, fun _ => 0⟩), .receive,
    .arrive (PcCommCmd.bytes ⟨16, 0, fun _ => 6⟩), .receive, .receive, .coreClear, .arrive (List.replicate 7 16),
    .iterate ⟨1, [some ⟨7, .eagain⟩], 0, none, 0⟩, .iterate ⟨8, [], 9, some ⟨[], false, .other⟩, 21⟩,
    .arrive (PcCommCmd.bytes ⟨16, 0, fun _ => 7⟩), .receive]

theorem main_loop_reconnect : ∃ s : Parent, run Parent.step .blank reconnectActs = some s ∧
    LoopRefines Parent.blank.mem [.record (PcCommCmd.bytes ⟨15, 0, fun _ => 5⟩),
      .record (PcCommCmd.bytes ⟨13, 0, fun _ => 0⟩), .record (PcCommCmd.bytes ⟨16, 0, fun _ => 6⟩), .clear,
      .record (PcCommCmd.bytes ⟨16, 0, fun _ => 7⟩)] s ∧
    s.mem.virtualInfo.valid = virtualPending ∧ ∀ j, s.mem.virtualInfo.force j = 7 := by
  have htrace : trace Parent.step Parent.inputs .blank reconnectActs =
      [.record (PcCommCmd.bytes ⟨15, 0, fun _ => 5⟩), .record (PcCommCmd.bytes ⟨13, 0, fun _ => 0⟩),
        .record (PcCommCmd.bytes ⟨16, 0, fun _ => 6⟩), .clear, .record (PcCommCmd.bytes ⟨16, 0, fun _ => 7⟩)] := by
    decide +kernel
  obtain ⟨s, hs, hrefines⟩ := exists_run (by decide +kernel) (fun s hs =>
    main_loop_refines_dispatch 7 3 4 ⟨[], false, .other⟩ (fun _ => 0) Parent.blank.mem reconnectActs s (by decide +kernel) hs)
  change LoopRefines _ (trace Parent.step Parent.inputs .blank reconnectActs) s at hrefines
  rw [htrace] at hrefines
  refine ⟨s, hs, hrefines, ?_⟩
  rw [hrefines.direct]
  decide +kernel

end VirtualForce
