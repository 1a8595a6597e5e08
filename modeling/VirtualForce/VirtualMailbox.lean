import VirtualForce.Controller
import VirtualForce.Mailbox
/-!
# VirtualMailbox — virtual-force commands and the force core

`Force_Virtual_Download` a word at a time beside the core's reading of the mailbox.  It fills the mailbox only while
`valid` is 0: a command dispatched while the last one waits for the core is dropped, be it a STOP.  What is not lost is
the last command accepted.
-/
namespace VirtualForce

open Mailbox Runs

theorem valid_cleared : ((0 : Int32) == 0) = true := by decide

theorem valid_not_both (valid : Int32) (h : (valid == 0) = true) : (valid != 0) = false := by rw [bne, h]; rfl

/-- `virtual_info->valid`: tested against 0 by either side, stored `0xdeadbeef` and 0. -/
def virtualSignal : Signal Int32 where
  free := fun valid => valid == 0
  full := fun valid => valid != 0
  mark := virtualPending
  clear := 0
  full_mark := by decide
  free_clear := valid_cleared
  not_both := valid_not_both

abbrev VirtualBox := Box Int32 Int32 6

def VirtualBox.virtualInfo (s : VirtualBox) : ForceVirtualCmd := ⟨s.flag, s.words⟩

/-- **Uninterrupted, the writer's steps are `Force_Virtual_Download`** on a free mailbox. -/
theorem run_download (s : VirtualBox) (vcmd : PcCommCmd) (hidle : s.writer = .idle) (hfree : s.flag = 0) :
    (run (Box.step virtualSignal) s (.offer vcmd.params :: ((List.finRange 6).map .writeWord ++ [.mark]))).map
      VirtualBox.virtualInfo = some (forceVirtualDownload s.virtualInfo vcmd) := by
  rw [run_put virtualSignal s vcmd.params hidle (by rw [hfree]; rfl), forceVirtualDownload_free vcmd hfree]
  rfl

theorem step_download_pending (s : VirtualBox) (vcmd : PcCommCmd) (hidle : s.writer = .idle) (hpending : s.flag ≠ 0) :
    (s.step virtualSignal (.offer vcmd.params)).map VirtualBox.virtualInfo =
      some (forceVirtualDownload s.virtualInfo vcmd) := by
  rw [step_dropped virtualSignal s vcmd.params hidle (by simpa [virtualSignal] using hpending),
    forceVirtualDownload_pending vcmd hpending]
  rfl

/-- A record that `controller_msg_parase` passes to `Force_Virtual_Download`. -/
def PcCommCmd.IsVirtual (c : PcCommCmd) : Prop :=
  c.cmd = ForceCmd.code .forceGiveStart ∨ c.cmd = ForceCmd.code .forceGiveStop

instance (c : PcCommCmd) : Decidable c.IsVirtual := inferInstanceAs (Decidable (_ ∨ _))

theorem controllerSwitch_virtual (m : ForceMem) {c : PcCommCmd} (h : c.IsVirtual) :
    controllerSwitch m c = { m with virtualInfo := forceVirtualDownload m.virtualInfo c } := by
  unfold controllerSwitch
  rcases h with h | h <;> rw [h, ForceCmd.ofCode?_code]

inductive VirtualAct where
  /-- `controller_msg_parase` calls `Force_Virtual_Download` -/
  | dispatch (cmd : PcCommCmd)
  | storeWord (j : Fin 6)
  | storeValid
  | coreTest (buf : Fin 6 → Int32)
  | coreWord (j : Fin 6)
  | coreClear

/-- The mailbox, the commands dispatched, and those of them dispatched while `valid` was 0. -/
structure VirtualLink where
  box : VirtualBox
  dispatched : List PcCommCmd
  accepted : List PcCommCmd

def VirtualLink.start (words : Fin 6 → Int32) : VirtualLink := ⟨.start 0 words, [], []⟩

def VirtualLink.onBox (s : VirtualLink) (act : Act Int32 6) : Option VirtualLink :=
  (s.box.step virtualSignal act).map (fun box => { s with box := box })

def VirtualLink.step (s : VirtualLink) : VirtualAct → Option VirtualLink
  | .dispatch cmd =>
    if cmd.IsVirtual then
      (s.box.step virtualSignal (.offer cmd.params)).map (fun box =>
        ⟨box, s.dispatched ++ [cmd], if s.box.flag = 0 then s.accepted ++ [cmd] else s.accepted⟩)
    else none
  | .storeWord j => s.onBox (.writeWord j)
  | .storeValid => s.onBox .mark
  | .coreTest buf => s.onBox (.look buf)
  | .coreWord j => s.onBox (.readWord j)
  | .coreClear => s.onBox .clear

/-- The commands accepted are the records put in the mailbox, with the one being put. -/
structure VirtualInv (s : VirtualLink) : Prop where
  box : Mailbox.Inv virtualSignal s.box
  accepted : s.accepted.map PcCommCmd.params = s.box.putting

theorem VirtualInv.onBox {s s' : VirtualLink} {act : Act Int32 6} (I : VirtualInv s) (hact : s.box.begins virtualSignal act = [])
    (h : s.onBox act = some s') : VirtualInv s' := by
  simp only [VirtualLink.onBox, Option.map_eq_some_iff] at h
  obtain ⟨box, hbox, rfl⟩ := h
  have hput := putting_step virtualSignal hbox
  rw [hact, List.append_nil] at hput
  exact ⟨I.box.step hbox, I.accepted.trans hput.symm⟩

theorem VirtualInv.step {s s' : VirtualLink} {act : VirtualAct} (I : VirtualInv s) (h : s.step act = some s') :
    VirtualInv s' := by
  cases act with
  | dispatch cmd =>
    simp only [VirtualLink.step] at h
    split at h
    · rw [Option.map_eq_some_iff] at h
      obtain ⟨box, hbox, rfl⟩ := h
      have hput := putting_step virtualSignal hbox
      refine ⟨I.box.step hbox, ?_⟩
      rw [hput, ← I.accepted]
      by_cases hfree : s.box.flag = 0
      · simp [Box.begins, virtualSignal, hfree]
      · simp [Box.begins, virtualSignal, hfree]
    · cases h
  | storeWord j => exact I.onBox rfl h
  | storeValid => exact I.onBox rfl h
  | coreTest buf => exact I.onBox rfl h
  | coreWord j => exact I.onBox rfl h
  | coreClear => exact I.onBox rfl h

/-- **What the mailbox keeps**: between dispatches, the last command accepted is pending in it or was the last one
consumed; a command dispatched while one is pending leaves it alone; and the vectors consumed are those of the commands
accepted, in order. -/
structure VirtualSafe (s : VirtualLink) : Prop where
  last_accepted : s.box.writer = .idle → ∀ cmd, s.accepted.getLast? = some cmd →
    (s.box.flag ≠ 0 ∧ s.box.words = cmd.params) ∨ (s.box.flag = 0 ∧ s.box.taken.getLast? = some cmd.params)
  dropped : ∀ cmd s', s.box.flag ≠ 0 → s.step (.dispatch cmd) = some s' →
    s'.box.virtualInfo = s.box.virtualInfo ∧ s'.accepted = s.accepted
  consumed : s.box.writer = .idle → s.box.taken <+: s.accepted.map PcCommCmd.params

theorem VirtualInv.safe {s : VirtualLink} (I : VirtualInv s) : VirtualSafe s := by
  have hput : s.box.writer = .idle → s.accepted.map PcCommCmd.params = s.box.put := fun hidle => by
    rw [I.accepted, Box.putting, hidle]
  refine ⟨fun hidle cmd hlast => ?_, fun cmd s' hpending h => ?_, fun hidle => ?_⟩
  · have hlast' : s.box.put.getLast? = some cmd.params := by
      rw [← hput hidle, List.getLast?_map, hlast]
      rfl
    rcases I.box.last_put with ⟨hfull, hwords⟩ | ⟨hfree, htaken⟩
    · left
      rw [hlast', Option.some.injEq] at hwords
      exact ⟨by simpa [virtualSignal] using hfull, hwords.symm⟩
    · right
      rw [hlast'] at htaken
      exact ⟨by simpa [virtualSignal] using hfree, htaken.symm⟩
  · simp only [VirtualLink.step] at h
    split at h
    · rw [Option.map_eq_some_iff] at h
      obtain ⟨box, hbox, rfl⟩ := h
      rcases step_offer hbox with ⟨-, ⟨hfree, rfl⟩ | ⟨-, rfl⟩⟩
      · exact absurd (by simpa [virtualSignal] using hfree) hpending
      · exact ⟨rfl, rfl⟩
    · cases h
  · rw [hput hidle]
    exact I.box.taken_prefix

/-- **The last virtual-force command accepted is never lost**, over every interleaving with the force core, from a free
mailbox. -/
theorem virtual_mailbox_keeps_accepted (words : Fin 6 → Int32) (acts : List VirtualAct) (s : VirtualLink)
    (hrun : run VirtualLink.step (.start words) acts = some s) : VirtualSafe s := by
  have I0 : VirtualInv (.start words) := ⟨Inv.start words (by decide), rfl⟩
  exact (run_inv (fun _ _ _ I hs => VirtualInv.step I hs) acts _ _ I0 hrun).safe

def dispatchActs (cmd : PcCommCmd) : List VirtualAct := .dispatch cmd :: ((List.finRange 6).map .storeWord ++ [.storeValid])

/-- Two STARTs are accepted; a STOP between them comes while the core is reading the first, and is dropped. -/
theorem virtual_mailbox_start : ∃ s : VirtualLink,
    run VirtualLink.step (.start (fun _ => 0))
      (dispatchActs ⟨15, 0, fun _ => 5⟩ ++ [.coreTest (fun _ => 0), .dispatch ⟨16, 0, fun _ => 0⟩] ++
        (List.finRange 6).map .coreWord ++ [.coreClear] ++ dispatchActs ⟨15, 0, fun _ => 7⟩) = some s ∧
      VirtualSafe s ∧ s.dispatched.map (fun cmd => cmd.cmd) = [15, 16, 15] ∧ s.accepted.map (fun cmd => cmd.cmd) = [15, 15] :=
  exists_run_check (by decide +kernel) (fun s hs _ => virtual_mailbox_keeps_accepted _ _ s hs)

/-- A START and then a STOP, the core not having read between them: the STOP is dropped. -/
theorem stop_dropped : ¬ ∀ (acts : List VirtualAct) (s : VirtualLink),
    run VirtualLink.step (.start (fun _ => 0)) acts = some s → s.box.writer = .idle →
      ∀ cmd, s.dispatched.getLast? = some cmd →
        (s.box.flag ≠ 0 ∧ s.box.words = cmd.params) ∨ (s.box.flag = 0 ∧ s.box.taken.getLast? = some cmd.params) := by
  intro h
  have hend : (run VirtualLink.step (.start (fun _ => 0))
      (dispatchActs ⟨15, 0, fun _ => 5⟩ ++ [.dispatch ⟨16, 0, fun _ => 0⟩])).map
        (fun s => (s.dispatched.getLast?.map (fun cmd => cmd.params 0), s.box.words 0, s.box.flag,
          s.box.writer matches .idle)) = some (some 0, 5, virtualPending, true) := by decide +kernel
  obtain ⟨s, hs, heq⟩ := Option.map_eq_some_iff.1 hend
  simp only [Prod.mk.injEq, Option.map_eq_some_iff] at heq
  obtain ⟨⟨cmd, hlast, hcmd⟩, hword, hflag, hwriter⟩ := heq
  have hidle : s.box.writer = .idle := by
    cases hw : s.box.writer with
    | idle => rfl
    | copying record done => simp [hw] at hwriter
  rcases h _ s hs hidle cmd hlast with ⟨-, hwords⟩ | ⟨hfree, -⟩
  · rw [hwords, hcmd] at hword
    exact absurd hword (by decide)
  · rw [hflag] at hfree
    exact absurd hfree (by decide)

end VirtualForce
