import VirtualForce.ForceInterface
/-!
# ServiceCall — which call a service record came from

The record in `service_info` tells one call from another, but for one pair: `Cmd_DignoseCfg` sends the command of
`Cmd_Mode`, and with no code in its last word it is the call of the mode and the submode its other words are.
-/
namespace VirtualForce

/-- The functions that place a record, with their arguments. -/
inductive ServiceCall where
  | working
  | idle
  | setFault
  | resetFault
  | mode (mode submode : Int32)
  | dignoseCfg (ptr : Fin 6 → UInt32)
deriving DecidableEq

namespace ServiceCall

def run (m : ForceMem) : ServiceCall → ForceMem
  | .working => servoForceCommCmdWorking m
  | .idle => servoForceCommCmdIdle m
  | .setFault => servoForceCommCmdSetFault m
  | .resetFault => servoForceCommCmdResetFault m
  | .mode md sub => servoForceCommCmdMode m md sub
  | .dignoseCfg ptr => servoForceCommCmdDignoseCfg m ptr

/-- The command a call sends. -/
def cmd : ServiceCall → ServoCmd
  | .working => .working
  | .idle => .idle
  | .setFault => .setFault
  | .resetFault => .resetFault
  | .mode _ _ => .switchMode
  | .dignoseCfg _ => .switchMode

theorem serviceInfo_cmd (m : ForceMem) (c : ServiceCall) : (c.run m).serviceInfo.cmd = c.cmd.code := by cases c <;> rfl

/-- The codes of a diagnosis are in `[0, 65535]`. -/
def CodesFit : ServiceCall → Prop
  | .dignoseCfg ptr => ∀ j, (ptr j).toNat ≤ 65535
  | _ => True

/-- A mode and a diagnosis: the mode and the submode, unsigned, are the first four codes, two to a word, and the last
two codes are 0. -/
def Confused : ServiceCall → ServiceCall → Prop
  | .mode md sub, .dignoseCfg ptr =>
    md.toUInt32.toNat = (ptr 0).toNat + 65536 * (ptr 1).toNat ∧
      sub.toUInt32.toNat = (ptr 2).toNat + 65536 * (ptr 3).toNat ∧ (ptr 4).toNat = 0 ∧ (ptr 5).toNat = 0
  | _, _ => False

end ServiceCall

/-! ## Two codes in a word -/

section
variable {lo hi lo' hi' : UInt32}

theorem toNat_dignosePair (hlo : lo.toNat ≤ 65535) (hhi : hi.toNat ≤ 65535) :
    (dignosePair lo hi).toUInt32.toNat = lo.toNat + 65536 * hi.toNat := by
  have hshift : (hi <<< 16).toNat = hi.toNat <<< 16 := by
    have hlt : hi.toNat <<< 16 < 2 ^ 32 := by
      rw [Nat.shiftLeft_eq]
      omega
    rw [UInt32.toNat_shiftLeft]
    exact Nat.mod_eq_of_lt hlt
  rw [dignosePair, UInt32.toUInt32_toInt32, UInt32.toNat_or, hshift, Nat.or_comm,
    ← Nat.shiftLeft_add_eq_or_of_lt (by omega), Nat.shiftLeft_eq]
  omega

theorem eq_dignosePair_iff {x : Int32} (hlo : lo.toNat ≤ 65535) (hhi : hi.toNat ≤ 65535) :
    x = dignosePair lo hi ↔ x.toUInt32.toNat = lo.toNat + 65536 * hi.toNat := by
  rw [← toNat_dignosePair hlo hhi]
  constructor
  · rintro rfl; rfl
  · exact fun h => congrArg UInt32.toInt32 (UInt32.toNat_inj.1 h)

theorem dignosePair_inj (hlo : lo.toNat ≤ 65535) (hhi : hi.toNat ≤ 65535) (hlo' : lo'.toNat ≤ 65535)
    (hhi' : hi'.toNat ≤ 65535) (h : dignosePair lo hi = dignosePair lo' hi') : lo = lo' ∧ hi = hi' := by
  have hwords := (eq_dignosePair_iff hlo' hhi').1 h
  rw [toNat_dignosePair hlo hhi] at hwords
  exact ⟨UInt32.toNat_inj.1 (by omega), UInt32.toNat_inj.1 (by omega)⟩

end

/-! ## Which calls share a record -/

namespace ServiceCall

variable {m m' : ForceMem}

theorem serviceInfo_eq_iff {md sub : Int32} {ptr : Fin 6 → UInt32} (hfit : ∀ j, (ptr j).toNat ≤ 65535) :
    ((mode md sub).run m).serviceInfo = ((dignoseCfg ptr).run m').serviceInfo ↔
      Confused (.mode md sub) (.dignoseCfg ptr) := by
  have hlast : (0 : Int32).toUInt32.toNat = 0 := rfl
  have hwords : ((mode md sub).run m).serviceInfo = ((dignoseCfg ptr).run m').serviceInfo ↔
      md = dignosePair (ptr 0) (ptr 1) ∧ sub = dignosePair (ptr 2) (ptr 3) ∧ 0 = dignosePair (ptr 4) (ptr 5) := by
    simp [run, servoForceCommCmdMode, servoForceCommCmdDignoseCfg, servoForceCommSetCmd, ServoCmd.call]
  rw [hwords, eq_dignosePair_iff (hfit _) (hfit _), eq_dignosePair_iff (hfit _) (hfit _),
    eq_dignosePair_iff (hfit _) (hfit _), hlast]
  unfold Confused
  omega

theorem mode_inj {md sub md' sub' : Int32}
    (h : ((mode md sub).run m).serviceInfo = ((mode md' sub').run m').serviceInfo) : mode md sub = mode md' sub' := by
  have h1 : md = md' := congrArg ServoCoreProcessCall.param1 h
  have h2 : sub = sub' := congrArg ServoCoreProcessCall.param2 h
  rw [h1, h2]

theorem dignoseCfg_inj {ptr ptr' : Fin 6 → UInt32} (hfit : ∀ j, (ptr j).toNat ≤ 65535)
    (hfit' : ∀ j, (ptr' j).toNat ≤ 65535)
    (h : ((dignoseCfg ptr).run m).serviceInfo = ((dignoseCfg ptr').run m').serviceInfo) :
    dignoseCfg ptr = dignoseCfg ptr' := by
  obtain ⟨h0, h1⟩ := dignosePair_inj (hfit _) (hfit _) (hfit' _) (hfit' _) (congrArg ServoCoreProcessCall.param1 h)
  obtain ⟨h2, h3⟩ := dignosePair_inj (hfit _) (hfit _) (hfit' _) (hfit' _) (congrArg ServoCoreProcessCall.param2 h)
  obtain ⟨h4, h5⟩ := dignosePair_inj (hfit _) (hfit _) (hfit' _) (hfit' _) (congrArg ServoCoreProcessCall.param3 h)
  congr 1
  funext j
  match j with
  | 0 => exact h0
  | 1 => exact h1
  | 2 => exact h2
  | 3 => exact h3
  | 4 => exact h4
  | 5 => exact h5

/-- Calls of one command are one call, or both switch the mode. -/
theorem eq_or_switchMode {c d : ServiceCall} (h : c.cmd = d.cmd) : c = d ∨ c.cmd = .switchMode := by
  cases c <;> cases d <;> first | exact .inl rfl | exact .inr rfl | cases h

end ServiceCall

/-- **The record of a call tells it from another exactly where the two are not a mode and a diagnosis of the same
words.** -/
theorem service_calls_injective_iff (m m' : ForceMem) (c d : ServiceCall) (hc : c.CodesFit) (hd : d.CodesFit) :
    ((c.run m).serviceInfo = (d.run m').serviceInfo → c = d) ↔ ¬ c.Confused d ∧ ¬ d.Confused c := by
  constructor
  · intro h
    refine ⟨fun hcd => ?_, fun hdc => ?_⟩
    · cases c <;> cases d <;> try exact hcd
      cases h ((ServiceCall.serviceInfo_eq_iff hd).2 hcd)
    · cases d <;> cases c <;> try exact hdc
      cases h ((ServiceCall.serviceInfo_eq_iff hc).2 hdc).symm
  · rintro ⟨hcd, hdc⟩ h
    have hcmd : c.cmd = d.cmd := by
      apply ServoCmd.code_inj
      rw [← c.serviceInfo_cmd m, ← d.serviceInfo_cmd m', h]
    rcases ServiceCall.eq_or_switchMode hcmd with heq | hswitch
    · exact heq
    · rw [hswitch] at hcmd
      cases c with
      | mode md sub =>
        cases d with
        | mode md' sub' => exact ServiceCall.mode_inj h
        | dignoseCfg ptr => exact absurd ((ServiceCall.serviceInfo_eq_iff hd).1 h) hcd
        | _ => cases hcmd
      | dignoseCfg ptr =>
        cases d with
        | mode md sub => exact absurd ((ServiceCall.serviceInfo_eq_iff hc).1 h.symm) hdc
        | dignoseCfg ptr' => exact ServiceCall.dignoseCfg_inj hc hd h
        | _ => cases hcmd
      | _ => cases hswitch

/-- Mode 1 with submode 2, and a diagnosis of six codes 1. -/
theorem service_calls_injective_iff_mode :
    (((ServiceCall.mode 1 2).run ⟨⟨0, 0, 0, 0, 0, 0, 0, 0⟩, ⟨0, fun _ => 0⟩⟩).serviceInfo =
      ((ServiceCall.dignoseCfg (fun _ => 1)).run
        ⟨⟨0, 0, 0, 0, 0, 0, 0, 0⟩, ⟨0, fun _ => 0⟩⟩).serviceInfo →
        ServiceCall.mode 1 2 = .dignoseCfg (fun _ => 1)) ↔
      ¬ (ServiceCall.mode 1 2).Confused (.dignoseCfg (fun _ => 1)) ∧
        ¬ (ServiceCall.dignoseCfg (fun _ => 1)).Confused (.mode 1 2) :=
  service_calls_injective_iff _ _ _ _ trivial (by unfold ServiceCall.CodesFit; decide)

/-- Admittance mode with no submode, and a diagnosis of code 2 alone. -/
theorem dignosis_is_mode : ¬ ∀ (m m' : ForceMem) (c d : ServiceCall), c.CodesFit → d.CodesFit →
    (c.run m).serviceInfo = (d.run m').serviceInfo → c = d := by
  intro h
  have heq := h ⟨⟨0, 0, 0, 0, 0, 0, 0, 0⟩, ⟨0, fun _ => 0⟩⟩ ⟨⟨0, 0, 0, 0, 0, 0, 0, 0⟩, ⟨0, fun _ => 0⟩⟩ (.mode 2 0)
    (.dignoseCfg (fun j => if j.val = 0 then 2 else 0)) trivial (by unfold ServiceCall.CodesFit; decide) (by decide)
  cases heq

end VirtualForce
