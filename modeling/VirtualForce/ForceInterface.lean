import Mathlib.Data.Fintype.Pi
import VirtualForce.LittleEndian
/-!
# ForceInterface — the mailboxes shared with the force core

What `force_interface.c` writes for the commands of a PC: the service call, replaced whole by each `Cmd_*` function, and
the virtual-force mailbox, filled only while it is free; beside them the results, the instructions and the monitor
samples, each behind its `valid`.
-/
namespace VirtualForce

open LittleEndian

structure ServoCoreProcessCall where
  cmd : Int32
  param1 : Int32
  param2 : Int32
  param3 : Int32
  param4 : Int32
  param5 : Int32
  param6 : Int32
  param7 : Int32
deriving DecidableEq

/-- The axes have a first one. -/
instance neZero_six : NeZero 6 := ⟨by decide⟩

/-- The commands of `SERVO_CMD_e` that the functions below send. -/
inductive ServoCmd where
  | working
  | idle
  | setFault
  | resetFault
  | switchMode
deriving DecidableEq

def ServoCmd.code : ServoCmd → Int32
  | .working => 0x01
  | .idle => 0x02
  | .setFault => 0x03
  | .resetFault => 0x04
  | .switchMode => 0x05

theorem ServoCmd.code_inj {c d : ServoCmd} (h : c.code = d.code) : c = d := by
  cases c <;> cases d <;> first | rfl | exact absurd h (by decide)

inductive ForceCmd where
  | resetFault
  | idle
  | working
  | setFault
  | forceGiveStart
  | forceGiveStop
deriving DecidableEq

def ForceCmd.code : ForceCmd → Int32
  | .resetFault => 11
  | .idle => 12
  | .working => 13
  | .setFault => 14
  | .forceGiveStart => 15
  | .forceGiveStop => 16

def ForceCmd.ofCode? (c : Int32) : Option ForceCmd :=
  [ForceCmd.resetFault, .idle, .working, .setFault, .forceGiveStart, .forceGiveStop].find? (fun k => k.code == c)

theorem ForceCmd.ofCode?_code (k : ForceCmd) : ForceCmd.ofCode? k.code = some k := by cases k <;> rfl

theorem ForceCmd.code_of_ofCode? {c : Int32} {k : ForceCmd} (h : ForceCmd.ofCode? c = some k) : c = k.code := by
  have hk := List.find?_some h
  exact (beq_iff_eq.1 hk).symm

/-- `Pc_Comm_Cmd_t`, and its 32 bytes. -/
structure PcCommCmd where
  cmd : Int32
  rsv : Int32
  params : Fin 6 → Int32
deriving DecidableEq

def PcCommCmd.ofBytes (l : List UInt8) : PcCommCmd :=
  ⟨int32At 0 l, int32At 4 l, fun j => int32At (8 + 4 * j) l⟩

def PcCommCmd.bytes (c : PcCommCmd) : List UInt8 :=
  int32Bytes c.cmd ++ (int32Bytes c.rsv ++ (List.ofFn c.params).flatMap int32Bytes)

theorem PcCommCmd.bytes_length (c : PcCommCmd) : c.bytes.length = 32 := by
  have hparams : ((List.ofFn c.params).flatMap int32Bytes).length = 24 := by
    rw [List.length_flatMap, List.map_congr_left (fun x _ => int32Bytes_length x), List.map_const', List.length_ofFn]
    rfl
  rw [PcCommCmd.bytes, List.length_append, List.length_append, int32Bytes_length, int32Bytes_length, hparams]

/-- **A command read from its bytes is the command.** -/
theorem PcCommCmd.ofBytes_bytes (c : PcCommCmd) : PcCommCmd.ofBytes c.bytes = c := by
  have hrest : ∀ o, int32At (4 + o) c.bytes =
      int32At o (int32Bytes c.rsv ++ (List.ofFn c.params).flatMap int32Bytes) :=
    fun o => int32At_skip (int32Bytes_length c.cmd) o _
  have hcmd : int32At 0 c.bytes = c.cmd := int32At_first _ _
  have hrsv : int32At 4 c.bytes = c.rsv := (hrest 0).trans (int32At_first _ _)
  have hparams : ∀ j : Fin 6, int32At (8 + 4 * j) c.bytes = c.params j := by
    intro j
    have hword := int32At_flatMap (List.ofFn c.params) [] j (by rw [List.length_ofFn]; exact j.isLt)
    rw [List.append_nil, List.getElem_ofFn] at hword
    rw [show 8 + 4 * (j : Nat) = 4 + (4 + 4 * j) by omega, hrest, int32At_skip (int32Bytes_length c.rsv), hword]
  simp only [PcCommCmd.ofBytes, hcmd, hrsv, hparams]

/-- `Pc_Comm_Data_t`, and its 56 bytes; a `double` is its eight bytes. -/
structure PcCommData where
  head : Int32
  forceState : Int32
  forceTheta : Fin 6 → UInt64
deriving DecidableEq

def PcCommData.ofBytes (l : List UInt8) : PcCommData :=
  ⟨int32At 0 l, int32At 4 l, fun j => uint64At (8 + 8 * j) l⟩

def PcCommData.bytes (d : PcCommData) : List UInt8 :=
  int32Bytes d.head ++ (int32Bytes d.forceState ++ (List.ofFn d.forceTheta).flatMap uint64Bytes)

/-- `sizeof(Pc_Comm_Data_t)`. -/
def monitorFrameSize : Nat := 56

theorem PcCommData.bytes_length (d : PcCommData) : d.bytes.length = monitorFrameSize := by
  have htheta : ((List.ofFn d.forceTheta).flatMap uint64Bytes).length = 48 := by
    rw [List.length_flatMap, List.map_congr_left (fun x _ => uint64Bytes_length x), List.map_const', List.length_ofFn]
    rfl
  rw [PcCommData.bytes, List.length_append, List.length_append, int32Bytes_length, int32Bytes_length, htheta]
  rfl

/-- **A frame read from its bytes is the frame.** -/
theorem PcCommData.ofBytes_bytes (d : PcCommData) : PcCommData.ofBytes d.bytes = d := by
  have hrest : ∀ o, int32At (4 + o) d.bytes =
      int32At o (int32Bytes d.forceState ++ (List.ofFn d.forceTheta).flatMap uint64Bytes) :=
    fun o => int32At_skip (int32Bytes_length d.head) o _
  have hhead : int32At 0 d.bytes = d.head := int32At_first _ _
  have hstate : int32At 4 d.bytes = d.forceState := (hrest 0).trans (int32At_first _ _)
  have htheta : ∀ j : Fin 6, uint64At (8 + 8 * j) d.bytes = d.forceTheta j := by
    intro j
    have hword := uint64At_flatMap (List.ofFn d.forceTheta) [] j (by rw [List.length_ofFn]; exact j.isLt)
    rw [List.append_nil, List.getElem_ofFn] at hword
    rw [show 8 + 8 * (j : Nat) = 4 + (4 + 8 * j) by omega, PcCommData.bytes, uint64At_skip (int32Bytes_length d.head),
      uint64At_skip (int32Bytes_length d.forceState), hword]
  simp only [PcCommData.ofBytes, hhead, hstate, htheta]

def magigHead : Int32 := 0x11181118

structure ForceVirtualCmd where
  valid : Int32
  force : Fin 6 → Int32
deriving DecidableEq

/-- The pages shared with the force core, as far as a PC's commands reach. -/
structure ForceMem where
  serviceInfo : ServoCoreProcessCall
  virtualInfo : ForceVirtualCmd
deriving DecidableEq

def servoForceCommSetCmd (m : ForceMem) (app : ServoCoreProcessCall) : ForceMem := { m with serviceInfo := app }

/-- `ServoCoreProcessCall_t app={0}` with its command. -/
def ServoCmd.call (c : ServoCmd) : ServoCoreProcessCall := ⟨c.code, 0, 0, 0, 0, 0, 0, 0⟩

def servoForceCommCmdWorking (m : ForceMem) : ForceMem := servoForceCommSetCmd m (ServoCmd.call .working)

def servoForceCommCmdIdle (m : ForceMem) : ForceMem := servoForceCommSetCmd m (ServoCmd.call .idle)

def servoForceCommCmdSetFault (m : ForceMem) : ForceMem := servoForceCommSetCmd m (ServoCmd.call .setFault)

def servoForceCommCmdResetFault (m : ForceMem) : ForceMem := servoForceCommSetCmd m (ServoCmd.call .resetFault)

def servoForceCommCmdMode (m : ForceMem) (mode submode : Int32) : ForceMem :=
  servoForceCommSetCmd m { ServoCmd.call .switchMode with param1 := mode, param2 := submode }

/-- Two codes of `FORCE_DIGNOSE_VAR_e`, an unsigned enumeration, or-ed into one word. -/
def dignosePair (lo hi : UInt32) : Int32 := (lo ||| (hi <<< 16)).toInt32

/-- `Servo_Force_Comm_Cmd_DignoseCfg`; it sends `CMD_SWITCH_MODE`, not `CMD_DIGNOSE_CONFIG`. -/
def servoForceCommCmdDignoseCfg (m : ForceMem) (ptr : Fin 6 → UInt32) : ForceMem :=
  servoForceCommSetCmd m { ServoCmd.call .switchMode with
    param1 := dignosePair (ptr 0) (ptr 1)
    param2 := dignosePair (ptr 2) (ptr 3)
    param3 := dignosePair (ptr 4) (ptr 5) }

/-- `FORCE_BACK_INFO_t`. -/
structure ForceBackInfo where
  valid : Int32
  theta : Fin 6 → Int32
  force : Fin 6 → Int32
  dignoseVar : Fin 6 → Fin 6 → Int32
  rsvData : Int32

/-- `Servo_Force_Comm_Get_Result`: the return value, the mailbox, and what `pull_ptr` points to. -/
def servoForceCommGetResult (back pull : ForceBackInfo) : Int32 × ForceBackInfo × ForceBackInfo :=
  if back.valid ≠ 0 then (0, { back with valid := 0 }, back) else (-1, back, pull)

/-- `FORCE_INSTRUCTION_INFO_t`; `doubles` is its eight groups of six, `in_pos_given` to `in_force_back`. -/
structure ForceInstructionInfo where
  valid : Int32
  notUsed : Int32
  doubles : Fin 8 → Fin 6 → UInt64

/-- `Servo_Force_Comm_Set_Instruct`: the return value and the mailbox. -/
def servoForceCommSetInstruct (instruct push : ForceInstructionInfo) : Int32 × ForceInstructionInfo :=
  if instruct.valid = 0 then (0, { push with valid := 1 }) else (-1, instruct)

structure ForceMonitor where
  valid : Int32
  forceState : Int32
  forceTheta : Fin 6 → UInt64
deriving DecidableEq

def forceMonitorUpload (monitor : ForceMonitor) (frame : PcCommData) : PcCommData × ForceMonitor :=
  if monitor.valid = 1 then
    ({ frame with forceState := monitor.forceState, forceTheta := monitor.forceTheta }, { monitor with valid := 0 })
  else (frame, monitor)

/-- `0xdeadbeef`, as the `int` it is stored in. -/
def virtualPending : Int32 := Int32.ofNat 0xdeadbeef

def forceVirtualDownload (v : ForceVirtualCmd) (vcmd : PcCommCmd) : ForceVirtualCmd :=
  if v.valid = 0 then { force := fun j => vcmd.params j, valid := virtualPending } else v

theorem forceVirtualDownload_free {v : ForceVirtualCmd} (vcmd : PcCommCmd) (h : v.valid = 0) :
    forceVirtualDownload v vcmd = ⟨virtualPending, vcmd.params⟩ := if_pos h

theorem forceVirtualDownload_pending {v : ForceVirtualCmd} (vcmd : PcCommCmd) (h : v.valid ≠ 0) :
    forceVirtualDownload v vcmd = v := if_neg h

end VirtualForce
