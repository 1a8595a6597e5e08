import VirtualForce.NetworkClient
/-!
# Controller — commands off the ring, frames to the PC

`controller_msg_parase` of the parent loop, the critical section of `controller_msg_process`, and the frame that
`controller_display_res` sends back.
-/
namespace VirtualForce

open Memory

def pullEvents (r : Ring) : List Event :=
  if isBuffEmpty r.info then []
  else [.pulled r.info.headIndexOffset
    (slice r.buff r.info.headIndexOffset.toInt r.info.elementLength.toInt.toNat)]

def controllerSwitch (m : ForceMem) (cmd : PcCommCmd) : ForceMem :=
  match ForceCmd.ofCode? cmd.cmd with
  | some .resetFault => servoForceCommCmdResetFault m
  | some .idle => servoForceCommCmdIdle m
  | some .working => servoForceCommCmdWorking m
  | some .setFault => servoForceCommCmdSetFault m
  | some .forceGiveStart => { m with virtualInfo := forceVirtualDownload m.virtualInfo cmd }
  | some .forceGiveStop => { m with virtualInfo := forceVirtualDownload m.virtualInfo cmd }
  | none => m

def controllerMsgParase (net : NetCircleBuff) (m : ForceMem) : NetCircleBuff × ForceMem × List Event :=
  if isBuffEmpty net.localBuff.info then (net, m, [])
  else
    let pulled := pullCircleBuffItem net.localBuff (fun _ => 0)
    let cmd := PcCommCmd.ofBytes (slice pulled.2.2 0 clientBuffSize)
    if pulled.1 < 0 then ({ net with localBuff := pulled.2.1 }, m, pullEvents net.localBuff)
    else ({ net with localBuff := pulled.2.1 }, controllerSwitch m cmd,
      pullEvents net.localBuff ++ [.dispatched cmd])

/-- One round of `controller_msg_process`, its mutex held. -/
def controllerMsgProcess (net : NetCircleBuff) : NetCircleBuff × List Event :=
  if isBuffEmpty net.localBuff.info then (net, [])
  else ({ net with localBuff := (pullCircleBuffItem net.localBuff (fun _ => 0)).2.1 }, pullEvents net.localBuff)

/-- `controller_display_res`: the frame it hands to `network_set`, and the monitor mailbox. -/
def controllerDisplayRes (monitor : ForceMonitor) : PcCommData × ForceMonitor :=
  forceMonitorUpload monitor ⟨magigHead, 0, fun _ => 0⟩

theorem controllerDisplayRes_head (monitor : ForceMonitor) : (controllerDisplayRes monitor).1.head = magigHead := by
  unfold controllerDisplayRes forceMonitorUpload
  split <;> rfl

end VirtualForce
