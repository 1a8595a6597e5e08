import VirtualForce.Runs
import VirtualForce.Widget
/-!
# WidgetReads — what the monitor reads out of a chunk

The slot of a chunk beside the timer that shows `rcvMsg`.  The slot compares the head of a chunk before its length, and
nothing compares the state of a frame with the size of `state_str`: the reads are in range when the peer sends what
keeps them so.
-/
namespace VirtualForce

open LittleEndian Runs

def stateStr : List String :=
  ["FORCE_BOOT", "FORCE_INIT", "FORCE_IDLE", "FORCE_WORKING", "FORCE_ABORT", "FORCE_FAULT"]

/-- A read whose place depends on what was received. -/
inductive WidgetRead where
  /-- `pdata->head`, in a chunk of `size` bytes -/
  | head (size : Nat)
  /-- `state_str[index]` -/
  | stateStr (index : Int32)
deriving DecidableEq

def WidgetRead.InRange : WidgetRead → Prop
  | .head size => 4 ≤ size
  | .stateStr index => 0 ≤ index.toInt ∧ index.toInt ≤ 5

instance WidgetRead.decidableInRange (r : WidgetRead) : Decidable r.InRange := by
  unfold WidgetRead.InRange
  cases r <;> infer_instance

/-- `Widget::updateMonitor`: the text of the state, if there is one, and the six angles. -/
def updateMonitor (pdata : ForceCommRcv) : Option String × (Fin 6 → UInt64) :=
  (if 0 ≤ pdata.forceState then stateStr[pdata.forceState.toInt.toNat]? else none, pdata.forceTheta)

/-- **A state has a text exactly when its index is in range.** -/
theorem updateMonitor_text (pdata : ForceCommRcv) :
    (updateMonitor pdata).1.isSome = true ↔ (WidgetRead.stateStr pdata.forceState).InRange := by
  unfold updateMonitor WidgetRead.InRange
  have hzero : (0 : Int32) ≤ pdata.forceState ↔ 0 ≤ pdata.forceState.toInt := Int32.le_iff_toInt_le
  by_cases hneg : (0 : Int32) ≤ pdata.forceState
  · have hlen : stateStr.length = 6 := rfl
    have hnonneg := hzero.1 hneg
    rw [if_pos hneg, isSome_getElem?, hlen]
    omega
  · rw [if_neg hneg]
    exact ⟨fun h => absurd h Bool.false_ne_true, fun h => absurd (hzero.2 h.1) hneg⟩

/-- `readyReadSlot`, on what `readAll` returned, and `updateShow`, at a tick of the timer. -/
inductive WidgetEvent where
  | readyRead (recvArray : List UInt8)
  | timeout
deriving DecidableEq

/-- `rcvMsg` after an event, and what the event read. -/
def widgetStep (rcvMsg : ForceCommRcv) : WidgetEvent → ForceCommRcv × List WidgetRead
  | .readyRead recvArray =>
    (readyReadSlot rcvMsg recvArray, if recvArray.isEmpty then [] else [.head recvArray.length])
  | .timeout => (rcvMsg, [.stateStr rcvMsg.forceState])

def chunksOf (events : List WidgetEvent) : List (List UInt8) :=
  events.filterMap (fun e => match e with
    | .readyRead recvArray => some recvArray
    | .timeout => none)

/-- The last chunk that was a whole frame. -/
def lastFrame (events : List WidgetEvent) : Option (List UInt8) := ((chunksOf events).filter isFrame).getLast?

theorem feed_widgetStep : ∀ (events : List WidgetEvent) (rcvMsg : ForceCommRcv),
    (feed widgetStep rcvMsg events).1 = (chunksOf events).foldl readyReadSlot rcvMsg
  | [], _ => rfl
  | .readyRead recvArray :: es, rcvMsg => feed_widgetStep es (readyReadSlot rcvMsg recvArray)
  | .timeout :: es, rcvMsg => feed_widgetStep es rcvMsg

/-- **What a tick shows is the last chunk that was a whole frame**, or zeros. -/
theorem rcvMsg_eq (events : List WidgetEvent) :
    (feed widgetStep .zero events).1 = ((lastFrame events).map PcCommData.ofBytes).getD .zero := by
  rw [feed_widgetStep, foldl_readyReadSlot]
  rfl

/-- **What the peer must send**: no chunk of one to three bytes, and at each tick the last whole frame, if there was one,
has a state in `[0, 5]`. -/
structure SafeToRead (events : List WidgetEvent) : Prop where
  chunks : ∀ recvArray, .readyRead recvArray ∈ events → recvArray = [] ∨ 4 ≤ recvArray.length
  frames : ∀ before, before ++ [.timeout] <+: events → ∀ frame, lastFrame before = some frame →
    0 ≤ (int32At 4 frame).toInt ∧ (int32At 4 frame).toInt ≤ 5

theorem tick_inRange_iff (before : List WidgetEvent) :
    (WidgetRead.stateStr (feed widgetStep .zero before).1.forceState).InRange ↔
      ∀ frame, lastFrame before = some frame → 0 ≤ (int32At 4 frame).toInt ∧ (int32At 4 frame).toInt ≤ 5 := by
  rw [rcvMsg_eq]
  cases lastFrame before with
  | none => exact ⟨fun _ _ h => absurd h (Option.some_ne_none _).symm, fun _ => by decide⟩
  | some frame =>
    constructor
    · rintro h _ ⟨⟩
      exact h
    · exact fun h => h frame rfl

/-- **Every read is in range exactly when the peer sends what keeps it so**, in every run of chunks and ticks. -/
theorem reads_in_range_iff (events : List WidgetEvent) :
    (∀ reads ∈ (feed widgetStep .zero events).2, ∀ r ∈ reads, r.InRange) ↔ SafeToRead events := by
  constructor
  · intro h
    refine ⟨fun recvArray hmem => ?_, fun before hpre => ?_⟩
    · obtain ⟨before, after, rfl⟩ := List.append_of_mem hmem
      have hread := h _ (mem_feed.2 ⟨before, .readyRead recvArray, ⟨after, by simp⟩, rfl⟩)
      cases recvArray with
      | nil => exact .inl rfl
      | cons b bs => exact .inr (hread (.head (b :: bs).length) List.mem_cons_self)
    · have hread := h _ (mem_feed.2 ⟨before, .timeout, hpre, rfl⟩)
      exact (tick_inRange_iff before).1 (hread _ List.mem_cons_self)
  · intro S reads hreads r hr
    obtain ⟨before, e, hpre, rfl⟩ := mem_feed.1 hreads
    cases e with
    | readyRead recvArray =>
      have hmem : WidgetEvent.readyRead recvArray ∈ events := hpre.subset (List.mem_append_right _ List.mem_cons_self)
      rcases S.chunks recvArray hmem with rfl | hlen
      · exact absurd hr List.not_mem_nil
      · simp only [widgetStep] at hr
        split at hr
        · exact absurd hr List.not_mem_nil
        · obtain rfl := List.mem_singleton.1 hr
          exact hlen
    | timeout =>
      obtain rfl := List.mem_singleton.1 hr
      exact (tick_inRange_iff before).2 (S.frames before hpre)

/-- A chunk of three bytes: four are compared with the magic. -/
theorem short_chunk_read : ¬ ∀ events : List WidgetEvent,
    ∀ reads ∈ (feed widgetStep .zero events).2, ∀ r ∈ reads, r.InRange := by
  intro h
  exact absurd (h [.readyRead [0x18, 0x11, 0x18]] [.head 3] (by decide) (.head 3) List.mem_cons_self)
    (by decide)

end VirtualForce
