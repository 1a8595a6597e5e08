import VirtualForce.Controller
/-!
# Widget — the PC's side of the stream

`Widget::readyReadSlot`, once for each chunk `readAll` returns.  It takes a chunk that is a whole frame by itself, drops
every other, and keeps no bytes from one call to the next: a frame cut in two, or two frames in one chunk, are lost.
-/
namespace VirtualForce

open LittleEndian

/-- `Force_Comm_Rcv_t` has the fields of `Pc_Comm_Data_t`. -/
abbrev ForceCommRcv := PcCommData

def PcCommData.zero : ForceCommRcv := ⟨0, 0, fun _ => 0⟩

/-- `Widget::readyReadSlot`, on what `readAll` returned: `rcvMsg` afterwards. -/
def readyReadSlot (rcvMsg : ForceCommRcv) (recvArray : List UInt8) : ForceCommRcv :=
  if recvArray.isEmpty then rcvMsg
  else if int32At 0 recvArray = magigHead ∧ recvArray.length = monitorFrameSize then PcCommData.ofBytes recvArray
  else rcvMsg

def isFrame (chunk : List UInt8) : Bool := int32At 0 chunk == magigHead && chunk.length == monitorFrameSize

theorem readyReadSlot_eq (rcvMsg : ForceCommRcv) (chunk : List UInt8) :
    readyReadSlot rcvMsg chunk = if isFrame chunk then PcCommData.ofBytes chunk else rcvMsg := by
  unfold readyReadSlot isFrame
  cases chunk with
  | nil => rfl
  | cons b bs => simp only [List.isEmpty_cons, Bool.false_eq_true, if_false, Bool.and_eq_true, beq_iff_eq]

/-- **After any chunks `rcvMsg` is the last of them that was a whole frame.** -/
theorem foldl_readyReadSlot : ∀ (chunks : List (List UInt8)) (rcvMsg : ForceCommRcv),
    chunks.foldl readyReadSlot rcvMsg = (((chunks.filter isFrame).getLast?).map PcCommData.ofBytes).getD rcvMsg
  | [], _ => rfl
  | c :: cs, rcvMsg => by
    rw [List.foldl_cons, foldl_readyReadSlot cs, readyReadSlot_eq]
    cases hc : isFrame c with
    | false => rw [List.filter_cons_of_neg (by simp [hc])]; rfl
    | true =>
      rw [List.filter_cons_of_pos hc, List.getLast?_cons]
      cases (cs.filter isFrame).getLast? <;> rfl

theorem isFrame_bytes {f : PcCommData} (h : f.head = magigHead) : isFrame f.bytes = true := by
  have hhead : int32At 0 f.bytes = magigHead := (int32At_first f.head _).trans h
  simp [isFrame, hhead, f.bytes_length]

theorem eq_of_flatten {init : List (List UInt8)} {c pre b : List UInt8} (h : (init ++ [c]).flatten = pre ++ b)
    (hlen : c.length = b.length) : c = b := by
  rw [List.flatten_append, List.flatten_singleton] at h
  exact (List.append_inj' h hlen).2

/-- `chunks` are a way the connection may cut the frames. -/
structure Cuts (frames : List PcCommData) (chunks : List (List UInt8)) : Prop where
  flatten : chunks.flatten = frames.flatMap PcCommData.bytes
  nonempty : ∀ c ∈ chunks, c ≠ []

/-- **What the slot makes of a cut of the stream**: the last chunk that was a whole frame, and so the last frame when
the last chunk is as long as a frame, whatever the cuts before it. -/
structure ShowsLastWhole (frames : List PcCommData) (last : PcCommData) (chunks : List (List UInt8)) : Prop where
  last_whole : chunks.foldl readyReadSlot .zero =
    (((chunks.filter isFrame).getLast?).map PcCommData.ofBytes).getD .zero
  last_frame : (∃ c, chunks.getLast? = some c ∧ c.length = monitorFrameSize) → chunks.foldl readyReadSlot .zero = last
  same : ∀ chunks', Cuts (frames ++ [last]) chunks' →
    (∃ c, chunks.getLast? = some c ∧ c.length = monitorFrameSize) →
    (∃ c, chunks'.getLast? = some c ∧ c.length = monitorFrameSize) →
    chunks.foldl readyReadSlot .zero = chunks'.foldl readyReadSlot .zero

theorem foldl_last_frame {frames : List PcCommData} {last : PcCommData} (hhead : last.head = magigHead)
    {chunks : List (List UInt8)} (hcuts : Cuts (frames ++ [last]) chunks)
    (hlast : ∃ c, chunks.getLast? = some c ∧ c.length = monitorFrameSize) (rcvMsg : ForceCommRcv) :
    chunks.foldl readyReadSlot rcvMsg = last := by
  obtain ⟨c, hc, hlen⟩ := hlast
  obtain ⟨init, rfl⟩ := List.getLast?_eq_some_iff.1 hc
  have hflat := hcuts.flatten
  rw [List.flatMap_append, List.flatMap_singleton] at hflat
  obtain rfl := eq_of_flatten hflat (hlen.trans last.bytes_length.symm)
  rw [List.foldl_append, List.foldl_cons, List.foldl_nil, readyReadSlot_eq, if_pos (isFrame_bytes hhead),
    PcCommData.ofBytes_bytes]

/-- **The slot on every cut of every stream of frames.** -/
theorem readyRead_cuts (frames : List PcCommData) (last : PcCommData)
    (hheads : ∀ f ∈ frames ++ [last], f.head = magigHead) (chunks : List (List UInt8))
    (hcuts : Cuts (frames ++ [last]) chunks) : ShowsLastWhole frames last chunks := by
  have hhead := hheads last (by simp)
  refine ⟨foldl_readyReadSlot _ _, fun h => foldl_last_frame hhead hcuts h _, fun chunks' hcuts' h h' => ?_⟩
  rw [foldl_last_frame hhead hcuts h, foldl_last_frame hhead hcuts' h']

theorem readyRead_cuts_two : ShowsLastWhole [⟨magigHead, 1, fun _ => 7⟩] ⟨magigHead, 2, fun _ => 8⟩
    [(⟨magigHead, 1, fun _ => 7⟩ : PcCommData).bytes.take 9, (⟨magigHead, 1, fun _ => 7⟩ : PcCommData).bytes.drop 9,
      (⟨magigHead, 2, fun _ => 8⟩ : PcCommData).bytes] :=
  readyRead_cuts _ _ (by decide) _ ⟨by decide +kernel, by decide +kernel⟩

/-- One frame cut after its 55th byte: `rcvMsg` stays zero. -/
theorem cut_frame_lost : ¬ ∀ (frames : List PcCommData) (last : PcCommData) (chunks : List (List UInt8)),
    (∀ f ∈ frames ++ [last], f.head = magigHead) → Cuts (frames ++ [last]) chunks →
      chunks.foldl readyReadSlot .zero = last := by
  intro h
  have hlost := h [] ⟨magigHead, 2, fun _ => 8⟩ [(⟨magigHead, 2, fun _ => 8⟩ : PcCommData).bytes.take 55,
    (⟨magigHead, 2, fun _ => 8⟩ : PcCommData).bytes.drop 55] (by decide) ⟨by decide +kernel, by decide +kernel⟩
  have hstate := congrArg PcCommData.forceState hlost
  exact absurd hstate (by decide +kernel)

/-! ## What it can show -/

/-- **In a row of lists of one length, what stands where the `k`th begins and is as long is the `k`th.** -/
theorem getElem?_of_flatMap_eq {α β : Type} {f : α → List β} {n : Nat} (hf : ∀ a, (f a).length = n) (hn : 0 < n) :
    ∀ (k : Nat) (l : List α) (x c y : List β), l.flatMap f = x ++ (c ++ y) → x.length = n * k → c.length = n →
      ∃ a, l[k]? = some a ∧ c = f a
  | _, [], x, c, y, h, _, hc => by
    have hlen := congrArg List.length h
    rw [List.flatMap_nil, List.length_nil, List.length_append, List.length_append] at hlen
    omega
  | 0, a :: l, x, c, y, h, hx, hc => by
    obtain rfl := List.length_eq_zero_iff.1 hx
    rw [List.flatMap_cons, List.nil_append] at h
    exact ⟨a, rfl, (List.append_inj h ((hf a).trans hc.symm)).1.symm⟩
  | k + 1, a :: l, x, c, y, h, hx, hc => by
    rw [Nat.mul_succ] at hx
    rw [List.flatMap_cons, ← List.take_append_drop n x, List.append_assoc] at h
    have hfirst : (f a).length = (x.take n).length := by rw [hf, List.length_take]; omega
    exact getElem?_of_flatMap_eq hf hn k l (x.drop n) c y (List.append_inj h hfirst).2
      (by rw [List.length_drop]; omega) hc

theorem mem_of_flatMap_eq {α β : Type} {f : α → List β} {n : Nat} (hf : ∀ a, (f a).length = n) (hn : 0 < n) {k : Nat}
    {l : List α} {x c y : List β} (h : l.flatMap f = x ++ (c ++ y)) (hx : x.length = n * k) (hc : c.length = n) :
    ∃ a ∈ l, c = f a := by
  obtain ⟨a, ha, heq⟩ := getElem?_of_flatMap_eq hf hn k l x c y h hx hc
  exact ⟨a, List.mem_of_getElem? ha, heq⟩

/-- A chunk that looks like a frame where none begins: as long as a frame, its first four bytes the magic, out of the
middle of one.  `before` is what came before it. -/
def Disguised (before : List (List UInt8)) (chunk : List UInt8) : Prop :=
  isFrame chunk = true ∧ ¬ monitorFrameSize ∣ before.flatten.length

/-- The magic is nowhere in the stream but where a frame begins. -/
def MagicOnlyAtFrames (frames : List PcCommData) : Prop :=
  ∀ x y, frames.flatMap PcCommData.bytes = x ++ y → int32At 0 y = magigHead → monitorFrameSize ∣ x.length

/-- **What is shown after each call**: nothing yet, a frame that was sent, or the bytes of a chunk in disguise. -/
structure ShowsSent (frames : List PcCommData) (chunks : List (List UInt8)) : Prop where
  shown : ∀ calls, calls <+: chunks → calls.foldl readyReadSlot .zero = .zero ∨
    calls.foldl readyReadSlot .zero ∈ frames ∨
    ∃ before c, before ++ [c] <+: calls ∧ Disguised before c ∧ calls.foldl readyReadSlot .zero = PcCommData.ofBytes c
  clean : MagicOnlyAtFrames frames → ∀ calls, calls <+: chunks → calls.foldl readyReadSlot .zero = .zero ∨
    calls.foldl readyReadSlot .zero ∈ frames

theorem shown_cases {frames : List PcCommData} {chunks calls : List (List UInt8)}
    (hflat : chunks.flatten = frames.flatMap PcCommData.bytes) (hcalls : calls <+: chunks) :
    calls.foldl readyReadSlot .zero = .zero ∨ calls.foldl readyReadSlot .zero ∈ frames ∨
      ∃ before c, before ++ [c] <+: calls ∧ Disguised before c ∧ calls.foldl readyReadSlot .zero = PcCommData.ofBytes c := by
  rw [foldl_readyReadSlot]
  cases hlast : (calls.filter isFrame).getLast? with
  | none => exact .inl rfl
  | some c =>
    have hmem := List.mem_of_getLast? hlast
    obtain ⟨hc, hframe⟩ := List.mem_filter.1 hmem
    obtain ⟨before, after, rfl⟩ := List.append_of_mem hc
    by_cases hat : monitorFrameSize ∣ before.flatten.length
    · obtain ⟨k, hk⟩ := hat
      obtain ⟨rest, rfl⟩ := hcalls
      have hlen : c.length = monitorFrameSize := by
        simp only [isFrame, Bool.and_eq_true, beq_iff_eq] at hframe
        exact hframe.2
      have hstream : frames.flatMap PcCommData.bytes = before.flatten ++ (c ++ (after ++ rest).flatten) := by
        rw [← hflat, List.append_assoc, List.flatten_append, List.cons_append, List.flatten_cons]
      obtain ⟨f, hf, rfl⟩ := mem_of_flatMap_eq PcCommData.bytes_length (by decide) hstream hk hlen
      refine .inr (.inl ?_)
      rw [Option.map_some, Option.getD_some, PcCommData.ofBytes_bytes]
      exact hf
    · refine .inr (.inr ⟨before, c, ⟨after, ?_⟩, ⟨hframe, hat⟩, rfl⟩)
      rw [List.append_assoc, List.singleton_append]

/-- **The slot shows what was sent, or a chunk in disguise**, on every split of every stream of frames. -/
theorem readyRead_shows_sent (frames : List PcCommData) (chunks : List (List UInt8))
    (hflat : chunks.flatten = frames.flatMap PcCommData.bytes) : ShowsSent frames chunks := by
  refine ⟨fun calls hcalls => shown_cases hflat hcalls, fun hmagic calls hcalls => ?_⟩
  rcases shown_cases hflat hcalls with hzero | hsent | ⟨before, c, hprefix, ⟨hframe, hmid⟩, -⟩
  · exact .inl hzero
  · exact .inr hsent
  · obtain ⟨after, hafter⟩ := hprefix.trans hcalls
    simp only [isFrame, Bool.and_eq_true, beq_iff_eq] at hframe
    obtain ⟨hhead, hlen⟩ := hframe
    refine absurd (hmagic before.flatten (c ++ after.flatten) ?_ ?_) hmid
    · rw [← hflat, ← hafter, List.flatten_append, List.flatten_append, List.flatten_singleton, List.append_assoc]
    · rw [int32At_append (by rw [hlen]; decide), hhead]

/-- A frame, and one more, its first angle the magic and then a 5. -/
def disguise : PcCommData := ⟨magigHead, 3, fun j => if j.val = 0 then 0x0000000511181118 else 7⟩

theorem readyRead_shows_sent_disguise : ShowsSent [disguise, disguise]
    [disguise.bytes.take 8, disguise.bytes.drop 8 ++ disguise.bytes.take 8, disguise.bytes.drop 8] :=
  readyRead_shows_sent [disguise, disguise] _ (by decide +kernel)

/-- Cut eight bytes into either frame: the second call shows state 5, which was not sent. -/
theorem disguise_shown : ¬ ∀ (frames : List PcCommData) (chunks calls : List (List UInt8)),
    (∀ f ∈ frames, f.head = magigHead) → chunks.flatten = frames.flatMap PcCommData.bytes → calls <+: chunks →
      calls.foldl readyReadSlot .zero = .zero ∨ calls.foldl readyReadSlot .zero ∈ frames := by
  intro h
  have hshown := h [disguise, disguise]
    [disguise.bytes.take 8, disguise.bytes.drop 8 ++ disguise.bytes.take 8, disguise.bytes.drop 8]
    [disguise.bytes.take 8, disguise.bytes.drop 8 ++ disguise.bytes.take 8] (by decide) (by decide +kernel)
    ⟨[disguise.bytes.drop 8], rfl⟩
  have hstate : (([disguise.bytes.take 8, disguise.bytes.drop 8 ++ disguise.bytes.take 8].foldl readyReadSlot
      .zero).forceState) = 5 := by decide +kernel
  rcases hshown with hzero | hsent
  · rw [hzero] at hstate
    exact absurd hstate (by decide)
  · have hdisguise : ∀ f ∈ [disguise, disguise], f.forceState = 3 := by decide
    exact absurd ((hdisguise _ hsent).symm.trans hstate) (by decide)

end VirtualForce
