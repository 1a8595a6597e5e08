import VirtualForce.Memory
/-!
# BufferManager — the circular buffer of `buffer_manager.c`

A ring is its control block and its bytes.  `int32_t` arithmetic is `Int32`: sums wrap and `%` truncates, as the
machine's do.  Bytes are addressed by offset from the start of the buffer, so a copy past `buff_length` lands where
it lands.  The bundle functions are split in two: which copies a branch makes, and making them.
-/
namespace VirtualForce

open Memory

/-- `buffer_info_t`, in the order of its fields. -/
structure BufferInfo where
  tailIndexOffset : Int32
  headIndexOffset : Int32
  elementLength : Int32
  buffLength : Int32
  safetyResevd : Int32
  semaphore : Int32
  writeLock : Int32
deriving DecidableEq

structure Ring where
  info : BufferInfo
  buff : Mem UInt8

def isBuffFull (b : BufferInfo) : Bool := (b.tailIndexOffset + b.elementLength) % b.buffLength == b.headIndexOffset

def isBuffEmpty (b : BufferInfo) : Bool := b.tailIndexOffset == b.headIndexOffset

def pushCircleBuffItem (circle : Ring) (pushPtr : Mem UInt8) : Int32 × Ring :=
  let b := circle.info
  if isBuffFull b then (-1, circle)
  else (b.elementLength,
    { info := { b with tailIndexOffset := (b.tailIndexOffset + b.elementLength) % b.buffLength }
      buff := memcpy circle.buff b.tailIndexOffset.toInt pushPtr 0 b.elementLength.toInt })

def pullCircleBuffItem (circle : Ring) (pullPtr : Mem UInt8) : Int32 × Ring × Mem UInt8 :=
  let b := circle.info
  if isBuffEmpty b then (-1, circle, pullPtr)
  else (0,
    { circle with info := { b with headIndexOffset := (b.headIndexOffset + b.elementLength) % b.buffLength } },
    memcpy pullPtr 0 circle.buff b.headIndexOffset.toInt b.elementLength.toInt)

/-! ## The bundles -/

/-- One `memcpy` of a bundle: offsets into the destination and the source buffer, and the length. -/
structure Copy where
  dst : Int32
  src : Int32
  len : Int32
deriving DecidableEq

def runCopies (dst src : Mem UInt8) (cs : List Copy) : Mem UInt8 :=
  cs.foldl (fun m c => memcpy m c.dst.toInt src c.src.toInt c.len.toInt) dst

def pushBundleCopies (circle loc : BufferInfo) : List Copy :=
  let ir := loc.headIndexOffset
  let iw := loc.tailIndexOffset
  let ow := circle.tailIndexOffset
  if ir < iw then
    if circle.buffLength - ow > iw - ir then
      [⟨ow, ir, iw - ir⟩]
    else
      [⟨ow, ir, circle.buffLength - ow⟩,
       ⟨0, ir + (circle.buffLength - ow), iw - ir - (circle.buffLength - ow)⟩]
  else if circle.buffLength - ow ≥ loc.buffLength - ir + iw then
    [⟨ow, ir, loc.buffLength - ir⟩,
     ⟨ow + (loc.buffLength - ir), 0, iw⟩]
  else if circle.buffLength - ow ≥ loc.buffLength - ir then
    [⟨ow, ir, loc.buffLength - ir⟩,
     ⟨ow + (loc.buffLength - ir), 0, (circle.buffLength - ow) - (loc.buffLength - ir)⟩,
     ⟨0, (circle.buffLength - ow) - (loc.buffLength - ir), (loc.buffLength - ir + iw) - (circle.buffLength - ow)⟩]
  else if circle.buffLength - ow < loc.buffLength - ir then
    [⟨ow, ir, circle.buffLength - ow⟩,
     ⟨0, ir + (circle.buffLength - ow), (loc.buffLength - ir) - (circle.buffLength - ow)⟩,
     ⟨(loc.buffLength - ir) - (circle.buffLength - ow), 0, iw⟩]
  else []

def pushBundleLength (loc : BufferInfo) : Int32 :=
  if loc.headIndexOffset < loc.tailIndexOffset then loc.tailIndexOffset - loc.headIndexOffset
  else loc.buffLength - loc.headIndexOffset + loc.tailIndexOffset

/-- `push_circle_buff_bundle`: the return value, the circle and the local ring.  It does not test for an empty local
ring, and its `return -1` is behind two branches that both return. -/
def pushCircleBuffBundle (circle loc : Ring) : Int32 × Ring × Ring :=
  (pushBundleLength loc.info,
    { info := { circle.info with tailIndexOffset :=
        (circle.info.tailIndexOffset + pushBundleLength loc.info) % circle.info.buffLength }
      buff := runCopies circle.buff loc.buff (pushBundleCopies circle.info loc.info) },
    { loc with info := { loc.info with headIndexOffset := loc.info.tailIndexOffset } })

/-- The copies of `pull_circle_buff_bundle`, from the circle to the local ring, on the offsets it has snapshot:
`ir` and `iw` of the circle, `ow` of the local ring. -/
def pullBundleCopies (ir iw ow circleLen localLen : Int32) : List Copy :=
  if ir < iw then
    if localLen - ow > iw - ir then
      [⟨ow, ir, iw - ir⟩]
    else
      [⟨ow, ir, localLen - ow⟩,
       ⟨0, ir + (localLen - ow), iw - ir - (localLen - ow)⟩]
  else if localLen - ow ≥ circleLen - ir + iw then
    [⟨ow, ir, circleLen - ir⟩,
     ⟨ow + (circleLen - ir), 0, iw⟩]
  else if localLen - ow ≥ circleLen - ir then
    [⟨ow, ir, circleLen - ir⟩,
     ⟨ow + (circleLen - ir), 0, (localLen - ow) - (circleLen - ir)⟩,
     ⟨0, (localLen - ow) - (circleLen - ir), (circleLen - ir + iw) - (localLen - ow)⟩]
  else if localLen - ow < circleLen - ir then
    [⟨ow, ir, localLen - ow⟩,
     ⟨0, ir + (localLen - ow), (circleLen - ir) - (localLen - ow)⟩,
     ⟨(circleLen - ir) - (localLen - ow), 0, iw⟩]
  else []

def pullBundleLength (ir iw circleLen : Int32) : Int32 := if ir < iw then iw - ir else circleLen - ir + iw

def pullCircleBuffBundle (circle loc : Ring) : Int32 × Ring × Ring :=
  let ir := circle.info.headIndexOffset
  let iw := circle.info.tailIndexOffset
  let ow := loc.info.tailIndexOffset
  if isBuffEmpty circle.info then (0, circle, loc)
  else
    (pullBundleLength ir iw circle.info.buffLength,
      { circle with info := { circle.info with headIndexOffset := circle.info.tailIndexOffset } },
      { info := { loc.info with tailIndexOffset :=
          (loc.info.tailIndexOffset + pullBundleLength ir iw circle.info.buffLength) % loc.info.buffLength }
        buff := runCopies loc.buff circle.buff
          (pullBundleCopies ir iw ow circle.info.buffLength loc.info.buffLength) })

end VirtualForce
