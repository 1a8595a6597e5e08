import VirtualForce.BundleItems
import VirtualForce.Runs
/-!
# Pipeline — three rings in a row

A producer's ring, a shared one and a consumer's, as the two processes use them: items pushed into the first, bundles
from ring to ring, items pulled out of the last.  What has come out and what is still in the three, oldest first, is
what was accepted.
-/
namespace VirtualForce

open Memory Slots Circle Runs

/-! ## What a ring has -/

/-- **An aligned ring with these items in it**, wherever its head is. -/
def Ring.Has (e : Nat) (r : Ring) (items : List (List UInt8)) : Prop := ∃ L a, e ∣ L ∧ Holds e L a r items

namespace Ring.Has

variable {e : Nat} {r : Ring} {items : List (List UInt8)}

theorem unreadItems_eq (h : r.Has e items) : r.unreadItems = items := by
  obtain ⟨L, a, hd, H⟩ := h
  exact H.unreadItems_eq hd

theorem unreadBytes_eq (h : r.Has e items) : r.info.unreadBytes = items.length * e := by
  obtain ⟨L, a, hd, H⟩ := h
  exact H.unreadBytes_eq hd

theorem elem (h : r.Has e items) : r.info.elementLength.toInt = e := by
  obtain ⟨L, a, hd, H⟩ := h
  exact H.at_.elem

theorem empty_iff (h : r.Has e items) : isBuffEmpty r.info = true ↔ items = [] := by
  obtain ⟨L, a, hd, H⟩ := h
  exact H.empty_iff

theorem start {b : BufferInfo} {m : Mem UInt8} (hb : b.Aligned) (he : isBuffEmpty b = true) :
    Ring.Has b.elementLength.toInt.toNat ⟨b, m⟩ [] := by
  obtain ⟨e, L, q, p, hd, T⟩ := hb.turned
  obtain rfl := T.empty_iff.1 he
  rw [T.at_.elem, Int.toNat_natCast]
  have hshort := T.short
  exact ⟨L, p, hd, T.at_, by rw [List.length_nil]; omega, stored_nil _ _⟩

/-- **A push is refused, or appends the item.** -/
theorem pushItem (h : r.Has e items) (src : Mem UInt8) :
    ((pushCircleBuffItem r src).1 = -1 ∧ (pushCircleBuffItem r src).2.Has e items) ∨
      ((pushCircleBuffItem r src).1 ≠ -1 ∧ (pushCircleBuffItem r src).2.Has e (items ++ [slice src 0 e])) := by
  obtain ⟨L, a, hd, H⟩ := h
  cases hf : isBuffFull r.info with
  | true =>
    rw [Holds.push_full r src hf]
    exact .inl ⟨rfl, L, a, hd, H⟩
  | false =>
    obtain ⟨hret, H'⟩ := H.push src hf (H.fresh hd)
    refine .inr ⟨?_, L, a, hd, H'⟩
    have hneg : (-1 : Int32).toInt = -1 := rfl
    rw [hret, ne_eq, ← Int32.toInt_inj, H.at_.elem, hneg]
    omega

/-- **A pull finds nothing, or takes the oldest item.** -/
theorem pullItem (h : r.Has e items) (dst : Mem UInt8) :
    ((pullCircleBuffItem r dst).1 = -1 ∧ (pullCircleBuffItem r dst).2.1.Has e items) ∨
      ((pullCircleBuffItem r dst).1 ≠ -1 ∧ ∃ rest, items = slice (pullCircleBuffItem r dst).2.2 0 e :: rest ∧
        (pullCircleBuffItem r dst).2.1.Has e rest) := by
  obtain ⟨L, a, hd, H⟩ := h
  cases items with
  | nil =>
    rw [Holds.pull_empty r dst (H.empty_iff.2 rfl)]
    exact .inl ⟨rfl, L, a, hd, H⟩
  | cons x rest =>
    obtain ⟨hret, hput, H'⟩ := H.pull dst
    have hx : x.length = e := by rw [← H.stored.head, slice_length]
    refine .inr ⟨by rw [hret]; decide, rest, ?_, L, a + 1, hd, H'⟩
    rw [hput, ← hx, slice_put]

end Ring.Has

/-- **The loop of items carries the list**, if the destination does not fill up before. -/
theorem moveItems_holds {e Ls Ld d : Nat} (hdd : e ∣ Ld) : ∀ (xs ys : List (List UInt8)) (fuel a : Nat) (src dst : Ring)
    (item : Mem UInt8), Holds e Ls a src xs → Holds e Ld d dst ys → ys.length + xs.length < Ld / e → xs.length < fuel →
    ∃ src' dst' rets, moveItems fuel src dst item = some (src', dst', rets) ∧ Holds e Ls (a + xs.length) src' [] ∧
      Holds e Ld d dst' (ys ++ xs)
  | _, _, 0, _, _, _, _, _, _, _, hfuel => absurd hfuel (Nat.not_lt_zero _)
  | [], ys, fuel + 1, a, src, dst, item, S, D, _, _ => by
    refine ⟨src, dst, [], ?_, S, by rwa [List.append_nil]⟩
    rw [moveItems, if_pos (S.empty_iff.2 rfl)]
  | x :: xs, ys, fuel + 1, a, src, dst, item, S, D, hroom, hfuel => by
    rw [List.length_cons] at hroom hfuel
    have he : isBuffEmpty src.info = false := by
      rw [Bool.eq_false_iff, ne_eq, S.empty_iff]
      exact List.cons_ne_nil x xs
    have hf : isBuffFull dst.info = false := by
      rw [Bool.eq_false_iff, ne_eq, D.full_iff, div_gcd_of_dvd hdd]
      omega
    obtain ⟨-, hput, S'⟩ := S.pull item
    have hx : slice (put item 0 x) 0 e = x := by
      have hlen : x.length = e := by rw [← S.stored.head, slice_length]
      rw [← hlen, slice_put]
    obtain ⟨-, D'⟩ := D.push (put item 0 x) hf (D.fresh hdd)
    rw [hx] at D'
    obtain ⟨src', dst', rets, hrest, hsrc, hdst⟩ := moveItems_holds hdd xs (ys ++ [x]) fuel (a + 1) _ _ (put item 0 x) S' D'
      (by rw [List.length_append, List.length_singleton]; omega) (by omega)
    refine ⟨src', dst', (pushCircleBuffItem dst (put item 0 x)).1 :: rets, ?_, ?_, ?_⟩
    · rw [moveItems, if_neg (by rw [he]; decide)]
      simp only [hput, hrest, Option.map_some]
    · rwa [List.length_cons, Nat.add_comm xs.length, ← Nat.add_assoc]
    · rwa [List.append_assoc] at hdst

/-- **A bundle carries the list**, if the bytes fit with an item to spare. -/
theorem Ring.Has.pullBundle {e : Nat} {src dst : Ring} {xs ys : List (List UInt8)} (hsrc : src.Has e xs)
    (hdst : dst.Has e ys) (hne : xs ≠ [])
    (hroom : (dst.info.unreadBytes + src.info.unreadBytes : Nat) ≤
      dst.info.buffLength.toInt - dst.info.elementLength.toInt) :
    (pullCircleBuffBundle src dst).2.1.Has e [] ∧ (pullCircleBuffBundle src dst).2.2.Has e (ys ++ xs) := by
  rw [hsrc.unreadBytes_eq, hdst.unreadBytes_eq, hdst.elem] at hroom
  obtain ⟨Ls, a, hds, S⟩ := hsrc
  obtain ⟨Ld, d, hdd, D⟩ := hdst
  have hfit : ys.length + xs.length + 1 ≤ Ld / e := by
    rw [Nat.le_div_iff_mul_le S.at_.elem_pos, Nat.add_one_mul, Nat.add_mul]
    rw [D.at_.len] at hroom
    omega
  have hsome : 0 < xs.length := List.length_pos_iff.2 hne
  obtain ⟨-, hloop⟩ := pullCircleBuffBundle_items hds hdd S.turned D.turned (by omega) (by omega) (fun _ => 0)
    (xs.length + 1) (by omega)
  obtain ⟨src', dst', rets, hmoved, hsrc', hdst'⟩ := moveItems_holds hdd xs ys (xs.length + 1) a src dst (fun _ => 0) S D
    hfit (Nat.lt_succ_self _)
  rw [hloop, Option.some.injEq, Prod.mk.injEq, Prod.mk.injEq] at hmoved
  obtain ⟨rfl, rfl, -⟩ := hmoved
  exact ⟨⟨Ls, _, hds, hsrc'⟩, ⟨Ld, d, hdd, hdst'⟩⟩

/-! ## The pipeline -/

/-- The three rings, the items accepted into the first and those that came out of the last. -/
structure Pipeline where
  producer : Ring
  shared : Ring
  consumer : Ring
  accepted : List (List UInt8)
  delivered : List (List UInt8)

inductive PipeOp where
  | pushItem (src : Mem UInt8)
  | pushBundle
  | pullBundle
  | pullItem (dst : Mem UInt8)

/-- The bytes unread in `src` fit into `dst` with an item to spare. -/
def BufferInfo.Fits (src dst : BufferInfo) : Prop :=
  (dst.unreadBytes + src.unreadBytes : Nat) ≤ dst.buffLength.toInt - dst.elementLength.toInt

namespace Pipeline

/-- **What the callers keep to**: a bundle is pushed only from a ring that is not empty, and either bundle is called only
where it fits. -/
def Allowed (p : Pipeline) : PipeOp → Prop
  | .pushBundle => isBuffEmpty p.producer.info = false ∧ p.producer.info.Fits p.shared.info
  | .pullBundle => p.shared.info.Fits p.consumer.info
  | _ => True

def call (p : Pipeline) : PipeOp → Pipeline
  | .pushItem src =>
    let (ret, producer) := pushCircleBuffItem p.producer src
    { p with
      producer := producer
      accepted := if ret = -1 then p.accepted
        else p.accepted ++ [slice src 0 p.producer.info.elementLength.toInt.toNat] }
  | .pushBundle =>
    let (_, shared, producer) := pushCircleBuffBundle p.shared p.producer
    { p with producer := producer, shared := shared }
  | .pullBundle =>
    let (_, shared, consumer) := pullCircleBuffBundle p.shared p.consumer
    { p with shared := shared, consumer := consumer }
  | .pullItem dst =>
    let (ret, consumer, item) := pullCircleBuffItem p.consumer dst
    { p with
      consumer := consumer
      delivered := if ret = -1 then p.delivered
        else p.delivered ++ [slice item 0 p.consumer.info.elementLength.toInt.toNat] }

instance (p : Pipeline) (op : PipeOp) : Decidable (p.Allowed op) := by
  unfold Allowed BufferInfo.Fits
  cases op <;> infer_instance

def step (p : Pipeline) (op : PipeOp) : Option Pipeline := if p.Allowed op then some (p.call op) else none

/-- **The flow of a pipeline**: each ring has its items, and what came out and what is still in are what went in. -/
structure Flow (e : Nat) (p : Pipeline) (xs ys zs : List (List UInt8)) : Prop where
  producer : p.producer.Has e xs
  shared : p.shared.Has e ys
  consumer : p.consumer.Has e zs
  order : p.delivered ++ zs ++ ys ++ xs = p.accepted

theorem Flow.call {e : Nat} {p : Pipeline} {xs ys zs : List (List UInt8)} (F : Flow e p xs ys zs) {op : PipeOp}
    (h : p.Allowed op) : ∃ xs' ys' zs', Flow e (p.call op) xs' ys' zs' := by
  have horder := F.order
  cases op with
  | pushItem src =>
    have helem := F.producer.elem
    rcases F.producer.pushItem src with ⟨hret, hprod⟩ | ⟨hret, hprod⟩
    · refine ⟨xs, ys, zs, hprod, F.shared, F.consumer, ?_⟩
      simp only [Pipeline.call, hret, if_true]
      exact horder
    · refine ⟨xs ++ [slice src 0 e], ys, zs, hprod, F.shared, F.consumer, ?_⟩
      simp only [Pipeline.call, if_neg hret, helem, Int.toNat_natCast, ← horder, List.append_assoc]
  | pushBundle =>
    obtain ⟨hne, hfit⟩ := h
    have hxs : xs ≠ [] := by
      rwa [Bool.eq_false_iff, ne_eq, F.producer.empty_iff] at hne
    obtain ⟨hprod, hshared⟩ := F.producer.pullBundle F.shared hxs hfit
    refine ⟨[], ys ++ xs, zs, ?_, ?_, F.consumer, ?_⟩
    · simpa only [Pipeline.call, pushCircleBuffBundle_eq _ _ hne] using hprod
    · simpa only [Pipeline.call, pushCircleBuffBundle_eq _ _ hne] using hshared
    · simp only [Pipeline.call, ← horder, List.append_assoc, List.append_nil]
  | pullBundle =>
    cases ys with
    | nil =>
      have he := F.shared.empty_iff.2 rfl
      have hsame : p.call .pullBundle = p := by simp only [Pipeline.call, pullCircleBuffBundle, if_pos he]
      rw [hsame]
      exact ⟨xs, [], zs, F⟩
    | cons y ys =>
      obtain ⟨hshared, hcons⟩ := F.shared.pullBundle F.consumer (List.cons_ne_nil y ys) h
      refine ⟨xs, [], zs ++ y :: ys, F.producer, hshared, hcons, ?_⟩
      simp only [Pipeline.call, ← horder, List.append_assoc, List.nil_append]
  | pullItem dst =>
    have helem := F.consumer.elem
    rcases F.consumer.pullItem dst with ⟨hret, hcons⟩ | ⟨hret, rest, hzs, hcons⟩
    · refine ⟨xs, ys, zs, F.producer, F.shared, hcons, ?_⟩
      simp only [Pipeline.call, hret, if_true]
      exact horder
    · refine ⟨xs, ys, rest, F.producer, F.shared, hcons, ?_⟩
      simp only [Pipeline.call, if_neg hret, helem, Int.toNat_natCast, ← horder]
      rw [hzs]
      simp only [List.append_assoc, List.cons_append, List.nil_append]

/-- Three empty rings. -/
def init (producer shared consumer : Ring) : Pipeline := ⟨producer, shared, consumer, [], []⟩

theorem Flow.init {producer shared consumer : Ring} {e : Nat} (hp : producer.Has e []) (hs : shared.Has e [])
    (hc : consumer.Has e []) : Flow e (Pipeline.init producer shared consumer) [] [] [] := ⟨hp, hs, hc, rfl⟩

end Pipeline

/-- **First in, first out from end to end**, over every sequence of calls. -/
theorem pipeline_fifo (a s b : Ring) (ha : a.info.Aligned) (hs : s.info.Aligned) (hb : b.info.Aligned)
    (hes : s.info.elementLength = a.info.elementLength) (heb : b.info.elementLength = a.info.elementLength)
    (ha' : isBuffEmpty a.info = true) (hs' : isBuffEmpty s.info = true) (hb' : isBuffEmpty b.info = true)
    (ops : List PipeOp) (p : Pipeline) (hrun : run Pipeline.step (Pipeline.init a s b) ops = some p) :
    p.delivered ++ p.consumer.unreadItems ++ p.shared.unreadItems ++ p.producer.unreadItems = p.accepted := by
  have hstart : ∃ xs ys zs, Pipeline.Flow a.info.elementLength.toInt.toNat (Pipeline.init a s b) xs ys zs :=
    ⟨[], [], [], Pipeline.Flow.init (Ring.Has.start ha ha') (hes ▸ Ring.Has.start hs hs') (heb ▸ Ring.Has.start hb hb')⟩
  have hstep : ∀ (p : Pipeline) op p', (∃ xs ys zs, Pipeline.Flow a.info.elementLength.toInt.toNat p xs ys zs) →
      p.step op = some p' → ∃ xs ys zs, Pipeline.Flow a.info.elementLength.toInt.toNat p' xs ys zs := by
    rintro p op p' ⟨xs, ys, zs, F⟩ hs
    unfold Pipeline.step at hs
    split at hs
    · rename_i hallow
      rw [← Option.some.inj hs]
      exact F.call hallow
    · cases hs
  obtain ⟨xs, ys, zs, F⟩ := run_inv hstep ops _ p hstart hrun
  rw [F.consumer.unreadItems_eq, F.shared.unreadItems_eq, F.producer.unreadItems_eq]
  exact F.order

/-- Two items through rings of four, two and three. -/
theorem pipeline_fifo_two_items : ∃ p, run Pipeline.step
      (Pipeline.init ⟨⟨6, 6, 2, 8, 0, 1, 0⟩, fun _ => 0⟩ ⟨⟨2, 2, 2, 4, 0, 1, 0⟩, fun _ => 0⟩ ⟨⟨0, 0, 2, 6, 0, 1, 0⟩, fun _ => 0⟩)
      [.pushItem (fun _ => 7), .pushBundle, .pushItem (fun _ => 8), .pullBundle, .pushBundle, .pullItem (fun _ => 0)] = some p ∧
    p.delivered ++ p.consumer.unreadItems ++ p.shared.unreadItems ++ p.producer.unreadItems = p.accepted :=
  exists_run (by decide) (fun p hrun => pipeline_fifo ⟨⟨6, 6, 2, 8, 0, 1, 0⟩, fun _ => 0⟩ ⟨⟨2, 2, 2, 4, 0, 1, 0⟩, fun _ => 0⟩
    ⟨⟨0, 0, 2, 6, 0, 1, 0⟩, fun _ => 0⟩ (by decide) (by decide) (by decide) (by decide) (by decide) (by decide) (by decide)
    (by decide) _ p hrun)

end VirtualForce
