import VirtualForce.Memory
/-!
# Overlay — pieces written over one another

`overlay m ps` writes the pieces one after the other, each from offset 0, so that a cell shows the last piece that
reaches it.  `slice_overlay_iff` says when they come out in a row all the same: when the first piece alone is seen past
the others, and what they cover is what the memory held.
-/
namespace Memory

variable {α : Type}

def overlay (m : Mem α) (ps : List (List α)) : Mem α := ps.foldl (fun m p => put m 0 p) m

theorem put_zero (m : Mem α) (p : List α) (j : Nat) : put m 0 p j = (p[j]?).getD (m j) := by
  have hj : ((j : Int) - 0).toNat = j := by omega
  unfold put
  rw [if_pos (Int.natCast_nonneg j), hj]

/-- **A cell no piece reaches.** -/
theorem overlay_short {j : Nat} : ∀ {ps : List (List α)} {m : Mem α}, (∀ p ∈ ps, p.length ≤ j) → overlay m ps j = m j
  | [], _, _ => rfl
  | p :: ps, m, h => by
    have hp := h p List.mem_cons_self
    have ih := overlay_short (m := put m 0 p) (fun q hq => h q (List.mem_cons_of_mem p hq))
    rw [put_zero, List.getElem?_eq_none hp] at ih
    exact ih

/-- **The last piece that reaches a cell is what it shows.** -/
theorem overlay_last (m : Mem α) {pre post : List (List α)} {p : List α} {j : Nat} (hp : j < p.length)
    (hpost : ∀ q ∈ post, q.length ≤ j) : overlay m (pre ++ p :: post) j = p[j] := by
  have hsplit : overlay m (pre ++ p :: post) = overlay (put (overlay m pre) 0 p) post := by
    unfold overlay
    rw [List.foldl_append, List.foldl_cons]
  rw [hsplit, overlay_short hpost, put_zero, List.getElem?_eq_getElem hp]
  rfl

theorem exists_last_long {j : Nat} : ∀ {ps : List (List α)}, (∃ p ∈ ps, j < p.length) →
    ∃ pre p post, ps = pre ++ p :: post ∧ j < p.length ∧ ∀ q ∈ post, q.length ≤ j
  | [], h => by
    obtain ⟨_, hp, -⟩ := h
    exact absurd hp List.not_mem_nil
  | p :: ps, h => by
    by_cases hrest : ∃ q ∈ ps, j < q.length
    · obtain ⟨pre, q, post, rfl, hq, hpost⟩ := exists_last_long hrest
      exact ⟨p :: pre, q, post, rfl, hq, hpost⟩
    · have hshort : ∀ q ∈ ps, q.length ≤ j := fun q hq => Nat.not_lt.1 (fun hlt => hrest ⟨q, hq, hlt⟩)
      obtain ⟨q, hq, hlt⟩ := h
      rcases List.mem_cons.1 hq with rfl | hmem
      · exact ⟨[], q, ps, rfl, hlt, hshort⟩
      · exact absurd hlt (Nat.not_lt.2 (hshort q hmem))

/-- Empty pieces write nothing. -/
theorem overlay_filter (m : Mem α) (ps : List (List α)) : overlay m (ps.filter (fun p => !p.isEmpty)) = overlay m ps := by
  induction ps generalizing m with
  | nil => rfl
  | cons p ps ih =>
    cases p with
    | nil =>
      have hput : put m 0 [] = m := by
        funext x
        unfold put
        rw [List.getElem?_nil]
        exact ite_self _
      have hcons : overlay m ([] :: ps) = overlay (put m 0 []) ps := rfl
      rw [hcons, hput]
      exact ih m
    | cons a p => exact ih (put m 0 (a :: p))

section
variable {z : α} {first : List α} {later : List (List α)} {j : Nat}

/-- **Where a later piece reaches, a cell shows one further on in the row**, past the first piece. -/
theorem overlay_later (m : Mem α) (h : ∃ p ∈ later, j < p.length) :
    ∃ k, j + first.length ≤ k ∧ (first ++ later.flatten)[k]? = some (overlay m (first :: later) j) := by
  obtain ⟨pre, p, post, rfl, hp, hpost⟩ := exists_last_long h
  have hrow : first ++ (pre ++ p :: post).flatten = (first ++ pre.flatten) ++ (p ++ post.flatten) := by
    rw [List.flatten_append, List.flatten_cons, List.append_assoc]
  refine ⟨(first ++ pre.flatten).length + j, ?_, ?_⟩
  · rw [List.length_append]
    omega
  · rw [hrow, List.getElem?_append_right (Nat.le_add_right _ _), Nat.add_sub_cancel_left, List.getElem?_append_left hp,
      List.getElem?_eq_getElem hp]
    have hlast : overlay m (first :: pre ++ p :: post) j = p[j] := overlay_last m hp hpost
    rw [List.cons_append] at hlast
    rw [hlast]

theorem overlay_first (m : Mem α) (hj : j < first.length) (hlater : ∀ p ∈ later, p.length ≤ j) :
    (first ++ later.flatten)[j]? = some (overlay m (first :: later) j) := by
  rw [List.getElem?_append_left hj, List.getElem?_eq_getElem hj]
  have hlast : overlay m ([] ++ first :: later) j = first[j] := overlay_last m hj hlater
  exact congrArg some hlast.symm

theorem slice_eq_iff_getElem? (m : Mem α) (l : List α) :
    slice m 0 l.length = l ↔ ∀ j : Nat, j < l.length → l[j]? = some (m j) := by
  constructor
  · intro h j hj
    rw [List.getElem?_eq_getElem hj, ← List.getElem_of_eq h (by simpa using hj), getElem_slice, Int.zero_add]
  · intro h
    apply List.ext_getElem (slice_length m 0 l.length)
    intro j h1 h2
    have hj := h j h2
    rw [List.getElem?_eq_getElem h2, Option.some.injEq] at hj
    rw [getElem_slice, Int.zero_add, hj]

/-- **The pieces come out in a row exactly when every cell shows the first piece, past the reach of the others, or should
hold what the memory did.** -/
theorem slice_overlay_iff (hfirst : first ≠ []) :
    slice (overlay (fun _ => z) (first :: later)) 0 (first ++ later.flatten).length = first ++ later.flatten ↔
      ∀ j, j < (first ++ later.flatten).length →
        (j < first.length ∧ ∀ p ∈ later, p.length ≤ j) ∨ (first ++ later.flatten)[j]? = some z := by
  have hpos : 0 < first.length := List.length_pos_of_ne_nil hfirst
  rw [slice_eq_iff_getElem?]
  constructor
  · -- by induction from the end: a cell under a later piece equals one further on, which is under one or not reached
    intro h
    have hback : ∀ d j, (first ++ later.flatten).length - j = d → j < (first ++ later.flatten).length →
        (j < first.length ∧ ∀ p ∈ later, p.length ≤ j) ∨ (first ++ later.flatten)[j]? = some z := by
      intro d
      induction d using Nat.strongRecOn with
      | _ d ih =>
        intro j hd hj
        by_cases hreach : ∃ p ∈ later, j < p.length
        · obtain ⟨k, hk, hcell⟩ := @overlay_later _ first _ _ (fun _ => z) hreach
          have hkr := (List.getElem?_eq_some_iff.1 hcell).1
          rcases ih _ (by omega) k rfl hkr with ⟨hlt, -⟩ | hz
          · omega
          · exact .inr ((h j hj).trans (hcell.symm.trans hz))
        · have hshort : ∀ p ∈ later, p.length ≤ j := fun p hp => Nat.not_lt.1 (fun hlt => hreach ⟨p, hp, hlt⟩)
          by_cases hlt : j < first.length
          · exact .inl ⟨hlt, hshort⟩
          · have hall : ∀ p ∈ first :: later, p.length ≤ j := List.forall_mem_cons.2 ⟨Nat.not_lt.1 hlt, hshort⟩
            exact .inr ((h j hj).trans (congrArg some (overlay_short hall)))
    exact fun j hj => hback _ j rfl hj
  · intro h j hj
    by_cases hreach : ∃ p ∈ later, j < p.length
    · obtain ⟨k, hk, hcell⟩ := @overlay_later _ first _ _ (fun _ => z) hreach
      have hz : ∀ i, i < (first ++ later.flatten).length → (first.length ≤ i ∨ i = j) →
          (first ++ later.flatten)[i]? = some z := by
        intro i hi hwhere
        rcases h i hi with ⟨hlt, hshort⟩ | hz
        · rcases hwhere with hge | rfl
          · omega
          · obtain ⟨p, hp, hlong⟩ := hreach
            exact absurd hlong (Nat.not_lt.2 (hshort p hp))
        · exact hz
      rw [hz j hj (.inr rfl), ← hcell]
      exact (hz k (List.getElem?_eq_some_iff.1 hcell).1 (.inl (by omega))).symm
    · have hshort : ∀ p ∈ later, p.length ≤ j := fun p hp => Nat.not_lt.1 (fun hlt => hreach ⟨p, hp, hlt⟩)
      by_cases hlt : j < first.length
      · exact overlay_first _ hlt hshort
      · have hall : ∀ p ∈ first :: later, p.length ≤ j := List.forall_mem_cons.2 ⟨Nat.not_lt.1 hlt, hshort⟩
        rw [overlay_short hall]
        rcases h j hj with ⟨hlt', -⟩ | hz
        · exact absurd hlt' hlt
        · exact hz

end
end Memory
