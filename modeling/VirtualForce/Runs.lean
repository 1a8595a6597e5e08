/-!
# Runs — runs of a step function, and what a step preserves

`run` takes a list of actions through a partial step function (an action that is not enabled ends the run with `none`);
`feed` takes a list of inputs through a total one and collects what each step answers.  Three rules carry every result
about a run from a fact about one step: `run_inv`, `run_inv_along` (under a condition every step of the run meets) and
`feed_sim` (two systems in step answer alike).
-/
namespace Runs

variable {σ τ α β : Type}

/-! ## Partial steps -/

def run (step : σ → α → Option σ) (s : σ) (as : List α) : Option σ := as.foldlM step s

/-- **Every step of the run meets `C`**, up to the first action that is not enabled. -/
def Along (step : σ → α → Option σ) (C : σ → α → Prop) : σ → List α → Prop
  | _, [] => True
  | s, a :: as => C s a ∧ match step s a with
    | none => True
    | some s' => Along step C s' as

theorem Along.append {step : σ → α → Option σ} {C : σ → α → Prop} {s' : σ} {bs : List α} :
    ∀ {as : List α} {s : σ}, Along step C s as → as.foldlM step s = some s' → Along step C s' bs →
      Along step C s (as ++ bs)
  | [], s, _, hr, h => by
    cases hr
    exact h
  | a :: as, s, hC, hr, h => by
    refine ⟨hC.1, ?_⟩
    have hC' := hC.2
    rw [List.foldlM_cons] at hr
    obtain ⟨t, ht, hr⟩ := Option.bind_eq_some_iff.1 hr
    rw [ht] at hC' ⊢
    exact Along.append hC' hr h

instance Along.decidable (step : σ → α → Option σ) (C : σ → α → Prop) [∀ s a, Decidable (C s a)] :
    ∀ s as, Decidable (Along step C s as)
  | _, [] => isTrue trivial
  | s, a :: as =>
    have : Decidable (match step s a with
        | none => True
        | some s' => Along step C s' as) :=
      match step s a with
      | none => isTrue trivial
      | some s' => Along.decidable step C s' as
    inferInstanceAs (Decidable (_ ∧ _))

theorem Along.and {step : σ → α → Option σ} {C D : σ → α → Prop} :
    ∀ {as : List α} {s : σ}, Along step C s as → Along step D s as → Along step (fun s a => C s a ∧ D s a) s as
  | [], _, _, _ => trivial
  | a :: as, s, hC, hD => by
    refine ⟨⟨hC.1, hD.1⟩, ?_⟩
    have hC' := hC.2
    have hD' := hD.2
    cases hs : step s a with
    | none => trivial
    | some s' =>
      rw [hs] at hC' hD'
      exact Along.and hC' hD'

section
variable (step : σ → α → Option σ)

@[simp] theorem run_nil (s : σ) : run step s [] = some s := rfl

theorem run_cons (s : σ) (a : α) (as : List α) :
    run step s (a :: as) = (step s a).bind (fun s' => run step s' as) := rfl

theorem run_cons_eq_some {step : σ → α → Option σ} {s s' : σ} {a : α} {as : List α}
    (h : run step s (a :: as) = some s') : ∃ t, step s a = some t ∧ run step t as = some s' := by
  rw [run_cons] at h
  exact Option.bind_eq_some_iff.1 h

/-- Actions that stand for those of another system. -/
theorem run_map (f : β → α) (s : σ) (bs : List β) : run step s (bs.map f) = run (fun s b => step s (f b)) s bs :=
  List.foldlM_map

theorem run_append (s : σ) (as bs : List α) :
    run step s (as ++ bs) = (run step s as).bind (fun s' => run step s' bs) := by
  unfold run
  rw [List.foldlM_append]
  rfl

end

/-- **A system each of whose steps is a few steps of another runs as the other does.** -/
theorem run_flatMap {step : σ → α → Option σ} {step' : σ → β → Option σ} {f : β → List α}
    (h : ∀ s b s', step' s b = some s' → run step s (f b) = some s') :
    ∀ (bs : List β) (s s' : σ), run step' s bs = some s' → run step s (bs.flatMap f) = some s'
  | [], s, s', hr => hr
  | b :: bs, s, s', hr => by
    obtain ⟨t, ht, hr⟩ := run_cons_eq_some hr
    rw [List.flatMap_cons, run_append, h s b t ht]
    exact run_flatMap h bs t s' hr

/-- **A part of a system runs in it as it does alone**, the rest staying where it is. -/
theorem run_lift {step : σ → α → Option σ} {step' : τ → β → Option τ} {f : σ → τ} {g : α → β}
    (h : ∀ s a s', step s a = some s' → step' (f s) (g a) = some (f s')) :
    ∀ (as : List α) (s s' : σ), run step s as = some s' → run step' (f s) (as.map g) = some (f s')
  | [], s, s', hr => by
    cases hr
    rfl
  | a :: as, s, s', hr => by
    obtain ⟨t, ht, hr⟩ := run_cons_eq_some hr
    rw [List.map_cons, run_cons, h s a t ht]
    exact run_lift h as t s' hr

/-- A run that goes through, and what holds where it ends. -/
theorem exists_run {step : σ → α → Option σ} {s : σ} {as : List α} {P : σ → Prop}
    (hrun : (run step s as).isSome = true) (h : ∀ s', run step s as = some s' → P s') :
    ∃ s', run step s as = some s' ∧ P s' := by
  obtain ⟨s', hs⟩ := Option.isSome_iff_exists.1 hrun
  exact ⟨s', hs, h s' hs⟩

/-- A run whose end is looked at, and what holds there. -/
theorem exists_run_check {step : σ → α → Option σ} {s : σ} {as : List α} {P Q : σ → Prop} [DecidablePred Q]
    (hrun : (run step s as).any (fun s' => decide (Q s')) = true) (h : ∀ s', run step s as = some s' → Q s' → P s') :
    ∃ s', run step s as = some s' ∧ P s' ∧ Q s' := by
  obtain ⟨s', hs, hq⟩ := (Option.any_eq_true _ _).1 hrun
  have hQ := of_decide_eq_true hq
  exact ⟨s', hs, h s' hs hQ, hQ⟩

/-- **An invariant of every step holds after every run.** -/
theorem run_inv {step : σ → α → Option σ} {I : σ → Prop}
    (h : ∀ s a s', I s → step s a = some s' → I s') :
    ∀ (as : List α) (s s' : σ), I s → run step s as = some s' → I s'
  | [], s, s', hs, hr => by
    rw [run_nil, Option.some.injEq] at hr
    rwa [← hr]
  | a :: as, s, s', hs, hr => by
    obtain ⟨t, ht, hr⟩ := run_cons_eq_some hr
    exact run_inv h as t s' (h s a t hs ht) hr

/-- **What the steps meeting `C` preserve holds after every run along which each step meets `C`.** -/
theorem run_inv_along {step : σ → α → Option σ} {I : σ → Prop} {C : σ → α → Prop}
    (h : ∀ s a s', I s → C s a → step s a = some s' → I s') :
    ∀ (as : List α) (s s' : σ), I s → Along step C s as → run step s as = some s' → I s'
  | [], s, s', hs, _, hr => by
    rw [run_nil, Option.some.injEq] at hr
    rwa [← hr]
  | a :: as, s, s', hs, hC, hr => by
    obtain ⟨t, ht, hr⟩ := run_cons_eq_some hr
    simp only [Along, ht] at hC
    exact run_inv_along h as t s' (h s a t hs hC.1 ht) hC.2 hr

/-- **A condition met along a run implies another**, where it does so under an invariant it preserves. -/
theorem Along.of_inv {step : σ → α → Option σ} {I : σ → Prop} {C D : σ → α → Prop} (hD : ∀ s a, I s → C s a → D s a)
    (hI : ∀ s a s', I s → C s a → step s a = some s' → I s') :
    ∀ (as : List α) (s : σ), I s → Along step C s as → Along step D s as
  | [], _, _, _ => trivial
  | a :: as, s, hs, hC => by
    refine ⟨hD s a hs hC.1, ?_⟩
    have hC' := hC.2
    cases ht : step s a with
    | none => trivial
    | some s' =>
      rw [ht] at hC'
      exact Along.of_inv hD hI as s' (hI s a s' hs hC.1 ht) hC'

def trace (step : σ → α → Option σ) (obs : σ → α → List β) : σ → List α → List β
  | _, [] => []
  | s, a :: as => obs s a ++ match step s a with
    | none => []
    | some s' => trace step obs s' as

/-- **An invariant that speaks of what has been shown so far.** -/
theorem run_inv_trace {step : σ → α → Option σ} {obs : σ → α → List β} {C : σ → α → Prop} {I : σ → List β → Prop}
    (h : ∀ s t a s', I s t → C s a → step s a = some s' → I s' (t ++ obs s a)) :
    ∀ (as : List α) (s s' : σ) (t : List β), I s t → Along step C s as → run step s as = some s' →
      I s' (t ++ trace step obs s as)
  | [], s, s', t, hs, _, hr => by
    rw [run_nil, Option.some.injEq] at hr
    rw [← hr, trace, List.append_nil]
    exact hs
  | a :: as, s, s', t, hs, hC, hr => by
    obtain ⟨u, hu, hr⟩ := run_cons_eq_some hr
    simp only [Along, hu] at hC
    have hrest := run_inv_trace h as u s' _ (h s t a u hs hC.1 hu) hC.2 hr
    rw [List.append_assoc] at hrest
    simpa only [trace, hu] using hrest

/-- What the actions show by themselves. -/
theorem trace_of_run {step : σ → α → Option σ} (f : α → List β) : ∀ (as : List α) (s s' : σ), run step s as = some s' →
    trace step (fun _ a => f a) s as = as.flatMap f
  | [], _, _, _ => rfl
  | a :: as, s, s', hr => by
    obtain ⟨u, hu, hr⟩ := run_cons_eq_some hr
    rw [List.flatMap_cons, ← trace_of_run f as u s' hr, trace, hu]

theorem along_of_forall_mem {step : σ → α → Option σ} {C : σ → α → Prop} : ∀ {as : List α} {s : σ},
    (∀ s, ∀ a ∈ as, C s a) → Along step C s as
  | [], _, _ => trivial
  | a :: as, s, h => by
    refine ⟨h s a List.mem_cons_self, ?_⟩
    cases step s a with
    | none => trivial
    | some s' => exact along_of_forall_mem (fun s b hb => h s b (List.mem_cons_of_mem a hb))

theorem along_true (step : σ → α → Option σ) (as : List α) (s : σ) : Along step (fun _ _ => True) s as :=
  along_of_forall_mem (fun _ _ _ => trivial)

/-! ## What can still happen -/

/-- **Some run goes on from `s` to `s'`**, each step meeting `C`. -/
def Leads (step : σ → α → Option σ) (C : σ → α → Prop) (s s' : σ) : Prop :=
  ∃ as, Along step C s as ∧ run step s as = some s'

section
variable {step : σ → α → Option σ} {C : σ → α → Prop} {s t u : σ}

theorem Leads.refl (s : σ) : Leads step C s s := ⟨[], trivial, rfl⟩

theorem Leads.one {a : α} (hC : C s a) (h : step s a = some t) : Leads step C s t := by
  refine ⟨[a], ⟨hC, ?_⟩, ?_⟩
  · rw [h]
    trivial
  · rw [run_cons, h]
    rfl

theorem Leads.trans (h : Leads step C s t) (h' : Leads step C t u) : Leads step C s u := by
  obtain ⟨as, hC, hrun⟩ := h
  obtain ⟨bs, hC', hrun'⟩ := h'
  refine ⟨as ++ bs, hC.append hrun hC', ?_⟩
  rw [run_append, hrun]
  exact hrun'

theorem Leads.inv {I : σ → Prop} (h : Leads step C s t) (hI : ∀ s a s', I s → C s a → step s a = some s' → I s')
    (hs : I s) : I t := by
  obtain ⟨as, hC, hrun⟩ := h
  exact run_inv_along hI as s t hs hC hrun

end

/-! ## Total steps that answer -/

def feed (step : σ → α → σ × β) : σ → List α → σ × List β
  | s, [] => (s, [])
  | s, a :: as => ((feed step (step s a).1 as).1, (step s a).2 :: (feed step (step s a).1 as).2)

/-- **An answer is that of some input, to the state the inputs before it lead to.** -/
theorem mem_feed {step : σ → α → σ × β} {b : β} : ∀ {as : List α} {s : σ},
    b ∈ (feed step s as).2 ↔ ∃ pre a, pre ++ [a] <+: as ∧ b = (step (feed step s pre).1 a).2
  | [], s => by
    constructor
    · exact fun h => absurd h List.not_mem_nil
    · rintro ⟨pre, a, h, -⟩
      have hlen := h.length_le
      simp at hlen
  | c :: as, s => by
    rw [feed, List.mem_cons, mem_feed]
    constructor
    · rintro (rfl | ⟨pre, a, hpre, rfl⟩)
      · exact ⟨[], c, ⟨as, rfl⟩, rfl⟩
      · exact ⟨c :: pre, a, List.cons_prefix_cons.2 ⟨rfl, hpre⟩, rfl⟩
    · rintro ⟨pre, a, hpre, rfl⟩
      cases pre with
      | nil =>
        obtain ⟨rfl, -⟩ := List.cons_prefix_cons.1 hpre
        exact .inl rfl
      | cons d pre =>
        obtain ⟨rfl, hrest⟩ := List.cons_prefix_cons.1 hpre
        exact .inr ⟨pre, a, hrest, rfl⟩

/-- **Two systems in step stay in step and answer alike.** -/
theorem feed_sim {f : σ → α → σ × β} {g : τ → α → τ × β} {R : σ → τ → Prop}
    (h : ∀ s t a, R s t → R (f s a).1 (g t a).1 ∧ (f s a).2 = (g t a).2) :
    ∀ (as : List α) (s : σ) (t : τ), R s t →
      R (feed f s as).1 (feed g t as).1 ∧ (feed f s as).2 = (feed g t as).2
  | [], _, _, hst => ⟨hst, rfl⟩
  | a :: as, s, t, hst => by
    obtain ⟨h1, h2⟩ := h s t a hst
    obtain ⟨i1, i2⟩ := feed_sim h as _ _ h1
    exact ⟨i1, by simp only [feed, h2, i2]⟩

/-- **An invariant that speaks of what has been answered so far.** -/
theorem feed_inv {f : σ → α → σ × β} {I : σ → List β → Prop}
    (h : ∀ s t a, I s t → I (f s a).1 (t ++ [(f s a).2])) :
    ∀ (as : List α) (s : σ) (t : List β), I s t → I (feed f s as).1 (t ++ (feed f s as).2)
  | [], s, t, hs => by
    rw [feed, List.append_nil]
    exact hs
  | a :: as, s, t, hs => by
    have hrest := feed_inv h as _ _ (h s t a hs)
    rw [List.append_assoc] at hrest
    exact hrest

end Runs
