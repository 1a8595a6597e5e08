import Mathlib.Data.List.Basic
import VirtualForce.Runs
/-!
# Sections — under one lock, a step at a time is a section at a time

Threads that touch what they share only between taking a lock and giving it back.  If what else happens to the shared
state may as well happen before a step under the lock as after it, each run of the threads, step by step, is one of whole
sections: `run_beside`.
-/
namespace Sections

open Runs

variable {ι π σ α ε : Type}

/-- Threads `ι`, each with what it has in hand: `outside` the lock it sees nothing shared.  `α` is what the system
answers. -/
structure Program (ι π σ α : Type) where
  outside : ι → π → α → Option π
  enter : ι → π → Option π
  inside : ι → π × σ → α → Option (π × σ)
  leave : ι → π → Option π

/-- The threads between two steps. -/
structure Fine (ι π σ : Type) where
  shared : σ
  holder : Option ι
  pc : ι → π

inductive FineAct (ι α ε : Type) where
  | outside (i : ι) (a : α)
  | lock (i : ι)
  | inside (i : ι) (a : α)
  | unlock (i : ι)
  | env (e : ε)

/-- The threads between two sections. -/
structure Coarse (ι π σ : Type) where
  shared : σ
  pc : ι → π

inductive CoarseAct (ι α ε : Type) where
  | outside (i : ι) (a : α)
  /-- one thread takes the lock, does `as`, and gives it back -/
  | whole (i : ι) (as : List α)
  | env (e : ε)

def Program.atOnce (P : Program ι π σ α) (i : ι) (p : π) (sh : σ) (as : List α) : Option (π × σ) :=
  (P.enter i p).bind (fun q => (run (P.inside i) (q, sh) as).bind (fun r => (P.leave i r.1).map (fun p' => (p', r.2))))

/-- **What else happens may as well happen before a step under the lock**, which meets `G` there as it did. -/
structure Program.Commutes (P : Program ι π σ α) (env : ε → σ → Option σ) (G : ι → π × σ → α → Prop) : Prop where
  step : ∀ i p sh a p' sh' e sh'', P.inside i (p, sh) a = some (p', sh') → env e sh' = some sh'' →
    ∃ u, env e sh = some u ∧ P.inside i (p, u) a = some (p', sh'')
  meets : ∀ i p sh a e u, env e sh = some u → G i (p, sh) a → G i (p, u) a

section
variable {P : Program ι π σ α} {env : ε → σ → Option σ} {G : ι → π × σ → α → Prop}

/-- **What else happens may as well happen before a section as after the steps it has taken.** -/
theorem Program.Commutes.run (C : P.Commutes env G) {i : ι} {e : ε} {p' : π} {sh' sh'' : σ} (he : env e sh' = some sh'') :
    ∀ (as : List α) (p : π) (sh : σ), run (P.inside i) (p, sh) as = some (p', sh') →
      Along (P.inside i) (G i) (p, sh) as →
        ∃ u, env e sh = some u ∧ run (P.inside i) (p, u) as = some (p', sh'') ∧ Along (P.inside i) (G i) (p, u) as
  | [], p, sh, h, _ => by
    cases h
    exact ⟨sh'', he, rfl, trivial⟩
  | a :: as, p, sh, h, hG => by
    obtain ⟨⟨q, mid⟩, ha, hrest⟩ := run_cons_eq_some h
    have hGrest := hG.2
    rw [ha] at hGrest
    obtain ⟨v, hv, hrun, halong⟩ := C.run he as q mid hrest hGrest
    obtain ⟨u, hu, hstep⟩ := C.step i p sh a q mid e v ha hv
    refine ⟨u, hu, ?_, C.meets i p sh a e u hu hG.1, ?_⟩
    · rw [run_cons, hstep]
      exact hrun
    · rw [hstep]
      exact halong

end

/-- Every step of the section meets `G`. -/
def Coarse.Meets (P : Program ι π σ α) (G : ι → π × σ → α → Prop) (t : Coarse ι π σ) : CoarseAct ι α ε → Prop
  | .whole i as => ∀ p, P.enter i (t.pc i) = some p → Along (P.inside i) (G i) (p, t.shared) as
  | _ => True

def Fine.Meets (G : ι → π × σ → α → Prop) (s : Fine ι π σ) : FineAct ι α ε → Prop
  | .inside i a => G i (s.pc i, s.shared) a
  | _ => True

/-- The section of `i` has not begun in `t`, and got as far as it has in `s`. -/
structure Under (P : Program ι π σ α) (G : ι → π × σ → α → Prop) (i : ι) (t : Coarse ι π σ) (s : Fine ι π σ) : Prop where
  others : ∀ j, j ≠ i → t.pc j = s.pc j
  far : ∃ p as, P.enter i (t.pc i) = some p ∧ run (P.inside i) (p, t.shared) as = some (s.pc i, s.shared) ∧
    Along (P.inside i) (G i) (p, t.shared) as

/-- **A state between sections beside one between steps.** -/
def Beside (P : Program ι π σ α) (G : ι → π × σ → α → Prop) (t : Coarse ι π σ) (s : Fine ι π σ) : Prop :=
  match s.holder with
  | none => t.shared = s.shared ∧ t.pc = s.pc
  | some i => Under P G i t s

section
variable {P : Program ι π σ α} {env : ε → σ → Option σ} {G : ι → π × σ → α → Prop} {t : Coarse ι π σ} {s : Fine ι π σ}

theorem Beside.of_none (hs : s.holder = none) (B : Beside P G t s) : t.shared = s.shared ∧ t.pc = s.pc := by
  rwa [Beside, hs] at B

theorem Beside.of_some {i : ι} (hs : s.holder = some i) (B : Beside P G t s) : Under P G i t s := by
  rwa [Beside, hs] at B

/-- What else happens beside a section under way is taken before it. -/
theorem Beside.meanwhile {e : ε} {sh : σ} (C : P.Commutes env G) (B : Beside P G t s) (hsh : env e s.shared = some sh) :
    ∃ u, env e t.shared = some u ∧ Beside P G { t with shared := u } { s with shared := sh } := by
  cases hs : s.holder with
  | none =>
    obtain ⟨hshared, hpc⟩ := B.of_none hs
    refine ⟨sh, by rw [hshared]; exact hsh, ?_⟩
    simp only [Beside]
    exact ⟨trivial, hpc⟩
  | some i =>
    obtain ⟨hothers, p, as, henter, hrun, halong⟩ := B.of_some hs
    obtain ⟨u, hu, hrun', halong'⟩ := C.run hsh as p t.shared hrun halong
    refine ⟨u, hu, ?_⟩
    simp only [Beside]
    exact ⟨hothers, p, as, henter, hrun', halong'⟩

end

variable [DecidableEq ι]

def Program.step (P : Program ι π σ α) (env : ε → σ → Option σ) (s : Fine ι π σ) :
    FineAct ι α ε → Option (Fine ι π σ)
  | .outside i a =>
    if s.holder = some i then none
    else (P.outside i (s.pc i) a).map (fun p => { s with pc := Function.update s.pc i p })
  | .lock i =>
    if s.holder = none then
      (P.enter i (s.pc i)).map (fun p => { s with holder := some i, pc := Function.update s.pc i p })
    else none
  | .inside i a =>
    if s.holder = some i then
      (P.inside i (s.pc i, s.shared) a).map (fun r => { s with shared := r.2, pc := Function.update s.pc i r.1 })
    else none
  | .unlock i =>
    if s.holder = some i then
      (P.leave i (s.pc i)).map (fun p => { s with holder := none, pc := Function.update s.pc i p })
    else none
  | .env e => (env e s.shared).map (fun sh => { s with shared := sh })

def Program.coarseStep (P : Program ι π σ α) (env : ε → σ → Option σ) (t : Coarse ι π σ) :
    CoarseAct ι α ε → Option (Coarse ι π σ)
  | .outside i a => (P.outside i (t.pc i) a).map (fun p => { t with pc := Function.update t.pc i p })
  | .whole i as => (P.atOnce i (t.pc i) t.shared as).map (fun r => ⟨r.2, Function.update t.pc i r.1⟩)
  | .env e => (env e t.shared).map (fun sh => { t with shared := sh })

section
variable {P : Program ι π σ α} {env : ε → σ → Option σ} {G : ι → π × σ → α → Prop}
variable {t : Coarse ι π σ} {s s' : Fine ι π σ} {i : ι} {a : α}

/-- What a step does, and when. -/
theorem Program.step_cases {act : FineAct ι α ε} (h : P.step env s act = some s') :
    match act with
    | .outside i a => s.holder ≠ some i ∧ ∃ p, P.outside i (s.pc i) a = some p ∧
        s' = { s with pc := Function.update s.pc i p }
    | .lock i => s.holder = none ∧ ∃ p, P.enter i (s.pc i) = some p ∧
        s' = { s with holder := some i, pc := Function.update s.pc i p }
    | .inside i a => s.holder = some i ∧ ∃ p sh, P.inside i (s.pc i, s.shared) a = some (p, sh) ∧
        s' = { s with shared := sh, pc := Function.update s.pc i p }
    | .unlock i => s.holder = some i ∧ ∃ p, P.leave i (s.pc i) = some p ∧
        s' = { s with holder := none, pc := Function.update s.pc i p }
    | .env e => ∃ sh, env e s.shared = some sh ∧ s' = { s with shared := sh } := by
  cases act with
  | outside i a =>
    simp only [Program.step] at h
    split at h
    · cases h
    · rename_i hi
      obtain ⟨p, hp, rfl⟩ := Option.map_eq_some_iff.1 h
      exact ⟨hi, p, hp, rfl⟩
  | lock i =>
    simp only [Program.step] at h
    split at h
    · rename_i hs
      obtain ⟨p, hp, rfl⟩ := Option.map_eq_some_iff.1 h
      exact ⟨hs, p, hp, rfl⟩
    · cases h
  | inside i a =>
    simp only [Program.step] at h
    split at h
    · rename_i hs
      obtain ⟨⟨p, sh⟩, hp, rfl⟩ := Option.map_eq_some_iff.1 h
      exact ⟨hs, p, sh, hp, rfl⟩
    · cases h
  | unlock i =>
    simp only [Program.step] at h
    split at h
    · rename_i hs
      obtain ⟨p, hp, rfl⟩ := Option.map_eq_some_iff.1 h
      exact ⟨hs, p, hp, rfl⟩
    · cases h
  | env e =>
    obtain ⟨sh, hsh, rfl⟩ := Option.map_eq_some_iff.1 h
    exact ⟨sh, hsh, rfl⟩

/-! ## A step beside sections -/

theorem Beside.outside {p : π} (B : Beside P G t s) (hi : s.holder ≠ some i) (hp : P.outside i (s.pc i) a = some p) :
    P.outside i (t.pc i) a = some p ∧
      Beside P G { t with pc := Function.update t.pc i p } { s with pc := Function.update s.pc i p } := by
  cases hs : s.holder with
  | none =>
    obtain ⟨hsh, hpc⟩ := B.of_none hs
    simp only [Beside, hpc]
    exact ⟨hp, hsh, trivial⟩
  | some j =>
    obtain ⟨hothers, q, as, henter, hrun, halong⟩ := B.of_some hs
    have hji : j ≠ i := fun hji => hi (hji ▸ hs)
    refine ⟨by rw [hothers i (Ne.symm hji)]; exact hp, ?_⟩
    simp only [Beside]
    refine ⟨fun k hk => ?_, q, as, ?_, ?_, halong⟩ <;> dsimp only
    · by_cases hki : k = i
      · rw [hki, Function.update_self, Function.update_self]
      · rw [Function.update_of_ne hki, Function.update_of_ne hki]
        exact hothers k hk
    · rw [Function.update_of_ne hji]
      exact henter
    · rw [Function.update_of_ne hji]
      exact hrun

theorem Beside.lock {p : π} (B : Beside P G t s) (hs : s.holder = none) (hp : P.enter i (s.pc i) = some p) :
    Beside P G t { s with holder := some i, pc := Function.update s.pc i p } := by
  obtain ⟨hsh, hpc⟩ := B.of_none hs
  simp only [Beside]
  refine ⟨fun j hj => ?_, p, [], ?_, ?_, trivial⟩
  · rw [hpc]
    exact (Function.update_of_ne hj p s.pc).symm
  · rw [hpc]
    exact hp
  · dsimp only
    rw [run_nil, hsh, Function.update_self]

theorem Beside.inside {p : π} {sh : σ} (B : Beside P G t s) (hs : s.holder = some i)
    (hG : G i (s.pc i, s.shared) a) (ha : P.inside i (s.pc i, s.shared) a = some (p, sh)) :
    Beside P G t { s with shared := sh, pc := Function.update s.pc i p } := by
  obtain ⟨hothers, q, as, henter, hrun, halong⟩ := B.of_some hs
  simp only [Beside, hs]
  refine ⟨fun j hj => ?_, q, as ++ [a], henter, ?_, halong.append hrun ⟨hG, by rw [ha]; trivial⟩⟩ <;> dsimp only
  · rw [Function.update_of_ne hj]
    exact hothers j hj
  · rw [run_append, hrun, Option.bind_some, run_cons, ha, Function.update_self]
    rfl

/-- The section that ends is one step of whole sections. -/
theorem Beside.unlock {p : π} (B : Beside P G t s) (hs : s.holder = some i) (hp : P.leave i (s.pc i) = some p) :
    ∃ as t', P.coarseStep env t (.whole i as) = some t' ∧ Coarse.Meets P G t (CoarseAct.whole i as : CoarseAct ι α ε) ∧
      Beside P G t' { s with holder := none, pc := Function.update s.pc i p } := by
  obtain ⟨hothers, q, as, henter, hrun, halong⟩ := B.of_some hs
  refine ⟨as, ⟨s.shared, Function.update t.pc i p⟩, ?_, fun q' hq' => ?_, rfl, ?_⟩
  · rw [Program.coarseStep, Program.atOnce, henter, Option.bind_some, hrun, Option.bind_some, hp]
    rfl
  · rw [henter, Option.some.injEq] at hq'
    exact hq' ▸ halong
  · funext j
    dsimp only
    by_cases hj : j = i
    · rw [hj, Function.update_self, Function.update_self]
    · rw [Function.update_of_ne hj, Function.update_of_ne hj]
      exact hothers j hj

theorem Beside.one {t' : Coarse ι π σ} {act : CoarseAct ι α ε} (hstep : P.coarseStep env t act = some t')
    (hmeets : Coarse.Meets P G t act) (B : Beside P G t' s) : ∃ acts u, run (P.coarseStep env) t acts = some u ∧
      Along (P.coarseStep env) (Coarse.Meets P G) t acts ∧ Beside P G u s := by
  refine ⟨[act], t', ?_, ⟨hmeets, ?_⟩, B⟩
  · rw [run_cons, hstep]
    rfl
  · rw [hstep]
    trivial

/-- **A step is no section, or one.** -/
theorem Beside.step (C : P.Commutes env G) (B : Beside P G t s) {act : FineAct ι α ε} (hG : s.Meets G act)
    (h : P.step env s act = some s') : ∃ acts t', run (P.coarseStep env) t acts = some t' ∧
      Along (P.coarseStep env) (Coarse.Meets P G) t acts ∧ Beside P G t' s' := by
  have hcases := Program.step_cases h
  cases act with
  | outside i a =>
    obtain ⟨hi, p, hp, rfl⟩ := hcases
    obtain ⟨hp', B'⟩ := B.outside hi hp
    refine Beside.one (?_ : P.coarseStep env t (.outside i a) = _) trivial B'
    rw [Program.coarseStep, hp']
    rfl
  | lock i =>
    obtain ⟨hs, p, hp, rfl⟩ := hcases
    exact ⟨[], t, rfl, trivial, B.lock hs hp⟩
  | inside i a =>
    obtain ⟨hs, p, sh, ha, rfl⟩ := hcases
    exact ⟨[], t, rfl, trivial, B.inside hs hG ha⟩
  | unlock i =>
    obtain ⟨hs, p, hp, rfl⟩ := hcases
    obtain ⟨as, t', hstep, hmeets, B'⟩ := B.unlock hs hp
    exact Beside.one hstep hmeets B'
  | env e =>
    obtain ⟨sh, hsh, rfl⟩ := hcases
    obtain ⟨u, hu, B'⟩ := B.meanwhile C hsh
    refine Beside.one (?_ : P.coarseStep env t (.env e) = _) trivial B'
    rw [Program.coarseStep, hu]
    rfl

/-- **Each run, step by step, is one of whole sections**, up to the section under way. -/
theorem run_beside (C : P.Commutes env G) (sh : σ) (pc : ι → π) (acts : List (FineAct ι α ε)) (s : Fine ι π σ)
    (hG : Along (P.step env) (Fine.Meets G) ⟨sh, none, pc⟩ acts) (h : run (P.step env) ⟨sh, none, pc⟩ acts = some s) :
    ∃ coarse t, run (P.coarseStep env) ⟨sh, pc⟩ coarse = some t ∧
      Along (P.coarseStep env) (Coarse.Meets P G) ⟨sh, pc⟩ coarse ∧ Beside P G t s := by
  have B0 : Beside P G ⟨sh, pc⟩ ⟨sh, none, pc⟩ := ⟨rfl, rfl⟩
  refine run_inv_along (I := fun s => ∃ coarse t, run (P.coarseStep env) ⟨sh, pc⟩ coarse = some t ∧
    Along (P.coarseStep env) (Coarse.Meets P G) ⟨sh, pc⟩ coarse ∧ Beside P G t s)
    ?_ acts _ _ ⟨[], _, rfl, trivial, B0⟩ hG h
  rintro s act s' ⟨coarse, t, hrun, halong, B⟩ hmeets hstep
  obtain ⟨more, t', hmore, hmeets', B'⟩ := B.step C hmeets hstep
  refine ⟨coarse ++ more, t', ?_, halong.append hrun hmeets', B'⟩
  rw [run_append, hrun]
  exact hmore

end

/-! ## Where the threads are -/

/-- A thread is `In` somewhere with the lock, and `Out` somewhere without. -/
structure Program.Splits (P : Program ι π σ α) (In Out : ι → π → Prop) : Prop where
  outside : ∀ i p a q, P.outside i p a = some q → Out i q
  enter : ∀ i p q, P.enter i p = some q → In i q
  inside : ∀ i x a y, P.inside i x a = some y → In i y.1
  leave : ∀ i p q, P.leave i p = some q → Out i q

structure Placed (In Out : ι → π → Prop) (s : Fine ι π σ) : Prop where
  inside : ∀ i, s.holder = some i → In i (s.pc i)
  outside : ∀ i, s.holder ≠ some i → Out i (s.pc i)

section
variable {P : Program ι π σ α} {env : ε → σ → Option σ} {In Out : ι → π → Prop} {s s' : Fine ι π σ} {i : ι} {p : π}

/-- A thread moves on with the lock where it was. -/
theorem Placed.update (I : Placed In Out s) (hin : s.holder = some i → In i p) (hout : s.holder ≠ some i → Out i p)
    (sh : σ) : Placed In Out { s with shared := sh, pc := Function.update s.pc i p } := by
  refine ⟨fun j hj => ?_, fun j hj => ?_⟩ <;> dsimp only at hj ⊢ <;> by_cases hji : j = i
  · subst hji
    rw [Function.update_self]
    exact hin hj
  · rw [Function.update_of_ne hji]
    exact I.inside j hj
  · subst hji
    rw [Function.update_self]
    exact hout hj
  · rw [Function.update_of_ne hji]
    exact I.outside j hj

/-- **A thread holds the lock where it needs it, and nowhere else.** -/
theorem Placed.step (S : P.Splits In Out) (I : Placed In Out s) {act : FineAct ι α ε}
    (h : P.step env s act = some s') : Placed In Out s' := by
  have hcases := Program.step_cases h
  cases act with
  | outside i a =>
    obtain ⟨hi, p, hp, rfl⟩ := hcases
    exact I.update (fun h => absurd h hi) (fun _ => S.outside _ _ _ _ hp) s.shared
  | lock i =>
    obtain ⟨hs, p, hp, rfl⟩ := hcases
    refine ⟨fun j hj => ?_, fun j hj => ?_⟩ <;> dsimp only at hj ⊢
    · obtain rfl := Option.some.inj hj
      rw [Function.update_self]
      exact S.enter _ _ _ hp
    · have hji : j ≠ i := fun hji => hj (hji ▸ rfl)
      rw [Function.update_of_ne hji]
      exact I.outside j (by rw [hs]; exact fun h => nomatch h)
  | inside i a =>
    obtain ⟨hs, p, sh, ha, rfl⟩ := hcases
    exact I.update (fun _ => S.inside _ _ _ _ ha) (fun h => absurd hs h) sh
  | unlock i =>
    obtain ⟨hs, p, hp, rfl⟩ := hcases
    refine ⟨fun j hj => (by cases hj), fun j hj => ?_⟩
    dsimp only
    by_cases hji : j = i
    · subst hji
      rw [Function.update_self]
      exact S.leave _ _ _ hp
    · rw [Function.update_of_ne hji]
      exact I.outside j (fun h => hji (Option.some.inj (h.symm.trans hs)))
  | env e =>
    obtain ⟨sh, -, rfl⟩ := hcases
    exact ⟨I.inside, I.outside⟩

end

end Sections
