import Mathlib.Data.Fintype.Basic
import VirtualForce.Runs
/-!
# Mailbox — one slot, handed to and fro by a flag

A writer fills the slot only while the flag is free and marks it when it is done; a reader copies the slot only while it
is marked and frees it when it is done.  Words are copied one a step, in any order.  A record offered while the flag is
not free is dropped.  What is taken is what was put, in order, each once and whole.
-/
namespace Mailbox

open Runs

/-- When the writer may write and the reader read, and what either stores when done. -/
structure Signal (φ : Type) where
  free : φ → Bool
  full : φ → Bool
  mark : φ
  clear : φ
  full_mark : full mark = true
  free_clear : free clear = true
  not_both : ∀ x, free x = true → full x = false

theorem Signal.not_free {φ : Type} (g : Signal φ) {x : φ} (h : g.full x = true) : g.free x = false := by
  cases hf : g.free x with
  | false => rfl
  | true => exact absurd h (by rw [g.not_both x hf]; decide)

inductive Party (α : Type) (n : Nat) where
  | idle
  | copying (record : Fin n → α) (done : Fin n → Bool)

/-- The slot and its two parties; `offered` is every record the writer was called with, `put` those it marked, `taken`
those the reader freed. -/
structure Box (φ α : Type) (n : Nat) where
  flag : φ
  words : Fin n → α
  writer : Party α n
  reader : Party α n
  offered : List (Fin n → α)
  put : List (Fin n → α)
  taken : List (Fin n → α)

inductive Act (α : Type) (n : Nat) where
  | offer (record : Fin n → α)
  | writeWord (i : Fin n)
  | mark
  | look (buf : Fin n → α)
  | readWord (i : Fin n)
  | clear

variable {φ α : Type} {n : Nat}

def Box.start (flag : φ) (words : Fin n → α) : Box φ α n := ⟨flag, words, .idle, .idle, [], [], []⟩

/-- From any flag: a record that is in the slot before anything runs has been offered and put. -/
def Box.startWith (g : Signal φ) (flag : φ) (words : Fin n → α) : Box φ α n :=
  ⟨flag, words, .idle, .idle, if g.full flag then [words] else [], if g.full flag then [words] else [], []⟩

def Box.step (g : Signal φ) (s : Box φ α n) : Act α n → Option (Box φ α n)
  | .offer record => match s.writer with
    | .idle =>
      if g.free s.flag then
        some { s with writer := .copying record (fun _ => false), offered := s.offered ++ [record] }
      else some { s with offered := s.offered ++ [record] }
    | .copying _ _ => none
  | .writeWord i => match s.writer with
    | .idle => none
    | .copying record done => some { s with
        words := Function.update s.words i (record i)
        writer := .copying record (Function.update done i true) }
  | .mark => match s.writer with
    | .idle => none
    | .copying record done =>
      if ∀ i, done i = true then some { s with flag := g.mark, writer := .idle, put := s.put ++ [record] } else none
  | .look buf => match s.reader with
    | .idle => if g.full s.flag then some { s with reader := .copying buf (fun _ => false) } else some s
    | .copying _ _ => none
  | .readWord i => match s.reader with
    | .idle => none
    | .copying buf done => some { s with
        reader := .copying (Function.update buf i (s.words i)) (Function.update done i true) }
  | .clear => match s.reader with
    | .idle => none
    | .copying buf done =>
      if ∀ i, done i = true then some { s with flag := g.clear, reader := .idle, taken := s.taken ++ [buf] } else none

/-! ## What each step takes and does -/

section
variable {g : Signal φ} {s s' : Box φ α n}

theorem step_offer {record : Fin n → α} (h : s.step g (.offer record) = some s') : s.writer = .idle ∧
    ((g.free s.flag = true ∧
        s' = { s with writer := .copying record (fun _ => false), offered := s.offered ++ [record] }) ∨
      (g.free s.flag = false ∧ s' = { s with offered := s.offered ++ [record] })) := by
  simp only [Box.step] at h
  split at h
  · rename_i hidle
    refine ⟨hidle, ?_⟩
    by_cases hfree : g.free s.flag = true
    · rw [if_pos hfree, Option.some.injEq] at h
      exact .inl ⟨hfree, h.symm⟩
    · rw [if_neg hfree, Option.some.injEq] at h
      exact .inr ⟨by simpa using hfree, h.symm⟩
  · cases h

theorem step_writeWord {i : Fin n} (h : s.step g (.writeWord i) = some s') : ∃ record done,
    s.writer = .copying record done ∧ s' = { s with
      words := Function.update s.words i (record i)
      writer := .copying record (Function.update done i true) } := by
  simp only [Box.step] at h
  split at h
  · cases h
  · rename_i record done hs
    exact ⟨record, done, hs, (Option.some.inj h).symm⟩

theorem step_mark (h : s.step g .mark = some s') : ∃ record done, s.writer = .copying record done ∧
    (∀ i, done i = true) ∧ s' = { s with flag := g.mark, writer := .idle, put := s.put ++ [record] } := by
  simp only [Box.step] at h
  split at h
  · cases h
  · rename_i record done hs
    split at h
    · rename_i hall
      exact ⟨record, done, hs, hall, (Option.some.inj h).symm⟩
    · cases h

theorem step_look {buf : Fin n → α} (h : s.step g (.look buf) = some s') : s.reader = .idle ∧
    ((g.full s.flag = true ∧ s' = { s with reader := .copying buf (fun _ => false) }) ∨
      (g.full s.flag = false ∧ s' = s)) := by
  simp only [Box.step] at h
  split at h
  · rename_i hidle
    refine ⟨hidle, ?_⟩
    by_cases hfull : g.full s.flag = true
    · rw [if_pos hfull, Option.some.injEq] at h
      exact .inl ⟨hfull, h.symm⟩
    · rw [if_neg hfull, Option.some.injEq] at h
      exact .inr ⟨by simpa using hfull, h.symm⟩
  · cases h

theorem step_readWord {i : Fin n} (h : s.step g (.readWord i) = some s') : ∃ buf done,
    s.reader = .copying buf done ∧ s' = { s with
      reader := .copying (Function.update buf i (s.words i)) (Function.update done i true) } := by
  simp only [Box.step] at h
  split at h
  · cases h
  · rename_i buf done hs
    exact ⟨buf, done, hs, (Option.some.inj h).symm⟩

theorem step_clear (h : s.step g .clear = some s') : ∃ buf done, s.reader = .copying buf done ∧
    (∀ i, done i = true) ∧ s' = { s with flag := g.clear, reader := .idle, taken := s.taken ++ [buf] } := by
  simp only [Box.step] at h
  split at h
  · cases h
  · rename_i buf done hs
    split at h
    · rename_i hall
      exact ⟨buf, done, hs, hall, (Option.some.inj h).symm⟩
    · cases h

end

/-! ## What holds at every point -/

def WriterOk (g : Signal φ) (s : Box φ α n) : Prop :=
  match s.writer with
  | .idle => True
  | .copying record done => g.free s.flag = true ∧ (∀ i, done i = true → s.words i = record i) ∧
      (s.put ++ [record]).Sublist s.offered

def ReaderOk (g : Signal φ) (s : Box φ α n) : Prop :=
  match s.reader with
  | .idle => True
  | .copying buf done => g.full s.flag = true ∧ ∀ i, done i = true → buf i = s.words i

structure Inv (g : Signal φ) (s : Box φ α n) : Prop where
  flag : g.free s.flag = true ∨ g.full s.flag = true
  writer : WriterOk g s
  reader : ReaderOk g s
  offered : s.put.Sublist s.offered
  full : g.full s.flag = true → s.put = s.taken ++ [s.words]
  free : g.free s.flag = true → s.put = s.taken

theorem eq_of_copied {record words : Fin n → α} {done : Fin n → Bool} (hall : ∀ i, done i = true)
    (h : ∀ i, done i = true → words i = record i) : words = record := funext fun i => h i (hall i)

theorem copied_update {record words : Fin n → α} {done : Fin n → Bool} (i : Fin n)
    (h : ∀ j, done j = true → words j = record j) :
    ∀ j, Function.update done i true j = true → Function.update words i (record i) j = record j := by
  intro j hj
  by_cases hji : j = i
  · subst hji
    rw [Function.update_self]
  · rw [Function.update_of_ne hji] at hj ⊢
    exact h j hj

namespace Inv

variable {g : Signal φ} {s s' : Box φ α n}

theorem start {flag : φ} (words : Fin n → α) (h : g.free flag = true) : Inv g (Box.start flag words) where
  flag := .inl h
  writer := trivial
  reader := trivial
  offered := List.Sublist.refl _
  full := fun hf => absurd hf (by rw [Box.start, g.not_both flag h]; decide)
  free := fun _ => rfl

theorem startWith {flag : φ} (words : Fin n → α) (h : g.free flag = true ∨ g.full flag = true) :
    Inv g (Box.startWith g flag words) where
  flag := h
  writer := trivial
  reader := trivial
  offered := List.Sublist.refl _
  full := fun hf => by
    have hf : g.full flag = true := hf
    simp only [Box.startWith, if_pos hf, List.nil_append]
  free := fun hf => by
    have hf := g.not_both flag hf
    simp only [Box.startWith, hf, Bool.false_eq_true, if_false]

theorem reader_idle (I : Inv g s) (hfree : g.free s.flag = true) : s.reader = .idle := by
  have hr := I.reader
  unfold ReaderOk at hr
  cases hs : s.reader with
  | idle => rfl
  | copying buf done =>
    rw [hs] at hr
    exact absurd hr.1 (by rw [g.not_both _ hfree]; decide)

theorem writer_idle (I : Inv g s) (hfull : g.full s.flag = true) : s.writer = .idle := by
  have hw := I.writer
  unfold WriterOk at hw
  cases hs : s.writer with
  | idle => rfl
  | copying record done =>
    rw [hs] at hw
    exact absurd hw.1 (by rw [g.not_free hfull]; decide)

/-- **Every step of either party keeps the invariant.** -/
theorem step (I : Inv g s) {act : Act α n} (h : s.step g act = some s') : Inv g s' := by
  have hw := I.writer
  have hr := I.reader
  unfold WriterOk at hw
  unfold ReaderOk at hr
  cases act with
  | offer record =>
    obtain ⟨hidle, ⟨hfree, rfl⟩ | ⟨-, rfl⟩⟩ := step_offer h
    · refine ⟨I.flag, ⟨hfree, fun i hi => absurd hi Bool.false_ne_true, ?_⟩, I.reader, ?_, I.full, I.free⟩
      · exact I.offered.append (List.Sublist.refl _)
      · exact I.offered.trans (List.sublist_append_left _ _)
    · refine ⟨I.flag, ?_, I.reader, I.offered.trans (List.sublist_append_left _ _), I.full, I.free⟩
      simp only [WriterOk, hidle]
  | writeWord i =>
    obtain ⟨record, done, hs, rfl⟩ := step_writeWord h
    rw [hs] at hw
    obtain ⟨hfree, hwords, hsub⟩ := hw
    have hidle := I.reader_idle hfree
    refine ⟨I.flag, ⟨hfree, copied_update i hwords, hsub⟩, ?_, I.offered, ?_, I.free⟩
    · simp only [ReaderOk, hidle]
    · exact fun hfull => absurd hfull (by rw [g.not_both _ hfree]; decide)
  | mark =>
    obtain ⟨record, done, hs, hall, rfl⟩ := step_mark h
    rw [hs] at hw
    obtain ⟨hfree, hwords, hsub⟩ := hw
    have hidle := I.reader_idle hfree
    refine ⟨.inr g.full_mark, trivial, ?_, hsub, ?_, ?_⟩
    · simp only [ReaderOk, hidle]
    · intro _
      simp only
      rw [I.free hfree, eq_of_copied hall hwords]
    · exact fun hf => absurd hf (by simp only; rw [g.not_free g.full_mark]; decide)
  | look buf =>
    obtain ⟨-, ⟨hfull, rfl⟩ | ⟨-, rfl⟩⟩ := step_look h
    · exact ⟨I.flag, I.writer, ⟨hfull, fun i hi => absurd hi Bool.false_ne_true⟩, I.offered, I.full, I.free⟩
    · exact I
  | readWord i =>
    obtain ⟨buf, done, hs, rfl⟩ := step_readWord h
    rw [hs] at hr
    obtain ⟨hfull, hwords⟩ := hr
    exact ⟨I.flag, I.writer, ⟨hfull, copied_update i hwords⟩, I.offered, I.full, I.free⟩
  | clear =>
    obtain ⟨buf, done, hs, hall, rfl⟩ := step_clear h
    rw [hs] at hr
    obtain ⟨hfull, hwords⟩ := hr
    have hidle := I.writer_idle hfull
    refine ⟨.inl g.free_clear, ?_, trivial, I.offered, ?_, ?_⟩
    · simp only [WriterOk, hidle]
    · exact fun hf => absurd hf (by simp only; rw [g.not_both _ g.free_clear]; decide)
    · intro _
      simp only
      rw [I.full hfull, eq_of_copied hall hwords]

/-- **What is taken is what was put**, all of it or all but the last. -/
theorem taken_prefix (I : Inv g s) : s.taken <+: s.put := by
  rcases I.flag with h | h
  · rw [I.free h]
  · rw [I.full h]
    exact List.prefix_append _ _

/-- **The last record put is in the slot, or was the last one taken.** -/
theorem last_put (I : Inv g s) :
    (g.full s.flag = true ∧ s.put.getLast? = some s.words) ∨
      (g.free s.flag = true ∧ s.put.getLast? = s.taken.getLast?) := by
  rcases I.flag with h | h
  · exact .inr ⟨h, by rw [I.free h]⟩
  · exact .inl ⟨h, by rw [I.full h, List.getLast?_concat]⟩

end Inv

/-! ## From any flag -/

/-- A flag that neither party knows: the writer never writes, the reader never reads. -/
structure Stuck (g : Signal φ) (s : Box φ α n) : Prop where
  flag : g.free s.flag = false ∧ g.full s.flag = false
  writer : s.writer = .idle
  reader : s.reader = .idle
  put : s.put = []
  taken : s.taken = []

theorem Stuck.step {g : Signal φ} {s s' : Box φ α n} (K : Stuck g s) {act : Act α n} (h : s.step g act = some s') :
    Stuck g s' := by
  have hw := K.writer
  have hr := K.reader
  cases act with
  | offer record =>
    obtain ⟨-, ⟨hfree, -⟩ | ⟨-, rfl⟩⟩ := step_offer h
    · exact absurd hfree (by rw [K.flag.1]; decide)
    · exact ⟨K.flag, hw, hr, K.put, K.taken⟩
  | look buf =>
    obtain ⟨-, ⟨hfull, -⟩ | ⟨-, rfl⟩⟩ := step_look h
    · exact absurd hfull (by rw [K.flag.2]; decide)
    · exact K
  | writeWord i =>
    obtain ⟨record, done, hs, -⟩ := step_writeWord h
    exact absurd (hw.symm.trans hs) (by simp)
  | mark =>
    obtain ⟨record, done, hs, -⟩ := step_mark h
    exact absurd (hw.symm.trans hs) (by simp)
  | readWord i =>
    obtain ⟨buf, done, hs, -⟩ := step_readWord h
    exact absurd (hr.symm.trans hs) (by simp)
  | clear =>
    obtain ⟨buf, done, hs, -⟩ := step_clear h
    exact absurd (hr.symm.trans hs) (by simp)

/-- **Handed over**: what was taken is what was put, all of it or all but the last, and what was put is what was
offered, some of it left out. -/
structure HandedOver (s : Box φ α n) : Prop where
  taken : s.taken <+: s.put
  put : s.put.Sublist s.offered

/-- The invariant from any flag. -/
def Kept (g : Signal φ) (s : Box φ α n) : Prop := Inv g s ∨ Stuck g s

theorem Kept.startWith (g : Signal φ) (flag : φ) (words : Fin n → α) : Kept g (Box.startWith g flag words) := by
  by_cases h : g.free flag = true ∨ g.full flag = true
  · exact .inl (Inv.startWith words h)
  · simp only [not_or, Bool.not_eq_true] at h
    have hput : (Box.startWith g flag words).put = [] := by
      simp only [Box.startWith, h.2, Bool.false_eq_true, if_false]
    exact .inr ⟨h, rfl, rfl, hput, rfl⟩

theorem Kept.step {g : Signal φ} {s s' : Box φ α n} (K : Kept g s) {act : Act α n} (h : s.step g act = some s') :
    Kept g s' := K.imp (fun I => I.step h) (fun K => K.step h)

theorem Kept.handedOver {g : Signal φ} {s : Box φ α n} (K : Kept g s) : HandedOver s := by
  rcases K with I | K
  · exact ⟨I.taken_prefix, I.offered⟩
  · exact ⟨by rw [K.taken, K.put], by rw [K.put]; exact List.nil_sublist _⟩

/-- A reader in the middle of its copy found the flag full, and it still is. -/
theorem Kept.full_of_copying {g : Signal φ} {s : Box φ α n} (K : Kept g s) {buf : Fin n → α} {done : Fin n → Bool}
    (hs : s.reader = .copying buf done) : g.full s.flag = true := by
  rcases K with I | K
  · have hr := I.reader
    rw [ReaderOk, hs] at hr
    exact hr.1
  · exact absurd (K.reader.symm.trans hs) (by simp)

/-! ## What is put -/

/-- The records put, with the one being put. -/
def Box.putting (s : Box φ α n) : List (Fin n → α) :=
  match s.writer with
  | .idle => s.put
  | .copying record _ => s.put ++ [record]

def Box.begins (g : Signal φ) (s : Box φ α n) : Act α n → List (Fin n → α)
  | .offer record => if g.free s.flag then [record] else []
  | _ => []

/-- **Only an offer to a free slot adds to what is put.** -/
theorem putting_step (g : Signal φ) {s s' : Box φ α n} {act : Act α n} (h : s.step g act = some s') :
    s'.putting = s.putting ++ s.begins g act := by
  cases act with
  | offer record =>
    obtain ⟨hidle, ⟨hfree, rfl⟩ | ⟨hfree, rfl⟩⟩ := step_offer h
    · simp only [Box.putting, hidle, Box.begins, hfree, if_true]
    · simp only [Box.putting, hidle, Box.begins, hfree, Bool.false_eq_true, if_false, List.append_nil]
  | writeWord i =>
    obtain ⟨record, done, hs, rfl⟩ := step_writeWord h
    simp only [Box.putting, hs, Box.begins, List.append_nil]
  | mark =>
    obtain ⟨record, done, hs, -, rfl⟩ := step_mark h
    simp only [Box.putting, hs, Box.begins, List.append_nil]
  | look buf =>
    obtain ⟨-, ⟨-, rfl⟩ | ⟨-, rfl⟩⟩ := step_look h
    · simp only [Box.putting, Box.begins, List.append_nil]
    · simp only [Box.begins, List.append_nil]
  | readWord i =>
    obtain ⟨buf, done, -, rfl⟩ := step_readWord h
    simp only [Box.putting, Box.begins, List.append_nil]
  | clear =>
    obtain ⟨buf, done, -, -, rfl⟩ := step_clear h
    simp only [Box.putting, Box.begins, List.append_nil]

/-! ## What is taken -/

def Box.takes (s : Box φ α n) : Act α n → List (Fin n → α)
  | .clear => match s.reader with
    | .idle => []
    | .copying buf _ => [buf]
  | _ => []

/-- **Only a reader that is done adds to what is taken.** -/
theorem taken_step (g : Signal φ) {s s' : Box φ α n} {act : Act α n} (h : s.step g act = some s') :
    s'.taken = s.taken ++ s.takes act := by
  cases act with
  | offer record =>
    obtain ⟨-, ⟨-, rfl⟩ | ⟨-, rfl⟩⟩ := step_offer h
    · simp only [Box.takes, List.append_nil]
    · simp only [Box.takes, List.append_nil]
  | writeWord i =>
    obtain ⟨record, done, -, rfl⟩ := step_writeWord h
    simp only [Box.takes, List.append_nil]
  | mark =>
    obtain ⟨record, done, -, -, rfl⟩ := step_mark h
    simp only [Box.takes, List.append_nil]
  | look buf =>
    obtain ⟨-, ⟨-, rfl⟩ | ⟨-, rfl⟩⟩ := step_look h
    · simp only [Box.takes, List.append_nil]
    · simp only [Box.takes, List.append_nil]
  | readWord i =>
    obtain ⟨buf, done, -, rfl⟩ := step_readWord h
    simp only [Box.takes, List.append_nil]
  | clear =>
    obtain ⟨buf, done, hs, -, rfl⟩ := step_clear h
    simp only [Box.takes, hs]

/-! ## A call that nobody interrupts -/

/-- The words copied already, this one, and those to come. -/
theorem covered_cons {done done' : Fin n → Bool} {i : Fin n} {l : List (Fin n)}
    (h : ∀ j, Function.update done i true j = true ∨ j ∈ l → done' j = true) :
    ∀ j, done j = true ∨ j ∈ i :: l → done' j = true := by
  rintro j (hj | hj)
  · refine h j (.inl ?_)
    by_cases hji : j = i
    · rw [hji, Function.update_self]
    · rwa [Function.update_of_ne hji]
  · rcases List.mem_cons.1 hj with rfl | hj
    · exact h j (.inl (Function.update_self ..))
    · exact h j (.inr hj)

theorem run_writeWords (g : Signal φ) (record : Fin n → α) : ∀ (l : List (Fin n)) (s : Box φ α n) (done : Fin n → Bool),
    s.writer = .copying record done → (∀ i, done i = true → s.words i = record i) →
    ∃ words' done', run (Box.step g) s (l.map .writeWord) = some { s with words := words', writer := .copying record done' } ∧
      (∀ i, done' i = true → words' i = record i) ∧ ∀ i, (done i = true ∨ i ∈ l) → done' i = true
  | [], s, done, hs, hw => ⟨s.words, done, by rw [← hs]; rfl, hw, fun i hi => hi.elim id (fun h => by simp at h)⟩
  | i :: l, s, done, hs, hw => by
    have hstep : s.step g (.writeWord i) = some { s with
        words := Function.update s.words i (record i)
        writer := .copying record (Function.update done i true) } := by simp only [Box.step, hs]
    obtain ⟨words', done', hrun, hw', hdone⟩ := run_writeWords g record l { s with
      words := Function.update s.words i (record i)
      writer := .copying record (Function.update done i true) } _ rfl (copied_update i hw)
    refine ⟨words', done', ?_, hw', covered_cons hdone⟩
    rw [List.map_cons, run_cons, hstep]
    exact hrun

theorem step_mark_all (g : Signal φ) {s : Box φ α n} {record : Fin n → α} {done : Fin n → Bool}
    (hs : s.writer = .copying record done) (hall : ∀ i, done i = true) :
    s.step g .mark = some { s with flag := g.mark, writer := .idle, put := s.put ++ [record] } := by
  simp only [Box.step, hs, if_pos hall]

theorem step_accepted (g : Signal φ) (s : Box φ α n) (record : Fin n → α) (hidle : s.writer = .idle)
    (hfree : g.free s.flag = true) : s.step g (.offer record) =
      some { s with writer := .copying record (fun _ => false), offered := s.offered ++ [record] } := by
  simp only [Box.step, hidle, hfree, if_true]

theorem step_dropped (g : Signal φ) (s : Box φ α n) (record : Fin n → α) (hidle : s.writer = .idle)
    (hfree : g.free s.flag = false) :
    s.step g (.offer record) = some { s with offered := s.offered ++ [record] } := by
  simp only [Box.step, hidle, hfree, Bool.false_eq_true, if_false]

/-- A writer that nobody interrupts has its record in the mailbox. -/
theorem run_written (g : Signal φ) {s : Box φ α n} {record : Fin n → α}
    (hs : s.writer = .copying record (fun _ => false)) : run (Box.step g) s ((List.finRange n).map .writeWord) =
      some { s with words := record, writer := .copying record (fun _ => true) } := by
  obtain ⟨words', done', hrun, hw, hdone⟩ := run_writeWords g record (List.finRange n) s _ hs
    (fun i hi => absurd hi Bool.false_ne_true)
  have hall : ∀ i, done' i = true := fun i => hdone i (.inr (List.mem_finRange i))
  obtain rfl := eq_of_copied hall hw
  obtain rfl : done' = fun _ => true := funext hall
  exact hrun

/-- **A writer that nobody interrupts puts its record.** -/
theorem run_put (g : Signal φ) (s : Box φ α n) (record : Fin n → α) (hidle : s.writer = .idle)
    (hfree : g.free s.flag = true) :
    run (Box.step g) s (.offer record :: ((List.finRange n).map .writeWord ++ [.mark])) =
      some { s with flag := g.mark, words := record, offered := s.offered ++ [record], put := s.put ++ [record] } := by
  rw [run_cons, step_accepted g s record hidle hfree, Option.bind_some, run_append, run_written g rfl, Option.bind_some,
    run_cons, step_mark_all g rfl (fun _ => rfl)]
  simp only [Option.bind_some, run_nil, hidle]

theorem run_readWords (g : Signal φ) : ∀ (l : List (Fin n)) (s : Box φ α n) (buf : Fin n → α) (done : Fin n → Bool),
    s.reader = .copying buf done → (∀ i, done i = true → buf i = s.words i) →
    ∃ buf' done', run (Box.step g) s (l.map .readWord) = some { s with reader := .copying buf' done' } ∧
      (∀ i, done' i = true → buf' i = s.words i) ∧ ∀ i, (done i = true ∨ i ∈ l) → done' i = true
  | [], s, buf, done, hs, hw => ⟨buf, done, by rw [← hs]; rfl, hw, fun i hi => hi.elim id (fun h => by simp at h)⟩
  | i :: l, s, buf, done, hs, hw => by
    have hstep : s.step g (.readWord i) = some { s with
        reader := .copying (Function.update buf i (s.words i)) (Function.update done i true) } := by
      simp only [Box.step, hs]
    obtain ⟨buf', done', hrun, hw', hdone⟩ := run_readWords g l { s with
      reader := .copying (Function.update buf i (s.words i)) (Function.update done i true) } _ _ rfl (copied_update i hw)
    refine ⟨buf', done', ?_, hw', covered_cons hdone⟩
    rw [List.map_cons, run_cons, hstep]
    exact hrun

theorem step_found (g : Signal φ) (s : Box φ α n) (buf : Fin n → α) (hidle : s.reader = .idle)
    (hfull : g.full s.flag = true) :
    s.step g (.look buf) = some { s with reader := .copying buf (fun _ => false) } := by
  simp only [Box.step, hidle, hfull, if_true]

theorem step_passed (g : Signal φ) (s : Box φ α n) (buf : Fin n → α) (hidle : s.reader = .idle)
    (hfull : g.full s.flag = false) : s.step g (.look buf) = some s := by
  simp only [Box.step, hidle, hfull, Bool.false_eq_true, if_false]

/-- A reader that nobody interrupts has the record in its buffer. -/
theorem run_copied (g : Signal φ) {s : Box φ α n} {buf : Fin n → α} (hs : s.reader = .copying buf (fun _ => false)) :
    run (Box.step g) s ((List.finRange n).map .readWord) =
      some { s with reader := .copying s.words (fun _ => true) } := by
  obtain ⟨buf', done', hrun, hw, hdone⟩ := run_readWords g (List.finRange n) s _ _ hs
    (fun i hi => absurd hi Bool.false_ne_true)
  have hall : ∀ i, done' i = true := fun i => hdone i (.inr (List.mem_finRange i))
  obtain rfl := eq_of_copied hall hw
  obtain rfl : done' = fun _ => true := funext hall
  exact hrun

theorem step_clear_all (g : Signal φ) {s : Box φ α n} {buf : Fin n → α} {done : Fin n → Bool}
    (hs : s.reader = .copying buf done) (hall : ∀ i, done i = true) :
    s.step g .clear = some { s with flag := g.clear, reader := .idle, taken := s.taken ++ [buf] } := by
  simp only [Box.step, hs, if_pos hall]

/-- **A reader that nobody interrupts takes the record.** -/
theorem run_take (g : Signal φ) (s : Box φ α n) (buf : Fin n → α) (hidle : s.reader = .idle)
    (hfull : g.full s.flag = true) :
    run (Box.step g) s (.look buf :: (List.finRange n).map .readWord ++ [.clear]) =
      some { s with flag := g.clear, taken := s.taken ++ [s.words] } := by
  rw [List.cons_append, run_cons, step_found g s buf hidle hfull, Option.bind_some, run_append, run_copied g rfl,
    Option.bind_some, run_cons, step_clear_all g rfl (fun _ => rfl), Option.bind_some, run_nil]
  simp only [hidle]

end Mailbox
