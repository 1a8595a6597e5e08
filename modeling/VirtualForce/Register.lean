import Mathlib.InformationTheory.Hamming
import Mathlib.Data.List.Forall2
import VirtualForce.Mailbox
/-!
# Register — a record written and read a word at a time, with no flag

A writer replaces the record again and again; a reader copies it whenever it likes.  Each word of what is read is that
word of a record in the read's window: not older than the last one finished before the read began, begun before the read
ended.  The reads are atomic (each a record of its window, never going back) over every run exactly when no two of the
records differ in more than one word.
-/
namespace Register

open Runs Mailbox

/-- A completed read, with the number of the last record finished when it began and of the last one begun when it ended. -/
structure Read (α : Type) (n : Nat) where
  record : Fin n → α
  first : Nat
  last : Nat

/-- The register and its two parties; `written` is every record begun, the content at the start first, and `finished` the
number of the last one finished. -/
structure Reg (α : Type) (n : Nat) where
  words : Fin n → α
  writer : Party α n
  reader : Party α n
  first : Nat
  written : List (Fin n → α)
  finished : Nat
  reads : List (Read α n)

inductive Act (α : Type) (n : Nat) where
  | write (record : Fin n → α)
  | writeWord (j : Fin n)
  | finish
  | look (buf : Fin n → α)
  | readWord (j : Fin n)
  | keep

variable {α : Type} {n : Nat}

namespace Reg

def start (words : Fin n → α) : Reg α n := ⟨words, .idle, .idle, 0, [words], 0, []⟩

/-- The number of the last record begun. -/
def begun (s : Reg α n) : Nat :=
  match s.writer with
  | .idle => s.finished
  | .copying _ _ => s.finished + 1

def step (s : Reg α n) : Act α n → Option (Reg α n)
  | .write record => match s.writer with
    | .idle => some { s with writer := .copying record (fun _ => false), written := s.written ++ [record] }
    | .copying _ _ => none
  | .writeWord j => match s.writer with
    | .idle => none
    | .copying record done => some { s with
        words := Function.update s.words j (record j)
        writer := .copying record (Function.update done j true) }
  | .finish => match s.writer with
    | .idle => none
    | .copying _ done =>
      if ∀ j, done j = true then some { s with writer := .idle, finished := s.finished + 1 } else none
  | .look buf => match s.reader with
    | .idle => some { s with reader := .copying buf (fun _ => false), first := s.finished }
    | .copying _ _ => none
  | .readWord j => match s.reader with
    | .idle => none
    | .copying buf done => some { s with
        reader := .copying (Function.update buf j (s.words j)) (Function.update done j true) }
  | .keep => match s.reader with
    | .idle => none
    | .copying buf done =>
      if ∀ j, done j = true then some { s with reader := .idle, reads := s.reads ++ [⟨buf, s.first, s.begun⟩] } else none

/-- **Word `j` of record number `i` is `x`.** -/
def Word (s : Reg α n) (j : Fin n) (i : Nat) (x : α) : Prop := ∃ r, s.written[i]? = some r ∧ r j = x

/-- The number of the record whose word is in place `j`. -/
def held (s : Reg α n) (j : Fin n) : Nat :=
  match s.writer with
  | .idle => s.finished
  | .copying _ done => if done j = true then s.finished + 1 else s.finished

/-- **Each word read is one of the read's window.** -/
def Regular (s : Reg α n) (r : Read α n) : Prop := ∀ j, ∃ i, r.first ≤ i ∧ i ≤ r.last ∧ s.Word j i (r.record j)

/-- **Each read is a record of its window, and no read goes back behind the one before it.** -/
def Atomic (s : Reg α n) : Prop :=
  ∃ is : List Nat, is.Pairwise (· ≤ ·) ∧
    List.Forall₂ (fun r i => r.first ≤ i ∧ i ≤ r.last ∧ s.written[i]? = some r.record) s.reads is

theorem begun_idle {s : Reg α n} (h : s.writer = .idle) : s.begun = s.finished := by rw [begun, h]

theorem begun_copying {s : Reg α n} {record : Fin n → α} {done : Fin n → Bool} (h : s.writer = .copying record done) :
    s.begun = s.finished + 1 := by rw [begun, h]

theorem held_idle {s : Reg α n} (h : s.writer = .idle) (j : Fin n) : s.held j = s.finished := by rw [held, h]

theorem held_copying {s : Reg α n} {record : Fin n → α} {done : Fin n → Bool} (h : s.writer = .copying record done)
    (j : Fin n) : s.held j = if done j = true then s.finished + 1 else s.finished := by rw [held, h]

theorem held_mem (s : Reg α n) (j : Fin n) : s.finished ≤ s.held j ∧ s.held j ≤ s.begun := by
  cases hw : s.writer with
  | idle =>
    rw [held_idle hw, begun_idle hw]
    exact ⟨Nat.le_refl _, Nat.le_refl _⟩
  | copying record done =>
    rw [held_copying hw, begun_copying hw]
    split <;> omega

theorem Word.mono {s s' : Reg α n} (h : s.written <+: s'.written) {j : Fin n} {i : Nat} {x : α} (hx : s.Word j i x) :
    s'.Word j i x := by
  obtain ⟨r, hr, hrx⟩ := hx
  obtain ⟨t, ht⟩ := h
  refine ⟨r, ?_, hrx⟩
  rw [← ht, List.getElem?_append_left (List.getElem?_eq_some_iff.1 hr).1]
  exact hr

theorem Regular.mono {s s' : Reg α n} (h : s.written <+: s'.written) {r : Read α n} (hr : s.Regular r) : s'.Regular r := by
  intro j
  obtain ⟨i, h1, h2, h3⟩ := hr j
  exact ⟨i, h1, h2, h3.mono h⟩

end Reg

/-! ## Where each word comes from -/

/-- **What holds at every point**, `source j` the number of the record the word `j` copied so far is of, and `is` those of
the word `k` of the completed reads. -/
structure Traced (k : Fin n) (s : Reg α n) (source : Fin n → Nat) (is : List Nat) : Prop where
  length : s.written.length = s.begun + 1
  writing : ∀ record done, s.writer = .copying record done → s.written[s.finished + 1]? = some record
  words : ∀ j, s.Word j (s.held j) (s.words j)
  reader : ∀ buf done, s.reader = .copying buf done → s.first ≤ s.finished ∧
    ∀ j, done j = true → s.first ≤ source j ∧ source j ≤ s.held j ∧ s.Word j (source j) (buf j)
  regular : ∀ r ∈ s.reads, s.Regular r
  reads : List.Forall₂ (fun r i => r.first ≤ i ∧ i ≤ r.last ∧ s.Word k i (r.record k)) s.reads is
  sorted : is.Pairwise (· ≤ ·)
  behind : ∀ i ∈ is, i ≤ s.held k ∧ ∀ buf done, s.reader = .copying buf done → done k = true → i ≤ source k

namespace Traced

variable {k : Fin n} {s s' : Reg α n} {source : Fin n → Nat} {is : List Nat}

theorem start (k : Fin n) (words : Fin n → α) : Traced k (Reg.start words) (fun _ => 0) [] where
  length := rfl
  writing := fun _ _ h => nomatch h
  words := fun _ => ⟨words, rfl, rfl⟩
  reader := fun _ _ h => nomatch h
  regular := fun _ h => nomatch h
  reads := .nil
  sorted := .nil
  behind := fun _ h => nomatch h

/-- **A step of the writer**: the record numbers in place only grow, and what the reader has copied stays true. -/
theorem of_writer (I : Traced k s source is) (hpre : s.written <+: s'.written) (hheld : ∀ j, s.held j ≤ s'.held j)
    (hfin : s.finished ≤ s'.finished) (hreader : s'.reader = s.reader) (hfirst : s'.first = s.first)
    (hreads : s'.reads = s.reads) (hlength : s'.written.length = s'.begun + 1)
    (hwriting : ∀ record done, s'.writer = .copying record done → s'.written[s'.finished + 1]? = some record)
    (hwords : ∀ j, s'.Word j (s'.held j) (s'.words j)) : Traced k s' source is where
  length := hlength
  writing := hwriting
  words := hwords
  reader := fun buf done h => by
    rw [hreader] at h
    obtain ⟨hf, hd⟩ := I.reader buf done h
    rw [hfirst]
    refine ⟨Nat.le_trans hf hfin, fun j hj => ?_⟩
    obtain ⟨h1, h2, h3⟩ := hd j hj
    exact ⟨h1, Nat.le_trans h2 (hheld j), h3.mono hpre⟩
  regular := by
    rw [hreads]
    exact fun r hr => (I.regular r hr).mono hpre
  reads := by
    rw [hreads]
    exact I.reads.imp fun r i ⟨h1, h2, h3⟩ => ⟨h1, h2, h3.mono hpre⟩
  sorted := I.sorted
  behind := fun i hi => by
    obtain ⟨h1, h2⟩ := I.behind i hi
    rw [hreader]
    exact ⟨Nat.le_trans h1 (hheld k), h2⟩

section
variable {record buf : Fin n → α} {done : Fin n → Bool}

theorem write (I : Traced k s source is) (hw : s.writer = .idle) (record : Fin n → α) :
    Traced k { s with writer := .copying record (fun _ => false), written := s.written ++ [record] } source is := by
  have hlen := I.length
  rw [Reg.begun_idle hw] at hlen
  have hheld := Reg.held_idle hw
  refine I.of_writer (List.prefix_append _ _) (fun j => ?_) (Nat.le_refl _) rfl rfl rfl ?_ ?_ (fun j => ?_)
  · rw [hheld]
    exact Nat.le_refl _
  · rw [Reg.begun_copying rfl, List.length_append, hlen]
    rfl
  · intro r done hr
    cases hr
    rw [← hlen, List.getElem?_append_right (Nat.le_refl _), Nat.sub_self]
    rfl
  · have hwords := I.words j
    rw [hheld] at hwords
    exact hwords.mono (List.prefix_append _ _)

theorem writeWord (I : Traced k s source is) (hw : s.writer = .copying record done) (j : Fin n) :
    Traced k { s with
      words := Function.update s.words j (record j)
      writer := .copying record (Function.update done j true) } source is := by
  have hlen := I.length
  have hrec := I.writing record done hw
  rw [Reg.begun_copying hw] at hlen
  refine I.of_writer List.prefix_rfl (fun i => ?_) (Nat.le_refl _) rfl rfl rfl hlen ?_ (fun i => ?_)
  · rw [Reg.held_copying hw, Reg.held_copying rfl]
    dsimp only
    by_cases hij : i = j
    · subst hij
      rw [Function.update_self, if_pos rfl]
      split <;> omega
    · rw [Function.update_of_ne hij]
  · intro r d hr
    cases hr
    exact hrec
  · have hword := I.words i
    rw [Reg.held_copying hw] at hword
    rw [Reg.held_copying rfl]
    dsimp only
    by_cases hij : i = j
    · subst hij
      rw [Function.update_self, Function.update_self, if_pos rfl]
      exact ⟨record, hrec, rfl⟩
    · rw [Function.update_of_ne hij, Function.update_of_ne hij]
      exact hword

theorem finish (I : Traced k s source is) (hw : s.writer = .copying record done) (hall : ∀ j, done j = true) :
    Traced k { s with writer := .idle, finished := s.finished + 1 } source is := by
  have hlen := I.length
  rw [Reg.begun_copying hw] at hlen
  have hheld : ∀ j, s.held j = s.finished + 1 := fun j => by rw [Reg.held_copying hw, if_pos (hall j)]
  refine I.of_writer List.prefix_rfl (fun j => ?_) (Nat.le_succ _) rfl rfl rfl hlen ?_ (fun j => ?_)
  · rw [hheld]
    exact Nat.le_refl _
  · exact fun _ _ hr => nomatch hr
  · have hwords := I.words j
    rw [hheld] at hwords
    exact hwords

theorem look (I : Traced k s source is) (buf : Fin n → α) :
    Traced k { s with reader := .copying buf (fun _ => false), first := s.finished } source is := by
  refine ⟨I.length, I.writing, I.words, fun b d hd => ?_, I.regular, I.reads, I.sorted,
    fun i hi => ⟨(I.behind i hi).1, ?_⟩⟩
  · cases hd
    exact ⟨Nat.le_refl _, fun j hj => nomatch hj⟩
  · intro b d hd hk
    cases hd
    cases hk

/-- The word copied is of the record whose word is in place. -/
theorem readWord (I : Traced k s source is) (hr : s.reader = .copying buf done) (j : Fin n) :
    Traced k { s with reader := .copying (Function.update buf j (s.words j)) (Function.update done j true) }
      (Function.update source j (s.held j)) is := by
  obtain ⟨hfirst, hcopied⟩ := I.reader buf done hr
  refine ⟨I.length, I.writing, I.words, fun b d hd => ?_, I.regular, I.reads, I.sorted,
    fun i hi => ⟨(I.behind i hi).1, ?_⟩⟩
  · cases hd
    refine ⟨hfirst, fun i hi => ?_⟩
    by_cases hij : i = j
    · subst hij
      rw [Function.update_self, Function.update_self]
      exact ⟨Nat.le_trans hfirst (s.held_mem i).1, Nat.le_refl _, I.words i⟩
    · rw [Function.update_of_ne hij] at hi
      rw [Function.update_of_ne hij, Function.update_of_ne hij]
      exact hcopied i hi
  · intro b d hd hk
    cases hd
    by_cases hkj : k = j
    · subst hkj
      rw [Function.update_self]
      exact (I.behind i hi).1
    · rw [Function.update_of_ne hkj] at hk
      rw [Function.update_of_ne hkj]
      exact (I.behind i hi).2 buf done hr hk

theorem keep (I : Traced k s source is) (hr : s.reader = .copying buf done) (hall : ∀ j, done j = true) :
    Traced k { s with reader := .idle, reads := s.reads ++ [⟨buf, s.first, s.begun⟩] } source (is ++ [source k]) := by
  obtain ⟨hfirst, hcopied⟩ := I.reader buf done hr
  have hin : ∀ j, s.first ≤ source j ∧ source j ≤ s.begun ∧ s.Word j (source j) (buf j) := fun j => by
    obtain ⟨h1, h2, h3⟩ := hcopied j (hall j)
    exact ⟨h1, Nat.le_trans h2 (s.held_mem j).2, h3⟩
  refine ⟨I.length, I.writing, I.words, (fun _ _ hd => nomatch hd), fun r hr' => ?_,
    List.rel_append I.reads (.cons (hin k) .nil), ?_, fun i hi => ⟨?_, (fun _ _ hd => nomatch hd)⟩⟩
  · rcases List.mem_append.1 hr' with hr' | hr'
    · exact I.regular r hr'
    · rw [List.mem_singleton] at hr'
      subst hr'
      exact fun j => ⟨source j, hin j⟩
  · rw [List.pairwise_append]
    refine ⟨I.sorted, List.pairwise_singleton _ _, fun i hi i' hi' => ?_⟩
    rw [List.mem_singleton] at hi'
    subst hi'
    exact (I.behind i hi).2 buf done hr (hall k)
  · rcases List.mem_append.1 hi with hi | hi
    · exact (I.behind i hi).1
    · rw [List.mem_singleton] at hi
      subst hi
      exact (hcopied k (hall k)).2.1

end

/-- **Every step keeps the trace.** -/
theorem step (I : Traced k s source is) {act : Act α n} (h : s.step act = some s') :
    ∃ source' is', Traced k s' source' is' := by
  cases act with
  | write record =>
    simp only [Reg.step] at h
    split at h
    · rename_i hw
      cases h
      exact ⟨_, _, I.write hw record⟩
    · cases h
  | writeWord j =>
    simp only [Reg.step] at h
    split at h
    · cases h
    · rename_i record done hw
      cases h
      exact ⟨_, _, I.writeWord hw j⟩
  | finish =>
    simp only [Reg.step] at h
    split at h
    · cases h
    · rename_i record done hw
      split at h
      · rename_i hall
        cases h
        exact ⟨_, _, I.finish hw hall⟩
      · cases h
  | look buf =>
    simp only [Reg.step] at h
    split at h
    · cases h
      exact ⟨_, _, I.look buf⟩
    · cases h
  | readWord j =>
    simp only [Reg.step] at h
    split at h
    · cases h
    · rename_i buf done hr
      cases h
      exact ⟨_, _, I.readWord hr j⟩
  | keep =>
    simp only [Reg.step] at h
    split at h
    · cases h
    · rename_i buf done hr
      split at h
      · rename_i hall
        cases h
        exact ⟨_, _, I.keep hr hall⟩
      · cases h

theorem of_run (k : Fin n) {words : Fin n → α} {acts : List (Act α n)} {s : Reg α n}
    (h : run Reg.step (Reg.start words) acts = some s) : ∃ source is, Traced k s source is :=
  run_inv (I := fun s => ∃ source is, Traced k s source is) (fun _ _ _ ⟨_, _, I⟩ hs => I.step hs) acts _ _
    ⟨_, _, .start k words⟩ h

end Traced

/-! ## What is written -/

/-- The records an action begins. -/
def Act.begins : Act α n → List (Fin n → α)
  | .write record => [record]
  | _ => []

theorem written_step {s s' : Reg α n} {act : Act α n} (h : s.step act = some s') :
    s'.written = s.written ++ act.begins := by
  cases act with
  | write record =>
    simp only [Reg.step] at h
    split at h
    · cases h
      rfl
    · cases h
  | look buf =>
    simp only [Reg.step] at h
    split at h
    · cases h
      exact (List.append_nil _).symm
    · cases h
  | writeWord j =>
    simp only [Reg.step] at h
    split at h
    · cases h
    · cases h
      exact (List.append_nil _).symm
  | readWord j =>
    simp only [Reg.step] at h
    split at h
    · cases h
    · cases h
      exact (List.append_nil _).symm
  | finish =>
    simp only [Reg.step] at h
    split at h
    · cases h
    · split at h
      · cases h
        exact (List.append_nil _).symm
      · cases h
  | keep =>
    simp only [Reg.step] at h
    split at h
    · cases h
    · split at h
      · cases h
        exact (List.append_nil _).symm
      · cases h

theorem written_run : ∀ (acts : List (Act α n)) (s s' : Reg α n), run Reg.step s acts = some s' →
    s'.written = s.written ++ acts.flatMap Act.begins
  | [], s, s', h => by
    rw [run_nil, Option.some.injEq] at h
    rw [h, List.flatMap_nil, List.append_nil]
  | act :: acts, s, s', h => by
    obtain ⟨t, ht, h⟩ := run_cons_eq_some h
    rw [written_run acts t s' h, written_step ht, List.flatMap_cons, List.append_assoc]

theorem mem_written {words : Fin n → α} {acts : List (Act α n)} {s : Reg α n} {R : Set (Fin n → α)}
    (hR : ∀ r, .write r ∈ acts → r ∈ R) (h : run Reg.step (Reg.start words) acts = some s) :
    ∀ r ∈ s.written, r ∈ insert words R := by
  intro r hr
  rw [written_run acts _ _ h, Reg.start, List.mem_append, List.mem_singleton, List.mem_flatMap] at hr
  rcases hr with rfl | ⟨act, hact, hr⟩
  · exact Set.mem_insert _ _
  · cases act with
    | write record =>
      rw [Act.begins, List.mem_singleton] at hr
      subst hr
      exact Set.mem_insert_of_mem _ (hR r hact)
    | _ => cases hr

/-- **Between two writes the register holds the last record written.** -/
theorem getLast_written [NeZero n] {words : Fin n → α} {acts : List (Act α n)} {s : Reg α n}
    (h : run Reg.step (Reg.start words) acts = some s) (hidle : s.writer = .idle) :
    s.written.getLast? = some s.words := by
  obtain ⟨source, is, I⟩ := Traced.of_run 0 h
  have hlen := I.length
  rw [Reg.begun_idle hidle] at hlen
  have hlt : s.finished < s.written.length := by omega
  rw [List.getLast?_eq_getElem?, hlen, Nat.add_sub_cancel, List.getElem?_eq_getElem hlt]
  refine congrArg some (funext fun j => ?_)
  obtain ⟨r, hr, hrj⟩ := I.words j
  rw [Reg.held_idle hidle, List.getElem?_eq_getElem hlt, Option.some.injEq] at hr
  rw [hr, hrj]

/-! ## Records that differ in one word -/

section
variable [DecidableEq α]

theorem eq_of_dist {r r' : Fin n → α} (h : hammingDist r r' ≤ 1) {i j : Fin n} (hi : r i ≠ r' i) (hij : j ≠ i) :
    r j = r' j := by
  by_contra hj
  rw [hammingDist, Finset.card_le_one] at h
  exact hij (h j (by simpa using hj) i (by simpa using hi))

theorem dist_le_one {r r' : Fin n → α} (k : Fin n) (h : ∀ j, j ≠ k → r j = r' j) : hammingDist r r' ≤ 1 := by
  rw [hammingDist, Finset.card_le_one]
  have hk : ∀ i, i ∈ Finset.univ.filter (fun i => r i ≠ r' i) → i = k := fun i hi => by
    by_contra hne
    exact (Finset.mem_filter.1 hi).2 (h i hne)
  exact fun i hi j hj => (hk i hi).trans (hk j hj).symm

/-- **Records two by two at most one word apart differ in one word, the same for all.** -/
theorem exists_word [NeZero n] {R : Set (Fin n → α)} (hR : R.Pairwise (fun r r' => hammingDist r r' ≤ 1)) :
    ∃ k, ∀ r ∈ R, ∀ r' ∈ R, ∀ j, j ≠ k → r j = r' j := by
  have hagree : ∀ r ∈ R, ∀ r' ∈ R, ∀ i j, r i ≠ r' i → j ≠ i → r j = r' j := by
    intro r hr r' hr' i j hi hij
    exact eq_of_dist (hR hr hr' (fun h => hi (congrFun h i))) hi hij
  by_cases hex : ∃ r ∈ R, ∃ r' ∈ R, ∃ k, r k ≠ r' k
  · obtain ⟨r, hr, r', hr', k, hk⟩ := hex
    refine ⟨k, fun p hp q hq j hjk => ?_⟩
    by_contra hj
    have hpq := hagree p hp q hq j k hj (Ne.symm hjk)
    have hrr' := hagree r hr r' hr' k j hk hjk
    -- one that is not `r` in word `j` is `r` in word `k`, and `r'` too
    have hboth : ∀ x ∈ R, x j ≠ r j → r k = r' k := fun x hx hxj => by
      rw [← hagree x hx r hr j k hxj (Ne.symm hjk)]
      exact hagree x hx r' hr' j k (by rwa [← hrr']) (Ne.symm hjk)
    by_cases hp' : p j = r j
    · exact hk (hboth q hq (fun h => hj (by rw [hp', h])))
    · exact hk (hboth p hp hp')
  · push Not at hex
    exact ⟨0, fun r hr r' hr' j _ => hex r hr r' hr' j⟩

/-- **Records that differ in one word are read whole, in the order written.** -/
theorem atomic_of_pairwise [NeZero n] {words : Fin n → α} {acts : List (Act α n)} {s : Reg α n} {R : Set (Fin n → α)}
    (hR : (insert words R).Pairwise (fun r r' => hammingDist r r' ≤ 1)) (hacts : ∀ r, .write r ∈ acts → r ∈ R)
    (h : run Reg.step (Reg.start words) acts = some s) : s.Atomic := by
  obtain ⟨k, hk⟩ := exists_word hR
  obtain ⟨source, is, I⟩ := Traced.of_run k h
  refine ⟨is, I.sorted, ?_⟩
  rw [List.forall₂_iff_get]
  refine ⟨I.reads.length_eq, fun i h1 h2 => ?_⟩
  obtain ⟨hfirst, hlast, r, hr, hrk⟩ := I.reads.get h1 h2
  refine ⟨hfirst, hlast, ?_⟩
  rw [hr]
  congr 1
  funext j
  by_cases hjk : j = k
  · rw [hjk, hrk]
  · obtain ⟨i', -, -, r', hr', hrj⟩ := I.regular _ (List.get_mem s.reads ⟨i, h1⟩) j
    rw [← hrj]
    exact hk r (mem_written hacts h r (List.mem_of_getElem? hr)) r' (mem_written hacts h r' (List.mem_of_getElem? hr')) j hjk

end

/-! ## A read between two words of a write -/

theorem run_writeWords (record : Fin n → α) : ∀ (l : List (Fin n)) (s : Reg α n) (done : Fin n → Bool),
    s.writer = .copying record done → run Reg.step s (l.map .writeWord) = some { s with
      words := fun j => if j ∈ l then record j else s.words j
      writer := .copying record (fun j => done j || decide (j ∈ l)) }
  | [], s, done, hs => by simp [← hs]
  | i :: l, s, done, hs => by
    have hstep : s.step (.writeWord i) = some { s with
        words := Function.update s.words i (record i)
        writer := .copying record (Function.update done i true) } := by simp only [Reg.step, hs]
    rw [List.map_cons, run_cons, hstep, Option.bind_some, run_writeWords record l _ _ rfl]
    congr 2
    · funext j
      by_cases hji : j = i
      · subst hji
        simp
      · simp [hji]
    · congr 1
      funext j
      by_cases hji : j = i
      · subst hji
        simp
      · simp [hji]

theorem run_readWords : ∀ (l : List (Fin n)) (s : Reg α n) (buf : Fin n → α) (done : Fin n → Bool),
    s.reader = .copying buf done → run Reg.step s (l.map .readWord) = some { s with
      reader := .copying (fun j => if j ∈ l then s.words j else buf j) (fun j => done j || decide (j ∈ l)) }
  | [], s, buf, done, hs => by simp [← hs]
  | i :: l, s, buf, done, hs => by
    have hstep : s.step (.readWord i) = some { s with
        reader := .copying (Function.update buf i (s.words i)) (Function.update done i true) } := by
      simp only [Reg.step, hs]
    rw [List.map_cons, run_cons, hstep, Option.bind_some, run_readWords l _ _ _ rfl]
    congr 2
    congr 1
    · funext j
      by_cases hji : j = i
      · subst hji
        simp
      · simp [hji]
    · funext j
      by_cases hji : j = i
      · subst hji
        simp
      · simp [hji]

/-- **A write that nobody interrupts.** -/
theorem run_write (s : Reg α n) (record : Fin n → α) (hidle : s.writer = .idle) :
    run Reg.step s (.write record :: ((List.finRange n).map .writeWord ++ [.finish])) =
      some { s with words := record, written := s.written ++ [record], finished := s.finished + 1 } := by
  have hbegin : s.step (.write record) =
      some { s with writer := .copying record (fun _ => false), written := s.written ++ [record] } := by
    simp only [Reg.step, hidle]
  rw [run_cons, hbegin, Option.bind_some, run_append, run_writeWords record _ _ _ rfl, Option.bind_some, run_cons]
  simp [Reg.step, hidle]

/-- **A read that nobody interrupts.** -/
theorem run_read (s : Reg α n) (buf : Fin n → α) (hidle : s.reader = .idle) :
    run Reg.step s (.look buf :: ((List.finRange n).map .readWord ++ [.keep])) =
      some { s with first := s.finished, reads := s.reads ++ [⟨s.words, s.finished, s.begun⟩] } := by
  have hlook : s.step (.look buf) = some { s with reader := .copying buf (fun _ => false), first := s.finished } := by
    simp only [Reg.step, hidle]
  rw [run_cons, hlook, Option.bind_some, run_append, run_readWords _ _ _ _ rfl, Option.bind_some, run_cons]
  simp [Reg.step, hidle, Reg.begun]

/-- A write of `record` with a whole read after its word `i`. -/
def tearing (record : Fin n → α) (i : Fin n) : List (Act α n) :=
  .write record :: .writeWord i :: .look record :: ((List.finRange n).map .readWord ++ [.keep])

theorem run_tearing (s : Reg α n) (record : Fin n → α) (i : Fin n) (hw : s.writer = .idle) (hr : s.reader = .idle) :
    ∃ s', run Reg.step s (tearing record i) = some s' ∧ s'.written = s.written ++ [record] ∧
      s'.reads = s.reads ++ [⟨Function.update s.words i (record i), s.finished, s.finished + 1⟩] := by
  have hbegin : s.step (.write record) =
      some { s with writer := .copying record (fun _ => false), written := s.written ++ [record] } := by
    simp only [Reg.step, hw]
  have hread := run_read { s with
    words := Function.update s.words i (record i)
    writer := .copying record (Function.update (fun _ => false) i true)
    written := s.written ++ [record] } record hr
  rw [tearing, run_cons, hbegin, Option.bind_some, run_cons]
  simp only [Reg.step, Option.bind_some]
  exact ⟨_, hread, rfl, rfl⟩

/-- **A record two words away from the one it replaces can be read half replaced.** -/
theorem not_atomic_of_tearing {s s' : Reg α n} {r record : Fin n → α} {i j : Fin n} (hij : j ≠ i) (hi : r i ≠ record i)
    (hj : r j ≠ record j) (hlength : s.written.length = s.finished + 1) (hlast : s.written[s.finished]? = some r)
    (hwords : s.words = r) (hreads : s.reads = []) (hwritten : s'.written = s.written ++ [record])
    (hreads' : s'.reads = s.reads ++ [⟨Function.update s.words i (record i), s.finished, s.finished + 1⟩]) :
    ¬ s'.Atomic := by
  rintro ⟨is, -, h⟩
  rw [hreads', hreads, List.nil_append, List.forall₂_cons_left_iff] at h
  obtain ⟨m, _, ⟨hfirst, hend, hm⟩, -, -⟩ := h
  have hm' : m = s.finished ∨ m = s.finished + 1 := by
    simp only at hfirst hend
    omega
  rcases hm' with rfl | rfl
  · rw [hwritten, List.getElem?_append_left (by omega), hlast, Option.some.injEq] at hm
    have hword := congrFun hm i
    simp only [hwords, Function.update_self] at hword
    exact hi hword
  · rw [hwritten, ← hlength, List.getElem?_append_right (Nat.le_refl _), Nat.sub_self] at hm
    have hword := congrFun (Option.some.inj hm) j
    simp only [hwords, Function.update_of_ne hij] at hword
    exact hj hword.symm

theorem exists_torn (words : Fin n → α) {R : Set (Fin n → α)} {r record : Fin n → α} (hr : r ∈ insert words R)
    (hrecord : record ∈ R) {i j : Fin n} (hij : j ≠ i) (hi : r i ≠ record i) (hj : r j ≠ record j) :
    ∃ acts s, (∀ x, .write x ∈ acts → x ∈ R) ∧ run Reg.step (Reg.start words) acts = some s ∧ ¬ s.Atomic := by
  have htearing : ∀ x, Act.write x ∈ tearing record i → x = record := fun x hx => by simpa [tearing] using hx
  rcases Set.mem_insert_iff.1 hr with rfl | hrR
  · obtain ⟨s', hrun, hwritten, hreads⟩ := run_tearing (Reg.start r) record i rfl rfl
    exact ⟨_, s', fun x hx => htearing x hx ▸ hrecord, hrun,
      not_atomic_of_tearing hij hi hj rfl rfl rfl rfl hwritten hreads⟩
  · have hfirst := run_write (Reg.start words) r rfl
    obtain ⟨s', hrun, hwritten, hreads⟩ := run_tearing
      { Reg.start words with words := r, written := [words] ++ [r], finished := 0 + 1 } record i rfl rfl
    refine ⟨(.write r :: ((List.finRange n).map .writeWord ++ [.finish])) ++ tearing record i, s', ?_, ?_,
      not_atomic_of_tearing hij hi hj rfl rfl rfl rfl hwritten hreads⟩
    · intro x hx
      rcases List.mem_append.1 hx with hx | hx
      · have hxr : x = r := by simpa using hx
        exact hxr ▸ hrR
      · exact htearing x hx ▸ hrecord
    · rw [run_append, hfirst, Option.bind_some]
      exact hrun

/-- **Every run's reads are atomic exactly when no two of the records differ in more than one word.** -/
theorem atomic_iff [NeZero n] [DecidableEq α] (words : Fin n → α) (R : Set (Fin n → α)) :
    (∀ (acts : List (Act α n)) (s : Reg α n), (∀ r, .write r ∈ acts → r ∈ R) →
      run Reg.step (Reg.start words) acts = some s → s.Atomic) ↔
    (insert words R).Pairwise (fun r r' => hammingDist r r' ≤ 1) := by
  constructor
  · intro h r hr r' hr' hne
    by_contra hd
    -- two words apart, and one of the two is written
    have htorn : ∀ p q : Fin n → α, p ∈ insert words R → q ∈ R → 1 < hammingDist p q → False := by
      intro p q hp hq hpq
      rw [hammingDist, Finset.one_lt_card] at hpq
      obtain ⟨i, hi, j, hj, hij⟩ := hpq
      obtain ⟨acts, s, hacts, hrun, hnot⟩ := exists_torn words hp hq (Ne.symm hij) (by simpa using hi) (by simpa using hj)
      exact hnot (h acts s hacts hrun)
    rcases Set.mem_insert_iff.1 hr' with rfl | hmem
    · exact htorn r' r hr' (Set.mem_of_mem_insert_of_ne hr hne) (by rw [hammingDist_comm]; omega)
    · exact htorn r r' hr hmem (by omega)
  · exact fun hR acts s hacts hrun => atomic_of_pairwise hR hacts hrun

end Register
