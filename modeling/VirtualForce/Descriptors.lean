import Mathlib.Data.List.Perm.Subperm
/-!
# Descriptors — a table of open descriptors

A process's descriptors are numbers, each open on something; a system call that opens one takes the lowest number that is
not open, and one that closes it takes it out again.  What was opened last and is closed is opened again at the same
number, however often (`openAt_close`).
-/
namespace Descriptors

variable {α : Type}

abbrev Table (α : Type) := List (Nat × α)

def numbers (t : Table α) : List Nat := t.map Prod.fst

/-- The lowest number that is not open. -/
def lowest (t : Table α) : Nat := ((List.range (t.length + 1)).find? (fun n => !(numbers t).contains n)).getD 0

def openAt (t : Table α) (a : α) : Table α := t ++ [(lowest t, a)]

def close (t : Table α) (n : Nat) : Table α := t.filter (fun p => p.1 != n)

/-- What a call gets that is made on a descriptor, `none` being -1. -/
def get (t : Table α) (fd : Option Nat) : Option α :=
  match fd with
  | none => none
  | some n => (t.find? (fun p => p.1 == n)).map Prod.snd

def Holds (t : Table α) (a : α) : Prop := ∃ n, (n, a) ∈ t

theorem length_numbers (t : Table α) : (numbers t).length = t.length := List.length_map ..

/-- One of the first numbers is free: there are more of them than descriptors. -/
theorem exists_free (t : Table α) : ∃ n < t.length + 1, n ∉ numbers t := by
  by_contra h
  push Not at h
  have hsub : List.range (t.length + 1) ⊆ numbers t := fun n hn => h n (List.mem_range.1 hn)
  have hlen := (List.subperm_of_subset List.nodup_range hsub).length_le
  rw [List.length_range, length_numbers] at hlen
  exact absurd hlen (Nat.not_succ_le_self _)

theorem lowest_spec (t : Table α) : lowest t ∉ numbers t ∧ ∀ n, n < lowest t → n ∈ numbers t := by
  unfold lowest
  cases hfind : (List.range (t.length + 1)).find? (fun n => !(numbers t).contains n) with
  | none =>
    obtain ⟨n, hn, hfree⟩ := exists_free t
    have hall := List.find?_eq_none.1 hfind n (List.mem_range.2 hn)
    simp [hfree] at hall
  | some m =>
    obtain ⟨hm, -, hbelow⟩ := List.find?_range_eq_some.1 hfind
    exact ⟨by simpa using hm, fun n hn => by simpa using hbelow n hn⟩

theorem lowest_notMem (t : Table α) : lowest t ∉ numbers t := (lowest_spec t).1

theorem close_of_notMem {t : Table α} {n : Nat} (h : n ∉ numbers t) : close t n = t := by
  refine List.filter_eq_self.2 (fun p hp => ?_)
  have hne : p.1 ≠ n := fun heq => h (List.mem_map.2 ⟨p, hp, heq⟩)
  simp [hne]

/-- **Opened and closed again, a descriptor leaves the table as it was.** -/
theorem openAt_close (t : Table α) (a : α) : close (openAt t a) (lowest t) = t := by
  rw [close, openAt, List.filter_append]
  have hlast : [(lowest t, a)].filter (fun p => p.1 != lowest t) = [] := by simp
  rw [hlast, List.append_nil]
  exact close_of_notMem (lowest_notMem t)

theorem get_openAt (t : Table α) (a : α) : get (openAt t a) (some (lowest t)) = some a := by
  have hnone : t.find? (fun p => p.1 == lowest t) = none :=
    List.find?_eq_none.2 (fun p hp heq => lowest_notMem t (List.mem_map.2 ⟨p, hp, by simpa using heq⟩))
  rw [get, openAt, List.find?_append, hnone, Option.none_or, List.find?_cons_of_pos (by simp)]
  rfl

theorem holds_openAt {t : Table α} {a b : α} : Holds (openAt t a) b ↔ Holds t b ∨ b = a := by
  unfold Holds openAt
  constructor
  · rintro ⟨n, hn⟩
    rcases List.mem_append.1 hn with hn | hn
    · exact .inl ⟨n, hn⟩
    · exact .inr (Prod.mk.inj (List.mem_singleton.1 hn)).2
  · rintro (⟨n, hn⟩ | rfl)
    · exact ⟨n, List.mem_append_left _ hn⟩
    · exact ⟨lowest t, List.mem_append_right _ (List.mem_singleton_self _)⟩

end Descriptors
