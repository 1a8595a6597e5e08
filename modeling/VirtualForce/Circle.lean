import Mathlib.Tactic.Ring
import VirtualForce.Slots
/-!
# Circle — copying from one circle to another, a cell at a time

A move takes one cell.  `round ow ir Ld Ls n` is the moves that carry `n` cells from offset `ir` of a circle of `Ls` to
offset `ow` of a circle of `Ld`, in order, each side going round at its end; `straight` is the moves of one block that
goes round at neither.  A list of blocks is a way round when each block is straight where it stands.
-/
namespace Circle

open Memory Slots

def straight (d s : Int) (n : Nat) : List (Int × Int) := (List.range n).map (fun i : Nat => (d + i, s + i))

def round (ow ir Ld Ls n : Nat) : List (Int × Int) :=
  (List.range n).map (fun i => (((ow + i) % Ld : Nat), ((ir + i) % Ls : Nat)))

theorem mod_of_lt_two_mul {x L : Nat} (h : x < 2 * L) : x % L = if x < L then x else x - L := by
  split
  · rename_i hx; exact Nat.mod_eq_of_lt hx
  · rename_i hx
    rw [Nat.mod_eq_sub_mod (by omega), Nat.mod_eq_of_lt (by omega)]

@[simp] theorem round_length (ow ir Ld Ls n : Nat) : (round ow ir Ld Ls n).length = n := by simp [round]

theorem getElem_round {ow ir Ld Ls n k : Nat} (h : k < (round ow ir Ld Ls n).length) :
    (round ow ir Ld Ls n)[k] = ((((ow + k) % Ld : Nat) : Int), (((ir + k) % Ls : Nat) : Int)) := by simp [round]

theorem round_add (ow ir Ld Ls a b : Nat) :
    round ow ir Ld Ls (a + b) = round ow ir Ld Ls a ++ round (ow + a) (ir + a) Ld Ls b := by
  unfold round
  rw [List.range_add, List.map_append, List.map_map]
  congr 1
  refine List.map_congr_left (fun i _ => ?_)
  simp only [Function.comp_apply, Nat.add_assoc]

/-- The offsets `o`, `o + 1`, .. of a run of `n` round a circle of `L` are `d`, `d + 1`, ..: the run is before the end,
or all of it past the end. -/
def Block (o L n d : Nat) : Prop := (d = o ∧ o + n ≤ L) ∨ (d + L = o ∧ d + n ≤ L)

theorem Block.mod_eq {o L n d : Nat} (h : Block o L n d) {i : Nat} (hi : i < n) : (o + i) % L = d + i := by
  rcases h with ⟨rfl, hle⟩ | ⟨rfl, hle⟩
  · exact Nat.mod_eq_of_lt (by omega)
  · rw [mod_of_lt_two_mul (by omega), if_neg (by omega)]
    omega

/-- **A copy is the way round where both sides are blocks.** -/
theorem round_eq_straight {ow ir Ld Ls n d s : Nat} (hd : Block ow Ld n d) (hs : Block ir Ls n s) :
    round ow ir Ld Ls n = straight d s n := by
  refine List.map_congr_left (fun i hi => ?_)
  rw [List.mem_range] at hi
  rw [hd.mod_eq hi, hs.mod_eq hi]
  push_cast
  rfl

/-! ## Making the moves -/

section
variable {α : Type}

def runMoves (dst src : Mem α) (ms : List (Int × Int)) : Mem α := ms.foldl (fun m p => set m p.1 (src p.2)) dst

theorem runMoves_append (dst src : Mem α) (ms ns : List (Int × Int)) :
    runMoves dst src (ms ++ ns) = runMoves (runMoves dst src ms) src ns := List.foldl_append

theorem runMoves_snoc (dst src : Mem α) (ms : List (Int × Int)) (d s : Int) :
    runMoves dst src (ms ++ [(d, s)]) = set (runMoves dst src ms) d (src s) := by
  rw [runMoves_append]; rfl

/-- **The moves of a block are its `memcpy`.** -/
theorem runMoves_straight (dst src : Mem α) (d s : Int) : ∀ n : Nat,
    runMoves dst src (straight d s n) = memcpy dst d src s n
  | 0 => by
    funext x
    rw [memcpy_out dst src s (by omega)]
    rfl
  | n + 1 => by
    have hsnoc : straight d s (n + 1) = straight d s n ++ [(d + n, s + n)] := by
      simp [straight, List.range_succ]
    rw [hsnoc, runMoves_snoc, runMoves_straight dst src d s n, set_memcpy]

theorem mod_ne_of_lt {o L i j : Nat} (hij : i < j) (hj : j < i + L) : (o + i) % L ≠ (o + j) % L := by
  intro h
  have hdvd : L ∣ o + j - (o + i) := Nat.dvd_of_mod_eq_zero (Nat.sub_mod_eq_zero_of_mod_eq h.symm)
  have := Nat.eq_zero_of_dvd_of_lt hdvd (by omega)
  omega

/-- **One more move of the way round**, no cell of the turn written twice: what was carried stays, one cell is added,
and the rest of the destination is left. -/
theorem set_round {dst src : Mem α} {ow ir Ld Ls k : Nat} (hk : k < Ld)
    (h : ∀ j, j < k → dst ((ow + j) % Ld : Nat) = src ((ir + j) % Ls : Nat)) :
    ∀ j, j < k + 1 → set dst ((ow + k) % Ld : Nat) (src ((ir + k) % Ls : Nat)) ((ow + j) % Ld : Nat) =
      src ((ir + j) % Ls : Nat) := by
  intro j hj
  by_cases hjk : j = k
  · subst hjk; exact set_self _ _ _
  · have hne := mod_ne_of_lt (o := ow) (L := Ld) (i := j) (j := k) (by omega) (by omega)
    rw [set_of_ne _ _ (by omega)]
    exact h j (by omega)

theorem round_succ (ow ir Ld Ls n : Nat) :
    round ow ir Ld Ls (n + 1) = round ow ir Ld Ls n ++ [((((ow + n) % Ld : Nat) : Int), (((ir + n) % Ls : Nat) : Int))] := by
  simp [round, List.range_succ]

/-- **The cells carried**, at most a turn of the destination. -/
theorem runMoves_round (dst src : Mem α) {ow ir Ld Ls : Nat} : ∀ n, n ≤ Ld → ∀ j, j < n →
    runMoves dst src (round ow ir Ld Ls n) ((ow + j) % Ld : Nat) = src ((ir + j) % Ls : Nat)
  | 0, _, j, hj => absurd hj (Nat.not_lt_zero j)
  | n + 1, hn, j, hj => by
    rw [round_succ, runMoves_snoc]
    exact set_round hn (runMoves_round dst src n (Nat.le_of_succ_le hn)) j hj

theorem runMoves_round_out (dst src : Mem α) {ow ir Ld Ls : Nat} {x : Int} : ∀ n,
    (∀ j, j < n → x ≠ ((ow + j) % Ld : Nat)) → runMoves dst src (round ow ir Ld Ls n) x = dst x
  | 0, _ => rfl
  | n + 1, h => by
    rw [round_succ, runMoves_snoc, set_of_ne _ _ (h n (Nat.lt_succ_self n))]
    exact runMoves_round_out dst src n (fun j hj => h j (Nat.lt_succ_of_lt hj))

/-- **Carrying the cells of one circle to the end of what another holds**: the other then holds both, from `o` on. -/
theorem around_runMoves (dst src : Mem α) {o ow ir Ld Ls u n : Nat} (hu : u + n ≤ Ld) (how : (o + u) % Ld = ow) :
    around (runMoves dst src (round ow ir Ld Ls n)) Ld o (u + n) = around dst Ld o u ++ around src Ls ir n := by
  have hoff : ∀ j, (ow + j) % Ld = (o + u + j) % Ld := fun j => by rw [← how, Nat.mod_add_mod]
  rw [around_add]
  congr 1
  · refine around_congr (fun j hj => runMoves_round_out dst src n (fun k hk => ?_))
    have hne := mod_ne_of_lt (o := o) (L := Ld) (i := j) (j := u + k) (by omega) (by omega)
    rw [hoff, Nat.add_assoc]
    exact fun h => hne (Int.ofNat_inj.1 h)
  · refine around_congr (fun j hj => ?_)
    rw [← hoff]
    exact runMoves_round dst src n (by omega) j hj

end
end Circle
