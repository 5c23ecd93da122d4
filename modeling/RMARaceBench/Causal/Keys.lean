import Mathlib.Tactic.IntervalCases
import RMARaceBench.Causal.Check

/-!
# Keys

The race check compares tokens and actors very often. `eqOfKeys` decides the equality of a type on
lists of numbers, which evaluates much faster than the instance that goes through the constructors.
`raceCheck_congr`: the check has one value for all instances. `all_of_chunks`: a long list of checks is
evaluated a few entries at a time.
-/

set_option autoImplicit false

namespace Causal

def sameKey : List Nat → List Nat → Bool
  | [], [] => true
  | i :: k, j :: l => bif Nat.beq i j then sameKey k l else false
  | _, _ => false

theorem sameKey_iff : ∀ {k l : List Nat}, sameKey k l = true ↔ k = l
  | [], [] | [], _ :: _ | _ :: _, [] => by simp [sameKey]
  | i :: k, j :: l => by
    rw [sameKey, List.cons.injEq, ← sameKey_iff (k := k)]
    cases h : Nat.beq i j with
    | true => simp [Nat.eq_of_beq_eq_true h]
    | false => simp [Nat.ne_of_beq_eq_false h]

/-- Equality decided on keys. -/
def eqOfKeys {X : Type} (key : X → List Nat) (hinj : ∀ {x y}, key x = key y → x = y) :
    DecidableEq X := fun x y =>
  decidable_of_iff (sameKey (key x) (key y) = true)
    (sameKey_iff.trans ⟨fun h => hinj h, fun h => h ▸ rfl⟩)

/-- A property of all entries, from pieces of `k` entries. -/
theorem all_of_chunks {α : Type} {f : α → Bool} {l : List α} (k n : Nat) (hlen : l.length ≤ n * k)
    (h : ∀ i < n, ((l.drop (i * k)).take k).all f = true) : l.all f = true := by
  rw [List.all_eq_true]
  intro x hx
  obtain ⟨j, hj, rfl⟩ := List.mem_iff_getElem.1 hx
  have hk : 0 < k := by
    by_contra h0
    rw [Nat.eq_zero_of_not_pos h0, Nat.mul_zero] at hlen
    omega
  have hi : j / k < n := Nat.div_lt_of_lt_mul (by rw [Nat.mul_comm]; omega)
  refine List.all_eq_true.1 (h (j / k) hi) _ (List.mem_of_getElem? (i := j % k) ?_)
  rw [List.getElem?_take_of_lt (Nat.mod_lt _ hk), List.getElem?_drop, Nat.mul_comm, Nat.div_add_mod,
    List.getElem?_eq_getElem hj]

namespace System

variable {A M T K : Type}

theorem raceCheck_congr {S : System A M T K} {core : List A} {conf : M → M → Bool} {fuel : Nat}
    (eA eA' : DecidableEq A) (eT eT' : DecidableEq T) (eK eK' : DecidableEq K) :
    @raceCheck A M T K eA eT eK S core conf fuel = @raceCheck A M T K eA' eT' eK' S core conf fuel := by
  rw [Subsingleton.elim eA eA', Subsingleton.elim eT eT', Subsingleton.elim eK eK']

end System

end Causal
