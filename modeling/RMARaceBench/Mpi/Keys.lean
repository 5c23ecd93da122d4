import RMARaceBench.Causal.Keys
import RMARaceBench.Mpi.Semantics

/-!
# Keys of the tokens and actors of MPI programs
-/

set_option autoImplicit false

namespace Mpi

open Causal Causal.System

def Win.key : Win → Nat
  | .win => 0
  | .win2 => 1

theorem Win.key_inj {w w' : Win} : w.key = w'.key ↔ w = w' := by
  cases w <;> cases w' <;> simp [key]

def Var.key : Var → List Nat
  | .value => [0]
  | .value2 => [1]
  | .result => [2]
  | .token => [3]
  | .blockValue => [4]
  | .blockValue1 b => [5, b]
  | .blockValue2 b => [6, b]
  | .typesize => [7]
  | .flag => [8]
  | .dummy => [9]

theorem Var.key_inj {x y : Var} : x.key = y.key ↔ x = y := by
  cases x <;> cases y <;> simp [key]

def Token.key : Token → List Nat
  | .bar r c => [0, r, c]
  | .fence w r c => [1, w.key, r, c]
  | .free w r c => [2, w.key, r, c]
  | .issued r k => [3, r, k]
  | .localDone r k => [4, r, k]
  | .done r k => [5, r, k]
  | .lockCall r k => [6, r, k]
  | .granted r k => [7, r, k]
  | .unlocked r k => [8, r, k]
  | .posted w t o c => [9, w.key, t, o, c]
  | .completed w o t c => [10, w.key, o, t, c]
  | .sent src dst c => [11, src, dst, c]
  | .fork r k => [12, r, k]
  | .team r k tid => [13, r, k, tid]
  | .ordered r loop i => [14, r, loop, i]
  | .taskCreated r j => [15, r, j]
  | .taskDone r j => [16, r, j]
  | .incremented r x => 17 :: r :: x.key

theorem Token.key_inj {t t' : Token} (h : t.key = t'.key) : t = t' := by
  cases t <;> cases t' <;> first
    | exact absurd (List.cons.inj h).1 (by decide)
    | simpa [key, Win.key_inj, Var.key_inj] using h

def Actor.key : Actor → List Nat
  | .thread r tid => [0, r, tid]
  | .task r j => [1, r, j]
  | .op r k => [2, r, k]
  | .grant r k => [3, r, k]

theorem Actor.key_inj {a a' : Actor} (h : a.key = a'.key) : a = a' := by
  cases a <;> cases a' <;> first
    | exact absurd (List.cons.inj h).1 (by decide)
    | simpa [key] using h

/-- The race check with equality decided on keys. -/
def keyedCheck (S : System Actor Access Token Key) (core : List Actor)
    (conf : Access → Access → Bool) (fuel : Nat) : Bool :=
  @raceCheck Actor Access Token Key (eqOfKeys Actor.key Actor.key_inj)
    (eqOfKeys Token.key Token.key_inj) inferInstance S core conf fuel

theorem raceCheck_of_keyed {S : System Actor Access Token Key} {core : List Actor}
    {conf : Access → Access → Bool} {fuel : Nat} (h : keyedCheck S core conf fuel = true) :
    raceCheck S core conf fuel = true :=
  (raceCheck_congr _ _ _ _ _ _).trans h

end Mpi
