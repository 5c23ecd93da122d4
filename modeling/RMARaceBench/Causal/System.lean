import Mathlib.Data.List.Basic
import Mathlib.Tactic.Common

/-!
# Causal systems

A system of actors, each with a straight-line list of steps. A step waits for tokens, takes locks,
performs memory accesses and signals tokens, all at once; steps of different actors interleave
freely. A loop of a program is a straight line here because its number of iterations is chosen
before the run. Work that goes on beside the program that started it (a transfer in flight) is an
actor of its own.

`Run S h`: `h` is the history of a run, newest event first. `HB S h x e`: `x` happens before `e` in
`h`: program order, a signal before the step that waited for it, a lock's release before a later
conflicting grant, and their transitive closure.
-/

set_option autoImplicit false

namespace Causal

/-- A request for the lock `key`. The lock is given back when the token `rel` is signalled. -/
structure Lock (K T : Type) where
  key : K
  excl : Bool
  rel : T
  deriving DecidableEq, Repr

/-- Two requests for one lock exclude each other unless both are shared. -/
def Lock.Clash {K T : Type} (l l' : Lock K T) : Prop :=
  l.key = l'.key ∧ (l.excl = true ∨ l'.excl = true)

instance {K T : Type} [DecidableEq K] (l l' : Lock K T) : Decidable (l.Clash l') :=
  inferInstanceAs (Decidable (_ ∧ _))

theorem Lock.Clash.symm {K T : Type} {l l' : Lock K T} (h : l.Clash l') : l'.Clash l :=
  ⟨h.1.symm, h.2.symm⟩

/-- A step of an actor. It is enabled when every token of `waits` and, unless `waitsAny` is empty,
some token of `waitsAny` has been signalled, and every lock of `locks` is free. -/
structure Step (M T K : Type) where
  waits : List T := []
  waitsAny : List T := []
  locks : List (Lock K T) := []
  accs : List M := []
  signals : List T := []
  deriving DecidableEq, Repr

/-- The step that does nothing. -/
def Step.skip {M T K : Type} : Step M T K := {}

/-- An event: an actor and the index of the step it performs. -/
abbrev Event (A : Type) := A × Nat

/-- A system: the steps of every actor, and which of the signals delivered so far a step with a
`waitsAny` has observed. -/
structure System (A M T K : Type) where
  code : A → List (Step M T K)
  sees : List (Event A) → Event A → Event A → Prop := fun _ _ _ => True

namespace System

variable {A M T K : Type} (S : System A M T K)

/-- The step of an event. -/
def step (e : Event A) : Option (Step M T K) := (S.code e.1)[e.2]?

def Signals (x : Event A) (t : T) : Prop := ∃ s, S.step x = some s ∧ t ∈ s.signals

def Waits (e : Event A) (t : T) : Prop := ∃ s, S.step e = some s ∧ t ∈ s.waits

def Accesses (e : Event A) (m : M) : Prop := ∃ s, S.step e = some s ∧ m ∈ s.accs

def Takes (e : Event A) (l : Lock K T) : Prop := ∃ s, S.step e = some s ∧ l ∈ s.locks

/-- `t` has been signalled in `h`. -/
def Signalled (h : List (Event A)) (t : T) : Prop := ∃ x ∈ h, S.Signals x t

/-- `s` may be performed after `h`. -/
structure Ready (h : List (Event A)) (s : Step M T K) : Prop where
  all : ∀ t ∈ s.waits, S.Signalled h t
  any : s.waitsAny ≠ [] → ∃ t ∈ s.waitsAny, S.Signalled h t
  free : ∀ l ∈ s.locks, ∀ x ∈ h, ∀ l', S.Takes x l' → l.Clash l' → S.Signalled h l'.rel

/-- The number of steps `a` has performed in `h`. -/
def done [DecidableEq A] (h : List (Event A)) (a : A) : Nat := h.countP (·.1 = a)

/-- The runs of the system, as histories with the newest event first. -/
inductive Run [DecidableEq A] : List (Event A) → Prop
  | nil : Run []
  | step {h : List (Event A)} {a : A} {s : Step M T K} : Run h →
      S.step (a, done h a) = some s → S.Ready h s → Run ((a, done h a) :: h)

/-- `x`, performed in `h`, is a direct cause of `e`, performed next. -/
inductive Cause (h : List (Event A)) (e x : Event A) : Prop
  | order : x.1 = e.1 → x.2 < e.2 → Cause h e x
  | wait {t : T} : S.Waits e t → S.Signals x t → Cause h e x
  | any {s : Step M T K} {t : T} : S.step e = some s → t ∈ s.waitsAny → S.Signals x t →
      S.sees h e x → Cause h e x
  | lock {l l' : Lock K T} {y : Event A} : S.Takes e l → y ∈ h → S.Takes y l' → l.Clash l' →
      S.Signals x l'.rel → Cause h e x

/-- Happens-before in a history. -/
inductive HB : List (Event A) → Event A → Event A → Prop
  | now {h : List (Event A)} {e x : Event A} : x ∈ h → S.Cause h e x → HB (e :: h) x e
  | thru {h : List (Event A)} {e x y : Event A} : HB h x y → S.Cause h e y → HB (e :: h) x e
  | later {h : List (Event A)} {e x y : Event A} : HB h x y → HB (e :: h) x y

/-- `x` and `y` are ordered by happens-before. -/
def Ordered (h : List (Event A)) (x y : Event A) : Prop := S.HB h x y ∨ S.HB h y x

/-- No run performs two conflicting accesses at events that happens-before leaves unordered. -/
def RaceFree [DecidableEq A] (conf : M → M → Prop) : Prop :=
  ∀ h, S.Run h → ∀ x ∈ h, ∀ y ∈ h, x ≠ y → ∀ m m', S.Accesses x m → S.Accesses y m' →
    conf m m' → S.Ordered h x y

end System

end Causal
