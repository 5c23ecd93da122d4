import Mathlib.Data.List.Basic
import Mathlib.Logic.Relation

/-!
# A process that writes to a pipe

`Inevitable step Q s`: every run from `s` reaches a state in `Q`, after finitely many steps and without
getting stuck before. `Writer`: a process with a list of writes to do, on a pipe with a capacity; while
the pipe is full, a write blocks.
-/

set_option autoImplicit false

namespace Pipe

/-! ## What every run reaches -/

section Inevitable

variable {σ : Type} {step : σ → σ → Prop}

inductive Inevitable (step : σ → σ → Prop) (Q : σ → Prop) : σ → Prop
  | here {s : σ} : Q s → Inevitable step Q s
  | next {s : σ} : (∃ s', step s s') → (∀ s', step s s' → Inevitable step Q s') →
      Inevitable step Q s

/-- An invariant under which every state outside `Q` has a step, and every step makes a measure
smaller. -/
theorem Inevitable.of_measure {Q I : σ → Prop} (μ : σ → Nat)
    (hstep : ∀ s, I s → ¬ Q s → ∃ s', step s s')
    (hkeep : ∀ s s', I s → ¬ Q s → step s s' → I s' ∧ μ s' < μ s) {s : σ} (hs : I s) :
    Inevitable step Q s := by
  have hall : ∀ n s, μ s < n → I s → Inevitable step Q s := by
    intro n
    induction n with
    | zero => intro s h; exact absurd h (Nat.not_lt_zero _)
    | succ n ih =>
      intro s hn hi
      by_cases hq : Q s
      · exact .here hq
      · refine .next (hstep s hi hq) fun s' hs' => ?_
        obtain ⟨hi', hlt⟩ := hkeep s s' hi hq hs'
        exact ih s' (by omega) hi'
  exact hall (μ s + 1) s (Nat.lt_succ_self _) hs

/-- What is inevitable stays so along a run, when the states in `Q` have no steps. -/
theorem Inevitable.of_reach {Q : σ → Prop} {s s' : σ} (h : Inevitable step Q s)
    (hQ : ∀ s s', Q s → ¬ step s s') (hr : Relation.ReflTransGen step s s') :
    Inevitable step Q s' := by
  induction hr with
  | refl => exact h
  | @tail b c _ hbc ih =>
    cases ih with
    | here hq => exact absurd hbc (hQ b c hq)
    | next _ hall => exact hall c hbc

/-- Two inevitable sets without steps have a state in common. -/
theorem Inevitable.common {Q Q' : σ → Prop} {s : σ} (h : Inevitable step Q s)
    (h' : Inevitable step Q' s) (hQ : ∀ s s', Q s → ¬ step s s')
    (hQ' : ∀ s s', Q' s → ¬ step s s') : ∃ s', Q s' ∧ Q' s' := by
  induction h with
  | here hq =>
    cases h' with
    | here hq' => exact ⟨_, hq, hq'⟩
    | next he _ =>
      obtain ⟨s', hs'⟩ := he
      exact absurd hs' (hQ _ s' hq)
  | next he _ ih =>
    obtain ⟨s', hs'⟩ := he
    cases h' with
    | here hq' => exact absurd hs' (hQ' _ s' hq')
    | next _ hall => exact ih s' hs' (hall s' hs')

end Inevitable

/-! ## The writer -/

section Writer

variable {α : Type}

/-- The writes that are not complete, the content of the pipe, and whether the process has exited. -/
structure Writer (α : Type) where
  pending : List (List α)
  buffer : List α := []
  exited : Bool := false

/-- The steps of the process on a pipe of capacity `C`: a part of the first write goes into the pipe, a
write is complete, or the process exits. -/
inductive Writer.Step (C : Nat) : Writer α → Writer α → Prop
  | write {xs ys : List α} {ws : List (List α)} {b : List α} (hx : xs ≠ [])
      (hC : b.length + xs.length ≤ C) :
      Step C ⟨(xs ++ ys) :: ws, b, false⟩ ⟨ys :: ws, b ++ xs, false⟩
  | complete {ws : List (List α)} {b : List α} : Step C ⟨[] :: ws, b, false⟩ ⟨ws, b, false⟩
  | exit {b : List α} : Step C ⟨[], b, false⟩ ⟨[], b, true⟩

namespace Writer

variable {C : Nat} {w w' : Writer α}

/-- The process cannot take a step. -/
def Blocked (C : Nat) (w : Writer α) : Prop := w.exited = false ∧ ∀ w', ¬ Step C w w'

/-- Everything that the process has written or still has to write. -/
def total (w : Writer α) : List α := w.buffer ++ w.pending.flatten

/-- A bound on the number of steps. -/
def work (w : Writer α) : Nat :=
  w.pending.flatten.length + w.pending.length + if w.exited then 0 else 1

structure Ok (C : Nat) (w : Writer α) : Prop where
  fits : w.buffer.length ≤ C
  done : w.exited = true → w.pending = []

theorem Step.total (h : Step C w w') : w'.total = w.total := by
  cases h with
  | write hx hC => simp [Writer.total]
  | complete => simp [Writer.total]
  | exit => rfl

theorem Step.work (h : Step C w w') : w'.work < w.work := by
  cases h with
  | write hx hC =>
    have := List.length_pos_of_ne_nil hx
    simp only [Writer.work, List.flatten_cons, List.length_append, List.length_cons]
    omega
  | complete => simp [Writer.work]
  | exit => simp [Writer.work]

theorem Step.ok (h : Step C w w') (hw : Ok C w) : Ok C w' := by
  cases h with
  | write hx hC => exact ⟨by simpa using hC, by simp⟩
  | complete => exact ⟨hw.fits, by simp⟩
  | exit => exact ⟨hw.fits, by simp⟩

/-- A process that cannot take a step has filled the pipe and not written everything. -/
theorem Blocked.full (h : Blocked C w) (hw : Ok C w) : w.buffer.length = C ∧ C < w.total.length := by
  obtain ⟨ws, b, e⟩ := w
  obtain ⟨rfl, hno⟩ : e = false ∧ _ := h
  cases ws with
  | nil => exact absurd .exit (hno _)
  | cons x ws =>
    cases x with
    | nil => exact absurd .complete (hno _)
    | cons a x =>
      have hfull : ¬ b.length + 1 ≤ C := fun hC =>
        hno _ (@Step.write α C [a] x ws b (by simp) hC)
      have hfits : b.length ≤ C := hw.fits
      constructor
      · show b.length = C
        omega
      · simp only [total, List.flatten_cons, List.length_append, List.length_cons]
        omega

/-- A process that has exited has written everything. -/
theorem Ok.total_eq (hw : Ok C w) (he : w.exited = true) : w.total = w.buffer := by
  simp [total, hw.done he]

end Writer

end Writer

end Pipe
