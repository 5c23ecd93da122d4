import RMARaceBench.Causal.Order
import Mathlib.Algebra.Order.BigOperators.Group.List
import Mathlib.Algebra.Order.Group.Nat
import Mathlib.Order.WellFounded

/-!
# Runs that reach a cut

A cut gives for every actor the number of its steps to be performed. `Cut S stop lvl`: the steps of
the cut take no locks and every token they wait for is signalled inside the cut at a lower level.
Then every run that stays inside the cut can be continued to exactly the cut (`Cut.reach`): no actor
is blocked for good. With the cut of all steps this is freedom from deadlock.
-/

set_option autoImplicit false

namespace Causal.System

variable {A M T K : Type} {S : System A M T K}

/-- A cut closed under what its steps wait for, with the level of its events (module doc). -/
structure Cut (S : System A M T K) (stop : A → Nat) (lvl : Event A → Nat) : Prop where
  le : ∀ a, stop a ≤ (S.code a).length
  mono : ∀ a i j, i < j → j < stop a → lvl (a, i) < lvl (a, j)
  waits : ∀ e : Event A, e.2 < stop e.1 → ∀ t, S.Waits e t →
    ∃ x : Event A, x.2 < stop x.1 ∧ S.Signals x t ∧ lvl x < lvl e
  any : ∀ e : Event A, e.2 < stop e.1 → ∀ s, S.step e = some s → s.waitsAny ≠ [] →
    ∃ t ∈ s.waitsAny, ∃ x : Event A, x.2 < stop x.1 ∧ S.Signals x t ∧ lvl x < lvl e
  locks : ∀ e : Event A, e.2 < stop e.1 → ∀ l, ¬ S.Takes e l

namespace Cut

variable [DecidableEq A] {stop : A → Nat} {lvl : Event A → Nat}

/-- What a lowest unfinished step waits for has happened. -/
theorem mem_of_min (hc : Cut S stop lvl) {h : List (Event A)} (hr : S.Run h) {a : A}
    (hmin : ∀ b, done h b < stop b → lvl (a, done h a) ≤ lvl (b, done h b)) {x : Event A}
    (hx : x.2 < stop x.1) (hl : lvl x < lvl (a, done h a)) : x ∈ h := by
  obtain ⟨b, j⟩ := x
  rw [Run.mem_iff hr]
  by_contra hj
  change j < stop b at hx
  have hb : done h b < stop b := by omega
  have hle : lvl (b, done h b) ≤ lvl (b, j) := by
    rcases Nat.eq_or_lt_of_le (Nat.le_of_not_lt hj) with he | hlt
    · rw [he]
    · exact Nat.le_of_lt (hc.mono b _ _ hlt hx)
  have := hmin b hb
  omega

/-- A lowest unfinished step is ready. -/
theorem ready (hc : Cut S stop lvl) {h : List (Event A)} (hr : S.Run h) {a : A}
    (ha : done h a < stop a)
    (hmin : ∀ b, done h b < stop b → lvl (a, done h a) ≤ lvl (b, done h b)) :
    ∃ s, S.step (a, done h a) = some s ∧ S.Ready h s := by
  have hlen : done h a < (S.code a).length := Nat.lt_of_lt_of_le ha (hc.le a)
  refine ⟨(S.code a)[done h a], by simp [step, hlen], ?_⟩
  have hs : S.step (a, done h a) = some (S.code a)[done h a] := by simp [step, hlen]
  constructor
  · intro t ht
    obtain ⟨x, hx, hsig, hl⟩ := hc.waits (a, done h a) ha t ⟨_, hs, ht⟩
    exact ⟨x, mem_of_min hc hr hmin hx hl, hsig⟩
  · intro hne
    obtain ⟨t, ht, x, hx, hsig, hl⟩ := hc.any (a, done h a) ha _ hs hne
    exact ⟨t, ht, x, mem_of_min hc hr hmin hx hl, hsig⟩
  · intro l hl
    exact absurd ⟨_, hs, hl⟩ (hc.locks (a, done h a) ha l)

/-- A run inside the cut that has not reached it can make a step of the cut. -/
theorem next (hc : Cut S stop lvl) {h : List (Event A)} (hr : S.Run h)
    (hu : ∃ a, done h a < stop a) : ∃ a, done h a < stop a ∧ S.Run ((a, done h a) :: h) := by
  obtain ⟨a, ha, hmin⟩ := (measure fun a => lvl (a, done h a)).wf.has_min
    {a | done h a < stop a} hu
  obtain ⟨s, hs, hy⟩ := ready hc hr ha fun b hb => Nat.le_of_not_lt (hmin b hb)
  exact ⟨a, ha, .step hr hs hy⟩

/-- **Every run inside the cut can be continued to the cut.** -/
theorem reach (hc : Cut S stop lvl) (as : List A) (has : ∀ a, 0 < stop a → a ∈ as)
    {h : List (Event A)} (hr : S.Run h) (hle : ∀ a, done h a ≤ stop a) :
    ∃ h', S.Run (h' ++ h) ∧ ∀ a, done (h' ++ h) a = stop a := by
  by_cases hu : ∃ a, done h a < stop a
  · obtain ⟨a, ha, hr'⟩ := next hc hr hu
    have hle' : ∀ b, done ((a, done h a) :: h) b ≤ stop b := fun b => by
      by_cases hb : a = b
      · subst hb; rw [done_cons_self]; omega
      · rw [done_cons_ne _ hb]; exact hle b
    have hdec : (as.map fun b => stop b - done ((a, done h a) :: h) b).sum <
        (as.map fun b => stop b - done h b).sum := by
      refine List.sum_lt_sum _ _ (fun b _ => ?_) ⟨a, has a (by omega), ?_⟩
      · by_cases hb : a = b
        · subst hb; rw [done_cons_self]; omega
        · rw [done_cons_ne _ hb]
      · simp only [done_cons_self]; omega
    obtain ⟨h', hr'', hd⟩ := reach hc as has hr' hle'
    exact ⟨h' ++ [(a, done h a)], by simpa using hr'', by simpa using hd⟩
  · refine ⟨[], hr, fun a => ?_⟩
    have := hle a
    have : ¬ done h a < stop a := fun hlt => hu ⟨a, hlt⟩
    simp only [List.nil_append]
    omega
termination_by (as.map fun b => stop b - done h b).sum

end Cut

end Causal.System
