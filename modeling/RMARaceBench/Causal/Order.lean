import RMARaceBench.Causal.System

/-!
# Happens-before along a run

A history of a run holds the events of each actor in order and without gaps (`Run.mem_iff`), and
every event was enabled in the part of the history below it (`Run.split`). From this, happens-before
is transitive (`HB.trans`), agrees with the order of the history (`HB.mem`) and contains program
order (`Run.hb_order`), the signals a step waited for (`Run.hb_wait`, `Run.hb_any`) and the hand-over
of locks (`Run.lock_order`).
-/

set_option autoImplicit false

namespace Causal.System

variable {A M T K : Type} {S : System A M T K}

/-! ## The events of an actor -/

theorem lt_length_of_step {a : A} {i : Nat} {s : Step M T K} (h : S.step (a, i) = some s) :
    i < (S.code a).length :=
  (List.getElem?_eq_some_iff.1 h).1

section
variable [DecidableEq A]

@[simp] theorem done_nil (a : A) : done [] a = 0 := rfl

theorem done_cons_self (h : List (Event A)) (a : A) (i : Nat) :
    done ((a, i) :: h) a = done h a + 1 := by simp [done]

theorem done_cons_ne {h : List (Event A)} {a b : A} (i : Nat) (hab : b ≠ a) :
    done ((b, i) :: h) a = done h a := by simp [done, hab]

theorem Run.mem_iff {h : List (Event A)} (hr : S.Run h) (a : A) (i : Nat) :
    (a, i) ∈ h ↔ i < done h a := by
  induction hr with
  | nil => simp [done]
  | @step h b s _ _ _ ih =>
    by_cases hb : b = a
    · subst hb
      rw [done_cons_self, List.mem_cons, ih, Prod.mk.injEq]
      simp only [true_and]
      omega
    · rw [done_cons_ne _ hb, List.mem_cons, ih]
      simp [Ne.symm hb]

theorem Run.fresh {h : List (Event A)} (hr : S.Run h) (a : A) : (a, done h a) ∉ h := by
  rw [Run.mem_iff hr]; omega

theorem Run.tail {e : Event A} {h : List (Event A)} (hr : S.Run (e :: h)) : S.Run h := by
  cases hr with
  | step hr _ _ => exact hr

theorem Run.head {e : Event A} {h : List (Event A)} (hr : S.Run (e :: h)) :
    e ∉ h ∧ ∃ s, S.step e = some s ∧ S.Ready h s := by
  cases hr with
  | step hr hs hy => exact ⟨Run.fresh hr _, _, hs, hy⟩

theorem Run.suffix {h₂ h₁ : List (Event A)} (hr : S.Run (h₂ ++ h₁)) : S.Run h₁ := by
  induction h₂ with
  | nil => exact hr
  | cons e h₂ ih => exact ih (Run.tail hr)

/-- **An event of a run** was enabled in the history below it. -/
theorem Run.split {e : Event A} {h : List (Event A)} (hr : S.Run h) (he : e ∈ h) :
    ∃ h₂ h₁ s, h = h₂ ++ e :: h₁ ∧ S.Run (e :: h₁) ∧ S.step e = some s ∧ S.Ready h₁ s := by
  obtain ⟨h₂, h₁, rfl⟩ := List.append_of_mem he
  have hr' := Run.suffix hr
  obtain ⟨_, s, hs, hy⟩ := Run.head hr'
  exact ⟨h₂, h₁, s, rfl, hr', hs, hy⟩

theorem Run.step_of_mem {e : Event A} {h : List (Event A)} (hr : S.Run h) (he : e ∈ h) :
    ∃ s, S.step e = some s := by
  obtain ⟨_, _, s, _, _, hs, _⟩ := Run.split hr he
  exact ⟨s, hs⟩

end

/-! ## Clocks -/

/-- For every actor a number of its first steps, 0 unless it is listed. -/
abbrev Clock (A : Type) := List (A × Nat)

def Clock.get [DecidableEq A] : Clock A → A → Nat
  | [], _ => 0
  | (b, n) :: c, a => if b = a then n else Clock.get c a

/-! ## Happens-before -/

theorem HB.append {h : List (Event A)} {x y : Event A} (hb : S.HB h x y) (h₂ : List (Event A)) :
    S.HB (h₂ ++ h) x y := by
  induction h₂ with
  | nil => exact hb
  | cons e h₂ ih => exact .later ih

theorem HB.mem {h : List (Event A)} {x y : Event A} (hb : S.HB h x y) : x ∈ h ∧ y ∈ h := by
  induction hb with
  | now hx _ => exact ⟨.tail _ hx, .head _⟩
  | thru _ _ ih => exact ⟨.tail _ ih.1, .head _⟩
  | later _ ih => exact ⟨.tail _ ih.1, .tail _ ih.2⟩

/-- A direct cause below an event of a run happens before it. -/
theorem HB.of_cause {h₂ h₁ : List (Event A)} {e x : Event A} (hx : x ∈ h₁)
    (hc : S.Cause h₁ e x) : S.HB (h₂ ++ e :: h₁) x e := HB.append (.now hx hc) h₂

/-- Happens-before of an older event is older. -/
theorem HB.older {h : List (Event A)} {e x y : Event A} (hb : S.HB (e :: h) x y) (hy : y ≠ e) :
    S.HB h x y := by
  cases hb with
  | now => exact absurd rfl hy
  | thru => exact absurd rfl hy
  | later hb => exact hb

section
variable [DecidableEq A]

theorem HB.trans {h : List (Event A)} {x y z : Event A} (hr : S.Run h) (hxy : S.HB h x y)
    (hyz : S.HB h y z) : S.HB h x z := by
  induction hr generalizing x y z with
  | nil => cases hxy
  | @step h a s hr hs hy ih =>
    have old : ∀ {w : Event A}, w ∈ h → w ≠ (a, done h a) :=
      fun hw he => Run.fresh hr a (he ▸ hw)
    cases hyz with
    | now hm hc => exact .thru (hxy.older (old hm)) hc
    | thru hb hc => exact .thru (ih (hxy.older (old hb.mem.1)) hb) hc
    | later hb => exact .later (ih (hxy.older (old hb.mem.1)) hb)

/-- Happens-before is no longer than the history: it has no cycle. -/
theorem HB.irrefl {h : List (Event A)} (hr : S.Run h) (x : Event A) : ¬ S.HB h x x := by
  induction hr with
  | nil => intro hb; cases hb
  | @step h a s hr hs hy ih =>
    intro hb
    cases hb with
    | now hm _ => exact Run.fresh hr a hm
    | thru hb _ => exact Run.fresh hr a hb.mem.1
    | later hb => exact ih hb

theorem Run.hb_order {h : List (Event A)} (hr : S.Run h) {a : A} {i j : Nat} (hj : (a, j) ∈ h)
    (hij : i < j) : S.HB h (a, i) (a, j) := by
  obtain ⟨h₂, h₁, s, rfl, hr₁, -, -⟩ := Run.split hr hj
  have hd : j < done ((a, j) :: h₁) a := (Run.mem_iff hr₁ a j).1 (.head _)
  have hi : (a, i) ∈ (a, j) :: h₁ := (Run.mem_iff hr₁ a i).2 (by omega)
  have hi₁ : (a, i) ∈ h₁ := by
    rcases List.mem_cons.1 hi with he | hi
    · simp only [Prod.mk.injEq, true_and] at he; omega
    · exact hi
  exact HB.of_cause hi₁ (.order rfl hij)

theorem Run.hb_wait {h : List (Event A)} (hr : S.Run h) {e : Event A} (he : e ∈ h) {t : T}
    (hw : S.Waits e t) : ∃ x, S.Signals x t ∧ S.HB h x e := by
  obtain ⟨s', hs', ht⟩ := hw
  obtain ⟨h₂, h₁, s, rfl, -, hs, hy⟩ := Run.split hr he
  obtain rfl : s = s' := by rw [hs] at hs'; exact Option.some.inj hs'
  obtain ⟨x, hx, hsig⟩ := hy.all t ht
  exact ⟨x, hsig, HB.of_cause hx (.wait ⟨s, hs, ht⟩ hsig)⟩

/-- Every step with a `waitsAny` has observed one of the signals it waited for. -/
def Total (S : System A M T K) : Prop :=
  ∀ h e s, S.step e = some s → (∃ t ∈ s.waitsAny, S.Signalled h t) →
    ∃ t ∈ s.waitsAny, ∃ x ∈ h, S.Signals x t ∧ S.sees h e x

theorem Run.hb_any {h : List (Event A)} (hr : S.Run h) (hS : S.Total) {e : Event A} (he : e ∈ h)
    {s : Step M T K} (hs : S.step e = some s) (ha : s.waitsAny ≠ []) :
    ∃ t ∈ s.waitsAny, ∃ x, S.Signals x t ∧ S.HB h x e := by
  obtain ⟨h₂, h₁, s', rfl, -, hs', hy⟩ := Run.split hr he
  obtain rfl : s' = s := by rw [hs] at hs'; exact (Option.some.inj hs').symm
  obtain ⟨t, ht, x, hx, hsig, hsee⟩ := hS h₁ e s' hs (hy.any ha)
  exact ⟨t, ht, x, hsig, HB.of_cause hx (.any hs ht hsig hsee)⟩

/-- **Mutual exclusion**: of two clashing grants one is below the release of the other. -/
theorem Run.lock_order {h : List (Event A)} (hr : S.Run h) {e e' : Event A} (he : e ∈ h)
    (he' : e' ∈ h) (hne : e ≠ e') {l l' : Lock K T} (hl : S.Takes e l) (hl' : S.Takes e' l')
    (hc : l.Clash l') :
    (∃ x, S.Signals x l.rel ∧ S.HB h x e') ∨ ∃ x, S.Signals x l'.rel ∧ S.HB h x e := by
  induction hr with
  | nil => simp at he
  | @step h a s hr hs hy ih =>
    have grant : ∀ {d : Event A} {k k' : Lock K T}, d ∈ h → S.Takes (a, done h a) k → S.Takes d k' →
        k.Clash k' → ∃ x, S.Signals x k'.rel ∧ S.HB ((a, done h a) :: h) x (a, done h a) := by
      rintro d k k' hd ⟨s', hs', hk⟩ hk' hkk
      obtain rfl : s' = s := by rw [hs] at hs'; exact (Option.some.inj hs').symm
      obtain ⟨x, hx, hsig⟩ := hy.free k hk d hd k' hk' hkk
      exact ⟨x, hsig, .now hx (.lock ⟨s', hs, hk⟩ hd hk' hkk hsig)⟩
    rcases List.mem_cons.1 he with rfl | he
    · rcases List.mem_cons.1 he' with rfl | he'
      · exact absurd rfl hne
      · exact .inr (grant he' hl hl' hc)
    · rcases List.mem_cons.1 he' with rfl | he'
      · exact .inl (grant he hl' hl hc.symm)
      · rcases ih he he' with ⟨x, hx, hb⟩ | ⟨x, hx, hb⟩
        · exact .inl ⟨x, hx, .later hb⟩
        · exact .inr ⟨x, hx, .later hb⟩

end

end Causal.System
