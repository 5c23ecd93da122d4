import RMARaceBench.Causal.Order

/-!
# Executing a system and refuting happens-before

`drive` runs a system from the empty history, in rounds: every actor of a list in turn performs steps
as long as they are ready (`burst`). Beside the history it keeps the actors and tokens that the event
`x` may have reached (`hot`, `hotSigs`). An event whose actor is not hot is not after `x` (`Inv.hot`),
so a run that ends with `y`, performed by an actor that is not hot, shows `x` and `y` unordered
(`unordered_of_drive`).
-/

set_option autoImplicit false

namespace Causal.System

variable {A M T K : Type}

/-- A history with what the execution remembers of it. -/
structure Conf (A T K : Type) where
  hist : List (Event A) := []
  sigs : List T := []
  taken : List (Lock K T) := []
  hot : List A := []
  hotSigs : List T := []

section
variable [DecidableEq A] [DecidableEq T] [DecidableEq K]

/-- `Ready` on what the execution remembers. -/
def Conf.ready (c : Conf A T K) (s : Step M T K) : Bool :=
  s.waits.all (· ∈ c.sigs) && (s.waitsAny.isEmpty || s.waitsAny.any (· ∈ c.sigs)) &&
    s.locks.all fun l => c.taken.all fun l' => !decide (l.Clash l') || decide (l'.rel ∈ c.sigs)

/-- `x` may reach the step `s` of `a` with the index `i`. -/
def Conf.heats (c : Conf A T K) (x : Event A) (a : A) (i : Nat) (s : Step M T K) : Bool :=
  decide (a ∈ c.hot) || decide (x = (a, i)) || s.waits.any (· ∈ c.hotSigs) ||
    s.waitsAny.any (· ∈ c.hotSigs) ||
    s.locks.any fun l => c.taken.any fun l' => decide (l.Clash l') && decide (l'.rel ∈ c.hotSigs)

/-- `a` performs its step `s` with the index `i`. -/
def Conf.push (c : Conf A T K) (x : Event A) (a : A) (i : Nat) (s : Step M T K) : Conf A T K where
  hist := (a, i) :: c.hist
  sigs := s.signals ++ c.sigs
  taken := s.locks ++ c.taken
  hot := if c.heats x a i s then a :: c.hot else c.hot
  hotSigs := if c.heats x a i s then s.signals ++ c.hotSigs else c.hotSigs

/-- `a` performs the steps `ss`, from the index `i` on, until one is not ready or `y` is performed.
`y` is held back until `x` has been performed. The result has the index that `a` has reached. -/
def burst (x y : Event A) (a : A) : List (Step M T K) → Nat → Conf A T K → Nat × Conf A T K
  | [], i, c => (i, c)
  | s :: ss, i, c =>
    if c.ready s then
      if (a, i) = y then if x ∈ c.hist then (i + 1, c.push x a i s) else (i, c)
      else burst x y a ss (i + 1) (c.push x a i s)
    else (i, c)

/-- `y` has been performed last. -/
def Conf.ended (c : Conf A T K) (y : Event A) : Bool := decide (c.hist.head? = some y)

/-- One round: a burst of every actor of `order`. The clock has what each of them has performed. -/
def round (S : System A M T K) (x y : Event A) : List A → Clock A → Conf A T K → Clock A × Conf A T K
  | [], k, c => (k, c)
  | a :: order, k, c =>
    if c.ended y then (k, c)
    else match burst x y a ((S.code a).drop (k.get a)) (k.get a) c with
      | (i, c') => round S x y order ((a, i) :: k) c'

def drive (S : System A M T K) (x y : Event A) (order : List A) :
    Nat → Clock A → Conf A T K → Conf A T K
  | 0, _, c => c
  | fuel + 1, k, c =>
    if c.ended y then c
    else match round S x y order k c with
      | (k', c') => drive S x y order fuel k' c'

end

/-- What the execution remembers is what the history says. -/
structure Inv [DecidableEq A] (S : System A M T K) (x : Event A) (c : Conf A T K) : Prop where
  run : S.Run c.hist
  sigs : ∀ t, t ∈ c.sigs ↔ S.Signalled c.hist t
  taken : ∀ y ∈ c.hist, ∀ l, S.Takes y l → l ∈ c.taken
  takenRev : ∀ l ∈ c.taken, ∃ y ∈ c.hist, S.Takes y l
  hot : ∀ y, (y = x ∧ x ∈ c.hist ∨ S.HB c.hist x y) → y.1 ∈ c.hot ∧ ∀ t, S.Signals y t → t ∈ c.hotSigs

theorem Inv.init [DecidableEq A] {S : System A M T K} {x : Event A} : Inv S x {} where
  run := .nil
  sigs t := by simp [Signalled]
  taken y hy := by simp at hy
  takenRev l hl := by simp at hl
  hot y hy := by
    rcases hy with ⟨-, hx⟩ | hb
    · simp at hx
    · cases hb

section
variable [DecidableEq A] [DecidableEq T] [DecidableEq K] {S : System A M T K} {x : Event A}

theorem Inv.ready {c : Conf A T K} (hi : Inv S x c) {s : Step M T K} (hs : c.ready s = true) :
    S.Ready c.hist s := by
  simp only [Conf.ready, Bool.and_eq_true, List.all_eq_true, decide_eq_true_eq, Bool.or_eq_true,
    List.isEmpty_iff, List.any_eq_true, Bool.not_eq_true', decide_eq_false_iff_not] at hs
  obtain ⟨⟨h1, h2⟩, h3⟩ := hs
  refine ⟨fun t ht => (hi.sigs t).1 (h1 t ht), fun hne => ?_, fun l hl y hy l' hl' hc => ?_⟩
  · rcases h2 with h2 | ⟨t, ht, hm⟩
    · exact absurd h2 hne
    · exact ⟨t, ht, (hi.sigs t).1 hm⟩
  · rcases h3 l hl l' (hi.taken y hy l' hl') with h3 | h3
    · exact absurd hc h3
    · exact (hi.sigs _).1 h3

/-- A step that `x` does not heat has no cause that `x` reached. -/
theorem Inv.heats_of_cause {c : Conf A T K} (hi : Inv S x c) {a : A} {i : Nat} {s : Step M T K}
    (hs : S.step (a, i) = some s) {y : Event A} (hy : y = x ∧ x ∈ c.hist ∨ S.HB c.hist x y)
    (hc : S.Cause c.hist (a, i) y) : c.heats x a i s = true := by
  obtain ⟨hhot, hsig⟩ := hi.hot y hy
  have same : ∀ {s'}, S.step (a, i) = some s' → s' = s := fun hs' => by
    rw [hs] at hs'; exact (Option.some.inj hs').symm
  simp only [Conf.heats, Bool.or_eq_true, List.any_eq_true, decide_eq_true_eq, Bool.and_eq_true]
  cases hc with
  | order he _ => exact .inl (.inl (.inl (.inl (by rw [← show y.1 = a from he]; exact hhot))))
  | @wait t hw hsy =>
    obtain ⟨s', hs', ht⟩ := hw
    exact .inl (.inl (.inr ⟨t, same hs' ▸ ht, hsig t hsy⟩))
  | @any s' t hs' ht hsy _ => exact .inl (.inr ⟨t, same hs' ▸ ht, hsig t hsy⟩)
  | @lock l l' z hl hz hz' hcl hsy =>
    obtain ⟨s', hs', hl⟩ := hl
    exact .inr ⟨l, same hs' ▸ hl, l', hi.taken z hz l' hz', hcl, hsig _ hsy⟩

/-- A ready step keeps the invariant. -/
theorem Inv.push {c : Conf A T K} (hi : Inv S x c) {a : A} {i : Nat} (hd : done c.hist a = i)
    {s : Step M T K} (hs : S.step (a, i) = some s) (hready : c.ready s = true) :
    Inv S x (c.push x a i s) := by
  subst hd
  have hrun : S.Run ((a, done c.hist a) :: c.hist) := .step hi.run hs (hi.ready hready)
  have fresh := Run.fresh hi.run a
  have sig_new : ∀ t, S.Signals (a, done c.hist a) t ↔ t ∈ s.signals := fun t =>
    ⟨fun ⟨s', hs', ht⟩ => by rw [hs] at hs'; cases hs'; exact ht, fun ht => ⟨s, hs, ht⟩⟩
  refine ⟨hrun, fun t => ?_, fun y hy l hl => ?_, fun l hl => ?_, fun y hy => ?_⟩
  · simp only [Conf.push, List.mem_append, Signalled, List.exists_mem_cons_iff, sig_new]
    rw [hi.sigs t]; rfl
  · rcases List.mem_cons.1 hy with rfl | hy
    · obtain ⟨s', hs', hl⟩ := hl
      rw [hs] at hs'; cases hs'
      exact List.mem_append_left _ hl
    · exact List.mem_append_right _ (hi.taken y hy l hl)
  · rcases List.mem_append.1 hl with hl | hl
    · exact ⟨_, .head _, s, hs, hl⟩
    · obtain ⟨y, hy, hl⟩ := hi.takenRev l hl
      exact ⟨y, .tail _ hy, hl⟩
  · -- the new event is reached through a cause, an older one was reached before
    have old : (y = x ∧ x ∈ c.hist ∨ S.HB c.hist x y) → y.1 ∈
          (if c.heats x a (done c.hist a) s = true then a :: c.hot else c.hot) ∧ ∀ t, S.Signals y t → t ∈
          (if c.heats x a (done c.hist a) s = true then s.signals ++ c.hotSigs else c.hotSigs) := fun hy => by
      obtain ⟨h1, h2⟩ := hi.hot y hy
      split
      · exact ⟨.tail _ h1, fun t ht => List.mem_append_right _ (h2 t ht)⟩
      · exact ⟨h1, h2⟩
    have new : y = (a, done c.hist a) →
        c.heats x a (done c.hist a) s = true → y.1 ∈
          (if c.heats x a (done c.hist a) s = true then a :: c.hot else c.hot) ∧ ∀ t, S.Signals y t → t ∈
          (if c.heats x a (done c.hist a) s = true then s.signals ++ c.hotSigs else c.hotSigs) := by
      rintro rfl hh
      rw [if_pos hh, if_pos hh]
      exact ⟨.head _, fun t ht => List.mem_append_left _ ((sig_new t).1 ht)⟩
    rcases hy with ⟨rfl, hx⟩ | hb
    · rcases List.mem_cons.1 hx with he | hx
      · exact new he (by simp [Conf.heats, he])
      · exact old (.inl ⟨rfl, hx⟩)
    · cases hb with
      | now hm hc => exact new rfl (hi.heats_of_cause hs (.inl ⟨rfl, hm⟩) hc)
      | thru hb hc => exact new rfl (hi.heats_of_cause hs (.inr hb) hc)
      | later hb => exact old (.inr hb)

/-- What a burst keeps and what it reaches. -/
theorem Inv.burst {y : Event A} {a : A} : ∀ {ss : List (Step M T K)} {i : Nat} {c : Conf A T K},
    Inv S x c → done c.hist a = i → (S.code a).drop i = ss →
    Inv S x (burst x y a ss i c).2 ∧
      done (burst x y a ss i c).2.hist a = (burst x y a ss i c).1 ∧
      ∀ b, b ≠ a → done (burst x y a ss i c).2.hist b = done c.hist b
  | [], _, _, hi, hd, _ => ⟨hi, hd, fun _ _ => rfl⟩
  | s :: ss, i, c, hi, hd, hss => by
    have hs : S.step (a, i) = some s := by
      rw [step, ← List.head?_drop, hss]
      rfl
    have hpush : done (c.push x a i s).hist a = i + 1 := by
      rw [Conf.push, done_cons_self, hd]
    have hother : ∀ b, b ≠ a → done (c.push x a i s).hist b = done c.hist b := fun b hb => by
      rw [Conf.push, done_cons_ne i (Ne.symm hb)]
    rw [System.burst]
    split
    swap
    · exact ⟨hi, hd, fun _ _ => rfl⟩
    rename_i hready
    split
    · split
      · exact ⟨hi.push hd hs hready, hpush, hother⟩
      · exact ⟨hi, hd, fun _ _ => rfl⟩
    obtain ⟨h1, h2, h3⟩ := Inv.burst (y := y) (hi.push hd hs hready) hpush
      (by rw [← List.tail_drop, hss, List.tail_cons])
    exact ⟨h1, h2, fun b hb => (h3 b hb).trans (hother b hb)⟩

theorem Inv.round {y : Event A} : ∀ {order : List A} {k : Clock A} {c : Conf A T K}, Inv S x c →
    (∀ a, k.get a = done c.hist a) →
    Inv S x (round S x y order k c).2 ∧
      ∀ a, (round S x y order k c).1.get a = done (round S x y order k c).2.hist a
  | [], _, _, hi, hk => ⟨hi, hk⟩
  | a :: order, k, c, hi, hk => by
    rw [System.round]
    split
    · exact ⟨hi, hk⟩
    obtain ⟨h1, h2, h3⟩ := Inv.burst (y := y) hi (hk a).symm rfl
    refine Inv.round h1 fun b => ?_
    rw [Clock.get]
    split
    · rename_i hb
      rw [← hb, h2]
    · rename_i hb
      rw [hk b, h3 b (Ne.symm hb)]

theorem Inv.drive {y : Event A} {order : List A} : ∀ {fuel : Nat} {k : Clock A} {c : Conf A T K},
    Inv S x c → (∀ a, k.get a = done c.hist a) → Inv S x (drive S x y order fuel k c)
  | 0, _, _, hi, _ => hi
  | fuel + 1, k, c, hi, hk => by
    rw [System.drive]
    split
    · exact hi
    · obtain ⟨h1, h2⟩ := Inv.round (y := y) hi hk
      exact Inv.drive h1 h2

/-- The execution performs `x` and at last `y`, which `x` has not reached. -/
def unorderedB (S : System A M T K) (order : List A) (fuel : Nat) (x y : Event A) : Bool :=
  let c := drive S x y order fuel [] {}
  c.ended y && decide (x ∈ c.hist.tail) && !decide (y.1 ∈ c.hot)

/-- **A run in which `x` and `y` are unordered**, found by execution. -/
theorem unordered_of_drive {order : List A} {fuel : Nat} {y : Event A}
    (h : unorderedB S order fuel x y = true) :
    ∃ h, S.Run h ∧ x ∈ h ∧ y ∈ h ∧ ¬ S.Ordered h x y := by
  simp only [unorderedB, Conf.ended, Bool.and_eq_true, decide_eq_true_eq, Bool.not_eq_true',
    decide_eq_false_iff_not] at h
  obtain ⟨⟨hhead, htail⟩, hhot⟩ := h
  have hi : Inv S x (drive S x y order fuel [] {}) := Inv.drive Inv.init fun _ => rfl
  generalize drive S x y order fuel [] {} = c at hhead htail hhot hi
  obtain ⟨h, hc⟩ : ∃ h, c.hist = y :: h := by
    cases hc : c.hist with
    | nil => simp [hc] at hhead
    | cons z h => simp only [hc, List.head?_cons, Option.some.injEq] at hhead; exact ⟨h, by rw [hhead]⟩
  have hx : x ∈ h := by simpa [hc] using htail
  have hrun : S.Run (y :: h) := hc ▸ hi.run
  have hy : y ∉ h := (Run.head hrun).1
  refine ⟨y :: h, hrun, .tail _ hx, .head _, ?_⟩
  rintro (hb | hb)
  · exact hhot (hi.hot y (.inr (hc ▸ hb))).1
  · -- `x` is older than `y`, so it cannot be after it
    exact hy (hb.older fun he => hy (he ▸ hx)).mem.1

end

end Causal.System
