import RMARaceBench.Causal.Check
import RMARaceBench.Causal.Exec
import RMARaceBench.Causal.Progress

/-!
# Freedom from deadlock

`Cone S stop lvl`: a set of events, closed under what its steps wait for, with a level for each of them.
`Plan S stop lvl`: a cone whose steps may take locks. Who holds a lock that another step of the plan
wants can give it back with steps that take no other lock. Then every run can be continued until the
plan is performed (`Plan.reach`), whatever the run has done before.

A complete run is a plan (`Plan.of_run`): the level of an event is its position in the run. So one
execution of a system shows that no other execution of it can get stuck (`reach_of_completeB`).
-/

set_option autoImplicit false

namespace Causal.System

variable {A M T K : Type} {S : System A M T K}

/-- A set of events closed under what its steps wait for (module doc). -/
structure Cone (S : System A M T K) (stop : A → Nat) (lvl : Event A → Nat) : Prop where
  le : ∀ a, stop a ≤ (S.code a).length
  mono : ∀ a i j, i < j → j < stop a → lvl (a, i) < lvl (a, j)
  waits : ∀ e : Event A, e.2 < stop e.1 → ∀ t, S.Waits e t →
    ∃ x : Event A, x.2 < stop x.1 ∧ S.Signals x t ∧ lvl x < lvl e
  any : ∀ e : Event A, e.2 < stop e.1 → ∀ s, S.step e = some s → s.waitsAny ≠ [] →
    ∃ t ∈ s.waitsAny, ∃ x : Event A, x.2 < stop x.1 ∧ S.Signals x t ∧ lvl x < lvl e

variable [DecidableEq A] {stop : A → Nat} {lvl : Event A → Nat}

/-- The lock of `x` with the release token `t` can be given back: the steps of a cone below `stop`
signal `t`, and those of them that take a lock are `x` or precede it. -/
def Releasable (S : System A M T K) (stop : A → Nat) (lvl : Event A → Nat) (x : Event A) (t : T) :
    Prop :=
  ∃ upTo, Cone S upTo lvl ∧ (∀ a, upTo a ≤ stop a) ∧ (∃ y : Event A, y.2 < upTo y.1 ∧ S.Signals y t) ∧
    ∀ y : Event A, y.2 < upTo y.1 → ∀ l, S.Takes y l → y = x ∨ Must S y x

/-- A cone whose steps get their locks (module doc). -/
structure Plan (S : System A M T K) (stop : A → Nat) (lvl : Event A → Nat) : Prop extends
    Cone S stop lvl where
  free : ∀ e : Event A, e.2 < stop e.1 → ∀ l x l', S.Takes e l → S.Takes x l' → l.Clash l' → x ≠ e →
    Releasable S stop lvl x l'.rel

namespace Cone

variable (hc : Cone S stop lvl) {h : List (Event A)} (hr : S.Run h)
include hc hr

/-- What stands below a lowest unfinished step has happened. -/
theorem mem_of_min {a : A} (hmin : ∀ b, done h b < stop b → lvl (a, done h a) ≤ lvl (b, done h b))
    {x : Event A} (hx : x.2 < stop x.1) (hl : lvl x < lvl (a, done h a)) : x ∈ h := by
  obtain ⟨b, j⟩ := x
  rw [Run.mem_iff hr]
  by_contra hj
  change j < stop b at hx
  have hle : lvl (b, done h b) ≤ lvl (b, j) := by
    rcases Nat.eq_or_lt_of_le (Nat.le_of_not_lt hj) with he | hlt
    · rw [he]
    · exact Nat.le_of_lt (hc.mono b _ _ hlt hx)
  have := hmin b (by omega)
  omega

/-- Of the unfinished steps of a cone one is ready but for its locks. -/
theorem lowest (hu : ∃ a, done h a < stop a) : ∃ a s, done h a < stop a ∧
    S.step (a, done h a) = some s ∧ ((∀ l ∈ s.locks, ∀ x ∈ h, ∀ l', S.Takes x l' → l.Clash l' →
      S.Signalled h l'.rel) → S.Run ((a, done h a) :: h)) := by
  obtain ⟨a, ha, hmin⟩ := (measure fun a => lvl (a, done h a)).wf.has_min
    {a | done h a < stop a} hu
  have hmin : ∀ b, done h b < stop b → lvl (a, done h a) ≤ lvl (b, done h b) :=
    fun b hb => Nat.le_of_not_lt (hmin b hb)
  have hlen : done h a < (S.code a).length := Nat.lt_of_lt_of_le ha (hc.le a)
  have hs : S.step (a, done h a) = some (S.code a)[done h a] := by simp [step, hlen]
  refine ⟨a, _, ha, hs, fun hfree => .step hr hs ⟨fun t ht => ?_, fun hne => ?_, hfree⟩⟩
  · obtain ⟨x, hx, hsig, hl⟩ := hc.waits (a, done h a) ha t ⟨_, hs, ht⟩
    exact ⟨x, mem_of_min hc hr hmin hx hl, hsig⟩
  · obtain ⟨t, ht, x, hx, hsig, hl⟩ := hc.any (a, done h a) ha _ hs hne
    exact ⟨t, ht, x, mem_of_min hc hr hmin hx hl, hsig⟩

end Cone

/-- While a releasable lock is held, a step that helps to give it back is ready. -/
theorem Releasable.next {x : Event A} {t : T} (hrel : Releasable S stop lvl x t) {h : List (Event A)}
    (hr : S.Run h) (hx : x ∈ h) (ht : ¬ S.Signalled h t) :
    ∃ a, done h a < stop a ∧ S.Run ((a, done h a) :: h) := by
  obtain ⟨upTo, hc, hle, ⟨⟨b, j⟩, hj, hsig⟩, hlocks⟩ := hrel
  -- the release is an unfinished step of the cone
  have hu : ∃ a, done h a < upTo a := by
    refine ⟨b, ?_⟩
    by_contra hge
    change j < upTo b at hj
    exact ht ⟨(b, j), (Run.mem_iff hr b j).2 (by omega), hsig⟩
  obtain ⟨a, s, ha, hs, hnext⟩ := hc.lowest hr hu
  refine ⟨a, Nat.lt_of_lt_of_le ha (hle a), hnext fun l hl => ?_⟩
  rcases hlocks (a, done h a) ha l ⟨s, hs, hl⟩ with he | hm
  · exact absurd (he ▸ hx) (Run.fresh hr a)
  · exact absurd (hm.hb hr hx).mem.1 (Run.fresh hr a)

namespace Plan

/-- A run that has not performed the plan can make a step of it. -/
theorem next (hp : Plan S stop lvl) {h : List (Event A)} (hr : S.Run h)
    (hu : ∃ a, done h a < stop a) : ∃ a, done h a < stop a ∧ S.Run ((a, done h a) :: h) := by
  obtain ⟨a, s, ha, hs, hnext⟩ := hp.toCone.lowest hr hu
  by_cases hfree : ∀ l ∈ s.locks, ∀ x ∈ h, ∀ l', S.Takes x l' → l.Clash l' → S.Signalled h l'.rel
  · exact ⟨a, ha, hnext hfree⟩
  · push Not at hfree
    obtain ⟨l, hl, x, hx, l', hl', hclash, hheld⟩ := hfree
    refine (hp.free (a, done h a) ha l x l' ⟨s, hs, hl⟩ hl' hclash ?_).next hr hx hheld
    exact fun he => Run.fresh hr a (he ▸ hx)

/-- **Every run can be continued until the plan is performed.** -/
theorem reach (hp : Plan S stop lvl) (as : List A) (has : ∀ a, 0 < stop a → a ∈ as)
    {h : List (Event A)} (hr : S.Run h) :
    ∃ h', S.Run (h' ++ h) ∧ ∀ a, stop a ≤ done (h' ++ h) a := by
  by_cases hu : ∃ a, done h a < stop a
  · obtain ⟨a, ha, hr'⟩ := next hp hr hu
    have hdec : (as.map fun b => stop b - done ((a, done h a) :: h) b).sum <
        (as.map fun b => stop b - done h b).sum := by
      refine List.sum_lt_sum _ _ (fun b _ => ?_) ⟨a, has a (by omega), ?_⟩
      · by_cases hb : a = b
        · subst hb
          rw [done_cons_self]
          omega
        · rw [done_cons_ne _ hb]
      · simp only [done_cons_self]
        omega
    obtain ⟨h', hr'', hd⟩ := reach hp as has hr'
    exact ⟨h' ++ [(a, done h a)], by simpa using hr'', by simpa using hd⟩
  · exact ⟨[], hr, fun a => Nat.le_of_not_lt fun hlt => hu ⟨a, hlt⟩⟩
termination_by (as.map fun b => stop b - done h b).sum

end Plan

/-! ## A complete run as a plan -/

/-- The position of an event in a history. -/
def position (h : List (Event A)) (x : Event A) : Nat := h.reverse.idxOf x

theorem position_split {h₂ h₁ : List (Event A)} {e x : Event A} (he : e ∉ h₁) (hx : x ∈ h₁) :
    position (h₂ ++ e :: h₁) x < position (h₂ ++ e :: h₁) e := by
  have hrev : (h₂ ++ e :: h₁).reverse = h₁.reverse ++ e :: h₂.reverse := by simp
  rw [position, position, hrev, List.idxOf_append_of_mem (List.mem_reverse.2 hx),
    List.idxOf_append_of_notMem (fun hmem => he (List.mem_reverse.1 hmem)), List.idxOf_cons_self]
  exact Nat.lt_of_lt_of_le (List.idxOf_lt_length_iff.2 (List.mem_reverse.2 hx)) (Nat.le_add_right _ _)

/-- The events of a run are a cone. -/
theorem cone_of_run {h : List (Event A)} (hr : S.Run h) : Cone S (done h) (position h) where
  le a := by
    by_contra hlt
    have hmem : (a, (S.code a).length) ∈ h := (Run.mem_iff hr a _).2 (Nat.lt_of_not_le hlt)
    obtain ⟨s, hs⟩ := Run.step_of_mem hr hmem
    exact absurd (lt_length_of_step hs) (Nat.lt_irrefl _)
  mono a i j hij hj := by
    obtain ⟨h₂, h₁, s, rfl, hr₁, -, -⟩ := Run.split hr ((Run.mem_iff hr a j).2 hj)
    have hd : j < done ((a, j) :: h₁) a := (Run.mem_iff hr₁ a j).1 (.head _)
    have hi : (a, i) ∈ (a, j) :: h₁ := (Run.mem_iff hr₁ a i).2 (by omega)
    refine position_split (Run.head hr₁).1 ((List.mem_cons.1 hi).resolve_left fun he => ?_)
    simp only [Prod.mk.injEq, true_and] at he
    omega
  waits e he t := by
    rintro ⟨s', hs', ht⟩
    obtain ⟨h₂, h₁, s, heq, hr₁, hs, hready⟩ := Run.split hr ((Run.mem_iff hr e.1 e.2).2 he)
    obtain rfl : s = s' := Option.some.inj (hs.symm.trans hs')
    obtain ⟨x, hx, hsig⟩ := hready.all t ht
    refine ⟨x, (Run.mem_iff hr x.1 x.2).1 ?_, hsig, ?_⟩
    · rw [heq]
      exact List.mem_append_right _ (.tail _ hx)
    · rw [heq]
      exact position_split (Run.head hr₁).1 hx
  any e he s hs hne := by
    obtain ⟨h₂, h₁, s', heq, hr₁, hs', hready⟩ := Run.split hr ((Run.mem_iff hr e.1 e.2).2 he)
    obtain rfl : s' = s := Option.some.inj (hs'.symm.trans hs)
    obtain ⟨t, ht, x, hx, hsig⟩ := hready.any hne
    refine ⟨t, ht, x, (Run.mem_iff hr x.1 x.2).1 ?_, hsig, ?_⟩
    · rw [heq]
      exact List.mem_append_right _ (.tail _ hx)
    · rw [heq]
      exact position_split (Run.head hr₁).1 hx

/-- What a run has performed and what a closed set of its events has in common is a cone. -/
theorem cone_of_sole {h : List (Event A)} (hr : S.Run h) {upTo : A → Nat} (hle : ∀ a, upTo a ≤ done h a)
    (hwaits : ∀ e : Event A, e.2 < upTo e.1 → ∀ t, S.Waits e t → ∃ x, S.Sole x t ∧ x.2 < upTo x.1)
    (hany : ∀ e : Event A, e.2 < upTo e.1 → ∀ s, S.step e = some s → s.waitsAny = []) :
    Cone S upTo (position h) where
  le a := Nat.le_trans (hle a) ((cone_of_run hr).le a)
  mono a i j hij hj := (cone_of_run hr).mono a i j hij (Nat.lt_of_lt_of_le hj (hle a))
  waits e he t ht := by
    obtain ⟨x, -, hsig, hlt⟩ := (cone_of_run hr).waits e (Nat.lt_of_lt_of_le he (hle _)) t ht
    obtain ⟨y, hsole, hy⟩ := hwaits e he t ht
    rw [hsole x hsig] at hlt
    exact ⟨y, hy, hsole x hsig ▸ hsig, hlt⟩
  any e he s hs hne := absurd (hany e he s hs) hne

/-! ## Checking by execution -/

/-- `S` is `S₀` for the actors of `core`; the others signal nothing and take no locks. -/
structure Agrees (S₀ S : System A M T K) (core : List A) : Prop where
  code : ∀ a ∈ core, S.code a = S₀.code a
  quiet : ∀ a, a ∉ core → ∀ s ∈ S.code a, s.signals = [] ∧ s.locks = []

namespace Agrees

variable {S₀ : System A M T K} {core : List A} (ha : Agrees S₀ S core)
include ha

omit [DecidableEq A] in
theorem step {a : A} (hcore : a ∈ core) (i : Nat) : S.step (a, i) = S₀.step (a, i) := by
  rw [System.step, System.step, ha.code a hcore]

omit [DecidableEq A] in
theorem mem_core {x : Event A} {s : Step M T K} (hs : S.step x = some s)
    (hne : ¬ (s.signals = [] ∧ s.locks = [])) : x.1 ∈ core := by
  by_contra hn
  exact hne (ha.quiet x.1 hn s (List.mem_of_getElem? hs))

omit [DecidableEq A] in
theorem embeds : Embeds S₀ S core where
  waits a hcore i t := by
    rintro ⟨s, hs, ht⟩
    exact ⟨s, (ha.step hcore i).trans hs, ht⟩
  signals a _ i t _ y := by
    rintro ⟨s, hs, ht⟩
    have hcore : y.1 ∈ core := ha.mem_core hs fun h => by
      rw [h.1] at ht
      exact absurd ht List.not_mem_nil
    exact ⟨hcore, s, (ha.step hcore y.2).symm.trans hs, ht⟩
  takes a hcore i l := by
    rintro ⟨s, hs, hl⟩
    exact ⟨s, (ha.step hcore i).trans hs, hl⟩
  accesses a hcore i m := by
    rintro ⟨s, hs, hm⟩
    exact ⟨s, (ha.step hcore i).symm.trans hs, hm⟩

omit [DecidableEq A] in
theorem takes {x : Event A} {l : Lock K T} : S.Takes x l ↔ x.1 ∈ core ∧ S₀.Takes x l := by
  constructor
  · rintro ⟨s, hs, hl⟩
    have hcore : x.1 ∈ core := ha.mem_core hs fun h => by
      rw [h.2] at hl
      exact absurd hl List.not_mem_nil
    exact ⟨hcore, s, (ha.step hcore x.2).symm.trans hs, hl⟩
  · rintro ⟨hcore, s, hs, hl⟩
    exact ⟨s, (ha.step hcore x.2).trans hs, hl⟩

/-- A run of the actors of `core` is one of the whole system. -/
theorem run {h : List (Event A)} (hcore : ∀ e ∈ h, e.1 ∈ core) (hr : S₀.Run h) : S.Run h := by
  induction hr with
  | nil => exact .nil
  | @step h a s hr hs hy ih =>
    have hold : ∀ e ∈ h, e.1 ∈ core := fun e he => hcore e (.tail _ he)
    have signalled : ∀ {t}, S₀.Signalled h t → S.Signalled h t := by
      rintro t ⟨x, hx, s', hs', ht⟩
      exact ⟨x, hx, s', (ha.step (hold x hx) x.2).trans hs', ht⟩
    refine .step (ih hold) ((ha.step (hcore _ (.head _)) _).trans hs) ⟨fun t ht => ?_, fun hne => ?_, ?_⟩
    · exact signalled (hy.all t ht)
    · obtain ⟨t, ht, hsig⟩ := hy.any hne
      exact ⟨t, ht, signalled hsig⟩
    · exact fun l hl x hx l' hl' hclash => signalled (hy.free l hl x hx l' (ha.takes.1 hl').2 hclash)

end Agrees

section
variable [DecidableEq T] [DecidableEq K]

/-- What the steps in the clock `c` wait for is signalled by steps in `c`. -/
def closedB (S : System A M T K) (core : List A) (table : List (T × Event A)) (c : Clock A) : Bool :=
  core.all fun a => ((S.code a).take (c.get a)).all fun s => s.waitsAny.isEmpty &&
    s.waits.all fun t => (soleOf table t).any fun y => decide (y.2 < c.get y.1)

/-- The lock `q` is given back after steps that take no lock but those before it. -/
def releasableB (S : System A M T K) (core : List A) (fuel : Nat) (q : Lock K T × Event A) : Bool :=
  (soleOf (signalTable S core) q.1.rel).any fun u =>
    decide (u.2 < (past S (signalTable S core) fuel u).get u.1) &&
      closedB S core (signalTable S core) (past S (signalTable S core) fuel u) &&
      (entries S core Step.locks).all fun w =>
        !decide (w.2.2 < (past S (signalTable S core) fuel u).get w.2.1) || decide (w.2 = q.2) ||
          mustB S (signalTable S core) fuel w.2 q.2

/-- Clashing locks are releasable. -/
def freeB (S : System A M T K) (core : List A) (fuel : Nat) : Bool :=
  (entries S core Step.locks).all fun p => (entries S core Step.locks).all fun q =>
    decide (q.2 = p.2) || !decide (p.1.Clash q.1) || releasableB S core fuel q

/-- **The check**: an execution of the actors of `core` performs all their steps, and locks are free.
`x` is no event of theirs. -/
def completeB (S : System A M T K) (core : List A) (x : Event A) (rounds fuel : Nat) : Bool :=
  let c := drive S x x core rounds [] {}
  (core.all fun a => decide (done c.hist a = (S.code a).length)) &&
    (c.hist.all fun e => decide (e.1 ∈ core)) && freeB S core fuel

variable {S₀ : System A M T K} {core : List A} (ha : Agrees S₀ S core)
include ha

omit [DecidableEq K] in
/-- A closed clock that a run has performed is a cone. -/
theorem cone_of_closedB {h : List (Event A)} (hr : S.Run h) {c : Clock A}
    (hle : ∀ a, c.get a ≤ done h a) (hcore : ∀ a, 0 < c.get a → a ∈ core)
    (hc : closedB S₀ core (signalTable S₀ core) c = true) : Cone S c.get (position h) := by
  simp only [closedB, List.all_eq_true, Bool.and_eq_true, List.isEmpty_iff, Option.any_eq_true,
    decide_eq_true_eq] at hc
  have hat : ∀ (e : Event A) s, e.2 < c.get e.1 → S.step e = some s →
      s.waitsAny = [] ∧ ∀ t ∈ s.waits, ∃ y, soleOf (signalTable S₀ core) t = some y ∧
        y.2 < c.get y.1 := by
    intro e s he hs
    have hmem : e.1 ∈ core := hcore e.1 (Nat.zero_lt_of_lt he)
    refine hc e.1 hmem s ?_
    rw [ha.step hmem, System.step, ← List.getElem?_take_of_lt he] at hs
    exact List.mem_of_getElem? hs
  refine cone_of_sole hr hle ?_ fun e he s hs => (hat e s he hs).1
  rintro e he t ⟨s, hs, ht⟩
  obtain ⟨y, hsole, hy⟩ := (hat e s he hs).2 t ht
  exact ⟨y, (ha.embeds.sole hsole).2, hy⟩

omit [DecidableEq K] in
theorem releasable_of_releasableB {h : List (Event A)} (hr : S.Run h)
    (hall : ∀ a ∈ core, done h a = (S.code a).length) {fuel : Nat} {q : Lock K T × Event A}
    (hq : q.2.1 ∈ core) (hb : releasableB S₀ core fuel q = true) :
    Releasable S (done h) (position h) q.2 q.1.rel := by
  simp only [releasableB, Option.any_eq_true, Bool.and_eq_true, List.all_eq_true, Bool.or_eq_true,
    Bool.not_eq_true', decide_eq_false_iff_not, decide_eq_true_eq] at hb
  obtain ⟨u, hu, ⟨hself, hclosed⟩, hlocks⟩ := hb
  obtain ⟨hcore, -⟩ := ha.embeds.sole hu
  have hsig : S.Signals u q.1.rel := by
    obtain ⟨-, s, hs, ht⟩ := mem_entries.1 (mem_soleOf hu).1
    exact ⟨s, (ha.step hcore u.2).trans hs, ht⟩
  have hmem : ∀ x : Event A, x.1 ∈ core → (∃ s, S.step x = some s) → x ∈ h := by
    rintro x hx ⟨s, hs⟩
    rw [Run.mem_iff hr x.1 x.2, hall x.1 hx]
    exact lt_length_of_step hs
  have huh : u ∈ h := hmem u hcore (hsig.imp fun s hs => hs.1)
  have hup : ∀ a i, i < (past S₀ (signalTable S₀ core) fuel u).get a → a ∈ core ∧ UpTo S u (a, i) :=
    chase_sound ha.embeds fuel [u] [] (by simpa using ⟨hcore, .inl rfl⟩)
      fun _ _ h => by simp [Clock.get] at h
  have hle : ∀ a, (past S₀ (signalTable S₀ core) fuel u).get a ≤ done h a := by
    intro a
    by_contra hlt
    rcases (hup a (done h a) (by omega)).2 with he | hm
    · exact Run.fresh hr a (he ▸ huh)
    · exact Run.fresh hr a (hm.hb hr huh).mem.1
  refine ⟨_, cone_of_closedB ha hr hle (fun a h0 => (hup a 0 h0).1) hclosed, hle, ⟨u, hself, hsig⟩, ?_⟩
  intro y hy l hl
  obtain ⟨hyc, hl₀⟩ := ha.takes.1 hl
  rcases hlocks (l, y) (mem_entries.2 ⟨hyc, hl₀⟩) with (hlt | he) | hm
  · exact absurd hy hlt
  · exact .inl he
  · exact .inr (mustB_sound ha.embeds hq hm)

/-- **One execution shows that no other gets stuck**: every run can be continued until the actors of
`core` have performed all their steps. -/
theorem reach_of_completeB {x : Event A} {rounds fuel : Nat} (hb : completeB S₀ core x rounds fuel = true)
    {h : List (Event A)} (hr : S.Run h) :
    ∃ h', S.Run (h' ++ h) ∧ ∀ a ∈ core, done (h' ++ h) a = (S.code a).length := by
  simp only [completeB, freeB, Bool.and_eq_true, List.all_eq_true, decide_eq_true_eq, Bool.or_eq_true,
    Bool.not_eq_true', decide_eq_false_iff_not] at hb
  obtain ⟨⟨hall, hcore⟩, hfree⟩ := hb
  have hrun : S.Run (drive S₀ x x core rounds [] {}).hist :=
    ha.run hcore (Inv.drive Inv.init fun _ => rfl).run
  generalize (drive S₀ x x core rounds [] {}).hist = c at hall hcore hrun
  have hall : ∀ a ∈ core, done c a = (S.code a).length := fun a hm => by rw [hall a hm, ha.code a hm]
  have hplan : Plan S (done c) (position c) := by
    refine { cone_of_run hrun with free := fun e _ l x l' hl hl' hclash hne => ?_ }
    obtain ⟨hec, hl₀⟩ := ha.takes.1 hl
    obtain ⟨hxc, hl₀'⟩ := ha.takes.1 hl'
    rcases hfree (l, e) (mem_entries.2 ⟨hec, hl₀⟩) (l', x) (mem_entries.2 ⟨hxc, hl₀'⟩) with
      (he | hn) | hrel
    · exact absurd he hne
    · exact absurd hclash hn
    · exact releasable_of_releasableB ha hrun hall hxc hrel
  have has : ∀ a, 0 < done c a → a ∈ core := fun a h0 => hcore _ ((Run.mem_iff hrun a 0).2 h0)
  obtain ⟨h', hr', hd⟩ := hplan.reach core has hr
  refine ⟨h', hr', fun a hm => Nat.le_antisymm ((cone_of_run hr').le a) ?_⟩
  rw [← hall a hm]
  exact hd a

end

end Causal.System
