import RMARaceBench.Omp.Threads

/-!
# Runs that get to an item

`Approach P eff r pre items`: every rank starts with the sequential text `pre`, whose waits are
answered inside `pre`, and rank `r` goes on with `items`, of which none waits for more than a fork or a
task's creation in front of it. Then some run of the program executes all of `items`
(`Approach.reach`).
-/

set_option autoImplicit false

namespace Omp

open Causal Causal.System

variable {σ τ : Type}

/-- Behind the items `before` the item waits for nothing that is missing. -/
def Item.Free (size : Nat) (eff : Nat → σ → Effect τ) (before : List (Item σ)) (it : Item σ) : Prop :=
  match it.act with
  | .stmt s => ∀ k, (eff k s).waits = []
  | .fork => it.who = .every
  | .orderedBegin _ i => i = 0
  | .taskBegin j => ∃ t, t < size ∧ ⟨.thread t, .taskCreate j⟩ ∈ before
  | .leave | .taskWait => False
  | .enter | .orderedEnd _ _ | .taskCreate _ | .taskEnd _ => True

/-- All items of a text are free behind `before`. -/
def FreeText (size : Nat) (eff : Nat → σ → Effect τ) : List (Item σ) → List (Item σ) → Prop
  | _, [] => True
  | before, it :: items => it.Free size eff before ∧ FreeText size eff (before ++ [it]) items

theorem FreeText.get {size : Nat} {eff : Nat → σ → Effect τ} {before items : List (Item σ)}
    (h : FreeText size eff before items) {k : Nat} {it : Item σ} (hk : items[k]? = some it) :
    it.Free size eff (before ++ items.take k) := by
  induction items generalizing before k with
  | nil => cases hk
  | cons x items ih =>
    obtain ⟨hx, hrest⟩ := h
    cases k with
    | zero =>
      cases hk
      rw [List.take_zero, List.append_nil]
      exact hx
    | succ k =>
      have hget := ih hrest hk
      rwa [List.append_assoc] at hget

theorem FreeText.append {size : Nat} {eff : Nat → σ → Effect τ} {before items : List (Item σ)}
    {it : Item σ} (h : FreeText size eff before items) (hit : it.Free size eff (before ++ items)) :
    FreeText size eff before (items ++ [it]) := by
  induction items generalizing before with
  | nil =>
    rw [List.append_nil] at hit
    exact ⟨hit, trivial⟩
  | cons x items ih =>
    obtain ⟨hx, hrest⟩ := h
    refine ⟨hx, ih hrest ?_⟩
    rwa [List.append_assoc]

namespace Program

/-- The texts up to the end of `items` (module doc). -/
structure Approach (P : Program σ) (eff : Nat → Nat → σ → Effect τ) (r : Nat) (pre : List σ)
    (items : List (Item σ)) : Prop where
  rank : r < P.procs
  start : ∀ q, q < P.procs → ∃ rest, P.items q = seq pre ++ rest
  text : ∃ post, P.items r = seq pre ++ (items ++ post)
  waits : ∀ q, q < P.procs → ∀ k s, pre[k]? = some s → ∀ t ∈ (eff q k s).waits,
    ∃ q' k' s', q' < P.procs ∧ k' < k ∧ pre[k']? = some s' ∧ t ∈ (eff q' k' s').signals
  free : FreeText P.team.size (eff r) [] items

namespace Approach

variable {P : Program σ} {eff : Nat → Nat → σ → Effect τ} {r : Nat} {pre : List σ}
  {items : List (Item σ)} {a : Actor}

/-- The steps that the run is to make: those of `a` and of the threads of rank `r` up to the end of
`items`, those of the other ranks' threads up to the end of `pre`. -/
def stop (P : Program σ) (a : Actor) (m n : Nat) (b : Actor) : Nat :=
  if b = a then n
  else match b with
    | .thread q t => if q < P.procs ∧ t < P.team.size then if q = a.rank then n else m else 0
    | .task _ _ => 0

/-- The initial thread is first at every position. -/
def level (x : Event Actor) : Nat := 2 * x.2 + if x.1 = .thread x.1.rank 0 then 0 else 1

theorem level_lt {x y : Event Actor} (h : x.2 < y.2) : level x < level y := by
  unfold level
  split <;> split <;> omega

theorem level_initial (q k : Nat) : level (.thread q 0, k) = 2 * k := by
  simp [level, Actor.rank]

theorem level_of_ne {a : Actor} (ha : a ≠ .thread a.rank 0) (k : Nat) : level (a, k) = 2 * k + 1 := by
  rw [level, if_neg ha]

theorem rank_of_stop (ha : P.hasActor a = true) (har : a.rank = r) {m n : Nat} {b : Actor} {i : Nat}
    (hi : i < stop P a m n b) :
    P.hasActor b = true ∧ (i < m ∨ b.rank = r ∧ i < n) := by
  unfold stop at hi
  split at hi
  · rename_i hb
    exact ⟨hb ▸ ha, .inr ⟨hb ▸ har, hi⟩⟩
  · cases b with
    | thread q t =>
      change i < ite _ _ _ at hi
      split at hi
      · rename_i hqt
        refine ⟨decide_eq_true hqt, ?_⟩
        split at hi
        · rename_i hq
          exact .inr ⟨hq.trans har, hi⟩
        · exact .inl hi
      · omega
    | task q j =>
      change i < 0 at hi
      omega

theorem stop_thread (har : a.rank = r) {m n q t i : Nat} (hq : q < P.procs) (ht : t < P.team.size)
    (hmn : m ≤ n) (hi : i < m ∨ q = r ∧ i < n) : i < stop P a m n (.thread q t) := by
  unfold stop
  split
  · omega
  · change i < ite _ _ _
    rw [if_pos ⟨hq, ht⟩, har]
    split
    · omega
    · rename_i hne
      exact hi.resolve_right fun h => hne h.1

theorem rank_of_hasActor {b : Actor} (hb : P.hasActor b = true) : b.rank < P.procs := by
  cases b with
  | thread q t => exact (of_decide_eq_true hb).1
  | task q j => exact of_decide_eq_true hb

/-- What the actors perform up to the end of `items`. -/
theorem performed_cases (hp : Approach P eff r pre items) {b : Actor} (hb : P.hasActor b = true) {i : Nat}
    (hi : i < pre.length ∨ b.rank = r ∧ i < pre.length + items.length) {act : Act σ}
    (hact : P.performed (b, i) = some act) :
    (∃ s, pre[i]? = some s ∧ act = .stmt s) ∨
      ∃ k it, i = pre.length + k ∧ b.rank = r ∧ items[k]? = some it ∧ b.runs it.who = true ∧
        it.act = act := by
  obtain ⟨it, hit, hruns, hact⟩ := performed_iff.1 hact
  change (P.items b.rank)[i]? = some it at hit
  by_cases hlt : i < pre.length
  · obtain ⟨rest, hrest⟩ := hp.start _ (rank_of_hasActor hb)
    rw [hrest, getElem?_seq_left hlt] at hit
    obtain ⟨s, hs, rfl⟩ := Option.map_eq_some_iff.1 hit
    exact .inl ⟨s, hs, hact.symm⟩
  · obtain ⟨hbr, hi⟩ := hi.resolve_left hlt
    obtain ⟨post, hpost⟩ := hp.text
    rw [hbr, hpost, getElem?_seq_right (by omega), List.getElem?_append_left (by omega)] at hit
    exact .inr ⟨i - pre.length, it, by omega, hbr, hit, hruns, hact⟩

/-- The initial thread of every rank performs `pre`. -/
theorem performed_pre (hp : Approach P eff r pre items) {q k : Nat} (hq : q < P.procs) {s : σ}
    (hs : pre[k]? = some s) : P.performed (.thread q 0, k) = some (.stmt s) := by
  obtain ⟨rest, hrest⟩ := hp.start q hq
  refine performed_iff.2 ⟨⟨.initial, .stmt s⟩, ?_, rfl, rfl⟩
  rw [show (Actor.thread q 0).rank = q from rfl, hrest,
    getElem?_seq_left (List.getElem?_eq_some_iff.1 hs).1, hs]
  rfl

theorem performed_items (hp : Approach P eff r pre items) {b : Actor} (hb : b.rank = r) {k : Nat}
    {it : Item σ} (hit : items[k]? = some it) (hruns : b.runs it.who = true) :
    P.performed (b, pre.length + k) = some it.act := by
  obtain ⟨post, hpost⟩ := hp.text
  have hlt := (List.getElem?_eq_some_iff.1 hit).1
  refine performed_iff.2 ⟨it, ?_, hruns, rfl⟩
  rw [hb, hpost, getElem?_seq_right (Nat.le_add_right _ _), Nat.add_sub_cancel_left,
    List.getElem?_append_left hlt, hit]

theorem performed_actor {x : Event Actor} {act : Act σ} (h : P.performed x = some act)
    (hx : P.hasActor x.1 = true) {t : Token τ} (ht : t ∈ (P.actStep eff x.1 x.2 act).signals) :
    (P.system eff).Signals x t := ⟨_, step_of_performed hx h, ht⟩

theorem mem_signals_fork (q k : Nat) :
    .fork q k ∈ (P.actStep eff (.thread q 0) k .fork).signals := by
  rw [actStep, if_pos (show Actor.thread q 0 = .thread (Actor.thread q 0).rank 0 from rfl)]
  exact List.mem_singleton.2 rfl

/-- What a step of the run waits for is signalled by an earlier one. -/
theorem waits_below (hp : Approach P eff r pre items) (ha : P.hasActor a = true) (har : a.rank = r)
    {e : Event Actor} (he : e.2 < stop P a pre.length (pre.length + items.length) e.1) {act : Act σ}
    (hact : P.performed e = some act) {t : Token τ} (ht : t ∈ (P.actStep eff e.1 e.2 act).waits) :
    ∃ x : Event Actor, x.2 < stop P a pre.length (pre.length + items.length) x.1 ∧
      (P.system eff).Signals x t ∧ level x < level e := by
  obtain ⟨b, i⟩ := e
  obtain ⟨hb, hi⟩ := rank_of_stop ha har he
  have hthread : ∀ {q u}, q < P.procs → u < P.team.size → P.hasActor (.thread q u) = true :=
    fun hq hu => decide_eq_true ⟨hq, hu⟩
  rcases performed_cases hp hb hi hact with ⟨s, hs, rfl⟩ | ⟨k, it, rfl, hbr, hit, hruns, rfl⟩
  · obtain ⟨u, hu, rfl⟩ := List.mem_map.1 ht
    obtain ⟨q', k', s', hq', hk', hs', ht'⟩ := hp.waits _ (rank_of_hasActor hb) i s hs u hu
    have hlt := (List.getElem?_eq_some_iff.1 hs').1
    refine ⟨(.thread q' 0, k'), ?_, ?_, level_lt hk'⟩
    · exact stop_thread har hq' P.team.pos (Nat.le_add_right _ _) (.inl hlt)
    · exact performed_actor (performed_pre hp hq' hs') (hthread hq' P.team.pos)
        (List.mem_map.2 ⟨u, ht', rfl⟩)
  · have hfree := hp.free.get hit
    have hlt := (List.getElem?_eq_some_iff.1 hit).1
    unfold Item.Free at hfree
    cases hact' : it.act with
    | stmt s =>
      rw [hact'] at hfree ht
      rw [actStep, show (eff b.rank (pre.length + k) s).waits = [] from hbr ▸ hfree _] at ht
      cases ht
    | fork =>
      rw [hact'] at hfree ht
      by_cases hb0 : b = .thread b.rank 0
      · rw [actStep, if_pos hb0] at ht
        cases ht
      · rw [actStep, if_neg hb0, List.mem_singleton] at ht
        subst ht
        refine ⟨(.thread b.rank 0, pre.length + k), ?_, ?_, ?_⟩
        · exact stop_thread har (hbr ▸ hp.rank) P.team.pos (Nat.le_add_right _ _)
            (.inr ⟨hbr, Nat.add_lt_add_left hlt _⟩)
        · have hperf := performed_items hp (b := .thread b.rank 0) hbr hit
            (by rw [show it.who = .every from hfree]; rfl)
          rw [hact'] at hperf
          exact performed_actor hperf (hthread (hbr ▸ hp.rank) P.team.pos) (mem_signals_fork _ _)
        · rw [level_initial, level_of_ne hb0]
          exact Nat.lt_succ_self _
    | orderedBegin loop n =>
      rw [hact'] at hfree ht
      rw [actStep, if_pos hfree] at ht
      cases ht
    | taskBegin j =>
      rw [hact'] at hfree ht
      obtain ⟨u, hu, hcreate⟩ := hfree
      rw [actStep, List.mem_singleton] at ht
      subst ht
      obtain ⟨k', hk'⟩ := List.mem_iff_getElem?.1 hcreate
      obtain ⟨hlt', hk'⟩ : k' < k ∧ items[k']? = some ⟨.thread u, .taskCreate j⟩ := by
        rw [List.nil_append, List.getElem?_take] at hk'
        exact Option.ite_none_right_eq_some.1 hk'
      refine ⟨(.thread b.rank u, pre.length + k'), ?_, ?_, level_lt (Nat.add_lt_add_left hlt' _)⟩
      · exact stop_thread har (hbr ▸ hp.rank) hu (Nat.le_add_right _ _) (.inr ⟨hbr, by omega⟩)
      · have hperf := performed_items hp (b := .thread b.rank u) hbr hk' (beq_iff_eq.2 rfl)
        exact performed_actor hperf (hthread (hbr ▸ hp.rank) hu) (List.mem_singleton.2 rfl)
    | leave => rw [hact'] at hfree; exact hfree.elim
    | taskWait => rw [hact'] at hfree; exact hfree.elim
    | enter | orderedEnd | taskCreate | taskEnd =>
      rw [hact'] at ht
      cases ht

theorem cut (hp : Approach P eff r pre items) (ha : P.hasActor a = true) (har : a.rank = r) :
    Cut (P.system eff) (stop P a pre.length (pre.length + items.length)) level := by
  have hnone : ∀ e s, (P.system eff).step e = some s → s.waitsAny = [] := by
    intro e s hs
    rcases step_cases hs with ⟨act, -, rfl⟩ | rfl
    · unfold actStep
      split
      case h_2 => split <;> rfl
      all_goals rfl
    · rfl
  constructor
  · intro b
    by_contra hlt
    obtain ⟨hb, hi⟩ := rank_of_stop ha har (Nat.lt_of_not_le hlt)
    have hlen : ((P.system eff).code b).length = (P.items b.rank).length := by
      change (P.code eff b).length = _
      rw [code, if_pos hb, List.length_mapIdx]
    rcases hi with hi | ⟨hbr, hi⟩
    · obtain ⟨rest, hrest⟩ := hp.start b.rank (rank_of_hasActor hb)
      rw [hlen, hrest, List.length_append, length_seq] at hi
      omega
    · obtain ⟨post, hpost⟩ := hp.text
      rw [hlen, hbr, hpost, List.length_append, List.length_append, length_seq] at hi
      omega
  · exact fun _ _ _ hij _ => level_lt hij
  · rintro e he t ⟨s, hs, ht⟩
    rcases step_cases hs with ⟨act, hact, rfl⟩ | rfl
    · exact waits_below hp ha har he hact ht
    · cases ht
  · exact fun e _ s hs hne => absurd (hnone e s hs) hne
  · exact fun _ _ l => l.key.elim

/-- **The run**: the actor gets to the end of `items`. -/
theorem reach (hp : Approach P eff r pre items) (ha : P.hasActor a = true) (har : a.rank = r) :
    ∃ h, (P.system eff).Run h ∧ ∀ k, k < pre.length + items.length → (a, k) ∈ h := by
  have hall : ∀ b, 0 < stop P a pre.length (pre.length + items.length) b →
      b ∈ a :: (List.range P.procs).flatMap fun q => (List.range P.team.size).map (.thread q) := by
    intro b hb
    by_cases hba : b = a
    · exact List.mem_cons.2 (.inl hba)
    · obtain ⟨hact, -⟩ := rank_of_stop ha har hb
      cases b with
      | thread q t =>
        obtain ⟨hq, ht⟩ := of_decide_eq_true hact
        exact List.mem_cons_of_mem _ (List.mem_flatMap.2 ⟨q, List.mem_range.2 hq,
          List.mem_map.2 ⟨t, List.mem_range.2 ht, rfl⟩⟩)
      | task q j =>
        rw [stop, if_neg hba] at hb
        exact absurd hb (Nat.lt_irrefl 0)
  obtain ⟨h, hr, hd⟩ := (cut hp ha har).reach _ hall .nil fun b => Nat.zero_le _
  refine ⟨_, hr, fun k hk => (Run.mem_iff hr _ _).2 ?_⟩
  have hstop : stop P a pre.length (pre.length + items.length) a = pre.length + items.length :=
    if_pos rfl
  rw [hd, hstop]
  exact hk

end Approach

end Program

end Omp
