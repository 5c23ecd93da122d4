import RMARaceBench.Shmem.Semantics

/-!
# Orders of SHMEM programs

What the steps of a program are (`step_pe`, `step_update`), which event signals which token
(`Emits`), and the orders that hold in every run: from the issue of an update to the update
(`must_issue`), from an update to what waits for it (`must_returned`, `must_complete`, `must_fence`)
and across the collective routines (`must_bar`, `must_team`).
-/

set_option autoImplicit false

namespace Shmem

open Causal Causal.System

/-- The calls that wait for the updates of the context `c`. -/
def Stmt.completes (c : Ctx) : Stmt → Bool
  | .quiet | .barrierEnter => c == .default
  | .ctxQuiet c' | .ctxDestroy c' => c' == c
  | _ => false

/-- The updates that a text issues, with their positions. -/
def updatesOf (text : List Stmt) : List (Nat × Update) :=
  text.zipIdx.filterMap fun p => p.1.update?.map (p.2, ·)

theorem Stmt.update?_eq {st : Stmt} {u : Update} : st.update? = some u ↔ st = .issue u := by
  cases st <;> simp [Stmt.update?]

theorem mem_updatesOf {text : List Stmt} {k : Nat} {u : Update} :
    (k, u) ∈ updatesOf text ↔ text[k]? = some (.issue u) := by
  rw [updatesOf, Text.mem_picked]
  constructor
  · rintro ⟨st, hst, hu⟩
    rwa [← Stmt.update?_eq.1 hu]
  · intro hk
    exact ⟨_, hk, rfl⟩

theorem updatesOf_eq_nil {text : List Stmt} (h : ∀ u, .issue u ∉ text) : updatesOf text = [] := by
  refine List.eq_nil_iff_forall_not_mem.2 fun ⟨k, u⟩ hu => h u ?_
  exact List.mem_of_getElem? (mem_updatesOf.1 hu)

namespace Program

variable {P : Program} {r r' k k' i q : Nat} {u u' : Update} {st : Stmt} {s : SStep} {t : Token}
  {a : Actor} {f : Flag}

/-! ## Steps -/

theorem step_pe : P.system.step (.pe r, k) = some s ↔
    r < P.pes ∧ ∃ st, (P.text r)[k]? = some st ∧ s = P.stmtStep r k st := by
  simp only [step, system, code]
  split
  · rename_i hr
    rw [List.getElem?_mapIdx, Option.map_eq_some_iff]
    simp only [hr, true_and, eq_comm]
  · rename_i hr
    simp [hr]

theorem step_update : P.system.step (.update r k, i) = some s ↔
    r < P.pes ∧ ∃ u, P.updateAt r k = some u ∧ (P.updateCode r k u)[i]? = some s := by
  simp only [step, system, code]
  split
  · rename_i hr
    cases P.updateAt r k <;> simp [hr]
  · rename_i hr
    simp [hr]

theorem updateCode_cases (h : (P.updateCode r k u)[i]? = some s) :
    i = 0 ∧ s = { waits := [.issued r k], accs := u.source.toList.map fun x => ⟨r, x, false, false⟩,
                  signals := [.localDone r k] } ∨
    i = 1 ∧ s = { waits := (P.fencedBefore r k u).map (.done r),
                  accs := u.dest.toList.map fun x => ⟨u.target, x, true, u.atomic⟩ } ∨
    i = 2 ∧ s = { signals := .done r k :: u.flag.toList.map (.raised u.target) } := by
  rcases i with _ | _ | _ | i
  · exact .inl ⟨rfl, by simpa [updateCode] using h.symm⟩
  · exact .inr (.inl ⟨rfl, by simpa [updateCode] using h.symm⟩)
  · exact .inr (.inr ⟨rfl, by simpa [updateCode] using h.symm⟩)
  · simp [updateCode] at h

theorem updateAt_eq : P.updateAt r k = some u ↔ (P.text r)[k]? = some (.issue u) := by
  simp [updateAt, Option.bind_eq_some_iff, Stmt.update?_eq]

theorem mem_updatesBefore {p : Update → Bool} (hk : P.updateAt r k = some u) (hp : p u = true)
    (hkq : k < q) : k ∈ P.updatesBefore r q p :=
  Text.mem_before_of (updateAt_eq.1 hk) (by simpa [Stmt.update?] using hp) hkq

/-- The step of PE `r` at a statement of its text. -/
theorem at_step (hr : r < P.pes) (hk : (P.text r)[k]? = some st) :
    P.system.step (.pe r, k) = some (P.stmtStep r k st) :=
  step_pe.2 ⟨hr, st, hk, rfl⟩

theorem at_waits (hr : r < P.pes) (hk : (P.text r)[k]? = some st)
    (ht : t ∈ (P.stmtStep r k st).waits) : P.system.Waits (.pe r, k) t :=
  ⟨_, at_step hr hk, ht⟩

/-! ## Signals -/

/-- The event `(a, i)` may signal a token of this kind. -/
def Emits (P : Program) (a : Actor) (i : Nat) : Token → Prop
  | .issued r k => a = .pe r ∧ i = k
  | .localDone r k => a = .update r k ∧ i = 0
  | .done r k => a = .update r k ∧ i = 2
  | .bar r c =>
    a = .pe r ∧ (P.text r)[i]? = some .barrierEnter ∧ c = P.countBefore r i .barrierEnter
  | .team r c =>
    a = .pe r ∧ (P.text r)[i]? = some .teamSyncEnter ∧ c = P.countBefore r i .teamSyncEnter
  | .raised r f =>
    ∃ r' k u, a = .update r' k ∧ i = 2 ∧ r' < P.pes ∧ P.updateAt r' k = some u ∧ u.target = r ∧
      u.flag = some f

theorem emits_of_stmtStep (hk : (P.text r)[k]? = some st) (h : t ∈ (P.stmtStep r k st).signals) :
    P.Emits (.pe r) k t := by
  cases st
  all_goals simp only [stmtStep, List.not_mem_nil, List.mem_singleton] at h
  all_goals subst h
  · exact ⟨rfl, rfl⟩
  · exact ⟨rfl, hk, rfl⟩
  · exact ⟨rfl, hk, rfl⟩

/-- **Who signals what.** -/
theorem emits_of_signals (h : P.system.Signals (a, i) t) : P.Emits a i t := by
  obtain ⟨s, hs, ht⟩ := h
  cases a with
  | pe r =>
    obtain ⟨-, st, hst, rfl⟩ := step_pe.1 hs
    exact emits_of_stmtStep hst ht
  | update r k =>
    obtain ⟨hr, u, hu, hc⟩ := step_update.1 hs
    rcases updateCode_cases hc with ⟨rfl, rfl⟩ | ⟨rfl, rfl⟩ | ⟨rfl, rfl⟩
    · rw [List.mem_singleton.1 ht]
      exact ⟨rfl, rfl⟩
    · simp at ht
    · simp only [List.mem_cons, List.mem_map, Option.mem_toList] at ht
      rcases ht with rfl | ⟨f, hf, rfl⟩
      · exact ⟨rfl, rfl⟩
      · exact ⟨r, k, u, rfl, rfl, hr, hu, rfl, hf⟩

theorem sole_issued : P.system.Sole (.pe r, k) (.issued r k) := by
  rintro ⟨a, i⟩ hy
  obtain ⟨rfl, rfl⟩ := emits_of_signals hy
  rfl

theorem sole_localDone : P.system.Sole (.update r k, 0) (.localDone r k) := by
  rintro ⟨a, i⟩ hy
  obtain ⟨rfl, rfl⟩ := emits_of_signals hy
  rfl

theorem sole_done : P.system.Sole (.update r k, 2) (.done r k) := by
  rintro ⟨a, i⟩ hy
  obtain ⟨rfl, rfl⟩ := emits_of_signals hy
  rfl

theorem countBefore_inj (hk : (P.text r)[k]? = some st) (hq : (P.text r)[q]? = some st)
    (h : P.countBefore r k st = P.countBefore r q st) : k = q :=
  Text.countBefore_inj (p := (· == st)) hk (beq_self_eq_true st) hq (beq_self_eq_true st) h

theorem sole_bar (hk : (P.text r)[k]? = some .barrierEnter) :
    P.system.Sole (.pe r, k) (.bar r (P.countBefore r k .barrierEnter)) := by
  rintro ⟨a, i⟩ hy
  obtain ⟨rfl, hi, hc⟩ := emits_of_signals hy
  rw [countBefore_inj hk hi hc]

theorem sole_team (hk : (P.text r)[k]? = some .teamSyncEnter) :
    P.system.Sole (.pe r, k) (.team r (P.countBefore r k .teamSyncEnter)) := by
  rintro ⟨a, i⟩ hy
  obtain ⟨rfl, hi, hc⟩ := emits_of_signals hy
  rw [countBefore_inj hk hi hc]

theorem total : P.system.Total := by
  rintro h e s hs ⟨t, ht, x, hx, hsig⟩
  exact ⟨t, ht, x, hx, hsig, trivial⟩

/-! ## Orders -/

/-- An update follows its issue. -/
theorem must_issue (hr : r < P.pes) (hk : P.updateAt r k = some u) :
    Must P.system (.pe r, k) (.update r k, 0) :=
  .sync sole_issued ⟨_, step_update.2 ⟨hr, u, hk, rfl⟩, .head _⟩

theorem must_update (hr : r < P.pes) (hk : P.updateAt r k = some u) :
    Must P.system (.pe r, k) (.update r k, i) :=
  (must_issue hr hk).order_right (Nat.zero_le i)

/-- A blocking put has read its source when it returns. -/
theorem must_returned (hr : r < P.pes) (hk : (P.text r)[k + 1]? = some .returned) :
    Must P.system (.update r k, 0) (.pe r, k + 1) :=
  .sync sole_localDone (at_waits hr hk (.head _))

/-- **Completion**: a call that waits for a context follows the updates of the context. -/
theorem must_complete (hr : r < P.pes) (hk : P.updateAt r k = some u) (hkq : k < q)
    (st : Stmt) (hq : (P.text r)[q]? = some st) (hst : st.completes u.ctx = true) :
    Must P.system (.update r k, 2) (.pe r, q) := by
  refine .sync sole_done (at_waits hr hq ?_)
  cases st with
  | quiet =>
    simp only [Stmt.completes] at hst
    exact List.mem_map_of_mem (mem_updatesBefore hk hst hkq)
  | barrierEnter =>
    simp only [Stmt.completes] at hst
    exact List.mem_map_of_mem (mem_updatesBefore hk hst hkq)
  | ctxQuiet c =>
    simp only [Stmt.completes, beq_iff_eq] at hst
    exact List.mem_map_of_mem (mem_updatesBefore hk (by simp [hst]) hkq)
  | ctxDestroy c =>
    simp only [Stmt.completes, beq_iff_eq] at hst
    exact List.mem_map_of_mem (mem_updatesBefore hk (by simp [hst]) hkq)
  | _ => cases hst

/-- **Fence**: an update is delivered after the updates of the same target before the fence. -/
theorem must_fence (hr : r < P.pes) (hk : P.updateAt r k = some u) (hk' : P.updateAt r k' = some u')
    (hu : u.ctx = .default) (hu' : u'.ctx = .default) (ht : u.target = u'.target)
    (hq : (P.text r)[q]? = some .fence) (hkq : k < q) (hqk : q < k') :
    Must P.system (.update r k, 2) (.update r k', 1) := by
  refine .sync sole_done ⟨_, step_update.2 ⟨hr, u', hk', rfl⟩, List.mem_map_of_mem ?_⟩
  refine List.mem_filter.2 ⟨mem_updatesBefore hk (by simp [hu, hu', ht]) (by omega), ?_⟩
  simp only [fencedFrom, List.any_eq_true, List.mem_range, Bool.and_eq_true, decide_eq_true_eq,
    beq_iff_eq]
  exact ⟨q, hqk, hkq, hq⟩

/-- **A barrier of all PEs.** -/
theorem must_bar (hr : r < P.pes) (hr' : r' < P.pes) (hk : (P.text r)[k]? = some .barrierEnter)
    (hk' : (P.text r')[k']? = some .barrierLeave)
    (hc : P.countBefore r k .barrierEnter = P.countBefore r' k' .barrierLeave) :
    Must P.system (.pe r, k) (.pe r', k') :=
  .round (sole_bar hk) (List.mem_range.2 hr) (fun _ ht => at_waits hr' hk' ht) hc

/-- **A synchronization of a team** orders its members. -/
theorem must_team (members : List Nat) (hm : r ∈ members) (hr' : r' < P.pes)
    (hk : (P.text r)[k]? = some .teamSyncEnter)
    (hk' : (P.text r')[k']? = some (.teamSyncLeave members))
    (hc : P.countBefore r k .teamSyncEnter = P.countBefore r' k' (.teamSyncLeave members)) :
    Must P.system (.pe r, k) (.pe r', k') :=
  .round (sole_team hk) hm (fun _ ht => at_waits hr' hk' ht) hc

/-- A statement that waits for a flag follows the only update that sets it. -/
theorem must_raised (hr : r < P.pes) (st : Stmt) (hk : (P.text r)[q]? = some st)
    (hst : (P.stmtStep r q st).waitsAny = [.raised r f])
    (huniq : ∀ r' k' u', r' < P.pes → P.updateAt r' k' = some u' → u'.target = r →
      u'.flag = some f → a = .update r' k') :
    Must P.system (a, 2) (.pe r, q) := by
  refine .any total (at_step hr hk) (by rw [hst]; simp) fun t ht y hy => .inl ?_
  rw [hst, List.mem_singleton] at ht
  subst ht
  obtain ⟨r', k', u', hy1, hy2, hr', hu', ht', hf'⟩ := emits_of_signals (a := y.1) (i := y.2) hy
  rw [huniq r' k' u' hr' hu' ht' hf', ← hy1, ← hy2]

end Program

end Shmem
