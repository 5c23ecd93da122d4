import RMARaceBench.Gaspi.Semantics

/-!
# Orders of GASPI programs

What the steps of a program are (`step_rank`, `step_op`), which event signals which token (`Emits`),
and the orders that hold in every run: from the post of an operation to the operation (`must_post`),
from the data of a read to a `gaspi_wait` (`must_wait`), from data to a later notification of the same
target (`must_notify`), from a notification to a wait for its slot (`must_waitsome`) and across the
collective routines (`must_bar`, `must_allreduce`).
-/

set_option autoImplicit false

namespace Gaspi

open Causal Causal.System

/-- The operations that a text posts, with their positions. -/
def postsOf (text : List Stmt) : List (Nat × Post) :=
  text.zipIdx.filterMap fun p => p.1.post?.map (p.2, ·)

theorem Stmt.post?_eq {st : Stmt} {p : Post} : st.post? = some p ↔ st = .post p := by
  cases st <;> simp [Stmt.post?]

theorem mem_postsOf {text : List Stmt} {k : Nat} {p : Post} :
    (k, p) ∈ postsOf text ↔ text[k]? = some (.post p) := by
  rw [postsOf, Text.mem_picked]
  constructor
  · rintro ⟨st, hst, hp⟩
    rwa [← Stmt.post?_eq.1 hp]
  · intro hk
    exact ⟨_, hk, rfl⟩

theorem postsOf_eq_nil {text : List Stmt} (h : ∀ p, .post p ∉ text) : postsOf text = [] := by
  refine List.eq_nil_iff_forall_not_mem.2 fun ⟨k, p⟩ hp => h p ?_
  exact List.mem_of_getElem? (mem_postsOf.1 hp)

namespace Program

variable {P : Program} {o : Observation P} {r r' k k' i q : Nat} {p p' : Post} {st : Stmt}
  {s : GStep} {t : Token} {a : Actor} {m : Access}

/-! ## Steps -/

theorem step_rank : (P.system o).step (.rank r, k) = some s ↔
    r < P.ranks ∧ ∃ st, (P.text r)[k]? = some st ∧ s = P.stmtStep r k st := by
  simp only [step, system, code]
  split
  · rename_i hr
    rw [List.getElem?_mapIdx, Option.map_eq_some_iff]
    simp only [hr, true_and, eq_comm]
  · rename_i hr
    simp [hr]

theorem step_op : (P.system o).step (.op r k, i) = some s ↔
    r < P.ranks ∧ ∃ p, P.postAt r k = some p ∧ (P.opCode r k p)[i]? = some s := by
  simp only [step, system, code]
  split
  · rename_i hr
    cases P.postAt r k <;> simp [hr]
  · rename_i hr
    simp [hr]

theorem opCode_cases (h : (P.opCode r k p)[i]? = some s) :
    i = 0 ∧ s = { waits := [.posted r k], accs := reads r p,
                  signals := if p.isRead then [] else [.localDone r k] } ∨
    i = 1 ∧ s = { accs := writes r p,
                  signals := .delivered r k :: if p.isRead then [.localDone r k] else [] } ∨
    i = 2 ∧ s = { waits := if p.slot.isSome then
                    (P.postsBefore r k fun q => q.target == p.target && q.data.isSome).map
                      (.delivered r) else [],
                  signals := p.slot.toList.map (.slot p.target) } := by
  rcases i with _ | _ | _ | i
  · exact .inl ⟨rfl, (Option.some.inj h).symm⟩
  · exact .inr (.inl ⟨rfl, (Option.some.inj h).symm⟩)
  · exact .inr (.inr ⟨rfl, (Option.some.inj h).symm⟩)
  · cases h

theorem postAt_eq : P.postAt r k = some p ↔ (P.text r)[k]? = some (.post p) := by
  simp [postAt, Option.bind_eq_some_iff, Stmt.post?_eq]

theorem mem_postsBefore {f : Post → Bool} (hk : P.postAt r k = some p) (hp : f p = true)
    (hkq : k < q) : k ∈ P.postsBefore r q f :=
  Text.mem_before_of (postAt_eq.1 hk) (by simpa [Stmt.post?] using hp) hkq

/-- The step of rank `r` at a statement of its text. -/
theorem at_step (hr : r < P.ranks) (hk : (P.text r)[k]? = some st) :
    (P.system o).step (.rank r, k) = some (P.stmtStep r k st) :=
  step_rank.2 ⟨hr, st, hk, rfl⟩

theorem at_waits (hr : r < P.ranks) (hk : (P.text r)[k]? = some st)
    (ht : t ∈ (P.stmtStep r k st).waits) : (P.system o).Waits (.rank r, k) t :=
  ⟨_, at_step hr hk, ht⟩

/-! ## Signals -/

/-- The event `(a, i)` may signal a token of this kind. -/
def Emits (P : Program) (a : Actor) (i : Nat) : Token → Prop
  | .posted r k => a = .rank r ∧ i = k
  | .localDone r k => a = .op r k ∧ ∃ p, P.postAt r k = some p ∧ i = if p.isRead then 1 else 0
  | .delivered r k => a = .op r k ∧ i = 1
  | .slot r j => ∃ r' k p, a = .op r' k ∧ i = 2 ∧ r' < P.ranks ∧ P.postAt r' k = some p ∧
      p.target = r ∧ p.slot = some j
  | .bar r c =>
    a = .rank r ∧ (P.text r)[i]? = some .barrierEnter ∧ c = P.countBefore r i .barrierEnter
  | .allreduce r c =>
    a = .rank r ∧ (P.text r)[i]? = some .allreduceEnter ∧ c = P.countBefore r i .allreduceEnter
  | .sent r dst => a = .rank r ∧ r < P.ranks ∧ (P.text r)[i]? = some (.passiveSend dst)

theorem emits_of_stmtStep (hr : r < P.ranks) (hk : (P.text r)[k]? = some st)
    (h : t ∈ (P.stmtStep r k st).signals) : P.Emits (.rank r) k t := by
  cases st
  all_goals simp only [stmtStep, List.not_mem_nil, List.mem_singleton] at h
  all_goals subst h
  · exact ⟨rfl, rfl⟩
  · exact ⟨rfl, hk, rfl⟩
  · exact ⟨rfl, hk, rfl⟩
  · exact ⟨rfl, hr, hk⟩

theorem emits_of_opCode (hr : r < P.ranks) (hp : P.postAt r k = some p)
    (hs : (P.opCode r k p)[i]? = some s) (ht : t ∈ s.signals) : P.Emits (.op r k) i t := by
  rcases opCode_cases hs with ⟨rfl, rfl⟩ | ⟨rfl, rfl⟩ | ⟨rfl, rfl⟩
  · simp only at ht
    split at ht
    · simp at ht
    · rename_i hread
      rw [List.mem_singleton.1 ht]
      exact ⟨rfl, p, hp, by simp [hread]⟩
  · rcases List.mem_cons.1 ht with rfl | ht
    · exact ⟨rfl, rfl⟩
    · split at ht
      · rename_i hread
        rw [List.mem_singleton.1 ht]
        exact ⟨rfl, p, hp, by simp [hread]⟩
      · simp at ht
  · obtain ⟨j, hj, rfl⟩ := List.mem_map.1 ht
    exact ⟨r, k, p, rfl, rfl, hr, hp, rfl, Option.mem_toList.1 hj⟩

/-- **Who signals what.** -/
theorem emits_of_signals (h : (P.system o).Signals (a, i) t) : P.Emits a i t := by
  obtain ⟨s, hs, ht⟩ := h
  cases a with
  | rank r =>
    obtain ⟨hr, st, hst, rfl⟩ := step_rank.1 hs
    exact emits_of_stmtStep hr hst ht
  | op r k =>
    obtain ⟨hr, p, hp, hc⟩ := step_op.1 hs
    exact emits_of_opCode hr hp hc ht

theorem sole_posted : (P.system o).Sole (.rank r, k) (.posted r k) := by
  rintro ⟨a, i⟩ hy
  obtain ⟨rfl, rfl⟩ := emits_of_signals hy
  rfl

theorem sole_delivered : (P.system o).Sole (.op r k, 1) (.delivered r k) := by
  rintro ⟨a, i⟩ hy
  obtain ⟨rfl, rfl⟩ := emits_of_signals hy
  rfl

theorem sole_localDone (hk : P.postAt r k = some p) :
    (P.system o).Sole (.op r k, if p.isRead then 1 else 0) (.localDone r k) := by
  rintro ⟨a, i⟩ hy
  obtain ⟨rfl, p', hp', rfl⟩ := emits_of_signals hy
  rw [hk] at hp'
  cases hp'
  rfl

theorem countBefore_inj (hk : (P.text r)[k]? = some st) (hq : (P.text r)[q]? = some st)
    (h : P.countBefore r k st = P.countBefore r q st) : k = q :=
  Text.countBefore_inj (p := (· == st)) hk (beq_self_eq_true st) hq (beq_self_eq_true st) h

theorem sole_bar (hk : (P.text r)[k]? = some .barrierEnter) :
    (P.system o).Sole (.rank r, k) (.bar r (P.countBefore r k .barrierEnter)) := by
  rintro ⟨a, i⟩ hy
  obtain ⟨rfl, hi, hc⟩ := emits_of_signals hy
  rw [countBefore_inj hk hi hc]

theorem sole_allreduce (hk : (P.text r)[k]? = some .allreduceEnter) :
    (P.system o).Sole (.rank r, k) (.allreduce r (P.countBefore r k .allreduceEnter)) := by
  rintro ⟨a, i⟩ hy
  obtain ⟨rfl, hi, hc⟩ := emits_of_signals hy
  rw [countBefore_inj hk hi hc]

/-! ## Accesses -/

/-- The plain accesses of a statement of rank `r`. -/
def plain (r : Nat) : Stmt → List Access
  | .load s i => [⟨r, s, i, false⟩]
  | .store s i => [⟨r, s, i, true⟩]
  | .passiveSend _ => [⟨r, .loc, 0, false⟩]
  | .passiveReceive => [⟨r, .loc, 0, true⟩]
  | _ => []

theorem accs_stmtStep (r k : Nat) (st : Stmt) : (P.stmtStep r k st).accs = plain r st := by
  cases st <;> rfl

theorem rank_of_mem_plain (h : m ∈ plain r st) : m.rank = r := by
  cases st
  case load | store | passiveSend | passiveReceive => rw [List.mem_singleton.1 h]
  all_goals exact absurd h List.not_mem_nil

theorem accesses_rank (h : (P.system o).Accesses (.rank r, i) m) :
    ∃ st, (P.text r)[i]? = some st ∧ m ∈ plain r st := by
  obtain ⟨s, hs, hm⟩ := h
  obtain ⟨-, st, hst, rfl⟩ := step_rank.1 hs
  rw [accs_stmtStep] at hm
  exact ⟨st, hst, hm⟩

theorem accesses_op (h : (P.system o).Accesses (.op r k, i) m) :
    r < P.ranks ∧ ∃ p, P.postAt r k = some p ∧ p.data.isSome = true ∧
      (i = 0 ∧ m ∈ reads r p ∨ i = 1 ∧ m ∈ writes r p) := by
  obtain ⟨s, hs, hm⟩ := h
  obtain ⟨hr, p, hp, hc⟩ := step_op.1 hs
  have hdata : ∀ f : Data → Access, m ∈ p.data.toList.map f → p.data.isSome = true := by
    intro f hf
    cases hd : p.data
    · simp [hd] at hf
    · rfl
  rcases opCode_cases hc with ⟨rfl, rfl⟩ | ⟨rfl, rfl⟩ | ⟨rfl, rfl⟩
  · exact ⟨hr, p, hp, hdata _ hm, .inl ⟨rfl, hm⟩⟩
  · exact ⟨hr, p, hp, hdata _ hm, .inr ⟨rfl, hm⟩⟩
  · simp at hm

/-! ## Orders -/

/-- An operation follows its post. -/
theorem must_post (hr : r < P.ranks) (hk : P.postAt r k = some p) :
    Must (P.system o) (.rank r, k) (.op r k, i) :=
  Must.order_right (.sync sole_posted ⟨_, step_op.2 ⟨hr, p, hk, rfl⟩, .head _⟩) (Nat.zero_le i)

/-- **Local completion**: `gaspi_wait` follows the local part of the operations before it. -/
theorem must_wait (hr : r < P.ranks) (hk : P.postAt r k = some p) (hkq : k < q)
    (hq : (P.text r)[q]? = some .wait) :
    Must (P.system o) (.op r k, if p.isRead then 1 else 0) (.rank r, q) := by
  refine .sync (sole_localDone hk) (at_waits hr hq ?_)
  exact List.mem_map_of_mem (mem_postsBefore hk rfl hkq)

/-- **Order on the queue**: a notification follows the data posted before it to the same target. -/
theorem must_notify (hr : r < P.ranks) (hk : P.postAt r k = some p) (hk' : P.postAt r k' = some p')
    (hkk : k < k') (ht : p.target = p'.target) (hdata : p.data.isSome = true)
    (hslot : p'.slot.isSome = true) : Must (P.system o) (.op r k, 1) (.op r k', 2) := by
  refine .sync sole_delivered ⟨_, step_op.2 ⟨hr, p', hk', rfl⟩, ?_⟩
  simp only [hslot, if_true]
  exact List.mem_map_of_mem (mem_postsBefore hk (by simp [ht, hdata]) hkk)

/-- **A wait for a slot** follows an event when every operation that raises the slot is that event,
follows it or follows the wait. -/
theorem must_waitsome {x : Event Actor} (hr : r < P.ranks)
    (hq : (P.text r)[q]? = some (.waitsome i))
    (hraise : ∀ r' k' p, r' < P.ranks → P.postAt r' k' = some p → p.target = r → p.slot = some i →
      (.op r' k', 2) = x ∨ Must (P.system o) x (.op r' k', 2) ∨
        Must (P.system o) (.rank r, q) (.op r' k', 2)) : Must (P.system o) x (.rank r, q) := by
  refine .any o.total (at_step hr hq) (by simp [stmtStep]) fun t ht y hy => ?_
  obtain rfl : t = .slot r i := List.mem_singleton.1 ht
  obtain ⟨r', k', p, hy1, hy2, hr', hp, htarget, hslot⟩ := emits_of_signals (a := y.1) (i := y.2) hy
  obtain rfl : y = (.op r' k', 2) := by rw [← hy1, ← hy2]
  exact hraise r' k' p hr' hp htarget hslot

/-- **A barrier of all ranks.** -/
theorem must_bar (hr : r < P.ranks) (hr' : r' < P.ranks) (hk : (P.text r)[k]? = some .barrierEnter)
    (hk' : (P.text r')[k']? = some .barrierLeave)
    (hc : P.countBefore r k .barrierEnter = P.countBefore r' k' .barrierLeave) :
    Must (P.system o) (.rank r, k) (.rank r', k') :=
  .round (sole_bar hk) (List.mem_range.2 hr) (fun _ ht => at_waits hr' hk' ht) hc

theorem must_allreduce (hr : r < P.ranks) (hr' : r' < P.ranks)
    (hk : (P.text r)[k]? = some .allreduceEnter) (hk' : (P.text r')[k']? = some .allreduceLeave)
    (hc : P.countBefore r k .allreduceEnter = P.countBefore r' k' .allreduceLeave) :
    Must (P.system o) (.rank r, k) (.rank r', k') :=
  .round (sole_allreduce hk) (List.mem_range.2 hr) (fun _ ht => at_waits hr' hk' ht) hc

/-- **A passive message**: the receive follows the only send to the rank. -/
theorem must_passive (hr : r < P.ranks) (hr' : r' < P.ranks)
    (hk' : (P.text r')[k']? = some .passiveReceive)
    (huniq : ∀ q j, (P.text q)[j]? = some (.passiveSend r') → q = r ∧ j = k) :
    Must (P.system o) (.rank r, k) (.rank r', k') := by
  have hne : (P.stmtStep r' k' .passiveReceive).waitsAny ≠ [] := by
    refine List.ne_nil_of_mem (a := .sent r r') ?_
    exact List.mem_map.2 ⟨r, List.mem_range.2 hr, rfl⟩
  refine .any o.total (at_step hr' hk') hne fun t ht y hy => .inl ?_
  obtain ⟨src, -, rfl⟩ := List.mem_map.1 ht
  obtain ⟨hy1, -, hy2⟩ := emits_of_signals (a := y.1) (i := y.2) hy
  obtain ⟨rfl, hj⟩ := huniq src y.2 hy2
  rw [← hy1, ← hj]

end Program

end Gaspi
