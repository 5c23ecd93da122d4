import RMARaceBench.Mpi.Semantics
import RMARaceBench.Causal.Order

/-!
# The steps of an MPI program

What the steps of `Program.system` can be, read off once: the step of every actor (`step_thread`,
`step_task`, `step_op`, `step_grant`), the process that signals a token (`Signals.owner`) and the
processes whose memory an actor accesses (`accesses_thread`, `accesses_op`).
-/

set_option autoImplicit false

namespace Mpi

open Causal Causal.System

/-- The process an actor belongs to. -/
def Actor.rank : Actor → Nat
  | .thread r _ | .task r _ | .op r _ | .grant r _ => r

/-- The process whose actors signal a token. -/
def Token.owner : Token → Nat
  | .bar r _ | .fence _ r _ | .free _ r _ | .issued r _ | .localDone r _ | .done r _
  | .lockCall r _ | .granted r _ | .unlocked r _ | .posted _ r _ _ | .completed _ r _ _
  | .sent r _ _ | .fork r _ | .team r _ _ | .ordered r _ _ | .taskCreated r _ | .taskDone r _
  | .incremented r _ => r

theorem getElem?_singleton_iff {α : Type} {x y : α} {i : Nat} :
    [x][i]? = some y ↔ i = 0 ∧ x = y := by
  cases i with
  | zero => simp
  | succ i => simp

namespace Program

variable {P : Program} {r tid j k i : Nat} {s : MStep} {t : Token} {m : Access}

/-! ## The step of an actor -/

theorem step_thread : P.system.step (.thread r tid, k) = some s ↔ r < P.procs ∧ tid < P.team ∧
    ∃ it, (P.items r)[k]? = some it ∧
      (if it.who.runs tid then P.actStep r tid k it.act else .skip) = s := by
  by_cases hr : r < P.procs ∧ tid < P.team
  · simp [step, system, code, hr, threadCode]
  · simp only [step, system, code, if_neg hr, List.getElem?_nil, reduceCtorEq, false_iff]
    exact fun h => hr ⟨h.1, h.2.1⟩

theorem step_task : P.system.step (.task r j, k) = some s ↔ r < P.procs ∧
    ∃ it, (P.items r)[k]? = some it ∧
      (if it.who = .task j then P.actStep r 0 k it.act else .skip) = s := by
  by_cases hr : r < P.procs
  · simp [step, system, code, hr, taskCode]
  · simp [step, system, code, hr]

theorem step_op : P.system.step (.op r k, i) = some s ↔ r < P.procs ∧
    ∃ c, P.stmtAt r k = some (.rma c) ∧ (P.opCode r k c)[i]? = some s := by
  by_cases hr : r < P.procs
  · simp only [step, system, code, if_pos hr]
    split
    · rename_i c hc
      simp [hc, hr]
    · rename_i hc
      simp only [List.getElem?_nil, reduceCtorEq, false_iff]
      rintro ⟨-, c, hc', -⟩
      exact hc c hc'
  · simp [step, system, code, hr]

theorem step_grant : P.system.step (.grant r k, i) = some s ↔ r < P.procs ∧
    (P.grantCode r k (P.stmtAt r k))[i]? = some s := by
  by_cases hr : r < P.procs
  · simp [step, system, code, hr]
  · simp [step, system, code, hr]

/-- The three steps of a transfer. -/
theorem opCode_cases {c : Rma} (h : (P.opCode r k c)[i]? = some s) :
    (i = 0 ∧ s = { waits := .issued r k :: P.epochTokens r k c
                   accs := (c.origin.toList ++ c.compare.toList).map (·.access r .localRead c.call)
                   signals := if c.result.isNone then [.localDone r k] else [] }) ∨
    (i = 1 ∧ s = { accs := [c.targetAccess]
                   signals := if c.result.isNone then [.done r k] else [] }) ∨
    (i = 2 ∧ s = { accs := c.result.toList.map (·.access r .localWrite c.call)
                   signals := if c.result.isSome then [.localDone r k, .done r k] else [] }) := by
  match i with
  | 0 => exact .inl ⟨rfl, (Option.some.inj h).symm⟩
  | 1 => exact .inr (.inl ⟨rfl, (Option.some.inj h).symm⟩)
  | 2 => exact .inr (.inr ⟨rfl, (Option.some.inj h).symm⟩)
  | i + 3 => simp [opCode] at h

/-! ## Signals -/

/-- A thread signals with the items that it runs. -/
theorem signals_thread (h : P.system.Signals (.thread r tid, k) t) : r < P.procs ∧ tid < P.team ∧
    ∃ it, (P.items r)[k]? = some it ∧ it.who.runs tid = true ∧
      t ∈ (P.actStep r tid k it.act).signals := by
  obtain ⟨s, hs, ht⟩ := h
  obtain ⟨hr, htid, it, hit, rfl⟩ := step_thread.1 hs
  split at ht
  · rename_i hw
    exact ⟨hr, htid, it, hit, hw, ht⟩
  · simp [Step.skip] at ht

theorem signals_task (h : P.system.Signals (.task r j, k) t) : r < P.procs ∧
    ∃ it, (P.items r)[k]? = some it ∧ it.who = .task j ∧ t ∈ (P.actStep r 0 k it.act).signals := by
  obtain ⟨s, hs, ht⟩ := h
  obtain ⟨hr, it, hit, rfl⟩ := step_task.1 hs
  split at ht
  · rename_i hw
    exact ⟨hr, it, hit, hw, ht⟩
  · simp [Step.skip] at ht

/-- A transfer signals its completions. -/
theorem signals_op (h : P.system.Signals (.op r k, i) t) : t = .localDone r k ∨ t = .done r k := by
  obtain ⟨s, hs, ht⟩ := h
  obtain ⟨-, c, -, hc⟩ := step_op.1 hs
  rcases opCode_cases hc with ⟨-, rfl⟩ | ⟨-, rfl⟩ | ⟨-, rfl⟩ <;> simp only at ht <;>
    split at ht <;> simp at ht
  · exact .inl ht
  · exact .inr ht
  · exact ht

/-- A lock request signals that it is granted. -/
theorem signals_grant (h : P.system.Signals (.grant r k, i) t) : t = .granted r k := by
  obtain ⟨s, hs, ht⟩ := h
  obtain ⟨-, hc⟩ := step_grant.1 hs
  unfold grantCode at hc
  split at hc
  · obtain ⟨-, rfl⟩ := getElem?_singleton_iff.1 hc
    exact List.mem_singleton.1 ht
  · obtain ⟨-, rfl⟩ := getElem?_singleton_iff.1 hc
    exact List.mem_singleton.1 ht
  · simp at hc

theorem owner_stmtStep {st : Stmt} (h : t ∈ (P.stmtStep r k st).signals) : t.owner = r := by
  cases st
  case unlock => simp only [stmtStep] at h; split at h <;> simp_all [Token.owner]
  case unlockAll => simp only [stmtStep] at h; split at h <;> simp_all [Token.owner]
  case complete =>
    simp only [stmtStep, List.mem_flatMap, List.mem_map] at h
    obtain ⟨j, -, o, -, rfl⟩ := h
    rfl
  case post =>
    simp only [stmtStep, List.mem_map] at h
    obtain ⟨o, -, rfl⟩ := h
    rfl
  all_goals simp_all [stmtStep, Token.owner]

theorem owner_actStep {a : Omp.Act Stmt} (h : t ∈ (P.actStep r tid k a).signals) :
    t.owner = r := by
  cases a with
  | stmt st => exact owner_stmtStep h
  | fork =>
    simp only [actStep] at h
    split at h <;> simp_all [Token.owner]
  | _ => simp_all [actStep, Token.owner]

/-- **A token is signalled by the actors of its process.** -/
theorem owner_of_signals {x : Event Actor} (h : P.system.Signals x t) : t.owner = x.1.rank := by
  obtain ⟨a, i⟩ := x
  cases a with
  | thread r tid =>
    obtain ⟨-, -, it, -, -, ht⟩ := signals_thread h
    exact owner_actStep ht
  | task r j =>
    obtain ⟨-, it, -, -, ht⟩ := signals_task h
    exact owner_actStep ht
  | op r k => rcases signals_op h with rfl | rfl <;> rfl
  | grant r k =>
    rw [signals_grant h]
    rfl

/-! ## Accesses -/

theorem rank_stmtStep {st : Stmt} (h : m ∈ (P.stmtStep r k st).accs) : m.rank = r := by
  cases st
  case unlock => simp only [stmtStep] at h; split at h <;> simp at h
  case unlockAll => simp only [stmtStep] at h; split at h <;> simp at h
  case load l => cases l <;> simp_all [stmtStep, Loc.access]
  case store l => cases l <;> simp_all [stmtStep, Loc.access]
  all_goals simp_all [stmtStep, Loc.access]

/-- A thread or a task accesses the memory of its process. -/
theorem rank_actStep {a : Omp.Act Stmt} (h : m ∈ (P.actStep r tid k a).accs) : m.rank = r := by
  cases a with
  | stmt st => exact rank_stmtStep h
  | fork =>
    simp only [actStep] at h
    split at h <;> simp at h
  | _ => simp [actStep] at h

theorem kind_access (l : Loc) (kd : Kind) (c : Call) : (l.access r kd c).kind = kd := by
  cases l <;> rfl

/-- A thread or a task writes to no buffer of a call. -/
theorem kind_stmtStep {st : Stmt} (h : m ∈ (P.stmtStep r k st).accs) : m.kind ≠ .localWrite := by
  cases st
  case unlock => simp only [stmtStep] at h; split at h <;> simp at h
  case unlockAll => simp only [stmtStep] at h; split at h <;> simp at h
  all_goals simp only [stmtStep, List.not_mem_nil, List.mem_singleton] at h
  all_goals rw [h, kind_access]; decide

theorem kind_actStep {a : Omp.Act Stmt} (h : m ∈ (P.actStep r tid k a).accs) :
    m.kind ≠ .localWrite := by
  cases a with
  | stmt st => exact kind_stmtStep h
  | fork =>
    simp only [actStep] at h
    split at h <;> simp at h
  | _ => simp [actStep] at h

theorem rank_of_thread (h : P.system.Accesses (.thread r tid, k) m) : m.rank = r := by
  obtain ⟨s, hs, hm⟩ := h
  obtain ⟨-, -, it, -, rfl⟩ := step_thread.1 hs
  split at hm
  · exact rank_actStep hm
  · simp [Step.skip] at hm

theorem rank_access (l : Loc) (kd : Kind) (c : Call) : (l.access r kd c).rank = r := by
  cases l <;> rfl

/-- A transfer accesses the memory of its process and of its target. -/
theorem rank_of_op (h : P.system.Accesses (.op r k, i) m) :
    r < P.procs ∧ ∃ c, P.stmtAt r k = some (.rma c) ∧ (m.rank = r ∨ m.rank = c.target) := by
  obtain ⟨s, hs, hm⟩ := h
  obtain ⟨hr, c, hc, hs⟩ := step_op.1 hs
  refine ⟨hr, c, hc, ?_⟩
  rcases opCode_cases hs with ⟨-, rfl⟩ | ⟨-, rfl⟩ | ⟨-, rfl⟩
  · obtain ⟨l, -, rfl⟩ := List.mem_map.1 hm
    exact .inl (rank_access l _ _)
  · rw [List.mem_singleton.1 hm]
    exact .inr rfl
  · obtain ⟨l, -, rfl⟩ := List.mem_map.1 hm
    exact .inl (rank_access l _ _)

theorem not_accesses_grant : ¬ P.system.Accesses (.grant r k, i) m := by
  rintro ⟨s, hs, hm⟩
  obtain ⟨-, hc⟩ := step_grant.1 hs
  unfold grantCode at hc
  split at hc
  · obtain ⟨-, rfl⟩ := getElem?_singleton_iff.1 hc
    simp at hm
  · obtain ⟨-, rfl⟩ := getElem?_singleton_iff.1 hc
    simp at hm
  · simp at hc

/-! ## Steps of threads -/

theorem locks_stmtStep (st : Stmt) : (P.stmtStep r k st).locks = [] := by
  cases st
  case unlock => simp only [stmtStep]; split <;> rfl
  case unlockAll => simp only [stmtStep]; split <;> rfl
  all_goals rfl

theorem waitsAny_stmtStep {st : Stmt} (hst : ∀ x, st ≠ .atomicRead x true) :
    (P.stmtStep r k st).waitsAny = [] := by
  cases st
  case unlock => simp only [stmtStep]; split <;> rfl
  case unlockAll => simp only [stmtStep]; split <;> rfl
  case atomicRead x found =>
    cases found with
    | true => exact absurd rfl (hst x)
    | false => rfl
  all_goals rfl

/-- A thread takes no locks itself. -/
theorem not_takes_thread {l : Lock Key Token} : ¬ P.system.Takes (.thread r tid, k) l := by
  rintro ⟨s, hs, hl⟩
  obtain ⟨-, -, it, -, rfl⟩ := step_thread.1 hs
  split at hl
  · cases ha : it.act with
    | stmt st =>
      rw [ha] at hl
      simp [actStep, locks_stmtStep] at hl
    | fork =>
      rw [ha] at hl
      simp only [actStep] at hl
      split at hl <;> simp at hl
    | _ =>
      rw [ha] at hl
      simp [actStep] at hl
  · simp [Step.skip] at hl

end Program

end Mpi
