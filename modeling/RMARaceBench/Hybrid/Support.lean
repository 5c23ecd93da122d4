import RMARaceBench.Omp.Reach

/-!
# Thread support

What matters of a hybrid case for the question which threads call the library: the level of thread
support that the initialization requests, the calls, and nothing of the other statements. A routine
that waits for a single other process may return at any time here; a collective one returns after all
processes have called it.

`Supported P`: in every run, whenever a thread other than the initial one calls a routine, the process
has requested a level that permits this, and the request happens before the call.
-/

set_option autoImplicit false

namespace Hybrid

open Causal Causal.System Omp

/-- The levels of thread support. -/
inductive Level
  | single | funneled | serialized | multiple
  deriving DecidableEq, Repr

/-- Threads other than the one that initialized the library may call it. -/
def Level.permitsOthers : Level → Bool
  | .single | .funneled => false
  | .serialized | .multiple => true

@[simp] theorem Level.permitsOthers_single : Level.single.permitsOthers = false := rfl

/-- The statements over the routines `ρ` of a library. A collective routine is an `enter` and a
`leave`. -/
inductive Stmt (ρ : Type)
  | init (l : Level)
  | call (f : ρ)
  | enter (f : ρ)
  | leave (f : ρ)
  | plain
  deriving DecidableEq, Repr

variable {ρ : Type}

/-- The statement calls a communication or synchronization routine. -/
def Stmt.isCall : Stmt ρ → Bool
  | .call _ | .enter _ => true
  | .init _ | .leave _ | .plain => false

/-- A call of a collective routine. -/
def collective (f : ρ) : List (Stmt ρ) := [.enter f, .leave f]

section
variable [DecidableEq ρ] (P : Program (Stmt ρ))

def countBefore (r k : Nat) (s : Stmt ρ) : Nat :=
  ((P.items r).take k).countP fun it => decide (it.stmt? = some s)

/-- The `c`-th call of a collective routine returns after the `c`-th call of every process. -/
def effect (r k : Nat) : Stmt ρ → Effect (Nat × ρ × Nat)
  | .enter f => { signals := [(r, f, countBefore P r k (.enter f))] }
  | .leave f => { waits := (List.range P.procs).map fun q => (q, f, countBefore P r k (.leave f)) }
  | .init _ | .call _ | .plain => {}

abbrev system : System Actor Empty (Token (Nat × ρ × Nat)) Empty := P.system (effect P)

/-- **Threads only call the library when it was initialized for them** (module doc). -/
def Supported : Prop :=
  ∀ h, (system P).Run h → ∀ x ∈ h, ∀ s, P.performed x = some (.stmt s) → s.isCall = true →
    x.1.tid P.team ≠ 0 → ∃ y l, y.1.rank = x.1.rank ∧ P.performed y = some (.stmt (.init l)) ∧
      l.permitsOthers = true ∧ (system P).HB h y x

end

/-- The thread that executes the items of `w`, if it is one thread. -/
def executor (T : Team) : Who → Option Nat
  | .initial => some 0
  | .thread t => some t
  | .task j => some (T.task j)
  | .every => none

@[simp] theorem executor_initial (T : Team) : executor T .initial = some 0 := rfl

@[simp] theorem executor_thread (T : Team) (t : Nat) : executor T (.thread t) = some t := rfl

@[simp] theorem executor_task (T : Team) (j : Nat) : executor T (.task j) = some (T.task j : Nat) := rfl

@[simp] theorem executor_every (T : Team) : executor T .every = none := rfl

/-- Only the initial thread calls anything. -/
abbrev Confined (T : Team) (items : List (Item (Stmt ρ))) : Prop :=
  AllStmts (fun w s => s.isCall = true → executor T w = some 0) items

/-- No initialization requests support of other threads. -/
abbrev Unsupporting (items : List (Item (Stmt ρ))) : Prop :=
  AllStmts (fun _ s => ∀ l, s = .init l → l.permitsOthers = false) items

theorem tid_of_executor {T : Team} {a : Actor} {w : Who} {t : Nat} (ha : a.runs w = true)
    (hw : executor T w = some t) : a.tid T = t := by
  cases a with
  | thread q u =>
    cases w with
    | initial => exact (beq_iff_eq.1 ha).trans (Option.some.inj hw)
    | thread v => exact (beq_iff_eq.1 ha).trans (Option.some.inj hw)
    | every => cases hw
    | task j => cases ha
  | task q j =>
    cases w with
    | task i =>
      cases beq_iff_eq.1 (show (Who.task i == Who.task j) = true from ha)
      exact Option.some.inj hw
    | initial | thread | every => cases ha

/-! ## The three ways a program stands -/

section
variable [DecidableEq ρ] {P : Program (Stmt ρ)}

/-- A program whose other threads call nothing needs no support. -/
theorem supported_of_confined (hc : ∀ r, Confined P.team (P.items r)) : Supported P := by
  intro h _ x _ s hp hs hne
  obtain ⟨it, hit, hruns, hact⟩ := Program.performed_iff.1 hp
  have hexec := hc _ it (List.mem_of_getElem? hit) s hact hs
  exact absurd (tid_of_executor hruns hexec) hne

/-- Sequential text that requests `MPI_THREAD_MULTIPLE` permits all calls behind it. -/
theorem supported_of_multiple (hP : ∀ r, ∃ pre rest, P.items r = seq pre ++ rest ∧ Guarded rest ∧
    .init .multiple ∈ pre) : Supported P := by
  intro h hr x hx s hp hs hne
  obtain ⟨pre, rest, hi, hg, hmem⟩ := hP x.1.rank
  obtain ⟨i, hpre⟩ := List.mem_iff_getElem?.1 hmem
  have hlt := (List.getElem?_eq_some_iff.1 hpre).1
  have hx0 : x.1 ≠ .thread x.1.rank 0 := fun he => hne (by rw [he]; rfl)
  refine ⟨(.thread x.1.rank 0, i), .multiple, rfl,
    Program.performed_iff.2 ⟨⟨.initial, .stmt (.init .multiple)⟩, ?_, rfl, rfl⟩, rfl,
    Program.sequential_first hi hg hr hx rfl hp hx0 hlt⟩
  rw [show (Actor.thread x.1.rank 0).rank = x.1.rank from rfl, hi, getElem?_seq_left hlt, hpre]
  rfl

/-- A run that gets to a call of another thread shows that the level is too low. -/
theorem not_supported_of_approach {r : Nat} {pre : List (Stmt ρ)} {items : List (Item (Stmt ρ))}
    {w : Who} {s : Stmt ρ} {a : Actor}
    (hp : P.Approach (effect P) r pre (items ++ [⟨w, .stmt s⟩]))
    (ha : P.hasActor a = true) (har : a.rank = r) (hw : a.runs w = true) (hs : s.isCall = true)
    (hne : a.tid P.team ≠ 0)
    (hi : ∀ q, Unsupporting (P.items q)) :
    ¬ Supported P := by
  intro hS
  obtain ⟨h, hr, hmem⟩ := hp.reach ha har
  have hperf : P.performed (a, pre.length + items.length) = some (.stmt s) :=
    hp.performed_items har List.getElem?_concat_length hw
  have hx := hmem (pre.length + items.length) (by simp)
  obtain ⟨y, l, -, hy, hl, -⟩ := hS h hr _ hx s hperf hs hne
  obtain ⟨it, hit, -, hact⟩ := Program.performed_iff.1 hy
  rw [hi _ it (List.mem_of_getElem? hit) _ hact l rfl] at hl
  cases hl

end

end Hybrid
