import Mathlib.Tactic.Common

/-!
# Programs with OpenMP regions

The text of one process as a list of items in program order. An item says which of the process's
threads execute it (`Who`) and what they do (`Act`): a statement of the program or one of the
synchronizations that an OpenMP construct stands for. The constructs of the benchmark (`master`,
`single`, `sections`, `for`, `ordered`, `task`, `taskwait`, `barrier`) are functions that build
items; which thread executes a `single` block, a section, an iteration or a task is read off a
`Team`, so that all admissible assignments are the values of that type.
-/

set_option autoImplicit false

namespace Omp

/-- The threads that execute an item: the initial thread outside of a parallel region, one thread or
every thread of the team, or whichever thread runs the task `j`. -/
inductive Who
  | initial
  | thread (tid : Nat)
  | every
  | task (j : Nat)
  deriving DecidableEq, Repr

/-- Thread `tid` executes the item. A task runs beside the threads. -/
def Who.runs : Who → Nat → Bool
  | .initial, tid => tid == 0
  | .thread τ, tid => tid == τ
  | .every, _ => true
  | .task _, _ => false

/-- The threads of a parallel region and the thread each construct is assigned to. -/
structure Team where
  size : Nat
  pos : 0 < size
  single : Nat → Fin size
  section_ : Nat → Nat → Fin size
  iter : Nat → Nat → Fin size
  task : Nat → Fin size

/-- The team in which thread 0 executes everything. -/
def Team.alone : Team :=
  ⟨1, Nat.one_pos, fun _ => 0, fun _ _ => 0, fun _ _ => 0, fun _ => 0⟩

/-- A team of two: sections and iterations alternate, thread 1 takes `single` blocks and tasks. -/
def Team.two : Team :=
  ⟨2, Nat.two_pos, fun _ => 1, fun _ i => ⟨i % 2, Nat.mod_lt _ Nat.two_pos⟩,
    fun _ i => ⟨i % 2, Nat.mod_lt _ Nat.two_pos⟩, fun _ => 1⟩

inductive Act (σ : Type)
  | stmt (s : σ)
  | fork
  | enter
  | leave
  | orderedBegin (loop i : Nat)
  | orderedEnd (loop i : Nat)
  | taskCreate (j : Nat)
  | taskBegin (j : Nat)
  | taskEnd (j : Nat)
  | taskWait
  deriving DecidableEq, Repr

structure Item (σ : Type) where
  who : Who
  act : Act σ
  deriving DecidableEq, Repr

variable {σ : Type}

def Item.stmt? (it : Item σ) : Option σ :=
  match it.act with
  | .stmt s => some s
  | _ => none

/-- Statements executed by `w`. -/
def on (w : Who) (ss : List σ) : List (Item σ) := ss.map fun s => ⟨w, .stmt s⟩

/-- Statements outside of a parallel region. -/
def seq (ss : List σ) : List (Item σ) := on .initial ss

theorem seq_append (as bs : List σ) : seq (as ++ bs) = seq as ++ seq bs := List.map_append

theorem length_seq (ss : List σ) : (seq ss).length = ss.length := List.length_map _

theorem getElem?_seq (ss : List σ) (k : Nat) :
    (seq ss)[k]? = ss[k]?.map fun s => ⟨.initial, .stmt s⟩ := List.getElem?_map

theorem getElem?_seq_left {ss : List σ} {k : Nat} (hk : k < ss.length) (rest : List (Item σ)) :
    (seq ss ++ rest)[k]? = ss[k]?.map fun s => ⟨.initial, .stmt s⟩ := by
  rw [List.getElem?_append_left (by rwa [length_seq]), getElem?_seq]

theorem getElem?_seq_right {ss : List σ} {k : Nat} (hk : ss.length ≤ k) (rest : List (Item σ)) :
    (seq ss ++ rest)[k]? = rest[k - ss.length]? := by
  rw [List.getElem?_append_right (by rwa [length_seq]), length_seq]

/-- A barrier of the team. -/
def barrier : List (Item σ) := [⟨.every, .enter⟩, ⟨.every, .leave⟩]

/-- `omp parallel`, with the barrier at its end. -/
def parallel (body : List (Item σ)) : List (Item σ) := ⟨.every, .fork⟩ :: (body ++ barrier)

/-- Statements of a parallel region outside of every construct. -/
def each (ss : List σ) : List (Item σ) := on .every ss

/-- `omp master`: no barrier. -/
def master (ss : List σ) : List (Item σ) := on (.thread 0) ss

/-- `omp single nowait`. -/
def singleNowait (T : Team) (k : Nat) (body : Who → List (Item σ)) : List (Item σ) :=
  body (.thread (T.single k))

/-- `omp single`. -/
def single (T : Team) (k : Nat) (body : Who → List (Item σ)) : List (Item σ) :=
  singleNowait T k body ++ barrier

/-- `omp sections`, the `k`-th of the program. -/
def sections (T : Team) (k : Nat) (secs : List (List σ)) : List (Item σ) :=
  (secs.zipIdx.flatMap fun p => on (.thread (T.section_ k p.2)) p.1) ++ barrier

/-- `omp for` over `0 .. n - 1`, the `k`-th of the program. -/
def forLoop (T : Team) (k n : Nat) (body : Nat → List σ) : List (Item σ) :=
  ((List.range n).flatMap fun i => on (.thread (T.iter k i)) (body i)) ++ barrier

/-- `omp for schedule(static, 1)`: the threads take the iterations in turn. -/
def forStatic (T : Team) (n : Nat) (body : Nat → List σ) : List (Item σ) :=
  ((List.range n).flatMap fun i => on (.thread (i % T.size)) (body i)) ++ barrier

/-- `omp for ordered` whose body is one `omp ordered` region. -/
def forOrdered (T : Team) (k n : Nat) (body : Nat → List σ) : List (Item σ) :=
  ((List.range n).flatMap fun i =>
    ⟨.thread (T.iter k i), .orderedBegin k i⟩ ::
      (on (.thread (T.iter k i)) (body i) ++ [⟨.thread (T.iter k i), .orderedEnd k i⟩])) ++ barrier

/-- `omp task`, created by `w`. -/
def task (w : Who) (j : Nat) (ss : List σ) : List (Item σ) :=
  ⟨w, .taskCreate j⟩ :: ⟨.task j, .taskBegin j⟩ :: (on (.task j) ss ++ [⟨.task j, .taskEnd j⟩])

/-- `omp taskwait`. -/
def taskwait (w : Who) : List (Item σ) := [⟨w, .taskWait⟩]

end Omp
