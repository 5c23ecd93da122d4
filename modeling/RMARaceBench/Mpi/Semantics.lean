import RMARaceBench.Causal.System
import RMARaceBench.Mpi.Syntax

/-!
# What a run of an MPI program is

`Program.system P` is the causal system of a program. Its actors are the threads and tasks of every
process, one actor for every communication call (the transfer, which goes on after the call has
returned) and one for every lock request. The rules of MPI-3 are the tokens they wait for:

* a transfer starts after its call and after its epoch is matched: the lock is granted, the target
  has posted the exposure epoch. It reads the origin buffer, then accesses the target window, then
  writes the result buffer. It is locally complete (`localDone`) after the last access to a buffer
  of the origin and complete (`done`) after the last access;
* `MPI_Win_flush`, `MPI_Win_unlock`, `MPI_Win_complete` and `MPI_Win_fence` return when the
  transfers they cover are complete, `MPI_Win_flush_local` and `MPI_Wait` when they are locally
  complete;
* a lock may be granted long after `MPI_Win_lock` has returned (except on the process's own
  window); exclusive locks on one window part exclude each other;
* `MPI_Win_wait` returns after every origin of the posted group has called `MPI_Win_complete`;
* a receive returns after the matching send has started; no process leaves a barrier, a fence or
  `MPI_Win_free` before all processes have entered it.

An `omp atomic` read that finds a flag incremented runs after the increment but does not synchronize
with it (`sees`).
-/

set_option autoImplicit false

namespace Mpi

open Causal

inductive Actor
  | thread (r tid : Nat)
  | task (r j : Nat)
  /-- The transfer of the communication call at position `k` of rank `r`. -/
  | op (r k : Nat)
  /-- The request of the lock call at position `k` of rank `r`. -/
  | grant (r k : Nat)
  deriving DecidableEq, Repr

inductive Token
  | bar (r c : Nat)
  | fence (w : Win) (r c : Nat)
  | free (w : Win) (r c : Nat)
  | issued (r k : Nat)
  | localDone (r k : Nat)
  | done (r k : Nat)
  | lockCall (r k : Nat)
  | granted (r k : Nat)
  | unlocked (r k : Nat)
  /-- The `c`-th post at `t` whose group contains `o`. -/
  | posted (w : Win) (t o c : Nat)
  /-- `o` completed its `c`-th access epoch that covers `t`. -/
  | completed (w : Win) (o t c : Nat)
  | sent (src dst c : Nat)
  | fork (r k : Nat)
  | team (r k tid : Nat)
  | ordered (r loop i : Nat)
  | taskCreated (r j : Nat)
  | taskDone (r j : Nat)
  | incremented (r : Nat) (x : Var)
  deriving DecidableEq, Repr

/-- The part of a window that a lock protects. -/
abbrev Key := Win × Nat

abbrev MStep := Step Access Token Key

namespace Program

variable (P : Program)

/-! ## Reading the text of a rank -/

/-- How many statements with `p` stand before position `k`. -/
def countBefore (r k : Nat) (p : Stmt → Bool) : Nat :=
  ((P.items r).take k).countP fun it => it.stmt?.any p

/-- The last position before `k` of a statement with `p`. -/
def lastBefore (r k : Nat) (p : Stmt → Bool) : Option Nat :=
  (List.range k).reverse.find? fun j => (P.stmtAt r j).any p

/-- The positions before `k` of the communication calls with `p`. -/
def opsBefore (r k : Nat) (p : Rma → Bool) : List Nat :=
  (List.range k).filter fun j =>
    match P.stmtAt r j with
    | some (.rma c) => p c
    | _ => false

def isStart (w : Win) (t : Nat) : Stmt → Bool
  | .start w' g => w' == w && g.contains t
  | _ => false

def isPost (w : Win) (o : Nat) : Stmt → Bool
  | .post w' g => w' == w && g.contains o
  | _ => false

def isLock (w : Win) (t : Nat) : Stmt → Bool
  | .lock w' _ t' => w' == w && t' == t
  | _ => false

/-- The processes of an access or exposure epoch. -/
def group : Option Stmt → List Nat
  | some (.start _ g) => g
  | some (.post _ g) => g
  | _ => []

/-- What a statement at position `j` means for the epoch of a later call to `t`: the tokens that
match the epoch it opens, or none when it ends an epoch. -/
def opener (r : Nat) (w : Win) (t j : Nat) : Stmt → Option (List Token)
  | .lock w' _ t' => if w' = w ∧ t' = t then some [.granted r j] else none
  | .lockAll w' => if w' = w then some [.granted r j] else none
  | .start w' g => if w' = w ∧ t ∈ g then
      some [.posted w t r (P.countBefore r j (isStart w t))] else none
  | .unlock w' t' => if w' = w ∧ t' = t then some [] else none
  | .unlockAll w' | .complete w' | .fenceLeave w' => if w' = w then some [] else none
  | _ => none

/-- The tokens that match the epoch of the call `c` at position `k`. -/
def epochTokens (r k : Nat) (c : Rma) : List Token :=
  ((List.range k).reverse.findSome? fun j =>
    (P.stmtAt r j).bind (P.opener r c.win c.target j)).getD []

/-! ## The steps of a thread -/

/-- The step of a statement at position `k` of rank `r`. -/
def stmtStep (r k : Nat) : Stmt → MStep
  | .decl _ | .leaveBlock _ | .winAllocate _ | .conflict _ | .start _ _ => {}
  | .load l => { accs := [l.access r .load .load] }
  | .store l => { accs := [l.access r .store .store] }
  | .atomicIncr x =>
    { accs := [(Loc.var x).access r .ompAtomicWrite .store], signals := [.incremented r x] }
  | .atomicRead x found =>
    { waitsAny := if found then [.incremented r x] else []
      accs := [(Loc.var x).access r .ompAtomicRead .load] }
  | .rma _ => { signals := [.issued r k] }
  | .waitReq =>
    { waits := (P.lastBefore r k fun s => match s with
        | .rma c => c.isRequest
        | _ => false).toList.map (.localDone r) }
  | .barrierEnter => { signals := [.bar r (P.countBefore r k (· == .barrierEnter))] }
  | .barrierLeave =>
    { waits := (List.range P.procs).map (.bar · (P.countBefore r k (· == .barrierLeave))) }
  | .send b dst =>
    { accs := [(Loc.var b).access r .load .load]
      signals := [.sent r dst (P.countBefore r k fun s => match s with
        | .send _ d => d == dst
        | _ => false)] }
  | .recv b src =>
    { waits := [.sent src r (P.countBefore r k fun s => match s with
        | .recv _ s => s == src
        | _ => false)]
      accs := [(Loc.var b).access r .store .store] }
  | .fenceEnter w =>
    { waits := (P.opsBefore r k (·.win == w)).map (.done r)
      signals := [.fence w r (P.countBefore r k (· == .fenceEnter w))] }
  | .fenceLeave w =>
    { waits := (List.range P.procs).map (.fence w · (P.countBefore r k (· == .fenceLeave w))) }
  | .lock _ _ _ | .lockAll _ => { signals := [.lockCall r k] }
  | .locked _ t => { waits := if t = r then [.granted r (k - 1)] else [] }
  | .unlock w t =>
    match P.lastBefore r k (isLock w t) with
    | some j =>
      { waits := .granted r j :: (P.opsBefore r k fun c => c.win == w && c.target == t).map (.done r)
        signals := [.unlocked r j] }
    | none => {}
  | .unlockAll w =>
    match P.lastBefore r k (· == .lockAll w) with
    | some j =>
      { waits := .granted r j :: (P.opsBefore r k (·.win == w)).map (.done r)
        signals := [.unlocked r j] }
    | none => {}
  | .flush w t => { waits := (P.opsBefore r k fun c => c.win == w && c.target == t).map (.done r) }
  | .flushAll w => { waits := (P.opsBefore r k (·.win == w)).map (.done r) }
  | .flushLocal w t =>
    { waits := (P.opsBefore r k fun c => c.win == w && c.target == t).map (.localDone r) }
  | .flushLocalAll w => { waits := (P.opsBefore r k (·.win == w)).map (.localDone r) }
  | .complete w =>
    { waits := (P.opsBefore r k (·.win == w)).map (.done r)
      signals := (P.lastBefore r k fun s => match s with
        | .start w' _ => w' == w
        | _ => false).toList.flatMap fun j => (group (P.stmtAt r j)).map fun t =>
          .completed w r t (P.countBefore r j (isStart w t)) }
  | .post w g => { signals := g.map fun o => .posted w r o (P.countBefore r k (isPost w o)) }
  | .wait w =>
    { waits := (P.lastBefore r k fun s => match s with
        | .post w' _ => w' == w
        | _ => false).toList.flatMap fun j => (group (P.stmtAt r j)).map fun o =>
          .completed w o r (P.countBefore r j (isPost w o)) }
  | .freeEnter w => { signals := [.free w r (P.countBefore r k (· == .freeEnter w))] }
  | .freeLeave w =>
    { waits := (List.range P.procs).map (.free w · (P.countBefore r k (· == .freeLeave w))) }

/-- The tasks created before position `k`. -/
def tasksBefore (r k : Nat) : List Nat :=
  ((P.items r).take k).filterMap fun it =>
    match it.act with
    | .taskCreate j => some j
    | _ => none

/-- The step of thread or task `tid` for an item it executes. A team barrier is left when all threads
have entered it and all tasks are done. -/
def actStep (r tid k : Nat) : Omp.Act Stmt → MStep
  | .stmt s => P.stmtStep r k s
  | .fork => if tid = 0 then { signals := [.fork r k] } else { waits := [.fork r k] }
  | .enter => { signals := [.team r k tid] }
  | .leave =>
    { waits := (List.range P.team).map (.team r (k - 1)) ++ (P.tasksBefore r k).map (.taskDone r) }
  | .orderedBegin loop i => { waits := if i = 0 then [] else [.ordered r loop (i - 1)] }
  | .orderedEnd loop i => { signals := [.ordered r loop i] }
  | .taskCreate j => { signals := [.taskCreated r j] }
  | .taskBegin j => { waits := [.taskCreated r j] }
  | .taskEnd j => { signals := [.taskDone r j] }
  | .taskWait => { waits := (P.tasksBefore r k).map (.taskDone r) }

/-- Thread `tid` of rank `r`: its steps stand at the positions of the items it executes. -/
def threadCode (r tid : Nat) : List MStep :=
  (P.items r).zipIdx.map fun (it, k) => if it.who.runs tid then P.actStep r tid k it.act else .skip

def taskCode (r j : Nat) : List MStep :=
  (P.items r).zipIdx.map fun (it, k) => if it.who = .task j then P.actStep r 0 k it.act else .skip

/-! ## Transfers and lock requests -/

/-- The transfer of the call `c` at position `k` of rank `r`. -/
def opCode (r k : Nat) (c : Rma) : List MStep :=
  [ { waits := .issued r k :: P.epochTokens r k c
      accs := (c.origin.toList ++ c.compare.toList).map (·.access r .localRead c.call)
      signals := if c.result.isNone then [.localDone r k] else [] },
    { accs := [c.targetAccess]
      signals := if c.result.isNone then [.done r k] else [] },
    { accs := c.result.toList.map (·.access r .localWrite c.call)
      signals := if c.result.isSome then [.localDone r k, .done r k] else [] } ]

/-- The request of the lock call `s` at position `k` of rank `r`. -/
def grantCode (r k : Nat) : Option Stmt → List MStep
  | some (.lock w excl t) =>
    [{ waits := [.lockCall r k], locks := [⟨(w, t), excl, .unlocked r k⟩]
       signals := [.granted r k] }]
  | some (.lockAll w) =>
    [{ waits := [.lockCall r k]
       locks := (List.range P.procs).map fun t => ⟨(w, t), false, .unlocked r k⟩
       signals := [.granted r k] }]
  | _ => []

def code : Actor → List MStep
  | .thread r tid => if r < P.procs ∧ tid < P.team then P.threadCode r tid else []
  | .task r j => if r < P.procs then P.taskCode r j else []
  | .op r k =>
    if r < P.procs then
      match P.stmtAt r k with
      | some (.rma c) => P.opCode r k c
      | _ => []
    else []
  | .grant r k => if r < P.procs then P.grantCode r k (P.stmtAt r k) else []

/-- **The causal system of a program.** -/
def system : System Actor Access Token Key where
  code := P.code
  sees _ _ _ := False

end Program

end Mpi
