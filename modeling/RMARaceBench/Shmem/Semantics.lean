import RMARaceBench.Causal.Text

/-!
# SHMEM programs

The statements of the SHMEM templates and the causal system of a program. Every PE is a text; an
update that it issues is an actor of its own that reads the source, is delivered at the target and
sets a flag there, each at any later time. `shmem_quiet`, `shmem_barrier_all`, `shmem_ctx_quiet` and
`shmem_ctx_destroy` wait for the updates of their own context only. Accesses to flags belong to the
synchronization routines and are tokens, not accesses.
-/

set_option autoImplicit false

namespace Shmem

open Causal

/-! ## Statements -/

/-- The variables of `main` and of the templates' blocks; `data i` is an element of an array. -/
inductive Var
  | remote | localbuf | numPe | myPe | myval
  | data (i : Nat)
  deriving DecidableEq, Repr

/-- The variables that only synchronization routines access. -/
inductive Flag
  | flag | signal
  deriving DecidableEq, Repr

inductive Ctx
  | default | ctx | ctx2
  deriving DecidableEq, Repr

/-- An update of the memory of `target`. Without `source` the call is given the value itself. -/
structure Update where
  ctx : Ctx := .default
  source : Option Var := none
  dest : Option Var := none
  atomic : Bool := false
  flag : Option Flag := none
  target : Nat
  deriving DecidableEq, Repr

inductive Stmt
  | load (x : Var)
  | store (x : Var)
  /-- Issues an update. -/
  | issue (u : Update)
  /-- The return of the blocking put that stands directly before. -/
  | returned
  | fence
  | quiet
  | ctxCreate (c : Ctx)
  | ctxQuiet (c : Ctx)
  | ctxDestroy (c : Ctx)
  | barrierEnter
  | barrierLeave
  /-- `shmem_wait_until(f, SHMEM_CMP_EQ, 1)`. -/
  | waitUntil (f : Flag)
  /-- `shmem_signal_fetch(f)`, which returns 1 or does not. -/
  | signalFetch (f : Flag) (found : Bool)
  | teamSplit
  | teamSyncEnter
  | teamSyncLeave (members : List Nat)
  | teamDestroy
  deriving DecidableEq, Repr

def Stmt.update? : Stmt → Option Update
  | .issue u => some u
  | _ => none

/-! ## The source's calls -/

def shmemBarrierAll : List Stmt := [.barrierEnter, .barrierLeave]

def shmemTeamSync (members : List Nat) : List Stmt := [.teamSyncEnter, .teamSyncLeave members]

def printf (xs : List Var) : List Stmt := xs.map .load

/-- `if (my_pe == q) { .. }` on PE `pe`. -/
def ifPe (pe q : Nat) (ss : List Stmt) : List Stmt := .load .myPe :: if pe = q then ss else []

/-! ## The causal system -/

/-- An access to a variable of PE `pe`. -/
structure Access where
  pe : Nat
  var : Var
  write : Bool
  atomic : Bool := false
  deriving DecidableEq, Repr

/-- Two accesses to one variable conflict when one of them writes, unless both are atomic. -/
def Access.Conf (m m' : Access) : Prop :=
  m.pe = m'.pe ∧ m.var = m'.var ∧ (m.write = true ∨ m'.write = true) ∧
    ¬ (m.atomic = true ∧ m'.atomic = true)

theorem Access.Conf.symm {m m' : Access} (h : m.Conf m') : m'.Conf m :=
  ⟨h.1.symm, h.2.1.symm, h.2.2.1.symm, fun ha => h.2.2.2 ha.symm⟩

inductive Actor
  | pe (r : Nat)
  /-- The update at position `k` of PE `r`. -/
  | update (r k : Nat)
  deriving DecidableEq, Repr

inductive Token
  | issued (r k : Nat)
  /-- The source of the update may be reused. -/
  | localDone (r k : Nat)
  /-- The update is complete at its target. -/
  | done (r k : Nat)
  /-- PE `r` has entered its barrier number `c`. -/
  | bar (r c : Nat)
  | team (r c : Nat)
  /-- The flag `f` of PE `r` has been set. -/
  | raised (r : Nat) (f : Flag)
  deriving DecidableEq, Repr

abbrev SStep := Step Access Token Empty

/-- A program: the texts of `pes` PEs. -/
structure Program where
  pes : Nat
  text : Nat → List Stmt

namespace Program

variable (P : Program)

/-- The update that PE `r` issues at position `k`. -/
def updateAt (r k : Nat) : Option Update := (P.text r)[k]?.bind Stmt.update?

/-- The positions before `k` of the updates with `p`. -/
def updatesBefore (r k : Nat) (p : Update → Bool) : List Nat :=
  Text.before (P.text r) k fun s => s.update?.any p

def countBefore (r k : Nat) (s : Stmt) : Nat := Text.countBefore (P.text r) k (· == s)

/-- `shmem_fence` is called between the positions `j` and `k`. -/
def fencedFrom (r j k : Nat) : Bool :=
  (List.range k).any fun f => decide (j < f) && (P.text r)[f]? == some .fence

/-- The earlier updates that a fence puts before the update `u` at position `k`. -/
def fencedBefore (r k : Nat) (u : Update) : List Nat :=
  (P.updatesBefore r k fun v => v.ctx == .default && u.ctx == .default && v.target == u.target).filter
    (P.fencedFrom r · k)

/-- The step of a statement at position `k` of PE `r`. -/
def stmtStep (r k : Nat) : Stmt → SStep
  | .load x => { accs := [⟨r, x, false, false⟩] }
  | .store x => { accs := [⟨r, x, true, false⟩] }
  | .issue _ => { signals := [.issued r k] }
  | .returned => { waits := [.localDone r (k - 1)] }
  | .fence | .ctxCreate _ | .teamSplit | .teamDestroy => {}
  | .quiet => { waits := (P.updatesBefore r k (·.ctx == .default)).map (.done r) }
  | .ctxQuiet c | .ctxDestroy c => { waits := (P.updatesBefore r k (·.ctx == c)).map (.done r) }
  | .barrierEnter =>
    { waits := (P.updatesBefore r k (·.ctx == .default)).map (.done r)
      signals := [.bar r (P.countBefore r k .barrierEnter)] }
  | .barrierLeave =>
    { waits := (List.range P.pes).map (.bar · (P.countBefore r k .barrierLeave)) }
  | .waitUntil f => { waitsAny := [.raised r f] }
  | .signalFetch f found => { waitsAny := if found then [.raised r f] else [] }
  | .teamSyncEnter => { signals := [.team r (P.countBefore r k .teamSyncEnter)] }
  | .teamSyncLeave members =>
    { waits := members.map (.team · (P.countBefore r k (.teamSyncLeave members))) }

/-- The update `u` at position `k` of PE `r`. -/
def updateCode (r k : Nat) (u : Update) : List SStep :=
  [ { waits := [.issued r k]
      accs := u.source.toList.map fun x => ⟨r, x, false, false⟩
      signals := [.localDone r k] },
    { waits := (P.fencedBefore r k u).map (.done r)
      accs := u.dest.toList.map fun x => ⟨u.target, x, true, u.atomic⟩ },
    { signals := .done r k :: u.flag.toList.map (.raised u.target) } ]

def code : Actor → List SStep
  | .pe r => if r < P.pes then (P.text r).mapIdx (P.stmtStep r) else []
  | .update r k =>
    if r < P.pes then
      match P.updateAt r k with
      | some u => P.updateCode r k u
      | none => []
    else []

/-- **The causal system of a program.** -/
def system : System Actor Access Token Empty where
  code := P.code

end Program

end Shmem
