import RMARaceBench.Causal.Text

/-!
# GASPI programs

The statements of the GASPI templates and the causal system of a program. All posts go to the one
queue `queue_id`. A posted operation is an actor of its own that reads the data, writes the data and
raises its notification slot, each at any later time; a slot is raised after all data that the same
rank has posted before to the same target. `gaspi_wait` gives local completion only. Slots are never
reset: a wait for a slot has observed one of the notifications that raised it, and which one is left
open (`Observation`).
-/

set_option autoImplicit false

namespace Gaspi

open Causal

/-! ## Statements -/

/-- The segments `loc_seg_id` and `remote_seg_id`. -/
inductive Segment
  | loc | remote
  deriving DecidableEq, Repr

inductive Direction
  | write | read
  deriving DecidableEq, Repr

/-- The data of a write or read: cells of the local segment and of the target's remote segment. -/
structure Data where
  direction : Direction
  locCell : Nat := 0
  remoteCell : Nat := 0
  deriving DecidableEq, Repr

/-- A posted operation: `gaspi_write` and `gaspi_read` have data, `gaspi_notify` has a slot of the
target's remote segment and `gaspi_write_notify` has both. -/
structure Post where
  target : Nat
  data : Option Data := none
  slot : Option Nat := none
  deriving DecidableEq, Repr

/-- The operation has data for the local segment. -/
def Post.isRead (p : Post) : Bool := p.data.any (·.direction == .read)

inductive Stmt
  | load (s : Segment) (cell : Nat)
  | store (s : Segment) (cell : Nat)
  | post (p : Post)
  | wait
  /-- `gaspi_notify_waitsome(remote_seg_id, slot, 1, ..)`. -/
  | waitsome (slot : Nat)
  | barrierEnter
  | barrierLeave
  | allreduceEnter
  | allreduceLeave
  /-- `gaspi_passive_send` of the first local cell to `dst`. -/
  | passiveSend (dst : Nat)
  /-- `gaspi_passive_receive` into the first local cell, from any rank. -/
  | passiveReceive
  deriving DecidableEq, Repr

def Stmt.post? : Stmt → Option Post
  | .post p => some p
  | _ => none

/-! ## The source's calls -/

def gaspiBarrier : List Stmt := [.barrierEnter, .barrierLeave]

def gaspiAllreduce : List Stmt := [.allreduceEnter, .allreduceLeave]

def gaspiWrite (locCell target remoteCell : Nat) : Stmt :=
  .post ⟨target, some ⟨.write, locCell, remoteCell⟩, none⟩

def gaspiRead (locCell target remoteCell : Nat) : Stmt :=
  .post ⟨target, some ⟨.read, locCell, remoteCell⟩, none⟩

def gaspiNotify (target slot : Nat) : Stmt := .post ⟨target, none, some slot⟩

def gaspiWriteNotify (locCell target remoteCell slot : Nat) : Stmt :=
  .post ⟨target, some ⟨.write, locCell, remoteCell⟩, some slot⟩

/-- `if (rank == q) { .. }` -/
def ifRank (rank q : Nat) (ss : List Stmt) : List Stmt := if rank = q then ss else []

/-! ## The causal system -/

/-- An access to a cell of a segment of `rank`. -/
structure Access where
  rank : Nat
  segment : Segment
  cell : Nat
  write : Bool
  deriving DecidableEq, Repr

/-- Two accesses to one cell conflict when one of them writes. -/
def Access.Conf (m m' : Access) : Prop :=
  m.rank = m'.rank ∧ m.segment = m'.segment ∧ m.cell = m'.cell ∧ (m.write = true ∨ m'.write = true)

instance (m m' : Access) : Decidable (m.Conf m') := inferInstanceAs (Decidable (_ ∧ _))

theorem Access.Conf.symm {m m' : Access} (h : m.Conf m') : m'.Conf m :=
  ⟨h.1.symm, h.2.1.symm, h.2.2.1.symm, h.2.2.2.symm⟩

inductive Actor
  | rank (r : Nat)
  /-- The operation that rank `r` posts at position `k`. -/
  | op (r k : Nat)
  deriving DecidableEq, Repr

inductive Token
  | posted (r k : Nat)
  /-- The local part of the operation is complete. -/
  | localDone (r k : Nat)
  /-- The data of the operation is delivered. -/
  | delivered (r k : Nat)
  /-- Slot `i` of rank `r` is raised. -/
  | slot (r i : Nat)
  /-- Rank `r` has entered its barrier number `c`. -/
  | bar (r c : Nat)
  | allreduce (r c : Nat)
  | sent (r dst : Nat)
  deriving DecidableEq, Repr

abbrev GStep := Step Access Token Empty

/-- A program: the texts of `ranks` ranks. -/
structure Program where
  ranks : Nat
  text : Nat → List Stmt

namespace Program

variable (P : Program)

/-- The operation that rank `r` posts at position `k`. -/
def postAt (r k : Nat) : Option Post := (P.text r)[k]?.bind Stmt.post?

/-- The positions before `k` of the posts with `p`. -/
def postsBefore (r k : Nat) (p : Post → Bool) : List Nat :=
  Text.before (P.text r) k fun s => s.post?.any p

def countBefore (r k : Nat) (s : Stmt) : Nat := Text.countBefore (P.text r) k (· == s)

/-- The step of a statement at position `k` of rank `r`. -/
def stmtStep (r k : Nat) : Stmt → GStep
  | .load s i => { accs := [⟨r, s, i, false⟩] }
  | .store s i => { accs := [⟨r, s, i, true⟩] }
  | .post _ => { signals := [.posted r k] }
  | .wait => { waits := (P.postsBefore r k fun _ => true).map (.localDone r) }
  | .waitsome i => { waitsAny := [.slot r i] }
  | .barrierEnter => { signals := [.bar r (P.countBefore r k .barrierEnter)] }
  | .barrierLeave =>
    { waits := (List.range P.ranks).map (.bar · (P.countBefore r k .barrierLeave)) }
  | .allreduceEnter => { signals := [.allreduce r (P.countBefore r k .allreduceEnter)] }
  | .allreduceLeave =>
    { waits := (List.range P.ranks).map (.allreduce · (P.countBefore r k .allreduceLeave)) }
  | .passiveSend dst => { accs := [⟨r, .loc, 0, false⟩], signals := [.sent r dst] }
  | .passiveReceive =>
    { waitsAny := (List.range P.ranks).map (.sent · r), accs := [⟨r, .loc, 0, true⟩] }

/-- What an operation reads: a write the local cell of `r`, a read the remote cell of the target. -/
def reads (r : Nat) (p : Post) : List Access :=
  p.data.toList.map fun d => match d.direction with
    | .write => ⟨r, .loc, d.locCell, false⟩
    | .read => ⟨p.target, .remote, d.remoteCell, false⟩

def writes (r : Nat) (p : Post) : List Access :=
  p.data.toList.map fun d => match d.direction with
    | .write => ⟨p.target, .remote, d.remoteCell, true⟩
    | .read => ⟨r, .loc, d.locCell, true⟩

/-- The operation `p` at position `k` of rank `r`: it reads, it writes, it raises its slot. -/
def opCode (r k : Nat) (p : Post) : List GStep :=
  [ { waits := [.posted r k]
      accs := reads r p
      signals := if p.isRead then [] else [.localDone r k] },
    { accs := writes r p
      signals := .delivered r k :: if p.isRead then [.localDone r k] else [] },
    { waits := if p.slot.isSome then
        (P.postsBefore r k fun q => q.target == p.target && q.data.isSome).map (.delivered r) else []
      signals := p.slot.toList.map (.slot p.target) } ]

def code : Actor → List GStep
  | .rank r => if r < P.ranks then (P.text r).mapIdx (P.stmtStep r) else []
  | .op r k =>
    if r < P.ranks then
      match P.postAt r k with
      | some p => P.opCode r k p
      | none => []
    else []

end Program

/-- Which notifications a wait for a slot has observed: at least one that raised the slot. -/
structure Observation (P : Program) where
  sees : List (Event Actor) → Event Actor → Event Actor → Prop
  total : (System.mk P.code sees).Total

/-- The waits that observe every notification so far. -/
def Observation.all (P : Program) : Observation P where
  sees _ _ _ := True
  total := by
    rintro h e s hs ⟨t, ht, x, hx, hsig⟩
    exact ⟨t, ht, x, hx, hsig, trivial⟩

/-- **The causal system of a program.** -/
def Program.system (P : Program) (o : Observation P) : System Actor Access Token Empty where
  code := P.code
  sees := o.sees

end Gaspi
