import RMARaceBench.Mpi.Cases
import RMARaceBench.Mpi.Scale

/-!
# Synchronization cases without a race

The `sync` programs whose main block is text of the initial thread and looks at nothing but the rank
(`Template.Plain`) are race free for every number of processes when the race check accepts them for
the number they are generated for and the further ranks do nothing but meet the others
(`Template.Plain.raceFree`).
-/

set_option autoImplicit false

namespace Mpi

open Causal Causal.System Omp

/-- The communication calls of the first `n` ranks go to these ranks. -/
def targetsBelow (n : Nat) (text : Nat → List Stmt) : Bool :=
  (List.range n).all fun r => (text r).all fun s => match s with
    | .rma c => decide (c.target < n)
    | _ => true

namespace Template

variable {tp : Template} {cx cx₀ : Ctx} {text : Nat → List Stmt}

theorem Plain.sequential (hp : tp.Plain cx text) (n : Nat) : (tp.program cx n).Sequential :=
  fun r => ⟨_, hp.items r⟩

/-- The rendering for `n` processes is the one for `m` processes with more of them. -/
theorem Plain.scale (hp : tp.Plain cx text) (hp₀ : tp.Plain cx₀ text) (m n : Nat) :
    tp.program cx n = (tp.program cx₀ m).scale n cx.team.size := by
  have hitems : tp.items cx = tp.items cx₀ := by
    funext r
    rw [hp.items r, hp₀.items r]
  rw [Template.program, Template.program, Program.scale, hitems]

theorem Plain.mem_of_stmtAt (hp : tp.Plain cx text) {n r k : Nat} {s : Stmt}
    (h : (tp.program cx n).stmtAt r k = some s) :
    s ∈ prologue ++ tp.winAllocate ++ (text r ++ epilogue) := by
  obtain ⟨it, hit, hs⟩ := Option.bind_eq_some_iff.1 h
  have hmem : it ∈ tp.items cx r := List.mem_of_getElem? hit
  rw [hp.items r] at hmem
  obtain ⟨s', hs', rfl⟩ := List.mem_map.1 hmem
  obtain rfl : s' = s := Option.some.inj hs
  exact hs'

/-- The frame of the main block has no communication call. -/
def Quiet (tp : Template) : Prop :=
  (prologue ++ tp.winAllocate ++ epilogue).any Stmt.isRma = false

instance (tp : Template) : Decidable tp.Quiet := inferInstanceAs (Decidable (_ = _))

theorem Plain.rma_mem (hp : tp.Plain cx text) (hq : tp.Quiet) {n r k : Nat} {c : Rma}
    (h : (tp.program cx n).stmtAt r k = some (.rma c)) : .rma c ∈ text r := by
  have hmem := hp.mem_of_stmtAt h
  have hout : ∀ s ∈ prologue ++ tp.winAllocate ++ epilogue, s ≠ .rma c :=
    fun s hs he => List.any_eq_false.1 hq s hs (by rw [he]; rfl)
  simp only [List.mem_append] at hmem hout
  rcases hmem with (hm | hm) | hm | hm
  · exact absurd rfl (hout _ (.inl (.inl hm)))
  · exact absurd rfl (hout _ (.inl (.inr hm)))
  · exact hm
  · exact absurd rfl (hout _ (.inr hm))

theorem Plain.closed (hp : tp.Plain cx text) (hq : tp.Quiet) {n : Nat}
    (htarget : targetsBelow n text = true)
    (hrest : ∀ r, n ≤ r → (text r).any Stmt.isRma = false) : (tp.program cx n).Closed := by
  constructor
  · intro r hr k c h
    exact List.any_eq_false.1 (hrest r hr) _ (hp.rma_mem hq h) rfl
  · intro r hr k c h
    simp only [targetsBelow, List.all_eq_true, List.mem_range] at htarget
    exact of_decide_eq_true (htarget r hr _ (hp.rma_mem hq h))

/-- **From the check of one rendering to race freedom of all.** -/
theorem Plain.raceFree (hp : tp.Plain cx text) (hp₀ : tp.Plain cx₀ text) (hq : tp.Quiet) {m : Nat}
    (htarget : targetsBelow m text = true)
    (hrest : ∀ r, m ≤ r → (text r).any Stmt.isRma = false) {conf : Access → Access → Bool}
    (hconf : ∀ a b, conf a b = true → a.Conf b) {fuel : Nat}
    (hcheck : raceCheck (tp.program cx₀ m).system (tp.program cx₀ m).core conf fuel = true)
    {n : Nat} (hn : m ≤ n) : (tp.program cx n).system.RaceFree fun a b => conf a b = true := by
  rw [hp.scale hp₀ m n]
  exact Program.raceFree_scale (hp₀.sequential m) hn (hp₀.closed hq htarget hrest)
    cx₀.team.pos cx.team.pos hconf hcheck

end Template

/-! ## The four programs -/

/-- The operations that a template without `op1` and `op2` is rendered with are not looked at. -/
def anyCtx : Ctx := ⟨false, Op.put, Op.get, Team.alone, fun _ => 0⟩

open Template

/-- The race check of the program for `n` processes. -/
def Template.checked (tp : Template) (n : Nat) : Bool :=
  raceCheck (tp.program anyCtx n).system (tp.program anyCtx n).core Access.conflicts 200

theorem check_sync_no : syncPscwRemoteNo.checked 3 = true ∧
    syncLockExclusive3procsRemoteNo.checked 3 = true ∧
    syncLockSendrecv3procsRemoteNo.checked 3 = true ∧
    syncLockBarrierSameoriginRemoteNo.checked 2 = true := by
  decide +kernel

/-- Put and get of the same target in two exposure epochs. -/
theorem raceFree_pscwRemoteNo (cx : Ctx) {n : Nat} (hn : 3 ≤ n) :
    (syncPscwRemoteNo.program cx n).system.RaceFree Access.Conf := by
  have hp : ∀ cx, syncPscwRemoteNo.Plain cx _ := fun _ => rfl
  refine (hp cx).raceFree (hp anyCtx) (by decide) (by decide) (fun r hr => ?_)
    (fun _ _ h => h) check_sync_no.1 hn
  have h0 : r ≠ 0 := by omega
  have h1 : r ≠ 1 := by omega
  have h2 : r ≠ 2 := by omega
  simp [h0, h1, h2, mpiBarrier, Stmt.isRma]

/-- Put and get under exclusive locks of the same target. -/
theorem raceFree_lockExclusive3procsRemoteNo (cx : Ctx) {n : Nat} (hn : 3 ≤ n) :
    (syncLockExclusive3procsRemoteNo.program cx n).system.RaceFree Access.Conf := by
  have hp : ∀ cx, syncLockExclusive3procsRemoteNo.Plain cx _ := fun _ => rfl
  refine (hp cx).raceFree (hp anyCtx) (by decide) (by decide) (fun r hr => ?_)
    (fun _ _ h => h) check_sync_no.2.1 hn
  have h0 : r ≠ 0 := by omega
  have h2 : r ≠ 2 := by omega
  simp [h0, h2, ifRank, mpiBarrier, Stmt.isRma]

/-- Two puts to the same target with a message between the origins. -/
theorem raceFree_lockSendrecv3procsRemoteNo (cx : Ctx) {n : Nat} (hn : 3 ≤ n) :
    (syncLockSendrecv3procsRemoteNo.program cx n).system.RaceFree Access.Conf := by
  have hp : ∀ cx, syncLockSendrecv3procsRemoteNo.Plain cx _ := fun _ => rfl
  refine (hp cx).raceFree (hp anyCtx) (by decide) (by decide) (fun r hr => ?_)
    (fun _ _ h => h) check_sync_no.2.2.1 hn
  have h0 : r ≠ 0 := by omega
  have h2 : r ≠ 2 := by omega
  simp [h0, h2, ifRank, mpiBarrier, Stmt.isRma]

/-- Put and get of one origin with a flush between them. -/
theorem raceFree_lockBarrierSameoriginRemoteNo (cx : Ctx) {n : Nat} (hn : 2 ≤ n) :
    (syncLockBarrierSameoriginRemoteNo.program cx n).system.RaceFree Access.Conf := by
  have hp : ∀ cx, syncLockBarrierSameoriginRemoteNo.Plain cx _ := fun _ => rfl
  refine (hp cx).raceFree (hp anyCtx) (by decide) (by decide) (fun r hr => ?_)
    (fun _ _ h => h) check_sync_no.2.2.2 hn
  have h0 : r ≠ 0 := by omega
  simp [h0, ifRank, mpiBarrier, Stmt.isRma]

/-- **The cases without a race that synchronize by post, start, complete and wait, by exclusive
locks, by a message or by a flush** have none, for every number of processes. -/
theorem sync_no_raceFree (cx : Ctx) (n : Nat) :
    (3 ≤ n → (syncPscwRemoteNo.program cx n).system.RaceFree Access.Conf) ∧
    (3 ≤ n → (syncLockExclusive3procsRemoteNo.program cx n).system.RaceFree Access.Conf) ∧
    (3 ≤ n → (syncLockSendrecv3procsRemoteNo.program cx n).system.RaceFree Access.Conf) ∧
    (2 ≤ n → (syncLockBarrierSameoriginRemoteNo.program cx n).system.RaceFree Access.Conf) :=
  ⟨raceFree_pscwRemoteNo cx, raceFree_lockExclusive3procsRemoteNo cx,
    raceFree_lockSendrecv3procsRemoteNo cx, raceFree_lockBarrierSameoriginRemoteNo cx⟩

/-- The same at the numbers of processes that the generator asks for. -/
theorem sync_no_raceFree_generated :
    (syncPscwRemoteNo.program anyCtx 3).system.RaceFree Access.Conf ∧
    (syncLockExclusive3procsRemoteNo.program anyCtx 3).system.RaceFree Access.Conf ∧
    (syncLockSendrecv3procsRemoteNo.program anyCtx 3).system.RaceFree Access.Conf ∧
    (syncLockBarrierSameoriginRemoteNo.program anyCtx 2).system.RaceFree Access.Conf :=
  ⟨(sync_no_raceFree anyCtx 3).1 (by decide), (sync_no_raceFree anyCtx 3).2.1 (by decide),
    (sync_no_raceFree anyCtx 3).2.2.1 (by decide), (sync_no_raceFree anyCtx 2).2.2.2 (by decide)⟩

end Mpi
