import RMARaceBench.Mpi.Cases
import RMARaceBench.Mpi.FenceFront
import RMARaceBench.Mpi.Epoch

/-!
# The request-based call in a fence epoch

`MPI-sync-request-local-race` calls `MPI_Rget` between two fences, where only a passive-target epoch
allows it. For every number of processes some run gets there (`FenceFront.lean`). So the program does not
keep to the epoch discipline (`not_disciplined_request`).
-/

set_option autoImplicit false

namespace Mpi

open Causal Causal.System Omp Template

/-- What rank 0 does behind the first fence. -/
def requestCall (race : Bool) : List Stmt :=
  (if race then [.conflict 1] else []) ++ [mpiRget value 1 0]

def requestRest (race : Bool) (rank : Nat) : List Stmt :=
  ifRank rank 0 (requestCall race ++ (if race then [.conflict 2] ++ printf [value] ++ [.waitReq]
    else [.waitReq] ++ printf [value])) ++ winFence .win ++ epilogue

section
variable (cx : Ctx) (n : Nat)

theorem fenced_request : Fenced (syncRequestLocalRace.program cx n) (requestRest cx.race) := by
  refine ⟨cx.team.pos, fun r => ?_⟩
  have hp : syncRequestLocalRace.Plain cx _ := rfl
  have hits : (syncRequestLocalRace.program cx n).items r = _ := hp.items r
  rw [hits]
  cases cx.race <;>
    simp [fenceFront, requestRest, requestCall, ifRank, syncRequestLocalRace]

variable {cx n}

/-- Some run gets to the call. -/
theorem request_run (hn : 0 < n) : ∃ h, (syncRequestLocalRace.program cx n).system.Run h ∧
    (.thread 0 0, fenceFront.length + (requestCall cx.race).length - 1) ∈ h := by
  obtain ⟨post, hrest⟩ : ∃ post, requestRest cx.race 0 = requestCall cx.race ++ post := by
    rw [requestRest, ifRank, if_pos rfl, List.append_assoc, List.append_assoc]
    exact ⟨_, rfl⟩
  have hfree : ∀ race, (requestCall race).all Stmt.free = true := by decide
  obtain ⟨h, hr, hmem⟩ := (fenced_request cx n).run hrest (hfree _) hn
  have hpos : 0 < (requestCall cx.race).length := by cases cx.race <;> decide
  exact ⟨h, hr, hmem _ (by omega)⟩

/-- **No number of processes keeps to the discipline.** -/
theorem not_disciplined_request (hn : 0 < n) : ¬ (syncRequestLocalRace.program cx n).Disciplined := by
  intro hd
  obtain ⟨h, hr, hx⟩ := request_run  hn
  have hits := (fenced_request cx n).items 0
  have hchain : (syncRequestLocalRace.program cx n).Chained 0 := by
    apply Program.chained_of_who (w := .initial) nofun
    rw [hits]
    exact Program.epochalBy_on _ _
  have hmem : ((Actor.thread 0 0, fenceFront.length + (requestCall cx.race).length - 1),
      mpiRget value 1 0) ∈ (syncRequestLocalRace.program cx n).eventsOf Stmt.epochal 0 := by
    refine Program.mem_eventsOf.2 ⟨⟨.initial, .stmt (mpiRget value 1 0)⟩, ?_, rfl, rfl, rfl⟩
    rw [hits]
    cases cx.race <;> rfl
  obtain ⟨d, t, hdt, ht, -, he⟩ := Program.performed_prefix hchain .win hr
  have hsome := hd h hr 0 .win
  rw [he] at hsome
  have hin : ((Actor.thread 0 0, fenceFront.length + (requestCall cx.race).length - 1),
      mpiRget value 1 0) ∈ d := by
    rw [hdt] at hmem
    rcases List.mem_append.1 hmem with hm | hm
    · exact hm
    · exact absurd hx (ht _ hm)
  have htext : d.map (·.2) ++ t.map (·.2) =
      [.fenceEnter .win, .fenceLeave .win, mpiRget value 1 0] ++
        [.fenceEnter .win, .fenceLeave .win, .freeEnter .win] := by
    rw [← List.map_append, ← hdt, Program.statements_eventsOf hchain.single, hits]
    cases cx.race <;> rfl
  -- the call is the third epochal statement of rank 0, and the machine is stuck at it
  rcases d with _ | ⟨a, _ | ⟨b, _ | ⟨c, d⟩⟩⟩
  · simp at hin
  · simp only [List.mem_singleton] at hin
    subst hin
    cases (List.cons.inj htext).1
  · simp only [List.map_cons, List.cons_append, List.cons.injEq] at htext
    rcases List.mem_cons.1 hin with rfl | hin
    · cases htext.1
    · rw [← List.mem_singleton.1 hin] at htext
      cases htext.2.1
  · simp only [List.map_cons, List.cons_append, List.cons.injEq] at htext
    obtain ⟨ha, hb, hc, -⟩ := htext
    simp only [List.map_cons, ha, hb, hc] at hsome
    cases hsome

end

end Mpi
