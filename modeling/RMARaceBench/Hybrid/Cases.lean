import RMARaceBench.Hybrid.Shmem
import RMARaceBench.Hybrid.Gaspi
import RMARaceBench.Hybrid.Mpi

/-!
# Thread support of the hybrid cases

The cases of `src_hybrid_templates`, all of them rendered with `threaded`. The boilerplates of MPI and
GASPI react to it; that of SHMEM calls `shmem_init` in any case, so that its cases depend on the thread
that a construct is assigned to.
-/

set_option autoImplicit false

namespace Hybrid

open Omp

/-- A case of `src_hybrid_templates`. -/
inductive Case
  | mpi (c : Mpi.Case) (hc : c ∈ Mpi.genDiscipline Mpi.srcHybridTemplates)
  | shmem (c : Shmem.Case)
  | gaspi (c : Gaspi.Case)

namespace Case

/-- In every run of the case with the assignment `T`, and whatever rounds its polling loops take,
threads only call the library when it was initialized for them. -/
def Supported (T : Team) (rounds : Nat → Nat) : Case → Prop
  | mpi c _ =>
    Hybrid.Supported (mpiProgram c.template c.threaded ⟨c.race, c.op1, c.op2, T, rounds⟩ c.nprocs)
  | shmem c => Hybrid.Supported (c.program true T rounds)
  | gaspi c => Hybrid.Supported (c.program true T rounds)

/-- The threads that must be the initial one. -/
def callers (T : Team) : Case → List Nat
  | mpi _ _ | gaspi _ => []
  | shmem c => c.callers T

end Case

theorem mem_hybrid {c : Mpi.Case} (hc : c ∈ Mpi.genDiscipline Mpi.srcHybridTemplates) :
    ∃ st ∈ Mpi.srcHybridTemplates, c.template = st.template ∧ c.threaded = true := by
  have hall : ∀ st ∈ Mpi.srcHybridTemplates, st.threaded = true := by
    simp [Mpi.srcHybridTemplates]
  obtain ⟨⟨c', k⟩, hmem, rfl⟩ := List.mem_map.1 hc
  have hc' := List.fst_mem_of_mem_zipIdx hmem
  simp only [List.mem_flatMap, List.mem_map] at hc'
  obtain ⟨st, hst, ⟨op1, op2⟩, -, race, -, rfl⟩ := hc'
  exact ⟨st, hst, rfl, hall st hst⟩

/-- **Threads only call the library when it was initialized for them**: always in the cases of MPI and
GASPI, in those of SHMEM exactly when the constructs that call it run on the initial thread. -/
theorem case_supported_iff (c : Case) (T : Team) (rounds : Nat → Nat) :
    c.Supported T rounds ↔ ∀ t ∈ c.callers T, t = 0 := by
  cases c with
  | mpi c hc =>
    refine ⟨fun _ t ht => (nomatch ht), fun _ => ?_⟩
    obtain ⟨st, hst, htp, hth⟩ := mem_hybrid hc
    rw [Case.Supported, htp, hth]
    exact mpi_supported hst _ _
  | gaspi c => exact ⟨fun _ t ht => (nomatch ht), fun _ => Gaspi.supported c T rounds⟩
  | shmem c => exact Shmem.supported_iff c true T rounds

/-- `shmem-hybrid-section-remote-no` when thread 1 takes the first section, which calls
`shmem_sync_all`. -/
theorem sectionRemoteNo_not_supported :
    ¬ (Case.shmem .sectionRemoteNo).Supported
      ⟨2, Nat.two_pos, fun _ => 0, fun _ _ => 1, fun _ _ => 0, fun _ => 0⟩ fun _ => 0 := by
  intro h
  have hne := (Shmem.supported_iff _ _ _ _).1 h 1 (List.mem_singleton.2 rfl)
  cases hne

end Hybrid
