import RMARaceBench.Hybrid.Support
import RMARaceBench.Mpi.Cases

/-!
# Thread support of `templates/MPIRMA/hybrid`

The hybrid templates of the MPI model with the initialization that the boilerplate chooses by
`threaded`. Of the statements only the calls are kept; the routine of a call is the statement itself.
-/

set_option autoImplicit false

namespace Hybrid

open Omp

/-- What a statement of the MPI model is as a call. -/
def ofMpi : Mpi.Stmt → Stmt Mpi.Stmt
  | .decl _ | .leaveBlock _ | .load _ | .store _ | .atomicIncr _ | .atomicRead _ _ | .conflict _ => .plain
  -- the return of the `MPI_Win_lock` in front of it
  | .locked _ _ => .plain
  | .barrierEnter => .enter .barrierEnter
  | .barrierLeave => .leave .barrierEnter
  | .fenceEnter w => .enter (.fenceEnter w)
  | .fenceLeave w => .leave (.fenceEnter w)
  | .freeEnter w => .enter (.freeEnter w)
  | .freeLeave w => .leave (.freeEnter w)
  | s => .call s

/-- `MPI_Init`, or `MPI_Init_thread` and the check of what it provides. -/
def mpiInit (threaded : Bool) : List (Stmt Mpi.Stmt) :=
  if threaded then [.init .multiple, .plain] else [.init .single]

/-- The text of a rank in front of the block `main`. -/
def mpiPrologue (tp : Mpi.Template) (threaded : Bool) : List (Stmt Mpi.Stmt) :=
  Mpi.prologue.map ofMpi ++ mpiInit threaded ++ tp.winAllocate.map ofMpi

/-- A template of the MPI model as a program of calls, for `procs` processes. -/
def mpiProgram (tp : Mpi.Template) (threaded : Bool) (cx : Mpi.Ctx) (procs : Nat) :
    Program (Stmt Mpi.Stmt) where
  procs := procs
  team := cx.team
  items rank := seq (mpiPrologue tp threaded) ++
    ((tp.main cx rank).map (Item.map ofMpi) ++ seq (Mpi.epilogue.map ofMpi))

/-! ## Guarded regions -/

section
variable {cx : Mpi.Ctx}

theorem guarded_ifRank {rank q : Nat} {ss : List (Item Mpi.Stmt)} (hs : Guarded ss) :
    Guarded (Mpi.ifRank rank q ss) := by
  unfold Mpi.ifRank
  split
  · exact hs
  · exact .nil

theorem guarded_localFrame {region : List (Item Mpi.Stmt)} (hr : Guarded region) (rank : Nat) :
    Guarded (Mpi.Template.localFrame region rank) :=
  ((Guarded.seq _).append (guarded_ifRank (hr.append (.seq _)))).append (guarded_ifRank (.seq _))

theorem guarded_remoteFrame {mark : List Mpi.Stmt} {region : List (Item Mpi.Stmt)}
    (hr : Guarded region) (rank : Nat) : Guarded (Mpi.Template.remoteFrame mark region rank) :=
  ((Guarded.seq _).append (guarded_ifRank (.seq _))).append (guarded_ifRank hr)

theorem guarded_taskRegion {rank : Nat} {body : List Mpi.Stmt} {rest : Who → List (Item Mpi.Stmt)}
    (hr : ∀ t, Threaded (rest (.thread t))) :
    Guarded (Mpi.Template.taskRegion cx rank body rest) :=
  .append (.seq _) (.parallel_single_task hr 0 _ _)

/-- Everything outside of the initial thread stands behind a fork. -/
theorem guarded_main {st : Mpi.SourceTemplate} (hst : st ∈ Mpi.srcHybridTemplates) (rank : Nat) :
    Guarded (st.template.main cx rank) := by
  have hprint : ∀ t, Threaded (on (.thread t) Mpi.Template.printWin) := fun t => .thread t _
  simp only [Mpi.srcHybridTemplates, List.mem_cons, List.not_mem_nil, or_false] at hst
  rcases hst with rfl | rfl | rfl | rfl | rfl | rfl | rfl | rfl | rfl | rfl | rfl | rfl | rfl | rfl |
    rfl | rfl | rfl | rfl | rfl | rfl | rfl | rfl
  · exact guarded_localFrame (.parallel ((Threaded.master _).append (.each _))) rank
  · exact guarded_localFrame (.parallel (((Threaded.master _).append .barrier).append (.each _))) rank
  · exact guarded_localFrame (.parallel ((Threaded.thread _ _).append (.each _))) rank
  · exact guarded_localFrame (.parallel ((Threaded.single fun t => .thread t _).append (.each _))) rank
  · exact guarded_localFrame (.parallel (.forOrdered _)) rank
  · exact guarded_localFrame (.parallel (.forLoop _)) rank
  · exact guarded_localFrame (.parallel (.sections _)) rank
  · exact guarded_localFrame (.parallel ((Threaded.sections _).append (.sections _))) rank
  · exact guarded_localFrame (guarded_taskRegion fun t => .thread t _) rank
  · exact guarded_localFrame (guarded_taskRegion fun t => (Threaded.taskwait t).append (hprint t)) rank
  · exact guarded_remoteFrame (.parallel ((Threaded.master _).append (.each _))) rank
  · exact guarded_remoteFrame (.parallel (((Threaded.master _).append .barrier).append (.each _))) rank
  · exact guarded_remoteFrame (.parallel ((Threaded.thread _ _).append (.each _))) rank
  · exact guarded_remoteFrame (.parallel ((Threaded.single fun t => .thread t _).append (.each _))) rank
  · exact guarded_remoteFrame (guarded_taskRegion fun t => .thread t _) rank
  · exact guarded_remoteFrame (guarded_taskRegion fun t => (Threaded.taskwait t).append (hprint t)) rank
  · exact guarded_remoteFrame (.parallel (.sections _)) rank
  · exact guarded_remoteFrame (.parallel ((Threaded.sections _).append (.sections _))) rank
  · exact guarded_remoteFrame (.parallel (.forOrdered _)) rank
  · exact guarded_remoteFrame (.parallel (.forLoop _)) rank
  · exact ((Guarded.seq _).append (guarded_ifRank (.parallel (.sections _)))).append
      (guarded_ifRank (.seq _))
  · exact ((Guarded.seq _).append (guarded_ifRank (.parallel (.sections _)))).append
      (guarded_ifRank (.seq _))

/-- **Every hybrid case of MPI is supported.** -/
theorem mpi_supported {st : Mpi.SourceTemplate} (hst : st ∈ Mpi.srcHybridTemplates) (cx : Mpi.Ctx)
    (procs : Nat) : Supported (mpiProgram st.template true cx procs) :=
  supported_of_multiple fun rank => ⟨mpiPrologue st.template true, _, rfl,
    ((guarded_main hst rank).map _).append (.seq _), by simp [mpiPrologue, mpiInit]⟩

end

end Hybrid
