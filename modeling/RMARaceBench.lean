import RMARaceBench.Causal.System
import RMARaceBench.Causal.Order
import RMARaceBench.Causal.Must
import RMARaceBench.Causal.Text
import RMARaceBench.Causal.Progress
import RMARaceBench.Causal.Exec
import RMARaceBench.Causal.Check
import RMARaceBench.Generator.Name
import RMARaceBench.Generator.Combinations
import RMARaceBench.Generator.Kind
import RMARaceBench.Mpi.Cases
import RMARaceBench.Mpi.SyncRaceFree
import RMARaceBench.Mpi.RaceLabels
import RMARaceBench.Mpi.RequestCase
import RMARaceBench.Mpi.EpochCases
import RMARaceBench.Mpi.HybridRaceFree
import RMARaceBench.Shmem.Templates
import RMARaceBench.Shmem.SyncRaceFree
import RMARaceBench.Shmem.Contexts
import RMARaceBench.Gaspi.SyncRaceFree
import RMARaceBench.Generator.Operations
import RMARaceBench.Runner.Command
import RMARaceBench.Runner.Tools
import RMARaceBench.Runner.Runs
import RMARaceBench.Pipe.Process
import RMARaceBench.Runner.Classify
import RMARaceBench.Runner.Wait
import RMARaceBench.Dict.Basic
import RMARaceBench.Runner.Results
import RMARaceBench.Report.Statistics
import RMARaceBench.Report.Tables
import RMARaceBench.Omp.Reach
import RMARaceBench.Hybrid.Support
import RMARaceBench.Hybrid.Shmem
import RMARaceBench.Hybrid.Gaspi
import RMARaceBench.Hybrid.Mpi
import RMARaceBench.Hybrid.Cases
import RMARaceBench.Mpi.BufferScope
import RMARaceBench.Mpi.BufferCases
import RMARaceBench.Generator.Replace
import RMARaceBench.Generator.Tokens
import RMARaceBench.Generator.Macros
import RMARaceBench.Generator.MacroRewrite
import RMARaceBench.Generator.MacroCases
import RMARaceBench.Runner.Merge
import RMARaceBench.Report.Total
import RMARaceBench.Generator.CaseFiles
import RMARaceBench.Generator.Numbers
import RMARaceBench.Generator.Labels
import RMARaceBench.Generator.LabelText
import RMARaceBench.Generator.LabelRead
import RMARaceBench.Generator.LabelLines
import RMARaceBench.Generator.ReadBack
import RMARaceBench.Generator.Performs
import RMARaceBench.Generator.MarkedTemplates
import RMARaceBench.Generator.RacePair
import RMARaceBench.Generator.Registered
import RMARaceBench.Causal.Keys
import RMARaceBench.Mpi.Keys
import RMARaceBench.Mpi.Verdicts
import RMARaceBench.Causal.Plan
import RMARaceBench.Mpi.Completion
import RMARaceBench.Mpi.Flat
import RMARaceBench.Mpi.Deadlock
