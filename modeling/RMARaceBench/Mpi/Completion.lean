import RMARaceBench.Causal.Plan
import RMARaceBench.Mpi.Keys
import RMARaceBench.Mpi.Scale
import RMARaceBench.Mpi.Events

/-!
# MPI programs that finish

`Program.Finishes`: every run can be continued until all statements have been executed and all transfers
and lock requests are over. So no interleaving of processes, transfers and lock grants leads into a
deadlock. For a sequential program one execution shows this (`finishes_of_finishB`).
-/

set_option autoImplicit false

namespace Mpi

open Causal Causal.System Omp

namespace Program

variable (P : Program)

/-- Everything has happened: the items of the ranks, the transfers and the lock requests. -/
structure Finished (h : List (Event Actor)) : Prop where
  items : ∀ {x r it}, P.Performs x r it → x ∈ h
  transfers : ∀ {r k i s}, P.system.step (.op r k, i) = some s → (.op r k, i) ∈ h
  requests : ∀ {r k i s}, P.system.step (.grant r k, i) = some s → (.grant r k, i) ∈ h

/-- No run gets stuck. -/
def Finishes : Prop := ∀ h, P.system.Run h → ∃ h', P.system.Run (h' ++ h) ∧ P.Finished (h' ++ h)

/-- The check for a sequential program. -/
def finishB : Bool :=
  @completeB Actor Access Token Key (eqOfKeys Actor.key Actor.key_inj)
    (eqOfKeys Token.key Token.key_inj) inferInstance P.system P.core (.thread 0 0, 1000) 12 200

variable {P} {t : Nat}

/-- The number of threads makes no difference to a sequential program. -/
theorem agrees_scale (hs : P.Sequential) (hp : 0 < P.team) (ht : 0 < t) :
    Agrees P.system (P.scale P.procs t).system P.core where
  code a ha := by
    refine List.ext_getElem? fun i => Option.ext fun s => ?_
    change (P.scale P.procs t).system.step (a, i) = some s ↔ P.system.step (a, i) = some s
    have hm := (mem_core.1 ha).2
    cases a with
    | thread r tid =>
      obtain rfl : tid = 0 := hm
      rw [step_thread, step_thread]
      refine and_congr_right fun _ => ⟨?_, ?_⟩
      · rintro ⟨-, it, hit, rfl⟩
        obtain ⟨hw, st, hact, -⟩ := hs.item hit
        exact ⟨hp, it, hit, by rw [hw, hact]; rfl⟩
      · rintro ⟨-, it, hit, rfl⟩
        obtain ⟨hw, st, hact, -⟩ := hs.item hit
        exact ⟨ht, it, hit, by rw [hw, hact]; rfl⟩
    | task r j => exact absurd hm id
    | op r k => exact Iff.rfl
    | grant r k => exact Iff.rfl
  quiet a ha s hmem := by
    obtain ⟨i, hi⟩ := List.mem_iff_getElem?.1 hmem
    rcases Sequential.main (P := P.scale P.procs t) hs hi with rfl | ⟨hr, hm⟩
    · exact ⟨rfl, rfl⟩
    · exact absurd (mem_core.2 ⟨hr, hm⟩) ha

/-- A lock request belongs to a lock call. -/
theorem main_of_grant {r k i : Nat} {s : MStep} (h : P.system.step (.grant r k, i) = some s) :
    r < P.procs ∧ P.Main (.grant r k) := by
  obtain ⟨hlt, hcode⟩ := step_grant.1 h
  refine ⟨hlt, ?_⟩
  unfold grantCode at hcode
  split at hcode
  · rename_i w e t hst
    exact .inl ⟨w, e, t, hst⟩
  · rename_i w hst
    exact .inr ⟨w, hst⟩
  · cases hcode

/-- What the main actors of a sequential program have done is all. -/
theorem finished_of_core (hs : P.Sequential) {h : List (Event Actor)} (hr : P.system.Run h)
    (hd : ∀ a ∈ P.core, done h a = (P.system.code a).length) : P.Finished h := by
  have mem : ∀ {a i s}, P.Main a → P.system.step (a, i) = some s → a.rank < P.procs → (a, i) ∈ h := by
    intro a i s hm hst hlt
    rw [Run.mem_iff hr, hd a (mem_core.2 ⟨hlt, hm⟩)]
    exact lt_length_of_step hst
  constructor
  · intro x r it hp
    obtain ⟨hw, st, hact, -⟩ := hs.item hp.item
    have hstep := hp.step
    cases hp with
    | @thread r tid k it hlt htid hit hruns =>
      rw [hw] at hruns
      exact mem (beq_iff_eq.1 hruns) hstep hlt
    | task _ _ hwho => cases hw.symm.trans hwho
  · intro r k i s hst
    obtain ⟨hlt, c, hc, -⟩ := step_op.1 hst
    exact mem ⟨c, hc⟩ hst hlt
  · intro r k i s hst
    obtain ⟨hlt, hm⟩ := main_of_grant hst
    exact mem hm hst hlt

/-- The check gives an execution from every run on. -/
theorem reach_of_finishB (hs : P.Sequential) (hp : 0 < P.team) (hb : P.finishB = true) (ht : 0 < t)
    {h : List (Event Actor)} (hr : (P.scale P.procs t).system.Run h) :
    ∃ h', (P.scale P.procs t).system.Run (h' ++ h) ∧
      ∀ a ∈ P.core, done (h' ++ h) a = ((P.scale P.procs t).system.code a).length := by
  have hb' : completeB P.system P.core (.thread 0 0, 1000) 12 200 = true := by
    unfold finishB at hb
    convert hb
  exact reach_of_completeB (agrees_scale hs hp ht) hb' hr

/-- **A sequential program that one execution completes finishes**, with any number of threads. -/
theorem finishes_of_finishB (hs : P.Sequential) (hp : 0 < P.team) (hb : P.finishB = true)
    (ht : 0 < t) : (P.scale P.procs t).Finishes := by
  intro h hr
  obtain ⟨h', hr', hd⟩ := reach_of_finishB hs hp hb ht hr
  refine ⟨h', hr', finished_of_core (P := P.scale P.procs t) hs hr' fun a ha => hd a ?_⟩
  exact mem_core.2 (mem_core.1 ha)

end Program

end Mpi
