import RMARaceBench.Mpi.Facts
import RMARaceBench.Causal.Check

/-!
# Race freedom for every number of processes

A program whose ranks run on their initial threads (`Sequential`) is compared with the same program
for more processes (`Program.scale`). The steps of a rank do not depend on the number of processes,
except that the collective calls wait for all of them (`Grows`); so the small program is embedded in
the large one (`embeds`). When the further ranks do not communicate and are no target
(`Program.Closed`), the race check of the small program shows the large one free of races
(`raceFree_scale`).
-/

set_option autoImplicit false

namespace Mpi

open Causal Causal.System Omp

namespace Program

/-- Every rank is text of its initial thread. -/
def Sequential (P : Program) : Prop := ∀ r, ∃ ss, P.items r = seq ss

/-- The same text for `n` processes with teams of `t`. -/
def scale (P : Program) (n t : Nat) : Program := { P with procs := n, team := t }

/-- The actors that can do something in a sequential program. -/
def Main (P : Program) : Actor → Prop
  | .thread _ tid => tid = 0
  | .task _ _ => False
  | .op r k => ∃ c, P.stmtAt r k = some (.rma c)
  | .grant r k => (∃ w e t, P.stmtAt r k = some (.lock w e t)) ∨
      ∃ w, P.stmtAt r k = some (.lockAll w)

/-- The transfer or the lock request that a statement at position `k` starts. -/
def startedBy (r k : Nat) : Option Stmt → List Actor
  | some (.rma _) => [.op r k]
  | some (.lock _ _ _) | some (.lockAll _) => [.grant r k]
  | _ => []

def core (P : Program) : List Actor :=
  (List.range P.procs).flatMap fun r =>
    .thread r 0 :: (List.range (P.items r).length).flatMap fun k => startedBy r k (P.stmtAt r k)

variable {P : Program} {n t r k i : Nat} {a : Actor} {s s' : MStep}

theorem stmtAt_lt {st : Stmt} (h : P.stmtAt r k = some st) : k < (P.items r).length := by
  unfold stmtAt at h
  by_contra hk
  rw [List.getElem?_eq_none (Nat.le_of_not_lt hk)] at h
  cases h

theorem mem_startedBy (st : Option Stmt) : a ∈ startedBy r k st ↔
    (a = .op r k ∧ ∃ c, st = some (.rma c)) ∨
    (a = .grant r k ∧ ((∃ w e t, st = some (.lock w e t)) ∨ ∃ w, st = some (.lockAll w))) := by
  cases st with
  | none => simp [startedBy]
  | some st => cases st <;> simp [startedBy]

theorem mem_core : a ∈ P.core ↔ a.rank < P.procs ∧ P.Main a := by
  simp only [core, List.mem_flatMap, List.mem_range, List.mem_cons, mem_startedBy]
  constructor
  · rintro ⟨r, hr, rfl | ⟨k, -, ⟨rfl, hk⟩ | ⟨rfl, hk⟩⟩⟩
    · exact ⟨hr, rfl⟩
    · exact ⟨hr, hk⟩
    · exact ⟨hr, hk⟩
  · rintro ⟨hr, hm⟩
    refine ⟨a.rank, hr, ?_⟩
    cases a with
    | thread r tid => exact .inl (by rw [show tid = 0 from hm]; rfl)
    | task r j => exact absurd hm id
    | op r k =>
      obtain ⟨c, hc⟩ := id hm
      exact .inr ⟨k, stmtAt_lt hc, .inl ⟨rfl, c, hc⟩⟩
    | grant r k =>
      refine .inr ⟨k, ?_, .inr ⟨rfl, hm⟩⟩
      rcases id hm with ⟨w, e, t, hs⟩ | ⟨w, hs⟩
      · exact stmtAt_lt hs
      · exact stmtAt_lt hs

theorem Sequential.item (hs : P.Sequential) {it : Item Stmt} (h : (P.items r)[k]? = some it) :
    it.who = .initial ∧ ∃ st, it.act = .stmt st ∧ P.stmtAt r k = some st := by
  obtain ⟨ss, hss⟩ := hs r
  rw [stmtAt, h]
  rw [hss] at h
  have := List.mem_of_getElem? h
  simp only [seq, on, List.mem_map] at this
  obtain ⟨st, -, rfl⟩ := this
  exact ⟨rfl, st, rfl, rfl⟩

/-- All other actors do nothing. -/
theorem Sequential.main (hs : P.Sequential) (h : P.system.step (a, i) = some s) :
    s = .skip ∨ a.rank < P.procs ∧ P.Main a := by
  cases a with
  | thread r tid =>
    obtain ⟨hr, -, it, hit, rfl⟩ := step_thread.1 h
    rw [(hs.item hit).1]
    by_cases h0 : tid = 0
    · exact .inr ⟨hr, h0⟩
    · exact .inl (by simp [Who.runs, h0])
  | task r j =>
    obtain ⟨-, it, hit, rfl⟩ := step_task.1 h
    exact .inl (by simp [(hs.item hit).1])
  | op r k =>
    obtain ⟨hr, c, hc, -⟩ := step_op.1 h
    exact .inr ⟨hr, c, hc⟩
  | grant r k =>
    obtain ⟨hr, hc⟩ := step_grant.1 h
    refine .inr ⟨hr, ?_⟩
    unfold grantCode at hc
    split at hc
    · rename_i w e t hst; exact .inl ⟨w, e, t, hst⟩
    · rename_i w hst; exact .inr ⟨w, hst⟩
    · simp at hc

/-! ## From few processes to many -/

/-- `s'` is `s` with possibly more tokens to wait for and more locks to take. -/
structure Grows (s s' : MStep) : Prop where
  waits : s.waits ⊆ s'.waits
  locks : s.locks ⊆ s'.locks
  accs : s.accs = s'.accs
  signals : s.signals = s'.signals

theorem Grows.refl (s : MStep) : Grows s s := ⟨List.Subset.refl _, List.Subset.refl _, rfl, rfl⟩

theorem map_range_subset {α : Type} {m n : Nat} (hmn : m ≤ n) (f : Nat → α) :
    (List.range m).map f ⊆ (List.range n).map f :=
  List.map_subset f (List.range_subset.2 hmn)

theorem grows_stmtStep (hn : P.procs ≤ n) (st : Stmt) :
    Grows (P.stmtStep r k st) ((P.scale n t).stmtStep r k st) := by
  cases st with
  | barrierLeave => exact ⟨map_range_subset hn _, List.Subset.refl _, rfl, rfl⟩
  | fenceLeave w => exact ⟨map_range_subset hn _, List.Subset.refl _, rfl, rfl⟩
  | freeLeave w => exact ⟨map_range_subset hn _, List.Subset.refl _, rfl, rfl⟩
  | _ => exact Grows.refl _

theorem grows_grantCode (hn : P.procs ≤ n) (st : Option Stmt) :
    (∀ s, (P.grantCode r k st)[i]? = some s →
      ∃ s', ((P.scale n t).grantCode r k st)[i]? = some s' ∧ Grows s s') ∧
    ∀ s', ((P.scale n t).grantCode r k st)[i]? = some s' →
      ∃ s, (P.grantCode r k st)[i]? = some s ∧ Grows s s' := by
  unfold grantCode
  split
  · exact ⟨fun s h => ⟨s, h, Grows.refl s⟩, fun s h => ⟨s, h, Grows.refl s⟩⟩
  · rename_i w
    have hg : Grows
        { waits := [.lockCall r k]
          locks := (List.range P.procs).map fun t => ⟨(w, t), false, .unlocked r k⟩
          signals := [.granted r k] }
        { waits := [.lockCall r k]
          locks := (List.range n).map fun t => ⟨(w, t), false, .unlocked r k⟩
          signals := [.granted r k] } :=
      ⟨List.Subset.refl _, map_range_subset hn _, rfl, rfl⟩
    simp only [getElem?_singleton_iff]
    constructor
    · rintro s ⟨hi, rfl⟩
      exact ⟨_, ⟨hi, rfl⟩, hg⟩
    · rintro s ⟨hi, rfl⟩
      exact ⟨_, ⟨hi, rfl⟩, hg⟩
  · simp

section
variable (hs : P.Sequential) (hn : P.procs ≤ n)
include hs hn

/-- The main actors of the first ranks make the same steps in both programs. -/
theorem step_up (ht : 0 < t) (hm : P.Main a) (h : P.system.step (a, i) = some s) :
    ∃ s', (P.scale n t).system.step (a, i) = some s' ∧ Grows s s' := by
  cases a with
  | thread r tid =>
    obtain ⟨hr, -, it, hit, rfl⟩ := step_thread.1 h
    obtain ⟨hw, st, hact, -⟩ := hs.item hit
    obtain rfl : tid = 0 := hm
    refine ⟨_, step_thread.2 ⟨Nat.lt_of_lt_of_le hr hn, ht, it, hit, rfl⟩, ?_⟩
    rw [hw, hact]
    exact grows_stmtStep hn st
  | task r j => exact absurd hm id
  | op r k =>
    obtain ⟨hr, c, hc, hst⟩ := step_op.1 h
    exact ⟨s, step_op.2 ⟨Nat.lt_of_lt_of_le hr hn, c, hc, hst⟩, Grows.refl s⟩
  | grant r k =>
    obtain ⟨hr, hc⟩ := step_grant.1 h
    obtain ⟨s', hs', hg⟩ := (grows_grantCode hn _).1 s hc
    exact ⟨s', step_grant.2 ⟨Nat.lt_of_lt_of_le hr hn, hs'⟩, hg⟩

theorem step_down (hp : 0 < P.team) (ha : a.rank < P.procs) (hm : P.Main a)
    (h : (P.scale n t).system.step (a, i) = some s') :
    ∃ s, P.system.step (a, i) = some s ∧ Grows s s' := by
  cases a with
  | thread r tid =>
    obtain ⟨-, -, it, hit, rfl⟩ := step_thread.1 h
    obtain ⟨hw, st, hact, -⟩ := hs.item hit
    obtain rfl : tid = 0 := hm
    refine ⟨_, step_thread.2 ⟨ha, hp, it, hit, rfl⟩, ?_⟩
    rw [hw, hact]
    exact grows_stmtStep hn st
  | task r j => exact absurd hm id
  | op r k =>
    obtain ⟨-, c, hc, hst⟩ := step_op.1 h
    exact ⟨s', step_op.2 ⟨ha, c, hc, hst⟩, Grows.refl s'⟩
  | grant r k =>
    obtain ⟨-, hc⟩ := step_grant.1 h
    obtain ⟨s, hs', hg⟩ := (grows_grantCode hn _).2 s' hc
    exact ⟨s, step_grant.2 ⟨ha, hs'⟩, hg⟩

/-- **The small program is embedded in the large one.** -/
theorem embeds (hp : 0 < P.team) (ht : 0 < t) :
    Embeds P.system (P.scale n t).system P.core where
  waits a ha i tok := by
    rintro ⟨s, h, htok⟩
    obtain ⟨s', h', hg⟩ := step_up hs hn ht (mem_core.1 ha).2 h
    exact ⟨s', h', hg.waits htok⟩
  signals a ha i tok := by
    rintro hsig ⟨b, j⟩ ⟨s', h', htok⟩
    have hrank : b.rank < P.procs := by
      rw [← show tok.owner = b.rank from owner_of_signals (P := P.scale n t) ⟨s', h', htok⟩,
        owner_of_signals hsig]
      exact (mem_core.1 ha).1
    have hmain : P.Main b := by
      rcases Sequential.main (P := P.scale n t) hs h' with rfl | ⟨-, hm⟩
      · simp [Step.skip] at htok
      · exact hm
    obtain ⟨s, h, hg⟩ := step_down hs hn hp hrank hmain h'
    exact ⟨mem_core.2 ⟨hrank, hmain⟩, s, h, hg.signals ▸ htok⟩
  takes a ha i l := by
    rintro ⟨s, h, hl⟩
    obtain ⟨s', h', hg⟩ := step_up hs hn ht (mem_core.1 ha).2 h
    exact ⟨s', h', hg.locks hl⟩
  accesses a ha i m := by
    rintro ⟨s', h', hm⟩
    obtain ⟨s, h, hg⟩ := step_down hs hn hp (mem_core.1 ha).1 (mem_core.1 ha).2 h'
    exact ⟨s, h, hg.accs ▸ hm⟩

/-- No rank from `P.procs` on communicates, and none is a target. -/
structure Closed (P : Program) : Prop where
  quiet : ∀ r, P.procs ≤ r → ∀ k c, P.stmtAt r k ≠ some (.rma c)
  target : ∀ r, r < P.procs → ∀ k c, P.stmtAt r k = some (.rma c) → c.target < P.procs

omit hn in
/-- Only a thread of its own accesses the memory of a further rank. -/
theorem apart_outside (hc : P.Closed) {b : Actor} (hab : a ≠ b) (ha : a ∉ P.core) :
    (P.scale n t).system.Apart Access.Conf a b := by
  refine Apart.of_disjoint fun i j m m' hm hm' hconf => ?_
  have hrank : m.rank = m'.rank := by
    simp only [Access.Conf, Access.conflicts, Access.overlaps, Bool.and_eq_true, beq_iff_eq]
      at hconf
    exact hconf.1.1.1.1
  obtain ⟨s, hst, hms⟩ := id hm
  -- only the initial thread of a rank from `P.procs` on accesses memory outside of the core
  have hmain : P.Main a := by
    rcases Sequential.main (P := P.scale n t) hs hst with rfl | ⟨-, hmain⟩
    · simp [Step.skip] at hms
    · exact hmain
  have hge : P.procs ≤ a.rank := by
    by_contra hlt
    exact ha (mem_core.2 ⟨by omega, hmain⟩)
  cases a with
  | task r j => exact hmain
  | op r k =>
    obtain ⟨c, hc'⟩ := hmain
    exact hc.quiet r hge k c hc'
  | grant r k => exact not_accesses_grant hm
  | thread r tid =>
    obtain rfl : tid = 0 := hmain
    rw [rank_of_thread hm] at hrank
    have hmain' : P.Main b := by
      obtain ⟨s', hst', hms'⟩ := id hm'
      rcases Sequential.main (P := P.scale n t) hs hst' with rfl | ⟨-, hmain⟩
      · simp [Step.skip] at hms'
      · exact hmain
    cases b with
    | task r' j => exact hmain'
    | grant r' k => exact not_accesses_grant hm'
    | thread r' tid' =>
      obtain rfl : tid' = 0 := hmain'
      rw [rank_of_thread hm'] at hrank
      exact hab (by rw [hrank])
    | op r' k =>
      obtain ⟨-, c, hc', hr'⟩ := rank_of_op hm'
      have hlt : r' < P.procs := by
        by_contra hle
        exact hc.quiet r' (by omega) k c hc'
      have htgt : c.target < P.procs := hc.target r' hlt k c hc'
      have : P.procs ≤ r := hge
      omega

/-- **The race check of the small program shows the large one free of races**, also for a part of the
conflicts. -/
theorem raceFree_scale (hc : P.Closed) (hp : 0 < P.team) (ht : 0 < t) {conf : Access → Access → Bool}
    (hconf : ∀ m m', conf m m' = true → m.Conf m') {fuel : Nat}
    (h : raceCheck P.system P.core conf fuel = true) :
    (P.scale n t).system.RaceFree fun m m' => conf m m' = true := by
  refine raceFree_of_check (embeds hs hn hp ht) (fun a b hab hout => ?_) h
  have hapart : (P.scale n t).system.Apart Access.Conf a b := by
    rcases hout with ha | hb
    · exact apart_outside hs hc hab ha
    · exact (apart_outside hs hc hab.symm hb).symm fun m m' hm => Access.Conf.symm hm
  exact fun h hr i j hi hj m m' hm hm' hmm =>
    hapart h hr i j hi hj m m' hm hm' (hconf m m' hmm)

end

end Program

end Mpi
