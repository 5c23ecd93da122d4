import RMARaceBench.Shmem.Facts
import RMARaceBench.Shmem.Templates

/-!
# SHMEM cases without a race on the default context

`Separated P`: every update is ordered with the plain accesses of the PE whose variable it reads or
writes, and no two updates conflict. Such a program is free of races (`Separated.raceFree`), and the
four `sync` programs that synchronize by `shmem_wait_until`, by `shmem_signal_fetch` or by a team are
such programs for every number of PEs and of polling rounds.
-/

set_option autoImplicit false

namespace Shmem

open Causal Causal.System

namespace Program

/-- The plain accesses of a statement of PE `r`. -/
def plain (r : Nat) : Stmt → List Access
  | .load x => [⟨r, x, false, false⟩]
  | .store x => [⟨r, x, true, false⟩]
  | _ => []

/-- A plain access to `x`. -/
def Touches (x : Var) (s : Stmt) : Prop := s = .load x ∨ s = .store x

instance (x : Var) (s : Stmt) : Decidable (Touches x s) := inferInstanceAs (Decidable (_ ∨ _))

/-- Updates are ordered with the accesses of PEs and do not conflict with each other (module doc). -/
structure Separated (P : Program) : Prop where
  source : ∀ r k u x, r < P.pes → P.updateAt r k = some u → u.source = some x →
    Settled P.system (P.text r) (.update r k, 0) (.pe r) (· = .store x)
  dest : ∀ r k u x, r < P.pes → P.updateAt r k = some u → u.dest = some x →
    Settled P.system (P.text u.target) (.update r k, 1) (.pe u.target) (Touches x)
  apart : ∀ r k u r' k' u' x, P.updateAt r k = some u → P.updateAt r' k' = some u' →
    (r, k) ≠ (r', k') → u.dest = some x →
      (u'.dest = some x → u'.target ≠ u.target) ∧ (u'.source = some x → r' ≠ u.target)

variable {P : Program} {r r' k k' i j q : Nat} {u u' : Update} {x : Var} {m m' : Access} {st : Stmt}

/-! ## Accesses -/

def Actor.isPe : Actor → Prop
  | .pe _ => True
  | .update _ _ => False

/-- The text of a PE. -/
def textOf (P : Program) : Actor → List Stmt
  | .pe r => P.text r
  | .update _ _ => []

def plainOf : Actor → Stmt → List Access
  | .pe r => plain r
  | .update _ _ => fun _ => []

theorem hosts : P.system.Hosts Actor.isPe P.textOf plainOf := by
  intro a i s ha hs
  cases a with
  | pe r =>
    obtain ⟨-, st, hst, rfl⟩ := step_pe.1 hs
    exact ⟨st, hst, by cases st <;> rfl⟩
  | update r k => exact ha.elim

theorem mem_plain (h : m ∈ plain r st) : m.pe = r ∧ Touches m.var st ∧
    (m.write = true → st = .store m.var) := by
  cases st
  case load x =>
    rw [List.mem_singleton.1 h]
    exact ⟨rfl, .inl rfl, fun hw => by cases hw⟩
  case store x =>
    rw [List.mem_singleton.1 h]
    exact ⟨rfl, .inr rfl, fun _ => rfl⟩
  all_goals exact absurd h List.not_mem_nil

theorem accesses_update (h : P.system.Accesses (.update r k, i) m) :
    ∃ u, r < P.pes ∧ P.updateAt r k = some u ∧
      (i = 0 ∧ u.source = some m.var ∧ m.pe = r ∧ m.write = false ∨
        i = 1 ∧ u.dest = some m.var ∧ m.pe = u.target ∧ m.write = true) := by
  obtain ⟨s, hs, hm⟩ := h
  obtain ⟨hr, u, hu, hc⟩ := step_update.1 hs
  rcases updateCode_cases hc with ⟨rfl, rfl⟩ | ⟨rfl, rfl⟩ | ⟨rfl, rfl⟩
  · obtain ⟨x, hx, rfl⟩ := List.mem_map.1 hm
    exact ⟨u, hr, hu, .inl ⟨rfl, Option.mem_toList.1 hx, rfl, rfl⟩⟩
  · obtain ⟨x, hx, rfl⟩ := List.mem_map.1 hm
    exact ⟨u, hr, hu, .inr ⟨rfl, Option.mem_toList.1 hx, rfl, rfl⟩⟩
  · simp at hm

/-! ## Race freedom -/

/-- An access of an update is settled with the conflicting statements of every PE. -/
theorem Separated.settled (hP : P.Separated) (hm : P.system.Accesses (.update r k, j) m) :
    Settled P.system (P.text r') (.update r k, j) (.pe r') fun s => ∃ m' ∈ plain r' s, m'.Conf m := by
  obtain ⟨u, hr, hu, hcase⟩ := accesses_update hm
  by_cases hpe : m.pe = r'
  · subst hpe
    rcases hcase with ⟨rfl, hsrc, hpe, hw⟩ | ⟨rfl, hdst, hpe, -⟩
    · rw [hpe]
      refine (hP.source r k u _ hr hu hsrc).mono fun s ⟨m', hm', hmm⟩ => ?_
      have hwrite : m'.write = true := by simpa [hw] using hmm.2.2.1
      exact hmm.2.1 ▸ (mem_plain hm').2.2 hwrite
    · rw [hpe]
      refine (hP.dest r k u _ hr hu hdst).mono fun s ⟨m', hm', hmm⟩ => ?_
      exact hmm.2.1 ▸ (mem_plain hm').2.1
  · -- the access is to the memory of another PE
    have hH : P.system.Hosts Actor.isPe P.textOf plainOf := hosts
    refine hH.none (a := .pe r') (show Actor.isPe (.pe r') from trivial) fun s _ hc => hpe ?_
    obtain ⟨m', hm', hmm⟩ := hc
    rw [← hmm.1, (mem_plain hm').1]

theorem Separated.apart_updates (hP : P.Separated) (hne : (r, k) ≠ (r', k'))
    (hm : P.system.Accesses (.update r k, i) m) (hm' : P.system.Accesses (.update r' k', j) m') :
    ¬ m.Conf m' := by
  rintro ⟨hpe, hvv, hwrite, -⟩
  obtain ⟨u, -, hu, hcase⟩ := accesses_update hm
  obtain ⟨u', -, hu', hcase'⟩ := accesses_update hm'
  rw [← hvv] at hcase'
  rcases hcase with ⟨-, hsrc, hp, hw⟩ | ⟨-, hdst, hp, hw⟩
  · rcases hcase' with ⟨-, -, -, hw'⟩ | ⟨-, hdst', hp', -⟩
    · rw [hw, hw'] at hwrite
      simp at hwrite
    · exact (hP.apart r' k' u' r k u _ hu' hu (Ne.symm hne) hdst').2 hsrc (by rw [← hp, ← hp', hpe])
  · rcases hcase' with ⟨-, hsrc', hp', -⟩ | ⟨-, hdst', hp', -⟩
    · exact (hP.apart r k u r' k' u' _ hu hu' hne hdst).2 hsrc' (by rw [← hp, ← hp', hpe])
    · exact (hP.apart r k u r' k' u' _ hu hu' hne hdst).1 hdst' (by rw [← hp, ← hp', hpe])

/-- **Separated programs have no race.** -/
theorem Separated.raceFree (hP : P.Separated) : P.system.RaceFree Access.Conf := by
  refine hosts.raceFree (fun _ _ => Access.Conf.symm) ?_ ?_ ?_
  · intro a b hab ha hb s s' m hm m' hm' hmm
    cases a with
    | update r k => exact ha
    | pe r =>
      cases b with
      | update r' k' => exact hb
      | pe r' => exact hab (by rw [← (mem_plain hm).1, ← (mem_plain hm').1, hmm.1])
  · intro a b hab ha hb i j m m' hm hm' hmm
    cases a with
    | pe r => exact ha trivial
    | update r k =>
      cases b with
      | pe r' => exact hb trivial
      | update r' k' =>
        refine hP.apart_updates (fun heq => hab ?_) hm hm' hmm
        cases heq
        rfl
  · intro a b j m ha hb hm
    cases a with
    | update r k => exact ha.elim
    | pe r =>
      cases b with
      | pe r' => exact absurd trivial hb
      | update r' k' => exact hP.settled hm

end Program

/-! ## The programs -/

section
variable {n r k : Nat} {u : Update}

/-! ### A signal there and a signal back -/

def ping : Update := ⟨.default, some .localbuf, some .remote, false, some .flag, 1⟩
def pong : Update := ⟨.default, some .localbuf, some .remote, false, some .flag, 0⟩

theorem updates_waituntilLocalNo (h : (syncWaituntilLocalNo.program n).updateAt r k = some u) :
    r = 0 ∧ k = 8 ∧ u = ping ∨ r = 1 ∧ k = 10 ∧ u = pong := by
  rw [Program.updateAt_eq, ← mem_updatesOf] at h
  by_cases h0 : r = 0
  · subst h0
    exact .inl ⟨rfl, by simpa using (List.mem_singleton (b := (8, ping))).1 h⟩
  by_cases h1 : r = 1
  · subst h1
    exact .inr ⟨rfl, by simpa using (List.mem_singleton (b := (10, pong))).1 h⟩
  rw [updatesOf_eq_nil fun u hu => ?_] at h
  · simp at h
  revert hu
  simp [Template.program, syncWaituntilLocalNo, prologue, epilogue, shmemBarrierAll, printf, ifPe, h0,
    h1]

/-- The source of the ping is free when the pong has arrived. -/
theorem separated_waituntilLocalNo (hn : 2 ≤ n) : (syncWaituntilLocalNo.program n).Separated := by
  have hr0 : 0 < (syncWaituntilLocalNo.program n).pes := by show 0 < n; omega
  have hr1 : 1 < (syncWaituntilLocalNo.program n).pes := by show 1 < n; omega
  have hping : (syncWaituntilLocalNo.program n).updateAt 0 8 = some ping := rfl
  have hpong : (syncWaituntilLocalNo.program n).updateAt 1 10 = some pong := rfl
  -- the ping arrives at PE 1, the pong at PE 0
  have there : Must (syncWaituntilLocalNo.program n).system (.update 0 8, 2) (.pe 1, 9) := by
    refine Program.must_raised hr1 (.waitUntil .flag) rfl rfl fun r k u _ hu ht _ => ?_
    rcases updates_waituntilLocalNo hu with ⟨rfl, rfl, -⟩ | ⟨-, -, rfl⟩
    · rfl
    · cases ht
  have back : Must (syncWaituntilLocalNo.program n).system (.update 1 10, 2) (.pe 0, 9) := by
    refine Program.must_raised hr0 (.waitUntil .flag) rfl rfl fun r k u _ hu ht _ => ?_
    rcases updates_waituntilLocalNo hu with ⟨-, -, rfl⟩ | ⟨rfl, rfl, -⟩
    · cases ht
    · rfl
  have reply : ∀ i, Must (syncWaituntilLocalNo.program n).system (.update 0 8, 2) (.update 1 10, i) :=
    fun i => (there.order_right (by decide)).trans (Program.must_update hr1 hpong)
  constructor
  · intro r k u x _ hu hx
    rcases updates_waituntilLocalNo hu with ⟨rfl, rfl, rfl⟩ | ⟨rfl, rfl, rfl⟩
    · refine Settled.around (Program.must_issue hr0 hping) ?_
      exact (Must.order (by decide)).trans ((reply 2).trans back)
    · exact Settled.around (Program.must_issue hr1 hpong) (Program.must_returned hr1 rfl)
  · intro r k u x _ hu hx
    rcases updates_waituntilLocalNo hu with ⟨rfl, rfl, rfl⟩ | ⟨rfl, rfl, rfl⟩
    · cases hx
      refine Settled.after ((Must.order (by decide)).trans there) ?_
      show ∀ s ∈ ((syncWaituntilLocalNo.program 2).text 1).take 9, ¬ Program.Touches .remote s
      decide
    · refine Settled.around (k := 8) ?_ ((Must.order (by decide)).trans back)
      exact (Program.must_update hr0 hping).trans (reply 1)
  · intro r k u r' k' u' x hu hu' hne hx
    rcases updates_waituntilLocalNo hu with ⟨rfl, rfl, rfl⟩ | ⟨rfl, rfl, rfl⟩ <;>
      rcases updates_waituntilLocalNo hu' with ⟨rfl, rfl, rfl⟩ | ⟨rfl, rfl, rfl⟩ <;>
      cases hx <;> simp [ping, pong] at hne ⊢

/-! ### A fence between the data and the flag -/

def fencedPut : Update := ⟨.default, some .myval, some .remote, false, none, 1⟩
def flagSet : Update := ⟨.default, none, none, true, some .flag, 1⟩

theorem updates_waituntilRemoteNo (h : (syncWaituntilRemoteNo.program n).updateAt r k = some u) :
    r = 0 ∧ (k = 8 ∧ u = fencedPut ∨ k = 11 ∧ u = flagSet) := by
  rw [Program.updateAt_eq, ← mem_updatesOf] at h
  by_cases h0 : r = 0
  · subst h0
    have h' : (k, u) ∈ [(8, fencedPut), (11, flagSet)] := h
    simpa using h'
  rw [updatesOf_eq_nil fun u hu => ?_] at h
  · simp at h
  revert hu
  by_cases h1 : r = 1 <;>
    simp [Template.program, syncWaituntilRemoteNo, prologue, epilogue, shmemBarrierAll, printf, ifPe,
      h0, h1]

/-- PE 1 loads the variable after the flag, and the flag is set after the put. -/
theorem separated_waituntilRemoteNo (hn : 2 ≤ n) :
    (syncWaituntilRemoteNo.program n).Separated := by
  have hr0 : 0 < (syncWaituntilRemoteNo.program n).pes := by show 0 < n; omega
  have hr1 : 1 < (syncWaituntilRemoteNo.program n).pes := by show 1 < n; omega
  have hput : (syncWaituntilRemoteNo.program n).updateAt 0 8 = some fencedPut := rfl
  have hset : (syncWaituntilRemoteNo.program n).updateAt 0 11 = some flagSet := rfl
  have fenced : Must (syncWaituntilRemoteNo.program n).system (.update 0 8, 2) (.update 0 11, 1) :=
    Program.must_fence (q := 10) hr0 hput hset rfl rfl rfl rfl (by decide) (by decide)
  have seen : Must (syncWaituntilRemoteNo.program n).system (.update 0 11, 2) (.pe 1, 9) := by
    refine Program.must_raised hr1 (.waitUntil .flag) rfl rfl fun r k u _ hu _ hf => ?_
    rcases updates_waituntilRemoteNo hu with ⟨rfl, ⟨-, rfl⟩ | ⟨rfl, -⟩⟩
    · cases hf
    · rfl
  constructor
  · intro r k u x _ hu hx
    rcases updates_waituntilRemoteNo hu with ⟨rfl, ⟨rfl, rfl⟩ | ⟨rfl, rfl⟩⟩
    · exact Settled.around (Program.must_issue hr0 hput) (Program.must_returned hr0 rfl)
    · cases hx
  · intro r k u x _ hu hx
    rcases updates_waituntilRemoteNo hu with ⟨rfl, ⟨rfl, rfl⟩ | ⟨rfl, rfl⟩⟩
    · cases hx
      refine Settled.after ((Must.order (by decide)).trans
        ((fenced.order_right (by decide)).trans seen)) ?_
      show ∀ s ∈ ((syncWaituntilRemoteNo.program 2).text 1).take 9, ¬ Program.Touches .remote s
      decide
    · cases hx
  · intro r k u r' k' u' x hu hu' hne hx
    rcases updates_waituntilRemoteNo hu with ⟨rfl, ⟨rfl, rfl⟩ | ⟨rfl, rfl⟩⟩ <;>
      rcases updates_waituntilRemoteNo hu' with ⟨rfl, ⟨rfl, rfl⟩ | ⟨rfl, rfl⟩⟩ <;>
      cases hx <;> simp [fencedPut, flagSet] at hne ⊢

/-! ### Polling for a signal -/

def signalled : Update := ⟨.default, some .myPe, some (.data 1), false, some .signal, 0⟩

theorem updates_putsignalRemoteNo {polls : Nat}
    (h : ((syncPutsignalRemoteNo polls).program n).updateAt r k = some u) :
    r = 1 ∧ k = 9 ∧ u = signalled := by
  rw [Program.updateAt_eq, ← mem_updatesOf] at h
  by_cases h1 : r = 1
  · subst h1
    exact ⟨rfl, by simpa using (List.mem_singleton (b := (9, signalled))).1 h⟩
  rw [updatesOf_eq_nil fun u hu => ?_] at h
  · simp at h
  revert hu
  by_cases h0 : r = 0
  · simp [Template.program, syncPutsignalRemoteNo, prologue, epilogue, shmemBarrierAll, printf, ifPe,
      h0]
  · simp [Template.program, syncPutsignalRemoteNo, prologue, epilogue, shmemBarrierAll, printf, ifPe,
      h0, h1]

/-- What PE 0 does before it sees the signal. -/
def polling (polls : Nat) : List Stmt :=
  prologue ++ shmemBarrierAll ++ [.load .myPe] ++ List.replicate polls (.signalFetch .signal false)

theorem putsignal_text (polls : Nat) : ((syncPutsignalRemoteNo polls).program n).text 0 =
    polling polls ++ .signalFetch .signal true ::
      (printf ((List.range n).map .data) ++ (.load .myPe :: epilogue)) := by
  simp [Template.program, syncPutsignalRemoteNo, ifPe, polling]

/-- PE 0 loads the array after the signal, and the signal is set after the data. -/
theorem separated_putsignalRemoteNo (polls : Nat) (hn : 2 ≤ n) :
    ((syncPutsignalRemoteNo polls).program n).Separated := by
  have hr0 : 0 < ((syncPutsignalRemoteNo polls).program n).pes := by show 0 < n; omega
  have hr1 : 1 < ((syncPutsignalRemoteNo polls).program n).pes := by show 1 < n; omega
  have hput : ((syncPutsignalRemoteNo polls).program n).updateAt 1 9 = some signalled := rfl
  have htext := putsignal_text (n := n) polls
  have seen : Must ((syncPutsignalRemoteNo polls).program n).system (.update 1 9, 2)
      (.pe 0, (polling polls).length) := by
    refine Program.must_raised hr0 (.signalFetch .signal true) (by simp [htext]) rfl
      fun r k u _ hu _ _ => ?_
    obtain ⟨rfl, rfl, -⟩ := updates_putsignalRemoteNo hu
    rfl
  constructor
  · intro r k u x _ hu hx
    obtain ⟨rfl, rfl, rfl⟩ := updates_putsignalRemoteNo hu
    exact Settled.around (Program.must_issue hr1 hput) (Program.must_returned hr1 rfl)
  · intro r k u x _ hu hx
    obtain ⟨rfl, rfl, rfl⟩ := updates_putsignalRemoteNo hu
    cases hx
    refine Settled.after ((Must.order (by decide)).trans seen) ?_
    rw [show signalled.target = 0 from rfl, htext, List.take_left]
    intro s hs
    simp only [polling, List.mem_append, List.mem_replicate] at hs
    rcases hs with ((hs | hs) | hs) | ⟨-, rfl⟩
    · exact (by decide : ∀ s ∈ prologue, ¬ Program.Touches (.data 1) s) s hs
    · exact (by decide : ∀ s ∈ shmemBarrierAll, ¬ Program.Touches (.data 1) s) s hs
    · rw [List.mem_singleton.1 hs]
      decide
    · decide
  · intro r k u r' k' u' x hu hu' hne _
    obtain ⟨rfl, rfl, -⟩ := updates_putsignalRemoteNo hu
    obtain ⟨rfl, rfl, -⟩ := updates_putsignalRemoteNo hu'
    exact absurd rfl hne

/-! ### A team -/

theorem mem_teamMembers : r ∈ teamMembers n ↔ ∃ i, i < n / 2 ∧ 2 * i = r := by
  simp [teamMembers]

def teamPut : Update := ⟨.default, some .localbuf, some .remote, false, none, 2⟩

theorem teamSync_text_zero (hn : 4 ≤ n) : (syncTeamSyncRemoteNo.program n).text 0 =
    prologue ++ [.load .numPe, .teamSplit] ++ shmemBarrierAll ++ [.load .myPe, .store .localbuf] ++
      intPut .remote .localbuf 2 ++ [.quiet, .teamSyncEnter, .teamSyncLeave (teamMembers n), .load .myPe] ++
      shmemBarrierAll ++ [.teamDestroy] ++ epilogue := by
  have h0 : 0 ∈ teamMembers n := mem_teamMembers.2 ⟨0, by omega, rfl⟩
  simp [Template.program, syncTeamSyncRemoteNo, ifTeam, ifPe, h0, printf, shmemTeamSync]

theorem teamSync_text_two (hn : 4 ≤ n) : (syncTeamSyncRemoteNo.program n).text 2 =
    prologue ++ [.load .numPe, .teamSplit] ++ shmemBarrierAll ++ [.load .myPe, .quiet, .teamSyncEnter,
      .teamSyncLeave (teamMembers n), .load .myPe, .load .myPe, .load .remote] ++
      shmemBarrierAll ++ [.teamDestroy] ++ epilogue := by
  have h2 : 2 ∈ teamMembers n := mem_teamMembers.2 ⟨1, by omega, rfl⟩
  simp [Template.program, syncTeamSyncRemoteNo, ifTeam, ifPe, h2, printf, shmemTeamSync]

theorem updates_teamSyncRemoteNo (hn : 4 ≤ n)
    (h : (syncTeamSyncRemoteNo.program n).updateAt r k = some u) : r = 0 ∧ k = 10 ∧ u = teamPut := by
  rw [Program.updateAt_eq, ← mem_updatesOf] at h
  by_cases h0 : r = 0
  · subst h0
    rw [teamSync_text_zero hn] at h
    exact ⟨rfl, by simpa using (List.mem_singleton (b := (10, teamPut))).1 h⟩
  rw [updatesOf_eq_nil fun u hu => ?_] at h
  · simp at h
  revert hu
  by_cases hm : r ∈ teamMembers n <;> by_cases h2 : r = 2 <;>
    simp [Template.program, syncTeamSyncRemoteNo, prologue, epilogue, shmemBarrierAll, printf, ifPe,
      ifTeam, shmemTeamSync, h0, hm, h2]

/-- PE 2 loads the variable after the team has met, and PE 0 joins after its put is complete. -/
theorem separated_teamSyncRemoteNo (hn : 4 ≤ n) : (syncTeamSyncRemoteNo.program n).Separated := by
  have hr0 : 0 < (syncTeamSyncRemoteNo.program n).pes := by show 0 < n; omega
  have hr2 : 2 < (syncTeamSyncRemoteNo.program n).pes := by show 2 < n; omega
  have hput : (syncTeamSyncRemoteNo.program n).updateAt 0 10 = some teamPut := by
    rw [Program.updateAt, teamSync_text_zero hn]
    rfl
  have meet : Must (syncTeamSyncRemoteNo.program n).system (.pe 0, 13) (.pe 2, 11) := by
    refine Program.must_team (teamMembers n) (mem_teamMembers.2 ⟨0, by omega, rfl⟩) hr2
      ?_ ?_ ?_
    · rw [teamSync_text_zero hn]
      rfl
    · rw [teamSync_text_two hn]
      rfl
    · rw [Program.countBefore, Program.countBefore, teamSync_text_zero hn, teamSync_text_two hn]
      rfl
  have joined : Must (syncTeamSyncRemoteNo.program n).system (.update 0 10, 2) (.pe 0, 12) :=
    Program.must_complete hr0 hput (by decide) .quiet (by rw [teamSync_text_zero hn]; rfl) rfl
  constructor
  · intro r k u x _ hu hx
    obtain ⟨rfl, rfl, rfl⟩ := updates_teamSyncRemoteNo hn hu
    refine Settled.around (Program.must_issue hr0 hput) (Program.must_returned hr0 ?_)
    rw [teamSync_text_zero hn]
    rfl
  · intro r k u x _ hu hx
    obtain ⟨rfl, rfl, rfl⟩ := updates_teamSyncRemoteNo hn hu
    cases hx
    refine Settled.after ((Must.order (by decide)).trans
      ((joined.order_right (by decide)).trans meet)) ?_
    rw [show teamPut.target = 2 from rfl, teamSync_text_two hn]
    simp [prologue, shmemBarrierAll, Program.Touches]
  · intro r k u r' k' u' x hu hu' hne _
    obtain ⟨rfl, rfl, -⟩ := updates_teamSyncRemoteNo hn hu
    obtain ⟨rfl, rfl, -⟩ := updates_teamSyncRemoteNo hn hu'
    exact absurd rfl hne

end

/-- **The cases without a race that synchronize on the default context** have none, for every number
of PEs and of polling rounds. -/
theorem sync_default_raceFree (n polls : Nat) :
    (2 ≤ n → (syncWaituntilLocalNo.program n).system.RaceFree Access.Conf) ∧
    (2 ≤ n → (syncWaituntilRemoteNo.program n).system.RaceFree Access.Conf) ∧
    (2 ≤ n → ((syncPutsignalRemoteNo polls).program n).system.RaceFree Access.Conf) ∧
    (4 ≤ n → (syncTeamSyncRemoteNo.program n).system.RaceFree Access.Conf) :=
  ⟨fun hn => (separated_waituntilLocalNo hn).raceFree, fun hn => (separated_waituntilRemoteNo hn).raceFree,
    fun hn => (separated_putsignalRemoteNo polls hn).raceFree,
    fun hn => (separated_teamSyncRemoteNo hn).raceFree⟩

/-- The same at the numbers of PEs that the labels ask for, with three polling rounds. -/
theorem sync_default_raceFree_nprocs :
    (syncWaituntilLocalNo.program 2).system.RaceFree Access.Conf ∧
    (syncWaituntilRemoteNo.program 2).system.RaceFree Access.Conf ∧
    ((syncPutsignalRemoteNo 3).program 2).system.RaceFree Access.Conf ∧
    (syncTeamSyncRemoteNo.program 4).system.RaceFree Access.Conf :=
  ⟨(sync_default_raceFree 2 3).1 (by decide), (sync_default_raceFree 2 3).2.1 (by decide),
    (sync_default_raceFree 2 3).2.2.1 (by decide), (sync_default_raceFree 4 3).2.2.2 (by decide)⟩

end Shmem
