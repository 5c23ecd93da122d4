import RMARaceBench.Causal.Progress
import RMARaceBench.Shmem.Facts
import RMARaceBench.Shmem.Templates

/-!
# SHMEM cases without a race on explicit contexts

An update is pending from its issue to its delivery. `ContextSafe P`: no PE loads its `remote` while
an update of it by another PE is pending, and no two non-atomic updates of one variable are pending.
A program that creates contexts is safe exactly when every PE completes its contexts in the block
`main` (`contextSafe_iff`): the barrier of the boilerplate does not do it.
-/

set_option autoImplicit false

namespace Shmem

open Causal Causal.System

/-- After `h` the update at position `k` of PE `r` is issued and not yet delivered. -/
def Pending (h : List (Event Actor)) (r k : Nat) : Prop :=
  (.pe r, k) ∈ h ∧ (.update r k, 1) ∉ h

/-- No access to a variable meets a pending update (module doc). -/
structure Program.ContextSafe (P : Program) : Prop where
  load : ∀ h r i, P.system.Run ((.pe r, i) :: h) → (P.text r)[i]? = some (.load .remote) →
    ∀ r' k u, r' ≠ r → P.updateAt r' k = some u → u.target = r → u.dest = some .remote →
      ¬ Pending h r' k
  updates : ∀ h, P.system.Run h → ∀ r k u r' k' u' x, (r, k) ≠ (r', k') →
    P.updateAt r k = some u → P.updateAt r' k' = some u' → u.atomic = false → u'.atomic = false →
    u.target = u'.target → u.dest = some x → u'.dest = some x → ¬ (Pending h r k ∧ Pending h r' k')

/-- Every PE that issues an update in the block `main` later calls, still in that block, a routine
that completes the update's context. -/
def Template.CompletesContexts (tp : Template) (n : Nat) : Prop :=
  ∀ (r k : Nat) (u : Update), r < n → (tp.main n r)[k]? = some (.issue u) →
    ∃ (q : Nat) (st : Stmt), k < q ∧ (tp.main n r)[q]? = some st ∧ st.completes u.ctx = true

variable {tp : Template} {n r r' k k' i : Nat} {u u' : Update} {st : Stmt} {h : List (Event Actor)}

/-! ## The frame of the boilerplate -/

/-- What stands before the epilogue. -/
def Template.front (tp : Template) (n r : Nat) : List Stmt := prologue ++ tp.main n r

theorem text_eq : (tp.program n).text r = tp.front n r ++ epilogue := rfl

theorem text_main {j : Nat} (hj : (tp.main n r)[j]? = some st) :
    ((tp.program n).text r)[4 + j]? = some st := by
  have hlt := (List.getElem?_eq_some_iff.1 hj).1
  rw [text_eq, Template.front, List.append_assoc, show 4 = prologue.length from rfl,
    Text.getElem?_right, List.getElem?_append_left hlt, hj]

/-- Updates are issued in the block `main`. -/
theorem updateAt_main (h : (tp.program n).updateAt r k = some u) :
    ∃ j, k = 4 + j ∧ (tp.main n r)[j]? = some (.issue u) := by
  rw [Program.updateAt_eq, text_eq, Template.front] at h
  rcases Text.append_cases h with h | ⟨j, -, hj⟩
  · rcases Text.append_cases h with h | ⟨j, rfl, hj⟩
    · exact absurd (List.mem_of_getElem? h) (by simp [prologue])
    · exact ⟨j, rfl, hj⟩
  · exact absurd (List.mem_of_getElem? hj) (by simp [epilogue, shmemBarrierAll, printf])

/-- `remote` is loaded by the final `printf` only. -/
theorem load_main (hmain : .load .remote ∉ tp.main n r)
    (h : ((tp.program n).text r)[i]? = some (.load .remote)) : i = (tp.front n r).length + 3 := by
  rw [text_eq] at h
  rcases Text.append_cases h with h | ⟨j, rfl, hj⟩
  · exact absurd (List.mem_of_getElem? h) (by simp [Template.front, prologue, hmain])
  · rcases j with _ | _ | _ | _ | _ | j <;> simp [epilogue, shmemBarrierAll, printf] at hj ⊢

/-- The final barrier of a template whose PEs call the same number of barriers. -/
theorem must_final (hr : r < n) (hr' : r' < n) {c : Nat}
    (henter : (tp.front n r).countP (· == .barrierEnter) = c)
    (hleave : (tp.front n r').countP (· == .barrierLeave) = c) :
    Must (tp.program n).system (.pe r, (tp.front n r).length)
      (.pe r', (tp.front n r').length + 1) := by
  refine Program.must_bar hr hr' ?_ ?_ ?_
  · rw [text_eq]
    exact Text.getElem?_right 0
  · rw [text_eq]
    exact Text.getElem?_right 1
  · rw [Program.countBefore, Program.countBefore, text_eq, text_eq]
    refine (Text.countBefore_append_right (k := 0)).trans
      (Eq.trans ?_ (Text.countBefore_append_right (k := 1)).symm)
    rw [henter, hleave]
    rfl

/-! ## Programs that complete their contexts -/

/-- What must precede an event of a run is in the history below it. -/
theorem mem_of_must {P : Program} {x e : Event Actor} (hr : P.system.Run (e :: h))
    (hm : Must P.system x e) : x ∈ h := by
  rcases List.mem_cons.1 (hm.hb hr (.head _)).mem.1 with rfl | hx
  · exact absurd hm (Must.irrefl hr (.head _))
  · exact hx

theorem not_pending_of_must {P : Program} {e : Event Actor} (hr : P.system.Run h) (he : e ∈ h)
    (hm : Must P.system (.update r k, 2) e) : ¬ Pending h r k := by
  intro hp
  exact hp.2 ((Must.order (by decide : 1 < 2)).trans hm |>.hb hr he).mem.1

theorem lt_of_mem {P : Program} (hr : P.system.Run h) (he : (.pe r, i) ∈ h) : r < P.pes := by
  obtain ⟨s, hs⟩ := Run.step_of_mem hr he
  exact (Program.step_pe.1 hs).1

/-- The block `main` has `c` barriers on every PE and does not load `remote`. -/
structure Template.Regular (tp : Template) (n c : Nat) : Prop where
  enter : ∀ r < n, (tp.front n r).countP (· == .barrierEnter) = c
  leave : ∀ r < n, (tp.front n r).countP (· == .barrierLeave) = c
  load : ∀ r < n, .load .remote ∉ tp.main n r

/-- **The final load** of a program that completes its contexts meets no pending update. -/
theorem load_of_completes (hc : tp.CompletesContexts n) {c : Nat} (ht : tp.Regular n c)
    (hrun : (tp.program n).system.Run ((.pe r, i) :: h))
    (hi : ((tp.program n).text r)[i]? = some (.load .remote))
    (hk : (tp.program n).updateAt r' k = some u) : ¬ Pending h r' k := by
  intro hp
  have hr : r < n := lt_of_mem hrun (.head _)
  have hr' : r' < n := lt_of_mem (Run.tail hrun) hp.1
  obtain ⟨j, rfl, hj⟩ := updateAt_main hk
  obtain ⟨q, s, hjq, hq, hs⟩ := hc r' j u hr' hj
  have hqlen : 4 + q < (tp.front n r').length := by
    have := (List.getElem?_eq_some_iff.1 hq).1
    simp [Template.front, prologue]
    omega
  obtain rfl := load_main (ht.load r hr) hi
  have hdone : Must (tp.program n).system (.update r' (4 + j), 2) (.pe r', 4 + q) :=
    Program.must_complete hr' hk (by omega) s (text_main hq) hs
  have hfinal : Must (tp.program n).system (.pe r', 4 + q) (.pe r, (tp.front n r).length + 3) :=
    ((must_final hr' hr (ht.enter r' hr') (ht.leave r hr)).order_left (by omega)).order_right
      (by omega)
  exact hp.2 (mem_of_must hrun ((Must.order (by decide)).trans (hdone.trans hfinal)))

/-! ### Contexts of one atomicity domain -/

theorem updates_sameDomain (hk : (atomicSameDomainRemoteNo.main n r)[k]? = some (.issue u)) :
    r = 0 ∧ k = 3 ∧ u = ⟨.ctx, none, some .remote, true, none, 1⟩ ∨
    r = 2 ∧ k = 4 ∧ u = ⟨.ctx2, none, some .remote, true, none, 1⟩ := by
  rw [← mem_updatesOf] at hk
  by_cases h0 : r = 0
  · subst h0
    exact .inl ⟨rfl, by simpa using (List.mem_singleton (b := (3, _))).1 hk⟩
  by_cases h2 : r = 2
  · subst h2
    exact .inr ⟨rfl, by simpa using (List.mem_singleton (b := (4, _))).1 hk⟩
  rw [updatesOf_eq_nil fun u hu => ?_] at hk
  · simp at hk
  revert hu
  simp [atomicSameDomainRemoteNo, shmemBarrierAll, ifPe, h0, h2]

theorem completes_sameDomain : atomicSameDomainRemoteNo.CompletesContexts n := by
  intro r k u _ hk
  rcases updates_sameDomain hk with ⟨rfl, rfl, rfl⟩ | ⟨rfl, rfl, rfl⟩
  · exact ⟨7, .ctxDestroy .ctx, by decide, rfl, rfl⟩
  · exact ⟨8, .ctxDestroy .ctx2, by decide, rfl, rfl⟩

theorem regular_sameDomain : atomicSameDomainRemoteNo.Regular n 1 := by
  constructor <;> intro r _ <;> by_cases h0 : r = 0 <;> by_cases h2 : r = 2 <;>
    simp [Template.front, prologue, atomicSameDomainRemoteNo, shmemBarrierAll, ifPe, ctxIntAtomicAdd,
      h0, h2]

theorem contextSafe_sameDomain : (atomicSameDomainRemoteNo.program n).ContextSafe := by
  constructor
  · intro h r i hrun hi r' k u _ hk _ _
    exact load_of_completes completes_sameDomain regular_sameDomain hrun hi hk
  · intro h _ r k u r' k' u' x _ hk _ ha
    obtain ⟨j, -, hj⟩ := updateAt_main hk
    rcases updates_sameDomain hj with ⟨-, -, rfl⟩ | ⟨-, -, rfl⟩ <;> cases ha

/-! ### Two puts on one context -/

def ctxPut : Update := ⟨.ctx, some .localbuf, some .remote, false, none, 1⟩

theorem updates_syncCtx (hk : (syncCtxRemoteNo.main n r)[k]? = some (.issue u)) :
    r = 0 ∧ (k = 5 ∨ k = 9) ∧ u = ctxPut := by
  rw [← mem_updatesOf] at hk
  by_cases h0 : r = 0
  · subst h0
    have hk' : (k, u) ∈ [(5, ctxPut), (9, ctxPut)] := hk
    simp only [List.mem_cons, Prod.mk.injEq, List.not_mem_nil, or_false] at hk'
    exact ⟨rfl, by tauto⟩
  rw [updatesOf_eq_nil fun u hu => ?_] at hk
  · simp at hk
  revert hu
  simp [syncCtxRemoteNo, shmemBarrierAll, ifPe, h0]

theorem completes_syncCtx : syncCtxRemoteNo.CompletesContexts n := by
  intro r k u _ hk
  obtain ⟨rfl, hk, rfl⟩ := updates_syncCtx hk
  refine ⟨13, .ctxDestroy .ctx, by omega, rfl, rfl⟩

theorem regular_syncCtx : syncCtxRemoteNo.Regular n 2 := by
  constructor <;> intro r _ <;> by_cases h0 : r = 0 <;>
    simp [Template.front, prologue, syncCtxRemoteNo, shmemBarrierAll, ifPe, ctxIntPut, h0]

/-- The first put is complete when the second one is issued. -/
theorem not_pending_syncCtx (hrun : (syncCtxRemoteNo.program n).system.Run h)
    (h13 : (.pe 0, 13) ∈ h) : ¬ Pending h 0 9 := by
  have hr0 : 0 < (syncCtxRemoteNo.program n).pes := lt_of_mem hrun h13
  have hquiet : Must (syncCtxRemoteNo.program n).system (.update 0 9, 2) (.pe 0, 11) :=
    Program.must_complete (u := ctxPut) hr0 rfl (by decide) (.ctxQuiet .ctx) rfl rfl
  exact not_pending_of_must hrun h13 (hquiet.order_right (by decide))

theorem contextSafe_syncCtx : (syncCtxRemoteNo.program n).ContextSafe := by
  constructor
  · intro h r i hrun hi r' k u _ hk _ _
    exact load_of_completes completes_syncCtx regular_syncCtx hrun hi hk
  · rintro h hrun r k u r' k' u' x hne hk hk' - - - - - ⟨hp, hp'⟩
    obtain ⟨j, rfl, hj⟩ := updateAt_main hk
    obtain ⟨j', rfl, hj'⟩ := updateAt_main hk'
    obtain ⟨rfl, hj, -⟩ := updates_syncCtx hj
    obtain ⟨rfl, hj', -⟩ := updates_syncCtx hj'
    rcases hj with rfl | rfl
    · rcases hj' with rfl | rfl
      · exact hne rfl
      · exact not_pending_syncCtx hrun hp'.1 hp
    · rcases hj' with rfl | rfl
      · exact not_pending_syncCtx hrun hp.1 hp'
      · exact hne rfl

/-! ## The context that no PE completes -/

/-- What PE `r` does before its first barrier. -/
def sameCtxBefore (r : Nat) : List Stmt :=
  prologue ++ ([.ctxCreate .ctx] ++ ifPe r 0 [ctxIntAtomicAdd .ctx .remote 1] ++
    ifPe r 2 [ctxIntAtomicAdd .ctx .remote 1])

def sameCtxAfter : List Stmt := shmemBarrierAll ++ epilogue

theorem sameCtx_text : (atomicSameCtxRemoteNo.program n).text r = sameCtxBefore r ++ sameCtxAfter := by
  simp [Template.program, atomicSameCtxRemoteNo, sameCtxBefore, sameCtxAfter]

theorem sameCtxBefore_length : (sameCtxBefore r).length ≤ 8 := by
  simp only [sameCtxBefore, prologue, ifPe]
  by_cases h0 : r = 0 <;> by_cases h2 : r = 2 <;> simp [h0, h2]

/-- Statements that neither wait nor complete anything. -/
def Stmt.free : Stmt → Bool
  | .load _ | .store _ | .issue _ | .ctxCreate _ => true
  | _ => false

theorem sameCtxBefore_free (h : st ∈ sameCtxBefore r) : st.free = true := by
  have hif : ∀ q, ∀ s ∈ ifPe r q [ctxIntAtomicAdd .ctx .remote 1], s.free = true := by
    intro q s hs
    unfold ifPe at hs
    split at hs
    all_goals simp only [List.mem_cons, List.not_mem_nil, or_false] at hs
    · rcases hs with rfl | rfl <;> rfl
    · rw [hs]; rfl
  simp only [sameCtxBefore, List.mem_append] at h
  rcases h with h | (h | h) | h
  · exact (by decide : ∀ s ∈ prologue, s.free = true) st h
  · rw [List.mem_singleton.1 h]; rfl
  · exact hif 0 st h
  · exact hif 2 st h

theorem steps_of_free (hs : st.free = true) :
    ((atomicSameCtxRemoteNo.program n).stmtStep r k st).waits = [] ∧
      ((atomicSameCtxRemoteNo.program n).stmtStep r k st).waitsAny = [] := by
  cases st <;> first | exact ⟨rfl, rfl⟩ | cases hs

theorem sameCtx_countBefore (j : Nat) (hs : st.free = false) :
    (atomicSameCtxRemoteNo.program n).countBefore r ((sameCtxBefore r).length + j) st =
      Text.countBefore sameCtxAfter j (· == st) := by
  have h0 : (sameCtxBefore r).countP (· == st) = 0 := by
    refine List.countP_eq_zero.2 fun s hs' he => ?_
    rw [← beq_iff_eq.1 he, sameCtxBefore_free hs'] at hs
    cases hs
  rw [Program.countBefore, sameCtx_text, Text.countBefore_append_right, h0, Nat.zero_add]

/-- PE 1 stops before it loads `remote`, and no update is delivered. -/
def sameCtxStop (n : Nat) : Actor → Nat
  | .pe r => if r < n then (sameCtxBefore r).length + 5 else 0
  | .update _ _ => 0

/-- All PEs are at a barrier at the same level. -/
def sameCtxLevel : Event Actor → Nat
  | (.pe r, i) => i + 8 - (sameCtxBefore r).length
  | (.update _ _, i) => i

/-- What the steps of the cut are: barriers at fixed distances, and steps that wait for nothing. -/
theorem sameCtx_cases {a : Actor} {s : SStep} (hk : k < sameCtxStop n a)
    (hs : (atomicSameCtxRemoteNo.program n).system.step (a, k) = some s) :
    ∃ r st, a = .pe r ∧ r < n ∧ s = (atomicSameCtxRemoteNo.program n).stmtStep r k st ∧
      (st.free = true ∨ ∃ c, c < 2 ∧ (st = .barrierEnter ∧ k = (sameCtxBefore r).length + 2 * c ∨
        st = .barrierLeave ∧ k = (sameCtxBefore r).length + (2 * c + 1))) := by
  cases a with
  | update r j => simp [sameCtxStop] at hk
  | pe r =>
    obtain ⟨hr, st, hst, rfl⟩ := Program.step_pe.1 hs
    refine ⟨r, st, rfl, hr, rfl, ?_⟩
    rw [sameCtx_text] at hst
    rcases Text.append_cases hst with hst | ⟨j, rfl, hj⟩
    · exact .inl (sameCtxBefore_free (List.mem_of_getElem? hst))
    · rcases j with _ | _ | _ | _ | j
      · cases hj; exact .inr ⟨0, by decide, .inl ⟨rfl, rfl⟩⟩
      · cases hj; exact .inr ⟨0, by decide, .inr ⟨rfl, rfl⟩⟩
      · cases hj; exact .inr ⟨1, by decide, .inl ⟨rfl, rfl⟩⟩
      · cases hj; exact .inr ⟨1, by decide, .inr ⟨rfl, rfl⟩⟩
      · -- only the loads of the final `printf` follow
        have hmem : st ∈ printf [.myPe, .remote, .localbuf] :=
          List.mem_of_getElem? (show (printf [.myPe, .remote, .localbuf])[j]? = some st from hj)
        exact .inl ((by decide : ∀ s ∈ printf [.myPe, .remote, .localbuf], s.free = true) st hmem)

/-- PE `r` signals its barrier number `c`. -/
theorem sameCtx_signals (hr : r < n) {c : Nat} (hc : c < 2) :
    (atomicSameCtxRemoteNo.program n).system.Signals (.pe r, (sameCtxBefore r).length + 2 * c)
      (.bar r c) := by
  have hst : ((atomicSameCtxRemoteNo.program n).text r)[(sameCtxBefore r).length + 2 * c]? =
      some .barrierEnter := by
    rw [sameCtx_text, Text.getElem?_right]
    rcases (by omega : c = 0 ∨ c = 1) with rfl | rfl <;> rfl
  refine ⟨_, Program.at_step hr hst, ?_⟩
  simp only [Program.stmtStep, List.mem_singleton, Token.bar.injEq, true_and]
  rw [sameCtx_countBefore _ rfl]
  rcases (by omega : c = 0 ∨ c = 1) with rfl | rfl <;> rfl

/-- Every update is on the context `ctx`. -/
theorem sameCtx_updatesBefore :
    (atomicSameCtxRemoteNo.program n).updatesBefore r k (·.ctx == .default) = [] := by
  refine List.eq_nil_iff_forall_not_mem.2 fun j hj => ?_
  obtain ⟨-, st, hst, hu⟩ := Text.mem_before.1 hj
  have hmem := List.mem_of_getElem? hst
  obtain ⟨u, hu, hdef⟩ := (Option.any_eq_true _ _).1 hu
  rw [Stmt.update?_eq.1 hu] at hmem
  rw [sameCtx_text] at hmem
  simp only [sameCtxBefore, sameCtxAfter, prologue, epilogue, shmemBarrierAll, printf, ifPe] at hmem
  by_cases h0 : r = 0 <;> by_cases h2 : r = 2 <;>
    simp [h0, h2, ctxIntAtomicAdd] at hmem <;> simp [hmem] at hdef

theorem sameCtxCut : Cut (atomicSameCtxRemoteNo.program n).system (sameCtxStop n) sameCtxLevel := by
  constructor
  · intro a
    cases a with
    | update r j => exact Nat.zero_le _
    | pe r =>
      by_cases hr : r < n
      · have hst : ((atomicSameCtxRemoteNo.program n).text r)[(sameCtxBefore r).length + 4]? =
            some (.load .myPe) := by
          rw [sameCtx_text, Text.getElem?_right]
          rfl
        have := lt_length_of_step (Program.at_step (P := atomicSameCtxRemoteNo.program n) hr hst)
        simp only [sameCtxStop, if_pos hr]
        omega
      · simp [sameCtxStop, hr]
  · intro a i j hij hj
    cases a with
    | update r k => simp [sameCtxStop] at hj
    | pe r =>
      have := sameCtxBefore_length (r := r)
      simp only [sameCtxLevel]
      omega
  · rintro ⟨a, k⟩ hk t ⟨s, hs, ht⟩
    obtain ⟨r, st, rfl, hr, rfl, hfree | ⟨c, hc, ⟨rfl, rfl⟩ | ⟨rfl, rfl⟩⟩⟩ := sameCtx_cases hk hs
    · rw [(steps_of_free hfree).1] at ht
      simp at ht
    · simp only [Program.stmtStep, sameCtx_updatesBefore, List.map_nil, List.not_mem_nil] at ht
    · simp only [Program.stmtStep, List.mem_map, List.mem_range] at ht
      obtain ⟨r', hr', rfl⟩ := ht
      rw [sameCtx_countBefore _ rfl, show Text.countBefore sameCtxAfter (2 * c + 1)
        (· == .barrierLeave) = c by rcases (by omega : c = 0 ∨ c = 1) with rfl | rfl <;> rfl]
      refine ⟨_, ?_, sameCtx_signals hr' hc, ?_⟩
      · simp only [sameCtxStop, if_pos (show r' < n from hr')]
        omega
      · simp only [sameCtxLevel]
        omega
  · rintro ⟨a, k⟩ hk s hs hne
    obtain ⟨r, st, rfl, hr, rfl, hfree | ⟨c, hc, ⟨rfl, rfl⟩ | ⟨rfl, rfl⟩⟩⟩ := sameCtx_cases hk hs
    · exact absurd (steps_of_free hfree).2 hne
    · exact absurd rfl hne
    · exact absurd rfl hne
  · intro e he l
    exact l.key.elim

/-- **The run in which PE 1 prints `remote` while an update of it is pending.** -/
theorem not_contextSafe_sameCtx (hn : 3 ≤ n) : ¬ (atomicSameCtxRemoteNo.program n).ContextSafe := by
  intro hsafe
  have hall : ∀ a, 0 < sameCtxStop n a → a ∈ (List.range n).map Actor.pe := by
    intro a ha
    cases a with
    | update r j => simp [sameCtxStop] at ha
    | pe r =>
      by_cases hr : r < n
      · exact List.mem_map_of_mem (List.mem_range.2 hr)
      · simp [sameCtxStop, hr] at ha
  obtain ⟨h, hrun, hd⟩ := sameCtxCut.reach _ hall .nil fun a => Nat.zero_le _
  rw [List.append_nil] at hrun hd
  have hload : ((atomicSameCtxRemoteNo.program n).text 1)[12]? = some (.load .remote) := rfl
  have hupd : (atomicSameCtxRemoteNo.program n).updateAt 0 6 =
      some ⟨.ctx, none, some .remote, true, none, 1⟩ := rfl
  have hd1 : done h (.pe 1) = 12 := by
    rw [hd]
    exact if_pos (by omega)
  have hd0 : done h (.pe 0) = 13 := by
    rw [hd]
    exact if_pos (by omega)
  have hnext : (atomicSameCtxRemoteNo.program n).system.Run ((.pe 1, 12) :: h) := by
    rw [← hd1]
    refine .step hrun (hd1.symm ▸ Program.at_step (P := atomicSameCtxRemoteNo.program n)
      (show 1 < n by omega) hload) ⟨?_, ?_, ?_⟩
    · intro t ht
      cases ht
    · intro hne
      exact absurd rfl hne
    · intro l
      exact l.key.elim
  refine hsafe.load h 1 12 hnext hload 0 6 _ (by decide) hupd rfl rfl ⟨?_, ?_⟩
  · rw [Run.mem_iff hrun, hd0]
    decide
  · rw [Run.mem_iff hrun, hd]
    exact Nat.not_lt_zero 1

theorem not_completes_sameCtx (hn : 3 ≤ n) : ¬ atomicSameCtxRemoteNo.CompletesContexts n := by
  intro hc
  obtain ⟨q, st, hq, hst, hs⟩ := hc 0 2 ⟨.ctx, none, some .remote, true, none, 1⟩ (by omega) rfl
  have hmem := List.mem_of_getElem? hst
  exact absurd hs (by
    rw [Bool.not_eq_true]
    exact (by decide : ∀ s ∈ atomicSameCtxRemoteNo.main 0 0, s.completes .ctx = false) st hmem)

/-- **A program that creates contexts** is safe exactly when it completes them. -/
theorem contextSafe_iff : ∀ tp ∈ contextTemplates, ∀ n, tp.nprocs ≤ n →
    ((tp.program n).ContextSafe ↔ tp.CompletesContexts n) := by
  intro tp htp n hn
  simp only [contextTemplates, List.mem_cons, List.not_mem_nil, or_false] at htp
  rcases htp with rfl | rfl | rfl
  · exact iff_of_false (not_contextSafe_sameCtx hn) (not_completes_sameCtx hn)
  · exact iff_of_true contextSafe_sameDomain completes_sameDomain
  · exact iff_of_true contextSafe_syncCtx completes_syncCtx

/-- The program whose updates keep one atomicity domain is safe for its three PEs. -/
theorem contextSafe_sameDomain_three : atomicSameDomainRemoteNo ∈ contextTemplates ∧
    atomicSameDomainRemoteNo.nprocs ≤ 3 ∧ (atomicSameDomainRemoteNo.program 3).ContextSafe :=
  ⟨by simp [contextTemplates], by decide,
    (contextSafe_iff _ (by simp [contextTemplates]) 3 (by decide)).2 completes_sameDomain⟩

/-- The program whose updates use one context is not safe for its three PEs. -/
theorem sameCtx_not_contextSafe : atomicSameCtxRemoteNo ∈ contextTemplates ∧
    atomicSameCtxRemoteNo.nprocs ≤ 3 ∧ ¬ (atomicSameCtxRemoteNo.program 3).ContextSafe :=
  ⟨by simp [contextTemplates], by decide, not_contextSafe_sameCtx (by decide)⟩

end Shmem
