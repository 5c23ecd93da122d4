import RMARaceBench.Mpi.Completion
import RMARaceBench.Mpi.Handover

/-!
# Hybrid cases without a race

In every run of the ten hybrid templates without a race, with any team and any assignment of the
constructs to its threads, every read of `win_base[0]` happens after the `MPI_Win_unlock` that completes
the transfer (`Program.Synchronized`), and a finished run has entered `MPI_Barrier` equally often on both
ranks (`hybrid_no_synchronized`). Rank 0 unlocks and rank 1 leaves the second barrier; both hand over to
the reads that follow on their rank (`Handover.lean`).
-/

set_option autoImplicit false

namespace Mpi

open Causal Causal.System Omp

/-- The call of the `local` templates. -/
def hybridGet : Rma :=
  { call := .get, result := some (winBase 0), target := 1, lo := 0, hi := 4, kind := .rmaRead }

/-- The call of the `remote` templates. -/
def hybridPut : Rma :=
  { call := .put, origin := some value, target := 1, lo := 0, hi := 4, kind := .rmaWrite }

namespace Program

variable (P : Program)

/-- Every transfer is complete at the unlock of rank 0, which happens before every read of
`win_base[0]`. -/
def Synchronized : Prop :=
  ∃ u, P.performed 0 u = some (.unlock .win 1) ∧ ∀ h, P.system.Run h →
    (u ∈ h → ∀ r k i m, P.system.Accesses (.op r k, i) m → P.system.HB h (.op r k, i) u) ∧
    ∀ x ∈ h, ∀ r, P.performed r x = some (.load (winBase 0)) → P.system.HB h u x

/-- How often rank `r` has entered `MPI_Barrier`. -/
def barriers (r : Nat) (h : List (Event Actor)) : Nat :=
  h.countP fun x => (P.performed r x).any (· == .barrierEnter)

/-- In every finished run the ranks have entered `MPI_Barrier` equally often. -/
def Meets : Prop :=
  ∀ h, P.system.Run h → P.Finished h → ∀ r < P.procs, ∀ r' < P.procs, P.barriers r h = P.barriers r' h

variable {P}

/-! ## What a text says about positions -/

variable {r k u : Nat} {q : Stmt → Bool} {s : Stmt}

theorem mem_textOf_take (hs : P.stmtAt r k = some s) (hq : q s = true) (hk : k < u) :
    s ∈ textOf q ((P.items r).take u) := by
  obtain ⟨it, hit, hst⟩ := Option.bind_eq_some_iff.1 hs
  rw [← List.getElem?_take_of_lt hk] at hit
  exact mem_textOf (List.mem_of_getElem? hit) hst hq

theorem mem_textOf_items (hs : P.stmtAt r k = some s) (hq : q s = true) :
    s ∈ textOf q (P.items r) := by
  obtain ⟨it, hit, hst⟩ := Option.bind_eq_some_iff.1 hs
  exact mem_textOf (List.mem_of_getElem? hit) hst hq

theorem stmtAt_of_mem_take (h : s ∈ textOf q ((P.items r).take u)) :
    ∃ k, k < u ∧ P.stmtAt r k = some s := by
  obtain ⟨it, hmem, hst⟩ := List.mem_filterMap.1 (List.mem_filter.1 h).1
  obtain ⟨k, hk⟩ := List.mem_iff_getElem?.1 hmem
  have hlt : k < u := by
    by_contra hge
    rw [List.getElem?_take_eq_none (Nat.le_of_not_lt hge)] at hk
    cases hk
  refine ⟨k, hlt, ?_⟩
  rw [List.getElem?_take_of_lt hlt] at hk
  rw [stmtAt, hk]
  exact hst

/-- When the statements with `q` all stand before position `u`, so does each of them. -/
theorem lt_of_textOf_take (hall : textOf q ((P.items r).take u) = textOf q (P.items r))
    (hs : P.stmtAt r k = some s) (hq : q s = true) : k < u := by
  by_contra hge
  obtain ⟨it, hit, hst⟩ := Option.bind_eq_some_iff.1 hs
  have hdrop : textOf q ((P.items r).drop u) = [] := by
    have hsplit : textOf q (P.items r) =
        textOf q ((P.items r).take u) ++ textOf q ((P.items r).drop u) := by
      rw [← textOf_append, List.take_append_drop]
    rw [hall] at hsplit
    simpa using hsplit
  rw [show k = u + (k - u) by omega, ← List.getElem?_drop] at hit
  have := mem_textOf (List.mem_of_getElem? hit) hst hq
  rw [hdrop] at this
  simp at this

theorem countBefore_take (p : Stmt → Bool) :
    P.countBefore r u p = (textOf p ((P.items r).take u)).length := by
  rw [countBefore, textOf, ← List.countP_eq_length_filter, List.countP_filterMap]
  refine List.countP_congr fun it _ => ?_
  cases it.stmt? <;> simp

/-! ## Both ranks -/

/-- **The unlock completes the transfers** of its window and target. -/
theorem hb_unlock {a : Actor} {it : Item Stmt} {w : Win} {t : Nat} {c : Rma} {i : Nat} {m : Access}
    (hp : P.Performs (a, u) r it) (hact : it.act = .stmt (.unlock w t))
    (hlock : ∃ j e, j < u ∧ P.stmtAt r j = some (.lock w e t)) (hk : k < u)
    (hc : P.stmtAt r k = some (.rma c)) (hw : c.win = w) (ht : c.target = t)
    (hm : P.system.Accesses (.op r k, i) m) {h : List (Event Actor)} (hr : P.system.Run h)
    (hu : (a, u) ∈ h) : P.system.HB h (.op r k, i) (a, u) := by
  have hwaits : P.system.Waits (a, u) (.done r k) := by
    apply hp.waits
    rw [hact]
    obtain ⟨j, e, hj, hjs⟩ := hlock
    obtain ⟨j', hj'⟩ : ∃ j', P.lastBefore r u (isLock w t) = some j' := by
      rw [← Option.isSome_iff_exists, lastBefore, List.find?_isSome]
      exact ⟨j, by simpa using hj, by simp [hjs, isLock]⟩
    simp only [actStep, stmtStep, hj']
    refine .tail _ (List.mem_map_of_mem (List.mem_filter.2 ⟨List.mem_range.2 hk, ?_⟩))
    simp [hc, hw, ht]
  obtain ⟨x, hsig, hb⟩ := Run.hb_wait hr hu hwaits
  obtain ⟨j, rfl, hij⟩ := le_of_signals_done hsig hm
  rcases Nat.eq_or_lt_of_le hij with rfl | hlt
  · exact hb
  · exact HB.trans hr (Run.hb_order hr hb.mem.1 hlt) hb

/-- The handover precedes the reads of its rank. -/
theorem Handover.must_read {before : List Stmt} {a : Actor} {u e : Nat} (H : Handover P r before s a u e)
    (hs : s ≠ .load (winBase 0)) (hread : before.filter (· == .load (winBase 0)) = [])
    {x : Event Actor} {it : Item Stmt} (hp : P.Performs x r it)
    (hits : it.stmt? = some (.load (winBase 0))) : Must P.system (a, u) x := by
  have hst : P.stmtAt r x.2 = some (.load (winBase 0)) := by
    rw [stmtAt, hp.item]
    exact hits
  rcases Nat.lt_trichotomy x.2 u with hlt | heq | hgt
  · have hmem := mem_textOf_take (q := (· == .load (winBase 0))) hst (by simp) hlt
    rw [H.text, hread] at hmem
    simp at hmem
  · obtain ⟨it', hp', hact, -⟩ := H.performs
    have hitem := hp'.item
    rw [← show x.2 = u from heq, hp.item, Option.some.injEq] at hitem
    rw [hitem, Item.stmt?, hact] at hits
    exact absurd (Option.some.inj hits) hs
  · exact H.gate hp hgt (by simp [late, hits])

/-- **Both ranks hand over**: rank 0 unlocks and later enters the barrier that rank 1 leaves. -/
theorem synchronized_of_handovers {before₀ before₁ : List Stmt} {a₀ a₁ : Actor} {u₀ u₁ e₀ e₁ : Nat}
    {c : Rma} (hprocs : P.procs = 2)
    (H₀ : Handover P 0 before₀ (.unlock .win 1) a₀ u₀ e₀) (H₁ : Handover P 1 before₁ .barrierLeave a₁ u₁ e₁)
    (hread₀ : before₀.filter (· == .load (winBase 0)) = [])
    (hread₁ : before₁.filter (· == .load (winBase 0)) = [])
    (hlock : .lock .win true 1 ∈ before₀) (hc : c.win = .win ∧ c.target = 1)
    (hrma : before₀.filter Stmt.isRma = [.rma c]) (hrma₀ : textOf Stmt.isRma (P.items 0) = [.rma c])
    (hrma₁ : textOf Stmt.isRma (P.items 1) = [])
    (henter : P.Performs (.thread 0 0, e₀) 0 ⟨.initial, .stmt .barrierEnter⟩)
    (hcount : (textOf (· == .barrierEnter) ((P.items 0).take e₀)).length =
      (before₁.filter (· == .barrierLeave)).length) : P.Synchronized := by
  obtain ⟨it₀, hp₀, hact₀, hwho₀⟩ := H₀.performs
  obtain ⟨it₁, hp₁, hact₁, hwho₁⟩ := H₁.performs
  have hstmt₀ : it₀.stmt? = some (.unlock .win 1) := by rw [Item.stmt?, hact₀]
  refine ⟨(a₀, u₀), by rw [performed_of_performs hp₀, hstmt₀], fun h hr => ⟨?_, ?_⟩⟩
  · intro hu r k i m hm
    obtain ⟨hlt, c', hc', -⟩ := rank_of_op hm
    obtain rfl | rfl : r = 0 ∨ r = 1 := by omega
    · have hk : k < u₀ := lt_of_textOf_take (q := Stmt.isRma) (by rw [H₀.text, hrma, hrma₀]) hc' rfl
      have hmem := mem_textOf_items (q := Stmt.isRma) hc' rfl
      rw [hrma₀, List.mem_singleton, Stmt.rma.injEq] at hmem
      subst hmem
      have hlock' : ∃ j e, j < u₀ ∧ P.stmtAt 0 j = some (.lock .win e 1) := by
        have hin : .lock .win true 1 ∈ textOf (fun _ => true) ((P.items 0).take u₀) := by
          rw [H₀.text]
          exact List.mem_filter.2 ⟨hlock, rfl⟩
        obtain ⟨j, hj, hjs⟩ := stmtAt_of_mem_take hin
        exact ⟨j, true, hj, hjs⟩
      exact hb_unlock hp₀ hact₀ hlock' hk hc' hc.1 hc.2 hm hr hu
    · have hmem := mem_textOf_items (q := Stmt.isRma) hc' rfl
      rw [hrma₁] at hmem
      simp at hmem
  · intro x hx r hxr
    obtain ⟨st, hst⟩ := Run.step_of_mem hr hx
    obtain ⟨it, hp, hits⟩ := performs_of_performed hst hxr
    have hlt : r < P.procs := by cases hp <;> assumption
    obtain rfl | rfl : r = 0 ∨ r = 1 := by omega
    · exact (Handover.must_read H₀ (by simp) hread₀ hp hits).hb hr hx
    · have h1 : Must P.system (a₁, u₁) x := Handover.must_read H₁ (by simp) hread₁ hp hits
      have h2 : Must P.system (a₀, u₀) (.thread 0 0, e₀) := H₀.gate henter H₀.lt rfl
      have h3 : Must P.system (.thread 0 0, e₀) (a₁, u₁) := by
        refine must_bar henter rfl rfl hp₁ hact₁ ?_ (Nat.le_refl _) (Nat.le_refl _)
        rw [countBefore_take, countBefore_take, hcount, H₁.text]
      exact ((h2.trans h3).trans h1).hb hr hx

end Program

/-! ## The local and the remote templates -/

open Template

/-- What every rank does up to the first barrier. -/
def hybridBefore : List Stmt := prologue ++ winAllocate ++ mpiBarrier

/-- `getEpoch` without its unlock. -/
def getInner : List Stmt := winLock .win true 1 ++ [mpiGet (winBase 0) 1 0]

/-- `putEpoch` without its unlock. -/
def putInner (mark : List Stmt) : List Stmt :=
  winLock .win true 1 ++ [.store value] ++ mark ++ [mpiPut value 1 0]

section
variable {tp : Template} {cx : Ctx} {region : List (Item Stmt)} {front mark : List Stmt}

theorem items_local₀ (halloc : tp.winAllocate = winAllocate)
    (hmain : tp.main cx 0 = localFrame region 0) :
    tp.items cx 0 = seq hybridBefore ++ (region ++ seq (mpiBarrier ++ epilogue)) := by
  rw [Template.items, hmain, halloc, hybridBefore]
  simp only [localFrame, ifRank, seq_append, List.append_assoc, ↓reduceIte, Nat.zero_ne_one,
    List.nil_append]

theorem items_local₁ (halloc : tp.winAllocate = winAllocate)
    (hmain : tp.main cx 1 = localFrame region 1) : tp.items cx 1 =
      seq ((hybridBefore ++ [.barrierEnter]) ++ .barrierLeave :: (printWin ++ epilogue)) := by
  rw [Template.items, hmain, halloc, hybridBefore]
  simp [localFrame, ifRank, mpiBarrier, seq, on]

theorem items_remote₀ (halloc : tp.winAllocate = winAllocate)
    (hmain : tp.main cx 0 = remoteFrame mark region 0) : tp.items cx 0 =
      seq ((hybridBefore ++ putInner mark) ++ .unlock .win 1 :: (mpiBarrier ++ epilogue)) := by
  rw [Template.items, hmain, halloc, hybridBefore]
  simp [remoteFrame, ifRank, seq, on, putEpoch, putInner, winUnlock]

theorem items_remote₁ (halloc : tp.winAllocate = winAllocate)
    (hmain : tp.main cx 1 = remoteFrame mark region 1) :
    tp.items cx 1 = seq hybridBefore ++ (region ++ seq epilogue) := by
  rw [Template.items, hmain, halloc, hybridBefore]
  simp only [remoteFrame, ifRank, seq_append, List.append_assoc, ↓reduceIte, Nat.one_ne_zero,
    List.nil_append]

/-- Rank 0 gets and hands over to the threads of its region. -/
theorem synchronized_local
    (hits₀ : tp.items cx 0 = seq hybridBefore ++ (region ++ seq (mpiBarrier ++ epilogue)))
    (hits₁ : tp.items cx 1 =
      seq ((hybridBefore ++ [.barrierEnter]) ++ .barrierLeave :: (printWin ++ epilogue)))
    (hands : Hands cx.team region (front ++ getInner) (.unlock .win 1))
    (hread : front.filter (· == .load (winBase 0)) = []) (hfront : front.filter Stmt.isRma = [])
    (hrma : textOf Stmt.isRma region = [mpiGet (winBase 0) 1 0])
    (hbar : textOf (· == .barrierEnter) region = []) : (tp.program cx 2).Synchronized := by
  change (tp.program cx 2).items 0 = _ at hits₀
  change (tp.program cx 2).items 1 = _ at hits₁
  obtain ⟨a, u, H₀⟩ := hands _ 0 _ _ Nat.two_pos rfl hits₀
  have H₁ := Program.handover_initial (e := hybridBefore.length + 2) Nat.one_lt_two cx.team.pos hits₁
    (by simp)
  have hlock : .lock .win true 1 ∈ hybridBefore ++ (front ++ getInner) := by
    simp [getInner, winLock]
  refine Program.synchronized_of_handovers (c := hybridGet) rfl H₀ H₁ ?_ rfl hlock ⟨rfl, rfl⟩ ?_ ?_ ?_ ?_ ?_
  · rw [List.filter_append, List.filter_append, hread]
    rfl
  · rw [List.filter_append, List.filter_append, hfront]
    rfl
  · rw [hits₀, textOf_append, textOf_append, hrma]
    rfl
  · rw [hits₁]
    rfl
  · refine .thread Nat.two_pos cx.team.pos ?_ rfl
    rw [hits₀, ← List.append_assoc, List.getElem?_append_right (Nat.le_refl _), Nat.sub_self]
    rfl
  · rw [hits₀, ← List.append_assoc, List.take_left', textOf_append, hbar]
    · rfl
    · rfl

/-- Rank 0 puts and meets rank 1, which hands over to the threads of its region. -/
theorem synchronized_remote
    (hits₀ : tp.items cx 0 =
      seq ((hybridBefore ++ putInner mark) ++ .unlock .win 1 :: (mpiBarrier ++ epilogue)))
    (hits₁ : tp.items cx 1 = seq hybridBefore ++ (region ++ seq epilogue))
    (hands : Hands cx.team region (front ++ [.barrierEnter]) .barrierLeave)
    (hread : front.filter (· == .load (winBase 0)) = [])
    (hfront : front.filter (· == .barrierLeave) = [])
    (hmark : mark = [] ∨ mark = [.conflict 1]) (hrma : textOf Stmt.isRma region = []) :
    (tp.program cx 2).Synchronized := by
  change (tp.program cx 2).items 0 = _ at hits₀
  change (tp.program cx 2).items 1 = _ at hits₁
  have H₀ := Program.handover_initial (e := (hybridBefore ++ putInner mark).length + 1) Nat.two_pos
    cx.team.pos hits₀ (Nat.lt_succ_self _)
  obtain ⟨a, u, H₁⟩ := hands _ 1 _ _ Nat.one_lt_two rfl hits₁
  have hlock : .lock .win true 1 ∈ hybridBefore ++ putInner mark := by
    simp [putInner, winLock]
  refine Program.synchronized_of_handovers (c := hybridPut) rfl H₀ H₁ ?_ ?_ hlock ⟨rfl, rfl⟩ ?_ ?_ ?_ ?_ ?_
  · rcases hmark with rfl | rfl <;> rfl
  · rw [List.filter_append, List.filter_append, hread]
    rfl
  · rcases hmark with rfl | rfl <;> rfl
  · rw [hits₀]
    rcases hmark with rfl | rfl <;> rfl
  · rw [hits₁, textOf_append, textOf_append, hrma]
    rfl
  · refine .thread Nat.two_pos cx.team.pos ?_ rfl
    rw [hits₀]
    rcases hmark with rfl | rfl <;> rfl
  · rw [hits₀, List.filter_append, List.filter_append, hfront]
    rcases hmark with rfl | rfl <;> rfl

end

/-! ## Barriers -/

/-- The items are for threads of the team, and `MPI_Barrier` is called by one of them. -/
def Fits (T : Team) (its : List (Item Stmt)) : Prop :=
  ∀ it ∈ its, Within T.size it.who ∧ (it.stmt?.any (· == .barrierEnter) = true → it.who ≠ .every)

section
variable {T : Team} {as bs : List (Item Stmt)} {w : Who} {ss : List Stmt}

theorem fits_append (ha : Fits T as) (hb : Fits T bs) : Fits T (as ++ bs) := fun it hit =>
  (List.mem_append.1 hit).elim (ha it) (hb it)

theorem fits_on (hw : Within T.size w) (h : w ≠ .every) : Fits T (on w ss) := by
  intro it hit
  rw [who_on hit]
  exact ⟨hw, fun _ => h⟩

theorem fits_thread {τ : Nat} (hτ : τ < T.size) : Fits T (on (.thread τ) ss) :=
  fits_on (w := .thread τ) hτ (by simp)

theorem fits_seq : Fits T (seq ss) := fits_on (w := .initial) trivial (by simp)

/-- Statements of every thread without a barrier. -/
theorem fits_each (h : ss.any (· == .barrierEnter) = false) : Fits T (each ss) := by
  intro it hit
  obtain ⟨s, hs, rfl⟩ := List.mem_map.1 hit
  exact ⟨trivial, fun hany => absurd hany (List.any_eq_false.1 h s hs)⟩

theorem fits_nil : Fits T [] := fun _ h => absurd h List.not_mem_nil

theorem fits_cons {a : Act Stmt} (hw : Within T.size w) (ha : ∀ s, a ≠ .stmt s) (hb : Fits T bs) :
    Fits T (⟨w, a⟩ :: bs) := by
  intro it hit
  rcases List.mem_cons.1 hit with rfl | hit
  · refine ⟨hw, fun hany => ?_⟩
    cases a with
    | stmt s => exact absurd rfl (ha s)
    | _ => cases hany
  · exact hb it hit

theorem fits_barrier : Fits T barrier :=
  fits_cons trivial (by simp) (fits_cons trivial (by simp) fits_nil)

theorem fits_parallel (h : Fits T as) : Fits T (parallel as) :=
  fits_cons trivial (by simp) (fits_append h fits_barrier)

theorem fits_sections {k : Nat} : Fits T (sections T k [ss]) := by
  have hbody : sections T k [ss] = on (.thread (T.section_ k 0)) ss ++ barrier := by simp [sections]
  rw [hbody]
  exact fits_append (fits_thread (T.section_ k 0).isLt) fits_barrier

theorem fits_forOrdered {k n : Nat} {body : Nat → List Stmt} : Fits T (forOrdered T k n body) := by
  refine fits_append (fun it hit => ?_) fits_barrier
  obtain ⟨i, -, hit⟩ := List.mem_flatMap.1 hit
  have hi : Fits T (⟨.thread (T.iter k i), .orderedBegin k i⟩ ::
      (on (.thread (T.iter k i)) (body i) ++ [⟨.thread (T.iter k i), .orderedEnd k i⟩])) :=
    fits_cons (T.iter k i).isLt (by simp)
      (fits_append (fits_thread (T.iter k i).isLt) (fits_cons (T.iter k i).isLt (by simp) fits_nil))
  exact hi it hit

/-- The task, `my_wait` and what the thread of the `single` block does then. -/
theorem fits_task {cx : Ctx} {rank : Nat} {body : List Stmt} {rest : Who → List (Item Stmt)}
    (hrest : Fits cx.team (rest (.thread (cx.team.single 0)))) :
    Fits cx.team (taskRegion cx rank body rest) := by
  have hw := (cx.team.single 0).isLt
  refine fits_append fits_seq (fits_parallel (fits_append (fits_append (fits_append ?_
    (fits_thread hw)) hrest) fits_barrier))
  exact fits_cons hw (by simp) (fits_cons trivial (by simp)
    (fits_append (fits_on (w := .task 0) trivial (by simp)) (fits_cons trivial (by simp) fits_nil)))

theorem fits_taskRegion {cx : Ctx} {rank : Nat} {body reads : List Stmt} :
    Fits cx.team (taskRegion cx rank body fun w => taskwait w ++ on w reads) :=
  have hw := (cx.team.single 0).isLt
  fits_task (fits_cons hw (by simp) (fits_thread hw))

end

/-- The calls of `MPI_Barrier` in the text of a rank. -/
def Template.barrierCalls (tp : Template) (cx : Ctx) (r : Nat) : List Stmt :=
  textOf (· == .barrierEnter) (tp.main cx r)

section
variable {tp : Template} {cx : Ctx} {region region' : List (Item Stmt)} {mark : List Stmt}

/-- A finished run performs them all. -/
theorem meets_of_calls {n : Nat} (hfits : ∀ r < n, Fits cx.team (tp.main cx r))
    (heq : ∀ r < n, (tp.barrierCalls cx r).length = (tp.barrierCalls cx 0).length) :
    (tp.program cx n).Meets := by
  intro h hr hf
  have count : ∀ r < n, (tp.program cx n).barriers r h =
      (textOf (· == .barrierEnter) (tp.items cx 0)).length := by
    intro r hlt
    have hits : Fits cx.team (tp.items cx r) :=
      fits_append fits_seq (fits_append (hfits r hlt) fits_seq)
    have hall : (tp.program cx n).barriers r h =
        (textOf (· == .barrierEnter) (tp.items cx r)).length :=
      Program.countP_of_performed (P := tp.program cx n) (fun it hit => (hits it hit).2)
        (fun it hit => (hits it hit).1) hlt cx.team.pos hr fun hp => hf.items hp
    rw [hall, Template.items, Template.items]
    simp only [textOf_append, List.length_append]
    change _ + ((tp.barrierCalls cx r).length + _) = _ + ((tp.barrierCalls cx 0).length + _)
    rw [heq r hlt]
  exact fun r hlt r' hlt' => (count r hlt).trans (count r' hlt').symm

/-- Two ranks that call it equally often. -/
theorem meets_two (hfits₀ : Fits cx.team (tp.main cx 0)) (hfits₁ : Fits cx.team (tp.main cx 1))
    (heq : tp.barrierCalls cx 1 = tp.barrierCalls cx 0) : (tp.program cx 2).Meets := by
  refine meets_of_calls (fun r hlt => ?_) fun r hlt => ?_
  all_goals obtain rfl | rfl : r = 0 ∨ r = 1 := by omega
  · exact hfits₀
  · exact hfits₁
  · rfl
  · rw [heq]

/-- Rank 0 calls it behind its region. -/
theorem meets_local (hmain₀ : tp.main cx 0 = localFrame region 0)
    (hmain₁ : tp.main cx 1 = localFrame region' 1) (hfits : Fits cx.team region)
    (hbar : textOf (· == .barrierEnter) region = []) : (tp.program cx 2).Meets := by
  refine meets_two ?_ ?_ ?_
  · rw [hmain₀]
    exact fits_append (fits_append fits_seq (fits_append hfits fits_seq)) fits_nil
  · rw [hmain₁]
    exact fits_append (fits_append fits_seq fits_nil) fits_seq
  · rw [Template.barrierCalls, Template.barrierCalls, hmain₀, hmain₁]
    simp only [localFrame, ifRank, ↓reduceIte, Nat.zero_ne_one, Nat.one_ne_zero, textOf_append, hbar]
    rfl

/-- Rank 1 calls it in its region. -/
theorem meets_remote (hmain₀ : tp.main cx 0 = remoteFrame mark region' 0)
    (hmain₁ : tp.main cx 1 = remoteFrame mark region 1) (hfits : Fits cx.team region)
    (hbar : textOf (· == .barrierEnter) region = [.barrierEnter])
    (hmark : mark = [] ∨ mark = [.conflict 1]) : (tp.program cx 2).Meets := by
  refine meets_two ?_ ?_ ?_
  · rw [hmain₀]
    exact fits_append (fits_append fits_seq fits_seq) fits_nil
  · rw [hmain₁]
    exact fits_append (fits_append fits_seq fits_nil) hfits
  · rw [Template.barrierCalls, Template.barrierCalls, hmain₀, hmain₁]
    simp only [remoteFrame, ifRank, ↓reduceIte, Nat.zero_ne_one, Nat.one_ne_zero, textOf_append, hbar]
    rcases hmark with rfl | rfl <;> rfl

end

/-! ## The ten templates -/

/-- The program synchronizes its reads, and its ranks meet equally often. -/
def Synchronizes (tp : Template) (cx : Ctx) : Prop :=
  (tp.program cx 2).Synchronized ∧ (tp.program cx 2).Meets

section
variable {tp : Template} {cx : Ctx} {region region' : List (Item Stmt)} {mark : List Stmt}
  (front : List Stmt)

theorem synchronizes_local (hmain₀ : tp.main cx 0 = localFrame region 0)
    (hmain₁ : tp.main cx 1 = localFrame region' 1)
    (hands : Hands cx.team region (front ++ getInner) (.unlock .win 1)) (hfits : Fits cx.team region)
    (hrma : textOf Stmt.isRma region = [mpiGet (winBase 0) 1 0])
    (hbar : textOf (· == .barrierEnter) region = []) (halloc : tp.winAllocate = winAllocate)
    (hread : front.filter (· == .load (winBase 0)) = []) (hfront : front.filter Stmt.isRma = []) :
    Synchronizes tp cx := by
  constructor
  · exact synchronized_local (items_local₀ halloc hmain₀) (items_local₁ halloc hmain₁) hands hread
      hfront hrma hbar
  · exact meets_local hmain₀ hmain₁ hfits hbar

theorem synchronizes_remote (hmain₀ : tp.main cx 0 = remoteFrame mark region' 0)
    (hmain₁ : tp.main cx 1 = remoteFrame mark region 1)
    (hands : Hands cx.team region (front ++ [.barrierEnter]) .barrierLeave)
    (hfits : Fits cx.team region) (hrma : textOf Stmt.isRma region = [])
    (hbar : textOf (· == .barrierEnter) region = [.barrierEnter])
    (hmark : mark = [] ∨ mark = [.conflict 1]) (halloc : tp.winAllocate = winAllocate)
    (hread : front.filter (· == .load (winBase 0)) = [])
    (hfront : front.filter (· == .barrierLeave) = []) : Synchronizes tp cx := by
  constructor
  · exact synchronized_remote (items_remote₀ halloc hmain₀) (items_remote₁ halloc hmain₁) hands hread
      hfront hmark hrma
  · exact meets_remote hmain₀ hmain₁ hfits hbar hmark

end

section
variable (cx : Ctx)

/-! ### `master`, `single`, `sections` and `ordered` -/

theorem fits_master {inner reads : List Stmt} (h : reads.any (· == .barrierEnter) = false) :
    Fits cx.team (parallel (master inner ++ barrier ++ each reads)) :=
  fits_parallel (fits_append (fits_append (fits_thread cx.team.pos) fits_barrier) (fits_each h))

theorem fits_single {inner reads : List Stmt} (h : reads.any (· == .barrierEnter) = false) :
    Fits cx.team (parallel (single cx.team 0 (fun w => on w inner) ++ each reads)) :=
  fits_parallel (fits_append (fits_append (fits_thread (cx.team.single 0).isLt) fits_barrier)
    (fits_each h))

theorem synchronizes_master :
    Synchronizes hybridMasterLocalNo cx ∧ Synchronizes hybridMasterRemoteNo cx := by
  constructor
  · exact synchronizes_local [] rfl rfl (hands_master cx.team getInner _ _) (fits_master cx rfl)
      rfl rfl rfl rfl rfl
  · exact synchronizes_remote [] rfl rfl (hands_master cx.team [.barrierEnter] _ _)
      (fits_master cx rfl) rfl rfl (.inl rfl) rfl rfl rfl

theorem synchronizes_single :
    Synchronizes hybridSingleLocalNo cx ∧ Synchronizes hybridSingleRemoteNo cx := by
  constructor
  · exact synchronizes_local [] rfl rfl (hands_single cx.team getInner _ _) (fits_single cx rfl)
      rfl rfl rfl rfl rfl
  · exact synchronizes_remote [] rfl rfl (hands_single cx.team [.barrierEnter] _ _)
      (fits_single cx rfl) rfl rfl (.inl rfl) rfl rfl rfl

theorem synchronizes_section :
    Synchronizes hybridSectionLocalNo cx ∧ Synchronizes hybridSectionRemoteNo cx := by
  constructor
  · exact synchronizes_local [] rfl rfl (hands_sections cx.team getInner _ _)
      (fits_parallel (fits_append fits_sections fits_sections)) rfl rfl rfl rfl rfl
  · exact synchronizes_remote [] rfl rfl (hands_sections cx.team [.barrierEnter] _ _)
      (fits_parallel (fits_append fits_sections fits_sections)) rfl rfl (.inl rfl) rfl rfl rfl

theorem synchronizes_ordered :
    Synchronizes hybridOrderedLocalNo cx ∧ Synchronizes hybridOrderedRemoteNo cx := by
  constructor
  · exact synchronizes_local [] rfl rfl (hands_ordered cx.team getInner _ _)
      (fits_parallel fits_forOrdered) rfl rfl rfl rfl rfl
  · exact synchronizes_remote [] rfl rfl (hands_ordered cx.team [.barrierEnter] _ _)
      (fits_parallel fits_forOrdered) rfl rfl (.inr rfl) rfl rfl rfl

/-! ### `task` -/

theorem synchronizes_task :
    Synchronizes hybridTaskLocalNo cx ∧ Synchronizes hybridTaskRemoteNo cx := by
  constructor
  · refine synchronizes_local (declInit .flag ++ mySignal) rfl rfl (hands_task getInner _ _ 0)
      fits_taskRegion ?_ ?_ rfl rfl rfl
    · rw [textOf_taskRegion fun _ => rfl]
      rfl
    · rw [textOf_taskRegion fun _ => rfl]
      rfl
  · refine synchronizes_remote (declInit .flag ++ mySignal) rfl rfl (hands_task [.barrierEnter] _ _ 1)
      fits_taskRegion ?_ ?_ (.inl rfl) rfl rfl rfl
    · rw [textOf_taskRegion fun _ => rfl]
      rfl
    · rw [textOf_taskRegion fun _ => rfl]
      rfl

end

/-- The hybrid templates without a race. -/
def hybridNo : List Template :=
  [hybridMasterLocalNo, hybridMasterRemoteNo, hybridSingleLocalNo, hybridSingleRemoteNo,
    hybridSectionLocalNo, hybridSectionRemoteNo, hybridOrderedLocalNo, hybridOrderedRemoteNo,
    hybridTaskLocalNo, hybridTaskRemoteNo]

/-- **The hybrid cases without a race**: for every team, every assignment of its threads and every
number of polling rounds, the reads of `win_base[0]` happen after the unlock that completes the transfer,
and both ranks enter `MPI_Barrier` equally often. -/
theorem hybrid_no_synchronized : ∀ tp ∈ hybridNo, ∀ cx, Synchronizes tp cx := by
  intro tp htp cx
  simp only [hybridNo, List.mem_cons, List.not_mem_nil, or_false] at htp
  rcases htp with rfl | rfl | rfl | rfl | rfl | rfl | rfl | rfl | rfl | rfl
  · exact (synchronizes_master cx).1
  · exact (synchronizes_master cx).2
  · exact (synchronizes_single cx).1
  · exact (synchronizes_single cx).2
  · exact (synchronizes_section cx).1
  · exact (synchronizes_section cx).2
  · exact (synchronizes_ordered cx).1
  · exact (synchronizes_ordered cx).2
  · exact (synchronizes_task cx).1
  · exact (synchronizes_task cx).2

theorem hybridTaskRemoteNo_synchronizes :
    Synchronizes hybridTaskRemoteNo ⟨false, Op.acc, Op.acc, .two, fun _ => 1⟩ :=
  hybrid_no_synchronized hybridTaskRemoteNo (by simp [hybridNo]) _

end Mpi
