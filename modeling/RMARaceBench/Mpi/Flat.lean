import RMARaceBench.Mpi.Completion

/-!
# Programs with threads that finish

`Program.flat` is the sequential program in which the initial thread of every rank executes all
statements of the text. Its transfers, lock requests and positions are those of the program. When every
OpenMP item stands behind what it waits for (`Program.Ordered`) and the flat program finishes, so does
the program, whichever threads the constructs are assigned to (`finishes_of_flat`): the execution of the
flat text gives the order in which the threads may proceed.
-/

set_option autoImplicit false

namespace Mpi

open Causal Causal.System Omp

/-- An item of the flat text. The comment stands for items that are no statements. -/
def flatten (it : Item Stmt) : Item Stmt := ⟨.initial, .stmt (it.stmt?.getD (.conflict 0))⟩

namespace Program

variable (P : Program)

def flat : Program where
  procs := P.procs
  team := 1
  items r := (P.items r).map flatten

variable {P} {r k i j tid n : Nat} {s : Stmt} {a : Actor} {t : Token} {st : MStep}

theorem sequential_flat : P.flat.Sequential := fun r =>
  ⟨(P.items r).map fun it => it.stmt?.getD (.conflict 0), by simp [flat, flatten, seq, on]⟩

theorem length_flat : (P.flat.items r).length = (P.items r).length := List.length_map _

theorem item_flat : (P.flat.items r)[k]? = (P.items r)[k]?.map flatten := List.getElem?_map

/-! ## The flat text -/

theorem stmtAt_flat : P.flat.stmtAt r k =
    (P.items r)[k]?.map fun it => it.stmt?.getD (.conflict 0) := by
  rw [stmtAt, item_flat, Option.bind_map]
  cases (P.items r)[k]? <;> rfl

theorem stmtAt_flat_of (h : P.stmtAt r k = some s) : P.flat.stmtAt r k = some s := by
  obtain ⟨it, hit, hst⟩ := Option.bind_eq_some_iff.1 h
  rw [stmtAt_flat, hit, Option.map_some, hst]
  rfl

/-- Nothing is known of the comment. -/
theorem stmtAt_of_flat {q : Stmt → Bool} (hq : q (.conflict 0) = false)
    (h : P.flat.stmtAt r k = some s) (hs : q s = true) : P.stmtAt r k = some s := by
  rw [stmtAt_flat] at h
  obtain ⟨it, hit, rfl⟩ := Option.map_eq_some_iff.1 h
  rw [stmtAt, hit, Option.bind_some]
  cases hst : it.stmt? with
  | some s => rfl
  | none =>
    rw [hst] at hs
    exact absurd hs (by simp [hq])

theorem any_flat {q : Stmt → Bool} (hq : q (.conflict 0) = false) :
    (P.flat.stmtAt r k).any q = (P.stmtAt r k).any q := by
  rw [stmtAt_flat, stmtAt]
  cases (P.items r)[k]? with
  | none => rfl
  | some it => cases hst : it.stmt? <;> simp [hst, hq]

theorem countBefore_flat {q : Stmt → Bool} (hq : q (.conflict 0) = false) :
    P.flat.countBefore r k q = P.countBefore r k q := by
  rw [countBefore, countBefore, flat, ← List.map_take, List.countP_map]
  refine List.countP_congr fun it _ => ?_
  change ((some (it.stmt?.getD (.conflict 0))).any q = true ↔ it.stmt?.any q = true)
  cases it.stmt? <;> simp [hq]

theorem lastBefore_flat {q : Stmt → Bool} (hq : q (.conflict 0) = false) :
    P.flat.lastBefore r k q = P.lastBefore r k q := by
  rw [lastBefore, lastBefore]
  congr 1
  exact funext fun j => any_flat hq

theorem opsBefore_flat (p : Rma → Bool) : P.flat.opsBefore r k p = P.opsBefore r k p := by
  rw [opsBefore, opsBefore]
  refine List.filter_congr fun j _ => ?_
  rw [stmtAt_flat, stmtAt]
  cases (P.items r)[j]? with
  | none => rfl
  | some it => cases hst : it.stmt? <;> simp [hst]

theorem group_flat : group (P.flat.stmtAt r j) = group (P.stmtAt r j) := by
  rw [stmtAt_flat, stmtAt]
  cases (P.items r)[j]? with
  | none => rfl
  | some it => cases hst : it.stmt? <;> simp [hst, group]

theorem opener_flat (w : Win) (t : Nat) : P.flat.opener r w t j s = P.opener r w t j s := by
  cases s with
  | start w' g => simp only [opener, countBefore_flat (q := isStart w t) rfl]
  | _ => rfl

theorem epochTokens_flat (c : Rma) : P.flat.epochTokens r k c = P.epochTokens r k c := by
  have hopen : ∀ j, ((P.flat.stmtAt r j).bind (P.flat.opener r c.win c.target j)) =
      ((P.stmtAt r j).bind (P.opener r c.win c.target j)) := by
    intro j
    rw [stmtAt_flat, stmtAt]
    cases (P.items r)[j]? with
    | none => rfl
    | some it =>
      simp only [Option.map_some, Option.bind_some]
      cases it.stmt? with
      | none => rfl
      | some s => exact opener_flat c.win c.target
  rw [epochTokens, epochTokens, funext hopen]

/-- **A statement has the same step in both texts.** -/
theorem stmtStep_flat : P.flat.stmtStep r k s = P.stmtStep r k s := by
  cases s with
  | unlock w t => simp only [stmtStep, lastBefore_flat (q := isLock w t) rfl, opsBefore_flat]
  | unlockAll w =>
    simp only [stmtStep, lastBefore_flat (q := (· == .lockAll w)) rfl, opsBefore_flat]
  | complete w =>
    simp only [stmtStep, opsBefore_flat, group_flat]
    rw [lastBefore_flat (by rfl)]
    simp only [countBefore_flat (q := isStart w _) rfl]
  | wait w =>
    simp only [stmtStep, group_flat]
    rw [lastBefore_flat (by rfl)]
    simp only [countBefore_flat (q := isPost w _) rfl]
  | post w g => simp only [stmtStep, countBefore_flat (q := isPost w _) rfl]
  | waitReq =>
    simp only [stmtStep]
    rw [lastBefore_flat (by rfl)]
  | send b dst =>
    simp only [stmtStep]
    rw [countBefore_flat (by rfl)]
  | recv b src =>
    simp only [stmtStep]
    rw [countBefore_flat (by rfl)]
  | barrierEnter => simp only [stmtStep, countBefore_flat (q := (· == .barrierEnter)) rfl]
  | barrierLeave => simp only [stmtStep, countBefore_flat (q := (· == .barrierLeave)) rfl]; rfl
  | fenceEnter w =>
    simp only [stmtStep, opsBefore_flat, countBefore_flat (q := (· == .fenceEnter w)) rfl]
  | fenceLeave w => simp only [stmtStep, countBefore_flat (q := (· == .fenceLeave w)) rfl]; rfl
  | freeEnter w => simp only [stmtStep, countBefore_flat (q := (· == .freeEnter w)) rfl]
  | freeLeave w => simp only [stmtStep, countBefore_flat (q := (· == .freeLeave w)) rfl]; rfl
  | flush w t => simp only [stmtStep, opsBefore_flat]
  | flushAll w => simp only [stmtStep, opsBefore_flat]
  | flushLocal w t => simp only [stmtStep, opsBefore_flat]
  | flushLocalAll w => simp only [stmtStep, opsBefore_flat]
  | _ => rfl

theorem step_thread_flat {it : Item Stmt} (hr : r < P.procs) (hit : (P.items r)[k]? = some it)
    (hst : it.act = .stmt s) : P.flat.system.step (.thread r 0, k) = some (P.stmtStep r k s) := by
  refine step_thread.2 ⟨hr, Nat.one_pos, flatten it, by rw [item_flat, hit, Option.map_some], ?_⟩
  rw [flatten, Item.stmt?, hst, ← stmtStep_flat]
  rfl

theorem step_op_flat : P.flat.system.step (.op r k, i) = P.system.step (.op r k, i) := by
  refine Option.ext fun st => ?_
  rw [step_op, step_op]
  have hcode : ∀ c, P.flat.opCode r k c = P.opCode r k c := fun c => by
    rw [opCode, opCode, epochTokens_flat]
  refine and_congr_right fun _ => exists_congr fun c => ?_
  rw [hcode]
  refine and_congr_left fun _ => ⟨fun h => ?_, stmtAt_flat_of⟩
  exact stmtAt_of_flat (q := Stmt.isRma) rfl h rfl

theorem step_grant_flat : P.flat.system.step (.grant r k, i) = P.system.step (.grant r k, i) := by
  refine Option.ext fun st => ?_
  rw [step_grant, step_grant, stmtAt_flat, stmtAt]
  refine and_congr_right fun _ => ?_
  cases (P.items r)[k]? with
  | none => rfl
  | some it => cases hst : it.stmt? <;> simp [hst, grantCode, flat]

/-! ## OpenMP items -/

/-- The item does not belong to a task and stands behind what it waits for. -/
def itemB (before : List (Item Stmt)) (it : Item Stmt) : Bool :=
  (match it.who with
    | .task _ => false
    | _ => true) &&
  match it.act with
  | .stmt _ | .enter | .orderedEnd _ _ => true
  | .fork => it.who == .every
  | .leave => before.getLast? == some ⟨.every, .enter⟩
  | .orderedBegin l i => i == 0 || before.any fun b => b.act == .orderedEnd l (i - 1)
  | .taskCreate _ | .taskBegin _ | .taskEnd _ | .taskWait => false

def textB : List (Item Stmt) → List (Item Stmt) → Bool
  | _, [] => true
  | before, it :: rest => itemB before it && textB (before ++ [it]) rest

theorem textB_append {before as bs : List (Item Stmt)} :
    textB before (as ++ bs) = (textB before as && textB (before ++ as) bs) := by
  induction as generalizing before with
  | nil => simp [textB]
  | cons a as ih => simp [textB, ih, Bool.and_assoc]

/-- In the text of every rank the items stand behind what they wait for, and are for the team. -/
structure Lexical (P : Program) : Prop where
  team : 0 < P.team
  within : ∀ r < P.procs, ∀ it ∈ P.items r, Within P.team it.who
  text : ∀ r < P.procs, textB [] (P.items r) = true

theorem itemB_of_textB {its before : List (Item Stmt)} {it : Item Stmt}
    (h : textB before its = true) (hit : its[k]? = some it) : itemB (before ++ its.take k) it = true := by
  induction its generalizing before k with
  | nil => cases hit
  | cons b its ih =>
    rw [textB, Bool.and_eq_true] at h
    cases k with
    | zero =>
      obtain rfl : b = it := Option.some.inj hit
      simpa using h.1
    | succ k => simpa using ih h.2 hit

namespace Lexical

variable (L : P.Lexical) {it : Item Stmt}
include L

theorem item (hr : r < P.procs) (hit : (P.items r)[k]? = some it) :
    itemB ((P.items r).take k) it = true := itemB_of_textB (L.text r hr) hit

/-- Some thread executes an item. -/
theorem performer (hr : r < P.procs) (hit : (P.items r)[k]? = some it) :
    ∃ tid, P.Performs (.thread r tid, k) r it := by
  have hw := L.within r hr it (List.mem_of_getElem? hit)
  have hitem := L.item hr hit
  cases hwho : it.who with
  | initial => exact ⟨0, .thread hr L.team hit (by rw [hwho]; rfl)⟩
  | thread τ =>
    rw [hwho] at hw
    exact ⟨τ, .thread hr hw hit (by rw [hwho]; simp [Who.runs])⟩
  | every => exact ⟨0, .thread hr L.team hit (by rw [hwho]; rfl)⟩
  | task j =>
    rw [itemB, hwho] at hitem
    cases hitem

theorem tasksBefore (hr : r < P.procs) : P.tasksBefore r k = [] := by
  rw [Program.tasksBefore, List.filterMap_eq_nil_iff]
  intro it hit
  obtain ⟨j, hj⟩ := List.mem_iff_getElem?.1 (List.mem_of_mem_take hit)
  have hitem := L.item hr hj
  rw [itemB, Bool.and_eq_true] at hitem
  cases hact : it.act with
  | taskCreate j =>
    rw [hact] at hitem
    cases hitem.2
  | _ => rfl

end Lexical

/-! ## The order of the threads -/

/-- The event of the flat program that an event belongs to. -/
def base : Event Actor → Event Actor
  | (.thread r _, k) => (.thread r 0, k)
  | x => x

/-- An event of a further thread comes after that of the initial thread. -/
def lag : Event Actor → Nat
  | (.thread _ (_ + 1), _) => 1
  | _ => 0

theorem lag_le (x : Event Actor) : lag x ≤ 1 := by
  unfold lag
  split
  · exact Nat.le_refl 1
  · exact Nat.zero_le 1

/-- The level of an event by the execution `h` of the flat program. -/
def level (h : List (Event Actor)) (x : Event Actor) : Nat := 2 * position h (base x) + lag x

theorem level_lt {h : List (Event Actor)} {x y : Event Actor}
    (hlt : position h (base x) < position h (base y)) : level h x < level h y := by
  have := lag_le x
  rw [level, level]
  omega

/-- The steps to be performed: all but those of tasks. -/
def goal (P : Program) : Actor → Nat
  | .task _ _ => 0
  | a => (P.system.code a).length

theorem length_thread (hr : r < P.procs) (ht : tid < P.team) :
    (P.system.code (.thread r tid)).length = (P.items r).length := by
  simp [system, code, hr, ht, threadCode]

/-- A signal of the flat program is one of the program. -/
theorem signals_of_flat (L : P.Lexical) {x : Event Actor} (hsig : P.flat.system.Signals x t) :
    ∃ y : Event Actor, y.2 < P.goal y.1 ∧ P.system.Signals y t ∧ base y = x := by
  obtain ⟨a, i⟩ := x
  obtain ⟨st, hs, ht⟩ := id hsig
  cases a with
  | thread r tid =>
    obtain ⟨hlt, htid, it, hit, hw, hts⟩ := signals_thread hsig
    have hlt : r < P.procs := hlt
    obtain rfl : tid = 0 := Nat.lt_one_iff.1 htid
    rw [item_flat, Option.map_eq_some_iff] at hit
    obtain ⟨it, hit, rfl⟩ := hit
    obtain ⟨tid, hp⟩ := L.performer hlt hit
    have htid : tid < P.team := by cases hp; assumption
    -- the comment signals nothing
    have hact : ∃ s, it.act = .stmt s ∧ t ∈ (P.stmtStep r i s).signals := by
      cases hst : it.stmt? with
      | none =>
        simp only [flatten, hst, Option.getD_none] at hts
        cases hts
      | some s =>
        simp only [flatten, hst, Option.getD_some] at hts
        refine ⟨s, ?_, stmtStep_flat ▸ hts⟩
        unfold Item.stmt? at hst
        split at hst
        · rename_i s' hact
          rw [hact, Option.some.inj hst]
        · cases hst
    obtain ⟨s, hact, hts⟩ := hact
    refine ⟨(.thread r tid, i), ?_, hp.signals (by rw [hact]; exact hts), rfl⟩
    change i < (P.system.code (.thread r tid)).length
    rw [length_thread hlt htid]
    exact (List.getElem?_eq_some_iff.1 hit).1
  | task r j =>
    obtain ⟨-, it, hit, hw, -⟩ := signals_task hsig
    rw [item_flat, Option.map_eq_some_iff] at hit
    obtain ⟨it, -, rfl⟩ := hit
    cases hw
  | op r k =>
    rw [step_op_flat] at hs
    exact ⟨(.op r k, i), lt_length_of_step hs, ⟨st, hs, ht⟩, rfl⟩
  | grant r k =>
    rw [step_grant_flat] at hs
    exact ⟨(.grant r k, i), lt_length_of_step hs, ⟨st, hs, ht⟩, rfl⟩

/-- Only lock requests take locks, in both programs. -/
theorem takes_flat {x : Event Actor} {l : Lock Key Token} (h : P.system.Takes x l) :
    P.flat.system.Takes x l := by
  obtain ⟨a, i⟩ := x
  cases a with
  | thread r tid => exact absurd h not_takes_thread
  | task r j =>
    obtain ⟨s, hs, hl⟩ := h
    obtain ⟨-, it, -, rfl⟩ := step_task.1 hs
    split at hl
    · cases hact : it.act <;> simp [hact, actStep, locks_stmtStep] at hl
    · cases hl
  | op r k =>
    obtain ⟨s, hs, hl⟩ := h
    exact ⟨s, step_op_flat.trans hs, hl⟩
  | grant r k =>
    obtain ⟨s, hs, hl⟩ := h
    exact ⟨s, step_grant_flat.trans hs, hl⟩

section
variable {h : List (Event Actor)} (hr : P.flat.system.Run h)
  (hall : ∀ a ∈ P.flat.core, done h a = (P.flat.system.code a).length)
include hr hall

/-- The execution performs all that the flat program does. -/
theorem mem_flat {x : Event Actor} (hs : P.flat.system.step x = some st) (hm : P.flat.Main x.1)
    (hlt : x.1.rank < P.procs) : x ∈ h := by
  rw [Run.mem_iff hr x.1 x.2, hall x.1 (mem_core.2 ⟨hlt, hm⟩)]
  exact lt_length_of_step hs

theorem mem_thread (hlt : r < P.procs) (hk : k < (P.items r).length) : (.thread r 0, k) ∈ h := by
  have hlen : k < (P.flat.system.code (.thread r 0)).length := by
    rw [length_thread (P := P.flat) hlt Nat.one_pos, length_flat]
    exact hk
  exact mem_flat hr hall (List.getElem?_eq_getElem hlen) rfl hlt

theorem mem_op (hs : P.system.step (.op r k, i) = some st) : (.op r k, i) ∈ h := by
  have hs' := step_op_flat.trans hs
  obtain ⟨hlt, c, hc, -⟩ := step_op.1 hs'
  exact mem_flat hr hall hs' ⟨c, hc⟩ hlt

theorem mem_grant (hs : P.system.step (.grant r k, i) = some st) : (.grant r k, i) ∈ h := by
  have hs' := step_grant_flat.trans hs
  obtain ⟨hlt, hm⟩ := main_of_grant hs'
  exact mem_flat hr hall hs' hm hlt

omit hall in
/-- What a step waits for has been signalled before its event in the flat program. -/
theorem wait_of_flat (L : P.Lexical) {x : Event Actor} (hx : base x ∈ h)
    (hw : P.flat.system.Waits (base x) t) :
    ∃ y : Event Actor, y.2 < P.goal y.1 ∧ P.system.Signals y t ∧ level h y < level h x := by
  obtain ⟨z, -, hsig, hlt⟩ := (cone_of_run hr).waits (base x) ((Run.mem_iff hr _ _).1 hx) t hw
  obtain ⟨y, hy, hsig', rfl⟩ := signals_of_flat L hsig
  exact ⟨y, hy, hsig', level_lt hlt⟩

omit hall in
theorem any_of_flat (L : P.Lexical) {x : Event Actor} (hx : base x ∈ h)
    (hs : P.flat.system.step (base x) = some st) (hne : st.waitsAny ≠ []) :
    ∃ t ∈ st.waitsAny, ∃ y : Event Actor, y.2 < P.goal y.1 ∧ P.system.Signals y t ∧
      level h y < level h x := by
  obtain ⟨t, ht, z, -, hsig, hlt⟩ :=
    (cone_of_run hr).any (base x) ((Run.mem_iff hr _ _).1 hx) st hs hne
  obtain ⟨y, hy, hsig', rfl⟩ := signals_of_flat L hsig
  exact ⟨t, ht, y, hy, hsig', level_lt hlt⟩

/-- A thread performs what stands before position `k` earlier. -/
theorem level_thread (hlt : r < P.procs) (hij : i < j) (hj : j < (P.items r).length) (τ τ' : Nat) :
    level h (.thread r τ, i) < level h (.thread r τ', j) := by
  refine level_lt ((cone_of_run hr).mono _ _ _ hij ?_)
  exact (Run.mem_iff hr _ _).1 (mem_thread hr hall hlt hj)

/-- What an item waits for. -/
theorem wait_of_item (L : P.Lexical) {it : Item Stmt} (hlt : r < P.procs) (htid : tid < P.team)
    (hit : (P.items r)[k]? = some it) (hw : t ∈ (P.actStep r tid k it.act).waits) :
    ∃ y : Event Actor, y.2 < P.goal y.1 ∧ P.system.Signals y t ∧
      level h y < level h (.thread r tid, k) := by
  have hk : k < (P.items r).length := (List.getElem?_eq_some_iff.1 hit).1
  have hitem := L.item hlt hit
  rw [itemB, Bool.and_eq_true] at hitem
  have goal_thread : ∀ {τ j}, τ < P.team → j < (P.items r).length → j < P.goal (.thread r τ) :=
    fun {τ j} hτ hj => by
      change j < (P.system.code (.thread r τ)).length
      rwa [length_thread hlt hτ]
  cases hact : it.act with
  | stmt s =>
    rw [hact] at hw
    exact wait_of_flat hr L (mem_thread hr hall hlt hk)
      ⟨_, step_thread_flat hlt hit hact, hw⟩
  | fork =>
    rw [hact] at hw hitem
    simp only [actStep] at hw
    split at hw
    · cases hw
    rename_i h0
    obtain rfl := List.mem_singleton.1 hw
    refine ⟨(.thread r 0, k), goal_thread L.team hk, ?_, ?_⟩
    · have hp : P.Performs (.thread r 0, k) r it :=
        .thread hlt L.team hit (by rw [beq_iff_eq.1 hitem.2]; rfl)
      exact hp.signals (by rw [hact]; simp [actStep, Actor.tid])
    · obtain ⟨n, rfl⟩ := Nat.exists_eq_succ_of_ne_zero h0
      exact Nat.lt_succ_self _
  | leave =>
    rw [hact] at hw hitem
    have hlast : ((P.items r).take k).getLast? = some ⟨.every, .enter⟩ := by simpa using hitem.2
    simp only [actStep, L.tasksBefore hlt, List.map_nil, List.append_nil, List.mem_map,
      List.mem_range] at hw
    obtain ⟨τ, hτ, rfl⟩ := hw
    rw [List.getLast?_take] at hlast
    split at hlast
    · cases hlast
    rename_i h0
    have hit' : (P.items r)[k - 1]? = some ⟨.every, .enter⟩ := by
      rw [List.getElem?_eq_getElem (by omega)] at hlast ⊢
      simpa using hlast
    refine ⟨(.thread r τ, k - 1), goal_thread hτ (by omega), ?_, ?_⟩
    · exact (performs_every hlt hτ hit').signals (by simp [actStep, Actor.tid])
    · exact level_thread hr hall hlt (by omega) hk τ tid
  | orderedBegin l i =>
    rw [hact] at hw hitem
    simp only [actStep] at hw
    split at hw
    · cases hw
    rename_i hi
    obtain rfl := List.mem_singleton.1 hw
    have hend : ∃ b ∈ (P.items r).take k, b.act = .orderedEnd l (i - 1) := by simpa [hi] using hitem.2
    obtain ⟨b, hb, hbact⟩ := hend
    obtain ⟨j, hj, hjk⟩ := List.mem_iff_getElem.1 hb
    rw [List.length_take] at hj
    rw [List.getElem_take] at hjk
    have hjt : (P.items r)[j]? = some b := by rw [List.getElem?_eq_getElem (by omega), hjk]
    obtain ⟨τ, hp⟩ := L.performer hlt hjt
    have hτ : τ < P.team := by cases hp; assumption
    refine ⟨(.thread r τ, j), goal_thread hτ (by omega), ?_, ?_⟩
    · exact hp.signals (by rw [hbact]; simp [actStep])
    · exact level_thread hr hall hlt (by omega) hk τ tid
  | enter =>
    rw [hact] at hw
    cases hw
  | orderedEnd l i =>
    rw [hact] at hw
    cases hw
  | _ =>
    rw [hact] at hitem
    cases hitem.2

/-- The goal is a cone. -/
theorem cone_of_flat (L : P.Lexical) : Cone P.system P.goal (level h) where
  le a := by
    cases a with
    | task r j => exact Nat.zero_le _
    | _ => exact Nat.le_refl _
  mono a i j hij hj := by
    cases a with
    | task r j => cases hj
    | thread r tid =>
      have hst := List.getElem?_eq_getElem hj
      obtain ⟨hlt, htid, it, hit, -⟩ := step_thread.1 hst
      exact level_thread hr hall hlt hij (List.getElem?_eq_some_iff.1 hit).1 tid tid
    | op r k =>
      have hmem : (.op r k, j) ∈ h := mem_op hr hall (List.getElem?_eq_getElem hj)
      exact level_lt ((cone_of_run hr).mono _ _ _ hij ((Run.mem_iff hr _ _).1 hmem))
    | grant r k =>
      have hmem : (.grant r k, j) ∈ h := mem_grant hr hall (List.getElem?_eq_getElem hj)
      exact level_lt ((cone_of_run hr).mono _ _ _ hij ((Run.mem_iff hr _ _).1 hmem))
  waits x hx t := by
    rintro ⟨st, hs, ht⟩
    obtain ⟨a, i⟩ := x
    cases a with
    | task r j => cases hx
    | thread r tid =>
      obtain ⟨hlt, htid, it, hit, rfl⟩ := step_thread.1 hs
      split at ht
      · exact wait_of_item hr hall L hlt htid hit ht
      · cases ht
    | op r k => exact wait_of_flat hr L (mem_op hr hall hs) ⟨st, step_op_flat.trans hs, ht⟩
    | grant r k =>
      exact wait_of_flat hr L (mem_grant hr hall hs) ⟨st, step_grant_flat.trans hs, ht⟩
  any x hx st hs hne := by
    obtain ⟨a, i⟩ := x
    cases a with
    | task r j => cases hx
    | thread r tid =>
      obtain ⟨hlt, htid, it, hit, rfl⟩ := step_thread.1 hs
      split at hne
      swap
      · exact absurd rfl hne
      rename_i hw
      rw [if_pos hw]
      have hk : i < (P.items r).length := (List.getElem?_eq_some_iff.1 hit).1
      cases hact : it.act with
      | stmt s =>
        rw [hact] at hne
        exact any_of_flat hr L (mem_thread hr hall hlt hk) (step_thread_flat hlt hit hact) hne
      | fork =>
        rw [hact] at hne
        simp only [actStep] at hne
        split at hne <;> exact absurd rfl hne
      | _ =>
        rw [hact] at hne
        exact absurd rfl hne
    | op r k => exact any_of_flat hr L (mem_op hr hall hs) (step_op_flat.trans hs) hne
    | grant r k => exact any_of_flat hr L (mem_grant hr hall hs) (step_grant_flat.trans hs) hne

end

/-- No two lock requests clash. -/
def calmB (P : Program) : Bool :=
  (entries P.system P.core Step.locks).all fun p => (entries P.system P.core Step.locks).all fun q =>
    decide (q.2 = p.2) || !decide (p.1.Clash q.1)

theorem calm_of_calmB (hb : P.flat.calmB = true) {x y : Event Actor} {l l' : Lock Key Token}
    (hl : P.system.Takes x l) (hl' : P.system.Takes y l') (hc : l.Clash l') : y = x := by
  have mem : ∀ {z : Event Actor} {l : Lock Key Token}, P.system.Takes z l →
      (l, z) ∈ entries P.flat.system P.flat.core Step.locks := by
    intro z l hz
    obtain ⟨s, hs, hm⟩ := takes_flat hz
    refine mem_entries.2 ⟨?_, s, hs, hm⟩
    rcases sequential_flat.main hs with rfl | hmain
    · cases hm
    · exact mem_core.2 hmain
  simp only [calmB, List.all_eq_true, Bool.or_eq_true, decide_eq_true_eq, Bool.not_eq_true',
    decide_eq_false_iff_not] at hb
  exact (hb _ (mem hl) _ (mem hl')).resolve_right fun hn => hn hc

/-- The actors that have something to do when there are no tasks. -/
def workers (P : Program) : List Actor :=
  (List.range P.procs).flatMap fun r => (List.range P.team).map (.thread r) ++
    (List.range (P.items r).length).flatMap fun k => [.op r k, .grant r k]

theorem mem_workers (h : 0 < P.goal a) : a ∈ P.workers := by
  cases a with
  | task r j => cases h
  | thread r tid =>
    obtain ⟨hr, ht, -⟩ := step_thread.1 (List.getElem?_eq_getElem (show 0 < _ from h))
    exact List.mem_flatMap.2 ⟨r, List.mem_range.2 hr,
      List.mem_append_left _ (List.mem_map_of_mem (List.mem_range.2 ht))⟩
  | op r k =>
    obtain ⟨hr, c, hc, -⟩ := step_op.1 (List.getElem?_eq_getElem (show 0 < _ from h))
    refine List.mem_flatMap.2 ⟨r, List.mem_range.2 hr, List.mem_append_right _ ?_⟩
    exact List.mem_flatMap.2 ⟨k, List.mem_range.2 (stmtAt_lt hc), .head _⟩
  | grant r k =>
    obtain ⟨hr, hm⟩ := main_of_grant (List.getElem?_eq_getElem (show 0 < _ from h))
    have hk : k < (P.items r).length := by
      rcases hm with ⟨w, e, t, hs⟩ | ⟨w, hs⟩
      · exact stmtAt_lt hs
      · exact stmtAt_lt hs
    refine List.mem_flatMap.2 ⟨r, List.mem_range.2 hr, List.mem_append_right _ ?_⟩
    exact List.mem_flatMap.2 ⟨k, List.mem_range.2 hk, .tail _ (.head _)⟩

/-- **A program whose flat program finishes, without contention for locks, finishes.** -/
theorem finishes_of_flat (L : P.Lexical) (hb : P.flat.finishB = true) (hcalm : P.flat.calmB = true) :
    P.Finishes := by
  intro h hr
  obtain ⟨c, hc, hall⟩ := reach_of_finishB (t := 1) sequential_flat Nat.one_pos hb Nat.one_pos .nil
  rw [List.append_nil] at hc hall
  change P.flat.system.Run c at hc
  have hplan : Plan P.system P.goal (level c) :=
    { cone_of_flat hc hall L with
      free := fun e _ l x l' hl hl' hclash hne => absurd (calm_of_calmB hcalm hl hl' hclash) hne }
  obtain ⟨h', hr', hd⟩ := hplan.reach P.workers (fun a => mem_workers) hr
  have hmem : ∀ {a i st}, P.system.step (a, i) = some st → (∀ r j, a ≠ .task r j) → (a, i) ∈ h' ++ h := by
    intro a i st hst hno
    rw [Run.mem_iff hr']
    have hgoal : P.goal a = (P.system.code a).length := by
      cases a with
      | task r j => exact absurd rfl (hno r j)
      | _ => rfl
    exact Nat.lt_of_lt_of_le (hgoal ▸ lt_length_of_step hst) (hd a)
  refine ⟨h', hr', fun {x r it} hp => ?_, fun hst => hmem hst (by simp), fun hst => hmem hst (by simp)⟩
  refine hmem hp.step fun r' j he => ?_
  have hitem := L.item (by cases hp <;> assumption) hp.item
  cases hp with
  | thread => cases he
  | task _ _ hwho =>
    rw [itemB, hwho] at hitem
    cases hitem

end Program

end Mpi
