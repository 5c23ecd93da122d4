import RMARaceBench.Mpi.Events

/-!
# The statements of a rank

`Program.eventsOf q r` lists the events of rank `r` that perform statements with `q`, in the order of
the text. It is the list of all such events when each of these statements has one actor
(`Program.Single`), and its statements are those of the text (`statements_eventsOf`). A run that performs
all items performs them all, once (`countP_of_performed`).
-/

set_option autoImplicit false

namespace Mpi

open Causal Causal.System Omp

/-- The actor executes the items of rank `r` that are for `w`. -/
def Actor.executes (r : Nat) (w : Who) : Actor → Bool
  | .thread r' tid => r' == r && w.runs tid
  | .task r' j => r' == r && w == .task j
  | _ => false

/-- The statements of a text with `q`. -/
def textOf (q : Stmt → Bool) (its : List (Item Stmt)) : List Stmt :=
  (its.filterMap Item.stmt?).filter q

section
variable {q : Stmt → Bool}

@[simp] theorem textOf_nil : textOf q [] = [] := rfl

@[simp] theorem textOf_append (as bs : List (Item Stmt)) :
    textOf q (as ++ bs) = textOf q as ++ textOf q bs := by
  rw [textOf, List.filterMap_append, List.filter_append, textOf, textOf]

@[simp] theorem textOf_on (w : Who) (ss : List Stmt) : textOf q (on w ss) = ss.filter q := by
  rw [textOf, on, List.filterMap_map]
  exact congrArg _ (List.filterMap_some (l := ss))

@[simp] theorem textOf_cons (it : Item Stmt) (its : List (Item Stmt)) :
    textOf q (it :: its) = it.stmt?.toList.filter q ++ textOf q its := by
  cases hs : it.stmt? with
  | none => rw [textOf, List.filterMap_cons_none hs]; rfl
  | some s =>
    rw [textOf, List.filterMap_cons_some hs, ← List.singleton_append, List.filter_append]
    rfl

theorem mem_textOf {its : List (Item Stmt)} {it : Item Stmt} {s : Stmt} (hit : it ∈ its)
    (hs : it.stmt? = some s) (hq : q s = true) : s ∈ textOf q its :=
  List.mem_filter.2 ⟨List.mem_filterMap.2 ⟨it, hit, hs⟩, hq⟩

end

namespace Program

variable (P : Program) (q : Stmt → Bool) (r : Nat)

/-- The statement that an event performs for rank `r`. -/
def performed (x : Event Actor) : Option Stmt :=
  (P.items r)[x.2]?.bind fun it => if x.1.executes r it.who then it.stmt? else none

/-- The event that performs the item at a position, when it has one actor and a statement with `q`. -/
def eventAt (p : Item Stmt × Nat) : Option (Event Actor × Stmt) :=
  match p.1.stmt?, actorOf r p.1.who with
  | some s, some a => if q s then some ((a, p.2), s) else none
  | _, _ => none

def eventsOf : List (Event Actor × Stmt) := (P.items r).zipIdx.filterMap (eventAt q r)

/-- Every statement of rank `r` with `q` has one actor. -/
def Single : Prop := ∀ it ∈ P.items r, it.stmt?.any q = true → it.who ≠ .every

variable {P : Program} {q : Stmt → Bool} {r : Nat} {x : Event Actor} {s : Stmt}

theorem eventAt_eq_some {p : Item Stmt × Nat} {y : Event Actor × Stmt} :
    eventAt q r p = some y ↔
      p.1.stmt? = some y.2 ∧ actorOf r p.1.who = some y.1.1 ∧ y.1.2 = p.2 ∧ q y.2 = true := by
  unfold eventAt
  split
  · rename_i s a hs ha
    rw [hs, ha]
    split
    · rename_i hq
      simp only [Option.some.injEq]
      constructor
      · rintro rfl
        exact ⟨rfl, rfl, rfl, hq⟩
      · rintro ⟨h1, h2, h3, -⟩
        exact Prod.ext (Prod.ext h2 h3.symm) h1
    · rename_i hq
      simp only [reduceCtorEq, false_iff]
      rintro ⟨h1, -, -, h4⟩
      rw [← Option.some.inj h1] at h4
      exact hq h4
  · rename_i hno
    simp only [reduceCtorEq, false_iff]
    rintro ⟨h1, h2, -, -⟩
    exact hno _ _ h1 h2

theorem mem_eventsOf {k : Nat} {a : Actor} : ((a, k), s) ∈ P.eventsOf q r ↔
    ∃ it, (P.items r)[k]? = some it ∧ it.stmt? = some s ∧ actorOf r it.who = some a ∧
      q s = true := by
  simp only [eventsOf, List.mem_filterMap, Prod.exists, List.mk_mem_zipIdx_iff_getElem?,
    eventAt_eq_some]
  constructor
  · rintro ⟨it, _, hit, hs, ha, rfl, hq⟩
    exact ⟨it, hit, hs, ha, hq⟩
  · rintro ⟨it, hit, hs, ha, hq⟩
    exact ⟨it, k, hit, hs, ha, rfl, hq⟩

/-- The list follows the text. -/
theorem sorted_eventsOf : (P.eventsOf q r).Pairwise fun x y => x.1.2 < y.1.2 := by
  rw [eventsOf, List.pairwise_filterMap]
  have hidx : (P.items r).zipIdx.Pairwise fun p q => p.2 < q.2 := by
    rw [← List.pairwise_map (f := Prod.snd) (R := (· < ·)), List.zipIdx_map_snd]
    exact List.pairwise_lt_range'
  refine hidx.imp fun hlt y hy y' hy' => ?_
  rw [(eventAt_eq_some.1 hy).2.2.1, (eventAt_eq_some.1 hy').2.2.1]
  exact hlt

theorem actorOf_executes {w : Who} {a : Actor} (h : actorOf r w = some a) :
    a.executes r w = true := by
  cases w <;> cases h <;> simp [Actor.executes, Who.runs]

theorem performed_of_performs {it : Item Stmt} (hp : P.Performs x r it) :
    P.performed r x = it.stmt? := by
  rw [performed, hp.item, Option.bind_some, if_pos]
  cases hp with
  | thread _ _ _ hw => simp [Actor.executes, hw]
  | task _ _ hw => simp [Actor.executes, hw]

/-- An event of a run that performs a statement performs its item. -/
theorem performs_of_performed {st : MStep} (hx : P.system.step x = some st)
    (h : P.performed r x = some s) : ∃ it, P.Performs x r it ∧ it.stmt? = some s := by
  obtain ⟨it, hit, hif⟩ := Option.bind_eq_some_iff.1 h
  split at hif
  · rename_i hex
    refine ⟨it, ?_, hif⟩
    obtain ⟨a, k⟩ := x
    cases a with
    | thread r' tid =>
      simp only [Actor.executes, Bool.and_eq_true, beq_iff_eq] at hex
      obtain ⟨rfl, hw⟩ := hex
      obtain ⟨hr, ht, -⟩ := step_thread.1 hx
      exact .thread hr ht hit hw
    | task r' j =>
      simp only [Actor.executes, Bool.and_eq_true, beq_iff_eq] at hex
      obtain ⟨rfl, hw⟩ := hex
      exact .task (step_task.1 hx).1 hit hw
    | op r' k' => cases hex
    | grant r' k' => cases hex
  · cases hif

theorem performed_of_mem {p : Event Actor × Stmt} (hp : p ∈ P.eventsOf q r) :
    P.performed r p.1 = some p.2 ∧ q p.2 = true := by
  obtain ⟨⟨a, k⟩, s⟩ := p
  obtain ⟨it, hit, hs, ha, hq⟩ := mem_eventsOf.1 hp
  exact ⟨by rw [performed, hit, Option.bind_some, if_pos (actorOf_executes ha), hs], hq⟩

theorem mem_of_performs (hsg : P.Single q r) {it : Item Stmt} (hp : P.Performs x r it)
    (hs : it.stmt? = some s) (hq : q s = true) : (x, s) ∈ P.eventsOf q r := by
  have hwho : it.who ≠ .every := hsg it (List.mem_of_getElem? hp.item) (by rw [hs]; exact hq)
  obtain ⟨a, ha⟩ : ∃ a, actorOf r it.who = some a := by
    cases hw : it.who with
    | every => exact absurd hw hwho
    | _ => exact ⟨_, rfl⟩
  have hx : x = (a, x.2) := Prod.ext (hp.actor ha) rfl
  rw [hx]
  exact mem_eventsOf.2 ⟨it, hp.item, hs, ha, hq⟩

/-- **The statements of the list** are those of the text. -/
theorem statements_eventsOf (hsg : P.Single q r) :
    (P.eventsOf q r).map (·.2) = textOf q (P.items r) := by
  have hgen : ∀ (its : List (Item Stmt)) (n : Nat), (∀ it ∈ its, it ∈ P.items r) →
      ((its.zipIdx n).filterMap (eventAt q r)).map (·.2) = textOf q its := by
    intro its
    induction its with
    | nil => intro n _; rfl
    | cons it its ih =>
      intro n hmem
      have ih' := ih (n + 1) fun it' h => hmem it' (.tail _ h)
      rw [List.zipIdx_cons, textOf]
      cases hs : it.stmt? with
      | none =>
        rw [List.filterMap_cons_none (by simp [eventAt, hs]), List.filterMap_cons_none hs]
        exact ih'
      | some s =>
        rw [List.filterMap_cons_some hs]
        cases hq : q s with
        | false =>
          rw [List.filter_cons_of_neg (by simp [hq]), List.filterMap_cons_none]
          · exact ih'
          · cases ha : actorOf r it.who <;> simp [eventAt, hs, ha, hq]
        | true =>
          have hwho := hsg it (hmem it (.head _)) (by rw [hs]; exact hq)
          obtain ⟨a, ha⟩ : ∃ a, actorOf r it.who = some a := by
            cases hw : it.who with
            | every => exact absurd hw hwho
            | _ => exact ⟨_, rfl⟩
          rw [List.filter_cons_of_pos hq, List.filterMap_cons_some (b := ((a, n), s)), List.map_cons]
          · rw [ih']; rfl
          · simp [eventAt, hs, ha, hq]
  exact hgen (P.items r) 0 fun it h => h

/-! ## Runs that perform all items -/

/-- A run performs no event twice. -/
theorem nodup_run {h : List (Event Actor)} (hr : P.system.Run h) : h.Nodup := by
  induction hr with
  | nil => exact List.nodup_nil
  | step hr _ _ ih => exact List.nodup_cons.2 ⟨Run.fresh hr _, ih⟩

/-- **A run that performs all items of a rank performs the statements of its text**, once. -/
theorem countP_of_performed (hsg : P.Single q r) (hw : ∀ it ∈ P.items r, Within P.team it.who)
    (hlt : r < P.procs) (h0 : 0 < P.team) {h : List (Event Actor)} (hr : P.system.Run h)
    (hall : ∀ {x it}, P.Performs x r it → x ∈ h) :
    h.countP (fun x => (P.performed r x).any q) = (textOf q (P.items r)).length := by
  rw [← statements_eventsOf hsg, List.length_map, List.countP_eq_length_filter,
    ← show ((P.eventsOf q r).map Prod.fst).length = (P.eventsOf q r).length from List.length_map _]
  have hnodup : ((P.eventsOf q r).map Prod.fst).Nodup := by
    rw [List.Nodup, List.pairwise_map]
    exact sorted_eventsOf.imp fun hlt heq => by rw [heq] at hlt; exact Nat.lt_irrefl _ hlt
  refine ((List.perm_ext_iff_of_nodup ((nodup_run hr).filter _) hnodup).2 fun x => ?_).length_eq
  simp only [List.mem_filter, List.mem_map]
  constructor
  · rintro ⟨hx, hany⟩
    obtain ⟨s, hs, hq⟩ := (Option.any_eq_true _ _).1 hany
    obtain ⟨st, hst⟩ := Run.step_of_mem hr hx
    obtain ⟨it, hp, hits⟩ := performs_of_performed hst hs
    exact ⟨(x, s), mem_of_performs hsg hp hits hq, rfl⟩
  · rintro ⟨⟨⟨a, k⟩, s⟩, hmem, rfl⟩
    obtain ⟨it, hit, hs, ha, hq⟩ := mem_eventsOf.1 hmem
    have hp := performs_of_actor hlt h0 hit (hw it (List.mem_of_getElem? hit)) ha
    exact ⟨hall hp, by rw [performed_of_performs hp, hs]; exact hq⟩

end Program

end Mpi
