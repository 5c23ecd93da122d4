import RMARaceBench.Mpi.Template.Hybrid
import RMARaceBench.Mpi.Statements

/-!
# Handing over to the threads of a region

In the hybrid programs one thread of a parallel region executes an MPI call (the end of an access epoch
or a barrier) and hands over to the threads that read `win_base[0]` afterwards. `Handover P r before s a u`:
the actor `a` of rank `r` executes the statement `s` at position `u`, the statements before it are
`before`, and it happens before every read of `win_base[0]` and every statement of the initial thread
that stands after it. One lemma for each construct shows it (`hands_master`, `hands_single`,
`hands_sections`, `hands_ordered`, `hands_task`).
-/

set_option autoImplicit false

namespace Mpi

open Causal Causal.System Omp

/-- An item that has to wait for the handover. -/
def late (it : Item Stmt) : Bool := it.stmt? == some (.load (winBase 0)) || it.who == .initial

/-- The handover at position `u` of rank `r` (module doc), which lies before position `e`. -/
structure Handover (P : Program) (r : Nat) (before : List Stmt) (s : Stmt) (a : Actor) (u e : Nat) :
    Prop where
  performs : ∃ it, P.Performs (a, u) r it ∧ it.act = .stmt s ∧ actorOf r it.who = some a
  text : ∀ q, textOf q ((P.items r).take u) = before.filter q
  lt : u < e
  gate : ∀ {x it}, P.Performs x r it → u < x.2 → late it = true → Must P.system (a, u) x

/-- In every program that has the text `region` on a rank, `s` is handed over; `inner` are the statements
of the region before it. -/
def Hands (T : Team) (region : List (Item Stmt)) (inner : List Stmt) (s : Stmt) : Prop :=
  ∀ (P : Program) (r : Nat) (pre post : List Stmt), r < P.procs → P.team = T.size →
    P.items r = seq pre ++ (region ++ seq post) →
    ∃ a u, Handover P r (pre ++ inner) s a u (seq pre ++ region).length

/-! ## Positions -/

/-- An item after position `A.length` is in `mid` or after it. -/
theorem mem_or_after {α : Type} {A mid rest : List α} {x y : α} {k : Nat}
    (h : (A ++ x :: (mid ++ rest))[k]? = some y) (hk : A.length < k) :
    y ∈ mid ∨ (A.length + 1 + mid.length ≤ k ∧ y ∈ rest) := by
  rw [List.getElem?_append_right (Nat.le_of_lt hk),
    show k - A.length = (k - A.length - 1) + 1 by omega, List.getElem?_cons_succ] at h
  rcases Nat.lt_or_ge (k - A.length - 1) mid.length with hlt | hge
  · rw [List.getElem?_append_left hlt] at h
    exact .inl (List.mem_of_getElem? h)
  · rw [List.getElem?_append_right hge] at h
    exact .inr ⟨by omega, List.mem_of_getElem? h⟩

/-- Nothing is late in `its`. -/
theorem not_late {its : List (Item Stmt)} (h : its.any late = false) {it : Item Stmt} (hit : it ∈ its)
    (hl : late it = true) : False := by
  have := List.any_eq_false.1 h it hit
  exact this hl

theorem who_on {w : Who} {ss : List Stmt} {it : Item Stmt} (h : it ∈ on w ss) : it.who = w := by
  obtain ⟨s, -, rfl⟩ := List.mem_map.1 h
  rfl

theorem act_on {w : Who} {ss : List Stmt} {it : Item Stmt} (h : it ∈ on w ss) :
    ∃ s, it.act = .stmt s := by
  obtain ⟨s, -, rfl⟩ := List.mem_map.1 h
  exact ⟨s, rfl⟩

namespace Program

variable {P : Program} {r : Nat} {x : Event Actor} {it : Item Stmt}

/-- An item that is for no task is performed by a thread. -/
theorem Performs.of_thread (h : P.Performs x r it) (hw : ∀ j, it.who ≠ .task j) :
    ∃ tid, tid < P.team ∧ x.1 = .thread r tid := by
  cases h with
  | thread hr ht _ _ => exact ⟨_, ht, rfl⟩
  | task _ _ hwho => exact absurd hwho (hw _)

/-- What is late and stands from a barrier on stands after it. -/
theorem late_after_barrier {pre post : List (Item Stmt)} (hits : P.items r = pre ++ (barrier ++ post))
    (hpost : ∀ it ∈ post, ∀ j, it.who ≠ .task j) (hp : P.Performs x r it) (hl : late it = true)
    (hx : pre.length ≤ x.2) : pre.length + 1 < x.2 ∧ ∃ tid, tid < P.team ∧ x.1 = .thread r tid := by
  have hitem := hp.item
  rw [hits, List.getElem?_append_right hx] at hitem
  obtain ⟨k, hk⟩ : ∃ k, x.2 = pre.length + k := ⟨x.2 - pre.length, by omega⟩
  rw [hk, Nat.add_sub_cancel_left] at hitem
  rcases k with _ | _ | k
  · cases Option.some.inj hitem
    cases hl
  · cases Option.some.inj hitem
    cases hl
  · refine ⟨by omega, hp.of_thread fun j hj => ?_⟩
    exact hpost it (List.mem_of_getElem? (show post[k]? = some it from hitem)) j hj

/-- In a sequential text every statement is handed over to those that follow. -/
theorem handover_initial {before post : List Stmt} {s : Stmt} {e : Nat} (hr : r < P.procs)
    (h0 : 0 < P.team) (hits : P.items r = seq (before ++ s :: post)) (he : before.length < e) :
    Handover P r before s (.thread r 0) before.length e := by
  have hit : (P.items r)[before.length]? = some ⟨.initial, .stmt s⟩ := by
    rw [hits, getElem?_seq]
    simp
  refine ⟨⟨_, .thread hr h0 hit rfl, rfl, rfl⟩, ?_, he, ?_⟩
  · intro q
    rw [hits, seq, on, ← List.map_take, List.take_left', ← on, textOf_on]
    rfl
  · intro x it hp hx _
    have hmem := List.mem_of_getElem? hp.item
    rw [hits] at hmem
    have hx1 : x.1 = .thread r 0 := hp.actor (by rw [who_on hmem]; rfl)
    rw [show x = (.thread r 0, x.2) from Prod.ext hx1 rfl]
    exact .order hx

section
variable {A mid post : List (Item Stmt)} {before : List Stmt} {s : Stmt} {τ e : Nat}
  (hr : r < P.procs) (hτ : τ < P.team) (htext : ∀ q, textOf q A = before.filter q)
  (hpost : ∀ it ∈ post, ∀ j, it.who ≠ .task j) (he : A.length < e)
include hr hτ htext hpost he

/-- Handed over by a barrier of the team. -/
theorem handover_barrier (hits : P.items r = A ++ ⟨.thread τ, .stmt s⟩ :: (mid ++ (barrier ++ post)))
    (hmid : mid.any late = false) : Handover P r before s (.thread r τ) A.length e := by
  have hit : (P.items r)[A.length]? = some ⟨.thread τ, .stmt s⟩ := by simp [hits]
  refine ⟨⟨_, .thread hr hτ hit (by simp [Who.runs]), rfl, rfl⟩, ?_, he, ?_⟩
  · intro q
    rw [hits, List.take_left', htext]
    rfl
  · intro x it hp hx hl
    have hitem := hp.item
    rw [hits] at hitem
    rcases mem_or_after hitem hx with hmem | ⟨hle, -⟩
    · exact absurd hl fun hl => not_late hmid hmem hl
    · have hits' : P.items r = (A ++ ⟨.thread τ, .stmt s⟩ :: mid) ++ (barrier ++ post) := by
        simp [hits]
      have hlen : (A ++ (⟨.thread τ, .stmt s⟩ : Item Stmt) :: mid).length = A.length + 1 + mid.length := by
        simp only [List.length_append, List.length_cons]
        omega
      obtain ⟨hlt, tid, htid, hx1⟩ := late_after_barrier hits' hpost hp hl (by omega)
      rw [show x = (.thread r tid, x.2) from Prod.ext hx1 rfl]
      exact must_barrier hr hits' hτ htid (by omega) (by omega)

/-- Handed over by the order of an ordered loop to the next iteration, and by the barrier at its end. -/
theorem handover_ordered {τ' l i : Nat} {ss : List Stmt} (hτ' : τ' < P.team)
    (hits : P.items r = A ++ ⟨.thread τ, .stmt s⟩ :: ([⟨.thread τ, .orderedEnd l i⟩,
      ⟨.thread τ', .orderedBegin l (i + 1)⟩] ++ ((on (.thread τ') ss ++
        [⟨.thread τ', .orderedEnd l (i + 1)⟩]) ++ (barrier ++ post))))
    (hA : ∀ it ∈ A, it.act ≠ .orderedEnd l i) (hend : ∀ it ∈ post, it.act ≠ .orderedEnd l i) :
    Handover P r before s (.thread r τ) A.length e := by
  have hit : (P.items r)[A.length]? = some ⟨.thread τ, .stmt s⟩ := by simp [hits]
  refine ⟨⟨_, .thread hr hτ hit (by simp [Who.runs]), rfl, rfl⟩, ?_, he, ?_⟩
  · intro q
    rw [hits, List.take_left', htext]
    rfl
  · intro x it hp hx hl
    have hitem := hp.item
    have hnext : A.length + 3 ≤ x.2 := by
      rw [hits] at hitem
      rcases mem_or_after hitem hx with hmem | ⟨hle, -⟩
      · exact absurd hl fun hl => not_late rfl hmem hl
      · exact hle
    have hbegin : P.items r = (A ++ [⟨.thread τ, .stmt s⟩, ⟨.thread τ, .orderedEnd l i⟩]) ++
        ⟨.thread τ', .orderedBegin l (i + 1)⟩ :: ((on (.thread τ') ss ++
          [⟨.thread τ', .orderedEnd l (i + 1)⟩]) ++ (barrier ++ post)) := by
      simp [hits]
    rw [hbegin] at hitem
    rcases mem_or_after hitem (by simp; omega) with hmem | ⟨hle, -⟩
    · have hwho : it.who = .thread τ' := by
        rcases List.mem_append.1 hmem with hmem | hmem
        · exact who_on hmem
        · rw [List.mem_singleton.1 hmem]
      have hx1 : x.1 = .thread r τ' := hp.actor (by rw [hwho]; rfl)
      rw [show x = (.thread r τ', x.2) from Prod.ext hx1 rfl]
      have hb : (P.items r)[A.length + 2]? = some ⟨.thread τ', .orderedBegin l (i + 1)⟩ := by
        simp [hits]
      have hsplit : P.items r = (A ++ [⟨.thread τ, .stmt s⟩]) ++ ⟨.thread τ, .orderedEnd l i⟩ ::
          (⟨.thread τ', .orderedBegin l (i + 1)⟩ :: ((on (.thread τ') ss ++
            [⟨.thread τ', .orderedEnd l (i + 1)⟩]) ++ (barrier ++ post))) := by
        simp [hits]
      have hbefore : ∀ z ∈ A ++ [(⟨.thread τ, .stmt s⟩ : Item Stmt)], z.act ≠ .orderedEnd l i := by
        intro z hz
        rcases List.mem_append.1 hz with hz | hz
        · exact hA z hz
        · rw [List.mem_singleton.1 hz]
          simp
      have hafter : ∀ z ∈ (⟨.thread τ', .orderedBegin l (i + 1)⟩ : Item Stmt) :: ((on (.thread τ') ss ++
          [⟨.thread τ', .orderedEnd l (i + 1)⟩]) ++ (barrier ++ post)), z.act ≠ .orderedEnd l i := by
        intro z hz
        simp only [List.mem_cons, List.mem_append, barrier, List.not_mem_nil, or_false] at hz
        rcases hz with rfl | (hz | rfl) | (rfl | rfl) | hz
        · simp
        · obtain ⟨s, hs⟩ := act_on hz
          simp [hs]
        · simp
        · simp
        · simp
        · exact hend z hz
      refine must_ordered hr hτ' hb (fun e' it' hit' hact => ?_) (Nat.le_succ _) (by omega)
      rw [hsplit] at hit'
      obtain ⟨he', hi'⟩ := Text.at_of_split (q := fun z => z.act = .orderedEnd l i) hbefore hafter hit' hact
      exact ⟨by simp [he'], by rw [hi']⟩
    · have hbar : P.items r = (A ++ ⟨.thread τ, .stmt s⟩ :: ⟨.thread τ, .orderedEnd l i⟩ ::
          ⟨.thread τ', .orderedBegin l (i + 1)⟩ :: (on (.thread τ') ss ++
            [⟨.thread τ', .orderedEnd l (i + 1)⟩])) ++ (barrier ++ post) := by
        simp [hits]
      simp only [List.length_append, List.length_cons, List.length_nil] at hle
      obtain ⟨hlt, tid, htid, hx1⟩ := late_after_barrier hbar hpost hp hl (by simp; omega)
      rw [show x = (.thread r tid, x.2) from Prod.ext hx1 rfl]
      exact must_barrier hr hbar hτ htid (by simp) (by omega)

/-- Handed over by a wait for the task, and by the barrier after it. -/
theorem handover_task {j : Nat} {ss : List Stmt}
    (hits : P.items r = A ++ ⟨.task j, .stmt s⟩ :: ((⟨.task j, .taskEnd j⟩ :: mid) ++
      (⟨.thread τ, .taskWait⟩ :: (on (.thread τ) ss ++ (barrier ++ post)))))
    (hmid : mid.any late = false) (hcreate : ∃ it ∈ A, it.act = .taskCreate j)
    (huniq : ∀ it ∈ A ++ (mid ++ post), it.act ≠ .taskEnd j) :
    Handover P r before s (.task r j) A.length e := by
  have hit : (P.items r)[A.length]? = some ⟨.task j, .stmt s⟩ := by simp [hits]
  refine ⟨⟨_, .task hr hit rfl, rfl, rfl⟩, ?_, he, ?_⟩
  · intro q
    rw [hits, List.take_left', htext]
    rfl
  · intro x it hp hx hl
    have hitem := hp.item
    have hwait : P.items r = (A ++ ⟨.task j, .stmt s⟩ :: ⟨.task j, .taskEnd j⟩ :: mid) ++
        ⟨.thread τ, .taskWait⟩ :: (on (.thread τ) ss ++ (barrier ++ post)) := by
      simp [hits]
    have hend : P.items r = (A ++ [⟨.task j, .stmt s⟩]) ++ ⟨.task j, .taskEnd j⟩ ::
        (mid ++ (⟨.thread τ, .taskWait⟩ :: (on (.thread τ) ss ++ (barrier ++ post)))) := by
      simp [hits]
    have hbefore : ∀ z ∈ A ++ [(⟨.task j, .stmt s⟩ : Item Stmt)], z.act ≠ .taskEnd j := by
      intro z hz
      rcases List.mem_append.1 hz with hz | hz
      · exact huniq z (List.mem_append_left _ hz)
      · rw [List.mem_singleton.1 hz]
        simp
    have hafter : ∀ z ∈ mid ++ ((⟨.thread τ, .taskWait⟩ : Item Stmt) :: (on (.thread τ) ss ++
        (barrier ++ post))), z.act ≠ .taskEnd j := by
      intro z hz
      simp only [List.mem_cons, List.mem_append, barrier, List.not_mem_nil, or_false] at hz
      rcases hz with hz | rfl | hz | (rfl | rfl) | hz
      · exact huniq z (List.mem_append_right _ (List.mem_append_left _ hz))
      · simp
      · obtain ⟨s, hs⟩ := act_on hz
        simp [hs]
      · simp
      · simp
      · exact huniq z (List.mem_append_right _ (List.mem_append_right _ hz))
    have hcreate' : ∃ z ∈ A ++ [(⟨.task j, .stmt s⟩ : Item Stmt)], z.act = .taskCreate j := by
      obtain ⟨z, hz, hact⟩ := hcreate
      exact ⟨z, List.mem_append_left _ hz, hact⟩
    -- whoever waits for the task at position `l` goes on after it
    have hmust : ∀ {a : Actor} {l : Nat} {it' : Item Stmt}, P.Performs (a, l) r it' →
        it'.act = .leave ∨ it'.act = .taskWait → A.length + 1 < l → l ≤ x.2 →
        Must P.system (.task r j, A.length) (a, x.2) := by
      intro a l it' hp' hact hl hlx
      exact must_task hend hbefore hafter hcreate' hp' hact (by simp; omega) (by simp) hlx
    have hlen : (A ++ (⟨.task j, .stmt s⟩ : Item Stmt) :: ⟨.task j, .taskEnd j⟩ :: mid).length =
        A.length + 2 + mid.length := by
      simp only [List.length_append, List.length_cons]
      omega
    have hw : (P.items r)[A.length + 2 + mid.length]? = some ⟨.thread τ, .taskWait⟩ := by
      rw [hwait, ← hlen, List.getElem?_append_right (Nat.le_refl _), Nat.sub_self,
        List.getElem?_cons_zero]
    have hlate : A.length + 2 + mid.length < x.2 := by
      have hfirst : P.items r = A ++ ⟨.task j, .stmt s⟩ :: (((⟨.task j, .taskEnd j⟩ :: mid) ++
          [⟨.thread τ, .taskWait⟩]) ++ (on (.thread τ) ss ++ (barrier ++ post))) := by
        simp [hits]
      rw [hfirst] at hitem
      rcases mem_or_after hitem hx with hmem | ⟨hle, -⟩
      · refine absurd hl fun hl => not_late ?_ hmem hl
        rw [List.any_append, List.any_cons, hmid]
        rfl
      · simp only [List.length_append, List.length_cons, List.length_nil] at hle
        omega
    rw [hwait] at hitem
    rcases mem_or_after hitem (by omega) with hmem | ⟨hle, -⟩
    · have hx1 : x.1 = .thread r τ := hp.actor (by rw [who_on hmem]; rfl)
      rw [show x = (.thread r τ, x.2) from Prod.ext hx1 rfl]
      exact hmust (.thread hr hτ hw (by simp [Who.runs])) (.inr rfl) (by omega) (by omega)
    · have hbar : P.items r = (A ++ ⟨.task j, .stmt s⟩ :: ⟨.task j, .taskEnd j⟩ :: (mid ++
          ⟨.thread τ, .taskWait⟩ :: on (.thread τ) ss)) ++ (barrier ++ post) := by
        simp [hits]
      obtain ⟨n, hn⟩ : ∃ n, n = (A ++ (⟨.task j, .stmt s⟩ : Item Stmt) :: ⟨.task j, .taskEnd j⟩ ::
          (mid ++ ⟨.thread τ, .taskWait⟩ :: on (.thread τ) ss)).length := ⟨_, rfl⟩
      have hn' : n = A.length + 2 + mid.length + 1 + (on (.thread τ) ss).length := by
        simp only [hn, List.length_append, List.length_cons]
        omega
      obtain ⟨hlt, tid, htid, hx1⟩ := late_after_barrier hbar hpost hp hl (by omega)
      have hleave : (P.items r)[n + 1]? = some ⟨.every, .leave⟩ := by
        rw [hbar, hn, List.getElem?_append_right (Nat.le_add_right _ 1), Nat.add_sub_cancel_left]
        rfl
      rw [show x = (.thread r tid, x.2) from Prod.ext hx1 rfl]
      exact hmust (performs_every hr htid hleave) (.inl rfl) (by omega) (by omega)

end

end Program

/-! ## The constructs -/

section
variable (T : Team) (inner : List Stmt) (s : Stmt) (reads : List Stmt)

theorem seq_not_task {ss : List Stmt} {it : Item Stmt} (h : it ∈ seq ss) (j : Nat) :
    it.who ≠ .task j := by
  rw [who_on h]
  simp

theorem textOf_seq (q : Stmt → Bool) (ss : List Stmt) : textOf q (seq ss) = ss.filter q :=
  textOf_on .initial ss

/-- The polling of a task does not count for `q`. -/
theorem textOf_taskRegion {q : Stmt → Bool} (hq : ∀ found, q (.atomicRead .flag found) = false)
    (cx : Ctx) (rank : Nat) (body : List Stmt) (rest : Who → List (Item Stmt)) :
    textOf q (Template.taskRegion cx rank body rest) =
      (declInit .flag ++ Template.mySignal ++ body).filter q ++
        textOf q (rest (.thread (cx.team.single 0))) := by
  have hpoll : (Template.myWait (cx.rounds rank)).filter q = [] := by
    rw [List.filter_eq_nil_iff]
    intro s hs
    rcases List.mem_append.1 hs with hs | hs
    · rw [List.eq_of_mem_replicate hs, hq]
      simp
    · rw [List.mem_singleton.1 hs, hq]
      simp
  simp only [Template.taskRegion, parallel, single, singleNowait, task, barrier, textOf_append,
    textOf_cons, textOf_on, textOf_seq, hpoll, List.filter_append]
  simp [Item.stmt?]

/-- `on w` as a list that ends in the statement handed over. -/
theorem on_snoc (w : Who) : on w (inner ++ [s]) = on w inner ++ [⟨w, .stmt s⟩] := by
  simp [on]

theorem hands_thread {τ : Nat} (hτ : τ < T.size) {rest : List (Item Stmt)}
    (hrest : ∀ it ∈ rest, ∀ j, it.who ≠ .task j) :
    Hands T (parallel (on (.thread τ) (inner ++ [s]) ++ (barrier ++ rest))) inner s := by
  intro P r pre post hr hT hits
  have hits' : P.items r = (seq pre ++ ⟨.every, .fork⟩ :: on (.thread τ) inner) ++
      ⟨.thread τ, .stmt s⟩ :: ([] ++ (barrier ++ (rest ++ barrier ++ seq post))) := by
    simp [hits, parallel, on_snoc]
  refine ⟨_, _, Program.handover_barrier hr (hT ▸ hτ) (fun q => ?_) (fun it hit => ?_) ?_ hits' rfl⟩
  · rw [textOf_append, textOf_cons, textOf_on, textOf_seq, List.filter_append]
    rfl
  · simp only [List.mem_append, barrier, List.mem_cons, List.not_mem_nil, or_false] at hit
    rcases hit with (hit | rfl | rfl) | hit
    · exact hrest it hit
    · simp
    · simp
    · exact seq_not_task hit
  · simp [parallel, on_snoc]

/-- `omp master` followed by a barrier. -/
theorem hands_master : Hands T (parallel (master (inner ++ [s]) ++ barrier ++ each reads)) inner s := by
  rw [List.append_assoc]
  apply hands_thread T inner s T.pos
  intro it hit j
  rw [who_on hit]
  simp

/-- `omp single`. -/
theorem hands_single :
    Hands T (parallel (single T 0 (fun w => on w (inner ++ [s])) ++ each reads)) inner s := by
  rw [single, singleNowait, List.append_assoc]
  apply hands_thread T inner s (T.single 0).isLt
  intro it hit j
  rw [who_on hit]
  simp

/-- Two `omp sections` one after the other. -/
theorem hands_sections :
    Hands T (parallel (sections T 0 [inner ++ [s]] ++ sections T 1 [reads])) inner s := by
  have hbody : sections T 0 [inner ++ [s]] ++ sections T 1 [reads] =
      on (.thread (T.section_ 0 0)) (inner ++ [s]) ++
        (barrier ++ (on (.thread (T.section_ 1 0)) reads ++ barrier)) := by
    simp [sections]
  rw [hbody]
  apply hands_thread T inner s (T.section_ 0 0).isLt
  intro it hit j
  simp only [List.mem_append, barrier, List.mem_cons, List.not_mem_nil, or_false] at hit
  rcases hit with hit | rfl | rfl
  · rw [who_on hit]
    simp
  · simp
  · simp

/-- The iterations of an ordered loop. -/
theorem hands_ordered :
    Hands T (parallel (forOrdered T 0 2 fun i => if i = 0 then inner ++ [s] else reads)) inner s := by
  intro P r pre post hr hT hits
  have hits' : P.items r = (seq pre ++ ⟨.every, .fork⟩ :: ⟨.thread (T.iter 0 0), .orderedBegin 0 0⟩ ::
      on (.thread (T.iter 0 0)) inner) ++ ⟨.thread (T.iter 0 0), .stmt s⟩ ::
        ([⟨.thread (T.iter 0 0), .orderedEnd 0 0⟩, ⟨.thread (T.iter 0 1), .orderedBegin 0 (0 + 1)⟩] ++
          ((on (.thread (T.iter 0 1)) reads ++ [⟨.thread (T.iter 0 1), .orderedEnd 0 (0 + 1)⟩]) ++
            (barrier ++ (barrier ++ seq post)))) := by
    simp [hits, parallel, forOrdered, List.range_succ, on_snoc]
  have h0 : (T.iter 0 0 : Nat) < P.team := by
    rw [hT]
    exact (T.iter 0 0).isLt
  have h1 : (T.iter 0 1 : Nat) < P.team := by
    rw [hT]
    exact (T.iter 0 1).isLt
  refine ⟨_, _, Program.handover_ordered hr h0 (fun q => ?_) (fun it hit => ?_) ?_ h1 hits'
    (fun it hit => ?_) fun it hit => ?_⟩
  · rw [textOf_append, textOf_cons, textOf_cons, textOf_on, textOf_seq, List.filter_append]
    rfl
  · simp only [List.mem_append, barrier, List.mem_cons, List.not_mem_nil, or_false] at hit
    rcases hit with (rfl | rfl) | hit
    · simp
    · simp
    · exact seq_not_task hit
  · simp [parallel, forOrdered, List.range_succ, on_snoc]
  · simp only [List.mem_append, List.mem_cons] at hit
    rcases hit with hit | rfl | rfl | hit
    · obtain ⟨s, hs⟩ := act_on hit
      simp [hs]
    · simp
    · simp
    · obtain ⟨s, hs⟩ := act_on hit
      simp [hs]
  · simp only [List.mem_append, barrier, List.mem_cons, List.not_mem_nil, or_false] at hit
    rcases hit with (rfl | rfl) | hit
    · simp
    · simp
    · obtain ⟨s, hs⟩ := act_on hit
      simp [hs]

/-- A task and `omp taskwait`. -/
theorem hands_task {cx : Ctx} (rank : Nat) : Hands cx.team (Template.taskRegion cx rank (inner ++ [s])
    fun w => taskwait w ++ on w reads) (declInit .flag ++ Template.mySignal ++ inner) s := by
  intro P r pre post hr hT hits
  obtain ⟨τ, hτ⟩ : ∃ τ : Nat, τ = cx.team.single 0 := ⟨_, rfl⟩
  have hlt : τ < P.team := by
    rw [hτ, hT]
    exact (cx.team.single 0).isLt
  have hits' : P.items r = (seq pre ++ seq (declInit .flag) ++ ⟨.every, .fork⟩ ::
      ⟨.thread τ, .taskCreate 0⟩ :: ⟨.task 0, .taskBegin 0⟩ :: on (.task 0) (Template.mySignal ++ inner)) ++
        ⟨.task 0, .stmt s⟩ :: ((⟨.task 0, .taskEnd 0⟩ :: on (.thread τ)
          (Template.myWait (cx.rounds rank))) ++ (⟨.thread τ, .taskWait⟩ :: (on (.thread τ) reads ++
            (barrier ++ (barrier ++ seq post))))) := by
    rw [hits, hτ]
    simp [parallel, Template.taskRegion, single, singleNowait, task, taskwait, on]
  refine ⟨_, _, Program.handover_task hr hlt (fun q => ?_) (fun it hit => ?_) ?_ hits' ?_ ?_ ?_⟩
  · simp only [textOf_append, textOf_cons, textOf_on, textOf_seq, List.filter_append, List.append_assoc]
    rfl
  · simp only [List.mem_append, barrier, List.mem_cons, List.not_mem_nil, or_false] at hit
    rcases hit with (rfl | rfl) | hit
    · simp
    · simp
    · exact seq_not_task hit
  · simp [parallel, Template.taskRegion, single, singleNowait, task, on]
  · rw [List.any_eq_false]
    intro it hit
    obtain ⟨s, hs, rfl⟩ := List.mem_map.1 hit
    rcases List.mem_append.1 hs with hs | hs
    · rw [List.eq_of_mem_replicate hs]
      simp [late, Item.stmt?]
    · rw [List.mem_singleton.1 hs]
      simp [late, Item.stmt?]
  · exact ⟨⟨.thread τ, .taskCreate 0⟩, by simp, rfl⟩
  · intro it hit
    have hstmt : ∀ {w : Who} {ss : List Stmt}, it ∈ on w ss → it.act ≠ .taskEnd 0 := by
      intro w ss h
      obtain ⟨s, hs⟩ := act_on h
      simp [hs]
    simp only [List.mem_append, barrier, List.mem_cons, List.not_mem_nil, or_false] at hit
    rcases hit with ((hit | hit) | rfl | rfl | rfl | hit) | hit | (rfl | rfl) | hit
    · exact hstmt hit
    · exact hstmt hit
    · simp
    · simp
    · simp
    · exact hstmt hit
    · exact hstmt hit
    · simp
    · simp
    · exact hstmt hit

end

end Mpi
