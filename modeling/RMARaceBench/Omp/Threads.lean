import RMARaceBench.Omp
import RMARaceBench.Causal.Progress

/-!
# Runs of programs with OpenMP regions

`Program.system` is the causal system of a program whose processes have a text of items each. Its
actors are the threads and tasks of every process; the steps of an actor stand at the positions of
the items it executes. What the statements wait for and signal is a parameter (`Effect`).

`Guarded` says of a text that whatever the initial thread does not execute stands behind what starts
its thread or task. In every run all of the sequential text in front of a guarded text is executed
before another thread executes anything (`sequential_first`).
-/

set_option autoImplicit false

namespace Omp

open Causal Causal.System

variable {σ τ : Type}

/-! ## Programs and their systems -/

/-- A program: the number of processes, the team of a parallel region and the text of every rank. -/
structure Program (σ : Type) where
  procs : Nat
  team : Team
  items : Nat → List (Item σ)

inductive Actor
  | thread (r tid : Nat)
  | task (r j : Nat)
  deriving DecidableEq, Repr

namespace Actor

def rank : Actor → Nat
  | thread r _ => r
  | task r _ => r

/-- The actor executes the items of `w`. -/
def runs : Actor → Who → Bool
  | thread _ tid, w => w.runs tid
  | task _ j, w => w == .task j

/-- The thread that the actor is or is executed by. -/
def tid (T : Team) : Actor → Nat
  | thread _ tid => tid
  | task _ j => T.task j

end Actor

inductive Token (τ : Type)
  | fork (r k : Nat)
  | team (r k tid : Nat)
  | ordered (r loop i : Nat)
  | taskCreated (r j : Nat)
  | taskDone (r j : Nat)
  | user (t : τ)
  deriving DecidableEq, Repr

/-- What a statement waits for and signals. -/
structure Effect (τ : Type) where
  waits : List τ := []
  signals : List τ := []

abbrev TStep (τ : Type) := Step Empty (Token τ) Empty

namespace Program

variable (P : Program σ)

/-- What the actor of an event does, if it executes the item at the event's position. -/
def performed (x : Event Actor) : Option (Act σ) :=
  (P.items x.1.rank)[x.2]?.bind fun it => if x.1.runs it.who then some it.act else none

/-- The tasks created before position `k`. -/
def tasksBefore (r k : Nat) : List Nat :=
  ((P.items r).take k).filterMap fun it =>
    match it.act with
    | .taskCreate j => some j
    | _ => none

/-- The step of an actor for what it does at position `k`. A team barrier is left when all threads
have entered it and all tasks are done. -/
def actStep (eff : Nat → Nat → σ → Effect τ) (a : Actor) (k : Nat) : Act σ → TStep τ
  | .stmt s =>
    { waits := (eff a.rank k s).waits.map .user, signals := (eff a.rank k s).signals.map .user }
  | .fork =>
    if a = .thread a.rank 0 then { signals := [.fork a.rank k] } else { waits := [.fork a.rank k] }
  | .enter => { signals := [.team a.rank k (a.tid P.team)] }
  | .leave =>
    { waits := (List.range P.team.size).map (.team a.rank (k - 1)) ++
        (P.tasksBefore a.rank k).map (.taskDone a.rank) }
  | .orderedBegin loop i => { waits := if i = 0 then [] else [.ordered a.rank loop (i - 1)] }
  | .orderedEnd loop i => { signals := [.ordered a.rank loop i] }
  | .taskCreate j => { signals := [.taskCreated a.rank j] }
  | .taskBegin j => { waits := [.taskCreated a.rank j] }
  | .taskEnd j => { signals := [.taskDone a.rank j] }
  | .taskWait => { waits := (P.tasksBefore a.rank k).map (.taskDone a.rank) }

/-- The actors of the program. -/
def hasActor : Actor → Bool
  | .thread r tid => decide (r < P.procs ∧ tid < P.team.size)
  | .task r _ => decide (r < P.procs)

def code (eff : Nat → Nat → σ → Effect τ) (a : Actor) : List (TStep τ) :=
  if P.hasActor a then
    (P.items a.rank).mapIdx fun k it => if a.runs it.who then P.actStep eff a k it.act else .skip
  else []

/-- **The causal system of a program.** -/
def system (eff : Nat → Nat → σ → Effect τ) : System Actor Empty (Token τ) Empty where
  code := P.code eff

variable {P} {eff : Nat → Nat → σ → Effect τ}

/-! ## Steps -/

/-- What an actor performs is what the item says that it executes. -/
theorem performed_iff {x : Event Actor} {act : Act σ} : P.performed x = some act ↔
    ∃ it, (P.items x.1.rank)[x.2]? = some it ∧ x.1.runs it.who = true ∧ it.act = act := by
  simp only [performed, Option.bind_eq_some_iff, Option.ite_none_right_eq_some, Option.some.injEq]

theorem step_eq {a : Actor} (ha : P.hasActor a = true) (k : Nat) : (P.system eff).step (a, k) =
    (P.items a.rank)[k]?.map fun it =>
      if a.runs it.who then P.actStep eff a k it.act else .skip := by
  change (P.code eff a)[k]? = _
  rw [code, if_pos ha, List.getElem?_mapIdx]

theorem hasActor_of_step {a : Actor} {k : Nat} {s : TStep τ} (hs : (P.system eff).step (a, k) = some s) :
    P.hasActor a = true := by
  by_contra hn
  change (P.code eff a)[k]? = some s at hs
  rw [code, if_neg hn] at hs
  cases hs

theorem step_of_performed {x : Event Actor} {act : Act σ} (ha : P.hasActor x.1 = true)
    (hp : P.performed x = some act) :
    (P.system eff).step x = some (P.actStep eff x.1 x.2 act) := by
  obtain ⟨it, hit, hruns, rfl⟩ := performed_iff.1 hp
  rw [step_eq ha, hit, Option.map_some, if_pos hruns]

/-- Whatever an actor waits for or signals belongs to an item it executes. -/
theorem step_cases {x : Event Actor} {s : TStep τ} (hs : (P.system eff).step x = some s) :
    (∃ act, P.performed x = some act ∧ s = P.actStep eff x.1 x.2 act) ∨ s = .skip := by
  obtain ⟨a, k⟩ := x
  rw [step_eq (hasActor_of_step hs)] at hs
  obtain ⟨it, hit, hs⟩ := Option.map_eq_some_iff.1 hs
  by_cases hr : a.runs it.who = true
  · exact .inl ⟨it.act, performed_iff.2 ⟨it, hit, hr, rfl⟩, by rw [← hs, if_pos hr]⟩
  · exact .inr (by rw [← hs, if_neg hr])

/-- A team's fork is signalled by its initial thread. -/
theorem signals_fork {y : Event Actor} {r k : Nat} (h : (P.system eff).Signals y (.fork r k)) :
    y = (.thread r 0, k) := by
  obtain ⟨a, j⟩ := y
  obtain ⟨s, hs, ht⟩ := h
  rcases step_cases hs with ⟨act, -, rfl⟩ | rfl
  · cases act with
    | fork =>
      by_cases ha : a = .thread a.rank 0
      · rw [actStep, if_pos ha, List.mem_singleton, Token.fork.injEq] at ht
        rw [ht.1, ht.2, ← ha]
      · rw [actStep, if_neg ha] at ht
        cases ht
    | _ => simp [actStep] at ht
  · cases ht

theorem signals_taskCreated {y : Event Actor} {r j : Nat}
    (h : (P.system eff).Signals y (.taskCreated r j)) :
    y.1.rank = r ∧ P.performed y = some (.taskCreate j) := by
  obtain ⟨a, k⟩ := y
  obtain ⟨s, hs, ht⟩ := h
  rcases step_cases hs with ⟨act, hp, rfl⟩ | rfl
  · cases act with
    | taskCreate i =>
      rw [actStep, List.mem_singleton, Token.taskCreated.injEq] at ht
      exact ⟨ht.1.symm, ht.2 ▸ hp⟩
    | fork =>
      rw [actStep] at ht
      split at ht <;> simp at ht
    | _ => simp [actStep] at ht
  · cases ht

end Program

/-! ## Translating statements -/

def Act.map {σ' : Type} (f : σ → σ') : Act σ → Act σ'
  | .stmt s => .stmt (f s)
  | .fork => .fork
  | .enter => .enter
  | .leave => .leave
  | .orderedBegin loop i => .orderedBegin loop i
  | .orderedEnd loop i => .orderedEnd loop i
  | .taskCreate j => .taskCreate j
  | .taskBegin j => .taskBegin j
  | .taskEnd j => .taskEnd j
  | .taskWait => .taskWait

/-- The same item with another statement. -/
def Item.map {σ' : Type} (f : σ → σ') (it : Item σ) : Item σ' := ⟨it.who, it.act.map f⟩

/-! ## The statements of a text -/

/-- Every statement with the threads that execute it has `p`. -/
def AllStmts (p : Who → σ → Prop) (items : List (Item σ)) : Prop :=
  ∀ it ∈ items, ∀ s, it.act = .stmt s → p it.who s

section
variable {p : Who → σ → Prop} {T : Team} {k n : Nat} {w : Who} {ss : List σ}

theorem allStmts_nil : AllStmts p [] := nofun

@[simp] theorem allStmts_append {as bs : List (Item σ)} :
    AllStmts p (as ++ bs) ↔ AllStmts p as ∧ AllStmts p bs := List.forall_mem_append

/-- An item that is not a statement. -/
theorem allStmts_cons {a : Act σ} {items : List (Item σ)} (ha : ∀ s, a ≠ .stmt s) :
    AllStmts p (⟨w, a⟩ :: items) ↔ AllStmts p items := by
  refine List.forall_mem_cons.trans (and_iff_right ?_)
  exact fun s hs => absurd hs (ha s)

theorem allStmts_flatMap {ι : Type} {is : List ι} {body : ι → List (Item σ)} :
    AllStmts p (is.flatMap body) ↔ ∀ i ∈ is, AllStmts p (body i) := by
  simp only [AllStmts, List.forall_mem_flatMap]

@[simp] theorem allStmts_on : AllStmts p (on w ss) ↔ ∀ s ∈ ss, p w s := by
  simp only [AllStmts, on, List.forall_mem_map, Act.stmt.injEq, forall_eq']

@[simp] theorem allStmts_seq : AllStmts p (seq ss) ↔ ∀ s ∈ ss, p .initial s := allStmts_on

@[simp] theorem allStmts_master : AllStmts p (master ss) ↔ ∀ s ∈ ss, p (.thread 0) s := allStmts_on

@[simp] theorem allStmts_each : AllStmts p (each ss) ↔ ∀ s ∈ ss, p .every s := allStmts_on

@[simp] theorem allStmts_barrier : AllStmts p (barrier : List (Item σ)) :=
  (allStmts_cons (by nofun)).2 ((allStmts_cons (by nofun)).2 allStmts_nil)

@[simp] theorem allStmts_parallel {body : List (Item σ)} :
    AllStmts p (parallel body) ↔ AllStmts p body := by
  rw [parallel, allStmts_cons (by nofun), allStmts_append, and_iff_left allStmts_barrier]

@[simp] theorem allStmts_singleNowait {body : Who → List (Item σ)} :
    AllStmts p (singleNowait T k body) ↔ AllStmts p (body (.thread (T.single k))) := Iff.rfl

@[simp] theorem allStmts_single {body : Who → List (Item σ)} :
    AllStmts p (single T k body) ↔ AllStmts p (body (.thread (T.single k))) := by
  rw [single, allStmts_append, and_iff_left allStmts_barrier, allStmts_singleNowait]

@[simp] theorem allStmts_taskwait : AllStmts p (taskwait w : List (Item σ)) :=
  (allStmts_cons (by nofun)).2 allStmts_nil

@[simp] theorem allStmts_task {j : Nat} :
    AllStmts p (task w j ss) ↔ ∀ s ∈ ss, p (.task j) s := by
  rw [task, allStmts_cons (by nofun), allStmts_cons (by nofun), allStmts_append, allStmts_on,
    and_iff_left ((allStmts_cons (by nofun)).2 allStmts_nil)]

@[simp] theorem allStmts_sections {secs : List (List σ)} : AllStmts p (sections T k secs) ↔
    ∀ q ∈ secs.zipIdx, ∀ s ∈ q.1, p (.thread (T.section_ k q.2)) s := by
  rw [sections, allStmts_append, and_iff_left allStmts_barrier, allStmts_flatMap]
  exact forall₂_congr fun _ _ => allStmts_on

@[simp] theorem allStmts_forLoop {body : Nat → List σ} : AllStmts p (forLoop T k n body) ↔
    ∀ i ∈ List.range n, ∀ s ∈ body i, p (.thread (T.iter k i)) s := by
  rw [forLoop, allStmts_append, and_iff_left allStmts_barrier, allStmts_flatMap]
  exact forall₂_congr fun _ _ => allStmts_on

@[simp] theorem allStmts_forStatic {body : Nat → List σ} : AllStmts p (forStatic T n body) ↔
    ∀ i ∈ List.range n, ∀ s ∈ body i, p (.thread (i % T.size)) s := by
  rw [forStatic, allStmts_append, and_iff_left allStmts_barrier, allStmts_flatMap]
  exact forall₂_congr fun _ _ => allStmts_on

@[simp] theorem allStmts_forOrdered {body : Nat → List σ} : AllStmts p (forOrdered T k n body) ↔
    ∀ i ∈ List.range n, ∀ s ∈ body i, p (.thread (T.iter k i)) s := by
  rw [forOrdered, allStmts_append, and_iff_left allStmts_barrier, allStmts_flatMap]
  refine forall₂_congr fun _ _ => ?_
  rw [allStmts_cons (by nofun), allStmts_append, allStmts_on,
    and_iff_left ((allStmts_cons (by nofun)).2 allStmts_nil)]

end

/-! ## Guarded texts -/

/-- `w` executes nothing before one of the items `before`: a thread is started by a fork, a task by
its first item. -/
def Who.StartedIn (before : List (Item σ)) : Who → Prop
  | .initial => True
  | .thread tid => tid = 0 ∨ ⟨.every, .fork⟩ ∈ before
  | .every => ⟨.every, .fork⟩ ∈ before
  | .task j => ⟨.task j, .taskBegin j⟩ ∈ before

theorem Who.StartedIn.mono {w : Who} {l l' : List (Item σ)} (h : w.StartedIn l) (hl : l ⊆ l') :
    w.StartedIn l' := by
  cases w with
  | initial => exact h
  | thread tid => exact h.imp_right fun hm => hl hm
  | every => exact hl h
  | task j => exact hl h

/-- Every item stands behind what starts its executor, and threads create the tasks. -/
structure Guarded (items : List (Item σ)) : Prop where
  started : ∀ pre it post, items = pre ++ it :: post → it.who.StartedIn (pre ++ [it])
  created : ∀ it ∈ items, ∀ j, it.act = .taskCreate j → ∀ t, it.who ≠ .task t

namespace Guarded

theorem start {items : List (Item σ)} (hg : Guarded items) {k : Nat} {it : Item σ}
    (hk : items[k]? = some it) : it.who.StartedIn (items.take (k + 1)) := by
  obtain ⟨hlt, hit⟩ := List.getElem?_eq_some_iff.1 hk
  have hsplit : items = items.take k ++ it :: items.drop (k + 1) := by
    rw [← hit, List.getElem_cons_drop, List.take_append_drop]
  rw [List.take_succ_eq_append_getElem hlt, hit]
  exact hg.started _ _ _ hsplit

theorem nil : Guarded ([] : List (Item σ)) :=
  ⟨fun pre it post h => by simp at h, fun it h => by cases h⟩

theorem append {as bs : List (Item σ)} (ha : Guarded as) (hb : Guarded bs) : Guarded (as ++ bs) := by
  refine ⟨fun pre it post h => ?_, fun it hit => ?_⟩
  · rcases List.append_eq_append_iff.1 h with ⟨mid, rfl, hbs⟩ | ⟨mid, has, hmid⟩
    · exact (hb.started mid it post hbs).mono (by simp)
    · cases mid with
      | nil =>
        rw [List.append_nil] at has
        subst has
        exact (hb.started [] it post hmid.symm).mono (by simp)
      | cons x mid =>
        obtain ⟨rfl, -⟩ := List.cons.inj hmid
        exact ha.started pre _ mid has
  · rcases List.mem_append.1 hit with hit | hit
    · exact ha.created it hit
    · exact hb.created it hit

theorem on {w : Who} (hw : ∀ l : List (Item σ), w.StartedIn l) (ss : List σ) :
    Guarded (Omp.on w ss) := by
  refine ⟨fun pre it post h => ?_, fun it hit j hj => ?_⟩
  · have hit : it ∈ Omp.on w ss := by rw [h]; simp
    obtain ⟨s, -, rfl⟩ := List.mem_map.1 hit
    exact hw _
  · obtain ⟨s, -, rfl⟩ := List.mem_map.1 hit
    cases hj

theorem seq (ss : List σ) : Guarded (Omp.seq ss) := @on σ .initial (fun _ => trivial) ss

/-- Translating the statements keeps a text guarded. -/
theorem map {σ' : Type} (f : σ → σ') {items : List (Item σ)} (hg : Guarded items) :
    Guarded (items.map (Item.map f)) := by
  have hstart : ∀ {w : Who} {l : List (Item σ)}, w.StartedIn l → w.StartedIn (l.map (Item.map f)) := by
    intro w l h
    cases w with
    | initial => exact h
    | thread t => exact h.imp_right fun hm => List.mem_map.2 ⟨_, hm, rfl⟩
    | every => exact List.mem_map.2 ⟨_, h, rfl⟩
    | task j => exact List.mem_map.2 ⟨_, h, rfl⟩
  refine ⟨fun pre it post h => ?_, fun it hit j hj => ?_⟩
  · obtain ⟨pre', rest, rfl, rfl, hrest⟩ := List.map_eq_append_iff.1 h
    obtain ⟨it', post', rfl, rfl, rfl⟩ := List.map_eq_cons_iff.1 hrest
    have hs := hstart (hg.started pre' it' post' rfl)
    rwa [List.map_append] at hs
  · obtain ⟨it', hit', rfl⟩ := List.mem_map.1 hit
    have hact : it'.act = .taskCreate j := by
      unfold Item.map Act.map at hj
      revert hj
      cases it'.act <;> intro hj <;> cases hj
      rfl
    exact hg.created it' hit' j hact

/-- Behind a fork only the tasks need a start of their own. -/
theorem fork {body : List (Item σ)}
    (hs : ∀ pre it post j, body = pre ++ it :: post → it.who = .task j →
      ⟨.task j, .taskBegin j⟩ ∈ pre ++ [it])
    (hc : ∀ it ∈ body, ∀ j, it.act = .taskCreate j → ∀ t, it.who ≠ .task t) :
    Guarded (⟨.every, .fork⟩ :: body) := by
  refine ⟨fun pre it post h => ?_, fun it hit j hj => ?_⟩
  · cases pre with
    | nil =>
      obtain ⟨rfl, -⟩ := List.cons.inj h
      exact List.mem_singleton.2 rfl
    | cons x pre =>
      obtain ⟨rfl, hb⟩ := List.cons.inj h
      cases hw : it.who with
      | initial => trivial
      | thread tid => exact .inr (List.mem_append_left _ List.mem_cons_self)
      | every => exact List.mem_append_left _ List.mem_cons_self
      | task j => exact List.mem_cons_of_mem _ (hs pre it post j hb hw)
  · rcases List.mem_cons.1 hit with rfl | hit
    · cases hj
    · exact hc it hit j hj

end Guarded

/-- No item belongs to a task. -/
def Threaded (items : List (Item σ)) : Prop := ∀ it ∈ items, ∀ j, it.who ≠ .task j

namespace Threaded

variable {T : Team} {k n : Nat}

theorem append {as bs : List (Item σ)} (ha : Threaded as) (hb : Threaded bs) :
    Threaded (as ++ bs) := fun it hit => (List.mem_append.1 hit).elim (ha it) (hb it)

theorem on {w : Who} (hw : ∀ j, w ≠ .task j) (ss : List σ) : Threaded (Omp.on w ss) := fun it hit => by
  obtain ⟨s, -, rfl⟩ := List.mem_map.1 hit
  exact hw

theorem each (ss : List σ) : Threaded (Omp.each ss) := on (fun _ => Who.noConfusion) ss

theorem thread (t : Nat) (ss : List σ) : Threaded (Omp.on (.thread t) ss) :=
  on (fun _ => Who.noConfusion) ss

theorem master (ss : List σ) : Threaded (Omp.master ss) := thread 0 ss

theorem barrier : Threaded (Omp.barrier : List (Item σ)) := fun it hit j hj => by
  simp only [Omp.barrier, List.mem_cons, List.not_mem_nil, or_false] at hit
  rcases hit with rfl | rfl <;> cases hj

theorem taskwait (t : Nat) : Threaded (Omp.taskwait (.thread t) : List (Item σ)) :=
  fun it hit j hj => by rw [List.mem_singleton.1 hit] at hj; cases hj

theorem single {body : Who → List (Item σ)} (hb : ∀ t, Threaded (body (.thread t))) :
    Threaded (Omp.single T k body) := (hb _).append barrier

theorem sections (secs : List (List σ)) : Threaded (Omp.sections T k secs) := by
  refine append (fun it hit => ?_) barrier
  obtain ⟨p, -, hit⟩ := List.mem_flatMap.1 hit
  exact thread _ p.1 it hit

theorem forLoop (body : Nat → List σ) : Threaded (Omp.forLoop T k n body) := by
  refine append (fun it hit => ?_) barrier
  obtain ⟨i, -, hit⟩ := List.mem_flatMap.1 hit
  exact thread _ (body i) it hit

theorem forStatic (body : Nat → List σ) : Threaded (Omp.forStatic T n body) := by
  refine append (fun it hit => ?_) barrier
  obtain ⟨i, -, hit⟩ := List.mem_flatMap.1 hit
  exact thread _ (body i) it hit

theorem forOrdered (body : Nat → List σ) : Threaded (Omp.forOrdered T k n body) := by
  refine append (fun it hit j hj => ?_) barrier
  obtain ⟨i, -, hit⟩ := List.mem_flatMap.1 hit
  rcases List.mem_cons.1 hit with rfl | hit
  · cases hj
  · rcases List.mem_append.1 hit with hit | hit
    · exact thread _ (body i) it hit j hj
    · rw [List.mem_singleton.1 hit] at hj
      cases hj

end Threaded

namespace Guarded

theorem parallel {body : List (Item σ)} (hb : Threaded body) : Guarded (Omp.parallel body) := by
  have hall := hb.append Threaded.barrier
  refine fork (fun pre it post j h hw => ?_) fun it hit j _ t hw => hall it hit t hw
  exact absurd hw (hall it (by rw [h]; simp) j)

/-- A region in which one thread creates a task. -/
theorem parallel_task {body : List (Item σ)} (hb : Threaded body) (u j : Nat) (ss : List σ) :
    Guarded (Omp.parallel (task (.thread u) j ss ++ body)) := by
  have hall := hb.append Threaded.barrier
  have htask : ∀ it ∈ (Omp.on (.task j) ss ++ [⟨.task j, .taskEnd j⟩] : List (Item σ)), it.who = .task j ∧
      ∀ i, it.act ≠ .taskCreate i := by
    intro it hit
    rcases List.mem_append.1 hit with hit | hit
    · obtain ⟨s, -, rfl⟩ := List.mem_map.1 hit
      exact ⟨rfl, fun _ he => nomatch he⟩
    · rw [List.mem_singleton.1 hit]
      exact ⟨rfl, fun _ he => nomatch he⟩
  have hbody : task (.thread u) j ss ++ body ++ Omp.barrier = ⟨.thread u, .taskCreate j⟩ ::
      ⟨.task j, .taskBegin j⟩ :: ((Omp.on (.task j) ss ++ [⟨.task j, .taskEnd j⟩]) ++
        (body ++ Omp.barrier)) := by
    simp [task]
  rw [Omp.parallel, hbody]
  refine fork (fun pre it post i h hw => ?_) fun it hit i hi t hw => ?_
  · cases pre with
    | nil =>
      obtain ⟨rfl, -⟩ := List.cons.inj h
      cases hw
    | cons x pre =>
      have h₁ := (List.cons.inj h).2
      cases pre with
      | nil =>
        obtain ⟨rfl, -⟩ := List.cons.inj h₁
        cases hw
        simp
      | cons y pre =>
        obtain ⟨rfl, h₂⟩ := List.cons.inj h₁
        have hit : it ∈ (Omp.on (.task j) ss ++ [⟨.task j, .taskEnd j⟩]) ++ (body ++ Omp.barrier) := by
          rw [h₂]; simp
        rcases List.mem_append.1 hit with hit | hit
        · cases (htask it hit).1.symm.trans hw
          simp
        · exact absurd hw (hall it hit i)
  · simp only [List.mem_cons] at hit
    rcases hit with rfl | rfl | hit
    · cases hw
    · cases hi
    · rcases List.mem_append.1 hit with hit | hit
      · exact (htask it hit).2 i hi
      · exact hall it hit t hw

/-- A `single` block that creates a task, executes `ss'` and goes on with `rest`. -/
theorem parallel_single_task {T : Team} {k : Nat} {rest : Who → List (Item σ)}
    (hr : ∀ t, Threaded (rest (.thread t))) (j : Nat) (ss ss' : List σ) :
    Guarded (Omp.parallel (single T k fun w => task w j ss ++ Omp.on w ss' ++ rest w)) := by
  have hbody := ((Threaded.thread (T.single k) ss').append (hr (T.single k))).append .barrier
  have htask := parallel_task hbody (T.single k) j ss
  simpa only [single, singleNowait, List.append_assoc] using htask

end Guarded

namespace Program

variable {P : Program σ} {eff : Nat → Nat → σ → Effect τ} {h : List (Event Actor)}

/-- What an event waits for has been signalled before. -/
theorem hb_of_performed (hr : (P.system eff).Run h) {x : Event Actor} (hx : x ∈ h)
    {act : Act σ} (hp : P.performed x = some act) {t : Token τ}
    (ht : t ∈ (P.actStep eff x.1 x.2 act).waits) :
    ∃ y, (P.system eff).Signals y t ∧ (P.system eff).HB h y x := by
  obtain ⟨s, hs⟩ := hr.step_of_mem hx
  exact hr.hb_wait hx ⟨_, step_of_performed (hasActor_of_step hs) hp, ht⟩

section
variable {r : Nat} {pre : List σ} {rest : List (Item σ)}

/-- An actor that performs something else than the initial thread's sequential text does so behind
it. -/
theorem le_of_performed (hi : P.items r = seq pre ++ rest) {x : Event Actor} (hxr : x.1.rank = r)
    {act : Act σ} (hp : P.performed x = some act) (hx : x.1 ≠ .thread r 0 ∨ ∀ s, act ≠ .stmt s) :
    pre.length ≤ x.2 ∧ ∃ it, rest[x.2 - pre.length]? = some it ∧ x.1.runs it.who = true ∧
      it.act = act := by
  obtain ⟨it, hit, hruns, hact⟩ := performed_iff.1 hp
  rw [hxr, hi] at hit
  by_cases hlt : x.2 < pre.length
  · rw [getElem?_seq_left hlt] at hit
    obtain ⟨s, -, rfl⟩ := Option.map_eq_some_iff.1 hit
    rcases hx with hx | hx
    · obtain ⟨a, k⟩ := x
      cases a with
      | thread q tid =>
        have htid : tid = 0 := beq_iff_eq.1 hruns
        exact absurd (by rw [htid, ← hxr]; rfl) hx
      | task q j => cases hruns
    · exact absurd hact.symm (hx s)
  · rw [getElem?_seq_right (by omega)] at hit
    exact ⟨by omega, it, hit, hruns, hact⟩

/-- An item of the text behind the sequential one that stands at or before `x` and that the actor of
`x` executes has been performed before. -/
theorem performed_of_mem_take (hi : P.items r = seq pre ++ rest) (hr : (P.system eff).Run h)
    {x : Event Actor} (hx : x ∈ h) (hxr : x.1.rank = r) (hle : pre.length ≤ x.2) {it : Item σ}
    (hit : it ∈ rest.take (x.2 - pre.length + 1)) (hruns : x.1.runs it.who = true) :
    ∃ k, pre.length ≤ k ∧ k ≤ x.2 ∧ (x.1, k) ∈ h ∧ P.performed (x.1, k) = some it.act := by
  obtain ⟨a, n⟩ := x
  obtain ⟨j, hj⟩ := List.mem_iff_getElem?.1 hit
  obtain ⟨hjlt, hj⟩ : j < n - pre.length + 1 ∧ rest[j]? = some it := by
    rw [List.getElem?_take] at hj
    exact Option.ite_none_right_eq_some.1 hj
  have hmem := (Run.mem_iff hr a n).1 hx
  change pre.length ≤ n at hle
  refine ⟨pre.length + j, by omega, by omega, (Run.mem_iff hr a _).2 (by omega),
    performed_iff.2 ⟨it, ?_, hruns, rfl⟩⟩
  rw [show (a, pre.length + j).1.rank = r from hxr, hi, getElem?_seq_right (by omega),
    Nat.add_sub_cancel_left, hj]

/-- What happens before a step of an actor happens before its later steps. -/
theorem hb_later (hr : (P.system eff).Run h) {y : Event Actor} {a : Actor} {j k : Nat}
    (hb : (P.system eff).HB h y (a, j)) (hk : (a, k) ∈ h) (hjk : j ≤ k) :
    (P.system eff).HB h y (a, k) := by
  rcases Nat.eq_or_lt_of_le hjk with rfl | hlt
  · exact hb
  · exact hb.trans hr (hr.hb_order hk hlt)

/-- The sequential text happens before what the other threads perform. -/
theorem sequential_first_thread (hi : P.items r = seq pre ++ rest) (hg : Guarded rest)
    (hr : (P.system eff).Run h) {t k : Nat} (hx : (.thread r t, k) ∈ h) {act : Act σ}
    (hp : P.performed (.thread r t, k) = some act) (ht : t ≠ 0) {i : Nat} (hlt : i < pre.length) :
    (P.system eff).HB h (.thread r 0, i) (.thread r t, k) := by
  have hne : Actor.thread r t ≠ .thread r 0 := fun he => ht (Actor.thread.inj he).2
  obtain ⟨hle, it, hit, hruns, -⟩ := le_of_performed hi (x := (.thread r t, k)) rfl hp (.inl hne)
  have hfork : ⟨.every, .fork⟩ ∈ rest.take (k - pre.length + 1) := by
    have hstart := hg.start hit
    change it.who.runs t = true at hruns
    cases hw : it.who with
    | initial => rw [hw] at hruns; exact absurd (beq_iff_eq.1 hruns) ht
    | thread u =>
      rw [hw] at hstart hruns
      exact hstart.resolve_left fun hu => ht ((beq_iff_eq.1 hruns).trans hu)
    | every => rw [hw] at hstart; exact hstart
    | task j => rw [hw] at hruns; cases hruns
  obtain ⟨j, hj, hjk, hmem, hperf⟩ := performed_of_mem_take hi hr hx rfl hle hfork rfl
  have hwaits : .fork r j ∈ (P.actStep eff (.thread r t) j .fork).waits := by
    rw [actStep, if_neg (show Actor.thread r t ≠ .thread (Actor.thread r t).rank 0 from hne)]
    exact List.mem_singleton.2 rfl
  obtain ⟨y, hsig, hb⟩ := hb_of_performed hr hmem hperf hwaits
  rw [signals_fork hsig] at hb
  exact hb_later hr ((hr.hb_order hb.mem.1 (by omega)).trans hr hb) hx hjk

/-- **The sequential text comes first**: in every run all of the sequential text in front of a
guarded text happens before everything that another actor than the initial thread performs. -/
theorem sequential_first (hi : P.items r = seq pre ++ rest) (hg : Guarded rest)
    (hr : (P.system eff).Run h) {x : Event Actor} (hx : x ∈ h) (hxr : x.1.rank = r) {act : Act σ}
    (hp : P.performed x = some act) (hne : x.1 ≠ .thread r 0) {i : Nat} (hlt : i < pre.length) :
    (P.system eff).HB h (.thread r 0, i) x := by
  obtain ⟨a, k⟩ := x
  cases a with
  | thread q t =>
    obtain rfl : q = r := hxr
    exact sequential_first_thread hi hg hr hx hp (fun ht => hne (by rw [ht])) hlt
  | task q t =>
    obtain rfl : q = r := hxr
    obtain ⟨hle, it, hit, hruns, -⟩ := le_of_performed hi (x := (.task q t, k)) rfl hp (.inl hne)
    have hbegin : ⟨.task t, .taskBegin t⟩ ∈ rest.take (k - pre.length + 1) := by
      have hstart := hg.start hit
      rw [beq_iff_eq.1 (show (it.who == .task t) = true from hruns)] at hstart
      exact hstart
    obtain ⟨j, hj, hjk, hmem, hperf⟩ := performed_of_mem_take hi hr hx rfl hle hbegin
      (show (Who.task t == .task t) = true from beq_iff_eq.2 rfl)
    obtain ⟨y, hsig, hb⟩ := hb_of_performed hr hmem hperf (t := .taskCreated q t)
      (List.mem_singleton.2 rfl)
    refine hb_later hr ?_ hx hjk
    -- the creator is a thread that stands behind the sequential text
    obtain ⟨hyr, hyp⟩ := signals_taskCreated hsig
    obtain ⟨hyle, it', hit', hruns', hact'⟩ := le_of_performed hi hyr hyp
      (.inr fun s hs => by cases hs)
    obtain ⟨b, n⟩ := y
    cases b with
    | thread q' u =>
      obtain rfl : q' = q := hyr
      by_cases hu : u = 0
      · subst hu
        exact (hr.hb_order hb.mem.1 (Nat.lt_of_lt_of_le hlt hyle)).trans hr hb
      · exact (sequential_first_thread hi hg hr hb.mem.1 hyp hu hlt).trans hr hb
    | task q' u =>
      have hw := beq_iff_eq.1 (show (it'.who == .task u) = true from hruns')
      exact absurd hw (hg.created it' (List.mem_of_getElem? hit') t hact' u)

end

end Program

end Omp
