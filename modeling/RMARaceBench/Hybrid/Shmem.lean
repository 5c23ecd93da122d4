import RMARaceBench.Hybrid.Support

/-!
# `templates/SHMEM/hybrid`

The hybrid cases as programs of calls (`Hybrid/Support.lean`). In the `local` templates PE 0 gets into
its `localbuf` from a parallel region that also reads it; in the `remote` templates PE 0 puts into
`remote` of PE 1, whose parallel region meets it and reads; in the `lock` templates the region of PE 0
puts and meets PE 1.
-/

set_option autoImplicit false

namespace Hybrid.Shmem

open Omp

inductive Routine
  | nPes | myPe | getNbi | putNbi | intPut | atomicSet | quiet | fence | syncAll | barrierAll | waitUntil
  | finalize
  deriving DecidableEq, Repr

abbrev Text := List (Item (Stmt Routine))

/-! ## `shmem-boilerplate.c.j2` -/

/-- `shmem_init()`, whatever `threaded` is. -/
def shmemInit (_threaded : Bool) : Stmt Routine := .init .single

/-- The start of `main`: the variables, the initialization and the check of the number of PEs. -/
def prologue (threaded : Bool) : List (Stmt Routine) :=
  [.plain, .plain, shmemInit threaded, .call .nPes, .call .myPe, .plain]

/-- The end of `main`. -/
def epilogue : List (Stmt Routine) := collective .barrierAll ++ [.plain, .call .finalize]

/-! ## Common text -/

def printf : List (Stmt Routine) := [.plain]

/-- `shmem_get_nbi` and `shmem_quiet`. -/
def get : List (Stmt Routine) := [.call .getNbi, .call .quiet]

/-- `shmem_put_nbi` and `shmem_quiet`. -/
def put : List (Stmt Routine) := [.call .putNbi, .call .quiet]

def syncAll : List (Stmt Routine) := collective .syncAll

/-- `if (my_pe == q) { .. }` -/
def ifPe (pe q : Nat) (ss : Text) : Text := if pe = q then ss else []

/-- PE 0 executes `region`, then both PEs meet. -/
def localFrame (region : Text) (pe : Nat) : Text :=
  ifPe pe 0 (region ++ seq syncAll) ++ ifPe pe 1 (seq (syncAll ++ printf))

/-- PE 0 puts and meets PE 1, which executes `region`. -/
def remoteFrame (region : Text) (pe : Nat) : Text :=
  ifPe pe 0 (seq (put ++ syncAll)) ++ ifPe pe 1 region

/-- `my_wait(&flag, 1)`. -/
def myWait (rounds : Nat) : List (Stmt Routine) := List.replicate (rounds + 1) .plain

/-- The `single` block of the task templates: the task (`my_signal` and `body`), `my_wait` and what
follows. -/
def taskRegion (T : Team) (rounds : Nat) (body : List (Stmt Routine)) (rest : Who → Text) : Text :=
  seq [.plain] ++ parallel (single T 0 fun w =>
    task w 0 (.plain :: body) ++ on w (myWait rounds) ++ rest w)

/-! ## The cases -/

inductive Case
  | forLocalYes | forOrderedLocalNo | masterLocalNo | masterLocalYes | singleLocalNo | singleLocalYes
  | sectionLocalNo | sectionLocalYes | taskLocalNo | taskLocalYes
  | forOrderedRemoteNo | forRemoteYes | masterRemoteNo | masterRemoteYes | singleRemoteNo
  | singleRemoteYes | sectionRemoteNo | sectionRemoteYes | taskRemoteNo | taskRemoteYes
  | lockSectionBarrierOriginRemoteYes | lockSectionBarrierOriginSignalRemoteYes
  deriving DecidableEq, Repr

namespace Case

/-- The block `main` of the case. -/
def main (T : Team) (rounds : Nat → Nat) (pe : Nat) : Case → Text
  | forLocalYes => localFrame (parallel (forStatic T 2 fun i => if i = 0 then get else printf)) pe
  | forOrderedLocalNo =>
    localFrame (parallel (forOrdered T 0 2 fun i => if i = 0 then get else printf)) pe
  | masterLocalNo => localFrame (parallel (master get ++ barrier ++ each printf)) pe
  | masterLocalYes => localFrame (parallel (master get ++ each printf)) pe
  | singleLocalNo =>
    localFrame (parallel (single T 0 (fun w => on w get) ++ barrier ++ each printf)) pe
  | singleLocalYes => localFrame (parallel (singleNowait T 0 (fun w => on w get) ++ each printf)) pe
  | sectionLocalNo => localFrame (parallel (sections T 0 [get] ++ sections T 1 [printf])) pe
  | sectionLocalYes => localFrame (parallel (sections T 0 [get, printf])) pe
  | taskLocalNo =>
    localFrame (taskRegion T (rounds pe) get fun w => taskwait w ++ on w printf) pe
  | taskLocalYes => localFrame (taskRegion T (rounds pe) get fun w => on w printf) pe
  | forOrderedRemoteNo =>
    remoteFrame (parallel (forOrdered T 0 2 fun i => if i = 0 then syncAll else printf)) pe
  | forRemoteYes => remoteFrame (parallel (forStatic T 2 fun i => if i = 0 then syncAll else printf)) pe
  | masterRemoteNo => remoteFrame (parallel (master syncAll ++ barrier ++ each printf)) pe
  | masterRemoteYes => remoteFrame (parallel (master syncAll ++ each printf)) pe
  | singleRemoteNo =>
    remoteFrame (parallel (single T 0 (fun w => on w syncAll) ++ barrier ++ each printf)) pe
  | singleRemoteYes =>
    remoteFrame (parallel (singleNowait T 0 (fun w => on w syncAll) ++ each printf)) pe
  | sectionRemoteNo => remoteFrame (parallel (sections T 0 [syncAll] ++ sections T 1 [printf])) pe
  | sectionRemoteYes => remoteFrame (parallel (sections T 0 [syncAll, printf])) pe
  | taskRemoteNo =>
    remoteFrame (taskRegion T (rounds pe) syncAll fun w => taskwait w ++ on w printf) pe
  | taskRemoteYes => remoteFrame (taskRegion T (rounds pe) syncAll fun w => on w printf) pe
  | lockSectionBarrierOriginRemoteYes =>
    seq (collective .barrierAll) ++
    ifPe pe 0 (parallel (sections T 0 [[.plain, .call .intPut, .call .quiet], .plain :: syncAll])) ++
    ifPe pe 1 (seq (syncAll ++ printf))
  | lockSectionBarrierOriginSignalRemoteYes =>
    seq (collective .barrierAll) ++
    ifPe pe 0 (parallel (sections T 0
      [[.plain, .call .intPut, .call .fence], [.plain, .call .atomicSet]])) ++
    ifPe pe 1 (seq ([.call .waitUntil] ++ printf))

/-- The text of a PE. -/
def items (c : Case) (threaded : Bool) (T : Team) (rounds : Nat → Nat) (pe : Nat) : Text :=
  seq (prologue threaded) ++ (c.main T rounds pe ++ seq epilogue)

/-- The generated case, for `PROC_NUM` PEs. -/
def program (c : Case) (threaded : Bool) (T : Team) (rounds : Nat → Nat) : Program (Stmt Routine) where
  procs := 2
  team := T
  items := c.items threaded T rounds

/-- The threads that the assignment `T` gives the constructs that call SHMEM. The constructs of the
other cases (`master` and the iteration 0 of a static loop) always run on the initial thread. -/
def callers (T : Team) : Case → List Nat
  | forOrderedLocalNo | forOrderedRemoteNo => [T.iter 0 0]
  | singleLocalNo | singleLocalYes | singleRemoteNo | singleRemoteYes => [T.single 0]
  | sectionLocalNo | sectionLocalYes | sectionRemoteNo | sectionRemoteYes => [T.section_ 0 0]
  | taskLocalNo | taskLocalYes | taskRemoteNo | taskRemoteYes => [T.task 0]
  | lockSectionBarrierOriginRemoteYes | lockSectionBarrierOriginSignalRemoteYes =>
    [T.section_ 0 0, T.section_ 0 1]
  | forLocalYes | forRemoteYes | masterLocalNo | masterLocalYes | masterRemoteNo | masterRemoteYes => []

end Case

/-! ## Who calls -/

variable {T : Team} {rounds : Nat → Nat}

@[simp] theorem allStmts_ifPe {p : Who → Stmt Routine → Prop} {pe q : Nat} {ss : Text} :
    AllStmts p (ifPe pe q ss) ↔ (pe = q → AllStmts p ss) := by
  unfold ifPe
  split
  · rename_i h
    exact ⟨fun hs _ => hs, fun hs => hs h⟩
  · rename_i h
    exact ⟨fun _ hq => absurd hq h, fun _ => allStmts_nil⟩

/-- When the constructs that call SHMEM run on the initial thread, every call does. -/
theorem confined_of_callers {c : Case} (hc : ∀ t ∈ c.callers T, t = 0) (threaded : Bool)
    (pe : Nat) : Confined T (c.items threaded T rounds pe) := by
  have hmain : Confined T (c.main T rounds pe) := by
    cases c <;>
      simp_all [Case.callers, Case.main, localFrame, remoteFrame, taskRegion, List.zipIdx,
        List.range_succ, Stmt.isCall, get, syncAll, printf, collective, myWait]
  simp [Case.items, hmain]

theorem unsupporting (c : Case) (threaded : Bool) (pe : Nat) :
    Unsupporting (c.items threaded T rounds pe) := by
  have hmain : Unsupporting (c.main T rounds pe) := by
    cases c <;>
      simp [Case.main, localFrame, remoteFrame, taskRegion, List.zipIdx, List.range_succ, get, put,
        syncAll, printf, collective, myWait]
  simp [Case.items, hmain, prologue, shmemInit, epilogue, collective]

/-! ## Runs that get to a call -/

section
variable {c : Case} {threaded : Bool}

theorem prologue_waits (P : Program (Stmt Routine)) (q k : Nat) {s : Stmt Routine}
    (hs : s ∈ prologue threaded) : (effect P q k s).waits = [] := by
  simp only [prologue, shmemInit, List.mem_cons, List.not_mem_nil, or_false] at hs
  rcases hs with rfl | rfl | rfl | rfl | rfl | rfl <;> rfl

/-- The text in front of a region: the prologue and, in the `lock` cases, a barrier. -/
structure Front (c : Case) (T : Team) (rounds : Nat → Nat) (start : List (Stmt Routine)) : Prop where
  main : ∀ pe, ∃ rest, c.main T rounds pe = seq start ++ rest
  start : start = [] ∨ start = collective .barrierAll

theorem Front.waits {start : List (Stmt Routine)} (hf : Front c T rounds start) {q k : Nat}
    {s : Stmt Routine} (hk : (prologue threaded ++ start)[k]? = some s) {t : Nat × Routine × Nat}
    (ht : t ∈ (effect (c.program threaded T rounds) q k s).waits) :
    ∃ q' k' s', q' < 2 ∧ k' < k ∧ (prologue threaded ++ start)[k']? = some s' ∧
      t ∈ (effect (c.program threaded T rounds) q' k' s').signals := by
  by_cases hlt : k < 6
  · rw [List.getElem?_append_left (show k < (prologue threaded).length from hlt)] at hk
    rw [prologue_waits _ _ _ (List.mem_of_getElem? hk)] at ht
    cases ht
  · have hle : (prologue threaded).length ≤ k := Nat.le_of_not_lt hlt
    rw [List.getElem?_append_right hle] at hk
    rcases hf.start with rfl | rfl
    · cases hk
    · -- the barrier's exit waits for the entry of every PE, which stands at position 6
      have henter : ∀ p, countBefore (c.program threaded T rounds) p 6 (.enter .barrierAll) = 0 :=
        fun _ => rfl
      have hleave : countBefore (c.program threaded T rounds) q 7 (.leave .barrierAll) = 0 := by
        obtain ⟨rest, hrest⟩ := hf.main q
        have hitems : (c.program threaded T rounds).items q = seq (prologue threaded) ++
            (seq (collective .barrierAll) ++ rest ++ seq epilogue) := by
          rw [← hrest]
          rfl
        rw [countBefore, hitems]
        rfl
      obtain ⟨j, rfl⟩ : ∃ j, k = 6 + j := ⟨k - 6, by omega⟩
      rw [show 6 + j - (prologue threaded).length = j from Nat.add_sub_cancel_left 6 j] at hk
      rcases j with _ | _ | j
      · cases hk
        cases ht
      · cases hk
        obtain ⟨p, hp, rfl⟩ := List.mem_map.1 ht
        refine ⟨p, 6, .enter .barrierAll, List.mem_range.1 hp, by omega, rfl, ?_⟩
        rw [hleave]
        exact List.mem_singleton.2 (by rw [henter])
      · cases hk

/-- A case whose text gets to a call of another thread. -/
theorem not_supported {start : List (Stmt Routine)} (hf : Front c T rounds start) {r : Nat}
    (hr : r < 2) {f : Routine} {s : Stmt Routine} (hs : s = .call f ∨ s = .enter f) (items : Text)
    {post : Text} {w : Who} {a : Actor}
    (htext : c.main T rounds r = seq start ++ (items ++ ([⟨w, .stmt s⟩] ++ post)))
    (hfree : FreeText T.size (effect (c.program threaded T rounds) r) [] items)
    (ha : (c.program threaded T rounds).hasActor a = true) (har : a.rank = r) (hw : a.runs w = true)
    (hne : a.tid T ≠ 0) : ¬ Supported (c.program threaded T rounds) := by
  have hcall : s.isCall = true := by rcases hs with rfl | rfl <;> rfl
  have hwaits : ∀ k, (effect (c.program threaded T rounds) r k s).waits = [] := by
    rcases hs with rfl | rfl <;> exact fun _ => rfl
  have happ : (c.program threaded T rounds).Approach (effect (c.program threaded T rounds)) r
      (prologue threaded ++ start) (items ++ [⟨w, .stmt s⟩]) := by
    refine ⟨hr, fun q _ => ?_, ⟨post ++ seq epilogue, ?_⟩, fun q _ k s hk t ht => hf.waits hk ht,
      hfree.append hwaits⟩
    · obtain ⟨rest, hrest⟩ := hf.main q
      refine ⟨rest ++ seq epilogue, ?_⟩
      change c.items threaded T rounds q = _
      rw [Case.items, hrest, seq_append]
      simp only [List.append_assoc]
    · change c.items threaded T rounds r = _
      rw [Case.items, htext, seq_append]
      simp only [List.append_assoc]
  exact not_supported_of_approach happ ha har hw hcall hne fun q => unsupporting c threaded q

/-- The cases without a barrier in front of the region. -/
theorem Front.none (c : Case) : Front c T rounds [] :=
  ⟨fun pe => ⟨c.main T rounds pe, rfl⟩, .inl rfl⟩

theorem hasActor_thread {r : Nat} (hr : r < 2) (t : Fin T.size) :
    (c.program threaded T rounds).hasActor (.thread r t) = true := decide_eq_true ⟨hr, t.isLt⟩

/-- The first statement of the region is the call of another thread. -/
theorem not_supported_fork {r : Nat} (hr : r < 2) (t : Fin T.size) {f : Routine} {s : Stmt Routine}
    {post : Text} (hs : s = .call f ∨ s = .enter f)
    (htext : c.main T rounds r = ⟨.every, .fork⟩ :: ⟨.thread t, .stmt s⟩ :: post) (ht : (t : Nat) ≠ 0) :
    ¬ Supported (c.program threaded T rounds) :=
  not_supported (Front.none _) hr hs [⟨.every, .fork⟩] htext ⟨rfl, trivial⟩ (hasActor_thread hr t) rfl
    (beq_iff_eq.2 rfl) ht

/-- The first iteration of an ordered loop starts with the call of another thread. -/
theorem not_supported_ordered {r : Nat} (hr : r < 2) (t : Fin T.size) {f : Routine} {s : Stmt Routine}
    {post : Text} (hs : s = .call f ∨ s = .enter f)
    (htext : c.main T rounds r =
      ⟨.every, .fork⟩ :: ⟨.thread t, .orderedBegin 0 0⟩ :: ⟨.thread t, .stmt s⟩ :: post)
    (ht : (t : Nat) ≠ 0) : ¬ Supported (c.program threaded T rounds) :=
  not_supported (Front.none _) hr hs [⟨.every, .fork⟩, ⟨.thread t, .orderedBegin 0 0⟩] htext
    ⟨rfl, rfl, trivial⟩ (hasActor_thread hr t) rfl (beq_iff_eq.2 rfl) ht

/-- The task calls, and another thread executes it. -/
theorem not_supported_task {r : Nat} (hr : r < 2) {f : Routine} {s : Stmt Routine} {post : Text}
    (hs : s = .call f ∨ s = .enter f)
    (htext : c.main T rounds r = [⟨.initial, .stmt .plain⟩, ⟨.every, .fork⟩,
      ⟨.thread (T.single 0), .taskCreate 0⟩, ⟨.task 0, .taskBegin 0⟩, ⟨.task 0, .stmt .plain⟩] ++
      ([⟨.task 0, .stmt s⟩] ++ post))
    (ht : (T.task 0 : Nat) ≠ 0) : ¬ Supported (c.program threaded T rounds) := by
  have hcreate : ⟨.thread (T.single 0), .taskCreate 0⟩ ∈
      ([⟨.initial, .stmt .plain⟩, ⟨.every, .fork⟩, ⟨.thread (T.single 0), .taskCreate 0⟩] : Text) := by
    simp
  exact not_supported (Front.none _) hr hs [⟨.initial, .stmt .plain⟩, ⟨.every, .fork⟩,
    ⟨.thread (T.single 0), .taskCreate 0⟩, ⟨.task 0, .taskBegin 0⟩, ⟨.task 0, .stmt .plain⟩]
    (a := .task r 0) htext
    ⟨fun _ => rfl, rfl, trivial, ⟨_, (T.single 0).isLt, hcreate⟩, fun _ => rfl, trivial⟩
    (decide_eq_true hr) rfl (beq_iff_eq.2 rfl) ht

/-- PE 0 of the `lock` cases: the section that puts and the one that meets PE 1. -/
theorem not_supported_lock {f g m : Routine} {s : Stmt Routine} {post : Text}
    (hf : Front c T rounds (collective .barrierAll)) (hs : s = .call m ∨ s = .enter m)
    (htext : c.main T rounds 0 = seq (collective .barrierAll) ++ ([⟨.every, .fork⟩,
      ⟨.thread (T.section_ 0 0), .stmt .plain⟩, ⟨.thread (T.section_ 0 0), .stmt (.call f)⟩,
      ⟨.thread (T.section_ 0 0), .stmt (.call g)⟩, ⟨.thread (T.section_ 0 1), .stmt .plain⟩,
      ⟨.thread (T.section_ 0 1), .stmt s⟩] ++ post))
    (ht : ∃ t ∈ [(T.section_ 0 0 : Nat), (T.section_ 0 1 : Nat)], t ≠ 0) :
    ¬ Supported (c.program threaded T rounds) := by
  obtain ⟨t, ht, hne⟩ := ht
  simp only [List.mem_cons, List.not_mem_nil, or_false] at ht
  rcases ht with rfl | rfl
  · exact not_supported hf (r := 0) (s := .call f) (by decide) (.inl rfl) [⟨.every, .fork⟩,
      ⟨.thread (T.section_ 0 0), .stmt .plain⟩] htext ⟨rfl, fun _ => rfl, trivial⟩
      (hasActor_thread (by decide) _) rfl (beq_iff_eq.2 rfl) hne
  · exact not_supported hf (r := 0) (by decide) hs [⟨.every, .fork⟩,
      ⟨.thread (T.section_ 0 0), .stmt .plain⟩, ⟨.thread (T.section_ 0 0), .stmt (.call f)⟩,
      ⟨.thread (T.section_ 0 0), .stmt (.call g)⟩, ⟨.thread (T.section_ 0 1), .stmt .plain⟩] htext
      ⟨rfl, fun _ => rfl, fun _ => rfl, fun _ => rfl, fun _ => rfl, trivial⟩
      (hasActor_thread (by decide) _) rfl (beq_iff_eq.2 rfl) hne

/-- A case in which a construct that calls SHMEM runs on another thread is not supported. -/
theorem not_supported_of_callers (c : Case) (hc : ∃ t ∈ c.callers T, t ≠ 0) :
    ¬ Supported (c.program threaded T rounds) := by
  have hget : (.call .getNbi : Stmt Routine) = .call .getNbi ∨
      (.call .getNbi : Stmt Routine) = .enter .getNbi := .inl rfl
  have hsync : (.enter .syncAll : Stmt Routine) = .call .syncAll ∨
      (.enter .syncAll : Stmt Routine) = .enter .syncAll := .inr rfl
  cases c with
  | lockSectionBarrierOriginRemoteYes =>
    exact not_supported_lock ⟨fun _ => ⟨_, List.append_assoc _ _ _⟩, .inr rfl⟩ hsync rfl hc
  | lockSectionBarrierOriginSignalRemoteYes =>
    exact not_supported_lock ⟨fun _ => ⟨_, List.append_assoc _ _ _⟩, .inr rfl⟩
      (m := .atomicSet) (.inl rfl) rfl hc
  | forLocalYes | forRemoteYes | masterLocalNo | masterLocalYes | masterRemoteNo | masterRemoteYes =>
    obtain ⟨t, ht, -⟩ := hc
    cases ht
  | _ =>
    obtain ⟨t, ht, hne⟩ := hc
    obtain rfl := List.mem_singleton.1 ht
    first
      | exact not_supported_fork (r := 0) (by decide) _ hget rfl hne
      | exact not_supported_fork (r := 1) (by decide) _ hsync rfl hne
      | exact not_supported_ordered (r := 0) (by decide) _ hget rfl hne
      | exact not_supported_ordered (r := 1) (by decide) _ hsync rfl hne
      | exact not_supported_task (r := 0) (by decide) hget rfl hne
      | exact not_supported_task (r := 1) (by decide) hsync rfl hne

end

/-- **When a SHMEM case is supported**: exactly when the constructs that call SHMEM run on the initial
thread. -/
theorem supported_iff (c : Case) (threaded : Bool) (T : Team) (rounds : Nat → Nat) :
    Supported (c.program threaded T rounds) ↔ ∀ t ∈ c.callers T, t = 0 := by
  refine ⟨fun hS t ht => ?_, fun hc => ?_⟩
  · by_contra hne
    exact not_supported_of_callers c ⟨t, ht, hne⟩ hS
  · exact supported_of_confined fun r => confined_of_callers hc threaded r

end Hybrid.Shmem
