import RMARaceBench.Causal.Progress
import RMARaceBench.Mpi.Boilerplate
import RMARaceBench.Mpi.Statements

/-!
# Runs behind the first fence

Programs whose texts start with the variables, the window, a barrier and a fence (`Fenced`). For every
number of processes some run gets past the fence and through the statements behind it that wait for
nothing (`Fenced.run`): all ranks can perform what stands before them, whatever else they wait for
later.
-/

set_option autoImplicit false

namespace Mpi

open Causal Causal.System Omp

/-- What every rank does up to the end of the first fence. -/
def fenceFront : List Stmt := prologue ++ winAllocate ++ (mpiBarrier ++ winFence .win)

/-- The texts of `P` start with `fenceFront` and go on with `rest`. -/
structure Fenced (P : Program) (rest : Nat → List Stmt) : Prop where
  team : 0 < P.team
  items : ∀ r, P.items r = seq (fenceFront ++ rest r)

/-- A statement that waits for nothing. -/
def Stmt.free : Stmt → Bool
  | .decl _ | .leaveBlock _ | .store _ | .winAllocate _ | .conflict _ | .barrierEnter | .rma _ => true
  | _ => false

theorem waits_of_free {P : Program} {r k : Nat} {s : Stmt} (hs : s.free = true) :
    (P.stmtStep r k s).waits = [] := by
  cases s <;> first | rfl | cases hs

namespace Fenced

variable {P : Program} {rest : Nat → List Stmt} {r k q m : Nat} {s : Stmt}

theorem items_getElem? (hP : Fenced P rest) (r k : Nat) :
    (P.items r)[k]? = (fenceFront ++ rest r)[k]?.map fun s => ⟨.initial, .stmt s⟩ := by
  rw [hP.items, getElem?_seq]

theorem front (hP : Fenced P rest) (hk : k < fenceFront.length) :
    (P.items r)[k]? = fenceFront[k]?.map fun s => ⟨.initial, .stmt s⟩ := by
  rw [hP.items_getElem?, List.getElem?_append_left hk]

theorem countBefore (hP : Fenced P rest) (hk : k ≤ fenceFront.length) (p : Stmt → Bool) :
    P.countBefore r k p = (fenceFront.take k).countP p := by
  rw [Program.countBefore, hP.items, seq, on, ← List.map_take, List.take_append_of_le_length hk,
    List.countP_map]
  rfl

/-- No call stands before the end of the first fence. -/
theorem opsBefore (hP : Fenced P rest) (hk : k ≤ fenceFront.length) (p : Rma → Bool) :
    P.opsBefore r k p = [] := by
  refine List.filter_eq_nil_iff.2 fun j hj => ?_
  have hlt : j < fenceFront.length := by
    have := List.mem_range.1 hj
    omega
  have hno : fenceFront.any Stmt.isRma = false := by decide
  rw [Program.stmtAt, hP.front hlt]
  cases hs : fenceFront[j]? with
  | none => simp
  | some s =>
    have := List.any_eq_false.1 hno s (List.mem_of_getElem? hs)
    cases s <;> simp_all [Item.stmt?, Stmt.isRma]

/-- The statements that wait, and their positions. -/
theorem waiting (hs : fenceFront[k]? = some s) : s.free = true ∨ s = .fenceEnter .win ∨
    (k = 19 ∧ s = .barrierLeave) ∨ (k = 21 ∧ s = .fenceLeave .win) := by
  have hall : fenceFront.zipIdx.all (fun p => p.1.free || decide (p.1 = .fenceEnter .win) ||
      decide (p.2 = 19 ∧ p.1 = .barrierLeave) || decide (p.2 = 21 ∧ p.1 = .fenceLeave .win)) = true := by
    decide
  have := List.all_eq_true.1 hall (s, k) (List.mem_zipIdx_iff_getElem?.2 hs)
  simpa only [Bool.or_eq_true, decide_eq_true_eq, or_assoc] using this

/-- Every rank performs its text. -/
theorem performs (hP : Fenced P rest) (hr : r < P.procs) (hs : (fenceFront ++ rest r)[k]? = some s) :
    P.Performs (.thread r 0, k) r ⟨.initial, .stmt s⟩ := by
  refine .thread hr hP.team ?_ rfl
  rw [hP.items_getElem?, hs]
  rfl

theorem performs_front (hP : Fenced P rest) (hr : r < P.procs) (hs : fenceFront[k]? = some s) :
    P.Performs (.thread r 0, k) r ⟨.initial, .stmt s⟩ := by
  refine hP.performs hr ?_
  rw [List.getElem?_append_left (List.getElem?_eq_some_iff.1 hs).1, hs]

/-- What a statement before the end of the first fence waits for is signalled by a statement before
it. -/
theorem waits (hP : Fenced P rest) (hs : fenceFront[k]? = some s) {t : Token}
    (ht : t ∈ (P.stmtStep r k s).waits) :
    ∃ r' k', r' < P.procs ∧ k' < k ∧ P.system.Signals (.thread r' 0, k') t := by
  rcases waiting hs with hf | rfl | ⟨rfl, rfl⟩ | ⟨rfl, rfl⟩
  · rw [waits_of_free hf] at ht
    simp at ht
  · have hk : k < fenceFront.length := (List.getElem?_eq_some_iff.1 hs).1
    simp only [Program.stmtStep, hP.opsBefore (Nat.le_of_lt hk), List.map_nil, List.not_mem_nil] at ht
  · simp only [Program.stmtStep, List.mem_map, List.mem_range] at ht
    obtain ⟨r', hr', rfl⟩ := ht
    refine ⟨r', 18, hr', by decide, ?_⟩
    refine (hP.performs_front hr' (s := .barrierEnter) rfl).signals ?_
    simp only [Program.actStep, Program.stmtStep, List.mem_singleton]
    rw [hP.countBefore (by decide), hP.countBefore (by decide)]
    rfl
  · simp only [Program.stmtStep, List.mem_map, List.mem_range] at ht
    obtain ⟨r', hr', rfl⟩ := ht
    refine ⟨r', 20, hr', by decide, ?_⟩
    refine (hP.performs_front hr' (s := .fenceEnter .win) rfl).signals ?_
    simp only [Program.actStep, Program.stmtStep, List.mem_singleton]
    rw [hP.countBefore (by decide), hP.countBefore (by decide)]
    rfl

/-! ## The cut -/

/-- The steps up to the end of the first fence, and `m` more of rank `q`. -/
def stop (P : Program) (q m : Nat) : Actor → Nat
  | .thread r 0 => if r < P.procs then fenceFront.length + (if r = q then m else 0) else 0
  | _ => 0

/-- The statement at a position that is performed. -/
theorem of_stop (hP : Fenced P rest) {call post : List Stmt} (hrest : rest q = call ++ post)
    (hfree : call.all Stmt.free = true) {a : Actor} (h : k < stop P q call.length a) :
    ∃ r s, a = .thread r 0 ∧ r < P.procs ∧ (P.items r)[k]? = some ⟨.initial, .stmt s⟩ ∧
      (fenceFront[k]? = some s ∨ s.free = true) := by
  unfold stop at h
  split at h
  · rename_i r
    split at h
    · rename_i hr
      by_cases hk : k < fenceFront.length
      · refine ⟨r, fenceFront[k], rfl, hr, ?_, .inl (List.getElem?_eq_getElem hk)⟩
        rw [hP.front hk, List.getElem?_eq_getElem hk]
        rfl
      · split at h
        · rename_i h0
          subst h0
          have hlt : k - fenceFront.length < call.length := by omega
          refine ⟨r, call[k - fenceFront.length], rfl, hr, ?_, .inr ?_⟩
          · rw [hP.items_getElem?, List.getElem?_append_right (Nat.le_of_not_lt hk), hrest,
              List.getElem?_append_left hlt, List.getElem?_eq_getElem hlt]
            rfl
          · exact List.all_eq_true.1 hfree _ (List.getElem_mem hlt)
        · omega
    · omega
  · omega

theorem cut (hP : Fenced P rest) {call post : List Stmt} (hrest : rest q = call ++ post)
    (hfree : call.all Stmt.free = true) : Cut P.system (stop P q call.length) fun e => e.2 := by
  have hstep : ∀ (e : Event Actor) st, e.2 < stop P q call.length e.1 →
      P.system.step e = some st → ∃ r s, e.1 = .thread r 0 ∧ st = P.stmtStep r e.2 s ∧
        (fenceFront[e.2]? = some s ∨ s.free = true) := by
    intro e st he hst
    obtain ⟨r, s, hr, hlt, hit, hs⟩ := hP.of_stop hrest hfree he
    obtain ⟨a, k⟩ := e
    obtain rfl : a = .thread r 0 := hr
    obtain ⟨-, -, it, hit', rfl⟩ := Program.step_thread.1 hst
    rw [hit] at hit'
    cases hit'
    exact ⟨r, s, rfl, rfl, hs⟩
  constructor
  · intro a
    by_contra hlt
    have hlt := Nat.lt_of_not_le hlt
    obtain ⟨r, s, rfl, hr, hit, -⟩ := hP.of_stop hrest hfree hlt
    have := lt_length_of_step (Program.Performs.thread hr hP.team hit rfl).step
    omega
  · intro a i j hij _
    exact hij
  · rintro e he t ⟨st, hst, ht⟩
    obtain ⟨r, s, -, rfl, hs⟩ := hstep e st he hst
    rcases hs with hs | hs
    · obtain ⟨r', k', hr', hk', hsig⟩ := hP.waits hs ht
      refine ⟨(.thread r' 0, k'), ?_, hsig, hk'⟩
      have := (List.getElem?_eq_some_iff.1 hs).1
      simp only [stop, if_pos hr']
      omega
    · rw [waits_of_free hs] at ht
      simp at ht
  · intro e he st hst hne
    obtain ⟨r, s, -, rfl, hs⟩ := hstep e st he hst
    refine absurd (Program.waitsAny_stmtStep fun x hx => ?_) hne
    subst hx
    rcases hs with hs | hs
    · rcases waiting hs with h | h | ⟨-, h⟩ | ⟨-, h⟩ <;> cases h
    · cases hs
  · intro e he l hl
    obtain ⟨r, s, hr, -⟩ := hP.of_stop hrest hfree he
    obtain ⟨a, k⟩ := e
    obtain rfl : a = .thread r 0 := hr
    exact Program.not_takes_thread hl

/-- **Some run gets through** the free statements `call` of a rank behind the first fence. -/
theorem run (hP : Fenced P rest) {call post : List Stmt} (hrest : rest q = call ++ post)
    (hfree : call.all Stmt.free = true) (hq : q < P.procs) :
    ∃ h, P.system.Run h ∧ ∀ k, k < fenceFront.length + call.length → (.thread q 0, k) ∈ h := by
  have hall : ∀ a, 0 < stop P q call.length a → a ∈ (List.range P.procs).map (Actor.thread · 0) := by
    intro a ha
    obtain ⟨r, s, rfl, hr, -⟩ := hP.of_stop hrest hfree ha
    exact List.mem_map.2 ⟨r, List.mem_range.2 hr, rfl⟩
  obtain ⟨h, hr, hd⟩ := (hP.cut hrest hfree).reach _ hall .nil fun a => Nat.zero_le _
  refine ⟨_, hr, fun k hk => (Run.mem_iff hr _ _).2 ?_⟩
  rw [hd]
  simp only [stop, if_pos hq, ↓reduceIte]
  exact hk

end Fenced

end Mpi
