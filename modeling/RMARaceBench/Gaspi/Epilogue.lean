import RMARaceBench.Causal.Progress
import RMARaceBench.Gaspi.Facts
import RMARaceBench.Gaspi.Templates

/-!
# The epilogue of the GASPI boilerplate

Every rank may post any operations in its block `main`, as long as it raises no slot that the epilogue
uses (`MainBlock`). The data that rank `r'` posts to rank `r` is delivered before the notification of
the epilogue that `r'` sends to `r`, and `r` waits for the slot of every rank before it prints. So the
final `printf` of `r` follows all writes to `r`, and its own reads (`final_follows`); and every run can
be continued until all ranks have finished (`epilogue_finishes`).
-/

set_option autoImplicit false

namespace Gaspi

open Causal Causal.System

/-- Statements of a block `main` that only posts: no slot below `num` is raised. -/
def Stmt.OnlyPosts (num : Nat) : Stmt → Prop
  | .load _ _ | .store _ _ | .wait => True
  | .post p => ∀ i, p.slot = some i → num ≤ i
  | _ => False

/-- The blocks `main` of the ranks. -/
structure MainBlock (num : Nat) where
  text : Nat → List Stmt
  onlyPosts : ∀ r, ∀ st ∈ text r, st.OnlyPosts num

def MainBlock.program {num : Nat} (m : MainBlock num) : Program := boilerplate num m.text

variable {num : Nat} {main : Nat → List Stmt} {r r' k i j : Nat} {st : Stmt} {p : Post}

/-! ## The frame -/

/-- What stands before the epilogue. -/
def front (main : Nat → List Stmt) (r : Nat) : List Stmt := prologue ++ main r

/-- What stands before the final `printf`. -/
def beforePrintf (num : Nat) (main : Nat → List Stmt) (r : Nat) : List Stmt :=
  front main r ++ ([.wait] ++ gaspiBarrier ++ notifyAll num r ++ waitAll num)

theorem text_eq : (boilerplate num main).text r = front main r ++ epilogue num r := rfl

theorem length_front (main : Nat → List Stmt) (r : Nat) : (front main r).length = 2 + (main r).length := by
  simp [front, prologue, gaspiBarrier]
  omega

theorem length_beforePrintf :
    (beforePrintf num main r).length = (front main r).length + (3 + num + num) := by
  simp [beforePrintf, gaspiBarrier, notifyAll, waitAll]
  omega

theorem text_front (h : (main r)[j]? = some st) : (front main r)[2 + j]? = some st := by
  rw [front, show 2 = prologue.length from rfl, Text.getElem?_right, h]

theorem text_epilogue (num : Nat) (main : Nat → List Stmt) (r j : Nat) :
    ((boilerplate num main).text r)[(front main r).length + j]? = (epilogue num r)[j]? := by
  rw [text_eq, Text.getElem?_right]

theorem length_notifyAll :
    ([Stmt.wait] ++ gaspiBarrier ++ notifyAll num r).length = 3 + num := by
  simp [gaspiBarrier, notifyAll]
  omega

theorem epilogue_notify (hi : i < num) : (epilogue num r)[3 + i]? = some (gaspiNotify i r) := by
  simp [epilogue, gaspiBarrier, notifyAll, List.getElem?_append, Nat.add_comm 3 i, hi]

theorem epilogue_waitsome (hi : i < num) :
    (epilogue num r)[3 + num + i]? = some (.waitsome i) := by
  rw [epilogue, List.append_assoc, ← length_notifyAll, Text.getElem?_right]
  simp [waitAll, List.getElem?_append, hi]

/-- The statements of the epilogue. -/
theorem epilogue_cases (h : (epilogue num r)[j]? = some st) :
    j = 0 ∧ st = .wait ∨ j = 1 ∧ st = .barrierEnter ∨ j = 2 ∧ st = .barrierLeave ∨
    (∃ i, i < num ∧ j = 3 + i ∧ st = gaspiNotify i r) ∨
    (∃ i, i < num ∧ j = 3 + num + i ∧ st = .waitsome i) ∨
    ∃ s, st = .load s 0 := by
  rw [epilogue] at h
  rcases Text.append_cases h with h | ⟨i, -, hi⟩
  swap
  · rcases i with _ | _ | i <;> simp [finalPrintf] at hi <;> exact .inr (.inr (.inr (.inr (.inr
      ⟨_, hi.symm⟩))))
  rcases Text.append_cases h with h | ⟨i, hj, hi⟩
  swap
  · rw [length_notifyAll] at hj
    simp only [waitAll, List.getElem?_map, Option.map_eq_some_iff] at hi
    obtain ⟨k, hk, rfl⟩ := hi
    obtain ⟨hlt, rfl⟩ := List.getElem?_eq_some_iff.1 hk
    simp only [List.length_range] at hlt
    simp only [List.getElem_range]
    exact .inr (.inr (.inr (.inr (.inl ⟨i, hlt, hj, rfl⟩))))
  rcases Text.append_cases h with h | ⟨i, hj, hi⟩
  swap
  · simp only [notifyAll, List.getElem?_map, Option.map_eq_some_iff] at hi
    obtain ⟨k, hk, rfl⟩ := hi
    obtain ⟨hlt, rfl⟩ := List.getElem?_eq_some_iff.1 hk
    simp only [List.length_range] at hlt
    simp only [List.getElem_range]
    refine .inr (.inr (.inr (.inl ⟨i, hlt, ?_, rfl⟩)))
    simpa [gaspiBarrier] using hj
  rcases j with _ | _ | _ | j <;> simp [gaspiBarrier] at h <;> subst h <;> simp

/-- The statements of a rank. -/
theorem text_cases (h : ((boilerplate num main).text r)[k]? = some st) :
    k = 0 ∧ st = .barrierEnter ∨ k = 1 ∧ st = .barrierLeave ∨
    (∃ j, k = 2 + j ∧ (main r)[j]? = some st) ∨
    ∃ j, k = (front main r).length + j ∧ (epilogue num r)[j]? = some st := by
  rw [text_eq] at h
  rcases Text.append_cases h with h | hj
  · rcases Text.append_cases h with h | ⟨j, hk, hj⟩
    · rcases k with _ | _ | k <;> simp [prologue, gaspiBarrier] at h <;> subst h <;> simp
    · exact .inr (.inr (.inl ⟨j, hk, hj⟩))
  · exact .inr (.inr (.inr hj))

/-- What a rank posts: the operations of its block `main` and the notifications of the epilogue. -/
theorem postAt_cases (h : (boilerplate num main).postAt r k = some p) :
    (∃ j, k = 2 + j ∧ (main r)[j]? = some (.post p)) ∨
    ∃ i, i < num ∧ k = (front main r).length + (3 + i) ∧ p = ⟨i, none, some r⟩ := by
  rw [Program.postAt_eq] at h
  rcases text_cases h with ⟨-, h⟩ | ⟨-, h⟩ | h | ⟨j, hk, hj⟩
  · cases h
  · cases h
  · exact .inl h
  · rcases epilogue_cases hj with ⟨-, h⟩ | ⟨-, h⟩ | ⟨-, h⟩ | ⟨i, hi, rfl, h⟩ | ⟨i, -, -, h⟩ | ⟨s, h⟩
    · cases h
    · cases h
    · cases h
    · cases h
      exact .inr ⟨i, hi, hk, rfl⟩
    · cases h
    · cases h

theorem postAt_notify (hi : i < num) :
    (boilerplate num main).postAt r ((front main r).length + (3 + i)) = some ⟨i, none, some r⟩ := by
  rw [Program.postAt_eq, text_epilogue, epilogue_notify hi]
  rfl

/-! ## The final `printf` -/

section
variable {m : MainBlock num} {o : Observation m.program} {h : List (Event Actor)}

theorem MainBlock.onlyPosts_at (hj : (m.text r)[j]? = some st) : st.OnlyPosts num :=
  m.onlyPosts r st (List.mem_of_getElem? hj)

/-- A slot of the epilogue is raised by the epilogue of its rank only. -/
theorem raises_epilogue (hk : m.program.postAt r k = some p) (hi : i < num)
    (hslot : p.slot = some i) : i = r ∧ k = (front m.text r).length + (3 + p.target) := by
  rcases postAt_cases hk with ⟨j, -, hj⟩ | ⟨t, ht, rfl, rfl⟩
  · have := m.onlyPosts_at hj i hslot
    omega
  · cases hslot
    exact ⟨rfl, rfl⟩

/-- What is posted in the block `main` stands before the notifications. -/
theorem data_lt (hk : m.program.postAt r k = some p) (hdata : p.data.isSome = true) :
    k < (front m.text r).length := by
  rcases postAt_cases hk with ⟨j, rfl, hj⟩ | ⟨t, ht, rfl, rfl⟩
  · have := (List.getElem?_eq_some_iff.1 hj).1
    rw [length_front]
    omega
  · cases hdata

/-- **Data from `r'` to `r`** is delivered before `r` has waited for the slot of `r'`. -/
theorem must_final_write (hr : r < num) (hr' : r' < num) (hk : m.program.postAt r' k = some p)
    (htarget : p.target = r) (hdata : p.data.isSome = true) :
    Must (m.program.system o) (.op r' k, 1)
      (.rank r, (front m.text r).length + (3 + num + r')) := by
  have hlt := data_lt hk hdata
  have hnotify : Must (m.program.system o) (.op r' k, 1)
      (.op r' ((front m.text r').length + (3 + r)), 2) :=
    Program.must_notify hr' hk (postAt_notify hr) (by omega) htarget hdata rfl
  refine Program.must_waitsome (i := r') hr ?_ fun q k' p' hq hp' ht hslot => .inr (.inl ?_)
  · exact (text_epilogue num m.text r _).trans (epilogue_waitsome hr')
  · obtain ⟨rfl, rfl⟩ := raises_epilogue hp' hr' hslot
    rw [ht]
    exact hnotify

/-- **The reads of `r`** are complete when it has waited for the queue. -/
theorem must_final_read (hr : r < num) (hk : m.program.postAt r k = some p)
    (hread : p.isRead = true) :
    Must (m.program.system o) (.op r k, 1) (.rank r, (front m.text r).length) := by
  have hdata : p.data.isSome = true := by
    cases hd : p.data
    · simp [Post.isRead, hd] at hread
    · rfl
  have hwait := Program.must_wait (o := o) hr hk (data_lt hk hdata)
    ((text_epilogue num m.text r 0).trans rfl)
  rwa [hread] at hwait

/-- **The final `printf` follows** every write to the rank and its own reads. -/
theorem final_follows (hr : r < num) (hi : (beforePrintf num m.text r).length ≤ i) :
    (∀ r' k p, r' < num → m.program.postAt r' k = some p → p.target = r → p.data.isSome = true →
      Must (m.program.system o) (.op r' k, 1) (.rank r, i)) ∧
    ∀ k p, m.program.postAt r k = some p → p.isRead = true →
      Must (m.program.system o) (.op r k, 1) (.rank r, i) := by
  rw [length_beforePrintf] at hi
  constructor
  · intro r' k p hr' hk htarget hdata
    exact (must_final_write hr hr' hk htarget hdata).order_right (by omega)
  · intro k p hk hread
    exact (must_final_read hr hk hread).order_right (by omega)

/-! ### Its loads -/

/-- What a rank does from the final `printf` on. -/
theorem printf_loads (hi : (beforePrintf num m.text r).length ≤ i)
    (hst : (m.program.text r)[i]? = some st) : ∃ s, st = .load s 0 := by
  rw [length_beforePrintf, length_front] at hi
  rcases text_cases hst with ⟨hk, -⟩ | ⟨hk, -⟩ | ⟨j, hk, hj⟩ | ⟨j, hk, hj⟩
  · omega
  · omega
  · have := (List.getElem?_eq_some_iff.1 hj).1
    omega
  · rw [length_front] at hk
    rcases epilogue_cases hj with ⟨h, -⟩ | ⟨h, -⟩ | ⟨h, -⟩ | ⟨t, ht, h, -⟩ | ⟨t, ht, h, -⟩ | hload
    · omega
    · omega
    · omega
    · omega
    · omega
    · exact hload

/-- A rank stores in its block `main` only. -/
theorem store_lt {a : Access} (hst : (m.program.text r)[k]? = some st) (ha : a ∈ Program.plain r st)
    (hw : a.write = true) : k < (front m.text r).length := by
  rcases text_cases hst with ⟨rfl, -⟩ | ⟨rfl, -⟩ | ⟨j, rfl, hj⟩ | ⟨j, -, hj⟩
  · rw [length_front]
    omega
  · rw [length_front]
    omega
  · have := (List.getElem?_eq_some_iff.1 hj).1
    rw [length_front]
    omega
  · rcases epilogue_cases hj with ⟨-, rfl⟩ | ⟨-, rfl⟩ | ⟨-, rfl⟩ | ⟨t, -, -, rfl⟩ | ⟨t, -, -, rfl⟩ | ⟨s, rfl⟩
    · cases ha
    · cases ha
    · cases ha
    · cases ha
    · cases ha
    · rw [List.mem_singleton.1 ha] at hw
      cases hw

/-- **Every write to a cell that the final `printf` loads** happens before the load. -/
theorem must_printf {x : Event Actor} {a b : Access} (hi : (beforePrintf num m.text r).length ≤ i)
    (hx : (m.program.system o).Accesses x a) (hb : (m.program.system o).Accesses (.rank r, i) b)
    (hconf : a.Conf b) : Must (m.program.system o) x (.rank r, i) := by
  have hr : r < num := by
    obtain ⟨s, hs, -⟩ := hb
    exact (Program.step_rank.1 hs).1
  obtain ⟨st, hst, hplain⟩ := Program.accesses_rank hb
  obtain ⟨seg, rfl⟩ := printf_loads hi hst
  obtain rfl := List.mem_singleton.1 hplain
  obtain ⟨hrank, -, -, hwrite | hwrite⟩ := hconf
  swap
  · cases hwrite
  obtain ⟨c, k⟩ := x
  cases c with
  | rank q =>
    obtain ⟨st', hst', hplain'⟩ := Program.accesses_rank hx
    obtain rfl : q = r := (Program.rank_of_mem_plain hplain').symm.trans hrank
    have hlt := store_lt hst' hplain' hwrite
    rw [length_beforePrintf] at hi
    exact .order (by omega)
  | op q j =>
    obtain ⟨hq, p, hp, hdata, ⟨rfl, hreads⟩ | ⟨rfl, hwrites⟩⟩ := Program.accesses_op hx
    · -- the first step of an operation only reads
      obtain ⟨d, -, rfl⟩ := List.mem_map.1 hreads
      cases hd : d.direction <;> simp [hd] at hwrite
    · obtain ⟨hwritten, hread⟩ := final_follows (o := o) hr hi
      obtain ⟨d, hd, rfl⟩ := List.mem_map.1 hwrites
      cases hdir : d.direction with
      | write =>
        rw [hdir] at hrank
        exact hwritten q j p hq hp hrank hdata
      | read =>
        rw [hdir] at hrank
        obtain rfl : q = r := hrank
        refine hread j p hp ?_
        rw [Post.isRead, Option.mem_toList.1 hd]
        exact beq_iff_eq.2 hdir

/-! ## No rank is blocked for good -/

/-- The longest text before the epilogue. -/
def longest : Nat → (Nat → List Stmt) → Nat
  | 0, _ => 2
  | num + 1, main => max (longest num main) (front main num).length

theorem front_le (hr : r < num) : (front main r).length ≤ longest num main := by
  induction num with
  | zero => omega
  | succ num ih =>
    rw [longest]
    by_cases hlast : r = num
    · rw [hlast]
      omega
    · have := ih (by omega)
      omega

/-- The level of a statement: the epilogues of all ranks are aligned. -/
def height (num : Nat) (main : Nat → List Stmt) (r i : Nat) : Nat :=
  if i < 2 then i else i + (longest num main - (front main r).length)

theorem height_lt (num : Nat) (main : Nat → List Stmt) (r : Nat) (hij : i < j) : height num main r i < height num main r j := by
  simp only [height]
  split <;> split <;> omega

theorem height_front (hr : r < num) :
    height num m.text r ((front m.text r).length + j) = longest num m.text + j := by
  have hle : (front m.text r).length ≤ longest num m.text := front_le hr
  have hlen := length_front m.text r
  simp only [height]
  split <;> omega

/-- An operation is between its post and the next statement. -/
def level (num : Nat) (main : Nat → List Stmt) : Event Actor → Nat
  | (.rank r, i) => 4 * height num main r i
  | (.op r k, i) => 4 * height num main r k + 1 + i

/-- All steps of an actor. -/
def wholeLength (P : Program) (a : Actor) : Nat := (P.code a).length

theorem lt_wholeLength {P : Program} {o : Observation P} {a : Actor} {s : GStep}
    (hs : (P.system o).step (a, k) = some s) : k < wholeLength P a := lt_length_of_step hs

theorem step_of_lt {P : Program} (o : Observation P) {a : Actor} (hk : k < wholeLength P a) :
    ∃ s, (P.system o).step (a, k) = some s :=
  ⟨_, List.getElem?_eq_getElem (l := P.code a) hk⟩

theorem countBefore_main {st : Stmt} (hst : ¬ st.OnlyPosts num) (j : Nat) :
    m.program.countBefore r ((front m.text r).length + j) st =
      prologue.countP (· == st) + Text.countBefore (epilogue num r) j (· == st) := by
  have h0 : (m.text r).countP (· == st) = 0 := by
    refine List.countP_eq_zero.2 fun s hs he => hst ?_
    rw [← beq_iff_eq.1 he]
    exact m.onlyPosts r s hs
  refine (Text.countBefore_append_right (A := front m.text r)).trans ?_
  rw [front, List.countP_append, h0, Nat.add_zero]

/-- A signal below an event. -/
def SignalledBelow (o : Observation m.program) (t : Token) (l : Nat) : Prop :=
  ∃ x : Event Actor, x.2 < wholeLength m.program x.1 ∧ (m.program.system o).Signals x t ∧
    level num m.text x < l

theorem signalledBelow_of_step {a : Actor} {s : GStep} {t : Token} {l : Nat}
    (hs : (m.program.system o).step (a, k) = some s) (ht : t ∈ s.signals)
    (hl : level num m.text (a, k) < l) : SignalledBelow o t l :=
  ⟨(a, k), lt_wholeLength hs, ⟨s, hs, ht⟩, hl⟩

theorem mem_postsBefore_iff {q : Nat} {f : Post → Bool} : k ∈ m.program.postsBefore r q f ↔
    k < q ∧ ∃ p, m.program.postAt r k = some p ∧ f p = true := by
  simp only [Program.postsBefore, Text.mem_before, Option.any_eq_true, Stmt.post?_eq,
    Program.postAt_eq]
  constructor
  · rintro ⟨hk, st, hst, p, rfl, hp⟩
    exact ⟨hk, p, hst, hp⟩
  · rintro ⟨hk, p, hst, hp⟩
    exact ⟨hk, _, hst, p, rfl, hp⟩

/-- The statements of a rank that are not for posting are those of the frame. -/
theorem frame_cases {st : Stmt} (hst : ¬ st.OnlyPosts num) (hpost : st.post? = none)
    (h : (m.program.text r)[k]? = some st) :
    k = 0 ∧ st = .barrierEnter ∨ k = 1 ∧ st = .barrierLeave ∨
    ∃ j, k = (front m.text r).length + j ∧ (j = 1 ∧ st = .barrierEnter ∨
      j = 2 ∧ st = .barrierLeave ∨ ∃ i, i < num ∧ j = 3 + num + i ∧ st = .waitsome i) := by
  rcases text_cases h with h | h | ⟨j, -, hj⟩ | ⟨j, hk, hj⟩
  · exact .inl h
  · exact .inr (.inl h)
  · exact absurd (m.onlyPosts_at hj) hst
  · refine .inr (.inr ⟨j, hk, ?_⟩)
    rcases epilogue_cases hj with ⟨-, h⟩ | h | h | ⟨i, -, -, h⟩ | h | ⟨s, h⟩
    · exact absurd (by rw [h]; trivial) hst
    · exact .inl h
    · exact .inr (.inl h)
    · rw [h] at hpost
      cases hpost
    · exact .inr (.inr h)
    · exact absurd (by rw [h]; trivial) hst

/-- What a rank waits for. -/
theorem rank_waits {st : Stmt} {t : Token} (hr : r < num)
    (hst : (m.program.text r)[k]? = some st) (ht : t ∈ (m.program.stmtStep r k st).waits) :
    SignalledBelow o t (level num m.text (.rank r, k)) := by
  cases st
  case wait =>
    obtain ⟨k', hk', rfl⟩ := List.mem_map.1 ht
    obtain ⟨hlt, p, hp, -⟩ := mem_postsBefore_iff.1 hk'
    have hheight := height_lt num m.text r hlt
    -- the local part of a read ends with its second step, that of other operations with its first
    by_cases hread : p.isRead = true
    · refine signalledBelow_of_step (a := .op r k') (k := 1)
        (Program.step_op.2 ⟨hr, p, hp, rfl⟩) (by simp [hread]) ?_
      simp only [level]
      omega
    · refine signalledBelow_of_step (a := .op r k') (k := 0)
        (Program.step_op.2 ⟨hr, p, hp, rfl⟩) (by simp [hread]) ?_
      simp only [level]
      omega
  case barrierLeave =>
    obtain ⟨r', hr', rfl⟩ := List.mem_map.1 ht
    have hr' : r' < num := List.mem_range.1 hr'
    rcases frame_cases (by simp [Stmt.OnlyPosts]) rfl hst with ⟨-, h⟩ | ⟨rfl, -⟩ |
      ⟨j, rfl, ⟨-, h⟩ | ⟨rfl, -⟩ | ⟨i, -, -, h⟩⟩
    · cases h
    · refine signalledBelow_of_step (a := .rank r') (k := 0)
        (Program.at_step hr' (show (m.program.text r')[0]? = some .barrierEnter from rfl)) ?_ ?_
      · exact List.mem_singleton.2 rfl
      · simp [level, height]
    · cases h
    · refine signalledBelow_of_step (a := .rank r') (k := (front m.text r').length + 1)
        (Program.at_step hr' ((text_epilogue num m.text r' 1).trans rfl)) ?_ ?_
      · refine List.mem_singleton.2 ?_
        rw [countBefore_main (by simp [Stmt.OnlyPosts]), countBefore_main (by simp [Stmt.OnlyPosts])]
        rfl
      · simp only [level, height_front hr, height_front hr']
        omega
    · cases h
  case allreduceLeave =>
    rcases frame_cases (by simp [Stmt.OnlyPosts]) rfl hst with ⟨-, h⟩ | ⟨-, h⟩ |
      ⟨j, -, ⟨-, h⟩ | ⟨-, h⟩ | ⟨i, -, -, h⟩⟩ <;> cases h
  all_goals exact absurd ht List.not_mem_nil

/-- What an operation waits for. -/
theorem op_waits {s : GStep} {t : Token} (hr : r < num) (hp : m.program.postAt r k = some p)
    (hs : (m.program.opCode r k p)[i]? = some s) (ht : t ∈ s.waits) :
    SignalledBelow o t (level num m.text (.op r k, i)) := by
  rcases Program.opCode_cases hs with ⟨rfl, rfl⟩ | ⟨rfl, rfl⟩ | ⟨rfl, rfl⟩
  · rw [List.mem_singleton.1 ht]
    refine signalledBelow_of_step (a := .rank r) (k := k)
      (Program.at_step hr (Program.postAt_eq.1 hp)) (List.mem_singleton.2 rfl) ?_
    simp only [level]
    omega
  · exact absurd ht List.not_mem_nil
  · simp only at ht
    split at ht
    · obtain ⟨k', hk', rfl⟩ := List.mem_map.1 ht
      obtain ⟨hlt, p', hp', -⟩ := mem_postsBefore_iff.1 hk'
      have hheight := height_lt num m.text r hlt
      refine signalledBelow_of_step (a := .op r k') (k := 1)
        (Program.step_op.2 ⟨hr, p', hp', rfl⟩) (List.mem_cons_self) ?_
      simp only [level]
      omega
    · exact absurd ht List.not_mem_nil

/-- A rank only waits for slots that the epilogues raise. -/
theorem rank_waitsAny {st : Stmt} (hr : r < num) (hst : (m.program.text r)[k]? = some st)
    (hne : (m.program.stmtStep r k st).waitsAny ≠ []) : ∃ t ∈ (m.program.stmtStep r k st).waitsAny,
      SignalledBelow o t (level num m.text (.rank r, k)) := by
  cases st
  case waitsome i =>
    rcases frame_cases (by simp [Stmt.OnlyPosts]) rfl hst with ⟨-, h⟩ | ⟨-, h⟩ |
      ⟨j, rfl, ⟨-, h⟩ | ⟨-, h⟩ | ⟨i', hi, rfl, h⟩⟩
    · cases h
    · cases h
    · cases h
    · cases h
    · cases h
      refine ⟨.slot r i, List.mem_singleton.2 rfl, ?_⟩
      refine signalledBelow_of_step (a := .op i ((front m.text i).length + (3 + r))) (k := 2)
        (Program.step_op.2 ⟨hi, _, postAt_notify hr, rfl⟩) (List.mem_singleton.2 rfl) ?_
      simp only [level, height_front hr, height_front hi]
      omega
  case passiveReceive =>
    rcases frame_cases (by simp [Stmt.OnlyPosts]) rfl hst with ⟨-, h⟩ | ⟨-, h⟩ |
      ⟨j, -, ⟨-, h⟩ | ⟨-, h⟩ | ⟨i, -, -, h⟩⟩ <;> cases h
  all_goals exact absurd rfl hne

/-- All steps together are closed under what they wait for. -/
theorem wholeCut :
    Cut (m.program.system o) (wholeLength m.program) (level num m.text) := by
  constructor
  · exact fun a => Nat.le_refl _
  · intro a i j hij _
    cases a with
    | rank r =>
      have := height_lt num m.text r hij
      simp only [level]
      omega
    | op r k =>
      simp only [level]
      omega
  · rintro ⟨a, k⟩ _ t ⟨s, hs, ht⟩
    cases a with
    | rank r =>
      obtain ⟨hr, st, hst, rfl⟩ := Program.step_rank.1 hs
      exact rank_waits hr hst ht
    | op r j =>
      obtain ⟨hr, p, hp, hc⟩ := Program.step_op.1 hs
      exact op_waits hr hp hc ht
  · rintro ⟨a, k⟩ _ s hs hne
    cases a with
    | rank r =>
      obtain ⟨hr, st, hst, rfl⟩ := Program.step_rank.1 hs
      exact rank_waitsAny hr hst hne
    | op r j =>
      obtain ⟨hr, p, hp, hc⟩ := Program.step_op.1 hs
      rcases Program.opCode_cases hc with ⟨rfl, rfl⟩ | ⟨rfl, rfl⟩ | ⟨rfl, rfl⟩ <;>
        exact absurd rfl hne
  · intro e _ l
    exact l.key.elim

/-- **Every run can be continued until all ranks have finished.** -/
theorem epilogue_finishes (hrun : (m.program.system o).Run h) :
    ∃ h', (m.program.system o).Run (h' ++ h) ∧
      ∀ r < num, done (h' ++ h) (.rank r) = (m.program.text r).length := by
  let actors := (List.range num).flatMap fun r =>
    .rank r :: (List.range (m.program.text r).length).map (Actor.op r)
  have hall : ∀ a, 0 < wholeLength m.program a → a ∈ actors := by
    intro a ha
    obtain ⟨s, hs⟩ := step_of_lt o ha
    cases a with
    | rank r =>
      obtain ⟨hr, -⟩ := Program.step_rank.1 hs
      exact List.mem_flatMap.2 ⟨r, List.mem_range.2 hr, List.mem_cons_self⟩
    | op r k =>
      obtain ⟨hr, p, hp, -⟩ := Program.step_op.1 hs
      have hk := (List.getElem?_eq_some_iff.1 (Program.postAt_eq.1 hp)).1
      exact List.mem_flatMap.2 ⟨r, List.mem_range.2 hr,
        List.mem_cons_of_mem _ (List.mem_map_of_mem (List.mem_range.2 hk))⟩
  have hle : ∀ a, done h a ≤ wholeLength m.program a := by
    intro a
    by_contra hlt
    have hmem : (a, wholeLength m.program a) ∈ h := (Run.mem_iff hrun _ _).2 (by omega)
    obtain ⟨s, hs⟩ := Run.step_of_mem hrun hmem
    exact Nat.lt_irrefl _ (lt_wholeLength hs)
  obtain ⟨h', hrun', hdone⟩ := wholeCut.reach actors hall hrun hle
  refine ⟨h', hrun', fun r hr => ?_⟩
  rw [hdone, wholeLength, Program.code, if_pos (show r < m.program.ranks from hr),
    List.length_mapIdx]

/-- **The epilogue of the boilerplate**: when a rank executes the final `printf`, every write to its
remote segment has been applied, all its own reads are complete, and whatever writes to a cell that it
loads has happened before the load; and no run is stuck before all ranks have finished. -/
theorem epilogue_safe (m : MainBlock num) (o : Observation m.program) :
    (∀ h r i, (m.program.system o).Run ((.rank r, i) :: h) →
      (beforePrintf num m.text r).length ≤ i →
        (∀ r' k p, r' < num → m.program.postAt r' k = some p → p.target = r →
          p.data.isSome = true → (.op r' k, 1) ∈ h) ∧
        (∀ k p, m.program.postAt r k = some p → p.isRead = true → (.op r k, 1) ∈ h) ∧
        ∀ x a b, (m.program.system o).Accesses x a → (m.program.system o).Accesses (.rank r, i) b →
          a.Conf b → (m.program.system o).HB ((.rank r, i) :: h) x (.rank r, i)) ∧
    ∀ h, (m.program.system o).Run h → ∃ h', (m.program.system o).Run (h' ++ h) ∧
      ∀ r < num, done (h' ++ h) (.rank r) = (m.program.text r).length := by
  refine ⟨fun h r i hrun hi => ?_, fun h hrun => epilogue_finishes hrun⟩
  obtain ⟨s, hs⟩ := Run.step_of_mem hrun (.head _)
  obtain ⟨hr, -⟩ := Program.step_rank.1 hs
  have below : ∀ r' k, Must (m.program.system o) (.op r' k, 1) (.rank r, i) →
      (.op r' k, 1) ∈ h := by
    intro r' k hm
    rcases List.mem_cons.1 (hm.hb hrun (.head _)).mem.1 with heq | hmem
    · cases heq
    · exact hmem
  obtain ⟨hwrites, hreads⟩ := final_follows (o := o) hr hi
  refine ⟨?_, ?_, ?_⟩
  · intro r' k p hr' hk ht hd
    exact below r' k (hwrites r' k p hr' hk ht hd)
  · intro k p hk hread
    exact below r k (hreads k p hk hread)
  · intro x a b hx hb hconf
    exact (must_printf hi hx hb hconf).hb hrun (.head _)

end

/-! ### One write -/

/-- Rank 0 writes to rank 1. -/
def oneWrite : MainBlock 2 where
  text r := ifRank r 0 [gaspiWrite 0 1 0]
  onlyPosts r st hst := by
    unfold ifRank at hst
    split at hst
    · rw [List.mem_singleton.1 hst]
      intro i hi
      cases hi
    · exact absurd hst List.not_mem_nil

/-- Rank 1 gets to the load of its remote segment, and then the write has been applied. -/
theorem oneWrite_applied : ∃ h, (oneWrite.program.system (.all _)).Run ((.rank 1, 10) :: h) ∧
    (.op 0 2, 1) ∈ h ∧
    (oneWrite.program.system (.all _)).HB ((.rank 1, 10) :: h) (.op 0 2, 1) (.rank 1, 10) := by
  obtain ⟨hsafe, hfinish⟩ := epilogue_safe oneWrite (.all _)
  obtain ⟨h, hrun, hdone⟩ := hfinish [] .nil
  have hmem : (.rank 1, 10) ∈ h ++ [] := by
    rw [Run.mem_iff hrun, hdone 1 (by decide)]
    decide
  obtain ⟨h₂, h₁, s, -, hrun', -⟩ := Run.split hrun hmem
  obtain ⟨hwrites, -, hloads⟩ := hsafe h₁ 1 10 hrun' (by decide)
  refine ⟨h₁, hrun', hwrites 0 2 _ (by decide) rfl rfl rfl, ?_⟩
  refine hloads _ ⟨1, .remote, 0, true⟩ ⟨1, .remote, 0, false⟩ ?_ ?_ (by decide)
  · exact ⟨_, Program.step_op.2 ⟨by decide, _, rfl, rfl⟩, .head _⟩
  · exact ⟨_, Program.at_step (by decide) rfl, .head _⟩

end Gaspi
