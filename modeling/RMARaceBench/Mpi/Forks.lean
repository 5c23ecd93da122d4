import RMARaceBench.Mpi.HybridRaceFree

/-!
# Race freedom of the hybrid cases

The hybrid programs without a race store only in text of their initial threads, and nothing that stands
behind such text is executed before it is over (`Program.Forked`): a parallel region is entered by a
fork, a task after its creation. Behind it `flag` is incremented and read by `omp atomic` only. So the
accesses of a rank's threads never race (`Forked.ordered`), every store to memory that the transfer
accesses precedes the transfer (`Forked.early`), and every read follows it by what `HybridRaceFree.lean`
shows about the unlock. `hybridNo_raceFree`: no run of these programs has a
race, for any team and any assignment of the constructs to its threads.
-/

set_option autoImplicit false

namespace Mpi

open Causal Causal.System Omp

/-- The statement stores to the memory of its process. -/
def Stmt.writes : Stmt → Bool
  | .store _ | .recv _ _ => true
  | _ => false

/-- A store, a plain read of `flag` or an increment of another variable. -/
def Stmt.exclusive : Stmt → Bool
  | .load (.var .flag) | .send .flag _ => true
  | .atomicIncr x => x != .flag
  | s => s.writes

def Stmt.increments : Stmt → Bool
  | .atomicIncr _ => true
  | _ => false

namespace Program

variable {P : Program} {r k i j τ : Nat} {x y : Event Actor} {t : Token} {it : Item Stmt} {m m' : Access}
  {s : Stmt} {pre : List Stmt} {post rest : List (Item Stmt)}

/-! ## What starts a team, a task and a transfer -/

/-- What the item `a` at position `k` is when its signal starts a team, a task or a transfer. -/
def Starts (r tid k : Nat) (a : Act Stmt) : Token → Prop
  | .fork r' l => a = .fork ∧ r' = r ∧ l = k ∧ tid = 0
  | .taskCreated r' j => a = .taskCreate j ∧ r' = r
  | .issued r' l => (∃ c, a = .stmt (.rma c)) ∧ r' = r ∧ l = k
  | _ => True

theorem starts_of_stmtStep {tid : Nat} (h : t ∈ (P.stmtStep r k s).signals) :
    Starts r tid k (.stmt s) t := by
  cases s
  case unlock =>
    simp only [stmtStep] at h
    split at h
    · rw [List.mem_singleton.1 h]
      trivial
    · simp at h
  case unlockAll =>
    simp only [stmtStep] at h
    split at h
    · rw [List.mem_singleton.1 h]
      trivial
    · simp at h
  case complete =>
    simp only [stmtStep, List.mem_flatMap, List.mem_map] at h
    obtain ⟨j, -, o, -, rfl⟩ := h
    trivial
  case post =>
    simp only [stmtStep, List.mem_map] at h
    obtain ⟨o, -, rfl⟩ := h
    trivial
  all_goals simp only [stmtStep, List.not_mem_nil, List.mem_singleton] at h
  all_goals subst h; simp [Starts]

theorem starts_of_actStep {tid : Nat} {a : Act Stmt} (h : t ∈ (P.actStep r tid k a).signals) :
    Starts r tid k a t := by
  cases a with
  | stmt s => exact starts_of_stmtStep h
  | fork =>
    simp only [actStep] at h
    split at h
    · rename_i h0
      rw [List.mem_singleton.1 h]
      exact ⟨rfl, rfl, rfl, h0⟩
    · simp at h
  | taskCreate =>
    rw [List.mem_singleton.1 h]
    exact ⟨rfl, rfl⟩
  | _ =>
    simp only [actStep, List.not_mem_nil, List.mem_singleton] at h
    try (subst h; trivial)

theorem sole_fork (hit : (P.items r)[k]? = some ⟨.every, .fork⟩) :
    P.system.Sole (.thread r 0, k) (.fork r k) := by
  intro y hy
  obtain ⟨r', it, hp, hsig⟩ := performs_of_signals hy rfl
  obtain ⟨-, rfl, hk, htid⟩ := starts_of_actStep hsig
  have hitem := hp.item
  rw [← hk, hit, Option.some.injEq] at hitem
  subst hitem
  cases hp with
  | thread _ _ _ _ =>
    obtain rfl : _ = 0 := htid
    obtain rfl : k = _ := hk
    rfl
  | task _ _ hwho => cases hwho

/-- **A fork**: what the initial thread does before it happens before what the team does after it. -/
theorem must_fork {pre : List (Item Stmt)} (hr : r < P.procs)
    (hits : P.items r = pre ++ ⟨.every, .fork⟩ :: post) (hτ : τ < P.team) (hi : i ≤ pre.length)
    (hj : pre.length ≤ j) (hij : i < j) : Must P.system (.thread r 0, i) (.thread r τ, j) := by
  have hit : (P.items r)[pre.length]? = some ⟨.every, .fork⟩ := by simp [hits]
  by_cases h0 : τ = 0
  · rw [h0]
    exact .order hij
  · refine Must.hop (sole_fork hit) ((performs_every hr hτ hit).waits ?_) hi hj
    simp [actStep, Actor.tid, h0]

/-- The items of a region have no task, or task 0, which one thread creates at the start. -/
def OneTask (team : Nat) (its : List (Item Stmt)) : Prop :=
  (∀ it ∈ its, ∀ j, it.who ≠ .task j) ∨
    ∃ τ < team, ∃ rest, its = ⟨.thread τ, .taskCreate 0⟩ :: ⟨.task 0, .taskBegin 0⟩ :: rest ∧
      (∀ it ∈ rest, it.act ≠ .taskCreate 0) ∧ ∀ it ∈ rest, ∀ j, it.who = .task j → j = 0

/-- A statement behind a fork is executed after what the initial thread has done before it. -/
theorem must_region (hits : P.items r = seq pre ++ ⟨.every, .fork⟩ :: post)
    (hone : OneTask P.team post) (hp : P.Performs x r it) (hact : it.act = .stmt s)
    (hi : i < pre.length) (hx : pre.length ≤ x.2) : Must P.system (.thread r 0, i) x := by
  have hlen : (seq pre).length = pre.length := length_seq pre
  cases hp with
  | @thread r tid k it hr htid hit hw => exact must_fork hr hits htid (by omega) (by omega) (by omega)
  | @task r j k it hr hit hwho =>
    change pre.length ≤ k at hx
    have hmem := hit
    rw [hits, getElem?_seq_right hx] at hmem
    rcases hone with hno | ⟨τ, hτ, rest, rfl, hcreate, htasks⟩
    · rcases List.mem_cons.1 (List.mem_of_getElem? hmem) with rfl | hmem
      · cases hwho
      · exact absurd hwho (hno it hmem j)
    · obtain ⟨n, rfl⟩ : ∃ n, k = pre.length + n := ⟨k - pre.length, by omega⟩
      rw [Nat.add_sub_cancel_left] at hmem
      rcases n with _ | _ | _ | n
      · cases Option.some.inj hmem
        cases hwho
      · cases Option.some.inj hmem
        cases hwho
      · cases Option.some.inj hmem
        cases hact
      · obtain rfl : j = 0 := htasks it (List.mem_of_getElem? (show rest[n]? = some it from hmem)) j hwho
        have hat : P.items r = (seq pre ++ [⟨.every, .fork⟩]) ++ ⟨.thread τ, .taskCreate 0⟩ ::
            (⟨.task 0, .taskBegin 0⟩ :: rest) := by simp [hits]
        have hpre : (seq pre ++ [(⟨.every, .fork⟩ : Item Stmt)]).length = pre.length + 1 := by
          simp [hlen]
        -- the creation is the only signal of the task
        have hsole : P.system.Sole (.thread r τ, pre.length + 1) (.taskCreated r 0) := by
          intro y hy
          obtain ⟨r', it', hp', hsig⟩ := performs_of_signals hy rfl
          obtain ⟨hact', rfl⟩ := starts_of_actStep hsig
          have hitem := hp'.item
          rw [hat] at hitem
          obtain ⟨hy2, rfl⟩ := Text.at_of_split (q := fun z : Item Stmt => z.act = .taskCreate 0)
            (fun z hz => by
              rcases List.mem_append.1 hz with hz | hz
              · obtain ⟨s, hs⟩ := act_on hz
                simp [hs]
              · rw [List.mem_singleton.1 hz]
                simp)
            (fun z hz => by
              rcases List.mem_cons.1 hz with rfl | hz
              · simp
              · exact hcreate z hz) hitem hact'
          have hy1 : y.1 = .thread r τ := hp'.actor rfl
          rw [hpre] at hy2
          rw [← hy1, ← hy2]
        have hbegin : P.Performs (.task r 0, pre.length + 2) r ⟨.task 0, .taskBegin 0⟩ := by
          refine .task hr ?_ rfl
          rw [hits, getElem?_seq_right (by omega), Nat.add_sub_cancel_left]
          rfl
        have h1 : Must P.system (.thread r 0, i) (.thread r τ, pre.length + 1) :=
          must_fork hr hits hτ (by omega) (by omega) (by omega)
        have h2 : Must P.system (.thread r τ, pre.length + 1) (.task r 0, pre.length + 2) :=
          .sync hsole (hbegin.waits (by simp [actStep]))
        exact (h1.trans h2).order_right (by omega)

/-! ## Texts of initial threads -/

/-- Rank `r` starts with the text `pre` of its initial thread, which increments nothing. Behind it nothing
is stored, `flag` is used by `omp atomic` only, and no statement is executed before it is over. -/
structure Forked (P : Program) (r : Nat) (pre : List Stmt) (rest : List (Item Stmt)) : Prop where
  items : P.items r = seq pre ++ rest
  plain : pre.filter Stmt.increments = []
  quiet : textOf Stmt.exclusive rest = []
  gate : ∀ {x it s i}, P.Performs x r it → it.act = .stmt s → i < pre.length → pre.length ≤ x.2 →
    Must P.system (.thread r 0, i) x

theorem forked_seq (hits : P.items r = seq pre) (hplain : pre.filter Stmt.increments = []) :
    Forked P r pre [] where
  items := by rw [hits, List.append_nil]
  plain := hplain
  quiet := rfl
  gate hp _ _ hx := by
    have hitem := hp.item
    rw [hits, List.getElem?_eq_none (by rwa [length_seq])] at hitem
    cases hitem

theorem forked_region (hits : P.items r = seq pre ++ ⟨.every, .fork⟩ :: post)
    (hplain : pre.filter Stmt.increments = []) (hone : OneTask P.team post)
    (hquiet : textOf Stmt.exclusive post = []) : Forked P r pre (⟨.every, .fork⟩ :: post) where
  items := hits
  plain := hplain
  quiet := by rw [textOf_cons, hquiet]; rfl
  gate := must_region hits hone

theorem exclusive_of_writes (hs : s.writes = true) : s.exclusive = true := by
  cases s <;> first | rfl | cases hs

namespace Forked

/-- A statement stands in the text of the initial thread, or behind it and is not exclusive. -/
theorem stmt_cases (F : Forked P r pre rest) (hk : P.stmtAt r k = some s) :
    k < pre.length ∧ pre[k]? = some s ∨ pre.length ≤ k ∧ s.exclusive = false := by
  obtain ⟨it, hit, hst⟩ := Option.bind_eq_some_iff.1 hk
  rw [F.items] at hit
  rcases Nat.lt_or_ge k pre.length with hlt | hge
  · rw [getElem?_seq_left hlt, Option.map_eq_some_iff] at hit
    obtain ⟨s', hs', rfl⟩ := hit
    obtain rfl : s' = s := Option.some.inj hst
    exact .inl ⟨hlt, hs'⟩
  · rw [getElem?_seq_right hge] at hit
    refine .inr ⟨hge, Bool.eq_false_iff.2 fun hs => ?_⟩
    have hmem := mem_textOf (List.mem_of_getElem? hit) hst hs
    rw [F.quiet] at hmem
    cases hmem

/-- A store stands in the text of the initial thread. -/
theorem store (F : Forked P r pre rest) (hk : P.stmtAt r k = some s) (hs : s.writes = true) :
    k < pre.length ∧ pre[k]? = some s := by
  rcases F.stmt_cases hk with h | ⟨-, hq⟩
  · exact h
  · rw [exclusive_of_writes hs] at hq
    cases hq

/-- Only `flag` is incremented. -/
theorem flag_of_incr (F : Forked P r pre rest) {v : Var} (hk : P.stmtAt r k = some (.atomicIncr v)) :
    v = .flag := by
  rcases F.stmt_cases hk with ⟨-, hpre⟩ | ⟨-, hq⟩
  · have hmem : .atomicIncr v ∈ pre.filter Stmt.increments :=
      List.mem_filter.2 ⟨List.mem_of_getElem? hpre, rfl⟩
    rw [F.plain] at hmem
    cases hmem
  · simpa [Stmt.exclusive] using hq

/-- What stands in the text of the initial thread is executed by it. -/
theorem initial (F : Forked P r pre rest) (hp : P.Performs x r it) (hx : x.2 < pre.length) :
    x = (.thread r 0, x.2) := by
  have hitem := hp.item
  rw [F.items, getElem?_seq_left hx, Option.map_eq_some_iff] at hitem
  obtain ⟨s, -, rfl⟩ := hitem
  exact Prod.ext (hp.actor rfl) rfl

/-- The text of the initial thread up to a statement is executed before it. -/
theorem before (F : Forked P r pre rest) (hp : P.Performs x r it) (hact : it.act = .stmt s)
    (hi : i < pre.length) (hix : i < x.2) : Must P.system (.thread r 0, i) x := by
  rcases Nat.lt_or_ge x.2 pre.length with hlt | hge
  · rw [F.initial hp hlt]
    exact .order hix
  · exact F.gate hp hact hi hge

end Forked

/-! ## Accesses -/

/-- Who accesses memory: a thread or a task with a statement, or a transfer. -/
theorem access_cases (h : P.system.Accesses x m) :
    (∃ r it s, P.Performs x r it ∧ it.act = .stmt s ∧ P.stmtAt r x.2 = some s ∧
      m ∈ (P.stmtStep r x.2 s).accs) ∨ ∃ r k i, x = (.op r k, i) := by
  obtain ⟨a, k⟩ := x
  obtain ⟨st, hst, hm⟩ := id h
  have item : ∀ {r tid : Nat} {it : Item Stmt}, (P.items r)[k]? = some it →
      m ∈ (P.actStep r tid k it.act).accs →
      ∃ s, it.act = .stmt s ∧ P.stmtAt r k = some s ∧ m ∈ (P.stmtStep r k s).accs := by
    intro r tid it hit hm
    cases hact : it.act with
    | stmt s =>
      rw [hact] at hm
      exact ⟨s, rfl, by rw [stmtAt, hit, Option.bind_some, Item.stmt?, hact], hm⟩
    | fork =>
      rw [hact] at hm
      simp only [actStep] at hm
      split at hm <;> simp at hm
    | _ =>
      rw [hact] at hm
      simp [actStep] at hm
  cases a with
  | thread r tid =>
    obtain ⟨hr, htid, it, hit, rfl⟩ := step_thread.1 hst
    split at hm
    · rename_i hw
      obtain ⟨s, hact, hs, hms⟩ := item hit hm
      exact .inl ⟨r, it, s, .thread hr htid hit hw, hact, hs, hms⟩
    · simp [Step.skip] at hm
  | task r j =>
    obtain ⟨hr, it, hit, rfl⟩ := step_task.1 hst
    split at hm
    · rename_i hw
      obtain ⟨s, hact, hs, hms⟩ := item hit hm
      exact .inl ⟨r, it, s, .task hr hit hw, hact, hs, hms⟩
    · simp [Step.skip] at hm
  | op r i => exact .inr ⟨r, i, k, rfl⟩
  | grant r i => exact absurd h not_accesses_grant

/-- A statement with a writing access stores or increments. -/
theorem writes_of_access (hm : m ∈ (P.stmtStep r k s).accs) (hw : m.kind.writes = true) :
    s.writes = true ∨ ∃ v, s = .atomicIncr v ∧ m.region = .var v ∧ m.kind = .ompAtomicWrite := by
  cases s
  case unlock => simp only [stmtStep] at hm; split at hm <;> simp at hm
  case unlockAll => simp only [stmtStep] at hm; split at hm <;> simp at hm
  case store => exact .inl rfl
  case recv => exact .inl rfl
  case atomicIncr v =>
    rw [List.mem_singleton.1 hm]
    exact .inr ⟨v, rfl, rfl, rfl⟩
  all_goals simp only [stmtStep, List.not_mem_nil, List.mem_singleton] at hm
  all_goals rw [hm, kind_access] at hw; cases hw

/-- A plain access to `flag`. -/
theorem exclusive_of_access (hm : m ∈ (P.stmtStep r k s).accs) (hreg : m.region = .var .flag)
    (hk : m.kind.isOmpAtomic = false) : s.exclusive = true := by
  cases s
  case unlock => simp only [stmtStep] at hm; split at hm <;> simp at hm
  case unlockAll => simp only [stmtStep] at hm; split at hm <;> simp at hm
  case store => rfl
  case recv => rfl
  case atomicIncr v =>
    rw [List.mem_singleton.1 hm] at hk
    cases hk
  case atomicRead v found =>
    rw [List.mem_singleton.1 hm] at hk
    cases hk
  case load l =>
    rw [List.mem_singleton.1 hm] at hreg
    cases l with
    | var v => cases hreg; rfl
    | cell w i => cases hreg
  case send v d =>
    rw [List.mem_singleton.1 hm] at hreg
    cases hreg
    rfl
  all_goals simp [stmtStep] at hm

/-- Of two conflicting accesses one stands in the text of the initial thread. -/
theorem Forked.initial_of_conf (F : Forked P r pre rest) {k' : Nat} {s' : Stmt}
    (hs : P.stmtAt r k = some s) (hs' : P.stmtAt r k' = some s') (hm : m ∈ (P.stmtStep r k s).accs)
    (hm' : m' ∈ (P.stmtStep r k' s').accs) (hc : m.Conf m') : k < pre.length ∨ k' < pre.length := by
  by_contra hno
  obtain ⟨hk, hk'⟩ := not_or.1 hno
  -- no writing access behind the text conflicts with another one
  have apart : ∀ {k k' s s' m m'}, P.stmtAt r k = some s → P.stmtAt r k' = some s' → ¬ k < pre.length →
      ¬ k' < pre.length → m ∈ (P.stmtStep r k s).accs → m' ∈ (P.stmtStep r k' s').accs → m.Conf m' →
      m.kind.writes = false := by
    intro k k' s s' m m' hs hs' hk hk' hm hm' hc
    refine Bool.eq_false_iff.2 fun hw => ?_
    simp only [Access.Conf, Access.conflicts, Access.overlaps, Bool.and_eq_true, beq_iff_eq] at hc
    obtain ⟨⟨⟨⟨-, hreg⟩, -⟩, -⟩, -, homp⟩ := hc
    rcases writes_of_access hm hw with hw | ⟨v, rfl, hv, hkind⟩
    · exact hk (F.store hs hw).1
    · obtain rfl := F.flag_of_incr hs
      rw [hkind] at homp
      have hplain : m'.kind.isOmpAtomic = false := by
        simpa [Kind.isOmpAtomic] using homp
      have hex := exclusive_of_access hm' (hreg.symm.trans hv) hplain
      rcases F.stmt_cases hs' with ⟨hlt, -⟩ | ⟨-, hq⟩
      · exact hk' hlt
      · rw [hex] at hq
        cases hq
  have hw := apart hs hs' hk hk' hm hm' hc
  have hw' := apart hs' hs hk' hk hm' hm hc.symm
  simp only [Access.Conf, Access.conflicts, hw, hw', Bool.or_self, Bool.false_and, Bool.and_false] at hc
  cases hc

/-- What the initial thread does in its text is ordered with the statements of the rank. -/
theorem Forked.ordered (F : Forked P r pre rest) {it' : Item Stmt} {s' : Stmt}
    (hp : P.Performs x r it) (hlt : x.2 < pre.length)
    (hp' : P.Performs y r it') (hact' : it'.act = .stmt s') (hne : x ≠ y) {h : List (Event Actor)}
    (hr : P.system.Run h) (hx : x ∈ h) (hy : y ∈ h) : P.system.Ordered h x y := by
  have hx0 := F.initial hp hlt
  rcases Nat.lt_trichotomy x.2 y.2 with hxy | hxy | hxy
  · rw [hx0]
    exact .inl ((F.before hp' hact' hlt hxy).hb hr hy)
  · have hy0 := F.initial hp' (hxy ▸ hlt)
    exact absurd (by rw [hx0, hy0, hxy]) hne
  · rw [hx0, F.initial hp' (Nat.lt_trans hxy hlt)]
    exact .inr (Run.hb_order hr (hx0 ▸ hx) hxy)

/-! ## The transfer -/

/-- A hybrid program: rank 0 makes one call at position `kc`, after everything that it stores; rank 1
stores before the first barrier or to `flag`. -/
structure Hybrid (P : Program) (c : Rma) (kc : Nat) : Prop where
  procs : P.procs = 2
  team : 0 < P.team
  call : c = hybridGet ∨ c = hybridPut
  stmt : P.stmtAt 0 kc = some (.rma c)
  only : ∀ {r k c'}, r < 2 → P.stmtAt r k = some (.rma c') → r = 0 ∧ k = kc
  forked : ∀ r < 2, ∃ front rest, Forked P r (hybridBefore ++ front) rest
  store₀ : ∀ {k s}, P.stmtAt 0 k = some s → s.writes = true → k < kc
  store₁ : ∀ {k s}, P.stmtAt 1 k = some s → s.writes = true → s ≠ .store (.var .flag) →
    k < hybridBefore.length
  late : hybridBefore.length ≤ kc

/-- The statements of the initial threads before the first barrier. -/
theorem countBefore_early {front : List Stmt} {u : Nat} (p : Stmt → Bool)
    (hits : P.items r = seq (hybridBefore ++ front) ++ rest) (hu : u ≤ hybridBefore.length) :
    P.countBefore r u p = ((hybridBefore.take u).filter p).length := by
  rw [countBefore_take, hits, List.take_append_of_le_length, seq, on, ← List.map_take, ← on, textOf_on,
    List.take_append_of_le_length hu]
  rw [length_seq, List.length_append]
  omega

namespace Hybrid

variable {c : Rma} {kc : Nat}

/-- What the initial thread of rank 0 has done before the call happens before the transfer. -/
theorem issue (H : Hybrid P c kc) {front : List Stmt} (F : Forked P 0 (hybridBefore ++ front) rest)
    (hi : i < (hybridBefore ++ front).length) (hk : i < kc) :
    Must P.system (.thread 0 0, i) (.op 0 kc, j) := by
  have hwait : P.system.Waits (.op 0 kc, 0) (.issued 0 kc) :=
    ⟨_, step_op.2 ⟨by rw [H.procs]; decide, c, H.stmt, rfl⟩, .head _⟩
  refine Must.order_right (.after (fun y hy => .inr ?_) hwait) (Nat.zero_le j)
  obtain ⟨r', it, hp, hsig⟩ := performs_of_signals hy rfl
  obtain ⟨⟨c', hact⟩, rfl, hky⟩ := starts_of_actStep hsig
  exact F.before hp hact hi (hky ▸ hk)

/-- Both ranks meet at the first barrier. -/
theorem meet (H : Hybrid P c kc) {front front₀ : List Stmt} {rest₀ : List (Item Stmt)} (hr : r < 2)
    (F : Forked P r (hybridBefore ++ front) rest) (F₀ : Forked P 0 (hybridBefore ++ front₀) rest₀)
    (hi : i ≤ 18) : Must P.system (.thread r 0, i) (.thread 0 0, 19) := by
  have stmt : ∀ {r' u front rest s}, r' < 2 → Forked P r' (hybridBefore ++ front) rest →
      hybridBefore[u]? = some s → P.Performs (.thread r' 0, u) r' ⟨.initial, .stmt s⟩ := by
    intro r' u front rest s hr' F' hs
    refine .thread (by rw [H.procs]; exact hr') H.team ?_ rfl
    have hu : u < hybridBefore.length := (List.getElem?_eq_some_iff.1 hs).1
    rw [F'.items, getElem?_seq_left (by rw [List.length_append]; omega),
      List.getElem?_append_left hu, hs]
    rfl
  refine must_bar (stmt (u := 18) hr F rfl) rfl rfl (stmt (u := 19) Nat.two_pos F₀ rfl) rfl ?_ hi
    (Nat.le_refl _)
  rw [countBefore_early _ F.items (by decide), countBefore_early _ F₀.items (by decide)]
  decide

/-- **A store precedes the transfer**, except to the flag. -/
theorem early (H : Hybrid P c kc) (hr : r < 2) (hp : P.Performs x r it)
    (hs : P.stmtAt r x.2 = some s) (hw : s.writes = true) (hflag : s ≠ .store (.var .flag)) :
    Must P.system x (.op 0 kc, j) := by
  obtain ⟨front₀, rest₀, F₀⟩ := H.forked 0 Nat.two_pos
  obtain ⟨front, rest, F⟩ := H.forked r hr
  obtain ⟨hlt, hpre⟩ := F.store hs hw
  rw [F.initial hp hlt]
  obtain rfl | rfl : r = 0 ∨ r = 1 := by omega
  · exact H.issue F hlt (H.store₀ hs hw)
  · have hb : x.2 < hybridBefore.length := H.store₁ hs hw hflag
    rw [List.getElem?_append_left hb] at hpre
    have hne : x.2 ≠ 19 := by
      intro he
      rw [he] at hpre
      cases hpre
      cases hw
    have h18 : x.2 ≤ 18 := by
      have : hybridBefore.length = 20 := rfl
      omega
    refine (H.meet hr F F₀ h18).trans (H.issue F₀ ?_ ?_)
    · rw [List.length_append]
      exact Nat.lt_of_lt_of_le (by decide) (Nat.le_add_right _ _)
    · exact Nat.lt_of_lt_of_le (by decide) H.late

/-- The transfer accesses the first element of a window, or reads `value`. -/
theorem transfer (H : Hybrid P c kc) {a b : Nat} (hm : P.system.Accesses (.op a b, i) m) :
    a = 0 ∧ b = kc ∧ (m.region = .win .win ∧ m.lo = 0 ∧ m.hi = 4 ∨
      m.region = .var .value ∧ m.kind = .localRead) := by
  obtain ⟨st, hst, hms⟩ := hm
  obtain ⟨ha, c', hc', hop⟩ := step_op.1 hst
  obtain ⟨rfl, rfl⟩ := H.only (H.procs ▸ ha) hc'
  obtain rfl : c' = c := by simpa [hc'] using H.stmt
  refine ⟨rfl, rfl, ?_⟩
  rcases H.call with rfl | rfl
  · rcases opCode_cases hop with ⟨-, rfl⟩ | ⟨-, rfl⟩ | ⟨-, rfl⟩
    · simp [hybridGet] at hms
    · obtain rfl := List.mem_singleton.1 hms
      exact .inl ⟨rfl, rfl, rfl⟩
    · obtain rfl := List.mem_singleton.1 hms
      exact .inl ⟨rfl, rfl, rfl⟩
  · rcases opCode_cases hop with ⟨-, rfl⟩ | ⟨-, rfl⟩ | ⟨-, rfl⟩
    · obtain rfl := List.mem_singleton.1 hms
      exact .inr ⟨rfl, rfl⟩
    · obtain rfl := List.mem_singleton.1 hms
      exact .inl ⟨rfl, rfl, rfl⟩
    · simp [hybridPut] at hms

end Hybrid

/-- The flag is not accessed by the transfer. -/
theorem not_flag (hreg : m.region = .win .win ∨ m.region = .var .value)
    (hm' : m' ∈ (P.stmtStep r k (.store (.var .flag))).accs) : ¬ m.Conf m' := by
  intro hc
  simp only [Access.Conf, Access.conflicts, Access.overlaps, Bool.and_eq_true, beq_iff_eq] at hc
  rw [List.mem_singleton.1 hm'] at hc
  have hreg' := hc.1.1.1.2
  simp only [Loc.access] at hreg'
  rcases hreg with h | h <;> rw [h] at hreg' <;> cases hreg'

/-- A statement that does not store and conflicts with the transfer reads `win_base[0]`. -/
theorem reads_of_conf (hm : m.region = .win .win ∧ m.lo = 0 ∧ m.hi = 4 ∨
      m.region = .var .value ∧ m.kind = .localRead)
    (hm' : m' ∈ (P.stmtStep r k s).accs) (hw : s.writes = false)
    (hincr : ∀ {v}, s = .atomicIncr v → v = .flag) (hc : m.Conf m') : s = .load (winBase 0) := by
  simp only [Access.Conf, Access.conflicts, Access.overlaps, Bool.and_eq_true, Bool.or_eq_true,
    beq_iff_eq, decide_eq_true_eq] at hc
  obtain ⟨⟨⟨⟨-, hreg⟩, -⟩, hlo⟩, hmw, -⟩ := hc
  have hw' : m'.kind.writes = false := by
    refine Bool.eq_false_iff.2 fun hcon => ?_
    rcases writes_of_access hm' hcon with hst | ⟨v, rfl, hv, -⟩
    · rw [hst] at hw
      cases hw
    · obtain rfl := hincr rfl
      rw [hv] at hreg
      rcases hm with ⟨h, -⟩ | ⟨h, -⟩ <;> rw [h] at hreg <;> cases hreg
  rw [hw', Bool.false_eq_true, or_false] at hmw
  rcases hm with ⟨hwin, hlo0, hhi⟩ | ⟨-, hkind⟩
  swap
  · rw [hkind] at hmw
    cases hmw
  rw [hwin] at hreg
  rw [hhi] at hlo
  cases s
  case unlock => simp only [stmtStep] at hm'; split at hm' <;> simp at hm'
  case unlockAll => simp only [stmtStep] at hm'; split at hm' <;> simp at hm'
  case load l =>
    rw [List.mem_singleton.1 hm'] at hreg hlo
    cases l with
    | var x => cases hreg
    | cell w n =>
      simp only [Loc.access, Region.win.injEq] at hreg hlo
      obtain rfl : n = 0 := by omega
      rw [← hreg]
  case store => cases hw
  case recv => cases hw
  all_goals simp only [stmtStep, List.not_mem_nil, List.mem_singleton] at hm'
  all_goals rw [hm'] at hreg; cases hreg

namespace Hybrid

variable {c : Rma} {kc : Nat}

/-- The transfer is ordered with the conflicting statements. -/
theorem ordered_transfer (H : Hybrid P c kc) (hsync : P.Synchronized) {a b : Nat}
    (hm : P.system.Accesses (.op a b, i) m) (hp : P.Performs y r it) (hs : P.stmtAt r y.2 = some s)
    (hm' : m' ∈ (P.stmtStep r y.2 s).accs) (hc : m.Conf m') {h : List (Event Actor)}
    (hr : P.system.Run h) (hx : (.op a b, i) ∈ h) (hy : y ∈ h) :
    P.system.Ordered h (.op a b, i) y := by
  have hlt : r < 2 := by
    rw [← H.procs]
    cases hp <;> assumption
  obtain ⟨rfl, rfl, hacc⟩ := H.transfer hm
  cases hw : s.writes with
  | true =>
    have hflag : s ≠ .store (.var .flag) := by
      rintro rfl
      exact not_flag (hacc.imp And.left And.left) hm' hc
    exact .inr ((H.early hlt hp hs hw hflag).hb hr hx)
  | false =>
    obtain ⟨front, rest, F⟩ := H.forked r hlt
    obtain rfl := reads_of_conf hacc hm' hw (fun he => F.flag_of_incr (he ▸ hs)) hc
    obtain ⟨u, -, hu⟩ := hsync
    have hread : P.performed r y = some (.load (winBase 0)) := by
      rw [performed_of_performs hp]
      have := hs
      rw [stmtAt, hp.item, Option.bind_some] at this
      exact this
    have huy := (hu h hr).2 y hy r hread
    exact .inl (HB.trans hr ((hu h hr).1 huy.mem.1 _ _ _ _ hm) huy)

/-- **A hybrid program whose reads are synchronized has no race.** -/
theorem raceFree (H : Hybrid P c kc) (hsync : P.Synchronized) : P.system.RaceFree Access.Conf := by
  intro h hr x hx y hy hne m m' hm hm' hconf
  rcases access_cases hm with ⟨r, it, s, hp, hact, hs, hms⟩ | ⟨a, b, i, rfl⟩
  · rcases access_cases hm' with ⟨r', it', s', hp', hact', hs', hms'⟩ | ⟨a, b, i, rfl⟩
    · have hc := hconf
      simp only [Access.Conf, Access.conflicts, Access.overlaps, Bool.and_eq_true, beq_iff_eq] at hc
      obtain rfl : r = r' := by rw [← rank_stmtStep hms, ← rank_stmtStep hms', hc.1.1.1.1]
      have hlt : r < 2 := by
        rw [← H.procs]
        cases hp <;> assumption
      obtain ⟨front, rest, F⟩ := H.forked r hlt
      rcases F.initial_of_conf hs hs' hms hms' hconf with hlt | hlt
      · exact F.ordered hp hlt hp' hact' hne hr hx hy
      · exact (F.ordered hp' hlt hp hact hne.symm hr hy hx).symm
    · exact (H.ordered_transfer hsync hm' hp hs hms hconf.symm hr hy hx).symm
  · rcases access_cases hm' with ⟨r', it', s', hp', hact', hs', hms'⟩ | ⟨a', b', i', rfl⟩
    · exact H.ordered_transfer hsync hm hp' hs' hms' hconf hr hx hy
    · obtain ⟨rfl, rfl, -⟩ := H.transfer hm
      obtain ⟨rfl, rfl, -⟩ := H.transfer hm'
      rcases Nat.lt_trichotomy i i' with hlt | rfl | hlt
      · exact .inl (Run.hb_order hr hy hlt)
      · exact absurd rfl hne
      · exact .inr (Run.hb_order hr hx hlt)

end Hybrid

/-- The only statement with `q` of a text has one position. -/
theorem position_of_textOf {q : Stmt → Bool} (h : textOf q (P.items r) = [s]) :
    ∃ k, P.stmtAt r k = some s ∧ ∀ {j s'}, P.stmtAt r j = some s' → q s' = true → j = k ∧ s' = s := by
  have hmem : s ∈ textOf q ((P.items r).take (P.items r).length) := by
    rw [List.take_length, h]
    exact List.mem_singleton_self s
  obtain ⟨k, hk, hs⟩ := stmtAt_of_mem_take hmem
  refine ⟨k, hs, fun {j s'} hj hq => ?_⟩
  obtain rfl := List.mem_singleton.1 (h ▸ mem_textOf_items hj hq)
  refine ⟨?_, rfl⟩
  -- two positions would be two statements of the text
  by_contra hne
  have split : ∀ {a b : Nat}, a < b → P.stmtAt r a = some s' → P.stmtAt r b = some s' → False := by
    intro a b hab ha hb
    have h1 := mem_textOf_take ha hq hab
    have h2 : s' ∈ textOf q ((P.items r).drop b) := by
      obtain ⟨it, hit, hst⟩ := Option.bind_eq_some_iff.1 hb
      rw [← Nat.add_zero b, ← List.getElem?_drop] at hit
      exact mem_textOf (List.mem_of_getElem? hit) hst hq
    have hlen : (textOf q ((P.items r).take b) ++ textOf q ((P.items r).drop b)).length = 1 := by
      rw [← textOf_append, List.take_append_drop, h]
      rfl
    rw [List.length_append] at hlen
    have := List.length_pos_of_mem h1
    have := List.length_pos_of_mem h2
    omega
  rcases Nat.lt_or_gt_of_ne hne with hlt | hlt
  · exact split hlt hj hs
  · exact split hlt hs hj

end Program

/-! ## The ten templates -/

open Template Program

/-- The parallel region after the text `front` of the initial thread stores nothing and has one task at
most. The text increments nothing. -/
def TeamRegion (team : Nat) (front : List Stmt) (region : List (Item Stmt)) : Prop :=
  front.filter Stmt.increments = [] ∧ ∃ post, region = seq front ++ ⟨.every, .fork⟩ :: post ∧
    textOf Stmt.exclusive post = [] ∧ ∀ more, OneTask team (post ++ seq more)

theorem region_parallel {team : Nat} {body : List (Item Stmt)}
    (hq : textOf Stmt.exclusive body = []) (hno : ∀ it ∈ body, ∀ j, it.who ≠ .task j) :
    TeamRegion team [] (parallel body) := by
  refine ⟨rfl, body ++ barrier, rfl, by rw [textOf_append, hq]; rfl, fun more => .inl ?_⟩
  intro it hit j
  rcases List.mem_append.1 hit with hit | hit
  · rcases List.mem_append.1 hit with hit | hit
    · exact hno it hit j
    · simp only [barrier, List.mem_cons, List.not_mem_nil, or_false] at hit
      rcases hit with rfl | rfl <;> simp
  · exact seq_not_task hit j

theorem region_task {cx : Ctx} {rank : Nat} {body reads : List Stmt}
    (hq : (mySignal ++ body ++ reads).filter Stmt.exclusive = []) :
    TeamRegion cx.team.size (declInit .flag)
      (taskRegion cx rank body fun w => taskwait w ++ on w reads) := by
  obtain ⟨w, hw⟩ : ∃ w : Nat, w = cx.team.single 0 := ⟨_, rfl⟩
  have hlt : w < cx.team.size := hw ▸ (cx.team.single 0).isLt
  refine ⟨rfl, task (.thread w) 0 (mySignal ++ body) ++ on (.thread w) (myWait (cx.rounds rank)) ++
    (taskwait (.thread w) ++ on (.thread w) reads) ++ barrier ++ barrier, ?_, ?_, fun more => .inr ?_⟩
  · rw [hw]
    rfl
  · have h := textOf_taskRegion (q := Stmt.exclusive) (fun _ => rfl) cx rank body
      fun w => taskwait w ++ on w reads
    rw [taskRegion, textOf_append, textOf_seq, List.append_assoc (declInit .flag), List.filter_append,
      List.append_assoc, List.append_cancel_left_eq, parallel, textOf_cons] at h
    rw [hw]
    refine h.trans ?_
    rw [textOf_append, textOf_on]
    simpa [taskwait, textOf, Item.stmt?] using hq
  · refine ⟨w, hlt, on (.task 0) (mySignal ++ body) ++ [⟨.task 0, .taskEnd 0⟩] ++
      (on (.thread w) (myWait (cx.rounds rank)) ++ ((taskwait (.thread w) ++ on (.thread w) reads) ++
        (barrier ++ (barrier ++ seq more)))), by simp [task], ?_, ?_⟩
    · intro it hit
      simp only [taskwait, barrier, List.mem_append, List.mem_cons, List.not_mem_nil, or_false] at hit
      rcases hit with (hit | rfl) | hit | (rfl | hit) | (rfl | rfl) | (rfl | rfl) | hit
      any_goals simp
      all_goals
        obtain ⟨s, hs⟩ := act_on hit
        simp [hs]
    · intro it hit j hj
      simp only [taskwait, barrier, List.mem_append, List.mem_cons, List.not_mem_nil, or_false] at hit
      rcases hit with (hit | rfl) | hit | (rfl | hit) | (rfl | rfl) | (rfl | rfl) | hit
      any_goals simp at hj
      any_goals rw [who_on hit] at hj
      any_goals simp at hj
      all_goals exact hj.symm

section
variable {tp : Template} {cx : Ctx} {region region' : List (Item Stmt)} {front mark : List Stmt}

/-- Rank 0 gets in its region and rank 1 has a sequential text. -/
theorem hybrid_local (halloc : tp.winAllocate = winAllocate)
    (hmain₀ : tp.main cx 0 = localFrame region 0) (hmain₁ : tp.main cx 1 = localFrame region' 1)
    (hreg : TeamRegion cx.team.size front region)
    (hrma : textOf Stmt.isRma region = [mpiGet (winBase 0) 1 0])
    (hfront : front.filter Stmt.isRma = []) : ∃ kc, Hybrid (tp.program cx 2) hybridGet kc := by
  have hits₀ := items_local₀ halloc hmain₀
  have hits₁ := items_local₁ halloc hmain₁
  change (tp.program cx 2).items 0 = _ at hits₀
  change (tp.program cx 2).items 1 = _ at hits₁
  obtain ⟨hplain, post, hregion, hquiet, hone⟩ := hreg
  have hbefore : (hybridBefore ++ front).filter Stmt.increments = [] := by
    rw [List.filter_append, hplain]
    rfl
  have hall : textOf Stmt.isRma ((tp.program cx 2).items 0) = [.rma hybridGet] := by
    rw [hits₀, textOf_append, textOf_append, hrma]
    rfl
  obtain ⟨kc, hkc, honly⟩ := position_of_textOf hall
  have F₀ : Forked (tp.program cx 2) 0 (hybridBefore ++ front)
      (⟨.every, .fork⟩ :: (post ++ seq (mpiBarrier ++ epilogue))) := by
    refine forked_region ?_ hbefore (hone _) ?_
    · rw [hits₀, hregion]
      simp [seq_append]
    · rw [textOf_append, hquiet]
      rfl
  have hlate : (hybridBefore ++ front).length ≤ kc := by
    by_contra hlt
    obtain ⟨it, hit, hst⟩ := Option.bind_eq_some_iff.1 hkc
    rw [F₀.items, getElem?_seq_left (Nat.lt_of_not_le hlt), Option.map_eq_some_iff] at hit
    obtain ⟨s, hs, rfl⟩ := hit
    obtain rfl : s = .rma hybridGet := Option.some.inj hst
    have hmem : Stmt.rma hybridGet ∈ (hybridBefore ++ front).filter Stmt.isRma :=
      List.mem_filter.2 ⟨List.mem_of_getElem? hs, rfl⟩
    rw [List.filter_append, hfront, show hybridBefore.filter Stmt.isRma = [] from rfl] at hmem
    cases hmem
  refine ⟨kc, ⟨rfl, cx.team.pos, .inl rfl, hkc, ?_, ?_, ?_, ?_, ?_⟩⟩
  · intro r k c' hr hc'
    obtain rfl | rfl : r = 0 ∨ r = 1 := by omega
    · exact ⟨rfl, (honly hc' rfl).1⟩
    · have hnone : textOf Stmt.isRma ((tp.program cx 2).items 1) = [] := by rw [hits₁]; rfl
      have hmem := mem_textOf_items (q := Stmt.isRma) hc' rfl
      rw [hnone] at hmem
      cases hmem
  · intro r hr
    obtain rfl | rfl : r = 0 ∨ r = 1 := by omega
    · exact ⟨front, _, F₀⟩
    · exact ⟨_, [], forked_seq (by rw [hits₁, List.append_assoc]) rfl⟩
  · exact fun hs hw => Nat.lt_of_lt_of_le (F₀.store hs hw).1 hlate
  · intro k s hs hw _
    exact lt_of_textOf_take (q := Stmt.writes) (by rw [hits₁]; rfl) hs hw
  · rw [List.length_append] at hlate
    omega

/-- Rank 0 puts and rank 1 reads in its region. -/
theorem hybrid_remote (halloc : tp.winAllocate = winAllocate)
    (hmain₀ : tp.main cx 0 = remoteFrame mark region' 0)
    (hmain₁ : tp.main cx 1 = remoteFrame mark region 1)
    (hreg : TeamRegion cx.team.size front region) (hrma : textOf Stmt.isRma region = [])
    (hmark : mark = [] ∨ mark = [.conflict 1])
    (hflag : ∀ s ∈ front, s.writes = true → s = .store (.var .flag)) :
    ∃ kc, Hybrid (tp.program cx 2) hybridPut kc := by
  have hits₀ := items_remote₀ halloc hmain₀
  have hits₁ := items_remote₁ halloc hmain₁
  change (tp.program cx 2).items 0 = _ at hits₀
  change (tp.program cx 2).items 1 = _ at hits₁
  obtain ⟨hplain, post, hregion, hquiet, hone⟩ := hreg
  have hbefore : (hybridBefore ++ front).filter Stmt.increments = [] := by
    rw [List.filter_append, hplain]
    rfl
  have hall : textOf Stmt.isRma ((tp.program cx 2).items 0) = [.rma hybridPut] := by
    rw [hits₀]
    rcases hmark with rfl | rfl <;> rfl
  obtain ⟨kc, hkc, honly⟩ := position_of_textOf hall
  have hput : kc + 1 = (hybridBefore ++ putInner mark).length := by
    have hat : (tp.program cx 2).stmtAt 0 ((hybridBefore ++ putInner mark).length - 1) =
        some (.rma hybridPut) := by
      rw [stmtAt, hits₀]
      rcases hmark with rfl | rfl <;> rfl
    rw [← (honly hat rfl).1]
    rcases hmark with rfl | rfl <;> rfl
  have F₁ : Forked (tp.program cx 2) 1 (hybridBefore ++ front)
      (⟨.every, .fork⟩ :: (post ++ seq epilogue)) := by
    refine forked_region ?_ hbefore (hone _) ?_
    · rw [hits₁, hregion]
      simp [seq_append]
    · rw [textOf_append, hquiet]
      rfl
  refine ⟨kc, ⟨rfl, cx.team.pos, .inr rfl, hkc, ?_, ?_, ?_, ?_, ?_⟩⟩
  · intro r k c' hr hc'
    obtain rfl | rfl : r = 0 ∨ r = 1 := by omega
    · exact ⟨rfl, (honly hc' rfl).1⟩
    · have hnone : textOf Stmt.isRma ((tp.program cx 2).items 1) = [] := by
        rw [hits₁, textOf_append, textOf_append, hrma]
        rfl
      have hmem := mem_textOf_items (q := Stmt.isRma) hc' rfl
      rw [hnone] at hmem
      cases hmem
  · intro r hr
    obtain rfl | rfl : r = 0 ∨ r = 1 := by omega
    · refine ⟨_, [], forked_seq (by rw [hits₀, List.append_assoc]) ?_⟩
      rcases hmark with rfl | rfl <;> rfl
    · exact ⟨front, _, F₁⟩
  · intro k s hs hw
    have hlt : k < (hybridBefore ++ putInner mark).length - 1 :=
      lt_of_textOf_take (q := Stmt.writes)
        (by rw [hits₀]; rcases hmark with rfl | rfl <;> rfl) hs hw
    omega
  · intro k s hs hw hne
    obtain ⟨-, hpre⟩ := F₁.store hs hw
    by_contra hge
    rw [List.getElem?_append_right (Nat.le_of_not_lt hge)] at hpre
    exact hne (hflag s (List.mem_of_getElem? hpre) hw)
  · have : (hybridBefore ++ putInner mark).length = hybridBefore.length + (putInner mark).length :=
      List.length_append
    have : 0 < (putInner mark).length := by
      rw [putInner, List.length_append]
      exact Nat.succ_pos _
    omega

end

section
variable (T : Team) {inner reads : List Stmt} (hq : (inner ++ reads).filter Stmt.exclusive = [])
include hq

theorem quiet_append : inner.filter Stmt.exclusive = [] ∧ reads.filter Stmt.exclusive = [] := by
  rw [List.filter_append] at hq
  exact List.append_eq_nil_iff.1 hq

theorem region_master : TeamRegion T.size [] (parallel (master inner ++ barrier ++ each reads)) := by
  obtain ⟨hi, hr⟩ := quiet_append hq
  refine region_parallel ?_ fun it hit j => ?_
  · rw [textOf_append, textOf_append, master, each, textOf_on, textOf_on, hi, hr]
    rfl
  · simp only [master, each, barrier, List.mem_append, List.mem_cons, List.not_mem_nil, or_false] at hit
    rcases hit with (hit | rfl | rfl) | hit
    any_goals rw [who_on hit]
    all_goals simp

theorem region_single :
    TeamRegion T.size [] (parallel (single T 0 (fun w => on w inner) ++ each reads)) := by
  obtain ⟨hi, hr⟩ := quiet_append hq
  refine region_parallel ?_ fun it hit j => ?_
  · rw [single, singleNowait, textOf_append, textOf_append, each, textOf_on, textOf_on, hi, hr]
    rfl
  · simp only [single, singleNowait, each, barrier, List.mem_append, List.mem_cons, List.not_mem_nil,
      or_false] at hit
    rcases hit with (hit | rfl | rfl) | hit
    any_goals rw [who_on hit]
    all_goals simp

theorem region_sections :
    TeamRegion T.size [] (parallel (sections T 0 [inner] ++ sections T 1 [reads])) := by
  obtain ⟨hi, hr⟩ := quiet_append hq
  have hone : ∀ k (ss : List Stmt), sections T k [ss] = on (.thread (T.section_ k 0)) ss ++ barrier :=
    fun k ss => by simp [sections]
  rw [hone, hone]
  refine region_parallel ?_ fun it hit j => ?_
  · rw [textOf_append, textOf_append, textOf_append, textOf_on, textOf_on, hi, hr]
    rfl
  · simp only [barrier, List.mem_append, List.mem_cons, List.not_mem_nil, or_false] at hit
    rcases hit with (hit | rfl | rfl) | hit | rfl | rfl
    any_goals rw [who_on hit]
    all_goals simp

theorem region_ordered : TeamRegion T.size []
    (parallel (forOrdered T 0 2 fun i => if i = 0 then inner else reads)) := by
  obtain ⟨hi, hr⟩ := quiet_append hq
  have hbody : forOrdered T 0 2 (fun i => if i = 0 then inner else reads) =
      ⟨.thread (T.iter 0 0), .orderedBegin 0 0⟩ :: (on (.thread (T.iter 0 0)) inner ++
        ⟨.thread (T.iter 0 0), .orderedEnd 0 0⟩ :: ⟨.thread (T.iter 0 1), .orderedBegin 0 1⟩ ::
          (on (.thread (T.iter 0 1)) reads ++ ⟨.thread (T.iter 0 1), .orderedEnd 0 1⟩ :: barrier)) := by
    simp [forOrdered, List.range_succ]
  rw [hbody]
  refine region_parallel ?_ fun it hit j => ?_
  · rw [textOf_cons, textOf_append, textOf_cons, textOf_cons, textOf_append, textOf_cons, textOf_on,
      textOf_on, hi, hr]
    rfl
  · simp only [barrier, List.mem_append, List.mem_cons, List.not_mem_nil, or_false] at hit
    rcases hit with rfl | hit | rfl | rfl | hit | rfl | rfl | rfl
    any_goals rw [who_on hit]
    all_goals simp

end

theorem raceFree_of_hybrid {tp : Template} {cx : Ctx} {c : Rma} (hs : Synchronizes tp cx)
    (H : ∃ kc, Hybrid (tp.program cx 2) c kc) : (tp.program cx 2).system.RaceFree Access.Conf := by
  obtain ⟨kc, H⟩ := H
  exact H.raceFree hs.1

section
variable (cx : Ctx)

theorem raceFree_master :
    (hybridMasterLocalNo.program cx 2).system.RaceFree Access.Conf ∧
      (hybridMasterRemoteNo.program cx 2).system.RaceFree Access.Conf := by
  constructor
  · exact raceFree_of_hybrid (synchronizes_master cx).1
      (hybrid_local rfl rfl rfl (region_master cx.team rfl) rfl rfl)
  · exact raceFree_of_hybrid (synchronizes_master cx).2
      (hybrid_remote rfl rfl rfl (region_master cx.team rfl) rfl (.inl rfl) (by simp))

theorem raceFree_single :
    (hybridSingleLocalNo.program cx 2).system.RaceFree Access.Conf ∧
      (hybridSingleRemoteNo.program cx 2).system.RaceFree Access.Conf := by
  constructor
  · exact raceFree_of_hybrid (synchronizes_single cx).1
      (hybrid_local rfl rfl rfl (region_single cx.team rfl) rfl rfl)
  · exact raceFree_of_hybrid (synchronizes_single cx).2
      (hybrid_remote rfl rfl rfl (region_single cx.team rfl) rfl (.inl rfl) (by simp))

theorem raceFree_section :
    (hybridSectionLocalNo.program cx 2).system.RaceFree Access.Conf ∧
      (hybridSectionRemoteNo.program cx 2).system.RaceFree Access.Conf := by
  constructor
  · exact raceFree_of_hybrid (synchronizes_section cx).1
      (hybrid_local rfl rfl rfl (region_sections cx.team rfl) rfl rfl)
  · exact raceFree_of_hybrid (synchronizes_section cx).2
      (hybrid_remote rfl rfl rfl (region_sections cx.team rfl) rfl (.inl rfl) (by simp))

theorem raceFree_ordered :
    (hybridOrderedLocalNo.program cx 2).system.RaceFree Access.Conf ∧
      (hybridOrderedRemoteNo.program cx 2).system.RaceFree Access.Conf := by
  constructor
  · exact raceFree_of_hybrid (synchronizes_ordered cx).1
      (hybrid_local rfl rfl rfl (region_ordered cx.team rfl) rfl rfl)
  · exact raceFree_of_hybrid (synchronizes_ordered cx).2
      (hybrid_remote rfl rfl rfl (region_ordered cx.team rfl) rfl (.inr rfl) (by simp))

theorem raceFree_task :
    (hybridTaskLocalNo.program cx 2).system.RaceFree Access.Conf ∧
      (hybridTaskRemoteNo.program cx 2).system.RaceFree Access.Conf := by
  constructor
  · refine raceFree_of_hybrid (synchronizes_task cx).1
      (hybrid_local rfl rfl rfl (region_task rfl) ?_ rfl)
    rw [textOf_taskRegion fun _ => rfl]
    rfl
  · refine raceFree_of_hybrid (synchronizes_task cx).2
      (hybrid_remote rfl rfl rfl (region_task rfl) ?_ (.inl rfl) ?_)
    · rw [textOf_taskRegion fun _ => rfl]
      rfl
    · simp [declInit, Stmt.writes]

end

/-- **The hybrid programs without a race**, for any team, any assignment of the constructs to its threads
and any numbers of polling rounds. -/
theorem hybridNo_raceFree : ∀ tp ∈ hybridNo, ∀ cx,
    (tp.program cx 2).system.RaceFree Access.Conf := by
  intro tp htp cx
  simp only [hybridNo, List.mem_cons, List.not_mem_nil, or_false] at htp
  rcases htp with rfl | rfl | rfl | rfl | rfl | rfl | rfl | rfl | rfl | rfl
  · exact (raceFree_master cx).1
  · exact (raceFree_master cx).2
  · exact (raceFree_single cx).1
  · exact (raceFree_single cx).2
  · exact (raceFree_section cx).1
  · exact (raceFree_section cx).2
  · exact (raceFree_ordered cx).1
  · exact (raceFree_ordered cx).2
  · exact (raceFree_task cx).1
  · exact (raceFree_task cx).2

end Mpi
