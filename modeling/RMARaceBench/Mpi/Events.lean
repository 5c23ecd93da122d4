import RMARaceBench.Mpi.Facts
import RMARaceBench.Causal.Text

/-!
# Who performs and who signals what

`Performs P x r it`: the event `x` is rank `r` performing the item `it` of its text. From it, the
orders that hold in every run of every MPI program: an OpenMP barrier (`must_team`), a finished task
(`must_taskDone`), an ordered region (`must_ordered`) and an MPI barrier (`must_bar`).
-/

set_option autoImplicit false

namespace Mpi

open Causal Causal.System Omp

/-- The one actor of rank `r` that executes an item, unless it is for every thread. -/
def actorOf (r : Nat) : Who → Option Actor
  | .initial => some (.thread r 0)
  | .thread τ => some (.thread r τ)
  | .task j => some (.task r j)
  | .every => none

/-- `w` is a thread of a team of `t`, or a task. -/
def Within (t : Nat) : Who → Prop
  | .thread τ => τ < t
  | _ => True

/-- The thread number that the step of an actor is computed with. -/
def Actor.tid : Actor → Nat
  | .thread _ tid => tid
  | _ => 0

/-- A token that neither a transfer nor a lock request signals. -/
def Token.ofText : Token → Bool
  | .localDone _ _ | .done _ _ | .granted _ _ => false
  | _ => true

namespace Program

variable {P : Program} {r r' tid j k l i c : Nat} {x y : Event Actor} {t : Token} {it : Item Stmt}

/-- The event `x` is rank `r` performing the item `it` of its text. -/
inductive Performs (P : Program) : Event Actor → Nat → Item Stmt → Prop
  | thread {r tid k : Nat} {it : Item Stmt} : r < P.procs → tid < P.team →
      (P.items r)[k]? = some it → it.who.runs tid = true → Performs P (.thread r tid, k) r it
  | task {r j k : Nat} {it : Item Stmt} : r < P.procs → (P.items r)[k]? = some it →
      it.who = .task j → Performs P (.task r j, k) r it

theorem Performs.item (h : P.Performs x r it) : (P.items r)[x.2]? = some it := by
  cases h with
  | thread _ _ hit _ => exact hit
  | task _ hit _ => exact hit

theorem Performs.step (h : P.Performs x r it) :
    P.system.step x = some (P.actStep r (Actor.tid x.1) x.2 it.act) := by
  cases h with
  | thread hr ht hit hw => exact step_thread.2 ⟨hr, ht, it, hit, by rw [if_pos hw]; rfl⟩
  | task hr hit hw => exact step_task.2 ⟨hr, it, hit, by rw [if_pos hw]; rfl⟩

theorem Performs.signals (h : P.Performs x r it)
    (ht : t ∈ (P.actStep r (Actor.tid x.1) x.2 it.act).signals) : P.system.Signals x t :=
  ⟨_, h.step, ht⟩

theorem Performs.waits (h : P.Performs x r it)
    (ht : t ∈ (P.actStep r (Actor.tid x.1) x.2 it.act).waits) : P.system.Waits x t :=
  ⟨_, h.step, ht⟩

/-- An item for one actor is performed by that actor. -/
theorem Performs.actor (h : P.Performs x r it) {a : Actor} (ha : actorOf r it.who = some a) :
    x.1 = a := by
  cases h with
  | thread _ _ _ hw =>
    cases hwho : it.who with
    | every => rw [hwho] at ha; cases ha
    | task j => rw [hwho] at hw; cases hw
    | initial =>
      rw [hwho] at ha hw
      cases ha
      simp only [Who.runs, beq_iff_eq] at hw
      rw [hw]
    | thread τ =>
      rw [hwho] at ha hw
      cases ha
      simp only [Who.runs, beq_iff_eq] at hw
      rw [hw]
  | task _ _ hw =>
    rw [hw] at ha
    cases ha
    rfl

/-- The actor of an item performs it. -/
theorem performs_of_actor (hr : r < P.procs) (h0 : 0 < P.team) (hit : (P.items r)[k]? = some it)
    (hw : Within P.team it.who) {a : Actor} (ha : actorOf r it.who = some a) :
    P.Performs (a, k) r it := by
  cases hwho : it.who with
  | every => rw [hwho] at ha; cases ha
  | initial =>
    rw [hwho] at ha
    cases ha
    exact .thread hr h0 hit (by rw [hwho]; rfl)
  | thread τ =>
    rw [hwho] at ha hw
    cases ha
    exact .thread hr hw hit (by rw [hwho]; simp [Who.runs])
  | task j =>
    rw [hwho] at ha
    cases ha
    exact .task hr hit hwho

theorem performs_every (hr : r < P.procs) (ht : tid < P.team) {a : Act Stmt}
    (hit : (P.items r)[k]? = some ⟨.every, a⟩) : P.Performs (.thread r tid, k) r ⟨.every, a⟩ :=
  .thread hr ht hit rfl

/-! ## Signals of threads and tasks -/

/-- A token of the text is signalled by an event that performs an item. -/
theorem performs_of_signals (h : P.system.Signals x t) (ht : Token.ofText t = true) :
    ∃ r it, P.Performs x r it ∧ t ∈ (P.actStep r (Actor.tid x.1) x.2 it.act).signals := by
  obtain ⟨a, k⟩ := x
  cases a with
  | thread r tid =>
    obtain ⟨hr, htid, it, hit, hw, hts⟩ := signals_thread h
    exact ⟨r, it, .thread hr htid hit hw, hts⟩
  | task r j =>
    obtain ⟨hr, it, hit, hw, hts⟩ := signals_task h
    exact ⟨r, it, .task hr hit hw, hts⟩
  | op r k => rcases signals_op h with rfl | rfl <;> cases ht
  | grant r k =>
    rw [signals_grant h] at ht
    cases ht

/-- What the item `a` at position `k` is when it signals a token of one of these kinds. -/
def Emits (P : Program) (r tid k : Nat) (a : Act Stmt) : Token → Prop
  | .bar r' c => a = .stmt .barrierEnter ∧ r' = r ∧ c = P.countBefore r k (· == .barrierEnter)
  | .team r' l j => a = .enter ∧ r' = r ∧ l = k ∧ j = tid
  | .taskDone r' j => a = .taskEnd j ∧ r' = r
  | .ordered r' l i => a = .orderedEnd l i ∧ r' = r
  | _ => True

theorem emitted_of_stmtStep {s : Stmt} (h : t ∈ (P.stmtStep r k s).signals) :
    P.Emits r tid k (.stmt s) t ∧ Token.ofText t = true := by
  cases s
  case unlock =>
    simp only [stmtStep] at h
    split at h
    · rw [List.mem_singleton.1 h]
      exact ⟨trivial, rfl⟩
    · simp at h
  case unlockAll =>
    simp only [stmtStep] at h
    split at h
    · rw [List.mem_singleton.1 h]
      exact ⟨trivial, rfl⟩
    · simp at h
  case complete =>
    simp only [stmtStep, List.mem_flatMap, List.mem_map] at h
    obtain ⟨j, -, o, -, rfl⟩ := h
    exact ⟨trivial, rfl⟩
  case post =>
    simp only [stmtStep, List.mem_map] at h
    obtain ⟨o, -, rfl⟩ := h
    exact ⟨trivial, rfl⟩
  all_goals simp only [stmtStep, List.not_mem_nil, List.mem_singleton] at h
  all_goals subst h; simp [Emits, Token.ofText]

/-- **The kinds of tokens that items signal.** Neither threads nor tasks signal for a transfer or a lock
request. -/
theorem emitted_of_actStep {a : Act Stmt} (h : t ∈ (P.actStep r tid k a).signals) :
    P.Emits r tid k a t ∧ Token.ofText t = true := by
  cases a with
  | stmt s => exact emitted_of_stmtStep h
  | fork =>
    simp only [actStep] at h
    split at h
    · rw [List.mem_singleton.1 h]
      exact ⟨trivial, rfl⟩
    · simp at h
  | enter =>
    rw [List.mem_singleton.1 h]
    exact ⟨⟨rfl, rfl, rfl, rfl⟩, rfl⟩
  | orderedEnd =>
    rw [List.mem_singleton.1 h]
    exact ⟨⟨rfl, rfl⟩, rfl⟩
  | taskCreate =>
    rw [List.mem_singleton.1 h]
    exact ⟨trivial, rfl⟩
  | taskEnd =>
    rw [List.mem_singleton.1 h]
    exact ⟨⟨rfl, rfl⟩, rfl⟩
  | _ => simp [actStep] at h

theorem emits_of_actStep {a : Act Stmt} (h : t ∈ (P.actStep r tid k a).signals) :
    P.Emits r tid k a t := (emitted_of_actStep h).1

/-- A transfer is complete after its last access. -/
theorem le_of_signals_done {m : Access} (hd : P.system.Signals x (.done r k))
    (hm : P.system.Accesses (.op r k, i) m) : ∃ j, x = (.op r k, j) ∧ i ≤ j := by
  obtain ⟨a, j⟩ := x
  cases a with
  | thread r' tid =>
    obtain ⟨-, -, it, -, -, hts⟩ := signals_thread hd
    cases (emitted_of_actStep hts).2
  | task r' j' =>
    obtain ⟨-, it, -, -, hts⟩ := signals_task hd
    cases (emitted_of_actStep hts).2
  | grant r' k' => cases signals_grant hd
  | op r' k' =>
    obtain ⟨s, hs, hts⟩ := hd
    obtain ⟨-, c, hc, hop⟩ := step_op.1 hs
    obtain ⟨s', hs', hms⟩ := hm
    obtain ⟨-, c', hc', hop'⟩ := step_op.1 hs'
    rcases opCode_cases hop with ⟨rfl, rfl⟩ | ⟨rfl, rfl⟩ | ⟨rfl, rfl⟩
    · simp only at hts
      split at hts <;> simp at hts
    · simp only at hts
      split at hts
      · rename_i hnone
        obtain ⟨rfl, rfl⟩ : r = r' ∧ k = k' := by simpa using hts
        rw [hc] at hc'
        obtain rfl : c = c' := by simpa using hc'
        refine ⟨1, rfl, ?_⟩
        rcases opCode_cases hop' with ⟨rfl, rfl⟩ | ⟨rfl, rfl⟩ | ⟨rfl, rfl⟩
        · decide
        · decide
        · rw [Option.isNone_iff_eq_none.1 hnone] at hms
          simp at hms
      · simp at hts
    · simp only at hts
      split at hts
      · obtain ⟨rfl, rfl⟩ : r = r' ∧ k = k' := by simpa using hts
        refine ⟨2, rfl, ?_⟩
        rcases opCode_cases hop' with ⟨rfl, -⟩ | ⟨rfl, -⟩ | ⟨rfl, -⟩ <;> decide
      · simp at hts

/-! ## Orders -/

/-- Before two positions with `p` stand different numbers of such positions. -/
theorem countBefore_inj {p : Stmt → Bool} {s s' : Stmt} (hk : P.stmtAt r k = some s)
    (hs : p s = true) (hi : P.stmtAt r i = some s') (hs' : p s' = true)
    (h : P.countBefore r k p = P.countBefore r i p) : k = i := by
  obtain ⟨it, hit, hst⟩ := Option.bind_eq_some_iff.1 hk
  obtain ⟨it', hit', hst'⟩ := Option.bind_eq_some_iff.1 hi
  exact Text.countBefore_inj hit (by rw [hst]; exact hs) hit' (by rw [hst']; exact hs') h

/-- **A barrier of the team**: what a thread does before it happens before what a thread does after
it. -/
theorem must_team (hr : r < P.procs) {τ τ' : Nat} (hτ : τ < P.team) (hτ' : τ' < P.team)
    (he : (P.items r)[l]? = some ⟨.every, .enter⟩) (hl : (P.items r)[l + 1]? = some ⟨.every, .leave⟩)
    {i j : Nat} (hi : i ≤ l) (hj : l + 1 ≤ j) :
    Must P.system (.thread r τ, i) (.thread r τ', j) := by
  have hent := performs_every hr hτ he
  have hsole : P.system.Sole (.thread r τ, l) (.team r l τ) := by
    intro y hy
    obtain ⟨r', it, hp, hsig⟩ := performs_of_signals hy rfl
    obtain ⟨-, rfl, hly, htid⟩ := emits_of_actStep hsig
    cases hp with
    | thread _ _ _ _ =>
      obtain rfl : l = _ := hly
      obtain rfl : τ = _ := htid
      rfl
    | task _ hit hw =>
      obtain rfl : l = _ := hly
      rw [he] at hit
      cases hit
      cases hw
  refine Must.hop hsole ((performs_every hr hτ' hl).waits ?_) hi hj
  simp [actStep, hτ]

/-- **A finished task** happens before what follows a wait for it. -/
theorem must_taskDone {e : Nat} {a : Actor}
    (huniq : ∀ e' it, (P.items r)[e']? = some it → it.act = .taskEnd j → e' = e ∧ it.who = .task j)
    (hp : P.Performs (a, l) r it) (hact : it.act = .leave ∨ it.act = .taskWait)
    (hj : j ∈ P.tasksBefore r l) {i k : Nat} (hi : i ≤ e) (hk : l ≤ k) :
    Must P.system (.task r j, i) (a, k) := by
  have hsole : P.system.Sole (.task r j, e) (.taskDone r j) := by
    intro y hy
    obtain ⟨r', it', hp', hsig⟩ := performs_of_signals hy rfl
    obtain ⟨hact', rfl⟩ := emits_of_actStep hsig
    obtain ⟨hy2, hw⟩ := huniq y.2 it' hp'.item hact'
    have hy1 : y.1 = .task r j := hp'.actor (by rw [hw]; rfl)
    rw [← hy1, ← hy2]
  refine Must.hop hsole (hp.waits ?_) hi hk
  rcases hact with hact | hact
  · rw [hact]
    exact List.mem_append_right _ (List.mem_map_of_mem hj)
  · rw [hact]
    exact List.mem_map_of_mem hj

/-- **The regions of an ordered loop** happen in the order of the iterations. -/
theorem must_ordered {e b τ τ' : Nat} (hr : r < P.procs) (hτ' : τ' < P.team)
    (hb : (P.items r)[b]? = some ⟨.thread τ', .orderedBegin l (i + 1)⟩)
    (huniq : ∀ e' it, (P.items r)[e']? = some it → it.act = .orderedEnd l i →
      e' = e ∧ it.who = .thread τ) {k j : Nat} (hk : k ≤ e) (hj : b ≤ j) :
    Must P.system (.thread r τ, k) (.thread r τ', j) := by
  have hsole : P.system.Sole (.thread r τ, e) (.ordered r l i) := by
    intro y hy
    obtain ⟨r', it', hp', hsig⟩ := performs_of_signals hy rfl
    obtain ⟨hact', rfl⟩ := emits_of_actStep hsig
    obtain ⟨hy2, hw⟩ := huniq y.2 it' hp'.item hact'
    have hy1 : y.1 = .thread r τ := hp'.actor (by rw [hw]; rfl)
    rw [← hy1, ← hy2]
  have hp : P.Performs (.thread r τ', b) r ⟨.thread τ', .orderedBegin l (i + 1)⟩ :=
    .thread hr hτ' hb (by simp [Who.runs])
  refine Must.hop hsole (hp.waits ?_) hk hj
  simp [actStep]

/-- Across a barrier that stands in a text. -/
theorem must_barrier {pre post : List (Item Stmt)} (hr : r < P.procs)
    (hits : P.items r = pre ++ (barrier ++ post)) {τ τ' : Nat} (hτ : τ < P.team) (hτ' : τ' < P.team)
    {i j : Nat} (hi : i ≤ pre.length) (hj : pre.length < j) :
    Must P.system (.thread r τ, i) (.thread r τ', j) :=
  must_team hr hτ hτ' (by simp [hits, barrier]) (by simp [hits, barrier]) hi hj

/-- From a task that stands in a text to what follows a wait for it. -/
theorem must_task {pre post : List (Item Stmt)} {a : Actor}
    (hits : P.items r = pre ++ ⟨.task j, .taskEnd j⟩ :: post)
    (hpre : ∀ z ∈ pre, z.act ≠ .taskEnd j) (hpost : ∀ z ∈ post, z.act ≠ .taskEnd j)
    (hcreate : ∃ z ∈ pre, z.act = .taskCreate j) (hp : P.Performs (a, l) r it)
    (hact : it.act = .leave ∨ it.act = .taskWait) (hl : pre.length < l) {i k : Nat}
    (hi : i ≤ pre.length) (hk : l ≤ k) : Must P.system (.task r j, i) (a, k) := by
  refine must_taskDone (e := pre.length) (fun e' it' hit hact' => ?_) hp hact ?_ hi hk
  · rw [hits] at hit
    obtain ⟨he, rfl⟩ := Text.at_of_split (q := fun z => z.act = .taskEnd j) hpre hpost hit hact'
    exact ⟨he, rfl⟩
  · obtain ⟨z, hz, hza⟩ := hcreate
    refine List.mem_filterMap.2 ⟨z, ?_, by rw [hza]⟩
    rw [hits, List.take_append]
    exact List.mem_append_left _ (by rw [List.take_of_length_le (Nat.le_of_lt hl)]; exact hz)

/-- **A barrier of all processes.** -/
theorem must_bar {a a' : Actor} {r' e b : Nat} {it it' : Item Stmt} (hp : P.Performs (a, e) r it)
    (hact : it.act = .stmt .barrierEnter) (hwho : actorOf r it.who = some a)
    (hp' : P.Performs (a', b) r' it') (hact' : it'.act = .stmt .barrierLeave)
    (hcount : P.countBefore r e (· == .barrierEnter) = P.countBefore r' b (· == .barrierLeave))
    {i j : Nat} (hi : i ≤ e) (hj : b ≤ j) : Must P.system (a, i) (a', j) := by
  have hr : r < P.procs := by cases hp <;> assumption
  have hst : ∀ {x : Event Actor} {it : Item Stmt}, P.Performs x r it → it.act = .stmt .barrierEnter →
      P.stmtAt r x.2 = some .barrierEnter := fun hp ha => by
    rw [stmtAt, hp.item, Option.bind_some, Item.stmt?, ha]
  have hsole : P.system.Sole (a, e) (.bar r (P.countBefore r e (· == .barrierEnter))) := by
    intro y hy
    obtain ⟨r', it', hpy, hsig⟩ := performs_of_signals hy rfl
    obtain ⟨hacty, rfl, hc⟩ := emits_of_actStep hsig
    have hey : y.2 = e := (countBefore_inj (hst hp hact) rfl (hst hpy hacty) rfl hc).symm
    have hit : it' = it := by
      have h1 := hpy.item
      rw [hey, hp.item] at h1
      exact (Option.some.inj h1).symm
    have hy1 : y.1 = a := hpy.actor (by rw [hit, hwho])
    rw [← hy1, ← hey]
  refine ((Must.round hsole (List.mem_range.2 hr) (fun t ht => hp'.waits ?_) hcount).order_right
    hj).order_left hi
  rw [hact']
  exact ht

end Program

end Mpi
