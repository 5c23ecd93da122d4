import RMARaceBench.Mpi.Statements

/-!
# RMA epochs

The epochs that a process has open on a window are a state machine (`Epochs.step`): a call that the
MPI standard does not allow in the present state has no next state. `Program.epochs` runs the machine
along the history of a run. `Program.Disciplined`: it never gets stuck, for any run and any rank.

The events that the machine looks at (`Stmt.Epochal`) are performed one after the other in the order
of the text when the steps force them into it (`Program.Chained`). Then a run has performed a prefix of
them, and the discipline follows from running the machine over the text (`disciplined_of_chained`).
-/

set_option autoImplicit false

namespace Mpi

open Causal Causal.System Omp

/-! ## The state machine -/

/-- A fence opens an epoch for what follows; without communication it is none. -/
inductive FenceEpoch
  | closed
  /-- After a fence, before any communication. -/
  | open_
  /-- After a fence and a communication call. -/
  | used
  deriving DecidableEq, Repr

/-- The epochs a process has open on one window. -/
structure Epochs where
  fence : FenceEpoch := .closed
  started : Option (List Nat) := none
  posted : Option (List Nat) := none
  locked : List Nat := []
  lockedAll : Bool := false
  deriving DecidableEq, Repr

namespace Epochs

/-- A passive-target epoch that covers `t`. -/
def passive (s : Epochs) (t : Nat) : Bool := s.lockedAll || decide (t ∈ s.locked)

def anyPassive (s : Epochs) : Bool := s.lockedAll || !s.locked.isEmpty

def startedTo (s : Epochs) (t : Nat) : Bool := s.started.any (t ∈ ·)

/-- No epoch is open, but for a fence without communication. -/
def idle (s : Epochs) : Bool :=
  decide (s.fence ≠ .used) && s.started.isNone && s.posted.isNone && !s.anyPassive

/-- The communication call `c`. -/
def communicate (s : Epochs) (c : Rma) : Option Epochs :=
  if c.isRequest && !s.passive c.target then none
  else if s.passive c.target || s.startedTo c.target then some s
  else if s.fence ≠ .closed then some { s with fence := .used }
  else none

/-- The next state for window `w`, when the call is allowed. -/
def step (w : Win) (s : Epochs) : Stmt → Option Epochs
  | .fenceEnter w' =>
    if w' ≠ w then some s
    else if s.started.isNone && s.posted.isNone && !s.anyPassive then some { s with fence := .closed }
    else none
  | .fenceLeave w' => if w' ≠ w then some s else some { s with fence := .open_ }
  | .lock w' _ t =>
    if w' ≠ w then some s
    else if decide (s.fence ≠ .used) && s.started.isNone && !s.passive t then
      some { s with fence := .closed, locked := t :: s.locked }
    else none
  | .unlock w' t =>
    if w' ≠ w then some s
    else if t ∈ s.locked then some { s with locked := s.locked.erase t } else none
  | .lockAll w' =>
    if w' ≠ w then some s
    else if decide (s.fence ≠ .used) && s.started.isNone && !s.anyPassive then
      some { s with fence := .closed, lockedAll := true }
    else none
  | .unlockAll w' =>
    if w' ≠ w then some s else if s.lockedAll then some { s with lockedAll := false } else none
  | .flush w' t | .flushLocal w' t =>
    if w' ≠ w then some s else if s.passive t then some s else none
  | .flushAll w' | .flushLocalAll w' =>
    if w' ≠ w then some s else if s.anyPassive then some s else none
  | .start w' g =>
    if w' ≠ w then some s
    else if decide (s.fence ≠ .used) && s.started.isNone && !s.anyPassive then
      some { s with fence := .closed, started := some g }
    else none
  | .complete w' =>
    if w' ≠ w then some s else if s.started.isSome then some { s with started := none } else none
  | .post w' g =>
    if w' ≠ w then some s
    else if decide (s.fence ≠ .used) && s.posted.isNone then
      some { s with fence := .closed, posted := some g }
    else none
  | .wait w' =>
    if w' ≠ w then some s else if s.posted.isSome then some { s with posted := none } else none
  | .rma c => if c.win ≠ w then some s else s.communicate c
  | .freeEnter w' => if w' ≠ w then some s else if s.idle then some s else none
  | _ => some s

end Epochs

/-- The statements that the machine looks at. -/
def Stmt.epochal : Stmt → Bool
  | .fenceEnter _ | .fenceLeave _ | .lock _ _ _ | .unlock _ _ | .lockAll _ | .unlockAll _
  | .flush _ _ | .flushLocal _ _ | .flushAll _ | .flushLocalAll _ | .start _ _ | .complete _
  | .post _ _ | .wait _ | .rma _ | .freeEnter _ => true
  | _ => false

theorem Epochs.step_of_not_epochal {s : Stmt} (h : s.epochal = false) (w : Win) (e : Epochs) :
    e.step w s = some e := by
  cases s <;> first | rfl | cases h

/-- The machine over a list of statements. -/
def epochsAfter (w : Win) : List Stmt → Epochs → Option Epochs
  | [], e => some e
  | s :: ss, e => (e.step w s).bind (epochsAfter w ss)

theorem epochsAfter_append (w : Win) : ∀ (ss ss' : List Stmt) (e : Epochs),
    epochsAfter w (ss ++ ss') e = (epochsAfter w ss e).bind (epochsAfter w ss')
  | [], _, _ => rfl
  | s :: ss, ss', e => by
    rw [List.cons_append, epochsAfter, epochsAfter]
    cases e.step w s with
    | none => rfl
    | some e' => exact epochsAfter_append w ss ss' e'

/-- A list that the machine accepts has only prefixes that it accepts. -/
theorem epochsAfter_prefix {w : Win} {ss ss' : List Stmt} {e : Epochs}
    (h : (epochsAfter w (ss ++ ss') e).isSome) : (epochsAfter w ss e).isSome := by
  rw [epochsAfter_append] at h
  cases hss : epochsAfter w ss e with
  | none => rw [hss] at h; cases h
  | some e' => rfl

/-- Only the statements that the machine looks at matter. -/
theorem epochsAfter_filter (w : Win) : ∀ (ss : List Stmt) (e : Epochs),
    epochsAfter w (ss.filter Stmt.epochal) e = epochsAfter w ss e
  | [], _ => rfl
  | s :: ss, e => by
    cases hs : s.epochal with
    | true =>
      rw [List.filter_cons_of_pos hs, epochsAfter, epochsAfter]
      exact congrArg _ (funext fun e' => epochsAfter_filter w ss e')
    | false =>
      rw [List.filter_cons_of_neg (by simp [hs]), epochsAfter, Epochs.step_of_not_epochal hs,
        Option.bind_some]
      exact epochsAfter_filter w ss e

/-! ## Along a run -/

namespace Program

variable (P : Program)

/-- What an event does to the epochs of rank `r` on the window `w`. -/
def epochStep (r : Nat) (w : Win) (x : Event Actor) (e : Epochs) : Option Epochs :=
  match P.performed r x with
  | some s => e.step w s
  | none => some e

/-- The epochs of rank `r` on the window `w` after a history. -/
def epochs (r : Nat) (w : Win) : List (Event Actor) → Option Epochs
  | [] => some {}
  | x :: h => (epochs r w h).bind (P.epochStep r w x)

/-- **The RMA epoch discipline**: in every run every rank makes only calls that are allowed. -/
def Disciplined : Prop := ∀ h, P.system.Run h → ∀ r w, (P.epochs r w h).isSome

/-- Every event of rank `r` that the machine looks at has one actor, and they are performed in the
order of the text. -/
structure Chained (r : Nat) : Prop where
  single : P.Single Stmt.epochal r
  chain : (P.eventsOf Stmt.epochal r).Pairwise fun x y => Must P.system x.1 y.1

variable {P : Program} {r : Nat} {w : Win} {x : Event Actor} {s : Stmt}

/-! ## The text decides -/

theorem epochStep_none (h : P.performed r x = none) (e : Epochs) : P.epochStep r w x e = some e := by
  rw [epochStep, h]

theorem epochStep_some (h : P.performed r x = some s) (e : Epochs) :
    P.epochStep r w x e = e.step w s := by
  rw [epochStep, h]

/-- **The next epochal event** of a run is the first one that has not been performed. -/
theorem Chained.next (hc : P.Chained r) {d t : List (Event Actor × Stmt)} {h : List (Event Actor)}
    (hdt : P.eventsOf Stmt.epochal r = d ++ t) (ht : ∀ p ∈ t, p.1 ∉ h) (hr : P.system.Run (x :: h))
    (hx : (x, s) ∈ t) : ∃ t', t = (x, s) :: t' ∧ ∀ p ∈ t', p.1 ≠ x := by
  obtain ⟨t₁, t', rfl⟩ := List.append_of_mem hx
  have hchain := hc.chain
  rw [hdt, List.pairwise_append] at hchain
  have hself : ¬ Must P.system x x := Must.irrefl hr (.head _)
  cases t₁ with
  | nil =>
    refine ⟨t', rfl, fun p hp heq => hself ?_⟩
    have hlt := List.rel_of_pairwise_cons hchain.2.1 hp
    rw [heq] at hlt
    exact hlt
  | cons p t₁ =>
    -- `p` must precede the new event, but it has not been performed
    exfalso
    have hlt := List.rel_of_pairwise_cons hchain.2.1 (List.mem_append_right t₁ (.head _))
    rcases List.mem_cons.1 (hlt.hb hr (.head _)).mem.1 with heq | hold
    · rw [heq] at hlt
      exact hself hlt
    · exact ht p (.head _) hold

/-- **A run performs the epochal events of a rank in order**: those performed are a prefix of the
list, and the epochs are those of the machine over this prefix. -/
theorem performed_prefix (hc : P.Chained r) (w : Win) {h : List (Event Actor)}
    (hr : P.system.Run h) : ∃ d t, P.eventsOf Stmt.epochal r = d ++ t ∧ (∀ p ∈ t, p.1 ∉ h) ∧
      (∀ p ∈ d, p.1 ∈ h) ∧ P.epochs r w h = epochsAfter w (d.map (·.2)) {} := by
  induction hr with
  | nil => exact ⟨[], P.eventsOf Stmt.epochal r, rfl, by simp, by simp, rfl⟩
  | @step h a st hr hst hy ih =>
    obtain ⟨d, t, hdt, ht, hd, he⟩ := ih
    -- an event that is not epochal changes nothing
    have hkeep : (∀ p ∈ P.eventsOf Stmt.epochal r, p.1 ≠ (a, done h a)) →
        (∀ e, P.epochStep r w (a, done h a) e = some e) →
        ∃ d t, P.eventsOf Stmt.epochal r = d ++ t ∧ (∀ p ∈ t, p.1 ∉ (a, done h a) :: h) ∧
          (∀ p ∈ d, p.1 ∈ (a, done h a) :: h) ∧
          P.epochs r w ((a, done h a) :: h) = epochsAfter w (d.map (·.2)) {} := by
      intro hne hid
      refine ⟨d, t, hdt, fun p hp hmem => ?_, fun p hp => .tail _ (hd p hp), ?_⟩
      · rcases List.mem_cons.1 hmem with heq | hmem
        · exact hne p (hdt ▸ List.mem_append_right _ hp) heq
        · exact ht p hp hmem
      · rw [epochs, he]
        cases epochsAfter w (d.map (·.2)) {} with
        | none => rfl
        | some e => exact hid e
    cases hs : P.performed r (a, done h a) with
    | none =>
      refine hkeep (fun p hp heq => ?_) (epochStep_none hs)
      rw [← heq, (performed_of_mem hp).1] at hs
      cases hs
    | some s =>
      cases hep : s.epochal with
      | false =>
        refine hkeep (fun p hp heq => ?_) fun e => by
          rw [epochStep_some hs, Epochs.step_of_not_epochal hep]
        obtain ⟨hp1, hp2⟩ := performed_of_mem hp
        rw [← heq, hp1] at hs
        rw [Option.some.inj hs, hep] at hp2
        cases hp2
      | true =>
        obtain ⟨it, hp, hits⟩ := performs_of_performed hst hs
        have hmem := mem_of_performs hc.single hp hits hep
        rw [hdt] at hmem
        have hm : ((a, done h a), s) ∈ t := by
          rcases List.mem_append.1 hmem with hm | hm
          · exact absurd (hd _ hm) (Run.fresh hr a)
          · exact hm
        obtain ⟨t', rfl, ht'⟩ := hc.next hdt ht (.step hr hst hy) hm
        refine ⟨d ++ [((a, done h a), s)], t', by simp [hdt], fun p hp' hmem' => ?_,
          fun p hp' => ?_, ?_⟩
        · rcases List.mem_cons.1 hmem' with heq | hold
          · exact ht' p hp' heq
          · exact ht p (.tail _ hp') hold
        · rcases List.mem_append.1 hp' with hp' | hp'
          · exact .tail _ (hd p hp')
          · rw [List.mem_singleton.1 hp']
            exact .head _
        · rw [epochs, he, List.map_append, epochsAfter_append]
          refine congrArg _ (funext fun e => ?_)
          rw [epochStep_some hs, List.map_singleton, epochsAfter]
          cases e.step w s <;> rfl

/-- **Discipline from the text**: when the epochal events of every rank are chained and the machine
accepts the text of every rank, every run keeps to the discipline. -/
theorem disciplined_of_chained (hc : ∀ r < P.procs, P.Chained r)
    (hs : ∀ r < P.procs, ∀ w, (epochsAfter w (textOf Stmt.epochal (P.items r)) {}).isSome) :
    P.Disciplined := by
  intro h hr r w
  by_cases hlt : r < P.procs
  · obtain ⟨d, t, hdt, -, -, he⟩ := performed_prefix (hc r hlt) w hr
    rw [he]
    have hacc := hs r hlt w
    rw [← statements_eventsOf (hc r hlt).single, hdt, List.map_append] at hacc
    exact epochsAfter_prefix hacc
  · have hnone : P.epochs r w h = some {} := by
      induction hr with
      | nil => rfl
      | @step h a st hr hst hy ih =>
        rw [epochs, ih, Option.bind_some, epochStep]
        cases hs : P.performed r (a, done h a) with
        | none => rfl
        | some s =>
          obtain ⟨it, hp, -⟩ := performs_of_performed hst hs
          cases hp <;> exact absurd ‹r < P.procs› hlt
    rw [hnone]
    rfl

/-! ## Which texts are chained -/

theorem chained_of_pairs (hsg : P.Single Stmt.epochal r)
    (hpair : ∀ k l a b s s', k < l → ((a, k), s) ∈ P.eventsOf Stmt.epochal r →
      ((b, l), s') ∈ P.eventsOf Stmt.epochal r → Must P.system (a, k) (b, l)) : P.Chained r := by
  refine ⟨hsg, List.pairwise_iff_forall_sublist.2 fun {x y} hxy => ?_⟩
  exact hpair _ _ _ _ _ _ (List.pairwise_iff_forall_sublist.1 sorted_eventsOf hxy)
    (hxy.subset (.head _)) (hxy.subset (.tail _ (.head _)))

/-- The epochal statements of a text are for `w`. -/
def EpochalBy (w : Who) (its : List (Item Stmt)) : Prop :=
  ∀ it ∈ its, it.stmt?.any Stmt.epochal = true → it.who = w

theorem epochalBy_append {w : Who} {as bs : List (Item Stmt)} (ha : EpochalBy w as)
    (hb : EpochalBy w bs) : EpochalBy w (as ++ bs) := fun it hit =>
  (List.mem_append.1 hit).elim (ha it) (hb it)

theorem epochalBy_on (w : Who) (ss : List Stmt) : EpochalBy w (on w ss) := fun it hit _ => by
  obtain ⟨s, -, rfl⟩ := List.mem_map.1 hit
  rfl

/-- A text without epochal statements. -/
theorem epochalBy_of_text {its : List (Item Stmt)} (h : textOf Stmt.epochal its = []) (w : Who) :
    EpochalBy w its := fun it hit he => by
  obtain ⟨s, hs, hq⟩ := (Option.any_eq_true _ _).1 he
  have := mem_textOf hit hs hq
  rw [h] at this
  simp at this

/-- A text whose epochal statements are for `w`, one after the other. -/
theorem epochalBy_of_whos {its : List (Item Stmt)} {w : Who} {k : Nat}
    (h : (its.filter fun it => it.stmt?.any Stmt.epochal).map Item.who = List.replicate k w) :
    EpochalBy w its := by
  intro it hit he
  have hmem : it.who ∈ (its.filter fun it => it.stmt?.any Stmt.epochal).map Item.who :=
    List.mem_map_of_mem (List.mem_filter.2 ⟨hit, he⟩)
  rw [h] at hmem
  exact List.eq_of_mem_replicate hmem

theorem epochalBy_nil (w : Who) : EpochalBy w [] := fun _ h => absurd h List.not_mem_nil

/-- One actor performs all epochal statements. -/
theorem chained_of_who {w : Who} (hw : w ≠ .every) (h : EpochalBy w (P.items r)) : P.Chained r := by
  refine chained_of_pairs (fun it hit he => by rw [h it hit he]; exact hw) fun k l a b s s' hkl hx hy => ?_
  obtain ⟨it, hit, hs, ha, hq⟩ := mem_eventsOf.1 hx
  obtain ⟨it', hit', hs', hb, hq'⟩ := mem_eventsOf.1 hy
  rw [h it (List.mem_of_getElem? hit) (by rw [hs]; exact hq)] at ha
  rw [h it' (List.mem_of_getElem? hit') (by rw [hs']; exact hq'), ha] at hb
  cases hb
  exact .order hkl

/-- One actor performs those of the parallel region, and all of it happens before what follows. -/
theorem chained_of_region {w : Who} {a : Actor} {pre post : List (Item Stmt)}
    (hits : P.items r = pre ++ post) (ha : actorOf r w = some a) (hpre : EpochalBy w pre)
    (hpost : EpochalBy .initial post) (hbar : ∀ k l s, k < pre.length → pre.length ≤ l →
      ((.thread r 0, l), s) ∈ P.eventsOf Stmt.epochal r →
      Must P.system (a, k) (.thread r 0, l)) : P.Chained r := by
  have hwho : ∀ {k : Nat} {b : Actor} {s : Stmt}, ((b, k), s) ∈ P.eventsOf Stmt.epochal r →
      (k < pre.length ∧ b = a) ∨ (pre.length ≤ k ∧ b = .thread r 0) := by
    intro k b s hx
    obtain ⟨it, hit, hs, hb, hq⟩ := mem_eventsOf.1 hx
    rw [hits] at hit
    rcases Nat.lt_or_ge k pre.length with hk | hk
    · rw [List.getElem?_append_left hk] at hit
      rw [hpre it (List.mem_of_getElem? hit) (by rw [hs]; exact hq), ha] at hb
      exact .inl ⟨hk, (Option.some.inj hb).symm⟩
    · rw [List.getElem?_append_right hk] at hit
      rw [hpost it (List.mem_of_getElem? hit) (by rw [hs]; exact hq)] at hb
      exact .inr ⟨hk, (Option.some.inj hb).symm⟩
  refine chained_of_pairs (fun it hit he => ?_) fun k l b b' s s' hkl hx hy => ?_
  · rw [hits] at hit
    rcases List.mem_append.1 hit with hit | hit
    · rw [hpre it hit he]
      rintro rfl
      cases ha
    · rw [hpost it hit he]
      exact Who.noConfusion
  · rcases hwho hx with ⟨hk, rfl⟩ | ⟨hk, rfl⟩
    · rcases hwho hy with ⟨hl, rfl⟩ | ⟨hl, rfl⟩
      · exact .order hkl
      · exact hbar k l s' hk hl hy
    · rcases hwho hy with ⟨hl, rfl⟩ | ⟨hl, rfl⟩
      · omega
      · exact .order hkl

/-- No epochal event stands in a part of the text without epochal statements. -/
theorem le_of_mem_eventsOf {pre mid post : List (Item Stmt)} (hits : P.items r = pre ++ (mid ++ post))
    (hmid : textOf Stmt.epochal mid = []) {a : Actor} {k : Nat}
    (hx : ((a, k), s) ∈ P.eventsOf Stmt.epochal r) (hk : pre.length ≤ k) :
    pre.length + mid.length ≤ k := by
  by_contra hlt
  obtain ⟨it, hit, hs, -, hq⟩ := mem_eventsOf.1 hx
  rw [hits, List.getElem?_append_right hk, List.getElem?_append_left (by omega)] at hit
  have := mem_textOf (List.mem_of_getElem? hit) hs hq
  rw [hmid] at this
  simp at this

/-- A parallel region whose epochal statements are for one thread. -/
theorem chained_parallel {pre body : List (Item Stmt)} {post : List Stmt} {τ : Nat}
    (hr : r < P.procs) (h0 : 0 < P.team) (hτ : τ < P.team)
    (hits : P.items r = pre ++ (parallel body ++ seq post)) (hpre : textOf Stmt.epochal pre = [])
    (hbody : EpochalBy (.thread τ) body) : P.Chained r := by
  have hits' : P.items r = (pre ++ ⟨.every, .fork⟩ :: body) ++ (barrier ++ seq post) := by
    rw [hits, parallel]
    simp
  refine chained_of_region hits' (w := .thread τ) rfl
    (epochalBy_append (epochalBy_of_text hpre _) ?_) ?_ fun k l s hk hl hx => ?_
  · intro it hit he
    rcases List.mem_cons.1 hit with rfl | hit
    · cases he
    · exact hbody it hit he
  · exact epochalBy_append (epochalBy_of_text rfl _) (epochalBy_on _ _)
  · have hle := le_of_mem_eventsOf hits' rfl hx hl
    have hlen : (@barrier Stmt).length = 2 := rfl
    exact must_barrier hr hits' hτ h0 (Nat.le_of_lt hk) (by omega)

/-- A parallel region whose epochal statements are in a task. -/
theorem chained_task {pre rest : List (Item Stmt)} {ss post : List Stmt} {w : Who} {j : Nat}
    (hr : r < P.procs) (h0 : 0 < P.team)
    (hits : P.items r = pre ++ (parallel (task w j ss ++ rest) ++ seq post))
    (hpre : textOf Stmt.epochal pre = []) (hrest : textOf Stmt.epochal rest = [])
    (hend : ∀ it ∈ pre ++ rest, it.act ≠ .taskEnd j) : P.Chained r := by
  obtain ⟨A, hA⟩ : ∃ A, A = pre ++ [⟨.every, .fork⟩, ⟨w, .taskCreate j⟩, ⟨.task j, .taskBegin j⟩] ++
      on (.task j) ss := ⟨_, rfl⟩
  have hits' : P.items r = (A ++ [⟨.task j, .taskEnd j⟩]) ++
      ((rest ++ barrier) ++ seq post) := by
    rw [hits, hA, parallel, task]
    simp
  have hon : ∀ (w : Who) (ss : List Stmt), ∀ it ∈ on w ss, it.act ≠ .taskEnd j := by
    intro w ss it hit
    obtain ⟨s, -, rfl⟩ := List.mem_map.1 hit
    simp
  refine chained_of_region hits' (w := .task j) rfl ?_ ?_ fun k l s hk hl hx => ?_
  · rw [hA]
    exact epochalBy_append (epochalBy_append (epochalBy_append (epochalBy_of_text hpre _)
      (epochalBy_of_text rfl _)) (epochalBy_on _ _)) (epochalBy_of_text rfl _)
  · exact epochalBy_append (epochalBy_of_text (by rw [textOf_append, hrest]; rfl) _)
      (epochalBy_on _ _)
  · have hle := le_of_mem_eventsOf hits' (by rw [textOf_append, hrest]; rfl) hx hl
    simp only [List.length_append, List.length_singleton] at hk hle
    have hmid : P.items r = (A ++ ([⟨.task j, .taskEnd j⟩] ++ rest ++ [⟨.every, .enter⟩])) ++
        ⟨.every, .leave⟩ :: seq post := by
      simp [hits', barrier]
    have hleave : (P.items r)[A.length + (rest.length + 1 + 1)]? = some ⟨.every, .leave⟩ := by
      rw [hmid, List.getElem?_append_right (by simp)]
      simp
    have hlen : (@barrier Stmt).length = 2 := rfl
    have hsplit : P.items r =
        A ++ ⟨.task j, .taskEnd j⟩ :: ((rest ++ barrier) ++ seq post) := by
      rw [hits', List.append_assoc, List.singleton_append]
    refine must_task hsplit (fun z hz => ?_) (fun z hz => ?_) ?_ (performs_every hr h0 hleave) (.inl rfl) (by omega)
      (by omega) (by omega)
    · simp only [hA, List.mem_append, List.mem_cons, List.not_mem_nil, or_false] at hz
      rcases hz with (hz | rfl | rfl | rfl) | hz
      · exact hend z (List.mem_append_left _ hz)
      · simp
      · simp
      · simp
      · exact hon _ _ z hz
    · simp only [barrier, List.mem_append, List.mem_cons, List.not_mem_nil, or_false] at hz
      rcases hz with (hz | rfl | rfl) | hz
      · exact hend z (List.mem_append_right _ hz)
      · simp
      · simp
      · exact hon _ _ z hz
    · exact ⟨⟨w, .taskCreate j⟩, by simp [hA], rfl⟩

end Program

end Mpi
