import Mathlib.Data.List.Nodup
import Mathlib.Data.String.Basic
import RMARaceBench.Generator.Operations

/-!
# The combination loops of `gen_conflict_races`

The loop over two lists of operations renders a pair unless the sorted pair of short names was
rendered before. `combinationLoop_rendersOnce_iff`: every pair of operations is rendered exactly once
if and only if the short names separate the pairs of the two lists.
-/

set_option autoImplicit false

namespace Generator

/-! ## First elements of each key -/

section Firsts

variable {α κ : Type} [DecidableEq κ] (key : α → κ)

/-- The elements of a list whose key is neither in `seen` nor the key of an earlier element. -/
def firsts : List κ → List α → List α
  | _, [] => []
  | seen, a :: l =>
    if key a ∈ seen then firsts seen l else a :: firsts (key a :: seen) l

theorem firsts_subset {seen : List κ} {l : List α} {a : α} (h : a ∈ firsts key seen l) : a ∈ l := by
  induction l generalizing seen with
  | nil => simp [firsts] at h
  | cons b l ih =>
    unfold firsts at h
    split at h
    · exact List.mem_cons_of_mem b (ih h)
    · rw [List.mem_cons] at h
      obtain rfl | h := h
      · exact List.mem_cons_self
      · exact List.mem_cons_of_mem b (ih h)

theorem firsts_not_seen {seen : List κ} {l : List α} {a : α} (h : a ∈ firsts key seen l) :
    key a ∉ seen := by
  induction l generalizing seen with
  | nil => simp [firsts] at h
  | cons b l ih =>
    unfold firsts at h
    split at h
    · exact ih h
    · next hb =>
      rw [List.mem_cons] at h
      obtain rfl | h := h
      · exact hb
      · intro hs
        exact ih h (List.mem_cons_of_mem _ hs)

/-- No key occurs twice. -/
theorem firsts_keys_nodup (seen : List κ) (l : List α) : ((firsts key seen l).map key).Nodup := by
  induction l generalizing seen with
  | nil => simp [firsts]
  | cons b l ih =>
    unfold firsts
    split
    · exact ih seen
    · rw [List.map_cons, List.nodup_cons]
      refine ⟨fun hm => ?_, ih _⟩
      obtain ⟨a, ha, hk⟩ := List.mem_map.1 hm
      exact firsts_not_seen key ha (hk ▸ List.mem_cons_self)

/-- Every key that is not seen yet is the key of an element that stays. -/
theorem exists_firsts_key {seen : List κ} {l : List α} {a : α} (h : a ∈ l) (hs : key a ∉ seen) :
    ∃ b ∈ firsts key seen l, key b = key a := by
  induction l generalizing seen with
  | nil => simp at h
  | cons c l ih =>
    unfold firsts
    by_cases hk : key a = key c
    · rw [if_neg (hk ▸ hs)]
      exact ⟨c, List.mem_cons_self, hk.symm⟩
    · have hl : a ∈ l := by
        rw [List.mem_cons] at h
        obtain rfl | h := h
        · exact absurd rfl hk
        · exact h
      split
      · exact ih hl hs
      · obtain ⟨b, hb, e⟩ := ih hl (show key a ∉ key c :: seen by simp [hk, hs])
        exact ⟨b, List.mem_cons_of_mem c hb, e⟩

end Firsts

/-! ## The state of the generator -/

inductive Discipline
  | conflict | sync | atomic | hybrid | misc
  deriving DecidableEq, Repr

/-- `CaseCounter`. -/
structure CaseCounter where
  counter : Model → Nat := fun _ => 0
  raceCounter : Model → Nat := fun _ => 0

/-- `CaseCounter.inc_get`. -/
def CaseCounter.incGet (c : CaseCounter) (model : Model) (hasRace : Bool) : Nat × CaseCounter :=
  (c.counter model + 1,
    { counter := fun m => if m = model then c.counter m + 1 else c.counter m
      raceCounter := fun m =>
        if m = model ∧ hasRace then c.raceCounter m + 1 else c.raceCounter m })

/-- A call of `render_template`. -/
structure RenderCall where
  templateFile : String
  number : Nat
  model : Model
  op1 : Option Operation
  op2 : Option Operation
  hasRace : Bool
  nprocs : Nat
  threaded : Bool := false

/-- `caseCounters`, and the calls of `render_template` so far. -/
structure State where
  caseCounters : Discipline → CaseCounter := fun _ => {}
  rendered : List RenderCall := []

/-- `render_template(template_file, caseCounters[d].inc_get(model, has_race), …)`. -/
def State.render (s : State) (d : Discipline) (templateFile : String) (model : Model)
    (op1 op2 : Option Operation) (hasRace : Bool) (nprocs : Nat) (threaded : Bool := false) :
    State :=
  let (number, c) := (s.caseCounters d).incGet model hasRace
  { caseCounters := fun d' => if d' = d then c else s.caseCounters d'
    rendered := s.rendered ++
      [{ templateFile, number, model, op1, op2, hasRace, nprocs, threaded }] }

/-! ## The loop -/

/-- `tuple(sorted([name1, name2]))`. -/
def sortedPair (name1 name2 : String) : String × String :=
  if name2 < name1 then (name2, name1) else (name1, name2)

/-- What one entry of the tables and one model fix in the loop. -/
structure Entry where
  templateFile : String
  model : Model
  hasRace : Bool
  nprocs : Nat

/-- The body of the two loops, on `generated_combos` and the state. -/
def Entry.combine (e : Entry) (acc : List (String × String) × State) (op1 op2 : Operation) :
    List (String × String) × State :=
  if sortedPair op1.name op2.name ∈ acc.1 then acc
  else
    (sortedPair op1.name op2.name :: acc.1,
      acc.2.render .conflict e.templateFile e.model (some op1) (some op2) e.hasRace e.nprocs)

/-- `for op1 in ops1[model]: for op2 in ops2[model]: …`, with an empty `generated_combos`. -/
def Entry.combinationLoop (e : Entry) (ops1 ops2 : List Operation) (s : State) : State :=
  (ops1.foldl (fun acc op1 => ops2.foldl (fun acc op2 => e.combine acc op1 op2) acc) ([], s)).2

/-- The calls of `render_template` that the loop makes. -/
def Entry.calls (e : Entry) (ops1 ops2 : List Operation) (s : State) : List RenderCall :=
  (e.combinationLoop ops1 ops2 s).rendered.drop s.rendered.length

/-! ## What the loop renders -/

/-- The unordered pairs `{a, b}` and `{a', b'}` are the same. -/
def SamePair {α : Type} (a b a' b' : α) : Prop := a = a' ∧ b = b' ∨ a = b' ∧ b = a'

instance {α : Type} [DecidableEq α] (a b a' b' : α) : Decidable (SamePair a b a' b') :=
  inferInstanceAs (Decidable (_ ∨ _))

theorem SamePair.symm {α : Type} {a b a' b' : α} (h : SamePair a b a' b') : SamePair a' b' a b := by
  obtain ⟨rfl, rfl⟩ | ⟨rfl, rfl⟩ := h
  · exact .inl ⟨rfl, rfl⟩
  · exact .inr ⟨rfl, rfl⟩

theorem SamePair.trans {α : Type} {a b a' b' a'' b'' : α} (h : SamePair a b a' b')
    (h' : SamePair a' b' a'' b'') : SamePair a b a'' b'' := by
  obtain ⟨rfl, rfl⟩ | ⟨rfl, rfl⟩ := h
  · exact h'
  · obtain ⟨rfl, rfl⟩ | ⟨rfl, rfl⟩ := h'
    · exact .inr ⟨rfl, rfl⟩
    · exact .inl ⟨rfl, rfl⟩

theorem SamePair.map {α β : Type} (f : α → β) {a b a' b' : α} (h : SamePair a b a' b') :
    SamePair (f a) (f b) (f a') (f b') := by
  obtain ⟨rfl, rfl⟩ | ⟨rfl, rfl⟩ := h
  · exact .inl ⟨rfl, rfl⟩
  · exact .inr ⟨rfl, rfl⟩

/-- The keys of `generated_combos` are the unordered pairs of short names. -/
theorem sortedPair_eq_iff {a b a' b' : String} :
    sortedPair a b = sortedPair a' b' ↔ SamePair a b a' b' := by
  unfold sortedPair SamePair
  constructor
  · intro h
    split at h <;> split at h <;> simp only [Prod.mk.injEq] at h <;> tauto
  · intro h
    obtain ⟨rfl, rfl⟩ | ⟨rfl, rfl⟩ := h
    · rfl
    · split <;> split
      · next h1 h2 => exact absurd h1 (lt_asymm h2)
      · rfl
      · rfl
      · next h1 h2 =>
        have : a = b := le_antisymm (not_lt.1 h1) (not_lt.1 h2)
        rw [this]

/-- The pairs of the two loops, in order. -/
def pairs (ops1 ops2 : List Operation) : List (Operation × Operation) :=
  ops1.flatMap fun a => ops2.map fun b => (a, b)

theorem mem_pairs {ops1 ops2 : List Operation} {a b : Operation} :
    (a, b) ∈ pairs ops1 ops2 ↔ a ∈ ops1 ∧ b ∈ ops2 := by
  simp [pairs]

def pairKey (p : Operation × Operation) : String × String := sortedPair p.1.name p.2.name

theorem SamePair.pairKey {p : Operation × Operation} {a b : Operation}
    (h : SamePair p.1 p.2 a b) : pairKey p = sortedPair a.name b.name :=
  sortedPair_eq_iff.2 (h.map Operation.name)

/-- The operations of a call, as `render_template` gets them. -/
def RenderCall.ops (c : RenderCall) : Option Operation × Option Operation := (c.op1, c.op2)

def RenderCall.Renders (c : RenderCall) (a b : Operation) : Prop :=
  SamePair c.op1 c.op2 (some a) (some b)

instance (c : RenderCall) (a b : Operation) : Decidable (c.Renders a b) :=
  inferInstanceAs (Decidable (SamePair _ _ _ _))

/-- One step: a pair with a new key is rendered, any other pair changes nothing. -/
theorem Entry.combine_cases (e : Entry) (seen : List (String × String)) (s : State)
    (p : Operation × Operation) :
    pairKey p ∈ seen ∧ e.combine (seen, s) p.1 p.2 = (seen, s) ∨
    pairKey p ∉ seen ∧ ∃ c s', e.combine (seen, s) p.1 p.2 = (pairKey p :: seen, s') ∧
      s'.rendered = s.rendered ++ [c] ∧ c.ops = (some p.1, some p.2) := by
  by_cases h : pairKey p ∈ seen
  · exact .inl ⟨h, if_pos h⟩
  · exact .inr ⟨h, _, _, if_neg h, rfl, rfl⟩

/-- The loop renders the first pair of each key. -/
theorem Entry.foldl_combine_rendered (e : Entry) (l : List (Operation × Operation))
    (seen : List (String × String)) (s : State) :
    ∃ cs, (l.foldl (fun acc p => e.combine acc p.1 p.2) (seen, s)).2.rendered = s.rendered ++ cs ∧
      cs.map RenderCall.ops = (firsts pairKey seen l).map fun p => (some p.1, some p.2) := by
  induction l generalizing seen s with
  | nil => exact ⟨[], by simp, rfl⟩
  | cons p l ih =>
    rw [List.foldl_cons]
    unfold firsts
    obtain ⟨hp, he⟩ | ⟨hp, c, s', he, hr, hc⟩ := e.combine_cases seen s p
    · rw [he, if_pos hp]
      exact ih seen s
    · rw [he, if_neg hp]
      obtain ⟨cs, h1, h2⟩ := ih (pairKey p :: seen) s'
      refine ⟨c :: cs, ?_, ?_⟩
      · rw [h1, hr, List.append_assoc, List.singleton_append]
      · rw [List.map_cons, List.map_cons, h2, hc]

theorem Entry.combinationLoop_eq (e : Entry) (ops1 ops2 : List Operation) (s : State) :
    e.combinationLoop ops1 ops2 s =
      ((pairs ops1 ops2).foldl (fun acc p => e.combine acc p.1 p.2) ([], s)).2 := by
  unfold combinationLoop pairs
  simp only [List.foldl_flatMap, List.foldl_map]

theorem Entry.calls_ops (e : Entry) (ops1 ops2 : List Operation) (s : State) :
    (e.calls ops1 ops2 s).map RenderCall.ops =
      (firsts pairKey [] (pairs ops1 ops2)).map fun p => (some p.1, some p.2) := by
  obtain ⟨cs, h1, h2⟩ := e.foldl_combine_rendered (pairs ops1 ops2) [] s
  unfold calls
  rw [e.combinationLoop_eq, h1, List.drop_left, h2]

/-- How often a pair is rendered. -/
def Entry.times (e : Entry) (ops1 ops2 : List Operation) (s : State) (a b : Operation) : Nat :=
  (e.calls ops1 ops2 s).countP fun c => c.Renders a b

theorem Entry.times_eq (e : Entry) (ops1 ops2 : List Operation) (s : State) (a b : Operation) :
    e.times ops1 ops2 s a b =
      (firsts pairKey [] (pairs ops1 ops2)).countP fun p => SamePair p.1 p.2 a b := by
  have h := congrArg (List.countP fun o => decide (SamePair o.1 o.2 (some a) (some b)))
    (e.calls_ops ops1 ops2 s)
  rw [List.countP_map, List.countP_map] at h
  unfold times
  refine h.trans (List.countP_congr fun p _ => ?_)
  rw [Function.comp, decide_eq_true_iff, decide_eq_true_iff]
  simp only [SamePair, Option.some.injEq]

/-- No pair is rendered twice, in either order. -/
theorem Entry.times_le_one (e : Entry) (ops1 ops2 : List Operation) (s : State)
    (a b : Operation) : e.times ops1 ops2 s a b ≤ 1 := by
  rw [e.times_eq]
  generalize firsts_keys_nodup pairKey [] (pairs ops1 ops2) = hn
  generalize firsts pairKey [] (pairs ops1 ops2) = l at hn
  rw [List.countP_eq_length_filter]
  have hk : ∀ p ∈ l.filter (fun p => SamePair p.1 p.2 a b),
      pairKey p = sortedPair a.name b.name := fun p hp =>
    SamePair.pairKey (by simpa using (List.mem_filter.1 hp).2)
  have hf : ((l.filter fun p => SamePair p.1 p.2 a b).map pairKey).Nodup :=
    (List.filter_sublist.map _).nodup hn
  rw [List.map_congr_left hk, List.map_const', List.nodup_replicate] at hf
  exact hf

/-- Every pair of the two lists is rendered exactly once. -/
def Entry.RendersOnce (e : Entry) (ops1 ops2 : List Operation) (s : State) : Prop :=
  ∀ a ∈ ops1, ∀ b ∈ ops2, e.times ops1 ops2 s a b = 1

/-- Two pairs of the lists with the same two short names are the same pair of operations. -/
def NamesSeparate (ops1 ops2 : List Operation) : Prop :=
  ∀ a ∈ ops1, ∀ b ∈ ops2, ∀ a' ∈ ops1, ∀ b' ∈ ops2,
    SamePair a.name b.name a'.name b'.name → SamePair a b a' b'

theorem combinationLoop_rendersOnce_iff (e : Entry) (ops1 ops2 : List Operation) (s : State) :
    e.RendersOnce ops1 ops2 s ↔ NamesSeparate ops1 ops2 := by
  have hmem : ∀ {a b : Operation}, a ∈ ops1 → b ∈ ops2 →
      ∃ p ∈ firsts pairKey [] (pairs ops1 ops2), pairKey p = sortedPair a.name b.name :=
    fun ha hb => exists_firsts_key pairKey (mem_pairs.2 ⟨ha, hb⟩) (by simp)
  constructor
  · intro h a ha b hb a' ha' b' hb' hn
    have hone : ∀ {a b : Operation}, a ∈ ops1 → b ∈ ops2 →
        ∃ p ∈ firsts pairKey [] (pairs ops1 ops2), SamePair p.1 p.2 a b := by
      intro a b ha hb
      have ht := h a ha b hb
      rw [e.times_eq] at ht
      obtain ⟨p, hp, hs⟩ := List.countP_pos_iff.1 (ht ▸ Nat.one_pos)
      exact ⟨p, hp, by simpa using hs⟩
    obtain ⟨p, hp, hsp⟩ := hone ha hb
    obtain ⟨q, hq, hsq⟩ := hone ha' hb'
    have hk : pairKey p = pairKey q := by
      rw [hsp.pairKey, hsq.pairKey, sortedPair_eq_iff.2 hn]
    have : p = q := List.inj_on_of_nodup_map (firsts_keys_nodup pairKey [] _) hp hq hk
    subst this
    exact hsp.symm.trans hsq
  · intro h a ha b hb
    obtain ⟨p, hp, hk⟩ := hmem ha hb
    have hpp := mem_pairs.1 (firsts_subset pairKey hp)
    have hs : SamePair p.1 p.2 a b :=
      h p.1 hpp.1 p.2 hpp.2 a ha b hb (sortedPair_eq_iff.1 hk)
    have hpos : 0 < e.times ops1 ops2 s a b := by
      rw [e.times_eq]
      exact List.countP_pos_iff.2 ⟨p, hp, by simpa using hs⟩
    exact Nat.le_antisymm (e.times_le_one ops1 ops2 s a b) hpos

/-- `gacc1` and `gacc2` have the short name `gacc`: against `local_store` only one is rendered. -/
theorem combinationLoop_drops_gacc2 :
    ¬ Entry.RendersOnce
        ⟨"templates/MPIRMA/conflict/MPI-conflict-op1-op2-local-race.c.j2", .MPIRMA, true, 2⟩
        (["gacc1", "gacc2"].filterMap Model.MPIRMA.get) (["local_store"].filterMap Model.MPIRMA.get)
        {} := by
  unfold Entry.RendersOnce
  decide

end Generator
