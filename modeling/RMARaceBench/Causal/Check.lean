import RMARaceBench.Causal.Must

/-!
# A static race check

`past S core y` computes a clock: for every actor of `core` a number of steps that must precede `y`
in every run (`past_sound`). `raceCheck S core conf` asks for every two conflicting accesses of
actors of `core` that one is in the clock of the other, or that both are made under clashing locks
(`orderedB`). It is run on a small system `S₀` and speaks about every system `S` that contains it
(`Embeds`): the actors of `core` wait at least for the same tokens, and no other actor signals these
tokens or accesses what another actor accesses. `raceFree_of_check` is the soundness of the check.
-/

set_option autoImplicit false

namespace Causal.System

variable {A M T K : Type}

/-! ## Clocks -/

/-- Which event of `core` signals `t`, when there is only one. -/
def soleOf [DecidableEq T] (table : List (T × Event A)) (t : T) : Option (Event A) :=
  match table.filter (·.1 = t) with
  | [p] => some p.2
  | _ => none

/-- What `f` lists of the steps of the actors of `core`, each with its event. -/
def entries {X : Type} (S : System A M T K) (core : List A) (f : Step M T K → List X) :
    List (X × Event A) :=
  core.flatMap fun a => (S.code a).zipIdx.flatMap fun p => (f p.1).map fun t => (t, (a, p.2))

def signalTable (S : System A M T K) (core : List A) : List (T × Event A) :=
  entries S core Step.signals

/-- The steps `lo .. hi` of `a`. -/
def between (S : System A M T K) (a : A) (lo hi : Nat) : List (Step M T K) :=
  ((S.code a).take (hi + 1)).drop lo

/-- Enters the events of `work` with all that must precede them into the clock. -/
def chase [DecidableEq A] [DecidableEq T] (S : System A M T K) (table : List (T × Event A)) :
    Nat → List (Event A) → Clock A → Clock A
  | 0, _, c => c
  | _ + 1, [], c => c
  | fuel + 1, (a, i) :: work, c =>
    if i < c.get a then chase S table fuel work c
    else chase S table fuel
      (((between S a (c.get a) i).flatMap fun s => s.waits.filterMap (soleOf table)) ++ work)
      ((a, i + 1) :: c)

section
variable [DecidableEq A] [DecidableEq T]

/-- The clock of `y`: `y` and the events that must precede it. -/
def past (S : System A M T K) (table : List (T × Event A)) (fuel : Nat) (y : Event A) : Clock A :=
  chase S table fuel [y] []

/-- `x` must precede `y`. -/
def mustB (S : System A M T K) (table : List (T × Event A)) (fuel : Nat) (x y : Event A) : Bool :=
  decide (x.2 < (past S table fuel y).get x.1) && decide (x ≠ y)

end

/-! ## Soundness of the clocks -/

/-- `S` contains `S₀`, whose actors are `core` (module doc). -/
structure Embeds (S₀ S : System A M T K) (core : List A) : Prop where
  waits : ∀ a ∈ core, ∀ i t, S₀.Waits (a, i) t → S.Waits (a, i) t
  signals : ∀ a ∈ core, ∀ i t, S₀.Signals (a, i) t → ∀ y, S.Signals y t →
    y.1 ∈ core ∧ S₀.Signals y t
  takes : ∀ a ∈ core, ∀ i l, S₀.Takes (a, i) l → S.Takes (a, i) l
  accesses : ∀ a ∈ core, ∀ i m, S.Accesses (a, i) m → S₀.Accesses (a, i) m

theorem mem_entries {X : Type} {S : System A M T K} {core : List A} {f : Step M T K → List X} {t : X}
    {x : Event A} :
    (t, x) ∈ entries S core f ↔ x.1 ∈ core ∧ ∃ s, S.step x = some s ∧ t ∈ f s := by
  obtain ⟨b, j⟩ := x
  simp only [entries, List.mem_flatMap, List.mem_map, Prod.mk.injEq, step]
  constructor
  · rintro ⟨a, ha, ⟨s, i⟩, hp, t', ht', rfl, rfl, rfl⟩
    exact ⟨ha, s, List.mem_zipIdx_iff_getElem?.1 hp, ht'⟩
  · rintro ⟨ha, s, hs, ht⟩
    exact ⟨b, ha, (s, j), List.mem_zipIdx_iff_getElem?.2 hs, t, ht, rfl, rfl, rfl⟩

theorem mem_soleOf [DecidableEq T] {table : List (T × Event A)} {t : T} {x : Event A}
    (h : soleOf table t = some x) : (t, x) ∈ table ∧ ∀ y, (t, y) ∈ table → y = x := by
  unfold soleOf at h
  split at h
  · rename_i p hp
    cases h
    have mem : ∀ q, q ∈ table ∧ q.1 = t ↔ q = p := fun q => by
      have : q ∈ table.filter (·.1 = t) ↔ q = p := by rw [hp]; simp
      simpa using this
    have hpt : p ∈ table ∧ p.1 = t := (mem p).2 rfl
    refine ⟨?_, fun y hy => ?_⟩
    · rw [← hpt.2]; exact hpt.1
    · rw [← (mem (t, y)).1 ⟨hy, rfl⟩]
  · cases h

/-- `x` is `y` or must precede it. -/
def UpTo [DecidableEq A] (S : System A M T K) (y x : Event A) : Prop := x = y ∨ Must S x y

theorem UpTo.order [DecidableEq A] {S : System A M T K} {a : A} {i j : Nat} {y : Event A} (h : UpTo S y (a, j))
    (hij : i ≤ j) : UpTo S y (a, i) := by
  rcases Nat.eq_or_lt_of_le hij with rfl | hlt
  · exact h
  · rcases h with rfl | h
    · exact .inr (.order hlt)
    · exact .inr (.trans (.order hlt) h)

theorem UpTo.sync [DecidableEq A] {S : System A M T K} {x e y : Event A} {t : T} (h : UpTo S y e) (hs : S.Sole x t)
    (hw : S.Waits e t) : UpTo S y x := by
  rcases h with rfl | h
  · exact .inr (.sync hs hw)
  · exact .inr (.trans (.sync hs hw) h)

theorem mem_between {S : System A M T K} {a : A} {lo hi : Nat} {s : Step M T K}
    (h : s ∈ between S a lo hi) : ∃ i, i ≤ hi ∧ S.step (a, i) = some s := by
  obtain ⟨i, hi', hs⟩ := List.mem_iff_getElem.1 (List.mem_of_mem_drop h)
  rw [List.length_take] at hi'
  have hlen : i < (S.code a).length := by omega
  refine ⟨i, by omega, ?_⟩
  rw [List.getElem_take] at hs
  rw [step, ← hs]
  exact List.getElem?_eq_getElem hlen

section
variable [DecidableEq A] [DecidableEq T] {S₀ S : System A M T K} {core : List A}

omit [DecidableEq A] in
/-- A token that one event of `core` signals in `S₀` is signalled by no other event of `S`. -/
theorem Embeds.sole (he : Embeds S₀ S core) {t : T} {x : Event A}
    (h : soleOf (signalTable S₀ core) t = some x) : x.1 ∈ core ∧ S.Sole x t := by
  obtain ⟨hx, huniq⟩ := mem_soleOf h
  obtain ⟨hcore, hsig⟩ := mem_entries.1 hx
  exact ⟨hcore, fun y hy => huniq y (mem_entries.2 (he.signals x.1 hcore x.2 t hsig y hy))⟩

/-- The invariant of `chase`. -/
theorem chase_sound (he : Embeds S₀ S core) {y : Event A} : ∀ (fuel : Nat) (work : List (Event A))
    (c : Clock A), (∀ x ∈ work, x.1 ∈ core ∧ UpTo S y x) →
    (∀ a i, i < c.get a → a ∈ core ∧ UpTo S y (a, i)) →
    ∀ a i, i < (chase S₀ (signalTable S₀ core) fuel work c).get a → a ∈ core ∧ UpTo S y (a, i)
  | 0, _, _, _, hc => by simpa only [chase] using hc
  | _ + 1, [], _, _, hc => by simpa only [chase] using hc
  | fuel + 1, (a, i) :: work, c, hw, hc => by
    obtain ⟨hcore, hup⟩ := hw (a, i) (.head _)
    have hwork : ∀ x ∈ work, x.1 ∈ core ∧ UpTo S y x := fun x hx => hw x (.tail _ hx)
    rw [chase]
    split
    · exact chase_sound he fuel work c hwork hc
    refine chase_sound he fuel _ _ (fun x hx => ?_) fun b j hj => ?_
    · rcases List.mem_append.1 hx with hx | hx
      · -- the signaller of a token that one of the new steps waits for
        simp only [List.mem_flatMap, List.mem_filterMap] at hx
        obtain ⟨s, hs, t, ht, hsole⟩ := hx
        obtain ⟨k, hk, hs⟩ := mem_between hs
        obtain ⟨hxc, hx⟩ := he.sole hsole
        exact ⟨hxc, (hup.order hk).sync hx (he.waits a hcore k t ⟨s, hs, ht⟩)⟩
      · exact hwork x hx
    · rw [Clock.get] at hj
      split at hj
      · rename_i hab
        subst hab
        exact ⟨hcore, hup.order (by omega)⟩
      · exact hc b j hj

theorem past_sound (he : Embeds S₀ S core) {y : Event A} (hy : y.1 ∈ core) {fuel : Nat} {a : A}
    {i : Nat} (h : i < (past S₀ (signalTable S₀ core) fuel y).get a) : UpTo S y (a, i) :=
  (chase_sound he fuel [y] [] (by simpa using ⟨hy, .inl rfl⟩)
    (fun _ _ h => by simp [Clock.get] at h) a i h).2

theorem mustB_sound (he : Embeds S₀ S core) {x y : Event A} (hy : y.1 ∈ core) {fuel : Nat}
    (h : mustB S₀ (signalTable S₀ core) fuel x y = true) : Must S x y := by
  simp only [mustB, Bool.and_eq_true, decide_eq_true_eq] at h
  rcases past_sound he hy h.1 with heq | hm
  · exact absurd heq h.2
  · exact hm

end

/-! ## The check -/

section
variable [DecidableEq A] [DecidableEq T] [DecidableEq K]

/-- `x` is made under the lock `p`: after its grant and before its release. -/
def underB (S : System A M T K) (table : List (T × Event A)) (fuel : Nat) (p : Lock K T × Event A)
    (x : Event A) : Bool :=
  mustB S table fuel p.2 x &&
    match soleOf table p.1.rel with
    | some u => mustB S table fuel x u
    | none => false

/-- `x` and `y` are ordered in every run. -/
def orderedB (S : System A M T K) (core : List A) (table : List (T × Event A)) (fuel : Nat)
    (x y : Event A) : Bool :=
  mustB S table fuel x y || mustB S table fuel y x ||
    (entries S core Step.locks).any fun p => underB S table fuel p x && (entries S core Step.locks).any fun q =>
      decide (p.2 ≠ q.2) && decide (p.1.Clash q.1) && underB S table fuel q y

/-- **The race check**: conflicting accesses of different actors of `core` are ordered. -/
def raceCheck (S : System A M T K) (core : List A) (conf : M → M → Bool) (fuel : Nat) : Bool :=
  (entries S core Step.accs).all fun p => (entries S core Step.accs).all fun q =>
    decide (p.2.1 = q.2.1) || !conf p.1 q.1 ||
      orderedB S core (signalTable S core) fuel p.2 q.2

variable {S₀ S : System A M T K} {core : List A}

omit [DecidableEq K] in
theorem underB_sound (he : Embeds S₀ S core) {p : Lock K T × Event A} {x : Event A} {fuel : Nat}
    (hx : x.1 ∈ core) (h : underB S₀ (signalTable S₀ core) fuel p x = true) :
    Must S p.2 x ∧ ∃ u, S.Sole u p.1.rel ∧ Must S x u := by
  simp only [underB, Bool.and_eq_true] at h
  obtain ⟨hgrant, hrel⟩ := h
  refine ⟨mustB_sound he hx hgrant, ?_⟩
  split at hrel
  · rename_i u hu
    obtain ⟨hcore, hsole⟩ := he.sole hu
    exact ⟨u, hsole, mustB_sound he hcore hrel⟩
  · cases hrel

omit [DecidableEq T] [DecidableEq K] in
/-- **Accesses under clashing locks are ordered**: the release of one lock precedes the grant of
the other. -/
theorem ordered_of_locks {p q : Lock K T × Event A} {x y u v : Event A} {h : List (Event A)}
    (hr : S.Run h) (hx : x ∈ h) (hy : y ∈ h) (hne : p.2 ≠ q.2) (hcl : p.1.Clash q.1)
    (hp : S.Takes p.2 p.1) (hq : S.Takes q.2 q.1) (hpx : Must S p.2 x) (hqy : Must S q.2 y)
    (hu : S.Sole u p.1.rel) (hv : S.Sole v q.1.rel) (hxu : Must S x u) (hyv : Must S y v) :
    S.Ordered h x y := by
  have hpx := hpx.hb hr hx
  have hqy := hqy.hb hr hy
  rcases Run.lock_order hr hpx.mem.1 hqy.mem.1 hne hp hq hcl with ⟨w, hw, hb⟩ | ⟨w, hw, hb⟩
  · rw [hu w hw] at hb
    exact .inl (HB.trans hr (HB.trans hr (hxu.hb hr hb.mem.1) hb) hqy)
  · rw [hv w hw] at hb
    exact .inr (HB.trans hr (HB.trans hr (hyv.hb hr hb.mem.1) hb) hpx)

theorem orderedB_sound (he : Embeds S₀ S core) {x y : Event A} {fuel : Nat} (hx : x.1 ∈ core)
    (hy : y.1 ∈ core) (h : orderedB S₀ core (signalTable S₀ core) fuel x y = true)
    {hist : List (Event A)} (hr : S.Run hist) (hxm : x ∈ hist) (hym : y ∈ hist) :
    S.Ordered hist x y := by
  simp only [orderedB, Bool.or_eq_true, List.any_eq_true, Bool.and_eq_true, decide_eq_true_eq] at h
  rcases h with (h | h) | ⟨p, hp, hpx, q, hq, ⟨hne, hcl⟩, hqy⟩
  · exact .inl ((mustB_sound he hy h).hb hr hym)
  · exact .inr ((mustB_sound he hx h).hb hr hxm)
  · obtain ⟨hpc, hpt⟩ := mem_entries.1 hp
    obtain ⟨hqc, hqt⟩ := mem_entries.1 hq
    obtain ⟨hpx, u, hu, hxu⟩ := underB_sound he hx hpx
    obtain ⟨hqy, v, hv, hyv⟩ := underB_sound he hy hqy
    exact ordered_of_locks hr hxm hym hne hcl (he.takes _ hpc _ _ hpt) (he.takes _ hqc _ _ hqt)
      hpx hqy hu hv hxu hyv

/-- **Soundness of the race check.** -/
theorem raceFree_of_check (he : Embeds S₀ S core) {conf : M → M → Bool} {fuel : Nat}
    (hout : ∀ a b, a ≠ b → a ∉ core ∨ b ∉ core → S.Apart (fun m m' => conf m m' = true) a b)
    (h : raceCheck S₀ core conf fuel = true) : S.RaceFree fun m m' => conf m m' = true := by
  refine raceFree_of_apart fun a b hab => ?_
  by_cases hcore : a ∈ core ∧ b ∈ core
  swap
  · exact hout a b hab (by tauto)
  obtain ⟨ha, hb⟩ := hcore
  intro hist hr i j hi hj m m' hm hm' hmm
  have hp := mem_entries.2 ⟨ha, he.accesses a ha i m hm⟩
  have hq := mem_entries.2 ⟨hb, he.accesses b hb j m' hm'⟩
  simp only [raceCheck, List.all_eq_true, Bool.or_eq_true, decide_eq_true_eq, Bool.not_eq_true']
    at h
  rcases h _ hp _ hq with (h | h) | h
  · exact absurd h hab
  · rw [hmm] at h; cases h
  · exact orderedB_sound he ha hb h hr hi hj

end

end Causal.System
