import RMARaceBench.Causal.Order

/-!
# Orders that hold in every run

`Must S x e`: `x` happens before `e` in every run that performs `e`. The rules are program order
(`Must.order`), a wait for a token that only one event signals (`Must.sync`) and a wait for one of
several signals of which all but one come too late (`Must.any`).

Race freedom is shown pair of actors by pair of actors (`raceFree_of_apart`). For one access `x` and
another actor `a`, `Window S x a lo hi` says that the steps of `a` below `lo` must precede `x` and
those from `hi` on must follow it: only the steps between can race with `x`.
-/

set_option autoImplicit false

namespace Causal.System

variable {A M T K : Type} {S : System A M T K}

/-- `x` is the only event that signals `t`. -/
def Sole (S : System A M T K) (x : Event A) (t : T) : Prop := ∀ y, S.Signals y t → y = x

section
variable [DecidableEq A]

/-- `x` happens before `e` in every run that performs `e`. -/
def Must (S : System A M T K) (x e : Event A) : Prop := ∀ h, S.Run h → e ∈ h → S.HB h x e

namespace Must

theorem hb {h : List (Event A)} (hr : S.Run h) {x e : Event A} (hm : Must S x e) (he : e ∈ h) :
    S.HB h x e := hm h hr he

theorem order {a : A} {i j : Nat} (hij : i < j) : Must S (a, i) (a, j) :=
  fun _ hr hj => Run.hb_order hr hj hij

theorem sync {x e : Event A} {t : T} (hs : S.Sole x t) (hw : S.Waits e t) : Must S x e := by
  intro h hr he
  obtain ⟨y, hy, hb⟩ := Run.hb_wait hr he hw
  exact hs y hy ▸ hb

theorem trans {x y z : Event A} (hxy : Must S x y) (hyz : Must S y z) : Must S x z := by
  intro h hr hz
  have hb := hyz h hr hz
  exact HB.trans hr (hxy h hr hb.mem.1) hb

/-- An event does not have to follow itself, once it is performed. -/
theorem irrefl {h : List (Event A)} (hr : S.Run h) {x : Event A} (hx : x ∈ h) : ¬ Must S x x :=
  fun hm => HB.irrefl hr x (hm h hr hx)

/-- A wait for a token whose signals all are `x` or follow `x`. -/
theorem after {x e : Event A} {t : T} (hs : ∀ y, S.Signals y t → y = x ∨ Must S x y)
    (hw : S.Waits e t) : Must S x e := by
  intro h hr he
  obtain ⟨y, hy, hb⟩ := Run.hb_wait hr he hw
  rcases hs y hy with rfl | hxy
  · exact hb
  · exact HB.trans hr (hxy h hr hb.mem.1) hb

/-- **One of several signals**: every signal that `e` can have waited for is `x`, follows `x` or
follows `e`. -/
theorem any (hS : S.Total) {x e : Event A} {s : Step M T K} (hs : S.step e = some s)
    (ha : s.waitsAny ≠ []) (hsig : ∀ t ∈ s.waitsAny, ∀ y, S.Signals y t →
      y = x ∨ Must S x y ∨ Must S e y) : Must S x e := by
  intro h hr he
  obtain ⟨t, ht, y, hy, hb⟩ := Run.hb_any hr hS he hs ha
  rcases hsig t ht y hy with rfl | hxy | hey
  · exact hb
  · exact HB.trans hr (hxy h hr hb.mem.1) hb
  · exact absurd (HB.trans hr (hey h hr hb.mem.1) hb) (HB.irrefl hr e)

theorem order_left {a : A} {i j : Nat} {y : Event A} (h : Must S (a, j) y) (hij : i ≤ j) :
    Must S (a, i) y := by
  rcases Nat.eq_or_lt_of_le hij with rfl | hlt
  · exact h
  · exact .trans (.order hlt) h

theorem order_right {a : A} {i j : Nat} {x : Event A} (h : Must S x (a, i)) (hij : i ≤ j) :
    Must S x (a, j) := by
  rcases Nat.eq_or_lt_of_le hij with rfl | hlt
  · exact h
  · exact .trans h (.order hlt)

/-- **One hop**: from `(a, i)` to the signal of `t`, over to a step that waits for it, on to
`(b, l)`. -/
theorem hop {a b : A} {i j k l : Nat} {t : T} (hs : S.Sole (a, j) t) (hw : S.Waits (b, k) t)
    (hij : i ≤ j) (hkl : k ≤ l) : Must S (a, i) (b, l) :=
  order_left (order_right (.sync hs hw) hkl) hij

/-- **A round of a collective routine**: who leaves it has waited for every member to enter it. -/
theorem round {ι : Type} {x e : Event A} {tok : ι → Nat → T} {members : List ι} {i : ι} {n n' : Nat}
    (hs : S.Sole x (tok i n)) (hi : i ∈ members)
    (hw : ∀ t ∈ members.map (tok · n'), S.Waits e t) (hn : n = n') : Must S x e := by
  subst hn
  exact .sync hs (hw _ (List.mem_map_of_mem hi))

end Must

/-! ## Race freedom, pair by pair -/

/-- Conflicting accesses of `a` and `b` are ordered in every run. -/
def Apart (S : System A M T K) (conf : M → M → Prop) (a b : A) : Prop :=
  ∀ h, S.Run h → ∀ i j, (a, i) ∈ h → (b, j) ∈ h → ∀ m m', S.Accesses (a, i) m →
    S.Accesses (b, j) m' → conf m m' → S.Ordered h (a, i) (b, j)

omit [DecidableEq A] in
theorem Ordered.symm {h : List (Event A)} {x y : Event A} (ho : S.Ordered h x y) :
    S.Ordered h y x := Or.symm ho

variable {conf : M → M → Prop}

theorem Apart.symm {a b : A} (hc : ∀ m m', conf m m' → conf m' m) (hab : S.Apart conf a b) :
    S.Apart conf b a := fun h hr i j hi hj m m' hm hm' hmm =>
  (hab h hr j i hj hi m' m hm' hm (hc _ _ hmm)).symm

/-- Actors whose accesses never conflict are apart. -/
theorem Apart.of_disjoint {a b : A} (hd : ∀ i j m m', S.Accesses (a, i) m → S.Accesses (b, j) m' →
    ¬ conf m m') : S.Apart conf a b := fun _ _ i j _ _ m m' hm hm' hmm =>
  absurd hmm (hd i j m m' hm hm')

theorem raceFree_of_apart (hS : ∀ a b, a ≠ b → S.Apart conf a b) : S.RaceFree conf := by
  rintro h hr ⟨a, i⟩ hx ⟨b, j⟩ hy hne m m' hm hm' hmm
  by_cases hab : a = b
  · subst hab
    have hij : i ≠ j := fun he => hne (by rw [he])
    rcases Nat.lt_or_gt_of_ne hij with hlt | hlt
    · exact .inl (Run.hb_order hr hy hlt)
    · exact .inr (Run.hb_order hr hx hlt)
  · exact hS a b hab h hr i j hx hy m m' hm hm' hmm

/-! ## Windows -/

/-- The steps of `a` below `lo` must precede `x`, those from `hi` on must follow it. -/
structure Window (S : System A M T K) (x : Event A) (a : A) (lo hi : Nat) : Prop where
  before : ∀ i < lo, Must S (a, i) x
  after : ∀ i, hi ≤ i → Must S x (a, i)

namespace Window

variable {x : Event A} {a : A} {lo hi : Nat}

/-- A window from its two ends. -/
theorem of_ends {j k : Nat} (hb : Must S (a, j) x) (ha : Must S x (a, k)) :
    Window S x a (j + 1) k :=
  ⟨fun _ hi => hb.order_left (by omega), fun _ hi => ha.order_right hi⟩

/-- Outside its window an access is ordered with the steps of the other actor. -/
theorem ordered (hw : Window S x a lo hi) {h : List (Event A)} (hr : S.Run h)
    {i : Nat} (hx : x ∈ h) (hi' : (a, i) ∈ h) (ho : i < lo ∨ hi ≤ i) : S.Ordered h (a, i) x := by
  rcases ho with hlt | hle
  · exact .inl ((hw.before i hlt).hb hr hx)
  · exact .inr ((hw.after i hle).hb hr hi')

end Window

end

end Causal.System
