import RMARaceBench.Gaspi.Epilogue

/-!
# GASPI cases without a race

Each of the four programs makes one transfer (`OneTransfer`): it is enough that its read and its write
are settled with the plain accesses of the rank they touch (`OneTransfer.raceFree`). Slot 0 is raised
by the block `main` and again by the epilogue; every notification that a wait can have observed is
raised after the transfer or after the wait itself.
-/

set_option autoImplicit false

namespace Gaspi

open Causal Causal.System

namespace Program

/-- A plain access of rank `m.rank` that conflicts with `m`. -/
def Meets (m : Access) (s : Stmt) : Prop := ∃ m' ∈ plain m.rank s, m'.Conf m

instance (m : Access) (s : Stmt) : Decidable (Meets m s) :=
  inferInstanceAs (Decidable (∃ m' ∈ _, _))

/-- The operation `p` at position `k` of rank `r` makes the only transfer (module doc). -/
structure OneTransfer (P : Program) (o : Observation P) (r k : Nat) (p : Post) : Prop where
  post : P.postAt r k = some p
  only : ∀ r' k' p', P.postAt r' k' = some p' → p'.data.isSome = true → r' = r ∧ k' = k
  read : ∀ m ∈ reads r p, Settled (P.system o) (P.text m.rank) (.op r k, 0) (.rank m.rank) (Meets m)
  write : ∀ m ∈ writes r p,
    Settled (P.system o) (P.text m.rank) (.op r k, 1) (.rank m.rank) (Meets m)

variable {P : Program} {o : Observation P} {r r' k k' i j q : Nat} {p : Post} {m m' : Access}
  {st : Stmt}

/-! ## Hosts -/

def Actor.isRank : Actor → Prop
  | .rank _ => True
  | .op _ _ => False

/-- The text of a rank. -/
def textOf (P : Program) : Actor → List Stmt
  | .rank r => P.text r
  | .op _ _ => []

def plainOf : Actor → Stmt → List Access
  | .rank r => plain r
  | .op _ _ => fun _ => []

theorem hosts : (P.system o).Hosts Actor.isRank P.textOf plainOf := by
  intro a i s ha hs
  cases a with
  | rank r =>
    obtain ⟨-, st, hst, rfl⟩ := step_rank.1 hs
    exact ⟨st, hst, accs_stmtStep r i st⟩
  | op r k => exact ha.elim

/-! ## Race freedom -/

/-- **A program with one settled transfer has no race.** -/
theorem OneTransfer.raceFree (hP : P.OneTransfer o r k p) :
    (P.system o).RaceFree Access.Conf := by
  have hH : (P.system o).Hosts Actor.isRank P.textOf plainOf := hosts
  refine hH.raceFree (fun _ _ => Access.Conf.symm) ?_ ?_ ?_
  · intro a b hab ha hb s s' m hm m' hm' hmm
    cases a with
    | op r k => exact ha
    | rank r =>
      cases b with
      | op r' k' => exact hb
      | rank r' => exact hab (by rw [← rank_of_mem_plain hm, ← rank_of_mem_plain hm', hmm.1])
  · intro a b hab ha hb i j m m' hm hm' hmm
    cases a with
    | rank r => exact ha trivial
    | op r₁ k₁ =>
      cases b with
      | rank r' => exact hb trivial
      | op r₂ k₂ =>
        obtain ⟨-, p₁, hp₁, hd₁, -⟩ := accesses_op hm
        obtain ⟨-, p₂, hp₂, hd₂, -⟩ := accesses_op hm'
        obtain ⟨rfl, rfl⟩ := hP.only r₁ k₁ p₁ hp₁ hd₁
        obtain ⟨rfl, rfl⟩ := hP.only r₂ k₂ p₂ hp₂ hd₂
        exact hab rfl
  · intro a b j m ha hb hm
    cases a with
    | op r k => exact ha.elim
    | rank q =>
      cases b with
      | rank r' => exact absurd trivial hb
      | op r' k' =>
        by_cases hq : m.rank = q
        · subst hq
          obtain ⟨-, p', hp', hd', hcase⟩ := accesses_op hm
          obtain ⟨rfl, rfl⟩ := hP.only r' k' p' hp' hd'
          obtain rfl : p = p' := Option.some.inj (hP.post.symm.trans hp')
          rcases hcase with ⟨rfl, hmem⟩ | ⟨rfl, hmem⟩
          · exact hP.read m hmem
          · exact hP.write m hmem
        · -- the access is to the memory of another rank
          refine hH.none (a := .rank q) (show Actor.isRank (.rank q) from trivial) fun s _ hc => hq ?_
          obtain ⟨m', hm', hmm⟩ := hc
          rw [← hmm.1, rank_of_mem_plain hm']

end Program

/-! ## The programs -/

section
variable {num r k j : Nat} {p : Post} {main : Nat → List Stmt}

/-- The data is posted in the block `main`. -/
theorem data_main (h : (boilerplate num main).postAt r k = some p) (hdata : p.data.isSome = true) :
    ∃ j, k = 2 + j ∧ (main r)[j]? = some (.post p) := by
  rcases postAt_cases h with hj | ⟨i, -, -, rfl⟩
  · exact hj
  · cases hdata

/-- The epilogue stores nothing. -/
theorem epilogue_loads {s : Stmt} (h : s ∈ epilogue num r) {q : Nat} {m : Access}
    (hm : m ∈ Program.plain q s) : m.write = false := by
  obtain ⟨j, hj⟩ := List.mem_iff_getElem?.1 h
  rcases epilogue_cases hj with ⟨-, rfl⟩ | ⟨-, rfl⟩ | ⟨-, rfl⟩ | ⟨i, -, -, rfl⟩ | ⟨i, -, -, rfl⟩ |
    ⟨s, rfl⟩
  case inr.inr.inr.inr.inr => rw [List.mem_singleton.1 hm]
  all_goals exact absurd hm List.not_mem_nil

/-- What a rank posts in its block `main`. -/
theorem main_posts {f : Nat → List (Nat × Post)} (hf : ∀ r, postsOf (main r) = f r)
    (h : (main r)[j]? = some (.post p)) : (j, p) ∈ f r := by
  rw [← hf r]
  exact mem_postsOf.2 h

/-- **The wait of rank 1 for slot 0** follows the data of the operation of rank 0 that raises the
slot, also when it has observed the notification of the epilogue only. -/
theorem must_seen {o : Observation (boilerplate num main)} {d : Data} {q : Nat} (hnum : 2 ≤ num)
    (hk : (boilerplate num main).postAt 0 k = some ⟨1, some d, some 0⟩)
    (hq : ((boilerplate num main).text 1)[q]? = some (.waitsome 0))
    (honly : ∀ r j p, (main r)[j]? = some (.post p) → p.target = 1 → p.slot = some 0 →
      r = 0 ∧ 2 + j = k) :
    Must ((boilerplate num main).system o) (.op 0 k, 1) (.rank 1, q) := by
  refine Program.must_waitsome (show 1 < num by omega) hq fun r' k' p _ hp ht hslot => .inr (.inl ?_)
  rcases postAt_cases hp with ⟨j, rfl, hj⟩ | ⟨i, hi, rfl, rfl⟩
  · obtain ⟨rfl, rfl⟩ := honly r' j p hj ht hslot
    exact Must.order (by decide)
  · cases hslot
    obtain rfl : i = 1 := ht
    have hlt : k < (front main 0).length := by
      obtain ⟨j, rfl, hj⟩ := data_main hk rfl
      have := (List.getElem?_eq_some_iff.1 hj).1
      rw [length_front]
      omega
    exact Program.must_notify (show 0 < num by omega) hk hp (by omega) rfl rfl rfl

/-! ### A notification there and a notification back -/

theorem posts_notifyWaitsomeLocalNo (r : Nat) :
    postsOf (syncNotifyWaitsomeLocalNo.main r) =
      if r = 0 then [(1, ⟨1, some ⟨.write, 0, 0⟩, some 0⟩)]
      else if r = 1 then [(1, ⟨0, none, some 0⟩)] else [] := by
  by_cases h0 : r = 0
  · subst h0; rfl
  by_cases h1 : r = 1
  · subst h1; rfl
  rw [if_neg h0, if_neg h1]
  exact postsOf_eq_nil (by simp [syncNotifyWaitsomeLocalNo, ifRank, gaspiBarrier, h0, h1])

/-- Rank 0 stores again when rank 1 has answered, and rank 1 answers when the data has arrived. -/
theorem raceFree_notifyWaitsomeLocalNo (hnum : 2 ≤ num)
    (o : Observation (syncNotifyWaitsomeLocalNo.program num)) :
    ((syncNotifyWaitsomeLocalNo.program num).system o).RaceFree Access.Conf := by
  have hr0 : 0 < (syncNotifyWaitsomeLocalNo.program num).ranks := by show 0 < num; omega
  have hr1 : 1 < (syncNotifyWaitsomeLocalNo.program num).ranks := by show 1 < num; omega
  have hmain := fun r j p => main_posts (r := r) (j := j) (p := p) posts_notifyWaitsomeLocalNo
  have hwrite : (syncNotifyWaitsomeLocalNo.program num).postAt 0 3 =
      some ⟨1, some ⟨.write, 0, 0⟩, some 0⟩ := rfl
  have hnotify : (syncNotifyWaitsomeLocalNo.program num).postAt 1 3 = some ⟨0, none, some 0⟩ := rfl
  have there : Must ((syncNotifyWaitsomeLocalNo.program num).system o) (.op 0 3, 1) (.rank 1, 2) := by
    refine must_seen hnum hwrite rfl fun r j p hj ht hslot => ?_
    have hmem := hmain r j p hj
    split at hmem
    · rename_i h0
      cases List.mem_singleton.1 hmem
      exact ⟨h0, rfl⟩
    · split at hmem
      · cases List.mem_singleton.1 hmem
        cases ht
      · exact absurd hmem List.not_mem_nil
  have back : Must ((syncNotifyWaitsomeLocalNo.program num).system o) (.op 1 3, 2) (.rank 0, 4) := by
    refine Program.must_waitsome (i := 0) hr0 rfl fun r' k' p _ hp ht hslot => ?_
    rcases postAt_cases hp with ⟨j, rfl, hj⟩ | ⟨i, hi, rfl, rfl⟩
    · have hmem := hmain r' j p hj
      split at hmem
      · cases List.mem_singleton.1 hmem
        cases ht
      · split at hmem
        · rename_i h1
          subst h1
          cases List.mem_singleton.1 hmem
          exact .inl rfl
        · exact absurd hmem List.not_mem_nil
    · -- the notification that rank 0 sends to itself in the epilogue
      cases hslot
      refine .inr (.inr (Must.order_left (Program.must_post hr0 hp) ?_))
      show 4 ≤ 8 + (3 + i)
      omega
  have answer : Must ((syncNotifyWaitsomeLocalNo.program num).system o) (.op 0 3, 1) (.rank 0, 4) :=
    ((there.order_right (by decide)).trans (Program.must_post hr1 hnotify)).trans back
  refine Program.OneTransfer.raceFree (r := 0) (k := 3) ⟨hwrite, ?_, ?_, ?_⟩
  · intro r' k' p' hp hdata
    obtain ⟨j, rfl, hj⟩ := data_main hp hdata
    have hmem := hmain r' j p' hj
    split at hmem
    · rename_i h0
      cases List.mem_singleton.1 hmem
      exact ⟨h0, rfl⟩
    · split at hmem
      · cases List.mem_singleton.1 hmem
        cases hdata
      · exact absurd hmem List.not_mem_nil
  · intro m hm
    cases List.mem_singleton.1 hm
    exact Settled.around (Program.must_post hr0 hwrite) ((Must.order (by decide)).trans answer)
  · intro m hm
    cases List.mem_singleton.1 hm
    refine Settled.after there ?_
    show ∀ s ∈ prologue, ¬ Program.Meets ⟨1, .remote, 0, true⟩ s
    decide

/-! ### A notification only -/

theorem posts_notifyWaitsomeRemoteNo (r : Nat) :
    postsOf (syncNotifyWaitsomeRemoteNo.main r) =
      if r = 0 then [(0, ⟨1, some ⟨.write, 0, 0⟩, some 0⟩)] else [] := by
  by_cases h0 : r = 0
  · subst h0; rfl
  rw [if_neg h0]
  by_cases h1 : r = 1 <;>
    exact postsOf_eq_nil (by simp [syncNotifyWaitsomeRemoteNo, ifRank, h0, h1])

/-- No statement of a rank conflicts with a read when the rank does not store. -/
theorem settled_of_loads {o : Observation (boilerplate num main)} {x : Event Actor} {m : Access}
    (hw : m.write = false) (hfront : ∀ s ∈ front main m.rank, ¬ Program.Meets m s) :
    Settled ((boilerplate num main).system o) ((boilerplate num main).text m.rank) x
      (.rank m.rank) (Program.Meets m) := by
  refine Program.hosts.none (a := .rank m.rank) (show Program.Actor.isRank (.rank m.rank) from trivial) ?_
  intro s hs hmeets
  rcases List.mem_append.1 (show s ∈ front main m.rank ++ epilogue num m.rank from hs) with hs | hs
  · exact hfront s hs hmeets
  · obtain ⟨m', hm', hmm⟩ := hmeets
    rcases hmm.2.2.2 with h | h
    · rw [epilogue_loads hs hm'] at h
      cases h
    · rw [hw] at h
      cases h

/-- Rank 1 loads the cell when it has seen the notification. -/
theorem raceFree_notifyWaitsomeRemoteNo (hnum : 2 ≤ num)
    (o : Observation (syncNotifyWaitsomeRemoteNo.program num)) :
    ((syncNotifyWaitsomeRemoteNo.program num).system o).RaceFree Access.Conf := by
  have hmain := fun r j p => main_posts (r := r) (j := j) (p := p) posts_notifyWaitsomeRemoteNo
  have hwrite : (syncNotifyWaitsomeRemoteNo.program num).postAt 0 2 =
      some ⟨1, some ⟨.write, 0, 0⟩, some 0⟩ := rfl
  have hone : ∀ r j p, (syncNotifyWaitsomeRemoteNo.main r)[j]? = some (.post p) →
      r = 0 ∧ 2 + j = 2 := by
    intro r j p hj
    have hmem := hmain r j p hj
    split at hmem
    · rename_i h0
      cases List.mem_singleton.1 hmem
      exact ⟨h0, rfl⟩
    · exact absurd hmem List.not_mem_nil
  have seen : Must ((syncNotifyWaitsomeRemoteNo.program num).system o) (.op 0 2, 1) (.rank 1, 2) :=
    must_seen hnum hwrite rfl fun r j p hj _ _ => hone r j p hj
  refine Program.OneTransfer.raceFree (r := 0) (k := 2) ⟨hwrite, ?_, ?_, ?_⟩
  · intro r' k' p' hp hdata
    obtain ⟨j, rfl, hj⟩ := data_main hp hdata
    exact hone r' j p' hj
  · intro m hm
    cases List.mem_singleton.1 hm
    refine settled_of_loads rfl ?_
    show ∀ s ∈ front syncNotifyWaitsomeRemoteNo.main 0, ¬ Program.Meets ⟨0, .loc, 0, false⟩ s
    decide
  · intro m hm
    cases List.mem_singleton.1 hm
    refine Settled.after seen ?_
    show ∀ s ∈ prologue, ¬ Program.Meets ⟨1, .remote, 0, true⟩ s
    decide

/-! ### A read and a collective or a message -/

def remoteRead : Post := ⟨1, some ⟨.read, 0, 0⟩, none⟩

theorem posts_waitAllreduceRemoteNo (r : Nat) :
    postsOf (syncWaitAllreduceRemoteNo.main r) = if r = 0 then [(0, remoteRead)] else [] := by
  by_cases h0 : r = 0
  · subst h0; rfl
  rw [if_neg h0]
  by_cases h1 : r = 1 <;>
    exact postsOf_eq_nil (by simp [syncWaitAllreduceRemoteNo, ifRank, gaspiAllreduce, h0, h1])

theorem posts_waitSendrecvRemoteNo (r : Nat) :
    postsOf (syncWaitSendrecvRemoteNo.main r) = if r = 0 then [(0, remoteRead)] else [] := by
  by_cases h0 : r = 0
  · subst h0; rfl
  rw [if_neg h0]
  by_cases h1 : r = 1 <;> exact postsOf_eq_nil (by simp [syncWaitSendrecvRemoteNo, ifRank, h0, h1])

/-- A program whose rank 0 reads from rank 1 and waits: it has no race when rank 1 does not touch the
cell before a statement that follows the wait. -/
theorem raceFree_of_read {o : Observation (boilerplate num main)} {q : Nat} (hnum : 2 ≤ num)
    (hposts : ∀ r, postsOf (main r) = if r = 0 then [(0, remoteRead)] else [])
    (hwait : ((boilerplate num main).text 0)[3]? = some .wait)
    (hafter : Must ((boilerplate num main).system o) (.rank 0, 3) (.rank 1, q))
    (hbefore : ∀ s ∈ ((boilerplate num main).text 1).take q,
      ¬ Program.Meets ⟨1, .remote, 0, false⟩ s) :
    ((boilerplate num main).system o).RaceFree Access.Conf := by
  have hr0 : 0 < (boilerplate num main).ranks := by show 0 < num; omega
  have hread : (boilerplate num main).postAt 0 2 = some remoteRead := by
    have hmem : (0, remoteRead) ∈ postsOf (main 0) := by simp [hposts]
    have hlt := (List.getElem?_eq_some_iff.1 (mem_postsOf.1 hmem)).1
    have hfront : (front main 0)[2]? = some (.post remoteRead) := text_front (mem_postsOf.1 hmem)
    rw [Program.postAt_eq, text_eq, List.getElem?_append_left, hfront]
    rw [length_front]
    omega
  have waited : Must ((boilerplate num main).system o) (.op 0 2, 1) (.rank 0, 3) :=
    Program.must_wait (p := remoteRead) hr0 hread (by decide) hwait
  refine Program.OneTransfer.raceFree (r := 0) (k := 2) ⟨hread, ?_, ?_, ?_⟩
  · intro r' k' p' hp hdata
    obtain ⟨j, rfl, hj⟩ := data_main hp hdata
    have hmem := main_posts hposts hj
    split at hmem
    · rename_i h0
      cases List.mem_singleton.1 hmem
      exact ⟨h0, rfl⟩
    · exact absurd hmem List.not_mem_nil
  · intro m hm
    cases List.mem_singleton.1 hm
    exact Settled.after ((Must.order (by decide)).trans (waited.trans hafter)) hbefore
  · intro m hm
    cases List.mem_singleton.1 hm
    exact Settled.around (Program.must_post hr0 hread) waited

/-- Rank 1 stores when it has left the reduction, and rank 0 enters it when the read is complete. -/
theorem raceFree_waitAllreduceRemoteNo (hnum : 3 ≤ num)
    (o : Observation (syncWaitAllreduceRemoteNo.program num)) :
    ((syncWaitAllreduceRemoteNo.program num).system o).RaceFree Access.Conf := by
  have hr0 : 0 < (syncWaitAllreduceRemoteNo.program num).ranks := by show 0 < num; omega
  have hr1 : 1 < (syncWaitAllreduceRemoteNo.program num).ranks := by show 1 < num; omega
  have reduced : Must ((syncWaitAllreduceRemoteNo.program num).system o) (.rank 0, 5) (.rank 1, 3) :=
    Program.must_allreduce hr0 hr1 rfl rfl rfl
  refine raceFree_of_read (q := 3) (by omega) posts_waitAllreduceRemoteNo rfl
    (reduced.order_left (by decide)) ?_
  show ∀ s ∈ prologue ++ [.allreduceEnter], ¬ Program.Meets ⟨1, .remote, 0, false⟩ s
  decide

/-- Rank 1 stores when it has received, and rank 0 sends when the read is complete. -/
theorem raceFree_waitSendrecvRemoteNo (hnum : 2 ≤ num)
    (o : Observation (syncWaitSendrecvRemoteNo.program num)) :
    ((syncWaitSendrecvRemoteNo.program num).system o).RaceFree Access.Conf := by
  have hr0 : 0 < (syncWaitSendrecvRemoteNo.program num).ranks := by show 0 < num; omega
  have hr1 : 1 < (syncWaitSendrecvRemoteNo.program num).ranks := by show 1 < num; omega
  have received : Must ((syncWaitSendrecvRemoteNo.program num).system o) (.rank 0, 5) (.rank 1, 2) := by
    refine Program.must_passive hr0 hr1 rfl fun q j hj => ?_
    rcases text_cases hj with ⟨-, h⟩ | ⟨-, h⟩ | ⟨i, rfl, hi⟩ | ⟨i, -, hi⟩
    · cases h
    · cases h
    · have hq : q = 0 := by
        by_contra h0
        have hmem := List.mem_of_getElem? hi
        by_cases h1 : q = 1 <;> simp [syncWaitSendrecvRemoteNo, ifRank, h0, h1] at hmem
      subst hq
      rcases i with _ | _ | _ | _ | i <;> simp [syncWaitSendrecvRemoteNo, ifRank, gaspiRead] at hi ⊢
    · rcases epilogue_cases hi with ⟨-, h⟩ | ⟨-, h⟩ | ⟨-, h⟩ | ⟨i, -, -, h⟩ | ⟨i, -, -, h⟩ | ⟨s, h⟩ <;>
        cases h
  refine raceFree_of_read (q := 2) hnum posts_waitSendrecvRemoteNo rfl
    (received.order_left (by decide)) ?_
  show ∀ s ∈ prologue, ¬ Program.Meets ⟨1, .remote, 0, false⟩ s
  decide

end

/-- **The cases without a race that synchronize by notifications, by a reduction or by a message**
have none, for every number of ranks and whichever notifications the waits observe. -/
theorem sync_notified_raceFree (num : Nat) :
    (2 ≤ num → ∀ o, ((syncNotifyWaitsomeLocalNo.program num).system o).RaceFree Access.Conf) ∧
    (2 ≤ num → ∀ o, ((syncNotifyWaitsomeRemoteNo.program num).system o).RaceFree Access.Conf) ∧
    (3 ≤ num → ∀ o, ((syncWaitAllreduceRemoteNo.program num).system o).RaceFree Access.Conf) ∧
    (2 ≤ num → ∀ o, ((syncWaitSendrecvRemoteNo.program num).system o).RaceFree Access.Conf) :=
  ⟨raceFree_notifyWaitsomeLocalNo, raceFree_notifyWaitsomeRemoteNo, raceFree_waitAllreduceRemoteNo,
    raceFree_waitSendrecvRemoteNo⟩

/-- The same at the numbers of ranks that the labels ask for. -/
theorem sync_notified_raceFree_nprocs :
    ((syncNotifyWaitsomeLocalNo.program 2).system (.all _)).RaceFree Access.Conf ∧
    ((syncNotifyWaitsomeRemoteNo.program 2).system (.all _)).RaceFree Access.Conf ∧
    ((syncWaitAllreduceRemoteNo.program 3).system (.all _)).RaceFree Access.Conf ∧
    ((syncWaitSendrecvRemoteNo.program 2).system (.all _)).RaceFree Access.Conf :=
  ⟨(sync_notified_raceFree 2).1 (by decide) _, (sync_notified_raceFree 2).2.1 (by decide) _,
    (sync_notified_raceFree 3).2.2.1 (by decide) _, (sync_notified_raceFree 2).2.2.2 (by decide) _⟩

end Gaspi
