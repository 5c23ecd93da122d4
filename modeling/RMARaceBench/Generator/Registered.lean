import Mathlib.Data.List.TakeWhile
import RMARaceBench.Generator.RacePair

/-!
# The marked codes of registered operations

`act`: what the first statement of a text does, as one value. For a kept template and two registered operations,
`names_iff` decides `KeptTemplate.Names` by the operands of the marks: the marked codes name the operations where
each mark shows the act of its operation. `names_iff_of_inOrder` and `not_names_of_outOfOrder` list the templates
and the operations (`misnamed`) for which that fails.
-/

set_option autoImplicit false

namespace Generator

/-! ## The act of a statement -/

inductive Act
  | load | store
  | call (f : Text)
  deriving DecidableEq, Repr

/-- The function that the statement calls. -/
def callee (ts : List Text) : Option Text := (callHead ts).getLast?.filter fun f => calls f ts

def act (ts : List Text) : Option Act :=
  if loads ts then some .load else if stores ts then some .store else (callee ts).map .call

/-- What an operation does, by its `callname`. -/
def Operation.act (op : Operation) : Act :=
  if op.callname = "LOAD" then .load
  else if op.callname = "STORE" then .store
  else .call op.callname.toList

theorem Operation.callname_of_act {op : Operation} {f : String} (h : op.act = .call f.toList) :
    op.callname = f := by
  unfold Operation.act at h
  split at h
  · cases h
  · split at h
    · cases h
    · exact String.toList_inj.1 (Act.call.inj h)

theorem calls_iff_callee {f : Text} {ts : List Text} : calls f ts = true ↔ callee ts = some f := by
  unfold callee
  rw [Option.filter_eq_some_iff]
  constructor
  · intro h
    refine ⟨?_, h⟩
    unfold calls at h
    obtain ⟨-, hhead | hsuffix⟩ := of_decide_eq_true h
    · rw [hhead]
      rfl
    · obtain ⟨pre, hpre⟩ := List.isSuffixOf_iff_suffix.1 hsuffix
      rw [← hpre, List.getLast?_append]
      rfl
  · intro h
    exact h.2

/-- A call is no store. -/
theorem not_stores_of_calls {f : Text} {ts : List Text} (h : calls f ts = true) : stores ts = false := by
  unfold calls at h
  obtain ⟨hopen, -⟩ := of_decide_eq_true h
  obtain ⟨rest, hts⟩ : ∃ rest, ts = callHead ts ++ ['('] :: rest := by
    obtain ⟨hlt, hget⟩ := List.getElem?_eq_some_iff.1 hopen
    refine ⟨ts.drop ((callHead ts).length + 1), ?_⟩
    rw [← hget, ← List.drop_eq_getElem_cons hlt]
    exact (List.prefix_iff_eq_append.1 (List.takeWhile_prefix _)).symm
  -- what stands before the parenthesis belongs to the statement, and so does the parenthesis
  have hhead : ∀ t ∈ callHead ts, decide (t ≠ [';']) = true := by
    intro t ht
    have hboth := List.mem_takeWhile_imp (p := fun t : Text => decide (t ≠ ['('] ∧ t ≠ [';'])) ht
    exact decide_eq_true (of_decide_eq_true hboth).2
  have hmem : ['('] ∈ statement ts := by
    rw [hts]
    unfold statement
    rw [List.takeWhile_append_of_pos hhead, List.takeWhile_cons_of_pos (by decide)]
    simp
  unfold stores
  rw [List.contains_iff_mem.2 hmem]
  rfl

/-- A statement performs the operation whose act it shows. -/
theorem performs_iff_act {op : Operation} {ts : List Text} (hone : (loads ts && stores ts) = false)
    (hprintf : op.callname ≠ "printf") : performs op ts = true ↔ act ts = some op.act := by
  unfold performs Operation.act
  by_cases hload : op.callname = "LOAD"
  · rw [if_pos hload, if_pos hload]
    unfold act
    cases hl : loads ts with
    | true => simp
    | false =>
      cases hs : stores ts with
      | true => simp
      | false => simp
  rw [if_neg hload, if_neg hload]
  by_cases hstore : op.callname = "STORE"
  · rw [if_pos hstore, if_pos hstore]
    unfold act
    cases hs : stores ts with
    | true =>
      have hl : loads ts = false := by simpa [hs] using hone
      simp [hl]
    | false =>
      cases hl : loads ts with
      | true => simp
      | false => simp
  rw [if_neg hstore, if_neg hstore]
  constructor
  · intro hcalls
    have hs := not_stores_of_calls hcalls
    have hl : loads ts = false := by
      unfold loads
      rw [hs, Bool.false_and, Bool.or_false, Bool.eq_false_iff]
      intro hp
      have hsame := Option.some.inj ((calls_iff_callee.1 hcalls).symm.trans (calls_iff_callee.1 hp))
      exact hprintf (String.toList_inj.1 hsame)
    unfold act
    rw [hl, hs, calls_iff_callee.1 hcalls]
    rfl
  · intro hact
    unfold act at hact
    split at hact
    · cases hact
    · split at hact
      · cases hact
      · obtain ⟨f, hf, hcall⟩ := Option.map_eq_some_iff.1 hact
        rw [← Act.call.inj hcall]
        exact calls_iff_callee.2 hf

/-! ## The registered operations -/

/-- The registered operations whose code does not call the function that they name, with the function that it
calls. The code of `put_remote` begins with a declaration. -/
def misnamed : List (String × Option String) :=
  [("atomicfetchinc", some "shmem_int_atomic_fetch_inc"),
    ("atomicfetchnbi", some "shmem_int_atomic_fetch_nbi"),
    ("atomiccompareswap", some "shmem_int_atomic_compare_swap"),
    ("atomiccompareswapnbi", some "shmem_int_atomic_compare_swap_nbi"), ("put_remote", none),
    ("read_list_notify", some "gaspi_read_list_notify")]

namespace Operation

/-- The code begins with a statement that performs the operation. -/
def Truthful (op : Operation) : Prop := misnamed.lookup op.key = none

instance (op : Operation) : Decidable op.Truthful := inferInstanceAs (Decidable (_ = _))

/-- What the code of a registered operation does. -/
def shown (op : Operation) : Option Act :=
  match misnamed.lookup op.key with
  | some f => f.map fun f => .call f.toList
  | none => some op.act

end Operation

/-- The text does what the operation shows, and one thing only. -/
def shows (op : Operation) (text : Text) : Bool :=
  !(loads (words text) && stores (words text)) && act (words text) == op.shown

def Boilerplate.model : Boilerplate → Model
  | mpirma => .MPIRMA
  | shmem => .SHMEM

/-- The operation of the model with this code shows its act, also in what the macros make of the code. -/
def showsIn (m : Model) (op : Operation) (code : Text) : Bool :=
  shows op code && [Boilerplate.mpirma, .shmem].all fun b => b.model != m ||
    (shows op (b.buffers.run code) && (decide (op.name ∉ ["store", "load"]) || shows op (b.aliased.run code)))

/-! ### Their codes -/

theorem showsIn_registered (m : Model) : ∀ op ∈ m.operations, showsIn m op op.code.toList = true := by
  -- the characters are taken from the literals, which evaluates much faster than to decode the strings
  cases m with
  | MPIRMA =>
    simp only [Model.operations, mpirmaOperations, add, List.forall_mem_cons, String.toList_append]
    repeat rw [String.toList_ofList]
    decide +kernel
  | SHMEM =>
    simp only [Model.operations, shmemOperations, add, List.forall_mem_cons]
    repeat rw [String.toList_ofList]
    decide +kernel
  | GASPI =>
    simp only [Model.operations, gaspiOperations, add, List.forall_mem_cons, String.toList_append]
    repeat rw [String.toList_ofList]
    decide +kernel

/-- **Every registered operation** shows its act, in its code and in what the macros of its model's boilerplate
make of it. -/
theorem shows_of_registered (m : Model) {op : Operation} (hop : op ∈ m.operations) :
    shows op op.code.toList = true ∧ ∀ b : Boilerplate, b.model = m →
      shows op (b.replaceWithAliases op) = true ∧ shows op (b.replaceWithBuffers op) = true := by
  have h := showsIn_registered m op hop
  unfold showsIn at h
  obtain ⟨hcode, hmacros⟩ := Bool.and_eq_true_iff.1 h
  refine ⟨hcode, fun b hb => ?_⟩
  have hb' := List.all_eq_true.1 hmacros b (by cases b <;> simp)
  rw [hb, bne_self_eq_false, Bool.false_or] at hb'
  obtain ⟨hbuffers, haliased⟩ := Bool.and_eq_true_iff.1 hb'
  rw [b.replaceWithAliases_eq, b.replaceWithBuffers_eq]
  refine ⟨?_, hbuffers⟩
  split
  · rename_i hplain
    simpa [hplain] using haliased
  · exact hbuffers

/-! ### The functions that they name -/

theorem callname_ne (m : Model) {op : Operation} (hop : op ∈ m.operations) :
    op.callname ≠ "printf" ∧ ∀ p ∈ misnamed, p.2 ≠ some op.callname := by
  have hall : ∀ op ∈ m.operations, op.callname ≠ "printf" ∧ ∀ p ∈ misnamed, p.2 ≠ some op.callname := by
    cases m <;> simp [Model.operations, mpirmaOperations, shmemOperations, gaspiOperations, add, misnamed]
  exact hall op hop

/-- A code that does not call the function of its operation does not call that of another one either. -/
theorem shown_eq_some_iff {m : Model} {op o : Operation} (ho : o ∈ m.operations) :
    op.shown = some o.act ↔ op.Truthful ∧ op.act = o.act := by
  unfold Operation.shown Operation.Truthful
  cases hf : misnamed.lookup op.key with
  | none => simp
  | some f =>
    refine iff_of_false ?_ (by simp)
    intro hact
    obtain ⟨g, rfl, hcall⟩ := Option.map_eq_some_iff.1 hact
    obtain ⟨l, l', hlist, -⟩ := List.lookup_eq_some_iff.1 hf
    have hmem : (op.key, some g) ∈ misnamed := by
      rw [hlist]
      simp
    exact (callname_ne m ho).2 _ hmem (congrArg some (Operation.callname_of_act hcall.symm).symm)

/-- A shown code performs the operations whose act it shows. -/
theorem performs_of_shows {m : Model} {op o : Operation} (ho : o ∈ m.operations) {text : Text}
    (h : shows op text = true) : performs o (words text) = true ↔ op.shown = some o.act := by
  unfold shows at h
  obtain ⟨hone, hact⟩ := Bool.and_eq_true_iff.1 h
  rw [Bool.not_eq_true'] at hone
  rw [performs_iff_act hone (callname_ne m ho).1, beq_iff_eq.1 hact]

/-! ## The marked codes -/

namespace Marked

/-- The operation whose code is marked. -/
def operand : Marked → Option Operand
  | code o | aliases _ o | buffers _ o => some o
  | text _ => none

/-- What a marked code does. -/
def act (op1 op2 : Operation) : Marked → Option Act
  | code o | aliases _ o | buffers _ o => (o.get op1 op2).shown
  | text s => Generator.act (words s.toList)

theorem act_of_operand {mk : Marked} {o : Operand} (h : mk.operand = some o) (op1 op2 : Operation) :
    mk.act op1 op2 = (o.get op1 op2).shown := by
  cases mk with
  | text s => cases h
  | code o' | aliases _ o' | buffers _ o' =>
    cases h
    rfl

/-- A mark of a template of the model: a macro of its boilerplate, or a text that does one thing only. -/
def fits (m : Model) : Marked → Bool
  | code _ => true
  | aliases b _ | buffers b _ => b.model == m
  | text s => !(loads (words s.toList) && stores (words s.toList))

theorem performs_iff {m : Model} {mk : Marked} (hfits : mk.fits m = true) {op1 op2 op : Operation}
    (h1 : op1 ∈ m.operations) (h2 : op2 ∈ m.operations) (hop : op ∈ m.operations) :
    performs op (words (mk.render op1 op2)) = true ↔ mk.act op1 op2 = some op.act := by
  have hget : ∀ o : Operand, o.get op1 op2 ∈ m.operations := by
    intro o
    cases o with
    | op1 => exact h1
    | op2 => exact h2
  cases mk with
  | code o => exact performs_of_shows hop (shows_of_registered m (hget o)).1
  | aliases b o =>
    exact performs_of_shows hop ((shows_of_registered m (hget o)).2 b (beq_iff_eq.1 hfits)).1
  | buffers b o =>
    exact performs_of_shows hop ((shows_of_registered m (hget o)).2 b (beq_iff_eq.1 hfits)).2
  | text s =>
    unfold fits at hfits
    rw [Bool.not_eq_true'] at hfits
    exact performs_iff_act hfits (callname_ne m hop).1

end Marked

/-! ## The kept templates -/

/-- The templates that mark something else than the codes of the two operations in their order, by `stem` and
`ending`. -/
def outOfOrder : List (String × String) :=
  [("GASPI/misc/GASPI-misc-op1-op2-deep-nesting", "race.c.j2"), ("MPIRMA/sync/MPI-sync-request", "race.c.j2"),
    ("SHMEM/old/local/shmem-comb-op1-op2", "no.c.j2"),
    ("SHMEM/old/remote/shmem_atomic_nbi_remote_race.c.j2", ""),
    ("SHMEM/old/remote/shmem_atomic_nbi_safe.c.j2", ""), ("SHMEM/old/shmem-lock-put-load", "yes.c.j2"),
    ("SHMEM/old/shmem-quiet-op1-op2", "yes.c.j2")]

section

variable {t : KeptTemplate} {op1 op2 : Operation}

/-- What the templates of `outOfOrder` mark. -/
def otherMarks : List (List Marked) :=
  [[], [.code .op2, .code .op1], [.code .op1, .code .op1],
    [.text "localbuf = 0;", .text "localbuf = 1;"],
    [.text "MPI_Rget(&value, 1, MPI_INT, 1, 0, 1, MPI_INT, win, &req);",
      .text "printf(\"value is %d\\n\", value);"]]

theorem marked_cases (ht : t ∈ keptTemplates) : t.marked.all (Marked.fits t.model) = true ∧
    if (t.stem, t.ending) ∈ outOfOrder then t.marked ∈ otherMarks
    else t.marked.map Marked.operand = [some .op1, some .op2] := by
  have hall : ∀ t ∈ keptTemplates, t.marked.all (Marked.fits t.model) = true ∧
      if (t.stem, t.ending) ∈ outOfOrder then t.marked ∈ otherMarks
      else t.marked.map Marked.operand = [some .op1, some .op2] := by
    decide +kernel
  exact hall t ht

theorem fits_of_mem (ht : t ∈ keptTemplates) {mk : Marked} (hmk : mk ∈ t.marked) : mk.fits t.model = true :=
  List.all_eq_true.1 (marked_cases ht).1 mk hmk

/-- For registered operations, the marked codes name the operations where they show their acts, in their order. -/
theorem names_iff (ht : t ∈ keptTemplates) (h1 : op1 ∈ t.model.operations) (h2 : op2 ∈ t.model.operations) :
    t.Names op1 op2 ↔ t.marked.map (Marked.act op1 op2) = [some op1.act, some op2.act] := by
  unfold KeptTemplate.Names
  constructor
  · intro h
    obtain ⟨m1, m2, hmarked, hp1, hp2⟩ := h
    have hf1 : m1.fits t.model = true := fits_of_mem ht (by simp [hmarked])
    have hf2 : m2.fits t.model = true := fits_of_mem ht (by simp [hmarked])
    rw [hmarked, List.map_cons, List.map_singleton, (Marked.performs_iff hf1 h1 h2 h1).1 hp1,
      (Marked.performs_iff hf2 h1 h2 h2).1 hp2]
  · intro h
    obtain ⟨m1, ms, hmarked, ha1, hms⟩ := List.map_eq_cons_iff.1 h
    obtain ⟨m2, rfl, ha2⟩ := List.map_eq_singleton_iff.1 hms
    have hf1 : m1.fits t.model = true := fits_of_mem ht (by simp [hmarked])
    have hf2 : m2.fits t.model = true := fits_of_mem ht (by simp [hmarked])
    exact ⟨m1, m2, hmarked, (Marked.performs_iff hf1 h1 h2 h1).2 ha1, (Marked.performs_iff hf2 h1 h2 h2).2 ha2⟩

/-- In all other templates, only the misnamed operations are not named. -/
theorem names_iff_of_inOrder (ht : t ∈ keptTemplates) (horder : (t.stem, t.ending) ∉ outOfOrder)
    (h1 : op1 ∈ t.model.operations) (h2 : op2 ∈ t.model.operations) :
    t.Names op1 op2 ↔ op1.Truthful ∧ op2.Truthful := by
  have h := (marked_cases ht).2
  rw [if_neg horder] at h
  obtain ⟨m1, ms, hmarked, ho1, hms⟩ := List.map_eq_cons_iff.1 h
  obtain ⟨m2, rfl, ho2⟩ := List.map_eq_singleton_iff.1 hms
  rw [names_iff ht h1 h2, hmarked, List.map_cons, List.map_singleton, Marked.act_of_operand ho1,
    Marked.act_of_operand ho2]
  show [op1.shown, op2.shown] = [some op1.act, some op2.act] ↔ _
  rw [List.cons_eq_cons, List.cons_eq_cons, shown_eq_some_iff h1, shown_eq_some_iff h2]
  simp

theorem acts_of_texts (op1 op2 : Operation) :
    [Marked.text "localbuf = 0;", .text "localbuf = 1;"].map (Marked.act op1 op2) =
      [some .store, some .store] ∧
    [Marked.text "MPI_Rget(&value, 1, MPI_INT, 1, 0, 1, MPI_INT, win, &req);",
      .text "printf(\"value is %d\\n\", value);"].map (Marked.act op1 op2) =
      [some (.call "MPI_Rget".toList), some .load] := by
  show [Generator.act (words _), Generator.act (words _)] = _ ∧
    [Generator.act (words _), Generator.act (words _)] = _
  repeat rw [String.toList_ofList]
  decide +kernel

/-- These templates do not name two operations that do different things, the fixed `MPI_Rget` apart. -/
theorem not_names_of_outOfOrder (ht : t ∈ keptTemplates) (horder : (t.stem, t.ending) ∈ outOfOrder)
    (h1 : op1 ∈ t.model.operations) (h2 : op2 ∈ t.model.operations) (hne : op1.act ≠ op2.act)
    (hrget : op1.callname ≠ "MPI_Rget") : ¬ t.Names op1 op2 := by
  have hmarks := (marked_cases ht).2
  rw [if_pos horder] at hmarks
  simp only [otherMarks, List.mem_cons, List.not_mem_nil, or_false] at hmarks
  rw [names_iff ht h1 h2]
  intro hacts
  obtain hm | hm | hm | hm | hm := hmarks
  all_goals rw [hm] at hacts
  · cases hacts
  · have ha1 : op2.shown = some op1.act := (List.cons_eq_cons.1 hacts).1
    exact hne ((shown_eq_some_iff h1).1 ha1).2.symm
  · have ha2 : op1.shown = some op2.act := (List.cons_eq_cons.1 (List.cons_eq_cons.1 hacts).2).1
    exact hne ((shown_eq_some_iff h2).1 ha2).2
  · -- two stores
    rw [(acts_of_texts op1 op2).1] at hacts
    obtain ⟨ha1, hrest⟩ := List.cons_eq_cons.1 hacts
    obtain ⟨ha2, -⟩ := List.cons_eq_cons.1 hrest
    exact hne (Option.some.inj (ha1.symm.trans ha2))
  · rw [(acts_of_texts op1 op2).2] at hacts
    exact hrget (Operation.callname_of_act (Option.some.inj (List.cons_eq_cons.1 hacts).1).symm)

end

end Generator
