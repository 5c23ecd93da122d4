import RMARaceBench.Generator.Labels

/-!
# The text of the label comment

* `loads_labelJson`: the JSON text of the labels is loaded, for operations without quotes and backslashes.
* `replace_labelComment1`, `replace_labelComment2`: filling in a location changes only that location.
-/

set_option autoImplicit false

namespace Generator

open Python Python.Json

/-! ## The JSON text -/

/-- A text that may stand in a JSON string as it is. -/
def Plain (t : Text) : Prop := ∀ c ∈ t, c ≠ '"' ∧ c ≠ '\\'

theorem Plain.append {t u : Text} (ht : Plain t) (hu : Plain u) : Plain (t ++ u) := by
  intro c hc
  obtain hc | hc := List.mem_append.1 hc
  · exact ht c hc
  · exact hu c hc

theorem Plain.cons {c : Char} {t : Text} (hc : c ≠ '"' ∧ c ≠ '\\') (ht : Plain t) : Plain (c :: t) := by
  intro x hx
  obtain rfl | hx := List.mem_cons.1 hx
  · exact hc
  · exact ht x hx

/-- `"t"`. -/
def quoted (t : Text) : Text := '"' :: (t ++ ['"'])

theorem Plain.reads {t : Text} (h : Plain t) : Reads 1 (quoted t) (.str t) := .str h

namespace RenderArgs

variable {a : RenderArgs}

/-- The members before the races pair. -/
def frontMembers (a : RenderArgs) : List (Text × Json) :=
  [("RACE_KIND".toList, .str a.raceKind),
    ("ACCESS_SET".toList, .arr [.str a.accessSet.1.toList, .str a.accessSet.2.toList])]

def backMembers (a : RenderArgs) : List (Text × Json) :=
  [("NPROCS".toList, .int a.nprocs), ("DESCRIPTION".toList, .str a.description)]

def pairMembers (a : RenderArgs) (loc1 loc2 : Text) : List (Text × Json) :=
  if a.race then [("RACE_PAIR".toList, .arr [.str (a.pair loc1 loc2).1, .str (a.pair loc1 loc2).2])]
  else []

/-- The value of the JSON text. -/
def metadata (a : RenderArgs) (loc1 loc2 : Text) : Json :=
  .obj (a.frontMembers ++ a.pairMembers loc1 loc2 ++ a.backMembers)

/-- The texts of the arguments may stand in JSON strings. -/
structure PlainLabels (a : RenderArgs) (loc1 loc2 : Text) : Prop where
  access1 : Plain a.accessSet.1.toList
  access2 : Plain a.accessSet.2.toList
  pair1 : Plain (a.pair loc1 loc2).1
  pair2 : Plain (a.pair loc1 loc2).2
  description : Plain a.description

def indent : Text := "\n    ".toList

theorem labelJson_eq (a : RenderArgs) (loc1 loc2 : Text) :
    a.labelJson loc1 loc2 = '\x7b' :: (indent ++ membersText indent "\n".toList
      ("RACE_KIND".toList, quoted a.raceKind)
      ([("ACCESS_SET".toList, '[' :: itemsText (quoted a.accessSet.1.toList)
          [quoted a.accessSet.2.toList])] ++
        (if a.race then [("RACE_PAIR".toList, '[' :: itemsText (quoted (a.pair loc1 loc2).1)
          [quoted (a.pair loc1 loc2).2])] else []) ++
        [("NPROCS".toList, Nat.toDigits 10 a.nprocs), ("DESCRIPTION".toList, quoted a.description)])) := by
  unfold labelJson
  cases a.race with
  | true =>
    simp only [if_true, List.cons_append, List.nil_append, membersText, itemsText, quoted,
      List.append_assoc]
    rfl
  | false =>
    simp only [Bool.false_eq_true, if_false, List.cons_append, List.nil_append, membersText, itemsText, quoted,
      List.append_assoc]
    rfl

theorem reads_pair {t u : Text} (ht : Plain t) (hu : Plain u) :
    Reads 2 ('[' :: itemsText (quoted t) [quoted u]) (.arr [.str t, .str u]) :=
  .arr ht.reads (.cons hu.reads .nil)

theorem plain_raceKind (a : RenderArgs) : Plain a.raceKind := by
  have hall : ∀ k : AccessKind, k.word.all (fun c => c ≠ '"' ∧ c ≠ '\\') = true := by
    intro k
    cases k <;> decide
  have hnone : "none".toList.all (fun c => c ≠ '"' ∧ c ≠ '\\') = true := by decide
  unfold raceKind Plain
  intro c hc
  split at hc
  · exact of_decide_eq_true (List.all_eq_true.1 (hall a.accessKind) c hc)
  · exact of_decide_eq_true (List.all_eq_true.1 hnone c hc)

theorem readsMember (key : Text) {t : Text} {j : Json} (hk : key.all (fun c => c ≠ '"' ∧ c ≠ '\\') = true)
    {d : Nat} (h : Reads d t j) (hd : d ≤ 2) : ReadsMember 2 (key, t) (key, j) :=
  ⟨rfl, fun c hc => of_decide_eq_true (List.all_eq_true.1 hk c hc), h.mono hd⟩

/-- The labels are loaded as the object that they show. -/
theorem loads_labelJson {loc1 loc2 : Text} (h : a.PlainLabels loc1 loc2) :
    loads (a.labelJson loc1 loc2) = some (a.metadata loc1 loc2) := by
  have hws : ∀ c ∈ indent, isWs c = true := List.all_eq_true.1 (by decide : indent.all isWs = true)
  have hclose : ∀ c ∈ "\n".toList, isWs c = true :=
    List.all_eq_true.1 (by decide : "\n".toList.all isWs = true)
  have hkind := readsMember "RACE_KIND".toList (by decide) (plain_raceKind a).reads (by decide)
  have haccess := readsMember "ACCESS_SET".toList (by decide)
    (reads_pair h.access1 h.access2) (le_refl 2)
  have hpair := readsMember "RACE_PAIR".toList (by decide) (reads_pair h.pair1 h.pair2)
    (le_refl 2)
  have hnprocs := readsMember "NPROCS".toList (by decide) (Reads.nat a.nprocs) (by decide)
  have hdesc := readsMember "DESCRIPTION".toList (by decide) h.description.reads (by decide)
  have hreads : Reads 3 (a.labelJson loc1 loc2) (a.metadata loc1 loc2) := by
    rw [labelJson_eq]
    unfold metadata frontMembers pairMembers backMembers
    cases a.race with
    | true =>
      simp only [if_true, List.cons_append, List.nil_append]
      exact .obj hws hclose hkind (.cons haccess (.cons hpair (.cons hnprocs (.cons hdesc .nil))))
    | false =>
      simp only [Bool.false_eq_true, if_false, List.cons_append, List.nil_append]
      exact .obj hws hclose hkind (.cons haccess (.cons hnprocs (.cons hdesc .nil)))
  refine loads_eq hreads ?_
  have hlen : indent.length = 5 := rfl
  rw [labelJson_eq, List.length_cons, List.length_append]
  omega

end RenderArgs

/-! ## Filling in the locations -/

/-- A text in which no occurrence of `old` begins, whatever stands behind it. -/
def Inert (old t : Text) : Prop := ∀ new s, (t ++ s).replace old new = t ++ s.replace old new

/-- The placeholder of a location. -/
structure IsPlaceholder (old : Text) : Prop where
  shape : ∃ o, old = '\x7b' :: 'r' :: o
  quote : '"' ∉ old
  sign : '@' ∉ old
  space : ' ' ∉ old

theorem isPlaceholder1 : IsPlaceholder placeholder1 :=
  ⟨⟨_, rfl⟩, by decide, by decide, by decide⟩

theorem isPlaceholder2 : IsPlaceholder placeholder2 :=
  ⟨⟨_, rfl⟩, by decide, by decide, by decide⟩

theorem IsPlaceholder.ne_nil {old : Text} (h : IsPlaceholder old) : old ≠ [] := by
  obtain ⟨o, rfl⟩ := h.shape
  exact List.cons_ne_nil _ _

namespace Inert

variable {old : Text} (ho : IsPlaceholder old)

theorem nil : Inert old [] := fun _ _ => rfl

theorem append {t u : Text} (ht : Inert old t) (hu : Inert old u) : Inert old (t ++ u) := by
  intro new s
  rw [List.append_assoc, ht, hu, List.append_assoc]

include ho

/-- A text without braces. -/
theorem fixed {w : Text} (hw : '\x7b' ∉ w) : Inert old w := by
  obtain ⟨o, rfl⟩ := ho.shape
  intro new s
  exact Text.replace_append_of_head new hw s

/-- The opening brace of the JSON text. -/
theorem brace : Inert old ['\x7b', '\n'] := by
  obtain ⟨o, rfl⟩ := ho.shape
  intro new s
  have h1 : ¬ '\x7b' :: 'r' :: o <+: '\x7b' :: '\n' :: s := by simp [List.cons_prefix_cons]
  have h2 : ¬ '\x7b' :: 'r' :: o <+: '\n' :: s := by simp [List.cons_prefix_cons]
  show Text.replace ('\x7b' :: '\n' :: s) _ new = '\x7b' :: '\n' :: Text.replace s _ new
  rw [Text.replace_cons_of_ne h1, Text.replace_cons_of_ne h2]

/-- A text without a placeholder, and a character that is in none. -/
theorem field {f : Text} {c : Char} (hf : ¬ old <:+: f) (hc : c ∉ old) : Inert old (f ++ [c]) := by
  intro new s
  rw [List.append_assoc, List.singleton_append, Text.replace_append_cons new hc ho.ne_nil,
    Text.replace_eq_self new hf, List.append_assoc, List.singleton_append]

end Inert

/-- A text for the labels. -/
structure CleanText (t : Text) : Prop where
  chars : ∀ c ∈ t, c ≠ '"' ∧ c ≠ '\\' ∧ c ≠ '/' ∧ c ≠ '@' ∧ c ≠ '\r'
  placeholder1 : ¬ placeholder1 <:+: t
  placeholder2 : ¬ placeholder2 <:+: t

theorem CleanText.not_mem {t : Text} {c : Char} (h : CleanText t) (hc : c = '/' ∨ c = '\r') : c ∉ t := by
  intro hm
  obtain ⟨-, -, hslash, -, hcr⟩ := h.chars c hm
  exact hc.elim hslash hcr

theorem CleanText.plain {t : Text} (h : CleanText t) : Plain t := fun c hc =>
  ⟨(h.chars c hc).1, (h.chars c hc).2.1⟩

/-- The short name, the call name and the kinds of an operation are texts for the labels. -/
structure CleanOperation (op : Operation) : Prop where
  name : CleanText op.name.toList
  callname : CleanText op.callname.toList
  localOpkind : CleanText op.localOpkind.toList
  remoteOpkind : CleanText op.remoteOpkind.toList

namespace RenderArgs

variable (a : RenderArgs)

/-- The comment of a racy case up to the first location. -/
def front : Text :=
  beginMarker ++ "\n".toList ++ ['\x7b', '\n'] ++ "    \"RACE_KIND\": \"".toList ++ a.raceKind ++
    "\",\n    \"ACCESS_SET\": [\"".toList ++ (a.accessSet.1.toList ++ ['"']) ++ ",\"".toList ++
    (a.accessSet.2.toList ++ ['"']) ++ "],\n    \"RACE_PAIR\": [\"".toList ++
    (Generator.callname a.op1 ++ ['@'])

/-- Between the locations. -/
def middle : Text := "\",\"".toList ++ (Generator.callname a.op2 ++ ['@'])

/-- Behind the second location. -/
def back : Text :=
  "\"],\n    \"NPROCS\": ".toList ++ Nat.toDigits 10 a.nprocs ++
    ",\n    \"DESCRIPTION\": \"Two conflicting operations ".toList ++ (opName a.op1 ++ [' ']) ++
    "and ".toList ++ (opName a.op2 ++ [' ']) ++
    "executed concurrently which leads to a race.\"\n\x7d\n".toList ++ endMarker

variable {a}

theorem labelComment_eq (h : a.race = true) (loc1 loc2 : Text) :
    a.labelComment loc1 loc2 = a.front ++ (loc1 ++ (a.middle ++ (loc2 ++ a.back))) := by
  unfold labelComment labelJson description pair front middle back
  simp only [h, if_true, List.append_assoc, List.cons_append, List.nil_append]
  rfl

/-- The texts that the labels of two operations are made of. -/
structure Clean (a : RenderArgs) : Prop where
  access1 : CleanText a.accessSet.1.toList
  access2 : CleanText a.accessSet.2.toList
  callname1 : CleanText (Generator.callname a.op1)
  callname2 : CleanText (Generator.callname a.op2)
  name1 : CleanText (opName a.op1)
  name2 : CleanText (opName a.op2)

section

variable {old : Text} (ho : IsPlaceholder old) (hin : ∀ t, CleanText t → ¬ old <:+: t)
include ho hin

theorem inert_front (h : a.Clean) : Inert old a.front := by
  have hkind : '\x7b' ∉ a.raceKind := by
    unfold raceKind
    cases a.race <;> cases a.accessKind <;> decide
  have fixed : ∀ {w : Text}, '\x7b' ∉ w → Inert old w := fun hw => .fixed ho hw
  unfold front
  refine .append (.append (.append (.append (.append (.append (.append (.append (.append (.append
    ?_ ?_) ?_) ?_) ?_) ?_) ?_) ?_) ?_) ?_) ?_
  · exact fixed (by decide)
  · exact fixed (by decide)
  · exact .brace ho
  · exact fixed (by decide)
  · exact fixed hkind
  · exact fixed (by decide)
  · exact .field ho (hin _ h.access1) ho.quote
  · exact fixed (by decide)
  · exact .field ho (hin _ h.access2) ho.quote
  · exact fixed (by decide)
  · exact .field ho (hin _ h.callname1) ho.sign

theorem inert_middle (h : a.Clean) : Inert old a.middle :=
  .append (.fixed ho (by decide)) (.field ho (hin _ h.callname2) ho.sign)

theorem inert_back (h : a.Clean) : Inert old a.back := by
  have hnum : '\x7b' ∉ Nat.toDigits 10 a.nprocs := fun hm =>
    absurd (toDigits_isDigit a.nprocs _ hm) (by decide)
  have fixed : ∀ {w : Text}, '\x7b' ∉ w → Inert old w := fun hw => .fixed ho hw
  unfold back
  refine .append (.append (.append (.append (.append (.append (.append ?_ ?_) ?_) ?_) ?_) ?_) ?_) ?_
  · exact fixed (by decide)
  · exact fixed hnum
  · exact fixed (by decide)
  · exact .field ho (hin _ h.name1) ho.space
  · exact fixed (by decide)
  · exact .field ho (hin _ h.name2) ho.space
  · exact fixed (by decide)
  · exact fixed (by decide)

end

/-- The first replacement fills in the first location. -/
theorem replace_labelComment1 (hr : a.race = true) (h : a.Clean) (loc1 : Text) :
    (a.labelComment placeholder1 placeholder2).replace placeholder1 loc1 =
      a.labelComment loc1 placeholder2 := by
  have hin : ∀ t, CleanText t → ¬ placeholder1 <:+: t := fun _ ht => ht.placeholder1
  have hother : Inert placeholder1 placeholder2 := by
    intro new s
    have hne : ¬ placeholder1 <+: placeholder2 ++ s := by
      intro hp
      have hle := List.prefix_of_prefix_length_le hp (List.prefix_append placeholder2 s) (by decide)
      exact absurd hle (by decide)
    have hrest := Inert.fixed isPlaceholder1 (show '\x7b' ∉ placeholder2.tail by decide) new s
    have hcons : placeholder2 ++ s = '\x7b' :: (placeholder2.tail ++ s) := rfl
    rw [hcons] at hne ⊢
    rw [Text.replace_cons_of_ne hne, hrest]
    rfl
  have hback := inert_back isPlaceholder1 hin h loc1 []
  rw [List.append_nil, Text.replace_nil, List.append_nil] at hback
  rw [labelComment_eq hr, labelComment_eq hr, inert_front isPlaceholder1 hin h,
    Text.replace_old_append isPlaceholder1.ne_nil, inert_middle isPlaceholder1 hin h, hother, hback]

/-- The second replacement fills in the second location. -/
theorem replace_labelComment2 (hr : a.race = true) (h : a.Clean) {loc1 : Text} (h1 : '\x7b' ∉ loc1)
    (loc2 : Text) :
    (a.labelComment loc1 placeholder2).replace placeholder2 loc2 = a.labelComment loc1 loc2 := by
  have hin : ∀ t, CleanText t → ¬ placeholder2 <:+: t := fun _ ht => ht.placeholder2
  have hloc : Inert placeholder2 loc1 := .fixed isPlaceholder2 h1
  have hback := inert_back isPlaceholder2 hin h loc2 []
  rw [List.append_nil, Text.replace_nil, List.append_nil] at hback
  rw [labelComment_eq hr, labelComment_eq hr, inert_front isPlaceholder2 hin h, hloc,
    inert_middle isPlaceholder2 hin h, Text.replace_old_append isPlaceholder2.ne_nil, hback]

theorem replace_append_of_last {old x t : Text} {c : Char} (new : Text) (ho : old ≠ []) (hc : c ∉ old)
    (hx : ∃ y, x = y ++ [c]) : (x ++ t).replace old new = x.replace old new ++ t.replace old new := by
  obtain ⟨y, rfl⟩ := hx
  have hy : Text.replace (y ++ c :: []) old new = Text.replace y old new ++ c :: Text.replace [] old new :=
    Text.replace_append_cons new hc ho
  rw [List.append_assoc, List.singleton_append, Text.replace_append_cons new hc ho, hy,
    Text.replace_nil, List.append_assoc, List.singleton_append]

/-- No placeholder reaches over the ends of the comment. -/
theorem replace_around {old : Text} (ho : old ≠ []) (hslash : '/' ∉ old) (hd : 'D' ∉ old)
    (loc1 loc2 new pre rest : Text) :
    (pre ++ (a.labelComment loc1 loc2 ++ rest)).replace old new =
      pre.replace old new ++
        ((a.labelComment loc1 loc2).replace old new ++ rest.replace old new) := by
  have hlast : ∃ y, a.labelComment loc1 loc2 = y ++ ['D'] :=
    ⟨beginMarker ++ "\n".toList ++ a.labelJson loc1 loc2 ++ "\n".toList ++ endMarker.dropLast, by
      unfold labelComment
      simp only [List.append_assoc]
      rfl⟩
  have hhead : ∀ c ∈ (a.labelComment loc1 loc2 ++ rest).head?, c ∉ old := by
    intro c hc
    obtain rfl : '/' = c := Option.some.inj hc
    exact hslash
  rw [Text.replace_append_of_ends ho hhead, replace_append_of_last new ho hd hlast]

end RenderArgs

end Generator
