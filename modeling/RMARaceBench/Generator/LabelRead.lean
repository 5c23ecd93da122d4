import RMARaceBench.Generator.LabelText

/-!
# Reading the label comment

* `jsonString_labelComment`: the two markers cut the JSON text out of a file.
* `testInit_race`, `testInit_noRace`: what `Test.__init__` reads from a file with a label comment.
-/

set_option autoImplicit false

namespace Generator

open Python Python.Json
open Runner (decimal)

/-- A text of a location, as it stands in a label. -/
structure IsLocation (loc : Text) (n : Int) : Prop where
  plain : Plain loc
  slash : '/' ∉ loc
  sign : '@' ∉ loc
  brace : '\x7b' ∉ loc
  parse : parseInt loc = some n

theorem isLocation_decimal (n : Int) : IsLocation (decimal n) n where
  plain := by
    intro c hc
    constructor <;> (rintro rfl; exact not_mem_decimal (by decide) (by decide) n hc)
  slash := not_mem_decimal (by decide) (by decide) n
  sign := not_mem_decimal (by decide) (by decide) n
  brace := not_mem_decimal (by decide) (by decide) n
  parse := by
    cases n with
    | ofNat n => exact parseInt_toDigits n
    | negSucc n => exact parseInt_neg_toDigits (n + 1)

namespace RenderArgs

variable {a : RenderArgs}

/-! ## Cutting out the JSON text -/

theorem not_mem_labelJson {c : Char} (hc : c = '/' ∨ c = '\r') (h : a.Clean) {loc1 loc2 : Text}
    (h1 : c ∉ loc1) (h2 : c ∉ loc2) : c ∉ a.labelJson loc1 loc2 := by
  have fixed : ∀ {w : Text}, '/' ∉ w ∧ '\r' ∉ w → c ∉ w := by
    intro w hw
    obtain rfl | rfl := hc
    · exact hw.1
    · exact hw.2
  have clean : ∀ {t : Text}, CleanText t → c ∉ t := fun ht => ht.not_mem hc
  have hkind : c ∉ a.raceKind := by
    unfold raceKind
    cases a.race <;> cases a.accessKind <;> exact fixed (by decide)
  have hnum : c ∉ Nat.toDigits 10 a.nprocs := by
    intro hm
    have hd := toDigits_isDigit a.nprocs _ hm
    obtain rfl | rfl := hc <;> cases hd
  have hdesc : c ∉ a.description := by
    unfold description
    split <;>
      exact List.not_mem_append (List.not_mem_append (List.not_mem_append (List.not_mem_append
        (fixed (by decide)) (clean h.name1)) (fixed (by decide))) (clean h.name2)) (fixed (by decide))
  have hpair : c ∉ (if a.race then
      "\n    \"RACE_PAIR\": [\"".toList ++ (a.pair loc1 loc2).1 ++ "\",\"".toList ++
        (a.pair loc1 loc2).2 ++ "\"],".toList
    else []) := by
    have hat : c ≠ '@' := by obtain rfl | rfl := hc <;> decide
    have hloc : ∀ {t l : Text}, CleanText t → c ∉ l → c ∉ t ++ '@' :: l := fun ht hl =>
      List.not_mem_append (clean ht) (List.not_mem_cons_of_ne_of_not_mem hat hl)
    split
    · exact List.not_mem_append (List.not_mem_append (List.not_mem_append (List.not_mem_append
        (fixed (by decide)) (hloc h.callname1 h1)) (fixed (by decide))) (hloc h.callname2 h2))
        (fixed (by decide))
    · exact List.not_mem_nil
  unfold labelJson
  refine List.not_mem_append (List.not_mem_append (List.not_mem_append (List.not_mem_append
    (List.not_mem_append (List.not_mem_append (List.not_mem_append (List.not_mem_append
    (List.not_mem_append (List.not_mem_append (List.not_mem_append (List.not_mem_append
    (List.not_mem_append (List.not_mem_append ?_ hkind) ?_) ?_) (clean h.access1)) ?_)
    (clean h.access2)) ?_) hpair) ?_) hnum) ?_) ?_) hdesc) ?_
  all_goals exact fixed (by decide)

/-- No begin marker begins in the end marker. -/
theorem splitFrom_endMarker (cur s : Text) :
    splitFrom beginMarker 0 cur (endMarker ++ s) = splitFrom beginMarker 0 (cur ++ endMarker) s := by
  have hother : ∀ {c : Char} (t : Text), c ≠ '/' → ¬ beginMarker <+: c :: t := by
    intro c t hc h
    exact hc (List.cons_prefix_cons.1 h).1.symm
  have hone : ∀ {c : Char} (t : Text), c ≠ '/' → ¬ beginMarker <+: '/' :: c :: t := by
    intro c t hc h
    exact hc (List.cons_prefix_cons.1 (List.cons_prefix_cons.1 h).2).1.symm
  have htwo : ¬ beginMarker <+: '/' :: '/' :: (" RACE LABELS END".toList ++ s) := by
    intro h
    -- the markers differ behind the words that they share
    have h16 : beginMarker.take 16 <+: "// RACE LABELS END".toList ++ s :=
      (List.take_prefix 16 beginMarker).trans h
    have := List.prefix_of_prefix_length_le h16 (List.prefix_append _ s) (by decide)
    exact absurd this (by decide)
  have hthree : ¬ beginMarker <+: '/' :: (" RACE LABELS END".toList ++ s) :=
    hone (c := ' ') _ (by decide)
  have htail : ∀ cur, splitFrom beginMarker 0 cur (" RACE LABELS END".toList ++ s) =
      splitFrom beginMarker 0 (cur ++ " RACE LABELS END".toList) s := fun _ =>
    splitFrom_of_head (by decide)
  have hsplit : endMarker ++ s =
      '*' :: '/' :: '\n' :: '/' :: '/' :: (" RACE LABELS END".toList ++ s) := rfl
  have hcur : cur ++ endMarker =
      cur ++ ['*'] ++ ['/'] ++ ['\n'] ++ ['/'] ++ ['/'] ++ " RACE LABELS END".toList := by
    simp only [List.append_assoc]
    rfl
  rw [hsplit, hcur, splitFrom_step (hother _ (by decide)), splitFrom_step (hone _ (by decide)),
    splitFrom_step (hother _ (by decide)), splitFrom_step htwo, splitFrom_step hthree, htail]

/-- The text between the markers. -/
theorem jsonString_labelComment (h : a.Clean) {loc1 loc2 pre : Text} (hpre : ¬ beginMarker <:+: pre)
    (h1 : '/' ∉ loc1) (h2 : '/' ∉ loc2) (rest : Text) :
    jsonString (pre ++ (a.labelComment loc1 loc2 ++ rest)) =
      some ('\n' :: (a.labelJson loc1 loc2 ++ ['\n'])) := by
  have hjson : '/' ∉ '\n' :: (a.labelJson loc1 loc2 ++ ['\n']) := by
    rw [List.mem_cons, List.mem_append, not_or, not_or]
    exact ⟨by decide, not_mem_labelJson (.inl rfl) h h1 h2, by decide⟩
  generalize hbody : '\n' :: (a.labelJson loc1 loc2 ++ ['\n']) = body at hjson ⊢
  have hcomment : a.labelComment loc1 loc2 ++ rest = beginMarker ++ (body ++ (endMarker ++ rest)) := by
    have hnewline : "\n".toList = ['\n'] := rfl
    rw [← hbody]
    unfold labelComment
    simp only [hnewline, List.append_assoc, List.cons_append, List.nil_append]
  have hbegin : ¬ beginMarker <:+: pre ++ beginMarker.dropLast :=
    not_infix_append_dropLast (by decide) (by decide) hpre
  have hnone : ¬ endMarker <:+: body := fun hi => hjson (hi.subset (by decide))
  have hend : ¬ endMarker <:+: body ++ endMarker.dropLast :=
    not_infix_append_dropLast (by decide) (by decide) hnone
  obtain ⟨y, l, hy⟩ : ∃ y l, splitFrom beginMarker 0 (body ++ endMarker) rest =
      (body ++ endMarker ++ y) :: l := splitFrom_eq_cons 0
  have hfirst : split (body ++ (endMarker ++ rest)) beginMarker = (body ++ endMarker ++ y) :: l := by
    have hbody' : splitFrom beginMarker 0 [] (body ++ (endMarker ++ rest)) =
        splitFrom beginMarker 0 ([] ++ body) (endMarker ++ rest) := splitFrom_of_head hjson
    unfold split
    rw [hbody', List.nil_append, splitFrom_endMarker, hy]
  unfold jsonString
  rw [hcomment, split_append (by decide) hbegin, hfirst]
  show (split (body ++ endMarker ++ y) endMarker)[0]? = some body
  rw [List.append_assoc, split_append (by decide) hend]
  rfl

/-! ## The values -/

theorem labelJson_ends (a : RenderArgs) (loc1 loc2 : Text) :
    ∃ s, a.labelJson loc1 loc2 = '\x7b' :: (s ++ ['\x7d']) := by
  have hends : ∀ m ms, ∃ s, '\x7b' :: (indent ++ membersText indent "\n".toList m ms) =
      '\x7b' :: (s ++ ['\x7d']) := by
    intro m ms
    obtain ⟨s, hs⟩ := membersText_concat indent "\n".toList m ms
    exact ⟨indent ++ s, by rw [hs, List.append_assoc]⟩
  rw [labelJson_eq]
  exact hends _ _

theorem strip_labelJson (a : RenderArgs) (loc1 loc2 : Text) :
    strip ('\n' :: (a.labelJson loc1 loc2 ++ ['\n'])) = a.labelJson loc1 loc2 := by
  have hspace : ∀ x ∈ ['\n'], Python.isSpace x = true := by
    intro x hx
    obtain rfl := List.mem_singleton.1 hx
    decide
  obtain ⟨s, hs⟩ := labelJson_ends a loc1 loc2
  rw [hs]
  exact strip_append hspace hspace (by decide) (by decide) s

/-- The text is loaded if the locations may stand in it. -/
theorem Clean.plainLabels (h : a.Clean) {loc1 loc2 : Text} (h1 : Plain loc1) (h2 : Plain loc2) :
    a.PlainLabels loc1 loc2 where
  access1 := h.access1.plain
  access2 := h.access2.plain
  pair1 := h.callname1.plain.append (Plain.cons (by decide) h1)
  pair2 := h.callname2.plain.append (Plain.cons (by decide) h2)
  description := by
    have fixed : ∀ {w : Text}, w.all (fun c => c ≠ '"' ∧ c ≠ '\\') = true → Plain w :=
      fun hw c hc => of_decide_eq_true (List.all_eq_true.1 hw c hc)
    unfold description
    split <;>
      exact .append (.append (.append (.append (fixed (by decide)) h.name1.plain)
        (fixed (by decide))) h.name2.plain) (fixed (by decide))

/-- The metadata of a file with a label comment. -/
theorem metadata_labelComment (h : a.Clean) {pre : Text} (hpre : ¬ beginMarker <:+: pre)
    {loc1 loc2 : Text} {n m : Int} (h1 : IsLocation loc1 n) (h2 : IsLocation loc2 m) (rest : Text) :
    ((jsonString (pre ++ (a.labelComment loc1 loc2 ++ rest))).bind fun text => loads (strip text)) =
      some (a.metadata loc1 loc2) := by
  have hplain := h.plainLabels h1.plain h2.plain
  rw [jsonString_labelComment h hpre h1.slash h2.slash, Option.bind_some, strip_labelJson,
    loads_labelJson hplain]

/-- The location behind the sign. -/
theorem parseInt_split_pair {t : Text} (ht : '@' ∉ t) {loc : Text} {n : Int} (h : IsLocation loc n) :
    (split (t ++ '@' :: loc) "@".toList)[1]?.bind parseInt = some n := by
  have hpiece : ¬ "@".toList <:+: t ++ "@".toList.dropLast := by
    intro hi
    rw [show "@".toList.dropLast = [] from rfl, List.append_nil] at hi
    exact ht (hi.subset (by decide))
  have hrest : ¬ "@".toList <:+: loc := fun hi => h.sign (hi.subset (by decide))
  have hsign : '@' :: loc = "@".toList ++ loc := rfl
  rw [hsign, split_append (by decide) hpiece, split_eq_self hrest]
  exact h.parse

/-! ## The attributes -/

theorem testInit_eq (h : a.Clean) {content pre rest loc1 loc2 : Text} {n m : Int}
    (h1 : IsLocation loc1 n) (h2 : IsLocation loc2 m)
    (hc : readText content = pre ++ (a.labelComment loc1 loc2 ++ rest))
    (hpre : ¬ beginMarker <:+: pre) :
    testInit content = readLabels (a.metadata loc1 loc2) := by
  have hmeta := metadata_labelComment h hpre h1 h2 rest
  show ((jsonString (readText content)).bind fun text => (loads (strip text)).bind readLabels) = _
  rw [hc, ← Option.bind_assoc, hmeta, Option.bind_some]

/-- What is read back from the labels of a racy case. -/
theorem readLabels_race (hr : a.race = true) (h : a.Clean) {loc1 loc2 : Text} {n m : Int}
    (h1 : IsLocation loc1 n) (h2 : IsLocation loc2 m) :
    readLabels (a.metadata loc1 loc2) =
      some
        { raceKind := .str a.accessKind.word
          hasRace := true
          accessSet := some (.arr [.str a.accessSet.1.toList, .str a.accessSet.2.toList])
          racePair := some (.arr [.str (a.pair loc1 loc2).1, .str (a.pair loc1 loc2).2])
          raceLoc1 := some n
          raceLoc2 := some m
          description := .str a.description
          nprocs := .int a.nprocs } := by
  have hkind : isNone (.str a.accessKind.word) = false := by cases a.accessKind <;> rfl
  have hsign : ∀ {t : Text}, CleanText t → '@' ∉ t := fun ht hm => (ht.chars _ hm).2.2.2.1 rfl
  have hloc1 : locOf (.arr [.str (a.pair loc1 loc2).1, .str (a.pair loc1 loc2).2]) 0 = some n :=
    parseInt_split_pair (hsign h.callname1) h1
  have hloc2 : locOf (.arr [.str (a.pair loc1 loc2).1, .str (a.pair loc1 loc2).2]) 1 = some m :=
    parseInt_split_pair (hsign h.callname2) h2
  unfold readLabels metadata frontMembers pairMembers backMembers raceKind
  rw [hr]
  show (if isNone (.str a.accessKind.word) = true then _ else
    (locOf _ 0).bind fun loc1 => (locOf _ 1).bind fun loc2 => some _) = _
  rw [hkind, if_neg Bool.false_ne_true, hloc1, Option.bind_some, hloc2, Option.bind_some]
  rfl

/-- What is read back from the labels of a case without a race. -/
theorem readLabels_noRace (hr : a.race = false) (loc1 loc2 : Text) :
    readLabels (a.metadata loc1 loc2) =
      some
        { raceKind := .str "none".toList
          hasRace := false
          description := .str a.description
          nprocs := .int a.nprocs } := by
  unfold metadata frontMembers pairMembers backMembers raceKind
  rw [hr]
  rfl

end RenderArgs

end Generator
