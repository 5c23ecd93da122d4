import RMARaceBench.Generator.Kind
import RMARaceBench.Generator.Replace
import RMARaceBench.Python.Json
import RMARaceBench.Python.Strings
import RMARaceBench.Runner.Tools

/-!
# The race labels of a file

The label comment that a template starts with, how `render_template` fills in the locations, and how
`Test.__init__` reads the comment.
-/

set_option autoImplicit false

namespace Generator

open Python
open Runner (decimal)

/-! ## The label comment -/

def beginMarker : Text := "// RACE LABELS BEGIN\n/*".toList

def endMarker : Text := "*/\n// RACE LABELS END".toList

/-- `{{op.callname}}`; an undefined value renders as the empty text. -/
def callname : Option Operation → Text
  | some op => op.callname.toList
  | none => []

namespace RenderArgs

variable (a : RenderArgs)

/-- `RACE_PAIR`, for two texts of locations. -/
def pair (loc1 loc2 : Text) : Text × Text :=
  (callname a.op1 ++ '@' :: loc1, callname a.op2 ++ '@' :: loc2)

def description : Text :=
  if a.race then
    "Two conflicting operations ".toList ++ opName a.op1 ++ " and ".toList ++ opName a.op2 ++
      " executed concurrently which leads to a race.".toList
  else
    "Two non-conflicting operations ".toList ++ opName a.op1 ++ " and ".toList ++ opName a.op2 ++
      " executed concurrently with no race.".toList

/-- The JSON text of the block `race_labels`, for two texts of locations. -/
def labelJson (loc1 loc2 : Text) : Text :=
  "\x7b\n    \"RACE_KIND\": \"".toList ++ a.raceKind ++ "\",".toList ++
  "\n    \"ACCESS_SET\": [\"".toList ++ a.accessSet.1.toList ++ "\",\"".toList ++
    a.accessSet.2.toList ++ "\"],".toList ++
  (if a.race then
    "\n    \"RACE_PAIR\": [\"".toList ++ (a.pair loc1 loc2).1 ++ "\",\"".toList ++
      (a.pair loc1 loc2).2 ++ "\"],".toList
  else []) ++
  "\n    \"NPROCS\": ".toList ++ Nat.toDigits 10 a.nprocs ++ ",".toList ++
  "\n    \"DESCRIPTION\": \"".toList ++ a.description ++ "\"\n\x7d".toList

/-- The comment with the markers around it. -/
def labelComment (loc1 loc2 : Text) : Text :=
  beginMarker ++ "\n".toList ++ a.labelJson loc1 loc2 ++ "\n".toList ++ endMarker

end RenderArgs

/-! ## The locations -/

def placeholder1 : Text := "\x7brace_loc1\x7d".toList

def placeholder2 : Text := "\x7brace_loc2\x7d".toList

/-- `"// CONFLICT" in line`. -/
def isConflict (line : Text) : Bool := Text.isIn "// CONFLICT".toList line

/-- The body of the loop over the lines. A third marker is only reported. -/
def recordConflict (locs : Int × Int) (line : Text × Nat) : Int × Int :=
  if isConflict line.1 then
    if locs.1 = -1 then ((line.2 : Int) + 2, locs.2)
    else if locs.2 = -1 then (locs.1, (line.2 : Int) + 2)
    else locs
  else locs

/-- `(race_loc1, race_loc2)`. -/
def raceLocs (code : Text) : Int × Int :=
  (splitlines code).zipIdx.foldl recordConflict (-1, -1)

/-- What is written back after formatting. -/
def fillIn (hasRace : Bool) (code : Text) : Text :=
  if hasRace then
    (code.replace placeholder1 (decimal (raceLocs code).1)).replace placeholder2
      (decimal (raceLocs code).2)
  else code

/-! The digits and the sign of a number. -/

theorem mem_decimal {n : Int} {c : Char} (hc : c ∈ decimal n) : c.isDigit = true ∨ c = '-' := by
  cases n with
  | ofNat n => exact .inl (Json.toDigits_isDigit n c hc)
  | negSucc n =>
    obtain rfl | hc := List.mem_cons.1 hc
    · exact .inr rfl
    · exact .inl (Json.toDigits_isDigit (n + 1) c hc)

theorem decimal_ne_nil (n : Int) : decimal n ≠ [] := by
  cases n with
  | ofNat n => exact Nat.toDigits_ne_nil
  | negSucc n => exact List.cons_ne_nil _ _

theorem not_mem_decimal {c : Char} (hc : c.isDigit = false) (hs : c ≠ '-') (n : Int) : c ∉ decimal n := by
  intro hm
  obtain hd | rfl := mem_decimal hm
  · rw [hc] at hd
    cases hd
  · exact hs rfl

/-! ## `Test.__init__` -/

/-- The attributes that `Test.__init__` sets from the labels. -/
structure TestData where
  raceKind : Json
  hasRace : Bool
  accessSet : Option Json := none
  racePair : Option Json := none
  raceLoc1 : Option Int := none
  raceLoc2 : Option Int := none
  description : Json
  nprocs : Json

/-- `race_kind == 'none'`. -/
def isNone : Json → Bool
  | .str s => s = "none".toList
  | _ => false

/-- `int(pair[i].split('@')[1])`. -/
def locOf (pair : Json) (i : Nat) : Option Int :=
  match pair with
  | .arr items =>
    match items[i]? with
    | some (.str s) => (split s "@".toList)[1]?.bind parseInt
    | _ => none
  | _ => none

/-- `json_string` before it is stripped. -/
def jsonString (content : Text) : Option Text :=
  (split content beginMarker)[1]?.bind fun text => (split text endMarker)[0]?

/-- The attributes from `metadata`. -/
def readLabels (metadata : Json) : Option TestData := do
  let raceKind ← metadata.getItem "RACE_KIND".toList
  if isNone raceKind then
    let description ← metadata.getItem "DESCRIPTION".toList
    let nprocs ← metadata.getItem "NPROCS".toList
    some { raceKind, hasRace := false, description, nprocs }
  else
    let accessSet ← metadata.getItem "ACCESS_SET".toList
    let racePair ← metadata.getItem "RACE_PAIR".toList
    let loc1 ← locOf racePair 0
    let loc2 ← locOf racePair 1
    let description ← metadata.getItem "DESCRIPTION".toList
    let nprocs ← metadata.getItem "NPROCS".toList
    some
      { raceKind
        hasRace := true
        accessSet := some accessSet
        racePair := some racePair
        raceLoc1 := some loc1
        raceLoc2 := some loc2
        description
        nprocs }

/-- `Test.__init__` on the content of the file. -/
def testInit (content : Text) : Option TestData := do
  let text ← jsonString (readText content)
  let metadata ← Json.loads (strip text)
  readLabels metadata

end Generator
