import FlashforgeObico.Foundations.Procedure
import FlashforgeObico.Foundations.PythonValue

/-!
# Permissive readers for the LAN API

The readers of `flashforge/parsing.py`. A value that is none of the accepted shapes reads as `none`,
so that the caller loses one field and not the whole reply. The one exception they raise is that of
`float` on an integer beyond the doubles (`asFloat_eq_error_iff`).
-/

namespace FlashforgeObico

open Py

/-- `as_int`. -/
def asInt : Json → Option ℤ
  | .bool b => some (if b then 1 else 0)
  | .int n => some n
  | .float x => x.toInt?
  | .str s => int? (strip s.toList)
  | _ => none

/-- `as_float`. -/
def asFloat : Json → Except Error (Option Double)
  | .int n => (floatOfInt n).map some
  | .float x => .ok (some x)
  | .str s => .ok (float? (strip s.toList))
  | _ => .ok none

/-- `as_str`. -/
def asStr : Json → String
  | .str s => s
  | _ => ""

/-- `as_str_list`. -/
def asStrList : Json → List String
  | .arr items => items.filterMap fun item => match item with
    | .str s => some s
    | _ => none
  | _ => []

/-- `x or 0.0` for a reading `x`. -/
def floatOrZero : Option Double → Double
  | some x => x
  | none => 0

/-- `n or 0` for a reading `n`. -/
def intOrZero : Option ℤ → ℤ
  | some n => n
  | none => 0

theorem floatOfInt_eq_error_iff {n : ℤ} {e : Error} :
    floatOfInt n = .error e ↔ e = .overflowError ∧ overflowThreshold ≤ |(n : ℚ)| := by
  rw [← Double.ofInt?_eq_none_iff]
  unfold floatOfInt
  cases Double.ofInt? n <;> simp [eq_comm]

/-- `as_float` raises exactly on the integers that are too large for a double. -/
theorem asFloat_eq_error_iff {v : Json} {e : Error} :
    asFloat v = .error e ↔ e = .overflowError ∧ ∃ n, v = .int n ∧
      overflowThreshold ≤ |(n : ℚ)| := by
  cases v with
  | int n =>
    have h : (floatOfInt n).map some = .error e ↔ floatOfInt n = .error e := by
      cases floatOfInt n <;> simp [Except.map]
    rw [asFloat, h, floatOfInt_eq_error_iff]
    simp
  | _ => simp [asFloat]

/-! ## The stored files -/

/-- An entry of `gcodeToolDatas`, as `_tool` returns it. -/
structure Tool where
  toolId : Option ℤ
  slotId : Option ℤ
  material : String
  color : String
  weightG : Option Double
  deriving DecidableEq

/-- `_tool` on an object. -/
def toolOf (entry : Dict) : Except Error (Option Tool) := do
  let material := asStr (entry.get "materialName")
  let color := asStr (entry.get "materialColor")
  if material = "" ∧ color = "" then return none
  let weightG ← asFloat (entry.get "filamentWeight")
  return some ⟨asInt (entry.get "toolId"), asInt (entry.get "slotId"), material, color, weightG⟩

/-- `_tool`: `none` when the entry carries no material worth showing. -/
def tool : Json → Except Error (Option Tool)
  | .obj entry => toolOf entry
  | _ => .ok none

/-- A stored file, as `parse_gcode_files` lists it. -/
structure GcodeFile where
  name : String
  printingTimeS : Option ℤ
  filamentWeightG : Option Double
  toolCount : Option ℤ
  usesMaterialStation : Bool
  tools : List Tool
  deriving DecidableEq

/-- `detail_by_name`: the first object of `gcodeListDetail` with each non-empty name, in reply
order. -/
def detailByName (detail : Json) : List (String × Dict) :=
  match detail with
  | .arr entries => entries.foldl (fun acc entry =>
      match entry with
      | .obj fields =>
        let name := asStr (Dict.get fields "gcodeFileName")
        if name = "" ∨ (acc.lookup name).isSome then acc else acc ++ [(name, fields)]
      | _ => acc) []
  | _ => []

/-- The names that `parse_gcode_files` lists: those of `gcodeList`, then those that only the detail
has. -/
def fileNames (names : List String) (details : List (String × Dict)) : List String :=
  details.foldl (fun acc d => if d.1 ∈ acc then acc else acc ++ [d.1]) (names.filter (· ≠ ""))

/-- The entry of `parse_gcode_files` for one name. -/
def gcodeFile (details : List (String × Dict)) (name : String) : Except Error GcodeFile := do
  let entry := (details.lookup name).getD []
  let items ← (((entry.get? "gcodeToolDatas").getD (.arr [])).orElse (.arr [])).iterate
  let tools ← items.mapM tool
  let weight ← asFloat (entry.get "totalFilamentWeight")
  return { name
           printingTimeS := asInt (entry.get "printingTime")
           filamentWeightG := weight
           toolCount := asInt (entry.get "gcodeToolCnt")
           usesMaterialStation := (entry.get "useMatlStation").truthy
           tools := tools.filterMap id }

/-- `parse_gcode_files`. -/
def parseGcodeFiles : Json → Except Error (List GcodeFile)
  | .obj body =>
    let details := detailByName (Dict.get body "gcodeListDetail")
    (fileNames (asStrList (Dict.get body "gcodeList")) details).mapM (gcodeFile details)
  | _ => .ok []

/-! ### The names that are listed -/

/-- A reply to `gcodeList` has a name: in the list of names, or in that of details. -/
def Lists (listing : Dict) (name : String) : Prop :=
  (∃ items, listing.get "gcodeList" = .arr items ∧ .str name ∈ items) ∨
    ∃ entries fields, listing.get "gcodeListDetail" = .arr entries ∧ .obj fields ∈ entries ∧
      Dict.get fields "gcodeFileName" = .str name

/-- What an element brings about, and nothing undoes, holds after a fold when it did before it or
some element brought it about. -/
theorem foldl_iff {α β : Type} {f : β → α → β} (Q : β → Prop) (P : α → Prop)
    (h : ∀ b a, Q (f b a) ↔ Q b ∨ P a) (l : List α) (b : β) :
    Q (l.foldl f b) ↔ Q b ∨ ∃ a ∈ l, P a := by
  induction l generalizing b with
  | nil => simp
  | cons a l ih => rw [List.foldl_cons, ih, h, or_assoc, List.exists_mem_cons_iff]

theorem asStr_eq_iff {v : Json} {s : String} (hs : s ≠ "") : asStr v = s ↔ v = .str s := by
  cases v <;> simp [asStr, hs.symm]

theorem mem_asStrList {v : Json} {s : String} :
    s ∈ asStrList v ↔ ∃ items, v = .arr items ∧ .str s ∈ items := by
  cases v with
  | arr items =>
    simp only [asStrList, List.mem_filterMap, Json.arr.injEq, exists_eq_left']
    constructor
    · rintro ⟨item, hitem, h⟩
      split at h
      · cases h
        exact hitem
      · cases h
    · exact fun h => ⟨.str s, h, rfl⟩
  | _ => simp [asStrList]

/-- The names of the details are those that the entries give. -/
theorem mem_detailByName {detail : Json} {name : String} (hname : name ≠ "") :
    name ∈ (detailByName detail).map Prod.fst ↔ ∃ entries fields, detail = .arr entries ∧
      .obj fields ∈ entries ∧ Dict.get fields "gcodeFileName" = .str name := by
  cases detail with
  | arr entries =>
    rw [detailByName]
    refine (foldl_iff (fun acc : List (String × Dict) => name ∈ acc.map Prod.fst)
      (fun entry => ∃ fields, entry = .obj fields ∧ asStr (Dict.get fields "gcodeFileName") = name)
      ?_ entries []).trans ?_
    · intro acc entry
      cases entry with
      | obj fields =>
        simp only [Json.obj.injEq, exists_eq_left']
        split_ifs with h
        · -- An entry without a name, or with one that is listed already, adds nothing.
          refine (or_iff_left_of_imp ?_).symm
          rintro rfl
          simpa using List.lookup_isSome_iff.mp (h.resolve_left hname)
        · rw [List.map_append, List.mem_append, List.map_singleton, List.mem_singleton, eq_comm]
      | _ => simp
    · simp [asStr_eq_iff hname]
  | _ => simp [detailByName]

theorem mem_fileNames {names : List String} {details : List (String × Dict)} {name : String}
    (hname : name ≠ "") :
    name ∈ fileNames names details ↔ name ∈ names ∨ name ∈ details.map Prod.fst := by
  rw [fileNames]
  refine (foldl_iff (fun acc => name ∈ acc) (fun d => d.1 = name) ?_ details _).trans ?_
  · intro acc d
    split_ifs with h
    · refine (or_iff_left_of_imp ?_).symm
      rintro rfl
      exact h
    · rw [List.mem_append, List.mem_singleton, eq_comm]
  · simp [hname]

theorem name_of_gcodeFile {details : List (String × Dict)} {name : String} {file : GcodeFile}
    (h : gcodeFile details name = .ok file) : file.name = name := by
  obtain ⟨items, -, h⟩ := Except.bind_eq_ok_iff.mp h
  obtain ⟨tools, -, h⟩ := Except.bind_eq_ok_iff.mp h
  obtain ⟨weight, -, h⟩ := Except.bind_eq_ok_iff.mp h
  rw [← Except.ok.inj h]

/-- The files that are parsed are those that the reply lists. -/
theorem mem_parseGcodeFiles {listing : Dict} {files : List GcodeFile}
    (h : parseGcodeFiles (.obj listing) = .ok files) {name : String} (hname : name ≠ "") :
    name ∈ files.map GcodeFile.name ↔ Lists listing name := by
  rw [Except.map_of_mapM_eq_ok (fun _ _ => name_of_gcodeFile) h, mem_fileNames hname,
    mem_asStrList, mem_detailByName hname, Lists]

end FlashforgeObico
