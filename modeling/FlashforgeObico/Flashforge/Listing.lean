import FlashforgeObico.Foundations.Distinct
import FlashforgeObico.Flashforge.Fields

/-!
# What the file list shows

`parse_gcode_files` merges two parallel lists of a reply. The names are those of `gcodeList` and
then the others of `gcodeListDetail` (`listedNames_addAll`), every file is read from the first
detail with its name (`parseGcodeFiles_eq_ok_iff`), and no other entry of the details matters to it
(`filter_files_eq`). The reply fails as a whole when a detail that is read is not `Legible`.
-/

namespace FlashforgeObico

open Py Distinct

namespace Listing

/-! ## The entries of a reply -/

/-- A field of a reply. Only an object has fields. -/
def field (v : Json) (key : String) : Json := Dict.get v.fields key

/-- The names of `gcodeList`. -/
def listed (v : Json) : List String := (asStrList (field v "gcodeList")).filter (· ≠ "")

/-- The name that an entry of `gcodeListDetail` gives, if it gives one. -/
def entryName : Json → Option String
  | .obj entry =>
    if asStr (Dict.get entry "gcodeFileName") = "" then none
    else some (asStr (Dict.get entry "gcodeFileName"))
  | _ => none

/-- The names that the entries of `gcodeListDetail` give. -/
def detailNames (v : Json) : List String := (field v "gcodeListDetail").items.filterMap entryName

/-- The first object of `gcodeListDetail` with a name. It has no fields when there is none. -/
def firstDetail (v : Json) (name : String) : Dict :=
  (((field v "gcodeListDetail").items.find? fun entry => entryName entry = some name).map
    Json.fields).getD []

/-- An entry of `gcodeToolDatas` has a material or a color to show. -/
def Shown (entry : Dict) : Prop :=
  asStr (entry.get "materialName") ≠ "" ∨ asStr (entry.get "materialColor") ≠ ""

instance (entry : Dict) : Decidable (Shown entry) := inferInstanceAs (Decidable (_ ∨ _))

/-- The number that a value reads as, if any. -/
def readFloat (v : Json) : Option Double := (asFloat v).toOption.join

/-- The tool that an item of `gcodeToolDatas` shows. -/
def shownTool : Json → Option Tool
  | .obj entry =>
    if Shown entry then
      some { toolId := asInt (Dict.get entry "toolId")
             slotId := asInt (Dict.get entry "slotId")
             material := asStr (Dict.get entry "materialName")
             color := asStr (Dict.get entry "materialColor")
             weightG := readFloat (Dict.get entry "filamentWeight") }
    else none
  | _ => none

/-- The file of a given name with the numbers and the tools of a detail. -/
def fileOf (name : String) (entry : Dict) : GcodeFile where
  name := name
  printingTimeS := asInt (entry.get "printingTime")
  filamentWeightG := readFloat (entry.get "totalFilamentWeight")
  toolCount := asInt (entry.get "gcodeToolCnt")
  usesMaterialStation := (entry.get "useMatlStation").truthy
  tools := (entry.get "gcodeToolDatas").items.filterMap shownTool

/-- `names` are those of `gcodeList`, in order, followed by those that occur only in
`gcodeListDetail`, each once and in the order in which they come first there. -/
def ListedNames (v : Json) (names : List String) : Prop :=
  ∃ rest, names = listed v ++ rest ∧
    rest.Pairwise (fun a b => (detailNames v).idxOf a < (detailNames v).idxOf b) ∧
    ∀ name, name ∈ rest ↔ name ∈ detailNames v ∧ name ∉ listed v

/-- The parser returns the files of the reply: the names that it lists, each with the numbers and
the tools of its first detail. -/
def RightListing (v : Json) : Prop :=
  ∃ names, ListedNames v names ∧
    parseGcodeFiles v = .ok (names.map fun name => fileOf name (firstDetail v name))

/-- A reply with given details, and with the other fields of `body`. -/
def replyWith (body : Dict) (entries : List Json) : Json :=
  .obj (body.set "gcodeListDetail" (.arr entries))

/-- Both replies are parsed, and the files whose name is none of `changed` are the same in both. -/
def SameOthers (changed : List String) (v v' : Json) : Prop :=
  ∃ files files', parseGcodeFiles v = .ok files ∧ parseGcodeFiles v' = .ok files' ∧
    (files.filter fun file => file.name ∉ changed) = files'.filter fun file => file.name ∉ changed

/-! ## When a detail is read -/

/-- A value that stands in place of a list and that a loop does not run over. -/
def Unlistable (v : Json) : Prop :=
  v = .bool true ∨ (∃ n, n ≠ 0 ∧ v = .int n) ∨ ∃ x, x ≠ 0 ∧ v = .float x

/-- Every part of a detail is read without an exception. -/
structure Legible (entry : Dict) : Prop where
  tools : ¬ Unlistable (entry.get "gcodeToolDatas")
  weights : ∀ t, .obj t ∈ (entry.get "gcodeToolDatas").items → Shown t →
    ¬ TooLarge (Dict.get t "filamentWeight")
  weight : ¬ TooLarge (entry.get "totalFilamentWeight")

/-- The details that are read, the first of every name, are legible. -/
def Readable (v : Json) : Prop := ∀ name, Legible (firstDetail v name)

theorem asFloat_eq_ok_iff {v : Json} {x : Option Double} :
    asFloat v = .ok x ↔ ¬ TooLarge v ∧ x = readFloat v := by
  rw [← asFloat_raises_iff]
  unfold readFloat
  rcases asFloat v with e | y
  · simp
  · simp [Except.toOption, eq_comm]

theorem tool_eq_ok_iff {item : Json} {t : Option Tool} :
    tool item = .ok t ↔
      (∀ entry, item = .obj entry → Shown entry → ¬ TooLarge (Dict.get entry "filamentWeight")) ∧
        t = shownTool item := by
  cases item with
  | obj entry =>
    simp only [tool, toolOf, shownTool, Json.obj.injEq, forall_eq']
    by_cases h : Shown entry
    · have h' : ¬ (asStr (Dict.get entry "materialName") = "" ∧
          asStr (Dict.get entry "materialColor") = "") := not_and_or.mpr h
      simp only [h', if_false, h, if_true, forall_const]
      rw [Except.bind_eq_ok_iff]
      simp only [asFloat_eq_ok_iff, pure, Except.pure, Except.ok.injEq]
      constructor
      · rintro ⟨_, ⟨hlarge, rfl⟩, rfl⟩
        exact ⟨hlarge, rfl⟩
      · rintro ⟨hlarge, rfl⟩
        exact ⟨_, ⟨hlarge, rfl⟩, rfl⟩
    · have h' : asStr (Dict.get entry "materialName") = "" ∧
          asStr (Dict.get entry "materialColor") = "" := by simpa [Shown] using h
      simp [h, h', pure, Except.pure, eq_comm]
  | _ => simp [tool, shownTool, eq_comm]

theorem mapM_tool_eq_ok_iff {items : List Json} {tools : List (Option Tool)} :
    items.mapM tool = .ok tools ↔
      (∀ t, .obj t ∈ items → Shown t → ¬ TooLarge (Dict.get t "filamentWeight")) ∧
        tools = items.map shownTool := by
  rw [Except.mapM_eq_ok_iff (fun _ _ => tool_eq_ok_iff)]
  refine and_congr_left fun _ => ⟨fun h t ht => h _ ht t rfl, fun h item hitem t ht => ?_⟩
  exact h t (ht ▸ hitem)

theorem iterate_of_unlistable {v : Json} (h : Unlistable v) :
    (v.orElse (.arr [])).iterate = .error .typeError := by
  rcases h with rfl | ⟨n, hn, rfl⟩ | ⟨x, hx, rfl⟩
  · rfl
  · simp [Json.orElse, Json.truthy, hn, Json.iterate]
  · simp [Json.orElse, Json.truthy, hx, Json.iterate]

/-- Anything else is run over. The items that are objects are those of a list: a string gives its
characters, and an object its keys. -/
theorem iterate_of_not_unlistable {v : Json} (h : ¬ Unlistable v) :
    ∃ items, (v.orElse (.arr [])).iterate = .ok items ∧
      items.filterMap shownTool = v.items.filterMap shownTool ∧
      ∀ t, .obj t ∈ items ↔ .obj t ∈ v.items := by
  by_cases htruthy : v.truthy = true
  · have horElse : v.orElse (.arr []) = v := if_pos htruthy
    rw [horElse]
    cases v with
    | null => cases htruthy
    | bool b => exact absurd (.inl (congrArg Json.bool htruthy)) h
    | int n => exact absurd (.inr (.inl ⟨n, of_decide_eq_true htruthy, rfl⟩)) h
    | float x => exact absurd (.inr (.inr ⟨x, of_decide_eq_true htruthy, rfl⟩)) h
    | str s | obj s =>
      refine ⟨_, rfl, ?_, by simp [Json.items]⟩
      simp [List.filterMap_map, Function.comp_def, shownTool, Json.items]
    | arr items => exact ⟨items, rfl, rfl, fun _ => Iff.rfl⟩
  · have horElse : v.orElse (.arr []) = .arr [] := if_neg htruthy
    have hitems : v.items = [] := by
      cases v with
      | arr items => simpa [Json.truthy, Json.items] using htruthy
      | _ => rfl
    rw [horElse, hitems]
    exact ⟨[], rfl, rfl, fun _ => Iff.rfl⟩

/-- A missing list and a null are replaced by the same empty list. -/
theorem getD_orElse_nil (entry : Dict) (key : String) :
    ((entry.get? key).getD (.arr [])).orElse (.arr []) = (entry.get key).orElse (.arr []) := by
  rw [Dict.get]
  cases entry.get? key <;> rfl

/-- **A file is read from its detail**, unless a part of that makes a reader raise. -/
theorem gcodeFile_eq_ok_iff {details : List (String × Dict)} {name : String} {file : GcodeFile} :
    gcodeFile details name = .ok file ↔ Legible ((details.lookup name).getD []) ∧
      file = fileOf name ((details.lookup name).getD []) := by
  rw [gcodeFile]
  set entry := (details.lookup name).getD []
  rw [getD_orElse_nil, Except.bind_eq_ok_iff]
  constructor
  · rintro ⟨items, hitems, h⟩
    obtain ⟨tools, htools, h⟩ := Except.bind_eq_ok_iff.mp h
    obtain ⟨weight, hweight, h⟩ := Except.bind_eq_ok_iff.mp h
    have hlist : ¬ Unlistable (entry.get "gcodeToolDatas") := by
      intro hun
      rw [iterate_of_unlistable hun] at hitems
      cases hitems
    obtain ⟨items', hitems', hshown, hobj⟩ := iterate_of_not_unlistable hlist
    obtain rfl : items' = items := Except.ok.inj (hitems'.symm.trans hitems)
    obtain ⟨hweights, rfl⟩ := mapM_tool_eq_ok_iff.mp htools
    obtain ⟨hlarge, rfl⟩ := asFloat_eq_ok_iff.mp hweight
    refine ⟨⟨hlist, fun t ht => hweights t ((hobj t).mpr ht), hlarge⟩, ?_⟩
    rw [← Except.ok.inj h, fileOf, ← hshown, List.filterMap_map]
    rfl
  · rintro ⟨⟨hlist, hweights, hlarge⟩, rfl⟩
    obtain ⟨items, hitems, hshown, hobj⟩ := iterate_of_not_unlistable hlist
    have htools := mapM_tool_eq_ok_iff.mpr ⟨fun t ht => hweights t ((hobj t).mp ht), rfl⟩
    refine ⟨items, hitems, ?_⟩
    rw [htools, asFloat_eq_ok_iff.mpr ⟨hlarge, rfl⟩, fileOf, ← hshown]
    simp [List.filterMap_map, pure, Except.pure, bind, Except.bind]

/-! ## The details by name -/

/-- What an entry adds to the details by name. -/
theorem detailByName_concat (entries : List Json) (entry : Json) :
    detailByName (.arr (entries ++ [entry])) =
      match entryName entry with
      | none => detailByName (.arr entries)
      | some name =>
        if ((detailByName (.arr entries)).lookup name).isSome then detailByName (.arr entries)
        else detailByName (.arr entries) ++ [(name, entry.fields)] := by
  simp only [detailByName, List.foldl_append, List.foldl_cons, List.foldl_nil]
  cases entry with
  | obj fields =>
    by_cases hname : asStr (Dict.get fields "gcodeFileName") = ""
    · simp [entryName, hname]
    · rw [entryName, if_neg hname]
      simp only [hname, false_or]
      rfl
  | _ => rfl

theorem keys_detailByName (detail : Json) :
    (detailByName detail).map Prod.fst = addAll [] (detail.items.filterMap entryName) := by
  cases detail with
  | arr entries =>
    rw [Json.items]
    induction entries using List.reverseRecOn with
    | nil => rfl
    | append_singleton entries entry ih =>
      rw [detailByName_concat, List.filterMap_append]
      rcases hname : entryName entry with _ | name
      · simp [hname, ih]
      · have hmem : ((detailByName (.arr entries)).lookup name).isSome ↔
            name ∈ addAll [] (entries.filterMap entryName) := by
          rw [List.lookup_isSome_iff, ← ih]
          simp
        have hone : [entry].filterMap entryName = [name] := by simp [hname]
        rw [hone, addAll_concat, addNew]
        simp only [hmem]
        split_ifs
        · exact ih
        · rw [List.map_append, ih]
          rfl
  | _ => rfl

theorem lookup_detailByName (v : Json) (name : String) :
    ((detailByName (field v "gcodeListDetail")).lookup name).getD [] = firstDetail v name := by
  rw [firstDetail]
  congr 1
  cases field v "gcodeListDetail" with
  | arr entries =>
    rw [Json.items]
    induction entries using List.reverseRecOn with
    | nil => rfl
    | append_singleton entries entry ih =>
      rw [detailByName_concat, List.find?_append]
      rcases hname : entryName entry with _ | name'
      · simp [hname, ih]
      · by_cases hn : name' = name
        · subst hn
          -- A name that the details have keeps its first entry.
          rcases hfind : entries.find? fun e => entryName e = some name' with _ | first
          · rw [hfind] at ih
            simp [ih, List.lookup_append, hname]
          · rw [hfind] at ih
            simp [ih]
        · have hlookup : [(name', entry.fields)].lookup name = none := by
            simp [List.lookup_cons, beq_false_of_ne (Ne.symm hn)]
          simp only [List.find?_singleton, hname, Option.some.injEq, hn, decide_false,
            Bool.false_eq_true, if_false, Option.or_none]
          split_ifs
          · exact ih
          · rw [List.lookup_append, hlookup, Option.or_none, ih]
  | _ => rfl

/-! ## The names that are listed -/

theorem fileNames_eq_addAll (v : Json) :
    fileNames (asStrList (field v "gcodeList")) (detailByName (field v "gcodeListDetail")) =
      addAll (listed v) (detailNames v) := by
  have hfold : ∀ (names : List String) (details : List (String × Dict)),
      fileNames names details = addAll (names.filter (· ≠ "")) (details.map Prod.fst) := by
    intro names details
    rw [addAll, List.foldl_map]
    rfl
  rw [hfold, keys_detailByName, addAll_addAll]
  rfl

theorem legible_nil : Legible [] where
  tools := by simp [Unlistable, Dict.get, Dict.get?]
  weights := by simp [Dict.get, Dict.get?, Json.items]
  weight := by simp [TooLarge, Dict.get, Dict.get?]

theorem firstDetail_of_notMem {v : Json} {name : String} (h : name ∉ detailNames v) :
    firstDetail v name = [] := by
  have hnone : (field v "gcodeListDetail").items.find? (fun e => entryName e = some name) = none :=
    List.find?_eq_none.mpr fun e he hname =>
      h (List.mem_filterMap.mpr ⟨e, he, of_decide_eq_true hname⟩)
  rw [firstDetail, hnone]
  rfl

theorem parseGcodeFiles_eq_mapM (v : Json) : parseGcodeFiles v =
    (addAll (listed v) (detailNames v)).mapM
      (gcodeFile (detailByName (field v "gcodeListDetail"))) := by
  rw [← fileNames_eq_addAll]
  cases v <;> rfl

/-- **The parser returns the files of the reply**, unless a detail that it reads is not legible. -/
theorem parseGcodeFiles_eq_ok_iff {v : Json} {files : List GcodeFile} :
    parseGcodeFiles v = .ok files ↔ Readable v ∧ files =
      (addAll (listed v) (detailNames v)).map fun name => fileOf name (firstDetail v name) := by
  rw [parseGcodeFiles_eq_mapM, Except.mapM_eq_ok_iff (fun _ _ => gcodeFile_eq_ok_iff)]
  simp only [lookup_detailByName]
  refine and_congr_left fun _ => ⟨fun h name => ?_, fun h name _ => h name⟩
  by_cases hmem : name ∈ addAll (listed v) (detailNames v)
  · exact h name hmem
  · rw [mem_addAll, not_or] at hmem
    rw [firstDetail_of_notMem hmem.2]
    exact legible_nil

theorem listedNames_addAll (v : Json) : ListedNames v (addAll (listed v) (detailNames v)) :=
  addAll_spec (listed v) (detailNames v)

/-! ## The files that an entry does not name -/

variable {body : Dict} {pre post entries : List Json} {old new : Json} {changed : List String}

theorem field_replyWith : field (replyWith body entries) "gcodeListDetail" = .arr entries :=
  Dict.get_set_self body _ _

theorem listed_replyWith : listed (replyWith body entries) = listed (.obj body) := by
  have h : field (replyWith body entries) "gcodeList" = field (.obj body) "gcodeList" :=
    Dict.get_set_of_ne (by decide) body _
  rw [listed, h, listed]

/-- The names that an entry of the details gives. -/
def namesOf (entries : List Json) : List String := entries.filterMap entryName

theorem filter_namesOf (entry : Json) (h : ∀ name, entryName entry = some name → name ∈ changed) :
    (namesOf (pre ++ entry :: post)).filter (· ∉ changed) =
      (namesOf pre ++ namesOf post).filter (· ∉ changed) := by
  have hone : (namesOf [entry]).filter (· ∉ changed) = [] := by
    rcases hname : entryName entry with _ | name
    · simp [namesOf, hname]
    · simp [namesOf, hname, h name hname]
  have hsplit : namesOf (pre ++ entry :: post) =
      namesOf pre ++ (namesOf [entry] ++ namesOf post) := by
    rw [namesOf, ← List.singleton_append, List.filterMap_append, List.filterMap_append]
    rfl
  rw [hsplit, List.filter_append, List.filter_append, hone, List.nil_append, List.filter_append]

theorem firstDetail_replyWith {name : String} (entry : Json) (h : entryName entry ≠ some name) :
    firstDetail (replyWith body (pre ++ entry :: post)) name =
      firstDetail (replyWith body (pre ++ post)) name := by
  rw [firstDetail, firstDetail, field_replyWith, field_replyWith, Json.items, Json.items,
    List.find?_append, List.find?_cons_of_neg (by simpa using h), List.find?_append]

/-- **An entry of the details does not matter to the files that it does not name.** -/
theorem filter_files_eq {files : List GcodeFile} (entry : Json)
    (h : parseGcodeFiles (replyWith body (pre ++ entry :: post)) = .ok files)
    (h' : ∀ name, entryName entry = some name → name ∈ changed) :
    (files.filter fun file => file.name ∉ changed) =
      (addAll ((listed (.obj body)).filter (· ∉ changed))
        ((namesOf pre ++ namesOf post).filter (· ∉ changed))).map
          fun name => fileOf name (firstDetail (replyWith body (pre ++ post)) name) := by
  obtain ⟨-, rfl⟩ := parseGcodeFiles_eq_ok_iff.mp h
  have hnames : detailNames (replyWith body (pre ++ entry :: post)) =
      namesOf (pre ++ entry :: post) := by
    rw [detailNames, field_replyWith]
    rfl
  rw [List.filter_map, hnames, listed_replyWith]
  have hfilter : (addAll (listed (.obj body)) (namesOf (pre ++ entry :: post))).filter
      (· ∉ changed) = addAll ((listed (.obj body)).filter (· ∉ changed))
        ((namesOf pre ++ namesOf post).filter (· ∉ changed)) := by
    rw [filter_addAll, filter_namesOf entry h']
  change List.map _ ((addAll (listed (.obj body)) (namesOf (pre ++ entry :: post))).filter
    (· ∉ changed)) = _
  rw [hfilter]
  refine List.map_congr_left fun name hname => ?_
  have hother : name ∉ changed := by
    have hmem : name ∈ (addAll (listed (.obj body)) (namesOf (pre ++ entry :: post))).filter
        (· ∉ changed) := hfilter ▸ hname
    exact of_decide_eq_true (List.mem_filter.mp hmem).2
  rw [firstDetail_replyWith entry fun hentry => hother (h' name hentry)]

/-- **Every reply is listed, and an entry of the details is its own files' alone, exactly when the
details that are read are legible.** -/
theorem lists_and_isolates_iff_readable (v : Json) (body : Dict) (pre post : List Json)
    (old new : Json) :
    (RightListing v ↔ Readable v) ∧
      (SameOthers ([old, new].filterMap entryName) (replyWith body (pre ++ old :: post))
          (replyWith body (pre ++ new :: post)) ↔
        Readable (replyWith body (pre ++ old :: post)) ∧
          Readable (replyWith body (pre ++ new :: post))) := by
  refine ⟨⟨?_, fun h => ?_⟩, ?_, ?_⟩
  · rintro ⟨names, -, h⟩
    exact (parseGcodeFiles_eq_ok_iff.mp h).1
  · exact ⟨_, listedNames_addAll v, parseGcodeFiles_eq_ok_iff.mpr ⟨h, rfl⟩⟩
  · rintro ⟨files, files', h, h', -⟩
    exact ⟨(parseGcodeFiles_eq_ok_iff.mp h).1, (parseGcodeFiles_eq_ok_iff.mp h').1⟩
  · rintro ⟨h, h'⟩
    have hfiles := parseGcodeFiles_eq_ok_iff.mpr ⟨h, rfl⟩
    have hfiles' := parseGcodeFiles_eq_ok_iff.mpr ⟨h', rfl⟩
    have hold : ∀ name, entryName old = some name → name ∈ [old, new].filterMap entryName :=
      fun name hname => List.mem_filterMap.mpr ⟨old, by simp, hname⟩
    have hnew : ∀ name, entryName new = some name → name ∈ [old, new].filterMap entryName :=
      fun name hname => List.mem_filterMap.mpr ⟨new, by simp, hname⟩
    exact ⟨_, _, hfiles, hfiles',
      (filter_files_eq old hfiles hold).trans (filter_files_eq new hfiles' hnew).symm⟩

/-- A detail whose `gcodeToolDatas` is a number fails the whole list. -/
theorem not_rightListing_numeric_tools :
    ¬ RightListing (.obj [("gcodeListDetail",
      .arr [.obj [("gcodeFileName", .str "a"), ("gcodeToolDatas", .int 1)]])]) := by
  rintro ⟨names, -, h⟩
  have hraises : parseGcodeFiles (.obj [("gcodeListDetail",
      .arr [.obj [("gcodeFileName", .str "a"), ("gcodeToolDatas", .int 1)]])]) =
        .error .typeError := by rfl
  rw [hraises] at h
  cases h

end Listing

end FlashforgeObico
