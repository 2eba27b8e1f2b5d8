import FlashforgeObico.Foundations.Alike
import FlashforgeObico.Flashforge.Listing

/-!
# Numbers typed as strings and booleans

The firmware types the same field differently across revisions: a number on one, a boolean on
another, a space-padded decimal string on a third. `RespelledDetail` and `RespelledListing` relate
replies that differ so in the fields that are read as integers or as numeric flags. A snapshot is
the same for both (`parseSnapshot_of_respelled`). A list of files is the same unless a
`useMatlStation` of zero is spelled as a string, because that field alone is not read by `as_int`
(`parseGcodeFiles_of_respelled_iff`).
-/

namespace FlashforgeObico

open Py Listing

/-! ## Replies that are typed differently -/

/-- An integer as its decimal string with spaces around it, or a 0 or 1 as a boolean. No integer
that is decoded from JSON has more digits than `int` accepts. -/
inductive Respelled : Json → Json → Prop
  | same (v : Json) : Respelled v v
  | text {n : ℤ} {s : String} {before after : List Char} (hn : n.natAbs < 10 ^ maxStrDigits)
      (hbefore : ∀ c ∈ before, isSpace c) (hafter : ∀ c ∈ after, isSpace c)
      (hs : s.toList = before ++ (toString n).toList ++ after) : Respelled (.int n) (.str s)
  | zero : Respelled (.int 0) (.bool false)
  | one : Respelled (.int 1) (.bool true)

/-- An entry of `slotInfos`. -/
def slotSpelling (key : String) : Json → Json → Prop :=
  if key ∈ ["slotId", "hasFilament"] then Respelled else Eq

/-- The value of `matlStationInfo`. -/
def stationSpelling (key : String) : Json → Json → Prop :=
  if key = "slotInfos" then Json.ArrRel (Json.ObjRel slotSpelling) else Eq

/-- A `detail` reply. -/
def detailSpelling (key : String) : Json → Json → Prop :=
  if key ∈ ["printDuration", "printLayer", "targetPrintLayer"] then Respelled
  else if key = "matlStationInfo" then Json.ObjRel stationSpelling
  else Eq

/-- An entry of `gcodeToolDatas`. -/
def toolSpelling (key : String) : Json → Json → Prop :=
  if key ∈ ["toolId", "slotId"] then Respelled else Eq

/-- An entry of `gcodeListDetail`. -/
def entrySpelling (key : String) : Json → Json → Prop :=
  if key ∈ ["printingTime", "gcodeToolCnt", "useMatlStation"] then Respelled
  else if key = "gcodeToolDatas" then Json.ArrRel (Json.ObjRel toolSpelling)
  else Eq

/-- A `gcodeList` reply. -/
def listingSpelling (key : String) : Json → Json → Prop :=
  if key = "gcodeListDetail" then Json.ArrRel (Json.ObjRel entrySpelling) else Eq

/-- Two `detail` replies with the same values, typed differently. -/
def RespelledDetail (d d' : Dict) : Prop := Dict.Rel detailSpelling d d'

/-- Two `gcodeList` replies with the same values, typed differently. -/
def RespelledListing (v v' : Json) : Prop := Json.ObjRel listingSpelling v v'

theorem entrySpelling_refl (key : String) (v : Json) : entrySpelling key v v := by
  unfold entrySpelling
  split_ifs
  exacts [.same v, .refl v, rfl]

theorem listingSpelling_refl (key : String) (v : Json) : listingSpelling key v v := by
  unfold listingSpelling
  split_ifs
  exacts [.refl v, rfl]

/-! ## What is read from them -/

variable {v v' : Json} {d d' : Dict}

/-- `as_int` reads them alike. -/
theorem asInt_of_respelled (h : Respelled v v') : asInt v' = asInt v := by
  cases h with
  | same => rfl
  | @text n s before after hn hbefore hafter hs =>
    change int? (strip s.toList) = some n
    rw [hs, strip_append (toList_toString_ne_nil n) (fun _ => isSpace_of_mem_toString) hbefore
      hafter, int?_toString hn]
  | zero => rfl
  | one => rfl

/-- A zero is spelled as a string. -/
def ZeroAsText (v v' : Json) : Prop := v = .int 0 ∧ ∃ s, v' = .str s

/-- `bool` reads them alike, except a zero that is spelled as a string. -/
theorem truthy_of_respelled_iff (h : Respelled v v') :
    v'.truthy = v.truthy ↔ ¬ ZeroAsText v v' := by
  rw [ZeroAsText]
  cases h with
  | same =>
    refine iff_of_true rfl ?_
    rintro ⟨rfl, s, hs⟩
    cases hs
  | @text n s before after hn hbefore hafter hs =>
    have hne : s ≠ "" := by
      rintro rfl
      have hnil := List.append_eq_nil_iff.mp (List.append_eq_nil_iff.mp hs.symm).1
      exact toList_toString_ne_nil n hnil.2
    simp [Json.truthy, hne]
  | zero =>
    refine iff_of_true rfl ?_
    rintro ⟨-, s, hs⟩
    cases hs
  | one =>
    refine iff_of_true rfl ?_
    rintro ⟨hv, -⟩
    cases hv

/-! ## The snapshot -/

theorem slotOf_of_respelled (h : Dict.Rel slotSpelling d d') (index : ℕ) :
    slotOf index d' = slotOf index d := by
  have hid := asInt_of_respelled (h.get (k := "slotId") (.same _))
  have hfilament := asInt_of_respelled (h.get (k := "hasFilament") (.same _))
  have hmaterial := h.get_eq (k := "materialName") rfl
  have hcolor := h.get_eq (k := "materialColor") rfl
  rw [slotOf, slotOf, hid, hfilament, hmaterial, hcolor]

theorem slots_of_respelled (h : Json.ObjRel stationSpelling v v') : slots v' = slots v := by
  rcases h with rfl | ⟨d, d', rfl, rfl, h⟩
  · rfl
  rw [slots, slots]
  rcases h.get (k := "slotInfos") (.refl _) with heq | ⟨l, l', hl, hl', hinfos⟩
  · rw [heq]
  rw [hl, hl']
  refine filterMap_of_forall₂ (zipIdx_of_forall₂ hinfos 0) ?_
  rintro ⟨v, i⟩ ⟨v', i'⟩ ⟨hv, rfl⟩
  rcases hv with rfl | ⟨info, info', rfl, rfl, hinfo⟩
  · rfl
  · exact congrArg some (slotOf_of_respelled hinfo i)

/-- A snapshot does not depend on how the integers of the reply are typed. -/
theorem parseSnapshot_of_respelled (h : RespelledDetail d d') :
    parseSnapshot d' = parseSnapshot d := by
  have hnumbers : ∀ k ∈ ["printDuration", "printLayer", "targetPrintLayer"],
      asInt (d'.get k) = asInt (d.get k) := by
    intro k hk
    have hspelling : detailSpelling k = Respelled := if_pos hk
    have hget := h.get (k := k) (by rw [hspelling]; exact .same _)
    rw [hspelling] at hget
    exact asInt_of_respelled hget
  have hslots : slots (d'.get "matlStationInfo") = slots (d.get "matlStationInfo") :=
    slots_of_respelled (h.get (k := "matlStationInfo") (.refl _))
  have hothers : ∀ k, k ∉ ["printDuration", "printLayer", "targetPrintLayer"] →
      k ≠ "matlStationInfo" → d'.get k = d.get k := fun k hk hstation =>
    h.get_eq ((if_neg hk).trans (if_neg hstation))
  unfold parseSnapshot
  simp (disch := decide) only [hothers, hnumbers, hslots]

/-! ## The list of files -/

theorem tool_of_respelled (h : Json.ObjRel toolSpelling v v') : tool v' = tool v := by
  rcases h with rfl | ⟨d, d', rfl, rfl, h⟩
  · rfl
  have htool := asInt_of_respelled (h.get (k := "toolId") (.same _))
  have hslot := asInt_of_respelled (h.get (k := "slotId") (.same _))
  have hmaterial := h.get_eq (k := "materialName") rfl
  have hcolor := h.get_eq (k := "materialColor") rfl
  have hweight := h.get_eq (k := "filamentWeight") rfl
  rw [tool, tool, toolOf, toolOf, htool, hslot, hmaterial, hcolor, hweight]

/-- What is read from `gcodeToolDatas` and `totalFilamentWeight` of a detail. -/
def readDetail (entry : Dict) : Except Error (List (Option Tool) × Option Double) := do
  let items ← ((entry.get "gcodeToolDatas").orElse (.arr [])).iterate
  let tools ← items.mapM tool
  let weight ← asFloat (entry.get "totalFilamentWeight")
  return (tools, weight)

/-- The file with what is read from a detail. -/
def fileWith (name : String) (entry : Dict) (read : List (Option Tool) × Option Double) :
    GcodeFile where
  name := name
  printingTimeS := asInt (entry.get "printingTime")
  filamentWeightG := read.2
  toolCount := asInt (entry.get "gcodeToolCnt")
  usesMaterialStation := (entry.get "useMatlStation").truthy
  tools := read.1.filterMap id

theorem parseGcodeFiles_eq (v : Json) : parseGcodeFiles v =
    (Distinct.addAll (listed v) (detailNames v)).mapM fun name =>
      (readDetail (firstDetail v name)).map (fileWith name (firstDetail v name)) := by
  rw [parseGcodeFiles_eq_mapM]
  congr 1
  funext name
  rw [gcodeFile, ← lookup_detailByName, readDetail, getD_orElse_nil]
  set entry := ((detailByName (field v "gcodeListDetail")).lookup name).getD []
  rcases ((entry.get "gcodeToolDatas").orElse (.arr [])).iterate with e | items
  · rfl
  rcases hitems : items.mapM tool with e | tools
  · simp only [bind, Except.bind, hitems, Except.map]
  · simp only [bind, Except.bind, hitems]
    rcases asFloat (entry.get "totalFilamentWeight") with e | weight <;> rfl

theorem iterate_of_respelled (h : Json.ArrRel (Json.ObjRel toolSpelling) v v') :
    ((v'.orElse (.arr [])).iterate >>= fun items => items.mapM tool) =
      (v.orElse (.arr [])).iterate >>= fun items => items.mapM tool := by
  rcases h with rfl | ⟨l, l', rfl, rfl, h⟩
  · rfl
  have harr : ∀ l : List Json, ((Json.arr l).orElse (.arr [])).iterate = .ok l := by
    intro l
    cases l <;> rfl
  rw [harr, harr]
  exact mapM_of_forall₂ h fun _ _ => tool_of_respelled

theorem readDetail_of_respelled (h : Dict.Rel entrySpelling d d') :
    readDetail d' = readDetail d := by
  have htools := iterate_of_respelled (h.get (k := "gcodeToolDatas") (.refl _))
  have hweight := h.get_eq (k := "totalFilamentWeight") rfl
  rw [readDetail, readDetail, ← bind_assoc, ← bind_assoc, htools, hweight]

theorem fileWith_of_respelled_iff (h : Dict.Rel entrySpelling d d') (name : String)
    (read : List (Option Tool) × Option Double) :
    fileWith name d' read = fileWith name d read ↔
      ¬ ZeroAsText (d.get "useMatlStation") (d'.get "useMatlStation") := by
  have htime := asInt_of_respelled (h.get (k := "printingTime") (.same _))
  have hcount := asInt_of_respelled (h.get (k := "gcodeToolCnt") (.same _))
  have hstation := h.get (k := "useMatlStation") (.same _)
  rw [← truthy_of_respelled_iff hstation, fileWith, fileWith, htime, hcount]
  simp

/-- The details of respelled replies. -/
theorem details_of_respelled (h : RespelledListing v v') :
    List.Forall₂ (Json.ObjRel entrySpelling) (field v "gcodeListDetail").items
      (field v' "gcodeListDetail").items := by
  have hfields := Json.ObjRel.fields h listingSpelling_refl
  exact Json.ArrRel.items (hfields.get (k := "gcodeListDetail") (.refl _)) .refl

theorem entryName_of_respelled (h : Json.ObjRel entrySpelling v v') :
    entryName v' = entryName v := by
  rcases h with rfl | ⟨d, d', rfl, rfl, h⟩
  · rfl
  · rw [entryName, entryName, h.get_eq (k := "gcodeFileName") rfl]

theorem names_of_respelled (h : RespelledListing v v') :
    Distinct.addAll (listed v') (detailNames v') =
      Distinct.addAll (listed v) (detailNames v) := by
  have hlisted : field v' "gcodeList" = field v "gcodeList" :=
    (Json.ObjRel.fields h listingSpelling_refl).get_eq rfl
  have hnames : detailNames v' = detailNames v :=
    filterMap_of_forall₂ (details_of_respelled h) fun _ _ => entryName_of_respelled
  rw [listed, listed, hlisted, hnames]

theorem firstDetail_of_respelled (h : RespelledListing v v') (name : String) :
    Dict.Rel entrySpelling (firstDetail v name) (firstDetail v' name) := by
  have hfind := find?_of_forall₂ (p := fun e => entryName e = some name)
    (details_of_respelled h) fun _ _ hentry => by rw [entryName_of_respelled hentry]
  unfold firstDetail
  generalize (field v "gcodeListDetail").items.find? _ = first at hfind ⊢
  generalize (field v' "gcodeListDetail").items.find? _ = first' at hfind ⊢
  cases hfind with
  | none => exact .nil
  | some hentry => exact Json.ObjRel.fields hentry entrySpelling_refl

/-- No file has a `useMatlStation` of zero that is spelled as a string. -/
def NoZeroAsText (v v' : Json) : Prop :=
  ∀ name, ¬ ZeroAsText ((firstDetail v name).get "useMatlStation")
    ((firstDetail v' name).get "useMatlStation")

/-- A file as it is listed but for the material station. -/
def withoutStation (file : GcodeFile) : GcodeFile := { file with usesMaterialStation := false }

theorem parseGcodeFiles_withoutStation (h : RespelledListing v v') :
    (parseGcodeFiles v').map (List.map withoutStation) =
      (parseGcodeFiles v).map (List.map withoutStation) := by
  rw [parseGcodeFiles_eq, parseGcodeFiles_eq, Except.map_mapM, Except.map_mapM,
    names_of_respelled h]
  congr 1
  funext name
  have hfirst := firstDetail_of_respelled h name
  have htime := asInt_of_respelled (hfirst.get (k := "printingTime") (.same _))
  have hcount := asInt_of_respelled (hfirst.get (k := "gcodeToolCnt") (.same _))
  rw [readDetail_of_respelled hfirst]
  rcases readDetail (firstDetail v name) with e | read
  · rfl
  · simp [Except.map, withoutStation, fileWith, htime, hcount]

/-- A list of files depends on how the integers of the reply are typed only where a `useMatlStation`
of zero is spelled as a string. -/
theorem parseGcodeFiles_of_respelled_iff (h : RespelledListing v v') :
    parseGcodeFiles v' = parseGcodeFiles v ↔ (Readable v → NoZeroAsText v v') := by
  have hstation : ∀ name read, fileWith name (firstDetail v' name) read =
      fileWith name (firstDetail v name) read ↔ _ := fun name =>
    fileWith_of_respelled_iff (firstDetail_of_respelled h name) name
  constructor
  · intro heq hreadable name hzero
    have hmem : name ∈ Distinct.addAll (listed v) (detailNames v) := by
      by_contra hmem
      rw [Distinct.mem_addAll, not_or] at hmem
      have hnull := hzero.1
      rw [firstDetail_of_notMem hmem.2] at hnull
      cases hnull
    have hfiles := parseGcodeFiles_eq_ok_iff.mpr ⟨hreadable, rfl⟩
    obtain ⟨-, hmap⟩ := parseGcodeFiles_eq_ok_iff.mp (heq.trans hfiles)
    rw [names_of_respelled h, List.map_inj_left] at hmap
    have htruthy := congrArg GcodeFile.usesMaterialStation (hmap name hmem)
    have hspelled := (firstDetail_of_respelled h name).get (k := "useMatlStation") (.same _)
    exact (truthy_of_respelled_iff hspelled).mp htruthy.symm hzero
  · intro hno
    by_cases hreadable : Readable v
    · rw [parseGcodeFiles_eq, parseGcodeFiles_eq, names_of_respelled h]
      congr 1
      funext name
      rw [readDetail_of_respelled (firstDetail_of_respelled h name)]
      rcases readDetail (firstDetail v name) with e | read
      · rfl
      · exact congrArg Except.ok ((hstation name read).mpr (hno hreadable name))
    · -- The same part of the same detail makes both raise.
      have hclear := parseGcodeFiles_withoutStation h
      rcases hv : parseGcodeFiles v with e | files
      · rw [hv] at hclear
        rcases hv' : parseGcodeFiles v' with e' | files'
        · rw [hv'] at hclear
          exact hclear
        · rw [hv'] at hclear
          cases hclear
      · exact absurd (parseGcodeFiles_eq_ok_iff.mp hv).1 hreadable

/-- **Parsing does not depend on how the firmware types a number**, except that a `useMatlStation`
of zero that is spelled as a string is taken for a flag that is set. -/
theorem parsing_ignores_typing_iff (hdetail : RespelledDetail d d')
    (hlisting : RespelledListing v v') :
    parseSnapshot d' = parseSnapshot d ∧
      (parseGcodeFiles v' = parseGcodeFiles v ↔ (Readable v → NoZeroAsText v v')) :=
  ⟨parseSnapshot_of_respelled hdetail, parseGcodeFiles_of_respelled_iff hlisting⟩

/-- A list of one file, with a value for `useMatlStation`. -/
def stationListing (station : Json) : Json :=
  .obj [("gcodeListDetail",
    .arr [.obj [("gcodeFileName", .str "a"), ("useMatlStation", station)]])]

theorem respelled_stationListing {v v' : Json} (h : Respelled v v') :
    RespelledListing (stationListing v) (stationListing v') := by
  refine .inr ⟨_, _, rfl, rfl, .cons ⟨rfl, .inr ⟨_, _, rfl, rfl, .cons ?_ .nil⟩⟩ .nil⟩
  exact .inr ⟨_, _, rfl, rfl, .cons ⟨rfl, rfl⟩ (.cons ⟨rfl, h⟩ .nil)⟩

theorem respelled_zero : Respelled (.int 0) (.str "0") :=
  @Respelled.text 0 "0" [] [] (by simp) (by simp) (by simp) rfl

/-- A layer and a flag that are booleans. -/
theorem ignores_typing_layer :
    parseSnapshot [("printLayer", .bool true)] = parseSnapshot [("printLayer", .int 1)] ∧
      (parseGcodeFiles (stationListing (.bool true)) = parseGcodeFiles (stationListing (.int 1)) ↔
        (Readable (stationListing (.int 1)) →
          NoZeroAsText (stationListing (.int 1)) (stationListing (.bool true)))) :=
  parsing_ignores_typing_iff (.cons ⟨rfl, .one⟩ .nil) (respelled_stationListing .one)

/-- A file whose flag of zero is a string is listed as one that uses the material station. -/
theorem not_ignored_zeroAsText :
    RespelledListing (stationListing (.int 0)) (stationListing (.str "0")) ∧
      parseGcodeFiles (stationListing (.str "0")) ≠ parseGcodeFiles (stationListing (.int 0)) :=
  ⟨respelled_stationListing respelled_zero, by decide +kernel⟩

end FlashforgeObico
