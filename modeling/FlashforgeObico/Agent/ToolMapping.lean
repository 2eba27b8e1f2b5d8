import FlashforgeObico.Agent.Routes
import FlashforgeObico.Flashforge.Listing

/-!
# The tool mapping of a start

`start_print` takes the mapping of tools to slots from the entry of `parse_gcode_files`, and that
leaves out the tools without a material to show. So the printer is told the mapping of the file
exactly when every tool with both numbers is shown and there is one (`tellsMapping_iff`).
-/

namespace FlashforgeObico

open Py Listing Distinct

/-- A mapping, as `start_print` builds it. -/
def MaterialMapping.json (m : MaterialMapping) : Json :=
  .obj [("toolId", .int m.toolId), ("slotId", .int m.slotId)]

/-- What `print_gcode` posts besides the credentials. -/
def FlashforgeClient.printGcode (fileName : String) (leveling : Bool)
    (mappings : List MaterialMapping) : Dict :=
  [("fileName", .str fileName),
    ("levelingBeforePrint", .bool leveling),
    ("flowCalibration", .bool false),
    ("useMatlStation", .bool (!mappings.isEmpty)),
    ("gcodeToolCnt", .int mappings.length),
    ("materialMappings", .arr (mappings.map MaterialMapping.json))]

/-- The pair of an item of `gcodeToolDatas`, when both of its numbers are readable. -/
def pairOf : Json → Option MaterialMapping
  | .obj entry =>
    match asInt (Dict.get entry "toolId"), asInt (Dict.get entry "slotId") with
    | some toolId, some slotId => some { toolId, slotId }
    | _, _ => none
  | _ => none

/-- The tool mapping of a detail. -/
def toolPairs (entry : Dict) : List MaterialMapping :=
  (entry.get "gcodeToolDatas").items.filterMap pairOf

/-- The request tells the printer the whole tool mapping of a detail. -/
structure TellsMapping (request entry : Dict) : Prop where
  mappings : request.get "materialMappings" = .arr ((toolPairs entry).map MaterialMapping.json)
  count : request.get "gcodeToolCnt" = .int (toolPairs entry).length
  station : request.get "useMatlStation" = .bool true

/-- Every tool of a detail with both numbers has a material or a color. -/
def AllShown (entry : Dict) : Prop :=
  ∀ t, .obj t ∈ (entry.get "gcodeToolDatas").items → (pairOf (.obj t)).isSome → Shown t

namespace Agent

/-- `start_print` sends `printGcode`, with a given mapping. -/
def SendsStart (a : Agent) (fileName : String) (reply : Except FlashforgeError Dict)
    (answer : Except FlashforgeError Unit) (mappings : List MaterialMapping) : Prop :=
  ∃ accepted, (startPrint fileName reply answer a).2 =
    a.log [.printGcode fileName mappings accepted]

end Agent

/-! ## The mapping that is sent -/

/-- The pair of an item that is shown. -/
def shownPair (item : Json) : Option MaterialMapping := (shownTool item).bind Agent.mappingOf

theorem shownPair_obj (t : Dict) :
    shownPair (.obj t) = if Shown t then pairOf (.obj t) else none := by
  rw [shownPair, shownTool]
  split_ifs
  · rfl
  · rfl

theorem shownPair_eq_none_or (item : Json) :
    shownPair item = none ∨ shownPair item = pairOf item := by
  cases item with
  | obj t =>
    rw [shownPair_obj]
    split_ifs
    · exact .inr rfl
    · exact .inl rfl
  | _ => exact .inl rfl

theorem allShown_iff {entry : Dict} :
    AllShown entry ↔ ∀ item ∈ (entry.get "gcodeToolDatas").items, shownPair item = pairOf item := by
  constructor
  · intro h item hitem
    cases item with
    | obj t =>
      rw [shownPair_obj]
      split_ifs with hshown
      · rfl
      · exact (Option.not_isSome_iff_eq_none.mp fun hpair => hshown (h t hitem hpair)).symm
    | _ => rfl
  · intro h t ht hpair
    by_contra hshown
    have heq := h _ ht
    rw [shownPair_obj, if_neg hshown] at heq
    rw [← heq] at hpair
    cases hpair

/-- A file that uses the material station is started with the pairs of the tools that are shown. -/
theorem mappings_fileOf {name : String} {entry : Dict}
    (h : (entry.get "useMatlStation").truthy = true) :
    Agent.mappings (fileOf name entry) =
      (entry.get "gcodeToolDatas").items.filterMap shownPair := by
  have hstation : (fileOf name entry).usesMaterialStation = true := h
  rw [Agent.mappings, if_pos hstation, fileOf, List.filterMap_filterMap]
  rfl

namespace Agent

variable {a : Agent} {fileName : String} {body : Dict} {answer : Except FlashforgeError Unit}
  {ms : List MaterialMapping}

theorem requestStart_snd : (requestStart fileName ms answer a).2 =
    a.log [.printGcode fileName ms answer.toBool] := by
  cases answer <;> rfl

/-- The file that a start names is the first detail with that name. -/
theorem eq_mappings_of_startWith {state : Option MachineState} {files : List GcodeFile}
    (hfiles : parseGcodeFiles (.obj body) = .ok files)
    (h : startWith state fileName files = .ok ms) :
    ms = mappings (fileOf fileName (firstDetail (.obj body) fileName)) := by
  obtain ⟨-, -, hlisted⟩ := startWith_ok_iff.mp ⟨ms, h⟩
  obtain ⟨-, rfl⟩ := parseGcodeFiles_eq_ok_iff.mp hfiles
  set names := addAll (Listing.listed (.obj body)) (detailNames (.obj body))
  have hmem : fileName ∈ names := by simpa [fileOf] using hlisted
  have hfind : names.find? (fun name => name = fileName) = some fileName := by
    rcases hname : names.find? fun name => name = fileName with _ | name
    · exact absurd (decide_eq_true rfl) (List.find?_eq_none.mp hname fileName hmem)
    · have heq := List.find?_some hname
      rw [of_decide_eq_true heq]
  rw [startWith] at h
  split at h
  · cases h
  · rw [← Except.ok.inj h, List.find?_map]
    change (((names.find? fun name => name = fileName).map _).map mappings).getD [] = _
    rw [hfind]
    rfl

/-- The mapping of a start that is sent is that of the first detail with the name of the file. -/
theorem mappings_of_sendsStart (h : SendsStart a fileName (.ok body) answer ms) :
    ms = mappings (fileOf fileName (firstDetail (.obj body) fileName)) := by
  obtain ⟨accepted, h⟩ := h
  have hpass : ∃ ms, (guardStart fileName (.ok body) a).1 = .ok (.ok ms) := by
    by_contra hnot
    have hsame := (startPrint_of_not_passed (not_exists.mp hnot) answer).1
    have htrace := congrArg Agent.trace (hsame.symm.trans h)
    simp at htrace
  obtain ⟨ms', hms'⟩ := hpass
  obtain ⟨body', files, hbody, hfiles, -⟩ := guardStart_ok_iff.mp ⟨ms', hms'⟩
  obtain rfl := Except.ok.inj hbody
  rw [startPrint_of_passed hms', requestStart_snd] at h
  have htrace := congrArg Agent.trace h
  obtain ⟨rfl, -⟩ : ms' = ms ∧ answer.toBool = accepted := by simpa using htrace
  rw [guardStart_of_parsed hfiles] at hms'
  exact eq_mappings_of_startWith hfiles (Except.ok.inj hms')

end Agent

/-! ## What the printer is told -/

variable {a : Agent} {fileName : String} {body : Dict} {answer : Except FlashforgeError Unit}
  {ms : List MaterialMapping}

theorem length_shownPair_le (items : List Json) :
    (items.filterMap shownPair).length ≤ (items.filterMap pairOf).length := by
  induction items with
  | nil => rfl
  | cons item items ih =>
    rw [List.filterMap_cons, List.filterMap_cons]
    rcases shownPair_eq_none_or item with h | h <;> rw [h]
    · rcases pairOf item with _ | m
      · exact ih
      · exact Nat.le_succ_of_le ih
    · rcases pairOf item with _ | m
      · exact ih
      · exact Nat.succ_le_succ ih

/-- A pair that is left out is missing from the count. -/
theorem shownPair_eq_of_length {items : List Json}
    (h : (items.filterMap shownPair).length = (items.filterMap pairOf).length) :
    ∀ item ∈ items, shownPair item = pairOf item := by
  induction items with
  | nil => simp
  | cons item items ih =>
    rw [List.filterMap_cons, List.filterMap_cons] at h
    have hitem : shownPair item = pairOf item := by
      rcases shownPair_eq_none_or item with hnone | heq
      · rcases hpair : pairOf item with _ | m
        · exact hnone
        · rw [hnone, hpair] at h
          have hle := length_shownPair_le items
          simp only [List.length_cons] at h
          omega
      · exact heq
    refine List.forall_mem_cons.mpr ⟨hitem, ih ?_⟩
    rw [hitem] at h
    rcases hpair : pairOf item with _ | m <;> rw [hpair] at h
    · exact h
    · exact Nat.succ.inj h

/-- **The printer is told the whole tool mapping exactly when every tool with both numbers has a
material or a color, and there is one.** -/
theorem tellsMapping_iff (h : Agent.SendsStart a fileName (.ok body) answer ms)
    (hstation : ((firstDetail (.obj body) fileName).get "useMatlStation").truthy = true) :
    TellsMapping (FlashforgeClient.printGcode fileName false ms)
        (firstDetail (.obj body) fileName) ↔
      AllShown (firstDetail (.obj body) fileName) ∧
        toolPairs (firstDetail (.obj body) fileName) ≠ [] := by
  have hms := (Agent.mappings_of_sendsStart h).trans (mappings_fileOf hstation)
  set entry := firstDetail (.obj body) fileName
  constructor
  · rintro ⟨-, hcount, hused⟩
    have hlen : (ms.length : ℤ) = (toolPairs entry).length := Json.int.inj hcount
    have hne : ms ≠ [] := by
      rintro rfl
      cases hused
    have hall := shownPair_eq_of_length (hms ▸ Int.ofNat.inj hlen)
    refine ⟨allShown_iff.mpr hall, fun hnil => hne ?_⟩
    rw [hms, List.filterMap_congr hall]
    exact hnil
  · rintro ⟨hshown, hne⟩
    have hpairs : ms = toolPairs entry :=
      hms.trans (List.filterMap_congr (allShown_iff.mp hshown))
    rw [← hpairs] at hne
    exact ⟨by rw [← hpairs]; rfl, by rw [← hpairs]; rfl, by
      change Json.bool (!ms.isEmpty) = _
      rw [List.isEmpty_eq_false_iff.mpr hne]
      rfl⟩

/-- A reply that lists one file, with given tools, for the material station. -/
def stationReply (tools : List Dict) : Dict :=
  [("gcodeList", .arr [.str "a.gcode"]),
    ("gcodeListDetail", .arr [.obj [("gcodeFileName", .str "a.gcode"),
      ("useMatlStation", .bool true), ("gcodeToolDatas", .arr (tools.map .obj))]])]

/-- A tool without a material. -/
def blankTool : Dict := [("toolId", .int 0), ("slotId", .int 1)]

/-- A tool with a material. -/
def plaTool : Dict := [("toolId", .int 1), ("slotId", .int 2), ("materialName", .str "PLA")]

/-- A file whose only tool has a material is started with its mapping. -/
theorem tellsMapping_plaTool :
    TellsMapping (FlashforgeClient.printGcode "a.gcode" false [⟨1, 2⟩])
        (firstDetail (.obj (stationReply [plaTool])) "a.gcode") ↔
      AllShown (firstDetail (.obj (stationReply [plaTool])) "a.gcode") ∧
        toolPairs (firstDetail (.obj (stationReply [plaTool])) "a.gcode") ≠ [] := by
  have hsent : Agent.SendsStart idleAgent "a.gcode" (.ok (stationReply [plaTool])) (.ok ())
      [⟨1, 2⟩] := ⟨true, rfl⟩
  exact tellsMapping_iff hsent rfl

/-- The tool without a material is left out of the mapping that the printer is told. -/
theorem not_tellsMapping_blankTool :
    Agent.SendsStart idleAgent "a.gcode" (.ok (stationReply [blankTool, plaTool])) (.ok ())
        [⟨1, 2⟩] ∧
      ¬ TellsMapping (FlashforgeClient.printGcode "a.gcode" false [⟨1, 2⟩])
        (firstDetail (.obj (stationReply [blankTool, plaTool])) "a.gcode") := by
  refine ⟨⟨true, rfl⟩, fun h => ?_⟩
  have hcount : Json.int 1 = .int 2 := h.count
  cases hcount

end FlashforgeObico
