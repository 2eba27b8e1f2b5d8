import FlashforgeObico.Foundations.Html
import FlashforgeObico.Agent.Answers
import FlashforgeObico.Agent.Thumbnails

/-!
# The list of files as it is drawn

`drawFiles` in `console/page.html` writes the list of files as markup. It escapes the names, and it
puts the materials and the colours of the tools in as they are. What the browser makes of the markup
is what a `Browser` says. The list has one button for each file, if nothing in the materials and the
colours is taken for markup (`buttons_listHtml`).
-/

namespace FlashforgeObico

open Py Html

/-! ## The browser -/

/-- A button with `data-file`. -/
structure FileButton where
  dataFile : List Char
  text : String
  disabled : Bool
  deriving DecidableEq

/-- A button of the markup, if it has `data-file`. -/
def fileButton? (leaf : Leaf) : Option FileButton := do
  let file ← leaf.attributes.find? fun a => a.name = "data-file".toList
  some {
    dataFile := file.value.getD []
    text := String.ofList leaf.text
    disabled := leaf.attributes.any fun a => a.name = "disabled".toList }

/-- The buttons with `data-file` in markup. -/
def buttonsOf (ts : List Token) : List FileButton :=
  (leaves "button".toList ts).filterMap fileButton?

/-- What the script has from the browser. -/
structure Browser where
  /-- A number as text. -/
  numText : Double → List Char
  /-- What `querySelectorAll("button[data-file]")` finds in the elements that `innerHTML` builds. -/
  buttons : List Char → List FileButton
  no_tag : ∀ x, '<' ∉ numText x
  builds : ∀ ts, Nested ts → buttons (write ts) = buttonsOf ts

namespace Browser

/-- A browser that reads plain markup, and writes integers. -/
def plain : Browser where
  numText x := (x.toInt?.elim "NaN" toString).toList
  buttons cs := buttonsOf (tokens cs)
  no_tag x := by
    cases x.toInt? with
    | none => decide
    | some n =>
      intro h
      exact forall_mem_toString (p := (· ≠ '<')) (by decide)
        (fun c hc => by rintro rfl; cases hc) n _ h rfl
  builds ts h := by rw [tokens_write h.plain]

end Browser

/-! ## The row of a file -/

/-- Whether the script takes a number for a true condition. -/
def truthy (x : Double) : Bool := x ≠ 0 ∧ x ≠ .nan

section Rows

variable (b : Browser)

/-- `fmt`. -/
def fmt (s : Double) : List Char :=
  let s := if truthy s then s.roundUp else 0
  let s := if s < 0 then 0 else s
  let h := (s / .round64 (3600 : ℤ)).floor
  let m := (s.rem (.round64 (3600 : ℤ)) / .round64 (60 : ℤ)).floor
  if truthy h then b.numText h ++ " h ".toList ++ b.numText m ++ " min".toList
  else b.numText m ++ " min".toList

/-- The materials of a file, each once. -/
def materialNames (f : PageFile) : List String :=
  f.tools.foldl (fun names t =>
    if t.material ≠ "" ∧ t.material ∉ names then names ++ [t.material] else names) []

/-- The items of `fileMeta`. -/
def fileBits (f : PageFile) : List (List Char) :=
  (f.printingTimeS.filter truthy).toList.map (fmt b) ++
    (f.filamentWeightG.filter truthy).toList.map
      (fun x => b.numText x.roundUp ++ " g".toList) ++
    if materialNames f = [] then []
    else [", ".toList.intercalate ((materialNames f).map String.toList)]

/-- `fileMeta`. -/
def fileMeta (f : PageFile) : List Char := " · ".toList.intercalate (fileBits b f)

/-- `f.name.replace(/</g, "&lt;")`. -/
def escapeTags (cs : List Char) : List Char :=
  cs.flatMap fun c => if c = '<' then "&lt;".toList else [c]

/-- `t.color || "transparent"`. -/
def dotColor (t : PageTool) : List Char :=
  if t.color = "" then "transparent".toList else t.color.toList

/-- What shows that a picture is missing. -/
def onError : List Char :=
  ("this.replaceWith(Object.assign(document.createElement('div')," ++
    "\x7bclassName:'none',textContent:'no image'\x7d))").toList

/-- The row of a file. -/
def fileHtml (armed : Option String) (ready : Bool) (f : PageFile) : List Char :=
  let url := thumbnailPath f.name.toList
  let dots := f.tools.flatMap fun t =>
    "<i style=\"background:".toList ++ dotColor t ++ "\"></i>".toList
  let isArmed := armed = some f.name
  "<div class=\"file\">".toList ++
      ("<img src=\"".toList ++ url ++ "\" alt=\"\" loading=\"lazy\" onerror=\"".toList ++ onError ++
        "\">".toList) ++
      ("<div><div class=\"name\">".toList ++ escapeTags f.name.toList ++ "</div>".toList ++
        ("<div class=\"meta\"><span class=\"dots\">".toList ++ dots ++ "</span>".toList ++
          fileMeta b f ++ "</div></div>".toList)) ++
      ("<button data-file=\"".toList ++ encodeURIComponent f.name.toList ++
        "\" data-arm=\"".toList ++ (if isArmed then "1" else "0").toList ++ "\"".toList ++
        (if ready then "" else " disabled").toList ++ ">".toList ++
        (if isArmed then "Confirm" else "Print").toList ++ "</button>".toList) ++
    "</div>".toList

/-- The list of files. -/
def listHtml (armed : Option String) (ready : Bool) (files : List PageFile) : List Char :=
  "<h2>On the printer</h2>".toList ++ files.flatMap (fileHtml b armed ready)

/-! ## The tokens of the list -/

/-- An attribute with a value. -/
def attr (name : String) (value : List Char) : Attribute := ⟨name.toList, some value⟩

def dotTokens (t : PageTool) : List Token :=
  element "i".toList [attr "style" ("background:".toList ++ dotColor t)] []

def pictureTokens (f : PageFile) : List Token :=
  [.start "img".toList [attr "src" (thumbnailPath f.name.toList), attr "alt" [],
    attr "loading" "lazy".toList, attr "onerror" onError]]

def labelTokens (f : PageFile) : List Token :=
  element "div".toList []
    (element "div".toList [attr "class" "name".toList] (chars (escapeTags f.name.toList)) ++
      element "div".toList [attr "class" "meta".toList]
        (element "span".toList [attr "class" "dots".toList] (f.tools.flatMap dotTokens) ++
          chars (fileMeta b f)))

def buttonAttributes (armed : Option String) (ready : Bool) (f : PageFile) : List Attribute :=
  [attr "data-file" (encodeURIComponent f.name.toList),
    attr "data-arm" (if armed = some f.name then "1" else "0").toList] ++
      if ready then [] else [⟨"disabled".toList, none⟩]

def buttonTokens (armed : Option String) (ready : Bool) (f : PageFile) : List Token :=
  element "button".toList (buttonAttributes armed ready f)
    (chars (if armed = some f.name then "Confirm" else "Print").toList)

def fileTokens (armed : Option String) (ready : Bool) (f : PageFile) : List Token :=
  element "div".toList [attr "class" "file".toList]
    (pictureTokens f ++ labelTokens b f ++ buttonTokens armed ready f)

def listTokens (armed : Option String) (ready : Bool) (files : List PageFile) : List Token :=
  element "h2".toList [] (chars "On the printer".toList) ++ files.flatMap (fileTokens b armed ready)

variable {f : PageFile} {files : List PageFile} {armed : Option String} {ready : Bool}

theorem write_flatMap {α : Type} (f : α → List Token) (xs : List α) :
    write (xs.flatMap f) = xs.flatMap fun x => write (f x) := by
  rw [write, List.flatMap_assoc]
  rfl

/-- What is written before the value of an attribute. -/
def attrHead (name : String) : List Char := ' ' :: (name.toList ++ ['=', '"'])

theorem write_attr (name : String) (value : List Char) :
    (attr name value).write = attrHead name ++ (value ++ ['"']) := by
  simp [attr, attrHead, Attribute.write]

theorem write_dotTokens (t : PageTool) : write (dotTokens t) =
    "<i style=\"background:".toList ++ dotColor t ++ "\"></i>".toList := by
  have hhead : "<i style=\"background:".toList =
      '<' :: ("i".toList ++ (attrHead "style" ++ "background:".toList)) := rfl
  have htail : "\"></i>".toList = ['"', '>'] ++ (Token.stop "i".toList).write := rfl
  have hnil : write [] = [] := rfl
  rw [hhead, htail]
  simp only [dotTokens, write_element, hnil, Token.write, write_attr, List.flatMap_cons,
    List.flatMap_nil, List.append_assoc, List.cons_append, List.nil_append]

theorem write_pictureTokens (f : PageFile) : write (pictureTokens f) =
    "<img src=\"".toList ++ thumbnailPath f.name.toList ++
      "\" alt=\"\" loading=\"lazy\" onerror=\"".toList ++ onError ++ "\">".toList := by
  have hhead : "<img src=\"".toList = '<' :: ("img".toList ++ attrHead "src") := rfl
  have hmiddle : "\" alt=\"\" loading=\"lazy\" onerror=\"".toList =
      ['"'] ++ (attrHead "alt" ++ ['"'] ++ (attrHead "loading" ++ ("lazy".toList ++ ['"']) ++
        attrHead "onerror")) := rfl
  have htail : "\">".toList = ['"', '>'] := rfl
  rw [hhead, hmiddle, htail]
  simp only [pictureTokens, write, Token.write, write_attr, List.flatMap_cons, List.flatMap_nil,
    List.append_assoc, List.cons_append, List.nil_append]

theorem write_labelTokens (f : PageFile) : write (labelTokens b f) =
    "<div><div class=\"name\">".toList ++ escapeTags f.name.toList ++ "</div>".toList ++
      ("<div class=\"meta\"><span class=\"dots\">".toList ++
        (f.tools.flatMap fun t =>
          "<i style=\"background:".toList ++ dotColor t ++ "\"></i>".toList) ++
        "</span>".toList ++ fileMeta b f ++ "</div></div>".toList) := by
  have hname : "<div><div class=\"name\">".toList = (Token.start "div".toList []).write ++
      (Token.start "div".toList [attr "class" "name".toList]).write := rfl
  have hmeta : "<div class=\"meta\"><span class=\"dots\">".toList =
      (Token.start "div".toList [attr "class" "meta".toList]).write ++
        (Token.start "span".toList [attr "class" "dots".toList]).write := rfl
  have hdiv : "</div>".toList = (Token.stop "div".toList).write := rfl
  have hspan : "</span>".toList = (Token.stop "span".toList).write := rfl
  have hdivs : "</div></div>".toList =
      (Token.stop "div".toList).write ++ (Token.stop "div".toList).write := rfl
  rw [hname, hmeta, hdiv, hspan, hdivs]
  simp only [labelTokens, write_element, write_append, write_chars, write_flatMap, write_dotTokens,
    List.append_assoc]

theorem write_buttonTokens (armed : Option String) (ready : Bool) (f : PageFile) :
    write (buttonTokens armed ready f) =
      "<button data-file=\"".toList ++ encodeURIComponent f.name.toList ++
        "\" data-arm=\"".toList ++ (if armed = some f.name then "1" else "0").toList ++
        "\"".toList ++ (if ready then "" else " disabled").toList ++ ">".toList ++
        (if armed = some f.name then "Confirm" else "Print").toList ++ "</button>".toList := by
  have hhead : "<button data-file=\"".toList =
      '<' :: ("button".toList ++ attrHead "data-file") := rfl
  have harm : "\" data-arm=\"".toList = ['"'] ++ attrHead "data-arm" := rfl
  have hquote : "\"".toList = ['"'] := rfl
  have hclose : ">".toList = ['>'] := rfl
  have htail : "</button>".toList = (Token.stop "button".toList).write := rfl
  have hready : (if ready then "" else " disabled").toList =
      (if ready then [] else [(⟨"disabled".toList, none⟩ : Attribute)]).flatMap
        Attribute.write := by
    cases ready <;> rfl
  rw [hhead, harm, hquote, hclose, htail, hready, buttonTokens, buttonAttributes, write_element,
    write_chars, Token.write, List.flatMap_append, List.flatMap_cons, List.flatMap_singleton,
    write_attr, write_attr]
  simp only [List.append_assoc, List.cons_append, List.nil_append]

theorem write_fileTokens (armed : Option String) (ready : Bool) (f : PageFile) :
    write (fileTokens b armed ready f) = fileHtml b armed ready f := by
  have hstart : "<div class=\"file\">".toList =
      (Token.start "div".toList [attr "class" "file".toList]).write := rfl
  have hstop : "</div>".toList = (Token.stop "div".toList).write := rfl
  unfold fileTokens fileHtml
  simp only [hstart, hstop, write_element, write_append, write_pictureTokens, write_labelTokens,
    write_buttonTokens, List.append_assoc]

/-- The tokens of the list are written as the script writes it. -/
theorem write_listTokens (armed : Option String) (ready : Bool) (files : List PageFile) :
    write (listTokens b armed ready files) = listHtml b armed ready files := by
  have hhead : "<h2>On the printer</h2>".toList = (Token.start "h2".toList []).write ++
      "On the printer".toList ++ (Token.stop "h2".toList).write := rfl
  unfold listTokens listHtml
  simp only [hhead, write_append, write_element, write_chars, write_flatMap, write_fileTokens]

end Rows

/-! ## The buttons of the list -/

/-- The button of a file. -/
def fileButton (armed : Option String) (ready : Bool) (f : PageFile) : FileButton where
  dataFile := encodeURIComponent f.name.toList
  text := if armed = some f.name then "Confirm" else "Print"
  disabled := !ready

/-- What the script does not escape cannot be taken for markup. -/
def PageFile.Plain (f : PageFile) : Prop :=
  ∀ t ∈ f.tools, '<' ∉ t.material.toList ∧ '"' ∉ t.color.toList

instance (f : PageFile) : Decidable f.Plain := by unfold PageFile.Plain; infer_instance

section Plain

variable {b : Browser} {f : PageFile} {files : List PageFile} {armed : Option String} {ready : Bool}

theorem not_mem_intercalate {c : Char} {sep : List Char} {xs : List (List Char)} (hsep : c ∉ sep)
    (h : ∀ x ∈ xs, c ∉ x) : c ∉ sep.intercalate xs := by
  induction xs with
  | nil => exact List.not_mem_nil
  | cons x xs ih =>
    obtain ⟨hx, hxs⟩ := List.forall_mem_cons.mp h
    cases xs with
    | nil =>
      rw [List.intercalate_singleton]
      exact hx
    | cons y ys =>
      rw [List.intercalate_cons_cons, List.mem_append, List.mem_append, not_or, not_or]
      exact ⟨⟨hx, hsep⟩, ih hxs⟩

theorem not_mem_fmt (s : Double) : '<' ∉ fmt b s := by
  have hminutes (m : Double) : '<' ∉ b.numText m ++ " min".toList := by
    rw [List.mem_append, not_or]
    exact ⟨b.no_tag m, by decide⟩
  have hhours (h : Double) : '<' ∉ b.numText h ++ " h ".toList := by
    rw [List.mem_append, not_or]
    exact ⟨b.no_tag h, by decide⟩
  have hboth (h m : Double) :
      '<' ∉ if truthy h then b.numText h ++ " h ".toList ++ b.numText m ++ " min".toList
        else b.numText m ++ " min".toList := by
    split_ifs
    · rw [List.append_assoc, List.mem_append, not_or]
      exact ⟨hhours h, hminutes m⟩
    · exact hminutes m
  exact hboth _ _

/-- The materials that are shown are those of the tools. -/
theorem forall_mem_materialNames {p : String → Prop} (h : ∀ t ∈ f.tools, p t.material) :
    ∀ name ∈ materialNames f, p name := by
  unfold materialNames
  refine List.foldlRecOn (motive := fun names => ∀ name ∈ names, p name) f.tools _
    (List.forall_mem_nil p) fun names hnames t ht => ?_
  split_ifs
  · exact List.forall_mem_append.mpr ⟨hnames, List.forall_mem_singleton.mpr (h t ht)⟩
  · exact hnames

theorem not_mem_fileMeta (h : f.Plain) : '<' ∉ fileMeta b f := by
  refine not_mem_intercalate (by decide) ?_
  have hnames : ∀ name ∈ (materialNames f).map String.toList, '<' ∉ name :=
    List.forall_mem_map.mpr (forall_mem_materialNames fun t ht => (h t ht).1)
  unfold fileBits
  rw [List.forall_mem_append, List.forall_mem_append, List.forall_mem_map, List.forall_mem_map]
  refine ⟨⟨fun s _ => not_mem_fmt s, fun x _ => ?_⟩, ?_⟩
  · rw [List.mem_append, not_or]
    exact ⟨b.no_tag _, by decide⟩
  · split_ifs
    · exact List.forall_mem_nil _
    · exact List.forall_mem_singleton.mpr (not_mem_intercalate (by decide) hnames)

theorem not_mem_escapeTags (cs : List Char) : '<' ∉ escapeTags cs := by
  intro h
  obtain ⟨c, -, hc⟩ := List.mem_flatMap.mp h
  split_ifs at hc with hlt
  · exact absurd hc (by decide)
  · exact hlt (List.mem_singleton.mp hc).symm

theorem plain_attr {name : String} {value : List Char} (hname : isName name.toList = true)
    (hvalue : '"' ∉ value) : (attr name value).Plain := by
  refine ⟨hname, fun value' h => ?_⟩
  obtain rfl := Option.some.inj h
  exact hvalue

theorem areAttributes_nil : AreAttributes [] := ⟨List.forall_mem_nil _, List.nodup_nil⟩

theorem areAttributes_attr {name : String} {value : List Char} (hname : isName name.toList = true)
    (hvalue : '"' ∉ value) : AreAttributes [attr name value] :=
  ⟨List.forall_mem_singleton.mpr (plain_attr hname hvalue), List.nodup_singleton _⟩

theorem nested_dotTokens {t : PageTool} (h : '"' ∉ t.color.toList) : Nested (dotTokens t) := by
  refine .element (by decide) (areAttributes_attr (by decide) ?_) .nil
  rw [List.mem_append, not_or]
  refine ⟨by decide, ?_⟩
  unfold dotColor
  split_ifs
  · decide
  · exact h

theorem nested_pictureTokens (f : PageFile) : Nested (pictureTokens f) := by
  have hnames : ["src".toList, "alt".toList, "loading".toList, "onerror".toList].Nodup := by decide
  refine .void (by decide) ⟨?_, hnames⟩
  simp only [List.forall_mem_cons]
  refine ⟨plain_attr (by decide) ?_, plain_attr (by decide) (by decide),
    plain_attr (by decide) (by decide), plain_attr (by decide) (by decide), List.forall_mem_nil _⟩
  exact not_mem_thumbnailPath (by decide) (by decide) (by decide) (by decide)

theorem nested_labelTokens (h : f.Plain) : Nested (labelTokens b f) := by
  have hclass {value : List Char} (hvalue : '"' ∉ value) : AreAttributes [attr "class" value] :=
    areAttributes_attr (by decide) hvalue
  have hdots : Nested (f.tools.flatMap dotTokens) :=
    .flatMap fun t ht => nested_dotTokens (h t ht).2
  refine .element (by decide) areAttributes_nil (.append ?_ ?_)
  · exact .element (by decide) (hclass (by decide)) (.text (not_mem_escapeTags _))
  · exact .element (by decide) (hclass (by decide))
      (.append (.element (by decide) (hclass (by decide)) hdots) (.text (not_mem_fileMeta h)))

theorem isLiteral_encodeURIComponent (cs : List Char) :
    isLiteral (encodeURIComponent cs) = true := by
  have hnone : ['&', '\x00', '\r'].all (fun d => d ≠ '%' ∧ isUnescaped d = false) = true := rfl
  refine List.all_eq_true.mpr fun c hc => decide_eq_true fun hmem => ?_
  obtain ⟨hpercent, hescaped⟩ := of_decide_eq_true (List.all_eq_true.mp hnone c hmem)
  exact not_mem_encodeURIComponent hpercent hescaped hc

theorem areAttributes_buttonAttributes (armed : Option String) (ready : Bool) (f : PageFile) :
    AreAttributes (buttonAttributes armed ready f) := by
  have hfile : (attr "data-file" (encodeURIComponent f.name.toList)).Plain :=
    plain_attr (by decide) (not_mem_encodeURIComponent (by decide) (by decide))
  have harm : (attr "data-arm" (if armed = some f.name then "1" else "0").toList).Plain := by
    refine plain_attr (by decide) ?_
    split_ifs <;> decide
  have hdisabled : (⟨"disabled".toList, none⟩ : Attribute).Plain := ⟨by decide, nofun⟩
  have hnames : ["data-file".toList, "data-arm".toList, "disabled".toList].Nodup := by decide
  have hready : ["data-file".toList, "data-arm".toList].Nodup := by decide
  cases ready with
  | true => exact ⟨by simpa [buttonAttributes] using ⟨hfile, harm⟩, hready⟩
  | false => exact ⟨by simpa [buttonAttributes] using ⟨hfile, harm, hdisabled⟩, hnames⟩

theorem isLiteral_buttonAttributes (armed : Option String) (ready : Bool) (f : PageFile) :
    ∀ a ∈ buttonAttributes armed ready f, ∀ value ∈ a.value, isLiteral value = true := by
  have hfile := isLiteral_encodeURIComponent f.name.toList
  have harm : isLiteral (if armed = some f.name then "1" else "0").toList = true := by
    split_ifs <;> decide
  cases ready with
  | true => simpa [buttonAttributes, attr] using ⟨hfile, harm⟩
  | false => simpa [buttonAttributes, attr] using ⟨hfile, harm⟩

theorem nested_buttonTokens (armed : Option String) (ready : Bool) (f : PageFile) :
    Nested (buttonTokens armed ready f) := by
  refine .control (by decide) (areAttributes_buttonAttributes armed ready f)
    (isLiteral_buttonAttributes armed ready f) ?_ ?_
  all_goals split_ifs <;> decide

theorem fileButton?_buttonAttributes (armed : Option String) (ready : Bool) (f : PageFile) :
    fileButton? ⟨buttonAttributes armed ready f,
      (if armed = some f.name then "Confirm" else "Print").toList⟩ =
        some (fileButton armed ready f) := by
  unfold fileButton? fileButton
  rw [String.ofList_toList]
  cases ready <;> rfl

theorem nested_fileTokens (h : f.Plain) : Nested (fileTokens b armed ready f) :=
  .element (by decide) (areAttributes_attr (by decide) (by decide))
    (.append (.append (nested_pictureTokens f) (nested_labelTokens h))
      (nested_buttonTokens armed ready f))

theorem nested_listTokens (h : ∀ f ∈ files, f.Plain) : Nested (listTokens b armed ready files) :=
  .append (.element (by decide) areAttributes_nil (.text (by decide)))
    (.flatMap fun f hf => nested_fileTokens (h f hf))

/-- There is one button in a row. -/
theorem buttonsOf_fileTokens (h : f.Plain) :
    buttonsOf (fileTokens b armed ready f) = [fileButton armed ready f] := by
  have hpicture : leaves "button".toList (pictureTokens f) = [] := rfl
  have hlabel : leaves "button".toList (labelTokens b f) = [] :=
    leaves_eq_nil fun attributes => by simp [labelTokens, dotTokens, element, chars]
  have hnested := (nested_pictureTokens f).append (nested_labelTokens (b := b) h)
  rw [buttonsOf, fileTokens, leaves_element (by decide) (by decide)
    (hnested.append (nested_buttonTokens armed ready f)), leaves_append (by decide) hnested,
    leaves_append (by decide) (nested_pictureTokens f), hpicture, hlabel, buttonTokens,
    leaves_control, List.nil_append, List.nil_append, List.filterMap_cons,
    fileButton?_buttonAttributes]
  rfl

theorem buttonsOf_append {ts : List Token} (h : Nested ts) (ts' : List Token) :
    buttonsOf (ts ++ ts') = buttonsOf ts ++ buttonsOf ts' := by
  rw [buttonsOf, leaves_append (by decide) h, List.filterMap_append]
  rfl

/-- **The list has one button for each file**, if nothing in the files is taken for markup. -/
theorem buttons_listHtml (h : ∀ f ∈ files, f.Plain) :
    b.buttons (listHtml b armed ready files) = files.map (fileButton armed ready) := by
  have hhead : Nested (element "h2".toList [] (chars "On the printer".toList)) :=
    .element (by decide) areAttributes_nil (.text (by decide))
  have hnone : buttonsOf (element "h2".toList [] (chars "On the printer".toList)) = [] := rfl
  rw [← write_listTokens, b.builds _ (nested_listTokens h), listTokens, buttonsOf_append hhead,
    hnone, List.nil_append]
  induction files with
  | nil => rfl
  | cons f files ih =>
    obtain ⟨hf, hfiles⟩ := List.forall_mem_cons.mp h
    rw [List.flatMap_cons, buttonsOf_append (nested_fileTokens hf), buttonsOf_fileTokens hf,
      ih hfiles]
    rfl

end Plain

/- A material with markup in it adds a button for a file that is not listed. -/
example : (Browser.plain.buttons (listHtml .plain none true [{
    name := "a.gcode"
    printingTimeS := none
    filamentWeightG := none
    tools := [⟨"<button data-file=\"b.gcode\">PLA</button>", "#fff"⟩] }])).map
      FileButton.dataFile = ["b.gcode".toList, "a.gcode".toList] := by decide +kernel

end FlashforgeObico
