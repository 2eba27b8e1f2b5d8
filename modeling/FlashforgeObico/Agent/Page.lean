import FlashforgeObico.Foundations.PercentEncoding
import FlashforgeObico.Foundations.Transition
import FlashforgeObico.Foundations.Trace
import FlashforgeObico.Agent.PageRequests
import FlashforgeObico.Agent.Drawing

/-!
# The script of the page

`console/page.html` draws the status that it polls and the stored files, and posts what is tapped.
Its functions run one after the other, each when an answer, a timer or a tap comes, in any order.
There is no login, and "starting one is two taps": `starts_are_confirmed` says that a file is
started exactly for two taps on that file with no tap on another one between them, and none too
late. `controls_follow_the_status` says that the other buttons do what the newest status permits,
one request at a time.
-/

namespace FlashforgeObico

open Py Transition Trace

/-! ## The state of the script -/

/-- The button of a file that is being started. -/
def FileButton.starting (button : FileButton) : FileButton :=
  { button with disabled := true, text := "Starting…" }

/-- Another text on the button. -/
def FileButton.label (text : String) (button : FileButton) : FileButton := { button with text }

/-- The list of files: the variables of the script, what is drawn, and what it waits for. -/
structure FileList where
  /-- `filesLoaded`. -/
  loaded : Bool := false
  lastReady : Option Bool := none
  armed : Option String := none
  /-- The timeout `armTimer` is set. -/
  armTimer : Bool := false
  lastFiles : List PageFile := []
  /-- `box.hidden`. -/
  hidden : Bool := true
  /-- The files that are drawn in `box`. -/
  drawn : List PageFile := []
  /-- The buttons in `box` to which the script listens. -/
  buttons : List FileButton := []
  /-- How often `box.innerHTML` was written: a button of an older drawing is not in the document. -/
  drawings : ℕ := 0
  /-- The requests to `/api/files` that are not answered, each with `ready` as it was then. -/
  fetching : List Bool := []
  /-- The requests to `/api/print` that are not answered, each with the drawing of its button and
  the place of the button in it. -/
  starting : List (ℕ × ℕ) := []
  /-- The timeouts that draw the list again after a refusal. -/
  redraws : ℕ := 0
  deriving DecidableEq

/-- The other buttons. -/
structure Controls where
  busy : Bool := false
  lightOn : Bool := false
  pauseDisabled : Bool := true
  resumeDisabled : Bool := true
  lightDisabled : Bool := true
  /-- The requests of `post` that are not answered. -/
  posting : ℕ := 0
  /-- The timeouts of `post` that are set. -/
  settling : ℕ := 0
  deriving DecidableEq

/-- The script, and what it has posted. -/
structure Page where
  controls : Controls := {}
  files : FileList := {}
  sent : List PageRequest := []
  deriving DecidableEq

/-- What `/api/print` answers. -/
inductive StartAnswer
  | accepted
  | refused (error : String)
  | failed
  deriving DecidableEq

/-- What can happen on the page. -/
inductive PageMove
  /-- A status comes, and is drawn. -/
  | status (st : ConsoleStatus)
  /-- An answer of `/api/files` comes; `none` when it is no list. -/
  | fetched (j : ℕ) (files : Option (List PageFile))
  /-- A tap on a button in the list, in the row of this file. -/
  | tapFile (i : ℕ) (fileName : String)
  | armExpires
  | startAnswered (j : ℕ) (answer : StartAnswer)
  | redraw
  /-- A tap on another button, which posts this. -/
  | press (request : PageRequest)
  | postAnswered
  | settled

/-! ## The list of files -/

namespace FileList

/-- `drawFiles`. -/
def drawFiles (b : Browser) (l : FileList) (files : List PageFile) (ready : Bool) : FileList :=
  if files = [] then { l with hidden := true }
  else { l with
    hidden := false
    drawn := files
    buttons := b.buttons (listHtml b l.armed ready files)
    drawings := l.drawings + 1 }

/-- `renderFiles`. -/
def renderFiles (b : Browser) (l : FileList) (ready : Bool) : FileList :=
  let l' :=
    if l.loaded = false ∨ (ready = true ∧ l.lastReady = some false) then
      { l with loaded := true, fetching := l.fetching ++ [ready] }
    else if some ready ≠ l.lastReady then l.drawFiles b l.lastFiles ready
    else l
  { l' with lastReady := some ready }

/-- What is done with an answer of `/api/files`. -/
def fetched (b : Browser) (l : FileList) (j : ℕ) (ready : Bool) (files : Option (List PageFile)) :
    FileList :=
  let l := { l with fetching := l.fetching.eraseIdx j }
  match files with
  | none => l
  | some files => { l with lastFiles := files }.drawFiles b files ready

/-- The first tap on a button. -/
def arm (b : Browser) (l : FileList) (name : String) : FileList :=
  { l with armed := some name, armTimer := true }.drawFiles b l.lastFiles true

/-- The second tap on a button. -/
def confirm (l : FileList) (i : ℕ) : FileList :=
  { l with
    armed := none
    armTimer := false
    buttons := l.buttons.modify i FileButton.starting
    starting := l.starting ++ [(l.drawings, i)] }

/-- The timeout of a first tap. -/
def expire (b : Browser) (l : FileList) : FileList :=
  { l with armed := none, armTimer := false }.drawFiles b l.lastFiles true

/-- Write a text on a button. Nobody sees it when the list was drawn again. -/
def label (l : FileList) (button : ℕ × ℕ) (text : String) : FileList :=
  if button.1 = l.drawings then
    { l with buttons := l.buttons.modify button.2 (FileButton.label text) }
  else l

/-- What is done with an answer of `/api/print`. -/
def answered (l : FileList) (j : ℕ) (button : ℕ × ℕ) (answer : StartAnswer) : FileList :=
  let l := { l with starting := l.starting.eraseIdx j }
  match answer with
  | .accepted => l
  | .refused error =>
    let l := l.label button (if error = "not_ready" then "Printer busy" else "Refused")
    { l with redraws := l.redraws + 1 }
  | .failed => l.label button "Failed"

/-- The timeout after a refusal. -/
def redrawn (b : Browser) (l : FileList) : FileList :=
  { l with redraws := l.redraws - 1 }.drawFiles b l.lastFiles false

end FileList

/-! ## The page -/

/-- How the page shows the printer. -/
inductive PageState
  | offline
  | error
  | paused
  | warming
  | printing
  | ready
  deriving DecidableEq

/-- `k`, in `render`; `none` when there is no printer to read it off. -/
def pageState (st : ConsoleStatus) : Option PageState :=
  if st.connected = false then some .offline
  else st.printer.map fun p =>
    if p.errorCode ≠ "" then .error
    else if p.paused = true then .paused
    else if p.warmingUp = true then .warming
    else if p.hasJob = true then .printing
    else .ready

namespace Controls

/-- The buttons, as `render` sets them. -/
def render (c : Controls) : Option ConsolePrinter → Controls
  | none => { c with pauseDisabled := true, resumeDisabled := true, lightDisabled := true }
  | some p => { c with
      pauseDisabled := c.busy || !p.canPause
      resumeDisabled := c.busy || !p.canResume
      lightDisabled := c.busy
      lightOn := p.lightOn }

/-- A request that a button posts now. -/
def Posts (c : Controls) : PageRequest → Prop
  | .pause => c.pauseDisabled = false
  | .resume => c.resumeDisabled = false
  | .light on => c.lightDisabled = false ∧ on = !c.lightOn
  | .print _ => False

instance (c : Controls) (request : PageRequest) : Decidable (c.Posts request) := by
  cases request <;> unfold Posts <;> infer_instance

/-- `post`. -/
def post (c : Controls) : Controls :=
  { c with
    busy := true
    pauseDisabled := true
    resumeDisabled := true
    lightDisabled := true
    posting := c.posting + 1 }

end Controls

namespace Page

/-- `render`, which raises when the printer is missing in a status that has one. -/
def render (b : Browser) (page : Page) (st : ConsoleStatus) : Page :=
  match pageState st with
  | none => page
  | some k =>
    { page with
      controls := page.controls.render st.printer
      files :=
        if st.printer.isSome then page.files.renderFiles b (k = .ready) else page.files }

/-- The function that a tap on a button in the list calls. -/
def tap (b : Browser) (page : Page) (i : ℕ) (button : FileButton) : Page :=
  match decodeURIComponent button.dataFile with
  | none => page
  | some text =>
    let name := String.ofList text
    if page.files.armed ≠ some name then { page with files := page.files.arm b name }
    else { page with files := page.files.confirm i, sent := page.sent ++ [.print name] }

/-- What a move does, when it is possible. Hidden and disabled buttons cannot be tapped. -/
def step (b : Browser) (page : Page) : PageMove → Option Page
  | .status st => some (page.render b st)
  | .fetched j files => do
    let ready ← page.files.fetching[j]?
    some { page with files := page.files.fetched b j ready files }
  | .tapFile i fileName => do
    let button ← page.files.buttons[i]?
    if page.files.hidden = false ∧ button.disabled = false ∧
        ∀ file ∈ page.files.drawn[i]?, file.name = fileName then
      some (page.tap b i button)
    else none
  | .armExpires =>
    if page.files.armTimer = true then some { page with files := page.files.expire b } else none
  | .startAnswered j answer => do
    let button ← page.files.starting[j]?
    some { page with files := page.files.answered j button answer }
  | .redraw =>
    if 0 < page.files.redraws then some { page with files := page.files.redrawn b } else none
  | .press request =>
    if page.controls.Posts request then
      some { page with controls := page.controls.post, sent := page.sent ++ [request] }
    else none
  | .postAnswered =>
    if 0 < page.controls.posting then some { page with
      controls := { page.controls with
        posting := page.controls.posting - 1
        settling := page.controls.settling + 1 } }
    else none
  | .settled =>
    if 0 < page.controls.settling then some { page with
      controls := { page.controls with busy := false, settling := page.controls.settling - 1 } }
    else none

end Page

/-! ## Two taps -/

section Taps

variable {α : Type} [DecidableEq α]

/-- What is tapped twice, with no other tap and no expiry (`none`) between the two. -/
def confirmed : List (Option α) → List α
  | some x :: some y :: ts => if x = y then x :: confirmed ts else confirmed (some y :: ts)
  | some _ :: none :: ts | none :: ts => confirmed ts
  | [some _] | [] => []

/-- What is tapped and waits for its second tap. -/
def tapped : List (Option α) → Option α
  | some x :: some y :: ts => if x = y then tapped ts else tapped (some y :: ts)
  | some _ :: none :: ts | none :: ts => tapped ts
  | [some x] => some x
  | [] => none

/-- A tap more confirms what waits for it. -/
theorem confirmed_concat_some (ts : List (Option α)) (x : α) : confirmed (ts ++ [some x]) =
    if tapped ts = some x then confirmed ts ++ [x] else confirmed ts := by
  fun_induction tapped ts with
  | case1 y ts ih =>
    simp only [List.cons_append, confirmed, if_true, ih]
    split_ifs <;> rfl
  | case2 y z ts hne ih => simpa [confirmed, hne] using ih
  | case3 y ts ih => simpa [confirmed] using ih
  | case4 ts ih => simpa [confirmed] using ih
  | case5 y =>
    rcases eq_or_ne y x with rfl | hne
    · simp [confirmed]
    · simp [confirmed, hne]
  | case6 => rfl

theorem tapped_concat_some (ts : List (Option α)) (x : α) :
    tapped (ts ++ [some x]) = if tapped ts = some x then none else some x := by
  fun_induction tapped ts with
  | case1 y ts ih => simpa [tapped] using ih
  | case2 y z ts hne ih => simpa [tapped, hne] using ih
  | case3 y ts ih => simpa [tapped] using ih
  | case4 ts ih => simpa [tapped] using ih
  | case5 y => simp [tapped]
  | case6 => rfl

/-- An expiry confirms nothing, and nothing waits after it. -/
theorem confirmed_concat_none (ts : List (Option α)) :
    confirmed (ts ++ [none]) = confirmed ts ∧ tapped (ts ++ [none]) = none := by
  fun_induction tapped ts with
  | case1 y ts ih => simpa [confirmed, tapped] using ih
  | case2 y z ts hne ih => simpa [confirmed, tapped, hne] using ih
  | case3 y ts ih => simpa [confirmed, tapped] using ih
  | case4 ts ih => simpa [confirmed, tapped] using ih
  | case5 y => simp [confirmed, tapped]
  | case6 => exact ⟨rfl, rfl⟩

end Taps

/-! ## What is drawn -/

namespace FileList

/-- What stays true however the list is drawn: the files are known ones, each button is that of its
row, and a button whose request waits for its answer is disabled or was drawn over. -/
structure Kept (P : PageFile → Prop) (l : FileList) : Prop where
  known : ∀ f ∈ l.lastFiles, P f
  rows : ∀ (i : ℕ) (button : FileButton), l.buttons[i]? = some button →
    ∃ f, l.drawn[i]? = some f ∧ P f ∧ button.dataFile = encodeURIComponent f.name.toList
  started : ∀ b ∈ l.starting, b.1 ≤ l.drawings ∧
    (b.1 = l.drawings → ∀ button : FileButton, l.buttons[b.2]? = some button →
      button.disabled = true)

/-- The button of a file tells whether a tap on it starts the file. -/
structure Tells (armed : Option String) (files : List PageFile) (f : PageFile)
    (button : FileButton) : Prop where
  confirms : armed = some f.name → button.text = "Confirm"
  armed : (files.map PageFile.name).Nodup → button.text = "Confirm" → armed = some f.name

/-- What is shown are the files that were listed last. -/
structure Drawn (P : PageFile → Prop) (l : FileList) : Prop extends Kept P l where
  shown : l.hidden = false → l.drawn = l.lastFiles
  tells : l.hidden = false → ∀ (i : ℕ) (f : PageFile) (button : FileButton),
    l.drawn[i]? = some f → l.buttons[i]? = some button → button.disabled = false →
      Tells l.armed l.lastFiles f button

variable {b : Browser} {P : PageFile → Prop} {l : FileList}

theorem drawFiles_armed (l : FileList) (files : List PageFile) (ready : Bool) :
    (l.drawFiles b files ready).armed = l.armed := by
  unfold drawFiles
  split_ifs <;> rfl

section Plain

variable (hP : ∀ f, P f → f.Plain)
include hP

/-- The list that is drawn is drawn as the script says. -/
theorem Kept.drawFiles (h : Kept P l) (ready : Bool) :
    Drawn P (l.drawFiles b l.lastFiles ready) := by
  have hbuttons : b.buttons (listHtml b l.armed ready l.lastFiles) =
      l.lastFiles.map (fileButton l.armed ready) :=
    buttons_listHtml fun f hf => hP f (h.known f hf)
  unfold FileList.drawFiles
  rw [hbuttons]
  split_ifs with hfiles
  · exact ⟨⟨h.known, h.rows, h.started⟩, nofun, nofun⟩
  refine ⟨⟨h.known, fun i button hi => ?_, fun p hp => ?_⟩, fun _ => rfl,
    fun _ i f button hf hi _ => ?_⟩
  · rw [List.getElem?_map] at hi
    obtain ⟨f, hf, rfl⟩ := Option.map_eq_some_iff.mp hi
    exact ⟨f, hf, h.known f (List.mem_of_getElem? hf), rfl⟩
  · obtain ⟨hle, -⟩ := h.started p hp
    exact ⟨hle.trans (Nat.le_succ _), fun heq => absurd heq (Nat.lt_succ_of_le hle).ne⟩
  · dsimp only at hf hi
    rw [List.getElem?_map, hf] at hi
    obtain rfl := Option.some.inj hi
    refine ⟨fun harmed => if_pos harmed, fun _ htext => ?_⟩
    by_contra hne
    rw [fileButton, if_neg hne] at htext
    have hlabels : "Print" ≠ "Confirm" := by decide
    exact hlabels htext

theorem Drawn.renderFiles (h : Drawn P l) (ready : Bool) : Drawn P (l.renderFiles b ready) := by
  unfold FileList.renderFiles
  split_ifs
  · exact ⟨⟨h.known, h.rows, h.started⟩, h.shown, h.tells⟩
  · have hdrawn := h.toKept.drawFiles (b := b) hP ready
    exact ⟨⟨hdrawn.known, hdrawn.rows, hdrawn.started⟩, hdrawn.shown, hdrawn.tells⟩
  · exact ⟨⟨h.known, h.rows, h.started⟩, h.shown, h.tells⟩

theorem Drawn.fetched (h : Drawn P l) (j : ℕ) (ready : Bool) {files : Option (List PageFile)}
    (hfiles : ∀ files', files = some files' → ∀ f ∈ files', P f) :
    Drawn P (l.fetched b j ready files) := by
  unfold FileList.fetched
  cases files with
  | none => exact ⟨⟨h.known, h.rows, h.started⟩, h.shown, h.tells⟩
  | some files =>
    have hkept : Kept P { l with fetching := l.fetching.eraseIdx j, lastFiles := files } :=
      ⟨hfiles files rfl, h.rows, h.started⟩
    exact hkept.drawFiles hP ready

theorem Drawn.arm (h : Drawn P l) (name : String) : Drawn P (l.arm b name) := by
  have hkept : Kept P { l with armed := some name, armTimer := true } :=
    ⟨h.known, h.rows, h.started⟩
  exact hkept.drawFiles hP true

theorem Drawn.expire (h : Drawn P l) : Drawn P (l.expire b) := by
  have hkept : Kept P { l with armed := none, armTimer := false } := ⟨h.known, h.rows, h.started⟩
  exact hkept.drawFiles hP true

theorem Drawn.redrawn (h : Drawn P l) : Drawn P (l.redrawn b) := by
  have hkept : Kept P { l with redraws := l.redraws - 1 } := ⟨h.known, h.rows, h.started⟩
  exact hkept.drawFiles hP false

end Plain

/-- A change of one button that keeps its file and does not enable it. -/
theorem Kept.modify (h : Kept P l) (i : ℕ) {g : FileButton → FileButton}
    (hdata : ∀ button, (g button).dataFile = button.dataFile)
    (hdisabled : ∀ button : FileButton, button.disabled = true → (g button).disabled = true) :
    Kept P { l with buttons := l.buttons.modify i g } := by
  refine ⟨h.known, fun j button hj => ?_, fun p hp => ?_⟩
  · rw [List.getElem?_modify] at hj
    obtain ⟨button', hj', rfl⟩ := Option.map_eq_some_iff.mp hj
    split_ifs
    · rw [hdata]
      exact h.rows j button' hj'
    · exact h.rows j button' hj'
  · obtain ⟨hle, hdrawn⟩ := h.started p hp
    refine ⟨hle, fun heq button hbutton => ?_⟩
    rw [List.getElem?_modify] at hbutton
    obtain ⟨button', hbutton', rfl⟩ := Option.map_eq_some_iff.mp hbutton
    split_ifs
    · exact hdisabled button' (hdrawn heq button' hbutton')
    · exact hdrawn heq button' hbutton'

theorem Kept.eraseIdx (h : Kept P l) (j : ℕ) :
    Kept P { l with starting := l.starting.eraseIdx j } :=
  ⟨h.known, h.rows, fun p hp => h.started p (List.mem_of_mem_eraseIdx hp)⟩

/-- The second tap on the button of a file. -/
theorem Drawn.confirm (h : Drawn P l) {i : ℕ} {f : PageFile} {button : FileButton}
    (hf : l.drawn[i]? = some f) (hi : l.buttons[i]? = some button)
    (harmed : l.armed = some f.name) : Drawn P (l.confirm i) := by
  have hkept := h.toKept.modify i (g := FileButton.starting) (fun _ => rfl) fun _ _ => rfl
  refine ⟨⟨hkept.known, hkept.rows, fun p hp => ?_⟩, h.shown,
    fun hshown j f' button' hf' hj henabled => ?_⟩
  · rcases List.mem_append.mp hp with hp | hp
    · exact hkept.started p hp
    · rw [List.mem_singleton] at hp
      subst hp
      refine ⟨le_rfl, fun _ button' hbutton' => ?_⟩
      have hmodified : (l.buttons.modify i FileButton.starting)[i]? = some button' := hbutton'
      rw [List.getElem?_modify_eq, hi] at hmodified
      obtain rfl := Option.some.inj hmodified
      rfl
  · have hmodified : (l.buttons.modify i FileButton.starting)[j]? = some button' := hj
    rcases eq_or_ne i j with rfl | hne
    · rw [List.getElem?_modify_eq, hi] at hmodified
      obtain rfl := Option.some.inj hmodified
      cases henabled
    -- Another button, which says "Confirm" only for a second file of the same name.
    rw [List.getElem?_modify_ne _ _ hne] at hmodified
    have htells := h.tells hshown j f' button' hf' hmodified henabled
    refine ⟨nofun, fun hnodup hconfirm => ?_⟩
    have hsame : some f.name = some f'.name := harmed.symm.trans (htells.armed hnodup hconfirm)
    have hnodup' : (l.drawn.map PageFile.name).Nodup := (h.shown hshown).symm ▸ hnodup
    have hlt : i < (l.drawn.map PageFile.name).length := by
      rw [List.length_map]
      exact (List.getElem?_eq_some_iff.mp hf).1
    refine absurd ((List.getElem?_inj hlt hnodup').mp ?_) hne
    have hdrawn : l.drawn[j]? = some f' := hf'
    rw [List.getElem?_map, List.getElem?_map, hf, hdrawn]
    exact hsame

/-- A text is written on a disabled button. -/
theorem Drawn.label (h : Drawn P l) {p : ℕ × ℕ} (text : String)
    (hdisabled : p.1 = l.drawings → ∀ button : FileButton, l.buttons[p.2]? = some button →
      button.disabled = true) :
    Drawn P (l.label p text) := by
  unfold FileList.label
  split_ifs with hp
  · have hkept := h.toKept.modify p.2 (g := FileButton.label text) (fun _ => rfl) fun _ hd => hd
    refine ⟨hkept, h.shown, fun hshown j f button hf hj henabled => ?_⟩
    have hmodified : (l.buttons.modify p.2 (FileButton.label text))[j]? = some button := hj
    rcases eq_or_ne p.2 j with rfl | hne
    · rw [List.getElem?_modify_eq] at hmodified
      obtain ⟨button', hbutton', rfl⟩ := Option.map_eq_some_iff.mp hmodified
      have hdisabled' : (FileButton.label text button').disabled = true :=
        hdisabled hp button' hbutton'
      rw [hdisabled'] at henabled
      cases henabled
    · rw [List.getElem?_modify_ne _ _ hne] at hmodified
      have htells := h.tells hshown j f button hf hmodified henabled
      exact ⟨htells.confirms, htells.armed⟩
  · exact h

theorem Drawn.answered (h : Drawn P l) {j : ℕ} {p : ℕ × ℕ} (hp : l.starting[j]? = some p)
    (answer : StartAnswer) : Drawn P (l.answered j p answer) := by
  obtain ⟨-, hdisabled⟩ := h.started p (List.mem_of_getElem? hp)
  have hkept := h.toKept.eraseIdx j
  have hdrawn : Drawn P { l with starting := l.starting.eraseIdx j } := ⟨hkept, h.shown, h.tells⟩
  cases answer with
  | accepted => exact hdrawn
  | refused error =>
    have hlabel :=
      hdrawn.label (if error = "not_ready" then "Printer busy" else "Refused") hdisabled
    exact ⟨⟨hlabel.known, hlabel.rows, hlabel.started⟩, hlabel.shown, hlabel.tells⟩
  | failed => exact hdrawn.label _ hdisabled

theorem Drawn.mono {Q : PageFile → Prop} (h : Drawn P l) (hPQ : ∀ f, P f → Q f) : Drawn Q l := by
  refine ⟨⟨fun f hf => hPQ f (h.known f hf), fun i button hi => ?_, h.started⟩, h.shown, h.tells⟩
  obtain ⟨f, hf, hPf, hdata⟩ := h.rows i button hi
  exact ⟨f, hf, hPQ f hPf, hdata⟩

theorem renderFiles_armed (l : FileList) (ready : Bool) :
    (l.renderFiles b ready).armed = l.armed := by
  unfold FileList.renderFiles
  split_ifs
  · rfl
  · exact drawFiles_armed _ _ _
  · rfl

theorem fetched_armed (l : FileList) (j : ℕ) (ready : Bool) (files : Option (List PageFile)) :
    (l.fetched b j ready files).armed = l.armed := by
  cases files with
  | none => rfl
  | some files => exact drawFiles_armed _ _ _

theorem label_armed (l : FileList) (p : ℕ × ℕ) (text : String) :
    (l.label p text).armed = l.armed := by
  unfold FileList.label
  split_ifs <;> rfl

theorem answered_armed (l : FileList) (j : ℕ) (p : ℕ × ℕ) (answer : StartAnswer) :
    (l.answered j p answer).armed = l.armed := by
  cases answer with
  | accepted => rfl
  | refused error | failed => exact label_armed _ _ _

end FileList

/-! ## Starting a file -/

/-- The file that a request starts. -/
def PageRequest.start? : PageRequest → Option String
  | .print fileName => some fileName
  | _ => none

/-- A tap on a button in the list, or that it is too late for a second one (`none`). -/
def PageMove.touch? : PageMove → Option (Option String)
  | .tapFile _ fileName => some (some fileName)
  | .armExpires => some none
  | _ => none

/-- What comes cannot be taken for markup where the script writes it as it is: in the slots, and in
the list of files. -/
def PageMove.Plain : PageMove → Prop
  | .status st => ∀ p ∈ st.printer, ∀ slot ∈ p.slots, slot.hasFilament = true →
    '<' ∉ slot.material.toList ∧ '"' ∉ slot.color.toList
  | .fetched _ files => ∀ fs ∈ files, ∀ f ∈ fs, f.Plain
  | _ => True

instance (m : PageMove) : Decidable m.Plain := by
  cases m <;> unfold PageMove.Plain <;> infer_instance

namespace Page

/-- The files that were posted to be started, in their order. -/
def starts (page : Page) : List String := page.sent.filterMap PageRequest.start?

/-- The taps on files, and the expiries. -/
def touches (ms : List PageMove) : List (Option String) := ms.filterMap PageMove.touch?

/-- The file was in an answer of `/api/files`. -/
def Listed (ms : List PageMove) (f : PageFile) : Prop :=
  ∃ j files, .fetched j (some files) ∈ ms ∧ f ∈ files

/-- The invariant of the list of files. -/
structure Confirms (ms : List PageMove) (page : Page) : Prop where
  drawn : page.files.Drawn (Listed ms)
  armed : page.files.armed = tapped (touches ms)
  starts : page.starts = confirmed (touches ms)
  listed : ∀ name ∈ page.starts, ∃ f, Listed ms f ∧ f.name = name

variable {b : Browser} {page page' : Page} {m : PageMove} {ms : List PageMove} {i : ℕ}
  {f : PageFile} {button : FileButton}

theorem Listed.concat (h : Listed ms f) : Listed (ms ++ [m]) f := by
  obtain ⟨j, files, hmem, hf⟩ := h
  exact ⟨j, files, List.mem_append_left _ hmem, hf⟩

theorem Listed.plain (hplain : ∀ m ∈ ms, m.Plain) (h : Listed ms f) : f.Plain := by
  obtain ⟨j, files, hmem, hf⟩ := h
  exact hplain _ hmem files rfl f hf

/-- The first tap. -/
theorem tap_of_ne (hdata : button.dataFile = encodeURIComponent f.name.toList)
    (h : page.files.armed ≠ some f.name) :
    page.tap b i button = { page with files := page.files.arm b f.name } := by
  simp only [tap, hdata, decodeURIComponent_encodeURIComponent, String.ofList_toList, ne_eq, h,
    not_false_eq_true, if_true]

/-- The second tap. -/
theorem tap_of_eq (hdata : button.dataFile = encodeURIComponent f.name.toList)
    (h : page.files.armed = some f.name) : page.tap b i button =
      { page with
        files := page.files.confirm i
        sent := page.sent ++ [.print f.name] } := by
  simp only [tap, hdata, decodeURIComponent_encodeURIComponent, String.ofList_toList, ne_eq, h,
    not_true_eq_false, if_false]

theorem starts_append (page : Page) (files : FileList) (controls : Controls)
    (request : PageRequest) :
    ({ page with files, controls, sent := page.sent ++ [request] } : Page).starts =
      page.starts ++ request.start?.toList := by
  simp only [starts, List.filterMap_append]
  cases request <;> rfl

namespace Confirms

theorem listed_concat (h : Confirms ms page) :
    ∀ name ∈ page.starts, ∃ f, Listed (ms ++ [m]) f ∧ f.name = name := by
  intro name hname
  obtain ⟨f, hf, hfname⟩ := h.listed name hname
  exact ⟨f, hf.concat, hfname⟩

theorem quiet (h : Confirms ms page) (hm : m.touch? = none)
    (hdrawn : page'.files.Drawn (Listed (ms ++ [m])))
    (harmed : page'.files.armed = page.files.armed) (hstarts : page'.starts = page.starts) :
    Confirms (ms ++ [m]) page' := by
  have htouches : touches (ms ++ [m]) = touches ms := by
    simp [touches, hm]
  refine ⟨hdrawn, ?_, ?_, ?_⟩
  · rw [harmed, htouches, h.armed]
  · rw [hstarts, htouches, h.starts]
  · rw [hstarts]
    exact h.listed_concat

section Plain

variable (hplain : ∀ m' ∈ ms ++ [m], m'.Plain)
include hplain

theorem render {st : ConsoleStatus} (h : Confirms ms page) (hm : m = .status st) :
    Confirms (ms ++ [m]) (page.render b st) := by
  have hdrawn : page.files.Drawn (Listed (ms ++ [m])) := h.drawn.mono fun _ hf => hf.concat
  have htouch : m.touch? = none := by rw [hm]; rfl
  unfold Page.render
  cases pageState st with
  | none => exact h.quiet htouch hdrawn rfl rfl
  | some k =>
    refine h.quiet htouch ?_ ?_ rfl
    · dsimp only
      split_ifs
      · exact hdrawn.renderFiles (fun _ => Listed.plain hplain) _
      · exact hdrawn
    · dsimp only
      split_ifs
      · exact FileList.renderFiles_armed _ _
      · rfl

/-- A tap on a button that is shown and enabled. -/
theorem tap (h : Confirms ms page) (hm : m = .tapFile i f.name) (hf : page.files.drawn[i]? = some f)
    (hi : page.files.buttons[i]? = some button)
    (hdata : button.dataFile = encodeURIComponent f.name.toList) (hlisted : Listed ms f) :
    Confirms (ms ++ [m]) (page.tap b i button) := by
  have hdrawn : page.files.Drawn (Listed (ms ++ [m])) := h.drawn.mono fun _ hf => hf.concat
  have htouches : touches (ms ++ [m]) = touches ms ++ [some f.name] := by
    simp [touches, hm, PageMove.touch?]
  by_cases harmed : page.files.armed = some f.name
  · have htapped : tapped (touches ms) = some f.name := h.armed ▸ harmed
    have hstarts := starts_append page (page.files.confirm i) page.controls (.print f.name)
    rw [tap_of_eq hdata harmed]
    refine ⟨hdrawn.confirm hf hi harmed, ?_, ?_, ?_⟩
    · rw [htouches, tapped_concat_some, if_pos htapped]
      rfl
    · rw [hstarts, htouches, confirmed_concat_some, if_pos htapped, h.starts]
      rfl
    · rw [hstarts]
      exact List.forall_mem_append.mpr ⟨h.listed_concat,
        List.forall_mem_singleton.mpr ⟨f, hlisted.concat, rfl⟩⟩
  · have htapped : tapped (touches ms) ≠ some f.name := h.armed ▸ harmed
    rw [tap_of_ne hdata harmed]
    refine ⟨hdrawn.arm (fun _ => Listed.plain hplain) f.name, ?_, ?_, h.listed_concat⟩
    · rw [htouches, tapped_concat_some, if_neg htapped]
      exact FileList.drawFiles_armed _ _ _
    · rw [htouches, confirmed_concat_some, if_neg htapped, ← h.starts]
      rfl

theorem expire (h : Confirms ms page) (hm : m = .armExpires) :
    Confirms (ms ++ [m]) { page with files := page.files.expire b } := by
  have hdrawn : page.files.Drawn (Listed (ms ++ [m])) := h.drawn.mono fun _ hf => hf.concat
  have htouches : touches (ms ++ [m]) = touches ms ++ [none] := by
    simp [touches, hm, PageMove.touch?]
  obtain ⟨hconfirmed, htapped⟩ := confirmed_concat_none (touches ms)
  refine ⟨hdrawn.expire fun _ => Listed.plain hplain, ?_, ?_, h.listed_concat⟩
  · rw [htouches, htapped]
    exact FileList.drawFiles_armed _ _ _
  · rw [htouches, hconfirmed, ← h.starts]
    rfl

theorem step (h : Confirms ms page) (hstep : page.step b m = some page') :
    Confirms (ms ++ [m]) page' := by
  have hdrawn : page.files.Drawn (Listed (ms ++ [m])) := h.drawn.mono fun _ hf => hf.concat
  have hfiles : ∀ f, Listed (ms ++ [m]) f → f.Plain := fun _ => Listed.plain hplain
  cases m with
  | status st =>
    obtain rfl := Option.some.inj hstep
    exact h.render hplain rfl
  | fetched j files =>
    obtain ⟨ready, -, hstep⟩ := Option.bind_eq_some_iff.mp hstep
    obtain rfl := Option.some.inj hstep
    refine h.quiet rfl (hdrawn.fetched hfiles j ready fun files' heq f hf => ?_)
      (FileList.fetched_armed _ _ _ _) rfl
    subst heq
    exact ⟨j, files', List.mem_append_right _ (List.mem_singleton.mpr rfl), hf⟩
  | tapFile i fileName =>
    obtain ⟨button, hi, hstep⟩ := Option.bind_eq_some_iff.mp hstep
    obtain ⟨⟨-, -, hname⟩, htap⟩ := Option.ite_none_right_eq_some.mp hstep
    obtain rfl := Option.some.inj htap
    obtain ⟨f, hf, hlisted, hdata⟩ := h.drawn.rows i button hi
    obtain rfl := hname f hf
    exact h.tap hplain rfl hf hi hdata hlisted
  | armExpires =>
    obtain ⟨-, hstep⟩ := Option.ite_none_right_eq_some.mp hstep
    obtain rfl := Option.some.inj hstep
    exact h.expire hplain rfl
  | startAnswered j answer =>
    obtain ⟨p, hj, hstep⟩ := Option.bind_eq_some_iff.mp hstep
    obtain rfl := Option.some.inj hstep
    exact h.quiet rfl (hdrawn.answered hj answer) (FileList.answered_armed _ _ _ _) rfl
  | redraw =>
    obtain ⟨-, hstep⟩ := Option.ite_none_right_eq_some.mp hstep
    obtain rfl := Option.some.inj hstep
    exact h.quiet rfl (hdrawn.redrawn hfiles) (FileList.drawFiles_armed _ _ _) rfl
  | press request =>
    obtain ⟨hposts, hstep⟩ := Option.ite_none_right_eq_some.mp hstep
    obtain rfl := Option.some.inj hstep
    refine h.quiet rfl hdrawn rfl ?_
    rw [starts_append page page.files]
    cases request with
    | print fileName => exact absurd hposts id
    | _ => exact List.append_nil _
  | postAnswered | settled =>
    obtain ⟨-, hstep⟩ := Option.ite_none_right_eq_some.mp hstep
    obtain rfl := Option.some.inj hstep
    exact h.quiet rfl hdrawn rfl rfl

end Plain

/-- What holds after every run. -/
theorem run (h : Run (ofPartial (Page.step b)) {} ms page) (hplain : ∀ m ∈ ms, m.Plain) :
    Confirms ms page := by
  refine h.history (I := fun ms page => (∀ m ∈ ms, m.Plain) → Confirms ms page)
    (fun _ => ⟨⟨⟨?_, ?_, ?_⟩, nofun, nofun⟩, rfl, rfl, ?_⟩)
    (fun ms page m page' h hstep hplain => ?_) hplain
  · exact List.forall_mem_nil _
  · intro i button hi
    cases hi
  · exact List.forall_mem_nil _
  · exact List.forall_mem_nil _
  · exact (h (List.forall_mem_append.mp hplain).1).step hplain hstep

end Confirms

/-- **Starting a file is two taps.** In every run of the page in which nothing that comes can be
taken for markup, the files that it posts to be started are those that were tapped twice with no tap
on another file and no expiry in between, and the agent has listed each. Each button in the list
stands in the row of a file. A tap on it posts a start, of that file, only where the button says
"Confirm", and then always, if no two files have one name. -/
theorem starts_are_confirmed (h : Run (ofPartial (step b)) {} ms page)
    (hplain : ∀ m ∈ ms, m.Plain) :
    page.starts = confirmed (touches ms) ∧
      (∀ name ∈ page.starts, ∃ f, Listed ms f ∧ f.name = name) ∧
      ∀ (i : ℕ) (button : FileButton), page.files.buttons[i]? = some button →
        page.files.hidden = false → button.disabled = false →
          ∃ f page', page.files.drawn[i]? = some f ∧
            page.step b (.tapFile i f.name) = some page' ∧
            (page'.sent = page.sent ∨
              button.text = "Confirm" ∧ page'.sent = page.sent ++ [.print f.name]) ∧
            ((page.files.lastFiles.map PageFile.name).Nodup → button.text = "Confirm" →
              page'.sent = page.sent ++ [.print f.name]) := by
  have hconfirms : Confirms ms page := .run h hplain
  refine ⟨hconfirms.starts, hconfirms.listed, fun i button hi hshown henabled => ?_⟩
  obtain ⟨f, hf, -, hdata⟩ := hconfirms.drawn.rows i button hi
  have htells := hconfirms.drawn.tells hshown i f button hf hi henabled
  refine ⟨f, page.tap b i button, hf, ?_, ?_⟩
  · have hname : ∀ file ∈ page.files.drawn[i]?, file.name = f.name := by
      intro file hfile
      obtain rfl := Option.some.inj (hf.symm.trans hfile)
      rfl
    rw [step, hi, Option.bind_eq_bind, Option.bind_some, if_pos ⟨hshown, henabled, hname⟩]
  by_cases harmed : page.files.armed = some f.name
  · rw [tap_of_eq hdata harmed]
    exact ⟨.inr ⟨htells.confirms harmed, rfl⟩, fun _ _ => rfl⟩
  · rw [tap_of_ne hdata harmed]
    exact ⟨.inl rfl, fun hnodup hconfirm => absurd (htells.armed hnodup hconfirm) harmed⟩

end Page

/-- A status, with this printer in it. -/
def statusWith (printer : Option ConsolePrinter) : ConsoleStatus where
  ts := 0
  version := "1.0"
  connected := printer.isSome
  stateText := .offline
  obicoConnected := true
  viewing := false
  pendingCommand := none
  camera := none
  cameras := []
  printer

/-- The printer in a status of an agent. -/
def printerIn (status : String) : Option ConsolePrinter :=
  (shown status "a.gcode").map fun s => consolePrinter s none

/-- A stored file of this name. -/
def storedAs (name : String) : PageFile where
  name
  printingTimeS := none
  filamentWeightG := none
  tools := [⟨"PLA", "#ffffff"⟩]

/-- Two taps on the second file of a list, with one on the first file before. -/
def twoTaps : List PageMove :=
  [.status (statusWith (printerIn "ready")),
    .fetched 0 (some [storedAs "a.gcode", storedAs "b.gcode"]),
    .tapFile 0 "a.gcode", .tapFile 1 "b.gcode", .tapFile 1 "b.gcode"]

/-- The second file is started. -/
theorem second_file_is_confirmed : ∃ page : Page, page.starts = ["b.gcode"] ∧
    ∀ name ∈ page.starts, ∃ f, Page.Listed twoTaps f ∧ f.name = name := by
  have hrun : ∃ page ∈ twoTaps.foldlM (Page.step .plain) {}, page.starts = ["b.gcode"] := by
    decide +kernel
  have hplain : ∀ m ∈ twoTaps, m.Plain := by decide +kernel
  obtain ⟨page, hpage, hstarts⟩ := hrun
  obtain ⟨-, hlisted, -⟩ := Page.starts_are_confirmed (run_ofPartial.mpr hpage) hplain
  exact ⟨page, hstarts, hlisted⟩

/-! ## The other buttons -/

/-- Whether a move is a request of `post`, or the end of its timeout. -/
def PageMove.posting? : PageMove → Option Bool
  | .press _ => some true
  | .settled => some false
  | _ => none

/-- The request of a tap on one of these buttons. -/
def PageMove.press? : PageMove → Option PageRequest
  | .press request => some request
  | _ => none

/-- The printer in a status that is drawn. -/
def PageMove.shown? : PageMove → Option (Option ConsolePrinter)
  | .status st => (pageState st).map fun _ => st.printer
  | _ => none

/-- What a status permits. -/
def PageRequest.Permitted (printer : Option ConsolePrinter) : PageRequest → Prop
  | .pause => ∃ p ∈ printer, p.canPause = true
  | .resume => ∃ p ∈ printer, p.canResume = true
  | .light on => ∃ p ∈ printer, on = !p.lightOn
  | .print _ => False

/-- The newest status that came after the last request had settled. -/
def newestStatus (ms : List PageMove) : Option (Option ConsolePrinter) :=
  lastOf PageMove.shown? (since (fun m => m.posting?.isSome) ms)

/-- A request is posted only when the one before it has settled, a status has come since then, and
the newest status permits it. -/
def FollowsStatus (pre : List PageMove) (m : PageMove) : Prop :=
  ∀ request, m = .press request → lastOf PageMove.posting? pre ≠ some true ∧
    ∃ printer, newestStatus pre = some printer ∧ request.Permitted printer

namespace Page

/-- What was posted besides the starts. -/
def pressed (page : Page) : List PageRequest :=
  page.sent.filter fun request => request.start?.isNone

/-- The invariant of the buttons. -/
structure Controlled (ms : List PageMove) (page : Page) : Prop where
  pressed : page.pressed = ms.filterMap PageMove.press?
  one : page.controls.posting + page.controls.settling = if page.controls.busy then 1 else 0
  busy : page.controls.busy = true ↔ lastOf PageMove.posting? ms = some true
  posts : ∀ request, page.controls.Posts request → page.controls.busy = false ∧
    ∃ printer, newestStatus ms = some printer ∧ request.Permitted printer

variable {b : Browser} {page page' : Page} {m : PageMove} {ms : List PageMove}

theorem newestStatus_concat (hm : m.posting? = none) :
    newestStatus (ms ++ [m]) = m.shown?.or (newestStatus ms) := by
  rw [newestStatus, since_concat_of_neg (by rw [hm]; rfl), lastOf_concat, newestStatus]

theorem posting_concat (hm : m.posting? = none) :
    lastOf PageMove.posting? (ms ++ [m]) = lastOf PageMove.posting? ms := by
  rw [lastOf_concat, hm, Option.none_or]

theorem press?_of_posting? (hm : m.posting? = none) : [m].filterMap PageMove.press? = [] := by
  cases m with
  | press => cases hm
  | _ => rfl

namespace Controlled

/-- A move that has nothing to do with the buttons. -/
theorem quiet (h : Controlled ms page) (hm : m.posting? = none) (hshown : m.shown? = none)
    (hcontrols : page'.controls = page.controls) (hpressed : page'.pressed = page.pressed) :
    Controlled (ms ++ [m]) page' := by
  refine ⟨?_, ?_, ?_, fun request => ?_⟩
  · rw [hpressed, h.pressed, List.filterMap_append, press?_of_posting? hm, List.append_nil]
  · rw [hcontrols]
    exact h.one
  · rw [hcontrols, posting_concat hm]
    exact h.busy
  · rw [hcontrols, newestStatus_concat hm, hshown, Option.none_or]
    exact h.posts request

/-- What the buttons that a status enables post is permitted by it. -/
theorem posts_render {c : Controls} {printer : Option ConsolePrinter} {request : PageRequest}
    (h : (c.render printer).Posts request) : c.busy = false ∧ request.Permitted printer := by
  cases printer with
  | none => cases request <;> simp [Controls.render, Controls.Posts] at h
  | some p =>
    cases request <;>
      simp_all [Controls.render, Controls.Posts, PageRequest.Permitted]

theorem render (h : Controlled ms page) (st : ConsoleStatus) :
    Controlled (ms ++ [.status st]) (page.render b st) := by
  unfold Page.render
  cases hk : pageState st with
  | none => exact h.quiet rfl (by rw [PageMove.shown?, hk]; rfl) rfl rfl
  | some k =>
    have hbusy : (page.controls.render st.printer).busy = page.controls.busy := by
      cases st.printer <;> rfl
    have hcounts : (page.controls.render st.printer).posting = page.controls.posting ∧
        (page.controls.render st.printer).settling = page.controls.settling := by
      cases st.printer <;> exact ⟨rfl, rfl⟩
    refine ⟨?_, ?_, ?_, fun request hrequest => ?_⟩
    · rw [List.filterMap_append, press?_of_posting? rfl, List.append_nil]
      exact h.pressed
    · dsimp only
      rw [hbusy, hcounts.1, hcounts.2]
      exact h.one
    · dsimp only
      rw [hbusy, posting_concat rfl]
      exact h.busy
    · obtain ⟨hfree, hpermitted⟩ := posts_render hrequest
      refine ⟨hbusy.trans hfree, st.printer, ?_, hpermitted⟩
      rw [newestStatus_concat rfl, PageMove.shown?, hk]
      rfl

theorem press (h : Controlled ms page) {request : PageRequest}
    (hposts : page.controls.Posts request) : Controlled (ms ++ [.press request]) { page with
      controls := page.controls.post
      sent := page.sent ++ [request] } := by
  obtain ⟨hfree, -⟩ := h.posts request hposts
  have hone := h.one
  rw [hfree, if_neg Bool.false_ne_true] at hone
  refine ⟨?_, ?_, ?_, fun request' hrequest' => ?_⟩
  · rw [Page.pressed, List.filter_append, List.filterMap_append, ← h.pressed]
    cases request with
    | print fileName => exact absurd hposts id
    | _ => rfl
  · change page.controls.posting + 1 + page.controls.settling = 1
    omega
  · rw [lastOf_concat]
    exact iff_of_true rfl rfl
  · cases request' <;> simp [Controls.post, Controls.Posts] at hrequest'

theorem postAnswered (h : Controlled ms page) (hposting : 0 < page.controls.posting) :
    Controlled (ms ++ [.postAnswered]) { page with
      controls := { page.controls with
        posting := page.controls.posting - 1
        settling := page.controls.settling + 1 } } := by
  refine ⟨?_, ?_, ?_, fun request hrequest => ?_⟩
  · rw [List.filterMap_append, press?_of_posting? rfl, List.append_nil]
    exact h.pressed
  · have hone := h.one
    dsimp only
    omega
  · rw [posting_concat rfl]
    exact h.busy
  · have hposts : page.controls.Posts request := by cases request <;> exact hrequest
    rw [newestStatus_concat rfl]
    exact h.posts request hposts

theorem settled (h : Controlled ms page) (hsettling : 0 < page.controls.settling) :
    Controlled (ms ++ [.settled]) { page with
      controls := { page.controls with
        busy := false
        settling := page.controls.settling - 1 } } := by
  have hbusy : page.controls.busy = true := by
    by_contra hfree
    have hone := h.one
    rw [if_neg hfree] at hone
    omega
  have hone := h.one
  rw [if_pos hbusy] at hone
  refine ⟨?_, ?_, ?_, fun request hrequest => ?_⟩
  · have hnone : [PageMove.settled].filterMap PageMove.press? = [] := rfl
    rw [List.filterMap_append, hnone, List.append_nil]
    exact h.pressed
  · change page.controls.posting + (page.controls.settling - 1) = 0
    omega
  · rw [lastOf_concat]
    exact iff_of_false Bool.false_ne_true (by simp [PageMove.posting?])
  · have hposts : page.controls.Posts request := by cases request <;> exact hrequest
    rw [(h.posts request hposts).1] at hbusy
    cases hbusy

theorem step (h : Controlled ms page) (hstep : page.step b m = some page') :
    Controlled (ms ++ [m]) page' := by
  cases m with
  | status st =>
    obtain rfl := Option.some.inj hstep
    exact h.render st
  | fetched j names =>
    obtain ⟨_, -, hstep⟩ := Option.bind_eq_some_iff.mp hstep
    obtain rfl := Option.some.inj hstep
    exact h.quiet rfl rfl rfl rfl
  | tapFile i fileName =>
    obtain ⟨button, -, hstep⟩ := Option.bind_eq_some_iff.mp hstep
    obtain ⟨-, hstep⟩ := Option.ite_none_right_eq_some.mp hstep
    obtain rfl := Option.some.inj hstep
    unfold Page.tap
    cases decodeURIComponent button.dataFile with
    | none => exact h.quiet rfl rfl rfl rfl
    | some text =>
      dsimp only
      split_ifs
      · exact h.quiet rfl rfl rfl rfl
      · refine h.quiet rfl rfl rfl ?_
        rw [Page.pressed, List.filter_append]
        exact List.append_nil _
  | armExpires | redraw =>
    obtain ⟨-, hstep⟩ := Option.ite_none_right_eq_some.mp hstep
    obtain rfl := Option.some.inj hstep
    exact h.quiet rfl rfl rfl rfl
  | startAnswered j answer =>
    obtain ⟨_, -, hstep⟩ := Option.bind_eq_some_iff.mp hstep
    obtain rfl := Option.some.inj hstep
    exact h.quiet rfl rfl rfl rfl
  | press request =>
    obtain ⟨hposts, hstep⟩ := Option.ite_none_right_eq_some.mp hstep
    obtain rfl := Option.some.inj hstep
    exact h.press hposts
  | postAnswered =>
    obtain ⟨hposting, hstep⟩ := Option.ite_none_right_eq_some.mp hstep
    obtain rfl := Option.some.inj hstep
    exact h.postAnswered hposting
  | settled =>
    obtain ⟨hsettling, hstep⟩ := Option.ite_none_right_eq_some.mp hstep
    obtain rfl := Option.some.inj hstep
    exact h.settled hsettling

/-- What holds after every run. -/
theorem run (h : Run (ofPartial (Page.step b)) {} ms page) :
    Along FollowsStatus ms ∧ Controlled ms page := by
  refine h.history (I := fun ms page => Along FollowsStatus ms ∧ Controlled ms page)
    ⟨along_nil, rfl, rfl, ?_, ?_⟩ fun ms page m page' h hstep => ?_
  · exact iff_of_false Bool.false_ne_true (by simp [lastOf])
  · intro request hrequest
    cases request <;> simp [Controls.Posts] at hrequest
  · obtain ⟨halong, hcontrolled⟩ := h
    refine ⟨along_snoc.mpr ⟨halong, ?_⟩, hcontrolled.step hstep⟩
    rintro request rfl
    obtain ⟨hposts, -⟩ := Option.ite_none_right_eq_some.mp hstep
    obtain ⟨hfree, hpermitted⟩ := hcontrolled.posts request hposts
    refine ⟨fun hposting => ?_, hpermitted⟩
    rw [hcontrolled.busy.mpr hposting] at hfree
    cases hfree

end Controlled

/-- **The other buttons follow the status.** In every run of the page, "Pause", "Resume" and the
light are posted as they are tapped, and one at a time: at most one request waits for its answer or
settles. Each is posted only when a status has come since the one before it had settled, and the
newest status permits it. -/
theorem controls_follow_the_status (h : Run (ofPartial (step b)) {} ms page) :
    page.pressed = ms.filterMap PageMove.press? ∧ Along FollowsStatus ms ∧
      page.controls.posting + page.controls.settling ≤ 1 := by
  obtain ⟨halong, hcontrolled⟩ := Controlled.run h
  refine ⟨hcontrolled.pressed, halong, ?_⟩
  rw [hcontrolled.one]
  split_ifs <;> omega

end Page

/-- "Pause" and "Resume". -/
def pausedAndResumed : List PageMove :=
  [.status (statusWith (printerIn "printing")), .press .pause, .postAnswered, .settled,
    .status (statusWith (printerIn "paused")), .press .resume]

/-- The two follow the status. -/
theorem resume_follows_the_status : ∃ page : Page, page.sent = [.pause, .resume] ∧
    Along FollowsStatus pausedAndResumed := by
  have hrun : ∃ page ∈ pausedAndResumed.foldlM (Page.step .plain) {},
      page.sent = [.pause, .resume] := by
    decide +kernel
  obtain ⟨page, hpage, hsent⟩ := hrun
  obtain ⟨-, halong, -⟩ := Page.controls_follow_the_status (run_ofPartial.mpr hpage)
  exact ⟨page, hsent, halong⟩

end FlashforgeObico
