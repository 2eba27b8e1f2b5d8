import FlashforgeObico.Foundations.Base64
import FlashforgeObico.Foundations.PercentEncoding
import FlashforgeObico.Agent.Endpoints

/-!
# The thumbnails of the stored files

The page asks for the thumbnail of a file under a path that has the file's name in it, encoded; the
handler in `__main__.py` decodes the name and asks the printer, which replies with the picture in
base64. `thumbnails_are_served` says that the printer is asked for the very file, and that what it
has for it is served as it is if it is a PNG, and nothing else.
-/

namespace FlashforgeObico

open Py

/-- The first bytes of a PNG. -/
def pngMagic : Bytes := [0x89, 0x50, 0x4E, 0x47, 0x0D, 0x0A, 0x1A, 0x0A]

/-- The picture in `imageData`: none when that is no base64, or no PNG. -/
def pngOf : Json → Option Bytes
  | .str data =>
    if data = "" then none
    else (b64decode data.toList).filter fun raw => pngMagic.isPrefixOf raw
  | _ => none

/-- `gcode_thumbnail`, given what the transport makes of the request. -/
def FlashforgeClient.gcodeThumbnail (client : FlashforgeClient) (reply : TransportReply) :
    Except FlashforgeError (Option Bytes) := do
  let body ← client.post "gcodeThumb" reply
  return pngOf (body.get "imageData")

/-- `Agent.thumbnail`. -/
def thumbnail (client : FlashforgeClient) (reply : TransportReply) : Option Bytes :=
  match client.gcodeThumbnail reply with
  | .ok png => png
  | .error _ => none

/-- `match.group(1)`, of a path that `^/api/files/(.+)/thumbnail$` matches. -/
def thumbnailGroup (path : List Char) : List Char :=
  let stem := if path.getLast? = some '\n' then path.dropLast else path
  (stem.drop "/api/files/".toList.length).take
    (stem.length - "/api/files/".toList.length - "/thumbnail".toList.length)

/-- A picture, a character for each of its bytes. -/
def pngResponse (png : Bytes) : Response where
  status := 200
  contentType := "image/png"
  payload := .text (String.ofList (latin1 png))

/-- The answer when there is none. -/
def noThumbnail : Response := jsonText 404 "\x7b\"error\": \"no thumbnail\"\x7d"

/-- `thumbnail`, the handler, given what the transport makes of the request for each file. -/
def thumbnailHandler (client : FlashforgeClient) (thumbs : List Char → TransportReply)
    (path : List Char) : ConsoleHandler := fun _ => do
  let name := unquote (thumbnailGroup path)
  callPrinter (.gcodeThumb (String.ofList name))
  match thumbnail client (thumbs name) with
  | none => return noThumbnail
  | some png => return pngResponse png

/-- The address that the page gives to the picture of a file. -/
def thumbnailPath (name : List Char) : List Char :=
  "/api/files/".toList ++ encodeURIComponent name ++ "/thumbnail".toList

/-! ## The path -/

variable {name : List Char}

theorem length_files : "/api/files/".toList.length = 11 := rfl

theorem length_thumbnail : "/thumbnail".toList.length = 10 := rfl

theorem thumbnailPath_eq (name : List Char) : thumbnailPath name =
    "/api/files/".toList ++ encodeURIComponent name ++ "/thumbnail".toList := by
  unfold thumbnailPath
  exact Eq.refl _

theorem length_thumbnailPath (name : List Char) :
    (thumbnailPath name).length = 11 + (encodeURIComponent name).length + 10 := by
  rw [thumbnailPath_eq, List.length_append, List.length_append, length_files, length_thumbnail]

theorem encodeURIComponent_ne_nil (h : name ≠ []) : encodeURIComponent name ≠ [] := by
  intro hnil
  have hback := unquote_encodeURIComponent name
  rw [hnil] at hback
  exact h hback.symm

/-- A character that `encodeURIComponent` does not write. -/
theorem not_mem_encodeURIComponent {c : Char} (hpercent : c ≠ '%') (hc : isUnescaped c = false) :
    c ∉ encodeURIComponent name := by
  intro hmem
  rcases mem_encodeURIComponent hmem with rfl | hmem
  · exact hpercent rfl
  · rw [hc] at hmem
    cases hmem

theorem not_mem_thumbnailPath {c : Char} (hpercent : c ≠ '%') (hc : isUnescaped c = false)
    (hfiles : c ∉ "/api/files/".toList) (hthumbnail : c ∉ "/thumbnail".toList) :
    c ∉ thumbnailPath name := by
  rw [thumbnailPath_eq, List.mem_append, List.mem_append, not_or, not_or]
  exact ⟨⟨hfiles, not_mem_encodeURIComponent hpercent hc⟩, hthumbnail⟩

theorem newline_not_mem_thumbnailPath : '\n' ∉ thumbnailPath name :=
  not_mem_thumbnailPath (by decide) (by decide) (by decide) (by decide)

theorem stem_thumbnailPath : (if (thumbnailPath name).getLast? = some '\n' then
    (thumbnailPath name).dropLast else thumbnailPath name) = thumbnailPath name :=
  if_neg fun h => newline_not_mem_thumbnailPath (List.mem_of_getLast? h)

theorem thumbnailRoute_thumbnailPath (h : name ≠ []) :
    thumbnailRoute (thumbnailPath name) = true := by
  have hpos := List.length_pos_of_ne_nil (encodeURIComponent_ne_nil h)
  have hprefix : "/api/files/".toList <+: thumbnailPath name := by
    rw [thumbnailPath_eq, List.append_assoc]
    exact List.prefix_append _ _
  have hsuffix : "/thumbnail".toList <:+ thumbnailPath name := List.suffix_append _ _
  have hlength : "/api/files/".length + "/thumbnail".length < (thumbnailPath name).length := by
    have hfiles := length_files
    have hthumbnail := length_thumbnail
    rw [String.length_toList] at hfiles hthumbnail
    rw [length_thumbnailPath, hfiles, hthumbnail]
    omega
  rw [thumbnailRoute, stem_thumbnailPath]
  exact decide_eq_true ⟨newline_not_mem_thumbnailPath, List.isPrefixOf_iff_prefix.mpr hprefix,
    List.isSuffixOf_iff_suffix.mpr hsuffix, hlength⟩

/-- The handler gets the name of the file. -/
theorem unquote_thumbnailGroup (name : List Char) :
    unquote (thumbnailGroup (thumbnailPath name)) = name := by
  have hlength : (thumbnailPath name).length - "/api/files/".toList.length -
      "/thumbnail".toList.length = (encodeURIComponent name).length := by
    rw [length_thumbnailPath, length_files, length_thumbnail]
    omega
  have hgroup : thumbnailGroup (thumbnailPath name) = encodeURIComponent name := by
    rw [thumbnailGroup, stem_thumbnailPath, hlength, thumbnailPath_eq, List.append_assoc,
      List.drop_left' rfl, List.take_left' rfl]
  rw [hgroup, unquote_encodeURIComponent]

/-! ## The request -/

section Served

variable {loads : Bytes → Except LoadsError Json} {client : FlashforgeClient}
  {replies : PrinterReplies} {pages : Pages} {thumbs : List Char → TransportReply} {capacity : ℕ}
  {frames : List (Option Bytes)} {r : HttpRequest} {c : ConsoleServer}

/-- The routes, with the handler of the thumbnails among them. -/
def withThumbnails (client : FlashforgeClient) (thumbs : List Char → TransportReply)
    (pages : Pages) : Pages :=
  { pages with thumbnail := thumbnailHandler client thumbs }

theorem find_thumbnailPath (h : name ≠ []) :
    (consoleRoutes loads client replies pages).find?
      (fun route => route.method = .get ∧ route.pattern (thumbnailPath name)) =
        some ⟨.get, thumbnailRoute, pages.thumbnail⟩ := by
  obtain ⟨rest, hpath⟩ : ∃ rest, thumbnailPath name = "/api/files/".toList ++ rest :=
    ⟨_, (thumbnailPath_eq name).trans (List.append_assoc _ _ _)⟩
  have hroute := thumbnailRoute_thumbnailPath h
  have hskip (route : Route ConsoleServer) (routes : List (Route ConsoleServer))
      (hnot : route.method = .get → route.pattern (thumbnailPath name) = false) :
      (route :: routes).find? (fun route => route.method = .get ∧
        route.pattern (thumbnailPath name)) = routes.find? (fun route => route.method = .get ∧
        route.pattern (thumbnailPath name)) := by
    refine List.find?_cons_of_neg ?_
    simpa using hnot
  have hhome : endsAt "/".toList (thumbnailPath name) = false := by
    rw [hpath]
    rfl
  have hstatus : endsAt "/api/status".toList (thumbnailPath name) = false := by
    rw [hpath]
    rfl
  have hfiles : endsAt "/api/files".toList (thumbnailPath name) = false := by
    rw [hpath]
    rfl
  rw [consoleRoutes, hskip _ _ fun _ => hhome, hskip _ _ fun _ => hstatus, hskip _ _ (by simp),
    hskip _ _ (by simp), hskip _ _ fun _ => hfiles]
  exact List.find?_cons_of_pos (decide_eq_true ⟨rfl, hroute⟩)

/-- The response to a request for the thumbnail of a file. -/
def thumbnailResponse (client : FlashforgeClient) (reply : TransportReply) : Response :=
  match thumbnail client reply with
  | none => noThumbnail
  | some png => pngResponse png

/-- The printer was asked for the picture of a file. -/
def ConsoleServer.asked (c : ConsoleServer) (name : List Char) : ConsoleServer :=
  { c with calls := c.calls ++ [.gcodeThumb (String.ofList name)] }

theorem thumbnailHandler_thumbnailPath (body : Bytes) :
    thumbnailHandler client thumbs (thumbnailPath name) body c =
      (.ok (thumbnailResponse client (thumbs name)), c.asked name) := by
  unfold thumbnailHandler thumbnailResponse
  rw [unquote_thumbnailGroup]
  cases thumbnail client (thumbs name) <;> rfl

theorem served_thumbnail (hmethod : r.method = .get) (htarget : r.target = thumbnailPath name)
    (hname : name ≠ []) {body : Bytes} (hbody : r.body capacity = .ok body) :
    served loads client replies (withThumbnails client thumbs pages) capacity frames r c =
      { state := c.asked name
        replies := [.response (thumbnailResponse client (thumbs name))] } := by
  have hpath : r.path = thumbnailPath name := by
    have hquery : '?' ∉ thumbnailPath name :=
      not_mem_thumbnailPath (by decide) (by decide) (by decide) (by decide)
    rw [HttpRequest.path, htarget, List.takeWhile_eq_self_iff]
    intro d hd
    exact decide_eq_true fun hd' => hquery (hd' ▸ hd)
  obtain ⟨rest, hrest⟩ : ∃ rest, thumbnailPath name = "/api/files/".toList ++ rest :=
    ⟨_, (thumbnailPath_eq name).trans (List.append_assoc _ _ _)⟩
  have hhealth : r.path ≠ "/healthz".toList := by
    rw [hpath, hrest]
    simp
  have hcamera : cameraRoute r.path = none := by
    rw [hpath, hrest]
    rfl
  have hget (routes : List (Route ConsoleServer)) :
      serve capacity routes frames r c = dispatchTo capacity routes r { state := c } := by
    rw [serve, hmethod]
    simp only [doGet, if_neg hhealth, hcamera]
  rw [served, hget, dispatchTo, hbody, Procedure.ofExcept_ok_bind]
  simp only [hmethod, hpath, find_thumbnailPath hname]
  rw [answer]
  simp only [withThumbnails, thumbnailHandler_thumbnailPath]
  rfl

/-- The printer sends a text for the picture. -/
def Sends (reply : TransportReply) (data : String) : Prop :=
  ∃ body, reply = .ok (.obj body) ∧ FlashforgeClient.resultCode body = some 0 ∧
    Dict.get body "imageData" = .str data

/-- What the printer sends is what a request that succeeds finds in its reply. -/
theorem sends_iff {reply : TransportReply} {data : String} (client : FlashforgeClient) :
    Sends reply data ↔ ∃ body, client.post "gcodeThumb" reply = .ok body ∧
      Dict.get body "imageData" = .str data := by
  simp only [Sends, FlashforgeClient.post_eq_ok_iff, and_assoc]

theorem pngOf_eq_some_iff {v : Json} {png : Bytes} : pngOf v = some png ↔
    pngMagic <+: png ∧ ∃ data, v = .str data ∧ b64decode data.toList = some png := by
  cases v with
  | str data =>
    rw [pngOf]
    split_ifs with hdata
    · have hnil : b64decode data.toList = some [] := by
        rw [hdata]
        rfl
      refine iff_of_false (by simp) ?_
      rintro ⟨hmagic, data', hdata', hpng⟩
      obtain rfl := Json.str.inj hdata'
      obtain rfl := Option.some.inj (hnil.symm.trans hpng)
      exact absurd hmagic (by decide)
    · rw [Option.filter_eq_some_iff, List.isPrefixOf_iff_prefix, and_comm]
      simp only [Json.str.injEq, exists_eq_left']
  | _ => simp [pngOf]

theorem thumbnail_eq_some_iff {reply : TransportReply} {png : Bytes} :
    thumbnail client reply = some png ↔
      pngMagic <+: png ∧ ∃ data, Sends reply data ∧ b64decode data.toList = some png := by
  simp only [sends_iff client]
  rw [thumbnail, FlashforgeClient.gcodeThumbnail]
  rcases client.post "gcodeThumb" reply with e | body
  · refine iff_of_false (by simp [bind, Except.bind]) ?_
    rintro ⟨-, data, ⟨body, hbody, -⟩, -⟩
    cases hbody
  · refine pngOf_eq_some_iff.trans ?_
    simp only [Except.ok.injEq, exists_eq_left']

/-- **Thumbnails.** The page's request for the thumbnail of a file, whatever its name, gets one
response and asks the printer once, for that very name. The response is the picture that the printer
sends for it, byte for byte, and whatever else is sent, nothing is served as a picture that is no
PNG. -/
theorem thumbnails_are_served (loads : Bytes → Except LoadsError Json) (client : FlashforgeClient)
    (replies : PrinterReplies) (pages : Pages) (thumbs : List Char → TransportReply)
    (frames : List (Option Bytes)) (c : ConsoleServer) (hmethod : r.method = .get)
    (htarget : r.target = thumbnailPath name) (hname : name ≠ []) {body : Bytes}
    (hbody : r.body capacity = .ok body) :
    ∃ response,
      served loads client replies (withThumbnails client thumbs pages) capacity frames r c =
        { state := c.asked name, replies := [.response response] } ∧
      (∀ png, pngMagic <+: png → Sends (thumbs name) (String.ofList (b64encode png)) →
        response = pngResponse png) ∧
      (response = noThumbnail ∨ ∃ png data, pngMagic <+: png ∧ Sends (thumbs name) data ∧
        b64decode data.toList = some png ∧ response = pngResponse png) := by
  refine ⟨_, served_thumbnail hmethod htarget hname hbody, fun png hmagic hsends => ?_, ?_⟩
  · have hdata : b64decode (String.ofList (b64encode png)).toList = some png := by
      rw [String.toList_ofList, b64decode_b64encode]
    have hsome : thumbnail client (thumbs name) = some png :=
      thumbnail_eq_some_iff.mpr ⟨hmagic, _, hsends, hdata⟩
    rw [thumbnailResponse, hsome]
  · rw [thumbnailResponse]
    cases hpng : thumbnail client (thumbs name) with
    | none => exact .inl rfl
    | some png =>
      obtain ⟨hmagic, data, hsends, hdata⟩ := thumbnail_eq_some_iff.mp hpng
      exact .inr ⟨png, data, hmagic, hsends, hdata, rfl⟩

end Served

/-- A name with a slash, a percent sign and a letter of two bytes. -/
def oddName : List Char := "é/50%.gcode".toList

/-- A printer that sends a picture for that name. -/
def oddThumbs (name : List Char) : TransportReply :=
  if name = oddName then
    .ok (.obj [("code", .int 0), ("imageData", .str (String.ofList (b64encode (pngMagic ++ [1]))))])
  else .ok (.obj [("code", .int 1)])

/-- The page's request for its thumbnail. -/
def getOddThumbnail : HttpRequest where
  method := .get
  target := thumbnailPath oddName
  contentLength := none
  sent := []
  closes := false

theorem odd_thumbnail_is_served :
    served listLoads ⟨"1234"⟩ emptyReplies (withThumbnails ⟨"1234"⟩ oddThumbs emptyPages) 65536 []
      getOddThumbnail ⟨idleAgent, []⟩ =
        { state := ⟨idleAgent, [.gcodeThumb (String.ofList oddName)]⟩
          replies := [.response (pngResponse (pngMagic ++ [1]))] } := by
  have hbody : getOddThumbnail.body 65536 = .ok [] := rfl
  obtain ⟨response, hserved, hpng, -⟩ := thumbnails_are_served listLoads ⟨"1234"⟩ emptyReplies
    emptyPages oddThumbs [] ⟨idleAgent, []⟩ (r := getOddThumbnail) rfl rfl (by decide) hbody
  have hsends : Sends (oddThumbs oddName) (String.ofList (b64encode (pngMagic ++ [1]))) := by
    rw [oddThumbs, if_pos rfl]
    exact ⟨_, rfl, rfl, rfl⟩
  rw [hserved, hpng _ (List.prefix_append _ _) hsends]
  rfl

end FlashforgeObico
