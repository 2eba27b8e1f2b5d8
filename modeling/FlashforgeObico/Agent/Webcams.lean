import FlashforgeObico.Agent.Configuration
import FlashforgeObico.Agent.Frame
import FlashforgeObico.Camera.Reserver
import FlashforgeObico.Foundations.Address

/-!
# The addresses that Obico is told

`_webcams` builds an address for every camera, `_discover_camera` adds a camera to the agent's list
and to the re-server's, and the route of the re-server takes an index. `advertised_step` is the step
that keeps the three together; `advertised_iff` says in which configurations every entry that Obico
is sent, in any run, has the addresses of the camera with its index and its name.
-/

namespace FlashforgeObico

open Py

/-! ## The address of a camera -/

/-- The path of a camera, as `camera_public_url` writes it. -/
def cameraPath (i : ℕ) (kind : CameraKind) : List Char :=
  "/cameras/".toList ++ ((toString i).toList ++ '/' :: kind.name.toList)

/-- What follows the scheme of an address. -/
def afterScheme (url : String) : List Char := url.toList.drop "http://".toList.length

theorem isDigit_of_mem_toString {i : ℕ} {c : Char} (hc : c ∈ (toString i).toList) : c.isDigit := by
  rw [toList_toString_nat] at hc
  exact isDigit_of_mem_toDigits hc

/-- The path of a camera is matched with its index. -/
theorem cameraRoute_cameraPath (i : ℕ) (kind : CameraKind) :
    cameraRoute (cameraPath i kind) = some ((toString i).toList, kind) := by
  have hstarts : "/cameras/".toList.isPrefixOf (cameraPath i kind) = true :=
    List.isPrefixOf_iff_prefix.mpr (List.prefix_append _ _)
  have hrest : (cameraPath i kind).drop "/cameras/".toList.length =
      (toString i).toList ++ '/' :: kind.name.toList := List.drop_left
  have hdigits : ((toString i).toList ++ '/' :: kind.name.toList).takeWhile
      (fun c => (digit? c).isSome) = (toString i).toList := by
    rw [List.takeWhile_append_of_pos fun c hc =>
      isSome_digit?_of_isDigit (isDigit_of_mem_toString hc)]
    have hslash : ('/' :: kind.name.toList).takeWhile (fun c => (digit? c).isSome) = [] := rfl
    rw [hslash, List.append_nil]
  have hne : (toString i).toList ≠ [] := by
    rw [toList_toString_nat]
    exact Nat.toDigits_ne_nil
  unfold cameraRoute
  rw [hstarts]
  dsimp only
  rw [hrest, hdigits, if_neg hne, List.drop_left]
  cases kind <;> rfl

/-- A text that is matched at its end is followed by a newline at most. -/
theorem mem_of_endsAt {tail rest : List Char} (h : endsAt tail rest = true) {c : Char}
    (hc : c ∈ rest) : c ∈ tail ++ ['\n'] := by
  rcases of_decide_eq_true h with rfl | rfl
  · exact List.mem_append_left _ hc
  · exact hc

/-- A path that is matched has no colon. -/
theorem colon_not_mem_of_cameraRoute {path digits : List Char} {kind : CameraKind}
    (h : cameraRoute path = some (digits, kind)) : ':' ∉ path := by
  unfold cameraRoute at h
  split at h
  · cases h
  next hstarts =>
    obtain ⟨rest, rfl⟩ := List.isPrefixOf_iff_prefix.mp hstarts
    dsimp only at h
    rw [List.drop_left] at h
    intro hc
    have hrest : ':' ∈ rest := (List.mem_append.mp hc).resolve_left (by decide)
    set ds := rest.takeWhile fun c => (digit? c).isSome
    have htail : ':' ∈ rest.drop ds.length := by
      have hsplit : ds ++ rest.drop ds.length = rest :=
        (List.prefix_append_drop (List.takeWhile_prefix _)).symm
      rw [← hsplit] at hrest
      refine (List.mem_append.mp hrest).resolve_left fun hmem => ?_
      exact absurd (List.mem_takeWhile_imp hmem) (by decide)
    split_ifs at h with hdigits hstream hsnapshot
    · exact absurd (mem_of_endsAt hstream htail) (by decide)
    · exact absurd (mem_of_endsAt hsnapshot htail) (by decide)

/-- The characters of a number do not tell the parts of an address from each other. -/
theorem plain_of_mem_toString {port : ℤ} {c : Char} (hc : c ∈ (toString port).toList) :
    Url.isDelimiter c = false ∧ Url.isSeparator c = false := by
  refine forall_mem_toString (p := fun c => Url.isDelimiter c = false ∧ Url.isSeparator c = false)
    (by decide) (fun c hdigit => ?_) port c hc
  refine ⟨decide_eq_false ?_, decide_eq_false ?_⟩
  · rintro (rfl | rfl | rfl) <;> exact absurd hdigit (by decide)
  · rintro (rfl | rfl | rfl | rfl) <;> exact absurd hdigit (by decide)

/-- The characters of the path of a camera do not end a path. -/
theorem inPath_of_mem_cameraPath {i : ℕ} {kind : CameraKind} {c : Char}
    (hc : c ∈ cameraPath i kind) : Url.inPath c := by
  refine decide_eq_true ?_
  rcases List.mem_append.mp hc with hc | hc
  · constructor <;> rintro rfl <;> exact absurd hc (by decide)
  rcases List.mem_append.mp hc with hc | hc
  · have hdigit := isDigit_of_mem_toString hc
    constructor <;> rintro rfl <;> exact absurd hdigit (by decide)
  · constructor <;> rintro rfl <;> cases kind <;> exact absurd hc (by decide)

namespace Config

variable {config : Config} {i : ℕ} {kind : CameraKind}

/-- The authority that `camera_public_url` writes. -/
def authority (config : Config) : List Char :=
  config.publicHost.toList ++ ':' :: (toString config.reservePort).toList

theorem afterScheme_cameraPublicUrl (config : Config) (i : ℕ) (kind : CameraKind) :
    afterScheme (config.cameraPublicUrl i kind.name) = config.authority ++ cameraPath i kind := by
  have hurl : (config.cameraPublicUrl i kind.name).toList =
      "http://".toList ++ (config.authority ++ cameraPath i kind) := by
    have hcolon : ":".toList = [':'] := rfl
    have hslash : "/".toList = ['/'] := rfl
    unfold cameraPublicUrl authority cameraPath
    repeat rw [String.toList_append]
    simp only [hcolon, hslash, List.append_assoc, List.cons_append, List.nil_append]
  rw [afterScheme, hurl, List.drop_left]

theorem plain_authority (hplain : ∀ c ∈ config.publicHost.toList, Url.isDelimiter c = false) :
    ∀ c ∈ config.authority, Url.isDelimiter c = false := by
  intro c hc
  rcases List.mem_append.mp hc with hc | hc
  · exact hplain c hc
  · rcases List.mem_cons.mp hc with rfl | hc
    · rfl
    · exact (plain_of_mem_toString hc).1

/-- The port of an address is that of the configuration when the host ends in front of it. -/
theorem port_authority_iff (hplain : ∀ c ∈ config.publicHost.toList, Url.isDelimiter c = false) :
    Url.port (Url.authority (afterScheme (config.cameraPublicUrl i kind.name))) =
        (toString config.reservePort).toList ↔ Url.IsHost config.publicHost.toList := by
  rw [afterScheme_cameraPublicUrl]
  have hauthority : Url.authority (config.authority ++ cameraPath i kind) = config.authority :=
    Url.authority_append (plain_authority hplain)
  rw [hauthority, authority, Url.port_append_iff (fun c hc => (plain_of_mem_toString hc).2)
    (toList_toString_ne_nil _)]
  exact ⟨fun h => ⟨hplain, h.1, h.2⟩, fun h => ⟨h.closed, h.colon⟩⟩

theorem path_cameraPublicUrl
    (hplain : ∀ c ∈ config.publicHost.toList, Url.isDelimiter c = false) :
    Url.path (afterScheme (config.cameraPublicUrl i kind.name)) = cameraPath i kind := by
  rw [afterScheme_cameraPublicUrl]
  exact Url.path_append (plain_authority hplain) fun c hc =>
    inPath_of_mem_cameraPath (List.mem_cons_of_mem _ hc)

/-- A host that ends the authority spoils the path of one of the addresses. -/
theorem plain_of_routes
    (hstream : cameraRoute (Url.path (afterScheme
      (config.cameraPublicUrl i (CameraKind.name .stream)))) = some ((toString i).toList, .stream))
    (hsnapshot : cameraRoute (Url.path (afterScheme
      (config.cameraPublicUrl i (CameraKind.name .snapshot)))) =
        some ((toString i).toList, .snapshot)) :
    ∀ c ∈ config.publicHost.toList, Url.isDelimiter c = false := by
  intro c hc
  by_contra hdelimiter
  rw [Bool.not_eq_false] at hdelimiter
  rw [afterScheme_cameraPublicUrl, authority, List.append_assoc] at hstream hsnapshot
  rcases Url.path_append_of_delimiter hc hdelimiter with hcut | hleft
  · rw [hcut _ _, hsnapshot] at hstream
    cases hstream
  · refine colon_not_mem_of_cameraRoute hstream ((hleft _).subset ?_)
    rw [List.cons_append, List.takeWhile_cons_of_pos (by decide)]
    exact List.mem_cons_self

end Config

namespace Agent

/-! ## What Obico was told -/

/-- An address whose port is that of the re-server, and whose path asks it for a camera. -/
structure PointsTo (a : Agent) (url : String) (i : ℕ) (kind : CameraKind) : Prop where
  runs : a.reserver.isSome
  port : Url.port (Url.authority (afterScheme url)) = (toString a.config.reservePort).toList
  route : cameraRoute (Url.path (afterScheme url)) = some ((toString i).toList, kind)

/-- An entry at index `i` is served: its addresses are those of the camera with that index, and the
camera that the re-server holds there has its name and is the agent's. -/
structure Serves (a : Agent) (i : ℕ) (entry : Webcam) : Prop where
  stream : a.PointsTo entry.streamUrl i .stream
  snapshot : a.PointsTo entry.snapshotUrl i .snapshot
  camera : ∀ sources, a.reserver = some sources → ∀ camera, sources[i]? = some camera →
    camera.name = entry.name ∧ a.cameras[i]? = some camera

/-- Obico was sent these settings. -/
def Advertises (a : Agent) (st : Settings) : Prop :=
  ∃ m tracker, .sent m tracker ∈ a.trace ∧ m.settings = some st

/-- Every entry of every list that Obico was sent is served. -/
def AdvertisesServed (a : Agent) : Prop :=
  ∀ st, a.Advertises st → ∀ i entry, st.webcams[i]? = some entry → a.Serves i entry

/-! ## What stays as it is -/

/-- What no step changes: the configuration, the entries, whether there is a re-server, that it
holds the agent's cameras, and that Obico was told the entries. -/
def advertised (a : Agent) : Config × List Webcam × Bool × Prop × Prop :=
  (a.config, a.webcams, a.reserver.isSome, a.reserver.getD a.cameras = a.cameras,
    ∀ st, a.Advertises st → st = buildSettings a.webcams)

theorem advertises_log_iff {a : Agent} {es : List Effect} {st : Settings} :
    (a.log es).Advertises st ↔ a.Advertises st ∨
      ∃ m tracker, .sent m tracker ∈ es ∧ m.settings = some st := by
  unfold Advertises
  simp only [log_trace, List.mem_append, or_and_right, exists_or]

/-- Effects that tell Obico no other entries. -/
theorem advertised_log {es : List Effect} {a : Agent} (h : ∀ m tracker, .sent m tracker ∈ es →
    ∀ st ∈ m.settings, st = buildSettings a.webcams) :
    (a.log es).advertised = a.advertised := by
  have htold : (∀ st, (a.log es).Advertises st → st = buildSettings a.webcams) ↔
      ∀ st, a.Advertises st → st = buildSettings a.webcams := by
    refine ⟨fun hall st hst => hall st (advertises_log_iff.mpr (.inl hst)), fun hall st hst => ?_⟩
    rcases advertises_log_iff.mp hst with hst | ⟨m, tracker, hm, hst⟩
    · exact hall st hst
    · exact h m tracker hm st hst
  exact congrArg (fun told => (a.config, a.webcams, a.reserver.isSome,
    a.reserver.getD a.cameras = a.cameras, told)) (propext htold)

theorem advertised_log_of_not_sent {es : List Effect} (h : ∀ m tracker, .sent m tracker ∉ es)
    (a : Agent) : (a.log es).advertised = a.advertised :=
  advertised_log fun m tracker hm => absurd hm (h m tracker)

theorem aloof_advertised : Aloof advertised where
  log {e} he := by
    refine advertised_log_of_not_sent fun m tracker hmem => ?_
    obtain rfl := List.mem_singleton.mp hmem
    exact he
  snapshot _ _ := rfl
  failures _ _ := rfl
  pending _ _ := rfl

/-- A status message tells Obico the entries, or none. -/
theorem sendStatus_keeps_advertised (event : Option Event) (now : Time) :
    (sendStatus event now).Keeps advertised := by
  intro a
  rw [sendStatus, Procedure.gets_bind, Procedure.gets_bind]
  rcases buildStatus (id a).snapshot (id a).tracker (id a).stateText now with e | status
  · rfl
  · rw [Procedure.ofExcept_ok_bind, emit_bind]
    change (a.log _).advertised = a.advertised
    refine advertised_log fun m tracker hm st hst => ?_
    obtain ⟨rfl, -⟩ := Effect.sent.inj (List.mem_singleton.mp hm)
    change a.settings = some st at hst
    rw [settings] at hst
    split_ifs at hst
    exact (Option.some.inj hst).symm

theorem publish_keeps_advertised (now : Time) : (publish now).Keeps advertised := by
  have hevents : ∀ events, (sendEvents now events).Keeps advertised := by
    intro events
    induction events with
    | nil => exact .pure _
    | cons event events ih => exact .bind (sendStatus_keeps_advertised _ now) fun _ => ih
  refine .bind (.gets id) fun a => .bind (.modify fun _ => rfl) fun _ =>
    .bind (.modify (advertised_log_of_not_sent (by simp))) fun _ => .bind (.modify fun _ => rfl)
      fun _ => ?_
  split_ifs
  · exact .bind (sendStatus_keeps_advertised _ now) fun _ => hevents _
  · exact .pure _

/-- A camera that is added under the name that was advertised for it. -/
theorem advertised_add {a : Agent} (hnone : a.cameras = []) {camera : Camera}
    (hname : camera.name = "Printer") :
    ({ a with cameras := [camera], reserver := a.reserver.map (· ++ [camera]) } :
      Agent).advertised = a.advertised := by
  set b : Agent := { a with cameras := [camera], reserver := a.reserver.map (· ++ [camera]) }
  have hwebcams : b.webcams = a.webcams := by simp [webcams, b, hname, hnone]
  have hsources : (b.reserver.getD b.cameras = b.cameras) =
      (a.reserver.getD a.cameras = a.cameras) := by
    simp only [b]
    rw [hnone]
    rcases a.reserver with _ | sources <;> simp
  have hruns : b.reserver.isSome = a.reserver.isSome := Option.isSome_map
  rw [advertised, hwebcams, hsources, hruns]
  rfl

theorem advertised_discovered (a : Agent) : a.discovered.advertised = a.advertised := by
  unfold discovered
  split
  · rfl
  dsimp only
  split_ifs with h
  · rfl
  · exact advertised_add (not_not.mp (not_or.mp h).1) rfl

theorem pollOnce_keeps_advertised (reply : DetailReply) (now : Time) (answers : Answers)
    (later : Time) : (pollOnce reply now answers later).Keeps advertised := by
  have hreport : (reportFault answers.accepts).Keeps advertised := by
    refine .bind (.gets id) fun a => ?_
    split
    · exact .pure _
    · split_ifs
      · exact .pure _
      · exact .bind (.modify fun _ => rfl) fun _ =>
          .modify (advertised_log_of_not_sent (by simp))
  refine .bind (aloof_advertised.readPrinter reply) fun goes => ?_
  split_ifs
  · exact .bind (.modify advertised_discovered) fun _ => .bind (publish_keeps_advertised now)
      fun _ => .bind hreport fun _ =>
        aloof_advertised.servicePendingCommand publish_keeps_advertised answers later
  · exact .pure _

theorem advertised_step (a : Agent) (l : Label) : (a.step l).advertised = a.advertised := by
  have hother : (∀ reply now answers later, l ≠ .poll reply now answers later) →
      (a.step l).advertised = a.advertised := fun hl =>
    aloof_advertised.step_of_not_poll publish_keeps_advertised (fun _ _ => rfl) (fun _ _ => rfl)
      hl a
  cases l with
  | poll reply now answers later =>
    unfold step
    split_ifs
    · rfl
    · exact pollOnce_keeps_advertised reply now answers later a
  | message m => exact hother (by simp)
  | request cmd => exact hother (by simp)
  | execute answers now => exact hother (by simp)

theorem advertised_run (a : Agent) (ls : List Label) : (a.run ls).advertised = a.advertised :=
  run_invariant (I := fun b => b.advertised = a.advertised) rfl
    (fun b l h => (advertised_step b l).trans h) ls

/-! ## What Obico was told is served -/

variable {config : LoadedConfig}

/-- In every run the configuration stays, the re-server runs when its port is positive and holds the
agent's cameras, and Obico is told the entries of the agent. -/
theorem run_start (ls : List Label) {a : Agent} (ha : config.start.run ls = a) :
    a.config = config.toConfig ∧ (a.reserver.isSome ↔ 0 < config.reservePort) ∧
      (∀ sources, a.reserver = some sources → sources = a.cameras) ∧
      ∀ st, a.Advertises st → st = buildSettings a.webcams := by
  have hrun : a.advertised = config.start.advertised := ha ▸ advertised_run config.start ls
  have hruns : config.start.reserver.isSome ↔ 0 < config.reservePort := by
    unfold LoadedConfig.start
    split_ifs with hport <;> simp [initial, hport]
  have hsources : config.start.reserver.getD config.start.cameras = config.start.cameras := by
    unfold LoadedConfig.start
    split_ifs <;> rfl
  have htold : ∀ st, config.start.Advertises st → st = buildSettings config.start.webcams := by
    rintro st ⟨m, tracker, hm, -⟩
    cases hm
  obtain ⟨hconfig, h⟩ := Prod.mk.inj hrun
  obtain ⟨-, h⟩ := Prod.mk.inj h
  obtain ⟨hsome, h⟩ := Prod.mk.inj h
  obtain ⟨hheld, hadvertises⟩ := Prod.mk.inj h
  refine ⟨hconfig, by rw [hsome, hruns], fun sources hreserver => ?_, hadvertises.mpr htold⟩
  have hsame : a.reserver.getD a.cameras = a.cameras := hheld.mpr hsources
  rwa [hreserver] at hsame

/-- The entry at an index has the addresses of the camera with that index, and its name. -/
theorem getElem?_webcams {a : Agent} {i : ℕ} {entry : Webcam} (h : a.webcams[i]? = some entry) :
    entry.streamUrl = a.config.cameraPublicUrl i (CameraKind.name .stream) ∧
      entry.snapshotUrl = a.config.cameraPublicUrl i (CameraKind.name .snapshot) ∧
      ∀ camera, a.cameras[i]? = some camera → camera.name = entry.name := by
  unfold webcams at h
  rw [List.getElem?_map, List.getElem?_zipIdx, Option.map_map] at h
  obtain ⟨name, hname, rfl⟩ := Option.map_eq_some_iff.mp h
  refine ⟨by simp [CameraKind.name], by simp [CameraKind.name], fun camera hcamera => ?_⟩
  have hne : a.cameras ≠ [] := List.ne_nil_of_mem (List.mem_of_getElem? hcamera)
  rw [if_neg hne, List.getElem?_map, hcamera] at hname
  exact Option.some.inj hname

/-- There is an entry for the first camera, also when there is no camera yet. -/
theorem exists_first_webcam (a : Agent) : ∃ entry, a.webcams[0]? = some entry := by
  unfold webcams
  rcases a.cameras with _ | ⟨camera, cameras⟩ <;> exact ⟨_, rfl⟩

/-- An entry of an agent whose re-server runs on a host, and holds the agent's cameras. -/
theorem serves_of_isHost {a : Agent} (hruns : a.reserver.isSome)
    (hhost : Url.IsHost a.config.publicHost.toList)
    (hsources : ∀ sources, a.reserver = some sources → sources = a.cameras) {i : ℕ}
    {entry : Webcam} (h : a.webcams[i]? = some entry) : a.Serves i entry := by
  obtain ⟨hstream, hsnapshot, hname⟩ := getElem?_webcams h
  have hpoints : ∀ kind : CameraKind,
      a.PointsTo (a.config.cameraPublicUrl i kind.name) i kind := by
    intro kind
    refine ⟨hruns, (Config.port_authority_iff hhost.plain).mpr hhost, ?_⟩
    rw [Config.path_cameraPublicUrl hhost.plain]
    exact cameraRoute_cameraPath i kind
  refine ⟨hstream ▸ hpoints .stream, hsnapshot ▸ hpoints .snapshot, ?_⟩
  intro sources hreserver camera hcamera
  rw [hsources sources hreserver] at hcamera
  exact ⟨hname camera hcamera, hcamera⟩

theorem isHost_of_serves {a : Agent} {i : ℕ} {entry : Webcam} (h : a.webcams[i]? = some entry)
    (hserves : a.Serves i entry) : Url.IsHost a.config.publicHost.toList := by
  obtain ⟨hstream, hsnapshot, -⟩ := getElem?_webcams h
  have hs := hserves.stream
  have hs' := hserves.snapshot
  rw [hstream] at hs
  rw [hsnapshot] at hs'
  exact (Config.port_authority_iff (Config.plain_of_routes hs.route hs'.route)).mp hs.port

/-- The first poll that reads the printer. -/
def firstPoll (now : Time) : Label := .quietPoll (.ok (detailOf "ready" "")) now

/-- Obico is told the entries by the first poll that reads the printer. -/
theorem advertises_firstPoll (config : LoadedConfig) (now : Time) :
    (config.start.run [firstPoll now]).Advertises (buildSettings config.start.webcams) := by
  obtain ⟨config, ffHost, ffSerial, ffCheckCode, obicoUrl, obicoAuthToken, cameras⟩ := config
  cases cameras with
  | nil => exact ⟨_, _, List.mem_of_getElem? (i := 2) rfl, rfl⟩
  | cons camera cameras => exact ⟨_, _, List.mem_of_getElem? (i := 2) rfl, rfl⟩

/-- **Every address that Obico is told is served** in every run exactly when the port of the
re-server is positive and its public host is a host. Nothing checks that it is one, and with a port
that disables the re-server Obico is told addresses all the same. -/
theorem advertised_iff (config : LoadedConfig) :
    (∀ ls, (config.start.run ls).AdvertisesServed) ↔
      0 < config.reservePort ∧ Url.IsHost config.publicHost.toList := by
  constructor
  · intro h
    set a := config.start.run [firstPoll 0] with ha
    obtain ⟨hconfig, hruns, -, htold⟩ := run_start [firstPoll 0] ha.symm
    have hadvertises := advertises_firstPoll config 0
    obtain ⟨entry, hentry⟩ := exists_first_webcam a
    have hserves : a.Serves 0 entry :=
      h [firstPoll 0] _ hadvertises 0 entry (by rw [htold _ hadvertises]; exact hentry)
    refine ⟨hruns.mp hserves.stream.runs, ?_⟩
    have hhost := isHost_of_serves hentry hserves
    rwa [hconfig] at hhost
  · rintro ⟨hport, hhost⟩ ls st hst i entry hentry
    obtain ⟨hconfig, hruns, hsources, htold⟩ := run_start ls rfl
    rw [htold st hst] at hentry
    rw [← hconfig] at hhost
    exact serves_of_isHost (hruns.mpr hport) hhost hsources hentry

/-- An environment that disables the re-server. -/
def withoutReserver : Env := fun key =>
  [("FF_HOST", "10.0.0.5"), ("FF_SERIAL", "SN"), ("FF_CHECK_CODE", "CC"),
    ("OBICO_AUTH_TOKEN", "TK"), ("RESERVE_PORT", "0")].lookup key

/-- What Obico is told then is the address of no server. -/
theorem not_served_withoutReserver : ∃ config, LoadedConfig.load withoutReserver true = .ok config ∧
    ¬ (config.start.run [firstPoll 0]).AdvertisesServed := by
  refine ⟨_, rfl, fun h => ?_⟩
  have hserves := h _ (advertises_firstPoll _ 0) 0 _ rfl
  exact absurd hserves.stream.runs (by decide)

end Agent

end FlashforgeObico
