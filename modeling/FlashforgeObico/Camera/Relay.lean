import FlashforgeObico.Foundations.Transition
import FlashforgeObico.Camera.Mjpeg
import Mathlib.Data.Rat.Defs

/-!
# The camera relay

`Handler._stream` of `camera/reserve.py` writes each new frame of a `MjpegSource` as a part of a
multipart stream. `iterFrames_received` says what `iter_mjpeg_frames` makes of such a stream that
is cut at any byte: the frames that were received in full, whatever bytes they have. `Relay` is a
source with its stores and one client of the stream, and `relay_fidelity` says that what the client
decodes is a subsequence of the stores, in every interleaving.
-/

namespace FlashforgeObico

open Py Transition

/-! ## What the stream writes -/

/-- `BOUNDARY`. -/
def boundaryToken : Bytes := ascii "flashforgeobico".toList

/-- What is written before the body of a frame. -/
def partHead (jpeg : Bytes) : Bytes :=
  dashes ++ boundaryToken ++ ascii "\r\nContent-Type: image/jpeg\r\nContent-Length: ".toList ++
    ascii (toString jpeg.length).toList ++ ascii "\r\n\r\n".toList

/-- What is written for a frame. -/
def framePart (jpeg : Bytes) : Bytes := partHead jpeg ++ jpeg ++ ascii "\r\n".toList

/-- The frames of which at least the head and the body are among the first `n` bytes of the
stream. -/
def receivedInFull : List Bytes → ℕ → List Bytes
  | [], _ => []
  | jpeg :: jpegs, n =>
    if (partHead jpeg).length + jpeg.length ≤ n then
      jpeg :: receivedInFull jpegs (n - (framePart jpeg).length)
    else []

/-! ## The head of a part -/

/-- A header line, without its newline. -/
def headerLine (key value : List Char) : Bytes := ascii (key ++ ':' :: ([' '] ++ value ++ ['\r']))

/-- The boundary line, without its end. -/
def boundaryLine : Bytes := dashes ++ boundaryToken

/-- The two header lines of a part. -/
def typeLine : Bytes := headerLine "Content-Type".toList "image/jpeg".toList

def lengthLine (jpeg : Bytes) : Bytes :=
  headerLine "Content-Length".toList (Nat.toDigits 10 jpeg.length)

/-- What follows the boundary line. -/
def headerBytes (jpeg : Bytes) : Bytes :=
  typeLine ++ newline :: (lengthLine jpeg ++ [newline, 13, newline])

theorem partHead_eq (jpeg : Bytes) :
    partHead jpeg = (boundaryLine ++ [13]) ++ newline :: headerBytes jpeg := by
  simp [partHead, boundaryLine, headerBytes, typeLine, lengthLine, headerLine, ascii, newline]

/-- The characters of a header line are ASCII, and none is a newline. -/
def IsHeaderText (cs : List Char) : Prop := ∀ c ∈ cs, c.toNat < 128 ∧ c ≠ '\n'

instance (cs : List Char) : Decidable (IsHeaderText cs) := List.decidableBAll _ cs

section headerLine

variable {key value : List Char}

theorem IsHeaderText.line (hkey : IsHeaderText key) (hvalue : IsHeaderText value) :
    IsHeaderText (key ++ ':' :: ([' '] ++ value ++ ['\r'])) := by
  have hends : IsHeaderText [':', ' ', '\r'] := by decide
  intro c hc
  have hcases : c ∈ key ∨ c ∈ value ∨ c ∈ [':', ' ', '\r'] := by grind
  rcases hcases with hc | hc | hc
  · exact hkey c hc
  · exact hvalue c hc
  · exact hends c hc

theorem newline_not_mem_headerLine (hkey : IsHeaderText key) (hvalue : IsHeaderText value) :
    newline ∉ headerLine key value := by
  intro hmem
  obtain ⟨c, hc, hnewline⟩ := List.mem_map.mp hmem
  obtain ⟨hascii, hne⟩ := hkey.line hvalue c hc
  have hmod : c.toNat % 256 = 10 := by
    simpa [newline] using congrArg UInt8.toNat hnewline
  have hten : c.toNat = '\n'.toNat := by
    rw [← Nat.mod_eq_of_lt (hascii.trans (by decide) : c.toNat < 256), hmod]
    rfl
  exact hne (Char.toNat_inj.mp hten)

theorem add_headerLine (hkey : IsHeaderText key) (hvalue : IsHeaderText value) (hcolon : ':' ∉ key)
    (hne : value ≠ []) (hspace : ∀ c ∈ value, isSpace c = false) (headers : Headers) :
    headers.add (headerLine key value ++ [newline]) = (lower (strip key), value) :: headers := by
  have htext : latin1 (headerLine key value ++ [newline]) =
      key ++ ':' :: ([' '] ++ value ++ ['\r', '\n']) := by
    have hascii := latin1_ascii fun c hc => (hkey.line hvalue c hc).1
    rw [latin1, List.map_append, ← latin1, headerLine, hascii]
    simp [newline]
  have hbefore : ∀ c ∈ key, decide (c ≠ ':') = true := by
    intro c hc
    simpa using fun h : c = ':' => hcolon (h ▸ hc)
  have hspan : (key ++ ':' :: ([' '] ++ value ++ ['\r', '\n'])).span (· ≠ ':') =
      (key, ':' :: ([' '] ++ value ++ ['\r', '\n'])) := by
    rw [List.span_eq_takeWhile_dropWhile, List.takeWhile_append_of_pos hbefore,
      List.dropWhile_append_of_pos hbefore]
    simp
  have hstrip : strip ([' '] ++ value ++ ['\r', '\n']) = value :=
    strip_append hne hspace (by simp [isSpace, spaces]) (by simp [isSpace, spaces])
  simp only [Headers.add, htext, hspan, hstrip]

end headerLine

theorem isHeaderText_toDigits (n : ℕ) : IsHeaderText (Nat.toDigits 10 n) := by
  intro c hc
  have hdigit := isDigit_of_mem_toDigits hc
  refine ⟨?_, fun h => absurd (h ▸ hdigit) (by decide)⟩
  have hrange : 48 ≤ c.toNat ∧ c.toNat ≤ 57 := by
    simpa [Char.isDigit, UInt32.le_iff_toNat_le] using hdigit
  omega

theorem newline_not_mem_lengthLine (jpeg : Bytes) : newline ∉ lengthLine jpeg :=
  newline_not_mem_headerLine (by decide) (isHeaderText_toDigits _)

/-- The headers of a part, as they are read. -/
def partHeaders (jpeg : Bytes) : Headers :=
  [("content-length".toList, Nat.toDigits 10 jpeg.length),
    ("content-type".toList, "image/jpeg".toList)]

theorem add_partHeaders (jpeg : Bytes) :
    Headers.add (Headers.add [] (typeLine ++ [newline])) (lengthLine jpeg ++ [newline]) =
      partHeaders jpeg := by
  have htype : Headers.add [] (typeLine ++ [newline]) =
      [("content-type".toList, "image/jpeg".toList)] := by decide
  have hname : lower (strip "Content-Length".toList) = "content-length".toList := by decide
  rw [htype, lengthLine, add_headerLine (by decide) (isHeaderText_toDigits _) (by decide)
    Nat.toDigits_ne_nil fun c hc => isSpace_of_isDigit (isDigit_of_mem_toDigits hc), hname,
      partHeaders]

theorem contentLength_partHeaders (jpeg : Bytes) :
    (partHeaders jpeg).contentLength = Nat.toDigits 10 jpeg.length := rfl

theorem isDigitText_toDigits (n : ℕ) : isDigitText (Nat.toDigits 10 n) = true := by
  have hall : ∀ c ∈ Nat.toDigits 10 n, (digit? c).isSome = true := fun c hc =>
    isSome_digit?_of_isDigit (isDigit_of_mem_toDigits hc)
  simp +contextual [isDigitText, Nat.toDigits_ne_nil, hall]

/-- The body of a part is as long as its headers say. -/
theorem readBody_of_contentLength {headers : Headers} {n : ℕ}
    (h : headers.contentLength = Nat.toDigits 10 n) (hmax : n ≤ maxFrameBytes)
    (boundary s : Bytes) :
    readBody boundary headers s = .ok ((readExact s n).map fun r => (r.1, false, r.2)) := by
  have hdigits : n < 10 ^ maxStrDigits :=
    (hmax.trans_lt (by decide : maxFrameBytes < 10 ^ 7)).trans_le
      (Nat.pow_le_pow_right (by decide) (by decide))
  have hlt : ¬ (maxFrameBytes : ℤ) < (n : ℤ) := by omega
  rw [readBody, h, if_pos (isDigitText_toDigits _), int?_toDigits hdigits]
  simp [hlt]

/-! ## What is decoded -/

/-- A stream that starts with the headers of a part ends in them, or they are read. -/
theorem readHeaders_headerBytes {jpeg s p : Bytes} (h : p <+: headerBytes jpeg ++ s) :
    (readHeaders [] p = none ∧ p.length < (headerBytes jpeg).length) ∨
      ∃ q, p = headerBytes jpeg ++ q ∧ q <+: s ∧ readHeaders [] p = some (partHeaders jpeg, q) := by
  have htypeBlank : ¬ IsBlank (typeLine ++ [newline]) := by decide
  have hlengthBlank : ¬ IsBlank (lengthLine jpeg ++ [newline]) := by
    simp [IsBlank, lengthLine, headerLine, ascii]
  have hlines (q : Bytes) : headerBytes jpeg ++ q =
      typeLine ++ newline :: (lengthLine jpeg ++ newline :: ([13] ++ newline :: q)) := by
    simp [headerBytes]
  have hlength : (headerBytes jpeg).length = typeLine.length + (lengthLine jpeg).length + 4 := by
    simp only [headerBytes, List.length_append, List.length_cons, List.length_nil]
    omega
  rw [hlines] at h
  rcases prefix_line_cases (by decide) h with ⟨hrest, hle⟩ | ⟨p₁, rfl, h₁⟩
  · exact .inl ⟨readHeaders_rest hrest _, by omega⟩
  rw [readHeaders_line (by decide) htypeBlank]
  rcases prefix_line_cases (newline_not_mem_lengthLine jpeg) h₁ with ⟨hrest, hle⟩ | ⟨p₂, rfl, h₂⟩
  · refine .inl ⟨readHeaders_rest hrest _, ?_⟩
    simp only [List.length_append, List.length_cons]
    omega
  rw [readHeaders_line (newline_not_mem_lengthLine jpeg) hlengthBlank, add_partHeaders]
  rcases prefix_line_cases (by decide) h₂ with ⟨hrest, hle⟩ | ⟨q, rfl, h₃⟩
  · refine .inl ⟨readHeaders_rest hrest _, ?_⟩
    simp only [List.length_append, List.length_cons, List.length_nil] at hle ⊢
    omega
  · exact .inr ⟨q, (hlines q).symm, h₃, readHeaders_blank _ _⟩

/-- A stream that starts with a part ends in its head, and no frame is read, or the body is read
next. -/
theorem readPart_partHead {boundary : Option Bytes} (hb : boundary.getD boundaryLine = boundaryLine)
    {jpeg s p : Bytes} (h : p <+: partHead jpeg ++ s) :
    (readPart boundary false p = .returned ∧ p.length < (partHead jpeg).length) ∨
      ∃ q, p = partHead jpeg ++ q ∧ q <+: s ∧ readPart boundary false p =
        match readBody boundaryLine (partHeaders jpeg) q with
        | .error e => .raised e
        | .ok none => .returned
        | .ok (some (frame, atBoundary, rest)) => .frame boundaryLine frame atBoundary rest := by
  rw [partHead_eq, List.append_assoc, List.cons_append] at h
  rw [partHead_eq]
  rcases prefix_line_cases (by decide) h with ⟨hrest, hle⟩ | ⟨q, rfl, h'⟩
  · refine .inl ⟨readPart_rest hrest boundary, ?_⟩
    rw [List.length_append, List.length_cons]
    omega
  have hnext : nextBoundary boundary ((boundaryLine ++ [13]) ++ newline :: q) =
    some (boundaryLine, q) :=
    nextBoundary_line (by decide) (by decide) (by decide) hb q
  rcases readHeaders_headerBytes h' with ⟨hnone, hlt⟩ | ⟨q', rfl, hq', hheaders⟩
  · refine .inl ⟨by simp only [readPart, hnext, hnone, Bool.false_eq_true, if_false], ?_⟩
    simp only [List.length_append, List.length_cons]
    omega
  · refine .inr ⟨q', by simp only [List.append_assoc, List.cons_append], hq', ?_⟩
    exact readPart_of_headers hnext hheaders

theorem length_framePart (jpeg : Bytes) :
    (framePart jpeg).length = (partHead jpeg).length + jpeg.length + 2 := by
  rw [framePart, List.length_append, List.length_append]
  rfl

theorem receivedInFull_zero (jpegs : List Bytes) : receivedInFull jpegs 0 = [] := by
  rcases jpegs with _ | ⟨jpeg, jpegs⟩
  · rfl
  · rw [receivedInFull, if_neg]
    rw [partHead_eq, List.length_append, List.length_cons]
    omega

/-- **The decoder.** Of a stream of parts that is cut anywhere, the parser yields the frames that
were received in full, and does not raise. -/
theorem iterFrames_received {boundary : Option Bytes}
    (hb : boundary.getD boundaryLine = boundaryLine)
    {jpegs : List Bytes} (hmax : ∀ jpeg ∈ jpegs, jpeg.length ≤ maxFrameBytes) {p : Bytes}
    (h : p <+: jpegs.flatMap framePart) :
    iterFrames boundary false p = { frames := receivedInFull jpegs p.length } := by
  induction jpegs generalizing boundary p with
  | nil =>
    obtain rfl : p = [] := by simpa using h
    rw [iterFrames_eq, readPart_rest (by decide)]
    rfl
  | cons jpeg jpegs ih =>
    obtain ⟨hjpeg, hjpegs⟩ := List.forall_mem_cons.mp hmax
    have h' : p <+: partHead jpeg ++ (jpeg ++ ([13] ++ newline :: jpegs.flatMap framePart)) := by
      simpa [framePart, ascii, newline] using h
    rw [receivedInFull]
    rcases readPart_partHead hb h' with ⟨hreturned, hlt⟩ | ⟨q, rfl, hq, hpart⟩
    · rw [iterFrames_eq, hreturned, if_neg (by omega)]
    rw [readBody_of_contentLength (contentLength_partHeaders jpeg) hjpeg, readExact] at hpart
    by_cases hfull : jpeg.length ≤ q.length
    · obtain ⟨q', rfl⟩ := List.prefix_of_prefix_length_le (List.prefix_append jpeg _) hq hfull
      have hlength : (partHead jpeg ++ (jpeg ++ q')).length - (framePart jpeg).length =
        q'.length - 2 := by
        simp only [List.length_append, length_framePart]
        omega
      have htake : (jpeg ++ q').take jpeg.length = jpeg := List.take_left
      have hdrop : (jpeg ++ q').drop jpeg.length = q' := List.drop_left
      rw [htake, if_pos rfl, hdrop] at hpart
      rw [iterFrames_eq, hpart, if_pos (by simp), hlength]
      -- The stream ends before the end of the part, or the next part starts after it.
      rcases prefix_line_cases (by decide) ((List.prefix_append_right_inj jpeg).mp hq) with
        ⟨hrest, hle⟩ | ⟨p', rfl, hp'⟩
      · have hshort : q'.length - 2 = 0 := by
          rw [List.length_singleton] at hle
          omega
        rw [hshort, receivedInFull_zero]
        simp only [Option.map_some, iterFrames_eq, readPart_rest hrest]
        rfl
      · have hskip := iterFrames_congr
          (readPart_skip (by decide) (by decide) (some boundaryLine) p' :
            readPart _ _ ([13] ++ _) = _)
        have hrest : iterFrames (some boundaryLine) false p' = _ := ih rfl hjpegs hp'
        simp only [Option.map_some, hskip, hrest]
        rfl
    · rw [if_neg (by simpa using hfull)] at hpart
      rw [iterFrames_eq, hpart, if_neg (by simpa using hfull)]
      rfl

theorem receivedInFull_prefix (jpegs : List Bytes) (n : ℕ) : receivedInFull jpegs n <+: jpegs := by
  induction jpegs generalizing n with
  | nil => exact List.nil_prefix
  | cons jpeg jpegs ih =>
    rw [receivedInFull]
    split_ifs
    · exact List.cons_prefix_cons.mpr ⟨rfl, ih _⟩
    · exact List.nil_prefix

/-! ## The source and the client -/

/-- A frame that `_store` has stored: the how-manieth it is, and when it arrived. -/
structure Stored where
  number : ℕ
  jpeg : Bytes
  arrived : ℚ
  deriving DecidableEq

/-- Where the thread of the client's request is in `_stream`. -/
inductive StreamPlace
  | looping
  | waiting
  | writing (frame : Stored)
  | ended
  deriving DecidableEq

/-- A source, `_stopping`, and one client: the body of the response that was written so far, and the
frames of which a write was begun. -/
structure Relay where
  stores : List Stored := []
  latest : Option Stored := none
  stopping : Bool := false
  place : StreamPlace := .looping
  last : ℚ := 0
  written : Bytes := []
  delivered : List Stored := []
  deriving DecidableEq

/-- What can happen: a store, `stop`, and the steps of the client's thread: it tests `_stopping`,
returns from `wait_for_new_frame` with a frame or without one, writes a part, or breaks off after
some bytes of it. -/
inductive RelayMove
  | store (jpeg : Bytes) (now : ℚ)
  | stop
  | test
  | newFrame
  | timeout
  | write
  | breakOff (sent : ℕ)

namespace Relay

/-- `self._latest is not None and self._latest[1] > after`: the frame. -/
def newFrame? (s : Relay) : Option Stored := s.latest.filter fun frame => s.last < frame.arrived

/-- What a move does, when it is possible. -/
def step (s : Relay) : RelayMove → Option Relay
  | .store jpeg now =>
    let frame := ⟨s.stores.length, jpeg, now⟩
    some { s with latest := some frame, stores := s.stores ++ [frame] }
  | .stop => some { s with stopping := true }
  | .test =>
    if s.place = .looping then
      some { s with place := if s.stopping then .ended else .waiting }
    else none
  | .newFrame =>
    if s.place = .waiting then
      s.newFrame?.map fun frame => { s with place := .writing frame, last := frame.arrived }
    else none
  | .timeout =>
    if s.place = .waiting ∧ s.newFrame? = none then some { s with place := .ended } else none
  | .write =>
    match s.place with
    | .writing frame => some { s with
        place := .looping
        written := s.written ++ framePart frame.jpeg
        delivered := s.delivered ++ [frame] }
    | _ => none
  | .breakOff sent =>
    match s.place with
    | .writing frame => some { s with
        place := .ended
        written := s.written ++ (framePart frame.jpeg).take sent
        delivered := s.delivered ++ [frame] }
    | _ => none

/-- The frames that the client's thread has taken out of the source. -/
def taken (s : Relay) : List Stored :=
  match s.place with
  | .writing frame => s.delivered ++ [frame]
  | _ => s.delivered

/-- The frames taken are stores in their order, none of which arrived after `last`, and the parts
written are those of the frames delivered. -/
structure Faithful (s : Relay) : Prop where
  latest : s.latest = s.stores.getLast?
  numbers : s.stores.map Stored.number = List.range s.stores.length
  taken : s.taken.Sublist s.stores
  last : ∀ frame ∈ s.taken, frame.arrived ≤ s.last
  written : s.written <+: (s.delivered.map Stored.jpeg).flatMap framePart
  writing : s.place ≠ .ended → s.written = (s.delivered.map Stored.jpeg).flatMap framePart

theorem faithful_initial : Faithful {} := by
  constructor <;> simp [taken]

theorem taken_of_writing {s : Relay} {frame : Stored} (h : s.place = .writing frame) :
    s.taken = s.delivered ++ [frame] := by
  simp [taken, h]

theorem taken_of_not_writing {s : Relay} (h : ∀ frame, s.place ≠ .writing frame) :
    s.taken = s.delivered := by
  unfold taken
  split
  · exact absurd ‹_› (h _)
  · rfl

theorem delivered_sublist_taken (s : Relay) : s.delivered.Sublist s.taken := by
  unfold taken
  split
  · exact List.sublist_append_left _ _
  · exact List.Sublist.refl _

/-- The newest frame is the last store. It has not been taken if it arrived after `last`. -/
theorem Faithful.taken_append {s : Relay} (h : Faithful s) {frame : Stored}
    (hframe : s.newFrame? = some frame) : (s.taken ++ [frame]).Sublist s.stores := by
  obtain ⟨hlatest, hnew⟩ := Option.filter_eq_some_iff.mp hframe
  rw [h.latest, List.getLast?_eq_some_iff] at hlatest
  obtain ⟨stores, hstores⟩ := hlatest
  have hsub := h.taken
  rw [hstores, List.sublist_append_iff] at hsub
  obtain ⟨before, after, htaken, hbefore, hafter⟩ := hsub
  have hmem : frame ∉ after := by
    intro hmem
    have := h.last frame (htaken ▸ List.mem_append_right _ hmem)
    exact absurd this (by simpa using hnew)
  have hnil : after = [] := by
    rcases List.sublist_singleton.mp hafter with rfl | rfl
    · rfl
    · exact absurd List.mem_cons_self hmem
  rw [htaken, hnil, List.append_nil, hstores]
  exact hbefore.append (List.Sublist.refl _)

theorem Faithful.step {s t : Relay} {m : RelayMove} (h : Faithful s) (hm : s.step m = some t) :
    Faithful t := by
  cases m with
  | store jpeg now =>
    obtain rfl := Option.some.inj hm
    refine ⟨by simp, ?_, h.taken.trans (List.sublist_append_left _ _), h.last, h.written, h.writing⟩
    rw [List.map_append, h.numbers, List.length_append, List.length_singleton, List.range_succ]
    rfl
  | stop =>
    obtain rfl := Option.some.inj hm
    exact ⟨h.latest, h.numbers, h.taken, h.last, h.written, h.writing⟩
  | test =>
    obtain ⟨hplace, hm⟩ := Option.ite_none_right_eq_some.mp hm
    obtain rfl := Option.some.inj hm
    have htaken := taken_of_not_writing (s := s) (by simp [hplace])
    have hsame : Relay.taken { s with place := if s.stopping then .ended else .waiting } =
        s.delivered := by
      rcases hstop : s.stopping <;> rfl
    refine ⟨h.latest, h.numbers, ?_, ?_, h.written, fun _ => h.writing (by simp [hplace])⟩
    · rw [hsame, ← htaken]
      exact h.taken
    · rw [hsame, ← htaken]
      exact h.last
  | newFrame =>
    obtain ⟨hplace, hm⟩ := Option.ite_none_right_eq_some.mp hm
    obtain ⟨frame, hframe, rfl⟩ := Option.map_eq_some_iff.mp hm
    have htaken := taken_of_not_writing (s := s) (by simp [hplace])
    have hlast : s.last ≤ frame.arrived := by
      have hnew := (Option.filter_eq_some_iff.mp hframe).2
      exact (of_decide_eq_true hnew).le
    refine ⟨h.latest, h.numbers, htaken ▸ h.taken_append hframe, ?_, h.written,
      fun _ => h.writing (by simp [hplace])⟩
    intro x hx
    rcases List.mem_append.mp hx with hx | hx
    · exact (h.last x (htaken ▸ hx)).trans hlast
    · rw [List.mem_singleton.mp hx]
  | timeout =>
    obtain ⟨⟨hplace, -⟩, hm⟩ := Option.ite_none_right_eq_some.mp hm
    obtain rfl := Option.some.inj hm
    have htaken := taken_of_not_writing (s := s) (by simp [hplace])
    exact ⟨h.latest, h.numbers, htaken ▸ h.taken, htaken ▸ h.last, h.written,
      fun hne => absurd rfl hne⟩
  | write =>
    rw [Relay.step] at hm
    split at hm
    · rename_i frame hplace
      obtain rfl := Option.some.inj hm
      have htaken := taken_of_writing hplace
      have hwritten := h.writing (by simp [hplace])
      refine ⟨h.latest, h.numbers, htaken ▸ h.taken, htaken ▸ h.last, ?_, fun _ => ?_⟩
      · simp [hwritten]
      · simp [hwritten]
    · cases hm
  | breakOff sent =>
    rw [Relay.step] at hm
    split at hm
    · rename_i frame hplace
      obtain rfl := Option.some.inj hm
      have htaken := taken_of_writing hplace
      have hwritten := h.writing (by simp [hplace])
      refine ⟨h.latest, h.numbers, htaken ▸ h.taken, htaken ▸ h.last, ?_, fun hne => absurd rfl hne⟩
      simp [hwritten, List.take_prefix]
    · cases hm

end Relay

/-- The frame that a move stores, and when. -/
def RelayMove.stored? : RelayMove → Option (Bytes × ℚ)
  | .store jpeg now => some (jpeg, now)
  | _ => none

namespace Relay

theorem stores_step {s t : Relay} {m : RelayMove} (hm : s.step m = some t) :
    (t.stores.map fun frame => (frame.jpeg, frame.arrived)) =
      (s.stores.map fun frame => (frame.jpeg, frame.arrived)) ++ m.stored?.toList := by
  cases m with
  | store jpeg now =>
    obtain rfl := Option.some.inj hm
    simp [RelayMove.stored?]
  | stop | test | newFrame | timeout | write | breakOff sent =>
    have hstores : t.stores = s.stores := by grind [step, Option.map_eq_some_iff]
    simp [hstores, RelayMove.stored?]

/-- The stores are those that the moves say. -/
theorem stores_of_run {moves : List RelayMove} {s : Relay} (h : Run (ofPartial step) {} moves s) :
    (s.stores.map fun frame => (frame.jpeg, frame.arrived)) =
      moves.filterMap RelayMove.stored? := by
  refine h.history (I := fun moves s =>
    (s.stores.map fun frame => (frame.jpeg, frame.arrived)) =
      moves.filterMap RelayMove.stored?) rfl ?_
  intro moves s m t hs hm
  rw [stores_step hm, hs, List.filterMap_append]
  rcases hm' : m.stored? <;> simp [hm']

end Relay

/-- **Fidelity.** At any time in any run, and wherever the stream is cut, the parser yields the
frames that were received in full, and these are a subsequence of the stores. -/
theorem relay_fidelity {moves : List RelayMove} {s : Relay}
    (hrun : Run (ofPartial Relay.step) {} moves s)
    (hmax : ∀ frame ∈ moves.filterMap RelayMove.stored?, frame.1.length ≤ maxFrameBytes)
    {received : Bytes} (hreceived : received <+: s.written) :
    iterMjpegFrames received =
        { frames := receivedInFull (s.delivered.map Stored.jpeg) received.length } ∧
      receivedInFull (s.delivered.map Stored.jpeg) received.length <+: s.delivered.map Stored.jpeg ∧
      s.delivered.Sublist s.stores ∧
      s.stores.map Stored.number = List.range s.stores.length ∧
      (s.stores.map fun frame => (frame.jpeg, frame.arrived)) =
        moves.filterMap RelayMove.stored? := by
  have h := hrun.invariant (I := Relay.Faithful) Relay.faithful_initial fun _ _ _ hs hm =>
    hs.step hm
  have hstores := Relay.stores_of_run hrun
  have hsub := (Relay.delivered_sublist_taken s).trans h.taken
  refine ⟨iterFrames_received rfl ?_ (hreceived.trans h.written), receivedInFull_prefix _ _, hsub,
    h.numbers, hstores⟩
  intro jpeg hjpeg
  obtain ⟨frame, hframe, rfl⟩ := List.mem_map.mp hjpeg
  apply hmax (frame.jpeg, frame.arrived)
  rw [← hstores]
  exact List.mem_map_of_mem (hsub.subset hframe)

/-- A frame that looks like the end of a part and the start of the next one. -/
def boundaryFrame : Bytes := [13, newline] ++ boundaryLine ++ [13, newline, 13, newline]

/-- The frame is stored twice. The client gets it in full once, and then half of it. -/
def boundaryMoves : List RelayMove :=
  [.test, .store boundaryFrame 1, .newFrame, .write, .test, .store boundaryFrame 2, .newFrame,
    .breakOff 80, .stop]

theorem boundary_frame_is_relayed :
    iterMjpegFrames (framePart boundaryFrame ++ (framePart boundaryFrame).take 80) =
      { frames := [boundaryFrame] } := by
  have hrun : Run (ofPartial Relay.step) {} boundaryMoves
      { stores := [⟨0, boundaryFrame, 1⟩, ⟨1, boundaryFrame, 2⟩]
        latest := some ⟨1, boundaryFrame, 2⟩
        stopping := true
        place := .ended
        last := 2
        written := framePart boundaryFrame ++ (framePart boundaryFrame).take 80
        delivered := [⟨0, boundaryFrame, 1⟩, ⟨1, boundaryFrame, 2⟩] } :=
    run_ofPartial.mpr (by decide +kernel)
  have hframes : receivedInFull [boundaryFrame, boundaryFrame]
      (framePart boundaryFrame ++ (framePart boundaryFrame).take 80).length = [boundaryFrame] := by
    decide +kernel
  have h := (relay_fidelity hrun (by decide) (List.prefix_refl _)).1
  exact h.trans (congrArg (Parsed.mk · none) hframes)

end FlashforgeObico
