import FlashforgeObico.Camera.Relay

/-!
# Parts with and without a length

A server may declare the length of each part, or leave it to the boundary lines to end it. The
parser reads the two framings of a list of parts differently: it counts the bytes of a part with a
length, and looks for the next boundary line among the lines of the others. `framings_agree_iff`
says when it yields the parts in both: the bound on a part without a length is on the bytes before
the boundary line, which are two more than those of the part; and such a part ends at a closing
boundary line as at any other, so that the parser reads on after it, where there must be nothing
that reads as a part.
-/

namespace FlashforgeObico

open Py

/-! ## Multipart streams -/

/-- The line that separates parts: two dashes and a token. -/
structure Delimiter where
  token : Bytes
  ne_nil : token ≠ []
  noSpace : ∀ b ∈ token, isSpaceByte b = false

/-- The boundary line, without its end. -/
def Delimiter.line (d : Delimiter) : Bytes := dashes ++ d.token

/-- The closing boundary line, without its end. -/
def Delimiter.closing (d : Delimiter) : Bytes := d.line ++ dashes

/-- A header line, without its newline, that declares no length. -/
structure HeaderLine where
  text : Bytes
  oneLine : newline ∉ text
  notBlank : ¬ IsBlank (text ++ [newline])
  noLength : (Headers.add [] (text ++ [newline])).lookup "content-length".toList = none

/-- A part: its body, and the header lines before and after the place of its length. -/
structure BodyPart (d : Delimiter) where
  before : List HeaderLine := []
  after : List HeaderLine := []
  body : Bytes
  fits : body.length ≤ maxFrameBytes
  noBoundary : ∀ line ∈ body.splitOn newline, ¬ d.line <+: stripBytes line

/-- Whether the parts declare their lengths. -/
inductive Framing
  | counted
  | uncounted

/-- Some header lines. -/
def headerText (lines : List HeaderLine) : Bytes := lines.flatMap fun l => l.text ++ [newline]

namespace BodyPart

variable {d : Delimiter}

/-- The line that declares the length of a part. -/
def lengthText (p : BodyPart d) : Framing → Bytes
  | .counted => lengthLine p.body ++ [newline]
  | .uncounted => []

/-- The headers of a part and the blank line after them. -/
def head (framing : Framing) (p : BodyPart d) : Bytes :=
  headerText p.before ++ (p.lengthText framing ++ (headerText p.after ++ [13, newline]))

/-- What follows the boundary line of a part, up to the next boundary line. -/
def text (framing : Framing) (p : BodyPart d) : Bytes :=
  p.head framing ++ (p.body ++ [13, newline])

end BodyPart

/-- A multipart stream. -/
def multipart {d : Delimiter} (framing : Framing) (parts : List (BodyPart d)) (epilogue : Bytes) :
    Bytes :=
  parts.flatMap (fun p => d.line ++ ([13, newline] ++ p.text framing)) ++
    (d.closing ++ ([13, newline] ++ epilogue))

/-- The parser reads a part in a stream that is after a boundary line: it has the headers of one,
and a body of which the end is found. -/
def ReadsAsPart (boundary s : Bytes) : Prop :=
  ∃ headers rest, readHeaders [] s = some (headers, rest) ∧
    readBody boundary headers rest ≠ .ok none

/-! ## Reading headers -/

theorem contentLength_add (headers : Headers) (l : HeaderLine) :
    (headers.add (l.text ++ [newline])).contentLength = headers.contentLength := by
  have hother := l.noLength
  unfold Headers.add at hother ⊢
  split at hother
  · rfl
  · rename_i key _ value _
    rw [Headers.contentLength, Headers.contentLength]
    rw [List.lookup_cons] at hother ⊢
    rcases hkey : "content-length".toList == lower (strip key) with _ | _
    · rfl
    · rw [hkey] at hother
      cases hother

theorem readHeaders_headerText (lines : List HeaderLine) (headers : Headers) (s : Bytes) :
    ∃ headers', readHeaders headers (headerText lines ++ s) = readHeaders headers' s ∧
      headers'.contentLength = headers.contentLength := by
  induction lines generalizing headers with
  | nil => exact ⟨headers, rfl, rfl⟩
  | cons l lines ih =>
    obtain ⟨headers', hread, hlength⟩ := ih (headers.add (l.text ++ [newline]))
    refine ⟨headers', ?_, hlength.trans (contentLength_add headers l)⟩
    rw [← hread, ← readHeaders_line l.oneLine l.notBlank]
    simp [headerText]

section BodyPart

variable {d : Delimiter} {p : BodyPart d}

/-- The line with the length of a part is the last with a length. -/
theorem readHeaders_lengthText (framing : Framing) (p : BodyPart d) (headers : Headers)
    (hheaders : headers.contentLength = []) (s : Bytes) :
    ∃ headers', readHeaders headers (p.lengthText framing ++ s) = readHeaders headers' s ∧
      headers'.contentLength =
        match framing with
        | .counted => Nat.toDigits 10 p.body.length
        | .uncounted => [] := by
  rcases framing with _ | _
  · have hblank : ¬ IsBlank (lengthLine p.body ++ [newline]) := by
      simp [IsBlank, lengthLine, headerLine, ascii]
    have hname : lower (strip "Content-Length".toList) = "content-length".toList := by decide
    refine ⟨headers.add (lengthLine p.body ++ [newline]), ?_, ?_⟩
    · rw [← readHeaders_line (newline_not_mem_lengthLine p.body) hblank]
      simp [BodyPart.lengthText]
    · rw [lengthLine, add_headerLine (by decide) (isHeaderText_toDigits _) (by decide)
        Nat.toDigits_ne_nil fun c hc => isSpace_of_isDigit (isDigit_of_mem_toDigits hc), hname]
      rfl
  · exact ⟨headers, rfl, hheaders⟩

theorem readHeaders_head (framing : Framing) (p : BodyPart d) (s : Bytes) :
    ∃ headers, readHeaders [] (p.head framing ++ s) = some (headers, s) ∧
      headers.contentLength =
        match framing with
        | .counted => Nat.toDigits 10 p.body.length
        | .uncounted => [] := by
  have hhead : p.head framing ++ s =
      headerText p.before ++
        (p.lengthText framing ++ (headerText p.after ++ (13 :: newline :: s))) := by
    simp [BodyPart.head]
  obtain ⟨h₁, hread₁, hlength₁⟩ := readHeaders_headerText p.before []
    (p.lengthText framing ++ (headerText p.after ++ (13 :: newline :: s)))
  obtain ⟨h₂, hread₂, hlength₂⟩ := readHeaders_lengthText framing p h₁ (hlength₁.trans rfl)
    (headerText p.after ++ (13 :: newline :: s))
  obtain ⟨h₃, hread₃, hlength₃⟩ := readHeaders_headerText p.after h₂ (13 :: newline :: s)
  refine ⟨h₃, ?_, hlength₃.trans hlength₂⟩
  rw [hhead, hread₁, hread₂, hread₃, readHeaders_blank]

/-! ## Reading bodies -/

theorem lineEnd_space : ∀ b ∈ [13, newline], isSpaceByte b = true := by simp [isSpaceByte, newline]

/-- The lines of a body are read as long as there is room for them. -/
theorem readUntilBoundary_body {boundary body : Bytes}
    (hbody : ∀ line ∈ body.splitOn newline, ¬ boundary <+: stripBytes line) (chunks s : Bytes) :
    readUntilBoundary boundary chunks (body ++ 13 :: newline :: s) =
      if maxFrameBytes < chunks.length + body.length + 2 then none
      else readUntilBoundary boundary (chunks ++ (body ++ [13, newline])) s := by
  induction hn : body.length using Nat.strongRecOn generalizing body chunks with
  | ind n ih =>
    subst hn
    by_cases hmem : newline ∈ body
    · obtain ⟨l, rest, rfl, hl⟩ := List.eq_append_cons_of_mem hmem
      rw [List.splitOn_append_cons_self_of_not_mem hl, List.forall_mem_cons] at hbody
      have hline : ¬ boundary <+: stripBytes (l ++ [newline]) := by
        rw [stripBytes_append (by simp [isSpaceByte, newline])]
        exact hbody.1
      have hrest := ih rest.length (by simp; omega) hbody.2 (chunks ++ (l ++ [newline])) rfl
      rw [List.append_assoc, List.cons_append, readUntilBoundary]
      simp only [readline_line hl, hline, hrest, List.length_append, List.length_cons,
        List.length_nil, List.append_eq_nil_iff, List.cons_ne_nil, and_false, dite_false, if_false]
      have hassoc : chunks ++ (l ++ [newline]) ++ (rest ++ [13, newline]) =
          chunks ++ (l ++ newline :: rest ++ [13, newline]) := by simp
      rw [hassoc]
      split_ifs <;> first | rfl | omega
    · have hline : ¬ boundary <+: stripBytes (body ++ [13, newline]) := by
        rw [stripBytes_append lineEnd_space]
        exact hbody body (by simp [List.splitOn_eq_singleton hmem])
      have hread : readline (body ++ 13 :: newline :: s) = (body ++ [13, newline], s) := by
        have h13 : newline ∉ body ++ [13] := by simpa using ⟨hmem, by decide⟩
        simpa using readline_line h13 s
      rw [readUntilBoundary]
      simp only [hread, hline, List.length_append, List.length_cons, List.length_nil,
        List.append_eq_nil_iff, List.cons_ne_nil, and_false, dite_false, if_false]
      split_ifs <;> first | rfl | omega

/-- A boundary line ends a body, whatever follows the boundary in it. -/
theorem readUntilBoundary_line {boundary l : Bytes} (hl : newline ∉ l)
    (hboundary : boundary <+: stripBytes (l ++ [newline])) (body s : Bytes) :
    readUntilBoundary boundary (body ++ [13, newline]) (l ++ newline :: s) = some (body, s) := by
  have hdrop : dropCrlf (body ++ [13, newline]) = body := by
    rw [dropCrlf, if_pos (List.suffix_append body _)]
    simp
  rw [readUntilBoundary]
  simp [readline_line hl, hboundary, hdrop]

theorem readBody_uncounted {boundary l : Bytes} {headers : Headers}
    (hheaders : headers.contentLength = []) (hl : newline ∉ l)
    (hboundary : boundary <+: stripBytes (l ++ [newline])) {body : Bytes}
    (hbody : ∀ line ∈ body.splitOn newline, ¬ boundary <+: stripBytes line) (s : Bytes) :
    readBody boundary headers (body ++ 13 :: newline :: (l ++ newline :: s)) =
      .ok (if body.length + 2 ≤ maxFrameBytes then some (body, true, s) else none) := by
  have hdigits : ¬ isDigitText headers.contentLength = true := by
    rw [hheaders]
    decide
  have hline := readUntilBoundary_line hl hboundary body s
  rw [readBody, if_neg hdigits, readUntilBoundary_body hbody, List.nil_append, hline,
    List.length_nil, Nat.zero_add]
  split_ifs
  · omega
  · rfl
  · rfl
  · omega

theorem readBody_counted {headers : Headers} {body : Bytes}
    (hheaders : headers.contentLength = Nat.toDigits 10 body.length)
    (hmax : body.length ≤ maxFrameBytes) (boundary s : Bytes) :
    readBody boundary headers (body ++ s) = .ok (some (body, false, s)) := by
  rw [readBody_of_contentLength hheaders hmax, readExact, List.take_left, if_pos rfl,
    List.drop_left]
  rfl

/-! ## Reading parts -/

theorem Delimiter.newline_not_mem (d : Delimiter) : newline ∉ d.line := by
  have htoken : newline ∉ d.token := fun h => by simpa [isSpaceByte, newline] using d.noSpace _ h
  simpa [Delimiter.line, dashes, newline] using htoken

theorem dashes_noSpace : ∀ b ∈ dashes, isSpaceByte b = false := by simp [dashes, isSpaceByte]

theorem Delimiter.noSpace_line (d : Delimiter) : ∀ b ∈ d.line, isSpaceByte b = false := by
  intro b hb
  rcases List.mem_append.mp hb with h | h
  · exact dashes_noSpace b h
  · exact d.noSpace b h

theorem Delimiter.strip_line (d : Delimiter) :
    stripBytes (d.line ++ [13] ++ [newline]) = d.line := by
  rw [List.append_assoc, List.singleton_append, stripBytes_append lineEnd_space,
    stripBytes_of_not_space d.noSpace_line]

theorem Delimiter.strip_closing (d : Delimiter) :
    stripBytes (d.closing ++ [13] ++ [newline]) = d.closing := by
  have hclosing : ∀ b ∈ d.closing, isSpaceByte b = false := by
    intro b hb
    rcases List.mem_append.mp hb with h | h
    · exact d.noSpace_line b h
    · exact dashes_noSpace b h
  rw [List.append_assoc, List.singleton_append, stripBytes_append lineEnd_space,
    stripBytes_of_not_space hclosing]

/-- After a boundary line, the parser is at the headers of a part. -/
theorem iterFrames_of_startPart {boundary : Option Bytes} {atBoundary : Bool}
    {s boundary' s' : Bytes} (h : startPart boundary atBoundary s = some (boundary', s')) :
    iterFrames boundary atBoundary s = iterFrames (some boundary') true s' := by
  have hnext : nextHeaders boundary atBoundary s = nextHeaders (some boundary') true s' := by
    rw [nextHeaders, nextHeaders, h]
    rfl
  rw [iterFrames_eq, readPart_eq, hnext, ← readPart_eq, ← iterFrames_eq]

/-- The parser returns at once on a stream that does not read as a part. -/
theorem iterFrames_eq_nil_iff (boundary s : Bytes) :
    iterFrames (some boundary) true s = {} ↔ ¬ ReadsAsPart boundary s := by
  have hheaders : nextHeaders (some boundary) true s =
      (readHeaders [] s).map fun h => (boundary, h) := rfl
  rw [iterFrames_eq, readPart_eq, hheaders, ReadsAsPart]
  rcases readHeaders [] s with _ | ⟨headers, rest⟩
  · simp
  · rcases hbody : readBody boundary headers rest with e | _ | ⟨frame, a, s'⟩ <;>
      simp [Parsed.yield, hbody]

/-- What follows the first boundary line of a multipart stream. -/
def afterBoundary (framing : Framing) (parts : List (BodyPart d)) (epilogue : Bytes) : Bytes :=
  match parts with
  | [] => epilogue
  | p :: parts => p.text framing ++ multipart framing parts epilogue

/-- The first boundary line of a multipart stream. -/
def firstLine (d : Delimiter) (parts : List (BodyPart d)) : Bytes :=
  if parts = [] then d.closing else d.line

theorem multipart_eq (framing : Framing) (parts : List (BodyPart d)) (epilogue : Bytes) :
    multipart framing parts epilogue =
      (firstLine d parts ++ [13]) ++ newline :: afterBoundary framing parts epilogue := by
  rcases parts with _ | ⟨p, parts⟩ <;> simp [multipart, afterBoundary, firstLine]

theorem newline_not_mem_firstLine (parts : List (BodyPart d)) :
    newline ∉ firstLine d parts ++ [13] := by
  have hends : newline ∉ dashes ∧ newline ∉ ([13] : Bytes) := by decide
  rw [firstLine]
  split_ifs <;> simp only [Delimiter.closing, List.mem_append, d.newline_not_mem, hends, or_self,
    not_false_eq_true]

theorem strip_firstLine (parts : List (BodyPart d)) :
    stripBytes (firstLine d parts ++ [13] ++ [newline]) = firstLine d parts := by
  rw [firstLine]
  split_ifs
  · exact d.strip_closing
  · exact d.strip_line

theorem prefix_firstLine (parts : List (BodyPart d)) : d.line <+: firstLine d parts := by
  rw [firstLine]
  split_ifs
  · exact List.prefix_append _ _
  · exact List.prefix_rfl

theorem iterFrames_uncounted (p : BodyPart d) (parts : List (BodyPart d)) (epilogue : Bytes) :
    iterFrames (some d.line) true (afterBoundary .uncounted (p :: parts) epilogue) =
      if p.body.length + 2 ≤ maxFrameBytes then
        (iterFrames (some d.line) true (afterBoundary .uncounted parts epilogue)).yield p.body
      else {} := by
  have hstream : afterBoundary .uncounted (p :: parts) epilogue =
      p.head .uncounted ++ (p.body ++ 13 :: newline :: multipart .uncounted parts epilogue) := by
    simp [afterBoundary, BodyPart.text]
  obtain ⟨headers, hread, hlength⟩ := readHeaders_head .uncounted p
    (p.body ++ 13 :: newline :: multipart .uncounted parts epilogue)
  have hprefix : d.line <+: stripBytes (firstLine d parts ++ [13] ++ [newline]) := by
    rw [strip_firstLine]
    exact prefix_firstLine parts
  have hbody := readBody_uncounted hlength (newline_not_mem_firstLine parts) hprefix p.noBoundary
    (afterBoundary .uncounted parts epilogue)
  rw [← multipart_eq] at hbody
  have hnext : nextHeaders (some d.line) true (afterBoundary .uncounted (p :: parts) epilogue) =
      some (d.line, headers, p.body ++ 13 :: newline :: multipart .uncounted parts epilogue) :=
    nextHeaders_eq_some_iff.mpr ⟨_, rfl, by rw [hstream, hread]⟩
  rw [iterFrames_eq, readPart_eq, hnext]
  simp only [hbody]
  split_ifs <;> rfl

theorem iterFrames_counted (p : BodyPart d) (parts : List (BodyPart d)) (epilogue : Bytes) :
    iterFrames (some d.line) true (afterBoundary .counted (p :: parts) epilogue) =
      (iterFrames (some d.line) false (multipart .counted parts epilogue)).yield p.body := by
  have hstream : afterBoundary .counted (p :: parts) epilogue =
      p.head .counted ++ (p.body ++ ([13] ++ newline :: multipart .counted parts epilogue)) := by
    simp [afterBoundary, BodyPart.text]
  obtain ⟨headers, hread, hlength⟩ := readHeaders_head .counted p
    (p.body ++ ([13] ++ newline :: multipart .counted parts epilogue))
  have hbody := readBody_counted hlength p.fits d.line
    ([13] ++ newline :: multipart .counted parts epilogue)
  have hnext : nextHeaders (some d.line) true (afterBoundary .counted (p :: parts) epilogue) =
      some (d.line, headers, p.body ++ ([13] ++ newline :: multipart .counted parts epilogue)) :=
    nextHeaders_eq_some_iff.mpr ⟨_, rfl, by rw [hstream, hread]⟩
  have hskip := iterFrames_congr (readPart_skip (l := [13]) (by decide) (by decide) (some d.line)
    (multipart .counted parts epilogue))
  rw [iterFrames_eq, readPart_eq, hnext]
  simp only [hbody, hskip]

/-! ## The two framings -/

/-- The parts of a stream of parts with a length are read. -/
theorem iterFrames_multipart_counted (p : BodyPart d) (parts : List (BodyPart d))
    (epilogue : Bytes) :
    iterFrames (some d.line) true (afterBoundary .counted (p :: parts) epilogue) =
      { frames := (p :: parts).map BodyPart.body } := by
  induction parts generalizing p with
  | nil =>
    have hclosed : nextBoundary (some d.line) (multipart (d := d) .counted [] epilogue) = none := by
      rw [multipart_eq, nextBoundary]
      have hline := newline_not_mem_firstLine (d := d) []
      have hdashes : dashes <+: d.closing := (List.prefix_append _ _).trans (List.prefix_append _ _)
      have hfirst : firstLine d [] = d.closing := rfl
      simp only [readline_line hline, strip_firstLine]
      rw [hfirst, dif_neg (by simp), if_pos hdashes, if_pos]
      rfl
    have hstart : nextHeaders (some d.line) false (multipart (d := d) .counted [] epilogue) =
        none := by
      simp [nextHeaders, startPart, hclosed]
    rw [iterFrames_counted, iterFrames_eq, readPart_eq, hstart]
    rfl
  | cons q parts ih =>
    have hnext : nextBoundary (some d.line) (multipart .counted (q :: parts) epilogue) =
        some (d.line, afterBoundary .counted (q :: parts) epilogue) := by
      rw [multipart_eq]
      exact nextBoundary_line (newline_not_mem_firstLine _) (strip_firstLine _)
        (List.prefix_append _ _) rfl _
    have hstart : startPart (some d.line) false (multipart .counted (q :: parts) epilogue) =
        some (d.line, afterBoundary .counted (q :: parts) epilogue) := by
      simp [startPart, hnext]
    rw [iterFrames_counted, iterFrames_of_startPart hstart, ih q]
    rfl

/-- The parts of a stream of parts without a length are read when there is room for them, and if
nothing after them reads as a part. -/
theorem iterFrames_multipart_uncounted (parts : List (BodyPart d)) (epilogue : Bytes) :
    iterFrames (some d.line) true (afterBoundary .uncounted parts epilogue) =
        { frames := parts.map BodyPart.body } ↔
      (∀ p ∈ parts, p.body.length + 2 ≤ maxFrameBytes) ∧ ¬ ReadsAsPart d.line epilogue := by
  induction parts with
  | nil =>
    rw [show afterBoundary (d := d) .uncounted [] epilogue = epilogue from rfl, List.map_nil,
      iterFrames_eq_nil_iff]
    simp
  | cons p parts ih =>
    have hyield (q : Parsed) : q.yield p.body = { frames := (p :: parts).map BodyPart.body } ↔
        q = { frames := parts.map BodyPart.body } := by
      rcases q with ⟨frames, raised⟩
      simp [Parsed.yield]
    rw [iterFrames_uncounted, List.forall_mem_cons, and_assoc, ← ih]
    split_ifs with hfits
    · rw [hyield]
      exact (and_iff_right hfits).symm
    · exact iff_of_false (fun h => nomatch h) fun h => hfits h.1

end BodyPart

/-- The first line of a stream is taken for the boundary. -/
theorem iterMjpegFrames_multipart {d : Delimiter} (framing : Framing) (parts : List (BodyPart d))
    (epilogue : Bytes) :
    iterMjpegFrames (multipart framing parts epilogue) =
      iterFrames (some (firstLine d parts)) true (afterBoundary framing parts epilogue) := by
  have hdashes : dashes <+: firstLine d parts :=
    (List.prefix_append _ _).trans (prefix_firstLine parts)
  have hnext : nextBoundary none (multipart framing parts epilogue) =
      some (firstLine d parts, afterBoundary framing parts epilogue) := by
    rw [multipart_eq]
    exact nextBoundary_line (newline_not_mem_firstLine _) (strip_firstLine _) hdashes rfl _
  exact iterFrames_of_startPart (by simp [startPart, hnext])

/-- The parser yields the parts, in both framings, and returns. -/
def FramingsAgree {d : Delimiter} (parts : List (BodyPart d)) (epilogue : Bytes) : Prop :=
  ∀ framing, iterMjpegFrames (multipart framing parts epilogue) =
    { frames := parts.map BodyPart.body }

/-- **When the two framings agree.** -/
theorem framings_agree_iff {d : Delimiter} (parts : List (BodyPart d)) (epilogue : Bytes) :
    FramingsAgree parts epilogue ↔
      (∀ p ∈ parts, p.body.length + 2 ≤ maxFrameBytes) ∧
        ¬ ReadsAsPart (firstLine d parts) epilogue := by
  simp only [FramingsAgree, iterMjpegFrames_multipart]
  rcases parts with _ | ⟨p, parts⟩
  · -- the closing boundary line is the first line, whatever the framing
    have hnone (framing : Framing) :
        iterFrames (some (firstLine d [])) true (afterBoundary (d := d) framing [] epilogue) =
          { frames := [] } ↔ ¬ ReadsAsPart (firstLine d []) epilogue := iterFrames_eq_nil_iff _ _
    refine ⟨fun h => ⟨by simp, (hnone .counted).mp (h .counted)⟩, fun h framing => ?_⟩
    exact (hnone framing).mpr h.2
  · have huncounted := iterFrames_multipart_uncounted (p :: parts) epilogue
    have hfirst : firstLine d (p :: parts) = d.line := rfl
    rw [hfirst, ← huncounted]
    refine ⟨fun h => h .uncounted, fun h framing => ?_⟩
    rcases framing with _ | _
    · exact iterFrames_multipart_counted p parts epilogue
    · exact h

/-- A boundary of a server. -/
def serverDelimiter : Delimiter where
  token := ascii "boundarydonotcross".toList
  ne_nil := by decide
  noSpace := by simp [ascii, isSpaceByte]

/-- A part that leaves one byte of `MAX_FRAME_BYTES`. -/
def longPart : BodyPart serverDelimiter where
  body := List.replicate (maxFrameBytes - 1) 0
  fits := by
    rw [List.length_replicate]
    exact Nat.sub_le _ _
  noBoundary := by
    have hzero : ∀ b ∈ List.replicate (maxFrameBytes - 1) 0, b = (0 : UInt8) :=
      fun b hb => List.eq_of_mem_replicate hb
    have hline : newline ∉ List.replicate (maxFrameBytes - 1) 0 := fun h => by
      simpa [newline] using hzero _ h
    have hspace : ∀ b ∈ List.replicate (maxFrameBytes - 1) 0, isSpaceByte b = false := by
      intro b hb
      rw [hzero b hb]
      decide
    rw [List.splitOn_eq_singleton hline, List.forall_mem_singleton, stripBytes_of_not_space hspace]
    intro hstarts
    have hdash : (45 : UInt8) = 0 := hzero 45 (hstarts.subset (by decide))
    exact absurd hdash (by decide)

/-- A part of one byte. -/
def shortPart : BodyPart serverDelimiter where
  body := [120]
  fits := by decide
  noBoundary := by decide

/-- An epilogue with a blank line and, further on, a boundary line. -/
def echoingEpilogue : Bytes := ascii "\r\nx\r\n--boundarydonotcross\r\n".toList

/-- The framings do not agree on a part of nearly `MAX_FRAME_BYTES`, nor on a short part before an
epilogue with a boundary line. -/
theorem framings_disagree :
    ¬ FramingsAgree [longPart] [] ∧ ¬ FramingsAgree [shortPart] echoingEpilogue := by
  constructor
  · intro h
    have huncounted := h .uncounted
    rw [iterMjpegFrames_multipart] at huncounted
    have hfits := ((iterFrames_multipart_uncounted [longPart] []).mp huncounted).1 longPart
      List.mem_cons_self
    have hlength : longPart.body.length = maxFrameBytes - 1 := List.length_replicate
    rw [hlength, maxFrameBytes] at hfits
    omega
  · intro h
    have hframes : (iterMjpegFrames (multipart .uncounted [shortPart] echoingEpilogue)).frames =
        [[120], [120]] := by decide +kernel
    rw [h .uncounted] at hframes
    cases hframes

end FlashforgeObico
