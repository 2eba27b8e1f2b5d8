import FlashforgeObico.Foundations.PythonBytes
import FlashforgeObico.Foundations.PythonValue

/-!
# The multipart parser

`iter_mjpeg_frames` of `camera/mjpeg_source.py`: it looks for a boundary line, reads the headers of
the part and then its body, which is as long as the headers say or ends at the next boundary line.
The functions take the stream as the list of the bytes that are left of it; each of them reads at
least a line, which is why the parser terminates.
-/

namespace FlashforgeObico

open Py

/-- `MAX_FRAME_BYTES`. -/
def maxFrameBytes : ℕ := 8000000

/-- The headers of a part, the last one first. -/
abbrev Headers := List (List Char × List Char)

namespace Headers

/-- `headers[key.strip().lower()] = value.strip()`, of a line `key:value`. -/
def add (headers : Headers) (line : Bytes) : Headers :=
  match (latin1 line).span (· ≠ ':') with
  | (_, []) => headers
  | (key, _ :: value) => (lower (strip key), strip value) :: headers

/-- `headers.get("content-length", "")`. -/
def contentLength (headers : Headers) : List Char :=
  (headers.lookup "content-length".toList).getD []

end Headers

/-- A blank line. -/
def IsBlank (line : Bytes) : Prop := line = [13, newline] ∨ line = [newline]

instance (line : Bytes) : Decidable (IsBlank line) :=
  inferInstanceAs (Decidable (line = [13, newline] ∨ line = [newline]))

/-- `_read_headers`, after some headers; `none` at the end of the stream. -/
def readHeaders (headers : Headers) (s : Bytes) : Option (Headers × Bytes) :=
  if h : (readline s).1 = [] then none
  else if IsBlank (readline s).1 then some (headers, (readline s).2)
  else
    have := length_readline_lt h
    readHeaders (headers.add (readline s).1) (readline s).2
termination_by s.length

/-- `_read_exact`. -/
def readExact (s : Bytes) (length : ℕ) : Option (Bytes × Bytes) :=
  if (s.take length).length = length then some (s.take length, s.drop length) else none

/-- `body[:-2] if body.endswith(b"\r\n") else body`. -/
def dropCrlf (body : Bytes) : Bytes :=
  if [13, newline] <:+ body then body.take (body.length - 2) else body

/-- `_read_until_boundary`, after some lines, whose bytes are `chunks`. -/
def readUntilBoundary (boundary chunks s : Bytes) : Option (Bytes × Bytes) :=
  if h : (readline s).1 = [] then none
  else if boundary <+: stripBytes (readline s).1 then some (dropCrlf chunks, (readline s).2)
  else if maxFrameBytes < (chunks ++ (readline s).1).length then none
  else
    have := length_readline_lt h
    readUntilBoundary boundary (chunks ++ (readline s).1) (readline s).2
termination_by s.length

/-- The frame of a part whose headers were read, whether the stream is then past the next boundary
line, and the stream. There is none when the part is truncated or too long, and `int` raises on a
length of superscripts or of too many digits. -/
def readBody (boundary : Bytes) (headers : Headers) (s : Bytes) :
    Except Error (Option (Bytes × Bool × Bytes)) :=
  if isDigitText headers.contentLength then
    match int? headers.contentLength with
    | none => .error .valueError
    | some length =>
      if maxFrameBytes < length then .ok none
      else .ok ((readExact s length.toNat).map fun r => (r.1, false, r.2))
  else .ok ((readUntilBoundary boundary [] s).map fun r => (r.1, true, r.2))

/-- `b"--"`. -/
def dashes : Bytes := [45, 45]

/-- Read lines up to a boundary line: the boundary, and what is left of the stream. There is none at
the end of the stream and after the closing boundary. -/
def nextBoundary (boundary : Option Bytes) (s : Bytes) : Option (Bytes × Bytes) :=
  if h : (readline s).1 = [] then none
  else
    let stripped := stripBytes (readline s).1
    if dashes <+: stripped then
      let boundary := boundary.getD stripped
      if stripped = boundary ++ dashes then none else some (boundary, (readline s).2)
    else
      have := length_readline_lt h
      nextBoundary boundary (readline s).2
termination_by s.length

/-! ## What is left of the stream -/

theorem length_readHeaders_lt {headers headers' : Headers} {s rest : Bytes}
    (h : readHeaders headers s = some (headers', rest)) : rest.length < s.length := by
  fun_induction readHeaders headers s with
  | case1 headers s hnil => cases h
  | case2 headers s hnil hblank =>
    cases h
    exact length_readline_lt hnil
  | case3 headers s hnil hblank hlt ih => exact (ih h).trans hlt

theorem length_readUntilBoundary_lt {boundary chunks s body rest : Bytes}
    (h : readUntilBoundary boundary chunks s = some (body, rest)) : rest.length < s.length := by
  fun_induction readUntilBoundary boundary chunks s with
  | case1 chunks s hnil => cases h
  | case2 chunks s hnil hboundary =>
    cases h
    exact length_readline_lt hnil
  | case3 chunks s hnil hboundary hmax => cases h
  | case4 chunks s hnil hboundary hmax hlt ih => exact (ih h).trans hlt

theorem length_nextBoundary_lt {boundary : Option Bytes} {s boundary' rest : Bytes}
    (h : nextBoundary boundary s = some (boundary', rest)) : rest.length < s.length := by
  fun_induction nextBoundary boundary s with
  | case1 s hnil => cases h
  | case2 s hnil stripped hdashes boundary hclosing => cases h
  | case3 s hnil stripped hdashes boundary hclosing =>
    obtain ⟨-, rfl⟩ := Prod.mk.inj (Option.some.inj h)
    exact length_readline_lt hnil
  | case4 s hnil stripped hdashes hlt ih => exact (ih h).trans hlt

theorem length_readBody_le {boundary s frame rest : Bytes} {headers : Headers} {atBoundary : Bool}
    (h : readBody boundary headers s = .ok (some (frame, atBoundary, rest))) :
    rest.length ≤ s.length := by
  unfold readBody at h
  split_ifs at h
  · split at h
    · cases h
    · rename_i length _
      by_cases hmax : maxFrameBytes < length
      · rw [if_pos hmax] at h
        cases h
      · rw [if_neg hmax, readExact] at h
        split_ifs at h
        · cases h
          simp
        · simp at h
  · rcases hr : readUntilBoundary boundary [] s with _ | ⟨body, rest'⟩ <;> rw [hr] at h <;> cases h
    exact (length_readUntilBoundary_lt hr).le

/-! ## The parser -/

/-- What the loop does with one part: it yields its frame, it returns, or it raises. -/
inductive Part
  | frame (boundary frame : Bytes) (atBoundary : Bool) (rest : Bytes)
  | returned
  | raised (e : Error)

/-- One round of the loop of `iter_mjpeg_frames`: the boundary, if one has been read, and whether
the stream is past a boundary line. -/
def readPart (boundary : Option Bytes) (atBoundary : Bool) (s : Bytes) : Part :=
  match if atBoundary then some (boundary.getD [], s) else nextBoundary boundary s with
  | none => .returned
  | some (boundary, s) =>
    match readHeaders [] s with
    | none => .returned
    | some (headers, s) =>
      match readBody boundary headers s with
      | .error e => .raised e
      | .ok none => .returned
      | .ok (some (frame, atBoundary, rest)) => .frame boundary frame atBoundary rest

theorem readPart_of_headers {boundary : Option Bytes} {boundary' s s' s'' : Bytes}
    {headers : Headers}
    (hnext : nextBoundary boundary s = some (boundary', s'))
    (hheaders : readHeaders [] s' = some (headers, s'')) :
    readPart boundary false s =
      match readBody boundary' headers s'' with
      | .error e => .raised e
      | .ok none => .returned
      | .ok (some (frame, atBoundary, rest)) => .frame boundary' frame atBoundary rest := by
  simp only [readPart, hnext, hheaders, Bool.false_eq_true, if_false]

/-- The boundary of the next part, and the stream at its headers. -/
def startPart (boundary : Option Bytes) (atBoundary : Bool) (s : Bytes) : Option (Bytes × Bytes) :=
  if atBoundary then some (boundary.getD [], s) else nextBoundary boundary s

/-- The boundary and the headers of the next part, and the stream at its body. -/
def nextHeaders (boundary : Option Bytes) (atBoundary : Bool) (s : Bytes) :
    Option (Bytes × Headers × Bytes) :=
  (startPart boundary atBoundary s).bind fun p => (readHeaders [] p.2).map fun h => (p.1, h)

theorem nextHeaders_eq_some_iff {boundary : Option Bytes} {atBoundary : Bool}
    {s boundary' s'' : Bytes} {headers : Headers} :
    nextHeaders boundary atBoundary s = some (boundary', headers, s'') ↔
      ∃ s', startPart boundary atBoundary s = some (boundary', s') ∧
        readHeaders [] s' = some (headers, s'') := by
  simp only [nextHeaders, Option.bind_eq_some_iff, Option.map_eq_some_iff, Prod.mk.injEq]
  constructor
  · rintro ⟨⟨b, s'⟩, hstart, _, hheaders, rfl, rfl⟩
    exact ⟨s', hstart, hheaders⟩
  · rintro ⟨s', hstart, hheaders⟩
    exact ⟨(boundary', s'), hstart, (headers, s''), hheaders, rfl, rfl⟩

/-- A round reads the headers of a part and then its body. -/
theorem readPart_eq (boundary : Option Bytes) (atBoundary : Bool) (s : Bytes) :
    readPart boundary atBoundary s =
      match nextHeaders boundary atBoundary s with
      | none => .returned
      | some (boundary, headers, s) =>
        match readBody boundary headers s with
        | .error e => .raised e
        | .ok none => .returned
        | .ok (some (frame, atBoundary, rest)) => .frame boundary frame atBoundary rest := by
  change (match startPart boundary atBoundary s with
    | none => Part.returned
    | some (boundary, s) => _) = _
  rw [nextHeaders]
  rcases startPart boundary atBoundary s with _ | ⟨b, s'⟩
  · rfl
  · rcases hheaders : readHeaders [] s' with _ | ⟨headers, s''⟩ <;> simp [hheaders]

theorem readPart_eq_frame_iff {boundary : Option Bytes} {atBoundary atBoundary' : Bool}
    {s boundary' frame rest : Bytes} :
    readPart boundary atBoundary s = .frame boundary' frame atBoundary' rest ↔
      ∃ headers s', nextHeaders boundary atBoundary s = some (boundary', headers, s') ∧
        readBody boundary' headers s' = .ok (some (frame, atBoundary', rest)) := by
  rw [readPart_eq]
  rcases nextHeaders boundary atBoundary s with _ | ⟨b, headers, s'⟩
  · simp
  · rcases hbody : readBody b headers s' with e | _ | ⟨f, a, r⟩ <;> grind

theorem length_readPart_lt {boundary : Option Bytes} {atBoundary atBoundary' : Bool}
    {s boundary' frame rest : Bytes}
    (h : readPart boundary atBoundary s = .frame boundary' frame atBoundary' rest) :
    rest.length < s.length := by
  unfold readPart at h
  split at h
  · cases h
  · rename_i boundary₁ s₁ hboundary
    have hs₁ : s₁.length ≤ s.length := by
      split_ifs at hboundary
      · cases hboundary
        exact le_rfl
      · exact (length_nextBoundary_lt hboundary).le
    split at h
    · cases h
    · rename_i headers s₂ hheaders
      split at h
      · cases h
      · cases h
      · rename_i hbody
        cases h
        exact ((length_readBody_le hbody).trans_lt (length_readHeaders_lt hheaders)).trans_le hs₁

/-- What the generator does until it ends: the frames that it yields, and the exception that it
raises, if it does not return. -/
structure Parsed where
  frames : List Bytes := []
  raised : Option Error := none
  deriving DecidableEq

/-- Yield a frame first. -/
def Parsed.yield (frame : Bytes) (p : Parsed) : Parsed := { p with frames := frame :: p.frames }

/-- The loop of `iter_mjpeg_frames`. -/
def iterFrames (boundary : Option Bytes) (atBoundary : Bool) (s : Bytes) : Parsed :=
  match h : readPart boundary atBoundary s with
  | .returned => {}
  | .raised e => { raised := some e }
  | .frame boundary frame atBoundary rest =>
    have := length_readPart_lt h
    (iterFrames (some boundary) atBoundary rest).yield frame
termination_by s.length

/-- `iter_mjpeg_frames`. -/
def iterMjpegFrames (s : Bytes) : Parsed := iterFrames none false s

/-- The parser goes round its loop part by part. -/
theorem iterFrames_eq (boundary : Option Bytes) (atBoundary : Bool) (s : Bytes) :
    iterFrames boundary atBoundary s =
      match readPart boundary atBoundary s with
      | .returned => {}
      | .raised e => { raised := some e }
      | .frame boundary frame atBoundary rest =>
        (iterFrames (some boundary) atBoundary rest).yield frame := by
  rw [iterFrames]
  split <;> simp_all

/-! ## Reading line by line -/

theorem readHeaders_line {l : Bytes} (hl : newline ∉ l) (hblank : ¬ IsBlank (l ++ [newline]))
    (headers : Headers) (s : Bytes) :
    readHeaders headers (l ++ newline :: s) = readHeaders (headers.add (l ++ [newline])) s := by
  rw [readHeaders]
  simp [readline_line hl, hblank]

theorem readHeaders_blank (headers : Headers) (s : Bytes) :
    readHeaders headers (13 :: newline :: s) = some (headers, s) := by
  have hline := readline_line (l := [13]) (by decide) s
  rw [List.singleton_append] at hline
  rw [readHeaders]
  simp [hline, IsBlank]

/-- The headers of a part do not end in the middle of a line. -/
theorem readHeaders_rest {s : Bytes} (hs : newline ∉ s) (headers : Headers) :
    readHeaders headers s = none := by
  have hblank : ¬ IsBlank s := by
    rintro (rfl | rfl) <;> exact hs (by decide)
  rw [readHeaders]
  split_ifs with hnil hb
  · rfl
  · exact absurd (by simpa [readline_rest hs] using hb) hblank
  · rw [readHeaders, dif_pos (by simp [readline_rest hs, readline])]

/-- A line that is no boundary line is skipped. -/
theorem nextBoundary_skip {l : Bytes} (hl : newline ∉ l)
    (h : ¬ dashes <+: stripBytes (l ++ [newline]))
    (boundary : Option Bytes) (s : Bytes) :
    nextBoundary boundary (l ++ newline :: s) = nextBoundary boundary s := by
  rw [nextBoundary]
  simp [readline_line hl, h]

theorem nextBoundary_line {l b : Bytes} (hl : newline ∉ l) (hb : stripBytes (l ++ [newline]) = b)
    (hdashes : dashes <+: b) {boundary : Option Bytes} (hboundary : boundary.getD b = b)
    (s : Bytes) :
    nextBoundary boundary (l ++ newline :: s) = some (b, s) := by
  have hclosing : b ≠ b ++ dashes := by simp [dashes]
  rw [nextBoundary]
  simp [readline_line hl, hb, hdashes, hboundary, hclosing]

/-- Nothing more is read of a stream that has no newline. -/
theorem readPart_rest {s : Bytes} (hs : newline ∉ s) (boundary : Option Bytes) :
    readPart boundary false s = .returned := by
  have hnext : ∀ b rest, nextBoundary boundary s = some (b, rest) → rest = [] := by
    intro b rest h
    rw [nextBoundary] at h
    simp only [readline_rest hs] at h
    split_ifs at h
    · exact (Prod.mk.inj (Option.some.inj h)).2.symm
    · rw [nextBoundary] at h
      simp [readline] at h
  rw [readPart]
  rcases hb : nextBoundary boundary s with _ | ⟨b, rest⟩
  · simp
  · obtain rfl := hnext b rest hb
    simp [readHeaders, readline]

theorem readPart_skip {l : Bytes} (hl : newline ∉ l) (h : ¬ dashes <+: stripBytes (l ++ [newline]))
    (boundary : Option Bytes) (s : Bytes) :
    readPart boundary false (l ++ newline :: s) = readPart boundary false s := by
  simp only [readPart, Bool.false_eq_true, if_false, nextBoundary_skip hl h]

theorem iterFrames_congr {boundary : Option Bytes} {s s' : Bytes}
    (h : readPart boundary false s = readPart boundary false s') :
    iterFrames boundary false s = iterFrames boundary false s' := by
  rw [iterFrames_eq, iterFrames_eq, h]

/-- A prefix of a stream ends before the newline of its first line, or goes on after it. -/
theorem prefix_line_cases {l s p : Bytes} (hl : newline ∉ l) (h : p <+: l ++ newline :: s) :
    (newline ∉ p ∧ p.length ≤ l.length) ∨ ∃ q, p = l ++ newline :: q ∧ q <+: s := by
  rcases List.prefix_or_prefix_of_prefix h (List.prefix_append l _) with hp | ⟨q, rfl⟩
  · exact .inl ⟨fun hmem => hl (hp.subset hmem), hp.length_le⟩
  · have hq : q <+: newline :: s := (List.prefix_append_right_inj l).mp h
    rcases q with _ | ⟨b, q⟩
    · exact .inl (by simpa using hl)
    · obtain ⟨rfl, hq'⟩ := List.cons_prefix_cons.mp hq
      exact .inr ⟨q, rfl, hq'⟩

end FlashforgeObico
