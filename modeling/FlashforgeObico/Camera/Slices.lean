import FlashforgeObico.Camera.Truncation

/-!
# Where the frames are in the stream

A frame is a slice of the stream: it begins right after the blank line that ends the headers of its
part. With a Content-Length it has as many bytes, and without one it ends before the next boundary
line, less one CRLF. `frames_are_slices` says that, and that the slices are in order and disjoint.

The invariant (`Positioned`) speaks of the bytes that the parser has read: they end with a boundary
line when the parser knows that it is past one.
-/

namespace FlashforgeObico

open Py

/-- A frame, and its position in the stream. -/
structure Span where
  start : ℕ
  frame : Bytes

/-- The headers that end with the bytes `before`: a boundary line, the lines of the headers and the
blank line. -/
def EndsHeaders (headers : Headers) (before : Bytes) : Prop :=
  ∃ line lines blank, line ++ (List.flatten lines ++ blank) <:+ before ∧
    IsLine line ∧ dashes <+: stripBytes line ∧
    (∀ l ∈ lines, IsLine l ∧ ¬ IsBlank l) ∧ IsBlank blank ∧ headers = lines.foldl Headers.add []

/-- The boundary of the stream: its first line that begins with `--`. -/
def IsBoundaryOf (boundary s : Bytes) : Prop :=
  ∃ lines line rest, Skips (fun l => dashes <+: stripBytes l) s lines line rest ∧
    boundary = stripBytes line

/-- The frame of a part of the stream `s`. -/
structure Framed (s : Bytes) (p : Span) : Prop where
  inside : p.start + p.frame.length ≤ s.length
  slice : (s.drop p.start).take p.frame.length = p.frame
  short : p.frame.length ≤ maxFrameBytes
  part : ∃ boundary headers, IsBoundaryOf boundary s ∧ EndsHeaders headers (s.take p.start) ∧
    (∀ n, isDigitText headers.contentLength = true → int? headers.contentLength = some n →
      p.frame.length = n) ∧
    (isDigitText headers.contentLength = false →
      ∃ lines line rest,
        Skips (fun l => boundary <+: stripBytes l) (s.drop p.start) lines line rest ∧
          p.frame = dropCrlf lines.flatten)

variable {s rest : Bytes}

/-! ## What the readers skip -/

theorem skips_of_readHeaders {headers headers' : Headers}
    (h : readHeaders headers s = some (headers', rest)) :
    ∃ lines blank, Skips IsBlank s lines blank rest ∧
      headers' = lines.foldl Headers.add headers := by
  fun_induction readHeaders headers s with
  | case1 headers s hnil => cases h
  | case2 headers s hnil hblank =>
    obtain ⟨rfl, rfl⟩ := Prod.mk.inj (Option.some.inj h)
    exact ⟨[], _, .nil hblank, rfl⟩
  | case3 headers s hnil hblank hlt ih =>
    obtain ⟨lines, blank, hskips, hheaders⟩ := ih h
    refine ⟨_ :: lines, blank, hskips.cons hblank ?_, hheaders⟩
    intro hrest
    rw [hrest, readHeaders_nil] at h
    cases h

theorem skips_of_readUntilBoundary {boundary chunks body : Bytes}
    (h : readUntilBoundary boundary chunks s = some (body, rest))
    (hchunks : chunks.length ≤ maxFrameBytes) :
    ∃ lines line, Skips (fun l => boundary <+: stripBytes l) s lines line rest ∧
      body = dropCrlf (chunks ++ lines.flatten) ∧
      (chunks ++ lines.flatten).length ≤ maxFrameBytes := by
  fun_induction readUntilBoundary boundary chunks s with
  | case1 chunks s hnil => cases h
  | case2 chunks s hnil hboundary =>
    obtain ⟨rfl, rfl⟩ := Prod.mk.inj (Option.some.inj h)
    exact ⟨[], _, .nil hboundary, by simp, by simpa using hchunks⟩
  | case3 chunks s hnil hboundary hmax => cases h
  | case4 chunks s hnil hboundary hmax hlt ih =>
    obtain ⟨lines, line, hskips, hbody, hlength⟩ := ih h (not_lt.mp hmax)
    rw [List.append_assoc] at hbody hlength
    refine ⟨_ :: lines, line, hskips.cons hboundary ?_, hbody, hlength⟩
    intro hrest
    rw [hrest, readUntilBoundary_nil] at h
    cases h

theorem nextBoundary_nil (boundary : Option Bytes) : nextBoundary boundary [] = none := by
  rw [nextBoundary]
  simp [readline]

theorem skips_of_nextBoundary {boundary : Option Bytes} {boundary' : Bytes}
    (h : nextBoundary boundary s = some (boundary', rest)) :
    ∃ lines line, Skips (fun l => dashes <+: stripBytes l) s lines line rest ∧
      boundary' = boundary.getD (stripBytes line) := by
  fun_induction nextBoundary boundary s with
  | case1 s hnil => cases h
  | case2 s hnil stripped hdashes boundary' hclosing => cases h
  | case3 s hnil stripped hdashes boundary' hclosing =>
    obtain ⟨rfl, rfl⟩ := Prod.mk.inj (Option.some.inj h)
    exact ⟨[], _, .nil hdashes, rfl⟩
  | case4 s hnil stripped hdashes hlt ih =>
    obtain ⟨lines, line, hskips, hboundary⟩ := ih h
    refine ⟨_ :: lines, line, hskips.cons hdashes ?_, hboundary⟩
    intro hrest
    rw [hrest, nextBoundary_nil] at h
    cases h

/-! ## One part -/

/-- The body of a part, when `rest` is left of the stream: the bytes that were read begin with the
frame. -/
structure BodyRead (boundary : Bytes) (headers : Headers) (s frame : Bytes) (atBoundary : Bool)
    (rest : Bytes) : Prop where
  eq : ∃ tail, s = frame ++ tail ++ rest ∧ (atBoundary = true →
    ∃ line, line <:+ frame ++ tail ∧ boundary <+: stripBytes line ∧ (rest = [] ∨ IsLine line))
  short : frame.length ≤ maxFrameBytes
  counted : ∀ n, isDigitText headers.contentLength = true → int? headers.contentLength = some n →
    frame.length = n
  uncounted : isDigitText headers.contentLength = false →
    ∃ lines line rest, Skips (fun l => boundary <+: stripBytes l) s lines line rest ∧
      frame = dropCrlf lines.flatten

theorem prefix_dropCrlf (body : Bytes) : dropCrlf body <+: body := by
  unfold dropCrlf
  split_ifs
  · exact List.take_prefix _ _
  · exact List.prefix_rfl

theorem bodyRead_of_readBody {boundary frame : Bytes} {headers : Headers} {atBoundary : Bool}
    (h : readBody boundary headers s = .ok (some (frame, atBoundary, rest))) :
    BodyRead boundary headers s frame atBoundary rest := by
  unfold readBody at h
  split_ifs at h with hdigits
  · rcases hn : int? headers.contentLength with _ | n <;> simp only [hn] at h
    · cases h
    split_ifs at h with hmax
    · cases h
    simp only [Except.ok.injEq, Option.map_eq_some_iff, Prod.mk.injEq] at h
    obtain ⟨⟨body, q⟩, hexact, rfl, rfl, rfl⟩ := h
    unfold readExact at hexact
    split_ifs at hexact with hlength
    obtain ⟨rfl, rfl⟩ := Prod.mk.inj (Option.some.inj hexact)
    have hnonneg := int?_nonneg (minus_not_mem_of_isDigitText hdigits) hn
    refine ⟨⟨[], by simp, fun hfalse => by cases hfalse⟩, ?_, ?_, ?_⟩
    · rw [hlength]
      omega
    · intro n' _ hn'
      obtain rfl : n = n' := Option.some.inj (hn.symm.trans hn')
      rw [hlength, Int.toNat_of_nonneg hnonneg]
    · intro hdigits'
      exact absurd hdigits (by simp [hdigits'])
  · simp only [Except.ok.injEq, Option.map_eq_some_iff, Prod.mk.injEq] at h
    obtain ⟨⟨body, q⟩, huntil, rfl, rfl, rfl⟩ := h
    obtain ⟨lines, line, hskips, rfl, hlength⟩ := skips_of_readUntilBoundary huntil (by simp)
    rw [List.nil_append] at hlength ⊢
    obtain ⟨crlf, hcrlf⟩ := prefix_dropCrlf lines.flatten
    refine ⟨⟨crlf ++ line, ?_, fun _ => ⟨line, ?_, hskips.stop, hskips.whole⟩⟩, ?_, ?_, ?_⟩
    · rw [← List.append_assoc, hcrlf, List.append_assoc]
      exact hskips.eq
    · rw [← List.append_assoc]
      exact List.suffix_append _ _
    · exact (prefix_dropCrlf lines.flatten).length_le.trans hlength
    · intro n hdigits'
      exact absurd hdigits' hdigits
    · exact fun _ => ⟨lines, line, _, hskips, rfl⟩

/-! ## The position of the parser -/

/-- The parser has read the bytes `pre` of the stream `S`, and `s` is left. -/
structure Positioned (S pre : Bytes) (boundary : Option Bytes) (atBoundary : Bool) (s : Bytes) :
    Prop where
  eq : S = pre ++ s
  first : boundary = none → pre = [] ∧ atBoundary = false
  opens : ∀ b ∈ boundary, IsBoundaryOf b S
  atLine : atBoundary = true →
    ∃ line, line <:+ pre ∧ dashes <+: stripBytes line ∧ (s = [] ∨ IsLine line)

theorem dashes_prefix_of_isBoundaryOf {boundary S : Bytes} (h : IsBoundaryOf boundary S) :
    dashes <+: boundary := by
  obtain ⟨lines, line, rest, hskips, rfl⟩ := h
  exact hskips.stop

variable {S pre : Bytes} {boundary : Option Bytes} {atBoundary : Bool}

/-- The headers of the next part. -/
theorem Positioned.nextHeaders (h : Positioned S pre boundary atBoundary s) {boundary' : Bytes}
    {headers : Headers}
    (hheaders : nextHeaders boundary atBoundary s = some (boundary', headers, rest)) :
    IsBoundaryOf boundary' S ∧ ∃ lead, s = lead ++ rest ∧ EndsHeaders headers (pre ++ lead) := by
  obtain ⟨s', hstart, hread⟩ := nextHeaders_eq_some_iff.mp hheaders
  obtain ⟨lines, blank, hblock, rfl⟩ := skips_of_readHeaders hread
  have hne : s' ≠ [] := by
    rintro rfl
    rw [readHeaders_nil] at hread
    cases hread
  unfold startPart at hstart
  split_ifs at hstart with hat
  · obtain ⟨rfl, rfl⟩ := Prod.mk.inj (Option.some.inj hstart)
    rcases boundary with _ | b
    · exact absurd hat (by simp [(h.first rfl).2])
    obtain ⟨line, hsuffix, hdashes, hwhole⟩ := h.atLine hat
    refine ⟨h.opens b rfl, lines.flatten ++ blank, by simp [hblock.eq], line, lines, blank, ?_,
      hwhole.resolve_left hne, hdashes, hblock.skipped, hblock.stop, rfl⟩
    exact (List.suffix_append_self_iff).mpr hsuffix
  · obtain ⟨skipped, line, hskips, hboundary⟩ := skips_of_nextBoundary hstart
    refine ⟨?_, skipped.flatten ++ (line ++ (lines.flatten ++ blank)), ?_, line, lines, blank, ?_,
      hskips.whole.resolve_left hne, hskips.stop, hblock.skipped, hblock.stop, rfl⟩
    · rcases boundary with _ | b
      · obtain ⟨rfl, -⟩ := h.first rfl
        exact ⟨skipped, line, s', h.eq ▸ hskips, hboundary⟩
      · exact hboundary ▸ h.opens b rfl
    · rw [hskips.eq, hblock.eq]
      simp
    · exact ⟨pre ++ skipped.flatten, by simp⟩

/-- **One part**: its frame is where it should be, and the parser goes on after it. -/
theorem Positioned.part (h : Positioned S pre boundary atBoundary s) {boundary' frame : Bytes}
    {atBoundary' : Bool}
    (hpart : readPart boundary atBoundary s = .frame boundary' frame atBoundary' rest) :
    ∃ start pre', Framed S ⟨start, frame⟩ ∧ pre.length ≤ start ∧
      start + frame.length ≤ pre'.length ∧ Positioned S pre' (some boundary') atBoundary' rest := by
  obtain ⟨headers, s', hheaders, hbody⟩ := readPart_eq_frame_iff.mp hpart
  obtain ⟨hboundary, lead, hlead, hends⟩ := h.nextHeaders hheaders
  have hread := bodyRead_of_readBody hbody
  obtain ⟨tail, htail, hat⟩ := hread.eq
  have hS : S = pre ++ lead ++ s' := by rw [h.eq, hlead, List.append_assoc]
  have hdrop : S.drop (pre ++ lead).length = s' := by rw [hS, List.drop_left]
  have htake : S.take (pre ++ lead).length = pre ++ lead := by rw [hS, List.take_left]
  refine ⟨(pre ++ lead).length, pre ++ lead ++ (frame ++ tail), ⟨?_, ?_, hread.short, boundary',
    headers, hboundary, ?_, hread.counted, ?_⟩, ?_, ?_, ?_, ?_, ?_, ?_⟩
  · simp only [hS, htail, List.length_append]
    omega
  · dsimp only
    rw [hdrop, htail, List.append_assoc, List.take_left]
  · exact htake.symm ▸ hends
  · exact hdrop.symm ▸ hread.uncounted
  · simp
  · simp only [List.length_append]
    omega
  · rw [hS, htail]
    simp
  · exact fun hnone => by cases hnone
  · intro b hb
    obtain rfl := Option.mem_some_iff.mp hb
    exact hboundary
  · intro htrue
    obtain ⟨line, hsuffix, hline, hwhole⟩ := hat htrue
    exact ⟨line, hsuffix.trans (List.suffix_append _ _),
      (dashes_prefix_of_isBoundaryOf hboundary).trans hline, hwhole⟩

/-- The frames from a position on. -/
theorem Positioned.frames (h : Positioned S pre boundary atBoundary s) :
    ∃ spans : List Span, (iterFrames boundary atBoundary s).frames = spans.map Span.frame ∧
      spans.Pairwise (fun p q => p.start + p.frame.length ≤ q.start) ∧
      ∀ p ∈ spans, pre.length ≤ p.start ∧ Framed S p := by
  induction hn : s.length using Nat.strongRecOn generalizing boundary atBoundary s pre with
  | ind n ih =>
    rw [iterFrames_eq]
    rcases hp : readPart boundary atBoundary s with ⟨boundary', frame, atBoundary', q⟩ | _ | e
    · have hlt : q.length < n := hn ▸ length_readPart_lt hp
      obtain ⟨start, pre', hframed, hstart, hend, hnext⟩ := h.part hp
      obtain ⟨spans, hframes, hdisjoint, hspans⟩ := ih q.length hlt hnext rfl
      refine ⟨⟨start, frame⟩ :: spans, by simp [Parsed.yield, hframes], ?_, ?_⟩
      · exact List.pairwise_cons.mpr ⟨fun p hp => hend.trans (hspans p hp).1, hdisjoint⟩
      · refine List.forall_mem_cons.mpr ⟨⟨hstart, hframed⟩, fun p hp => ?_⟩
        obtain ⟨hafter, hframed'⟩ := hspans p hp
        exact ⟨by omega, hframed'⟩
    · exact ⟨[], rfl, .nil, by simp⟩
    · exact ⟨[], rfl, .nil, by simp⟩

/-- **The frames are slices of the stream**, one after another, each where its part says. -/
theorem frames_are_slices (s : Bytes) :
    ∃ spans : List Span, (iterMjpegFrames s).frames = spans.map Span.frame ∧
      spans.Pairwise (fun p q => p.start + p.frame.length ≤ q.start) ∧ ∀ p ∈ spans, Framed s p := by
  have hstart : Positioned s [] none false s :=
    ⟨rfl, fun _ => ⟨rfl, rfl⟩, by simp, by simp⟩
  obtain ⟨spans, hframes, hdisjoint, hspans⟩ := hstart.frames
  exact ⟨spans, hframes, hdisjoint, fun p hp => (hspans p hp).2⟩

end FlashforgeObico
