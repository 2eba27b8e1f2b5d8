import FlashforgeObico.Foundations.Transition
import FlashforgeObico.Camera.Mjpeg

/-!
# The rounds of the parser

The loop of `iter_mjpeg_frames` goes round once for each frame that it yields. A round takes at
least a line off the stream (`rounds_bounded`), so that there are finitely many. The last one
returns, unless `int` refuses the length that the headers of its part declare: `isdigit` lets
superscripts and numerals of any length pass. `returns_iff` says that the parser has no other way to
raise.
-/

namespace FlashforgeObico

open Py Transition

/-- `isdigit` holds of a length and `int` raises on it: it has a superscript, or too many digits. -/
structure RefusedLength (length : List Char) : Prop where
  isDigit : isDigitText length = true
  refused : (∃ c ∈ length, c ∈ superscripts) ∨ maxStrDigits < length.length

/-- The state of the loop at the start of a round. -/
structure Round where
  boundary : Option Bytes := none
  atBoundary : Bool := false
  rest : Bytes

namespace Round

/-- What the round does. -/
def part (r : Round) : Part := readPart r.boundary r.atBoundary r.rest

/-- The frame that the round yields, and the next round. -/
def next? (r : Round) : Option (Bytes × Round) :=
  match r.part with
  | .frame boundary frame atBoundary rest => some (frame, ⟨some boundary, atBoundary, rest⟩)
  | _ => none

/-- The round yields a frame, and the next one comes after it. -/
def Yields (r : Round) (frame : Bytes) (r' : Round) : Prop := r.next? = some (frame, r')

/-- What the generator does from the round on. -/
def parsed (r : Round) : Parsed := iterFrames r.boundary r.atBoundary r.rest

/-- The parser returns in the round. -/
def Returns (r : Round) : Prop := r.part = .returned

/-- The headers that are read in the round. -/
def headers? (r : Round) : Option Headers :=
  (nextHeaders r.boundary r.atBoundary r.rest).map fun p => p.2.1

/-- The headers that are read in the round declare a length that is refused. -/
def Refused (r : Round) : Prop := ∃ headers ∈ r.headers?, RefusedLength headers.contentLength

end Round

/-! ## One round -/

theorem readBody_error_iff (boundary s : Bytes) {headers : Headers} :
    (∃ e, readBody boundary headers s = .error e) ↔ RefusedLength headers.contentLength := by
  unfold readBody
  split_ifs with hdigits
  · have hrefused := int?_eq_none_iff_of_isDigitText hdigits
    rcases hn : int? headers.contentLength with _ | n
    · rw [hn] at hrefused
      exact iff_of_true ⟨_, rfl⟩ ⟨hdigits, hrefused.mp rfl⟩
    · rw [hn] at hrefused
      refine iff_of_false ?_ fun h => nomatch hrefused.mpr h.refused
      dsimp only
      split_ifs <;> simp
  · exact iff_of_false (fun ⟨e, he⟩ => nomatch he) fun h => hdigits h.isDigit

namespace Round

variable {r r' : Round} {frame : Bytes}

/-- A round raises exactly on a refused length. -/
theorem part_raised_iff : (∃ e, r.part = .raised e) ↔ r.Refused := by
  rw [part, readPart_eq, Refused, headers?]
  rcases nextHeaders r.boundary r.atBoundary r.rest with _ | ⟨b, headers, s⟩
  · simp
  · simp only [Option.map_some, Option.mem_def, Option.some.injEq, exists_eq_left',
      ← readBody_error_iff b s]
    rcases readBody b headers s with e | _ | ⟨f, a, rest⟩ <;> simp

/-- What the generator does from a round that yields on. -/
theorem Yields.parsed_eq (h : r.Yields frame r') : r.parsed = r'.parsed.yield frame := by
  unfold Yields next? part at h
  rw [parsed, iterFrames_eq]
  split at h
  · rename_i hpart
    cases h
    rw [hpart]
    rfl
  · cases h

theorem Returns.parsed_eq (h : r.Returns) : r.parsed = {} := by
  rw [parsed, iterFrames_eq]
  unfold Returns part at h
  rw [h]

theorem Refused.parsed_eq (h : r.Refused) : ∃ e, r.parsed = { raised := some e } := by
  obtain ⟨e, he⟩ := part_raised_iff.mpr h
  refine ⟨e, ?_⟩
  rw [parsed, iterFrames_eq]
  unfold part at he
  rw [he]

/-- A round yields, returns or raises. -/
theorem yields_or_returns_or_refused (r : Round) :
    (∃ frame r', r.Yields frame r') ∨ r.Returns ∨ r.Refused := by
  rcases hpart : r.part with ⟨boundary, frame, atBoundary, rest⟩ | _ | e
  · exact .inl ⟨frame, ⟨some boundary, atBoundary, rest⟩, by simp [Yields, next?, hpart]⟩
  · exact .inr (.inl hpart)
  · exact .inr (.inr (part_raised_iff.mp ⟨e, hpart⟩))

theorem Yields.length_lt (h : r.Yields frame r') : r'.rest.length < r.rest.length := by
  unfold Yields next? at h
  split at h
  · rename_i hpart
    cases h
    exact length_readPart_lt hpart
  · cases h

/-- The parser goes round at most once for each byte of the stream. -/
theorem rounds_bounded {frames : List Bytes} (h : Run Yields r frames r') :
    frames.length + r'.rest.length ≤ r.rest.length := by
  refine h.history (I := fun frames r' => frames.length + r'.rest.length ≤ r.rest.length)
    (by simp) fun frames r' frame r'' hr' hyields => ?_
  have hlt := hyields.length_lt
  rw [List.length_append, List.length_singleton]
  omega

/-! ## The loop -/

/-- From a round on, the generator yields some frames and then returns. -/
def ReturnsWith (r : Round) (frames : List Bytes) : Prop :=
  r.parsed = { frames } ∧ ∃ r', Run Yields r frames r' ∧ r'.Returns

/-- The rounds that the parser comes to are the first one, and those after it. -/
theorem run_cases {frames : List Bytes} (h : Run Yields r frames r') :
    r' = r ∨ ∃ frame t frames', r.Yields frame t ∧ frames = frame :: frames' ∧
      Run Yields t frames' r' := by
  rcases h.cases_head with ⟨-, rfl⟩ | ⟨frame, frames', t, rfl, hfirst, hrest⟩
  · exact .inl rfl
  · exact .inr ⟨frame, t, frames', hfirst, rfl, hrest⟩

theorem Returns.returnsWith (h : r.Returns) : r.ReturnsWith [] :=
  ⟨h.parsed_eq, r, .nil, h⟩

theorem Yields.returnsWith {frames : List Bytes} (h : r.Yields frame r')
    (h' : r'.ReturnsWith frames) : r.ReturnsWith (frame :: frames) := by
  obtain ⟨hparsed, r'', hrun, hreturns⟩ := h'
  refine ⟨?_, r'', hrun.cons h, hreturns⟩
  rw [h.parsed_eq, hparsed]
  rfl

/-- From a round on, the parser returns, or it comes to a refused length. -/
theorem returnsWith_or_refused (r : Round) :
    (∃ frames, r.ReturnsWith frames) ∨ ∃ frames r', Run Yields r frames r' ∧ r'.Refused := by
  induction hn : r.rest.length using Nat.strongRecOn generalizing r with
  | ind n ih =>
    rcases r.yields_or_returns_or_refused with ⟨frame, t, hyields⟩ | hreturns | hrefused
    · have hlt := hyields.length_lt
      rcases ih t.rest.length (hn ▸ hlt) t rfl with ⟨frames, h⟩ | ⟨frames, r', hrun, hrefused⟩
      · exact .inl ⟨frame :: frames, hyields.returnsWith h⟩
      · exact .inr ⟨frame :: frames, r', hrun.cons hyields, hrefused⟩
    · exact .inl ⟨[], hreturns.returnsWith⟩
    · exact .inr ⟨[], r, .nil, hrefused⟩

/-- Where the parser raises at the end of a run, it does so from the beginning on. -/
theorem raised_of_run {frames : List Bytes} (h : Run Yields r frames r') (hr' : r'.Refused) :
    r.parsed.raised ≠ none := by
  induction frames generalizing r with
  | nil =>
    rcases run_cases h with rfl | ⟨_, _, _, _, hnil, _⟩
    · obtain ⟨e, he⟩ := hr'.parsed_eq
      simp [he]
    · cases hnil
  | cons frame frames ih =>
    rcases h.cases_head with ⟨hnil, -⟩ | ⟨_, _, t, hcons, hfirst, hrest⟩
    · cases hnil
    · cases hcons
      rw [hfirst.parsed_eq]
      exact ih hrest

/-- From a round on, the parser returns exactly when it comes to no refused length. -/
theorem returnsWith_iff (r : Round) :
    (∃ frames, r.ReturnsWith frames) ↔ ∀ frames r', Run Yields r frames r' → ¬ r'.Refused := by
  constructor
  · rintro ⟨frames, hparsed, -⟩ frames' r' hrun hrefused
    refine raised_of_run hrun hrefused ?_
    rw [hparsed]
  · intro h
    rcases r.returnsWith_or_refused with hreturns | ⟨frames, r', hrun, hrefused⟩
    · exact hreturns
    · exact absurd hrefused (h frames r' hrun)

end Round

/-- **When the parser returns**, after finitely many rounds. -/
theorem returns_iff (s : Bytes) :
    (∃ frames, Round.ReturnsWith { rest := s } frames) ↔
      ∀ frames r, Run Round.Yields { rest := s } frames r → ¬ r.Refused :=
  Round.returnsWith_iff _

/-- A part that declares a length of one superscript digit, and that the stream ends after. -/
def superscriptPart : Bytes :=
  ascii "--b\r\nContent-Length: ".toList ++ [0xb2] ++ ascii "\r\n\r\n".toList

/-- Some bytes make the parser raise. -/
theorem raises_on_superscript :
    ¬ ∃ frames, Round.ReturnsWith { rest := superscriptPart } frames := by
  rintro ⟨frames, hparsed, -⟩
  have hraised : (iterMjpegFrames superscriptPart).raised = some .valueError := by decide +kernel
  rw [show iterMjpegFrames superscriptPart = { frames } from hparsed] at hraised
  cases hraised

end FlashforgeObico
