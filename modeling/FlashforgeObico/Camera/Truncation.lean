import FlashforgeObico.Camera.Mjpeg

/-!
# A connection that is cut

What `iter_mjpeg_frames` yields on a stream that is cut at any byte is a prefix of what it yields on
the whole stream (`cut_invents_no_frame`). The two runs go on side by side: each of the functions
that read, if it gets through on the prefix, gets through on the whole stream with the same result,
and what is left of the prefix is a prefix of what is left of the stream. A cut inside a line can
only shorten the last line that is read, after which there is nothing left to read.
-/

namespace FlashforgeObico

open Py

/-- A boundary, which is stripped, does not end with a space. -/
def Trimmed (w : Bytes) : Prop := ∀ hne : w ≠ [], isSpaceByte (w.getLast hne) = false

theorem trimmed_stripBytes (l : Bytes) : Trimmed (stripBytes l) := by
  intro hne
  have hlast := List.rdropWhile_last_not isSpaceByte (l.dropWhile isSpaceByte) hne
  simpa [stripBytes_eq] using hlast

variable {p s : Bytes}

theorem readHeaders_nil (headers : Headers) : readHeaders headers [] = none :=
  readHeaders_rest List.not_mem_nil headers

theorem readHeaders_prefix {headers headers' : Headers} {q : Bytes} (h : p <+: s)
    (hp : readHeaders headers p = some (headers', q)) :
    ∃ r, readHeaders headers s = some (headers', r) ∧ q <+: r := by
  fun_induction readHeaders headers p generalizing s with
  | case1 headers p hnil => cases hp
  | case2 headers p hnil hblank =>
    cases hp
    rcases readline_prefix h with ⟨r, hr, hpr⟩ | ⟨hlast, -⟩
    · refine ⟨r, ?_, hpr⟩
      rw [readHeaders]
      simp [hr, hnil, hblank]
    · rw [readline_rest hlast] at hblank
      exact absurd hlast (by rcases hblank with rfl | rfl <;> decide)
  | case3 headers p hnil hblank hlt ih =>
    rcases readline_prefix h with ⟨r, hr, hpr⟩ | ⟨hlast, -⟩
    · obtain ⟨r', hr', hpr'⟩ := ih hpr hp
      refine ⟨r', ?_, hpr'⟩
      rw [readHeaders]
      simpa [hr, hnil, hblank] using hr'
    · rw [readline_rest hlast, readHeaders_nil] at hp
      cases hp

theorem readUntilBoundary_nil (boundary chunks : Bytes) :
    readUntilBoundary boundary chunks [] = none := by
  rw [readUntilBoundary]
  simp [readline]

theorem readUntilBoundary_prefix {boundary chunks body q : Bytes} (hboundary : Trimmed boundary)
    (h : p <+: s) (hp : readUntilBoundary boundary chunks p = some (body, q)) :
    ∃ r, readUntilBoundary boundary chunks s = some (body, r) ∧ q <+: r := by
  fun_induction readUntilBoundary boundary chunks p generalizing s with
  | case1 chunks p hnil => cases hp
  | case2 chunks p hnil hends =>
    cases hp
    rcases readline_prefix h with ⟨r, hr, hpr⟩ | ⟨hlast, hline⟩
    · refine ⟨r, ?_, hpr⟩
      rw [readUntilBoundary]
      simp [hr, hnil, hends]
    · -- the boundary line is cut, after the boundary
      rw [readline_rest hlast] at hnil hends ⊢
      have hne : (readline s).1 ≠ [] := fun hnone => hnil (List.prefix_nil.mp (hnone ▸ hline))
      refine ⟨(readline s).2, ?_, List.nil_prefix⟩
      rw [readUntilBoundary]
      simp [hne, prefix_stripBytes hboundary hends hline]
  | case3 chunks p hnil hends hmax => cases hp
  | case4 chunks p hnil hends hmax hlt ih =>
    rcases readline_prefix h with ⟨r, hr, hpr⟩ | ⟨hlast, -⟩
    · obtain ⟨r', hr', hpr'⟩ := ih hpr hp
      refine ⟨r', ?_, hpr'⟩
      rw [readUntilBoundary]
      simp only [hr, hnil, hends, if_false, dif_neg, not_false_eq_true]
      rwa [if_neg hmax]
    · rw [readline_rest hlast, readUntilBoundary_nil] at hp
      cases hp

/-- A boundary line is found in the whole stream too, unless the prefix ends in it. -/
theorem nextBoundary_prefix {boundary : Option Bytes} {boundary' q : Bytes} (h : p <+: s)
    (hp : nextBoundary boundary p = some (boundary', q)) :
    q = [] ∨ ∃ r, nextBoundary boundary s = some (boundary', r) ∧ q <+: r := by
  fun_induction nextBoundary boundary p generalizing s with
  | case1 p hnil => cases hp
  | case2 => cases hp
  | case3 p hnil stripped hdashes boundary' =>
    rename_i hclosing
    obtain ⟨hboundary, rfl⟩ := Prod.mk.inj (Option.some.inj hp)
    rcases readline_prefix h with ⟨r, hr, hpr⟩ | ⟨hlast, -⟩
    · refine .inr ⟨r, ?_, hpr⟩
      rw [nextBoundary]
      simp only [hr]
      rw [dif_neg hnil, if_pos hdashes, if_neg hclosing, ← hboundary]
    · exact .inl (by rw [readline_rest hlast])
  | case4 p hnil stripped hdashes hlt =>
    rename_i ih
    rcases readline_prefix h with ⟨r, hr, hpr⟩ | ⟨hlast, -⟩
    · rcases ih hpr hp with hq | ⟨r', hr', hpr'⟩
      · exact .inl hq
      · refine .inr ⟨r', ?_, hpr'⟩
        rw [nextBoundary]
        simp only [hr]
        rw [dif_neg hnil, if_neg hdashes, hr']
    · rw [readline_rest hlast, nextBoundary] at hp
      simp [readline] at hp

theorem readExact_prefix {length : ℕ} {body q : Bytes} (h : p <+: s)
    (hp : readExact p length = some (body, q)) :
    ∃ r, readExact s length = some (body, r) ∧ q <+: r := by
  unfold readExact at hp ⊢
  split_ifs at hp with hlength
  cases hp
  have htake : s.take length = p.take length := by
    obtain ⟨t, rfl⟩ := h
    rw [List.take_append_of_le_length]
    simpa using hlength
  rw [htake, if_pos hlength]
  exact ⟨_, rfl, h.drop length⟩

theorem readBody_prefix {boundary frame q : Bytes} {headers : Headers} {atBoundary : Bool}
    (hboundary : Trimmed boundary) (h : p <+: s)
    (hp : readBody boundary headers p = .ok (some (frame, atBoundary, q))) :
    ∃ r, readBody boundary headers s = .ok (some (frame, atBoundary, r)) ∧ q <+: r := by
  unfold readBody at hp ⊢
  split_ifs at hp ⊢ with hdigits
  · rcases hn : int? headers.contentLength with _ | n <;> simp only [hn] at hp ⊢
    · cases hp
    · split_ifs at hp ⊢
      · cases hp
      · simp only [Except.ok.injEq, Option.map_eq_some_iff, Prod.mk.injEq] at hp
        obtain ⟨⟨body, q⟩, hexact, rfl, rfl, rfl⟩ := hp
        obtain ⟨r, hr, hqr⟩ := readExact_prefix h hexact
        exact ⟨r, by rw [hr]; rfl, hqr⟩
  · simp only [Except.ok.injEq, Option.map_eq_some_iff, Prod.mk.injEq] at hp
    obtain ⟨⟨body, q⟩, huntil, rfl, rfl, rfl⟩ := hp
    obtain ⟨r, hr, hqr⟩ := readUntilBoundary_prefix hboundary h huntil
    exact ⟨r, by rw [hr]; rfl, hqr⟩

/-! ## The parser -/

theorem trimmed_nextBoundary {boundary : Option Bytes} {boundary' q : Bytes}
    (hboundary : ∀ b ∈ boundary, Trimmed b) (hp : nextBoundary boundary p = some (boundary', q)) :
    Trimmed boundary' := by
  fun_induction nextBoundary boundary p with
  | case1 => cases hp
  | case2 => cases hp
  | case3 p hnil stripped hdashes boundary'' hclosing =>
    obtain ⟨rfl, -⟩ := Prod.mk.inj (Option.some.inj hp)
    rcases boundary with _ | b
    · exact trimmed_stripBytes _
    · exact hboundary b rfl
  | case4 p hnil stripped hdashes hlt ih => exact ih hp

theorem nextHeaders_prefix {boundary : Option Bytes} {atBoundary : Bool} {boundary' q : Bytes}
    {headers : Headers} (hboundary : ∀ b ∈ boundary, Trimmed b) (h : p <+: s)
    (hp : nextHeaders boundary atBoundary p = some (boundary', headers, q)) :
    Trimmed boundary' ∧
      ∃ r, nextHeaders boundary atBoundary s = some (boundary', headers, r) ∧ q <+: r := by
  obtain ⟨p', hstart, hheaders⟩ := nextHeaders_eq_some_iff.mp hp
  have hstart' : Trimmed boundary' ∧
      ∃ s', startPart boundary atBoundary s = some (boundary', s') ∧ p' <+: s' := by
    unfold startPart at hstart ⊢
    split_ifs at hstart ⊢ with hat
    · obtain ⟨rfl, rfl⟩ := Prod.mk.inj (Option.some.inj hstart)
      refine ⟨?_, s, rfl, h⟩
      rcases boundary with _ | b
      · exact fun hne => absurd rfl hne
      · exact hboundary b rfl
    · refine ⟨trimmed_nextBoundary hboundary hstart, ?_⟩
      rcases nextBoundary_prefix h hstart with rfl | hs
      · rw [readHeaders_nil] at hheaders
        cases hheaders
      · exact hs
  obtain ⟨htrimmed, s', hs', hps'⟩ := hstart'
  obtain ⟨r, hr, hqr⟩ := readHeaders_prefix hps' hheaders
  exact ⟨htrimmed, r, nextHeaders_eq_some_iff.mpr ⟨s', hs', hr⟩, hqr⟩

/-- A frame of the prefix is one of the stream. -/
theorem readPart_prefix {boundary : Option Bytes} {atBoundary atBoundary' : Bool}
    {boundary' frame q : Bytes} (hboundary : ∀ b ∈ boundary, Trimmed b) (h : p <+: s)
    (hp : readPart boundary atBoundary p = .frame boundary' frame atBoundary' q) :
    Trimmed boundary' ∧
      ∃ r, readPart boundary atBoundary s = .frame boundary' frame atBoundary' r ∧ q <+: r := by
  obtain ⟨headers, p', hheaders, hbody⟩ := readPart_eq_frame_iff.mp hp
  obtain ⟨htrimmed, s', hs', hps'⟩ := nextHeaders_prefix hboundary h hheaders
  obtain ⟨r, hr, hqr⟩ := readBody_prefix htrimmed hps' hbody
  exact ⟨htrimmed, r, readPart_eq_frame_iff.mpr ⟨headers, s', hs', hr⟩, hqr⟩

/-- The two runs of the loop, from a round on. -/
theorem iterFrames_prefix {boundary : Option Bytes} {atBoundary : Bool}
    (hboundary : ∀ b ∈ boundary, Trimmed b) (h : p <+: s) :
    (iterFrames boundary atBoundary p).frames <+: (iterFrames boundary atBoundary s).frames := by
  induction hn : p.length using Nat.strongRecOn generalizing boundary atBoundary p s with
  | ind n ih =>
    rw [iterFrames_eq]
    rcases hp : readPart boundary atBoundary p with ⟨boundary', frame, atBoundary', q⟩ | _ | e
    · obtain ⟨htrimmed, r, hr, hqr⟩ := readPart_prefix hboundary h hp
      have hlt : q.length < n := hn ▸ length_readPart_lt hp
      have hboundary' : ∀ b ∈ some boundary', Trimmed b := by simpa using htrimmed
      have hrest : (iterFrames (some boundary') atBoundary' q).frames <+:
          (iterFrames (some boundary') atBoundary' r).frames := ih q.length hlt hboundary' hqr rfl
      rw [iterFrames_eq _ _ s, hr]
      exact List.cons_prefix_cons.mpr ⟨rfl, hrest⟩
    · exact List.nil_prefix
    · exact List.nil_prefix

/-- **A connection that is cut at any byte invents no frame.** -/
theorem cut_invents_no_frame (p s : Bytes) (h : p <+: s) :
    (iterMjpegFrames p).frames <+: (iterMjpegFrames s).frames :=
  iterFrames_prefix (by simp) h

/-- A cut inside the line that ends a body leaves the frame, if it is after the boundary. -/
theorem frame_before_cut_line_stays :
    [ascii "x".toList] <+:
      (iterMjpegFrames (ascii "--b\r\n\r\nx\r\n--body\r\n".toList)).frames := by
  have hcut : (iterMjpegFrames (ascii "--b\r\n\r\nx\r\n--bo".toList)).frames =
      [ascii "x".toList] := by decide +kernel
  rw [← hcut]
  exact cut_invents_no_frame _ _ (by decide)

end FlashforgeObico
