import FlashforgeObico.Foundations.PythonText
import Mathlib.Data.List.DropRight

/-!
# Python's bytes and binary streams

The methods of `bytes`, the codecs for ASCII and Latin-1, and binary streams. A stream is the list
of the bytes that are left of it: `readline` takes a line with its newline off, or the rest of a
stream that has no newline, and returns no byte at the end of the stream only.
-/

namespace Py

/-- The values of type `bytes`, and the streams of bytes. -/
abbrev Bytes := List UInt8

/-- The byte of a newline. -/
def newline : UInt8 := 10

/-! ## Streams -/

/-- `stream.readline()`, with what is left of the stream. -/
def readline : Bytes → Bytes × Bytes
  | [] => ([], [])
  | b :: s => if b = newline then ([b], s) else (b :: (readline s).1, (readline s).2)

theorem readline_append (s : Bytes) : (readline s).1 ++ (readline s).2 = s := by
  induction s with
  | nil => rfl
  | cons b s ih =>
    rw [readline]
    split_ifs
    · rfl
    · rw [List.cons_append, ih]

theorem length_readline_lt {s : Bytes} (h : (readline s).1 ≠ []) :
    (readline s).2.length < s.length := by
  have hlength := congrArg List.length (readline_append s)
  have hpos := List.length_pos_iff.mpr h
  rw [List.length_append] at hlength
  omega

/-- A line that ends with a newline is read as it is. -/
theorem readline_line {l : Bytes} (h : newline ∉ l) (s : Bytes) :
    readline (l ++ newline :: s) = (l ++ [newline], s) := by
  induction l with
  | nil => simp [readline]
  | cons b l ih =>
    have hb : b ≠ newline := fun hb => h (hb ▸ List.mem_cons_self)
    rw [List.cons_append, readline, if_neg hb, ih fun hl => h (List.mem_cons_of_mem _ hl)]
    rfl

/-- A stream without a newline is one line. -/
theorem readline_rest {l : Bytes} (h : newline ∉ l) : readline l = (l, []) := by
  induction l with
  | nil => rfl
  | cons b l ih =>
    have hb : b ≠ newline := fun hb => h (hb ▸ List.mem_cons_self)
    rw [readline, if_neg hb, ih fun hl => h (List.mem_cons_of_mem _ hl)]

/-- The first line of a prefix of a stream is that of the stream, or the prefix ends in it. -/
theorem readline_prefix {p s : Bytes} (h : p <+: s) :
    (∃ r, readline s = ((readline p).1, r) ∧ (readline p).2 <+: r) ∨
      (newline ∉ p ∧ p <+: (readline s).1) := by
  induction p generalizing s with
  | nil => exact .inr ⟨by simp, List.nil_prefix⟩
  | cons b p ih =>
    obtain ⟨t, rfl⟩ := h
    rw [List.cons_append, readline, readline]
    split_ifs with hb
    · exact .inl ⟨p ++ t, rfl, List.prefix_append p t⟩
    · rcases ih (List.prefix_append p t) with ⟨r, hr, hpr⟩ | ⟨hrest, hline⟩
      · exact .inl ⟨r, by rw [hr], hpr⟩
      · exact .inr ⟨by simp [hrest, Ne.symm hb], List.cons_prefix_cons.mpr ⟨rfl, hline⟩⟩

/-- A line with its newline. -/
def IsLine (l : Bytes) : Prop := ∃ w, newline ∉ w ∧ l = w ++ [newline]

/-- What is read before the end of a stream is a line. -/
theorem isLine_readline {s : Bytes} (h : (readline s).2 ≠ []) : IsLine (readline s).1 := by
  induction s with
  | nil => exact absurd rfl h
  | cons b s ih =>
    rw [readline] at h ⊢
    split_ifs at h ⊢ with hb
    · exact ⟨[], List.not_mem_nil, by rw [hb]; rfl⟩
    · obtain ⟨w, hw, hl⟩ := ih h
      refine ⟨b :: w, ?_, congrArg (List.cons b) hl⟩
      exact List.not_mem_cons_of_ne_of_not_mem (Ne.symm hb) hw

/-- The stream `s` begins with lines that do not satisfy `stop` and then one that does, and `rest`
is left of it. Only the last of the lines may be without a newline, at the end of the stream. -/
structure Skips (stop : Bytes → Prop) (s : Bytes) (lines : List Bytes) (line rest : Bytes) :
    Prop where
  eq : s = lines.flatten ++ (line ++ rest)
  skipped : ∀ l ∈ lines, IsLine l ∧ ¬ stop l
  stop : stop line
  whole : rest = [] ∨ IsLine line

namespace Skips

variable {stop : Bytes → Prop} {s line rest : Bytes} {lines : List Bytes}

theorem nil (h : stop (readline s).1) : Skips stop s [] (readline s).1 (readline s).2 where
  eq := (readline_append s).symm
  skipped := by simp
  stop := h
  whole := or_iff_not_imp_left.mpr isLine_readline

theorem cons (hline : ¬ stop (readline s).1) (hrest : (readline s).2 ≠ [])
    (h : Skips stop (readline s).2 lines line rest) :
    Skips stop s ((readline s).1 :: lines) line rest where
  eq := by
    rw [List.flatten_cons, List.append_assoc, ← h.eq, readline_append]
  skipped := List.forall_mem_cons.mpr ⟨⟨isLine_readline hrest, hline⟩, h.skipped⟩
  stop := h.stop
  whole := h.whole

end Skips

/-! ## Methods of `bytes` -/

/-- The bytes that `bytes.strip` removes. -/
def isSpaceByte (b : UInt8) : Bool := b = 32 ∨ 9 ≤ b ∧ b ≤ 13

/-- `bs.strip()`. -/
def stripBytes (bs : Bytes) : Bytes :=
  ((bs.dropWhile isSpaceByte).reverse.dropWhile isSpaceByte).reverse

/-- `bs.strip()` drops spaces at the beginning and then at the end. -/
theorem stripBytes_eq (bs : Bytes) :
    stripBytes bs = (bs.dropWhile isSpaceByte).rdropWhile isSpaceByte := rfl

/-- Spaces at the end do not count. -/
theorem stripBytes_append {t : Bytes} (ht : ∀ b ∈ t, isSpaceByte b = true) (l : Bytes) :
    stripBytes (l ++ t) = stripBytes l := by
  have hend (m : Bytes) : (m ++ t).rdropWhile isSpaceByte = m.rdropWhile isSpaceByte := by
    rw [List.rdropWhile, List.reverse_append, List.dropWhile_append_of_pos (by simpa using ht),
      List.rdropWhile]
  have hdrop : t.dropWhile isSpaceByte = [] := List.dropWhile_eq_nil_iff.mpr ht
  rw [stripBytes_eq, List.dropWhile_append]
  split_ifs with hempty
  · rw [hdrop, stripBytes_eq, List.isEmpty_iff.mp hempty]
  · rw [hend, stripBytes_eq]

theorem stripBytes_of_not_space {l : Bytes} (hl : ∀ b ∈ l, isSpaceByte b = false) :
    stripBytes l = l := by
  have hkeep (m : Bytes) (hm : ∀ b ∈ m, isSpaceByte b = false) : m.dropWhile isSpaceByte = m := by
    rcases m with _ | ⟨b, m⟩
    · rfl
    · simp [hm b List.mem_cons_self]
  rw [stripBytes, hkeep l hl, hkeep _ (by simpa using hl), List.reverse_reverse]

/-- A word stays at the beginning of a line that goes on. -/
theorem prefix_stripBytes {w l m : Bytes} (hw : ∀ hne : w ≠ [], isSpaceByte (w.getLast hne) = false)
    (h : w <+: stripBytes l) (hlm : l <+: m) : w <+: stripBytes m := by
  by_cases hne : w = []
  · exact hne ▸ List.nil_prefix
  obtain ⟨t, rfl⟩ := hlm
  have hl : w <+: l.dropWhile isSpaceByte := h.trans (List.rdropWhile_prefix isSpaceByte _)
  have hstarts : (l.dropWhile isSpaceByte).isEmpty = false := by
    rw [List.isEmpty_eq_false_iff]
    exact fun hnil => hne (List.prefix_nil.mp (hnil ▸ hl))
  obtain ⟨u, hu⟩ := hl.trans (List.prefix_append _ t)
  have hkept : w.rdropWhile isSpaceByte = w := by
    rw [List.rdropWhile_eq_self_iff]
    exact fun hne => by simp [hw hne]
  rw [stripBytes_eq, List.dropWhile_append, hstarts, if_neg (by simp), ← hu, List.rdropWhile,
    List.reverse_append, List.dropWhile_append]
  split_ifs
  · rw [← List.rdropWhile, hkept]
  · simp

/-! ## Codecs -/

/-- `bs.decode("latin-1")`. -/
def latin1 (bs : Bytes) : List Char := bs.map fun b => Char.ofNat b.toNat

/-- `s.encode()`, of ASCII characters. -/
def ascii (cs : List Char) : Bytes := cs.map fun c => UInt8.ofNat c.toNat

theorem latin1_ascii {cs : List Char} (h : ∀ c ∈ cs, c.toNat < 128) : latin1 (ascii cs) = cs := by
  rw [latin1, ascii, List.map_map]
  refine (List.map_congr_left fun c hc => ?_).trans (List.map_id cs)
  have hc' : c.toNat % 256 = c.toNat := Nat.mod_eq_of_lt ((h c hc).trans (by decide))
  simp [hc', Char.ofNat_toNat]

/-- `s.isdigit()`, of Latin-1 characters: the decimal digits and three superscripts. -/
def isDigitText (cs : List Char) : Bool :=
  cs ≠ [] && cs.all fun c => (digit? c).isSome || c = '²' || c = '³' || c = '¹'

/-- The digits of Latin-1 that are no decimal digits. -/
def superscripts : List Char := ['²', '³', '¹']

/-- A text of digits has no sign. -/
theorem minus_not_mem_of_isDigitText {cs : List Char} (h : isDigitText cs = true) : '-' ∉ cs := by
  intro hmem
  have hall : ∀ c ∈ cs, (digit? c).isSome || c = '²' || c = '³' || c = '¹' := by
    simp only [isDigitText, Bool.and_eq_true, List.all_eq_true] at h
    exact h.2
  exact absurd (hall '-' hmem) (by decide)

/-- `int` refuses a text of digits when one of them is a superscript, or when there are too many. -/
theorem int?_eq_none_iff_of_isDigitText {cs : List Char} (h : isDigitText cs = true) :
    int? cs = none ↔ (∃ c ∈ cs, c ∈ superscripts) ∨ maxStrDigits < cs.length := by
  obtain ⟨hne, hall⟩ : cs ≠ [] ∧ ∀ c ∈ cs, (digit? c).isSome ∨ c ∈ superscripts := by
    simpa [isDigitText, superscripts, or_assoc] using h
  have hnone : ∀ c ∈ superscripts, digit? c = none := by
    intro c hc
    simp only [superscripts, List.mem_cons, List.not_mem_nil, or_false] at hc
    rcases hc with rfl | rfl | rfl <;> rfl
  have hmem : ∀ c, digit? c = none → c ∉ superscripts → c ∉ cs := by
    intro c hc hs hmem
    rcases hall c hmem with hd | hd
    · simp [hc] at hd
    · exact hs hd
  rw [int?_eq_none_iff hne (hmem _ (by decide) (by decide)) (hmem _ (by decide) (by decide))
    (hmem _ (by decide) (by decide))]
  refine or_congr_left (exists_congr fun c => and_congr_right fun hc => ⟨fun hd => ?_, hnone c⟩)
  by_contra hs
  exact hmem c hd hs hc

end Py
