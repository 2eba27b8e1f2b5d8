import FlashforgeObico.Foundations.Binary64

/-!
# Python's text functions and numerals

The methods of `str` and the conversions `int(s, 10)` and `float(s)` of the language reference:
white space and decimal digits are the Unicode ones, an underscore may stand between two digits, and
`int` refuses more than `maxStrDigits` digits. A conversion that raises `ValueError` is `none`.
-/

namespace Py

/-! ## Methods of `str` -/

/-- The characters for which `str.isspace` holds. -/
def spaces : List ℕ :=
  [0x9, 0xa, 0xb, 0xc, 0xd, 0x1c, 0x1d, 0x1e, 0x1f, 0x20, 0x85, 0xa0, 0x1680, 0x2000,
    0x2001, 0x2002,
    0x2003, 0x2004, 0x2005, 0x2006, 0x2007, 0x2008, 0x2009, 0x200a, 0x2028, 0x2029, 0x202f, 0x205f,
    0x3000]

def isSpace (c : Char) : Bool := spaces.contains c.toNat

/-- `s.strip()`, on the characters of `s`. -/
def strip (cs : List Char) : List Char :=
  ((cs.dropWhile isSpace).reverse.dropWhile isSpace).reverse

/-- `c.lower()`, for the characters whose lowercase form is ASCII: the capitals and the Kelvin sign.
The others are left alone, which is enough to compare the result with a lowercase ASCII word. -/
def lowerChar (c : Char) : Char := if c.toNat = 0x212a then 'k' else c.toLower

def lower (cs : List Char) : List Char := cs.map lowerChar

/-! ## Numerals -/

/-- The zeros of the Unicode decimal digits; the digits one to nine follow each. -/
def zeros : List ℕ :=
  [48, 1632, 1776, 1984, 2406, 2534, 2662, 2790, 2918, 3046, 3174, 3302, 3430, 3558, 3664,
    3792, 3872, 4160, 4240, 6112, 6160, 6470, 6608, 6784, 6800, 6992, 7088, 7232, 7248, 42528,
    43216, 43264, 43472, 43504, 43600, 44016, 65296, 66720, 68912, 69734, 69872, 69942, 70096,
    70384, 70736, 70864, 71248, 71360, 71472, 71904, 72016, 72784, 73040, 73120, 73552, 92768,
    92864, 93008, 120782, 120792, 120802, 120812, 120822, 123200, 123632, 124144, 125264, 130032]

/-- The value of a decimal digit. -/
def digit? (c : Char) : Option ℕ :=
  (zeros.find? fun z => z ≤ c.toNat && c.toNat < z + 10).map (c.toNat - ·)

/-- Drop the underscores of a numeral, each of which must stand between two digits. `after` says
whether the character before was a digit. -/
def dropUnderscores (after : Bool) : List Char → Option (List Char)
  | [] => some []
  | c :: cs =>
    if c = '_' then
      if after && cs.head?.any (fun d => (digit? d).isSome) then dropUnderscores false cs else none
    else (dropUnderscores (digit? c).isSome cs).map (c :: ·)

/-- The number that a list of decimal digits writes. -/
def ofDigits (ds : List ℕ) : ℕ := ds.foldl (fun n d => 10 * n + d) 0

/-- Split an optional sign off; the flag is set for a minus. -/
def splitSign : List Char → Bool × List Char
  | '-' :: cs => (true, cs)
  | '+' :: cs => (false, cs)
  | cs => (false, cs)

/-- Split the leading digits off. -/
def splitDigits : List Char → List ℕ × List Char
  | [] => ([], [])
  | c :: cs =>
    match digit? c with
    | some d => (d :: (splitDigits cs).1, (splitDigits cs).2)
    | none => ([], c :: cs)

/-- `sys.int_info.default_max_str_digits`. -/
def maxStrDigits : ℕ := 4300

/-- `int(s, 10)`, for a stripped `s`. -/
def int? (cs : List Char) : Option ℤ := do
  let (negative, cs) := splitSign cs
  let ds ← (← dropUnderscores false cs).mapM digit?
  if ds = [] ∨ maxStrDigits < ds.length then none
  else if negative then some (-ofDigits ds) else some (ofDigits ds)

/-- The exponent of a floating-point numeral: nothing, or `e` and a signed integer. -/
def exponent? : List Char → Option ℤ
  | [] => some 0
  | c :: cs => do
    if c ≠ 'e' ∧ c ≠ 'E' then none
    else
      let (negative, cs) := splitSign cs
      let ds ← cs.mapM digit?
      if ds = [] then none else if negative then some (-ofDigits ds) else some (ofDigits ds)

/-- The value of a decimal floating-point numeral without its sign. -/
def decimal? (cs : List Char) : Option ℚ := do
  let (whole, rest) := splitDigits cs
  let (fraction, rest) := match rest with
    | '.' :: cs => splitDigits cs
    | _ => ([], rest)
  let e ← exponent? rest
  if whole = [] ∧ fraction = [] then none
  else some (ofDigits (whole ++ fraction) * (10 : ℚ) ^ (e - fraction.length))

/-- `float(s)`, for a stripped `s`. A decimal beyond the range of the format is an infinity. -/
def float? (cs : List Char) : Option Double := do
  let (negative, cs) := splitSign (← dropUnderscores false cs)
  let word := String.ofList (cs.map Char.toLower)
  if word = "inf" ∨ word = "infinity" then some (.inf negative)
  else if word = "nan" then some .nan
  else
    let q ← decimal? cs
    some (.round64 (if negative then -q else q))

theorem dropWhile_isSpace_append {cs : List Char} (hne : cs ≠ [])
    (hcs : ∀ c ∈ cs, isSpace c = false)
    (rest : List Char) : (cs ++ rest).dropWhile isSpace = cs ++ rest := by
  rcases cs with _ | ⟨c, cs⟩
  · exact absurd rfl hne
  · simp [hcs c List.mem_cons_self]

/-- `strip` removes the spaces around a word. -/
theorem strip_append {cs before after : List Char} (hne : cs ≠ [])
    (hcs : ∀ c ∈ cs, isSpace c = false)
    (hbefore : ∀ c ∈ before, isSpace c) (hafter : ∀ c ∈ after, isSpace c) :
    strip (before ++ cs ++ after) = cs := by
  have hreverse : (cs.reverse ++ []).dropWhile isSpace = cs.reverse ++ [] :=
    dropWhile_isSpace_append (by simpa using hne) (by simpa using hcs) []
  rw [strip, List.append_assoc, List.dropWhile_append_of_pos hbefore,
    dropWhile_isSpace_append hne hcs, List.reverse_append,
    List.dropWhile_append_of_pos (by simpa using hafter)]
  simpa using congrArg List.reverse hreverse

/-! ## The numerals that `str` writes -/

theorem digit?_digitChar {d : ℕ} (h : d < 10) : digit? (Nat.digitChar d) = some d := by
  have hall : ∀ d : Fin 10, digit? (Nat.digitChar d) = some d.val := by decide
  exact hall ⟨d, h⟩

theorem isSpace_of_isDigit {c : Char} (h : c.isDigit) : isSpace c = false := by
  have hrange : 48 ≤ c.toNat ∧ c.toNat ≤ 57 := by
    simpa [Char.isDigit, UInt32.le_iff_toNat_le] using h
  simp only [isSpace, spaces, List.contains_eq_mem, List.mem_cons, List.not_mem_nil, or_false,
    decide_eq_false_iff_not]
  omega

theorem isSome_digit?_of_isDigit {c : Char} (h : c.isDigit) : (digit? c).isSome := by
  have hrange : 48 ≤ c.toNat ∧ c.toNat ≤ 57 := by
    simpa [Char.isDigit, UInt32.le_iff_toNat_le] using h
  have hfind : (decide (48 ≤ c.toNat) && decide (c.toNat < 48 + 10)) = true := by
    simp only [Bool.and_eq_true, decide_eq_true_eq]
    omega
  simp only [digit?, zeros, List.find?_cons, hfind, Option.map_some, Option.isSome_some]

theorem ofDigits_concat (ds : List ℕ) (d : ℕ) : ofDigits (ds ++ [d]) = 10 * ofDigits ds + d := by
  simp [ofDigits]

theorem mapM_digit?_toDigits (n : ℕ) : ∃ ds, (Nat.toDigits 10 n).mapM digit? = some ds ∧
    ofDigits ds = n ∧ ds.length = (Nat.toDigits 10 n).length := by
  induction n using Nat.strongRecOn with
  | ind n ih =>
    rw [Nat.toDigits_eq_if (by decide)]
    split_ifs with h
    · exact ⟨[n], by simp [digit?_digitChar h], by simp [ofDigits], rfl⟩
    · obtain ⟨ds, hds, hn, hlength⟩ := ih (n / 10) (by omega)
      have hlast := digit?_digitChar (Nat.mod_lt n (by decide : 0 < 10))
      refine ⟨ds ++ [n % 10], by simp [List.mapM_append, hds, hlast], ?_, by simp [hlength]⟩
      rw [ofDigits_concat, hn, Nat.div_add_mod]

/-- Different numbers are written differently. -/
theorem toString_nat_injective {m n : ℕ} (h : toString m = toString n) : m = n := by
  obtain ⟨ds, hds, hm, -⟩ := mapM_digit?_toDigits m
  obtain ⟨es, hes, hn, -⟩ := mapM_digit?_toDigits n
  have hdigits : Nat.toDigits 10 m = Nat.toDigits 10 n := String.ofList_injective h
  rw [hdigits, hes] at hds
  rw [← hm, ← hn, Option.some.inj hds]

theorem dropUnderscores_of_not_mem {cs : List Char} (h : '_' ∉ cs) (after : Bool) :
    dropUnderscores after cs = some cs := by
  induction cs generalizing after with
  | nil => rfl
  | cons c cs ih =>
    have hc : c ≠ '_' := fun hc => h (hc ▸ List.mem_cons_self)
    simp [dropUnderscores, hc, ih fun hmem => h (List.mem_cons_of_mem _ hmem)]

theorem splitSign_of_not_mem {cs : List Char} (hminus : '-' ∉ cs) (hplus : '+' ∉ cs) :
    splitSign cs = (false, cs) := by
  unfold splitSign
  split
  · exact absurd List.mem_cons_self hminus
  · exact absurd List.mem_cons_self hplus
  · rfl

theorem splitSign_of_digit {cs : List Char} (h : ∀ c ∈ cs, c.isDigit) :
    splitSign cs = (false, cs) :=
  splitSign_of_not_mem (fun hc => absurd (h _ hc) (by decide)) fun hc =>
    absurd (h _ hc) (by decide)

theorem mapM_digit?_eq_none_iff {cs : List Char} :
    cs.mapM digit? = none ↔ ∃ c ∈ cs, digit? c = none := by
  induction cs with
  | nil => simp
  | cons c cs ih =>
    rcases hc : digit? c with _ | d
    · simp [hc]
    · rcases hcs : cs.mapM digit? with _ | ds <;> simp_all

theorem length_mapM_digit? {cs : List Char} {ds : List ℕ} (h : cs.mapM digit? = some ds) :
    ds.length = cs.length := by
  induction cs generalizing ds with
  | nil => simp_all
  | cons c cs ih =>
    rcases hc : digit? c with _ | d
    · simp [hc] at h
    · rcases hcs : cs.mapM digit? with _ | ds'
      · simp [hc, hcs] at h
      · obtain rfl : d :: ds' = ds := by simpa [hc, hcs] using h
        simp [ih hcs]

/-- A text without a sign and without underscores is no number when it has a character that is no
digit, or too many digits. -/
theorem int?_eq_none_iff {cs : List Char} (hne : cs ≠ []) (hminus : '-' ∉ cs) (hplus : '+' ∉ cs)
    (hunderscore : '_' ∉ cs) :
    int? cs = none ↔ (∃ c ∈ cs, digit? c = none) ∨ maxStrDigits < cs.length := by
  have hread : int? cs = (cs.mapM digit?).bind fun ds =>
      if ds = [] ∨ maxStrDigits < ds.length then none else some (ofDigits ds : ℤ) := by
    simp [int?, splitSign_of_not_mem hminus hplus, dropUnderscores_of_not_mem hunderscore]
  rw [hread, ← mapM_digit?_eq_none_iff]
  rcases hds : cs.mapM digit? with _ | ds
  · simp
  · have hlength := length_mapM_digit? hds
    have hds' : ds ≠ [] := by
      rintro rfl
      exact hne (List.length_eq_zero_iff.mp hlength.symm)
    simp [hds', hlength]

/-- A number without a minus sign is not negative. -/
theorem int?_nonneg {cs : List Char} (hminus : '-' ∉ cs) {n : ℤ} (h : int? cs = some n) :
    0 ≤ n := by
  have hsign : (splitSign cs).1 = false := by
    unfold splitSign
    split
    · exact absurd List.mem_cons_self hminus
    · rfl
    · rfl
  rcases hsplit : splitSign cs with ⟨negative, rest⟩
  obtain rfl : negative = false := by rwa [hsplit] at hsign
  simp only [int?, hsplit, Option.bind_eq_bind, Option.bind_eq_some_iff, Bool.false_eq_true,
    if_false] at h
  obtain ⟨_, -, ds, -, h⟩ := h
  split_ifs at h
  obtain rfl := Option.some.inj h
  exact Int.natCast_nonneg _

theorem isDigit_of_mem_toDigits {n : ℕ} {c : Char} (h : c ∈ Nat.toDigits 10 n) : c.isDigit :=
  Nat.isDigit_of_mem_toDigits (by decide) (by decide) h

/-- The decimal numeral of a natural number is read as the number, unless it has too many digits. -/
theorem int?_toDigits {n : ℕ} (h : n < 10 ^ maxStrDigits) :
    int? (Nat.toDigits 10 n) = some (n : ℤ) := by
  have hdigit : ∀ c ∈ Nat.toDigits 10 n, c.isDigit := fun c hc => isDigit_of_mem_toDigits hc
  have hlength : (Nat.toDigits 10 n).length ≤ maxStrDigits :=
    (Nat.length_toDigits_le_iff (by decide) (by decide)).mpr h
  obtain ⟨ds, hds, hn, hlen⟩ := mapM_digit?_toDigits n
  have hne : ds ≠ [] := by
    rintro rfl
    exact Nat.toDigits_ne_nil (List.length_eq_zero_iff.mp hlen.symm)
  have hmax : ¬ maxStrDigits < ds.length := by
    rw [hlen]
    exact not_lt.mpr hlength
  simp [int?, splitSign_of_digit hdigit, dropUnderscores_of_not_mem Nat.underscore_not_in_toDigits,
    hds, hne, hmax, hn]

theorem toList_toString_nat (n : ℕ) : (toString n).toList = Nat.toDigits 10 n :=
  String.toList_ofList

theorem toList_toString_int (n : ℤ) :
    (toString n).toList = if n < 0 then '-' :: Nat.toDigits 10 n.natAbs
      else Nat.toDigits 10 n.natAbs := by
  rcases n with m | m
  · simp [toString, Int.repr, Nat.repr]
  · have hneg : Int.negSucc m < 0 := Int.negSucc_lt_zero m
    rw [if_pos hneg]
    simp [toString, Int.repr, Nat.repr]

/-- A minus sign before a numeral. -/
theorem int?_cons_minus {cs : List Char} (h : ∀ c ∈ cs, c.isDigit) :
    int? ('-' :: cs) = (int? cs).map Neg.neg := by
  have hminus : splitSign ('-' :: cs) = (true, cs) := rfl
  simp only [int?, splitSign_of_digit h, hminus, Option.bind_eq_bind, Bool.false_eq_true, if_false,
    if_true]
  rcases dropUnderscores false cs with _ | cs'
  · rfl
  · rcases hds : cs'.mapM digit? with _ | ds
    · simp [hds]
    · simp only [Option.bind_some, hds]
      split_ifs <;> rfl

/-- The decimal numeral of an integer is read as the integer, unless it has too many digits. -/
theorem int?_toString {n : ℤ} (h : n.natAbs < 10 ^ maxStrDigits) :
    int? (toString n).toList = some n := by
  have hdigit : ∀ c ∈ Nat.toDigits 10 n.natAbs, c.isDigit := fun c hc => isDigit_of_mem_toDigits hc
  rw [toList_toString_int]
  split_ifs with hneg
  · rw [int?_cons_minus hdigit, int?_toDigits h, Option.map_some]
    congr 1
    omega
  · rw [int?_toDigits h]
    congr 1
    omega

/-- What holds of a minus sign and of digits holds of the characters of an integer. -/
theorem forall_mem_toString {p : Char → Prop} (hminus : p '-') (hdigit : ∀ c, c.isDigit → p c)
    (n : ℤ) : ∀ c ∈ (toString n).toList, p c := by
  intro c hc
  rw [toList_toString_int] at hc
  split_ifs at hc
  · rcases List.mem_cons.mp hc with rfl | hc
    · exact hminus
    · exact hdigit c (isDigit_of_mem_toDigits hc)
  · exact hdigit c (isDigit_of_mem_toDigits hc)

theorem toLower_of_isDigit {c : Char} (h : c.isDigit) : c.toLower = c := by
  have hrange : 48 ≤ c.val.toNat ∧ c.val.toNat ≤ 57 := by
    simpa [Char.isDigit, UInt32.le_iff_toNat_le] using h
  have hupper : ¬ (65 ≤ c.val.toNat ∧ c.val.toNat ≤ 90) := by omega
  unfold Char.toLower
  rw [dif_neg]
  simpa [UInt32.le_iff_toNat_le] using hupper

theorem splitDigits_of_mapM {cs : List Char} {ds : List ℕ} (h : cs.mapM digit? = some ds) :
    splitDigits cs = (ds, []) := by
  induction cs generalizing ds with
  | nil =>
    obtain rfl : [] = ds := by simpa using h
    rfl
  | cons c cs ih =>
    rcases hc : digit? c with _ | d
    · simp [hc] at h
    · rcases hcs : cs.mapM digit? with _ | ds'
      · simp [hc, hcs] at h
      · obtain rfl : d :: ds' = ds := by simpa [hc, hcs] using h
        rw [splitDigits, hc, ih hcs]

/-- A decimal numeral without a fraction and an exponent. -/
theorem decimal?_toDigits (n : ℕ) : decimal? (Nat.toDigits 10 n) = some (n : ℚ) := by
  obtain ⟨ds, hds, hn, hlength⟩ := mapM_digit?_toDigits n
  have hne : ds ≠ [] := by
    rintro rfl
    exact Nat.toDigits_ne_nil (List.length_eq_zero_iff.mp hlength.symm)
  simp [decimal?, splitDigits_of_mapM hds, exponent?, hne, hn]

/-- The decimal numeral of an integer is read as the nearest binary64 number. -/
theorem float?_toString (n : ℤ) : float? (toString n).toList = some (.round64 n) := by
  have hdigit : ∀ c ∈ Nat.toDigits 10 n.natAbs, c.isDigit := fun c hc => isDigit_of_mem_toDigits hc
  have hunderscore : '_' ∉ (toString n).toList := fun hmem =>
    forall_mem_toString (p := (· ≠ '_')) (by decide) (by rintro c hc rfl; cases hc) n '_' hmem rfl
  have hsplit : splitSign (toString n).toList = (decide (n < 0), Nat.toDigits 10 n.natAbs) := by
    rw [toList_toString_int]
    split_ifs with hneg
    · simp [splitSign, hneg]
    · simp [splitSign_of_digit hdigit, hneg]
  -- No digits are one of the words for an infinity and a NaN.
  have hword (c : Char) (cs : List Char) (hc : c.isDigit = false) :
      String.ofList ((Nat.toDigits 10 n.natAbs).map Char.toLower) ≠ String.ofList (c :: cs) := by
    intro h
    have hmem : c ∈ (Nat.toDigits 10 n.natAbs).map Char.toLower := by
      rw [String.ofList_injective h]
      exact List.mem_cons_self
    obtain ⟨d, hd, rfl⟩ := List.mem_map.mp hmem
    rw [toLower_of_isDigit (hdigit d hd), hdigit d hd] at hc
    cases hc
  have hinf : ¬ (String.ofList ((Nat.toDigits 10 n.natAbs).map Char.toLower) = "inf" ∨
      String.ofList ((Nat.toDigits 10 n.natAbs).map Char.toLower) = "infinity") :=
    not_or.mpr ⟨hword 'i' ['n', 'f'] rfl, hword 'i' "nfinity".toList rfl⟩
  have hnan : String.ofList ((Nat.toDigits 10 n.natAbs).map Char.toLower) ≠ "nan" :=
    hword 'n' ['a', 'n'] rfl
  have hvalue : (if decide (n < 0) = true then -(n.natAbs : ℚ) else (n.natAbs : ℚ)) = n := by
    rw [Nat.cast_natAbs]
    split_ifs with hneg
    · rw [abs_of_neg (of_decide_eq_true hneg), Int.cast_neg, neg_neg]
    · rw [abs_of_nonneg (not_lt.mp (mt decide_eq_true hneg))]
  rw [float?, dropUnderscores_of_not_mem hunderscore, Option.bind_eq_bind, Option.bind_some, hsplit]
  dsimp only
  rw [if_neg hinf, if_neg hnan, decimal?_toDigits, Option.bind_eq_bind, Option.bind_some, hvalue]

theorem isSpace_of_mem_toString {n : ℤ} {c : Char} (hc : c ∈ (toString n).toList) :
    isSpace c = false :=
  forall_mem_toString (by decide) (fun _ => isSpace_of_isDigit) n c hc

theorem toList_toString_ne_nil (n : ℤ) : (toString n).toList ≠ [] := by
  rw [toList_toString_int]
  split_ifs
  · exact List.cons_ne_nil _ _
  · exact Nat.toDigits_ne_nil

end Py
