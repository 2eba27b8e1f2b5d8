import FlashforgeObico.Foundations.PythonBytes

/-!
# Base64

`base64.b64encode`, and `base64.b64decode(text, validate=True)`: the decoder takes one character at
a time and remembers its place in the group of four and the bits that have not made a byte yet.
`b64decode_b64encode` says that the bytes come back.
-/

namespace Py

/-- The alphabet. -/
def base64Alphabet : List Char :=
  "ABCDEFGHIJKLMNOPQRSTUVWXYZabcdefghijklmnopqrstuvwxyz0123456789+/".toList

/-- The character of six bits. -/
def base64Char (n : ℕ) : Char := (base64Alphabet[n]?).getD 'A'

/-- The six bits of a character. -/
def base64Value? (c : Char) : Option ℕ := base64Alphabet.idxOf? c

/-- `base64.b64encode(bs)`, as text. -/
def b64encode : Bytes → List Char
  | b :: c :: d :: bs =>
    base64Char (b.toNat / 4) :: base64Char (b.toNat % 4 * 16 + c.toNat / 16) ::
      base64Char (c.toNat % 16 * 4 + d.toNat / 64) :: base64Char (d.toNat % 64) :: b64encode bs
  | [b, c] =>
    [base64Char (b.toNat / 4), base64Char (b.toNat % 4 * 16 + c.toNat / 16),
      base64Char (c.toNat % 16 * 4), '=']
  | [b] => [base64Char (b.toNat / 4), base64Char (b.toNat % 4 * 16), '=', '=']
  | [] => []

/-- The place in a group of four characters, and the bits that have not made a byte yet. -/
structure Quad where
  place : ℕ := 0
  left : ℕ := 0
  deriving DecidableEq

/-- What six more bits make. -/
def Quad.next (q : Quad) (n : ℕ) : Bytes × Quad :=
  match q.place with
  | 0 => ([], ⟨1, n⟩)
  | 1 => ([UInt8.ofNat (q.left * 4 + n / 16)], ⟨2, n % 16⟩)
  | 2 => ([UInt8.ofNat (q.left * 16 + n / 4)], ⟨3, n % 4⟩)
  | _ => ([UInt8.ofNat (q.left * 64 + n)], {})

/-- Decode what is left of a text; `none` when an exception is raised. `pads` counts the padding
that follows at least two characters of a group. -/
def b64decodeFrom (q : Quad) (padded : Bool) (pads : ℕ) : List Char → Option Bytes
  | [] => if q.place = 0 then some [] else none
  | c :: cs =>
    if c = '=' then
      if 2 ≤ q.place then
        if 4 ≤ q.place + pads + 1 then if cs = [] then some [] else none
        else b64decodeFrom q true (pads + 1) cs
      else b64decodeFrom q true pads cs
    else match base64Value? c with
      | none => none
      | some n =>
        if padded then none
        else (b64decodeFrom (q.next n).2 false 0 cs).map ((q.next n).1 ++ ·)

/-- `base64.b64decode(text, validate=True)`; `none` when it raises. -/
def b64decode (cs : List Char) : Option Bytes :=
  if cs.head? = some '=' then none else b64decodeFrom {} false 0 cs

/-! ## The round trip -/

variable {q : Quad} {n : ℕ} {cs : List Char}

theorem base64Value?_base64Char : ∀ n < 64, base64Value? (base64Char n) = some n := by
  decide +kernel

theorem base64Char_ne : ∀ n < 64, base64Char n ≠ '=' := by decide +kernel

/-- One character that was encoded. -/
theorem b64decodeFrom_char (hn : n < 64) (q : Quad) (cs : List Char) :
    b64decodeFrom q false 0 (base64Char n :: cs) =
      (b64decodeFrom (q.next n).2 false 0 cs).map ((q.next n).1 ++ ·) := by
  rw [b64decodeFrom, if_neg (base64Char_ne n hn), base64Value?_base64Char n hn]
  rfl

theorem b64decodeFrom_b64encode (bs : Bytes) :
    b64decodeFrom {} false 0 (b64encode bs) = some bs := by
  induction bs using b64encode.induct with
  | case1 b c d bs ih =>
    have hb := b.toNat_lt
    have hc := c.toNat_lt
    have hd := d.toNat_lt
    have hfirst : b.toNat / 4 * 4 + (b.toNat % 4 * 16 + c.toNat / 16) / 16 = b.toNat := by omega
    have hsecond : (b.toNat % 4 * 16 + c.toNat / 16) % 16 * 16 +
        (c.toNat % 16 * 4 + d.toNat / 64) / 4 = c.toNat := by omega
    have hthird : (c.toNat % 16 * 4 + d.toNat / 64) % 4 * 64 + d.toNat % 64 = d.toNat := by omega
    rw [b64encode, b64decodeFrom_char (by omega), b64decodeFrom_char (by omega),
      b64decodeFrom_char (by omega), b64decodeFrom_char (by omega)]
    simp only [Quad.next, ih, hfirst, hsecond, hthird, UInt8.ofNat_toNat, Option.map_some,
      List.nil_append, List.singleton_append]
  | case2 b c =>
    have hb := b.toNat_lt
    have hc := c.toNat_lt
    have hfirst : b.toNat / 4 * 4 + (b.toNat % 4 * 16 + c.toNat / 16) / 16 = b.toNat := by omega
    have hsecond : (b.toNat % 4 * 16 + c.toNat / 16) % 16 * 16 + c.toNat % 16 * 4 / 4 =
        c.toNat := by omega
    rw [b64encode, b64decodeFrom_char (by omega), b64decodeFrom_char (by omega),
      b64decodeFrom_char (by omega)]
    simp only [Quad.next, hfirst, hsecond, UInt8.ofNat_toNat]
    rfl
  | case3 b =>
    have hb := b.toNat_lt
    have hfirst : b.toNat / 4 * 4 + b.toNat % 4 * 16 / 16 = b.toNat := by omega
    rw [b64encode, b64decodeFrom_char (by omega), b64decodeFrom_char (by omega)]
    simp only [Quad.next, hfirst, UInt8.ofNat_toNat]
    rfl
  | case4 => rfl

/-- **What is encoded comes back.** -/
theorem b64decode_b64encode (bs : Bytes) : b64decode (b64encode bs) = some bs := by
  rw [b64decode, if_neg, b64decodeFrom_b64encode]
  rcases bs with _ | ⟨b, _ | ⟨c, _ | ⟨d, bs⟩⟩⟩
  · simp [b64encode]
  all_goals
    have hb := b.toNat_lt
    simp [b64encode, base64Char_ne (b.toNat / 4) (by omega)]

/-- The padding after a whole group is not counted, and bits that make no byte are ignored. -/
example : b64decode "QUJD====".toList = some [65, 66, 67] ∧ b64decode "QR==".toList = some [65] ∧
    b64decode "QQ=".toList = none ∧ b64decode "QQ===".toList = none := by
  decide +kernel

end Py
