import FlashforgeObico.Foundations.Utf8
import Mathlib.Data.List.SplitBy

/-!
# Percent-encoding

`encodeURIComponent` of ECMAScript, which writes the bytes of a character in UTF-8 as a percent sign
and two hexadecimal digits each, its inverse `decodeURIComponent`, and `urllib.parse.unquote` of
Python, which decodes each run of ASCII characters by itself. `decodeURIComponent_encodeURIComponent`
and `unquote_encodeURIComponent` say that a text comes back as it was.
-/

namespace Py

/-! ## Encoding -/

/-- A hexadecimal digit. -/
def hexDigit (n : ℕ) : Char := ("0123456789ABCDEF".toList[n]?).getD '0'

/-- A byte as a percent sign and two digits. -/
def percentByte (b : UInt8) : List Char := ['%', hexDigit (b.toNat / 16), hexDigit (b.toNat % 16)]

/-- The characters that `encodeURIComponent` leaves as they are. -/
def isUnescaped (c : Char) : Bool :=
  let n := c.toNat
  48 ≤ n ∧ n ≤ 57 ∨ 65 ≤ n ∧ n ≤ 90 ∨ 97 ≤ n ∧ n ≤ 122 ∨ c ∈ "-_.!~*'()".toList

/-- `encodeURIComponent(text)`. -/
def encodeURIComponent (cs : List Char) : List Char :=
  cs.flatMap fun c => if isUnescaped c then [c] else (String.utf8EncodeChar c).flatMap percentByte

/-! ## Decoding -/

/-- The value of a hexadecimal digit, in either case. -/
def hexValue? (c : Char) : Option ℕ :=
  let n := c.toNat
  if 48 ≤ n ∧ n ≤ 57 then some (n - 48)
  else if 65 ≤ n ∧ n ≤ 70 then some (n - 55)
  else if 97 ≤ n ∧ n ≤ 102 then some (n - 87)
  else none

/-- `unquote_to_bytes(text)`, of ASCII characters. -/
def unquoteToBytes : List Char → Bytes
  | '%' :: high :: low :: cs =>
    match hexValue? high, hexValue? low with
    | some n, some m => UInt8.ofNat (n * 16 + m) :: unquoteToBytes cs
    | _, _ => UInt8.ofNat '%'.toNat :: unquoteToBytes (high :: low :: cs)
  | c :: cs => UInt8.ofNat c.toNat :: unquoteToBytes cs
  | [] => []

/-- `c.isascii()`. -/
def isAscii (c : Char) : Bool := c.toNat < 128

/-- `urllib.parse.unquote(text)`. -/
def unquote (cs : List Char) : List Char :=
  (cs.splitBy fun c d => isAscii c == isAscii d).flatMap fun run =>
    if run.all isAscii then decodeUtf8 (unquoteToBytes run) else run

/-- The bytes that a text stands for, in which each percent sign begins an escaped byte. -/
def unescapedBytes : List Char → Option Bytes
  | '%' :: high :: low :: cs =>
    match hexValue? high, hexValue? low with
    | some n, some m => (unescapedBytes cs).map (UInt8.ofNat (n * 16 + m) :: ·)
    | _, _ => none
  | c :: cs => if c = '%' then none else (unescapedBytes cs).map (String.utf8EncodeChar c ++ ·)
  | [] => some []

/-- `decodeURIComponent(text)`, which raises on an escape that is none, and on bytes that are no
UTF-8. -/
def decodeURIComponent (cs : List Char) : Option (List Char) := do
  let bs ← unescapedBytes cs
  if encodeUtf8 (decodeUtf8 bs) = bs then some (decodeUtf8 bs) else none

/-! ## The round trips -/

variable {c : Char} {cs : List Char}

theorem hexValue?_hexDigit : ∀ n < 16, hexValue? (hexDigit n) = some n := by decide

theorem isUnescaped_hexDigit : ∀ n < 16, isUnescaped (hexDigit n) = true := by decide

theorem unquoteToBytes_cons (hc : c ≠ '%') (cs : List Char) :
    unquoteToBytes (c :: cs) = UInt8.ofNat c.toNat :: unquoteToBytes cs := by
  rw [unquoteToBytes]
  rintro high low cs rfl
  exact absurd rfl hc

theorem unquoteToBytes_percentByte (b : UInt8) (cs : List Char) :
    unquoteToBytes (percentByte b ++ cs) = b :: unquoteToBytes cs := by
  have hb := b.toNat_lt
  have hhigh := hexValue?_hexDigit (b.toNat / 16) (by omega)
  have hlow := hexValue?_hexDigit (b.toNat % 16) (by omega)
  have hbyte : b.toNat / 16 * 16 + b.toNat % 16 = b.toNat := by omega
  rw [percentByte, List.cons_append, List.cons_append, List.cons_append, List.nil_append,
    unquoteToBytes, hhigh, hlow]
  simp only [hbyte, UInt8.ofNat_toNat]

theorem unquoteToBytes_percentBytes (bs : Bytes) (cs : List Char) :
    unquoteToBytes (bs.flatMap percentByte ++ cs) = bs ++ unquoteToBytes cs := by
  induction bs with
  | nil => rfl
  | cons b bs ih =>
    rw [List.flatMap_cons, List.append_assoc, unquoteToBytes_percentByte, ih, List.cons_append]

/-- An ASCII character has one byte. -/
theorem utf8EncodeChar_of_isAscii (hc : isAscii c = true) :
    String.utf8EncodeChar c = [UInt8.ofNat c.toNat] := by
  have hlt : c.val.toNat ≤ 0x7f := Nat.le_of_lt_succ (of_decide_eq_true hc)
  rw [String.utf8EncodeChar, if_pos hlt]
  rfl

theorem isUnescaped_spec (hc : isUnescaped c = true) : isAscii c = true ∧ c ≠ '%' := by
  have hmarks : ("-_.!~*'()".toList.all fun c => decide (isAscii c = true ∧ c ≠ '%')) = true := rfl
  refine ⟨?_, ?_⟩
  · rcases of_decide_eq_true hc with hdigit | hupper | hlower | hmark
    · exact decide_eq_true (by omega)
    · exact decide_eq_true (by omega)
    · exact decide_eq_true (by omega)
    · exact (of_decide_eq_true (List.all_eq_true.mp hmarks c hmark)).1
  · rintro rfl
    exact absurd hc (by decide)

/-- What is written consists of percent signs and of characters that are left as they are. -/
theorem mem_encodeURIComponent (hc : c ∈ encodeURIComponent cs) :
    c = '%' ∨ isUnescaped c = true := by
  obtain ⟨d, -, hc⟩ := List.mem_flatMap.mp hc
  split_ifs at hc with hd
  · rw [List.mem_singleton.mp hc]
    exact .inr hd
  · obtain ⟨b, -, hc⟩ := List.mem_flatMap.mp hc
    have hb := b.toNat_lt
    have hhigh := isUnescaped_hexDigit (b.toNat / 16) (by omega)
    have hlow := isUnescaped_hexDigit (b.toNat % 16) (by omega)
    rcases List.mem_cons.mp hc with rfl | hc
    · exact .inl rfl
    rcases List.mem_cons.mp hc with rfl | hc
    · exact .inr hhigh
    · exact .inr (List.mem_singleton.mp hc ▸ hlow)

theorem isAscii_encodeURIComponent (cs : List Char) :
    ∀ c ∈ encodeURIComponent cs, isAscii c = true := by
  intro c hc
  rcases mem_encodeURIComponent hc with rfl | hc
  · decide
  · exact (isUnescaped_spec hc).1

theorem unquoteToBytes_encodeURIComponent (cs : List Char) :
    unquoteToBytes (encodeURIComponent cs) = encodeUtf8 cs := by
  induction cs with
  | nil => rfl
  | cons c cs ih =>
    rw [encodeURIComponent, List.flatMap_cons, encodeUtf8, List.flatMap_cons]
    split_ifs with hc
    · obtain ⟨hascii, hpercent⟩ := isUnescaped_spec hc
      rw [List.singleton_append, unquoteToBytes_cons hpercent, utf8EncodeChar_of_isAscii hascii]
      exact congrArg _ ih
    · rw [unquoteToBytes_percentBytes]
      exact congrArg _ ih

theorem unescapedBytes_cons (hc : c ≠ '%') (cs : List Char) : unescapedBytes (c :: cs) =
    (unescapedBytes cs).map (String.utf8EncodeChar c ++ ·) := by
  rw [unescapedBytes, if_neg hc]
  rintro high low cs rfl
  exact absurd rfl hc

theorem unescapedBytes_percentByte (b : UInt8) (cs : List Char) :
    unescapedBytes (percentByte b ++ cs) = (unescapedBytes cs).map (b :: ·) := by
  have hb := b.toNat_lt
  have hhigh := hexValue?_hexDigit (b.toNat / 16) (by omega)
  have hlow := hexValue?_hexDigit (b.toNat % 16) (by omega)
  have hbyte : b.toNat / 16 * 16 + b.toNat % 16 = b.toNat := by omega
  rw [percentByte, List.cons_append, List.cons_append, List.cons_append, List.nil_append,
    unescapedBytes, hhigh, hlow]
  simp only [hbyte, UInt8.ofNat_toNat]

theorem unescapedBytes_percentBytes (bs : Bytes) (cs : List Char) :
    unescapedBytes (bs.flatMap percentByte ++ cs) = (unescapedBytes cs).map (bs ++ ·) := by
  induction bs with
  | nil => simp
  | cons b bs ih =>
    rw [List.flatMap_cons, List.append_assoc, unescapedBytes_percentByte, ih, Option.map_map]
    rfl

theorem unescapedBytes_encodeURIComponent (cs : List Char) :
    unescapedBytes (encodeURIComponent cs) = some (encodeUtf8 cs) := by
  induction cs with
  | nil => rfl
  | cons c cs ih =>
    rw [encodeURIComponent] at ih
    rw [encodeURIComponent, List.flatMap_cons, encodeUtf8, List.flatMap_cons]
    split_ifs with hc
    · obtain ⟨-, hpercent⟩ := isUnescaped_spec hc
      rw [List.singleton_append, unescapedBytes_cons hpercent, ih]
      rfl
    · rw [unescapedBytes_percentBytes, ih]
      rfl

/-- **What is encoded is decoded.** -/
theorem decodeURIComponent_encodeURIComponent (cs : List Char) :
    decodeURIComponent (encodeURIComponent cs) = some cs := by
  rw [decodeURIComponent, unescapedBytes_encodeURIComponent, Option.bind_eq_bind, Option.bind_some,
    decodeUtf8_encodeUtf8, if_pos rfl]

/-- A text of ASCII characters is decoded as a whole. -/
theorem unquote_of_isAscii (h : ∀ c ∈ cs, isAscii c = true) :
    unquote cs = decodeUtf8 (unquoteToBytes cs) := by
  rcases eq_or_ne cs [] with rfl | hne
  · rfl
  have hchain : cs.IsChain fun c d => (isAscii c == isAscii d) = true := by
    refine List.Pairwise.isChain (List.pairwise_of_forall_mem_list fun c hc d hd => ?_)
    rw [h c hc, h d hd]
    rfl
  rw [unquote, List.splitBy_of_isChain hne hchain, List.flatMap_singleton,
    if_pos (List.all_eq_true.mpr h)]

/-- **What is encoded comes back.** -/
theorem unquote_encodeURIComponent (cs : List Char) : unquote (encodeURIComponent cs) = cs := by
  rw [unquote_of_isAscii (isAscii_encodeURIComponent cs), unquoteToBytes_encodeURIComponent,
    decodeUtf8_encodeUtf8]

end Py
