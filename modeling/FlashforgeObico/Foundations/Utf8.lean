import FlashforgeObico.Foundations.PythonBytes

/-!
# UTF-8

`bytes.decode("utf-8", errors="replace")`: the decoder takes one byte at a time and remembers how
the sequence that it is in may go on. Where a byte cannot follow, the bytes of the sequence so far
are decoded to one U+FFFD, and the byte begins a new sequence. `decodeUtf8_encodeUtf8` says that
what `str.encode()` writes is decoded to the text it was written for.
-/

namespace Py

/-- U+FFFD. -/
def replacement : Char := Char.ofNat 0xFFFD

/-- A sequence that has begun: how many bytes it lacks, the bounds of the next one, and the bits of
the character so far. -/
structure Utf8Sequence where
  lacks : ℕ
  low : ℕ := 0x80
  high : ℕ := 0xBF
  bits : ℕ
  deriving DecidableEq

/-- What a byte that begins a sequence is decoded to, and the sequence that has begun. -/
def utf8First (b : UInt8) : List Char × Option Utf8Sequence :=
  let n := b.toNat
  if n < 0x80 then ([Char.ofNat n], none)
  else if n < 0xC2 then ([replacement], none)
  else if n < 0xE0 then ([], some { lacks := 1, bits := n - 0xC0 })
  else if n < 0xF0 then
    ([], some {
      lacks := 2
      low := if n = 0xE0 then 0xA0 else 0x80 -- no longer than needed
      high := if n = 0xED then 0x9F else 0xBF -- no surrogate
      bits := n - 0xE0 })
  else if n < 0xF5 then
    ([], some {
      lacks := 3
      low := if n = 0xF0 then 0x90 else 0x80
      high := if n = 0xF4 then 0x8F else 0xBF -- no character after U+10FFFF
      bits := n - 0xF0 })
  else ([replacement], none)

/-- What a byte is decoded to, and the sequence after it. -/
def utf8Next (q : Option Utf8Sequence) (b : UInt8) : List Char × Option Utf8Sequence :=
  match q with
  | none => utf8First b
  | some q =>
    if q.low ≤ b.toNat ∧ b.toNat ≤ q.high then
      let bits := q.bits * 64 + (b.toNat - 0x80)
      if q.lacks = 1 then ([Char.ofNat bits], none)
      else ([], some { lacks := q.lacks - 1, bits })
    else (replacement :: (utf8First b).1, (utf8First b).2)

/-- Decode what is left of a text. -/
def decodeUtf8From : Option Utf8Sequence → Bytes → List Char
  | none, [] => []
  | some _, [] => [replacement]
  | q, b :: s => (utf8Next q b).1 ++ decodeUtf8From (utf8Next q b).2 s

/-- `bs.decode("utf-8", errors="replace")`. -/
def decodeUtf8 (bs : Bytes) : List Char := decodeUtf8From none bs

/-- `text.encode()`. -/
def encodeUtf8 (cs : List Char) : Bytes := cs.flatMap String.utf8EncodeChar

/-! ## The round trip -/

theorem decodeUtf8From_cons (q : Option Utf8Sequence) (b : UInt8) (s : Bytes) :
    decodeUtf8From q (b :: s) = (utf8Next q b).1 ++ decodeUtf8From (utf8Next q b).2 s := by
  cases q <;> rfl

/-- The first byte of two. -/
theorem utf8First_two : ∀ n < 32, 2 ≤ n →
    utf8First (UInt8.ofNat (n + 0xC0)) = ([], some { lacks := 1, bits := n }) := by
  decide

/-- The first byte of three. -/
theorem utf8First_three : ∀ n < 16, utf8First (UInt8.ofNat (n + 0xE0)) =
    ([], some ⟨2, if n = 0 then 0xA0 else 0x80, if n = 13 then 0x9F else 0xBF, n⟩) := by
  decide

/-- The first byte of four. -/
theorem utf8First_four : ∀ n < 5, utf8First (UInt8.ofNat (n + 0xF0)) =
    ([], some ⟨3, if n = 0 then 0x90 else 0x80, if n = 4 then 0x8F else 0xBF, n⟩) := by
  decide

variable {n lacks low high bits : ℕ} {s : Bytes}

theorem toNat_byte (h : n < 256) : (UInt8.ofNat n).toNat = n := by
  rw [UInt8.toNat_ofNat']
  exact Nat.mod_eq_of_lt h

/-- A byte of the sequence that isn't its last one. -/
theorem decodeUtf8From_middle (hn : n < 64) (hlow : low ≤ n + 0x80) (hhigh : n + 0x80 ≤ high) :
    decodeUtf8From (some ⟨lacks + 2, low, high, bits⟩) (UInt8.ofNat (n + 0x80) :: s) =
      decodeUtf8From (some { lacks := lacks + 1, bits := bits * 64 + n }) s := by
  rw [decodeUtf8From_cons, utf8Next, toNat_byte (by omega), if_pos ⟨hlow, hhigh⟩,
    Nat.add_sub_cancel]
  simp

/-- The last byte of the sequence. -/
theorem decodeUtf8From_last (hn : n < 64) (hlow : low ≤ n + 0x80) (hhigh : n + 0x80 ≤ high) :
    decodeUtf8From (some ⟨1, low, high, bits⟩) (UInt8.ofNat (n + 0x80) :: s) =
      Char.ofNat (bits * 64 + n) :: decodeUtf8From none s := by
  rw [decodeUtf8From_cons, utf8Next, toNat_byte (by omega), if_pos ⟨hlow, hhigh⟩,
    Nat.add_sub_cancel]
  simp

/-- The bytes of a character are decoded to it, whatever follows them. -/
theorem decodeUtf8From_encodeChar (c : Char) (s : Bytes) :
    decodeUtf8From none (String.utf8EncodeChar c ++ s) = c :: decodeUtf8From none s := by
  obtain ⟨v, hv⟩ : ∃ v, c.val.toNat = v := ⟨_, rfl⟩
  have hc : Char.ofNat v = c := by
    rw [← hv]
    exact Char.ofNat_toNat c
  have hvalid : v < 0xD800 ∨ 0xDFFF < v ∧ v < 0x110000 := by
    rw [← hv]
    exact c.valid
  rw [String.utf8EncodeChar, hv]
  split_ifs with hone htwo hthree
  · have hbyte : (UInt8.ofNat v).toNat < 0x80 := by
      rw [toNat_byte (by omega)]
      omega
    rw [List.cons_append, decodeUtf8From_cons, utf8Next, utf8First, if_pos hbyte,
      toNat_byte (by omega), hc]
    rfl
  · have hlead : v / 64 % 32 = v / 64 := by omega
    have hbits : v / 64 * 64 + v % 64 = v := by omega
    rw [hlead, List.cons_append, decodeUtf8From_cons, utf8Next,
      utf8First_two _ (by omega) (by omega)]
    refine (decodeUtf8From_last (by omega) (by omega) (by omega)).trans ?_
    rw [hbits, hc]
    rfl
  · have hlead : v / 4096 % 16 = v / 4096 := by omega
    have hbits : (v / 4096 * 64 + v / 64 % 64) * 64 + v % 64 = v := by omega
    rw [hlead, List.cons_append, decodeUtf8From_cons, utf8Next, utf8First_three _ (by omega)]
    refine (decodeUtf8From_middle (by omega) ?_ ?_).trans ?_
    · split_ifs <;> omega
    · split_ifs <;> omega
    refine (decodeUtf8From_last (by omega) (by omega) (by omega)).trans ?_
    rw [hbits, hc]
    rfl
  · have hlead : v / 262144 % 8 = v / 262144 := by omega
    have hbits : ((v / 262144 * 64 + v / 4096 % 64) * 64 + v / 64 % 64) * 64 + v % 64 = v := by
      omega
    rw [hlead, List.cons_append, decodeUtf8From_cons, utf8Next, utf8First_four _ (by omega)]
    refine (decodeUtf8From_middle (by omega) ?_ ?_).trans ?_
    · split_ifs <;> omega
    · split_ifs <;> omega
    refine (decodeUtf8From_middle (by omega) (by omega) (by omega)).trans ?_
    refine (decodeUtf8From_last (by omega) (by omega) (by omega)).trans ?_
    rw [hbits, hc]
    rfl

/-- **A text that is encoded is decoded to itself.** -/
theorem decodeUtf8_encodeUtf8 (cs : List Char) : decodeUtf8 (encodeUtf8 cs) = cs := by
  induction cs with
  | nil => rfl
  | cons c cs ih =>
    rw [encodeUtf8, List.flatMap_cons, decodeUtf8, decodeUtf8From_encodeChar]
    exact congrArg (List.cons c) ih

end Py
