import FlashforgeObico.Foundations.PercentEncoding
import FlashforgeObico.Foundations.PythonValue

/-!
# Reading JSON

The reader of JSON texts, as a machine that takes one character at a time: its state is the place in
the text, and the arrays and objects around that place. `json.loads` and `JSON.parse` differ in the
words that they know, in what an integer is read as, and in how many arrays and objects they let be
open.
-/

namespace Py

/-! ## The reader -/

/-- Why a text is not read. -/
inductive JsonError
  /-- `JSONDecodeError`, or an integer with too many digits. -/
  | malformed
  /-- Too many arrays and objects in one another, a `RecursionError`. -/
  | nested
  /-- Half of a surrogate pair, which no `String` holds. -/
  | surrogate
  deriving DecidableEq

namespace JsonReader

/-- An array or object that waits for a value. -/
inductive Frame
  | arr (items : List Json)
  | obj (fields : Dict) (key : String)

/-- A place between two words, strings or marks. -/
inductive Gap
  /-- Before a value. -/
  | value
  /-- After `[`. -/
  | openArr
  /-- After an opening brace. -/
  | openObj
  /-- After the comma that follows a field. -/
  | key (fields : Dict)
  /-- After a key. -/
  | colon (fields : Dict) (key : String)
  /-- After an item. -/
  | inArr (items : List Json)
  /-- After a field. -/
  | inObj (fields : Dict)
  /-- After the whole text. -/
  | done (v : Json)

/-- How much of an escape was read. -/
inductive Escape
  | none
  | backslash
  | hex (n missing : ℕ)
  /-- After the first half of a surrogate pair. -/
  | high (h : ℕ)
  | highBackslash (h : ℕ)
  | low (h n missing : ℕ)
  deriving DecidableEq

/-- A place in the text. -/
inductive Place
  | gap (g : Gap)
  /-- In a string, which is a key if there are fields before it. -/
  | string (fields : Option Dict) (read : List Char) (escape : Escape)
  /-- In a number, or in one of the words for the other values. -/
  | word (read : List Char)

end JsonReader

/-- What readers differ in: how many arrays and objects may be open, and which words they know. -/
structure JsonDialect where
  limit : ℕ
  word : List Char → Option Json

open JsonReader in
/-- The state of the reader. -/
structure JsonReader where
  stack : List Frame
  place : Place

namespace JsonReader

/-- White space. -/
def isBlank (c : Char) : Bool := c ∈ [' ', '\t', '\n', '\r']

/-- The characters of words. -/
def isWord (c : Char) : Bool := ¬ (isBlank c ∨ c ∈ ['"', ',', ':', '[', ']', '\x7b', '\x7d'])

/-- The whole part of a number: no zero stands before another digit. -/
def isWhole (cs : List Char) : Bool :=
  cs ≠ [] ∧ cs.all Char.isDigit ∧ (cs = ['0'] ∨ cs.head? ≠ some '0')

def dropMinus : List Char → List Char
  | '-' :: cs => cs
  | cs => cs

/-- An exponent, or nothing. -/
def isExponent : List Char → Bool
  | [] => true
  | c :: cs => (c = 'e' ∨ c = 'E') ∧ (splitSign cs).2 ≠ [] ∧ (splitSign cs).2.all Char.isDigit

/-- What follows the whole part of a number. -/
def isFraction : List Char → Bool
  | '.' :: cs => cs.takeWhile Char.isDigit ≠ [] ∧ isExponent (cs.dropWhile Char.isDigit)
  | cs => isExponent cs

/-- The integer that a numeral writes. -/
def integerOf (cs : List Char) : ℤ :=
  let n := ofDigits ((dropMinus cs).filterMap digit?)
  if cs.head? = some '-' then -n else n

/-- A number. -/
def isNumeral (cs : List Char) : Bool :=
  isWhole ((dropMinus cs).takeWhile Char.isDigit) ∧ isFraction ((dropMinus cs).dropWhile Char.isDigit)

/-- The value of a word in ECMAScript, where all numbers are binary64 numbers. -/
def scriptWord (cs : List Char) : Option Json :=
  if cs = "null".toList then some .null
  else if cs = "true".toList then some (.bool true)
  else if cs = "false".toList then some (.bool false)
  else if isNumeral cs then (float? cs).map .float
  else none

/-- The value of a word in Python: there are more of them, and an integer is exact, with a bound on
its digits. -/
def loadsWord (cs : List Char) : Option Json :=
  if cs = "NaN".toList then some (.float .nan)
  else if cs = "Infinity".toList then some (.float (.inf false))
  else if cs = "-Infinity".toList then some (.float (.inf true))
  else if isWhole (dropMinus cs) then
    if maxStrDigits < (dropMinus cs).length then none else some (.int (integerOf cs))
  else scriptWord cs

/-- A value was read. -/
def complete (stack : List Frame) (v : Json) : JsonReader :=
  match stack with
  | [] => ⟨[], .gap (.done v)⟩
  | .arr items :: stack => ⟨stack, .gap (.inArr (items ++ [v]))⟩
  | .obj fields key :: stack => ⟨stack, .gap (.inObj (fields.set key v))⟩

/-- The first character of a value. -/
def startValue (d : JsonDialect) (stack : List Frame) (c : Char) : Except JsonError JsonReader :=
  if c = '"' then .ok ⟨stack, .string none [] .none⟩
  else if c = '[' ∨ c = '\x7b' then
    if d.limit ≤ stack.length then .error .nested
    else .ok ⟨stack, .gap (if c = '[' then .openArr else .openObj)⟩
  else if isWord c then .ok ⟨stack, .word [c]⟩
  else .error .malformed

/-- The first character of a key. -/
def startKey (stack : List Frame) (fields : Dict) (c : Char) : Except JsonError JsonReader :=
  if c = '"' then .ok ⟨stack, .string (some fields) [] .none⟩ else .error .malformed

/-- A character in a gap. -/
def atGap (d : JsonDialect) (stack : List Frame) (g : Gap) (c : Char) :
    Except JsonError JsonReader :=
  if isBlank c then .ok ⟨stack, .gap g⟩
  else match g with
  | .value => startValue d stack c
  | .openArr =>
    if c = ']' then .ok (complete stack (.arr [])) else startValue d (.arr [] :: stack) c
  | .openObj => if c = '\x7d' then .ok (complete stack (.obj [])) else startKey stack [] c
  | .key fields => startKey stack fields c
  | .colon fields key =>
    if c = ':' then .ok ⟨.obj fields key :: stack, .gap .value⟩ else .error .malformed
  | .inArr items =>
    if c = ',' then .ok ⟨.arr items :: stack, .gap .value⟩
    else if c = ']' then .ok (complete stack (.arr items))
    else .error .malformed
  | .inObj fields =>
    if c = ',' then .ok ⟨stack, .gap (.key fields)⟩
    else if c = '\x7d' then .ok (complete stack (.obj fields))
    else .error .malformed
  | .done _ => .error .malformed

/-- The escapes of one letter, and what they stand for. -/
def letters : List (Char × Char) :=
  [('"', '"'), ('\\', '\\'), ('b', '\x08'), ('f', '\x0c'), ('n', '\n'), ('r', '\r'), ('t', '\t')]

/-- What a code unit adds to a string. -/
def codeUnit (n : ℕ) : Except JsonError (List Char × Escape) :=
  if 0xD800 ≤ n ∧ n < 0xDC00 then .ok ([], .high n)
  else if 0xDC00 ≤ n ∧ n < 0xE000 then .error .surrogate
  else .ok ([Char.ofNat n], .none)

/-- What a second code unit adds. -/
def secondUnit (h n : ℕ) : Except JsonError (List Char × Escape) :=
  if 0xDC00 ≤ n ∧ n < 0xE000 then
    .ok ([Char.ofNat (0x10000 + (h - 0xD800) * 0x400 + (n - 0xDC00))], .none)
  else .error .surrogate

/-- What a character adds to a string that it does not end. -/
def unescape : Escape → Char → Except JsonError (List Char × Escape)
  | .none, c =>
    if c = '\\' then .ok ([], .backslash)
    else if c.toNat < 0x20 then .error .malformed
    else .ok ([c], .none)
  | .backslash, c =>
    if c = 'u' then .ok ([], .hex 0 4)
    else match (('/', '/') :: letters).lookup c with
    | some d => .ok ([d], .none)
    | none => .error .malformed
  | .hex n missing, c =>
    match hexValue? c with
    | none => .error .malformed
    | some d =>
      if missing = 1 then codeUnit (n * 16 + d) else .ok ([], .hex (n * 16 + d) (missing - 1))
  | .high h, c => if c = '\\' then .ok ([], .highBackslash h) else .error .surrogate
  | .highBackslash h, c => if c = 'u' then .ok ([], .low h 0 4) else .error .surrogate
  | .low h n missing, c =>
    match hexValue? c with
    | none => .error .malformed
    | some d =>
      if missing = 1 then secondUnit h (n * 16 + d) else .ok ([], .low h (n * 16 + d) (missing - 1))

/-- A string has ended. -/
def closed (stack : List Frame) (fields : Option Dict) (read : List Char) : JsonReader :=
  match fields with
  | none => complete stack (.str (String.ofList read))
  | some fields => ⟨stack, .gap (.colon fields (String.ofList read))⟩

/-- A character in a string. -/
def atString (stack : List Frame) (fields : Option Dict) (read : List Char) (escape : Escape)
    (c : Char) : Except JsonError JsonReader :=
  if escape = .none ∧ c = '"' then .ok (closed stack fields read)
  else match unescape escape c with
  | .ok (cs, escape) => .ok ⟨stack, .string fields (read ++ cs) escape⟩
  | .error e => .error e

/-- The place after a word. -/
def atGapAfter (d : JsonDialect) (r : JsonReader) (c : Char) : Except JsonError JsonReader :=
  match r.place with
  | .gap g => atGap d r.stack g c
  | _ => .error .malformed

/-- One character. -/
def step (d : JsonDialect) (r : JsonReader) (c : Char) : Except JsonError JsonReader :=
  match r.place with
  | .gap g => atGap d r.stack g c
  | .string fields read escape => atString r.stack fields read escape c
  | .word read =>
    if isWord c then .ok ⟨r.stack, .word (read ++ [c])⟩
    else match d.word read with
    | some v => atGapAfter d (complete r.stack v) c
    | none => .error .malformed

/-- The end of the text. -/
def finish (d : JsonDialect) (r : JsonReader) : Except JsonError Json :=
  match r with
  | ⟨[], .gap (.done v)⟩ => .ok v
  | ⟨[], .word read⟩ =>
    match d.word read with
    | some v => .ok v
    | none => .error .malformed
  | _ => .error .malformed

/-- The rest of the text. -/
def run (d : JsonDialect) : JsonReader → List Char → Except JsonError Json
  | r, [] => r.finish d
  | r, c :: cs =>
    match r.step d c with
    | .ok r => run d r cs
    | .error e => .error e

end JsonReader

open JsonReader in
/-- The value that a text writes. -/
def readJson (d : JsonDialect) (cs : List Char) : Except JsonError Json :=
  run d ⟨[], .gap .value⟩ cs

/-- The reader of `json.loads`, on text. -/
def loadsDialect (limit : ℕ) : JsonDialect := ⟨limit, JsonReader.loadsWord⟩

/-- The reader of `JSON.parse`. -/
def scriptDialect (limit : ℕ) : JsonDialect := ⟨limit, JsonReader.scriptWord⟩

end Py
