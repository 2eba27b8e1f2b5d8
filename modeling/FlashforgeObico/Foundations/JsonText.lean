import FlashforgeObico.Foundations.JsonReader

/-!
# Writing JSON

The texts of JSON values, as `json.dumps` and `JSON.stringify` write them. `readJson_write` says
that what is written is read as the value that it was written for, with its words as the reader
takes them, unless there is one that the reader does not know. `JSON.parse` takes an integer for the
nearest binary64 number (`readJson_dumps`).
-/

namespace Py

/-! ## Writers -/

mutual

/-- The values in a value that are no arrays and no objects, in the order in which they are
written. -/
def Json.leaves : Json → List Json
  | .arr items => itemsLeaves items
  | .obj fields => fieldsLeaves fields
  | v => [v]
termination_by structural v => v

def itemsLeaves : List Json → List Json
  | [] => []
  | v :: vs => v.leaves ++ itemsLeaves vs
termination_by structural vs => vs

def fieldLeaves : String × Json → List Json
  | (_, v) => v.leaves
termination_by structural field => field

def fieldsLeaves : List (String × Json) → List Json
  | [] => []
  | field :: fields => fieldLeaves field ++ fieldsLeaves fields
termination_by structural fields => fields

end

theorem mem_itemsLeaves {items : List Json} {v : Json} :
    v ∈ itemsLeaves items ↔ ∃ item ∈ items, v ∈ item.leaves := by
  induction items with
  | nil => simp [itemsLeaves]
  | cons item items ih =>
    rw [itemsLeaves, List.mem_append, ih]
    simp only [List.mem_cons, exists_eq_or_imp]

theorem mem_fieldsLeaves {fields : Dict} {v : Json} :
    v ∈ fieldsLeaves fields ↔ ∃ field ∈ fields, v ∈ field.2.leaves := by
  induction fields with
  | nil => simp [fieldsLeaves]
  | cons field fields ih =>
    rw [fieldsLeaves, List.mem_append, ih, fieldLeaves]
    simp only [List.mem_cons, exists_eq_or_imp]

/-- A float. -/
def Json.float? : Json → Option Double
  | .float x => some x
  | _ => none

/-- The floats in a value, in the order in which they are written. -/
def Json.floats (v : Json) : List Double := v.leaves.filterMap Json.float?

@[simp] theorem Json.floats_null : Json.null.floats = [] := rfl

@[simp] theorem Json.floats_bool (b : Bool) : (Json.bool b).floats = [] := rfl

@[simp] theorem Json.floats_int (n : ℤ) : (Json.int n).floats = [] := rfl

@[simp] theorem Json.floats_float (x : Double) : (Json.float x).floats = [x] := rfl

@[simp] theorem Json.floats_str (s : String) : (Json.str s).floats = [] := rfl

@[simp] theorem Json.floats_arr (items : List Json) :
    (Json.arr items).floats = items.flatMap Json.floats := by
  change (itemsLeaves items).filterMap Json.float? = _
  induction items with
  | nil => rfl
  | cons v vs ih => rw [itemsLeaves, List.filterMap_append, ih, List.flatMap_cons, Json.floats]

@[simp] theorem Json.floats_obj (fields : Dict) :
    (Json.obj fields).floats = fields.flatMap fun field => field.2.floats := by
  change (fieldsLeaves fields).filterMap Json.float? = _
  induction fields with
  | nil => rfl
  | cons field fields ih =>
    rw [fieldsLeaves, List.filterMap_append, ih, List.flatMap_cons, Json.floats, fieldLeaves]

/-- The value is written as a word. -/
def Json.isWord : Json → Bool
  | .null | .bool _ | .int _ | .float _ => true
  | _ => false

mutual

/-- The value with its words as `f` gives them. -/
def Json.mapWords (f : Json → Json) : Json → Json
  | .arr items => .arr (mapItems f items)
  | .obj fields => .obj (mapFields f fields)
  | .str s => .str s
  | v => f v
termination_by structural v => v

def mapItems (f : Json → Json) : List Json → List Json
  | [] => []
  | v :: vs => v.mapWords f :: mapItems f vs
termination_by structural vs => vs

def mapField (f : Json → Json) : String × Json → String × Json
  | (key, v) => (key, v.mapWords f)
termination_by structural field => field

def mapFields (f : Json → Json) : List (String × Json) → List (String × Json)
  | [] => []
  | field :: fields => mapField f field :: mapFields f fields
termination_by structural fields => fields

end

theorem mapItems_eq (f : Json → Json) (items : List Json) :
    mapItems f items = items.map (Json.mapWords f) := by
  induction items with
  | nil => rfl
  | cons v vs ih => rw [mapItems, ih, List.map_cons]

/-- A number as ECMAScript has it: an integer is the nearest binary64 number. -/
def Json.number : Json → Json
  | .int n => .float (.round64 n)
  | v => v

/-- The value as ECMAScript has it. -/
def Json.script (v : Json) : Json := v.mapWords Json.number

/-- The keys of each object are distinct, and at most `n` arrays and objects are in one another. -/
inductive Json.Within : ℕ → Json → Prop
  | word {n v} (h : v.isWord = true) : Within n v
  | str (n s) : Within n (.str s)
  | arr {n items} (h : ∀ v ∈ items, Within n v) : Within (n + 1) (.arr items)
  | obj {n fields} (hkeys : (fields.map Prod.fst).Nodup) (h : ∀ field ∈ fields, Within n field.2) :
      Within (n + 1) (.obj fields)

/-- What writers differ in. -/
structure JsonWriter where
  /-- What follows a comma, and a colon. -/
  space : List Char
  escape : Char → List Char
  int : ℤ → List Char
  float : Double → List Char

namespace JsonWriter

variable (w : JsonWriter)

/-- A string. -/
def quote (s : String) : List Char := '"' :: (s.toList.flatMap w.escape ++ ['"'])

/-- Texts with commas between them. -/
def join : List (List Char) → List Char
  | [] => []
  | t :: ts => t ++ ts.flatMap fun t => ',' :: (w.space ++ t)

mutual

/-- The text of a value. -/
def write : Json → List Char
  | .null => "null".toList
  | .bool b => if b then "true".toList else "false".toList
  | .int n => w.int n
  | .float x => w.float x
  | .str s => w.quote s
  | .arr items => '[' :: (w.join (writeItems items) ++ [']'])
  | .obj fields => '\x7b' :: (w.join (writeFields fields) ++ ['\x7d'])
termination_by structural v => v

def writeItems : List Json → List (List Char)
  | [] => []
  | v :: vs => write v :: writeItems vs
termination_by structural vs => vs

def writeField : String × Json → List Char
  | (key, v) => w.quote key ++ ':' :: (w.space ++ write v)
termination_by structural field => field

def writeFields : List (String × Json) → List (List Char)
  | [] => []
  | field :: fields => writeField field :: writeFields fields
termination_by structural fields => fields

end

end JsonWriter

open JsonReader in
/-- The letter of the escape of one letter, if a character has one. -/
def letterOf (c : Char) : Option Char := (letters.find? fun p => p.2 = c).map Prod.fst

/-- A code unit as an escape. -/
def unicodeEscape (n : ℕ) : List Char :=
  ['\\', 'u', Nat.digitChar (n / 4096 % 16), Nat.digitChar (n / 256 % 16),
    Nat.digitChar (n / 16 % 16), Nat.digitChar (n % 16)]

/-- A character in a string that `JSON.stringify` writes. -/
def stringifyChar (c : Char) : List Char :=
  match letterOf c with
  | some l => ['\\', l]
  | none => if c.toNat < 0x20 then unicodeEscape c.toNat else [c]

/-- A character in a string that `json.dumps` writes. -/
def dumpsChar (c : Char) : List Char :=
  match letterOf c with
  | some l => ['\\', l]
  | none =>
    let n := c.toNat
    if 0x20 ≤ n ∧ n < 0x7F then [c]
    else if n < 0x10000 then unicodeEscape n
    else unicodeEscape (0xD800 + (n - 0x10000) / 0x400) ++
      unicodeEscape (0xDC00 + (n - 0x10000) % 0x400)

/-- `str(n)`. -/
def intText (n : ℤ) : List Char :=
  if n < 0 then '-' :: Nat.toDigits 10 n.natAbs else Nat.toDigits 10 n.natAbs

/-- The text of a float in `json.dumps`, given `float.__repr__`. -/
def dumpsFloat (repr : Double → List Char) : Double → List Char
  | .nan => "NaN".toList
  | .inf negative => if negative then "-Infinity".toList else "Infinity".toList
  | x => repr x

/-- `JSON.stringify`, given the texts of the numbers. -/
def stringify (int : ℤ → List Char) (float : Double → List Char) : JsonWriter :=
  { space := [], escape := stringifyChar, int, float }

/-- `json.dumps`, given `float.__repr__`. -/
def dumps (repr : Double → List Char) : JsonWriter :=
  { space := [' '], escape := dumpsChar, int := intText, float := dumpsFloat repr }

/-! ## Strings are read -/

namespace JsonReader

variable {d : JsonDialect} {w : JsonWriter} {stack : List Frame} {fields : Option Dict}
  {read rest cs : List Char} {c : Char} {e e' : Escape} {n : ℕ}

theorem run_of_step {r r' : JsonReader} (h : r.step d c = .ok r') (cs : List Char) :
    run d r (c :: cs) = run d r' cs := by
  rw [run, h]

theorem run_of_step_error {r : JsonReader} {error : JsonError} (h : r.step d c = .error error)
    (cs : List Char) : run d r (c :: cs) = .error error := by
  rw [run, h]

/-- A character that does not end the string. -/
theorem run_unescape (h : unescape e c = .ok (cs, e')) (hc : e = .none → c ≠ '"') :
    run d ⟨stack, .string fields read e⟩ (c :: rest) =
      run d ⟨stack, .string fields (read ++ cs) e'⟩ rest := by
  apply run_of_step
  have hends : ¬ (e = .none ∧ c = '"') := fun hends => hc hends.1 hends.2
  simp only [step, atString, if_neg hends, h]

/-- The quotation mark that ends the string. -/
theorem run_quote : run d ⟨stack, .string fields read .none⟩ ('"' :: rest) =
    run d (closed stack fields read) rest := rfl

theorem hexValue?_digitChar : ∀ n < 16, hexValue? (Nat.digitChar n) = some n := by decide

/-- The four digits of a code unit, the last of which completes it. -/
theorem run_digits (f : ℕ → ℕ → Escape) (done : ℕ → Except JsonError (List Char × Escape))
    (hnone : ∀ n k, f n k ≠ .none)
    (hf : ∀ n k m, m < 16 →
      unescape (f n (k + 2)) (Nat.digitChar m) = .ok ([], f (n * 16 + m) (k + 1)))
    (hlast : ∀ n m, m < 16 → unescape (f n 1) (Nat.digitChar m) = done (n * 16 + m))
    (hn : n < 0x10000) (hdone : done n = .ok (cs, e)) :
    run d ⟨stack, .string fields read (f 0 4)⟩ (Nat.digitChar (n / 4096 % 16) ::
        Nat.digitChar (n / 256 % 16) :: Nat.digitChar (n / 16 % 16) ::
          Nat.digitChar (n % 16) :: rest) =
      run d ⟨stack, .string fields (read ++ cs) e⟩ rest := by
  have hlt (m : ℕ) : m % 16 < 16 := Nat.mod_lt _ (by decide)
  have hvalue : (((0 * 16 + n / 4096 % 16) * 16 + n / 256 % 16) * 16 + n / 16 % 16) * 16 + n % 16 =
      n := by omega
  have hlast' := hlast (((0 * 16 + n / 4096 % 16) * 16 + n / 256 % 16) * 16 + n / 16 % 16) (n % 16)
    (hlt n)
  rw [hvalue, hdone] at hlast'
  rw [run_unescape (hf _ 2 _ (hlt _)) fun h => absurd h (hnone _ _),
    run_unescape (hf _ 1 _ (hlt _)) fun h => absurd h (hnone _ _),
    run_unescape (hf _ 0 _ (hlt _)) fun h => absurd h (hnone _ _),
    run_unescape hlast' fun h => absurd h (hnone _ _)]
  simp only [List.append_nil]

theorem run_unicodeEscape (hn : n < 0x10000) (h : codeUnit n = .ok (cs, e)) :
    run d ⟨stack, .string fields read .none⟩ (unicodeEscape n ++ rest) =
      run d ⟨stack, .string fields (read ++ cs) e⟩ rest := by
  have hbackslash : unescape .none '\\' = .ok ([], .backslash) := rfl
  have hu : unescape .backslash 'u' = .ok ([], .hex 0 4) := rfl
  rw [unicodeEscape]
  simp only [List.cons_append, List.nil_append]
  rw [run_unescape hbackslash fun _ => by decide, run_unescape hu (by simp)]
  simp only [List.append_nil]
  refine run_digits .hex codeUnit (by simp) ?_ ?_ hn h
  · intro n k m hm
    rw [unescape, hexValue?_digitChar m hm]
    rfl
  · intro n m hm
    rw [unescape, hexValue?_digitChar m hm]
    rfl

/-- The second half of a surrogate pair. -/
theorem run_unicodeEscape_high {h : ℕ} (hn : n < 0x10000) (hlow : secondUnit h n = .ok (cs, e)) :
    run d ⟨stack, .string fields read (.high h)⟩ (unicodeEscape n ++ rest) =
      run d ⟨stack, .string fields (read ++ cs) e⟩ rest := by
  have hbackslash : unescape (.high h) '\\' = .ok ([], .highBackslash h) := rfl
  have hu : unescape (.highBackslash h) 'u' = .ok ([], .low h 0 4) := rfl
  rw [unicodeEscape]
  simp only [List.cons_append, List.nil_append]
  rw [run_unescape hbackslash (by simp), run_unescape hu (by simp)]
  simp only [List.append_nil]
  refine run_digits (.low h) (secondUnit h) (by simp) ?_ ?_ hn hlow
  · intro n k m hm
    rw [unescape, hexValue?_digitChar m hm]
    rfl
  · intro n m hm
    rw [unescape, hexValue?_digitChar m hm]
    rfl

theorem letterOf_eq_some {l : Char} (h : letterOf c = some l) :
    (('/', '/') :: letters).lookup l = some c ∧ l ≠ 'u' := by
  have hall : (letters.all fun p =>
      decide ((('/', '/') :: letters).lookup p.1 = some p.2 ∧ p.1 ≠ 'u')) = true := rfl
  obtain ⟨p, hp, rfl⟩ := Option.map_eq_some_iff.mp h
  obtain rfl : p.2 = c := by simpa using List.find?_some hp
  exact of_decide_eq_true (List.all_eq_true.mp hall p (List.mem_of_find?_eq_some hp))

theorem letterOf_eq_none (h : letterOf c = none) : c ≠ '"' ∧ c ≠ '\\' := by
  constructor <;> (rintro rfl; cases h)

/-- The escape of one letter. -/
theorem run_letter {l : Char} (h : letterOf c = some l) :
    run d ⟨stack, .string fields read .none⟩ ('\\' :: l :: rest) =
      run d ⟨stack, .string fields (read ++ [c]) .none⟩ rest := by
  obtain ⟨hlookup, hu⟩ := letterOf_eq_some h
  have hbackslash : unescape .none '\\' = .ok ([], .backslash) := rfl
  have hl : unescape .backslash l = .ok ([c], .none) := by
    rw [unescape, if_neg hu, hlookup]
  rw [run_unescape hbackslash fun _ => by decide, run_unescape hl (by simp), List.append_nil]

/-- A character that is written as it is. -/
theorem run_char (h : letterOf c = none) (hc : 0x20 ≤ c.toNat) :
    run d ⟨stack, .string fields read .none⟩ (c :: rest) =
      run d ⟨stack, .string fields (read ++ [c]) .none⟩ rest := by
  obtain ⟨hquote, hbackslash⟩ := letterOf_eq_none h
  refine run_unescape ?_ fun _ => hquote
  rw [unescape, if_neg hbackslash, if_neg (by omega)]

theorem codeUnit_toNat (hc : c.toNat < 0x10000) : codeUnit c.toNat = .ok ([c], .none) := by
  have hvalid : c.toNat < 0xD800 ∨ 0xDFFF < c.toNat ∧ c.toNat < 0x110000 := c.valid
  rw [codeUnit, if_neg (by omega), if_neg (by omega), Char.ofNat_toNat]

end JsonReader

namespace JsonWriter

open JsonReader

/-- What lets a reader read the texts of a writer. -/
structure Sound (w : JsonWriter) : Prop where
  blank : ∀ c ∈ w.space, isBlank c = true
  escape : ∀ (d : JsonDialect) (stack : List Frame) (fields : Option Dict) (read rest : List Char)
    (c : Char), run d ⟨stack, .string fields read .none⟩ (w.escape c ++ rest) =
      run d ⟨stack, .string fields (read ++ [c]) .none⟩ rest

theorem sound_stringify (int : ℤ → List Char) (float : Double → List Char) :
    (stringify int float).Sound where
  blank := by simp [stringify]
  escape d stack fields read rest c := by
    change run d _ (stringifyChar c ++ rest) = _
    unfold stringifyChar
    rcases hl : letterOf c with _ | l
    · dsimp only
      split_ifs with hc
      · exact run_unicodeEscape (by omega) (codeUnit_toNat (by omega))
      · exact run_char hl (by omega)
    · exact run_letter hl

theorem sound_dumps (repr : Double → List Char) : (dumps repr).Sound where
  blank := by simp [dumps, isBlank]
  escape d stack fields read rest c := by
    change run d _ (dumpsChar c ++ rest) = _
    unfold dumpsChar
    rcases hl : letterOf c with _ | l
    · dsimp only
      split_ifs with hascii hunit
      · exact run_char hl hascii.1
      · exact run_unicodeEscape hunit (codeUnit_toNat hunit)
      · -- Two code units.
        have hvalid : c.toNat < 0xD800 ∨ 0xDFFF < c.toNat ∧ c.toNat < 0x110000 := c.valid
        have hhigh : codeUnit (0xD800 + (c.toNat - 0x10000) / 0x400) =
            .ok ([], .high (0xD800 + (c.toNat - 0x10000) / 0x400)) := by
          rw [codeUnit, if_pos (by omega)]
        have hvalue : 0x10000 + (0xD800 + (c.toNat - 0x10000) / 0x400 - 0xD800) * 0x400 +
            (0xDC00 + (c.toNat - 0x10000) % 0x400 - 0xDC00) = c.toNat := by omega
        have hlow : secondUnit (0xD800 + (c.toNat - 0x10000) / 0x400)
            (0xDC00 + (c.toNat - 0x10000) % 0x400) = .ok ([c], .none) := by
          rw [secondUnit, if_pos (by omega), hvalue, Char.ofNat_toNat]
        rw [List.append_assoc, run_unicodeEscape (by omega) hhigh, List.append_nil,
          run_unicodeEscape_high (by omega) hlow]
    · exact run_letter hl

end JsonWriter

/-! ## Values are read -/

namespace JsonWriter

open JsonReader

variable (d : JsonDialect) (w : JsonWriter)

/-- The reader knows the value, if that is written as a word. -/
def readable (v : Json) : Bool := !v.isWord || (d.word (w.write v)).isSome

/-- If the value is written as a word, the reader takes that for no other value than `f` gives. -/
def Clear (f : Json → Json) (v : Json) : Prop :=
  v.isWord = true → w.write v ≠ [] ∧ (∀ c ∈ w.write v, JsonReader.isWord c = true) ∧
    ∀ v' ∈ d.word (w.write v), v' = f v

/-- Where a value may stand, the reader reads its text, with the words as `f` gives them, or it
stops at a word that it does not know. -/
def IsRead (f : Json → Json) (n : ℕ) (v : Json) : Prop :=
  ∀ (stack : List Frame) (rest : List Char), stack.length + n ≤ d.limit →
    (∀ c ∈ rest.head?, JsonReader.isWord c = false) →
      run d ⟨stack, .gap .value⟩ (w.write v ++ rest) =
        if v.leaves.all (w.readable d) then run d (complete stack (v.mapWords f)) rest
        else .error .malformed

end JsonWriter

namespace JsonReader

open JsonWriter

variable {d : JsonDialect} {w : JsonWriter} {f : Json → Json} {stack : List Frame} {fields : Dict}
  {read rest cs : List Char} {c : Char} {g : Gap} {n : ℕ} {v : Json} {key : String}

theorem run_blanks (h : ∀ c ∈ cs, isBlank c = true) (stack : List Frame) (g : Gap)
    (rest : List Char) : run d ⟨stack, .gap g⟩ (cs ++ rest) = run d ⟨stack, .gap g⟩ rest := by
  induction cs with
  | nil => rfl
  | cons c cs ih =>
    obtain ⟨hc, hcs⟩ := List.forall_mem_cons.mp h
    have hstep : step d ⟨stack, .gap g⟩ c = .ok ⟨stack, .gap g⟩ := by
      simp only [step, atGap, if_pos hc]
    rw [List.cons_append, run_of_step hstep, ih hcs]

/-! ### Words and strings -/

theorem isWord_spec (h : isWord c = true) :
    isBlank c = false ∧ c ≠ '"' ∧ c ≠ '[' ∧ c ≠ '\x7b' ∧ c ≠ ']' := by
  have hc := of_decide_eq_true h
  simp only [List.mem_cons, List.not_mem_nil, or_false, not_or, Bool.not_eq_true] at hc
  obtain ⟨hblank, hquote, -, -, hopen, hclose, hbrace, -⟩ := hc
  exact ⟨hblank, hquote, hopen, hbrace, hclose⟩

theorem run_word (h : ∀ c ∈ cs, isWord c = true) (read rest : List Char) :
    run d ⟨stack, .word read⟩ (cs ++ rest) = run d ⟨stack, .word (read ++ cs)⟩ rest := by
  induction cs generalizing read with
  | nil => rw [List.nil_append, List.append_nil]
  | cons c cs ih =>
    obtain ⟨hc, hcs⟩ := List.forall_mem_cons.mp h
    have hstep : step d ⟨stack, .word read⟩ c = .ok ⟨stack, .word (read ++ [c])⟩ := by
      simp only [step, if_pos hc]
    rw [List.cons_append, run_of_step hstep, ih hcs, List.append_assoc]
    rfl

theorem step_complete (stack : List Frame) (v : Json) (c : Char) :
    step d (complete stack v) c = atGapAfter d (complete stack v) c := by
  rcases stack with _ | ⟨_ | _, _⟩ <;> rfl

/-- The end of a word. -/
theorem run_word_end (h : ∀ c ∈ rest.head?, isWord c = false) :
    run d ⟨stack, .word read⟩ rest = match d.word read with
      | some v => run d (complete stack v) rest
      | none => .error .malformed := by
  rcases rest with _ | ⟨c, rest⟩
  · rcases stack with _ | ⟨_ | _, _⟩ <;> rcases hread : d.word read with _ | v <;>
      simp [run, finish, complete, hread]
  · have hc : isWord c = false := h c rfl
    rcases hread : d.word read with _ | v
    · refine run_of_step_error ?_ rest
      simp [step, hc, hread]
    · have hstep : step d ⟨stack, .word read⟩ c = step d (complete stack v) c := by
        rw [step_complete]
        simp [step, hc, hread]
      change run d _ (c :: rest) = run d (complete stack v) (c :: rest)
      simp only [run, hstep]

theorem run_chars (hw : w.Sound) (fields : Option Dict) (cs read rest : List Char) :
    run d ⟨stack, .string fields read .none⟩ (cs.flatMap w.escape ++ rest) =
      run d ⟨stack, .string fields (read ++ cs) .none⟩ rest := by
  induction cs generalizing read with
  | nil => rw [List.flatMap_nil, List.nil_append, List.append_nil]
  | cons c cs ih =>
    rw [List.flatMap_cons, List.append_assoc, hw.escape, ih, List.append_assoc]
    rfl

/-- The rest of a string. -/
theorem run_quoted (hw : w.Sound) (fields : Option Dict) (s : String) (rest : List Char) :
    run d ⟨stack, .string fields [] .none⟩ (s.toList.flatMap w.escape ++ '"' :: rest) =
      run d (closed stack fields s.toList) rest := by
  rw [run_chars hw, run_quote, List.nil_append]

theorem leaves_of_isWord (h : v.isWord = true) : v.leaves = [v] := by
  cases v <;> first | rfl | cases h

theorem mapWords_of_isWord (h : v.isWord = true) : v.mapWords f = f v := by
  cases v <;> first | rfl | cases h

theorem isRead_word (hword : v.isWord = true) (hclear : Clear d w f v) : IsRead d w f n v := by
  intro stack rest _ hrest
  obtain ⟨hne, hchars, hvalue⟩ := hclear hword
  have hreadable : v.leaves.all (w.readable d) = (d.word (w.write v)).isSome := by
    rw [leaves_of_isWord hword, List.all_cons, List.all_nil, readable, hword]
    simp
  rw [hreadable]
  obtain ⟨c, cs, htext⟩ := List.exists_cons_of_ne_nil hne
  rw [htext] at hchars hvalue ⊢
  obtain ⟨hc, hcs⟩ := List.forall_mem_cons.mp hchars
  obtain ⟨hblank, hquote, hopen, hbrace, -⟩ := isWord_spec hc
  have hstep : step d ⟨stack, .gap .value⟩ c = .ok ⟨stack, .word [c]⟩ := by
    simp [step, atGap, startValue, hblank, hquote, hopen, hbrace, hc]
  rw [List.cons_append, run_of_step hstep, run_word hcs, run_word_end hrest, List.singleton_append]
  rcases hread : d.word (c :: cs) with _ | v'
  · rfl
  · rw [mapWords_of_isWord hword, ← hvalue v' hread]
    rfl

theorem isRead_str (hw : w.Sound) (s : String) : IsRead d w f n (.str s) := by
  intro stack rest _ _
  have htext : w.write (.str s) ++ rest = '"' :: (s.toList.flatMap w.escape ++ '"' :: rest) := by
    rw [write, quote, List.cons_append, List.append_assoc]
    rfl
  have hstep : step d ⟨stack, .gap .value⟩ '"' = .ok ⟨stack, .string none [] .none⟩ := rfl
  rw [htext, run_of_step hstep, run_quoted hw, closed, String.ofList_toList]
  rfl

/-! ### Arrays and objects -/

theorem ite_and {α : Type} {a b : Bool} {x y : α} :
    (if a then (if b then x else y) else y) = if a && b then x else y := by
  cases a <;> cases b <;> rfl

theorem writeItems_eq (items : List Json) : w.writeItems items = items.map w.write := by
  induction items with
  | nil => rfl
  | cons v vs ih => rw [writeItems, ih, List.map_cons]

theorem writeFields_eq (fields : Dict) : w.writeFields fields = fields.map w.writeField := by
  induction fields with
  | nil => rfl
  | cons field fields ih => rw [writeFields, ih, List.map_cons]

/-- What follows an item or a field. -/
theorem head_rest {ts : List (List Char)} {close : Char} (hclose : isWord close = false) :
    ∀ c ∈ (ts.flatMap (fun t => ',' :: (w.space ++ t)) ++ close :: rest).head?,
      isWord c = false := by
  rcases ts with _ | ⟨t, ts⟩
  · intro c hc
    obtain rfl : close = c := by simpa using hc
    exact hclose
  · intro c hc
    obtain rfl : ',' = c := by simpa using hc
    rfl

/-- The items after an item. -/
theorem run_items (hw : w.Sound) {vs : List Json} (h : ∀ v ∈ vs, IsRead d w f n v)
    (hdepth : stack.length + (n + 1) ≤ d.limit) (items : List Json) (rest : List Char) :
    run d ⟨stack, .gap (.inArr items)⟩
        ((vs.map w.write).flatMap (fun t => ',' :: (w.space ++ t)) ++ ']' :: rest) =
      if (itemsLeaves vs).all (w.readable d) then
        run d (complete stack (.arr (items ++ mapItems f vs))) rest
      else .error .malformed := by
  induction vs generalizing items with
  | nil =>
    rw [mapItems, List.append_nil]
    rfl
  | cons v vs ih =>
    obtain ⟨hv, hvs⟩ := List.forall_mem_cons.mp h
    have hcomma : step d ⟨stack, .gap (.inArr items)⟩ ',' =
        .ok ⟨.arr items :: stack, .gap .value⟩ := rfl
    have hlength : (Frame.arr items :: stack).length + n ≤ d.limit := by
      rw [List.length_cons]
      omega
    rw [List.map_cons, List.flatMap_cons, List.cons_append, List.cons_append, run_of_step hcomma,
      List.append_assoc, List.append_assoc, run_blanks hw.blank,
      hv _ _ hlength (head_rest rfl), complete, ih hvs, ite_and, itemsLeaves, List.all_append,
      List.append_assoc, mapItems]
    rfl

/-- The text of a value starts neither with white space nor with a closing bracket. -/
theorem write_eq_cons (h : v.Within n) (hclear : ∀ x ∈ v.leaves, Clear d w f x) :
    ∃ c cs, w.write v = c :: cs ∧ isBlank c = false ∧ c ≠ ']' := by
  cases h with
  | word hword =>
    rw [leaves_of_isWord hword] at hclear
    obtain ⟨hne, hchars, -⟩ := hclear v List.mem_cons_self hword
    obtain ⟨c, cs, htext⟩ := List.exists_cons_of_ne_nil hne
    rw [htext] at hchars
    obtain ⟨hblank, -, -, -, hclose⟩ := isWord_spec (hchars c List.mem_cons_self)
    exact ⟨c, cs, htext, hblank, hclose⟩
  | str s => exact ⟨_, _, by rw [write, quote], rfl, by decide⟩
  | arr _ => exact ⟨_, _, by rw [write], rfl, by decide⟩
  | obj _ _ => exact ⟨_, _, by rw [write], rfl, by decide⟩

theorem isRead_arr (hw : w.Sound) {items : List Json} (hwithin : ∀ v ∈ items, v.Within n)
    (hclear : ∀ v ∈ items, ∀ x ∈ v.leaves, Clear d w f x) (h : ∀ v ∈ items, IsRead d w f n v) :
    IsRead d w f (n + 1) (.arr items) := by
  intro stack rest hdepth _
  have hopen : step d ⟨stack, .gap .value⟩ '[' = .ok ⟨stack, .gap .openArr⟩ := by
    have hlimit : ¬ d.limit ≤ stack.length := by omega
    simp [step, atGap, startValue, isBlank, hlimit]
  rw [write, List.cons_append, run_of_step hopen, writeItems_eq, List.append_assoc,
    List.singleton_append]
  rcases items with _ | ⟨v, vs⟩
  · rfl
  · obtain ⟨hv, hvs⟩ := List.forall_mem_cons.mp h
    obtain ⟨c, cs, htext, hblank, hclose⟩ :=
      write_eq_cons (hwithin v List.mem_cons_self) (hclear v List.mem_cons_self)
    have hlength : (Frame.arr [] :: stack).length + n ≤ d.limit := by
      rw [List.length_cons]
      omega
    -- A value after the bracket is read as one in the array.
    have hfirst (rest : List Char) : run d ⟨stack, .gap .openArr⟩ (w.write v ++ rest) =
        run d ⟨.arr [] :: stack, .gap .value⟩ (w.write v ++ rest) := by
      have hstep : step d ⟨stack, .gap .openArr⟩ c = step d ⟨.arr [] :: stack, .gap .value⟩ c := by
        simp [step, atGap, hblank, hclose]
      rw [htext, List.cons_append, run, run, hstep]
    rw [List.map_cons, join, List.append_assoc, hfirst, hv _ _ hlength (head_rest rfl), complete,
      run_items hw hvs hdepth, ite_and, List.nil_append, ← List.all_append]
    rfl

theorem set_of_not_mem (h : key ∉ fields.map Prod.fst) (v : Json) :
    fields.set key v = fields ++ [(key, v)] := by
  induction fields with
  | nil => rfl
  | cons field fields ih =>
    obtain ⟨key', v'⟩ := field
    rw [List.map_cons, List.mem_cons, not_or] at h
    rw [Dict.set, if_neg (Ne.symm h.1), ih h.2, List.cons_append]

/-- A field, where a key may stand. -/
theorem run_field (hw : w.Sound) (h : IsRead d w f n v)
    (hg : step d ⟨stack, .gap g⟩ '"' = .ok ⟨stack, .string (some fields) [] .none⟩)
    (hdepth : stack.length + (n + 1) ≤ d.limit) (hkey : key ∉ fields.map Prod.fst)
    (hrest : ∀ c ∈ rest.head?, isWord c = false) :
    run d ⟨stack, .gap g⟩ (w.writeField (key, v) ++ rest) =
      if v.leaves.all (w.readable d) then
        run d ⟨stack, .gap (.inObj (fields ++ [mapField f (key, v)]))⟩ rest
      else .error .malformed := by
  have hcolon : step d ⟨stack, .gap (.colon fields key)⟩ ':' =
      .ok ⟨.obj fields key :: stack, .gap .value⟩ := rfl
  have hlength : (Frame.obj fields key :: stack).length + n ≤ d.limit := by
    rw [List.length_cons]
    omega
  have htext : w.writeField (key, v) ++ rest = '"' :: (key.toList.flatMap w.escape ++
      '"' :: ':' :: (w.space ++ (w.write v ++ rest))) := by
    rw [writeField, quote]
    simp only [List.cons_append, List.append_assoc, List.nil_append]
  rw [htext, run_of_step hg, run_quoted hw, closed, String.ofList_toList, run_of_step hcolon,
    run_blanks hw.blank, h _ _ hlength hrest, complete, set_of_not_mem hkey, mapField]

/-- The fields after a field. -/
theorem run_fields (hw : w.Sound) {fs : Dict} (h : ∀ field ∈ fs, IsRead d w f n field.2)
    (hdepth : stack.length + (n + 1) ≤ d.limit) (fields : Dict)
    (hkeys : ((fields ++ fs).map Prod.fst).Nodup) (rest : List Char) :
    run d ⟨stack, .gap (.inObj fields)⟩
        ((fs.map w.writeField).flatMap (fun t => ',' :: (w.space ++ t)) ++ '\x7d' :: rest) =
      if (fieldsLeaves fs).all (w.readable d) then
        run d (complete stack (.obj (fields ++ mapFields f fs))) rest
      else .error .malformed := by
  induction fs generalizing fields with
  | nil =>
    rw [mapFields, List.append_nil]
    rfl
  | cons field fs ih =>
    obtain ⟨key, v⟩ := field
    obtain ⟨hv, hvs⟩ := List.forall_mem_cons.mp h
    have hcomma : step d ⟨stack, .gap (.inObj fields)⟩ ',' = .ok ⟨stack, .gap (.key fields)⟩ := rfl
    have hkey : key ∉ fields.map Prod.fst := by
      rw [List.map_append, List.map_cons, List.nodup_append] at hkeys
      exact fun hmem => hkeys.2.2 _ hmem _ List.mem_cons_self rfl
    have hkeys' : ((fields ++ [mapField f (key, v)] ++ fs).map Prod.fst).Nodup := by
      simpa [mapField] using hkeys
    rw [List.map_cons, List.flatMap_cons, List.cons_append, List.cons_append, run_of_step hcomma,
      List.append_assoc, List.append_assoc, run_blanks hw.blank,
      run_field hw hv rfl hdepth hkey (head_rest rfl), ih hvs _ hkeys', ite_and, fieldsLeaves,
      fieldLeaves, List.all_append, List.append_assoc, mapFields]
    rfl

theorem isRead_obj (hw : w.Sound) {fields : Dict} (hkeys : (fields.map Prod.fst).Nodup)
    (h : ∀ field ∈ fields, IsRead d w f n field.2) : IsRead d w f (n + 1) (.obj fields) := by
  intro stack rest hdepth _
  have hopen : step d ⟨stack, .gap .value⟩ '\x7b' = .ok ⟨stack, .gap .openObj⟩ := by
    have hlimit : ¬ d.limit ≤ stack.length := by omega
    simp [step, atGap, startValue, isBlank, hlimit]
  rw [write, List.cons_append, run_of_step hopen, writeFields_eq, List.append_assoc,
    List.singleton_append]
  rcases fields with _ | ⟨⟨key, v⟩, fs⟩
  · rfl
  · obtain ⟨hv, hvs⟩ := List.forall_mem_cons.mp h
    have hquote : step d ⟨stack, .gap .openObj⟩ '"' = .ok ⟨stack, .string (some []) [] .none⟩ := rfl
    rw [List.map_cons, join, List.append_assoc,
      run_field hw hv hquote hdepth List.not_mem_nil (head_rest rfl),
      run_fields hw hvs hdepth _ hkeys, ite_and, ← List.all_append]
    rfl

/-- **A text that a writer writes is read, or stops the reader at a word.** -/
theorem isRead (hw : w.Sound) (h : v.Within n) (hclear : ∀ x ∈ v.leaves, Clear d w f x) :
    IsRead d w f n v := by
  induction h with
  | @word n v hword =>
    rw [leaves_of_isWord hword] at hclear
    exact isRead_word hword (hclear v List.mem_cons_self)
  | str n s => exact isRead_str hw s
  | @arr n items hwithin ih =>
    have hclear' : ∀ v ∈ items, ∀ x ∈ v.leaves, Clear d w f x := fun v hv x hx =>
      hclear x (mem_itemsLeaves.mpr ⟨v, hv, hx⟩)
    exact isRead_arr hw hwithin hclear' fun v hv => ih v hv (hclear' v hv)
  | @obj n fields hkeys _ ih =>
    exact isRead_obj hw hkeys fun field hfield => ih field hfield fun x hx =>
      hclear x (mem_fieldsLeaves.mpr ⟨field, hfield, hx⟩)

end JsonReader

open JsonReader JsonWriter in
/-- **What is written is read as the value that it was written for**, with its words as the reader
takes them, unless there is one in it that the reader does not know. -/
theorem readJson_write {d : JsonDialect} {w : JsonWriter} {f : Json → Json} {n : ℕ} {v : Json}
    (hw : w.Sound) (h : v.Within n) (hclear : ∀ x ∈ v.leaves, Clear d w f x)
    (hdepth : n ≤ d.limit) :
    readJson d (w.write v) =
      if v.leaves.all (w.readable d) then .ok (v.mapWords f) else .error .malformed := by
  have hread := isRead hw h hclear [] [] (by rwa [List.length_nil, Nat.zero_add]) (by simp)
  rw [List.append_nil] at hread
  exact hread

/-! ## The words that `json.dumps` writes -/

namespace JsonReader

variable {c : Char} {cs : List Char}

theorem isWord_of_isDigit (h : c.isDigit = true) : isWord c = true := by
  have hmarks : ([' ', '\t', '\n', '\r', '"', ',', ':', '[', ']', '\x7b', '\x7d'].all
    fun c => !c.isDigit) = true := rfl
  have hnot {c' : Char}
      (hc' : c' ∈ [' ', '\t', '\n', '\r', '"', ',', ':', '[', ']', '\x7b', '\x7d']) : c ≠ c' := by
    rintro rfl
    simpa [h] using List.all_eq_true.mp hmarks c hc'
  rw [isWord, decide_eq_true_eq, not_or]
  constructor
  · simp [isBlank, hnot]
  · simp [hnot]

theorem head_toDigits {n : ℕ} (h : n ≠ 0) : (Nat.toDigits 10 n).head? ≠ some '0' := by
  induction n using Nat.strongRecOn with
  | ind n ih =>
    rw [Nat.toDigits_eq_if (by decide)]
    split_ifs with hn
    · have hdigit : ∀ n < 10, n ≠ 0 → Nat.digitChar n ≠ '0' := by decide
      simpa using hdigit n hn h
    · have hne : Nat.toDigits 10 (n / 10) ≠ [] := Nat.toDigits_ne_nil
      rw [List.head?_append_of_ne_nil _ hne]
      exact ih _ (by omega) (by omega)

theorem isWhole_toDigits (n : ℕ) : isWhole (Nat.toDigits 10 n) = true := by
  have hdigits : (Nat.toDigits 10 n).all Char.isDigit = true :=
    List.all_eq_true.mpr fun c hc => isDigit_of_mem_toDigits hc
  refine decide_eq_true ⟨Nat.toDigits_ne_nil, hdigits, ?_⟩
  rcases eq_or_ne n 0 with rfl | hn
  · exact .inl rfl
  · exact .inr (head_toDigits hn)

theorem dropMinus_of_isDigit (h : ∀ c ∈ cs, c.isDigit = true) : dropMinus cs = cs := by
  unfold dropMinus
  split
  · exact absurd (h '-' List.mem_cons_self) (by decide)
  · rfl

theorem dropMinus_intText (n : ℤ) : dropMinus (intText n) = Nat.toDigits 10 n.natAbs := by
  rw [intText]
  split_ifs
  · rfl
  · exact dropMinus_of_isDigit fun c hc => isDigit_of_mem_toDigits hc

theorem intText_eq (n : ℤ) : intText n = (toString n).toList := (toList_toString_int n).symm

theorem isNumeral_intText (n : ℤ) : isNumeral (intText n) = true := by
  have hdigits : ∀ c ∈ Nat.toDigits 10 n.natAbs, c.isDigit = true :=
    fun c hc => isDigit_of_mem_toDigits hc
  have htake : (Nat.toDigits 10 n.natAbs).takeWhile Char.isDigit = Nat.toDigits 10 n.natAbs :=
    List.takeWhile_eq_self_iff.mpr hdigits
  have hdrop : (Nat.toDigits 10 n.natAbs).dropWhile Char.isDigit = [] :=
    List.dropWhile_eq_nil_iff.mpr hdigits
  rw [isNumeral, dropMinus_intText, htake, hdrop, isWhole_toDigits]
  rfl

theorem scriptWord_intText (n : ℤ) : scriptWord (intText n) = some (.float (.round64 n)) := by
  have hnumeral := isNumeral_intText n
  have hnot {text : List Char} (htext : isNumeral text = false) : intText n ≠ text := by
    rintro rfl
    simp [hnumeral] at htext
  rw [scriptWord, if_neg (hnot (by decide)), if_neg (hnot (by decide)), if_neg (hnot (by decide)),
    if_pos hnumeral, intText_eq, float?_toString]
  rfl

theorem isWord_of_mem_intText {n : ℤ} (h : c ∈ intText n) : isWord c = true := by
  rw [intText] at h
  split_ifs at h
  · rcases List.mem_cons.mp h with rfl | h
    · rfl
    · exact isWord_of_isDigit (isDigit_of_mem_toDigits h)
  · exact isWord_of_isDigit (isDigit_of_mem_toDigits h)

theorem intText_ne_nil (n : ℤ) : intText n ≠ [] := by
  rw [intText]
  split_ifs
  · exact List.cons_ne_nil _ _
  · exact Nat.toDigits_ne_nil

end JsonReader

namespace JsonWriter

open JsonReader

variable {repr : Double → List Char} {limit n : ℕ} {v : Json}

/-- The text of a float is a number of JSON, and is read as the float. -/
structure Reprs (repr : Double → List Char) (x : Double) : Prop where
  ne_nil : repr x ≠ []
  chars : ∀ c ∈ repr x, isWord c = true
  value : scriptWord (repr x) = some (.float x)

/-- A value whose text is given. -/
theorem clear_of_text (text : List Char) (htext : (dumps repr).write v = text) (hne : text ≠ [])
    (hchars : text.all isWord = true) (hvalue : ∀ v' ∈ scriptWord text, v' = v.number) :
    Clear (scriptDialect limit) (dumps repr) Json.number v :=
  fun _ => ⟨htext ▸ hne, htext ▸ List.all_eq_true.mp hchars, htext ▸ hvalue⟩

/-- A float that is not finite is written as a word that `JSON.parse` does not know. -/
theorem clear_float {x : Double} (h : x.isFinite = true → Reprs repr x) :
    Clear (scriptDialect limit) (dumps repr) Json.number (.float x) ∧
      readable (scriptDialect limit) (dumps repr) (.float x) = x.isFinite := by
  cases x with
  | finite q negative =>
    obtain ⟨hne, hchars, hvalue⟩ := h rfl
    refine ⟨fun _ => ⟨hne, hchars, fun v hv => ?_⟩, ?_⟩
    · exact (Option.some.inj (hvalue.symm.trans hv)).symm
    · change (scriptWord (repr (.finite q negative))).isSome = true
      rw [hvalue]
      rfl
  | inf negative =>
    cases negative
    · exact ⟨clear_of_text "Infinity".toList rfl (by decide) rfl (by rintro _ ⟨⟩), rfl⟩
    · exact ⟨clear_of_text "-Infinity".toList rfl (by decide) rfl (by rintro _ ⟨⟩), rfl⟩
  | nan => exact ⟨clear_of_text "NaN".toList rfl (by decide) rfl (by rintro _ ⟨⟩), rfl⟩

/-- `JSON.parse` takes no word of `json.dumps` for another value, with the nearest binary64 number
for an integer, and the floats that are not finite are the words that it does not know. -/
theorem clear_dumps (h : ∀ x, v = .float x → x.isFinite = true → Reprs repr x) :
    Clear (scriptDialect limit) (dumps repr) Json.number v ∧
      readable (scriptDialect limit) (dumps repr) v = v.float?.all Double.isFinite := by
  have hsame {v' : Json} {o : Option Json} (ho : o = some v') : ∀ v ∈ o, v = v' :=
    fun v hv => (Option.some.inj (ho.symm.trans hv)).symm
  cases v with
  | null => exact ⟨clear_of_text "null".toList rfl (by decide) rfl (hsame rfl), rfl⟩
  | bool b =>
    cases b
    · exact ⟨clear_of_text "false".toList rfl (by decide) rfl (hsame rfl), rfl⟩
    · exact ⟨clear_of_text "true".toList rfl (by decide) rfl (hsame rfl), rfl⟩
  | int n =>
    refine ⟨fun _ => ⟨intText_ne_nil n, fun c => isWord_of_mem_intText, ?_⟩, ?_⟩
    · exact hsame (scriptWord_intText n)
    · change (scriptWord (intText n)).isSome = true
      rw [scriptWord_intText]
      rfl
  | float x => exact clear_float (h x rfl)
  | str _ => exact ⟨(by rintro ⟨⟩), rfl⟩
  | arr _ => exact ⟨(by rintro ⟨⟩), rfl⟩
  | obj _ => exact ⟨(by rintro ⟨⟩), rfl⟩

end JsonWriter

open JsonReader JsonWriter in
/-- **`JSON.parse` reads what `json.dumps` writes exactly when no float in it is infinite or a
NaN**, and reads an integer as the nearest binary64 number. -/
theorem readJson_dumps {repr : Double → List Char} {limit n : ℕ} {v : Json} (h : v.Within n)
    (hrepr : ∀ x ∈ v.floats, x.isFinite = true → Reprs repr x) (hdepth : n ≤ limit) :
    readJson (scriptDialect limit) ((dumps repr).write v) =
      if v.floats.all Double.isFinite then .ok v.script else .error .malformed := by
  have hdumps : ∀ x ∈ v.leaves, Clear (scriptDialect limit) (dumps repr) Json.number x ∧
      readable (scriptDialect limit) (dumps repr) x = x.float?.all Double.isFinite :=
    fun x hx => clear_dumps fun y hy => hrepr y (List.mem_filterMap.mpr ⟨x, hx, hy ▸ rfl⟩)
  have hall : v.leaves.all ((dumps repr).readable (scriptDialect limit)) =
      v.floats.all Double.isFinite := by
    rw [Json.floats, List.all_filterMap, Bool.eq_iff_iff, List.all_eq_true, List.all_eq_true]
    refine forall₂_congr fun x hx => ?_
    rw [(hdumps x hx).2]
    cases x.float? <;> rfl
  rw [readJson_write (sound_dumps repr) h (fun x hx => (hdumps x hx).1) hdepth, hall, Json.script]

end Py
