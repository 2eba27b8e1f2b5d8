import Mathlib.Data.Nat.Notation
import Mathlib.Data.List.Basic

/-!
# Markup

The tags and the characters of HTML, how they are written, and a reader of what is written
(`tokens_write`). `Nested` markup has its elements in one another, each of a tag that the tree
construction of HTML leaves where it stands, and no text in it can be taken for a tag. Then the
elements of a tag are those that were written (`leaves_append`, `leaves_element`).
-/

namespace Html

/-! ## Tags -/

/-- An attribute, with its value if it has one. -/
structure Attribute where
  name : List Char
  value : Option (List Char)

/-- A character of a text, a start tag or an end tag. -/
inductive Token
  | char (c : Char)
  | start (tag : List Char) (attributes : List Attribute)
  | stop (tag : List Char)

/-- A text. -/
def chars (cs : List Char) : List Token := cs.map .char

/-- An element: its start tag, what is in it, and its end tag. -/
def element (tag : List Char) (attributes : List Attribute) (inner : List Token) : List Token :=
  .start tag attributes :: (inner ++ [.stop tag])

/-- An attribute in a start tag. -/
def Attribute.write (a : Attribute) : List Char :=
  ' ' :: (a.name ++ a.value.elim [] fun value => '=' :: '"' :: (value ++ ['"']))

def Token.write : Token → List Char
  | .char c => [c]
  | .start tag attributes => '<' :: (tag ++ (attributes.flatMap Attribute.write ++ ['>']))
  | .stop tag => '<' :: '/' :: (tag ++ ['>'])

/-- The text of markup. -/
def write (ts : List Token) : List Char := ts.flatMap Token.write

/-! ## The reader -/

/-- A place in markup. -/
inductive Place
  | text
  /-- After `<`. -/
  | opened
  | startName (tag : List Char)
  | stopName (tag : List Char)
  /-- Between the attributes of a start tag. -/
  | between (tag : List Char) (before : List Attribute)
  | attributeName (tag : List Char) (before : List Attribute) (name : List Char)
  /-- After the equality sign of an attribute. -/
  | equals (tag : List Char) (before : List Attribute) (name : List Char)
  /-- In a value between quotation marks. -/
  | quoted (tag : List Char) (before : List Attribute) (name value : List Char)

/-- A character: the place after it, and the tokens that it completes. -/
def step (p : Place) (c : Char) : Place × List Token :=
  match p with
  | .text => if c = '<' then (.opened, []) else (.text, [.char c])
  | .opened => if c = '/' then (.stopName [], []) else (.startName [c], [])
  | .startName tag =>
    if c = '>' then (.text, [.start tag []])
    else if c = ' ' then (.between tag [], [])
    else (.startName (tag ++ [c]), [])
  | .stopName tag => if c = '>' then (.text, [.stop tag]) else (.stopName (tag ++ [c]), [])
  | .between tag before =>
    if c = '>' then (.text, [.start tag before])
    else if c = ' ' then (.between tag before, [])
    else (.attributeName tag before [c], [])
  | .attributeName tag before name =>
    if c = '=' then (.equals tag before name, [])
    else if c = '>' then (.text, [.start tag (before ++ [⟨name, none⟩])])
    else if c = ' ' then (.between tag (before ++ [⟨name, none⟩]), [])
    else (.attributeName tag before (name ++ [c]), [])
  | .equals tag before name =>
    if c = '"' then (.quoted tag before name [], []) else (.between tag before, [])
  | .quoted tag before name value =>
    if c = '"' then (.between tag (before ++ [⟨name, some value⟩]), [])
    else (.quoted tag before name (value ++ [c]), [])

/-- The tokens of the rest of a text. A tag that does not end is none. -/
def read : Place → List Char → List Token
  | _, [] => []
  | p, c :: cs => (step p c).2 ++ read (step p c).1 cs

/-- The tokens of a text, of markup with its values between quotation marks. -/
def tokens (cs : List Char) : List Token := read .text cs

/-! ## What is written is read -/

/-- The characters of names: small letters, digits and hyphens. -/
def isNameChar (c : Char) : Bool :=
  let n := c.toNat
  97 ≤ n ∧ n ≤ 122 ∨ 48 ≤ n ∧ n ≤ 57 ∨ n = 45

def isName (cs : List Char) : Bool := !cs.isEmpty && cs.all isNameChar

/-- A value can stand between quotation marks. -/
structure Attribute.Plain (a : Attribute) : Prop where
  name : isName a.name = true
  value : ∀ value ∈ a.value, '"' ∉ value

/-- A token that no reader takes for another one. -/
inductive Token.Plain : Token → Prop
  | char {c} (h : c ≠ '<') : Plain (.char c)
  | start {tag attributes} (htag : isName tag = true)
      (h : ∀ a ∈ attributes, Attribute.Plain a) : Plain (.start tag attributes)
  | stop {tag} (htag : isName tag = true) : Plain (.stop tag)

variable {tag name value rest cs : List Char} {before attributes : List Attribute} {c : Char}
  {ts ts' inner : List Token} {a : Attribute}

theorem isNameChar_spec (h : isNameChar c = true) :
    c ≠ '<' ∧ c ≠ '>' ∧ c ≠ '/' ∧ c ≠ ' ' ∧ c ≠ '=' := by
  refine ⟨?_, ?_, ?_, ?_, ?_⟩ <;> (rintro rfl; exact absurd h (by decide))

theorem isName_spec (h : isName name = true) : name ≠ [] ∧ ∀ c ∈ name, isNameChar c = true := by
  obtain ⟨hne, hall⟩ := Bool.and_eq_true_iff.mp h
  refine ⟨?_, List.all_eq_true.mp hall⟩
  rintro rfl
  cases hne

/-- A place that collects the characters it reads has them all in the end. -/
theorem read_collecting {place : List Char → Place} {p : Char → Prop}
    (hstep : ∀ cs c, p c → step (place cs) c = (place (cs ++ [c]), [])) (h : ∀ c ∈ cs, p c)
    (before rest : List Char) :
    read (place before) (cs ++ rest) = read (place (before ++ cs)) rest := by
  induction cs generalizing before with
  | nil => rw [List.nil_append, List.append_nil]
  | cons c cs ih =>
    obtain ⟨hc, hcs⟩ := List.forall_mem_cons.mp h
    rw [List.cons_append, read, hstep before c hc, List.nil_append, ih hcs, List.append_assoc,
      List.singleton_append]

theorem read_startName (h : ∀ c ∈ cs, isNameChar c = true) :
    read (.startName tag) (cs ++ rest) = read (.startName (tag ++ cs)) rest := by
  refine read_collecting (fun tag c hc => ?_) h tag rest
  obtain ⟨-, hclose, -, hblank, -⟩ := isNameChar_spec hc
  rw [step, if_neg hclose, if_neg hblank]

theorem read_stopName (h : ∀ c ∈ cs, isNameChar c = true) :
    read (.stopName tag) (cs ++ rest) = read (.stopName (tag ++ cs)) rest := by
  refine read_collecting (fun tag c hc => ?_) h tag rest
  obtain ⟨-, hclose, -, -, -⟩ := isNameChar_spec hc
  rw [step, if_neg hclose]

theorem read_attributeName (h : ∀ c ∈ cs, isNameChar c = true) :
    read (.attributeName tag before name) (cs ++ rest) =
      read (.attributeName tag before (name ++ cs)) rest := by
  refine read_collecting (fun name c hc => ?_) h name rest
  obtain ⟨-, hclose, -, hblank, hequals⟩ := isNameChar_spec hc
  rw [step, if_neg hequals, if_neg hclose, if_neg hblank]

theorem read_quoted (h : '"' ∉ cs) : read (.quoted tag before name value) (cs ++ '"' :: rest) =
    read (.between tag (before ++ [⟨name, some (value ++ cs)⟩])) rest := by
  have hquoted : ∀ c ∈ cs, c ≠ '"' := fun c hc heq => h (heq ▸ hc)
  have hstep (value : List Char) (c : Char) (hc : c ≠ '"') :
      step (.quoted tag before name value) c = (.quoted tag before name (value ++ [c]), []) := by
    rw [step, if_neg hc]
  rw [read_collecting hstep hquoted]
  simp [read, step]

/-- After the attributes of a start tag, the next one or the end of the tag begins. -/
def IsNext (rest : List Char) : Prop := ∃ cs, rest = ' ' :: cs ∨ rest = '>' :: cs

theorem isNext_attributes (attributes : List Attribute) (rest : List Char) :
    IsNext (attributes.flatMap Attribute.write ++ '>' :: rest) := by
  cases attributes with
  | nil => exact ⟨rest, .inr rfl⟩
  | cons a attributes => exact ⟨_, .inl rfl⟩

/-- An attribute is read. -/
theorem read_attribute (ha : a.Plain) (hrest : IsNext rest) :
    read (.between tag before) (a.write ++ rest) = read (.between tag (before ++ [a])) rest := by
  obtain ⟨name, value⟩ := a
  obtain ⟨hne, hname⟩ := isName_spec ha.name
  obtain ⟨c, cs, rfl⟩ := List.exists_cons_of_ne_nil hne
  obtain ⟨hc, hcs⟩ := List.forall_mem_cons.mp hname
  obtain ⟨-, hclose, -, hblank, -⟩ := isNameChar_spec hc
  have hfirst (rest : List Char) : read (.between tag before) (' ' :: ((c :: cs) ++ rest)) =
      read (.attributeName tag before (c :: cs)) rest := by
    have hsteps : read (.between tag before) (' ' :: ((c :: cs) ++ rest)) =
        read (.attributeName tag before [c]) (cs ++ rest) := by
      simp [read, step, hclose, hblank]
    rw [hsteps, read_attributeName hcs, List.singleton_append]
  rw [Attribute.write, List.cons_append, List.append_assoc, hfirst]
  cases value with
  | none =>
    rcases hrest with ⟨cs, rfl | rfl⟩ <;> simp [read, step]
  | some value =>
    have hequals (rest : List Char) :
        read (.attributeName tag before (c :: cs)) ('=' :: '"' :: rest) =
          read (.quoted tag before (c :: cs) []) rest := by
      simp [read, step]
    simp only [Option.elim_some, List.cons_append, List.append_assoc, List.nil_append]
    rw [hequals, read_quoted (ha.value value rfl), List.nil_append]

theorem read_attributes (h : ∀ a ∈ attributes, Attribute.Plain a) (rest : List Char) :
    read (.between tag before) (attributes.flatMap Attribute.write ++ '>' :: rest) =
      .start tag (before ++ attributes) :: read .text rest := by
  induction attributes generalizing before with
  | nil => simp [read, step]
  | cons a attributes ih =>
    obtain ⟨ha, hattributes⟩ := List.forall_mem_cons.mp h
    rw [List.flatMap_cons, List.append_assoc, read_attribute ha (isNext_attributes attributes rest),
      ih hattributes, List.append_assoc]
    rfl

/-- A plain token is read. -/
theorem read_token {t : Token} (h : t.Plain) (rest : List Char) :
    read .text (t.write ++ rest) = t :: read .text rest := by
  cases h with
  | char hc => simp [Token.write, read, step, hc]
  | @start tag attributes htag hattributes =>
    obtain ⟨hne, hname⟩ := isName_spec htag
    obtain ⟨c, cs, rfl⟩ := List.exists_cons_of_ne_nil hne
    obtain ⟨hc, hcs⟩ := List.forall_mem_cons.mp hname
    obtain ⟨-, -, hslash, -, -⟩ := isNameChar_spec hc
    have hfirst (rest : List Char) :
        read .text ('<' :: ((c :: cs) ++ rest)) = read (.startName (c :: cs)) rest := by
      have hsteps : read .text ('<' :: ((c :: cs) ++ rest)) =
          read (.startName [c]) (cs ++ rest) := by
        simp [read, step, hslash]
      rw [hsteps, read_startName hcs, List.singleton_append]
    have hnext : read (.startName (c :: cs)) (attributes.flatMap Attribute.write ++ '>' :: rest) =
        read (.between (c :: cs) []) (attributes.flatMap Attribute.write ++ '>' :: rest) := by
      obtain ⟨rest', hrest | hrest⟩ := isNext_attributes attributes rest
      · rw [hrest]
        simp [read, step]
      · rw [hrest]
        simp [read, step]
    simp only [Token.write, List.cons_append, List.append_assoc, List.nil_append]
    rw [← List.cons_append, hfirst, hnext, read_attributes hattributes, List.nil_append]
  | @stop tag htag =>
    obtain ⟨-, hname⟩ := isName_spec htag
    have hfirst (rest : List Char) :
        read .text ('<' :: '/' :: rest) = read (.stopName []) rest := by
      simp [read, step]
    simp only [Token.write, List.cons_append, List.append_assoc, List.nil_append]
    rw [hfirst, read_stopName hname, List.nil_append]
    simp [read, step]

/-- **Plain tokens are read as they are written.** -/
theorem tokens_write (h : ∀ t ∈ ts, t.Plain) : tokens (write ts) = ts := by
  induction ts with
  | nil => rfl
  | cons t ts ih =>
    obtain ⟨ht, hts⟩ := List.forall_mem_cons.mp h
    have hrest : read .text (write ts) = ts := ih hts
    change read .text (t.write ++ write ts) = _
    rw [read_token ht, hrest]

/-! ## Elements -/

/-- Elements that may hold text and each other in any order. -/
def containers : List (List Char) := ["h2".toList, "div".toList, "span".toList, "i".toList]

/-- Elements without an end tag. -/
def voids : List (List Char) := ["img".toList]

/-- Elements that may not be in one another. -/
def controls : List (List Char) := ["button".toList]

/-- No character reference is in the text, and no character that is replaced. -/
def isLiteral (cs : List Char) : Bool := cs.all fun c => c ∉ ['&', '\x00', '\r']

/-- What stands in a start tag: plain attributes, with different names. -/
structure AreAttributes (attributes : List Attribute) : Prop where
  plain : ∀ a ∈ attributes, Attribute.Plain a
  names : (attributes.map Attribute.name).Nodup

/-- Markup that is built as it is written: elements are in one another, the controls among them
have literal attributes and a literal text, and other texts have no `<`. -/
inductive Nested : List Token → Prop
  | text {cs : List Char} (h : '<' ∉ cs) : Nested (chars cs)
  | append {ts ts' : List Token} (h : Nested ts) (h' : Nested ts') : Nested (ts ++ ts')
  | void {tag : List Char} {attributes : List Attribute} (htag : tag ∈ voids)
    (h : AreAttributes attributes) : Nested [.start tag attributes]
  | element {tag : List Char} {attributes : List Attribute} {inner : List Token}
    (htag : tag ∈ containers) (h : AreAttributes attributes) (hinner : Nested inner) :
    Nested (element tag attributes inner)
  | control {tag : List Char} {attributes : List Attribute} {cs : List Char}
    (htag : tag ∈ controls) (h : AreAttributes attributes)
    (hvalues : ∀ a ∈ attributes, ∀ value ∈ a.value, isLiteral value = true)
    (htext : '<' ∉ cs) (hliteral : isLiteral cs = true) : Nested (element tag attributes (chars cs))

/-- An element that holds nothing but text. -/
structure Leaf where
  attributes : List Attribute
  text : List Char

/-- The text before the next tag. -/
def textOf : List Token → List Char
  | .char c :: ts => c :: textOf ts
  | _ => []

/-- The elements of a tag, each with the text after its start tag. -/
def leaves (tag : List Char) : List Token → List Leaf
  | [] => []
  | .start tag' attributes :: ts =>
    if tag' = tag then ⟨attributes, textOf ts⟩ :: leaves tag ts else leaves tag ts
  | _ :: ts => leaves tag ts

theorem write_append (ts ts' : List Token) : write (ts ++ ts') = write ts ++ write ts' :=
  List.flatMap_append

theorem write_chars (cs : List Char) : write (chars cs) = cs := by
  rw [write, chars, List.flatMap_map]
  exact List.flatMap_singleton' cs

theorem write_element (tag : List Char) (attributes : List Attribute) (inner : List Token) :
    write (element tag attributes inner) =
      (Token.start tag attributes).write ++ write inner ++ (Token.stop tag).write := by
  rw [element, ← List.singleton_append, write_append, write_append, List.append_assoc]
  simp [write]

theorem isName_of_mem {tags : List (List Char)} (htags : tags.all isName = true) (h : tag ∈ tags) :
    isName tag = true := List.all_eq_true.mp htags tag h

theorem plain_chars (h : '<' ∉ cs) : ∀ t ∈ chars cs, t.Plain := by
  intro t ht
  obtain ⟨c, hc, rfl⟩ := List.mem_map.mp ht
  exact .char fun hlt => h (hlt ▸ hc)

theorem plain_element (htag : isName tag = true) (h : AreAttributes attributes)
    (hinner : ∀ t ∈ inner, t.Plain) : ∀ t ∈ element tag attributes inner, t.Plain := by
  rw [element, List.forall_mem_cons, List.forall_mem_append, List.forall_mem_singleton]
  exact ⟨.start htag h.plain, hinner, .stop htag⟩

/-- The tokens of nested markup are plain. -/
theorem Nested.plain (h : Nested ts) : ∀ t ∈ ts, t.Plain := by
  induction h with
  | text h => exact plain_chars h
  | append _ _ ih ih' => exact List.forall_mem_append.mpr ⟨ih, ih'⟩
  | void htag h => exact List.forall_mem_singleton.mpr (.start (isName_of_mem rfl htag) h.plain)
  | element htag h _ ih => exact plain_element (isName_of_mem rfl htag) h ih
  | control htag h _ htext _ => exact plain_element (isName_of_mem rfl htag) h (plain_chars htext)

theorem leaves_chars (tag cs : List Char) (ts : List Token) :
    leaves tag (chars cs ++ ts) = leaves tag ts := by
  induction cs with
  | nil => rfl
  | cons c cs ih => exact ih

theorem leaves_eq_nil (h : ∀ attributes, .start tag attributes ∉ ts) : leaves tag ts = [] := by
  induction ts with
  | nil => rfl
  | cons t ts ih =>
    have hts : leaves tag ts = [] := ih fun attributes hmem => h attributes (.tail _ hmem)
    cases t with
    | start tag' attributes =>
      have hne : tag' ≠ tag := by
        rintro rfl
        exact h attributes (.head ts)
      rw [leaves, if_neg hne, hts]
    | char | stop => exact hts

theorem textOf_chars (cs tag : List Char) (ts : List Token) :
    textOf (chars cs ++ .stop tag :: ts) = cs := by
  induction cs with
  | nil => rfl
  | cons c cs ih => exact congrArg (c :: ·) ih

theorem element_append (tag : List Char) (attributes : List Attribute) (inner ts : List Token) :
    element tag attributes inner ++ ts =
      .start tag attributes :: (inner ++ .stop tag :: ts) := by
  rw [element, List.cons_append, List.append_assoc, List.singleton_append]

theorem Nested.nil : Nested [] := by
  have h : Nested (chars []) := .text List.not_mem_nil
  exact h

theorem Nested.flatMap {α : Type} {f : α → List Token} {xs : List α}
    (h : ∀ x ∈ xs, Nested (f x)) : Nested (xs.flatMap f) := by
  induction xs with
  | nil => exact .nil
  | cons x xs ih =>
    obtain ⟨hx, hxs⟩ := List.forall_mem_cons.mp h
    exact .append hx (ih hxs)

/-- The controls of nested markup and of what follows it. -/
theorem leaves_append (htag : tag ∈ controls) (h : Nested ts) (ts' : List Token) :
    leaves tag (ts ++ ts') = leaves tag ts ++ leaves tag ts' := by
  have hdisjoint : ∀ tag ∈ controls, tag ∉ containers ∧ tag ∉ voids := by decide
  obtain ⟨hcontainer, hvoid⟩ := hdisjoint tag htag
  have hne {tag' : List Char} {tags : List (List Char)} (h : tag ∉ tags) (h' : tag' ∈ tags) :
      tag' ≠ tag := fun heq => h (heq ▸ h')
  have hchars (cs : List Char) : leaves tag (chars cs) = [] := by
    simpa [leaves] using leaves_chars tag cs []
  have hstop (tag' : List Char) (ts : List Token) :
      leaves tag (.stop tag' :: ts) = leaves tag ts := by rw [leaves]; nofun
  induction h generalizing ts' with
  | text h => rw [leaves_chars, hchars, List.nil_append]
  | append _ _ ih ih' => rw [List.append_assoc, ih, ih', ih, List.append_assoc]
  | void hvoid' _ => simp [leaves, hne hvoid hvoid']
  | element hcontainer' _ _ ih =>
    rw [element_append, Html.element, leaves, leaves, if_neg (hne hcontainer hcontainer'),
      if_neg (hne hcontainer hcontainer'), ih, ih, hstop, hstop, List.append_assoc]
    rfl
  | @control tag' attributes cs _ _ _ _ _ =>
    rw [element_append, Html.element, leaves, leaves, textOf_chars, textOf_chars, leaves_chars,
      leaves_chars]
    split_ifs <;> simp [leaves]

/-- The controls in another element. -/
theorem leaves_element {tag' : List Char} (htag : tag ∈ controls) (htag' : tag' ∈ containers)
    (h : Nested inner) : leaves tag (element tag' attributes inner) = leaves tag inner := by
  have hdisjoint : ∀ tag ∈ controls, ∀ tag' ∈ containers, tag' ≠ tag := by decide
  rw [element, leaves, if_neg (hdisjoint tag htag tag' htag'), leaves_append htag h]
  simp [leaves]

/-- A control. -/
theorem leaves_control (tag cs : List Char) (attributes : List Attribute) :
    leaves tag (element tag attributes (chars cs)) = [⟨attributes, cs⟩] := by
  rw [element, leaves, if_pos rfl, textOf_chars, leaves_chars]
  rfl

end Html
