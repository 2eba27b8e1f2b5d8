import FlashforgeObico.Foundations.Replace
import Mathlib.Data.List.Dedup
import Mathlib.Data.List.Sort

/-!
# Logging without secrets

`logging_utils.py`: the handler that `configure_logging` installs rewrites the message of every
record and then formats it. The line is the time, the level and the name of the logger, then the
message, and then the traceback of the exception that `logger.exception` attached. Only the message
is rewritten, and it has no secret left (`not_infix_redact`). `emitted_clean_iff` says on the
fields of the record when the whole line has none: when there is none before the message and none in
the traceback, and none lies across the seams between them and the message (`KeptOut`). A secret
without a blank, a colon and a newline is kept out when it is not in the traceback
(`keptOut_iff_of_isToken`).

That is enough for every set of secrets, since a part of a secret that ends or begins the redacted
message ended or began the message. It is needed where a part of a secret at a seam cannot be
redacted away as a part of another one: for secrets that do not overlap (`Apart`), and for those
that cannot lie across a seam.
-/

namespace FlashforgeObico

open Replacement

/-- The characters of a text. -/
abbrev Text := List Char

/-- `REDACTED`. -/
def redacted : Text := "<redacted>".toList

/-- The fields of a `LogRecord` that the formatter reads. `args` is `none` for the empty tuple, and
`excText` is the text of the traceback of `exc_info`. -/
structure LogRecord (Args : Type) where
  asctime : Text
  levelname : Text
  name : Text
  msg : Text
  args : Option Args
  excText : Option Text

/-- `RedactingFilter`. -/
structure RedactingFilter where
  secrets : List Text

namespace RedactingFilter

/-- `sorted({s for s in secrets if s}, key=len, reverse=True)`, given the order of the set. -/
def ofSecrets (secrets : List Text) : RedactingFilter where
  secrets := ((secrets.filter fun s => s ≠ []).dedup).insertionSort fun s t => t.length ≤ s.length

/-- The replacements of `filter`, one after another. -/
def redact (f : RedactingFilter) (message : Text) : Text := replaceAll redacted f.secrets message

theorem mem_ofSecrets {secrets : List Text} {s : Text} :
    s ∈ (ofSecrets secrets).secrets ↔ s ∈ secrets ∧ s ≠ [] := by
  simp [ofSecrets]

end RedactingFilter

section Records

/- The `%` operator of a template, which raises on arguments that do not fit it. -/
variable {Args : Type} (percent : Text → Args → Option Text)

namespace LogRecord

/-- `record.getMessage()`. -/
def getMessage (r : LogRecord Args) : Option Text :=
  match r.args with
  | none => some r.msg
  | some args => percent r.msg args

/-- What the format `"%(asctime)s %(levelname)s %(name)s: %(message)s"` writes before the
message. -/
def lead (r : LogRecord Args) : Text :=
  r.asctime ++ ' ' :: (r.levelname ++ ' ' :: (r.name ++ [':', ' ']))

/-- The traceback with the newline before it. -/
def traceback (r : LogRecord Args) : Text :=
  match r.excText with
  | none => []
  | some [] => []
  | some (c :: cs) => '\n' :: c :: cs

/-- What the formatter writes after the message: the traceback, on a line of its own. -/
def tail (r : LogRecord Args) (before : Text) : Text :=
  match r.excText with
  | none => []
  | some [] => []
  | some (c :: cs) => if before.getLast? = some '\n' then c :: cs else '\n' :: c :: cs

/-- `Formatter.format`. -/
def format (r : LogRecord Args) : Option Text :=
  (r.getMessage percent).map fun message =>
    let s := r.lead ++ message
    s ++ r.tail s

end LogRecord

/-- `RedactingFilter.filter`. -/
def RedactingFilter.filter (f : RedactingFilter) (r : LogRecord Args) : Option (LogRecord Args) :=
  (r.getMessage percent).map fun message => { r with msg := f.redact message, args := none }

/-- The handler that `configure_logging` installs. -/
structure LogHandler where
  filter : RedactingFilter

/-- `configure_logging`. -/
def configureLogging (secrets : List Text) : LogHandler where
  filter := .ofSecrets secrets

/-- The line that a handler emits for a record; none when the template raises. -/
def LogHandler.emit (h : LogHandler) (r : LogRecord Args) : Option Text :=
  (h.filter.filter percent r).bind (LogRecord.format percent)

end Records

/-! ## The message -/

/-- What is assumed of a secret, with the record it could be in. -/
structure Issued {Args : Type} (r : LogRecord Args) (s : Text) : Prop where
  ne_nil : s ≠ []
  no_opening : '<' ∉ s
  no_closing : '>' ∉ s
  not_in_redacted : ¬ s <:+: "redacted".toList
  not_in_asctime : ¬ s <:+: r.asctime
  not_in_levelname : ¬ s <:+: r.levelname
  not_in_name : ¬ s <:+: r.name

variable {Args : Type} {percent : Text → Args → Option Text} {r : LogRecord Args} {s : Text}
  {secrets : List Text}

theorem Issued.foreign (h : Issued r s) : Foreign redacted s :=
  ⟨h.ne_nil, '<', "redacted".toList, '>', by decide, h.no_opening, h.no_closing, h.not_in_redacted⟩

/-- **No secret is left in the message.** -/
theorem not_infix_redact (h : Issued r s) (hs : s ∈ secrets) (message : Text) :
    ¬ s <:+: (RedactingFilter.ofSecrets secrets).redact message :=
  not_infix_replaceAll h.foreign (RedactingFilter.mem_ofSecrets.mpr ⟨hs, h.ne_nil⟩)

/-! ## The line -/

/-- What is written for a message: it is rewritten, and stands between the rest of the line. -/
theorem emit_eq (secrets : List Text) (r : LogRecord Args) :
    (configureLogging secrets).emit percent r = (r.getMessage percent).map fun message =>
      let s := r.lead ++ (RedactingFilter.ofSecrets secrets).redact message
      s ++ r.tail s := by
  rcases hm : r.getMessage percent with _ | message
  · simp [LogHandler.emit, RedactingFilter.filter, hm]
  · simp only [LogHandler.emit, RedactingFilter.filter, hm, Option.map_some, Option.bind_some]
    rfl

/-- The handler emits none of the secrets for the record. -/
def EmitsNone (percent : Text → Args → Option Text) (secrets : List Text) (r : LogRecord Args) :
    Prop :=
  ∀ line ∈ (configureLogging secrets).emit percent r, ∀ s ∈ secrets, ¬ s <:+: line

/-- A secret is in none of the parts of a record that are not rewritten, and lies across none of the
seams between them and its message. -/
structure KeptOut (r : LogRecord Args) (message : Text) (s : Text) : Prop where
  traceback : ¬ s <:+: r.traceback
  lead : ¬ s <:+: r.lead
  leadSeam : ¬ Crosses s r.lead message
  tracebackSeam : ¬ Crosses s (r.lead ++ message) (r.tail (r.lead ++ message))

/-- Whether a line begins for the traceback depends on the last character. -/
theorem tail_congr {x y : Text} (h : x.getLast? = y.getLast?) : r.tail x = r.tail y := by
  unfold LogRecord.tail
  rw [h]

theorem tail_suffix (r : LogRecord Args) (before : Text) : r.tail before <:+ r.traceback := by
  unfold LogRecord.tail LogRecord.traceback
  rcases r.excText with _ | _ | ⟨c, cs⟩
  · exact List.suffix_rfl
  · exact List.suffix_rfl
  · dsimp only
    split_ifs with h
    · exact List.suffix_cons _ _
    · exact List.suffix_rfl

/-- The traceback is in the line with a newline before it. -/
theorem traceback_suffix (r : LogRecord Args) (before : Text) :
    r.traceback <:+ before ++ r.tail before := by
  unfold LogRecord.tail LogRecord.traceback
  rcases r.excText with _ | _ | ⟨c, cs⟩
  · exact List.nil_suffix
  · exact List.nil_suffix
  · dsimp only
    split_ifs with h
    · obtain ⟨x, rfl⟩ := List.getLast?_eq_some_iff.mp h
      exact ⟨x, by simp⟩
    · exact List.suffix_append _ _

theorem getLast?_of_suffix {l x : Text} (hl : l ≠ []) (h : l <:+ x) : x.getLast? = l.getLast? := by
  obtain ⟨z, rfl⟩ := h
  rw [List.getLast?_append_of_ne_nil _ hl]

/-- What begins the redacted message began the message. -/
theorem prefix_of_prefix_redact {f : RedactingFilter} {l message : Text} (hl : '<' ∉ l)
    (h : l <+: f.redact message) : l <+: message :=
  prefix_of_prefix_replaceAll (w := "redacted>".toList) hl h

/-- What ends the line before the traceback would have ended it without the redaction. -/
theorem suffix_of_suffix_redact {f : RedactingFilter} {l x message : Text} (hl : '>' ∉ l)
    (h : l <:+ x ++ f.redact message) : l <:+ x ++ message :=
  suffix_of_suffix_append_replaceAll (w := "<redacted".toList) hl h

/-- A secret that is kept out is not in the line. -/
theorem not_infix_of_keptOut (h : Issued r s) (hs : s ∈ secrets) {message : Text}
    (hkept : KeptOut r message s) :
    let before := r.lead ++ (RedactingFilter.ofSecrets secrets).redact message
    ¬ s <:+: before ++ r.tail before := by
  intro before hline
  rcases infix_append_iff_crosses.mp hline with hbefore | htail | ⟨l₁, l₂, h₁, h₂, rfl, hl₁, hl₂⟩
  · rcases infix_append_iff_crosses.mp hbefore with hlead | hm | ⟨l₁, l₂, h₁, h₂, rfl, hl₁, hl₂⟩
    · exact hkept.lead hlead
    · exact not_infix_redact h hs message hm
    · have hopening : '<' ∉ l₂ := fun hmem => h.no_opening (List.mem_append_right _ hmem)
      exact hkept.leadSeam ⟨l₁, l₂, h₁, h₂, rfl, hl₁, prefix_of_prefix_redact hopening hl₂⟩
  · exact hkept.traceback (htail.trans (tail_suffix r before).isInfix)
  · have hclosing : '>' ∉ l₁ := fun hmem => h.no_closing (List.mem_append_left _ hmem)
    have hraw : l₁ <:+ r.lead ++ message := suffix_of_suffix_redact hclosing hl₁
    have htail : r.tail before = r.tail (r.lead ++ message) :=
      tail_congr ((getLast?_of_suffix h₁ hl₁).trans (getLast?_of_suffix h₁ hraw).symm)
    exact hkept.tracebackSeam ⟨l₁, l₂, h₁, h₂, rfl, hraw, htail ▸ hl₂⟩

/-- What is in the parts that are not rewritten is in the line. -/
theorem infix_of_infix_parts {x : Text} (hs : s <:+: r.traceback ∨ s <:+: r.lead) :
    s <:+: (r.lead ++ x) ++ r.tail (r.lead ++ x) := by
  rcases hs with hs | hs
  · exact hs.trans (traceback_suffix r _).isInfix
  · exact (hs.trans (List.prefix_append _ _).isInfix).trans (List.prefix_append _ _).isInfix

/-- Of secrets that do not overlap, one that is not in the line is kept out. -/
theorem keptOut_of_not_infix (h : Apart secrets) (hs : s ∈ secrets) {message : Text}
    (hline : let before := r.lead ++ (RedactingFilter.ofSecrets secrets).redact message
      ¬ s <:+: before ++ r.tail before) : KeptOut r message s := by
  have holds : (RedactingFilter.ofSecrets secrets).secrets ⊆ secrets :=
    fun _ hold => (RedactingFilter.mem_ofSecrets.mp hold).1
  set f := RedactingFilter.ofSecrets secrets
  refine ⟨fun hi => hline (infix_of_infix_parts (.inl hi)),
    fun hi => hline (infix_of_infix_parts (.inr hi)), ?_, ?_⟩
  · rintro ⟨l₁, l₂, h₁, h₂, rfl, hl₁, hl₂⟩
    have hkept : l₂ <+: f.redact message := h.prefix_replaceAll hs h₁ hl₂ holds
    exact hline ((infix_append_iff_crosses.mpr
      (.inr (.inr ⟨l₁, l₂, h₁, h₂, rfl, hl₁, hkept⟩))).trans (List.prefix_append _ _).isInfix)
  · rintro ⟨l₁, l₂, h₁, h₂, rfl, hl₁, hl₂⟩
    have hkept : l₁ <:+ r.lead ++ f.redact message := h.suffix_append_replaceAll hs h₂ hl₁ holds
    have htail : r.tail (r.lead ++ message) = r.tail (r.lead ++ f.redact message) :=
      tail_congr ((getLast?_of_suffix h₁ hl₁).trans (getLast?_of_suffix h₁ hkept).symm)
    exact hline (infix_append_iff_crosses.mpr
      (.inr (.inr ⟨l₁, l₂, h₁, h₂, rfl, hkept, htail ▸ hl₂⟩)))

/-! ## Secrets that cannot lie across a seam -/

/-- A secret without the characters that the formatter writes between the parts of a line. -/
structure IsToken (s : Text) : Prop where
  no_blank : ' ' ∉ s
  no_colon : ':' ∉ s
  no_newline : '\n' ∉ s

theorem not_infix_lead (h : Issued r s) (ht : IsToken s) : ¬ s <:+: r.lead := by
  intro hs
  rcases infix_append_cons ht.no_blank hs with hs | hs
  · exact h.not_in_asctime hs
  rcases infix_append_cons ht.no_blank hs with hs | hs
  · exact h.not_in_levelname hs
  rcases infix_append_cons ht.no_colon hs with hs | hs
  · exact h.not_in_name hs
  · have hblank : s <:+: [] ++ ' ' :: [] := hs
    rcases infix_append_cons ht.no_blank hblank with hs | hs <;>
      exact h.ne_nil (List.infix_nil.mp hs)

/-- A word does not cross from a text that ends with a character it does not have. -/
theorem not_crosses_of_getLast {x y : Text} {c : Char} (hx : x.getLast? = some c) (hc : c ∉ s) :
    ¬ Crosses s x y := by
  rintro ⟨l₁, l₂, h₁, -, rfl, hsuffix, -⟩
  have hlast : l₁.getLast? = some c := (getLast?_of_suffix h₁ hsuffix).symm.trans hx
  exact hc (List.mem_append_left _ (List.mem_of_getLast? hlast))

/-- A word does not cross to a text that begins with a character it does not have. -/
theorem not_crosses_of_cons {x y : Text} {c : Char} (hc : c ∉ s) : ¬ Crosses s x (c :: y) := by
  rintro ⟨l₁, l₂, -, h₂, rfl, -, hprefix⟩
  rcases l₂ with _ | ⟨b, l₂⟩
  · exact h₂ rfl
  · obtain ⟨rfl, -⟩ := List.cons_prefix_cons.mp hprefix
    exact hc (List.mem_append_right _ List.mem_cons_self)

/-- Such a secret does not lie across the seam before the traceback. -/
theorem not_crosses_tail (ht : IsToken s) (before : Text) : ¬ Crosses s before (r.tail before) := by
  unfold LogRecord.tail
  rcases r.excText with _ | _ | ⟨c, cs⟩
  · rintro ⟨l₁, l₂, -, h₂, -, -, hprefix⟩
    exact h₂ (List.prefix_nil.mp hprefix)
  · rintro ⟨l₁, l₂, -, h₂, -, -, hprefix⟩
    exact h₂ (List.prefix_nil.mp hprefix)
  · dsimp only
    split_ifs with h
    · exact not_crosses_of_getLast h ht.no_newline
    · exact not_crosses_of_cons ht.no_newline

theorem infix_traceback_iff (h : s ≠ []) (ht : IsToken s) :
    s <:+: r.traceback ↔ s <:+: r.excText.getD [] := by
  unfold LogRecord.traceback
  rcases r.excText with _ | _ | ⟨c, cs⟩
  · exact Iff.rfl
  · exact Iff.rfl
  · refine ⟨fun hs => ?_, List.infix_cons⟩
    exact (infix_append_cons ht.no_newline (x := []) hs).resolve_left fun hs =>
      h (List.infix_nil.mp hs)

/-- **Such a secret is kept out exactly when it is not in the traceback.** -/
theorem keptOut_iff_of_isToken (h : Issued r s) (ht : IsToken s) (message : Text) :
    KeptOut r message s ↔ ¬ s <:+: r.excText.getD [] := by
  have hleadSeam : ¬ Crosses s r.lead message := by
    refine not_crosses_of_getLast (c := ' ') ?_ ht.no_blank
    simp [LogRecord.lead, List.getLast?_cons]
  rw [← infix_traceback_iff h.ne_nil ht]
  exact ⟨KeptOut.traceback, fun hs => ⟨hs, not_infix_lead h ht, hleadSeam, not_crosses_tail ht _⟩⟩

/-! ## When the line has no secret -/

/-- **When the emitted line has no secret.** For every record and every set of secrets, the line has
none where the fields of the record keep them out. For secrets that do not overlap, and for secrets
that are tokens, it has none only then. -/
theorem emitted_clean_iff (percent : Text → Args → Option Text) (secrets : List Text)
    (r : LogRecord Args) (h : ∀ s ∈ secrets, Issued r s) :
    ((∀ message ∈ r.getMessage percent, ∀ s ∈ secrets, KeptOut r message s) →
        EmitsNone percent secrets r) ∧
      ((Apart secrets ∨ ∀ s ∈ secrets, IsToken s) → EmitsNone percent secrets r →
        ∀ message ∈ r.getMessage percent, ∀ s ∈ secrets, KeptOut r message s) := by
  constructor
  · intro hkept line hline s hs
    rw [emit_eq] at hline
    obtain ⟨message, hmessage, rfl⟩ := Option.map_eq_some_iff.mp hline
    exact not_infix_of_keptOut (h s hs) hs (hkept message hmessage s hs)
  · intro hsecrets hclean message hmessage s hs
    have hline := hclean _ (by rw [emit_eq, Option.mem_def.mp hmessage]; rfl) s hs
    rcases hsecrets with hapart | htoken
    · exact keptOut_of_not_infix hapart hs hline
    · rw [keptOut_iff_of_isToken (h s hs) (htoken s hs),
        ← infix_traceback_iff (h s hs).ne_nil (htoken s hs)]
      exact fun hi => hline (infix_of_infix_parts (.inl hi))

/-! ## A concrete record -/

/-- The record of `_drain_commands` for a command and an exception. -/
def commandFailed (cmd excText : Text) : LogRecord Text where
  asctime := "2026-09-16 12:00:00,000".toList
  levelname := "ERROR".toList
  name := "flashforge_obico.agent".toList
  msg := "command %s failed unexpectedly".toList
  args := some cmd
  excText := some excText

/-- `template % (arg,)`, of a template with a `%s`. -/
def percentS (template arg : Text) : Option Text := some (replace "%s".toList arg template)

/-- A check code. -/
def checkCode : Text := "4fK9x2".toList

theorem issued_checkCode (cmd excText : Text) : Issued (commandFailed cmd excText) checkCode := by
  have hrest : ¬ checkCode <:+: (commandFailed [] []).asctime ∧
      ¬ checkCode <:+: (commandFailed [] []).levelname ∧
        ¬ checkCode <:+: (commandFailed [] []).name := by
    decide
  exact ⟨by decide, by decide, by decide, by decide, hrest.1, hrest.2.1, hrest.2.2⟩

/-- A secret in the arguments is redacted. -/
theorem secret_in_arguments_is_not_emitted :
    ∃ line ∈ (configureLogging [checkCode]).emit percentS
      (commandFailed checkCode "KeyError: 'x'".toList),
      ¬ checkCode <:+: line := by
  have hissued : ∀ s ∈ [checkCode], Issued (commandFailed checkCode "KeyError: 'x'".toList) s := by
    simpa using issued_checkCode _ _
  have hclean := (emitted_clean_iff percentS _ _ hissued).1 ?_
  · exact ⟨_, rfl, hclean _ rfl _ List.mem_cons_self⟩
  · intro message _ s hs
    rw [keptOut_iff_of_isToken (hissued s hs)]
    all_goals obtain rfl := List.mem_singleton.mp hs
    · decide
    · exact ⟨by decide, by decide, by decide⟩

/-- A secret in the text of an exception is not. -/
theorem secret_in_exception_is_emitted :
    (∀ s ∈ [checkCode],
      Issued (commandFailed "pause".toList ("ValueError: ".toList ++ checkCode)) s) ∧
      ∃ line ∈ (configureLogging [checkCode]).emit percentS
        (commandFailed "pause".toList ("ValueError: ".toList ++ checkCode)),
          checkCode <:+: line := by
  refine ⟨by simpa using issued_checkCode _ _, ?_⟩
  decide +kernel

end FlashforgeObico
