import Mathlib.Data.List.Infix

/-!
# Replacing the occurrences of a word

`replace old new t` replaces the occurrences of `old` in `t` by `new`, the leftmost ones that do not
overlap, as `str.replace` does. A word may occur in the result that does not occur in `t`: in `new`,
or where `new` meets its surroundings. A word that is `Foreign` to `new` cannot, so what is
replaced is gone (`not_infix_replace`) and does not come back when other words are replaced
(`infix_of_infix_replace`); after replacing all the words of a list, none is left
(`not_infix_replaceAll`).

A word that occurs in `x ++ y` occurs in one of them or `Crosses` from one to the other. What ends
or begins the result, and has none of the entries at the ends of `new`, ended or began `t`
(`suffix_of_suffix_replaceAll`, `prefix_of_prefix_replaceAll`). Conversely, where the words do not
overlap (`Apart`), a part of one of them that ends or begins `t` is left where it is
(`Apart.suffix_replaceAll`, `Apart.prefix_replaceAll`).
-/

namespace Replacement

variable {α : Type*} [DecidableEq α]

/-- Replace the occurrences of `old`, after the first `n` entries, which belong to an occurrence
already replaced. -/
def replaceFrom (old new : List α) : ℕ → List α → List α
  | _, [] => []
  | n + 1, _ :: t => replaceFrom old new n t
  | 0, a :: t =>
    if old <+: a :: t then new ++ replaceFrom old new (old.length - 1) t
    else a :: replaceFrom old new 0 t

/-- Replace the occurrences of a word that is not empty. -/
def replace (old new t : List α) : List α := replaceFrom old new 0 t

/-- Replace the occurrences of each word of a list, one word after another. -/
def replaceAll (new : List α) (words : List (List α)) (t : List α) : List α :=
  words.foldl (fun t old => replace old new t) t

/-- A word that neither occurs in `new` nor can overlap it: `new` begins and ends with an entry that
the word does not have, and the word does not occur in between. -/
structure Foreign (new s : List α) : Prop where
  ne_nil : s ≠ []
  between : ∃ c w d, new = c :: w ++ [d] ∧ c ∉ s ∧ d ∉ s ∧ ¬ s <:+: w

/-- A part of the word ends `x` and the rest of it begins `y`. -/
def Crosses (s x y : List α) : Prop :=
  ∃ l₁ l₂, l₁ ≠ [] ∧ l₂ ≠ [] ∧ s = l₁ ++ l₂ ∧ l₁ <:+ x ∧ l₂ <+: y

omit [DecidableEq α] in
theorem infix_append_iff_crosses {s x y : List α} :
    s <:+: x ++ y ↔ s <:+: x ∨ s <:+: y ∨ Crosses s x y := List.infix_append_iff_ne_nil

omit [DecidableEq α] in
/-- A word is on one side of an entry that it does not have. -/
theorem infix_append_cons {s x y : List α} {c : α} (hc : c ∉ s) (h : s <:+: x ++ c :: y) :
    s <:+: x ∨ s <:+: y := by
  rcases List.infix_append_iff.mp h with h | h | ⟨l₁, l₂, rfl, h₁, h₂⟩
  · exact .inl h
  · rcases List.infix_cons_iff.mp h with h | h
    · rcases s with _ | ⟨b, s⟩
      · exact .inl List.nil_infix
      · obtain ⟨rfl, -⟩ := List.cons_prefix_cons.mp h
        exact absurd List.mem_cons_self hc
    · exact .inr h
  · rcases l₂ with _ | ⟨b, l₂⟩
    · rw [List.append_nil]
      exact .inl h₁.isInfix
    · obtain ⟨rfl, -⟩ := List.cons_prefix_cons.mp h₂
      exact absurd (List.mem_append_right _ List.mem_cons_self) hc

variable {old new s t : List α}

namespace Foreign

omit [DecidableEq α]

/-- What does not begin inside `new` is in the rest. -/
theorem of_infix_append (h : Foreign new s) (hs : s <:+: new ++ t) : s <:+: t := by
  obtain ⟨c, w, d, rfl, hc, hd, hw⟩ := h.between
  have hs' : s <:+: [] ++ c :: (w ++ d :: t) := by simpa using hs
  rcases infix_append_cons hc hs' with hs' | hs'
  · exact absurd (List.infix_nil.mp hs') h.ne_nil
  · exact (infix_append_cons hd hs').resolve_left hw

end Foreign

theorem prefix_of_prefix_replaceFrom {c : α} {w : List α} (hc : c ∉ s)
    (h : s <+: replaceFrom old (c :: w) 0 t) : s <+: t := by
  induction t generalizing s with
  | nil => simpa [replaceFrom] using h
  | cons a t ih =>
    rcases s with _ | ⟨b, s⟩
    · exact List.nil_prefix
    rw [replaceFrom] at h
    split_ifs at h with hold
    · obtain ⟨rfl, -⟩ := List.cons_prefix_cons.mp h
      exact absurd List.mem_cons_self hc
    · obtain ⟨rfl, hs⟩ := List.cons_prefix_cons.mp h
      exact List.cons_prefix_cons.mpr ⟨rfl, ih (fun hmem => hc (List.mem_cons_of_mem _ hmem)) hs⟩

theorem Foreign.prefix_of_prefix (h : Foreign new s) (hs : s <+: replaceFrom old new 0 t) :
    s <+: t := by
  obtain ⟨c, w, d, rfl, hc, -, -⟩ := h.between
  exact prefix_of_prefix_replaceFrom hc hs

theorem Foreign.infix_of_infix (h : Foreign new s) (n : ℕ) (hs : s <:+: replaceFrom old new n t) :
    s <:+: t := by
  induction t generalizing n with
  | nil => simpa [replaceFrom] using hs
  | cons a t ih =>
    rcases n with _ | n
    · have hfront (hs : s <+: replaceFrom old new 0 (a :: t)) := h.prefix_of_prefix hs
      rw [replaceFrom] at hs hfront
      split_ifs at hs hfront with hold
      · exact (ih _ (h.of_infix_append hs)).trans (List.infix_cons List.infix_rfl)
      · rcases List.infix_cons_iff.mp hs with hs | hs
        · exact (hfront hs).isInfix
        · exact List.infix_cons (ih 0 hs)
    · exact List.infix_cons (ih n hs)

theorem Foreign.not_infix (h : Foreign new old) (n : ℕ) : ¬ old <:+: replaceFrom old new n t := by
  induction t generalizing n with
  | nil =>
    intro hs
    exact h.ne_nil (List.infix_nil.mp (by simpa [replaceFrom] using hs))
  | cons a t ih =>
    intro hs
    rcases n with _ | n
    · have hfront (hs : old <+: replaceFrom old new 0 (a :: t)) := h.prefix_of_prefix hs
      rw [replaceFrom] at hs hfront
      split_ifs at hs hfront with hold
      · exact ih _ (h.of_infix_append hs)
      · rcases List.infix_cons_iff.mp hs with hs | hs
        · exact hold (hfront hs)
        · exact ih 0 hs
    · exact ih n hs

/-- A foreign word that occurs after a replacement occurred before it. -/
theorem infix_of_infix_replace (h : Foreign new s) (hs : s <:+: replace old new t) : s <:+: t :=
  h.infix_of_infix 0 hs

/-- A foreign word that is replaced is gone. -/
theorem not_infix_replace (h : Foreign new old) : ¬ old <:+: replace old new t := h.not_infix 0

theorem infix_of_infix_replaceAll {words : List (List α)} (h : Foreign new s)
    (hs : s <:+: replaceAll new words t) : s <:+: t := by
  induction words generalizing t with
  | nil => exact hs
  | cons old words ih => exact infix_of_infix_replace h (ih hs)

/-- **After replacing all the words of a list, none of those that are foreign is left.** -/
theorem not_infix_replaceAll {words : List (List α)} (h : Foreign new s) (hs : s ∈ words) :
    ¬ s <:+: replaceAll new words t := by
  induction words generalizing t with
  | nil => cases hs
  | cons old words ih =>
    rcases List.mem_cons.mp hs with rfl | hs
    · exact fun hinfix => not_infix_replace h (infix_of_infix_replaceAll h hinfix)
    · exact ih hs

/-! ## The ends of the result -/

/-- Where no entry of the replacement is left, nothing was replaced. -/
theorem replaceFrom_eq_self_of_not_mem {d : α} (hd : d ∈ new) (h : d ∉ replaceFrom old new 0 t) :
    replaceFrom old new 0 t = t := by
  induction t with
  | nil => rfl
  | cons a t ih =>
    rw [replaceFrom] at h ⊢
    split_ifs at h ⊢ with hold
    · exact absurd (List.mem_append_left _ hd) h
    · rw [ih fun hmem => h (List.mem_cons_of_mem _ hmem)]

/-- What ends the result without the last entry of the replacement ended the text. -/
theorem suffix_of_suffix_replaceFrom {w : List α} {d : α} (hd : d ∉ s) (n : ℕ)
    (h : s <:+ replaceFrom old (w ++ [d]) n t) : s <:+ t := by
  induction t generalizing n with
  | nil => simpa [replaceFrom] using h
  | cons a t ih =>
    rcases n with _ | n
    · rw [replaceFrom] at h
      split_ifs at h with hold
      · set rest := replaceFrom old (w ++ [d]) (old.length - 1) t with hrest
        have hsuffix : s <:+ rest := by
          rcases List.suffix_or_suffix_of_suffix h (List.suffix_append _ rest) with hs | ⟨z, rfl⟩
          · exact hs
          · obtain ⟨y, hy⟩ := h
            have hyz : y ++ z = w ++ [d] := by simpa [← List.append_assoc] using hy
            rcases List.eq_nil_or_concat z with rfl | ⟨z, e, rfl⟩
            · simp
            · have he : e = d := by simpa using congrArg List.getLast? hyz
              simp [he] at hd
        exact (ih _ hsuffix).trans (List.suffix_cons a t)
      · rcases List.suffix_cons_iff.mp h with rfl | hs
        · rw [replaceFrom_eq_self_of_not_mem (d := d) (by simp)
            fun hmem => hd (List.mem_cons_of_mem _ hmem)]
        · exact (ih 0 hs).trans (List.suffix_cons a t)
    · exact (ih n h).trans (List.suffix_cons a t)

section Ends

variable {words : List (List α)} {c d : α} {w : List α}

theorem prefix_of_prefix_replaceAll (hc : c ∉ s) (h : s <+: replaceAll (c :: w) words t) :
    s <+: t := by
  induction words generalizing t with
  | nil => exact h
  | cons old words ih => exact prefix_of_prefix_replaceFrom hc (ih h)

theorem suffix_of_suffix_replaceAll (hd : d ∉ s) (h : s <:+ replaceAll (w ++ [d]) words t) :
    s <:+ t := by
  induction words generalizing t with
  | nil => exact h
  | cons old words ih => exact suffix_of_suffix_replaceFrom hd 0 (ih h)

theorem replaceAll_eq_self_of_not_mem (hd : d ∈ new) (h : d ∉ replaceAll new words t) :
    replaceAll new words t = t := by
  induction words generalizing t with
  | nil => rfl
  | cons old words ih =>
    have hfirst : replaceAll new words (replace old new t) = replace old new t := ih h
    have hword : replace old new t = t :=
      replaceFrom_eq_self_of_not_mem hd (hfirst ▸ h : d ∉ replace old new t)
    exact hfirst.trans hword

/-- What ends a text before which nothing is replaced, likewise. -/
theorem suffix_of_suffix_append_replaceAll {x : List α} (hd : d ∉ s)
    (h : s <:+ x ++ replaceAll (w ++ [d]) words t) : s <:+ x ++ t := by
  rcases List.suffix_or_suffix_of_suffix h (List.suffix_append x _) with hs | hs
  · exact (suffix_of_suffix_replaceAll hd hs).trans (List.suffix_append x t)
  · rwa [replaceAll_eq_self_of_not_mem (d := d) (by simp) fun hmem => hd (hs.subset hmem)] at h

end Ends

/-! ## What is not replaced -/

theorem replaceFrom_eq_self (h : ¬ old <:+: t) : replaceFrom old new 0 t = t := by
  induction t with
  | nil => rfl
  | cons a t ih =>
    have hfront : ¬ old <+: a :: t := fun hp => h hp.isInfix
    rw [replaceFrom, if_neg hfront, ih fun hi => h (List.infix_cons hi)]

/-- No end of `l` begins `old`, and no end of `l` begins with it. -/
def NotBegun (old l : List α) : Prop := ∀ v, v ≠ [] → v <:+ l → ¬ v <+: old ∧ ¬ old <+: v

theorem replaceFrom_append_left {l : List α} (h : NotBegun old l) :
    replaceFrom old new 0 (l ++ t) = l ++ replaceFrom old new 0 t := by
  induction l with
  | nil => rfl
  | cons a l ih =>
    have hfront : ¬ old <+: a :: l ++ t := by
      intro hp
      obtain ⟨h₁, h₂⟩ := h (a :: l) (List.cons_ne_nil _ _) List.suffix_rfl
      rcases List.prefix_or_prefix_of_prefix hp (List.prefix_append (a :: l) t) with hp | hp
      exacts [h₂ hp, h₁ hp]
    rw [List.cons_append] at hfront ⊢
    rw [replaceFrom, if_neg hfront, ih fun v hv hs => h v hv (hs.trans (List.suffix_cons a l)),
      List.cons_append]

/-- No beginning of `l` ends `old`, and `old` is not in `l`. -/
def NotEnded (old l : List α) : Prop :=
  (∀ v, v ≠ [] → v <+: l → ¬ v <:+ old) ∧ ¬ old <:+: l

theorem replaceFrom_append_right {l : List α} (h : NotEnded old l) (n : ℕ) (hn : n ≤ t.length) :
    replaceFrom old new n (t ++ l) = replaceFrom old new n t ++ l := by
  induction t generalizing n with
  | nil =>
    obtain rfl : n = 0 := Nat.le_zero.mp hn
    exact replaceFrom_eq_self h.2
  | cons a t ih =>
    rcases n with _ | n
    · have hfront : old <+: a :: t ++ l ↔ old <+: a :: t := by
        refine ⟨fun hp => ?_, fun hp => hp.trans (List.prefix_append _ _)⟩
        rcases List.prefix_or_prefix_of_prefix hp (List.prefix_append (a :: t) l) with hs | ⟨v, rfl⟩
        · exact hs
        · rcases v with _ | ⟨b, v⟩
          · simp
          · have hv : b :: v <+: l := (List.prefix_append_right_inj _).mp hp
            exact absurd (List.suffix_append _ _) (h.1 _ (List.cons_ne_nil _ _) hv)
      rw [List.cons_append] at hfront ⊢
      rw [replaceFrom, replaceFrom]
      by_cases hold : old <+: a :: t
      · have hlength : old.length - 1 ≤ t.length := by
          have := hold.length_le
          simp only [List.length_cons] at this
          omega
        rw [if_pos (hfront.mpr hold), if_pos hold, ih _ hlength, List.append_assoc]
      · rw [if_neg fun hp => hold (hfront.mp hp), if_neg hold, ih 0 (Nat.zero_le _),
          List.cons_append]
    · exact ih n (Nat.le_of_succ_le_succ hn)

/-- **Words that do not overlap.** No part that ends one of them begins another or the same, and
none is in another. -/
def Apart (words : List (List α)) : Prop :=
  ∀ x ∈ words, ∀ y ∈ words,
    (∀ v, v ≠ [] → v <:+ x → v <+: y → v = x ∧ v = y) ∧ (x <:+: y → x = y)

namespace Apart

variable {words : List (List α)} {l₁ l₂ : List α}

omit [DecidableEq α] in
theorem notBegun (h : Apart words) (hold : old ∈ words) (hs : l₁ ++ l₂ ∈ words) (h₁ : l₁ ≠ []) :
    NotBegun old l₂ := by
  have hlength : 0 < l₁.length := List.length_pos_iff.mpr h₁
  intro v hv hsuffix
  have hshort := hsuffix.length_le
  constructor
  · intro hp
    have heq := ((h _ hs _ hold).1 v hv (hsuffix.trans (List.suffix_append _ _)) hp).1
    have := congrArg List.length heq
    simp only [List.length_append] at this
    omega
  · intro hp
    have heq := (h _ hold _ hs).2
      (hp.isInfix.trans (hsuffix.trans (List.suffix_append _ _)).isInfix)
    have := hp.length_le
    rw [heq, List.length_append] at this
    omega

omit [DecidableEq α] in
/-- None of the words is in a proper part of one of them. -/
theorem not_infix_of_lt (h : Apart words) (hold : old ∈ words) (hs : s ∈ words) {l : List α}
    (hl : l <:+: s) (hlt : l.length < s.length) : ¬ old <:+: l := by
  intro hi
  have heq := congrArg List.length ((h _ hold _ hs).2 (hi.trans hl))
  have := hi.length_le
  omega

omit [DecidableEq α] in
theorem notEnded (h : Apart words) (hold : old ∈ words) (hs : l₁ ++ l₂ ∈ words) (h₂ : l₂ ≠ []) :
    NotEnded old l₁ := by
  have hlength : 0 < l₂.length := List.length_pos_iff.mpr h₂
  refine ⟨fun v hv hp hsuffix => ?_, h.not_infix_of_lt hold hs
    (List.prefix_append _ _).isInfix (by rw [List.length_append]; omega)⟩
  have heq := ((h _ hold _ hs).1 v hv hsuffix (hp.trans (List.prefix_append _ _))).2
  have hshort := hp.length_le
  have := congrArg List.length heq
  simp only [List.length_append] at this
  omega

/-- A part that ends one of the words is left where it begins the text. -/
theorem prefix_replaceAll (h : Apart words) (hs : l₁ ++ l₂ ∈ words) (h₁ : l₁ ≠ [])
    (ht : l₂ <+: t) {olds : List (List α)} (holds : olds ⊆ words) :
    l₂ <+: replaceAll new olds t := by
  induction olds generalizing t with
  | nil => exact ht
  | cons old olds ih =>
    obtain ⟨hold, hrest⟩ := List.cons_subset.mp holds
    refine ih ?_ hrest
    obtain ⟨t, rfl⟩ := ht
    change l₂ <+: replaceFrom old new 0 (l₂ ++ t)
    rw [replaceFrom_append_left (h.notBegun hold hs h₁)]
    exact List.prefix_append _ _

/-- A part that begins one of the words is left where it ends the text. -/
theorem suffix_replaceAll (h : Apart words) (hs : l₁ ++ l₂ ∈ words) (h₂ : l₂ ≠ [])
    (ht : l₁ <:+ t) {olds : List (List α)} (holds : olds ⊆ words) :
    l₁ <:+ replaceAll new olds t := by
  induction olds generalizing t with
  | nil => exact ht
  | cons old olds ih =>
    obtain ⟨hold, hrest⟩ := List.cons_subset.mp holds
    refine ih ?_ hrest
    obtain ⟨t, rfl⟩ := ht
    change l₁ <:+ replaceFrom old new 0 (t ++ l₁)
    rw [replaceFrom_append_right (h.notEnded hold hs h₂) 0 (Nat.zero_le _)]
    exact List.suffix_append _ _

/-- A text that is a proper part of one of the words is left as it is. -/
theorem replaceAll_eq_self (h : Apart words) (hs : s ∈ words) (ht : t <:+: s)
    (hlt : t.length < s.length) {olds : List (List α)} (holds : olds ⊆ words) :
    replaceAll new olds t = t := by
  induction olds with
  | nil => rfl
  | cons old olds ih =>
    obtain ⟨hold, hrest⟩ := List.cons_subset.mp holds
    have hword : replace old new t = t := replaceFrom_eq_self (h.not_infix_of_lt hold hs ht hlt)
    exact (congrArg (replaceAll new olds) hword).trans (ih hrest)

/-- A part that begins one of the words is left where it ends a text, the first part of which is
not replaced. -/
theorem suffix_append_replaceAll (h : Apart words) {x : List α} (hs : l₁ ++ l₂ ∈ words)
    (h₂ : l₂ ≠ []) (ht : l₁ <:+ x ++ t) {olds : List (List α)} (holds : olds ⊆ words) :
    l₁ <:+ x ++ replaceAll new olds t := by
  rcases List.suffix_or_suffix_of_suffix ht (List.suffix_append x t) with hl | hl
  · exact (h.suffix_replaceAll hs h₂ hl holds).trans (List.suffix_append _ _)
  · have hlength : 0 < l₂.length := List.length_pos_iff.mpr h₂
    have hshort := hl.length_le
    rwa [h.replaceAll_eq_self hs (hl.isInfix.trans (List.prefix_append l₁ l₂).isInfix)
      (by rw [List.length_append]; omega) holds]

end Apart

end Replacement
