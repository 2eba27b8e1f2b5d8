import Mathlib.Data.List.DropRight

/-!
# Properties of traces

A trace is the list of what has happened so far, in order. `Along P t` says that each entry of `t`
satisfies `P` together with what came before it, `since p t` is what came after the last entry that
satisfies `p`, and `lastOf f t` what `f` reads off the last entry that it reads something off. They
are computed along an append, which is how a trace grows.
-/

namespace Trace

variable {ε : Type*} {P : List ε → ε → Prop} {p : ε → Bool} {t u : List ε} {e : ε}

/-! ## Entries and what came before them -/

/-- Each entry of `t` satisfies `P` together with what came before it. -/
def Along (P : List ε → ε → Prop) (t : List ε) : Prop :=
  ∀ pre e post, t = pre ++ e :: post → P pre e

theorem along_nil : Along P [] := by
  intro pre e post h
  simp at h

theorem along_append : Along P (t ++ u) ↔ Along P t ∧ Along (fun pre => P (t ++ pre)) u := by
  constructor
  · intro h
    refine ⟨?_, ?_⟩
    · rintro pre e post rfl
      exact h pre e (post ++ u) (by simp)
    · rintro pre e post rfl
      exact h (t ++ pre) e post (by simp)
  · rintro ⟨ht, hu⟩ pre e post h
    rcases List.append_eq_append_iff.mp h with ⟨as, rfl, hu'⟩ | ⟨bs, ht', hbs⟩
    · exact hu as e post hu'
    · rcases bs with _ | ⟨b, bs⟩
      · rw [List.append_nil] at ht'
        subst ht'
        simpa using hu [] e post hbs.symm
      · obtain ⟨rfl, -⟩ := List.cons.inj hbs
        exact ht pre e bs ht'

theorem along_cons : Along P (e :: t) ↔ P [] e ∧ Along (fun pre => P (e :: pre)) t := by
  have h : Along P [e] ↔ P [] e := by
    constructor
    · intro h
      exact h [] e [] rfl
    · intro h pre e' post he
      rcases pre with _ | ⟨_, _⟩
      · obtain ⟨rfl, -⟩ := List.cons.inj he
        exact h
      · simp at he
  rw [← List.singleton_append, along_append, h]
  rfl

theorem along_snoc : Along P (t ++ [e]) ↔ Along P t ∧ P t e := by
  rw [along_append, along_cons]
  simp [along_nil]

theorem Along.mono {Q : List ε → ε → Prop} (h : Along P t) (hPQ : ∀ pre e, P pre e → Q pre e) :
    Along Q t := fun pre e post ht => hPQ pre e (h pre e post ht)

theorem along_of_forall (h : ∀ pre, (∀ e ∈ pre, e ∈ t) → ∀ e ∈ t, P pre e) : Along P t := by
  rintro pre e post rfl
  exact h pre (fun e he => List.mem_append_left _ he) e (by simp)

/-- Going through the positions of a trace. -/
theorem along_iff_getElem :
    Along P t ↔ ∀ i : Fin t.length, P (t.take i) t[i] := by
  constructor
  · intro h i
    apply h _ _ (t.drop (i + 1))
    rw [Fin.getElem_fin, ← List.drop_eq_getElem_cons, List.take_append_drop]
  · rintro h pre e post rfl
    simpa using h ⟨pre.length, by simp⟩

instance [∀ pre e, Decidable (P pre e)] (t : List ε) : Decidable (Along P t) :=
  decidable_of_iff _ along_iff_getElem.symm

/-! ## What came last -/

/-- What came after the last entry that satisfies `p`; everything when none does. -/
def since (p : ε → Bool) (t : List ε) : List ε := t.rtakeWhile fun e => !p e

theorem since_concat_of_pos (h : p e = true) : since p (t ++ [e]) = [] :=
  List.rtakeWhile_concat_neg (fun e => !p e) _ _ (by simp [h])

theorem since_concat_of_neg (h : p e = false) : since p (t ++ [e]) = since p t ++ [e] :=
  List.rtakeWhile_concat_pos (fun e => !p e) _ _ (by simp [h])

theorem since_append_of_none (h : ∀ e ∈ u, p e = false) : since p (t ++ u) = since p t ++ u := by
  induction u using List.reverseRecOn with
  | nil => simp
  | append_singleton u e ih =>
    rw [← List.append_assoc, since_concat_of_neg (h e (by simp)), ih fun e he => h e (by simp [he]),
      List.append_assoc]

/-- What came after the last such entry was there before or was appended; it was appended if such an
entry was. -/
theorem mem_since_append (h : e ∈ since p (t ++ u)) :
    (e ∈ since p t ∧ ∀ e' ∈ u, p e' = false) ∨ e ∈ u := by
  induction u using List.reverseRecOn with
  | nil => exact .inl ⟨by simpa using h, by simp⟩
  | append_singleton u e' ih =>
    rw [← List.append_assoc] at h
    rcases he : p e' with _ | _
    · rw [since_concat_of_neg he] at h
      rcases List.mem_append.mp h with h | h
      · rcases ih h with ⟨ht, hu⟩ | hu
        · exact .inl ⟨ht, List.forall_mem_append.mpr ⟨hu, by simpa using he⟩⟩
        · exact .inr (List.mem_append_left _ hu)
      · exact .inr (List.mem_append_right _ h)
    · rw [since_concat_of_pos he] at h
      cases h

/-- What `f` reads off the last entry that it reads something off. -/
def lastOf {β : Type*} (f : ε → Option β) (t : List ε) : Option β := (t.filterMap f).getLast?

theorem lastOf_append {β : Type*} (f : ε → Option β) (t u : List ε) :
    lastOf f (t ++ u) = (lastOf f u).or (lastOf f t) := by
  rw [lastOf, List.filterMap_append, List.getLast?_append, lastOf, lastOf]

theorem lastOf_append_of_none {β : Type*} {f : ε → Option β} (h : ∀ e ∈ u, f e = none) :
    lastOf f (t ++ u) = lastOf f t := by
  rw [lastOf, List.filterMap_append, List.filterMap_eq_nil_iff.mpr h, List.append_nil, lastOf]

theorem lastOf_concat {β : Type*} (f : ε → Option β) (t : List ε) (e : ε) :
    lastOf f (t ++ [e]) = (f e).or (lastOf f t) := by
  rw [lastOf_append]
  cases h : f e <;> simp [lastOf, h]

/-- There is an entry that satisfies `p`, and none after the last of them satisfies `q`. -/
def NoneSince (p q : ε → Bool) (t : List ε) : Prop :=
  (∃ e ∈ t, p e = true) ∧ ∀ e ∈ since p t, q e = false

instance (p q : ε → Bool) (t : List ε) : Decidable (NoneSince p q t) :=
  inferInstanceAs (Decidable ((∃ e ∈ t, p e = true) ∧ ∀ e ∈ since p t, q e = false))

variable {q : ε → Bool}

theorem NoneSince.append (h : NoneSince p q t) (hu : ∀ e ∈ u, q e = false) :
    NoneSince p q (t ++ u) := by
  obtain ⟨⟨e, he, hp⟩, ht⟩ := h
  refine ⟨⟨e, List.mem_append_left _ he, hp⟩, fun e' he' => ?_⟩
  rcases mem_since_append he' with ⟨he', -⟩ | he'
  · exact ht e' he'
  · exact hu e' he'

theorem noneSince_append_of_mem (he : e ∈ u) (hp : p e = true) (hu : ∀ e ∈ u, q e = false) :
    NoneSince p q (t ++ u) := by
  refine ⟨⟨e, List.mem_append_right _ he, hp⟩, fun e' he' => ?_⟩
  rcases mem_since_append he' with ⟨-, hnone⟩ | he'
  · exact absurd (hnone e he) (by simp [hp])
  · exact hu e' he'

end Trace
