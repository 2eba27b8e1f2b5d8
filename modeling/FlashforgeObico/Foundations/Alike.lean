import FlashforgeObico.Foundations.PythonValue
import Mathlib.Data.List.Forall2

/-!
# Values that differ in some fields

`Dict.Rel R` relates two `dict`s with the same keys whose values are related by `R k` at every key
`k`. `Json.ObjRel` and `Json.ArrRel` lift a relation to objects and to lists, so that a relation on
nested values is written field by field. What is read from related values is related.
-/

namespace Py

/-- The keys are the same, and the values at every key `k` are related by `R k`. -/
def Dict.Rel (R : String → Json → Json → Prop) (d d' : Dict) : Prop :=
  List.Forall₂ (fun e e' => e.1 = e'.1 ∧ R e.1 e.2 e'.2) d d'

/-- The values are equal, or objects whose fields are related. -/
def Json.ObjRel (R : String → Json → Json → Prop) (v v' : Json) : Prop :=
  v = v' ∨ ∃ d d', v = .obj d ∧ v' = .obj d' ∧ Dict.Rel R d d'

/-- The values are equal, or lists whose items are related. -/
def Json.ArrRel (S : Json → Json → Prop) (v v' : Json) : Prop :=
  v = v' ∨ ∃ l l', v = .arr l ∧ v' = .arr l' ∧ List.Forall₂ S l l'

variable {R : String → Json → Json → Prop} {S : Json → Json → Prop} {d d' : Dict} {v v' : Json}

theorem Dict.Rel.get (h : Dict.Rel R d d') {k : String} (hnull : R k .null .null) :
    R k (d.get k) (d'.get k) := by
  induction h with
  | nil => exact hnull
  | @cons e e' d d' he _ ih =>
    obtain ⟨k₀, v₀⟩ := e
    obtain ⟨k₁, v₁⟩ := e'
    obtain ⟨rfl, hv⟩ := he
    rw [Dict.get, Dict.get, Dict.get?, Dict.get?, List.lookup_cons, List.lookup_cons]
    by_cases hk : k = k₀
    · subst hk
      simpa using hv
    · rw [beq_false_of_ne hk]
      exact ih

/-- A field whose values have to be equal. -/
theorem Dict.Rel.get_eq (h : Dict.Rel R d d') {k : String} (hk : R k = Eq) :
    d'.get k = d.get k := by
  have hget := h.get (k := k) (by rw [hk])
  rw [hk] at hget
  exact hget.symm

theorem Dict.Rel.refl (hR : ∀ k v, R k v v) (d : Dict) : Dict.Rel R d d :=
  List.forall₂_same.mpr fun e _ => ⟨rfl, hR e.1 e.2⟩

theorem Json.ObjRel.refl (v : Json) : Json.ObjRel R v v := .inl rfl

theorem Json.ArrRel.refl (v : Json) : Json.ArrRel S v v := .inl rfl

theorem Json.ObjRel.fields (h : Json.ObjRel R v v') (hR : ∀ k v, R k v v) :
    Dict.Rel R v.fields v'.fields := by
  rcases h with rfl | ⟨d, d', rfl, rfl, h⟩
  · exact Dict.Rel.refl hR _
  · exact h

theorem Json.ArrRel.items (h : Json.ArrRel S v v') (hS : ∀ v, S v v) :
    List.Forall₂ S v.items v'.items := by
  rcases h with rfl | ⟨l, l', rfl, rfl, h⟩
  · exact List.forall₂_same.mpr fun v _ => hS v
  · exact h

/-! ## Reading related lists -/

variable {α β : Type*} {T : α → α → Prop} {l l' : List α}

theorem filterMap_of_forall₂ {f : α → Option β} (h : List.Forall₂ T l l')
    (hf : ∀ a b, T a b → f b = f a) : l'.filterMap f = l.filterMap f := by
  induction h with
  | nil => rfl
  | cons hab _ ih => rw [List.filterMap_cons, List.filterMap_cons, hf _ _ hab, ih]

theorem mapM_of_forall₂ {α β ε : Type} {T : α → α → Prop} {l l' : List α} {f : α → Except ε β}
    (h : List.Forall₂ T l l') (hf : ∀ a b, T a b → f b = f a) : l'.mapM f = l.mapM f := by
  induction h with
  | nil => rfl
  | cons hab _ ih => rw [List.mapM_cons, List.mapM_cons, hf _ _ hab, ih]

/-- The first entries that satisfy a condition are related, if it does not tell related entries
apart. -/
theorem find?_of_forall₂ {p : α → Bool} (h : List.Forall₂ T l l')
    (hp : ∀ a b, T a b → p b = p a) : Option.Rel T (l.find? p) (l'.find? p) := by
  induction h with
  | nil => exact .none
  | @cons a b l l' hab _ ih =>
    rw [List.find?_cons, List.find?_cons, hp a b hab]
    split
    · exact .some hab
    · exact ih

theorem zipIdx_of_forall₂ (h : List.Forall₂ T l l') (n : ℕ) :
    List.Forall₂ (fun p q => T p.1 q.1 ∧ p.2 = q.2) (l.zipIdx n) (l'.zipIdx n) := by
  induction h generalizing n with
  | nil => exact .nil
  | cons hab _ ih => exact .cons ⟨hab, rfl⟩ (ih (n + 1))

end Py
