import Mathlib.Logic.Basic

/-!
# Computations with a state and exceptions

A `Procedure ε σ α` transforms a state `σ` and returns an `α` or raises an `ε`. As in an imperative
language, what was done to the state before the exception stays done. It is used to transcribe
methods that update their object and may raise. `Keeps f m` says that `m` leaves the part of the
state that `f` reads as it is, whether it returns or raises.

The last section says when a computation without a state returns a value, and when it raises.
-/

universe u

/-- A computation over the state `σ` that returns an `α` or raises an `ε`. -/
def Procedure (ε σ α : Type u) : Type u := σ → Except ε α × σ

namespace Procedure

variable {ε σ α β : Type u}

instance : Monad (Procedure ε σ) where
  pure a := fun s => (.ok a, s)
  bind m f := fun s =>
    match m s with
    | (.error e, t) => (.error e, t)
    | (.ok a, t) => f a t

/-- Read a part of the state. -/
def gets (f : σ → α) : Procedure ε σ α := fun s => (.ok (f s), s)

/-- Update the state. -/
def modify (f : σ → σ) : Procedure ε σ PUnit := fun s => (.ok .unit, f s)

/-- Raise an exception. -/
def raise (e : ε) : Procedure ε σ α := fun s => (.error e, s)

/-- Return the value of a pure computation that may raise. -/
def ofExcept (x : Except ε α) : Procedure ε σ α := fun s => (x, s)

/-- Run a computation and then update the state, whether it returns or raises: `try` with a
`finally`, or a lock that is released. -/
def ensuring (f : σ → σ) (m : Procedure ε σ α) : Procedure ε σ α := fun s => ((m s).1, f (m s).2)

theorem pure_apply (a : α) (s : σ) : (pure a : Procedure ε σ α) s = (.ok a, s) := rfl

theorem bind_apply (m : Procedure ε σ α) (f : α → Procedure ε σ β) (s : σ) :
    (m >>= f) s = match m s with
      | (.error e, t) => (.error e, t)
      | (.ok a, t) => f a t := rfl

theorem bind_of_ok {m : Procedure ε σ α} {f : α → Procedure ε σ β} {s t : σ} {a : α}
    (h : m s = (.ok a, t)) : (m >>= f) s = f a t := by
  rw [bind_apply, h]

theorem bind_of_error {m : Procedure ε σ α} {f : α → Procedure ε σ β} {s t : σ} {e : ε}
    (h : m s = (.error e, t)) : (m >>= f) s = (.error e, t) := by
  rw [bind_apply, h]

theorem gets_bind (f : σ → α) (k : α → Procedure ε σ β) (s : σ) :
    (gets f >>= k) s = k (f s) s := rfl

theorem modify_bind (f : σ → σ) (k : PUnit → Procedure ε σ β) (s : σ) :
    (modify f >>= k) s = k .unit (f s) := rfl

theorem ofExcept_ok_bind (a : α) (k : α → Procedure ε σ β) (s : σ) :
    (ofExcept (.ok a) >>= k) s = k a s := rfl

theorem ofExcept_error_bind (e : ε) (k : α → Procedure ε σ β) (s : σ) :
    (ofExcept (.error e) >>= k) s = (.error e, s) := rfl

/-! ## What a computation leaves as it is -/

/-- The computation leaves what `f` reads as it is. -/
def Keeps {γ : Type*} (f : σ → γ) (m : Procedure ε σ α) : Prop := ∀ s, f (m s).2 = f s

namespace Keeps

variable {γ : Type*} {f : σ → γ}

theorem pure (a : α) : Keeps f (pure a : Procedure ε σ α) := fun _ => rfl

theorem gets (g : σ → α) : Keeps f (Procedure.gets g : Procedure ε σ α) := fun _ => rfl

theorem ofExcept (x : Except ε α) : Keeps f (Procedure.ofExcept x : Procedure ε σ α) := fun _ => rfl

theorem modify {g : σ → σ} (h : ∀ s, f (g s) = f s) :
    Keeps f (Procedure.modify g : Procedure ε σ PUnit) := h

theorem bind {m : Procedure ε σ α} {k : α → Procedure ε σ β} (hm : Keeps f m)
    (hk : ∀ a, Keeps f (k a)) : Keeps f (m >>= k) := by
  intro s
  rw [← hm s]
  rcases hms : m s with ⟨e | a, t⟩
  · rw [bind_of_error hms]
  · rw [bind_of_ok hms]
    exact hk a t

theorem ensuring {m : Procedure ε σ α} {g : σ → σ} (hm : Keeps f m) (hg : ∀ s, f (g s) = f s) :
    Keeps f (ensuring g m) := fun s => (hg _).trans (hm s)

end Keeps

end Procedure

/-! ## Exceptions without a state -/

namespace Except

variable {ε α β : Type u}

theorem bind_eq_ok_iff {x : Except ε α} {f : α → Except ε β} {b : β} :
    x >>= f = .ok b ↔ ∃ a, x = .ok a ∧ f a = .ok b := by
  cases x <;> simp [bind, Except.bind]

theorem map_eq_ok_iff {x : Except ε α} {f : α → β} {b : β} :
    x.map f = .ok b ↔ ∃ a, x = .ok a ∧ f a = b := by
  cases x <;> simp [Except.map]

theorem bind_raises_iff {x : Except ε α} {f : α → Except ε β} :
    (∃ e, x >>= f = .error e) ↔ (∃ e, x = .error e) ∨ ∃ a, x = .ok a ∧ ∃ e, f a = .error e := by
  cases x <;> simp [bind, Except.bind]

theorem map_raises_iff {x : Except ε α} {f : α → β} :
    (∃ e, x.map f = .error e) ↔ ∃ e, x = .error e := by
  cases x <;> simp [Except.map]

/-- What `g` recovers from each value of `f` it recovers from the values on a list. -/
theorem map_of_mapM_eq_ok {f : α → Except ε β} {g : β → α} (hg : ∀ a b, f a = .ok b → g b = a)
    {l : List α} {bs : List β} (h : l.mapM f = .ok bs) : bs.map g = l := by
  induction l generalizing bs with
  | nil =>
    obtain rfl : [] = bs := Except.ok.inj h
    rfl
  | cons a l ih =>
    rw [List.mapM_cons, bind_eq_ok_iff] at h
    obtain ⟨b, hb, h⟩ := h
    obtain ⟨bs', hbs, h⟩ := bind_eq_ok_iff.mp h
    obtain rfl : b :: bs' = bs := Except.ok.inj h
    rw [List.map_cons, hg a b hb, ih hbs]

/-- Mapping over a list a function that returns `g a` on the `a` that satisfy `P`, and raises on the
others. -/
theorem mapM_eq_ok_iff {f : α → Except ε β} {g : α → β} {P : α → Prop}
    (h : ∀ a b, f a = .ok b ↔ P a ∧ b = g a) {l : List α} {bs : List β} :
    l.mapM f = .ok bs ↔ (∀ a ∈ l, P a) ∧ bs = l.map g := by
  induction l generalizing bs with
  | nil => simp [pure, Except.pure, eq_comm]
  | cons a l ih =>
    rw [List.mapM_cons, bind_eq_ok_iff, List.forall_mem_cons]
    constructor
    · rintro ⟨b, hb, hbs⟩
      obtain ⟨bs', hbs', hbs⟩ := bind_eq_ok_iff.mp hbs
      obtain ⟨hPa, rfl⟩ := (h a b).mp hb
      obtain ⟨hPl, rfl⟩ := ih.mp hbs'
      exact ⟨⟨hPa, hPl⟩, (Except.ok.inj hbs).symm⟩
    · rintro ⟨⟨hPa, hPl⟩, rfl⟩
      refine ⟨g a, (h a _).mpr ⟨hPa, rfl⟩, ?_⟩
      rw [ih.mpr ⟨hPl, rfl⟩]
      rfl

/-- Forgetting a part of every value after mapping over a list, or at every element. -/
theorem map_mapM {γ : Type u} {f : α → Except ε β} (g : β → γ) (l : List α) :
    (l.mapM f).map (List.map g) = l.mapM fun a => (f a).map g := by
  induction l with
  | nil => rfl
  | cons a l ih =>
    rw [List.mapM_cons, List.mapM_cons, ← ih]
    rcases f a with e | b
    · rfl
    · rcases l.mapM f with e | bs <;> rfl

/-- Mapping over a list raises when it does on some element. -/
theorem mapM_raises_iff {f : α → Except ε β} {l : List α} :
    (∃ e, l.mapM f = .error e) ↔ ∃ a ∈ l, ∃ e, f a = .error e := by
  induction l with
  | nil => simp [pure, Except.pure]
  | cons a l ih =>
    have hcons : ∀ b, (∃ e, (l.mapM f >>= fun bs => pure (b :: bs)) = .error e) ↔
        ∃ e, l.mapM f = .error e := by
      intro b
      rw [bind_raises_iff]
      simp [pure, Except.pure]
    rw [List.mapM_cons, bind_raises_iff]
    simp only [hcons, ih, List.mem_cons, exists_eq_or_imp]
    rcases f a with e | b <;> simp

end Except
