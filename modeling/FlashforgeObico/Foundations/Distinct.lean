import Mathlib.Data.List.Basic
import Mathlib.Data.List.Induction

/-!
# Appending what is new

`addAll acc l` appends to `acc` those entries of `l` that are not in it yet, each once, in the order
in which they come first in `l` (`addAll_spec`). It is how an insertion-ordered set is built.
-/

namespace Distinct

variable {α : Type*} [DecidableEq α]

/-- Append an entry unless it is there. -/
def addNew (acc : List α) (a : α) : List α := if a ∈ acc then acc else acc ++ [a]

/-- Append the entries of a list that are new, one after another. -/
def addAll (acc l : List α) : List α := l.foldl addNew acc

variable {acc l : List α} {a b : α}

theorem addAll_concat : addAll acc (l ++ [a]) = addNew (addAll acc l) a := by
  simp [addAll]

theorem mem_addNew : b ∈ addNew acc a ↔ b ∈ acc ∨ b = a := by
  unfold addNew
  split_ifs with h
  · exact (or_iff_left_of_imp fun hb => hb ▸ h).symm
  · simp

theorem mem_addAll : a ∈ addAll acc l ↔ a ∈ acc ∨ a ∈ l := by
  induction l using List.reverseRecOn with
  | nil => simp [addAll]
  | append_singleton l b ih =>
    rw [addAll_concat, mem_addNew, ih, or_assoc, List.mem_append, List.mem_singleton]

/-- **What is appended**: the new entries, each once, in the order of their first occurrences. -/
theorem addAll_spec (acc l : List α) : ∃ rest, addAll acc l = acc ++ rest ∧
    rest.Pairwise (fun a b => l.idxOf a < l.idxOf b) ∧ ∀ a, a ∈ rest ↔ a ∈ l ∧ a ∉ acc := by
  induction l using List.reverseRecOn with
  | nil => exact ⟨[], by simp [addAll], .nil, by simp⟩
  | append_singleton l b ih =>
    obtain ⟨rest, hrest, hordered, hmem⟩ := ih
    have hordered' : rest.Pairwise fun a a' => (l ++ [b]).idxOf a < (l ++ [b]).idxOf a' := by
      refine hordered.imp_of_mem fun {a a'} ha ha' hlt => ?_
      rwa [List.idxOf_append_of_mem ((hmem a).mp ha).1,
        List.idxOf_append_of_mem ((hmem a').mp ha').1]
    rw [addAll_concat, addNew]
    split_ifs with hb
    · refine ⟨rest, hrest, hordered', fun a => ?_⟩
      rw [hmem, List.mem_append, List.mem_singleton]
      refine and_congr_left fun hacc => (or_iff_left_of_imp fun hab => ?_).symm
      exact (mem_addAll.mp (hab ▸ hb)).resolve_left hacc
    · have hnew : b ∉ acc ∧ b ∉ l := by simpa [mem_addAll, not_or] using hb
      refine ⟨rest ++ [b], by rw [hrest, List.append_assoc], ?_, fun a => ?_⟩
      · refine List.pairwise_append.mpr ⟨hordered', List.pairwise_singleton _ _, ?_⟩
        intro a ha a' ha'
        obtain rfl := List.mem_singleton.mp ha'
        have hal := ((hmem a).mp ha).1
        rw [List.idxOf_append_of_mem hal, List.idxOf_append_of_notMem hnew.2]
        exact Nat.lt_add_right _ (List.idxOf_lt_length_of_mem hal)
      · rw [List.mem_append, hmem, List.mem_append, List.mem_singleton]
        constructor
        · rintro (⟨hal, hacc⟩ | rfl)
          · exact ⟨.inl hal, hacc⟩
          · exact ⟨.inr rfl, hnew.1⟩
        · rintro ⟨hal | hab, hacc⟩
          · exact .inl ⟨hal, hacc⟩
          · exact .inr hab

/-- Repetitions do not count. -/
theorem addAll_addAll (acc l : List α) : addAll acc (addAll [] l) = addAll acc l := by
  induction l using List.reverseRecOn with
  | nil => rfl
  | append_singleton l b ih =>
    rw [addAll_concat, addNew, @addAll_concat _ _ acc]
    split_ifs with hb
    · have hmem : b ∈ addAll acc l := mem_addAll.mpr (.inr (by simpa [mem_addAll] using hb))
      rw [ih, addNew, if_pos hmem]
    · rw [addAll_concat, ih]

/-- The entries that satisfy `p` do not depend on the others. -/
theorem filter_addAll (p : α → Bool) (acc l : List α) :
    (addAll acc l).filter p = addAll (acc.filter p) (l.filter p) := by
  induction l using List.reverseRecOn with
  | nil => rfl
  | append_singleton l b ih =>
    rw [addAll_concat, addNew, List.filter_append]
    rcases hp : p b with _ | _
    · have hnone : [b].filter p = [] := by simp [hp]
      rw [hnone, List.append_nil, ← ih]
      split_ifs
      · rfl
      · rw [List.filter_append, hnone, List.append_nil]
    · have hone : [b].filter p = [b] := by simp [hp]
      have hmem : b ∈ (addAll acc l).filter p ↔ b ∈ addAll acc l := by simp [hp]
      rw [hone, addAll_concat, ← ih, addNew]
      simp only [hmem]
      split_ifs
      · rfl
      · rw [List.filter_append, hone]

end Distinct
