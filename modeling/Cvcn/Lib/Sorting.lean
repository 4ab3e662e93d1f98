import Mathlib.Data.List.Sort

/-!
# The first elements of a sorted list

A list is sorted and cut off after `k` elements. Elements that should not have been in it change
the result exactly if one of them comes so early that fewer than `k` of the others are before it:
`take_insertionSort_filter_iff`.
-/

namespace Sorting

variable {α : Type} {r : α → α → Prop} [DecidableRel r] {p : α → Bool} {k : Nat}

/-- Sorting what passes is what passes of the sorted list. -/
theorem insertionSort_filter [Std.Total r] [IsTrans α r] [Std.Antisymm r] (l : List α) :
    (l.filter p).insertionSort r = (l.insertionSort r).filter p := by
  have sorted := List.pairwise_insertionSort r l
  apply List.Perm.eq_of_pairwise (fun a b _ _ hab hba => antisymm hab hba)
    (List.pairwise_insertionSort r _) (sorted.filter p)
  exact (List.perm_insertionSort r _).trans ((List.perm_insertionSort r l).filter p).symm

/-- Leaving out what does not pass leaves the first elements the same if all of them pass. -/
theorem take_filter_eq_iff {l : List α} :
    (l.filter p).take k = l.take k ↔ ∀ a ∈ l.take k, p a = true := by
  constructor
  · intro same a ha
    rw [← same] at ha
    exact (List.mem_filter.mp (List.mem_of_mem_take ha)).2
  · intro pass
    have first : (l.take k).filter p = l.take k := List.filter_eq_self.mpr pass
    have parts : l.filter p = l.take k ++ (l.drop k).filter p := by
      conv_lhs => rw [← List.take_append_drop k l, List.filter_append, first]
    by_cases few : l.length ≤ k
    · rw [parts, List.drop_of_length_le few, List.filter_nil, List.append_nil, List.take_take,
        Nat.min_self]
    · have size : (l.take k).length = k := List.length_take_of_le (by omega)
      rw [parts, List.take_left' size]

/-- The first elements of a sorted list all pass if enough of those that pass come before each
that does not. -/
theorem take_pass_iff [Std.Antisymm r] {l : List α} (sorted : l.Pairwise r) :
    (∀ a ∈ l.take k, p a = true) ↔
      ∀ a ∈ l, p a = false → k ≤ l.countP fun b => p b && decide (r b a) := by
  constructor
  · intro pass a ha fails
    have later : a ∈ l.drop k := by
      rw [← List.take_append_drop k l, List.mem_append] at ha
      rcases ha with early | later
      · rw [pass a early] at fails
        cases fails
      · exact later
    have long : k ≤ l.length := by
      have some := List.length_pos_of_mem later
      rw [List.length_drop] at some
      omega
    have before : ∀ b ∈ l.take k, (p b && decide (r b a)) = true := by
      intro b hb
      rw [← List.take_append_drop k l, List.pairwise_append] at sorted
      rw [pass b hb, decide_eq_true (sorted.2.2 b hb a later)]
      rfl
    calc k = (l.take k).length := (List.length_take_of_le long).symm
      _ = (l.take k).countP fun b => p b && decide (r b a) :=
        (List.countP_eq_length.mpr before).symm
      _ ≤ l.countP fun b => p b && decide (r b a) := (List.take_sublist k l).countP_le
  · intro enough a ha
    by_contra fails
    rw [Bool.not_eq_true] at fails
    obtain ⟨before, after, split⟩ := List.append_of_mem ha
    have early : before.length < k := by
      have size := congrArg List.length split
      have bound := List.length_take_le k l
      rw [List.length_append, List.length_cons] at size
      omega
    have whole : l = before ++ a :: (after ++ l.drop k) := by
      rw [← List.cons_append, ← List.append_assoc, ← split, List.take_append_drop]
    have enough := enough a (List.mem_of_mem_take ha) fails
    -- what comes behind `a` is not before it, unless it is the same
    have none : (after ++ l.drop k).countP (fun b => p b && decide (r b a)) = 0 := by
      apply List.countP_eq_zero.mpr
      intro b hb both
      rw [Bool.and_eq_true, decide_eq_true_eq] at both
      rw [whole, List.pairwise_append, List.pairwise_cons] at sorted
      have same : a = b := antisymm (sorted.2.1.1 b hb) both.2
      rw [← same, fails] at both
      cases both.1
    rw [whole, List.countP_append, List.countP_cons, none, fails] at enough
    have few := before.countP_le_length (p := fun b => p b && decide (r b a))
    simp only [Bool.false_and, Bool.false_eq_true, if_false] at enough
    omega

/-- Sorted and cut off, a list gives the same with and without its elements that do not pass
exactly if each of them has `k` others before it that pass. -/
theorem take_insertionSort_filter_iff [Std.Total r] [IsTrans α r] [Std.Antisymm r] (l : List α) :
    (l.insertionSort r).take k = ((l.filter p).insertionSort r).take k ↔
      ∀ a ∈ l, p a = false → k ≤ l.countP fun b => p b && decide (r b a) := by
  have sorted := List.pairwise_insertionSort r l
  rw [insertionSort_filter, eq_comm, take_filter_eq_iff, take_pass_iff sorted]
  simp only [List.mem_insertionSort, (List.perm_insertionSort r l).countP_eq]

end Sorting
