import Mathlib.Data.List.TakeWhile

/-!
# Packets cut from a stream

A stream arrives in pieces. A receiver keeps what it cannot use yet in a buffer and cuts
packets off the front. It need not care where the pieces end, if a cut that is possible stays
the same when more arrives (`Cutter.stable`): `Cutter.split_append` and `Cutter.accepted_append`.
-/

namespace Framing

variable {β π : Type}

/-- A cut takes a packet that has arrived off the front and leaves the rest. -/
structure Cutter (β π : Type) where
  cut : List β → Option (π × List β)
  shorter {s : List β} {p : π} {rest : List β} : cut s = some (p, rest) → rest.length < s.length
  stable {s : List β} {p : π} {rest : List β} (more : List β) :
    cut s = some (p, rest) → cut (s ++ more) = some (p, rest ++ more)

namespace Cutter

variable (c : Cutter β π)

def cuts : (rounds : Nat) → List β → List π × List β
  | 0, s => ([], s)
  | rounds + 1, s =>
    match c.cut s with
    | none => ([], s)
    | some (p, rest) => (p :: (cuts rounds rest).1, (cuts rounds rest).2)

/-- All the packets of a stream, and what is left of it. -/
def split (s : List β) : List π × List β := c.cuts s.length s

/-- The packets before the first one that is refused. -/
def accepted (refused : π → Bool) (s : List β) : List π :=
  (c.split s).1.takeWhile fun p => !refused p

/-- One of the packets that have arrived is refused. -/
def refuses (refused : π → Bool) (s : List β) : Bool := (c.split s).1.any refused

variable {c}

/-- Each cut takes something, so the length of the stream bounds the rounds. -/
theorem cuts_enough {m n : Nat} {s : List β} (hm : s.length ≤ m) (hn : s.length ≤ n) :
    c.cuts m s = c.cuts n s := by
  induction m generalizing n s with
  | zero =>
    obtain rfl : s = [] := List.length_eq_zero_iff.mp (Nat.le_zero.mp hm)
    cases n with
    | zero => rfl
    | succ n =>
      cases h : c.cut [] with
      | none => simp only [cuts, h]
      | some cut => exact absurd (c.shorter h) (Nat.not_lt_zero _)
  | succ m ih =>
    cases n with
    | zero =>
      obtain rfl : s = [] := List.length_eq_zero_iff.mp (Nat.le_zero.mp hn)
      cases h : c.cut [] with
      | none => simp only [cuts, h]
      | some cut => exact absurd (c.shorter h) (Nat.not_lt_zero _)
    | succ n =>
      cases h : c.cut s with
      | none => simp only [cuts, h]
      | some cut =>
        obtain ⟨p, rest⟩ := cut
        have less := c.shorter h
        simp only [cuts, h, ih (by omega : rest.length ≤ m) (by omega : rest.length ≤ n)]

theorem split_of_none {s : List β} (h : c.cut s = none) : c.split s = ([], s) := by
  unfold split
  cases s.length with
  | zero => rfl
  | succ n => simp only [cuts, h]

theorem split_of_some {s : List β} {p : π} {rest : List β} (h : c.cut s = some (p, rest)) :
    c.split s = (p :: (c.split rest).1, (c.split rest).2) := by
  have less := c.shorter h
  unfold split
  cases size : s.length with
  | zero => omega
  | succ n => simp only [cuts, h, cuts_enough (by omega : rest.length ≤ n) (Nat.le_refl _)]

/-- Induction on a stream, packet by packet. -/
theorem induct (c : Cutter β π) {motive : List β → Prop}
    (last : ∀ s, c.cut s = none → motive s)
    (more : ∀ s p rest, c.cut s = some (p, rest) → motive rest → motive s) (s : List β) :
    motive s := by
  induction size : s.length using Nat.strongRecOn generalizing s with
  | ind n ih =>
    cases h : c.cut s with
    | none => exact last s h
    | some cut =>
      obtain ⟨p, rest⟩ := cut
      exact more s p rest h (ih _ (size ▸ c.shorter h) rest rfl)

/-- A part of a packet holds no packet. -/
theorem cut_of_append {s t : List β} (h : c.cut (s ++ t) = none) : c.cut s = none := by
  cases cut : c.cut s with
  | none => rfl
  | some found => exact absurd (h.symm.trans (c.stable t cut)) nofun

/-- What is left holds no whole packet. -/
theorem cut_rest (c : Cutter β π) (s : List β) : c.cut (c.split s).2 = none := by
  induction s using c.induct with
  | last s h => rwa [split_of_none h]
  | more s p rest h ih => rwa [split_of_some h]

/-- The packets of the first part come first; what was left of it goes in front of the
second part. -/
theorem split_append (s t : List β) :
    c.split (s ++ t) =
      ((c.split s).1 ++ (c.split ((c.split s).2 ++ t)).1, (c.split ((c.split s).2 ++ t)).2) := by
  induction s using c.induct with
  | last s h => rw [split_of_none h]; rfl
  | more s p rest h ih =>
    rw [split_of_some (c.stable t h), split_of_some h, ih]
    rfl

section

variable {refused : π → Bool}

theorem accepted_of_none {s : List β} (h : c.cut s = none) : c.accepted refused s = [] := by
  rw [accepted, split_of_none h]
  rfl

theorem accepted_of_some {s : List β} {p : π} {rest : List β} (h : c.cut s = some (p, rest))
    (ok : refused p = false) : c.accepted refused s = p :: c.accepted refused rest := by
  rw [accepted, split_of_some h, List.takeWhile_cons_of_pos (by rw [ok]; rfl)]
  rfl

theorem accepted_of_refused {s : List β} {p : π} {rest : List β} (h : c.cut s = some (p, rest))
    (no : refused p = true) : c.accepted refused s = [] := by
  rw [accepted, split_of_some h, List.takeWhile_cons_of_neg (by rw [no]; simp)]

theorem refuses_of_none {s : List β} (h : c.cut s = none) : c.refuses refused s = false := by
  rw [refuses, split_of_none h]
  rfl

theorem refuses_of_some {s : List β} {p : π} {rest : List β} (h : c.cut s = some (p, rest)) :
    c.refuses refused s = (refused p || c.refuses refused rest) := by
  rw [refuses, split_of_some h]
  rfl

theorem refuses_append (s t : List β) :
    c.refuses refused (s ++ t) =
      (c.refuses refused s || c.refuses refused ((c.split s).2 ++ t)) := by
  rw [refuses, split_append, List.any_append]
  rfl

theorem refuses_append_eq_false {s t : List β} :
    c.refuses refused (s ++ t) = false ↔
      c.refuses refused s = false ∧ c.refuses refused ((c.split s).2 ++ t) = false := by
  rw [refuses_append, Bool.or_eq_false_iff]

/-- Nothing that arrives after a refused packet is accepted any more. -/
theorem accepted_append (s t : List β) :
    c.accepted refused (s ++ t) = c.accepted refused s ++
      if c.refuses refused s then [] else c.accepted refused ((c.split s).2 ++ t) := by
  induction s using c.induct with
  | last s h => simp only [accepted_of_none h, refuses_of_none h, split_of_none h,
      List.nil_append, Bool.false_eq_true, if_false]
  | more s p rest h ih =>
    cases no : refused p with
    | true =>
      rw [accepted_of_refused (c.stable t h) no, accepted_of_refused h no, refuses_of_some h, no]
      rfl
    | false =>
      rw [accepted_of_some (c.stable t h) no, accepted_of_some h no, refuses_of_some h, no,
        split_of_some h, ih, Bool.false_or, List.cons_append]

/-- A stream of which nothing is refused is accepted packet by packet. -/
theorem accepted_eq_split {s : List β} (h : c.refuses refused s = false) :
    c.accepted refused s = (c.split s).1 := by
  apply List.takeWhile_eq_self_iff.mpr
  intro p hp
  have ok := List.any_eq_false.mp h p hp
  simpa using ok

end

end Cutter

end Framing
