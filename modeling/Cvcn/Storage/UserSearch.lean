import Mathlib.Data.List.Infix
import Cvcn.Lib.Sorting
import Cvcn.Storage.Repositories
import Cvcn.Validator

/-!
# The search for users

`findUsers` looks for the names that start with the query, by `LIKE` and a pattern that is the
query with `%` behind it. The query is not escaped and is handed over as a C string, so a `_` or
`%` in it is a wildcard and what follows a NUL is lost. This adds names to those wanted; it does
not change the answer if all of them are cut off.
-/

namespace Cvcn

open Atomic Sorting

/-- The name starts with the query, but for the case of ASCII letters. -/
def startsWith (query name : Bytes) : Bool := (query.map foldCase).isPrefixOf (name.map foldCase)

namespace Tables

/-- The names of all users but one. -/
def otherNames (t : Tables) (userID : Int) : List Bytes :=
  (t.users.filter (·.id != userID)).map (·.username)

/-- What the search is for: the first names that start with the query. -/
def prefixSearch (t : Tables) (query : Bytes) (userID : Int) : List Bytes :=
  (((t.otherNames userID).filter (startsWith query)).insertionSort (· ≤ ·)).take 20

end Tables

theorem Tables.mem_otherNames {t : Tables} {userID : Int} {name : Bytes}
    (hn : name ∈ t.otherNames userID) : ∃ u ∈ t.users, u.username = name := by
  obtain ⟨u, hu, rfl⟩ := List.mem_map.mp hn
  exact ⟨u, List.mem_of_mem_filter hu, rfl⟩

/-! `LIKE` and what it is used for. -/

theorem startsWith_cons {b c : UInt8} {query name : Bytes} :
    startsWith (b :: query) (c :: name) = (foldCase b == foldCase c && startsWith query name) :=
  rfl

theorem like_percent (name : Bytes) : like [37] name = true := by
  simp only [like, if_true, List.any_eq_true, List.mem_tails]
  exact ⟨[], List.nil_suffix, rfl⟩

/-- A name that starts with the query matches the pattern. -/
theorem like_of_startsWith {query name : Bytes} (starts : startsWith query name = true) :
    like (query ++ [37]) name = true := by
  induction query generalizing name with
  | nil => exact like_percent name
  | cons b query ih =>
    cases name with
    | nil => cases starts
    | cons c name =>
      rw [startsWith_cons, Bool.and_eq_true] at starts
      have rest := ih starts.2
      rw [List.cons_append, like]
      by_cases percent : b = 37
      · rw [if_pos percent, List.any_eq_true]
        exact ⟨name, by simp [List.mem_tails], rest⟩
      · rw [if_neg percent, starts.1, Bool.or_true, Bool.true_and]
        exact rest

/-- Without wildcards no other name does. -/
theorem like_eq_startsWith {query : Bytes} (plain : ∀ b ∈ query, b ≠ 37 ∧ b ≠ 95) (name : Bytes) :
    like (query ++ [37]) name = startsWith query name := by
  induction query generalizing name with
  | nil => exact like_percent name
  | cons b query ih =>
    obtain ⟨percent, underscore⟩ := plain b List.mem_cons_self
    cases name with
    | nil => rw [List.cons_append, like, if_neg percent]; rfl
    | cons c name =>
      have rest := ih (fun d hd => plain d (List.mem_cons_of_mem _ hd)) name
      rw [List.cons_append, like, if_neg percent, startsWith_cons, ← rest,
        beq_eq_false_iff_ne.mpr underscore, Bool.false_or]

theorem foldCase_eq_zero {b : UInt8} (zero : foldCase b = 0) : b = 0 := by
  unfold foldCase at zero
  split at zero
  · rename_i upper
    have low : 65 ≤ b.toNat := UInt8.le_iff_toNat_le.mp upper.1
    have high : b.toNat ≤ 90 := UInt8.le_iff_toNat_le.mp upper.2
    have sum : (b.toNat + 32) % 256 = 0 := congrArg UInt8.toNat zero
    omega
  · exact zero

/-- A query with a NUL in it starts no name that has none. -/
theorem not_startsWith_of_nul {query name : Bytes} (nul : 0 ∈ query) (none : 0 ∉ name) :
    startsWith query name = false := by
  by_contra starts
  rw [Bool.not_eq_false, startsWith, List.isPrefixOf_iff_prefix] at starts
  obtain ⟨b, hb, zero⟩ := List.mem_map.mp
    (starts.subset (List.mem_map_of_mem (f := foldCase) nul))
  exact none (foldCase_eq_zero zero ▸ hb)

/-- The pattern that `findUsers` binds. -/
def searchPattern (query : Bytes) : Bytes := cStr (query ++ [37])

/-- It is matched by every name that starts with the query. -/
theorem like_searchPattern {query name : Bytes} (none : 0 ∉ name)
    (starts : startsWith query name = true) : like (searchPattern query) name = true := by
  by_cases nul : 0 ∈ query
  · rw [not_startsWith_of_nul nul none] at starts
    cases starts
  · rw [searchPattern, cStr_eq_self (by simpa using nul)]
    exact like_of_startsWith starts

theorem nul_not_mem_of_valid {name : Bytes} (valid : Validator.validateUsername name = true) :
    0 ∉ name := by
  intro nul
  have allowed := (Validator.bounded_iff.mp valid).2.2 0 nul
  cases allowed

namespace RepoOp

variable {c : Conn} {userID : Int}

/-- The names found are the first that match the pattern. -/
theorem findUsers_exec (valid : ∀ u ∈ c.tables.users, Validator.validateUsername u.username = true)
    (query : Bytes) (userID : Int) :
    ((findUsers query userID).exec c).1 =
      (((c.tables.otherNames userID).filter (like (searchPattern query))).insertionSort
        (· ≤ ·)).take 20 := by
  have found : (c.tables.users.filter fun u => like (searchPattern query) u.username &&
      u.id != userID).map (·.username) =
      (c.tables.otherNames userID).filter (like (searchPattern query)) := by
    rw [Tables.otherNames, List.filter_map, List.filter_filter]
    rfl
  simp only [exec, prog, ChatRepository.findUsers, Conn.prepare_run, Bool.not_true,
    Bool.false_eq_true, if_false, Conn.rows_run, Tables.query, Prog.pure_eq, Prog.run_done,
    List.map_map]
  rw [← searchPattern, found]
  -- no name has a NUL in it, so all of it is read
  refine (List.map_congr_left fun name hn => ?_).trans (List.map_id _)
  have sorted := (List.mem_insertionSort _).mp (List.mem_of_mem_take hn)
  obtain ⟨u, hu, rfl⟩ := Tables.mem_otherNames (List.mem_of_mem_filter sorted)
  exact cStr_eq_self (nul_not_mem_of_valid (valid u hu))

/-- The search answers with the first names that start with the query exactly if every other
name that matches the pattern comes after so many of them that it is cut off. -/
theorem findUsers_eq_prefixSearch_iff
    (valid : ∀ u ∈ c.tables.users, Validator.validateUsername u.username = true)
    (query : Bytes) (userID : Int) :
    ((findUsers query userID).exec c).1 = c.tables.prefixSearch query userID ↔
      ∀ name ∈ c.tables.otherNames userID, like (searchPattern query) name = true →
        startsWith query name = false →
          20 ≤ (c.tables.otherNames userID).countP fun first =>
            startsWith query first && decide (first ≤ name) := by
  have matched : ∀ name ∈ c.tables.otherNames userID, startsWith query name = true →
      like (searchPattern query) name = true := by
    intro name hn starts
    obtain ⟨u, hu, rfl⟩ := Tables.mem_otherNames hn
    exact like_searchPattern (nul_not_mem_of_valid (valid u hu)) starts
  have wanted : (c.tables.otherNames userID).filter (startsWith query) =
      ((c.tables.otherNames userID).filter (like (searchPattern query))).filter
        (startsWith query) := by
    rw [List.filter_filter]
    apply List.filter_congr
    intro name hn
    cases starts : startsWith query name with
    | true => rw [matched name hn starts]; rfl
    | false => rfl
  have enough (name : Bytes) :
      ((c.tables.otherNames userID).filter (like (searchPattern query))).countP (fun first =>
        startsWith query first && decide (first ≤ name)) =
      (c.tables.otherNames userID).countP fun first =>
        startsWith query first && decide (first ≤ name) := by
    rw [List.countP_filter]
    apply List.countP_congr
    intro first hf
    simp only [Bool.and_eq_true]
    exact ⟨fun h => h.1, fun h => ⟨h, matched first hf h.1⟩⟩
  rw [findUsers_exec valid, Tables.prefixSearch, wanted, take_insertionSort_filter_iff]
  simp only [List.mem_filter, and_imp, enough]

/-- In particular a query of letters and digits finds what it should. -/
theorem findUsers_of_plain
    (valid : ∀ u ∈ c.tables.users, Validator.validateUsername u.username = true)
    {query : Bytes} (plain : ∀ b ∈ query, b ≠ 37 ∧ b ≠ 95 ∧ b ≠ 0) (userID : Int) :
    ((findUsers query userID).exec c).1 = c.tables.prefixSearch query userID := by
  have nul : 0 ∉ query ++ [37] := by
    intro nul
    rcases List.mem_append.mp nul with nul | nul
    · exact (plain 0 nul).2.2 rfl
    · exact absurd nul (by decide)
  rw [findUsers_exec valid, Tables.prefixSearch, searchPattern, cStr_eq_self nul]
  congr 3
  funext name
  exact like_eq_startsWith (fun b hb => ⟨(plain b hb).1, (plain b hb).2.1⟩) name

/-- Two users, the first of whom searches for the names that start with an underscore. -/
def twoUsers : Conn :=
  { tables := { users := [⟨1, [97], []⟩, ⟨2, [98], []⟩], userSeq := 2 } }

theorem findUsers_eq_prefixSearch_two :
    ((findUsers [66] 1).exec twoUsers).1 = twoUsers.tables.prefixSearch [66] 1 :=
  (findUsers_eq_prefixSearch_iff (by decide) [66] 1).mpr (by decide)

theorem findUsers_ne_prefixSearch_underscore :
    ((findUsers [95] 1).exec twoUsers).1 = [[98]] ∧
      ((findUsers [95] 1).exec twoUsers).1 ≠ twoUsers.tables.prefixSearch [95] 1 := by
  decide

end RepoOp

end Cvcn
