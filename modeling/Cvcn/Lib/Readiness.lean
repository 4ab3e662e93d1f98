import Mathlib.Data.List.Nodup

/-!
# Ready lists

A notifier watches things that come to need attention in several ways. It keeps a list of those that
something has happened to; a consumer takes a batch of reports off the list, and is not told again
of what it leaves undone, unless the thing is watched by its level and so goes back on the list.

`Covered`: whatever needs attention is on the list or in the consumer's hands. It is kept by new
signals (`Covered.signal`), by taking a batch (`Covered.harvest`) and by working one off
(`Covered.handle`); and when nothing more is reported, nothing needs attention
(`harvest_quiet`).
-/

namespace Readiness

variable {ι κ ε : Type}

section

variable [DecidableEq ι]

/-- Puts a thing on the list, unless it is there. -/
def signal (i : ι) (ready : List ι) : List ι := if i ∈ ready then ready else ready ++ [i]

theorem mem_signal {i j : ι} {ready : List ι} : j ∈ signal i ready ↔ j = i ∨ j ∈ ready := by
  unfold signal
  split
  · rename_i here
    constructor
    · exact .inr
    · rintro (rfl | old)
      · exact here
      · exact old
  · rw [List.mem_append, List.mem_singleton, or_comm]

theorem nodup_signal {i : ι} {ready : List ι} (h : ready.Nodup) : (signal i ready).Nodup := by
  unfold signal
  split
  · exact h
  · rename_i new
    exact h.append (List.nodup_singleton i) (by simpa using new)

end

/-- Takes things off the list until `n` of them have something to report: the reports, and what
is left of the list. -/
def harvest (poll : ι → Option ε) : Nat → List ι → List (ι × ε) × List ι
  | 0, ready => ([], ready)
  | _ + 1, [] => ([], [])
  | n + 1, i :: ready =>
    match poll i with
    | none => harvest poll (n + 1) ready
    | some e => ((i, e) :: (harvest poll n ready).1, (harvest poll n ready).2)

/-- What needs attention is on the list or in hand. -/
def Covered (needs : ι → κ → Prop) (ready : List ι) (hand : ι → κ → Prop) : Prop :=
  ∀ i k, needs i k → i ∈ ready ∨ hand i k

variable {poll : ι → Option ε} {needs needs' : ι → κ → Prop} {hand hand' : ι → κ → Prop}
  {n : Nat} {ready ready' : List ι}

/-- A report says what its thing has to report. -/
theorem harvest_polled {i : ι} {e : ε} (h : (i, e) ∈ (harvest poll n ready).1) :
    poll i = some e ∧ i ∈ ready := by
  induction ready generalizing n with
  | nil => cases n <;> cases h
  | cons j ready ih =>
    cases n with
    | zero => cases h
    | succ n =>
      cases found : poll j with
      | none =>
        simp only [harvest, found] at h
        obtain ⟨polled, here⟩ := ih h
        exact ⟨polled, List.mem_cons_of_mem _ here⟩
      | some e' =>
        simp only [harvest, found, List.mem_cons, Prod.mk.injEq] at h
        rcases h with ⟨rfl, rfl⟩ | h
        · exact ⟨found, List.mem_cons_self⟩
        · obtain ⟨polled, here⟩ := ih h
          exact ⟨polled, List.mem_cons_of_mem _ here⟩

/-- Nothing on the list is passed over that has something to report. -/
theorem harvest_complete {i : ι} {e : ε} (here : i ∈ ready) (polled : poll i = some e) :
    (i, e) ∈ (harvest poll n ready).1 ∨ i ∈ (harvest poll n ready).2 := by
  induction ready generalizing n with
  | nil => cases here
  | cons j ready ih =>
    cases n with
    | zero => exact .inr here
    | succ n =>
      cases found : poll j with
      | none =>
        simp only [harvest, found]
        rcases List.mem_cons.mp here with rfl | here
        · cases found.symm.trans polled
        · exact ih here
      | some e' =>
        simp only [harvest, found, List.mem_cons]
        rcases List.mem_cons.mp here with rfl | here
        · cases found.symm.trans polled
          exact .inl (.inl rfl)
        · rcases ih (n := n) here with taken | left
          · exact .inl (.inr taken)
          · exact .inr left

/-- The things reported and those left on the list are from the list, in its order. -/
theorem harvest_sublist :
    (((harvest poll n ready).1.map (·.1)) ++ (harvest poll n ready).2).Sublist ready := by
  induction ready generalizing n with
  | nil => cases n <;> exact .slnil
  | cons j ready ih =>
    cases n with
    | zero => exact .refl _
    | succ n =>
      cases found : poll j with
      | none =>
        simp only [harvest, found]
        exact ih.cons j
      | some e =>
        simp only [harvest, found, List.map_cons, List.cons_append]
        exact ih.cons_cons j

/-- When there is no report, nothing on the list has one. -/
theorem harvest_quiet (positive : 0 < n) (quiet : (harvest poll n ready).1 = []) :
    ∀ i ∈ ready, poll i = none := by
  induction ready with
  | nil => exact nofun
  | cons j ready ih =>
    obtain ⟨n, rfl⟩ := Nat.exists_eq_succ_of_ne_zero (Nat.ne_of_gt positive)
    cases found : poll j with
    | none =>
      simp only [harvest, found] at quiet
      intro i here
      rcases List.mem_cons.mp here with rfl | here
      · exact found
      · exact ih quiet i here
    | some e => simp [harvest, found] at quiet

/-- New needs come with a signal. -/
theorem Covered.signal (h : Covered needs ready hand) (kept : ∀ i ∈ ready, i ∈ ready')
    (new : ∀ i k, needs' i k → needs i k ∨ i ∈ ready') : Covered needs' ready' hand := by
  intro i k need
  rcases new i k need with old | listed
  · exact (h i k old).imp_left (kept i)
  · exact .inl listed

/-- A batch is taken with nothing in hand: its reports tell all that its things need. -/
theorem Covered.harvest {tells : ε → κ → Prop} (h : Covered needs ready hand)
    (idle : ∀ i k, ¬ hand i k)
    (told : ∀ i k, needs i k → ∃ e, poll i = some e ∧ tells e k)
    (kept : ∀ i ∈ (harvest poll n ready).2, i ∈ ready')
    (batch : ∀ i e k, (i, e) ∈ (Readiness.harvest poll n ready).1 → tells e k → hand' i k) :
    Covered needs ready' hand' := by
  intro i k need
  obtain ⟨e, polled, tells⟩ := told i k need
  have listed := (h i k need).resolve_right (idle i k)
  rcases harvest_complete listed polled with taken | left
  · exact .inr (batch i e k taken tells)
  · exact .inl (kept i left)

/-- What is worked off is no longer needed, or has been signalled again. -/
theorem Covered.handle (h : Covered needs ready hand)
    (kept : ∀ i k, needs' i k → i ∈ ready → i ∈ ready')
    (old : ∀ i k, needs' i k → needs i k ∨ i ∈ ready')
    (worked : ∀ i k, needs' i k → hand i k → hand' i k ∨ i ∈ ready') :
    Covered needs' ready' hand' := by
  intro i k need
  rcases old i k need with before | listed
  · rcases h i k before with listed | inHand
    · exact .inl (kept i k need listed)
    · exact (worked i k need inHand).symm
  · exact .inl listed

end Readiness
