import Mathlib.Data.List.Basic

/-!
# Runs of a machine

A machine is a partial step function over labelled actions. A condition on the steps of a
run is a predicate of the state and the action taken in it:

* `Along.invariant`: an invariant kept by the steps that meet a condition holds after
  every run whose steps meet it;
* `Along.throughout`: a property that it implies holds in every state of such a run;
* `throughout_iff_along`: when a step outside the condition leaves the property, the
  property holds in all states of a run exactly if all its steps meet the condition;
* `Inevitable.of_rank`: when every step lowers a rank, a run that is not at its end can go on,
  and it ends where the property holds.
-/

namespace Machine

variable {σ α : Type} (step : σ → α → Option σ)

/-- The state after a list of actions, if each of them is enabled in its turn. -/
def exec : σ → List α → Option σ
  | s, [] => some s
  | s, a :: as => (step s a).bind (exec · as)

/-- Every action of the run meets `P` in the state it is taken in. -/
def Along (P : σ → α → Prop) : σ → List α → Prop
  | _, [] => True
  | s, a :: as => P s a ∧ ∀ t, step s a = some t → Along P t as

/-- `I` holds in every state of the run, the first and the last included. -/
def Throughout (I : σ → Prop) : σ → List α → Prop
  | s, [] => I s
  | s, a :: as => I s ∧ ∀ t, step s a = some t → Throughout I t as

/-- No run from `s` is longer than some bound, and where one cannot go on `I` holds. -/
def Inevitable (I : σ → Prop) (s : σ) : Prop :=
  ∃ bound, ∀ as t, exec step s as = some t →
    as.length ≤ bound ∧ ((∀ a, step t a = none) → I t)

variable {step} {P Q : σ → α → Prop} {I J : σ → Prop}

@[simp] theorem exec_nil (s : σ) : exec step s [] = some s := rfl

theorem exec_cons {s t : σ} {a : α} {as : List α} :
    exec step s (a :: as) = some t ↔ ∃ m, step s a = some m ∧ exec step m as = some t :=
  Option.bind_eq_some_iff

theorem exec_append {s t : σ} {as bs : List α} :
    exec step s (as ++ bs) = some t ↔ ∃ m, exec step s as = some m ∧ exec step m bs = some t := by
  induction as generalizing s with
  | nil => simp
  | cons a as ih =>
    rw [List.cons_append, exec_cons]
    simp only [ih, exec_cons]
    constructor
    · rintro ⟨m, hm, n, hn, ht⟩
      exact ⟨n, ⟨m, hm, hn⟩, ht⟩
    · rintro ⟨n, ⟨m, hm, hn⟩, ht⟩
      exact ⟨m, hm, n, hn, ht⟩

/-- Where every action is enabled in every state, every list of actions is a run. -/
theorem exec_total (total : ∀ s a, ∃ t, step s a = some t) (s : σ) (as : List α) :
    ∃ t, exec step s as = some t := by
  induction as generalizing s with
  | nil => exact ⟨s, rfl⟩
  | cons a as ih =>
    obtain ⟨m, hm⟩ := total s a
    obtain ⟨t, run⟩ := ih m
    exact ⟨t, exec_cons.mpr ⟨m, hm, run⟩⟩

theorem Along.mono (h : ∀ s a, P s a → Q s a) {s : σ} {as : List α} (hp : Along step P s as) :
    Along step Q s as := by
  induction as generalizing s with
  | nil => trivial
  | cons a as ih => exact ⟨h s a hp.1, fun t ht => ih (hp.2 t ht)⟩

theorem Along.and {s : σ} {as : List α} (hp : Along step P s as) (hq : Along step Q s as) :
    Along step (fun s a => P s a ∧ Q s a) s as := by
  induction as generalizing s with
  | nil => trivial
  | cons a as ih => exact ⟨⟨hp.1, hq.1⟩, fun t ht => ih (hp.2 t ht) (hq.2 t ht)⟩

/-- Along a run a condition on actions alone is one on all of them. -/
theorem along_iff_forall {R : α → Prop} {s t : σ} {as : List α} (run : exec step s as = some t) :
    Along step (fun _ a => R a) s as ↔ ∀ a ∈ as, R a := by
  induction as generalizing s with
  | nil => exact ⟨fun _ _ none => absurd none List.not_mem_nil, fun _ => trivial⟩
  | cons a as ih =>
    obtain ⟨m, hm, run⟩ := exec_cons.mp run
    rw [List.forall_mem_cons]
    refine and_congr_right fun _ => ⟨fun h => (ih run).mp (h m hm), fun h n hn => ?_⟩
    obtain rfl : m = n := Option.some.inj (hm.symm.trans hn)
    exact (ih run).mpr h

/-- The steps of a run keep an invariant when each step that meets the condition does. -/
theorem Along.invariant (keep : ∀ s a t, I s → P s a → step s a = some t → I t)
    {s t : σ} {as : List α} (hp : Along step P s as) (hs : I s)
    (run : exec step s as = some t) : I t := by
  induction as generalizing s with
  | nil => cases run; exact hs
  | cons a as ih =>
    obtain ⟨m, hm, ht⟩ := exec_cons.mp run
    exact ih (hp.2 m hm) (keep s a m hs hp.1 hm) ht

theorem invariant (keep : ∀ s a t, I s → step s a = some t → I t) {s t : σ} {as : List α}
    (hs : I s) (run : exec step s as = some t) : I t := by
  induction as generalizing s with
  | nil => cases run; exact hs
  | cons a as ih =>
    obtain ⟨m, hm, ht⟩ := exec_cons.mp run
    exact ih (keep s a m hs hm) ht

/-- The states of a run are those after its first actions. -/
theorem throughout_iff_exec {s : σ} {as : List α} :
    Throughout step I s as ↔ ∀ k t, exec step s (as.take k) = some t → I t := by
  induction as generalizing s with
  | nil =>
    constructor
    · intro h k t run
      rw [List.take_nil] at run
      cases run
      exact h
    · intro h
      exact h 0 s rfl
  | cons a as ih =>
    constructor
    · intro h k t run
      cases k with
      | zero =>
        cases run
        exact h.1
      | succ k =>
        obtain ⟨m, hm, run⟩ := exec_cons.mp run
        exact ih.mp (h.2 m hm) k t run
    · intro h
      refine ⟨h 0 s rfl, fun m hm => ih.mpr fun k t run => ?_⟩
      exact h (k + 1) t (exec_cons.mpr ⟨m, hm, run⟩)

theorem Throughout.last {s t : σ} {as : List α} (h : Throughout step I s as)
    (run : exec step s as = some t) : I t := by
  rw [← as.take_length] at run
  exact throughout_iff_exec.mp h as.length t run

/-- A property that an invariant implies holds throughout a run whose steps meet the
condition that keeps the invariant. -/
theorem Along.throughout {s : σ} {as : List α} (hp : Along step P s as) (implies : ∀ s, J s → I s)
    (keep : ∀ s a t, J s → P s a → step s a = some t → J t) (hs : J s) :
    Throughout step I s as := by
  induction as generalizing s with
  | nil => exact implies s hs
  | cons a as ih =>
    exact ⟨implies s hs, fun t ht => ih (hp.2 t ht) (keep s a t hs hp.1 ht)⟩

/-- A property that an invariant of all steps implies holds throughout every run. -/
theorem Throughout.of_invariant (keep : ∀ s a t, J s → step s a = some t → J t)
    (implies : ∀ s, J s → I s) {s : σ} (hs : J s) (as : List α) : Throughout step I s as := by
  induction as generalizing s with
  | nil => exact implies s hs
  | cons a as ih => exact ⟨implies s hs, fun t ht => ih (keep s a t hs ht)⟩

instance Along.decidable [∀ s a, Decidable (P s a)] :
    ∀ (s : σ) (as : List α), Decidable (Along step P s as)
  | _, [] => isTrue trivial
  | s, a :: as =>
    match h : step s a with
    | none => decidable_of_iff (P s a)
        ⟨fun hp => ⟨hp, fun t ht => by rw [h] at ht; cases ht⟩, fun hp => hp.1⟩
    | some m =>
      have := Along.decidable m as
      decidable_of_iff (P s a ∧ Along step P m as)
        ⟨fun hp => ⟨hp.1, fun t ht => by rw [h] at ht; cases ht; exact hp.2⟩,
          fun hp => ⟨hp.1, hp.2 m h⟩⟩

theorem Throughout.first {s : σ} {as : List α} (h : Throughout step I s as) : I s := by
  cases as with
  | nil => exact h
  | cons a as => exact h.1

/-- The condition is exact: in a run whose steps meet `Q`, those that meet `P` too keep the
invariant `J`, which implies the property `I`, and a step that does not meet `P` leaves `I` at
once. -/
theorem Along.throughout_iff {s t : σ} {as : List α} (hq : Along step Q s as)
    (implies : ∀ s, J s → I s) (keep : ∀ s a t, J s → Q s a → P s a → step s a = some t → J t)
    (breaks : ∀ s a t, J s → ¬ P s a → step s a = some t → ¬ I t)
    (hs : J s) (run : exec step s as = some t) : Throughout step I s as ↔ Along step P s as := by
  induction as generalizing s with
  | nil => exact ⟨fun _ => trivial, fun _ => implies s hs⟩
  | cons a as ih =>
    obtain ⟨m, hm, ht⟩ := exec_cons.mp run
    constructor
    · intro h
      have hm' := h.2 m hm
      by_cases hp : P s a
      · refine ⟨hp, fun n hn => ?_⟩
        obtain rfl : m = n := Option.some.inj (hm.symm.trans hn)
        exact (ih (hq.2 m hm) (keep s a m hs hq.1 hp hm) ht).mp hm'
      · exact absurd hm'.first (breaks s a m hs hp hm)
    · intro h
      refine ⟨implies s hs, fun n hn => ?_⟩
      obtain rfl : m = n := Option.some.inj (hm.symm.trans hn)
      exact (ih (hq.2 m hm) (keep s a m hs hq.1 h.1 hm) ht).mpr (h.2 m hm)

/-- What an invariant implies of each step holds along a run whose steps keep it. -/
theorem Along.along {s : σ} {as : List α} (hp : Along step P s as)
    (implies : ∀ s a, J s → P s a → Q s a)
    (keep : ∀ s a t, J s → P s a → step s a = some t → J t) (hs : J s) : Along step Q s as := by
  induction as generalizing s with
  | nil => trivial
  | cons a as ih =>
    exact ⟨implies s a hs hp.1, fun t ht => ih (hp.2 t ht) (keep s a t hs hp.1 ht)⟩

/-- A condition that an invariant implies is met along every run. -/
theorem Along.of_invariant (keep : ∀ s a t, I s → step s a = some t → I t)
    (implies : ∀ s a, I s → P s a) {s : σ} (hs : I s) (as : List α) : Along step P s as := by
  induction as generalizing s with
  | nil => trivial
  | cons a as ih => exact ⟨implies s a hs, fun t ht => ih (keep s a t hs ht)⟩

/-- The same for all runs. -/
theorem throughout_iff_along (implies : ∀ s, J s → I s)
    (keep : ∀ s a t, J s → P s a → step s a = some t → J t)
    (breaks : ∀ s a t, J s → ¬ P s a → step s a = some t → ¬ I t)
    {s t : σ} {as : List α} (hs : J s) (run : exec step s as = some t) :
    Throughout step I s as ↔ Along step P s as :=
  have every : Along step (fun _ _ => True) s as :=
    Along.of_invariant (I := fun _ => True) (fun _ _ _ _ _ => trivial) (fun _ _ _ => trivial)
      trivial as
  every.throughout_iff implies (fun s a t hs _ => keep s a t hs) breaks hs run

/-- A step outside the condition leaves a trace that lasts: without it at the end, every step of the
run has met the condition. -/
theorem Along.of_lasting {B : σ → Prop} (keep : ∀ s a t, J s → step s a = some t → J t)
    (breaks : ∀ s a t, J s → ¬ P s a → step s a = some t → B t)
    (lasts : ∀ s a t, J s → B s → step s a = some t → B t) {s t : σ} {as : List α} (hs : J s)
    (run : exec step s as = some t) (clear : ¬ B t) : Along step P s as := by
  induction as generalizing s with
  | nil => trivial
  | cons a as ih =>
    obtain ⟨m, hm, rest⟩ := exec_cons.mp run
    have kept := keep s a m hs hm
    have met : P s a := by
      by_contra outside
      have traced : J t ∧ B t := Machine.invariant
        (I := fun s => J s ∧ B s) (fun s a t h hs => ⟨keep s a t h.1 hs, lasts s a t h.1 h.2 hs⟩)
        ⟨kept, breaks s a m hs outside hm⟩ rest
      exact clear traced.2
    refine ⟨met, fun n hn => ?_⟩
    obtain rfl : m = n := Option.some.inj (hm.symm.trans hn)
    exact ih kept rest

/-- `R k s` bounds the steps that are possible from `s` by `k`. -/
theorem Inevitable.of_rank {R : Nat → σ → Prop}
    (lower : ∀ k s a t, R k s → step s a = some t → ∃ m < k, R m t)
    (last : ∀ k s, R k s → (∀ a, step s a = none) → I s) {k : Nat} {s : σ} (hs : R k s) :
    Inevitable step I s := by
  refine ⟨k, fun as => ?_⟩
  induction as generalizing k s with
  | nil =>
    intro t run
    cases run
    exact ⟨Nat.zero_le _, last k s hs⟩
  | cons a as ih =>
    intro t run
    obtain ⟨m, hm, run⟩ := exec_cons.mp run
    obtain ⟨j, less, hj⟩ := lower k s a m hs hm
    obtain ⟨bound, goal⟩ := ih hj t run
    refine ⟨?_, goal⟩
    rw [List.length_cons]
    omega

end Machine
