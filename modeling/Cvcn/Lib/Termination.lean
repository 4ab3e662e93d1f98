import Mathlib.Logic.Hydra
import Cvcn.Lib.Machine
import Cvcn.Lib.Prog

/-!
# Machines that come to rest

A machine whose steps are in part its own and in part come from outside comes to rest if of its
own steps only finitely many can follow each other, whichever are taken and in whatever order.
No number need bound them: a program whose operations answer anything may go on as long as the
answers say, but not for ever.

* `Settles.of_rank`: it is enough that its own steps lower a rank in a well-founded order;
* `Prog.left_wf`: what is left of a program after an operation is less than the program.
-/

namespace Machine

variable {σ α ρ : Type} {step : σ → α → Option σ} {P : σ → α → Prop} {I J : σ → Prop}

/-- Of the steps that meet `P` only finitely many follow each other, and where none is possible
`I` holds. -/
inductive Settles (step : σ → α → Option σ) (P : σ → α → Prop) (I : σ → Prop) : σ → Prop where
  | intro (s : σ) (last : (∀ a, P s a → step s a = none) → I s)
    (next : ∀ a t, P s a → step s a = some t → Settles step P I t) : Settles step P I s

theorem Settles.of_rank {r : ρ → ρ → Prop} (wf : WellFounded r) (rank : σ → ρ)
    (lower : ∀ s a t, J s → P s a → step s a = some t → J t ∧ r (rank t) (rank s))
    (last : ∀ s, J s → (∀ a, P s a → step s a = none) → I s) {s : σ} (hs : J s) :
    Settles step P I s := by
  obtain ⟨k, hk⟩ : ∃ k, rank s = k := ⟨_, rfl⟩
  induction k using wf.induction generalizing s with
  | _ k ih =>
    subst hk
    refine .intro s (last s hs) fun a t ha ht => ?_
    obtain ⟨ht', less⟩ := lower s a t hs ha ht
    exact ih (rank t) less ht' rfl

/-- Whatever is done first, some more steps lead to the goal. -/
theorem Settles.reaches {s : σ} (h : Settles step P I s) :
    ∃ as t, Along step P s as ∧ exec step s as = some t ∧ I t := by
  induction h with
  | intro s last next ih =>
    by_cases stuck : ∀ a, P s a → step s a = none
    · exact ⟨[], s, trivial, rfl, last stuck⟩
    · simp only [not_forall] at stuck
      obtain ⟨a, ha, moves⟩ := stuck
      obtain ⟨m, hm⟩ := Option.ne_none_iff_exists'.mp moves
      obtain ⟨as, t, along, run, goal⟩ := ih a m ha hm
      refine ⟨a :: as, t, ⟨ha, fun n hn => ?_⟩, exec_cons.mpr ⟨m, hm, run⟩, goal⟩
      obtain rfl : m = n := Option.some.inj (hm.symm.trans hn)
      exact along

end Machine

namespace Atomic.Prog

variable {Op : Type} {Res : Op → Type} {α : Type}

/-- What is left of a program after its first operation, whatever that answers. -/
inductive Left : Prog Op Res α → Prog Op Res α → Prop where
  | op (o : Op) (rest : Res o → Prog Op Res α) (r : Res o) : Left (rest r) (.op o rest)

theorem left_wf : WellFounded (@Left Op Res α) := by
  refine ⟨fun p => ?_⟩
  induction p with
  | done a => exact ⟨_, fun _ less => by cases less⟩
  | op o rest ih =>
    refine ⟨_, fun q less => ?_⟩
    cases less with
    | op _ _ r => exact ih r

end Atomic.Prog
