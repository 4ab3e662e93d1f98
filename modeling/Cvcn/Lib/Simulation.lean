import Cvcn.Lib.Machine

/-!
# Machines that are described by simpler ones

A simpler machine is ready for every action and answers it with outputs. It describes another
machine as long as a bound on its own state is kept, if each step of the other is one of its
moves, seen through a relation of the states, and adds what the move puts out, in its own way of
writing it, to what it shows. Then every run is a run of the simpler machine, and shows its outputs
(`Simulates.run`).
-/

namespace Machine

variable {σ τ α β γ : Type} (step : σ → α → Option σ) (move : τ → α → τ × List β)

/-- The state after the actions, and what is put out on the way. -/
def moves : τ → List α → τ × List β
  | a, [] => (a, [])
  | a, e :: es =>
    ((moves (move a e).1 es).1, (move a e).2 ++ (moves (move a e).1 es).2)

/-- Each step is a move, up to `R`, unless the move leaves the bound. -/
structure Simulates (R : σ → τ → Prop) (shown : σ → List γ) (write : β → γ)
    (bound : τ → Prop) : Prop where
  back : ∀ a e, bound (move a e).1 → bound a
  next : ∀ s a e t, R s a → step s e = some t → bound (move a e).1 →
    R t (move a e).1 ∧ shown t = shown s ++ (move a e).2.map write

variable {step move} {R : σ → τ → Prop} {shown : σ → List γ} {write : β → γ} {bound : τ → Prop}

theorem bound_of_moves (back : ∀ a e, bound (move a e).1 → bound a) {a : τ} {es : List α}
    (kept : bound (moves move a es).1) : bound a := by
  induction es generalizing a with
  | nil => exact kept
  | cons e es ih => exact back a e (ih kept)

theorem Simulates.run (h : Simulates step move R shown write bound) {s t : σ} {a : τ}
    {es : List α} (start : R s a) (run : exec step s es = some t)
    (kept : bound (moves move a es).1) :
    R t (moves move a es).1 ∧ shown t = shown s ++ (moves move a es).2.map write := by
  induction es generalizing s a with
  | nil =>
    cases run
    exact ⟨start, (List.append_nil _).symm⟩
  | cons e es ih =>
    obtain ⟨m, hm, run⟩ := exec_cons.mp run
    have first : bound (move a e).1 := bound_of_moves h.back kept
    obtain ⟨related, shows⟩ := h.next s a e m start hm first
    obtain ⟨last, rest⟩ := ih related run kept
    refine ⟨last, ?_⟩
    rw [rest, shows, List.append_assoc, ← List.map_append]
    rfl

end Machine
