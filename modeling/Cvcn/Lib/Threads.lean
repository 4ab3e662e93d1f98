import Mathlib.Algebra.Order.BigOperators.Group.List
import Mathlib.Algebra.Order.Ring.Nat
import Cvcn.Lib.Machine
import Cvcn.Lib.Prog

/-!
# Threads over one shared state

Any number of threads run programs of atomic operations. A schedule starts calls and lets
one thread execute one operation at a time; `enabled` says which calls may start in a state.
A thread that is over stays in the list with its result.
-/

namespace Atomic

open Machine List

variable {Op : Type} {Res : Op → Type} {α σ ι : Type}

/-- A call in progress: which call it is, and what is left of its program. -/
structure Thread (Op : Type) (Res : Op → Type) (α ι : Type) where
  label : ι
  rest : Prog Op Res α

structure Threads (Op : Type) (Res : Op → Type) (α σ ι : Type) where
  shared : σ
  threads : List (Thread Op Res α ι)

inductive Sched (ι : Type) where
  | call (l : ι)
  | step (i : Nat)

def Thread.Over (t : Thread Op Res α ι) : Prop := ∃ a, t.rest = .done a

theorem Thread.over_iff {t : Thread Op Res α ι} : t.Over ↔ t.rest.isDone = true := by
  obtain ⟨l, p⟩ := t
  cases p with
  | done a => exact ⟨fun _ => rfl, fun _ => ⟨a, rfl⟩⟩
  | op o rest => exact ⟨fun ⟨a, h⟩ => (by cases h), fun h => (by cases h)⟩

/-- No call is in progress. -/
def Threads.Idle (s : Threads Op Res α σ ι) : Prop := ∀ t ∈ s.threads, t.Over

theorem Threads.idle_iff {s : Threads Op Res α σ ι} :
    s.Idle ↔ s.threads.all (·.rest.isDone) = true := by
  simp only [Threads.Idle, List.all_eq_true, Thread.over_iff]

namespace Threads

section
variable (exec : (o : Op) → σ → Res o × σ) (prog : ι → Prog Op Res α)
  (enabled : Threads Op Res α σ ι → ι → Bool)

/-- Thread `i` executes its next operation. -/
def stepThread (s : Threads Op Res α σ ι) (i : Nat) : Option (Threads Op Res α σ ι) :=
  match s.threads[i]? with
  | some ⟨l, .op o rest⟩ =>
    some ⟨(exec o s.shared).2, s.threads.set i ⟨l, rest (exec o s.shared).1⟩⟩
  | _ => none

def next (s : Threads Op Res α σ ι) : Sched ι → Option (Threads Op Res α σ ι)
  | .call l => if enabled s l then some ⟨s.shared, s.threads ++ [⟨l, prog l⟩]⟩ else none
  | .step i => s.stepThread exec i

end

variable {exec : (o : Op) → σ → Res o × σ} {prog : ι → Prog Op Res α}
  {enabled : Threads Op Res α σ ι → ι → Bool}

/-- All that a step of the schedule can do. -/
inductive Next (exec : (o : Op) → σ → Res o × σ) (prog : ι → Prog Op Res α)
    (enabled : Threads Op Res α σ ι → ι → Bool) (s : Threads Op Res α σ ι) :
    Sched ι → Threads Op Res α σ ι → Prop where
  | call (l : ι) (may : enabled s l = true) :
    Next exec prog enabled s (.call l) ⟨s.shared, s.threads ++ [⟨l, prog l⟩]⟩
  | step (i : Nat) (l : ι) (o : Op) (rest : Res o → Prog Op Res α)
    (here : s.threads[i]? = some ⟨l, .op o rest⟩) :
    Next exec prog enabled s (.step i)
      ⟨(exec o s.shared).2, s.threads.set i ⟨l, rest (exec o s.shared).1⟩⟩

theorem next_cases {s t : Threads Op Res α σ ι} {a : Sched ι}
    (h : next exec prog enabled s a = some t) : Next exec prog enabled s a t := by
  cases a with
  | call l =>
    simp only [next] at h
    split at h
    · rename_i may
      cases h
      exact .call l may
    · cases h
  | step i =>
    simp only [next, stepThread] at h
    split at h
    · rename_i l o rest here
      cases h
      exact .step i l o rest here
    · cases h

end Threads

theorem getElem?_set_cases {l : List α} {i j : Nat} {x y : α} (h : (l.set i x)[j]? = some y) :
    (j = i ∧ y = x) ∨ (j ≠ i ∧ l[j]? = some y) := by
  by_cases e : i = j
  · subst e
    rw [List.getElem?_set] at h
    simp only [↓reduceIte] at h
    split at h
    · exact .inl ⟨rfl, (Option.some.inj h).symm⟩
    · cases h
  · rw [List.getElem?_set_ne e] at h
    exact .inr ⟨Ne.symm e, h⟩

/-- A thread of the list after the step of thread `i` is the new thread `i` or an old one
at another place. -/
theorem mem_set_cases {l : List α} {i : Nat} {x y : α} (h : y ∈ l.set i x) :
    y = x ∨ ∃ j, j ≠ i ∧ l[j]? = some y := by
  obtain ⟨j, hj⟩ := List.mem_iff_getElem?.mp h
  rcases getElem?_set_cases hj with ⟨_, e⟩ | other
  · exact .inl e
  · exact .inr ⟨j, other⟩

theorem mem_set_of_ne {l : List α} {i j : Nat} {x y : α} (hij : j ≠ i) (hj : l[j]? = some y) :
    y ∈ l.set i x :=
  List.mem_iff_getElem?.mpr ⟨j, by rw [List.getElem?_set_ne (Ne.symm hij)]; exact hj⟩

theorem mem_set_new {l : List α} {i : Nat} {x y : α} (hi : l[i]? = some y) : x ∈ l.set i x :=
  List.mem_set ((List.getElem?_eq_some_iff.mp hi).1) x

/-- What a list of threads contributes, before and after one of them has changed. -/
theorem filterMap_set_perm {τ : Type} (f : α → Option τ) {l : List α} {i : Nat} {x y : α}
    (hi : l[i]? = some y) :
    ((f y).toList ++ (l.set i x).filterMap f).Perm ((f x).toList ++ l.filterMap f) := by
  obtain ⟨lt, e⟩ := List.getElem?_eq_some_iff.mp hi
  obtain ⟨front, back, hl, _, hset⟩ := List.exists_of_set lt (l := l)
  have cons : ∀ (z : α) (rest : List α),
      (z :: rest).filterMap f = (f z).toList ++ rest.filterMap f := by
    intro z rest
    cases h : f z <;> simp [h]
  rw [hset, hl, e, List.filterMap_append, List.filterMap_append, cons, cons]
  calc
    _ ~ front.filterMap f ++ ((f y).toList ++ ((f x).toList ++ back.filterMap f)) :=
      List.perm_append_comm_assoc _ _ _
    _ ~ front.filterMap f ++ ((f x).toList ++ ((f y).toList ++ back.filterMap f)) :=
      (List.perm_append_comm_assoc _ _ _).append_left _
    _ ~ _ := List.perm_append_comm_assoc _ _ _

/-- The same for how many of them meet a predicate. -/
theorem countP_set_add (p : α → Bool) {l : List α} {i : Nat} {x y : α} (hi : l[i]? = some y) :
    (p y).toNat + (l.set i x).countP p = (p x).toNat + l.countP p := by
  obtain ⟨lt, e⟩ := List.getElem?_eq_some_iff.mp hi
  obtain ⟨front, back, hl, _, hset⟩ := List.exists_of_set lt (l := l)
  have cons : ∀ z : α, (z :: back).countP p = (p z).toNat + back.countP p := by
    intro z
    rw [List.countP_cons]
    cases p z <;> simp [Nat.add_comm]
  rw [hset, hl, e, List.countP_append, List.countP_append, cons, cons]
  omega

/-- And for a sum over them. -/
theorem sum_map_set_add (f : α → Nat) {l : List α} {i : Nat} {x y : α} (hi : l[i]? = some y) :
    f y + ((l.set i x).map f).sum = f x + (l.map f).sum := by
  obtain ⟨lt, e⟩ := List.getElem?_eq_some_iff.mp hi
  obtain ⟨front, back, hl, _, hset⟩ := List.exists_of_set lt (l := l)
  rw [hset, hl, e]
  simp only [List.map_append, List.map_cons, List.sum_append, List.sum_cons]
  omega

end Atomic
