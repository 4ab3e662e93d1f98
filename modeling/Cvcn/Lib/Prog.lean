import Mathlib.Data.List.Basic

/-!
# Programs of atomic operations

A thread is a program over a set of operations that take effect at once; between two of
its operations any other thread may run. The same program has two readings: `Prog.run`
executes it alone from its first operation to its last, and an interleaving machine
executes one operation of one thread in each step.

`Prog.Keeps` says that a program follows a protocol: in each state of the protocol only
some operations are allowed, and an operation with its answer leads to the next state.
`Prog.Ensures` is about what a program reaches when its environment answers as it likes.
-/

namespace Atomic

/-- A program is over, or performs an operation and goes on with the answer. -/
inductive Prog (Op : Type) (Res : Op → Type) (α : Type) where
  | done (a : α)
  | op (o : Op) (rest : Res o → Prog Op Res α)

variable {Op : Type} {Res : Op → Type} {α β γ σ q : Type}

namespace Prog

def bind : Prog Op Res α → (α → Prog Op Res β) → Prog Op Res β
  | .done a, f => f a
  | .op o rest, f => .op o fun r => (rest r).bind f

/-- One operation, whose answer is the result. -/
def call (o : Op) : Prog Op Res (Res o) := .op o .done

instance : Monad (Prog Op Res) where
  pure := .done
  bind := .bind

def isDone : Prog Op Res α → Bool
  | .done _ => true
  | .op _ _ => false

@[simp] theorem pure_eq (a : α) : (pure a : Prog Op Res α) = .done a := rfl

@[simp] theorem done_bind (a : α) (f : α → Prog Op Res β) : (.done a >>= f) = f a := rfl

@[simp] theorem op_bind (o : Op) (rest : Res o → Prog Op Res α) (f : α → Prog Op Res β) :
    (.op o rest >>= f) = .op o fun r => rest r >>= f := rfl

/-- Equal programs begin with the same operation … -/
theorem first_eq {o o' : Op} {rest : Res o → Prog Op Res α} {rest' : Res o' → Prog Op Res α}
    (h : op o rest = op o' rest') : o = o' := by
  injection h

/-- … and go on in the same way after each answer. -/
theorem rest_eq {o : Op} {rest rest' : Res o → Prog Op Res α} (h : op o rest = op o rest')
    (r : Res o) : rest r = rest' r := by
  injection h with _ same
  exact congrFun same r

/-- The program alone, each operation executed on the state that the one before left. -/
def run (exec : (o : Op) → σ → Res o × σ) : Prog Op Res α → σ → α × σ
  | .done a, s => (a, s)
  | .op o rest, s => (rest (exec o s).1).run exec (exec o s).2

variable {exec : (o : Op) → σ → Res o × σ}

@[simp] theorem run_done (a : α) (s : σ) : (done a : Prog Op Res α).run exec s = (a, s) := rfl

@[simp] theorem run_op (o : Op) (rest : Res o → Prog Op Res α) (s : σ) :
    (op o rest).run exec s = (rest (exec o s).1).run exec (exec o s).2 := rfl

/-- A program and then another one, on the state that the first left. -/
theorem run_bind (p : Prog Op Res α) (f : α → Prog Op Res β) (s : σ) :
    (p >>= f).run exec s = (f (p.run exec s).1).run exec (p.run exec s).2 := by
  induction p generalizing s with
  | done a => rfl
  | op o rest ih => exact ih _ _

/-- A program that runs on a state with more in it, run on a part of that state: the operations
answer the same and agree on the part. -/
theorem run_project {τ : Type} {exec' : (o : Op) → τ → Res o × τ} (part : τ → σ)
    (agree : ∀ o t, exec o (part t) = ((exec' o t).1, part (exec' o t).2)) (p : Prog Op Res α)
    (t : τ) : p.run exec (part t) = ((p.run exec' t).1, part (p.run exec' t).2) := by
  induction p generalizing t with
  | done a => rfl
  | op o rest ih =>
    rw [run_op, agree]
    exact ih _ _

/-- The operation that the program is about to perform. -/
def first : Prog Op Res α → Option Op
  | .done _ => none
  | .op o _ => some o

/-- The program after its first operation, and the state that it left. -/
def next (exec : (o : Op) → σ → Res o × σ) : Prog Op Res α → σ → Option (Prog Op Res α × σ)
  | .done _, _ => none
  | .op o rest, s => some (rest (exec o s).1, (exec o s).2)

theorem next_of_exec {o : Op} {rest : Res o → Prog Op Res α} {s t : σ} {r : Res o}
    (h : exec o s = (r, t)) : (op o rest).next exec s = some (rest r, t) := by
  rw [next, h]

/-- What each operation keeps, the whole program keeps. -/
theorem run_invariant {I : σ → Prop} (keep : ∀ o s, I s → I (exec o s).2) (p : Prog Op Res α)
    {s : σ} (hs : I s) : I (p.run exec s).2 := by
  induction p generalizing s with
  | done a => exact hs
  | op o rest ih => exact ih _ (keep o s hs)

/-- Whatever they answer, the operations that the program performs are all of a kind. -/
def Only (ok : Op → Prop) : Prog Op Res α → Prop
  | .done _ => True
  | .op o rest => ok o ∧ ∀ r, (rest r).Only ok

variable {ok : Op → Prop}

@[simp] theorem only_done (a : α) : (done a : Prog Op Res α).Only ok := trivial

@[simp] theorem only_op {o : Op} {rest : Res o → Prog Op Res α} :
    (op o rest).Only ok ↔ ok o ∧ ∀ r, (rest r).Only ok := Iff.rfl

theorem Only.mono {ok' : Op → Prop} (weaker : ∀ o, ok o → ok' o) {p : Prog Op Res α}
    (h : p.Only ok) : p.Only ok' := by
  induction p with
  | done a => trivial
  | op o _ ih => exact ⟨weaker o h.1, fun r => ih r (h.2 r)⟩

theorem Only.bind {p : Prog Op Res α} {f : α → Prog Op Res β} (h : p.Only ok)
    (rest : ∀ a, (f a).Only ok) : (p >>= f).Only ok := by
  induction p with
  | done a => exact rest a
  | op o _ ih => exact ⟨h.1, fun r => ih r (h.2 r)⟩

theorem Only.call_bind {o : Op} {f : Res o → Prog Op Res β} (h : ok o)
    (rest : ∀ r, (f r).Only ok) : (call o >>= f).Only ok := ⟨h, rest⟩

theorem Only.first {p : Prog Op Res α} (h : p.Only ok) {o : Op} (hf : p.first = some o) :
    ok o := by
  cases p with
  | done a => cases hf
  | op _ rest =>
    cases hf
    exact h.1

theorem Only.next {p p' : Prog Op Res α} (h : p.Only ok) {s s' : σ}
    (hn : p.next exec s = some (p', s')) : p'.Only ok := by
  cases p with
  | done a => cases hn
  | op o rest =>
    cases hn
    exact h.2 _

/-- What each operation of the kind keeps, the whole program keeps. -/
theorem Only.run {I : σ → Prop} (keep : ∀ o s, ok o → I s → I (exec o s).2)
    {p : Prog Op Res α} (h : p.Only ok) {s : σ} (hs : I s) : I (p.run exec s).2 := by
  induction p generalizing s with
  | done a => exact hs
  | op o rest ih => exact ih _ (h.2 _) (keep o s h.1 hs)

section Protocol

/-- From the protocol state `s` the program performs allowed operations only, whatever
they answer, and ends with a result and a protocol state that `Q` accepts. -/
def Keeps (ok : q → Op → Prop) (next : q → (o : Op) → Res o → q) :
    Prog Op Res α → q → (α → q → Prop) → Prop
  | .done a, s, Q => Q a s
  | .op o rest, s, Q => ok s o ∧ ∀ r, (rest r).Keeps ok next (next s o r) Q

variable {ok : q → Op → Prop} {next : q → (o : Op) → Res o → q}

@[simp] theorem keeps_done {a : α} {s : q} {Q : α → q → Prop} :
    (done a : Prog Op Res α).Keeps ok next s Q ↔ Q a s := Iff.rfl

@[simp] theorem keeps_op {o : Op} {rest : Res o → Prog Op Res α} {s : q} {Q : α → q → Prop} :
    (op o rest).Keeps ok next s Q ↔ ok s o ∧ ∀ r, (rest r).Keeps ok next (next s o r) Q := Iff.rfl

theorem Keeps.mono {p : Prog Op Res α} {s : q} {Q Q' : α → q → Prop}
    (h : p.Keeps ok next s Q) (imp : ∀ a t, Q a t → Q' a t) : p.Keeps ok next s Q' := by
  induction p generalizing s with
  | done a => exact imp a s h
  | op o rest ih => exact ⟨h.1, fun r => ih r (h.2 r)⟩

theorem Keeps.bind {p : Prog Op Res α} {f : α → Prog Op Res β} {s : q} {Q : β → q → Prop}
    (h : p.Keeps ok next s fun a t => (f a).Keeps ok next t Q) :
    (p >>= f).Keeps ok next s Q := by
  induction p generalizing s with
  | done a => exact h
  | op o rest ih => exact ⟨h.1, fun r => ih r (h.2 r)⟩

/-- A program that follows one protocol follows another that allows at least as much. -/
theorem Keeps.simulate {q' : Type} {ok' : q' → Op → Prop} {next' : q' → (o : Op) → Res o → q'}
    (R : q → q' → Prop)
    (allow : ∀ s s' o, R s s' → ok s o → ok' s' o ∧ ∀ r, R (next s o r) (next' s' o r))
    {p : Prog Op Res α} {s : q} {s' : q'} {Q : α → q → Prop}
    (h : p.Keeps ok next s Q) (hr : R s s') :
    p.Keeps ok' next' s' fun a t' => ∃ t, R t t' ∧ Q a t := by
  induction p generalizing s s' with
  | done a => exact ⟨s, hr, h⟩
  | op o rest ih =>
    obtain ⟨ok', related⟩ := allow s s' o hr h.1
    exact ⟨ok', fun r => ih r (h.2 r) (related r)⟩

/-- A program that follows the protocol keeps what its allowed operations keep. -/
theorem Keeps.run {exec : (o : Op) → σ → Res o × σ} {I : q → σ → Prop}
    (keep : ∀ s o t, ok s o → I s t → I (next s o (exec o t).1) (exec o t).2)
    {p : Prog Op Res α} {s : q} {Q : α → q → Prop} {t : σ} (h : p.Keeps ok next s Q) (hs : I s t) :
    ∃ s', Q (p.run exec t).1 s' ∧ I s' (p.run exec t).2 := by
  induction p generalizing s t with
  | done a => exact ⟨s, h, hs⟩
  | op o rest ih => exact ih _ (h.2 _) (keep s o t h.1 hs)

end Protocol

section Environment

variable {may : (o : Op) → σ → Res o → σ → Prop}

/-- Whatever the operations answer and do to the state, as far as `may` allows it, the program
ends with a result and a state that `Q` accepts. -/
def Ensures (may : (o : Op) → σ → Res o → σ → Prop) :
    Prog Op Res α → σ → (α → σ → Prop) → Prop
  | .done a, s, Q => Q a s
  | .op o rest, s, Q => ∀ r t, may o s r t → (rest r).Ensures may t Q

@[simp] theorem ensures_done {a : α} {s : σ} {Q : α → σ → Prop} :
    (done a : Prog Op Res α).Ensures may s Q ↔ Q a s := Iff.rfl

@[simp] theorem ensures_op {o : Op} {rest : Res o → Prog Op Res α} {s : σ} {Q : α → σ → Prop} :
    (op o rest).Ensures may s Q ↔ ∀ r t, may o s r t → (rest r).Ensures may t Q := Iff.rfl

theorem Ensures.mono {p : Prog Op Res α} {s : σ} {Q Q' : α → σ → Prop} (h : p.Ensures may s Q)
    (imp : ∀ a t, Q a t → Q' a t) : p.Ensures may s Q' := by
  induction p generalizing s with
  | done a => exact imp a s h
  | op o rest ih => exact fun r t ht => ih r (h r t ht)

/-- The program alone is one of these runs, if it follows a protocol whose operations are
executed as `may` allows. -/
theorem Ensures.run {exec : (o : Op) → σ → Res o × σ} {I : q → σ → Prop} {ok : q → Op → Prop}
    {next : q → (o : Op) → Res o → q} {R : α → q → Prop}
    (allows : ∀ a o s, ok a o → I a s → may o s (exec o s).1 (exec o s).2 ∧
      I (next a o (exec o s).1) (exec o s).2)
    {p : Prog Op Res α} {a : q} {s : σ} {Q : α → σ → Prop} (h : p.Ensures may s Q)
    (keeps : p.Keeps ok next a R) (hs : I a s) : Q (p.run exec s).1 (p.run exec s).2 := by
  induction p generalizing a s with
  | done _ => exact h
  | op o rest ih =>
    obtain ⟨allowed, kept⟩ := allows a o s keeps.1 hs
    exact ih _ (h _ _ allowed) (keeps.2 _) kept

end Environment

end Prog

end Atomic
