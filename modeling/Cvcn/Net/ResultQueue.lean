import Cvcn.Lib.Threads
import Cvcn.Net.ClientSession

/-!
# The result queue and its eventfd

`push` and `drain` as programs of half-steps: each locked section is one atomic operation
and each access to the eventfd is another. Any number of workers push; the main thread
drains, one drain at a time. epoll watches the eventfd level-triggered, so the main thread
wakes up as long as the counter is positive.

`drain` takes the commands first and resets the counter afterwards. A command pushed and
announced in between stays behind with the counter at zero, and that is the only way to
lose a wakeup.
-/

namespace Cvcn

open Atomic Machine

structure ResultQueue where
  queue : List SessionCommand
  counter : Nat
  deriving DecidableEq, Repr

namespace ResultQueue

inductive QueueOp where
  | append (cmd : SessionCommand)
  | writeEventFd
  | swap
  | readEventFd
  deriving DecidableEq, Repr

@[reducible] def QueueOp.Res : QueueOp → Type
  | swap => List SessionCommand
  | _ => Unit

/-- A write that would take the counter to `2 ^ 64 - 1` fails with `EAGAIN`, which `push`
ignores. -/
def exec : (o : QueueOp) → ResultQueue → o.Res × ResultQueue
  | .append cmd, q => ((), { q with queue := q.queue ++ [cmd] })
  | .writeEventFd, q => ((), { q with counter := min (q.counter + 1) 0xFFFFFFFFFFFFFFFE })
  | .swap, q => (q.queue, { q with queue := [] })
  | .readEventFd, q => ((), { q with counter := 0 })

abbrev Script := Prog QueueOp QueueOp.Res (List SessionCommand)

inductive Call where
  | push (cmd : SessionCommand)
  | drain
  deriving DecidableEq, Repr

/-- The second half of `push`: the main thread is told. -/
def announce : Script :=
  .op .writeEventFd fun _ => .done []

def push (cmd : SessionCommand) : Script :=
  .op (.append cmd) fun _ => announce

/-- The second half of `drain`, with the commands taken. -/
def reset (out : List SessionCommand) : Script :=
  .op .readEventFd fun _ => .done out

def drain : Script := .op .swap reset

def Call.prog : Call → Script
  | push cmd => ResultQueue.push cmd
  | drain => ResultQueue.drain

abbrev CallThread := Thread QueueOp QueueOp.Res (List SessionCommand) Call

abbrev State := Threads QueueOp QueueOp.Res (List SessionCommand) ResultQueue Call

/-- The main thread drains again only when its last drain is over. -/
def enabled (s : State) : Call → Bool
  | .push _ => true
  | .drain => s.threads.all fun t => t.label != .drain || t.rest.isDone

def start : State := ⟨⟨[], 0⟩, []⟩

def step : State → Sched Call → Option State := Threads.next exec Call.prog enabled

/-- epoll reports the eventfd. -/
def Readable (s : State) : Prop := 0 < s.shared.counter

/-- With no push and no drain in progress, commands in the queue keep the eventfd readable. -/
def Announced (s : State) : Prop := s.Idle → s.shared.queue ≠ [] → Readable s

/-- A push has been called and is not over. -/
def Pushing (s : State) : Prop :=
  ∃ t ∈ s.threads, (∃ cmd, t.label = .push cmd) ∧ ¬ t.Over

/-- The step resets the counter. -/
def Resets (s : State) (a : Sched Call) : Prop :=
  ∃ i l rest, a = .step i ∧ s.threads[i]? = some ⟨l, .op .readEventFd rest⟩

/-- The counter is reset only while the queue is empty or a push has still to be over. -/
def ResetSafely (s : State) (a : Sched Call) : Prop :=
  Resets s a → s.shared.queue = [] ∨ Pushing s

instance (s : State) (a : Sched Call) : Decidable (Resets s a) :=
  match a with
  | .call _ => isFalse fun ⟨_, _, _, e, _⟩ => by cases e
  | .step i =>
    match here : s.threads[i]? with
    | some ⟨l, .op .readEventFd rest⟩ => isTrue ⟨i, l, rest, rfl, here⟩
    | some ⟨_, .op (.append _) _⟩ | some ⟨_, .op .swap _⟩ | some ⟨_, .op .writeEventFd _⟩
    | some ⟨_, .done _⟩ | none => isFalse fun ⟨_, _, _, e, resets⟩ => by
      cases e
      cases here.symm.trans resets

instance (s : State) : Decidable (Pushing s) :=
  decidable_of_iff (s.threads.any fun t =>
      (match t.label with
        | .push _ => true
        | .drain => false) && !t.rest.isDone) (by
    simp only [List.any_eq_true, Bool.and_eq_true, Bool.not_eq_true', Pushing]
    refine exists_congr fun t => and_congr_right fun _ => and_congr ?_ ?_
    · cases t.label <;> simp
    · rw [Thread.over_iff, Bool.not_eq_true])

instance (s : State) (a : Sched Call) : Decidable (ResetSafely s a) :=
  inferInstanceAs (Decidable (_ → _))

/-- The points of the two programs. -/
def AtPoint (t : CallThread) : Prop :=
  match t.label with
  | .push cmd => t.rest = push cmd ∨ t.rest = announce ∨ t.Over
  | .drain => t.rest = drain ∨ (∃ out, t.rest = reset out) ∨ t.Over

/-- What keeps the eventfd readable in the end: it is, or a push has still to be over. -/
structure Inv (s : State) : Prop where
  points : ∀ t ∈ s.threads, AtPoint t
  oneDrain : ∀ (i j : Nat) (t u : CallThread), s.threads[i]? = some t → s.threads[j]? = some u →
    t.label = .drain → u.label = .drain → ¬ t.Over → ¬ u.Over → i = j
  told : s.shared.queue ≠ [] → Readable s ∨ Pushing s

theorem op_not_over {l : Call} {o : QueueOp} {rest : o.Res → Script} :
    ¬ (⟨l, .op o rest⟩ : CallThread).Over := by
  rintro ⟨a, h⟩
  cases h

theorem Inv.announced {s : State} (h : Inv s) : Announced s := by
  intro idle nonempty
  rcases h.told nonempty with readable | ⟨t, ht, _, running⟩
  · exact readable
  · exact absurd (idle t ht) running

/-- A call is at its first point, and a second drain does not start. -/
theorem inv_call {s : State} {l : Call} (h : Inv s) (hl : enabled s l = true) :
    Inv ⟨s.shared, s.threads ++ [⟨l, l.prog⟩]⟩ := by
  constructor
  · intro t ht
    cases List.mem_append.mp ht with
    | inl old => exact h.points t old
    | inr new =>
      obtain rfl := List.mem_singleton.mp new
      cases l with
      | push cmd => exact .inl rfl
      | drain => exact .inl rfl
  · have fresh : l = .drain → ∀ (k : Nat) (v : CallThread), s.threads[k]? = some v →
        v.label = .drain → v.Over := by
      rintro rfl k v hv hd
      have := List.all_eq_true.mp hl v (List.mem_of_getElem? hv)
      simpa [hd, Thread.over_iff] using this
    intro i j t u hi hj ht hu nt nu
    rw [List.getElem?_append] at hi hj
    split at hi <;> split at hj
    · exact h.oneDrain i j t u hi hj ht hu nt nu
    · have e := List.mem_singleton.mp (List.mem_of_getElem? hj)
      exact absurd (fresh (by rw [e] at hu; exact hu) i t hi ht) nt
    · have e := List.mem_singleton.mp (List.mem_of_getElem? hi)
      exact absurd (fresh (by rw [e] at ht; exact ht) j u hj hu) nu
    · have hi' := (List.getElem?_eq_some_iff.mp hi).1
      have hj' := (List.getElem?_eq_some_iff.mp hj).1
      simp only [List.length_singleton] at hi' hj'
      omega
  · intro nonempty
    rcases h.told nonempty with readable | ⟨t, ht, running⟩
    · exact .inl readable
    · exact .inr ⟨t, List.mem_append_left _ ht, running⟩

/-- The step of a thread leaves the points of the others and the one drain as they are. -/
theorem inv_step {s : State} {q : ResultQueue} {i : Nat} {l : Call}
    {p p' : Script} (h : Inv s)
    (hi : s.threads[i]? = some ⟨l, p⟩) (running : ¬ (⟨l, p⟩ : CallThread).Over)
    (point : AtPoint ⟨l, p'⟩)
    (told : q.queue ≠ [] → 0 < q.counter ∨ Pushing ⟨q, s.threads.set i ⟨l, p'⟩⟩) :
    Inv ⟨q, s.threads.set i ⟨l, p'⟩⟩ := by
  refine ⟨?_, ?_, told⟩
  · intro t ht
    rcases mem_set_cases ht with rfl | ⟨j, _, hj⟩
    · exact point
    · exact h.points t (List.mem_of_getElem? hj)
  · -- a drain that is not over after the step was not over before it
    have back : ∀ (k : Nat) (v : CallThread), (s.threads.set i ⟨l, p'⟩)[k]? = some v →
        v.label = .drain → ¬ v.Over →
        ∃ w : CallThread, s.threads[k]? = some w ∧ w.label = .drain ∧ ¬ w.Over := by
      intro k v hv hd nv
      by_cases e : i = k
      · subst e
        rw [List.getElem?_set_self (List.getElem?_eq_some_iff.mp hi).1] at hv
        obtain rfl := Option.some.inj hv
        exact ⟨_, hi, hd, running⟩
      · rw [List.getElem?_set_ne e] at hv
        exact ⟨v, hv, hd, nv⟩
    intro j k t u hj hk ht hu nt nu
    obtain ⟨t', hj', ht', nt'⟩ := back j t hj ht nt
    obtain ⟨u', hk', hu', nu'⟩ := back k u hk hu nu
    exact h.oneDrain j k t' u' hj' hk' ht' hu' nt' nu'

/-- A push in progress other than thread `i` is still in progress when thread `i` has moved. -/
theorem pushing_set {s : State} {q : ResultQueue} {i : Nat}
    {t u : CallThread}
    (hi : s.threads[i]? = some t) (drains : t.label = .drain) (h : Pushing s) :
    Pushing ⟨q, s.threads.set i u⟩ := by
  obtain ⟨v, hv, ⟨cmd, hl⟩, running⟩ := h
  obtain ⟨j, hj⟩ := List.mem_iff_getElem?.mp hv
  refine ⟨v, mem_set_of_ne ?_ hj, ⟨cmd, hl⟩, running⟩
  rintro rfl
  obtain rfl := Option.some.inj (hi.symm.trans hj)
  rw [drains] at hl
  cases hl

theorem step_inv {s t : State} {a : Sched Call} (h : Inv s) (ha : ResetSafely s a)
    (hs : step s a = some t) : Inv t := by
  cases Threads.next_cases hs with
  | call l may => exact inv_call h may
  | step i l o rest hi =>
    have here := h.points _ (List.mem_of_getElem? hi)
    cases l with
    | push cmd =>
      rcases here with e | e | e
      · -- the command is in the queue, the write still to come
        cases e
        refine inv_step h hi op_not_over (.inr (.inl rfl)) fun _ => .inr ?_
        exact ⟨_, mem_set_new hi, ⟨cmd, rfl⟩, op_not_over⟩
      · cases e
        refine inv_step h hi op_not_over (.inr (.inr ⟨_, rfl⟩)) fun _ => .inl ?_
        simp only [exec]
        omega
      · exact absurd e op_not_over
    | drain =>
      rcases here with e | ⟨out, e⟩ | e
      · cases e
        exact inv_step h hi op_not_over (.inr (.inl ⟨_, rfl⟩)) fun nonempty => absurd rfl nonempty
      · cases e
        refine inv_step h hi op_not_over (.inr (.inr ⟨_, rfl⟩)) fun nonempty => .inr ?_
        cases ha ⟨i, _, _, rfl, hi⟩ with
        | inl empty => exact absurd empty nonempty
        | inr pushing => exact pushing_set hi rfl pushing
      · exact absurd e op_not_over

/-- A reset outside the condition is the end of the only call in progress, and the queue it
leaves is not announced. -/
theorem step_breaks {s t : State} {a : Sched Call} (h : Inv s) (ha : ¬ ResetSafely s a)
    (hs : step s a = some t) : ¬ Announced t := by
  simp only [ResetSafely, Classical.not_imp, not_or] at ha
  obtain ⟨⟨i, l, rest, rfl, hi⟩, nonempty, quiet⟩ := ha
  cases Threads.next_cases hs with
  | step _ _ _ _ hj =>
    cases hi.symm.trans hj
    have here := h.points _ (List.mem_of_getElem? hi)
    cases l with
    | push cmd => exact absurd ⟨_, List.mem_of_getElem? hi, ⟨cmd, rfl⟩, op_not_over⟩ quiet
    | drain =>
      rcases here with e | ⟨out, e⟩ | e
      · cases e
      · cases e
        intro announced
        refine absurd (announced ?_ nonempty) (Nat.lt_irrefl 0)
        intro u hu
        rcases mem_set_cases hu with rfl | ⟨k, hk, huk⟩
        · exact ⟨out, rfl⟩
        · by_contra running
          cases hl : u.label with
          | push cmd => exact quiet ⟨u, List.mem_of_getElem? huk, ⟨cmd, hl⟩, running⟩
          | drain => exact hk (h.oneDrain k i u _ huk hi hl rfl running op_not_over)
      · exact absurd e op_not_over

theorem inv_start : Inv start where
  points := by simp [start]
  oneDrain := by simp [start]
  told := by simp [start]

/-- **No lost wakeup, exactly when.** In every state of a run in which no push and no drain
is in progress the commands in the queue are announced, if and only if the counter is reset
only while the queue is empty or a push has still to be over. -/
theorem no_lost_wakeup_iff (as : List (Sched Call)) (s : State)
    (run : Machine.exec step start as = some s) :
    Throughout step Announced start as ↔ Along step ResetSafely start as :=
  throughout_iff_along (fun _ => Inv.announced) (fun _ _ _ => step_inv)
    (fun _ _ _ => step_breaks) inv_start run

/-- A first command is pushed, and while the main thread drains it a second one. -/
def crossing : List (Sched Call) :=
  [.call (.push ⟨.taskDone, 5, []⟩), .step 0, .step 0, .call .drain, .step 1,
    .call (.push ⟨.taskDone, 6, []⟩), .step 2, .step 2, .step 1]

/-- In the crossing run the drain resets what the second push has just announced. -/
theorem announcement_lost :
    ∃ s, Machine.exec step start crossing = some s ∧ s.Idle ∧
      s.shared.queue = [⟨.taskDone, 6, []⟩] ∧ ¬ Readable s := by
  exact ⟨_, rfl, Threads.idle_iff.mpr rfl, rfl, Nat.lt_irrefl 0⟩

/-- The drain of the first command alone, with the second pushed after it. -/
theorem no_lost_wakeup_in_order :
    Throughout step Announced start
      [.call (.push ⟨.taskDone, 5, []⟩), .step 0, .step 0, .call .drain, .step 1, .step 1,
        .call (.push ⟨.taskDone, 6, []⟩), .step 2, .step 2] :=
  (no_lost_wakeup_iff _ _ rfl).mpr (by decide +kernel)

end ResultQueue
end Cvcn
