import Mathlib.Algebra.BigOperators.Group.Finset.Basic
import Mathlib.Algebra.Order.BigOperators.Group.Finset
import Mathlib.Tactic.Abel
import Cvcn.Lib.Termination
import Cvcn.Net.Batch

/-!
# The server comes to rest

Left alone, the server stops working: of the steps of the main thread and of the workers, and of
the reports of epoll, only finitely many follow each other until something happens outside. There
is no bound on them that could be told beforehand, as what a task does depends on what is in the
database meanwhile. What goes down is a rank of five parts, from connections not yet accepted to
the entries of epoll's list, each of which makes up for what a step adds to the later ones.
-/

namespace Cvcn

open Atomic Machine Readiness Relation

/-! ## What the workers have before them -/

/-- A task that waits, what is left of one that runs, and one that is only to be counted out. -/
inductive Work where
  | queued
  | running (rest : ServerProg Unit)
  | finishing

namespace Work

/-- What a step of a worker leaves of a task. -/
inductive Less : Work → Work → Prop where
  | begins (rest : ServerProg Unit) : Less (.running rest) .queued
  | executes {rest rest' : ServerProg Unit} (left : rest'.Left rest) :
    Less (.running rest') (.running rest)
  | ends (rest : ServerProg Unit) : Less .finishing (.running rest)

theorem less_wf : WellFounded Less := by
  have finishing : Acc Less .finishing := ⟨_, fun _ less => by cases less⟩
  have running (rest : ServerProg Unit) : Acc Less (.running rest) := by
    induction rest using Prog.left_wf.induction with
    | _ rest ih =>
      refine ⟨_, fun w less => ?_⟩
      cases less with
      | executes left => exact ih _ left
      | ends => exact finishing
  refine ⟨fun w => ?_⟩
  cases w with
  | finishing => exact finishing
  | running rest => exact running rest
  | queued =>
    refine ⟨_, fun w less => ?_⟩
    cases less with
    | begins rest => exact running rest

end Work

def Worker.work : Worker Running → Option Work
  | .waiting | .exited => none
  | .running r => some (.running r.rest)
  | .finishing => some .finishing

/-- All that the pool has before it. -/
def ThreadPool.work (p : ThreadPool Job Running) : Multiset Work :=
  Multiset.replicate p.tasks.length Work.queued + Multiset.ofList (p.workers.filterMap Worker.work)

namespace Backend

variable {b b' : Backend} {i : Nat}

/-- What the workers have before them, but for the one whose state changes. -/
theorem work_set {workers : List (Worker Running)} {w : Worker Running} (w' : Worker Running)
    (here : workers[i]? = some w) :
    (w.work.toList : Multiset Work) + ↑((workers.set i w').filterMap Worker.work) =
      ↑w'.work.toList + ↑(workers.filterMap Worker.work) := by
  rw [Multiset.coe_add, Multiset.coe_add, Multiset.coe_eq_coe]
  exact filterMap_set_perm Worker.work here

/-- A worker's step leaves less of one task, and the others as they are. -/
theorem worker_work (running : b.pool.stopping = false) (work : b.worker i = some b') :
    CutExpand Work.Less b'.pool.work b.pool.work := by
  cases worker_cases work with
  | begins job tasks waiting head =>
    refine ⟨{.running job.begin_.rest}, .queued, ?_, ?_⟩
    · intro w here
      rw [Multiset.mem_singleton.mp here]
      exact .begins _
    · have others := work_set (.running job.begin_) waiting
      simp only [Worker.work, Option.toList_none, Option.toList_some, Multiset.coe_nil, zero_add,
        Multiset.coe_singleton] at others
      simp only [ThreadPool.work, ThreadPool.setWorker, head, List.length_cons,
        Multiset.replicate_succ, others]
      rw [← Multiset.singleton_add]
      abel
  | exits waiting empty stopping => cases running.symm.trans stopping
  | executes job o rest here =>
    refine ⟨{.running (rest (b.shared.exec o).1)}, .running (.op o rest), ?_, ?_⟩
    · intro w here
      rw [Multiset.mem_singleton.mp here]
      exact .executes (.op o rest _)
    · have others := work_set (.running ⟨job, rest (b.shared.exec o).1⟩) here
      simp only [Worker.work, Option.toList_some, Multiset.coe_singleton] at others
      simp only [ThreadPool.work, ThreadPool.setWorker]
      rw [add_assoc, add_comm _ {Work.running (.op o rest)}, others]
      abel
  | ends job here =>
    refine ⟨{.finishing}, .running (.done ()), ?_, ?_⟩
    · intro w here
      rw [Multiset.mem_singleton.mp here]
      exact .ends _
    · have others := work_set .finishing here
      simp only [Worker.work, Option.toList_some, Multiset.coe_singleton] at others
      simp only [ThreadPool.work, ThreadPool.setWorker]
      rw [add_assoc, add_comm _ {Work.running (.done ())}, others]
      abel
  | rests here =>
    refine ⟨0, .finishing, fun w none => absurd none (Multiset.notMem_zero w), ?_⟩
    have others := work_set .waiting here
    simp only [Worker.work, Option.toList_some, Option.toList_none, Multiset.coe_nil, zero_add,
      Multiset.coe_singleton] at others
    simp only [ThreadPool.work, ThreadPool.finish, ThreadPool.setWorker]
    rw [add_zero, add_assoc, add_comm _ ({.finishing} : Multiset Work), others]

end Backend

/-! ## The rank of a state -/

structure Rank where
  connections : Nat
  unread : Nat
  work : Multiset Work
  wakes : Nat
  items : Nat

namespace Rank

/-- The first part that changes goes down. -/
inductive Less (r' r : Rank) : Prop where
  | connections (less : r'.connections < r.connections)
  | unread (connections : r'.connections ≤ r.connections) (less : r'.unread < r.unread)
  | work (connections : r'.connections ≤ r.connections) (unread : r'.unread ≤ r.unread)
    (less : CutExpand Work.Less r'.work r.work)
  | wakes (connections : r'.connections ≤ r.connections) (unread : r'.unread ≤ r.unread)
    (work : r'.work = r.work) (less : r'.wakes < r.wakes)
  | items (connections : r'.connections ≤ r.connections) (unread : r'.unread ≤ r.unread)
    (work : r'.work = r.work) (wakes : r'.wakes ≤ r.wakes) (less : r'.items < r.items)

section

variable {α : Type} {r : α → α → Prop} {k k' : Nat} {a a' : α}

theorem lex_of_le (le : k' ≤ k) (less : r a' a) : Prod.Lex (· < ·) r (k', a') (k, a) := by
  rcases Nat.lt_or_eq_of_le le with down | rfl
  · exact .left _ _ down
  · exact .right _ less

end

theorem less_wf : WellFounded Less := by
  have lex := (Nat.lt_wfRel.wf.prod_lex (Nat.lt_wfRel.wf.prod_lex
    ((Work.less_wf.cutExpand).prod_lex (Nat.lt_wfRel.wf.prod_lex Nat.lt_wfRel.wf))))
  refine Subrelation.wf ?_ (InvImage.wf
    (fun r : Rank => (r.connections, r.unread, r.work, r.wakes, r.items)) lex)
  intro r' r less
  cases less with
  | connections less => exact .left _ _ less
  | unread connections less => exact lex_of_le connections (.left _ _ less)
  | work connections unread less =>
    exact lex_of_le connections (lex_of_le unread (.left _ _ less))
  | wakes connections unread work less =>
    refine lex_of_le connections (lex_of_le unread ?_)
    rw [work]
    exact .right _ (.left _ _ less)
  | items connections unread work wakes less =>
    refine lex_of_le connections (lex_of_le unread ?_)
    rw [work]
    exact .right _ (lex_of_le wakes less)

end Rank

/-- An event may leave its `EPOLLOUT`. -/
def Item.weight : Item → Nat
  | .event _ => 2
  | .writable _ => 1

theorem leftBy_weight (e : EpollEvent) (batch : List Item) :
    ((Server.leftBy e batch).map Item.weight).sum <
      ((Item.event e :: batch).map Item.weight).sum := by
  unfold Server.leftBy
  split <;> simp [Item.weight]

namespace Host

variable {lfd efd fd : Fd} {x : SessionId} {h h' : Host} {m : Moment} {o : Observed}

/-! ## The rank of the server -/

/-- The bytes that the session has not read; a closed one reads no more. -/
def unreadOf (h : Host) (x : SessionId) : Nat :=
  if (h.server.obj x).closed then 0 else (h.sockets (h.server.fdOf x)).unread.length

/-- How far the main thread is from having read the eventfd. -/
def wake (efd : Fd) (h : Host) : Nat :=
  if h.resetting then 1 else if h.reported efd then 2 else if h.notified then 3 else 0

theorem wake_le (h : Host) (efd : Fd) : h.wake efd ≤ 3 := by
  unfold wake
  repeat' split
  all_goals omega

/-- A number on epoll's list may become an event of the batch, and a command may put one there. -/
def rank (lfd efd : Fd) (h : Host) : Rank where
  connections := 2 * h.backlog.length - (h.reported lfd).toNat
  unread := ∑ x ∈ Finset.range h.server.shared.next, h.unreadOf x
  work := h.server.pool.work
  wakes := 4 * h.unwritten + h.wake efd
  items := 4 * h.server.commands.length + 3 * h.ready.length +
    (h.server.batch.map Item.weight).sum

/-- No open session is new, and none has more to read. -/
def NoMore (h h' : Host) : Prop :=
  h'.server.shared.next = h.server.shared.next ∧
  ∀ fd x, h'.server.Holds fd x → h.server.Holds fd x ∧
    (h'.sockets fd).unread.length ≤ (h.sockets fd).unread.length

theorem NoMore.unreadOf_le (no : h.NoMore h') (held : Server.Held lfd efd h.unwatched h.server)
    (held' : Server.Held lfd efd h'.unwatched h'.server) :
    ∀ x ∈ Finset.range h.server.shared.next, h'.unreadOf x ≤ h.unreadOf x := by
  obtain ⟨next, fewer⟩ := no
  intro x known
  rw [Finset.mem_range, ← next] at known
  unfold unreadOf
  split
  · exact Nat.zero_le _
  · rename_i opened
    have opened : (h'.server.obj x).closed = false := Bool.not_eq_true _ ▸ opened
    have here := held'.mapped x known opened
    obtain ⟨holds, less⟩ := fewer _ x ⟨here, opened⟩
    rw [holds.opened, (held.numbered _ x holds.here).2.1]
    exact less

theorem NoMore.unread_le (no : h.NoMore h') (held : Server.Held lfd efd h.unwatched h.server)
    (held' : Server.Held lfd efd h'.unwatched h'.server) :
    (h'.rank lfd efd).unread ≤ (h.rank lfd efd).unread := by
  simp only [rank, no.1]
  exact Finset.sum_le_sum (no.unreadOf_le held held')

/-- A session that has read all it had, or has been closed, makes the sum smaller. -/
theorem NoMore.unread_lt (no : h.NoMore h') (held : Server.Held lfd efd h.unwatched h.server)
    (held' : Server.Held lfd efd h'.unwatched h'.server) (holds : h.server.Holds fd x)
    (some : (h.sockets fd).unread ≠ [])
    (read : h'.server.Holds fd x → (h'.sockets fd).unread = []) :
    (h'.rank lfd efd).unread < (h.rank lfd efd).unread := by
  have known : x < h.server.shared.next := (held.numbered fd x holds.here).1
  have le := no.unreadOf_le held held'
  obtain ⟨next, fewer⟩ := no
  simp only [rank, next]
  refine Finset.sum_lt_sum le ⟨x, Finset.mem_range.mpr known, ?_⟩
  have positive : 0 < h.unreadOf x := by
    rw [unreadOf, holds.opened, (held.numbered fd x holds.here).2.1]
    exact List.length_pos_iff.mpr some
  have zero : h'.unreadOf x = 0 := by
    unfold unreadOf
    split
    · rfl
    · rename_i opened
      have opened : (h'.server.obj x).closed = false := Bool.not_eq_true _ ▸ opened
      have holds' : h'.server.Holds (h'.server.fdOf x) x :=
        ⟨held'.mapped x (next ▸ known) opened, opened⟩
      have same := held.entry_unique holds.here (fewer _ x holds').1.here
      rw [same] at holds' ⊢
      rw [read holds', List.length_nil]
  rw [zero]
  exact positive

/-- The steps of the program and of epoll, while nobody asks for a shutdown, `accept` succeeds
and `epoll_wait` has something to report. -/
def internal (h : Host) : HostAction → Bool
  | .outside _ => false
  | .epollWait => !(harvest h.poll MAX_EVENTS h.ready).1.isEmpty
  | .main m => !m.leaves && (h.backlog.isEmpty || m.accepted.isSome)
  | .worker _ | .write => true

/-- What holds while the event loop runs. -/
structure Active (lfd efd : Fd) (h : Host) : Prop extends HostInv lfd efd h where
  loop : h.server.phase = .eventLoop
  planned : h.Planned lfd efd
  marked : h.Marked
  staffed : h.server.Staffed

/-- Numbers leave the list; those of `main` stay on it, but their reports are in the batch. -/
theorem epollWait_lowers (active : h.Active lfd efd)
    (reports : (harvest h.poll MAX_EVENTS h.ready).1 ≠ []) (hs : h.epollWait = some h') :
    (h'.rank lfd efd).Less (h.rank lfd efd) := by
  simp only [epollWait] at hs
  split at hs
  · cases hs
  · rename_i idle
    simp only [Bool.not_eq_true] at idle
    obtain ⟨o, watched, rfl⟩ := Option.map_eq_some_iff.mp hs
    obtain ⟨t, moved, rfl⟩ := Option.map_eq_some_iff.mp watched
    simp only [Server.step, Server.epollWait] at moved
    split at moved
    · rename_i waits
      simp only [Bool.and_eq_true, beq_iff_eq] at waits
      have empty : h.server.batch = [] := List.isEmpty_iff.mp waits.1.1.2
      have nothing (fd : Fd) : h.reported fd = false := by
        rw [reported, empty]
        rfl
      cases moved
      generalize after : ({ h with
        observed := ⟨_, _, _⟩, ready := _ } : Host) = h'
      have reported' (fd : Fd) : h'.reported fd =
          (harvest h.poll MAX_EVENTS h.ready).1.any (fun p => p.2.fd == fd) := by
        rw [← after]
        simp [reported, server, List.any_map, Function.comp_def, Item.isEvent]
      have polled {fd : Fd} (own : fd = lfd ∨ fd = efd) (told : h'.reported fd = true) :
          (fd = lfd → h.backlog ≠ []) ∧ (fd ≠ lfd → h.notified = true) := by
        rw [reported', List.any_eq_true] at told
        obtain ⟨p, here, same⟩ := told
        have found := (harvest_polled here).1
        obtain rfl := beq_iff_eq.mp same
        rw [poll_fd found] at own ⊢
        exact (poll_own active.held found own).2.2
      have backlog : h'.backlog = h.backlog := by rw [← after]
      have unread : (h'.rank lfd efd).unread = (h.rank lfd efd).unread := by rw [← after]; rfl
      have work : (h'.rank lfd efd).work = (h.rank lfd efd).work := by rw [← after]; rfl
      have connections : (h'.rank lfd efd).connections ≤ (h.rank lfd efd).connections := by
        simp only [rank, backlog, nothing, Bool.toNat_false, Nat.sub_zero]
        exact Nat.sub_le _ _
      by_cases listening : h'.reported lfd = true
      · have waiting := List.length_pos_iff.mpr ((polled (.inl rfl) listening).1 rfl)
        apply Rank.Less.connections
        simp only [rank, backlog, nothing, listening, Bool.toNat_false, Bool.toNat_true]
        omega
      · have wake' : h'.wake efd = if h'.reported efd then 2 else if h.notified then 3 else 0 := by
          rw [← after]
          simp only [wake, idle, Bool.false_eq_true, if_false]
        have wake : h.wake efd = if h.notified then 3 else 0 := by
          simp only [wake, idle, nothing, Bool.false_eq_true, if_false]
        have unwritten : h'.unwritten = h.unwritten := by rw [← after]
        by_cases waking : h'.reported efd = true
        · have notified := (polled (.inr rfl) waking).2 active.apart.symm
          apply Rank.Less.wakes connections unread.le work
          simp only [rank, unwritten, wake', waking, wake, notified, if_true]
          omega
        · have left : h'.ready = (harvest h.poll MAX_EVENTS h.ready).2 := by
            have none : ((harvest h.poll MAX_EVENTS h.ready).1.map (·.1)).filter
                h.levelTriggered = [] := by
              rw [List.filter_eq_nil_iff]
              intro fd here
              obtain ⟨p, taken, rfl⟩ := List.mem_map.mp here
              have found := poll_fd (harvest_polled taken).1
              rw [reported', List.any_eq_true] at listening waking
              intro level
              simp only [levelTriggered, active.held.listening, active.held.waking,
                Bool.or_eq_true, beq_iff_eq] at level
              rcases level with same | same
              · exact listening ⟨p, taken, beq_iff_eq.mpr (found.trans same)⟩
              · exact waking ⟨p, taken, beq_iff_eq.mpr (found.trans same)⟩
            rw [← after]
            simp only [none, List.append_nil]
          have batch : (h'.server.batch.map Item.weight).sum =
              2 * (harvest h.poll MAX_EVENTS h.ready).1.length := by
            rw [← after]
            simp [server, Function.comp_def, Item.weight, Nat.mul_comm]
          have commands : h'.server.commands = h.server.commands := by rw [← after]; rfl
          have shrinks := h.harvested_sublist.length_le
          rw [List.length_append, List.length_map] at shrinks
          have positive := List.length_pos_iff.mpr reports
          apply Rank.Less.items connections unread.le work
          · simp only [rank, unwritten, wake', waking, wake, Bool.false_eq_true, if_false, le_refl]
          · simp only [rank, left, batch, commands, empty, List.map_nil, List.sum_nil]
            omega
    · cases moved

theorem Active.running (active : h.Active lfd efd) : h.server.pool.stopping = false := by
  by_contra stops
  have stopped := active.exec.going (Bool.eq_true_of_not_eq_false stops)
  cases active.loop.symm.trans stopped

/-- A worker goes on with its task. -/
theorem worker_lowers (active : h.Active lfd efd)
    (held' : Server.Held lfd efd h'.unwatched h'.server) {i : Nat} (hs : h.worker i = some h') :
    (h'.rank lfd efd).Less (h.rank lfd efd) := by
  obtain ⟨o, watched, rfl⟩ := Option.map_eq_some_iff.mp hs
  obtain ⟨t, moved, rfl⟩ := Option.map_eq_some_iff.mp watched
  obtain ⟨b, work, rfl⟩ := Option.map_eq_some_iff.mp moved
  have next : b.shared.next = h.server.shared.next := by
    cases Backend.worker_cases work with
    | executes job o rest here => exact h.server.shared.exec_next o
    | _ => rfl
  have spares := worker_spares work
  apply Rank.Less.work
  · exact Nat.le_refl _
  · refine NoMore.unread_le ⟨?_, fun fd x holds => ?_⟩ active.held held'
    · exact next
    · exact ⟨spares.holds holds, Nat.le_refl _⟩
  · exact Backend.worker_work active.running work

theorem write_lowers (hs : h.write = some h') : (h'.rank lfd efd).Less (h.rank lfd efd) := by
  simp only [write] at hs
  split at hs
  · cases hs
  · rename_i pushed
    have signals := (signals_signal { h with
      notified := true, unwritten := h.unwritten - 1 } h.server.eventFd).same
    rw [Option.some.inj hs] at signals
    have unwritten : h'.unwritten = h.unwritten - 1 := by rw [signals]
    apply Rank.Less.wakes
    · rw [signals]
      exact Nat.le_refl _
    · rw [signals]
      exact Nat.le_refl _
    · rw [signals]
      rfl
    · have far := h'.wake_le efd
      simp only [rank, unwritten]
      omega

/-! ### The steps of the main thread -/

theorem NoMore.of_still (still : Server.Still h.server h'.server)
    (unread : ∀ fd, (h'.sockets fd).unread.length ≤ (h.sockets fd).unread.length) :
    h.NoMore h' :=
  ⟨still.next, fun fd x holds =>
    ⟨⟨still.sessions fd x holds.here, still.closed x holds.opened⟩, unread fd⟩⟩

/-- A step that neither accepts nor reads leaves what has arrived in the sockets. -/
theorem unread_socketsAfter {k : Kernel} (accepted : h.server.accepted (.main k) = none)
    (reads : h.server.reads (.main k) = none) (fd : Fd) :
    (h.socketsAfter k fd).unread = (h.sockets fd).unread := by
  unfold socketsAfter
  rw [accepted, reads]
  cases calls : h.server.calls with
  | none => rfl
  | some call =>
    obtain ⟨x, packet⟩ := call
    simp only
    split
    · rfl
    · rw [Function.update_apply]
      split
      · rename_i same
        rw [same]
        rfl
      · rfl

/-- What a step of the main thread does outside the program, and that it is not the read of the
eventfd. -/
structure Moved (lfd efd : Fd) (h h' : Host) (k : Kernel) : Prop where
  active : h.Active lfd efd
  after : HostInv lfd efd h'
  idle : h.resetting = false
  backlog : h'.backlog =
    if (h.server.accepted (.main k)).isSome then h.backlog.tail else h.backlog
  sockets : h'.sockets = h.socketsAfter k
  unwritten : h'.unwritten = h.unwritten
  notified : h'.notified = h.notified
  resetting : h'.resetting = h.server.drains
  ready : ∀ g ∈ h'.ready, g ∈ h.ready ∨ h.rechecked k = some g ∧ (h'.poll g).isSome = true

theorem Moved.of_signals {reason : Prop} (active : h.Active lfd efd) (after : HostInv lfd efd h')
    (idle : h.resetting = false) (signals : Signals (h.changed (h.kernel m) o) h' fd reason)
    (looked : reason → h.rechecked (h.kernel m) = some fd ∧
      ((h.changed (h.kernel m) o).poll fd).isSome = true) : h.Moved lfd efd h' (h.kernel m) := by
  have ready (g : Fd) (here : g ∈ h'.ready) : g ∈ h.ready ∨
      h.rechecked (h.kernel m) = some g ∧ (h'.poll g).isSome = true := by
    rcases (signals.mem g).mp here with old | ⟨rfl, why⟩
    · exact .inl (List.mem_filter.mp old).1
    · rw [signals.same]
      exact .inr (looked why)
  refine ⟨active, after, idle, ?_, ?_, ?_, ?_, ?_, ready⟩
  · rw [signals.same]
    rfl
  · rw [signals.same]
    rfl
  · rw [signals.same]
    rfl
  · rw [signals.same]
    rfl
  · rw [signals.same]
    rfl

section

variable {k : Kernel} {e : EpollEvent} {batch : List Item}

/-- The list grows by the number that epoll is made to look at, if it is not there. -/
theorem Moved.grows (moved : h.Moved lfd efd h' k) : h'.ready.length ≤ h.ready.length + 1 := by
  cases told : h.rechecked k with
  | none =>
    have subset : h'.ready ⊆ h.ready := fun g here =>
      (moved.ready g here).resolve_right fun looked => by cases told.symm.trans looked.1
    exact ((moved.after.nodup.subperm subset).length_le).trans (Nat.le_succ _)
  | some fd =>
    have subset : h'.ready ⊆ fd :: h.ready := by
      intro g here
      rcases moved.ready g here with old | ⟨looked, -⟩
      · exact List.mem_cons_of_mem _ old
      · rw [Option.some.inj (looked.symm.trans told)]
        exact List.mem_cons_self
    exact (moved.after.nodup.subperm subset).length_le

theorem Moved.shrinks (moved : h.Moved lfd efd h' k)
    (listed : ∀ g, h.rechecked k = some g → (h'.poll g).isSome = true → g ∈ h.ready) :
    h'.ready.length ≤ h.ready.length := by
  have subset : h'.ready ⊆ h.ready := by
    intro g here
    rcases moved.ready g here with old | ⟨told, polled⟩
    · exact old
    · exact listed g told polled
  exact (moved.after.nodup.subperm subset).length_le

/-- Epoll is told of no number if the step accepts nothing and calls no sender. -/
theorem Moved.quiet (moved : h.Moved lfd efd h' k) (accepted : h.server.accepted (.main k) = none)
    (calls : h.server.calls = none) : h'.ready.length ≤ h.ready.length := by
  apply moved.shrinks
  intro g told
  simp only [rechecked, accepted, calls] at told
  cases told

/-- The step accepts nothing and does not drain the queue: the earlier parts of the rank stay as
they are, or go down. -/
theorem Moved.lowers (moved : h.Moved lfd efd h' k) (no : h.NoMore h')
    (accepted : h.server.accepted (.main k) = none) (drains : h.server.drains = false)
    (pool : h'.server.pool = h.server.pool)
    (listening : h.backlog = [] ∨ h'.reported lfd = h.reported lfd)
    (waking : h'.reported efd = h.reported efd)
    (items : (h'.rank lfd efd).items < (h.rank lfd efd).items) :
    (h'.rank lfd efd).Less (h.rank lfd efd) := by
  have backlog : h'.backlog = h.backlog := by
    rw [moved.backlog, accepted]
    rfl
  apply Rank.Less.items
  · simp only [rank, backlog]
    rcases listening with none | same
    · rw [none, List.length_nil]
      omega
    · rw [same]
  · exact no.unread_le moved.active.held moved.after.held
  · simp only [rank, pool]
  · simp only [rank, moved.unwritten, wake, moved.idle, moved.resetting, drains, waking,
      moved.notified]
    exact Nat.le_refl _
  · exact items

/-- It reads nothing either. -/
theorem Moved.plain_lowers (moved : h.Moved lfd efd h' k) (plain : Server.Plain h.server k)
    (still : Server.Still h.server h'.server)
    (listening : h.backlog = [] ∨ h'.reported lfd = h.reported lfd)
    (waking : h'.reported efd = h.reported efd)
    (items : (h'.rank lfd efd).items < (h.rank lfd efd).items) :
    (h'.rank lfd efd).Less (h.rank lfd efd) := by
  refine moved.lowers (.of_still still fun g => ?_) plain.accepted plain.drains still.pool
    listening waking items
  rw [moved.sockets, unread_socketsAfter plain.accepted plain.reads]

/-- An event about another number leaves it reported or not. -/
theorem reported_of_ne (head : h.server.batch = .event e :: batch)
    (left : ∀ g, h'.server.batch.any (·.isEvent g) = batch.any (·.isEvent g))
    (other : e.fd ≠ fd) : h'.reported fd = h.reported fd := by
  rw [reported, left, reported, head, any_of_ne other]

/-- Where the event loop goes on after the step, and that its rank is lower. -/
def Lowers (lfd efd : Fd) (h h' : Host) : Prop :=
  (h'.rank lfd efd).Less (h.rank lfd efd) ∧ h'.server.phase = .eventLoop

theorem Moved.command (moved : h.Moved lfd efd h' k) {q : Queued} {commands : List Queued}
    (head : h.server.commands = q :: commands) (plain : Server.Plain h.server k)
    (server : h'.server = { h.server with commands := commands }.processCommand k q) :
    Lowers lfd efd h h' := by
  have taken : Server.Still h.server { h.server with commands := commands } :=
    .of_backend rfl rfl rfl
  have still := taken.trans (Server.processCommand_still _ k q)
  have done := Server.processCommand_sameLoop { h.server with commands := commands } k q
  rw [← server] at done still
  have batch : h'.server.batch = h.server.batch := done.batch
  have reported (g : Fd) : h'.reported g = h.reported g := by
    rw [Host.reported, batch, Host.reported]
  refine ⟨moved.plain_lowers plain still (.inr (reported lfd)) (reported efd) ?_,
    done.phase.trans moved.active.loop⟩
  have grows := moved.grows
  simp only [rank, done.commands, batch, head, List.length_cons]
  omega

theorem Moved.failed (moved : h.Moved lfd efd h' k) (head : h.server.batch = .event e :: batch)
    (fails : e.failed = true) (plain : Server.Plain h.server k) (calls : h.server.calls = none)
    (server : h'.server = { h.server with batch := batch }.closeOrDefer e.fd) :
    Lowers lfd efd h h' := by
  have taken : Server.Still h.server { h.server with batch := batch } := .of_backend rfl rfl rfl
  have still := taken.trans (Server.closeOrDefer_still _ e.fd)
  have done := Server.closeOrDefer_sameLoop { h.server with batch := batch } e.fd
  rw [← server] at done still
  have left : h'.server.batch = batch := done.batch
  have client (g : Fd) (own : g = lfd ∨ g = efd) : e.fd ≠ g := by
    rintro rfl
    have here : .event e ∈ h.server.batch := by rw [head]; exact List.mem_cons_self
    cases (moved.active.planned.own e here own).1.symm.trans fails
  have reported (g : Fd) (own : g = lfd ∨ g = efd) : h'.reported g = h.reported g :=
    reported_of_ne head (by rw [left]; exact fun _ => rfl) (client g own)
  refine ⟨moved.plain_lowers plain still (.inr (reported lfd (.inl rfl)))
    (reported efd (.inr rfl)) ?_, done.phase.trans moved.active.loop⟩
  have shrinks := moved.quiet plain.accepted calls
  have commands : h'.server.commands = h.server.commands := done.commands
  simp only [rank, commands, left, head, List.map_cons, List.sum_cons, Item.weight]
  omega

theorem Moved.skips (moved : h.Moved lfd efd h' k) (head : h.server.batch = .event e :: batch)
    (nothing : e.readable = false ∨ e.fd = h.server.listenFd ∧ h.backlog = [])
    (plain : Server.Plain h.server k) (calls : h.server.calls = none)
    (server : h'.server = { h.server with batch := Server.leftBy e batch }) :
    Lowers lfd efd h h' := by
  have held := moved.active.held
  have still : Server.Still h.server h'.server := by
    rw [server]
    exact .of_backend rfl rfl rfl
  have left : h'.server.batch = Server.leftBy e batch := by rw [server]
  have same : ∀ g, h'.server.batch.any (·.isEvent g) = batch.any (·.isEvent g) := by
    rw [left]
    exact leftBy_any
  have here : .event e ∈ h.server.batch := by rw [head]; exact List.mem_cons_self
  have unreadable (none : e.readable = false) (own : e.fd = lfd ∨ e.fd = efd) : False := by
    cases (moved.active.planned.own e here own).2.symm.trans none
  refine ⟨moved.plain_lowers plain still ?_ ?_ ?_, still.phase.trans moved.active.loop⟩
  · rcases nothing with none | ⟨-, empty⟩
    · exact .inr (reported_of_ne head same fun own => unreadable none (.inl own))
    · exact .inl empty
  · refine reported_of_ne head same fun own => ?_
    rcases nothing with none | ⟨listening, -⟩
    · exact unreadable none (.inr own)
    · exact moved.active.apart (held.listening.symm.trans (listening.symm.trans own))
  · have shrinks := moved.quiet plain.accepted calls
    have lighter := leftBy_weight e batch
    have commands : h'.server.commands = h.server.commands := by rw [server]
    simp only [rank, commands, left, head]
    omega

theorem Moved.accepts (moved : h.Moved lfd efd h' k)
    (number : h.server.accepted (.main k) = some fd) (waits : h.backlog ≠ []) :
    (h'.rank lfd efd).Less (h.rank lfd efd) := by
  have backlog := moved.backlog
  rw [number] at backlog
  have positive := List.length_pos_iff.mpr waits
  have one := (h.reported lfd).toNat_le
  apply Rank.Less.connections
  simp only [rank, backlog, Option.isSome_some, if_true, List.length_tail]
  omega

/-- The eventfd has been reported, and is about to be read. -/
theorem Moved.drains (moved : h.Moved lfd efd h' k) (head : h.server.batch = .event e :: batch)
    (waking : e.fd = h.server.eventFd) (accepted : h.server.accepted (.main k) = none)
    (unread : h.server.reads (.main k) = none) (draining : h.server.drains = true)
    (server : h'.server = { h.server.drain with batch := Server.leftBy e batch }) :
    Lowers lfd efd h h' := by
  have held := moved.active.held
  have own : e.fd = efd := waking.trans held.waking
  have still : Server.Still h.server h'.server := by
    rw [server]
    exact ⟨rfl, rfl, rfl, fun _ _ => id, fun _ => rfl, fun _ => id⟩
  have same : ∀ g, h'.server.batch.any (·.isEvent g) = batch.any (·.isEvent g) := by
    rw [server]
    exact leftBy_any
  have backlog := moved.backlog
  rw [accepted] at backlog
  have reported : h'.reported lfd = h.reported lfd :=
    reported_of_ne head same fun listening => moved.active.apart (listening.symm.trans own)
  have told : h.reported efd = true := by
    rw [Host.reported, head]
    simp [Item.isEvent, own]
  refine ⟨?_, still.phase.trans moved.active.loop⟩
  apply Rank.Less.wakes
  · simp only [rank, backlog, reported]
    exact Nat.le_refl _
  · apply NoMore.unread_le (.of_still still fun g => ?_) held moved.after.held
    rw [moved.sockets, unread_socketsAfter accepted unread]
  · simp only [rank, still.pool]
  · simp only [rank, moved.unwritten, wake, moved.resetting, draining, moved.idle, told]
    simp

end

theorem handleRead_empty {c : Socket} (none : c.unread = []) (counts : List Nat) (x : SessionId)
    (a : PacketAssembler) : (ClientSession.handleRead x (c.recvs counts) a).2.1 = [] := by
  simp only [Socket.recvs, none, List.length_nil, Socket.pieces, List.map_nil, List.nil_append]
  cases c.failed <;> cases c.ended <;> rfl

/-- A read submits no task if nothing had arrived. -/
theorem onRead_pool {s : Server} (running : s.pool.stopping = false) {recvs : List RecvResult}
    (nothing : ∀ x, s.sessions fd = some x →
      (ClientSession.handleRead x recvs (s.obj x).assembler).2.1 = []) :
    (s.onRead fd recvs).pool = s.pool := by
  cases here : s.sessions fd with
  | none => simp only [Server.onRead, here]
  | some x =>
    have read := Server.onRead_still here running recvs
    have none := nothing x here
    generalize ClientSession.handleRead x recvs (s.obj x).assembler = result at read none
    obtain ⟨assembler, tasks, close⟩ := result
    cases none
    obtain ⟨n, still, pool, -⟩ := read
    rw [still.pool, pool]
    simp

/-- A session reads all that has arrived, which may be nothing. -/
theorem Moved.reads (moved : h.Moved lfd efd h' (h.kernel m)) {e : EpollEvent} {batch : List Item}
    (head : h.server.batch = .event e :: batch) (listening : e.fd ≠ h.server.listenFd)
    (waking : e.fd ≠ h.server.eventFd)
    (accepted : h.server.accepted (.main (h.kernel m)) = none)
    (read : h.server.reads (.main (h.kernel m)) = some (e.fd, (h.kernel m).recvs))
    (drains : h.server.drains = false) (calls : h.server.calls = none)
    (server : h'.server = { h.server with batch := Server.leftBy e batch }.onRead e.fd
      (h.kernel m).recvs) : Lowers lfd efd h h' := by
  have held := moved.active.held
  have taken : Server.Spares h.server { h.server with batch := Server.leftBy e batch } :=
    .of_shared rfl rfl rfl rfl
  have spares := taken.trans (Server.onRead_spares _ e.fd (h.kernel m).recvs)
  have next := (Server.onRead_trims { h.server with batch := Server.leftBy e batch } e.fd
    (h.kernel m).recvs).deletes.frame.next
  have done := Server.onRead_sameLoop { h.server with batch := Server.leftBy e batch } e.fd
    (h.kernel m).recvs
  rw [← server] at spares next done
  have left : h'.server.batch = Server.leftBy e batch := done.batch
  have reported (g : Fd) (own : g = lfd ∨ g = efd) : h'.reported g = h.reported g := by
    refine reported_of_ne head (by rw [left]; exact leftBy_any) ?_
    rcases own with rfl | rfl
    · exact fun same => listening (same.trans held.listening.symm)
    · exact fun same => waking (same.trans held.waking.symm)
  have sockets : h'.sockets = Function.update h.sockets e.fd (h.sockets e.fd).read := by
    rw [moved.sockets]
    simp only [socketsAfter, accepted, read]
  have no : h.NoMore h' := by
    refine ⟨next, fun g y holds => ⟨spares.holds holds, ?_⟩⟩
    rw [sockets, Function.update_apply]
    split
    · exact Nat.zero_le _
    · exact Nat.le_refl _
  refine ⟨?_, done.phase.trans moved.active.loop⟩
  by_cases some : ∃ x, h.server.Holds e.fd x ∧ (h.sockets e.fd).unread ≠ []
  · obtain ⟨x, holds, some⟩ := some
    have backlog := moved.backlog
    rw [accepted] at backlog
    apply Rank.Less.unread
    · simp only [rank, backlog, reported lfd (.inl rfl)]
      exact Nat.le_refl _
    · refine no.unread_lt held moved.after.held holds some fun _ => ?_
      rw [sockets, Function.update_self]
      rfl
  · have pool : h'.server.pool = h.server.pool := by
      rw [server]
      refine onRead_pool (s := { h.server with batch := Server.leftBy e batch })
        moved.active.running fun x _ => ?_
      simp only [kernel, reads_any read]
      split
      · rename_i client
        have opened : h.server.openFds e.fd = true := by
          simp only [Host.client, Bool.and_eq_true] at client
          exact client.1.1
        rcases (held.numbers e.fd).mp opened with own | own | ⟨y, here, opened⟩
        · exact absurd own listening
        · exact absurd own waking
        · apply handleRead_empty
          by_contra unread
          exact some ⟨y, ⟨here, opened⟩, unread⟩
      · rfl
    refine moved.lowers no accepted drains pool (.inr (reported lfd (.inl rfl)))
      (reported efd (.inr rfl)) ?_
    have shrinks := moved.quiet accepted calls
    have lighter := leftBy_weight e batch
    have commands : h'.server.commands = h.server.commands := done.commands
    simp only [rank, commands, left, head]
    omega

/-- What a step of the main thread leaves of the session's needs. -/
theorem looked_listed (active : h.Active lfd efd) {batch : List Item}
    (head : h.server.batch = .writable fd :: batch) {k : Kind} (other : k ≠ .writable)
    (needs : h.Needs fd k) : fd ∈ h.ready := by
  rcases active.clients active.loop fd k needs with here | ⟨item, here, tells⟩
  · exact here
  · rw [head] at here
    have distinct := active.planned.distinct
    rw [head, List.map_cons, List.nodup_cons] at distinct
    rcases List.mem_cons.mp here with rfl | here
    · exact absurd tells.2 other
    · have same : item.fd = fd := by
        cases item with
        | event e => exact tells.1
        | writable g => exact tells.1
      exact absurd (List.mem_map.mpr ⟨item, here, same⟩) distinct.1

/-- After a flush that epoll has been told of there is no room left for `EPOLLOUT`. -/
theorem flushed_full (inv' : HostInv lfd efd h') (marked : h.Marked) {fails : Option Nat}
    (called : h.Calls h' fails fd x none) (asks : (h.asked fails fd x none).isSome = true)
    (sound : (h.sockets fd).failed = false) (known : (h'.server.epoll fd).isSome = true)
    (asked : h'.server.epoll fd = some .write) : (h'.sockets fd).writable = false := by
  have ok := PacketSender.asks_unfailing asks
  have socket : h'.sockets fd = (h.sockets fd).called (h.server.obj x).sender
      (h.callOn fails fd x none) := by
    rw [called.sockets, Function.update_self]
  have holds := (called.holds_iff fd x).mpr called.holds
  have armed := (inv'.flows fd x holds).armed (by rw [socket]; exact sound)
    (by rw [socket]; exact decide_eq_false ok) (holds.watched inv'.held known)
  have left : (h'.server.obj x).sender.sendQueue ≠ [] := by
    intro none
    have mask := armed.mask
    rw [none, asked] at mask
    cases mask
  have sender := called.sender x
  rw [if_pos rfl] at sender
  have mark := marked.sockets fd
  rw [sender, callOn, flushed, Option.toList_none, List.append_nil] at left
  rw [flushed, Option.toList_none, List.append_nil] at ok
  have full := Socket.take_full sound fails ok left
  rw [socket, callOn, flushed, Option.toList_none, List.append_nil, Socket.writable,
    decide_eq_false_iff_not]
  simp only [Socket.called, full]
  exact Nat.not_le.mpr mark

/-- A flush that is resumed puts no number on the list. -/
theorem writes_listed (active : h.Active lfd efd) (inv' : HostInv lfd efd h') {batch : List Item}
    (head : h.server.batch = .writable fd :: batch) {fails : Option Nat}
    (called : h.Calls h' fails fd x none) (asks : (h.asked fails fd x none).isSome = true)
    (polled : (h'.poll fd).isSome = true) : fd ∈ h.ready := by
  have known' := poll_known polled
  have known := (called.registered fd).symm.trans known'
  obtain ⟨listening, waking⟩ := active.held.apart fd x called.holds.here
  have client := And.intro listening (And.intro waking known)
  have listed {k : Kind} (other : k ≠ .writable) (needs : h.Needs fd k) : fd ∈ h.ready :=
    looked_listed active head other needs
  by_cases failed : (h.sockets fd).failed = true
  · exact listed (k := .failed) nofun ⟨client, failed⟩
  · have sound : (h.sockets fd).failed = false := Bool.not_eq_true _ ▸ failed
    have socket : h'.sockets fd = (h.sockets fd).called (h.server.obj x).sender
        (h.callOn fails fd x none) := by
      rw [called.sockets, Function.update_self]
    by_cases unread : (h.sockets fd).unread ≠ [] ∨ (h.sockets fd).ended = true
    · exact listed (k := .readable) nofun ⟨client, sound, unread⟩
    · exfalso
      rw [not_or, not_not, Bool.not_eq_true] at unread
      obtain ⟨unread, ended⟩ := unread
      have readable : (h'.sockets fd).readable = false := by
        rw [socket]
        simp [Socket.readable, Socket.called, Socket.take, unread, ended, sound]
      have failed' : (h'.sockets fd).failed = false := by
        rw [socket]
        exact sound
      have room := flushed_full inv' active.marked called asks sound known'
      have other : fd ≠ h'.server.listenFd ∧ fd ≠ h'.server.eventFd := by
        rw [inv'.held.listening, inv'.held.waking, ← active.held.listening, ← active.held.waking]
        exact ⟨listening, waking⟩
      have looks : h'.look fd = { fd := fd } := by
        simp only [look, if_neg other.1, if_neg other.2, readable, failed', Bool.or_false]
        congr 1
        cases asked : h'.server.epoll fd == some .write with
        | false => rfl
        | true => exact (Bool.true_and _).trans (room (beq_iff_eq.mp asked))
      simp [poll, looks] at polled

/-- A session's flush is resumed, if there still is one. -/
theorem Moved.writes (moved : h.Moved lfd efd h' (h.kernel m)) {batch : List Item}
    (head : h.server.batch = .writable fd :: batch) (plain : Server.Plain h.server (h.kernel m))
    (calls : h.server.calls = (h.server.sessions fd).map fun x => (x, none))
    (leads : h.Leads lfd efd (h.kernel m) o) (after : h' = h.settled (h.kernel m) o)
    (written : o.server = { h.server with batch := batch }.onWrite fd (h.kernel m).sends)
    (server : h'.server = o.server) : Lowers lfd efd h h' := by
  have held := moved.active.held
  have held' := moved.after.held
  have taken : Server.Still h.server { h.server with batch := batch } := .of_backend rfl rfl rfl
  have still := taken.trans (Server.onWrite_still _ fd (h.kernel m).sends)
  have done := Server.onWrite_sameLoop { h.server with batch := batch } fd (h.kernel m).sends
  rw [← written, ← server] at done still
  have left : h'.server.batch = batch := done.batch
  have reported (g : Fd) : h'.reported g = h.reported g := by
    rw [Host.reported, left, Host.reported, head]
    rfl
  have shrinks := moved.shrinks fun g told polled => by
    cases here : h.server.sessions fd with
    | none =>
      simp only [rechecked, plain.accepted, calls, here, Option.map_none] at told
      cases told
    | some x =>
      have number := (held.numbered fd x here).2.1
      rw [here] at calls
      simp only [rechecked, plain.accepted, calls, Option.map_some, number] at told
      split at told
      · rename_i asks
        obtain rfl := Option.some.inj told
        obtain ⟨listening, waking⟩ := held.apart fd x here
        rw [held.listening, ← held'.listening] at listening
        rw [held.waking, ← held'.waking] at waking
        obtain ⟨y, holds⟩ := held'.holds listening waking (poll_known polled)
        obtain rfl : x = y := Option.some.inj (here.symm.trans (still.sessions _ _ holds.here))
        have holds : h.server.Holds fd x := ⟨here, still.closed x holds.opened⟩
        have inv := moved.active.toHostInv
        have called := (writes_sends inv plain holds calls leads written).called inv
        rw [← after] at called
        rw [kernel_call inv holds calls] at asks
        exact writes_listed moved.active moved.after head called asks polled
      · cases told
  refine ⟨moved.plain_lowers plain still (.inr (reported lfd)) (reported efd) ?_,
    done.phase.trans moved.active.loop⟩
  have commands : h'.server.commands = h.server.commands := done.commands
  simp only [rank, commands, left, head, List.map_cons, List.sum_cons, Item.weight]
  omega

/-- The eventfd is read, after its commands have been taken. -/
theorem resets_lowers (active : h.Active lfd efd) (reset : h.resetting = true) :
    Lowers lfd efd h { h with notified := false, resetting := false } := by
  refine ⟨?_, active.loop⟩
  apply Rank.Less.wakes
  · exact Nat.le_refl _
  · exact Nat.le_refl _
  · rfl
  · have taken : Host.reported { h with notified := false, resetting := false } efd = false :=
      active.planned.taken reset
    simp [rank, wake, reset, taken]

theorem main_lowers (active : h.Active lfd efd) (own : h.internal (.main m) = true)
    (hs : h.main m = some h') : Lowers lfd efd h h' := by
  have after := step_main active.toHostInv hs
  simp only [internal, Bool.and_eq_true, Bool.not_eq_true', Bool.or_eq_true] at own
  obtain ⟨stays, accepts⟩ := own
  by_cases reset : h.resetting = true
  · rw [main, if_pos reset] at hs
    cases hs
    exact resets_lowers active reset
  · obtain ⟨o, fd, reason, step, watched, settles, signals, looked⟩ := main_settles reset hs
    have idle : h.resetting = false := Bool.not_eq_true _ ▸ reset
    have moved := Moved.of_signals active after idle signals looked
    have server' : h'.server = o.server := congrArg Host.server signals.same
    have leads := active.toHostInv.leads watched
    generalize same : o.server = t at step
    have server : h'.server = t := server'.trans same
    cases Server.main_step step with
    | command q commands head plain => exact moved.command head plain server
    | leaves batch phase pool workers last reason =>
      rcases reason with ended | leaves | ⟨item, first, e, rfl, fails, listening⟩
      · exact absurd active.loop ended
      · cases stays.symm.trans leaves
      · have here : .event e ∈ h.server.batch := List.mem_of_mem_head? first
        have own := listening.trans active.held.listening
        cases (active.planned.own e here (.inl own)).1.symm.trans fails
    | failed e batch head loop fails plain calls => exact moved.failed head fails plain calls server
    | skips e batch head loop fine nothing plain calls =>
      refine moved.skips head (nothing.imp_right fun own => ⟨own.1, ?_⟩) plain calls server
      by_contra waits
      have given : m.accepted.isSome = true := accepts.resolve_left (by simpa using waits)
      have refused : m.accepted = none := by simpa [kernel, waits] using own.2
      rw [refused] at given
      cases given
    | accepts e batch head loop fine listening fd given number =>
      refine ⟨moved.accepts number fun none => ?_, by rw [server]; exact loop⟩
      simp [kernel, none] at given
    | drains batch phase loop empty accepted unread draining =>
      obtain ⟨before, rfl, e, rest, head, fine, waking, rfl⟩ :=
        loop.resolve_left fun ends => ends.1 active.loop
      refine moved.drains head waking accepted unread draining ?_
      rw [server, ← before]
      rfl
    | reads e batch head loop fine listening waking accepted read drains calls =>
      exact moved.reads head listening waking accepted read drains calls server
    | writes fd batch head loop plain calls =>
      exact moved.writes head plain calls leads settles same server'

/-! ## Rest -/

/-- There is always another number. -/
theorem fresh_number (held : Server.Held lfd efd h.unwatched h.server) :
    ∃ fd, h.server.openFds fd = false := by
  obtain ⟨fd, new⟩ := Infinite.exists_notMem_finset
    ({lfd, efd} ∪ (Finset.range h.server.shared.next).image h.server.fdOf)
  refine ⟨fd, Bool.eq_false_iff.mpr fun opened => new ?_⟩
  simp only [Finset.mem_union, Finset.mem_insert, Finset.mem_singleton, Finset.mem_image,
    Finset.mem_range]
  rcases (held.numbers fd).mp opened with own | own | ⟨x, here, -⟩
  · exact .inl (.inl (own.trans held.listening))
  · exact .inl (.inr (own.trans held.waking))
  · obtain ⟨known, number, -⟩ := held.numbered fd x here
    exact .inr ⟨x, known, number⟩

theorem poll_possible {e : EpollEvent} (polled : h.poll fd = some e) :
    h.server.possible e = true := by
  have same := poll_fd polled
  simp only [poll] at polled
  split at polled
  · rename_i told
    rw [Option.some.inj polled] at told
    simp only [Bool.and_eq_true] at told
    obtain ⟨known, told⟩ := told
    obtain ⟨mask, known⟩ := Option.isSome_iff_exists.mp known
    have asked : e.writable = true → mask = .write := by
      intro writable
      rw [← Option.some.inj polled] at writable
      unfold look at writable
      split at writable
      · cases writable
      · split at writable
        · cases writable
        · rw [Bool.and_eq_true, beq_iff_eq, known] at writable
          exact Option.some.inj writable.1
    simp only [Server.possible, same, known, told, Bool.true_and, Bool.or_eq_true,
      Bool.not_eq_true', beq_iff_eq]
    cases writable : e.writable with
    | false => exact .inl rfl
    | true => exact .inr (asked writable)
  · cases polled

/-- What is on epoll's list and has something to report can be reported. -/
theorem epollWait_goes_on (active : h.Active lfd efd) (idle : h.resetting = false)
    (commands : h.server.commands = []) (batch : h.server.batch = []) : h.epollWait ≠ none := by
  have fds : ((harvest h.poll MAX_EVENTS h.ready).1.map (·.2)).map (·.fd) =
      (harvest h.poll MAX_EVENTS h.ready).1.map (·.1) := by
    rw [List.map_map]
    exact List.map_congr_left fun p here => poll_fd (harvest_polled here).1
  have distinct : ((harvest h.poll MAX_EVENTS h.ready).1.map (·.1)).Nodup :=
    (active.nodup.sublist h.harvested_sublist).of_append_left
  have possible : ((harvest h.poll MAX_EVENTS h.ready).1.map (·.2)).all h.server.possible =
      true := by
    rw [List.all_map, List.all_eq_true]
    exact fun p here => poll_possible (harvest_polled here).1
  have guard : (h.server.phase == .eventLoop && h.server.commands.isEmpty &&
      h.server.batch.isEmpty &&
      ((harvest h.poll MAX_EVENTS h.ready).1.map (·.2)).all h.server.possible &&
      (((harvest h.poll MAX_EVENTS h.ready).1.map (·.2)).map (·.fd)).dedup.length ==
        ((harvest h.poll MAX_EVENTS h.ready).1.map (·.2)).length) = true := by
    rw [possible, fds, distinct.dedup, active.loop, commands, batch]
    simp
  have moved : h.server.epollWait ((harvest h.poll MAX_EVENTS h.ready).1.map (·.2)) ≠
      none := by
    unfold Server.epollWait
    rw [if_pos guard]
    exact nofun
  simp only [epollWait, idle, Bool.false_eq_true, if_false, ne_eq, Option.map_eq_none_iff,
    Observed.step, Server.step]
  exact moved

/-- Where no step of its own is possible the server is at rest. -/
theorem Active.atRest (active : h.Active lfd efd)
    (stuck : ∀ a, h.internal a = true → h.step a = none) : h.AtRest := by
  obtain ⟨number, free⟩ := fresh_number active.held
  have still := stuck (.main { accepted := some number }) (by simp [internal])
  rw [step, main] at still
  have idle : h.resetting = false := by
    by_contra resets
    rw [if_pos (Bool.eq_true_of_not_eq_false resets)] at still
    cases still
  rw [if_neg (by rw [idle]; exact Bool.false_ne_true)] at still
  have waits : h.server.main (h.kernel { accepted := some number }) = none :=
    Option.map_eq_none_iff.mp (Option.map_eq_none_iff.mp still)
  have given (fd : Fd) (accepted : (h.kernel { accepted := some number }).accepted = some fd) :
      h.server.openFds fd = false := by
    simp only [kernel] at accepted
    split at accepted
    · cases accepted
    · cases accepted
      exact free
  obtain ⟨commands, batch⟩ := Server.main_goes_on active.loop given waits
  have reports : (harvest h.poll MAX_EVENTS h.ready).1 = [] := by
    by_contra some
    have waits := stuck .epollWait (by simp [internal, some])
    exact epollWait_goes_on active idle commands batch waits
  have workers (i : Nat) : h.worker i = none := stuck (.worker i) rfl
  have written : h.unwritten = 0 := by
    by_contra some
    have waits := stuck .write rfl
    rw [step, write, if_neg some] at waits
    cases waits
  have nobody (i : Nat) : h.server.toBackend.worker i = none :=
    Option.map_eq_none_iff.mp (Option.map_eq_none_iff.mp (Option.map_eq_none_iff.mp (workers i)))
  obtain ⟨tasks, waiting⟩ := active.staffed.tasks (by rw [active.loop]; decide) nobody
  apply atRest_of_idle
  simp only [Host.idle, active.loop, idle, commands, batch, reports, tasks, active.running,
    written]
  simp only [List.isEmpty_nil, beq_self_eq_true, Bool.not_false, Bool.and_true, Bool.true_and,
    List.all_eq_true]
  intro w here
  rw [waiting w here]

/-! ## Every run -/

theorem step_staffed {a : HostAction} (inv : HostInv lfd efd h) (staffed : h.server.Staffed)
    (hs : h.step a = some h') : h'.server.Staffed := by
  rcases step_observed hs with same | ⟨a', moved⟩
  · rw [server, same]
    exact staffed
  · obtain ⟨t, moved, watched⟩ := Option.map_eq_some_iff.mp moved
    rw [server, ← watched]
    exact Server.step_staffed staffed inv.exec.going moved

/-- A step of the server's own lowers its rank. -/
theorem step_lowers (active : h.Active lfd efd) {a : HostAction} (own : h.internal a = true)
    (hs : h.step a = some h') :
    h'.Active lfd efd ∧ (h'.rank lfd efd).Less (h.rank lfd efd) := by
  have inv' := step_inv active.toHostInv hs
  obtain ⟨less, loop⟩ : Lowers lfd efd h h' := by
    cases a with
    | outside e => cases own
    | epollWait =>
      refine ⟨epollWait_lowers active (by simpa [internal] using own) hs, ?_⟩
      simp only [step, epollWait] at hs
      split at hs
      · cases hs
      · obtain ⟨o, watched, rfl⟩ := Option.map_eq_some_iff.mp hs
        obtain ⟨t, moved, rfl⟩ := Option.map_eq_some_iff.mp watched
        simp only [Server.step, Server.epollWait] at moved
        split at moved
        · cases moved
          exact active.loop
        · cases moved
    | main m => exact main_lowers active own hs
    | worker i =>
      refine ⟨worker_lowers active inv'.held hs, ?_⟩
      obtain ⟨o, watched, rfl⟩ := Option.map_eq_some_iff.mp hs
      obtain ⟨t, moved, rfl⟩ := Option.map_eq_some_iff.mp watched
      obtain ⟨b, -, rfl⟩ := Option.map_eq_some_iff.mp moved
      exact active.loop
    | write =>
      refine ⟨write_lowers hs, ?_⟩
      simp only [step, write] at hs
      split at hs
      · cases hs
      · cases hs
        rw [(signals_signal _ _).same]
        exact active.loop
  refine ⟨⟨inv', loop, ?_, ?_, ?_⟩, less⟩
  · exact step_planned active.toHostInv (fun _ => active.planned) hs loop
  · apply step_marked active.marked ?_ hs
    rintro c rfl
    cases own
  · exact step_staffed active.toHostInv active.staffed hs

variable (tables : Tables) (numThreads : Nat) {listenFd eventFd : Fd}

theorem run_active (apart : listenFd ≠ eventFd) {as : List HostAction}
    (run : exec step (start tables numThreads listenFd eventFd) as = some h)
    (marks : ∀ c, .outside (.connect c) ∈ as → 0 < c.lowWater)
    (loop : h.server.phase = .eventLoop) : h.Active listenFd eventFd := by
  let P : Host → HostAction → Prop := fun _ a => ∀ c, a = .outside (.connect c) → 0 < c.lowWater
  let I : Host → Prop := fun h => HostInv listenFd eventFd h ∧
    (h.server.phase = .eventLoop → h.Planned listenFd eventFd) ∧ h.Marked
  have along : Along step P (start tables numThreads listenFd eventFd) as :=
    (along_iff_forall run).mpr fun a here c same => marks c (same ▸ here)
  have first : I (start tables numThreads listenFd eventFd) :=
    ⟨inv_start tables numThreads apart, fun _ => ⟨List.nodup_nil, nofun, nofun⟩,
      ⟨fun _ => Nat.one_pos, nofun⟩⟩
  have last : I h := by
    refine Along.invariant ?_ along first run
    intro s a t ⟨inv, planned, marked⟩ connects hs
    exact ⟨step_inv inv hs, step_planned inv planned hs, step_marked marked connects hs⟩
  obtain ⟨inv, planned, marked⟩ := last
  exact ⟨inv, loop, planned loop, marked, run_staffed tables numThreads run⟩

/-- **Coming to rest.** In every state of every run in which the event loop runs, of the steps of
the program and of epoll only finitely many can follow each other before something happens
outside, unless a shutdown is asked for or `accept` fails; and where none is possible any more,
the server is at rest and has served everybody that epoll watches. -/
theorem always_settles (apart : listenFd ≠ eventFd) (as : List HostAction)
    (run : exec step (start tables numThreads listenFd eventFd) as = some h)
    (marks : ∀ c, .outside (.connect c) ∈ as → 0 < c.lowWater)
    (loop : h.server.phase = .eventLoop) :
    Settles step (internal · · = true)
      (fun t => t.AtRest ∧ t.backlog = [] ∧
        ∀ fd x, t.server.Holds fd x → x ∉ t.unwatched → t.Served fd x) h := by
  have active := run_active tables numThreads apart run marks loop
  refine Settles.of_rank Rank.less_wf (rank listenFd eventFd)
    (fun s a t active own hs => step_lowers active own hs) ?_ active
  intro s active stuck
  have rest := active.atRest stuck
  exact ⟨rest, rest.accepted active.toHostInv,
    fun fd x holds watched => rest.served active.toHostInv active.staffed holds watched⟩

/-- The second part of a request has arrived: the server can be left to itself. -/
theorem always_settles_in_parts :
    ∃ h bs t, exec step (start {} 1 3 4) (servedInParts.take 7) = some h ∧
      Along step (internal · · = true) h bs ∧ exec step h bs = some t ∧ t.AtRest ∧
      ∀ fd x, t.server.Holds fd x → x ∉ t.unwatched → t.Served fd x := by
  have ran : (exec step (start {} 1 3 4) (servedInParts.take 7)).map (·.server.phase) =
      some .eventLoop := by decide +kernel
  obtain ⟨h, run, loop⟩ := Option.map_eq_some_iff.mp ran
  have marks : ∀ c, .outside (.connect c) ∈ servedInParts.take 7 → 0 < c.lowWater := by
    intro c here
    have only : c = { room := 5 } := by simpa [servedInParts] using here
    rw [only]
    exact Nat.one_pos
  have settles := always_settles {} 1 (by decide) _ run marks loop
  obtain ⟨bs, t, own, reached, rest, -, served⟩ := settles.reaches
  exact ⟨h, bs, t, run, own, reached, rest, served⟩

end Host

end Cvcn
