import Cvcn.Lib.Threads
import Cvcn.Services.Dispatcher
import Cvcn.Validator

/-!
# Registrations of one name

Any number of workers handle a `RegisterRequest` for the same name, each operation of a
repository or of a session being one step. The check and the insert are two of them, so that
several may find the name free; the table takes it once, and who inserts it is told.
-/

namespace Cvcn

open Atomic Machine List

structure Registration where
  header : PacketHeaderRaw
  password : Bytes
  session : SessionId
  deriving DecidableEq, Repr

namespace Registration

def passwordHash (l : Registration) : Bytes := config.PASSWORD_HASH_PREFIX ++ l.password

def prog (name : Bytes) (l : Registration) : ServerProg Unit :=
  AuthService.handleRegisterRequest l.header ⟨name, l.password⟩ l.session

/-- The response to a request, in the queue of a server with these sessions. -/
def answer (sh : Shared) (success : Bool) (l : Registration) : Queued :=
  ⟨⟨.sendRaw, (sh.objects l.session).fileDescriptor,
    PacketBuilder.registerResponse l.header.messageID l.header.sessionID ⟨success⟩⟩, l.session⟩

abbrev State := Threads Op Op.Res Unit Shared Registration

def step (name : Bytes) : State → Sched Registration → Option State :=
  Threads.next Shared.exec (prog name) fun _ _ => true

/-! ## Where the requests stand -/

inductive Point where
  | checks
  | adds
  | answers (success : Bool)
  | finished (success : Bool)
  deriving DecidableEq, Repr

/-- A request, and the point at which its handler is. -/
structure Stand where
  label : Registration
  point : Point
  deriving DecidableEq, Repr

def answerThen (l : Registration) (success : Bool) : ServerProg Unit :=
  .op (.session l.session (.sendRaw
    (PacketBuilder.registerResponse l.header.messageID l.header.sessionID ⟨success⟩))) .done

def addThen (name : Bytes) (l : Registration) : ServerProg Unit :=
  .op (.repo (.addUser name l.passwordHash)) (answerThen l)

theorem prog_eq (name : Bytes) (l : Registration) :
    prog name l = .op (.repo (.userExists name)) fun found =>
      if found then answerThen l false else addThen name l := by
  apply congrArg (Prog.op _)
  funext (found : Bool)
  cases found <;> rfl

namespace Stand

def rest (name : Bytes) (k : Stand) : ServerProg Unit :=
  match k.point with
  | .checks => prog name k.label
  | .adds => addThen name k.label
  | .answers success => answerThen k.label success
  | .finished _ => .done ()

def thread (name : Bytes) (k : Stand) : Thread Op Op.Res Unit Registration := ⟨k.label, k.rest name⟩

/-- The request whose insert has succeeded. -/
def won : Stand → Option Registration
  | ⟨l, .answers true⟩ | ⟨l, .finished true⟩ => some l
  | _ => none

def sent (sh : Shared) : Stand → Option Queued
  | ⟨l, .finished success⟩ => some (l.answer sh success)
  | _ => none

/-- Nothing has been decided about the request. -/
def Undecided (k : Stand) : Prop := k.point = .checks ∨ k.point = .adds

end Stand

/-- The hashes stored under the name. -/
def hashes (name : Bytes) (sh : Shared) : List Bytes :=
  (sh.conn.tables.users.filter (·.username == name)).map (·.passwordHash)

/-- The requests stand at these points: what they have sent is in the queue, the name belongs to
the one that has won, and none is refused before there is one. -/
structure Stands (name : Bytes) (sh : Shared) (s : State) (stands : List Stand) : Prop where
  threads : s.threads = stands.map (·.thread name)
  objects : s.shared.objects = sh.objects
  queue : ∃ out, s.shared.queue = sh.queue ++ out ∧ out.Perm (stands.filterMap (·.sent sh))
  rows : (hashes name s.shared).Perm ((stands.filterMap (·.won)).map fun l => cStr l.passwordHash)
  one : (hashes name s.shared).length ≤ 1
  undecided : hashes name s.shared = [] → ∀ k ∈ stands, k.Undecided

variable {name : Bytes} {sh : Shared} {s : State} {stands : List Stand}

/-- Request `i` moves on to the point `k'`, and the hashes are those of the request if it has
won just now. -/
theorem Stands.advance (h : Stands name sh s stands) (k' : Stand) (gained : List Registration)
    {i : Nat} {k : Stand} (here : stands[i]? = some k) (silent : k.sent sh = none)
    {shared : Shared} (objects : shared.objects = s.shared.objects)
    (queue : shared.queue = s.shared.queue ++ (k'.sent sh).toList)
    (wins : k'.won.toList = gained ++ k.won.toList)
    (rows : hashes name shared = hashes name s.shared ++ gained.map fun l => cStr l.passwordHash)
    (one : (hashes name shared).length ≤ 1)
    (undecided : hashes name shared = [] → k'.Undecided) :
    Stands name sh ⟨shared, s.threads.set i (k'.thread name)⟩ (stands.set i k') where
  threads := by rw [h.threads, List.map_set]
  objects := objects.trans h.objects
  queue := by
    obtain ⟨out, same, sent⟩ := h.queue
    have moved := filterMap_set_perm (·.sent sh) here (x := k')
    rw [silent, Option.toList_none, List.nil_append] at moved
    refine ⟨out ++ (k'.sent sh).toList, by rw [queue, same, List.append_assoc], ?_⟩
    exact (List.perm_append_comm.trans (sent.append_left _)).trans moved.symm
  rows := by
    have moved := filterMap_set_perm (·.won) here (x := k')
    rw [wins, List.append_assoc] at moved
    have now := (List.perm_append_left_iff _).mp
      (moved.trans (List.perm_append_comm_assoc gained k.won.toList _))
    rw [rows]
    calc hashes name s.shared ++ gained.map (fun l => cStr l.passwordHash)
        ~ (gained ++ stands.filterMap (·.won)).map fun l => cStr l.passwordHash := by
          rw [List.map_append]
          exact List.perm_append_comm.trans (h.rows.append_left _)
      _ ~ ((stands.set i k').filterMap (·.won)).map fun l => cStr l.passwordHash :=
          (now.map _).symm
  one := one
  undecided none := by
    intro j hj
    rcases mem_set_cases hj with rfl | ⟨m, _, there⟩
    · exact undecided none
    · have before : hashes name s.shared = [] := by
        rw [rows] at none
        exact (List.append_eq_nil_iff.mp none).1
      exact h.undecided before j (List.mem_of_getElem? there)

/-! ## The two queries -/

theorem cStr_passwordHash_ne_nil (l : Registration) : cStr (cStr l.passwordHash) ≠ [] := by
  simp [passwordHash, config.PASSWORD_HASH_PREFIX, cStr]

theorem cStr_passwordHash {l : Registration} (plain : 0 ∉ l.password) :
    cStr l.passwordHash = l.passwordHash := by
  calc cStr l.passwordHash = config.PASSWORD_HASH_PREFIX ++ cStr l.password := rfl
    _ = l.passwordHash := by rw [cStr_eq_self plain]; rfl

/-- The check finds the name if a row has it. -/
theorem exec_userExists {shared : Shared} (plain : cStr name = name)
    (hashed : ∀ hash ∈ hashes name shared, cStr hash ≠ []) :
    Shared.exec (.repo (.userExists name)) shared = (!(hashes name shared).isEmpty, shared) := by
  have answer : ((RepoOp.userExists name).exec shared.conn) =
      (!(hashes name shared).isEmpty, shared.conn) := by
    rw [RepoOp.userExists_exec, RepoOp.getUserPasswordHash_exec, plain, ← List.head?_filter]
    have stored : ∀ u ∈ shared.conn.tables.users.filter (·.username == name),
        cStr u.passwordHash ≠ [] := fun u hu => hashed _ (List.mem_map_of_mem hu)
    unfold hashes
    revert stored
    cases shared.conn.tables.users.filter (·.username == name) with
    | nil => exact fun _ => rfl
    | cons u rest =>
      intro stored
      have some := stored u List.mem_cons_self
      simp [some]
  simp only [Shared.exec, answer]

/-- The insert succeeds if no row has the name. -/
theorem exec_addUser (shared : Shared) (plain : cStr name = name) (l : Registration) :
    let result := Shared.exec (.repo (.addUser name l.passwordHash)) shared
    result.2.objects = shared.objects ∧ result.2.queue = shared.queue ∧
      ((hashes name shared ≠ [] ∧ result.1 = false ∧
          hashes name result.2 = hashes name shared) ∨
        (hashes name shared = [] ∧ result.1 = true ∧
          hashes name result.2 = [cStr l.passwordHash])) := by
  have taken : shared.conn.tables.users.any (·.username == name) = true ↔
      hashes name shared ≠ [] := by
    rw [List.any_eq_true, ne_eq, hashes, List.map_eq_nil_iff, List.filter_eq_nil_iff]
    simp
  have inserts := RepoOp.addUser_exec shared.conn name l.passwordHash
  rw [plain] at inserts
  by_cases free : hashes name shared = []
  · rw [if_neg fun some => taken.mp some free] at inserts
    rw [Shared.exec, inserts]
    rw [hashes, List.map_eq_nil_iff] at free
    exact ⟨rfl, rfl, .inr (by simp [hashes, Conn.inserted, List.filter_append, free])⟩
  · rw [if_pos (taken.mpr free)] at inserts
    rw [Shared.exec, inserts]
    exact ⟨rfl, rfl, .inl ⟨free, rfl, rfl⟩⟩

/-! ## Runs -/

theorem step_stands {t : State} {a : Sched Registration} (plain : cStr name = name)
    (h : Stands name sh s stands) (hs : step name s a = some t) :
    ∃ stands', Stands name sh t stands' := by
  cases Threads.next_cases hs with
  | call l _ =>
    refine ⟨stands ++ [⟨l, .checks⟩], ?_, h.objects, ?_, ?_, h.one, fun none k hk => ?_⟩
    · rw [h.threads, List.map_append]
      rfl
    · simpa [List.filterMap_append, Stand.sent] using h.queue
    · simpa [List.filterMap_append, Stand.won] using h.rows
    · rcases List.mem_append.mp hk with old | new
      · exact h.undecided none k old
      · exact .inl (by rw [List.mem_singleton.mp new])
  | step i l o rest here =>
    rw [h.threads, List.getElem?_map, Option.map_eq_some_iff] at here
    obtain ⟨⟨l', point⟩, stand, same⟩ := here
    have hashed : ∀ hash ∈ hashes name s.shared, cStr hash ≠ [] := by
      intro hash hh
      obtain ⟨w, _, rfl⟩ := List.mem_map.mp (h.rows.subset hh)
      exact cStr_passwordHash_ne_nil w
    cases point with
    | checks =>
      rw [Stand.thread, Stand.rest, prog_eq] at same
      cases same
      rw [exec_userExists plain hashed]
      cases free : hashes name s.shared with
      | nil =>
        exact ⟨_, h.advance ⟨l', .adds⟩ [] stand rfl rfl (by simp [Stand.sent])
          rfl (by simp) h.one fun _ => .inr rfl⟩
      | cons hash rest =>
        exact ⟨_, h.advance ⟨l', .answers false⟩ [] stand rfl rfl
          (by simp [Stand.sent]) rfl (by simp) h.one fun none => by rw [free] at none; cases none⟩
    | adds =>
      cases same
      obtain ⟨objects, queue, result⟩ := exec_addUser s.shared plain l'
      rcases result with ⟨taken, failure, rows⟩ | ⟨free, success, row⟩
      · rw [failure]
        exact ⟨_, h.advance ⟨l', .answers false⟩ [] stand rfl objects
          (by simp [Stand.sent, queue]) rfl (by simp [rows]) (rows ▸ h.one)
          fun none => absurd (rows ▸ none) taken⟩
      · rw [success]
        exact ⟨_, h.advance ⟨l', .answers true⟩ [l'] stand rfl objects
          (by simp [Stand.sent, queue]) rfl (by simp [row, free]) (by simp [row])
          fun none => by rw [row] at none; cases none⟩
    | answers success =>
      cases same
      have there : (s.shared.objects l'.session).fileDescriptor =
          (sh.objects l'.session).fileDescriptor := by rw [h.objects]
      refine ⟨_, h.advance ⟨l', .finished success⟩ [] stand rfl rfl ?_ ?_
        (List.append_nil _).symm h.one fun none => ?_⟩
      · simp [Shared.exec, Shared.sessionOp, Shared.push, Stand.sent, answer, there]
      · cases success <;> rfl
      · rcases h.undecided none _ (List.mem_of_getElem? stand) with same | same <;> cases same
    | finished success => cases same

theorem stands_of_run (plain : cStr name = name) (fresh : ∀ u ∈ sh.conn.tables.users,
    u.username ≠ name) {schedule : List (Sched Registration)}
    (run : exec (step name) ⟨sh, []⟩ schedule = some s) : ∃ stands, Stands name sh s stands := by
  have free : hashes name sh = [] := by
    rw [hashes, List.map_eq_nil_iff, List.filter_eq_nil_iff]
    simpa using fresh
  have start : Stands name sh ⟨sh, []⟩ [] :=
    ⟨rfl, rfl, ⟨[], by simp, by simp⟩, by simp [free], by simp [free], by simp⟩
  exact invariant (I := fun s => ∃ stands, Stands name sh s stands)
    (fun _ _ _ ⟨_, hI⟩ hs => step_stands plain hI hs) ⟨[], start⟩ run

/-- A request that is over has been answered, and has won or not. -/
theorem Stand.over_of_done {k : Stand} (done : (k.thread name).Over) :
    ∃ success, k = ⟨k.label, .finished success⟩ := by
  obtain ⟨l, point⟩ := k
  obtain ⟨_, done⟩ := done
  cases point with
  | finished success => exact ⟨success, rfl⟩
  | checks => rw [Stand.thread, Stand.rest, prog_eq] at done; cases done
  | adds => cases done
  | answers success => cases done

theorem sent_of_lost (sh : Shared) (done : ∀ k ∈ stands, (k.thread name).Over)
    (lost : ∀ k ∈ stands, k.won = none) :
    stands.filterMap (·.sent sh) = (stands.map (·.label)).map (answer sh false) := by
  induction stands with
  | nil => rfl
  | cons k rest ih =>
    have tail := ih (fun j hj => done j (List.mem_cons_of_mem _ hj))
      fun j hj => lost j (List.mem_cons_of_mem _ hj)
    obtain ⟨success, same⟩ := Stand.over_of_done (done k List.mem_cons_self)
    have mine := lost k List.mem_cons_self
    rw [same] at mine
    cases success with
    | true => cases mine
    | false =>
      have here : k.sent sh = some (answer sh false k.label) := by rw [same]; rfl
      rw [List.filterMap_cons_some here, tail]
      rfl

/-- When all are over, one has won. -/
theorem Stands.winner (h : Stands name sh s stands) (done : ∀ k ∈ stands, (k.thread name).Over)
    (some : stands ≠ []) : ∃ w, stands.filterMap (·.won) = [w] ∧
      hashes name s.shared = [cStr w.passwordHash] := by
  have decided : hashes name s.shared ≠ [] := by
    intro none
    obtain ⟨k, hk⟩ := List.exists_mem_of_ne_nil stands some
    obtain ⟨success, same⟩ := Stand.over_of_done (done k hk)
    have still := h.undecided none k hk
    rw [same] at still
    rcases still with point | point <;> cases point
  have alone : (hashes name s.shared).length = 1 :=
    le_antisymm h.one (List.length_pos_of_ne_nil decided)
  obtain ⟨hash, only⟩ := List.length_eq_one_iff.mp alone
  have rows := h.rows
  rw [only, List.singleton_perm, eq_comm, List.map_eq_singleton_iff] at rows
  obtain ⟨w, winner, rfl⟩ := rows
  exact ⟨w, winner, only⟩

/-- When all requests for a free name have been handled, one of them has been told that it has
the name: the table holds one row of it, with the hash of that request (SQLite takes the hash as
a C string). -/
theorem one_registration_wins (valid : Validator.validateUsername name = true)
    (fresh : ∀ u ∈ sh.conn.tables.users, u.username ≠ name)
    {schedule : List (Sched Registration)} (run : exec (step name) ⟨sh, []⟩ schedule = some s)
    (idle : s.Idle) (some : s.threads ≠ []) :
    ∃ before winner after out, s.threads.map (·.label) = before ++ winner :: after ∧
      s.shared.queue = sh.queue ++ out ∧
      out.Perm (answer sh true winner :: (before ++ after).map (answer sh false)) ∧
      ∃ row, s.shared.conn.tables.users.filter (·.username == name) = [row] ∧
        row.passwordHash = cStr winner.passwordHash ∧
        (0 ∉ winner.password → row.passwordHash = winner.passwordHash) := by
  obtain ⟨stands, h⟩ := stands_of_run (Validator.cStr_of_bounded valid rfl) fresh run
  have done : ∀ k ∈ stands, (k.thread name).Over := fun k hk =>
    idle _ (by rw [h.threads]; exact List.mem_map_of_mem hk)
  have stand : stands ≠ [] := by
    rintro rfl
    exact some h.threads
  obtain ⟨w, winner, row⟩ := h.winner done stand
  obtain ⟨before, k, after, rfl, lost, won, rest⟩ := List.filterMap_eq_cons_iff.mp winner
  obtain ⟨out, queue, sent⟩ := h.queue
  have label : k.label = w ∧ k.sent sh = .some (answer sh true w) := by
    obtain ⟨success, same⟩ := Stand.over_of_done (done k (by simp))
    rw [same] at won ⊢
    cases success with
    | true => cases won; exact ⟨rfl, rfl⟩
    | false => cases won
  have first := sent_of_lost sh (fun j hj => done j (by simp [hj])) lost
  have last := sent_of_lost sh (fun j hj => done j (by simp [hj]))
    (List.filterMap_eq_nil_iff.mp rest)
  refine ⟨before.map (·.label), w, after.map (·.label), out, ?_, queue, ?_, ?_⟩
  · rw [h.threads]
    simp [Stand.thread, Function.comp_def, label.1]
  · rw [List.filterMap_append, List.filterMap_cons_some label.2, first, last] at sent
    rw [List.map_append]
    exact sent.trans List.perm_middle
  · obtain ⟨u, only, hash⟩ := List.map_eq_singleton_iff.mp row
    exact ⟨u, only, hash, fun plain => hash.trans (cStr_passwordHash plain)⟩

/-- Two sessions, and no account. -/
def twoSessions : Shared := ⟨{}, fun x => { fileDescriptor := x }, 2, fun _ => none, []⟩

/-- Both ask for the name `A` and find it free, and the second to ask inserts it first. -/
def bothFindFree : List (Sched Registration) :=
  [.call ⟨⟨7, 1, 1, 3⟩, [80], 0⟩, .call ⟨⟨7, 2, 2, 3⟩, [81], 1⟩, .step 0, .step 1, .step 1, .step 0,
    .step 0, .step 1]

theorem one_registration_wins_two : ∃ s before winner after out,
    exec (step [65]) ⟨twoSessions, []⟩ bothFindFree = some s ∧
    s.threads.map (·.label) = before ++ winner :: after ∧ s.shared.queue = [] ++ out ∧
    out.Perm (answer twoSessions true winner :: (before ++ after).map (answer twoSessions false)) ∧
    ∃ row : UserRow, s.shared.conn.tables.users.filter (·.username == [65]) = [row] ∧
      row.passwordHash = cStr winner.passwordHash := by
  have run : ∃ s : State, exec (step [65]) ⟨twoSessions, []⟩ bothFindFree = some s ∧ s.Idle ∧
      s.threads ≠ [] := ⟨_, rfl, Threads.idle_iff.mpr rfl, nofun⟩
  obtain ⟨s, run, idle, some⟩ := run
  have fresh : ∀ u ∈ twoSessions.conn.tables.users, u.username ≠ [65] :=
    fun u hu => absurd hu List.not_mem_nil
  obtain ⟨before, winner, after, out, labels, queue, answers, row, only, hash, -⟩ :=
    one_registration_wins (by decide) fresh run idle some
  exact ⟨s, before, winner, after, out, run, labels, queue, answers, row, only, hash⟩

end Registration

end Cvcn
