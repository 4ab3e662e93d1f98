import Cvcn.Storage.Writers

/-!
# Chats and the errors of sqlite

Calls of `findOrCreateDirectChat` one after another, in which any call of sqlite but `ROLLBACK`
may fail without effect. Each failure in the transaction rolls it back. A lookup that fails is
taken for one that has found nothing: if nothing else fails the pair gets another chat.
-/

namespace Cvcn

open Atomic Machine DirectChat

/-- A rollback is not among the calls that may fail, and those that ask the connection cannot. -/
def SqlOp.fallible : SqlOp → Bool
  | exec .rollback | lastInsertRowid | changes => false
  | _ => true

namespace Faults

/-- The calls of sqlite that may fail are numbered; `fails` says which of them do. -/
def flaky (fails : Nat → Bool) (o : SqlOp) (s : Conn × Nat) : o.Res × (Conn × Nat) :=
  if o.fallible then
    ((s.1.attempt (fails s.2) o).1, (s.1.attempt (fails s.2) o).2, s.2 + 1)
  else ((Conn.call o s.1).1, (Conn.call o s.1).2, s.2)

structure Call where
  pair : Pair
  fails : Nat → Bool

/-- The result of a call that runs alone, and the connection that it leaves. -/
def Call.run (k : Call) (c : Conn) : Int × Conn :=
  let out := (prog k.pair).run (flaky k.fails) (c, 0)
  (out.1, out.2.1)

def step (c : Conn) (k : Call) : Option Conn := some (k.run c).2

/-- A call that fails leaves the chats as they were and no transaction open, and no call adds a
chat for a pair that has one. -/
structure Sound (c : Conn) (k : Call) : Prop where
  failed : (k.run c).1 = -1 →
    (k.run c).2.tables.chats = c.tables.chats ∧
      (k.run c).2.tables.chatMembers = c.tables.chatMembers ∧ (k.run c).2.saved = none
  once : ∀ a b, a ≠ b → c.tables.chatsOfPair a b ≠ [] →
    (k.run c).2.tables.chatsOfPair a b = c.tables.chatsOfPair a b

/-- In the call's first nine calls of sqlite only the lookup, which is the second, fails. -/
def OnlyLookupFails (k : Call) : Prop := ∀ i < 9, k.fails i = true ↔ i = 1

/-- The pair of the call has a chat, and nothing but the lookup of that chat fails. -/
def MissesChat (c : Conn) (k : Call) : Prop :=
  k.pair.1 ≠ k.pair.2 ∧ c.tables.chatsOfPair k.pair.1 k.pair.2 ≠ [] ∧ OnlyLookupFails k

variable {fails : Nat → Bool} {c : Conn} {n : Nat} {base : Tables}

/-- A call of sqlite that may fail. -/
theorem run_of_next {p q : SqlProg Int} {o : SqlOp} {c' : Conn} (first : p.first = some o)
    (fallible : o.fallible = true) (moves : p.next (Conn.attempt (fails n)) c = some (q, c')) :
    p.run (flaky fails) (c, n) = q.run (flaky fails) (c', n + 1) := by
  cases p with
  | done a => cases first
  | op sql rest =>
    cases first
    cases moves
    rw [Prog.run_op, flaky, if_pos fallible]

/-- The transaction has been undone. -/
def Undone (base : Tables) (out : Int × Conn × Nat) : Prop :=
  out.1 = -1 ∧ out.2.1.tables = base ∧ out.2.1.saved = none

/-- It has been committed with a chat of these members. -/
def Made (base : Tables) (members : List Int) (out : Int × Conn × Nat) : Prop :=
  out.1 = base.chatSeq + 1 ∧ out.2.1.tables = base.withChat members ∧ out.2.1.saved = none

theorem run_rollbackThen (opened : c.saved = some base) :
    Undone base (rollbackThen.run (flaky fails) (c, n)) := by
  obtain ⟨tables, saved, rowid, changes⟩ := c
  cases opened
  exact ⟨rfl, rfl, rfl⟩

theorem attempt_false : Conn.attempt false = Conn.call := rfl

/-- A step that succeeds, or fails. -/
theorem run_point (fails : Nat → Bool) (n : Nat) {p q r : SqlProg Int} (o : SqlOp) {c' d : Conn}
    (first : p.first = some o) (fallible : o.fallible = true)
    (succeeds : p.next Conn.call c = some (q, c'))
    (breaks : p.next (Conn.attempt true) c = some (r, d)) :
    p.run (flaky fails) (c, n) =
      if fails n then r.run (flaky fails) (d, n + 1) else q.run (flaky fails) (c', n + 1) := by
  cases h : fails n with
  | true => exact run_of_next first fallible (h ▸ breaks)
  | false => exact run_of_next first fallible (h ▸ attempt_false ▸ succeeds)

/-- None of the calls from `n` to `m` fails. -/
def Fine (fails : Nat → Bool) (n m : Nat) : Prop := ∀ i, n ≤ i → i < m → fails i = false

theorem fine_succ {m : Nat} (less : n < m) :
    Fine fails n m ↔ fails n = false ∧ Fine fails (n + 1) m := by
  constructor
  · exact fun h => ⟨h n (Nat.le_refl n) less, fun i le lt => h i (by omega) lt⟩
  · rintro ⟨now, later⟩ i le lt
    by_cases same : i = n
    · exact same ▸ now
    · exact later i (by omega) lt

theorem fine_succ_succ {m : Nat} (less : n + 1 < m) (first : fails n = false)
    (second : fails (n + 1) = false) : Fine fails n m ↔ Fine fails (n + 1 + 1) m := by
  rw [fine_succ (by omega), fine_succ less]
  simp [first, second]

theorem not_fine {i m : Nat} (failed : fails i = true) (le : n ≤ i) (less : i < m) :
    ¬ Fine fails n m := by
  intro fine
  cases failed.symm.trans (fine i le less)

/-- The loop over the members and the commit. The chat is made if nothing fails and no member
is there twice. -/
theorem run_membersThen (fails : Nat → Bool) (n : Nat) (us : List Int) (wf : base.WellFormed)
    {ins : List Int} (nodup : ins.Nodup) (opened : c.saved = some base)
    (tables : c.tables = base.withChat ins) :
    let out := (membersThen (base.chatSeq + 1) us).run (flaky fails) (c, n)
    let works := (ins ++ us).Nodup ∧ Fine fails n (n + 2 * us.length + 1)
    (works ∧ Made base (ins ++ us) out) ∨ (¬ works ∧ Undone base out) := by
  induction us generalizing ins n c with
  | nil =>
    have commits := next_commit c (base.chatSeq + 1)
    rw [if_pos (by rw [opened]; rfl)] at commits
    have run := run_point fails n (.exec .commit) rfl rfl commits
      (Writers.fails_commit c (base.chatSeq + 1))
    dsimp only
    rw [run]
    cases h : fails n with
    | true =>
      refine .inr ⟨fun works => ?_, run_rollbackThen opened⟩
      exact not_fine h (Nat.le_refl n) (by omega) works.2
    | false =>
      refine .inl ⟨⟨by simpa using nodup, fun i le lt => ?_⟩, rfl, ?_, rfl⟩
      · obtain rfl : i = n := by simp at lt; omega
        exact h
      · rw [List.append_nil]
        exact tables
  | cons u us ih =>
    have prepares := run_point fails n (.prepare (.insertMember _ u)) rfl rfl
      (next_membersThen c (base.chatSeq + 1) u us)
      (Writers.fails_membersThen c (base.chatSeq + 1) u us)
    have inserts := next_memberThen c (base.chatSeq + 1) u us
    dsimp only
    rw [prepares]
    cases h : fails n with
    | true =>
      refine .inr ⟨fun works => ?_, run_rollbackThen opened⟩
      exact not_fine h (Nat.le_refl n) (by omega) works.2
    | false =>
      rw [if_neg Bool.false_ne_true]
      rcases write_member wf tables u with ⟨hu, rejected⟩ | ⟨hu, d, written, saved, tables'⟩
      · rw [rejected] at inserts
        have run := run_point fails (n + 1) (.step (.insertMember _ u)) rfl rfl
          inserts (Writers.fails_memberThen c (base.chatSeq + 1) u us)
        rw [run, ite_self]
        refine .inr ⟨fun works => ?_, run_rollbackThen opened⟩
        exact (List.nodup_append.mp works.1).2.2 u hu u List.mem_cons_self rfl
      · rw [written] at inserts
        have run := run_point fails (n + 1) (.step (.insertMember _ u)) rfl rfl
          inserts (Writers.fails_memberThen c (base.chatSeq + 1) u us)
        rw [run]
        cases h' : fails (n + 1) with
        | true =>
          refine .inr ⟨fun works => ?_, run_rollbackThen opened⟩
          exact not_fine h' (by omega) (by rw [List.length_cons]; omega) works.2
        | false =>
          have nodup' : (ins ++ [u]).Nodup := by
            refine List.nodup_append.mpr ⟨nodup, List.nodup_singleton u, fun a ha b hb => ?_⟩
            rintro rfl
            exact hu (List.mem_singleton.mp hb ▸ ha)
          have rest := ih nodup' (saved.trans opened) tables' (n := n + 1 + 1)
          have size : n + 1 + 1 + 2 * us.length + 1 = n + 2 * (u :: us).length + 1 := by
            rw [List.length_cons]
            omega
          have fine : Fine fails n (n + 2 * (u :: us).length + 1) ↔
              Fine fails (n + 1 + 1) (n + 2 * (u :: us).length + 1) :=
            fine_succ_succ (by rw [List.length_cons]; omega) h h'
          rw [List.append_assoc, List.singleton_append, size, ← fine] at rest
          exact rest

/-- The call asks for the id of the chat that it has inserted. -/
theorem run_rowidThen (fails : Nat → Bool) (n : Nat) {id : Int} (p : Pair)
    (int : toInt32 c.lastInsertRowid = id) :
    (rowidThen p).run (flaky fails) (c, n) =
      (membersThen id [p.1, p.2]).run (flaky fails) (c, n) := by
  subst int
  rfl

/-- From `BEGIN` on. -/
theorem run_createThen (fails : Nat → Bool) (n : Nat) (wf : c.tables.WellFormed)
    (small : c.tables.chatSeq + 1 < 2 ^ 31) (closed : c.saved = none) (p : Pair) :
    let out := (createThen p).run (flaky fails) (c, n)
    let works := p.1 ≠ p.2 ∧ Fine fails n (n + 7)
    (works ∧ Made c.tables [p.1, p.2] out) ∨ (¬ works ∧ Undone c.tables out) := by
  have begins := next_createThen c p
  rw [closed, if_neg (by simp)] at begins
  have opens := run_point fails n (.exec .begin) rfl rfl begins
    (Writers.fails_createThen c p)
  have inserts := run_point fails (n + 1) (.exec .insertChat) rfl rfl
    (next_insertThen { c with saved := some c.tables } p)
    (Writers.fails_insertThen { c with saved := some c.tables } p)
  dsimp only
  rw [opens, inserts]
  cases h : fails n with
  | true =>
    refine .inr ⟨fun works => ?_, rfl, rfl, closed⟩
    exact not_fine h (Nat.le_refl n) (by omega) works.2
  | false =>
    cases h' : fails (n + 1) with
    | true =>
      refine .inr ⟨fun works => ?_, run_rollbackThen rfl⟩
      exact not_fine h' (by omega) (by omega) works.2
    | false =>
      have distinct : ([] ++ [p.1, p.2] : List Int).Nodup ↔ p.1 ≠ p.2 := by simp
      have rest := run_membersThen fails (n + 1 + 1) [p.1, p.2] wf List.nodup_nil
        (c := { c with saved := some c.tables }.inserted (c.tables.withChat [])
          (c.tables.chatSeq + 1)) rfl rfl
      have int : toInt32 (c.tables.chatSeq + 1) = c.tables.chatSeq + 1 := by
        have := wf.seq
        exact toInt32_of_range (by omega) small
      dsimp only at rest
      rw [distinct, ← run_rowidThen _ _ _ int] at rest
      rw [fine_succ_succ (by omega) h h']
      exact rest

/-- What has to come together for a call to make a chat. -/
def Makes (c : Conn) (k : Call) : Prop :=
  k.pair.1 ≠ k.pair.2 ∧ (c.tables.directChats k.pair.1 k.pair.2 = [] ∨ k.fails 1 = true) ∧
    k.fails 0 = false ∧ Fine k.fails 2 9

/-- The lookup, which the call goes on from if it has found nothing or has failed. -/
theorem run_lookup (wf : c.tables.WellFormed) (small : c.tables.chatSeq + 1 < 2 ^ 31) (p : Pair) :
    (lookup p).run (flaky fails) (c, n) =
      if c.tables.directChats p.1 p.2 = [] ∨ fails n = true then
        (createThen p).run (flaky fails) (c, n + 1)
      else (((c.tables.directChats p.1 p.2).head?.map (·.id)).getD 0, c, n + 1) := by
  have first : (lookup p).first = some (.step (.findDirectChat p.1 p.2)) := rfl
  cases h : fails n with
  | true =>
    rw [if_pos (.inr rfl)]
    exact run_of_next first rfl (h ▸ Writers.fails_lookup c p)
  | false =>
    have moves := next_lookup c p
    rw [← attempt_false, ← h] at moves
    cases chats : c.tables.directChats p.1 p.2 with
    | nil =>
      rw [chats] at moves
      rw [if_pos (.inl rfl)]
      exact run_of_next first rfl moves
    | cons d ds =>
      have found : d ∈ c.tables.directChats p.1 p.2 := chats ▸ List.mem_cons_self
      have positive := wf.pos d (List.mem_of_mem_filter found)
      have bound := wf.chatBound d (List.mem_of_mem_filter found)
      have int : toInt32 d.id = d.id := toInt32_of_range (by omega) (by omega)
      have known : (d.id != -1) = true := by
        rw [bne_iff_ne]
        omega
      rw [chats] at moves
      simp only [int, known, if_true] at moves
      rw [if_neg (by simp), run_of_next first rfl moves]
      rfl

/-- A call makes a chat or changes nothing. -/
theorem call_cases (wf : c.tables.WellFormed) (small : c.tables.chatSeq + 1 < 2 ^ 31)
    (closed : c.saved = none) (k : Call) :
    (Makes c k ∧ (k.run c).1 = c.tables.chatSeq + 1 ∧
      (k.run c).2.tables = c.tables.withChat [k.pair.1, k.pair.2] ∧ (k.run c).2.saved = none) ∨
    (¬ Makes c k ∧ (k.run c).2.tables = c.tables ∧ (k.run c).2.saved = none) := by
  have prepares := run_point k.fails 0 (.prepare (.findDirectChat _ _)) rfl rfl
    (next_prog c k.pair) (Writers.fails_prog c k.pair)
  simp only [Call.run, prepares]
  cases h : k.fails 0 with
  | true =>
    refine .inr ⟨fun makes => ?_, rfl, closed⟩
    cases h.symm.trans makes.2.2.1
  | false =>
    simp only [Bool.false_eq_true, if_false, run_lookup wf small]
    by_cases unknown : c.tables.directChats k.pair.1 k.pair.2 = [] ∨ k.fails 1 = true
    · simp only [if_pos unknown]
      rcases run_createThen k.fails 2 wf small closed k.pair with
        ⟨⟨distinct, fine⟩, made⟩ | ⟨breaks, undone⟩
      · exact .inl ⟨⟨distinct, unknown, h, fine⟩, made⟩
      · exact .inr ⟨fun makes => breaks ⟨makes.1, makes.2.2.2⟩, undone.2⟩
    · rw [if_neg unknown]
      exact .inr ⟨fun makes => unknown makes.2.1, rfl, closed⟩

theorem onlyLookupFails {k : Call} (makes : Makes c k) (failed : k.fails 1 = true) :
    OnlyLookupFails k := by
  obtain ⟨-, -, first, fine⟩ := makes
  intro i small
  by_cases lookup : i = 1
  · simp [lookup, failed]
  · have works : k.fails i = false := by
      by_cases zero : i = 0
      · exact zero ▸ first
      · exact fine i (by omega) small
    simp [lookup, works]

theorem makes_of_only {k : Call} (distinct : k.pair.1 ≠ k.pair.2) (only : OnlyLookupFails k) :
    Makes c k := by
  have works (i : Nat) (small : i < 9) (other : i ≠ 1) : k.fails i = false := by
    rw [← Bool.not_eq_true, only i small]
    exact other
  exact ⟨distinct, .inr ((only 1 (by omega)).mpr rfl), works 0 (by omega) (by omega),
    fun i le lt => works i lt (by omega)⟩

/-- A call is sound exactly if it does not miss the chat that its pair has. -/
theorem sound_iff (wf : c.tables.WellFormed) (small : c.tables.chatSeq + 1 < 2 ^ 31)
    (closed : c.saved = none) (k : Call) : Sound c k ↔ ¬ MissesChat c k := by
  rcases call_cases wf small closed k with ⟨makes, result, tables, -⟩ | ⟨keeps, tables, saved⟩
  · constructor
    · rintro sound ⟨distinct, has, -⟩
      have same := sound.once _ _ distinct has
      rw [tables, Tables.chatsOfPair_eq _ distinct, Tables.chatsOfPair_eq _ distinct,
        Tables.directChats_withChat wf] at same
      simp at same
    · intro finds
      have fresh : c.tables.directChats k.pair.1 k.pair.2 = [] := by
        rcases makes.2.1 with none | failed
        · exact none
        · by_contra has
          rw [← Tables.chatsOfPair_eq _ makes.1] at has
          exact finds ⟨makes.1, has, onlyLookupFails makes failed⟩
      refine ⟨fun failed => ?_, fun a b distinct has => ?_⟩
      · have positive := wf.seq
        omega
      · rw [tables, Tables.chatsOfPair_eq _ distinct, Tables.chatsOfPair_eq _ distinct,
          Tables.directChats_withChat wf]
        rw [Tables.chatsOfPair_eq _ distinct] at has
        split
        · rename_i members
          rcases Tables.pair_of_contains distinct members with ⟨rfl, rfl⟩ | ⟨rfl, rfl⟩
          · exact absurd fresh has
          · exact absurd (Tables.directChats_comm _ _ _ ▸ fresh) has
        · exact List.append_nil _
  · constructor
    · rintro - ⟨distinct, has, only⟩
      exact keeps (makes_of_only distinct only)
    · intro _
      exact ⟨fun _ => ⟨by rw [tables], by rw [tables], saved⟩, fun a b _ _ => by rw [tables]⟩

/-- Between two calls no transaction is open. -/
structure Inv (c : Conn) : Prop where
  wellFormed : c.tables.WellFormed
  closed : c.saved = none

/-- The next chat has an id that is an `int`. -/
def SmallID (c : Conn) (_ : Call) : Prop := c.tables.chatSeq + 1 < 2 ^ 31

theorem step_inv {c c' : Conn} {k : Call} (h : Inv c) (small : SmallID c k)
    (hs : step c k = some c') : Inv c' := by
  cases hs
  rcases call_cases h.wellFormed small h.closed k with ⟨_, _, tables, saved⟩ | ⟨_, tables, saved⟩
  · exact ⟨tables ▸ Tables.withChat_wellFormed h.wellFormed _, saved⟩
  · exact ⟨tables ▸ h.wellFormed, saved⟩

/-- In a run of calls with any failures, made while the ids of chats are `int`s, all are sound
exactly if none of them misses the chat that its pair has: a lookup that fails, with nothing else
that does. -/
theorem chats_survive_faults_iff {c : Conn} (wf : c.tables.WellFormed) (closed : c.saved = none)
    (calls : List Call) (ids : Along step SmallID c calls) :
    Along step Sound c calls ↔ Along step (fun c k => ¬ MissesChat c k) c calls := by
  have start : Inv c := ⟨wf, closed⟩
  constructor
  · intro sound
    exact (ids.and sound).along
      (fun _ k h sound => (sound_iff h.wellFormed sound.1 h.closed k).mp sound.2)
      (fun _ _ _ h sound hs => step_inv h sound.1 hs) start
  · intro finds
    exact (ids.and finds).along
      (fun _ k h finds => (sound_iff h.wellFormed finds.1 h.closed k).mpr finds.2)
      (fun _ _ _ h finds hs => step_inv h finds.1 hs) start

/-- A chat of the users 1 and 2. -/
def oneChat : Conn :=
  { tables := { chats := [⟨1, false⟩], chatMembers := [⟨1, 1⟩, ⟨1, 2⟩], chatSeq := 1 } }

theorem chats_survive_commit : Along step Sound oneChat [⟨(1, 3), fun i => i = 8⟩] := by
  have wf : oneChat.tables.WellFormed := ⟨by decide, by decide, by decide, by decide⟩
  refine (chats_survive_faults_iff wf rfl [_]
    ⟨(by decide : (1 : Int) + 1 < 2 ^ 31), fun _ _ => trivial⟩).mpr
    ⟨?_, fun _ _ => trivial⟩
  rintro ⟨-, has, -⟩
  exact has (by decide)

theorem lookup_fault_duplicates_chat :
    ¬ Along step Sound oneChat [⟨(1, 2), fun i => i = 1⟩] := by
  rintro ⟨sound, -⟩
  have same := sound.once 1 2 (by decide) (by decide)
  revert same
  decide

end Faults

end Cvcn
