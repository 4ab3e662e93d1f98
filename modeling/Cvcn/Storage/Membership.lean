import Cvcn.Storage.Writers

/-!
# Who gets into a chat

A call that makes a chat learns its id from the connection, where any insert of another call in
between leaves another rowid, and casts it to `int`. When each call is told the id of its own chat,
members are only added to the caller's own chat, and a chat that was returned has the two users and
nobody else. An insert in between adds strangers to a private chat.
-/

namespace Cvcn

open Atomic Machine DirectChat

/-- The tables have the same members of chats, and the same last chat. -/
structure Tables.SameMembers (t t' : Tables) : Prop where
  members : t'.chatMembers = t.chatMembers
  seq : t'.chatSeq = t.chatSeq

/-- The tables as they are, or with the next chat and some of its members. -/
def Tables.Grown (t t' : Tables) : Prop :=
  t.SameMembers t' ∨ ∃ members, (t.withChat members).SameMembers t'

/-- The chat was given out, and the users of the pair are its members. -/
structure Tables.HasPair (t : Tables) (p : Pair) (chatID : Int) : Prop where
  members : (t.membersOf chatID).Perm [p.1, p.2]
  given : chatID ≤ t.chatSeq

namespace Tables

variable {t t' t'' : Tables} {p : Pair} {chatID : Int}

theorem SameMembers.refl (t : Tables) : t.SameMembers t := ⟨rfl, rfl⟩

theorem SameMembers.trans (h : t.SameMembers t') (h' : t'.SameMembers t'') :
    t.SameMembers t'' := ⟨h'.members.trans h.members, h'.seq.trans h.seq⟩

theorem SameMembers.bounded (h : t.SameMembers t') (bound : t.Bounded) : t'.Bounded := by
  intro m hm
  rw [h.members] at hm
  rw [h.seq]
  exact bound m hm

theorem SameMembers.hasPair (h : t.SameMembers t') (pair : t.HasPair p chatID) :
    t'.HasPair p chatID where
  members := by
    rw [membersOf, h.members]
    exact pair.members
  given := h.seq ▸ pair.given

theorem HasPair.withChat (pair : t.HasPair p chatID) (members : List Int) :
    (t.withChat members).HasPair p chatID where
  members := by
    rw [membersOf_withChat_old (by have := pair.given; omega)]
    exact pair.members
  given := by
    have := pair.given
    simp only [Tables.withChat]
    omega

theorem Grown.bounded (h : t.Grown t') (bound : t.Bounded) : t'.Bounded := by
  rcases h with same | ⟨members, same⟩
  · exact same.bounded bound
  · exact same.bounded (bound.withChat members)

theorem Grown.hasPair (h : t.Grown t') (pair : t.HasPair p chatID) : t'.HasPair p chatID := by
  rcases h with same | ⟨members, same⟩
  · exact same.hasPair pair
  · exact same.hasPair (pair.withChat members)

end Tables

open Tables

/-- The methods other than the one that makes chats leave the members alone. -/
theorem Conn.write_sameMembers {c c' : Conn} {sql : Stmt} (hw : c.write sql = some c')
    {o : RepoOp} (executes : o.Executes sql) (other : ∀ a b, o ≠ .findOrCreateDirectChat a b) :
    c.tables.SameMembers c'.tables ∧ c'.saved = c.saved := by
  cases sql with
  | insertUser =>
    simp only [write] at hw
    split at hw
    · cases hw
    · cases hw
      exact ⟨⟨rfl, rfl⟩, rfl⟩
  | insertChat | insertMember | begin | commit | rollback =>
    cases o with
    | findOrCreateDirectChat a b => exact absurd rfl (other a b)
    | _ => cases executes
  | _ =>
    cases hw
    exact ⟨⟨rfl, rfl⟩, rfl⟩

namespace Writers

/-- A call that asks for the rowid of the last insert gets, cast, the id of its own chat. -/
def readsOwn (s : State) : Action → Bool
  | .call _ => true
  | .step i _ =>
    match s.calls[i]? with
    | some ⟨_, .op .lastInsertRowid _, chatRow⟩ => chatRow == some (toInt32 s.conn.lastInsertRowid)
    | _ => true

/-- A member that is inserted is one of the caller's two users, into the caller's own chat. -/
def AddsOwn (s : State) : Action → Prop
  | .call _ => True
  | .step i _ => ∀ k sql chatID userID, s.calls[i]? = some k → k.rest.first = some sql →
      sql.statement = some (.insertMember chatID userID) →
      k.chatRow = some chatID ∧
        ∃ a b, k.op = .findOrCreateDirectChat a b ∧ (userID = a ∨ userID = b)

/-- The result of a call that has inserted a chat, when positive, is the id of that chat. -/
def ReturnsOwn (t : Tables) (p : Pair) (chatRow : Option Int) (result : Int) : Prop :=
  ∀ chatID, chatRow = some chatID → 0 < result → result = chatID ∧ t.HasPair p result

/-- The points of a call that has no transaction. -/
inductive Outside (t : Tables) : Call → Prop where
  | other (o : RepoOp) (rest : SqlProg o.Res) (chatRow : Option Int)
    (other : ∀ a b, o ≠ .findOrCreateDirectChat a b) : Outside t ⟨o, rest, chatRow⟩
  | prog (a b : Int) : Outside t ⟨.findOrCreateDirectChat a b, DirectChat.prog (a, b), none⟩
  | lookup (a b : Int) : Outside t ⟨.findOrCreateDirectChat a b, DirectChat.lookup (a, b), none⟩
  | create (a b : Int) : Outside t ⟨.findOrCreateDirectChat a b, createThen (a, b), none⟩
  | ended (a b : Int) (result : Int) (chatRow : Option Int)
    (own : ReturnsOwn t (a, b) chatRow result) :
    Outside t ⟨.findOrCreateDirectChat a b, .done result, chatRow⟩

/-- The points of a call in its transaction, `base` being the tables at `BEGIN`. -/
inductive Inside (base t : Tables) : Call → Prop where
  | insert (a b : Int) (same : base.SameMembers t) :
    Inside base t ⟨.findOrCreateDirectChat a b, insertThen (a, b), none⟩
  | rowid (a b : Int) (same : (base.withChat []).SameMembers t) :
    Inside base t ⟨.findOrCreateDirectChat a b, rowidThen (a, b), some (base.chatSeq + 1)⟩
  | members (a b : Int) (ins us : List Int) (all : ins ++ us = [a, b])
    (same : (base.withChat ins).SameMembers t) :
    Inside base t ⟨.findOrCreateDirectChat a b, membersThen (base.chatSeq + 1) us,
      some (base.chatSeq + 1)⟩
  | member (a b : Int) (ins us : List Int) (u : Int) (all : ins ++ u :: us = [a, b])
    (same : (base.withChat ins).SameMembers t) :
    Inside base t ⟨.findOrCreateDirectChat a b, memberThen (base.chatSeq + 1) u us,
      some (base.chatSeq + 1)⟩
  | rollback (a b : Int) (chatRow : Option Int) (grown : base.Grown t) :
    Inside base t ⟨.findOrCreateDirectChat a b, rollbackThen, chatRow⟩

theorem Outside.grown {t t' : Tables} {k : Call} (h : Outside t k) (grown : t.Grown t') :
    Outside t' k := by
  cases h with
  | other o rest chatRow other => exact .other o rest chatRow other
  | prog a b => exact .prog a b
  | lookup a b => exact .lookup a b
  | create a b => exact .create a b
  | ended a b result chatRow own =>
    apply Outside.ended
    intro chatID made positive
    obtain ⟨rfl, pair⟩ := own chatID made positive
    exact ⟨rfl, grown.hasPair pair⟩

theorem Inside.same {base t t' : Tables} {k : Call} (h : Inside base t k)
    (same : t.SameMembers t') : Inside base t' k := by
  cases h with
  | insert a b here => exact .insert a b (here.trans same)
  | rowid a b here => exact .rowid a b (here.trans same)
  | members a b ins us all here => exact .members a b ins us all (here.trans same)
  | member a b ins us u all here => exact .member a b ins us u all (here.trans same)
  | rollback a b chatRow grown =>
    apply Inside.rollback
    rcases grown with here | ⟨ins, here⟩
    · exact .inl (here.trans same)
    · exact .inr ⟨ins, here.trans same⟩

theorem Inside.grown {base t : Tables} {k : Call} (h : Inside base t k) : base.Grown t := by
  cases h with
  | insert a b same => exact .inl same
  | rowid a b same => exact .inr ⟨[], same⟩
  | members a b ins us all same | member a b ins us u all same => exact .inr ⟨ins, same⟩
  | rollback a b chatRow grown => exact grown

section Step

variable {fails : Bool} {k : Call} {sql : SqlOp} {rest : SqlProg k.op.Res} {c c' : Conn}

/-- A call without a transaction changes no member, unless it is a `BEGIN` that succeeds. -/
theorem Outside.step {t : Tables} (h : Outside t k) (performs : k.rest.Only k.op.Performs)
    (first : k.rest.first = some sql) (left : (c.attempt fails sql).2 = c')
    (moves : k.rest.next (Conn.attempt fails) c = some (rest, c')) :
    (c.tables.SameMembers c'.tables ∧ c'.saved = c.saved ∧
      Outside t ⟨k.op, rest, madeRow fails sql c' k.chatRow⟩) ∨
    (c.saved = none ∧ c' = { c with saved := some c.tables } ∧
      Inside c.tables c.tables ⟨k.op, rest, madeRow fails sql c' k.chatRow⟩) := by
  cases h with
  | other o rest' chatRow other =>
    refine .inl ?_
    have quiet : c.tables.SameMembers c'.tables ∧ c'.saved = c.saved := by
      rcases Conn.attempt_cases fails sql c with ⟨same, _⟩ | ⟨_, stmt, executed, written⟩
      · rw [← left, same]
        exact ⟨⟨by simp, by simp⟩, by simp⟩
      · rw [left] at written
        exact Conn.write_sameMembers written ((performs.first first).executes executed) other
    exact ⟨quiet.1, quiet.2, .other o _ _ other⟩
  | prog a b =>
    cases first
    cases fails with
    | true =>
      cases (fails_prog c (a, b)).symm.trans moves
      exact .inl ⟨.refl _, rfl, .ended a b _ none nofun⟩
    | false =>
      cases (next_prog c (a, b)).symm.trans moves
      exact .inl ⟨.refl _, rfl, .lookup a b⟩
  | lookup a b =>
    cases first
    cases fails with
    | true =>
      cases (fails_lookup c (a, b)).symm.trans moves
      exact .inl ⟨.refl _, rfl, .create a b⟩
    | false =>
      have answer := (next_lookup c (a, b)).symm.trans moves
      split at answer
      · cases answer
        refine .inl ⟨.refl _, rfl, ?_⟩
        split
        · exact .ended a b _ none nofun
        · exact .create a b
      · cases answer
        exact .inl ⟨.refl _, rfl, .create a b⟩
  | create a b =>
    cases first
    cases fails with
    | true =>
      cases (fails_createThen c (a, b)).symm.trans moves
      exact .inl ⟨.refl _, rfl, .ended a b _ none nofun⟩
    | false =>
      have begins := (next_createThen c (a, b)).symm.trans moves
      split at begins
      · cases begins
        exact .inl ⟨.refl _, rfl, .ended a b _ none nofun⟩
      · rename_i free
        cases begins
        exact .inr ⟨by simpa using free, rfl, .insert a b (.refl _)⟩
  | ended => cases first

/-- A member that is inserted is the next of the new chat. -/
theorem write_insertMember {base : Tables} {ins : List Int} {u : Int} {d : Conn}
    (same : (base.withChat ins).SameMembers c.tables)
    (written : c.write (.insertMember (base.chatSeq + 1) u) = some d) :
    (base.withChat (ins ++ [u])).SameMembers d.tables ∧ d.saved = c.saved := by
  simp only [Conn.write] at written
  split at written
  · cases written
  · cases written
    exact ⟨⟨by simp [Conn.inserted, same.members, withChat], same.seq⟩, rfl⟩

/-- A call that was in its transaction is in it still, or has ended it with a chat of its own or
with nothing. -/
def Moved (base : Tables) (c : Conn) (k : Call) : Prop :=
  base.Grown c.tables ∧
    ((c.saved = some base ∧ Inside base c.tables k) ∨ Outside c.tables k)

section Points

variable {a b : Int} {ins us : List Int} {base : Tables} {more : SqlProg Int}
  (saved : c.saved = some base)
include saved

theorem moved_rollback (row : Option Int) (grown : base.Grown c.tables) :
    Moved base c ⟨.findOrCreateDirectChat a b, rollbackThen, row⟩ :=
  ⟨grown, .inl ⟨saved, .rollback a b row grown⟩⟩

theorem insertThen_moved (same : base.SameMembers c.tables)
    (moves : (insertThen (a, b)).next (Conn.attempt fails) c = some (more, c')) :
    Moved base c' ⟨.findOrCreateDirectChat a b, more,
      madeRow fails (.exec .insertChat) c' none⟩ := by
  cases fails with
  | true =>
    cases (fails_insertThen c (a, b)).symm.trans moves
    exact moved_rollback saved _ (.inl same)
  | false =>
    cases (next_insertThen c (a, b)).symm.trans moves
    have made : (base.withChat []).SameMembers (c.tables.withChat []) :=
      ⟨by simp [withChat, same.members], by simp [withChat, same.seq]⟩
    have row : c.tables.chatSeq + 1 = base.chatSeq + 1 := by rw [same.seq]
    refine ⟨.inr ⟨[], made⟩, .inl ⟨saved, ?_⟩⟩
    have inside := Inside.rowid a b made
    rw [← row] at inside
    exact inside

/-- It is told the rowid of the chat that it has inserted. -/
theorem rowidThen_moved (same : (base.withChat []).SameMembers c.tables)
    (row : base.chatSeq + 1 = toInt32 c.lastInsertRowid)
    (moves : (rowidThen (a, b)).next (Conn.attempt fails) c = some (more, c')) :
    Moved base c' ⟨.findOrCreateDirectChat a b, more,
      madeRow fails .lastInsertRowid c' (some (base.chatSeq + 1))⟩ := by
  have moved : (rowidThen (a, b)).next (Conn.attempt fails) c =
      some (membersThen (toInt32 c.lastInsertRowid) [a, b], c) := by cases fails <;> rfl
  cases moved.symm.trans moves
  have inside := Inside.members a b [] [a, b] rfl same
  rw [row] at inside
  have kept : madeRow fails .lastInsertRowid c (some (toInt32 c.lastInsertRowid)) =
      some (toInt32 c.lastInsertRowid) := by cases fails <;> rfl
  refine ⟨.inr ⟨[], same⟩, .inl ⟨saved, ?_⟩⟩
  simp only [row, kept]
  exact inside

/-- Both members are in. -/
theorem commitThen_moved (bound : base.Bounded)
    (same : (base.withChat [a, b]).SameMembers c.tables)
    (moves : (membersThen (base.chatSeq + 1) []).next (Conn.attempt fails) c = some (more, c')) :
    Moved base c' ⟨.findOrCreateDirectChat a b, more,
      madeRow fails (.exec .commit) c' (some (base.chatSeq + 1))⟩ := by
  cases fails with
  | true =>
    cases (fails_commit c _).symm.trans moves
    exact moved_rollback saved _ (.inr ⟨[a, b], same⟩)
  | false =>
    have commits := (next_commit c _).symm.trans moves
    rw [saved] at commits
    cases commits
    have pair : (base.withChat [a, b]).HasPair (a, b) (base.chatSeq + 1) :=
      ⟨membersOf_withChat_new bound [a, b], Int.le_refl _⟩
    refine ⟨.inr ⟨[a, b], same⟩, .inr (.ended a b _ _ fun chatID made _ => ?_)⟩
    cases made
    exact ⟨rfl, same.hasPair pair⟩

theorem membersThen_moved {u : Int} (all : ins ++ u :: us = [a, b])
    (same : (base.withChat ins).SameMembers c.tables)
    (moves : (membersThen (base.chatSeq + 1) (u :: us)).next (Conn.attempt fails) c =
      some (more, c')) :
    Moved base c' ⟨.findOrCreateDirectChat a b, more, some (base.chatSeq + 1)⟩ := by
  cases fails with
  | true =>
    cases (fails_membersThen c _ u us).symm.trans moves
    exact moved_rollback saved _ (.inr ⟨ins, same⟩)
  | false =>
    cases (next_membersThen c _ u us).symm.trans moves
    exact ⟨.inr ⟨ins, same⟩, .inl ⟨saved, .member a b ins us u all same⟩⟩

/-- A member who is there already has the transaction undone. -/
theorem memberThen_moved {u : Int} (all : ins ++ u :: us = [a, b])
    (same : (base.withChat ins).SameMembers c.tables)
    (moves : (memberThen (base.chatSeq + 1) u us).next (Conn.attempt fails) c =
      some (more, c')) :
    Moved base c' ⟨.findOrCreateDirectChat a b, more, some (base.chatSeq + 1)⟩ := by
  cases fails with
  | true =>
    cases (fails_memberThen c _ u us).symm.trans moves
    exact moved_rollback saved _ (.inr ⟨ins, same⟩)
  | false =>
    have inserts := (next_memberThen c (base.chatSeq + 1) u us).symm.trans moves
    cases written : c.write (.insertMember (base.chatSeq + 1) u) with
    | none =>
      rw [written] at inserts
      cases inserts
      exact moved_rollback saved _ (.inr ⟨ins, same⟩)
    | some d =>
      rw [written] at inserts
      cases inserts
      obtain ⟨added, opened⟩ := write_insertMember same written
      refine ⟨.inr ⟨_, added⟩, .inl ⟨opened.trans saved, ?_⟩⟩
      refine .members a b (ins ++ [u]) us ?_ added
      rw [← all, List.append_assoc, List.singleton_append]

theorem rollbackThen_moved (row : Option Int) (grown : base.Grown c.tables)
    (moves : rollbackThen.next (Conn.attempt fails) c = some (more, c')) :
    Moved base c' ⟨.findOrCreateDirectChat a b, more, row⟩ := by
  have nothing : ∀ t, ReturnsOwn t (a, b) row (-1) :=
    fun _ _ _ positive => absurd positive (by decide)
  cases fails with
  | true =>
    cases (fails_rollbackThen c).symm.trans moves
    exact ⟨grown, .inr (.ended a b _ _ (nothing _))⟩
  | false =>
    have undoes := (next_rollbackThen c).symm.trans moves
    rw [saved] at undoes
    cases undoes
    exact ⟨.inl (.refl base), .inr (.ended a b _ _ (nothing _))⟩

end Points

/-- A call in its transaction moves. -/
theorem Inside.step {base : Tables} (bound : base.Bounded) (saved : c.saved = some base)
    (h : Inside base c.tables k) (first : k.rest.first = some sql)
    (own : sql = .lastInsertRowid → k.chatRow = some (toInt32 c.lastInsertRowid))
    (moves : k.rest.next (Conn.attempt fails) c = some (rest, c')) :
    Moved base c' ⟨k.op, rest, madeRow fails sql c' k.chatRow⟩ := by
  have kept {sql : SqlOp} (other : sql ≠ .exec .insertChat) (row : Option Int) :
      madeRow fails sql c' row = row := by simp [madeRow, other]
  cases h with
  | insert a b same =>
    cases first
    exact insertThen_moved saved same moves
  | rowid a b same =>
    cases first
    exact rowidThen_moved saved same (Option.some.inj (own rfl)) moves
  | members a b ins us all same =>
    cases us with
    | nil =>
      cases first
      rw [List.append_nil] at all
      subst all
      exact commitThen_moved saved bound same moves
    | cons u us =>
      cases first
      rw [kept (by simp)]
      exact membersThen_moved saved all same moves
  | member a b ins us u all same =>
    cases first
    rw [kept (by simp)]
    exact memberThen_moved saved all same moves
  | rollback a b chatRow grown =>
    cases first
    rw [kept (by simp)]
    exact rollbackThen_moved saved chatRow grown moves

/-- A member is inserted inside a transaction only, and into the chat made there. -/
theorem Inside.adds {base t : Tables} {stmt : SqlOp} (h : Inside base t k)
    (first : k.rest.first = some stmt) {chatID userID : Int}
    (inserts : stmt.statement = some (.insertMember chatID userID)) :
    k.chatRow = some chatID := by
  cases h with
  | members a b ins us => cases us <;> cases first <;> cases inserts
  | member a b ins us u =>
    cases first
    cases inserts
    rfl
  | insert | rowid | rollback =>
    cases first
    cases inserts

end Step

theorem Outside.adds {t : Tables} {k : Call} {sql : SqlOp} (h : Outside t k)
    (performs : k.rest.Only k.op.Performs) (first : k.rest.first = some sql) {chatID userID : Int} :
    sql.statement ≠ some (.insertMember chatID userID) := by
  intro inserts
  cases h with
  | other o rest chatRow other =>
    obtain ⟨a, b, e, _⟩ := ((performs.first first).executes inserts).insertMember
    exact other a b e
  | ended => cases first
  | _ =>
    cases first
    cases inserts

/-! ## Every run -/

/-- No call is in a transaction. -/
structure Free (s : State) : Prop where
  bound : s.conn.tables.Bounded
  all : ∀ k ∈ s.calls, Outside s.conn.tables k

/-- The open transaction is that of call `i`. -/
structure Owned (s : State) (i : Nat) (k : Call) (base : Tables) : Prop where
  saved : s.conn.saved = some base
  bound : base.Bounded
  here : s.calls[i]? = some k
  inside : Inside base s.conn.tables k
  others : ∀ (j : Nat) (l : Call), j ≠ i → s.calls[j]? = some l → Outside base l

structure MembersInv (s : State) : Prop where
  performing : Performing s
  transaction : Free s ∨ ∃ i k base, Owned s i k base

/-- Every call that made a chat has returned its id, with its two users as the members. -/
def MembersExact (s : State) : Prop :=
  ∀ a b result chatID, ⟨.findOrCreateDirectChat a b, .done result, some chatID⟩ ∈ s.calls →
    0 < result → result = chatID ∧ (s.conn.tables.membersOf result).Perm [a, b]

theorem MembersInv.membersExact {s : State} (h : MembersInv s) : MembersExact s := by
  have exact_of {k : Call} (out : Outside s.conn.tables k) {a b result chatID : Int}
      (e : k = ⟨.findOrCreateDirectChat a b, .done result, some chatID⟩) (positive : 0 < result) :
      result = chatID ∧ (s.conn.tables.membersOf result).Perm [a, b] := by
    cases out with
    | ended a' b' result' chatRow own =>
      cases e
      obtain ⟨same, pair⟩ := own chatID rfl positive
      exact ⟨same, pair.members⟩
    | other o rest chatRow other =>
      cases e
      exact absurd rfl (other a b)
    | _ => cases e
  intro a b result chatID hk positive
  obtain ⟨j, hj⟩ := List.mem_iff_getElem?.mp hk
  rcases h.transaction with free | ⟨i, k, base, owned⟩
  · exact exact_of (free.all _ hk) rfl positive
  · by_cases e : j = i
    · subst e
      have inside := owned.inside
      rw [Option.some.inj (owned.here.symm.trans hj)] at inside
      generalize ended : (⟨_, _, _⟩ : Call) = l at inside
      cases inside with
      | members a b ins us => cases us <;> cases ended
      | _ => cases ended
    · exact exact_of ((owned.others j _ e hj).grown owned.inside.grown) rfl positive

theorem MembersInv.addsOwn {s : State} (h : MembersInv s) (a : Action) : AddsOwn s a := by
  cases a with
  | call o => trivial
  | step i fails =>
    intro k sql chatID userID here first inserts
    have performs := h.performing k (List.mem_of_getElem? here)
    have users := ((performs.first first).executes inserts).insertMember
    refine ⟨?_, users⟩
    rcases h.transaction with free | ⟨j, l, base, owned⟩
    · exact absurd inserts ((free.all k (List.mem_of_getElem? here)).adds performs first)
    · by_cases e : i = j
      · subst e
        obtain rfl := Option.some.inj (owned.here.symm.trans here)
        exact owned.inside.adds first inserts
      · exact absurd inserts ((owned.others i k e here).adds performs first)

theorem MembersInv.call {s : State} (h : MembersInv s) (o : RepoOp) :
    MembersInv { s with calls := s.calls ++ [⟨o, o.prog, none⟩] } where
  performing := step_performing h.performing (a := .call o) rfl
  transaction := by
    have new (t : Tables) : Outside t ⟨o, o.prog, none⟩ := by
      cases o with
      | findOrCreateDirectChat a b => exact .prog a b
      | _ => exact .other _ _ _ nofun
    rcases h.transaction with free | ⟨i, k, base, owned⟩
    · refine .inl ⟨free.bound, fun l hl => ?_⟩
      cases List.mem_append.mp hl with
      | inl old => exact free.all l old
      | inr added =>
        obtain rfl := List.mem_singleton.mp added
        exact new _
    · refine .inr ⟨i, k, base, owned.saved, owned.bound, ?_, owned.inside, fun j l hj hl => ?_⟩
      · rw [List.getElem?_append_left (List.getElem?_eq_some_iff.mp owned.here).1]
        exact owned.here
      · rw [List.getElem?_append] at hl
        split at hl
        · exact owned.others j l hj hl
        · obtain rfl := List.mem_singleton.mp (List.mem_of_getElem? hl)
          exact new _

theorem MembersInv.step {s t : State} {a : Action} (h : MembersInv s)
    (own : readsOwn s a = true) (hs : step s a = some t) : MembersInv t := by
  have performing := step_performing h.performing hs
  cases next_cases hs with
  | call o => exact h.call o
  | step i fails k sql rest c' here first left moves =>
    have performs := h.performing k (List.mem_of_getElem? here)
    refine ⟨performing, ?_⟩
    rcases h.transaction with free | ⟨j, l, base, owned⟩
    · rcases (free.all k (List.mem_of_getElem? here)).step performs first left moves with
        ⟨same, _, out⟩ | ⟨_, begun, inside⟩
      · refine .inl ⟨same.bounded free.bound, fun m hm => ?_⟩
        rcases mem_set_cases hm with rfl | ⟨j, _, hj⟩
        · exact out.grown (.inl same)
        · exact (free.all m (List.mem_of_getElem? hj)).grown (.inl same)
      · subst begun
        refine .inr ⟨i, _, s.conn.tables, rfl, free.bound,
          List.getElem?_set_self (List.getElem?_eq_some_iff.mp here).1, inside, ?_⟩
        intro j m hj hm
        rw [State.after, List.getElem?_set_ne (Ne.symm hj)] at hm
        exact free.all m (List.mem_of_getElem? hm)
    · by_cases e : i = j
      · -- the owner of the transaction moves
        subst e
        obtain rfl := Option.some.inj (owned.here.symm.trans here)
        have rowid : sql = .lastInsertRowid →
            l.chatRow = some (toInt32 s.conn.lastInsertRowid) := by
          intro asks
          obtain ⟨o, p, chatRow⟩ := l
          cases p with
          | done => cases first
          | op first' more =>
            cases first
            subst asks
            simpa [readsOwn, here] using own
        obtain ⟨grown, result⟩ := owned.inside.step owned.bound owned.saved first rowid moves
        rcases result with ⟨saved, inside⟩ | ended
        · refine .inr ⟨i, _, base, saved, owned.bound,
            List.getElem?_set_self (List.getElem?_eq_some_iff.mp here).1, inside, ?_⟩
          intro j m hj hm
          rw [State.after, List.getElem?_set_ne (Ne.symm hj)] at hm
          exact owned.others j m hj hm
        · refine .inl ⟨grown.bounded owned.bound, fun m hm => ?_⟩
          rcases mem_set_cases hm with rfl | ⟨j, hj, hjm⟩
          · exact ended
          · exact (owned.others j m hj hjm).grown grown
      · -- another call moves beside the open transaction
        rcases (owned.others i k e here).step performs first left moves with
          ⟨same, saved, out⟩ | ⟨none, _⟩
        · refine .inr ⟨j, l, base, saved.trans owned.saved, owned.bound, ?_,
            owned.inside.same same, fun n m hn hm => ?_⟩
          · rw [State.after, List.getElem?_set_ne e]
            exact owned.here
          · rw [State.after] at hm
            rcases getElem?_set_cases hm with ⟨_, rfl⟩ | ⟨_, old⟩
            · exact out
            · exact owned.others n m hn old
        · cases owned.saved.symm.trans none

/-- **Members stay among themselves.** In every run in which each call that asks for the
rowid of the last insert gets the id of the chat that it has just made, members are only added
to the caller's own chat, and a chat that a call made and returned has its two users as
members and nobody else, then and ever after. -/
theorem members_exact_of_reads_own (t : Tables)
    (bound : ∀ m ∈ t.chatMembers, m.chatID ≤ t.chatSeq) (as : List Action)
    (own : Along step (readsOwn · · = true) (start t) as) :
    Along step AddsOwn (start t) as ∧ Throughout step MembersExact (start t) as := by
  have first : MembersInv (start t) := ⟨nofun, .inl ⟨bound, nofun⟩⟩
  exact ⟨own.along (fun s a h _ => MembersInv.addsOwn h a) (fun _ _ _ h ok => h.step ok) first,
    own.throughout (fun _ => MembersInv.membersExact) (fun _ _ _ h ok => h.step ok) first⟩

/-- A message is saved in the transaction of the first call, after that one has its rowid, and a
second call has looked up its pair before. -/
def membersBetween : List Action :=
  [.call (.findOrCreateDirectChat 2 3), .call (.saveMessage 1 2 [104, 105]),
    .call (.findOrCreateDirectChat 1 4), .step 1 false, .step 2 false, .step 2 false] ++
    List.replicate 5 (.step 0 false) ++ [.step 1 false] ++
    List.replicate 5 (.step 0 false) ++ List.replicate 8 (.step 2 false)

theorem members_exact_between :
    Along step AddsOwn (start {}) membersBetween ∧
      Throughout step MembersExact (start {}) membersBetween :=
  members_exact_of_reads_own {} (by decide) membersBetween (by decide)

/-- Users 2 and 3 have chat 1. A call for users 1 and 4 has inserted chat 2 when a message
is saved as message 1. -/
def strangers : List Action :=
  [Action.call (.findOrCreateDirectChat 2 3)] ++ List.replicate 10 (Action.step 0 false) ++
    [Action.call (.findOrCreateDirectChat 1 4)] ++ List.replicate 4 (Action.step 1 false) ++
    [Action.call (.saveMessage 1 2 [104, 105]), .step 2 false, .step 2 false] ++
    List.replicate 6 (Action.step 1 false)

/-- The call adds its users to chat 1 and returns chat 1. -/
theorem strangers_join :
    ∃ s, Machine.exec step (start {}) strangers = some s ∧
      s.conn.tables.membersOf 1 = [1, 2, 3, 4] ∧ ¬ MembersExact s := by
  refine ⟨_, rfl, rfl, fun h => ?_⟩
  have made := h 1 4 1 2 (List.mem_of_getElem? (i := 1) rfl) (by decide)
  exact absurd made.1 (by decide)

end Writers

end Cvcn
