import Cvcn.Lib.Threads
import Cvcn.Storage.Repositories

/-!
# Direct chats under concurrent calls

Any number of `findOrCreateDirectChat` calls on the one connection, each sqlite3 call an
atomic step. The lookup is outside the transaction that inserts: a chat for the same pair
may be committed between a call's lookup and its `BEGIN`, and the call then makes a second
one. As long as no `BEGIN` succeeds while the pair has a chat, and the ids of the chats are `int`s,
there is at most one.
-/

namespace Cvcn

open Atomic Machine Sqlite3

namespace Tables

/-- What the schema and `AUTOINCREMENT` ensure of the two chat tables. -/
structure WellFormed (t : Tables) : Prop where
  seq : 0 ≤ t.chatSeq
  pos : ∀ c ∈ t.chats, 0 < c.id
  chatBound : ∀ c ∈ t.chats, c.id ≤ t.chatSeq
  memberBound : ∀ m ∈ t.chatMembers, m.chatID ≤ t.chatSeq

def Bounded (t : Tables) : Prop := ∀ m ∈ t.chatMembers, m.chatID ≤ t.chatSeq

/-- The non-group chats whose members are exactly the two users. -/
def chatsOfPair (t : Tables) (a b : Int) : List ChatRow :=
  t.chats.filter fun c => !c.isGroup && (t.membersOf c.id).isPerm [a, b]

/-- At most one such chat per pair of users. -/
def UniqueDirect (t : Tables) : Prop := ∀ a b, a ≠ b → (t.chatsOfPair a b).length ≤ 1

/-- The tables with the next chat, and some of its members, added. -/
def withChat (t : Tables) (members : List Int) : Tables :=
  { t with chats := t.chats ++ [⟨t.chatSeq + 1, false⟩]
           chatMembers := t.chatMembers ++ members.map fun u => ⟨t.chatSeq + 1, u⟩
           chatSeq := t.chatSeq + 1 }

variable {t : Tables} {a b : Int}

theorem membersOf_perm (t : Tables) (chatID : Int) :
    (t.membersOf chatID).Perm ((t.chatMembers.filter (·.chatID == chatID)).map (·.userID)) :=
  List.perm_insertionSort _ _

theorem mem_membersOf {chatID u : Int} :
    u ∈ t.membersOf chatID ↔ ⟨chatID, u⟩ ∈ t.chatMembers := by
  rw [(t.membersOf_perm chatID).mem_iff, List.mem_map]
  simp only [List.mem_filter, beq_iff_eq]
  constructor
  · rintro ⟨m, ⟨hm, rfl⟩, rfl⟩
    exact hm
  · intro hm
    exact ⟨_, ⟨hm, rfl⟩, rfl⟩

/-- A list of two that contains two different users is those two users. -/
theorem perm_pair_iff {l : List Int} (hab : a ≠ b) :
    l.Perm [a, b] ↔ a ∈ l ∧ b ∈ l ∧ l.length = 2 := by
  constructor
  · intro h
    exact ⟨h.mem_iff.mpr (by simp), h.mem_iff.mpr (by simp), h.length_eq⟩
  · rintro ⟨ha, hb, hl⟩
    obtain ⟨x, y, rfl⟩ := List.length_eq_two.mp hl
    simp only [List.mem_cons, List.not_mem_nil, or_false] at ha hb
    rcases ha with rfl | rfl <;> rcases hb with rfl | rfl
    · exact absurd rfl hab
    · exact .refl _
    · exact .swap _ _ _
    · exact absurd rfl hab

/-- The find query finds the chats of the pair. -/
theorem chatsOfPair_eq (t : Tables) (hab : a ≠ b) : t.chatsOfPair a b = t.directChats a b := by
  apply List.filter_congr
  intro c _
  apply Bool.eq_iff_iff.mpr
  simp only [isDirectChat, Bool.and_eq_true, List.isPerm_iff, List.contains_iff_mem,
    ← mem_membersOf, perm_pair_iff hab, beq_iff_eq]
  tauto

theorem directChats_comm (t : Tables) (a b : Int) : t.directChats a b = t.directChats b a := by
  have : t.isDirectChat a b = t.isDirectChat b a := by
    funext c
    simp only [isDirectChat, Bool.and_comm (t.chatMembers.contains ⟨c.id, a⟩)]
  rw [directChats, directChats, this]

theorem mem_withChat {members : List Int} {m : MemberRow} :
    m ∈ (t.withChat members).chatMembers ↔
      m ∈ t.chatMembers ∨ m.chatID = t.chatSeq + 1 ∧ m.userID ∈ members := by
  obtain ⟨c, u⟩ := m
  simp only [withChat, List.mem_append, List.mem_map, MemberRow.mk.injEq]
  constructor
  · rintro (h | ⟨v, hv, hc, rfl⟩)
    · exact .inl h
    · exact .inr ⟨hc.symm, hv⟩
  · rintro (h | ⟨hc, hu⟩)
    · exact .inl h
    · exact .inr ⟨u, hu, hc.symm, rfl⟩

/-- A chat that is there already keeps its members. -/
theorem membersOf_withChat_old {members : List Int} {id : Int} (h : id ≠ t.chatSeq + 1) :
    (t.withChat members).membersOf id = t.membersOf id := by
  have none : (members.map fun u => (⟨t.chatSeq + 1, u⟩ : MemberRow)).filter
      (fun m => m.chatID == id) = [] := by
    simp [List.filter_eq_nil_iff, Ne.symm h]
  simp [membersOf, withChat, List.filter_append, none]

/-- The new chat has the members given to it. -/
theorem membersOf_withChat_new (bound : t.Bounded) (members : List Int) :
    ((t.withChat members).membersOf (t.chatSeq + 1)).Perm members := by
  have none : t.chatMembers.filter (fun m => m.chatID == t.chatSeq + 1) = [] := by
    simp only [List.filter_eq_nil_iff, beq_iff_eq]
    intro m hm e
    have := bound m hm
    omega
  have all : (members.map fun u => (⟨t.chatSeq + 1, u⟩ : MemberRow)).filter
      (fun m => m.chatID == t.chatSeq + 1) = members.map fun u => ⟨t.chatSeq + 1, u⟩ := by
    simp [List.filter_eq_self]
  apply (membersOf_perm _ _).trans
  simp [withChat, List.filter_append, none, all, Function.comp_def]

theorem isDirectChat_withChat_old {members : List Int} {c : ChatRow} (h : c.id ≠ t.chatSeq + 1) :
    (t.withChat members).isDirectChat a b c = t.isDirectChat a b c := by
  have same : ∀ u, (t.withChat members).chatMembers.contains ⟨c.id, u⟩ =
      t.chatMembers.contains ⟨c.id, u⟩ := by
    intro u
    apply Bool.eq_iff_iff.mpr
    simp [mem_withChat, h]
  simp only [isDirectChat, same, membersOf_withChat_old h]

theorem isDirectChat_withChat_new (hw : t.WellFormed) {members : List Int} :
    (t.withChat members).isDirectChat a b ⟨t.chatSeq + 1, false⟩ =
      (members.contains a && members.contains b && members.length == 2) := by
  have fresh : ∀ u, (t.withChat members).chatMembers.contains ⟨t.chatSeq + 1, u⟩ =
      members.contains u := by
    intro u
    apply Bool.eq_iff_iff.mpr
    simp only [List.contains_iff_mem, mem_withChat, true_and, or_iff_right_iff_imp]
    intro hm
    have := hw.memberBound _ hm
    simp only at this
    omega
  simp only [isDirectChat, fresh, (membersOf_withChat_new hw.memberBound members).length_eq,
    Bool.not_false, Bool.and_true]

theorem directChats_withChat (hw : t.WellFormed) (members : List Int) (a b : Int) :
    (t.withChat members).directChats a b = t.directChats a b ++
      if members.contains a && members.contains b && members.length == 2 then
        [⟨t.chatSeq + 1, false⟩] else [] := by
  have old : t.chats.filter ((t.withChat members).isDirectChat a b) = t.directChats a b := by
    apply List.filter_congr
    intro c hc
    apply isDirectChat_withChat_old
    have := hw.chatBound c hc
    omega
  have chats : (t.withChat members).chats = t.chats ++ [⟨t.chatSeq + 1, false⟩] := rfl
  rw [directChats, chats, List.filter_append, old, List.filter_singleton,
    isDirectChat_withChat_new hw, Bool.cond_eq_ite]

theorem Bounded.withChat (bound : t.Bounded) (members : List Int) :
    (t.withChat members).Bounded := by
  intro m hm
  simp only [Tables.withChat]
  rcases mem_withChat.mp hm with h | ⟨h, _⟩
  · have := bound m h
    omega
  · omega

theorem withChat_wellFormed (hw : t.WellFormed) (members : List Int) :
    (t.withChat members).WellFormed where
  seq := by have := hw.seq; simp only [withChat]; omega
  pos := by
    intro c hc
    cases List.mem_append.mp hc with
    | inl h => exact hw.pos c h
    | inr h =>
      obtain rfl := List.mem_singleton.mp h
      have := hw.seq
      simp only
      omega
  chatBound := by
    intro c hc
    simp only [withChat]
    cases List.mem_append.mp hc with
    | inl h =>
      have := hw.chatBound c h
      omega
    | inr h =>
      obtain rfl := List.mem_singleton.mp h
      exact Int.le_refl _
  memberBound := Bounded.withChat hw.memberBound members

/-- A direct chat of another pair does not have both users of this one. -/
theorem pair_of_contains {x y : Int} (hab : a ≠ b)
    (h : ([x, y].contains a && [x, y].contains b && [x, y].length == 2) = true) :
    (a = x ∧ b = y) ∨ (a = y ∧ b = x) := by
  simp only [List.contains_cons, List.contains_nil, Bool.or_false, Bool.and_eq_true,
    Bool.or_eq_true, beq_iff_eq] at h
  omega

/-- A chat with too few members is no direct chat yet. -/
theorem directChats_withChat_short (hw : t.WellFormed) {members : List Int}
    (short : members.length ≠ 2) : (t.withChat members).directChats a b = t.directChats a b := by
  simp [directChats_withChat hw, short]

theorem directChats_subset_withChat (hw : t.WellFormed) (members : List Int) :
    t.directChats a b ⊆ (t.withChat members).directChats a b := by
  rw [directChats_withChat hw]
  exact List.subset_append_left _ _

/-- A chat for a pair that had none keeps the pairs unique. -/
theorem withChat_uniqueDirect (hw : t.WellFormed) (hu : t.UniqueDirect) {x y : Int}
    (fresh : t.directChats x y = []) : (t.withChat [x, y]).UniqueDirect := by
  intro a b hab
  rw [chatsOfPair_eq _ hab, directChats_withChat hw]
  split
  · rename_i h
    have none : t.directChats a b = [] := by
      rcases pair_of_contains hab h with ⟨rfl, rfl⟩ | ⟨rfl, rfl⟩
      · exact fresh
      · rw [directChats_comm, fresh]
    simp [none]
  · have := hu a b hab
    rw [chatsOfPair_eq _ hab] at this
    simpa using this

end Tables

namespace DirectChat

/-- The arguments of a call. -/
abbrev Pair := Int × Int

def prog (p : Pair) : SqlProg Int := ChatRepository.findOrCreateDirectChat p.1 p.2

abbrev CallThread := Thread SqlOp SqlOp.Res Int Pair

abbrev State := Threads SqlOp SqlOp.Res Int Conn Pair

def step : State → Sched Pair → Option State := Threads.next Conn.call prog fun _ _ => true

/-- One direct chat per pair, and every call for the pair that found or made it returned it. -/
def OneChat (s : State) : Prop :=
  s.shared.tables.UniqueDirect ∧
  ∀ p q r r', ⟨p, .done r⟩ ∈ s.threads → ⟨q, .done r'⟩ ∈ s.threads → p.1 ≠ p.2 →
    q = p ∨ q = p.swap → 0 < r → 0 < r' → r = r'

/-- A `BEGIN` that succeeds belongs to a call whose pair has no direct chat yet, and the id of the
next chat is an `int`. -/
def beginsFresh (s : State) : Sched Pair → Bool
  | .call _ => true
  | .step i =>
    match s.threads[i]? with
    | some ⟨p, .op (.exec .begin) _⟩ =>
      s.shared.saved.isSome || decide (s.shared.tables.chatSeq + 1 < 2 ^ 31) &&
        (p.1 == p.2 || (s.shared.tables.directChats p.1 p.2).isEmpty)
    | _ => true

/-! ## The points of a call -/

def rollbackThen : SqlProg Int := do
  let _ ← exec .rollback
  return -1

def commitThen (chatID : Int) : SqlProg Int := do
  if !(← exec .commit) then rollbackThen
  else return chatID

def membersThen (chatID : Int) (us : List Int) : SqlProg Int := do
  if !(← ChatRepository.insertMembers chatID us) then return -1
  else commitThen chatID

/-- The member's statement is prepared. -/
def memberThen (chatID userID : Int) (us : List Int) : SqlProg Int := do
  if (← Sqlite3.step (.insertMember chatID userID)) != .done then rollbackThen
  else membersThen chatID us

def rowidThen (p : Pair) : SqlProg Int := do
  let chatID := toInt32 (← lastInsertRowid)
  membersThen chatID [p.1, p.2]

def insertThen (p : Pair) : SqlProg Int := do
  if !(← exec .insertChat) then rollbackThen
  else rowidThen p

def createThen (p : Pair) : SqlProg Int := ChatRepository.createDirectChat p.1 p.2

def lookup (p : Pair) : SqlProg Int := do
  let chatID := match ← Sqlite3.step (.findDirectChat p.1 p.2) with
    | .row r => r.columnInt 0
    | _ => -1
  if chatID != -1 then return chatID
  else createThen p

section Points

variable (c : Conn) (p : Pair)

theorem next_prog : (prog p).next Conn.call c = some (lookup p, c) := rfl

theorem next_lookup : (lookup p).next Conn.call c =
    match c.tables.directChats p.1 p.2 with
    | d :: _ => some (if toInt32 d.id != -1 then .done (toInt32 d.id) else createThen p, c)
    | [] => some (createThen p, c) := by
  have answer : c.call (.step (.findDirectChat p.1 p.2)) =
      match c.tables.directChats p.1 p.2 with
      | d :: _ => (.row [.int d.id], c)
      | [] => (.done, c) := by
    simp only [Conn.call, Conn.stepStmt, Stmt.isQuery, Tables.query]
    cases c.tables.directChats p.1 p.2 <;> rfl
  cases h : c.tables.directChats p.1 p.2 with
  | nil =>
    rw [h] at answer
    exact Prog.next_of_exec answer
  | cons d ds =>
    rw [h] at answer
    exact Prog.next_of_exec answer

theorem next_createThen : (createThen p).next Conn.call c =
    if c.saved.isSome then some (.done (-1), c)
    else some (insertThen p, { c with saved := some c.tables }) := by
  obtain ⟨tables, saved, rowid, changes⟩ := c
  cases saved <;> rfl

theorem next_insertThen : (insertThen p).next Conn.call c =
    some (rowidThen p, c.inserted (c.tables.withChat []) (c.tables.chatSeq + 1)) := by
  have : c.tables.withChat [] = { c.tables with
      chats := c.tables.chats ++ [⟨c.tables.chatSeq + 1, false⟩]
      chatSeq := c.tables.chatSeq + 1 } := by
    simp [Tables.withChat]
  rw [this]
  rfl

theorem next_rowidThen : (rowidThen p).next Conn.call c =
    some (membersThen (toInt32 c.lastInsertRowid) [p.1, p.2], c) := rfl

theorem next_membersThen (chatID u : Int) (us : List Int) :
    (membersThen chatID (u :: us)).next Conn.call c = some (memberThen chatID u us, c) := by
  have : memberThen chatID u us = (do
      if !(← (do
        if (← Sqlite3.step (.insertMember chatID u)) != .done then
          let _ ← exec .rollback
          return false
        else ChatRepository.insertMembers chatID us)) then return -1
      else commitThen chatID) := by
    apply congrArg (Prog.op (SqlOp.step (Stmt.insertMember chatID u)))
    funext (rc : StepResult)
    cases rc <;> rfl
  rw [this]
  rfl

/-- A member who is in the chat already is a constraint violation. -/
theorem next_memberThen (chatID u : Int) (us : List Int) :
    (memberThen chatID u us).next Conn.call c =
      match c.write (.insertMember chatID u) with
      | some c' => some (membersThen chatID us, c')
      | none => some (rollbackThen, { c with changes := 0 }) := by
  have answer : c.call (.step (.insertMember chatID u)) =
      match c.write (.insertMember chatID u) with
      | some c' => (.done, c')
      | none => (.error, { c with changes := 0 }) := rfl
  cases h : c.write (.insertMember chatID u) with
  | none =>
    rw [h] at answer
    exact Prog.next_of_exec answer
  | some c' =>
    rw [h] at answer
    exact Prog.next_of_exec answer

theorem next_commit (chatID : Int) :
    (membersThen chatID []).next Conn.call c =
      if c.saved.isSome then some (.done chatID, { c with saved := none })
      else some (rollbackThen, c) := by
  obtain ⟨tables, saved, rowid, changes⟩ := c
  cases saved <;> rfl

theorem next_rollbackThen : rollbackThen.next Conn.call c =
    match c.saved with
    | some t => some (.done (-1), { c with tables := t, saved := none })
    | none => some (.done (-1), c) := by
  obtain ⟨tables, saved, rowid, changes⟩ := c
  cases saved <;> rfl

end Points

/-! ## The invariant -/

structure Good (t : Tables) : Prop where
  wellFormed : t.WellFormed
  unique : t.UniqueDirect

/-- A call that has found or made the chat of its pair. -/
def Found (t : Tables) (p : Pair) (r : Int) : Prop :=
  p.1 ≠ p.2 → 0 < r → ∃ d ∈ t.directChats p.1 p.2, toInt32 d.id = r

/-- The points of a call that has no transaction. -/
def Outside (t : Tables) (p : Pair) (rest : SqlProg Int) : Prop :=
  rest = prog p ∨ rest = lookup p ∨ rest = createThen p ∨ ∃ r, rest = .done r ∧ Found t p r

/-- The points of a call in its transaction, `base` being the tables at `BEGIN`. -/
inductive Inside (base : Tables) (p : Pair) (c : Conn) : SqlProg Int → Prop where
  | insert (tables : c.tables = base) : Inside base p c (insertThen p)
  | rowid (tables : c.tables = base.withChat []) (id : c.lastInsertRowid = base.chatSeq + 1) :
    Inside base p c (rowidThen p)
  | members (ins us : List Int) (all : ins ++ us = [p.1, p.2]) (nodup : ins.Nodup)
    (tables : c.tables = base.withChat ins) : Inside base p c (membersThen (base.chatSeq + 1) us)
  | member (ins us : List Int) (u : Int) (all : ins ++ u :: us = [p.1, p.2]) (nodup : ins.Nodup)
    (tables : c.tables = base.withChat ins) : Inside base p c (memberThen (base.chatSeq + 1) u us)
  /-- Only a call for one user twice gets here. -/
  | rollback (ins : List Int) (short : ins.length ≠ 2) (same : p.1 = p.2)
    (tables : c.tables = base.withChat ins) : Inside base p c rollbackThen

/-- The transaction, if one is open, is that of thread `i`. -/
def Owned (s : State) : Prop :=
  ∃ i p rest base, s.shared.saved = some base ∧ Good base ∧ s.threads[i]? = some ⟨p, rest⟩ ∧
    toInt32 (base.chatSeq + 1) = base.chatSeq + 1 ∧
    (p.1 ≠ p.2 → base.directChats p.1 p.2 = []) ∧ Inside base p s.shared rest ∧
    ∀ (j : Nat) (u : CallThread), j ≠ i → s.threads[j]? = some u →
      Outside s.shared.tables u.label u.rest

def Free (s : State) : Prop :=
  s.shared.saved = none ∧ Good s.shared.tables ∧
    ∀ u ∈ s.threads, Outside s.shared.tables u.label u.rest

def Inv (s : State) : Prop := Free s ∨ Owned s

theorem Outside.mono {t t' : Tables} {p : Pair} {rest : SqlProg Int}
    (sub : ∀ a b, t.directChats a b ⊆ t'.directChats a b) (h : Outside t p rest) :
    Outside t' p rest := by
  rcases h with h | h | h | ⟨r, h, found⟩
  · exact .inl h
  · exact .inr (.inl h)
  · exact .inr (.inr (.inl h))
  · refine .inr (.inr (.inr ⟨r, h, fun hp hr => ?_⟩))
    obtain ⟨d, hd, e⟩ := found hp hr
    exact ⟨d, sub _ _ hd, e⟩

/-- A step outside the transaction leaves the connection as it is, unless it is a `BEGIN`
that succeeds. -/
theorem outside_next {c c' : Conn} {p : Pair} {rest rest' : SqlProg Int}
    (h : Outside c.tables p rest) (hn : rest.next Conn.call c = some (rest', c')) :
    (c' = c ∧ Outside c.tables p rest') ∨
    (c.saved = none ∧ rest = createThen p ∧ rest' = insertThen p ∧
      c' = { c with saved := some c.tables }) := by
  rcases h with rfl | rfl | rfl | ⟨r, rfl, _⟩
  · rw [next_prog] at hn
    cases hn
    exact .inl ⟨rfl, .inr (.inl rfl)⟩
  · rw [next_lookup] at hn
    split at hn
    · rename_i d ds hd
      cases hn
      refine .inl ⟨rfl, ?_⟩
      split
      · exact .inr (.inr (.inr ⟨_, rfl, fun _ _ => ⟨d, by simp [hd], rfl⟩⟩))
      · exact .inr (.inr (.inl rfl))
    · cases hn
      exact .inl ⟨rfl, .inr (.inr (.inl rfl))⟩
  · rw [next_createThen] at hn
    split at hn
    · cases hn
      exact .inl ⟨rfl, .inr (.inr (.inr ⟨_, rfl, fun _ h => absurd h (by decide)⟩))⟩
    · rename_i free
      cases hn
      exact .inr ⟨by simpa using free, rfl, rfl, rfl⟩
  · cases hn

theorem contains_member {base : Tables} (hw : base.WellFormed) (ins : List Int) (u : Int) :
    (base.withChat ins).chatMembers.contains ⟨base.chatSeq + 1, u⟩ = decide (u ∈ ins) := by
  apply Bool.eq_iff_iff.mpr
  simp only [List.contains_iff_mem, Tables.mem_withChat, true_and, or_iff_right_iff_imp,
    decide_eq_true_eq]
  intro hm
  have := hw.memberBound _ hm
  simp only at this
  omega

/-- The insert of a member into the chat that is being made. -/
theorem write_member {base : Tables} {c : Conn} {ins : List Int} (hw : base.WellFormed)
    (tables : c.tables = base.withChat ins) (u : Int) :
    (u ∈ ins ∧ c.write (.insertMember (base.chatSeq + 1) u) = none) ∨
    (u ∉ ins ∧ ∃ c', c.write (.insertMember (base.chatSeq + 1) u) = some c' ∧
      c'.saved = c.saved ∧ c'.tables = base.withChat (ins ++ [u])) := by
  simp only [Conn.write, tables, contains_member hw, decide_eq_true_eq]
  by_cases hu : u ∈ ins
  · exact .inl ⟨hu, if_pos hu⟩
  · refine .inr ⟨hu, _, if_neg hu, rfl, ?_⟩
    simp [Conn.inserted, Tables.withChat]

/-- A step inside the transaction: it goes on, it commits the chat with both members, or it
is rolled back. No other call's result is undone by it. -/
theorem inside_next {base : Tables} {c c' : Conn} {p : Pair} {rest rest' : SqlProg Int}
    (hw : base.WellFormed) (hs : c.saved = some base)
    (int : toInt32 (base.chatSeq + 1) = base.chatSeq + 1) (h : Inside base p c rest)
    (hn : rest.next Conn.call c = some (rest', c')) :
    (∀ a b, c.tables.directChats a b ⊆ c'.tables.directChats a b) ∧
    ((c'.saved = some base ∧ Inside base p c' rest') ∨
     (c'.saved = none ∧ c'.tables = base.withChat [p.1, p.2] ∧ p.1 ≠ p.2 ∧
       rest' = .done (base.chatSeq + 1)) ∨
     (c'.saved = none ∧ c'.tables = base ∧ p.1 = p.2 ∧ rest' = .done (-1))) := by
  cases h with
  | insert tables =>
    rw [next_insertThen] at hn
    cases hn
    subst tables
    refine ⟨fun a b => Tables.directChats_subset_withChat hw [], .inl ⟨hs, .rowid rfl rfl⟩⟩
  | rowid tables id =>
    rw [next_rowidThen, id, int] at hn
    cases hn
    exact ⟨fun a b => List.Subset.refl _, .inl ⟨hs, .members [] _ rfl .nil tables⟩⟩
  | members ins us all nodup tables =>
    cases us with
    | nil =>
      rw [next_commit, hs] at hn
      cases hn
      rw [List.append_nil] at all
      subst all
      have hne : p.1 ≠ p.2 := by simpa using nodup
      exact ⟨fun a b => List.Subset.refl _, .inr (.inl ⟨rfl, tables, hne, rfl⟩)⟩
    | cons u us =>
      rw [next_membersThen] at hn
      cases hn
      exact ⟨fun a b => List.Subset.refl _, .inl ⟨hs, .member ins us u all nodup tables⟩⟩
  | member ins us u all nodup tables =>
    have short : ins.length ≠ 2 := by
      have := congrArg List.length all
      simp only [List.length_append, List.length_cons, List.length_nil] at this
      omega
    rw [next_memberThen] at hn
    rcases write_member hw tables u with ⟨hu, hwr⟩ | ⟨hu, d, hwr, saved, tables'⟩
    · rw [hwr] at hn
      cases hn
      -- the second user is the first one again
      have same : p.1 = p.2 := by
        match ins, us with
        | [], _ => simp at hu
        | [x], [] =>
          simp only [List.cons_append, List.nil_append, List.cons.injEq, and_true] at all
          rw [← all.1, ← all.2, List.mem_singleton.mp hu]
        | [_], _ :: _ | _ :: _ :: _, _ => simp at all
      exact ⟨fun a b => List.Subset.refl _, .inl ⟨hs, .rollback ins short same tables⟩⟩
    · rw [hwr] at hn
      cases hn
      refine ⟨fun a b => ?_, .inl ⟨saved.trans hs, .members (ins ++ [u]) us ?_ ?_ tables'⟩⟩
      · rw [tables, tables', Tables.directChats_withChat_short hw short]
        exact Tables.directChats_subset_withChat hw _
      · rw [← all, List.append_assoc, List.singleton_append]
      · refine List.nodup_append.mpr ⟨nodup, List.nodup_singleton u, ?_⟩
        rintro a ha b hb rfl
        exact hu (List.mem_singleton.mp hb ▸ ha)
  | rollback ins short same tables =>
    rw [next_rollbackThen, hs] at hn
    cases hn
    refine ⟨fun a b => ?_, .inr (.inr ⟨rfl, rfl, same, rfl⟩)⟩
    rw [tables, Tables.directChats_withChat_short hw short]
    exact List.Subset.refl _

/-! ## Every run -/

/-- All that a step of the schedule can do. -/
inductive Next (s : State) : Sched Pair → State → Prop where
  | call (p : Pair) : Next s (.call p) ⟨s.shared, s.threads ++ [⟨p, prog p⟩]⟩
  | step (i : Nat) (p : Pair) (rest rest' : SqlProg Int) (c' : Conn)
    (here : s.threads[i]? = some ⟨p, rest⟩)
    (moves : rest.next Conn.call s.shared = some (rest', c')) :
    Next s (.step i) ⟨c', s.threads.set i ⟨p, rest'⟩⟩

theorem next_cases {s t : State} {a : Sched Pair} (h : step s a = some t) : Next s a t := by
  cases Threads.next_cases h with
  | call p _ => exact .call p
  | step i p o rest here => exact .step i p _ _ _ here rfl

theorem call_inv {s : State} (h : Inv s) (p : Pair) :
    Inv ⟨s.shared, s.threads ++ [⟨p, prog p⟩]⟩ := by
  rcases h with ⟨free, good, all⟩ | ⟨i, q, rest, base, saved, good, hi, int, fresh, inside, others⟩
  · refine .inl ⟨free, good, fun u hu => ?_⟩
    cases List.mem_append.mp hu with
    | inl old => exact all u old
    | inr new =>
      obtain rfl := List.mem_singleton.mp new
      exact .inl rfl
  · refine .inr ⟨i, q, rest, base, saved, good, ?_, int, fresh, inside, fun j u hj hu => ?_⟩
    · rw [List.getElem?_append_left (List.getElem?_eq_some_iff.mp hi).1]
      exact hi
    · rw [List.getElem?_append] at hu
      split at hu
      · exact others j u hj hu
      · obtain rfl := List.mem_singleton.mp (List.mem_of_getElem? hu)
        exact .inl rfl

/-- A thread outside moves while no transaction is open. -/
theorem free_inv {s : State} {i : Nat} {p : Pair} {rest rest' : SqlProg Int} {c' : Conn}
    (h : Free s) (hi : s.threads[i]? = some ⟨p, rest⟩)
    (hn : rest.next Conn.call s.shared = some (rest', c'))
    (fresh : rest = createThen p → toInt32 (s.shared.tables.chatSeq + 1) =
      s.shared.tables.chatSeq + 1 ∧ (p.1 ≠ p.2 → s.shared.tables.directChats p.1 p.2 = [])) :
    Inv ⟨c', s.threads.set i ⟨p, rest'⟩⟩ := by
  obtain ⟨free, good, all⟩ := h
  have here : Outside s.shared.tables p rest := all _ (List.mem_of_getElem? hi)
  rcases outside_next here hn with ⟨rfl, out⟩ | ⟨_, rfl, rfl, rfl⟩
  · refine .inl ⟨free, good, fun u hu => ?_⟩
    rcases mem_set_cases hu with rfl | ⟨j, _, hj⟩
    · exact out
    · exact all u (List.mem_of_getElem? hj)
  · refine .inr ⟨i, p, _, s.shared.tables, rfl, good,
      List.getElem?_set_self (List.getElem?_eq_some_iff.mp hi).1, (fresh rfl).1, (fresh rfl).2,
      .insert rfl, ?_⟩
    intro j u hj hu
    rw [List.getElem?_set_ne (Ne.symm hj)] at hu
    exact all u (List.mem_of_getElem? hu)

/-- The owner of the transaction moves. -/
theorem owner_inv {s : State} {i : Nat} {p : Pair} {rest rest' : SqlProg Int} {base : Tables}
    {c' : Conn} (saved : s.shared.saved = some base) (good : Good base)
    (int : toInt32 (base.chatSeq + 1) = base.chatSeq + 1)
    (fresh : p.1 ≠ p.2 → base.directChats p.1 p.2 = []) (inside : Inside base p s.shared rest)
    (others : ∀ (j : Nat) (u : CallThread), j ≠ i → s.threads[j]? = some u →
      Outside s.shared.tables u.label u.rest)
    (hi : s.threads[i]? = some ⟨p, rest⟩) (hn : rest.next Conn.call s.shared = some (rest', c')) :
    Inv ⟨c', s.threads.set i ⟨p, rest'⟩⟩ := by
  obtain ⟨sub, result⟩ := inside_next good.wellFormed saved int inside hn
  have others' : ∀ (j : Nat) (u : CallThread), j ≠ i →
      (s.threads.set i ⟨p, rest'⟩)[j]? = some u → Outside c'.tables u.label u.rest := by
    intro j u hj hu
    rw [List.getElem?_set_ne (Ne.symm hj)] at hu
    exact (others j u hj hu).mono sub
  have all (out : Outside c'.tables p rest') :
      ∀ u ∈ s.threads.set i ⟨p, rest'⟩, Outside c'.tables u.label u.rest := by
    intro u hu
    rcases mem_set_cases hu with rfl | ⟨j, hj, hju⟩
    · exact out
    · exact others' j u hj (by rw [List.getElem?_set_ne (Ne.symm hj)]; exact hju)
  rcases result with ⟨saved', inside'⟩ | ⟨free, tables, hne, rfl⟩ | ⟨free, tables, same, rfl⟩
  · exact .inr ⟨i, p, rest', base, saved', good,
      List.getElem?_set_self (List.getElem?_eq_some_iff.mp hi).1, int, fresh, inside', others'⟩
  · refine .inl ⟨free, ?_, all (.inr (.inr (.inr ⟨_, rfl, fun _ _ => ?_⟩)))⟩
    · rw [tables]
      exact ⟨Tables.withChat_wellFormed good.wellFormed _,
        Tables.withChat_uniqueDirect good.wellFormed good.unique (fresh hne)⟩
    · rw [tables, Tables.directChats_withChat good.wellFormed]
      exact ⟨⟨base.chatSeq + 1, false⟩, by simp, int⟩
  · refine .inl ⟨free, tables ▸ good, all (.inr (.inr (.inr ⟨_, rfl, ?_⟩)))⟩
    exact fun _ h => absurd h (by decide)

theorem step_inv {s t : State} {a : Sched Pair} (h : Inv s) (ha : beginsFresh s a = true)
    (hs : step s a = some t) : Inv t := by
  cases next_cases hs with
  | call p => exact call_inv h p
  | step i p rest rest' c' hi hn =>
    cases h with
    | inl free =>
      apply free_inv free hi hn
      rintro rfl
      have begins : createThen p = .op (.exec .begin) fun ok : Bool => _ := rfl
      have seq := free.2.1.wellFormed.seq
      simp only [beginsFresh, hi, begins, free.1, Option.isSome_none, Bool.false_or,
        Bool.and_eq_true, decide_eq_true_eq, Bool.or_eq_true, beq_iff_eq, List.isEmpty_iff] at ha
      exact ⟨toInt32_of_range (by omega) ha.1, fun hne => ha.2.resolve_left hne⟩
    | inr owned =>
      obtain ⟨k, q, own, base, saved, good, hk, int, fresh, inside, others⟩ := owned
      by_cases e : i = k
      · subst e
        cases hk.symm.trans hi
        exact owner_inv saved good int fresh inside others hi hn
      · -- another call moves beside the open transaction
        rcases outside_next (others i _ e hi) hn with ⟨rfl, out⟩ | ⟨free, _⟩
        · refine .inr ⟨k, q, own, base, saved, good, ?_, int, fresh, inside, fun j u hj hu => ?_⟩
          · rw [List.getElem?_set_ne e]
            exact hk
          · rcases getElem?_set_cases hu with ⟨_, rfl⟩ | ⟨_, old⟩
            · exact out
            · exact others j u hj old
        · rw [saved] at free
          cases free

/-- A call that is over has no transaction. -/
theorem inside_not_over {base : Tables} {p : Pair} {c : Conn} {r : Int} :
    ¬ Inside base p c (.done r) := by
  generalize e : Prog.done r = rest
  intro h
  cases h with
  | members ins us => cases us <;> cases e
  | _ => cases e

theorem Inv.oneChat {s : State} (h : Inv s) (idle : s.Idle) : OneChat s := by
  rcases h with ⟨_, good, all⟩ | ⟨i, p, rest, base, _, _, hi, _, _, inside, _⟩
  · have found : ∀ {p r}, ⟨p, .done r⟩ ∈ s.threads → Found s.shared.tables p r := by
      intro p r hp
      rcases all _ hp with e | e | e | ⟨r', e, h⟩
      · cases e
      · cases e
      · cases e
      · cases e
        exact h
    refine ⟨good.unique, fun p q r r' hp hq hne hpq hr hr' => ?_⟩
    obtain ⟨d, hd, rfl⟩ := found hp hne hr
    have hne' : q.1 ≠ q.2 := by
      rcases hpq with rfl | rfl
      · exact hne
      · exact Ne.symm hne
    obtain ⟨d', hd', rfl⟩ := found hq hne' hr'
    have same : s.shared.tables.directChats q.1 q.2 = s.shared.tables.directChats p.1 p.2 := by
      rcases hpq with rfl | rfl
      · rfl
      · exact Tables.directChats_comm _ _ _
    rw [same] at hd'
    have one := good.unique p.1 p.2 hne
    rw [Tables.chatsOfPair_eq _ hne] at one
    match hl : s.shared.tables.directChats p.1 p.2, one with
    | [], _ => rw [hl] at hd; cases hd
    | [x], _ =>
      rw [hl] at hd hd'
      rw [List.mem_singleton.mp hd, List.mem_singleton.mp hd']
  · obtain ⟨r, e⟩ := idle _ (List.mem_of_getElem? hi)
    simp only at e
    exact absurd (e ▸ inside) inside_not_over

/-- A server starts with the tables it finds, and no transaction is open. -/
def start (c : Conn) : State := ⟨c, []⟩

/-- **One direct chat per pair.** In every run in which each `BEGIN` that succeeds belongs to
a pair without a direct chat, and finds that the next id is an `int`, every state without a call in
progress has at most one direct chat per pair, and all calls for the pair that succeeded returned
it. -/
theorem one_chat_of_begins_fresh (c : Conn) (closed : c.saved = none)
    (wellFormed : c.tables.WellFormed) (unique : c.tables.UniqueDirect)
    (as : List (Sched Pair)) (fresh : Along step (beginsFresh · · = true) (start c) as) :
    Throughout step (fun s => s.Idle → OneChat s) (start c) as := by
  apply fresh.throughout (fun _ => Inv.oneChat) (fun _ _ _ => step_inv)
  exact .inl ⟨closed, ⟨wellFormed, unique⟩, by simp [start]⟩

/-- Both calls look the pair up before either begins. -/
def crossing : List (Sched Pair) :=
  [.call (1, 2), .call (2, 1), .step 0, .step 0, .step 1, .step 1] ++
    List.replicate 8 (.step 0) ++ List.replicate 8 (.step 1)

/-- The crossing calls make two direct chats for one pair and return one each. -/
theorem two_chats_of_crossing :
    ∃ s, Machine.exec step (start {}) crossing = some s ∧ s.Idle ∧
      (s.shared.tables.chatsOfPair 1 2).length = 2 ∧ ¬ OneChat s := by
  refine ⟨_, rfl, Threads.idle_iff.mpr rfl, rfl, fun h => ?_⟩
  exact absurd (h.1 1 2 (by decide)) (by decide)

/-- The same calls one after the other. -/
theorem one_chat_in_turn :
    Throughout step (fun s => s.Idle → OneChat s) (start {})
      ([.call (1, 2)] ++ List.replicate 10 (.step 0) ++ [.call (2, 1), .step 1, .step 1]) :=
  one_chat_of_begins_fresh {} rfl ⟨by decide, by decide, by decide, by decide⟩
    (fun a b _ => Nat.zero_le 1) _ (by decide)

end DirectChat

end Cvcn
