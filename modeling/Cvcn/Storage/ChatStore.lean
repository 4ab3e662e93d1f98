import Mathlib.Data.Finset.Card
import Mathlib.Data.Sym.Sym2
import Cvcn.Storage.DirectChat

/-!
# The direct-chat store, one call after another

What any sequence of `findOrCreateDirectChat` calls leaves behind is one chat per unordered
pair, and the two queries that read it back agree with it, as long as the ids of the chats are
`int`s.
-/

namespace Cvcn

open Atomic Sqlite3

namespace ChatRepository

section Calls

variable {c : Conn} {a b : Int}

/-- A chat that the lookup finds is the answer. -/
theorem findOrCreateDirectChat_found {d : ChatRow} {ds : List ChatRow}
    (found : c.tables.directChats a b = d :: ds) (valid : toInt32 d.id ≠ -1) :
    (findOrCreateDirectChat a b).run Conn.call c = (toInt32 d.id, c) := by
  simp [findOrCreateDirectChat, Conn.stepStmt, Stmt.isQuery, Tables.query, found,
    Row.columnInt, valid]

/-- A pair without a chat gets the next one, if its id survives the cast. -/
theorem findOrCreateDirectChat_new (closed : c.saved = none) (different : a ≠ b)
    (notFound : c.tables.directChats a b = []) (bounded : c.tables.Bounded)
    (uncut : toInt32 (c.tables.chatSeq + 1) = c.tables.chatSeq + 1) :
    let made := (findOrCreateDirectChat a b).run Conn.call c
    made.1 = c.tables.chatSeq + 1 ∧ made.2.saved = none ∧
      made.2.tables = c.tables.withChat [a, b] := by
  have fresh (u : Int) : (⟨c.tables.chatSeq + 1, u⟩ : MemberRow) ∉ c.tables.chatMembers := by
    intro old
    have := bounded _ old
    simp only at this
    omega
  simp [findOrCreateDirectChat, createDirectChat, insertMembers, Sqlite3.prepare,
    Sqlite3.step, Sqlite3.exec, Sqlite3.lastInsertRowid, Prog.call, Conn.call, Conn.stepStmt,
    Stmt.isQuery, Tables.query, notFound, Conn.write, Conn.inserted, closed, uncut, fresh,
    different.symm, Tables.withChat]

/-- Otherwise the answer is the cast of the new id, or -1 when its members are there already. -/
theorem findOrCreateDirectChat_cast (closed : c.saved = none)
    (notFound : c.tables.directChats a b = []) :
    let made := (findOrCreateDirectChat a b).run Conn.call c
    made.1 = -1 ∨ made.1 = toInt32 (c.tables.chatSeq + 1) := by
  by_cases first : (⟨toInt32 (c.tables.chatSeq + 1), a⟩ : MemberRow) ∈ c.tables.chatMembers
  · simp [findOrCreateDirectChat, createDirectChat, insertMembers, Sqlite3.prepare,
      Sqlite3.step, Sqlite3.exec, Sqlite3.lastInsertRowid, Prog.call, Conn.call, Conn.stepStmt,
      Stmt.isQuery, Tables.query, notFound, Conn.write, Conn.inserted, closed, first]
  · by_cases second :
        (⟨toInt32 (c.tables.chatSeq + 1), b⟩ : MemberRow) ∈ c.tables.chatMembers ∨ b = a
    · simp [findOrCreateDirectChat, createDirectChat, insertMembers, Sqlite3.prepare,
        Sqlite3.step, Sqlite3.exec, Sqlite3.lastInsertRowid, Prog.call, Conn.call, Conn.stepStmt,
        Stmt.isQuery, Tables.query, notFound, Conn.write, Conn.inserted, closed, first, second]
    · simp [findOrCreateDirectChat, createDirectChat, insertMembers, Sqlite3.prepare,
        Sqlite3.step, Sqlite3.exec, Sqlite3.lastInsertRowid, Prog.call, Conn.call, Conn.stepStmt,
        Stmt.isQuery, Tables.query, notFound, Conn.write, Conn.inserted, closed, first, second]

end Calls

end ChatRepository

/-! ## What the queries answer -/

namespace Tables

variable {t : Tables} {userID : Int}

/-- The rows that one chat contributes to a user's list. -/
def chatRows (t : Tables) (userID : Int) (c : ChatRow) : List (Int × Bytes) :=
  ((t.membersOf c.id).filter (· != userID)).flatMap
    fun other => (t.users.filter (·.id == other)).filterMap fun u =>
      if t.chatMembers.contains ⟨c.id, userID⟩ && !c.isGroup then some (c.id, u.username) else none

theorem mem_chatRows {c : ChatRow} {row : Int × Bytes} :
    row ∈ t.chatRows userID c ↔ c.isGroup = false ∧ userID ∈ t.membersOf c.id ∧
      ∃ v ∈ t.membersOf c.id, v ≠ userID ∧ ∃ u ∈ t.users, u.id = v ∧ row = (c.id, u.username) := by
  simp only [chatRows, List.mem_flatMap, List.mem_filter, List.mem_filterMap, Bool.and_eq_true,
    beq_iff_eq, bne_iff_ne, mem_membersOf, List.contains_iff_mem, Bool.not_eq_true']
  constructor
  · rintro ⟨v, ⟨other, differs⟩, u, ⟨hu, rfl⟩, joined⟩
    split at joined
    · rename_i both
      exact ⟨both.2, both.1, u.id, other, differs, u, hu, rfl, (Option.some.inj joined).symm⟩
    · cases joined
  · rintro ⟨direct, mine, v, other, differs, u, hu, rfl, rfl⟩
    exact ⟨u.id, ⟨other, differs⟩, u, ⟨hu, rfl⟩, if_pos ⟨mine, direct⟩⟩

theorem query_userChats : t.query (.userChats userID) =
    ((t.chats.flatMap (t.chatRows userID)).insertionSort (fun x y => x.1 ≥ y.1)).map
      fun x => [.int x.1, .text x.2] := rfl

/-- A chat of two members is at most once in a user's list. -/
theorem length_chatRows_le {c : ChatRow} {a b : Int} (keys : (t.users.map (·.id)).Nodup)
    (pair : (t.membersOf c.id).Perm [a, b]) : (t.chatRows userID c).length ≤ 1 := by
  by_cases mine : userID ∈ t.membersOf c.id
  · have few : ((t.membersOf c.id).filter (· != userID)).length ≤ 1 := by
      rw [(pair.filter _).length_eq]
      rcases List.mem_pair.mp (pair.mem_iff.mp mine) with rfl | rfl
      · simpa using List.length_filter_le (· != userID) [b]
      · rw [List.filter_cons]
        split <;> simp
    rw [chatRows]
    match (t.membersOf c.id).filter (· != userID), few with
    | [], _ => simp
    | [v], _ =>
      have one := List.nodup_iff_count_le_one.mp keys v
      rw [List.count_eq_countP, List.countP_map, List.countP_eq_length_filter] at one
      rw [List.flatMap_cons, List.flatMap_nil, List.append_nil]
      exact (List.length_filterMap_le _ _).trans one
  · have none : t.chatRows userID c = [] := by
      apply List.eq_nil_iff_forall_not_mem.mpr
      intro row hr
      exact mine (mem_chatRows.mp hr).2.1
    simp [none]

/-- The list is in descending order and has no chat twice. -/
theorem userChats_descending (keys : (t.users.map (·.id)).Nodup)
    (ascending : t.chats.Pairwise (·.id < ·.id))
    (pairs : ∀ c ∈ t.chats, ∃ a b, (t.membersOf c.id).Perm [a, b]) :
    ((t.chats.flatMap (t.chatRows userID)).insertionSort fun x y => x.1 ≥ y.1).Pairwise
      fun x y => y.1 < x.1 := by
  have rows : ((t.chats.flatMap (t.chatRows userID)).map (·.1)).Nodup := by
    rw [List.Nodup, List.pairwise_map, List.pairwise_flatMap]
    constructor
    · intro c hc
      obtain ⟨a, b, pair⟩ := pairs c hc
      have few : (t.chatRows userID c).length ≤ 1 := length_chatRows_le keys pair
      match t.chatRows userID c, few with
      | [], _ => exact .nil
      | [row], _ => exact List.pairwise_singleton _ _
    · apply ascending.imp
      intro c d lt row hr row' hr'
      obtain ⟨-, -, _, -, -, _, -, -, rfl⟩ := mem_chatRows.mp hr
      obtain ⟨-, -, _, -, -, _, -, -, rfl⟩ := mem_chatRows.mp hr'
      exact Int.ne_of_lt lt
  have sorted := List.pairwise_insertionSort (fun x y : Int × Bytes => x.1 ≥ y.1)
    (t.chats.flatMap (t.chatRows userID))
  have distinct := ((List.perm_insertionSort (fun x y : Int × Bytes => x.1 ≥ y.1) _).map
    (·.1)).nodup_iff.mpr rows
  rw [List.Nodup, List.pairwise_map] at distinct
  apply sorted.imp₂ ?_ distinct
  intro x y ge ne
  omega

end Tables

theorem ofInt_toInt32 (v : Int) : UInt32.ofInt (toInt32 v) = UInt32.ofInt v := by
  have same : v.bmod (2 ^ 32 : Nat) % (2 ^ 32 : Nat) = v % (2 ^ 32 : Nat) := Int.bmod_emod
  rw [UInt32.ofInt, UInt32.ofInt, toInt32, BitVec.toInt_ofInt]
  exact congrArg (fun k => UInt32.ofNat k.toNat) same

/-- The sorted rows of the user's chats. -/
theorem RepoOp.getUserChats_rows (c : Conn) (userID : Int) :
    ((getUserChats userID).exec c).1 =
      ((c.tables.chats.flatMap (c.tables.chatRows userID)).insertionSort
        fun x y => x.1 ≥ y.1).map fun x => ⟨UInt32.ofInt x.1, cStr x.2⟩ := by
  rw [getUserChats_exec, Tables.query_userChats, List.map_map]
  apply List.map_congr_left
  intro x _
  simp only [Function.comp_apply, Row.columnInt, Row.columnText, List.getElem?_cons_zero,
    List.getElem?_cons_succ, ofInt_toInt32]

/-! ## Every sequence of calls -/

namespace DirectChat

/-- The calls one after the other, each beside its result. -/
def callEach : List Pair → Conn → List (Pair × Int) × Conn
  | [], c => ([], c)
  | p :: later, c =>
    let answer := (ChatRepository.findOrCreateDirectChat p.1 p.2).run Conn.call c
    let rest := callEach later answer.2
    ((p, answer.1) :: rest.1, rest.2)

/-- The unordered pairs of the calls. -/
def pairs (calls : List Pair) : Finset (Sym2 Int) := (calls.map fun p => s(p.1, p.2)).toFinset

/-- No chat and no member yet; users as any sequence of inserts and deletes leaves them. -/
structure EmptyStore (c : Conn) : Prop where
  closed : c.saved = none
  chats : c.tables.chats = []
  members : c.tables.chatMembers = []
  seq : 0 ≤ c.tables.chatSeq
  keys : (c.tables.users.map (·.id)).Nodup

/-- The results of the calls, and what the two queries answer after them. -/
structure Agrees (record : List (Pair × Int)) (c : Conn) : Prop where
  positive : ∀ e ∈ record, 0 < e.2
  same_id : ∀ e ∈ record, ∀ e' ∈ record, e.2 = e'.2 ↔ s(e.1.1, e.1.2) = s(e'.1.1, e'.1.2)
  members : ∀ e ∈ record,
    ((RepoOp.getChatMemberIDs (UInt32.ofInt e.2)).exec c).1.Perm [e.1.1, e.1.2]
  descending : ∀ u, ((RepoOp.getUserChats u).exec c).1.Pairwise fun x y => y.chatID < x.chatID
  listed : ∀ u entry, entry ∈ ((RepoOp.getUserChats u).exec c).1 ↔
    ∃ e ∈ record, ∃ v ∈ c.tables.users, s(e.1.1, e.1.2) = s(u, v.id) ∧
      entry = ⟨UInt32.ofInt e.2, cStr v.username⟩

/-- The tables after the calls of the record: one chat for each pair. -/
structure Stored (base : Tables) (record : List (Pair × Int)) (c : Conn) : Prop where
  closed : c.saved = none
  good : Good c.tables
  users : c.tables.users = base.users
  ascending : c.tables.chats.Pairwise (·.id < ·.id)
  made : ∀ d ∈ c.tables.chats, d.isGroup = false ∧ ∃ p, (p, d.id) ∈ record
  kept : ∀ p r, (p, r) ∈ record → p.1 ≠ p.2 ∧ ⟨r, false⟩ ∈ c.tables.chats ∧
    (c.tables.membersOf r).Perm [p.1, p.2]
  seq : c.tables.chatSeq = base.chatSeq + (pairs (record.map (·.1))).card

theorem perm_pair_iff_sym2 {a b x y : Int} : [a, b].Perm [x, y] ↔ s(a, b) = s(x, y) := by
  rw [Sym2.eq_iff]
  constructor
  · intro h
    rcases List.mem_pair.mp (h.mem_iff.mp List.mem_cons_self) with rfl | rfl
    · have rest : [b].Perm [y] := h.cons_inv
      exact .inl ⟨rfl, List.perm_singleton.mp rest |> List.singleton_inj.mp⟩
    · have rest : [b].Perm [x] := (h.trans (.swap _ _ _)).cons_inv
      exact .inr ⟨rfl, List.perm_singleton.mp rest |> List.singleton_inj.mp⟩
  · rintro (⟨rfl, rfl⟩ | ⟨rfl, rfl⟩)
    · exact .refl _
    · exact .swap _ _ _

variable {base : Tables} {record : List (Pair × Int)} {c : Conn} {p : Pair}

theorem EmptyStore.stored (h : EmptyStore c) : Stored c.tables [] c where
  closed := h.closed
  good := {
    wellFormed := ⟨h.seq, by simp [h.chats], by simp [h.chats], by simp [h.members]⟩
    unique := by
      intro a b _
      simp [Tables.chatsOfPair, h.chats] }
  users := rfl
  ascending := by simp [h.chats]
  made := by simp [h.chats]
  kept := by simp
  seq := (Int.add_zero _).symm

/-- The pair of a chat in the table. -/
theorem Stored.pair (h : Stored base record c) {d : ChatRow} (hd : d ∈ c.tables.chats) :
    ∃ q, (q, d.id) ∈ record ∧ q.1 ≠ q.2 ∧ (c.tables.membersOf d.id).Perm [q.1, q.2] := by
  obtain ⟨-, q, hq⟩ := h.made d hd
  obtain ⟨different, -, members⟩ := h.kept q d.id hq
  exact ⟨q, hq, different, members⟩

/-- The lookup finds the chats with the pair's members. -/
theorem Stored.mem_directChats (h : Stored base record c) (different : p.1 ≠ p.2) {d : ChatRow} :
    d ∈ c.tables.directChats p.1 p.2 ↔
      d ∈ c.tables.chats ∧ (c.tables.membersOf d.id).Perm [p.1, p.2] := by
  rw [← Tables.chatsOfPair_eq _ different, Tables.chatsOfPair, List.mem_filter, Bool.and_eq_true,
    List.isPerm_iff]
  constructor
  · rintro ⟨hd, -, members⟩
    exact ⟨hd, members⟩
  · rintro ⟨hd, members⟩
    exact ⟨hd, by simp [(h.made d hd).1], members⟩

theorem Stored.found_iff (h : Stored base record c) (different : p.1 ≠ p.2) :
    c.tables.directChats p.1 p.2 = [] ↔ s(p.1, p.2) ∉ pairs (record.map (·.1)) := by
  simp only [pairs, List.map_map, List.mem_toFinset, List.mem_map, Function.comp_apply,
    List.eq_nil_iff_forall_not_mem, h.mem_directChats different, not_and, not_exists]
  constructor
  · intro none e he same
    obtain ⟨-, stored, members⟩ := h.kept e.1 e.2 he
    exact none _ stored (members.trans (perm_pair_iff_sym2.mpr same))
  · intro none d hd members
    obtain ⟨q, hq, -, its⟩ := h.pair hd
    exact none _ hq (perm_pair_iff_sym2.mp (its.symm.trans members))

theorem pairs_append (calls later : List Pair) :
    pairs (calls ++ later) = pairs calls ∪ pairs later := by
  simp [pairs, List.toFinset_append]

theorem pairs_singleton (p : Pair) : pairs [p] = {s(p.1, p.2)} := rfl

/-- A chat that is found is answered again. -/
theorem Stored.found (h : Stored base record c) (different : p.1 ≠ p.2) {d : ChatRow}
    (hd : d ∈ c.tables.directChats p.1 p.2) : Stored base (record ++ [(p, d.id)]) c where
  closed := h.closed
  good := h.good
  users := h.users
  ascending := h.ascending
  made := by
    intro e he
    obtain ⟨direct, q, hq⟩ := h.made e he
    exact ⟨direct, q, List.mem_append_left _ hq⟩
  kept := by
    intro q r hq
    cases List.mem_append.mp hq with
    | inl old => exact h.kept q r old
    | inr new =>
      cases List.mem_singleton.mp new
      obtain ⟨stored, members⟩ := (h.mem_directChats different).mp hd
      obtain ⟨direct, -⟩ := h.made d stored
      obtain ⟨id, isGroup⟩ := d
      cases direct
      exact ⟨different, stored, members⟩
  seq := by
    have known : s(p.1, p.2) ∈ pairs (record.map (·.1)) := by
      by_contra unknown
      rw [(h.found_iff different).mpr unknown] at hd
      cases hd
    rw [h.seq, List.map_append, pairs_append, List.map_singleton, pairs_singleton,
      Finset.union_eq_left.mpr (Finset.singleton_subset_iff.mpr known)]

/-- A pair that has no chat gets one. -/
theorem Stored.create (h : Stored base record c) (different : p.1 ≠ p.2) {c' : Conn}
    (notFound : c.tables.directChats p.1 p.2 = []) (closed : c'.saved = none)
    (tables : c'.tables = c.tables.withChat [p.1, p.2]) :
    Stored base (record ++ [(p, c.tables.chatSeq + 1)]) c' where
  closed := closed
  good := by
    rw [tables]
    exact ⟨Tables.withChat_wellFormed h.good.wellFormed _,
      Tables.withChat_uniqueDirect h.good.wellFormed h.good.unique notFound⟩
  users := by
    rw [tables]
    exact h.users
  ascending := by
    rw [tables]
    refine List.pairwise_append.mpr ⟨h.ascending, List.pairwise_singleton _ _, fun d hd e he => ?_⟩
    obtain rfl := List.mem_singleton.mp he
    have := h.good.wellFormed.chatBound d hd
    simp only
    omega
  made := by
    rw [tables]
    intro d hd
    cases List.mem_append.mp hd with
    | inl old =>
      obtain ⟨direct, q, hq⟩ := h.made d old
      exact ⟨direct, q, List.mem_append_left _ hq⟩
    | inr new =>
      obtain rfl := List.mem_singleton.mp new
      exact ⟨rfl, p, List.mem_append_right _ (List.mem_singleton_self _)⟩
  kept := by
    rw [tables]
    intro q r hq
    cases List.mem_append.mp hq with
    | inl old =>
      obtain ⟨distinct, stored, members⟩ := h.kept q r old
      have bound := h.good.wellFormed.chatBound _ stored
      simp only at bound
      refine ⟨distinct, List.mem_append_left _ stored, ?_⟩
      rwa [Tables.membersOf_withChat_old (by omega)]
    | inr new =>
      cases List.mem_singleton.mp new
      exact ⟨different, List.mem_append_right _ (List.mem_singleton_self _),
        Tables.membersOf_withChat_new h.good.wellFormed.memberBound _⟩
  seq := by
    have fresh := (h.found_iff different).mp notFound
    rw [tables, List.map_append, pairs_append, List.map_singleton, pairs_singleton,
      Finset.union_singleton, Finset.card_insert_of_notMem fresh, Int.natCast_add,
      ← Int.add_assoc, ← h.seq]
    rfl

/-- One call, as long as the next chat id is an `int`. -/
theorem Stored.call (h : Stored base record c) (different : p.1 ≠ p.2)
    (small : base.chatSeq + (pairs (record.map (·.1) ++ [p])).card < 2 ^ 31) :
    let answer := (ChatRepository.findOrCreateDirectChat p.1 p.2).run Conn.call c
    Stored base (record ++ [(p, answer.1)]) answer.2 := by
  rw [pairs_append, pairs_singleton] at small
  have le : (pairs (record.map (·.1))).card ≤ (pairs (record.map (·.1)) ∪ {s(p.1, p.2)}).card :=
    Finset.card_le_card Finset.subset_union_left
  have seq := h.seq
  have start := h.good.wellFormed.seq
  cases found : c.tables.directChats p.1 p.2 with
  | nil =>
    have fresh := (h.found_iff different).mp found
    rw [Finset.union_singleton, Finset.card_insert_of_notMem fresh] at small
    have uncut := toInt32_of_range (v := c.tables.chatSeq + 1) (by omega) (by omega)
    obtain ⟨id, closed, tables⟩ := ChatRepository.findOrCreateDirectChat_new h.closed different
      found h.good.wellFormed.memberBound uncut
    intro answer
    rw [id]
    exact h.create different found closed tables
  | cons d ds =>
    have hd : d ∈ c.tables.directChats p.1 p.2 := found ▸ List.mem_cons_self
    have stored := ((h.mem_directChats different).mp hd).1
    have pos := h.good.wellFormed.pos d stored
    have bound := h.good.wellFormed.chatBound d stored
    have uncut := toInt32_of_range (v := d.id) (by omega) (by omega)
    rw [ChatRepository.findOrCreateDirectChat_found found (by omega), uncut]
    exact h.found different hd

theorem Stored.callEach (h : Stored base record c) {calls : List Pair}
    (different : ∀ p ∈ calls, p.1 ≠ p.2)
    (small : base.chatSeq + (pairs (record.map (·.1) ++ calls)).card < 2 ^ 31) :
    let after := DirectChat.callEach calls c
    Stored base (record ++ after.1) after.2 := by
  induction calls generalizing record c with
  | nil => simpa [DirectChat.callEach] using h
  | cons p calls ih =>
    have split : pairs (record.map (·.1) ++ p :: calls) =
        pairs (record.map (·.1) ++ [p]) ∪ pairs calls := by
      rw [← pairs_append, List.append_assoc, List.singleton_append]
    have le : (pairs (record.map (·.1) ++ [p])).card ≤
        (pairs (record.map (·.1) ++ p :: calls)).card := by
      rw [split]
      exact Finset.card_le_card Finset.subset_union_left
    have first : base.chatSeq + (pairs (record.map (·.1) ++ [p])).card < 2 ^ 31 := by omega
    have next := h.call (different p List.mem_cons_self) first
    have rest := ih next (fun q hq => different q (List.mem_cons_of_mem p hq))
      (by simpa [List.append_assoc] using small)
    simpa [DirectChat.callEach, List.append_assoc] using rest

theorem map_callEach (calls : List Pair) (c : Conn) :
    (callEach calls c).1.map (·.1) = calls := by
  induction calls generalizing c with
  | nil => rfl
  | cons p calls ih => exact congrArg (p :: ·) (ih _)

/-- An id of the record is positive and survives the casts. -/
theorem Stored.range (h : Stored base record c)
    (small : base.chatSeq + (pairs (record.map (·.1))).card < 2 ^ 31) {e : Pair × Int}
    (he : e ∈ record) :
    0 < e.2 ∧ e.2 < 2 ^ 31 := by
  obtain ⟨-, stored, -⟩ := h.kept e.1 e.2 he
  have pos := h.good.wellFormed.pos _ stored
  have bound := h.good.wellFormed.chatBound _ stored
  have seq := h.seq
  simp only at pos bound
  omega

theorem toNat_ofInt_of_lt {v : Int} (pos : 0 ≤ v) (small : v < 2 ^ 31) :
    ((UInt32.ofInt v).toNat : Int) = v := by
  obtain ⟨n, rfl⟩ := Int.eq_ofNat_of_zero_le pos
  rw [UInt32.ofInt, UInt32.toNat_ofNat']
  omega

theorem toInt_ofInt_of_lt {v : Int} (pos : 0 ≤ v) (small : v < 2 ^ 31) :
    ChatRepository.toInt (UInt32.ofInt v) = v := by
  have exact := toNat_ofInt_of_lt pos small
  rw [ChatRepository.toInt, BitVec.toInt_eq_toNat_of_lt, UInt32.toNat_toBitVec, exact]
  rw [UInt32.toNat_toBitVec]
  omega

theorem ofInt_lt_ofInt {v w : Int} (pos : 0 ≤ v) (lt : v < w) (small : w < 2 ^ 31) :
    UInt32.ofInt v < UInt32.ofInt w := by
  have first := toNat_ofInt_of_lt pos (lt.trans small)
  have second := toNat_ofInt_of_lt (pos.trans lt.le) small
  rw [UInt32.lt_iff_toNat_lt]
  omega

theorem Stored.same_id (h : Stored base record c) {e e' : Pair × Int} (he : e ∈ record)
    (he' : e' ∈ record) : e.2 = e'.2 ↔ s(e.1.1, e.1.2) = s(e'.1.1, e'.1.2) := by
  obtain ⟨different, stored, members⟩ := h.kept e.1 e.2 he
  obtain ⟨-, stored', members'⟩ := h.kept e'.1 e'.2 he'
  rw [← perm_pair_iff_sym2]
  constructor
  · intro same
    rw [same] at members
    exact members.symm.trans members'
  · intro same
    have one := h.good.unique e.1.1 e.1.2 different
    rw [Tables.chatsOfPair_eq _ different] at one
    have first := (h.mem_directChats different).mpr ⟨stored, members⟩
    have second := (h.mem_directChats different).mpr ⟨stored', members'.trans same.symm⟩
    match hl : c.tables.directChats e.1.1 e.1.2, one with
    | [], _ =>
      rw [hl] at first
      cases first
    | [x], _ =>
      rw [hl] at first second
      have equal := (List.mem_singleton.mp first).trans (List.mem_singleton.mp second).symm
      exact congrArg ChatRow.id equal

/-- The members of a chat are `u` and `v`. -/
theorem pair_of_members {x y u v : Int} (hu : u ∈ [x, y]) (hv : v ∈ [x, y]) (differ : v ≠ u) :
    s(x, y) = s(u, v) := by
  rcases List.mem_pair.mp hu with rfl | rfl <;> rcases List.mem_pair.mp hv with rfl | rfl
  · exact absurd rfl differ
  · rfl
  · exact Sym2.eq_swap
  · exact absurd rfl differ

theorem Stored.listed (h : Stored base record c) (u : Int) (entry : ChatListEntry) :
    entry ∈ ((RepoOp.getUserChats u).exec c).1 ↔
    ∃ e ∈ record, ∃ v ∈ c.tables.users, s(e.1.1, e.1.2) = s(u, v.id) ∧
      entry = ⟨UInt32.ofInt e.2, cStr v.username⟩ := by
  rw [RepoOp.getUserChats_rows]
  simp only [List.mem_map, List.mem_insertionSort, List.mem_flatMap]
  constructor
  · rintro ⟨row, ⟨d, hd, hr⟩, rfl⟩
    obtain ⟨-, mine, _, other, differs, v, hv, rfl, rfl⟩ := Tables.mem_chatRows.mp hr
    obtain ⟨q, hq, -, members⟩ := h.pair hd
    refine ⟨(q, d.id), hq, v, hv, ?_, rfl⟩
    exact pair_of_members (members.mem_iff.mp mine) (members.mem_iff.mp other) differs
  · rintro ⟨e, he, v, hv, same, rfl⟩
    obtain ⟨different, stored, members⟩ := h.kept e.1 e.2 he
    have both := members.trans (perm_pair_iff_sym2.mpr same)
    have differs : v.id ≠ u := by
      rintro rfl
      apply different
      rw [Sym2.eq_iff] at same
      omega
    refine ⟨(e.2, v.username), ⟨_, stored, Tables.mem_chatRows.mpr ?_⟩, rfl⟩
    exact ⟨rfl, both.mem_iff.mpr List.mem_cons_self, v.id, both.mem_iff.mpr (by simp), differs, v,
      hv, rfl, rfl⟩

theorem Stored.descending (h : Stored base record c) (keys : (base.users.map (·.id)).Nodup)
    (small : base.chatSeq + (pairs (record.map (·.1))).card < 2 ^ 31) (u : Int) :
    ((RepoOp.getUserChats u).exec c).1.Pairwise fun x y => y.chatID < x.chatID := by
  have rows := @Tables.userChats_descending c.tables u (h.users ▸ keys) h.ascending fun d hd => by
    obtain ⟨q, -, -, members⟩ := h.pair hd
    exact ⟨q.1, q.2, members⟩
  rw [RepoOp.getUserChats_rows, List.pairwise_map]
  apply rows.imp_of_mem
  intro row row' hr hr' lt
  simp only [List.mem_insertionSort, List.mem_flatMap] at hr hr'
  obtain ⟨d, hd, hrow⟩ := hr
  obtain ⟨d', hd', hrow'⟩ := hr'
  obtain ⟨-, -, _, -, -, _, -, -, rfl⟩ := Tables.mem_chatRows.mp hrow
  obtain ⟨-, -, _, -, -, _, -, -, rfl⟩ := Tables.mem_chatRows.mp hrow'
  obtain ⟨q, hq, -⟩ := h.pair hd
  obtain ⟨q', hq', -⟩ := h.pair hd'
  have range := h.range small hq
  have range' := h.range small hq'
  exact ofInt_lt_ofInt range'.1.le lt range.2

theorem Stored.agrees (h : Stored base record c) (ints : ∀ e ∈ record, IsInt e.1.1 ∧ IsInt e.1.2)
    (keys : (base.users.map (·.id)).Nodup)
    (small : base.chatSeq + (pairs (record.map (·.1))).card < 2 ^ 31) : Agrees record c where
  positive := fun e he => (h.range small he).1
  same_id := fun e he e' he' => h.same_id he he'
  members := by
    intro e he
    have range := h.range small he
    have members := (h.kept e.1 e.2 he).2.2.map toInt32
    rw [RepoOp.getChatMemberIDs_exec, toInt_ofInt_of_lt range.1.le range.2]
    rwa [List.map_cons, List.map_singleton, (ints e he).1.toInt32_eq,
      (ints e he).2.toInt32_eq] at members
  descending := h.descending keys small
  listed := h.listed

/-- **The direct-chat store.** After any sequence of calls for two different users, one call
after the other, as long as the chats still have ids that are an `int`: every result is
positive, two results are equal for the same pair only, a chat's members are its pair, and a
user's list has, in descending order, each chat with a peer who is still a user. -/
theorem direct_chat_store (c : Conn) (empty : EmptyStore c) (calls : List Pair)
    (ints : ∀ p ∈ calls, IsInt p.1 ∧ IsInt p.2) (different : ∀ p ∈ calls, p.1 ≠ p.2)
    (small : c.tables.chatSeq + (pairs calls).card < 2 ^ 31) :
    let after := callEach calls c
    after.1.map (·.1) = calls ∧ after.2.tables.users = c.tables.users ∧
      Agrees after.1 after.2 := by
  intro after
  have record : after.1.map (·.1) = calls := map_callEach calls c
  have stored : Stored c.tables after.1 after.2 := by
    have run := empty.stored.callEach different small
    simpa using run
  refine ⟨record, stored.users, stored.agrees (fun e he => ?_) empty.keys (record ▸ small)⟩
  exact ints e.1 (record ▸ List.mem_map_of_mem he)

def threeUsers : Conn := { tables := { users := [⟨1, [97], []⟩, ⟨2, [98], []⟩, ⟨3, [99], []⟩] } }

/-- Both orders of a pair, and a second chat of one of the two. -/
theorem direct_chat_store_two_chats :
    let after := callEach [(1, 2), (2, 1), (3, 1)] threeUsers
    after.1.map (·.1) = [(1, 2), (2, 1), (3, 1)] ∧ after.2.tables.users = threeUsers.tables.users ∧
      Agrees after.1 after.2 :=
  direct_chat_store threeUsers ⟨rfl, rfl, rfl, by decide, by decide⟩ _ (by decide) (by decide)
    (by decide)

/-! ## More chats than ids -/

theorem callEach_append (calls later : List Pair) (c : Conn) :
    (callEach (calls ++ later) c).1 = (callEach calls c).1 ++
      (callEach later (callEach calls c).2).1 := by
  induction calls generalizing c with
  | nil => rfl
  | cons p calls ih => exact congrArg (_ :: ·) (ih _)

/-- One user's chats with `n` others. -/
def fan (n : Nat) : List Pair := (List.range n).map fun k : Nat => (0, (k : Int) + 1)

theorem card_pairs_fan (n : Nat) : (pairs (fan n)).card = n := by
  have distinct : ((fan n).map fun p => s(p.1, p.2)).Nodup := by
    rw [fan, List.map_map]
    apply List.Nodup.map _ List.nodup_range
    intro i j same
    rcases Sym2.eq_iff.mp same with ⟨-, e⟩ | ⟨e, e'⟩
    · simp only at e
      omega
    · simp only at e e'
      omega
  rw [pairs, List.toFinset_card_of_nodup distinct, List.length_map, fan, List.length_map,
    List.length_range]

theorem fan_different (n : Nat) : ∀ p ∈ fan n, p.1 ≠ p.2 := by
  intro p hp
  obtain ⟨k, -, rfl⟩ := List.mem_map.mp hp
  simp only
  omega

theorem fan_int {n : Nat} (small : n ≤ 2 ^ 31 - 1) : ∀ p ∈ fan n, IsInt p.1 ∧ IsInt p.2 := by
  intro p hp
  obtain ⟨k, hk, rfl⟩ := List.mem_map.mp hp
  have := List.mem_range.mp hk
  simp only [IsInt]
  omega

theorem toInt32_overflow : toInt32 (2 ^ 31) = -2 ^ 31 := by decide

/-- The pair after the last one whose chat id is an `int` gets no positive id. -/
theorem next_after_fan {n : Nat} (last : n + 1 = 2 ^ 31) :
    ∃ e ∈ (callEach (fan n ++ [(1, 2)]) {}).1, e.2 < 0 := by
  have empty : EmptyStore {} := ⟨rfl, rfl, rfl, by decide, by decide⟩
  have card := card_pairs_fan n
  have none : ({} : Tables).chatSeq = 0 := rfl
  have run := empty.stored.callEach (fan_different n) (by
    rw [List.map_nil, List.nil_append, card, none]
    omega)
  simp only [List.nil_append] at run
  generalize after : callEach (fan n) {} = first at run
  have record : first.1.map (·.1) = fan n := after ▸ map_callEach _ _
  have seq := run.seq
  rw [record, card, none] at seq
  have notFound : first.2.tables.directChats 1 2 = [] := by
    have new : s(1, 2) ∉ pairs (fan n) := by
      simp only [pairs, fan, List.map_map, List.mem_toFinset, List.mem_map, Function.comp_apply,
        Sym2.eq_iff]
      omega
    exact (run.found_iff (p := (1, 2)) (by decide)).mpr (record ▸ new)
  have answer := ChatRepository.findOrCreateDirectChat_cast run.closed notFound
  have id : first.2.tables.chatSeq + 1 = 2 ^ 31 := by omega
  rw [id, toInt32_overflow] at answer
  have negative : ((ChatRepository.findOrCreateDirectChat 1 2).run Conn.call first.2).1 < 0 := by
    rcases answer with answer | answer <;> rw [answer] <;> decide
  refine ⟨((1, 2), _), ?_, negative⟩
  rw [callEach_append, after]
  exact List.mem_append_right _ (List.mem_singleton_self _)

/-- One call more than there are chat ids. -/
def oneTooMany : List Pair := fan (2 ^ 31 - 1) ++ [(1, 2)]

/-- The id of the last chat is cast to a negative number. -/
theorem chat_ids_run_out :
    EmptyStore {} ∧ (∀ p ∈ oneTooMany, (IsInt p.1 ∧ IsInt p.2) ∧ p.1 ≠ p.2) ∧
      ¬ Agrees (callEach oneTooMany {}).1 (callEach oneTooMany {}).2 := by
  refine ⟨⟨rfl, rfl, rfl, by decide, by decide⟩, fun p hp => ?_, fun agrees => ?_⟩
  · rcases List.mem_append.mp hp with old | last
    · exact ⟨fan_int (Nat.le_refl _) p old, fan_different _ p old⟩
    · rw [List.mem_singleton.mp last]
      decide
  · obtain ⟨e, he, negative⟩ := next_after_fan (n := 2 ^ 31 - 1) rfl
    have positive := agrees.positive e he
    omega

end DirectChat

end Cvcn
