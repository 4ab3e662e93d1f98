import Cvcn.Services.Authorisation
import Cvcn.Services.Community
import Cvcn.Storage.ChatStore

/-!
# The community in the tables

The four tables and their counters are a function of the community: a row for each person, a
row and two members for each chat, and a row for each post. Every repository method that the
services call answers what the community answers, and leaves the tables of the community that
it leaves.
-/

namespace Cvcn

open Atomic

def Person.row (p : Person) : UserRow := ⟨p.id, p.name, config.PASSWORD_HASH_PREFIX ++ p.password⟩

namespace Community

variable (c : Community)

/-- What the tables of the database are. -/
def tables : Tables where
  users := c.people.map Person.row
  chats := (c.chats.zipIdx 1).map fun (_, n) => ⟨n, false⟩
  chatMembers := (c.chats.zipIdx 1).flatMap fun (p, n) => [⟨n, p.1⟩, ⟨n, p.2⟩]
  messages := (c.posts.zipIdx 1).map fun (m, n) =>
    ⟨n, ChatRepository.toInt m.chat, m.author, m.text⟩
  userSeq := c.issued
  chatSeq := c.chats.length
  messageSeq := c.posts.length

/-! ## The people -/

variable {c} {p q : Person} {name password : Bytes}

/-- A valid name and a valid password have no NUL in them. -/
theorem credentials_clean (valid : Validator.Within 64 Validator.isCredentialChar name ∧
    Validator.Within 127 Validator.isCredentialChar password) :
    cStr name = name ∧ cStr (config.PASSWORD_HASH_PREFIX ++ password) =
      config.PASSWORD_HASH_PREFIX ++ password := by
  refine ⟨Validator.cStr_of_bounded (Validator.bounded_iff.mpr valid.1) rfl, ?_⟩
  have rest : cStr password = password :=
    Validator.cStr_of_bounded (Validator.bounded_iff.mpr valid.2) rfl
  exact congrArg (config.PASSWORD_HASH_PREFIX ++ ·) rest

theorem eq_of_name (hp : p ∈ c.people) (hq : q ∈ c.people) (same : p.name = q.name) : p = q :=
  List.inj_on_of_nodup_map c.names hp hq same

theorem find_users (name : Bytes) :
    c.tables.users.find? (·.username == name) = (c.named name).map Person.row :=
  List.find?_map

theorem any_users (name : Bytes) :
    c.tables.users.any (·.username == name) = (c.people.map (·.name)).contains name := by
  rw [Bool.eq_iff_iff, List.any_eq_true, List.contains_iff_mem]
  simp [tables, Person.row, List.mem_map]

theorem authenticate_eq_some :
    c.authenticate name password = some p ↔
      p ∈ c.people ∧ p.name = name ∧ p.password = password := by
  rw [authenticate, Option.filter_eq_some_iff, named]
  constructor
  · rintro ⟨found, right⟩
    have mem := List.mem_of_find?_eq_some found
    have its := List.find?_some found
    exact ⟨mem, beq_iff_eq.mp its, beq_iff_eq.mp right⟩
  · rintro ⟨hp, rfl, rfl⟩
    refine ⟨?_, beq_self_eq_true _⟩
    cases found : c.people.find? (·.name == p.name) with
    | none =>
      rw [List.find?_eq_none] at found
      exact absurd (beq_self_eq_true p.name) (found p hp)
    | some q =>
      have its := List.find?_some found
      rw [eq_of_name (List.mem_of_find?_eq_some found) hp (beq_iff_eq.mp its)]

theorem named_of_authenticate (right : c.authenticate name password = some p) :
    c.named name = some p :=
  (Option.filter_eq_some_iff.mp right).1

/-- The stored hash is that of the password. -/
theorem stored_hash (c : Community) (name password : Bytes) :
    let storedHash := (((c.named name).map Person.row).map fun u => cStr u.passwordHash).getD []
    (!storedHash.isEmpty && storedHash == config.PASSWORD_HASH_PREFIX ++ password) =
      (c.authenticate name password).isSome := by
  intro storedHash
  cases found : c.named name with
  | none =>
    simp [storedHash, authenticate, found]
  | some p =>
    have hash : storedHash = config.PASSWORD_HASH_PREFIX ++ p.password := by
      simp only [storedHash, found, Option.map_some, Option.getD_some]
      exact (credentials_clean p.valid).2
    have nonempty : (config.PASSWORD_HASH_PREFIX ++ p.password).isEmpty = false := rfl
    have cancel : (config.PASSWORD_HASH_PREFIX ++ p.password ==
        config.PASSWORD_HASH_PREFIX ++ password) = (p.password == password) := by
      rw [Bool.eq_iff_iff, beq_iff_eq, beq_iff_eq, List.append_cancel_left_eq]
    rw [hash, nonempty, cancel, authenticate, found]
    cases right : p.password == password <;> simp [Option.filter, right]

theorem register_tables (c : Community)
    (valid : Validator.Within 64 Validator.isCredentialChar name ∧
      Validator.Within 127 Validator.isCredentialChar password) :
    let made := c.register name password valid
    let t := c.tables
    (t.users.any (·.username == name) = true → made.1 = c ∧ made.2 = false) ∧
      (t.users.any (·.username == name) = false → made.2 = true ∧ made.1.tables = { t with
        users := t.users ++ [⟨t.userSeq + 1, name, config.PASSWORD_HASH_PREFIX ++ password⟩]
        userSeq := t.userSeq + 1 }) := by
  intro made t
  constructor
  · intro taken
    rw [any_users] at taken
    have same : made = (c, false) := dif_neg (by rw [taken]; decide)
    rw [same]
    exact ⟨rfl, rfl⟩
  · intro free
    rw [any_users] at free
    have new : made = _ := dif_pos free
    rw [new]
    refine ⟨rfl, ?_⟩
    simp only [tables, List.map_append, List.map_singleton]
    rfl

/-- The rows that a deletion hits. -/
theorem hit_iff (hq : q ∈ c.people) :
    (q.row.username == name && q.row.passwordHash == config.PASSWORD_HASH_PREFIX ++ password) =
      true ↔ c.authenticate name password = some q := by
  rw [authenticate_eq_some, Bool.and_eq_true, beq_iff_eq, beq_iff_eq]
  simp [Person.row, hq]

theorem delete_tables (c : Community) (name password : Bytes) :
    let hit := fun u : UserRow =>
      u.username == name && u.passwordHash == config.PASSWORD_HASH_PREFIX ++ password
    let left := c.delete name password
    decide (c.tables.users.countP hit > 0) = left.2 ∧
      left.1.tables = { c.tables with users := c.tables.users.filter (!hit ·) } := by
  intro hit left
  have hits : ∀ q ∈ c.people, hit q.row = true ↔ c.authenticate name password = some q :=
    fun q hq => hit_iff hq
  cases found : c.authenticate name password with
  | none =>
    have same : left = (c, false) := by
      simp only [left, delete, found]
    have none : ∀ u ∈ c.tables.users, hit u = false := by
      intro u hu
      obtain ⟨q, hq, rfl⟩ := List.mem_map.mp hu
      by_contra hits'
      have := (hits q hq).mp (Bool.eq_true_of_not_eq_false hits')
      rw [found] at this
      cases this
    rw [same]
    refine ⟨?_, ?_⟩
    · rw [decide_eq_false_iff_not, gt_iff_lt, List.countP_pos_iff]
      rintro ⟨u, hu, hits'⟩
      rw [none u hu] at hits'
      cases hits'
    · have all : c.tables.users.filter (!hit ·) = c.tables.users :=
        List.filter_eq_self.mpr fun u hu => by rw [none u hu]; rfl
      rw [all]
  | some p =>
    have gone : left.2 = true ∧ left.1.people = c.people.filter (· != p) ∧
        left.1.tables = { c.tables with users := (c.people.filter (· != p)).map Person.row } := by
      simp only [left, delete, found, true_and]
      rfl
    obtain ⟨hp, -, -⟩ := authenticate_eq_some.mp found
    refine ⟨?_, ?_⟩
    · rw [gone.1, decide_eq_true_iff, gt_iff_lt, List.countP_pos_iff]
      exact ⟨p.row, List.mem_map_of_mem hp, (hits p hp).mpr found⟩
    · rw [gone.2.2]
      have rows : c.tables.users.filter (!hit ·) = (c.people.filter (· != p)).map Person.row := by
        simp only [tables, List.filter_map]
        congr 1
        apply List.filter_congr
        intro q hq
        have only := hits q hq
        rw [found, Option.some.injEq] at only
        rw [Function.comp_apply, Bool.eq_iff_iff, Bool.not_eq_true', bne_iff_ne,
          ← Bool.not_eq_true, only]
        exact not_congr eq_comm
      rw [rows]

theorem Small.toInt32_id (small : c.Small) (hp : p ∈ c.people) : toInt32 p.id = p.id := by
  have bound := small.people
  have range := c.range p hp
  exact toInt32_of_range (by omega) (by omega)

/-! ## The chats -/

/-- The first element with a property, and its number. -/
theorem head?_filter_zipIdx {α : Type} (q : α → Bool) (l : List α) (m : Nat) :
    (((l.zipIdx m).filter fun x => q x.1).map (·.2)).head? = (l.findIdx? q).map (· + m) := by
  induction l generalizing m with
  | nil => rfl
  | cons a l ih =>
    rw [List.zipIdx_cons, List.filter_cons, List.findIdx?_cons]
    split
    · simp
    · rw [ih, Option.map_map]
      congr 1
      funext k
      simp only [Function.comp_apply]
      omega

theorem members_zipIdx (l : List (Int × Int)) (m : Nat) (k : Int) :
    (((l.zipIdx m).flatMap fun x => [(⟨x.2, x.1.1⟩ : MemberRow), ⟨x.2, x.1.2⟩]).filter
        (·.chatID == k)).map (·.userID) =
      if k < m then [] else
        match l[k.toNat - m]? with
        | some p => [p.1, p.2]
        | none => [] := by
  induction l generalizing m with
  | nil => simp
  | cons p l ih =>
    rw [List.zipIdx_cons, List.flatMap_cons, List.filter_append, List.map_append, ih]
    by_cases below : k < m
    · have other : (m : Int) ≠ k := by omega
      have next : k < (m + 1 : Nat) := by omega
      rw [if_pos below, if_pos next]
      simp [other]
    · by_cases here : k = m
      · subst here
        have next : (m : Int) < (m + 1 : Nat) := by omega
        rw [if_neg below, if_pos next]
        simp
      · have other : (m : Int) ≠ k := Ne.symm here
        have next : ¬ k < (m + 1 : Nat) := by omega
        have index : k.toNat - m = (k.toNat - (m + 1)) + 1 := by omega
        rw [if_neg below, if_neg next, index]
        simp [other]

/-- The primary key orders the two of a chat. -/
theorem sorted_pair (a b : Int) : [a, b].insertionSort (· ≤ ·) = [min a b, max a b] := by
  simp only [List.insertionSort_cons, List.insertionSort_nil, List.orderedInsert_nil,
    List.orderedInsert_cons]
  split
  · rename_i le
    rw [min_eq_left le, max_eq_right le]
  · rename_i gt
    rw [min_eq_right (by omega), max_eq_left (by omega)]

theorem min_max_perm (a b : Int) : [min a b, max a b].Perm [a, b] :=
  sorted_pair a b ▸ List.perm_insertionSort _ _

theorem membersOf_chat {x : (Int × Int) × Nat} (hx : x ∈ c.chats.zipIdx 1) :
    c.tables.membersOf x.2 = [min x.1.1 x.1.2, max x.1.1 x.1.2] := by
  obtain ⟨above, place⟩ := List.mk_mem_zipIdx_iff_le_and_getElem?_sub.mp hx
  have rows := members_zipIdx c.chats 1 x.2
  have low : ¬ (x.2 : Int) < (1 : Nat) := by omega
  rw [if_neg low, Int.toNat_natCast, place] at rows
  exact (congrArg _ rows).trans (sorted_pair _ _)

theorem members_tables (small : c.Small) (chat : UInt32) :
    c.tables.membersOf (ChatRepository.toInt chat) = c.members chat := by
  have few := small.chats
  have rows := members_zipIdx c.chats 1 (ChatRepository.toInt chat)
  have width := chat.toNat_lt
  refine (congrArg (List.insertionSort (· ≤ ·)) rows).trans ?_
  have value : ChatRepository.toInt chat =
      if chat.toNat < 2 ^ 31 then (chat.toNat : Int) else chat.toNat - 2 ^ 32 := by
    rw [ChatRepository.toInt, BitVec.toInt_eq_toNat_cond, UInt32.toNat_toBitVec]
    split <;> split <;> omega
  unfold members
  by_cases zero : chat = 0
  · subst zero
    rfl
  · have positive : 0 < chat.toNat := by
      apply Nat.pos_of_ne_zero
      intro none
      exact zero (UInt32.toNat_inj.mp none)
    rw [if_neg zero, value]
    by_cases low : chat.toNat < 2 ^ 31
    · rewrite [if_pos low, if_neg (by omega), Int.toNat_natCast]
      cases c.chats[chat.toNat - 1]? with
      | none => rfl
      | some p => exact sorted_pair _ _
    · have outside : c.chats[chat.toNat - 1]? = none := by
        rw [List.getElem?_eq_none_iff]
        omega
      rw [if_neg low, if_pos (by omega), outside]
      rfl

/-- The query returns the members with their ids. -/
theorem members_toInt32 (small : c.Small)
    (owners : ∀ p ∈ c.chats, c.Issued p.1 ∧ c.Issued p.2) (chat : UInt32) :
    (c.members chat).map toInt32 = c.members chat := by
  have bound := small.people
  unfold members
  split
  · rfl
  · split
    · rename_i p found
      obtain ⟨first, second⟩ := owners p (List.mem_of_getElem? found)
      have low : 0 < min p.1 p.2 := lt_min first.1 second.1
      have high : max p.1 p.2 ≤ c.issued := max_le first.2 second.2
      have order : min p.1 p.2 ≤ max p.1 p.2 := min_le_max
      rw [List.map_cons, List.map_singleton, toInt32_of_range (by omega) (by omega),
        toInt32_of_range (by omega) (by omega)]
    · rfl

/-- A chat is the pair's if it has the same two members. -/
theorem isDirectChat_chat {x : (Int × Int) × Nat} (hx : x ∈ c.chats.zipIdx 1) {a b : Int}
    (different : a ≠ b) :
    c.tables.isDirectChat a b ⟨x.2, false⟩ = (s(x.1.1, x.1.2) == s(a, b)) := by
  have members := membersOf_chat hx
  have same := min_max_perm x.1.1 x.1.2
  have mem (u : Int) : c.tables.chatMembers.contains ⟨x.2, u⟩ = true ↔ u ∈ [x.1.1, x.1.2] := by
    rw [List.contains_iff_mem, ← Tables.mem_membersOf, members, same.mem_iff]
  have perm := (Tables.perm_pair_iff different (l := [x.1.1, x.1.2])).symm.trans
    DirectChat.perm_pair_iff_sym2
  rw [Bool.eq_iff_iff, beq_iff_eq, ← perm]
  simp only [Tables.isDirectChat, Bool.and_eq_true, mem, members, same.length_eq, Bool.not_false,
    beq_iff_eq, and_true, and_assoc]

theorem directChats_tables {a b : Int} (different : a ≠ b) :
    (c.tables.directChats a b).map (·.id) =
      ((c.chats.zipIdx 1).filter fun x => s(x.1.1, x.1.2) == s(a, b)).map fun x => (x.2 : Int) := by
  have rows : c.tables.directChats a b =
      ((c.chats.zipIdx 1).filter fun x => s(x.1.1, x.1.2) == s(a, b)).map
        fun x => ⟨x.2, false⟩ := by
    simp only [Tables.directChats, tables, List.filter_map]
    congr 1
    exact List.filter_congr fun x hx => isDirectChat_chat hx different
  rw [rows, List.map_map]
  rfl

theorem head?_directChats {a b : Int} (different : a ≠ b) :
    ((c.tables.directChats a b).map (·.id)).head? = (c.chatOf a b).map ((↑) : Nat → Int) := by
  have first := head?_filter_zipIdx (fun p : Int × Int => s(p.1, p.2) == s(a, b)) c.chats 1
  rw [directChats_tables different, chatOf, ← first, ← List.head?_map, List.map_map]
  rfl

theorem bounded_tables : c.tables.Bounded := by
  intro m hm
  obtain ⟨x, hx, mine⟩ := List.mem_flatMap.mp hm
  obtain ⟨above, place⟩ := List.mk_mem_zipIdx_iff_le_and_getElem?_sub.mp hx
  have below := (List.getElem?_eq_some_iff.mp place).1
  have number : m.chatID = x.2 := by
    rcases List.mem_pair.mp mine with rfl | rfl <;> rfl
  rw [number]
  have seq : c.tables.chatSeq = c.chats.length := rfl
  omega

theorem withChat_tables (c : Community) (a b : Int) :
    c.tables.withChat [a, b] = { c.tables with
      chats := ((c.chats ++ [(a, b)]).zipIdx 1).map fun (_, n) => ⟨n, false⟩
      chatMembers := ((c.chats ++ [(a, b)]).zipIdx 1).flatMap fun (p, n) => [⟨n, p.1⟩, ⟨n, p.2⟩]
      chatSeq := (c.chats ++ [(a, b)]).length } := by
  have next : (c.chats.length : Int) + 1 = (1 + c.chats.length : Nat) := by omega
  simp only [Tables.withChat, tables, List.zipIdx_append, List.map_append, List.flatMap_append,
    List.length_append, List.length_singleton, List.zipIdx_singleton,
    List.flatMap_singleton, List.map_cons, List.map_nil, next, Nat.add_comm]

theorem chatOf_le {a b : Int} {n : Nat} (known : c.chatOf a b = some n) :
    n ≤ c.chats.length := by
  obtain ⟨k, found, rfl⟩ := Option.map_eq_some_iff.mp known
  exact (List.findIdx?_eq_some_iff_getElem.mp found).1

theorem openChat_unknown {a b : Int} (different : a ≠ b) (unknown : c.chatOf a b = none) :
    (c.openChat a b different).1.chats = c.chats ++ [(a, b)] := by
  unfold openChat
  split
  · rename_i known
    rw [unknown] at known
    cases known
  · rfl

/-- A chat is looked up by its members, in any order, and made if there is none. -/
theorem findOrCreateDirectChat_exec {conn : Conn} (tables : conn.tables = c.tables)
    (closed : conn.saved = none) {a b : Int} (different : a ≠ b)
    (small : (c.openChat a b different).1.Small) :
    let answer := (RepoOp.findOrCreateDirectChat a b).exec conn
    let opened := c.openChat a b different
    answer.1 = opened.2 ∧ answer.2.tables = opened.1.tables ∧ answer.2.saved = none := by
  intro answer opened
  have first := head?_directChats (c := c) different
  rw [← tables] at first
  have few := small.chats
  have run : answer = (ChatRepository.findOrCreateDirectChat a b).run Conn.call conn := rfl
  rw [run]
  unfold opened
  unfold openChat
  split
  · rename_i n known
    rw [known, Option.map_some, List.head?_map] at first
    cases found : conn.tables.directChats a b with
    | nil =>
      rw [found] at first
      cases first
    | cons d ds =>
      rw [found] at first
      have id_eq : d.id = (n : Int) := Option.some.inj first
      have inside := chatOf_le known
      have kept := (c.openChat_grows different).chats.length_le
      have uncut : toInt32 d.id = n := by
        rw [id_eq, toInt32_of_range (by omega) (by omega)]
      rw [ChatRepository.findOrCreateDirectChat_found found (by omega)]
      exact ⟨uncut, tables, closed⟩
  · rename_i unknown
    rw [unknown, Option.map_none, List.head?_eq_none_iff, List.map_eq_nil_iff] at first
    have bounded : conn.tables.Bounded := tables ▸ bounded_tables
    have next : conn.tables.chatSeq = c.chats.length := by
      rw [tables]
      rfl
    have uncut : toInt32 (conn.tables.chatSeq + 1) = conn.tables.chatSeq + 1 := by
      rw [openChat_unknown different unknown, List.length_append, List.length_singleton] at few
      rw [next, toInt32_of_range (by omega) (by omega)]
    obtain ⟨made, committed, rows⟩ := ChatRepository.findOrCreateDirectChat_new closed different
      first bounded uncut
    rw [tables, withChat_tables] at rows
    refine ⟨?_, rows, committed⟩
    rw [made, next]
    exact (Int.natCast_succ _).symm

theorem openChat_pos (c : Community) {a b : Int} (different : a ≠ b) :
    0 < (c.openChat a b different).2 := by
  unfold openChat
  split
  · rename_i n known
    obtain ⟨k, -, rfl⟩ := Option.map_eq_some_iff.mp known
    exact k.succ_pos
  · exact Nat.succ_pos _

theorem post_tables (c : Community) (chat : UInt32) (author : Int) (text : Bytes) :
    (c.post chat author text).tables = { c.tables with
      messages := c.tables.messages ++
        [⟨c.tables.messageSeq + 1, ChatRepository.toInt chat, author, text⟩]
      messageSeq := c.tables.messageSeq + 1 } := by
  have next : (c.posts.length : Int) + 1 = (1 + c.posts.length : Nat) := by omega
  simp only [post, tables, List.zipIdx_append, List.map_append, List.length_append,
    List.length_singleton, List.zipIdx_singleton, List.map_cons, List.map_nil, next, Nat.add_comm]

/-! ## What is listed -/

theorem findUsers_exec {conn : Conn} (tables : conn.tables = c.tables) (query : Bytes) (me : Int) :
    (RepoOp.findUsers query me).exec conn = (c.search query me, conn) := by
  have valid : ∀ u ∈ conn.tables.users, Validator.validateUsername u.username = true := by
    rw [tables]
    intro u hu
    obtain ⟨p, -, rfl⟩ := List.mem_map.mp hu
    exact Validator.bounded_iff.mpr p.valid.1
  have found := RepoOp.findUsers_exec valid query me
  have names : conn.tables.otherNames me = (c.people.filter (·.id != me)).map (·.name) := by
    rw [tables, Tables.otherNames, Community.tables, List.filter_map, List.map_map]
    rfl
  rw [names] at found
  exact Prod.ext found rfl

theorem filter_users (c : Community) (id : Int) :
    c.tables.users.filter (·.id == id) = ((c.withID id).map Person.row).toList := by
  have rows : c.tables.users.filter (·.id == id) = (c.people.filter (·.id == id)).map Person.row :=
    List.filter_map
  have ascending := c.ascending.filter (·.id == id)
  have same : ∀ p ∈ c.people.filter (·.id == id), p.id = id := fun p hp => by
    simpa using (List.mem_filter.mp hp).2
  rw [rows, withID, ← List.head?_filter]
  generalize c.people.filter (·.id == id) = found at ascending same
  match found, ascending, same with
  | [], _, _ => rfl
  | [p], _, _ => rfl
  | p :: q :: rest, ascending, same =>
    have less := (List.pairwise_cons.mp ascending).1 q List.mem_cons_self
    have first := same p List.mem_cons_self
    have second := same q (List.mem_cons_of_mem p List.mem_cons_self)
    omega

/-- Without one of the two the other is left. -/
theorem pair_without {a b : Int} (different : a ≠ b) (me : Int) :
    [min a b, max a b].filter (· != me) =
      if a = me then [b] else if b = me then [a] else [min a b, max a b] := by
  have other (u v : Int) (ne : u ≠ v) : [u, v].filter (· != me) =
      if u = me then [v] else if v = me then [u] else [u, v] := by
    by_cases first : u = me
    · subst first
      simp [ne.symm]
    · by_cases second : v = me
      · subst second
        simp [ne]
      · simp [first, second]
  cases le_total a b with
  | inl le =>
    rw [min_eq_left le, max_eq_right le]
    exact other a b different
  | inr ge =>
    rw [min_eq_right ge, max_eq_left ge, other b a different.symm]
    by_cases first : b = me
    · subst first
      simp [different]
    · simp [first]

/-- One row at most: the chat's other member, if he has an account. -/
theorem chatRows_tables {x : (Int × Int) × Nat} (hx : x ∈ c.chats.zipIdx 1) (me : Int) :
    c.tables.chatRows me ⟨x.2, false⟩ =
      ((c.entryOf me x).map fun e => ((e.1 : Int), e.2)).toList := by
  obtain ⟨⟨a, b⟩, n⟩ := x
  have members : c.tables.membersOf n = [min a b, max a b] := membersOf_chat hx
  have different : a ≠ b := by
    obtain ⟨-, place⟩ := List.mk_mem_zipIdx_iff_le_and_getElem?_sub.mp hx
    exact c.proper _ (List.mem_of_getElem? place)
  have mine : c.tables.chatMembers.contains ⟨n, me⟩ = decide (me = a ∨ me = b) := by
    have mem : me ∈ c.tables.membersOf n ↔ me = a ∨ me = b := by
      rw [members, (min_max_perm a b).mem_iff]
      simp
    rw [Bool.eq_iff_iff, List.contains_iff_mem, ← Tables.mem_membersOf, mem, decide_eq_true_iff]
  simp only [Tables.chatRows, members, pair_without different, mine, Bool.not_false, Bool.and_true,
    decide_eq_true_eq, filter_users, entryOf, peerOf]
  by_cases first : a = me
  · subst first
    simp only [if_true, true_or, List.flatMap_singleton, Option.bind_some]
    cases c.withID b <;> rfl
  · by_cases second : b = me
    · subst second
      simp only [if_neg first, if_true, or_true, List.flatMap_singleton, Option.bind_some]
      cases c.withID a <;> rfl
    · have stranger : ¬ (me = a ∨ me = b) := by
        rintro (rfl | rfl)
        · exact first rfl
        · exact second rfl
      simp [stranger, first, second]

theorem ofInt_natCast (n : Nat) : UInt32.ofInt n = UInt32.ofNat n := by
  apply UInt32.toNat_inj.mp
  rw [UInt32.ofInt, UInt32.toNat_ofNat', UInt32.toNat_ofNat']
  omega

/-- Sorting what is in ascending order the other way turns it around. -/
theorem sort_descending {α : Type} {l : List (Int × α)} (ascending : l.Pairwise (·.1 < ·.1)) :
    l.insertionSort (fun x y => x.1 ≥ y.1) = l.reverse := by
  have keys : (l.map (·.1)).Nodup := by
    rw [List.Nodup, List.pairwise_map]
    exact ascending.imp fun less => Int.ne_of_lt less
  have perm := (List.perm_insertionSort (fun x y : Int × α => x.1 ≥ y.1) l).trans
    l.reverse_perm.symm
  have same : ∀ x y, x ∈ l.insertionSort (fun x y => x.1 ≥ y.1) → y ∈ l.reverse →
      x.1 ≥ y.1 → y.1 ≥ x.1 → x = y := by
    intro x y hx hy above below
    rw [List.mem_insertionSort] at hx
    rw [List.mem_reverse] at hy
    exact List.inj_on_of_nodup_map keys hx hy (Int.le_antisymm below above)
  have reversed : l.reverse.Pairwise fun x y => x.1 ≥ y.1 := by
    rw [List.pairwise_reverse]
    exact ascending.imp fun less => Int.le_of_lt less
  exact perm.eq_of_pairwise same (List.pairwise_insertionSort _ l) reversed

theorem entries_ascending (me : Int) :
    (((c.chats.zipIdx 1).filterMap (c.entryOf me)).map fun e => ((e.1 : Int), e.2)).Pairwise
      (·.1 < ·.1) := by
  have numbers : (c.chats.zipIdx 1).Pairwise fun x y => x.2 < y.2 := by
    have range : ((c.chats.zipIdx 1).map (·.2)).Pairwise (· < ·) := by
      rw [List.zipIdx_map_snd]
      exact List.pairwise_lt_range'
    rwa [List.pairwise_map] at range
  rw [List.pairwise_map, List.pairwise_filterMap]
  apply numbers.imp
  intro x y less e he f hf
  obtain ⟨_, -, rest⟩ := Option.bind_eq_some_iff.mp he
  obtain ⟨_, -, rfl⟩ := Option.map_eq_some_iff.mp rest
  obtain ⟨_, -, rest'⟩ := Option.bind_eq_some_iff.mp hf
  obtain ⟨_, -, rfl⟩ := Option.map_eq_some_iff.mp rest'
  simp only
  omega

/-- The join, the sort and the casts are the list of chats. -/
theorem getUserChats_exec {conn : Conn} (tables : conn.tables = c.tables) (small : c.Small)
    (me : Int) :
    (RepoOp.getUserChats me).exec conn =
      ((c.chatList me).map fun e => ⟨UInt32.ofNat e.1, e.2⟩, conn) := by
  have rows : c.tables.chats.flatMap (c.tables.chatRows me) =
      ((c.chats.zipIdx 1).filterMap (c.entryOf me)).map fun e => ((e.1 : Int), e.2) := by
    have each : c.tables.chats.flatMap (c.tables.chatRows me) =
        (c.chats.zipIdx 1).flatMap fun x =>
          ((c.entryOf me x).map fun e => ((e.1 : Int), e.2)).toList := by
      rw [Community.tables, List.flatMap_map]
      exact List.flatMap_congr fun x hx => chatRows_tables hx me
    rw [each, List.map_filterMap, List.filterMap_eq_flatMap_toList]
  have clean : ∀ e ∈ c.chatList me, toInt32 e.1 = e.1 ∧ cStr e.2 = e.2 := by
    intro e he
    obtain ⟨x, hx, entry⟩ := List.mem_filterMap.mp he
    obtain ⟨_, -, rest⟩ := Option.bind_eq_some_iff.mp entry
    obtain ⟨p, -, rfl⟩ := Option.map_eq_some_iff.mp rest
    obtain ⟨above, place⟩ :=
      List.mk_mem_zipIdx_iff_le_and_getElem?_sub.mp (List.mem_reverse.mp hx)
    have below := (List.getElem?_eq_some_iff.mp place).1
    have few := small.chats
    exact ⟨toInt32_of_range (by omega) (by omega), (credentials_clean p.valid).1⟩
  refine Prod.ext ?_ rfl
  rw [RepoOp.getUserChats_exec, tables, Tables.query_userChats, rows,
    sort_descending (entries_ascending me), ← List.map_reverse, ← List.filterMap_reverse,
    List.map_map, List.map_map]
  apply List.map_congr_left
  intro e he
  obtain ⟨id, name⟩ := clean e he
  simp only [Function.comp_apply, Row.columnInt, Row.columnText, List.getElem?_cons_zero,
    List.getElem?_cons_succ, id, name, ofInt_natCast]

end Community

end Cvcn
