import Cvcn.Lib.Machine
import Cvcn.Services.Sequential

/-!
# The registry of logged-in users

`unregisterUser` is called when a session is deleted, for the one user the session has at that
time. A session that logs in again under another name keeps its first entry: from then on the
registry sends the first user's messages to a session of the second, and later to a session
that has been deleted.
-/

namespace Cvcn

open Machine

namespace Server

/-- Every entry is a session that exists and is logged in as the user of the entry. -/
def Coherent (s : Server) : Prop :=
  ∀ userID x, s.shared.byUserID userID = some x → s.Alive x ∧ (s.obj x).userID = userID

/-- Entries are made for positive ids only, so that deletion takes them out. -/
structure RegistryInv (s : Server) : Prop where
  coherent : Coherent s
  positive : ∀ userID x, s.shared.byUserID userID = some x → 0 < userID

/-- A login leaves no entry behind: the session is not registered as another user. -/
def loginSafe (s : Server) : ClientEvent → Bool
  | .packet x header body =>
    match s.shared.login ⟨x, header, body⟩ with
    | some (userID, _) =>
      (s.obj x).userID == userID || s.shared.byUserID (s.obj x).userID != some x
    | none => true
  | _ => true

variable {s t : Server} {e : ClientEvent}

/-- A deleted session leaves the registry with its last entry. -/
theorem RegistryInv.deletes {o : Option SessionId} (h : RegistryInv s) (deletes : Deletes s t o) :
    RegistryInv t := by
  constructor
  · intro userID x hx
    have entry := deletes.entry hx
    obtain ⟨here, user⟩ := h.coherent userID x entry
    have other : o ≠ some x := by
      rintro rfl
      cases deletes with
      | session removed =>
        -- it was registered as its own user, so that its entry has been taken out
        have positive := h.positive userID x entry
        have registered : (s.obj x).userID ≠ -1 ∧
            s.shared.byUserID (s.obj x).userID = some x := by
          rw [user]
          exact ⟨by omega, entry⟩
        rw [removed.byUserID, registryWithout, if_pos registered, user,
          Function.update_self] at hx
        cases hx
    exact ⟨deletes.stays here other, (deletes.frame.user x).trans user⟩
  · exact fun userID x hx => h.positive userID x (deletes.entry hx)

theorem RegistryInv.connect (h : RegistryInv s) (fd : Fd) : RegistryInv (s.onNewConnection fd) := by
  have same : (s.onNewConnection fd).shared.byUserID = s.shared.byUserID := rfl
  constructor
  · intro userID x hx
    rw [same] at hx
    obtain ⟨here, user⟩ := h.coherent userID x hx
    refine ⟨(onNewConnection_alive s fd x).mpr (.inr here), ?_⟩
    rw [here.onNewConnection_obj]
    exact user
  · exact h.positive

/-- `setAuthenticated`: the session is not registered as another user. -/
theorem RegistryInv.authenticate (h : RegistryInv s) {x : SessionId} {userID : Int}
    (username : Bytes)
    (safe : (s.obj x).userID = userID ∨ s.shared.byUserID (s.obj x).userID ≠ some x) :
    RegistryInv { s with shared :=
      s.shared.setSession x { s.obj x with userID := userID, username := username } } := by
  refine ⟨fun v y hy => ?_, h.positive⟩
  obtain ⟨here, user⟩ := h.coherent v y hy
  by_cases hne : y = x
  · -- the old entry of the session is the one of the login
    subst hne
    have own : (s.obj y).userID = userID := by
      cases safe with
      | inl e => exact e
      | inr absent =>
        rw [user] at absent
        exact absurd hy absent
    simp only [Alive, obj, Shared.setSession, Function.update_self]
    exact ⟨here, own.symm.trans user⟩
  · simp only [Alive, obj, Shared.setSession, Function.update_of_ne hne]
    exact ⟨here, user⟩

theorem RegistryInv.register (h : RegistryInv s) {x : SessionId} {userID : Int}
    (own : 0 < userID → s.Alive x ∧ (s.obj x).userID = userID) :
    RegistryInv { s with shared := s.shared.registerUser userID x } := by
  unfold Shared.registerUser
  split
  · exact h
  · rename_i positive
    have entry : ∀ {v y}, Function.update s.shared.byUserID userID (some x) v = some y →
        (v = userID ∧ y = x) ∨ s.shared.byUserID v = some y := by
      intro v y hy
      rw [Function.update_apply] at hy
      split at hy
      · rename_i e
        cases hy
        exact .inl ⟨e, rfl⟩
      · exact .inr hy
    constructor
    · intro v y hy
      rcases entry hy with ⟨rfl, rfl⟩ | old
      · exact own (by omega)
      · exact h.coherent v y old
    · intro v y hy
      rcases entry hy with ⟨rfl, rfl⟩ | old
      · omega
      · exact h.positive v y old

theorem RegistryInv.quiet (h : RegistryInv s) (same : Shared.SameUsers s.shared t.shared) :
    RegistryInv t := by
  constructor
  · intro v y hy
    rw [same.byUserID] at hy
    simp only [Alive, obj, same.objects, same.next]
    exact h.coherent v y hy
  · rw [same.byUserID]
    exact h.positive

theorem RegistryInv.login (h : RegistryInv s) {x : SessionId} {userID : Int} {username : Bytes}
    (alive : s.Alive x)
    (safe : (s.obj x).userID = userID ∨ s.shared.byUserID (s.obj x).userID ≠ some x) :
    RegistryInv { s with shared := s.shared.loggedIn x userID username } := by
  apply (h.authenticate username safe).register
  intro _
  simp only [Alive, obj, Shared.setSession, Function.update_self]
  exact ⟨alive, trivial⟩

theorem serve_inv (h : RegistryInv s) (safe : s.loginSafe e = true) (hs : s.serve e = some t) :
    RegistryInv t := by
  cases e with
  | connect fd =>
    simp only [serve, accept] at hs
    split at hs
    · cases hs
    · cases hs
      have opened : RegistryInv { s with
          openFds := Function.update s.openFds fd true
          epoll := Function.update s.epoll fd (some .read) } := ⟨h.coherent, h.positive⟩
      exact opened.connect fd
  | close fd =>
    cases hs
    exact h.deletes (closeClient_trims s fd).deletes
  | packet x header body =>
    simp only [serve] at hs
    split at hs
    · rename_i alive
      cases hs
      have users := s.shared.handle_users ⟨x, header, body⟩
      simp only [loginSafe] at safe
      split at users
      · rename_i userID username login
        simp only [login, Bool.or_eq_true, beq_iff_eq, bne_iff_ne] at safe
        exact (h.login alive safe).quiet users
      · exact h.quiet users
    · cases hs

/-- The old entry stays behind and names a session that is now another user's. -/
theorem serve_breaks (unsafe_ : ¬ s.loginSafe e = true) (hs : s.serve e = some t) :
    ¬ Coherent t := by
  cases e with
  | connect fd => exact absurd rfl unsafe_
  | close fd => exact absurd rfl unsafe_
  | packet x header body =>
    simp only [serve] at hs
    split at hs
    · cases hs
      have users := s.shared.handle_users ⟨x, header, body⟩
      simp only [loginSafe] at unsafe_
      split at users
      · rename_i userID username login
        simp only [login, Bool.or_eq_true, beq_iff_eq, bne_iff_ne, not_or, not_not] at unsafe_
        obtain ⟨changed, registered⟩ := unsafe_
        have stays : (s.shared.handle ⟨x, header, body⟩).byUserID (s.obj x).userID = some x := by
          rw [users.byUserID]
          unfold Shared.loggedIn Shared.registerUser
          split
          · exact registered
          · simp only [Function.update_of_ne changed]
            exact registered
        intro coherent
        have user := (coherent (s.obj x).userID x stays).2
        have now : ((s.shared.handle ⟨x, header, body⟩).objects x).userID = userID := by
          rw [users.objects, Shared.loggedIn_objects, Function.update_self]
        exact changed (user.symm.trans now)
      · rename_i login
        simp only [login] at unsafe_
        exact absurd trivial unsafe_
    · cases hs

theorem registryInv_start (tables : Tables) (numThreads : Nat) (listenFd eventFd : Fd) :
    RegistryInv (start tables numThreads listenFd eventFd) := ⟨nofun, nofun⟩

/-- **Registry coherence, exactly when.** With requests handled one at a time, every entry of the
registry names an existing session logged in as its user throughout a run, if and only if no
login of the run is on a session that is registered as another user. -/
theorem coherent_iff (tables : Tables) (numThreads : Nat) (listenFd eventFd : Fd)
    (events : List ClientEvent) (t : Server)
    (run : exec serve (start tables numThreads listenFd eventFd) events = some t) :
    Throughout serve Coherent (start tables numThreads listenFd eventFd) events ↔
      Along serve (loginSafe · · = true) (start tables numThreads listenFd eventFd) events :=
  throughout_iff_along (fun _ => RegistryInv.coherent) (fun _ _ _ => serve_inv)
    (fun _ _ _ _ => serve_breaks) (registryInv_start tables numThreads listenFd eventFd) run

/-- A client registers as `a` and as `b`, logs in as `a` and then as `b`, and leaves. -/
def secondLogin : List ClientEvent :=
  [.connect 5,
    .received 0 (PacketBuilder.registerRequest 1 5 ⟨[97], [112]⟩),
    .received 0 (PacketBuilder.registerRequest 2 5 ⟨[98], [113]⟩),
    .received 0 (PacketBuilder.authRequest 3 5 ⟨[97], [112]⟩),
    .received 0 (PacketBuilder.authRequest 4 5 ⟨[98], [113]⟩),
    .close 5]

/-- The entry of user 1 is a dangling pointer. -/
theorem dangling_after_second_login :
    ∃ s, exec serve (start {} 1 3 4) secondLogin = some s ∧ s.shared.byUserID 1 = some 0 ∧
      (s.obj 0).freed = true ∧ (s.obj 0).userID = 2 ∧ ¬ Coherent s := by
  refine ⟨_, rfl, rfl, rfl, rfl, fun h => ?_⟩
  exact absurd (h 1 0 rfl).2 (by decide)

/-- The same client without its second login. -/
theorem coherent_after_one_login :
    Throughout serve Coherent (start {} 1 3 4) (secondLogin.take 4 ++ [.close 5]) :=
  (coherent_iff {} 1 3 4 _ _ rfl).mpr (by decide +kernel)

end Server

end Cvcn
