import Cvcn.Client.Controllers

/-!
# The client's state and its socket

`AppState.h` explains the states by the connection: `Disconnected` is for a client without one.
`MainController` sets the state on the signals of the socket, and `AuthController` on a login's
progress. The only slot that leaves the explanation is that of a rejected login.
-/

namespace Cvcn

open Machine

/-- The signals on which no controller changes the state. -/
def Signal.keepsState : Signal → Bool
  | signalAuthFinished _ _ | signalErrorOccurred .transport _ => false
  | _ => true

namespace ProtocolClient

variable {p : ProtocolClient} {header : PacketHeaderRaw} {body : Bytes}

theorem parsed_keepsState {α : Type} {resp : Option α} {type : String} {signal : α → Signal}
    (keeps : ∀ r, (signal r).keepsState = true) : (parsed resp type signal).keepsState = true := by
  cases resp with
  | none => rfl
  | some r => exact keeps r

/-- Only the response to a login reaches `AuthController::slotAuthFinished`. -/
theorem processIncomingPacket_cases (p : ProtocolClient) (header : PacketHeaderRaw)
    (body : Bytes) :
    (∃ resp p' sessionID, header.type = PacketType.authResponse.code ∧
      PacketParser.authResponse body = some resp ∧
      p.processIncomingPacket header body = (p', .signalAuthFinished resp.success sessionID)) ∨
    ((header.type = PacketType.authResponse.code → PacketParser.authResponse body = none) ∧
      (p.processIncomingPacket header body).2.keepsState = true) := by
  by_cases login : header.type = PacketType.authResponse.code
  · have type : PacketType.ofCode header.type = some .authResponse := by
      rw [login, PacketType.ofCode_code]
    simp only [processIncomingPacket, type, processAuthResponse]
    cases PacketParser.authResponse body with
    | none => exact .inr ⟨fun _ => rfl, rfl⟩
    | some resp => exact .inl ⟨resp, _, _, login, rfl, rfl⟩
  · refine .inr ⟨fun same => absurd same login, ?_⟩
    unfold processIncomingPacket
    split
    case h_2 type => exact absurd (PacketType.code_of_ofCode type) login
    case h_8 => rfl
    all_goals exact parsed_keepsState fun _ => rfl

end ProtocolClient

namespace MainController

/-- What one turn of the client's event loop handles. `lost` comes with an error unless the user
or the server closed the connection properly, and `failed` is an error without a connection. -/
inductive Turn where
  | established
  | lost (withError : Bool)
  | failed
  | event (e : Event)
  deriving DecidableEq, Repr

/-- The socket does not signal these by itself: they are parts of the other turns. -/
def Event.ofSocket : Event → Bool
  | .slotConnected | .slotDisconnected | .slotTransportError _ => true
  | _ => false

/-- The order of events that the transport allows: packets come while the socket is connected. -/
def possible (c : MainController) : Turn → Bool
  | .established | .failed => !c.isConnected
  | .lost _ => c.isConnected
  | .event (.slotRawPacketReceived _ _) => c.isConnected
  | .event e => !e.ofSocket

/-- The response to a login that the server has rejected. -/
def Turn.rejectsLogin : Turn → Bool
  | .event (.slotRawPacketReceived header body) =>
    header.type == PacketType.authResponse.code &&
      PacketParser.authResponse body == some ⟨false⟩
  | _ => false

variable (fromStdString : Bytes → QString)

def handleTurn (c : MainController) : Turn → MainController
  | .established => (c.step fromStdString .slotConnected).1
  | .lost withError =>
    let c := if withError then (c.step fromStdString (.slotTransportError .transport)).1 else c
    (c.step fromStdString .slotDisconnected).1
  | .failed => (c.step fromStdString (.slotTransportError .transport)).1
  | .event e => (c.step fromStdString e).1

def turn (c : MainController) (t : Turn) : Option MainController :=
  if c.possible t then some (c.handleTurn fromStdString t) else none

/-- The meaning that `AppState.h` gives to `Disconnected`. -/
def TracksSocket (c : MainController) : Prop :=
  c.session.state = .disconnected ↔ c.isConnected = false

instance (c : MainController) : Decidable c.TracksSocket := inferInstanceAs (Decidable (_ ↔ _))

variable {fromStdString} {c : MainController}

theorem TracksSocket.disconnected (up : c.isConnected = false) :
    (c.setState .disconnected).TracksSocket :=
  ⟨fun _ => up, fun _ => rfl⟩

theorem TracksSocket.other {state : AppState} (up : c.isConnected = true)
    (other : state ≠ .disconnected) : (c.setState state).TracksSocket :=
  ⟨fun same => absurd same other, fun down => absurd (up.symm.trans down) Bool.true_eq_false.mp⟩

/-- What is sent without a connection puts the state right, whatever it was before. -/
theorem send_tracks {sent : ProtocolClient × Bytes}
    (up : c.isConnected = true → c.session.state ≠ .disconnected) :
    (c.send sent).1.TracksSocket := by
  dsimp only [send]
  by_cases connected : c.isConnected = true
  · rw [if_pos connected]
    exact @TracksSocket.other c c.session.state connected (up connected)
  · rw [if_neg connected]
    exact TracksSocket.disconnected (Bool.not_eq_true _ ▸ connected)

theorem TracksSocket.up (h : c.TracksSocket) :
    c.isConnected = true → c.session.state ≠ .disconnected := by
  intro up down
  exact absurd (up.symm.trans (h.mp down)) Bool.true_eq_false.mp

/-- Everything that the user does keeps the state right. -/
theorem step_tracks (h : c.TracksSocket) {e : Event} (user : e.ofSocket = false)
    (noPacket : ∀ header body, e ≠ .slotRawPacketReceived header body) :
    (c.step fromStdString e).1.TracksSocket := by
  cases e with
  | slotClickedAuthButton username password =>
    simp only [step, slotAuthRequested]
    split
    · exact h
    · split
      · exact h
      · exact send_tracks fun _ => by simp [setState]
  | slotClickedRegButton username password =>
    simp only [step, slotRegRequested]
    split
    · exact h
    · exact send_tracks h.up
  | slotClickedDelButton username password =>
    simp only [step, slotDelRequested]
    split
    · exact h
    · exact send_tracks h.up
  | slotClickedFindButton searchLineEdit =>
    simp only [step, slotClickedFindButton]
    split
    · exact h
    · exact send_tracks h.up
  | slotClickedSendButton messageLineEdit =>
    simp only [step, slotClickedSendButton]
    split
    · exact h
    · split
      · exact h
      · simp only [slotMessageSendRequested]
        split
        · exact h
        · exact send_tracks h.up
  | slotChatSelectionChanged row => exact h
  | getItem row =>
    simp only [step, slotUsersFoundAnswer]
    cases c.chosen row with
    | none => exact h
    | some name =>
      dsimp only
      split
      · exact h
      · exact send_tracks h.up
  | slotAboutToQuit => exact send_tracks h.up
  | slotRawPacketReceived header body => exact absurd rfl (noPacket header body)
  | slotConnected | slotDisconnected | slotTransportError => cases user

theorem slot_tracks (h : c.TracksSocket) {signal : Signal} (keeps : signal.keepsState = true) :
    (c.slot fromStdString signal).1.TracksSocket := by
  cases signal with
  | signalRegistrationFinished | signalDeleteFinished | signalChatListReceived
  | signalMessageReceived => exact h
  | signalAuthFinished success sessionID => cases keeps
  | signalUsersFound usernames =>
    simp only [slot, slotUsersFound]
    split <;> exact h
  | signalChatCreated success chatID peerUsername => cases success <;> exact h
  | signalErrorOccurred kind text =>
    cases kind with
    | transport => cases keeps
    | protocol | business => exact h

/-- A turn without the response to a rejected login keeps the state right. -/
theorem turn_tracks {t : Turn} {c' : MainController} (h : c.TracksSocket)
    (accepted : t.rejectsLogin = false) (step : turn fromStdString c t = some c') :
    c'.TracksSocket := by
  rw [turn, Option.ite_none_right_eq_some, Option.some.injEq] at step
  obtain ⟨possible, rfl⟩ := step
  cases t with
  | established => exact TracksSocket.other (c := { c with isConnected := true }) rfl (by decide)
  | lost withError => cases withError <;> exact TracksSocket.disconnected rfl
  | failed => exact TracksSocket.disconnected (by simpa [MainController.possible] using possible)
  | event e =>
    by_cases packet : ∃ header body, e = .slotRawPacketReceived header body
    · obtain ⟨header, body, rfl⟩ := packet
      have up : c.isConnected = true := possible
      rcases c.protocolClient.processIncomingPacket_cases header body with
        ⟨⟨success⟩, p', sessionID, type, parsed, signalled⟩ | ⟨-, keeps⟩
      · cases success with
        | true =>
          simp only [handleTurn, MainController.step, signalled]
          exact send_tracks fun _ => by simp
        | false =>
          rw [Turn.rejectsLogin, type, parsed] at accepted
          cases accepted
      · let p' := (c.protocolClient.processIncomingPacket header body).1
        exact slot_tracks (c := { c with protocolClient := p' }) h keeps
    · have user : e.ofSocket = false := by
        cases e with
        | slotRawPacketReceived header body => exact absurd ⟨header, body, rfl⟩ packet
        | slotConnected | slotDisconnected | slotTransportError => cases possible
        | _ => rfl
      exact step_tracks h user fun header body same => packet ⟨header, body, same⟩

/-- A rejected login leaves a client that is connected in the state of one that is not. -/
theorem turn_rejected {t : Turn} {c' : MainController} (rejected : t.rejectsLogin = true)
    (step : turn fromStdString c t = some c') : ¬ c'.TracksSocket := by
  rw [turn, Option.ite_none_right_eq_some, Option.some.injEq] at step
  obtain ⟨possible, rfl⟩ := step
  cases t with
  | event e =>
    cases e with
    | slotRawPacketReceived header body =>
      have up : c.isConnected = true := possible
      simp only [Turn.rejectsLogin, Bool.and_eq_true, beq_iff_eq] at rejected
      rcases c.protocolClient.processIncomingPacket_cases header body with
        ⟨resp, p', sessionID, type, parsed, signalled⟩ | ⟨never, -⟩
      · cases parsed.symm.trans rejected.2
        simp only [handleTurn, MainController.step, signalled]
        intro tracks
        exact absurd (up.symm.trans (tracks.mp rfl)) Bool.true_eq_false.mp
      · cases (never rejected.1).symm.trans rejected.2
    | _ => cases rejected
  | _ => cases rejected

/-- In a run of the client the state fits the socket throughout exactly if no login is
rejected. -/
theorem state_tracks_socket_iff {turns : List Turn} {c : MainController}
    (run : exec (turn fromStdString) {} turns = some c) :
    Throughout (turn fromStdString) TracksSocket {} turns ↔
      ∀ t ∈ turns, t.rejectsLogin = false := by
  rw [throughout_iff_along (P := fun _ t => t.rejectsLogin = false) (fun _ h => h)
    (fun _ _ _ h accepted step => turn_tracks h accepted step)
    (fun _ _ _ _ rejected step => turn_rejected (Bool.not_eq_false _ ▸ rejected) step)
    ⟨fun _ => rfl, fun _ => rfl⟩ run]
  exact along_iff_forall run

/-- A user logs in and the server answers. -/
def login (success : UInt8) : List Turn :=
  [.established, .event (.slotClickedAuthButton "alice".toList "secret".toList),
    .event (.slotRawPacketReceived ⟨PacketType.authResponse.code, 0, 0, 1⟩ [success])]

theorem state_tracks_socket_login :
    Throughout (turn fun _ => []) TracksSocket {} (login 1 ++ [.lost true]) := by
  have run : ∃ c, exec (turn fun _ => []) {} (login 1 ++ [.lost true]) = some c := ⟨_, rfl⟩
  obtain ⟨c, run⟩ := run
  exact (state_tracks_socket_iff run).mpr (by decide)

theorem rejected_login_disconnected :
    ¬ Throughout (turn fun _ => []) TracksSocket {} (login 0) := by
  have connected : ∃ c, exec (turn fun _ => []) {} (login 0) = some c ∧ ¬ c.TracksSocket :=
    ⟨_, rfl, by decide⟩
  obtain ⟨c, run, differs⟩ := connected
  exact fun tracks => differs (tracks.last run)

end MainController

end Cvcn
