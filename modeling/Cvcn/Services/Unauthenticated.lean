import Cvcn.Net.Framing
import Cvcn.Services.Requests

/-!
# Sessions without a user

Until a login `getUserID` answers -1, and the handlers of `ChatService` and `MessageService` ask
it before anything else. What such a session gets for requests other than those of `AuthService`
is known from the session alone: it tells nothing about the database or the registry, and leaves
them as they are.
-/

namespace Cvcn

open Atomic

namespace Shared

/-- Packets of one session dispatched one after another. -/
def dispatchAll (x : SessionId) : List RawPacket → Shared → Shared
  | [], sh => sh
  | (header, body) :: packets, sh =>
    dispatchAll x packets ((PacketDispatcher.dispatch header body x).run exec sh).2

def enqueue (sh : Shared) (commands : List Queued) : Shared :=
  { sh with queue := sh.queue ++ commands }

/-- The commands that a program pushes for the session `x` in the state `c` do not depend on
anything else, are all for that session, and are all that it does. -/
def OnlyPushes (x : SessionId) (c : ClientSession) (step : Shared → Shared) : Prop :=
  ∃ pushed : List Queued, (∀ q ∈ pushed, q.cmd.fd = c.fileDescriptor) ∧
    ∀ sh : Shared, sh.objects x = c → step sh = sh.enqueue pushed

variable {x : SessionId} {c : ClientSession}

theorem OnlyPushes.nothing {step : Shared → Shared}
    (does : ∀ sh : Shared, sh.objects x = c → step sh = sh) : OnlyPushes x c step := by
  refine ⟨[], fun q hq => absurd hq List.not_mem_nil, fun sh same => ?_⟩
  rw [does sh same, enqueue, List.append_nil]

theorem OnlyPushes.comp {first second : Shared → Shared} (h : OnlyPushes x c first)
    (h' : OnlyPushes x c second) : OnlyPushes x c (second ∘ first) := by
  obtain ⟨pushed, own, does⟩ := h
  obtain ⟨pushed', own', does'⟩ := h'
  refine ⟨pushed ++ pushed', fun q hq => ?_, fun sh same => ?_⟩
  · rcases List.mem_append.mp hq with hq | hq
    · exact own q hq
    · exact own' q hq
  · have next := does' (sh.enqueue pushed) same
    rw [Function.comp_apply, does sh same, next, enqueue, enqueue, enqueue, List.append_assoc]

/-- A program that pushes one command for its session. -/
theorem OnlyPushes.one {step : Shared → Shared} (type : CommandType) (data : Bytes)
    (does : ∀ sh : Shared, sh.objects x = c →
      step sh = sh.enqueue [⟨⟨type, c.fileDescriptor, data⟩, x⟩]) : OnlyPushes x c step :=
  ⟨_, fun q hq => by rw [List.mem_singleton.mp hq], does⟩

theorem validated_onlyPushes {α : Type} {parsed : Option α} {valid : α → Bool}
    {handle : α → ServerProg Unit}
    (handler : ∀ d, OnlyPushes x c fun sh => ((handle d).run exec sh).2) :
    OnlyPushes x c fun sh => ((PacketDispatcher.validated parsed valid handle).run exec sh).2 := by
  rcases PacketDispatcher.validated_cases parsed valid handle with ⟨d, _, _, runs⟩ | ⟨_, nothing⟩
  · simp only [runs]
    exact handler d
  · simp only [nothing]
    exact .nothing fun _ _ => rfl

/-- `dispatch` on a session without a user, for all but the requests of `AuthService`. -/
theorem dispatch_onlyPushes (unauthenticated : c.userID = -1) {header : PacketHeaderRaw}
    (other : ∀ t ∈ [PacketType.registerRequest, .authRequest, .deleteRequest],
      header.type ≠ t.code) (body : Bytes) :
    OnlyPushes x c fun sh => ((PacketDispatcher.dispatch header body x).run exec sh).2 := by
  unfold PacketDispatcher.dispatch
  split
  case h_1 =>
    unfold PacketDispatcher.handleConnectRequest
    split
    · let data := PacketBuilder.connectResponse header.messageID header.sessionID
      exact .one .sendRaw data fun sh same => by subst same; rfl
    · let data := PacketBuilder.connectResponse header.messageID (UInt32.ofNat c.fileDescriptor)
      exact .one .sendRaw data fun sh same => by subst same; rfl
  case h_2 => exact .one .close [] fun sh same => by subst same; rfl
  case h_3 type => exact absurd (PacketType.code_of_ofCode type) (other _ (by simp))
  case h_4 type => exact absurd (PacketType.code_of_ofCode type) (other _ (by simp))
  case h_5 type => exact absurd (PacketType.code_of_ofCode type) (other _ (by simp))
  case h_6 =>
    let answer := PacketBuilder.findUserResponse header.messageID header.sessionID {}
    refine validated_onlyPushes fun data => .one .sendRaw answer fun sh same => ?_
    simp only [ChatService.handleFindUserRequest, IClientSession.getUserID_eq, Prog.op_bind,
      Prog.done_bind, Prog.run_op, exec, sessionOp, same, unauthenticated]
    subst same
    rfl
  case h_7 =>
    let answer := PacketBuilder.createChatResponse header.messageID header.sessionID {}
    refine validated_onlyPushes fun data => .one .sendRaw answer fun sh same => ?_
    simp only [ChatService.handleCreateChatRequest, IClientSession.getUserID_eq, Prog.op_bind,
      Prog.done_bind, Prog.run_op, exec, sessionOp, same, unauthenticated]
    subst same
    rfl
  case h_8 =>
    let answer := PacketBuilder.chatListResponse header.messageID header.sessionID {}
    refine .one .sendRaw answer fun sh same => ?_
    simp only [ChatService.handleChatListRequest, IClientSession.getUserID_eq, Prog.op_bind,
      Prog.done_bind, Prog.run_op, exec, sessionOp, same, unauthenticated]
    subst same
    rfl
  case h_9 =>
    refine validated_onlyPushes fun data => .nothing fun sh same => ?_
    simp only [MessageService.handleMessageSend, IClientSession.getUserID_eq, Prog.op_bind,
      Prog.done_bind, Prog.run_op, exec, sessionOp, same, unauthenticated]
    subst same
    rfl
  case h_10 => exact .nothing fun _ _ => rfl

/-- A session without a user has none after any of these packets. -/
theorem dispatchAll_onlyPushes (unauthenticated : c.userID = -1) {packets : List RawPacket}
    (other : ∀ p ∈ packets, ∀ t ∈ [PacketType.registerRequest, .authRequest, .deleteRequest],
      p.1.type ≠ t.code) : OnlyPushes x c (dispatchAll x packets) := by
  induction packets with
  | nil => exact .nothing fun _ _ => rfl
  | cons p packets ih =>
    obtain ⟨header, body⟩ := p
    have first : OnlyPushes x c _ :=
      dispatch_onlyPushes unauthenticated (other _ List.mem_cons_self) body
    exact first.comp (ih fun p hp => other p (List.mem_cons_of_mem _ hp))

/-- What a session that has never logged in gets is the same for all contents of the database
and of the registry, goes to itself, and is all that its packets change. -/
theorem unauthenticated_session_learns_nothing {sh sh' : Shared} {x : SessionId}
    (sessions : sh'.objects = sh.objects) (unauthenticated : (sh.objects x).userID = -1)
    {packets : List RawPacket}
    (other : ∀ p ∈ packets, ∀ t ∈ [PacketType.registerRequest, .authRequest, .deleteRequest],
      p.1.type ≠ t.code) :
    ∃ pushed : List Queued,
      (∀ q ∈ pushed, q.cmd.fd = (sh.objects x).fileDescriptor) ∧
      dispatchAll x packets sh = { sh with queue := sh.queue ++ pushed } ∧
      dispatchAll x packets sh' = { sh' with queue := sh'.queue ++ pushed } := by
  obtain ⟨pushed, own, does⟩ := dispatchAll_onlyPushes (x := x) unauthenticated other
  exact ⟨pushed, own, does sh rfl, does sh' (congrFun sessions x)⟩

/-- A server with one session, which has not logged in. -/
def anonymous (tables : Tables) (byUserID : Int → Option SessionId) : Shared :=
  ⟨{ tables }, fun _ => { fileDescriptor := 5 }, 1, byUserID, []⟩

def listChats : List RawPacket := [(⟨PacketType.chatListRequest.code, 1, 0, 0⟩, [])]

theorem unauthenticated_session_learns_nothing_listChats :
    ∃ pushed : List Queued, (∀ q ∈ pushed, q.cmd.fd = 5) ∧
      dispatchAll 0 listChats (anonymous {} fun _ => none) =
        { anonymous {} fun _ => none with queue := [] ++ pushed } ∧
      dispatchAll 0 listChats (anonymous { users := [⟨1, [65], [66]⟩] } fun _ => some 0) =
        { anonymous { users := [⟨1, [65], [66]⟩] } fun _ => some 0 with queue := [] ++ pushed } :=
  @unauthenticated_session_learns_nothing (anonymous {} fun _ => none)
    (anonymous { users := [⟨1, [65], [66]⟩] } fun _ => some 0) 0 rfl rfl
    listChats (by decide)

end Shared

end Cvcn
