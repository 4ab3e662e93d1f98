import Cvcn.Client.ProtocolClient
import Cvcn.Lib.Machine

/-!
# The client's controllers

`AuthController`, `ChatController`, `MessageController` and `MainController`, and what the two
windows do at a click. A text of the interface is its characters. Qt's conversion of a
`std::string` to such a text is an argument of what shows one.
-/

namespace Cvcn

open Framing Machine

abbrev QString := List Char

namespace QString

/-- `QChar::isSpace`: the controls from tab to carriage return, NEL and the separators. -/
def isSpace (c : Char) : Bool :=
  (9 ≤ c.val && c.val ≤ 13) || (0x2000 ≤ c.val && c.val ≤ 0x200A) ||
  [0x20, 0x85, 0xA0, 0x1680, 0x2028, 0x2029, 0x202F, 0x205F, 0x3000].contains c.val

def trimmed (s : QString) : QString :=
  ((s.dropWhile isSpace).reverse.dropWhile isSpace).reverse

/-- UTF-8. -/
def toStdString (s : QString) : Bytes := s.flatMap String.utf8EncodeChar

end QString

inductive AppState where
  | disconnected
  | connected
  | authenticating
  | authenticated
  deriving DecidableEq, Repr

structure Session where
  state : AppState := .disconnected
  username : QString := []
  deriving DecidableEq, Repr

/-- The rows of `chatsListWidget` and the lines of `messagesTextBrowser`, without their times. -/
structure ChatWindow where
  currentChatID : UInt32 := 0
  chatsListWidget : List (UInt32 × QString) := []
  messagesTextBrowser : List (QString × QString) := []
  deriving DecidableEq, Repr

namespace ChatWindow

variable (w : ChatWindow)

def appendMessageInHistory (sender text : QString) : ChatWindow :=
  { w with messagesTextBrowser := w.messagesTextBrowser ++ [(sender, text)] }

/-- A chat that is in the list is not added again. -/
def addChat (chatID : UInt32) (peerUsername : QString) : ChatWindow :=
  if w.chatsListWidget.any (·.1 == chatID) then w
  else { w with chatsListWidget := w.chatsListWidget ++ [(chatID, peerUsername)] }

def setChatList (chats : List (UInt32 × QString)) : ChatWindow :=
  chats.foldl (fun w e => w.addChat e.1 e.2) { w with chatsListWidget := [] }

def appendIncomingMessage (chatID : UInt32) (sender text : QString) : ChatWindow :=
  if chatID == w.currentChatID then w.appendMessageInHistory sender text else w

def slotChatSelectionChanged (row : Nat) : ChatWindow :=
  match w.chatsListWidget[row]? with
  | none => w
  | some (id, _) => { w with currentChatID := id, messagesTextBrowser := [] }

end ChatWindow

/-- What the controllers ask of the connection and of the user. -/
inductive Effect where
  | send (packet : Bytes)
  | showInformation (title text : String)
  | showWarning (title text : String)
  deriving DecidableEq, Repr

/-- The controllers with the objects that they share. `dialogs` are the lists that an open
"Found users" dialog offers, the innermost first. -/
structure MainController where
  protocolClient : ProtocolClient := {}
  session : Session := {}
  pendingUsername : QString := []
  chatWindow : ChatWindow := {}
  dialogs : List (List QString) := []
  isConnected : Bool := false
  deriving DecidableEq, Repr

namespace MainController

/-- What the user does, and what comes from the socket. The texts are those of the line edits. -/
inductive Event where
  | slotClickedAuthButton (usernameLineEdit passwordLineEdit : QString)
  | slotClickedRegButton (usernameLineEdit passwordLineEdit : QString)
  | slotClickedDelButton (usernameLineEdit passwordLineEdit : QString)
  | slotClickedFindButton (searchLineEdit : QString)
  | slotClickedSendButton (messageLineEdit : QString)
  | slotChatSelectionChanged (row : Nat)
  /-- The innermost dialog closes, on a row of its list or with nothing. -/
  | getItem (row : Option Nat)
  | slotAboutToQuit
  | slotConnected
  | slotDisconnected
  | slotTransportError (kind : ErrorKind)
  | slotRawPacketReceived (header : PacketHeaderRaw) (body : Bytes)
  deriving DecidableEq, Repr

section

variable (c : MainController)

def setState (state : AppState) : MainController := { c with session := { c.session with state } }

/-- Other kinds of error are only logged. -/
def slotError : ErrorKind → MainController
  | .transport => c.setState .disconnected
  | .protocol | .business => c

/-- `Connection::send` answers with an error while the socket is not connected. -/
def send (sent : ProtocolClient × Bytes) : MainController × List Effect :=
  let c := { c with protocolClient := sent.1 }
  (if c.isConnected then c else c.slotError .transport, [.send sent.2])

def validCredentials (username password : QString) : Bool :=
  Validator.validateUsername username.toStdString && Validator.validatePassword password.toStdString

def slotAuthRequested (username password : QString) : MainController × List Effect :=
  if c.session.state = .authenticating then (c, [])
  else if !validCredentials username password then
    (c, [.showWarning "Auth" "Invalid username or password format"])
  else
    let c := { c with pendingUsername := username }.setState .authenticating
    c.send (c.protocolClient.sendAuthRequest username.toStdString password.toStdString)

def slotRegRequested (username password : QString) : MainController × List Effect :=
  if !validCredentials username password then
    (c, [.showWarning "Register" "Invalid username or password format"])
  else c.send (c.protocolClient.sendRegRequest username.toStdString password.toStdString)

def slotDelRequested (username password : QString) : MainController × List Effect :=
  if !validCredentials username password then
    (c, [.showWarning "Delete" "Invalid username or password format"])
  else c.send (c.protocolClient.sendDeleteRequest username.toStdString password.toStdString)

def slotFindUserRequested (query : QString) : MainController × List Effect :=
  c.send (c.protocolClient.sendFindUserRequest query.toStdString)

def loadChatList : MainController × List Effect := c.send c.protocolClient.sendChatListRequest

/-- The message is in the history as soon as it is sent. -/
def slotMessageSendRequested (chatID : UInt32) (text : QString) : MainController × List Effect :=
  if !Validator.validateMessage text.toStdString then
    (c, [.showWarning "Message" "Message rejected: invalid format"])
  else
    let c := { c with chatWindow := c.chatWindow.appendMessageInHistory c.session.username text }
    c.send (c.protocolClient.sendMessage chatID text.toStdString)

def slotClickedFindButton (searchLineEdit : QString) : MainController × List Effect :=
  let query := searchLineEdit.trimmed
  if query.isEmpty then (c, []) else c.slotFindUserRequested query

def slotClickedSendButton (messageLineEdit : QString) : MainController × List Effect :=
  if c.chatWindow.currentChatID = 0 then
    let chatWindow := c.chatWindow.appendMessageInHistory "system".toList
      "Select a chat first".toList
    ({ c with chatWindow }, [])
  else
    let text := messageLineEdit.trimmed
    if text.isEmpty then (c, [])
    else c.slotMessageSendRequested c.chatWindow.currentChatID text

/-- A login opens the chat window, which loads the list of chats. -/
def slotAuthFinished (success : Bool) : MainController × List Effect :=
  if success then
    { c with session := ⟨.authenticated, c.pendingUsername⟩ }.loadChatList
  else (c.setState .disconnected, [])

/-- The dialog runs an event loop of its own until it closes. -/
def slotUsersFound (usernames : List QString) : MainController × List Effect :=
  if usernames.isEmpty then (c, [.showInformation "Search" "No users found"])
  else ({ c with dialogs := usernames :: c.dialogs }, [])

/-- The name on which the innermost dialog closes. -/
def chosen (row : Option Nat) : Option QString :=
  row.bind fun row => c.dialogs.head?.bind fun list => list[row]?

def slotUsersFoundAnswer (row : Option Nat) : MainController × List Effect :=
  let next := { c with dialogs := c.dialogs.tail }
  match c.chosen row with
  | some chosen =>
    if chosen.isEmpty then (next, [])
    else next.send (next.protocolClient.sendCreateChatRequest chosen.toStdString)
  | none => (next, [])

def slotChatCreated (success : Bool) (chatID : UInt32) (peerUsername : QString) :
    MainController × List Effect :=
  if success then ({ c with chatWindow := c.chatWindow.addChat chatID peerUsername }, [])
  else (c, [.showWarning "Chat" "Failed to create chat"])

end

variable (fromStdString : Bytes → QString)

/-- The slots that the signals of the protocol's client are connected to. -/
def slot (c : MainController) : Signal → MainController × List Effect
  | .signalRegistrationFinished _ | .signalDeleteFinished _ => (c, [])
  | .signalAuthFinished success _ => c.slotAuthFinished success
  | .signalUsersFound usernames => c.slotUsersFound (usernames.map fromStdString)
  | .signalChatCreated success chatID peerUsername =>
    c.slotChatCreated success chatID (fromStdString peerUsername)
  | .signalChatListReceived chats =>
    let list := chats.map fun e => (e.chatID, fromStdString e.peerUsername)
    ({ c with chatWindow := c.chatWindow.setChatList list }, [])
  | .signalMessageReceived senderUsername chatID text =>
    let chatWindow := c.chatWindow.appendIncomingMessage chatID (fromStdString senderUsername)
      (fromStdString text)
    ({ c with chatWindow }, [])
  | .signalErrorOccurred kind _ => (c.slotError kind, [])

def step (c : MainController) : Event → MainController × List Effect
  | .slotClickedAuthButton username password => c.slotAuthRequested username password
  | .slotClickedRegButton username password => c.slotRegRequested username password
  | .slotClickedDelButton username password => c.slotDelRequested username password
  | .slotClickedFindButton searchLineEdit => c.slotClickedFindButton searchLineEdit
  | .slotClickedSendButton messageLineEdit => c.slotClickedSendButton messageLineEdit
  | .slotChatSelectionChanged row =>
    ({ c with chatWindow := c.chatWindow.slotChatSelectionChanged row }, [])
  | .getItem row => c.slotUsersFoundAnswer row
  | .slotAboutToQuit => c.send c.protocolClient.sendDisconnectRequest
  | .slotConnected => ({ c with isConnected := true }.setState .connected, [])
  | .slotDisconnected => ({ c with isConnected := false }.setState .disconnected, [])
  | .slotTransportError kind => (c.slotError kind, [])
  | .slotRawPacketReceived header body =>
    let (protocolClient, signal) := c.protocolClient.processIncomingPacket header body
    { c with protocolClient }.slot fromStdString signal

end MainController

end Cvcn
