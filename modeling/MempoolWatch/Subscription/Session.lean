import MempoolWatch.Fault
import MempoolWatch.Json.Printer
import MempoolWatch.Subscription.Frame

/-! A subscription to pending transactions, from the request to the end of the
connection. There is one connection and no second attempt: once the session has
ended it stays so. -/
namespace MempoolWatch.Subscription

/-- What arrives on a connection. -/
inductive Message
  | text (content : String)
  /-- Anything that carries no text. -/
  | other
  | close
  | failure (reason : String)
deriving DecidableEq

/-- An attempt to connect. The messages of a connection come in order, and behind
the last one the connection is at its end. -/
inductive Connection
  | refused (reason : String)
  /-- The request could not be sent. -/
  | mute (reason : String)
  | opened (messages : List Message)

/-- The number of the request. -/
def requestId : Nat := 1

/-- The text that asks for the subscription. -/
def request : String :=
  Json.text (.record [
    ("jsonrpc", .string "2.0"),
    ("id", .integer requestId),
    ("method", .string "eth_subscribe"),
    ("params", .array [.string "newPendingTransactions"])])

/-- A confirmed subscription. -/
structure Session where
  /-- The name that the node gave to the subscription. -/
  id : String
  isOpen : Bool
  unread : List Message
deriving DecidableEq

namespace Session

def endedEarly : Fault :=
  .connection "Conexão encerrada antes da confirmação da inscrição"

/-- Waits for the confirmation of the request. -/
def confirm : List Message → Except Fault Session
  | [] => .error endedEarly
  | .text content :: rest =>
    match Frame.ofText content with
    | .confirmation id subscription =>
      if id = requestId then .ok ⟨subscription, true, rest⟩ else confirm rest
    | .rejection _ message => .error (.subscription message)
    | _ => confirm rest
  | .other :: rest => confirm rest
  | .close :: _ => .error endedEarly
  | .failure reason :: _ => .error (.connection ("Falha antes da confirmação: " ++ reason))

def connect : Connection → Except Fault Session
  | .refused reason => .error (.connection ("Falha ao conectar via WebSocket: " ++ reason))
  | .mute reason => .error (.connection ("Falha ao enviar eth_subscribe: " ++ reason))
  | .opened messages => confirm messages

/-- The hash that a text announces on the subscription of this name. -/
def hash? (id content : String) : Option Hash :=
  match Frame.ofText content with
  | .notification subscription hash => if subscription = id then some hash else none
  | _ => none

/-- The next announced hash among messages, and the session behind it. -/
def advance (id : String) : List Message → Option (Except Fault Hash) × Session
  | [] => (none, ⟨id, false, []⟩)
  | .text content :: rest =>
    match hash? id content with
    | some hash => (some (.ok hash), ⟨id, true, rest⟩)
    | none => advance id rest
  | .other :: rest => advance id rest
  | .close :: rest => (none, ⟨id, false, rest⟩)
  | .failure reason :: rest =>
    (some (.error (.connection ("Erro no WebSocket: " ++ reason))), ⟨id, false, rest⟩)

/-- The next announced hash; nothing when the session has ended. -/
def next (session : Session) : Option (Except Fault Hash) × Session :=
  if session.isOpen then advance session.id session.unread else (none, session)

def close (session : Session) : Session :=
  { session with isOpen := false }

/-- Takes announced hashes until the session has ended. Every one of them takes a
message, so their number is enough fuel. -/
def drain : (fuel : Nat) → Session → List (Except Fault Hash) × Session
  | 0, session => ([], session)
  | fuel + 1, session =>
    match session.next with
    | (some item, after) =>
      let (items, last) := drain fuel after
      (item :: items, last)
    | (none, after) => ([], after)

/-- All hashes that are announced until the session has ended. -/
def hashes (session : Session) : List (Except Fault Hash) × Session :=
  drain (session.unread.length + 2) session

end Session

end MempoolWatch.Subscription
