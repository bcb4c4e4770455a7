import MempoolWatch.Identifier
import MempoolWatch.Json.Value

/-! The texts that a node sends on a subscription. A text with parameters is a
notification, whatever else it has; of the others one with an error is a
rejection, and one with a number and a result is a confirmation. -/
namespace MempoolWatch.Subscription

/-- Why a text is passed over. -/
inductive Oddity
  | notJson
  | noSubscription
  | noHash
  | badHash (text : String)
  | noId
deriving DecidableEq

def Oddity.message : Oddity → String
  | notJson => "frame não é JSON: "
  | noSubscription => "notificação sem inscrição"
  | noHash => "notificação sem hash de transação"
  | badHash text => "hash inválido na notificação: " ++ text
  | noId => "resposta sem id de inscrição"

inductive Frame
  /-- The node has accepted a request and names the subscription. -/
  | confirmation (id : Nat) (subscription : String)
  | rejection (id : Option Nat) (message : String)
  /-- A transaction is pending. -/
  | notification (subscription : String) (hash : Hash)
  | ignored (reason : Oddity)
deriving DecidableEq

namespace Frame

def ofParams (params : Json) : Frame :=
  match (params.get? "subscription").bind Json.string?, params.get? "result" with
  | some subscription, some (.string text) =>
    match FixedBytes.ofText? 32 text with
    | some hash => .notification subscription hash
    | none => .ignored (.badHash text)
  | some _, some _ => .ignored .noHash
  | _, _ => .ignored .noSubscription

/-- An error without a text of its own gets one. -/
def errorMessage (error : Json) : String :=
  ((error.get? "message").bind Json.string?).getD "erro sem mensagem"

def ofReply (value : Json) : Frame :=
  let id := (value.get? "id").bind Json.natural?
  match value.get? "error" with
  | some error => .rejection id (errorMessage error)
  | none =>
    match id, value.get? "result" with
    | some id, some (.string subscription) => .confirmation id subscription
    | _, _ => .ignored .noId

def ofJson (value : Json) : Frame :=
  match value.get? "params" with
  | some params => ofParams params
  | none => ofReply value

def ofText (text : String) : Frame :=
  match Json.ofText? text with
  | some value => ofJson value
  | none => .ignored .notJson

end Frame

end MempoolWatch.Subscription
