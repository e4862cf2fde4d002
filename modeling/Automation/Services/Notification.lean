/-
Automation.Services.Notification — messages to people.

A notification goes over a named channel to at least one recipient. The
outbox keeps everything that was sent and acknowledges it by a receipt.
-/
import Automation.Services.Series
import Automation.Workflow.Encode
import Automation.Workflow.Decode

namespace Automation

open Automation.Json (Value)
open Automation.Time (Timestamp Face)

/-- A message. -/
structure Notification where
  recipients : List String
  message : String
  channel : String
  subject : Option String
  deriving DecidableEq, Repr, Inhabited

/-- The JSON value of a message. -/
def Notification.toJson (n : Notification) : Value :=
  .ofFields [
    ("recipients", .ofTexts n.recipients),
    ("message", .string n.message),
    ("channel", .string n.channel),
    ("subject", .ofOptionalText n.subject)]

open Decode in
/-- Read a message. -/
def Notification.decode : Decoder Notification :=
  Reader.decode "Notification" <|
    Notification.mk <$> required "recipients" (list text)
      <*> required "message" text
      <*> required "channel" text
      <*> perhaps "subject" text

/-- That a message was sent. -/
structure Receipt where
  id : String
  /-- The number of recipients. -/
  deliveredTo : Nat
  sentAt : Timestamp
  deriving Repr, Inhabited

/-- The JSON value of a receipt. -/
def Receipt.toJson (face : Face) (r : Receipt) : Value :=
  .ofFields [
    ("id", .string r.id),
    ("deliveredTo", .ofNat r.deliveredTo),
    ("sentAt", r.sentAt.toJson face)]

open Decode in
/-- Read a receipt. -/
def Receipt.decode : Decoder Receipt :=
  Reader.decode "DeliveryReceipt" <|
    Receipt.mk <$> required "id" text
      <*> required "deliveredTo" (natural .usize)
      <*> required "sentAt" decodeTimestamp

/-- What was sent, in order. -/
structure Outbox where
  /-- The ids of receipts. -/
  series : Series := { start := "notification-" }
  sent : List Notification := []
  deriving Repr, Inhabited

/-- Why a message is not sent. -/
inductive SendError where
  | noRecipients
  deriving DecidableEq, Repr

/-- The reason in words. -/
def SendError.message : SendError → String
  | .noRecipients => "Notification has no recipients"

/-- Send a message. -/
def Outbox.send (outbox : Outbox) (n : Notification) (now : Nat) :
    Except SendError (Receipt × Outbox) :=
  if n.recipients.isEmpty then .error .noRecipients
  else .ok (
    { id := outbox.series.id (outbox.sent.length + 1)
      deliveredTo := n.recipients.length
      sentAt := .reading now },
    { outbox with sent := outbox.sent ++ [n] })

end Automation
