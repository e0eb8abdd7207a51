import PgEddy.CdcProtocol
import PgEddy.Lib.Recorded

/-!
# The output plugin

The callbacks of `storage/wal_decode.rs`, which PostgreSQL calls for every transaction it decodes, one transaction after the
other. A callback that raises an error ends the decoding; what it has written by then is written.
-/

namespace PgEddy

open Recorded Utf8

/-- `LOGICAL_MESSAGE_PREFIX`. -/
def logicalMessagePrefix : String := "pg_eddy/v1"

/-- A logical message as the plugin gets it. -/
structure LogicalMessage where
  messageLsn : UInt64
  transactional : Bool
  messagePrefix : Option (List UInt8)
  payload : List UInt8
  deriving DecidableEq

/-- A decoded transaction: what the plugin reads of the `ReorderBufferTXN`, the LSN of the commit, and the messages. -/
structure DecodedTransaction where
  xid : UInt32
  commitLsn : UInt64
  endLsn : UInt64
  messages : List LogicalMessage
  deriving DecidableEq

/-- A callback. Its state is whether `output_plugin_private` of the transaction holds the marker, and it records the frames it
hands to the stream. -/
abbrev Callback : Type := Program String Bool (List UInt8) Unit

variable (serde : SerdeJson)

/-- `write_frame`. -/
def writeFrame (frame : Frame) : Callback :=
  match encodeFrame serde frame with
  | .error error => stop s!"pg_eddy output plugin encode failed: {error.text}"
  | .ok encoded =>
    if encoded.length > 2 ^ 31 - 1 then stop "pg_eddy output frame exceeds PostgreSQL's limit"
    else act (fun marked => (marked, .ok ())) (fun _ => encoded)

/-- `begin`. What is streamed to begin a transaction waits for its first message. -/
def beginCallback : Callback := set false

/-- `message`. Messages that are not transactional or not of this program stream nothing. -/
def messageCallback (txn : DecodedTransaction) (m : LogicalMessage) : Callback := do
  if m.transactional = false ∨ m.messagePrefix ≠ some (utf8Bytes logicalMessagePrefix) then return
  match decodeLogicalMessage serde m.payload with
  | .error error => stop s!"pg_eddy output plugin decode failed: {error.text}"
  | .ok mutation =>
    let marked ← get
    if marked = false then
      writeFrame serde (.begin txn.xid)
      set true
    writeFrame serde (.mutation m.messageLsn mutation)

/-- `commit`. Transactions without messages of this program remain invisible. -/
def commitCallback (txn : DecodedTransaction) : Callback := do
  let marked ← get
  if marked = false then return
  writeFrame serde (.commit txn.xid txn.commitLsn txn.endLsn)

/-- The callbacks for one transaction. -/
def decodeTransaction (txn : DecodedTransaction) : Callback := do
  beginCallback
  txn.messages.forM (messageCallback serde txn)
  commitCallback serde txn

/-- The callbacks for the transactions in the order of their commits. -/
def decodeTransactions (txns : List DecodedTransaction) : Callback := txns.forM (decodeTransaction serde)

end PgEddy
