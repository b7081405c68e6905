import SorobanExplorer.Parser.Envelope
import SorobanExplorer.Parser.ScVal
import SorobanExplorer.Parser.Transaction

/-!
# Extracting transactions

One record for every processed transaction.  A transaction whose envelope is
missing, or that does not encode, keeps a partial record marked `parseError`.
-/

namespace SorobanExplorer

open Text

/-- The type and value of a memo.  Text that is no UTF-8 is kept as hex. -/
def extractMemo : Memo → Option String × Option String
  | .none => (none, none)
  | .text bytes =>
      match fromUtf8 bytes with
      | some text => (some "text", some text)
      | none => (some "text_hex", some (hexEncode bytes))
  | .id id => (some "id", some (toString id.toNat))
  | .hash hash => (some "hash", some (hexEncode hash.bytes))
  | .retHash hash => (some "return", some (hexEncode hash.bytes))

/-- What a close meta says of one processed transaction. -/
structure TxInfo where
  hash : Hash
  successful : Bool
  /-- The result in base64; empty if it does not encode. -/
  resultXdr : String

variable [Crates]

-- an envelope in base64, empty if it does not encode
variable (encodeXdr : TransactionEnvelope → String)

/-- The record of one transaction. -/
def extractSingleTransaction (info : TxInfo) (envelope : Option TransactionEnvelope) :
    ExtractedTransaction :=
  match envelope with
  | some envelope =>
      let inner := innerTransaction envelope
      let (memoType, memo) := extractMemo inner.memo
      { hash := hexEncode info.hash.bytes
        sourceAccount := envelopeSource envelope
        sourceMuxedId := inner.sourceMuxedId
        memoType
        memo
        parseError := encodeXdr envelope = "" ∨ info.resultXdr = "" }
  | none =>
      { hash := hexEncode info.hash.bytes
        sourceAccount := ""
        sourceMuxedId := none
        memoType := none
        memo := none
        parseError := true }

end SorobanExplorer
