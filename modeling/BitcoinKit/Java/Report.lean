import BitcoinKit.Java.Library

/-! The JSON report of a transaction. Everything in it but the confidence type is what bitcoinj says
    of the transaction at that moment; the confidence type is read from the world, so a report is a
    snapshot of it. -/

namespace BitcoinKit
open Schemes

def scriptExceptionClass := "com.google.bitcoin.core.ScriptException"

/-- `JSONObject.put`: a `null` value takes the key out. -/
def put (json : JSONObject) (key : String) (value : Option JSONValue) : JSONObject :=
  let others := json.filter fun entry => entry.1 ≠ key
  match value with
  | some v => others ++ [(key, v)]
  | none => others

def ConfidenceType.text : ConfidenceType → String
  | .building => "building"
  | .pending => "pending"
  | .dead => "dead"
  | .unknown => "unknown"

def getWalletAddress (lib : Lib) : Java Address := do
  let (_, wallet) ← theWallet
  let ecKey ← wallet.firstKey
  let w ← get
  pure (lib.toAddress ecKey w.networkParams)

/-- A step that gives up on a `ScriptException` and lets anything else pass. -/
def orGiveUp {α : Type} (fallback : α) : Except Throwable α → Except Throwable α
  | .ok a => .ok a
  | .error e => if e.instanceOf scriptExceptionClass then .ok fallback else .error e

def inputData (input : InputView) : Except Throwable JSONObject := do
  let data ←
    if input.isCoinBase then pure []
    else orGiveUp [] do
      let fromAddress ← input.fromAddress
      pure (put [] "address" (some (.str fromAddress)))
  match input.connectedValue with
  | some value => pure (put data "amount" (some (.num value)))
  | none => pure data

def outputData (walletAddress : Except Throwable Address) (output : OutputView) :
    Except Throwable JSONObject := do
  let data ← orGiveUp [] do
    let script ← output.script
    match script with
    | .address toAddress => do
      let data := put [] "address" (some (.str toAddress))
      let own ← walletAddress
      pure (put data "type" (some (.str (if toAddress = own then "own" else "external"))))
    | .rawPubKey => pure (put [] "type" (some (.str "pubkey")))
    | .multiSig => pure (put [] "type" (some (.str "multisig")))
    | .other => pure (put [] "type" (some (.str "unknown")))
  pure (put data "amount" (some (.num output.value)))

/-- The sum of the inputs, `none` as soon as one is not connected. -/
def inputSum : List InputView → Int → Option Int
  | [], v => some v
  | input :: inputs, v =>
    match input.connectedValue with
    | some value => inputSum inputs (v + value)
    | none => none

def getTransactionFee (view : TransactionView) : Int :=
  match inputSum view.inputs 0 with
  | some v => view.outputs.foldl (fun v output => v - output.value) v
  | none => 0

def getJSONFromTransaction (lib : Lib) (tx : Transaction) : Java TransactionJSON := do
  let w ← get
  let confidence := (w.confidence tx).text
  let view := lib.view tx
  let inputs ← result (view.inputs.mapM inputData)
  let outputs ← result (view.outputs.mapM (outputData (outcome (getWalletAddress lib w))))
  lib.call .transactionJSON
  let fields : JSONObject :=
    [("amount", .num view.value), ("fee", .num (getTransactionFee view)),
     ("txid", .str (toString tx.hash)),
     ("time", .str (lib.formatDate .gmt "yyyy-MM-dd HH:mm:ss z" view.updateTime)),
     ("confidence", .str confidence), ("peers", .num view.numBroadcastPeers),
     ("confirmations", .num view.depthInBlocks)]
  pure ⟨fields, inputs, outputs⟩

/-- The confidence type a report carries, as its text. -/
def TransactionJSON.confidence (json : TransactionJSON) : Option JSONValue :=
  json.fields.lookup "confidence"

end BitcoinKit
