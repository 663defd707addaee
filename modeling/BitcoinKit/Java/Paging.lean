import Mathlib.Algebra.Order.Ring.Int
import BitcoinKit.Java.Report
import BitcoinKit.Schemes.Json

/-! Pages of the transaction list, as one JSON text. A page is built up in place:

        "[\n"   report   "\n,"   report   "\n,"   report   "]\n"

    The parameter `from`, called `start` here, is the loop's counter, and all arithmetic is of 32 bits. -/

namespace BitcoinKit
open Schemes

/-- A list of Java: its size is an `int`. -/
def JavaList (α : Type) : Type := { elements : List α // elements.length < 2 ^ 31 }

namespace JavaList

variable {α : Type}

def size (list : JavaList α) : Int32 := .ofNat list.1.length

/-- `get(index)`. -/
def get (list : JavaList α) (index : Int32) : Except Throwable α :=
  if 0 ≤ index then
    match list.1[index.toInt.toNat]? with
    | some a => .ok a
    | none => .error indexOutOfBoundsException
  else .error indexOutOfBoundsException

end JavaList

/-! ### The text of a report -/

def JSONValue.toJson : JSONValue → Json
  | .num n => .num n
  | .str s => .str s

def JSONObject.toJson (object : JSONObject) : Json :=
  .obj (object.map fun entry => (entry.1, entry.2.toJson))

def TransactionJSON.toJson (report : TransactionJSON) : Json :=
  .obj (report.fields.map (fun entry => (entry.1, entry.2.toJson)) ++
    [("inputs", .arr (report.inputs.map JSONObject.toJson)),
     ("outputs", .arr (report.outputs.map JSONObject.toJson))])

/-- `result.toString()`. -/
def TransactionJSON.text (report : TransactionJSON) : String := .ofList report.toJson.print

/-! ### Pages -/

/-- `from++` counts up while it is below another `int`. -/
theorem toInt_succ {i stop : Int32} (h : i < stop) : (i + 1).toInt = i.toInt + 1 := by
  have hlt := Int32.lt_iff_toInt_lt.mp h
  have hstop := stop.toInt_lt
  have hi := i.le_toInt
  have hone : (1 : Int32).toInt = 1 := rfl
  rw [Int32.toInt_add, hone, Int.bmod_def]
  omega

/-- The loop from `i` on, with the text so far. -/
def appendTransactions (lib : Lib) (transactions : JavaList Transaction) (stop i : Int32)
    (first : Bool) (txs : String) : Java String :=
  if _h : i < stop then do
    let txs := if first then txs else txs ++ "\n,"
    let tx ← result (transactions.get i)
    let report ← getJSONFromTransaction lib tx
    appendTransactions lib transactions stop (i + 1) false (txs ++ report.text)
  else pure txs
termination_by (stop.toInt - i.toInt).toNat
decreasing_by
  have hnext := toInt_succ _h
  have hlt := Int32.lt_iff_toInt_lt.mp _h
  omega

/-- `byTime` is `getTransactionsByTime()` of the wallet. -/
def getTransactions (lib : Lib) (byTime : Wallet → JavaList Transaction) (start count : Int32) :
    Java (Option String) := do
  let (_, wallet) ← theWallet
  let transactions := byTime wallet
  if start ≥ transactions.size then pure none
  else
    let stop := if start + count < transactions.size then start + count else transactions.size
    let txs ← appendTransactions lib transactions stop start true "[\n"
    pure (some (txs ++ "]\n"))

def getTransactionCount (byTime : Wallet → JavaList Transaction) : Java Int32 := do
  let (_, wallet) ← theWallet
  pure (byTime wallet).size

def getAllTransactions (lib : Lib) (byTime : Wallet → JavaList Transaction) :
    Java (Option String) := do
  let count ← getTransactionCount byTime
  getTransactions lib byTime 0 count

/-! ### Single transactions -/

/-- `getTransaction(String)`. `parseHash` is `new Sha256Hash(text)`; a wallet without the transaction
    gives `null`, and so does the report of `null`. -/
def getTransaction (lib : Lib) (parseHash : String → Except Throwable Sha256Hash) (tx : String) :
    Java (Option String) := do
  let hash ← result (parseHash tx)
  let (_, wallet) ← theWallet
  match wallet.transactions.find? fun tx => tx.hash = hash with
  | some tx => do
    let report ← getJSONFromTransaction lib tx
    pure (some report.text)
  | none => pure none

/-- `getTransaction(int)`. -/
def getTransactionAt (lib : Lib) (byTime : Wallet → JavaList Transaction) (idx : Int32) :
    Java (Option String) := do
  let (_, wallet) ← theWallet
  let tx ← result ((byTime wallet).get idx)
  let report ← getJSONFromTransaction lib tx
  pure (some report.text)

end BitcoinKit
