import BitcoinKit.Cocoa.Answers
import BitcoinKit.Cocoa.Transactions
import BitcoinKit.Properties.Paging

/-! A single transaction, asked for by its place or by its hash, is the one the full list has. -/

namespace BitcoinKit
open Schemes Json

variable {lib : Lib} {byTime : Wallet → JavaList Transaction} {dates : Dates} {c : Cocoa}
  {ref : WalletRef}

/-- The Java side when a query gets to it. -/
def World.asked (w : World) : World := { w with natives := [], activity := 0 }

/-- The transactions a query works on. -/
def Cocoa.listed (byTime : Wallet → JavaList Transaction) (c : Cocoa) (ref : WalletRef) :
    List Transaction := (byTime (c.java.wallets.cell ref)).1

/-- The dictionary the application gets for a report. -/
def dictionaryOf (dates : Dates) (report : TransactionJSON) : NSDictionary :=
  modifiedTransactionForTransaction dates (membersOf report.toJson)

/-! ### How a query ends -/

/-- How a query ends without a pointer for the error, when its Java method ended so. -/
def answered {α β : Type} (f : α → β) : Except Throwable α → Except NSException β
  | .ok a => .ok (f a)
  | .error e => .error ⟨(errorForJavaException e).localizedFailureReason⟩

theorem ends_calledObject {α : Type} (method : Java α) :
    Ends (callObjectMethod false method) c fun r _ =>
      r = answered (fun a => (some a, none)) (outcome (c.runOf method)) := by
  unfold callObjectMethod
  rw [ends_bind]
  refine ends_mono (ends_runJava method) fun r d ⟨hr, _⟩ => ?_
  rw [hr]
  cases outcome (c.runOf method) with
  | ok a => rfl
  | error e =>
    dsimp only
    unfold handleJavaExceptions handleJavaException
    simp only [ends_bind, ends_get, ends_ite, ends_pure, ends_throw]
    rw [if_neg (by simp), if_neg (by simp)]
    rfl

theorem outcome_query {α β : Type} {name signature : String}
    (h : (name, signature) ∈ managerMethods) (method : Java α) (f : Option α → β) :
    outcome ((do
      let (text, _) ← callObjectMethodWithName name signature false method
      pure (f text) : ObjC β) c) =
        answered (fun a => f (some a)) (outcome (method c.java.asked)) := by
  have hends : Ends (do
      let (text, _) ← callObjectMethodWithName name signature false method
      pure (f text) : ObjC β) c fun r _ =>
        r = answered (fun a => f (some a)) (outcome (method c.java.asked)) := by
    rw [callObjectMethodWithName, ends_bind, ends_bind, jMethodWithName, if_pos h, ends_pure]
    dsimp only
    refine ends_mono (ends_calledObject (onBehalfOf 0 method)) fun r d hr => ?_
    have hrun : outcome (c.runOf (onBehalfOf 0 method)) = outcome (method c.java.asked) := rfl
    rw [hr, hrun]
    cases outcome (method c.java.asked) with
    | ok a => rfl
    | error e => rfl
  exact hends

/-! ### What the Java methods return -/

theorem outcome_getTransactionAt (hw : c.java.wallet = some ref) (idx : Int32) :
    outcome (getTransactionAt lib byTime idx c.java.asked) =
      ((byTime (c.java.wallets.cell ref)).get idx).bind fun tx =>
        (reportAt lib c.java.asked tx).map fun report => some report.text := by
  have hw' : c.java.asked.wallet = some ref := hw
  have hends : Ends (getTransactionAt lib byTime idx) c.java.asked fun r _ =>
      r = ((byTime (c.java.wallets.cell ref)).get idx).bind fun tx =>
        (reportAt lib c.java.asked tx).map fun report => some report.text := by
    rw [getTransactionAt, ends_bind, ends_theWallet hw']
    dsimp only
    rw [ends_bind, ends_result]
    have hcell : c.java.asked.wallets.cell ref = c.java.wallets.cell ref := rfl
    rw [hcell]
    cases (byTime (c.java.wallets.cell ref)).get idx with
    | error e => rfl
    | ok tx =>
      dsimp only
      rw [ends_bind]
      refine ends_mono (ends_reportAt lib c.java.asked tx) fun r v ⟨hr, _⟩ => ?_
      rw [Except.bind, ← hr]
      cases r with
      | error e => rfl
      | ok report => rfl
  exact hends

theorem outcome_getTransaction (hw : c.java.wallet = some ref)
    {parseHash : String → Except Throwable Sha256Hash} {text : String} {hash : Sha256Hash}
    (hhash : parseHash text = .ok hash) :
    outcome (getTransaction lib parseHash text c.java.asked) =
      match (c.java.wallets.cell ref).transactions.find? fun tx => tx.hash = hash with
      | some tx => (reportAt lib c.java.asked tx).map fun report => some report.text
      | none => .ok none := by
  have hw' : c.java.asked.wallet = some ref := hw
  have hends : Ends (getTransaction lib parseHash text) c.java.asked fun r _ =>
      r = match (c.java.wallets.cell ref).transactions.find? fun tx => tx.hash = hash with
      | some tx => (reportAt lib c.java.asked tx).map fun report => some report.text
      | none => .ok none := by
    rw [getTransaction, ends_bind, ends_result, hhash]
    dsimp only
    rw [ends_bind, ends_theWallet hw']
    have hcell : c.java.asked.wallets.cell ref = c.java.wallets.cell ref := rfl
    rw [hcell]
    dsimp only
    cases (c.java.wallets.cell ref).transactions.find? fun tx => tx.hash = hash with
    | none => rfl
    | some tx =>
      dsimp only
      rw [ends_bind]
      refine ends_mono (ends_reportAt lib c.java.asked tx) fun r v ⟨hr, _⟩ => ?_
      rw [← hr]
      cases r with
      | error e => rfl
      | ok report => rfl
  exact hends

/-- The full list is `null` when it is empty, and otherwise one page of all reports. -/
theorem outcome_getAllTransactions (hw : c.java.wallet = some ref) :
    outcome (getAllTransactions lib byTime c.java.asked) =
      if c.listed byTime ref = [] then .ok none
      else ((c.listed byTime ref).mapM (reportAt lib c.java.asked)).map fun reports =>
        some (pageText reports) := by
  have hw' : c.java.asked.wallet = some ref := hw
  have hzero : (0 : Int32).toInt = 0 := rfl
  generalize hlist : byTime (c.java.asked.wallets.cell ref) = transactions
  have hlisted : c.listed byTime ref = transactions.1 := congrArg Subtype.val hlist
  have hcount : outcome (getAllTransactions lib byTime c.java.asked) =
      outcome (getTransactions lib byTime 0 transactions.size c.java.asked) := by
    have hends : Ends (getAllTransactions lib byTime) c.java.asked fun r _ =>
        r = outcome (getTransactions lib byTime 0 transactions.size c.java.asked) := by
      rw [getAllTransactions, getTransactionCount, ends_bind, ends_bind, ends_theWallet hw']
      dsimp only
      rw [ends_pure, hlist]
      rfl
    exact hends
  rw [hcount, hlisted]
  have hsize := @toInt_size transactions
  by_cases hnil : transactions.1 = []
  · rw [if_pos hnil]
    refine outcome_beyond hw' ?_
    rw [hlist, hnil]
    exact le_rfl
  · have hpos := List.length_pos_iff.mpr hnil
    have hstop : stopOf transactions 0 transactions.size = transactions.size := by
      rw [stopOf, Int32.zero_add]
      exact ite_self _
    rw [if_neg hnil, outcome_getTransactions hw' le_rfl (by rw [hlist, hzero]; omega), hlist, hstop,
      hsize, hzero, Int.sub_zero]
    simp only [Int.toNat_natCast, Int.toNat_zero, List.drop_zero, List.take_length]

/-! ### What the application gets -/

theorem transactionOf_text (report : TransactionJSON) :
    transactionOf dates (some report.text) = some (dictionaryOf dates report) := by
  rw [transactionOf, Option.bind_some, TransactionJSON.text, parse_print]
  rfl

theorem transactionsOf_pageText (reports : List TransactionJSON) :
    transactionsOf dates (some (pageText reports)) = some (reports.map (dictionaryOf dates)) := by
  rw [transactionsOf, Option.bind_some, parse_pageText]
  dsimp only
  rw [List.map_map]
  rfl

/-- The full list is there when there are transactions, and no report throws. -/
theorem reports_of_all (hw : c.java.wallet = some ref) {all : List NSDictionary}
    (hall : outcome (allTransactions lib byTime dates c) = .ok (some all)) :
    ∃ reports, (c.listed byTime ref).mapM (reportAt lib c.java.asked) = .ok reports ∧
      all = reports.map (dictionaryOf dates) := by
  have hquery : outcome (allTransactions lib byTime dates c) = _ :=
    outcome_query (by decide) (getAllTransactions lib byTime)
      fun text => transactionsOf dates (text.bind id)
  rw [hquery, outcome_getAllTransactions hw] at hall
  split at hall
  · cases hall
  · cases hreports : (c.listed byTime ref).mapM (reportAt lib c.java.asked) with
    | error e =>
      rw [hreports] at hall
      cases hall
    | ok reports =>
      rw [hreports] at hall
      refine ⟨reports, rfl, ?_⟩
      have hlist : transactionsOf dates (some (pageText reports)) = some all := Except.ok.inj hall
      rw [transactionsOf_pageText] at hlist
      exact (Option.some.inj hlist).symm

/-- The report at a place of the list, and the dictionary at that place of all dictionaries. -/
theorem report_at {reports : List TransactionJSON} {txs : List Transaction} {w : World}
    (h : txs.mapM (reportAt lib w) = .ok reports) {k : Nat} {tx : Transaction}
    (hk : txs[k]? = some tx) :
    ∃ report, reportAt lib w tx = .ok report ∧ reports[k]? = some report := by
  have hall := forall₂_of_mapM h
  obtain ⟨hlt, rfl⟩ := List.getElem?_eq_some_iff.mp hk
  have hlt' : k < reports.length := hall.length_eq ▸ hlt
  exact ⟨reports[k], hall.get hlt hlt', List.getElem?_eq_getElem hlt'⟩

theorem ends_transactionForHash {parseHash : String → Except Throwable Sha256Hash} {text : String}
    {found : Option String}
    (h : outcome (getTransaction lib parseHash text c.java.asked) = .ok found) :
    outcome (transactionForHash lib parseHash dates text c) = .ok (transactionOf dates found) := by
  have hends : Ends (transactionForHash lib parseHash dates text) c fun r _ =>
      r = .ok (transactionOf dates found) := by
    rw [transactionForHash, ends_bind, callObjectMethodWithName, ends_bind, jMethodWithName,
      if_pos (by decide), ends_pure]
    dsimp only
    refine ends_mono (ends_callObjectMethod true _) fun r d ⟨hr, _⟩ => ?_
    have hrun : outcome (c.runOf (onBehalfOf 0 (getTransaction lib parseHash text))) = .ok found := h
    rw [hrun] at hr
    cases hr
    rfl
  exact hends

/-- The single queries agree with the full list `all` that the manager answers in the same state. -/
structure QueriesAgree (lib : Lib) (byTime : Wallet → JavaList Transaction)
    (parseHash : String → Except Throwable Sha256Hash) (dates : Dates) (c : Cocoa) (ref : WalletRef)
    (all : List NSDictionary) : Prop where
  count : outcome (transactionCount byTime c) = .ok (.ofNat all.length)
  /-- An index is taken by its low 32 bits; one that is not in the list raises. -/
  index : ∀ index : NSUInteger, outcome (transactionAtIndex lib byTime dates index c) =
    match (if 0 ≤ index.jint then all[index.jint.toInt.toNat]? else none) with
    | some dictionary => .ok (some dictionary)
    | none => .error ⟨(errorForJavaException indexOutOfBoundsException).localizedFailureReason⟩
  hash : ∀ (k : Nat) (tx : Transaction), (c.listed byTime ref)[k]? = some tx →
    outcome (transactionForHash lib parseHash dates (toString tx.hash) c) = .ok all[k]?
  unknown : ∀ text hash, parseHash text = .ok hash →
    (∀ tx ∈ (c.java.wallets.cell ref).transactions, tx.hash ≠ hash) →
    outcome (transactionForHash lib parseHash dates text c) = .ok none

theorem ofJint_ofNat {n : Nat} (h : n < 2 ^ 31) : NSUInteger.ofJint (.ofNat n) = .ofNat n := by
  have hsmall : (UInt64.ofNat n).toNat < 2147483648 := by
    rw [UInt64.toNat_ofNat']
    omega
  have hjint : (UInt64.ofNat n).toUInt32.toInt32 = Int32.ofNat n := by
    rw [UInt64.toUInt32_ofNat', UInt32.toInt32_ofNat']
  rw [← hjint]
  exact ofJint_jint hsmall

theorem outcome_transactionCount (hw : c.java.wallet = some ref) :
    outcome (transactionCount byTime c) = .ok (.ofNat (c.listed byTime ref).length) := by
  have hw' : c.java.asked.wallet = some ref := hw
  have hsize : outcome (c.runOf (onBehalfOf 0 (getTransactionCount byTime))) =
      .ok (byTime (c.java.wallets.cell ref)).size := by
    have hends : Ends (getTransactionCount byTime) c.java.asked fun r _ =>
        r = .ok (byTime (c.java.wallets.cell ref)).size := by
      rw [getTransactionCount, ends_bind, ends_theWallet hw']
      rfl
    exact hends
  have hends : Ends (transactionCount byTime) c fun r _ =>
      r = .ok (.ofNat (c.listed byTime ref).length) := by
    rw [transactionCount, ends_bind]
    refine ends_mono (ends_calledObject _) fun r d hr => ?_
    rw [hr, hsize]
    exact congrArg Except.ok (ofJint_ofNat (byTime (c.java.wallets.cell ref)).2)
  exact hends

/-- An index beyond the list, or below it, is refused. -/
theorem get_eq_error {transactions : JavaList Transaction} {i : Int32}
    (h : 0 ≤ i → transactions.1[i.toInt.toNat]? = none) :
    transactions.get i = .error indexOutOfBoundsException := by
  rw [JavaList.get]
  split
  · next hpos => rw [h hpos]
  · rfl

/-- Of a wallet's transactions, the one with a hash is found by it. -/
theorem find_hash {wallet : Wallet} {tx : Transaction} (h : tx ∈ wallet.transactions) :
    wallet.transactions.find? (fun t => t.hash = tx.hash) = some tx := by
  have hsome : (wallet.transactions.find? fun t => t.hash = tx.hash).isSome := by
    rw [List.find?_isSome]
    exact ⟨tx, h, decide_eq_true rfl⟩
  obtain ⟨other, hother⟩ := Option.isSome_iff_exists.mp hsome
  have hhash := List.find?_some hother
  rw [decide_eq_true_eq] at hhash
  rw [hother, eq_of_key_eq wallet.distinct (List.mem_of_find?_eq_some hother) h hhash]

/-- An index, with the reports of the list at hand. -/
theorem outcome_transactionAtIndex (hw : c.java.wallet = some ref) {reports : List TransactionJSON}
    (hreports : (c.listed byTime ref).mapM (reportAt lib c.java.asked) = .ok reports) (index : NSUInteger) :
    outcome (transactionAtIndex lib byTime dates index c) =
      match (if 0 ≤ index.jint then (reports.map (dictionaryOf dates))[index.jint.toInt.toNat]? else none) with
      | some dictionary => .ok (some dictionary)
      | none => .error ⟨(errorForJavaException indexOutOfBoundsException).localizedFailureReason⟩ := by
  have hlength : reports.length = (c.listed byTime ref).length :=
    (forall₂_of_mapM hreports).length_eq.symm
  have hquery : outcome (transactionAtIndex lib byTime dates index c) = _ :=
    outcome_query (by decide) (getTransactionAt lib byTime index.jint)
      fun text => transactionOf dates (text.bind id)
  rw [hquery, outcome_getTransactionAt hw]
  cases hk : (if 0 ≤ index.jint then
      (c.listed byTime ref)[index.jint.toInt.toNat]? else none) with
  | none =>
    have hget : (byTime (c.java.wallets.cell ref)).get index.jint = .error indexOutOfBoundsException := by
      refine get_eq_error fun hpos => ?_
      rwa [if_pos hpos] at hk
    have hnone : (if 0 ≤ index.jint then
        (reports.map (dictionaryOf dates))[index.jint.toInt.toNat]? else none) = none := by
      split
      · next hpos =>
        rw [if_pos hpos, List.getElem?_eq_none_iff] at hk
        rw [List.getElem?_eq_none_iff, List.length_map, hlength]
        exact hk
      · rfl
    rw [hget, hnone]
    rfl
  | some tx =>
    have hpos : 0 ≤ index.jint := by
      by_contra hneg
      rw [if_neg hneg] at hk
      cases hk
    rw [if_pos hpos] at hk ⊢
    obtain ⟨report, hreport, hat⟩ := report_at hreports hk
    rw [get_eq (Int32.le_iff_toInt_le.mp hpos) hk, List.getElem?_map, hat]
    change answered _ ((reportAt lib c.java.asked tx).map _) = _
    rw [hreport]
    exact congrArg Except.ok (transactionOf_text report)

theorem queries_agree {parseHash : String → Except Throwable Sha256Hash}
    (hw : c.java.wallet = some ref) (hhash : ∀ hash : Sha256Hash, parseHash (toString hash) = .ok hash)
    (hlisted : ∀ tx ∈ c.listed byTime ref, tx ∈ (c.java.wallets.cell ref).transactions)
    {all : List NSDictionary}
    (hall : outcome (allTransactions lib byTime dates c) = .ok (some all)) :
    QueriesAgree lib byTime parseHash dates c ref all := by
  obtain ⟨reports, hreports, rfl⟩ := reports_of_all hw hall
  constructor
  case count =>
    rw [List.length_map, ← (forall₂_of_mapM hreports).length_eq]
    exact outcome_transactionCount hw
  case index => exact outcome_transactionAtIndex hw hreports
  case hash =>
    intro k tx hk
    obtain ⟨report, hreport, hat⟩ := report_at hreports hk
    have hjava := @outcome_getTransaction lib c ref hw parseHash (toString tx.hash) tx.hash
      (hhash tx.hash)
    rw [find_hash (hlisted tx (List.mem_of_getElem? hk))] at hjava
    dsimp only at hjava
    rw [hreport] at hjava
    rw [ends_transactionForHash hjava, transactionOf_text, List.getElem?_map, hat]
    rfl
  case unknown =>
    intro text hash hparse hnone
    have hjava := @outcome_getTransaction lib c ref hw parseHash text hash hparse
    have hfound : (c.java.wallets.cell ref).transactions.find? (fun t => t.hash = hash) = none := by
      rw [List.find?_eq_none]
      intro t ht
      simpa using hnone t ht
    rw [hfound] at hjava
    rw [ends_transactionForHash hjava]
    rfl

/-! ### A concrete wallet -/

def recentByTime (wallet : Wallet) : JavaList Transaction :=
  ⟨wallet.transactions.take 1000, by rw [List.length_take]; omega⟩

/-- A wallet with two transactions. -/
def twoHeld : Cocoa :=
  { Cocoa.initial .none false with
    java := { World.initial .none with
      wallet := some 0
      wallets := ⟨1, fun _ =>
        (Wallet.empty.withTransaction ⟨0, 1, [], none⟩).withTransaction ⟨1, 2, [], none⟩⟩ } }

/-- A hash as the reports print it. -/
def decimalHash (text : String) : Except Throwable Sha256Hash :=
  if text.toList.all Char.isDigit then .ok (Nat.ofDigitChars 10 text.toList 0)
  else .error (illegalArgumentException text)

theorem decimalHash_toString (hash : Sha256Hash) : decimalHash (toString hash) = .ok hash := by
  have hdigits : (Nat.toDigits 10 hash).all Char.isDigit = true :=
    List.all_eq_true.mpr (isDigit_toDigits hash)
  rw [decimalHash, toList_toString, if_pos hdigits, Nat.ofDigitChars_ten_toDigits]

/-- A list of known length is there. -/
theorem all_of_length {x : EStateM.Result NSException Cocoa (Option (List NSDictionary))} {n : Nat}
    (h : (outcome x).map (fun all => all.map List.length) = .ok (some n)) :
    ∃ all, outcome x = .ok (some all) := by
  cases hx : outcome x with
  | error e =>
    rw [hx] at h
    cases h
  | ok all =>
    cases all with
    | none =>
      rw [hx] at h
      cases h
    | some all => exact ⟨all, rfl⟩

theorem queries_agree_two : ∃ all, outcome (allTransactions .fair recentByTime ⟨fun _ => none, 0⟩ twoHeld) =
    .ok (some all) ∧ QueriesAgree .fair recentByTime decimalHash ⟨fun _ => none, 0⟩ twoHeld 0 all := by
  obtain ⟨all, hall⟩ : ∃ all, outcome (allTransactions .fair recentByTime ⟨fun _ => none, 0⟩ twoHeld) =
      .ok (some all) := all_of_length (n := 2) (by decide +kernel)
  have hlisted : ∀ tx ∈ twoHeld.listed recentByTime 0,
      tx ∈ (twoHeld.java.wallets.cell 0).transactions := fun tx htx => List.mem_of_mem_take htx
  exact ⟨all, hall, queries_agree rfl decimalHash_toString hlisted hall⟩

end BitcoinKit
