import BitcoinKit.Java.Failures
import Mathlib.Algebra.Order.Ring.Int
import Mathlib.Data.List.Forall2

/-! The report of a transaction balances: it has one entry for each input and one for each output, each
    output entry has its amount, an input entry has one when its source is known, and the fee is what
    the inputs give beyond the outputs, or 0 when a source is not known. -/

namespace BitcoinKit
open Schemes

/-! ### Entries of JSON objects -/

variable {json : JSONObject} {key other : String} {value : JSONValue}

theorem lookup_removed : (json.filter fun entry => entry.1 ≠ key).lookup key = none := by
  rw [List.lookup_eq_none_iff]
  intro entry hentry
  have hne : entry.1 ≠ key := of_decide_eq_true (List.mem_filter.mp hentry).2
  exact bne_iff_ne.mpr hne.symm

theorem lookup_removed_ne (h : other ≠ key) :
    (json.filter fun entry => entry.1 ≠ key).lookup other = json.lookup other := by
  induction json with
  | nil => rfl
  | cons entry json ih =>
    obtain ⟨k, v⟩ := entry
    by_cases hk : k = key
    · have hother : (other == k) = false := beq_false_of_ne (hk ▸ h)
      rw [List.filter_cons_of_neg (by simpa using hk), ih, List.lookup_cons, hother]
    · rw [List.filter_cons_of_pos (by simpa using hk), List.lookup_cons, List.lookup_cons, ih]

@[simp] theorem lookup_put : (put json key (some value)).lookup key = some value := by
  simp only [put]
  rw [List.lookup_append, lookup_removed]
  simp

theorem lookup_put_ne (h : other ≠ key) :
    (put json key (some value)).lookup other = json.lookup other := by
  simp only [put]
  rw [List.lookup_append, lookup_removed_ne h, List.lookup_cons, beq_false_of_ne h]
  simp

/-! ### The loops over inputs and outputs -/

variable {α β ε : Type} {f : α → Except ε β}

theorem forall₂_of_mapM : ∀ {xs : List α} {ys : List β}, xs.mapM f = .ok ys →
    List.Forall₂ (fun x y => f x = .ok y) xs ys := by
  intro xs
  induction xs with
  | nil =>
    intro ys h
    cases h
    exact .nil
  | cons x xs ih =>
    intro ys h
    rw [List.mapM_cons] at h
    cases hx : f x with
    | error e => rw [hx] at h; cases h
    | ok y =>
      rw [hx] at h
      cases hxs : xs.mapM f with
      | error e => rw [hxs] at h; cases h
      | ok rest =>
        rw [hxs] at h
        cases h
        exact .cons hx (ih hxs)

theorem mapM_of_forall : ∀ {xs : List α}, (∀ x ∈ xs, ∃ y, f x = .ok y) → ∃ ys, xs.mapM f = .ok ys := by
  intro xs
  induction xs with
  | nil => exact fun _ => ⟨[], rfl⟩
  | cons x xs ih =>
    intro h
    obtain ⟨y, hy⟩ := h x (List.mem_cons_self ..)
    obtain ⟨ys, hys⟩ := ih fun z hz => h z (List.mem_cons_of_mem x hz)
    exact ⟨y :: ys, by rw [List.mapM_cons, hy, hys]; rfl⟩

/-! ### One entry -/

theorem orGiveUp_ok {fallback a : α} {r : Except Throwable α} (h : orGiveUp fallback r = .ok a) :
    r = .ok a ∨ (∃ e, r = .error e) ∧ a = fallback := by
  cases r with
  | ok b => exact .inl h
  | error e =>
    unfold orGiveUp at h
    dsimp only at h
    split at h
    · exact .inr ⟨⟨e, rfl⟩, (Except.ok.inj h).symm⟩
    · cases h

theorem orGiveUp_total {fallback : α} {r : Except Throwable α}
    (h : ∀ e, r = .error e → e.instanceOf scriptExceptionClass = true) :
    ∃ a, orGiveUp fallback r = .ok a := by
  cases r with
  | ok a => exact ⟨a, rfl⟩
  | error e => exact ⟨fallback, if_pos (h e rfl)⟩

/-- An input entry has the amount of the connected output, and none without one. -/
def InputEntry (input : InputView) (entry : JSONObject) : Prop :=
  entry.lookup "amount" = input.connectedValue.map .num

/-- An output entry has its amount, and is the wallet's own exactly when its script pays to the
    wallet's address. -/
structure OutputEntry (walletAddress : Except Throwable Address) (output : OutputView)
    (entry : JSONObject) : Prop where
  amount : entry.lookup "amount" = some (.num output.value)
  own : entry.lookup "type" = some (.str "own") ↔
    ∃ address, output.script = .ok (.address address) ∧ walletAddress = .ok address

theorem bind_eq_ok {r : Except ε α} {g : α → Except ε β} {b : β} (h : r >>= g = .ok b) :
    ∃ a, r = .ok a ∧ g a = .ok b := by
  cases r with
  | error e => cases h
  | ok a => exact ⟨a, rfl, h⟩

/-- The address of an input, or nothing: no amount so far. -/
theorem addressEntry {fromAddress : Except Throwable Address} {data : JSONObject}
    (h : (orGiveUp [] do
      let address ← fromAddress
      pure (put [] "address" (some (.str address)))) = .ok data) :
    data.lookup "amount" = none := by
  rcases orGiveUp_ok h with haddress | ⟨-, rfl⟩
  · obtain ⟨address, -, hput⟩ := bind_eq_ok haddress
    cases hput
    exact lookup_put_ne (by decide)
  · rfl

theorem inputEntry (input : InputView) {entry : JSONObject} (h : inputData input = .ok entry) :
    InputEntry input entry := by
  obtain ⟨isCoinBase, fromAddress, connectedValue⟩ := input
  unfold InputEntry
  cases isCoinBase with
  | true =>
    cases connectedValue with
    | none => cases h; rfl
    | some value => cases h; exact lookup_put
  | false =>
    obtain ⟨data, hdata, hentry⟩ := bind_eq_ok h
    have hnone := addressEntry hdata
    cases connectedValue with
    | none => cases hentry; exact hnone
    | some value => cases hentry; exact lookup_put

/-- The entry before its amount: the type is "own" for the wallet's address only. -/
theorem outputEntry {walletAddress : Except Throwable Address} (output : OutputView)
    {entry : JSONObject} (h : outputData walletAddress output = .ok entry) :
    OutputEntry walletAddress output entry := by
  obtain ⟨data, hdata, hentry⟩ := bind_eq_ok h
  cases hentry
  refine ⟨lookup_put, ?_⟩
  rw [lookup_put_ne (by decide)]
  rcases orGiveUp_ok hdata with hdata | ⟨⟨e, he⟩, rfl⟩
  · obtain ⟨kind, hscript, hkind⟩ := bind_eq_ok hdata
    rw [hscript]
    cases kind with
    | address toAddress =>
      obtain ⟨own, hown, hput⟩ := bind_eq_ok hkind
      cases hput
      rw [lookup_put, hown]
      by_cases heq : toAddress = own
      · simp [heq]
      · simp [heq, Ne.symm heq]
    | rawPubKey => cases hkind; simp [lookup_put]
    | multiSig => cases hkind; simp [lookup_put]
    | other => cases hkind; simp [lookup_put]
  · have hnever : ¬ ∃ address, output.script = .ok (.address address) ∧
        walletAddress = .ok address := by
      rintro ⟨address, hscript, hown⟩
      rw [hscript, hown] at he
      cases he
    constructor
    · rintro ⟨⟩
    · exact fun hown => absurd hown hnever

/-! ### The fee -/

theorem inputSum_eq : ∀ (inputs : List InputView) (v : Int),
    (∀ input ∈ inputs, input.connectedValue ≠ none) →
      inputSum inputs v = some (v + (inputs.filterMap InputView.connectedValue).sum)
  | [], v, _ => by simp [inputSum]
  | input :: inputs, v, h => by
    obtain ⟨value, hvalue⟩ := Option.ne_none_iff_exists'.mp (h input (List.mem_cons_self ..))
    have ih := inputSum_eq inputs (v + value) fun i hi => h i (List.mem_cons_of_mem input hi)
    rw [inputSum, hvalue, List.filterMap_cons_some hvalue, List.sum_cons, ← Int.add_assoc]
    exact ih

theorem inputSum_none : ∀ (inputs : List InputView) (v : Int),
    (∃ input ∈ inputs, input.connectedValue = none) → inputSum inputs v = none
  | [], _, h => by simp at h
  | input :: inputs, v, h => by
    unfold inputSum
    cases hvalue : input.connectedValue with
    | none => rfl
    | some value =>
      obtain ⟨i, hi, hnone⟩ := h
      rcases List.mem_cons.mp hi with rfl | hi
      · rw [hvalue] at hnone
        cases hnone
      · exact inputSum_none inputs (v + value) ⟨i, hi, hnone⟩

theorem foldl_outputs : ∀ (outputs : List OutputView) (v : Int),
    outputs.foldl (fun v output => v - output.value) v = v - (outputs.map OutputView.value).sum
  | [], v => by simp
  | output :: outputs, v => by
    rw [List.foldl_cons, foldl_outputs outputs, List.map_cons, List.sum_cons]
    omega

theorem getTransactionFee_eq {view : TransactionView}
    (h : ∀ input ∈ view.inputs, input.connectedValue ≠ none) :
    getTransactionFee view =
      (view.inputs.filterMap InputView.connectedValue).sum - (view.outputs.map OutputView.value).sum := by
  rw [getTransactionFee, inputSum_eq view.inputs 0 h]
  dsimp only
  rw [foldl_outputs, Int.zero_add]

theorem getTransactionFee_zero {view : TransactionView}
    (h : ∃ input ∈ view.inputs, input.connectedValue = none) : getTransactionFee view = 0 := by
  rw [getTransactionFee, inputSum_none view.inputs 0 h]

/-! ### The report -/

/-- The amount an entry carries. -/
def amountOf (entry : JSONObject) : Option Int :=
  match entry.lookup "amount" with
  | some (.num amount) => some amount
  | _ => none

/-- A report that balances, entry by entry and as a whole. -/
structure Balanced (view : TransactionView) (walletAddress : Except Throwable Address)
    (json : TransactionJSON) : Prop where
  inputs : List.Forall₂ InputEntry view.inputs json.inputs
  outputs : List.Forall₂ (OutputEntry walletAddress) view.outputs json.outputs
  fee : (∀ input ∈ view.inputs, input.connectedValue ≠ none) →
    json.fields.lookup "fee" = some (.num
      ((json.inputs.filterMap amountOf).sum - (json.outputs.filterMap amountOf).sum))
  noFee : (∃ input ∈ view.inputs, input.connectedValue = none) →
    json.fields.lookup "fee" = some (.num 0)

theorem amounts_inputs {views : List InputView} {entries : List JSONObject}
    (h : List.Forall₂ InputEntry views entries) :
    entries.filterMap amountOf = views.filterMap InputView.connectedValue := by
  induction h with
  | nil => rfl
  | @cons input entry views entries hentry hrest ih =>
    have hamount : amountOf entry = input.connectedValue := by
      rw [amountOf, hentry]
      cases input.connectedValue <;> rfl
    rw [List.filterMap_cons, List.filterMap_cons, hamount, ih]

theorem amounts_outputs {own : Except Throwable Address} {views : List OutputView}
    {entries : List JSONObject} (h : List.Forall₂ (OutputEntry own) views entries) :
    entries.filterMap amountOf = views.map OutputView.value := by
  induction h with
  | nil => rfl
  | @cons output entry views entries hentry hrest ih =>
    have hamount : amountOf entry = some output.value := by
      rw [amountOf, hentry.amount]
    rw [List.filterMap_cons_some hamount, List.map_cons, ih]

/-- Every script parses or is given up on. -/
structure Readable (view : TransactionView) : Prop where
  inputs : ∀ input ∈ view.inputs, ∀ e, input.fromAddress = .error e →
    e.instanceOf scriptExceptionClass = true
  outputs : ∀ output ∈ view.outputs, ∀ e, output.script = .error e →
    e.instanceOf scriptExceptionClass = true

theorem inputData_total {input : InputView}
    (h : ∀ e, input.fromAddress = .error e → e.instanceOf scriptExceptionClass = true) :
    ∃ entry, inputData input = .ok entry := by
  obtain ⟨isCoinBase, fromAddress, connectedValue⟩ := input
  have hdata : ∃ data, (orGiveUp [] do
      let address ← fromAddress
      pure (put [] "address" (some (.str address)))) = .ok data := by
    refine orGiveUp_total fun e he => ?_
    cases fromAddress with
    | ok address => cases he
    | error e' =>
      cases he
      exact h e rfl
  obtain ⟨data, hdata⟩ := hdata
  cases isCoinBase with
  | true => cases connectedValue with
    | none => exact ⟨_, rfl⟩
    | some value => exact ⟨_, rfl⟩
  | false =>
    simp only [inputData, hdata]
    cases connectedValue with
    | none => exact ⟨_, rfl⟩
    | some value => exact ⟨_, rfl⟩

theorem outputData_total (own : Address) {output : OutputView}
    (h : ∀ e, output.script = .error e → e.instanceOf scriptExceptionClass = true) :
    ∃ entry, outputData (.ok own) output = .ok entry := by
  obtain ⟨script, value⟩ := output
  cases script with
  | error e =>
    have hgive : orGiveUp ([] : JSONObject) (.error e) = .ok [] := if_pos (h e rfl)
    refine ⟨put [] "amount" (some (.num value)), ?_⟩
    change (orGiveUp [] (.error e) >>= fun data => pure (put data "amount" (some (.num value)))) = _
    rw [hgive]
    rfl
  | ok kind =>
    cases kind with
    | address toAddress => exact ⟨_, rfl⟩
    | rawPubKey => exact ⟨_, rfl⟩
    | multiSig => exact ⟨_, rfl⟩
    | other => exact ⟨_, rfl⟩

variable {lib : Lib} {w : World} {tx : Transaction}

/-- What a report that is put together says. -/
theorem balanced_of_report {report : TransactionJSON}
    (h : outcome (getJSONFromTransaction lib tx w) = .ok report) :
    Balanced (lib.view tx) (outcome (getWalletAddress lib w)) report := by
  have hends : Ends (getJSONFromTransaction lib tx) w fun r _ => r = .ok report := h
  unfold getJSONFromTransaction at hends
  simp only [ends_bind, ends_get, ends_result, ends_call, ends_pure] at hends
  cases hinputs : (lib.view tx).inputs.mapM inputData with
  | error e => rw [hinputs] at hends; cases hends
  | ok inputs =>
    rw [hinputs] at hends
    dsimp only at hends
    cases houtputs : (lib.view tx).outputs.mapM
        (outputData (outcome (getWalletAddress lib w))) with
    | error e => rw [houtputs] at hends; cases hends
    | ok outputs =>
      rw [houtputs] at hends
      cases hfails : lib.fails .transactionJSON with
      | some e => rw [hfails] at hends; cases hends
      | none =>
        rw [hfails] at hends
        cases hends
        have hin : List.Forall₂ InputEntry (lib.view tx).inputs inputs :=
          (forall₂_of_mapM hinputs).imp fun input entry => inputEntry input
        have hout : List.Forall₂ (OutputEntry (outcome (getWalletAddress lib w)))
            (lib.view tx).outputs outputs :=
          (forall₂_of_mapM houtputs).imp fun output entry => outputEntry output
        refine ⟨hin, hout, fun hall => ?_, fun hsome => ?_⟩
        · rw [amounts_inputs hin, amounts_outputs hout, ← getTransactionFee_eq hall]
          rfl
        · rw [← getTransactionFee_zero hsome]
          rfl

/-- With readable scripts and an address of its own, a report is put together. -/
theorem report_total {own : Address} (hview : Readable (lib.view tx))
    (hown : outcome (getWalletAddress lib w) = .ok own) (hjson : lib.fails .transactionJSON = none) :
    ∃ report, outcome (getJSONFromTransaction lib tx w) = .ok report := by
  obtain ⟨inputs, hinputs⟩ := mapM_of_forall fun input hinput =>
    inputData_total (hview.inputs input hinput)
  obtain ⟨outputs, houtputs⟩ := mapM_of_forall fun output houtput =>
    outputData_total own (hview.outputs output houtput)
  have hends : Ends (getJSONFromTransaction lib tx) w fun r _ => ∃ report, r = .ok report := by
    unfold getJSONFromTransaction
    simp only [ends_bind, ends_get, ends_result, ends_call, ends_pure, hown, hinputs, houtputs,
      hjson]
    exact ⟨_, rfl⟩
  exact hends

/-- The report of a transaction balances whenever there is one, and there is one whenever every script
    parses or is given up on. -/
theorem report_balances (lib : Lib) (tx : Transaction) (w : World) :
    (∀ report, outcome (getJSONFromTransaction lib tx w) = .ok report →
      Balanced (lib.view tx) (outcome (getWalletAddress lib w)) report) ∧
    (∀ own, Readable (lib.view tx) → outcome (getWalletAddress lib w) = .ok own →
      lib.fails .transactionJSON = none →
      ∃ report, outcome (getJSONFromTransaction lib tx w) = .ok report) :=
  ⟨fun _ => balanced_of_report, fun _ => report_total⟩

/-- Two inputs, the script of one of which does not parse, and an output that goes back. -/
def changeGiven : TransactionView where
  value := -8
  inputs := [⟨false, .ok "own", some 10⟩,
    ⟨false, .error (.withMessage scriptExceptionClass [exceptionClass] "bad script"), some 5⟩]
  outputs := [⟨.ok (.address "own"), 4⟩, ⟨.ok (.address "shop"), 8⟩, ⟨.ok .multiSig, 1⟩]
  updateTime := 0
  numBroadcastPeers := 1
  depthInBlocks := 0

theorem report_balances_changeGiven (tx : Transaction) :
    let lib := { Lib.fair with view := fun _ => changeGiven }
    let w := run step (World.initial .none) [.start .fair, .createWallet .fair none]
    ∃ report, outcome (getJSONFromTransaction lib tx w) = .ok report ∧
      Balanced changeGiven (.ok "own") report ∧ report.fields.lookup "fee" = some (.num 2) := by
  intro lib w
  obtain ⟨hbalanced, htotal⟩ := report_balances lib tx w
  have hown : outcome (getWalletAddress lib w) = .ok "own" := by decide +kernel
  have hreadable : Readable changeGiven := by
    refine ⟨fun input hinput e he => ?_, fun output houtput e he => ?_⟩
    · rcases List.mem_pair.mp hinput with rfl | rfl
      · cases he
      · cases he
        decide
    · have hparsed : ∀ output ∈ changeGiven.outputs, output.script.isOk := by decide
      have hok := hparsed output houtput
      rw [he] at hok
      cases hok
  obtain ⟨report, hreport⟩ := htotal "own" hreadable hown rfl
  have h := hbalanced report hreport
  rw [hown] at h
  have hconnected : ∀ input ∈ changeGiven.inputs, input.connectedValue ≠ none := by decide
  have hfee := h.fee hconnected
  rw [amounts_inputs h.inputs, amounts_outputs h.outputs] at hfee
  exact ⟨report, hreport, h, hfee⟩

end BitcoinKit
