import BitcoinKit.Java.Ledger
import BitcoinKit.Java.Paging
import BitcoinKit.Properties.Report

/-! A page is an exact slice of the transaction list, unless `from + count` does not fit an `int`: then
    the sum is negative, the loop ends before it begins, and the page is empty. -/

namespace BitcoinKit
open Schemes Json

variable {lib : Lib} {w : World} {transactions : JavaList Transaction} {stop : Int32}

/-- The report of a transaction at this moment, or what its making throws. -/
def reportAt (lib : Lib) (w : World) (tx : Transaction) : Except Throwable TransactionJSON :=
  outcome (getJSONFromTransaction lib tx w)

theorem ends_reportAt (lib : Lib) (w : World) (tx : Transaction) :
    Ends (getJSONFromTransaction lib tx) w fun r v => r = reportAt lib w tx ∧ v = w :=
  ⟨rfl, moves_getJSON (R := keeping id) lib tx w⟩

/-- What stands between two reports. -/
def separator : List Char := ['\n', ',']

/-- What the loop appends for reports: only the very first one goes without a separator. -/
def glued (first : Bool) (texts : List (List Char)) : List Char :=
  if first then joined separator texts else texts.flatMap (separator ++ ·)

theorem glued_nil (first : Bool) : glued first [] = [] := by
  cases first <;> rfl

theorem glued_cons (first : Bool) (text : List Char) (texts : List (List Char)) :
    glued first (text :: texts) = (if first then [] else separator) ++ text ++ glued false texts := by
  cases first with
  | true => rfl
  | false => simp [glued]

/-- How the loop ends that has these reports to append: the first one that throws ends it. -/
def Appended (lib : Lib) (w : World) (page : List Transaction) (first : Bool) (text : String)
    (r : Except Throwable String) : Prop :=
  match page.mapM (reportAt lib w) with
  | .error e => r = .error e
  | .ok reports => r = .ok (text ++ .ofList (glued first (reports.map fun report => report.toJson.print)))

theorem get_eq {i : Int32} {tx : Transaction} (hpos : 0 ≤ i.toInt)
    (h : transactions.1[i.toInt.toNat]? = some tx) : transactions.get i = .ok tx := by
  have hle : 0 ≤ i := Int32.le_iff_toInt_le.mpr hpos
  rw [JavaList.get, if_pos hle, h]

theorem ends_appendTransactions (k : Nat) : ∀ {i : Int32} {first : Bool} {text : String},
    0 ≤ i.toInt → i.toInt + k = stop.toInt → stop.toInt ≤ transactions.1.length →
      Ends (appendTransactions lib transactions stop i first text) w fun r v =>
        Appended lib w ((transactions.1.drop i.toInt.toNat).take k) first text r ∧ v = w := by
  induction k with
  | zero =>
    intro i first text hpos hk hstop
    have hend : ¬ i < stop := by
      rw [Int32.lt_iff_toInt_lt]
      omega
    rw [appendTransactions, dif_neg hend, ends_pure, List.take_zero]
    refine ⟨?_, rfl⟩
    change Except.ok text = .ok (text ++ .ofList (glued first []))
    rw [glued_nil]
    simp
  | succ k ih =>
    intro i first text hpos hk hstop
    have hlt : i < stop := by
      rw [Int32.lt_iff_toInt_lt]
      omega
    have hin : i.toInt.toNat < transactions.1.length := by omega
    have hnext := toInt_succ hlt
    have hget := get_eq hpos (List.getElem?_eq_getElem hin)
    have hdrop : (transactions.1.drop i.toInt.toNat).take (k + 1) =
        transactions.1[i.toInt.toNat] :: (transactions.1.drop (i + 1).toInt.toNat).take k := by
      have hindex : (i + 1).toInt.toNat = i.toInt.toNat + 1 := by omega
      rw [List.drop_eq_getElem_cons hin, List.take_succ_cons, hindex]
    rw [appendTransactions, dif_pos hlt, hdrop]
    generalize transactions.1[i.toInt.toNat] = tx at hget
    rw [ends_bind, ends_result, hget]
    dsimp only
    rw [ends_bind]
    refine ends_mono (ends_reportAt lib w tx) fun r v hr => ?_
    obtain ⟨hr, rfl⟩ := hr
    unfold Appended
    rw [List.mapM_cons, ← hr]
    cases r with
    | error e => exact ⟨rfl, rfl⟩
    | ok report =>
      dsimp only
      refine ends_mono (ih (by omega) (by omega) hstop) fun r u hu => ?_
      obtain ⟨happended, rfl⟩ := hu
      refine ⟨?_, rfl⟩
      unfold Appended at happended
      cases hpage : ((transactions.1.drop (i + 1).toInt.toNat).take k).mapM (reportAt lib u) with
      | error e =>
        rw [hpage] at happended
        exact happended
      | ok reports =>
        rw [hpage] at happended
        refine happended.trans (congrArg Except.ok ?_)
        rw [List.map_cons, glued_cons]
        apply String.toList_inj.mp
        cases first with
        | true => simp [TransactionJSON.text]
        | false => simp [TransactionJSON.text, separator]

/-- Stopping below the start appends nothing. -/
theorem ends_loop {start : Int32} {text : String} (hpos : 0 ≤ start.toInt)
    (hstop : stop.toInt ≤ transactions.1.length) :
    Ends (appendTransactions lib transactions stop start true text) w fun r v =>
      Appended lib w ((transactions.1.drop start.toInt.toNat).take
        (stop.toInt - start.toInt).toNat) true text r ∧ v = w := by
  by_cases hlt : start < stop
  · have hlt' := Int32.lt_iff_toInt_lt.mp hlt
    exact ends_appendTransactions _ hpos (by omega) hstop
  · have hnone : (stop.toInt - start.toInt).toNat = 0 := by
      rw [Int32.lt_iff_toInt_lt] at hlt
      omega
    rw [appendTransactions, dif_neg hlt, ends_pure, hnone, List.take_zero]
    refine ⟨?_, rfl⟩
    change Except.ok text = .ok (text ++ .ofList (glued true []))
    rw [glued_nil]
    simp

theorem toInt_size : transactions.size.toInt = transactions.1.length :=
  Int32.toInt_ofNat_of_lt transactions.2

/-- Where the loop stops. -/
def stopOf (transactions : JavaList Transaction) (start count : Int32) : Int32 :=
  if start + count < transactions.size then start + count else transactions.size

theorem stopOf_le (start count : Int32) :
    (stopOf transactions start count).toInt ≤ transactions.1.length := by
  unfold stopOf
  split
  · next h =>
    rw [Int32.lt_iff_toInt_lt, toInt_size] at h
    omega
  · rw [toInt_size]

/-- The text of a page. -/
def pageText (reports : List TransactionJSON) : String :=
  .ofList ('[' :: (['\n'] ++ joined separator (printItems (reports.map TransactionJSON.toJson)) ++
    ']' :: ['\n']))

theorem parse_pageText (reports : List TransactionJSON) :
    parse (pageText reports) = some (.arr (reports.map TransactionJSON.toJson)) := by
  have hline : ∀ c ∈ ['\n'], isBlank c = true := by
    intro c hc
    rw [List.mem_singleton.mp hc]
    rfl
  have hnone : ∀ c ∈ ([] : List Char), isBlank c = true := fun c hc => by cases hc
  unfold pageText
  exact @parse_array _ ['\n'] ['\n'] [] ['\n'] hline hline hnone hline

variable {byTime : Wallet → JavaList Transaction} {ref : WalletRef} {start count : Int32}

/-- How `getTransactions` ends from an index that is there. -/
theorem outcome_getTransactions (hw : w.wallet = some ref) (hpos : 0 ≤ start.toInt)
    (hin : start.toInt < (byTime (w.wallets.cell ref)).1.length) :
    outcome (getTransactions lib byTime start count w) =
      ((((byTime (w.wallets.cell ref)).1.drop start.toInt.toNat).take
        ((stopOf (byTime (w.wallets.cell ref)) start count).toInt - start.toInt).toNat).mapM
          (reportAt lib w)).map fun reports => some (pageText reports) := by
  generalize hlist : byTime (w.wallets.cell ref) = transactions at hin ⊢
  have hbelow : ¬ start ≥ transactions.size := by
    rw [ge_iff_le, Int32.le_iff_toInt_le, toInt_size]
    omega
  change Ends (getTransactions lib byTime start count) w fun r _ => r = _
  rw [getTransactions, ends_bind, ends_theWallet hw]
  dsimp only
  rw [hlist, if_neg hbelow, ends_bind]
  have hstop := @stopOf_le transactions start count
  have hloop : Ends (appendTransactions lib transactions (stopOf transactions start count) start
      true "[\n") w _ := ends_loop hpos hstop
  refine ends_mono hloop fun r v hr => ?_
  obtain ⟨happended, rfl⟩ := hr
  unfold Appended at happended
  generalize ((transactions.1.drop start.toInt.toNat).take
    ((stopOf transactions start count).toInt - start.toInt).toNat).mapM (reportAt lib v) = page
    at happended ⊢
  cases page with
  | error e =>
    cases happended
    rfl
  | ok reports =>
    cases happended
    dsimp only
    rw [ends_pure]
    refine congrArg (fun text => Except.ok (some text)) ?_
    apply String.toList_inj.mp
    simp [pageText, glued, printItems_eq_map, Function.comp_def]

/-- The transactions at the indexes from `start` on, `count` of them if there are as many. -/
def pageOf (transactions : List Transaction) (start count : Int32) : List Transaction :=
  (transactions.drop start.toInt.toNat).take count.toInt.toNat

/-- A page is `null` from the end of the list on, and otherwise a JSON array of the reports of the
    transactions on it; a report that throws is passed on. -/
def PagesExactly (lib : Lib) (byTime : Wallet → JavaList Transaction) (w : World) (wallet : Wallet)
    (start count : Int32) : Prop :=
  ((byTime wallet).1.length ≤ start.toInt →
    outcome (getTransactions lib byTime start count w) = .ok none) ∧
  (start.toInt < (byTime wallet).1.length →
    match (pageOf (byTime wallet).1 start count).mapM (reportAt lib w) with
    | .error e => outcome (getTransactions lib byTime start count w) = .error e
    | .ok reports => ∃ text, outcome (getTransactions lib byTime start count w) = .ok (some text) ∧
      parse text = some (.arr (reports.map TransactionJSON.toJson)))

theorem outcome_beyond (hw : w.wallet = some ref)
    (hend : (byTime (w.wallets.cell ref)).1.length ≤ start.toInt) :
    outcome (getTransactions lib byTime start count w) = .ok none := by
  have hbeyond : start ≥ (byTime (w.wallets.cell ref)).size := by
    rw [ge_iff_le, Int32.le_iff_toInt_le, toInt_size]
    exact hend
  change Ends (getTransactions lib byTime start count) w fun r _ => r = _
  rw [getTransactions, ends_bind, ends_theWallet hw]
  dsimp only
  rw [if_pos hbeyond, ends_pure]

/-- Where the loop stops when the sum fits. -/
theorem take_stopOf (hpos : 0 ≤ start.toInt) (hcount : 0 ≤ count.toInt)
    (hfits : start.toInt + count.toInt < 2 ^ 31) :
    (transactions.1.drop start.toInt.toNat).take
        ((stopOf transactions start count).toInt - start.toInt).toNat =
      pageOf transactions.1 start count := by
  have hsum : (start + count).toInt = start.toInt + count.toInt := by
    rw [Int32.toInt_add, Int.bmod_def]
    omega
  unfold stopOf pageOf
  split
  · next h =>
    have hk : ((start + count).toInt - start.toInt).toNat = count.toInt.toNat := by omega
    rw [hk]
  · next h =>
    rw [Int32.lt_iff_toInt_lt, toInt_size, hsum] at h
    rw [toInt_size, List.take_of_length_le, List.take_of_length_le]
    · rw [List.length_drop]
      omega
    · rw [List.length_drop]
      omega

/-- Nothing is left of the page when the sum does not fit. -/
theorem take_stopOf_overflow (hpos : 0 ≤ start.toInt) (hcount : 0 ≤ count.toInt)
    (hover : 2 ^ 31 ≤ start.toInt + count.toInt) :
    (transactions.1.drop start.toInt.toNat).take
      ((stopOf transactions start count).toInt - start.toInt).toNat = [] := by
  have hsmall := start.toInt_lt
  have hsmall' := count.toInt_lt
  have hsum : (start + count).toInt = start.toInt + count.toInt - 2 ^ 32 := by
    rw [Int32.toInt_add, Int.bmod_def]
    omega
  have hstop : (stopOf transactions start count).toInt - start.toInt < 0 := by
    have hlt : start + count < transactions.size := by
      rw [Int32.lt_iff_toInt_lt, toInt_size]
      omega
    rw [stopOf, if_pos hlt]
    omega
  rw [Int.toNat_of_nonpos hstop.le, List.take_zero]

/-- When the sum does not fit, the page is empty, and wrong. -/
theorem not_exact_of_overflow (hw : w.wallet = some ref) (hpos : 0 ≤ start.toInt)
    (hcount : 0 ≤ count.toInt) (hin : start.toInt < (byTime (w.wallets.cell ref)).1.length)
    (hover : 2 ^ 31 ≤ start.toInt + count.toInt) :
    ¬ PagesExactly lib byTime w (w.wallets.cell ref) start count := by
  rintro ⟨-, hpage⟩
  have hpage := hpage hin
  have hempty : outcome (getTransactions lib byTime start count w) = .ok (some (pageText [])) := by
    rw [outcome_getTransactions hw hpos hin, take_stopOf_overflow hpos hcount hover]
    rfl
  rw [hempty] at hpage
  cases hreports : (pageOf (byTime (w.wallets.cell ref)).1 start count).mapM (reportAt lib w) with
  | error e =>
    rw [hreports] at hpage
    cases hpage
  | ok reports =>
    rw [hreports] at hpage
    obtain ⟨text, htext, hparse⟩ := hpage
    cases htext
    rw [parse_pageText] at hparse
    have hnone : reports = [] := by simpa using hparse.symm
    have hlength := (forall₂_of_mapM hreports).length_eq
    have hsmall := start.toInt_lt
    rw [hnone, pageOf, List.length_take, List.length_drop, List.length_nil] at hlength
    omega

/-- For every list and all non-negative numbers, a page is exact if and only if it begins beyond the end
    or `from + count` is an `int`. -/
theorem pages_exactly_iff (lib : Lib) (byTime : Wallet → JavaList Transaction) (w : World)
    (ref : WalletRef) (start count : Int32) (hw : w.wallet = some ref) (hpos : 0 ≤ start)
    (hcount : 0 ≤ count) :
    PagesExactly lib byTime w (w.wallets.cell ref) start count ↔
      (byTime (w.wallets.cell ref)).1.length ≤ start.toInt ∨ start.toInt + count.toInt < 2 ^ 31 := by
  have hpos' : 0 ≤ start.toInt := Int32.le_iff_toInt_le.mp hpos
  have hcount' : 0 ≤ count.toInt := Int32.le_iff_toInt_le.mp hcount
  constructor
  · intro h
    by_contra hbad
    rw [not_or, not_le, not_lt] at hbad
    exact not_exact_of_overflow hw hpos' hcount' hbad.1 hbad.2 h
  · intro h
    refine ⟨outcome_beyond hw, fun hin => ?_⟩
    have hfits : start.toInt + count.toInt < 2 ^ 31 := by
      rcases h with hend | hfits
      · omega
      · exact hfits
    rw [outcome_getTransactions hw hpos' hin, take_stopOf hpos' hcount' hfits]
    cases (pageOf (byTime (w.wallets.cell ref)).1 start count).mapM (reportAt lib w) with
    | error e => rfl
    | ok reports => exact ⟨pageText reports, rfl, parse_pageText reports⟩

/-- A wallet is in use, and its list has two transactions. -/
def listed : World := { World.initial .none with wallet := some 0 }

def twoByTime (_ : Wallet) : JavaList Transaction := ⟨[⟨0, 1, [], none⟩, ⟨1, 2, [], none⟩], by decide⟩

theorem pages_exactly_second :
    PagesExactly .fair twoByTime listed (listed.wallets.cell 0) 1 1 :=
  (pages_exactly_iff .fair twoByTime listed 0 1 1 rfl (by decide) (by decide)).mpr
    (.inr (by decide))

/-- The second transaction and all that follow it, at most as many as an `int` can say. -/
theorem overflowing_page_not_exact :
    ¬ PagesExactly .fair twoByTime listed (listed.wallets.cell 0) 1 2147483647 :=
  not_exact_of_overflow rfl (by decide) (by decide) (by decide) (by decide)

end BitcoinKit
