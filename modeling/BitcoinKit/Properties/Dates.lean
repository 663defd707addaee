import BitcoinKit.Properties.CreationTime
import BitcoinKit.Properties.Queries
import BitcoinKit.Schemes.DatePattern

/-! The dates the program passes on as texts. Java writes them, by the second and without an offset; the
    bridge reads those of transactions back, and whoever takes an exported key can read the key's.

        update time ── SimpleDateFormat ──▶ "time" of the report ── NSDateFormatter ──▶ NSDate
        creation time ── SimpleDateFormat ──▶ key, tab, timestamp -/

namespace BitcoinKit
open Schemes

variable {lib : Lib} {byTime : Wallet → JavaList Transaction} {dates : Dates} {c : Cocoa}
  {ref : WalletRef} {w : World}

/-- `new SimpleDateFormat(pattern)` with a time zone, applied to a time in milliseconds from 1970 on, in
    a locale with the Gregorian calendar and ASCII digits. -/
def simpleDateFormat (zone : TimeZone) (pattern : String) (millis : Nat) : Option String :=
  formatDateTime zone pattern (.ofSeconds (millis / 1000))

/-- The default locale of the virtual machine, which the program leaves as it is, is such a one. -/
def Lib.WritesPlainDates (lib : Lib) : Prop :=
  ∀ zone pattern millis text, simpleDateFormat zone pattern millis = some text →
    lib.formatDate zone pattern millis = text

/-- The pattern of transaction times, the same on both sides. -/
def timePattern : String := "yyyy-MM-dd HH:mm:ss z"

/-- The pattern of exported times. -/
def exportPattern : String := "yyyy-MM-dd'T'HH:mm:ss'Z'"

/-- `[_dateFormatter dateFromString:]`, for dates from 1970 on, in seconds. -/
def nsDateFormatter (text : String) : Option Int :=
  (parseDateTime timePattern text).map fun d => d.seconds

/-- What follows the last tab. -/
def afterTab (text : String) : String :=
  .ofList (text.toList.reverse.takeWhile (· ≠ '\t')).reverse

/-- The time an exported key carries, in seconds. -/
def exportedTime (text : String) : Option Nat :=
  (parseDateTime exportPattern (afterTab text)).map DateTime.seconds

/-! ### Patterns -/

/-- What a pattern of a full date with these separators means. -/
def fullDate (between : Char) (last : List PatternItem) : List PatternItem :=
  [.number .year 4, .literal '-', .number .month 2, .literal '-', .number .day 2, .literal between,
   .number .hour 2, .literal ':', .number .minute 2, .literal ':', .number .second 2] ++ last

theorem compile_timePattern : compilePattern timePattern = some (fullDate ' ' [.literal ' ', .zone]) := by
  decide +kernel

theorem compile_exportPattern : compilePattern exportPattern = some (fullDate 'T' [.literal 'Z']) := by
  decide +kernel

theorem fullDate_fields (between : Char) (last : List PatternItem) (field : DateField) :
    field ∈ patternFields (fullDate between last) := by
  cases field <;> simp [patternFields, fullDate]

theorem timePattern_reads (zone : TimeZone) (d : DateTime) :
    (formatDateTime zone timePattern d).bind (parseDateTime timePattern) = some d :=
  parse_format compile_timePattern (by decide) (fullDate_fields _ _) zone d

theorem exportPattern_reads (zone : TimeZone) (d : DateTime) :
    (formatDateTime zone exportPattern d).bind (parseDateTime exportPattern) = some d :=
  parse_format compile_exportPattern (by decide) (fullDate_fields _ _) zone d

/-! ### Transaction times -/

theorem time_of_report {tx : Transaction} {report : TransactionJSON}
    (h : reportAt lib w tx = .ok report) :
    report.fields.lookup "time" =
      some (.str (lib.formatDate .gmt timePattern (lib.view tx).updateTime)) := by
  have hends : Ends (getJSONFromTransaction lib tx) w fun r _ => r = .ok report := h
  unfold getJSONFromTransaction at hends
  simp only [ends_bind, ends_get, ends_result, ends_call, ends_pure] at hends
  cases hinputs : (lib.view tx).inputs.mapM inputData with
  | error e => rw [hinputs] at hends; cases hends
  | ok inputs =>
    rw [hinputs] at hends
    dsimp only at hends
    cases houtputs : (lib.view tx).outputs.mapM
        (outputData (outcome (getWalletAddress lib w))) with
    | error e => rw [houtputs] at hends; cases hends
    | ok outputs =>
      rw [houtputs] at hends
      cases hfails : lib.fails .transactionJSON with
      | some e => rw [hfails] at hends; cases hends
      | none =>
        rw [hfails] at hends
        cases hends
        rfl

/-- A member of a plain object is found among the members of its JSON value. -/
theorem lookup_toJson {key : String} {value : JSONValue} : ∀ {entries : JSONObject},
    entries.lookup key = some value →
      (entries.map fun entry => (entry.1, entry.2.toJson)).lookup key = some value.toJson
  | [], h => by cases h
  | (k, v) :: entries, h => by
    rw [List.map_cons, List.lookup_cons] at *
    cases hk : key == k with
    | true =>
      rw [hk] at h
      exact congrArg some (congrArg JSONValue.toJson (Option.some.inj h))
    | false =>
      rw [hk] at h
      exact lookup_toJson h

/-- The date of a dictionary is the one its report's time is read as. -/
theorem time_of_dictionary {report : TransactionJSON} {time : String} {t : Int}
    (h : report.fields.lookup "time" = some (.str time)) (ht : dates.dateFromString time = some t) :
    (dictionaryOf dates report).lookup "time" = some (.date t) := by
  have hmember : (membersOf report.toJson).lookup "time" = some (.str time) := by
    change List.lookup "time" (_ ++ _) = _
    rw [List.lookup_append, lookup_toJson h]
    rfl
  have htime : dates.timeOf (membersOf report.toJson) = some t := by
    rw [Dates.timeOf, hmember]
    exact ht
  have hothers : (((membersOf report.toJson).filter fun entry => entry.1 ≠ "time").map
      fun entry => (entry.1, NSValue.parsed entry.2)).lookup "time" = none := by
    rw [List.lookup_eq_none_iff]
    intro entry hentry
    obtain ⟨member, hmember, rfl⟩ := List.mem_map.mp hentry
    have hname := List.of_mem_filter hmember
    rw [bne_iff_ne]
    exact Ne.symm (of_decide_eq_true hname)
  rw [dictionaryOf, modifiedTransactionForTransaction, List.lookup_append, hothers, htime]
  rfl

/-- A time that Java writes by a pattern is read back, to the second. -/
theorem written_read (hlocale : lib.WritesPlainDates) {zone : TimeZone} {pattern : String}
    (hreads : ∀ d, (formatDateTime zone pattern d).bind (parseDateTime pattern) = some d)
    (millis : Nat) :
    formatDateTime zone pattern (.ofSeconds (millis / 1000)) = some (lib.formatDate zone pattern millis) ∧
      (parseDateTime pattern (lib.formatDate zone pattern millis)).map DateTime.seconds =
        some (millis / 1000) := by
  have hback := hreads (.ofSeconds (millis / 1000))
  obtain ⟨text, htext, hread⟩ := Option.bind_eq_some_iff.mp hback
  rw [hlocale zone pattern millis text htext, hread, Option.map_some, DateTime.seconds_ofSeconds]
  exact ⟨htext, rfl⟩

/-- The dates of the full list are the update times of its transactions, to the second. -/
theorem times_shown (hw : c.java.wallet = some ref) (hlocale : lib.WritesPlainDates)
    (hdates : dates.dateFromString = nsDateFormatter) {all : List NSDictionary}
    (hall : outcome (allTransactions lib byTime dates c) = .ok (some all)) :
    all.map (fun dictionary => dictionary.lookup "time") =
      (c.listed byTime ref).map fun tx =>
        some (.date (((lib.view tx).updateTime / 1000 : Nat) : Int)) := by
  obtain ⟨reports, hreports, rfl⟩ := reports_of_all hw hall
  have hread : ∀ tx, dates.dateFromString (lib.formatDate .gmt timePattern (lib.view tx).updateTime) =
      some (((lib.view tx).updateTime / 1000 : Nat) : Int) := by
    intro tx
    obtain ⟨-, hseconds⟩ := written_read hlocale (timePattern_reads .gmt) (lib.view tx).updateTime
    obtain ⟨d, hd, hsame⟩ := Option.map_eq_some_iff.mp hseconds
    rw [hdates, nsDateFormatter, hd, Option.map_some, hsame]
  have hpairs := forall₂_of_mapM hreports
  rw [List.map_map]
  generalize c.listed byTime ref = txs at hpairs ⊢
  clear hall hreports
  induction hpairs with
  | nil => rfl
  | @cons tx report txs reports hreport _ ih =>
    rw [List.map_cons, List.map_cons, ih]
    have hdate := time_of_dictionary (time_of_report hreport) (hread tx)
    rw [Function.comp_apply, hdate]

/-- A library that writes plain dates. A transaction was updated the number of its hash, in days, after
    the beginning of 1970. -/
def Lib.dated : Lib :=
  { Lib.fair with
    view := fun tx => ⟨0, [], [], tx.hash * 86400000, 0, 0⟩
    formatDate := fun zone pattern millis => (simpleDateFormat zone pattern millis).getD "" }

theorem dated_writesPlainDates : Lib.dated.WritesPlainDates := by
  intro zone pattern millis text h
  change (simpleDateFormat zone pattern millis).getD "" = text
  rw [h, Option.getD_some]

theorem times_shown_two :
    ∃ all, outcome (allTransactions .dated recentByTime ⟨nsDateFormatter, 0⟩ twoHeld) = .ok (some all) ∧
      all.map (fun dictionary => dictionary.lookup "time") =
        [some (.date 172800), some (.date 86400)] := by
  obtain ⟨all, hall⟩ : ∃ all, outcome (allTransactions .dated recentByTime ⟨nsDateFormatter, 0⟩ twoHeld) =
      .ok (some all) := all_of_length (n := 2) (by decide +kernel)
  have hw : twoHeld.java.wallet = some 0 := rfl
  -- `rfl` would run the formatter on its pattern
  have hdates : (⟨nsDateFormatter, 0⟩ : Dates).dateFromString = nsDateFormatter := by dsimp only
  exact ⟨all, hall, times_shown hw dated_writesPlainDates hdates hall⟩

/-! ### Exported times -/

theorem afterTab_append (front back : String) (h : '\t' ∉ back.toList) :
    afterTab (front ++ "\t" ++ back) = back := by
  have htext : (front ++ "\t" ++ back).toList.reverse =
      back.toList.reverse ++ '\t' :: front.toList.reverse := by
    simp
  have hback : ∀ c ∈ back.toList.reverse, decide (c ≠ '\t') = true := by
    intro c hc
    rw [decide_eq_true_eq]
    rintro rfl
    exact h (List.mem_reverse.mp hc)
  rw [afterTab, htext, List.takeWhile_append_of_pos hback, List.takeWhile_cons_of_neg (by decide),
    List.append_nil, List.reverse_reverse, String.ofList_toList]

/-- A written date holds no tab. -/
theorem tab_not_mem_exportPattern {stamp : String} {d : DateTime}
    (h : formatDateTime .utc exportPattern d = some stamp) : '\t' ∉ stamp.toList := by
  rw [formatDateTime, compile_exportPattern, Option.map_some, Option.some.injEq] at h
  rw [← h, String.toList_ofList]
  intro hmem
  rcases mem_write hmem with hdigit | hliteral | hzone
  · cases hdigit
  · revert hliteral
    decide
  · revert hzone
    decide

/-- A key that is exported is the first of the wallet, and carries the time it was made at, whatever its
    own text is. -/
theorem exported_time_read (hlocale : lib.WritesPlainDates) {array : Option CharArrayRef} {text : String}
    (h : outcome (exportPrivateKey lib array w) = .ok text) :
    ∃ ref key keys, w.wallet = some ref ∧ (w.wallets.cell ref).keys = key :: keys ∧
      exportedTime text = some key.creationTimeSeconds := by
  obtain ⟨ref, key, keys, hw, hkeys, encoded, rfl⟩ :=
    returns_of_outcome (returns_exportPrivateKey array) h
  refine ⟨ref, key, keys, hw, hkeys, ?_⟩
  obtain ⟨hwritten, hread⟩ :=
    written_read hlocale (exportPattern_reads .utc) (key.creationTimeSeconds * 1000)
  rw [Nat.mul_div_cancel _ (by decide)] at hread
  change exportedTime (encoded ++ "\t" ++
    lib.formatDate .utc exportPattern (key.creationTimeSeconds * 1000)) = some key.creationTimeSeconds
  rw [exportedTime, afterTab_append encoded _ (tab_not_mem_exportPattern hwritten)]
  exact hread

/-- A manager whose wallet holds two keys, protected by a password. -/
def twoKeysHeld : World :=
  { World.initial .none with
    wallet := some 0
    wallets := ⟨1, fun _ => { Wallet.empty with
      keys := [⟨1, 1400000000⟩, ⟨2, 1300000000⟩], keyCrypter := some ⟨1⟩ }⟩
    secrets := ⟨⟨1, fun _ => [112]⟩, ⟨0, fun _ => []⟩, ⟨0, fun _ => false⟩⟩ }

theorem exported_time_read_protected :
    outcome (exportPrivateKey .dated (some 0) twoKeysHeld) = .ok "key\t2014-05-13T16:53:20Z" ∧
      exportedTime "key\t2014-05-13T16:53:20Z" = some 1400000000 := by
  have hexported : outcome (exportPrivateKey .dated (some 0) twoKeysHeld) =
      .ok "key\t2014-05-13T16:53:20Z" := by decide +kernel
  obtain ⟨ref, key, keys, hw, hkeys, htime⟩ := exported_time_read dated_writesPlainDates hexported
  cases hw
  cases hkeys
  exact ⟨hexported, htime⟩

end BitcoinKit
