import BitcoinKit.Java.LastWalletChange
import BitcoinKit.Java.Ledger
import BitcoinKit.Java.System

/-! The date of the last wallet change survives saving and loading. Eight bytes and a date after the
    epoch (or none) stand for each other, 0 standing for no date; bytes of any other length are
    refused before the date is touched. -/

namespace BitcoinKit
open Schemes BigEndian

namespace ByteBuffer

/-- Eight bytes fill a buffer of eight. -/
theorem put_allocate (src : Bytes) (h : src.length = 8) :
    ∃ buffer, (allocate 8).put src = .ok buffer ∧
      buffer.array = src ∧ buffer.position = 8 ∧ buffer.limit = 8 := by
  have hroom : ¬ (allocate 8).remaining < src.length := by
    rw [h]
    decide
  refine ⟨_, dif_neg hroom, ?_, ?_, rfl⟩
  · simp [allocate, h]
  · simp [allocate, h]

theorem toNat_lt (value : Int64) : value.toUInt64.toNat < 256 ^ 8 := by
  have := value.toUInt64.toNat_lt
  omega

/-- A number is read as it was written. -/
theorem longOf_toBytes (value : Int64) : longOf (toBytes 8 value.toUInt64.toNat) = value := by
  rw [longOf, ofBytes_toBytes, Nat.mod_eq_of_lt (toNat_lt value), UInt64.ofNat_toNat,
    Int64.toInt64_toUInt64]

/-- Bytes are written as they were read. -/
theorem toBytes_longOf (bytes : Bytes) (h : bytes.length = 8) :
    toBytes 8 (longOf bytes).toUInt64.toNat = bytes := by
  have hlt := ofBytes_lt bytes
  rw [h] at hlt
  have hfit : (UInt64.ofNat (ofBytes bytes)).toNat = ofBytes bytes := by
    rw [UInt64.toNat_ofNat']
    exact Nat.mod_eq_of_lt hlt
  rw [longOf, UInt64.toUInt64_toInt64, hfit]
  conv_rhs => rw [← toBytes_ofBytes bytes, h]

end ByteBuffer

namespace LastWalletChangeExtension

theorem serialize_eq (ext : LastWalletChangeExtension) :
    ext.serializeWalletExtension =
      .ok (toBytes 8 (ext.lastWalletChangeDate.getD 0).toUInt64.toNat) := by
  obtain ⟨buffer, hput, harray, -, -⟩ := ByteBuffer.put_allocate
    (toBytes 8 (ext.lastWalletChangeDate.getD 0).toUInt64.toNat) (length_toBytes 8 _)
  change ((ByteBuffer.allocate 8).put _ >>= fun buffer => pure buffer.array) = _
  rw [hput]
  exact congrArg Except.ok harray

theorem readTimestamp_eq (data : Bytes) (h : data.length = 8) :
    readTimestamp data = .ok (ByteBuffer.longOf data) := by
  obtain ⟨buffer, hput, harray, hposition, hlimit⟩ := ByteBuffer.put_allocate data h
  have hleft : ¬ buffer.flip.remaining < 8 := by
    simp [ByteBuffer.remaining, ByteBuffer.flip, hposition]
  change ((ByteBuffer.allocate 8).put data >>= fun buffer => buffer.flip.getLong) = _
  rw [hput]
  change buffer.flip.getLong = _
  rw [ByteBuffer.getLong, if_neg hleft]
  simp only [ByteBuffer.flip, List.drop_zero, harray]
  rw [List.take_of_length_le h.le]

/-- More than eight bytes do not go in, fewer do not come out. -/
theorem readTimestamp_throws (data : Bytes) (h : data.length ≠ 8) :
    ∃ e, readTimestamp data = .error e := by
  by_cases hroom : 8 < data.length
  · have hput : (ByteBuffer.allocate 8).put data = .error bufferOverflowException :=
      dif_pos (by simpa [ByteBuffer.remaining, ByteBuffer.allocate] using hroom)
    refine ⟨bufferOverflowException, ?_⟩
    change ((ByteBuffer.allocate 8).put data >>= fun buffer => buffer.flip.getLong) = _
    rw [hput]
    rfl
  · have hshort : data.length < 8 := by omega
    have hput : ¬ (ByteBuffer.allocate 8).remaining < data.length := by
      simpa [ByteBuffer.remaining, ByteBuffer.allocate] using hshort.le
    refine ⟨bufferUnderflowException, ?_⟩
    change ((ByteBuffer.allocate 8).put data >>= fun buffer => buffer.flip.getLong) = _
    rw [ByteBuffer.put, dif_neg hput]
    exact if_pos (by simpa [ByteBuffer.remaining, ByteBuffer.flip, ByteBuffer.allocate] using hshort)

/-- Eight bytes replace the date by the one they stand for. -/
theorem deserialize_eq (data : Bytes) (h : data.length = 8) (old : LastWalletChangeExtension) :
    deserializeWalletExtension data old = .ok ⟨⟩
      ⟨if 0 < ByteBuffer.longOf data then some (ByteBuffer.longOf data) else none⟩ := by
  rw [deserializeWalletExtension, readTimestamp_eq data h]
  rfl

theorem deserialize_throws (data : Bytes) (h : data.length ≠ 8) (old : LastWalletChangeExtension) :
    ∃ e, deserializeWalletExtension data old = .error e old := by
  obtain ⟨e, he⟩ := readTimestamp_throws data h
  refine ⟨e, ?_⟩
  rw [deserializeWalletExtension, he]
  rfl

/-- What was saved is what is loaded. -/
theorem deserialize_serialize (ext old : LastWalletChangeExtension) (h : ext.Dated) :
    ∃ data, ext.serializeWalletExtension = .ok data ∧
      deserializeWalletExtension data old = .ok ⟨⟩ ext := by
  refine ⟨_, serialize_eq ext, ?_⟩
  rw [deserialize_eq _ (length_toBytes 8 _), ByteBuffer.longOf_toBytes]
  obtain ⟨date⟩ := ext
  cases date with
  | none => rfl
  | some date => rw [Option.getD_some, if_pos (h date rfl)]

/-- Saved and loaded, a date after the epoch is kept, and any other is none. -/
theorem loaded_serialized (ext : LastWalletChangeExtension) :
    loaded ext.serializeWalletExtension.toOption = ⟨ext.lastWalletChangeDate.filter fun date => 0 < date⟩ := by
  have hread := deserialize_eq (toBytes 8 (ext.lastWalletChangeDate.getD 0).toUInt64.toNat)
    (length_toBytes 8 _) new
  rw [serialize_eq, Except.toOption, loaded, hread, ByteBuffer.longOf_toBytes]
  obtain ⟨date⟩ := ext
  cases date with
  | none => rfl
  | some date =>
    rw [after, Option.getD_some, Option.filter_some]
    exact congrArg LastWalletChangeExtension.mk (if_congr decide_eq_true_iff.symm rfl rfl)

theorem filter_dated {ext : LastWalletChangeExtension} (h : ext.Dated) :
    ext.lastWalletChangeDate.filter (fun date => 0 < date) = ext.lastWalletChangeDate := by
  cases hd : ext.lastWalletChangeDate with
  | none => rfl
  | some date => rw [Option.filter_some, if_pos (decide_eq_true (h date hd))]

theorem loaded_dated {ext : LastWalletChangeExtension} (h : ext.Dated) :
    loaded ext.serializeWalletExtension.toOption = ext := by
  rw [loaded_serialized, filter_dated h]

/-- What was loaded is what is saved. -/
theorem serialize_deserialize (data : Bytes) (old : LastWalletChangeExtension)
    (h : data.length = 8) (hpos : 0 ≤ ByteBuffer.longOf data) :
    ∃ ext, deserializeWalletExtension data old = .ok ⟨⟩ ext ∧
      ext.serializeWalletExtension = .ok data := by
  refine ⟨_, deserialize_eq data h old, ?_⟩
  rw [serialize_eq]
  by_cases hzero : 0 < ByteBuffer.longOf data
  · rw [if_pos hzero, Option.getD_some, ByteBuffer.toBytes_longOf data h]
  · have hnone : ByteBuffer.longOf data = 0 := Int64.le_antisymm (Int64.not_lt.mp hzero) hpos
    rw [if_neg hzero, Option.getD_none, ← hnone, ByteBuffer.toBytes_longOf data h]

end LastWalletChangeExtension

open LastWalletChangeExtension

/-- `u` has loaded the wallet `w` saved: its extension is a new one, given the bytes of the old. -/
def Reloads (w u : World) : Prop :=
  ∃ ref ref' data, w.wallet = some ref ∧ u.wallet = some ref' ∧
    (w.wallets.cell ref).lastWalletChange.serializeWalletExtension = .ok data ∧
    deserializeWalletExtension data new = .ok ⟨⟩ (u.wallets.cell ref').lastWalletChange

/-- The current wallet's date, if there is one, is absent or after the epoch. -/
def World.Dated (w : World) : Prop :=
  ∀ ref ∈ w.wallet, (w.wallets.cell ref).lastWalletChange.Dated

theorem timestamp_eq {w : World} {ref : WalletRef} (h : w.wallet = some ref) :
    outcome (getLastWalletChangeTimestamp w) =
      .ok ((w.wallets.cell ref).lastWalletChange.lastWalletChangeDate.getD 0) := by
  change Ends getLastWalletChangeTimestamp w fun r _ => r = _
  rw [getLastWalletChangeTimestamp, ends_bind, getLastWalletChange, ends_bind, ends_get]
  dsimp only
  rw [h]
  rfl

/-- Saving a wallet and loading the file does to the date what the extension's bytes do. -/
theorem reloads_of_load {lib : Lib} {w v u : World} {ref ref' : WalletRef} {f : File}
    (hw : w.wallet = some ref) (hdate : w.Dated)
    (hfile : v.files.wallets f = some (w.imageOf (w.wallets.cell ref)))
    (hload : loadWalletFromFile lib f v = .ok ref' u) :
    Reloads w { u with wallet := some ref' } := by
  have hret : Returns (loadWalletFromFile lib f) v _ := returns_loadWalletFromFile lib f
  unfold Returns Ends at hret
  rw [hload] at hret
  obtain ⟨image, himage, rfl, rfl⟩ := hret ref' rfl
  rw [hfile] at himage
  cases himage
  obtain ⟨data, hsave, hread⟩ := deserialize_serialize _ new (hdate ref hw)
  refine ⟨ref, v.wallets.next, data, hw, rfl, hsave, ?_⟩
  have hcell : ((v.wallets.alloc ((w.imageOf (w.wallets.cell ref)).toWallet
      v.nextTransaction)).cell v.wallets.next).lastWalletChange =
      (w.wallets.cell ref).lastWalletChange := by
    rw [Heap.cell_alloc_self, lastWalletChange_toWallet]
    exact loaded_dated (hdate ref hw)
  exact hread.trans (congrArg _ hcell.symm)

/-- The codec of the last change's date is exact both ways, refuses data of another length without
    touching the date, and a reloaded wallet has a timestamp exactly when it had one. -/
theorem last_change_kept :
    (∀ ext old : LastWalletChangeExtension, ext.Dated →
      ∃ data, ext.serializeWalletExtension = .ok data ∧
        deserializeWalletExtension data old = .ok ⟨⟩ ext) ∧
    (∀ (data : Bytes) (old : LastWalletChangeExtension),
      data.length = 8 → 0 ≤ ByteBuffer.longOf data →
      ∃ ext, deserializeWalletExtension data old = .ok ⟨⟩ ext ∧
        ext.serializeWalletExtension = .ok data) ∧
    (∀ (data : Bytes) (old : LastWalletChangeExtension), data.length ≠ 8 →
      ∃ e, deserializeWalletExtension data old = .error e old) ∧
    (∀ w u : World, w.Dated → Reloads w u →
      (outcome (getLastWalletChangeTimestamp u) = .ok 0 ↔
        outcome (getLastWalletChangeTimestamp w) = .ok 0)) := by
  refine ⟨deserialize_serialize, serialize_deserialize,
    fun data old h => deserialize_throws data h old, ?_⟩
  rintro w u hdate ⟨ref, ref', data, hw, hu, hsave, hload⟩
  obtain ⟨data', hsave', hload'⟩ := deserialize_serialize _ new (hdate ref hw)
  have hdata : data' = data := Except.ok.inj (hsave'.symm.trans hsave)
  rw [hdata, hload] at hload'
  have hsame := (EStateM.Result.ok.inj hload').2
  rw [timestamp_eq hu, timestamp_eq hw, hsame]

/-- It is the thirteenth of May 2014. -/
def Lib.inMay : Lib := { Lib.fair with currentTimeMillis := 1400000000000 }

/-- The bytes of that date. -/
def mayBytes : Bytes := [0, 0, 1, 69, 246, 128, 176, 0]

/-- A wallet is created, and loaded in another process. -/
theorem last_change_kept_restarted :
    let w := run step (World.initial .none) [.start .inMay, .createWallet .inMay none]
    let u := run step (World.initial w.files) [.start .inMay]
    (∃ data, serializeWalletExtension ⟨some 1400000000000⟩ = .ok data ∧
      deserializeWalletExtension data new = .ok ⟨⟩ ⟨some 1400000000000⟩) ∧
    (∃ ext, deserializeWalletExtension mayBytes new = .ok ⟨⟩ ext ∧
      ext.serializeWalletExtension = .ok mayBytes) ∧
    (∃ e, deserializeWalletExtension [1, 69] ⟨some 5⟩ = .error e ⟨some 5⟩) ∧
    outcome (getLastWalletChangeTimestamp u) ≠ .ok 0 := by
  intro w u
  obtain ⟨hsaved, hloaded, hrefused, hkept⟩ := last_change_kept
  refine ⟨hsaved _ new ?_, hloaded mayBytes new rfl (by decide +kernel), hrefused [1, 69] ⟨some 5⟩ (by decide),
    fun hzero => ?_⟩
  · rintro date ⟨⟩
    decide
  · have hdated : w.Dated := by
      intro ref href
      obtain rfl : ref = 0 := (Option.some.inj href).symm
      rintro date ⟨⟩
      decide
    have hreloads : Reloads w u := ⟨0, 0, mayBytes, by decide +kernel, by decide +kernel, by decide +kernel, rfl⟩
    have htime : outcome (getLastWalletChangeTimestamp w) = .ok 1400000000000 := by decide +kernel
    have hnone := (hkept w u hdated hreloads).mp hzero
    rw [htime] at hnone
    exact absurd (Except.ok.inj hnone) (by decide)

end BitcoinKit
