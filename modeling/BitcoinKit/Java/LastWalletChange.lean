import BitcoinKit.Java.World
import BitcoinKit.Schemes.BigEndian

/-! The wallet extension that keeps the date of the last change, and the buffer it is written and read
    through:

        0 ≤ position ≤ limit ≤ array.length

    A buffer writes and reads at its position and throws when less than it needs is left below the
    limit. -/

namespace BitcoinKit
open Schemes

/-! ### `java.nio.ByteBuffer` -/

def bufferOverflowException : Throwable :=
  ⟨"java.nio.BufferOverflowException", runtimeSuperclasses,
    some "java.nio.BufferOverflowException"⟩

def bufferUnderflowException : Throwable :=
  ⟨"java.nio.BufferUnderflowException", runtimeSuperclasses,
    some "java.nio.BufferUnderflowException"⟩

structure ByteBuffer where
  array : Bytes
  position : Nat
  limit : Nat
  position_le : position ≤ limit
  limit_le : limit ≤ array.length

namespace ByteBuffer

def allocate (capacity : Nat) : ByteBuffer where
  array := List.replicate capacity 0
  position := 0
  limit := capacity
  position_le := Nat.zero_le _
  limit_le := by rw [List.length_replicate]

def remaining (buffer : ByteBuffer) : Nat := buffer.limit - buffer.position

/-- `put(src)`: the bytes go in at the position, and the position moves past them. -/
def put (buffer : ByteBuffer) (src : Bytes) : Except Throwable ByteBuffer :=
  if h : buffer.remaining < src.length then .error bufferOverflowException
  else .ok
    { array := buffer.array.take buffer.position ++ src ++
        buffer.array.drop (buffer.position + src.length)
      position := buffer.position + src.length
      limit := buffer.limit
      position_le := by
        have := buffer.position_le
        unfold remaining at h
        omega
      limit_le := by
        have := buffer.position_le
        have := buffer.limit_le
        unfold remaining at h
        simp only [List.length_append, List.length_take, List.length_drop]
        omega }

def putLong (buffer : ByteBuffer) (value : Int64) : Except Throwable ByteBuffer :=
  buffer.put (BigEndian.toBytes 8 value.toUInt64.toNat)

def flip (buffer : ByteBuffer) : ByteBuffer where
  array := buffer.array
  position := 0
  limit := buffer.position
  position_le := Nat.zero_le _
  limit_le := buffer.position_le.trans buffer.limit_le

/-- Bytes as a big-endian number in two's complement. -/
def longOf (bytes : Bytes) : Int64 := (UInt64.ofNat (BigEndian.ofBytes bytes)).toInt64

/-- `getLong()`, without the move of the position: nothing is read after it here. -/
def getLong (buffer : ByteBuffer) : Except Throwable Int64 :=
  if buffer.remaining < 8 then .error bufferUnderflowException
  else .ok (longOf ((buffer.array.drop buffer.position).take 8))

end ByteBuffer

/-! ### The extension -/

/-- The extension object. A `Date` is its milliseconds. -/
structure LastWalletChangeExtension where
  lastWalletChangeDate : Option Int64
  deriving DecidableEq, Repr

namespace LastWalletChangeExtension

/-- `new LastWalletChangeExtension()`. -/
def new : LastWalletChangeExtension := ⟨none⟩

/-- A date is absent or after the epoch, as `new Date()` is. -/
def Dated (ext : LastWalletChangeExtension) : Prop := ∀ date ∈ ext.lastWalletChangeDate, 0 < date

def serializeWalletExtension (ext : LastWalletChangeExtension) : Except Throwable Bytes := do
  let timestamp := ext.lastWalletChangeDate.getD 0
  let buffer ← (ByteBuffer.allocate 8).putLong timestamp
  pure buffer.array

/-- The statements of `deserializeWalletExtension` that read the data. -/
def readTimestamp (data : Bytes) : Except Throwable Int64 := do
  let buffer ← (ByteBuffer.allocate 8).put data
  buffer.flip.getLong

def deserializeWalletExtension (data : Bytes) :
    EStateM Throwable LastWalletChangeExtension Unit := do
  let timestamp ← MonadExcept.ofExcept (readTimestamp data)
  set (⟨if 0 < timestamp then some timestamp else none⟩ : LastWalletChangeExtension)

/-- A new extension, once bitcoinj has handed it the bytes that are in a wallet file. The extension is not
    mandatory: a file may lack it, and bytes it refuses are passed over. -/
def loaded (data : Option Bytes) : LastWalletChangeExtension :=
  match data with
  | none => new
  | some data => after (deserializeWalletExtension data new)

end LastWalletChangeExtension

/-- The extension of a wallet, as bitcoinj keeps it by its id. -/
def Wallet.lastWalletChange (wallet : Wallet) : LastWalletChangeExtension :=
  ⟨wallet.lastWalletChangeDate⟩

def getLastWalletChange : Java (Option Int64) := do
  let w ← get
  match w.wallet with
  | none => pure none
  | some ref => pure (w.wallets.cell ref).lastWalletChange.lastWalletChangeDate

def getLastWalletChangeTimestamp : Java Int64 := do
  let date ← getLastWalletChange
  pure (date.getD 0)

end BitcoinKit
