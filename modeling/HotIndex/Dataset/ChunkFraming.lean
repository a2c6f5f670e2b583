import HotIndex.Dataset.DatasetDir
import HotIndex.Lib.FrameStream
import HotIndex.Lib.Varint

/-!
# The Stream of a Raw Chunk

How the transactions of a raw chunk are framed: `TransactionChunkWriter` writes each message
behind its length, `read_next_len_delimited_transaction` takes the next message off the
stream. A stream that was cut anywhere is read up to its last whole message, and the reader
tells a cut between two messages from one inside a message (`readTransactions_cut`).
`inspect-raw` recovers a truncated chunk by it (`inspectRaw_cut`).

The stream is what the zstd encoder is handed and the zstd decoder yields. The message codec
of `prost` is a parameter.
-/

namespace HotIndex

open Lib

/-- `prost` at `Transaction`: `encode_to_vec` and `decode`. -/
structure TransactionCodec where
  encode : Transaction → Bytes
  decode : Bytes → Except String Transaction

/-- `isize::MAX`: no buffer is longer. -/
def isizeMax : Nat := 2 ^ 63 - 1

/-! ## Writing -/

namespace TransactionCodec

variable (codec : TransactionCodec)

/-- A message behind its length. -/
def frame (transaction : Transaction) : Bytes :=
  encodeVarint (UInt64.ofNat (codec.encode transaction).length) ++ codec.encode transaction

/-- `encode_length_delimited` into an empty buffer. -/
def encodeLengthDelimited (transaction : Transaction) : Except String Bytes :=
  let required := (codec.frame transaction).length
  if isizeMax < required then
    .error (s!"failed to encode Protobuf message; insufficient buffer capacity " ++
      s!"(required: {required}, remaining: {isizeMax})")
  else .ok (codec.frame transaction)

end TransactionCodec

structure TransactionChunkWriter where
  /-- What was handed to the zstd encoder, until the writer is finished -/
  encoder : Option Bytes

namespace TransactionChunkWriter

def create : TransactionChunkWriter where
  encoder := some []

/-- `write_transaction`. It returns the number of bytes written. -/
def writeTransaction (codec : TransactionCodec) (writer : TransactionChunkWriter)
    (transaction : Transaction) : Except HotIndexError (UInt64 × TransactionChunkWriter) :=
  match writer.encoder with
  | none => .error (.config "transaction chunk writer is already finished")
  | some written =>
    match codec.encodeLengthDelimited transaction with
    | .error message => .error (.parse message)
    | .ok buffer => .ok (UInt64.ofNat buffer.length, { encoder := some (written ++ buffer) })

/-- Write a list of transactions. -/
def writeTransactions (codec : TransactionCodec) (writer : TransactionChunkWriter)
    (transactions : List Transaction) : Except HotIndexError TransactionChunkWriter :=
  transactions.foldlM (fun writer transaction =>
    Prod.snd <$> writer.writeTransaction codec transaction) writer

/-- What a successful write did. -/
theorem writeTransaction_eq_ok {codec : TransactionCodec} {writer writer' : TransactionChunkWriter}
    {transaction : Transaction}
    (h : Prod.snd <$> writer.writeTransaction codec transaction = .ok writer') :
    ∃ written, writer.encoder = some written ∧
      writer'.encoder = some (written ++ codec.frame transaction) ∧
      (codec.frame transaction).length ≤ isizeMax := by
  unfold writeTransaction TransactionCodec.encodeLengthDelimited at h
  cases hencoder : writer.encoder with
  | none =>
    rw [hencoder] at h
    cases h
  | some written =>
    rw [hencoder] at h
    -- a frame of more than `isize::MAX` bytes cannot be allocated
    by_cases hroom : isizeMax < (codec.frame transaction).length
    · simp only [if_pos hroom] at h
      cases h
    · simp only [if_neg hroom] at h
      cases h
      exact ⟨written, rfl, rfl, not_lt.1 hroom⟩

/-- A writer holds the frames of the transactions it was given. -/
theorem writeTransactions_eq_ok {codec : TransactionCodec} {transactions : List Transaction}
    {writer : TransactionChunkWriter}
    (h : create.writeTransactions codec transactions = .ok writer) :
    writer.encoder = some (transactions.flatMap codec.frame) ∧
      ∀ transaction ∈ transactions, (codec.frame transaction).length ≤ isizeMax := by
  refine foldlM_induction (P := fun done writer =>
    writer.encoder = some (done.flatMap codec.frame) ∧
      ∀ transaction ∈ done, (codec.frame transaction).length ≤ isizeMax) h ⟨rfl, by simp⟩ ?_
  -- the encoder holds the frames of what was written so far
  intro done transaction writer writer' _ ⟨hencoder, hsizes⟩ hwrite
  obtain ⟨written, hwritten, hencoder', hsize⟩ := writeTransaction_eq_ok hwrite
  rw [hwritten] at hencoder
  rw [hencoder', Option.some.inj hencoder]
  constructor
  · simp
  · intro transaction' hmem
    rcases List.mem_append.1 hmem with hmem | hmem
    · exact hsizes transaction' hmem
    · exact List.mem_singleton.1 hmem ▸ hsize

end TransactionChunkWriter

/-! ## Reading -/

/-- `Read::read_exact` on a stream of bytes. -/
def readExact (count : Nat) (reader : Bytes) : Except HotIndexError (Bytes × Bytes) :=
  if reader.length < count then .error (.config "failed to fill whole buffer")
  else .ok (reader.take count, reader.drop count)

/-- The loop of `read_varint_len`, from the byte at `idx` on. -/
def readVarintFrom : Nat → Nat → UInt64 → Bytes → Except HotIndexError (Option UInt64 × Bytes)
  | 0, _, _, _ => .error (.parse "protobuf length prefix exceeds 10 bytes")
  | _ + 1, idx, _, [] =>
    if idx = 0 then .ok (none, [])
    else .error (.parse "truncated protobuf length prefix")
  | bytesLeft + 1, idx, len, byte :: reader =>
    let len := len ||| (byte &&& 0x7f).toUInt64 <<< UInt64.ofNat (idx * 7)
    if byte &&& 0x80 = 0 then .ok (some len, reader)
    else readVarintFrom bytesLeft (idx + 1) len reader

/-- `read_varint_len` -/
def readVarintLen (reader : Bytes) : Except HotIndexError (Option UInt64 × Bytes) :=
  readVarintFrom 10 0 0 reader

section Reading

variable (codec : TransactionCodec)

/-- `read_next_len_delimited_transaction`. A buffer longer than `isize::MAX` panics. -/
def readNextLenDelimitedTransaction (reader : Bytes) :
    Except Fault (Option Transaction × Bytes) :=
  match readVarintLen reader with
  | .error error => .error (.error error)
  | .ok (none, reader) => .ok (none, reader)
  | .ok (some len, reader) =>
    if isizeMax < len.toNat then .error (.panic "capacity overflow")
    else
      match readExact len.toNat reader with
      | .error error => .error (.error error)
      | .ok (buffer, reader) =>
        match codec.decode buffer with
        | .error message => .error (.error (.parse message))
        | .ok transaction => .ok (some transaction, reader)

/-- Repeated calls of `read_next_len_delimited_transaction`. -/
def readTransactions (calls : Nat) (reader : Bytes) : List Transaction × ReadEnd Fault :=
  readStream (readNextLenDelimitedTransaction codec) calls reader

end Reading

/-! ## Inspecting a chunk -/

/-- The local variables of `inspect_raw_command`. -/
structure InspectState where
  count : UInt64 := 0
  firstVersion : Option UInt64 := none
  lastVersion : Option UInt64 := none
  truncatedError : Option String := none

/-- The report of `inspect_raw_command`. -/
structure InspectReport where
  decodedTransactions : UInt64
  firstVersion : Option UInt64
  lastVersion : Option UInt64
  nextStartVersion : Option UInt64
  truncatedError : Option String
  stoppedAtLimit : Bool

namespace InspectState

/-- Count a decoded transaction. -/
def push (st : InspectState) (transaction : Transaction) : InspectState :=
  { st with
    count := st.count + 1
    firstVersion := st.firstVersion.or (some transaction.version)
    lastVersion := some transaction.version }

/-- Note the error that the reading ended with. -/
def endWith (st : InspectState) : ReadEnd Fault → InspectState
  | .failed (.error error) => { st with truncatedError := some error.display }
  | _ => st

def report (st : InspectState) (limit : UInt64) : InspectReport where
  decodedTransactions := st.count
  firstVersion := st.firstVersion
  lastVersion := st.lastVersion
  nextStartVersion := st.lastVersion.bind (fun version => (checkedNextVersion version).toOption)
  truncatedError := st.truncatedError
  stoppedAtLimit := st.count = limit

end InspectState

section Inspect

variable (codec : TransactionCodec) (allowTruncated : Bool)

/-- The loop of `inspect_raw_command`, with so many transactions left up to its limit. -/
def inspectFrom : Nat → Bytes → InspectState → Except Fault InspectState
  | 0, _, st => .ok st
  | left + 1, reader, st =>
    match readNextLenDelimitedTransaction codec reader with
    | .ok (some transaction, reader) => inspectFrom left reader (st.push transaction)
    | .ok (none, _) => .ok st
    | .error (.panic message) => .error (.panic message)
    | .error (.error error) =>
      if allowTruncated then .ok { st with truncatedError := some error.display }
      else .error (.error error)

/-- `inspect_raw_command` on a decoded stream. -/
def inspectRaw (stream : Bytes) (limit : Option UInt64) : Except Fault InspectReport := do
  let limit := limit.getD u64Max
  let st ← inspectFrom codec allowTruncated limit.toNat stream {}
  return st.report limit

end Inspect

/-! ## What is read off a frame -/

/-- The group of seven bits of a byte, as `read_varint_len` widens it. -/
private theorem toNat_group (byte : UInt8) :
    (byte &&& 0x7f).toUInt64.toNat = byte.toNat % 128 := by
  rw [UInt8.toNat_toUInt64, toNat_and_127]

/-- What the loop has collected after another byte. -/
private theorem toNat_join {idx : Nat} {len : UInt64} (byte : UInt8) (hidx : idx ≤ 9)
    (hlen : len.toNat < 2 ^ (idx * 7)) :
    (len ||| (byte &&& 0x7f).toUInt64 <<< UInt64.ofNat (idx * 7)).toNat =
      (len.toNat + byte.toNat % 128 * 2 ^ (idx * 7)) % 2 ^ 64 := by
  rw [toNat_or_shiftLeft_mod (by omega) hlen, toNat_group]

/-- A byte in front of some bytes stands for the lowest group. -/
private theorem varintValue_cons_mul (idx : Nat) (byte : UInt8) (bytes : Bytes) :
    varintValue (byte :: bytes) * 2 ^ (idx * 7) =
      byte.toNat % 128 * 2 ^ (idx * 7) + varintValue bytes * 2 ^ ((idx + 1) * 7) := by
  rw [varintValue_cons, Nat.add_mul idx, Nat.pow_add]
  ring

/-- **The loop of `read_varint_len`.** With `len` collected from `idx` bytes, it returns a
length if and only if an encoding of at most `bytesLeft` bytes follows. It adds what the
encoding stands for, in 64 bits. -/
theorem readVarintFrom_eq_ok_iff {bytesLeft idx : Nat} {len n : UInt64} {reader rest : Bytes}
    (hidx : idx + bytesLeft = 10) (hlen : len.toNat < 2 ^ (idx * 7)) :
    readVarintFrom bytesLeft idx len reader = .ok (some n, rest) ↔
      ∃ encoding, IsVarint encoding ∧ encoding.length ≤ bytesLeft ∧
        reader = encoding ++ rest ∧
        n.toNat = (len.toNat + varintValue encoding * 2 ^ (idx * 7)) % 2 ^ 64 := by
  induction bytesLeft generalizing idx len reader with
  | zero =>
    constructor
    · intro h
      cases h
    · rintro ⟨encoding, hencoding, hlength, -⟩
      cases hencoding <;> simp at hlength
  | succ bytesLeft ih =>
    cases reader with
    | nil =>
      constructor
      · intro h
        rw [readVarintFrom] at h
        split at h <;> cases h
      · rintro ⟨encoding, hencoding, -, hreader, -⟩
        cases hencoding <;> simp at hreader
    | cons byte reader =>
      have hjoin := toNat_join byte (by omega) hlen
      rw [readVarintFrom]
      simp only [and_128_eq_zero_iff]
      by_cases hlast : byte.toNat < 128
      · -- the byte is the last of an encoding, and of no longer one
        rw [if_pos hlast]
        constructor
        · intro h
          cases h
          refine ⟨[byte], .last hlast, by simp, rfl, ?_⟩
          rw [hjoin, varintValue_cons, varintValue_nil, Nat.mul_zero, Nat.add_zero]
        · rintro ⟨encoding, hencoding, -, hreader, hn⟩
          have hlastByte : IsVarint [byte] := .last hlast
          obtain ⟨rfl, rfl⟩ := hlastByte.unique hencoding (List.singleton_append.trans hreader)
          rw [varintValue_cons, varintValue_nil, Nat.mul_zero, Nat.add_zero, ← hjoin] at hn
          rw [← UInt64.toNat_inj.1 hn]
      · rw [if_neg hlast]
        cases bytesLeft with
        | zero =>
          -- ten bytes were read
          constructor
          · intro h
            cases h
          · rintro ⟨encoding, hencoding, hlength, hreader, -⟩
            cases hencoding with
            | last hlast' =>
              obtain ⟨rfl, -⟩ := List.cons.inj hreader
              exact absurd hlast' hlast
            | more _ hrest => cases hrest <;> simp at hlength
        | succ bytesLeft =>
          -- at most nine bytes were read, so the word has room for the group
          have hroom : (2 : Nat) ^ ((idx + 1) * 7) ≤ 2 ^ 63 :=
            Nat.pow_le_pow_right (by norm_num) (by omega)
          have hpow : (2 : Nat) ^ ((idx + 1) * 7) = 128 * 2 ^ (idx * 7) := by
            rw [Nat.add_mul, Nat.pow_add]
            omega
          have hgroup : byte.toNat % 128 * 2 ^ (idx * 7) ≤ 127 * 2 ^ (idx * 7) :=
            Nat.mul_le_mul_right _ (by omega)
          rw [Nat.mod_eq_of_lt (by omega)] at hjoin
          rw [ih (by omega) (by rw [hjoin]; omega), hjoin]
          constructor
          · rintro ⟨encoding, hencoding, hlength, rfl, hn⟩
            refine ⟨byte :: encoding, .more (by omega) hencoding, by simpa using hlength, rfl, ?_⟩
            rw [hn, varintValue_cons_mul, Nat.add_assoc]
          · rintro ⟨encoding, hencoding, hlength, hreader, hn⟩
            cases hencoding with
            | last hlast' =>
              obtain ⟨rfl, -⟩ := List.cons.inj hreader
              exact absurd hlast' hlast
            | more _ hrest =>
              obtain ⟨rfl, htail⟩ := List.cons.inj hreader
              refine ⟨_, hrest, by simpa using hlength, htail, ?_⟩
              rw [hn, varintValue_cons_mul, Nat.add_assoc]

/-- What `read_varint_len` returns is the encoding at the front of the stream, in 64 bits. -/
theorem readVarintLen_eq_ok_iff {n : UInt64} {reader rest : Bytes} :
    readVarintLen reader = .ok (some n, rest) ↔
      ∃ encoding, IsVarint encoding ∧ encoding.length ≤ 10 ∧ reader = encoding ++ rest ∧
        n.toNat = varintValue encoding % 2 ^ 64 := by
  have hloop := @readVarintFrom_eq_ok_iff 10 0 0 n reader rest rfl (by decide)
  simpa [readVarintLen] using hloop

/-- A number that is cut short, behind a group of it. -/
theorem readVarintFrom_cut {width idx value m : Nat} {len : UInt64} (hbegun : 0 < idx ∨ 0 < m)
    (hm : m < (varintBytes width value).length) :
    readVarintFrom width idx len ((varintBytes width value).take m) =
      .error (.parse "truncated protobuf length prefix") := by
  induction width generalizing idx value m len with
  | zero => simp [varintBytes] at hm
  | succ width ih =>
    cases m with
    | zero =>
      rw [List.take_zero, readVarintFrom, if_neg (by omega)]
    | succ m =>
      by_cases hsmall : value < 128
      · rw [varintBytes, if_pos hsmall] at hm
        simp at hm
      · -- the continuation bit sends the reader to the next byte
        have hbyte : (UInt8.ofNat (value % 128 + 128)).toNat = value % 128 + 128 :=
          UInt8.toNat_ofNat_of_lt' (by rw [UInt8.size]; omega)
        have hmore : ¬ UInt8.ofNat (value % 128 + 128) &&& 0x80 = 0 := by
          rw [and_128_eq_zero_iff, hbyte]
          omega
        rw [varintBytes, if_neg hsmall, List.length_cons] at hm
        rw [varintBytes, if_neg hsmall, List.take_succ_cons, readVarintFrom]
        simp only [if_neg hmore]
        exact ih (by omega) (by omega)

/-- The end of the stream is found in front of the first byte only. -/
theorem readVarintFrom_eq_none {bytesLeft idx : Nat} {len : UInt64} {reader rest : Bytes}
    (h : readVarintFrom bytesLeft idx len reader = .ok (none, rest)) :
    idx = 0 ∧ reader = [] := by
  induction bytesLeft generalizing idx len reader with
  | zero => cases h
  | succ bytesLeft ih =>
    cases reader with
    | nil =>
      rw [readVarintFrom] at h
      -- only before the first byte is the end of the stream no error
      split at h
      · rename_i hidx
        exact ⟨hidx, rfl⟩
      · cases h
    | cons byte reader =>
      rw [readVarintFrom] at h
      split at h
      · cases h
      · obtain ⟨hidx, -⟩ := ih h
        omega

theorem readVarintLen_encodeVarint (value : UInt64) (rest : Bytes) :
    readVarintLen (encodeVarint value ++ rest) = .ok (some value, rest) := by
  have hlt : value.toNat < 128 ^ 10 := lt_trans value.toNat_lt (by norm_num)
  refine readVarintLen_eq_ok_iff.2
    ⟨_, IsVarint.varintBytes hlt, length_varintBytes_le 10 value.toNat, rfl, ?_⟩
  rw [varintValue_varintBytes hlt, Nat.mod_eq_of_lt value.toNat_lt]

theorem readVarintLen_cut {value : UInt64} {m : Nat} (hpos : 0 < m)
    (hm : m < (encodeVarint value).length) :
    readVarintLen ((encodeVarint value).take m) =
      .error (.parse "truncated protobuf length prefix") :=
  readVarintFrom_cut (Or.inr hpos) hm

theorem readExact_append (buffer rest : Bytes) :
    readExact buffer.length (buffer ++ rest) = .ok (buffer, rest) := by
  simp [readExact]

/-- The errors of a stream that ends inside a frame. -/
def SaysCut (fault : Fault) : Prop :=
  fault = .error (.parse "truncated protobuf length prefix") ∨
    fault = .error (.config "failed to fill whole buffer")

section Frames

variable {codec : TransactionCodec}

/-- The length in front of a message that fits a buffer. -/
private theorem toNat_length {transaction : Transaction}
    (hsize : (codec.frame transaction).length ≤ isizeMax) :
    (UInt64.ofNat (codec.encode transaction).length).toNat = (codec.encode transaction).length ∧
      (codec.encode transaction).length ≤ isizeMax := by
  have hle : (codec.encode transaction).length ≤ isizeMax := by
    refine le_trans ?_ hsize
    rw [TransactionCodec.frame, List.length_append]
    omega
  refine ⟨UInt64.toNat_ofNat_of_lt' ?_, hle⟩
  unfold isizeMax at hle
  rw [UInt64.size]
  omega

/-- The reader reads every frame that was written. -/
theorem readsFrame {transaction : Transaction}
    (hsize : (codec.frame transaction).length ≤ isizeMax)
    (hdecode : codec.decode (codec.encode transaction) = .ok transaction) :
    ReadsFrame (readNextLenDelimitedTransaction codec) codec.frame SaysCut transaction := by
  obtain ⟨hlen, hroom⟩ := toNat_length hsize
  constructor
  · intro rest
    unfold readNextLenDelimitedTransaction TransactionCodec.frame
    rw [List.append_assoc, readVarintLen_encodeVarint]
    simp only [hlen, if_neg (not_lt.2 hroom), readExact_append, hdecode]
  · intro m hpos hm
    unfold TransactionCodec.frame at hm ⊢
    rw [List.length_append] at hm
    set lengthPrefix := encodeVarint (UInt64.ofNat (codec.encode transaction).length) with hdef
    by_cases hcut : m < lengthPrefix.length
    · -- the cut is inside the length prefix
      refine ⟨_, Or.inl rfl, ?_⟩
      unfold readNextLenDelimitedTransaction
      rw [List.take_append_of_le_length (by omega), hdef, readVarintLen_cut hpos (by
        rw [← hdef]
        exact hcut)]
    · -- the length is whole, the message is not
      refine ⟨_, Or.inr rfl, ?_⟩
      unfold readNextLenDelimitedTransaction
      have hshort : ((codec.encode transaction).take (m - lengthPrefix.length)).length <
          (codec.encode transaction).length := by
        rw [List.length_take]
        omega
      rw [List.take_append, List.take_of_length_le (by omega), hdef,
        readVarintLen_encodeVarint, ← hdef]
      simp only [hlen, if_neg (not_lt.2 hroom), readExact, if_pos hshort]

/-- What repeated calls return on the first `n` bytes of a written stream. -/
theorem readTransactions_take {messages : List Transaction} {writer : TransactionChunkWriter}
    {stream : Bytes}
    (hwritten : TransactionChunkWriter.create.writeTransactions codec messages = .ok writer)
    (hstream : writer.encoder = some stream)
    (hdecode : ∀ message ∈ messages, codec.decode (codec.encode message) = .ok message)
    {n : Nat} (hn : n ≤ stream.length) :
    ∃ ending,
      ((∃ count, n = framesLength codec.frame messages count) → ending = .finished) ∧
      ((¬ ∃ count, n = framesLength codec.frame messages count) →
        ∃ error, ending = .failed (.error error)) ∧
      ∀ calls, readTransactions codec calls (stream.take n) =
        (messages.take (min calls (wholeFrames codec.frame messages n)),
          if calls ≤ wholeFrames codec.frame messages n then .limit else ending) := by
  obtain ⟨hencoder, hsizes⟩ := TransactionChunkWriter.writeTransactions_eq_ok hwritten
  have hframes : stream = messages.flatMap codec.frame :=
    Option.some.inj (hstream.symm.trans hencoder)
  subst hframes
  have hread : ∀ message ∈ messages,
      ReadsFrame (readNextLenDelimitedTransaction codec) codec.frame SaysCut message :=
    fun message hmem => readsFrame (hsizes message hmem) (hdecode message hmem)
  obtain ⟨ending, hfinished, hfailed, hcalls⟩ := readStream_take rfl hread hn
  rw [exists_eq_framesLength_iff]
  refine ⟨ending, hfinished, fun hinside => ?_, hcalls⟩
  -- a frame is cut in its length or in its message
  obtain ⟨fault, hcut, hending⟩ := hfailed hinside
  rcases hcut with rfl | rfl
  · exact ⟨_, hending⟩
  · exact ⟨_, hending⟩

/-- **Framing.** Repeated calls on the first `n` bytes of a written stream return exactly the
messages whose frames lie wholly within them, in order. Then the reader finds the end if `n`
lies between two frames, and otherwise an error. -/
theorem readTransactions_cut {messages : List Transaction} {writer : TransactionChunkWriter}
    {stream : Bytes}
    (hwritten : TransactionChunkWriter.create.writeTransactions codec messages = .ok writer)
    (hstream : writer.encoder = some stream)
    (hdecode : ∀ message ∈ messages, codec.decode (codec.encode message) = .ok message)
    {n : Nat} (hn : n ≤ stream.length) :
    ∃ whole ending,
      (∀ i, i < whole ↔
        i < messages.length ∧ framesLength codec.frame messages (i + 1) ≤ n) ∧
      ((∃ count, n = framesLength codec.frame messages count) → ending = .finished) ∧
      ((¬ ∃ count, n = framesLength codec.frame messages count) →
        ∃ error, ending = .failed (.error error)) ∧
      ∀ calls, readTransactions codec calls (stream.take n) =
        (messages.take (min calls whole), if calls ≤ whole then .limit else ending) :=
  ⟨_, _, lt_wholeFrames_iff codec.frame messages n,
    (readTransactions_take hwritten hstream hdecode hn).choose_spec⟩

/-- The loop of `inspect-raw` counts what repeated calls return and notes the error that they
end with. -/
theorem inspectFrom_eq {calls : Nat} {stream : Bytes} {st : InspectState}
    {transactions : List Transaction} {ending : ReadEnd Fault}
    (hread : readTransactions codec calls stream = (transactions, ending))
    (hpanic : ∀ message, ending ≠ .failed (.panic message)) :
    inspectFrom codec true calls stream st =
      .ok ((transactions.foldl InspectState.push st).endWith ending) := by
  induction calls generalizing stream st transactions with
  | zero =>
    cases hread
    rfl
  | succ calls ih =>
    unfold readTransactions at hread
    rw [readStream] at hread
    rw [inspectFrom]
    -- both loops look at the same call
    rcases hnext : readNextLenDelimitedTransaction codec stream with
      ⟨error | message⟩ | ⟨_ | transaction, rest⟩
    · rw [hnext] at hread
      cases hread
      rfl
    · rw [hnext] at hread
      cases hread
      exact absurd rfl (hpanic message)
    · rw [hnext] at hread
      cases hread
      rfl
    · rw [hnext] at hread
      cases hread
      exact ih rfl

/-- An error at the end changes nothing of what was counted. -/
theorem InspectState.endWith_keeps (st : InspectState) (ending : ReadEnd Fault) :
    (st.endWith ending).count = st.count ∧ (st.endWith ending).firstVersion = st.firstVersion ∧
      (st.endWith ending).lastVersion = st.lastVersion := by
  rcases ending with _ | _ | ⟨error | message⟩ <;> exact ⟨rfl, rfl, rfl⟩

theorem InspectState.foldl_push (transactions : List Transaction) :
    transactions.foldl push {} =
      { count := UInt64.ofNat transactions.length
        firstVersion := transactions.head?.map Transaction.version
        lastVersion := transactions.getLast?.map Transaction.version } := by
  -- the last transaction is pushed last
  induction transactions using List.reverseRecOn with
  | nil => rfl
  | append_singleton transactions transaction ih =>
    rw [List.foldl_append, ih]
    cases transactions with
    | nil => rfl
    | cons first rest =>
      rw [List.getLast?_concat]
      simp [push]

/-- **Recovery.** With `--allow-truncated`, `inspect-raw` reports on the first `n` bytes of a
written stream the messages that lie wholly within them, up to its limit, and an error if
and only if it reached a cut inside a frame. -/
theorem inspectRaw_cut {messages : List Transaction} {writer : TransactionChunkWriter}
    {stream : Bytes}
    (hwritten : TransactionChunkWriter.create.writeTransactions codec messages = .ok writer)
    (hstream : writer.encoder = some stream)
    (hdecode : ∀ message ∈ messages, codec.decode (codec.encode message) = .ok message)
    {n : Nat} (hn : n ≤ stream.length) (limit : UInt64) :
    ∃ whole report,
      (∀ i, i < whole ↔
        i < messages.length ∧ framesLength codec.frame messages (i + 1) ≤ n) ∧
      inspectRaw codec true (stream.take n) (some limit) = .ok report ∧
      report.decodedTransactions = UInt64.ofNat (min limit.toNat whole) ∧
      report.firstVersion =
        (messages.take (min limit.toNat whole)).head?.map Transaction.version ∧
      report.lastVersion =
        (messages.take (min limit.toNat whole)).getLast?.map Transaction.version ∧
      (report.truncatedError.isSome ↔
        whole < limit.toNat ∧ ¬ ∃ count, n = framesLength codec.frame messages count) := by
  obtain ⟨ending, hboundary, hinside, hread⟩ :=
    readTransactions_take hwritten hstream hdecode hn
  set whole := wholeFrames codec.frame messages n with hdef
  -- no more messages are counted than were written
  have hcount : min limit.toNat whole ≤ messages.length :=
    (Nat.min_le_right _ _).trans (wholeFrames_le_length codec.frame messages n)
  -- what the loop ends with: its limit, the end of the stream, or an error of the cut
  have hending : ∀ st : InspectState, st.truncatedError = none →
      let last := if limit.toNat ≤ whole then ReadEnd.limit else ending
      (∀ message, last ≠ .failed (.panic message)) ∧
        ((st.endWith last).truncatedError.isSome ↔
          whole < limit.toNat ∧ ¬ ∃ count, n = framesLength codec.frame messages count) := by
    intro st hst
    by_cases hlimit : limit.toNat ≤ whole
    · simp [if_pos hlimit, InspectState.endWith, hst, not_lt.2 hlimit]
    · by_cases hbound : ∃ count, n = framesLength codec.frame messages count
      · simp [if_neg hlimit, hboundary hbound, InspectState.endWith, hst, hbound]
      · obtain ⟨error, herror⟩ := hinside hbound
        simp [if_neg hlimit, herror, InspectState.endWith, hbound, not_le.1 hlimit]
  set read := messages.take (min limit.toNat whole) with hmessages
  let counted : InspectState :=
    { count := UInt64.ofNat read.length
      firstVersion := read.head?.map Transaction.version
      lastVersion := read.getLast?.map Transaction.version }
  have hloop := @inspectFrom_eq _ _ _ {} _ _ (hread limit.toNat) (hending {} rfl).1
  rw [← hmessages, InspectState.foldl_push] at hloop
  have hlength : read.length = min limit.toNat whole := by
    rw [hmessages, List.length_take, Nat.min_eq_left hcount]
  obtain ⟨hcounted, hfirst, hlast⟩ := counted.endWith_keeps
    (if limit.toNat ≤ whole then ReadEnd.limit else ending)
  refine ⟨whole, (counted.endWith _).report limit,
    lt_wholeFrames_iff codec.frame messages n, ?_, hcounted.trans ?_, hfirst, hlast,
    (hending counted rfl).2⟩
  · show (inspectFrom codec true limit.toNat (stream.take n) {} >>= fun st =>
      pure (st.report limit)) = _
    rw [hloop]
    rfl
  · rw [← hlength]

end Frames

/-- A transaction of which only the version is set. -/
def versionOnly (version : UInt64) : Transaction where
  version := version
  infoHash := none
  timestamp := none
  type := 0
  epoch := 0
  blockHeight := 0
  txnData := none

/-- The messages of such transactions, with versions below 128: field 2, a number. -/
def versionOnlyCodec : TransactionCodec where
  encode := fun transaction => [0x10, transaction.version.toUInt8]
  decode := fun message =>
    match message with
    | [0x10, version] => .ok (versionOnly version.toUInt64)
    | _ => .error "failed to decode Protobuf message"

/-- The second of two messages is cut behind its length. -/
theorem readTransactions_cut_versionOnly :
    ∃ whole ending,
      (∀ i, i < whole ↔ i < [versionOnly 7, versionOnly 8].length ∧
        framesLength versionOnlyCodec.frame [versionOnly 7, versionOnly 8] (i + 1) ≤ 4) ∧
      ((∃ count, 4 = framesLength versionOnlyCodec.frame [versionOnly 7, versionOnly 8] count) →
        ending = .finished) ∧
      ((¬ ∃ count,
          4 = framesLength versionOnlyCodec.frame [versionOnly 7, versionOnly 8] count) →
        ∃ error, ending = .failed (.error error)) ∧
      ∀ calls, readTransactions versionOnlyCodec calls
          (([2, 0x10, 7, 2, 0x10, 8] : Bytes).take 4) =
        ([versionOnly 7, versionOnly 8].take (min calls whole),
          if calls ≤ whole then .limit else ending) :=
  @readTransactions_cut versionOnlyCodec [versionOnly 7, versionOnly 8]
    { encoder := some [2, 0x10, 7, 2, 0x10, 8] } [2, 0x10, 7, 2, 0x10, 8] rfl rfl (by decide) 4
    (by decide)

end HotIndex
