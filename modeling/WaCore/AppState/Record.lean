import WaCore.Lib.Effect
import WaCore.AppState.Hash

/-!
# Encrypted records

`keys.rs`, `encode.rs` and `decode.rs`: the keys of a collection, how one
mutation is encrypted into a record, and how a record is checked and decrypted.

A value blob is `iv ++ ciphertext ++ mac`.  `decodeRecord_eq_ok` says what an
accepted record looks like, and `decodeRecord_encode` that a record this client
encrypts is accepted and decrypts to what went in.
-/

namespace WaCore.AppState

variable (P : Primitives)

/-- The five keys that a sync key is expanded to. -/
structure ExpandedAppStateKeys where
  index : FixedBytes 32
  valueEncryption : FixedBytes 32
  valueMac : FixedBytes 32
  snapshotMac : FixedBytes 32
  patchMac : FixedBytes 32
  deriving DecidableEq, Repr

/-- The `n`-th 32 bytes of the key material. -/
def take32 (okm : FixedBytes 160) (n : Fin 5) : FixedBytes 32 :=
  ⟨(okm.val.drop (32 * n)).take 32, by
    rw [List.length_take, List.length_drop, okm.property]
    omega⟩

def expandAppStateKeys (keyData : Bytes) : ExpandedAppStateKeys :=
  let okm : FixedBytes 160 := hkdfSha256 P keyData "WhatsApp Mutation Keys".toUTF8.data.toList 5
  { index := take32 okm 0
    valueEncryption := take32 okm 1
    valueMac := take32 okm 2
    snapshotMac := take32 okm 3
    patchMac := take32 okm 4 }

/-- The value blob of a record, and its MAC. -/
def encryptValue (operation : SyncdOperation) (index : Bytes) (value : SyncActionValue)
    (keys : ExpandedAppStateKeys) (keyId : Bytes) (iv : FixedBytes 16) (version : Int) :
    Bytes × FixedBytes 32 :=
  let plaintext := P.syncActionDataToVec index value version
  let data := iv.val ++ P.aes256CbcEncrypt plaintext keys.valueEncryption iv
  let valueMac := generateContentMac P operation data keyId keys.valueMac
  (data ++ valueMac.val, valueMac)

/-- `encode_record`: the mutation to send, and its value MAC. -/
def encodeRecord (operation : SyncdOperation) (index : Bytes) (value : SyncActionValue)
    (keys : ExpandedAppStateKeys) (keyId : Bytes) (iv : FixedBytes 16) (version : Int) :
    SyncdMutation × FixedBytes 32 :=
  let (valueBlob, valueMac) := encryptValue P operation index value keys keyId iv version
  let record : SyncdRecord :=
    { index := some (generateIndexMac P index keys.index).val
      value := some valueBlob
      keyId := some keyId }
  (⟨some (.known operation), some record⟩, valueMac)

/-- The components of an index; an index that does not parse has none. -/
def indexList (index : Bytes) : List String := (P.parseIndex index).toOption.getD []

/-- `decode_record`: the mutation in a record, and the record's MACs. -/
def decodeRecord (operation : SyncdOperation) (record : SyncdRecord)
    (keys : ExpandedAppStateKeys) (keyId : Bytes) (validateMacs : Bool) :
    Except AppStateError (Mutation × AppStateMutationMAC) := do
  let valueBlob ← okOr record.value .missingValueBlob
  ensure (16 + 32 ≤ valueBlob.length) .valueBlobTooShort
  let iv := valueBlob.take 16
  let rest := valueBlob.drop 16
  let ciphertext := rest.take (rest.length - 32)
  let valueMac := rest.drop (rest.length - 32)
  let expected := generateContentMac P operation (valueBlob.take (valueBlob.length - 32)) keyId
    keys.valueMac
  ensure (!validateMacs || expected.val = valueMac) .mismatchingContentMAC
  let plaintext ← okOr (P.aes256CbcDecrypt ciphertext keys.valueEncryption iv) .decryptionFailed
  let action ← okOr (P.syncActionDataDecode plaintext) .decodeFailed
  (if validateMacs then do
    let stored ← okOr record.index .missingIndexMAC
    validateIndexMac P (action.index.getD []) stored keys.index
  else pure ())
  let indexMac ← okOr record.index .missingIndexMAC
  pure (⟨action.value, (action.index.map (indexList P)).getD [], operation⟩, ⟨indexMac, valueMac⟩)

/-- What an accepted record looks like. -/
structure Accepted (record : SyncdRecord) (validateMacs : Bool) (macs : AppStateMutationMAC) :
    Prop where
  value : ∃ blob, record.value = some blob ∧ 48 ≤ blob.length ∧ macs.valueMac = valueMacTail blob
  index : record.index = some macs.indexMac
  index_length : validateMacs → macs.indexMac.length = 32

theorem valueMacTail_eq_drop {blob : Bytes} (h : 48 ≤ blob.length) :
    (blob.drop 16).drop ((blob.drop 16).length - 32) = valueMacTail blob := by
  rw [valueMacTail, valueMacStart, if_pos (by omega), List.drop_drop, List.length_drop]
  congr 1
  omega

theorem decodeRecord_eq_ok {operation : SyncdOperation} {record : SyncdRecord}
    {keys : ExpandedAppStateKeys} {keyId : Bytes} {validateMacs : Bool} {mutation : Mutation}
    {macs : AppStateMutationMAC}
    (h : decodeRecord P operation record keys keyId validateMacs = .ok (mutation, macs)) :
    Accepted record validateMacs macs ∧ mutation.operation = operation := by
  simp only [decodeRecord, bind_eq_ok, okOr_eq_ok, ensure_eq_ok] at h
  obtain ⟨blob, hvalue, _, hlen, _, _, plaintext, _, action, _, _, hcheck, indexMac, hindex, hres⟩ := h
  cases hres
  have hlen' : 48 ≤ blob.length := by simpa using hlen
  refine ⟨⟨⟨blob, hvalue, hlen', valueMacTail_eq_drop hlen'⟩, hindex, ?_⟩, rfl⟩
  intro hvalidate
  rw [if_pos hvalidate, hindex, okOr_some, ok_bind, validateIndexMac] at hcheck
  split at hcheck
  · cases hcheck
  · rename_i heq
    rw [← not_not.mp heq]
    exact (generateIndexMac P _ _).property

/-- The arguments of one `encode_record`. -/
structure Entry where
  operation : SyncdOperation
  index : Bytes
  value : SyncActionValue
  keys : ExpandedAppStateKeys
  keyId : Bytes
  iv : FixedBytes 16
  version : Int

/-- The mutation that an entry is encoded to. -/
def Entry.encode (entry : Entry) : SyncdMutation :=
  (encodeRecord P entry.operation entry.index entry.value entry.keys entry.keyId entry.iv
    entry.version).1

/-- What the receiver gets for an entry. -/
def Entry.mutation (entry : Entry) : Mutation :=
  ⟨some entry.value, indexList P entry.index, entry.operation⟩

/-- The cipher and the codec give back what they were given, for this entry. -/
structure Entry.RoundTrips (entry : Entry) : Prop where
  decrypt : P.aes256CbcDecrypt
      (P.aes256CbcEncrypt (P.syncActionDataToVec entry.index entry.value entry.version)
        entry.keys.valueEncryption entry.iv)
      entry.keys.valueEncryption entry.iv.val
    = some (P.syncActionDataToVec entry.index entry.value entry.version)
  decode : P.syncActionDataDecode (P.syncActionDataToVec entry.index entry.value entry.version)
    = some ⟨some entry.index, some entry.value, some [], some entry.version⟩

/-- A record that this client encrypts decrypts to what went in. -/
theorem decodeRecord_encode {entry : Entry} (hentry : entry.RoundTrips P) {record : SyncdRecord}
    (hrecord : (entry.encode P).record = some record) :
    ∃ macs, decodeRecord P entry.operation record entry.keys entry.keyId true
      = .ok (entry.mutation P, macs) := by
  obtain ⟨operation, index, value, keys, keyId, iv, version⟩ := entry
  obtain ⟨hdec, hdecode⟩ := hentry
  obtain rfl := Option.some.inj hrecord
  generalize hct : P.aes256CbcEncrypt (P.syncActionDataToVec index value version)
    keys.valueEncryption iv = ciphertext
  generalize hmac : generateContentMac P operation (iv.val ++ ciphertext) keyId keys.valueMac = mac
  have hiv := iv.property
  have htake : (iv.val ++ ciphertext ++ mac.val).take 16 = iv.val := by
    rw [List.append_assoc, List.take_left' hiv]
  have hdrop : (iv.val ++ ciphertext ++ mac.val).drop 16 = ciphertext ++ mac.val := by
    rw [List.append_assoc, List.drop_left' hiv]
  have hdata : (iv.val ++ ciphertext ++ mac.val).take
      ((iv.val ++ ciphertext ++ mac.val).length - 32) = iv.val ++ ciphertext :=
    List.take_left' (by simp only [List.length_append]; omega)
  have hcipher : (ciphertext ++ mac.val).take ((ciphertext ++ mac.val).length - 32) = ciphertext :=
    List.take_left' (by simp only [List.length_append]; omega)
  have hrest : (ciphertext ++ mac.val).drop ((ciphertext ++ mac.val).length - 32) = mac.val :=
    List.drop_left' (by simp only [List.length_append]; omega)
  have hlen : 16 + 32 ≤ (iv.val ++ ciphertext ++ mac.val).length := by
    simp only [List.length_append]
    omega
  rw [hct] at hdec
  simp only [decodeRecord, okOr_some, ok_bind, hlen, htake, hdrop, hdata, hcipher,
    hrest, hmac, hdec, hdecode, validateIndexMac, Option.getD_some, ne_eq]
  exact ⟨_, rfl⟩

/-! ## A sample

Primitives that are simple enough to compute with: the HMAC of a message is its
first bytes, the cipher is the identity, and an action is encoded as its index. -/

/-- The first `n` bytes of a message, then of the key. -/
def sampleHmac (n : Nat) (key message : Bytes) : FixedBytes n :=
  ⟨(message ++ key ++ List.replicate n 0).take n, by
    rw [List.length_take, List.length_append, List.length_replicate]
    omega⟩

def sampleValue : SyncActionValue := ⟨none, [7]⟩

def samplePrimitives : Primitives where
  hmacSha256 := sampleHmac 32
  hmacSha512 := sampleHmac 64
  aes256CbcEncrypt plaintext _ _ := plaintext
  aes256CbcDecrypt ciphertext _ _ := some ciphertext
  syncActionDataToVec index _ _ := index
  syncActionDataDecode bytes := some ⟨some bytes, some sampleValue, some [], some 1⟩
  syncdPatchToVec _ := []
  parseIndex _ := .ok ["archive"]

def sampleKeys : ExpandedAppStateKeys :=
  ⟨.replicate 32 1, .replicate 32 2, .replicate 32 3, .replicate 32 4, .replicate 32 5⟩

/-- A SET of the index `[9]` under the key `[1]`. -/
def sampleEntry : Entry := ⟨.set, [9], sampleValue, sampleKeys, [1], .replicate 16 0, 1⟩

end WaCore.AppState
