import WaCore.Lib.Lease
import WaCore.Signal.GroupCipher

/-!
# Group iterations across crashes

A device that sends to a group keeps the record of its chain in memory and
writes it to stable storage from time to time; a crash brings back what was
written last.  The steps of `GroupStep` are the calls of the group cipher on the
record, its export and import, writes at any moment and crashes.  A message is
published only when no record that asks for a flush was stored since the row on
stable storage was taken.

The device simulates the abstract one of `WaCore.Lease`: a chain is a chain id
with a signing key, and its position is the iteration of the state that can sign
for it.
-/

namespace WaCore.Signal

/-! ## The device -/

/-- A message the device made, the signing key of its chain, and how many
records had asked for a flush then. -/
structure Issued where
  message : SenderKeyMessage
  signingKey : Option PublicKey
  gatedStores : Nat

/-- A row, and how many records had asked for a flush when it was taken. -/
structure SenderKeySnapshot where
  row : Option SenderKeyRow
  gatedStores : Nat

structure SenderKeyDevice where
  cached : Option SenderKeyRecord
  incarnation : Option (FixedBytes 16)
  durable : SenderKeySnapshot
  /-- A row that is being written. -/
  staged : Option SenderKeySnapshot
  gatedStores : Nat
  unsent : List Issued
  published : List Issued
  /-- The chains the device drew at random. -/
  drawn : List (UInt32 × PublicKey)

namespace SenderKeyDevice

def empty : SenderKeyDevice := ⟨none, none, ⟨none, 0⟩, none, 0, [], [], []⟩

/-- The record in memory, or else the row. -/
def load (C : Crypto) (d : SenderKeyDevice) : Except SignalProtocolError (Option SenderKeyRecord) :=
  match d.cached, d.durable.row with
  | some record, _ => .ok (some record)
  | none, none => .ok none
  | none, some row => (SenderKeyRecord.deserializeInner C row d.incarnation).map some

def store (d : SenderKeyDevice) (record : SenderKeyRecord) : SenderKeyDevice :=
  { d with cached := some record
           gatedStores := d.gatedStores + if record.isWireGated then 1 else 0 }

def senderKeyStore (C : Crypto) : SenderKeyStore SenderKeyDevice where
  loadSenderKey _ := do Eff.ofExcept ((← get).load C)
  storeSenderKey _ record := modify (·.store record)

/-- The signing key of the current chain. -/
def signingKey (C : Crypto) (d : SenderKeyDevice) : Option PublicKey :=
  match d.load C with
  | .ok (some record) => record.states.head?.bind (·.signingKeyPublic.toOption)
  | _ => none

/-- What is in memory is lost. -/
def crash (d : SenderKeyDevice) (incarnation : Option (FixedBytes 16)) : SenderKeyDevice :=
  { d with cached := none, incarnation := incarnation, staged := none, unsent := []
           gatedStores := d.durable.gatedStores }

end SenderKeyDevice

/-- The chain of a new sender key. -/
def NewSenderKey.chain (drawn : NewSenderKey) : UInt32 × PublicKey :=
  (drawn.chainId >>> 1, drawn.signingKey.publicKey)

section Steps

variable (C : Crypto) (codec : SenderKeyCodec) (name : SenderKeyName)

/-- Export the record and import it. -/
def reimport : Eff SenderKeyDevice SignalProtocolError Unit := do
  match ← (SenderKeyDevice.senderKeyStore C).loadSenderKey name with
  | none => pure ()
  | some record =>
    let components ← Eff.ofExcept (record.intoComponents C)
    let record ← Eff.ofExcept (SenderKeyRecord.fromComponents components)
    (SenderKeyDevice.senderKeyStore C).storeSenderKey name record

open SenderKeyDevice in
/-- What may happen to the device. -/
inductive GroupStep : SenderKeyDevice → SenderKeyDevice → Prop where
  | encrypt (d d' : SenderKeyDevice) (plaintext csprng : Bytes) (skm : SenderKeyMessage)
    (h : (groupEncrypt C codec (senderKeyStore C) name plaintext csprng).exec d = (.ok skm, d')) :
    GroupStep d { d' with unsent := ⟨skm, d.signingKey C, d'.gatedStores⟩ :: d'.unsent }
  | encryptFails (d d' : SenderKeyDevice) (plaintext csprng : Bytes) (e : SignalProtocolError)
    (h : (groupEncrypt C codec (senderKeyStore C) name plaintext csprng).exec d = (.error e, d')) :
    GroupStep d d'
  /-- The chain that is drawn is none of those drawn before. -/
  | create (d : SenderKeyDevice) (csprng : NewSenderKey) (hdistinct : csprng.chain ∉ d.drawn) :
    GroupStep d { ((createSenderKeyDistributionMessage (senderKeyStore C) name csprng).exec d).2 with
      drawn := csprng.chain :: d.drawn }
  | process (d : SenderKeyDevice) (skdm : SenderKeyDistributionMessage) :
    GroupStep d ((processSenderKeyDistributionMessage (senderKeyStore C) name skdm).exec d).2
  | reimport (d : SenderKeyDevice) : GroupStep d ((reimport C name).exec d).2
  /-- The store has taken note that the record asks for a flush. -/
  | clearWireGated (d : SenderKeyDevice) :
    GroupStep d { d with cached := d.cached.map (·.clearWireGated) }
  | serialize (d : SenderKeyDevice) (record : SenderKeyRecord) (incarnation : Option (FixedBytes 16))
    (h : d.cached = some record) :
    GroupStep d { d with staged := some ⟨record.serializeInner incarnation, d.gatedStores⟩ }
  | written (d : SenderKeyDevice) (snapshot : SenderKeySnapshot) (h : d.staged = some snapshot) :
    GroupStep d { d with durable := snapshot, staged := none }
  | notWritten (d : SenderKeyDevice) : GroupStep d { d with staged := none }
  /-- No record that asks for a flush was stored since the row was taken. -/
  | publish (d : SenderKeyDevice) (before after : List Issued) (issued : Issued)
    (hunsent : d.unsent = before ++ issued :: after)
    (hungated : d.gatedStores = d.durable.gatedStores) :
    GroupStep d { d with unsent := before ++ after, published := issued :: d.published }
  /-- The row is not one of the new incarnation. -/
  | crash (d : SenderKeyDevice) (incarnation : Option (FixedBytes 16))
    (h : ∀ row, d.durable.row = some row → incarnation = none ∨ row.incarnation ≠ incarnation) :
    GroupStep d (d.crash incarnation)

/-- The devices that a run from an empty store reaches. -/
def GroupRun (d : SenderKeyDevice) : Prop :=
  Relation.ReflTransGen (GroupStep C codec name) .empty d

end Steps

/-! ## Positions of a record -/

/-- A chain: its id, and the key its messages are signed with. -/
abbrev GroupChain := UInt32 × Option PublicKey

/-- The state can sign for the chain and stands at `n`. -/
structure SenderKeyState.Owns (state : SenderKeyState) (c : GroupChain) (n : Nat) : Prop where
  chainId : state.chainId = c.1
  signingKey : state.signingKeyPublic.toOption = c.2
  signs : ∃ privateKey, state.signingKeyPrivate = .ok privateKey
  stands : ∃ chain, state.senderChain = some chain ∧ chain.iteration.toNat = n

namespace SenderKeyRecord

def Stands (record : SenderKeyRecord) : Lease.Positions GroupChain :=
  fun c n => ∃ state ∈ record.states, state.Owns c n

/-- The reservation is for the current chain. -/
def Leases (record : SenderKeyRecord) : Lease.Positions GroupChain :=
  fun c k => k = record.lease.ceiling.toNat ∧ ∃ state states n, record.states = state :: states
    ∧ state.Owns c n

/-- What holds of every record of the device. -/
structure Sound (drawn : List (UInt32 × PublicKey)) (record : SenderKeyRecord) : Prop where
  distinct : record.states.Pairwise fun a b => a.chainId ≠ b.chainId
  leased : record.lease.IsLeased
  keys : ∀ state ∈ record.states, ∃ publicKey privateKey, state.SignedBy publicKey privateKey
    ∧ (privateKey ≠ none → (state.chainId, publicKey) ∈ drawn)

end SenderKeyRecord

variable {incarnation : Option (FixedBytes 16)} {skm : SenderKeyMessage}

section Records

variable {C : Crypto} {state : SenderKeyState} {record record' : SenderKeyRecord} {c : GroupChain}
  {n : Nat} {drawn : List (UInt32 × PublicKey)}

theorem SenderKeyState.Owns.of_set {chain chain' : SenderChainKey}
    (h : (state.setSenderChainKey chain').Owns c n) (hchain : state.senderChain = some chain) :
    state.Owns c chain.iteration.toNat ∧ n = chain'.iteration.toNat := by
  obtain ⟨chain'', hchain'', rfl⟩ := h.stands
  cases hchain''
  exact ⟨⟨h.chainId, h.signingKey, h.signs, chain, hchain, rfl⟩, rfl⟩

/-- The chain of a state whose signing key is known. -/
theorem SenderKeyState.Owns.of_signedBy {publicKey : PublicKey} {privateKey : Option Bytes}
    (h : state.Owns c n) (hkey : state.SignedBy publicKey privateKey) :
    c = (state.chainId, some publicKey) ∧ privateKey ≠ none := by
  refine ⟨Prod.ext h.chainId.symm ?_, ?_⟩
  · rw [← h.signingKey, SenderKeyState.signingKeyPublic_serialize hkey]
    rfl
  · rintro rfl
    obtain ⟨key, hsigns⟩ := h.signs
    rw [SenderKeyState.signingKeyPrivate, hkey] at hsigns
    cases hsigns

/-- A state that can sign is one of a chain that was drawn. -/
theorem SenderKeyRecord.Sound.mem_drawn (h : record.Sound drawn) (hstands : record.Stands c n) :
    ∃ chain ∈ drawn, c = (chain.1, some chain.2) := by
  obtain ⟨state, hstate, howns⟩ := hstands
  obtain ⟨publicKey, privateKey, hkey, hdrawn⟩ := h.keys state hstate
  obtain ⟨hchain, hprivate⟩ := howns.of_signedBy hkey
  exact ⟨_, hdrawn hprivate, hchain⟩

theorem SenderKeyRecord.Sound.mono {drawn' : List (UInt32 × PublicKey)} (h : record.Sound drawn)
    (hdrawn : ∀ chain ∈ drawn, chain ∈ drawn') : record.Sound drawn' where
  distinct := h.distinct
  leased := h.leased
  keys state hstate := by
    obtain ⟨publicKey, privateKey, hkey, hmem⟩ := h.keys state hstate
    exact ⟨publicKey, privateKey, hkey, fun hne => hdrawn _ (hmem hne)⟩

variable {lease : CounterLease}

/-- The first states of a sound record, under a lease. -/
theorem SenderKeyRecord.Sound.take (h : record.Sound drawn) (i : Nat) (hlease : lease.IsLeased) :
    SenderKeyRecord.Sound drawn ⟨record.states.take i, lease⟩ where
  distinct := h.distinct.sublist (List.take_sublist _ _)
  leased := hlease
  keys state hstate := h.keys state (List.mem_of_mem_take hstate)

/-- The chain of the first state is replaced. -/
theorem SenderKeyRecord.Sound.setFront {states : List SenderKeyState} {chain : SenderChainKey}
    (h : SenderKeyRecord.Sound drawn ⟨state :: states, lease⟩) {lease' : CounterLease}
    (hlease : lease'.IsLeased) :
    SenderKeyRecord.Sound drawn ⟨state.setSenderChainKey chain :: states, lease'⟩ where
  distinct := by
    obtain ⟨hfront, hrest⟩ := List.pairwise_cons.mp h.distinct
    exact List.pairwise_cons.mpr ⟨hfront, hrest⟩
  leased := hlease
  keys := by
    obtain ⟨hfront, hrest⟩ := List.forall_mem_cons.mp h.keys
    exact List.forall_mem_cons.mpr ⟨hfront, hrest⟩

/-- In a sound record the state that stands for the first one's chain is the
first. -/
theorem SenderKeyRecord.Sound.owns_front {states : List SenderKeyState}
    (h : SenderKeyRecord.Sound drawn ⟨state :: states, lease⟩) (hid : state.chainId = c.1)
    (hstands : SenderKeyRecord.Stands ⟨state :: states, lease⟩ c n) : state.Owns c n := by
  obtain ⟨other, hother, howns⟩ := hstands
  rcases List.mem_cons.mp hother with rfl | hother
  · exact howns
  · have hne := (List.pairwise_cons.mp h.distinct).1 other hother
    exact absurd (hid.trans howns.chainId.symm) hne

section SetFront

variable {states : List SenderKeyState} {chain chain' : SenderChainKey} {lease' : CounterLease}

/-- A chain whose state went on had a position before. -/
theorem stands_of_setFront (hchain : state.senderChain = some chain)
    (hle : chain.iteration.toNat ≤ chain'.iteration.toNat)
    (hstands : SenderKeyRecord.Stands ⟨state.setSenderChainKey chain' :: states, lease'⟩ c n) :
    ∃ m ≤ n, SenderKeyRecord.Stands ⟨state :: states, lease⟩ c m := by
  obtain ⟨other, hother, howns⟩ := hstands
  rcases List.mem_cons.mp hother with rfl | hother
  · obtain ⟨howns', rfl⟩ := howns.of_set hchain
    exact ⟨_, hle, state, List.mem_cons_self .., howns'⟩
  · exact ⟨n, Nat.le_refl _, other, List.mem_cons_of_mem _ hother, howns⟩

theorem leases_of_setFront {k : Nat} (hchain : state.senderChain = some chain)
    (hleases : SenderKeyRecord.Leases ⟨state.setSenderChainKey chain' :: states, lease⟩ c k) :
    SenderKeyRecord.Leases ⟨state :: states, lease⟩ c k := by
  obtain ⟨rfl, front, rest, n, hfront, howns⟩ := hleases
  cases hfront
  exact ⟨rfl, state, states, _, rfl, (howns.of_set hchain).1⟩

end SetFront

section FastForward

variable {ceiling : UInt32}

/-- What advancing the current chain does to a sound record and its positions. -/
theorem SenderKeyRecord.Sound.fastForward (h : record.Sound drawn)
    (hforward : record.fastForward C ceiling = .ok record') :
    record'.Sound drawn ∧ (∀ c n, record'.Stands c n → ∃ m ≤ n, record.Stands c m)
      ∧ ∀ c k, record'.Leases c k → record.Leases c k := by
  rcases SenderKeyRecord.fastForward_eq_ok hforward with
    ⟨rfl, -⟩ | ⟨state, states, chain, chain', hstates, hchain, rfl, hle, -⟩
  · exact ⟨h, fun c n hstands => ⟨n, Nat.le_refl _, hstands⟩, fun _ _ hleases => hleases⟩
  · obtain ⟨_, lease⟩ := record
    cases hstates
    exact ⟨h.setFront h.leased, fun _ _ => stands_of_setFront hchain hle,
      fun _ _ => leases_of_setFront hchain⟩

/-- A record that was advanced stands past its reservation. -/
theorem SenderKeyRecord.Sound.le_of_fastForward (h : record.Sound drawn)
    (hforward : record.fastForward C record.lease.ceiling = .ok record') {k m : Nat}
    (hleases : record.Leases c k) (hstands : record'.Stands c m) : k ≤ m := by
  have hsound := (h.fastForward hforward).1
  obtain ⟨rfl, front, rest, n, hfront, howns⟩ := hleases
  rcases SenderKeyRecord.fastForward_eq_ok hforward with
    ⟨-, hzero | hnone⟩ | ⟨state, states, chain, chain', hstates, hchain, rfl, -, hle⟩
  · rw [hzero]
    exact Nat.zero_le _
  · obtain ⟨chain, hchain, -⟩ := howns.stands
    rw [hnone front (by rw [hfront]; rfl)] at hchain
    cases hchain
  · rw [hfront] at hstates
    cases hstates
    have howns' := hsound.owns_front howns.chainId hstands
    rw [(howns'.of_set hchain).2]
    exact hle

/-- The record that is loaded from a row after a crash. -/
theorem deserialize_serializeInner_spec (h : record.Sound drawn)
    (hload : SenderKeyRecord.deserialize C (record.serializeInner incarnation) = .ok record') :
    record'.Sound drawn ∧ (∀ c n, record'.Stands c n → ∃ m ≤ n, record.Stands c m)
      ∧ (∀ c k m, record.Leases c k → record'.Stands c m → k ≤ m)
      ∧ (∀ c k m, record'.Leases c k → record'.Stands c m → k ≤ m) := by
  rw [SenderKeyRecord.deserialize_serializeInner] at hload
  have hsound : SenderKeyRecord.Sound drawn ⟨record.states.take MAX_SENDER_KEY_STATES,
    .fromPersistedCeiling record.lease.ceiling⟩ := h.take _ trivial
  obtain ⟨hsound', hforward, hkept⟩ := hsound.fastForward hload
  refine ⟨hsound', fun c n hstands => ?_, fun c k m hleases hstands => ?_,
    fun c k m hleases => hsound.le_of_fastForward hload (hkept c k hleases)⟩
  · obtain ⟨m, hm, state, hstate, howns⟩ := hforward c n hstands
    exact ⟨m, hm, state, List.mem_of_mem_take hstate, howns⟩
  · obtain ⟨rfl, state, states, n, hstates, howns⟩ := hleases
    refine hsound.le_of_fastForward hload ⟨rfl, state, states.take 4, n, ?_, howns⟩ hstands
    rw [hstates]
    rfl

end FastForward

/-- What an encryption does to the positions: the message has the next iteration
of the current chain, and the record is past it. -/
theorem encryptWithRecord_uses {codec : SenderKeyCodec} {plaintext csprng : Bytes}
    (hsound : record.Sound drawn)
    (h : encryptWithRecord C codec record plaintext csprng = .ok (skm, record')) :
    let c : GroupChain :=
      (skm.chainId, record.states.head?.bind (·.signingKeyPublic.toOption))
    record'.Sound drawn ∧ record.Stands c skm.iteration.toNat
      ∧ record.Leases c record.lease.ceiling.toNat
      ∧ (∀ m, record'.Stands c m → skm.iteration.toNat < m)
      ∧ (∀ c n, record'.Stands c n → ∃ m ≤ n, record.Stands c m)
      ∧ (∀ c k, record'.Leases c k → record'.lease = record.lease → record.Leases c k)
      ∧ record'.lease = record.lease.reserve skm.iteration := by
  obtain ⟨state, states, chain, key, next, ciphertext, privateKey, signature, hstates, hchain, hstep,
    -, hprivate, -, rfl, rfl⟩ := encryptWithRecord_eq_ok h
  obtain ⟨_, lease⟩ := record
  cases hstates
  obtain ⟨hiteration, hnext⟩ := SenderChainKey.stepWithMessageKey_eq_ok hstep
  intro c
  have hsound' : SenderKeyRecord.Sound drawn
      ⟨state.setSenderChainKey next :: states, lease.reserve key.iteration⟩ :=
    hsound.setFront (hsound.leased.reserve _)
  have howns : state.Owns c chain.iteration.toNat :=
    ⟨rfl, rfl, ⟨privateKey, hprivate⟩, chain, hchain, rfl⟩
  rw [hiteration] at hsound' ⊢
  refine ⟨hsound', ⟨state, List.mem_cons_self .., howns⟩, ⟨rfl, state, states, _, rfl, howns⟩,
    fun m hm => ?_, fun _ _ => stands_of_setFront hchain (hnext ▸ Nat.le_succ _),
    fun _ _ hk hlease => ?_, rfl⟩
  · rw [((hsound'.owns_front rfl hm).of_set hchain).2, hnext]
    exact Nat.lt_succ_self _
  · dsimp only at hk hlease
    rw [hlease] at hk
    exact leases_of_setFront hchain hk

/-- A record that learned a chain stands where it stood, and for the chain if it
got its private key; it has no reservation. -/
theorem addSenderKeyState_spec {chainId iteration : UInt32} {chainKey : Bytes}
    {signatureKey : PublicKey} {privateKey : Option PrivateKey} (hsound : record.Sound drawn)
    (h : record.addSenderKeyState chainId iteration chainKey signatureKey privateKey = .ok record')
    (hdrawn : privateKey ≠ none → (chainId, signatureKey) ∈ drawn) :
    record'.Sound drawn ∧ record'.lease.ceiling = 0
      ∧ ∀ c n, record'.Stands c n →
        record.Stands c n ∨ (privateKey ≠ none ∧ c = (chainId, some signatureKey)) := by
  obtain ⟨front, states, rfl, hrest, hid, hfront⟩ := SenderKeyRecord.addSenderKeyState_eq_ok h
  have hother : ∀ state ∈ states, state ∈ record.states ∧ state.chainId ≠ chainId := by
    intro state hstate
    simpa using hrest.subset hstate
  refine ⟨⟨?_, hsound.leased.clearReservation, ?_⟩, record.lease.ceiling_clearReservation, ?_⟩
  · refine List.pairwise_cons.mpr ⟨fun state hstate => ?_, ?_⟩
    · rw [hid]
      exact (hother state hstate).2.symm
    · exact hsound.distinct.sublist (hrest.trans List.filter_sublist)
  · refine List.forall_mem_cons.mpr ⟨?_, fun state hstate => hsound.keys state (hother state hstate).1⟩
    rcases hfront with hfront | hnew
    · exact hsound.keys front hfront
    · refine ⟨signatureKey, _, SenderKeyState.signedBy_of_new hnew, fun hne => ?_⟩
      rw [hid]
      exact hdrawn fun hnone => hne (by rw [hnone]; rfl)
  · rintro c n ⟨state, hstate, howns⟩
    rcases List.mem_cons.mp hstate with rfl | hstate
    · rcases hfront with hfront | hnew
      · exact .inl ⟨state, hfront, howns⟩
      · obtain ⟨hchain, hprivate⟩ := howns.of_signedBy (SenderKeyState.signedBy_of_new hnew)
        refine .inr ⟨fun hnone => hprivate (by rw [hnone]; rfl), ?_⟩
        rw [hchain, hid]
    · exact .inl ⟨state, (hother state hstate).1, howns⟩

theorem reimport_spec {components : List SenderKeyStateComponents} (hsound : record.Sound drawn)
    (hinto : record.intoComponents C = .ok components)
    (hfrom : SenderKeyRecord.fromComponents components = .ok record') :
    record'.Sound drawn ∧ record'.lease.ceiling = 0
      ∧ ∀ c n, record'.Stands c n → ∃ m ≤ n, record.Stands c m := by
  obtain ⟨forwarded, hforward, rfl⟩ := SenderKeyRecord.fromComponents_intoComponents
    (fun state hstate => by
      obtain ⟨publicKey, privateKey, hkey, -⟩ := hsound.keys state hstate
      exact ⟨publicKey, privateKey, hkey⟩) hinto hfrom
  obtain ⟨hsound', hstands, -⟩ := hsound.fastForward hforward
  refine ⟨hsound'.take _ trivial, rfl, fun c n hn => ?_⟩
  obtain ⟨state, hstate, howns⟩ := hn
  exact hstands c n ⟨state, List.mem_of_mem_take hstate, howns⟩

end Records

/-! ## The device in the abstract -/

/-- Where the record stands that was loaded. -/
def standsOf : Except SignalProtocolError (Option SenderKeyRecord) → Lease.Positions GroupChain
  | .ok (some record) => record.Stands
  | _ => fun _ _ => False

def leasesOf : Except SignalProtocolError (Option SenderKeyRecord) → Lease.Positions GroupChain
  | .ok (some record) => record.Leases
  | _ => fun _ _ => False

def Issued.use (issued : Issued) : Lease.Use GroupChain :=
  ⟨(issued.message.chainId, issued.signingKey), issued.message.iteration.toNat, issued.gatedStores⟩

/-- What is loaded from a row after a crash. -/
def SenderKeySnapshot.reload (C : Crypto) (snapshot : SenderKeySnapshot) :
    Except SignalProtocolError (Option SenderKeyRecord) :=
  match snapshot.row with
  | none => .ok none
  | some row => (SenderKeyRecord.deserialize C row).map some

def SenderKeySnapshot.image (C : Crypto) (snapshot : SenderKeySnapshot) : Lease.Image GroupChain :=
  ⟨standsOf (snapshot.reload C), snapshot.gatedStores⟩

/-- The device as one with leased counters. -/
def SenderKeyDevice.sys (C : Crypto) (d : SenderKeyDevice) : Lease.Sys GroupChain where
  current := standsOf (d.load C)
  leased := leasesOf (d.load C)
  raises := d.gatedStores
  durable := d.durable.image C
  staged := d.staged.map (·.image C)
  unsent := d.unsent.map Issued.use
  published := d.published.map Issued.use

theorem standsOf_iff {r : Except SignalProtocolError (Option SenderKeyRecord)} {c : GroupChain}
    {n : Nat} : standsOf r c n ↔ ∃ record, r = .ok (some record) ∧ record.Stands c n := by
  match r with
  | .ok (some record) => simp [standsOf]
  | .ok none => simp [standsOf]
  | .error e => simp [standsOf]

theorem leasesOf_iff {r : Except SignalProtocolError (Option SenderKeyRecord)} {c : GroupChain}
    {k : Nat} : leasesOf r c k ↔ ∃ record, r = .ok (some record) ∧ record.Leases c k := by
  match r with
  | .ok (some record) => simp [leasesOf]
  | .ok none => simp [leasesOf]
  | .error e => simp [leasesOf]

theorem map_some_eq_ok {α : Type} {r : Except SignalProtocolError α} {a : α} :
    r.map some = .ok (some a) ↔ r = .ok a := by
  cases r <;> simp [Except.map]

/-- What holds of the device at all times. -/
structure SenderKeyDevice.Sound (C : Crypto) (d : SenderKeyDevice) : Prop where
  cached : ∀ record, d.cached = some record → record.Sound d.drawn
  snapshots : ∀ snapshot, (snapshot = d.durable ∨ d.staged = some snapshot) →
    ∀ record, snapshot.reload C = .ok (some record) → record.Sound d.drawn
      ∧ ∀ c k n, record.Leases c k → record.Stands c n → k ≤ n
  issued : ∀ issued ∈ d.unsent ++ d.published, ∃ chain ∈ d.drawn,
    issued.use.chain = (chain.1, some chain.2)
  /-- Without a record in memory the row is the one that was found after a crash. -/
  cold : d.cached = none → d.staged = none ∧ d.load C = d.durable.reload C

section Device

variable {C : Crypto} {codec : SenderKeyCodec} {name : SenderKeyName} {d d' : SenderKeyDevice}

variable {record : SenderKeyRecord}

theorem SenderKeyDevice.Sound.load (h : d.Sound C) (hload : d.load C = .ok (some record)) :
    record.Sound d.drawn := by
  cases hcached : d.cached with
  | none =>
    rw [(h.cold hcached).2] at hload
    exact (h.snapshots _ (.inl rfl) record hload).1
  | some cached =>
    rw [SenderKeyDevice.load, hcached] at hload
    cases hload
    exact h.cached _ hcached

/-- A chain that was not drawn is fresh. -/
theorem SenderKeyDevice.Sound.fresh (h : d.Sound C) {chain : UInt32 × PublicKey}
    (hchain : chain ∉ d.drawn) : (d.sys C).Fresh (chain.1, some chain.2) := by
  have hne : ∀ {c : GroupChain}, (∃ chain ∈ d.drawn, c = (chain.1, some chain.2)) →
      c ≠ (chain.1, some chain.2) := by
    rintro _ ⟨other, hother, rfl⟩ heq
    rw [Prod.mk.injEq, Option.some.injEq] at heq
    have hsame : other = chain := Prod.ext heq.1 heq.2
    exact hchain (hsame ▸ hother)
  have hsnapshot : ∀ snapshot, (snapshot = d.durable ∨ d.staged = some snapshot) →
      ∀ n, ¬ (snapshot.image C).resumes (chain.1, some chain.2) n := by
    intro snapshot hsnapshot n hresumes
    obtain ⟨record, hrecord, hstands⟩ := standsOf_iff.mp hresumes
    exact hne ((h.snapshots snapshot hsnapshot record hrecord).1.mem_drawn hstands) rfl
  refine ⟨fun u hu => ?_, fun i hi => ?_⟩
  · rw [Lease.Sys.uses, SenderKeyDevice.sys, ← List.map_append] at hu
    obtain ⟨issued, hissued, rfl⟩ := List.mem_map.mp hu
    exact hne (h.issued issued hissued)
  · rcases hi with rfl | hi
    · exact hsnapshot _ (.inl rfl)
    · obtain ⟨snapshot, hstaged, rfl⟩ := Option.map_eq_some_iff.mp hi
      exact hsnapshot _ (.inr hstaged)

/-! ### What the calls do -/

open SenderKeyDevice (senderKeyStore)

theorem exec_loadSenderKey :
    ((senderKeyStore C).loadSenderKey name).exec d = (d.load C, d) := rfl

section Outcomes

open Eff

variable {P : SenderKeyDevice → Prop}

theorem meets_load (hd : P d) :
    Meets ((senderKeyStore C).loadSenderKey name) (· = d) (fun r s => d.load C = .ok r ∧ s = d)
      (fun _ => P) := by
  rintro s rfl
  rw [exec_loadSenderKey]
  cases s.load C with
  | ok r => exact ⟨rfl, rfl⟩
  | error e => exact hd

theorem meets_ofExcept_at {α : Type} (hd : P d) (r : Except SignalProtocolError α) :
    Meets (ofExcept r) (· = d) (fun a s => r = .ok a ∧ s = d) (fun _ => P) :=
  (meets_ofExcept r (· = d)).mono (fun _ h => h) (fun _ _ h => h) fun _ _ h => h ▸ hd

theorem meets_store (hstored : P (d.store record)) :
    Meets ((senderKeyStore C).storeSenderKey name record) (· = d) (fun _ => P) (fun _ => P) := by
  rintro s rfl
  exact hstored

theorem meets_groupEncrypt (plaintext csprng : Bytes) :
    Meets (groupEncrypt C codec (senderKeyStore C) name plaintext csprng) (· = d)
      (fun skm s => ∃ record record', d.load C = .ok (some record)
        ∧ encryptWithRecord C codec record plaintext csprng = .ok (skm, record')
        ∧ s = d.store record')
      (fun _ s => s = d) := by
  refine (meets_load (P := (· = d)) rfl).bind_and fun r hr => ?_
  cases r with
  | none => exact fun _ h => h
  | some record =>
    refine meets_ofExcept_bind fun result hresult => ?_
    rintro s rfl
    exact ⟨record, result.2, hr, hresult, rfl⟩

theorem createSkdm_snd (csprng : NewSenderKey) (hd : P d)
    (hstored : ∀ record', d.load C = .ok none → csprng.record = .ok record' →
      P (d.store record')) :
    P ((createSenderKeyDistributionMessage (senderKeyStore C) name csprng).exec d).2 := by
  refine Meets.exec_snd (P := (· = d)) ?_ rfl
  refine (meets_load hd).bind_and fun r hr => ?_
  cases r with
  | some record =>
    exact (meets_ofExcept_at hd _).mono (fun _ h => h) (fun _ _ h => h.2 ▸ hd) fun _ _ h => h
  | none =>
    refine (meets_ofExcept_at hd _).bind_and fun record' hrecord' => ?_
    refine (meets_ofExcept_at hd _).bind_and fun _ _ => ?_
    exact (meets_store (hstored record' hr hrecord')).bind fun _ _ h => h

end Outcomes

/-! ### The simulation -/

/-- The device is sound again, and the abstract one can follow. -/
def Follows (C : Crypto) (d d' : SenderKeyDevice) : Prop :=
  d'.Sound C ∧ Relation.ReflTransGen Lease.Step (d.sys C) (d'.sys C)

theorem Follows.refl (h : d.Sound C) : Follows C d d := ⟨h, .refl⟩

theorem SenderKeyDevice.Sound.store (h : d.Sound C) (hrecord : record.Sound d.drawn) :
    (d.store record).Sound C where
  cached := by
    rintro _ ⟨⟩
    exact hrecord
  snapshots := h.snapshots
  issued := h.issued
  cold := nofun

section Store

variable {record record' : SenderKeyRecord}

theorem sys_of_load (hload : d.load C = .ok (some record)) :
    (d.sys C).current = record.Stands ∧ (d.sys C).leased = record.Leases := by
  rw [SenderKeyDevice.sys, hload]
  exact ⟨rfl, rfl⟩

theorem gatedStores_store (d : SenderKeyDevice) (record : SenderKeyRecord) :
    (d.store record).gatedStores = d.gatedStores ∨ (d.store record).gatedStores = d.gatedStores + 1 := by
  rw [SenderKeyDevice.store]
  split
  · exact .inr rfl
  · exact .inl rfl

/-- A record that went forward is stored. -/
theorem Follows.store (h : d.Sound C) (hrecord : record.Sound d.drawn)
    (hmoves : (d.sys C).Moves record.Stands record.Leases) : Follows C d (d.store record) := by
  refine ⟨h.store hrecord, .head (.move _ _ _ hmoves) ?_⟩
  have hsys : (d.store record).sys C = { d.sys C with
      current := record.Stands, leased := record.Leases, raises := (d.store record).gatedStores } :=
    rfl
  rw [hsys]
  rcases gatedStores_store d record with hstores | hstores
  · rw [hstores]
    exact .refl
  · rw [hstores]
    exact .single (.raise _)

/-- A record without a reservation only has to have gone forward. -/
theorem moves_of_ceiling (hzero : record.lease.ceiling = 0)
    (hforward : ∀ c n, record.Stands c n → (∃ m ≤ n, (d.sys C).current c m) ∨ (d.sys C).Fresh c) :
    (d.sys C).Moves record.Stands record.Leases := by
  refine ⟨hforward, fun c n k _ hk hlt => ?_⟩
  rw [hk.1, hzero] at hlt
  exact absurd hlt (Nat.not_lt_zero n)

/-- The chain of a message that was encrypted is the current one. -/
theorem signingKey_of_load (hload : d.load C = .ok (some record)) :
    d.signingKey C = record.states.head?.bind (·.signingKeyPublic.toOption) := by
  rw [SenderKeyDevice.signingKey, hload]

theorem Follows.encrypt {plaintext csprng : Bytes} (h : d.Sound C)
    (hload : d.load C = .ok (some record))
    (hencrypt : encryptWithRecord C codec record plaintext csprng = .ok (skm, record')) :
    Follows C d { d.store record' with
      unsent := ⟨skm, d.signingKey C, (d.store record').gatedStores⟩ :: d.unsent } := by
  obtain ⟨hsound', hnext, hleased, hpast, hforward, hkept, hlease⟩ :=
    encryptWithRecord_uses (h.load hload) hencrypt
  rw [← signingKey_of_load hload] at hnext hleased hpast
  obtain ⟨hcurrent, hleases⟩ := sys_of_load hload
  have huses : (d.sys C).Uses (skm.chainId, d.signingKey C) skm.iteration.toNat record'.Stands :=
    ⟨hcurrent ▸ hnext, hpast, hcurrent ▸ hforward⟩
  refine ⟨?_, ?_⟩
  · have hstored := h.store hsound'
    refine ⟨hstored.cached, hstored.snapshots, ?_, hstored.cold⟩
    exact List.forall_mem_cons.mpr ⟨(h.load hload).mem_drawn hnext, h.issued⟩
  · have hsys : SenderKeyDevice.sys C { d.store record' with
        unsent := ⟨skm, d.signingKey C, (d.store record').gatedStores⟩ :: d.unsent }
        = { d.sys C with
            current := record'.Stands, leased := record'.Leases
            raises := (d.store record').gatedStores
            unsent := ⟨(skm.chainId, d.signingKey C), skm.iteration.toNat,
              (d.store record').gatedStores⟩ :: (d.sys C).unsent } := rfl
    rw [hsys]
    rcases (h.load hload).leased.reserve_cases skm.iteration with hgated | ⟨hbelow, hsame⟩
    · have hstores : (d.store record').gatedStores = d.gatedStores + 1 := by
        rw [SenderKeyDevice.store, SenderKeyRecord.isWireGated, hlease, hgated]
        rfl
      rw [hstores]
      exact .single (.useRaising _ _ _ _ _ huses)
    · -- below the ceiling the reservation stays as it is
      rw [hsame] at hlease
      have hkept' : ∀ c n k, record'.Stands c n → record'.Leases c k → n < k →
          ∃ l, (d.sys C).leased c l ∧ k ≤ l :=
        fun c n k _ hk _ => ⟨k, hleases ▸ hkept c k hk hlease, Nat.le_refl k⟩
      have hk : (d.sys C).leased (skm.chainId, d.signingKey C) record.lease.ceiling.toNat :=
        hleases ▸ hleased
      have hlt := UInt32.lt_iff_toNat_lt.mp hbelow
      rcases gatedStores_store d record' with hstores | hstores
      · rw [hstores]
        exact .single (.use _ _ _ _ _ _ huses hk hlt hkept')
      · rw [hstores]
        refine .head (.raise _) (.single ?_)
        exact .use { d.sys C with raises := d.gatedStores + 1 } _ _ _ _ _
          ⟨huses.next, huses.past, huses.forward⟩ hk hlt hkept'

end Store

theorem SenderKeyDevice.Sound.draw (h : d.Sound C) (chain : UInt32 × PublicKey) :
    SenderKeyDevice.Sound C { d with drawn := chain :: d.drawn } where
  cached record hrecord := (h.cached record hrecord).mono fun _ => List.mem_cons_of_mem chain
  snapshots snapshot hsnapshot record hrecord :=
    have hold := h.snapshots snapshot hsnapshot record hrecord
    ⟨hold.1.mono fun _ => List.mem_cons_of_mem chain, hold.2⟩
  issued issued hissued := by
    obtain ⟨other, hother, heq⟩ := h.issued issued hissued
    exact ⟨other, List.mem_cons_of_mem chain hother, heq⟩
  cold := h.cold

theorem newEmpty_sound (drawn : List (UInt32 × PublicKey)) :
    SenderKeyRecord.newEmpty.Sound drawn := ⟨.nil, trivial, nofun⟩

theorem Follows.create {csprng : NewSenderKey} (h : d.Sound C) (hdistinct : csprng.chain ∉ d.drawn) :
    Follows C d { ((createSenderKeyDistributionMessage (senderKeyStore C) name csprng).exec d).2 with
      drawn := csprng.chain :: d.drawn } := by
  refine createSkdm_snd (P := fun s => Follows C d { s with drawn := csprng.chain :: d.drawn }) csprng
    ⟨h.draw _, .refl⟩ fun record' hload hrecord' => ?_
  obtain ⟨hsound, hzero, hstands⟩ := addSenderKeyState_spec
    (newEmpty_sound (csprng.chain :: d.drawn)) hrecord' fun _ => List.mem_cons_self ..
  refine Follows.store (h.draw csprng.chain) hsound (moves_of_ceiling hzero fun c n hn => .inr ?_)
  rcases hstands c n hn with ⟨state, hstate, -⟩ | ⟨-, rfl⟩
  · cases hstate
  · exact h.fresh hdistinct

theorem Follows.process (h : d.Sound C) (skdm : SenderKeyDistributionMessage) :
    Follows C d ((processSenderKeyDistributionMessage (senderKeyStore C) name skdm).exec d).2 := by
  refine Eff.Meets.exec_snd (P := (· = d)) ?_ rfl
  refine (meets_load (.refl h)).bind_and fun r hload => ?_
  refine (meets_ofExcept_at (.refl h) _).bind_and fun record' hadd => ?_
  refine meets_store ?_
  have hr : (r.getD .newEmpty).Sound d.drawn := by
    cases r with
    | none => exact newEmpty_sound _
    | some record => exact h.load hload
  obtain ⟨hsound, hzero, hstands⟩ := addSenderKeyState_spec hr hadd fun hne => absurd rfl hne
  refine .store h hsound (moves_of_ceiling hzero fun c n hn => .inl ⟨n, Nat.le_refl n, ?_⟩)
  have hold := (hstands c n hn).resolve_right fun hnew => hnew.1 rfl
  cases r with
  | none =>
    obtain ⟨state, hstate, -⟩ := hold
    cases hstate
  | some record =>
    rw [(sys_of_load hload).1]
    exact hold

theorem load_of_cached (hcached : d.cached = some record) : d.load C = .ok (some record) := by
  rw [SenderKeyDevice.load, hcached]

theorem Follows.clearWireGated (h : d.Sound C) :
    Follows C d { d with cached := d.cached.map (·.clearWireGated) } := by
  obtain ⟨cached, incarnation, durable, staged, gatedStores, unsent, published, drawn⟩ := d
  cases cached with
  | none => exact .refl h
  | some record =>
    have hceiling : record.clearWireGated.lease.ceiling = record.lease.ceiling :=
      record.lease.ceiling_setPendingFlush false
    have hsound := h.cached record rfl
    refine ⟨⟨?_, h.snapshots, h.issued, nofun⟩, .single (.move _ record.Stands _ ?_)⟩
    · rintro _ ⟨⟩
      exact ⟨hsound.distinct, hsound.leased.setPendingFlush false, hsound.keys⟩
    · refine ⟨fun c n hn => .inl ⟨n, Nat.le_refl n, hn⟩, fun c n k _ hk _ => .inl ⟨k, ?_, Nat.le_refl k⟩⟩
      obtain ⟨hk, hfront⟩ := hk
      exact ⟨hceiling ▸ hk, hfront⟩

theorem Follows.serialize (h : d.Sound C) (hcached : d.cached = some record) :
    Follows C d { d with staged := some ⟨record.serializeInner incarnation, d.gatedStores⟩ } := by
  obtain ⟨hcurrent, hleased⟩ := sys_of_load (load_of_cached hcached)
  have hspec : ∀ record', SenderKeySnapshot.reload C
      ⟨record.serializeInner incarnation, d.gatedStores⟩ = .ok (some record') → _ :=
    fun record' hreload => deserialize_serializeInner_spec (h.cached record hcached)
      (map_some_eq_ok.mp hreload)
  refine ⟨⟨h.cached, ?_, h.issued, fun hnone => ?_⟩, .single (.stage _ _ ?_ ?_)⟩
  · rintro _ (rfl | hstaged) record' hreload
    · exact h.snapshots _ (.inl rfl) record' hreload
    · cases hstaged
      obtain ⟨hsound, -, -, hpast⟩ := hspec record' hreload
      exact ⟨hsound, hpast⟩
  · rw [hcached] at hnone
    cases hnone
  · intro c n hn
    obtain ⟨record', hreload, hstands⟩ := standsOf_iff.mp hn
    rw [hcurrent]
    exact (hspec record' hreload).2.1 c n hstands
  · intro c n k m _ hk _ hm
    obtain ⟨record', hreload, hstands⟩ := standsOf_iff.mp hm
    rw [hleased] at hk
    exact (hspec record' hreload).2.2.1 c k m hk hstands

theorem Follows.written {snapshot : SenderKeySnapshot} (h : d.Sound C)
    (hstaged : d.staged = some snapshot) :
    Follows C d { d with durable := snapshot, staged := none } := by
  obtain ⟨cached, incarnation, durable, staged, gatedStores, unsent, published, drawn⟩ := d
  cases hstaged
  cases cached with
  | none => cases (h.cold rfl).1
  | some record =>
    refine ⟨⟨h.cached, ?_, h.issued, nofun⟩, .single (.commit _ (snapshot.image C) rfl)⟩
    rintro _ (rfl | hnone)
    · exact h.snapshots _ (.inr rfl)
    · cases hnone

/-- A crash that finds a row of another incarnation reloads it. -/
theorem load_crash
    (hrow : ∀ row, d.durable.row = some row → incarnation = none ∨ row.incarnation ≠ incarnation) :
    (d.crash incarnation).load C = d.durable.reload C := by
  obtain ⟨cached, _, ⟨row, rowStores⟩, staged, gatedStores, unsent, published, drawn⟩ := d
  cases row with
  | none => rfl
  | some row =>
    exact congrArg (Except.map some) (SenderKeyRecord.deserializeInner_of_ne (hrow row rfl))

theorem Follows.crash (h : d.Sound C)
    (hrow : ∀ row, d.durable.row = some row → incarnation = none ∨ row.incarnation ≠ incarnation) :
    Follows C d (d.crash incarnation) := by
  have hload := load_crash (C := C) hrow
  have hsys : (d.crash incarnation).sys C = { d.sys C with
      current := standsOf (d.durable.reload C), leased := leasesOf (d.durable.reload C)
      raises := (d.sys C).durable.raises, staged := none, unsent := [] } := by
    rw [SenderKeyDevice.sys, hload]
    rfl
  refine ⟨⟨nofun, ?_, fun issued hissued => h.issued issued (List.mem_append_right _ hissued),
    fun _ => ⟨rfl, hload⟩⟩, ?_⟩
  · rintro _ (rfl | hnone)
    · exact h.snapshots _ (.inl rfl)
    · cases hnone
  · rw [hsys]
    refine .single (.crash _ _ _ (fun c n hn => ⟨n, Nat.le_refl n, hn⟩) fun c n k hn hk => ?_)
    obtain ⟨record, hreload, hstands⟩ := standsOf_iff.mp hn
    obtain ⟨record', hreload', hleases⟩ := leasesOf_iff.mp hk
    rw [hreload] at hreload'
    cases hreload'
    exact (h.snapshots _ (.inl rfl) record hreload).2 c k n hleases hstands

/-- Every step of the device is followed. -/
theorem GroupStep.follows (h : d.Sound C) (hsafe : Lease.Safe (d.sys C))
    (hstep : GroupStep C codec name d d') : Follows C d d' := by
  cases hstep with
  | encrypt d' plaintext csprng skm hexec =>
    obtain ⟨record, record', hload, hencrypt, rfl⟩ :=
      (meets_groupEncrypt plaintext csprng).of_ok hexec rfl
    exact .encrypt h hload hencrypt
  | encryptFails d' plaintext csprng e hexec =>
    obtain rfl : d' = d := (meets_groupEncrypt plaintext csprng).of_error hexec rfl
    exact .refl h
  | create csprng hdistinct => exact .create h hdistinct
  | process skdm => exact .process h skdm
  | reimport =>
    refine Eff.Meets.exec_snd (P := (· = d)) ?_ rfl
    refine (meets_load (.refl h)).bind_and fun r hload => ?_
    cases r with
    | none =>
      rintro _ rfl
      exact .refl h
    | some record =>
      refine (meets_ofExcept_at (.refl h) _).bind_and fun components hinto => ?_
      refine (meets_ofExcept_at (.refl h) _).bind_and fun record' hfrom => meets_store ?_
      obtain ⟨hsound, hzero, hforward⟩ := reimport_spec (h.load hload) hinto hfrom
      refine .store h hsound (moves_of_ceiling hzero fun c n hn => .inl ?_)
      rw [(sys_of_load hload).1]
      exact hforward c n hn
  | clearWireGated => exact .clearWireGated h
  | serialize record incarnation hcached => exact .serialize h hcached
  | written snapshot hstaged => exact .written h hstaged
  | notWritten =>
    refine ⟨⟨h.cached, ?_, h.issued, fun hnone => ⟨rfl, (h.cold hnone).2⟩⟩, .single (.abort _)⟩
    rintro _ (rfl | hnone)
    · exact h.snapshots _ (.inl rfl)
    · cases hnone
  | publish before after issued hunsent hungated =>
    have hmem : ∀ other ∈ before ++ after ++ issued :: d.published,
        other ∈ d.unsent ++ d.published := by
      intro other hother
      rw [hunsent]
      simp only [List.mem_append, List.mem_cons] at hother ⊢
      tauto
    have hunsent' : (d.sys C).unsent
        = before.map Issued.use ++ issued.use :: after.map Issued.use := by
      rw [SenderKeyDevice.sys, hunsent, List.map_append, List.map_cons]
    have hready : issued.use.raises ≤ (d.sys C).durable.raises := by
      refine Nat.le_trans (hsafe.use_le issued.use ?_) (Nat.le_of_eq hungated)
      rw [Lease.Sys.uses, hunsent']
      simp
    refine ⟨⟨h.cached, h.snapshots, fun other hother => h.issued other (hmem other hother), h.cold⟩, ?_⟩
    have hstep := Lease.Step.publish (d.sys C) _ _ _ hunsent' hready
    rw [← List.map_append] at hstep
    exact .single hstep
  | crash incarnation hrow => exact .crash h hrow

/-- Along a run the device is sound and the abstract one safe. -/
theorem GroupRun.safe (h : GroupRun C codec name d) : d.Sound C ∧ Lease.Safe (d.sys C) := by
  induction h with
  | refl =>
    refine ⟨⟨nofun, ?_, nofun, fun _ => ⟨rfl, rfl⟩⟩, .start nofun⟩
    rintro _ (rfl | hnone)
    · nofun
    · cases hnone
  | tail _ hstep ih =>
    obtain ⟨hsound, hsteps⟩ := hstep.follows ih.1 ih.2
    exact ⟨hsound, ih.2.run hsteps⟩

/-- In no run from an empty store, with crashes at any moment, two messages are
published that have the same chain id, signing key and iteration. -/
theorem group_iterations_distinct (h : GroupRun C codec name d) :
    (d.published.map fun issued =>
      (issued.message.chainId, issued.signingKey, issued.message.iteration)).Nodup := by
  have hdistinct := h.safe.2.published_nodup
  rw [SenderKeyDevice.sys, List.map_map] at hdistinct
  refine List.Nodup.of_map (fun (id, key, iteration) => ((id, key), iteration.toNat)) ?_
  rw [List.map_map]
  exact hdistinct

end Device

/-- A device that sends, writes, sends again without a write, crashes and sends
once more, with the iterations it publishes. -/
theorem group_iterations_across_crash :
    ∃ d : SenderKeyDevice, GroupRun .transparent .words ⟨"group", "sender"⟩ d
      ∧ d.published.map (·.message.iteration) = [64, 1, 0]
      ∧ (d.published.map fun issued =>
        (issued.message.chainId, issued.signingKey, issued.message.iteration)).Nodup := by
  have created : GroupRun .transparent .words ⟨"group", "sender"⟩ _ := .tail .refl
    (.create _ ⟨2, .replicate 32 0, ⟨⟨.replicate 32 9⟩, ⟨.replicate 32 0⟩⟩⟩ nofun)
  have first := (created.tail (.encrypt _ _ [1] [] _ rfl)).tail (.clearWireGated _)
  have written := (first.tail (.serialize _ _ none rfl)).tail (.written _ _ rfl)
  have published := written.tail (.publish _ [] [] _ rfl rfl)
  -- the second message is below the ceiling and needs no write
  have second := (published.tail (.encrypt _ _ [2] [] _ rfl)).tail (.publish _ [] [] _ rfl rfl)
  have crashed := second.tail (.crash _ none fun _ _ => .inl rfl)
  have third := (crashed.tail (.encrypt _ _ [3] [] _ rfl)).tail (.serialize _ _ none rfl)
  have last := (third.tail (.written _ _ rfl)).tail (.publish _ [] [] _ rfl rfl)
  exact ⟨_, last, by decide +kernel, group_iterations_distinct last⟩

end WaCore.Signal
