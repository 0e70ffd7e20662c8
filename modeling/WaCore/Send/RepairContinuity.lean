import WaCore.Send.DmRouting
import WaCore.Send.GroupRepair

/-!
# Who gets a repaired message

The devices that a repair writes to were not addressed by the send, and belong to
accounts that were.  None of these accounts has changed, under any of its names,
between the snapshot of the send and the last question about it.

A name is looked up some awaits before the journals are asked, and may be another
by then.  But a change of names is in the journal under the name that changes, so
that an answer of yes vouches for the lookups as well.
-/

namespace WaCore.Send

open Binary (Jid Node NodeValue NodeContent)
open Store (MutationHistory LidPnCache)

/-! ## Devices that were missed -/

/-- A device that was not addressed, of an account that was. -/
def Missed (addressed : List Jid) (jid : Jid) : Prop :=
  (∀ device ∈ addressed, device.same jid = false)
    ∧ ∃ device ∈ addressed, sameAccount device jid = true

theorem missed_of_mem_groupDelta {old fresh : List Jid} {jid : Jid}
    (h : jid ∈ groupDelta old fresh) : Missed old jid := by
  obtain ⟨haccount, hnew⟩ := Bool.and_eq_true _ _ ▸ (List.mem_filter.mp h).2
  refine ⟨fun device hdevice => ?_, List.any_eq_true.mp haccount⟩
  have hnone := List.any_eq_false.mp (Bool.not_eq_true' _ ▸ hnew) device hdevice
  exact Bool.eq_false_iff.mpr hnone

/-- A node for a device that was missed. -/
def NodeFor (addressed : List Jid) (node : Node) : Prop :=
  ∃ jid, node.optionalJid "jid" = some jid ∧ Missed addressed jid

/-- The nodes under `participants`. -/
def participantsOf (stanza : Node) : List Node :=
  ((children stanza).filter (·.tag = "participants")).flatMap children

theorem participantsOf_stanza {codec : MessageCodec} (facts : RepairFacts codec) (r : RepairCall)
    (draft : Draft codec) (identity : Option Bytes) (permitted : List Node) :
    participantsOf (r.stanza facts draft identity permitted) = permitted := by
  cases identity <;> simp [participantsOf, RepairCall.stanza, children]

/-- The nodes of a fan-out are for its devices. -/
theorem mem_encryptForDevicesInto {env : FanoutEnv} {devices : List Jid} {plaintext : Bytes}
    {hide : Bool} {mediatype : Option String} {nodes nodes' : List Node}
    {addresses : Option (List Jid)} {calls : List EncryptCall} {summary : EncryptFanoutSummary}
    (h : (Eff.exec (encryptForDevicesInto env devices plaintext hide mediatype nodes addresses)
      calls).1 = .ok (summary, nodes')) :
    ∀ node ∈ nodes', node ∈ nodes ∨ ∃ jid ∈ devices, node.optionalJid "jid" = some jid := by
  intro node hnode
  rw [encryptForDevicesInto] at h
  cases hplan : env.plan devices addresses with
  | error e =>
    rw [hplan] at h
    cases h
  | ok plan =>
    have hensured : Eff.exec (Eff.ofExcept ((env.plan devices addresses).mapError SendError.other))
        calls = (.ok plan, calls) := by
      rw [hplan]
      rfl
    obtain ⟨raw, called, sent, hexec, hcalled, hsent, hraw⟩ :=
      exec_encryptForDevicesRaw env devices plaintext plan calls
    have hsub := subperm_encryptedFor plaintext hcalled hsent
    rw [← hraw] at hsub
    rw [Eff.exec_bind_ok hensured, Eff.exec_bind_ok hexec] at h
    cases h
    rcases List.mem_append.mp hnode with hnode | hnode
    · exact .inl hnode
    · obtain ⟨one, hone, rfl⟩ := List.mem_map.mp hnode
      exact .inr ⟨one.deviceJid, hsub.subset (List.mem_map_of_mem hone), rfl⟩

/-! ## Names and changes since the snapshot -/

/-- A name that the cache holds for a user. -/
def HoldsAlias (c : LidPnCache) (user name : String) : Prop :=
  c.getPhoneNumber user = some name ∨ c.getCurrentLid user = some name

variable (userFingerprint : String → UInt64)

/-- No mutation of identities and no change of names that was in progress at the first
moment or has started until the second touches the user, or a name that the cache
holds for it in between. -/
def Undisturbed (captured filtered : Client) (user : String) : Prop :=
  ∀ name, (name = user ∨ ∃ c, LidPnCache.Steps userFingerprint captured.lidPn c
      ∧ LidPnCache.Steps userFingerprint c filtered.lidPn ∧ HoldsAlias c user name) →
    ¬ captured.signal.Touched filtered.signal name
      ∧ ¬ captured.lidPn.changes.Touched filtered.lidPn.changes name

/-- What a client has become over time. -/
structure Client.Ok (client : Client) : Prop where
  signal : MutationHistory.Reachable userFingerprint client.signal
  lidPn : ∃ config, LidPnCache.Steps userFingerprint (.withConfig config) client.lidPn

/-- One moment of a client and a later one. -/
structure Since (captured client : Client) : Prop where
  start_ok : captured.Ok userFingerprint
  signal : Relation.ReflTransGen (MutationHistory.Step userFingerprint) captured.signal client.signal
  lidPn : LidPnCache.Steps userFingerprint captured.lidPn client.lidPn

variable {userFingerprint} {captured client : Client} {user : String}

/-- The journal of names vouches for something only if nothing but writers changes
the maps. -/
theorem Client.Ok.keepsAll_of_snapshot (hok : captured.Ok userFingerprint) {since : Nat}
    (hsnapshot : captured.lidPn.changes.continuity.snapshot = some since) :
    captured.lidPn.Ok ∧ captured.lidPn.config.keepsAll = true
      ∧ MutationHistory.Reachable userFingerprint captured.lidPn.changes := by
  obtain ⟨config, hsteps⟩ := hok.lidPn
  obtain ⟨hcache, hconfig, hchanges⟩ := LidPnCache.Steps.ok hsteps (LidPnCache.ok_withConfig config)
  rw [hconfig]
  cases hkeeps : config.keepsAll with
  | true =>
    rw [LidPnCache.withConfig, hkeeps] at hchanges
    exact ⟨hcache, hkeeps, .inl hchanges⟩
  | false =>
    rw [LidPnCache.withConfig, hkeeps] at hchanges
    have hgeneration := MutationHistory.generation_of_unavailable hchanges
    rw [Store.IdentityContinuity.snapshot, if_pos hgeneration, ite_self] at hsnapshot
    cases hsnapshot

theorem Client.Ok.cache (hok : captured.Ok userFingerprint) : captured.lidPn.Ok := by
  obtain ⟨config, hsteps⟩ := hok.lidPn
  exact (LidPnCache.Steps.ok hsteps (LidPnCache.ok_withConfig config)).1

/-- The names are those that the cache held at the snapshot, unless the user has been
touched. -/
def NamesAt (captured client : Client) (user : String) (pn lid : Option String) : Prop :=
  captured.lidPn.config.keepsAll = true →
    (pn = captured.lidPn.getPhoneNumber user ∧ lid = captured.lidPn.getCurrentLid user)
      ∨ captured.lidPn.changes.Touched client.lidPn.changes user

variable {pn lid : Option String}

theorem mem_names (user : String) (pn lid : Option String) :
    user ∈ [some user, pn, lid].reduceOption
      ∧ (∀ name, pn = some name → name ∈ [some user, pn, lid].reduceOption)
      ∧ ∀ name, lid = some name → name ∈ [some user, pn, lid].reduceOption := by
  refine ⟨?_, ?_, ?_⟩
  · simp [List.reduceOption_mem_iff]
  · rintro name rfl
    simp [List.reduceOption_mem_iff]
  · rintro name rfl
    simp [List.reduceOption_mem_iff]

/-- An answer of yes, with the names of the moment of the snapshot unless they have
changed. -/
theorem Since.undisturbed (hsince : Since userFingerprint captured client)
    (hyes : UnchangedFor.answer userFingerprint (.capture captured) client user pn lid = true)
    (hnames : NamesAt captured client user pn lid) :
    Undisturbed userFingerprint captured client user := by
  obtain ⟨hsignal, haliases⟩ := Bool.and_eq_true _ _ ▸ hyes
  obtain ⟨since, hsnapshot⟩ := MutationHistory.exists_snapshot_of_unchangedFor haliases
  obtain ⟨hok, hkeeps, hreach⟩ := hsince.start_ok.keepsAll_of_snapshot hsnapshot
  have hchanges := (LidPnCache.Steps.ok hsince.lidPn hok).2.2
  have hsignal := hsince.start_ok.signal.not_touched hsince.signal hsignal
  have haliases := hreach.not_touched hchanges haliases
  obtain ⟨huser, hpn, hlid⟩ := mem_names user pn lid
  obtain ⟨hpn_eq, hlid_eq⟩ := (hnames hkeeps).resolve_right (haliases user huser)
  have hmem : ∀ name, (name = user ∨ ∃ c, LidPnCache.Steps userFingerprint captured.lidPn c
      ∧ LidPnCache.Steps userFingerprint c client.lidPn ∧ HoldsAlias c user name) →
      name ∈ [some user, pn, lid].reduceOption := by
    rintro name (rfl | ⟨c, hbefore, hafter, halias⟩)
    · exact huser
    · -- the names at `c` are those of the snapshot: a change would still be known
      obtain ⟨hok', -, -⟩ := LidPnCache.Steps.ok hbefore hok
      have hlater := (LidPnCache.Steps.ok hafter hok').2.2
      obtain ⟨hsamePn, hsameLid⟩ := (LidPnCache.Steps.sameNames hbefore hok hkeeps user).resolve_right
        fun htouched => haliases user huser (htouched.later hlater)
      rcases halias with halias | halias
      · exact hpn name (hpn_eq.trans (hsamePn.symm.trans halias))
      · exact hlid name (hlid_eq.trans (hsameLid.symm.trans halias))
  exact fun name hname => ⟨hsignal name (hmem name hname), haliases name (hmem name hname)⟩

/-- A lookup finds what the cache held at the snapshot, unless the user has been
touched. -/
theorem Since.lookup (hsince : Since userFingerprint captured client)
    (hkeeps : captured.lidPn.config.keepsAll = true) (user : String) :
    LidPnCache.SameNames captured.lidPn client.lidPn user
      ∨ captured.lidPn.changes.Touched client.lidPn.changes user :=
  LidPnCache.Steps.sameNames hsince.lidPn hsince.start_ok.cache hkeeps user

/-! ## A question with its lookups -/

namespace UnchangedFor

/-- The user that a question is about. -/
def subject : UnchangedFor → String
  | phoneNumber user | currentLid user _ | reverseLid user _ _ | reversePn user _ _ => user

/-- What has been looked up is what the cache held at the snapshot. -/
def ReadAt (c : LidPnCache) : UnchangedFor → Prop
  | phoneNumber _ => True
  | currentLid user pn => pn = c.getPhoneNumber user
  | reverseLid user pn lid => some pn = c.getPhoneNumber user ∧ lid = c.getCurrentLid user
  | reversePn user pn lid => pn = c.getPhoneNumber user ∧ some lid = c.getCurrentLid user

/-- It is so, unless the user has been touched. -/
def Faithful (captured client : Client) (call : UnchangedFor) : Prop :=
  captured.lidPn.config.keepsAll = true →
    call.ReadAt captured.lidPn ∨ captured.lidPn.changes.Touched client.lidPn.changes call.subject

theorem faithful_phoneNumber (captured client : Client) (user : String) :
    Faithful captured client (.phoneNumber user) :=
  fun _ => .inl trivial

theorem Faithful.later {call : UnchangedFor} {client' : Client}
    (h : Faithful captured client call)
    (hsteps : Relation.ReflTransGen (MutationHistory.Step userFingerprint) client.lidPn.changes
      client'.lidPn.changes) : Faithful captured client' call :=
  fun hkeeps => (h hkeeps).imp_right fun htouched => htouched.later hsteps

/-- What a question comes to: another lookup, or an answer. -/
def PollOk (userFingerprint : String → UInt64) (captured client : Client) (user : String) :
    Poll → Prop
  | .pending call => call.subject = user ∧ Faithful captured client call
  | .ready true => Undisturbed userFingerprint captured client user
  | .ready false => True

section Polls

variable (hsince : Since userFingerprint captured client)
include hsince

theorem pollOk_ready (hread : NamesAt captured client user pn lid) :
    PollOk userFingerprint captured client user
      (.ready (answer userFingerprint (.capture captured) client user pn lid)) := by
  cases hanswer : answer userFingerprint (.capture captured) client user pn lid with
  | false => trivial
  | true => exact hsince.undisturbed hanswer hread

theorem pollOk_afterPn (hread : NamesAt captured client user pn lid) :
    PollOk userFingerprint captured client user
      (afterPn userFingerprint (.capture captured) client user pn lid) := by
  cases lid with
  | some lid => exact ⟨rfl, hread⟩
  | none => exact pollOk_ready hsince hread

theorem pollOk_poll {call : UnchangedFor} (h : Faithful captured client call) :
    PollOk userFingerprint captured client call.subject
      (call.poll userFingerprint (.capture captured) client) := by
  cases call with
  | phoneNumber user =>
    exact ⟨rfl, fun hkeeps => (hsince.lookup hkeeps user).imp_left And.left⟩
  | currentLid user pn =>
    have hread : NamesAt captured client user pn (client.lidPn.getCurrentLid user) := by
      intro hkeeps
      rcases h hkeeps with hpn | htouched
      · exact (hsince.lookup hkeeps user).imp_left fun hsame => ⟨hpn, hsame.2⟩
      · exact .inr htouched
    cases pn with
    | some pn => exact ⟨rfl, hread⟩
    | none => exact pollOk_afterPn hsince hread
  | reverseLid user pn lid =>
    rw [poll]
    split
    · trivial
    · exact pollOk_afterPn hsince h
  | reversePn user pn lid =>
    rw [poll]
    split
    · trivial
    · exact pollOk_ready hsince h

end Polls

end UnchangedFor

/-! ## What a repair has in hand -/

namespace Stage

variable {codec : MessageCodec}

/-- The devices of the targets of some halves. -/
def halfTargets (later : List Half) : List Jid := later.flatMap fun half => half.targets.map (·.1)

/-- The devices that may still get a node. -/
def targets : Stage codec → List Jid
  | recalling _ _ delta => delta
  | addressing draft | ensuring draft _ | locking draft _ => draft.devices.partitioned.devices
  | selecting _ s =>
    s.target :: s.pending.map (·.1) ++ s.eligible.map (·.1) ++ halfTargets s.later
  | encrypting _ e => e.eligible.map (·.1) ++ halfTargets e.later
  | _ => []

/-- The nodes that may still be permitted. -/
def nodes : Stage codec → List Node
  | selecting _ s => s.encrypted.participants
  | encrypting _ e => e.encrypted.participants
  | persisting _ encrypted => encrypted.participants
  | filtering _ f => f.participant :: f.pending
  | _ => []

/-- The nodes that are permitted. -/
def permitted : Stage codec → List Node
  | filtering _ f => f.permitted
  | sent stanza => participantsOf stanza
  | _ => []

/-- The question of the last filter, with the node it is about. -/
def question : Stage codec → Option (Node × UnchangedFor)
  | filtering _ f => some (f.participant, f.call)
  | _ => none

/-- Devices and nodes are of the missed ones, and each node that is permitted has
passed the last filter. -/
structure Ok (addressed : List Jid) (filtered : List Node) (captured client : Client)
    (stage : Stage codec) : Prop where
  targets : ∀ jid ∈ stage.targets, Missed addressed jid
  nodes : ∀ node ∈ stage.nodes, NodeFor addressed node
  permitted : ∀ node ∈ stage.permitted, NodeFor addressed node ∧ node ∈ filtered
  question : ∀ node call, stage.question = some (node, call) →
    (∃ jid, node.optionalJid "jid" = some jid ∧ call.subject = jid.user)
      ∧ call.Faithful captured client

variable {addressed : List Jid} {filtered : List Node}

theorem ok_over : Ok addressed filtered captured client (.over : Stage codec) :=
  ⟨nofun, nofun, nofun, nofun⟩

/-- A stage before the last filter. -/
theorem ok_of_early {stage : Stage codec} (hpermitted : stage.permitted = [])
    (hquestion : stage.question = none) (htargets : ∀ jid ∈ stage.targets, Missed addressed jid)
    (hnodes : ∀ node ∈ stage.nodes, NodeFor addressed node) :
    Ok addressed filtered captured client stage where
  targets := htargets
  nodes := hnodes
  permitted node hnode := by
    rw [hpermitted] at hnode
    cases hnode
  question node call h := by
    rw [hquestion] at h
    cases h

theorem ok_nextHalf (draft : Draft codec) {later : List Half} {encrypted : Encrypted}
    (htargets : ∀ jid ∈ halfTargets later, Missed addressed jid)
    (hnodes : ∀ node ∈ encrypted.participants, NodeFor addressed node) :
    Ok addressed filtered captured client (RepairCall.nextHalf draft later encrypted) := by
  induction later with
  | nil =>
    rw [RepairCall.nextHalf, RepairCall.afterHalves]
    split
    · exact ok_over
    · split
      · exact ok_over
      · exact ok_of_early rfl rfl nofun hnodes
  | cons half later ih =>
    rw [halfTargets, List.flatMap_cons, List.forall_mem_append] at htargets
    rw [RepairCall.nextHalf]
    split
    · exact ih htargets.2
    · rename_i target address pending hpairs
      rw [hpairs] at htargets
      refine ok_of_early rfl rfl (fun jid hjid => ?_) hnodes
      rcases List.mem_append.mp hjid with hjid | hjid
      · rw [List.map_nil, List.append_nil] at hjid
        exact htargets.1 jid hjid
      · exact htargets.2 jid hjid

theorem ok_nextTarget (draft : Draft codec) {s : Selecting} {eligible : List (Jid × Jid)}
    (hpending : ∀ pair ∈ s.pending, Missed addressed pair.1)
    (heligible : ∀ pair ∈ eligible, Missed addressed pair.1)
    (hlater : ∀ jid ∈ halfTargets s.later, Missed addressed jid)
    (hnodes : ∀ node ∈ s.encrypted.participants, NodeFor addressed node) :
    Ok addressed filtered captured client (RepairCall.nextTarget draft s eligible) := by
  have heligible : ∀ jid ∈ eligible.map (·.1), Missed addressed jid :=
    List.forall_mem_map.mpr heligible
  rw [RepairCall.nextTarget]
  split
  · rename_i target address pending hpairs
    rw [hpairs] at hpending
    have hpending := List.forall_mem_map.mpr hpending
    exact ok_of_early rfl rfl
      (List.forall_mem_append.mpr ⟨List.forall_mem_append.mpr ⟨hpending, heligible⟩, hlater⟩) hnodes
  · split
    · exact ok_nextHalf draft hlater hnodes
    · exact ok_of_early rfl rfl (List.forall_mem_append.mpr ⟨heligible, hlater⟩) hnodes

variable {facts : RepairFacts codec} {r : RepairCall}

theorem ok_publish (draft : Draft codec) (prekey : Bool) {nodes : List Node}
    (hpermitted : ∀ node ∈ nodes, NodeFor addressed node ∧ node ∈ filtered) :
    Ok addressed filtered captured client (r.publish facts client draft prekey nodes) := by
  rw [RepairCall.publish]
  split
  · exact ok_over
  · split
    · exact ok_over
    · split
      · exact ok_over
      · split
        · refine ⟨nofun, nofun, ?_, nofun⟩
          rw [Stage.permitted, participantsOf_stanza]
          exact hpermitted
        · exact ok_over

theorem ok_nextParticipant (draft : Draft codec) (prekey : Bool) {pending nodes : List Node}
    (hpending : ∀ node ∈ pending, NodeFor addressed node)
    (hpermitted : ∀ node ∈ nodes, NodeFor addressed node ∧ node ∈ filtered) :
    Ok addressed filtered captured client
      (r.nextParticipant facts client draft prekey pending nodes) := by
  induction pending with
  | nil => exact ok_publish draft prekey hpermitted
  | cons participant pending ih =>
    rw [List.forall_mem_cons] at hpending
    rw [RepairCall.nextParticipant]
    split
    · rename_i jid hjid
      refine ⟨nofun, List.forall_mem_cons.mpr hpending, hpermitted, ?_⟩
      rintro _ _ ⟨⟩
      exact ⟨⟨jid, hjid, rfl⟩, UnchangedFor.faithful_phoneNumber _ _ _⟩
    · exact ih hpending.2

/-- The devices of a draft are those of the delta. -/
theorem mem_new_devices {delta : List Jid} {ownPn : Jid} {ownLid : Option Jid} {jid : Jid}
    (h : jid ∈ (ResolvedDmDevices.new delta ownPn ownLid).partitioned.devices) : jid ∈ delta :=
  List.mem_of_mem_filter ((partitioned_dmDevices delta ownPn ownLid).perm.mem_iff.mp h)

/-- The targets of the two halves are devices of the draft. -/
theorem mem_halfTargets {p : PartitionedDmDevices} {addresses addresses' : List Jid}
    {plaintext plaintext' : Bytes} {jid : Jid}
    (h : jid ∈ halfTargets [⟨plaintext, p.recipientDevices.zip addresses⟩,
      ⟨plaintext', p.ownOtherDevices.zip addresses'⟩]) : jid ∈ p.devices := by
  obtain ⟨half, hhalf, hjid⟩ := List.mem_flatMap.mp h
  obtain ⟨⟨target, address⟩, hpair, rfl⟩ := List.mem_map.mp hjid
  rcases List.mem_pair.mp hhalf with rfl | rfl
  · exact List.mem_of_mem_take (List.of_mem_zip hpair).1
  · exact List.mem_of_mem_drop (List.of_mem_zip hpair).1

end Stage

namespace RepairCall

variable {codec : MessageCodec} {facts : RepairFacts codec} {r : RepairCall}
  {filtered permitted : List Node} {stage stage' : Stage codec}

open Stage in
theorem ok_pollSelecting {draft : Draft codec} {s : Selecting}
    (hok : (Stage.selecting draft s).Ok r.sent.devices filtered captured client) :
    (r.pollSelecting userFingerprint client draft s).Ok r.sent.devices filtered captured client := by
  have htargets := hok.targets
  rw [Stage.targets, List.forall_mem_append, List.forall_mem_append, List.forall_mem_cons,
    List.forall_mem_map, List.forall_mem_map] at htargets
  obtain ⟨⟨⟨htarget, hpending⟩, heligible⟩, hlater⟩ := htargets
  rw [pollSelecting]
  split
  · exact ok_of_early rfl rfl hok.targets hok.nodes
  · exact ok_nextTarget draft hpending heligible hlater hok.nodes
  · split
    · refine ok_nextTarget draft hpending ?_ hlater hok.nodes
      exact List.forall_mem_append.mpr ⟨heligible, List.forall_mem_singleton.mpr htarget⟩
    · exact ok_of_early rfl rfl hok.targets hok.nodes

open Stage in
theorem ok_afterEncrypt {draft : Draft codec} {e : Encrypting} {env : FanoutEnv}
    {calls : List EncryptCall}
    (hok : (Stage.encrypting draft e).Ok r.sent.devices filtered captured client) :
    (afterEncrypt draft e (Eff.exec (encryptHalf facts env draft e) calls).1).Ok r.sent.devices
      filtered captured client := by
  obtain ⟨heligible, hlater⟩ := List.forall_mem_append.mp hok.targets
  cases hresult : (Eff.exec (encryptHalf facts env draft e) calls).1 with
  | error error => exact ok_over
  | ok result =>
    refine ok_nextHalf draft hlater fun node hnode => ?_
    rcases mem_encryptForDevicesInto hresult node hnode with hnode | ⟨jid, hjid, hattr⟩
    · exact hok.nodes node hnode
    · exact ⟨jid, hattr, heligible jid hjid⟩

/-- The last filter: a node that it permits is for an account that is undisturbed. -/
theorem ok_pollFiltering (hsince : Since userFingerprint captured client)
    (hidentity : r.sent.identity = .capture captured) {draft : Draft codec} {f : Filtering}
    (hok : (Stage.filtering draft f).Ok r.sent.devices filtered captured client) :
    (r.pollFiltering userFingerprint facts client draft f).1.Ok r.sent.devices
        (filtered ++ (r.pollFiltering userFingerprint facts client draft f).2) captured client
      ∧ ∀ node ∈ (r.pollFiltering userFingerprint facts client draft f).2,
        ∃ jid, node.optionalJid "jid" = some jid
          ∧ Undisturbed userFingerprint captured client jid.user := by
  obtain ⟨⟨jid, hjid, hsubject⟩, hfaithful⟩ := hok.question _ _ rfl
  obtain ⟨hparticipant, hpending⟩ := List.forall_mem_cons.mp hok.nodes
  have hpoll := UnchangedFor.pollOk_poll hsince hfaithful
  rw [← hidentity] at hpoll
  rw [pollFiltering]
  cases hanswer : f.call.poll userFingerprint r.sent.identity client with
  | pending call =>
    rw [hanswer] at hpoll
    refine ⟨⟨nofun, hok.nodes, ?_, ?_⟩, nofun⟩
    · rw [List.append_nil]
      exact hok.permitted
    · rintro _ _ ⟨⟩
      exact ⟨⟨jid, hjid, hpoll.1.trans hsubject⟩, hpoll.2⟩
  | ready answer =>
    rw [hanswer] at hpoll
    cases answer with
    | false =>
      refine ⟨?_, nofun⟩
      rw [List.append_nil]
      exact Stage.ok_nextParticipant draft f.prekey hpending hok.permitted
    | true =>
      refine ⟨Stage.ok_nextParticipant draft f.prekey hpending ?_, ?_⟩
      · intro node hnode
        rcases List.mem_append.mp hnode with hnode | hnode
        · exact (hok.permitted node hnode).imp_right (List.mem_append_left _)
        · rw [List.mem_singleton.mp hnode]
          exact ⟨hparticipant, List.mem_append_right _ List.mem_cons_self⟩
      · intro node hnode
        rw [List.mem_singleton.mp hnode]
        exact ⟨jid, hjid, hsubject ▸ hpoll⟩

open Stage in
/-- Each piece of a repair keeps what it has in hand in order. -/
theorem Resume.ok (hsince : Since userFingerprint captured client)
    (hidentity : r.sent.identity = .capture captured)
    (hresume : r.Resume userFingerprint facts client stage stage' permitted)
    (hok : stage.Ok r.sent.devices filtered captured client) :
    stage'.Ok r.sent.devices (filtered ++ permitted) captured client
      ∧ ∀ node ∈ permitted, ∃ jid, node.optionalJid "jid" = some jid
        ∧ Undisturbed userFingerprint captured client jid.user := by
  cases hresume with
  | filtering draft f => exact ok_pollFiltering hsince hidentity hok
  | refreshing success own =>
    refine ⟨?_, nofun⟩
    rw [afterRefresh]
    repeat' split
    all_goals first | exact ok_over | exact ok_of_early rfl rfl nofun nofun
  | routing own ownPn ownSending answer =>
    cases answer with
    | ok info => exact ⟨ok_of_early rfl rfl nofun nofun, nofun⟩
    | error e => exact ⟨ok_over, nofun⟩
  | resolving own ownPn ownSending group registry =>
    refine ⟨?_, nofun⟩
    cases registry (group.jidsToResolve ownSending) with
    | error e => exact ok_over
    | ok devices =>
      rw [afterResolve]
      split
      · exact ok_over
      · exact ok_of_early rfl rfl (fun jid hjid => missed_of_mem_groupDelta hjid) nofun
  | recalling own ownPn delta answer =>
    refine ⟨?_, nofun⟩
    cases answer with
    | none => exact ok_over
    | some bytes =>
      rw [afterRecall]
      split
      · exact ok_of_early rfl rfl (fun jid hjid => hok.targets jid (mem_new_devices hjid)) nofun
      · exact ok_over
  | addressing draft upgrade => exact ⟨ok_of_early rfl rfl hok.targets nofun, nofun⟩
  | ensuring draft addresses answer =>
    cases answer with
    | ok _ => exact ⟨ok_of_early rfl rfl hok.targets nofun, nofun⟩
    | error e => exact ⟨ok_over, nofun⟩
  | locking draft addresses pads =>
    refine ⟨?_, nofun⟩
    rw [afterLock]
    split
    · exact ok_over
    · exact ok_nextHalf draft (fun jid hjid => hok.targets jid (mem_halfTargets hjid)) nofun
  | selecting draft s =>
    rw [List.append_nil]
    exact ⟨ok_pollSelecting hok, nofun⟩
  | encrypting draft e env calls =>
    rw [List.append_nil]
    exact ⟨ok_afterEncrypt hok, nofun⟩
  | persisting draft encrypted answer =>
    refine ⟨?_, nofun⟩
    cases answer with
    | ok _ => exact ok_nextParticipant draft encrypted.prekey hok.nodes nofun
    | error e => exact ok_over

end RepairCall

/-! ## The send and its repair -/

namespace System

variable {codec : MessageCodec} {facts : RepairFacts codec} {s s' : System codec}

/-- What the task of the send has in hand. -/
def TaskOk (s : System codec) : Task codec → Prop
  | .idle => s.captured = none ∧ s.filtered = []
  | .sending _ identity => ∃ c, s.captured = some c ∧ identity = .capture c
  | .waiting _ r => ∃ c, s.captured = some c ∧ r.sent.identity = .capture c
  | .repairing r stage => ∃ c, s.captured = some c ∧ r.sent.identity = .capture c
    ∧ stage.Ok r.sent.devices (s.filtered.map (·.1)) c s.client
  | .over => True

structure Inv (userFingerprint : String → UInt64) (s : System codec) : Prop where
  client : s.client.Ok userFingerprint
  captured : ∀ c, s.captured = some c → Since userFingerprint c s.client
  task : s.TaskOk s.task
  filtered : ∀ node client, (node, client) ∈ s.filtered → ∃ c jid, s.captured = some c
    ∧ node.optionalJid "jid" = some jid ∧ Undisturbed userFingerprint c client jid.user

theorem inv_start (config : Store.CacheEntryConfig) :
    Inv userFingerprint (start config : System codec) where
  client := ⟨.inl .refl, config, .refl⟩
  captured := nofun
  task := ⟨rfl, rfl⟩
  filtered := nofun

/-- The client changes meanwhile. -/
theorem Inv.withClient (h : Inv userFingerprint s) (hsince : Since userFingerprint s.client client)
    (hok : client.Ok userFingerprint) : Inv userFingerprint { s with client } where
  client := hok
  captured c hc := by
    have hbefore := h.captured c hc
    exact ⟨hbefore.start_ok, hbefore.signal.trans hsince.signal, hbefore.lidPn.trans hsince.lidPn⟩
  task := by
    have htask := h.task
    cases hcase : s.task with
    | repairing r stage =>
      rw [hcase] at htask
      obtain ⟨c, hc, hidentity, hstage⟩ := htask
      have hchanges := (LidPnCache.Steps.ok hsince.lidPn h.client.cache).2.2
      refine ⟨c, hc, hidentity, hstage.targets, hstage.nodes, hstage.permitted, ?_⟩
      exact fun node call hquestion =>
        (hstage.question node call hquestion).imp_right fun hfaithful => hfaithful.later hchanges
    | _ =>
      rw [hcase] at htask
      exact htask
  filtered := h.filtered

theorem Step.inv (hstep : Step userFingerprint facts s s') (h : Inv userFingerprint s) :
    Inv userFingerprint s' := by
  have htask := h.task
  cases hstep with
  | signal history hstep =>
    refine h.withClient ⟨h.client, .single hstep, .refl⟩ ⟨?_, h.client.lidPn⟩
    exact h.client.signal.steps (.single hstep)
  | lidPn c hstep =>
    obtain ⟨config, hsteps⟩ := h.client.lidPn
    exact h.withClient ⟨h.client, .refl, .single hstep⟩
      ⟨h.client.signal, config, hsteps.tail hstep⟩
  | reconnect generation =>
    exact h.withClient ⟨h.client, .refl, .refl⟩ ⟨h.client.signal, h.client.lidPn⟩
  | capture hidle =>
    rw [hidle] at htask
    refine ⟨h.client, ?_, ⟨s.client, rfl, rfl⟩, ?_⟩
    · rintro _ ⟨⟩
      exact ⟨h.client, .refl, .refl⟩
    · intro node client hnode
      rw [htask.2] at hnode
      cases hnode
  | register hsending hgeneration =>
    rw [hsending] at htask
    exact ⟨h.client, h.captured, htask, h.filtered⟩
  | @ack expected r hwaiting server =>
    rw [hwaiting] at htask
    obtain ⟨c, hc, hidentity⟩ := htask
    refine ⟨h.client, h.captured, ?_, h.filtered⟩
    cases server with
    | none => trivial
    | some server =>
      rw [checkPhashAgainstAck]
      split
      · trivial
      · split
        · trivial
        · exact ⟨c, hc, hidentity, Stage.ok_of_early rfl rfl nofun nofun⟩
  | @resume r stage stage' permitted hrepairing hresume =>
    rw [hrepairing] at htask
    obtain ⟨c, hc, hidentity, hstage⟩ := htask
    obtain ⟨hstage', hpermitted⟩ := hresume.ok (h.captured c hc) hidentity hstage
    refine ⟨h.client, h.captured, ⟨c, hc, hidentity, ?_⟩, ?_⟩
    · rw [List.map_append, List.map_map]
      rw [show (fun entry : Node × Client => entry.1) ∘ (·, s.client) = id from rfl, List.map_id]
      exact hstage'
    · intro node client hnode
      rcases List.mem_append.mp hnode with hnode | hnode
      · exact h.filtered node client hnode
      · obtain ⟨_, hnew, ⟨⟩⟩ := List.mem_map.mp hnode
        obtain ⟨jid, hjid, hundisturbed⟩ := hpermitted node hnew
        exact ⟨c, jid, hc, hjid, hundisturbed⟩
  | drop => exact ⟨h.client, h.captured, trivial, h.filtered⟩

theorem Reachable.inv (hreach : Reachable userFingerprint facts s) : Inv userFingerprint s := by
  obtain ⟨config, hsteps⟩ := hreach
  induction hsteps with
  | refl => exact inv_start config
  | tail _ hstep ih => exact hstep.inv ih

/-- Each node of a stanza that a repair hands to the socket is for a device that the
send has not addressed, of an account that it has.  It has passed the last filter at
a moment up to which the account was undisturbed since the send took its snapshot. -/
theorem Reachable.repair_undisturbed (hreach : Reachable userFingerprint facts s)
    {r : RepairCall} {stanza : Node} (hsent : s.task = .repairing r (.sent stanza)) :
    ∃ captured, s.captured = some captured ∧ ∀ participant ∈ participantsOf stanza,
      ∃ jid filtered, participant.optionalJid "jid" = some jid
        ∧ (∀ device ∈ r.sent.devices, device.same jid = false)
        ∧ (∃ device ∈ r.sent.devices, sameAccount device jid = true)
        ∧ (participant, filtered) ∈ s.filtered
        ∧ Undisturbed userFingerprint captured filtered jid.user := by
  have hinv := hreach.inv
  have htask := hinv.task
  rw [hsent] at htask
  obtain ⟨c, hc, -, hstage⟩ := htask
  refine ⟨c, hc, fun participant hparticipant => ?_⟩
  obtain ⟨⟨jid, hjid, hnew, haccount⟩, hmem⟩ := hstage.permitted participant hparticipant
  obtain ⟨⟨_, filtered⟩, hfiltered, rfl⟩ := List.mem_map.mp hmem
  obtain ⟨c', jid', hc', hjid', hundisturbed⟩ := hinv.filtered _ _ hfiltered
  obtain rfl : c = c' := Option.some.inj (hc.symm.trans hc')
  obtain rfl : jid = jid' := Option.some.inj (hjid.symm.trans hjid')
  exact ⟨jid, filtered, hjid, hnew, haccount, hfiltered, hundisturbed⟩

/-! ### A repair from the snapshot to the socket -/

def sampleCodec : MessageCodec :=
  ⟨Unit, Unit, fun _ => 0, fun _ => [], fun _ => 0, fun _ => [], fun context _ => context⟩

def sampleFacts : RepairFacts sampleCodec where
  generateReportingToken _ _ _ _ _ := none
  reportingContextInfo _ := ()
  shouldHideDecryptFail _ := false
  mediaTypeFromMessage _ := none
  stanzaTypeFromMessage _ := "text"
  phash _ := none
  messageDecode _ := .ok ⟨(), none⟩
  secretContext _ := ()
  inferEdit _ := none
  marshalNodeForSend _ := .ok []

def sampleEnv : FanoutEnv :=
  { FanoutEnv.passing fun _ => true with messageEncrypt := fun _ _ _ => .ok (.signalMessage [7]) }

def alice (device : UInt16) : Jid := ⟨"alice", .lid, 0, device, 0⟩

def ownPn : Jid := ⟨"me", .pn, 0, 3, 0⟩

def ownLid : Jid := ⟨"me", .lid, 0, 3, 0⟩

def ourselves : DeviceSnapshot := ⟨some ownPn, some ownLid, none⟩

open Store.MutationHistory (aliceOnly)

/-- A mutation of another account is in progress. -/
def sampleClient : Client where
  signal := (MutationHistory.start .default).changing aliceOnly ["carol"]
  lidPn := .withConfig ⟨false, none, Store.U64_MAX⟩
  connectionGeneration := 0

/-- One device of the account was addressed. -/
def sampleCall : RepairCall :=
  ⟨⟨"g", .group, 0, 0, 0⟩, "ID", ⟨0, .capture sampleClient, [alice 0], none, .lid⟩⟩

def sampleInfo : GroupRoutingInfo := ⟨[alice 0], .lid, []⟩

def sampleDraft : Draft sampleCodec := ⟨ourselves, [], ⟨(), none⟩, .new [alice 7] ownPn (some ownLid)⟩

def sampleNode : Node :=
  encryptedDeviceToParticipantNode ⟨alice 7, ENC_TYPE_MSG, false, [7]⟩ none false

def sampleAt (stage : Stage sampleCodec) (filtered : List (Node × Client)) : System sampleCodec :=
  ⟨sampleClient, .repairing sampleCall stage, some sampleClient, filtered⟩

/-- The two awaits of a question about an account without another name. -/
theorem poll_sample :
    UnchangedFor.poll aliceOnly sampleCall.sent.identity sampleClient (.phoneNumber "alice")
        = .pending (.currentLid "alice" none)
      ∧ UnchangedFor.poll aliceOnly sampleCall.sent.identity sampleClient (.currentLid "alice" none)
        = .ready true := by
  decide +kernel

section Run

variable {stage next : Stage sampleCodec} {filtered : List (Node × Client)} {permitted : List Node}

theorem reachable_resume
    (hresume : sampleCall.Resume aliceOnly sampleFacts sampleClient stage next permitted)
    (hreach : Reachable aliceOnly sampleFacts (sampleAt stage filtered)) :
    Reachable aliceOnly sampleFacts
      (sampleAt next (filtered ++ permitted.map (·, sampleClient))) := by
  obtain ⟨config, hsteps⟩ := hreach
  exact ⟨config, hsteps.tail (.resume _ rfl hresume)⟩

theorem reachable_refreshing : Reachable aliceOnly sampleFacts (sampleAt .refreshing []) := by
  have hmutation : Step aliceOnly sampleFacts (start ⟨false, none, Store.U64_MAX⟩)
      ⟨sampleClient, .idle, none, []⟩ := .signal _ _ (.changing _ ["carol"])
  have hcapture : Step aliceOnly sampleFacts ⟨sampleClient, .idle, none, []⟩
      ⟨sampleClient, .sending 0 (.capture sampleClient), some sampleClient, []⟩ := .capture _ rfl
  have hregister : Step aliceOnly sampleFacts
      ⟨sampleClient, .sending 0 (.capture sampleClient), some sampleClient, []⟩
      ⟨sampleClient, .waiting "2:a" sampleCall, some sampleClient, []⟩ :=
    .register _ rfl rfl _ _ _ _ _ _
  have hmismatch : checkPhashAgainstAck sampleClient "2:a" sampleCall (some "2:b")
      = .repairing sampleCall (.refreshing : Stage sampleCodec) := by
    simp [checkPhashAgainstAck, sampleClient, sampleCall]
  have hack : Step aliceOnly sampleFacts
      ⟨sampleClient, .waiting "2:a" sampleCall, some sampleClient, []⟩
      (sampleAt .refreshing []) := by
    rw [sampleAt, ← hmismatch]
    exact .ack _ rfl (some "2:b")
  exact ⟨_, .tail (.tail (.tail (.single hmutation) hcapture) hregister) hack⟩

theorem reachable_locking :
    Reachable aliceOnly sampleFacts (sampleAt (.locking sampleDraft [alice 7]) []) := by
  have h := reachable_resume (.refreshing true ourselves) reachable_refreshing
  have h := reachable_resume (.routing ourselves ownPn ownLid (.ok sampleInfo)) h
  have h := reachable_resume (.resolving _ _ _ _ fun _ => .ok [alice 0, alice 7]) h
  have hdelta : groupDelta sampleCall.sent.devices
      ((oldGroup sampleInfo sampleCall.sent.devices).resolvedDevices [alice 0, alice 7])
        = [alice 7] := by
    decide +kernel
  have h := reachable_resume (.recalling ourselves ownPn [alice 7] (some [])) h
  have h := reachable_resume (.addressing sampleDraft id) h
  exact reachable_resume (.ensuring sampleDraft [alice 7] (.ok ())) h

/-- A device is asked about under one name, and is eligible. -/
theorem reachable_eligible {s : Selecting} (hcall : s.call = .phoneNumber "alice")
    (hname : s.target.user = s.address.user)
    (h : Reachable aliceOnly sampleFacts (sampleAt (.selecting sampleDraft s) filtered)) :
    Reachable aliceOnly sampleFacts (sampleAt (RepairCall.nextTarget sampleDraft
      { s with call := .currentLid "alice" none } (s.eligible ++ [(s.target, s.address)]))
      filtered) := by
  have h := reachable_resume (.selecting sampleDraft s) h
  rw [RepairCall.pollSelecting, hcall, poll_sample.1] at h
  have h := reachable_resume (.selecting sampleDraft _) h
  rw [RepairCall.pollSelecting, poll_sample.2] at h
  simpa [hname] using h

theorem reachable_persisting : ∃ attempted, Reachable aliceOnly sampleFacts
    (sampleAt (.persisting sampleDraft ⟨[sampleNode], false, attempted⟩) []) := by
  have h := reachable_resume (.locking sampleDraft [alice 7] ⟨1, 1⟩) reachable_locking
  have h := reachable_eligible rfl rfl h
  exact ⟨_, reachable_resume (.encrypting sampleDraft _ sampleEnv []) h⟩

theorem reachable_sent : ∃ stanza, participantsOf stanza = [sampleNode]
    ∧ Reachable aliceOnly sampleFacts (sampleAt (.sent stanza) [(sampleNode, sampleClient)]) := by
  obtain ⟨attempted, h⟩ := reachable_persisting
  have h := reachable_resume (.persisting sampleDraft _ (.ok ())) h
  have h := reachable_resume (.filtering sampleDraft ⟨false, _, .phoneNumber "alice", [], []⟩) h
  have h := reachable_resume (.filtering sampleDraft ⟨false, _, .currentLid "alice" none, [], []⟩) h
  exact ⟨_, participantsOf_stanza _ _ _ _ _, h⟩

end Run

/-- The repair writes to the missed device, and nothing has touched its account. -/
theorem repair_undisturbed_sample : ∃ (s : System sampleCodec) (stanza : Node) (captured : Client),
    Reachable aliceOnly sampleFacts s ∧ s.task = .repairing sampleCall (.sent stanza)
      ∧ s.captured = some captured
      ∧ ∃ participant ∈ participantsOf stanza, ∃ jid filtered,
        participant.optionalJid "jid" = some jid ∧ (participant, filtered) ∈ s.filtered
          ∧ Undisturbed aliceOnly captured filtered jid.user := by
  obtain ⟨stanza, hstanza, hreach⟩ := reachable_sent
  have hnode : sampleNode ∈ participantsOf stanza := by
    rw [hstanza]
    exact List.mem_cons_self
  obtain ⟨captured, hcaptured, hall⟩ := hreach.repair_undisturbed rfl
  obtain ⟨jid, filtered, hjid, -, -, hfiltered, hundisturbed⟩ := hall _ hnode
  exact ⟨_, stanza, captured, hreach, rfl, hcaptured, sampleNode, hnode, jid, filtered, hjid,
    hfiltered, hundisturbed⟩

end System

end WaCore.Send
