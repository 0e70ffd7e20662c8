import WaCore.Binary.Token

/-!
# JIDs

Servers and structured JIDs (`jid.rs`), as far as the binary codec uses them.
`Jid` models both `Jid` and `JidRef`: the two have the same fields and differ
only in who owns the user string.
-/

namespace WaCore.Binary

open Utf8

inductive Server where
  | pn
  | lid
  | group
  | broadcast
  | newsletter
  | hosted
  | hostedLid
  | messenger
  | interop
  | bot
  | call
  deriving DecidableEq, Repr

namespace Server

def asStr : Server → String
  | pn => "s.whatsapp.net"
  | lid => "lid"
  | group => "g.us"
  | broadcast => "broadcast"
  | newsletter => "newsletter"
  | hosted => "hosted"
  | hostedLid => "hosted.lid"
  | messenger => "msgr"
  | interop => "interop"
  | bot => "bot"
  | call => "call"

/-- The servers whose users are phone numbers. -/
def isPnFamily : Server → Bool
  | pn | hosted => true
  | _ => false

/-- The servers whose users are LIDs. -/
def isLidFamily : Server → Bool
  | lid | hostedLid => true
  | _ => false

/-- Whether the agent is part of the rendered JID. -/
def rendersAgent : Server → Bool
  | pn | lid | hosted | hostedLid => false
  | _ => true

/-- The spellings `parse_known` accepts; `c.us` is the legacy one of `pn`. -/
def knownSpellings : List (String × Server) :=
  [("s.whatsapp.net", pn), ("lid", lid), ("g.us", group), ("broadcast", broadcast),
    ("newsletter", newsletter), ("hosted", hosted), ("hosted.lid", hostedLid),
    ("msgr", messenger), ("interop", interop), ("bot", bot), ("c.us", pn), ("call", call)]

def parseKnown (s : Bytes) : Option Server :=
  (knownSpellings.find? fun entry => ofString entry.1 = s).map (·.2)

@[simp] theorem parseKnown_asStr (server : Server) :
    parseKnown (ofString server.asStr) = some server := by
  cases server <;> decide

/-- What `parse_known` accepts is one of the spellings. -/
theorem parseKnown_eq_some {s : Bytes} {server : Server} (h : parseKnown s = some server) :
    ∃ spelling, (spelling, server) ∈ knownSpellings ∧ ofString spelling = s := by
  obtain ⟨⟨spelling, server'⟩, hfind, rfl⟩ := Option.map_eq_some_iff.mp h
  refine ⟨spelling, List.mem_of_find?_eq_some hfind, ?_⟩
  simpa using List.find?_some hfind

/-- No known server has an `@` in it. -/
theorem at_not_mem_of_parseKnown {s : Bytes} {server : Server}
    (h : parseKnown s = some server) : (64 : UInt8) ∉ s := by
  obtain ⟨spelling, hmem, rfl⟩ := parseKnown_eq_some h
  have hall : ∀ entry ∈ knownSpellings, (64 : UInt8) ∉ ofString entry.1 := by decide
  exact hall _ hmem

theorem at_not_mem_asStr (server : Server) : (64 : UInt8) ∉ ofString server.asStr :=
  at_not_mem_of_parseKnown (parseKnown_asStr server)

theorem length_asStr_le (server : Server) : (ofString server.asStr).length ≤ 14 := by
  cases server <;> decide

end Server

/-- A JID: the user on a server, with the numbers the text and wire forms may
carry. -/
structure Jid where
  user : String
  server : Server
  agent : UInt8
  device : UInt16
  integrator : UInt16
  deriving DecidableEq, Repr

namespace Jid

/-- The part of the agent that belongs to the identity. -/
def identityAgent (j : Jid) : UInt8 := if j.server.rendersAgent then j.agent else 0

/-- `PartialEq for Jid`. -/
def same (a b : Jid) : Bool :=
  a.user = b.user && a.server = b.server && a.device = b.device && a.integrator = b.integrator
    && (a.agent = b.agent || a.identityAgent = b.identityAgent)

/-- The JID of the account, without agent and device. -/
def toNonAd (j : Jid) : Jid := ⟨j.user, j.server, 0, 0, j.integrator⟩

theorem same_self (a : Jid) : a.same a = true := by simp [same]

theorem same_comm (a b : Jid) : a.same b = b.same a := by
  simp [same, eq_comm]

end Jid

/-- `jid_ref_to_compact`: the text form `{user}[.{agent}][:{device}]@{server}`,
or the server alone when the user is empty. -/
def jidRefToCompact (j : Jid) : String :=
  if j.user = "" then j.server.asStr
  else
    j.user ++
      (if 0 < j.agent ∧ j.server.rendersAgent then "." ++ toString j.agent.toNat else "") ++
      (if 0 < j.device then ":" ++ toString j.device.toNat else "") ++
      "@" ++ j.server.asStr

theorem jidRefToCompact_of_user_empty {j : Jid} (h : j.user = "") :
    jidRefToCompact j = j.server.asStr := if_pos h

/-- A JID with a user is rendered with an `@`. -/
theorem at_mem_jidRefToCompact {j : Jid} (h : j.user ≠ "") :
    (64 : UInt8) ∈ ofString (jidRefToCompact j) := by
  rw [jidRefToCompact, if_neg h]
  simp only [ofString_append, List.mem_append]
  exact .inl (.inr (by decide))

end WaCore.Binary
