import WaCore.Binary.SizePlan
import WaCore.Lib.Decimal
import WaCore.Lib.Effect

/-!
# JIDs as text

`Jid::from_str` and the scanner it tries first (`jid.rs`).  A text is read as
`{user}[.{agent}][:{device}]@{server}`; the device follows the last `:` before the
`@`, and the agent the last `.` before that.  A device that is no number is
dropped, and an agent that is none is part of the user.

Texts are given as their UTF-8 bytes.  The separators are ASCII, so the pieces
between them are UTF-8 again.
-/

namespace WaCore.Binary

open Utf8

/-- `str::split_once` at a byte. -/
def splitOnce (c : UInt8) (s : Bytes) : Option (Bytes × Bytes) :=
  (findByte c s).map fun i => (s.take i, s.drop (i + 1))

/-- `str::rsplit_once` at a byte. -/
def rsplitOnce (c : UInt8) (s : Bytes) : Option (Bytes × Bytes) :=
  (rfindByte c s).map fun i => (s.take i, s.drop (i + 1))

/-! ## Numbers -/

/-- A round of the loop of `parse_u16_decimal`. -/
def decimalStep (value : Nat) (byte : UInt8) : Option Nat :=
  if 9 < byte - 48 then none
  else if 65535 < 10 * value then none
  else if 65535 < 10 * value + (byte - 48).toNat then none
  else some (10 * value + (byte - 48).toNat)

def parseU16Decimal (s : Bytes) : Option Nat :=
  let bytes := if s.head? = some 43 then s.tail else s
  if bytes = [] then none else bytes.foldlM decimalStep 0

inductive IntErrorKind where
  | empty
  | invalidDigit
  | posOverflow
  deriving DecidableEq, Repr

/-- A round of the loop of `u16::from_str`. -/
def parseStep (value : Nat) (byte : UInt8) : Except IntErrorKind Nat :=
  if 9 < byte - 48 then .error .invalidDigit
  else if 65535 < 10 * value + (byte - 48).toNat then .error .posOverflow
  else .ok (10 * value + (byte - 48).toNat)

/-- `u16::from_str`. -/
def parseU16 (s : Bytes) : Except IntErrorKind Nat :=
  if s = [] then .error .empty
  else if s = [43] ∨ s = [45] then .error .invalidDigit
  else (if s.head? = some 43 then s.tail else s).foldlM parseStep 0

/-! ## The scanner -/

structure ParsedJidParts where
  user : Bytes
  server : Bytes
  agent : UInt8
  device : UInt16
  integrator : UInt16
  deriving DecidableEq, Repr

/-- The loop over the user part: where the `@` is, and the last `:` and `.` before
it. -/
def scanUser : Bytes → Nat → Option Nat → Option Nat → Option (Nat × Option Nat × Option Nat)
  | [], _, _, _ => none
  | b :: bytes, i, colonPos, lastDotPos =>
    if b = 64 then some (i, colonPos, lastDotPos)
    else if b = 58 then scanUser bytes (i + 1) (some i) lastDotPos
    else if b = 46 then scanUser bytes (i + 1) colonPos (some i)
    else scanUser bytes (i + 1) colonPos lastDotPos

/-- The user part before the device, and the device. -/
def splitAtColon (userPart : Bytes) : Option Nat → Bytes × Nat
  | some pos => (userPart.take pos, (parseU16Decimal (userPart.drop (pos + 1))).getD 0)
  | none => (userPart, 0)

/-- The dot of the agent: the last one of the scan, if it stands before the device,
or the last one there. -/
def agentDot (userBeforeColon : Bytes) : Option Nat → Option Nat
  | some pos => if pos < userBeforeColon.length then some pos else rfindByte 46 userBeforeColon
  | none => none

/-- The user before the agent, and the agent. -/
def splitAtDot (userBeforeColon : Bytes) : Option Nat → Bytes × Nat
  | some dotPos =>
    match parseU16Decimal (userBeforeColon.drop (dotPos + 1)) with
    | some agentVal =>
      if agentVal ≤ 255 then (userBeforeColon.take dotPos, agentVal) else (userBeforeColon, 0)
    | none => (userBeforeColon, 0)
  | none => (userBeforeColon, 0)

def parseJidScan (s : Bytes) : Option (ParsedJidParts × Option Server) := do
  let (sep, colonPos, lastDotPos) ← scanUser s 0 none none
  if sep = 0 then none
  else
    let userPart := s.take sep
    let serverStr := s.drop (sep + 1)
    let server := Server.parseKnown serverStr
    if server = some .lid then
      let (user, device) := splitAtColon userPart colonPos
      some (⟨user, serverStr, 0, UInt16.ofNat device, 0⟩, server)
    else
      let (userBeforeColon, device) := splitAtColon userPart colonPos
      let (user, agent) := splitAtDot userBeforeColon (agentDot userBeforeColon lastDotPos)
      some (⟨user, serverStr, UInt8.ofNat agent, UInt16.ofNat device, 0⟩, server)

/-- `parse_jid_ref`. -/
def parseJidRef (s : Bytes) : Option Jid := do
  let (parts, server) ← parseJidScan s
  let server ← server
  pure ⟨strOf parts.user, server, parts.agent, parts.device, parts.integrator⟩

/-! ## `Jid::from_str` -/

inductive JidError where
  | invalidFormat (message : String)
  | parse (kind : IntErrorKind)
  deriving DecidableEq, Repr

def Server.tryFrom (s : Bytes) : Except JidError Server :=
  okOr (Server.parseKnown s) (.invalidFormat ("unknown server: " ++ strOf s))

/-- The device of the fallback, after the last `:`. -/
def fallbackDevice (userPart : Bytes) : Except JidError (Bytes × Nat) :=
  match rsplitOnce 58 userPart with
  | some (u, d) => do
    let device ← (parseU16 d).mapError .parse
    pure (u, device)
  | none => .ok (userPart, 0)

/-- The agent of the fallback, after the last `.`. -/
def fallbackAgent (user : Bytes) : Except JidError (Bytes × Nat) :=
  match rsplitOnce 46 user with
  | some (u, lastPart) =>
    match parseU16 lastPart with
    | .ok numVal =>
      if 255 < numVal then
        .error (.invalidFormat ("Agent component out of range: " ++ toString numVal))
      else .ok (u, numVal)
    | .error _ => .ok (user, 0)
  | none => .ok (user, 0)

def HIDDEN_USER_SERVER : String := "lid"

/-- What follows when the scanner gives up. -/
def fromStrFallback (s : Bytes) : Except JidError Jid := do
  let (userPart, server) := (splitOnce 64 s).getD ([], s)
  if userPart = [] ∧ Server.parseKnown server = none then
    throw (.invalidFormat ("unknown server '" ++ strOf server ++ "'"))
  else if server = ofString HIDDEN_USER_SERVER then
    let (user, device) ← fallbackDevice userPart
    let server ← Server.tryFrom server
    pure ⟨strOf user, server, 0, UInt16.ofNat device, 0⟩
  else
    let (user, device) ← fallbackDevice userPart
    let (user, agent) ← fallbackAgent user
    let server ← Server.tryFrom server
    pure ⟨strOf user, server, UInt8.ofNat agent, UInt16.ofNat device, 0⟩

namespace Jid

def fromStr (s : String) : Except JidError Jid :=
  match parseJidRef (ofString s) with
  | some jid => .ok jid
  | none => fromStrFallback (ofString s)

end Jid

end WaCore.Binary
