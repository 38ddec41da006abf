import Frona.Text.Visible

set_option autoImplicit false

namespace Frona.ChannelService

open Utf8 (Text)
open Frona.Text (trim)

section Service

inductive ChannelStatus where
  | disconnected
  | connecting
  | connected
  | reconnecting
  | failed
  deriving DecidableEq

structure UserAddress where
  address : Option Text
  pairingCode : Option Text
  pairingInitiatedAt : Option Int
  pairedAt : Option Int

structure SetupConfig where
  code : Option Text
  qr : Option Text
  instructions : Option Text
  expiresAt : Option Int
  initiatedAt : Option Int
  deriving DecidableEq

structure Channel where
  userId : Text
  agentId : Text
  config : List (Text × Text)
  status : ChannelStatus
  enabled : Bool
  errorMessage : Option Text
  lastStartedAt : Option Int
  userAddress : Option UserAddress
  setup : Option SetupConfig
  updatedAt : Int

def pairingTtl : Int := 300000

def pairingPending (channel : Channel) : Bool :=
  (channel.userAddress.bind (·.pairingCode)).isSome

/-- `missing` is what `missing_required` finds, if it succeeds. -/
def update (userId : Text) (agentId : Option Text) (config : Option (List (Text × Text)))
    (missing : Option (List Text)) (now : Int) (channel : Channel) : Option Channel :=
  if channel.userId ≠ userId then none
  else
    let channel := { channel with
      agentId := agentId.getD channel.agentId
      config := config.getD channel.config
      updatedAt := now }
    if channel.enabled then some channel
    else
      match missing with
      | none => none
      | some [] => some { channel with status := .disconnected, errorMessage := none }
      | some (name :: rest) => some { channel with
          errorMessage := some ("missing required field(s): ".toList ++
            ", ".toList.intercalate (name :: rest)) }

def setEnabled (enabled : Bool) (error : Option Text) (now : Int) (channel : Channel) : Channel :=
  { channel with enabled, errorMessage := error, updatedAt := now }

def markStatus (status : ChannelStatus) (error : Option Text) (now : Int) (channel : Channel) :
    Channel :=
  { channel with
    status, errorMessage := error, updatedAt := now
    lastStartedAt := if status = .connected then some now else channel.lastStartedAt }

def initiatePairing (userId code : Text) (now : Int) (channel : Channel) : Option Channel :=
  if channel.userId ≠ userId then none
  else some { channel with
    updatedAt := now
    userAddress := some {
      address := channel.userAddress.bind (·.address)
      pairingCode := some code
      pairingInitiatedAt := some now
      pairedAt := channel.userAddress.bind (·.pairedAt) } }

def revertPairing (now : Int) (channel : Channel) : Channel :=
  { channel with
    updatedAt := now
    userAddress := (channel.userAddress.bind (·.address)).map fun address =>
      ⟨some address, none, none, channel.userAddress.bind (·.pairedAt)⟩ }

def cancelPairing (userId : Text) (now : Int) (channel : Channel) : Option Channel :=
  if channel.userId ≠ userId ∨ pairingPending channel = false then none
  else some (revertPairing now channel)

def revertOrphanedPairing (now : Int) (channel : Channel) : Option Channel :=
  if pairingPending channel then some (revertPairing now channel) else none

def revertExpiredPairing (start now : Int) (channel : Channel) : Option Channel :=
  match channel.userAddress.bind (·.pairingInitiatedAt) with
  | none => none
  | some initiated =>
      if pairingPending channel && initiated < start - pairingTtl then
        some (revertPairing now channel)
      else none

def setSetup (setup : SetupConfig) (now : Int) (channel : Channel) : Channel :=
  { channel with setup := some { setup with initiatedAt := some now }, updatedAt := now }

def clearSetup (now : Int) (channel : Channel) : Option Channel :=
  if channel.setup.isNone then none else some { channel with setup := none, updatedAt := now }

def tryRedeemPairing (senderAddress messageBody : Text) (now : Int) (channel : Channel) :
    Option Channel :=
  match channel.userAddress.bind (·.pairingCode) with
  | none => none
  | some expected =>
      if trim messageBody ≠ expected then none
      else some { channel with
        userAddress := some ⟨some senderAddress, none, none, some now⟩, updatedAt := now }

end Service

section Writes

inductive ChannelCall where
  | update (userId : Text) (agentId : Option Text) (config : Option (List (Text × Text)))
      (missing : Option (List Text)) (now : Int)
  | setEnabled (enabled : Bool) (error : Option Text) (now : Int)
  | markStatus (status : ChannelStatus) (error : Option Text) (now : Int)
  | initiatePairing (userId code : Text) (now : Int)
  | cancelPairing (userId : Text) (now : Int)
  | revertOrphaned (now : Int)
  | revertExpired (start now : Int)
  | setSetup (setup : SetupConfig) (now : Int)
  | clearSetup (now : Int)
  | tryRedeemPairing (senderAddress messageBody : Text) (now : Int)

def ChannelCall.change : ChannelCall → Channel → Option Channel
  | .update userId agentId config missing now =>
      ChannelService.update userId agentId config missing now
  | .setEnabled enabled error now => some ∘ ChannelService.setEnabled enabled error now
  | .markStatus status error now => some ∘ ChannelService.markStatus status error now
  | .initiatePairing userId code now => ChannelService.initiatePairing userId code now
  | .cancelPairing userId now => ChannelService.cancelPairing userId now
  | .revertOrphaned now => revertOrphanedPairing now
  | .revertExpired start now => revertExpiredPairing start now
  | .setSetup setup now => some ∘ ChannelService.setSetup setup now
  | .clearSetup now => ChannelService.clearSetup now
  | .tryRedeemPairing sender body now => ChannelService.tryRedeemPairing sender body now

inductive ChannelField where
  | agentId
  | config
  | status
  | enabled
  | errorMessage
  | lastStartedAt
  | address
  | pairing
  | pairedAt
  | setup
  | updatedAt

@[reducible] def ChannelField.Value : ChannelField → Type
  | .agentId => Text
  | .config => List (Text × Text)
  | .status => ChannelStatus
  | .enabled => Bool
  | .errorMessage => Option Text
  | .lastStartedAt => Option Int
  | .address => Option Text
  | .pairing => Option Text × Option Int
  | .pairedAt => Option Int
  | .setup => Option SetupConfig
  | .updatedAt => Int

def ChannelField.get (channel : Channel) : (field : ChannelField) → field.Value
  | .agentId => channel.agentId
  | .config => channel.config
  | .status => channel.status
  | .enabled => channel.enabled
  | .errorMessage => channel.errorMessage
  | .lastStartedAt => channel.lastStartedAt
  | .address => channel.userAddress.bind (·.address)
  | .pairing => (channel.userAddress.bind (·.pairingCode),
      channel.userAddress.bind (·.pairingInitiatedAt))
  | .pairedAt => channel.userAddress.bind (·.pairedAt)
  | .setup => channel.setup
  | .updatedAt => channel.updatedAt

def ChannelCall.sets (call : ChannelCall) (seen : Channel) : ChannelField → Bool
  | .agentId => match call with
      | .update _ agentId _ _ _ => agentId.isSome
      | _ => false
  | .config => match call with
      | .update _ _ config _ _ => config.isSome
      | _ => false
  | .status => match call with
      | .update _ _ _ missing _ => !seen.enabled && missing = some []
      | .markStatus .. => true
      | _ => false
  | .enabled => match call with
      | .setEnabled .. => true
      | _ => false
  | .errorMessage => match call with
      | .update .. => !seen.enabled
      | .setEnabled .. | .markStatus .. => true
      | _ => false
  | .lastStartedAt => match call with
      | .markStatus status _ _ => status = .connected
      | _ => false
  | .address => match call with
      | .tryRedeemPairing .. => true
      | _ => false
  | .pairing => match call with
      | .initiatePairing .. | .cancelPairing .. | .revertOrphaned _ | .revertExpired .. => true
      | .tryRedeemPairing .. => true
      | _ => false
  | .pairedAt => match call with
      | .cancelPairing .. | .revertOrphaned _ | .revertExpired .. =>
          (seen.userAddress.bind (·.address)).isNone
      | .tryRedeemPairing .. => true
      | _ => false
  | .setup => match call with
      | .setSetup .. | .clearSetup _ => true
      | _ => false
  | .updatedAt => true

theorem revertPairing_keeps (now : Int) (seen : Channel) (field : ChannelField)
    (kept : (ChannelCall.revertOrphaned now).sets seen field = false) :
    field.get (revertPairing now seen) = field.get seen := by
  cases known : seen.userAddress with
  | none => cases field <;> simp_all [ChannelField.get, ChannelCall.sets, revertPairing]
  | some user =>
      cases bound : user.address <;> cases field <;>
        simp_all [ChannelField.get, ChannelCall.sets, revertPairing]

theorem ChannelCall.keeps (call : ChannelCall) (seen new : Channel) (field : ChannelField)
    (changed : call.change seen = some new) (kept : call.sets seen field = false) :
    field.get new = field.get seen := by
  cases call with
  | update userId agentId config missing now =>
      simp only [change, ChannelService.update] at changed
      split at changed
      next => cases changed
      next =>
        split at changed
        next =>
          cases changed
          cases agentId <;> cases config <;> cases field <;> simp_all [ChannelField.get, sets]
        next =>
          cases missing with
          | none => cases changed
          | some names =>
              cases names <;> cases changed <;> cases agentId <;> cases config <;> cases field <;>
                simp_all [ChannelField.get, sets]
  | setEnabled enabled error now =>
      cases changed
      cases field <;> simp_all [ChannelField.get, sets, ChannelService.setEnabled]
  | markStatus status error now =>
      cases changed
      cases field <;> simp_all [ChannelField.get, sets, ChannelService.markStatus]
  | initiatePairing userId code now =>
      simp only [change, ChannelService.initiatePairing] at changed
      split at changed <;> cases changed
      cases field <;> simp_all [ChannelField.get, sets]
  | cancelPairing userId now =>
      simp only [change, ChannelService.cancelPairing] at changed
      split at changed <;> cases changed
      exact revertPairing_keeps now seen field kept
  | revertOrphaned now =>
      simp only [change, revertOrphanedPairing] at changed
      split at changed <;> cases changed
      exact revertPairing_keeps now seen field kept
  | revertExpired start now =>
      simp only [change, revertExpiredPairing] at changed
      split at changed
      next => cases changed
      next =>
        split at changed <;> cases changed
        exact revertPairing_keeps now seen field kept
  | setSetup setup now =>
      cases changed
      cases field <;> simp_all [ChannelField.get, sets, ChannelService.setSetup]
  | clearSetup now =>
      simp only [change, ChannelService.clearSetup] at changed
      split at changed <;> cases changed
      cases field <;> simp_all [ChannelField.get, sets]
  | tryRedeemPairing sender body now =>
      simp only [change, ChannelService.tryRedeemPairing] at changed
      split at changed
      next => cases changed
      next =>
        split at changed <;> cases changed
        cases field <;> simp_all [ChannelField.get, sets]

end Writes

end Frona.ChannelService
