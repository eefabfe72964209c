import Nodra.Lib.Countable

/-! The contract with the OTA agent: artifacts, lifecycle states and reported
status. -/
namespace Nodra

abbrev Time := Int

namespace Ota

/-- The Go type is a string; `other` is a text that is none of the constants, and
`other ""` is the zero value. -/
inductive ArtifactType where
  | firmware
  | bsp
  | kernel
  | deviceTree
  | bootloader
  | rootFS
  | container
  | configuration
  | mcuFirmware
  | aiModel
  | other (name : String)
deriving DecidableEq, Countable

inductive Slot where
  | none
  | a
  | b
  | other (name : String)
deriving DecidableEq, Countable

inductive State where
  | pending
  | downloading
  | downloaded
  | verifying
  | staged
  | activating
  | rebooting
  | healthCheck
  | committed
  | failed
  | rollbackPending
  | rolledBack
  | cancelled
  | other (name : String)
deriving DecidableEq, Countable

structure Manifest where
  artifactID : String := ""
  version : String := ""
  type : ArtifactType := .other ""
  architecture : String := ""
  board : String := ""
  sizeBytes : Int := 0
  sha256 : String := ""
  signature : String := ""
  sbom : String := ""
  bundleFormat : String := ""
  minimumBootloader : String := ""
  rollbackSupported : Bool := false
deriving DecidableEq, Countable

structure Policy where
  rebootRequired : Bool := false
  healthTimeout : String := ""
  rollbackOnFailure : Bool := false
  requireABSlots : Bool := false
deriving DecidableEq, Countable

structure Request where
  updateID : String := ""
  deviceID : String := ""
  siteID : String := ""
  manifest : Manifest := {}
  policy : Policy := {}
deriving DecidableEq, Countable

structure Status where
  updateID : String := ""
  deviceID : String := ""
  state : State := .other ""
  progressPercent : Int := 0
  activeSlot : Slot := .none
  targetSlot : Slot := .none
  currentVersion : String := ""
  targetVersion : String := ""
  lastError : String := ""
  updatedAt : Time := 0
deriving DecidableEq, Countable

end Ota

end Nodra
