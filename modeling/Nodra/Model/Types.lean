import Nodra.Ota.Types

/-! The records of the control plane.  The defaults of the fields are the zero
values of Go. -/
namespace Nodra.Model
open Std

/-- A Go value of type `any` that was read from JSON, by its compact text. -/
structure Any where
  text : String
deriving DecidableEq, Countable

structure Site where
  id : String := ""
  name : String := ""
  tokenHash : String := ""
  status : String := ""
  version : String := ""
  lastSeen : Time := 0
  createdAt : Time := 0
  metadata : ExtTreeMap String String := ∅
  metrics : ExtTreeMap String Any := ∅
  certificateSerial : String := ""
  certificateExpiresAt : Time := 0
  revoked : Bool := false
  revokedAt : Time := 0
  orgID : String := ""
deriving DecidableEq, Countable

structure Org where
  id : String := ""
  name : String := ""
  createdAt : Time := 0
  enrollmentTokenHash : String := ""
  adminTokenHash : String := ""
  viewerTokenHash : String := ""
deriving DecidableEq, Countable

structure Device where
  id : String := ""
  siteID : String := ""
  name : String := ""
  protocol : String := ""
  status : String := ""
  lastSeen : Time := 0
  createdAt : Time := 0
  tags : ExtTreeMap String String := ∅
deriving DecidableEq, Countable

structure Twin where
  deviceID : String := ""
  siteID : String := ""
  desired : ExtTreeMap String Any := ∅
  reported : ExtTreeMap String Any := ∅
  desiredVersion : Nat := 0
  reportedVersion : Nat := 0
  updatedAt : Time := 0
deriving DecidableEq, Countable

structure Route where
  id : String := ""
  name : String := ""
  siteID : String := ""
  topic : String := ""
  targetURL : String := ""
  method : String := ""
  enabled : Bool := false
  retryMax : Int := 0
  timeoutSecs : Int := 0
  headers : ExtTreeMap String String := ∅
  createdAt : Time := 0
deriving DecidableEq, Countable

structure Event where
  id : String := ""
  siteID : String := ""
  topic : String := ""
  payload : Any := ⟨""⟩
  headers : ExtTreeMap String String := ∅
  eventTime : Time := 0
  ingestedAt : Time := 0
  createdAt : Time := 0
deriving DecidableEq, Countable

structure Delivery where
  id : String := ""
  routeID : String := ""
  eventID : String := ""
  siteID : String := ""
  topic : String := ""
  targetURL : String := ""
  method : String := ""
  payload : Any := ⟨""⟩
  headers : ExtTreeMap String String := ∅
  timeoutSecs : Int := 0
  attempts : Int := 0
  maxAttempts : Int := 0
  nextAttempt : Time := 0
  eventTime : Time := 0
  createdAt : Time := 0
  lastError : String := ""
deriving DecidableEq, Countable

structure DeadLetter where
  delivery : Delivery := {}
  failedAt : Time := 0
  reason : String := ""
deriving DecidableEq, Countable

structure Deployment where
  id : String := ""
  siteID : String := ""
  name : String := ""
  version : String := ""
  image : String := ""
  status : String := ""
  desiredState : String := ""
  actualState : String := ""
  env : ExtTreeMap String String := ∅
  ports : List String := []
  volumes : List String := []
  command : List String := []
  createdAt : Time := 0
  updatedAt : Time := 0
  lastGoodImage : String := ""
  lastGoodVersion : String := ""
  signatureMode : String := ""
  deployedAt : Time := 0
deriving DecidableEq, Countable

structure Alert where
  id : String := ""
  siteID : String := ""
  severity : String := ""
  type : String := ""
  message : String := ""
  resolved : Bool := false
  createdAt : Time := 0
deriving DecidableEq, Countable

structure PolicyPack where
  id : String := ""
  name : String := ""
  version : Int := 0
  siteID : String := ""
  enabled : Bool := false
  allowedImages : List String := []
  createdAt : Time := 0
  updatedAt : Time := 0
deriving DecidableEq, Countable

structure OTACampaignStage where
  canaryPercent : Int := 0
deriving DecidableEq, Countable

structure OTACampaignDevice where
  deviceID : String := ""
  siteID : String := ""
  updateID : String := ""
  stage : Int := 0
  state : Ota.State := .other ""
deriving DecidableEq, Countable

structure OTACampaign where
  id : String := ""
  name : String := ""
  siteIDs : List String := []
  deviceIDs : List String := []
  stages : List OTACampaignStage := []
  manifest : Ota.Manifest := {}
  policy : Ota.Policy := {}
  failureThresholdPercent : Int := 0
  status : String := ""
  currentStage : Int := 0
  targetDeviceIDs : List String := []
  devices : List OTACampaignDevice := []
  createdAt : Time := 0
  updatedAt : Time := 0
deriving DecidableEq, Countable

@[ext] structure State where
  sites : List Site := []
  devices : List Device := []
  twins : List Twin := []
  routes : List Route := []
  deployments : List Deployment := []
  alerts : List Alert := []
  events : List Event := []
  seenEvents : List String := []
  policyPacks : List PolicyPack := []
  orgs : List Org := []
  otaCampaigns : List OTACampaign := []
deriving DecidableEq, Countable

end Nodra.Model
