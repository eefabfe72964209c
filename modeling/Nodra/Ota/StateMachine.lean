import Nodra.Ota.Types

/-! The checks of the OTA package: the lifecycle of an update, and what a request or a
status must have before it is stored. -/
namespace Nodra.Ota

/-- What the package takes from the standard library: the quoting of `%q` and
`time.ParseDuration`. -/
structure Env where
  quote : String → String
  parseDuration : String → Except String Time

def ArtifactType.text : ArtifactType → String
  | .firmware => "firmware"
  | .bsp => "bsp"
  | .kernel => "kernel"
  | .deviceTree => "device-tree"
  | .bootloader => "bootloader"
  | .rootFS => "rootfs"
  | .container => "container"
  | .configuration => "configuration"
  | .mcuFirmware => "mcu-firmware"
  | .aiModel => "ai-model"
  | .other name => name

def Slot.text : Slot → String
  | .none => ""
  | .a => "A"
  | .b => "B"
  | .other name => name

def State.text : State → String
  | .pending => "pending"
  | .downloading => "downloading"
  | .downloaded => "downloaded"
  | .verifying => "verifying"
  | .staged => "staged"
  | .activating => "activating"
  | .rebooting => "rebooting"
  | .healthCheck => "health-check"
  | .committed => "committed"
  | .failed => "failed"
  | .rollbackPending => "rollback-pending"
  | .rolledBack => "rolled-back"
  | .cancelled => "cancelled"
  | .other name => name

def transitions : State → List State
  | .pending => [.downloading, .cancelled, .failed]
  | .downloading => [.downloaded, .cancelled, .failed]
  | .downloaded => [.verifying, .cancelled, .failed]
  | .verifying => [.staged, .cancelled, .failed]
  | .staged => [.activating, .cancelled, .failed]
  | .activating => [.rebooting, .healthCheck, .rollbackPending, .failed]
  | .rebooting => [.healthCheck, .rollbackPending, .failed]
  | .healthCheck => [.committed, .rollbackPending, .failed]
  | .rollbackPending => [.rolledBack, .failed]
  | _ => []

def canTransition (current next : State) : Bool := current = next || next ∈ transitions current

def validateTransition (env : Env) (current next : State) : Option String :=
  if canTransition current next then none
  else
    some ("ota: invalid state transition " ++ env.quote current.text ++ " -> " ++
      env.quote next.text)

def State.terminal : State → Bool
  | .committed | .failed | .rolledBack | .cancelled => true
  | _ => false

def validState : State → Bool
  | .other _ => false
  | _ => true

theorem transitions_eq_nil_iff {s : State} (h : validState s) :
    transitions s = [] ↔ s.terminal := by
  cases s with
  | other name => cases h
  | _ => simp [transitions, State.terminal]

theorem eq_of_canTransition_of_terminal {s next : State} (hterminal : s.terminal)
    (h : canTransition s next) : next = s := by
  have hvalid : validState s := by
    cases s with
    | other name => cases hterminal
    | _ => rfl
  simp only [canTransition, (transitions_eq_nil_iff hvalid).mpr hterminal, List.not_mem_nil,
    decide_false, Bool.or_false, decide_eq_true_eq] at h
  exact h.symm

theorem validateTransition_eq_none_iff {env : Env} {s next : State} :
    validateTransition env s next = none ↔ canTransition s next := by
  simp [validateTransition]

theorem validateTransition_of_terminal (env : Env) {s next : State} (hterminal : s.terminal)
    (hnext : next.terminal = false) : (validateTransition env s next).isSome := by
  rw [Option.isSome_iff_ne_none, ne_eq, validateTransition_eq_none_iff]
  intro h
  rw [eq_of_canTransition_of_terminal hterminal h, hterminal] at hnext
  cases hnext

def isSpace (c : Char) : Bool :=
  0x09 ≤ c.val && c.val ≤ 0x0d || 0x2000 ≤ c.val && c.val ≤ 0x200a ||
    c.val ∈ [0x20, 0x85, 0xa0, 0x1680, 0x2028, 0x2029, 0x202f, 0x205f, 0x3000]

def trimSpace (text : String) : String :=
  String.ofList ((text.toList.dropWhile isSpace).reverse.dropWhile isSpace).reverse

def firstError (checks : List (Option String)) : Option String := checks.findSome? id

def required (field value : String) : Option String :=
  if trimSpace value = "" then some ("ota: " ++ field ++ " is required") else none

def validArtifactType : ArtifactType → Bool
  | .other _ => false
  | _ => true

def validSlot (env : Env) : Slot → Option String
  | .other name => some ("unsupported slot " ++ env.quote name)
  | _ => none

def isHex (c : Char) : Bool :=
  '0' ≤ c && c ≤ '9' || 'a' ≤ c && c ≤ 'f' || 'A' ≤ c && c ≤ 'F'

def validSHA256 (text : String) : Bool := text.utf8ByteSize = 64 && text.toList.all isHex

def Policy.healthTimeoutDuration (env : Env) (p : Policy) : Except String Time :=
  let text := trimSpace p.healthTimeout
  if text = "" then .ok 0
  else
    match env.parseDuration text with
    | .error err =>
      .error ("ota: invalid health_timeout " ++ env.quote p.healthTimeout ++ ": " ++ err)
    | .ok d => if d < 0 then .error "ota: health_timeout cannot be negative" else .ok d

def Manifest.validate (env : Env) (m : Manifest) : Option String :=
  firstError
    [required "artifact_id" m.artifactID,
      required "version" m.version,
      if validArtifactType m.type then none
      else some ("ota: unsupported artifact type " ++ env.quote m.type.text),
      required "architecture" m.architecture,
      if m.sizeBytes ≤ 0 then some "ota: size_bytes must be positive" else none,
      if validSHA256 m.sha256 then none else some "ota: sha256 must be 64 hexadecimal characters",
      required "signature" m.signature]

def Request.validate (env : Env) (r : Request) : Option String :=
  firstError
    [required "update_id" r.updateID,
      required "device_id" r.deviceID,
      r.manifest.validate env,
      match r.policy.healthTimeoutDuration env with
      | .error err => some err
      | .ok _ => none]

def Status.validate (env : Env) (st : Status) : Option String :=
  firstError
    [required "update_id" st.updateID,
      required "device_id" st.deviceID,
      if validState st.state then none
      else some ("ota: unsupported state " ++ env.quote st.state.text),
      if st.progressPercent < 0 ∨ st.progressPercent > 100 then
        some "ota: progress_percent must be between 0 and 100"
      else none,
      (validSlot env st.activeSlot).map ("ota: active_slot: " ++ ·),
      (validSlot env st.targetSlot).map ("ota: target_slot: " ++ ·)]

def isOta (err : String) : Bool := "ota:".toList.isPrefixOf err.toList

end Nodra.Ota
