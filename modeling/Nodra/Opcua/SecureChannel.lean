import Nodra.Opcua.Wire

/-! The Basic256Sha256 channel of the OPC-UA client: how a chunk is framed, signed and encrypted,
how a received one is opened again, and the service call that sends one and reads one. -/
namespace Nodra.Opcua

open Nodra.Lines List Option

def basic256SignatureSize : Nat := 32
def basic256SymIVLength : Nat := 16
def basic256MinAsymKeyBits : Nat := 2048

/-- The library's HMAC-SHA256 and AES-CBC, with what is used of them. -/
structure Primitives where
  hmacSHA256 : Bytes → Bytes → Bytes
  encryptBlocks : Bytes → Bytes → Bytes → Bytes
  decryptBlocks : Bytes → Bytes → Bytes → Bytes
  length_hmacSHA256 : ∀ key data, (hmacSHA256 key data).length = basic256SignatureSize
  length_encryptBlocks : ∀ key iv plain, (encryptBlocks key iv plain).length = plain.length
  decrypt_encrypt : ∀ key iv plain, plain.length % basic256SymIVLength = 0 →
    decryptBlocks key iv (encryptBlocks key iv plain) = plain

structure ChannelKeys where
  clientSigning : Bytes
  clientEncrypting : Bytes
  clientIV : Bytes
  serverSigning : Bytes
  serverEncrypting : Bytes
  serverIV : Bytes

structure ChannelCrypto where
  clientThumbprint : Bytes
  serverCertDER : Bytes
  clientKeyBits : Nat
  serverKeySize : Nat
  rsaOAEPDecrypt : Bytes → Option Bytes
  rsaVerifySHA256 : Bytes → Bytes → Bool

inductive Mode where
  | sign
  | signAndEncrypt
  deriving DecidableEq

structure Session where
  channelID : Nat
  tokenID : Nat
  seqNum : Nat
  reqID : Nat
  mode : Mode
  keys : Option ChannelKeys
  crypto : ChannelCrypto

def paddingField (n : Nat) (extraByte : Bool) : Bytes :=
  List.replicate (n + 1) (UInt8.ofNat n) ++ if extraByte then [UInt8.ofNat (n / 256)] else []

def messagePadding (dataLen signatureSize blockSize : Nat) (extraByte : Bool) : Bytes :=
  let header := if extraByte then 2 else 1
  paddingField ((blockSize - (dataLen + header + signatureSize) % blockSize) % blockSize) extraByte

def stripMessagePadding (b : Bytes) (extraByte : Bool) : Option Bytes :=
  let header := if extraByte then 2 else 1
  let last := (b.getD (b.length - 1) 0).toNat
  let n := if extraByte then last * 256 + (b.getD (b.length - 2) 0).toNat else last
  let dataEnd := b.length - n - header
  if b.length < n + header then none
  else if ((b.drop dataEnd).take (n + 1)).all (· == UInt8.ofNat n) then some (b.take dataEnd)
  else none

def aesCBCEncrypt (p : Primitives) (key iv plain : Bytes) : Option Bytes :=
  if plain.length % basic256SymIVLength = 0 then some (p.encryptBlocks key iv plain) else none

def aesCBCDecrypt (p : Primitives) (key iv ciphertext : Bytes) : Option Bytes :=
  if ciphertext.length ≠ 0 ∧ ciphertext.length % basic256SymIVLength = 0 then
    some (p.decryptBlocks key iv ciphertext)
  else none

def chunkHeader (msgType : Bytes) (size channelID : Nat) : Bytes :=
  msgType ++ [70] ++ little 4 size ++ little 4 channelID

def sequenceHeader (seqNum reqID : Nat) : Bytes := little 4 seqNum ++ little 4 reqID

def symmetricPadding (mode : Mode) (dataLen : Nat) : Bytes :=
  match mode with
  | .sign => []
  | .signAndEncrypt => messagePadding dataLen basic256SignatureSize basic256SymIVLength false

def encryptPayload (p : Primitives) (mode : Mode) (encrypting iv payload : Bytes) : Option Bytes :=
  match mode with
  | .sign => some payload
  | .signAndEncrypt => aesCBCEncrypt p encrypting iv payload

def symmetricChunk (p : Primitives) (mode : Mode) (signing encrypting iv msgType : Bytes)
    (channelID tokenID seqNum reqID : Nat) (body : Bytes) : Option Bytes :=
  let secHeader := little 4 tokenID
  let seqHeader := sequenceHeader seqNum reqID
  let pad := symmetricPadding mode (seqHeader.length + body.length)
  let hdr := chunkHeader msgType (12 + secHeader.length + seqHeader.length + body.length + pad.length +
    basic256SignatureSize) channelID
  let sig := p.hmacSHA256 signing (hdr ++ secHeader ++ seqHeader ++ body ++ pad)
  (encryptPayload p mode encrypting iv (seqHeader ++ body ++ pad ++ sig)).map (hdr ++ secHeader ++ ·)

def writeSymmetricMessage (p : Primitives) (s : Session) (msgType body : Bytes) : Session × Option Bytes :=
  match s.keys with
  | none => (s, none)
  | some k =>
    let next := { s with seqNum := (s.seqNum + 1) % 2 ^ 32, reqID := (s.reqID + 1) % 2 ^ 32 }
    (next, symmetricChunk p s.mode k.clientSigning k.clientEncrypting k.clientIV msgType s.channelID
      s.tokenID next.seqNum next.reqID body)

def readChunkRaw : Reader (Bytes × Bytes × Bytes) := do
  let hdr ← raw 8
  let size := littleValue (hdr.drop 4)
  if size < 8 then failure
  else do
    let payload ← raw (size - 8)
    pure (hdr.take 3, hdr, payload)

def decryptPayload (p : Primitives) (mode : Mode) (encrypting iv data : Bytes) : Option Bytes :=
  match mode with
  | .sign => some data
  | .signAndEncrypt => aesCBCDecrypt p encrypting iv data

def decodeSymmetricChunk (p : Primitives) (s : Session) (hdr security data : Bytes) : Option Bytes := do
  let k ← s.keys
  let data ← decryptPayload p s.mode k.serverEncrypting k.serverIV data
  if data.length < 8 + basic256SignatureSize then none
  else
    let signedLen := data.length - basic256SignatureSize
    if p.hmacSHA256 k.serverSigning (hdr ++ security ++ data.take signedLen) = data.drop signedLen then
      let body := (data.take signedLen).drop 8
      match s.mode with
      | .sign => some body
      | .signAndEncrypt => stripMessagePadding body false
    else none

def decodeAsymmetricChunk (c : ChannelCrypto) (hdr security senderCert data : Bytes) : Option Bytes :=
  if senderCert ≠ [] ∧ ¬ c.serverCertDER <+: senderCert then none
  else do
    let plain ← c.rsaOAEPDecrypt data
    if plain.length < 8 + c.serverKeySize then none
    else
      let signedLen := plain.length - c.serverKeySize
      if c.rsaVerifySHA256 (hdr ++ security ++ plain.take signedLen) (plain.drop signedLen) then
        stripMessagePadding ((plain.take signedLen).drop 8) (basic256MinAsymKeyBits < c.clientKeyBits)
      else none

def opn : Bytes := [79, 80, 78]
def msg : Bytes := [77, 83, 71]
def err : Bytes := [69, 82, 82]

def decodeSecuredChunk (p : Primitives) (s : Session) (msgType hdr payload : Bytes) : Option Bytes :=
  if msgType = opn then do
    let ((senderCert, thumbprint), data) ← (do
      let _ ← u32
      let _ ← str
      let senderCert ← str
      let thumbprint ← str
      pure (senderCert, thumbprint) : Reader (Bytes × Bytes)).run payload
    if thumbprint ≠ [] ∧ thumbprint ≠ s.crypto.clientThumbprint then none
    else decodeAsymmetricChunk s.crypto hdr (payload.take (payload.length - data.length)) senderCert data
  else do
    let (_, data) ← (do let _ ← u32; u32 : Reader Nat).run payload
    decodeSymmetricChunk p s hdr (payload.take (payload.length - data.length)) data

def readSecureMessage (p : Primitives) (s : Session) (stream : Bytes) : Option (Bytes × Bytes) := do
  let ((msgType, hdr, payload), _) ← readChunkRaw.run stream
  if msgType = err ∨ hdr.getD 3 0 = 65 ∨ hdr.getD 3 0 = 67 then none
  else
    let body ← decodeSecuredChunk p s msgType hdr payload
    pure (msgType, body)

def serviceCall (p : Primitives) (s : Session) (expectedRespTypeID : Nat) (reqBody stream : Bytes) :
    Session × Option Bytes :=
  let (s, written) := writeSymmetricMessage p s msg reqBody
  (s, do
    let _ ← written
    let (msgType, respBody) ← readSecureMessage p s stream
    if msgType ≠ msg then none
    else
      let (gotType, rest) ← readTypeID.run respBody
      if gotType ≠ expectedRespTypeID then none else some rest)

section

theorem stripMessagePadding_append (data : Bytes) {n : Nat} {extraByte : Bool}
    (h : n < if extraByte then 65536 else 256) :
    stripMessagePadding (data ++ paddingField n extraByte) extraByte = some data := by
  cases extraByte with
  | false =>
    have hbyte : (UInt8.ofNat n).toNat = n := UInt8.toNat_ofNat_of_lt h
    have hlen : data.length + (n + 1) - n - 1 = data.length := by omega
    have hlt : n < data.length + (n + 1) := by omega
    simp [stripMessagePadding, paddingField, -UInt8.toNat_ofNat', hbyte, hlen, hlt]
  | true =>
    have hhigh : n / 256 % 256 = n / 256 := Nat.mod_eq_of_lt (Nat.div_lt_of_lt_mul h)
    have hindex : data.length + (n + 1 + 1) - 2 = data.length + n := by omega
    have hlow (d : UInt8) : (data ++ (List.replicate (n + 1) (UInt8.ofNat n) ++ [d]))[data.length + n]? =
        some (UInt8.ofNat n) := by
      simp [getElem?_append]
    have hsize : n / 256 * 256 + n % 256 = n := Nat.div_add_mod' n 256
    have hlen : data.length + (n + 1 + 1) - n - 2 = data.length := by omega
    simp [stripMessagePadding, paddingField, hindex, hlow, hhigh, hsize, hlen]

theorem decryptPayload_encryptPayload {p : Primitives} {mode : Mode} {key iv payload sealed : Bytes}
    (hlen : payload.length ≠ 0) (h : encryptPayload p mode key iv payload = some sealed) :
    sealed.length = payload.length ∧ decryptPayload p mode key iv sealed = some payload := by
  cases mode with
  | sign =>
    cases h
    exact ⟨rfl, rfl⟩
  | signAndEncrypt =>
    simp only [encryptPayload, aesCBCEncrypt] at h
    split at h
    next hblocks =>
      cases h
      have hsame := p.length_encryptBlocks key iv payload
      refine ⟨hsame, ?_⟩
      simp only [decryptPayload, aesCBCDecrypt, hsame]
      rw [if_pos ⟨hlen, hblocks⟩, p.decrypt_encrypt key iv payload hblocks]
    next => cases h

def messageHeader (msgType : Bytes) (size : Nat) : Bytes := msgType ++ [70] ++ little 4 size

theorem reads_readChunkRaw {msgType payload : Bytes} {size : Nat} (htype : msgType.length = 3)
    (hsize : size = 8 + payload.length) (hfits : size < 2 ^ 32) :
    Reader.Reads readChunkRaw (messageHeader msgType size ++ payload)
      (msgType, messageHeader msgType size, payload) := by
  have hlen : (messageHeader msgType size).length = 8 := by simp [messageHeader, htype]
  have hdrop : (messageHeader msgType size).drop 4 = little 4 size :=
    drop_left' (by simp [htype])
  have htake : (messageHeader msgType size).take 3 = msgType := by
    rw [messageHeader, append_assoc]
    exact take_left' htype
  refine Reader.Reads.bind (reads_raw hlen) ?_
  have hmod : size % 256 ^ 4 = size := Nat.mod_eq_of_lt hfits
  rw [hdrop, littleValue_little, hmod, htake, if_neg (by omega)]
  rw [← append_nil payload]
  refine Reader.Reads.bind (reads_raw (by simp [hsize])) ?_
  rw [append_nil]
  exact Reader.Reads.pure _

variable {p : Primitives} {s : Session} {k : ChannelKeys}

section

variable {signing encrypting iv msgType body chunk : Bytes} {mode : Mode}
  {channelID tokenID seqNum reqID : Nat}

theorem exists_of_symmetricChunk (htype : msgType.length = 3)
    (h : symmetricChunk p mode signing encrypting iv msgType channelID tokenID seqNum reqID body = some chunk) :
    ∃ sealed, chunk = messageHeader msgType chunk.length ++ (little 4 channelID ++ little 4 tokenID ++ sealed) ∧
      let plain := sequenceHeader seqNum reqID ++ body ++ symmetricPadding mode (8 + body.length)
      decryptPayload p mode encrypting iv sealed = some (plain ++ p.hmacSHA256 signing
        (messageHeader msgType chunk.length ++ (little 4 channelID ++ little 4 tokenID) ++ plain)) := by
  obtain ⟨sealed, hsealed, rfl⟩ := map_eq_some_iff.mp h
  have hseq : (sequenceHeader seqNum reqID).length = 8 := by simp [sequenceHeader]
  obtain ⟨hlen, hopen⟩ := decryptPayload_encryptPayload (by simp [hseq]) hsealed
  set pad := symmetricPadding mode ((sequenceHeader seqNum reqID).length + body.length) with hpad
  set size := 12 + (little 4 tokenID).length + (sequenceHeader seqNum reqID).length + body.length + pad.length +
    basic256SignatureSize with hsize
  have hwhole : (chunkHeader msgType size channelID ++ little 4 tokenID ++ sealed).length = size := by
    simp only [chunkHeader, length_append, htype, length_little, hlen, p.length_hmacSHA256, hseq, hsize,
      length_cons, length_nil]
    omega
  refine ⟨sealed, ?_⟩
  rw [hwhole]
  constructor
  · simp only [messageHeader, chunkHeader, append_assoc]
  · rw [hseq] at hpad
    simp only [hopen, hpad, messageHeader, chunkHeader, append_assoc]

end

theorem stripMessagePadding_symmetric (body : Bytes) (n : Nat) :
    stripMessagePadding (body ++ symmetricPadding .signAndEncrypt n) false = some body :=
  stripMessagePadding_append body (Nat.lt_trans (Nat.mod_lt _ (by decide)) (by decide : 16 < 256))

theorem decodeSymmetricChunk_of_decrypted {hdr security data seqHeader body : Bytes} {n : Nat}
    (hkeys : s.keys = some k) (hseq : seqHeader.length = 8)
    (h : let plain := seqHeader ++ body ++ symmetricPadding s.mode n
      decryptPayload p s.mode k.serverEncrypting k.serverIV data =
        some (plain ++ p.hmacSHA256 k.serverSigning (hdr ++ security ++ plain))) :
    decodeSymmetricChunk p s hdr security data = some body := by
  set plain := seqHeader ++ body ++ symmetricPadding s.mode n with hplain
  set sig := p.hmacSHA256 k.serverSigning (hdr ++ security ++ plain) with hsig
  have hlen : (plain ++ sig).length - basic256SignatureSize = plain.length := by
    simp [hsig, p.length_hmacSHA256]
  have hdrop : plain.drop 8 = body ++ symmetricPadding s.mode n := by
    rw [hplain, append_assoc]
    exact drop_left' hseq
  have hlong : ¬ (plain ++ sig).length < 8 + basic256SignatureSize := by
    simp [hplain, hsig, p.length_hmacSHA256, hseq]
    omega
  simp only [decodeSymmetricChunk, hkeys, h, bind_eq_bind, bind_some, if_neg hlong, hlen,
    take_left', drop_left', hdrop, ← hsig, if_true]
  cases hmode : s.mode with
  | sign => simp [symmetricPadding]
  | signAndEncrypt => exact stripMessagePadding_symmetric body n

theorem decodeSecuredChunk_symmetric {msgType hdr ids data : Bytes} (htype : msgType ≠ opn)
    (hids : ids.length = 8) :
    decodeSecuredChunk p s msgType hdr (ids ++ data) = decodeSymmetricChunk p s hdr ids data := by
  have hread : (do let _ ← u32; u32 : Reader Nat).run (ids ++ data) =
      some (littleValue (ids.drop 4), data) := by
    rw [← take_append_drop 4 ids]
    refine Reader.Reads.bind (reads_u32 (by simp [hids])) ?_ data
    have hsecond : Reader.Reads u32 (ids.drop 4) (littleValue (ids.drop 4)) := reads_u32 (by simp [hids])
    simpa using hsecond
  simp only [decodeSecuredChunk, if_neg htype, hread]
  simp

def receivedRequestID (p : Primitives) (s : Session) (stream : Bytes) : Option Nat := do
  let k ← s.keys
  let ((_, _, payload), _) ← readChunkRaw.run stream
  let data ← decryptPayload p s.mode k.serverEncrypting k.serverIV (payload.drop 8)
  pure (littleValue ((data.drop 4).take 4))

theorem readSecureMessage_chunk {channelID tokenID seqNum reqID : Nat} {body chunk : Bytes}
    (hkeys : s.keys = some k)
    (h : symmetricChunk p s.mode k.serverSigning k.serverEncrypting k.serverIV msg channelID tokenID seqNum
      reqID body = some chunk) (hfits : chunk.length < 2 ^ 32) (rest : Bytes) :
    readSecureMessage p s (chunk ++ rest) = some (msg, body) ∧
      receivedRequestID p s (chunk ++ rest) = some (reqID % 2 ^ 32) := by
  obtain ⟨sealed, hchunk, hopen⟩ := exists_of_symmetricChunk rfl h
  set ids := little 4 channelID ++ little 4 tokenID with hids
  have hlen : ids.length = 8 := by simp [hids]
  have hsize : chunk.length = 8 + (ids ++ sealed).length := by
    have hsame := congrArg List.length hchunk
    simp only [length_append, messageHeader, length_little, msg, length_cons, length_nil] at hsame ⊢
    omega
  have hread := reads_readChunkRaw (show msg.length = 3 from rfl) hsize hfits rest
  rw [← hchunk] at hread
  constructor
  · have hbody : decodeSecuredChunk p s msg (messageHeader msg chunk.length) (ids ++ sealed) = some body := by
      rw [decodeSecuredChunk_symmetric (by decide) hlen]
      exact decodeSymmetricChunk_of_decrypted hkeys (by simp [sequenceHeader]) hopen
    have hfinal : ¬ (msg = err ∨ (messageHeader msg chunk.length).getD 3 0 = 65 ∨
        (messageHeader msg chunk.length).getD 3 0 = 67) := by
      simp [messageHeader, msg, err]
    simp only [readSecureMessage, hread, bind_eq_bind, bind_some, if_neg hfinal, hbody]
    rfl
  · have hid : ((sequenceHeader seqNum reqID ++ body ++ symmetricPadding s.mode (8 + body.length) ++
        p.hmacSHA256 k.serverSigning (messageHeader msg chunk.length ++ ids ++ (sequenceHeader seqNum reqID ++
          body ++ symmetricPadding s.mode (8 + body.length)))).drop 4).take 4 = little 4 reqID := by
      simp only [sequenceHeader, append_assoc]
      rw [drop_left' (by simp), take_left' (by simp)]
    simp only [receivedRequestID, hkeys, hread, bind_eq_bind, bind_some, drop_left' hlen, hopen,
      hid, littleValue_little]
    rfl

end

end Nodra.Opcua
