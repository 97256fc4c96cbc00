import DisaggregationFabric.Codec.Compositions
import DisaggregationFabric.Lib.Stream

/-!
# Frames

`protocol.cpp`: the framed protocol between the coordinator, its workers and its
clients. A frame is a header (magic, version, type, correlation, payload length), a
payload of at most `maxFrameLen` bytes, and a checksum over both. `encode` writes one;
`nextFrame` is the body of the loop of `FrameDecoder::Feed`, which looks at the front
of the buffer.

Each verdict of `nextFrame` is about a prefix of the buffer (`nextFrame_append`), so
the decoder is a `Scanner`, and `FrameDecoder::Feed` is its `feed`: it appends a chunk
and cuts frames off until the front is short or refused.
-/

namespace DFabric

namespace Proto

open Wire EnumTraits

/-! ### The table of frame types -/

/-- `FrameType`. -/
inductive FrameType where
  | hello | register | publishNode | publishResource | heartbeat | composeReq | reserveReq
  | commitReq | activateReq | queryState | ack | nack | composeResp | reserveResp | commitResp
  | activateResp | stateResp | err | bye | saveReq | saveResp | releaseReq | releaseResp
deriving DecidableEq, Inhabited

instance : EnumTraits FrameType where
  value
    | .hello => 1
    | .register => 2
    | .publishNode => 3
    | .publishResource => 4
    | .heartbeat => 5
    | .composeReq => 6
    | .reserveReq => 7
    | .commitReq => 8
    | .activateReq => 9
    | .queryState => 10
    | .ack => 11
    | .nack => 12
    | .composeResp => 13
    | .reserveResp => 14
    | .commitResp => 15
    | .activateResp => 16
    | .stateResp => 17
    | .err => 18
    | .bye => 19
    | .saveReq => 20
    | .saveResp => 21
    | .releaseReq => 22
    | .releaseResp => 23
  table := [
    .hello, .register, .publishNode, .publishResource, .heartbeat, .composeReq, .reserveReq,
    .commitReq, .activateReq, .queryState, .ack, .nack, .composeResp, .reserveResp, .commitResp,
    .activateResp, .stateResp, .err, .bye, .saveReq, .saveResp, .releaseReq, .releaseResp]
  maxValue := 23
  mem_table e := by cases e <;> decide
  value_inj := by decide
  covers := by decide

/-- `MaxFrameLen`: the longest payload of a frame type. -/
def maxFrameLen : FrameType → UInt32
  | .hello => 4096
  | .register => 4096
  | .publishNode => 65536
  | .publishResource => 65536
  | .heartbeat => 256
  | .composeReq => 8192
  | .reserveReq => 262144
  | .commitReq => 8192
  | .activateReq => 8192
  | .queryState => 1024
  | .ack => 1024
  | .nack => 4096
  | .composeResp => 524288
  | .reserveResp => 524288
  | .commitResp => 524288
  | .activateResp => 524288
  | .stateResp => 524288
  | .err => 4096
  | .bye => 256
  | .saveReq => 1024
  | .saveResp => 4096
  | .releaseReq => 1024
  | .releaseResp => 1024

/-- `MaxFrameLen` of any value cast to a frame type: zero outside the table. -/
def maxFrameLenOf (v : UInt32) : UInt32 :=
  match (ofValue? v : Option FrameType) with
  | some t => maxFrameLen t
  | none => 0

/-- `GlobalMaxFrameLen`. -/
def globalMaxFrameLen : UInt32 :=
  (List.range' 1 23).foldl (fun m v =>
    let x := maxFrameLenOf (UInt32.ofNat v)
    if m < x then x else m) 0

theorem maxFrameLen_ne_zero (t : FrameType) : maxFrameLen t ≠ 0 := by
  cases t <;> decide

theorem globalMaxFrameLen_eq : globalMaxFrameLen = 524288 := by
  decide +kernel

theorem maxFrameLen_le_global (t : FrameType) : maxFrameLen t ≤ globalMaxFrameLen := by
  rw [globalMaxFrameLen_eq]
  cases t <;> decide

/-- A value with a positive bound is that of a frame type. -/
theorem maxFrameLenOf_ne_zero {v : UInt32} (h : maxFrameLenOf v ≠ 0) :
    ∃ t : FrameType, v = value t ∧ maxFrameLenOf v = maxFrameLen t := by
  unfold maxFrameLenOf at h ⊢
  split
  · next t ht => exact ⟨t, (by simpa using List.find?_some ht : value t = v).symm, rfl⟩
  · next hnone => rw [hnone] at h; exact absurd rfl h

theorem maxFrameLenOf_value (t : FrameType) : maxFrameLenOf (value t) = maxFrameLen t := by
  rw [maxFrameLenOf, ofValue?_value]

/-! ### Encoding -/

/-- `kFrameMagic`. -/
def frameMagic : UInt32 := 0x31465044

/-- `kFrameVersion`. -/
def frameVersion : UInt8 := 1

/-- `kHeaderLen`. -/
def headerLen : ℕ := 4 + 1 + 4 + 8 + 4

/-- `Fnv`, the function that `Checksum` of the durable file is as well. -/
def fnv (d : List UInt8) : UInt64 := checksum d

/-- `PutU32`. -/
def putU32 (x : UInt32) : List UInt8 := leBytes 4 x.toNat

/-- `PutU64`. -/
def putU64 (x : UInt64) : List UInt8 := leBytes 8 x.toNat

/-- A decoded frame. -/
structure Frame where
  type : FrameType
  correlation : UInt64
  payload : List UInt8

/-- The five fields in front of the payload. -/
def header (type : FrameType) (correlation : UInt64) (payLen : UInt32) : List UInt8 :=
  putU32 frameMagic ++ ([frameVersion] ++
    (putU32 (value type) ++ (putU64 correlation ++ putU32 payLen)))

/-- `Encode`. The payload is what the pointer and the length describe. -/
def encode (type : FrameType) (correlation : UInt64) (payload : List UInt8) : List UInt8 :=
  let max := maxFrameLen type
  if max = 0 ∨ max.toNat < payload.length then []
  else
    let v := header type correlation (UInt32.ofNat payload.length) ++ payload
    v ++ putU64 (fnv v)

/-- The encoding of a frame. -/
def Frame.encode (f : Frame) : List UInt8 := Proto.encode f.type f.correlation f.payload

/-- The payload is no longer than the type allows. -/
def Frame.Fits (f : Frame) : Prop := f.payload.length ≤ (maxFrameLen f.type).toNat

instance (f : Frame) : Decidable f.Fits := inferInstanceAs (Decidable (_ ≤ _))

/-! ### The front of the buffer -/

/-- `GetU32`. -/
def getU32 (d : List UInt8) (off : ℕ) : UInt32 := UInt32.ofNat (ofLE ((d.drop off).take 4))

/-- `GetU64`. -/
def getU64 (d : List UInt8) (off : ℕ) : UInt64 := UInt64.ofNat (ofLE ((d.drop off).take 8))

/-- The checks of a complete header: the type and the payload length, or why the
stream is refused. -/
def checkHeader (buffer : List UInt8) : Except Str (FrameType × UInt32) :=
  if getU32 buffer 0 ≠ frameMagic then .error (str "bad frame magic")
  else if buffer.getD 4 0 ≠ frameVersion then .error (str "unsupported frame version")
  else
    let typeRaw := getU32 buffer 5
    let max := maxFrameLenOf typeRaw
    if max = 0 then .error (str "unknown frame type")
    else
      let payLen := getU32 buffer 17
      if max < payLen ∨ globalMaxFrameLen < payLen then .error (str "oversized frame")
      else .ok (ofValue typeRaw, payLen)

/-- The body of the loop of `FrameDecoder::Feed`. -/
def nextFrame (buffer : List UInt8) : Front Frame Str :=
  if buffer.length < headerLen then .short
  else
    match checkHeader buffer with
    | .error e => .refused e
    | .ok (type, payLen) =>
      let total := headerLen + payLen.toNat + 8
      -- a partial payload or checksum
      if buffer.length < total then .short
      else if getU64 buffer (headerLen + payLen.toNat) ≠
          fnv (buffer.take (headerLen + payLen.toNat)) then
        .refused (str "frame checksum mismatch")
      else
        .message ⟨type, getU64 buffer 9, (buffer.drop headerLen).take payLen.toNat⟩ total

/-! ### Reading a prefix -/

section Prefix

variable {buf : List UInt8} (more : List UInt8)

/-- A field that is there is read from the same bytes when more arrives. -/
theorem take_drop_append {off n : ℕ} (h : off + n ≤ buf.length) :
    ((buf ++ more).drop off).take n = (buf.drop off).take n := by
  rw [List.drop_append_of_le_length (by omega), List.take_append_of_le_length]
  rw [List.length_drop]
  omega

theorem getU32_append {off : ℕ} (h : off + 4 ≤ buf.length) :
    getU32 (buf ++ more) off = getU32 buf off := by
  rw [getU32, take_drop_append more h, getU32]

theorem getU64_append {off : ℕ} (h : off + 8 ≤ buf.length) :
    getU64 (buf ++ more) off = getU64 buf off := by
  rw [getU64, take_drop_append more h, getU64]

/-- The header is checked on its own bytes. -/
theorem checkHeader_append (h : headerLen ≤ buf.length) :
    checkHeader (buf ++ more) = checkHeader buf := by
  have hlen : 21 ≤ buf.length := h
  have hver : (buf ++ more).getD 4 0 = buf.getD 4 0 := by
    rw [List.getD_eq_getElem?_getD, List.getElem?_append_left (by omega),
      List.getD_eq_getElem?_getD]
  rw [checkHeader, checkHeader, getU32_append more (by omega), hver, getU32_append more (by omega),
    getU32_append more (by omega)]

/-- **A verdict is about a prefix.** Unless the front is short, what arrives later does
not change it. -/
theorem nextFrame_append (h : nextFrame buf ≠ .short) :
    nextFrame (buf ++ more) = nextFrame buf := by
  have hhead : headerLen ≤ buf.length := by
    by_contra hc
    exact h (by rw [nextFrame, if_pos (not_le.mp hc)])
  have hhead' : headerLen ≤ (buf ++ more).length := by
    rw [List.length_append]
    omega
  rw [nextFrame, if_neg (not_lt.mpr hhead)] at h
  rw [nextFrame, nextFrame, if_neg (not_lt.mpr hhead), if_neg (not_lt.mpr hhead'),
    checkHeader_append more hhead]
  rcases hcheck : checkHeader buf with e | ⟨type, payLen⟩
  · rfl
  · rw [hcheck] at h
    dsimp only at h ⊢
    -- the whole frame is there, or the front would be short
    have htotal : headerLen + payLen.toNat + 8 ≤ buf.length := by
      by_contra hc
      exact h (if_pos (not_le.mp hc))
    have htotal' : headerLen + payLen.toNat + 8 ≤ (buf ++ more).length := by
      rw [List.length_append]
      omega
    rw [if_neg (not_lt.mpr htotal), if_neg (not_lt.mpr htotal'), getU64_append more (by omega),
      getU64_append more (by unfold headerLen at htotal; omega), take_drop_append more (by omega),
      List.take_append_of_le_length (by omega)]

end Prefix

/-- What `nextFrame` has checked of a frame it cuts off. -/
theorem nextFrame_message {buf : List UInt8} {f : Frame} {len : ℕ}
    (h : nextFrame buf = .message f len) :
    ∃ payLen, checkHeader buf = .ok (f.type, payLen) ∧ len = headerLen + payLen.toNat + 8 ∧
      len ≤ buf.length ∧ f.correlation = getU64 buf 9 ∧
      f.payload = (buf.drop headerLen).take payLen.toNat ∧
      getU64 buf (headerLen + payLen.toNat) = fnv (buf.take (headerLen + payLen.toNat)) := by
  -- a message has passed the header, the length and the checksum
  unfold nextFrame at h
  split at h
  · cases h
  split at h
  · cases h
  next type payLen hcheck =>
  dsimp only at h
  split at h
  · cases h
  next htotal =>
  split at h
  · cases h
  next hsum =>
  cases h
  exact ⟨payLen, hcheck, rfl, not_lt.mp htotal, rfl, rfl, not_not.mp hsum⟩

/-- `FrameDecoder`: the decoder of frames, driven by what `nextFrame` makes of its
buffer. `FrameDecoder::Feed` is `frameDecoder.feed`. -/
def frameDecoder : Scanner UInt8 Frame Str where
  scan := nextFrame
  progress h := by
    obtain ⟨payLen, -, rfl, hle, -⟩ := nextFrame_message h
    exact ⟨by omega, hle⟩
  message_append h more := by
    rw [nextFrame_append more (by rw [h]; exact fun hc => by cases hc), h]
  refused_append h more := by
    rw [nextFrame_append more (by rw [h]; exact fun hc => by cases hc), h]

end Proto

end DFabric
