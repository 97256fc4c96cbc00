import DisaggregationFabric.Protocol.Frames

/-!
# Framing

What the decoder of frames does with a stream, however the stream is cut into chunks.

* Frames that were encoded are decoded again, one for one, with nothing left in the
  buffer (`decode_encoded_frames`).
* What is emitted, and whether the stream is refused, depends on the bytes and not on
  the chunks; and a refusal is final (`verdict_independent_of_chunks`).
* Conversely nothing is emitted but what was encoded: the bytes fed are the encodings
  of the frames emitted followed by the buffer, and the buffer of a decoder that waits
  is bounded and starts with no complete frame (`fed_eq_encoded_append_buffer`).

The first rests on `nextFrame_encode`, the last on `take_eq_encode`; the passage from
one frame to a stream in chunks is that of `Lib.Stream`.
-/

namespace DFabric

namespace Proto

open Wire EnumTraits

/-! ### One frame -/

theorem length_putU32 (x : UInt32) : (putU32 x).length = 4 := length_leBytes 4 x.toNat

theorem length_putU64 (x : UInt64) : (putU64 x).length = 8 := length_leBytes 8 x.toNat

theorem length_header (type : FrameType) (correlation : UInt64) (payLen : UInt32) :
    (header type correlation payLen).length = headerLen := by
  simp [header, length_putU32, length_putU64, headerLen]

/-- A word is read where it was put. -/
theorem getU32_putU32 {d : List UInt8} {off : ℕ} {x : UInt32} (before : List UInt8)
    (hd : before ++ putU32 x <+: d) (hoff : before.length = off) : getU32 d off = x := by
  obtain ⟨after, rfl⟩ := hd
  have hlen : 4 = (putU32 x).length := (length_putU32 x).symm
  have hx : ofLE (putU32 x) = x.toNat := ofLE_leBytes 4 x.toNat x.toNat_lt
  rw [getU32, ← hoff, List.append_assoc, List.drop_left, hlen, List.take_left, hx,
    UInt32.ofNat_toNat]

theorem getU64_putU64 {d : List UInt8} {off : ℕ} {x : UInt64} (before : List UInt8)
    (hd : before ++ putU64 x <+: d) (hoff : before.length = off) : getU64 d off = x := by
  obtain ⟨after, rfl⟩ := hd
  have hlen : 8 = (putU64 x).length := (length_putU64 x).symm
  have hx : ofLE (putU64 x) = x.toNat := ofLE_leBytes 8 x.toNat x.toNat_lt
  rw [getU64, ← hoff, List.append_assoc, List.drop_left, hlen, List.take_left, hx,
    UInt64.ofNat_toNat]

/-- Conversely, a word that was read is what stands there. -/
theorem putU32_getU32 {d : List UInt8} {off : ℕ} (h : off + 4 ≤ d.length) :
    putU32 (getU32 d off) = (d.drop off).take 4 := by
  have hlen : ((d.drop off).take 4).length = 4 := by
    rw [List.length_take, List.length_drop]
    omega
  have hlt := ofLE_lt ((d.drop off).take 4)
  rw [hlen] at hlt
  have hback := leBytes_ofLE ((d.drop off).take 4)
  rw [hlen] at hback
  rw [putU32, getU32, UInt32.toNat_ofNat_of_lt' hlt, hback]

theorem putU64_getU64 {d : List UInt8} {off : ℕ} (h : off + 8 ≤ d.length) :
    putU64 (getU64 d off) = (d.drop off).take 8 := by
  have hlen : ((d.drop off).take 8).length = 8 := by
    rw [List.length_take, List.length_drop]
    omega
  have hlt := ofLE_lt ((d.drop off).take 8)
  rw [hlen] at hlt
  have hback := leBytes_ofLE ((d.drop off).take 8)
  rw [hlen] at hback
  rw [putU64, getU64, UInt64.toNat_ofNat_of_lt' hlt, hback]

/-- What `checkHeader` accepts. -/
theorem checkHeader_ok {buf : List UInt8} {type : FrameType} {payLen : UInt32} :
    checkHeader buf = .ok (type, payLen) ↔
      getU32 buf 0 = frameMagic ∧ buf.getD 4 0 = frameVersion ∧ getU32 buf 5 = value type ∧
        getU32 buf 17 = payLen ∧ payLen ≤ maxFrameLen type := by
  constructor
  · intro h
    unfold checkHeader at h
    -- magic, version, type and length, in the order of `Feed`
    split at h
    · cases h
    next hmagic =>
    split at h
    · cases h
    next hver =>
    dsimp only at h
    split at h
    · cases h
    next hmax =>
    split at h
    · cases h
    next hlen =>
    cases h
    obtain ⟨t, ht, hbound⟩ := maxFrameLenOf_ne_zero hmax
    rw [hbound] at hlen
    refine ⟨not_not.mp hmagic, not_not.mp hver, ?_, rfl, ?_⟩
    · rw [ht, ofValue_value]
    · rw [ht, ofValue_value]
      exact not_lt.mp fun hc => hlen (Or.inl hc)
  · rintro ⟨hmagic, hver, htype, rfl, hlen⟩
    have hglobal := hlen.trans (maxFrameLen_le_global type)
    have hbound : ¬ (maxFrameLen type < getU32 buf 17 ∨ globalMaxFrameLen < getU32 buf 17) := by
      rintro (hc | hc)
      · exact absurd hlen (not_le.mpr hc)
      · exact absurd hglobal (not_le.mpr hc)
    unfold checkHeader
    dsimp only
    rw [if_neg (not_not.mpr hmagic), if_neg (not_not.mpr hver), htype, maxFrameLenOf_value,
      if_neg (maxFrameLen_ne_zero type), if_neg hbound, ofValue_value]

theorem encode_of_fits {f : Frame} (h : f.Fits) :
    f.encode = header f.type f.correlation (UInt32.ofNat f.payload.length) ++ (f.payload ++
      putU64 (fnv (header f.type f.correlation (UInt32.ofNat f.payload.length) ++ f.payload))) := by
  have hmax : ¬ (maxFrameLen f.type = 0 ∨ (maxFrameLen f.type).toNat < f.payload.length) := by
    rintro (hc | hc)
    · exact maxFrameLen_ne_zero f.type hc
    · exact absurd h (not_le.mpr hc)
  rw [Frame.encode, encode]
  dsimp only
  rw [if_neg hmax, List.append_assoc]

theorem length_encode {f : Frame} (h : f.Fits) :
    f.encode.length = headerLen + f.payload.length + 8 := by
  rw [encode_of_fits h, List.length_append, List.length_append, length_header, length_putU64,
    add_assoc]

/-- A header is accepted, whatever follows. -/
theorem checkHeader_header {type : FrameType} {payLen : UInt32} (h : payLen ≤ maxFrameLen type)
    (correlation : UInt64) (after : List UInt8) :
    checkHeader (header type correlation payLen ++ after) = .ok (type, payLen) := by
  -- the fields in their order, so that each is behind those before it
  have hfields : header type correlation payLen ++ after = putU32 frameMagic ++ ([frameVersion] ++
      (putU32 (value type) ++ (putU64 correlation ++ (putU32 payLen ++ after)))) := by
    simp only [header, List.append_assoc]
  rw [checkHeader_ok]
  refine ⟨getU32_putU32 [] ⟨_, hfields.symm⟩ rfl, ?_, ?_, ?_, h⟩
  · rw [hfields, List.getD_eq_getElem?_getD, List.getElem?_append_right (by simp [length_putU32])]
    simp [length_putU32]
  · refine getU32_putU32 (putU32 frameMagic ++ [frameVersion]) ?_ (by simp [length_putU32])
    refine ⟨putU64 correlation ++ (putU32 payLen ++ after), ?_⟩
    simp only [hfields, List.append_assoc]
  · refine getU32_putU32 (putU32 frameMagic ++ [frameVersion] ++ putU32 (value type) ++
      putU64 correlation) ?_ (by simp [length_putU32, length_putU64])
    refine ⟨after, ?_⟩
    simp only [hfields, List.append_assoc]

/-- The correlation stands in front of the length. -/
theorem getU64_header (type : FrameType) (correlation : UInt64) (payLen : UInt32)
    (after : List UInt8) : getU64 (header type correlation payLen ++ after) 9 = correlation := by
  refine getU64_putU64 (putU32 frameMagic ++ [frameVersion] ++ putU32 (value type)) ?_
    (by simp [length_putU32])
  refine ⟨putU32 payLen ++ after, ?_⟩
  simp only [header, List.append_assoc]

/-- **An encoded frame is decoded**, whatever follows. -/
theorem nextFrame_encode {f : Frame} (h : f.Fits) (rest : List UInt8) :
    nextFrame (f.encode ++ rest) = .message f f.encode.length := by
  have hpay : (UInt32.ofNat f.payload.length).toNat = f.payload.length :=
    UInt32.toNat_ofNat_of_lt' (h.trans_lt (maxFrameLen f.type).toNat_lt)
  have hlen := length_encode h
  have henc := encode_of_fits h
  generalize UInt32.ofNat f.payload.length = n at henc hpay
  generalize hsum : fnv (header f.type f.correlation n ++ f.payload) = sum at henc
  -- the buffer: header, payload, checksum and the rest
  have hbuf : f.encode ++ rest =
      header f.type f.correlation n ++ (f.payload ++ (putU64 sum ++ rest)) := by
    rw [henc]
    simp only [List.append_assoc]
  have hbuflen : headerLen + f.payload.length + 8 ≤ (f.encode ++ rest).length := by
    rw [List.length_append, hlen]
    omega
  rw [hbuf] at hbuflen ⊢
  have hn : n ≤ maxFrameLen f.type := by
    rw [UInt32.le_iff_toNat_le, hpay]
    exact h
  have hcheck := checkHeader_header hn f.correlation (f.payload ++ (putU64 sum ++ rest))
  have hcorr := getU64_header f.type f.correlation n (f.payload ++ (putU64 sum ++ rest))
  have hpayload : ((header f.type f.correlation n ++ (f.payload ++ (putU64 sum ++ rest))).drop
      headerLen).take f.payload.length = f.payload := by
    rw [← length_header f.type f.correlation n, List.drop_left, List.take_left]
  have hbodylen : (header f.type f.correlation n ++ f.payload).length =
      headerLen + f.payload.length := by rw [List.length_append, length_header]
  have hstored : getU64 (header f.type f.correlation n ++ (f.payload ++ (putU64 sum ++ rest)))
      (headerLen + f.payload.length) = sum :=
    getU64_putU64 _ ⟨rest, by simp only [List.append_assoc]⟩ hbodylen
  have hcomputed : fnv ((header f.type f.correlation n ++ (f.payload ++ (putU64 sum ++ rest))).take
      (headerLen + f.payload.length)) = sum := by
    rw [← List.append_assoc, ← hbodylen, List.take_left, hsum]
  rw [nextFrame, if_neg (by omega), hcheck]
  dsimp only
  rw [hpay, if_neg (by omega), hstored, hcomputed, if_neg (not_not.mpr rfl), hcorr, hpayload, hlen]

/-- **What is decoded was encoded.** The bytes that a frame is cut off with are its
encoding. -/
theorem take_eq_encode {buf : List UInt8} {f : Frame} {len : ℕ}
    (h : nextFrame buf = .message f len) : f.Fits ∧ buf.take len = f.encode := by
  obtain ⟨payLen, hcheck, rfl, hle, hcorr, hpayload, hsum⟩ := nextFrame_message h
  obtain ⟨hmagic, hver, htype, hlen, hmax⟩ := checkHeader_ok.mp hcheck
  have hhead : 21 ≤ buf.length := by unfold headerLen at hle; omega
  have hpaylen : f.payload.length = payLen.toNat := by
    rw [hpayload, List.length_take, List.length_drop]
    omega
  have hfits : f.Fits := by
    rw [Frame.Fits, hpaylen]
    exact UInt32.le_iff_toNat_le.mp hmax
  have hn : UInt32.ofNat f.payload.length = payLen := by rw [hpaylen, UInt32.ofNat_toNat]
  -- the header, field by field
  have hversion : (buf.drop 4).take 1 = [frameVersion] := by
    rw [← hver, List.getD_eq_getElem?_getD, List.getElem?_eq_getElem (by omega)]
    rw [List.drop_eq_getElem_cons (by omega)]
    rfl
  have hheader : header f.type f.correlation payLen = buf.take headerLen := by
    rw [header, ← hmagic, ← hversion, ← htype, hcorr, ← hlen, putU32_getU32 (by omega),
      putU32_getU32 (by omega), putU64_getU64 (by omega), putU32_getU32 (by omega)]
    have hsplit : headerLen = 4 + (1 + (4 + (8 + 4))) := rfl
    rw [hsplit, List.take_add, List.take_add, List.take_add, List.take_add, List.drop_drop,
      List.drop_drop, List.drop_drop]
    rfl
  have hbody : header f.type f.correlation payLen ++ f.payload =
      buf.take (headerLen + payLen.toNat) := by rw [hheader, hpayload, List.take_add]
  refine ⟨hfits, ?_⟩
  rw [encode_of_fits hfits, hn, ← List.append_assoc, hbody, ← hsum, putU64_getU64 (by omega),
    List.take_add]

/-! ### Streams in chunks -/

/-- What a fresh decoder has buffered after it was fed the chunks. -/
def buffered (chunks : List (List UInt8)) : List UInt8 :=
  Machine.run frameDecoder.feedStep [] chunks

/-- The frames that a fresh decoder emits when it is fed the chunks. -/
def emitted (chunks : List (List UInt8)) : List Frame :=
  Machine.trace frameDecoder.feedStep frameDecoder.feedOut [] chunks

/-- Every `Feed` of a fresh decoder with one of the chunks returns true. -/
def Accepted (chunks : List (List UInt8)) : Prop :=
  Machine.Along frameDecoder.feedStep frameDecoder.Accepts [] chunks

/-- A fresh decoder waits. -/
theorem drain_nil : frameDecoder.drain [] = ⟨[], none, []⟩ := Scanner.drain_of_short rfl

theorem buffered_eq (chunks : List (List UInt8)) :
    buffered chunks = (frameDecoder.drain chunks.flatten).buffer :=
  Scanner.run_feed chunks (by rw [drain_nil])

theorem emitted_eq (chunks : List (List UInt8)) :
    emitted chunks = (frameDecoder.drain chunks.flatten).messages :=
  Scanner.trace_feed chunks (by rw [drain_nil])

theorem accepted_iff (chunks : List (List UInt8)) :
    Accepted chunks ↔ (frameDecoder.drain chunks.flatten).refusal = none :=
  Scanner.along_feed chunks (by rw [drain_nil])

/-- The encodings of frames are drained to the last byte. -/
theorem drain_encoded {frames : List Frame} (h : ∀ f ∈ frames, f.Fits) :
    frameDecoder.drain (frames.flatMap Frame.encode) = ⟨frames, none, []⟩ := by
  induction frames with
  | nil => exact drain_nil
  | cons f frames ih =>
    obtain ⟨hf, hframes⟩ := List.forall_mem_cons.mp h
    have hscan : frameDecoder.scan ((f :: frames).flatMap Frame.encode) =
        .message f f.encode.length := nextFrame_encode hf _
    rw [Scanner.drain_of_message hscan, List.flatMap_cons, List.drop_left, ih hframes]

/-- **Frames survive any segmentation.** However the encodings of a list of frames are
cut into chunks, every `Feed` returns true, the frames are emitted in order, and no byte
stays in the buffer. -/
theorem decode_encoded_frames (frames : List Frame) (chunks : List (List UInt8))
    (hfits : ∀ f ∈ frames, f.Fits) (hcut : chunks.flatten = frames.flatMap Frame.encode) :
    Accepted chunks ∧ emitted chunks = frames ∧ buffered chunks = [] := by
  have hdrain := drain_encoded hfits
  rw [← hcut] at hdrain
  rw [accepted_iff, emitted_eq, buffered_eq, hdrain]
  exact ⟨rfl, rfl, rfl⟩

/-- Two frames, the second one with a payload. -/
def sampleFrames : List Frame := [⟨.ack, 7, []⟩, ⟨.activateReq, 8, [1, 2, 3]⟩]

/-- The two frames fed byte by byte, with an empty chunk in front. -/
theorem sampleFrames_bytewise :
    emitted ([] :: (sampleFrames.flatMap Frame.encode).map fun b => [b]) = sampleFrames := by
  refine (decode_encoded_frames sampleFrames _ (by decide) ?_).2.1
  rw [List.flatten_cons, List.nil_append]
  generalize sampleFrames.flatMap Frame.encode = bytes
  induction bytes with
  | nil => rfl
  | cons b bytes ih => rw [List.map_cons, List.flatten_cons, ih, List.singleton_append]

/-- **The verdict does not depend on the segmentation, and is final.** Two ways to cut
the same bytes emit the same frames and are refused alike; and after a `Feed` that
returned false, whatever is fed, every `Feed` returns false and emits nothing. -/
theorem verdict_independent_of_chunks (chunks chunks' : List (List UInt8))
    (hsame : chunks.flatten = chunks'.flatten) :
    emitted chunks = emitted chunks' ∧ (Accepted chunks ↔ Accepted chunks') ∧
      ∀ chunk, ¬ frameDecoder.Accepts (buffered chunks) chunk → ∀ later chunk',
        ¬ frameDecoder.Accepts (buffered (chunks ++ chunk :: later)) chunk' ∧
          frameDecoder.feedOut (buffered (chunks ++ chunk :: later)) chunk' = [] := by
  refine ⟨by rw [emitted_eq, emitted_eq, hsame], by rw [accepted_iff, accepted_iff, hsame], ?_⟩
  intro chunk hrej later chunk'
  obtain ⟨e, he⟩ : ∃ e, (frameDecoder.feed (buffered chunks) chunk).refusal = some e :=
    Option.ne_none_iff_exists'.mp hrej
  have hrun : buffered (chunks ++ chunk :: later) =
      Machine.run frameDecoder.feedStep (frameDecoder.feedStep (buffered chunks) chunk) later := by
    rw [buffered, Machine.run_append, Machine.run_cons]
    rfl
  -- the front of the buffer is refused from then on
  have hlater := Scanner.scan_run_of_refused (Scanner.scan_buffer_of_refusal he) later
  change frameDecoder.scan (Machine.run frameDecoder.feedStep
    (frameDecoder.feedStep (buffered chunks) chunk) later) = .refused e at hlater
  rw [← hrun] at hlater
  have hfeed := Scanner.feed_of_refused hlater chunk'
  exact ⟨by rw [Scanner.Accepts, hfeed]; simp, by rw [Scanner.feedOut, hfeed]⟩

/-- A stream with a wrong magic number is refused whole and in two chunks. -/
theorem badMagic_refused :
    Accepted [List.replicate 21 0] ↔ Accepted [List.replicate 20 0, [0]] :=
  (verdict_independent_of_chunks [List.replicate 21 0] [List.replicate 20 0, [0]]
    (by decide)).2.1

/-- A decoder that waits has less than the longest frame in its buffer, and no complete
frame at the front. -/
theorem short_buffer {buf : List UInt8} (h : nextFrame buf = .short) :
    buf.length < headerLen + globalMaxFrameLen.toNat + 8 ∧
      ∀ (f : Frame) (rest : List UInt8), f.Fits → buf ≠ f.encode ++ rest := by
  constructor
  -- it waits for the header, or for what the header announces
  · unfold nextFrame at h
    split at h
    · next hhead => omega
    split at h
    · cases h
    next type payLen hcheck =>
    dsimp only at h
    split at h
    · next htotal =>
      have hmax := (checkHeader_ok.mp hcheck).2.2.2.2.trans (maxFrameLen_le_global type)
      have hle : payLen.toNat ≤ globalMaxFrameLen.toNat := UInt32.le_iff_toNat_le.mp hmax
      omega
    split at h
    · cases h
    · cases h
  · rintro f rest hf rfl
    rw [nextFrame_encode hf] at h
    cases h

/-- Every frame that is cut off is within the bound of its type. -/
theorem fits_of_mem_drain (buf : List UInt8) : ∀ f ∈ (frameDecoder.drain buf).messages, f.Fits := by
  induction buf using frameDecoder.drain_induction with
  | hshort buf h => rw [Scanner.drain_of_short h]; simp
  | hrefused buf e h => rw [Scanner.drain_of_refused h]; simp
  | hmessage buf m len h ih =>
    rw [Scanner.drain_of_message h]
    exact List.forall_mem_cons.mpr ⟨(take_eq_encode h).1, ih⟩

/-- **The decoder accepts the image of `Encode`, and nothing else.** After any sequence
of `Feed`s the bytes fed are the encodings of the frames emitted, followed by the
buffer; and after a `Feed` that returned true the buffer is shorter than the longest
frame and does not start with a complete one. -/
theorem fed_eq_encoded_append_buffer (chunks : List (List UInt8)) :
    (∀ f ∈ emitted chunks, f.Fits) ∧
      chunks.flatten = (emitted chunks).flatMap Frame.encode ++ buffered chunks ∧
      ∀ chunk, frameDecoder.Accepts (buffered chunks) chunk →
        (frameDecoder.feedStep (buffered chunks) chunk).length <
            headerLen + globalMaxFrameLen.toNat + 8 ∧
          ∀ (f : Frame) (rest : List UInt8), f.Fits →
            frameDecoder.feedStep (buffered chunks) chunk ≠ f.encode ++ rest := by
  refine ⟨?_, ?_, ?_⟩
  · rw [emitted_eq]
    exact fits_of_mem_drain _
  · rw [emitted_eq, buffered_eq]
    exact (Scanner.flatMap_encode_drain (fun h => (take_eq_encode h).2) _).symm
  · intro chunk hacc
    exact short_buffer (Scanner.scan_buffer_of_refusal_none hacc)

end Proto

end DFabric
