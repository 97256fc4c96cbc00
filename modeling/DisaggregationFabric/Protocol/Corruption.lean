import DisaggregationFabric.Codec.Corruption
import DisaggregationFabric.Protocol.Framing

/-!
# Corrupted frames

A frame ends with the checksum of its header and its payload, so an encoding with one byte
replaced is no encoding any more, and the decoder cuts off nothing but encodings
(`take_eq_encode`). What is left is that the decoder does not wait for more instead: as long as
the four bytes of the payload length are not touched, it expects exactly the bytes that are
there, and refuses the stream (`corrupted_frame_refused`).

A changed length is another matter. The decoder believes it before it has seen the checksum,
and when it announces more than there is, the decoder waits.
-/

namespace DFabric

namespace Proto

open Wire EnumTraits Hash

theorem sealed_encode {f : Frame} (h : f.Fits) : Sealed trailer f.encode := by
  rw [encode_of_fits h, ← List.append_assoc]
  exact ⟨_, rfl⟩

/-- A field is read from the same bytes when a byte outside of it is replaced. -/
theorem getU32_set {d : List UInt8} {off i : ℕ} (h : i < off ∨ off + 4 ≤ i) (v : UInt8) :
    getU32 (d.set i v) off = getU32 d off := by
  have hfield : ((d.set i v).drop off).take 4 = (d.drop off).take 4 := by
    rcases h with h | h
    · rw [List.drop_set_of_lt h]
    · rw [List.drop_set, if_neg (by omega), List.take_set_of_le (by omega)]
  rw [getU32, hfield, getU32]

/-- The payload length stands in bytes 17 to 20. -/
theorem getU32_encode {f : Frame} (h : f.Fits) : (getU32 f.encode 17).toNat = f.payload.length := by
  have hpay : (UInt32.ofNat f.payload.length).toNat = f.payload.length :=
    UInt32.toNat_ofNat_of_lt' (h.trans_lt (maxFrameLen f.type).toNat_lt)
  have hle : UInt32.ofNat f.payload.length ≤ maxFrameLen f.type := by
    rw [UInt32.le_iff_toNat_le, hpay]
    exact h
  have hcheck := checkHeader_header hle f.correlation (f.payload ++
    putU64 (fnv (header f.type f.correlation (UInt32.ofNat f.payload.length) ++ f.payload)))
  rw [← encode_of_fits h] at hcheck
  rw [(checkHeader_ok.mp hcheck).2.2.2.1, hpay]

/-- **A complete buffer is decided.** When as many bytes are there as the length field
announces, the front is a frame or it is refused. -/
theorem nextFrame_ne_short {buf : List UInt8}
    (h : headerLen + (getU32 buf 17).toNat + 8 ≤ buf.length) : nextFrame buf ≠ .short := by
  intro hshort
  unfold nextFrame at hshort
  split at hshort
  · next hhead => omega
  split at hshort
  · cases hshort
  next type payLen hcheck =>
  dsimp only at hshort
  rw [← (checkHeader_ok.mp hcheck).2.2.2.1, if_neg (not_lt.mpr h)] at hshort
  split at hshort
  · cases hshort
  · cases hshort

/-- The front of a corrupted frame is refused. -/
theorem nextFrame_set_encode {f : Frame} {i : ℕ} {b v : UInt8} (hf : f.Fits)
    (hfield : i < 17 ∨ 20 < i) (hb : f.encode[i]? = some b) (hv : v ≠ b) :
    ∃ e, nextFrame (f.encode.set i v) = .refused e := by
  have hlen : headerLen + (getU32 (f.encode.set i v) 17).toNat + 8 =
      (f.encode.set i v).length := by
    rw [getU32_set hfield, getU32_encode hf, List.length_set, length_encode hf]
  cases hnext : nextFrame (f.encode.set i v) with
  | refused e => exact ⟨e, rfl⟩
  | short => exact absurd hnext (nextFrame_ne_short hlen.le)
  | message f' len =>
    -- the frame would take up the whole buffer, which is no encoding
    obtain ⟨payLen, hcheck, hmsg, -⟩ := nextFrame_message hnext
    obtain ⟨hfits, htake⟩ := take_eq_encode hnext
    rw [← (checkHeader_ok.mp hcheck).2.2.2.1, hlen] at hmsg
    rw [hmsg, List.take_length] at htake
    have hsealed := sealed_encode hfits
    rw [← htake] at hsealed
    exact absurd hsealed (not_sealed_set (sealed_encode hf) hb hv)

/-- **A corrupted byte is detected.** Of every frame, with any one byte outside of the length
field replaced by a different one, however it is cut into chunks, a `Feed` of a fresh decoder
returns false and no frame is emitted. -/
theorem corrupted_frame_refused (f : Frame) (hf : f.Fits) (i : ℕ) (hi : i < f.encode.length)
    (hfield : i < 17 ∨ 20 < i) (v : UInt8) (hv : v ≠ f.encode[i]) (chunks : List (List UInt8))
    (hcut : chunks.flatten = f.encode.set i v) : ¬ Accepted chunks ∧ emitted chunks = [] := by
  obtain ⟨e, he⟩ := nextFrame_set_encode hf hfield (List.getElem?_eq_getElem hi) hv
  have hscan : frameDecoder.scan chunks.flatten = .refused e := by
    rw [hcut]
    exact he
  rw [accepted_iff, emitted_eq, Scanner.drain_of_refused hscan]
  exact ⟨Option.some_ne_none e, rfl⟩

/-- The frame of the samples with a payload, its type changed from `ACTIVATE_REQ` to `ACK`, in
two chunks. -/
theorem retyped_frame_refused :
    ¬ Accepted [(encode .activateReq 8 [1, 2, 3]).take 10 |>.set 5 11,
        (encode .activateReq 8 [1, 2, 3]).drop 10] ∧
      emitted [(encode .activateReq 8 [1, 2, 3]).take 10 |>.set 5 11,
        (encode .activateReq 8 [1, 2, 3]).drop 10] = [] :=
  corrupted_frame_refused ⟨.activateReq, 8, [1, 2, 3]⟩ (by decide) 5 (by decide) (by decide) 11
    (by decide) _ (by decide)

end Proto

end DFabric
