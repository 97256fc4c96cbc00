import DisaggregationFabric.Codec.Durable
import DisaggregationFabric.Lib.Hash

/-!
# Corrupted files

The durable file is `Sealed`: it ends with the checksum of everything before it. `SaveImpl`
writes nothing else (`sealed_of_saveImpl`) and `LoadImpl` accepts nothing else
(`loadImpl_iff`), so a file that was saved and has one byte replaced is refused, wherever the
byte stands and whatever it is replaced by (`loadImpl_set_refused`).

That the checksum sees the byte is a property of FNV-1a: the prime it multiplies by is odd,
so each round can be undone modulo `2 ^ 64`.
-/

namespace DFabric

open Wire Hash

variable {D : Type} [Double D] [DoubleBits D]

/-! ### The checksum -/

/-- The inverse of the FNV prime modulo `2 ^ 64`. -/
theorem fnvPrime_mul_inverse : (0x100000001b3 : UInt64) * 0xce965057aff6957b = 1 := by
  decide

/-- **The checksum sees every byte.** -/
theorem checksum_set_ne {bs : List UInt8} {i : ℕ} {b v : UInt8} (hb : bs[i]? = some b)
    (hv : v ≠ b) : checksum (bs.set i v) ≠ checksum bs := by
  obtain ⟨hstate, hbyte⟩ := injective_xorMul fnvPrime_mul_inverse
  exact absorb_set_ne hstate hbyte hb hv 0xcbf29ce484222325

/-- The eight bytes that close a file, or a frame. -/
def trailer (bs : List UInt8) : List UInt8 := Token.bytes (.u64 (checksum bs))

theorem length_trailer (bs : List UInt8) : (trailer bs).length = 8 := length_leBytes 8 _

theorem le_length_of_sealed {l : List UInt8} (h : Sealed trailer l) : 8 ≤ l.length := by
  obtain ⟨body, rfl⟩ := h
  rw [List.length_append, length_trailer]
  exact Nat.le_add_left 8 _

theorem trailer_set_ne {bs : List UInt8} {i : ℕ} {b v : UInt8} (hb : bs[i]? = some b)
    (hv : v ≠ b) : trailer (bs.set i v) ≠ trailer bs := by
  intro h
  have hnat := congrArg ofLE h
  rw [trailer, trailer, Token.bytes, Token.bytes, ofLE_leBytes 8 _ (checksum _).toNat_lt,
    ofLE_leBytes 8 _ (checksum _).toNat_lt] at hnat
  exact checksum_set_ne hb hv (UInt64.toNat_inj.mp hnat)

/-- A text that ends with its checksum does not, once a byte is replaced. -/
theorem not_sealed_set {l : List UInt8} {i : ℕ} {b v : UInt8} (h : Sealed trailer l)
    (hb : l[i]? = some b) (hv : v ≠ b) : ¬ Sealed trailer (l.set i v) :=
  h.not_sealed_set length_trailer trailer_set_ne hb hv

/-! ### The file -/

omit [Double D] in
/-- What is saved ends with its checksum. -/
theorem sealed_of_saveImpl {s : DurableState D} {file : List UInt8} (h : saveImpl s = .ok file) :
    Sealed trailer file := by
  unfold saveImpl at h
  split at h
  · cases h
    exact ⟨_, rfl⟩
  · cases h

/-- The last eight bytes, read as a word, are the bytes of that word. -/
theorem bytes_u64_of_length {t : List UInt8} (h : t.length = 8) :
    Token.bytes (.u64 (Reader.ofBytes t).u64.1) = t := by
  have hlt := ofLE_lt t
  have hback := leBytes_ofLE t
  rw [h] at hlt hback
  rw [Reader.u64, Reader.ofBytes, Reader.take_of_le h.ge, List.take_of_length_le h.le, Token.bytes,
    UInt64.toNat_ofNat_of_lt' hlt, hback]

/-- The checksum is read back. -/
theorem u64_trailer (bs : List UInt8) : (Reader.ofBytes (trailer bs)).u64.1 = checksum bs := by
  rw [Reader.u64, Reader.ofBytes, Reader.take_of_le (length_trailer bs).ge,
    List.take_of_length_le (length_trailer bs).le, trailer, Token.bytes,
    ofLE_leBytes 8 _ (checksum bs).toNat_lt, UInt64.ofNat_toNat]

/-- The two words at the start of a file that has them. -/
theorem header_of_le {file : List UInt8} (hle : 8 ≤ file.length) :
    (Reader.ofBytes file).u32.1 = UInt32.ofNat (ofLE (file.take 4)) ∧
      (Reader.ofBytes file).u32.2.u32 =
        (UInt32.ofNat (ofLE ((file.drop 4).take 4)), ⟨file.drop 8, 8, true⟩) := by
  have hversion : 4 ≤ (file.drop 4).length := by
    rw [List.length_drop]
    omega
  have hmagic : (Reader.ofBytes file).u32 =
      (UInt32.ofNat (ofLE (file.take 4)), ⟨file.drop 4, 4, true⟩) := by
    rw [Reader.u32, Reader.ofBytes, Reader.take_of_le (by omega)]
  rw [hmagic, Reader.u32, Reader.take_of_le hversion, List.drop_drop]
  exact ⟨rfl, rfl⟩

/-- The file starts with the magic number and the version. -/
def Headed (file : List UInt8) : Prop :=
  UInt32.ofNat (ofLE (file.take 4)) = magic ∧
    UInt32.ofNat (ofLE ((file.drop 4).take 4)) = formatVersion

/-- **What `LoadImpl` accepts**: a file that starts with the header and ends with its checksum,
and whose body is read from behind the header. -/
theorem loadImpl_iff {s : DurableState D} {file : List UInt8} :
    loadImpl file = .ok s ↔
      Headed file ∧ Sealed trailer file ∧ 8 ≤ file.length ∧
        loadBody ⟨file.drop 8, 8, true⟩ = .ok s := by
  constructor
  · intro h
    obtain ⟨hmagic, hversion, hle, hsum, hbody⟩ := loadImpl_passed h
    obtain ⟨hfirst, hsecond⟩ := header_of_le hle
    -- the words that were compared are those of the header
    rw [hfirst] at hmagic
    rw [hsecond] at hversion hbody
    refine ⟨⟨hmagic, hversion⟩, ⟨file.take (file.length - 8), ?_⟩, hle, hbody⟩
    have hlast : (file.drop (file.length - 8)).length = 8 := by
      rw [List.length_drop]
      omega
    rw [trailer, ← hsum, bytes_u64_of_length hlast, List.take_append_drop]
  · rintro ⟨⟨hmagic, hversion⟩, ⟨body, hseal⟩, hle, hbody⟩
    obtain ⟨hfirst, hsecond⟩ := header_of_le hle
    -- the checksum is what stands behind the body
    have hlen : file.length - 8 = body.length := by
      rw [hseal, List.length_append, length_trailer]
      omega
    have hne : file.isEmpty = false := by
      cases file with
      | nil => cases hle
      | cons => rfl
    have hsum : (Reader.ofBytes (file.drop (file.length - 8))).u64.1 =
        checksum (file.take (file.length - 8)) := by
      rw [hlen, hseal, List.drop_left, List.take_left, u64_trailer]
    -- so none of the tests refuses
    unfold loadImpl
    dsimp only
    rw [hne, if_neg Bool.false_ne_true, if_neg (not_not.mpr (hfirst.trans hmagic)), hsecond,
      if_neg (not_not.mpr hversion), if_neg (not_lt.mpr hle), if_neg (not_not.mpr hsum)]
    exact hbody

/-- **A corrupted byte is detected.** Of every file that was saved, with any one byte replaced
by a different one, nothing is loaded. -/
theorem loadImpl_set_refused (s : DurableState D) (file : List UInt8)
    (hsave : saveImpl s = .ok file) (i : ℕ) (hi : i < file.length) (v : UInt8)
    (hv : v ≠ file[i]) :
    ∃ text, (loadImpl (file.set i v) : Except Str (DurableState D)) = .error text := by
  have hbroken := not_sealed_set (sealed_of_saveImpl hsave) (List.getElem?_eq_getElem hi) hv
  cases hload : (loadImpl (file.set i v) : Except Str (DurableState D)) with
  | error text => exact ⟨text, rfl⟩
  | ok s' => exact absurd (loadImpl_iff.mp hload).2.1 hbroken

/-- The file of a state with an epoch and four empty tables. -/
def epochFile : List UInt8 := [
  0x44, 0x42, 0x41, 0x46, 1, 0, 0, 0, 3, 0, 0, 0, 0, 0, 0, 0, 0, 0, 0, 0, 0, 0, 0, 0, 0, 0, 0, 0,
  0, 0, 0, 0, 0xd2, 0x48, 0x62, 0x46, 0x85, 0xd4, 0x93, 0xff]

/-- Byte 20 with one bit flipped. -/
theorem epochFile_flipped :
    ∃ text, (loadImpl (epochFile.set 20 0x40) : Except Str (DurableState Binary64)) = .error text :=
  loadImpl_set_refused ⟨⟨3⟩, [], [], default, []⟩ epochFile (by decide +kernel) 20 (by decide) 0x40
    (by decide)

end DFabric
