/-
TLV areas as byte strings.

An image file is a body (header and payload), an optional protected list, an
unprotected list, and whatever follows.  Each list is an info record with the
total size and the encodings of its TLVs.  What is written here is read back by
the decoders of the format.
-/
import RuuviMcuboot.Image.Format

namespace RuuviMcuboot

open Binary

/-- A TLV whose length fits its field. -/
structure Tlv where
  type : UInt16
  payload : Bytes
  payload_lt : payload.length < 65536

namespace Tlv

theorem nil_lt : ([] : Bytes).length < 65536 := Nat.succ_pos _

def len (t : Tlv) : UInt16 := UInt16.ofNat t.payload.length

@[simp] theorem len_toNat (t : Tlv) : t.len.toNat = t.payload.length := by
  rw [len, UInt16.toNat_ofNat', Nat.mod_eq_of_lt t.payload_lt]

/-- Type and length. -/
def header (t : Tlv) : Bytes := leBytes 2 t.type.toNat ++ leBytes 2 t.len.toNat

def encode (t : Tlv) : Bytes := t.header ++ t.payload

@[simp] theorem header_length (t : Tlv) : t.header.length = 4 := by
  simp [header]

@[simp] theorem encode_length (t : Tlv) : t.encode.length = 4 + t.payload.length := by
  simp [encode]

end Tlv

theorem leNat_leBytes_uint16 (x : UInt16) : leNat (leBytes 2 x.toNat) = x.toNat := by
  rw [leNat_leBytes, Nat.mod_eq_of_lt (by simpa using x.toNat_lt)]

/-- Two 16-bit fields in a row are read back. -/
theorem le16_pair (x y : UInt16) :
    le16 (leBytes 2 x.toNat ++ leBytes 2 y.toNat) 0 = x ∧
      le16 (leBytes 2 x.toNat ++ leBytes 2 y.toNat) 2 = y := by
  have h0 := le16_leBytes [] (leBytes 2 y.toNat) x
  have h2 := le16_leBytes (leBytes 2 x.toNat) [] y
  rw [List.append_nil, leBytes_length] at h2
  exact ⟨h0, h2⟩

theorem ImageTlv.decode_header (t : Tlv) :
    ImageTlv.decode t.header = { itType := t.type, itLen := t.len } := by
  obtain ⟨htype, hlen⟩ := le16_pair t.type t.len
  rw [ImageTlv.decode, Tlv.header, htype, hlen]

/-! ## Lists -/

def encodeTlvs (l : List Tlv) : Bytes := l.flatMap Tlv.encode

@[simp] theorem encodeTlvs_nil : encodeTlvs [] = [] := rfl

@[simp] theorem encodeTlvs_cons (t : Tlv) (l : List Tlv) :
    encodeTlvs (t :: l) = t.encode ++ encodeTlvs l := rfl

theorem length_le_encodeTlvs (l : List Tlv) : 4 * l.length ≤ (encodeTlvs l).length := by
  induction l with
  | nil => exact Nat.le_refl _
  | cons t rest ih =>
    simp only [encodeTlvs_cons, List.length_append, List.length_cons, Tlv.encode_length]
    omega

/-- The size that the info record of a list states. -/
def listSize (l : List Tlv) : Nat := 4 + (encodeTlvs l).length

def infoRecord (magic : UInt16) (l : List Tlv) : Bytes :=
  leBytes 2 magic.toNat ++ leBytes 2 (UInt16.ofNat (listSize l)).toNat

@[simp] theorem infoRecord_length (magic : UInt16) (l : List Tlv) :
    (infoRecord magic l).length = 4 := by
  simp [infoRecord]

theorem ImageTlvInfo.decode_infoRecord (magic : UInt16) (l : List Tlv) :
    ImageTlvInfo.decode (infoRecord magic l) =
      { itMagic := magic, itTlvTot := UInt16.ofNat (listSize l) } := by
  obtain ⟨hmagic, htot⟩ := le16_pair magic (UInt16.ofNat (listSize l))
  rw [ImageTlvInfo.decode, infoRecord, hmagic, htot]

def encodeList (magic : UInt16) (l : List Tlv) : Bytes := infoRecord magic l ++ encodeTlvs l

@[simp] theorem encodeList_length (magic : UInt16) (l : List Tlv) :
    (encodeList magic l).length = listSize l := by
  simp [encodeList, listSize]

/-- The protected list, which an image may lack. -/
def encodeProt : Option (List Tlv) → Bytes
  | none => []
  | some l => encodeList IMAGE_TLV_PROT_INFO_MAGIC l

def protSize : Option (List Tlv) → Nat
  | none => 0
  | some l => listSize l

@[simp] theorem encodeProt_length (prot : Option (List Tlv)) :
    (encodeProt prot).length = protSize prot := by
  cases prot with
  | none => rfl
  | some l => exact encodeList_length _ l

/-- A whole file. -/
def imageBytes (body : Bytes) (prot : Option (List Tlv)) (unprot : List Tlv) (tail : Bytes) :
    Bytes :=
  body ++ (encodeProt prot ++ (encodeList IMAGE_TLV_INFO_MAGIC unprot ++ tail))

/-- The file is an image with the given lists: the area starts where the header
says, and the sizes are those of the lists. -/
structure WellFormedImage (b : Bytes) (hdr : ImageHeader) (body : Bytes)
    (prot : Option (List Tlv)) (unprot : List Tlv) (tail : Bytes) : Prop where
  bytes : b = imageBytes body prot unprot tail
  offset : (hdr.ihHdrSize.toUInt32 + hdr.ihImgSize).toNat = body.length
  protFits : hdr.ihProtectTlvSize.toNat = protSize prot
  unprotFits : listSize unprot < 65536

end RuuviMcuboot
