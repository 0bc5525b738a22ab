/-
The search for the hardware revision as a scan of TLVs.

`revWalk` lists the TLVs that the two searches meet between the ends of the info
header and of the list, each with what the read of its payload delivers, and
`revScan` is what the searches do with them.  A file delivers the part of a payload
in front of its end, a flash area nothing if the payload passes its end.
-/
import RuuviMcuboot.FwImgHwRev

namespace RuuviMcuboot

open Binary Effect

variable (P : Platform)

/-! ## One TLV -/

/-- A TLV of the walk: where its header is, the header, and what the read of the
payload delivers. -/
structure RevTlv where
  off : Nat
  type : UInt16
  len : UInt16
  payload : Option Bytes
  deriving DecidableEq, Repr

def RevTlv.ofHdr (off : Nat) (tlv : ImageTlv) (payload : Option Bytes) : RevTlv :=
  { off := off, type := tlv.itType, len := tlv.itLen, payload := payload }

/-- The name field with the bytes of a name of `len` bytes, and the terminator. -/
def HwRev.putName (r : HwRev) (len : Nat) (b : Bytes) : HwRev :=
  { r with hwRevName := overlay (overlay r.hwRevName 0 b) len [0] }

/-- The record after a TLV, unless the TLV is malformed, a duplicate or cannot be
read. -/
def revTake (r : HwRev) (t : RevTlv) : Option HwRev :=
  if t.type = P.ruuviHwRevIdTlv then
    if t.len.toNat ≠ 4 ∨ r.hwRevNum ≠ 0 then none
    else t.payload.map fun b => { r with hwRevNum := u32FromBytesBe b }
  else if t.type = P.ruuviHwRevNameTlv then
    if t.len.toNat ≥ hwRevNameSize ∨ r.nameEmpty = false then none
    else t.payload.map fun b => r.putName t.len.toNat b
  else some r

/-- Both the id and the name have been found. -/
def HwRev.Complete (r : HwRev) : Prop := r.nameEmpty = false ∧ r.hwRevNum ≠ 0

instance (r : HwRev) : Decidable r.Complete := inferInstanceAs (Decidable (_ ∧ _))

/-- Go on with a record, or end the search. -/
def revStep (r : HwRev) (t : RevTlv) : HwRev ⊕ (Bool × HwRev) :=
  match revTake P r t with
  | none => .inr (false, r)
  | some r' => if r'.Complete then .inr (true, r') else .inl r'

def revScan : List RevTlv → HwRev → Bool × HwRev
  | [], r => (false, r)
  | t :: rest, r =>
    match revStep P r t with
    | .inl r' => revScan rest r'
    | .inr res => res

@[simp] theorem revScan_nil (r : HwRev) : revScan P [] r = (false, r) := rfl

theorem revScan_inl {r r' : HwRev} {t : RevTlv} (h : revStep P r t = .inl r') (l : List RevTlv) :
    revScan P (t :: l) r = revScan P l r' := by
  rw [revScan, h]

theorem revScan_inr {r : HwRev} {t : RevTlv} {res : Bool × HwRev} (h : revStep P r t = .inr res)
    (l : List RevTlv) : revScan P (t :: l) r = res := by
  rw [revScan, h]

/-! ## The walk -/

/-- The payload bytes at an offset, as `fs_read` delivers them. -/
def fileRead (b : Bytes) (off len : Nat) : Option Bytes := some (slice b off len)

/-- The payload bytes at an offset, as `flash_area_read` delivers them. -/
def flashRead (b : Bytes) (off len : Nat) : Option Bytes :=
  if off + len ≤ b.length then some (slice b off len) else none

/-- The TLV whose header is at `off`. -/
def revTlvAt (read : Nat → Nat → Option Bytes) (b : Bytes) (off : Nat) : RevTlv :=
  let hdr := ImageTlv.decode (slice b off tlvHdrSize)
  .ofHdr off hdr (read (off + 4) hdr.itLen.toNat)

/-- Where the TLV ends. -/
def RevTlv.last (t : RevTlv) : Nat := t.off + 4 + t.len.toNat

/-- The TLVs from `off` on whose headers lie in `b` and in front of `tlvsEnd`. -/
def revWalk (read : Nat → Nat → Option Bytes) (b : Bytes) (tlvsEnd : Nat) :
    Nat → Nat → List RevTlv
  | 0, _ => []
  | fuel + 1, off =>
    if off + 4 ≤ tlvsEnd ∧ off + 4 ≤ b.length then
      revTlvAt read b off :: revWalk read b tlvsEnd fuel (revTlvAt read b off).last
    else []

/-- The TLVs met behind a protected info header at `o`: the list is taken to end
`it_tlv_tot` bytes behind the info header. -/
def revTlvs (read : Nat → Nat → Option Bytes) (b : Bytes) (o : Nat) : List RevTlv :=
  let info := ImageTlvInfo.decode (slice b o tlvHdrSize)
  if info.itMagic = IMAGE_TLV_PROT_INFO_MAGIC then
    revWalk read b (o + 4 + info.itTlvTot.toNat) b.length (o + 4)
  else []

theorem mem_revTlvs {read : Nat → Nat → Option Bytes} {b : Bytes} {o : Nat} {t : RevTlv}
    (h : t ∈ revTlvs read b o) :
    t ∈ revWalk read b
      (o + 4 + (ImageTlvInfo.decode (slice b o tlvHdrSize)).itTlvTot.toNat) b.length (o + 4) := by
  unfold revTlvs at h
  dsimp only at h
  by_cases hmagic : (ImageTlvInfo.decode (slice b o tlvHdrSize)).itMagic = IMAGE_TLV_PROT_INFO_MAGIC
  · rwa [if_pos hmagic] at h
  · rw [if_neg hmagic] at h
    exact absurd h (by simp)

/-- What the search in a file with the contents `b` finds. -/
def fileRevScan (b : Bytes) (r : HwRev) : Bool × HwRev :=
  if b.length < imageHeaderSize then (false, r.clear)
  else
    let o := bootTlvOff (ImageHeader.decode (slice b 0 imageHeaderSize))
    revScan P (revTlvs (fileRead b) b o.toNat) r.clear

/-- What the search in a flash area with the contents `b` and a loaded header
finds. -/
def flashRevScan (b : Bytes) (hdr : ImageHeader) (r : HwRev) : Bool × HwRev :=
  revScan P (revTlvs (flashRead b) b (bootTlvOff hdr).toNat) r

/-- The records agree on what counts: the number, and the name as a string. -/
def HwRev.Same (r₁ r₂ : HwRev) : Prop :=
  r₁.hwRevNum = r₂.hwRevNum ∧ cString r₁.hwRevName = cString r₂.hwRevName

theorem HwRev.Same.refl (r : HwRev) : r.Same r := ⟨rfl, rfl⟩

theorem HwRev.Same.trans {r₁ r₂ r₃ : HwRev} (h : r₁.Same r₂) (h' : r₂.Same r₃) : r₁.Same r₃ :=
  ⟨h.1.trans h'.1, h.2.trans h'.2⟩

theorem cString_eq_nil {b : Bytes} : cString b = [] ↔ b.headD 0 = 0 := by
  cases b with
  | nil => exact ⟨fun _ => rfl, fun _ => rfl⟩
  | cons x rest =>
    unfold cString
    by_cases hx : x = 0
    · simp [hx]
    · simp [hx]

theorem nameEmpty_iff (r : HwRev) : r.nameEmpty = true ↔ cString r.hwRevName = [] := by
  rw [cString_eq_nil, HwRev.nameEmpty, beq_iff_eq]

theorem nameEmpty_eq_false_iff (r : HwRev) : r.nameEmpty = false ↔ cString r.hwRevName ≠ [] := by
  rw [← Bool.not_eq_true, nameEmpty_iff]

/-- Records that agree have the same flags. -/
theorem HwRev.Same.complete {r₁ r₂ : HwRev} (h : r₁.Same r₂) : r₁.Complete ↔ r₂.Complete := by
  unfold HwRev.Complete
  rw [nameEmpty_eq_false_iff, nameEmpty_eq_false_iff, h.1, h.2]

end RuuviMcuboot
