/-
The walk over a well-formed area.

The iterator meets the TLVs of the protected list and then those of the
unprotected list, in order, each with its own payload.  One thing is left: behind
a protected list the iterator steps over the info record of the unprotected list
without looking at the end again, so an empty unprotected list makes it read what
follows the area.
-/
import RuuviMcuboot.Image.Encode
import RuuviMcuboot.Validate.Walk

namespace RuuviMcuboot

open Binary Effect

variable {d : FileData} {hdr : ImageHeader}

/-! ## Records -/

/-- A TLV of an area: the list it belongs to and the offset of its payload. -/
structure AreaRecord where
  inProt : Bool
  off : Nat
  tlv : Tlv

/-- The TLVs of a list that starts at `off`. -/
def records (inProt : Bool) : Nat → List Tlv → List AreaRecord
  | _, [] => []
  | off, t :: rest =>
    { inProt := inProt, off := off + 4, tlv := t } ::
      records inProt (off + 4 + t.payload.length) rest

/-- What the iterator reports for a record when the protected part ends at
`protEnd`. -/
def AreaRecord.item (protEnd : Nat) (r : AreaRecord) : AreaTlv where
  prot := decide (r.off < protEnd)
  type := r.tlv.type
  len := r.tlv.len
  payload := some r.tlv.payload

/-- The TLVs of an image whose area starts at `off`. -/
def areaRecords (off : Nat) (prot : Option (List Tlv)) (unprot : List Tlv) : List AreaRecord :=
  records true (off + 4) (prot.getD []) ++ records false (off + protSize prot + 4) unprot

theorem records_append (inProt : Bool) (off : Nat) (l₁ l₂ : List Tlv) :
    records inProt off (l₁ ++ l₂) =
      records inProt off l₁ ++ records inProt (off + (encodeTlvs l₁).length) l₂ := by
  induction l₁ generalizing off with
  | nil => simp [records]
  | cons t rest ih =>
    simp only [List.cons_append, records, ih, encodeTlvs_cons, List.length_append,
      Tlv.encode_length]
    congr 3
    omega

theorem records_mem {inProt : Bool} {off : Nat} {l : List Tlv} {r : AreaRecord}
    (hr : r ∈ records inProt off l) : r.inProt = inProt ∧ off ≤ r.off ∧ r.tlv ∈ l := by
  induction l generalizing off with
  | nil => simp [records] at hr
  | cons t rest ih =>
    rcases List.mem_cons.mp hr with rfl | hr
    · exact ⟨rfl, Nat.le_add_right _ _, List.mem_cons_self⟩
    · obtain ⟨hin, hoff, hmem⟩ := ih hr
      exact ⟨hin, by omega, List.mem_cons_of_mem _ hmem⟩

theorem exists_record (inProt : Bool) {l : List Tlv} {t : Tlv} (ht : t ∈ l) (off : Nat) :
    ∃ r ∈ records inProt off l, r.tlv = t := by
  induction l generalizing off with
  | nil => simp at ht
  | cons u rest ih =>
    rcases List.mem_cons.mp ht with rfl | ht
    · exact ⟨_, List.mem_cons_self, rfl⟩
    · obtain ⟨r, hr, htlv⟩ := ih ht (off + 4 + u.payload.length)
      exact ⟨r, List.mem_cons_of_mem _ hr, htlv⟩

/-! ## Steps of the walk -/

/-- The iterator does not step over an info record at this offset. -/
def NoInfoAt (it : FileTlvIter) (off : Nat) : Prop :=
  0 < it.hdr.ihProtectTlvSize.toNat → off ≠ it.protEnd.toNat

theorem skipInfo_of_noInfo {it : FileTlvIter} (h : NoInfoAt it it.tlvOff.toNat) :
    it.skipInfo = it := by
  unfold FileTlvIter.skipInfo
  rw [if_neg]
  rintro ⟨hpos, heq⟩
  exact h hpos (by rw [heq])

/-- An iterator further on in the same area. -/
structure SameArea (it it' : FileTlvIter) : Prop where
  tlvEnd : it'.tlvEnd = it.tlvEnd
  protEnd : it'.protEnd = it.protEnd
  hdr : it'.hdr = it.hdr

theorem SameArea.trans {it₁ it₂ it₃ : FileTlvIter} (h₁ : SameArea it₁ it₂)
    (h₂ : SameArea it₂ it₃) : SameArea it₁ it₃ :=
  ⟨h₂.tlvEnd.trans h₁.tlvEnd, h₂.protEnd.trans h₁.protEnd, h₂.hdr.trans h₁.hdr⟩

theorem SameArea.noInfoAt {it it' : FileTlvIter} (h : SameArea it it') {off : Nat}
    (hno : NoInfoAt it off) : NoInfoAt it' off := by
  intro hpos
  rw [h.protEnd]
  rw [h.hdr] at hpos
  exact hno hpos

/-- The next TLV of a list: the record, and the iterator behind it. -/
theorem walkNext_encode {it : FileTlvIter} {pfx rest : Bytes} {t : Tlv}
    (hbytes : d.bytes = pfx ++ (t.encode ++ rest)) (hoff : it.tlvOff.toNat = pfx.length)
    (hend : pfx.length < it.tlvEnd.toNat) (hno : NoInfoAt it pfx.length) :
    ∃ found it', walkNext d it = .found found it' ∧
      it'.tlvOff.toNat = pfx.length + 4 + t.payload.length ∧
      SameArea it it' ∧
      ∀ inProt, AreaTlv.ofFound d it' found =
        AreaRecord.item it.protEnd.toNat { inProt := inProt, off := pfx.length + 4, tlv := t } := by
  have hlen : d.bytes.length = pfx.length + (4 + t.payload.length + rest.length) := by
    rw [hbytes]
    simp
  have hlt := fileData_length_lt d
  have hskip : it.skipInfo = it := skipInfo_of_noInfo (hoff ▸ hno)
  have hbefore : it.tlvOff < it.tlvEnd := by
    rw [UInt32.lt_iff_toNat_lt, hoff]
    exact hend
  have hhead : slice d.bytes pfx.length 4 = t.header := by
    have h := slice_middle pfx t.header (t.payload ++ rest)
    rw [Tlv.header_length, ← List.append_assoc t.header] at h
    rw [hbytes]
    exact h
  have hload : loadBytes d it.tlvOff tlvHdrSize = .ok t.header := by
    rw [loadBytes_of_le (by rw [hoff]; unfold tlvHdrSize; omega), hoff, tlvHdrSize, hhead]
  have hoff₁ : (it.tlvOff + 4).toNat = pfx.length + 4 := by
    rw [UInt32.toNat_add, hoff]
    simp
    omega
  have hpay : slice d.bytes (pfx.length + 4) t.payload.length = t.payload := by
    have h := slice_middle (pfx ++ t.header) t.payload rest
    rw [List.length_append, Tlv.header_length] at h
    rw [hbytes, Tlv.encode, List.append_assoc, ← List.append_assoc]
    exact h
  have hnext : walkNext d it =
      .found { off := it.tlvOff + 4, len := t.len, type := t.type } (it.advance t.len) := by
    rw [walkNext, if_pos hbefore, hskip, hload]
    dsimp only
    rw [ImageTlv.decode_header]
  refine ⟨_, _, hnext, ?_, ⟨rfl, rfl, rfl⟩, fun inProt => ?_⟩
  · rw [FileTlvIter.advance, UInt32.toNat_add, UInt32.toNat_add, hoff, UInt16.toNat_toUInt32,
      Tlv.len_toNat]
    have := t.payload_lt
    simp
    omega
  · have hprot : fileTlvIterIsProt (it.advance t.len) (it.tlvOff + 4) =
        decide (pfx.length + 4 < it.protEnd.toNat) := by
      rw [fileTlvIterIsProt]
      simp only [FileTlvIter.advance, UInt32.lt_iff_toNat_lt, hoff₁]
    have hpayload : payloadAt d (it.tlvOff + 4) t.len.toNat = some t.payload := by
      rw [payloadAt, Tlv.len_toNat, loadBytes_of_le (by rw [hoff₁]; omega), hoff₁, hpay]
      rfl
    simp only [AreaTlv.ofFound, AreaRecord.item, hprot, hpayload]

/-- The walk over the encoding of a list meets the list, by induction on it, and
goes on behind it. -/
theorem areaTlvs_encode (inProt : Bool) (fuel : Nat) {l : List Tlv} {it : FileTlvIter}
    {pfx rest : Bytes} (hbytes : d.bytes = pfx ++ (encodeTlvs l ++ rest))
    (hoff : it.tlvOff.toNat = pfx.length)
    (hend : pfx.length + (encodeTlvs l).length ≤ it.tlvEnd.toNat)
    (hno : ∀ k, pfx.length ≤ k → k < pfx.length + (encodeTlvs l).length → NoInfoAt it k) :
    ∃ it', SameArea it it' ∧ it'.tlvOff.toNat = pfx.length + (encodeTlvs l).length ∧
      areaTlvs d (l.length + fuel) it =
        ((records inProt pfx.length l).map (AreaRecord.item it.protEnd.toNat) ++
          (areaTlvs d fuel it').1, (areaTlvs d fuel it').2) := by
  induction l generalizing it pfx with
  | nil => exact ⟨it, ⟨rfl, rfl, rfl⟩, hoff, by simp [records]⟩
  | cons t tail ih =>
    rw [encodeTlvs_cons, List.length_append, Tlv.encode_length] at hend hno ⊢
    rw [encodeTlvs_cons, List.append_assoc] at hbytes
    obtain ⟨found, it₁, hnext, hoff₁, hsame, hitem⟩ :=
      walkNext_encode hbytes hoff (by omega) (hno _ (Nat.le_refl _) (by omega))
    have hpfx : (pfx ++ t.encode).length = pfx.length + 4 + t.payload.length := by
      rw [List.length_append, Tlv.encode_length]
      omega
    have hbytes₁ : d.bytes = (pfx ++ t.encode) ++ (encodeTlvs tail ++ rest) := by
      rw [hbytes, List.append_assoc]
    obtain ⟨it', hsame', hoff', hwalk⟩ := ih hbytes₁ (show it₁.tlvOff.toNat = _ by rw [hoff₁, hpfx])
      (by rw [hsame.tlvEnd, hpfx]; omega)
      (fun k hlo hhi => hsame.noInfoAt (hno k (by omega) (by omega)))
    refine ⟨it', hsame.trans hsame', by rw [hoff', hpfx]; omega, ?_⟩
    have hfuel : (t :: tail).length + fuel = (tail.length + fuel) + 1 := by
      rw [List.length_cons]
      omega
    rw [hfuel, areaTlvs, hnext]
    dsimp only
    rw [hwalk, hsame.protEnd, hpfx, hitem inProt, records, List.map_cons, List.cons_append]

/-- Where the area ends the walk is over. -/
theorem areaTlvs_end (fuel : Nat) {it : FileTlvIter} (hend : it.tlvEnd.toNat ≤ it.tlvOff.toNat) :
    areaTlvs d (fuel + 1) it = ([], true) := by
  have hnot : ¬ it.tlvOff < it.tlvEnd := by
    rw [UInt32.lt_iff_toNat_lt]
    omega
  rw [areaTlvs, walkNext, if_neg hnot]

/-- At the info record of the unprotected list the iterator steps over it. -/
theorem areaTlvs_skipInfo (fuel : Nat) {it : FileTlvIter}
    (hprot : 0 < it.hdr.ihProtectTlvSize.toNat) (hoff : it.tlvOff = it.protEnd)
    (hoff₁ : (it.tlvOff + 4).toNat = it.tlvOff.toNat + 4)
    (hend : it.tlvOff.toNat + 4 < it.tlvEnd.toNat) :
    areaTlvs d (fuel + 1) it = areaTlvs d (fuel + 1) { it with tlvOff := it.tlvOff + 4 } := by
  have hskip : it.skipInfo = { it with tlvOff := it.tlvOff + 4 } := by
    rw [FileTlvIter.skipInfo, if_pos ⟨hprot, hoff⟩]
  have hne : it.tlvOff + 4 ≠ it.protEnd := by
    intro h
    rw [h, ← hoff] at hoff₁
    omega
  have hskip' : ({ it with tlvOff := it.tlvOff + 4 } : FileTlvIter).skipInfo =
      { it with tlvOff := it.tlvOff + 4 } := by
    rw [FileTlvIter.skipInfo, if_neg (fun h => hne h.2)]
  have h₁ : it.tlvOff < it.tlvEnd := by rw [UInt32.lt_iff_toNat_lt]; omega
  have h₂ : it.tlvOff + 4 < it.tlvEnd := by rw [UInt32.lt_iff_toNat_lt, hoff₁]; exact hend
  have hnext : walkNext d it = walkNext d { it with tlvOff := it.tlvOff + 4 } := by
    rw [walkNext, walkNext, if_pos h₁, if_pos h₂, hskip, hskip']
  rw [areaTlvs, areaTlvs, hnext]

/-! ## Well-formed images -/

variable {body tail : Bytes} {prot : Option (List Tlv)} {unprot : List Tlv}

/-- Where the parts of a well-formed image lie. -/
structure AreaBounds (it : FileTlvIter) (off protSz totSz : Nat) : Prop where
  tlvOff : it.tlvOff.toNat = off + 4
  protEnd : it.protEnd.toNat = off + protSz
  tlvEnd : it.tlvEnd.toNat = off + protSz + totSz

theorem imageBytes_length (body : Bytes) (prot : Option (List Tlv)) (unprot : List Tlv)
    (tail : Bytes) : (imageBytes body prot unprot tail).length =
      body.length + protSize prot + listSize unprot + tail.length := by
  simp [imageBytes]
  omega

theorem WellFormedImage.length_lt (h : WellFormedImage d.bytes hdr body prot unprot tail) :
    body.length + protSize prot + listSize unprot + tail.length < 2147483648 := by
  have hlt := fileData_length_lt d
  rwa [h.bytes, imageBytes_length] at hlt

theorem loadBytes_middle {a b c : Bytes} {start : UInt32} (hbytes : d.bytes = a ++ (b ++ c))
    (hstart : start.toNat = a.length) : loadBytes d start b.length = .ok b := by
  have hlen : a.length + b.length ≤ d.bytes.length := by
    rw [hbytes]
    simp
  rw [loadBytes_of_le (hstart ▸ hlen), hstart, hbytes, slice_middle]

theorem WellFormedImage.begin (h : WellFormedImage d.bytes hdr body prot unprot tail)
    (type : UInt16) (fl : Bool) :
    ∃ it, tlvIterBegin d hdr type fl = some it ∧ it.hdr = hdr ∧
      AreaBounds it body.length (protSize prot) (listSize unprot) := by
  have hlt := h.length_lt
  have hoff : (bootTlvOff hdr).toNat = body.length := h.offset
  have hunprot := h.unprotFits
  have htot : (UInt16.ofNat (listSize unprot)).toUInt32.toNat = listSize unprot := by
    rw [UInt16.toNat_toUInt32, UInt16.toNat_ofNat', Nat.mod_eq_of_lt hunprot]
  have hp : hdr.ihProtectTlvSize.toUInt32.toNat = protSize prot := by
    rw [UInt16.toNat_toUInt32, h.protFits]
  have hpos : 4 ≤ listSize unprot := Nat.le_add_right _ _
  have hbounds : AreaBounds
      { hdr := hdr
        type := type
        prot := fl
        protEnd := bootTlvOff hdr + hdr.ihProtectTlvSize.toUInt32
        tlvEnd := bootTlvOff hdr + hdr.ihProtectTlvSize.toUInt32 +
          (UInt16.ofNat (listSize unprot)).toUInt32
        tlvOff := bootTlvOff hdr + 4 } body.length (protSize prot) (listSize unprot) := by
    constructor
    · rw [UInt32.toNat_add, hoff]
      simp
      omega
    · rw [UInt32.toNat_add, hoff, hp, Nat.mod_eq_of_lt (by omega)]
    · rw [UInt32.toNat_add, UInt32.toNat_add, hoff, hp, htot, Nat.mod_eq_of_lt (by omega),
        Nat.mod_eq_of_lt (by omega)]
  refine ⟨_, ?_, rfl, hbounds⟩
  cases prot with
  | none =>
    have hzero : hdr.ihProtectTlvSize = 0 := UInt16.toNat_inj.mp h.protFits
    have hload : loadBytes d (bootTlvOff hdr) tlvHdrSize =
        .ok (infoRecord IMAGE_TLV_INFO_MAGIC unprot) := by
      have := loadBytes_middle (d := d) (b := infoRecord IMAGE_TLV_INFO_MAGIC unprot)
        (c := encodeTlvs unprot ++ tail) (h.bytes.trans (by
          simp [imageBytes, encodeProt, encodeList])) hoff
      rwa [infoRecord_length] at this
    have hmagic : IMAGE_TLV_INFO_MAGIC ≠ IMAGE_TLV_PROT_INFO_MAGIC := by decide
    simp only [tlvIterBegin, hload, ImageTlvInfo.decode_infoRecord, hmagic, hzero, ne_eq, not_true,
      if_false]
  | some l =>
    have hsize : UInt16.ofNat (listSize l) = hdr.ihProtectTlvSize := by
      rw [← show hdr.ihProtectTlvSize.toNat = listSize l from h.protFits, UInt16.ofNat_toNat]
    have hload₁ : loadBytes d (bootTlvOff hdr) tlvHdrSize =
        .ok (infoRecord IMAGE_TLV_PROT_INFO_MAGIC l) := by
      have := loadBytes_middle (d := d) (b := infoRecord IMAGE_TLV_PROT_INFO_MAGIC l)
        (c := encodeTlvs l ++ (encodeList IMAGE_TLV_INFO_MAGIC unprot ++ tail))
        (h.bytes.trans (by simp [imageBytes, encodeProt, encodeList])) hoff
      rwa [infoRecord_length] at this
    have hload₂ : loadBytes d (bootTlvOff hdr + hdr.ihProtectTlvSize.toUInt32) tlvHdrSize =
        .ok (infoRecord IMAGE_TLV_INFO_MAGIC unprot) := by
      have hstart : (bootTlvOff hdr + hdr.ihProtectTlvSize.toUInt32).toNat =
          (body ++ encodeProt (some l)).length := by
        rw [hbounds.protEnd, List.length_append, encodeProt_length]
      have := loadBytes_middle (b := infoRecord IMAGE_TLV_INFO_MAGIC unprot)
        (c := encodeTlvs unprot ++ tail) (h.bytes.trans (by simp [imageBytes, encodeList])) hstart
      rwa [infoRecord_length] at this
    simp only [tlvIterBegin, hload₁, ImageTlvInfo.decode_infoRecord, hsize, hload₂, ne_eq, not_true,
      if_true, if_false]

theorem encodeTlvs_pos {l : List Tlv} (hl : l ≠ []) : 4 ≤ (encodeTlvs l).length := by
  cases l with
  | nil => exact absurd rfl hl
  | cons t rest =>
    have := length_le_encodeTlvs (t :: rest)
    rw [List.length_cons] at this
    omega

/-- The walk over a list that comes last in its area. -/
theorem areaTlvs_last (inProt : Bool) {fuel : Nat} {l : List Tlv} {it : FileTlvIter}
    {pfx rest : Bytes} (hbytes : d.bytes = pfx ++ (encodeTlvs l ++ rest))
    (hoff : it.tlvOff.toNat = pfx.length)
    (hend : it.tlvEnd.toNat = pfx.length + (encodeTlvs l).length)
    (hno : ∀ k, pfx.length ≤ k → k < pfx.length + (encodeTlvs l).length → NoInfoAt it k)
    (hfuel : l.length < fuel) :
    areaTlvs d fuel it =
      ((records inProt pfx.length l).map (AreaRecord.item it.protEnd.toNat), true) := by
  obtain ⟨k, rfl⟩ : ∃ k, fuel = l.length + (k + 1) := ⟨fuel - l.length - 1, by omega⟩
  obtain ⟨it', hsame, hoff', hwalk⟩ :=
    areaTlvs_encode inProt (k + 1) hbytes hoff (by omega) hno
  have hstop : areaTlvs d (k + 1) it' = ([], true) :=
    areaTlvs_end k (Nat.le_of_eq (by rw [hsame.tlvEnd, hend, hoff']))
  rw [hwalk, hstop, List.append_nil]

/-- The records of a well-formed image in order.  Only behind an empty
unprotected list that follows a protected one is there anything else. -/
theorem WellFormedImage.area (h : WellFormedImage d.bytes hdr body prot unprot tail)
    {it : FileTlvIter} (hhdr : it.hdr = hdr)
    (hb : AreaBounds it body.length (protSize prot) (listSize unprot)) {fuel : Nat}
    (hfuel : d.bytes.length < fuel) :
    ∃ ghost clean, areaTlvs d fuel it =
        ((areaRecords body.length prot unprot).map
          (AreaRecord.item (body.length + protSize prot)) ++ ghost, clean) ∧
      (prot = none ∨ unprot ≠ [] → ghost = [] ∧ clean = true) := by
  have hlen : d.bytes.length = body.length + protSize prot + listSize unprot + tail.length := by
    rw [h.bytes, imageBytes_length]
  have hulen := length_le_encodeTlvs unprot
  have husize : listSize unprot = 4 + (encodeTlvs unprot).length := rfl
  cases prot with
  | none =>
    have hno : ∀ k, NoInfoAt it k := by
      intro k hpos
      rw [hhdr, h.protFits] at hpos
      exact absurd hpos (Nat.lt_irrefl 0)
    have hpfx : (body ++ infoRecord IMAGE_TLV_INFO_MAGIC unprot).length = body.length + 4 := by
      simp
    have hbytes : d.bytes =
        (body ++ infoRecord IMAGE_TLV_INFO_MAGIC unprot) ++ (encodeTlvs unprot ++ tail) :=
      h.bytes.trans (by simp [imageBytes, encodeProt, encodeList])
    have hwalk := areaTlvs_last false hbytes (show it.tlvOff.toNat = _ by rw [hpfx, hb.tlvOff])
      (by rw [hpfx, hb.tlvEnd, husize, protSize]; omega) (fun k _ _ => hno k)
      (show unprot.length < fuel by omega)
    refine ⟨[], true, ?_, fun _ => ⟨rfl, rfl⟩⟩
    rw [hwalk, hpfx, hb.protEnd, List.append_nil]
    rfl
  | some l =>
    have hplen := length_le_encodeTlvs l
    have hpsize : protSize (some l) = 4 + (encodeTlvs l).length := rfl
    have hpfx : (body ++ infoRecord IMAGE_TLV_PROT_INFO_MAGIC l).length = body.length + 4 := by
      simp
    obtain ⟨k, rfl⟩ : ∃ k, fuel = l.length + (k + 1) := ⟨fuel - l.length - 1, by omega⟩
    have hbytes : d.bytes = (body ++ infoRecord IMAGE_TLV_PROT_INFO_MAGIC l) ++
        (encodeTlvs l ++ (encodeList IMAGE_TLV_INFO_MAGIC unprot ++ tail)) :=
      h.bytes.trans (by simp [imageBytes, encodeProt, encodeList])
    obtain ⟨it', hsame, hoff', hwalk⟩ := areaTlvs_encode true (k + 1) hbytes
      (show it.tlvOff.toNat = _ by rw [hpfx, hb.tlvOff]) (by rw [hpfx, hb.tlvEnd, hpsize]; omega)
      (fun j hlo hhi _ => by rw [hb.protEnd, hpsize]; rw [hpfx] at hhi; omega)
    rw [hpfx, hb.protEnd] at hwalk
    rw [hpfx] at hoff'
    by_cases hu : unprot = []
    · refine ⟨(areaTlvs d (k + 1) it').1, (areaTlvs d (k + 1) it').2, ?_, ?_⟩
      · subst hu
        rw [hwalk, areaRecords, Option.getD_some, records, List.append_nil]
      · rintro (hnone | hne)
        · exact absurd hnone (by simp)
        · exact absurd hu hne
    · -- the iterator stands at the info record of the unprotected list
      have hupos := encodeTlvs_pos hu
      have hlt := h.length_lt
      have hend' : it'.tlvEnd.toNat = body.length + protSize (some l) + listSize unprot := by
        rw [hsame.tlvEnd, hb.tlvEnd]
      have hprotEnd' : it'.protEnd.toNat = body.length + protSize (some l) := by
        rw [hsame.protEnd, hb.protEnd]
      have hoff₄ : (it'.tlvOff + 4).toNat = it'.tlvOff.toNat + 4 := by
        rw [UInt32.toNat_add]
        simp
        omega
      have hat : it'.tlvOff = it'.protEnd :=
        UInt32.toNat_inj.mp (by rw [hoff', hprotEnd', hpsize]; omega)
      have hskip := areaTlvs_skipInfo (d := d) k (by rw [hsame.hdr, hhdr, h.protFits]; omega) hat hoff₄
        (by rw [hoff', hend']; omega)
      have hpfx' : (body ++ encodeProt (some l) ++ infoRecord IMAGE_TLV_INFO_MAGIC unprot).length =
          body.length + protSize (some l) + 4 := by
        simp
        omega
      have hbytes' : d.bytes =
          (body ++ encodeProt (some l) ++ infoRecord IMAGE_TLV_INFO_MAGIC unprot) ++
            (encodeTlvs unprot ++ tail) :=
        h.bytes.trans (by simp [imageBytes, encodeList])
      have hoff'' : ({ it' with tlvOff := it'.tlvOff + 4 } : FileTlvIter).tlvOff.toNat =
          (body ++ encodeProt (some l) ++ infoRecord IMAGE_TLV_INFO_MAGIC unprot).length := by
        show (it'.tlvOff + 4).toNat = _
        rw [hpfx', hoff₄, hoff']
        omega
      have hlast := areaTlvs_last false hbytes' hoff''
        (by rw [hpfx']; show it'.tlvEnd.toNat = _; rw [hend', husize]; omega)
        (fun j hlo _ _ => by show j ≠ it'.protEnd.toNat; rw [hprotEnd']; rw [hpfx'] at hlo; omega)
        (show unprot.length < k + 1 by omega)
      refine ⟨[], true, ?_, fun _ => ⟨rfl, rfl⟩⟩
      rw [hwalk, hskip, hlast, hpfx']
      dsimp only
      rw [hprotEnd', areaRecords, Option.getD_some, List.map_append, List.append_nil]

end RuuviMcuboot
