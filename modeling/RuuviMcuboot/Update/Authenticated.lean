/-
The authenticated part of a file and the gates behind its check.

The header, the records of the hardware revision and the firmware information are
found at places that the file itself or a fixed list of offsets declares.  Two files
that agree where they are authenticated are treated alike by a gate if what the gate
looks at lies in that part, and a record of firmware information need not lie there.
-/
import RuuviMcuboot.Revision.Found
import RuuviMcuboot.Revision.Search
import RuuviMcuboot.Update.Install
import RuuviMcuboot.Update.Validated
import RuuviMcuboot.Validate.Authenticity

namespace RuuviMcuboot

open Binary Effect

variable {P : Platform} {d d' : FileData} {w : World}

/-! ## Equal bytes -/

theorem take_eq_of_getElem? {a b : Bytes} {n : Nat} (h : ∀ i < n, a[i]? = b[i]?) :
    a.take n = b.take n := by
  apply List.ext_getElem?
  intro i
  rw [List.getElem?_take, List.getElem?_take]
  by_cases hi : i < n
  · rw [if_pos hi, if_pos hi]
    exact h i hi
  · rw [if_neg hi, if_neg hi]

theorem slice_eq_of_getElem? {a b : Bytes} {off len : Nat}
    (h : ∀ i, off ≤ i → i < off + len → a[i]? = b[i]?) : slice a off len = slice b off len := by
  unfold slice
  apply take_eq_of_getElem?
  intro i hi
  rw [List.getElem?_drop, List.getElem?_drop]
  exact h (off + i) (Nat.le_add_right _ _) (by omega)

theorem slice_eq_of_take {a b : Bytes} {off len n : Nat} (h : a.take n = b.take n)
    (hin : off + len ≤ n) : slice a off len = slice b off len := by
  rw [← slice_take hin, h, slice_take hin]

/-! ## The records of the hardware revision -/

theorem wholeTlvs_fuel {area : Bytes} (n : Nat) :
    ∀ m off, area.length ≤ n + off → area.length ≤ m + off →
      wholeTlvs area n off = wholeTlvs area m off := by
  have hempty : ∀ k off, area.length ≤ off → wholeTlvs area k off = [] := by
    intro k off hoff
    cases k with
    | zero => rfl
    | succ k => exact if_neg (fun h => by omega)
  induction n with
  | zero =>
    intro m off hn _
    rw [hempty 0 off (by omega), hempty m off (by omega)]
  | succ n ih =>
    intro m off hn hm
    cases m with
    | zero => rw [hempty _ off (by omega), hempty _ off (by omega)]
    | succ m =>
      have hoff : off + 4 ≤ (revTlvAt (fileRead area) area off).last := Nat.le_add_right _ _
      have hrest := ih m (revTlvAt (fileRead area) area off).last (by omega) (by omega)
      unfold wholeTlvs
      dsimp only
      rw [hrest]

/-- The TLVs of the protected area are those of its bytes. -/
theorem protTlvs_congr {b b' : Bytes} {o : Nat} (hend : protEnd b' o = protEnd b o)
    (htake : b.take (protEnd b o) = b'.take (protEnd b o)) : protTlvs b o = protTlvs b' o := by
  have hlen : (b.take (protEnd b o)).length ≤ b.length := by
    rw [List.length_take]
    exact Nat.min_le_right _ _
  have hlen' : (b.take (protEnd b o)).length ≤ b'.length := by
    rw [htake, List.length_take]
    exact Nat.min_le_right _ _
  unfold protTlvs
  rw [hend, ← htake]
  exact wholeTlvs_fuel _ _ _ (by omega) (by omega)

/-- Where the TLV area of a file starts. -/
def tlvOffset (d : FileData) : Nat := (bootTlvOff (fileHeader d)).toNat

/-- No record of the hardware revision that the search meets passes the end of the
protected area. -/
def RevInside (P : Platform) (d : FileData) : Prop :=
  ∀ t ∈ revTlvs (fileRead d.bytes) d.bytes (tlvOffset d), t.IsRev P →
    t.last ≤ protEnd d.bytes (tlvOffset d)

instance (P : Platform) (d : FileData) : Decidable (RevInside P d) :=
  inferInstanceAs (Decidable (∀ t ∈ revTlvs (fileRead d.bytes) d.bytes (tlvOffset d),
    t.IsRev P → t.last ≤ protEnd d.bytes (tlvOffset d)))

/-- The info header of the TLV area, if it is one of a protected area. -/
def ProtectedInfo (d : FileData) : Prop :=
  (ImageTlvInfo.decode (slice d.bytes (tlvOffset d) tlvHdrSize)).itMagic = IMAGE_TLV_PROT_INFO_MAGIC

instance (d : FileData) : Decidable (ProtectedInfo d) := inferInstanceAs (Decidable (_ = _))

/-- The search comes to what it finds in the protected area. -/
theorem revScan_inside {r : HwRev} (hr : ¬ r.Complete) (hmagic : ProtectedInfo d)
    (hfit : protEnd d.bytes (tlvOffset d) ≤ d.bytes.length) (hin : RevInside P d) :
    revScan P (revTlvs (fileRead d.bytes) d.bytes (tlvOffset d)) r =
      revScan P (protTlvs d.bytes (tlvOffset d)) r := by
  obtain ⟨extra, hsplit, hextra⟩ := revTlvs_split (fileRead_payload d.bytes) hmagic
  have hother : extra.filter (·.IsRev P) = [] := by
    refine List.filter_eq_nil_iff.mpr (fun t ht hrev => hextra t ht ?_)
    have hmem : t ∈ revTlvs (fileRead d.bytes) d.bytes (tlvOffset d) := by
      rw [hsplit]
      exact List.mem_append_right _ ht
    have hlast := hin t hmem (of_decide_eq_true hrev)
    exact ⟨hlast, Nat.le_trans hlast hfit⟩
  rw [revScan_filter hr, hsplit, List.filter_append, hother, List.append_nil, ← revScan_filter hr]

/-- Two files with the same protected area. -/
structure SameProtected (d d' : FileData) : Prop where
  whole : imageHeaderSize ≤ d.bytes.length
  whole' : imageHeaderSize ≤ d'.bytes.length
  offset : tlvOffset d' = tlvOffset d
  info : ProtectedInfo d ↔ ProtectedInfo d'
  area : ProtectedInfo d →
    protEnd d'.bytes (tlvOffset d) = protEnd d.bytes (tlvOffset d) ∧
      protEnd d.bytes (tlvOffset d) ≤ d.bytes.length ∧
      protEnd d.bytes (tlvOffset d) ≤ d'.bytes.length ∧
      d.bytes.take (protEnd d.bytes (tlvOffset d)) = d'.bytes.take (protEnd d.bytes (tlvOffset d))

theorem fileRevScan_whole (hwhole : imageHeaderSize ≤ d.bytes.length) (r : HwRev) :
    fileRevScan P d.bytes r =
      revScan P (revTlvs (fileRead d.bytes) d.bytes (tlvOffset d)) r.clear :=
  if_neg (Nat.not_lt.mpr hwhole)

/-- In two files with the same protected area the search finds the same. -/
theorem fileRevScan_congr (h : SameProtected d d') (hin : RevInside P d) (hin' : RevInside P d')
    (r : HwRev) : fileRevScan P d.bytes r = fileRevScan P d'.bytes r := by
  rw [fileRevScan_whole h.whole, fileRevScan_whole h.whole']
  by_cases hmagic : ProtectedInfo d
  · obtain ⟨hend, hfit, hfit', htake⟩ := h.area hmagic
    have hfit₂ : protEnd d'.bytes (tlvOffset d') ≤ d'.bytes.length := by
      rw [h.offset, hend]
      exact hfit'
    rw [revScan_inside (clear_open r) hmagic hfit hin,
      revScan_inside (clear_open r) (h.info.mp hmagic) hfit₂ hin', h.offset,
      protTlvs_congr hend htake]
  · have hnil : ∀ {e : FileData}, ¬ ProtectedInfo e →
        revTlvs (fileRead e.bytes) e.bytes (tlvOffset e) = [] := fun he => if_neg he
    rw [hnil hmagic, hnil (fun h' => hmagic (h.info.mpr h'))]

/-- The gate on the name sees only what counts in a record. -/
theorem hwRevMismatch_congr {r r' : HwRev} (h : r.Same r') (expected : HwRev) :
    hwRevMismatch expected r = hwRevMismatch expected r' := by
  unfold hwRevMismatch
  rw [h.2]

theorem hwRevOn_same (hne : RevTypesDiffer P)
    (h : fileRevScan P d.bytes HwRev.zero = fileRevScan P d'.bytes HwRev.zero) :
    (hwRevOn P d).2.Same (hwRevOn P d').2 := by
  have hd : Matches (hwRevOn P d) (fileRevScan P d.bytes HwRev.zero) :=
    fileOps_findInFile hne HwRev.zero 0
  have hd' : Matches (hwRevOn P d') (fileRevScan P d'.bytes HwRev.zero) :=
    fileOps_findInFile hne HwRev.zero 0
  rw [← h] at hd'
  exact hd.same.trans ⟨hd'.same.1.symm, hd'.same.2.symm⟩

/-! ## Files that were validated -/

/-- The info header in front of a walk that begins agrees with the header. -/
theorem tlvIterBegin_info {hdr : ImageHeader} {type : UInt16} {prot : Bool} {it : FileTlvIter}
    (h : tlvIterBegin d hdr type prot = some it) :
    let info := ImageTlvInfo.decode (slice d.bytes (bootTlvOff hdr).toNat tlvHdrSize)
    if info.itMagic = IMAGE_TLV_PROT_INFO_MAGIC then
      hdr.ihProtectTlvSize = info.itTlvTot ∧ hdr.ihProtectTlvSize ≠ 0
    else hdr.ihProtectTlvSize = 0 := by
  intro info
  unfold tlvIterBegin at h
  dsimp only at h
  cases hload : loadBytes d (bootTlvOff hdr) tlvHdrSize with
  | error rc =>
    rw [hload] at h
    exact absurd h (by simp)
  | ok b =>
    have hb := (loadBytes_ok hload).1
    rw [hload] at h
    dsimp only at h
    by_cases hmagic : info.itMagic = IMAGE_TLV_PROT_INFO_MAGIC
    · rw [if_pos hmagic]
      rw [hb, if_pos hmagic] at h
      by_cases htot : hdr.ihProtectTlvSize ≠ info.itTlvTot
      · rw [if_pos htot] at h
        exact absurd h (by simp)
      · refine ⟨not_not.mp htot, fun hzero => ?_⟩
        -- an empty protected list would start with the info header of the other one
        have hsame : bootTlvOff hdr + info.itTlvTot.toUInt32 = bootTlvOff hdr := by
          rw [← not_not.mp htot, hzero]
          exact UInt32.add_zero _
        rw [if_neg htot, hsame, hload] at h
        dsimp only at h
        rw [hb, if_pos (show info.itMagic ≠ IMAGE_TLV_INFO_MAGIC by rw [hmagic]; decide)] at h
        exact absurd h (by simp)
    · rw [if_neg hmagic]
      rw [hb, if_neg hmagic] at h
      by_cases hzero : hdr.ihProtectTlvSize ≠ 0
      · rw [if_pos hzero] at h
        exact absurd h (by simp)
      · exact not_not.mp hzero

/-- The bytes that are hashed for a file. -/
def hashedLength (d : FileData) : Nat := (hashedSize (fileHeader d)).toNat

/-- The hashed bytes of a validated file end with its protected area. -/
structure Validated (d : FileData) : Prop where
  hashed : hashedLength d = tlvOffset d + (fileHeader d).ihProtectTlvSize.toNat
  fits : hashedLength d ≤ d.bytes.length
  info : if ProtectedInfo d then
      protEnd d.bytes (tlvOffset d) = hashedLength d ∧ (fileHeader d).ihProtectTlvSize ≠ 0
    else (fileHeader d).ihProtectTlvSize = 0

theorem validated_of_ok {dstFaAddr : UInt32} {dstFaSize : Nat}
    (hok : (validateOn P d dstFaAddr dstFaSize).ok = true) : Validated d := by
  obtain ⟨-, hfit, -, -, hval⟩ := validateOn_ok P hok
  obtain ⟨hhash, it, hit, -, -⟩ := validateData_success hval
  have hmax := d.size_le
  have hprot := (fileHeader d).ihProtectTlvSize.toNat_lt
  have hlt : lfsFileMax = 2147483647 := rfl
  have hoff : tlvOffset d = (fileHeader d).ihHdrSize.toNat + (fileHeader d).ihImgSize.toNat :=
    bootTlvOff_toNat (by omega)
  have hhashed : hashedLength d = tlvOffset d + (fileHeader d).ihProtectTlvSize.toNat := by
    rw [hoff]
    exact hashedSize_toNat (by omega)
  refine ⟨hhashed, hhash, ?_⟩
  have hinfo : if ProtectedInfo d then
        (fileHeader d).ihProtectTlvSize =
            (ImageTlvInfo.decode (slice d.bytes (tlvOffset d) tlvHdrSize)).itTlvTot ∧
          (fileHeader d).ihProtectTlvSize ≠ 0
      else (fileHeader d).ihProtectTlvSize = 0 := tlvIterBegin_info hit
  by_cases hmagic : ProtectedInfo d
  · rw [if_pos hmagic] at hinfo ⊢
    refine ⟨?_, hinfo.2⟩
    rw [hhashed, hinfo.1]
    rfl
  · rw [if_neg hmagic] at hinfo ⊢
    exact hinfo

theorem fileHeader_congr {n : Nat} (htake : d.bytes.take n = d'.bytes.take n)
    (hn : imageHeaderSize ≤ n) : fileHeader d' = fileHeader d := by
  unfold fileHeader
  rw [slice_eq_of_take htake (show 0 + imageHeaderSize ≤ n by omega)]

/-- Validated files with the same hashed bytes have the same protected area. -/
theorem sameProtected_of_validated (hd : Validated d) (hd' : Validated d')
    (hlen : imageHeaderSize ≤ hashedLength d)
    (htake : d.bytes.take (hashedLength d) = d'.bytes.take (hashedLength d)) :
    SameProtected d d' := by
  have hhdr := fileHeader_congr htake hlen
  have hoff : tlvOffset d' = tlvOffset d := by
    unfold tlvOffset
    rw [hhdr]
  have hsize : hashedLength d' = hashedLength d := by
    unfold hashedLength
    rw [hhdr]
  have hfit := hd.fits
  have hfit' := hd'.fits
  have hinfo := hd.info
  have hinfo' := hd'.info
  rw [hhdr] at hinfo'
  by_cases hmagic : ProtectedInfo d
  · rw [if_pos hmagic] at hinfo
    have hmagic' : ProtectedInfo d' := by
      by_contra hno
      rw [if_neg hno] at hinfo'
      exact hinfo.2 hinfo'
    rw [if_pos hmagic', hoff, hsize] at hinfo'
    refine ⟨by omega, by omega, hoff, iff_of_true hmagic hmagic', fun _ => ?_⟩
    rw [hinfo.1, hinfo'.1]
    exact ⟨rfl, hfit, by omega, htake⟩
  · rw [if_neg hmagic] at hinfo
    have hmagic' : ¬ ProtectedInfo d' := by
      intro h
      rw [if_pos h] at hinfo'
      exact hinfo'.2 hinfo
    exact ⟨by omega, by omega, hoff, iff_of_false hmagic hmagic', fun h => absurd h hmagic⟩

/-! ## What is read in front of the validation -/

/-- The end of what `validate_file` reads up to the validation: the header, the reset
vector, the info header behind the image and the protected area. -/
def readEnd (d : FileData) : Nat :=
  max imageHeaderSize (max ((fileHeader d).ihHdrSize.toNat + 8)
    (max (tlvOffset d + tlvHdrSize) (protEnd d.bytes (tlvOffset d))))

theorem fileData_ext (h : d.bytes = d'.bytes) : d = d' := by
  cases d
  cases d'
  cases h
  rfl

/-- Files that agree up to a place are equal, or both go on to it. -/
theorem eq_or_le_of_take {n : Nat} (h : d.bytes.take n = d'.bytes.take n) :
    d = d' ∨ n ≤ d.bytes.length ∧ n ≤ d'.bytes.length := by
  have hlen := congrArg List.length h
  rw [List.length_take, List.length_take] at hlen
  by_cases hn : n ≤ d.bytes.length
  · exact Or.inr ⟨hn, by omega⟩
  · left
    rw [List.take_of_length_le (by omega), List.take_of_length_le (by omega)] at h
    exact fileData_ext h

theorem loadedHeader_congr {n : Nat} (htake : d.bytes.take n = d'.bytes.take n)
    (hlen : n ≤ d.bytes.length) (hlen' : n ≤ d'.bytes.length) (hhdr : imageHeaderSize ≤ n)
    (himg : tlvOffset d ≤ n) : loadedHeader d' = loadedHeader d := by
  have hslice := slice_eq_of_take htake (show 0 + imageHeaderSize ≤ n by omega)
  have hsame : fileHeader d' = fileHeader d := fileHeader_congr htake hhdr
  unfold loadedHeader
  rw [hsame, ← hslice]
  cases hadd : bootU32SafeAdd (fileHeader d).ihImgSize (fileHeader d).ihHdrSize.toUInt32 with
  | none => rfl
  | some imgSize =>
    have hsum := bootU32SafeAdd_some hadd
    rw [UInt16.toNat_toUInt32] at hsum
    have hoff : tlvOffset d = imgSize.toNat := by
      have hlt := imgSize.toNat_lt
      rw [tlvOffset, bootTlvOff_toNat (by omega)]
      omega
    dsimp only
    rw [if_neg (show ¬ imgSize.toNat > d'.bytes.length by omega),
      if_neg (show ¬ imgSize.toNat > d.bytes.length by omega)]

/-- Files that agree on what is read in front of the validation have the same protected
area. -/
theorem sameProtected_of_read (htake : d.bytes.take (readEnd d) = d'.bytes.take (readEnd d))
    (hlen : readEnd d ≤ d.bytes.length) (hlen' : readEnd d ≤ d'.bytes.length) :
    SameProtected d d' := by
  have hbounds : imageHeaderSize ≤ readEnd d ∧ tlvOffset d + tlvHdrSize ≤ readEnd d ∧
      protEnd d.bytes (tlvOffset d) ≤ readEnd d := by
    unfold readEnd
    omega
  obtain ⟨hhdr, hinfo, hend⟩ := hbounds
  have hoff : tlvOffset d' = tlvOffset d := by
    unfold tlvOffset
    rw [fileHeader_congr htake hhdr]
  have hslice := slice_eq_of_take htake hinfo
  refine ⟨by omega, by omega, hoff, ?_, fun _ => ⟨?_, by omega, by omega, ?_⟩⟩
  · unfold ProtectedInfo
    rw [hoff, hslice]
  · unfold protEnd
    rw [hslice]
  · have hcut := congrArg (List.take (protEnd d.bytes (tlvOffset d))) htake
    rwa [List.take_take, List.take_take, Nat.min_eq_left hend] at hcut

/-- On such files `validate_file` hands on the same header, and records of the hardware
revision that agree. -/
theorem validateOn_congr (hne : RevTypesDiffer P)
    (htake : d.bytes.take (readEnd d) = d'.bytes.take (readEnd d)) (dstFaAddr : UInt32)
    (dstFaSize : Nat) :
    (validateOn P d dstFaAddr dstFaSize).hdr = (validateOn P d' dstFaAddr dstFaSize).hdr ∧
      (RevInside P d → RevInside P d' → (validateOn P d dstFaAddr dstFaSize).hwRev.Same
        (validateOn P d' dstFaAddr dstFaSize).hwRev) := by
  rcases eq_or_le_of_take htake with rfl | ⟨hlen, hlen'⟩
  · exact ⟨rfl, fun _ _ => .refl _⟩
  have hbounds : imageHeaderSize ≤ readEnd d ∧
      (fileHeader d).ihHdrSize.toNat + 4 + 4 ≤ readEnd d ∧ tlvOffset d ≤ readEnd d := by
    unfold readEnd
    omega
  obtain ⟨hhdr, hreset, hoff⟩ := hbounds
  have hload := loadedHeader_congr htake hlen hlen' hhdr hoff
  unfold validateOn
  rw [hload]
  cases hcase : loadedHeader d with
  | none => exact ⟨rfl, fun _ _ => .refl _⟩
  | some h =>
    obtain ⟨hdr, imgSize⟩ := h
    obtain ⟨rfl, -, -⟩ := loadedHeader_some hcase
    have hslice := slice_eq_of_take htake hreset
    have hrange : resetInRange d' (fileHeader d) dstFaAddr dstFaSize ↔
        resetInRange d (fileHeader d) dstFaAddr dstFaSize := by
      unfold resetInRange
      rw [hslice]
    have hshort' : (slice d.bytes ((fileHeader d).ihHdrSize.toNat + 4) 4).length ≠ 4 ↔
        (slice d'.bytes ((fileHeader d).ihHdrSize.toNat + 4) 4).length ≠ 4 := by rw [hslice]
    dsimp only
    by_cases hbig : imgSize.toNat ≥ dstFaSize
    · rw [if_pos hbig, if_pos hbig]
      exact ⟨rfl, fun _ _ => .refl _⟩
    rw [if_neg hbig, if_neg hbig]
    by_cases hshort : (slice d.bytes ((fileHeader d).ihHdrSize.toNat + 4) 4).length ≠ 4
    · rw [if_pos hshort, if_pos (hshort'.mp hshort)]
      exact ⟨rfl, fun _ _ => .refl _⟩
    rw [if_neg hshort, if_neg (fun h => hshort (hshort'.mpr h))]
    by_cases hout : ¬ resetInRange d (fileHeader d) dstFaAddr dstFaSize
    · rw [if_pos hout, if_pos (fun h => hout (hrange.mp h))]
      exact ⟨rfl, fun _ _ => .refl _⟩
    · rw [if_neg hout, if_neg (fun h => hout (fun h' => h (hrange.mpr h')))]
      exact ⟨rfl, fun hin hin' => hwRevOn_same hne
        (fileRevScan_congr (sameProtected_of_read htake hlen hlen') hin hin' _)⟩

/-! ## Firmware information -/

/-- Where the search in a file finds its record. -/
def fwInfoOffset (P : Platform) (d : FileData) : Option Nat :=
  P.fwInfoAllowedOffsets.find? fun off => (fwInfoAt P d off).isSome

theorem fwInfoOn_eq (P : Platform) (d : FileData) :
    fwInfoOn P d = (fwInfoOffset P d).bind (fwInfoAt P d) := by
  unfold fwInfoOn fwInfoOffset
  induction P.fwInfoAllowedOffsets with
  | nil => rfl
  | cons off rest ih =>
    rw [List.findSome?_cons, List.find?_cons]
    cases hat : fwInfoAt P d off with
    | none => exact ih
    | some info => exact hat.symm

/-- Two searches of a list agree if what each finds is one for the other. -/
theorem find?_agree {α : Type} {p q : α → Bool} {l : List α}
    (hp : ∀ x, l.find? p = some x → q x = true) (hq : ∀ x, l.find? q = some x → p x = true) :
    l.find? p = l.find? q := by
  induction l with
  | nil => rfl
  | cons a rest ih =>
    rw [List.find?_cons, List.find?_cons] at *
    cases hpa : p a with
    | true =>
      rw [hpa] at hp
      rw [hp a rfl]
    | false =>
      cases hqa : q a with
      | true =>
        rw [hqa] at hq
        exact absurd ((hq a rfl).symm.trans hpa) (by decide)
      | false =>
        rw [hpa] at hp
        rw [hqa] at hq
        exact ih hp hq

/-- The record that is found lies among the bytes of `A`. -/
def FwInfoInside (P : Platform) (A : Nat → Prop) (d : FileData) : Prop :=
  ∀ off, fwInfoOffset P d = some off → ∀ i, off ≤ i → i < off + P.fwInfoSize → A i

theorem fwInfoAt_congr {off : Nat}
    (h : ∀ i, off ≤ i → i < off + P.fwInfoSize → d.bytes[i]? = d'.bytes[i]?) :
    fwInfoAt P d off = fwInfoAt P d' off := by
  unfold fwInfoAt
  rw [slice_eq_of_getElem? h]

/-- Files that agree on `A` hold the same record, if each finds its own there. -/
theorem fwInfoOn_congr {A : Nat → Prop} (hagree : ∀ i, A i → d.bytes[i]? = d'.bytes[i]?)
    (hin : FwInfoInside P A d) (hin' : FwInfoInside P A d') : fwInfoOn P d = fwInfoOn P d' := by
  have hsame : ∀ off, (∀ i, off ≤ i → i < off + P.fwInfoSize → A i) →
      fwInfoAt P d off = fwInfoAt P d' off :=
    fun off h => fwInfoAt_congr (fun i hi hi' => hagree i (h i hi hi'))
  have hoff : fwInfoOffset P d = fwInfoOffset P d' := by
    refine find?_agree (fun off h => ?_) (fun off h => ?_)
    · rw [← hsame off (hin off h)]
      exact List.find?_some (p := fun off => (fwInfoAt P d off).isSome) h
    · rw [hsame off (hin' off h)]
      exact List.find?_some (p := fun off => (fwInfoAt P d' off).isSome) h
  rw [fwInfoOn_eq, fwInfoOn_eq, ← hoff]
  cases hcase : fwInfoOffset P d with
  | none => rfl
  | some off => exact hsame off (hin off hcase)

/-! ## The gates -/

/-- The bytes that the check of a file authenticates: the hashed bytes of a file that was
validated, and in B0 mode what `bl_validate_firmware` covers, from the address it is
given on and as many as the record it finds there declares. -/
def authenticated (P : Platform) (declared : Bytes → Nat) (d : FileData) (old : Bytes)
    (dstFaAddr : UInt32) (validated flagValidateB0Signature : Bool) (i : Nat) : Prop :=
  (validated = true ∧ i < hashedLength d) ∨
    (flagValidateB0Signature = true ∧ ∃ info, P.fwInfoFind (overlay old 0 d.bytes) = some info ∧
      (info.address - dstFaAddr).toNat ≤ i ∧
      i < (info.address - dstFaAddr).toNat +
        declared ((overlay old 0 d.bytes).drop (info.address - dstFaAddr).toNat))

/-- The signature step of `check_file` or of `check_update_for_mcuboot` is passed, and the
gates get `out` and go on in `w'`. -/
inductive PassesSignature (P : Platform) (f : UpdateFile) (dstFaAddr : UInt32) (dstFaSize : Nat)
    (w : World) : Bool → FileCheck → World → Prop where
  | checkFile {flagValidateB0Signature : Bool} {out : FileCheck} {w' : World}
      (hrun : P.run (checkFile P f dstFaAddr dstFaSize flagValidateB0Signature) w = (out, w'))
      (hok : out.ok = true) :
      PassesSignature P f dstFaAddr dstFaSize w flagValidateB0Signature out w'
  | handover {out : FileCheck} {w₁ w' : World}
      (hsigned : P.run (validateB0Signature P f dstFaAddr dstFaSize) w = (true, w₁))
      (hrun : P.run (validateFile P f dstFaAddr dstFaSize) w₁ = (out, w')) :
      PassesSignature P f dstFaAddr dstFaSize w true out w'

theorem passes_checkFile {f : UpdateFile} {dstFaAddr : UInt32} {dstFaSize : Nat} {flag : Bool}
    (hok : (P.run (checkFile P f dstFaAddr dstFaSize flag) w).1.ok = true) :
    PassesSignature P f dstFaAddr dstFaSize w flag
      (P.run (checkFile P f dstFaAddr dstFaSize flag) w).1
      (P.run (checkFile P f dstFaAddr dstFaSize flag) w).2 := .checkFile rfl hok

/-- What the gates get is what the file holds. -/
structure GateInputs (P : Platform) (f : UpdateFile) (d : FileData) (dstFaAddr : UInt32)
    (dstFaSize : Nat) (flagValidateB0Signature : Bool) (out : FileCheck) (w' : World) : Prop where
  hdr : out.hdr = (validateOn P d dstFaAddr dstFaSize).hdr
  hwRev : out.hwRev = (validateOn P d dstFaAddr dstFaSize).hwRev
  fwInfo : (P.run (fwInfoFindInFile P f) w').1 = fwInfoOn P d
  validated : flagValidateB0Signature = false → (validateOn P d dstFaAddr dstFaSize).ok = true

theorem PassesSignature.inputs {f : UpdateFile} {dstFaAddr : UInt32} {dstFaSize : Nat}
    {flagValidateB0Signature : Bool} {out : FileCheck} {w' : World}
    (h : PassesSignature P f dstFaAddr dstFaSize w flagValidateB0Signature out w') (hw : Reliable w)
    (ht : w.opened = []) (hd : w.files f = some (.file d)) :
    GateInputs P f d dstFaAddr dstFaSize flagValidateB0Signature out w' := by
  have hinfo : ∀ n buf, (P.run (fwInfoFindInFile P f) (w.after n buf w.files)).1 =
      fwInfoOn P d := by
    intro n buf
    obtain ⟨m, hrun⟩ := run_fwInfoFindInFile_after P (f := f) hw ht n buf
    rw [hrun, hd]
    exact fileFwInfo_file P
  cases h with
  | checkFile hrun hok =>
    obtain ⟨out', n, buf, hrun', hverdict, hout⟩ :=
      run_checkFile P (f := f) hw ht dstFaAddr dstFaSize flagValidateB0Signature
    obtain ⟨rfl, rfl⟩ := Prod.mk.inj (hrun'.symm.trans hrun)
    have hacc := hverdict.symm.trans hok
    have hval := hout hacc
    rw [hd, fileCheck_file] at hval
    rw [hacc]
    refine ⟨by rw [hval], by rw [hval], hinfo n buf, fun hflag => ?_⟩
    rw [hflag, fileAccepted, hd, fileCheck_file] at hacc
    exact (Bool.and_eq_true_iff.mp hacc).2
  | @handover out w₁ w' hsigned hrun =>
    obtain ⟨n, hb0⟩ := run_validateB0Signature P (f := f) hw dstFaAddr dstFaSize
    have hworld := congrArg Prod.snd (hsigned.symm.trans hb0)
    dsimp only at hworld
    obtain ⟨m, hval⟩ := run_validateFile_after P (f := f) hw ht n
      (b0Buffer P (regular (w.files f)) w.sharedBuf dstFaSize) dstFaAddr dstFaSize
    rw [hworld, hval, hd, fileCheck_file] at hrun
    obtain ⟨rfl, rfl⟩ := Prod.mk.inj hrun
    refine ⟨rfl, rfl, ?_, fun h => absurd h (by decide)⟩
    rw [← hd]
    exact hinfo m _

/-- The decisions of the gates that look at the file: on the name of the hardware
revision, on the version of the image and on the version of the firmware information. -/
structure SameDecisions (P : Platform) (f : UpdateFile) (out out' : FileCheck) (w w' : World) :
    Prop where
  hwRev : ∀ expected, hwRevMismatch expected out.hwRev = hwRevMismatch expected out'.hwRev
  imageVersion : ∀ dst, downgradeAllowed P dst out.hdr = downgradeAllowed P dst out'.hdr
  fwInfo : ∀ dstFwInfo : FwInfo,
    (P.run (fwInfoFindInFile P f) w).1.map (fun i => decide (dstFwInfo.version > i.version)) =
      (P.run (fwInfoFindInFile P f) w').1.map (fun i => decide (dstFwInfo.version > i.version))

/-- The decisions behind `check_file`. -/
def ChecksAlike (P : Platform) (f : UpdateFile) (dstFaAddr : UInt32) (dstFaSize : Nat)
    (flagValidateB0Signature : Bool) (w w' : World) : Prop :=
  let r := P.run (checkFile P f dstFaAddr dstFaSize flagValidateB0Signature) w
  let r' := P.run (checkFile P f dstFaAddr dstFaSize flagValidateB0Signature) w'
  SameDecisions P f r.1 r'.1 r.2 r'.2

/-- Two files agree on their authenticated parts. -/
structure AgreeWhere (A A' : Nat → Prop) (d d' : FileData) : Prop where
  same : ∀ i, A i ↔ A' i
  bytes : ∀ i, A i → d.bytes[i]? = d'.bytes[i]?

/-- What `validate_file` reads in front of the validation lies in the authenticated part,
or both files were validated and the hashed bytes hold the whole header. -/
def HeaderInside (A : Nat → Prop) (d : FileData) (validated validated' : Bool) : Prop :=
  (validated = true ∧ validated' = true ∧ imageHeaderSize ≤ hashedLength d) ∨ ∀ i < readEnd d, A i

/-- Files that agree there are handed on alike. -/
theorem validateOn_agree (hne : RevTypesDiffer P) {A : Nat → Prop} {dstFaAddr : UInt32}
    {dstFaSize : Nat} {flag : Bool} {old : Bytes} {declared : Bytes → Nat}
    (hA : A = authenticated P declared d old dstFaAddr (validateOn P d dstFaAddr dstFaSize).ok flag)
    (hbytes : ∀ i, A i → d.bytes[i]? = d'.bytes[i]?)
    (hin : HeaderInside A d (validateOn P d dstFaAddr dstFaSize).ok
      (validateOn P d' dstFaAddr dstFaSize).ok) :
    (validateOn P d dstFaAddr dstFaSize).hdr = (validateOn P d' dstFaAddr dstFaSize).hdr ∧
      (RevInside P d → RevInside P d' → (validateOn P d dstFaAddr dstFaSize).hwRev.Same
        (validateOn P d' dstFaAddr dstFaSize).hwRev) := by
  rcases hin with ⟨hok, hok', hlen⟩ | hread
  · have htake : d.bytes.take (hashedLength d) = d'.bytes.take (hashedLength d) := by
      refine take_eq_of_getElem? (fun i hi => hbytes i ?_)
      rw [hA]
      exact Or.inl ⟨hok, hi⟩
    have hout := (validateOn_ok P hok).1
    have hout' := (validateOn_ok P hok').1
    have hsame := sameProtected_of_validated (validated_of_ok hok) (validated_of_ok hok') hlen htake
    rw [hout, hout']
    exact ⟨(fileHeader_congr htake hlen).symm,
      fun h h' => hwRevOn_same hne (fileRevScan_congr hsame h h' _)⟩
  · exact validateOn_congr hne (take_eq_of_getElem? (fun i hi => hbytes i (hread i hi))) _ _

namespace Reference

/-- A record that points behind the place of a header, and an image of eight bytes there
that the first-stage check accepts. -/
def relocatedBytes (version : UInt8) : Bytes :=
  [0xA5, version, 0x30, 1] ++ List.replicate 32 0 ++ [8, 0x5A, 0x5A, 0x5A]

def relocatedFile (version : UInt8) : FileData where
  bytes := relocatedBytes version
  size_le := by
    show (relocatedBytes version).length ≤ lfsFileMax
    simp [relocatedBytes, lfsFileMax]

/-- The length that the first-stage check reads behind the place of the record. -/
def declaredLength (mem : Bytes) : Nat := (mem.getD 4 0).toNat

/-- A boot with the file, over slots of 64 bytes with version 3. -/
def bootRelocated (version : UInt8) : World :=
  World.atBoot (fun _ => some (.file (relocatedFile version)))
    (fun _ => [0xA5, 3, 0x10, 1] ++ blank 60) (blank 64) (fun _ _ => .none)

end Reference

theorem authenticated_relocated (version : UInt8) (validated : Bool)
    (hval : validated = false) (i : Nat) :
    authenticated (Reference.platform 64) Reference.declaredLength (Reference.relocatedFile version)
      (blank 64) 0x10 validated true i ↔ 32 ≤ i ∧ i < 40 := by
  let info : FwInfo :=
    { magic := [0xA5], version := UInt32.ofNat version.toNat, address := 0x30, valid := true }
  have hfind : (Reference.platform 64).fwInfoFind
      (overlay (blank 64) 0 (Reference.relocatedFile version).bytes) = some info := rfl
  have haddr : (info.address - 0x10).toNat = 32 := by
    show ((0x30 : UInt32) - 0x10).toNat = 32
    decide
  have hlen : Reference.declaredLength
      ((overlay (blank 64) 0 (Reference.relocatedFile version).bytes).drop 32) = 8 := rfl
  unfold authenticated
  rw [hval, hfind]
  constructor
  · rintro (⟨h, -⟩ | ⟨-, found, hfound, hi⟩)
    · exact absurd h Bool.false_ne_true
    · rwa [← Option.some.inj hfound, haddr, hlen] at hi
  · intro hi
    refine Or.inr ⟨rfl, info, rfl, ?_⟩
    rwa [haddr, hlen]

end RuuviMcuboot
