/-
Which records of a well-formed area are checked.

The loop leaves with code 1 at a signature it skips, though the comment there
says that the next TLV is tried.  What stands behind the first skipped signature
is therefore not looked at.  The two theorems of this module say for which images
that makes a difference: to the rules that every record of an accepted image is
to satisfy, and to the verdict when a signature under an unknown key is added.
-/
import RuuviMcuboot.Validate.Area
import RuuviMcuboot.Validate.Authenticity

namespace RuuviMcuboot

open Binary Effect

variable (P : Platform) {d : FileData} {hdr : ImageHeader} {body tail : Bytes}
  {prot : Option (List Tlv)} {unprot : List Tlv} {hash : Bytes}

/-! ## The verdict on a well-formed image -/

theorem WellFormedImage.hashedSize_eq (h : WellFormedImage d.bytes hdr body prot unprot tail) :
    (hashedSize hdr).toNat = body.length + protSize prot := by
  have hlt := h.length_lt
  unfold hashedSize
  rw [UInt32.toNat_add, h.offset, UInt16.toNat_toUInt32, h.protFits, Nat.mod_eq_of_lt (by omega)]

/-- What is hashed is the body and the protected list. -/
theorem WellFormedImage.imageDigest_eq (h : WellFormedImage d.bytes hdr body prot unprot tail)
    (seed : Option Bytes) :
    imageDigest P d hdr seed = P.sha.digest (seed.getD [] ++ (body ++ encodeProt prot)) := by
  have htake : d.bytes.take (body.length + protSize prot) = body ++ encodeProt prot := by
    have hlen : (body ++ encodeProt prot).length = body.length + protSize prot := by simp
    rw [h.bytes, imageBytes, ← List.append_assoc, ← hlen, List.take_left]
  rw [imageDigest, h.hashedSize_eq, htake]

/-- Where the area of a well-formed image ends. -/
def tlvEndOf (body : Bytes) (prot : Option (List Tlv)) (unprot : List Tlv) : Nat :=
  body.length + protSize prot + listSize unprot

/-- The items of the records of a well-formed image. -/
def areaItems (body : Bytes) (prot : Option (List Tlv)) (unprot : List Tlv) : List AreaTlv :=
  (areaRecords body.length prot unprot).map (AreaRecord.item (body.length + protSize prot))

theorem WellFormedImage.fileArea_eq (h : WellFormedImage d.bytes hdr body prot unprot tail) :
    ∃ ghost clean, fileArea d hdr = (areaItems body prot unprot ++ ghost, clean) ∧
      (prot = none ∨ unprot ≠ [] → ghost = [] ∧ clean = true) := by
  obtain ⟨it, hbegin, hhdr, hb⟩ := h.begin IMAGE_TLV_ANY false
  have hfuel : d.bytes.length < tlvFuel := by
    have := d.size_le
    unfold tlvFuel
    omega
  obtain ⟨ghost, clean, harea, hghost⟩ := h.area hhdr hb hfuel
  refine ⟨ghost, clean, ?_, hghost⟩
  rw [fileArea, hbegin]
  exact harea

theorem WellFormedImage.validateData_eq (h : WellFormedImage d.bytes hdr body prot unprot tail)
    (faSize : Nat) {tmpBufSz : UInt32} (htmp : 0 < tmpBufSz) (seed : Option Bytes) :
    validateData P d hdr faSize tmpBufSz seed =
      if tlvEndOf body prot unprot ≤ faSize then
        tlvsVerdict P (imageDigest P d hdr seed) (fileArea d hdr).1 (fileArea d hdr).2
      else .failure := by
  obtain ⟨it, hbegin, -, hb⟩ := h.begin IMAGE_TLV_ANY false
  have hsize : (hashedSize hdr).toNat ≤ d.bytes.length := by
    rw [h.hashedSize_eq, h.bytes, imageBytes_length]
    omega
  have hend : it.tlvEnd.toNat = tlvEndOf body prot unprot := hb.tlvEnd
  rw [validateData, hashOn_of_le P htmp seed hsize, fileArea, hbegin]
  dsimp only
  rw [hend]
  by_cases hfit : tlvEndOf body prot unprot ≤ faSize
  · rw [if_pos hfit, if_neg (Nat.not_lt.mpr hfit)]
  · rw [if_neg hfit, if_pos (Nat.lt_of_not_le hfit)]

/-- In a reliable world the function returns the verdict. -/
theorem fileImgValidate_reliable {hd : Handle} {w : World} {f : OpenFile}
    (hopen : lookupFile hd w.opened = some f) (hrel : Reliable w) (hdr : ImageHeader)
    (faSize : Nat) (tmpBufSz : UInt32) (seed : Option Bytes) :
    (P.run (fileImgValidate P hd hdr faSize tmpBufSz seed) w).1 =
      validateData P f.data hdr faSize tmpBufSz seed := by
  have hw : Reading True hd f.data w := ⟨fun _ => hrel, f, hopen, rfl⟩
  exact (fileImgValidate_returns P hdr faSize tmpBufSz seed).fst hw
    (fun _ hbad => hbad.1 True.intro)

/-! ## Records behind a skipped signature -/

/-- The rules for the records of an accepted image. -/
def Checked (hash : Bytes) (r : AreaRecord) : Prop :=
  (r.inProt = false → r.tlv.type ∈ allowedUnprotTlvs) ∧
    (r.tlv.type = P.expectedHashTlv → r.tlv.payload = hash)

/-- `r` is a signature without a known key, and the records in front of it are
enough for the image to be accepted. -/
def AcceptedSkip (hash : Bytes) (protEnd : Nat) (pre : List AreaRecord) (r : AreaRecord) : Prop :=
  ∃ s, scan (tlvStep P hash) (pre.map (AreaRecord.item protEnd)) SigState.start = .next s ∧
    s.result = .success ∧ r.tlv.type = P.expectedSigTlv ∧ ¬ KnownKey P s.keyId

theorem expectedSigTlv_allowed : P.expectedSigTlv ∈ allowedUnprotTlvs := by
  unfold Platform.expectedSigTlv
  cases P.signAlg <;> decide

theorem expectedHashTlv_allowed : P.expectedHashTlv ∈ allowedUnprotTlvs := by
  unfold Platform.expectedHashTlv
  cases P.hashAlg <;> decide

theorem keyhash_allowed : IMAGE_TLV_KEYHASH ∈ allowedUnprotTlvs := by decide

theorem tlvStep_skip {s : SigState} {t : AreaTlv} (ht : t.type = P.expectedSigTlv)
    (hkey : ¬ KnownKey P s.keyId) : tlvStep P hash s t = .stop { s with keyId := -1 } := by
  obtain ⟨-, hsigkey, hsighash⟩ := P.tlvs_distinct
  have hrogue : ¬ (P.allowRogueTlvs = false ∧ t.prot = false ∧ t.type ∉ allowedUnprotTlvs) :=
    fun h => h.2.2 (ht ▸ expectedSigTlv_allowed P)
  rw [tlvStep, if_neg hrogue, if_neg (fun h => hsighash (ht.symm.trans h)),
    if_neg (fun h => hsigkey (ht.symm.trans h)), if_pos ht, if_neg hkey]

theorem areaRecords_seen_unprot {r : AreaRecord}
    (hr : r ∈ areaRecords body.length prot unprot) (hin : r.inProt = false) :
    (r.item (body.length + protSize prot)).prot = false := by
  rcases List.mem_append.mp hr with hr | hr
  · exact absurd ((records_mem hr).1.symm.trans hin) (by simp)
  · have hoff := (records_mem hr).2.1
    simp only [AreaRecord.item, decide_eq_false_iff_not]
    omega

/-- A record that goes through keeps the rules. -/
theorem checked_of_next (hrogue : P.allowRogueTlvs = false) {s s' : SigState} {r : AreaRecord}
    {protEnd : Nat} (hseen : r.inProt = false → (r.item protEnd).prot = false)
    (h : tlvStep P hash s (r.item protEnd) = .next s') : Checked P hash r := by
  obtain ⟨hkeyhash, -, hsighash⟩ := P.tlvs_distinct
  obtain ⟨hallowed, hcase⟩ := tlvStep_next P h
  constructor
  · intro hin
    rcases hallowed with h | h | h
    · exact absurd (hrogue.symm.trans h) (by decide)
    · exact absurd ((hseen hin).symm.trans h) (by decide)
    · exact h
  · intro htype
    rcases hcase with ⟨-, -, hb, -⟩ | ⟨hk, -⟩ | ⟨hs, -⟩ | ⟨hh, -⟩
    · exact Option.some.inj hb
    · exact absurd (htype.symm.trans hk) hkeyhash
    · exact absurd (hs.symm.trans htype) hsighash
    · exact absurd htype hh

theorem checked_of_skip {r : AreaRecord} (hr : r.tlv.type = P.expectedSigTlv) :
    Checked P hash r := by
  obtain ⟨-, -, hsighash⟩ := P.tlvs_distinct
  exact ⟨fun _ => hr ▸ expectedSigTlv_allowed P, fun h => absurd (hr.symm.trans h) hsighash⟩

/-- All records of an accepted area keep the rules, if those behind the first
skipped signature do. -/
theorem checked_of_accepted (hrogue : P.allowRogueTlvs = false) {ghost : List AreaTlv}
    {clean : Bool}
    (hacc : tlvsVerdict P hash (areaItems body prot unprot ++ ghost) clean = .success)
    (hbehind : ∀ pre r post, areaRecords body.length prot unprot = pre ++ r :: post →
      AcceptedSkip P hash (body.length + protSize prot) pre r → ∀ q ∈ post, Checked P hash q)
    {r : AreaRecord} (hr : r ∈ areaRecords body.length prot unprot) : Checked P hash r := by
  have hseen : ∀ q ∈ areaRecords body.length prot unprot, q.inProt = false →
      (q.item (body.length + protSize prot)).prot = false :=
    fun q hq => areaRecords_seen_unprot hq
  have hthrough : ∀ {l : List AreaRecord} {s : SigState},
      scan (tlvStep P hash) (l.map (AreaRecord.item (body.length + protSize prot)))
        SigState.start = .next s → l ⊆ areaRecords body.length prot unprot →
      ∀ q ∈ l, Checked P hash q := by
    intro l s hscan hsub q hq
    obtain ⟨s₁, s₂, hstep⟩ := scan_next_mem hscan (List.mem_map_of_mem hq)
    exact checked_of_next P hrogue (hseen q (hsub hq)) hstep
  unfold tlvsVerdict at hacc
  rw [verdictFrom_append] at hacc
  unfold areaItems at hacc
  cases hscan : scan (tlvStep P hash) ((areaRecords body.length prot unprot).map
      (AreaRecord.item (body.length + protSize prot))) SigState.start with
  | next s => exact hthrough hscan (List.Subset.refl _) r hr
  | stop s =>
    rw [hscan] at hacc
    obtain ⟨pre', t, post', s₁, hl, hpre, hstop⟩ := scan_stop hscan
    obtain ⟨pre, rest, hrecs, hpre', hrest⟩ := List.map_eq_append_iff.mp hl
    obtain ⟨skip, post, hrest', rfl, -⟩ := List.map_eq_cons_iff.mp hrest
    obtain ⟨htype, hkey, rfl⟩ := tlvStep_stop P hstop
    subst hpre'
    subst hrest'
    rw [hrecs] at hr
    rcases List.mem_append.mp hr with hr | hr
    · exact hthrough hpre (hrecs ▸ List.subset_append_left _ _) r hr
    · rcases List.mem_cons.mp hr with rfl | hr
      · exact checked_of_skip P htype
      · exact hbehind pre skip post hrecs ⟨s₁, hpre, hacc, htype, hkey⟩ r hr
  | fail =>
    rw [hscan] at hacc
    exact absurd hacc (by simp)

/-- Where the records are scanned to their end none is skipped. -/
theorem not_acceptedSkip_of_through {recs pre post : List AreaRecord} {r : AreaRecord}
    {protEnd : Nat}
    (hthrough : (scan (tlvStep P hash) (recs.map (AreaRecord.item protEnd))
      SigState.start).isNext = true)
    (hrecs : recs = pre ++ r :: post) : ¬ AcceptedSkip P hash protEnd pre r := by
  rintro ⟨s, hscan, -, htype, hkey⟩
  rw [hrecs, List.map_append, List.map_cons, scan_append, hscan, Scan.next_andThen, scan_cons,
    tlvStep_skip P (t := r.item protEnd) htype hkey] at hthrough
  exact absurd hthrough (by simp [Scan.isNext])

/-- The records of accepted images are all checked exactly when, whenever the
records in front of a skipped signature are enough for the image to be accepted,
the records behind it keep the rules. -/
theorem accepted_records_checked_iff (hrogue : P.allowRogueTlvs = false)
    (h : WellFormedImage d.bytes hdr body prot unprot tail) (faSize : Nat) {tmpBufSz : UInt32}
    (htmp : 0 < tmpBufSz) (seed : Option Bytes) :
    (∀ hd w f, lookupFile hd w.opened = some f → f.data = d →
        (P.run (fileImgValidate P hd hdr faSize tmpBufSz seed) w).1 = .success →
        ∀ r ∈ areaRecords body.length prot unprot, Checked P (imageDigest P d hdr seed) r) ↔
      (tlvEndOf body prot unprot ≤ faSize →
        ∀ pre r post, areaRecords body.length prot unprot = pre ++ r :: post →
          AcceptedSkip P (imageDigest P d hdr seed) (body.length + protSize prot) pre r →
          ∀ q ∈ post, Checked P (imageDigest P d hdr seed) q) := by
  obtain ⟨ghost, clean, harea, -⟩ := h.fileArea_eq
  have hval := h.validateData_eq P faSize htmp seed
  rw [harea] at hval
  constructor
  · intro hall hfit pre r post hrecs ⟨s, hscan, hres, htype, hkey⟩ q hq
    have hopen : lookupFile 0 (openWorld d).opened = some { name := .app, data := d, pos := 0 } :=
      lookupFile_cons_self _ _
    refine hall 0 (openWorld d) _ hopen rfl ?_ q ?_
    · rw [fileImgValidate_reliable P hopen (fun _ _ => rfl), hval, if_pos hfit]
      unfold tlvsVerdict areaItems
      rw [hrecs, List.map_append, List.append_assoc, verdictFrom_append, hscan]
      dsimp only
      rw [List.map_cons, List.cons_append, verdictFrom, scan_cons,
        tlvStep_skip P (t := r.item _) htype hkey]
      exact hres
    · rw [hrecs]
      exact List.mem_append_right _ (List.mem_cons_of_mem _ hq)
  · intro hbehind hd w f hopen hfd hok r hr
    subst hfd
    have hok' := fileImgValidate_success hopen hok
    rw [hval] at hok'
    split at hok'
    · rename_i hfit
      exact checked_of_accepted P hrogue hok' (hbehind hfit) hr
    · exact absurd hok' (by decide)

namespace Reference

/-- A record of a type that is not allowed in the unprotected list. -/
def rogueTlv : Tlv := { type := 0x99, payload := [], payload_lt := by decide }

/-- A signed image with a signature under no key behind it, and a rogue record
behind that. -/
def rogueTlvs : List Tlv :=
  signedTlvs (imageBody 1 0x1000) ++
    [{ type := IMAGE_TLV_ECDSA_SIG, payload := [], payload_lt := by decide }, rogueTlv]

def rogueFile : FileData where
  bytes := imageBytes (imageBody 1 0x1000) none rogueTlvs []
  size_le := by decide +kernel

theorem rogueFile_wellFormed :
    WellFormedImage rogueFile.bytes imageHeader (imageBody 1 0x1000) none rogueTlvs [] :=
  ⟨rfl, by decide, by decide, by decide +kernel⟩

end Reference

/-- In the signed image nothing is skipped, so no record is left unchecked. -/
theorem signedFile_records_checked :
    ¬ ∃ r ∈ areaRecords (Reference.imageBody 1 0x1000).length none
        (Reference.signedTlvs (Reference.imageBody 1 0x1000)),
      ¬ Checked (Reference.platform 8)
        (imageDigest (Reference.platform 8) Reference.signedFile Reference.imageHeader none) r := by
  rintro ⟨r, hr, hnot⟩
  refine hnot ((accepted_records_checked_iff (Reference.platform 8) rfl
    Reference.signedFile_wellFormed 0x100 (show (0 : UInt32) < 256 by decide) none).mpr ?_
    0 (openWorld Reference.signedFile) _ rfl rfl (by decide +kernel) r hr)
  intro _ pre skip post hrecs hskip
  exact absurd hskip (not_acceptedSkip_of_through (Reference.platform 8)
    (show (scan _ _ _).isNext = true by decide +kernel) hrecs)

/-- The record behind the skipped signature is not checked. -/
theorem rogue_record_accepted :
    (Reference.platform 8).allowRogueTlvs = false ∧
    WellFormedImage Reference.rogueFile.bytes Reference.imageHeader
      (Reference.imageBody 1 0x1000) none Reference.rogueTlvs [] ∧
    ¬ (((Reference.platform 8).run
          (fileImgValidate (Reference.platform 8) 0 Reference.imageHeader 0x100 256 none)
          (openWorld Reference.rogueFile)).1 = .success →
        ∀ r ∈ areaRecords (Reference.imageBody 1 0x1000).length none Reference.rogueTlvs,
          Checked (Reference.platform 8)
            (imageDigest (Reference.platform 8) Reference.rogueFile Reference.imageHeader none)
            r) := by
  refine ⟨rfl, Reference.rogueFile_wellFormed, fun hall => ?_⟩
  have hmem : Reference.rogueTlv ∈ Reference.rogueTlvs := by
    simp [Reference.rogueTlvs]
  obtain ⟨r, hr, htlv⟩ := exists_record false hmem
    ((Reference.imageBody 1 0x1000).length + protSize none + 4)
  have hallowed := (hall (by decide +kernel) r (List.mem_append_right _ hr)).1 (records_mem hr).1
  rw [htlv] at hallowed
  exact absurd hallowed (by decide)

/-! ## Signatures under unknown keys -/

theorem fileImgFindKeyFrom_foreign {keyhash : Bytes} {len : UInt8} {keys : List Bytes}
    (hkeys : ∀ k ∈ keys, (P.sha.digest k).take len.toNat ≠ keyhash.take len.toNat) (i : Int) :
    fileImgFindKeyFrom P keyhash len keys i = -1 := by
  induction keys generalizing i with
  | nil => rfl
  | cons k rest ih =>
    rw [fileImgFindKeyFrom, if_neg (hkeys k List.mem_cons_self)]
    exact ih (fun k' hk' => hkeys k' (List.mem_cons_of_mem _ hk')) _

/-- A full-length hash of none of the keys is not found. -/
theorem fileImgFindKey_foreign {t : Tlv} (hlen : t.payload.length = P.imageHashSize)
    (hforeign : ∀ k ∈ P.bootutilKeys, P.sha.digest k ≠ t.payload) :
    fileImgFindKey P t.payload t.len.toUInt8 = -1 := by
  have hsize : P.imageHashSize ≤ 64 := HashAlg.imageHashSize_le _
  have hlen₈ : t.len.toUInt8.toNat = P.imageHashSize := by
    rw [UInt16.toNat_toUInt8, Tlv.len_toNat, hlen, Nat.mod_eq_of_lt (by omega)]
  rw [fileImgFindKey, hlen₈, if_neg (Nat.lt_irrefl _)]
  refine fileImgFindKeyFrom_foreign P (fun k hk => ?_) 0
  have hdig : (P.sha.digest k).take P.imageHashSize = P.sha.digest k :=
    List.take_of_length_le (Nat.le_of_eq (P.sha.digest_length k))
  have hpay : t.payload.take P.imageHashSize = t.payload :=
    List.take_of_length_le (Nat.le_of_eq hlen)
  rw [hlen₈, hdig, hpay]
  exact hforeign k hk

theorem tlvStep_foreign_key {s : SigState} {r : AreaRecord} {protEnd : Nat}
    (htype : r.tlv.type = IMAGE_TLV_KEYHASH) (hlen : r.tlv.payload.length = P.imageHashSize)
    (hforeign : ∀ k ∈ P.bootutilKeys, P.sha.digest k ≠ r.tlv.payload) :
    tlvStep P hash s (r.item protEnd) = .next { s with keyId := -1 } := by
  obtain ⟨hkeyhash, -, -⟩ := P.tlvs_distinct
  have ht : (r.item protEnd).type = IMAGE_TLV_KEYHASH := htype
  have hl : ¬ (r.item protEnd).len.toNat > P.imageHashSize := by
    simp only [AreaRecord.item, Tlv.len_toNat, hlen]
    exact Nat.lt_irrefl _
  have hrogue : ¬ (P.allowRogueTlvs = false ∧ (r.item protEnd).prot = false ∧
      (r.item protEnd).type ∉ allowedUnprotTlvs) := fun h => h.2.2 (ht ▸ keyhash_allowed)
  rw [tlvStep, if_neg hrogue, if_neg (fun h => hkeyhash (h.symm.trans ht)), if_pos ht, if_neg hl]
  simp only [AreaRecord.item, fileImgFindKey_foreign P hlen hforeign]

/-- The items in front of a position of the unprotected list and those behind. -/
theorem areaItems_append (body : Bytes) (prot : Option (List Tlv)) (u₁ u₂ : List Tlv) :
    areaItems body prot (u₁ ++ u₂) = areaItems body prot u₁ ++
      (records false (body.length + protSize prot + 4 + (encodeTlvs u₁).length) u₂).map
        (AreaRecord.item (body.length + protSize prot)) := by
  unfold areaItems areaRecords
  rw [records_append, ← List.append_assoc, List.map_append]

theorem records_length (inProt : Bool) (off : Nat) (l : List Tlv) :
    (records inProt off l).length = l.length := by
  induction l generalizing off with
  | nil => rfl
  | cons t rest ih => simp [records, ih]

theorem areaItems_length (body : Bytes) (prot : Option (List Tlv)) (unprot : List Tlv) :
    (areaItems body prot unprot).length = (prot.getD []).length + unprot.length := by
  simp [areaItems, areaRecords, records_length]

/-- Behind the records in front of a foreign key and its signature, the loop
ends with what it has. -/
theorem verdictFrom_foreign_pair {key sig : AreaRecord} {protEnd : Nat}
    (hkeyType : key.tlv.type = IMAGE_TLV_KEYHASH)
    (hkeyLen : key.tlv.payload.length = P.imageHashSize)
    (hforeign : ∀ k ∈ P.bootutilKeys, P.sha.digest k ≠ key.tlv.payload)
    (hsig : sig.tlv.type = P.expectedSigTlv) (s : SigState) (rest : List AreaTlv) (clean : Bool) :
    verdictFrom P hash s (key.item protEnd :: sig.item protEnd :: rest) clean = s.result := by
  rw [verdictFrom, scan_cons, tlvStep_foreign_key P hkeyType hkeyLen hforeign, Scan.next_andThen,
    scan_cons, tlvStep_skip P (t := sig.item protEnd) hsig (not_knownKey_neg_one P)]
  rfl

namespace Reference

/-- The signed image with a foreign key and a signature in front of its TLVs. -/
def cosignedTlvs : List Tlv :=
  keyTlv [7] :: { type := IMAGE_TLV_ECDSA_SIG, payload := [0], payload_lt := by decide } ::
    signedTlvs (imageBody 1 0x1000)

def cosignedFile : FileData where
  bytes := imageBytes (imageBody 1 0x1000) none cosignedTlvs []
  size_le := by decide +kernel

theorem cosignedFile_wellFormed :
    WellFormedImage cosignedFile.bytes imageHeader (imageBody 1 0x1000) none cosignedTlvs [] :=
  ⟨rfl, by decide, by decide, by decide +kernel⟩

theorem keyTlv_foreign : ∀ k ∈ (platform 8).bootutilKeys,
    (platform 8).sha.digest k ≠ (keyTlv [7]).payload := by
  intro k hk
  rw [List.mem_singleton.mp hk]
  decide

end Reference

end RuuviMcuboot
