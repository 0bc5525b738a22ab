/-
What an accepted image carries.

The loop variables are explained by the records processed so far: the key id is
the one the latest key record selects, a valid hash means that a record with the
digest was met, and a valid signature means that the last signature processed was
accepted under the key selected in front of it.
-/
import RuuviMcuboot.Platform.Reference
import RuuviMcuboot.Validate.Verdict

namespace RuuviMcuboot

open Binary Effect

variable (P : Platform) {d : FileData} {hash : Bytes}

/-! ## The selected key -/

/-- The key id after a record. -/
def keyAfter (keyId : Int) (t : AreaTlv) : Int :=
  if t.type = IMAGE_TLV_KEYHASH then
    match t.payload with
    | some b => fileImgFindKey P b t.len.toUInt8
    | none => -1
  else if t.type = P.expectedSigTlv then -1
  else keyId

/-- The key id that is waiting behind a list of records. -/
def selectedKey (l : List AreaTlv) : Int := l.foldl (keyAfter P) (-1)

@[simp] theorem selectedKey_append_singleton (l : List AreaTlv) (t : AreaTlv) :
    selectedKey P (l ++ [t]) = keyAfter P (selectedKey P l) t := by
  simp [selectedKey]

/-- A signature forgets the keys in front of it. -/
theorem selectedKey_append_sig {sig : AreaTlv} (hsig : sig.type = P.expectedSigTlv)
    (l post : List AreaTlv) : selectedKey P (l ++ sig :: post) = selectedKey P post := by
  obtain ⟨-, hsigkey, -⟩ := P.tlvs_distinct
  have hk : sig.type ≠ IMAGE_TLV_KEYHASH := fun hk => hsigkey (hsig.symm.trans hk)
  rw [selectedKey, List.foldl_append, List.foldl_cons, keyAfter, if_neg hk, if_pos hsig,
    selectedKey]

theorem not_knownKey_neg_one : ¬ KnownKey P (-1) := by
  rintro ⟨h, -⟩
  exact absurd h (by decide)

/-- A known key comes from a key record with no key and no signature behind it. -/
theorem selectedKey_known {l : List AreaTlv} (h : KnownKey P (selectedKey P l)) :
    ∃ pre key mid kb, l = pre ++ key :: mid ∧ key.type = IMAGE_TLV_KEYHASH ∧
      key.payload = some kb ∧ fileImgFindKey P kb key.len.toUInt8 = selectedKey P l ∧
      ∀ t ∈ mid, t.type ≠ IMAGE_TLV_KEYHASH ∧ t.type ≠ P.expectedSigTlv := by
  induction l using List.reverseRecOn with
  | nil => exact absurd h (not_knownKey_neg_one P)
  | append_singleton l t ih =>
    rw [selectedKey_append_singleton] at h ⊢
    unfold keyAfter at h ⊢
    by_cases hkey : t.type = IMAGE_TLV_KEYHASH
    · rw [if_pos hkey] at h ⊢
      cases hb : t.payload with
      | none =>
        rw [hb] at h
        exact absurd h (not_knownKey_neg_one P)
      | some kb => exact ⟨l, t, [], kb, rfl, hkey, hb, rfl, by simp⟩
    · rw [if_neg hkey] at h ⊢
      by_cases hsig : t.type = P.expectedSigTlv
      · rw [if_pos hsig] at h
        exact absurd h (not_knownKey_neg_one P)
      · rw [if_neg hsig] at h ⊢
        obtain ⟨pre, key, mid, kb, hl, htype, hkb, hfind, hmid⟩ := ih h
        refine ⟨pre, key, mid ++ [t], kb, by simp [hl], htype, hkb, hfind, ?_⟩
        intro u hu
        rcases List.mem_append.mp hu with hu | hu
        · exact hmid u hu
        · rw [List.mem_singleton.mp hu]
          exact ⟨hkey, hsig⟩

/-! ## The loop invariant -/

/-- A record with the digest. -/
def HashRecord (hash : Bytes) (t : AreaTlv) : Prop :=
  t.type = P.expectedHashTlv ∧ t.len.toNat = P.imageHashSize ∧ t.payload = some hash

/-- The last signature of `l` is accepted under the key selected in front of it. -/
def LastSignatureAccepted (hash : Bytes) (l : List AreaTlv) : Prop :=
  ∃ pre sig post b, l = pre ++ sig :: post ∧ sig.type = P.expectedSigTlv ∧ sig.payload = some b ∧
    KnownKey P (selectedKey P pre) ∧
    P.bootutilVerifySig hash b (UInt8.ofNat (selectedKey P pre).toNat) = .success ∧
    ∀ t ∈ post, t.type ≠ P.expectedSigTlv

/-- The records `l` account for the loop variables. -/
structure Explains (hash : Bytes) (l : List AreaTlv) (s : SigState) : Prop where
  key : s.keyId = selectedKey P l
  hashed : s.imageHashValid = true → ∃ t ∈ l, HashRecord P hash t
  signed : s.validSignature = .success → LastSignatureAccepted P hash l

variable {P}

theorem LastSignatureAccepted.append {l : List AreaTlv} (h : LastSignatureAccepted P hash l)
    {t : AreaTlv} (ht : t.type ≠ P.expectedSigTlv) : LastSignatureAccepted P hash (l ++ [t]) := by
  obtain ⟨pre, sig, post, b, hl, hsig, hb, hknown, hver, hpost⟩ := h
  refine ⟨pre, sig, post ++ [t], b, by simp [hl], hsig, hb, hknown, hver, ?_⟩
  intro u hu
  rcases List.mem_append.mp hu with hu | hu
  · exact hpost u hu
  · rw [List.mem_singleton.mp hu]
    exact ht

theorem explains_start : Explains P hash [] SigState.start where
  key := rfl
  hashed := fun h => absurd h (by decide)
  signed := fun h => absurd h (by decide)

/-- One record extends the account. -/
theorem Explains.step {l : List AreaTlv} {s s' : SigState} {t : AreaTlv}
    (h : Explains P hash l s) (hstep : tlvStep P hash s t = .next s') :
    Explains P hash (l ++ [t]) s' := by
  obtain ⟨hkeyhash, hsigkey, hsighash⟩ := P.tlvs_distinct
  have hmem : (∃ u ∈ l, HashRecord P hash u) → ∃ u ∈ l ++ [t], HashRecord P hash u := by
    rintro ⟨u, hu, hrec⟩
    exact ⟨u, List.mem_append_left _ hu, hrec⟩
  obtain ⟨-, ⟨htype, hlen, hb, rfl⟩ | ⟨htype, b, hb, rfl⟩ | ⟨htype, hknown, b, hb, rfl⟩ |
    ⟨hh, hk, hs, rfl⟩⟩ := tlvStep_next P hstep
  · have hk : t.type ≠ IMAGE_TLV_KEYHASH := fun hk => hkeyhash (htype.symm.trans hk)
    have hs : t.type ≠ P.expectedSigTlv := fun hs => hsighash (hs.symm.trans htype)
    constructor
    · rw [selectedKey_append_singleton, keyAfter, if_neg hk, if_neg hs]
      exact h.key
    · exact fun _ => ⟨t, by simp, htype, hlen, hb⟩
    · exact fun hv => (h.signed hv).append hs
  · have hs : t.type ≠ P.expectedSigTlv := fun hs => hsigkey (hs.symm.trans htype)
    constructor
    · rw [selectedKey_append_singleton, keyAfter, if_pos htype, hb]
    · exact fun hv => hmem (h.hashed hv)
    · exact fun hv => (h.signed hv).append hs
  · have hk : t.type ≠ IMAGE_TLV_KEYHASH := fun hk => hsigkey (htype.symm.trans hk)
    constructor
    · rw [selectedKey_append_singleton, keyAfter, if_neg hk, if_pos htype]
    · exact fun hv => hmem (h.hashed hv)
    · intro hv
      rw [h.key] at hknown hv
      exact ⟨l, t, [], b, rfl, htype, hb, hknown, hv, by simp⟩
  · constructor
    · rw [selectedKey_append_singleton, keyAfter, if_neg hk, if_neg hs]
      exact h.key
    · exact fun hv => hmem (h.hashed hv)
    · exact fun hv => (h.signed hv).append hs

theorem explains_scan {l : List AreaTlv} {s : SigState}
    (h : scan (tlvStep P hash) l SigState.start = .next s) : Explains P hash l s :=
  scan_inv explains_start (fun _ _ _ _ hl hstep => hl.step hstep) h

theorem SigState.result_success {s : SigState} (h : s.result = .success) :
    s.imageHashValid = true ∧ s.validSignature = .success := by
  unfold SigState.result at h
  split at h
  · exact absurd h (by decide)
  · rename_i hv
    exact ⟨by simpa using hv, h⟩

/-- An accepted list is processed to its end, or up to the first signature whose
key is not known. -/
theorem tlvsVerdict_success {tlvs : List AreaTlv} {clean : Bool}
    (h : tlvsVerdict P hash tlvs clean = .success) :
    ∃ l rest s, tlvs = l ++ rest ∧ scan (tlvStep P hash) l SigState.start = .next s ∧
      s.result = .success ∧
      (rest = [] ∨ ∃ t post, rest = t :: post ∧ t.type = P.expectedSigTlv ∧
        ¬ KnownKey P (selectedKey P l)) := by
  unfold tlvsVerdict verdictFrom at h
  cases hscan : scan (tlvStep P hash) tlvs SigState.start with
  | next s =>
    rw [hscan] at h
    dsimp only at h
    split at h
    · exact ⟨tlvs, [], s, by simp, hscan, h, Or.inl rfl⟩
    · exact absurd h (by decide)
  | stop s =>
    rw [hscan] at h
    obtain ⟨pre, t, post, s₁, hl, hpre, hstop⟩ := scan_stop hscan
    obtain ⟨htype, hknown, rfl⟩ := tlvStep_stop P hstop
    rw [(explains_scan hpre).key] at hknown
    exact ⟨pre, t :: post, s₁, hl, hpre, h, Or.inr ⟨t, post, rfl, htype, hknown⟩⟩
  | fail =>
    rw [hscan] at h
    exact absurd h (by simp)

/-! ## Accepted images -/

theorem validateData_success {hdr : ImageHeader} {faSize : Nat} {tmpBufSz : UInt32}
    {seed : Option Bytes} (h : validateData P d hdr faSize tmpBufSz seed = .success) :
    (hashedSize hdr).toNat ≤ d.bytes.length ∧
      ∃ it, tlvIterBegin d hdr IMAGE_TLV_ANY false = some it ∧ it.tlvEnd.toNat ≤ faSize ∧
        tlvsVerdict P (imageDigest P d hdr seed) (areaTlvs d tlvFuel it).1
          (areaTlvs d tlvFuel it).2 = .success := by
  unfold validateData at h
  cases hhash : hashOn P d hdr tmpBufSz seed with
  | error rc =>
    rw [hhash] at h
    exact absurd h (by simp)
  | ok hash =>
    rw [hhash] at h
    obtain ⟨hsize, rfl⟩ := hashOn_ok P hhash
    refine ⟨hsize, ?_⟩
    cases hbegin : tlvIterBegin d hdr IMAGE_TLV_ANY false with
    | none =>
      rw [hbegin] at h
      exact absurd h (by simp)
    | some it =>
      rw [hbegin] at h
      dsimp only at h
      split at h
      · exact absurd h (by decide)
      · rename_i hend
        exact ⟨it, rfl, Nat.le_of_not_lt hend, h⟩

/-- The 32-bit sum of the sizes when it does not wrap. -/
theorem hashedSize_toNat {hdr : ImageHeader}
    (hsum : hdr.ihHdrSize.toNat + hdr.ihImgSize.toNat + hdr.ihProtectTlvSize.toNat < 4294967296) :
    (hashedSize hdr).toNat =
      hdr.ihHdrSize.toNat + hdr.ihImgSize.toNat + hdr.ihProtectTlvSize.toNat := by
  unfold hashedSize
  rw [UInt32.toNat_add, UInt32.toNat_add, UInt16.toNat_toUInt32, UInt16.toNat_toUInt32,
    Nat.mod_eq_of_lt (by omega), Nat.mod_eq_of_lt (by omega)]

theorem fileImgValidate_success {hd : Handle} {w : World} {f : OpenFile}
    (hopen : lookupFile hd w.opened = some f) {hdr : ImageHeader} {faSize : Nat}
    {tmpBufSz : UInt32} {seed : Option Bytes}
    (hok : (P.run (fileImgValidate P hd hdr faSize tmpBufSz seed) w).1 = .success) :
    validateData P f.data hdr faSize tmpBufSz seed = .success := by
  have hw : Reading False hd f.data w := ⟨False.elim, f, hopen, rfl⟩
  rcases (fileImgValidate_returns P hdr faSize tmpBufSz seed w hw).2 with hval | ⟨-, hbad⟩
  · exact hval.symm.trans hok
  · exact absurd (hbad.symm.trans hok) (by decide)

variable (P)

/-- Whatever an environment does, and whatever the file holds behind its header:
an accepted image carries a record with its digest, and a signature over the
digest that is accepted under the key selected by the latest key record in front
of it.  Behind that signature no other is processed: there is none, or the first
one has no known key and ends the loop. -/
theorem fileImgValidate_authentic {hd : Handle} {w : World} {f : OpenFile}
    (hopen : lookupFile hd w.opened = some f) (hdr : ImageHeader) (faSize : Nat)
    (tmpBufSz : UInt32) (seed : Option Bytes) (hkeys : P.bootutilKeyCnt ≤ 256)
    (hsum : hdr.ihHdrSize.toNat + hdr.ihImgSize.toNat + hdr.ihProtectTlvSize.toNat < 4294967296)
    (hok : (P.run (fileImgValidate P hd hdr faSize tmpBufSz seed) w).1 = .success) :
    let size := hdr.ihHdrSize.toNat + hdr.ihImgSize.toNat + hdr.ihProtectTlvSize.toNat
    let hash := P.sha.digest (seed.getD [] ++ f.data.bytes.take size)
    size ≤ f.data.bytes.length ∧
    ∃ it, tlvIterBegin f.data hdr IMAGE_TLV_ANY false = some it ∧ it.tlvEnd.toNat ≤ faSize ∧
      (∃ t ∈ (areaTlvs f.data tlvFuel it).1, t.type = P.expectedHashTlv ∧
        t.len.toNat = P.imageHashSize ∧ t.payload = some hash) ∧
      ∃ pre key mid sig post kb b, ∃ k : Nat,
        (areaTlvs f.data tlvFuel it).1 = pre ++ key :: (mid ++ sig :: post) ∧
        key.type = IMAGE_TLV_KEYHASH ∧ key.payload = some kb ∧
        fileImgFindKey P kb key.len.toUInt8 = k ∧ k < P.bootutilKeyCnt ∧
        (∀ t ∈ mid, t.type ≠ IMAGE_TLV_KEYHASH ∧ t.type ≠ P.expectedSigTlv) ∧
        sig.type = P.expectedSigTlv ∧ sig.payload = some b ∧ (UInt8.ofNat k).toNat = k ∧
        P.bootutilVerifySig hash b (UInt8.ofNat k) = .success ∧
        ((∀ t ∈ post, t.type ≠ P.expectedSigTlv) ∨
          ∃ post₁ s post₂, post = post₁ ++ s :: post₂ ∧
            (∀ t ∈ post₁, t.type ≠ P.expectedSigTlv) ∧ s.type = P.expectedSigTlv ∧
            ¬ KnownKey P (selectedKey P post₁)) := by
  intro size hash
  obtain ⟨hsize, it, hbegin, hend, hverdict⟩ :=
    validateData_success (fileImgValidate_success hopen hok)
  rw [hashedSize_toNat hsum] at hsize
  have hdigest : imageDigest P f.data hdr seed = hash := by
    rw [imageDigest, hashedSize_toNat hsum]
  rw [hdigest] at hverdict
  obtain ⟨l, rest, s, harea, hscan, hres, hrest⟩ := tlvsVerdict_success hverdict
  obtain ⟨hvalid, hsucc⟩ := SigState.result_success hres
  have hexpl := explains_scan hscan
  obtain ⟨t, ht, hrec⟩ := hexpl.hashed hvalid
  obtain ⟨pre, sig, post, b, hl, hsig, hb, hknown, hver, hpost⟩ := hexpl.signed hsucc
  obtain ⟨pre', key, mid, kb, hpre, hkey, hkb, hfind, hmid⟩ := selectedKey_known P hknown
  refine ⟨hsize, it, hbegin, hend, ⟨t, harea ▸ List.mem_append_left _ ht, hrec⟩, ?_⟩
  obtain ⟨hlo, hhi⟩ := hknown
  obtain ⟨k, hk⟩ := Int.eq_ofNat_of_zero_le hlo
  rw [hk, Int.toNat_natCast] at hver
  rw [hk, Int.ofNat_lt] at hhi
  refine ⟨pre', key, mid, sig, post ++ rest, kb, b, k, ?_, hkey, hkb, hfind.trans hk, hhi, hmid,
    hsig, hb, ?_, hver, ?_⟩
  · rw [harea, hl, hpre]
    simp only [List.append_assoc, List.cons_append]
  · rw [UInt8.toNat_ofNat', Nat.mod_eq_of_lt (by omega)]
  · -- what is left of the area was not processed
    rcases hrest with rfl | ⟨u, tail, rfl, hu, hnot⟩
    · left
      rwa [List.append_nil]
    · right
      rw [hl, selectedKey_append_sig P hsig] at hnot
      exact ⟨post, u, tail, rfl, hpost, hu, hnot⟩

theorem signedFile_authentic :
    ∃ t ∈ (fileArea Reference.signedFile Reference.imageHeader).1,
      t.type = IMAGE_TLV_SHA256 ∧
        t.payload = some ((Reference.sumSha 32).digest
          (Reference.signedFile.bytes.take 40)) := by
  obtain ⟨-, it, hbegin, -, ⟨t, ht, htype, -, hb⟩, -⟩ :=
    fileImgValidate_authentic (Reference.platform 8)
      (show lookupFile 0 (openWorld Reference.signedFile).opened = some _ from rfl)
      Reference.imageHeader 0x100 256 none (by decide) (by decide) (by decide +kernel)
  refine ⟨t, ?_, htype, hb⟩
  rw [fileArea, hbegin]
  exact ht

end RuuviMcuboot
