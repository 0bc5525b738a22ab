/-
What the verdict of `file_img_validate` is.

The image hash is the digest of the seed and the hashed prefix of the file.  The
TLV loop is a scan of the records of the area with a step that says what one
record does to the verdict.  `validateData` puts the two together, and
`fileImgValidate_returns` evaluates the function on an open file to it.
-/
import RuuviMcuboot.FileImgValidate
import RuuviMcuboot.Effect.Scan
import RuuviMcuboot.Validate.Walk

namespace RuuviMcuboot

open Binary Effect

variable (P : Platform) {strict : Prop} {hd : Handle} {d : FileData}

/-! ## The image hash -/

def hashBody (d : FileData) (size tmpBufSz : UInt32) (s : UInt32 × P.sha.Ctx) :
    (UInt32 × P.sha.Ctx) ⊕ Except Int Bytes :=
  if s.1 < size then
    let blkSz := if size - s.1 > tmpBufSz then tmpBufSz else size - s.1
    match loadBytes d s.1 blkSz.toNat with
    | .error rc => .inr (.error rc)
    | .ok b => .inl (s.1 + blkSz, P.sha.update s.2 b)
  else .inr (.ok (P.sha.finish s.2))

/-- What the block loop makes of the contents. -/
def hashOn (d : FileData) (hdr : ImageHeader) (tmpBufSz : UInt32) (seed : Option Bytes) :
    Except Int Bytes :=
  iterate (hashBody P d (hashedSize hdr) tmpBufSz) (.error (-1)) ((hashedSize hdr).toNat + 1)
    (0, seededCtx P seed)

theorem fileImgHash_returns (hdr : ImageHeader) (tmpBufSz : UInt32) (seed : Option Bytes) :
    Returns P.exec (Reading strict hd d) (Unreliable strict IsError)
      (fileImgHash P hd hdr tmpBufSz seed) (hashOn P d hdr tmpBufSz seed) := by
  refine returns_loop (J := fun _ => True) (fun s _ => ?_) (fun _ _ _ _ => True.intro) _ _
    True.intro
  obtain ⟨off, ctx⟩ := s
  simp only [fileImgHashBody, hashBody]
  by_cases hoff : off < hashedSize hdr
  · rw [if_pos hoff, if_pos hoff]
    refine returns_bind (loadImageData_returns P _ _) ?_ ?_
    · rintro e ⟨hs, rc, rfl⟩
      exact fails_ret ⟨_, rfl, hs, rc, rfl⟩
    · cases loadBytes d off
        (if hashedSize hdr - off > tmpBufSz then tmpBufSz else hashedSize hdr - off).toNat with
      | error rc => exact returns_ret _
      | ok b => exact returns_ret _
  · rw [if_neg hoff, if_neg hoff]
    exact returns_ret _

/-- The size of the next block: it does not pass the end, and only an empty
buffer makes it empty. -/
theorem blkSz_spec {off size : UInt32} (tmpBufSz : UInt32) (hoff : off < size) :
    let blkSz := if size - off > tmpBufSz then tmpBufSz else size - off
    blkSz.toNat ≤ size.toNat - off.toNat ∧ (off + blkSz).toNat = off.toNat + blkSz.toNat ∧
      (0 < tmpBufSz → 0 < blkSz.toNat) := by
  have hlt : off.toNat < size.toNat := hoff
  have hsub : (size - off).toNat = size.toNat - off.toNat :=
    UInt32.toNat_sub_of_le _ _ (Nat.le_of_lt hlt)
  have hsize := size.toNat_lt
  dsimp only
  split
  · rename_i hgt
    have hgt' : tmpBufSz.toNat < (size - off).toNat := hgt
    refine ⟨by omega, ?_, fun h => h⟩
    rw [UInt32.toNat_add, Nat.mod_eq_of_lt (by omega)]
  · refine ⟨by omega, ?_, fun _ => by omega⟩
    rw [UInt32.toNat_add, Nat.mod_eq_of_lt (by omega)]

/-- Whatever the loop has absorbed, a digest it returns is that of the rest of
the hashed prefix, which the file holds. -/
theorem iterate_hashBody_ok {size tmpBufSz : UInt32} {h : Bytes} (fuel : Nat) {off : UInt32}
    {ctx : P.sha.Ctx} (hoff : off ≤ size) (hlen : off.toNat ≤ d.bytes.length)
    (hok : iterate (hashBody P d size tmpBufSz) (.error (-1)) fuel (off, ctx) = .ok h) :
    size.toNat ≤ d.bytes.length ∧
      h = P.sha.finish
        (P.sha.update ctx (slice d.bytes off.toNat (size.toNat - off.toNat))) := by
  induction fuel generalizing off ctx with
  | zero => exact absurd hok (by simp [iterate])
  | succ fuel ih =>
    by_cases hlt : off < size
    · obtain ⟨hle, hadd, -⟩ := blkSz_spec tmpBufSz hlt
      simp only [iterate, hashBody, if_pos hlt] at hok
      generalize (if size - off > tmpBufSz then tmpBufSz else size - off) = blkSz at *
      cases hb : loadBytes d off blkSz.toNat with
      | error rc =>
        rw [hb] at hok
        exact absurd hok (by simp)
      | ok b =>
        rw [hb] at hok
        obtain ⟨rfl, hblen⟩ := loadBytes_ok hb
        rw [slice_length] at hblen
        have hoff' : off + blkSz ≤ size := by
          rw [UInt32.le_iff_toNat_le, hadd]
          have : off.toNat < size.toNat := hlt
          omega
        have hlen' : (off + blkSz).toNat ≤ d.bytes.length := by rw [hadd]; omega
        obtain ⟨hsz, hh⟩ := ih hoff' hlen' hok
        refine ⟨hsz, ?_⟩
        rw [hh, P.sha.update_append, hadd, slice_append_slice]
        congr 4
        omega
    · have heq : off.toNat = size.toNat :=
        Nat.le_antisymm hoff (Nat.le_of_not_lt hlt)
      simp only [iterate, hashBody, if_neg hlt, Except.ok.injEq] at hok
      refine ⟨heq ▸ hlen, ?_⟩
      rw [← hok, heq, Nat.sub_self, slice_zero_len, P.sha.update_nil]

/-- With a buffer the loop comes to its end on a file that holds the prefix. -/
theorem iterate_hashBody_total {size tmpBufSz : UInt32} (htmp : 0 < tmpBufSz)
    (hsize : size.toNat ≤ d.bytes.length) (fuel : Nat) {off : UInt32} (ctx : P.sha.Ctx)
    (hoff : off ≤ size) (hfuel : size.toNat - off.toNat < fuel) :
    ∃ h, iterate (hashBody P d size tmpBufSz) (.error (-1)) fuel (off, ctx) = .ok h := by
  induction fuel generalizing off ctx with
  | zero => exact absurd hfuel (Nat.not_lt_zero _)
  | succ fuel ih =>
    by_cases hlt : off < size
    · obtain ⟨hle, hadd, hpos⟩ := blkSz_spec tmpBufSz hlt
      have hlt' : off.toNat < size.toNat := hlt
      simp only [iterate, hashBody, if_pos hlt]
      generalize (if size - off > tmpBufSz then tmpBufSz else size - off) = blkSz at *
      rw [loadBytes_of_le (by omega)]
      have := hpos htmp
      refine ih _ ?_ ?_
      · rw [UInt32.le_iff_toNat_le, hadd]
        omega
      · rw [hadd]
        omega
    · exact ⟨_, by simp only [iterate, hashBody, if_neg hlt]; rfl⟩

/-- The digest of the seed and the hashed prefix. -/
def imageDigest (d : FileData) (hdr : ImageHeader) (seed : Option Bytes) : Bytes :=
  P.sha.digest (seed.getD [] ++ d.bytes.take (hashedSize hdr).toNat)

theorem update_seededCtx (seed : Option Bytes) (m : Bytes) :
    P.sha.finish (P.sha.update (seededCtx P seed) m) = P.sha.digest (seed.getD [] ++ m) := by
  cases seed with
  | none => rfl
  | some s =>
    cases s with
    | nil => rfl
    | cons b rest =>
      simp only [seededCtx, List.length_cons, Nat.succ_pos, gt_iff_lt, if_true, Option.getD_some,
        StreamHash.digest, P.sha.update_append]

theorem hashOn_ok {hdr : ImageHeader} {tmpBufSz : UInt32} {seed : Option Bytes} {h : Bytes}
    (hok : hashOn P d hdr tmpBufSz seed = .ok h) :
    (hashedSize hdr).toNat ≤ d.bytes.length ∧ h = imageDigest P d hdr seed := by
  obtain ⟨hsize, hh⟩ := iterate_hashBody_ok P _ (UInt32.zero_le) (Nat.zero_le _) hok
  refine ⟨hsize, ?_⟩
  rw [hh, update_seededCtx, UInt32.toNat_zero, slice_zero_off, Nat.sub_zero, imageDigest]

theorem hashOn_of_le {hdr : ImageHeader} {tmpBufSz : UInt32} (htmp : 0 < tmpBufSz)
    (seed : Option Bytes) (hsize : (hashedSize hdr).toNat ≤ d.bytes.length) :
    hashOn P d hdr tmpBufSz seed = .ok (imageDigest P d hdr seed) := by
  obtain ⟨h, hok⟩ := iterate_hashBody_total P htmp hsize ((hashedSize hdr).toNat + 1)
    (seededCtx P seed) (UInt32.zero_le) (by rw [UInt32.toNat_zero]; omega)
  have hok' : hashOn P d hdr tmpBufSz seed = .ok h := hok
  rw [hok', (hashOn_ok P hok').2]

/-! ## The TLV scan -/

/-- What the loop carries besides the iterator. -/
structure SigState where
  keyId : Int
  imageHashValid : Bool
  validSignature : FihRet
  deriving DecidableEq, Repr

def SigState.start : SigState :=
  { keyId := -1, imageHashValid := false, validSignature := .failure }

/-- The verdict once the loop has ended without an error. -/
def SigState.result (s : SigState) : FihRet :=
  if s.imageHashValid = false then .failure else s.validSignature

/-- A key id that selects a key of the list. -/
def KnownKey (keyId : Int) : Prop := 0 ≤ keyId ∧ keyId < P.bootutilKeyCnt

instance (keyId : Int) : Decidable (KnownKey P keyId) :=
  inferInstanceAs (Decidable (_ ∧ _))

/-- What one TLV does to the verdict on an image with the given hash. -/
def tlvStep (hash : Bytes) (s : SigState) (t : AreaTlv) : Scan SigState :=
  if P.allowRogueTlvs = false ∧ t.prot = false ∧ t.type ∉ allowedUnprotTlvs then .fail
  else if t.type = P.expectedHashTlv then
    if t.len.toNat = P.imageHashSize ∧ t.payload = some hash then
      .next { s with imageHashValid := true }
    else .fail
  else if t.type = IMAGE_TLV_KEYHASH then
    if t.len.toNat > P.imageHashSize then .fail
    else
      match t.payload with
      | none => .fail
      | some b => .next { s with keyId := fileImgFindKey P b t.len.toUInt8 }
  else if t.type = P.expectedSigTlv then
    if KnownKey P s.keyId then
      if P.signAlg.expectedSigLen t.len.toNat = false ∨ t.len.toNat > P.signAlg.sigBufSize then
        .fail
      else
        match t.payload with
        | none => .fail
        | some b =>
          .next
            { s with
              validSignature := P.bootutilVerifySig hash b (UInt8.ofNat s.keyId.toNat)
              keyId := -1 }
    else .stop { s with keyId := -1 }
  else .next s

/-- The rule on unprotected types. -/
def Allowed (t : AreaTlv) : Prop :=
  P.allowRogueTlvs = true ∨ t.prot = true ∨ t.type ∈ allowedUnprotTlvs

theorem not_rogue_iff (t : AreaTlv) :
    ¬ (P.allowRogueTlvs = false ∧ t.prot = false ∧ t.type ∉ allowedUnprotTlvs) ↔ Allowed P t := by
  unfold Allowed
  cases P.allowRogueTlvs <;> cases t.prot <;> simp

/-- Everything a TLV that goes through may be and do. -/
theorem tlvStep_next {hash : Bytes} {s s' : SigState} {t : AreaTlv}
    (h : tlvStep P hash s t = .next s') :
    Allowed P t ∧
      ((t.type = P.expectedHashTlv ∧ t.len.toNat = P.imageHashSize ∧ t.payload = some hash ∧
          s' = { s with imageHashValid := true }) ∨
        (t.type = IMAGE_TLV_KEYHASH ∧ ∃ b, t.payload = some b ∧
          s' = { s with keyId := fileImgFindKey P b t.len.toUInt8 }) ∨
        (t.type = P.expectedSigTlv ∧ KnownKey P s.keyId ∧ ∃ b, t.payload = some b ∧
          s' = { s with
            validSignature := P.bootutilVerifySig hash b (UInt8.ofNat s.keyId.toNat)
            keyId := -1 }) ∨
        (t.type ≠ P.expectedHashTlv ∧ t.type ≠ IMAGE_TLV_KEYHASH ∧ t.type ≠ P.expectedSigTlv ∧
          s' = s)) := by
  unfold tlvStep at h
  split at h
  · exact absurd h (by simp)
  · rename_i hrogue
    refine ⟨(not_rogue_iff P t).mp hrogue, ?_⟩
    split at h
    · rename_i hhash
      split at h
      · rename_i hok
        exact Or.inl ⟨hhash, hok.1, hok.2, (Scan.next.inj h).symm⟩
      · exact absurd h (by simp)
    · rename_i hhash
      split at h
      · rename_i hkey
        split at h
        · exact absurd h (by simp)
        · cases hb : t.payload with
          | none => rw [hb] at h; exact absurd h (by simp)
          | some b =>
            rw [hb] at h
            exact Or.inr (Or.inl ⟨hkey, b, rfl, (Scan.next.inj h).symm⟩)
      · rename_i hkey
        split at h
        · rename_i hsig
          split at h
          · rename_i hknown
            split at h
            · exact absurd h (by simp)
            · cases hb : t.payload with
              | none => rw [hb] at h; exact absurd h (by simp)
              | some b =>
                rw [hb] at h
                exact Or.inr (Or.inr (Or.inl ⟨hsig, hknown, b, rfl, (Scan.next.inj h).symm⟩))
          · exact absurd h (by simp)
        · rename_i hsig
          exact Or.inr (Or.inr (Or.inr ⟨hhash, hkey, hsig, (Scan.next.inj h).symm⟩))

/-- Only a signature without a known key stops the loop. -/
theorem tlvStep_stop {hash : Bytes} {s s' : SigState} {t : AreaTlv}
    (h : tlvStep P hash s t = .stop s') :
    t.type = P.expectedSigTlv ∧ ¬ KnownKey P s.keyId ∧ s' = { s with keyId := -1 } := by
  unfold tlvStep at h
  split at h
  · exact absurd h (by simp)
  · split at h
    · split at h
      · exact absurd h (by simp)
      · exact absurd h (by simp)
    · split at h
      · split at h
        · exact absurd h (by simp)
        · cases hb : t.payload with
          | none => rw [hb] at h; exact absurd h (by simp)
          | some b => rw [hb] at h; exact absurd h (by simp)
      · split at h
        · rename_i hsig
          split at h
          · split at h
            · exact absurd h (by simp)
            · cases hb : t.payload with
              | none => rw [hb] at h; exact absurd h (by simp)
              | some b => rw [hb] at h; exact absurd h (by simp)
          · rename_i hknown
            exact ⟨hsig, hknown, (Scan.stop.inj h).symm⟩
        · exact absurd h (by simp)

/-- The verdict on records from a state of the loop on.  `clean` says that the
walk over them comes to its end. -/
def verdictFrom (hash : Bytes) (s : SigState) (tlvs : List AreaTlv) (clean : Bool) : FihRet :=
  match scan (tlvStep P hash) tlvs s with
  | .next s' => if clean then s'.result else .failure
  | .stop s' => s'.result
  | .fail => .failure

/-- The verdict on the records of an area. -/
def tlvsVerdict (hash : Bytes) (tlvs : List AreaTlv) (clean : Bool) : FihRet :=
  verdictFrom P hash SigState.start tlvs clean

theorem verdictFrom_append (hash : Bytes) (s : SigState) (l₁ l₂ : List AreaTlv) (clean : Bool) :
    verdictFrom P hash s (l₁ ++ l₂) clean =
      match scan (tlvStep P hash) l₁ s with
      | .next s' => verdictFrom P hash s' l₂ clean
      | .stop s' => s'.result
      | .fail => .failure := by
  unfold verdictFrom
  rw [scan_append]
  cases scan (tlvStep P hash) l₁ s <;> rfl

/-- The verdict on the contents of a file. -/
def validateData (d : FileData) (hdr : ImageHeader) (faSize : Nat) (tmpBufSz : UInt32)
    (seed : Option Bytes) : FihRet :=
  match hashOn P d hdr tmpBufSz seed with
  | .error _ => .failure
  | .ok hash =>
    match tlvIterBegin d hdr IMAGE_TLV_ANY false with
    | none => .failure
    | some it =>
      if it.tlvEnd.toNat > faSize then .failure
      else
        let area := areaTlvs d tlvFuel it
        tlvsVerdict P hash area.1 area.2

/-- The records of the area of a file, as the walk over all of them meets them. -/
def fileArea (d : FileData) (hdr : ImageHeader) : List AreaTlv × Bool :=
  match tlvIterBegin d hdr IMAGE_TLV_ANY false with
  | none => ([], false)
  | some it => areaTlvs d tlvFuel it

/-! ## The function evaluates to the verdict -/

def ValidateState.sig (st : ValidateState) : SigState :=
  { keyId := st.keyId, imageHashValid := st.imageHashValid, validSignature := st.validSignature }

def SigState.at (s : SigState) (it : FileTlvIter) : ValidateState :=
  { it := it
    keyId := s.keyId
    imageHashValid := s.imageHashValid
    validSignature := s.validSignature }

/-- The code and the state after one TLV. -/
def tlvOutcome (it : FileTlvIter) (old : SigState) : Scan SigState → Int × ValidateState
  | .next s => (0, s.at it)
  | .stop s => (1, s.at it)
  | .fail => (-1, old.at it)

/-- `file_image_validate_tlv` on the contents. -/
def validateTlvOn (d : FileData) (hash : Bytes) (st : ValidateState) : Int × ValidateState :=
  match walkNext d st.it with
  | .done => (1, st)
  | .broken => (-1, st.sig.at st.it.skipInfo)
  | .found t it' => tlvOutcome it' st.sig (tlvStep P hash st.sig (AreaTlv.ofFound d it' t))

/-- An answer of an unreliable world ends in the error exit. -/
def ErrorExit (strict : Prop) : Int × ValidateState → Prop := Unreliable strict (·.1 < 0)

theorem errorExit_intro (hs : ¬ strict) (st : ValidateState) : ErrorExit strict (-1, st) :=
  ⟨hs, show (-1 : Int) < 0 by decide⟩

theorem expectedHash_returns (it : FileTlvIter) (tlv : FoundTlv) (hash : Bytes) :
    Returns P.exec (Reading strict hd d) (Unreliable strict (· = none))
      (fileImageValidateTlvExpectedHash P hd tlv hash)
      (if tlv.len.toNat = P.imageHashSize ∧ (AreaTlv.ofFound d it tlv).payload = some hash
        then some () else none) := by
  unfold fileImageValidateTlvExpectedHash
  by_cases hlen : tlv.len.toNat = P.imageHashSize
  · rw [if_neg (not_not.mpr hlen)]
    refine returns_bind (loadImageData_returns P _ _) ?_ ?_
    · rintro e ⟨hs, rc, rfl⟩
      exact fails_ret ⟨hs, rfl⟩
    · simp only [AreaTlv.ofFound, payloadAt, hlen, true_and]
      cases loadBytes d tlv.off P.imageHashSize with
      | error rc => exact returns_ret _
      | ok b =>
        simp only [Except.toOption, Option.some.injEq, eq_comm (a := hash)]
        exact returns_ret _
  · rw [if_pos hlen, if_neg (fun h => hlen h.1)]
    exact returns_ret _

theorem expectedKey_returns (it : FileTlvIter) (tlv : FoundTlv) :
    Returns P.exec (Reading strict hd d) (Unreliable strict (· = none))
      (fileImageValidateTlvExpectedKey P hd tlv)
      (if tlv.len.toNat > P.imageHashSize then none
        else (AreaTlv.ofFound d it tlv).payload.map
          fun b => fileImgFindKey P b tlv.len.toUInt8) := by
  unfold fileImageValidateTlvExpectedKey
  by_cases hlen : tlv.len.toNat > P.imageHashSize
  · rw [if_pos hlen, if_pos hlen]
    exact returns_ret _
  · rw [if_neg hlen, if_neg hlen]
    refine returns_bind (loadImageData_returns P _ _) ?_ ?_
    · rintro e ⟨hs, rc, rfl⟩
      exact fails_ret ⟨hs, rfl⟩
    · simp only [AreaTlv.ofFound, payloadAt]
      cases loadBytes d tlv.off tlv.len.toNat with
      | error rc => exact returns_ret _
      | ok b => exact returns_ret _

theorem expectedSig_returns (it : FileTlvIter) (tlv : FoundTlv) (hash : Bytes) (keyId : Int) :
    Returns P.exec (Reading strict hd d) (Unreliable strict (· = none))
      (fileImageValidateTlvExpectedSig P hd tlv hash keyId)
      (if P.signAlg.expectedSigLen tlv.len.toNat = false ∨ tlv.len.toNat > P.signAlg.sigBufSize
        then none
        else (AreaTlv.ofFound d it tlv).payload.map
          fun b => P.bootutilVerifySig hash b (UInt8.ofNat keyId.toNat)) := by
  unfold fileImageValidateTlvExpectedSig
  split
  · exact returns_ret _
  · refine returns_bind (loadImageData_returns P _ _) ?_ ?_
    · rintro e ⟨hs, rc, rfl⟩
      exact fails_ret ⟨hs, rfl⟩
    · simp only [AreaTlv.ofFound, payloadAt]
      cases loadBytes d tlv.off tlv.len.toNat with
      | error rc => exact returns_ret _
      | ok b => exact returns_ret _

theorem fileImageValidateTlv_returns {st : ValidateState} (hit : OverAll st.it) (hash : Bytes) :
    Returns P.exec (Reading strict hd d) (ErrorExit strict)
      (fileImageValidateTlv P hd hash st) (validateTlvOn P d hash st) := by
  unfold fileImageValidateTlv validateTlvOn
  refine returns_bind (fileTlvIterNext_returns P hit) ?_ ?_
  · rintro e ⟨hs, hrc⟩
    dsimp only
    rw [if_pos (Int.ne_of_lt hrc)]
    exact fails_ret ⟨hs, hrc⟩
  · cases walkNext d st.it with
    | done => exact returns_ret _
    | broken => exact returns_ret _
    | found t it' =>
      -- the code is 0 here; each test of the source is one of the step
      refine returns_ite (fun hrc => absurd rfl hrc) (fun _ => ?_)
      unfold tlvStep
      dsimp only
      refine returns_ite
        (fun hrogue : P.allowRogueTlvs = false ∧ fileTlvIterIsProt it' t.off = false ∧
          t.type ∉ allowedUnprotTlvs => ?rogue) (fun hrogue : ¬ (P.allowRogueTlvs = false ∧
          fileTlvIterIsProt it' t.off = false ∧ t.type ∉ allowedUnprotTlvs) => ?allowed)
      case rogue =>
        have hrogue' : P.allowRogueTlvs = false ∧ (AreaTlv.ofFound d it' t).prot = false ∧
          (AreaTlv.ofFound d it' t).type ∉ allowedUnprotTlvs := hrogue
        rw [if_pos hrogue']
        exact returns_ret _
      case allowed =>
        have hrogue' : ¬ (P.allowRogueTlvs = false ∧ (AreaTlv.ofFound d it' t).prot = false ∧
          (AreaTlv.ofFound d it' t).type ∉ allowedUnprotTlvs) := hrogue
        rw [if_neg hrogue']
        refine returns_ite (fun hhash : t.type = P.expectedHashTlv => ?hash)
          (fun hhash : ¬ t.type = P.expectedHashTlv => ?other)
        case hash =>
          have hhash' : (AreaTlv.ofFound d it' t).type = P.expectedHashTlv := hhash
          rw [if_pos hhash']
          refine returns_bind (expectedHash_returns P it' t hash) ?_ ?_
          · rintro e ⟨hs, rfl⟩
            exact fails_ret (errorExit_intro hs _)
          · have hlen : (AreaTlv.ofFound d it' t).len = t.len := rfl
            rw [hlen]
            by_cases hok : t.len.toNat = P.imageHashSize ∧
                (AreaTlv.ofFound d it' t).payload = some hash
            · rw [if_pos hok, if_pos hok]
              exact returns_ret _
            · rw [if_neg hok, if_neg hok]
              exact returns_ret _
        case other =>
          have hhash' : ¬ (AreaTlv.ofFound d it' t).type = P.expectedHashTlv := hhash
          rw [if_neg hhash']
          refine returns_ite (fun hkey : t.type = IMAGE_TLV_KEYHASH => ?key)
            (fun hkey : ¬ t.type = IMAGE_TLV_KEYHASH => ?nokey)
          case key =>
            have hkey' : (AreaTlv.ofFound d it' t).type = IMAGE_TLV_KEYHASH := hkey
            rw [if_pos hkey']
            refine returns_bind (expectedKey_returns P it' t) ?_ ?_
            · rintro e ⟨hs, rfl⟩
              exact fails_ret (errorExit_intro hs _)
            · have hlen : (AreaTlv.ofFound d it' t).len = t.len := rfl
              rw [hlen]
              by_cases hlong : t.len.toNat > P.imageHashSize
              · rw [if_pos hlong, if_pos hlong]
                exact returns_ret _
              · rw [if_neg hlong, if_neg hlong]
                cases (AreaTlv.ofFound d it' t).payload with
                | none => exact returns_ret _
                | some b => exact returns_ret _
          case nokey =>
            have hkey' : ¬ (AreaTlv.ofFound d it' t).type = IMAGE_TLV_KEYHASH := hkey
            rw [if_neg hkey']
            refine returns_ite (fun hsig : t.type = P.expectedSigTlv => ?sig)
              (fun hsig : ¬ t.type = P.expectedSigTlv => ?skip)
            case sig =>
              have hsig' : (AreaTlv.ofFound d it' t).type = P.expectedSigTlv := hsig
              rw [if_pos hsig']
              refine returns_ite (fun hrange : st.keyId < 0 ∨ st.keyId ≥ P.bootutilKeyCnt => ?_)
                (fun hrange : ¬ (st.keyId < 0 ∨ st.keyId ≥ P.bootutilKeyCnt) => ?_)
              · have hknown : ¬ KnownKey P st.sig.keyId := by
                  rintro ⟨hlo, hhi⟩
                  rcases hrange with h | h
                  · exact absurd hlo (Int.not_le.mpr h)
                  · exact absurd hhi (Int.not_lt.mpr h)
                rw [if_neg hknown]
                exact returns_ret _
              · have hknown : KnownKey P st.sig.keyId := by
                  rw [not_or, Int.not_lt, ge_iff_le, Int.not_le] at hrange
                  exact hrange
                rw [if_pos hknown]
                refine returns_bind (expectedSig_returns P it' t hash st.keyId) ?_ ?_
                · rintro e ⟨hs, rfl⟩
                  exact fails_ret (errorExit_intro hs _)
                · have hlen : (AreaTlv.ofFound d it' t).len = t.len := rfl
                  rw [hlen]
                  by_cases hbad : P.signAlg.expectedSigLen t.len.toNat = false ∨
                      t.len.toNat > P.signAlg.sigBufSize
                  · rw [if_pos hbad, if_pos hbad]
                    exact returns_ret _
                  · rw [if_neg hbad, if_neg hbad]
                    cases (AreaTlv.ofFound d it' t).payload with
                    | none => exact returns_ret _
                    | some b => exact returns_ret _
            case skip =>
              have hsig' : ¬ (AreaTlv.ofFound d it' t).type = P.expectedSigTlv := hsig
              rw [if_neg hsig']
              exact returns_ret _

/-- One round of the loop on the contents. -/
def validateBodyOn (d : FileData) (hash : Bytes) (st : ValidateState) :
    ValidateState ⊕ (Int × ValidateState) :=
  let r := validateTlvOn P d hash st
  if r.1 < 0 then .inr r
  else if r.1 > 0 then .inr r
  else .inl r.2

theorem validateTlvOn_overAll {st : ValidateState} (hit : OverAll st.it) (hash : Bytes) :
    OverAll (validateTlvOn P d hash st).2.it := by
  unfold validateTlvOn
  cases hnext : walkNext d st.it with
  | done => exact hit
  | broken => exact hit.skipInfo
  | found t it' =>
    have hit' := hit.next hnext
    dsimp only
    cases tlvStep P hash st.sig (AreaTlv.ofFound d it' t) with
    | next s => exact hit'
    | stop s => exact hit'
    | fail => exact hit'

theorem validateLoop_returns (st : ValidateState) (hit : OverAll st.it) (hash : Bytes)
    (stuck : Int × ValidateState) (fuel : Nat) :
    Returns P.exec (Reading strict hd d) (ErrorExit strict)
      (Prog.loop (fileImgValidateBody P hd hash) stuck fuel st)
      (iterate (validateBodyOn P d hash) stuck fuel st) := by
  refine returns_loop (J := fun s => OverAll s.it) (fun s hs => ?_) (fun s s' hs hr => ?_) fuel st
    hit
  · unfold fileImgValidateBody validateBodyOn
    refine returns_bind (fileImageValidateTlv_returns P hs hash) ?_ ?_
    · rintro e ⟨hstrict, hrc⟩
      dsimp only
      rw [if_pos hrc]
      exact fails_ret ⟨_, rfl, hstrict, hrc⟩
    · dsimp only
      split
      · exact returns_ret _
      · split
        · exact returns_ret _
        · exact returns_ret _
  · have hover := validateTlvOn_overAll P (d := d) hs hash
    unfold validateBodyOn at hr
    dsimp only at hr
    split at hr
    · exact absurd hr (by simp)
    · split at hr
      · exact absurd hr (by simp)
      · rw [← Sum.inl.inj hr]
        exact hover

/-- The loop walks the records of the area and scans them: it ends with an error
where the scan fails or the walk breaks off, and with the state of the scan where
the scan stops or the walk ends. -/
theorem iterate_validateBodyOn (hash : Bytes) (stuck : ValidateState) (fuel : Nat)
    (st : ValidateState) :
    let r := iterate (validateBodyOn P d hash) (-1, stuck) fuel st
    let area := areaTlvs d fuel st.it
    match scan (tlvStep P hash) area.1 st.sig with
    | .next s => if area.2 then 0 ≤ r.1 ∧ r.2.sig = s else r.1 < 0
    | .stop s => 0 ≤ r.1 ∧ r.2.sig = s
    | .fail => r.1 < 0 := by
  induction fuel generalizing st with
  | zero => exact (by decide : (-1 : Int) < 0)
  | succ fuel ih =>
    rw [areaTlvs]
    cases hnext : walkNext d st.it with
    | done =>
      have hbody : validateBodyOn P d hash st = .inr (1, st) := by
        rw [validateBodyOn, validateTlvOn, hnext]
        rfl
      rw [iterate_inr hbody]
      exact ⟨(by decide : (0 : Int) ≤ 1), rfl⟩
    | broken =>
      have hbody : validateBodyOn P d hash st = .inr (-1, st.sig.at st.it.skipInfo) := by
        rw [validateBodyOn, validateTlvOn, hnext]
        rfl
      rw [iterate_inr hbody]
      exact (by decide : (-1 : Int) < 0)
    | found t it' =>
      have htlv : validateTlvOn P d hash st =
          tlvOutcome it' st.sig (tlvStep P hash st.sig (AreaTlv.ofFound d it' t)) := by
        rw [validateTlvOn, hnext]
      dsimp only
      rw [scan_cons]
      cases hstep : tlvStep P hash st.sig (AreaTlv.ofFound d it' t) with
      | next s =>
        have hbody : validateBodyOn P d hash st = .inl (s.at it') := by
          rw [validateBodyOn, htlv, hstep]
          rfl
        rw [iterate_inl hbody]
        exact ih (s.at it')
      | stop s =>
        have hbody : validateBodyOn P d hash st = .inr (1, s.at it') := by
          rw [validateBodyOn, htlv, hstep]
          rfl
        rw [iterate_inr hbody]
        exact ⟨(by decide : (0 : Int) ≤ 1), rfl⟩
      | fail =>
        have hbody : validateBodyOn P d hash st = .inr (-1, st.sig.at it') := by
          rw [validateBodyOn, htlv, hstep]
          rfl
        rw [iterate_inr hbody]
        exact (by decide : (-1 : Int) < 0)

theorem fileImgValidate_returns (hdr : ImageHeader) (faSize : Nat) (tmpBufSz : UInt32)
    (seed : Option Bytes) :
    Returns P.exec (Reading strict hd d) (Unreliable strict (· = .failure))
      (fileImgValidate P hd hdr faSize tmpBufSz seed)
      (validateData P d hdr faSize tmpBufSz seed) := by
  unfold fileImgValidate validateData
  refine returns_bind (fileImgHash_returns P hdr tmpBufSz seed) ?_ ?_
  · rintro e ⟨hs, rc, rfl⟩
    exact fails_ret ⟨hs, rfl⟩
  · cases hashOn P d hdr tmpBufSz seed with
    | error rc => exact returns_ret _
    | ok hash =>
      refine returns_bind (fileTlvIterBegin_returns P hdr IMAGE_TLV_ANY false) ?_ ?_
      · rintro e ⟨hs, rfl⟩
        exact fails_ret ⟨hs, rfl⟩
      · cases hbegin : tlvIterBegin d hdr IMAGE_TLV_ANY false with
        | none => exact returns_ret _
        | some it =>
          dsimp only
          split
          · exact returns_ret _
          · obtain ⟨htype, hprot⟩ := tlvIterBegin_some hbegin
            refine returns_bind (validateLoop_returns P (SigState.start.at it)
              ⟨htype, hprot⟩ hash (-1, SigState.start.at it) tlvFuel) ?_ ?_
            · rintro e ⟨hs, hrc⟩
              rw [if_pos hrc]
              exact fails_ret ⟨hs, rfl⟩
            · have hloop := iterate_validateBodyOn P (d := d) hash (SigState.start.at it) tlvFuel
                (SigState.start.at it)
              generalize iterate (validateBodyOn P d hash) _ tlvFuel _ = r at hloop ⊢
              obtain ⟨rc, st'⟩ := r
              have hsig : (SigState.start.at it).sig = SigState.start := rfl
              have hitAt : (SigState.start.at it).it = it := rfl
              simp only [hsig, hitAt] at hloop
              have hgood : ∀ s : SigState, 0 ≤ rc ∧ st'.sig = s →
                  (if rc < 0 then (pure .failure : Fw FihRet)
                    else if st'.imageHashValid = false then pure .failure
                    else pure st'.validSignature) = Prog.ret s.result := by
                rintro s ⟨hrc, rfl⟩
                rw [if_neg (Int.not_lt.mpr hrc), SigState.result]
                have hvalid : st'.sig.imageHashValid = st'.imageHashValid := rfl
                rw [hvalid]
                split <;> rfl
              unfold tlvsVerdict verdictFrom
              cases hscan : scan (tlvStep P hash) (areaTlvs d tlvFuel it).1 SigState.start with
              | next s =>
                rw [hscan] at hloop
                dsimp only at hloop ⊢
                split at hloop
                · rename_i hclean
                  rw [if_pos hclean, hgood s hloop]
                  exact returns_ret _
                · rename_i hclean
                  rw [if_neg hclean, if_pos hloop]
                  exact returns_ret _
              | stop s =>
                rw [hscan] at hloop
                rw [hgood s hloop]
                exact returns_ret _
              | fail =>
                rw [hscan] at hloop
                rw [if_pos hloop]
                exact returns_ret _

end RuuviMcuboot
