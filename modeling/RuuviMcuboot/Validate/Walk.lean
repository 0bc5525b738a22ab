/-
The TLV area of a file as the iterator meets it.

`tlvIterBegin` is the start of the walk computed from the contents of the file,
`walkNext` what one call of `file_tlv_iter_next` finds when all types are asked
for, and `areaTlvs` the records of the whole walk in order.
-/
import RuuviMcuboot.Platform.Reading

namespace RuuviMcuboot

open Binary Effect

variable (P : Platform) {strict : Prop} {hd : Handle} {d : FileData}

/-! ## The start of the walk -/

def tlvIterBegin (d : FileData) (hdr : ImageHeader) (type : UInt16) (prot : Bool) :
    Option FileTlvIter :=
  let offset := bootTlvOff hdr
  let start (info : ImageTlvInfo) : Option FileTlvIter :=
    if info.itMagic ≠ IMAGE_TLV_INFO_MAGIC then none
    else some
      { hdr := hdr
        type := type
        prot := prot
        protEnd := offset + hdr.ihProtectTlvSize.toUInt32
        tlvEnd := offset + hdr.ihProtectTlvSize.toUInt32 + info.itTlvTot.toUInt32
        tlvOff := offset + 4 }
  match loadBytes d offset tlvHdrSize with
  | .error _ => none
  | .ok b =>
    let info := ImageTlvInfo.decode b
    if info.itMagic = IMAGE_TLV_PROT_INFO_MAGIC then
      if hdr.ihProtectTlvSize ≠ info.itTlvTot then none
      else
        match loadBytes d (offset + info.itTlvTot.toUInt32) tlvHdrSize with
        | .error _ => none
        | .ok b => start (ImageTlvInfo.decode b)
    else if hdr.ihProtectTlvSize ≠ 0 then none
    else start info

theorem fileTlvIterBegin_returns (hdr : ImageHeader) (type : UInt16) (prot : Bool) :
    Returns P.exec (Reading strict hd d) (Unreliable strict (· = none))
      (fileTlvIterBegin hd hdr type prot) (tlvIterBegin d hdr type prot) := by
  unfold fileTlvIterBegin tlvIterBegin
  refine returns_bind (loadImageData_returns P _ _) ?_ ?_
  · rintro e ⟨hs, rc, rfl⟩
    exact fails_ret ⟨hs, rfl⟩
  · dsimp only
    cases loadBytes d (bootTlvOff hdr) tlvHdrSize with
    | error rc => exact returns_ret _
    | ok b =>
      dsimp only
      by_cases hprot : (ImageTlvInfo.decode b).itMagic = IMAGE_TLV_PROT_INFO_MAGIC
      · rw [if_pos hprot, if_pos hprot]
        by_cases htot : hdr.ihProtectTlvSize ≠ (ImageTlvInfo.decode b).itTlvTot
        · rw [if_pos htot, if_pos htot]
          exact returns_ret _
        · rw [if_neg htot, if_neg htot]
          refine returns_bind (loadImageData_returns P _ _) ?_ ?_
          · rintro e ⟨hs, rc, rfl⟩
            exact fails_ret ⟨hs, rfl⟩
          · cases loadBytes d (bootTlvOff hdr + (ImageTlvInfo.decode b).itTlvTot.toUInt32)
              tlvHdrSize with
            | error rc => exact returns_ret _
            | ok b' => exact returns_ret _
      · rw [if_neg hprot, if_neg hprot]
        by_cases hsize : hdr.ihProtectTlvSize ≠ 0
        · rw [if_pos hsize, if_pos hsize]
          exact returns_ret _
        · rw [if_neg hsize, if_neg hsize]
          exact returns_ret _

/-- What a walk that has begun starts from. -/
theorem tlvIterBegin_some {hdr : ImageHeader} {type : UInt16} {prot : Bool} {it : FileTlvIter}
    (h : tlvIterBegin d hdr type prot = some it) : it.type = type ∧ it.prot = prot := by
  have hstart : ∀ {info : ImageTlvInfo} {o e t : UInt32},
      (if info.itMagic ≠ IMAGE_TLV_INFO_MAGIC then none
        else some (FileTlvIter.mk hdr type prot e o t)) = some it →
      it.type = type ∧ it.prot = prot := by
    intro info o e t hit
    split at hit
    · exact absurd hit (by simp)
    · rw [← Option.some.inj hit]
      exact ⟨rfl, rfl⟩
  unfold tlvIterBegin at h
  dsimp only at h
  split at h
  · exact absurd h (by simp)
  · split at h
    · split at h
      · exact absurd h (by simp)
      · split at h
        · exact absurd h (by simp)
        · exact hstart h
    · split at h
      · exact absurd h (by simp)
      · exact hstart h

/-! ## One step of the walk -/

/-- A TLV of the area: whether its payload starts in the protected part, its
type and declared length, and its payload unless the file ends inside it. -/
structure AreaTlv where
  prot : Bool
  type : UInt16
  len : UInt16
  payload : Option Bytes
  deriving DecidableEq, Repr

/-- The payload bytes at `off`, if they can all be read. -/
def payloadAt (d : FileData) (off : UInt32) (len : Nat) : Option Bytes :=
  (loadBytes d off len).toOption

/-- The record found at `found.off`, seen from `it`. -/
def AreaTlv.ofFound (d : FileData) (it : FileTlvIter) (found : FoundTlv) : AreaTlv where
  prot := fileTlvIterIsProt it found.off
  type := found.type
  len := found.len
  payload := payloadAt d found.off found.len.toNat

/-- The end of the area, a place where no record can be read, or a record. -/
inductive WalkNext where
  | done
  | broken
  | found (tlv : FoundTlv) (next : FileTlvIter)

def walkNext (d : FileData) (it : FileTlvIter) : WalkNext :=
  if it.tlvOff < it.tlvEnd then
    match loadBytes d it.skipInfo.tlvOff tlvHdrSize with
    | .error _ => .broken
    | .ok b =>
      let tlv := ImageTlv.decode b
      .found { off := it.skipInfo.tlvOff + 4, len := tlv.itLen, type := tlv.itType }
        (it.skipInfo.advance tlv.itLen)
  else .done

/-- An iterator over all TLVs of both parts. -/
structure OverAll (it : FileTlvIter) : Prop where
  type : it.type = IMAGE_TLV_ANY
  prot : it.prot = false

theorem OverAll.skipInfo {it : FileTlvIter} (h : OverAll it) : OverAll it.skipInfo := by
  unfold FileTlvIter.skipInfo
  split
  · exact ⟨h.type, h.prot⟩
  · exact h

theorem OverAll.advance {it : FileTlvIter} (h : OverAll it) (len : UInt16) :
    OverAll (it.advance len) := ⟨h.type, h.prot⟩

theorem OverAll.next {it it' : FileTlvIter} {t : FoundTlv} (h : OverAll it)
    (hnext : walkNext d it = .found t it') : OverAll it' := by
  unfold walkNext at hnext
  split at hnext
  · split at hnext
    · exact absurd hnext (by simp)
    · rw [WalkNext.found.injEq] at hnext
      exact hnext.2 ▸ h.skipInfo.advance _
  · exact absurd hnext (by simp)

/-- What `file_tlv_iter_next` returns for each outcome of a step. -/
def WalkNext.result (it : FileTlvIter) : WalkNext → TlvNext
  | .done => { rc := 1, found := {}, it := it }
  | .broken => { rc := -1, found := {}, it := it.skipInfo }
  | .found t it' => { rc := 0, found := t, it := it' }

theorem fileTlvIterNext_returns {it : FileTlvIter} (hit : OverAll it) :
    Returns P.exec (Reading strict hd d) (Unreliable strict (·.rc < 0))
      (fileTlvIterNext hd it) ((walkNext d it).result it) := by
  have hbody : Returns P.exec (Reading strict hd d)
      (fun r => ∃ e, r = Sum.inr e ∧ Unreliable strict (·.rc < 0) e)
      (fileTlvIterNextBody hd it) (.inr ((walkNext d it).result it)) := by
    unfold fileTlvIterNextBody walkNext
    by_cases hoff : it.tlvOff < it.tlvEnd
    · rw [if_pos hoff, if_pos hoff]
      refine returns_bind (loadImageData_returns P _ _) ?_ ?_
      · rintro e ⟨hs, rc, rfl⟩
        exact fails_ret ⟨_, rfl, hs, show (-1 : Int) < 0 by decide⟩
      · cases loadBytes d it.skipInfo.tlvOff tlvHdrSize with
        | error rc => exact returns_ret _
        | ok b =>
          simp only [hit.skipInfo.prot, hit.skipInfo.type, Bool.false_eq_true, false_and,
            if_false, true_or, if_true]
          exact returns_ret _
    · rw [if_neg hoff, if_neg hoff]
      exact returns_ret _
  -- a walk over all types leaves the loop in its first round
  refine returns_bind hbody ?_ ?_
  · rintro e ⟨e', rfl, hE⟩
    exact fails_ret hE
  · exact returns_ret _

/-! ## The whole walk -/

/-- The records of the area in order, and whether the walk comes to its end. -/
def areaTlvs (d : FileData) : Nat → FileTlvIter → List AreaTlv × Bool
  | 0, _ => ([], false)
  | fuel + 1, it =>
    match walkNext d it with
    | .done => ([], true)
    | .broken => ([], false)
    | .found t it' =>
      let rest := areaTlvs d fuel it'
      (AreaTlv.ofFound d it' t :: rest.1, rest.2)

end RuuviMcuboot
