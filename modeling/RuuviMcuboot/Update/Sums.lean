/-
32-bit sums and rounds of validation.

Every offset of a validation is a sum of header and TLV fields that the writer of
the file chooses.  The size check in front of the validation bounds the first of
these sums, and every loop compares its offset with an end that is one of them, so
none of them wraps and each loop runs out of room after a bounded number of rounds.
-/
import RuuviMcuboot.Effect.Loop
import RuuviMcuboot.Revision.Search
import RuuviMcuboot.Update.Validated
import RuuviMcuboot.Validate.Enumerate

namespace RuuviMcuboot

open Binary Effect

variable (P : Platform) {hd : Handle} {d : FileData} {hdr : ImageHeader} {w : World}

/-! ## Sums of header fields -/

/-- The sums of header fields are those of the natural numbers, whatever TLV size
is added to them. -/
structure HeaderSums (hdr : ImageHeader) : Prop where
  resetOff : toOffT (hdr.ihHdrSize.toUInt32 + 4) = (hdr.ihHdrSize.toNat : Int) + 4
  tlvOff : (bootTlvOff hdr).toNat = hdr.ihHdrSize.toNat + hdr.ihImgSize.toNat
  hashed : (hashedSize hdr).toNat =
    hdr.ihHdrSize.toNat + hdr.ihImgSize.toNat + hdr.ihProtectTlvSize.toNat
  firstOff : (bootTlvOff hdr + 4).toNat = (bootTlvOff hdr).toNat + 4
  infoOff : ∀ tot : UInt16,
    (bootTlvOff hdr + tot.toUInt32).toNat = (bootTlvOff hdr).toNat + tot.toNat
  tlvEnd : ∀ tot : UInt16,
    (bootTlvOff hdr + hdr.ihProtectTlvSize.toUInt32 + tot.toUInt32).toNat =
      (bootTlvOff hdr).toNat + hdr.ihProtectTlvSize.toNat + tot.toNat
  revEnd : ∀ tot : UInt16,
    (bootTlvOff hdr + 4 + tot.toUInt32).toNat = (bootTlvOff hdr).toNat + 4 + tot.toNat

theorem toNat_add_of_lt {x y : UInt32} (h : x.toNat + y.toNat < 4294967296) :
    (x + y).toNat = x.toNat + y.toNat := by
  rw [UInt32.toNat_add, Nat.mod_eq_of_lt h]

theorem headerSums_of_lt
    (hsum : hdr.ihHdrSize.toNat + hdr.ihImgSize.toNat < 2147483648) : HeaderSums hdr := by
  have h4 : (4 : UInt32).toNat = 4 := rfl
  have hhdr := hdr.ihHdrSize.toNat_lt
  have hprot := hdr.ihProtectTlvSize.toNat_lt
  have hoff : (bootTlvOff hdr).toNat = hdr.ihHdrSize.toNat + hdr.ihImgSize.toNat := by
    unfold bootTlvOff
    rw [toNat_add_of_lt] <;> rw [UInt16.toNat_toUInt32]
    omega
  have hfirst : (bootTlvOff hdr + 4).toNat = (bootTlvOff hdr).toNat + 4 :=
    toNat_add_of_lt (by omega)
  have hinfo : ∀ tot : UInt16,
      (bootTlvOff hdr + tot.toUInt32).toNat = (bootTlvOff hdr).toNat + tot.toNat := by
    intro tot
    have htot := tot.toNat_lt
    rw [toNat_add_of_lt] <;> rw [UInt16.toNat_toUInt32]
    omega
  refine ⟨?_, hoff, hashedSize_toNat (by omega), hfirst, hinfo, fun tot => ?_, fun tot => ?_⟩
  · have hreset : (hdr.ihHdrSize.toUInt32 + 4).toNat = hdr.ihHdrSize.toNat + 4 := by
      rw [toNat_add_of_lt] <;> rw [UInt16.toNat_toUInt32, h4]
      omega
    unfold toOffT
    rw [hreset, if_pos (by omega)]
    omega
  · have htot := tot.toNat_lt
    have hmid := hinfo hdr.ihProtectTlvSize
    rw [toNat_add_of_lt] <;> rw [UInt16.toNat_toUInt32, hmid]
    omega
  · have htot := tot.toNat_lt
    rw [toNat_add_of_lt] <;> rw [UInt16.toNat_toUInt32, hfirst]
    omega

/-- A header that was loaded from the start of a file is the one the file starts
with, and its two sizes add up to the size that was checked. -/
theorem loadHeader_triple (hd : Handle) {f : OpenFile} (hpos : f.pos = 0) :
    Triple (S := Api) P.exec (fun w => lookupFile hd w.opened = some f)
      (loadImageHeaderFromFile hd)
      (fun r _ => ∀ h imgSize, r = some (h, imgSize) → h = fileHeader f.data ∧
        imgSize.toNat = h.ihHdrSize.toNat + h.ihImgSize.toNat) (fun _ => True) := by
  have hnone : ∀ (Q : World → Prop), Triple (S := Api) P.exec Q
      (Prog.ret (none : Option (ImageHeader × UInt32)))
      (fun r _ => ∀ h imgSize, r = some (h, imgSize) → h = fileHeader f.data ∧
        imgSize.toNat = h.ihHdrSize.toNat + h.ihImgSize.toNat) (fun _ => True) := fun Q =>
    triple_ret (fun _ _ _ _ h => absurd h.symm (Option.some_ne_none _)) (fun _ _ => True.intro)
  unfold loadImageHeaderFromFile
  refine triple_bind (M := fun r _ => ∀ b, r = .ok b → b.length = imageHeaderSize →
    ImageHeader.decode b = fileHeader f.data) ?_ (fun r => ?_)
  · intro w hf
    refine ⟨fun _ _ => True.intro, fun b hb hlen => ?_⟩
    rcases run_fsRead_cases P hf imageHeaderSize with ⟨-, rc, hread⟩ | ⟨n, hn, -, hread⟩
    · rw [show Effect.run P.exec (fsRead hd imageHeaderSize) w = _ from hread] at hb
      exact absurd hb (by simp)
    · rw [show Effect.run P.exec (fsRead hd imageHeaderSize) w = _ from hread, hpos] at hb
      obtain rfl := Except.ok.inj hb
      rw [slice_length] at hlen
      obtain rfl : n = imageHeaderSize := by omega
      rfl
  · cases r with
    | error e => exact hnone _
    | ok b =>
      refine triple_fact fun hb => triple_ite (fun _ => hnone _) (fun hlen => ?_)
      have hlen' : b.length = imageHeaderSize := not_not.mp hlen
      have hhdr := hb b rfl hlen'
      rw [hhdr]
      refine triple_ite (fun _ => hnone _) (fun _ => triple_ite (fun _ => hnone _) (fun _ => ?_))
      cases hsum : bootU32SafeAdd (fileHeader f.data).ihImgSize
          (fileHeader f.data).ihHdrSize.toUInt32 with
      | none => exact hnone _
      | some imgSize =>
        refine triple_bind (M := fun _ _ => True) (fun _ _ => ⟨fun _ _ => True.intro, True.intro⟩)
          (fun size => triple_ite (fun _ => hnone _) (fun _ => triple_ret ?_ (fun _ _ => True.intro)))
        intro w _ h imgSize' hres
        obtain ⟨rfl, rfl⟩ := Prod.mk.inj (Option.some.inj hres)
        have hadd := bootU32SafeAdd_some hsum
        rw [UInt16.toNat_toUInt32] at hadd
        exact ⟨rfl, hadd.trans (Nat.add_comm _ _)⟩

/-! ## The hash loop -/

/-- The sums of one round of the hash loop, in front of the block at `off`. -/
structure HashRound (size tmpBufSz off : UInt32) : Prop where
  rest : (size - off).toNat = size.toNat - off.toNat
  next : ∀ blkSz, blkSz = (if size - off > tmpBufSz then tmpBufSz else size - off) →
    (off + blkSz).toNat = off.toNat + blkSz.toNat ∧ off < off + blkSz ∧ off + blkSz ≤ size

theorem hashRound_of_lt {size tmpBufSz off : UInt32} (htmp : 0 < tmpBufSz) (hlt : off < size) :
    HashRound size tmpBufSz off := by
  have hlt' : off.toNat < size.toNat := hlt
  refine ⟨UInt32.toNat_sub_of_le _ _ (UInt32.le_of_lt hlt), fun blkSz hblk => ?_⟩
  obtain ⟨hle, hadd, hpos⟩ := blkSz_spec tmpBufSz hlt
  rw [← hblk] at hle hadd hpos
  have hpos' := hpos htmp
  refine ⟨hadd, ?_, ?_⟩
  · rw [UInt32.lt_iff_toNat_lt, hadd]
    omega
  · rw [UInt32.le_iff_toNat_le, hadd]
    omega

theorem hashBody_goesOn {size tmpBufSz : UInt32} {s s' : UInt32 × P.sha.Ctx} {w' : World}
    (hr : P.run (fileImgHashBody P hd size tmpBufSz s) w = (.inl s', w')) :
    s.1 < size ∧ s'.1 = s.1 + (if size - s.1 > tmpBufSz then tmpBufSz else size - s.1) := by
  obtain ⟨off, ctx⟩ := s
  unfold fileImgHashBody at hr
  dsimp only at hr ⊢
  by_cases hlt : off < size
  · rw [if_pos hlt, P.run_bind] at hr
    refine ⟨hlt, ?_⟩
    cases hload : (P.run (loadImageData hd off
        (if size - off > tmpBufSz then tmpBufSz else size - off).toNat) w).1 with
    | error rc =>
      rw [hload] at hr
      exact absurd (congrArg Prod.fst hr) (by simp)
    | ok b =>
      rw [hload] at hr
      have hs : (off + (if size - off > tmpBufSz then tmpBufSz else size - off), P.sha.update ctx b)
          = s' := Sum.inl.inj (congrArg Prod.fst hr)
      rw [← hs]
  · rw [if_neg hlt] at hr
    exact absurd (congrArg Prod.fst hr) (by simp)

/-- The hash loop ends over any contents and any failures, for any buffer that holds
a byte. -/
theorem hashLoop_terminates {size tmpBufSz : UInt32} (htmp : 0 < tmpBufSz)
    (s : UInt32 × P.sha.Ctx) (w : World) :
    Terminates (S := Api) P.exec (fileImgHashBody P hd size tmpBufSz) (.error (-1))
      (size.toNat + 1) s w := by
  refine terminates_of_measure (I := fun _ _ => True) (μ := fun s => size.toNat - s.1.toNat)
    (fun s w s' w' _ hr => ⟨True.intro, ?_⟩) True.intro (by omega)
  obtain ⟨hlt, hs'⟩ := hashBody_goesOn P hr
  obtain ⟨-, hinc, hle⟩ := (hashRound_of_lt htmp hlt).next _ rfl
  rw [← hs'] at hinc hle
  have hlt' : s.1.toNat < size.toNat := hlt
  have hinc' : s.1.toNat < s'.1.toNat := hinc
  have hle' : s'.1.toNat ≤ size.toNat := hle
  omega

/-! ## The TLV iterator -/

/-- The sums of one round of `file_tlv_iter_next`, whatever length the record
declares. -/
structure IterRound (it : FileTlvIter) : Prop where
  skip : it.skipInfo.tlvOff.toNat =
    if it.hdr.ihProtectTlvSize > 0 ∧ it.tlvOff = it.protEnd then it.tlvOff.toNat + 4
    else it.tlvOff.toNat
  payload : (it.skipInfo.tlvOff + 4).toNat = it.skipInfo.tlvOff.toNat + 4
  advance : ∀ len : UInt16,
    (it.skipInfo.advance len).tlvOff.toNat = it.skipInfo.tlvOff.toNat + 4 + len.toNat
  increases : ∀ len : UInt16, it.tlvOff < (it.skipInfo.advance len).tlvOff

/-- The end of the area is far from 2^32, and near the iterator. -/
structure IterBounds (it : FileTlvIter) : Prop where
  end_le : it.tlvEnd.toNat ≤ 2147614717
  near : it.tlvEnd.toNat ≤ it.tlvOff.toNat + 131070

variable {it : FileTlvIter}

theorem iterRound_of_bounds (h : IterBounds it) (hlt : it.tlvOff < it.tlvEnd) : IterRound it := by
  have hend := h.end_le
  have hlt' : it.tlvOff.toNat < it.tlvEnd.toNat := hlt
  have h4 : (4 : UInt32).toNat = 4 := rfl
  have hskip : it.skipInfo.tlvOff.toNat =
      if it.hdr.ihProtectTlvSize > 0 ∧ it.tlvOff = it.protEnd then it.tlvOff.toNat + 4
      else it.tlvOff.toNat := by
    unfold FileTlvIter.skipInfo
    by_cases hat : it.hdr.ihProtectTlvSize > 0 ∧ it.tlvOff = it.protEnd
    · rw [if_pos hat, if_pos hat]
      exact toNat_add_of_lt (by omega)
    · rw [if_neg hat, if_neg hat]
  have hle : it.tlvOff.toNat ≤ it.skipInfo.tlvOff.toNat ∧
      it.skipInfo.tlvOff.toNat ≤ it.tlvOff.toNat + 4 := by
    rw [hskip]
    split <;> omega
  have hadv : ∀ len : UInt16,
      (it.skipInfo.advance len).tlvOff.toNat = it.skipInfo.tlvOff.toNat + 4 + len.toNat := by
    intro len
    have hlen := len.toNat_lt
    show (it.skipInfo.tlvOff + (4 + len.toUInt32)).toNat = _
    have hsize : (4 + len.toUInt32).toNat = 4 + len.toNat := by
      rw [toNat_add_of_lt] <;> rw [UInt16.toNat_toUInt32, h4]
      omega
    rw [toNat_add_of_lt] <;> rw [hsize] <;> omega
  refine ⟨hskip, toNat_add_of_lt (by omega), hadv, fun len => ?_⟩
  rw [UInt32.lt_iff_toNat_lt, hadv]
  omega

theorem IterBounds.advance (h : IterBounds it) (hlt : it.tlvOff < it.tlvEnd) (len : UInt16) :
    IterBounds (it.skipInfo.advance len) := by
  have hinc : it.tlvOff.toNat < (it.skipInfo.advance len).tlvOff.toNat :=
    (iterRound_of_bounds h hlt).increases len
  have hend : (it.skipInfo.advance len).tlvEnd = it.tlvEnd := skipInfo_tlvEnd it
  have hnear := h.near
  refine ⟨?_, ?_⟩
  · rw [hend]
    exact h.end_le
  · rw [hend]
    omega

theorem IterBounds.skipInfo (h : IterBounds it) (hlt : it.tlvOff < it.tlvEnd) :
    IterBounds it.skipInfo := by
  have hskip := (iterRound_of_bounds h hlt).skip
  have hnear := h.near
  refine ⟨?_, ?_⟩
  · rw [skipInfo_tlvEnd]
    exact h.end_le
  · rw [skipInfo_tlvEnd, hskip]
    split <;> omega

/-- What one round does to the iterator: it goes on behind a record, or a call ends
at it, at the info record, or behind a record it has found. -/
theorem iterBody_round (hd : Handle) (it : FileTlvIter) :
    Triple (S := Api) P.exec (fun _ => True) (fileTlvIterNextBody hd it)
      (fun r _ => r.elim
        (fun it' => it.tlvOff < it.tlvEnd ∧ ∃ len, it' = it.skipInfo.advance len)
        (fun n => (n.rc ≠ 0 ∧ n.it = it) ∨ it.tlvOff < it.tlvEnd ∧
          ((n.rc ≠ 0 ∧ n.it = it.skipInfo) ∨ n.rc = 0 ∧ ∃ len, n.it = it.skipInfo.advance len)))
      (fun _ => True) := by
  have hfree : ∀ {Q : World → Prop}, ∀ w, Q w → True := fun _ _ => True.intro
  unfold fileTlvIterNextBody
  refine triple_ite (fun hlt => ?_) (fun _ => ?_)
  · refine triple_bind (M := fun _ _ => True) (fun _ _ => ⟨fun _ _ => True.intro, True.intro⟩)
      (fun r => ?_)
    cases r with
    | error rc =>
      exact triple_ret (fun _ _ => Or.inr ⟨hlt, Or.inl ⟨show (-1 : Int) ≠ 0 by decide, rfl⟩⟩) hfree
    | ok b =>
      refine triple_ite (fun _ => ?_) (fun _ => triple_ite (fun _ => ?_) (fun _ => ?_))
      · exact triple_ret (fun _ _ => Or.inr ⟨hlt, Or.inl ⟨show (1 : Int) ≠ 0 by decide, rfl⟩⟩) hfree
      · exact triple_ret (fun _ _ => Or.inr ⟨hlt, Or.inr ⟨rfl, _, rfl⟩⟩) hfree
      · exact triple_ret (fun _ _ => ⟨hlt, _, rfl⟩) hfree
  · exact triple_ret (fun _ _ => Or.inl ⟨show (1 : Int) ≠ 0 by decide, rfl⟩) hfree

theorem iterBody_goesOn {it' : FileTlvIter} {w' : World}
    (hr : P.run (fileTlvIterNextBody hd it) w = (.inl it', w')) :
    it.tlvOff < it.tlvEnd ∧ ∃ len, it' = it.skipInfo.advance len := by
  have h := (iterBody_round P hd it w True.intro).2
  rw [show Effect.run P.exec (fileTlvIterNextBody hd it) w = _ from hr] at h
  exact h

/-- The loop of a call ends over any contents and any failures. -/
theorem iterNext_terminates (hd : Handle) (h : IterBounds it) (stuck : TlvNext) (w : World) :
    Terminates (S := Api) P.exec (fileTlvIterNextBody hd) stuck tlvFuel it w := by
  refine terminates_of_measure (I := fun it _ => IterBounds it)
    (μ := fun it => it.tlvEnd.toNat - it.tlvOff.toNat) (fun it w it' w' h hr => ?_) h ?_
  · obtain ⟨hlt, len, rfl⟩ := iterBody_goesOn P hr
    refine ⟨h.advance hlt len, ?_⟩
    have hlt' : it.tlvOff.toNat < it.tlvEnd.toNat := hlt
    have hinc : it.tlvOff.toNat < (it.skipInfo.advance len).tlvOff.toNat :=
      (iterRound_of_bounds h hlt).increases len
    have hend : (it.skipInfo.advance len).tlvEnd = it.tlvEnd := skipInfo_tlvEnd it
    rw [hend]
    omega
  · have hnear := h.near
    unfold tlvFuel lfsFileMax
    omega

/-- What a call does to the iterator: it keeps the area, and a TLV that it finds
moves it forward from a place inside the area. -/
structure Moved (it it' : FileTlvIter) (rc : Int) : Prop where
  bounds : IterBounds it'
  tlvEnd : it'.tlvEnd = it.tlvEnd
  forward : rc = 0 → it.tlvOff < it.tlvEnd ∧ it.tlvOff < it'.tlvOff

theorem iterNext_moved (hd : Handle) (h : IterBounds it) (w : World) :
    Moved it (P.run (fileTlvIterNext hd it) w).1.it (P.run (fileTlvIterNext hd it) w).1.rc := by
  obtain ⟨n, w', hleave, hrun⟩ :=
    iterNext_terminates P hd h { rc := -1, found := {}, it := it } w
  have hpost := hleave.post (Q := fun n _ => Moved it n.it n.rc)
    (I := fun it' _ => IterBounds it' ∧ it'.tlvEnd = it.tlvEnd ∧ it.tlvOff ≤ it'.tlvOff) ?_ ?_
    ⟨h, rfl, UInt32.le_refl _⟩
  · rw [show P.run (fileTlvIterNext hd it) w = _ from hrun]
    exact hpost
  · intro it₁ w₁ it₂ w₂ ⟨h₁, hend, hle⟩ hr
    obtain ⟨hlt, len, rfl⟩ := iterBody_goesOn P hr
    have hinc := (iterRound_of_bounds h₁ hlt).increases len
    exact ⟨h₁.advance hlt len, (skipInfo_tlvEnd it₁).trans hend,
      UInt32.le_of_lt (UInt32.lt_of_le_of_lt hle hinc)⟩
  · intro it₁ w₁ n w₂ ⟨h₁, hend, hle⟩ hr
    have hround := (iterBody_round P hd it₁ w₁ True.intro).2
    rw [show Effect.run P.exec (fileTlvIterNextBody hd it₁) w₁ = _ from hr] at hround
    rcases hround with ⟨hrc, hn⟩ | ⟨hlt, ⟨hrc, hn⟩ | ⟨-, len, hn⟩⟩
    · rw [hn]
      exact ⟨h₁, hend, fun h0 => absurd h0 hrc⟩
    · rw [hn]
      exact ⟨h₁.skipInfo hlt, (skipInfo_tlvEnd it₁).trans hend, fun h0 => absurd h0 hrc⟩
    · rw [hn]
      have hinc := UInt32.lt_of_le_of_lt hle ((iterRound_of_bounds h₁ hlt).increases len)
      have hin : it.tlvOff < it.tlvEnd := by
        rw [← hend]
        exact UInt32.lt_of_le_of_lt hle hlt
      exact ⟨h₁.advance hlt len, (skipInfo_tlvEnd it₁).trans hend, fun _ => ⟨hin, hinc⟩⟩

/-! ## Where iterators come from -/

/-- The iterators over the TLVs of an image: those that `file_tlv_iter_begin` starts,
and what any number of calls make of them, each call in a world of its own. -/
inductive Iterated (hd : Handle) (hdr : ImageHeader) : FileTlvIter → Prop where
  | begin {w : World} {type : UInt16} {prot : Bool} {it : FileTlvIter}
      (hit : (P.run (fileTlvIterBegin hd hdr type prot) w).1 = some it) : Iterated hd hdr it
  | next {it : FileTlvIter} (w : World) (before : Iterated hd hdr it) :
      Iterated hd hdr (P.run (fileTlvIterNext hd it) w).1.it

/-- The bounds of a new iterator are sums of header fields and one TLV size. -/
theorem iterBegin_some {type : UInt16} {prot : Bool}
    (hit : (P.run (fileTlvIterBegin hd hdr type prot) w).1 = some it) :
    it.protEnd = hashedSize hdr ∧ it.tlvOff = bootTlvOff hdr + 4 ∧
      ∃ tot : UInt16, it.tlvEnd =
        bootTlvOff hdr + hdr.ihProtectTlvSize.toUInt32 + tot.toUInt32 := by
  have hspec : Triple (S := Api) P.exec (fun _ => True) (fileTlvIterBegin hd hdr type prot)
      (fun r _ => ∀ it, r = some it → it.protEnd = hashedSize hdr ∧
        it.tlvOff = bootTlvOff hdr + 4 ∧ ∃ tot : UInt16, it.tlvEnd =
          bootTlvOff hdr + hdr.ihProtectTlvSize.toUInt32 + tot.toUInt32) (fun _ => True) := by
    have hstart : ∀ (info : ImageTlvInfo) (it : FileTlvIter),
        (if info.itMagic ≠ IMAGE_TLV_INFO_MAGIC then none
          else some ({
            hdr := hdr
            type := type
            prot := prot
            protEnd := bootTlvOff hdr + hdr.ihProtectTlvSize.toUInt32
            tlvEnd := bootTlvOff hdr + hdr.ihProtectTlvSize.toUInt32 + info.itTlvTot.toUInt32
            tlvOff := bootTlvOff hdr + 4 } : FileTlvIter)) = some it →
        it.protEnd = hashedSize hdr ∧ it.tlvOff = bootTlvOff hdr + 4 ∧ ∃ tot : UInt16,
          it.tlvEnd = bootTlvOff hdr + hdr.ihProtectTlvSize.toUInt32 + tot.toUInt32 := by
      intro info it h
      by_cases hmagic : info.itMagic ≠ IMAGE_TLV_INFO_MAGIC
      · rw [if_pos hmagic] at h
        exact absurd h.symm (Option.some_ne_none _)
      · rw [if_neg hmagic] at h
        obtain rfl := Option.some.inj h
        exact ⟨rfl, rfl, _, rfl⟩
    have hload : ∀ start size, Triple (S := Api) P.exec (fun _ => True)
        (loadImageData hd start size) (fun _ _ => True) (fun _ => True) :=
      fun _ _ _ _ => ⟨fun _ _ => True.intro, True.intro⟩
    have hfree : ∀ {Q : World → Prop}, ∀ w, Q w → True := fun _ _ => True.intro
    unfold fileTlvIterBegin
    refine triple_bind (hload _ _) (fun r => ?_)
    cases r with
    | error rc => exact triple_ret (fun _ _ it h => absurd h.symm (Option.some_ne_none _)) hfree
    | ok b =>
      refine triple_ite (fun _ => triple_ite (fun _ => ?_) (fun _ => ?_))
        (fun _ => triple_ite (fun _ => ?_) (fun _ => ?_))
      · exact triple_ret (fun _ _ it h => absurd h.symm (Option.some_ne_none _)) hfree
      · refine triple_bind (hload _ _) (fun r => ?_)
        cases r with
        | error rc => exact triple_ret (fun _ _ it h => absurd h.symm (Option.some_ne_none _)) hfree
        | ok b' => exact triple_ret (fun _ _ it h => hstart _ it h) hfree
      · exact triple_ret (fun _ _ it h => absurd h.symm (Option.some_ne_none _)) hfree
      · exact triple_ret (fun _ _ it h => hstart _ it h) hfree
  exact (hspec w True.intro).2 it hit

theorem iterBounds_of_sums (hsums : HeaderSums hdr) (hsmall : (bootTlvOff hdr).toNat < 2147483648)
    {tot : UInt16} (hoff : it.tlvOff = bootTlvOff hdr + 4)
    (hend : it.tlvEnd = bootTlvOff hdr + hdr.ihProtectTlvSize.toUInt32 + tot.toUInt32) :
    IterBounds it := by
  have hprot := hdr.ihProtectTlvSize.toNat_lt
  have htot := tot.toNat_lt
  have hfirst := hsums.firstOff
  have hlast := hsums.tlvEnd tot
  rw [← hoff] at hfirst
  rw [← hend] at hlast
  constructor <;> omega

theorem Iterated.bounds (hsums : HeaderSums hdr) (hsmall : (bootTlvOff hdr).toNat < 2147483648)
    (hit : Iterated P hd hdr it) : IterBounds it := by
  induction hit with
  | begin hit =>
    obtain ⟨-, hoff, tot, hend⟩ := iterBegin_some P hit
    exact iterBounds_of_sums hsums hsmall hoff hend
  | next w _ ih => exact (iterNext_moved P hd ih w).bounds

/-! ## The TLV loop of the validation -/

/-- One TLV moves the iterator by one call, and the loop goes on only behind a TLV
that the call has found. -/
theorem validateTlv_iter (hd : Handle) (hash : Bytes) (st : ValidateState) (w : World) :
    let n := (P.run (fileTlvIterNext hd st.it) w).1
    let r := (P.run (fileImageValidateTlv P hd hash st) w).1
    r.2.it = n.it ∧ (r.1 = 0 → n.rc = 0) := by
  intro n r
  have hfree : ∀ {Q : World → Prop}, ∀ w, Q w → True := fun _ _ => True.intro
  have hskip : ∀ {α : Type} (p : Fw α), Triple (S := Api) P.exec (fun _ => True) p
      (fun _ _ => True) (fun _ => True) := fun _ _ _ => ⟨fun _ _ => True.intro, True.intro⟩
  have hspec : Triple (S := Api) P.exec (fun w' => w' = w) (fileImageValidateTlv P hd hash st)
      (fun r _ => r.2.it = n.it ∧ (r.1 = 0 → n.rc = 0)) (fun _ => True) := by
    unfold fileImageValidateTlv
    refine triple_bind (M := fun m _ => m = n) ?_ (fun m => triple_fact fun hm => ?_)
    · intro w' hw'
      rw [hw']
      exact ⟨fun _ _ => True.intro, rfl⟩
    · rw [hm]
      refine triple_ite (fun hrc => ?_) (fun hrc => ?_)
      · exact triple_ret (fun _ _ => ⟨rfl, fun h => h⟩) hfree
      · have hrc' : n.rc = 0 := not_not.mp hrc
        have hret : ∀ (rc : Int) (st' : ValidateState), st'.it = n.it →
            Triple (S := Api) P.exec (fun _ => True) (Prog.ret (rc, st'))
              (fun r _ => r.2.it = n.it ∧ (r.1 = 0 → n.rc = 0)) (fun _ => True) :=
          fun rc st' hst => triple_ret (fun _ _ => ⟨hst, fun _ => hrc'⟩) hfree
        refine triple_ite (fun _ => hret _ _ rfl) (fun _ => triple_ite (fun _ => ?_) (fun _ =>
          triple_ite (fun _ => ?_) (fun _ => triple_ite (fun _ => ?_) (fun _ => hret _ _ rfl))))
        · refine triple_bind (hskip _) (fun v => ?_)
          cases v with
          | none => exact hret _ _ rfl
          | some u => exact hret _ _ rfl
        · refine triple_bind (hskip _) (fun v => ?_)
          cases v with
          | none => exact hret _ _ rfl
          | some keyId => exact hret _ _ rfl
        · refine triple_ite (fun _ => hret _ _ rfl) (fun _ => triple_bind (hskip _) (fun v => ?_))
          cases v with
          | none => exact hret _ _ rfl
          | some res => exact hret _ _ rfl
  exact (hspec w rfl).2

theorem validateBody_goesOn {hash : Bytes} {st st' : ValidateState} {w' : World}
    (hr : P.run (fileImgValidateBody P hd hash st) w = (.inl st', w')) :
    st'.it = (P.run (fileTlvIterNext hd st.it) w).1.it ∧
      (P.run (fileTlvIterNext hd st.it) w).1.rc = 0 := by
  obtain ⟨hit, hrc⟩ := validateTlv_iter P hd hash st w
  unfold fileImgValidateBody at hr
  rw [P.run_bind] at hr
  generalize P.run (fileImageValidateTlv P hd hash st) w = r at hr hit hrc
  obtain ⟨⟨rc, st₁⟩, w₁⟩ := r
  dsimp only at hr hit hrc
  by_cases hneg : rc < 0
  · rw [if_pos hneg] at hr
    exact absurd (congrArg Prod.fst hr) (by simp)
  · rw [if_neg hneg] at hr
    by_cases hpos : rc > 0
    · rw [if_pos hpos] at hr
      exact absurd (congrArg Prod.fst hr) (by simp)
    · rw [if_neg hpos] at hr
      obtain rfl := Sum.inl.inj (congrArg Prod.fst hr)
      exact ⟨hit, hrc (by omega)⟩

/-- The loop ends over any TLV contents and any failures. -/
theorem validateLoop_terminates (hash : Bytes) {st : ValidateState} (h : IterBounds st.it)
    (stuck : Int × ValidateState) (w : World) :
    Terminates (S := Api) P.exec (fileImgValidateBody P hd hash) stuck tlvFuel st w := by
  refine terminates_of_measure (I := fun st _ => IterBounds st.it)
    (μ := fun st => st.it.tlvEnd.toNat - st.it.tlvOff.toNat) (fun st w st' w' h hr => ?_) h ?_
  · obtain ⟨hit, hrc⟩ := validateBody_goesOn P hr
    have hmoved := iterNext_moved P hd h w
    rw [← hit] at hmoved
    obtain ⟨hin, hinc⟩ := hmoved.forward hrc
    have hin' : st.it.tlvOff.toNat < st.it.tlvEnd.toNat := hin
    have hinc' : st.it.tlvOff.toNat < st'.it.tlvOff.toNat := hinc
    refine ⟨hmoved.bounds, ?_⟩
    rw [hmoved.tlvEnd]
    omega
  · have hnear := h.near
    unfold tlvFuel lfsFileMax
    omega

/-! ## The hardware revision loop -/

/-- The sums of one round of the hardware revision loop, whatever length the record
declares. -/
structure RevRound (dataOff : UInt32) : Prop where
  advance : ∀ len : UInt16,
    (dataOff + (4 + len.toUInt32)).toNat = dataOff.toNat + 4 + len.toNat
  increases : ∀ len : UInt16, dataOff < dataOff + (4 + len.toUInt32)

/-- The end of the list is far from 2^32, and near the offset, which does not pass it
by more than one record. -/
structure RevBounds (endOff dataOff : UInt32) : Prop where
  end_le : endOff.toNat ≤ 2147549186
  near : endOff.toNat ≤ dataOff.toNat + 65535
  off_le : dataOff.toNat ≤ endOff.toNat + 65535

variable {endOff : UInt32} {s s' : HwRevScan}

theorem RevBounds.guard {dataOff : UInt32} (h : RevBounds endOff dataOff) :
    (dataOff + 4).toNat = dataOff.toNat + 4 := by
  have hend := h.end_le
  have hoff := h.off_le
  have h4 : (4 : UInt32).toNat = 4 := rfl
  exact toNat_add_of_lt (by omega)

theorem revRound_of_bounds {dataOff : UInt32} (h : RevBounds endOff dataOff) :
    RevRound dataOff := by
  have hend := h.end_le
  have hoff := h.off_le
  have h4 : (4 : UInt32).toNat = 4 := rfl
  have hadv : ∀ len : UInt16,
      (dataOff + (4 + len.toUInt32)).toNat = dataOff.toNat + 4 + len.toNat := by
    intro len
    have hlen := len.toNat_lt
    have hsize : (4 + len.toUInt32).toNat = 4 + len.toNat := by
      rw [toNat_add_of_lt] <;> rw [UInt16.toNat_toUInt32, h4]
      omega
    rw [toNat_add_of_lt] <;> rw [hsize] <;> omega
  refine ⟨hadv, fun len => ?_⟩
  rw [UInt32.lt_iff_toNat_lt, hadv]
  omega

theorem revBody_goesOn {w' : World}
    (hr : P.run (fwImgHwRevFindInFileBody P hd endOff s) w = (.inl s', w')) :
    s.dataOff + 4 ≤ endOff ∧ ∃ len : UInt16, s'.dataOff = s.dataOff + (4 + len.toUInt32) := by
  have hfree : ∀ {Q : World → Prop}, ∀ w, Q w → True := fun _ _ => True.intro
  have hskip : ∀ {α : Type} (p : Fw α), Triple (S := Api) P.exec (fun _ => True) p
      (fun _ _ => True) (fun _ => True) := fun _ _ _ => ⟨fun _ _ => True.intro, True.intro⟩
  have hspec : Triple (S := Api) P.exec (fun _ => True) (fwImgHwRevFindInFileBody P hd endOff s)
      (fun r _ => ∀ s', r = .inl s' → s.dataOff + 4 ≤ endOff ∧
        ∃ len : UInt16, s'.dataOff = s.dataOff + (4 + len.toUInt32)) (fun _ => True) := by
    have hstop : ∀ res : Bool × HwRev, Triple (S := Api) P.exec (fun _ => True)
        (Prog.ret (.inr res : HwRevScan ⊕ (Bool × HwRev))) (fun r _ => ∀ s', r = .inl s' → s.dataOff + 4 ≤ endOff ∧
          ∃ len : UInt16, s'.dataOff = s.dataOff + (4 + len.toUInt32)) (fun _ => True) :=
      fun res => triple_ret (fun _ _ s' h => absurd h Sum.inr_ne_inl) hfree
    unfold fwImgHwRevFindInFileBody
    refine triple_ite (fun hle => ?_) (fun _ => hstop _)
    refine triple_bind (hskip _) (fun rc => triple_ite (fun _ => hstop _) (fun _ => ?_))
    refine triple_bind (hskip _) (fun r => ?_)
    cases r with
    | error e => exact hstop _
    | ok b =>
      refine triple_bind (hskip _) (fun res => ?_)
      obtain ⟨ok, r⟩ := res
      refine triple_ite (fun _ => hstop _) (fun _ => triple_ite (fun _ => hstop _) (fun _ => ?_))
      refine triple_ret (fun _ _ s' h => ?_) hfree
      obtain rfl := Sum.inl.inj h
      exact ⟨hle, _, rfl⟩
  have h := (hspec w True.intro).2
  rw [show Effect.run P.exec (fwImgHwRevFindInFileBody P hd endOff s) w = _ from hr] at h
  exact h s' rfl

theorem RevBounds.next {w' : World} (h : RevBounds endOff s.dataOff)
    (hr : P.run (fwImgHwRevFindInFileBody P hd endOff s) w = (.inl s', w')) :
    RevBounds endOff s'.dataOff ∧ s.dataOff.toNat < endOff.toNat ∧
      s.dataOff.toNat < s'.dataOff.toNat := by
  obtain ⟨hle, len, hs'⟩ := revBody_goesOn P hr
  have hlen := len.toNat_lt
  have hadv := (revRound_of_bounds h).advance len
  have hguard : (s.dataOff + 4).toNat ≤ endOff.toNat := hle
  have hend := h.end_le
  have hnear := h.near
  rw [← hs'] at hadv
  rw [h.guard] at hguard
  refine ⟨⟨hend, ?_, ?_⟩, ?_, ?_⟩ <;> omega

/-- The loop ends over any TLV contents and any failures. -/
theorem revLoop_terminates (h : RevBounds endOff s.dataOff) (stuck : Bool × HwRev) (w : World) :
    Terminates (S := Api) P.exec (fwImgHwRevFindInFileBody P hd endOff) stuck hwRevFuel s w := by
  refine terminates_of_measure (I := fun s _ => RevBounds endOff s.dataOff)
    (μ := fun s => endOff.toNat - s.dataOff.toNat) (fun s w s' w' h hr => ?_) h ?_
  · obtain ⟨hnext, hin, hinc⟩ := h.next P hr
    exact ⟨hnext, by omega⟩
  · have hnear := h.near
    unfold hwRevFuel
    omega

theorem findTlvs_some {magic : UInt16} {startOffset startOff : UInt32}
    (hr : (P.run (findTlvsInFile hd magic startOffset) w).1 = some (startOff, endOff)) :
    startOff = startOffset + 4 ∧ ∃ tot : UInt16, endOff = startOffset + 4 + tot.toUInt32 := by
  have hfree : ∀ {Q : World → Prop}, ∀ w, Q w → True := fun _ _ => True.intro
  have hskip : ∀ {α : Type} (p : Fw α), Triple (S := Api) P.exec (fun _ => True) p
      (fun _ _ => True) (fun _ => True) := fun _ _ _ => ⟨fun _ _ => True.intro, True.intro⟩
  have hspec : Triple (S := Api) P.exec (fun _ => True) (findTlvsInFile hd magic startOffset)
      (fun r _ => ∀ a b, r = some (a, b) → a = startOffset + 4 ∧
        ∃ tot : UInt16, b = startOffset + 4 + tot.toUInt32) (fun _ => True) := by
    have hnone : Triple (S := Api) P.exec (fun _ => True)
        (Prog.ret (none : Option (UInt32 × UInt32))) (fun r _ => ∀ a b, r = some (a, b) →
          a = startOffset + 4 ∧ ∃ tot : UInt16, b = startOffset + 4 + tot.toUInt32)
        (fun _ => True) :=
      triple_ret (fun _ _ a b h => absurd h.symm (Option.some_ne_none _)) hfree
    unfold findTlvsInFile
    refine triple_bind (hskip _) (fun rc => triple_ite (fun _ => hnone) (fun _ => ?_))
    refine triple_bind (hskip _) (fun r => ?_)
    cases r with
    | error e => exact hnone
    | ok b =>
      refine triple_ite (fun _ => hnone) (fun _ => triple_ret (fun _ _ a b h => ?_) hfree)
      obtain ⟨rfl, rfl⟩ := Prod.mk.inj (Option.some.inj h)
      exact ⟨rfl, _, rfl⟩
  exact (hspec w True.intro).2 _ _ hr

theorem revBounds_start (hsums : HeaderSums hdr) (hsmall : (bootTlvOff hdr).toNat < 2147483648)
    {tot : UInt16} {startOff : UInt32} (hstart : startOff = bootTlvOff hdr + 4)
    (hend : endOff = bootTlvOff hdr + 4 + tot.toUInt32) : RevBounds endOff startOff := by
  have htot := tot.toNat_lt
  have hfirst := hsums.firstOff
  have hlast := hsums.revEnd tot
  rw [← hstart] at hfirst
  rw [← hend] at hlast
  constructor <;> omega

/-! ## The whole validation -/

/-- The arithmetic of a validation of the file `d` with the header `hdr`, in any
environment: every sum is that of the natural numbers, offsets only grow, and every
loop ends. -/
structure ValidationSums (hd : Handle) (d : FileData) (hdr : ImageHeader) (tmpBufSz : UInt32) :
    Prop where
  header : HeaderSums hdr
  hashEnds : ∀ seed w, Terminates (S := Api) P.exec
    (fileImgHashBody P hd (hashedSize hdr) tmpBufSz) (.error (-1)) ((hashedSize hdr).toNat + 1)
    (0, seededCtx P seed) w
  hashRound : ∀ seed w s w', Rounds (S := Api) P.exec
    (fileImgHashBody P hd (hashedSize hdr) tmpBufSz) (0, seededCtx P seed) w s w' →
    s.1 < hashedSize hdr → HashRound (hashedSize hdr) tmpBufSz s.1
  iterStart : ∀ w type prot it, (P.run (fileTlvIterBegin hd hdr type prot) w).1 = some it →
    it.protEnd = hashedSize hdr ∧ it.tlvOff = bootTlvOff hdr + 4 ∧
      ∃ tot : UInt16, it.tlvEnd = bootTlvOff hdr + hdr.ihProtectTlvSize.toUInt32 + tot.toUInt32
  iterEnds : ∀ it, Iterated P hd hdr it → ∀ w, Terminates (S := Api) P.exec
    (fileTlvIterNextBody hd) { rc := -1, found := {}, it := it } tlvFuel it w
  iterRound : ∀ it, Iterated P hd hdr it → ∀ w it' w',
    Rounds (S := Api) P.exec (fileTlvIterNextBody hd) it w it' w' → it'.tlvOff < it'.tlvEnd →
    IterRound it'
  iterForward : ∀ it, Iterated P hd hdr it → ∀ w, (P.run (fileTlvIterNext hd it) w).1.rc = 0 →
    it.tlvOff < (P.run (fileTlvIterNext hd it) w).1.it.tlvOff
  tlvsEnd : ∀ st, Iterated P hd hdr st.it → ∀ hash w, Terminates (S := Api) P.exec
    (fileImgValidateBody P hd hash) (-1, st) tlvFuel st w
  tlvsRound : ∀ st, Iterated P hd hdr st.it → ∀ hash w st' w',
    Rounds (S := Api) P.exec (fileImgValidateBody P hd hash) st w st' w' →
    Iterated P hd hdr st'.it
  revHeader : ∀ w w' b, Reading False hd d w → P.run (fsSeek hd 0 .set) w = (0, w') →
    (P.run (fsRead hd imageHeaderSize) w').1 = .ok b → b.length = imageHeaderSize →
    ImageHeader.decode b = hdr
  revStart : ∀ w startOff endOff,
    (P.run (findTlvsInFile hd IMAGE_TLV_PROT_INFO_MAGIC (bootTlvOff hdr)) w).1 =
      some (startOff, endOff) →
    startOff = bootTlvOff hdr + 4 ∧ ∃ tot : UInt16, endOff = bootTlvOff hdr + 4 + tot.toUInt32
  revEnds : ∀ tot : UInt16, ∀ tlv r stuck w, Terminates (S := Api) P.exec
    (fwImgHwRevFindInFileBody P hd (bootTlvOff hdr + 4 + tot.toUInt32)) stuck hwRevFuel
    { dataOff := bootTlvOff hdr + 4, tlv := tlv, hwRev := r } w
  revRound : ∀ tot : UInt16, ∀ tlv r w s w', Rounds (S := Api) P.exec
    (fwImgHwRevFindInFileBody P hd (bootTlvOff hdr + 4 + tot.toUInt32))
    { dataOff := bootTlvOff hdr + 4, tlv := tlv, hwRev := r } w s w' →
    (s.dataOff + 4).toNat = s.dataOff.toNat + 4 ∧ RevRound s.dataOff

/-- The header that the search for the hardware revision reads again is the one that
was loaded. -/
theorem reread_header (w w' : World) {b : Bytes} (hw : Reading False hd d w)
    (hseek : P.run (fsSeek hd 0 .set) w = (0, w'))
    (hread : (P.run (fsRead hd imageHeaderSize) w').1 = .ok b)
    (hlen : b.length = imageHeaderSize) : ImageHeader.decode b = fileHeader d := by
  obtain ⟨f, hf, rfl⟩ := hw.isOpen
  have hmove := run_fsSeek_set P hf 0
  rw [hseek] at hmove
  have hw' : w' = w.tick.setOpened (moveFile hd 0 w.opened) := by
    rcases hmove with ⟨-, heq⟩ | ⟨-, rc, heq⟩ | ⟨-, heq⟩
    · exact congrArg Prod.snd heq
    · exact absurd (congrArg Prod.fst heq) (by simp)
    · exact absurd (congrArg Prod.fst heq) (show ¬ (0 : Int) = -EINVAL by decide)
  have hf' : lookupFile hd w'.opened = some { f with pos := 0 } := by
    rw [hw']
    exact lookupFile_moveFile 0 hf
  rcases run_fsRead_cases P hf' imageHeaderSize with ⟨-, rc, heq⟩ | ⟨n, hn, -, heq⟩
  · rw [heq] at hread
    exact absurd hread (by simp)
  · rw [heq] at hread
    obtain rfl := Except.ok.inj hread
    rw [slice_length] at hlen
    obtain rfl : n = imageHeaderSize := by omega
    rfl

/-- For every file whose header loads and whose size passes the check of
`validate_file` against a partition of at most 2^31 bytes, no 32-bit sum of the
validation wraps and every loop of it ends. -/
theorem validation_sums {f : OpenFile} (hf : lookupFile hd w.opened = some f) (hpos : f.pos = 0)
    {imgSize : UInt32} (hload : (P.run (loadImageHeaderFromFile hd) w).1 = some (hdr, imgSize))
    {dstFaSize : Nat} (hsize : imgSize.toNat < dstFaSize) (hdst : dstFaSize ≤ 2147483648)
    {tmpBufSz : UInt32} (htmp : 0 < tmpBufSz) : ValidationSums P hd f.data hdr tmpBufSz := by
  obtain ⟨hhdr, hsum⟩ := (loadHeader_triple P hd hpos w hf).2 hdr imgSize hload
  have hsums : HeaderSums hdr := headerSums_of_lt (by omega)
  have hsmall : (bootTlvOff hdr).toNat < 2147483648 := by
    rw [hsums.tlvOff]
    omega
  have hbounds : ∀ it, Iterated P hd hdr it → IterBounds it :=
    fun it hit => hit.bounds P hsums hsmall
  have hrev : ∀ tot : UInt16,
      RevBounds (bootTlvOff hdr + 4 + tot.toUInt32) (bootTlvOff hdr + 4) :=
    fun tot => revBounds_start hsums hsmall rfl rfl
  refine
    { header := hsums
      hashEnds := fun seed w => hashLoop_terminates P htmp _ w
      hashRound := fun _ _ s _ _ hlt => hashRound_of_lt htmp hlt
      iterStart := fun w type prot it hit => iterBegin_some P hit
      iterEnds := fun it hit w => iterNext_terminates P hd (hbounds it hit) _ w
      iterRound := ?_
      iterForward := fun it hit w hrc => ((iterNext_moved P hd (hbounds it hit) w).forward hrc).2
      tlvsEnd := fun st hit hash w => validateLoop_terminates P hash (hbounds st.it hit) _ w
      tlvsRound := ?_
      revHeader := fun w w' b hw hseek hread hlen =>
        (reread_header P w w' hw hseek hread hlen).trans hhdr.symm
      revStart := fun w startOff endOff hr => findTlvs_some P hr
      revEnds := fun tot tlv r stuck w => revLoop_terminates P (hrev tot) stuck w
      revRound := ?_ }
  · intro it hit w it' w' hr hlt
    refine iterRound_of_bounds (hr.invariant (I := fun it _ => IterBounds it) ?_
      (hbounds it hit)) hlt
    intro it₁ w₁ it₂ w₂ h₁ hround
    obtain ⟨hlt₁, len, rfl⟩ := iterBody_goesOn P hround
    exact h₁.advance hlt₁ len
  · intro st hit hash w st' w' hr
    refine hr.invariant (I := fun st _ => Iterated P hd hdr st.it) ?_ hit
    intro st₁ w₁ st₂ w₂ h₁ hround
    rw [(validateBody_goesOn P hround).1]
    exact .next w₁ h₁
  · intro tot tlv r w s w' hr
    have hs := hr.invariant (I := fun s _ => RevBounds (bootTlvOff hdr + 4 + tot.toUInt32) s.dataOff)
      (fun s w s' w' h hround => (h.next P hround).1) (hrev tot)
    exact ⟨hs.guard, revRound_of_bounds hs⟩

/-- The reference image, for a partition of 4096 bytes and a buffer of 7. -/
theorem signedFile_sums : ValidationSums (Reference.platform 8) 0 Reference.signedFile
    Reference.imageHeader 7 := by
  have hopen : (openWorld Reference.signedFile).opened =
      (0, { name := .app, data := Reference.signedFile, pos := 0 }) :: [] := rfl
  have hload := run_loadHeaderFromFile (Reference.platform 8)
    (w := openWorld Reference.signedFile) (fun _ _ => rfl) hopen rfl
  have hheader : loadedHeader Reference.signedFile = some (Reference.imageHeader, 40) := by
    decide +kernel
  exact validation_sums (Reference.platform 8) (w := openWorld Reference.signedFile)
    (f := { name := .app, data := Reference.signedFile, pos := 0 }) rfl rfl (hload.trans hheader)
    (show (40 : UInt32).toNat < 4096 by decide) (by decide) (by decide)

end RuuviMcuboot
