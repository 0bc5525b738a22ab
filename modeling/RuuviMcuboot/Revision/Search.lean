/-
The two searches for the hardware revision are scans.

Each function is evaluated on the contents it reads, the one in a file against an
open file and the one in flash in a world where nothing fails.  Behind the end of a
file the search goes on with what is left of the last header, but finds nothing any
more.
-/
import RuuviMcuboot.Platform.LocalRead
import RuuviMcuboot.Revision.Scan

namespace RuuviMcuboot

open Binary Effect

variable (P : Platform) {w : World} {hd : Handle} {d : FileData} {r : HwRev}

/-- The two record types are different. -/
def RevTypesDiffer : Prop := P.ruuviHwRevIdTlv ≠ P.ruuviHwRevNameTlv

variable {P}

/-! ## The search in a file -/

/-- What a handler answers for the outcome of one TLV. -/
def takenOr (r : HwRev) : Option HwRev → Bool × HwRev
  | none => (false, r)
  | some r' => (true, r')

theorem takenOr_some (r r' : HwRev) : ¬ (takenOr r (some r')).1 = false := by
  simp [takenOr]

theorem fileOps_handleId {tlv : ImageTlv} {pos : Nat} (hid : tlv.itType = P.ruuviHwRevIdTlv) :
    (Effect.run (fileOps d) (fwImgHwRevHandleTlvId P tlv hd r) pos).1 =
      takenOr r (if tlv.itLen.toNat ≠ 4 ∨ r.hwRevNum ≠ 0 then none
        else some { r with hwRevNum := u32FromBytesBe (slice d.bytes pos tlv.itLen.toNat) }) := by
  unfold fwImgHwRevHandleTlvId
  rw [if_pos hid]
  by_cases hlen : tlv.itLen.toNat ≠ 4
  · rw [if_pos hlen, if_pos (Or.inl hlen)]
    rfl
  · rw [if_neg hlen]
    by_cases hnum : r.hwRevNum ≠ 0
    · rw [if_pos hnum, if_pos (Or.inr hnum)]
      rfl
    · rw [if_neg hnum, if_neg (not_or.mpr ⟨hlen, hnum⟩), not_not.mp hlen]
      rfl

theorem fileOps_handleName {tlv : ImageTlv} {pos : Nat} (hname : tlv.itType = P.ruuviHwRevNameTlv) :
    (Effect.run (fileOps d) (fwImgHwRevHandleTlvName P tlv hd r) pos).1 =
      takenOr r (if tlv.itLen.toNat ≥ hwRevNameSize ∨ r.nameEmpty = false then none
        else some (r.putName tlv.itLen.toNat (slice d.bytes pos tlv.itLen.toNat))) := by
  unfold fwImgHwRevHandleTlvName
  rw [if_pos hname]
  by_cases hlen : tlv.itLen.toNat ≥ hwRevNameSize
  · rw [if_pos hlen, if_pos (Or.inl hlen)]
    rfl
  · rw [if_neg hlen]
    by_cases hempty : r.nameEmpty = false
    · rw [if_pos hempty, if_pos (Or.inr hempty)]
      rfl
    · rw [if_neg hempty, if_neg (not_or.mpr ⟨hlen, hempty⟩)]
      rfl

/-- The handler takes a TLV as the scan does, with the payload at the position of
the file. -/
theorem fileOps_handle (hne : RevTypesDiffer P) (tlv : ImageTlv) (r : HwRev) (off pos : Nat) :
    (Effect.run (fileOps d) (fwImgHwRevHandleTlvHwRevInFile P tlv hd r) pos).1 =
      takenOr r (revTake P r (.ofHdr off tlv (some (slice d.bytes pos tlv.itLen.toNat)))) := by
  unfold fwImgHwRevHandleTlvHwRevInFile revTake RevTlv.ofHdr
  dsimp only
  by_cases hid : tlv.itType = P.ruuviHwRevIdTlv
  · have hname : ¬ tlv.itType = P.ruuviHwRevNameTlv := fun h => hne (hid.symm.trans h)
    rw [Effect.run_bind, fileOps_handleId hid, if_pos hid]
    by_cases hbad : tlv.itLen.toNat ≠ 4 ∨ r.hwRevNum ≠ 0
    · rw [if_pos hbad, if_pos hbad]
      rfl
    · rw [if_neg hbad, if_neg hbad, if_neg (takenOr_some _ _)]
      unfold fwImgHwRevHandleTlvName
      rw [if_neg hname]
      rfl
  · have hskip : Effect.run (fileOps d) (fwImgHwRevHandleTlvId P tlv hd r) pos = ((true, r), pos) := by
      unfold fwImgHwRevHandleTlvId
      rw [if_neg hid]
      rfl
    rw [Effect.run_bind_of hskip, if_neg hid]
    dsimp only
    rw [if_neg (by decide)]
    by_cases hname : tlv.itType = P.ruuviHwRevNameTlv
    · rw [fileOps_handleName hname, if_pos hname]
      rfl
    · unfold fwImgHwRevHandleTlvName
      rw [if_neg hname, if_neg hname]
      rfl

/-- One round that has found its TLV header, whatever is left in the buffer from the
round before. -/
theorem fileOps_round (hne : RevTypesDiffer P) {endOff : UInt32} {s : HwRevScan} {pos : Nat}
    (hend : s.dataOff + 4 ≤ endOff) (hmax : s.dataOff.toNat ≤ lfsFileMax) :
    let b := slice d.bytes s.dataOff.toNat tlvHdrSize
    let raw := overlay s.tlv 0 b
    let tlv := ImageTlv.decode raw
    (Effect.run (fileOps d) (fwImgHwRevFindInFileBody P hd endOff s) pos).1 =
      (revStep P s.hwRev (.ofHdr s.dataOff.toNat tlv
        (some (slice d.bytes (s.dataOff.toNat + b.length) tlv.itLen.toNat)))).elim
        (fun r' => .inl { dataOff := s.dataOff + (4 + tlv.itLen.toUInt32), tlv := raw, hwRev := r' })
        .inr := by
  intro b raw tlv
  have hseek : Effect.run (fileOps d) (fsSeek hd (toOffT s.dataOff) .set) pos =
      (0, s.dataOff.toNat) := by
    rw [toOffT_of_le hmax]
    exact fileOps_fsSeek_set d pos hmax
  unfold fwImgHwRevFindInFileBody
  rw [if_pos hend, Effect.run_bind_of hseek, if_neg (by decide),
    Effect.run_bind_of (fileOps_fsRead d _ _)]
  dsimp only
  rw [Effect.run_bind, fileOps_handle hne _ _ s.dataOff.toNat]
  unfold revStep
  cases htake : revTake P s.hwRev (.ofHdr s.dataOff.toNat tlv
      (some (slice d.bytes (s.dataOff.toNat + b.length) tlv.itLen.toNat))) with
  | none => rfl
  | some r' =>
    dsimp only
    rw [if_neg (takenOr_some _ _)]
    by_cases hdone : r'.Complete
    · rw [if_pos hdone]
      exact congrArg (fun p => (Effect.run (fileOps d) p _).1) (if_pos hdone)
    · rw [if_neg hdone]
      exact congrArg (fun p => (Effect.run (fileOps d) p _).1) (if_neg hdone)

/-- The result of a search agrees with a scan: they are equal, or both have failed
with records that agree on what counts. -/
def Matches (res m : Bool × HwRev) : Prop :=
  res = m ∨ res.1 = false ∧ m.1 = false ∧ res.2.Same m.2

theorem Matches.fst {res m : Bool × HwRev} (h : Matches res m) : res.1 = m.1 := by
  rcases h with rfl | ⟨hres, hm, -⟩
  · rfl
  · rw [hres, hm]

theorem Matches.same {res m : Bool × HwRev} (h : Matches res m) : res.2.Same m.2 := by
  rcases h with rfl | ⟨-, -, hsame⟩
  · exact .refl _
  · exact hsame

/-- A payload of which nothing can be read does not change what counts. -/
theorem revTake_nothing {r r' : HwRev} {t : RevTlv} (hread : t.payload = some [])
    (h : revTake P r t = some r') : r'.Same r := by
  unfold revTake at h
  by_cases hid : t.type = P.ruuviHwRevIdTlv
  · rw [if_pos hid] at h
    by_cases hbad : t.len.toNat ≠ 4 ∨ r.hwRevNum ≠ 0
    · rw [if_pos hbad] at h
      exact absurd h (by simp)
    · rw [if_neg hbad, hread] at h
      obtain rfl := Option.some.inj h
      have hnum : r.hwRevNum = 0 := not_not.mp (not_or.mp hbad).2
      exact ⟨hnum.symm, rfl⟩
  · rw [if_neg hid] at h
    by_cases hname : t.type = P.ruuviHwRevNameTlv
    · rw [if_pos hname] at h
      by_cases hbad : t.len.toNat ≥ hwRevNameSize ∨ r.nameEmpty = false
      · rw [if_pos hbad] at h
        exact absurd h (by simp)
      · rw [if_neg hbad, hread] at h
        obtain rfl := Option.some.inj h
        have hempty : cString r.hwRevName = [] :=
          (nameEmpty_iff r).mp (Bool.not_eq_false _ ▸ (not_or.mp hbad).2)
        refine ⟨rfl, ?_⟩
        -- the terminator goes to a place where it ends nothing
        rw [hempty, cString_eq_nil]
        have hhead := cString_eq_nil.mp hempty
        show (overlay (overlay r.hwRevName 0 []) t.len.toNat [0]).headD 0 = 0
        rw [overlay_nil]
        cases hb : r.hwRevName with
        | nil => simp [overlay]
        | cons x rest =>
          rw [hb] at hhead
          cases hlen : t.len.toNat with
          | zero => simp [overlay]
          | succ n =>
            simp only [overlay, List.take_succ_cons, List.cons_append, List.headD_cons]
            exact hhead
    · rw [if_neg hname] at h
      obtain rfl := Option.some.inj h
      exact .refl _

/-- A TLV header that the file ends in front of or inside: nothing is found from
there on. -/
theorem revStep_nothing {r : HwRev} {t : RevTlv} (hread : t.payload = some [])
    (hr : ¬ r.Complete) :
    revStep P r t = .inr (false, r) ∨ ∃ r', revStep P r t = .inl r' ∧ r'.Same r := by
  unfold revStep
  cases htake : revTake P r t with
  | none => exact Or.inl rfl
  | some r' =>
    have hsame := revTake_nothing hread htake
    dsimp only
    rw [if_neg (fun h => hr (hsame.complete.mp h))]
    exact Or.inr ⟨r', rfl, hsame⟩

theorem revStep_inl {r r' : HwRev} {t : RevTlv} (h : revStep P r t = .inl r') : ¬ r'.Complete := by
  unfold revStep at h
  cases htake : revTake P r t with
  | none =>
    rw [htake] at h
    exact absurd h (by simp)
  | some r₁ =>
    rw [htake] at h
    dsimp only at h
    by_cases hdone : r₁.Complete
    · rw [if_pos hdone] at h
      exact absurd h (by simp)
    · rw [if_neg hdone] at h
      exact Sum.inl.inj h ▸ hdone

/-- Offsets of the walk stay below this bound. -/
def revOffMax : Nat := lfsFileMax + 65539

theorem toNat_add_four {x : UInt32} (hx : x.toNat ≤ revOffMax) : (x + 4).toNat = x.toNat + 4 := by
  rw [UInt32.toNat_add, Nat.mod_eq_of_lt]
  · rfl
  · have : (4 : UInt32).toNat = 4 := rfl
    unfold revOffMax lfsFileMax at hx
    omega

theorem le_revOffMax {n : Nat} (hn : n ≤ lfsFileMax) : n ≤ revOffMax :=
  Nat.le_trans hn (Nat.le_add_right _ _)

/-- The walk starts in range, with enough rounds ahead. -/
theorem revStart {o : UInt32} (ho : o.toNat ≤ lfsFileMax) :
    (o + 4).toNat = o.toNat + 4 ∧ (o + 4).toNat ≤ revOffMax ∧
      revOffMax < hwRevFuel + (o + 4).toNat := by
  have hstart := toNat_add_four (le_revOffMax ho)
  unfold revOffMax hwRevFuel lfsFileMax at *
  omega

theorem toNat_advance {x : UInt32} (hx : x.toNat ≤ lfsFileMax) (len : UInt16) :
    (x + (4 + len.toUInt32)).toNat = x.toNat + 4 + len.toNat := by
  have hlen := len.toNat_lt
  have h4 : (4 : UInt32).toNat = 4 := rfl
  unfold lfsFileMax at hx
  rw [UInt32.toNat_add, UInt32.toNat_add, UInt16.toNat_toUInt32, h4, Nat.mod_eq_of_lt (by omega),
    Nat.mod_eq_of_lt (by omega)]
  omega

theorem revWalk_short {read : Nat → Nat → Option Bytes} {b : Bytes} {tlvsEnd off : Nat}
    (h : ¬ (off + 4 ≤ tlvsEnd ∧ off + 4 ≤ b.length)) (n : Nat) :
    revWalk read b tlvsEnd n off = [] := by
  cases n with
  | zero => rfl
  | succ n => exact if_neg h

/-- The loop of the search in a file, by induction on the rounds. -/
theorem fileOps_revLoop (hne : RevTypesDiffer P) {endOff : UInt32} {r₀ : HwRev} (fuel : Nat) :
    ∀ s pos n, s.tlv.length = tlvHdrSize → ¬ s.hwRev.Complete → s.dataOff.toNat ≤ revOffMax →
      revOffMax < fuel + s.dataOff.toNat → d.bytes.length ≤ n + s.dataOff.toNat →
      Matches
        (Effect.run (fileOps d)
          (Prog.loop (fwImgHwRevFindInFileBody P hd endOff) (false, r₀) fuel s) pos).1
        (revScan P (revWalk (fileRead d.bytes) d.bytes endOff.toNat n s.dataOff.toNat)
          s.hwRev) := by
  induction fuel with
  | zero =>
    intro s pos n _ _ hoff hfuel _
    omega
  | succ fuel ih =>
    intro s pos n htlv hopen hoff hfuel hn
    show Matches (Effect.run (fileOps d) (fwImgHwRevFindInFileBody P hd endOff s >>= _) pos).1 _
    rw [Effect.run_bind]
    by_cases hend : s.dataOff + 4 ≤ endOff
    · by_cases hmax : s.dataOff.toNat ≤ lfsFileMax
      · have hround : (Effect.run (fileOps d) (fwImgHwRevFindInFileBody P hd endOff s) pos).1 = _ :=
          fileOps_round hne hend hmax
        rw [hround]
        have hend' : s.dataOff.toNat + 4 ≤ endOff.toNat := by
          rw [← toNat_add_four hoff]
          exact UInt32.le_iff_toNat_le.mp hend
        by_cases hfull : s.dataOff.toNat + 4 ≤ d.bytes.length
        · -- the header is read in full
          have hlen : (slice d.bytes s.dataOff.toNat tlvHdrSize).length = tlvHdrSize :=
            slice_length_of_le hfull
          rw [overlay_all (hlen.trans htlv.symm), hlen]
          obtain ⟨n, rfl⟩ : ∃ m, n = m + 1 := ⟨n - 1, by omega⟩
          have hwalk : revWalk (fileRead d.bytes) d.bytes endOff.toNat (n + 1) s.dataOff.toNat = _ :=
            if_pos ⟨hend', hfull⟩
          rw [hwalk]
          have hat : RevTlv.ofHdr s.dataOff.toNat
              (ImageTlv.decode (slice d.bytes s.dataOff.toNat tlvHdrSize))
              (some (slice d.bytes (s.dataOff.toNat + tlvHdrSize)
                (ImageTlv.decode (slice d.bytes s.dataOff.toNat tlvHdrSize)).itLen.toNat)) =
              revTlvAt (fileRead d.bytes) d.bytes s.dataOff.toNat := rfl
          rw [hat]
          cases hstep : revStep P s.hwRev (revTlvAt (fileRead d.bytes) d.bytes s.dataOff.toNat) with
          | inr res =>
            rw [revScan_inr P hstep]
            exact Or.inl rfl
          | inl r' =>
            rw [revScan_inl P hstep]
            have hnext := toNat_advance hmax
              (ImageTlv.decode (slice d.bytes s.dataOff.toNat tlvHdrSize)).itLen
            have hlast : (revTlvAt (fileRead d.bytes) d.bytes s.dataOff.toNat).last =
                s.dataOff.toNat + 4 +
                  (ImageTlv.decode (slice d.bytes s.dataOff.toNat tlvHdrSize)).itLen.toNat := rfl
            have hlt := (ImageTlv.decode (slice d.bytes s.dataOff.toNat tlvHdrSize)).itLen.toNat_lt
            rw [hlast, ← hnext]
            refine ih _ _ n hlen (revStep_inl hstep) ?_ ?_ ?_ <;> dsimp only <;> rw [hnext]
            · unfold revOffMax
              omega
            · omega
            · omega
        · -- the file ends inside the header or in front of it
          have hempty : slice d.bytes (s.dataOff.toNat +
              (slice d.bytes s.dataOff.toNat tlvHdrSize).length)
                (ImageTlv.decode (overlay s.tlv 0
                  (slice d.bytes s.dataOff.toNat tlvHdrSize))).itLen.toNat = [] := by
            apply List.eq_nil_of_length_eq_zero
            rw [slice_length, slice_length]
            unfold tlvHdrSize
            omega
          have hwalk : ∀ m k, s.dataOff.toNat ≤ k →
              revWalk (fileRead d.bytes) d.bytes endOff.toNat m k = [] :=
            fun m k hk => revWalk_short (by omega) m
          have hraw : (overlay s.tlv 0 (slice d.bytes s.dataOff.toNat tlvHdrSize)).length =
              tlvHdrSize := (overlay_length _ _ _).trans htlv
          rw [hempty, hwalk n _ (Nat.le_refl _)]
          generalize overlay s.tlv 0 (slice d.bytes s.dataOff.toNat tlvHdrSize) = raw at hraw ⊢
          generalize (Effect.run (fileOps d) (fwImgHwRevFindInFileBody P hd endOff s) pos).2 = pos'
          rcases revStep_nothing (P := P) (t := .ofHdr s.dataOff.toNat (ImageTlv.decode raw) (some []))
            rfl hopen with hstop | ⟨r', hgo, hsame⟩
          · rw [hstop]
            exact Or.inl rfl
          · rw [hgo]
            have hnext := toNat_advance hmax (ImageTlv.decode raw).itLen
            have hlt := (ImageTlv.decode raw).itLen.toNat_lt
            have hrest := ih
              ⟨s.dataOff + (4 + (ImageTlv.decode raw).itLen.toUInt32), raw, r'⟩ pos' n hraw
              (revStep_inl hgo) (by dsimp only; rw [hnext]; unfold revOffMax; omega)
              (by dsimp only; rw [hnext]; omega) (by dsimp only; rw [hnext]; omega)
            dsimp only at hrest
            rw [hnext, hwalk n _ (by omega), revScan_nil] at hrest
            rw [revScan_nil]
            exact Or.inr ⟨hrest.fst, rfl, hrest.same.trans hsame⟩
      · -- the seek fails
        have hbad : ¬ (0 ≤ toOffT s.dataOff ∧ toOffT s.dataOff ≤ lfsFileMax) := by
          have := toOffT_neg hmax
          omega
        have hbody : (Effect.run (fileOps d) (fwImgHwRevFindInFileBody P hd endOff s) pos).1 =
            .inr (false, s.hwRev) := by
          unfold fwImgHwRevFindInFileBody
          rw [if_pos hend, Effect.run_bind_of (fileOps_fsSeek_bad d pos hbad),
            if_pos (by decide)]
          rfl
        have hmaxd := d.size_le
        rw [hbody, revWalk_short (by omega) n]
        exact Or.inl rfl
    · have hbody : (Effect.run (fileOps d) (fwImgHwRevFindInFileBody P hd endOff s) pos).1 =
          .inr (false, s.hwRev) := by
        unfold fwImgHwRevFindInFileBody
        rw [if_neg hend]
        rfl
      have hend' : ¬ s.dataOff.toNat + 4 ≤ endOff.toNat := by
        rw [← toNat_add_four hoff]
        exact fun h => hend (UInt32.le_iff_toNat_le.mpr h)
      rw [hbody, revWalk_short (fun h => hend' h.1) n]
      exact Or.inl rfl

theorem clear_open (r : HwRev) : ¬ r.clear.Complete := fun h => h.2 rfl

/-- The info header is looked for behind the image. -/
theorem fileOps_findTlvs (magic : UInt16) {o : UInt32} (pos : Nat) (ho : o.toNat ≤ lfsFileMax) :
    let info := ImageTlvInfo.decode (slice d.bytes o.toNat tlvHdrSize)
    (Effect.run (fileOps d) (findTlvsInFile hd magic o) pos).1 =
      if info.itMagic ≠ magic then none else some (o + 4, o + 4 + info.itTlvTot.toUInt32) := by
  intro info
  have hseek : Effect.run (fileOps d) (fsSeek hd (toOffT o) .set) pos = (0, o.toNat) := by
    rw [toOffT_of_le ho]
    exact fileOps_fsSeek_set d pos ho
  unfold findTlvsInFile
  rw [Effect.run_bind_of hseek, if_neg (by decide), Effect.run_bind_of (fileOps_fsRead d _ _)]
  by_cases hmagic : info.itMagic ≠ magic
  · rw [if_pos hmagic]
    exact congrArg (fun p => (Effect.run (fileOps d) p _).1) (if_pos hmagic)
  · rw [if_neg hmagic]
    exact congrArg (fun p => (Effect.run (fileOps d) p _).1) (if_neg hmagic)

theorem toNat_tlvsEnd {o : UInt32} (ho : o.toNat ≤ lfsFileMax) (tot : UInt16) :
    (o + 4 + tot.toUInt32).toNat = o.toNat + 4 + tot.toNat := by
  rw [UInt32.add_assoc]
  exact toNat_advance ho tot

/-- A list that starts behind the end of the contents is empty. -/
theorem revTlvs_outside (read : Nat → Nat → Option Bytes) {b : Bytes} {o : Nat}
    (ho : b.length ≤ o) : revTlvs read b o = [] := by
  unfold revTlvs
  dsimp only
  have hnone : slice b o tlvHdrSize = [] := by
    apply List.eq_nil_of_length_eq_zero
    rw [slice_length]
    omega
  rw [hnone, if_neg (by decide)]

/-- The search in a file is a scan of the TLVs of the file. -/
theorem fileOps_findInFile (hne : RevTypesDiffer P) (r : HwRev) (pos : Nat) :
    Matches (Effect.run (fileOps d) (fwImgHwRevFindInFile P hd r) pos).1
      (fileRevScan P d.bytes r) := by
  have hseek : Effect.run (fileOps d) (fsSeek hd 0 .set) pos = (0, 0) :=
    fileOps_fsSeek_set d pos (Nat.zero_le _)
  unfold fwImgHwRevFindInFile fileRevScan
  dsimp only
  rw [Effect.run_bind_of hseek, if_neg (by decide), Effect.run_bind_of (fileOps_fsRead d _ _)]
  dsimp only
  by_cases hshort : d.bytes.length < imageHeaderSize
  · have hlen : (slice d.bytes 0 imageHeaderSize).length ≠ imageHeaderSize := by
      rw [slice_length]
      omega
    rw [if_pos hshort, if_pos hlen]
    exact Or.inl rfl
  · have hlen : (slice d.bytes 0 imageHeaderSize).length = imageHeaderSize :=
      slice_length_of_le (by omega)
    rw [if_neg hshort, if_neg (not_not.mpr hlen)]
    generalize bootTlvOff (ImageHeader.decode (slice d.bytes 0 imageHeaderSize)) = o
    rw [Effect.run_bind]
    have hmaxd := d.size_le
    by_cases ho : o.toNat ≤ lfsFileMax
    · rw [fileOps_findTlvs _ _ ho]
      by_cases hmagic : (ImageTlvInfo.decode (slice d.bytes o.toNat tlvHdrSize)).itMagic ≠
          IMAGE_TLV_PROT_INFO_MAGIC
      · rw [if_pos hmagic, revTlvs, if_neg hmagic]
        exact Or.inl rfl
      · obtain ⟨hstart, hlow, hfuel⟩ := revStart ho
        rw [if_neg hmagic, revTlvs, if_pos (not_not.mp hmagic), ← toNat_tlvsEnd ho, ← hstart]
        exact fileOps_revLoop hne _ _ _ d.bytes.length rfl (clear_open r) hlow hfuel
          (Nat.le_add_right _ _)
    · have hbad : ¬ (0 ≤ toOffT o ∧ toOffT o ≤ lfsFileMax) := by
        have := toOffT_neg ho
        omega
      have hnone : (Effect.run (fileOps d) (findTlvsInFile hd IMAGE_TLV_PROT_INFO_MAGIC o)
          (0 + (slice d.bytes 0 imageHeaderSize).length)).1 = none := by
        unfold findTlvsInFile
        rw [Effect.run_bind_of (fileOps_fsSeek_bad d _ hbad), if_pos (by decide)]
        rfl
      rw [hnone, revTlvs_outside _ (by omega)]
      exact Or.inl rfl

/-! ## The search in a flash area -/

section Flash

variable {fa : FaId} {b : Bytes}

/-- Nothing fails, and the partition holds `b`. -/
structure Holds (fa : FaId) (b : Bytes) (w : World) : Prop where
  reliable : Reliable w
  content : w.flash fa = b

theorem run_flashRead (hw : Holds fa b w) (off len : Nat) :
    P.run (flashAreaRead fa off len) w =
      ((flashRead b off len).elim (.error (-EINVAL)) .ok, w.tick) := by
  rw [run_flashAreaRead]
  simp only [Platform.exec, hw.reliable.rc?, World.tick_flash, hw.content]
  unfold flashRead
  by_cases hfit : off + len ≤ b.length
  · rw [if_pos hfit, if_pos hfit]
    rfl
  · rw [if_neg hfit, if_neg hfit]
    rfl

theorem Holds.tick (hw : Holds fa b w) : Holds fa b w.tick := ⟨hw.reliable.tick, hw.content⟩

/-- The handler takes a TLV as the scan does, and leaves the partition alone. -/
theorem run_handleInFlash (hne : RevTypesDiffer P) (hw : Holds fa b w) (tlv : ImageTlv)
    (r : HwRev) (off : Nat) (dataOff : UInt32) :
    ∃ w', Holds fa b w' ∧ P.run (fwImgHwRevHandleTlvHwRevInFlashArea P tlv fa dataOff r) w =
      (takenOr r (revTake P r
        (.ofHdr off tlv (flashRead b (dataOff + 4).toNat tlv.itLen.toNat))), w') := by
  unfold fwImgHwRevHandleTlvHwRevInFlashArea revTake RevTlv.ofHdr
  dsimp only
  by_cases hid : tlv.itType = P.ruuviHwRevIdTlv
  · have hname : ¬ tlv.itType = P.ruuviHwRevNameTlv := fun h => hne (hid.symm.trans h)
    unfold fwImgHwRevHandleTlvIdInFlashArea fwImgHwRevHandleTlvNameInFlashArea
    rw [if_pos hid, if_pos hid]
    by_cases hlen : tlv.itLen.toNat ≠ 4
    · rw [if_pos hlen, if_pos (Or.inl hlen)]
      exact ⟨w, hw, rfl⟩
    · rw [if_neg hlen]
      by_cases hnum : r.hwRevNum ≠ 0
      · rw [if_pos hnum, if_pos (Or.inr hnum)]
        exact ⟨w, hw, rfl⟩
      · rw [if_neg hnum, if_neg (not_or.mpr ⟨hlen, hnum⟩), not_not.mp hlen, P.run_bind,
          P.run_bind_of (run_flashRead hw _ _)]
        cases flashRead b (dataOff + 4).toNat 4 with
        | none => exact ⟨w.tick, hw.tick, rfl⟩
        | some c =>
          refine ⟨w.tick, hw.tick, ?_⟩
          show P.run (if true = false then _ else if tlv.itType = P.ruuviHwRevNameTlv then _
            else _) w.tick = _
          rw [if_neg (by decide), if_neg hname]
          rfl
  · have hskip : P.run (fwImgHwRevHandleTlvIdInFlashArea P tlv fa dataOff r) w = ((true, r), w) := by
      unfold fwImgHwRevHandleTlvIdInFlashArea
      rw [if_neg hid]
      rfl
    rw [P.run_bind_of hskip, if_neg hid, if_neg (show ¬ (true, r).1 = false from takenOr_some r r)]
    unfold fwImgHwRevHandleTlvNameInFlashArea
    by_cases hname : tlv.itType = P.ruuviHwRevNameTlv
    · rw [if_pos hname, if_pos hname]
      by_cases hlen : tlv.itLen.toNat ≥ hwRevNameSize
      · rw [if_pos hlen, if_pos (Or.inl hlen)]
        exact ⟨w, hw, rfl⟩
      · rw [if_neg hlen]
        by_cases hempty : r.nameEmpty = false
        · rw [if_pos hempty, if_pos (Or.inr hempty)]
          exact ⟨w, hw, rfl⟩
        · rw [if_neg hempty, if_neg (not_or.mpr ⟨hlen, hempty⟩), P.run_bind_of (run_flashRead hw _ _)]
          cases flashRead b (dataOff + 4).toNat tlv.itLen.toNat with
          | none => exact ⟨w.tick, hw.tick, rfl⟩
          | some c => exact ⟨w.tick, hw.tick, rfl⟩
    · rw [if_neg hname, if_neg hname]
      exact ⟨w, hw, rfl⟩

/-- The loop of the search in flash, by induction on the rounds. -/
theorem run_revFlashLoop (hne : RevTypesDiffer P) (hb : b.length ≤ lfsFileMax) {endOff : UInt32}
    {r₀ : HwRev} (fuel : Nat) :
    ∀ s w n, Holds fa b w → s.dataOff.toNat ≤ revOffMax → revOffMax < fuel + s.dataOff.toNat →
      b.length ≤ n + s.dataOff.toNat →
      (P.run (Prog.loop (fwImgHwRevFindInFlashAreaBody P fa endOff) (false, r₀) fuel s) w).1 =
        revScan P (revWalk (flashRead b) b endOff.toNat n s.dataOff.toNat) s.hwRev := by
  induction fuel with
  | zero =>
    intro s w n _ hoff hfuel _
    omega
  | succ fuel ih =>
    intro s w n hw hoff hfuel hn
    show (P.run (fwImgHwRevFindInFlashAreaBody P fa endOff s >>= _) w).1 = _
    by_cases hend : s.dataOff + 4 ≤ endOff
    · have hend' : s.dataOff.toNat + 4 ≤ endOff.toNat := by
        rw [← toNat_add_four hoff]
        exact UInt32.le_iff_toNat_le.mp hend
      have hread := run_flashRead (P := P) hw s.dataOff.toNat tlvHdrSize
      unfold flashRead at hread
      by_cases hfull : s.dataOff.toNat + 4 ≤ b.length
      · rw [if_pos (show s.dataOff.toNat + tlvHdrSize ≤ b.length from hfull)] at hread
        have hmax : s.dataOff.toNat ≤ lfsFileMax := by omega
        obtain ⟨n, rfl⟩ : ∃ m, n = m + 1 := ⟨n - 1, by omega⟩
        have hwalk : revWalk (flashRead b) b endOff.toNat (n + 1) s.dataOff.toNat = _ :=
          if_pos ⟨hend', hfull⟩
        rw [hwalk]
        obtain ⟨w', hw', hhandle⟩ := run_handleInFlash hne hw.tick
          (ImageTlv.decode (slice b s.dataOff.toNat tlvHdrSize)) s.hwRev s.dataOff.toNat s.dataOff
        have hat : RevTlv.ofHdr s.dataOff.toNat
            (ImageTlv.decode (slice b s.dataOff.toNat tlvHdrSize))
            (flashRead b (s.dataOff + 4).toNat
              (ImageTlv.decode (slice b s.dataOff.toNat tlvHdrSize)).itLen.toNat) =
            revTlvAt (flashRead b) b s.dataOff.toNat := by
          rw [toNat_add_four hoff]
          rfl
        rw [hat] at hhandle
        have hbody : P.run (fwImgHwRevFindInFlashAreaBody P fa endOff s) w =
            ((revStep P s.hwRev (revTlvAt (flashRead b) b s.dataOff.toNat)).elim
              (fun r' => .inl { dataOff := s.dataOff + (4 +
                (ImageTlv.decode (slice b s.dataOff.toNat tlvHdrSize)).itLen.toUInt32), hwRev := r' })
              .inr, w') := by
          unfold fwImgHwRevFindInFlashAreaBody
          rw [if_pos hend, P.run_bind_of hread]
          dsimp only [Option.elim]
          rw [P.run_bind_of hhandle]
          unfold revStep
          cases revTake P s.hwRev (revTlvAt (flashRead b) b s.dataOff.toNat) with
          | none => rfl
          | some r' =>
            dsimp only
            rw [if_neg (takenOr_some _ _)]
            by_cases hdone : r'.Complete
            · rw [if_pos hdone]
              exact congrArg (fun p => P.run p _) (if_pos hdone)
            · rw [if_neg hdone]
              exact congrArg (fun p => P.run p _) (if_neg hdone)
        rw [P.run_bind_of hbody]
        cases hstep : revStep P s.hwRev (revTlvAt (flashRead b) b s.dataOff.toNat) with
        | inr res =>
          rw [revScan_inr P hstep]
          rfl
        | inl r' =>
          rw [revScan_inl P hstep]
          have hnext := toNat_advance hmax
            (ImageTlv.decode (slice b s.dataOff.toNat tlvHdrSize)).itLen
          have hlast : (revTlvAt (flashRead b) b s.dataOff.toNat).last = s.dataOff.toNat + 4 +
              (ImageTlv.decode (slice b s.dataOff.toNat tlvHdrSize)).itLen.toNat := rfl
          have hlt := (ImageTlv.decode (slice b s.dataOff.toNat tlvHdrSize)).itLen.toNat_lt
          rw [hlast, ← hnext]
          refine ih _ _ n hw' ?_ ?_ ?_ <;> dsimp only <;> rw [hnext]
          · unfold revOffMax
            omega
          · omega
          · omega
      · -- the header passes the end of the partition
        rw [if_neg (show ¬ s.dataOff.toNat + tlvHdrSize ≤ b.length from hfull)] at hread
        have hbody : P.run (fwImgHwRevFindInFlashAreaBody P fa endOff s) w =
            (.inr (false, s.hwRev), w.tick) := by
          unfold fwImgHwRevFindInFlashAreaBody
          rw [if_pos hend, P.run_bind_of hread]
          rfl
        rw [P.run_bind_of hbody, revWalk_short (fun h => hfull h.2) n]
        rfl
    · have hbody : P.run (fwImgHwRevFindInFlashAreaBody P fa endOff s) w =
          (.inr (false, s.hwRev), w) := by
        unfold fwImgHwRevFindInFlashAreaBody
        rw [if_neg hend]
        rfl
      have hend' : ¬ s.dataOff.toNat + 4 ≤ endOff.toNat := by
        rw [← toNat_add_four hoff]
        exact fun h => hend (UInt32.le_iff_toNat_le.mpr h)
      rw [P.run_bind_of hbody, revWalk_short (fun h => hend' h.1) n]
      rfl

/-- The TLVs behind a header that was loaded. -/
theorem run_flashTlvs (hne : RevTypesDiffer P) (hb : b.length ≤ lfsFileMax) (hw : Holds fa b w)
    (o : UInt32) (r : HwRev) :
    (P.run (do
      match ← findTlvsInFlashArea fa IMAGE_TLV_PROT_INFO_MAGIC o with
      | none => return (false, r)
      | some (startOff, endOff) =>
        Prog.loop (fwImgHwRevFindInFlashAreaBody P fa endOff) (false, r) hwRevFuel
          { dataOff := startOff, hwRev := r }) w).1 =
      revScan P (revTlvs (flashRead b) b o.toNat) r := by
  have hread := run_flashRead (P := P) hw o.toNat tlvHdrSize
  unfold flashRead at hread
  by_cases hfit : o.toNat + 4 ≤ b.length
  · have ho : o.toNat ≤ lfsFileMax := by omega
    rw [if_pos (show o.toNat + tlvHdrSize ≤ b.length from hfit)] at hread
    unfold findTlvsInFlashArea revTlvs
    rw [P.run_bind, P.run_bind_of hread]
    dsimp only [Option.elim]
    by_cases hmagic : (ImageTlvInfo.decode (slice b o.toNat tlvHdrSize)).itMagic ≠
        IMAGE_TLV_PROT_INFO_MAGIC
    · rw [if_pos hmagic, if_neg hmagic]
      rfl
    · obtain ⟨hstart, hlow, hfuel⟩ := revStart ho
      rw [if_neg hmagic, if_pos (not_not.mp hmagic), ← toNat_tlvsEnd ho, ← hstart]
      exact run_revFlashLoop hne hb _ { dataOff := o + 4, hwRev := r } _ b.length hw.tick hlow hfuel
        (Nat.le_add_right _ _)
  · -- no info header, or one that passes the end of the partition
    rw [if_neg (show ¬ o.toNat + tlvHdrSize ≤ b.length from hfit)] at hread
    have hnil : revTlvs (flashRead b) b o.toNat = [] := by
      unfold revTlvs
      dsimp only
      rw [revWalk_short (by omega), ite_self]
    unfold findTlvsInFlashArea
    rw [P.run_bind, P.run_bind_of hread, hnil]
    rfl

/-- The search in an open flash area with a header that loads. -/
theorem run_findInFlashInternal (hne : RevTypesDiffer P) (hb : b.length ≤ lfsFileMax)
    {area : FlashArea} (hw : Holds area.faId b w) (hfit : imageHeaderSize ≤ b.length)
    {hdr : ImageHeader}
    (hload : P.bootImageLoadHeader area.faSize (slice b 0 imageHeaderSize) = some hdr)
    (r : HwRev) :
    (P.run (fwImgHwRevFindInFlashAreaInternal P area r) w).1 = flashRevScan P b hdr r := by
  have hread := run_flashRead (P := P) hw 0 imageHeaderSize
  unfold flashRead at hread
  rw [if_pos (by omega)] at hread
  unfold fwImgHwRevFindInFlashAreaInternal
  rw [P.run_bind_of hread]
  dsimp only [Option.elim]
  rw [hload]
  exact run_flashTlvs hne hb hw.tick _ _

/-- The search in a partition. -/
def partitionRevScan (P : Platform) (b : Bytes) (r : HwRev) : Bool × HwRev :=
  match partitionHeader P b with
  | none => (false, r.clear)
  | some hdr => flashRevScan P b hdr r.clear

theorem run_findInFlash (hne : RevTypesDiffer P) (hb : b.length ≤ lfsFileMax) (hw : Holds fa b w)
    (r : HwRev) :
    (P.run (fwImgHwRevFindInFlashArea P fa r) w).1 = partitionRevScan P b r := by
  obtain ⟨area, hfa, hsize, hopen⟩ : ∃ area : FlashArea, area.faId = fa ∧ area.faSize = b.length ∧
      P.run (flashAreaOpen fa) w = (.ok area, w.tick) := by
    refine ⟨{ faId := fa, faOff := P.faOff fa, faSize := b.length }, rfl, rfl, ?_⟩
    rw [run_flashAreaOpen]
    simp only [Platform.exec, hw.reliable.rc?, World.tick_flash, hw.content]
  have hinner : (P.run (fwImgHwRevFindInFlashAreaInternal P area r.clear) w.tick).1 =
      partitionRevScan P b r := by
    unfold partitionRevScan partitionHeader
    by_cases hfit : imageHeaderSize ≤ b.length
    · rw [if_pos hfit]
      cases hload : P.bootImageLoadHeader b.length (slice b 0 imageHeaderSize) with
      | some hdr =>
        exact run_findInFlashInternal hne hb (hfa ▸ hw.tick) hfit (hsize ▸ hload) _
      | none =>
        have hread := run_flashRead (P := P) (hfa ▸ hw.tick : Holds area.faId b w.tick) 0
          imageHeaderSize
        unfold flashRead at hread
        rw [if_pos (by omega)] at hread
        unfold fwImgHwRevFindInFlashAreaInternal
        rw [P.run_bind_of hread]
        dsimp only [Option.elim]
        rw [hsize, hload]
        rfl
    · have hread := run_flashRead (P := P) (hfa ▸ hw.tick : Holds area.faId b w.tick) 0
        imageHeaderSize
      unfold flashRead at hread
      rw [if_neg (by omega)] at hread
      unfold fwImgHwRevFindInFlashAreaInternal
      rw [if_neg hfit, P.run_bind_of hread]
      rfl
  unfold fwImgHwRevFindInFlashArea
  rw [P.run_bind_of hopen]
  dsimp only
  rw [P.run_bind, hinner, P.run_bind]
  rfl

end Flash

end RuuviMcuboot
