/-
The search in a file against the search in the partition it is copied to.

Behind the bytes of the file the partition is blank, and the header of a TLV that
reaches into the blank part declares a length that no record has.  So the two walks
meet the same TLVs, except for one that starts in the file and passes its end: the file
delivers the part that is there, the partition the blank bytes behind it or, at its own
end, nothing.
-/
import RuuviMcuboot.Revision.Found
import RuuviMcuboot.Update.Copy

namespace RuuviMcuboot

open Binary Effect

variable {P : Platform} {w : World} {hd : Handle} {d : FileData} {r : HwRev} {t : RevTlv}
  {l : List RevTlv}

/-! ## Blank bytes behind a file -/

section Blank

variable {b : Bytes} {k : Nat}

theorem slice_blank {off len : Nat} (h : off + len ≤ k) : slice (blank k) off len = blank len := by
  unfold slice blank
  rw [List.drop_replicate, List.take_replicate, Nat.min_eq_left (by omega)]

/-- A range that starts in the file or at its end. -/
theorem slice_append_blank {off len : Nat} (hoff : off ≤ b.length) (h : off + len ≤ b.length + k) :
    slice (b ++ blank k) off len =
      slice b off len ++ blank (len - (slice b off len).length) := by
  by_cases hin : off + len ≤ b.length
  · rw [slice_append_left _ hin, slice_length_of_le hin, Nat.sub_self]
    exact (List.append_nil _).symm
  · have hsplit := slice_append_slice (b ++ blank k) off (b.length - off) (len - (b.length - off))
    have hlen : b.length - off + (len - (b.length - off)) = len := by omega
    have hoff' : off + (b.length - off) = b.length + 0 := by omega
    have hfront : slice (b ++ blank k) off (b.length - off) = slice b off len := by
      rw [slice_append_left _ (by omega)]
      unfold slice
      rw [List.take_of_length_le (by simp), List.take_of_length_le (by simp; omega)]
    have hback : slice (blank k) 0 (len - (b.length - off)) = blank (len - (b.length - off)) :=
      slice_blank (by omega)
    have hshort : (slice b off len).length = b.length - off := by
      rw [slice_length]
      omega
    rw [hlen, hoff', slice_append_right, hfront, hback] at hsplit
    rw [hshort, hsplit]

/-- A TLV that the searches pass over or refuse. -/
def RevTlv.Overlong (t : RevTlv) : Prop := 0xFF00 ≤ t.len.toNat

/-- The last byte of a header that reaches into the blank part is blank. -/
theorem overlong_of_blank {read : Nat → Nat → Option Bytes} {off : Nat} (hin : b.length < off + 4)
    (hfit : off + 4 ≤ b.length + k) : (revTlvAt read (b ++ blank k) off).Overlong := by
  have hsplit := slice_append_slice (b ++ blank k) off 3 1
  obtain ⟨j, hj⟩ : ∃ j, off + 3 = b.length + j := ⟨off + 3 - b.length, by omega⟩
  rw [hj, slice_append_right, slice_blank (by omega)] at hsplit
  have hlen : (slice (b ++ blank k) off 3).length = 3 :=
    slice_length_of_le (by rw [List.length_append, blank_length]; omega)
  obtain ⟨x, y, z, hx⟩ : ∃ x y z, slice (b ++ blank k) off 3 = [x, y, z] := by
    match slice (b ++ blank k) off 3, hlen with
    | [x, y, z], _ => exact ⟨x, y, z, rfl⟩
  rw [hx] at hsplit
  show 0xFF00 ≤ (ImageTlv.decode (slice (b ++ blank k) off tlvHdrSize)).itLen.toNat
  have hhdr : slice (b ++ blank k) off tlvHdrSize = [x, y, z, 0xFF] := hsplit.symm
  rw [hhdr]
  have hval : (ImageTlv.decode [x, y, z, 0xFF]).itLen.toNat =
      (z.toNat + 256 * (255 + 256 * 0)) % 65536 := rfl
  have hz := z.toNat_lt
  omega

/-- Where the file has ended there is nothing but overlong TLVs. -/
theorem revWalk_blank {read : Nat → Nat → Option Bytes} {tlvsEnd : Nat} (n : Nat) :
    ∀ off, b.length < off + 4 →
      ∀ t ∈ revWalk read (b ++ blank k) tlvsEnd n off, t.Overlong := by
  induction n with
  | zero => exact fun off _ t ht => absurd ht (by simp [revWalk])
  | succ n ih =>
    intro off hoff t ht
    unfold revWalk at ht
    by_cases hgo : off + 4 ≤ tlvsEnd ∧ off + 4 ≤ (b ++ blank k).length
    · have hfit := hgo.2
      rw [List.length_append, blank_length] at hfit
      rw [if_pos hgo] at ht
      rcases List.mem_cons.mp ht with rfl | ht
      · exact overlong_of_blank hoff hfit
      · have hlast : off + 4 ≤ (revTlvAt read (b ++ blank k) off).last := Nat.le_add_right _ _
        exact ih _ (by omega) t ht
    · rw [if_neg hgo] at ht
      exact absurd ht (by simp)

/-! ## The two walks -/

/-- The TLV that starts in the file and passes its end, as the file and as the
partition deliver it. -/
structure CutAt (b : Bytes) (k off : Nat) (t t' : RevTlv) : Prop where
  file : t = revTlvAt (fileRead b) b off
  flash : t' = revTlvAt (flashRead (b ++ blank k)) (b ++ blank k) off
  header : off + 4 ≤ b.length
  passes : b.length < t.last

/-- The walks meet the same TLVs in the file, then perhaps one that passes its end,
and the walk in the partition goes on with overlong ones. -/
structure WalksAgree (b : Bytes) (k : Nat) (file flash pre junk : List RevTlv) : Prop where
  whole : ∀ t ∈ pre, t.last ≤ b.length
  overlong : ∀ t ∈ junk, t.Overlong
  split : (file = pre ∧ flash = pre ++ junk) ∨
    ∃ off t t', CutAt b k off t t' ∧ file = pre ++ [t] ∧ flash = pre ++ t' :: junk

theorem revTlvAt_last {read read' : Nat → Nat → Option Bytes} {c : Bytes} {off : Nat}
    (h : off + 4 ≤ b.length) : (revTlvAt read (b ++ c) off).last = (revTlvAt read' b off).last := by
  have hhdr : slice (b ++ c) off tlvHdrSize = slice b off tlvHdrSize := slice_append_left _ h
  show off + 4 + (ImageTlv.decode (slice (b ++ c) off tlvHdrSize)).itLen.toNat = _
  rw [hhdr]
  rfl

/-- A TLV that lies wholly in the file is delivered alike. -/
theorem revTlvAt_whole {off : Nat} (h : (revTlvAt (fileRead b) b off).last ≤ b.length) :
    revTlvAt (flashRead (b ++ blank k)) (b ++ blank k) off = revTlvAt (fileRead b) b off := by
  have hlast : (revTlvAt (fileRead b) b off).last =
      off + 4 + (ImageTlv.decode (slice b off tlvHdrSize)).itLen.toNat := rfl
  rw [hlast] at h
  have hhdr : slice (b ++ blank k) off tlvHdrSize = slice b off tlvHdrSize :=
    slice_append_left _ (show off + 4 ≤ b.length by omega)
  have hpay : flashRead (b ++ blank k) (off + 4)
      (ImageTlv.decode (slice b off tlvHdrSize)).itLen.toNat =
        fileRead b (off + 4) (ImageTlv.decode (slice b off tlvHdrSize)).itLen.toNat := by
    unfold flashRead fileRead
    rw [if_pos (by rw [List.length_append]; omega), slice_append_left _ h]
  unfold revTlvAt
  dsimp only
  rw [hhdr, hpay]

theorem revWalk_agree {tlvsEnd : Nat} (n : Nat) :
    ∀ m off, b.length ≤ m + off → b.length + k ≤ n + off → ∃ pre junk,
      WalksAgree b k (revWalk (fileRead b) b tlvsEnd m off)
        (revWalk (flashRead (b ++ blank k)) (b ++ blank k) tlvsEnd n off) pre junk := by
  induction n with
  | zero =>
    intro m off hm hn
    refine ⟨[], [], by simp, by simp, Or.inl ⟨?_, rfl⟩⟩
    exact revWalk_short (by omega) m
  | succ n ih =>
    intro m off hm hn
    by_cases hin : off + 4 ≤ b.length
    · by_cases hend : off + 4 ≤ tlvsEnd
      · obtain ⟨m, rfl⟩ : ∃ j, m = j + 1 := ⟨m - 1, by omega⟩
        have hfile : revWalk (fileRead b) b tlvsEnd (m + 1) off = _ := if_pos ⟨hend, hin⟩
        have hflash : revWalk (flashRead (b ++ blank k)) (b ++ blank k) tlvsEnd (n + 1) off = _ :=
          if_pos ⟨hend, by rw [List.length_append]; omega⟩
        have hlast : (revTlvAt (flashRead (b ++ blank k)) (b ++ blank k) off).last =
            (revTlvAt (fileRead b) b off).last := revTlvAt_last hin
        have hnext : off + 4 ≤ (revTlvAt (fileRead b) b off).last := Nat.le_add_right _ _
        rw [hfile, hflash, hlast]
        by_cases hwhole : (revTlvAt (fileRead b) b off).last ≤ b.length
        · obtain ⟨pre, junk, h⟩ := ih m (revTlvAt (fileRead b) b off).last (by omega) (by omega)
          rw [revTlvAt_whole hwhole]
          refine ⟨revTlvAt (fileRead b) b off :: pre, junk,
            List.forall_mem_cons.mpr ⟨hwhole, h.whole⟩, h.overlong, ?_⟩
          rcases h.split with ⟨hf, hc⟩ | ⟨o, t, t', hcut, hf, hc⟩
          · exact Or.inl ⟨by rw [hf], by rw [hc, List.cons_append]⟩
          · exact Or.inr ⟨o, t, t', hcut, by rw [hf, List.cons_append], by rw [hc, List.cons_append]⟩
        · -- this TLV passes the end of the file
          have hcut : CutAt b k off _ _ := ⟨rfl, rfl, hin, Nat.not_le.mp hwhole⟩
          have hnone : revWalk (fileRead b) b tlvsEnd m (revTlvAt (fileRead b) b off).last = [] :=
            revWalk_short (by omega) m
          rw [hnone]
          exact ⟨[], _, by simp, revWalk_blank n _ (by omega), Or.inr ⟨off, _, _, hcut, rfl, rfl⟩⟩
      · rw [revWalk_short (fun h => hend h.1), revWalk_short (fun h => hend h.1)]
        exact ⟨[], [], by simp, by simp, Or.inl ⟨rfl, rfl⟩⟩
    · rw [revWalk_short (fun h => hin h.2) m]
      exact ⟨[], _, by simp, revWalk_blank (n + 1) off (by omega), Or.inl ⟨rfl, rfl⟩⟩

/-- The lists behind the same offset. -/
theorem revTlvs_agree (b : Bytes) (k o : Nat) : ∃ pre junk,
    WalksAgree b k (revTlvs (fileRead b) b o) (revTlvs (flashRead (b ++ blank k)) (b ++ blank k) o)
      pre junk := by
  by_cases hin : o + 4 ≤ b.length
  · have hinfo : slice (b ++ blank k) o tlvHdrSize = slice b o tlvHdrSize :=
      slice_append_left _ hin
    unfold revTlvs
    dsimp only
    rw [hinfo]
    by_cases hmagic : (ImageTlvInfo.decode (slice b o tlvHdrSize)).itMagic = IMAGE_TLV_PROT_INFO_MAGIC
    · rw [if_pos hmagic, if_pos hmagic]
      refine revWalk_agree _ _ _ (by omega) ?_
      rw [List.length_append, blank_length]
      omega
    · rw [if_neg hmagic, if_neg hmagic]
      exact ⟨[], [], by simp, by simp, Or.inl ⟨rfl, rfl⟩⟩
  · -- no TLV starts in the file
    have hfile : revTlvs (fileRead b) b o = [] := by
      unfold revTlvs
      dsimp only
      rw [revWalk_short (by omega), ite_self]
    rw [hfile]
    exact ⟨[], _, by simp, fun t ht => revWalk_blank _ _ (by omega) t (mem_revTlvs ht),
      Or.inl ⟨rfl, rfl⟩⟩

end Blank

/-! ## The two scans -/

/-- The record with which a search reaches the end of some TLVs. -/
def revReach (P : Platform) : List RevTlv → HwRev → Option HwRev
  | [], r => some r
  | t :: rest, r =>
    match revStep P r t with
    | .inl r' => revReach P rest r'
    | .inr _ => none

theorem revScan_append (l m : List RevTlv) (r : HwRev) :
    revScan P (l ++ m) r = (revReach P l r).elim (revScan P l r) (revScan P m) := by
  induction l generalizing r with
  | nil => rfl
  | cons t rest ih =>
    unfold revReach
    rw [List.cons_append]
    cases hstep : revStep P r t with
    | inl r' =>
      rw [revScan_inl P hstep, revScan_inl P hstep]
      exact ih r'
    | inr res =>
      rw [revScan_inr P hstep, revScan_inr P hstep]
      rfl

theorem revReach_open (hr : ¬ r.Complete) {l : List RevTlv} {r' : HwRev}
    (h : revReach P l r = some r') : ¬ r'.Complete := by
  induction l generalizing r with
  | nil =>
    obtain rfl := Option.some.inj h
    exact hr
  | cons t rest ih =>
    unfold revReach at h
    cases hstep : revStep P r t with
    | inl r₁ =>
      rw [hstep] at h
      exact ih (revStep_inl hstep) h
    | inr res =>
      rw [hstep] at h
      exact absurd h (by simp)

/-- Nothing is found among overlong TLVs. -/
theorem revScan_overlong (hr : ¬ r.Complete) (h : ∀ t ∈ l, t.Overlong) :
    revScan P l r = (false, r) := by
  induction l with
  | nil => rfl
  | cons t rest ih =>
    obtain ⟨ht, hrest⟩ := List.forall_mem_cons.mp h
    unfold RevTlv.Overlong at ht
    have hlen : t.len.toNat ≠ 4 ∧ t.len.toNat ≥ hwRevNameSize := by
      unfold hwRevNameSize
      omega
    by_cases hid : t.type = P.ruuviHwRevIdTlv
    · exact revScan_inr P (revStep_none ((revTake_id hid).trans (if_pos (Or.inl hlen.1)))) _
    · by_cases hname : t.type = P.ruuviHwRevNameTlv
      · have htake : revTake P r t = none := by
          unfold revTake
          rw [if_neg hid, if_pos hname, if_pos (Or.inl hlen.2)]
        exact revScan_inr P (revStep_none htake) _
      · have hstep : revStep P r t = .inl r := by
          unfold revStep revTake
          rw [if_neg hid, if_neg hname]
          exact if_neg hr
        rw [revScan_inl P hstep]
        exact ih hrest

/-- Two results agree: the boolean, the number and the name as a string. -/
def Agree (res₁ res₂ : Bool × HwRev) : Prop := res₁.1 = res₂.1 ∧ res₁.2.Same res₂.2

theorem Agree.refl (res : Bool × HwRev) : Agree res res := ⟨rfl, .refl _⟩

theorem HwRev.Same.symm {r₁ r₂ : HwRev} (h : r₁.Same r₂) : r₂.Same r₁ := ⟨h.1.symm, h.2.symm⟩

/-- A search in a file agrees with what its scan agrees with. -/
theorem Matches.agree_iff {res m res' : Bool × HwRev} (h : Matches res m) :
    Agree res res' ↔ Agree m res' :=
  ⟨fun ha => ⟨h.fst.symm.trans ha.1, h.same.symm.trans ha.2⟩,
    fun ha => ⟨h.fst.trans ha.1, h.same.trans ha.2⟩⟩

/-! ## A TLV that passes the end of the file -/

theorem u32FromBytesBe_getD (p : Bytes) :
    u32FromBytesBe p = u32FromBytesBe [p.getD 0 0, p.getD 1 0, p.getD 2 0, p.getD 3 0] := by
  simp [u32FromBytesBe, List.range, List.range.loop]

/-- The last of the four bytes is the low byte of the number. -/
theorem u32FromBytesBe_low (p : Bytes) : (u32FromBytesBe p).toNat % 256 = (p.getD 3 0).toNat := by
  have hlt := (p.getD 3 0).toNat_lt
  rw [u32FromBytesBe_getD, u32FromBytesBe_toNat rfl]
  simp only [List.reverse_cons, List.reverse_nil, List.nil_append, List.cons_append, leNat]
  omega

/-- A part of an id and the part with blank bytes behind it are different numbers. -/
theorem u32FromBytesBe_blank {p : Bytes} (hp : p.length < 4) :
    u32FromBytesBe p ≠ u32FromBytesBe (p ++ blank (4 - p.length)) := by
  intro h
  have hleft : p.getD 3 0 = 0 := by
    rw [List.getD_eq_getElem?_getD, List.getElem?_eq_none (by omega)]
    rfl
  have hright : (p ++ blank (4 - p.length)).getD 3 0 = 0xFF := by
    rw [List.getD_eq_getElem?_getD, List.getElem?_append_right (by omega)]
    unfold blank
    rw [List.getElem?_replicate_of_lt (by omega)]
    rfl
  have hval : (u32FromBytesBe p).toNat % 256 =
      (u32FromBytesBe (p ++ blank (4 - p.length))).toNat % 256 := by rw [← h]
  rw [u32FromBytesBe_low, u32FromBytesBe_low, hleft, hright] at hval
  exact absurd hval (by decide)

theorem cString_cons (a : UInt8) (x : Bytes) :
    cString (a :: x) = if a = 0 then [] else a :: cString x := by
  unfold cString
  by_cases ha : a = 0
  · simp [ha]
  · simp [ha]

theorem cString_append_zero (x y : Bytes) : cString (x ++ 0 :: y) = cString x := by
  induction x with
  | nil => exact cString_cons 0 y
  | cons a x ih => rw [List.cons_append, cString_cons, cString_cons, ih]

theorem cString_append_of_mem {x : Bytes} (h : (0 : UInt8) ∈ x) (y : Bytes) :
    cString (x ++ y) = cString x := by
  obtain ⟨u, v, rfl⟩ := List.append_of_mem h
  rw [List.append_assoc, List.cons_append, cString_append_zero, cString_append_zero]

theorem cString_append_of_not_mem {x : Bytes} (h : (0 : UInt8) ∉ x) (y : Bytes) :
    cString (x ++ y) = x ++ cString y := by
  induction x with
  | nil => rfl
  | cons a x ih =>
    obtain ⟨ha, hx⟩ := List.ne_and_not_mem_of_not_mem_cons h
    rw [List.cons_append, cString_cons, if_neg (fun h => ha h.symm), ih hx, List.cons_append]

/-- Bytes behind a part of a name make no difference to blank ones exactly if the
string has ended or if they are blank. -/
theorem cString_blank_iff {x s : Bytes} :
    cString (x ++ s) = cString (x ++ blank s.length) ↔ 0 ∈ x ∨ s = blank s.length := by
  by_cases hx : (0 : UInt8) ∈ x
  · rw [cString_append_of_mem hx, cString_append_of_mem hx]
    exact ⟨fun _ => Or.inl hx, fun _ => rfl⟩
  · have hblank : cString (blank s.length) = blank s.length := by
      simp [cString, blank]
    rw [cString_append_of_not_mem hx, cString_append_of_not_mem hx, hblank]
    constructor
    · intro h
      have hs := List.append_cancel_left h
      have hlen : (cString s).length = s.length := by rw [hs, blank_length]
      have hall : cString s = s := (List.takeWhile_prefix _).eq_of_length hlen
      exact Or.inr (hall.symm.trans hs)
    · rintro (h | h)
      · exact absurd h hx
      · rw [h, blank_length, hblank]

/-- The name field behind a name of `len` bytes of which some were delivered. -/
theorem putName_eq (hr : r.hwRevName.length = hwRevNameSize) {len : Nat} {p : Bytes}
    (hp : p.length ≤ len) (hlen : len < hwRevNameSize) :
    (r.putName len p).hwRevName =
      p ++ slice r.hwRevName p.length (len - p.length) ++ 0 :: r.hwRevName.drop (len + 1) := by
  show overlay (overlay r.hwRevName 0 p) len [0] = _
  rw [overlay_start (by omega)]
  have hmiddle : (p ++ r.hwRevName.drop p.length).take len =
      p ++ slice r.hwRevName p.length (len - p.length) := by
    rw [List.take_append, List.take_of_length_le hp]
    rfl
  have hback : (p ++ r.hwRevName.drop p.length).drop (len + 1) = r.hwRevName.drop (len + 1) := by
    rw [List.drop_append, List.drop_of_length_le (by omega), List.nil_append, List.drop_drop]
    congr 1
    omega
  have hroom : [(0 : UInt8)].length ≤ (p ++ r.hwRevName.drop p.length).length - len := by
    rw [List.length_append, List.length_drop, List.length_singleton]
    omega
  unfold overlay
  rw [hmiddle, List.take_of_length_le hroom]
  rw [List.length_singleton, hback, List.append_assoc, List.append_assoc, List.append_assoc]
  rfl

/-- What the two reads of the payload deliver, a part of it and the part with blank
bytes behind it, or nothing if the TLV passes the end of the partition as well. -/
structure Halved (size : Nat) (t t' : RevTlv) (p : Bytes) : Prop where
  type : t'.type = t.type
  len : t'.len = t.len
  file : t.payload = some p
  short : p.length < t.len.toNat
  flash : t'.payload =
    if t.last ≤ size then some (p ++ blank (t.len.toNat - p.length)) else none

theorem CutAt.halved {b : Bytes} {k off : Nat} {t t' : RevTlv} (h : CutAt b k off t t') :
    Halved (b.length + k) t t' (slice b (off + 4) t.len.toNat) := by
  obtain ⟨rfl, rfl, hhdr, hpass⟩ := h
  have hlast : (revTlvAt (fileRead b) b off).last =
      off + 4 + (revTlvAt (fileRead b) b off).len.toNat := rfl
  have hsame : slice (b ++ blank k) off tlvHdrSize = slice b off tlvHdrSize :=
    slice_append_left _ hhdr
  have htlv : revTlvAt (flashRead (b ++ blank k)) (b ++ blank k) off =
      .ofHdr off (ImageTlv.decode (slice b off tlvHdrSize))
        (flashRead (b ++ blank k) (off + 4) (revTlvAt (fileRead b) b off).len.toNat) := by
    unfold revTlvAt
    dsimp only
    rw [hsame]
    rfl
  rw [htlv]
  refine ⟨rfl, rfl, rfl, ?_, ?_⟩
  · rw [slice_length]
    omega
  · show flashRead (b ++ blank k) (off + 4) (revTlvAt (fileRead b) b off).len.toNat = _
    unfold flashRead
    rw [List.length_append, blank_length, ← hlast]
    by_cases hfit : (revTlvAt (fileRead b) b off).last ≤ b.length + k
    · rw [if_pos hfit, if_pos hfit, slice_append_blank hhdr (by omega)]
    · rw [if_neg hfit, if_neg hfit]

/-- The part that the file holds reads as what the partition delivers. -/
def CutHarmless (P : Platform) (size : Nat) (r : HwRev) (t : RevTlv) (p : Bytes) : Prop :=
  (t.IsId P → t.len.toNat = 4 → r.hwRevNum = 0 → size < t.last ∧ u32FromBytesBe p = 0) ∧
  (t.IsName P → t.len.toNat < hwRevNameSize → r.nameEmpty = true →
    if t.last ≤ size then
      0 ∈ p ∨ slice r.hwRevName p.length (t.len.toNat - p.length) = blank (t.len.toNat - p.length)
    else p.headD 0 = 0)

theorem agree_step {r₁ r₂ : HwRev} (h : r₁.Same r₂) :
    Agree (if r₁.Complete then (true, r₁) else (false, r₁))
      (if r₂.Complete then (true, r₂) else (false, r₂)) := by
  by_cases hc : r₁.Complete
  · rw [if_pos hc, if_pos (h.complete.mp hc)]
    exact ⟨rfl, h⟩
  · rw [if_neg hc, if_neg (fun hc' => hc (h.complete.mpr hc'))]
    exact ⟨rfl, h⟩

theorem agree_same {r₁ r₂ : HwRev} {b₁ b₂ : Bool}
    (h : Agree (b₁, r₁) (b₂, r₂)) : r₁.Same r₂ := h.2

/-- A scan that ends with this TLV, or goes on among overlong ones. -/
theorem revScan_last {t : RevTlv} {r' : HwRev} (hl : ∀ t ∈ l, t.Overlong)
    (h : revTake P r t = some r') :
    revScan P (t :: l) r = if r'.Complete then (true, r') else (false, r') := by
  by_cases hc : r'.Complete
  · rw [if_pos hc]
    exact revScan_inr P ((revStep_some h).trans (if_pos hc)) l
  · rw [if_neg hc, revScan_inl P ((revStep_some h).trans (if_neg hc)), revScan_overlong hc hl]

theorem same_of_agree_last {r₁ r₂ : HwRev}
    (h : Agree (if r₁.Complete then (true, r₁) else (false, r₁))
      (if r₂.Complete then (true, r₂) else (false, r₂))) : r₁.Same r₂ := by
  have hsnd : ∀ r : HwRev, (if r.Complete then (true, r) else (false, r)).2 = r := by
    intro r
    by_cases hc : r.Complete
    · rw [if_pos hc]
    · rw [if_neg hc]
  rw [← hsnd r₁, ← hsnd r₂]
  exact h.2

theorem agree_last_iff {r₁ r₂ : HwRev} :
    Agree (if r₁.Complete then (true, r₁) else (false, r₁))
      (if r₂.Complete then (true, r₂) else (false, r₂)) ↔ r₁.Same r₂ :=
  ⟨same_of_agree_last, agree_step⟩

end RuuviMcuboot
