/-
Where the TLVs that the iterator yields lie.

The records of an area form a chain: each starts where the one before it ends,
and the info record at the end of the protected part is stepped over.  The
iterator compares the start of a record with the bounds and never its end, so it
stays inside the area exactly when the chain does.
-/
import RuuviMcuboot.Validate.Authenticity
import RuuviMcuboot.Validate.Enumerate

namespace RuuviMcuboot

open Binary Effect

variable (P : Platform) {hd : Handle} {d : FileData} {hdr : ImageHeader} {w : World}

/-! ## The chain of records -/

/-- The bounds of a TLV area: the first record, the end of the protected part and
the end of the area. -/
structure TlvArea where
  start : Nat
  protEnd : Nat
  tlvEnd : Nat
  hasProt : Bool

def FileTlvIter.area (it : FileTlvIter) : TlvArea where
  start := it.tlvOff.toNat
  protEnd := it.protEnd.toNat
  tlvEnd := it.tlvEnd.toNat
  hasProt := decide (it.hdr.ihProtectTlvSize > 0)

/-- The record that follows an offset starts there, or behind the info record. -/
def TlvArea.skip (a : TlvArea) (off : Nat) : Nat :=
  if a.hasProt = true ∧ off = a.protEnd then off + 4 else off

/-- The record header at an offset of the file. -/
def recordAt (d : FileData) (off : Nat) : Option ImageTlv :=
  if off + 4 ≤ d.bytes.length then some (ImageTlv.decode (slice d.bytes off 4)) else none

/-- The chain of records meets a record at an offset. -/
inductive Meets (d : FileData) (a : TlvArea) : Nat → ImageTlv → Prop where
  | first {t : ImageTlv} (hin : a.start < a.tlvEnd)
      (ht : recordAt d (a.skip a.start) = some t) : Meets d a (a.skip a.start) t
  | next {off : Nat} {t t' : ImageTlv} (before : Meets d a off t)
      (hin : off + 4 + t.itLen.toNat < a.tlvEnd)
      (ht : recordAt d (a.skip (off + 4 + t.itLen.toNat)) = some t') :
      Meets d a (a.skip (off + 4 + t.itLen.toNat)) t'

/-- A record with its payload lies in the area and clear of the info record. -/
structure Inside (a : TlvArea) (off len : Nat) : Prop where
  inArea : off + 4 + len ≤ a.tlvEnd
  apart : off + 4 + len ≤ a.protEnd ∨ a.protEnd + 4 ≤ off

/-- Whatever the iterator yields over the file lies inside, in the protected part
if it was to stay there, and the security counter consists of hashed bytes. -/
structure StaysInside (d : FileData) (hdr : ImageHeader) (a : TlvArea) : Prop where
  found : ∀ hd w f, lookupFile hd w.opened = some f → f.data = d → ∀ type fl n it t,
    (P.run (fileTlvIterBegin hd hdr type fl) w).1 = some it →
    .ok t ∈ (P.run (nextCalls hd n it) (P.run (fileTlvIterBegin hd hdr type fl) w).2).1 →
    ∃ off, t.off.toNat = off + 4 ∧ Inside a off t.len.toNat ∧
      (fl = true → off + 4 + t.len.toNat ≤ a.protEnd)
  counter : ∀ hd w f, lookupFile hd w.opened = some f → f.data = d → ∀ v,
    (P.run (fileImgGetSecurityCnt hd hdr) w).1 = .ok v →
    ∃ off t, Meets d a off t ∧ t.itType = IMAGE_TLV_SEC_CNT ∧ off + 8 ≤ (hashedSize hdr).toNat ∧
      v = le32 (slice d.bytes (off + 4) 4) 0

/-! ## Where an iterator stands -/

/-- The iterator walks this area and stands where a record of the chain ends, or
behind the info record that follows. -/
structure Stands (d : FileData) (a : TlvArea) (it : FileTlvIter) : Prop where
  protEnd : it.protEnd.toNat = a.protEnd
  tlvEnd : it.tlvEnd.toNat = a.tlvEnd
  hasProt : it.hdr.ihProtectTlvSize > 0 ↔ a.hasProt = true
  small : a.protEnd + 4 < 4294967296
  place : ∃ off, (off = a.start ∨ ∃ o t, Meets d a o t ∧ off = o + 4 + t.itLen.toNat) ∧
    (it.tlvOff.toNat = off ∨ (it.tlvOff.toNat = a.skip off ∧ off < a.tlvEnd))

variable {a : TlvArea} {it : FileTlvIter}

theorem TlvArea.le_skip (a : TlvArea) (off : Nat) : off ≤ a.skip off := by
  unfold TlvArea.skip
  split <;> omega

theorem TlvArea.skip_skip (a : TlvArea) (off : Nat) : a.skip (a.skip off) = a.skip off := by
  by_cases h : a.hasProt = true ∧ off = a.protEnd
  · have hskip : a.skip off = off + 4 := by rw [TlvArea.skip, if_pos h]
    rw [hskip, TlvArea.skip, if_neg (fun h' => by omega)]
  · have hskip : a.skip off = off := by rw [TlvArea.skip, if_neg h]
    rw [hskip, hskip]

/-- The iterator and the chain step over the info record alike. -/
theorem Stands.skipInfo_off (h : Stands d a it) :
    it.skipInfo.tlvOff.toNat = a.skip it.tlvOff.toNat := by
  have hsmall := h.small
  by_cases hat : it.hdr.ihProtectTlvSize > 0 ∧ it.tlvOff = it.protEnd
  · have hoff : it.tlvOff.toNat = a.protEnd := by rw [hat.2, h.protEnd]
    rw [FileTlvIter.skipInfo, if_pos hat, TlvArea.skip, if_pos ⟨h.hasProt.mp hat.1, hoff⟩]
    show (it.tlvOff + 4).toNat = _
    rw [UInt32.toNat_add, show (4 : UInt32).toNat = 4 from rfl]
    omega
  · rw [FileTlvIter.skipInfo, if_neg hat, TlvArea.skip, if_neg]
    rintro ⟨hp, hoff⟩
    exact hat ⟨h.hasProt.mpr hp, UInt32.toNat_inj.mp (hoff.trans h.protEnd.symm)⟩

/-- The offset a record is read at follows a place between records. -/
theorem Stands.read_place (h : Stands d a it) (hlt : it.tlvOff < it.tlvEnd) :
    ∃ off, (off = a.start ∨ ∃ o t, Meets d a o t ∧ off = o + 4 + t.itLen.toNat) ∧
      it.skipInfo.tlvOff.toNat = a.skip off ∧ off < a.tlvEnd := by
  obtain ⟨off, hoff, hplace⟩ := h.place
  have hlt' : it.tlvOff.toNat < a.tlvEnd := by
    rw [← h.tlvEnd]
    exact hlt
  refine ⟨off, hoff, ?_⟩
  rw [h.skipInfo_off]
  rcases hplace with heq | ⟨heq, hin⟩
  · rw [heq]
    exact ⟨rfl, by omega⟩
  · rw [heq, TlvArea.skip_skip]
    exact ⟨rfl, hin⟩

theorem Stands.skipInfo (h : Stands d a it) (hlt : it.tlvOff < it.tlvEnd) :
    Stands d a it.skipInfo := by
  refine ⟨?_, ?_, ?_, h.small, ?_⟩
  · rw [skipInfo_protEnd, h.protEnd]
  · rw [skipInfo_tlvEnd, h.tlvEnd]
  · rw [skipInfo_hdr]
    exact h.hasProt
  · obtain ⟨off, hoff, hplace⟩ := h.read_place hlt
    exact ⟨off, hoff, Or.inr hplace⟩

theorem loadBytes_record {start : UInt32} {b : Bytes} (h : loadBytes d start tlvHdrSize = .ok b) :
    recordAt d start.toNat = some (ImageTlv.decode b) := by
  obtain ⟨rfl, hlen⟩ := loadBytes_ok h
  have hfit : start.toNat + 4 ≤ d.bytes.length := by
    rw [slice_length] at hlen
    unfold tlvHdrSize at hlen
    omega
  rw [recordAt, if_pos hfit]
  rfl

theorem recordAt_lt {off : Nat} {t : ImageTlv} (h : recordAt d off = some t) :
    off + 4 ≤ d.bytes.length := by
  unfold recordAt at h
  by_cases hfit : off + 4 ≤ d.bytes.length
  · exact hfit
  · rw [if_neg hfit] at h
    exact absurd h (by simp)

/-- The record that the iterator reads belongs to the chain, and behind it the
iterator stands right again. -/
theorem Stands.read (h : Stands d a it) (hlt : it.tlvOff < it.tlvEnd) {b : Bytes}
    (hb : loadBytes d it.skipInfo.tlvOff tlvHdrSize = .ok b) :
    Meets d a it.skipInfo.tlvOff.toNat (ImageTlv.decode b) ∧
      (it.skipInfo.tlvOff + 4).toNat = it.skipInfo.tlvOff.toNat + 4 ∧
      Stands d a (it.skipInfo.advance (ImageTlv.decode b).itLen) := by
  have hrec := loadBytes_record hb
  have hfit := recordAt_lt hrec
  have hmax := fileData_length_lt d
  have hlen := (ImageTlv.decode b).itLen.toNat_lt
  have hmeets : Meets d a it.skipInfo.tlvOff.toNat (ImageTlv.decode b) := by
    obtain ⟨off, hoff, hskip, hin⟩ := h.read_place hlt
    rw [hskip] at hrec ⊢
    rcases hoff with rfl | ⟨o, t, hmet, rfl⟩
    · exact .first hin hrec
    · exact .next hmet hin hrec
  have hoff₄ : (it.skipInfo.tlvOff + 4).toNat = it.skipInfo.tlvOff.toNat + 4 := by
    rw [UInt32.toNat_add, show (4 : UInt32).toNat = 4 from rfl]
    omega
  have hadv : (it.skipInfo.advance (ImageTlv.decode b).itLen).tlvOff.toNat =
      it.skipInfo.tlvOff.toNat + 4 + (ImageTlv.decode b).itLen.toNat := by
    show (it.skipInfo.tlvOff + (4 + (ImageTlv.decode b).itLen.toUInt32)).toNat = _
    rw [UInt32.toNat_add, UInt32.toNat_add, UInt16.toNat_toUInt32,
      show (4 : UInt32).toNat = 4 from rfl]
    omega
  have hskip := h.skipInfo hlt
  exact ⟨hmeets, hoff₄, hskip.protEnd, hskip.tlvEnd, hskip.hasProt, hskip.small,
    _, Or.inr ⟨_, _, hmeets, rfl⟩, Or.inl hadv⟩

/-! ## What a call yields -/

/-- A TLV that was found is a record of the chain of the requested type, and starts
in the protected part if it was to stay there. -/
def FromChain (d : FileData) (a : TlvArea) (type : UInt16) (fl : Bool) (t : FoundTlv) : Prop :=
  ∃ off r, Meets d a off r ∧ t.off.toNat = off + 4 ∧ t.len = r.itLen ∧ t.type = r.itType ∧
    (type = IMAGE_TLV_ANY ∨ r.itType = type) ∧ (fl = true → off < a.protEnd)

/-- An iterator of this kind on the area. -/
structure Walks (d : FileData) (a : TlvArea) (type : UInt16) (fl : Bool) (it : FileTlvIter) :
    Prop where
  stands : Stands d a it
  type : it.type = type
  prot : it.prot = fl

/-- What holds after a call. -/
structure Called (d : FileData) (a : TlvArea) (type : UInt16) (fl : Bool) (n : TlvNext) : Prop where
  walks : Walks d a type fl n.it
  found : n.rc = 0 → FromChain d a type fl n.found

variable {type : UInt16} {fl : Bool}

theorem triple_loadImageData (start : UInt32) (size : Nat) :
    Triple (S := Api) P.exec (Reading False hd d) (loadImageData hd start size)
      (fun r w => Reading False hd d w ∧ ∀ b, r = .ok b → loadBytes d start size = .ok b)
      (fun _ => True) := by
  intro w hw
  obtain ⟨hw', hval⟩ := loadImageData_returns P start size w hw
  refine ⟨fun _ _ => True.intro, hw', fun b hb => ?_⟩
  rcases hval with hval | ⟨-, rc, hval⟩
  · exact hval.symm.trans hb
  · exact absurd (hval.symm.trans hb) (by simp)

/-- One round keeps the iterator on the chain. -/
theorem nextBody_walks (it : FileTlvIter) :
    Triple (S := Api) P.exec (fun w => Reading False hd d w ∧ Walks d a type fl it)
      (fileTlvIterNextBody hd it)
      (fun r w => r.elim (fun it' => Reading False hd d w ∧ Walks d a type fl it')
        (fun n => Reading False hd d w ∧ Called d a type fl n)) (fun _ => True) := by
  unfold fileTlvIterNextBody
  refine triple_assume fun hwalks => triple_ite (fun hlt => ?_) (fun _ => ?_)
  · have hskip : Walks d a type fl it.skipInfo := ⟨hwalks.stands.skipInfo hlt,
      (skipInfo_type it).trans hwalks.type, (skipInfo_prot it).trans hwalks.prot⟩
    refine triple_bind (triple_loadImageData P _ _) (fun r => triple_assume fun hload => ?_)
    cases r with
    | error rc =>
      refine triple_ret (fun w hw => ⟨hw, hskip, ?_⟩) (fun _ _ => True.intro)
      exact fun h => absurd h (show ¬ (-1 : Int) = 0 by decide)
    | ok b =>
      obtain ⟨hmeets, hoff₄, hstands⟩ := hwalks.stands.read hlt (hload b rfl)
      have hnext : Walks d a type fl (it.skipInfo.advance (ImageTlv.decode b).itLen) :=
        ⟨hstands, hskip.type, hskip.prot⟩
      refine triple_ite (fun _ => ?_) (fun hprot => triple_ite (fun htype => ?_) (fun _ => ?_))
      · refine triple_ret (fun w hw => ⟨hw, hskip, ?_⟩) (fun _ _ => True.intro)
        exact fun h => absurd h (show ¬ (1 : Int) = 0 by decide)
      · refine triple_ret (fun w hw => ⟨hw, hnext, fun _ => ?_⟩) (fun _ _ => True.intro)
        refine ⟨_, _, hmeets, hoff₄, rfl, rfl, ?_, fun hfl => ?_⟩
        · rw [hskip.type] at htype
          exact htype
        · have hlt' : it.skipInfo.tlvOff < it.skipInfo.protEnd :=
            UInt32.not_le.mp fun hge => hprot ⟨hskip.prot.trans hfl, hge⟩
          rw [← hskip.stands.protEnd]
          exact hlt'
      · exact triple_ret (fun w hw => ⟨hw, hnext⟩) (fun _ _ => True.intro)
  · refine triple_ret (fun w hw => ⟨hw, hwalks, ?_⟩) (fun _ _ => True.intro)
    exact fun h => absurd h (show ¬ (1 : Int) = 0 by decide)

/-- A call keeps the iterator on the chain, whatever fails. -/
theorem iterNext_walks (hit : Walks d a type fl it) :
    Triple (S := Api) P.exec (Reading False hd d) (fileTlvIterNext hd it)
      (fun n w => Reading False hd d w ∧ Called d a type fl n) (fun _ => True) := by
  have hloop : Triple (S := Api) P.exec (fun w => Reading False hd d w ∧ Walks d a type fl it)
      (fileTlvIterNext hd it) (fun n w => Reading False hd d w ∧ Called d a type fl n)
      (fun _ => True) :=
    triple_loop (I := fun it' w => Reading False hd d w ∧ Walks d a type fl it')
      (fun it' => nextBody_walks P it')
      (fun _ w hw => ⟨hw.1, hit, fun h => absurd h (show ¬ (-1 : Int) = 0 by decide)⟩)
      (fun _ _ _ => True.intro) tlvFuel it
  exact hloop.weaken (fun w hw => ⟨hw, hit⟩) (fun _ _ hq => hq) (fun _ hc => hc)

theorem nextCalls_walks (n : Nat) (hit : Walks d a type fl it) :
    Triple (S := Api) P.exec (Reading False hd d) (nextCalls hd n it)
      (fun l _ => ∀ t, .ok t ∈ l → FromChain d a type fl t) (fun _ => True) := by
  induction n generalizing it with
  | zero => exact triple_ret (fun _ _ t ht => absurd ht (by simp)) (fun _ _ => True.intro)
  | succ n ih =>
    refine triple_bind (iterNext_walks P hit) (fun r => triple_assume fun hcalled => ?_)
    refine triple_bind (ih hcalled.walks) (fun rest => ?_)
    refine triple_ret (fun w hrest t ht => ?_) (fun _ _ => True.intro)
    rcases List.mem_cons.mp ht with heq | hmem
    · have hrc : r.rc = 0 := by
        by_contra hne
        rw [TlvNext.outcome, if_neg hne] at heq
        exact absurd heq (by simp)
      rw [TlvNext.outcome, if_pos hrc] at heq
      rw [Except.ok.inj heq]
      exact hcalled.found hrc
    · exact hrest t hmem

/-! ## The start of a walk -/

/-- The kind of an iterator does not matter for where it starts. -/
theorem tlvIterBegin_kind (d : FileData) (hdr : ImageHeader) (type : UInt16) (fl : Bool) :
    tlvIterBegin d hdr type fl =
      (tlvIterBegin d hdr IMAGE_TLV_ANY false).map
        fun it => { it with type := type, prot := fl } := by
  unfold tlvIterBegin
  dsimp only
  repeat' split
  all_goals rfl

theorem tlvIterBegin_bounds (hit : tlvIterBegin d hdr type fl = some it) :
    it.hdr = hdr ∧ it.protEnd = hashedSize hdr ∧ (bootTlvOff hdr).toNat + 4 ≤ d.bytes.length := by
  unfold tlvIterBegin at hit
  dsimp only at hit
  cases hload : loadBytes d (bootTlvOff hdr) tlvHdrSize with
  | error rc =>
    rw [hload] at hit
    exact absurd hit (by simp)
  | ok b =>
    have hfit := recordAt_lt (loadBytes_record hload)
    rw [hload] at hit
    dsimp only at hit
    repeat' split at hit
    all_goals first
      | exact absurd hit.symm (Option.some_ne_none it)
      | (obtain rfl := Option.some.inj hit
         exact ⟨rfl, rfl, hfit⟩)

theorem walks_begin (hit : tlvIterBegin d hdr IMAGE_TLV_ANY false = some it) {it' : FileTlvIter}
    (hit' : tlvIterBegin d hdr type fl = some it') : Walks d it.area type fl it' := by
  obtain ⟨hhdr, hprot, hfit⟩ := tlvIterBegin_bounds hit
  have hmax := fileData_length_lt d
  have hps := hdr.ihProtectTlvSize.toNat_lt
  have hsmall : it.protEnd.toNat + 4 < 4294967296 := by
    rw [hprot]
    show (bootTlvOff hdr + hdr.ihProtectTlvSize.toUInt32).toNat + 4 < _
    rw [UInt32.toNat_add, UInt16.toNat_toUInt32]
    omega
  rw [tlvIterBegin_kind, hit] at hit'
  obtain rfl := Option.some.inj hit'
  exact ⟨⟨rfl, rfl, decide_eq_true_iff.symm, hsmall, _, Or.inl rfl, Or.inl rfl⟩, rfl, rfl⟩

theorem run_begin_some (hw : Reading False hd d w)
    (hr : (P.run (fileTlvIterBegin hd hdr type fl) w).1 = some it) :
    tlvIterBegin d hdr type fl = some it := by
  rcases (fileTlvIterBegin_returns P hdr type fl w hw).2 with hval | ⟨-, hval⟩
  · exact hval.symm.trans hr
  · exact absurd (hval.symm.trans hr) (by simp)

theorem triple_begin (hit : tlvIterBegin d hdr IMAGE_TLV_ANY false = some it) :
    Triple (S := Api) P.exec (Reading False hd d) (fileTlvIterBegin hd hdr type fl)
      (fun r w => Reading False hd d w ∧ ∀ it', r = some it' → Walks d it.area type fl it')
      (fun _ => True) :=
  fun w hw => ⟨fun _ _ => True.intro, (fileTlvIterBegin_returns P hdr type fl w hw).1,
    fun _ hr => walks_begin hit (run_begin_some P hw hr)⟩

/-- A security counter is the payload of a record of the chain that starts in the
protected part. -/
theorem securityCnt_chain (hit : tlvIterBegin d hdr IMAGE_TLV_ANY false = some it) :
    Triple (S := Api) P.exec (Reading False hd d) (fileImgGetSecurityCnt hd hdr)
      (fun r _ => ∀ v, r = .ok v → ∃ off t, Meets d it.area off t ∧ t.itLen.toNat = 4 ∧
        t.itType = IMAGE_TLV_SEC_CNT ∧ off < it.protEnd.toNat ∧
          v = le32 (slice d.bytes (off + 4) 4) 0) (fun _ => True) := by
  have herr : ∀ {I : World → Prop} (e : SecurityCntErr), Triple (S := Api) P.exec I
      (Prog.ret (.error e)) (fun (r : Except SecurityCntErr UInt32) _ => ∀ v, r = .ok v →
        ∃ off t, Meets d it.area off t ∧ t.itLen.toNat = 4 ∧ t.itType = IMAGE_TLV_SEC_CNT ∧
          off < it.protEnd.toNat ∧ v = le32 (slice d.bytes (off + 4) 4) 0) (fun _ => True) :=
    fun e => triple_ret (fun _ _ v hv => absurd hv (by simp)) (fun _ _ => True.intro)
  unfold fileImgGetSecurityCnt
  refine triple_ite (fun _ => herr _) (fun _ => ?_)
  refine triple_bind (triple_begin P hit) (fun r => triple_assume fun hwalks => ?_)
  cases r with
  | none => exact herr _
  | some it' =>
    refine triple_bind (iterNext_walks P (hwalks it' rfl)) (fun n => triple_assume fun hcalled => ?_)
    refine triple_ite (fun _ => herr _) (fun hrc => triple_ite (fun _ => herr _) (fun hlen => ?_))
    refine triple_bind (triple_loadImageData P _ _) (fun r => triple_assume fun hload => ?_)
    cases r with
    | error rc => exact herr _
    | ok b =>
      refine triple_ret (fun _ _ v hv => ?_) (fun _ _ => True.intro)
      obtain ⟨off, t, hmeets, hoff, htlen, -, htype, hprot⟩ := hcalled.found (not_not.mp hrc)
      have hlen₄ : n.found.len.toNat = 4 := not_not.mp hlen
      have hb := (loadBytes_ok (hload b rfl)).1
      rw [hoff, hlen₄] at hb
      refine ⟨off, t, hmeets, htlen ▸ hlen₄, ?_, hprot rfl, ?_⟩
      · exact htype.resolve_left (by decide)
      · rw [← Except.ok.inj hv, hb]

/-! ## Every record of the chain is found -/

/-- An iterator over everything yields the record it stands in front of. -/
theorem nextOn_record (hwalks : Walks d a IMAGE_TLV_ANY false it) {off : Nat} {t : ImageTlv}
    (hoff : it.tlvOff.toNat = off) (hin : off < a.tlvEnd)
    (ht : recordAt d (a.skip off) = some t) :
    (nextOn d it).outcome =
        .ok { off := it.skipInfo.tlvOff + 4, len := t.itLen, type := t.itType } ∧
      (it.skipInfo.tlvOff + 4).toNat = a.skip off + 4 ∧
      Walks d a IMAGE_TLV_ANY false (nextOn d it).it ∧
      (nextOn d it).it.tlvOff.toNat = a.skip off + 4 + t.itLen.toNat := by
  have hlt : it.tlvOff < it.tlvEnd := by
    rw [UInt32.lt_iff_toNat_lt, hoff, hwalks.stands.tlvEnd]
    exact hin
  have hskip : it.skipInfo.tlvOff.toNat = a.skip off := by
    rw [hwalks.stands.skipInfo_off, hoff]
  have hfit := recordAt_lt ht
  have hmax := fileData_length_lt d
  have hload : loadBytes d it.skipInfo.tlvOff tlvHdrSize = .ok (slice d.bytes (a.skip off) 4) := by
    rw [loadBytes_of_le (by rw [hskip]; unfold tlvHdrSize; omega), hskip]
    rfl
  have hdec : ImageTlv.decode (slice d.bytes (a.skip off) 4) = t := by
    rw [recordAt, if_pos hfit] at ht
    exact Option.some.inj ht
  obtain ⟨-, hoff₄, hstands⟩ := hwalks.stands.read hlt hload
  rw [hdec] at hstands
  have hbody : nextBody d it = .inr
      { rc := 0
        found := { off := it.skipInfo.tlvOff + 4, len := t.itLen, type := t.itType }
        it := it.skipInfo.advance t.itLen } := by
    rw [nextBody, if_pos hlt, hload]
    dsimp only
    rw [hdec, skipInfo_prot, skipInfo_type, hwalks.prot, hwalks.type,
      if_neg (fun h => absurd h.1 (by decide)), if_pos (Or.inl rfl)]
  have hnext : nextOn d it =
      { rc := 0
        found := { off := it.skipInfo.tlvOff + 4, len := t.itLen, type := t.itType }
        it := it.skipInfo.advance t.itLen } := iterate_inr hbody lfsFileMax
  have hadv : (it.skipInfo.advance t.itLen).tlvOff.toNat =
      it.skipInfo.tlvOff.toNat + 4 + t.itLen.toNat := by
    have hlen := t.itLen.toNat_lt
    show (it.skipInfo.tlvOff + (4 + t.itLen.toUInt32)).toNat = _
    rw [UInt32.toNat_add, UInt32.toNat_add, UInt16.toNat_toUInt32,
      show (4 : UInt32).toNat = 4 from rfl]
    omega
  rw [hnext]
  refine ⟨rfl, by rw [hoff₄, hskip], ⟨hstands, ?_, ?_⟩, by rw [hadv, hskip]⟩
  · exact (skipInfo_type it).trans hwalks.type
  · exact (skipInfo_prot it).trans hwalks.prot

/-- The iterator after some calls. -/
def after (d : FileData) (n : Nat) (it : FileTlvIter) : FileTlvIter :=
  (fun it => (nextOn d it).it)^[n] it

theorem outcome_mem_callsOn (d : FileData) (n : Nat) (it : FileTlvIter) :
    (nextOn d (after d n it)).outcome ∈ callsOn d (n + 1) it := by
  induction n generalizing it with
  | zero => exact List.mem_cons_self
  | succ n ih =>
    rw [callsOn, after, Function.iterate_succ_apply]
    exact List.mem_cons_of_mem _ (ih _)

/-- By induction on the chain: after as many calls as there are records in front,
the iterator stands in front of the record. -/
theorem Meets.found {off : Nat} {t : ImageTlv} (hmeets : Meets d a off t)
    (hwalks : Walks d a IMAGE_TLV_ANY false it) (hstart : it.tlvOff.toNat = a.start) :
    ∃ n found, (nextOn d (after d n it)).outcome = .ok found ∧ found.off.toNat = off + 4 ∧
      found.len = t.itLen ∧ Walks d a IMAGE_TLV_ANY false (nextOn d (after d n it)).it ∧
      (nextOn d (after d n it)).it.tlvOff.toNat = off + 4 + t.itLen.toNat := by
  induction hmeets with
  | first hin ht =>
    obtain ⟨hout, hoff, hnext, hadv⟩ := nextOn_record hwalks hstart hin ht
    exact ⟨0, _, hout, hoff, rfl, hnext, hadv⟩
  | next _ hin ht ih =>
    obtain ⟨n, -, -, -, -, hwalks', hoff'⟩ := ih
    obtain ⟨hout, hoff, hnext, hadv⟩ := nextOn_record hwalks' hoff' hin ht
    have hsucc : after d (n + 1) it = (nextOn d (after d n it)).it :=
      Function.iterate_succ_apply' _ _ _
    rw [← hsucc] at hout hoff hnext hadv
    exact ⟨n + 1, _, hout, hoff, rfl, hnext, hadv⟩

/-! ## Staying inside -/

/-- What the iterator yields stays inside, and the security counter in the hashed
region, exactly when every record of the chain that starts in the area ends in it
and clear of the info record. -/
theorem staysInside_iff (hit : tlvIterBegin d hdr IMAGE_TLV_ANY false = some it) :
    StaysInside P d hdr it.area ↔
      ∀ off t, Meets d it.area off t → Inside it.area off t.itLen.toNat := by
  constructor
  · intro hstays off t hmeets
    obtain ⟨n, found, hout, hoff, hlen, -, -⟩ := hmeets.found (walks_begin hit hit) rfl
    have hw : Reading True 0 d (openWorld d) := ⟨fun _ _ _ => rfl, _, rfl, rfl⟩
    have hbegin := fileTlvIterBegin_returns P hdr IMAGE_TLV_ANY false (openWorld d) hw
    have hsome := (hbegin.2.resolve_right (fun e => e.1 trivial)).trans hit
    have hcalls := run_nextCalls P hbegin.1 (n + 1) it
    have hmem : .ok found ∈ (P.run (nextCalls 0 (n + 1) it)
        (P.run (fileTlvIterBegin 0 hdr IMAGE_TLV_ANY false) (openWorld d)).2).1 := by
      rw [show (P.run (nextCalls 0 (n + 1) it) _).1 = _ from hcalls, ← hout]
      exact outcome_mem_callsOn d n it
    obtain ⟨off', hoff', hinside, -⟩ :=
      hstays.found 0 (openWorld d) _ rfl rfl IMAGE_TLV_ANY false (n + 1) it found hsome hmem
    obtain rfl : off' = off := by omega
    rw [hlen] at hinside
    exact hinside
  · intro hchain
    constructor
    · intro hd w f hf hfd type fl n it' t hsome hmem
      have hw : Reading False hd d w := ⟨fun h => h.elim, f, hf, hfd⟩
      have hbegin := (fileTlvIterBegin_returns P hdr type fl w hw).1
      have hwalks := walks_begin hit (run_begin_some P hw hsome)
      obtain ⟨off, r, hmeets, hoff, hlen, -, -, hprot⟩ :=
        (nextCalls_walks P n hwalks _ hbegin).2 t hmem
      have hinside := hchain off r hmeets
      rw [← hlen] at hinside
      refine ⟨off, hoff, hinside, fun hfl => ?_⟩
      have hlt := hprot hfl
      rcases hinside.apart with hle | hge
      · exact hle
      · omega
    · intro hd w f hf hfd v hv
      have hw : Reading False hd d w := ⟨fun h => h.elim, f, hf, hfd⟩
      obtain ⟨off, t, hmeets, hlen, htype, hlt, hval⟩ := (securityCnt_chain P hit w hw).2 v hv
      have hinside := hchain off t hmeets
      rw [hlen] at hinside
      have hprot : it.area.protEnd = (hashedSize hdr).toNat := by
        rw [← (tlvIterBegin_bounds hit).2.1]
        rfl
      have hlt' : off < it.area.protEnd := hlt
      refine ⟨off, t, hmeets, htype, ?_, hval⟩
      rcases hinside.apart with hle | hge
      · omega
      · omega

namespace Reference

/-- The iterator over all TLVs of the signed image. -/
def signedIter : FileTlvIter where
  hdr := imageHeader
  type := IMAGE_TLV_ANY
  prot := false
  protEnd := 40
  tlvOff := 44
  tlvEnd := 121

/-- A header with eight bytes of protected TLVs. -/
def protectedHeader : ImageHeader := { imageHeader with ihProtectTlvSize := 8 }

/-- The only protected TLV is a security counter whose payload is the info record
of the unprotected list. -/
def straddlingFile : FileData where
  bytes :=
    let body := leBytes 4 IMAGE_MAGIC.toNat ++ leBytes 4 0 ++ leBytes 2 32 ++ leBytes 2 8 ++
      leBytes 4 8 ++ List.replicate 16 0 ++ [0xA5, 1, 0, 1] ++ leBytes 4 0x1000
    body ++ leBytes 2 IMAGE_TLV_PROT_INFO_MAGIC.toNat ++ leBytes 2 8 ++
      leBytes 2 IMAGE_TLV_SEC_CNT.toNat ++ leBytes 2 4 ++
        encodeList IMAGE_TLV_INFO_MAGIC (signedTlvs body)
  size_le := by decide +kernel

def straddlingIter : FileTlvIter where
  hdr := protectedHeader
  type := IMAGE_TLV_ANY
  prot := false
  protEnd := 48
  tlvOff := 44
  tlvEnd := 129

end Reference

/-- The chain of the signed image. -/
theorem signedFile_staysInside :
    StaysInside (Reference.platform 8) Reference.signedFile Reference.imageHeader
        Reference.signedIter.area ↔
      ∀ off t, Meets Reference.signedFile Reference.signedIter.area off t →
        Inside Reference.signedIter.area off t.itLen.toNat :=
  staysInside_iff (Reference.platform 8)
    (show tlvIterBegin Reference.signedFile Reference.imageHeader IMAGE_TLV_ANY false =
      some Reference.signedIter by decide +kernel)

theorem straddlingFile_begin :
    ((Reference.platform 8).run (fileTlvIterBegin 0 Reference.protectedHeader IMAGE_TLV_ANY false)
      (openWorld Reference.straddlingFile)).1 = some Reference.straddlingIter := by
  decide +kernel

/-- A security counter is returned whose bytes lie behind the hashed region. -/
theorem straddling_counter_returned :
    ImageHeader.decode Reference.straddlingFile.bytes = Reference.protectedHeader ∧
      (hashedSize Reference.protectedHeader).toNat = 48 ∧
      ((Reference.platform 8).run (fileImgGetSecurityCnt 0 Reference.protectedHeader)
        (openWorld Reference.straddlingFile)).1 =
          .ok (le32 (slice Reference.straddlingFile.bytes 48 4) 0) ∧
      ¬ StaysInside (Reference.platform 8) Reference.straddlingFile Reference.protectedHeader
        Reference.straddlingIter.area := by
  refine ⟨by decide +kernel, by decide, by decide +kernel, fun hstays => ?_⟩
  have hmem : Except.ok (FoundTlv.mk 48 4 IMAGE_TLV_SEC_CNT) ∈
      ((Reference.platform 8).run (nextCalls 0 1 Reference.straddlingIter)
        ((Reference.platform 8).run
          (fileTlvIterBegin 0 Reference.protectedHeader IMAGE_TLV_ANY false)
          (openWorld Reference.straddlingFile)).2).1 := by
    decide +kernel
  obtain ⟨off, hoff, hinside, -⟩ := hstays.found 0 (openWorld Reference.straddlingFile) _ rfl rfl
    IMAGE_TLV_ANY false 1 Reference.straddlingIter _ straddlingFile_begin hmem
  have hoff' : 48 = off + 4 := hoff
  have happart : off + 4 + 4 ≤ 48 ∨ 48 + 4 ≤ off := hinside.apart
  omega

end RuuviMcuboot
