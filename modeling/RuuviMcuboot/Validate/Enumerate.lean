/-
What repeated calls of the TLV iterator yield.

`Lists d recs it` says that the iterator stands in front of the records `recs`.  A
call yields the first of them that is wanted and leaves the iterator in front of
the ones behind it, so any number of calls yields the wanted records in order and
then the end, again and again.
-/
import RuuviMcuboot.Platform.Reference
import RuuviMcuboot.Validate.Area

namespace RuuviMcuboot

open Binary Effect

variable (P : Platform) {strict : Prop} {hd : Handle} {d : FileData} {it : FileTlvIter}
  {r : AreaRecord} {recs : List AreaRecord}

/-! ## One call -/

/-- One round of `file_tlv_iter_next` on the contents. -/
def nextBody (d : FileData) (it : FileTlvIter) : FileTlvIter ⊕ TlvNext :=
  if it.tlvOff < it.tlvEnd then
    match loadBytes d it.skipInfo.tlvOff tlvHdrSize with
    | .error _ => .inr { rc := -1, found := {}, it := it.skipInfo }
    | .ok b =>
      let tlv := ImageTlv.decode b
      if it.skipInfo.prot = true ∧ it.skipInfo.tlvOff ≥ it.skipInfo.protEnd then
        .inr { rc := 1, found := {}, it := it.skipInfo }
      else if it.skipInfo.type = IMAGE_TLV_ANY ∨ tlv.itType = it.skipInfo.type then
        .inr
          { rc := 0
            found := { off := it.skipInfo.tlvOff + 4, len := tlv.itLen, type := tlv.itType }
            it := it.skipInfo.advance tlv.itLen }
      else .inl (it.skipInfo.advance tlv.itLen)
  else .inr { rc := 1, found := {}, it := it }

def nextOn (d : FileData) (it : FileTlvIter) : TlvNext :=
  iterate (nextBody d) { rc := -1, found := {}, it := it } tlvFuel it

theorem nextBody_returns (it : FileTlvIter) :
    Returns P.exec (Reading strict hd d)
      (fun r => ∃ e, r = Sum.inr e ∧ Unreliable strict (·.rc < 0) e)
      (fileTlvIterNextBody hd it) (nextBody d it) := by
  unfold fileTlvIterNextBody nextBody
  by_cases hoff : it.tlvOff < it.tlvEnd
  · rw [if_pos hoff, if_pos hoff]
    refine returns_bind (loadImageData_returns P _ _) ?_ ?_
    · rintro e ⟨hs, rc, rfl⟩
      exact fails_ret ⟨_, rfl, hs, show (-1 : Int) < 0 by decide⟩
    · cases loadBytes d it.skipInfo.tlvOff tlvHdrSize with
      | error rc => exact returns_ret _
      | ok b =>
        dsimp only
        by_cases hprot : it.skipInfo.prot = true ∧ it.skipInfo.tlvOff ≥ it.skipInfo.protEnd
        · rw [if_pos hprot, if_pos hprot]
          exact returns_ret _
        · rw [if_neg hprot, if_neg hprot]
          by_cases htype : it.skipInfo.type = IMAGE_TLV_ANY ∨
              (ImageTlv.decode b).itType = it.skipInfo.type
          · rw [if_pos htype, if_pos htype]
            exact returns_ret _
          · rw [if_neg htype, if_neg htype]
            exact returns_ret _
  · rw [if_neg hoff, if_neg hoff]
    exact returns_ret _

theorem iterNext_returns (it : FileTlvIter) :
    Returns P.exec (Reading strict hd d) (Unreliable strict (·.rc < 0))
      (fileTlvIterNext hd it) (nextOn d it) :=
  returns_loop (J := fun _ => True) (fun s _ => nextBody_returns P s) (fun _ _ _ _ => True.intro)
    _ _ True.intro

/-! ## Records in front of the iterator -/

/-- The iterator is about to read this record. -/
structure AtRecord (d : FileData) (it : FileTlvIter) (r : AreaRecord) : Prop where
  before : it.tlvOff < it.tlvEnd
  before' : it.skipInfo.tlvOff < it.tlvEnd
  header : loadBytes d it.skipInfo.tlvOff tlvHdrSize = .ok r.tlv.header
  off : (it.skipInfo.tlvOff + 4).toNat = r.off
  inProt : it.skipInfo.tlvOff < it.protEnd ↔ r.inProt = true

def Lists (d : FileData) : List AreaRecord → FileTlvIter → Prop
  | [], it => it.tlvEnd ≤ it.tlvOff
  | r :: rest, it => AtRecord d it r ∧ Lists d rest (it.skipInfo.advance r.tlv.len)

/-- The record is one the iterator was asked for. -/
def Wanted (type : UInt16) (r : AreaRecord) : Prop := type = IMAGE_TLV_ANY ∨ r.tlv.type = type

instance (type : UInt16) (r : AreaRecord) : Decidable (Wanted type r) :=
  inferInstanceAs (Decidable (_ ∨ _))

/-- The records the iterator yields: the wanted ones, up to the end of the
protected part if it is to stay there. -/
def wanted (type : UInt16) (prot : Bool) : List AreaRecord → List AreaRecord
  | [] => []
  | r :: rest =>
    if prot = true ∧ r.inProt = false then []
    else if Wanted type r then r :: wanted type prot rest
    else wanted type prot rest

/-- What `file_tlv_iter_next` writes for a record. -/
def AreaRecord.found (r : AreaRecord) : FoundTlv where
  off := UInt32.ofNat r.off
  len := r.tlv.len
  type := r.tlv.type

@[simp] theorem skipInfo_type (it : FileTlvIter) : it.skipInfo.type = it.type := by
  unfold FileTlvIter.skipInfo
  split <;> rfl

@[simp] theorem skipInfo_prot (it : FileTlvIter) : it.skipInfo.prot = it.prot := by
  unfold FileTlvIter.skipInfo
  split <;> rfl

@[simp] theorem skipInfo_protEnd (it : FileTlvIter) : it.skipInfo.protEnd = it.protEnd := by
  unfold FileTlvIter.skipInfo
  split <;> rfl

@[simp] theorem skipInfo_tlvEnd (it : FileTlvIter) : it.skipInfo.tlvEnd = it.tlvEnd := by
  unfold FileTlvIter.skipInfo
  split <;> rfl

@[simp] theorem skipInfo_hdr (it : FileTlvIter) : it.skipInfo.hdr = it.hdr := by
  unfold FileTlvIter.skipInfo
  split <;> rfl

/-- The iterator steps over the info record once. -/
@[simp] theorem skipInfo_skipInfo (it : FileTlvIter) : it.skipInfo.skipInfo = it.skipInfo := by
  by_cases h : it.hdr.ihProtectTlvSize > 0 ∧ it.tlvOff = it.protEnd
  · have hskip : it.skipInfo = { it with tlvOff := it.tlvOff + 4 } := by
      rw [FileTlvIter.skipInfo, if_pos h]
    have hne : it.tlvOff + 4 ≠ it.protEnd := by
      rw [← h.2]
      intro heq
      have := congrArg UInt32.toNat heq
      have hlt := it.tlvOff.toNat_lt
      rw [UInt32.toNat_add, show (4 : UInt32).toNat = 4 from rfl] at this
      omega
    rw [hskip, FileTlvIter.skipInfo, if_neg (fun h' => hne h'.2)]
  · have hskip : it.skipInfo = it := by rw [FileTlvIter.skipInfo, if_neg h]
    rw [hskip, hskip]

theorem AtRecord.skipInfo (h : AtRecord d it r) : AtRecord d it.skipInfo r where
  before := by
    rw [skipInfo_tlvEnd]
    exact h.before'
  before' := by
    rw [skipInfo_skipInfo, skipInfo_tlvEnd]
    exact h.before'
  header := by
    rw [skipInfo_skipInfo]
    exact h.header
  off := by
    rw [skipInfo_skipInfo]
    exact h.off
  inProt := by
    rw [skipInfo_skipInfo, skipInfo_protEnd]
    exact h.inProt

/-- One round at a record. -/
theorem nextBody_atRecord (h : AtRecord d it r) :
    nextBody d it =
      if it.prot = true ∧ r.inProt = false then
        .inr { rc := 1, found := {}, it := it.skipInfo }
      else if Wanted it.type r then
        .inr { rc := 0, found := r.found, it := it.skipInfo.advance r.tlv.len }
      else .inl (it.skipInfo.advance r.tlv.len) := by
  have hprot : (it.prot = true ∧ it.skipInfo.tlvOff ≥ it.protEnd) ↔
      (it.prot = true ∧ r.inProt = false) := by
    refine and_congr_right fun _ => ?_
    rw [← Bool.not_eq_true, ← h.inProt]
    exact UInt32.not_lt.symm
  have hfound : r.found =
      { off := it.skipInfo.tlvOff + 4, len := r.tlv.len, type := r.tlv.type } := by
    rw [AreaRecord.found, ← h.off, UInt32.ofNat_toNat]
  rw [nextBody, if_pos h.before, h.header]
  dsimp only
  rw [ImageTlv.decode_header, skipInfo_prot, skipInfo_protEnd, skipInfo_type, hfound]
  dsimp only
  by_cases hout : it.prot = true ∧ r.inProt = false
  · rw [if_pos (hprot.mpr hout), if_pos hout]
  · rw [if_neg (fun h => hout (hprot.mp h)), if_neg hout]
    rfl

/-- A call yields the first wanted record, or the end. -/
theorem iterate_nextBody (stuck : TlvNext) (fuel : Nat) (hl : Lists d recs it)
    (hfuel : recs.length < fuel) :
    let n := iterate (nextBody d) stuck fuel it
    ∃ rest, Lists d rest n.it ∧ n.it.type = it.type ∧ n.it.prot = it.prot ∧
      rest.length ≤ recs.length ∧
      match wanted it.type it.prot recs with
      | [] => n.rc = 1 ∧ wanted it.type it.prot rest = []
      | r :: rs => n.rc = 0 ∧ n.found = r.found ∧ wanted it.type it.prot rest = rs := by
  induction fuel generalizing recs it with
  | zero => exact absurd hfuel (Nat.not_lt_zero _)
  | succ fuel ih =>
    cases recs with
    | nil =>
      have hend : ¬ it.tlvOff < it.tlvEnd := UInt32.not_lt.mpr hl
      have hbody : nextBody d it = .inr { rc := 1, found := {}, it := it } := by
        rw [nextBody, if_neg hend]
      rw [iterate_inr hbody]
      exact ⟨[], hl, rfl, rfl, Nat.le_refl _, rfl, rfl⟩
    | cons r rest =>
      obtain ⟨hat, hrest⟩ := hl
      have hbody := nextBody_atRecord hat
      rw [List.length_cons] at hfuel
      by_cases hout : it.prot = true ∧ r.inProt = false
      · rw [if_pos hout] at hbody
        have hnone : wanted it.type it.prot (r :: rest) = [] := by rw [wanted, if_pos hout]
        rw [iterate_inr hbody, hnone]
        refine ⟨r :: rest, ⟨hat.skipInfo, ?_⟩, skipInfo_type it, skipInfo_prot it,
          Nat.le_refl _, rfl, hnone⟩
        rw [skipInfo_skipInfo]
        exact hrest
      · rw [if_neg hout] at hbody
        by_cases htype : Wanted it.type r
        · rw [if_pos htype] at hbody
          have hsome : wanted it.type it.prot (r :: rest) = r :: wanted it.type it.prot rest := by
            rw [wanted, if_neg hout, if_pos htype]
          rw [iterate_inr hbody, hsome]
          exact ⟨rest, hrest, skipInfo_type it, skipInfo_prot it, Nat.le_succ _, rfl, rfl, rfl⟩
        · rw [if_neg htype] at hbody
          have hskip : wanted it.type it.prot (r :: rest) = wanted it.type it.prot rest := by
            rw [wanted, if_neg hout, if_neg htype]
          have htype' : (it.skipInfo.advance r.tlv.len).type = it.type := skipInfo_type it
          have hprot' : (it.skipInfo.advance r.tlv.len).prot = it.prot := skipInfo_prot it
          obtain ⟨rest', h₁, h₂, h₃, h₄, h₅⟩ := ih hrest (by omega)
          rw [iterate_inl hbody, hskip]
          rw [htype', hprot'] at h₅
          exact ⟨rest', h₁, h₂.trans htype', h₃.trans hprot', Nat.le_succ_of_le h₄, h₅⟩

/-! ## Any number of calls -/

/-- What a call gives: the TLV, or the return code. -/
def TlvNext.outcome (n : TlvNext) : Except Int FoundTlv :=
  if n.rc = 0 then .ok n.found else .error n.rc

/-- The results of `n` calls in a row. -/
def nextCalls (hd : Handle) : Nat → FileTlvIter → Fw (List (Except Int FoundTlv))
  | 0, _ => return []
  | n + 1, it => do
    let r ← fileTlvIterNext hd it
    let rest ← nextCalls hd n r.it
    return r.outcome :: rest

/-- `n` calls on the contents. -/
def callsOn (d : FileData) : Nat → FileTlvIter → List (Except Int FoundTlv)
  | 0, _ => []
  | n + 1, it => (nextOn d it).outcome :: callsOn d n (nextOn d it).it

theorem run_nextCalls {w : World} (hw : Reading True hd d w) (n : Nat) (it : FileTlvIter) :
    (P.run (nextCalls hd n it) w).1 = callsOn d n it := by
  induction n generalizing it w with
  | zero => rfl
  | succ n ih =>
    obtain ⟨hw', hval⟩ := iterNext_returns P it w hw
    have hval' : (P.run (fileTlvIterNext hd it) w).1 = nextOn d it :=
      hval.resolve_right (fun h => h.1 trivial)
    show (P.run (fileTlvIterNext hd it >>= _) w).1 = _
    rw [P.run_bind, hval', P.run_bind]
    exact congrArg ((nextOn d it).outcome :: ·) (ih hw' (nextOn d it).it)

/-- What `n` calls give when these records are left: one after the other, and the
end from then on. -/
def thenEnd : List AreaRecord → Nat → List (Except Int FoundTlv)
  | _, 0 => []
  | [], n + 1 => .error 1 :: thenEnd [] n
  | r :: rest, n + 1 => .ok r.found :: thenEnd rest n

theorem callsOn_lists (n : Nat) (hl : Lists d recs it) (hfuel : recs.length < tlvFuel) :
    callsOn d n it = thenEnd (wanted it.type it.prot recs) n := by
  induction n generalizing it recs with
  | zero => rfl
  | succ n ih =>
    obtain ⟨rest, hl', htype, hprot, hlen, hout⟩ :=
      iterate_nextBody { rc := -1, found := {}, it := it } tlvFuel hl hfuel
    have hnext := ih hl' (Nat.lt_of_le_of_lt hlen hfuel)
    rw [htype, hprot] at hnext
    rw [callsOn, show callsOn d n (nextOn d it).it = _ from hnext, TlvNext.outcome]
    cases hwant : wanted it.type it.prot recs with
    | nil =>
      rw [hwant] at hout
      obtain ⟨hrc, hrest⟩ := hout
      rw [thenEnd, hrest, show (nextOn d it).rc = 1 from hrc, if_neg (by decide)]
    | cons r rs =>
      rw [hwant] at hout
      obtain ⟨hrc, hfound, hrest⟩ := hout
      rw [thenEnd, hrest, show (nextOn d it).rc = 0 from hrc,
        show (nextOn d it).found = r.found from hfound, if_pos rfl]

/-! ## Well-formed images -/

/-- A record of a list, read where the list says it is. -/
theorem atRecord_encode (inProt : Bool) {pfx rest : Bytes} {t : Tlv}
    (hbytes : d.bytes = pfx ++ (t.encode ++ rest)) (hoff : it.skipInfo.tlvOff.toNat = pfx.length)
    (hbefore : it.tlvOff < it.tlvEnd) (hend : pfx.length < it.tlvEnd.toNat)
    (hprot : pfx.length < it.protEnd.toNat ↔ inProt = true) :
    AtRecord d it { inProt := inProt, off := pfx.length + 4, tlv := t } ∧
      (it.skipInfo.advance t.len).tlvOff.toNat = pfx.length + 4 + t.payload.length := by
  have hlen : d.bytes.length = pfx.length + (4 + t.payload.length + rest.length) := by
    rw [hbytes]
    simp
  have hlt := fileData_length_lt d
  have hhead : slice d.bytes pfx.length 4 = t.header := by
    have h := slice_middle pfx t.header (t.payload ++ rest)
    rw [Tlv.header_length, ← List.append_assoc t.header] at h
    rw [hbytes]
    exact h
  have hoff₄ : (it.skipInfo.tlvOff + 4).toNat = pfx.length + 4 := by
    rw [UInt32.toNat_add, hoff]
    simp
    omega
  refine ⟨⟨hbefore, ?_, ?_, hoff₄, ?_⟩, ?_⟩
  · rw [UInt32.lt_iff_toNat_lt, hoff]
    exact hend
  · rw [loadBytes_of_le (by rw [hoff]; unfold tlvHdrSize; omega), hoff, tlvHdrSize, hhead]
  · rw [UInt32.lt_iff_toNat_lt, hoff]
    exact hprot
  · rw [FileTlvIter.advance, UInt32.toNat_add, UInt32.toNat_add, hoff, UInt16.toNat_toUInt32,
      Tlv.len_toNat]
    have := t.payload_lt
    simp
    omega

theorem SameArea.advance (it : FileTlvIter) (len : UInt16) :
    SameArea it (it.skipInfo.advance len) :=
  ⟨skipInfo_tlvEnd it, skipInfo_protEnd it, skipInfo_hdr it⟩

/-- A list whose records the iterator meets in a row, with what comes behind. -/
theorem lists_encode (inProt : Bool) {l : List Tlv} {more : List AreaRecord} {pfx rest : Bytes}
    (hbytes : d.bytes = pfx ++ (encodeTlvs l ++ rest)) (hoff : it.tlvOff.toNat = pfx.length)
    (hend : pfx.length + (encodeTlvs l).length ≤ it.tlvEnd.toNat)
    (hno : ∀ k, pfx.length ≤ k → k < pfx.length + (encodeTlvs l).length → NoInfoAt it k)
    (hprot : ∀ k, pfx.length ≤ k → k < pfx.length + (encodeTlvs l).length →
      (k < it.protEnd.toNat ↔ inProt = true))
    (hmore : ∀ it', SameArea it it' →
      it'.tlvOff.toNat = pfx.length + (encodeTlvs l).length → Lists d more it') :
    Lists d (records inProt pfx.length l ++ more) it := by
  induction l generalizing it pfx with
  | nil => exact hmore it ⟨rfl, rfl, rfl⟩ hoff
  | cons t tail ih =>
    rw [encodeTlvs_cons, List.length_append, Tlv.encode_length] at hend hno hprot hmore
    rw [encodeTlvs_cons, List.append_assoc] at hbytes
    have hskip : it.skipInfo = it :=
      skipInfo_of_noInfo (hoff ▸ hno _ (Nat.le_refl _) (by omega))
    have hbefore : it.tlvOff < it.tlvEnd := by
      rw [UInt32.lt_iff_toNat_lt, hoff]
      omega
    obtain ⟨hat, hnext⟩ := atRecord_encode inProt hbytes (by rw [hskip, hoff]) hbefore (by omega)
      (hprot _ (Nat.le_refl _) (by omega))
    have hsame := SameArea.advance it t.len
    have hpfx : (pfx ++ t.encode).length = pfx.length + 4 + t.payload.length := by
      rw [List.length_append, Tlv.encode_length]
      omega
    have hbytes₁ : d.bytes = (pfx ++ t.encode) ++ (encodeTlvs tail ++ rest) := by
      rw [hbytes, List.append_assoc]
    have hrest := ih hbytes₁ (by rw [hnext, hpfx]) (by rw [hsame.tlvEnd, hpfx]; omega)
      (fun k hlo hhi => hsame.noInfoAt (hno k (by omega) (by omega)))
      (fun k hlo hhi => by rw [hsame.protEnd]; exact hprot k (by omega) (by omega))
      (fun it' hs ho => hmore it' (hsame.trans hs) (by rw [ho, hpfx]; omega))
    rw [hpfx] at hrest
    exact ⟨hat, hrest⟩

variable {hdr : ImageHeader} {body tail : Bytes} {prot : Option (List Tlv)} {unprot : List Tlv}

/-- At the info record of the unprotected list the iterator stands in front of that
list, if there is anything in it. -/
theorem lists_unprot (hu : unprot ≠ []) {pfx : Bytes}
    (hbytes : d.bytes = pfx ++ (infoRecord IMAGE_TLV_INFO_MAGIC unprot ++ (encodeTlvs unprot ++ tail)))
    (hprot : 0 < it.hdr.ihProtectTlvSize.toNat) (hoff : it.tlvOff.toNat = pfx.length)
    (hprotEnd : it.protEnd.toNat = pfx.length)
    (hend : it.tlvEnd.toNat = pfx.length + 4 + (encodeTlvs unprot).length) :
    Lists d (records false (pfx.length + 4) unprot) it := by
  obtain ⟨t, rest, rfl⟩ : ∃ t rest, unprot = t :: rest := by
    cases unprot with
    | nil => exact absurd rfl hu
    | cons t rest => exact ⟨t, rest, rfl⟩
  have hlen : d.bytes.length =
      pfx.length + (4 + ((encodeTlvs (t :: rest)).length + tail.length)) := by
    rw [hbytes, List.length_append, List.length_append, List.length_append, infoRecord_length]
  have hlt := fileData_length_lt d
  rw [encodeTlvs_cons, List.length_append, Tlv.encode_length] at hend
  have hoff₄ : (it.tlvOff + 4).toNat = pfx.length + 4 := by
    rw [UInt32.toNat_add, hoff]
    simp
    omega
  have hskip : it.skipInfo = { it with tlvOff := it.tlvOff + 4 } := by
    rw [FileTlvIter.skipInfo, if_pos ⟨hprot, UInt32.toNat_inj.mp (hoff.trans hprotEnd.symm)⟩]
  have hpfx : (pfx ++ infoRecord IMAGE_TLV_INFO_MAGIC (t :: rest)).length = pfx.length + 4 := by
    simp
  have hbytes₁ : d.bytes = (pfx ++ infoRecord IMAGE_TLV_INFO_MAGIC (t :: rest)) ++
      (t.encode ++ (encodeTlvs rest ++ tail)) := by
    rw [hbytes, encodeTlvs_cons]
    simp
  have hoff' : it.skipInfo.tlvOff.toNat =
      (pfx ++ infoRecord IMAGE_TLV_INFO_MAGIC (t :: rest)).length := by
    rw [hskip, hpfx]
    exact hoff₄
  obtain ⟨hat, hnext⟩ := atRecord_encode false hbytes₁ hoff'
    (by rw [UInt32.lt_iff_toNat_lt]; omega) (by omega) (by rw [hpfx, hprotEnd]; simp)
  have hsame := SameArea.advance it t.len
  have hpfx' : (pfx ++ infoRecord IMAGE_TLV_INFO_MAGIC (t :: rest) ++ t.encode).length =
      pfx.length + 4 + 4 + t.payload.length := by
    rw [List.length_append, hpfx, Tlv.encode_length]
    omega
  have hrest : Lists d (records false _ rest ++ []) (it.skipInfo.advance t.len) := lists_encode false
    (show d.bytes = (pfx ++ infoRecord IMAGE_TLV_INFO_MAGIC (t :: rest) ++ t.encode) ++
      (encodeTlvs rest ++ tail) by rw [hbytes₁]; simp)
    (show (it.skipInfo.advance t.len).tlvOff.toNat = _ by rw [hnext, hpfx, hpfx'])
    (by rw [hsame.tlvEnd, hend, hpfx']; omega)
    (fun k hlo _ => hsame.noInfoAt fun _ => by omega)
    (fun k hlo _ => by rw [hsame.protEnd, hprotEnd]; simp; omega)
    (fun it' hs ho => by
      show it'.tlvEnd ≤ it'.tlvOff
      have htlvEnd : it'.tlvEnd.toNat = it.tlvEnd.toNat := by rw [hs.tlvEnd, hsame.tlvEnd]
      rw [UInt32.le_iff_toNat_le]
      omega)
  rw [hpfx', List.append_nil] at hrest
  rw [hpfx] at hat
  exact ⟨hat, hrest⟩

/-- The iterator over a well-formed image stands in front of all its records. -/
theorem WellFormedImage.lists (h : WellFormedImage d.bytes hdr body prot unprot tail)
    (hu : unprot ≠ []) (hhdr : it.hdr = hdr)
    (hb : AreaBounds it body.length (protSize prot) (listSize unprot)) :
    Lists d (areaRecords body.length prot unprot) it := by
  have husize : listSize unprot = 4 + (encodeTlvs unprot).length := rfl
  cases prot with
  | none =>
    have hpfx : (body ++ infoRecord IMAGE_TLV_INFO_MAGIC unprot).length = body.length + 4 := by
      simp
    have hend : it.tlvEnd.toNat = body.length + 4 + (encodeTlvs unprot).length := by
      rw [hb.tlvEnd, husize, protSize]
      omega
    have hall : Lists d (records false _ unprot ++ []) it := lists_encode false
      (show d.bytes = (body ++ infoRecord IMAGE_TLV_INFO_MAGIC unprot) ++
        (encodeTlvs unprot ++ tail) from
          h.bytes.trans (by simp [imageBytes, encodeProt, encodeList]))
      (show it.tlvOff.toNat = _ by rw [hpfx, hb.tlvOff])
      (by omega)
      (fun k _ _ hpos => by
        rw [hhdr, h.protFits] at hpos
        exact absurd hpos (Nat.lt_irrefl 0))
      (fun k hlo _ => by rw [hb.protEnd, protSize]; simp; omega)
      (fun it' hs ho => by
        show it'.tlvEnd ≤ it'.tlvOff
        have htlvEnd : it'.tlvEnd.toNat = it.tlvEnd.toNat := by rw [hs.tlvEnd]
        rw [UInt32.le_iff_toNat_le]
        omega)
    rw [hpfx, List.append_nil] at hall
    exact hall
  | some l =>
    have hpsize : protSize (some l) = 4 + (encodeTlvs l).length := rfl
    have hpfx : (body ++ infoRecord IMAGE_TLV_PROT_INFO_MAGIC l).length = body.length + 4 := by
      simp
    have hall : Lists d (records true _ l ++
        records false (body.length + protSize (some l) + 4) unprot) it := lists_encode true
      (show d.bytes = (body ++ infoRecord IMAGE_TLV_PROT_INFO_MAGIC l) ++
        (encodeTlvs l ++ (encodeList IMAGE_TLV_INFO_MAGIC unprot ++ tail)) from
          h.bytes.trans (by simp [imageBytes, encodeProt, encodeList]))
      (show it.tlvOff.toNat = _ by rw [hpfx, hb.tlvOff])
      (by rw [hpfx, hb.tlvEnd, hpsize]; omega)
      (fun k hlo hhi _ => by rw [hb.protEnd, hpsize]; omega)
      (fun k hlo hhi => by rw [hb.protEnd, hpsize]; simp; omega)
      (fun it' hs ho => by
        have hlen : (body ++ encodeProt (some l)).length = body.length + protSize (some l) := by
          rw [List.length_append, encodeProt_length]
        have hrest : Lists d _ it' := lists_unprot hu
          (show d.bytes = (body ++ encodeProt (some l)) ++
            (infoRecord IMAGE_TLV_INFO_MAGIC unprot ++ (encodeTlvs unprot ++ tail)) from
              h.bytes.trans (by simp [imageBytes, encodeList]))
          (by rw [hs.hdr, hhdr, h.protFits, hpsize]; omega)
          (by rw [ho, hpfx, hlen, hpsize]; omega)
          (by rw [hs.protEnd, hb.protEnd, hlen])
          (by rw [hs.tlvEnd, hb.tlvEnd, hlen, husize]; omega)
        rw [hlen] at hrest
        exact hrest)
    rw [hpfx] at hall
    exact hall

/-! ## The enumeration -/

theorem wanted_inProt {type : UInt16} {fl : Bool} {l more : List AreaRecord}
    (hl : ∀ r ∈ l, r.inProt = true) :
    wanted type fl (l ++ more) =
      l.filter (fun r => decide (Wanted type r)) ++ wanted type fl more := by
  induction l with
  | nil => rfl
  | cons r rest ih =>
    have hr := hl r List.mem_cons_self
    have hrest := ih (fun r' h => hl r' (List.mem_cons_of_mem _ h))
    rw [List.cons_append, wanted, if_neg (fun h => by rw [hr] at h; exact absurd h.2 (by simp))]
    by_cases hw : Wanted type r
    · rw [if_pos hw, List.filter_cons_of_pos (by exact decide_eq_true hw), hrest]
      rfl
    · rw [if_neg hw, List.filter_cons_of_neg (by simpa using hw), hrest]

theorem wanted_unprot {type : UInt16} {fl : Bool} {l : List AreaRecord}
    (hl : ∀ r ∈ l, r.inProt = false) :
    wanted type fl l =
      if fl = true then [] else l.filter (fun r => decide (Wanted type r)) := by
  induction l with
  | nil =>
    show [] = _
    split <;> rfl
  | cons r rest ih =>
    have hr := hl r List.mem_cons_self
    have hrest := ih (fun r' h => hl r' (List.mem_cons_of_mem _ h))
    rw [wanted]
    by_cases hfl : fl = true
    · rw [if_pos ⟨hfl, hr⟩, if_pos hfl]
    · rw [if_neg (fun h => hfl h.1), if_neg hfl, hrest, if_neg hfl]
      by_cases hw : Wanted type r
      · rw [if_pos hw, List.filter_cons_of_pos (by exact decide_eq_true hw)]
      · rw [if_neg hw, List.filter_cons_of_neg (by simpa using hw)]

/-- The TLVs an iterator over `type` is to yield: those of the protected list, or
those of both lists, of the requested type. -/
def selected (type : UInt16) (fl : Bool) (off : Nat) (prot : Option (List Tlv))
    (unprot : List Tlv) : List AreaRecord :=
  (if fl = true then records true (off + 4) (prot.getD [])
    else areaRecords off prot unprot).filter (fun r => decide (Wanted type r))

theorem wanted_areaRecords (type : UInt16) (fl : Bool) (off : Nat) (prot : Option (List Tlv))
    (unprot : List Tlv) :
    wanted type fl (areaRecords off prot unprot) = selected type fl off prot unprot := by
  rw [areaRecords, wanted_inProt (fun r hr => (records_mem hr).1),
    wanted_unprot (fun r hr => (records_mem hr).1), selected]
  by_cases hfl : fl = true
  · rw [if_pos hfl, if_pos hfl, List.append_nil]
  · rw [if_neg hfl, if_neg hfl, areaRecords, List.filter_append]

/-- The payload of a record is where the record says. -/
theorem records_payload {inProt : Bool} {l : List Tlv} {pfx rest : Bytes}
    (hbytes : d.bytes = pfx ++ (encodeTlvs l ++ rest)) {r : AreaRecord}
    (hr : r ∈ records inProt pfx.length l) :
    r.off + r.tlv.payload.length ≤ d.bytes.length ∧
      slice d.bytes r.off r.tlv.payload.length = r.tlv.payload := by
  induction l generalizing pfx with
  | nil => exact absurd hr (by simp [records])
  | cons t tail ih =>
    rw [encodeTlvs_cons, List.append_assoc] at hbytes
    rcases List.mem_cons.mp hr with rfl | hr
    · have h := slice_middle (pfx ++ t.header) t.payload (encodeTlvs tail ++ rest)
      rw [List.length_append, Tlv.header_length] at h
      constructor
      · rw [hbytes, List.length_append, List.length_append, Tlv.encode_length]
        dsimp only
        omega
      · rw [hbytes, Tlv.encode, List.append_assoc, ← List.append_assoc]
        exact h
    · have hpfx : (pfx ++ t.encode).length = pfx.length + 4 + t.payload.length := by
        rw [List.length_append, Tlv.encode_length]
        omega
      rw [← hpfx] at hr
      exact ih (by rw [hbytes, List.append_assoc]) hr

theorem WellFormedImage.payload (h : WellFormedImage d.bytes hdr body prot unprot tail)
    {r : AreaRecord} (hr : r ∈ areaRecords body.length prot unprot) :
    r.off + r.tlv.payload.length ≤ d.bytes.length ∧
      slice d.bytes r.off r.tlv.payload.length = r.tlv.payload := by
  rw [areaRecords, List.mem_append] at hr
  rcases hr with hr | hr
  · cases prot with
    | none => exact absurd hr (by simp [records])
    | some l =>
      have hpfx : (body ++ infoRecord IMAGE_TLV_PROT_INFO_MAGIC l).length = body.length + 4 := by
        simp
      have hbytes : d.bytes = (body ++ infoRecord IMAGE_TLV_PROT_INFO_MAGIC l) ++
          (encodeTlvs l ++ (encodeList IMAGE_TLV_INFO_MAGIC unprot ++ tail)) :=
        h.bytes.trans (by simp [imageBytes, encodeProt, encodeList])
      rw [← hpfx] at hr
      exact records_payload hbytes hr
  · have hpfx : (body ++ encodeProt prot ++ infoRecord IMAGE_TLV_INFO_MAGIC unprot).length =
        body.length + protSize prot + 4 := by
      simp
      omega
    have hbytes : d.bytes = (body ++ encodeProt prot ++ infoRecord IMAGE_TLV_INFO_MAGIC unprot) ++
        (encodeTlvs unprot ++ tail) := h.bytes.trans (by simp [imageBytes, encodeList])
    rw [← hpfx] at hr
    exact records_payload hbytes hr

theorem mem_selected {type : UInt16} {fl : Bool} {off : Nat} {r : AreaRecord}
    (hr : r ∈ selected type fl off prot unprot) : r ∈ areaRecords off prot unprot := by
  have hr := List.mem_of_mem_filter hr
  by_cases hfl : fl = true
  · rw [if_pos hfl] at hr
    exact List.mem_append_left _ hr
  · rw [if_neg hfl] at hr
    exact hr

theorem areaRecords_length (off : Nat) (prot : Option (List Tlv)) (unprot : List Tlv) :
    (areaRecords off prot unprot).length = (prot.getD []).length + unprot.length := by
  have hrec : ∀ (b : Bool) (o : Nat) (l : List Tlv), (records b o l).length = l.length := by
    intro b o l
    induction l generalizing o with
    | nil => rfl
    | cons t rest ih => rw [records, List.length_cons, ih, List.length_cons]
  rw [areaRecords, List.length_append, hrec, hrec]

theorem WellFormedImage.records_lt (h : WellFormedImage d.bytes hdr body prot unprot tail) :
    (areaRecords body.length prot unprot).length < tlvFuel := by
  have hlt := h.length_lt
  have hu := length_le_encodeTlvs unprot
  have husize : listSize unprot = 4 + (encodeTlvs unprot).length := rfl
  rw [areaRecords_length]
  unfold tlvFuel lfsFileMax
  cases prot with
  | none =>
    rw [Option.getD_none, List.length_nil]
    omega
  | some l =>
    have hp := length_le_encodeTlvs l
    have hpsize : protSize (some l) = 4 + (encodeTlvs l).length := rfl
    rw [Option.getD_some]
    omega

/-- Over a well-formed image the iterator starts, and any number of calls yields
the selected TLVs in order, each once and with its own place, length and type, and
then the end on every further call. -/
theorem fileTlvIter_enumerates {w : World} (hw : Reliable w) {f : OpenFile}
    (hf : lookupFile hd w.opened = some f)
    (h : WellFormedImage f.data.bytes hdr body prot unprot tail) (hu : unprot ≠ [])
    (type : UInt16) (fl : Bool) :
    let r := P.run (fileTlvIterBegin hd hdr type fl) w
    let tlvs := selected type fl body.length prot unprot
    (∃ it, r.1 = some it ∧
        ∀ n, (P.run (nextCalls hd n it) r.2).1 = thenEnd tlvs n) ∧
      ∀ t ∈ tlvs, t.found.off.toNat = t.off ∧ t.found.len.toNat = t.tlv.payload.length ∧
        slice f.data.bytes t.off t.tlv.payload.length = t.tlv.payload := by
  intro r tlvs
  have hread : Reading True hd f.data w := ⟨fun _ => hw, f, hf, rfl⟩
  obtain ⟨it, hit, hhdr, hb⟩ := h.begin type fl
  obtain ⟨hread', hbegin⟩ := fileTlvIterBegin_returns P hdr type fl w hread
  have hr : r.1 = some it := (hbegin.resolve_right (fun e => e.1 trivial)).trans hit
  obtain ⟨htype, hfl⟩ := tlvIterBegin_some hit
  constructor
  · refine ⟨it, hr, fun n => ?_⟩
    rw [run_nextCalls P hread', callsOn_lists n (h.lists hu hhdr hb) h.records_lt, htype, hfl,
      wanted_areaRecords]
  · intro t ht
    obtain ⟨hin, hpay⟩ := h.payload (mem_selected ht)
    refine ⟨?_, t.tlv.len_toNat, hpay⟩
    have hlt := fileData_length_lt f.data
    rw [AreaRecord.found, UInt32.toNat_ofNat', Nat.mod_eq_of_lt (by omega)]

/-- The iterator over the unprotected types of the reference image. -/
theorem signedFile_enumerates :
    let w := openWorld Reference.signedFile
    let r := (Reference.platform 8).run
      (fileTlvIterBegin 0 Reference.imageHeader IMAGE_TLV_KEYHASH false) w
    let tlvs := selected IMAGE_TLV_KEYHASH false 40 none
      (Reference.signedTlvs (Reference.imageBody 1 0x1000))
    (∃ it, r.1 = some it ∧
        ∀ n, ((Reference.platform 8).run (nextCalls 0 n it) r.2).1 = thenEnd tlvs n) ∧
      ∀ t ∈ tlvs, t.found.off.toNat = t.off ∧ t.found.len.toNat = t.tlv.payload.length ∧
        slice Reference.signedFile.bytes t.off t.tlv.payload.length = t.tlv.payload :=
  fileTlvIter_enumerates (Reference.platform 8) (w := openWorld Reference.signedFile)
    (f := { name := .app, data := Reference.signedFile, pos := 0 }) (fun _ _ => rfl) rfl
    Reference.signedFile_wellFormed (List.cons_ne_nil _ _) IMAGE_TLV_KEYHASH false

end RuuviMcuboot
