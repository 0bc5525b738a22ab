/-
The two tests for a protected TLV.

An iteration over the protected TLVs stops where a TLV starts at the end of the
protected area; `file_tlv_iter_is_prot` compares the offset of the payload with that
end.  They differ for a TLV that ends there and has no payload, which is the last
protected one.
-/
import RuuviMcuboot.Validate.Coverage
import RuuviMcuboot.Validate.Inside

namespace RuuviMcuboot

open Binary Effect

variable (P : Platform) {hd : Handle} {w : World} {f : OpenFile} {d : FileData}
  {hdr : ImageHeader} {body tail : Bytes} {prot : Option (List Tlv)} {unprot : List Tlv}
  {it : FileTlvIter}

/-! ## The end of the area -/

theorem nextBody_sameArea (it : FileTlvIter) :
    (∀ it', nextBody d it = .inl it' → SameArea it it') ∧
      ∀ n, nextBody d it = .inr n → SameArea it n.it := by
  have hskip : SameArea it it.skipInfo :=
    ⟨skipInfo_tlvEnd it, skipInfo_protEnd it, skipInfo_hdr it⟩
  unfold nextBody
  by_cases hoff : it.tlvOff < it.tlvEnd
  · rw [if_pos hoff]
    cases loadBytes d it.skipInfo.tlvOff tlvHdrSize with
    | error rc => exact ⟨fun _ h => absurd h (by simp), fun _ h => Sum.inr.inj h ▸ hskip⟩
    | ok b =>
      dsimp only
      by_cases hprot : it.skipInfo.prot = true ∧ it.skipInfo.tlvOff ≥ it.skipInfo.protEnd
      · rw [if_pos hprot]
        exact ⟨fun _ h => absurd h (by simp), fun _ h => Sum.inr.inj h ▸ hskip⟩
      · rw [if_neg hprot]
        by_cases htype : it.skipInfo.type = IMAGE_TLV_ANY ∨
            (ImageTlv.decode b).itType = it.skipInfo.type
        · rw [if_pos htype]
          exact ⟨fun _ h => absurd h (by simp),
            fun _ h => Sum.inr.inj h ▸ ⟨hskip.tlvEnd, hskip.protEnd, hskip.hdr⟩⟩
        · rw [if_neg htype]
          exact ⟨fun _ h => Sum.inl.inj h ▸ ⟨hskip.tlvEnd, hskip.protEnd, hskip.hdr⟩,
            fun _ h => absurd h (by simp)⟩
  · rw [if_neg hoff]
    exact ⟨fun _ h => absurd h (by simp), fun _ h => Sum.inr.inj h ▸ ⟨rfl, rfl, rfl⟩⟩

/-- A call leaves the bounds of the area as they are. -/
theorem nextOn_sameArea (it : FileTlvIter) : SameArea it (nextOn d it).it := by
  have hloop : ∀ fuel s, SameArea it s →
      SameArea it (iterate (nextBody d) { rc := -1, found := {}, it := it } fuel s).it := by
    intro fuel
    induction fuel with
    | zero => exact fun s _ => ⟨rfl, rfl, rfl⟩
    | succ fuel ih =>
      intro s hs
      cases hb : nextBody d s with
      | inl s' =>
        rw [iterate_inl hb]
        exact ih s' (hs.trans ((nextBody_sameArea s).1 s' hb))
      | inr n =>
        rw [iterate_inr hb]
        exact hs.trans ((nextBody_sameArea s).2 n hb)
  exact hloop _ it ⟨rfl, rfl, rfl⟩

theorem after_sameArea (n : Nat) (it : FileTlvIter) : SameArea it (after d n it) := by
  induction n generalizing it with
  | zero => exact ⟨rfl, rfl, rfl⟩
  | succ n ih =>
    rw [after, Function.iterate_succ_apply]
    exact (nextOn_sameArea it).trans (ih _)

/-! ## Offsets of records -/

/-- The payload of a record ends in its list. -/
theorem records_end {inProt : Bool} {off : Nat} {l : List Tlv} {r : AreaRecord}
    (hr : r ∈ records inProt off l) :
    off + 4 ≤ r.off ∧ r.off + r.tlv.payload.length ≤ off + (encodeTlvs l).length := by
  induction l generalizing off with
  | nil => exact absurd hr (by simp [records])
  | cons t rest ih =>
    rw [encodeTlvs_cons, List.length_append, Tlv.encode_length]
    rcases List.mem_cons.mp hr with rfl | hr
    · dsimp only
      omega
    · have := ih hr
      omega

/-- The payloads start in front of the end of the list, unless the last one is empty. -/
theorem records_off_lt {inProt : Bool} {off : Nat} {l : List Tlv}
    (hlast : ∀ t, l.getLast? = some t → t.payload ≠ []) {r : AreaRecord}
    (hr : r ∈ records inProt off l) : r.off < off + (encodeTlvs l).length := by
  induction l generalizing off with
  | nil => exact absurd hr (by simp [records])
  | cons t rest ih =>
    rw [encodeTlvs_cons, List.length_append, Tlv.encode_length]
    cases rest with
    | nil =>
      have hpos := List.length_pos_of_ne_nil (hlast t rfl)
      rcases List.mem_cons.mp hr with rfl | hr
      · dsimp only
        omega
      · exact absurd hr (by simp [records])
    | cons u rest =>
      have hlen : 4 ≤ (encodeTlvs (u :: rest)).length := by
        rw [encodeTlvs_cons, List.length_append, Tlv.encode_length]
        omega
      rcases List.mem_cons.mp hr with rfl | hr
      · dsimp only
        omega
      · have := ih (fun t h => hlast t (by rw [List.getLast?_cons_cons]; exact h)) hr
        omega

/-- An empty last payload starts at the end of the list. -/
theorem exists_record_end (inProt : Bool) (off : Nat) {l : List Tlv} {t : Tlv}
    (hlast : l.getLast? = some t) (hempty : t.payload = []) :
    ∃ r ∈ records inProt off l, r.off = off + (encodeTlvs l).length := by
  obtain ⟨pre, rfl⟩ := List.getLast?_eq_some_iff.mp hlast
  refine ⟨{ inProt := inProt, off := off + (encodeTlvs pre).length + 4, tlv := t }, ?_, ?_⟩
  · rw [records_append]
    exact List.mem_append_right _ List.mem_cons_self
  · have hlen : (encodeTlvs (pre ++ [t])).length = (encodeTlvs pre).length + 4 := by
      have happ : encodeTlvs (pre ++ [t]) = encodeTlvs pre ++ t.encode := by
        simp [encodeTlvs]
      rw [happ, List.length_append, Tlv.encode_length, hempty]
      rfl
    rw [hlen]
    dsimp only
    omega

/-! ## What the calls yield -/

theorem mem_thenEnd {found : FoundTlv} {recs : List AreaRecord} {n : Nat}
    (h : .ok found ∈ thenEnd recs n) : ∃ r ∈ recs, r.found = found := by
  induction n generalizing recs with
  | zero => exact absurd h (by simp [thenEnd])
  | succ n ih =>
    cases recs with
    | nil =>
      rcases List.mem_cons.mp h with h | h
      · exact absurd h (by simp)
      · exact absurd (ih h) (by simp)
    | cons r rest =>
      rcases List.mem_cons.mp h with h | h
      · exact ⟨r, List.mem_cons_self, (Except.ok.inj h).symm⟩
      · obtain ⟨r', hr', hfound⟩ := ih h
        exact ⟨r', List.mem_cons_of_mem _ hr', hfound⟩

theorem found_mem_thenEnd {recs : List AreaRecord} {r : AreaRecord} (hr : r ∈ recs) :
    .ok r.found ∈ thenEnd recs recs.length := by
  induction recs with
  | nil => exact absurd hr (by simp)
  | cons u rest ih =>
    rcases List.mem_cons.mp hr with rfl | hr
    · exact List.mem_cons_self
    · exact List.mem_cons_of_mem _ (ih hr)

theorem selected_any (fl : Bool) (off : Nat) (prot : Option (List Tlv)) (unprot : List Tlv) :
    selected IMAGE_TLV_ANY fl off prot unprot =
      if fl = true then records true (off + 4) (prot.getD []) else areaRecords off prot unprot := by
  unfold selected
  rw [List.filter_eq_self]
  intro r _
  exact decide_eq_true (Or.inl rfl)

/-- An iteration over a well-formed image: its iterator, and what calls give. -/
structure Iterates (P : Platform) (hd : Handle) (d : FileData) (off : Nat)
    (prot : Option (List Tlv)) (unprot : List Tlv) (fl : Bool) (it : FileTlvIter) (w : World) :
    Prop where
  reading : Reading True hd d w
  protEnd : it.protEnd.toNat = off + protSize prot
  calls : ∀ n, callsOn d n it = thenEnd (selected IMAGE_TLV_ANY fl off prot unprot) n
  outcomes : ∀ n, (P.run (nextCalls hd n it) w).1 = callsOn d n it

theorem WellFormedImage.iterates (hw : Reliable w) (hf : lookupFile hd w.opened = some f)
    (h : WellFormedImage f.data.bytes hdr body prot unprot tail) (hu : unprot ≠ []) (fl : Bool) :
    let r := P.run (fileTlvIterBegin hd hdr IMAGE_TLV_ANY fl) w
    ∃ it, r.1 = some it ∧ Iterates P hd f.data body.length prot unprot fl it r.2 := by
  intro r
  have hread : Reading True hd f.data w := ⟨fun _ => hw, f, hf, rfl⟩
  obtain ⟨it, hit, hhdr, hb⟩ := h.begin IMAGE_TLV_ANY fl
  obtain ⟨hread', hbegin⟩ := fileTlvIterBegin_returns P hdr IMAGE_TLV_ANY fl w hread
  obtain ⟨htype, hfl⟩ := tlvIterBegin_some hit
  refine ⟨it, (hbegin.resolve_right (fun e => e.1 trivial)).trans hit, hread', hb.protEnd,
    fun n => ?_, fun n => run_nextCalls P hread' n it⟩
  rw [callsOn_lists n (h.lists hu hhdr hb) h.records_lt, htype, hfl, wanted_areaRecords]

/-- The payload offset of a record, as the iterator reports it. -/
theorem WellFormedImage.found_off (h : WellFormedImage d.bytes hdr body prot unprot tail)
    {r : AreaRecord} (hr : r ∈ areaRecords body.length prot unprot) :
    r.found.off.toNat = r.off := by
  have hin := (h.payload hr).1
  have hlt := fileData_length_lt d
  rw [AreaRecord.found, UInt32.toNat_ofNat', Nat.mod_eq_of_lt (by omega)]

/-- Records of the two lists are told apart by their offsets. -/
theorem areaRecords_side {off : Nat} {r : AreaRecord} (hr : r ∈ areaRecords off prot unprot) :
    (r ∈ records true (off + 4) (prot.getD []) ∧ r.off ≤ off + protSize prot) ∨
      (r ∈ records false (off + protSize prot + 4) unprot ∧ off + protSize prot + 8 ≤ r.off) := by
  rcases List.mem_append.mp hr with hr | hr
  · refine Or.inl ⟨hr, ?_⟩
    have hend := records_end hr
    cases prot with
    | none => exact absurd hr (by simp [records])
    | some l =>
      have hsize : protSize (some l) = 4 + (encodeTlvs l).length := rfl
      rw [Option.getD_some] at hend
      omega
  · have hend := records_end hr
    exact Or.inr ⟨hr, by omega⟩

/-- The last protected TLV, if there is one, has a payload. -/
def LastProtHasPayload (prot : Option (List Tlv)) : Prop :=
  ∀ t, (prot.getD []).getLast? = some t → t.payload ≠ []

theorem LastProtHasPayload.off_lt (h : LastProtHasPayload prot) {off : Nat} {r : AreaRecord}
    (hr : r ∈ records true (off + 4) (prot.getD [])) : r.off < off + protSize prot := by
  have hlt := records_off_lt h hr
  cases prot with
  | none => exact absurd hr (by simp [records])
  | some l =>
    have hsize : protSize (some l) = 4 + (encodeTlvs l).length := rfl
    rw [Option.getD_some] at hlt
    omega

/-! ## The two tests -/

/-- A TLV of a type that needs the protection is refused exactly if it fails the
test. -/
theorem run_validateTlv_restricted {st : ValidateState} (hw : Reading True hd d w) (hash : Bytes)
    (hrc : (nextOn d st.it).rc = 0) (hrogue : P.allowRogueTlvs = false)
    (htype : (nextOn d st.it).found.type ∉ allowedUnprotTlvs) :
    (P.run (fileImageValidateTlv P hd hash st) w).1.1 = -1 ↔
      fileTlvIterIsProt (nextOn d st.it).it (nextOn d st.it).found.off = false := by
  have hnext : (P.run (fileTlvIterNext hd st.it) w).1 = nextOn d st.it :=
    ((iterNext_returns P st.it w hw).2).resolve_right (fun e => e.1 trivial)
  have hhash : ¬ (nextOn d st.it).found.type = P.expectedHashTlv :=
    fun h => htype (h ▸ expectedHashTlv_allowed P)
  have hkey : ¬ (nextOn d st.it).found.type = IMAGE_TLV_KEYHASH :=
    fun h => htype (h ▸ keyhash_allowed)
  have hsig : ¬ (nextOn d st.it).found.type = P.expectedSigTlv :=
    fun h => htype (h ▸ expectedSigTlv_allowed P)
  have hrun : (P.run (fileImageValidateTlv P hd hash st) w).1 =
      if fileTlvIterIsProt (nextOn d st.it).it (nextOn d st.it).found.off = false then
        (-1, { st with it := (nextOn d st.it).it })
      else (0, { st with it := (nextOn d st.it).it }) := by
    show (P.run (fileTlvIterNext hd st.it >>= _) w).1 = _
    rw [P.run_bind, hnext]
    show (P.run (if (nextOn d st.it).rc ≠ 0 then _ else if _ then _ else if _ then _ else
      if _ then _ else if _ then _ else _) _).1 = _
    rw [if_neg (not_not.mpr hrc), if_neg hhash, if_neg hkey, if_neg hsig]
    by_cases hprot : fileTlvIterIsProt (nextOn d st.it).it (nextOn d st.it).found.off = false
    · rw [if_pos hprot, if_pos ⟨hrogue, hprot, htype⟩]
      rfl
    · rw [if_neg hprot, if_neg (fun h => hprot h.2.1)]
      rfl
  rw [hrun]
  by_cases hprot : fileTlvIterIsProt (nextOn d st.it).it (nextOn d st.it).found.off = false
  · rw [if_pos hprot]
    exact ⟨fun _ => hprot, fun _ => rfl⟩
  · rw [if_neg hprot]
    exact ⟨fun h => absurd h (show ¬ (0 : Int) = -1 by decide), fun h => absurd h hprot⟩

/-- The tests agree on every TLV that an iteration over all TLVs yields, and the
validation restricts the types of exactly the unprotected ones. -/
structure ProtNotionsAgree (P : Platform) (hd : Handle) (d : FileData) (off : Nat)
    (prot : Option (List Tlv)) (unprot : List Tlv) (it itp : FileTlvIter) (w wp : World) :
    Prop where
  isProt : ∀ n found, .ok found ∈ (P.run (nextCalls hd n it) w).1 →
    (fileTlvIterIsProt it found.off = true ↔
      ∃ m, .ok found ∈ (P.run (nextCalls hd m itp) wp).1)
  restricted : P.allowRogueTlvs = false → ∀ k hash st w', st.it = after d k it →
    Reading True hd d w' → ∀ n, (P.run (fileTlvIterNext hd st.it) w').1 = n → n.rc = 0 →
      n.found.type ∉ allowedUnprotTlvs →
        ((P.run (fileImageValidateTlv P hd hash st) w').1.1 = -1 ↔
          ∃ r ∈ records false (off + protSize prot + 4) unprot, r.found = n.found)

/-- Over a well-formed image the iteration over the protected TLVs yields those of the
protected list, and the two tests agree exactly if the last of these has a payload. -/
theorem protNotions_agree_iff (hw : Reliable w) (hf : lookupFile hd w.opened = some f)
    (h : WellFormedImage f.data.bytes hdr body prot unprot tail) (hu : unprot ≠ []) :
    let a := P.run (fileTlvIterBegin hd hdr IMAGE_TLV_ANY false) w
    let p := P.run (fileTlvIterBegin hd hdr IMAGE_TLV_ANY true) w
    ∃ it itp, a.1 = some it ∧ p.1 = some itp ∧
      (∀ n found, .ok found ∈ (P.run (nextCalls hd n it) a.2).1 →
        ((∃ m, .ok found ∈ (P.run (nextCalls hd m itp) p.2).1) ↔
          ∃ r ∈ records true (body.length + 4) (prot.getD []), r.found = found)) ∧
      (ProtNotionsAgree P hd f.data body.length prot unprot it itp a.2 p.2 ↔
        LastProtHasPayload prot) := by
  intro a p
  obtain ⟨it, hit, hall⟩ := h.iterates P hw hf hu false
  obtain ⟨itp, hitp, hprot⟩ := h.iterates P hw hf hu true
  have hyields : ∀ n found, .ok found ∈ (P.run (nextCalls hd n it) a.2).1 →
      ∃ r ∈ areaRecords body.length prot unprot, r.found = found := by
    intro n found hmem
    rw [hall.outcomes, hall.calls, selected_any, if_neg Bool.false_ne_true] at hmem
    exact mem_thenEnd hmem
  have hprotIff : ∀ found, (∃ m, .ok found ∈ (P.run (nextCalls hd m itp) p.2).1) ↔
      ∃ r ∈ records true (body.length + 4) (prot.getD []), r.found = found := by
    intro found
    constructor
    · rintro ⟨m, hmem⟩
      rw [hprot.outcomes, hprot.calls, selected_any, if_pos rfl] at hmem
      exact mem_thenEnd hmem
    · rintro ⟨r, hr, rfl⟩
      refine ⟨(records true (body.length + 4) (prot.getD [])).length, ?_⟩
      rw [hprot.outcomes, hprot.calls, selected_any, if_pos rfl]
      exact found_mem_thenEnd hr
  have hoff : ∀ r ∈ areaRecords body.length prot unprot, r.found.off.toNat = r.off :=
    fun r hr => h.found_off hr
  have htest : ∀ r ∈ areaRecords body.length prot unprot,
      (fileTlvIterIsProt it r.found.off = true ↔ r.off < body.length + protSize prot) := by
    intro r hr
    unfold fileTlvIterIsProt
    rw [decide_eq_true_iff, UInt32.lt_iff_toNat_lt, hoff r hr, hall.protEnd]
  -- an unprotected record is not reported as one of the protected list
  have hside : ∀ r ∈ areaRecords body.length prot unprot,
      body.length + protSize prot + 8 ≤ r.off →
        ¬ ∃ r' ∈ records true (body.length + 4) (prot.getD []), r'.found = r.found := by
    rintro r hr hbehind ⟨r', hr', hsame⟩
    have hr'' := List.mem_append_left (records false (body.length + protSize prot + 4) unprot) hr'
    have hsame' : r'.off = r.off := by rw [← hoff r' hr'', ← hoff r hr, hsame]
    rcases areaRecords_side hr'' with ⟨-, hle⟩ | ⟨hmem, -⟩
    · omega
    · have hp := (records_mem hr').1
      rw [(records_mem hmem).1] at hp
      exact absurd hp (by decide)
  refine ⟨it, itp, hit, hitp, fun n found _ => hprotIff found, ?_, ?_⟩
  · intro hagree t ht hempty
    obtain ⟨r, hr, hend⟩ := exists_record_end true (body.length + 4) ht hempty
    have hr' := List.mem_append_left (records false (body.length + protSize prot + 4) unprot) hr
    have hmem : .ok r.found ∈ (P.run (nextCalls hd
        (areaRecords body.length prot unprot).length it) a.2).1 := by
      rw [hall.outcomes, hall.calls, selected_any, if_neg Bool.false_ne_true]
      exact found_mem_thenEnd hr'
    have hlt := (htest r hr').mp ((hagree.isProt _ _ hmem).mpr ((hprotIff _).mpr ⟨r, hr, rfl⟩))
    cases prot with
    | none => exact absurd hr (by simp [records])
    | some l =>
      have hsize : protSize (some l) = 4 + (encodeTlvs l).length := rfl
      rw [Option.getD_some] at hend
      omega
  · intro hlast
    have hiff : ∀ r ∈ areaRecords body.length prot unprot,
        (fileTlvIterIsProt it r.found.off = true ↔
          ∃ r' ∈ records true (body.length + 4) (prot.getD []), r'.found = r.found) := by
      intro r hr
      rw [htest r hr]
      rcases areaRecords_side hr with ⟨hmem, -⟩ | ⟨-, hbehind⟩
      · exact ⟨fun _ => ⟨r, hmem, rfl⟩, fun _ => hlast.off_lt hmem⟩
      · exact ⟨fun hlt => by omega, fun hex => absurd hex (hside r hr hbehind)⟩
    refine ⟨fun n found hmem => ?_, ?_⟩
    · obtain ⟨r, hr, rfl⟩ := hyields n found hmem
      rw [hprotIff]
      exact hiff r hr
    · intro hrogue k hash st w' hst hw' n hn hrc htype
      have hnext : (P.run (fileTlvIterNext hd st.it) w').1 = nextOn f.data st.it :=
        ((iterNext_returns P st.it w' hw').2).resolve_right (fun e => e.1 trivial)
      obtain rfl : nextOn f.data st.it = n := hnext.symm.trans hn
      rw [run_validateTlv_restricted P hw' hash hrc hrogue htype]
      have hcall : .ok (nextOn f.data st.it).found ∈ (P.run (nextCalls hd (k + 1) it) a.2).1 := by
        have hmem := outcome_mem_callsOn f.data k it
        rw [← hst, TlvNext.outcome, if_pos hrc] at hmem
        rw [hall.outcomes]
        exact hmem
      obtain ⟨r, hr, hfound⟩ := hyields _ _ hcall
      have hsame : (nextOn f.data st.it).it.protEnd = it.protEnd := by
        rw [hst]
        exact ((after_sameArea k it).trans (nextOn_sameArea _)).protEnd
      have hprotEq : fileTlvIterIsProt (nextOn f.data st.it).it (nextOn f.data st.it).found.off =
          fileTlvIterIsProt it r.found.off := by
        unfold fileTlvIterIsProt
        rw [hsame, hfound]
      rw [hprotEq, ← Bool.not_eq_true, hiff r hr, ← hfound]
      rcases areaRecords_side hr with ⟨hmem, hle⟩ | ⟨hmem, hbehind⟩
      · refine ⟨fun hno => absurd ⟨r, hmem, rfl⟩ hno, ?_⟩
        rintro ⟨r', hr', hsame'⟩ -
        have hr'' := List.mem_append_right (records true (body.length + 4) (prot.getD [])) hr'
        have hoff' : r'.off = r.off := by rw [← hoff r' hr'', ← hoff r hr, hsame']
        have := (records_end hr').1
        omega
      · exact ⟨fun _ => ⟨r, hmem, rfl⟩, fun _ => hside r hr hbehind⟩

/-! ## A protected TLV without a payload -/

namespace Reference

/-- The header of an image with one protected TLV. -/
def protectingHeader (t : Tlv) : ImageHeader :=
  { imageHeader with ihProtectTlvSize := UInt16.ofNat (8 + t.payload.length) }

def protectingBody (t : Tlv) : Bytes :=
  leBytes 4 IMAGE_MAGIC.toNat ++ leBytes 4 0 ++ leBytes 2 32 ++ leBytes 2 (8 + t.payload.length) ++
    leBytes 4 8 ++ List.replicate 16 0 ++ [0xA5, 1, 0, 1] ++ leBytes 4 0x1000

/-- The image, signed over the body and the protected TLV. -/
def protectingImage (t : Tlv) : Bytes :=
  imageBytes (protectingBody t) (some [t])
    (signedTlvs (protectingBody t ++ encodeProt (some [t]))) []

def markTlv : Tlv := { type := 0xB0, payload := [], payload_lt := Tlv.nil_lt }

def noteTlv : Tlv := { type := 0xB0, payload := [7], payload_lt := by decide }

def markedFile : FileData := { bytes := protectingImage markTlv, size_le := by decide +kernel }

def notedFile : FileData := { bytes := protectingImage noteTlv, size_le := by decide +kernel }

/-- The iterators over the marked image. -/
def markedIter (prot : Bool) : FileTlvIter where
  hdr := protectingHeader markTlv
  type := IMAGE_TLV_ANY
  prot := prot
  protEnd := 48
  tlvOff := 44
  tlvEnd := 129

theorem notedFile_wellFormed :
    WellFormedImage notedFile.bytes (protectingHeader noteTlv) (protectingBody noteTlv)
      (some [noteTlv]) (signedTlvs (protectingBody noteTlv ++ encodeProt (some [noteTlv]))) [] :=
  ⟨rfl, by decide, by decide, by decide +kernel⟩

end Reference

/-- Where the protected TLV has a payload the tests agree. -/
theorem notedFile_agrees :
    let P := Reference.platform 8
    let a := P.run (fileTlvIterBegin 0 (Reference.protectingHeader Reference.noteTlv)
      IMAGE_TLV_ANY false) (openWorld Reference.notedFile)
    let p := P.run (fileTlvIterBegin 0 (Reference.protectingHeader Reference.noteTlv)
      IMAGE_TLV_ANY true) (openWorld Reference.notedFile)
    ∃ it itp, a.1 = some it ∧ p.1 = some itp ∧
      ProtNotionsAgree P 0 Reference.notedFile (Reference.protectingBody Reference.noteTlv).length
        (some [Reference.noteTlv])
        (Reference.signedTlvs (Reference.protectingBody Reference.noteTlv ++
          encodeProt (some [Reference.noteTlv]))) it itp a.2 p.2 := by
  intro P a p
  obtain ⟨it, itp, ha, hp, -, hiff⟩ := protNotions_agree_iff (Reference.platform 8)
    (w := openWorld Reference.notedFile)
    (f := { name := .app, data := Reference.notedFile, pos := 0 }) (fun _ _ => rfl)
    (show lookupFile 0 (openWorld Reference.notedFile).opened = some _ from rfl)
    Reference.notedFile_wellFormed (List.cons_ne_nil _ _)
  refine ⟨it, itp, ha, hp, hiff.mpr fun t ht => ?_⟩
  obtain rfl := Option.some.inj ht
  exact List.cons_ne_nil _ _

/-- The iteration over the protected TLVs yields the TLV without a payload, the test
says that it is not protected, and the signed image is refused; without the restriction
it is accepted. -/
theorem markedFile_differs :
    let P := Reference.platform 8
    let w := openWorld Reference.markedFile
    let found : FoundTlv := { off := 48, len := 0, type := 0xB0 }
    let hdr := Reference.protectingHeader Reference.markTlv
    WellFormedImage Reference.markedFile.bytes hdr (Reference.protectingBody Reference.markTlv)
        (some [Reference.markTlv]) (Reference.signedTlvs
          (Reference.protectingBody Reference.markTlv ++ encodeProt (some [Reference.markTlv]))) [] ∧
      (P.run (fileTlvIterBegin 0 hdr IMAGE_TLV_ANY false) w).1 = some (Reference.markedIter false) ∧
      (P.run (fileTlvIterBegin 0 hdr IMAGE_TLV_ANY true) w).1 = some (Reference.markedIter true) ∧
      (P.run (nextCalls 0 1 (Reference.markedIter false)) w).1 = [.ok found] ∧
      (P.run (nextCalls 0 1 (Reference.markedIter true)) w).1 = [.ok found] ∧
      fileTlvIterIsProt (Reference.markedIter false) found.off = false ∧
      (P.run (fileImgValidate P 0 hdr 0x100 256 none) w).1 = .failure ∧
      (({ P with allowRogueTlvs := true } : Platform).run
        (fileImgValidate { P with allowRogueTlvs := true } 0 hdr 0x100 256 none) w).1 =
          .success :=
  ⟨⟨rfl, by decide, by decide, by decide +kernel⟩, by decide +kernel⟩

end RuuviMcuboot
