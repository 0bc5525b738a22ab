/-
What the protected TLVs of an image declare as its hardware revision.

`RevDeclared` is the specification: the first id record and the first name record
among the TLVs that lie wholly in the protected area.  The searches walk further
than that, and take an id of zero or an empty name for one that they have not seen
yet.  They meet the specification exactly where this makes no difference.
-/
import RuuviMcuboot.Revision.Search
import RuuviMcuboot.Update.Footprints

namespace RuuviMcuboot

open Binary Effect

variable {P : Platform} {w : World} {hd : Handle} {d : FileData} {r : HwRev} {t : RevTlv}
  {l : List RevTlv}

/-! ## The specification -/

/-- The TLVs from `off` on that lie wholly in an area. -/
def wholeTlvs (area : Bytes) : Nat → Nat → List RevTlv
  | 0, _ => []
  | fuel + 1, off =>
    let t := revTlvAt (fileRead area) area off
    if off + 4 ≤ area.length ∧ t.last ≤ area.length then t :: wholeTlvs area fuel t.last else []

/-- The end of the protected area: `it_tlv_tot` counts the info header. -/
def protEnd (b : Bytes) (o : Nat) : Nat :=
  o + (ImageTlvInfo.decode (slice b o tlvHdrSize)).itTlvTot.toNat

/-- The TLVs of the protected area whose info header is at `o`. -/
def protTlvs (b : Bytes) (o : Nat) : List RevTlv :=
  wholeTlvs (b.take (protEnd b o)) b.length (o + 4)

def RevTlv.IsId (P : Platform) (t : RevTlv) : Prop := t.type = P.ruuviHwRevIdTlv

def RevTlv.IsName (P : Platform) (t : RevTlv) : Prop := t.type = P.ruuviHwRevNameTlv

instance : Decidable (t.IsId P) := inferInstanceAs (Decidable (_ = _))

instance : Decidable (t.IsName P) := inferInstanceAs (Decidable (_ = _))

/-- An id record with a value that counts. -/
def RevTlv.GoodId (P : Platform) (t : RevTlv) (num : UInt32) : Prop :=
  t.IsId P ∧ t.len.toNat = 4 ∧
    ∃ p, t.payload = some p ∧ num.toNat = leNat p.reverse ∧ num ≠ 0

/-- A name record with a name that counts. -/
def RevTlv.GoodName (P : Platform) (t : RevTlv) (name : Bytes) : Prop :=
  t.IsName P ∧ t.len.toNat < hwRevNameSize ∧ t.payload = some name ∧ name.headD 0 ≠ 0

/-- An id record and a name record are among the TLVs. -/
def BothSeen (P : Platform) (l : List RevTlv) : Prop :=
  (∃ t ∈ l, t.IsId P) ∧ ∃ t ∈ l, t.IsName P

/-- The protected area behind the image declares a hardware revision: up to the
first point where both have been seen there is one id record and one name record,
and both are well formed. -/
def RevDeclared (P : Platform) (b : Bytes) (hdr : ImageHeader) (num : UInt32) (name : Bytes) :
    Prop :=
  let o := hdr.ihHdrSize.toNat + hdr.ihImgSize.toNat
  imageHeaderSize ≤ b.length ∧
    (ImageTlvInfo.decode (slice b o tlvHdrSize)).itMagic = IMAGE_TLV_PROT_INFO_MAGIC ∧
    ∃ pre post, protTlvs b o = pre ++ post ∧
      (BothSeen P pre ∧ ∀ l l', pre = l ++ l' → l' ≠ [] → ¬ BothSeen P l) ∧
      ∃ i n, pre.filter (·.IsId P) = [i] ∧ i.GoodId P num ∧
        pre.filter (·.IsName P) = [n] ∧ n.GoodName P name

/-- The result of a search is what the image declares. -/
def MeetsDeclared (P : Platform) (b : Bytes) (hdr : ImageHeader) (res : Bool × HwRev) : Prop :=
  (res.1 = true ↔ ∃ num name, RevDeclared P b hdr num name) ∧
    ∀ num name, RevDeclared P b hdr num name →
      res.2.hwRevNum = num ∧ res.2.hwRevName.take (name.length + 1) = name ++ [0]

/-! ## Hardware revision records -/

/-- The TLVs the searches act on. -/
def RevTlv.IsRev (P : Platform) (t : RevTlv) : Prop := t.IsId P ∨ t.IsName P

instance : Decidable (t.IsRev P) := inferInstanceAs (Decidable (_ ∨ _))

/-- The searches pass over the other TLVs. -/
theorem revScan_filter (hr : ¬ r.Complete) (l : List RevTlv) :
    revScan P l r = revScan P (l.filter (·.IsRev P)) r := by
  induction l generalizing r with
  | nil => rfl
  | cons t rest ih =>
    by_cases ht : t.IsRev P
    · rw [List.filter_cons_of_pos (by simpa using ht)]
      cases hstep : revStep P r t with
      | inl r' =>
        rw [revScan_inl P hstep, revScan_inl P hstep]
        exact ih (revStep_inl hstep)
      | inr res => rw [revScan_inr P hstep, revScan_inr P hstep]
    · have hid : ¬ t.type = P.ruuviHwRevIdTlv := fun h => ht (Or.inl h)
      have hname : ¬ t.type = P.ruuviHwRevNameTlv := fun h => ht (Or.inr h)
      have hstep : revStep P r t = .inl r := by
        unfold revStep revTake
        rw [if_neg hid, if_neg hname]
        exact if_neg hr
      rw [List.filter_cons_of_neg (by simpa using ht), revScan_inl P hstep]
      exact ih hr

/-- An id record that the searches read as zero and forget. -/
def RevTlv.VoidId (P : Platform) (t : RevTlv) : Prop :=
  t.IsId P ∧ t.len.toNat = 4 ∧ ∃ p, t.payload = some p ∧ u32FromBytesBe p = 0

/-- A name record that the searches read as empty and forget. -/
def RevTlv.VoidName (P : Platform) (t : RevTlv) : Prop :=
  t.IsName P ∧ t.len.toNat < hwRevNameSize ∧ ∃ p, t.payload = some p ∧ p.headD 0 = 0

/-- An id record that the searches read as a number. -/
def RevTlv.TakenId (P : Platform) (t : RevTlv) : Prop :=
  t.IsId P ∧ t.len.toNat = 4 ∧ ∃ p, t.payload = some p ∧ u32FromBytesBe p ≠ 0

/-- A name record that the searches read as a name. -/
def RevTlv.TakenName (P : Platform) (t : RevTlv) : Prop :=
  t.IsName P ∧ t.len.toNat < hwRevNameSize ∧ ∃ p, t.payload = some p ∧ p.headD 0 ≠ 0

/-- A read delivers at most what was asked for. -/
def RevTlv.Delivered (t : RevTlv) : Prop := ∀ p, t.payload = some p → p.length ≤ t.len.toNat

theorem putName_nameEmpty {len : Nat} {p : Bytes} (hr : r.hwRevName.length = hwRevNameSize)
    (hempty : r.nameEmpty = true) (hp : p.length ≤ len) :
    (r.putName len p).nameEmpty = true ↔ p.headD 0 = 0 := by
  unfold HwRev.nameEmpty at hempty ⊢
  rw [beq_iff_eq] at hempty ⊢
  show (overlay (overlay r.hwRevName 0 p) len [0]).headD 0 = 0 ↔ _
  cases hb : r.hwRevName with
  | nil =>
    rw [hb] at hr
    exact absurd hr (by decide)
  | cons x rest =>
    rw [hb] at hempty
    obtain rfl : x = 0 := hempty
    cases hlen : len with
    | zero =>
      obtain rfl : p = [] := List.eq_nil_of_length_eq_zero (by omega)
      simp [overlay]
    | succ n =>
      cases p with
      | nil => simp [overlay]
      | cons y q => simp [overlay]

theorem putName_length (len : Nat) (p : Bytes) :
    (r.putName len p).hwRevName.length = r.hwRevName.length := by
  show (overlay (overlay r.hwRevName 0 p) len [0]).length = _
  rw [overlay_length, overlay_length]

/-! ## One record -/

theorem revTake_id (hid : t.IsId P) : revTake P r t =
    if t.len.toNat ≠ 4 ∨ r.hwRevNum ≠ 0 then none
    else t.payload.map fun b => { r with hwRevNum := u32FromBytesBe b } := by
  have htype : t.type = P.ruuviHwRevIdTlv := hid
  unfold revTake
  rw [if_pos htype]

theorem revTake_name (hne : RevTypesDiffer P) (hname : t.IsName P) : revTake P r t =
    if t.len.toNat ≥ hwRevNameSize ∨ r.nameEmpty = false then none
    else t.payload.map fun b => r.putName t.len.toNat b := by
  have htype : t.type = P.ruuviHwRevNameTlv := hname
  have hid : ¬ t.type = P.ruuviHwRevIdTlv := fun h => hne (h.symm.trans htype)
  unfold revTake
  rw [if_neg hid, if_pos htype]

theorem revStep_none (h : revTake P r t = none) : revStep P r t = .inr (false, r) := by
  unfold revStep
  rw [h]

theorem revStep_some {r' : HwRev} (h : revTake P r t = some r') :
    revStep P r t = if r'.Complete then .inr (true, r') else .inl r' := by
  unfold revStep
  rw [h]

theorem revStep_id_again (hid : t.IsId P) (hnum : r.hwRevNum ≠ 0) :
    revStep P r t = .inr (false, r) :=
  revStep_none ((revTake_id hid).trans (if_pos (Or.inr hnum)))

theorem revStep_name_again (hne : RevTypesDiffer P) (hname : t.IsName P)
    (hempty : r.nameEmpty = false) : revStep P r t = .inr (false, r) :=
  revStep_none ((revTake_name hne hname).trans (if_pos (Or.inr hempty)))

theorem revStep_voidId (h : t.VoidId P) (hnum : r.hwRevNum = 0) : revStep P r t = .inl r := by
  obtain ⟨hid, hlen, p, hp, hzero⟩ := h
  have htake : revTake P r t = some r := by
    rw [revTake_id hid, if_neg (by rw [not_or]; exact ⟨not_not.mpr hlen, not_not.mpr hnum⟩), hp]
    show some ({ r with hwRevNum := u32FromBytesBe p } : HwRev) = some r
    rw [hzero, ← hnum]
  rw [revStep_some htake, if_neg (fun hc => hc.2 hnum)]

theorem revTake_takenId (h : t.TakenId P) (hnum : r.hwRevNum = 0) :
    ∃ num, num ≠ 0 ∧ revTake P r t = some { r with hwRevNum := num } := by
  obtain ⟨hid, hlen, p, hp, hnum'⟩ := h
  refine ⟨u32FromBytesBe p, hnum', ?_⟩
  rw [revTake_id hid, if_neg (by rw [not_or]; exact ⟨not_not.mpr hlen, not_not.mpr hnum⟩), hp]
  rfl

theorem revStep_badId (hid : t.IsId P) (hvoid : ¬ t.VoidId P) (htaken : ¬ t.TakenId P) :
    revStep P r t = .inr (false, r) := by
  refine revStep_none ?_
  rw [revTake_id hid]
  by_cases hbad : t.len.toNat ≠ 4 ∨ r.hwRevNum ≠ 0
  · rw [if_pos hbad]
  · rw [if_neg hbad]
    have hlen : t.len.toNat = 4 := not_not.mp (not_or.mp hbad).1
    cases hp : t.payload with
    | none => rfl
    | some p =>
      by_cases hzero : u32FromBytesBe p = 0
      · exact absurd ⟨hid, hlen, p, hp, hzero⟩ hvoid
      · exact absurd ⟨hid, hlen, p, hp, hzero⟩ htaken

/-- The name field has its size, and no name has been found. -/
structure Nameless (r : HwRev) : Prop where
  length : r.hwRevName.length = hwRevNameSize
  empty : r.nameEmpty = true

theorem revTake_nameless (hne : RevTypesDiffer P) (hname : t.IsName P)
    (hlen : t.len.toNat < hwRevNameSize) (hr : Nameless r) {p : Bytes} (hp : t.payload = some p) :
    revTake P r t = some (r.putName t.len.toNat p) := by
  rw [revTake_name hne hname, if_neg, hp]
  · rfl
  · rw [not_or, hr.empty]
    exact ⟨Nat.not_le.mpr hlen, by decide⟩

theorem revStep_voidName (hne : RevTypesDiffer P) (h : t.VoidName P) (hdel : t.Delivered)
    (hr : Nameless r) :
    ∃ r', revStep P r t = .inl r' ∧ r'.hwRevNum = r.hwRevNum ∧ Nameless r' := by
  obtain ⟨hname, hlen, p, hp, hzero⟩ := h
  have hempty := (putName_nameEmpty hr.length hr.empty (hdel p hp)).mpr hzero
  refine ⟨r.putName t.len.toNat p, ?_, rfl, (putName_length _ _).trans hr.length, hempty⟩
  rw [revStep_some (revTake_nameless hne hname hlen hr hp), if_neg]
  exact fun hc => absurd (hempty.symm.trans hc.1) (by decide)

theorem revTake_takenName (hne : RevTypesDiffer P) (h : t.TakenName P) (hdel : t.Delivered)
    (hr : Nameless r) : ∃ r', revTake P r t = some r' ∧ r'.hwRevNum = r.hwRevNum ∧
      r'.nameEmpty = false := by
  obtain ⟨hname, hlen, p, hp, hhead⟩ := h
  refine ⟨r.putName t.len.toNat p, revTake_nameless hne hname hlen hr hp, rfl, ?_⟩
  rw [← Bool.not_eq_true, putName_nameEmpty hr.length hr.empty (hdel p hp)]
  exact hhead

theorem revStep_badName (hne : RevTypesDiffer P) (hname : t.IsName P) (hvoid : ¬ t.VoidName P)
    (htaken : ¬ t.TakenName P) : revStep P r t = .inr (false, r) := by
  refine revStep_none ?_
  rw [revTake_name hne hname]
  by_cases hbad : t.len.toNat ≥ hwRevNameSize ∨ r.nameEmpty = false
  · rw [if_pos hbad]
  · rw [if_neg hbad]
    have hlen : t.len.toNat < hwRevNameSize := Nat.not_le.mp (not_or.mp hbad).1
    cases hp : t.payload with
    | none => rfl
    | some p =>
      by_cases hzero : p.headD 0 = 0
      · exact absurd ⟨hname, hlen, p, hp, hzero⟩ hvoid
      · exact absurd ⟨hname, hlen, p, hp, hzero⟩ htaken

/-! ## Records in a row -/

/-- Some records that satisfy `V`, and then one that satisfies `C`. -/
def Follows (V C : RevTlv → Prop) (l : List RevTlv) : Prop :=
  ∃ v c rest, l = v ++ c :: rest ∧ (∀ t ∈ v, V t) ∧ C c

theorem follows_nil {V C : RevTlv → Prop} : ¬ Follows V C [] := by
  rintro ⟨v, c, rest, h, -⟩
  exact absurd h (by simp)

theorem follows_cons {V C : RevTlv → Prop} :
    Follows V C (t :: l) ↔ C t ∨ V t ∧ Follows V C l := by
  constructor
  · rintro ⟨v, c, rest, h, hv, hc⟩
    cases v with
    | nil => exact Or.inl ((List.cons.inj h).1 ▸ hc)
    | cons x v =>
      obtain ⟨rfl, rfl⟩ := List.cons.inj h
      exact Or.inr ⟨hv _ List.mem_cons_self, v, c, rest, rfl,
        fun y hy => hv y (List.mem_cons_of_mem _ hy), hc⟩
  · rintro (hc | ⟨hv, v, c, rest, rfl, hvs, hc⟩)
    · exact ⟨[], t, l, rfl, fun _ h => absurd h (by simp), hc⟩
    · exact ⟨t :: v, c, rest, rfl, List.forall_mem_cons.mpr ⟨hv, hvs⟩, hc⟩

/-- The id is known and the name is still to come. -/
theorem revScan_named (hne : RevTypesDiffer P) (hrev : ∀ t ∈ l, t.IsRev P)
    (hdel : ∀ t ∈ l, t.Delivered) (hnum : r.hwRevNum ≠ 0) (hr : Nameless r) :
    (revScan P l r).1 = true ↔ Follows (·.VoidName P) (·.TakenName P) l := by
  induction l generalizing r with
  | nil => exact ⟨fun h => absurd h Bool.false_ne_true, fun h => absurd h follows_nil⟩
  | cons t rest ih =>
    obtain ⟨ht, hrest⟩ := List.forall_mem_cons.mp hrev
    obtain ⟨htd, hrestd⟩ := List.forall_mem_cons.mp hdel
    rw [follows_cons]
    rcases ht with hid | hname
    · rw [revScan_inr P (revStep_id_again hid hnum)]
      refine ⟨fun h => absurd h Bool.false_ne_true, ?_⟩
      rintro (h | ⟨h, -⟩)
      · exact absurd (hid.symm.trans h.1) hne
      · exact absurd (hid.symm.trans h.1) hne
    · by_cases htaken : t.TakenName P
      · obtain ⟨r', htake, hnum', hfull⟩ := revTake_takenName hne htaken htd hr
        have hstep : revStep P r t = .inr (true, r') := by
          rw [revStep_some htake, if_pos ⟨hfull, hnum' ▸ hnum⟩]
        rw [revScan_inr P hstep]
        exact ⟨fun _ => Or.inl htaken, fun _ => rfl⟩
      · by_cases hvoid : t.VoidName P
        · obtain ⟨r', hstep, hnum', hr'⟩ := revStep_voidName hne hvoid htd hr
          rw [revScan_inl P hstep, ih hrest hrestd (hnum' ▸ hnum) hr']
          exact ⟨fun h => Or.inr ⟨hvoid, h⟩, fun h => (h.resolve_left htaken).2⟩
        · rw [revScan_inr P (revStep_badName hne hname hvoid htaken)]
          refine ⟨fun h => absurd h Bool.false_ne_true, ?_⟩
          rintro (h | ⟨h, -⟩)
          · exact absurd h htaken
          · exact absurd h hvoid

/-- The name is known and the id is still to come. -/
theorem revScan_numbered (hne : RevTypesDiffer P) (hrev : ∀ t ∈ l, t.IsRev P)
    (hnum : r.hwRevNum = 0) (hfull : r.nameEmpty = false) :
    (revScan P l r).1 = true ↔ Follows (·.VoidId P) (·.TakenId P) l := by
  induction l with
  | nil => exact ⟨fun h => absurd h Bool.false_ne_true, fun h => absurd h follows_nil⟩
  | cons t rest ih =>
    obtain ⟨ht, hrest⟩ := List.forall_mem_cons.mp hrev
    rw [follows_cons]
    rcases ht with hid | hname
    · by_cases htaken : t.TakenId P
      · obtain ⟨num, hnum', htake⟩ := revTake_takenId htaken hnum
        have hstep : revStep P r t = .inr (true, { r with hwRevNum := num }) := by
          rw [revStep_some htake]
          exact if_pos ⟨hfull, hnum'⟩
        rw [revScan_inr P hstep]
        exact ⟨fun _ => Or.inl htaken, fun _ => rfl⟩
      · by_cases hvoid : t.VoidId P
        · rw [revScan_inl P (revStep_voidId hvoid hnum), ih hrest]
          exact ⟨fun h => Or.inr ⟨hvoid, h⟩, fun h => (h.resolve_left htaken).2⟩
        · rw [revScan_inr P (revStep_badId hid hvoid htaken)]
          refine ⟨fun h => absurd h Bool.false_ne_true, ?_⟩
          rintro (h | ⟨h, -⟩)
          · exact absurd h htaken
          · exact absurd h hvoid
    · rw [revScan_inr P (revStep_name_again hne hname hfull)]
      refine ⟨fun h => absurd h Bool.false_ne_true, ?_⟩
      rintro (h | ⟨h, -⟩)
      · exact absurd (h.1.symm.trans hname) hne
      · exact absurd (h.1.symm.trans hname) hne

/-- How a search completes: behind records it forgets it takes one, behind forgotten
records of the other type it takes the other one. -/
structure Completes (P : Platform) (l v₀ : List RevTlv) (a : RevTlv) (v₁ : List RevTlv)
    (c : RevTlv) : Prop where
  split : ∃ rest, l = v₀ ++ a :: (v₁ ++ c :: rest)
  idle : ∀ t ∈ v₀, t.VoidId P ∨ t.VoidName P
  pair : a.TakenId P ∧ (∀ t ∈ v₁, t.VoidName P) ∧ c.TakenName P ∨
    a.TakenName P ∧ (∀ t ∈ v₁, t.VoidId P) ∧ c.TakenId P

theorem completes_cons : (∃ v₀ a v₁ c, Completes P (t :: l) v₀ a v₁ c) ↔
    (t.TakenId P ∧ Follows (·.VoidName P) (·.TakenName P) l ∨
      t.TakenName P ∧ Follows (·.VoidId P) (·.TakenId P) l) ∨
      (t.VoidId P ∨ t.VoidName P) ∧ ∃ v₀ a v₁ c, Completes P l v₀ a v₁ c := by
  constructor
  · rintro ⟨v₀, a, v₁, c, ⟨rest, hsplit⟩, hidle, hpair⟩
    cases v₀ with
    | nil =>
      obtain ⟨rfl, rfl⟩ := List.cons.inj hsplit
      rcases hpair with ⟨ha, hv, hc⟩ | ⟨ha, hv, hc⟩
      · exact Or.inl (Or.inl ⟨ha, v₁, c, rest, rfl, hv, hc⟩)
      · exact Or.inl (Or.inr ⟨ha, v₁, c, rest, rfl, hv, hc⟩)
    | cons x v₀ =>
      obtain ⟨rfl, rfl⟩ := List.cons.inj hsplit
      obtain ⟨hx, hidle⟩ := List.forall_mem_cons.mp hidle
      exact Or.inr ⟨hx, v₀, a, v₁, c, ⟨rest, rfl⟩, hidle, hpair⟩
  · rintro ((⟨ht, v₁, c, rest, rfl, hv, hc⟩ | ⟨ht, v₁, c, rest, rfl, hv, hc⟩) |
      ⟨ht, v₀, a, v₁, c, ⟨rest, rfl⟩, hidle, hpair⟩)
    · exact ⟨[], t, v₁, c, ⟨rest, rfl⟩, fun _ h => absurd h (by simp), Or.inl ⟨ht, hv, hc⟩⟩
    · exact ⟨[], t, v₁, c, ⟨rest, rfl⟩, fun _ h => absurd h (by simp), Or.inr ⟨ht, hv, hc⟩⟩
    · exact ⟨t :: v₀, a, v₁, c, ⟨rest, rfl⟩, List.forall_mem_cons.mpr ⟨ht, hidle⟩, hpair⟩

theorem takenId_not_void (h : t.TakenId P) : ¬ t.VoidId P := by
  rintro ⟨-, -, p, hp, hzero⟩
  obtain ⟨-, -, q, hq, hnum⟩ := h
  rw [hp] at hq
  exact hnum (Option.some.inj hq ▸ hzero)

theorem takenName_not_void (h : t.TakenName P) : ¬ t.VoidName P := by
  rintro ⟨-, -, p, hp, hzero⟩
  obtain ⟨-, -, q, hq, hhead⟩ := h
  rw [hp] at hq
  exact hhead (Option.some.inj hq ▸ hzero)

/-- Nothing has been found yet. -/
theorem revScan_open (hne : RevTypesDiffer P) (hrev : ∀ t ∈ l, t.IsRev P)
    (hdel : ∀ t ∈ l, t.Delivered) (hnum : r.hwRevNum = 0) (hr : Nameless r) :
    (revScan P l r).1 = true ↔ ∃ v₀ a v₁ c, Completes P l v₀ a v₁ c := by
  induction l generalizing r with
  | nil =>
    refine ⟨fun h => absurd h Bool.false_ne_true, ?_⟩
    rintro ⟨v₀, a, v₁, c, ⟨rest, h⟩, -⟩
    exact absurd h (by simp)
  | cons t rest ih =>
    obtain ⟨ht, hrest⟩ := List.forall_mem_cons.mp hrev
    obtain ⟨htd, hrestd⟩ := List.forall_mem_cons.mp hdel
    rw [completes_cons]
    rcases ht with hid | hname
    · have hother : ¬ t.IsName P := fun h => hne (hid.symm.trans h)
      by_cases htaken : t.TakenId P
      · obtain ⟨num, hnum', htake⟩ := revTake_takenId htaken hnum
        have hstep : revStep P r t = .inl { r with hwRevNum := num } := by
          rw [revStep_some htake, if_neg]
          exact fun hc => absurd (hr.empty.symm.trans hc.1) (by decide)
        have hr' : Nameless { r with hwRevNum := num } := ⟨hr.length, hr.empty⟩
        rw [revScan_inl P hstep, revScan_named hne hrest hrestd hnum' hr']
        refine ⟨fun h => Or.inl (Or.inl ⟨htaken, h⟩), ?_⟩
        rintro ((⟨-, h⟩ | ⟨h, -⟩) | ⟨h | h, -⟩)
        · exact h
        · exact absurd h.1 hother
        · exact absurd h (takenId_not_void htaken)
        · exact absurd h.1 hother
      · by_cases hvoid : t.VoidId P
        · rw [revScan_inl P (revStep_voidId hvoid hnum), ih hrest hrestd hnum hr]
          refine ⟨fun h => Or.inr ⟨Or.inl hvoid, h⟩, ?_⟩
          rintro ((⟨h, -⟩ | ⟨h, -⟩) | ⟨-, h⟩)
          · exact absurd h htaken
          · exact absurd h.1 hother
          · exact h
        · rw [revScan_inr P (revStep_badId hid hvoid htaken)]
          refine ⟨fun h => absurd h Bool.false_ne_true, ?_⟩
          rintro ((⟨h, -⟩ | ⟨h, -⟩) | ⟨h | h, -⟩)
          · exact absurd h htaken
          · exact absurd h.1 hother
          · exact absurd h hvoid
          · exact absurd h.1 hother
    · have hother : ¬ t.IsId P := fun h => hne (h.symm.trans hname)
      by_cases htaken : t.TakenName P
      · obtain ⟨r', htake, hnum', hfull⟩ := revTake_takenName hne htaken htd hr
        have hstep : revStep P r t = .inl r' := by
          rw [revStep_some htake, if_neg (fun hc => hc.2 (hnum'.trans hnum))]
        rw [revScan_inl P hstep, revScan_numbered hne hrest (hnum'.trans hnum) hfull]
        refine ⟨fun h => Or.inl (Or.inr ⟨htaken, h⟩), ?_⟩
        rintro ((⟨h, -⟩ | ⟨-, h⟩) | ⟨h | h, -⟩)
        · exact absurd h.1 hother
        · exact h
        · exact absurd h.1 hother
        · exact absurd h (takenName_not_void htaken)
      · by_cases hvoid : t.VoidName P
        · obtain ⟨r', hstep, hnum', hr'⟩ := revStep_voidName hne hvoid htd hr
          rw [revScan_inl P hstep, ih hrest hrestd (hnum'.trans hnum) hr']
          refine ⟨fun h => Or.inr ⟨Or.inr hvoid, h⟩, ?_⟩
          rintro ((⟨h, -⟩ | ⟨h, -⟩) | ⟨-, h⟩)
          · exact absurd h.1 hother
          · exact absurd h htaken
          · exact h
        · rw [revScan_inr P (revStep_badName hne hname hvoid htaken)]
          refine ⟨fun h => absurd h Bool.false_ne_true, ?_⟩
          rintro ((⟨h, -⟩ | ⟨h, -⟩) | ⟨h | h, -⟩)
          · exact absurd h.1 hother
          · exact absurd h htaken
          · exact absurd h.1 hother
          · exact absurd h hvoid

/-! ## Whole records in front -/

/-- The walk meets the TLVs that lie wholly in the area, and at most one that
passes its end. -/
theorem revWalk_split {read : Nat → Nat → Option Bytes} {b : Bytes} {stop : Nat}
    (hread : ∀ off len, off + len ≤ b.length → read off len = some (slice b off len)) (n : Nat) :
    ∀ m off, b.length ≤ n + off → b.length ≤ m + off →
      ∃ extra, revWalk read b (stop + 4) n off = wholeTlvs (b.take stop) m off ++ extra ∧
        ∀ t ∈ extra, ¬ (t.last ≤ stop ∧ t.last ≤ b.length) := by
  induction n with
  | zero =>
    intro m off hn hm
    refine ⟨[], ?_, fun _ h => absurd h (by simp)⟩
    have hshort : ∀ t : RevTlv, ¬ (off + 4 ≤ (b.take stop).length ∧ t.last ≤ (b.take stop).length) := by
      intro t h
      rw [List.length_take] at h
      omega
    cases m with
    | zero => rfl
    | succ m =>
      show [] = (if _ then _ else _) ++ []
      rw [if_neg (hshort _)]
      rfl
  | succ n ih =>
    intro m off hn hm
    have hlen : (b.take stop).length = min stop b.length := List.length_take
    by_cases hgo : off + 4 ≤ stop + 4 ∧ off + 4 ≤ b.length
    · have hwalk : revWalk read b (stop + 4) (n + 1) off =
          revTlvAt read b off :: revWalk read b (stop + 4) n (revTlvAt read b off).last := if_pos hgo
      obtain ⟨m, rfl⟩ : ∃ k, m = k + 1 := ⟨m - 1, by omega⟩
      by_cases hin : (revTlvAt read b off).last ≤ stop ∧ (revTlvAt read b off).last ≤ b.length
      · have hoff : off + 4 ≤ (revTlvAt read b off).last := Nat.le_add_right _ _
        have hhdr : slice (b.take stop) off tlvHdrSize = slice b off tlvHdrSize :=
          slice_take (Nat.le_trans hoff hin.1)
        have hsame : revTlvAt (fileRead (b.take stop)) (b.take stop) off = revTlvAt read b off := by
          have hpay : fileRead (b.take stop) (off + 4)
              (ImageTlv.decode (slice b off tlvHdrSize)).itLen.toNat =
                read (off + 4) (ImageTlv.decode (slice b off tlvHdrSize)).itLen.toNat := by
            have hend : off + 4 + (ImageTlv.decode (slice b off tlvHdrSize)).itLen.toNat =
                (revTlvAt read b off).last := rfl
            rw [hread _ _ (by omega), fileRead, slice_take (by omega)]
          unfold revTlvAt
          dsimp only
          rw [hhdr, hpay]
        obtain ⟨extra, hsplit, hextra⟩ := ih m (revTlvAt read b off).last (by omega) (by omega)
        refine ⟨extra, ?_, hextra⟩
        have hwhole : wholeTlvs (b.take stop) (m + 1) off = revTlvAt read b off ::
            wholeTlvs (b.take stop) m (revTlvAt read b off).last := by
          show (if _ then _ else _) = _
          rw [hsame, if_pos (by rw [hlen]; omega)]
        rw [hwalk, hsplit, hwhole, List.cons_append]
      · -- the record passes the end, and nothing starts behind it
        have hnone : revWalk read b (stop + 4) n (revTlvAt read b off).last = [] :=
          revWalk_short (by omega) n
        have hwhole : wholeTlvs (b.take stop) (m + 1) off = [] := by
          show (if _ then _ else _) = _
          refine if_neg (fun h => hin ?_)
          have hhdr : slice (b.take stop) off tlvHdrSize = slice b off tlvHdrSize := by
            have hoff := h.1
            rw [hlen] at hoff
            exact slice_take (Nat.le_trans hoff (Nat.min_le_left _ _))
          have hlast : (revTlvAt (fileRead (b.take stop)) (b.take stop) off).last =
              (revTlvAt read b off).last := by
            show off + 4 + _ = off + 4 + _
            show off + 4 + (ImageTlv.decode (slice (b.take stop) off tlvHdrSize)).itLen.toNat = _
            rw [hhdr]
            rfl
          have := h.2
          rw [hlast, hlen] at this
          omega
        refine ⟨[revTlvAt read b off], by rw [hwalk, hnone, hwhole]; rfl, fun t ht => ?_⟩
        rw [List.mem_singleton.mp ht]
        exact hin
    · refine ⟨[], ?_, fun _ h => absurd h (by simp)⟩
      have hwhole : wholeTlvs (b.take stop) m off = [] := by
        cases m with
        | zero => rfl
        | succ m =>
          show (if _ then _ else _) = _
          exact if_neg (fun h => hgo (by have := h.1; rw [hlen] at this; omega))
      rw [revWalk_short hgo, hwhole]
      rfl

end RuuviMcuboot
