/-
When the search in a partition finds what the search in the copied file found.

The two searches part only at a record that the end of the file cuts, or where one of
them looks at no TLVs because of the header.  What they have found in front of the cut
record is said by the records themselves: all are void, or one has been taken and the
others of its kind behind it are missing.
-/
import RuuviMcuboot.Revision.Agree
import RuuviMcuboot.Update.B0Check

namespace RuuviMcuboot

open Binary Effect

variable {P : Platform} {r r' : HwRev} {t : RevTlv} {l : List RevTlv}

/-! ## Records that change nothing that counts -/

/-- Not a record, or a void one. -/
def RevTlv.Idle (P : Platform) (t : RevTlv) : Prop := t.IsRev P → t.VoidId P ∨ t.VoidName P

/-- The name field behind an empty name, of which the other bytes stay. -/
def RevTlv.keep (P : Platform) (t : RevTlv) (field : Bytes) : Bytes :=
  if t.IsName P then overlay (overlay field 0 (t.payload.getD [])) t.len.toNat [0] else field

/-- What empty names leave in the name field. -/
def keptName (P : Platform) (l : List RevTlv) (field : Bytes) : Bytes :=
  l.foldl (fun field t => t.keep P field) field

theorem revStep_other (hr : ¬ r.Complete) (ht : ¬ t.IsRev P) : revStep P r t = .inl r := by
  have hid : ¬ t.type = P.ruuviHwRevIdTlv := fun h => ht (Or.inl h)
  have hname : ¬ t.type = P.ruuviHwRevNameTlv := fun h => ht (Or.inr h)
  unfold revStep revTake
  rw [if_neg hid, if_neg hname]
  exact if_neg hr

theorem keep_of_not_name (ht : ¬ t.IsName P) (field : Bytes) : t.keep P field = field :=
  if_neg ht

theorem Nameless.open (hr : Nameless r) : ¬ r.Complete :=
  fun h => absurd (hr.empty.symm.trans h.1) (by decide)

/-- An empty name in front of which no name has been found. -/
theorem revStep_keepName (hne : RevTypesDiffer P) (h : t.VoidName P) (hdel : t.Delivered)
    (hr : Nameless r) : revStep P r t = .inl { r with hwRevName := t.keep P r.hwRevName } ∧
      Nameless { r with hwRevName := t.keep P r.hwRevName } := by
  obtain ⟨hname, hlen, p, hp, hzero⟩ := h
  have hempty := (putName_nameEmpty hr.length hr.empty (hdel p hp)).mpr hzero
  have hkeep : { r with hwRevName := t.keep P r.hwRevName } = r.putName t.len.toNat p := by
    unfold RevTlv.keep HwRev.putName
    rw [if_pos hname, hp]
    rfl
  have hnext : Nameless (r.putName t.len.toNat p) :=
    ⟨(putName_length _ _).trans hr.length, hempty⟩
  rw [hkeep]
  refine ⟨?_, hnext⟩
  rw [revStep_some (revTake_nameless hne hname hlen hr hp), if_neg hnext.open]

theorem voidId_not_name (hne : RevTypesDiffer P) (h : t.VoidId P) : ¬ t.IsName P :=
  fun hname => hne (h.1.symm.trans hname)

theorem revStep_idle (hne : RevTypesDiffer P) (h : t.Idle P) (hdel : t.Delivered)
    (hnum : r.hwRevNum = 0) (hr : Nameless r) :
    revStep P r t = .inl { r with hwRevName := t.keep P r.hwRevName } ∧
      Nameless { r with hwRevName := t.keep P r.hwRevName } := by
  by_cases hrev : t.IsRev P
  · rcases h hrev with hvoid | hvoid
    · rw [keep_of_not_name (voidId_not_name hne hvoid)]
      exact ⟨revStep_voidId hvoid hnum, hr⟩
    · exact revStep_keepName hne hvoid hdel hr
  · rw [keep_of_not_name (fun h => hrev (Or.inr h))]
    exact ⟨revStep_other hr.open hrev, hr⟩

/-! ## How far a search comes -/

theorem revReach_inl {r₁ : HwRev} (h : revStep P r t = .inl r₁) (l : List RevTlv) :
    revReach P (t :: l) r = revReach P l r₁ := by
  rw [revReach, h]

theorem revReach_inr {res : Bool × HwRev} (h : revStep P r t = .inr res) (l : List RevTlv) :
    revReach P (t :: l) r = none := by
  rw [revReach, h]

/-- With a name found and no id, only void ids are passed. -/
theorem revReach_titled (hne : RevTypesDiffer P) (hnum : r.hwRevNum = 0)
    (hfull : r.nameEmpty = false) :
    revReach P l r = some r' ↔ r' = r ∧ ∀ t ∈ l, t.IsRev P → t.VoidId P := by
  have hopen : ¬ r.Complete := fun h => h.2 hnum
  induction l with
  | nil =>
    constructor
    · intro h
      exact ⟨(Option.some.inj h).symm, fun t ht => absurd ht (by simp)⟩
    · rintro ⟨rfl, -⟩
      rfl
  | cons t rest ih =>
    rw [List.forall_mem_cons]
    by_cases hvoid : t.IsRev P → t.VoidId P
    · have hstep : revStep P r t = .inl r := by
        by_cases hrev : t.IsRev P
        · exact revStep_voidId (hvoid hrev) hnum
        · exact revStep_other hopen hrev
      rw [revReach_inl hstep]
      exact ⟨fun h => ⟨(ih.mp h).1, hvoid, (ih.mp h).2⟩, fun h => ih.mpr ⟨h.1, h.2.2⟩⟩
    · obtain ⟨hrev, hnot⟩ := Classical.not_imp.mp hvoid
      obtain ⟨res, hstep⟩ : ∃ res, revStep P r t = .inr res := by
        rcases hrev with hid | hname
        · by_cases htaken : t.TakenId P
          · obtain ⟨num, hnum', htake⟩ := revTake_takenId htaken hnum
            exact ⟨_, (revStep_some htake).trans (if_pos ⟨hfull, hnum'⟩)⟩
          · exact ⟨_, revStep_badId hid hnot htaken⟩
        · exact ⟨_, revStep_name_again hne hname hfull⟩
      rw [revReach_inr hstep]
      exact ⟨fun h => absurd h.symm (Option.some_ne_none _), fun h => absurd h.2.1 hvoid⟩

/-- With an id found and no name, only void names are passed. -/
theorem revReach_numbered (hne : RevTypesDiffer P) (hdel : ∀ t ∈ l, t.Delivered)
    (hnum : r.hwRevNum ≠ 0) (hr : Nameless r) :
    revReach P l r = some r' ↔
      r' = { r with hwRevName := keptName P l r.hwRevName } ∧
        ∀ t ∈ l, t.IsRev P → t.VoidName P := by
  induction l generalizing r with
  | nil =>
    constructor
    · intro h
      exact ⟨(Option.some.inj h).symm, fun t ht => absurd ht (by simp)⟩
    · rintro ⟨rfl, -⟩
      rfl
  | cons t rest ih =>
    obtain ⟨htd, hrestd⟩ := List.forall_mem_cons.mp hdel
    rw [List.forall_mem_cons]
    by_cases hvoid : t.IsRev P → t.VoidName P
    · obtain ⟨hstep, hnext⟩ : revStep P r t = .inl { r with hwRevName := t.keep P r.hwRevName } ∧
          Nameless { r with hwRevName := t.keep P r.hwRevName } := by
        by_cases hrev : t.IsRev P
        · exact revStep_keepName hne (hvoid hrev) htd hr
        · rw [keep_of_not_name (fun h => hrev (Or.inr h))]
          exact ⟨revStep_other hr.open hrev, hr⟩
      have ih' := ih (r := { r with hwRevName := t.keep P r.hwRevName }) hrestd hnum hnext
      rw [revReach_inl hstep]
      exact ⟨fun h => ⟨(ih'.mp h).1, hvoid, (ih'.mp h).2⟩, fun h => ih'.mpr ⟨h.1, h.2.2⟩⟩
    · obtain ⟨hrev, hnot⟩ := Classical.not_imp.mp hvoid
      obtain ⟨res, hstep⟩ : ∃ res, revStep P r t = .inr res := by
        rcases hrev with hid | hname
        · exact ⟨_, revStep_id_again hid hnum⟩
        · by_cases htaken : t.TakenName P
          · obtain ⟨r₁, htake, hnum₁, hfull⟩ := revTake_takenName hne htaken htd hr
            exact ⟨_, (revStep_some htake).trans (if_pos ⟨hfull, hnum₁ ▸ hnum⟩)⟩
          · exact ⟨_, revStep_badName hne hname hnot htaken⟩
      rw [revReach_inr hstep]
      exact ⟨fun h => absurd h.symm (Option.some_ne_none _), fun h => absurd h.2.1 hvoid⟩

/-- The TLVs are passed and leave the id to be found: every record is void, but
perhaps for one name, behind which there are void ids only. -/
def IdOpen (P : Platform) (l : List RevTlv) : Prop :=
  (∀ t ∈ l, t.Idle P) ∨ ∃ v a u, l = v ++ a :: u ∧ (∀ t ∈ v, t.Idle P) ∧ a.TakenName P ∧
    ∀ t ∈ u, t.IsRev P → t.VoidId P

/-- The TLVs are passed and leave the name to be found. -/
def NameOpen (P : Platform) (l : List RevTlv) : Prop :=
  (∀ t ∈ l, t.Idle P) ∨ ∃ v a u, l = v ++ a :: u ∧ (∀ t ∈ v, t.Idle P) ∧ a.TakenId P ∧
    ∀ t ∈ u, t.IsRev P → t.VoidName P

/-- Both notions, one TLV at a time. -/
theorem open_cons {V C U : RevTlv → Prop} :
    ((∀ x ∈ t :: l, V x) ∨ ∃ v a u, t :: l = v ++ a :: u ∧ (∀ x ∈ v, V x) ∧ C a ∧ ∀ x ∈ u, U x) ↔
      (V t ∧ ((∀ x ∈ l, V x) ∨
        ∃ v a u, l = v ++ a :: u ∧ (∀ x ∈ v, V x) ∧ C a ∧ ∀ x ∈ u, U x)) ∨
      (C t ∧ ∀ x ∈ l, U x) := by
  constructor
  · rintro (hall | ⟨v, a, u, hl, hv, ha, hu⟩)
    · obtain ⟨ht, hl⟩ := List.forall_mem_cons.mp hall
      exact Or.inl ⟨ht, Or.inl hl⟩
    · cases v with
      | nil =>
        obtain ⟨rfl, rfl⟩ := List.cons.inj hl
        exact Or.inr ⟨ha, hu⟩
      | cons x v =>
        rw [List.cons_append] at hl
        obtain ⟨rfl, rfl⟩ := List.cons.inj hl
        obtain ⟨hx, hv⟩ := List.forall_mem_cons.mp hv
        exact Or.inl ⟨hx, Or.inr ⟨v, a, u, rfl, hv, ha, hu⟩⟩
  · rintro (⟨ht, hall | ⟨v, a, u, rfl, hv, ha, hu⟩⟩ | ⟨ht, hu⟩)
    · exact Or.inl (List.forall_mem_cons.mpr ⟨ht, hall⟩)
    · exact Or.inr ⟨t :: v, a, u, rfl, List.forall_mem_cons.mpr ⟨ht, hv⟩, ha, hu⟩
    · exact Or.inr ⟨[], t, l, rfl, fun x hx => absurd hx (by simp), ht, hu⟩

theorem idle_not_takenName (hne : RevTypesDiffer P) (h : t.Idle P) : ¬ t.TakenName P := by
  intro htaken
  rcases h (Or.inr htaken.1) with hvoid | hvoid
  · exact voidId_not_name hne hvoid htaken.1
  · exact takenName_not_void htaken hvoid

theorem idle_not_takenId (hne : RevTypesDiffer P) (h : t.Idle P) : ¬ t.TakenId P := by
  intro htaken
  rcases h (Or.inl htaken.1) with hvoid | hvoid
  · exact takenId_not_void htaken hvoid
  · exact hne (htaken.1.symm.trans hvoid.1)

/-- A record that is neither void nor taken ends the search. -/
theorem revStep_bad (hne : RevTypesDiffer P) (hidle : ¬ t.Idle P) (hid : ¬ t.TakenId P)
    (hname : ¬ t.TakenName P) : revStep P r t = .inr (false, r) := by
  obtain ⟨hrev, hvoid⟩ := Classical.not_imp.mp hidle
  obtain ⟨hvoidId, hvoidName⟩ := not_or.mp hvoid
  rcases hrev with h | h
  · exact revStep_badId h hvoidId hid
  · exact revStep_badName hne h hvoidName hname

/-- Which TLVs are passed with the id, or with the name, left to be found. -/
theorem revReach_open_iff (hne : RevTypesDiffer P) (hdel : ∀ t ∈ l, t.Delivered)
    (hnum : r.hwRevNum = 0) (hr : Nameless r) :
    ((∃ r', revReach P l r = some r' ∧ r'.hwRevNum = 0) ↔ IdOpen P l) ∧
      ((∃ r', revReach P l r = some r' ∧ r'.nameEmpty = true) ↔ NameOpen P l) := by
  induction l generalizing r with
  | nil =>
    have hnil : ∀ t ∈ ([] : List RevTlv), t.Idle P := fun t ht => absurd ht (by simp)
    exact ⟨⟨fun _ => Or.inl hnil, fun _ => ⟨r, rfl, hnum⟩⟩,
      ⟨fun _ => Or.inl hnil, fun _ => ⟨r, rfl, hr.empty⟩⟩⟩
  | cons t rest ih =>
    obtain ⟨htd, hrestd⟩ := List.forall_mem_cons.mp hdel
    unfold IdOpen NameOpen
    rw [open_cons, open_cons]
    by_cases hidle : t.Idle P
    · obtain ⟨hstep, hnext⟩ := revStep_idle hne hidle htd hnum hr
      have hrest := ih (r := { r with hwRevName := t.keep P r.hwRevName }) hrestd hnum hnext
      have hnid := idle_not_takenId hne hidle
      have hnname := idle_not_takenName hne hidle
      rw [revReach_inl hstep]
      refine ⟨hrest.1.trans ⟨fun h => Or.inl ⟨hidle, h⟩, ?_⟩,
        hrest.2.trans ⟨fun h => Or.inl ⟨hidle, h⟩, ?_⟩⟩
      · rintro (h | h)
        · exact h.2
        · exact absurd h.1 hnname
      · rintro (h | h)
        · exact h.2
        · exact absurd h.1 hnid
    · by_cases hid : t.TakenId P
      · -- the id is found, so only the name can be left
        obtain ⟨num, hnum', htake⟩ := revTake_takenId hid hnum
        have hr₁ : Nameless { r with hwRevNum := num } := ⟨hr.length, hr.empty⟩
        have hstep : revStep P r t = .inl { r with hwRevNum := num } :=
          (revStep_some htake).trans (if_neg hr₁.open)
        have hnname : ¬ t.TakenName P := fun h => hne (hid.1.symm.trans h.1)
        rw [revReach_inl hstep]
        constructor
        · constructor
          · rintro ⟨r', hreach, hzero⟩
            obtain ⟨rfl, -⟩ := (revReach_numbered hne hrestd hnum' hr₁).mp hreach
            exact absurd hzero hnum'
          · rintro (h | h)
            · exact absurd h.1 hidle
            · exact absurd h.1 hnname
        · constructor
          · rintro ⟨r', hreach, -⟩
            exact Or.inr ⟨hid, ((revReach_numbered hne hrestd hnum' hr₁).mp hreach).2⟩
          · rintro (h | h)
            · exact absurd h.1 hidle
            · have hreach := (revReach_numbered hne hrestd hnum' hr₁).mpr ⟨rfl, h.2⟩
              have hlast := revReach_open hr₁.open hreach
              refine ⟨_, hreach, ?_⟩
              by_contra hfull
              exact hlast ⟨Bool.not_eq_true _ ▸ hfull, hnum'⟩
      · by_cases hname : t.TakenName P
        · -- the name is found, so only the id can be left
          obtain ⟨r₁, htake, hnum₁, hfull⟩ := revTake_takenName hne hname htd hr
          have hzero : r₁.hwRevNum = 0 := hnum₁.trans hnum
          have hstep : revStep P r t = .inl r₁ :=
            (revStep_some htake).trans (if_neg (fun hc => hc.2 hzero))
          rw [revReach_inl hstep]
          constructor
          · constructor
            · rintro ⟨r', hreach, -⟩
              exact Or.inr ⟨hname, ((revReach_titled hne hzero hfull).mp hreach).2⟩
            · rintro (h | h)
              · exact absurd h.1 hidle
              · exact ⟨r₁, (revReach_titled hne hzero hfull).mpr ⟨rfl, h.2⟩, hzero⟩
          · constructor
            · rintro ⟨r', hreach, hempty⟩
              obtain ⟨rfl, -⟩ := (revReach_titled hne hzero hfull).mp hreach
              exact absurd (hfull.symm.trans hempty) (by decide)
            · rintro (h | h)
              · exact absurd h.1 hidle
              · exact absurd h.1 hid
        · rw [revReach_inr (revStep_bad hne hidle hid hname)]
          constructor <;> constructor
          · rintro ⟨r', hreach, -⟩
            exact absurd hreach.symm (Option.some_ne_none _)
          · rintro (h | h)
            · exact absurd h.1 hidle
            · exact absurd h.1 hname
          · rintro ⟨r', hreach, -⟩
            exact absurd hreach.symm (Option.some_ne_none _)
          · rintro (h | h)
            · exact absurd h.1 hidle
            · exact absurd h.1 hid

/-- Without a name the field holds what empty names have left. -/
theorem revReach_name (hne : RevTypesDiffer P) (hdel : ∀ t ∈ l, t.Delivered)
    (hnum : r.hwRevNum = 0) (hr : Nameless r) (hreach : revReach P l r = some r')
    (hempty : r'.nameEmpty = true) : r'.hwRevName = keptName P l r.hwRevName := by
  induction l generalizing r with
  | nil =>
    obtain rfl := Option.some.inj hreach
    rfl
  | cons t rest ih =>
    obtain ⟨htd, hrestd⟩ := List.forall_mem_cons.mp hdel
    by_cases hidle : t.Idle P
    · obtain ⟨hstep, hnext⟩ := revStep_idle hne hidle htd hnum hr
      rw [revReach_inl hstep] at hreach
      exact ih (r := { r with hwRevName := t.keep P r.hwRevName }) hrestd hnum hnext hreach
    · by_cases hid : t.TakenId P
      · obtain ⟨num, hnum', htake⟩ := revTake_takenId hid hnum
        have hr₁ : Nameless { r with hwRevNum := num } := ⟨hr.length, hr.empty⟩
        rw [revReach_inl ((revStep_some htake).trans (if_neg hr₁.open))] at hreach
        obtain ⟨rfl, -⟩ := (revReach_numbered hne hrestd hnum' hr₁).mp hreach
        have hkeep := keep_of_not_name (fun h => hne (hid.1.symm.trans h)) r.hwRevName
        show keptName P rest r.hwRevName = keptName P rest (t.keep P r.hwRevName)
        rw [hkeep]
      · by_cases hname : t.TakenName P
        · obtain ⟨r₁, htake, hnum₁, hfull⟩ := revTake_takenName hne hname htd hr
          have hzero : r₁.hwRevNum = 0 := hnum₁.trans hnum
          rw [revReach_inl ((revStep_some htake).trans (if_neg (fun hc => hc.2 hzero)))] at hreach
          obtain ⟨rfl, -⟩ := (revReach_titled hne hzero hfull).mp hreach
          exact absurd (hfull.symm.trans hempty) (by decide)
        · rw [revReach_inr (revStep_bad hne hidle hid hname)] at hreach
          exact absurd hreach.symm (Option.some_ne_none _)

/-! ## Searches that store nothing -/

/-- No record that counts has only void ones in front of it. -/
def StoresNothing (P : Platform) (l : List RevTlv) : Prop :=
  ∀ v t u, l = v ++ t :: u → (∀ s ∈ v, s.Idle P) → ¬ t.TakenId P ∧ ¬ t.TakenName P

theorem storesNothing_cons : StoresNothing P (t :: l) ↔
    (¬ t.TakenId P ∧ ¬ t.TakenName P) ∧ (t.Idle P → StoresNothing P l) := by
  constructor
  · intro h
    refine ⟨h [] t l rfl (fun s hs => absurd hs (by simp)), fun ht v x u hl hv => ?_⟩
    exact h (t :: v) x u (by rw [hl, List.cons_append]) (List.forall_mem_cons.mpr ⟨ht, hv⟩)
  · rintro ⟨ht, hrest⟩ v x u hl hv
    cases v with
    | nil =>
      obtain ⟨rfl, -⟩ := List.cons.inj hl
      exact ht
    | cons y v =>
      rw [List.cons_append] at hl
      obtain ⟨hty, hrest'⟩ := List.cons.inj hl
      obtain ⟨hy, hv⟩ := List.forall_mem_cons.mp hv
      exact hrest (hty ▸ hy) v x u hrest' hv

/-- What has been found is kept. -/
theorem revTake_keeps (hne : RevTypesDiffer P) (h : revTake P r t = some r') :
    (r.hwRevNum ≠ 0 → r'.hwRevNum ≠ 0) ∧ (r.nameEmpty = false → r'.nameEmpty = false) := by
  by_cases hid : t.IsId P
  · rw [revTake_id hid] at h
    by_cases hbad : t.len.toNat ≠ 4 ∨ r.hwRevNum ≠ 0
    · rw [if_pos hbad] at h
      exact absurd h.symm (Option.some_ne_none _)
    · rw [if_neg hbad] at h
      obtain ⟨p, -, rfl⟩ := Option.map_eq_some_iff.mp h
      exact ⟨fun hnum => absurd (Or.inr hnum) hbad, fun hname => hname⟩
  · by_cases hname : t.IsName P
    · rw [revTake_name hne hname] at h
      by_cases hbad : t.len.toNat ≥ hwRevNameSize ∨ r.nameEmpty = false
      · rw [if_pos hbad] at h
        exact absurd h.symm (Option.some_ne_none _)
      · rw [if_neg hbad] at h
        obtain ⟨p, -, rfl⟩ := Option.map_eq_some_iff.mp h
        exact ⟨fun hnum => hnum, fun hfull => absurd (Or.inr hfull) hbad⟩
    · have hid' : ¬ t.type = P.ruuviHwRevIdTlv := hid
      have hname' : ¬ t.type = P.ruuviHwRevNameTlv := hname
      have hsome : revTake P r t = some r := by
        unfold revTake
        rw [if_neg hid', if_neg hname']
      obtain rfl := Option.some.inj (hsome.symm.trans h)
      exact ⟨fun hnum => hnum, fun hfull => hfull⟩

theorem revScan_keeps (hne : RevTypesDiffer P) (l : List RevTlv) (r : HwRev) :
    (r.hwRevNum ≠ 0 → (revScan P l r).2.hwRevNum ≠ 0) ∧
      (r.nameEmpty = false → (revScan P l r).2.nameEmpty = false) := by
  induction l generalizing r with
  | nil => exact ⟨fun h => h, fun h => h⟩
  | cons t rest ih =>
    cases htake : revTake P r t with
    | none =>
      rw [revScan_inr P (revStep_none htake)]
      exact ⟨fun h => h, fun h => h⟩
    | some r₁ =>
      obtain ⟨hnum, hname⟩ := revTake_keeps hne htake
      by_cases hc : r₁.Complete
      · rw [revScan_inr P ((revStep_some htake).trans (if_pos hc))]
        exact ⟨hnum, hname⟩
      · rw [revScan_inl P ((revStep_some htake).trans (if_neg hc))]
        obtain ⟨hnum₁, hname₁⟩ := ih r₁
        exact ⟨fun h => hnum₁ (hnum h), fun h => hname₁ (hname h)⟩

/-- A search has found nothing. -/
def FoundNothing (res : Bool × HwRev) : Prop :=
  res.1 = false ∧ res.2.hwRevNum = 0 ∧ res.2.nameEmpty = true

theorem revScan_foundNothing_iff (hne : RevTypesDiffer P) (hdel : ∀ t ∈ l, t.Delivered)
    (hnum : r.hwRevNum = 0) (hr : Nameless r) :
    FoundNothing (revScan P l r) ↔ StoresNothing P l := by
  induction l generalizing r with
  | nil =>
    refine ⟨fun _ v t u hl => absurd hl (by simp), fun _ => ⟨rfl, hnum, hr.empty⟩⟩
  | cons t rest ih =>
    obtain ⟨htd, hrestd⟩ := List.forall_mem_cons.mp hdel
    rw [storesNothing_cons]
    by_cases hidle : t.Idle P
    · obtain ⟨hstep, hnext⟩ := revStep_idle hne hidle htd hnum hr
      have hrest := ih (r := { r with hwRevName := t.keep P r.hwRevName }) hrestd hnum hnext
      rw [revScan_inl P hstep]
      exact hrest.trans ⟨fun h => ⟨⟨idle_not_takenId hne hidle, idle_not_takenName hne hidle⟩,
        fun _ => h⟩, fun h => h.2 hidle⟩
    · by_cases hid : t.TakenId P
      · obtain ⟨num, hnum', htake⟩ := revTake_takenId hid hnum
        have hr₁ : Nameless { r with hwRevNum := num } := ⟨hr.length, hr.empty⟩
        rw [revScan_inl P ((revStep_some htake).trans (if_neg hr₁.open))]
        exact ⟨fun h => absurd h.2.1 ((revScan_keeps hne rest _).1 hnum'),
          fun h => absurd hid h.1.1⟩
      · by_cases hname : t.TakenName P
        · obtain ⟨r₁, htake, hnum₁, hfull⟩ := revTake_takenName hne hname htd hr
          have hzero : r₁.hwRevNum = 0 := hnum₁.trans hnum
          rw [revScan_inl P ((revStep_some htake).trans (if_neg (fun hc => hc.2 hzero)))]
          have hkeep := (revScan_keeps hne rest r₁).2 hfull
          exact ⟨fun h => absurd (hkeep.symm.trans h.2.2) (by decide),
            fun h => absurd hname h.1.2⟩
        · rw [revScan_inr P (revStep_bad hne hidle hid hname)]
          exact ⟨fun _ => ⟨⟨hid, hname⟩, fun h => absurd h hidle⟩,
            fun _ => ⟨rfl, hnum, hr.empty⟩⟩

/-- Agreeing with a search that has not started is finding nothing. -/
theorem agree_nothing_iff {r₀ : HwRev} (hnum : r₀.hwRevNum = 0) (hempty : r₀.nameEmpty = true)
    (res : Bool × HwRev) : Agree (false, r₀) res ↔ FoundNothing res := by
  unfold Agree HwRev.Same FoundNothing
  rw [hnum, (nameEmpty_iff r₀).mp hempty, nameEmpty_iff]
  exact ⟨fun h => ⟨h.1.symm, h.2.1.symm, h.2.2.symm⟩, fun h => ⟨h.1.symm, h.2.1.symm, h.2.2.symm⟩⟩

/-! ## The record that is cut -/

section Cut

variable {size : Nat} {t' : RevTlv} {p : Bytes} {junk : List RevTlv}

/-- What one side makes of the record when it cannot be taken. -/
theorem agree_refused_iff {r₁ : HwRev} :
    Agree (if r₁.Complete then (true, r₁) else (false, r₁)) (false, r) ↔
      ¬ r₁.Complete ∧ r₁.Same r := by
  by_cases hc : r₁.Complete
  · rw [if_pos hc]
    exact ⟨fun h => absurd h.1 (show ¬ true = false by decide), fun h => absurd hc h.1⟩
  · rw [if_neg hc]
    exact ⟨fun h => ⟨hc, h.2⟩, fun h => ⟨rfl, h.2⟩⟩

theorem cutId_agree_iff (h : Halved size t t' p) (hjunk : ∀ s ∈ junk, s.Overlong)
    (hid : t.IsId P) (hlen : t.len.toNat = 4) (hnum : r.hwRevNum = 0) :
    Agree (revScan P [t] r) (revScan P (t' :: junk) r) ↔
      size < t.last ∧ u32FromBytesBe p = 0 := by
  have hid' : t'.IsId P := h.type.trans hid
  have hlen' : t'.len.toNat = 4 := by rw [h.len, hlen]
  have hshort := h.short
  rw [hlen] at hshort
  have hfile : revTake P r t = some { r with hwRevNum := u32FromBytesBe p } := by
    rw [revTake_id hid, if_neg (not_or.mpr ⟨not_not.mpr hlen, not_not.mpr hnum⟩), h.file]
    rfl
  rw [revScan_last (l := []) (fun s hs => absurd hs (by simp)) hfile]
  by_cases hfit : t.last ≤ size
  · have hflash : revTake P r t' =
        some { r with hwRevNum := u32FromBytesBe (p ++ blank (4 - p.length)) } := by
      rw [revTake_id hid', if_neg (not_or.mpr ⟨not_not.mpr hlen', not_not.mpr hnum⟩), h.flash,
        if_pos hfit, hlen]
      rfl
    rw [revScan_last hjunk hflash, agree_last_iff]
    exact ⟨fun hsame => absurd hsame.1 (u32FromBytesBe_blank hshort),
      fun hbig => absurd hfit (Nat.not_le.mpr hbig.1)⟩
  · have hflash : revTake P r t' = none := by
      rw [revTake_id hid', if_neg (not_or.mpr ⟨not_not.mpr hlen', not_not.mpr hnum⟩), h.flash,
        if_neg hfit]
      rfl
    rw [revScan_inr P (revStep_none hflash), agree_refused_iff]
    constructor
    · rintro ⟨-, hsame⟩
      exact ⟨Nat.not_le.mp hfit, hsame.1.trans hnum⟩
    · rintro ⟨-, hzero⟩
      exact ⟨fun hc => hc.2 hzero, hzero.trans hnum.symm, rfl⟩

theorem cutName_agree_iff (hne : RevTypesDiffer P) (h : Halved size t t' p)
    (hjunk : ∀ s ∈ junk, s.Overlong) (hname : t.IsName P) (hlen : t.len.toNat < hwRevNameSize)
    (hr : Nameless r) :
    Agree (revScan P [t] r) (revScan P (t' :: junk) r) ↔
      if t.last ≤ size then
        0 ∈ p ∨ slice r.hwRevName p.length (t.len.toNat - p.length) =
          blank (t.len.toNat - p.length)
      else p.headD 0 = 0 := by
  have hname' : t'.IsName P := h.type.trans hname
  have hlen' : t'.len.toNat < hwRevNameSize := by rw [h.len]; exact hlen
  have hshort := h.short
  have hle : p.length ≤ t.len.toNat := Nat.le_of_lt hshort
  have hempty := putName_nameEmpty hr.length hr.empty hle
  rw [revScan_last (l := []) (fun s hs => absurd hs (by simp))
    (revTake_nameless hne hname hlen hr h.file)]
  by_cases hfit : t.last ≤ size
  · have hpay := h.flash
    rw [if_pos hfit] at hpay
    have hfull : (p ++ blank (t.len.toNat - p.length)).length = t.len.toNat := by
      rw [List.length_append, blank_length]
      omega
    have hpart : (slice r.hwRevName p.length (t.len.toNat - p.length)).length =
        t.len.toNat - p.length := by
      have hsize := hr.length
      apply slice_length_of_le
      omega
    have hiff := cString_blank_iff (x := p)
      (s := slice r.hwRevName p.length (t.len.toNat - p.length))
    rw [hpart] at hiff
    rw [revScan_last hjunk (revTake_nameless hne hname' hlen' hr hpay), agree_last_iff, if_pos hfit,
      h.len, ← hiff]
    unfold HwRev.Same
    rw [putName_eq hr.length hle hlen, putName_eq hr.length (Nat.le_of_eq hfull) hlen, hfull,
      Nat.sub_self, slice_zero_len, List.append_nil, cString_append_zero, cString_append_zero]
    exact and_iff_right rfl
  · have hpay := h.flash
    rw [if_neg hfit] at hpay
    have hflash : revTake P r t' = none := by
      rw [revTake_name hne hname', hpay]
      exact ite_self _
    rw [revScan_inr P (revStep_none hflash), agree_refused_iff, if_neg hfit, ← hempty]
    constructor
    · rintro ⟨-, -, hsame⟩
      rw [nameEmpty_iff, hsame]
      exact (nameEmpty_iff r).mp hr.empty
    · intro hvoid
      refine ⟨fun hc => absurd (hvoid.symm.trans hc.1) (by decide), rfl, ?_⟩
      rw [(nameEmpty_iff _).mp hvoid, (nameEmpty_iff r).mp hr.empty]

/-- The searches part at a record that the end of the file cuts only if it counts and
the part that is there reads as something else. -/
theorem cut_agree_iff (hne : RevTypesDiffer P) (h : Halved size t t' p)
    (hjunk : ∀ s ∈ junk, s.Overlong) (hopen : ¬ r.Complete)
    (hlength : r.hwRevName.length = hwRevNameSize) :
    Agree (revScan P [t] r) (revScan P (t' :: junk) r) ↔ CutHarmless P size r t p := by
  have hrefused : ∀ {s : HwRev}, revStep P r t = .inr (false, s) →
      revStep P r t' = .inr (false, s) → Agree (revScan P [t] r) (revScan P (t' :: junk) r) := by
    intro s hs hs'
    rw [revScan_inr P hs, revScan_inr P hs']
    exact Agree.refl _
  by_cases hid : t.IsId P
  · have hid' : t'.IsId P := h.type.trans hid
    have hname : ¬ t.IsName P := fun hname => hne (hid.symm.trans hname)
    by_cases hbad : t.len.toNat ≠ 4 ∨ r.hwRevNum ≠ 0
    · have hs := revStep_none ((revTake_id hid).trans (if_pos hbad))
      have hs' := revStep_none ((revTake_id hid').trans (if_pos (h.len ▸ hbad)))
      refine iff_of_true (hrefused hs hs') ⟨fun _ hlen hnum => ?_, fun hn => absurd hn hname⟩
      rcases hbad with hbad | hbad
      · exact absurd hlen hbad
      · exact absurd hnum hbad
    · obtain ⟨hlen, hnum⟩ := not_or.mp hbad
      rw [cutId_agree_iff h hjunk hid (not_not.mp hlen) (not_not.mp hnum)]
      exact ⟨fun hcut => ⟨fun _ _ _ => hcut, fun hn => absurd hn hname⟩,
        fun hcut => hcut.1 hid (not_not.mp hlen) (not_not.mp hnum)⟩
  · by_cases hname : t.IsName P
    · have hname' : t'.IsName P := h.type.trans hname
      by_cases hbad : t.len.toNat ≥ hwRevNameSize ∨ r.nameEmpty = false
      · have hs := revStep_none ((revTake_name hne hname).trans (if_pos hbad))
        have hs' := revStep_none ((revTake_name hne hname').trans (if_pos (h.len ▸ hbad)))
        refine iff_of_true (hrefused hs hs')
          ⟨fun hi => absurd hi hid, fun _ hlen hempty => ?_⟩
        rcases hbad with hbad | hbad
        · exact absurd hlen (Nat.not_lt.mpr hbad)
        · exact absurd (hbad.symm.trans hempty) (by decide)
      · obtain ⟨hlen, hfull⟩ := not_or.mp hbad
        have hempty : r.nameEmpty = true := Bool.not_eq_false _ ▸ hfull
        rw [cutName_agree_iff hne h hjunk hname (Nat.not_le.mp hlen) ⟨hlength, hempty⟩]
        exact ⟨fun hcut => ⟨fun hi => absurd hi hid, fun _ _ _ => hcut⟩,
          fun hcut => hcut.2 hname (Nat.not_le.mp hlen) hempty⟩
    · have hs := revStep_other (t := t) hopen (not_or.mpr ⟨hid, hname⟩)
      have hs' : revStep P r t' = .inl r := revStep_other hopen (not_or.mpr
        ⟨fun hi => hid (h.type.symm.trans hi), fun hn => hname (h.type.symm.trans hn)⟩)
      rw [revScan_inl P hs, revScan_inl P hs', revScan_overlong hopen hjunk]
      exact iff_of_true (Agree.refl _)
        ⟨fun hi => absurd hi hid, fun hn => absurd hn hname⟩

end Cut

/-! ## A file and its copy -/

theorem revScan_reach (h : revReach P l r = some r') : revScan P l r = (false, r') := by
  have happ := revScan_append (P := P) l [] r
  rw [List.append_nil, h] at happ
  exact happ

theorem revTake_length (h : revTake P r t = some r') :
    r'.hwRevName.length = r.hwRevName.length := by
  unfold revTake at h
  by_cases hid : t.type = P.ruuviHwRevIdTlv
  · rw [if_pos hid] at h
    by_cases hbad : t.len.toNat ≠ 4 ∨ r.hwRevNum ≠ 0
    · rw [if_pos hbad] at h
      exact absurd h.symm (Option.some_ne_none _)
    · rw [if_neg hbad] at h
      obtain ⟨p, -, rfl⟩ := Option.map_eq_some_iff.mp h
      rfl
  · rw [if_neg hid] at h
    by_cases hname : t.type = P.ruuviHwRevNameTlv
    · rw [if_pos hname] at h
      by_cases hbad : t.len.toNat ≥ hwRevNameSize ∨ r.nameEmpty = false
      · rw [if_pos hbad] at h
        exact absurd h.symm (Option.some_ne_none _)
      · rw [if_neg hbad] at h
        obtain ⟨p, -, rfl⟩ := Option.map_eq_some_iff.mp h
        exact putName_length _ _
    · rw [if_neg hname] at h
      rw [Option.some.inj h]

theorem revReach_length (h : revReach P l r = some r') :
    r'.hwRevName.length = r.hwRevName.length := by
  induction l generalizing r with
  | nil => rw [Option.some.inj h]
  | cons t rest ih =>
    cases htake : revTake P r t with
    | none =>
      rw [revReach_inr (revStep_none htake)] at h
      exact absurd h.symm (Option.some_ne_none _)
    | some r₁ =>
      by_cases hc : r₁.Complete
      · rw [revReach_inr ((revStep_some htake).trans (if_pos hc))] at h
        exact absurd h.symm (Option.some_ne_none _)
      · rw [revReach_inl ((revStep_some htake).trans (if_neg hc))] at h
        exact (ih h).trans (revTake_length htake)

/-- The TLVs that the search in a file goes through. -/
def fileRevTlvs (b : Bytes) : List RevTlv :=
  revTlvs (fileRead b) b (bootTlvOff (ImageHeader.decode (slice b 0 imageHeaderSize))).toNat

/-- When the search in the file `b` and the search in its copy `c`, a whole partition,
agree.  Where only one of them goes through TLVs, none of these counts; and a record
that the end of the file cuts reads alike on both sides. -/
structure RevAgreement (P : Platform) (b c : Bytes) : Prop where
  short : b.length < imageHeaderSize → ∀ hdr, partitionHeader P c = some hdr →
    StoresNothing P (revTlvs (flashRead c) c (bootTlvOff hdr).toNat)
  unloaded : imageHeaderSize ≤ b.length → partitionHeader P c = none →
    StoresNothing P (fileRevTlvs b)
  cutId : imageHeaderSize ≤ b.length → partitionHeader P c ≠ none → ∀ pre t,
    fileRevTlvs b = pre ++ [t] → b.length < t.last → t.IsId P → t.len.toNat = 4 → IdOpen P pre →
    c.length < t.last ∧ u32FromBytesBe (slice b (t.off + 4) t.len.toNat) = 0
  cutName : imageHeaderSize ≤ b.length → partitionHeader P c ≠ none → ∀ pre t,
    fileRevTlvs b = pre ++ [t] → b.length < t.last → t.IsName P → t.len.toNat < hwRevNameSize →
    NameOpen P pre →
    let p := slice b (t.off + 4) t.len.toNat
    let rest := t.len.toNat - p.length
    if t.last ≤ c.length then
      0 ∈ p ∨ slice (keptName P pre HwRev.zero.hwRevName) p.length rest = blank rest
    else p.headD 0 = 0

theorem zero_nameless : Nameless HwRev.zero := ⟨rfl, rfl⟩

theorem whole_not_cut {b : Bytes} {pre' pre : List RevTlv} (hwhole : ∀ t ∈ pre, t.last ≤ b.length)
    (hl : pre = pre' ++ [t]) : ¬ b.length < t.last := by
  have hmem : t ∈ pre := by
    rw [hl]
    exact List.mem_append_right _ List.mem_cons_self
  exact Nat.not_lt.mpr (hwhole t hmem)

/-- The searches behind the same header. -/
theorem revTlvs_agree_iff (hne : RevTypesDiffer P) (b : Bytes) (k : Nat) :
    let o := (bootTlvOff (ImageHeader.decode (slice b 0 imageHeaderSize))).toNat
    Agree (revScan P (fileRevTlvs b) HwRev.zero)
        (revScan P (revTlvs (flashRead (b ++ blank k)) (b ++ blank k) o) HwRev.zero) ↔
      ∀ pre t, fileRevTlvs b = pre ++ [t] → b.length < t.last →
        (t.IsId P → t.len.toNat = 4 → IdOpen P pre →
          b.length + k < t.last ∧ u32FromBytesBe (slice b (t.off + 4) t.len.toNat) = 0) ∧
        (t.IsName P → t.len.toNat < hwRevNameSize → NameOpen P pre →
          let p := slice b (t.off + 4) t.len.toNat
          let rest := t.len.toNat - p.length
          if t.last ≤ b.length + k then
            0 ∈ p ∨ slice (keptName P pre HwRev.zero.hwRevName) p.length rest = blank rest
          else p.headD 0 = 0) := by
  intro o
  have hopen : ¬ HwRev.zero.Complete := zero_nameless.open
  have hdel : ∀ t ∈ fileRevTlvs b, t.Delivered := revTlvs_delivered (fileRead_payload b)
  obtain ⟨pre, junk, hwalks⟩ := revTlvs_agree b k o
  rcases hwalks.split with ⟨hfile, hflash⟩ | ⟨off, t, t', hcut, hfile, hflash⟩
  · rw [hflash, show fileRevTlvs b = pre from hfile, revScan_append]
    refine iff_of_true ?_ (fun pre' t hl hpass => absurd hpass (whole_not_cut hwalks.whole hl))
    cases hreach : revReach P pre HwRev.zero with
    | none => exact Agree.refl _
    | some r =>
      rw [revScan_reach hreach]
      show Agree _ (revScan P junk r)
      rw [revScan_overlong (revReach_open hopen hreach) hwalks.overlong]
      exact Agree.refl _
  · have hsplit : fileRevTlvs b = pre ++ [t] := hfile
    have hpredel : ∀ s ∈ pre, s.Delivered := fun s hs =>
      hdel s (hsplit ▸ List.mem_append_left _ hs)
    obtain ⟨hidOpen, hnameOpen⟩ := revReach_open_iff (l := pre) hne hpredel rfl zero_nameless
    have hoff : t.off = off := by rw [hcut.file]; rfl
    have hhalved := hcut.halved
    rw [hflash, hsplit, revScan_append, revScan_append]
    cases hreach : revReach P pre HwRev.zero with
    | none =>
      refine iff_of_true (Agree.refl _) (fun pre' t₁ hl _ => ?_)
      obtain ⟨rfl, -⟩ := List.append_inj' hl rfl
      refine ⟨fun _ _ ho => ?_, fun _ _ ho => ?_⟩
      · obtain ⟨r', hr', -⟩ := hidOpen.mpr ho
        exact absurd (hreach.symm.trans hr').symm (Option.some_ne_none _)
      · obtain ⟨r', hr', -⟩ := hnameOpen.mpr ho
        exact absurd (hreach.symm.trans hr').symm (Option.some_ne_none _)
    | some r =>
      have hnum : r.hwRevNum = 0 ↔ IdOpen P pre := by
        rw [← hidOpen]
        constructor
        · exact fun h => ⟨r, hreach, h⟩
        · rintro ⟨r', hr', h⟩
          exact Option.some.inj (hreach.symm.trans hr') ▸ h
      have hname : r.nameEmpty = true ↔ NameOpen P pre := by
        rw [← hnameOpen]
        constructor
        · exact fun h => ⟨r, hreach, h⟩
        · rintro ⟨r', hr', h⟩
          exact Option.some.inj (hreach.symm.trans hr') ▸ h
      have hkept : r.nameEmpty = true → r.hwRevName = keptName P pre HwRev.zero.hwRevName :=
        revReach_name hne hpredel rfl zero_nameless hreach
      show Agree (revScan P [t] r) (revScan P (t' :: junk) r) ↔ _
      rw [cut_agree_iff hne hhalved hwalks.overlong (revReach_open hopen hreach)
        (revReach_length hreach)]
      unfold CutHarmless
      rw [hnum, hname]
      constructor
      · intro h pre' t₁ hl hpass
        obtain ⟨rfl, ht⟩ := List.append_inj' hl rfl
        obtain rfl := List.singleton_inj.mp ht
        rw [hoff]
        refine ⟨h.1, fun hn hlen ho => ?_⟩
        rw [← hkept (hname.mpr ho)]
        exact h.2 hn hlen ho
      · intro h
        have hcond := h pre t rfl hcut.passes
        rw [hoff] at hcond
        refine ⟨hcond.1, fun hn hlen ho => ?_⟩
        rw [hkept (hname.mpr ho)]
        exact hcond.2 hn hlen ho

/-- The header of the partition is read as it stands. -/
def LoadsRaw (P : Platform) : Prop :=
  ∀ size raw hdr, P.bootImageLoadHeader size raw = some hdr → hdr = ImageHeader.decode raw

theorem zero_clear : HwRev.zero.clear = HwRev.zero := rfl

/-- The scan of a file and the scan of its copy. -/
theorem scans_agree_iff (hne : RevTypesDiffer P) (hraw : LoadsRaw P) (b : Bytes) (k : Nat) :
    Agree (fileRevScan P b HwRev.zero) (partitionRevScan P (b ++ blank k) HwRev.zero) ↔
      RevAgreement P b (b ++ blank k) := by
  have hlen : (b ++ blank k).length = b.length + k := by rw [List.length_append, blank_length]
  unfold fileRevScan partitionRevScan
  rw [zero_clear]
  by_cases hshort : b.length < imageHeaderSize
  · -- the file is no image, and the search in it finds nothing
    rw [if_pos hshort, agree_nothing_iff rfl rfl]
    cases hload : partitionHeader P (b ++ blank k) with
    | none =>
      refine iff_of_true ⟨rfl, rfl, rfl⟩
        { short := fun _ hdr h => absurd (hload.symm.trans h).symm (Option.some_ne_none _)
          unloaded := fun h => absurd hshort (Nat.not_lt.mpr h)
          cutId := fun h => absurd hshort (Nat.not_lt.mpr h)
          cutName := fun h => absurd hshort (Nat.not_lt.mpr h) }
    | some hdr =>
      refine (revScan_foundNothing_iff hne (revTlvs_delivered (flashRead_payload _)) rfl
        zero_nameless).trans ?_
      constructor
      · intro h
        refine
          { short := fun _ hdr' h' => ?_
            unloaded := fun h => absurd hshort (Nat.not_lt.mpr h)
            cutId := fun h => absurd hshort (Nat.not_lt.mpr h)
            cutName := fun h => absurd hshort (Nat.not_lt.mpr h) }
        rw [← Option.some.inj (hload.symm.trans h')]
        exact h
      · exact fun h => h.short hshort hdr hload
  · have hfit : imageHeaderSize ≤ b.length := Nat.not_lt.mp hshort
    rw [if_neg hshort]
    show Agree (revScan P (fileRevTlvs b) HwRev.zero) _ ↔ _
    cases hload : partitionHeader P (b ++ blank k) with
    | none =>
      have hsymm : ∀ res : Bool × HwRev,
          Agree res (false, HwRev.zero) ↔ Agree (false, HwRev.zero) res :=
        fun res => ⟨fun h => ⟨h.1.symm, h.2.symm⟩, fun h => ⟨h.1.symm, h.2.symm⟩⟩
      refine (hsymm _).trans ((agree_nothing_iff rfl rfl _).trans
        ((revScan_foundNothing_iff hne (revTlvs_delivered (fileRead_payload _)) rfl
          zero_nameless).trans ?_))
      constructor
      · intro h
        exact
          { short := fun h' => absurd h' hshort
            unloaded := fun _ _ => h
            cutId := fun _ h' => absurd hload h'
            cutName := fun _ h' => absurd hload h' }
      · exact fun h => h.unloaded hfit hload
    | some hdr =>
      have hhdr : hdr = ImageHeader.decode (slice b 0 imageHeaderSize) := by
        unfold partitionHeader at hload
        rw [if_pos (by omega), slice_append_left _ (by omega)] at hload
        exact hraw _ _ _ hload
      rw [hhdr]
      refine (revTlvs_agree_iff hne b k).trans ⟨fun h => ?_, fun h pre t hl hpass => ?_⟩
      · exact
          { short := fun h' => absurd h' hshort
            unloaded := fun _ h' => absurd (h'.symm.trans hload).symm (Option.some_ne_none _)
            cutId := fun _ _ pre t hl hpass hid hlen ho => by
              rw [List.length_append, blank_length]
              exact (h pre t hl hpass).1 hid hlen ho
            cutName := fun _ _ pre t hl hpass hname hlen ho => by
              rw [List.length_append, blank_length]
              exact (h pre t hl hpass).2 hname hlen ho }
      · have hsome : partitionHeader P (b ++ blank k) ≠ none := by
          rw [hload]
          exact Option.some_ne_none _
        rw [← hlen]
        exact ⟨h.cutId hfit hsome pre t hl hpass, h.cutName hfit hsome pre t hl hpass⟩

/-- The update file `d` was installed in the partition, and all of it was copied. -/
structure CopiedWhole (P : Platform) (f : UpdateFile) (dst : FaId) (hwRev : HwRev)
    (flagValidateB0Signature : Bool) (d : FileData) (w : World) : Prop where
  file : w.files f = some (.file d)
  installed : (P.run (checkFileAndUpdate P f dst hwRev flagValidateB0Signature) w).1 = true
  flash : (P.run (checkFileAndUpdate P f dst hwRev flagValidateB0Signature) w).2.flash dst =
    d.bytes ++ blank ((w.flash dst).length - d.bytes.length)

namespace Reference

/-- An image that the first-stage check accepts at its place in slot 1, behind an
MCUboot header. -/
def mcuboot1Image : Bytes :=
  leBytes 4 IMAGE_MAGIC.toNat ++ leBytes 4 0 ++ leBytes 2 32 ++ leBytes 2 0 ++ leBytes 4 8 ++
    List.replicate 16 0 ++ b0Image 1 0x40

/-- The image with both records behind it. -/
def namedFile : FileData where
  bytes := mcuboot1Image ++ encodeList IMAGE_TLV_PROT_INFO_MAGIC [revId, revName]
  size_le := by decide +kernel

/-- The image with both records, the last of which is cut. -/
def cutFile : FileData where
  bytes := mcuboot1Image ++ (encodeList IMAGE_TLV_PROT_INFO_MAGIC [revName, revId]).take 17
  size_le := by decide +kernel

/-- A boot with slots of 64 bytes and an older firmware in each of them. -/
def bootB0 (d : FileData) : World :=
  World.atBoot (fun _ => some (.file d)) (fun _ => [0xA5, 0, 0, 1] ++ blank 60) (blank 64)
    (fun _ _ => .none)

/-- A later boot that starts from this slot. -/
def slotWorld (b : Bytes) : World := World.atBoot (fun _ => none) (fun _ => b) [] (fun _ _ => .none)

theorem platform_revTypesDiffer64 : RevTypesDiffer (platform 64) :=
  show (platform 64).ruuviHwRevIdTlv ≠ (platform 64).ruuviHwRevNameTlv by decide

theorem platform_loadsRaw : LoadsRaw (platform 64) := by
  intro size raw hdr h
  by_cases hmagic : (ImageHeader.decode raw).ihMagic = IMAGE_MAGIC
  · exact (Option.some.inj ((if_pos hmagic).symm.trans h)).symm
  · exact absurd ((if_neg hmagic).symm.trans h).symm (Option.some_ne_none _)

/-- The installation of the file takes place and copies all of it. -/
theorem cutFile_copied :
    CopiedWhole (platform 64) .mcuboot1 .s1 HwRev.zero true cutFile (bootB0 cutFile) :=
  ⟨rfl, by decide +kernel, by decide +kernel⟩

theorem namedFile_copied :
    CopiedWhole (platform 64) .mcuboot1 .s1 HwRev.zero true namedFile (bootB0 namedFile) :=
  ⟨rfl, by decide +kernel, by decide +kernel⟩

/-- No record of the file is cut. -/
theorem namedFile_whole {pre : List RevTlv} {t : RevTlv}
    (hl : fileRevTlvs namedFile.bytes = pre ++ [t]) : ¬ namedFile.bytes.length < t.last := by
  have hwhole : ∀ t ∈ fileRevTlvs namedFile.bytes, t.last ≤ namedFile.bytes.length := by
    decide +kernel
  have hmem : t ∈ fileRevTlvs namedFile.bytes := by
    rw [hl]
    exact List.mem_append_right _ List.mem_cons_self
  exact Nat.not_lt.mpr (hwhole t hmem)

theorem namedFile_agreement (c : Bytes) (hload : partitionHeader (platform 64) c ≠ none) :
    RevAgreement (platform 64) namedFile.bytes c where
  short h := absurd h (by decide)
  unloaded _ h := absurd h hload
  cutId _ _ _ _ hl h := absurd h (namedFile_whole hl)
  cutName _ _ _ _ hl h := absurd h (namedFile_whole hl)

end Reference

end RuuviMcuboot
