/-
The searches for the hardware revision against their specification.

A search that returns true has taken an id and a name, perhaps behind records that it
forgot.  It meets the specification exactly if, whenever this happens, it forgot
nothing and the second record lies wholly in the protected area.
-/
import RuuviMcuboot.Platform.Reading
import RuuviMcuboot.Platform.Reference
import RuuviMcuboot.Revision.Declared

namespace RuuviMcuboot

open Binary Effect

variable {P : Platform} {w : World} {hd : Handle} {d : FileData} {r : HwRev} {t : RevTlv}
  {l : List RevTlv}

/-! ## The value of an id -/

theorem toNat_byte_shift (x : UInt8) {s : UInt32} (hs : s.toNat ≤ 24) :
    (x.toUInt32 <<< s).toNat = x.toNat <<< s.toNat := by
  have hx := x.toNat_lt
  have hlt : x.toNat <<< s.toNat < 2 ^ 32 :=
    calc x.toNat <<< s.toNat = x.toNat * 2 ^ s.toNat := Nat.shiftLeft_eq _ _
      _ ≤ x.toNat * 2 ^ 24 := Nat.mul_le_mul_left _ (Nat.pow_le_pow_right (by omega) hs)
      _ < 2 ^ 32 := by omega
  have hmod : s.toNat % 32 = s.toNat := Nat.mod_eq_of_lt (by omega)
  rw [UInt32.toNat_shiftLeft, UInt8.toNat_toUInt32, hmod, Nat.mod_eq_of_lt hlt]

/-- Four bytes denote their number with the first one on top. -/
theorem u32FromBytesBe_toNat {p : Bytes} (hp : p.length = 4) :
    (u32FromBytesBe p).toNat = leNat p.reverse := by
  obtain ⟨a, b, c, d, rfl⟩ : ∃ a b c d, p = [a, b, c, d] := by
    match p, hp with
    | [a, b, c, d], _ => exact ⟨a, b, c, d, rfl⟩
  have hb := b.toNat_lt
  have hc := c.toNat_lt
  have hd := d.toNat_lt
  have hval : u32FromBytesBe [a, b, c, d] =
      ((a.toUInt32 <<< 24 ||| b.toUInt32 <<< 16) ||| c.toUInt32 <<< 8) ||| d.toUInt32 <<< 0 := by
    simp [u32FromBytesBe, List.range, List.range.loop]
  have h24 : (24 : UInt32).toNat = 24 := rfl
  have h16 : (16 : UInt32).toNat = 16 := rfl
  have h8 : (8 : UInt32).toNat = 8 := rfl
  have h0 : (0 : UInt32).toNat = 0 := rfl
  rw [hval, UInt32.toNat_or, UInt32.toNat_or, UInt32.toNat_or, toNat_byte_shift _ (by omega),
    toNat_byte_shift _ (by omega), toNat_byte_shift _ (by omega), toNat_byte_shift _ (by omega),
    h24, h16, h8, h0, Nat.shiftLeft_zero, Nat.or_assoc, Nat.or_assoc, shift_or 8 (by omega),
    shift_or 16 (by omega), shift_or 24 (by omega)]
  simp only [List.reverse_cons, List.reverse_nil, List.nil_append, List.cons_append, leNat]
  omega

/-! ## The first point where two kinds have been seen -/

section FirstBoth

variable {α : Type} {p q : α → Prop} [DecidablePred p] [DecidablePred q] {i n : α} {l : List α}

/-- Something of each kind is in the list. -/
def Both (p q : α → Prop) (l : List α) : Prop := (∃ x ∈ l, p x) ∧ ∃ x ∈ l, q x

theorem filter_or_of_none (h : l.filter (q ·) = []) :
    l.filter (fun x => p x ∨ q x) = l.filter (p ·) := by
  apply List.filter_congr
  intro x hx
  have hq : ¬ q x := by simpa using List.filter_eq_nil_iff.mp h x hx
  simp [hq]

/-- If the last element is the one of its kind, it comes behind the one of the other
kind. -/
theorem filter_pair (hpq : ∀ x, ¬ (p x ∧ q x)) {z : α} (hz : q z)
    (hp : (l ++ [z]).filter (p ·) = [i]) (hq : (l ++ [z]).filter (q ·) = [n]) :
    (l ++ [z]).filter (fun x => p x ∨ q x) = [i, n] := by
  have hnp : ¬ p z := fun h => hpq z ⟨h, hz⟩
  rw [List.filter_append, List.filter_cons_of_pos (by simpa using hz), List.filter_nil] at hq
  rw [List.filter_append, List.filter_cons_of_neg (by simpa using hnp), List.filter_nil,
    List.append_nil] at hp
  obtain ⟨hnone, hlast⟩ : l.filter (q ·) = [] ∧ [z] = [n] := List.append_inj' hq rfl
  rw [List.filter_append, filter_or_of_none hnone, hp,
    List.filter_cons_of_pos (by simpa using Or.inr hz), List.filter_nil, hlast]
  rfl

/-- The list up to the second of two elements in a row ends where both kinds have
been seen. -/
theorem firstBoth_of_filter (hpq : ∀ x, ¬ (p x ∧ q x)) (hi : p i) (hn : q n) {rest : List α}
    (h : l.filter (fun x => p x ∨ q x) = i :: n :: rest) :
    ∃ pre post, l = pre ++ post ∧
      (Both p q pre ∧ ∀ l₁ l₂, pre = l₁ ++ l₂ → l₂ ≠ [] → ¬ Both p q l₁) ∧
      pre.filter (p ·) = [i] ∧ pre.filter (q ·) = [n] := by
  obtain ⟨s, t, rfl, hs, -, ht⟩ := List.filter_eq_cons_iff.mp h
  obtain ⟨m, post, rfl, hm, -, -⟩ := List.filter_eq_cons_iff.mp ht
  have hs' : ∀ x ∈ s, ¬ p x ∧ ¬ q x := fun x hx => by simpa using hs x hx
  have hm' : ∀ x ∈ m, ¬ p x ∧ ¬ q x := fun x hx => by simpa using hm x hx
  have hiq : ¬ q i := fun h => hpq i ⟨hi, h⟩
  have hnp : ¬ p n := fun h => hpq n ⟨h, hn⟩
  have hfront : ∀ x ∈ s ++ i :: m, ¬ q x := by
    intro x hx
    rcases List.mem_append.mp hx with hx | hx
    · exact (hs' x hx).2
    · rcases List.mem_cons.mp hx with rfl | hx
      · exact hiq
      · exact (hm' x hx).2
  have hsp : s.filter (p ·) = [] := List.filter_eq_nil_iff.mpr fun x hx => by simpa using (hs' x hx).1
  have hmp : m.filter (p ·) = [] := List.filter_eq_nil_iff.mpr fun x hx => by simpa using (hm' x hx).1
  refine ⟨s ++ i :: m ++ [n], post, by simp, ⟨⟨⟨i, by simp, hi⟩, n, by simp, hn⟩, ?_⟩, ?_, ?_⟩
  · rintro l₁ l₂ hsplit hne ⟨-, x, hx, hqx⟩
    obtain ⟨l₃, z, rfl⟩ := (List.eq_nil_or_concat l₂).resolve_left hne
    rw [List.concat_eq_append, ← List.append_assoc] at hsplit
    have hinit : s ++ i :: m = l₁ ++ l₃ := (List.append_inj' hsplit rfl).1
    exact hfront x (hinit ▸ List.mem_append_left _ hx) hqx
  · rw [List.filter_append, List.filter_append, hsp, List.filter_cons_of_pos (by simpa using hi), hmp,
      List.filter_cons_of_neg (by simpa using hnp)]
    rfl
  · rw [List.filter_append, List.filter_eq_nil_iff.mpr (fun x hx => by simpa using hfront x hx),
      List.filter_cons_of_pos (by simpa using hn)]
    rfl

/-- Up to the first point where both kinds have been seen there is one of each kind:
these are the first two of either kind. -/
theorem firstBoth_iff (hpq : ∀ x, ¬ (p x ∧ q x)) (hi : p i) (hn : q n) :
    (∃ pre post, l = pre ++ post ∧
      (Both p q pre ∧ ∀ l₁ l₂, pre = l₁ ++ l₂ → l₂ ≠ [] → ¬ Both p q l₁) ∧
      pre.filter (p ·) = [i] ∧ pre.filter (q ·) = [n]) ↔
    ∃ rest, l.filter (fun x => p x ∨ q x) = i :: n :: rest ∨
      l.filter (fun x => p x ∨ q x) = n :: i :: rest := by
  have hqp : ∀ x, ¬ (q x ∧ p x) := fun x h => hpq x h.symm
  have hswap : ∀ l : List α, l.filter (fun x => q x ∨ p x) = l.filter (fun x => p x ∨ q x) :=
    fun l => List.filter_congr fun x _ => by simp [or_comm]
  constructor
  · rintro ⟨pre, post, rfl, ⟨hboth, hfirst⟩, hfp, hfq⟩
    rcases List.eq_nil_or_concat pre with rfl | ⟨l₀, z, rfl⟩
    · exact absurd hfp (by simp)
    · rw [List.concat_eq_append] at hboth hfirst hfp hfq ⊢
      refine ⟨post.filter (fun x => p x ∨ q x), ?_⟩
      rw [List.filter_append]
      by_cases hz : q z
      · exact Or.inl (by rw [filter_pair hpq hz hfp hfq]; rfl)
      · by_cases hz' : p z
        · exact Or.inr (by rw [← hswap, filter_pair hqp hz' hfq hfp]; rfl)
        · -- the last element is of neither kind
          refine absurd ⟨?_, ?_⟩ (hfirst l₀ [z] rfl (by simp))
          · obtain ⟨x, hx, hpx⟩ := hboth.1
            rcases List.mem_append.mp hx with hx | hx
            · exact ⟨x, hx, hpx⟩
            · exact absurd (List.mem_singleton.mp hx ▸ hpx) hz'
          · obtain ⟨x, hx, hqx⟩ := hboth.2
            rcases List.mem_append.mp hx with hx | hx
            · exact ⟨x, hx, hqx⟩
            · exact absurd (List.mem_singleton.mp hx ▸ hqx) hz
  · rintro ⟨rest, h | h⟩
    · exact firstBoth_of_filter hpq hi hn h
    · obtain ⟨pre, post, hl, ⟨hboth, hfirst⟩, hfq, hfp⟩ :=
        firstBoth_of_filter hqp hn hi ((hswap l).trans h)
      exact ⟨pre, post, hl, ⟨hboth.symm, fun l₁ l₂ h hne hb => hfirst l₁ l₂ h hne hb.symm⟩, hfp, hfq⟩

end FirstBoth

/-! ## Whole records -/

/-- What is known of a TLV that lies wholly in an area. -/
def RevTlv.Whole (stop : Nat) (t : RevTlv) : Prop :=
  t.last ≤ stop ∧ ∃ p, t.payload = some p ∧ p.length = t.len.toNat

theorem wholeTlvs_whole {area : Bytes} (n : Nat) :
    ∀ off, ∀ t ∈ wholeTlvs area n off, t.Whole area.length := by
  induction n with
  | zero => exact fun off t ht => absurd ht (by simp [wholeTlvs])
  | succ n ih =>
    intro off t ht
    unfold wholeTlvs at ht
    dsimp only at ht
    by_cases hin : off + 4 ≤ area.length ∧
        (revTlvAt (fileRead area) area off).last ≤ area.length
    · rw [if_pos hin] at ht
      rcases List.mem_cons.mp ht with rfl | ht
      · exact ⟨hin.2, _, rfl, slice_length_of_le hin.2⟩
      · exact ih _ t ht
    · rw [if_neg hin] at ht
      exact absurd ht (by simp)

theorem protTlvs_whole {b : Bytes} {o : Nat} {t : RevTlv} (ht : t ∈ protTlvs b o) :
    t.Whole (min (protEnd b o) b.length) := by
  have h := wholeTlvs_whole _ _ t ht
  rwa [List.length_take] at h

/-- A whole id record counts exactly if the searches take it. -/
theorem goodId_iff {stop : Nat} (ht : t.Whole stop) : (∃ num, t.GoodId P num) ↔ t.TakenId P := by
  obtain ⟨-, p, hp, hlen⟩ := ht
  constructor
  · rintro ⟨num, hid, h4, q, hq, hval, hne⟩
    obtain rfl : p = q := Option.some.inj (hp.symm.trans hq)
    refine ⟨hid, h4, p, hp, fun hzero => hne ?_⟩
    rw [← UInt32.toNat_inj, hval, ← u32FromBytesBe_toNat (hlen.trans h4), hzero]
  · rintro ⟨hid, h4, q, hq, hne⟩
    obtain rfl : p = q := Option.some.inj (hp.symm.trans hq)
    exact ⟨u32FromBytesBe p, hid, h4, p, hp, u32FromBytesBe_toNat (hlen.trans h4), hne⟩

theorem goodName_iff : (∃ name, t.GoodName P name) ↔ t.TakenName P := by
  constructor
  · rintro ⟨name, hname, hlt, hp, hhead⟩
    exact ⟨hname, hlt, name, hp, hhead⟩
  · rintro ⟨hname, hlt, p, hp, hhead⟩
    exact ⟨p, hname, hlt, hp, hhead⟩

/-- The image declares what its first two hardware revision records say. -/
theorem revDeclared_iff (hne : RevTypesDiffer P) {b : Bytes} {hdr : ImageHeader} {num : UInt32}
    {name : Bytes} :
    let o := hdr.ihHdrSize.toNat + hdr.ihImgSize.toNat
    RevDeclared P b hdr num name ↔ imageHeaderSize ≤ b.length ∧
      (ImageTlvInfo.decode (slice b o tlvHdrSize)).itMagic = IMAGE_TLV_PROT_INFO_MAGIC ∧
      ∃ i n rest, i.GoodId P num ∧ n.GoodName P name ∧
        ((protTlvs b o).filter (·.IsRev P) = i :: n :: rest ∨
          (protTlvs b o).filter (·.IsRev P) = n :: i :: rest) := by
  intro o
  have hpq : ∀ t : RevTlv, ¬ (t.IsId P ∧ t.IsName P) := fun t h => hne (h.1.symm.trans h.2)
  refine and_congr_right fun _ => and_congr_right fun _ => ?_
  constructor
  · rintro ⟨pre, post, hsplit, hfirst, i, n, hfi, hi, hfn, hn⟩
    obtain ⟨rest, h⟩ := (firstBoth_iff hpq hi.1 hn.1).mp ⟨pre, post, hsplit, hfirst, hfi, hfn⟩
    exact ⟨i, n, rest, hi, hn, h⟩
  · rintro ⟨i, n, rest, hi, hn, h⟩
    obtain ⟨pre, post, hsplit, hfirst, hfi, hfn⟩ := (firstBoth_iff hpq hi.1 hn.1).mpr ⟨rest, h⟩
    exact ⟨pre, post, hsplit, hfirst, i, n, hfi, hi, hfn, hn⟩

/-! ## What the searches return -/

/-- The record that the searches fill in. -/
def HwRev.filled (r : HwRev) (num : UInt32) (name : Bytes) : HwRev :=
  { r.putName name.length name with hwRevNum := num }

theorem filled_name (hr : r.hwRevName.length = hwRevNameSize) {num : UInt32} {name : Bytes}
    (hlen : name.length < hwRevNameSize) :
    (r.filled num name).hwRevName.take (name.length + 1) = name ++ [0] := by
  show (overlay (overlay r.hwRevName 0 name) name.length [0]).take (name.length + 1) = _
  rw [overlay_start (by omega)]
  have hfront : (name ++ r.hwRevName.drop name.length).take name.length = name := List.take_left
  have hroom : [(0 : UInt8)].length ≤
      (name ++ r.hwRevName.drop name.length).length - name.length := by
    rw [List.length_append, List.length_drop, List.length_singleton]
    omega
  have hend : (name ++ [(0 : UInt8)]).length = name.length + 1 := List.length_append
  unfold overlay
  rw [hfront, List.take_of_length_le hroom]
  exact List.take_left' hend

/-- Both records are taken, in either order. -/
theorem revScan_filled (hne : RevTypesDiffer P) (hnum : r.hwRevNum = 0) (hr : Nameless r)
    {i n : RevTlv} {num : UInt32} {name : Bytes} {si sn : Nat} (hi : i.GoodId P num)
    (hwi : i.Whole si) (hn : n.GoodName P name) (hwn : n.Whole sn) (rest : List RevTlv) :
    revScan P (i :: n :: rest) r = (true, r.filled num name) ∧
      revScan P (n :: i :: rest) r = (true, r.filled num name) := by
  obtain ⟨hid, h4, p, hp, hval, hne0⟩ := hi
  obtain ⟨-, q, hq, hplen⟩ := hwi
  obtain rfl : p = q := Option.some.inj (hp.symm.trans hq)
  obtain ⟨hname, hlt, hpn, hhead⟩ := hn
  obtain ⟨-, q, hq, hnlen⟩ := hwn
  obtain rfl : name = q := Option.some.inj (hpn.symm.trans hq)
  have hnum' : u32FromBytesBe p = num := by
    rw [← UInt32.toNat_inj, u32FromBytesBe_toNat (hplen.trans h4), hval]
  have htakeId : ∀ r' : HwRev, r'.hwRevNum = 0 →
      revTake P r' i = some { r' with hwRevNum := num } := by
    intro r' hr'
    rw [revTake_id hid, if_neg (by rw [not_or]; exact ⟨not_not.mpr h4, not_not.mpr hr'⟩), hp, ← hnum']
    rfl
  have hfull : (r.putName name.length name).nameEmpty = false := by
    rw [← Bool.not_eq_true, putName_nameEmpty hr.length hr.empty (Nat.le_refl _)]
    exact hhead
  constructor
  · have hr' : Nameless { r with hwRevNum := num } := ⟨hr.length, hr.empty⟩
    have hfirst : revStep P r i = .inl { r with hwRevNum := num } := by
      rw [revStep_some (htakeId r hnum), if_neg]
      exact fun hc => absurd (hr.empty.symm.trans hc.1) (by decide)
    have hsecond : revStep P { r with hwRevNum := num } n = .inr (true, r.filled num name) := by
      rw [revStep_some (revTake_nameless hne hname hlt hr' hpn), ← hnlen]
      exact if_pos ⟨hfull, hne0⟩
    rw [revScan_inl P hfirst, revScan_inr P hsecond]
  · have hfirst : revStep P r n = .inl (r.putName name.length name) := by
      rw [revStep_some (revTake_nameless hne hname hlt hr hpn), ← hnlen]
      exact if_neg fun hc => hc.2 hnum
    have hsecond : revStep P (r.putName name.length name) i = .inr (true, r.filled num name) := by
      rw [revStep_some (htakeId (r.putName name.length name) hnum)]
      exact if_pos ⟨hfull, hne0⟩
    rw [revScan_inl P hfirst, revScan_inr P hsecond]

/-! ## The walk against the protected area -/

section Walk

variable {read : Nat → Nat → Option Bytes} {b : Bytes} {hdr : ImageHeader}

/-- A read of payload bytes: what lies in the contents is read, and never more than
what was asked for. -/
structure ReadsPayload (read : Nat → Nat → Option Bytes) (b : Bytes) : Prop where
  full : ∀ off len, off + len ≤ b.length → read off len = some (slice b off len)
  atMost : ∀ off len p, read off len = some p → p.length ≤ len

theorem fileRead_payload (b : Bytes) : ReadsPayload (fileRead b) b where
  full _ _ _ := rfl
  atMost off len p h := by
    rw [← Option.some.inj h, slice_length]
    exact Nat.min_le_left _ _

theorem flashRead_payload (b : Bytes) : ReadsPayload (flashRead b) b where
  full _ _ h := if_pos h
  atMost off len p h := by
    unfold flashRead at h
    by_cases hfit : off + len ≤ b.length
    · rw [if_pos hfit] at h
      rw [← Option.some.inj h, slice_length]
      exact Nat.min_le_left _ _
    · rw [if_neg hfit] at h
      exact absurd h (by simp)

theorem revWalk_delivered (hread : ReadsPayload read b) {tlvsEnd : Nat} (n : Nat) :
    ∀ off, ∀ t ∈ revWalk read b tlvsEnd n off, t.Delivered := by
  induction n with
  | zero => exact fun off t ht => absurd ht (by simp [revWalk])
  | succ n ih =>
    intro off t ht
    unfold revWalk at ht
    by_cases hgo : off + 4 ≤ tlvsEnd ∧ off + 4 ≤ b.length
    · rw [if_pos hgo] at ht
      rcases List.mem_cons.mp ht with rfl | ht
      · exact fun p hp => hread.atMost _ _ p hp
      · exact ih _ t ht
    · rw [if_neg hgo] at ht
      exact absurd ht (by simp)

theorem revTlvs_delivered (hread : ReadsPayload read b) {o : Nat} :
    ∀ t ∈ revTlvs read b o, t.Delivered :=
  fun t ht => revWalk_delivered hread _ _ t (mem_revTlvs ht)

/-- Behind the TLVs of the protected area the walk meets at most such as pass its
end. -/
theorem revTlvs_split (hread : ReadsPayload read b) {o : Nat}
    (hmagic : (ImageTlvInfo.decode (slice b o tlvHdrSize)).itMagic = IMAGE_TLV_PROT_INFO_MAGIC) :
    ∃ extra, revTlvs read b o = protTlvs b o ++ extra ∧
      ∀ t ∈ extra, ¬ (t.last ≤ protEnd b o ∧ t.last ≤ b.length) := by
  have hend : o + 4 + (ImageTlvInfo.decode (slice b o tlvHdrSize)).itTlvTot.toNat =
      protEnd b o + 4 := by
    unfold protEnd
    omega
  unfold revTlvs protTlvs
  dsimp only
  rw [if_pos hmagic, hend]
  exact revWalk_split hread.full _ _ _ (Nat.le_add_right _ _) (Nat.le_add_right _ _)

/-- An info header is found inside the contents only. -/
theorem lt_of_magic {o : Nat}
    (hmagic : (ImageTlvInfo.decode (slice b o tlvHdrSize)).itMagic = IMAGE_TLV_PROT_INFO_MAGIC) :
    o < b.length := by
  refine Nat.lt_of_not_le fun hle => ?_
  have hnone : slice b o tlvHdrSize = [] := by
    apply List.eq_nil_of_length_eq_zero
    rw [slice_length]
    omega
  rw [hnone] at hmagic
  exact absurd hmagic (by decide)

theorem bootTlvOff_toNat (h : hdr.ihHdrSize.toNat + hdr.ihImgSize.toNat < 4294967296) :
    (bootTlvOff hdr).toNat = hdr.ihHdrSize.toNat + hdr.ihImgSize.toNat := by
  unfold bootTlvOff
  rw [UInt32.toNat_add, UInt16.toNat_toUInt32, Nat.mod_eq_of_lt h]

/-- What the image declares is found. -/
theorem revScan_declared (hne : RevTypesDiffer P) (hread : ReadsPayload read b)
    (hb : b.length ≤ lfsFileMax) (hnum : r.hwRevNum = 0) (hr : Nameless r) {num : UInt32}
    {name : Bytes} (hdecl : RevDeclared P b hdr num name) :
    name.length < hwRevNameSize ∧
      revScan P (revTlvs read b (bootTlvOff hdr).toNat) r = (true, r.filled num name) := by
  obtain ⟨-, hmagic, i, n, rest, hi, hn, hfilter⟩ := (revDeclared_iff hne).mp hdecl
  have hlt := lt_of_magic hmagic
  have hwrap : hdr.ihHdrSize.toNat + hdr.ihImgSize.toNat < 4294967296 := by
    unfold lfsFileMax at hb
    omega
  obtain ⟨extra, hsplit, -⟩ := revTlvs_split hread hmagic
  have hwhole : ∀ t ∈ (protTlvs b (hdr.ihHdrSize.toNat + hdr.ihImgSize.toNat)).filter (·.IsRev P),
      t.Whole _ := fun t ht => protTlvs_whole (List.mem_of_mem_filter ht)
  have hopen : ¬ r.Complete := fun h => h.2 hnum
  rw [bootTlvOff_toNat hwrap, revScan_filter hopen, hsplit, List.filter_append]
  rcases hfilter with h | h
  · have hwi := hwhole i (by rw [h]; simp)
    have hwn := hwhole n (by rw [h]; simp)
    obtain ⟨-, p, hp, hlen⟩ := id hwn
    obtain rfl : name = p := Option.some.inj (hn.2.2.1.symm.trans hp)
    rw [h]
    exact ⟨hlen ▸ hn.2.1, (revScan_filled hne hnum hr hi hwi hn hwn _).1⟩
  · have hwi := hwhole i (by rw [h]; simp)
    have hwn := hwhole n (by rw [h]; simp)
    obtain ⟨-, p, hp, hlen⟩ := id hwn
    obtain rfl : name = p := Option.some.inj (hn.2.2.1.symm.trans hp)
    rw [h]
    exact ⟨hlen ▸ hn.2.1, (revScan_filled hne hnum hr hi hwi hn hwn _).2⟩

theorem not_void_of_taken (hne : RevTypesDiffer P) (h : t.TakenId P ∨ t.TakenName P) :
    ¬ (t.VoidId P ∨ t.VoidName P) := by
  rintro (hv | hv)
  · rcases h with h | h
    · exact takenId_not_void h hv
    · exact hne (hv.1.symm.trans h.1)
  · rcases h with h | h
    · exact hne (h.1.symm.trans hv.1)
    · exact takenName_not_void h hv

/-- Whenever the search takes an id and a name, it has forgotten nothing before, and
the second record lies wholly in the protected area. -/
def PairInside (P : Platform) (read : Nat → Nat → Option Bytes) (b : Bytes) (hdr : ImageHeader) :
    Prop :=
  ∀ v₀ a v₁ c,
    Completes P ((revTlvs read b (bootTlvOff hdr).toNat).filter (·.IsRev P)) v₀ a v₁ c →
      v₀ = [] ∧ v₁ = [] ∧ c.last ≤ protEnd b (bootTlvOff hdr).toNat ∧ c.last ≤ b.length ∧
        hdr.ihHdrSize.toNat + hdr.ihImgSize.toNat < 4294967296

/-- The pair that is taken is declared. -/
theorem declared_of_pairInside (hne : RevTypesDiffer P) (hread : ReadsPayload read b)
    (hfit : imageHeaderSize ≤ b.length) (hin : PairInside P read b hdr)
    (h : ∃ v₀ a v₁ c,
      Completes P ((revTlvs read b (bootTlvOff hdr).toNat).filter (·.IsRev P)) v₀ a v₁ c) :
    ∃ num name, RevDeclared P b hdr num name := by
  obtain ⟨v₀, a, v₁, c, hc⟩ := h
  obtain ⟨rfl, rfl, hprot, hlen, hwrap⟩ := hin v₀ a v₁ c hc
  obtain ⟨⟨rest, hl⟩, -, hpair⟩ := hc
  have ho := bootTlvOff_toNat hwrap
  rw [ho] at hl hprot
  have hmagic : (ImageTlvInfo.decode (slice b (hdr.ihHdrSize.toNat + hdr.ihImgSize.toNat)
      tlvHdrSize)).itMagic = IMAGE_TLV_PROT_INFO_MAGIC := by
    by_contra hm
    unfold revTlvs at hl
    dsimp only at hl
    rw [if_neg hm] at hl
    exact absurd hl (by simp)
  obtain ⟨extra, hsplit, hextra⟩ := revTlvs_split hread hmagic
  have hnot : ¬ c ∈ extra.filter (·.IsRev P) :=
    fun h => hextra c (List.mem_of_mem_filter h) ⟨hprot, hlen⟩
  rw [hsplit, List.filter_append, List.nil_append, List.nil_append] at hl
  obtain ⟨rest', hfilter⟩ : ∃ rest', (protTlvs b (hdr.ihHdrSize.toNat +
      hdr.ihImgSize.toNat)).filter (·.IsRev P) = a :: c :: rest' := by
    cases hf : (protTlvs b (hdr.ihHdrSize.toNat + hdr.ihImgSize.toNat)).filter (·.IsRev P) with
    | nil =>
      rw [hf, List.nil_append] at hl
      exact absurd (by rw [hl]; simp) hnot
    | cons x l =>
      rw [hf, List.cons_append] at hl
      obtain ⟨hx, hl⟩ := List.cons.inj hl
      cases l with
      | nil =>
        rw [List.nil_append] at hl
        exact absurd (by rw [hl]; simp) hnot
      | cons y l =>
        rw [List.cons_append] at hl
        exact ⟨l, by rw [hx, (List.cons.inj hl).1]⟩
  have hwhole : ∀ t ∈ (protTlvs b (hdr.ihHdrSize.toNat + hdr.ihImgSize.toNat)).filter (·.IsRev P),
      t.Whole _ := fun t ht => protTlvs_whole (List.mem_of_mem_filter ht)
  have hwa := hwhole a (by rw [hfilter]; simp)
  have hwc := hwhole c (by rw [hfilter]; simp)
  rcases hpair with ⟨ha, -, hc⟩ | ⟨ha, -, hc⟩
  · obtain ⟨num, hid⟩ := (goodId_iff hwa).mpr ha
    obtain ⟨name, hname⟩ := goodName_iff.mpr hc
    exact ⟨num, name, (revDeclared_iff hne).mpr
      ⟨hfit, hmagic, a, c, rest', hid, hname, Or.inl hfilter⟩⟩
  · obtain ⟨name, hname⟩ := goodName_iff.mpr ha
    obtain ⟨num, hid⟩ := (goodId_iff hwc).mpr hc
    exact ⟨num, name, (revDeclared_iff hne).mpr
      ⟨hfit, hmagic, c, a, rest', hid, hname, Or.inr hfilter⟩⟩

/-- What is declared is the first pair, wholly inside. -/
theorem completes_declared (hne : RevTypesDiffer P) (hread : ReadsPayload read b)
    (hb : b.length ≤ lfsFileMax) {num : UInt32} {name : Bytes}
    (hdecl : RevDeclared P b hdr num name) : PairInside P read b hdr := by
  intro v₀ a v₁ c hc
  obtain ⟨-, hmagic, i, n, rest, hi, hn, hfilter⟩ := (revDeclared_iff hne).mp hdecl
  have hlt := lt_of_magic hmagic
  have hwrap : hdr.ihHdrSize.toNat + hdr.ihImgSize.toNat < 4294967296 := by
    unfold lfsFileMax at hb
    omega
  have ho := bootTlvOff_toNat hwrap
  obtain ⟨extra, hsplit, -⟩ := revTlvs_split hread hmagic
  -- both records are taken, whichever comes first
  obtain ⟨x, y, rest', hf, hx, hy⟩ : ∃ x y rest',
      (protTlvs b (hdr.ihHdrSize.toNat + hdr.ihImgSize.toNat)).filter (·.IsRev P) =
        x :: y :: rest' ∧ (x.TakenId P ∨ x.TakenName P) ∧ (y.TakenId P ∨ y.TakenName P) := by
    have hwhole : ∀ t ∈ (protTlvs b (hdr.ihHdrSize.toNat +
        hdr.ihImgSize.toNat)).filter (·.IsRev P), t.Whole _ :=
      fun t ht => protTlvs_whole (List.mem_of_mem_filter ht)
    have hname := goodName_iff.mp ⟨name, hn⟩
    rcases hfilter with h | h
    · exact ⟨i, n, rest, h, Or.inl ((goodId_iff (hwhole i (by rw [h]; simp))).mp ⟨num, hi⟩),
        Or.inr hname⟩
    · exact ⟨n, i, rest, h, Or.inr hname,
        Or.inl ((goodId_iff (hwhole i (by rw [h]; simp))).mp ⟨num, hi⟩)⟩
  obtain ⟨⟨rest'', hl⟩, hidle, hpair⟩ := hc
  rw [ho, hsplit, List.filter_append, hf, List.cons_append, List.cons_append] at hl
  obtain rfl : v₀ = [] := by
    cases v₀ with
    | nil => rfl
    | cons z v₀ =>
      have hz : x = z := (List.cons.inj hl).1
      exact absurd (hidle z List.mem_cons_self) (not_void_of_taken hne (hz ▸ hx))
  rw [List.nil_append] at hl
  obtain ⟨-, hl⟩ := List.cons.inj hl
  obtain rfl : v₁ = [] := by
    cases v₁ with
    | nil => rfl
    | cons z v₁ =>
      have hz : y = z := (List.cons.inj hl).1
      refine absurd ?_ (not_void_of_taken hne (hz ▸ hy))
      rcases hpair with ⟨-, hv, -⟩ | ⟨-, hv, -⟩
      · exact Or.inr (hv z List.mem_cons_self)
      · exact Or.inl (hv z List.mem_cons_self)
  have hyc : y = c := (List.cons.inj hl).1
  have hc : c ∈ (protTlvs b (hdr.ihHdrSize.toNat + hdr.ihImgSize.toNat)).filter (·.IsRev P) := by
    rw [hf, hyc]
    simp
  have hlast := (protTlvs_whole (List.mem_of_mem_filter hc)).1
  rw [ho]
  exact ⟨rfl, rfl, Nat.le_trans hlast (Nat.min_le_left _ _),
    Nat.le_trans hlast (Nat.min_le_right _ _), hwrap⟩

/-- A scan of the TLVs behind an image meets the specification exactly if the pair it
takes is the first one and lies in the area. -/
theorem revScan_meets_iff (hne : RevTypesDiffer P) (hread : ReadsPayload read b)
    (hfit : imageHeaderSize ≤ b.length) (hb : b.length ≤ lfsFileMax) (hnum : r.hwRevNum = 0)
    (hr : Nameless r) :
    MeetsDeclared P b hdr (revScan P (revTlvs read b (bootTlvOff hdr).toNat) r) ↔
      PairInside P read b hdr := by
  have hopen : ¬ r.Complete := fun h => h.2 hnum
  have htrue : (revScan P (revTlvs read b (bootTlvOff hdr).toNat) r).1 = true ↔ ∃ v₀ a v₁ c,
      Completes P ((revTlvs read b (bootTlvOff hdr).toNat).filter (·.IsRev P)) v₀ a v₁ c := by
    rw [revScan_filter hopen]
    refine revScan_open hne (fun t ht => ?_) (fun t ht => ?_) hnum hr
    · simpa using List.of_mem_filter ht
    · exact revTlvs_delivered hread t (List.mem_of_mem_filter ht)
  constructor
  · rintro ⟨hiff, -⟩ v₀ a v₁ c hc
    obtain ⟨num, name, hdecl⟩ := hiff.mp (htrue.mpr ⟨v₀, a, v₁, c, hc⟩)
    exact completes_declared hne hread hb hdecl v₀ a v₁ c hc
  · intro hin
    refine ⟨⟨fun h => declared_of_pairInside hne hread hfit hin (htrue.mp h), ?_⟩, ?_⟩
    · rintro ⟨num, name, hdecl⟩
      rw [(revScan_declared hne hread hb hnum hr hdecl).2]
    · intro num name hdecl
      obtain ⟨hlen, hscan⟩ := revScan_declared hne hread hb hnum hr hdecl
      rw [hscan]
      exact ⟨rfl, filled_name hr.length hlen⟩

theorem clear_nameless (hr : r.hwRevName.length = hwRevNameSize) : Nameless r.clear where
  length := (overlay_length _ _ _).trans hr
  empty := by
    unfold HwRev.nameEmpty
    rw [beq_iff_eq]
    show (overlay r.hwRevName 0 [0]).headD 0 = 0
    cases r.hwRevName <;> simp [overlay]

/-- What the image declares is a matter of the result only as far as two results that
agree on what counts are concerned. -/
theorem Matches.meets_iff {res m : Bool × HwRev} (h : Matches res m) :
    MeetsDeclared P b hdr res ↔ MeetsDeclared P b hdr m := by
  rcases h with rfl | ⟨hres, hm, -⟩
  · exact Iff.rfl
  · -- both have failed, and nothing is declared
    have hfailed : ∀ x : Bool × HwRev, x.1 = false →
        (MeetsDeclared P b hdr x ↔ ¬ ∃ num name, RevDeclared P b hdr num name) := by
      intro x hx
      constructor
      · rintro ⟨hiff, -⟩ hdecl
        exact Bool.false_ne_true (hx.symm.trans (hiff.mpr hdecl))
      · intro hno
        exact ⟨⟨fun h => absurd (hx.symm.trans h) Bool.false_ne_true, fun h => absurd h hno⟩,
          fun num name h => absurd ⟨num, name, h⟩ hno⟩
    rw [hfailed res hres, hfailed m hm]

/-- The search in a file, and the search in a flash area whose header loads, return
what the image declares exactly if the pair of records that they take is the first one
and lies in the protected area. -/
theorem hwRevSearch_meets_iff (hne : RevTypesDiffer P) (hr : r.hwRevName.length = hwRevNameSize) :
    (∀ hd d pos w, OpenAt hd d w pos →
      (MeetsDeclared P d.bytes (ImageHeader.decode (slice d.bytes 0 imageHeaderSize))
          (P.run (fwImgHwRevFindInFile P hd r) w).1 ↔
        (imageHeaderSize ≤ d.bytes.length → PairInside P (fileRead d.bytes) d.bytes
          (ImageHeader.decode (slice d.bytes 0 imageHeaderSize))))) ∧
    ∀ (area : FlashArea) b hdr w, Holds area.faId b w → area.faSize = b.length →
      b.length ≤ lfsFileMax → partitionHeader P b = some hdr →
      (MeetsDeclared P b hdr (P.run (fwImgHwRevFindInFlashAreaInternal P area r.clear) w).1 ↔
        PairInside P (flashRead b) b hdr) := by
  have hclear := clear_nameless hr
  constructor
  · intro hd d pos w hw
    rw [(hw.run P (within_hwRevFind P r)).1, (fileOps_findInFile hne r pos).meets_iff]
    unfold fileRevScan
    by_cases hshort : d.bytes.length < imageHeaderSize
    · rw [if_pos hshort]
      refine ⟨fun _ h => absurd h (Nat.not_le.mpr hshort), fun _ => ⟨⟨?_, ?_⟩, ?_⟩⟩
      · exact fun h => absurd h Bool.false_ne_true
      · rintro ⟨num, name, hdecl⟩
        exact absurd hdecl.1 (Nat.not_le.mpr hshort)
      · exact fun num name hdecl => absurd hdecl.1 (Nat.not_le.mpr hshort)
    · have hfit := Nat.not_lt.mp hshort
      rw [if_neg hshort]
      refine (revScan_meets_iff hne (fileRead_payload _) hfit d.size_le rfl hclear).trans ?_
      exact ⟨fun h _ => h, fun h => h hfit⟩
  · intro area b hdr w hw hsize hb hload
    unfold partitionHeader at hload
    by_cases hfit : imageHeaderSize ≤ b.length
    · rw [if_pos hfit, ← hsize] at hload
      rw [run_findInFlashInternal hne hb hw hfit hload]
      exact revScan_meets_iff hne (flashRead_payload _) hfit hb rfl hclear
    · rw [if_neg hfit] at hload
      exact absurd hload (by simp)

end Walk

/-! ## Two files -/

namespace Reference

theorem platform_revTypesDiffer : RevTypesDiffer (platform 8) :=
  show (platform 8).ruuviHwRevIdTlv ≠ (platform 8).ruuviHwRevNameTlv by decide

/-- A header of 32 bytes with no image behind it. -/
def bareHeader : Bytes :=
  leBytes 4 IMAGE_MAGIC.toNat ++ leBytes 4 0 ++ leBytes 2 32 ++ List.replicate 22 0

def revId : Tlv := { type := 0xA0, payload := [0, 0, 0, 5], payload_lt := by decide }

def revName : Tlv := { type := 0xA1, payload := [0x41, 0x42], payload_lt := by decide }

/-- Both records are in the protected list. -/
def revFile : FileData where
  bytes := bareHeader ++ encodeList IMAGE_TLV_PROT_INFO_MAGIC [revId, revName]
  size_le := by decide +kernel

/-- The protected list ends behind the id. -/
def overrunFile : FileData where
  bytes := bareHeader ++ encodeList IMAGE_TLV_PROT_INFO_MAGIC [revId] ++ revName.encode
  size_le := by decide +kernel

end Reference

theorem openWorld_openAt (d : FileData) : OpenAt 0 d (openWorld d) 0 := ⟨fun _ _ => rfl, _, _, rfl⟩

/-- A walk that meets two records only takes the second one last. -/
theorem completes_pair {x y a c : RevTlv} {v₀ v₁ : List RevTlv}
    (h : Completes P [x, y] v₀ a v₁ c) : v₀ = [] ∧ v₁ = [] ∧ c = y := by
  obtain ⟨⟨rest, hl⟩, -⟩ := h
  have hlen := congrArg List.length hl
  simp only [List.length_append, List.length_cons, List.length_nil] at hlen
  obtain rfl : v₀ = [] := List.eq_nil_of_length_eq_zero (by omega)
  obtain rfl : v₁ = [] := List.eq_nil_of_length_eq_zero (by omega)
  obtain ⟨-, hl⟩ := List.cons.inj hl
  exact ⟨rfl, rfl, (List.cons.inj hl).1.symm⟩

theorem revFile_pairInside :
    PairInside (Reference.platform 8) (fileRead Reference.revFile.bytes) Reference.revFile.bytes
      (ImageHeader.decode (slice Reference.revFile.bytes 0 imageHeaderSize)) := by
  intro v₀ a v₁ c hc
  have hwalk : (revTlvs (fileRead Reference.revFile.bytes) Reference.revFile.bytes
      (bootTlvOff (ImageHeader.decode
        (slice Reference.revFile.bytes 0 imageHeaderSize))).toNat).filter
          (·.IsRev (Reference.platform 8)) =
      [revTlvAt (fileRead Reference.revFile.bytes) Reference.revFile.bytes 36,
        revTlvAt (fileRead Reference.revFile.bytes) Reference.revFile.bytes 44] := by
    decide +kernel
  rw [hwalk] at hc
  obtain ⟨h₀, h₁, rfl⟩ := completes_pair hc
  exact ⟨h₀, h₁, by decide +kernel, by decide +kernel, by decide +kernel⟩

/-- Both records of the list are found. -/
theorem revFile_meets :
    MeetsDeclared (Reference.platform 8) Reference.revFile.bytes
      (ImageHeader.decode (slice Reference.revFile.bytes 0 imageHeaderSize))
      ((Reference.platform 8).run (fwImgHwRevFindInFile (Reference.platform 8) 0 HwRev.zero)
        (openWorld Reference.revFile)).1 :=
  ((hwRevSearch_meets_iff (P := Reference.platform 8) (r := HwRev.zero)
    Reference.platform_revTypesDiffer rfl).1
    0 Reference.revFile 0 (openWorld Reference.revFile) (openWorld_openAt _)).mpr
      fun _ => revFile_pairInside

/-- The name behind the end of the protected list is found. -/
theorem overrunFile_found :
    ((Reference.platform 8).run (fwImgHwRevFindInFile (Reference.platform 8) 0 HwRev.zero)
        (openWorld Reference.overrunFile)).1.1 = true ∧
      ¬ MeetsDeclared (Reference.platform 8) Reference.overrunFile.bytes
        (ImageHeader.decode (slice Reference.overrunFile.bytes 0 imageHeaderSize))
        ((Reference.platform 8).run (fwImgHwRevFindInFile (Reference.platform 8) 0 HwRev.zero)
          (openWorld Reference.overrunFile)).1 := by
  have hne := Reference.platform_revTypesDiffer
  have hfound : ((Reference.platform 8).run
      (fwImgHwRevFindInFile (Reference.platform 8) 0 HwRev.zero)
        (openWorld Reference.overrunFile)).1.1 = true := by
    rw [((openWorld_openAt Reference.overrunFile).run (Reference.platform 8)
      (within_hwRevFind (Reference.platform 8) HwRev.zero)).1, (fileOps_findInFile hne HwRev.zero 0).fst]
    decide +kernel
  refine ⟨hfound, fun hmeets => ?_⟩
  obtain ⟨num, name, hdecl⟩ := hmeets.1.mp hfound
  obtain ⟨-, -, i, n, rest, -, -, hfilter⟩ := (revDeclared_iff hne).mp hdecl
  -- only one record lies in the area
  have hlen : ((protTlvs Reference.overrunFile.bytes (32 + 0)).filter
      (·.IsRev (Reference.platform 8))).length = 1 := by
    decide +kernel
  rcases hfilter with h | h
  · exact absurd (hlen.symm.trans (congrArg List.length h)) (by simp)
  · exact absurd (hlen.symm.trans (congrArg List.length h)) (by simp)

end RuuviMcuboot
