/-
The worlds a copy passes through.

Where every erase and every write takes full effect or none, the partition holds what
it held before the copy, or the first blocks of the file behind which it is erased.
This holds at every call of the copy, and of one that is cut short or fails as well.
-/
import RuuviMcuboot.Effect.Spec
import RuuviMcuboot.Update.Copy
import RuuviMcuboot.Update.Footprints

namespace RuuviMcuboot

open Binary Effect

variable {P : Platform} {d : FileData} {w : World}

/-! ## A part of a file in an erased partition -/

/-- The first `m` bytes of a file in a partition of `size` bytes. -/
def partCopy (d : FileData) (size m : Nat) : Bytes := d.bytes.take m ++ blank (size - m)

/-- Whole blocks, or the whole file. -/
def BlockEnd (d : FileData) (m : Nat) : Prop :=
  m ≤ d.bytes.length ∧ (m % tmpBufSize = 0 ∨ m = d.bytes.length)

theorem partCopy_length {size m : Nat} (hm : m ≤ d.bytes.length) (hsize : m ≤ size) :
    (partCopy d size m).length = size := by
  unfold partCopy
  rw [List.length_append, List.length_take, blank_length]
  omega

theorem slice_partCopy {size m off len : Nat} (hm : m ≤ d.bytes.length) (h : off + len ≤ m) :
    slice (partCopy d size m) off len = slice d.bytes off len := by
  unfold partCopy
  rw [slice_append_left _ (by rw [List.length_take]; omega), slice_take h]

theorem slice_partCopy_blank {size m off len : Nat} (hm : m ≤ d.bytes.length) (hoff : m ≤ off)
    (hend : off + len ≤ size) : slice (partCopy d size m) off len = blank len := by
  have htake : (d.bytes.take m).length = m := by
    rw [List.length_take]
    omega
  have hsplit := slice_append_right (d.bytes.take m) (blank (size - m)) (off - m) len
  rw [htake, Nat.add_sub_cancel' hoff] at hsplit
  unfold partCopy
  rw [hsplit, slice, blank, List.drop_replicate, List.take_replicate]
  congr 1
  omega

/-! ## Erasing and writing -/

/-- An erase or a write takes full effect or none, also where it fails. -/
structure AllOrNothing (faults : Nat → Op → Fault) : Prop where
  erase : ∀ n fa off len, (faults n (.flashAreaErase fa off len)).junk.take len = [] ∨
    (faults n (.flashAreaErase fa off len)).junk.take len = blank len
  write : ∀ n fa off data, (faults n (.flashAreaWrite fa off data)).junk.take data.length = [] ∨
    (faults n (.flashAreaWrite fa off data)).junk.take data.length = data

theorem exec_erase_atomic (hw : AllOrNothing w.faults) (fa : FaId) (off len : Nat) :
    (P.exec (.flashAreaErase fa off len) w).2.flash fa = w.flash fa ∧
        (P.exec (.flashAreaErase fa off len) w).1 ≠ 0 ∨
      (P.exec (.flashAreaErase fa off len) w).2.flash fa = overlay (w.flash fa) off (blank len) := by
  simp only [Platform.exec]
  cases hrc : (w.faults w.clock (.flashAreaErase fa off len)).rc? with
  | some rc =>
    rcases hw.erase w.clock fa off len with hnone | hall
    · refine Or.inl ⟨?_, rc?_ne_zero hrc⟩
      show Function.update _ fa _ fa = _
      rw [Function.update_self, hnone, overlay_nil]
      rfl
    · refine Or.inr ?_
      show Function.update _ fa _ fa = _
      rw [Function.update_self, hall]
      rfl
  | none =>
    dsimp only
    by_cases hfit : off + len ≤ (w.tick.flash fa).length
    · rw [if_pos hfit]
      exact Or.inr (Function.update_self _ _ _)
    · rw [if_neg hfit]
      exact Or.inl ⟨rfl, show (-EINVAL : Int) ≠ 0 by decide⟩

theorem exec_write_atomic (hw : AllOrNothing w.faults) (fa : FaId) (off : Nat) (data : Bytes) :
    (P.exec (.flashAreaWrite fa off data) w).2.flash fa = w.flash fa ∧
        (P.exec (.flashAreaWrite fa off data) w).1 ≠ 0 ∨
      (P.exec (.flashAreaWrite fa off data) w).2.flash fa = overlay (w.flash fa) off data := by
  simp only [Platform.exec]
  cases hrc : (w.faults w.clock (.flashAreaWrite fa off data)).rc? with
  | some rc =>
    rcases hw.write w.clock fa off data with hnone | hall
    · refine Or.inl ⟨?_, rc?_ne_zero hrc⟩
      show Function.update _ fa _ fa = _
      rw [Function.update_self, hnone, overlay_nil]
      rfl
    · refine Or.inr ?_
      show Function.update _ fa _ fa = _
      rw [Function.update_self, hall]
      rfl
  | none =>
    dsimp only
    by_cases hfit : off % 4 = 0 ∧ data.length % 4 = 0 ∧
        off + data.length ≤ (w.tick.flash fa).length
    · rw [if_pos hfit]
      exact Or.inr (Function.update_self _ _ _)
    · rw [if_neg hfit]
      exact Or.inl ⟨rfl, show (-EINVAL : Int) ≠ 0 by decide⟩

/-- Bytes behind the end of the data are dropped. -/
theorem overlay_take (c b : Bytes) (off : Nat) :
    overlay c off b = overlay c off (b.take (c.length - off)) := by
  unfold overlay
  rw [List.take_take, Nat.min_self, List.length_take]
  congr 1
  rcases Nat.le_total b.length (c.length - off) with h | h
  · rw [Nat.min_eq_right h]
  · rw [Nat.min_eq_left h, List.drop_eq_nil_of_le (by omega), List.drop_eq_nil_of_le (by omega)]

/-- The next block, padded as it may be. -/
theorem overlay_partCopy {size m len : Nat} (pad : Nat) (hm : m + len ≤ d.bytes.length)
    (hsize : d.bytes.length ≤ size) :
    overlay (partCopy d size m) m (slice d.bytes m len ++ blank pad) = partCopy d size (m + len) := by
  have hslice : (slice d.bytes m len).length = len := slice_length_of_le hm
  have htake : (d.bytes.take m).length = m := by
    rw [List.length_take]
    omega
  have hcut : (slice d.bytes m len ++ blank pad).take ((partCopy d size m).length - m) =
      slice d.bytes m len ++ blank (min pad (size - m - len)) := by
    rw [partCopy_length (by omega) (by omega), List.take_append, hslice,
      List.take_of_length_le (by omega), blank, List.take_replicate, Nat.min_comm]
    rfl
  have hover := overlay_blank (a := d.bytes.take m)
    (show (slice d.bytes m len).length + min pad (size - m - len) ≤ size - m by omega)
  rw [htake, hslice, take_append_slice, Nat.sub_sub] at hover
  rw [overlay_take, hcut, Nat.sub_sub]
  exact hover

/-! ## The blocks -/

variable {J : CopyJob}

/-- A copy is under way: the file stands at `pos`, and `m` bytes have been copied. -/
structure CopyState (J : CopyJob) (pos m : Nat) (w : World) : Prop where
  opened : w.opened = (J.hd, J.file pos) :: J.t
  content : w.flash J.dst = partCopy J.d J.size m
  faults : w.faults = J.faults

/-- Some blocks have been copied. -/
def PartCopied (J : CopyJob) (w : World) : Prop :=
  ∃ m, BlockEnd J.d m ∧ w.flash J.dst = partCopy J.d J.size m

/-- A read in a copy delivers bytes of the file from the position on. -/
theorem CopyState.read {pos m : Nat} (hw : CopyState J pos m w) (len : Nat) :
    let r := P.exec (.fsRead J.hd len) w
    (∃ rc, r.1 = .error rc) ∧ r.2.flash = w.flash ∨
      ∃ n ≤ len, r.1 = .ok (slice J.d.bytes pos n) ∧
        CopyState J (pos + (slice J.d.bytes pos n).length) m r.2 := by
  have hl : lookupFile J.hd w.opened = some (J.file pos) := by
    rw [hw.opened, lookupFile_cons_self]
  rcases run_fsRead_cases P hl len with ⟨-, rc, hread⟩ | ⟨n, hn, -, hread⟩
  · left
    rw [run_fsRead] at hread
    rw [hread]
    exact ⟨⟨_, rfl⟩, rfl⟩
  · right
    rw [run_fsRead] at hread
    refine ⟨n, hn, ?_, ?_⟩
    · rw [hread]
      rfl
    · rw [hread]
      refine ⟨?_, hw.content, hw.faults⟩
      rw [World.setOpened_opened, hw.opened, moveFile_cons_self]
      rfl

/-- A write in a copy puts the block behind the others, or leaves the partition and
reports it. -/
theorem CopyState.write (hatomic : AllOrNothing J.faults) (hsize : J.d.bytes.length ≤ J.size)
    {pos m len : Nat} (hm : m + len ≤ J.d.bytes.length) (hw : CopyState J pos m w) (pad : Nat) :
    let r := P.exec (.flashAreaWrite J.dst m (slice J.d.bytes m len ++ blank pad)) w
    r.1 ≠ 0 ∧ CopyState J pos m r.2 ∨ CopyState J pos (m + len) r.2 := by
  intro r
  have hopened : r.2.opened = w.opened := by
    show (P.exec _ w).2.opened = _
    simp only [Platform.exec]
    (repeat' split) <;> rfl
  have hfaults : r.2.faults = J.faults := (exec_faults P _ w).trans hw.faults
  rcases exec_write_atomic (P := P) (w := w) (by rw [hw.faults]; exact hatomic) J.dst m
    (slice J.d.bytes m len ++ blank pad) with ⟨hsame, hrc⟩ | hover
  · exact Or.inl ⟨hrc, hopened.trans hw.opened, hsame.trans hw.content, hfaults⟩
  · refine Or.inr ⟨hopened.trans hw.opened, ?_, hfaults⟩
    rw [hover, hw.content, overlay_partCopy pad hm hsize]

/-- The loop variables and the world in front of a block. -/
def BlockStart (J : CopyJob) (s : ImgProcessState) (w : World) : Prop :=
  BlockEnd J.d s.offset ∧ s.remLen = J.d.bytes.length - s.offset ∧
    CopyState J s.offset s.offset w

theorem BlockStart.partCopied {s : ImgProcessState} (hw : BlockStart J s w) : PartCopied J w :=
  ⟨s.offset, hw.1, hw.2.2.content⟩

theorem CopyState.partCopied {pos m : Nat} (hm : BlockEnd J.d m) (hw : CopyState J pos m w) :
    PartCopied J w := ⟨m, hm, hw.content⟩

/-- The write of a block, from the file position behind it. -/
theorem triple_blockWrite (hatomic : AllOrNothing J.faults) (hsize : J.d.bytes.length ≤ J.size)
    {fa : FlashArea} (hfa : fa.faId = J.dst) {m len : Nat} (hm : BlockEnd J.d m)
    (hm' : BlockEnd J.d (m + len)) (pad : Nat) :
    Triple (S := Api) P.exec (CopyState J (m + len) m)
      (cbImgWrite fa m (slice J.d.bytes m len ++ blank pad))
      (fun ok w => PartCopied J w ∧ (ok = true → CopyState J (m + len) (m + len) w))
      (PartCopied J) := by
  unfold cbImgWrite
  rw [hfa]
  refine triple_bind (M := fun rc w => rc ≠ 0 ∧ CopyState J (m + len) m w ∨
    CopyState J (m + len) (m + len) w) (triple_perform ?_ ?_ ?_) (fun rc => ?_)
  · exact fun w hw => hw.write hatomic hsize hm'.1 pad
  · exact fun w hw => hw.partCopied hm
  · intro w hw
    rcases hw.write (P := P) hatomic hsize hm'.1 pad with ⟨-, hw'⟩ | hw'
    · exact hw'.partCopied hm
    · exact hw'.partCopied hm'
  · have hpart : ∀ w, (rc ≠ 0 ∧ CopyState J (m + len) m w ∨ CopyState J (m + len) (m + len) w) →
        PartCopied J w := fun w hw =>
      hw.elim (fun h => h.2.partCopied hm) (fun h => h.partCopied hm')
    refine triple_ret (fun w hw => ⟨hpart w hw, fun hok => ?_⟩) hpart
    exact hw.resolve_left (fun h => h.1 (of_decide_eq_true hok))

/-- A read for a block of `len` bytes behind the first `m`. -/
def BlockRead (J : CopyJob) (m len : Nat) (r : Except Int Bytes) (w : World) : Prop :=
  (∃ rc, r = .error rc) ∧ PartCopied J w ∨
    ∃ n ≤ len, r = .ok (slice J.d.bytes m n) ∧
      CopyState J (m + (slice J.d.bytes m n).length) m w

theorem BlockRead.partCopied {m len : Nat} (hm : BlockEnd J.d m) {r : Except Int Bytes}
    (hw : BlockRead J m len r w) : PartCopied J w :=
  hw.elim (fun h => h.2) (fun ⟨_, _, _, h⟩ => h.partCopied hm)

/-- A full read. -/
theorem BlockRead.full {m len : Nat} {b : Bytes} (hlen : b.length = len)
    (hw : BlockRead J m len (.ok b) w) :
    CopyState J (m + len) m w ∧ b = slice J.d.bytes m len := by
  obtain ⟨n, hn, hb, hstate⟩ := hw.resolve_left (fun ⟨⟨_, h⟩, _⟩ => nomatch h)
  have hb := Except.ok.inj hb
  have hall : n = len := by
    have hblen := hlen
    rw [hb, slice_length] at hblen
    omega
  rw [← hb, hlen] at hstate
  exact ⟨hstate, hb.trans (by rw [hall])⟩

/-- One block. -/
theorem triple_block (hatomic : AllOrNothing J.faults) (hsize : J.d.bytes.length ≤ J.size)
    {fa : FlashArea} (hfa : fa.faId = J.dst) (s : ImgProcessState) :
    Triple (S := Api) P.exec (BlockStart J s) (imgProcessBody fa J.hd cbImgWrite s)
      (fun r w => r.elim (fun s' => BlockStart J s' w) (fun _ => PartCopied J w))
      (PartCopied J) := by
  rintro w₀ ⟨hm, hrem, hstart⟩
  suffices hspec : Triple (S := Api) P.exec (CopyState J s.offset s.offset)
      (imgProcessBody fa J.hd cbImgWrite s)
      (fun r w => r.elim (fun s' => BlockStart J s' w) (fun _ => PartCopied J w))
      (PartCopied J) from hspec w₀ hstart
  have hpart : ∀ {pos w}, CopyState J pos s.offset w → PartCopied J w := fun hw => hw.partCopied hm
  unfold imgProcessBody
  refine triple_ite (fun hpos => ?_) (fun _ => triple_ret (fun w hw => hpart hw) (fun w => hpart))
  generalize hlen : (if s.remLen > tmpBufSize then tmpBufSize else s.remLen) = len
  have hblock : len ≤ s.remLen ∧ (len = tmpBufSize ∨ len = s.remLen) := by
    rw [← hlen]
    by_cases h : s.remLen > tmpBufSize
    · rw [if_pos h]
      omega
    · rw [if_neg h]
      omega
  have hm' : BlockEnd J.d (s.offset + len) := by
    refine ⟨by have := hm.1; omega, ?_⟩
    rcases hblock.2 with h | h
    · rcases hm.2 with hmod | hall
      · left
        rw [h, Nat.add_mod_right]
        exact hmod
      · omega
    · right
      have := hm.1
      omega
  refine triple_bind (M := BlockRead J s.offset len)
    (triple_perform ?_ (fun w => hpart) ?_) (fun r => ?_)
  · intro w hw
    exact (hw.read (P := P) len).imp_left
      (fun h => ⟨h.1, s.offset, hm, (congrFun h.2 J.dst).trans hw.content⟩)
  · intro w hw
    rcases hw.read (P := P) len with ⟨-, hflash⟩ | ⟨n, -, -, hw'⟩
    · exact ⟨s.offset, hm, (congrFun hflash J.dst).trans hw.content⟩
    · exact hpart hw'
  · cases r with
    | error rc => exact triple_ret (fun w hw => hw.partCopied hm) (fun w hw => hw.partCopied hm)
    | ok b =>
      refine triple_ite (fun _ => triple_ret (fun w hw => hw.partCopied hm)
        (fun w hw => hw.partCopied hm)) (fun hfull => ?_)
      refine Triple.weaken (P := fun w => CopyState J (s.offset + len) s.offset w ∧
        b = slice J.d.bytes s.offset len) (triple_assume (fun hb => ?_))
        (fun w hw => hw.full (not_not.mp hfull)) (fun _ _ h => h) (fun _ h => h)
      rw [hb]
      refine triple_bind (triple_blockWrite hatomic hsize hfa hm hm' (padding len)) (fun ok => ?_)
      refine triple_ite (fun _ => triple_ret (fun w hw => hw.1) (fun w hw => hw.1)) (fun hok => ?_)
      refine triple_ret (fun w hw => ⟨hm', ?_, hw.2 (by simpa using hok)⟩) (fun w hw => hw.1)
      show s.remLen - len = J.d.bytes.length - (s.offset + len)
      omega

/-- The block loop and the close behind it. -/
theorem triple_blocks (hatomic : AllOrNothing J.faults) (hsize : J.d.bytes.length ≤ J.size)
    {fa : FlashArea} (hfa : fa.faId = J.dst) :
    Triple (S := Api) P.exec (CopyState J 0 0)
      (imgProcessBlocks fa J.hd cbImgWrite J.d.bytes.length) (fun _ => PartCopied J)
      (PartCopied J) := by
  refine triple_bind (Triple.weaken (triple_loop (I := BlockStart J) (Q := fun _ => PartCopied J)
    (triple_block hatomic hsize hfa) (fun s w hw => hw.partCopied) (fun _ _ h => h) _
    { remLen := J.d.bytes.length, offset := 0 }) (fun w hw => ?_) (fun _ _ h => h)
    (fun _ h => h)) (fun ok => ?_)
  · exact ⟨⟨Nat.zero_le _, Or.inl (Nat.zero_mod _)⟩, rfl, hw⟩
  · refine triple_bind (M := fun _ => PartCopied J) (triple_perform ?_ (fun w hw => hw) ?_)
      (fun _ => triple_ret (fun w hw => hw) (fun w hw => hw))
    · exact fun w hw => hw
    · exact fun w hw => hw

end RuuviMcuboot
