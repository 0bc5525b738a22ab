/-
The copy of a file into a partition.

The copy reads and writes the file block by block behind an erase of the whole
partition.  It succeeds exactly when the padded file fits and none of its calls is
disturbed, and then the partition holds the file followed by erased bytes.
-/
import RuuviMcuboot.ImgOp
import RuuviMcuboot.Platform.Calls

namespace RuuviMcuboot

open Binary Effect

variable (P : Platform) {w : World}

/-! ## The plan of a copy -/

/-- A copy to be made: the open file, on top of the table `t`, the partition with
its size, and the failures that lie ahead. -/
structure CopyJob where
  f : UpdateFile
  hd : Handle
  t : List (Handle × OpenFile)
  d : FileData
  dst : FaId
  size : Nat
  faults : Nat → Op → Fault

namespace CopyJob

variable (J : CopyJob)

/-- The length of block `i`. -/
def blockLen (i : Nat) : Nat := min tmpBufSize (J.d.bytes.length - tmpBufSize * i)

/-- Block `i` as it is written. -/
def block (i : Nat) : Bytes :=
  slice J.d.bytes (tmpBufSize * i) (J.blockLen i) ++ blank (padding (J.blockLen i))

/-- Block `i` is read in full and written, where the read is call number `n`. -/
structure BlockUndisturbed (n i : Nat) : Prop where
  reads : (J.faults n (.fsRead J.hd (J.blockLen i))).rc? = none
  full : (J.faults n (.fsRead J.hd (J.blockLen i))).limit (J.blockLen i) = J.blockLen i
  writes : (J.faults (n + 1) (.flashAreaWrite J.dst (tmpBufSize * i) (J.block i))).rc? = none

/-- Block `i` with its padding lies inside the partition. -/
def BlockFits (i : Nat) : Prop :=
  tmpBufSize * i + J.blockLen i + padding (J.blockLen i) ≤ J.size

/-- No call of a copy that starts with call number `n` fails or is cut short. -/
structure Undisturbed (n : Nat) : Prop where
  opens : (J.faults n (.flashAreaOpen J.dst)).rc? = none
  toEnd : (J.faults (n + 1) (.fsSeek J.hd 0 .fromEnd)).rc? = none
  toStart : (J.faults (n + 3) (.fsSeek J.hd 0 .set)).rc? = none
  erases : (J.faults (n + 4) (.flashAreaErase J.dst 0 J.size)).rc? = none
  blocks : ∀ i, tmpBufSize * i < J.d.bytes.length → J.BlockUndisturbed (n + 5 + 2 * i) i

/-- The file fits the partition with its last block padded. -/
def Fits : Prop := J.d.bytes.length + padding J.d.bytes.length ≤ J.size

/-- The partition after a complete copy. -/
def result : Bytes := J.d.bytes ++ blank (J.size - J.d.bytes.length)

/-- The world in front of call number `n`, with the first `off` bytes copied. -/
structure At (off n : Nat) (w : World) : Prop where
  opened : w.opened = (J.hd, { name := J.f, data := J.d, pos := off }) :: J.t
  content : w.flash J.dst = J.d.bytes.take off ++ blank (J.size - off)
  clock : w.clock = n
  faults : w.faults = J.faults

/-- The loop variables in front of block `i`. -/
def state (i : Nat) : ImgProcessState :=
  { remLen := J.d.bytes.length - tmpBufSize * i
    offset := min (tmpBufSize * i) J.d.bytes.length }

end CopyJob

/-! ## Blocks -/

variable {J : CopyJob}

theorem padding_add (n : Nat) : (n + padding n) % 4 = 0 := by
  unfold padding
  by_cases h : n % 4 ≠ 0
  · rw [if_pos h]
    omega
  · rw [if_neg h]
    omega

/-- A file that fits a partition of whole words fits it padded. -/
theorem padding_le {n size : Nat} (hn : n ≤ size) (hsize : size % 4 = 0) : n + padding n ≤ size := by
  unfold padding
  by_cases h : n % 4 ≠ 0
  · rw [if_pos h]
    omega
  · rw [if_neg h]
    omega

/-- The last block ends with the padding of the file. -/
theorem CopyJob.blockFits_last {i : Nat} (hi : tmpBufSize * i < J.d.bytes.length)
    (hlast : J.d.bytes.length ≤ tmpBufSize * i + tmpBufSize) : J.BlockFits i ↔ J.Fits := by
  have hlen : J.blockLen i = J.d.bytes.length - tmpBufSize * i := Nat.min_eq_right (by omega)
  have hsame : padding (J.d.bytes.length - tmpBufSize * i) = padding J.d.bytes.length := by
    have hmod : (J.d.bytes.length - tmpBufSize * i) % 4 = J.d.bytes.length % 4 := by
      unfold tmpBufSize at *
      omega
    rw [padding, hmod, padding]
  have hend : tmpBufSize * i + (J.d.bytes.length - tmpBufSize * i) = J.d.bytes.length := by omega
  rw [CopyJob.BlockFits, CopyJob.Fits, hlen, hsame, hend]

/-- The other blocks are whole and end inside the file. -/
theorem CopyJob.blockFits_whole {i : Nat} (hi : tmpBufSize * i + tmpBufSize < J.d.bytes.length)
    (hsize : J.d.bytes.length ≤ J.size) : J.BlockFits i := by
  have hlen : J.blockLen i = tmpBufSize := Nat.min_eq_left (by omega)
  have hzero : padding tmpBufSize = 0 := by decide
  rw [CopyJob.BlockFits, hlen, hzero]
  omega

/-- The blocks of a file lie inside the partition exactly when the file fits. -/
theorem CopyJob.blockFits_iff (hsize : J.d.bytes.length ≤ J.size) :
    (∀ i, tmpBufSize * i < J.d.bytes.length → J.BlockFits i) ↔ J.Fits := by
  constructor
  · intro hall
    by_cases hempty : J.d.bytes.length = 0
    · show J.d.bytes.length + padding J.d.bytes.length ≤ J.size
      rw [hempty]
      exact Nat.zero_le _
    · have hi : tmpBufSize * ((J.d.bytes.length - 1) / tmpBufSize) < J.d.bytes.length := by
        unfold tmpBufSize
        omega
      refine (CopyJob.blockFits_last hi ?_).mp (hall _ hi)
      unfold tmpBufSize
      omega
  · intro hfits i hi
    by_cases hlast : J.d.bytes.length ≤ tmpBufSize * i + tmpBufSize
    · exact (CopyJob.blockFits_last hi hlast).mpr hfits
    · exact CopyJob.blockFits_whole (Nat.lt_of_not_le hlast) hsize

theorem CopyJob.block_length (i : Nat) (hi : tmpBufSize * i < J.d.bytes.length) :
    (J.block i).length = J.blockLen i + padding (J.blockLen i) := by
  unfold CopyJob.block
  rw [List.length_append, blank_length, slice_length]
  unfold CopyJob.blockLen
  omega

theorem rc?_ne_zero {flt : Fault} {rc : Int} (h : flt.rc? = some rc) : rc ≠ 0 := by
  cases flt with
  | none => exact absurd h (by simp [Fault.rc?])
  | short n => exact absurd h (by simp [Fault.rc?])
  | fail n junk =>
    obtain rfl : Int.negSucc n = rc := Option.some.inj h
    exact Int.negSucc_ne_zero n

theorem CopyJob.At.run_fsRead {off n : Nat} (hw : J.At off n w) (len : Nat) :
    P.run (fsRead J.hd len) w =
      match (J.faults n (.fsRead J.hd len)).rc? with
      | some rc => (.error rc, w.tick)
      | none =>
        let b := slice J.d.bytes off ((J.faults n (.fsRead J.hd len)).limit len)
        (.ok b, w.tick.setOpened
          ((J.hd, { name := J.f, data := J.d, pos := off + b.length }) :: J.t)) := by
  have hl : lookupFile J.hd w.tick.opened = some { name := J.f, data := J.d, pos := off } := by
    show lookupFile J.hd w.opened = _
    rw [hw.opened, lookupFile_cons_self]
  rw [RuuviMcuboot.run_fsRead]
  simp only [Platform.exec, hw.clock, hw.faults]
  cases (J.faults n (.fsRead J.hd len)).rc? with
  | some rc => rfl
  | none =>
    simp only [World.readFile, hl]
    show (_, w.tick.setOpened (moveFile J.hd _ w.opened)) = _
    rw [hw.opened, moveFile_cons_self]

theorem run_cbImgWrite (fa : FlashArea) (off : Nat) (b : Bytes) (w : World) :
    P.run (cbImgWrite fa off b) w =
      (decide ((P.exec (.flashAreaWrite fa.faId off b) w).1 = 0),
        (P.exec (.flashAreaWrite fa.faId off b) w).2) := by
  unfold cbImgWrite
  rw [P.run_bind, run_flashAreaWrite, P.run_pure]

theorem CopyJob.remLen_pos {i : Nat} (hi : tmpBufSize * i < J.d.bytes.length) :
    (J.state i).remLen > 0 := Nat.sub_pos_of_lt hi

theorem CopyJob.state_blockLen (i : Nat) :
    (if (J.state i).remLen > tmpBufSize then tmpBufSize else (J.state i).remLen) =
      J.blockLen i := by
  unfold CopyJob.state CopyJob.blockLen
  dsimp only
  by_cases h : J.d.bytes.length - tmpBufSize * i > tmpBufSize
  · rw [if_pos h]
    omega
  · rw [if_neg h]
    omega

theorem CopyJob.state_offset {i : Nat} (hi : tmpBufSize * i < J.d.bytes.length) :
    (J.state i).offset = tmpBufSize * i := Nat.min_eq_left (Nat.le_of_lt hi)

/-- The loop variables behind block `i`. -/
theorem CopyJob.state_succ {i : Nat} (hi : tmpBufSize * i < J.d.bytes.length) :
    { remLen := (J.state i).remLen - J.blockLen i
      offset := (J.state i).offset + J.blockLen i } = J.state (i + 1) := by
  rw [J.state_offset hi]
  unfold CopyJob.state CopyJob.blockLen tmpBufSize at *
  rw [ImgProcessState.mk.injEq]
  dsimp only
  constructor <;> omega

/-- The world behind the read of block `i`. -/
def CopyJob.afterRead (J : CopyJob) (i : Nat) (w : World) : World :=
  w.tick.setOpened
    ((J.hd, { name := J.f, data := J.d, pos := tmpBufSize * i + J.blockLen i }) :: J.t)

theorem CopyJob.slice_block (i : Nat) :
    (slice J.d.bytes (tmpBufSize * i) (J.blockLen i)).length = J.blockLen i := by
  rw [slice_length]
  unfold CopyJob.blockLen
  omega

/-- The size of the partition does not change. -/
theorem CopyJob.At.flash_length {off n : Nat} (hw : J.At off n w) (hoff : off ≤ J.d.bytes.length)
    (hsize : off ≤ J.size) : (w.flash J.dst).length = J.size := by
  rw [hw.content, List.length_append, List.length_take, blank_length]
  omega

/-- Block `i` up to the write. -/
theorem run_block_read {i n : Nat} (hi : tmpBufSize * i < J.d.bytes.length)
    (hw : J.At (tmpBufSize * i) n w)
    (hreads : (J.faults n (.fsRead J.hd (J.blockLen i))).rc? = none)
    (hfull : (J.faults n (.fsRead J.hd (J.blockLen i))).limit (J.blockLen i) = J.blockLen i)
    {fa : FlashArea} (hfa : fa.faId = J.dst) :
    P.run (imgProcessBody fa J.hd cbImgWrite (J.state i)) w =
      P.run (cbImgWrite fa (tmpBufSize * i) (J.block i) >>= fun ok =>
        if ok = false then pure (.inr false) else pure (.inl (J.state (i + 1)))) (J.afterRead i w) := by
  have hread := hw.run_fsRead P (J.blockLen i)
  rw [hreads, hfull] at hread
  dsimp only at hread
  rw [CopyJob.slice_block] at hread
  unfold imgProcessBody
  rw [if_pos (CopyJob.remLen_pos hi), CopyJob.state_blockLen, P.run_bind_of hread]
  dsimp only
  rw [if_neg (not_not.mpr (CopyJob.slice_block i)), CopyJob.state_succ hi, CopyJob.state_offset hi]
  rfl

theorem limit_le (flt : Fault) (len : Nat) : flt.limit len ≤ len := by
  cases flt with
  | short n => exact Nat.min_le_right _ _
  | none => exact Nat.le_refl _
  | fail rc junk => exact Nat.le_refl _

/-- A block that nothing disturbs is copied. -/
theorem run_block_copied {i n : Nat} (hi : tmpBufSize * i < J.d.bytes.length)
    (hend : J.BlockFits i) (hw : J.At (tmpBufSize * i) n w) (hok : J.BlockUndisturbed n i) {fa : FlashArea}
    (hfa : fa.faId = J.dst) :
    ∃ w', P.run (imgProcessBody fa J.hd cbImgWrite (J.state i)) w = (.inl (J.state (i + 1)), w') ∧
      J.At (min (tmpBufSize * (i + 1)) J.d.bytes.length) (n + 2) w' := by
  unfold CopyJob.BlockFits at hend
  have hblock := CopyJob.block_length i hi
  have hsize := hw.flash_length (Nat.le_of_lt hi) (by omega)
  have hnext : min (tmpBufSize * (i + 1)) J.d.bytes.length = tmpBufSize * i + J.blockLen i := by
    unfold CopyJob.blockLen tmpBufSize at *
    omega
  have hwhole : tmpBufSize * i % 4 = 0 ∧ (J.block i).length % 4 = 0 ∧
      tmpBufSize * i + (J.block i).length ≤ ((J.afterRead i w).tick.flash J.dst).length := by
    refine ⟨by unfold tmpBufSize; omega, ?_, ?_⟩
    · rw [hblock]
      exact padding_add _
    · show _ ≤ (w.flash J.dst).length
      rw [hsize, hblock]
      omega
  have hflt : ((J.afterRead i w).faults (J.afterRead i w).clock
      (.flashAreaWrite J.dst (tmpBufSize * i) (J.block i))).rc? = none := by
    show (w.faults (w.clock + 1) _).rc? = none
    rw [hw.faults, hw.clock]
    exact hok.writes
  have hwrite : P.exec (.flashAreaWrite fa.faId (tmpBufSize * i) (J.block i)) (J.afterRead i w) =
      (0, (J.afterRead i w).tick.setFlash J.dst
        (overlay (w.flash J.dst) (tmpBufSize * i) (J.block i))) := by
    rw [hfa]
    simp only [Platform.exec, hflt, hwhole, if_true]
    rfl
  rw [run_block_read P hi hw hok.reads hok.full hfa, P.run_bind_of (run_cbImgWrite P _ _ _ _),
    hwrite]
  refine ⟨_, rfl, ?_, ?_, ?_, hw.faults⟩
  · rw [hnext]
    rfl
  · have htake : (J.d.bytes.take (tmpBufSize * i)).length = tmpBufSize * i := by
      rw [List.length_take]
      omega
    have hpad : (slice J.d.bytes (tmpBufSize * i) (J.blockLen i)).length +
        padding (J.blockLen i) ≤ J.size - tmpBufSize * i := by
      rw [CopyJob.slice_block]
      omega
    have hover := overlay_blank (a := J.d.bytes.take (tmpBufSize * i)) hpad
    rw [htake, CopyJob.slice_block, take_append_slice, Nat.sub_sub] at hover
    rw [hnext]
    show Function.update _ J.dst _ J.dst = _
    rw [Function.update_self, hw.content, ← hover]
    rfl
  · show w.clock + 1 + 1 = n + 2
    rw [hw.clock]

/-- A block that is disturbed ends the copy. -/
theorem run_block_failed {i n : Nat} (hi : tmpBufSize * i < J.d.bytes.length)
    (hsize : tmpBufSize * i ≤ J.size) (hw : J.At (tmpBufSize * i) n w)
    (hbad : ¬ (J.BlockUndisturbed n i ∧ J.BlockFits i)) {fa : FlashArea}
    (hfa : fa.faId = J.dst) :
    (P.run (imgProcessBody fa J.hd cbImgWrite (J.state i)) w).1 = .inr false := by
  by_cases hreads : (J.faults n (.fsRead J.hd (J.blockLen i))).rc? = none
  · by_cases hfull : (J.faults n (.fsRead J.hd (J.blockLen i))).limit (J.blockLen i) = J.blockLen i
    · rw [run_block_read P hi hw hreads hfull hfa, P.run_bind_of (run_cbImgWrite P _ _ _ _)]
      have hfail : (P.exec (.flashAreaWrite fa.faId (tmpBufSize * i) (J.block i))
          (J.afterRead i w)).1 ≠ 0 := by
        have hcall : (J.afterRead i w).faults (J.afterRead i w).clock
            (.flashAreaWrite J.dst (tmpBufSize * i) (J.block i)) =
              J.faults (n + 1) (.flashAreaWrite J.dst (tmpBufSize * i) (J.block i)) := by
          show w.faults (w.clock + 1) _ = _
          rw [hw.faults, hw.clock]
        rw [hfa]
        simp only [Platform.exec, hcall]
        cases hrc : (J.faults (n + 1) (.flashAreaWrite J.dst (tmpBufSize * i) (J.block i))).rc? with
        | some rc => exact rc?_ne_zero hrc
        | none =>
          have hlong : ¬ tmpBufSize * i + (J.block i).length ≤
              ((J.afterRead i w).tick.flash J.dst).length := by
            intro hle
            refine hbad ⟨⟨hreads, hfull, hrc⟩, ?_⟩
            rw [CopyJob.block_length i hi, ← Nat.add_assoc] at hle
            rw [CopyJob.BlockFits]
            exact (hw.flash_length (Nat.le_of_lt hi) hsize) ▸ hle
          simp only [hlong, and_false, if_false]
          exact (by decide : (-EINVAL : Int) ≠ 0)
      rw [decide_eq_false hfail]
      rfl
    · -- the read was cut short
      have hread := hw.run_fsRead P (J.blockLen i)
      rw [hreads] at hread
      dsimp only at hread
      have hshort : (slice J.d.bytes (tmpBufSize * i)
          ((J.faults n (.fsRead J.hd (J.blockLen i))).limit (J.blockLen i))).length ≠
            J.blockLen i := by
        have hle := limit_le (J.faults n (.fsRead J.hd (J.blockLen i))) (J.blockLen i)
        have hmin : J.blockLen i ≤ J.d.bytes.length - tmpBufSize * i := Nat.min_le_right _ _
        rw [slice_length, Nat.min_eq_left (Nat.le_trans hle hmin)]
        exact hfull
      unfold imgProcessBody
      rw [if_pos (CopyJob.remLen_pos hi), CopyJob.state_blockLen, P.run_bind_of hread]
      dsimp only
      rw [if_pos hshort]
      rfl
  · obtain ⟨rc, hrc⟩ := Option.ne_none_iff_exists'.mp hreads
    have hread := hw.run_fsRead P (J.blockLen i)
    rw [hrc] at hread
    unfold imgProcessBody
    rw [if_pos (CopyJob.remLen_pos hi), CopyJob.state_blockLen, P.run_bind_of hread]
    rfl

/-! ## The whole copy -/

/-- The block loop from block `i` on succeeds exactly when no block from there on
is disturbed. -/
theorem run_blocks (hsize : J.d.bytes.length ≤ J.size) {fa : FlashArea} (hfa : fa.faId = J.dst) (fuel : Nat) :
    ∀ i n w, J.At (min (tmpBufSize * i) J.d.bytes.length) n w →
      J.d.bytes.length - tmpBufSize * i < fuel →
      let r := P.run (Prog.loop (imgProcessBody fa J.hd cbImgWrite) false fuel (J.state i)) w
      (r.1 = true ↔ ∀ k, tmpBufSize * (i + k) < J.d.bytes.length →
          J.BlockUndisturbed (n + 2 * k) (i + k) ∧ J.BlockFits (i + k)) ∧
        (r.1 = true → r.2.flash J.dst = J.result) := by
  induction fuel with
  | zero =>
    intro i n w _ hfuel
    exact absurd hfuel (Nat.not_lt_zero _)
  | succ fuel ih =>
    intro i n w hw hfuel r
    by_cases hi : tmpBufSize * i < J.d.bytes.length
    · rw [Nat.min_eq_left (Nat.le_of_lt hi)] at hw
      by_cases hok : J.BlockUndisturbed n i ∧ J.BlockFits i
      · obtain ⟨w', hrun, hw'⟩ := run_block_copied P hi hok.2 hw hok.1 hfa
        have hr : r = P.run (Prog.loop (imgProcessBody fa J.hd cbImgWrite) false fuel
            (J.state (i + 1))) w' := P.run_bind_of hrun
        obtain ⟨hiff, hdone⟩ := ih (i + 1) (n + 2) w' hw' (by unfold tmpBufSize at *; omega)
        rw [hr]
        refine ⟨hiff.trans ⟨fun hall k hk => ?_, fun hall k hk => ?_⟩, hdone⟩
        · cases k with
          | zero => exact hok
          | succ k =>
            have hshift : i + 1 + k = i + (k + 1) := by omega
            have hcall : n + 2 + 2 * k = n + 2 * (k + 1) := by omega
            have := hall k (by rw [hshift]; exact hk)
            rwa [hshift, hcall] at this
        · have hshift : i + 1 + k = i + (k + 1) := by omega
          have hcall : n + 2 + 2 * k = n + 2 * (k + 1) := by omega
          rw [hshift, hcall]
          exact hall (k + 1) (by rw [← hshift]; exact hk)
      · have hrun := run_block_failed P hi (by omega) hw hok hfa
        have hr : r.1 = false := by
          show (P.run (imgProcessBody fa J.hd cbImgWrite (J.state i) >>= _) w).1 = false
          rw [P.run_bind, hrun]
          rfl
        rw [hr]
        exact ⟨⟨fun h => absurd h (by decide), fun hall => absurd (hall 0 hi) hok⟩,
          fun h => absurd h (by decide)⟩
    · -- nothing is left to copy
      have hr : r = (true, w) := by
        have hrem : ¬ (J.state i).remLen > 0 := by
          unfold CopyJob.state
          dsimp only
          omega
        show P.run (imgProcessBody fa J.hd cbImgWrite (J.state i) >>= _) w = _
        unfold imgProcessBody
        rw [if_neg hrem]
        rfl
      rw [hr]
      refine ⟨⟨fun _ k hk => ?_, fun _ => rfl⟩, fun _ => ?_⟩
      · exact absurd (Nat.lt_of_le_of_lt (Nat.mul_le_mul_left _ (Nat.le_add_right i k)) hk) hi
      · show w.flash J.dst = _
        rw [hw.content, Nat.min_eq_right (Nat.le_of_not_lt hi), List.take_length]
        rfl

/-- The open file of a copy, at a position. -/
def CopyJob.file (J : CopyJob) (pos : Nat) : OpenFile := { name := J.f, data := J.d, pos := pos }

theorem run_fsSeek_file {pos pos' : Nat} (ht : w.opened = (J.hd, J.file pos) :: J.t) {off : Int}
    {whence : Whence} (hpos : (J.file pos).target off whence = some pos') :
    P.run (fsSeek J.hd off whence) w =
      match (w.faults w.clock (.fsSeek J.hd off whence)).rc? with
      | some rc => (rc, w.tick)
      | none => ((0 : Int), w.tick.setOpened ((J.hd, J.file pos') :: J.t)) := by
  have hl : lookupFile J.hd w.tick.opened = some (J.file pos) := by
    show lookupFile J.hd w.opened = _
    rw [ht, lookupFile_cons_self]
  rw [run_fsSeek]
  simp only [Platform.exec]
  cases (w.faults w.clock (.fsSeek J.hd off whence)).rc? with
  | some rc => rfl
  | none =>
    simp only [hl, hpos]
    show (0, w.tick.setOpened (moveFile J.hd pos' w.opened)) = _
    rw [ht, moveFile_cons_self]
    rfl

theorem CopyJob.target_end (pos : Nat) :
    (J.file pos).target 0 .fromEnd = some J.d.bytes.length := by
  have hmax := J.d.size_le
  show (if 0 ≤ (J.d.bytes.length : Int) + 0 ∧ (J.d.bytes.length : Int) + 0 ≤ lfsFileMax
    then some ((J.d.bytes.length : Int) + 0).toNat else none) = _
  rw [if_pos (by omega)]
  simp

theorem CopyJob.target_start (pos : Nat) : (J.file pos).target 0 .set = some 0 := by
  show (if (0 : Int) ≤ 0 + 0 ∧ (0 : Int) + 0 ≤ lfsFileMax then some ((0 : Int) + 0).toNat
    else none) = _
  rw [if_pos (by omega)]
  rfl

theorem CopyJob.state_zero : J.state 0 = { remLen := J.d.bytes.length, offset := 0 } := by
  unfold CopyJob.state
  rw [Nat.mul_zero, Nat.sub_zero, Nat.zero_min]

/-- The erase and the blocks behind it. -/
theorem run_copy_erase (hlen : J.d.bytes.length ≤ J.size)
    (ht : w.opened = (J.hd, J.file 0) :: J.t) (hsize : (w.flash J.dst).length = J.size)
    (hf : w.faults = J.faults) {fa : FlashArea} (hfa : fa.faId = J.dst) :
    let r := P.run (do
      let rc ← flashAreaErase fa.faId 0 J.size
      if rc ≠ 0 then
        return false
      else
        imgProcessBlocks fa J.hd cbImgWrite J.d.bytes.length) w
    (r.1 = true ↔ J.Fits ∧ (J.faults w.clock (.flashAreaErase J.dst 0 J.size)).rc? = none ∧
        ∀ i, tmpBufSize * i < J.d.bytes.length → J.BlockUndisturbed (w.clock + 1 + 2 * i) i) ∧
      (r.1 = true → r.2.flash J.dst = J.result) := by
  intro r
  cases herase : (J.faults w.clock (.flashAreaErase J.dst 0 J.size)).rc? with
  | some rc =>
    have hr : r.1 = false := by
      show (P.run (flashAreaErase fa.faId 0 J.size >>= _) w).1 = false
      rw [P.run_bind, run_flashAreaErase, hfa]
      simp only [Platform.exec, hf, herase]
      rw [if_pos (rc?_ne_zero herase)]
      rfl
    rw [hr]
    exact ⟨⟨fun h => absurd h (by decide), fun h => absurd h.2.1 (by simp)⟩,
      fun h => absurd h (by decide)⟩
  | none =>
    have hall : 0 + J.size ≤ (w.tick.flash J.dst).length := by
      show 0 + J.size ≤ (w.flash J.dst).length
      omega
    have hrun : P.run (flashAreaErase fa.faId 0 J.size) w =
        (0, w.tick.setFlash J.dst (overlay (w.flash J.dst) 0 (blank J.size))) := by
      rw [run_flashAreaErase, hfa]
      simp only [Platform.exec, hf, herase, hall, if_true]
      rfl
    have hstart : J.At (min (tmpBufSize * 0) J.d.bytes.length) (w.clock + 1)
        (w.tick.setFlash J.dst (overlay (w.flash J.dst) 0 (blank J.size))) := by
      rw [Nat.mul_zero, Nat.zero_min]
      refine ⟨ht, ?_, rfl, hf⟩
      show Function.update _ J.dst _ J.dst = _
      rw [Function.update_self, overlay_all (by rw [blank_length, hsize]), List.take_zero,
        List.nil_append, Nat.sub_zero]
    obtain ⟨hiff, hdone⟩ := run_blocks P hlen hfa (J.d.bytes.length + 1) 0 (w.clock + 1) _ hstart
      (by omega)
    simp only [Nat.zero_add] at hiff
    have hr : r = ((P.run (Prog.loop (imgProcessBody fa J.hd cbImgWrite) false
        (J.d.bytes.length + 1) (J.state 0))
          (w.tick.setFlash J.dst (overlay (w.flash J.dst) 0 (blank J.size)))).1,
        (P.run (Prog.loop (imgProcessBody fa J.hd cbImgWrite) false
        (J.d.bytes.length + 1) (J.state 0))
          (w.tick.setFlash J.dst (overlay (w.flash J.dst) 0 (blank J.size)))).2.tick) := by
      show P.run (flashAreaErase fa.faId 0 J.size >>= _) w = _
      rw [P.run_bind_of hrun, if_neg (by decide), CopyJob.state_zero]
      unfold imgProcessBlocks
      rw [P.run_bind, P.run_bind, run_flashAreaClose, P.run_pure]
      rfl
    rw [hr]
    refine ⟨hiff.trans ⟨fun hall => ⟨?_, rfl, fun i hi => (hall i hi).1⟩, fun hall i hi => ?_⟩, hdone⟩
    · exact (CopyJob.blockFits_iff hlen).mp (fun i hi => (hall i hi).2)
    · exact ⟨hall.2.2 i hi, (CopyJob.blockFits_iff hlen).mpr hall.1 i hi⟩

/-- The copy succeeds exactly when the file fits the partition and no call is
disturbed, and then the partition holds the file. -/
theorem run_copy {pos : Nat} (ht : w.opened = (J.hd, J.file pos) :: J.t)
    (hsize : (w.flash J.dst).length = J.size) (hf : w.faults = J.faults) :
    let r := P.run (mcubootImgOpCopy J.dst J.hd) w
    (r.1 = true ↔ J.Fits ∧ J.Undisturbed w.clock) ∧ (r.1 = true → r.2.flash J.dst = J.result) := by
  intro r
  have hfail : r.1 = false → ¬ (J.Fits ∧ J.Undisturbed w.clock) →
      (r.1 = true ↔ J.Fits ∧ J.Undisturbed w.clock) ∧
        (r.1 = true → r.2.flash J.dst = J.result) := by
    intro hr hbad
    rw [hr]
    exact ⟨⟨fun h => absurd h (by decide), fun h => absurd h hbad⟩, fun h => absurd h (by decide)⟩
  cases hopens : (J.faults w.clock (.flashAreaOpen J.dst)).rc? with
  | some rc =>
    refine hfail ?_ (fun h => ?_)
    · show (P.run (flashAreaOpen J.dst >>= _) w).1 = false
      rw [P.run_bind, run_flashAreaOpen]
      simp only [Platform.exec, hf, hopens]
      rfl
    · exact absurd (hopens.symm.trans h.2.opens) (by simp)
  | none =>
    obtain ⟨fa, hfa, hfaSize, hopen⟩ : ∃ fa : FlashArea, fa.faId = J.dst ∧ fa.faSize = J.size ∧
        P.run (flashAreaOpen J.dst) w = (.ok fa, w.tick) := by
      refine ⟨{ faId := J.dst, faOff := P.faOff J.dst, faSize := J.size }, rfl, rfl, ?_⟩
      rw [run_flashAreaOpen]
      simp only [Platform.exec, hf, hopens, World.tick_flash, hsize]
    have hseekEnd := run_fsSeek_file P (w := w.tick) (show w.tick.opened = _ from ht)
      (CopyJob.target_end pos)
    have hr : r = P.run (imgProcess J.dst J.hd true cbImgWrite) w := rfl
    unfold imgProcess at hr
    rw [P.run_bind_of hopen] at hr
    dsimp only at hr
    rw [show w.tick.faults w.tick.clock = J.faults (w.clock + 1) from congrFun hf _] at hseekEnd
    cases htoEnd : (J.faults (w.clock + 1) (.fsSeek J.hd 0 .fromEnd)).rc? with
    | some rc =>
      rw [htoEnd] at hseekEnd
      refine hfail ?_ (fun h => ?_)
      · rw [hr, P.run_bind_of hseekEnd, if_pos (rc?_ne_zero htoEnd)]
        rfl
      · exact absurd (htoEnd.symm.trans h.2.toEnd) (by simp)
    | none =>
      rw [htoEnd] at hseekEnd
      have htell : P.run (fsTell J.hd)
          (w.tick.tick.setOpened ((J.hd, J.file J.d.bytes.length) :: J.t)) =
            ((J.d.bytes.length : Int),
              (w.tick.tick.setOpened ((J.hd, J.file J.d.bytes.length) :: J.t)).tick) :=
        run_fsTell_head P (o := J.file J.d.bytes.length) (t := J.t) rfl
      have hseekStart := run_fsSeek_file P (J := J)
        (w := (w.tick.tick.setOpened ((J.hd, J.file J.d.bytes.length) :: J.t)).tick) rfl
        (CopyJob.target_start J.d.bytes.length)
      rw [P.run_bind_of hseekEnd, if_neg (by decide), P.run_bind_of htell] at hr
      rw [show (w.tick.tick.setOpened ((J.hd, J.file J.d.bytes.length) :: J.t)).tick.faults
        (w.tick.tick.setOpened ((J.hd, J.file J.d.bytes.length) :: J.t)).tick.clock =
          J.faults (w.clock + 3) from congrFun hf _] at hseekStart
      cases htoStart : (J.faults (w.clock + 3) (.fsSeek J.hd 0 .set)).rc? with
      | some rc =>
        rw [htoStart] at hseekStart
        refine hfail ?_ (fun h => ?_)
        · rw [hr, P.run_bind_of hseekStart, if_pos (rc?_ne_zero htoStart)]
          rfl
        · exact absurd (htoStart.symm.trans h.2.toStart) (by simp)
      | none =>
        rw [htoStart] at hseekStart
        rw [P.run_bind_of hseekStart, if_neg (by decide)] at hr
        by_cases hlen : toSizeT (J.d.bytes.length : Int) > fa.faSize
        · rw [if_pos hlen] at hr
          refine hfail (by rw [hr]; rfl) (fun h => ?_)
          rw [toSizeT_length, hfaSize] at hlen
          exact absurd (Nat.le_trans (Nat.le_add_right _ _) h.1) (Nat.not_le.mpr hlen)
        · rw [if_neg hlen, if_pos rfl] at hr
          rw [toSizeT_length, hfaSize] at hlen
          rw [toSizeT_length, hfaSize] at hr
          obtain ⟨hiff, hdone⟩ := run_copy_erase P (J := J) (Nat.le_of_not_lt hlen)
            (w := ((w.tick.tick.setOpened
              ((J.hd, J.file J.d.bytes.length) :: J.t)).tick).tick.setOpened
                ((J.hd, J.file 0) :: J.t)) rfl hsize hf hfa
          rw [hr]
          refine ⟨hiff.trans ⟨fun h => ⟨h.1, ?_⟩, fun h => ⟨h.1, h.2.erases, ?_⟩⟩, hdone⟩
          · exact ⟨hopens, htoEnd, htoStart, h.2.1, h.2.2⟩
          · exact h.2.blocks

/-- A file that is longer than the partition leaves it alone. -/
theorem run_copy_too_long (hw : Reliable w) {pos : Nat} (ht : w.opened = (J.hd, J.file pos) :: J.t)
    (hlong : (w.flash J.dst).length < J.d.bytes.length) :
    (P.run (mcubootImgOpCopy J.dst J.hd) w).2.flash = w.flash := by
  have hopen : P.run (flashAreaOpen J.dst) w =
      (.ok { faId := J.dst, faOff := P.faOff J.dst, faSize := (w.flash J.dst).length }, w.tick) := by
    rw [run_flashAreaOpen]
    simp only [Platform.exec, hw.rc?, World.tick_flash]
  have hseekEnd : P.run (fsSeek J.hd 0 .fromEnd) w.tick =
      (0, w.tick.tick.setOpened ((J.hd, J.file J.d.bytes.length) :: J.t)) :=
    run_fsSeek_head P hw.tick (show w.tick.opened = _ from ht) (CopyJob.target_end pos)
  have htell := run_fsTell_head P (w := w.tick.tick.setOpened
    ((J.hd, J.file J.d.bytes.length) :: J.t)) rfl
  have hseekStart := run_fsSeek_head P (w := (w.tick.tick.setOpened
    ((J.hd, J.file J.d.bytes.length) :: J.t)).tick) (hw.tick.tick.setOpened _).tick rfl
      (CopyJob.target_start J.d.bytes.length)
  show (P.run (imgProcess J.dst J.hd true cbImgWrite) w).2.flash = _
  unfold imgProcess
  rw [P.run_bind_of hopen]
  dsimp only
  rw [P.run_bind_of hseekEnd, if_neg (by decide), P.run_bind_of htell, P.run_bind_of hseekStart,
    if_neg (by decide), if_pos (by rw [CopyJob.file, toSizeT_length]; exact hlong)]
  rfl

end RuuviMcuboot
