/-
What a copy writes, and the comparison of a partition with a file.

A copy issues aligned writes on erased bytes, each one behind the one before it,
whatever fails on the way.  The comparison runs the same block loop and only looks:
it succeeds exactly when the partition starts with the padded file.
-/
import RuuviMcuboot.Effect.Along
import RuuviMcuboot.Update.Footprints
import RuuviMcuboot.Update.Install

namespace RuuviMcuboot

open Binary Effect

variable (P : Platform) {w : World} {dst : FaId} {hd : Handle} {fa : FlashArea}

/-! ## The writes of a run -/

/-- What the flash driver demands of a write to `dst`: whole words inside the
partition, on erased bytes.  Other calls are not restricted. -/
def WritesErased (dst : FaId) : Op → World → Prop
  | .flashAreaWrite fa off data, w =>
    fa = dst ∧ off % 4 = 0 ∧ data.length % 4 = 0 ∧ off + data.length ≤ (w.flash dst).length ∧
      slice (w.flash dst) off data.length = blank data.length
  | _, _ => True

/-- The range a call writes, as offset and length. -/
def writtenRange (e : Event Api) : Option (Nat × Nat) :=
  match e.op with
  | .flashAreaWrite _ off data => some (off, data.length)
  | _ => none

/-- The ranges a run writes, in order. -/
def writes {α : Type} (p : Fw α) (w : World) : List (Nat × Nat) :=
  (trace (S := Api) P.exec p w).filterMap writtenRange

theorem writes_bind {α β : Type} (p : Fw α) (g : α → Fw β) (w : World) :
    writes P (p >>= g) w = writes P p w ++ writes P (g (P.run p w).1) (P.run p w).2 := by
  unfold writes
  rw [trace_bind, List.filterMap_append]

theorem writes_pure {α : Type} (a : α) (w : World) : writes P (pure a) w = [] := rfl

theorem writes_fsRead (len : Nat) : writes P (fsRead hd len) w = [] := rfl

theorem writes_cbImgWrite (off : Nat) (b : Bytes) :
    writes P (cbImgWrite fa off b) w = [(off, b.length)] := by
  unfold cbImgWrite
  rw [writes_bind, writes_pure, List.append_nil]
  rfl

/-! ## One block -/

/-- The length of the next block. -/
def ImgProcessState.len (s : ImgProcessState) : Nat :=
  if s.remLen > tmpBufSize then tmpBufSize else s.remLen

/-- The state behind the next block. -/
def ImgProcessState.next (s : ImgProcessState) : ImgProcessState :=
  { remLen := s.remLen - s.len, offset := s.offset + s.len }

/-- What `img_process` does with the answer of the read of a block. -/
def blockStep (fa : FlashArea) (cb : CbImgProcess) (s : ImgProcessState) :
    Except Int Bytes → Fw (ImgProcessState ⊕ Bool)
  | .error _ => pure (.inr false)
  | .ok b =>
    if b.length ≠ s.len then pure (.inr false)
    else cb fa s.offset (b ++ blank (padding s.len)) >>= fun ok =>
      if ok = false then pure (.inr false) else pure (.inl s.next)

theorem imgProcessBody_more (cb : CbImgProcess) {s : ImgProcessState} (hrem : s.remLen > 0) :
    imgProcessBody fa hd cb s = fsRead hd s.len >>= blockStep fa cb s := by
  unfold imgProcessBody
  rw [if_pos hrem]
  refine congrArg (fsRead hd s.len >>= ·) (funext fun r => ?_)
  cases r with
  | error e => rfl
  | ok b => rfl

theorem imgProcessBody_done (cb : CbImgProcess) {s : ImgProcessState} (hrem : ¬ s.remLen > 0) :
    imgProcessBody fa hd cb s = pure (.inr true) := by
  unfold imgProcessBody
  rw [if_neg hrem]

theorem writes_body (s : ImgProcessState) (w : World) :
    writes P (imgProcessBody fa hd cbImgWrite s) w = [] ∨
      s.remLen > 0 ∧
        writes P (imgProcessBody fa hd cbImgWrite s) w = [(s.offset, s.len + padding s.len)] := by
  by_cases hrem : s.remLen > 0
  · rw [imgProcessBody_more cbImgWrite hrem, writes_bind, writes_fsRead, List.nil_append]
    cases (P.run (fsRead hd s.len) w).1 with
    | error e => exact Or.inl rfl
    | ok b =>
      unfold blockStep
      by_cases hlen : b.length = s.len
      · refine Or.inr ⟨hrem, ?_⟩
        dsimp only
        rw [if_neg (not_not.mpr hlen), writes_bind, writes_cbImgWrite, List.length_append, hlen,
          blank_length]
        cases (P.run (cbImgWrite fa s.offset (b ++ blank (padding s.len)))
          (P.run (fsRead hd s.len) w).2).1 <;> rfl
      · dsimp only
        rw [if_pos hlen]
        exact Or.inl rfl
  · rw [imgProcessBody_done cbImgWrite hrem]
    exact Or.inl rfl

/-- A block that goes round again was read in full and taken by the callback. -/
theorem imgProcessBody_inl {cb : CbImgProcess} {s s' : ImgProcessState}
    (h : (P.run (imgProcessBody fa hd cb s) w).1 = .inl s') :
    s.remLen > 0 ∧ s' = s.next ∧ ∃ b, b.length = s.len ∧
      let r := P.run (cb fa s.offset (b ++ blank (padding s.len))) (P.run (fsRead hd s.len) w).2
      r.1 = true ∧ (P.run (imgProcessBody fa hd cb s) w).2 = r.2 := by
  by_cases hrem : s.remLen > 0
  · rw [imgProcessBody_more cb hrem, P.run_bind] at h ⊢
    cases hread : (P.run (fsRead hd s.len) w).1 with
    | error e =>
      rw [hread] at h
      exact absurd h (by simp [blockStep])
    | ok b =>
      rw [hread] at h
      unfold blockStep at h ⊢
      dsimp only at h ⊢
      by_cases hlen : b.length = s.len
      · rw [if_neg (not_not.mpr hlen), P.run_bind] at h ⊢
        cases hok : (P.run (cb fa s.offset (b ++ blank (padding s.len)))
            (P.run (fsRead hd s.len) w).2).1 with
        | false =>
          rw [hok] at h
          exact absurd h (by simp)
        | true =>
          rw [hok] at h
          exact ⟨hrem, (Sum.inl.inj h).symm, b, hlen, hok, rfl⟩
      · rw [if_pos hlen] at h
        exact absurd h (by simp)
  · rw [imgProcessBody_done cb hrem] at h
    exact absurd h (by simp)

/-! ## The writes of a copy -/

/-- The loop variables of a file of `n` bytes: only the last block may end inside
a word. -/
structure OnWords (n : Nat) (s : ImgProcessState) : Prop where
  total : s.offset + s.remLen = n
  word : s.remLen = 0 ∨ s.offset % 4 = 0

theorem OnWords.next {n : Nat} {s : ImgProcessState} (hs : OnWords n s) (hrem : s.remLen > 0) :
    OnWords n s.next ∧ (s.next.remLen = 0 ∨ padding s.len = 0) := by
  obtain ⟨htotal, hword⟩ := hs
  have hoff : s.offset % 4 = 0 := hword.resolve_left (by omega)
  unfold ImgProcessState.next ImgProcessState.len
  by_cases hlong : s.remLen > tmpBufSize
  · have hpad : padding tmpBufSize = 0 := by decide
    rw [if_pos hlong]
    unfold tmpBufSize at *
    exact ⟨⟨by dsimp only; omega, Or.inr (by dsimp only; omega)⟩, Or.inr hpad⟩
  · rw [if_neg hlong]
    exact ⟨⟨by dsimp only; omega, Or.inl (by dsimp only; omega)⟩, Or.inl (by dsimp only; omega)⟩

/-- The first range ends where the second starts, or before. -/
def Before (r₁ r₂ : Nat × Nat) : Prop := r₁.1 + r₁.2 ≤ r₂.1

/-- Each block is written behind the blocks before it. -/
theorem writes_blocks {n : Nat} (fuel : Nat) :
    ∀ s w, OnWords n s →
      let l := writes P (Prog.loop (imgProcessBody fa hd cbImgWrite) false fuel s) w
      (s.remLen = 0 → l = []) ∧ (∀ r ∈ l, s.offset ≤ r.1) ∧ l.Pairwise Before := by
  induction fuel with
  | zero => exact fun s w _ => ⟨fun _ => rfl, fun r hr => absurd hr (by simp [writes, Prog.loop]), .nil⟩
  | succ fuel ih =>
    intro s w hs l
    have hl : l = writes P (imgProcessBody fa hd cbImgWrite s >>= _) w := rfl
    rw [writes_bind] at hl
    cases hround : (P.run (imgProcessBody fa hd cbImgWrite s) w).1 with
    | inr a =>
      rw [hround] at hl
      have hlast : l = writes P (imgProcessBody fa hd cbImgWrite s) w :=
        hl.trans (List.append_nil _)
      rw [hlast]
      rcases writes_body P s w with hnone | ⟨hrem, hone⟩
      · rw [hnone]
        exact ⟨fun _ => rfl, fun r hr => absurd hr (by simp), .nil⟩
      · rw [hone]
        refine ⟨fun h => by omega, fun r hr => ?_, List.pairwise_singleton _ _⟩
        obtain rfl := List.mem_singleton.mp hr
        exact Nat.le_refl _
    | inl s' =>
      rw [hround] at hl
      obtain ⟨hrem, rfl, -⟩ := imgProcessBody_inl P hround
      obtain ⟨hs', hpad⟩ := hs.next hrem
      obtain ⟨hnil, hbehind, hrest⟩ := ih s.next (P.run (imgProcessBody fa hd cbImgWrite s) w).2 hs'
      have hnext : s.next.offset = s.offset + s.len := rfl
      have hsplit : l = writes P (imgProcessBody fa hd cbImgWrite s) w ++
          writes P (Prog.loop (imgProcessBody fa hd cbImgWrite) false fuel s.next)
            (P.run (imgProcessBody fa hd cbImgWrite s) w).2 := hl
      rcases writes_body P s w with hnone | ⟨-, hone⟩
      · rw [hsplit, hnone, List.nil_append]
        refine ⟨fun h => by omega, fun r hr => ?_, hrest⟩
        have := hbehind r hr
        omega
      · rw [hsplit, hone, List.singleton_append]
        refine ⟨fun h => by omega, fun r hr => ?_, List.Pairwise.cons (fun r hr => ?_) hrest⟩
        · rcases List.mem_cons.mp hr with rfl | hr
          · exact Nat.le_refl _
          · have := hbehind r hr
            omega
        · have := hbehind r hr
          rcases hpad with hzero | hpad
          · rw [hnil hzero] at hr
            exact absurd hr (by simp)
          · show s.offset + (s.len + padding s.len) ≤ r.1
            omega

/-- What a copy has left in the partition in front of a block: the bytes from
there on are erased. -/
structure ErasedFrom (dst : FaId) (size n : Nat) (s : ImgProcessState) (w : World) : Prop
    extends OnWords n s where
  length : (w.flash dst).length = size
  erased : (w.flash dst).drop s.offset = blank (size - s.offset)

/-- A write that reports success has been made. -/
theorem exec_write_success {off : Nat} {data : Bytes}
    (h : (P.exec (.flashAreaWrite dst off data) w).1 = 0) :
    (P.exec (.flashAreaWrite dst off data) w).2.flash dst = overlay (w.flash dst) off data := by
  simp only [Platform.exec] at h ⊢
  cases hflt : (w.faults w.clock (.flashAreaWrite dst off data)).rc? with
  | some rc =>
    simp only [hflt] at h
    exact absurd h (rc?_ne_zero hflt)
  | none =>
    simp only [hflt] at h ⊢
    by_cases hfit : off % 4 = 0 ∧ data.length % 4 = 0 ∧
        off + data.length ≤ (w.tick.flash dst).length
    · rw [if_pos hfit]
      exact Function.update_self _ _ _
    · rw [if_neg hfit] at h
      exact absurd h (by decide : (-EINVAL : Int) ≠ 0)

theorem ErasedFrom.split {size n : Nat} {s : ImgProcessState} (hs : ErasedFrom dst size n s w) :
    w.flash dst = (w.flash dst).take s.offset ++ blank (size - s.offset) := by
  rw [← hs.erased, List.take_append_drop]

theorem ErasedFrom.take_length {size n : Nat} {s : ImgProcessState}
    (hs : ErasedFrom dst size n s w) (hn : n ≤ size) :
    ((w.flash dst).take s.offset).length = s.offset := by
  have := hs.total
  rw [List.length_take, hs.length]
  omega

/-- A block with its padding fits a partition of whole words. -/
theorem OnWords.fits {size n : Nat} {s : ImgProcessState} (hs : OnWords n s) (hn : n ≤ size)
    (hsize : size % 4 = 0) (hrem : s.remLen > 0) :
    s.offset % 4 = 0 ∧ (s.len + padding s.len) % 4 = 0 ∧
      s.offset + (s.len + padding s.len) ≤ size := by
  obtain ⟨htotal, hword⟩ := hs
  have hoff : s.offset % 4 = 0 := hword.resolve_left (by omega)
  have hlen : s.len ≤ s.remLen := by
    unfold ImgProcessState.len
    by_cases hlong : s.remLen > tmpBufSize
    · rw [if_pos hlong]
      omega
    · exact Nat.le_of_eq (if_neg hlong)
  have hpad : s.len + padding s.len ≤ size - s.offset := padding_le (by omega) (by omega)
  exact ⟨hoff, padding_add _, by omega⟩

theorem exec_fsRead_flash (len : Nat) (w : World) :
    (P.exec (.fsRead hd len) w).2.flash = w.flash :=
  exec_flash_of_inspects P (o := .fsRead hd len) True.intro w

/-- A block that is written leaves the bytes behind it erased. -/
theorem erasedFrom_next {size n : Nat} {s : ImgProcessState} (hfa : fa.faId = dst) (hn : n ≤ size)
    (hsize : size % 4 = 0) (hs : ErasedFrom dst size n s w) {s' : ImgProcessState}
    (h : (P.run (imgProcessBody fa hd cbImgWrite s) w).1 = .inl s') :
    ErasedFrom dst size n s' (P.run (imgProcessBody fa hd cbImgWrite s) w).2 := by
  obtain ⟨hrem, rfl, b, hlen, hok, hend⟩ := imgProcessBody_inl P h
  obtain ⟨-, -, hfit⟩ := hs.toOnWords.fits hn hsize hrem
  have hread : (P.run (fsRead hd s.len) w).2.flash = w.flash := exec_fsRead_flash P s.len w
  rw [run_cbImgWrite, hfa, decide_eq_true_iff] at hok
  have hwritten := exec_write_success P hok
  have hdst : (P.run (imgProcessBody fa hd cbImgWrite s) w).2.flash dst =
      overlay (w.flash dst) s.offset (b ++ blank (padding s.len)) := by
    rw [hend, run_cbImgWrite, hfa, hwritten, hread]
  have htake := hs.take_length hn
  have hover : (P.run (imgProcessBody fa hd cbImgWrite s) w).2.flash dst =
      ((w.flash dst).take s.offset ++ b) ++ blank (size - s.offset - b.length) := by
    have hblock : overlay ((w.flash dst).take s.offset ++ blank (size - s.offset))
        ((w.flash dst).take s.offset).length (b ++ blank (padding s.len)) =
          (w.flash dst).take s.offset ++ b ++ blank (size - s.offset - b.length) :=
      overlay_blank (by omega)
    rw [htake, ← hs.split] at hblock
    rw [hdst, hblock]
  have hnext : s.next.offset = ((w.flash dst).take s.offset ++ b).length := by
    rw [List.length_append, htake, hlen]
    rfl
  refine ⟨(hs.toOnWords.next hrem).1, ?_, ?_⟩
  · rw [hdst, overlay_length, hs.length]
  · rw [hover, hnext, List.drop_left, List.length_append, htake, Nat.sub_sub]

/-- The write of a block is one the driver takes. -/
theorem along_body {size n : Nat} {s : ImgProcessState} (hfa : fa.faId = dst) (hn : n ≤ size)
    (hsize : size % 4 = 0) (hs : ErasedFrom dst size n s w) :
    Along (S := Api) P.exec (WritesErased dst) (imgProcessBody fa hd cbImgWrite s) w := by
  by_cases hrem : s.remLen > 0
  · rw [imgProcessBody_more cbImgWrite hrem, along_bind]
    refine ⟨⟨True.intro, True.intro⟩, ?_⟩
    cases (P.run (fsRead hd s.len) w).1 with
    | error e => exact along_ret _ _
    | ok b =>
      unfold blockStep
      dsimp only
      by_cases hlen : b.length = s.len
      · rw [if_neg (not_not.mpr hlen)]
        refine (along_bind _ _ _).mpr ⟨?_, ?_⟩
        · obtain ⟨hoff, hword, hfit⟩ := hs.toOnWords.fits hn hsize hrem
          refine (along_bind _ _ _).mpr ⟨(along_perform _ _).mpr ?_, along_ret _ _⟩
          have hdata : (b ++ blank (padding s.len)).length = s.len + padding s.len := by
            rw [List.length_append, hlen, blank_length]
          have hread : (P.run (fsRead hd s.len) w).2.flash = w.flash := exec_fsRead_flash P s.len w
          refine ⟨hfa, hoff, hdata ▸ hword, ?_, ?_⟩
          · rw [hread, hdata, hs.length]
            exact hfit
          · rw [hread, hdata, slice, hs.erased, blank, List.take_replicate, blank]
            congr 1
            omega
        · cases (P.run (cbImgWrite fa s.offset (b ++ blank (padding s.len)))
            (P.run (fsRead hd s.len) w).2).1 <;> exact along_ret _ _
      · rw [if_pos hlen]
        exact along_ret _ _
  · rw [imgProcessBody_done cbImgWrite hrem]
    exact along_ret _ _

/-- Every write of the run is one the driver takes, and no two of them overlap. -/
structure Orderly (dst : FaId) {α : Type} (p : Fw α) (w : World) : Prop where
  taken : Along (S := Api) P.exec (WritesErased dst) p w
  ordered : (writes P p w).Pairwise Before

theorem orderly_pure {α : Type} (a : α) (w : World) : Orderly P dst (pure a : Fw α) w :=
  ⟨along_ret a w, .nil⟩

/-- A call that writes nothing comes first. -/
theorem orderly_call {α : Type} {o : Op} {g : Op.Res o → Fw α} (hfree : ∀ w, WritesErased dst o w)
    (hnone : ∀ r, writtenRange ⟨o, r⟩ = none)
    (hg : Orderly P dst (g (P.exec o w).1) (P.exec o w).2) :
    Orderly P dst (Prog.perform (S := Api) o >>= g) w := by
  refine ⟨(along_bind _ _ _).mpr ⟨(along_perform _ _).mpr (hfree w), hg.taken⟩, ?_⟩
  rw [writes_bind]
  have hquiet : writes P (Prog.perform (S := Api) o) w = [] := by
    unfold writes
    rw [trace_perform, List.filterMap_cons_none (hnone _)]
    rfl
  rw [hquiet]
  exact hg.ordered

theorem orderly_blocks {n : Nat} (hfa : fa.faId = dst) (hn : n ≤ (w.flash dst).length)
    (hsize : (w.flash dst).length % 4 = 0)
    (herased : w.flash dst = blank (w.flash dst).length) :
    Orderly P dst (imgProcessBlocks fa hd cbImgWrite n) w := by
  have hstart : ErasedFrom dst (w.flash dst).length n { remLen := n, offset := 0 } w :=
    { total := Nat.zero_add n
      word := Or.inr rfl
      length := rfl
      erased := herased }
  have hclose : ∀ ok w', Orderly P dst (flashAreaClose fa.faId >>= fun _ => (pure ok : Fw Bool)) w' :=
    fun ok w' => orderly_call P (fun _ => True.intro) (fun _ => rfl) (orderly_pure P ok _)
  unfold imgProcessBlocks
  refine ⟨(along_bind _ _ _).mpr ⟨?_, (hclose _ _).taken⟩, ?_⟩
  · exact along_loop (fun s w' hs => along_body P hfa hn hsize hs)
      (fun s w' s' hs h => erasedFrom_next P hfa hn hsize hs h) _ _ _ hstart
  · have hpair : (writes P (Prog.loop (imgProcessBody fa hd cbImgWrite) false (n + 1)
        { remLen := n, offset := 0 }) w).Pairwise Before :=
      (writes_blocks P (n + 1) _ w hstart.toOnWords).2.2
    rw [writes_bind]
    have hquiet : ∀ ok w', writes P (flashAreaClose fa.faId >>= fun _ => (pure ok : Fw Bool)) w' =
        [] := fun _ _ => rfl
    rw [hquiet, List.append_nil]
    exact hpair

theorem exec_flashAreaOpen_ok (h : (P.exec (.flashAreaOpen dst) w).1 = .ok fa) :
    fa.faId = dst ∧ fa.faSize = (w.flash dst).length := by
  simp only [Platform.exec] at h
  cases hflt : (w.faults w.clock (.flashAreaOpen dst)).rc? with
  | some rc =>
    simp only [hflt] at h
    exact absurd h (by simp)
  | none =>
    simp only [hflt] at h
    obtain rfl := Except.ok.inj h
    exact ⟨rfl, rfl⟩

/-- An erase of the whole partition that reports success has been made. -/
theorem exec_erase_success
    (h : (P.exec (.flashAreaErase dst 0 (w.flash dst).length) w).1 = 0) :
    (P.exec (.flashAreaErase dst 0 (w.flash dst).length) w).2.flash dst =
      blank (w.flash dst).length := by
  simp only [Platform.exec] at h ⊢
  cases hflt : (w.faults w.clock (.flashAreaErase dst 0 (w.flash dst).length)).rc? with
  | some rc =>
    simp only [hflt] at h
    exact absurd h (rc?_ne_zero hflt)
  | none =>
    have hfit : 0 + (w.flash dst).length ≤ (w.tick.flash dst).length := by
      rw [Nat.zero_add]
      exact Nat.le_refl _
    simp only [if_pos hfit]
    show Function.update _ dst _ dst = _
    rw [Function.update_self]
    exact overlay_all (blank_length _)

/-- Every write of a copy is taken by the driver, and none overlaps another,
whatever fails. -/
theorem orderly_copy (hsize : (w.flash dst).length % 4 = 0) :
    Orderly P dst (mcubootImgOpCopy dst hd) w := by
  unfold mcubootImgOpCopy imgProcess
  refine orderly_call P (fun _ => True.intro) (fun _ => rfl) ?_
  cases hopen : (P.exec (.flashAreaOpen dst) w).1 with
  | error e => exact orderly_pure P false _
  | ok fa =>
    obtain ⟨hfa, hfaSize⟩ := exec_flashAreaOpen_ok P hopen
    have hflash := exec_flash_of_inspects P (o := .flashAreaOpen dst) True.intro w
    generalize (P.exec (.flashAreaOpen dst) w).2 = w₁ at hflash ⊢
    refine orderly_call P (fun _ => True.intro) (fun _ => rfl) ?_
    have hflash₂ := exec_flash_of_inspects P (o := .fsSeek hd 0 .fromEnd) True.intro w₁
    generalize P.exec (.fsSeek hd 0 .fromEnd) w₁ = r₂ at hflash₂ ⊢
    by_cases hrc : r₂.1 ≠ 0
    · rw [if_pos hrc]
      exact orderly_pure P false _
    · rw [if_neg hrc]
      refine orderly_call P (fun _ => True.intro) (fun _ => rfl) ?_
      have hflash₃ := exec_flash_of_inspects P (o := .fsTell hd) True.intro r₂.2
      generalize P.exec (.fsTell hd) r₂.2 = r₃ at hflash₃ ⊢
      refine orderly_call P (fun _ => True.intro) (fun _ => rfl) ?_
      have hflash₄ := exec_flash_of_inspects P (o := .fsSeek hd 0 .set) True.intro r₃.2
      generalize P.exec (.fsSeek hd 0 .set) r₃.2 = r₄ at hflash₄ ⊢
      have hsame : r₄.2.flash = w.flash := hflash₄.trans (hflash₃.trans (hflash₂.trans hflash))
      by_cases hrc : r₄.1 ≠ 0
      · rw [if_pos hrc]
        exact orderly_pure P false _
      · rw [if_neg hrc]
        by_cases hlong : toSizeT r₃.1 > fa.faSize
        · rw [if_pos hlong]
          exact orderly_pure P false _
        · rw [if_neg hlong, if_pos rfl, hfa, hfaSize]
          refine orderly_call P (fun _ => True.intro) (fun _ => rfl) ?_
          have herase : (P.exec (.flashAreaErase dst 0 (w.flash dst).length) r₄.2).1 = 0 →
              (P.exec (.flashAreaErase dst 0 (w.flash dst).length) r₄.2).2.flash dst =
                blank (w.flash dst).length := by
            rw [← hsame]
            exact exec_erase_success P
          generalize P.exec (.flashAreaErase dst 0 (w.flash dst).length) r₄.2 = r₅ at herase ⊢
          by_cases hrc : r₅.1 ≠ 0
          · rw [if_pos hrc]
            exact orderly_pure P false _
          · rw [if_neg hrc]
            have hblank := herase (not_not.mp hrc)
            have hlen : (r₅.2.flash dst).length = (w.flash dst).length := by
              rw [hblank, blank_length]
            refine orderly_blocks P hfa ?_ (hlen ▸ hsize) (by rw [hlen]; exact hblank)
            rw [hlen, ← hfaSize]
            exact Nat.le_of_not_lt hlong

/-! ## A file that is too long -/

variable {J : CopyJob}

theorem exec_fsSeek_success {pos pos' : Nat} (ht : w.opened = (J.hd, J.file pos) :: J.t)
    {off : Int} {whence : Whence} (hpos : (J.file pos).target off whence = some pos')
    (h : (P.exec (.fsSeek J.hd off whence) w).1 = 0) :
    (P.exec (.fsSeek J.hd off whence) w).2.opened = (J.hd, J.file pos') :: J.t := by
  have hrun := run_fsSeek_file P ht hpos
  rw [run_fsSeek] at hrun
  rw [hrun] at h ⊢
  cases hflt : (w.faults w.clock (.fsSeek J.hd off whence)).rc? with
  | some rc =>
    rw [hflt] at h
    exact absurd h (rc?_ne_zero hflt)
  | none => rfl

/-- A file that is longer than the partition leaves all partitions alone, at every
point of the run and whatever fails. -/
theorem triple_too_long (pos : Nat) (fl : FaId → Bytes) (erase : Bool) (cb : CbImgProcess)
    (hlong : (fl J.dst).length < J.d.bytes.length) :
    Triple (S := Api) P.exec (fun w => w.opened = (J.hd, J.file pos) :: J.t ∧ w.flash = fl)
      (imgProcess J.dst J.hd erase cb) (fun ok _ => ok = false) (fun w => w.flash = fl) := by
  have hkeep : ∀ {o : Op} {w : World}, o.inspects → w.flash = fl → (P.exec o w).2.flash = fl :=
    fun ho hw => (exec_flash_of_inspects P ho _).trans hw
  unfold imgProcess
  refine triple_bind (M := fun r w => (w.opened = (J.hd, J.file pos) :: J.t ∧ w.flash = fl) ∧
    ∀ fa, r = .ok fa → fa.faSize = (fl J.dst).length) (triple_perform ?_ ?_ ?_) (fun r => ?_)
  · intro w hw
    refine ⟨⟨?_, hkeep (o := .flashAreaOpen J.dst) True.intro hw.2⟩, fun fa hfa => ?_⟩
    · rw [← hw.1]
      simp only [Platform.exec]
      cases (w.faults w.clock (.flashAreaOpen J.dst)).rc? <;> rfl
    · rw [(exec_flashAreaOpen_ok P hfa).2, hw.2]
  · exact fun w hw => hw.2
  · exact fun w hw => hkeep (o := .flashAreaOpen J.dst) True.intro hw.2
  cases r with
  | error e => exact triple_ret (fun _ _ => rfl) (fun w hw => hw.1.2)
  | ok fa =>
    refine triple_assume (fun hfa => ?_)
    have hsize : fa.faSize = (fl J.dst).length := hfa fa rfl
    refine triple_bind (M := fun rc w => w.flash = fl ∧
      (rc = 0 → w.opened = (J.hd, J.file J.d.bytes.length) :: J.t))
      (triple_perform ?_ ?_ ?_) (fun rc => ?_)
    · intro w hw
      exact ⟨hkeep (o := .fsSeek J.hd 0 .fromEnd) True.intro hw.2,
        exec_fsSeek_success P hw.1 (CopyJob.target_end pos)⟩
    · exact fun w hw => hw.2
    · exact fun w hw => hkeep (o := .fsSeek J.hd 0 .fromEnd) True.intro hw.2
    refine triple_ite (fun _ => triple_ret (fun _ _ => rfl) (fun w hw => hw.1)) (fun hrc => ?_)
    refine triple_bind (M := fun size w => w.flash = fl ∧ size = (J.d.bytes.length : Int))
      (triple_perform ?_ ?_ ?_) (fun size => triple_assume (fun hlen => ?_))
    · intro w hw
      refine ⟨hkeep (o := .fsTell J.hd) True.intro hw.1, ?_⟩
      have htell := run_fsTell_head P (hw.2 (not_not.mp hrc))
      rw [run_fsTell] at htell
      rw [htell]
      rfl
    · exact fun w hw => hw.1
    · exact fun w hw => hkeep (o := .fsTell J.hd) True.intro hw.1
    subst hlen
    refine triple_bind (M := fun _ w => w.flash = fl) (triple_perform ?_ ?_ ?_) (fun rc => ?_)
    · exact fun w hw => hkeep (o := .fsSeek J.hd 0 .set) True.intro hw
    · exact fun w hw => hw
    · exact fun w hw => hkeep (o := .fsSeek J.hd 0 .set) True.intro hw
    refine triple_ite (fun _ => triple_ret (fun _ _ => rfl) (fun w hw => hw)) (fun _ => ?_)
    rw [if_pos (by rw [toSizeT_length, hsize]; exact hlong)]
    exact triple_ret (fun _ _ => rfl) (fun w hw => hw)

/-! ## The comparison -/

theorem within_cbImgCmp (fa : FlashArea) (off : Nat) (b : Bytes) :
    Issues Op.inspects (cbImgCmp fa off b) := by
  refine within_bind (issues_perform (.flashAreaRead fa.faId off b.length) True.intro) (fun r => ?_)
  cases r with
  | error e => exact within_ret _
  | ok c => exact within_ret _

/-- The comparison changes nothing durable. -/
theorem within_compare : Issues Op.inspects (mcubootImgOpCmp dst hd) := by
  unfold mcubootImgOpCmp imgProcess
  refine within_bind (issues_perform (.flashAreaOpen dst) True.intro) (fun r => ?_)
  cases r with
  | error e => exact within_ret _
  | ok fa =>
    refine within_bind (issues_perform (.fsSeek hd 0 .fromEnd) True.intro)
      (fun rc => within_ite (within_ret _) ?_)
    refine within_bind (issues_perform (.fsTell hd) True.intro) (fun size => ?_)
    refine within_bind (issues_perform (.fsSeek hd 0 .set) True.intro)
      (fun rc => within_ite (within_ret _) (within_ite (within_ret _) ?_))
    rw [if_neg Bool.false_ne_true]
    refine within_bind (within_loop (fun s => ?_) _ _ _)
      (fun ok => within_bind (issues_perform (.flashAreaClose fa.faId) True.intro)
        (fun _ => within_ret _))
    refine within_ite (within_bind (issues_perform (.fsRead hd _) True.intro) (fun b => ?_))
      (within_ret _)
    cases b with
    | error e => exact within_ret _
    | ok b =>
      exact within_ite (within_ret _) (within_bind (within_cbImgCmp fa _ _)
        (fun ok => within_ite (within_ret _) (within_ret _)))

/-- A file padded to whole words. -/
def padded (d : FileData) : Bytes := d.bytes ++ blank (padding d.bytes.length)

theorem padded_length (d : FileData) :
    (padded d).length = d.bytes.length + padding d.bytes.length := by
  unfold padded
  rw [List.length_append, blank_length]

/-- What lies from block `i` on is the block, with its padding, and what lies
behind it. -/
theorem CopyJob.drop_block {i : Nat} (hi : tmpBufSize * i < J.d.bytes.length) {b : Bytes}
    (hb : b.length = (padded J.d).length) :
    b.drop (tmpBufSize * i) =
      slice b (tmpBufSize * i) (J.block i).length ++ b.drop (tmpBufSize * (i + 1)) := by
  rw [padded_length] at hb
  rw [J.block_length i hi]
  have hsplit : b.drop (tmpBufSize * i) =
      slice b (tmpBufSize * i) (J.blockLen i + padding (J.blockLen i)) ++
        b.drop (tmpBufSize * i + (J.blockLen i + padding (J.blockLen i))) := by
    rw [slice, ← List.drop_drop, List.take_append_drop]
  rw [hsplit]
  congr 1
  by_cases hlast : J.d.bytes.length ≤ tmpBufSize * i + tmpBufSize
  · have hend : ∀ k, J.d.bytes.length + padding J.d.bytes.length ≤ k → b.drop k = [] :=
      fun k hk => List.drop_of_length_le (by omega)
    have hword : J.d.bytes.length + padding J.d.bytes.length ≤ tmpBufSize * (i + 1) := by
      refine padding_le ?_ ?_ <;> unfold tmpBufSize at * <;> omega
    have hthis : (tmpBufSize * i + J.blockLen i + padding (J.blockLen i)) =
        J.d.bytes.length + padding J.d.bytes.length := by
      have hlen : J.blockLen i = J.d.bytes.length - tmpBufSize * i := Nat.min_eq_right (by omega)
      have hmod : (J.d.bytes.length - tmpBufSize * i) % 4 = J.d.bytes.length % 4 := by
        unfold tmpBufSize at *
        omega
      rw [hlen, padding, hmod, padding]
      omega
    rw [hend _ (by omega), hend _ hword]
  · have hlen : J.blockLen i = tmpBufSize := Nat.min_eq_left (by omega)
    have hpad : padding tmpBufSize = 0 := by decide
    rw [hlen, hpad]
    congr 1

/-- Block `i` as it is processed is a range of the padded file. -/
theorem CopyJob.block_eq_slice {i : Nat} (hi : tmpBufSize * i < J.d.bytes.length) :
    J.block i = slice (padded J.d) (tmpBufSize * i) (J.block i).length := by
  rw [J.block_length i hi]
  unfold CopyJob.block padded
  by_cases hlast : J.d.bytes.length ≤ tmpBufSize * i + tmpBufSize
  · have hlen : J.blockLen i = J.d.bytes.length - tmpBufSize * i := Nat.min_eq_right (by omega)
    have hmod : (J.d.bytes.length - tmpBufSize * i) % 4 = J.d.bytes.length % 4 := by
      unfold tmpBufSize at *
      omega
    have hpad : padding (J.d.bytes.length - tmpBufSize * i) = padding J.d.bytes.length := by
      rw [padding, hmod, padding]
    rw [hlen, hpad, slice, slice, List.drop_append_of_le_length (Nat.le_of_lt hi)]
    have hrest : (J.d.bytes.drop (tmpBufSize * i)).length = J.d.bytes.length - tmpBufSize * i :=
      List.length_drop
    have hall : (J.d.bytes.drop (tmpBufSize * i) ++ blank (padding J.d.bytes.length)).length =
        J.d.bytes.length - tmpBufSize * i + padding J.d.bytes.length := by
      rw [List.length_append, hrest, blank_length]
    rw [List.take_of_length_le (Nat.le_of_eq hrest), List.take_of_length_le (Nat.le_of_eq hall)]
  · have hlen : J.blockLen i = tmpBufSize := Nat.min_eq_left (by omega)
    have hpad : padding tmpBufSize = 0 := by decide
    rw [hlen, hpad, Nat.add_zero, slice_append_left _ (by omega)]
    exact List.append_nil _

theorem run_cbImgCmp (hw : Reliable w) {off : Nat} {b : Bytes}
    (hfit : off + b.length ≤ (w.flash fa.faId).length) :
    P.run (cbImgCmp fa off b) w =
      (decide (b = slice (w.flash fa.faId) off b.length), w.tick) := by
  have hread : P.run (flashAreaRead fa.faId off b.length) w =
      (.ok (slice (w.flash fa.faId) off b.length), w.tick) := by
    rw [run_flashAreaRead]
    simp only [Platform.exec, hw.rc?, World.tick_flash]
    exact if_pos hfit
  unfold cbImgCmp
  rw [P.run_bind_of hread]
  rfl

theorem CopyJob.block_inside {i : Nat} (hi : tmpBufSize * i < J.d.bytes.length) :
    tmpBufSize * i + (J.block i).length ≤ (padded J.d).length := by
  have hle : (slice (padded J.d) (tmpBufSize * i) (J.block i).length).length ≤
      (padded J.d).length - tmpBufSize * i := by
    rw [slice_length]
    exact Nat.min_le_right _ _
  rw [← J.block_eq_slice hi] at hle
  have := padded_length J.d
  omega

/-- One block is compared with the partition. -/
theorem run_compare_block {i : Nat} (hi : tmpBufSize * i < J.d.bytes.length)
    (hfa : fa.faId = J.dst) (hfit : (padded J.d).length ≤ (w.flash J.dst).length)
    (hw : Reliable w) (ht : w.opened = (J.hd, J.file (tmpBufSize * i)) :: J.t) :
    P.run (imgProcessBody fa J.hd cbImgCmp (J.state i)) w =
      (if J.block i = slice (w.flash J.dst) (tmpBufSize * i) (J.block i).length
        then .inl (J.state (i + 1)) else .inr false, (J.afterRead i w).tick) := by
  have hread := run_fsRead_head P hw ht (J.blockLen i)
  have hlen : (J.state i).len = J.blockLen i := J.state_blockLen i
  have hnext : (J.state i).next = J.state (i + 1) := by
    rw [← J.state_succ hi, ← hlen]
    rfl
  have hworld : w.tick.setOpened ((J.hd, { J.file (tmpBufSize * i) with
      pos := tmpBufSize * i + (slice J.d.bytes (tmpBufSize * i) (J.blockLen i)).length }) :: J.t) =
        J.afterRead i w := by
    rw [J.slice_block i]
    rfl
  have hin := J.block_inside hi
  have hcmp : P.run (cbImgCmp fa (tmpBufSize * i) (J.block i)) (J.afterRead i w) =
      (decide (J.block i = slice (w.flash J.dst) (tmpBufSize * i) (J.block i).length),
        (J.afterRead i w).tick) := by
    rw [← hfa] at hfit ⊢
    exact run_cbImgCmp P (hw.tick.setOpened _) (Nat.le_trans hin hfit)
  rw [imgProcessBody_more cbImgCmp (J.remLen_pos hi), hlen, P.run_bind_of hread]
  unfold blockStep
  dsimp only [CopyJob.file] at hworld ⊢
  rw [hworld, hlen, if_neg (not_not.mpr (J.slice_block i)), J.state_offset hi, hnext]
  have hpadded : slice J.d.bytes (tmpBufSize * i) (J.blockLen i) ++ blank (padding (J.blockLen i)) =
      J.block i := rfl
  rw [hpadded, P.run_bind_of hcmp]
  by_cases heq : J.block i = slice (w.flash J.dst) (tmpBufSize * i) (J.block i).length
  · rw [decide_eq_true heq, if_neg (by decide), if_pos heq]
    rfl
  · rw [decide_eq_false heq, if_pos rfl, if_neg heq]
    rfl

/-- The comparison from block `i` on. -/
theorem run_compare_blocks (hfa : fa.faId = J.dst) {c : Bytes}
    (hfit : (padded J.d).length ≤ c.length) (fuel : Nat) :
    ∀ i w, Reliable w → w.opened = (J.hd, J.file (min (tmpBufSize * i) J.d.bytes.length)) :: J.t →
      w.flash J.dst = c → J.d.bytes.length - tmpBufSize * i < fuel →
      ((P.run (Prog.loop (imgProcessBody fa J.hd cbImgCmp) false fuel (J.state i)) w).1 = true ↔
        (c.take (padded J.d).length).drop (tmpBufSize * i) =
          (padded J.d).drop (tmpBufSize * i)) := by
  induction fuel with
  | zero => exact fun i w _ _ _ hfuel => absurd hfuel (Nat.not_lt_zero _)
  | succ fuel ih =>
    intro i w hw ht hc hfuel
    show (P.run (imgProcessBody fa J.hd cbImgCmp (J.state i) >>= _) w).1 = true ↔ _
    by_cases hi : tmpBufSize * i < J.d.bytes.length
    · rw [Nat.min_eq_left (Nat.le_of_lt hi)] at ht
      have hin := J.block_inside hi
      have hlen : (c.take (padded J.d).length).length = (padded J.d).length := by
        rw [List.length_take, Nat.min_eq_left hfit]
      have hinner : slice (c.take (padded J.d).length) (tmpBufSize * i) (J.block i).length =
          slice c (tmpBufSize * i) (J.block i).length := slice_take hin
      have hbody := run_compare_block P hi hfa (by rw [hc]; exact hfit) hw ht
      rw [P.run_bind_of hbody, J.drop_block hi hlen, J.drop_block hi rfl, hinner,
        ← J.block_eq_slice hi, hc]
      by_cases heq : J.block i = slice c (tmpBufSize * i) (J.block i).length
      · rw [if_pos heq]
        have hnext : min (tmpBufSize * (i + 1)) J.d.bytes.length = tmpBufSize * i + J.blockLen i := by
          unfold CopyJob.blockLen tmpBufSize at *
          omega
        have hrest := ih (i + 1) (J.afterRead i w).tick (hw.tick.setOpened _).tick
          (by rw [hnext]; rfl) hc (by unfold tmpBufSize at *; omega)
        refine hrest.trans ⟨fun h => ?_, fun h => ?_⟩
        · rw [h, ← heq]
        · exact (List.append_inj h (by rw [← heq])).2
      · rw [if_neg heq]
        refine ⟨fun h => absurd (show false = true from h) (by decide), fun h => absurd ?_ heq⟩
        have hblock : (slice c (tmpBufSize * i) (J.block i).length).length = (J.block i).length :=
          slice_length_of_le (by omega)
        exact (List.append_inj h hblock).1.symm
    · have hrem : ¬ (J.state i).remLen > 0 := by
        unfold CopyJob.state
        dsimp only
        omega
      have hword : (padded J.d).length ≤ tmpBufSize * i := by
        rw [padded_length]
        exact padding_le (Nat.le_of_not_lt hi) (by unfold tmpBufSize; omega)
      rw [imgProcessBody_done cbImgCmp hrem, List.drop_of_length_le hword,
        List.drop_of_length_le (by rw [List.length_take]; omega)]
      exact ⟨fun _ => rfl, fun _ => rfl⟩

/-- When nothing fails, the comparison succeeds exactly on a partition that starts
with the padded file. -/
theorem run_compare (hw : Reliable w) {pos : Nat} (ht : w.opened = (J.hd, J.file pos) :: J.t)
    (hsize : (w.flash J.dst).length % 4 = 0) :
    (P.run (mcubootImgOpCmp J.dst J.hd) w).1 = true ↔
      J.d.bytes.length ≤ (w.flash J.dst).length ∧
        (w.flash J.dst).take (padded J.d).length = padded J.d := by
  obtain ⟨fa, hfa, hfaSize, hopen⟩ : ∃ fa : FlashArea, fa.faId = J.dst ∧
      fa.faSize = (w.flash J.dst).length ∧ P.run (flashAreaOpen J.dst) w = (.ok fa, w.tick) := by
    refine ⟨{ faId := J.dst, faOff := P.faOff J.dst, faSize := (w.flash J.dst).length }, rfl, rfl, ?_⟩
    rw [run_flashAreaOpen]
    simp only [Platform.exec, hw.rc?, World.tick_flash]
  have hseekEnd : P.run (fsSeek J.hd 0 .fromEnd) w.tick =
      (0, w.tick.tick.setOpened ((J.hd, J.file J.d.bytes.length) :: J.t)) :=
    run_fsSeek_head P hw.tick (show w.tick.opened = _ from ht) (CopyJob.target_end pos)
  have htell := run_fsTell_head P (w := w.tick.tick.setOpened
    ((J.hd, J.file J.d.bytes.length) :: J.t)) rfl
  have hseekStart := run_fsSeek_head P (w := (w.tick.tick.setOpened
    ((J.hd, J.file J.d.bytes.length) :: J.t)).tick) (hw.tick.tick.setOpened _).tick rfl
      (CopyJob.target_start J.d.bytes.length)
  show (P.run (imgProcess J.dst J.hd false cbImgCmp) w).1 = true ↔ _
  unfold imgProcess
  rw [P.run_bind_of hopen]
  dsimp only
  rw [P.run_bind_of hseekEnd, if_neg (by decide), P.run_bind_of htell, P.run_bind_of hseekStart,
    if_neg (by decide), show (J.file J.d.bytes.length).pos = J.d.bytes.length from rfl,
    toSizeT_length, hfaSize]
  by_cases hlong : J.d.bytes.length > (w.flash J.dst).length
  · rw [if_pos hlong]
    exact ⟨fun h => absurd h (by simp), fun h => absurd h.1 (Nat.not_le.mpr hlong)⟩
  · have hle : J.d.bytes.length ≤ (w.flash J.dst).length := Nat.le_of_not_lt hlong
    have hfit : (padded J.d).length ≤ (w.flash J.dst).length := by
      rw [padded_length]
      exact padding_le hle hsize
    rw [if_neg hlong, if_neg Bool.false_ne_true]
    unfold imgProcessBlocks
    rw [P.run_bind]
    have hblocks := run_compare_blocks P hfa hfit (J.d.bytes.length + 1) 0
        ((w.tick.tick.setOpened ((J.hd, J.file J.d.bytes.length) :: J.t)).tick.tick.setOpened
          ((J.hd, J.file 0) :: J.t)) ((hw.tick.tick.setOpened _).tick.tick.setOpened _)
        (by rw [Nat.mul_zero, Nat.zero_min]; rfl) rfl (by omega)
    rw [J.state_zero, Nat.mul_zero, List.drop_zero, List.drop_zero] at hblocks
    exact hblocks.trans ⟨fun h => ⟨hle, h⟩, fun h => h.2⟩

/-! ## Copy and comparison together -/

/-- A copy of a file that is too long changes nothing and fails; one that succeeds
leaves the file followed by erased bytes; its writes are orderly.  The comparison
changes nothing, and succeeds exactly on a partition that starts with the padded
file: in particular behind a copy that has succeeded. -/
theorem copy_and_compare (dst : FaId) (hd : Handle) (f : UpdateFile) (d : FileData) (pos : Nat)
    (t : List (Handle × OpenFile)) (w : World)
    (ht : w.opened = (hd, { name := f, data := d, pos := pos }) :: t)
    (hsize : (w.flash dst).length % 4 = 0) :
    let copy := mcubootImgOpCopy dst hd
    let cmp := mcubootImgOpCmp dst hd
    let size := (w.flash dst).length
    (size < d.bytes.length → (P.run copy w).1 = false ∧
        ∀ w', Reaches (S := Api) P.exec copy w w' → w'.flash = w.flash) ∧
      ((P.run copy w).1 = true →
        (P.run copy w).2.flash dst = d.bytes ++ blank (size - d.bytes.length)) ∧
      (Along (S := Api) P.exec (WritesErased dst) copy w ∧ (writes P copy w).Pairwise Before) ∧
      (∀ w', Reaches (S := Api) P.exec cmp w w' → w'.flash = w.flash) ∧
      (Reliable w → ((P.run cmp w).1 = true ↔
        d.bytes.length ≤ size ∧ (w.flash dst).take (padded d).length = padded d)) ∧
      ((P.run copy w).1 = true → ∀ v pos' t', Reliable v →
        v.opened = (hd, { name := f, data := d, pos := pos' }) :: t' →
          v.flash dst = (P.run copy w).2.flash dst → (P.run cmp v).1 = true) := by
  intro copy cmp size
  let job (t' : List (Handle × OpenFile)) : CopyJob :=
    { f := f, hd := hd, t := t', d := d, dst := dst, size := size, faults := w.faults }
  obtain ⟨hiff, hresult⟩ := run_copy P (J := job t) (w := w) ht rfl rfl
  have horderly : Orderly P dst copy w := orderly_copy P hsize
  refine ⟨fun hlong => ?_, hresult, ⟨horderly.taken, horderly.ordered⟩, ?_, fun hw => ?_,
    fun hok v pos' t' hv ht' hflash => ?_⟩
  · obtain ⟨hquiet, hfalse⟩ := triple_too_long P (J := job t) pos w.flash true cbImgWrite hlong w
      ⟨ht, rfl⟩
    exact ⟨hfalse, hquiet⟩
  · intro w' hr
    have hcmp : Issues Op.inspects cmp := within_compare
    exact hcmp.reaches_eq (exec_answers P) (f := World.flash)
      (fun o w ho => exec_flash_of_inspects P ho w) hr
  · exact run_compare P (J := job t) hw ht hsize
  · have hfits : d.bytes.length ≤ size := by
      have hpadded : d.bytes.length + padding d.bytes.length ≤ size := (hiff.mp hok).1
      omega
    have hcontent : v.flash dst = d.bytes ++ blank (size - d.bytes.length) :=
      hflash.trans (hresult hok)
    have hlen : (v.flash dst).length = size := by
      rw [hcontent, List.length_append, blank_length]
      omega
    have hpad := padding_le hfits hsize
    refine (run_compare P (J := job t') hv ht' (hlen ▸ hsize)).mpr ⟨hlen ▸ hfits, ?_⟩
    show (v.flash dst).take (padded d).length = padded d
    have hrest : blank (size - d.bytes.length) =
        blank (padding d.bytes.length) ++ blank (size - (padded d).length) := by
      rw [blank, blank, blank, List.replicate_append_replicate, padded_length]
      congr 1
      omega
    rw [hcontent, hrest, ← List.append_assoc]
    exact List.take_left

namespace Reference

/-- A boot in which the file with three bytes behind its TLV area is open. -/
def bootWithOpen (d : FileData) : World :=
  (bootWith d).setOpened [(0, { name := .app, data := d, pos := 0 })]

end Reference

/-- The copy of the file succeeds, and the comparison behind it too. -/
theorem trailingFile_copy_and_compare :
    ((Reference.platform 8).run (mcubootImgOpCopy .mcubootPrimary 0)
        (Reference.bootWithOpen Reference.trailingFile)).1 = true ∧
      ∀ v pos' t', Reliable v →
        v.opened = (0, { name := .app, data := Reference.trailingFile, pos := pos' }) :: t' →
        v.flash .mcubootPrimary =
          ((Reference.platform 8).run (mcubootImgOpCopy .mcubootPrimary 0)
            (Reference.bootWithOpen Reference.trailingFile)).2.flash .mcubootPrimary →
        ((Reference.platform 8).run (mcubootImgOpCmp .mcubootPrimary 0) v).1 = true := by
  have hok : ((Reference.platform 8).run (mcubootImgOpCopy .mcubootPrimary 0)
      (Reference.bootWithOpen Reference.trailingFile)).1 = true := by
    decide +kernel
  obtain ⟨-, -, -, -, -, hcmp⟩ := copy_and_compare (Reference.platform 8) .mcubootPrimary 0 .app
    Reference.trailingFile 0 [] (Reference.bootWithOpen Reference.trailingFile) rfl
      (by decide +kernel)
  exact ⟨hok, hcmp hok⟩

end RuuviMcuboot
