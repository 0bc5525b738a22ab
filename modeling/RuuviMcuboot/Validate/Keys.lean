/-
Selection of a key by its hash.

A key-hash TLV is compared with the hash of each key over the length that the TLV
declares.  So it selects the first key whose hash starts with the payload, which is the
key that the payload is the hash of exactly if no shorter payload starts a hash.
-/
import RuuviMcuboot.Validate.Inside

namespace RuuviMcuboot

open Binary Effect

variable (P : Platform) {hd : Handle} {w : World} {f : OpenFile} {d : FileData}

/-- The key id for a payload: an index if the payload is the complete hash of that key
and of none before it, and -1 if it is the complete hash of no key. -/
structure SelectedByHash (payload : Bytes) (k : Int) : Prop where
  index : ∀ i : Nat, k = i → ∃ key, P.bootutilKeys[i]? = some key ∧
    P.sha.digest key = payload ∧
      ∀ j key', j < i → P.bootutilKeys[j]? = some key' → P.sha.digest key' ≠ payload
  none : (∀ key ∈ P.bootutilKeys, P.sha.digest key ≠ payload) → k = -1
  range : -1 ≤ k

/-- Only a payload of full length starts the hash of a key. -/
def NoPartialHash (payload : Bytes) : Prop :=
  ∀ key ∈ P.bootutilKeys, payload <+: P.sha.digest key → payload.length = P.imageHashSize

instance (payload : Bytes) : Decidable (NoPartialHash P payload) :=
  inferInstanceAs (Decidable (∀ _ ∈ _, _))

/-! ## The search in the key table -/

theorem take_eq_iff_prefix {a b : Bytes} : a.take b.length = b ↔ b <+: a := by
  rw [List.prefix_iff_eq_take]
  exact eq_comm

/-- The search stops at the first key whose hash starts with the payload. -/
theorem fileImgFindKeyFrom_spec {payload : Bytes} {len : UInt8} (hlen : len.toNat = payload.length)
    (keys : List Bytes) (i : Int) :
    (∃ j key, keys[j]? = some key ∧ payload <+: P.sha.digest key ∧
      (∀ j' key', j' < j → keys[j']? = some key' → ¬ payload <+: P.sha.digest key') ∧
        fileImgFindKeyFrom P payload len keys i = i + (j : Nat)) ∨
    (∀ key ∈ keys, ¬ payload <+: P.sha.digest key) ∧
      fileImgFindKeyFrom P payload len keys i = -1 := by
  induction keys generalizing i with
  | nil => exact Or.inr ⟨fun key h => absurd h (by simp), rfl⟩
  | cons key rest ih =>
    have hmatch : (P.sha.digest key).take len.toNat = payload.take len.toNat ↔
        payload <+: P.sha.digest key := by
      rw [hlen, List.take_length, take_eq_iff_prefix]
    unfold fileImgFindKeyFrom
    by_cases hkey : payload <+: P.sha.digest key
    · rw [if_pos (hmatch.mpr hkey)]
      exact Or.inl ⟨0, key, rfl, hkey, fun j' key' h => absurd h (Nat.not_lt_zero _), by simp⟩
    · rw [if_neg (fun h => hkey (hmatch.mp h))]
      rcases ih (i + 1) with ⟨j, k, hj, hk, hfirst, hres⟩ | ⟨hnone, hres⟩
      · refine Or.inl ⟨j + 1, k, hj, hk, fun j' key' hlt hj' => ?_, ?_⟩
        · cases j' with
          | zero =>
            obtain rfl : key = key' := Option.some.inj hj'
            exact hkey
          | succ j' => exact hfirst j' key' (Nat.lt_of_succ_lt_succ hlt) hj'
        · rw [hres]
          omega
      · exact Or.inr ⟨List.forall_mem_cons.mpr ⟨hkey, hnone⟩, hres⟩

/-- The whole search, for a payload that the buffer holds. -/
theorem fileImgFindKey_eq {payload : Bytes} {len : UInt16} (hlen : payload.length = len.toNat)
    (hsize : len.toNat ≤ P.imageHashSize) :
    len.toUInt8.toNat = payload.length ∧ fileImgFindKey P payload len.toUInt8 =
      fileImgFindKeyFrom P payload len.toUInt8 P.bootutilKeys 0 := by
  have hmax : P.imageHashSize ≤ 64 := HashAlg.imageHashSize_le _
  have hlen₈ : len.toUInt8.toNat = len.toNat := by
    rw [UInt16.toNat_toUInt8, Nat.mod_eq_of_lt (by omega)]
  refine ⟨hlen₈.trans hlen.symm, ?_⟩
  unfold fileImgFindKey
  rw [hlen₈, if_neg (by omega)]

/-- The search selects by the complete hash exactly if no shorter payload starts one. -/
theorem fileImgFindKey_selected_iff {payload : Bytes} {len : UInt16}
    (hlen : payload.length = len.toNat) (hsize : len.toNat ≤ P.imageHashSize) :
    SelectedByHash P payload (fileImgFindKey P payload len.toUInt8) ↔ NoPartialHash P payload := by
  obtain ⟨hlen₈, hfind⟩ := fileImgFindKey_eq P hlen hsize
  have hdigest : ∀ key, (P.sha.digest key).length = P.imageHashSize := P.sha.digest_length
  have hspec := fileImgFindKeyFrom_spec P hlen₈ P.bootutilKeys 0
  rw [hfind]
  constructor
  · intro hsel key hmem hprefix
    rcases hspec with ⟨j, k, hj, hk, -, hres⟩ | ⟨hnone, -⟩
    · obtain ⟨k', hk', heq, -⟩ := hsel.index j (hres.trans (Int.zero_add _))
      rw [← heq, hdigest]
    · exact absurd hprefix (hnone key hmem)
  · intro hfull
    -- among full-length payloads to start a hash is to be one
    have hiff : ∀ key ∈ P.bootutilKeys, (payload <+: P.sha.digest key ↔ P.sha.digest key = payload) := by
      intro key hmem
      refine ⟨fun h => ?_, fun h => h ▸ List.prefix_rfl⟩
      exact (h.eq_of_length ((hfull key hmem h).trans (hdigest key).symm)).symm
    rcases hspec with ⟨j, key, hj, hkey, hfirst, hres⟩ | ⟨hnone, hres⟩
    · have hmem := List.mem_of_getElem? hj
      rw [hres]
      refine ⟨fun i hi => ?_, fun h => absurd ((hiff key hmem).mp hkey) (h key hmem), by omega⟩
      obtain rfl : j = i := by omega
      refine ⟨key, hj, (hiff key hmem).mp hkey, fun j' key' hlt hj' heq => ?_⟩
      exact hfirst j' key' hlt hj' ((hiff key' (List.mem_of_getElem? hj')).mpr heq)
    · rw [hres]
      exact ⟨fun i hi => by omega, fun _ => rfl, Int.le_refl _⟩

/-! ## The TLV -/

/-- What is loaded is what the file holds. -/
theorem run_loadImageData_ok (hf : lookupFile hd w.opened = some f) {start : UInt32} {size : Nat}
    {b : Bytes} (h : (P.run (loadImageData hd start size) w).1 = .ok b) :
    b = slice f.data.bytes start.toNat size ∧ b.length = size := by
  have hw : Reading False hd f.data w := ⟨fun h => h.elim, f, hf, rfl⟩
  rcases (loadImageData_returns P start size w hw).2 with hrun | ⟨-, rc, hrun⟩
  · exact loadBytes_ok (hrun.symm.trans h)
  · rw [hrun] at h
    exact absurd h (by simp)

/-- The key id is the outcome of the search for what was read. -/
theorem run_expectedKey (hf : lookupFile hd w.opened = some f) (tlv : FoundTlv) :
    let payload := slice f.data.bytes tlv.off.toNat tlv.len.toNat
    let loads := (P.run (loadImageData hd tlv.off tlv.len.toNat) w).1 = .ok payload
    ((P.run (fileImageValidateTlvExpectedKey P hd tlv) w).1 = none ∧
      (tlv.len.toNat ≤ P.imageHashSize → ¬ loads)) ∨
    tlv.len.toNat ≤ P.imageHashSize ∧ loads ∧ payload.length = tlv.len.toNat ∧
      (P.run (fileImageValidateTlvExpectedKey P hd tlv) w).1 =
        some (fileImgFindKey P payload tlv.len.toUInt8) := by
  intro payload loads
  unfold fileImageValidateTlvExpectedKey
  by_cases hlen : tlv.len.toNat > P.imageHashSize
  · rw [if_pos hlen]
    exact Or.inl ⟨rfl, fun h => absurd hlen (Nat.not_lt.mpr h)⟩
  · rw [if_neg hlen, P.run_bind]
    cases hload : (P.run (loadImageData hd tlv.off tlv.len.toNat) w).1 with
    | error rc =>
      exact Or.inl ⟨rfl, fun _ h => absurd (hload.symm.trans h) (by simp)⟩
    | ok b =>
      obtain ⟨rfl, hfull⟩ := run_loadImageData_ok P hf hload
      exact Or.inr ⟨Nat.not_lt.mp hlen, hload, hfull, rfl⟩

/-- A key-hash TLV selects a key. -/
theorem run_validateTlv_keyhash (hash : Bytes) (st : ValidateState) {w : World}
    (hrc : (P.run (fileTlvIterNext hd st.it) w).1.rc = 0)
    (htype : (P.run (fileTlvIterNext hd st.it) w).1.found.type = IMAGE_TLV_KEYHASH) :
    let n := P.run (fileTlvIterNext hd st.it) w
    (P.run (fileImageValidateTlv P hd hash st) w).1 =
      (P.run (do
        match ← fileImageValidateTlvExpectedKey P hd n.1.found with
        | none => return (-1, { st with it := n.1.it })
        | some keyId => return (0, { st with it := n.1.it, keyId := keyId })) n.2).1 := by
  intro n
  obtain ⟨hkeyhash, -, -⟩ := P.tlvs_distinct
  have hrogue : ¬ (P.allowRogueTlvs = false ∧ fileTlvIterIsProt n.1.it n.1.found.off = false ∧
      n.1.found.type ∉ allowedUnprotTlvs) := fun h => h.2.2 (htype ▸ by decide)
  show (P.run (fileTlvIterNext hd st.it >>= _) w).1 = _
  rw [P.run_bind]
  show (P.run (if n.1.rc ≠ 0 then _ else if _ then _ else if _ then _ else if _ then _ else _)
    n.2).1 = _
  rw [if_neg (not_not.mpr hrc), if_neg hrogue, if_neg (fun h => hkeyhash (h.symm.trans htype))]
  exact congrArg (fun p : Fw (Int × ValidateState) => (P.run p n.2).1) (if_pos htype)

/-- A key-hash TLV that is processed leaves the key that its payload is the hash of, and
none if there is no such key, exactly if its payload, when it is read, starts no hash
that it is not.  In the loop this holds of the key id that is kept, whatever it was
before. -/
theorem keySelection_iff (hf : lookupFile hd w.opened = some f) :
    (∀ tlv, let payload := slice f.data.bytes tlv.off.toNat tlv.len.toNat
      ((∀ k, (P.run (fileImageValidateTlvExpectedKey P hd tlv) w).1 = some k →
          SelectedByHash P payload k) ↔
        (tlv.len.toNat ≤ P.imageHashSize →
          (P.run (loadImageData hd tlv.off tlv.len.toNat) w).1 = .ok payload →
            NoPartialHash P payload))) ∧
    ∀ hash st, let n := P.run (fileTlvIterNext hd st.it) w
      let payload := slice f.data.bytes n.1.found.off.toNat n.1.found.len.toNat
      let r := (P.run (fileImageValidateTlv P hd hash st) w).1
      n.1.rc = 0 → n.1.found.type = IMAGE_TLV_KEYHASH →
        ((r.1 = 0 → SelectedByHash P payload r.2.keyId) ↔
          (n.1.found.len.toNat ≤ P.imageHashSize →
            (P.run (loadImageData hd n.1.found.off n.1.found.len.toNat) n.2).1 = .ok payload →
              NoPartialHash P payload)) := by
  constructor
  · intro tlv payload
    rcases run_expectedKey P hf tlv with ⟨hrun, hnot⟩ | ⟨hlen, hload, hfull, hrun⟩
    · rw [hrun]
      exact ⟨fun _ hlen hload => absurd hload (hnot hlen), fun _ k h => absurd h (by simp)⟩
    · rw [hrun]
      have hiff := fileImgFindKey_selected_iff P hfull hlen
      constructor
      · exact fun h _ _ => hiff.mp (h _ rfl)
      · intro h k hk
        exact Option.some.inj hk ▸ hiff.mpr (h hlen hload)
  · intro hash st n payload r hrc htype
    have hreading : Reading False hd f.data w := ⟨fun h => h.elim, f, hf, rfl⟩
    obtain ⟨f', hf', hdata⟩ := (iterNext_returns P st.it w hreading).1.isOpen
    have hr : r = _ := run_validateTlv_keyhash P hash st hrc htype
    have hfailed : ¬ (-1 : Int) = 0 := by decide
    have hpayload : payload = slice f'.data.bytes n.1.found.off.toNat n.1.found.len.toNat := by
      rw [hdata]
    rw [hr, P.run_bind, hpayload]
    rcases run_expectedKey P hf' n.1.found with ⟨hrun, hnot⟩ | ⟨hlen, hload, hfull, hrun⟩
    · rw [hrun]
      exact ⟨fun _ hlen hload => absurd hload (hnot hlen), fun _ h => absurd h hfailed⟩
    · rw [hrun]
      have hiff := fileImgFindKey_selected_iff P hfull hlen
      exact ⟨fun h _ _ => hiff.mp (h rfl), fun h _ => hiff.mpr (h hlen hload)⟩

/-! ## An empty payload -/

namespace Reference

/-- A key-hash TLV with nothing in it. -/
def emptyKeyTlv : Tlv := { type := IMAGE_TLV_KEYHASH, payload := [], payload_lt := Tlv.nil_lt }

/-- The signed image with an empty key hash. -/
def emptyKeyFile : FileData where
  bytes := imageBytes (imageBody 1 0x1000) none
    [digestTlv (imageBody 1 0x1000), emptyKeyTlv, sigTlv (imageBody 1 0x1000)] []
  size_le := by decide +kernel

/-- Where the empty key hash is found. -/
def emptyKeyFound : FoundTlv := { off := 84, len := 0, type := IMAGE_TLV_KEYHASH }

end Reference

/-- The key hash of the signed image is complete, and its key is selected. -/
theorem signedFile_key_selected :
    ((Reference.platform 8).run (fileImageValidateTlvExpectedKey (Reference.platform 8) 0
        { off := 84, len := 32, type := IMAGE_TLV_KEYHASH })
          (openWorld Reference.signedFile)).1 = some 0 ∧
      SelectedByHash (Reference.platform 8) (slice Reference.signedFile.bytes 84 32) 0 := by
  have hrun : ((Reference.platform 8).run (fileImageValidateTlvExpectedKey (Reference.platform 8) 0
      { off := 84, len := 32, type := IMAGE_TLV_KEYHASH })
        (openWorld Reference.signedFile)).1 = some 0 := by
    decide +kernel
  exact ⟨hrun, ((keySelection_iff (Reference.platform 8)
    (show lookupFile 0 (openWorld Reference.signedFile).opened = some _ from rfl)).1
      { off := 84, len := 32, type := IMAGE_TLV_KEYHASH }).mpr
        (fun _ _ => by decide +kernel) 0 hrun⟩

/-- The empty key hash selects the first key, and the image is accepted. -/
theorem emptyKey_selects :
    ((Reference.platform 8).run (fileImageValidateTlvExpectedKey (Reference.platform 8) 0
        Reference.emptyKeyFound) (openWorld Reference.emptyKeyFile)).1 = some 0 ∧
      ¬ SelectedByHash (Reference.platform 8) (slice Reference.emptyKeyFile.bytes 84 0) 0 ∧
      ((Reference.platform 8).run (fileImgValidate (Reference.platform 8) 0
        Reference.imageHeader 0x100 256 none) (openWorld Reference.emptyKeyFile)).1 = .success := by
  refine ⟨by decide +kernel, fun hsel => ?_, by decide +kernel⟩
  obtain ⟨key, -, hkey, -⟩ := hsel.index 0 rfl
  have hlen := (Reference.platform 8).sha.digest_length key
  rw [hkey] at hlen
  exact absurd hlen (by decide)

end RuuviMcuboot
