import GizwitsSdk.Ota

/-!
# Where an upload writes

The main area and the backup area have 48 sectors each. The loop has no bound of
its own on `upgradeSector`: it stays in the two areas exactly as long as no
pass comes to a sector write with 48 sectors stored. The next one erases the
sector of the configuration at 0x64000.
-/

namespace GizwitsSdk

open Lib

/-- The byte belongs to the main area or to the backup area. -/
def InAreas (x : Nat) : Prop := x < 0x30000 ∨ 0x34000 ≤ x ∧ x < 0x64000

/-- If the event comes to a sector write, there is a sector left for it. -/
def PassFits (s : OtaSys) : OtaEv → Prop
  | .recv bs => s.pc = .recv → Stores bs s.toOtaSt → s.upgradeSector < 48
  | _ => True

def Fits (chip : Chip) : OtaSys → List OtaEv → Prop
  | _, [] => True
  | s, e :: es => PassFits s e ∧ Fits chip (otaStep chip s e) es

section
variable (chip : Chip)

/-! ## One pass -/

section
variable {s : OtaSt} {P : Nat → Prop}

theorem recv_within {bs : List UInt8}
    (hB : Stores bs s → ∀ x, InSector (flashAdr (bakSector s.upgradeSector)) x → P x)
    (hM : Stores bs s → ∀ j ≤ s.upgradeSector, ∀ x,
      InSector (flashAdr (nvmFwMainOffset + 4096 * j)) x → P x) :
    Within P s.flash (otaRecv chip bs s).1.flash := by
  obtain ⟨r, rfl, ⟨-, h⟩ | ⟨-, h⟩ | ⟨hst, -, h⟩ | ⟨hst, -, h⟩⟩ := otaRecv_cases chip bs s
  · rw [h]; exact Within.refl P s.flash
  · rw [h]; exact Within.refl P s.flash
  · rw [h]
    exact finishUpgrade_within chip (s := received _ s) (hB hst) (hM hst)
  · rw [h]
    exact storeSector_within chip (s := received _ s) (hB hst)

theorem recv_grows (bs : List UInt8) (s : OtaSt) :
    Within (fun _ => True) s.flash (otaRecv chip bs s).1.flash :=
  recv_within chip (fun _ _ _ => trivial) fun _ _ _ _ _ => trivial

theorem recv_erases {bs : List UInt8} (hst : Stores bs s) :
    Sent (.sectorErase (flashAdr (bakSector s.upgradeSector))) s.flash (otaRecv chip bs s).1.flash := by
  obtain ⟨r, rfl, ⟨hn, -⟩ | ⟨hn, -⟩ | ⟨-, -, h⟩ | ⟨-, -, h⟩⟩ := otaRecv_cases chip bs s
  · exact absurd hn hst.1
  · exact absurd hst hn
  · rw [h]; exact finishUpgrade_erases chip (received _ s)
  · rw [h]; exact storeSector_erases chip (received _ s)

theorem recv_sector {bs : List UInt8} (hs : s.upgradeSector ≤ 48)
    (hst : Stores bs s → s.upgradeSector < 48) : (otaRecv chip bs s).1.upgradeSector ≤ 48 := by
  obtain ⟨r, rfl, ⟨-, h⟩ | ⟨-, h⟩ | ⟨hn, -, h⟩ | ⟨hn, -, h⟩⟩ := otaRecv_cases chip bs s
  · rw [h]; exact hs
  · rw [h]; exact hs
  · rw [h]; exact Nat.le_trans (finishUpgrade_sector chip (received _ s)) (hst hn)
  · rw [h]; exact Nat.le_trans (storeSector_sector chip (received _ s)) (hst hn)

theorem flashAdr_bakSector {i : Nat} (hi : i ≤ 48) : flashAdr (bakSector i) = 0x34000 + 4096 * i := by
  unfold flashAdr bakSector otaFwBakOffset u32; omega

theorem recv_inAreas {bs : List UInt8} (hst : Stores bs s → s.upgradeSector < 48) :
    Within InAreas s.flash (otaRecv chip bs s).1.flash := by
  apply recv_within
  · intro h x hx
    have hlt := hst h
    rw [flashAdr_bakSector (Nat.le_of_lt hlt)] at hx
    obtain ⟨h0, h1⟩ := hx
    exact .inr ⟨by omega, by omega⟩
  · intro h j hj x hx
    have hlt := hst h
    unfold InSector flashAdr nvmFwMainOffset at hx
    exact .inl (by omega)

end

/-! ## One event -/

variable {s : OtaSys}

theorem settle_flash (next : OtaPc) (r : OtaSt × OtaOutcome) : (settle next r).flash = r.1.flash := by
  obtain ⟨s, o⟩ := r
  cases o <;> rfl

theorem settle_sector (next : OtaPc) (r : OtaSt × OtaOutcome) :
    (settle next r).upgradeSector ≤ r.1.upgradeSector := by
  obtain ⟨s, o⟩ := r
  cases o with
  | done => exact Nat.zero_le _
  | _ => exact Nat.le_refl _

theorem top_keeps (s : OtaSt) :
    (otaTop s).1.flash = s.flash ∧ (otaTop s).1.upgradeSector = s.upgradeSector := by
  unfold otaTop
  split
  · split
    · exact ⟨rfl, rfl⟩
    · exact ⟨rfl, rfl⟩
  · exact ⟨rfl, rfl⟩

theorem step_flash {e : OtaEv} (he : ∀ bs, e = .recv bs → s.pc ≠ .recv) :
    (otaStep chip s e).flash = s.flash ∧ (otaStep chip s e).upgradeSector ≤ s.upgradeSector := by
  cases e with
  | announce n => exact ⟨rfl, Nat.le_refl _⟩
  | ackFailed => exact ⟨rfl, Nat.le_refl _⟩
  | accept =>
    simp only [otaStep]
    split
    · exact ⟨rfl, Nat.le_refl _⟩
    · exact ⟨rfl, Nat.le_refl _⟩
  | top =>
    simp only [otaStep]
    split
    · obtain ⟨hf, hn⟩ := top_keeps s.toOtaSt
      exact ⟨(settle_flash _ _).trans hf, Nat.le_trans (settle_sector _ _) (Nat.le_of_eq hn)⟩
    · exact ⟨rfl, Nat.le_refl _⟩
  | recv bs =>
    simp only [otaStep]
    rw [if_neg (he bs rfl)]
    exact ⟨rfl, Nat.le_refl _⟩

theorem step_recv {bs : List UInt8} (h : s.pc = .recv) :
    otaStep chip s (.recv bs) = settle .top (otaRecv chip bs s.toOtaSt) := if_pos h

theorem step_grows (s : OtaSys) (e : OtaEv) :
    Within (fun _ => True) s.flash (otaStep chip s e).flash := by
  by_cases he : ∀ bs, e = .recv bs → s.pc ≠ .recv
  · rw [(step_flash chip he).1]
    exact Within.refl _ _
  · push Not at he
    obtain ⟨bs, rfl, hpc⟩ := he
    rw [step_recv chip hpc, settle_flash]
    exact recv_grows chip bs s.toOtaSt

theorem step_fits {e : OtaEv} (hs : s.upgradeSector ≤ 48) (he : PassFits s e) :
    Within InAreas s.flash (otaStep chip s e).flash ∧ (otaStep chip s e).upgradeSector ≤ 48 := by
  by_cases hr : ∀ bs, e = .recv bs → s.pc ≠ .recv
  · obtain ⟨hf, hn⟩ := step_flash chip hr
    rw [hf]
    exact ⟨Within.refl _ _, Nat.le_trans hn hs⟩
  · push Not at hr
    obtain ⟨bs, rfl, hpc⟩ := hr
    rw [step_recv chip hpc, settle_flash]
    exact ⟨recv_inAreas chip (he hpc), Nat.le_trans (settle_sector _ _) (recv_sector chip hs (he hpc))⟩

theorem step_overruns {e : OtaEv} (hs : s.upgradeSector ≤ 48) (he : ¬ PassFits s e) :
    Sent (.sectorErase 0x64000) s.flash (otaStep chip s e).flash := by
  cases e with
  | recv bs =>
    simp only [PassFits, Classical.not_imp] at he
    obtain ⟨hpc, hst, hn⟩ := he
    have hn : s.upgradeSector = 48 := by omega
    have h := recv_erases chip hst
    rw [flashAdr_bakSector hs, hn] at h
    rw [step_recv chip hpc, settle_flash]
    exact h
  | _ => exact absurd trivial he

/-! ## Runs -/

theorem run_single (e : OtaEv) (s : OtaSys) : otaRun chip s [e] = otaStep chip s e := rfl

theorem otaRun_append (es es' : List OtaEv) (s : OtaSys) :
    otaRun chip s (es ++ es') = otaRun chip (otaRun chip s es) es' := List.foldl_append

theorem run_grows (es : List OtaEv) (s : OtaSys) :
    Within (fun _ => True) s.flash (otaRun chip s es).flash := by
  induction es generalizing s with
  | nil => exact Within.refl _ _
  | cons e es ih => exact (step_grows chip s e).trans (ih (otaStep chip s e))

theorem run_within_iff (es : List OtaEv) :
    ∀ s, s.upgradeSector ≤ 48 → (Within InAreas s.flash (otaRun chip s es).flash ↔ Fits chip s es) := by
  induction es with
  | nil => intro s _; exact ⟨fun _ => trivial, fun _ => Within.refl _ _⟩
  | cons e es ih =>
    intro s hs
    have hg := run_grows chip es (otaStep chip s e)
    by_cases he : PassFits s e
    · obtain ⟨hw, hs'⟩ := step_fits chip hs he
      refine ⟨fun h => ⟨he, (ih _ hs').mp (h.of_trans hw hg)⟩, fun h => hw.trans ((ih _ hs').mpr h.2)⟩
    · refine ⟨fun h => ?_, fun h => absurd h.1 he⟩
      have hsent := (step_overruns chip hs he).before hg
      have hin := h.covers hsent (x := 0x64000) ⟨by decide, by decide⟩
      exact absurd hin (by unfold InAreas; omega)

/-- **Uploads stay in the two firmware areas** over a run, in what they send
to the flash and in what it holds, exactly if no pass comes to a sector write
with 48 sectors stored. -/
theorem uploads_confined_iff (f : Flash) (es : List OtaEv) :
    Within InAreas f (otaRun chip (otaBoot f) es).flash ↔ Fits chip (otaBoot f) es :=
  run_within_iff chip es (otaBoot f) (Nat.zero_le _)

theorem fits_append (es es' : List OtaEv) :
    ∀ s, Fits chip s (es ++ es') ↔ Fits chip s es ∧ Fits chip (otaRun chip s es) es' := by
  induction es with
  | nil => intro s; exact ⟨fun h => ⟨trivial, h⟩, fun h => h.2⟩
  | cons e es ih =>
    intro s
    exact (and_congr_right' (ih (otaStep chip s e))).trans and_assoc.symm

end

/-! ## An image of 49 sectors -/

/-- In the upload of an image of 49 sectors, with `k` of them stored. -/
structure Stored (k : Nat) (s : OtaSys) : Prop where
  pc : s.pc = .recv
  start : s.upgradeFlag.start = true
  doing : s.upgradeFlag.doing = true
  fileSize : s.fileSize = 0x31000
  writePtr : s.writePtr = 0
  recvFileSize : s.recvFileSize = 4096 * k
  upgradeSector : s.upgradeSector = k

def blankSector : List UInt8 := List.replicate 4096 0

theorem stored_take {k : Nat} {s : OtaSys} (h : Stored k s) :
    blankSector.take (4096 - s.writePtr) = blankSector := by
  rw [h.writePtr]
  exact List.take_of_length_le (Nat.le_of_eq List.length_replicate)

theorem stored_stores {k : Nat} {s : OtaSys} (h : Stored k s) : Stores blankSector s.toOtaSt := by
  have hlen : blankSector.length = 4096 := List.length_replicate
  unfold Stores
  rw [stored_take h]
  refine ⟨List.ne_nil_of_length_eq_add_one hlen, .inr ?_⟩
  simp only [received, hlen, h.writePtr]

theorem stored_next {k : Nat} {s : OtaSys} (h : Stored k s) (hk : k < 48) :
    Stored (k + 1) (otaRun plainChip s [.recv blankSector, .top]) := by
  have hlen : blankSector.length = 4096 := List.length_replicate
  have hrecv : (received blankSector s.toOtaSt).recvFileSize = 4096 * (k + 1) := by
    simp only [received, hlen, h.recvFileSize, u32]
    omega
  obtain ⟨flash, -, hs⟩ := plain_storeSector (received blankSector s.toOtaSt)
  have hpass : otaRecv plainChip blankSector s.toOtaSt =
      ({ received blankSector s.toOtaSt with
          flash, upgradeSector := u32 (s.upgradeSector + 1), writePtr := 0 }, .again) := by
    obtain ⟨r, rfl, ⟨hn, -⟩ | ⟨hn, -⟩ | ⟨-, he, -⟩ | ⟨-, -, hp⟩⟩ := otaRecv_cases plainChip blankSector s.toOtaSt
    · exact absurd hn (stored_stores h).1
    · exact absurd (stored_stores h) hn
    · rw [stored_take h, hrecv] at he
      have he : 4096 * (k + 1) = s.fileSize := he
      rw [h.fileSize] at he
      omega
    · rw [hp, stored_take h, hs]; rfl
  have hsector : u32 (s.upgradeSector + 1) = k + 1 := by
    rw [h.upgradeSector, u32]
    omega
  simp only [otaRun, List.foldl_cons, List.foldl_nil]
  rw [step_recv plainChip h.pc, hpass]
  simp only [settle, otaStep, otaTop, received, h.start, h.doing, if_true]
  exact ⟨rfl, h.start, h.doing, h.fileSize, rfl, hrecv, hsector⟩

/-- The events of the upload, up to where 48 sectors are stored. -/
def fullUpload : Nat → List OtaEv
  | 0 => [.announce 0x31000, .accept, .top]
  | k + 1 => fullUpload k ++ [.recv blankSector, .top]

theorem stored_run (f : Flash) : ∀ k ≤ 48, Stored k (otaRun plainChip (otaBoot f) (fullUpload k)) := by
  intro k
  induction k with
  | zero => intro _; exact ⟨rfl, rfl, rfl, rfl, rfl, rfl, rfl⟩
  | succ k ih =>
    intro hk
    have h := stored_next (ih (Nat.le_of_succ_le hk)) hk
    rw [fullUpload, otaRun_append]
    exact h

/-- The sector of the configuration is erased by an image of 49 sectors. -/
theorem uploads_overrun : ¬ ∀ (chip : Chip) (f : Flash) (es : List OtaEv),
    Within InAreas f (otaRun chip (otaBoot f) es).flash := by
  intro hall
  have hf := (run_within_iff plainChip (fullUpload 48 ++ [.recv blankSector]) (otaBoot ⟨fun _ => 0xff, 0, [], 0⟩)
    (Nat.zero_le _)).mp (hall _ _ _)
  have h := stored_run ⟨fun _ => 0xff, 0, [], 0⟩ 48 (Nat.le_refl _)
  obtain ⟨-, hlast, -⟩ := (fits_append plainChip _ _ _).mp hf
  have hlt := hlast h.pc (stored_stores h)
  rw [h.upgradeSector] at hlt
  exact absurd hlt (Nat.lt_irrefl 48)

end GizwitsSdk
