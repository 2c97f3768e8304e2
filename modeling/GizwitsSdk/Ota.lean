import GizwitsSdk.Flash

/-!
# Firmware upload: `Socket.c`

`FwUpgradeProcess`, in the thread of the UDP server, announces a size; the
thread of the TCP server then takes the next connection for an upload, stores
what it receives in the backup area sector by sector and copies the backup area
over the main one when the size is reached. The globals survive an upload that
is cut off.
-/

namespace GizwitsSdk

open Lib

/-- The bits of `upgradeFlag` in use. -/
structure UpgradeFlag where
  start : Bool := false
  doing : Bool := false
  okfile : Bool := false
  done : Bool := false
  deriving DecidableEq

structure OtaSt where
  otaDataBuf : Mem := fun _ => 0
  writePtr : Nat := 0
  recvFileSize : Nat := 0
  upgradeSector : Nat := 0
  fileSize : Nat := 0
  upgradeFlag : UpgradeFlag := {}
  flash : Flash

/-- How a pass of the loop ends: with another pass, at the test of the flag,
with `return -1`, after a failed sector write, or in `nl6621_Reset`. -/
inductive OtaOutcome
  | again
  | left
  | closed
  | failed
  | done
  deriving DecidableEq

def otaFwBakOffset : Nat := 0x34000

def nvmFwMainOffset : Nat := 0

/-! ## One pass -/

def otaTop (s : OtaSt) : OtaSt × OtaOutcome :=
  if s.upgradeFlag.start then
    if s.upgradeFlag.doing then (s, .again)
    else ({ s with writePtr := 0, recvFileSize := 0, upgradeFlag.doing := true }, .again)
  else (s, .left)

def bakSector (i : Nat) : Nat := u32 (otaFwBakOffset + 4096 * i)

def storeSector (chip : Chip) (s : OtaSt) : OtaSt × Bool :=
  match qspiWriteOneSector chip (bakSector s.upgradeSector) s.otaDataBuf s.flash with
  | (flash, true) => ({ s with flash, upgradeSector := u32 (s.upgradeSector + 1), writePtr := 0 }, true)
  | (flash, false) => ({ s with flash, upgradeFlag := {} }, false)

def replaceFirmware (chip : Chip) : (i n : Nat) → OtaSt → OtaSt × Bool
  | _, 0, s => (s, true)
  | i, n + 1, s =>
    let otaDataBuf := qspiFlashRead s.flash (otaFwBakOffset + 4096 * i)
    match qspiWriteOneSector chip (nvmFwMainOffset + 4096 * i) otaDataBuf s.flash with
    | (flash, true) => replaceFirmware chip (i + 1) n { s with flash, otaDataBuf }
    | (flash, false) => ({ s with flash, otaDataBuf, upgradeFlag := {} }, false)

/-- The branch of `recvFileSize == fileSize`. -/
def finishUpgrade (chip : Chip) (s : OtaSt) : OtaSt × OtaOutcome :=
  match storeSector chip { s with upgradeFlag.okfile := true } with
  | (s, false) => (s, .failed)
  | (s, true) =>
    match replaceFirmware chip 0 s.upgradeSector s with
    | (s, false) => (s, .failed)
    | (s, true) => ({ s with upgradeFlag.done := true, upgradeSector := 0, recvFileSize := 0 }, .done)

def received (bs : List UInt8) (s : OtaSt) : OtaSt :=
  { s with
    otaDataBuf := blit s.otaDataBuf s.writePtr bs
    recvFileSize := u32 (s.recvFileSize + bs.length)
    writePtr := s.writePtr + bs.length }

/-- The pass from `recv` on. The buffer takes what it has room for of `bs`;
nothing stands for a connection that is closed or fails. -/
def otaRecv (chip : Chip) (bs : List UInt8) (s : OtaSt) : OtaSt × OtaOutcome :=
  let bs := bs.take (4096 - s.writePtr)
  if bs = [] then ({ s with upgradeFlag := {} }, .closed)
  else
    let s := received bs s
    if s.recvFileSize = s.fileSize then finishUpgrade chip s
    else if s.writePtr = 4096 then
      match storeSector chip s with
      | (s, true) => (s, .again)
      | (s, false) => (s, .failed)
    else (s, .again)

/-- The loop, given what its calls of `recv` put into the buffer. -/
def otaLoop (chip : Chip) : List (List UInt8) → OtaSt → OtaSt × OtaOutcome
  | [], s => (s, .again)
  | bs :: rest, s =>
    match otaTop s with
    | (s, .again) =>
      match otaRecv chip bs s with
      | (s, .again) => otaLoop chip rest s
      | r => r
    | r => r

/-! ## Runs -/

/-- Where the thread of the TCP server is: outside the upload loop, at its top,
or in its `recv`. -/
inductive OtaPc
  | idle
  | top
  | recv
  deriving DecidableEq

structure OtaSys extends OtaSt where
  pc : OtaPc := .idle

def otaBoot (flash : Flash) : OtaSys := { flash }

/-- What happens to the two threads. The acknowledgement of an announcement can
fail at any time after it. -/
inductive OtaEv
  | announce (size : UInt32)
  | ackFailed
  | accept
  | top
  | recv (bs : List UInt8)

/-- The system after a pass that ends in `r`; another one goes on at `next`. -/
def settle (next : OtaPc) : OtaSt × OtaOutcome → OtaSys
  | (s, .again) => { s with pc := next }
  | (s, .done) => otaBoot s.flash
  | (s, _) => { s with pc := .idle }

def otaStep (chip : Chip) (s : OtaSys) : OtaEv → OtaSys
  | .announce size => { s with upgradeFlag.start := true, fileSize := size.toNat }
  | .ackFailed => { s with upgradeFlag := {} }
  | .accept => if s.pc = .idle ∧ s.upgradeFlag.start then { s with pc := .top } else s
  | .top => if s.pc = .top then settle .recv (otaTop s.toOtaSt) else s
  | .recv bs => if s.pc = .recv then settle .top (otaRecv chip bs s.toOtaSt) else s

def otaRun (chip : Chip) (s : OtaSys) (es : List OtaEv) : OtaSys := es.foldl (otaStep chip) s

/-! ## What a pass does to the flash -/

/-- The pass on `bs` comes to a sector write. -/
def Stores (bs : List UInt8) (s : OtaSt) : Prop :=
  bs.take (4096 - s.writePtr) ≠ [] ∧
    ((received (bs.take (4096 - s.writePtr)) s).recvFileSize = s.fileSize ∨
      (received (bs.take (4096 - s.writePtr)) s).writePtr = 4096)

section
variable (chip : Chip)

theorem bakSector_aligned (i : Nat) : bakSector i % 4096 = 0 := by
  unfold bakSector otaFwBakOffset u32; omega

theorem mainSector_aligned (i : Nat) : (nvmFwMainOffset + 4096 * i) % 4096 = 0 := by
  unfold nvmFwMainOffset; omega

theorem storeSector_cases (s : OtaSt) :
    ∃ w, w = qspiWriteOneSector chip (bakSector s.upgradeSector) s.otaDataBuf s.flash ∧
      (w.2 = true ∧ storeSector chip s =
          ({ s with flash := w.1, upgradeSector := u32 (s.upgradeSector + 1), writePtr := 0 }, true) ∨
        w.2 = false ∧ storeSector chip s = ({ s with flash := w.1, upgradeFlag := {} }, false)) := by
  refine ⟨_, rfl, ?_⟩
  unfold storeSector
  generalize qspiWriteOneSector chip (bakSector s.upgradeSector) s.otaDataBuf s.flash = w
  obtain ⟨f, b⟩ := w
  cases b with
  | true => exact .inl ⟨rfl, rfl⟩
  | false => exact .inr ⟨rfl, rfl⟩

theorem plain_storeSector (s : OtaSt) :
    ∃ flash, NoneFailed s.flash flash ∧ storeSector plainChip s =
      ({ s with flash, upgradeSector := u32 (s.upgradeSector + 1), writePtr := 0 }, true) := by
  obtain ⟨hr, hf⟩ := @plain_writeOneSector s.otaDataBuf _ s.flash (bakSector_aligned s.upgradeSector)
  obtain ⟨w, rfl, ⟨-, h⟩ | ⟨h, -⟩⟩ := storeSector_cases plainChip s
  · exact ⟨_, hf, h⟩
  · exact absurd (hr.symm.trans h) nofun

theorem storeSector_flash (s : OtaSt) : (storeSector chip s).1.flash =
    (qspiWriteOneSector chip (bakSector s.upgradeSector) s.otaDataBuf s.flash).1 := by
  obtain ⟨w, hw, ⟨-, h⟩ | ⟨-, h⟩⟩ := storeSector_cases chip s
  · rw [h, ← hw]
  · rw [h, ← hw]

theorem storeSector_sector (s : OtaSt) : (storeSector chip s).1.upgradeSector ≤ s.upgradeSector + 1 := by
  obtain ⟨w, -, ⟨-, h⟩ | ⟨-, h⟩⟩ := storeSector_cases chip s
  · rw [h]; exact Nat.mod_le _ _
  · rw [h]; exact Nat.le_succ _

theorem storeSector_erases (s : OtaSt) : Sent (.sectorErase (flashAdr (bakSector s.upgradeSector)))
    s.flash (storeSector chip s).1.flash := by
  rw [storeSector_flash]
  exact writeOneSector_erases chip _ _ (bakSector_aligned _)

/-- One sector copied, and the rest or the end. -/
theorem replaceFirmware_cases (i n : Nat) (s : OtaSt) :
    ∃ w, w = qspiWriteOneSector chip (nvmFwMainOffset + 4096 * i)
        (qspiFlashRead s.flash (otaFwBakOffset + 4096 * i)) s.flash ∧
      (w.2 = true ∧ replaceFirmware chip i (n + 1) s = replaceFirmware chip (i + 1) n
          { s with flash := w.1, otaDataBuf := qspiFlashRead s.flash (otaFwBakOffset + 4096 * i) } ∨
        w.2 = false ∧ replaceFirmware chip i (n + 1) s =
          ({ s with
              flash := w.1
              otaDataBuf := qspiFlashRead s.flash (otaFwBakOffset + 4096 * i)
              upgradeFlag := {} }, false)) := by
  refine ⟨_, rfl, ?_⟩
  rw [replaceFirmware]
  generalize qspiWriteOneSector chip (nvmFwMainOffset + 4096 * i)
    (qspiFlashRead s.flash (otaFwBakOffset + 4096 * i)) s.flash = w
  obtain ⟨f, b⟩ := w
  cases b with
  | true => exact .inl ⟨rfl, rfl⟩
  | false => exact .inr ⟨rfl, rfl⟩

theorem replaceFirmware_sector :
    ∀ n i (s : OtaSt), (replaceFirmware chip i n s).1.upgradeSector = s.upgradeSector := by
  intro n
  induction n with
  | zero => intro i s; rfl
  | succ n ih =>
    intro i s
    obtain ⟨w, -, ⟨-, h⟩ | ⟨-, h⟩⟩ := replaceFirmware_cases chip i n s
    · rw [h]; exact ih _ _
    · rw [h]

variable {P : Nat → Prop}

theorem storeSector_within {s : OtaSt}
    (hP : ∀ x, InSector (flashAdr (bakSector s.upgradeSector)) x → P x) :
    Within P s.flash (storeSector chip s).1.flash := by
  rw [storeSector_flash]
  exact (writeOneSector_within chip _ _ (bakSector_aligned _)).mono hP

theorem replaceFirmware_within :
    ∀ n i (s : OtaSt), (∀ j < i + n, ∀ x, InSector (flashAdr (nvmFwMainOffset + 4096 * j)) x → P x) →
      Within P s.flash (replaceFirmware chip i n s).1.flash := by
  intro n
  induction n with
  | zero => intro i s _; exact Within.refl P s.flash
  | succ n ih =>
    intro i s hP
    have hw := (writeOneSector_within chip (qspiFlashRead s.flash (otaFwBakOffset + 4096 * i))
      s.flash (mainSector_aligned i)).mono (hP i (by omega))
    obtain ⟨w, rfl, ⟨-, h⟩ | ⟨-, h⟩⟩ := replaceFirmware_cases chip i n s
    · rw [h]
      apply hw.trans
      exact ih (i + 1) { s with flash := _, otaDataBuf := _ } fun j hj => hP j (by omega)
    · rw [h]
      exact hw

theorem finishUpgrade_cases (s : OtaSt) :
    ∃ st rf, st = storeSector chip { s with upgradeFlag.okfile := true } ∧
      rf = replaceFirmware chip 0 st.1.upgradeSector st.1 ∧
      (st.2 = false ∧ finishUpgrade chip s = (st.1, .failed) ∨
        st.2 = true ∧ rf.2 = false ∧ finishUpgrade chip s = (rf.1, .failed) ∨
        st.2 = true ∧ rf.2 = true ∧ finishUpgrade chip s =
          ({ rf.1 with upgradeFlag.done := true, upgradeSector := 0, recvFileSize := 0 }, .done)) := by
  refine ⟨_, _, rfl, rfl, ?_⟩
  unfold finishUpgrade
  generalize storeSector chip { s with upgradeFlag.okfile := true } = st
  obtain ⟨s', b⟩ := st
  cases b with
  | false => exact .inl ⟨rfl, rfl⟩
  | true =>
    right
    rcases hrf : replaceFirmware chip 0 s'.upgradeSector s' with ⟨s'', b⟩
    cases b with
    | false => exact .inl ⟨rfl, rfl, by simp only [hrf]⟩
    | true => exact .inr ⟨rfl, rfl, by simp only [hrf]⟩

theorem finishUpgrade_within {s : OtaSt}
    (hB : ∀ x, InSector (flashAdr (bakSector s.upgradeSector)) x → P x)
    (hM : ∀ j ≤ s.upgradeSector, ∀ x, InSector (flashAdr (nvmFwMainOffset + 4096 * j)) x → P x) :
    Within P s.flash (finishUpgrade chip s).1.flash := by
  have hs := storeSector_within chip (s := { s with upgradeFlag.okfile := true }) hB
  have hn := storeSector_sector chip { s with upgradeFlag.okfile := true }
  obtain ⟨st, rf, rfl, rfl, h⟩ := finishUpgrade_cases chip s
  generalize storeSector chip { s with upgradeFlag.okfile := true } = st at hs hn h
  have hr := replaceFirmware_within chip st.1.upgradeSector 0 st.1 fun j hj =>
    hM j (by rw [Nat.zero_add] at hj; exact Nat.le_of_lt_succ (Nat.lt_of_lt_of_le hj hn))
  rcases h with ⟨-, h⟩ | ⟨-, -, h⟩ | ⟨-, -, h⟩
  · rw [h]; exact hs
  · rw [h]; exact hs.trans hr
  · rw [h]; exact hs.trans hr

theorem finishUpgrade_erases (s : OtaSt) :
    Sent (.sectorErase (flashAdr (bakSector s.upgradeSector))) s.flash (finishUpgrade chip s).1.flash := by
  have hs := storeSector_erases chip { s with upgradeFlag.okfile := true }
  obtain ⟨st, rf, rfl, rfl, h⟩ := finishUpgrade_cases chip s
  generalize storeSector chip { s with upgradeFlag.okfile := true } = st at hs h
  have hr := replaceFirmware_within chip (P := fun _ => True) st.1.upgradeSector 0 st.1
    fun _ _ _ _ => trivial
  rcases h with ⟨-, h⟩ | ⟨-, -, h⟩ | ⟨-, -, h⟩
  · rw [h]; exact hs
  · rw [h]; exact hs.before hr
  · rw [h]; exact hs.before hr

theorem finishUpgrade_sector (s : OtaSt) :
    (finishUpgrade chip s).1.upgradeSector ≤ s.upgradeSector + 1 := by
  have hs := storeSector_sector chip { s with upgradeFlag.okfile := true }
  obtain ⟨st, rf, rfl, rfl, ⟨-, h⟩ | ⟨-, -, h⟩ | ⟨-, -, h⟩⟩ := finishUpgrade_cases chip s
  · rw [h]; exact hs
  · rw [h, replaceFirmware_sector]; exact hs
  · rw [h]; exact Nat.zero_le _

theorem otaRecv_cases (bs : List UInt8) (s : OtaSt) :
    ∃ r, r = received (bs.take (4096 - s.writePtr)) s ∧
      (bs.take (4096 - s.writePtr) = [] ∧ otaRecv chip bs s = ({ s with upgradeFlag := {} }, .closed) ∨
        ¬ Stores bs s ∧ otaRecv chip bs s = (r, .again) ∨
        Stores bs s ∧ r.recvFileSize = r.fileSize ∧ otaRecv chip bs s = finishUpgrade chip r ∨
        Stores bs s ∧ r.recvFileSize ≠ r.fileSize ∧ otaRecv chip bs s =
          ((storeSector chip r).1, if (storeSector chip r).2 then .again else .failed)) := by
  refine ⟨_, rfl, ?_⟩
  unfold otaRecv Stores
  generalize bs.take (4096 - s.writePtr) = bs
  by_cases hne : bs = []
  · exact .inl ⟨hne, by simp only [hne, if_true]⟩
  · simp only [hne, if_false]
    by_cases hsize : (received bs s).recvFileSize = (received bs s).fileSize
    · rw [if_pos hsize]
      exact .inr (.inr (.inl ⟨⟨hne, .inl hsize⟩, hsize, rfl⟩))
    · rw [if_neg hsize]
      by_cases hptr : (received bs s).writePtr = 4096
      · rw [if_pos hptr]
        refine .inr (.inr (.inr ⟨⟨hne, .inr hptr⟩, hsize, ?_⟩))
        generalize storeSector chip (received bs s) = w
        obtain ⟨s', b⟩ := w
        cases b with
        | false => rfl
        | true => rfl
      · rw [if_neg hptr]
        exact .inr (.inl ⟨fun h => h.2.elim hsize hptr, rfl⟩)

end

end GizwitsSdk
