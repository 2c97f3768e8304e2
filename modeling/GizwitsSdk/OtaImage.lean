import GizwitsSdk.Lib.Machine
import GizwitsSdk.OtaArea

/-!
# The image an upload leaves

From a state with `upgradeSector` 0 the loop puts the sectors of the file
where they belong, whatever the pieces it is received in. Nothing but a reset
and the end of an upload sets `upgradeSector` to 0, so after an upload that
was cut off with a sector stored the next one begins at the wrong sector.
-/

namespace GizwitsSdk

open Lib

/-- What `recv` can put into the buffer, piece by piece, with `w` bytes in it. -/
def RecvSizes : (w : Nat) → List (List UInt8) → Prop
  | _, [] => True
  | w, bs :: rest => bs ≠ [] ∧ w + bs.length ≤ 4096 ∧ RecvSizes ((w + bs.length) % 4096) rest

/-- A size is announced, a connection accepted and `pieces` received on it. -/
def upload (chip : Chip) (size : UInt32) (pieces : List (List UInt8)) (s : OtaSys) : OtaSt × OtaOutcome :=
  otaLoop chip pieces (otaRun chip s [.announce size, .accept]).toOtaSt

/-- Part way through, at `recv`: `r` bytes of the file received. -/
structure Receiving (file : List UInt8) (r : Nat) (s : OtaSt) : Prop where
  start : s.upgradeFlag.start = true
  doing : s.upgradeFlag.doing = true
  fileSize : s.fileSize = file.length
  recvFileSize : s.recvFileSize = r
  writePtr : s.writePtr = r % 4096
  upgradeSector : s.upgradeSector = r / 4096
  buf : ∀ k < r % 4096, s.otaDataBuf k = file.getD (4096 * (r / 4096) + k) 0
  bak : ∀ x < 4096 * (r / 4096), s.flash.mem (otaFwBakOffset + x) = file.getD x 0

/-- Done: both areas begin with the file. -/
structure Installed (file : List UInt8) (s : OtaSt) : Prop where
  done : s.upgradeFlag.done = true
  bak : ∀ x < file.length, s.flash.mem (otaFwBakOffset + x) = file.getD x 0
  main : ∀ x < file.length, s.flash.mem (nvmFwMainOffset + x) = file.getD x 0

section
variable {chip : Chip} {file bs : List UInt8} {r : Nat} {s : OtaSt}

/-! ## Sector writes that succeed -/

theorem storeSector_grows (chip : Chip) (s : OtaSt) :
    Within (fun _ => True) s.flash (storeSector chip s).1.flash :=
  storeSector_within chip fun _ _ => trivial

theorem replaceFirmware_grows (chip : Chip) (n i : Nat) (s : OtaSt) :
    Within (fun _ => True) s.flash (replaceFirmware chip i n s).1.flash :=
  replaceFirmware_within chip n i s fun _ _ _ _ => trivial

theorem storeSector_ok (hn : s.upgradeSector < 48)
    (h : NoneFailed s.flash (storeSector chip s).1.flash) :
    ∃ flash, storeSector chip s =
        ({ s with flash, upgradeSector := s.upgradeSector + 1, writePtr := 0 }, true) ∧
      (∀ k < 4096, flash.mem (otaFwBakOffset + (4096 * s.upgradeSector + k)) = s.otaDataBuf k) ∧
      ∀ x < 4096 * s.upgradeSector, flash.mem (otaFwBakOffset + x) = s.flash.mem (otaFwBakOffset + x) := by
  rw [storeSector_flash] at h
  have hadr := flashAdr_bakSector (Nat.le_of_lt hn)
  obtain ⟨hr, hmem⟩ := writeOneSector_ok (bakSector_aligned _) h
  have hframe := (writeOneSector_within chip s.otaDataBuf s.flash (bakSector_aligned s.upgradeSector)).mem
  rw [hadr] at hmem hframe
  obtain ⟨w, rfl, ⟨-, hs⟩ | ⟨hf, -⟩⟩ := storeSector_cases chip s
  · rw [u32_of_lt (by omega)] at hs
    refine ⟨(qspiWriteOneSector chip (bakSector s.upgradeSector) s.otaDataBuf s.flash).1, hs,
      fun k hk => ?_, fun x hx => ?_⟩
    · rw [← hmem k hk, otaFwBakOffset, Nat.add_assoc]
    · apply hframe
      unfold InSector otaFwBakOffset
      omega
  · exact absurd (hr.symm.trans hf) nofun

theorem replaceFirmware_ok : ∀ n i (s : OtaSt), i + n ≤ 48 →
    NoneFailed s.flash (replaceFirmware chip i n s).1.flash →
    ∃ s', replaceFirmware chip i n s = (s', true) ∧ s'.upgradeFlag = s.upgradeFlag ∧
      (∀ x, 0x30000 ≤ x → s'.flash.mem x = s.flash.mem x) ∧
      (∀ x < 4096 * i, s'.flash.mem x = s.flash.mem x) ∧
      ∀ x < 4096 * (i + n), 4096 * i ≤ x → s'.flash.mem x = s.flash.mem (otaFwBakOffset + x) := by
  intro n
  induction n with
  | zero => intro i s _ _; exact ⟨s, rfl, rfl, fun _ _ => rfl, fun _ _ => rfl, by omega⟩
  | succ n ih =>
    intro i s hi h
    have hadr : flashAdr (nvmFwMainOffset + 4096 * i) = 4096 * i := by
      unfold flashAdr nvmFwMainOffset; omega
    have hw := writeOneSector_within chip (qspiFlashRead s.flash (otaFwBakOffset + 4096 * i)) s.flash
      (mainSector_aligned i)
    have hok := @writeOneSector_ok chip (qspiFlashRead s.flash (otaFwBakOffset + 4096 * i)) _ s.flash
      (mainSector_aligned i)
    rw [hadr] at hw hok
    obtain ⟨w, hwrite, hcase⟩ := replaceFirmware_cases chip i n s
    rw [← hwrite] at hw hok
    rcases hcase with ⟨-, he⟩ | ⟨hb, he⟩
    · rw [he] at h ⊢
      obtain ⟨hf, hrest⟩ := h.split hw (replaceFirmware_grows chip n (i + 1)
        { s with flash := w.1, otaDataBuf := qspiFlashRead s.flash (otaFwBakOffset + 4096 * i) })
      obtain ⟨-, hmem⟩ := hok hf
      obtain ⟨s', hs', hflag, hbak, hlow, hmain⟩ := ih (i + 1)
        { s with flash := w.1, otaDataBuf := qspiFlashRead s.flash (otaFwBakOffset + 4096 * i) }
        (by omega) hrest
      refine ⟨s', hs', hflag, fun x hx => ?_, fun x hx => ?_, fun x hx hx' => ?_⟩
      · rw [hbak x hx]
        exact hw.mem x (by unfold InSector; omega)
      · rw [hlow x (by omega)]
        exact hw.mem x (by unfold InSector; omega)
      · by_cases hlt : x < 4096 * (i + 1)
        · rw [hlow x hlt]
          have hk := hmem (x - 4096 * i) (by omega)
          have hx : 4096 * i + (x - 4096 * i) = x := by omega
          have hread : flashAdr (otaFwBakOffset + 4096 * i + (x - 4096 * i)) = otaFwBakOffset + x := by
            unfold flashAdr otaFwBakOffset; omega
          rw [qspiFlashRead, hread, hx] at hk
          exact hk
        · rw [hmain x (by omega) (by omega)]
          exact hw.mem _ (by unfold InSector otaFwBakOffset; omega)
    · rw [he] at h
      exact absurd ((hok h).1.symm.trans hb) nofun

/-! ## Passes that succeed -/

/-- The buffer has the last `w` bytes of a beginning of the file, the backup
area the sectors before. -/
structure Holds (file : List UInt8) (q w : Nat) (s : OtaSt) : Prop where
  upgradeSector : s.upgradeSector = q
  buf : ∀ k < w, s.otaDataBuf k = file.getD (4096 * q + k) 0
  bak : ∀ x < 4096 * q, s.flash.mem (otaFwBakOffset + x) = file.getD x 0

theorem holds_store {q w : Nat} (h : Holds file q w s) (hw : w ≤ 4096) (hq : q < 48)
    (hok : NoneFailed s.flash (storeSector chip s).1.flash) :
    ∃ flash, storeSector chip s = ({ s with flash, upgradeSector := q + 1, writePtr := 0 }, true) ∧
      ∀ x < 4096 * q + w, flash.mem (otaFwBakOffset + x) = file.getD x 0 := by
  obtain ⟨flash, hs, hnew, hold⟩ := storeSector_ok (h.upgradeSector ▸ hq) hok
  rw [h.upgradeSector] at hs hnew hold
  refine ⟨flash, hs, fun x hx => ?_⟩
  by_cases hlt : x < 4096 * q
  · rw [hold x hlt, h.bak x hlt]
  · have hk := hnew (x - 4096 * q) (by omega)
    rw [h.buf _ (by omega), show 4096 * q + (x - 4096 * q) = x by omega] at hk
    exact hk

theorem receiving_received (h : Receiving file r s)
    (hbs : ∀ j < bs.length, bs.getD j 0 = file.getD (r + j) 0) :
    Holds file (r / 4096) (r % 4096 + bs.length) (received bs s) := by
  refine ⟨h.upgradeSector, fun k hk => ?_, h.bak⟩
  simp only [received, h.writePtr]
  by_cases hlt : k < r % 4096
  · rw [blit_before hlt, h.buf k hlt]
  · rw [blit_at (Nat.le_of_not_lt hlt) hk, hbs _ (by omega)]
    congr 1
    omega

theorem finishUpgrade_grows (chip : Chip) (s : OtaSt) :
    Within (fun _ => True) (storeSector chip { s with upgradeFlag.okfile := true }).1.flash
      (finishUpgrade chip s).1.flash := by
  obtain ⟨st, rf, rfl, rfl, ⟨-, h⟩ | ⟨-, -, h⟩ | ⟨-, -, h⟩⟩ := finishUpgrade_cases chip s
  · rw [h]; exact Within.refl _ _
  · rw [h]; exact replaceFirmware_grows chip _ 0 _
  · rw [h]; exact replaceFirmware_grows chip _ 0 _

theorem finishUpgrade_of_store {s' : OtaSt}
    (hs : storeSector chip { s with upgradeFlag.okfile := true } = (s', true)) :
    (finishUpgrade chip s).1.flash = (replaceFirmware chip 0 s'.upgradeSector s').1.flash ∧
      ∀ s'', replaceFirmware chip 0 s'.upgradeSector s' = (s'', true) → finishUpgrade chip s =
        ({ s'' with upgradeFlag.done := true, upgradeSector := 0, recvFileSize := 0 }, .done) := by
  obtain ⟨st, rf, rfl, rfl, h⟩ := finishUpgrade_cases chip s
  rw [hs] at h
  rcases h with ⟨h, -⟩ | ⟨-, hb, h⟩ | ⟨-, -, h⟩
  · exact absurd h nofun
  · refine ⟨by rw [h], fun s'' hrf => ?_⟩
    rw [hrf] at hb
    exact absurd hb nofun
  · refine ⟨by rw [h], fun s'' hrf => ?_⟩
    rw [h, hrf]

theorem finishUpgrade_ok {q w : Nat} (h : Holds file q w s) (hw : w ≤ 4096) (hq : q < 48)
    (hend : file.length = 4096 * q + w)
    (hok : NoneFailed s.flash (finishUpgrade chip s).1.flash) :
    ∃ s', finishUpgrade chip s = (s', .done) ∧ Installed file s' := by
  have h' : Holds file q w { s with upgradeFlag.okfile := true } := ⟨h.upgradeSector, h.buf, h.bak⟩
  obtain ⟨hst, hrf⟩ := hok.split (storeSector_grows chip { s with upgradeFlag.okfile := true })
    (finishUpgrade_grows chip s)
  obtain ⟨flash, hs, hbak⟩ := holds_store h' hw hq hst
  obtain ⟨hflash, hdone⟩ := finishUpgrade_of_store hs
  rw [hs, hflash] at hrf
  obtain ⟨s', hs', -, hkeep, -, hmain⟩ := replaceFirmware_ok (q + 1) 0 _ (by omega) hrf
  refine ⟨_, hdone s' hs', rfl, fun x hx => ?_, fun x hx => ?_⟩
  · rw [← hbak x (hend ▸ hx)]
    exact hkeep _ (by unfold otaFwBakOffset; omega)
  · rw [← hbak x (hend ▸ hx)]
    have hx' : nvmFwMainOffset + x = x := Nat.zero_add x
    rw [hx']
    exact hmain x (by omega) (by omega)

/-- A pass on the next bytes of the file leaves the upload further on. -/
theorem recv_more (h : Receiving file r s) (hne : bs ≠ []) (hlen : r % 4096 + bs.length ≤ 4096)
    (hbs : ∀ j < bs.length, bs.getD j 0 = file.getD (r + j) 0) (hr : r + bs.length < file.length)
    (hn : file.length ≤ 0x30000) (hok : NoneFailed s.flash (otaRecv chip bs s).1.flash) :
    ∃ s', otaRecv chip bs s = (s', .again) ∧ Receiving file (r + bs.length) s' := by
  have hholds := receiving_received h hbs
  have htake : bs.take (4096 - s.writePtr) = bs := by
    rw [h.writePtr]
    exact List.take_of_length_le (by omega)
  have hgot : (received bs s).recvFileSize = r + bs.length := by
    simp only [received, h.recvFileSize]
    exact u32_of_lt (by omega)
  have hptr : (received bs s).writePtr = r % 4096 + bs.length := by
    simp only [received, h.writePtr]
  have hsize : (received bs s).fileSize = file.length := h.fileSize
  obtain ⟨rs, hrs, hcases⟩ := otaRecv_cases chip bs s
  rw [htake] at hrs
  subst hrs
  rcases hcases with ⟨he, -⟩ | ⟨hst, he⟩ | ⟨-, he, -⟩ | ⟨hst, -, he⟩
  · exact absurd (htake.symm.trans he) hne
  · -- the buffer is not full
    have hlt : r % 4096 + bs.length ≠ 4096 := by
      intro hfull
      apply hst
      unfold Stores
      rw [htake]
      exact ⟨hne, .inr (hptr.trans hfull)⟩
    refine ⟨_, he, h.start, h.doing, h.fileSize, hgot, ?_, ?_, ?_, ?_⟩
    · rw [hptr]; omega
    · rw [hholds.upgradeSector]; omega
    · intro k hk
      rw [hholds.buf k (by omega)]
      congr 1
      omega
    · intro x hx
      exact hholds.bak x (by omega)
  · rw [hgot, hsize] at he
    omega
  · -- the buffer is full
    have hfull : r % 4096 + bs.length = 4096 := by
      unfold Stores at hst
      rw [htake, hgot, hptr] at hst
      rcases hst.2 with heq | heq
      · rw [h.fileSize] at heq; omega
      · exact heq
    rw [he] at hok
    obtain ⟨flash, hs, hbak⟩ := holds_store hholds hlen (by omega) hok
    rw [hs] at he
    refine ⟨_, he, h.start, h.doing, h.fileSize, hgot, ?_, ?_, ?_, ?_⟩
    · simp only; omega
    · simp only; omega
    · intro k hk; omega
    · intro x hx
      exact hbak x (by omega)

theorem recv_last (h : Receiving file r s) (hne : bs ≠ []) (hlen : r % 4096 + bs.length ≤ 4096)
    (hbs : ∀ j < bs.length, bs.getD j 0 = file.getD (r + j) 0) (hr : r + bs.length = file.length)
    (hn : file.length ≤ 0x30000) (hok : NoneFailed s.flash (otaRecv chip bs s).1.flash) :
    ∃ s', otaRecv chip bs s = (s', .done) ∧ Installed file s' := by
  have hpos := List.length_pos_iff.mpr hne
  have htake : bs.take (4096 - s.writePtr) = bs := by
    rw [h.writePtr]
    exact List.take_of_length_le (by omega)
  have hgot : (received bs s).recvFileSize = (received bs s).fileSize := by
    simp only [received, h.recvFileSize, h.fileSize]
    rw [u32_of_lt (by omega), hr]
  have hpass : otaRecv chip bs s = finishUpgrade chip (received bs s) := by
    unfold otaRecv
    rw [htake]
    simp only [hne, if_false]
    exact if_pos hgot
  rw [hpass] at hok ⊢
  exact finishUpgrade_ok (receiving_received h hbs) hlen (by omega) (by omega) hok

/-! ## The loop -/

theorem top_again (h : Receiving file r s) : otaTop s = (s, .again) := by
  simp only [otaTop, h.start, h.doing, if_true]

theorem top_first (hstart : s.upgradeFlag.start = true) (hdoing : s.upgradeFlag.doing = false)
    (hsize : s.fileSize = file.length) (hsec : s.upgradeSector = 0) :
    ∃ s', otaTop s = (s', .again) ∧ s'.flash = s.flash ∧ Receiving file 0 s' := by
  refine ⟨{ s with writePtr := 0, recvFileSize := 0, upgradeFlag.doing := true }, ?_, rfl, ?_⟩
  · simp only [otaTop, hstart, hdoing, if_true]
    rfl
  · exact ⟨hstart, rfl, hsize, rfl, rfl, hsec, fun k hk => absurd hk (Nat.not_lt_zero k),
      fun x hx => absurd hx (Nat.not_lt_zero x)⟩

theorem otaLoop_again {s' s'' : OtaSt} {rest : List (List UInt8)} (h : otaTop s = (s', .again))
    (hr : otaRecv chip bs s' = (s'', .again)) : otaLoop chip (bs :: rest) s = otaLoop chip rest s'' := by
  simp only [otaLoop, h, hr]

theorem otaLoop_stop {s' : OtaSt} {rest : List (List UInt8)} (h : otaTop s = (s', .again))
    (ho : (otaRecv chip bs s').2 ≠ .again) : otaLoop chip (bs :: rest) s = otaRecv chip bs s' := by
  simp only [otaLoop, h]
  generalize otaRecv chip bs s' = t at ho
  obtain ⟨s'', o⟩ := t
  cases o with
  | again => exact absurd rfl ho
  | _ => rfl

/-- What every pass does to the flash, the loop does. -/
theorem otaLoop_flash {R : Flash → Flash → Prop} (hrefl : ∀ f, R f f)
    (htrans : ∀ {f f' f''}, R f f' → R f' f'' → R f f'')
    (hpass : ∀ bs (s : OtaSt), R s.flash (otaRecv chip bs s).1.flash) :
    ∀ pieces (s : OtaSt), R s.flash (otaLoop chip pieces s).1.flash := by
  intro pieces
  induction pieces with
  | nil => intro s; exact hrefl _
  | cons bs rest ih =>
    intro s
    have ht := (top_keeps s).1
    simp only [otaLoop]
    generalize otaTop s = t at ht ⊢
    obtain ⟨s', o⟩ := t
    simp only at ht
    rw [← ht]
    cases o with
    | again =>
      have hr := hpass bs s'
      simp only
      generalize otaRecv chip bs s' = t at hr ⊢
      obtain ⟨s'', o⟩ := t
      cases o with
      | again => exact htrans hr (ih s'')
      | _ => exact hr
    | _ => exact hrefl _

theorem otaLoop_grows : ∀ pieces (s : OtaSt), Within (fun _ => True) s.flash (otaLoop chip pieces s).1.flash :=
  otaLoop_flash (Within.refl _) Within.trans (recv_grows chip)

theorem getD_piece {rest : List UInt8} (h : file.drop r = bs ++ rest) {j : Nat} (hj : j < bs.length) :
    bs.getD j 0 = file.getD (r + j) 0 := by
  have hd : (file.drop r)[j]? = file[r + j]? := List.getElem?_drop
  rw [h, List.getElem?_append_left hj] at hd
  rw [List.getD_eq_getElem?_getD, List.getD_eq_getElem?_getD, hd]

/-- From any point of the upload to its end. -/
theorem loop_installs (hn : file.length ≤ 0x30000) :
    ∀ pieces r (s s' : OtaSt), otaTop s = (s', .again) → Receiving file r s' → r < file.length →
      file.drop r = pieces.flatten → RecvSizes (r % 4096) pieces →
      NoneFailed s'.flash (otaLoop chip pieces s).1.flash →
      ∃ s'', otaLoop chip pieces s = (s'', .done) ∧ Installed file s'' := by
  intro pieces
  induction pieces with
  | nil =>
    intro r s s' _ _ hlt hdrop
    have hle := List.drop_eq_nil_iff.mp hdrop
    omega
  | cons bs rest ih =>
    intro r s s' htop h hlt hdrop hsz hok
    obtain ⟨hne, hlen, hrest⟩ := hsz
    rw [List.flatten_cons] at hdrop
    have hbs : ∀ j < bs.length, bs.getD j 0 = file.getD (r + j) 0 := fun j hj => getD_piece hdrop hj
    have htotal : file.length - r = bs.length + rest.flatten.length := by
      rw [← List.length_drop, hdrop, List.length_append]
    have hpass : NoneFailed s'.flash (otaRecv chip bs s').1.flash ∧
        NoneFailed (otaRecv chip bs s').1.flash (otaLoop chip (bs :: rest) s).1.flash := by
      apply hok.split (recv_grows chip bs s')
      by_cases ho : (otaRecv chip bs s').2 = .again
      · rw [otaLoop_again htop (Prod.ext rfl ho)]
        exact otaLoop_grows rest _
      · rw [otaLoop_stop htop ho]
        exact Within.refl _ _
    by_cases hlast : r + bs.length = file.length
    · obtain ⟨s'', he, hi⟩ := recv_last h hne hlen hbs hlast hn hpass.1
      rw [otaLoop_stop htop (by rw [he]; exact nofun), he]
      exact ⟨s'', rfl, hi⟩
    · obtain ⟨s'', he, h'⟩ := recv_more h hne hlen hbs (by omega) hn hpass.1
      rw [otaLoop_again htop he] at hpass ⊢
      rw [he] at hpass
      apply ih (r + bs.length) s'' s'' (top_again h') h' (by omega) ?_ ?_ hpass.2
      · rw [← List.drop_drop, hdrop, List.drop_left]
      · rw [Nat.mod_add_mod] at hrest
        exact hrest

theorem run_idle {s : OtaSys} (h : s.pc = .idle) : ∀ pieces : List (List UInt8),
    otaRun chip s (pieces.flatMap fun bs => [.top, .recv bs]) = s := by
  intro pieces
  induction pieces with
  | nil => rfl
  | cons bs rest ih =>
    simp only [otaRun, List.flatMap_cons, List.foldl_append, List.foldl_cons, List.foldl_nil, otaStep, h,
      reduceCtorEq, if_false] at ih ⊢
    exact ih

/-- The loop is the run of its passes. -/
theorem otaLoop_run : ∀ (pieces : List (List UInt8)) (s : OtaSys), s.pc = .top →
    otaRun chip s (pieces.flatMap fun bs => [.top, .recv bs]) =
      settle .top (otaLoop chip pieces s.toOtaSt) := by
  intro pieces
  induction pieces with
  | nil => intro s h; rw [otaLoop, settle, ← h]; rfl
  | cons bs rest ih =>
    intro s h
    have hrun : otaRun chip s ((bs :: rest).flatMap fun bs => [.top, .recv bs]) =
        otaRun chip (otaStep chip (settle .recv (otaTop s.toOtaSt)) (.recv bs))
          (rest.flatMap fun bs => [.top, .recv bs]) := by
      simp only [otaRun, List.flatMap_cons, List.foldl_append, List.foldl_cons, List.foldl_nil]
      simp only [otaStep, h, if_true]
    rw [hrun]
    simp only [otaLoop]
    generalize otaTop s.toOtaSt = t
    obtain ⟨s', o⟩ := t
    cases o with
    | again =>
      simp only [settle, otaStep, if_true]
      generalize otaRecv chip bs s' = t
      obtain ⟨s'', o⟩ := t
      cases o with
      | again => exact ih _ rfl
      | _ => exact run_idle rfl rest
    | _ => exact run_idle rfl rest

end

/-! ## Histories -/

/-- No upload is under way outside the loop. -/
structure Settled (s : OtaSys) : Prop where
  start : s.upgradeFlag.doing = true → s.upgradeFlag.start = true
  idle : s.pc = .idle → s.upgradeFlag.doing = false

section
variable (chip : Chip)

theorem replaceFirmware_flag : ∀ n i (s : OtaSt), (replaceFirmware chip i n s).2 = false →
    (replaceFirmware chip i n s).1.upgradeFlag = {} := by
  intro n
  induction n with
  | zero => intro i s h; exact absurd h nofun
  | succ n ih =>
    intro i s
    obtain ⟨w, -, ⟨-, h⟩ | ⟨-, h⟩⟩ := replaceFirmware_cases chip i n s
    · rw [h]; exact ih (i + 1) _
    · rw [h]; intro _; rfl

/-- A pass that does not end in a reset keeps the flag and goes on, or clears it
and leaves the loop. -/
theorem recv_flag (bs : List UInt8) (s : OtaSt) :
    (otaRecv chip bs s).2 = .again ∧ (otaRecv chip bs s).1.upgradeFlag = s.upgradeFlag ∨
      ((otaRecv chip bs s).2 = .closed ∨ (otaRecv chip bs s).2 = .failed) ∧
        (otaRecv chip bs s).1.upgradeFlag = {} ∨
      (otaRecv chip bs s).2 = .done := by
  obtain ⟨r, rfl, ⟨-, h⟩ | ⟨-, h⟩ | ⟨-, -, h⟩ | ⟨-, -, h⟩⟩ := otaRecv_cases chip bs s
  · rw [h]; exact .inr (.inl ⟨.inl rfl, rfl⟩)
  · rw [h]; exact .inl ⟨rfl, rfl⟩
  · rw [h]
    obtain ⟨st, rf, hst, rfl, ⟨hb, hf⟩ | ⟨-, hb, hf⟩ | ⟨-, -, hf⟩⟩ := finishUpgrade_cases chip (received _ s)
    · rw [hf]
      obtain ⟨w, -, ⟨-, hs⟩ | ⟨-, hs⟩⟩ := storeSector_cases chip
        { received (bs.take (4096 - s.writePtr)) s with upgradeFlag.okfile := true }
      · rw [hst, hs] at hb; exact absurd hb nofun
      · rw [hst, hs]; exact .inr (.inl ⟨.inr rfl, rfl⟩)
    · rw [hf]; exact .inr (.inl ⟨.inr rfl, replaceFirmware_flag chip _ _ _ hb⟩)
    · rw [hf]; exact .inr (.inr rfl)
  · rw [h]
    obtain ⟨w, -, ⟨-, hs⟩ | ⟨-, hs⟩⟩ := storeSector_cases chip (received (bs.take (4096 - s.writePtr)) s)
    · rw [hs]; exact .inl ⟨rfl, rfl⟩
    · rw [hs]; exact .inr (.inl ⟨.inr rfl, rfl⟩)

theorem settled_step {s : OtaSys} (h : Settled s) (e : OtaEv) : Settled (otaStep chip s e) := by
  cases e with
  | announce size => exact ⟨fun _ => rfl, h.idle⟩
  | ackFailed => exact ⟨fun hd => absurd hd Bool.false_ne_true, fun _ => rfl⟩
  | accept =>
    simp only [otaStep]
    split
    · exact ⟨h.start, fun hp => by cases hp⟩
    · exact h
  | top =>
    simp only [otaStep]
    by_cases hpc : s.pc = .top
    · rw [if_pos hpc]
      unfold otaTop
      by_cases hs : s.upgradeFlag.start = true
      · rw [if_pos hs]
        split
        · exact ⟨fun _ => hs, fun hp => by cases hp⟩
        · exact ⟨fun _ => hs, fun hp => by cases hp⟩
      · rw [if_neg hs]
        exact ⟨h.start, fun _ => Bool.eq_false_iff.mpr fun hd => hs (h.start hd)⟩
    · rw [if_neg hpc]; exact h
  | recv bs =>
    simp only [otaStep]
    by_cases hpc : s.pc = .recv
    · rw [if_pos hpc]
      have hflag := recv_flag chip bs s.toOtaSt
      generalize otaRecv chip bs s.toOtaSt = t at hflag ⊢
      obtain ⟨s', o⟩ := t
      obtain ⟨ho, hf⟩ | ⟨ho | ho, hf⟩ | ho := hflag
      · simp only at ho hf
        subst ho
        refine ⟨?_, fun hp => by cases hp⟩
        simp only [settle, hf]
        exact h.start
      · simp only at ho hf
        subst ho
        exact ⟨by simp only [settle, hf]; exact fun hd => absurd hd Bool.false_ne_true, fun _ => by simp only [settle, hf]⟩
      · simp only at ho hf
        subst ho
        exact ⟨by simp only [settle, hf]; exact fun hd => absurd hd Bool.false_ne_true, fun _ => by simp only [settle, hf]⟩
      · simp only at ho
        subst ho
        exact ⟨fun hd => absurd hd Bool.false_ne_true, fun _ => rfl⟩
    · rw [if_neg hpc]; exact h

theorem settled_run (es : List OtaEv) {s : OtaSys} (h : Settled s) : Settled (otaRun chip s es) :=
  Lib.run_inv h fun _ e hs => settled_step chip hs e

theorem upload_installs {s : OtaSys} (h : Settled s) {file : List UInt8} {pieces : List (List UInt8)}
    (hidle : s.pc = .idle) (hsec : s.upgradeSector = 0) (hne : file ≠ []) (hn : file.length ≤ 0x30000)
    (hp : pieces.flatten = file) (hsz : RecvSizes 0 pieces)
    (hok : NoneFailed s.flash (upload chip (.ofNat file.length) pieces s).1.flash) :
    ∃ s', upload chip (.ofNat file.length) pieces s = (s', .done) ∧ Installed file s' := by
  have hsize : (UInt32.ofNat file.length).toNat = file.length :=
    UInt32.toNat_ofNat_of_lt' (by rw [UInt32.size]; omega)
  have hacc : otaRun chip s [.announce (.ofNat file.length), .accept] =
      { s with upgradeFlag.start := true, fileSize := file.length, pc := .top } := by
    simp only [otaRun, List.foldl_cons, List.foldl_nil, otaStep, hidle, hsize, and_self, if_true]
  unfold upload at hok ⊢
  rw [hacc] at hok ⊢
  obtain ⟨s', htop, hflash, hrecv⟩ := @top_first file
    { s with upgradeFlag.start := true, fileSize := file.length } rfl (h.idle hidle) rfl hsec
  apply loop_installs hn pieces 0 _ s' htop hrecv (List.length_pos_iff.mpr hne) hp.symm hsz
  rw [hflash]
  exact hok

end

/-! ## Two uploads -/

theorem plain_replaceFirmware : ∀ n i (s : OtaSt),
    NoneFailed s.flash (replaceFirmware plainChip i n s).1.flash := by
  intro n
  induction n with
  | zero => intro i s; rfl
  | succ n ih =>
    intro i s
    obtain ⟨-, hf⟩ := @plain_writeOneSector (qspiFlashRead s.flash (otaFwBakOffset + 4096 * i)) _ s.flash
      (mainSector_aligned i)
    obtain ⟨w, rfl, ⟨-, h⟩ | ⟨-, h⟩⟩ := replaceFirmware_cases plainChip i n s
    · rw [h]
      exact hf.trans (ih (i + 1) { s with flash := _, otaDataBuf := _ })
    · rw [h]
      exact hf

theorem plain_recv (bs : List UInt8) (s : OtaSt) :
    NoneFailed s.flash (otaRecv plainChip bs s).1.flash := by
  obtain ⟨r, hr, ⟨-, h⟩ | ⟨-, h⟩ | ⟨-, -, h⟩ | ⟨-, -, h⟩⟩ := otaRecv_cases plainChip bs s
  · rw [h]; rfl
  · rw [h, hr]; rfl
  · have hflash : r.flash = s.flash := by rw [hr]; rfl
    rw [h, ← hflash]
    obtain ⟨flash, hf, hs⟩ := plain_storeSector { r with upgradeFlag.okfile := true }
    obtain ⟨hfin, -⟩ := finishUpgrade_of_store hs
    rw [hfin]
    exact hf.trans (plain_replaceFirmware _ 0 _)
  · have hflash : r.flash = s.flash := by rw [hr]; rfl
    obtain ⟨flash, hf, hs⟩ := plain_storeSector r
    rw [h, hs, ← hflash]
    exact hf

theorem plain_loop : ∀ pieces (s : OtaSt), NoneFailed s.flash (otaLoop plainChip pieces s).1.flash :=
  otaLoop_flash (fun _ => rfl) NoneFailed.trans plain_recv

theorem plain_upload (size : UInt32) (pieces : List (List UInt8)) (s : OtaSys) :
    NoneFailed s.flash (upload plainChip size pieces s).1.flash := by
  have h := plain_loop pieces (otaRun plainChip s [.announce size, .accept]).toOtaSt
  have hflash : (otaRun plainChip s [.announce size, .accept]).flash = s.flash := by
    simp only [otaRun, List.foldl_cons, List.foldl_nil, otaStep]
    split
    · rfl
    · rfl
  rw [hflash] at h
  exact h

/-- An upload of 49 sectors, cut off after the first of them. -/
def cutUpload : List OtaEv := fullUpload 1 ++ [.recv []]

theorem stored_cut {k : Nat} {s : OtaSys} (h : Stored k s) :
    (otaStep plainChip s (.recv [])).pc = .idle ∧ (otaStep plainChip s (.recv [])).upgradeSector = k ∧
      (otaStep plainChip s (.recv [])).upgradeFlag = {} := by
  rw [step_recv plainChip h.pc, otaRecv, List.take_nil, if_pos rfl]
  exact ⟨rfl, h.upgradeSector, rfl⟩

theorem cut_state : (otaRun plainChip (otaBoot blankFlash) cutUpload).pc = .idle ∧
    (otaRun plainChip (otaBoot blankFlash) cutUpload).upgradeSector = 1 ∧
    (otaRun plainChip (otaBoot blankFlash) cutUpload).upgradeFlag = {} := by
  have hrun : otaRun plainChip (otaBoot blankFlash) cutUpload =
      otaStep plainChip (otaRun plainChip (otaBoot blankFlash) (fullUpload 1)) (.recv []) :=
    (otaRun_append plainChip (fullUpload 1) [.recv []] (otaBoot blankFlash)).trans (run_single plainChip _ _)
  rw [hrun]
  exact stored_cut (stored_run blankFlash 1 (by decide))

/-- With one sector stored before, a file of one byte leaves the first byte of
the backup area as it is. -/
theorem misplaced {s : OtaSys} (hidle : s.pc = .idle) (hsec : s.upgradeSector = 1)
    (hflag : s.upgradeFlag = {}) (b : UInt8) :
    (upload plainChip (.ofNat 1) [[b]] s).1.flash.mem otaFwBakOffset = s.flash.mem otaFwBakOffset := by
  have hacc : otaRun plainChip s [.announce (.ofNat 1), .accept] =
      { s with upgradeFlag := { start := true }, fileSize := 1, pc := .top } := by
    simp only [otaRun, List.foldl_cons, List.foldl_nil, otaStep, hidle, hflag, and_self, if_true]
    rfl
  obtain ⟨s', htop, hflash, hsec'⟩ : ∃ s', otaTop { s with upgradeFlag := { start := true }, fileSize := 1 } =
      (s', .again) ∧ s'.flash = s.flash ∧ s'.upgradeSector = 1 := ⟨_, rfl, rfl, hsec⟩
  have hw : Within (fun x => x ≠ otaFwBakOffset) s'.flash (otaRecv plainChip [b] s').1.flash := by
    apply recv_within
    · intro _ x hx
      rw [hsec', flashAdr_bakSector (by decide)] at hx
      obtain ⟨h0, -⟩ := hx
      unfold otaFwBakOffset
      omega
    · intro _ j hj x hx
      unfold InSector flashAdr nvmFwMainOffset at hx
      unfold otaFwBakOffset
      omega
  have hloop : (otaLoop plainChip [[b]] { s with upgradeFlag := { start := true }, fileSize := 1 }).1.flash =
      (otaRecv plainChip [b] s').1.flash := by
    by_cases ho : (otaRecv plainChip [b] s').2 = .again
    · rw [otaLoop_again htop (Prod.ext rfl ho)]
      rfl
    · rw [otaLoop_stop htop ho]
  unfold upload
  rw [hacc, hloop, ← hflash]
  exact hw.mem _ fun h => h rfl

end GizwitsSdk
