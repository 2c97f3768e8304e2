import GizwitsSdk.Lib.Memory

/-!
# The serial flash: `flash.c`

A sector is erased to 0xff and programmed page by page, each page read back
and tried again. What a program command leaves in the chip is not ours to say:
it is a parameter. The log of commands and the count of failed sector writes
are not in the source; they record what was sent and how it went.
-/

namespace GizwitsSdk

open Lib

/-- The byte that the `n`-th program command leaves at offset `k` of its page,
where `old` stood and `new` was sent. -/
abbrev Chip := (n k : Nat) → (old new : UInt8) → UInt8

inductive FlashCmd
  | sectorErase (addr : Nat)
  | pageWrite (addr : Nat)
  deriving DecidableEq

/-- The command changes, or may change, byte `x`. -/
def FlashCmd.Covers (x : Nat) : FlashCmd → Prop
  | sectorErase a => a ≤ x ∧ x < a + 4096
  | pageWrite a => a ≤ x ∧ x < a + 256

structure Flash where
  mem : Mem
  /-- program commands sent -/
  programs : Nat
  /-- latest first -/
  log : List FlashCmd
  /-- sector writes that returned -1 or left something else than the buffer -/
  failed : Nat

def flashAdr (a : Nat) : Nat := a % 16777216

def qspiFlashRead (f : Flash) (a : Nat) : Mem := fun k => f.mem (flashAdr (a + k))

def qspiFlashEraseSector (a : Nat) (f : Flash) : Flash :=
  { f with
    mem := fun x => if flashAdr a ≤ x ∧ x < flashAdr a + 4096 then 0xff else f.mem x
    log := .sectorErase (flashAdr a) :: f.log }

/-- Sends the page `pBuf[p .. p + 256)` to address `a`. -/
def qspiFlashWriteOnePage (chip : Chip) (pBuf : Mem) (a p : Nat) (f : Flash) : Flash :=
  { f with
    mem := fun x =>
      if flashAdr a ≤ x ∧ x < flashAdr a + 256 then
        chip f.programs (x - flashAdr a) (f.mem x) (pBuf (p + (x - flashAdr a)))
      else f.mem x
    programs := f.programs + 1
    log := .pageWrite (flashAdr a) :: f.log }

/-- `while (j--)`, with the value of `j` after the loop. The last attempt
leaves 0 when it succeeds and -1 when it fails. -/
def writePageLoop (chip : Chip) (pBuf : Mem) (a p : Nat) : Nat → Flash → Flash × Int
  | 0, f => (f, -1)
  | j + 1, f =>
    let f := qspiFlashWriteOnePage chip pBuf a p f
    if memcmp (qspiFlashRead f a) (fun k => pBuf (p + k)) 256 then (f, j)
    else writePageLoop chip pBuf a p j f

/-- Pages `i, …, 15`, `n` of them; `false` is the return of -1. -/
def writePages (chip : Chip) (pBuf : Mem) (a : Nat) : (i n : Nat) → Flash → Flash × Bool
  | _, 0, f => (f, true)
  | i, n + 1, f =>
    match writePageLoop chip pBuf (a + 256 * i) (256 * i) 10 f with
    | (f, j) => if j = 0 then (f, false) else writePages chip pBuf a (i + 1) n f

def countFailed (pBuf : Mem) (a : Nat) (r : Flash × Bool) : Flash × Bool :=
  if r.2 && memcmp (qspiFlashRead r.1 a) pBuf 4096 then r
  else ({ r.1 with failed := r.1.failed + 1 }, r.2)

def qspiWriteOneSector (chip : Chip) (a : Nat) (pBuf : Mem) (f : Flash) : Flash × Bool :=
  countFailed pBuf a (writePages chip pBuf a 0 16 (qspiFlashEraseSector a f))

theorem read_page (f : Flash) {a k : Nat} (h : flashAdr a + 256 ≤ 16777216) (hk : k < 256) :
    qspiFlashRead f a k = f.mem (flashAdr a + k) := by
  unfold qspiFlashRead flashAdr at *
  congr 1
  omega

theorem read_sector {f : Flash} {a k : Nat} (ha : a % 4096 = 0) (hk : k < 4096) :
    qspiFlashRead f a k = f.mem (flashAdr a + k) := by
  unfold qspiFlashRead flashAdr
  congr 1
  omega

/-! ## What commands leave alone -/

/-- From `f` to `f'` only commands that stay within `P` were sent. -/
structure Within (P : Nat → Prop) (f f' : Flash) : Prop where
  mem : ∀ x, ¬ P x → f'.mem x = f.mem x
  log : ∃ l, f'.log = l ++ f.log ∧ ∀ c ∈ l, ∀ x, c.Covers x → P x
  failed : f.failed ≤ f'.failed

def NoneFailed (f f' : Flash) : Prop := f'.failed = f.failed

def Sent (c : FlashCmd) (f f' : Flash) : Prop := ∃ l, f'.log = l ++ f.log ∧ c ∈ l

/-- The sector at `a`, an address that is not cut. -/
def InSector (a x : Nat) : Prop := a ≤ x ∧ x < a + 4096

section
variable {P Q : Nat → Prop} {f f' f'' : Flash}

theorem Within.refl (P : Nat → Prop) (f : Flash) : Within P f f :=
  ⟨fun _ _ => rfl, ⟨[], rfl, fun _ h => nomatch h⟩, Nat.le_refl _⟩

theorem Within.trans (h : Within P f f') (h' : Within P f' f'') : Within P f f'' := by
  obtain ⟨l, hl, hc⟩ := h.log
  obtain ⟨l', hl', hc'⟩ := h'.log
  refine ⟨fun x hx => (h'.mem x hx).trans (h.mem x hx), ⟨l' ++ l, ?_, ?_⟩, Nat.le_trans h.failed h'.failed⟩
  · rw [hl', hl, List.append_assoc]
  · intro c hm
    rcases List.mem_append.mp hm with hm | hm
    · exact hc' c hm
    · exact hc c hm

theorem Within.mono (h : Within P f f') (hPQ : ∀ x, P x → Q x) : Within Q f f' := by
  obtain ⟨l, hl, hc⟩ := h.log
  refine ⟨fun x hx => h.mem x fun hp => hx (hPQ x hp), ⟨l, hl, ?_⟩, h.failed⟩
  intro c hm x hx
  exact hPQ x (hc c hm x hx)

theorem Within.grows (h : Within P f f') : Within (fun _ => True) f f' := h.mono fun _ _ => trivial

theorem Within.of_trans (h : Within P f f'') (h' : Within P f f') (hg : Within (fun _ => True) f' f'') :
    Within P f' f'' := by
  obtain ⟨l, hl, hc⟩ := h.log
  obtain ⟨l', hl', -⟩ := h'.log
  obtain ⟨k, hk, -⟩ := hg.log
  have he : l = k ++ l' := by
    apply @List.append_cancel_right _ l f.log
    rw [← hl, hk, hl', List.append_assoc]
  refine ⟨fun x hx => (h.mem x hx).trans (h'.mem x hx).symm, ⟨k, hk, ?_⟩, hg.failed⟩
  intro c hm
  exact hc c (he ▸ List.mem_append_left l' hm)

theorem NoneFailed.trans (h : NoneFailed f f') (h' : NoneFailed f' f'') : NoneFailed f f'' := Eq.trans h' h

theorem NoneFailed.split (h : NoneFailed f f'') (hw : Within P f f') (hw' : Within Q f' f'') :
    NoneFailed f f' ∧ NoneFailed f' f'' := by
  have h1 : f'.failed = f.failed := Nat.le_antisymm (Nat.le_trans hw'.failed (Nat.le_of_eq h)) hw.failed
  exact ⟨h1, Eq.trans h h1.symm⟩

theorem Sent.before {c : FlashCmd} (h : Sent c f f') (hg : Within (fun _ => True) f' f'') : Sent c f f'' := by
  obtain ⟨l, hl, hm⟩ := h
  obtain ⟨k, hk, -⟩ := hg.log
  exact ⟨k ++ l, by rw [hk, hl, List.append_assoc], List.mem_append_right k hm⟩

theorem Within.covers (h : Within P f f') {c : FlashCmd} (hc : Sent c f f') {x : Nat}
    (hx : c.Covers x) : P x := by
  obtain ⟨l, hl, hP⟩ := h.log
  obtain ⟨k, hk, hm⟩ := hc
  have he : k = l := List.append_cancel_right (hk.symm.trans hl)
  exact hP c (he ▸ hm) x hx

end

section
variable (chip : Chip) (pBuf : Mem) (a : Nat)

theorem erase_within (f : Flash) : Within (InSector (flashAdr a)) f (qspiFlashEraseSector a f) := by
  refine ⟨fun x hx => if_neg hx, ⟨[.sectorErase (flashAdr a)], rfl, ?_⟩, Nat.le_refl _⟩
  intro c hc x hx
  rw [List.mem_singleton.mp hc] at hx
  exact hx

variable {a}

theorem writeOnePage_within (p : Nat) {b : Nat} (f : Flash) (h0 : b ≤ flashAdr a)
    (h1 : flashAdr a + 256 ≤ b + 4096) :
    Within (InSector b) f (qspiFlashWriteOnePage chip pBuf a p f) := by
  refine ⟨fun x hx => if_neg ?_, ⟨[.pageWrite (flashAdr a)], rfl, ?_⟩, Nat.le_refl _⟩
  · intro hp
    apply hx
    exact ⟨by omega, by omega⟩
  · intro c hc x hx
    rw [List.mem_singleton.mp hc] at hx
    obtain ⟨hx0, hx1⟩ := hx
    exact ⟨by omega, by omega⟩

theorem writePageLoop_within (p : Nat) {b : Nat} (h0 : b ≤ flashAdr a) (h1 : flashAdr a + 256 ≤ b + 4096) :
    ∀ j f, Within (InSector b) f (writePageLoop chip pBuf a p j f).1 := by
  intro j
  induction j with
  | zero => intro f; exact Within.refl _ f
  | succ j ih =>
    intro f
    have h := writeOnePage_within chip pBuf p f h0 h1
    simp only [writePageLoop]
    split
    · exact h
    · exact h.trans (ih _)

theorem flashAdr_page {i : Nat} (ha : a % 4096 = 0) (hi : i < 16) :
    flashAdr (a + 256 * i) = flashAdr a + 256 * i := by
  unfold flashAdr; omega

theorem writePages_within (ha : a % 4096 = 0) :
    ∀ n i f, i + n ≤ 16 → Within (InSector (flashAdr a)) f (writePages chip pBuf a i n f).1 := by
  intro n
  induction n with
  | zero => intro i f _; exact Within.refl _ f
  | succ n ih =>
    intro i f hi
    have hp := flashAdr_page ha (show i < 16 by omega)
    have h := writePageLoop_within chip pBuf (256 * i)
      (show flashAdr a ≤ flashAdr (a + 256 * i) by omega) (by omega) 10 f
    simp only [writePages]
    generalize writePageLoop chip pBuf (a + 256 * i) (256 * i) 10 f = r at h ⊢
    by_cases hj : r.2 = 0
    · rw [if_pos hj]; exact h
    · rw [if_neg hj]; exact h.trans (ih (i + 1) r.1 (by omega))

variable (a) in
theorem countFailed_within (P : Nat → Prop) (r : Flash × Bool) :
    Within P r.1 (countFailed pBuf a r).1 := by
  unfold countFailed
  split
  · exact Within.refl P r.1
  · exact ⟨fun _ _ => rfl, ⟨[], rfl, fun _ h => nomatch h⟩, Nat.le_succ _⟩

variable {pBuf} in
theorem countFailed_ok {r : Flash × Bool} (h : (countFailed pBuf a r).1.failed ≤ r.1.failed) :
    countFailed pBuf a r = r ∧ r.2 = true ∧ ∀ k < 4096, qspiFlashRead r.1 a k = pBuf k := by
  unfold countFailed at h ⊢
  by_cases hr : r.2 && memcmp (qspiFlashRead r.1 a) pBuf 4096
  · rw [if_pos hr]
    rw [Bool.and_eq_true] at hr
    exact ⟨rfl, hr.1, memcmp_iff.mp hr.2⟩
  · rw [if_neg hr] at h
    exact absurd h (Nat.not_succ_le_self _)

variable {pBuf} in
theorem countFailed_of_read {r : Flash × Bool} (h : r.2 = true)
    (hread : memcmp (qspiFlashRead r.1 a) pBuf 4096 = true) : countFailed pBuf a r = r := by
  unfold countFailed
  rw [h, hread]
  rfl

theorem writeOneSector_within (f : Flash) (ha : a % 4096 = 0) :
    Within (InSector (flashAdr a)) f (qspiWriteOneSector chip a pBuf f).1 := by
  apply ((erase_within a f).trans (writePages_within chip pBuf ha 16 0 _ (Nat.le_refl _))).trans
  exact countFailed_within pBuf a _ _

theorem writeOneSector_erases (f : Flash) (ha : a % 4096 = 0) :
    Sent (.sectorErase (flashAdr a)) f (qspiWriteOneSector chip a pBuf f).1 := by
  have he : Sent (.sectorErase (flashAdr a)) f (qspiFlashEraseSector a f) :=
    ⟨[_], rfl, List.mem_singleton_self _⟩
  apply he.before
  exact ((writePages_within chip pBuf ha 16 0 _ (Nat.le_refl _)).trans
    (countFailed_within pBuf a _ _)).grows

variable {chip pBuf}

theorem writeOneSector_ok {f : Flash} (ha : a % 4096 = 0)
    (h : NoneFailed f (qspiWriteOneSector chip a pBuf f).1) :
    (qspiWriteOneSector chip a pBuf f).2 = true ∧
      ∀ k < 4096, (qspiWriteOneSector chip a pBuf f).1.mem (flashAdr a + k) = pBuf k := by
  have hle := ((erase_within a f).trans (writePages_within chip pBuf ha 16 0 _
    (Nat.le_refl _))).failed
  unfold NoneFailed qspiWriteOneSector at h
  unfold qspiWriteOneSector
  obtain ⟨he, hr, hk⟩ := countFailed_ok (h ▸ hle)
  rw [he]
  refine ⟨hr, fun k hlt => ?_⟩
  rw [← hk k hlt, read_sector ha hlt]

end

/-! ## A chip that does what it is told -/

def plainChip : Chip := fun _ _ _ new => new

def blankFlash : Flash := ⟨fun _ => 0xff, 0, [], 0⟩

section
variable {pBuf : Mem} {a : Nat}

theorem plain_page {p k : Nat} (f : Flash) (hk : k < 256) :
    (qspiFlashWriteOnePage plainChip pBuf a p f).mem (flashAdr a + k) = pBuf (p + k) := by
  simp only [qspiFlashWriteOnePage, plainChip]
  rw [if_pos ⟨by omega, by omega⟩, Nat.add_sub_cancel_left]

theorem plain_pageLoop {p j : Nat} (f : Flash) (h : flashAdr a + 256 ≤ 16777216) :
    writePageLoop plainChip pBuf a p (j + 1) f = (qspiFlashWriteOnePage plainChip pBuf a p f, (j : Int)) := by
  simp only [writePageLoop]
  rw [if_pos (memcmp_iff.mpr fun k hk => ?_)]
  rw [read_page _ h hk, plain_page f hk]

theorem plain_pages (ha : a % 4096 = 0) :
    ∀ n i f, i + n ≤ 16 →
      (writePages plainChip pBuf a i n f).2 = true ∧
      (writePages plainChip pBuf a i n f).1.failed = f.failed ∧
      ∀ k < 256 * (i + n), (∀ l < 256 * i, f.mem (flashAdr a + l) = pBuf l) →
        (writePages plainChip pBuf a i n f).1.mem (flashAdr a + k) = pBuf k := by
  intro n
  induction n with
  | zero => intro i f _; exact ⟨rfl, rfl, fun k hk hf => hf k hk⟩
  | succ n ih =>
    intro i f hi
    have hp := flashAdr_page ha (show i < 16 by omega)
    have hlt : flashAdr a < 16777216 := Nat.mod_lt _ (by decide)
    have hal : flashAdr a % 4096 = 0 := by unfold flashAdr; omega
    obtain ⟨hr, hfail, hmem⟩ :=
      ih (i + 1) (qspiFlashWriteOnePage plainChip pBuf (a + 256 * i) (256 * i) f) (by omega)
    simp only [writePages]
    rw [plain_pageLoop f (by omega)]
    refine ⟨hr, hfail, fun k hk hf => hmem k (by omega) fun l hl => ?_⟩
    by_cases hle : l < 256 * i
    · rw [← hf l hle]
      exact if_neg (by omega)
    · have h := @plain_page pBuf (a + 256 * i) (256 * i) (l - 256 * i) f (by omega)
      rw [hp, show flashAdr a + 256 * i + (l - 256 * i) = flashAdr a + l by omega,
        show 256 * i + (l - 256 * i) = l by omega] at h
      exact h

theorem plain_writeOneSector (f : Flash) (ha : a % 4096 = 0) :
    (qspiWriteOneSector plainChip a pBuf f).2 = true ∧
      NoneFailed f (qspiWriteOneSector plainChip a pBuf f).1 := by
  obtain ⟨hr, hfail, hmem⟩ :=
    @plain_pages pBuf a ha 16 0 (qspiFlashEraseSector a f) (Nat.le_refl _)
  have hread : memcmp (qspiFlashRead (writePages plainChip pBuf a 0 16
      (qspiFlashEraseSector a f)).1 a) pBuf 4096 = true := by
    apply memcmp_iff.mpr
    intro k hk
    rw [read_sector ha hk]
    exact hmem k hk fun l hl => absurd hl (Nat.not_lt_zero _)
  have he : qspiWriteOneSector plainChip a pBuf f = writePages plainChip pBuf a 0 16
      (qspiFlashEraseSector a f) := countFailed_of_read hr hread
  rw [he]
  exact ⟨hr, hfail⟩

end

end GizwitsSdk
