import GizwitsSdk.Flash

/-!
# The verdict of `QSpiWriteOneSector`

The retry counter is read after the loop as if 0 meant that no try is left. It
is 0 after a success on the last try; when all tries fail it has wrapped.
-/

namespace GizwitsSdk

open Lib

/-! ## How many tries a page takes -/

/-- Up to `n` tries at one page; which of them, counted from `k + 1`, is the
first to read back equal. -/
def tryPage (chip : Chip) (pBuf : Mem) (a p : Nat) : (k n : Nat) → Flash → Flash × Option Nat
  | _, 0, f => (f, none)
  | k, n + 1, f =>
    let f := qspiFlashWriteOnePage chip pBuf a p f
    if memcmp (qspiFlashRead f a) (fun k => pBuf (p + k)) 256 then (f, some (k + 1))
    else tryPage chip pBuf a p (k + 1) n f

/-- The tries of pages `i, …`, `n` of them, ten for each at most. -/
def pageTries (chip : Chip) (pBuf : Mem) (a : Nat) : (i n : Nat) → Flash → List (Option Nat)
  | _, 0, _ => []
  | i, n + 1, f =>
    let r := tryPage chip pBuf (a + 256 * i) (256 * i) 0 10 f
    r.2 :: pageTries chip pBuf a (i + 1) n r.1

/-- What the chip does with each page of the sector when the buffer is written to it. -/
def sectorTries (chip : Chip) (a : Nat) (pBuf : Mem) (f : Flash) : List (Option Nat) :=
  pageTries chip pBuf a 0 16 (qspiFlashEraseSector a f)

section
variable (chip : Chip) (pBuf : Mem) (a : Nat)

theorem tryPage_some {p : Nat} : ∀ n k f t, (tryPage chip pBuf a p k n f).2 = some t →
    k < t ∧ t ≤ k + n ∧ ∀ l < 256, qspiFlashRead (tryPage chip pBuf a p k n f).1 a l = pBuf (p + l) := by
  intro n
  induction n with
  | zero => intro k f t h; cases h
  | succ n ih =>
    intro k f t h
    simp only [tryPage] at h ⊢
    by_cases hm : memcmp (qspiFlashRead (qspiFlashWriteOnePage chip pBuf a p f) a)
        (fun k => pBuf (p + k)) 256
    · rw [if_pos hm] at h ⊢
      cases h
      exact ⟨by omega, by omega, memcmp_iff.mp hm⟩
    · rw [if_neg hm] at h ⊢
      obtain ⟨h0, h1, hr⟩ := ih (k + 1) _ t h
      exact ⟨by omega, by omega, hr⟩

theorem writePageLoop_eq (p : Nat) : ∀ n k f,
    writePageLoop chip pBuf a p n f =
      ((tryPage chip pBuf a p k n f).1,
        (tryPage chip pBuf a p k n f).2.elim (-1) fun t => (k : Int) + n - t) := by
  intro n
  induction n with
  | zero => intro k f; rfl
  | succ n ih =>
    intro k f
    simp only [writePageLoop, tryPage]
    split
    · have hj : (n : Int) = (k : Int) + ((n + 1 : Nat) : Int) - ((k + 1 : Nat) : Int) := by omega
      rw [Option.elim_some, ← hj]
    · rw [ih (k + 1)]
      have hj : ((k + 1 : Nat) : Int) + n = (k : Int) + ((n + 1 : Nat) : Int) := by omega
      rw [hj]

theorem writePageLoop_fst (p n : Nat) (f : Flash) :
    (writePageLoop chip pBuf a p n f).1 = (tryPage chip pBuf a p 0 n f).1 := by
  rw [writePageLoop_eq chip pBuf a p n 0 f]

theorem writePageLoop_zero_iff (p : Nat) (f : Flash) :
    (writePageLoop chip pBuf a p 10 f).2 = 0 ↔ (tryPage chip pBuf a p 0 10 f).2 = some 10 := by
  rw [writePageLoop_eq chip pBuf a p 10 0 f]
  cases (tryPage chip pBuf a p 0 10 f).2 with
  | none => exact ⟨fun h => (nomatch (show (-1 : Int) = 0 from h)), fun h => nomatch h⟩
  | some t =>
    simp only [Option.elim_some, Option.some.injEq]
    omega

/-- The tests of the counter stop the write at the pages that took all ten tries, and only there. -/
theorem writePages_true_iff : ∀ n i f,
    (writePages chip pBuf a i n f).2 = true ↔ some 10 ∉ pageTries chip pBuf a i n f := by
  intro n
  induction n with
  | zero => intro i f; exact ⟨fun _ => List.not_mem_nil, fun _ => rfl⟩
  | succ n ih =>
    intro i f
    simp only [writePages, pageTries, List.mem_cons, not_or]
    have hz := writePageLoop_zero_iff chip pBuf (a + 256 * i) (256 * i) f
    by_cases hj : (writePageLoop chip pBuf (a + 256 * i) (256 * i) 10 f).2 = 0
    · rw [if_pos hj]
      exact ⟨fun h => absurd h Bool.false_ne_true, fun h => absurd (hz.mp hj).symm h.1⟩
    · rw [if_neg hj, ih, writePageLoop_fst]
      exact ⟨fun h => ⟨fun he => hj (hz.mpr he.symm), h⟩, fun h => h.2⟩

variable {a}

theorem writePages_content (ha : a % 4096 = 0) : ∀ n i f, i + n ≤ 16 →
    (∀ t ∈ pageTries chip pBuf a i n f, ∃ k ≤ 9, t = some k) →
    (∀ l < 256 * i, f.mem (flashAdr a + l) = pBuf l) →
    ∀ l < 256 * (i + n), (writePages chip pBuf a i n f).1.mem (flashAdr a + l) = pBuf l := by
  intro n
  induction n with
  | zero => intro i f _ _ hf l hl; exact hf l hl
  | succ n ih =>
    intro i f hi ht hf l hl
    have hp := flashAdr_page ha (show i < 16 by omega)
    have hlt : flashAdr a < 16777216 := Nat.mod_lt _ (by decide)
    have hal : flashAdr a % 4096 = 0 := by unfold flashAdr; omega
    obtain ⟨k, hk, he⟩ := ht _ List.mem_cons_self
    obtain ⟨-, -, hr⟩ := tryPage_some chip pBuf (a + 256 * i) 10 0 f k he
    have hj : (writePageLoop chip pBuf (a + 256 * i) (256 * i) 10 f).2 ≠ 0 := by
      intro h0
      rw [writePageLoop_zero_iff, he, Option.some.injEq] at h0
      omega
    have hw := writePageLoop_within chip pBuf (256 * i) (a := a + 256 * i)
      (Nat.le_refl (flashAdr (a + 256 * i))) (by omega) 10 f
    simp only [writePages]
    rw [if_neg hj, writePageLoop_fst]
    rw [writePageLoop_fst] at hw
    apply ih (i + 1) _ (by omega) (fun t h => ht t (List.mem_cons_of_mem _ h)) _ l (by omega)
    intro l hl
    by_cases hle : l < 256 * i
    · rw [← hf l hle]
      exact hw.mem _ fun hx => absurd hx.1 (by omega)
    · rw [show flashAdr a + l = flashAdr (a + 256 * i) + (l - 256 * i) by omega,
        ← read_page _ (by omega) (by omega), hr _ (by omega)]
      congr 1
      omega

end

/-! ## The verdict -/

section
variable {pBuf : Mem} {a : Nat}

theorem countFailed_verdict (r : Flash × Bool) :
    (countFailed pBuf a r).2 = r.2 ∧ (countFailed pBuf a r).1.mem = r.1.mem := by
  unfold countFailed
  split
  · exact ⟨rfl, rfl⟩
  · exact ⟨rfl, rfl⟩

theorem writeOneSector_true_iff (chip : Chip) (f : Flash) :
    (qspiWriteOneSector chip a pBuf f).2 = true ↔ some 10 ∉ sectorTries chip a pBuf f := by
  unfold qspiWriteOneSector sectorTries
  rw [(countFailed_verdict _).1, writePages_true_iff]

theorem writeOneSector_content {chip : Chip} {f : Flash} (ha : a % 4096 = 0)
    (h : ∀ t ∈ sectorTries chip a pBuf f, ∃ k ≤ 9, t = some k) :
    ∀ l < 4096, (qspiWriteOneSector chip a pBuf f).1.mem (flashAdr a + l) = pBuf l := by
  intro l hl
  unfold qspiWriteOneSector
  rw [(countFailed_verdict _).2]
  exact writePages_content chip pBuf ha 16 0 _ (Nat.le_refl _) h (fun l h0 => absurd h0 (Nat.not_lt_zero l))
    l hl

theorem pageTries_le {chip : Chip} : ∀ n i f, ∀ t ∈ pageTries chip pBuf a i n f, ∀ k, t = some k → k ≤ 10 := by
  intro n
  induction n with
  | zero => intro i f t ht; exact absurd ht List.not_mem_nil
  | succ n ih =>
    intro i f t ht k hk
    rcases List.mem_cons.mp ht with ht | ht
    · have h := (tryPage_some chip pBuf (a + 256 * i) 10 0 f k (ht ▸ hk)).2.1
      omega
    · exact ih _ _ t ht k hk

end

/-- It returns 0 exactly when each page reads back equal within ten tries, and
then the sector is the buffer. -/
def TellsTruth (chip : Chip) (a : Nat) (pBuf : Mem) (f : Flash) : Prop :=
  ((qspiWriteOneSector chip a pBuf f).2 = true ↔ ∀ t ∈ sectorTries chip a pBuf f, ∃ k ≤ 10, t = some k) ∧
    ((qspiWriteOneSector chip a pBuf f).2 = true →
      ∀ l < 4096, (qspiWriteOneSector chip a pBuf f).1.mem (flashAdr a + l) = pBuf l)

/-- **The verdict is right only away from the last try.** Either each page takes
at most nine tries, or one takes all ten while another never reads back equal. -/
theorem writeOneSector_tells_truth_iff (chip : Chip) (pBuf : Mem) (f : Flash) {a : Nat} (ha : a % 4096 = 0) :
    TellsTruth chip a pBuf f ↔
      (∀ t ∈ sectorTries chip a pBuf f, ∃ k ≤ 9, t = some k) ∨
        (some 10 ∈ sectorTries chip a pBuf f ∧ none ∈ sectorTries chip a pBuf f) := by
  have hle := @pageTries_le pBuf a chip 16 0 (qspiFlashEraseSector a f)
  have hv := @writeOneSector_true_iff pBuf a chip f
  constructor
  · rintro ⟨hiff, -⟩
    by_cases h10 : some 10 ∈ sectorTries chip a pBuf f
    · right
      refine ⟨h10, ?_⟩
      by_contra hn
      refine hv.mp (hiff.mpr fun t ht => ?_) h10
      cases t with
      | none => exact absurd ht hn
      | some k => exact ⟨k, hle _ ht k rfl, rfl⟩
    · left
      intro t ht
      obtain ⟨k, hk, rfl⟩ := hiff.mp (hv.mpr h10) t ht
      refine ⟨k, ?_, rfl⟩
      have hne : k ≠ 10 := fun he => h10 (he ▸ ht)
      omega
  · rintro (h9 | ⟨h10, hn⟩)
    · refine ⟨⟨fun _ t ht => ?_, fun _ => hv.mpr fun h10 => ?_⟩, fun _ => writeOneSector_content ha h9⟩
      · obtain ⟨k, hk, he⟩ := h9 t ht
        exact ⟨k, by omega, he⟩
      · obtain ⟨k, hk, he⟩ := h9 _ h10
        cases he
        exact absurd hk (by decide)
    · refine ⟨⟨fun h => absurd h10 (hv.mp h), fun h => ?_⟩, fun h => absurd h10 (hv.mp h)⟩
      obtain ⟨k, -, he⟩ := h _ hn
      cases he

theorem plainChip_tells_truth : TellsTruth plainChip 4096 (fun k => .ofNat k) blankFlash :=
  (writeOneSector_tells_truth_iff plainChip _ blankFlash (by decide)).mpr (.inl (by decide +kernel))

/-- A page that never takes the data, and one that takes it on the tenth try:
the verdicts are the wrong way round. -/
theorem writeOneSector_verdict_wrong :
    (¬ TellsTruth (fun _ _ _ _ => 0) 0 (fun _ => 1) blankFlash) ∧
      ¬ TellsTruth (fun n _ _ new => if n % 10 = 9 then new else 0) 0 (fun _ => 1) blankFlash := by
  constructor
  · rintro ⟨h, -⟩
    have h0 : none ∈ sectorTries (fun _ _ _ _ => 0) 0 (fun _ => 1) blankFlash := by decide +kernel
    have h1 : (qspiWriteOneSector (fun _ _ _ _ => 0) 0 (fun _ => 1) blankFlash).2 = true := by decide +kernel
    obtain ⟨k, -, he⟩ := h.mp h1 _ h0
    cases he
  · rintro ⟨h, -⟩
    have h0 : (qspiWriteOneSector (fun n _ _ new => if n % 10 = 9 then new else 0) 0 (fun _ => 1)
      blankFlash).2 = false := by decide +kernel
    have h1 : ∀ t ∈ sectorTries (fun n _ _ new => if n % 10 = 9 then new else 0) 0 (fun _ => 1) blankFlash,
      t = some 10 := by decide +kernel
    rw [h.mpr fun t ht => ⟨10, Nat.le_refl _, h1 t ht⟩] at h0
    cases h0

end GizwitsSdk
