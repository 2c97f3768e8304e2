import GizwitsSdk.Flash
import GizwitsSdk.Lib.Heap

/-!
# Writing any range of the flash: `nl6621_drv.c`

`WriteFlash` goes sector by sector and programs a range in place when it is
blank, else it erases the sector and programs all of it from a buffer. The chip
is a NOR flash: programming clears bits and stays within a page.
-/

namespace GizwitsSdk

open Lib

/-! ## A NOR chip -/

def programBytes (pBuf : Mem) (adr p : Nat) : (i n : Nat) → Mem → Mem
  | _, 0, m => m
  | i, n + 1, m =>
    let x := adr / 256 * 256 + (adr + i) % 256
    programBytes pBuf adr p (i + 1) n (store8 m x (m x &&& pBuf (p + i)))

/-- `QSpiFlashWriteOnePage` with `DataLen` bytes from `pBuf[p]`. -/
def norWriteOnePage (pBuf : Mem) (a p dataLen : Nat) (f : Flash) : Flash :=
  { f with
    mem := programBytes pBuf (flashAdr a) p 0 dataLen f.mem
    programs := f.programs + 1
    log := .pageWrite (flashAdr a) :: f.log }

def writeAnyLoop (pData : Mem) : (fuel p writeAddr dataLen pageremain : Nat) → Flash → Option Flash
  | 0, _, _, _, _, _ => none
  | fuel + 1, p, writeAddr, dataLen, pageremain, f =>
    let f := norWriteOnePage pData writeAddr p pageremain f
    if dataLen = pageremain then some f
    else
      let dataLen := dataLen - pageremain
      writeAnyLoop pData fuel (p + pageremain) (writeAddr + pageremain) dataLen
        (if 256 < dataLen then 256 else dataLen) f

/-- `QSpiWriteAny`, which returns 0 whatever happens. -/
def qspiWriteAny (pData : Mem) (p writeAddr dataLen : Nat) (f : Flash) : Option Flash :=
  let pageremain := 256 - writeAddr % 256
  writeAnyLoop pData (dataLen + 1) p writeAddr dataLen (if dataLen ≤ pageremain then dataLen else pageremain) f

/-! ## `WriteFlash` -/

/-- The buffer after the sector was read and `n` bytes were put at `off`. -/
def patchBuf (flashBuf pData : Mem) (off p n : Nat) : Mem := fun k =>
  if off ≤ k ∧ k < off + n then pData (p + (k - off)) else flashBuf k

/-- One round: the bytes `pData[p .. p + secreMain)` to `sectorOff` in the sector. -/
def writeSector (pData : Mem) (sectorNum sectorOff secreMain p writeAddr : Nat) (f : Flash) : Option Flash :=
  let flashBuf := qspiFlashRead f (sectorNum * 4096)
  if (List.range secreMain).any fun i => flashBuf (sectorOff + i) ≠ 0xff then
    qspiWriteAny (patchBuf flashBuf pData sectorOff p secreMain) 0 (sectorNum * 4096) 4096
      (qspiFlashEraseSector (sectorNum * 4096) f)
  else qspiWriteAny pData p writeAddr secreMain f

/-- The loop of `WriteFlash`; the sector number has eight bits. -/
def writeFlashLoop (pData : Mem) :
    (fuel sectorNum sectorOff secreMain p writeAddr dataLen : Nat) → Flash → Option Flash
  | 0, _, _, _, _, _, _, _ => none
  | fuel + 1, sectorNum, sectorOff, secreMain, p, writeAddr, dataLen, f =>
    (writeSector pData sectorNum sectorOff secreMain p writeAddr f).bind fun f =>
      if dataLen = secreMain then some f
      else
        let dataLen := dataLen - secreMain
        writeFlashLoop pData fuel ((sectorNum + 1) % 256) 0 (if 4096 < dataLen then 4096 else dataLen)
          (p + secreMain) (writeAddr + secreMain) dataLen f

/-- `answer` is the allocator's; without a buffer the sector is read to `NULL`. -/
def writeFlash (answer : Option Nat) (pData : Mem) (dataLen burnStartPos : Nat) (s : BlockHeap × Flash) :
    Option (BlockHeap × Flash) :=
  let r := s.1.malloc answer
  if r.1 = none then none
  else
    let sectorOff := burnStartPos % 4096
    let secreMain := 4096 - sectorOff
    (writeFlashLoop pData (dataLen + 1) (burnStartPos / 4096 % 256) sectorOff
      (if dataLen ≤ secreMain then dataLen else secreMain) 0 burnStartPos dataLen s.2).map
      fun f => (r.2.free r.1, f)

def gAgentConfigDataAddr : Nat := 0x64000

def gAgentConfigSize : Nat := 156

def nl6621SaveConfigData (answer : Option Nat) (pConfig : Mem) (s : BlockHeap × Flash) :
    Option (BlockHeap × Flash) :=
  writeFlash answer pConfig gAgentConfigSize gAgentConfigDataAddr s

def nl6621GetConfigData (f : Flash) : Mem := qspiFlashRead f gAgentConfigDataAddr

/-! ## Programming -/

section
variable (pBuf : Mem) {adr p : Nat}

theorem programBytes_apply : ∀ n i m x, adr % 256 + i + n ≤ 256 →
    programBytes pBuf adr p i n m x =
      if adr + i ≤ x ∧ x < adr + i + n then m x &&& pBuf (p + (x - adr)) else m x := by
  intro n
  induction n with
  | zero => intro i m x _; rw [if_neg (by omega)]; rfl
  | succ n ih =>
    intro i m x h
    have hx : adr / 256 * 256 + (adr + i) % 256 = adr + i := by omega
    simp only [programBytes, hx]
    rw [ih (i + 1) _ x (by omega)]
    by_cases he : x = adr + i
    · subst he
      rw [if_neg (by omega), store8_self, if_pos (by omega), Nat.add_sub_cancel_left]
    · rw [store8_other (by omega)]
      by_cases hr : adr + (i + 1) ≤ x ∧ x < adr + (i + 1) + n
      · rw [if_pos hr, if_pos (by omega)]
      · rw [if_neg hr, if_neg (by omega)]

/-- On whole pages this is the page write of a chip that clears bits. -/
theorem norWriteOnePage_page {a : Nat} (ha : flashAdr a % 256 = 0) (f : Flash) :
    norWriteOnePage pBuf a p 256 f = qspiFlashWriteOnePage (fun _ _ old new => old &&& new) pBuf a p f := by
  have hm : programBytes pBuf (flashAdr a) p 0 256 f.mem = fun x =>
      if flashAdr a ≤ x ∧ x < flashAdr a + 256 then f.mem x &&& pBuf (p + (x - flashAdr a)) else f.mem x := by
    funext x
    rw [programBytes_apply pBuf 256 0 f.mem x (by omega)]
    rfl
  unfold norWriteOnePage qspiFlashWriteOnePage
  rw [hm]

/-- `f'` is `f` with `n` bytes from `pBuf[p]` programmed at `adr`. -/
def Programmed (pBuf : Mem) (p adr n : Nat) (f f' : Flash) : Prop :=
  ∀ x, f'.mem x = if adr ≤ x ∧ x < adr + n then f.mem x &&& pBuf (p + (x - adr)) else f.mem x

variable {pBuf}

theorem Programmed.trans {n k : Nat} {f f' f'' : Flash} (h : Programmed pBuf p adr n f f')
    (h' : Programmed pBuf (p + n) (adr + n) k f' f'') : Programmed pBuf p adr (n + k) f f'' := by
  intro x
  rw [h' x, h x]
  by_cases h1 : adr + n ≤ x ∧ x < adr + n + k
  · rw [if_pos h1, if_neg (by omega), if_pos (by omega), show p + n + (x - (adr + n)) = p + (x - adr) by omega]
  · rw [if_neg h1]
    by_cases h2 : adr ≤ x ∧ x < adr + n
    · rw [if_pos h2, if_pos (by omega)]
    · rw [if_neg h2, if_neg (by omega)]

variable (pBuf p) in
theorem norWriteOnePage_spec {a n : Nat} (h : a % 256 + n ≤ 256) (hlt : a < 16777216) (f : Flash) :
    Programmed pBuf p a n f (norWriteOnePage pBuf a p n f) := by
  intro x
  have ha : flashAdr a = a := Nat.mod_eq_of_lt hlt
  simp only [norWriteOnePage, ha]
  rw [programBytes_apply pBuf n 0 f.mem x (by omega)]
  rfl

theorem writeAnyLoop_spec : ∀ fuel p a n r f, n < fuel → r ≤ n → a % 256 + r ≤ 256 →
    (r < n → 0 < r ∧ (a + r) % 256 = 0) → a + n ≤ 16777216 → 0 < n →
    ∃ f', writeAnyLoop pBuf fuel p a n r f = some f' ∧ Programmed pBuf p a n f f' := by
  intro fuel
  induction fuel with
  | zero => intro p a n r f h; omega
  | succ fuel ih =>
    intro p a n r f hf hr hp hs hl h0
    have h1 := norWriteOnePage_spec pBuf p hp (by omega) f
    simp only [writeAnyLoop]
    by_cases he : n = r
    · rw [if_pos he]
      exact ⟨_, rfl, he ▸ h1⟩
    · rw [if_neg he]
      obtain ⟨hr0, ha⟩ := hs (by omega)
      obtain ⟨f', hf', h2⟩ := ih (p + r) (a + r) (n - r) (if 256 < n - r then 256 else n - r)
        (norWriteOnePage pBuf a p r f) (by omega) (by split <;> omega) (by split <;> omega)
        (by split <;> omega) (by omega) (by omega)
      refine ⟨f', hf', ?_⟩
      have h3 := h1.trans h2
      rwa [show r + (n - r) = n by omega] at h3

variable (pBuf) in
theorem qspiWriteAny_spec (p a : Nat) {n : Nat} (f : Flash) (h0 : 0 < n) (hl : a + n ≤ 16777216) :
    ∃ f', qspiWriteAny pBuf p a n f = some f' ∧ Programmed pBuf p a n f f' := by
  unfold qspiWriteAny
  apply writeAnyLoop_spec
  · omega
  · split <;> omega
  · split <;> omega
  · split <;> omega
  · exact hl
  · exact h0

end

/-! ## Sectors -/

section
variable {pData : Mem}

/-- `f'` is `f` with `n` bytes from `pData[p]` in place of those at `adr`. -/
def Wrote (pData : Mem) (p adr n : Nat) (f f' : Flash) : Prop :=
  ∀ x, f'.mem x = if adr ≤ x ∧ x < adr + n then pData (p + (x - adr)) else f.mem x

theorem Wrote.trans {p adr n k : Nat} {f f' f'' : Flash} (h : Wrote pData p adr n f f')
    (h' : Wrote pData (p + n) (adr + n) k f' f'') : Wrote pData p adr (n + k) f f'' := by
  intro x
  rw [h' x, h x]
  by_cases h1 : adr + n ≤ x ∧ x < adr + n + k
  · rw [if_pos h1, if_pos (by omega), show p + n + (x - (adr + n)) = p + (x - adr) by omega]
  · rw [if_neg h1]
    by_cases h2 : adr ≤ x ∧ x < adr + n
    · rw [if_pos h2, if_pos (by omega)]
    · rw [if_neg h2, if_neg (by omega)]

theorem blank_and (b : UInt8) : 0xff &&& b = b := UInt8.neg_one_and

theorem Programmed.wrote {p adr n : Nat} {f f' : Flash} (h : Programmed pData p adr n f f')
    (hb : ∀ x, adr ≤ x → x < adr + n → f.mem x = 0xff) : Wrote pData p adr n f f' := by
  intro x
  rw [h x]
  by_cases hx : adr ≤ x ∧ x < adr + n
  · rw [if_pos hx, if_pos hx, hb x hx.1 hx.2, blank_and]
  · rw [if_neg hx, if_neg hx]

theorem read_at {f : Flash} {a k : Nat} (h : a + k < 16777216) : qspiFlashRead f a k = f.mem (a + k) :=
  congrArg f.mem (Nat.mod_eq_of_lt h)

/-- Erased and programmed from the patched buffer, a sector differs in the patch alone. -/
theorem erased_wrote {a off n p : Nat} {f f' : Flash} (ha : a + 4096 ≤ 16777216) (hl : off + n ≤ 4096)
    (h : Programmed (patchBuf (qspiFlashRead f a) pData off p n) 0 a 4096 (qspiFlashEraseSector a f) f') :
    Wrote pData p (a + off) n f f' := by
  have he : flashAdr a = a := Nat.mod_eq_of_lt (by omega)
  intro x
  rw [h x]
  simp only [qspiFlashEraseSector, he]
  by_cases hs : a ≤ x ∧ x < a + 4096
  · rw [if_pos hs, if_pos hs, blank_and]
    unfold patchBuf
    by_cases hx : a + off ≤ x ∧ x < a + off + n
    · rw [if_pos hx, if_pos (by omega)]
      congr 1
      omega
    · rw [if_neg hx, if_neg (by omega), read_at (by omega)]
      congr 1
      omega
  · rw [if_neg hs, if_neg hs, if_neg (by omega)]

variable (pData) in
theorem writeSector_spec {num off n : Nat} (p : Nat) (f : Flash) (hn : num < 128) (hl : off + n ≤ 4096)
    (h0 : 0 < n) :
    ∃ f', writeSector pData num off n p (num * 4096 + off) f = some f' ∧
      Wrote pData p (num * 4096 + off) n f f' := by
  unfold writeSector
  by_cases hb : (List.range n).any fun i => qspiFlashRead f (num * 4096) (off + i) ≠ 0xff
  · rw [if_pos hb]
    obtain ⟨f', hf, hp⟩ := qspiWriteAny_spec (patchBuf (qspiFlashRead f (num * 4096)) pData off p n)
      0 (num * 4096) (qspiFlashEraseSector (num * 4096) f) (show 0 < 4096 by decide) (by omega)
    exact ⟨f', hf, erased_wrote (by omega) hl hp⟩
  · rw [if_neg hb]
    obtain ⟨f', hf, hp⟩ := qspiWriteAny_spec pData p (num * 4096 + off) f h0 (by omega)
    refine ⟨f', hf, hp.wrote fun x h1 h2 => ?_⟩
    simp only [List.any_eq_true, List.mem_range, not_exists, not_and, decide_eq_true_eq, ne_eq,
      Decidable.not_not] at hb
    have hr := hb (x - (num * 4096 + off)) (by omega)
    rw [read_at (by omega)] at hr
    rwa [show num * 4096 + (off + (x - (num * 4096 + off))) = x by omega] at hr

variable (pData) in
theorem writeFlashLoop_spec : ∀ fuel num off n p wa len f, len < fuel → 0 < len →
    wa = num * 4096 + off → off < 4096 → n = min len (4096 - off) → wa + len ≤ 524288 →
    ∃ f', writeFlashLoop pData fuel num off n p wa len f = some f' ∧ Wrote pData p wa len f f' := by
  intro fuel
  induction fuel with
  | zero => intro num off n p wa len f h; omega
  | succ fuel ih =>
    intro num off n p wa len f hf h0 hw ho hn hl
    subst hw
    obtain ⟨f1, hf1, h1⟩ := writeSector_spec pData p f (show num < 128 by omega) (show off + n ≤ 4096 by omega)
      (by omega)
    simp only [writeFlashLoop, hf1, Option.bind_some]
    by_cases he : len = n
    · rw [if_pos he]
      exact ⟨f1, rfl, he ▸ h1⟩
    · have hlt : n < len := by omega
      have hwa : num * 4096 + off + n = (num + 1) * 4096 + 0 := by omega
      have hend : num * 4096 + off + n + (len - n) ≤ 524288 := by
        rw [Nat.add_assoc _ n, Nat.add_sub_cancel' (Nat.le_of_lt hlt)]
        exact hl
      rw [if_neg he, Nat.mod_eq_of_lt (by omega)]
      obtain ⟨f', hf', h2⟩ := ih (num + 1) 0 (if 4096 < len - n then 4096 else len - n) (p + n)
        (num * 4096 + off + n) (len - n) f1 (by omega) (by omega) hwa (by decide)
        (by split <;> omega) hend
      refine ⟨f', hf', ?_⟩
      have h3 := h1.trans h2
      rwa [Nat.add_sub_cancel' (Nat.le_of_lt hlt)] at h3

variable (pData) in
theorem writeFlash_spec {answer : Option Nat} {len start b : Nat} {h : BlockHeap} (f : Flash) (h0 : 0 < len)
    (hl : start + len ≤ 524288) (hb : (h.malloc answer).1 = some b) :
    ∃ f', writeFlash answer pData len start (h, f) = some (h, f') ∧ Wrote pData 0 start len f f' := by
  obtain ⟨f', hf', hw⟩ := writeFlashLoop_spec pData (len + 1) (start / 4096 % 256) (start % 4096)
    (if len ≤ 4096 - start % 4096 then len else 4096 - start % 4096) 0 start len f (by omega) h0
    (by omega) (by omega) (by split <;> omega) hl
  refine ⟨f', ?_, hw⟩
  simp only [writeFlash, hb, reduceCtorEq, if_false]
  rw [hf', ← hb, Option.map_some, hb, BlockHeap.free_malloc hb]

theorem saveConfigData_readBack {answer : Option Nat} {b : Nat} {h : BlockHeap} (f : Flash)
    (hb : (h.malloc answer).1 = some b) (pConfig : Mem) :
    ∃ f', nl6621SaveConfigData answer pConfig (h, f) = some (h, f') ∧
      ∀ k < gAgentConfigSize, nl6621GetConfigData f' k = pConfig k := by
  obtain ⟨f', hf', hw⟩ := writeFlash_spec pConfig f (show 0 < gAgentConfigSize by decide)
    (show gAgentConfigDataAddr + gAgentConfigSize ≤ 524288 by decide) hb
  refine ⟨f', hf', fun k hk => ?_⟩
  have hk' : k < 156 := hk
  unfold nl6621GetConfigData
  rw [read_at (by unfold gAgentConfigDataAddr; omega), hw, if_pos (by omega), Nat.zero_add,
    Nat.add_sub_cancel_left]

end

/-! ## The range and nothing else -/

/-- **`WriteFlash` writes its range.** The bytes of the range are the data, every
other byte and the heap are as before; a saved configuration is read back. -/
theorem writeFlash_exact (answer : Option Nat) (h : BlockHeap) (f : Flash) {b : Nat}
    (hb : (h.malloc answer).1 = some b) :
    (∀ (pData : Mem) (len start : Nat), 0 < len → start + len ≤ 524288 →
      ∃ f', writeFlash answer pData len start (h, f) = some (h, f') ∧
        (∀ k < len, f'.mem (start + k) = pData k) ∧
        ∀ x, x < start ∨ start + len ≤ x → f'.mem x = f.mem x) ∧
      ∀ pConfig : Mem, ∃ f', nl6621SaveConfigData answer pConfig (h, f) = some (h, f') ∧
        ∀ k < gAgentConfigSize, nl6621GetConfigData f' k = pConfig k := by
  constructor
  · intro pData len start h0 hl
    obtain ⟨f', hf', hw⟩ := writeFlash_spec pData f h0 hl hb
    refine ⟨f', hf', fun k hk => ?_, fun x hx => ?_⟩
    · rw [hw, if_pos (by omega), Nat.zero_add, Nat.add_sub_cancel_left]
    · rw [hw, if_neg (by omega)]
  · exact saveConfigData_readBack f hb

theorem writeFlash_exact_two_sectors : ∃ f', writeFlash (some 512) (fun k => .ofNat k) 5000 0x64003
      (⟨{16}, false⟩, ⟨fun _ => 0x5a, 0, [], 0⟩) = some (⟨{16}, false⟩, f') ∧
    (∀ k < 5000, f'.mem (0x64003 + k) = .ofNat k) ∧
    ∀ x, x < 0x64003 ∨ 0x64003 + 5000 ≤ x → f'.mem x = 0x5a :=
  (writeFlash_exact (some 512) ⟨{16}, false⟩ ⟨fun _ => 0x5a, 0, [], 0⟩
    (show (BlockHeap.malloc (some 512) ⟨{16}, false⟩).1 = some 512 by decide)).1
    (fun k => .ofNat k) 5000 0x64003 (by decide) (by decide)

end GizwitsSdk
