import Mathlib.Data.Fintype.Card
import GizwitsSdk.OsTmr

/-!
# The lists of the timers

Each timer that runs is in the list of its spoke, and each timer that is not
used is in the free list. A call or a turn of the timer task takes a timer out
of one list and puts it in front of another.
-/

namespace GizwitsSdk

open Lib

section
variable {C : Type}

/-! ## Links and bodies -/

/-- A timer without its links. -/
def OsTmr.bare (t : OsTmr C) : OsTmr C := { t with osTmrNext := none, osTmrPrev := none }

namespace Timers

def next (s : Timers C) (id : TmrId) : Option TmrId := (s.osTmrTbl id).osTmrNext

def prev (s : Timers C) (id : TmrId) : Option TmrId := (s.osTmrTbl id).osTmrPrev

def body (s : Timers C) (id : TmrId) : OsTmr C := (s.osTmrTbl id).bare

variable (s : Timers C) (id x : TmrId) (o : Option TmrId) (t : OsTmr C) (i : Fin 8) (w : OsTmrWheel)

@[simp] theorem next_setNext : (s.setNext id o).next x = if x = id then o else s.next x := by
  by_cases h : x = id
  · subst h
    simp [next, setNext, setTmr]
  · simp [next, setNext, setTmr, h]

@[simp] theorem prev_setNext : (s.setNext id o).prev x = s.prev x := by
  by_cases h : x = id
  · subst h
    simp [prev, setNext, setTmr]
  · simp [prev, setNext, setTmr, h]

@[simp] theorem body_setNext : (s.setNext id o).body x = s.body x := by
  by_cases h : x = id
  · subst h
    simp [body, OsTmr.bare, setNext, setTmr]
  · simp [body, setNext, setTmr, h]

@[simp] theorem next_setPrev : (s.setPrev id o).next x = s.next x := by
  by_cases h : x = id
  · subst h
    simp [next, setPrev, setTmr]
  · simp [next, setPrev, setTmr, h]

@[simp] theorem prev_setPrev : (s.setPrev id o).prev x = if x = id then o else s.prev x := by
  by_cases h : x = id
  · subst h
    simp [prev, setPrev, setTmr]
  · simp [prev, setPrev, setTmr, h]

@[simp] theorem body_setPrev : (s.setPrev id o).body x = s.body x := by
  by_cases h : x = id
  · subst h
    simp [body, OsTmr.bare, setPrev, setTmr]
  · simp [body, setPrev, setTmr, h]

@[simp] theorem next_setTmr : (s.setTmr id t).next x = if x = id then t.osTmrNext else s.next x := by
  by_cases h : x = id
  · subst h
    simp [next, setTmr]
  · simp [next, setTmr, h]

@[simp] theorem prev_setTmr : (s.setTmr id t).prev x = if x = id then t.osTmrPrev else s.prev x := by
  by_cases h : x = id
  · subst h
    simp [prev, setTmr]
  · simp [prev, setTmr, h]

@[simp] theorem body_setTmr : (s.setTmr id t).body x = if x = id then t.bare else s.body x := by
  by_cases h : x = id
  · subst h
    simp [body, setTmr]
  · simp [body, setTmr, h]

@[simp] theorem next_setSpoke : (s.setSpoke i w).next x = s.next x := rfl
@[simp] theorem prev_setSpoke : (s.setSpoke i w).prev x = s.prev x := rfl
@[simp] theorem body_setSpoke : (s.setSpoke i w).body x = s.body x := rfl
@[simp] theorem wheel_setTmr : (s.setTmr id t).osTmrWheelTbl = s.osTmrWheelTbl := rfl
@[simp] theorem wheel_setNext : (s.setNext id o).osTmrWheelTbl = s.osTmrWheelTbl := rfl
@[simp] theorem wheel_setPrev : (s.setPrev id o).osTmrWheelTbl = s.osTmrWheelTbl := rfl

end Timers

/-- All but the timers and the wheel. -/
structure SameRest (s s' : Timers C) : Prop where
  freeList : s'.osTmrFreeList = s.osTmrFreeList
  free : s'.osTmrFree = s.osTmrFree
  used : s'.osTmrUsed = s.osTmrUsed
  time : s'.osTmrTime = s.osTmrTime
  ptmr : s'.ptmr = s.ptmr

variable {s s' : Timers C} {id x : TmrId}

/-! ## Linking -/

theorem osTmrLink_spec (s : Timers C) (id : TmrId) (periodic : Bool) :
    let m := (s.osTmrTbl id).linkTicks periodic + s.osTmrTime
    let w := s.osTmrWheelTbl (spoke m)
    let s' := osTmrLink s id periodic
    (∀ x, s'.next x = if x = id then w.osTmrFirst else s.next x) ∧
      (∀ x, s'.prev x = if x = id then none else if w.osTmrFirst = some x then some id else s.prev x) ∧
      (∀ x, s'.body x = if x = id then { s.body id with osTmrState := .running, osTmrMatch := m } else s.body x) ∧
      s'.osTmrWheelTbl = Function.update s.osTmrWheelTbl (spoke m)
        { osTmrFirst := some id, osTmrEntries := if w.osTmrFirst = none then 1 else w.osTmrEntries + 1 } ∧
      SameRest s s' := by
  simp only [osTmrLink, Timers.wheel_setTmr]
  cases hf : (s.osTmrWheelTbl (spoke ((s.osTmrTbl id).linkTicks periodic + s.osTmrTime))).osTmrFirst with
  | none =>
    refine ⟨fun x => ?_, fun x => ?_, fun x => ?_, rfl, rfl, rfl, rfl, rfl, rfl⟩
    · by_cases hx : x = id <;> simp [hx]
    · by_cases hx : x = id <;> simp [hx]
    · by_cases hx : x = id
      · simp only [hx, Timers.body_setPrev, Timers.body_setNext, Timers.body_setSpoke, Timers.body_setTmr, if_true]
        rfl
      · simp [hx]
  | some p1 =>
    refine ⟨fun x => ?_, fun x => ?_, fun x => ?_, rfl, rfl, rfl, rfl, rfl, rfl⟩
    · by_cases hx : x = id <;> simp [hx]
    · by_cases hx : x = id
      · simp [hx]
      · by_cases hp : x = p1
        · subst hp
          simp [hx]
        · simp [hx, hp, Ne.symm hp]
    · by_cases hx : x = id
      · simp only [hx, Timers.body_setPrev, Timers.body_setNext, Timers.body_setSpoke, Timers.body_setTmr, if_true]
        rfl
      · simp [hx]

/-! ## Unlinking -/

/-- The links around the timer, before its own are cleared. -/
def unlinkAround (s : Timers C) (id : TmrId) : Timers C :=
  let i := spoke (s.body id).osTmrMatch
  if (s.osTmrWheelTbl i).osTmrFirst = some id then
    let s₁ := s.setSpoke i { s.osTmrWheelTbl i with osTmrFirst := s.next id }
    match s.next id with
    | none => s₁
    | some ptmr1 => s₁.setPrev ptmr1 none
  else
    let s₁ := match s.prev id with
      | none => s
      | some ptmr1 => s.setNext ptmr1 (s.next id)
    match s.next id with
    | none => s₁
    | some ptmr2 => s₁.setPrev ptmr2 (s.prev id)

theorem unlinkAround_spec (s : Timers C) (id : TmrId)
    (hfirst : (s.osTmrWheelTbl (spoke (s.body id).osTmrMatch)).osTmrFirst = some id → s.prev id = none) :
    let i := spoke (s.body id).osTmrMatch
    let w := s.osTmrWheelTbl i
    let s' := unlinkAround s id
    (∀ x, s'.next x = if s.prev id = some x then s.next id else s.next x) ∧
      (∀ x, s'.prev x = if s.next id = some x then s.prev id else s.prev x) ∧ s'.body = s.body ∧
      s'.osTmrWheelTbl = Function.update s.osTmrWheelTbl i
        { w with osTmrFirst := if w.osTmrFirst = some id then s.next id else w.osTmrFirst } ∧
      SameRest s s' := by
  simp only [unlinkAround]
  split
  · case isTrue hf =>
    have hp := hfirst hf
    rw [hp]
    cases hn : s.next id with
    | none => exact ⟨fun x => by simp, fun x => by simp, rfl, rfl, rfl, rfl, rfl, rfl, rfl⟩
    | some p1 =>
      refine ⟨fun x => by simp, fun x => ?_, funext fun x => by simp, rfl, rfl, rfl, rfl, rfl, rfl⟩
      simp [eq_comm]
  · case isFalse hf =>
    have hw : ({ s.osTmrWheelTbl (spoke (s.body id).osTmrMatch) with
        osTmrFirst := (s.osTmrWheelTbl (spoke (s.body id).osTmrMatch)).osTmrFirst } : OsTmrWheel) =
          s.osTmrWheelTbl (spoke (s.body id).osTmrMatch) := rfl
    rw [hw, Function.update_eq_self]
    cases s.prev id with
    | none =>
      cases s.next id with
      | none => exact ⟨fun x => by simp, fun x => by simp, rfl, rfl, rfl, rfl, rfl, rfl, rfl⟩
      | some p2 =>
        refine ⟨fun x => by simp, fun x => ?_, funext fun x => by simp, rfl, rfl, rfl, rfl, rfl, rfl⟩
        simp [eq_comm]
    | some p1 =>
      cases s.next id with
      | none =>
        refine ⟨fun x => ?_, fun x => by simp, funext fun x => by simp, rfl, rfl, rfl, rfl, rfl, rfl⟩
        simp [eq_comm]
      | some p2 =>
        refine ⟨fun x => ?_, fun x => ?_, funext fun x => by simp, rfl, rfl, rfl, rfl, rfl, rfl⟩
        · simp [eq_comm]
        · simp [eq_comm]

theorem osTmrUnlink_eq (s : Timers C) (id : TmrId) :
    osTmrUnlink s id =
      let i := spoke (s.body id).osTmrMatch
      let s₁ := unlinkAround s id
      let s₂ := s₁.setTmr id { s₁.osTmrTbl id with osTmrState := .stopped, osTmrNext := none, osTmrPrev := none }
      s₂.setSpoke i { s₂.osTmrWheelTbl i with osTmrEntries := (s₂.osTmrWheelTbl i).osTmrEntries - 1 } := rfl

theorem osTmrUnlink_spec (s : Timers C) (id : TmrId)
    (hfirst : (s.osTmrWheelTbl (spoke (s.body id).osTmrMatch)).osTmrFirst = some id → s.prev id = none) :
    let i := spoke (s.body id).osTmrMatch
    let w := s.osTmrWheelTbl i
    let s' := osTmrUnlink s id
    (∀ x, s'.next x = if x = id then none else if s.prev id = some x then s.next id else s.next x) ∧
      (∀ x, s'.prev x = if x = id then none else if s.next id = some x then s.prev id else s.prev x) ∧
      (∀ x, s'.body x = if x = id then { s.body id with osTmrState := .stopped } else s.body x) ∧
      s'.osTmrWheelTbl = Function.update s.osTmrWheelTbl i
        { osTmrFirst := if w.osTmrFirst = some id then s.next id else w.osTmrFirst
          osTmrEntries := w.osTmrEntries - 1 } ∧
      SameRest s s' := by
  obtain ⟨hn, hp, hb, hw, hr⟩ := unlinkAround_spec s id hfirst
  simp only [osTmrUnlink_eq]
  refine ⟨fun x => ?_, fun x => ?_, fun x => ?_, ?_, hr.freeList, hr.free, hr.used, hr.time, hr.ptmr⟩
  · rw [Timers.next_setSpoke, Timers.next_setTmr, hn]
  · rw [Timers.prev_setSpoke, Timers.prev_setTmr, hp]
  · rw [Timers.body_setSpoke, Timers.body_setTmr, hb, ← hb]
    rfl
  · simp only [Timers.setSpoke, Timers.wheel_setTmr, hw, Function.update_self, Function.update_idem]

/-! ## The wheel and the free list -/

/-- `spokes` are what the links of the running timers make. -/
structure SpokesOk (s : Timers C) (spokes : Fin 8 → List TmrId) : Prop where
  line : ∀ i, Line s.next s.prev (s.osTmrWheelTbl i).osTmrFirst (spokes i)
  nodup : ∀ i, (spokes i).Nodup
  mem : ∀ i id, id ∈ spokes i ↔ (s.body id).osTmrState = .running ∧ spoke (s.body id).osTmrMatch = i
  entries : ∀ i, (s.osTmrWheelTbl i).osTmrEntries.toNat = (spokes i).length

/-- `free` is what the links of the unused timers make. -/
structure FreeOk (s : Timers C) (free : List TmrId) : Prop where
  reads : Reads s.next s.osTmrFreeList free
  freeNodup : free.Nodup
  mem_free : ∀ id, id ∈ free ↔ (s.body id).osTmrState = .unused
  freeCount : s.osTmrFree.toNat = free.length
  used : s.osTmrUsed.toNat + free.length = 16

structure WheelOk (s : Timers C) (spokes : Fin 8 → List TmrId) (free : List TmrId) : Prop
    extends SpokesOk s spokes, FreeOk s free

variable {spokes : Fin 8 → List TmrId} {free : List TmrId}

theorem length_ids {l : List TmrId} (h : l.Nodup) : l.length ≤ 16 := by
  simpa using h.length_le_card

theorem WheelOk.links (h : WheelOk s spokes free) {i : Fin 8} {l₁ l₂ : List TmrId} (hl : spokes i = l₁ ++ id :: l₂) :
    s.next id = l₂.head? ∧ s.prev id = l₁.getLast? :=
  (hl ▸ h.line i : Line s.next s.prev _ (l₁ ++ id :: l₂)).links

/-- The first of its spoke has none before it. -/
theorem WheelOk.first (h : WheelOk s spokes free) {i : Fin 8} (hf : (s.osTmrWheelTbl i).osTmrFirst = some id) :
    s.prev id = none :=
  (h.line i).front id ((h.line i).first.symm.trans hf)

theorem WheelOk.not_mem (h : WheelOk s spokes free) (hs : (s.body id).osTmrState ≠ .running) (i : Fin 8) :
    id ∉ spokes i := fun hm => hs ((h.mem i id).mp hm).1

theorem WheelOk.not_free (h : WheelOk s spokes free) (hs : (s.body id).osTmrState ≠ .unused) : id ∉ free :=
  fun hm => hs ((h.mem_free id).mp hm)

theorem mem_update_spoke {l : List TmrId} {i j : Fin 8} :
    x ∈ Function.update spokes i l j ↔ (j = i ∧ x ∈ l) ∨ (j ≠ i ∧ x ∈ spokes j) := by
  by_cases h : j = i
  · subst h
    simp
  · simp [h]

theorem WheelOk.link (h : WheelOk s spokes free) (hr : (s.body id).osTmrState ≠ .running)
    (hu : (s.body id).osTmrState ≠ .unused) (periodic : Bool) {i : Fin 8}
    (hi : i = spoke ((s.osTmrTbl id).linkTicks periodic + s.osTmrTime)) :
    WheelOk (osTmrLink s id periodic) (Function.update spokes i (id :: spokes i)) free := by
  obtain ⟨hn, hp, hb, hw, hrest⟩ := osTmrLink_spec s id periodic
  have hd (j : Fin 8) : (Function.update spokes i (id :: spokes i) j).Nodup := by
    by_cases hj : j = i
    · subst hj
      rw [Function.update_self]
      exact List.nodup_cons.mpr ⟨h.not_mem hr j, h.nodup j⟩
    · rw [Function.update_of_ne hj]
      exact h.nodup j
  refine ⟨⟨fun j => ?_, hd, fun j x => ?_, fun j => ?_⟩, ?_, h.freeNodup, fun x => ?_, ?_, ?_⟩
  · rw [hw, ← hi]
    by_cases hj : j = i
    · subst hj
      rw [Function.update_self, Function.update_self]
      have hdj := hd j
      rw [Function.update_self] at hdj
      exact (h.line j).push hdj (hi ▸ hn) (hi ▸ hp)
    · rw [Function.update_of_ne hj, Function.update_of_ne hj]
      refine (h.line j).frame fun x hx => ?_
      have hxid : x ≠ id := fun e => h.not_mem hr j (e ▸ hx)
      have hxf : (s.osTmrWheelTbl i).osTmrFirst ≠ some x := fun e =>
        hj (((h.mem j x).mp hx).2.symm.trans
          ((h.mem i x).mp (List.mem_of_head? ((h.line i).first.symm.trans e))).2)
      rw [hn, hp, ← hi, if_neg hxid, if_neg hxid, if_neg hxf]
      exact ⟨rfl, rfl⟩
  · rw [mem_update_spoke, hb]
    by_cases hx : x = id
    · subst hx
      rw [if_pos rfl, ← hi]
      simp [h.not_mem hr, eq_comm]
    · rw [if_neg hx, ← h.mem]
      by_cases hj : j = i
      · subst hj
        simp [hx]
      · simp [hj]
  · rw [hw, ← hi]
    by_cases hj : j = i
    · subst hj
      rw [Function.update_self, Function.update_self]
      have hlen := length_ids (h.nodup j)
      have he := h.entries j
      cases hs : spokes j with
      | nil =>
        rw [(h.line j).first, hs]
        rfl
      | cons y ys =>
        rw [hs] at hlen he
        rw [(h.line j).first, hs, if_neg (by simp), UInt16.toNat_add, he]
        simp only [List.length_cons, UInt16.toNat_one] at hlen ⊢
        omega
    · rw [Function.update_of_ne hj, Function.update_of_ne hj]
      exact h.entries j
  · rw [hrest.freeList]
    refine h.reads.frame fun x hx => ?_
    have hxid : x ≠ id := fun e => h.not_free hu (e ▸ hx)
    rw [hn, if_neg hxid]
  · rw [h.mem_free, hb]
    by_cases hx : x = id
    · subst hx
      simp [hu]
    · rw [if_neg hx]
  · rw [hrest.free]
    exact h.freeCount
  · rw [hrest.used]
    exact h.used

theorem WheelOk.unlink (h : WheelOk s spokes free) (hr : (s.body id).osTmrState = .running) {i : Fin 8}
    (hi : i = spoke (s.body id).osTmrMatch) :
    WheelOk (osTmrUnlink s id) (Function.update spokes i ((spokes i).erase id)) free := by
  obtain ⟨hn, hp, hb, hw, hrest⟩ := osTmrUnlink_spec s id h.first
  have hm : id ∈ spokes i := (h.mem i id).mpr ⟨hr, hi.symm⟩
  obtain ⟨l₁, l₂, hl⟩ := List.append_of_mem hm
  obtain ⟨hnext, hprev⟩ := h.links hl
  have hdl : (l₁ ++ id :: l₂).Nodup := hl ▸ h.nodup i
  have hid : id ∉ l₁ := fun hx => (List.nodup_append'.mp hdl).2.2 hx List.mem_cons_self
  have herase : (spokes i).erase id = l₁ ++ l₂ := by
    rw [hl, List.erase_append_right _ hid, List.erase_cons_head]
  have hunused : (s.body id).osTmrState ≠ .unused := by simp [hr]
  refine ⟨⟨fun j => ?_, fun j => ?_, fun j x => ?_, fun j => ?_⟩, ?_, h.freeNodup, fun x => ?_, ?_, ?_⟩
  · rw [hw, ← hi]
    by_cases hj : j = i
    · subst hj
      rw [Function.update_self, Function.update_self, herase]
      exact (hl ▸ h.line j : Line s.next s.prev _ (l₁ ++ id :: l₂)).remove hdl rfl hn hp
    · rw [Function.update_of_ne hj, Function.update_of_ne hj]
      refine (h.line j).frame fun x hx => ?_
      have hne {y : TmrId} (hy : y ∈ spokes i) : y ≠ x := fun e =>
        hj (((h.mem j x).mp hx).2.symm.trans ((h.mem i x).mp (e ▸ hy)).2)
      have hxid : x ≠ id := (hne hm).symm
      rw [hn, hp, if_neg hxid, if_neg hxid, hnext, hprev]
      refine ⟨if_neg fun e => ?_, if_neg fun e => ?_⟩
      · exact hne (hl ▸ List.mem_append_left _ (List.mem_of_getLast? e)) rfl
      · exact hne (hl ▸ List.mem_append_right _ (List.mem_cons_of_mem _ (List.mem_of_head? e))) rfl
  · by_cases hj : j = i
    · subst hj
      rw [Function.update_self]
      exact (h.nodup j).erase id
    · rw [Function.update_of_ne hj]
      exact h.nodup j
  · rw [mem_update_spoke, hb, (h.nodup i).mem_erase_iff]
    by_cases hx : x = id
    · subst hx
      rw [if_pos rfl]
      have hj (hj : j ≠ i) : x ∉ spokes j := fun hx => hj (((h.mem j x).mp hx).2.symm.trans hi.symm)
      simpa using hj
    · rw [if_neg hx, ← h.mem]
      by_cases hj : j = i
      · subst hj
        simp [hx]
      · simp [hj]
  · rw [hw, ← hi]
    by_cases hj : j = i
    · subst hj
      rw [Function.update_self, Function.update_self, List.length_erase_of_mem hm]
      have he := h.entries j
      have hlen := length_ids (h.nodup j)
      have hpos : 0 < (spokes j).length := List.length_pos_of_mem hm
      rw [UInt16.toNat_sub, he]
      simp only [UInt16.toNat_one]
      omega
    · rw [Function.update_of_ne hj, Function.update_of_ne hj]
      exact h.entries j
  · rw [hrest.freeList]
    refine h.reads.frame fun x hx => ?_
    have hxs : x ∉ spokes i := fun hm => by simpa [(h.mem_free x).mp hx] using ((h.mem i x).mp hm).1
    have hxid : x ≠ id := fun e => h.not_free hunused (e ▸ hx)
    rw [hn, if_neg hxid, hprev]
    exact if_neg fun e => hxs (hl ▸ List.mem_append_left _ (List.mem_of_getLast? e))
  · rw [h.mem_free, hb]
    by_cases hx : x = id
    · subst hx
      simp [hr]
    · rw [if_neg hx]
  · rw [hrest.free]
    exact h.freeCount
  · rw [hrest.used]
    exact h.used

/-! ## Timers outside the wheel -/

theorem next_of_tbl (h : s'.osTmrTbl x = s.osTmrTbl x) : s'.next x = s.next x := congrArg OsTmr.osTmrNext h

theorem prev_of_tbl (h : s'.osTmrTbl x = s.osTmrTbl x) : s'.prev x = s.prev x := congrArg OsTmr.osTmrPrev h

theorem body_of_tbl (h : s'.osTmrTbl x = s.osTmrTbl x) : s'.body x = s.body x := congrArg OsTmr.bare h

theorem SpokesOk.frame (h : SpokesOk s spokes) (hr : (s.body id).osTmrState ≠ .running)
    (hr' : (s'.body id).osTmrState ≠ .running) (ht : ∀ x, x ≠ id → s'.osTmrTbl x = s.osTmrTbl x)
    (hw : s'.osTmrWheelTbl = s.osTmrWheelTbl) : SpokesOk s' spokes where
  line i := by
    rw [hw]
    refine (h.line i).frame fun x hx => ?_
    have hxid : x ≠ id := fun e => hr (e ▸ ((h.mem i x).mp hx).1)
    exact ⟨next_of_tbl (ht x hxid), prev_of_tbl (ht x hxid)⟩
  nodup := h.nodup
  mem i x := by
    rw [h.mem]
    by_cases hx : x = id
    · subst hx
      simp [hr, hr']
    · rw [body_of_tbl (ht x hx)]
  entries i := by rw [hw, h.entries]

theorem FreeOk.frame (h : FreeOk s free) (hu : (s.body id).osTmrState ≠ .unused)
    (hu' : (s'.body id).osTmrState ≠ .unused) (ht : ∀ x, x ≠ id → s'.osTmrTbl x = s.osTmrTbl x)
    (hl : s'.osTmrFreeList = s.osTmrFreeList) (hf : s'.osTmrFree = s.osTmrFree)
    (hc : s'.osTmrUsed = s.osTmrUsed) : FreeOk s' free where
  reads := by
    rw [hl]
    refine h.reads.frame fun x hx => ?_
    have hxid : x ≠ id := fun e => hu ((h.mem_free id).mp (e ▸ hx))
    exact next_of_tbl (ht x hxid)
  freeNodup := h.freeNodup
  mem_free x := by
    rw [h.mem_free]
    by_cases hx : x = id
    · subst hx
      simp [hu, hu']
    · rw [body_of_tbl (ht x hx)]
  freeCount := hf ▸ h.freeCount
  used := hc ▸ h.used

/-- A timer that is not in a list changes its state. -/
theorem WheelOk.setTmr (h : WheelOk s spokes free) {t : OsTmr C} (hr : (s.body id).osTmrState ≠ .running)
    (hu : (s.body id).osTmrState ≠ .unused) (hr' : t.osTmrState ≠ .running) (hu' : t.osTmrState ≠ .unused) :
    WheelOk (s.setTmr id t) spokes free := by
  have ht (x : TmrId) (hx : x ≠ id) : (s.setTmr id t).osTmrTbl x = s.osTmrTbl x := Function.update_of_ne hx _ _
  have hb : ((s.setTmr id t).body id).osTmrState = t.osTmrState := by
    simp [OsTmr.bare]
  exact ⟨h.toSpokesOk.frame hr (hb ▸ hr') ht rfl, h.toFreeOk.frame hu (hb ▸ hu') ht rfl rfl rfl⟩

theorem WheelOk.release (h : WheelOk s spokes free) (hr : (s.body id).osTmrState ≠ .running)
    (hu : (s.body id).osTmrState ≠ .unused) : WheelOk (osTmrFree s id) spokes (id :: free) := by
  have hid := h.not_free hu
  have ht (x : TmrId) (hx : x ≠ id) : (osTmrFree s id).osTmrTbl x = s.osTmrTbl x := Function.update_of_ne hx _ _
  have hown : (osTmrFree s id).osTmrTbl id =
      { s.osTmrTbl id with
        osTmrState := .unused, osTmrOpt := osTmrOptNone, osTmrPeriod := 0, osTmrMatch := 0, osTmrCallback := none
        osTmrPrev := none, osTmrNext := s.osTmrFreeList } := Function.update_self ..
  have hstate : ((osTmrFree s id).body id).osTmrState = .unused := by
    rw [Timers.body, hown]
    rfl
  have hcons : (id :: free).Nodup := List.nodup_cons.mpr ⟨hid, h.freeNodup⟩
  have hlen := length_ids hcons
  have hcount := h.freeCount
  have hused := h.used
  simp only [List.length_cons] at hlen
  refine ⟨h.toSpokesOk.frame hr (by simp [hstate]) ht rfl, ⟨rfl, ?_⟩, hcons, fun x => ?_, ?_, ?_⟩
  · rw [Timers.next, hown]
    exact h.reads.frame fun x hx => next_of_tbl (ht x fun e => hid (e ▸ hx))
  · rw [List.mem_cons, h.mem_free]
    by_cases hx : x = id
    · subst hx
      simp [hstate]
    · rw [body_of_tbl (ht x hx)]
      simp [hx]
  · rw [osTmrFree, UInt16.toNat_add, hcount, List.length_cons, UInt16.toNat_one]
    omega
  · rw [osTmrFree, List.length_cons, UInt16.toNat_sub, UInt16.toNat_one]
    omega

theorem osTmrCreate_none (dly period : UInt32) (opt : UInt8) (callback : Option C) (hf : s.osTmrFreeList = none) :
    osTmrCreate s dly period opt callback = (s, { err := .nonAvail }) := by
  simp [osTmrCreate, osTmrAlloc, hf]

theorem osTmrCreate_tbl (dly period : UInt32) (opt : UInt8) (callback : Option C) (hf : s.osTmrFreeList = some id) :
    (osTmrCreate s dly period opt callback).1.osTmrTbl = Function.update s.osTmrTbl id
      { s.osTmrTbl id with
        osTmrNext := none, osTmrPrev := none, osTmrState := .stopped, osTmrDly := dly, osTmrPeriod := period
        osTmrOpt := opt, osTmrCallback := callback } := by
  simp [osTmrCreate, osTmrAlloc, hf, Timers.setTmr]

/-- A timer that is given out was unused, and leaves the free list. -/
theorem WheelOk.create (h : WheelOk s spokes free) (dly period : UInt32) (opt : UInt8) (callback : Option C)
    (hf : s.osTmrFreeList = some id) :
    ∃ free', free = id :: free' ∧ WheelOk (osTmrCreate s dly period opt callback).1 spokes free' := by
  have htbl := osTmrCreate_tbl dly period opt callback hf
  have hrest : (osTmrCreate s dly period opt callback).1.osTmrWheelTbl = s.osTmrWheelTbl ∧
      (osTmrCreate s dly period opt callback).1.osTmrFreeList = s.next id ∧
      (osTmrCreate s dly period opt callback).1.osTmrFree = s.osTmrFree - 1 ∧
      (osTmrCreate s dly period opt callback).1.osTmrUsed = s.osTmrUsed + 1 := by
    simp [osTmrCreate, osTmrAlloc, hf, Timers.setTmr, Timers.next]
  generalize (osTmrCreate s dly period opt callback).1 = s' at htbl hrest ⊢
  obtain ⟨hwheel, hlist, hfree, hused⟩ := hrest
  have ht (x : TmrId) (hx : x ≠ id) : s'.osTmrTbl x = s.osTmrTbl x := by rw [htbl, Function.update_of_ne hx]
  have hstate : (s'.body id).osTmrState = .stopped := by
    rw [Timers.body, htbl, Function.update_self]
    rfl
  have hreads := h.reads
  rw [hf] at hreads
  cases free with
  | nil => cases hreads
  | cons y free' =>
    obtain ⟨hy, hreads⟩ := hreads
    obtain rfl := Option.some.inj hy
    have hunused : (s.body id).osTmrState = .unused := (h.mem_free id).mp List.mem_cons_self
    obtain ⟨hid, hnodup⟩ := List.nodup_cons.mp h.freeNodup
    have hcount := h.freeCount
    have hsum := h.used
    simp only [List.length_cons] at hcount hsum
    refine ⟨free', rfl, h.toSpokesOk.frame (by simp [hunused]) (by simp [hstate]) ht hwheel, ?_, hnodup,
      fun x => ?_, ?_, ?_⟩
    · rw [hlist]
      exact hreads.frame fun x hx => next_of_tbl (ht x fun e => hid (e ▸ hx))
    · by_cases hx : x = id
      · subst hx
        simp [hid, hstate]
      · rw [body_of_tbl (ht x hx), ← h.mem_free]
        simp [hx]
    · rw [hfree, UInt16.toNat_sub, hcount, UInt16.toNat_one]
      omega
    · rw [hused, UInt16.toNat_add, UInt16.toNat_one]
      omega

end

end GizwitsSdk
