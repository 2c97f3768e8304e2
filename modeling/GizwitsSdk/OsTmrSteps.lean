import GizwitsSdk.OsTmrWheel

/-!
# The steps of the timer task

The loop saves its next timer before it calls back. A callback that takes the
saved timer out of its list makes the loop lose its way, and the rule here is
that none does. Under it the part of the spoke that the loop has still to go
through only gets shorter, whatever the callbacks start, stop and delete.
-/

namespace GizwitsSdk

open Lib

section
variable {C : Type}

/-! ## The rule -/

def TmrCall.ptmr : TmrCall C → Option TmrId
  | create .. => none
  | del ptmr => some ptmr
  | start ptmr => some ptmr
  | stop ptmr _ _ => some ptmr
  | nstStart ptmr _ => some ptmr

/-- No call is about the timer that the loop has saved. -/
def TmrAction.Spares (s : Timers C) : TmrAction C → Prop
  | .call c => ∀ id, c.ptmr = some id → s.ptmr ≠ some (some id)
  | _ => True

instance decidableSpares (s : Timers C) : ∀ a : TmrAction C, Decidable (a.Spares s)
  | .call c => inferInstanceAs (Decidable (∀ id, c.ptmr = some id → s.ptmr ≠ some (some id)))
  | .signal | .turn | .finish => isTrue trivial

def TmrAction.LeavesAlone (id : TmrId) : TmrAction C → Prop
  | .call c => c.ptmr ≠ some id
  | _ => True

/-- No call starts the timer. -/
def TmrAction.LeavesOff (id : TmrId) : TmrAction C → Prop
  | .call (.start ptmr) => ptmr ≠ id
  | .call (.nstStart ptmr _) => ptmr ≠ id
  | _ => True

instance decidableLeavesOff (id : TmrId) : ∀ a : TmrAction C, Decidable (a.LeavesOff id)
  | .call (.start ptmr) | .call (.nstStart ptmr _) => inferInstanceAs (Decidable (ptmr ≠ id))
  | .call (.create ..) | .call (.del _) | .call (.stop ..) | .signal | .turn | .finish => isTrue trivial

instance decidableLeavesAlone (id : TmrId) : ∀ a : TmrAction C, Decidable (a.LeavesAlone id)
  | .call c => inferInstanceAs (Decidable (c.ptmr ≠ some id))
  | .signal | .turn | .finish => isTrue trivial

/-! ## The rest of the spoke -/

/-- `rest` is what the loop has still to go through. -/
structure TmrInv (s : Timers C) (spokes : Fin 8 → List TmrId) (free rest : List TmrId) : Prop
    extends WheelOk s spokes free where
  ahead : s.ptmr.getD none = rest.head?
  suffix : rest <:+ spokes (spoke s.osTmrTime)

variable {s s' : Timers C} {spokes : Fin 8 → List TmrId} {free rest : List TmrId} {id x : TmrId}

theorem TmrInv.rest_nodup (h : TmrInv s spokes free rest) : rest.Nodup := (h.nodup _).sublist h.suffix.sublist

theorem TmrInv.running_of_rest (h : TmrInv s spokes free rest) (hx : x ∈ rest) :
    (s.body x).osTmrState = .running := ((h.mem _ x).mp (h.suffix.subset hx)).1

theorem TmrInv.rest_nil (h : TmrInv s spokes free rest) (hp : s.ptmr.getD none = none) : rest = [] :=
  List.head?_eq_none_iff.mp (h.ahead.symm.trans hp)

theorem TmrInv.rest_cons (h : TmrInv s spokes free rest) (hp : s.ptmr = some (some x)) :
    ∃ rest', rest = x :: rest' := by
  have ha := h.ahead
  rw [hp] at ha
  exact List.head?_eq_some_iff.mp ha.symm

theorem suffix_erase {l r : List TmrId} (h : r <:+ l) (hd : l.Nodup) (x : TmrId) : r.erase x <:+ l.erase x := by
  obtain ⟨front, rfl⟩ := h
  rw [List.erase_append]
  split
  · case isTrue hx =>
    have hr : x ∉ r := fun hm => (List.nodup_append'.mp hd).2.2 hx hm
    rw [List.erase_of_not_mem hr]
    exact List.suffix_append _ _
  · exact List.suffix_append _ _

theorem head_erase {r : List TmrId} (h : r.head? ≠ some x) : (r.erase x).head? = r.head? := by
  cases r with
  | nil => rfl
  | cons y r =>
    have hy : y ≠ x := fun e => h (congrArg some e)
    rw [List.erase_cons_tail (by simpa using hy)]
    rfl

/-! ## Operations -/

theorem TmrInv.link (h : TmrInv s spokes free rest) (hr : (s.body id).osTmrState ≠ .running)
    (hu : (s.body id).osTmrState ≠ .unused) (periodic : Bool) :
    ∃ spokes', TmrInv (osTmrLink s id periodic) spokes' free rest := by
  obtain ⟨-, -, -, -, hrest⟩ := osTmrLink_spec s id periodic
  refine ⟨_, h.toWheelOk.link hr hu periodic rfl, hrest.ptmr ▸ h.ahead, ?_⟩
  rw [hrest.time]
  by_cases hi : spoke s.osTmrTime = spoke ((s.osTmrTbl id).linkTicks periodic + s.osTmrTime)
  · rw [← hi, Function.update_self]
    exact h.suffix.trans (List.suffix_cons _ _)
  · rw [Function.update_of_ne hi]
    exact h.suffix

theorem TmrInv.unlink (h : TmrInv s spokes free rest) (hr : (s.body id).osTmrState = .running)
    (hp : s.ptmr ≠ some (some id)) : ∃ spokes', TmrInv (osTmrUnlink s id) spokes' free (rest.erase id) := by
  obtain ⟨-, -, -, -, hrest⟩ := osTmrUnlink_spec s id h.first
  have hhead : rest.head? ≠ some id := by
    rw [← h.ahead]
    intro e
    cases hs : s.ptmr with
    | none => simp [hs] at e
    | some o => exact hp (hs.trans (congrArg some (by simpa [hs] using e)))
  refine ⟨_, h.toWheelOk.unlink hr rfl, ?_, ?_⟩
  · rw [hrest.ptmr, head_erase hhead]
    exact h.ahead
  · rw [hrest.time]
    by_cases hi : spoke s.osTmrTime = spoke (s.body id).osTmrMatch
    · rw [← hi, Function.update_self]
      exact suffix_erase h.suffix (h.nodup _) id
    · have hid : id ∉ rest := fun hm => hi ((h.mem _ id).mp (h.suffix.subset hm)).2.symm
      rw [Function.update_of_ne hi, List.erase_of_not_mem hid]
      exact h.suffix

theorem TmrInv.release (h : TmrInv s spokes free rest) (hr : (s.body id).osTmrState ≠ .running)
    (hu : (s.body id).osTmrState ≠ .unused) : TmrInv (osTmrFree s id) spokes (id :: free) rest :=
  ⟨h.toWheelOk.release hr hu, h.ahead, h.suffix⟩

theorem TmrInv.setTmr (h : TmrInv s spokes free rest) {t : OsTmr C} (hr : (s.body id).osTmrState ≠ .running)
    (hu : (s.body id).osTmrState ≠ .unused) (hr' : t.osTmrState ≠ .running) (hu' : t.osTmrState ≠ .unused) :
    TmrInv (s.setTmr id t) spokes free rest :=
  ⟨h.toWheelOk.setTmr hr hu hr' hu', h.ahead, h.suffix⟩

theorem body_link (periodic : Bool) (hx : x ≠ id) : (osTmrLink s id periodic).body x = s.body x := by
  obtain ⟨-, -, hb, -⟩ := osTmrLink_spec s id periodic
  rw [hb, if_neg hx]

theorem body_unlink (h : TmrInv s spokes free rest) (hx : x ≠ id) : (osTmrUnlink s id).body x = s.body x := by
  obtain ⟨-, -, hb, -⟩ := osTmrUnlink_spec s id h.first
  rw [hb, if_neg hx]

theorem body_unlinked (h : TmrInv s spokes free rest) :
    (osTmrUnlink s id).body id = { s.body id with osTmrState := .stopped } := by
  obtain ⟨-, -, hb, -⟩ := osTmrUnlink_spec s id h.first
  rw [hb, if_pos rfl]

theorem body_release (hx : x ≠ id) : (osTmrFree s id).body x = s.body x :=
  body_of_tbl (Function.update_of_ne hx _ _)

/-! ## Calls -/

/-- The timer stays as it is, and as it is placed. -/
structure Kept (s s' : Timers C) (rest rest' : List TmrId) (id : TmrId) : Prop where
  body : s'.body id = s.body id
  place : id ∈ rest' ↔ id ∈ rest

theorem Kept.refl (s : Timers C) (rest : List TmrId) (id : TmrId) : Kept s s rest rest id := ⟨rfl, Iff.rfl⟩

theorem mem_rest_erase (h : TmrInv s spokes free rest) (hx : x ≠ id) : x ∈ rest.erase id ↔ x ∈ rest := by
  rw [h.rest_nodup.mem_erase_iff]
  simp [hx]

/-- What a call does: the loop's rest gets no longer, and the other timers in use are kept. -/
structure CallOk (s s' : Timers C) (rest rest' : List TmrId) (about : Option TmrId) : Prop where
  time : s'.osTmrTime = s.osTmrTime
  ptmr : s'.ptmr = s.ptmr
  shorter : rest'.Sublist rest
  kept : ∀ id, about ≠ some id → (s.body id).osTmrState ≠ .unused → Kept s s' rest rest' id

theorem CallOk.refl (s : Timers C) (rest : List TmrId) (about : Option TmrId) : CallOk s s rest rest about :=
  ⟨rfl, rfl, List.Sublist.refl _, fun id _ _ => Kept.refl s rest id⟩

theorem create_ok (h : TmrInv s spokes free rest) (dly period : UInt32) (opt : UInt8) (callback : Option C) :
    ∃ spokes' free' rest', TmrInv (osTmrCreate s dly period opt callback).1 spokes' free' rest' ∧
      CallOk s (osTmrCreate s dly period opt callback).1 rest rest' none := by
  cases hf : s.osTmrFreeList with
  | none =>
    rw [osTmrCreate_none dly period opt callback hf]
    exact ⟨_, _, _, h, CallOk.refl s rest none⟩
  | some id =>
    obtain ⟨free', hfree, hok⟩ := h.toWheelOk.create dly period opt callback hf
    have htbl := osTmrCreate_tbl dly period opt callback hf
    have hrest : (osTmrCreate s dly period opt callback).1.osTmrTime = s.osTmrTime ∧
        (osTmrCreate s dly period opt callback).1.ptmr = s.ptmr := by
      simp [osTmrCreate, osTmrAlloc, hf, Timers.setTmr]
    refine ⟨spokes, free', rest, ⟨hok, hrest.2 ▸ h.ahead, hrest.1 ▸ h.suffix⟩, hrest.1, hrest.2,
      List.Sublist.refl _, fun x _ hx => ⟨body_of_tbl ?_, Iff.rfl⟩⟩
    have hid : (s.body id).osTmrState = .unused := (h.mem_free id).mp (hfree ▸ List.mem_cons_self)
    rw [htbl, Function.update_of_ne]
    rintro rfl
    exact hx hid

theorem unlink_ok (h : TmrInv s spokes free rest) (hr : (s.body id).osTmrState = .running)
    (hp : s.ptmr ≠ some (some id)) :
    ∃ spokes' rest', TmrInv (osTmrUnlink s id) spokes' free rest' ∧
      CallOk s (osTmrUnlink s id) rest rest' (some id) := by
  obtain ⟨-, -, -, -, hrest⟩ := osTmrUnlink_spec s id h.first
  obtain ⟨spokes', hinv⟩ := h.unlink hr hp
  refine ⟨spokes', _, hinv, hrest.time, hrest.ptmr, List.erase_sublist, fun x hx _ => ?_⟩
  have hxid : x ≠ id := fun e => hx (congrArg some e.symm)
  exact ⟨body_unlink h hxid, mem_rest_erase h hxid⟩

theorem link_ok (h : TmrInv s spokes free rest) (hr : (s.body id).osTmrState ≠ .running)
    (hu : (s.body id).osTmrState ≠ .unused) (periodic : Bool) :
    ∃ spokes', TmrInv (osTmrLink s id periodic) spokes' free rest ∧
      CallOk s (osTmrLink s id periodic) rest rest (some id) := by
  obtain ⟨-, -, -, -, hrest⟩ := osTmrLink_spec s id periodic
  obtain ⟨spokes', hinv⟩ := h.link hr hu periodic
  exact ⟨spokes', hinv, hrest.time, hrest.ptmr, List.Sublist.refl _,
    fun x hx _ => ⟨body_link periodic fun e => hx (congrArg some e.symm), Iff.rfl⟩⟩

theorem release_ok (h : TmrInv s spokes free rest) (hr : (s.body id).osTmrState ≠ .running)
    (hu : (s.body id).osTmrState ≠ .unused) :
    TmrInv (osTmrFree s id) spokes (id :: free) rest ∧ CallOk s (osTmrFree s id) rest rest (some id) :=
  ⟨h.release hr hu, rfl, rfl, List.Sublist.refl _,
    fun _ hx _ => ⟨body_release fun e => hx (congrArg some e.symm), Iff.rfl⟩⟩

/-- One operation on a timer after the other. -/
theorem CallOk.trans {s₁ s₂ : Timers C} {rest₁ rest₂ : List TmrId} (h₁ : CallOk s s₁ rest rest₁ (some id))
    (h₂ : CallOk s₁ s₂ rest₁ rest₂ (some id)) : CallOk s s₂ rest rest₂ (some id) := by
  refine ⟨h₂.time.trans h₁.time, h₂.ptmr.trans h₁.ptmr, h₂.shorter.trans h₁.shorter, fun x hx hu => ?_⟩
  have hk₁ := h₁.kept x hx hu
  have hk₂ := h₂.kept x hx (by rwa [hk₁.body])
  exact ⟨hk₂.body.trans hk₁.body, hk₂.place.trans hk₁.place⟩

theorem state_unlinked (h : TmrInv s spokes free rest) (id : TmrId) :
    ((osTmrUnlink s id).body id).osTmrState ≠ .running ∧ ((osTmrUnlink s id).body id).osTmrState ≠ .unused := by
  rw [body_unlinked h]
  exact ⟨by simp, by simp⟩

theorem del_ok (h : TmrInv s spokes free rest) (hp : s.ptmr ≠ some (some id)) :
    ∃ spokes' free' rest', TmrInv (osTmrDel s id).1 spokes' free' rest' ∧
      CallOk s (osTmrDel s id).1 rest rest' (some id) := by
  unfold osTmrDel
  cases hs : (s.osTmrTbl id).osTmrState with
  | running =>
    obtain ⟨spokes₁, rest₁, hinv₁, hok₁⟩ := unlink_ok h hs hp
    obtain ⟨hr, hu⟩ := state_unlinked h id
    obtain ⟨hinv₂, hok₂⟩ := release_ok hinv₁ hr hu
    exact ⟨_, _, _, hinv₂, hok₁.trans hok₂⟩
  | stopped | completed =>
    have hr : (s.body id).osTmrState ≠ .running := by simp [Timers.body, OsTmr.bare, hs]
    have hu : (s.body id).osTmrState ≠ .unused := by simp [Timers.body, OsTmr.bare, hs]
    obtain ⟨hinv, hok⟩ := release_ok h hr hu
    exact ⟨_, _, _, hinv, hok⟩
  | unused => exact ⟨_, _, _, h, CallOk.refl s rest _⟩

/-- A timer that does not run is put in front of its spoke. -/
theorem linked (h : TmrInv s spokes free rest) (hr : (s.body id).osTmrState ≠ .running) :
    (osTmrLink s id false).body id = { s.body id with
        osTmrState := .running, osTmrMatch := (s.body id).linkTicks false + s.osTmrTime } ∧ id ∉ rest := by
  obtain ⟨-, -, hb, -, -⟩ := osTmrLink_spec s id false
  exact ⟨by rw [hb, if_pos rfl]; rfl, fun hm => hr (h.running_of_rest hm)⟩

theorem start_ok (h : TmrInv s spokes free rest) (hp : s.ptmr ≠ some (some id)) :
    ∃ spokes' free' rest', TmrInv (osTmrStart s id).1 spokes' free' rest' ∧
      CallOk s (osTmrStart s id).1 rest rest' (some id) ∧
      ((s.body id).osTmrState ≠ .unused → (osTmrStart s id).1.body id = { s.body id with
        osTmrState := .running, osTmrMatch := (s.body id).linkTicks false + s.osTmrTime } ∧ id ∉ rest') := by
  unfold osTmrStart
  cases hs : (s.osTmrTbl id).osTmrState with
  | running =>
    obtain ⟨spokes₁, rest₁, hinv₁, hok₁⟩ := unlink_ok h hs hp
    obtain ⟨hr, hu⟩ := state_unlinked h id
    obtain ⟨spokes₂, hinv₂, hok₂⟩ := link_ok hinv₁ hr hu false
    refine ⟨_, _, _, hinv₂, hok₁.trans hok₂, fun _ => ?_⟩
    obtain ⟨hbody, hid⟩ := linked hinv₁ hr
    refine ⟨?_, hid⟩
    rw [hbody, body_unlinked h, hok₁.time]
    rfl
  | stopped | completed =>
    have hr : (s.body id).osTmrState ≠ .running := by simp [Timers.body, OsTmr.bare, hs]
    have hu : (s.body id).osTmrState ≠ .unused := by simp [Timers.body, OsTmr.bare, hs]
    obtain ⟨spokes', hinv, hok⟩ := link_ok h hr hu false
    exact ⟨_, _, _, hinv, hok, fun _ => linked h hr⟩
  | unused => exact ⟨_, _, _, h, CallOk.refl s rest _, fun hu => (hu hs).elim⟩

section
variable (t : OsTmr C) (value : UInt32)

theorem nstSet_fields : (t.nstSet value).osTmrNext = t.osTmrNext ∧ (t.nstSet value).osTmrPrev = t.osTmrPrev ∧
    (t.nstSet value).osTmrState = t.osTmrState ∧ (t.nstSet value).osTmrMatch = t.osTmrMatch := by
  unfold OsTmr.nstSet
  split <;> exact ⟨rfl, rfl, rfl, rfl⟩

theorem nstSet_bare : (t.nstSet value).bare = t.bare.nstSet value := by
  by_cases h : t.osTmrOpt = osTmrOptPeriodic <;> simp [OsTmr.nstSet, OsTmr.bare, h]

theorem nstSet_linkTicks : (t.nstSet value).linkTicks false = nstTicks value := by
  have hpos : nstTicks value ≠ 0 := by
    unfold nstTicks
    split
    · decide
    · assumption
  by_cases h : t.osTmrOpt = osTmrOptPeriodic <;> simp [OsTmr.nstSet, OsTmr.linkTicks, h, hpos]

end

/-- The settings are not what the lists depend on. -/
theorem settings_ok (h : TmrInv s spokes free rest) (id : TmrId) (value : UInt32) :
    TmrInv (s.setTmr id ((s.osTmrTbl id).nstSet value)) spokes free rest ∧
      CallOk s (s.setTmr id ((s.osTmrTbl id).nstSet value)) rest rest (some id) := by
  obtain ⟨hn, hp, hs, hm⟩ := nstSet_fields (s.osTmrTbl id) value
  have hnext (x : TmrId) : (s.setTmr id ((s.osTmrTbl id).nstSet value)).next x = s.next x := by
    rw [Timers.next_setTmr]
    split
    · case isTrue hx => rw [hx, hn]; rfl
    · rfl
  have hprev (x : TmrId) : (s.setTmr id ((s.osTmrTbl id).nstSet value)).prev x = s.prev x := by
    rw [Timers.prev_setTmr]
    split
    · case isTrue hx => rw [hx, hp]; rfl
    · rfl
  have hbody (x : TmrId) :
      ((s.setTmr id ((s.osTmrTbl id).nstSet value)).body x).osTmrState = (s.body x).osTmrState ∧
        ((s.setTmr id ((s.osTmrTbl id).nstSet value)).body x).osTmrMatch = (s.body x).osTmrMatch := by
    rw [Timers.body_setTmr]
    split
    · case isTrue hx => rw [hx]; exact ⟨hs, hm⟩
    · exact ⟨rfl, rfl⟩
  refine ⟨⟨⟨⟨fun i => ?_, h.nodup, fun i x => ?_, h.entries⟩, ?_, h.freeNodup, fun x => ?_, h.freeCount, h.used⟩,
    h.ahead, h.suffix⟩, rfl, rfl, List.Sublist.refl _, fun x hx _ => ⟨body_of_tbl ?_, Iff.rfl⟩⟩
  · exact (h.line i).frame fun x _ => ⟨hnext x, hprev x⟩
  · rw [(hbody x).1, (hbody x).2, h.mem]
  · exact h.reads.frame fun x _ => hnext x
  · rw [(hbody x).1, h.mem_free]
  · exact Function.update_of_ne (fun e => hx (congrArg some e.symm)) _ _

theorem nstStart_ok (h : TmrInv s spokes free rest) (hp : s.ptmr ≠ some (some id)) (value : UInt32) :
    ∃ spokes' free' rest', TmrInv (nstStart s id value).1 spokes' free' rest' ∧
      CallOk s (nstStart s id value).1 rest rest' (some id) ∧
      ((s.body id).osTmrState ≠ .unused → (nstStart s id value).1.body id = { (s.body id).nstSet value with
        osTmrState := .running, osTmrMatch := nstTicks value + s.osTmrTime } ∧ id ∉ rest') := by
  obtain ⟨hinv₁, hok₁⟩ := settings_ok h id value
  obtain ⟨spokes', free', rest', hinv₂, hok₂, harmed⟩ := start_ok hinv₁ hp
  refine ⟨_, _, _, hinv₂, hok₁.trans hok₂, fun hu => ?_⟩
  have hbody : (s.setTmr id ((s.osTmrTbl id).nstSet value)).body id = (s.body id).nstSet value := by
    rw [Timers.body_setTmr, if_pos rfl, nstSet_bare]
    rfl
  obtain ⟨hown, hid⟩ := harmed (by rwa [hbody, (nstSet_fields _ value).2.2.1])
  refine ⟨hown.trans ?_, hid⟩
  rw [hbody, nstSet_linkTicks]
  rfl

theorem stop_fst (s : Timers C) (id : TmrId) (opt : UInt8) (callbackArg : C → C) :
    (osTmrStop s id opt callbackArg).1 =
      if (s.osTmrTbl id).osTmrState = .running then osTmrUnlink s id else s := by
  unfold osTmrStop
  cases (s.osTmrTbl id).osTmrState with
  | running =>
    rw [if_pos rfl]
    dsimp only
    split
    · rfl
    · split <;> rfl
  | _ => rfl

theorem stop_ok (h : TmrInv s spokes free rest) (hp : s.ptmr ≠ some (some id)) (opt : UInt8) (callbackArg : C → C) :
    ∃ spokes' free' rest', TmrInv (osTmrStop s id opt callbackArg).1 spokes' free' rest' ∧
      CallOk s (osTmrStop s id opt callbackArg).1 rest rest' (some id) := by
  rw [stop_fst]
  split
  · case isTrue hs =>
    obtain ⟨spokes', rest', hinv, hok⟩ := unlink_ok h hs hp
    exact ⟨_, _, _, hinv, hok⟩
  · exact ⟨_, _, _, h, CallOk.refl s rest _⟩

theorem exec_ok (h : TmrInv s spokes free rest) (c : TmrCall C) (hp : (TmrAction.call c).Spares s) :
    ∃ spokes' free' rest', TmrInv (c.exec s).1 spokes' free' rest' ∧ CallOk s (c.exec s).1 rest rest' c.ptmr := by
  cases c with
  | create dly period opt callback => exact create_ok h dly period opt callback
  | del id => exact del_ok h (hp id rfl)
  | start id =>
    obtain ⟨_, _, _, hinv, hok, -⟩ := start_ok h (hp id rfl)
    exact ⟨_, _, _, hinv, hok⟩
  | stop id opt callbackArg => exact stop_ok h (hp id rfl) opt callbackArg
  | nstStart id value =>
    obtain ⟨_, _, _, hinv, hok, -⟩ := nstStart_ok h (hp id rfl) value
    exact ⟨_, _, _, hinv, hok⟩

def TmrCall.callback : TmrCall C → Option C
  | create _ _ _ callback => callback
  | _ => none

theorem link_callback (s : Timers C) (id x : TmrId) (periodic : Bool) :
    ((osTmrLink s id periodic).body x).osTmrCallback = (s.body x).osTmrCallback := by
  obtain ⟨-, -, hb, -⟩ := osTmrLink_spec s id periodic
  rw [hb]
  split
  · case isTrue hx => rw [hx]
  · rfl

theorem unlink_callback (h : TmrInv s spokes free rest) :
    ((osTmrUnlink s id).body x).osTmrCallback = (s.body x).osTmrCallback := by
  by_cases hx : x = id
  · rw [hx, body_unlinked h]
  · rw [body_unlink h hx]

theorem release_callback (s : Timers C) (id x : TmrId) :
    ((osTmrFree s id).body x).osTmrCallback = none ∨
      ((osTmrFree s id).body x).osTmrCallback = (s.body x).osTmrCallback := by
  by_cases hx : x = id
  · left
    subst hx
    simp [osTmrFree, Timers.body, Timers.setTmr, OsTmr.bare]
  · right
    rw [body_release hx]

theorem start_callback (h : TmrInv s spokes free rest) :
    ((osTmrStart s id).1.body x).osTmrCallback = (s.body x).osTmrCallback := by
  unfold osTmrStart
  cases (s.osTmrTbl id).osTmrState with
  | running => exact (link_callback _ id x false).trans (unlink_callback h)
  | stopped | completed => exact link_callback s id x false
  | unused => rfl

theorem nstStart_callback (h : TmrInv s spokes free rest) (value : UInt32) :
    ((nstStart s id value).1.body x).osTmrCallback = (s.body x).osTmrCallback := by
  refine (start_callback (settings_ok h _ value).1).trans ?_
  rw [Timers.body_setTmr]
  split
  · case isTrue hx =>
    subst hx
    rw [nstSet_bare]
    unfold OsTmr.nstSet
    split <;> rfl
  · rfl

theorem stop_callback (h : TmrInv s spokes free rest) (opt : UInt8) (callbackArg : C → C) :
    ((osTmrStop s id opt callbackArg).1.body x).osTmrCallback = (s.body x).osTmrCallback := by
  rw [stop_fst]
  split
  · exact unlink_callback h
  · rfl

/-- A timer has the callback that it was created with, or none. -/
theorem exec_callback (h : TmrInv s spokes free rest) (c : TmrCall C) (x : TmrId) :
    ((c.exec s).1.body x).osTmrCallback = (s.body x).osTmrCallback ∨
      ((c.exec s).1.body x).osTmrCallback = none ∨ ((c.exec s).1.body x).osTmrCallback = c.callback := by
  cases c with
  | create dly period opt callback =>
    cases hf : s.osTmrFreeList with
    | none =>
      rw [TmrCall.exec, osTmrCreate_none dly period opt callback hf]
      exact .inl rfl
    | some y =>
      rw [TmrCall.exec, Timers.body, osTmrCreate_tbl dly period opt callback hf]
      by_cases hx : x = y
      · subst hx
        rw [Function.update_self]
        exact .inr (.inr rfl)
      · rw [Function.update_of_ne hx]
        exact .inl rfl
  | del id =>
    rw [TmrCall.exec, osTmrDel]
    cases (s.osTmrTbl id).osTmrState with
    | running =>
      rcases release_callback (osTmrUnlink s id) id x with hc | hc
      · exact .inr (.inl hc)
      · exact .inl (hc.trans (unlink_callback h))
    | stopped | completed =>
      rcases release_callback s id x with hc | hc
      · exact .inr (.inl hc)
      · exact .inl hc
    | unused => exact .inl rfl
  | start id => exact .inl (start_callback h)
  | stop id opt callbackArg => exact .inl (stop_callback h opt callbackArg)
  | nstStart id value => exact .inl (nstStart_callback h value)

/-! ## The loop -/

theorem tick_inv (h : TmrInv s spokes free []) :
    TmrInv (osTmrTick s) spokes free (spokes (spoke (s.osTmrTime + 1))) :=
  ⟨⟨⟨h.line, h.nodup, h.mem, h.entries⟩, h.reads, h.freeNodup, h.mem_free, h.freeCount, h.used⟩,
    (h.line _).first, List.suffix_refl _⟩

theorem finish_inv (h : TmrInv s spokes free []) : TmrInv { s with ptmr := none } spokes free [] :=
  ⟨⟨⟨h.line, h.nodup, h.mem, h.entries⟩, h.reads, h.freeNodup, h.mem_free, h.freeCount, h.used⟩, rfl, h.suffix⟩

/-- The loop saves the timer after this one. -/
theorem next_inv (h : TmrInv s spokes free (x :: rest)) :
    TmrInv { s with ptmr := some (s.next x) } spokes free rest := by
  obtain ⟨front, hl⟩ := h.suffix
  refine ⟨⟨⟨h.line, h.nodup, h.mem, h.entries⟩, h.reads, h.freeNodup, h.mem_free, h.freeCount, h.used⟩, ?_, ?_⟩
  · exact (h.links hl.symm).1
  · exact (List.suffix_cons x rest).trans h.suffix

/-- A turn that finds the timer due. -/
theorem turn_due (h : TmrInv s spokes free (x :: rest)) (hm : s.osTmrTime = (s.body x).osTmrMatch) :
    ∃ spokes', TmrInv (osTmrTurn s x).1 spokes' free rest ∧
      (osTmrTurn s x).2 = { ptmr := some x, called := (s.body x).osTmrCallback } ∧
      (osTmrTurn s x).1.osTmrTime = s.osTmrTime ∧
      (∀ y, y ≠ x → (osTmrTurn s x).1.body y = s.body y) ∧
      (osTmrTurn s x).1.body x =
        if (s.body x).osTmrOpt = osTmrOptPeriodic then
          { s.body x with osTmrState := .running, osTmrMatch := (s.body x).osTmrPeriod + s.osTmrTime }
        else { s.body x with osTmrState := .completed } := by
  obtain ⟨hx, -⟩ := List.nodup_cons.mp h.rest_nodup
  have hnext := next_inv h
  have hrun : (s.body x).osTmrState = .running := h.running_of_rest List.mem_cons_self
  have hother : some (s.next x) ≠ some (some x) := by
    rw [Ne, Option.some_inj]
    exact fun e => hx (List.mem_of_head? (hnext.ahead.symm.trans e))
  obtain ⟨-, -, -, -, hrest⟩ := osTmrUnlink_spec { s with ptmr := some (s.next x) } x hnext.first
  obtain ⟨spokes₁, hinv₁⟩ := hnext.unlink hrun hother
  rw [List.erase_of_not_mem hx] at hinv₁
  have hbody (y : TmrId) (hy : y ≠ x) : (osTmrUnlink { s with ptmr := some (s.next x) } x).body y = s.body y :=
    body_unlink hnext hy
  have hown : (osTmrUnlink { s with ptmr := some (s.next x) } x).body x = { s.body x with osTmrState := .stopped } :=
    body_unlinked hnext
  obtain ⟨hr, hu⟩ := state_unlinked hnext x
  have heq : osTmrTurn s x =
      (let s₁ := osTmrUnlink { s with ptmr := some (s.next x) } x
      (if (s.body x).osTmrOpt = osTmrOptPeriodic then osTmrLink s₁ x true
        else s₁.setTmr x { s₁.osTmrTbl x with osTmrState := .completed },
        { ptmr := some x, called := (s.body x).osTmrCallback })) := if_pos hm
  rw [heq]
  dsimp only
  generalize osTmrUnlink { s with ptmr := some (s.next x) } x = s₁ at *
  split
  · case isTrue hopt =>
    obtain ⟨-, -, hb, -, hlink⟩ := osTmrLink_spec s₁ x true
    obtain ⟨spokes₂, hinv₂⟩ := hinv₁.link hr hu true
    refine ⟨spokes₂, hinv₂, rfl, hlink.time.trans hrest.time, fun y hy => ?_, ?_⟩
    · rw [hb, if_neg hy, hbody y hy]
    · have hperiod : (s₁.osTmrTbl x).linkTicks true = (s.body x).osTmrPeriod := by
        change (s₁.body x).osTmrPeriod = _
        rw [hown]
      rw [hb, if_pos rfl, hown, hperiod, hrest.time]
  · refine ⟨spokes₁, hinv₁.setTmr hr hu (by simp) (by simp), rfl, hrest.time, fun y hy => ?_, ?_⟩
    · rw [Timers.body_setTmr, if_neg hy, hbody y hy]
    · rw [Timers.body_setTmr, if_pos rfl]
      change { s₁.body x with osTmrState := .completed } = _
      rw [hown]

theorem turn_early (h : TmrInv s spokes free (x :: rest)) (hm : s.osTmrTime ≠ (s.body x).osTmrMatch) :
    TmrInv (osTmrTurn s x).1 spokes free rest ∧ osTmrTurn s x = ({ s with ptmr := some (s.next x) }, {}) := by
  have heq : osTmrTurn s x = ({ s with ptmr := some (s.next x) }, {}) := if_neg hm
  rw [heq]
  exact ⟨next_inv h, rfl⟩

end

end GizwitsSdk
