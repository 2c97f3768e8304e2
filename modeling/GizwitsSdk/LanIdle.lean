import GizwitsSdk.LanTable
import GizwitsSdk.Lib.Machine

/-!
# Idle clients

A client is alive when it is accepted and when a frame of it is handed on. Its
slot counts the seconds since then down from twelve.
-/

namespace GizwitsSdk

open Lib

/-! ## Signs of life -/

inductive LanSign
  | alive (fd : Int)
  | tick

def lanSign (s : LanSt) : LanEv → Option LanSign
  | .accept fd => if 0 < fd ∧ s.isOpen fd = false then some (.alive fd) else none
  | .serve i (.data bs) => if HandedOn s i bs then some (.alive (s.clients i).socketFD) else none
  | .timer => some .tick
  | _ => none

/-- The ticks since the last sign of life on the descriptor; latest first. -/
def idleTicks (fd : Int) : List LanSign → Nat
  | [] => 0
  | .alive fd' :: l => if fd' = fd then 0 else idleTicks fd l
  | .tick :: l => idleTicks fd l + 1

structure Watch where
  st : LanSt
  signs : List LanSign := []

def watchStep (chip : Chip) (w : Watch) (e : ClientEv) : Watch :=
  { st := clientStep chip w.st e, signs := (lanSign w.st e.1).toList ++ w.signs }

/-! ## The timer -/

def timeoutClient (c : SocketClent) : SocketClent :=
  if 0 < c.timeOut then
    { socketFD := if c.timeOut - 1 = 0 ∧ 0 < c.socketFD then -1 else c.socketFD, timeOut := c.timeOut - 1 }
  else c

section
variable {s : LanSt} {i : Fin 8}

theorem timeoutSlot_own (i : Fin 8) (s : LanSt) : (timeoutSlot s i).clients i = timeoutClient (s.clients i) := by
  unfold timeoutSlot timeoutClient
  by_cases ht : 0 < (s.clients i).timeOut
  · simp only [if_pos ht]
    by_cases hz : (s.clients i).timeOut - 1 = 0 ∧ 0 < (s.clients i).socketFD
    · rw [if_pos hz, if_pos hz, dropSocket_self, setSlot_self]
    · rw [if_neg hz, if_neg hz, setSlot_self]
  · simp only [if_neg ht]

theorem timeoutSlot_other (s : LanSt) {j : Fin 8} (h : j ≠ i) : (timeoutSlot s j).clients i = s.clients i := by
  unfold timeoutSlot
  simp only
  split
  · split
    · rw [dropSocket_other _ h.symm, setSlot_other _ h.symm]
    · rw [setSlot_other _ h.symm]
  · rfl

theorem timer_clients (i : Fin 8) (s : LanSt) :
    (socketClientTimeoutTimer s).clients i = timeoutClient (s.clients i) := by
  rw [socketClientTimeoutTimer]
  exact sweep_finRange (fun s => s.clients i) (timeoutSlot_own i) (fun s _ h => timeoutSlot_other s h) s

/-! ## The countdown -/

theorem reset_eq (h : TableInv s) (hc : Connected s i) :
    socketResetSlotTimeout (s.clients i).socketFD s = setSlot i { s.clients i with timeOut := 12 } s := by
  unfold socketResetSlotTimeout
  split
  · next j hj =>
    have he : (s.clients j).socketFD = (s.clients i).socketFD := by simpa using List.find?_some hj
    rw [h.distinct i j hc he.symm]
  · next hnone =>
    exact absurd (decide_eq_true rfl) (List.find?_eq_none.mp hnone i (List.mem_finRange i))

/-- The slot has counted the ticks since the last sign of life. -/
def Counted (signs : List LanSign) (c : SocketClent) : Prop :=
  0 < c.timeOut ∧ c.timeOut + idleTicks c.socketFD signs = 12

theorem counted_alive {signs : List LanSign} (fd : Int) :
    Counted (.alive fd :: signs) { socketFD := fd, timeOut := 12 } := by
  simp [Counted, idleTicks]

theorem counted_other {signs : List LanSign} {c : SocketClent} {fd : Int} (h : Counted signs c)
    (hne : c.socketFD ≠ fd) : Counted (.alive fd :: signs) c := by
  simpa [Counted, idleTicks, hne.symm] using h

theorem counted_tick {signs : List LanSign} {c : SocketClent} (h : Counted signs c)
    (hpos : 0 < c.socketFD) (hc : (timeoutClient c).socketFD ≠ -1) :
    Counted (.tick :: signs) (timeoutClient c) := by
  obtain ⟨ht, he⟩ := h
  have hz : ¬ (c.timeOut - 1 = 0 ∧ 0 < c.socketFD) := by
    intro hz
    simp [timeoutClient, ht, hz] at hc
  rw [timeoutClient, if_pos ht, if_neg hz]
  simp only [Counted, idleTicks]
  omega

def AllCounted (s : LanSt) (signs : List LanSign) : Prop := ∀ i, Connected s i → Counted signs (s.clients i)

section
variable {signs : List LanSign} {fd : Int}

theorem counted_insertClient (ht : TableInv s) (hclosed : s.isOpen fd = false) (h : AllCounted s signs) :
    AllCounted (insertClient fd (opened fd s)) (.alive fd :: signs) := by
  have hne {k : Fin 8} (hk : Connected s k) := fd_ne_closed ht hclosed hk
  intro k hk
  rcases insertClient_cases fd (opened fd s) with ⟨i, -, he⟩ | ⟨-, he⟩
  · rw [he] at hk ⊢
    by_cases hki : k = i
    · rw [hki, setSlot_self]
      exact counted_alive fd
    · rw [Connected, setSlot_other _ hki] at hk
      rw [setSlot_other _ hki]
      exact counted_other (h k hk) (hne hk)
  · rw [he] at hk ⊢
    exact counted_other (h k hk) (hne hk)

theorem counted_reset (ht : TableInv s) (hc : Connected s i) (h : AllCounted s signs) :
    AllCounted (socketResetSlotTimeout (s.clients i).socketFD s) (.alive (s.clients i).socketFD :: signs) := by
  intro k hk
  rw [Connected, reset_fd] at hk
  rw [reset_eq ht hc]
  by_cases hki : k = i
  · rw [hki, setSlot_self]
    exact counted_alive _
  · rw [setSlot_other _ hki]
    exact counted_other (h k hk) fun he => hki (ht.distinct k i hk he)

theorem counted_dropSocket (ht : TableInv s) (hc : Connected s i) (h : AllCounted s signs) :
    AllCounted (dropSocket i s) signs := by
  intro k hk
  obtain ⟨hki, hk⟩ := (connected_dropSocket ht hc).mp hk
  rw [dropSocket_other s hki]
  exact h k hk

theorem counted_timer (ht : TableInv s) (h : AllCounted s signs) :
    AllCounted (socketClientTimeoutTimer s) (.tick :: signs) := by
  intro k hk
  rw [Connected, timer_clients] at hk
  rw [timer_clients]
  have hc : Connected s k := by
    intro he
    refine hk ?_
    unfold timeoutClient
    split
    · simp [he]
    · exact he
  exact counted_tick (h k hc) (ht.held k hc).1 hk

end

structure IdleInv (w : Watch) : Prop where
  table : TableInv w.st
  counted : AllCounted w.st w.signs

theorem idle_step (chip : Chip) (w : Watch) (e : ClientEv) (h : IdleInv w) : IdleInv (watchStep chip w e) := by
  obtain ⟨s, signs⟩ := w
  obtain ⟨ht, hcount⟩ := h
  have hs := clientStep_cases chip ht.idle ht.quiet e
  refine ⟨table_step ht hs, ?_⟩
  simp only [watchStep] at hs ⊢
  generalize clientStep chip s e = s' at hs
  generalize e.1 = ev at hs
  cases hs with
  | accept hpos hclosed =>
    rw [lanSign, if_pos ⟨hpos, hclosed⟩]
    exact counted_insertClient ht hclosed hcount
  | refused hr =>
    rw [lanSign, if_neg hr]
    exact hcount
  | @frame i bs hf =>
    have hcl := (dispatch_clients (s.clients i).socketFD (recBuffer bs)
      (socketResetSlotTimeout (s.clients i).socketFD s)).1
    rw [lanSign, if_pos hf, AllCounted]
    simp only [Connected, hcl]
    exact counted_reset ht hf.1.1 hcount
  | dropped hd =>
    rw [lanSign, if_neg hd]
    exact hcount
  | closed hc => exact counted_dropSocket ht hc.1 hcount
  | timer => exact counted_timer ht hcount
  | _ => exact hcount

end

/-! ## The rule -/

/-- The timer leaves a client where it is up to the twelfth tick, which ends it. -/
structure IdleRule (w : Watch) : Prop where
  range : ∀ i, Connected w.st i → 1 ≤ (w.st.clients i).timeOut ∧ (w.st.clients i).timeOut ≤ 12
  distinct : ∀ i j, Connected w.st i → (w.st.clients i).socketFD = (w.st.clients j).socketFD → i = j
  early : ∀ i, Connected w.st i → idleTicks (w.st.clients i).socketFD w.signs < 12
  kept : ∀ i, Connected w.st i → idleTicks (w.st.clients i).socketFD w.signs + 1 ≠ 12 →
    ((socketClientTimeoutTimer w.st).clients i).socketFD = (w.st.clients i).socketFD ∧
      (socketClientTimeoutTimer w.st).isOpen (w.st.clients i).socketFD = true
  ended : ∀ i, Connected w.st i → idleTicks (w.st.clients i).socketFD w.signs + 1 = 12 →
    ((socketClientTimeoutTimer w.st).clients i).socketFD = -1 ∧
      (socketClientTimeoutTimer w.st).isOpen (w.st.clients i).socketFD = false ∧
      ∀ j, (socketClientTimeoutTimer w.st).gSocketLogin j ≠ (w.st.clients i).socketFD

section
variable {w : Watch} {i : Fin 8}

theorem timer_kept (h : IdleInv w) (hc : Connected w.st i)
    (hi : idleTicks (w.st.clients i).socketFD w.signs + 1 ≠ 12) :
    ((socketClientTimeoutTimer w.st).clients i).socketFD = (w.st.clients i).socketFD := by
  obtain ⟨ht, he⟩ := h.counted i hc
  have hz : ¬ ((w.st.clients i).timeOut - 1 = 0 ∧ 0 < (w.st.clients i).socketFD) := by omega
  rw [timer_clients, timeoutClient, if_pos ht, if_neg hz]

theorem timer_ended (h : IdleInv w) (hc : Connected w.st i)
    (hi : idleTicks (w.st.clients i).socketFD w.signs + 1 = 12) :
    ((socketClientTimeoutTimer w.st).clients i).socketFD = -1 := by
  obtain ⟨ht, he⟩ := h.counted i hc
  have hz : (w.st.clients i).timeOut - 1 = 0 ∧ 0 < (w.st.clients i).socketFD := ⟨by omega, (h.table.held i hc).1⟩
  rw [timer_clients, timeoutClient, if_pos ht, if_pos hz]

/-- The descriptor of a client that has timed out is in no slot. -/
theorem timer_gone (h : IdleInv w) (hc : Connected w.st i)
    (hi : idleTicks (w.st.clients i).socketFD w.signs + 1 = 12) (k : Fin 8)
    (hk : Connected (socketClientTimeoutTimer w.st) k) :
    ((socketClientTimeoutTimer w.st).clients k).socketFD ≠ (w.st.clients i).socketFD := by
  intro he
  have hpos := (h.table.held i hc).1
  have hkf : (w.st.clients k).socketFD = (w.st.clients i).socketFD := by
    rw [timer_clients, timeoutClient] at he
    split at he
    · simp only at he
      split at he
      · omega
      · exact he
    · exact he
  rw [← h.table.distinct i k hc hkf.symm] at hk
  exact hk (timer_ended h hc hi)

theorem idle_rule (h : IdleInv w) : IdleRule w := by
  have ht := table_timer h.table
  refine ⟨fun i hc => ?_, h.table.distinct, fun i hc => ?_, fun i hc hi => ?_, fun i hc hi => ?_⟩
  · obtain ⟨hpos, he⟩ := h.counted i hc
    omega
  · obtain ⟨hpos, he⟩ := h.counted i hc
    omega
  · have hf := timer_kept h hc hi
    refine ⟨hf, ?_⟩
    rw [← hf]
    refine (ht.held i ?_).2
    rw [Connected, hf]
    exact hc
  · refine ⟨timer_ended h hc hi, ?_, fun j hj => ?_⟩
    · by_contra ho
      obtain ⟨k, hk, he⟩ := ht.owned _ (Bool.not_eq_false _ ▸ ho)
      exact timer_gone h hc hi k hk he
    · have h0 : (socketClientTimeoutTimer w.st).gSocketLogin j ≠ 0 := by
        have hpos := (h.table.held i hc).1
        omega
      obtain ⟨k, hk, he⟩ := ht.login j h0
      exact timer_gone h hc hi k hk (he.symm.trans hj)

end

end GizwitsSdk
