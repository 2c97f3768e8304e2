import GizwitsSdk.LanLogin

/-!
# The client table

While no upload is on, the open descriptors are those in the slots, each in one
slot only, and an entry of `g_SocketLogin` is one of them.
-/

namespace GizwitsSdk

open Lib

/-! ## Steps without an upload -/

/-- An event of a run in which no upload is announced. -/
abbrev ClientEv := {e : LanEv // ∀ size, e ≠ .announce size}

def clientStep (chip : Chip) (s : LanSt) (e : ClientEv) : LanSt := lanStep chip s e.1

def recBuffer (bs : List UInt8) : List UInt8 := bs ++ List.replicate (1024 - bs.length) 0

def Connected (s : LanSt) (i : Fin 8) : Prop := (s.clients i).socketFD ≠ -1

def Served (s : LanSt) (i : Fin 8) : Prop := Connected s i ∧ s.isOpen (s.clients i).socketFD = true

instance (s : LanSt) (i : Fin 8) : Decidable (Connected s i) := inferInstanceAs (Decidable (_ ≠ _))

instance (s : LanSt) (i : Fin 8) : Decidable (Served s i) := inferInstanceAs (Decidable (_ ∧ _))

/-- A frame that does not fill the receive buffer is handed on. -/
def HandedOn (s : LanSt) (i : Fin 8) (bs : List UInt8) : Prop :=
  Served s i ∧ 0 < bs.length ∧ bs.length < 1024

instance (s : LanSt) (i : Fin 8) (bs : List UInt8) : Decidable (HandedOn s i bs) := inferInstanceAs (Decidable (_ ∧ _))

def opened (fd : Int) (s : LanSt) : LanSt :=
  { s with isOpen := Function.update s.isOpen fd true, obs := .accept fd :: s.obs }

inductive ClientStep (s : LanSt) : LanEv → LanSt → Prop
  | accept {fd : Int} (hpos : 0 < fd) (hclosed : s.isOpen fd = false) :
      ClientStep s (.accept fd) (insertClient fd (opened fd s))
  | refused {fd : Int} (h : ¬ (0 < fd ∧ s.isOpen fd = false)) : ClientStep s (.accept fd) s
  | frame {i : Fin 8} {bs : List UInt8} (h : HandedOn s i bs) :
      ClientStep s (.serve i (.data bs))
        (dispatch (s.clients i).socketFD (recBuffer bs) (socketResetSlotTimeout (s.clients i).socketFD s))
  | dropped {i : Fin 8} {bs : List UInt8} (h : ¬ HandedOn s i bs) : ClientStep s (.serve i (.data bs)) s
  | closed {i : Fin 8} (h : Served s i) : ClientStep s (.serve i .closed) (dropSocket i s)
  | unserved {i : Fin 8} (h : ¬ Served s i) : ClientStep s (.serve i .closed) s
  | error {i : Fin 8} : ClientStep s (.serve i .error) s
  | timer : ClientStep s .timer (socketClientTimeoutTimer s)
  | ackFailed : ClientStep s .ackFailed { s with ota.upgradeFlag := {} }
  | top : ClientStep s .top s
  | recv {bs : List UInt8} : ClientStep s (.recv bs) s
  | configure {wifipasscode : List UInt8} {gPasscodeEnable : Bool} :
      ClientStep s (.configure wifipasscode gPasscodeEnable) { s with wifipasscode, gPasscodeEnable }

section
variable {s : LanSt} {i : Fin 8} {fd : Int}

theorem not_served (h : ¬ Served s i) : (s.clients i).socketFD = -1 ∨ s.isOpen (s.clients i).socketFD = false := by
  simpa [Served, Connected, or_iff_not_imp_left] using h

theorem serveSlot_served (h : Served s i) (r : RecvResult) :
    serveSlot i r s =
      match r with
      | .data bs =>
        if 0 < bs.length ∧ bs.length < 1024 then
          dispatch (s.clients i).socketFD (recBuffer bs) (socketResetSlotTimeout (s.clients i).socketFD s)
        else s
      | .closed => dropSocket i s
      | .error => s := by
  have hskip : ¬ ((s.clients i).socketFD = -1 ∨ s.isOpen (s.clients i).socketFD = false) := by
    simpa [Served, Connected] using h
  exact if_neg hskip

theorem serveSlot_unserved (h : ¬ Served s i) (r : RecvResult) : serveSlot i r s = s :=
  if_pos (not_served h)

theorem clientStep_cases (chip : Chip) (hpc : s.pc = .idle) (hup : s.ota.upgradeFlag.start = false)
    (e : ClientEv) : ClientStep s e.1 (clientStep chip s e) := by
  obtain ⟨e, he⟩ := e
  simp only [clientStep]
  cases e with
  | accept fd =>
    by_cases h : 0 < fd ∧ s.isOpen fd = false
    · rw [lanStep, if_pos ⟨hpc, h⟩, acceptClient]
      simp only [hup]
      exact .accept h.1 h.2
    · rw [lanStep, if_neg fun hc => h hc.2]
      exact .refused h
  | serve i r =>
    rw [lanStep, if_pos hpc]
    by_cases h : Served s i
    · rw [serveSlot_served h]
      cases r with
      | data bs =>
        simp only
        split
        · next hlen => exact .frame ⟨h, hlen⟩
        · next hlen => exact .dropped fun hf => hlen hf.2
      | closed => exact .closed h
      | error => exact .error
    · rw [serveSlot_unserved h]
      cases r with
      | data bs => exact .dropped fun hf => h hf.1
      | closed => exact .unserved h
      | error => exact .error
  | timer => exact .timer
  | announce size => exact absurd rfl (he size)
  | ackFailed => exact .ackFailed
  | top => rw [lanStep, if_neg (by simp [hpc])]; exact .top
  | recv bs => rw [lanStep, if_neg (by simp [hpc])]; exact .recv
  | configure p b => exact .configure

/-! ## The table -/

structure TableInv (s : LanSt) : Prop where
  idle : s.pc = .idle
  quiet : s.ota.upgradeFlag.start = false
  held : ∀ i, Connected s i → 0 < (s.clients i).socketFD ∧ s.isOpen (s.clients i).socketFD = true
  distinct : ∀ i j, Connected s i → (s.clients i).socketFD = (s.clients j).socketFD → i = j
  owned : ∀ fd, s.isOpen fd = true → ∃ i, Connected s i ∧ (s.clients i).socketFD = fd
  login : ∀ j, s.gSocketLogin j ≠ 0 → ∃ i, Connected s i ∧ s.gSocketLogin j = (s.clients i).socketFD

@[simp] theorem setSlot_self (c : SocketClent) : (setSlot i c s).clients i = c := Function.update_self ..

theorem setSlot_other (c : SocketClent) {k : Fin 8} (h : k ≠ i) : (setSlot i c s).clients k = s.clients k :=
  Function.update_of_ne h _ _

theorem setSlot_fd (c : SocketClent) (k : Fin 8) :
    ((setSlot i c s).clients k).socketFD = if k = i then c.socketFD else (s.clients k).socketFD := by
  by_cases hk : k = i
  · rw [hk, setSlot_self, if_pos rfl]
  · rw [setSlot_other c hk, if_neg hk]

theorem retime_fd (t : Nat) (k : Fin 8) :
    ((setSlot i { s.clients i with timeOut := t } s).clients k).socketFD = (s.clients k).socketFD := by
  rw [setSlot_fd]
  split
  · next hk => rw [hk]
  · rfl

/-- The table does not see the time a client has left. -/
theorem table_retime (h : TableInv s) (i : Fin 8) (t : Nat) :
    TableInv (setSlot i { s.clients i with timeOut := t } s) := by
  refine ⟨h.idle, h.quiet, ?_, ?_, ?_, ?_⟩
  · simp only [Connected, retime_fd]
    exact h.held
  · simp only [Connected, retime_fd]
    exact h.distinct
  · simp only [Connected, retime_fd]
    exact h.owned
  · simp only [Connected, retime_fd]
    exact h.login

theorem table_reset (h : TableInv s) (fd : Int) : TableInv (socketResetSlotTimeout fd s) := by
  unfold socketResetSlotTimeout
  split
  · exact table_retime h _ _
  · exact h

theorem dropSocket_eq (hfd : 0 < (s.clients i).socketFD) :
    dropSocket i s =
      { s with
        clients := Function.update s.clients i { s.clients i with socketFD := -1 }
        gSocketLogin := fun j => if s.gSocketLogin j = (s.clients i).socketFD then 0 else s.gSocketLogin j
        isOpen := Function.update s.isOpen (s.clients i).socketFD false } := by
  simp only [dropSocket, if_pos hfd, setSlot, closeFd]

theorem dropSocket_self (i : Fin 8) (s : LanSt) :
    (dropSocket i s).clients i = { s.clients i with socketFD := -1 } := by
  refine (setSlot_self _).trans ?_
  split
  · rfl
  · rfl

theorem dropSocket_other (s : LanSt) {k : Fin 8} (h : k ≠ i) : (dropSocket i s).clients k = s.clients k := by
  refine (setSlot_other _ h).trans ?_
  split
  · rfl
  · rfl

theorem connected_dropSocket (h : TableInv s) (hc : Connected s i) {k : Fin 8} :
    Connected (dropSocket i s) k ↔ k ≠ i ∧ Connected s k := by
  rw [dropSocket_eq (h.held i hc).1]
  by_cases hk : k = i <;> simp [Connected, hk]

theorem table_dropSocket (h : TableInv s) (hc : Connected s i) : TableInv (dropSocket i s) := by
  have hpos := (h.held i hc).1
  refine ⟨?_, ?_, fun k hk => ?_, fun k l hk hl => ?_, fun fd ho => ?_, fun j hj => ?_⟩
  · rw [dropSocket_eq hpos]; exact h.idle
  · rw [dropSocket_eq hpos]; exact h.quiet
  · obtain ⟨hki, hk⟩ := (connected_dropSocket h hc).mp hk
    have hne : (s.clients k).socketFD ≠ (s.clients i).socketFD := fun he => hki (h.distinct k i hk he)
    rw [dropSocket_other s hki, dropSocket_eq hpos]
    exact ⟨(h.held k hk).1, (Function.update_of_ne hne _ _).trans (h.held k hk).2⟩
  · obtain ⟨hki, hk'⟩ := (connected_dropSocket h hc).mp hk
    by_cases hli : l = i
    · rw [hli] at hl
      rw [Connected, hl, dropSocket_eq hpos] at hk
      simp at hk
    · rw [dropSocket_other s hki, dropSocket_other s hli] at hl
      exact h.distinct k l hk' hl
  · have hne : fd ≠ (s.clients i).socketFD := by
      rintro rfl
      rw [dropSocket_eq hpos] at ho
      simp at ho
    rw [dropSocket_eq hpos] at ho
    obtain ⟨k, hk, he⟩ := h.owned fd ((Function.update_of_ne hne _ _).symm.trans ho)
    have hki : k ≠ i := by
      rintro rfl
      exact hne he.symm
    exact ⟨k, (connected_dropSocket h hc).mpr ⟨hki, hk⟩, (congrArg _ (dropSocket_other s hki)).trans he⟩
  · rw [dropSocket_eq hpos] at hj
    simp only [ne_eq, ite_eq_left_iff, not_forall] at hj
    obtain ⟨hne, h0⟩ := hj
    obtain ⟨k, hk, he⟩ := h.login j h0
    have hki : k ≠ i := by
      intro hki
      rw [hki] at he
      exact hne he
    refine ⟨k, (connected_dropSocket h hc).mpr ⟨hki, hk⟩, ?_⟩
    rw [dropSocket_other s hki, ← he, dropSocket_eq hpos]
    exact if_neg hne

/-- The slot that a new client gets was free. -/
theorem insertClient_cases (fd : Int) (s : LanSt) :
    (∃ i, ¬ Connected s i ∧ insertClient fd s = setSlot i { socketFD := fd, timeOut := 12 } s) ∨
      ((∀ i, Connected s i) ∧ insertClient fd s = closeFd fd s) := by
  unfold insertClient
  split
  · next i hi =>
    have hfree : (s.clients i).socketFD = -1 := by simpa using List.find?_some hi
    exact .inl ⟨i, not_not.mpr hfree, rfl⟩
  · next hnone =>
    refine .inr ⟨fun i => ?_, rfl⟩
    have hi := List.find?_eq_none.mp hnone i (List.mem_finRange i)
    exact fun he => hi (decide_eq_true he)

theorem fd_ne_closed (h : TableInv s) (hclosed : s.isOpen fd = false) (hc : Connected s i) :
    (s.clients i).socketFD ≠ fd := by
  intro he
  have ho := (h.held i hc).2
  rw [he, hclosed] at ho
  cases ho

theorem connected_setSlot {c : SocketClent} (hc : c.socketFD ≠ -1) {k : Fin 8} :
    Connected (setSlot i c s) k ↔ k = i ∨ Connected s k := by
  by_cases hk : k = i
  · rw [Connected, hk, setSlot_self]
    exact iff_of_true hc (.inl rfl)
  · rw [Connected, setSlot_other c hk]
    exact (or_iff_right hk).symm

theorem table_seated (h : TableInv s) (hpos : 0 < fd) (hclosed : s.isOpen fd = false) (hi : ¬ Connected s i)
    (t : Nat) : TableInv (setSlot i { socketFD := fd, timeOut := t } (opened fd s)) := by
  have hc {k : Fin 8} : Connected (setSlot i { socketFD := fd, timeOut := t } (opened fd s)) k ↔
      k = i ∨ Connected s k := connected_setSlot (s := opened fd s) (by simp only; omega)
  have hfd (k : Fin 8) : ((setSlot i { socketFD := fd, timeOut := t } (opened fd s)).clients k).socketFD =
      if k = i then fd else (s.clients k).socketFD := setSlot_fd _ k
  have hne {k : Fin 8} (hk : Connected s k) : k ≠ i ∧ (s.clients k).socketFD ≠ fd :=
    ⟨fun he => hi (he ▸ hk), fd_ne_closed h hclosed hk⟩
  refine ⟨h.idle, h.quiet, fun k hk => ?_, fun k l hk hl => ?_, fun fd' ho => ?_, fun j hj => ?_⟩
  · rw [hfd]
    rcases hc.mp hk with rfl | hk
    · rw [if_pos rfl]
      exact ⟨hpos, Function.update_self ..⟩
    · rw [if_neg (hne hk).1]
      exact ⟨(h.held k hk).1, (Function.update_of_ne (hne hk).2 _ _).trans (h.held k hk).2⟩
  · have hcl : Connected (setSlot i { socketFD := fd, timeOut := t } (opened fd s)) l := by
      rw [Connected, ← hl]
      exact hk
    rw [hfd, hfd] at hl
    rcases hc.mp hk with hki | hks
    · rcases hc.mp hcl with hli | hls
      · rw [hki, hli]
      · rw [if_pos hki, if_neg (hne hls).1] at hl
        exact absurd hl.symm (hne hls).2
    · rw [if_neg (hne hks).1] at hl
      rcases hc.mp hcl with hli | hls
      · rw [if_pos hli] at hl
        exact absurd hl (hne hks).2
      · rw [if_neg (hne hls).1] at hl
        exact h.distinct k l hks hl
  · by_cases hf : fd' = fd
    · exact ⟨i, hc.mpr (.inl rfl), by rw [hfd, if_pos rfl, hf]⟩
    · obtain ⟨k, hk, hl⟩ := h.owned fd' ((Function.update_of_ne hf _ _).symm.trans ho)
      exact ⟨k, hc.mpr (.inr hk), by rw [hfd, if_neg (hne hk).1, hl]⟩
  · obtain ⟨k, hk, hl⟩ := h.login j hj
    exact ⟨k, hc.mpr (.inr hk), by rw [hfd, if_neg (hne hk).1]; exact hl⟩

theorem table_refused (h : TableInv s) (hclosed : s.isOpen fd = false) : TableInv (closeFd fd (opened fd s)) := by
  have hopen : (closeFd fd (opened fd s)).isOpen = s.isOpen := by
    simp only [closeFd, opened, Function.update_idem]
    rw [← hclosed, Function.update_eq_self]
  refine ⟨h.idle, h.quiet, ?_, h.distinct, ?_, h.login⟩
  · rw [hopen]
    exact h.held
  · rw [hopen]
    exact h.owned

theorem table_insertClient (h : TableInv s) (hpos : 0 < fd) (hclosed : s.isOpen fd = false) :
    TableInv (insertClient fd (opened fd s)) := by
  rcases insertClient_cases fd (opened fd s) with ⟨i, hi, he⟩ | ⟨-, he⟩
  · rw [he]
    exact table_seated h hpos hclosed hi 12
  · rw [he]
    exact table_refused h hclosed

theorem dispatch_clients (fd : Int) (buf : List UInt8) (s : LanSt) :
    (dispatch fd buf s).clients = s.clients ∧ (dispatch fd buf s).isOpen = s.isOpen ∧
      (dispatch fd buf s).pc = s.pc ∧ (dispatch fd buf s).ota = s.ota := by
  unfold dispatch
  split
  · exact ⟨rfl, rfl, rfl, rfl⟩
  · exact ⟨rfl, rfl, rfl, rfl⟩
  · exact ⟨rfl, rfl, rfl, rfl⟩

theorem dispatch_login (fd : Int) (buf : List UInt8) (s : LanSt) (j : Fin 8) :
    (dispatch fd buf s).gSocketLogin j = s.gSocketLogin j ∨ (dispatch fd buf s).gSocketLogin j = fd := by
  unfold dispatch
  split
  · exact (handleLogin_mem s.wifipasscode s.gSocketLogin fd buf j).imp_right And.left
  · exact .inl rfl
  · exact .inl rfl

theorem table_dispatch (h : TableInv s) (hc : Connected s i) (buf : List UInt8) :
    TableInv (dispatch (s.clients i).socketFD buf s) := by
  obtain ⟨hcl, ho, hpc, hota⟩ := dispatch_clients (s.clients i).socketFD buf s
  refine ⟨hpc.trans h.idle, ?_, ?_, ?_, ?_, fun j hj => ?_⟩
  · rw [hota]; exact h.quiet
  · simp only [Connected, hcl, ho]
    exact h.held
  · simp only [Connected, hcl]
    exact h.distinct
  · simp only [Connected, hcl, ho]
    exact h.owned
  · simp only [Connected, hcl]
    rcases dispatch_login (s.clients i).socketFD buf s j with he | he
    · rw [he] at hj ⊢
      exact h.login j hj
    · exact ⟨i, hc, he⟩

theorem table_timeoutSlot (h : TableInv s) (i : Fin 8) : TableInv (timeoutSlot s i) := by
  have hr := table_retime h i ((s.clients i).timeOut - 1)
  unfold timeoutSlot
  simp only
  split
  · split
    · next hz =>
      refine table_dropSocket hr ?_
      rw [Connected, setSlot_fd, if_pos rfl]
      exact fun (he : (s.clients i).socketFD = -1) => absurd hz.2 (by simp [he])
    · exact hr
  · exact h

theorem table_timer (h : TableInv s) : TableInv (socketClientTimeoutTimer s) := by
  unfold socketClientTimeoutTimer
  exact sweep_inv (P := TableInv) (fun _ i h => table_timeoutSlot h i) _ h

theorem reset_fd (fd : Int) (s : LanSt) (k : Fin 8) :
    ((socketResetSlotTimeout fd s).clients k).socketFD = (s.clients k).socketFD := by
  unfold socketResetSlotTimeout
  split
  · exact retime_fd 12 k
  · rfl

theorem table_step {e : LanEv} {s' : LanSt} (h : TableInv s) (hs : ClientStep s e s') : TableInv s' := by
  cases hs with
  | accept hpos hclosed => exact table_insertClient h hpos hclosed
  | @frame i bs hf =>
    have hc : Connected (socketResetSlotTimeout (s.clients i).socketFD s) i := by
      rw [Connected, reset_fd]
      exact hf.1.1
    have hd := table_dispatch (table_reset h (s.clients i).socketFD) hc (recBuffer bs)
    rwa [reset_fd] at hd
  | closed hs => exact table_dropSocket h hs.1
  | timer => exact table_timer h
  | ackFailed => exact ⟨h.idle, rfl, h.held, h.distinct, h.owned, h.login⟩
  | configure => exact ⟨h.idle, h.quiet, h.held, h.distinct, h.owned, h.login⟩
  | _ => exact h

end

theorem table_boot (flash : Flash) (wifipasscode : List UInt8) (gPasscodeEnable : Bool) :
    TableInv (lanBoot flash wifipasscode gPasscodeEnable) :=
  ⟨rfl, rfl, fun _ hc => absurd rfl hc, fun _ _ hc => absurd rfl hc, fun _ ho => absurd ho Bool.false_ne_true,
    fun _ hj => absurd rfl hj⟩

end GizwitsSdk
