import GizwitsSdk.LanServer
import GizwitsSdk.Lib.Sweep

/-!
# Control from the local network needs a login

An entry of `g_SocketLogin` stands for a login on the connection that has its
descriptor now. The two ways a client ends keep that: they clear the entries
of the descriptor they close. The upload loop closes the descriptors in the slots
and clears nothing, so it keeps it only while none of them is logged in.
-/

namespace GizwitsSdk

open Lib

/-- A login was received on the descriptor after it was last accepted. -/
def granted (fd : Int) : List Obs → Bool
  | [] => false
  | .accept fd' :: l => if fd' = fd then false else granted fd l
  | .login fd' :: l => if fd' = fd then true else granted fd l
  | .mcuData _ :: l => granted fd l

/-- Each frame for the MCU came on a connection with a login. -/
def authorized : List Obs → Bool
  | [] => true
  | .mcuData fd :: l => granted fd l && authorized l
  | _ :: l => authorized l

/-- If the event is a pass of the upload loop that closes the descriptors in
the slots, none of them is logged in. -/
def PassQuiet (s : LanSt) : LanEv → Prop
  | .top => s.pc = .top → s.ota.upgradeFlag.start = true →
      ∀ i j, 0 < (s.clients i).socketFD → s.gSocketLogin j ≠ (s.clients i).socketFD
  | _ => True

def QuietRun (chip : Chip) : LanSt → List LanEv → Prop
  | _, [] => True
  | s, e :: es => PassQuiet s e ∧ QuietRun chip (lanStep chip s e) es

structure LoginInv (s : LanSt) : Prop where
  authorized : authorized s.obs = true
  client : ∀ i, (s.clients i).socketFD ≠ 0
  fresh : s.pc ≠ .idle → s.newClientfd ≠ 0 ∧ ∀ j, s.gSocketLogin j ≠ s.newClientfd
  login : ∀ j, s.gSocketLogin j ≠ 0 →
    s.isOpen (s.gSocketLogin j) = true ∧ granted (s.gSocketLogin j) s.obs = true

section
variable {s : LanSt} {fd : Int}

/-! ## Clients -/

theorem closeFd_inv (h : LoginInv s) (hfd : ∀ j, s.gSocketLogin j ≠ 0 → s.gSocketLogin j ≠ fd) :
    LoginInv (closeFd fd s) := by
  refine ⟨h.authorized, h.client, h.fresh, fun j hj => ?_⟩
  obtain ⟨ho, hg⟩ := h.login j hj
  exact ⟨(Function.update_of_ne (hfd j hj) _ _).trans ho, hg⟩

theorem setSlot_inv (h : LoginInv s) {c : SocketClent} (hc : c.socketFD ≠ 0) (i : Fin 8) :
    LoginInv (setSlot i c s) := by
  refine ⟨h.authorized, fun k => ?_, h.fresh, h.login⟩
  simp only [setSlot]
  by_cases hk : k = i
  · rw [hk, Function.update_self]; exact hc
  · rw [Function.update_of_ne hk]; exact h.client k

theorem clearLogin_inv (h : LoginInv s) (fd : Int) :
    LoginInv { s with gSocketLogin := fun j => if s.gSocketLogin j = fd then 0 else s.gSocketLogin j } := by
  refine ⟨h.authorized, h.client, fun hpc => ?_, fun j => ?_⟩
  · obtain ⟨h0, hne⟩ := h.fresh hpc
    refine ⟨h0, fun j => ?_⟩
    simp only
    split
    · exact h0.symm
    · exact hne j
  · simp only
    split
    · intro hj; exact absurd rfl hj
    · exact h.login j

theorem dropSocket_inv (h : LoginInv s) (i : Fin 8) : LoginInv (dropSocket i s) := by
  have hc := clearLogin_inv h (s.clients i).socketFD
  have hn : ∀ j, (if s.gSocketLogin j = (s.clients i).socketFD then 0 else s.gSocketLogin j) ≠ 0 →
      (if s.gSocketLogin j = (s.clients i).socketFD then 0 else s.gSocketLogin j) ≠ (s.clients i).socketFD := by
    intro j hj
    by_cases he : s.gSocketLogin j = (s.clients i).socketFD
    · rw [if_pos he] at hj; exact absurd rfl hj
    · rw [if_neg he]; exact he
  unfold dropSocket
  apply setSlot_inv
  · by_cases hfd : 0 < (s.clients i).socketFD
    · simp only [if_pos hfd]
      exact closeFd_inv hc hn
    · simp only [if_neg hfd]
      exact hc
  · exact (by decide : (-1 : Int) ≠ 0)

theorem insertClient_inv (h : LoginInv s) (h0 : fd ≠ 0) (hfd : ∀ j, s.gSocketLogin j ≠ fd) :
    LoginInv (insertClient fd s) := by
  unfold insertClient
  split
  · exact setSlot_inv h h0 _
  · exact closeFd_inv h fun j _ => hfd j

theorem resetTimeout_inv (h : LoginInv s) (fd : Int) : LoginInv (socketResetSlotTimeout fd s) := by
  unfold socketResetSlotTimeout
  split
  · next i _ => exact setSlot_inv h (c := { s.clients i with timeOut := 12 }) (h.client i) i
  · exact h

theorem timeoutSlot_inv (h : LoginInv s) (i : Fin 8) : LoginInv (timeoutSlot s i) := by
  unfold timeoutSlot
  by_cases ht : 0 < (s.clients i).timeOut
  · simp only [if_pos ht]
    have hs := setSlot_inv h (c := { s.clients i with timeOut := (s.clients i).timeOut - 1 }) (h.client i) i
    split
    · exact dropSocket_inv hs i
    · exact hs
  · simp only [if_neg ht]
    exact h

theorem timer_inv (h : LoginInv s) : LoginInv (socketClientTimeoutTimer s) := by
  unfold socketClientTimeoutTimer
  exact sweep_inv (P := LoginInv) (fun _ i h => timeoutSlot_inv h i) _ h

/-! ## Frames -/

theorem handleLogin_mem (wifipasscode : List UInt8) (login : SocketLogin) (fd : Int) (buf : List UInt8) (j : Fin 8) :
    handleLogin wifipasscode login fd buf j = login j ∨
      handleLogin wifipasscode login fd buf j = fd ∧ passcodeOk wifipasscode buf = true := by
  unfold handleLogin
  by_cases hp : passcodeOk wifipasscode buf = true
  · rw [if_pos hp]
    generalize (List.finRange 8).find? (fun i => decide (login i = 0)) = o
    cases o with
    | some i =>
      simp only
      by_cases hj : j = i
      · rw [hj, Function.update_self]; exact .inr ⟨rfl, hp⟩
      · rw [Function.update_of_ne hj]; exact .inl rfl
    | none => exact .inl rfl
  · rw [if_neg hp]; exact .inl rfl

theorem lanSwitch_mcu {login : SocketLogin} {enable : Bool} {p : List UInt8} {n len : UInt16} {off : Nat}
    (h : lanSwitch login enable fd p n = .mcuData off len) : loggedIn login fd = true := by
  simp only [lanSwitch] at h
  split_ifs at h
  assumption

theorem dispatch_mcu {login : SocketLogin} {enable : Bool} {p : List UInt8} {len : UInt16} {off : Nat}
    (h : dispatchTCPData login enable fd p = some (.mcuData off len)) : loggedIn login fd = true := by
  unfold dispatchTCPData at h
  by_cases hv : p.take 4 = [0, 0, 0, 3]
  · rw [if_pos hv] at h
    obtain ⟨n, -, hn⟩ := Option.map_eq_some_iff.mp h
    exact lanSwitch_mcu hn
  · rw [if_neg hv] at h
    exact absurd h nofun

theorem dispatch_inv (h : LoginInv s) (hpc : s.pc = .idle) (h0 : fd ≠ 0) (ho : s.isOpen fd = true)
    (buf : List UInt8) : LoginInv (dispatch fd buf s) := by
  unfold dispatch
  split
  · refine ⟨?_, h.client, fun hne => absurd hpc hne, fun j hj => ?_⟩
    · simp only
      split
      · exact h.authorized
      · exact h.authorized
    · simp only at hj ⊢
      rcases handleLogin_mem s.wifipasscode s.gSocketLogin fd buf j with he | ⟨he, hp⟩
      · rw [he] at hj ⊢
        obtain ⟨ho', hg⟩ := h.login j hj
        refine ⟨ho', ?_⟩
        split
        · rw [granted]
          split
          · rfl
          · exact hg
        · exact hg
      · rw [he, if_pos hp, granted, if_pos rfl]
        exact ⟨ho, rfl⟩
  · next off len hd =>
    have hl := dispatch_mcu hd
    simp only [loggedIn, List.any_eq_true, decide_eq_true_eq] at hl
    obtain ⟨j, -, hj⟩ := hl
    refine ⟨?_, h.client, h.fresh, fun k hk => h.login k hk⟩
    simp only [authorized, h.authorized, Bool.and_true]
    rw [hj]
    exact (h.login j (hj ▸ h0)).2
  · exact h

theorem resetTimeout_keeps (fd fd' : Int) (s : LanSt) :
    (socketResetSlotTimeout fd s).isOpen fd' = s.isOpen fd' ∧ (socketResetSlotTimeout fd s).pc = s.pc := by
  unfold socketResetSlotTimeout
  split
  · exact ⟨rfl, rfl⟩
  · exact ⟨rfl, rfl⟩

theorem serveSlot_inv (h : LoginInv s) (hpc : s.pc = .idle) (i : Fin 8) (r : RecvResult) :
    LoginInv (serveSlot i r s) := by
  unfold serveSlot
  by_cases hskip : (s.clients i).socketFD = -1 ∨ s.isOpen (s.clients i).socketFD = false
  · simp only [if_pos hskip]
    exact h
  · simp only [if_neg hskip]
    obtain ⟨-, ho⟩ := not_or.mp hskip
    cases r with
    | data bs =>
      simp only
      split
      · obtain ⟨ho', hpc'⟩ := resetTimeout_keeps (s.clients i).socketFD (s.clients i).socketFD s
        exact dispatch_inv (resetTimeout_inv h _) (hpc'.trans hpc) (h.client i)
          (ho'.trans (Bool.not_eq_false _ ▸ ho)) _
      · exact h
    | closed => exact dropSocket_inv h i
    | error => exact h

/-! ## New connections and uploads -/

theorem acceptClient_inv (h : LoginInv s) (hpc : s.pc = .idle) (hpos : 0 < fd) (hfd : s.isOpen fd = false) :
    LoginInv (acceptClient fd s) := by
  have h0 : fd ≠ 0 := Int.ne_of_gt hpos
  have hne : ∀ j, s.gSocketLogin j ≠ fd := by
    intro j he
    have ho := (h.login j (he ▸ h0)).1
    rw [he, hfd] at ho
    exact absurd ho nofun
  have hlogin : ∀ j, s.gSocketLogin j ≠ 0 → Function.update s.isOpen fd true (s.gSocketLogin j) = true ∧
      granted (s.gSocketLogin j) (.accept fd :: s.obs) = true := by
    intro j hj
    obtain ⟨ho, hg⟩ := h.login j hj
    rw [granted, Function.update_of_ne (hne j), if_neg (hne j).symm]
    exact ⟨ho, hg⟩
  simp only [acceptClient]
  split
  · exact ⟨h.authorized, h.client, fun _ => ⟨h0, hne⟩, hlogin⟩
  · refine insertClient_inv ?_ h0 hne
    exact ⟨h.authorized, h.client, fun hn => absurd hpc hn, hlogin⟩

theorem closeClients_inv (h : LoginInv s)
    (hq : ∀ i j, 0 < (s.clients i).socketFD → s.gSocketLogin j ≠ (s.clients i).socketFD) :
    LoginInv (closeClients s) := by
  refine ⟨h.authorized, h.client, h.fresh, fun j hj => ?_⟩
  obtain ⟨ho, hg⟩ := h.login j hj
  refine ⟨?_, hg⟩
  simp only [closeClients, ho, Bool.true_and, Bool.not_eq_true', List.any_eq_false, decide_eq_true_eq]
  intro i _ hi
  exact hq i j (hi.2.symm ▸ hi.1) hi.2.symm

theorem inv_ota (h : LoginInv s) (ota : OtaSt) (pc : OtaPc) (hpc : pc ≠ .idle → s.pc ≠ .idle) :
    LoginInv { s with ota, pc } :=
  ⟨h.authorized, h.client, fun hn => h.fresh (hpc hn), h.login⟩

theorem uploadTop_inv (h : LoginInv s) (hpc : s.pc = .top) (hq : PassQuiet s .top) : LoginInv (uploadTop s) := by
  have hbusy : s.pc ≠ .idle := by rw [hpc]; exact nofun
  obtain ⟨h0, hne⟩ := h.fresh hbusy
  unfold uploadTop
  split
  · next ota ht =>
    have hstart : s.ota.upgradeFlag.start = true := by
      by_cases hs : s.ota.upgradeFlag.start = true
      · exact hs
      · rw [otaTop, if_neg hs] at ht
        exact absurd ht nofun
    exact closeClients_inv (inv_ota h ota _ fun _ => hbusy) (hq hpc hstart)
  · next ota _ _ _ =>
    exact insertClient_inv (inv_ota h ota .idle fun hn => absurd rfl hn) h0 hne

theorem uploadRecv_inv (chip : Chip) (bs : List UInt8) (h : LoginInv s) (hpc : s.pc = .recv) :
    LoginInv (uploadRecv chip bs s) := by
  have hbusy : s.pc ≠ .idle := by rw [hpc]; exact nofun
  obtain ⟨h0, hne⟩ := h.fresh hbusy
  have hidle : ∀ ota, LoginInv { s with ota, pc := .idle } := fun ota => inv_ota h ota _ fun hn => absurd rfl hn
  unfold uploadRecv
  split
  · next ota _ => exact inv_ota h ota _ fun _ => hbusy
  · next ota _ => exact insertClient_inv (closeFd_inv (hidle ota) fun j _ => hne j) h0 hne
  · exact ⟨h.authorized, fun _ => nofun, fun hn => absurd rfl hn, fun _ hj => absurd rfl hj⟩
  · next ota _ _ _ _ _ => exact closeFd_inv (hidle ota) fun j _ => hne j

/-! ## Runs -/

theorem lanStep_inv (chip : Chip) (h : LoginInv s) {e : LanEv} (hq : PassQuiet s e) :
    LoginInv (lanStep chip s e) := by
  cases e with
  | accept fd =>
    simp only [lanStep]
    split
    · next hc => exact acceptClient_inv h hc.1 hc.2.1 hc.2.2
    · exact h
  | serve i r =>
    simp only [lanStep]
    split
    · next hpc => exact serveSlot_inv h hpc i r
    · exact h
  | timer => exact timer_inv h
  | announce size => exact ⟨h.authorized, h.client, h.fresh, h.login⟩
  | ackFailed => exact ⟨h.authorized, h.client, h.fresh, h.login⟩
  | top =>
    simp only [lanStep]
    split
    · next hpc => exact uploadTop_inv h hpc hq
    · exact h
  | recv bs =>
    simp only [lanStep]
    split
    · next hpc => exact uploadRecv_inv chip bs h hpc
    · exact h
  | configure p b => exact ⟨h.authorized, h.client, h.fresh, h.login⟩

theorem lanRun_inv (chip : Chip) (es : List LanEv) :
    ∀ s, LoginInv s → QuietRun chip s es → LoginInv (lanRun chip s es) := by
  induction es with
  | nil => intro s h _; exact h
  | cons e es ih =>
    intro s h hq
    exact ih _ (lanStep_inv chip h hq.1) hq.2

end

/-- **A frame for the MCU is obeyed only after a login** on its connection, in
every run in which no pass of the upload loop closes a client that is logged
in. -/
theorem mcu_needs_login (chip : Chip) (flash : Flash) (wifipasscode : List UInt8) (gPasscodeEnable : Bool)
    (es : List LanEv) (hq : QuietRun chip (lanBoot flash wifipasscode gPasscodeEnable) es) :
    authorized (lanRun chip (lanBoot flash wifipasscode gPasscodeEnable) es).obs = true := by
  have h : LoginInv (lanBoot flash wifipasscode gPasscodeEnable) :=
    ⟨rfl, fun _ => nofun, fun hn => absurd rfl hn, fun _ hj => absurd rfl hj⟩
  exact (lanRun_inv chip es _ h hq).authorized

def passcodeOfTen : List UInt8 := [49, 50, 51, 52, 53, 54, 55, 56, 57, 48]

def loginFrame : List UInt8 := [0, 0, 0, 3, 15, 0, 0, 8, 0, 10] ++ passcodeOfTen

/-- A client logs in and has a frame obeyed. -/
def controlled : List LanEv :=
  [.accept 5, .serve 0 (.data loginFrame), .serve 0 (.data [0, 0, 0, 3, 4, 0, 0, 0x90, 1])]

theorem mcu_needs_login_controlled :
    authorized (lanRun plainChip (lanBoot ⟨fun _ => 0xff, 0, [], 0⟩ passcodeOfTen true) controlled).obs = true :=
  mcu_needs_login plainChip ⟨fun _ => 0xff, 0, [], 0⟩ passcodeOfTen true controlled
    ⟨trivial, trivial, trivial, trivial⟩

/-- A client logs in, an upload is begun and given up, and the descriptor goes
to another client. -/
def inherited : List LanEv :=
  [.accept 5, .serve 0 (.data loginFrame), .announce 1, .accept 6, .top, .recv [], .accept 5,
    .serve 1 (.data [0, 0, 0, 3, 4, 0, 0, 0x90, 1])]

theorem inherited_obs :
    (lanRun plainChip (lanBoot ⟨fun _ => 0xff, 0, [], 0⟩ passcodeOfTen true) inherited).obs =
      [.mcuData 5, .accept 5, .accept 6, .login 5, .accept 5] := by
  decide +kernel

theorem mcu_without_login : ¬ ∀ (chip : Chip) (flash : Flash) (wifipasscode : List UInt8) (gPasscodeEnable : Bool)
    (es : List LanEv), authorized (lanRun chip (lanBoot flash wifipasscode gPasscodeEnable) es).obs = true := by
  intro hall
  have h := hall plainChip ⟨fun _ => 0xff, 0, [], 0⟩ passcodeOfTen true inherited
  rw [inherited_obs] at h
  exact absurd h (by decide)

end GizwitsSdk
