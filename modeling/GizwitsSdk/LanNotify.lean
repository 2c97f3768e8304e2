import GizwitsSdk.LanTable
import GizwitsSdk.McuV4
import GizwitsSdk.Lib.Machine
import Mathlib.Algebra.BigOperators.Group.List.Basic
import Mathlib.SetTheory.Cardinal.NatCard

/-!
# Notifications to the clients that are logged in

`Socket_SendData2Client` sends a packet to a client once for each entry of
`g_SocketLogin` that has its descriptor, and `handleLogin` takes a free entry for
each login, whether the client has one or not.
-/

namespace GizwitsSdk

open Lib

def notifications (s : LanSt) (pdata : List UInt8) : List (Int × List UInt8) :=
  socketSendData2Client s.clients s.gSocketLogin pdata 0x91

/-- Each client with a login since it was accepted gets a packet once, and no other does. -/
structure NotifiedOnce (s : LanSt) : Prop where
  sent : ∀ pdata i, Connected s i → (notifications s pdata).count ((s.clients i).socketFD, pdata) =
    if granted (s.clients i).socketFD s.obs then 1 else 0
  only : ∀ pdata p, p ∈ notifications s pdata → ∃ i, Connected s i ∧ p = ((s.clients i).socketFD, pdata)

def LogsIn (s : LanSt) (fd : Int) (buf : List UInt8) : Prop :=
  dispatchTCPData s.gSocketLogin s.gPasscodeEnable fd buf = some .handleLogin ∧ passcodeOk s.wifipasscode buf = true

instance (s : LanSt) (fd : Int) (buf : List UInt8) : Decidable (LogsIn s fd buf) := inferInstanceAs (Decidable (_ ∧ _))

/-- A client that is logged in logs in again, and an entry is free for it. -/
def Relogin (s : LanSt) : LanEv → Prop
  | .serve i (.data bs) =>
    HandedOn s i bs ∧ LogsIn s (s.clients i).socketFD (recBuffer bs) ∧
      loggedIn s.gSocketLogin (s.clients i).socketFD = true ∧ ∃ j, s.gSocketLogin j = 0
  | _ => False

section
variable {s s' : LanSt} {i : Fin 8} {fd : Int} {pdata : List UInt8}

/-! ## What is sent -/

def entries (gSocketLogin : SocketLogin) (fd : Int) : List (Fin 8) :=
  (List.finRange 8).filter fun j => fd = gSocketLogin j

theorem mem_entries {login : SocketLogin} {j : Fin 8} : j ∈ entries login fd ↔ fd = login j := by
  simp [entries]

theorem loggedIn_iff {login : SocketLogin} : loggedIn login fd = true ↔ ∃ j, fd = login j := by
  simp [loggedIn]

theorem notifications_eq (s : LanSt) (pdata : List UInt8) :
    notifications s pdata = (List.finRange 8).flatMap fun j =>
      if 0 < (s.clients j).socketFD then
        List.replicate (entries s.gSocketLogin (s.clients j).socketFD).length ((s.clients j).socketFD, pdata)
      else [] := by
  simp only [notifications, socketSendData2Client, if_true, List.map_const']
  rfl

theorem count_notifications (h : TableInv s) (hc : Connected s i) (pdata : List UInt8) :
    (notifications s pdata).count ((s.clients i).socketFD, pdata) =
      (entries s.gSocketLogin (s.clients i).socketFD).length := by
  have hone := List.count_eq_one_of_mem (List.nodup_finRange 8) (List.mem_finRange i)
  rw [notifications_eq, List.count_flatMap, List.sum_map_eq_nsmul_single i, hone, one_nsmul]
  · simp only [Function.comp_apply, if_pos (h.held i hc).1, List.count_replicate_self]
  · intro j hj _
    refine List.count_eq_zero.mpr fun hm => ?_
    simp only at hm
    split at hm
    · have he := (List.mem_replicate.mp hm).2
      exact hj (h.distinct i j hc (congrArg Prod.fst he)).symm
    · cases hm

theorem notifications_only {p : Int × List UInt8} (hp : p ∈ notifications s pdata) :
    ∃ i, Connected s i ∧ p = ((s.clients i).socketFD, pdata) := by
  rw [notifications_eq, List.mem_flatMap] at hp
  obtain ⟨i, -, hp⟩ := hp
  split at hp
  · next hpos =>
    refine ⟨i, ?_, (List.mem_replicate.mp hp).2⟩
    rw [Connected]
    omega
  · cases hp

/-! ## The logins -/

structure NotifyInv (s : LanSt) : Prop where
  table : TableInv s
  once : ∀ j k, s.gSocketLogin j ≠ 0 → s.gSocketLogin j = s.gSocketLogin k → j = k
  granted : ∀ i, Connected s i →
    (granted (s.clients i).socketFD s.obs = true ↔ loggedIn s.gSocketLogin (s.clients i).socketFD = true)

theorem entries_length (h : NotifyInv s) (h0 : fd ≠ 0) :
    (entries s.gSocketLogin fd).length = if loggedIn s.gSocketLogin fd then 1 else 0 := by
  by_cases hl : loggedIn s.gSocketLogin fd = true
  · rw [if_pos hl]
    obtain ⟨j, hj⟩ := loggedIn_iff.mp hl
    have hall : ∀ k ∈ entries s.gSocketLogin fd, k = j := by
      intro k hk
      exact (h.once j k (hj ▸ h0) (hj.symm.trans (mem_entries.mp hk))).symm
    have hnd : (entries s.gSocketLogin fd).Nodup := (List.nodup_finRange 8).filter _
    have hrep := List.eq_replicate_of_mem hall
    have hone := List.count_eq_one_of_mem hnd (mem_entries.mpr hj)
    rw [hrep, List.count_replicate_self] at hone
    exact hone
  · rw [if_neg hl, List.length_eq_zero_iff, List.eq_nil_iff_forall_not_mem]
    exact fun j hj => hl (loggedIn_iff.mpr ⟨j, mem_entries.mp hj⟩)

theorem notify_once (h : NotifyInv s) : NotifiedOnce s := by
  refine ⟨fun pdata i hc => ?_, fun pdata p hp => notifications_only hp⟩
  have h0 : (s.clients i).socketFD ≠ 0 := by
    have := (h.table.held i hc).1
    omega
  rw [count_notifications h.table hc, entries_length h h0]
  exact if_congr (h.granted i hc).symm rfl rfl

/-- Where no client is listed twice, a client that is not logged in finds an entry. -/
theorem free_entry (h : NotifyInv s) (hl : loggedIn s.gSocketLogin (s.clients i).socketFD = false) : ∃ j, s.gSocketLogin j = 0 := by
  by_contra hn
  have hn : ∀ j, s.gSocketLogin j ≠ 0 := fun j hj => hn ⟨j, hj⟩
  choose slot hslot hfd using fun j => h.table.login j (hn j)
  have hinj : Function.Injective slot := by
    intro j k he
    refine h.once j k (hn j) ?_
    rw [hfd j, hfd k, he]
  obtain ⟨j, hj⟩ := Finite.surjective_of_injective hinj i
  have hin : loggedIn s.gSocketLogin (s.clients i).socketFD = true := by
    refine loggedIn_iff.mpr ⟨j, ?_⟩
    rw [hfd j, hj]
  rw [hl] at hin
  cases hin

/-! ## Steps -/

theorem notify_same (h : NotifyInv s) (ht : TableInv s')
    (hfd : ∀ i, (s'.clients i).socketFD = (s.clients i).socketFD) (hl : s'.gSocketLogin = s.gSocketLogin)
    (hg : ∀ fd, GizwitsSdk.granted fd s'.obs = GizwitsSdk.granted fd s.obs) : NotifyInv s' := by
  refine ⟨ht, ?_, fun i hc => ?_⟩
  · rw [hl]
    exact h.once
  · rw [Connected, hfd] at hc
    rw [hfd, hl, hg]
    exact h.granted i hc

theorem notify_reset (h : NotifyInv s) (fd : Int) : NotifyInv (socketResetSlotTimeout fd s) := by
  refine notify_same h (table_reset h.table fd) (reset_fd fd s) ?_ fun _ => ?_
  · unfold socketResetSlotTimeout
    split <;> rfl
  · unfold socketResetSlotTimeout
    split <;> rfl

theorem notify_dropSocket (h : NotifyInv s) (hc : Connected s i) : NotifyInv (dropSocket i s) := by
  have hpos := (h.table.held i hc).1
  have heq := dropSocket_eq hpos
  refine ⟨table_dropSocket h.table hc, fun j k hj hjk => ?_, fun k hk => ?_⟩
  · rw [heq] at hj hjk
    simp only at hj hjk
    split at hj
    · exact absurd rfl hj
    · next hne =>
      rw [if_neg hne] at hjk
      split at hjk
      · exact absurd hjk hj
      · exact h.once j k hj hjk
  · obtain ⟨hki, hk⟩ := (connected_dropSocket h.table hc).mp hk
    have hne : (s.clients k).socketFD ≠ (s.clients i).socketFD := fun he => hki (h.table.distinct k i hk he)
    have hkpos := (h.table.held k hk).1
    rw [dropSocket_other s hki, heq]
    refine (h.granted k hk).trans ?_
    simp only [loggedIn_iff]
    refine exists_congr fun j => ?_
    split
    · next he =>
      rw [he]
      exact iff_of_false hne hkpos.ne'
    · rfl

theorem notify_timeoutSlot (h : NotifyInv s) (i : Fin 8) : NotifyInv (timeoutSlot s i) := by
  have hr : NotifyInv (setSlot i { s.clients i with timeOut := (s.clients i).timeOut - 1 } s) :=
    notify_same h (table_retime h.table i _) (retime_fd _) rfl fun _ => rfl
  unfold timeoutSlot
  simp only
  split
  · split
    · next hz =>
      refine notify_dropSocket hr ?_
      rw [Connected, retime_fd]
      omega
    · exact hr
  · exact h

theorem notify_timer (h : NotifyInv s) : NotifyInv (socketClientTimeoutTimer s) := by
  unfold socketClientTimeoutTimer
  exact sweep_inv (P := NotifyInv) (fun _ i h => notify_timeoutSlot h i) _ h

theorem notify_insertClient (h : NotifyInv s) (hpos : 0 < fd) (hclosed : s.isOpen fd = false) :
    NotifyInv (insertClient fd (opened fd s)) := by
  have ht := table_insertClient h.table hpos hclosed
  have hother {k : Fin 8} (hk : Connected s k) :
      granted (s.clients k).socketFD (.accept fd :: s.obs) = true ↔
        loggedIn s.gSocketLogin (s.clients k).socketFD = true := by
    rw [GizwitsSdk.granted, if_neg (fd_ne_closed h.table hclosed hk).symm]
    exact h.granted k hk
  rcases insertClient_cases fd (opened fd s) with ⟨i, -, he⟩ | ⟨-, he⟩
  · rw [he] at ht ⊢
    refine ⟨ht, h.once, fun k hk => ?_⟩
    by_cases hki : k = i
    · rw [hki, setSlot_self]
      refine iff_of_false (by simp [setSlot, opened, GizwitsSdk.granted]) fun hl => ?_
      obtain ⟨j, hj⟩ := loggedIn_iff.mp hl
      have hj : fd = s.gSocketLogin j := hj
      have h0 : s.gSocketLogin j ≠ 0 := by omega
      obtain ⟨l, hl, hfd⟩ := h.table.login j h0
      exact fd_ne_closed h.table hclosed hl (hfd.symm.trans hj.symm)
    · rw [Connected, setSlot_other _ hki] at hk
      rw [setSlot_other _ hki]
      exact hother hk
  · rw [he] at ht ⊢
    exact ⟨ht, h.once, fun k hk => hother hk⟩

/-! ## Frames -/

theorem dispatch_logsIn {buf : List UInt8} (hl : LogsIn s fd buf) :
    dispatch fd buf s =
      { s with gSocketLogin := handleLogin s.wifipasscode s.gSocketLogin fd buf, obs := .login fd :: s.obs } := by
  rw [dispatch, hl.1]
  simp only [if_pos hl.2]

theorem dispatch_other {buf : List UInt8} (hl : ¬ LogsIn s fd buf) :
    (dispatch fd buf s).gSocketLogin = s.gSocketLogin ∧
      ∀ fd', GizwitsSdk.granted fd' (dispatch fd buf s).obs = GizwitsSdk.granted fd' s.obs := by
  unfold dispatch
  split
  · next hd =>
    have hp : ¬ passcodeOk s.wifipasscode buf = true := fun hp => hl ⟨hd, hp⟩
    refine ⟨if_neg hp, fun fd' => ?_⟩
    rw [if_neg hp]
  · exact ⟨rfl, fun _ => rfl⟩
  · exact ⟨rfl, fun _ => rfl⟩

theorem handleLogin_full {wifipasscode buf : List UInt8} {login : SocketLogin} (hn : ¬ ∃ j, login j = 0) :
    handleLogin wifipasscode login fd buf = login := by
  unfold handleLogin
  split
  · split
    · next j hj => exact absurd ⟨j, by simpa using List.find?_some hj⟩ hn
    · rfl
  · rfl

theorem handleLogin_free (fd : Int) {wifipasscode buf : List UInt8} {login : SocketLogin}
    (hp : passcodeOk wifipasscode buf = true) (hj : ∃ j, login j = 0) :
    ∃ j, login j = 0 ∧ handleLogin wifipasscode login fd buf = Function.update login j fd := by
  rw [handleLogin, if_pos hp]
  split
  · next j hj => exact ⟨j, by simpa using List.find?_some hj, rfl⟩
  · next hnone =>
    obtain ⟨j, hj⟩ := hj
    exact absurd (decide_eq_true hj) (List.find?_eq_none.mp hnone j (List.mem_finRange j))

theorem notify_dispatch (buf : List UInt8) (h : NotifyInv s) (hc : Connected s i)
    (hok : LogsIn s (s.clients i).socketFD buf → loggedIn s.gSocketLogin (s.clients i).socketFD = true →
      ¬ ∃ j, s.gSocketLogin j = 0) : NotifyInv (dispatch (s.clients i).socketFD buf s) := by
  have ht := table_dispatch h.table hc buf
  have hcl := (dispatch_clients (s.clients i).socketFD buf s).1
  by_cases hl : LogsIn s (s.clients i).socketFD buf
  · rw [dispatch_logsIn hl] at ht ⊢
    have hpos := (h.table.held i hc).1
    by_cases hin : loggedIn s.gSocketLogin (s.clients i).socketFD = true
    · rw [handleLogin_full (hok hl hin)] at ht ⊢
      refine ⟨ht, h.once, fun k hk => ?_⟩
      simp only [GizwitsSdk.granted]
      split
      · next he => exact iff_of_true rfl (he ▸ hin)
      · exact h.granted k hk
    · obtain ⟨j, hj, he⟩ := handleLogin_free (s.clients i).socketFD hl.2
        (free_entry h (Bool.not_eq_true _ ▸ hin))
      rw [he] at ht ⊢
      have hnew (k : Fin 8) : s.gSocketLogin k ≠ (s.clients i).socketFD :=
        fun hk => hin (loggedIn_iff.mpr ⟨k, hk.symm⟩)
      refine ⟨ht, fun k l hk hkl => ?_, fun k hk => ?_⟩
      · simp only at hk hkl
        by_cases hkj : k = j
        · by_cases hlj : l = j
          · rw [hkj, hlj]
          · rw [hkj, Function.update_self, Function.update_of_ne hlj] at hkl
            exact absurd hkl.symm (hnew l)
        · rw [Function.update_of_ne hkj] at hk hkl
          by_cases hlj : l = j
          · rw [hlj, Function.update_self] at hkl
            exact absurd hkl (hnew k)
          · rw [Function.update_of_ne hlj] at hkl
            exact h.once k l hk hkl
      · have hkpos := (h.table.held k hk).1
        simp only [GizwitsSdk.granted, loggedIn_iff]
        split
        · next hik => exact iff_of_true rfl ⟨j, by rw [Function.update_self, hik]⟩
        · next hik =>
          refine (h.granted k hk).trans (loggedIn_iff.trans (exists_congr fun l => ?_))
          by_cases hlj : l = j
          · rw [hlj, Function.update_self, hj]
            exact iff_of_false hkpos.ne' fun he => hik he.symm
          · rw [Function.update_of_ne hlj]
  · obtain ⟨hlog, hg⟩ := dispatch_other hl
    exact notify_same h ht (fun k => by rw [hcl]) hlog hg

/-! ## Runs -/

theorem reset_login (fd : Int) (s : LanSt) :
    (socketResetSlotTimeout fd s).gSocketLogin = s.gSocketLogin ∧
      (socketResetSlotTimeout fd s).gPasscodeEnable = s.gPasscodeEnable ∧
      (socketResetSlotTimeout fd s).wifipasscode = s.wifipasscode := by
  unfold socketResetSlotTimeout
  split
  · exact ⟨rfl, rfl, rfl⟩
  · exact ⟨rfl, rfl, rfl⟩

theorem logsIn_reset {buf : List UInt8} (fd' : Int) : LogsIn (socketResetSlotTimeout fd' s) fd buf ↔ LogsIn s fd buf := by
  obtain ⟨hl, he, hw⟩ := reset_login fd' s
  rw [LogsIn, hl, he, hw, LogsIn]

theorem notify_step {e : LanEv} (h : NotifyInv s) (hok : ¬ Relogin s e) (hs : ClientStep s e s') :
    NotifyInv s' := by
  have ht := table_step h.table hs
  cases hs with
  | accept hpos hclosed => exact notify_insertClient h hpos hclosed
  | @frame i bs hf =>
    have hc : Connected (socketResetSlotTimeout (s.clients i).socketFD s) i := by
      rw [Connected, reset_fd]
      exact hf.1.1
    have hd := notify_dispatch (recBuffer bs) (notify_reset h (s.clients i).socketFD) hc
    rw [reset_fd, logsIn_reset, (reset_login _ s).1] at hd
    exact hd fun hl hin hfree => hok ⟨hf, hl, hin, hfree⟩
  | closed hc => exact notify_dropSocket h hc.1
  | timer => exact notify_timer h
  | ackFailed => exact notify_same h ht (fun _ => rfl) rfl fun _ => rfl
  | configure => exact notify_same h ht (fun _ => rfl) rfl fun _ => rfl
  | _ => exact h

/-- A second entry is a second packet. -/
theorem relogin_twice {e : LanEv} (h : NotifyInv s) (hr : Relogin s e) (hs : ClientStep s e s') :
    ¬ NotifiedOnce s' := by
  intro hn
  have ht := table_step h.table hs
  cases hs with
  | @frame i bs hf =>
    obtain ⟨-, hl, hin, hfree⟩ := hr
    obtain ⟨k, hk⟩ := loggedIn_iff.mp hin
    have hpos := (h.table.held i hf.1.1).1
    have hcl := (dispatch_clients (s.clients i).socketFD (recBuffer bs)
      (socketResetSlotTimeout (s.clients i).socketFD s)).1
    obtain ⟨hlog, -, hpass⟩ := reset_login (s.clients i).socketFD s
    obtain ⟨j, hj, he⟩ := handleLogin_free (s.clients i).socketFD hl.2 hfree
    have hjk : k ≠ j := by
      rintro rfl
      omega
    have hc : Connected (dispatch (s.clients i).socketFD (recBuffer bs)
        (socketResetSlotTimeout (s.clients i).socketFD s)) i := by
      rw [Connected, hcl, reset_fd]
      exact hf.1.1
    have hcount := hn.sent [] i hc
    rw [count_notifications ht hc, hcl, reset_fd] at hcount
    rw [dispatch_logsIn ((logsIn_reset _).mpr hl), hlog, hpass, he] at hcount
    have hboth : [j, k] ⊆ entries (Function.update s.gSocketLogin j (s.clients i).socketFD) (s.clients i).socketFD := by
      refine List.cons_subset.mpr ⟨?_, List.cons_subset.mpr ⟨?_, List.nil_subset _⟩⟩
      · rw [mem_entries, Function.update_self]
      · rw [mem_entries, Function.update_of_ne hjk]
        exact hk
    have hnd : [j, k].Nodup := by simpa using hjk.symm
    have htwo := (List.subperm_of_subset hnd hboth).length_le
    rw [hcount] at htwo
    split at htwo
    · exact absurd htwo (Nat.not_succ_le_self 1)
    · exact absurd htwo (Nat.not_succ_le_zero 1)
  | dropped hd => exact absurd hr.1 hd
  | _ => exact hr

end

/-- **Every client that is logged in gets each notification once**, at every
point of a run without an upload, exactly when no client that is logged in logs
in again while an entry is free. -/
theorem notified_once_iff (chip : Chip) (flash : Flash) (wifipasscode : List UInt8) (gPasscodeEnable : Bool)
    (es : List ClientEv) :
    (∀ pre, pre <+: es → NotifiedOnce (run (clientStep chip) (lanBoot flash wifipasscode gPasscodeEnable) pre)) ↔
      Meets (clientStep chip) (fun s e => ¬ Relogin s e.1) (lanBoot flash wifipasscode gPasscodeEnable) es := by
  have h0 : NotifyInv (lanBoot flash wifipasscode gPasscodeEnable) :=
    ⟨table_boot flash wifipasscode gPasscodeEnable, fun _ _ hj => absurd rfl hj, fun _ hc => absurd rfl hc⟩
  refine meets_iff h0 (fun s h => notify_once h) (fun s e h hok => ?_) fun s e h hg hr => ?_
  · exact notify_step h hok (clientStep_cases chip h.table.idle h.table.quiet e)
  · exact relogin_twice h hr (clientStep_cases chip h.table.idle h.table.quiet e) hg

def loginTwice (i : Fin 8) : List ClientEv :=
  [⟨.accept 5, fun _ => LanEv.noConfusion⟩, ⟨.serve i (.data loginFrame), fun _ => LanEv.noConfusion⟩,
    ⟨.serve i (.data loginFrame), fun _ => LanEv.noConfusion⟩]

theorem login_twice_notified :
    notifications (run (clientStep plainChip) (lanBoot ⟨fun _ => 0xff, 0, [], 0⟩ passcodeOfTen true) (loginTwice 0)) [1] =
      [(5, [1]), (5, [1])] := by
  decide +kernel

theorem notified_more_than_once : ¬ ∀ (chip : Chip) (flash : Flash) (wifipasscode : List UInt8)
    (gPasscodeEnable : Bool) (es : List ClientEv),
    NotifiedOnce (run (clientStep chip) (lanBoot flash wifipasscode gPasscodeEnable) es) := by
  intro hall
  have h := (hall plainChip ⟨fun _ => 0xff, 0, [], 0⟩ passcodeOfTen true (loginTwice 0)).sent [1] 0 (by decide +kernel)
  rw [login_twice_notified] at h
  exact absurd h (by decide +kernel)

end GizwitsSdk
