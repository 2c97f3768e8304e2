import GizwitsSdk.Lib.Machine
import GizwitsSdk.OnboardingParse

/-!
# Runs of an onboarding

The callback saves only if the UDP task has already set the flag, so that it has
not waited for this link but found a count that an earlier event has left. And
what is saved are the credentials that the arrays of `Udp_Onboarding` have room for.
-/

namespace GizwitsSdk

open Lib

/-- `wifi_ssid` and `wifi_key` of the configuration; after a write outside of an
array there is nothing to say about them. -/
structure TakenConfig where
  /-- the datagram that they were taken from -/
  received : List UInt8
  fields : Option (List.Vector UInt8 32 × List.Vector UInt8 32)

def takenFrom (d : List UInt8) : TakenConfig where
  received := d
  fields := (Checked.udpOnboarding d).map fun a => (a.wifiSsid, a.wifiKey)

/-- The fields have the credentials of the datagram. -/
def TakenConfig.Held (c : TakenConfig) : Prop :=
  ∃ f, c.fields = some f ∧ f.1.1 = padded (credentialsOf (memOf c.received)).ssid ∧
    f.2.1 = padded (credentialsOf (memOf c.received)).key

inductive OnbEv
  | datagram (d : List UInt8)
  | udp
  | linkUp
  | joinFail
  | evt

def onbStep (s : OnbSt TakenConfig) : OnbEv → OnbSt TakenConfig
  | .datagram d => udpDatagram (takenFrom d) s
  | .udp => udpNext s
  | .linkUp => linkUp s
  | .joinFail => joinFail s
  | .evt => evtNext s

/-- For every join that came up the received credentials are saved, and
`pSoftApSem` is posted. -/
def Persisted (s : OnbSt TakenConfig) : Prop := ∀ c ∈ s.linked, c.Held ∧ c ∈ s.saved ∧ 0 < s.softApPosts

/-- The UDP task has taken `k` steps from a moment on at which it waited and a
count was left: the third sets the flag. -/
def TookCount (s₀ : OnbSt TakenConfig) : Nat → List OnbEv → Prop
  | 0, es => (run onbStep s₀ es).udp = .pend ∧ 0 < (run onbStep s₀ es).pLinkUpSem
  | k + 1, es => ∃ pre post, es = pre ++ .udp :: post ∧ TookCount s₀ k pre

/-- What the callback for a join finds after `pre`: at its test, that the UDP task
has been through its wait; at its end, that the credentials fit. -/
structure CallbackReady (s₀ : OnbSt TakenConfig) (pre : List OnbEv) : Prop where
  count : ∀ c, (run onbStep s₀ pre).evt = .test → (run onbStep s₀ pre).called = some c → TookCount s₀ 3 pre
  fit : ∀ c, (run onbStep s₀ pre).evt = .postSoftAp → (run onbStep s₀ pre).called = some c → ArraysFit c.received

/-! ## What is taken -/

theorem takenFrom_held (d : List UInt8) : (takenFrom d).Held ↔ ArraysFit d := by
  constructor
  · rintro ⟨f, hf, -⟩
    obtain ⟨a, ha, -⟩ := Option.map_eq_some_iff.mp hf
    exact arraysFit_of_some ha
  · intro h
    obtain ⟨a, ha, hs, hp, hws, hwk⟩ := onboarding_arrays h
    refine ⟨(a.wifiSsid, a.wifiKey), ?_, ?_, ?_⟩
    · unfold takenFrom
      rw [ha]
      rfl
    · exact (congrArg Subtype.val hws).trans hs
    · exact (congrArg Subtype.val hwk).trans hp

/-- The callback finds the flag set, and what it is called for has been taken over. -/
def flagSet (s : OnbSt TakenConfig) : OnbEv → Prop
  | .evt => ∀ c, s.called = some c → (s.evt = .test → s.onboarding = true) ∧ (s.evt = .postSoftAp → c.Held)
  | .datagram _ => True
  | .udp => True
  | .linkUp => True
  | .joinFail => True

structure OnbInv (s : OnbSt TakenConfig) : Prop where
  persisted : Persisted s
  busy : s.udp ≠ .idle → s.onboarding = false
  unsaved : s.onboarding = false → s.saved = []
  joined : ∀ c, s.join = some c ∨ s.called = some c → s.cfg = c ∧ (s.udp = .idle → s.onboarding = true)
  /-- the callback saves only with the flag set, and the flag stays -/
  saving : s.evt = .save ∨ s.evt = .postSoftAp → s.onboarding = true
  wrote : s.evt = .postSoftAp → ∀ c, s.called = some c → c ∈ s.saved
  quiet : s.evt = .idle ∨ s.evt = .postLinkUp → s.called = none

section
variable {s : OnbSt TakenConfig}

theorem onbInv_start (n : Nat) (status : SysStatus) (onboarding : Bool) (cfg : TakenConfig) (cfgConnected : Bool) :
    OnbInv (onbStart n status onboarding cfg cfgConnected) where
  persisted := fun c h => nomatch h
  busy := fun h => absurd rfl h
  unsaved := fun _ => rfl
  joined := by rintro c (h | h) <;> cases h
  saving := by rintro (h | h) <;> cases h
  wrote := fun h => nomatch h
  quiet := fun _ => rfl

theorem onbInv_datagram (h : OnbInv s) (taken : TakenConfig) : OnbInv (udpDatagram taken s) := by
  unfold udpDatagram
  split
  · next hc =>
    obtain ⟨hi, ho, -⟩ := hc
    have hcalled : s.called = none := by
      cases hcl : s.called with
      | none => rfl
      | some c =>
        have := (h.joined c (.inr hcl)).2 hi
        rw [ho] at this
        cases this
    refine ⟨h.persisted, fun _ => ho, h.unsaved, ?_, h.saving, h.wrote, h.quiet⟩
    rintro c (hj | hj)
    · cases hj
      exact ⟨rfl, fun hp => nomatch hp⟩
    · have : s.called = some c := hj
      rw [hcalled] at this
      cases this
  · exact h

theorem onbInv_udp (h : OnbInv s) : OnbInv (udpNext s) := by
  unfold udpNext
  cases hu : s.udp with
  | idle => exact h
  | pend =>
    have hb := h.busy (by rw [hu]; decide)
    dsimp only
    split
    · exact h
    · refine ⟨h.persisted, fun _ => hb, h.unsaved, fun c hc => ?_, h.saving, h.wrote, h.quiet⟩
      exact ⟨(h.joined c hc).1, fun hp => nomatch hp⟩
  | reply =>
    have hb := h.busy (by rw [hu]; decide)
    refine ⟨h.persisted, fun _ => hb, h.unsaved, fun c hc => ?_, h.saving, h.wrote, h.quiet⟩
    exact ⟨(h.joined c hc).1, fun hp => nomatch hp⟩
  | mark =>
    refine ⟨h.persisted, fun hp => absurd rfl hp, (fun ho => nomatch ho), fun c hc => ?_, fun _ => rfl,
      h.wrote, h.quiet⟩
    exact ⟨(h.joined c hc).1, fun _ => rfl⟩

theorem onbInv_linkUp (h : OnbInv s) : OnbInv (linkUp s) := by
  unfold linkUp
  split
  · refine ⟨h.persisted, h.busy, h.unsaved, ?_, ?_, (fun hp => nomatch hp), ?_⟩
    · rintro c (hc | hc)
      · cases hc
      · exact h.joined c (.inl hc)
    · rintro (hp | hp) <;> cases hp
    · rintro (hp | hp) <;> cases hp
  · exact h

theorem onbInv_joinFail (h : OnbInv s) : OnbInv (joinFail s) := by
  unfold joinFail
  split
  · split
    · exact onbInv_start _ _ _ _ _
    · refine ⟨h.persisted, h.busy, h.unsaved, ?_, h.saving, h.wrote, h.quiet⟩
      rintro c (hc | hc)
      · cases hc
      · exact h.joined c (.inr hc)
  · exact h

theorem onbInv_pastSaving (h : OnbInv s)
    (hc : ∀ c, s.called = some c → c.Held ∧ c ∈ s.saved ∧ 0 < s.softApPosts) : OnbInv (pastSaving s) := by
  refine ⟨?_, h.busy, h.unsaved, ?_, ?_, (fun hp => nomatch hp), fun _ => rfl⟩
  · intro c hm
    obtain hm | hm := List.mem_append.mp hm
    · exact hc c (Option.mem_toList.mp hm)
    · exact h.persisted c hm
  · rintro c (hj | hj)
    · exact h.joined c (.inl hj)
    · cases hj
  · rintro (hp | hp) <;> cases hp

theorem onbInv_evt (h : OnbInv s) (hok : flagSet s .evt) : OnbInv (evtNext s) := by
  unfold evtNext
  cases he : s.evt with
  | idle => exact h
  | test =>
    dsimp only
    split
    · next ho =>
      refine ⟨h.persisted, h.busy, h.unsaved, h.joined, fun _ => ho, (fun hp => nomatch hp), ?_⟩
      rintro (hp | hp) <;> cases hp
    · next ho =>
      apply onbInv_pastSaving h
      intro c hc
      exact absurd ((hok c hc).1 he) ho
  | save =>
    have ho := h.saving (.inl he)
    refine ⟨?_, h.busy, fun hf => absurd (ho.symm.trans hf) (by decide), h.joined, fun _ => ho, ?_, ?_⟩
    · intro c hm
      obtain ⟨hh, hs, hp⟩ := h.persisted c hm
      exact ⟨hh, List.mem_cons_of_mem _ hs, hp⟩
    · intro _ c hc
      rw [(h.joined c (.inr hc)).1]
      exact List.mem_cons_self
    · rintro (hp | hp) <;> cases hp
  | postSoftAp =>
    have ho := h.saving (.inr he)
    refine onbInv_pastSaving ⟨?_, h.busy, h.unsaved, h.joined, fun _ => ho, fun _ => h.wrote he, ?_⟩ ?_
    · intro c hm
      obtain ⟨hh, hs, -⟩ := h.persisted c hm
      exact ⟨hh, hs, Nat.succ_pos _⟩
    · rintro (hp | hp) <;> cases hp
    · intro c hc
      exact ⟨(hok c hc).2 he, h.wrote he c hc, Nat.succ_pos _⟩
  | postLinkUp =>
    refine ⟨h.persisted, h.busy, h.unsaved, h.joined, ?_, (fun hp => nomatch hp), fun _ => h.quiet (.inr he)⟩
    rintro (hp | hp) <;> cases hp

theorem onbInv_step (h : OnbInv s) (e : OnbEv) (hok : flagSet s e) : OnbInv (onbStep s e) := by
  cases e with
  | datagram d => exact onbInv_datagram h (takenFrom d)
  | udp => exact onbInv_udp h
  | linkUp => exact onbInv_linkUp h
  | joinFail => exact onbInv_joinFail h
  | evt => exact onbInv_evt h hok

theorem flagSet_of_persisted (h : OnbInv s) (e : OnbEv) (hp : Persisted (onbStep s e)) : flagSet s e := by
  cases e with
  | datagram d => trivial
  | udp => trivial
  | linkUp => trivial
  | joinFail => trivial
  | evt =>
    intro c hc
    refine ⟨fun he => ?_, fun he => ?_⟩
    · cases ho : s.onboarding with
      | true => rfl
      | false =>
        have hm : c ∈ (onbStep s .evt).linked := by
          simp only [onbStep, evtNext, he, ho, Bool.false_eq_true, if_false, pastSaving, hc]
          exact List.mem_cons_self
        have hs := (hp c hm).2.1
        simp only [onbStep, evtNext, he, ho, Bool.false_eq_true, if_false, pastSaving, h.unsaved ho] at hs
        exact absurd hs List.not_mem_nil
    · have hm : c ∈ (onbStep s .evt).linked := by
        simp only [onbStep, evtNext, he, pastSaving, hc]
        exact List.mem_cons_self
      exact (hp c hm).1

end

/-! ## The count that was left -/

section
variable {s s₀ : OnbSt TakenConfig} {es : List OnbEv} {k : Nat}

theorem TookCount.snoc (h : TookCount s₀ (k + 1) es) (e : OnbEv) : TookCount s₀ (k + 1) (es ++ [e]) := by
  obtain ⟨pre, post, rfl, h⟩ := h
  exact ⟨pre, post ++ [e], by rw [List.append_assoc, List.cons_append], h⟩

theorem TookCount.udp (h : TookCount s₀ k es) : TookCount s₀ (k + 1) (es ++ [.udp]) := ⟨es, [], rfl, h⟩

def UdpPc.rank : UdpPc → Nat
  | .pend => 0
  | .reply => 1
  | .mark => 2
  | .idle => 3

/-- The chip has been reset: no datagram is taken any more, and no join is left. -/
structure Reset (s : OnbSt TakenConfig) : Prop where
  status : s.status ≠ .wifiSoftAp
  join : s.join = none
  called : s.called = none

/-- The UDP task has got through its wait and `k - 1` steps more. -/
def PastWait (k : Nat) (s : OnbSt TakenConfig) : Prop :=
  Reset s ∨ k ≤ s.udp.rank ∧ (s.udp = .idle → s.onboarding = true)

theorem Reset.step (h : Reset s) (e : OnbEv) : Reset (onbStep s e) := by
  cases e with
  | datagram d =>
    have hn : ¬ (s.udp = .idle ∧ s.onboarding = false ∧ s.status = .wifiSoftAp) := fun hc => h.status hc.2.2
    simp only [onbStep, udpDatagram, if_neg hn]
    exact h
  | udp =>
    simp only [onbStep, udpNext]
    cases s.udp with
    | idle => exact h
    | pend =>
      dsimp only
      split
      · exact h
      · exact ⟨h.status, h.join, h.called⟩
    | reply => exact ⟨h.status, h.join, h.called⟩
    | mark => exact ⟨h.status, h.join, h.called⟩
  | linkUp =>
    simp only [onbStep, linkUp]
    split
    · exact ⟨h.status, rfl, h.join⟩
    · exact h
  | joinFail =>
    simp only [onbStep, joinFail, if_neg h.status]
    split
    · exact ⟨h.status, rfl, h.called⟩
    · exact h
  | evt =>
    simp only [onbStep, evtNext]
    cases s.evt with
    | idle => exact h
    | test =>
      dsimp only
      split
      · exact ⟨h.status, h.join, h.called⟩
      · exact ⟨h.status, h.join, rfl⟩
    | save => exact ⟨h.status, h.join, h.called⟩
    | postSoftAp => exact ⟨h.status, h.join, rfl⟩
    | postLinkUp => exact ⟨h.status, h.join, h.called⟩

def Joining (c : TakenConfig) (s : OnbSt TakenConfig) : Prop := s.join = some c ∨ s.called = some c

theorem Reset.not_joining (h : Reset s) (c : TakenConfig) : ¬ Joining c s := by
  rintro (hc | hc)
  · rw [h.join] at hc
    cases hc
  · rw [h.called] at hc
    cases hc

/-- What a step that is not the UDP task's does to its progress. -/
inductive OtherStep (s s' : OnbSt TakenConfig) : Prop
  | same (udp : s'.udp = s.udp) (onboarding : s'.onboarding = s.onboarding)
    (joining : ∀ c, Joining c s' → Joining c s)
  | reset (h : Reset s')
  | taken (d : List UInt8) (idle : s.udp = .idle) (failed : s.onboarding = false) (pend : s'.udp = .pend)
    (join : s'.join = some (takenFrom d)) (called : s'.called = s.called)

theorem other_step (s : OnbSt TakenConfig) {e : OnbEv} (he : e ≠ .udp) : OtherStep s (onbStep s e) := by
  have hstay {s' : OnbSt TakenConfig} (hu : s'.udp = s.udp) (ho : s'.onboarding = s.onboarding)
      (hj : s'.join = s.join) (hc : s'.called = s.called) : OtherStep s s' :=
    .same hu ho fun c => Or.imp hj.symm.trans hc.symm.trans
  have hpast {s' : OnbSt TakenConfig} (hu : s'.udp = s.udp) (ho : s'.onboarding = s.onboarding)
      (hj : s'.join = s.join) (hc : s'.called = none) : OtherStep s s' :=
    .same hu ho fun c h => .inl (hj.symm.trans (h.resolve_right fun hn => nomatch hc.symm.trans hn))
  cases e with
  | datagram d =>
    simp only [onbStep, udpDatagram]
    split
    · next hc => exact .taken d hc.1 hc.2.1 rfl rfl rfl
    · exact hstay rfl rfl rfl rfl
  | udp => exact absurd rfl he
  | linkUp =>
    simp only [onbStep, linkUp]
    split
    · exact .same rfl rfl fun c h => .inl (h.resolve_left nofun)
    · exact hstay rfl rfl rfl rfl
  | joinFail =>
    simp only [onbStep, joinFail]
    split
    · split
      · exact .reset ⟨nofun, rfl, rfl⟩
      · exact .same rfl rfl fun c h => .inr (h.resolve_left nofun)
    · exact hstay rfl rfl rfl rfl
  | evt =>
    simp only [onbStep, evtNext]
    cases s.evt with
    | idle => exact hstay rfl rfl rfl rfl
    | test =>
      dsimp only
      split
      · exact hstay rfl rfl rfl rfl
      · exact hpast rfl rfl rfl rfl
    | save => exact hstay rfl rfl rfl rfl
    | postSoftAp => exact hpast rfl rfl rfl rfl
    | postLinkUp => exact hstay rfl rfl rfl rfl

/-- What the UDP task's own step does to it. -/
inductive UdpStep (s s' : OnbSt TakenConfig) : Prop
  | stay (h : s' = s)
  | took (pend : s.udp = .pend) (count : 0 < s.pLinkUpSem) (reply : s'.udp = .reply)
  | replied (reply : s.udp = .reply) (mark : s'.udp = .mark)
  | marked (mark : s.udp = .mark) (idle : s'.udp = .idle)

theorem udp_step (s : OnbSt TakenConfig) :
    UdpStep s (onbStep s .udp) ∧ ∀ c, Joining c (onbStep s .udp) → Joining c s := by
  simp only [onbStep, udpNext]
  cases hu : s.udp with
  | idle => exact ⟨.stay rfl, fun _ => id⟩
  | pend =>
    dsimp only
    split
    · exact ⟨.stay rfl, fun _ => id⟩
    · next hc => exact ⟨.took hu (Nat.pos_iff_ne_zero.mpr hc) rfl, fun _ => id⟩
  | reply => exact ⟨.replied hu rfl, fun _ => id⟩
  | mark => exact ⟨.marked hu rfl, fun _ => id⟩

/-- Past its wait the UDP task goes on, up to the flag. -/
theorem udp_rank (hr : 0 < s.udp.rank) (hi : s.udp = .idle → s.onboarding = true) :
    (onbStep s .udp).udp.rank = min 3 (s.udp.rank + 1) ∧
      ((onbStep s .udp).udp = .idle → (onbStep s .udp).onboarding = true) := by
  simp only [onbStep, udpNext]
  cases hu : s.udp with
  | idle => exact ⟨congrArg UdpPc.rank hu, fun _ => hi hu⟩
  | pend =>
    rw [hu] at hr
    exact absurd hr (by decide)
  | reply => exact ⟨rfl, nofun⟩
  | mark => exact ⟨rfl, fun _ => rfl⟩

theorem PastWait.udp (h : PastWait (k + 1) s) (hk : k + 1 ≤ 2) : PastWait (k + 2) (onbStep s .udp) := by
  obtain h | ⟨hr, hi⟩ := h
  · exact .inl (h.step .udp)
  · obtain ⟨hrank, hidle⟩ := udp_rank (by omega) hi
    exact .inr ⟨by omega, hidle⟩

theorem PastWait.step (h : PastWait (k + 1) s) (hk : k + 1 ≤ 3) (e : OnbEv) : PastWait (k + 1) (onbStep s e) := by
  by_cases he : e = .udp
  · subst he
    obtain h | ⟨hr, hi⟩ := h
    · exact .inl (h.step .udp)
    · obtain ⟨hrank, hidle⟩ := udp_rank (by omega) hi
      exact .inr ⟨by omega, hidle⟩
  · obtain h | ⟨hr, hi⟩ := h
    · exact .inl (h.step e)
    · cases other_step s he with
      | same hu ho _ => exact .inr ⟨by rw [hu]; exact hr, fun hidle => ho.trans (hi (hu.symm.trans hidle))⟩
      | reset hreset => exact .inl hreset
      | taken _ hu ho => exact absurd ((hi hu).symm.trans ho) (by decide)

theorem PastWait.run (h : PastWait (k + 1) s) (hk : k + 1 ≤ 3) (es : List OnbEv) :
    PastWait (k + 1) (Lib.run onbStep s es) :=
  run_inv h fun _ e h => h.step hk e

/-- Whoever has taken the count has got as far. -/
theorem TookCount.past (h : TookCount s₀ (k + 1) es) (hk : k + 1 ≤ 3) :
    PastWait (k + 1) (Lib.run onbStep s₀ es) := by
  induction k generalizing es with
  | zero =>
    obtain ⟨pre, post, rfl, hp, hc⟩ := h
    rw [run_append, run_cons]
    refine PastWait.run (.inr ?_) hk post
    simp only [onbStep, udpNext, hp, if_neg (Nat.pos_iff_ne_zero.mp hc)]
    exact ⟨Nat.le_refl 1, fun hn => nomatch hn⟩
  | succ k ih =>
    obtain ⟨pre, post, rfl, h⟩ := h
    rw [run_append, run_cons]
    exact PastWait.run ((ih h (by omega)).udp (by omega)) hk post

/-- The steps that have brought the UDP task where it is, since it found a count. -/
def CountTaken (s₀ : OnbSt TakenConfig) (es : List OnbEv) : UdpPc → Prop
  | .pend => True
  | .reply => TookCount s₀ 1 es
  | .mark => TookCount s₀ 2 es
  | .idle => TookCount s₀ 3 es

theorem CountTaken.snoc {pc : UdpPc} (h : CountTaken s₀ es pc) (e : OnbEv) : CountTaken s₀ (es ++ [e]) pc := by
  cases pc with
  | pend => trivial
  | reply => exact TookCount.snoc h e
  | mark => exact TookCount.snoc h e
  | idle => exact TookCount.snoc h e

/-- It has taken them while a join is under way. -/
theorem countTaken_run (h₀ : ∀ c, ¬ Joining c s₀) (es : List OnbEv) (c : TakenConfig) :
    Joining c (Lib.run onbStep s₀ es) → CountTaken s₀ es (Lib.run onbStep s₀ es).udp := by
  induction es using List.reverseRecOn with
  | nil => exact fun hj => absurd hj (h₀ c)
  | append_singleton es e ih =>
    rw [run_snoc]
    have hcount (hp : (Lib.run onbStep s₀ es).udp = .pend) (hc : 0 < (Lib.run onbStep s₀ es).pLinkUpSem) :
        TookCount s₀ 0 es := ⟨hp, hc⟩
    generalize Lib.run onbStep s₀ es = s at ih hcount ⊢
    intro hj
    by_cases he : e = .udp
    · subst he
      obtain ⟨hstep, hjoin⟩ := udp_step s
      have hc := ih (hjoin c hj)
      generalize onbStep s .udp = s' at hstep
      cases hstep with
      | stay h =>
        rw [h]
        exact hc.snoc .udp
      | took pend count reply =>
        rw [reply]
        exact (hcount pend count).udp
      | replied reply mark =>
        rw [reply] at hc
        rw [mark]
        exact TookCount.udp hc
      | marked mark idle =>
        rw [mark] at hc
        rw [idle]
        exact TookCount.udp hc
    · cases other_step s he with
      | same hu _ joining =>
        rw [hu]
        exact (ih (joining c hj)).snoc e
      | reset h => exact absurd hj (h.not_joining c)
      | taken _ _ _ pend =>
        rw [pend]
        trivial

/-- The flag is set for a join exactly when the task has taken a count that was left. -/
theorem onboarding_iff_took (h₀ : ∀ c, ¬ Joining c s₀) (hi : OnbInv (Lib.run onbStep s₀ es)) {c : TakenConfig}
    (hc : (Lib.run onbStep s₀ es).called = some c) :
    (Lib.run onbStep s₀ es).onboarding = true ↔ TookCount s₀ 3 es := by
  constructor
  · intro ho
    have hidle : (Lib.run onbStep s₀ es).udp = .idle := by
      by_contra hu
      exact absurd (ho.symm.trans (hi.busy hu)) (by decide)
    have htook := countTaken_run h₀ es c (.inr hc)
    rw [hidle] at htook
    exact htook
  · intro ht
    obtain h | ⟨hr, hidle⟩ := ht.past (Nat.le_refl 3)
    · rw [h.called] at hc
      cases hc
    · refine hidle ?_
      generalize (Lib.run onbStep s₀ es).udp = u at hr
      cases u with
      | idle => rfl
      | pend => exact absurd hr (by decide)
      | reply => exact absurd hr (by decide)
      | mark => exact absurd hr (by decide)

/-- What a join is known by is what its datagram gives. -/
def JoinsTaken (s : OnbSt TakenConfig) : Prop := ∀ c, Joining c s → c = takenFrom c.received

theorem JoinsTaken.step (ih : JoinsTaken s) (e : OnbEv) : JoinsTaken (onbStep s e) := by
  intro c hj
  by_cases he : e = .udp
  · subst he
    exact ih c ((udp_step s).2 c hj)
  · cases other_step s he with
    | same _ _ joining => exact ih c (joining c hj)
    | reset h => exact absurd hj (h.not_joining c)
    | taken d _ _ _ join called =>
      obtain hc | hc := hj
      · obtain rfl := Option.some.inj (join.symm.trans hc)
        rfl
      · exact ih c (.inr (called.symm.trans hc))

end

/-! ## What is saved -/

/-- **Onboarding is persisted only through a leftover count.** In every state of
a run the received credentials of the joins that came up are saved exactly when
the UDP task had been through its wait, by a count that was left, before the
callback's test, and the datagram leaves room in the arrays. -/
theorem onboarding_persisted_iff (n : Nat) (status : SysStatus) (onboarding : Bool) (cfg : TakenConfig)
    (cfgConnected : Bool) (es : List OnbEv) :
    (∀ pre, pre <+: es → Persisted (run onbStep (onbStart n status onboarding cfg cfgConnected) pre)) ↔
      ∀ pre, pre ++ [.evt] <+: es → CallbackReady (onbStart n status onboarding cfg cfgConnected) pre := by
  have hstart := onbInv_start n status onboarding cfg cfgConnected
  have h₀ : ∀ c, ¬ Joining c (onbStart n status onboarding cfg cfgConnected) := fun c h => h.elim nofun nofun
  generalize onbStart n status onboarding cfg cfgConnected = s₀ at hstart h₀ ⊢
  have hready {pre : List OnbEv} (hi : OnbInv (run onbStep s₀ pre)) :
      flagSet (run onbStep s₀ pre) .evt ↔ CallbackReady s₀ pre := by
    have hheld {c : TakenConfig} (hc : (run onbStep s₀ pre).called = some c) : c.Held ↔ ArraysFit c.received := by
      have hjoins : JoinsTaken (run onbStep s₀ pre) := run_inv (fun c h => absurd h (h₀ c)) fun _ e h => h.step e
      rw [hjoins c (.inr hc)]
      exact takenFrom_held c.received
    constructor
    · intro h
      exact ⟨fun c ht hc => (onboarding_iff_took h₀ hi hc).mp ((h c hc).1 ht),
        fun c he hc => (hheld hc).mp ((h c hc).2 he)⟩
    · intro h c hc
      exact ⟨fun ht => (onboarding_iff_took h₀ hi hc).mpr (h.count c ht hc), fun he => (hheld hc).mpr (h.fit c he hc)⟩
  have hstep (s : OnbSt TakenConfig) (e : OnbEv) (h : OnbInv s) (hok : flagSet s e) := onbInv_step h e hok
  have hmeets : (∀ pre, pre <+: es → Persisted (run onbStep s₀ pre)) ↔ Meets onbStep flagSet s₀ es :=
    meets_iff hstart (fun _ h => h.persisted) hstep fun _ e h hp => flagSet_of_persisted h e hp
  rw [hmeets]
  constructor
  · intro hm pre hp
    have hi := Meets.preserves hstart hstep hm pre ((List.prefix_append _ _).trans hp)
    exact (hready hi).mp (hm pre .evt hp)
  · intro h
    refine meets_intro hstart hstep fun pre e hp hi => ?_
    cases e with
    | evt => exact (hready hi).mpr (h pre hp)
    | datagram d => trivial
    | udp => trivial
    | linkUp => trivial
    | joinFail => trivial

/-! ## Without a leftover count -/

structure WaitingForCount (s : OnbSt TakenConfig) : Prop where
  pend : s.udp = .pend
  empty : s.pLinkUpSem = 0
  failed : s.onboarding = false

theorem WaitingForCount.udp {s : OnbSt TakenConfig} (h : WaitingForCount s) (k : Nat) :
    run onbStep s (List.replicate k .udp) = s := by
  induction k with
  | zero => rfl
  | succ k ih =>
    have hs : onbStep s .udp = s := by
      simp only [onbStep, udpNext, h.pend, h.empty, if_true]
    rw [List.replicate_succ, run_cons, hs, ih]

/-- However often the UDP task is scheduled, the link comes up before the flag
is set, and the credentials are lost. -/
theorem no_leftover_not_persisted (d : List UInt8) (cfg : TakenConfig) (cfgConnected : Bool) (j k : Nat) :
    ¬ Persisted (run onbStep (onbStart 0 .wifiSoftAp false cfg cfgConnected)
      (.datagram d :: (List.replicate j .udp ++ .linkUp :: (List.replicate k .udp ++ [.evt])))) := by
  intro hp
  have h1 : WaitingForCount (onbStep (onbStart 0 .wifiSoftAp false cfg cfgConnected) (.datagram d)) :=
    ⟨rfl, rfl, rfl⟩
  rw [run_cons, run_append, h1.udp j, run_cons, run_append] at hp
  have h2 : WaitingForCount
      (onbStep (onbStep (onbStart 0 .wifiSoftAp false cfg cfgConnected) (.datagram d)) .linkUp) :=
    ⟨rfl, rfl, rfl⟩
  rw [h2.udp k] at hp
  exact absurd (hp (takenFrom d) List.mem_cons_self).2.1 List.not_mem_nil

/-- The name `a` with the key `a`, and no count left. -/
theorem onboarding_lost : ¬ ∀ (n : Nat) (cfg : TakenConfig) (es : List OnbEv) (pre : List OnbEv), pre <+: es →
    Persisted (run onbStep (onbStart n .wifiSoftAp false cfg false) pre) := by
  intro h
  have hp := h 0 (takenFrom []) [.datagram [0, 0, 0, 3, 9, 0, 0, 1, 0, 1, 0x61, 0, 1, 0x61], .linkUp, .evt] _
    (List.prefix_refl _)
  exact absurd (hp (takenFrom [0, 0, 0, 3, 9, 0, 0, 1, 0, 1, 0x61, 0, 1, 0x61]) List.mem_cons_self).2.1 List.not_mem_nil

end GizwitsSdk
