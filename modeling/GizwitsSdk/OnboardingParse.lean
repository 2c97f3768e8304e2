import GizwitsSdk.CloudIdentity
import GizwitsSdk.UdpServer

/-!
# The arrays of an onboarding

`Udp_Onboarding` copies the name and the key by the lengths that the datagram
gives, and writes a NUL one place behind the end of each. Here a read outside
the datagram or a write outside an array has no result.
-/

namespace GizwitsSdk

open Lib

structure OnboardingArrays where
  staSsid : List.Vector UInt8 32
  staPass : List.Vector UInt8 32
  wifiSsid : List.Vector UInt8 32
  wifiKey : List.Vector UInt8 32

namespace Checked

/-- `strncpy` from bytes that end. -/
def strncpy {n : Nat} (dst : List.Vector UInt8 n) (src : List UInt8) (len : Nat) : Option (List.Vector UInt8 n) :=
  (readUntil 0 src len).bind fun s => put dst 0 (GizwitsSdk.strncpy [] s len)

def udpOnboarding (buf : List UInt8) : Option OnboardingArrays := do
  let zeros : List.Vector UInt8 32 := List.Vector.replicate 32 0
  let ssidLen ← buf[9]?
  let staSsid ← strncpy zeros (buf.drop 10) ssidLen.toNat
  let staSsid ← put staSsid (ssidLen.toNat + 1) [0]
  let passwdlength ← buf[10 + ssidLen.toNat + 1]?
  let staPass ← strncpy zeros (buf.drop (10 + ssidLen.toNat + 2)) passwdlength.toNat
  let staPass ← put staPass (passwdlength.toNat + 1) [0]
  let ssid ← slice staSsid.1 0 ssidLen.toNat
  let wifiSsid ← put zeros 0 ssid
  let key ← slice staPass.1 0 passwdlength.toNat
  let wifiKey ← put zeros 0 key
  return { staSsid, staPass, wifiSsid, wifiKey }

end Checked

/-! ## Credentials in a datagram -/

/-- A name and a key, each behind its length. -/
def Carries (d ssid key : List UInt8) : Prop :=
  ∃ head x tail, head.length = 9 ∧
    d = head ++ .ofNat ssid.length :: (ssid ++ x :: .ofNat key.length :: (key ++ tail))

/-- `s` and zeros. -/
def padded (s : List UInt8) : List UInt8 := s ++ List.replicate (32 - s.length) 0

/-- They are in the configuration, and `DRV_WiFi_StationCustomModeStart` gets them. -/
structure OnboardingArrays.Holds (a : OnboardingArrays) (ssid key : List UInt8) : Prop where
  wifiSsid : a.wifiSsid.1 = padded ssid
  wifiKey : a.wifiKey.1 = padded key
  staSsid : (ssid ++ [0]) <+: a.staSsid.1
  staPass : (key ++ [0]) <+: a.staPass.1

/-- Everything stays inside, and what is carried is taken over. -/
def OnboardingParsed (d : List UInt8) : Prop :=
  ∃ a, Checked.udpOnboarding d = some a ∧ ∀ ssid key, Carries d ssid key →
    0 < ssid.length → ssid.length ≤ 32 → key.length ≤ 32 → 0 ∉ ssid → 0 ∉ key → a.Holds ssid key

/-- The two lengths leave room for the NUL and the place in front of it. -/
structure ArraysFit (d : List UInt8) : Prop where
  inside : CredentialsInside d
  ssid : (d.getD 9 0).toNat ≤ 30
  key : passwdLength (memOf d) ≤ 30

/-- With what may lie behind it, the server takes it for an onboarding. -/
def UdpDatagram.Onboards (d : UdpDatagram) : Prop :=
  ∃ acked addr rest after s r,
    socketDoUDPServer acked addr d.bytes.length (d.buf rest after) s = some r ∧ r.branch = .onboarding

/-! ## One string -/

section
variable {d s src : List UInt8} {len : Nat}

theorem memOf_bytes (d : List UInt8) (p len : Nat) :
    (List.range len).map (fun k => memOf d (p + k)) =
      (d.drop p).take len ++ List.replicate (len - (d.drop p).length) 0 := by
  apply List.ext_getElem
  · rw [List.length_map, List.length_range, List.length_append, List.length_take, List.length_replicate]
    omega
  · intro k hk _
    rw [List.length_map, List.length_range] at hk
    rw [List.getElem_map, List.getElem_range]
    unfold memOf
    rw [← getD_drop]
    rcases Nat.lt_or_ge k (d.drop p).length with hlt | hge
    · rw [List.getD_eq_getElem _ _ hlt, List.getElem_append_left (by rw [List.length_take]; omega), List.getElem_take]
    · rw [List.getD_eq_default _ _ hge, List.getElem_append_right (by rw [List.length_take]; omega),
        List.getElem_replicate]

theorem fieldAt_memOf (d : List UInt8) (p len : Nat) :
    fieldAt (memOf d) p len = ((d.drop p).take len).takeWhile (· ≠ 0) := by
  unfold fieldAt
  rw [memOf_bytes]
  cases len - (d.drop p).length with
  | zero => rw [List.replicate_zero, List.append_nil]
  | succ k =>
    by_cases h0 : 0 ∈ (d.drop p).take len
    · obtain ⟨hl, hn⟩ := split_at h0
      rw [hl, List.append_assoc, List.cons_append, takeWhile_append_stop hn, takeWhile_append_stop hn]
    · rw [List.replicate_succ, takeWhile_append_stop h0, takeWhile_clear h0]

/-- A string that is short enough is followed by zeros. -/
theorem put_padded (h : s.length ≤ len) (hlen : len ≤ 32) :
    ∃ b, put (List.Vector.replicate 32 (0 : UInt8)) 0 (strncpy [] s len) = some b ∧ b.1 = padded s := by
  have hl : (strncpy [] s len).length = len := length_strncpy s len
  obtain ⟨b, hp⟩ := put_of_le (i := 0) (List.Vector.replicate 32 (0 : UInt8)) (strncpy [] s len) (by omega)
  refine ⟨b, hp, ?_⟩
  rw [(put_toList hp).2, hl]
  change List.take 0 (List.replicate 32 0) ++ (strncpy [] s len ++ List.drop (0 + len) (List.replicate 32 0)) = _
  unfold strncpy padded
  rw [List.take_zero, List.nil_append, List.take_of_length_le h, List.drop_nil, List.append_nil, List.drop_replicate,
    List.append_assoc, List.replicate_append_replicate]
  congr 2
  omega

/-- The NUL is written where one is. -/
theorem put_nul {b : List.Vector UInt8 32} (hb : b.1 = padded s) (h : s.length ≤ len) (hlen : len ≤ 30) :
    put b (len + 1) [0] = some b := by
  apply put_same
  rw [hb]
  unfold padded
  rw [List.getElem?_append_right (by omega), List.getElem?_replicate_of_lt (by omega)]

theorem slice_padded (h : s.length ≤ len) (hlen : len ≤ 32) : slice (padded s) 0 len = some (strncpy [] s len) := by
  have hl : (padded s).length = 32 := by
    unfold padded
    rw [List.length_append, List.length_replicate]
    omega
  rw [slice_of_le (by omega), List.drop_zero]
  unfold padded strncpy
  rw [List.take_append, List.take_replicate, List.drop_nil, List.append_nil, Nat.min_eq_left (by omega)]

theorem nul_behind (h : s.length ≤ 30) : (s ++ [0]) <+: padded s := by
  obtain ⟨k, hk⟩ := Nat.exists_eq_add_of_lt (show 0 < 32 - s.length by omega)
  unfold padded
  rw [List.prefix_append_right_inj, hk]
  exact List.prefix_append [0] _

theorem blit_strncpy {m : Mem} {p k : Nat} (h : s.length ≤ len) (h0 : m (p + k) = 0) :
    blit m p (strncpy [] s len) (p + k) = s.getD k 0 := by
  have hl : (strncpy [] s len).length = len := length_strncpy s len
  rcases Nat.lt_or_ge k len with hk | hk
  · rw [blit_at (by omega) (by omega), Nat.add_sub_cancel_left]
    unfold strncpy
    rw [List.take_of_length_le h, List.drop_nil, List.append_nil, getD_zeros]
  · rw [blit_other (.inr (by omega)), h0, List.getD_eq_default _ _ (by omega)]

theorem credential_taken (h : len ≤ src.length ∨ 0 ∈ src) (hlen : len ≤ 30) :
    ∃ b, Checked.strncpy (List.Vector.replicate 32 0) src len = some b ∧ put b (len + 1) [0] = some b ∧
      slice b.1 0 len = some (strncpy [] ((src.take len).takeWhile (· ≠ 0)) len) ∧
      put (List.Vector.replicate 32 0) 0 (strncpy [] ((src.take len).takeWhile (· ≠ 0)) len) = some b ∧
      b.1 = padded ((src.take len).takeWhile (· ≠ 0)) := by
  have hs : ((src.take len).takeWhile (· ≠ 0)).length ≤ len :=
    (List.takeWhile_prefix _).length_le.trans (List.length_take_le _ _)
  obtain ⟨b, hp, hb⟩ := put_padded hs (show len ≤ 32 by omega)
  refine ⟨b, ?_, put_nul hb hs hlen, ?_, hp, hb⟩
  · unfold Checked.strncpy
    rw [readUntil_eq h]
    exact hp
  · rw [hb]
    exact slice_padded hs (by omega)

/-- What has been taken ends in the source, and leaves room. -/
theorem taken_inside {b b' : List.Vector UInt8 32} (h : Checked.strncpy (List.Vector.replicate 32 0) src len = some b)
    (hp : put b (len + 1) [0] = some b') : (len ≤ src.length ∨ 0 ∈ src) ∧ len ≤ 30 := by
  have hle : len + 1 + 1 ≤ 32 := (put_toList hp).1
  refine ⟨?_, by omega⟩
  by_contra hno
  unfold Checked.strncpy at h
  rw [readUntil_none hno] at h
  cases h

end

/-! ## Both strings -/

section
variable {d : List UInt8}

/-- Where everything fits, the arrays hold the credentials. -/
theorem onboarding_arrays (h : ArraysFit d) :
    ∃ a, Checked.udpOnboarding d = some a ∧
      a.staSsid.1 = padded (credentialsOf (memOf d)).ssid ∧ a.staPass.1 = padded (credentialsOf (memOf d)).key ∧
      a.wifiSsid = a.staSsid ∧ a.wifiKey = a.staPass := by
  obtain ⟨⟨hlen, hkey⟩, hs, hk⟩ := h
  have hnine : d[9]? = some (d.getD 9 0) := by
    rw [List.getD_eq_getElem _ _ (by omega)]
    exact List.getElem?_eq_getElem (by omega)
  have hpass : d[10 + (d.getD 9 0).toNat + 1]? = some (d.getD (10 + (d.getD 9 0).toNat + 1) 0) := by
    rw [List.getD_eq_getElem _ _ hlen]
    exact List.getElem?_eq_getElem hlen
  have hssid : (d.getD 9 0).toNat ≤ (d.drop 10).length ∨ 0 ∈ d.drop 10 := by
    rw [List.length_drop]
    omega
  have hpw : (d.getD (10 + (d.getD 9 0).toNat + 1) 0).toNat ≤ (d.drop (10 + (d.getD 9 0).toNat + 2)).length ∨
      0 ∈ d.drop (10 + (d.getD 9 0).toNat + 2) := by
    rw [List.length_drop]
    exact hkey.imp_left fun hle => by omega
  obtain ⟨b, hb, hnul, hslice, hput, hval⟩ := credential_taken hssid hs
  obtain ⟨b', hb', hnul', hslice', hput', hval'⟩ := credential_taken hpw hk
  refine ⟨⟨b, b', b, b'⟩, ?_, ?_, ?_, rfl, rfl⟩
  · unfold Checked.udpOnboarding
    simp only [hnine, hpass, Option.bind_eq_bind, Option.bind_some, hb, hnul, hb', hnul', hslice, hput, hslice', hput']
    rfl
  · unfold credentialsOf
    dsimp only
    rw [fieldAt_memOf]
    exact hval
  · unfold credentialsOf
    dsimp only
    rw [fieldAt_memOf]
    exact hval'

/-- The unchecked model has the same in its configuration. -/
theorem onboarding_config (h : ArraysFit d) (cfg : Mem) {k : Nat} (hk : k < 32) :
    ∃ a, Checked.udpOnboarding d = some a ∧ onboardConfig (memOf d) cfg (24 + k) = a.wifiSsid.1.getD k 0 ∧
      onboardConfig (memOf d) cfg (56 + k) = a.wifiKey.1.getD k 0 := by
  obtain ⟨a, ha, hs, hp, hws, hwk⟩ := onboarding_arrays h
  refine ⟨a, ha, ?_, ?_⟩
  · rw [hws, hs]
    unfold onboardConfig credentialsConfig setConnected
    rw [store32_other (by omega), blit_before (by omega)]
    refine (blit_strncpy (fieldAt_le _ _ _) ?_).trans (getD_zeros _ _ _).symm
    exact (memset0_other (by omega)).trans (memset0_at hk)
  · rw [hwk, hp]
    unfold onboardConfig credentialsConfig setConnected
    rw [store32_other (by omega)]
    refine (blit_strncpy (fieldAt_le _ _ _) ?_).trans (getD_zeros _ _ _).symm
    rw [blit_other (.inr _)]
    · exact memset0_at hk
    · rw [length_strncpy]
      have hssid : (memOf d 9).toNat ≤ 30 := h.ssid
      omega

theorem arraysFit_of_some {a : OnboardingArrays} (h : Checked.udpOnboarding d = some a) : ArraysFit d := by
  unfold Checked.udpOnboarding at h
  simp only [Option.bind_eq_bind, Option.bind_eq_some_iff] at h
  obtain ⟨ssidLen, hnine, b₁, hb₁, b₂, hp₂, passwdlength, hpass, b₃, hb₃, b₄, hp₄, -⟩ := h
  obtain ⟨-, hs⟩ := taken_inside hb₁ hp₂
  obtain ⟨hpw, hk⟩ := taken_inside hb₃ hp₄
  have h9 : d.getD 9 0 = ssidLen := by rw [List.getD_eq_getElem?_getD, hnine]; rfl
  have hlen := (List.getElem?_eq_some_iff.mp hpass).1
  have hpl : d.getD (10 + ssidLen.toNat + 1) 0 = passwdlength := by rw [List.getD_eq_getElem?_getD, hpass]; rfl
  have hkey : passwdLength (memOf d) = passwdlength.toNat := by
    unfold passwdLength memOf
    rw [h9, hpl]
  refine ⟨⟨?_, ?_⟩, ?_, ?_⟩
  · rwa [h9]
  · rw [h9, hpl]
    rw [List.length_drop] at hpw
    exact hpw.imp_left fun hle => by omega
  · rwa [h9]
  · rwa [hkey]

/-- The credentials of a datagram that carries some. -/
theorem carries_credentials {ssid key : List UInt8} (h : Carries d ssid key) (hs : ssid.length < 256)
    (hk : key.length < 256) (hs0 : 0 ∉ ssid) (hk0 : 0 ∉ key) : credentialsOf (memOf d) = ⟨ssid, key⟩ := by
  obtain ⟨head, x, tail, hhead, hd⟩ := h
  have hnum {n : Nat} (hn : n < 256) : (UInt8.ofNat n).toNat = n := by
    rw [UInt8.toNat_ofNat']
    omega
  have hnine : memOf d 9 = .ofNat ssid.length := by
    unfold memOf
    rw [hd, List.getD_append_right _ _ _ _ (by omega), hhead]
    rfl
  have hten : d.drop 10 = ssid ++ x :: .ofNat key.length :: (key ++ tail) := by
    rw [hd, ← List.singleton_append, ← List.append_assoc, List.drop_left']
    rw [List.length_append, hhead]
    rfl
  have hpl : memOf d (10 + ssid.length + 1) = .ofNat key.length := by
    unfold memOf
    rw [Nat.add_assoc, ← getD_drop, hten, List.getD_append_right _ _ _ _ (by omega), Nat.add_sub_cancel_left]
    rfl
  have hkey : d.drop (10 + ssid.length + 1 + 1) = key ++ tail := by
    rw [Nat.add_assoc, Nat.add_assoc, ← List.drop_drop, hten, List.drop_append, List.drop_of_length_le (by omega),
      Nat.add_sub_cancel_left]
    rfl
  unfold credentialsOf
  dsimp only
  rw [hnine, hnum hs, hpl, hnum hk, fieldAt_memOf, fieldAt_memOf, hten, hkey, List.take_left, List.take_left,
    takeWhile_clear hs0, takeWhile_clear hk0]

theorem credentials_short (h : ArraysFit d) :
    (credentialsOf (memOf d)).ssid.length ≤ 30 ∧ (credentialsOf (memOf d)).key.length ≤ 30 :=
  ⟨(fieldAt_le _ _ _).trans h.ssid, (fieldAt_le _ _ _).trans h.key⟩

/-- **Onboarding**: the parsing stays inside, and takes over what is carried, exactly
when both lengths are 30 at most and what they announce is in the datagram. -/
theorem onboarding_parse_iff (d : List UInt8) : OnboardingParsed d ↔ ArraysFit d := by
  constructor
  · rintro ⟨a, ha, -⟩
    exact arraysFit_of_some ha
  · intro h
    obtain ⟨a, ha, hs, hp, hws, hwk⟩ := onboarding_arrays h
    refine ⟨a, ha, fun ssid key hc _ hs32 hk32 hs0 hk0 => ?_⟩
    have hcred := carries_credentials hc (by omega) (by omega) hs0 hk0
    have hshort := credentials_short h
    rw [hcred] at hs hp hshort
    exact ⟨by rw [hws, hs], by rw [hwk, hp], hs ▸ nul_behind hshort.1, hp ▸ nul_behind hshort.2⟩

end

/-- An onboarding with a name of 31 letters and no key. -/
def longName : UdpDatagram where
  bytes := [0, 0, 0, 3, 38, 0, 0, 1, 0, 31] ++ List.replicate 31 0x61 ++ [0, 0]
  fits := by decide

/-- Its NUL is written behind the array. -/
theorem onboarding_long_name : ¬ ∀ d : UdpDatagram, d.Onboards → OnboardingParsed d.bytes := by
  intro h
  have hpassed : longName.Onboards :=
    ⟨true, ⟨0, 0⟩, .zero _, [], udpStart blankFlash, _, rfl, rfl⟩
  obtain ⟨a, ha, -⟩ := h longName hpassed
  exact absurd (arraysFit_of_some ha).ssid (by decide)

end GizwitsSdk
