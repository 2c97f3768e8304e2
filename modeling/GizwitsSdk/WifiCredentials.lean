import GizwitsSdk.OnboardingParse
import GizwitsSdk.Param

/-!
# Credentials across a reboot

Direct config leaves the name and the key in `SysParam.WiFiCfg`, which has room
for the longest and their NUL. The configuration has 32 bytes for each: a name
that fills them runs on into the key, and a key into the fields behind it.
-/

namespace GizwitsSdk

open Lib

structure DirectCfg where
  wiFiCfg : WifiCfg
  ssid : List UInt8
  key : List UInt8
  holds : wiFiCfg.Holds ssid key
  named : ssid ≠ []
  ssid_nul : 0 ∉ ssid
  key_nul : 0 ∉ key

/-- `GAgent_SaveSSIDAndKey`, as far as the flash is concerned. -/
def gAgentSaveSSIDAndKey (answer : Option Nat) (pSSID pKey cfg : Mem) (s : BlockHeap × Flash) :
    Option (BlockHeap × Flash) := nl6621SaveConfigData answer (ssidAndKeyConfig pSSID pKey cfg) s

/-- The bytes of the configuration from `p` on, and those behind it. -/
def configBytes (cfg : Mem) (after : List UInt8) (p : Nat) : List UInt8 :=
  (List.range (gAgentConfigSize - p)).map (fun k => cfg (p + k)) ++ after

def joinFromFlash (permanentAddress : List.Vector UInt8 6) (after : List UInt8) (f : Flash) : Option CfgParam :=
  let cfg := nl6621GetConfigData f
  drvWiFiStationCustomModeStart permanentAddress (configBytes cfg after 24) (configBytes cfg after 56)

structure RebootEnv where
  permanentAddress : List.Vector UInt8 6
  /-- the configuration before the save -/
  cfg : Mem
  /-- the allocator's, for the buffer of a sector -/
  answer : Option Nat
  heap : BlockHeap
  flash : Flash
  /-- behind the configuration after the reboot -/
  after : List UInt8

/-- `SysParam.WiFiCfg` has them again after a save and a reboot. -/
def DirectCfg.Survives (d : DirectCfg) (e : RebootEnv) : Prop :=
  ∃ s cfg, gAgentSaveSSIDAndKey e.answer (memOf d.wiFiCfg.ssid.1) (memOf d.wiFiCfg.psk.1) e.cfg (e.heap, e.flash) =
      some s ∧
    joinFromFlash e.permanentAddress e.after s.2 = some cfg ∧ cfg.wiFiCfg.Holds d.ssid d.key

def RebootEnv.behind (e : RebootEnv) : List UInt8 := configBytes e.cfg e.after 88

/-- The field has the key and its NUL, or what stands behind it happens to be
the rest of the key, in a string of the right length modulo 256. -/
def KeyFits (key behind : List UInt8) : Prop :=
  key.length ≤ 31 ∨
    0 ∈ behind ∧ (32 + (behind.takeWhile (· ≠ 0)).length) % 256 = key.length ∧
      key.drop 32 <+: behind.takeWhile (· ≠ 0)

/-- A name of 32 bytes has no NUL of its own; that of an empty key will do. -/
def NameFits (ssid key : List UInt8) : Prop := ssid.length ≤ 31 ∨ key = []

structure DirectCfg.Fits (d : DirectCfg) (e : RebootEnv) : Prop where
  buffer : (e.heap.malloc e.answer).1.isSome
  ssid : NameFits d.ssid d.key
  key : KeyFits d.key e.behind

/-! ## The saved bytes -/

section
variable {cfg cfg' : Mem} {after : List UInt8} {p n : Nat}

theorem configBytes_congr (h : ∀ k, p ≤ k → k < gAgentConfigSize → cfg' k = cfg k) :
    configBytes cfg' after p = configBytes cfg after p := by
  unfold configBytes
  congr 1
  refine List.map_congr_left fun k hk => h _ (Nat.le_add_right _ _) ?_
  have := List.mem_range.mp hk
  omega

/-- One field, and what is behind it. -/
theorem configBytes_field (h : p + n ≤ gAgentConfigSize) :
    configBytes cfg after p = (List.range n).map (fun k => cfg (p + k)) ++ configBytes cfg after (p + n) := by
  unfold configBytes
  rw [show gAgentConfigSize - p = n + (gAgentConfigSize - (p + n)) by omega, List.range_add, List.map_append,
    List.map_map, List.append_assoc]
  congr 2
  refine List.map_congr_left fun k _ => ?_
  rw [Function.comp, Nat.add_assoc]

theorem memOf_front {l : List UInt8} (h : n ≤ l.length) : (List.range n).map (memOf l) = l.take n := by
  have hl := memOf_bytes l 0 n
  simp only [Nat.zero_add] at hl
  rw [hl, List.drop_zero, Nat.sub_eq_zero_of_le h, List.replicate_zero, List.append_nil]

variable {pSSID pKey : Mem} {k : Nat}

theorem credentials_getD (m : Mem) (h : k < 32) : ((List.range 32).map m).getD k 0 = m k := by
  rw [List.getD_eq_getElem _ _ (by rwa [List.length_map, List.length_range]), List.getElem_map, List.getElem_range]

theorem saved_ssid (h : k < 32) : ssidAndKeyConfig pSSID pKey cfg (24 + k) = pSSID k := by
  unfold ssidAndKeyConfig credentialsConfig setConnected
  rw [store32_other (by omega), blit_before (by omega),
    blit_at (by omega) (by rw [List.length_map, List.length_range]; omega), Nat.add_sub_cancel_left,
    credentials_getD _ h]

theorem saved_key (h : k < 32) : ssidAndKeyConfig pSSID pKey cfg (56 + k) = pKey k := by
  unfold ssidAndKeyConfig credentialsConfig setConnected
  rw [store32_other (by omega),
    blit_at (by omega) (by rw [List.length_map, List.length_range]; omega), Nat.add_sub_cancel_left,
    credentials_getD _ h]

theorem saved_behind (h : 88 ≤ k) : ssidAndKeyConfig pSSID pKey cfg k = cfg k := by
  have hl (m : Mem) : ((List.range 32).map m).length = 32 := by rw [List.length_map, List.length_range]
  unfold ssidAndKeyConfig credentialsConfig setConnected
  rw [store32_other (by omega), blit_other (by rw [hl]; omega), blit_other (by rw [hl]; omega),
    memset0_other (by omega), memset0_other (by omega)]

end

/-- What is joined with: the fields as they were saved, and what is behind them. -/
theorem joinFromFlash_saved (permanentAddress : List.Vector UInt8 6) (after : List UInt8) {cfg : Mem} {f : Flash}
    {w : WifiCfg} (h : ∀ k < gAgentConfigSize,
      nl6621GetConfigData f k = ssidAndKeyConfig (memOf w.ssid.1) (memOf w.psk.1) cfg k) :
    joinFromFlash permanentAddress after f = drvWiFiStationCustomModeStart permanentAddress
      (w.ssid.1.take 32 ++ (w.psk.1.take 32 ++ configBytes cfg after 88))
      (w.psk.1.take 32 ++ configBytes cfg after 88) := by
  have hkey : configBytes (nl6621GetConfigData f) after 56 = w.psk.1.take 32 ++ configBytes cfg after 88 := by
    rw [configBytes_congr fun k _ hk => h k hk, configBytes_field (n := 32) (by decide)]
    refine congrArg₂ (· ++ ·) ?_ (configBytes_congr fun k hk _ => saved_behind hk)
    rw [← memOf_front (by rw [w.psk.2]; decide)]
    exact List.map_congr_left fun k hk => saved_key (List.mem_range.mp hk)
  have hssid : configBytes (nl6621GetConfigData f) after 24 =
      w.ssid.1.take 32 ++ (w.psk.1.take 32 ++ configBytes cfg after 88) := by
    rw [← hkey, configBytes_field (n := 32) (by decide)]
    congr 1
    rw [← memOf_front (by rw [w.ssid.2]; decide)]
    refine List.map_congr_left fun k hk => ?_
    have hk' := List.mem_range.mp hk
    rw [h (24 + k) (by unfold gAgentConfigSize; omega), saved_ssid hk']
  unfold joinFromFlash
  dsimp only
  rw [hkey, hssid]

/-! ## Strings in the fields -/

section
variable {s t v r : List UInt8}

/-- A field of 32 bytes has a short string and its NUL. -/
theorem field_fits (h : (s ++ [0]) <+: v) (hs : s.length ≤ 31) : ∃ t, v.take 32 = s ++ 0 :: t := by
  obtain ⟨t, rfl⟩ := h
  refine ⟨t.take (32 - (s.length + 1)), ?_⟩
  rw [List.take_append, List.take_of_length_le (by rw [List.length_append, List.length_singleton]; omega),
    List.length_append, List.length_singleton, List.append_assoc, List.singleton_append]

/-- A long string fills it. -/
theorem field_full (h : (s ++ [0]) <+: v) (hs : 32 ≤ s.length) : v.take 32 = s.take 32 := by
  obtain ⟨t, rfl⟩ := h
  rw [List.append_assoc, List.take_append_of_le_length hs]

theorem takenKey_short (h : s.length ≤ 64) : takenKey s = s := by
  unfold takenKey
  rw [Nat.mod_eq_of_lt (by omega), if_neg (by omega), List.take_length]

theorem takenKey_nil : takenKey s = [] ↔ s.length % 256 = 0 := by
  unfold takenKey
  split
  · exact iff_of_false (by decide) (by omega)
  · rw [← List.length_eq_zero_iff, List.length_take_of_le (Nat.mod_le _ _)]

/-- A key that fills its field is taken if what follows is the rest of it. -/
theorem takenKey_full (h : 32 ≤ s.length) (h63 : s.length ≤ 63) (r : List UInt8) :
    s = takenKey (s.take 32 ++ r) ↔ (32 + r.length) % 256 = s.length ∧ s.drop 32 <+: r := by
  have h32 : (s.take 32).length = 32 := List.length_take_of_le h
  have hlen : (s.take 32 ++ r).length = 32 + r.length := by rw [List.length_append, h32]
  unfold takenKey
  rw [hlen]
  constructor
  · intro heq
    split at heq
    · have := congrArg List.length heq
      have h9 : defaultKey.length = 9 := rfl
      omega
    · have hm := congrArg List.length heq
      rw [List.length_take_of_le (by rw [hlen]; exact Nat.mod_le _ _)] at hm
      refine ⟨hm.symm, ?_⟩
      rw [heq, ← hm, List.take_append, h32, List.take_of_length_le (by omega), List.drop_left' h32]
      exact List.take_prefix _ _
  · rintro ⟨hm, hpre⟩
    rw [if_neg (by omega), hm, List.take_append, h32, List.take_of_length_le (by omega)]
    conv_lhs => rw [← List.take_append_drop 32 s, List.prefix_iff_eq_take.mp hpre, List.length_drop]

theorem takenSsid_short (hs : s ≠ []) (h : s.length ≤ 32) : takenSsid s = s := by
  have hpos := List.length_pos_of_ne_nil hs
  unfold takenSsid
  rw [Nat.mod_eq_of_lt (by omega), if_neg (by omega), List.take_length]

/-- A name that fills its field is taken if nothing seems to follow. -/
theorem takenSsid_full (h : s.length = 32) (r : List UInt8) : s = takenSsid (s ++ r) ↔ r.length % 256 = 0 := by
  have hlen : (s ++ r).length = 32 + r.length := by rw [List.length_append, h]
  unfold takenSsid
  rw [hlen]
  constructor
  · intro heq
    split at heq
    · rw [heq] at h
      cases h
    · have hm := congrArg List.length heq
      rw [List.length_take_of_le (by rw [hlen]; exact Nat.mod_le _ _)] at hm
      omega
  · intro h0
    have hm : (32 + r.length) % 256 = 32 := by omega
    rw [hm, if_neg (by omega), List.take_left' h]

end

namespace DirectCfg

variable {d : DirectCfg} {e : RebootEnv}

theorem ssid_length (d : DirectCfg) : d.ssid.length ≤ 32 := by
  have h := d.holds.ssid.length_le
  rw [List.length_append, List.length_singleton, d.wiFiCfg.ssid.2] at h
  omega

theorem key_length (d : DirectCfg) : d.key.length ≤ 63 := by
  have h := d.holds.psk.length_le
  rw [List.length_append, List.length_singleton, d.wiFiCfg.psk.2] at h
  omega

theorem key_taken (d : DirectCfg) (r : List UInt8) :
    (0 ∈ d.wiFiCfg.psk.1.take 32 ++ r ∧ d.key = takenKey ((d.wiFiCfg.psk.1.take 32 ++ r).takeWhile (· ≠ 0))) ↔
      KeyFits d.key r := by
  rcases Nat.lt_or_ge d.key.length 32 with h | h
  · obtain ⟨t, ht⟩ := field_fits d.holds.psk (by omega)
    refine iff_of_true ⟨?_, ?_⟩ (.inl (by omega))
    · rw [ht]
      simp
    · rw [ht, List.append_assoc, List.cons_append, takeWhile_append_stop d.key_nul, takenKey_short (by omega)]
  · have h0 : 0 ∉ d.key.take 32 := fun hm => d.key_nul (List.mem_of_mem_take hm)
    have hlong : ¬ d.key.length ≤ 31 := by omega
    rw [field_full d.holds.psk h, takeWhile_append_clear h0, takenKey_full h d.key_length, List.mem_append,
      or_iff_right h0]
    exact (or_iff_right hlong).symm

/-- The name runs on into the key, `r` and what follows. -/
theorem ssid_taken (d : DirectCfg) {r : List UInt8} (hkey : d.key = takenKey (r.takeWhile (· ≠ 0))) :
    d.ssid = takenSsid ((d.wiFiCfg.ssid.1.take 32 ++ r).takeWhile (· ≠ 0)) ↔ NameFits d.ssid d.key := by
  rcases Nat.lt_or_ge d.ssid.length 32 with h | h
  · obtain ⟨t, ht⟩ := field_fits d.holds.ssid (by omega)
    refine iff_of_true ?_ (.inl (by omega))
    rw [ht, List.append_assoc, List.cons_append, takeWhile_append_stop d.ssid_nul, takenSsid_short d.named (by omega)]
  · have h32 : d.ssid.length = 32 := Nat.le_antisymm d.ssid_length h
    have hlong : ¬ d.ssid.length ≤ 31 := by omega
    rw [field_full d.holds.ssid h, List.take_of_length_le d.ssid_length, takeWhile_append_clear d.ssid_nul,
      takenSsid_full h32, ← takenKey_nil, ← hkey]
    exact (or_iff_right hlong).symm

theorem joined_iff (d : DirectCfg) (permanentAddress : List.Vector UInt8 6) (r : List UInt8) :
    (∃ cfg, drvWiFiStationCustomModeStart permanentAddress (d.wiFiCfg.ssid.1.take 32 ++ (d.wiFiCfg.psk.1.take 32 ++ r))
        (d.wiFiCfg.psk.1.take 32 ++ r) = some cfg ∧ cfg.wiFiCfg.Holds d.ssid d.key) ↔
      NameFits d.ssid d.key ∧ KeyFits d.key r := by
  constructor
  · rintro ⟨cfg, hcfg, hholds⟩
    obtain ⟨hs, hp⟩ := stationCustomModeStart_nul hcfg
    obtain ⟨cfg', hcfg', hiff⟩ := stationCustomModeStart_spec permanentAddress hs hp
    obtain rfl := Option.some.inj (hcfg.symm.trans hcfg')
    obtain ⟨hssid, hkey⟩ := (hiff _ _ d.ssid_nul d.key_nul d.key_length).mp hholds
    exact ⟨(d.ssid_taken hkey).mp hssid, (d.key_taken r).mp ⟨hp, hkey⟩⟩
  · rintro ⟨hname, hfits⟩
    obtain ⟨hp, hkey⟩ := (d.key_taken r).mpr hfits
    obtain ⟨cfg, hcfg, hiff⟩ := stationCustomModeStart_spec permanentAddress (List.mem_append_right _ hp) hp
    exact ⟨cfg, hcfg, (hiff _ _ d.ssid_nul d.key_nul d.key_length).mpr ⟨(d.ssid_taken hkey).mpr hname, hkey⟩⟩

/-- Without the buffer nothing is saved. -/
theorem buffer_of_survives (h : d.Survives e) : (e.heap.malloc e.answer).1.isSome := by
  obtain ⟨s, cfg, hs, -⟩ := h
  by_contra hno
  unfold gAgentSaveSSIDAndKey nl6621SaveConfigData writeFlash at hs
  rw [if_pos (Option.not_isSome_iff_eq_none.mp hno)] at hs
  cases hs

theorem survives_joined (hb : (e.heap.malloc e.answer).1.isSome) :
    d.Survives e ↔ NameFits d.ssid d.key ∧ KeyFits d.key e.behind := by
  obtain ⟨b, hb⟩ := Option.isSome_iff_exists.mp hb
  obtain ⟨f, hf, hread⟩ := saveConfigData_readBack e.flash hb
    (ssidAndKeyConfig (memOf d.wiFiCfg.ssid.1) (memOf d.wiFiCfg.psk.1) e.cfg)
  rw [← d.joined_iff e.permanentAddress]
  unfold RebootEnv.behind
  rw [← joinFromFlash_saved e.permanentAddress e.after hread]
  constructor
  · rintro ⟨s, cfg, hs, hcfg⟩
    obtain rfl := Option.some.inj (hs.symm.trans hf)
    exact ⟨cfg, hcfg⟩
  · rintro ⟨cfg, hcfg⟩
    exact ⟨_, cfg, hf, hcfg⟩

end DirectCfg

/-- **Credentials**: a save and a reboot keep them exactly when the name has
room for its NUL or the key is empty, and so has the key, or what stands behind
its field makes up for it. -/
theorem wifi_credentials_survive_iff (d : DirectCfg) (e : RebootEnv) : d.Survives e ↔ d.Fits e := by
  constructor
  · intro h
    have hb := DirectCfg.buffer_of_survives h
    obtain ⟨hname, hkey⟩ := (DirectCfg.survives_joined hb).mp h
    exact ⟨hb, hname, hkey⟩
  · rintro ⟨hb, hname, hkey⟩
    exact (DirectCfg.survives_joined hb).mpr ⟨hname, hkey⟩

/-- A name of 32 letters and the key `12345678`. -/
def longestName : DirectCfg where
  wiFiCfg :=
    { (infLoadDefaultParam (arrayOf 6 [])).wiFiCfg with
      ssid := arrayOf 33 (List.replicate 32 0x61)
      keyLength := 8
      psk := arrayOf 64 [0x31, 0x32, 0x33, 0x34, 0x35, 0x36, 0x37, 0x38] }
  ssid := List.replicate 32 0x61
  key := [0x31, 0x32, 0x33, 0x34, 0x35, 0x36, 0x37, 0x38]
  holds := ⟨by decide, by decide, rfl⟩
  named := by decide
  ssid_nul := by decide
  key_nul := by decide

/-- After the reboot there is no name to join. -/
theorem wifi_longest_name : ¬ ∀ (d : DirectCfg) (e : RebootEnv), d.Survives e := by
  intro h
  have hs := h longestName ⟨arrayOf 6 [], fun _ => 0, some 512, ⟨{16}, false⟩, blankFlash, []⟩
  have hfits := ((DirectCfg.survives_joined (DirectCfg.buffer_of_survives hs)).mp hs).1
  rcases hfits with hlen | hkey
  · exact absurd hlen (by decide)
  · cases hkey

end GizwitsSdk
