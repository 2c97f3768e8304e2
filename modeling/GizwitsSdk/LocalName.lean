import GizwitsSdk.DnsName
import GizwitsSdk.Param

/-!
# The local name, from `InfDnsSrvSet` to the DNS server

A name is copied with its length over what the field held, and the server is
started with the field as a string. So the end of a longer name, or of the
default, stays behind a shorter one.
-/

namespace GizwitsSdk

open Lib

def ip4Addr (a : List UInt8) : Nat :=
  (a.getD 0 0).toNat + 256 * (a.getD 1 0).toNat + 65536 * (a.getD 2 0).toNat + 16777216 * (a.getD 3 0).toNat

/-- What `L2LinkUp` makes of `DnsServer`. In soft-AP mode `LoadStaticParam` has
brought the interface up, with the address of `SysParam`; `socket` is that of
`udp_new`. No result where the server is not started. -/
def l2LinkUp (cfg : CfgParam) (socket : Nat) (srv : Mem) : Option Mem :=
  if cfg.wiFiCfg.protocol = paramNetModeSoftAp ∧ cfg.bDnsServer ≠ 0 then
    (strlenIn cfg.dnsName.1).bind fun len =>
      dnssStart true (ip4Addr cfg.ipCfg.ip) socket (cfg.dnsName.1.take len) srv
  else none

/-! ## Settings -/

/-- A name to set, and what is behind it in the buffer of the caller. -/
structure LocalName where
  name : List UInt8
  behind : List UInt8
  nonempty : 0 < name.length
  fits : name.length ≤ 32
  nulFree : 0 ∉ name

def LocalName.set (n : LocalName) (cfg : CfgParam) : Option CfgParam :=
  (infDnsSrvSet 1 (some (n.name ++ n.behind)) (.ofNat n.name.length) cfg).map Prod.snd

def setNames : List LocalName → CfgParam → Option CfgParam
  | [], cfg => some cfg
  | n :: ns, cfg => (n.set cfg).bind (setNames ns)

/-- Whenever the server is then started, its field holds the name of the last call. -/
def LastNameHeld (permanentAddress : List.Vector UInt8 6) (calls : List LocalName) (last : LocalName) : Prop :=
  ∀ socket srv, socket ≠ 0 → ∃ srv',
    ((setNames (calls ++ [last]) (infLoadDefaultParam permanentAddress)).bind fun cfg => l2LinkUp cfg socket srv) =
        some srv' ∧
      ∀ k < 32, srv' (dnsNameAt + k) = last.name.getD k 0

/-! ## The string in the field -/

/-- What a name leaves of the string before it. -/
def overlay (s name : List UInt8) : List UInt8 := name ++ s.drop name.length

/-- The field has the string and zeros to its end, and the server is on. -/
structure CfgParam.Named (cfg : CfgParam) (s : List UInt8) : Prop where
  field : cfg.dnsName.1 = s ++ List.replicate (33 - s.length) 0
  fits : s.length ≤ 32
  nulFree : 0 ∉ s
  on : cfg.bDnsServer ≠ 0
  softAp : cfg.wiFiCfg.protocol = paramNetModeSoftAp

section
variable {cfg : CfgParam} {s : List UInt8}

theorem default_named (permanentAddress : List.Vector UInt8 6) :
    (infLoadDefaultParam permanentAddress).Named defaultDnsName where
  field := rfl
  fits := by decide
  nulFree := by decide
  on := by simp [infLoadDefaultParam]
  softAp := rfl

theorem length_overlay (s name : List UInt8) : (overlay s name).length = max name.length s.length := by
  rw [overlay, List.length_append, List.length_drop]
  omega

theorem overlay_zeros (s name : List UInt8) (h : name.length ≤ 32) (hs : s.length ≤ 32) :
    name ++ (s ++ List.replicate (33 - s.length) 0).drop name.length =
      overlay s name ++ List.replicate (33 - (overlay s name).length) 0 := by
  have hcount : 33 - s.length - (name.length - s.length) = 33 - max name.length s.length := by omega
  rw [List.drop_append, List.drop_replicate, length_overlay, overlay, List.append_assoc, hcount]

/-- One call keeps the invariant; the call itself never fails. -/
theorem set_named (n : LocalName) (h : cfg.Named s) :
    ∃ cfg', n.set cfg = some cfg' ∧ cfg'.Named (overlay s n.name) := by
  have hlen : (UInt8.ofNat n.name.length).toNat = n.name.length := by
    rw [length8, Nat.mod_eq_of_lt (by have := n.fits; omega)]
  have hfits := n.fits
  obtain ⟨b, hb⟩ := put_of_le (i := 0) cfg.dnsName n.name (by omega)
  have hfield := (put_toList hb).2
  rw [List.take_zero, List.nil_append, Nat.zero_add, h.field, overlay_zeros s n.name hfits h.fits] at hfield
  refine ⟨{ cfg with bDnsServer := 1, dnsName := b }, ?_, hfield, ?_, ?_, by simp, h.softAp⟩
  · rw [LocalName.set, infDnsSrvSet, if_pos (by decide), Option.elim_some, hlen, if_neg (Nat.not_lt.mpr hfits),
      slice_of_le (by rw [List.length_append]; omega), List.drop_zero, List.take_left, Option.bind_some, hb]
    rfl
  · rw [length_overlay]
    exact Nat.max_le.mpr ⟨hfits, h.fits⟩
  · exact fun hm => (List.mem_append.mp hm).elim n.nulFree fun hd => h.nulFree (List.mem_of_mem_drop hd)

theorem setNames_named (ns : List LocalName) (h : cfg.Named s) :
    ∃ cfg', setNames ns cfg = some cfg' ∧ cfg'.Named ((ns.map LocalName.name).foldl overlay s) := by
  induction ns generalizing cfg s with
  | nil => exact ⟨cfg, rfl, h⟩
  | cons n ns ih =>
    obtain ⟨cfg₁, h₁, hn₁⟩ := set_named n h
    obtain ⟨cfg', h', hn'⟩ := ih hn₁
    exact ⟨cfg', by rw [setNames, h₁, Option.bind_some, h'], hn'⟩

/-! ## The start of the server -/

/-- The server is started with the string of the field. -/
theorem l2LinkUp_named (h : cfg.Named s) {socket : Nat} (hsock : socket ≠ 0) (srv : Mem) :
    ∃ srv', l2LinkUp cfg socket srv = some srv' ∧ NameTaken s srv' := by
  obtain ⟨k, hk⟩ : ∃ k, 33 - s.length = k + 1 := ⟨32 - s.length, by have := h.fits; omega⟩
  have hfield : cfg.dnsName.1 = s ++ 0 :: List.replicate k 0 := by
    rw [h.field, hk, List.replicate_succ]
  have hlen : strlenIn cfg.dnsName.1 = some s.length := by
    rw [hfield, strlenIn, if_pos (by simp), takeWhile_append_stop h.nulFree]
  have hstart : l2LinkUp cfg socket srv = dnssStart true (ip4Addr cfg.ipCfg.ip) socket s srv := by
    rw [l2LinkUp, if_pos ⟨h.softAp, h.on⟩, hlen, Option.bind_some, hfield, List.take_left]
  have hsome : ∃ srv', dnssStart true (ip4Addr cfg.ipCfg.ip) socket s srv = some srv' := by
    rw [dnssStart, if_neg (Nat.not_lt.mpr h.fits), if_neg (by decide), if_neg hsock]
    exact ⟨_, rfl⟩
  obtain ⟨srv', hs'⟩ := hsome
  exact ⟨srv', hstart.trans hs', srv, .inr ⟨true, _, socket, hs'⟩⟩

theorem length_overlays (ns : List LocalName) (s : List UInt8) (m : Nat) :
    ((ns.map LocalName.name).foldl overlay s).length ≤ m ↔ s.length ≤ m ∧ ∀ n ∈ ns, n.name.length ≤ m := by
  induction ns generalizing s with
  | nil => simp
  | cons n ns ih =>
    rw [List.map_cons, List.foldl_cons, ih, length_overlay, Nat.max_le, List.forall_mem_cons]
    exact ⟨fun h => ⟨h.1.2, h.1.1, h.2⟩, fun h => ⟨⟨h.2.1, h.1⟩, h.2.2⟩⟩

end

section
variable {permanentAddress : List.Vector UInt8 6} {calls : List LocalName} {last : LocalName}

/-- The string that all the calls leave is what the server is started with. -/
theorem lastNameHeld_string (permanentAddress : List.Vector UInt8 6) (calls : List LocalName) (last : LocalName) :
    ∃ s, s = overlay ((calls.map LocalName.name).foldl overlay defaultDnsName) last.name ∧ s.length ≤ 32 ∧ 0 ∉ s ∧
      (LastNameHeld permanentAddress calls last ↔ ∀ k < 32, s.getD k 0 = last.name.getD k 0) := by
  obtain ⟨cfg, hset, hn⟩ := setNames_named (calls ++ [last]) (default_named permanentAddress)
  rw [List.map_append, List.foldl_append] at hn
  refine ⟨_, rfl, hn.fits, hn.nulFree, fun h k hk => ?_, fun h socket srv hsock => ?_⟩
  · have hone : 1 ≠ 0 := by decide
    obtain ⟨srv', hrun, hfield⟩ := h 1 (fun _ => 0) hone
    obtain ⟨srv'', hstart, htaken⟩ := l2LinkUp_named hn hone fun _ => 0
    rw [hset, Option.bind_some, hstart, Option.some_inj] at hrun
    rw [← hfield k hk, ← hrun]
    exact (htaken.field hk).symm
  · obtain ⟨srv', hstart, htaken⟩ := l2LinkUp_named hn hsock srv
    refine ⟨srv', by rw [hset, Option.bind_some, hstart], fun k hk => ?_⟩
    rw [htaken.field hk]
    exact h k hk

/-- A string of the field is the last name unless something is left behind it. -/
theorem lastNameHeld_length :
    LastNameHeld permanentAddress calls last ↔
      ((calls.map LocalName.name).foldl overlay defaultDnsName).length ≤ last.name.length := by
  obtain ⟨s, hs, hfits, hnul, hiff⟩ := lastNameHeld_string permanentAddress calls last
  rw [hiff]
  have hlen := congrArg List.length hs
  rw [length_overlay] at hlen
  constructor
  · intro h
    by_contra hlong
    have hk : last.name.length < s.length := by omega
    have hz := h last.name.length (by omega)
    rw [List.getD_eq_default _ _ (Nat.le_refl _)] at hz
    exact hnul (hz ▸ getD_mem hk)
  · intro h k _
    rw [hs, overlay, List.drop_eq_nil_of_le h, List.append_nil]

/-- The last name is held just when no name before it is longer, the default included. -/
theorem last_name_held_iff (permanentAddress : List.Vector UInt8 6) (calls : List LocalName) (last : LocalName) :
    LastNameHeld permanentAddress calls last ↔
      defaultDnsName.length ≤ last.name.length ∧ ∀ c ∈ calls, c.name.length ≤ last.name.length := by
  rw [lastNameHeld_length, length_overlays]

end

/-- `ab`, over the default. -/
def shortName : LocalName where
  name := [0x61, 0x62]
  behind := [0]
  nonempty := by decide
  fits := by decide
  nulFree := by decide

theorem last_name_short : ¬ ∀ permanentAddress calls last, LastNameHeld permanentAddress calls last := by
  intro h
  have hlen := lastNameHeld_length.mp (h (.replicate 6 0) [] shortName)
  revert hlen
  decide

end GizwitsSdk
