import GizwitsSdk.DhcpTable

/-!
# The address pool

The pool follows the server's own address. Its positions are counted modulo
the inverted mask, which is the broadcast position itself, and 0 stands for 1:
so one pool in which the broadcast position falls has 1 twice.
-/

namespace GizwitsSdk

/-! ## Positions -/

/-- `a` is a host address of the subnet of `ip`. -/
structure UsableHost (ip netmask a : UInt32) : Prop where
  subnet : a &&& netmask = ip &&& netmask
  network : a ≠ ip &&& netmask
  broadcast : a ≠ ip ||| ~~~netmask

section
variable {netmask : UInt32} {k : Nat} (hm : Contiguous (htonl netmask) k)
include hm

theorem poolHost_toNat (host i : UInt32) :
    (poolHost (htonl netmask) host i).toNat =
      if (host.toNat + i.toNat) % 2 ^ 32 % (2 ^ k - 1) = 0 then 1
      else (host.toNat + i.toNat) % 2 ^ 32 % (2 ^ k - 1) := by
  have hr : ((host + i) % (~~~htonl netmask)).toNat =
      (host.toNat + i.toNat) % 2 ^ 32 % (2 ^ k - 1) := by
    rw [UInt32.toNat_mod, not_mask_toNat hm, UInt32.toNat_add]
  have hz : (host + i) % (~~~htonl netmask) = 0 ↔
      (host.toNat + i.toNat) % 2 ^ 32 % (2 ^ k - 1) = 0 := by
    rw [← hr, ← UInt32.toNat_inj]; rfl
  unfold poolHost
  by_cases h : (host + i) % (~~~htonl netmask) = 0
  · rw [if_neg (not_not.mpr h), if_pos (hz.mp h)]; rfl
  · rw [if_pos h, if_neg (mt hz.mpr h), hr]

theorem poolHost_pos (host i : UInt32) (hk : 2 ≤ 2 ^ k - 1) :
    0 < (poolHost (htonl netmask) host i).toNat ∧
      (poolHost (htonl netmask) host i).toNat < 2 ^ k - 1 := by
  rw [poolHost_toNat hm host i]
  have hlt := Nat.mod_lt ((host.toNat + i.toNat) % 2 ^ 32) (show 2 ^ k - 1 > 0 by omega)
  split
  · omega
  · omega

theorem usableHost_join (ip x : UInt32) (h0 : 0 < x.toNat) (hx : x.toNat < 2 ^ k - 1) :
    UsableHost ip netmask (htonl ((htonl ip &&& htonl netmask) ||| x)) := by
  have hk : x.toNat < 2 ^ k := by omega
  refine ⟨?_, fun he => ?_, fun he => ?_⟩
  · rw [← htonl_inj, htonl_and, htonl_htonl, htonl_and, join_network hm _ x hk]
  · rw [← htonl_inj, htonl_htonl, htonl_and] at he
    have he0 : (htonl ip &&& htonl netmask) ||| x = (htonl ip &&& htonl netmask) ||| 0 := by
      rw [he, UInt32.or_zero]
    rw [(join_inj hm _ x 0 hk (Nat.two_pow_pos k)).mp he0] at h0
    exact absurd h0 (by decide)
  · have hb : (~~~htonl netmask).toNat = 2 ^ k - 1 := not_mask_toNat hm
    have hbk : (~~~htonl netmask).toNat < 2 ^ k := by rw [hb]; have := Nat.two_pow_pos k; omega
    rw [← htonl_inj, htonl_htonl, htonl_or, htonl_not, ← join_broadcast, join_inj hm _ x _ hk hbk] at he
    rw [he, hb] at hx
    exact absurd hx (Nat.lt_irrefl _)

theorem pool_clients (s₀ : DhcpServer) (ip : UInt32) (udpNew : Bool) (hk : 2 ≤ 2 ^ k - 1) (i : Fin 8) :
    ((dhcpsStart s₀ true ip netmask udpNew).1.clients i).ipAddr =
      htonl ((htonl ip &&& htonl netmask) ||| poolHost (htonl netmask)
        (poolHost (htonl netmask) (htonl ip &&& ~~~htonl netmask) 1) (UInt32.ofNat i)) := by
  have hstart := (poolHost_pos hm (htonl ip &&& ~~~htonl netmask) 1 hk).2
  have hlt : (poolHost (htonl netmask) (htonl ip &&& ~~~htonl netmask) 1).toNat < 2 ^ k := by omega
  have hi : ((dhcpsStart s₀ true ip netmask udpNew).1.clients i).ipAddr =
      poolAddr (poolAddr ip netmask 1) netmask (UInt32.ofNat i) := by
    unfold dhcpsStart
    cases udpNew <;> rfl
  rw [hi]
  unfold poolAddr
  simp only [htonl_htonl]
  rw [join_network hm _ _ hlt, join_host hm _ _ hlt]

end

/-! ## Where the positions meet -/

/-- The position `i` places after `s`, as a number. -/
def poolPos (H s i : Nat) : Nat := if (s + i) % 2 ^ 32 % H = 0 then 1 else (s + i) % 2 ^ 32 % H

section
variable {H s i : Nat}

theorem poolPos_below (hH : H < 2 ^ 32) (hs : 0 < s) (h : s + i < H) : poolPos H s i = s + i := by
  unfold poolPos
  rw [Nat.mod_eq_of_lt (by omega : s + i < 2 ^ 32), Nat.mod_eq_of_lt h, if_neg (by omega)]

theorem poolPos_at (hH : H < 2 ^ 32) (h : s + i = H) : poolPos H s i = 1 := by
  unfold poolPos
  rw [h, Nat.mod_eq_of_lt hH, Nat.mod_self, if_pos rfl]

theorem poolPos_past (hH : H < 2 ^ 32) (h2 : 2 ≤ H) (h : s + i = H + 1) : poolPos H s i = 1 := by
  unfold poolPos
  rw [h]
  by_cases hw : H + 1 = 2 ^ 32
  · rw [hw, Nat.mod_self, Nat.zero_mod, if_pos rfl]
  · rw [Nat.mod_eq_of_lt (by omega : H + 1 < 2 ^ 32), Nat.add_mod_left, Nat.mod_eq_of_lt h2]
    rw [if_neg (by decide)]

end

/-- Eight positions after that of the server, `H` the broadcast position: they
differ and leave the server out unless 1 comes twice. -/
theorem positions_iff {H h : Nat} (hH : H < 2 ^ 32) (h10 : 10 ≤ H) (h0 : 0 < h) (hlt : h < H) :
    ((∀ i j : Fin 8, poolPos H (poolPos H h 1) i = poolPos H (poolPos H h 1) j → i = j) ∧
      ∀ i : Fin 8, poolPos H (poolPos H h 1) i ≠ h) ↔ h + 8 ≤ H ∨ h + 1 = H := by
  constructor
  · intro hp
    by_contra hc
    rw [poolPos_below hH h0 (by omega)] at hp
    -- the place of the broadcast position and the one after it
    have hi : H - (h + 1) < 8 := by omega
    have hj : H - h < 8 := by omega
    have he := hp.1 ⟨H - (h + 1), hi⟩ ⟨H - h, hj⟩ (by
      rw [poolPos_at hH (by simp only; omega), poolPos_past hH (by omega) (by simp only; omega)])
    have := congrArg Fin.val he
    simp only at this
    omega
  · intro hc
    rcases hc with hc | hc
    · have hs : poolPos H h 1 = h + 1 := poolPos_below hH h0 (by omega)
      rw [hs]
      -- only the last position can be the broadcast one
      have hpos : ∀ i : Fin 8, poolPos H (h + 1) i = h + 1 + i ∨
          h + 1 + i = H ∧ poolPos H (h + 1) i = 1 := by
        intro i
        by_cases hi : h + 1 + i < H
        · exact .inl (poolPos_below hH (by omega) hi)
        · exact .inr ⟨by omega, poolPos_at hH (by omega)⟩
      refine ⟨fun i j he => Fin.ext ?_, fun i he => ?_⟩
      · rcases hpos i with h1 | h1 <;> rcases hpos j with h2 | h2 <;> omega
      · rcases hpos i with h1 | h1 <;> omega
    · have hs : poolPos H h 1 = 1 := poolPos_at hH hc
      rw [hs]
      have hpos : ∀ i : Fin 8, poolPos H 1 i = 1 + i := fun i =>
        poolPos_below hH (by decide) (by omega)
      refine ⟨fun i j he => Fin.ext ?_, fun i he => ?_⟩
      · rw [hpos i, hpos j] at he; omega
      · rw [hpos i] at he; omega

structure LeasePoolOk (s : DhcpServer) (ip netmask : UInt32) : Prop where
  distinct : ∀ i j, (s.clients i).ipAddr = (s.clients j).ipAddr → i = j
  host : ∀ i, UsableHost ip netmask (s.clients i).ipAddr
  server : ∀ i, (s.clients i).ipAddr ≠ ip

section
variable {netmask ip : UInt32} {k : Nat}

theorem usableHost_pos (hm : Contiguous (htonl netmask) k) (hip : UsableHost ip netmask ip) :
    0 < (htonl ip).toNat % 2 ^ k ∧ (htonl ip).toNat % 2 ^ k < 2 ^ k - 1 := by
  have hh := host_toNat hm (htonl ip)
  have hself := join_self (htonl netmask) (htonl ip)
  have hlt := Nat.mod_lt (htonl ip).toNat (Nat.two_pow_pos k)
  constructor
  · apply Nat.pos_of_ne_zero
    intro h0
    have : htonl ip &&& ~~~htonl netmask = 0 := UInt32.toNat_inj.mp (hh.trans h0)
    rw [this, UInt32.or_zero, ← htonl_and, htonl_inj] at hself
    exact hip.network hself.symm
  · apply Nat.lt_of_le_of_ne (by omega)
    intro h1
    have : htonl ip &&& ~~~htonl netmask = ~~~htonl netmask :=
      UInt32.toNat_inj.mp (by rw [hh, h1, not_mask_toNat hm])
    rw [this, join_broadcast, ← htonl_not, ← htonl_or, htonl_inj] at hself
    exact hip.broadcast hself.symm

/-- **The pool.** On every interface with at least nine host addresses, itself
one of them, a start fills the table with other hosts of the subnet, all
different, unless the server sits two to seven places below the broadcast
address. -/
theorem pool_addresses_iff (s₀ : DhcpServer) (udpNew : Bool) (hm : Contiguous (htonl netmask) k)
    (hu : 9 ≤ 2 ^ k - 2) (hip : UsableHost ip netmask ip) :
    LeasePoolOk (dhcpsStart s₀ true ip netmask udpNew).1 ip netmask ↔
      (htonl ip).toNat % 2 ^ k + 8 ≤ 2 ^ k - 1 ∨ (htonl ip).toNat % 2 ^ k + 1 = 2 ^ k - 1 := by
  have hk : 2 ≤ 2 ^ k - 1 := by omega
  have hH : 2 ^ k - 1 < 2 ^ 32 := by have := contiguous_pow hm; omega
  obtain ⟨h0, hlt⟩ := usableHost_pos hm hip
  rw [← positions_iff hH (by omega) h0 hlt]
  -- the position of each entry
  have hclients := pool_clients hm s₀ ip udpNew hk
  have hpos : ∀ i : Fin 8, (poolHost (htonl netmask)
      (poolHost (htonl netmask) (htonl ip &&& ~~~htonl netmask) 1) (UInt32.ofNat i)).toNat =
        poolPos (2 ^ k - 1) (poolPos (2 ^ k - 1) ((htonl ip).toNat % 2 ^ k) 1) i := by
    intro i
    have hi : (UInt32.ofNat i).toNat = i := UInt32.toNat_ofNat_of_lt' (by
      have : UInt32.size = 2 ^ 32 := rfl
      omega)
    have h1 : (poolHost (htonl netmask) (htonl ip &&& ~~~htonl netmask) 1).toNat =
        poolPos (2 ^ k - 1) ((htonl ip).toNat % 2 ^ k) 1 := by
      rw [poolHost_toNat hm, host_toNat hm]; rfl
    rw [poolHost_toNat hm, h1, hi]; rfl
  have hrange := fun i : Fin 8 => poolHost_pos hm
    (poolHost (htonl netmask) (htonl ip &&& ~~~htonl netmask) 1) (UInt32.ofNat i) hk
  generalize (poolHost (htonl netmask) (htonl ip &&& ~~~htonl netmask) 1) = start at *
  simp only [hpos] at hrange
  have hbelow : ∀ i : Fin 8, (poolHost (htonl netmask) start (UInt32.ofNat i)).toNat < 2 ^ k := by
    intro i
    rw [hpos i]
    have := (hrange i).2
    omega
  constructor
  · intro hp
    refine ⟨fun i j he => hp.distinct i j ?_, fun i he => hp.server i ?_⟩
    · rw [hclients i, hclients j, UInt32.toNat_inj.mp ((hpos i).trans (he.trans (hpos j).symm))]
    · rw [hclients i, ← htonl_inj, htonl_htonl]
      have hx : poolHost (htonl netmask) start (UInt32.ofNat i) = htonl ip &&& ~~~htonl netmask := by
        apply UInt32.toNat_inj.mp
        rw [hpos i, he, host_toNat hm]
      rw [hx, join_self]
  · intro hp
    refine ⟨fun i j he => hp.1 i j ?_, fun i => ?_, fun i he => hp.2 i ?_⟩
    · rw [hclients i, hclients j, htonl_inj, join_inj hm _ _ _ (hbelow i) (hbelow j)] at he
      rw [← hpos i, ← hpos j, he]
    · rw [hclients i]
      exact usableHost_join hm ip _ (by rw [hpos i]; exact (hrange i).1)
        (by rw [hpos i]; exact (hrange i).2)
    · rw [hclients i, ← htonl_inj, htonl_htonl] at he
      rw [← hpos i, ← host_toNat hm, ← he, join_host hm _ _ (hbelow i)]

end

/-- A server at 192.168.0.1/24 has the eight addresses after its own. -/
theorem pool_addresses_first :
    LeasePoolOk (dhcpsStart bootServer true 0x0100a8c0 0x00ffffff true).1 0x0100a8c0 0x00ffffff ↔
        (htonl 0x0100a8c0).toNat % 2 ^ 8 + 8 ≤ 2 ^ 8 - 1 ∨
          (htonl 0x0100a8c0).toNat % 2 ^ 8 + 1 = 2 ^ 8 - 1 :=
  pool_addresses_iff _ true ⟨by decide, by decide⟩ (by decide)
    ⟨by decide, by decide, by decide⟩

/-- At 192.168.0.250/24 two entries have the address 192.168.0.1. -/
theorem pool_addresses_twice :
    UsableHost 0xfa00a8c0 0x00ffffff 0xfa00a8c0 ∧ Contiguous (htonl 0x00ffffff) 8 ∧
      ¬ LeasePoolOk (dhcpsStart bootServer true 0xfa00a8c0 0x00ffffff true).1 0xfa00a8c0 0x00ffffff := by
  refine ⟨⟨by decide, by decide, by decide⟩, ⟨by decide, by decide⟩, fun h => ?_⟩
  have := h.distinct 4 5 (by decide)
  exact absurd this (by decide)

end GizwitsSdk
