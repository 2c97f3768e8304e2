import GizwitsSdk.DhcpMsg
import GizwitsSdk.Lib.Buffer
import Mathlib.Data.List.Induction

/-!
# What `_ParseDhcpOptions` reads

The walk over the options looks at a byte before it asks whether the message
goes so far, and copies four bytes of an address whatever length the option
declares. It stays in the message when the options lead to an end mark that is
in it, and then it gives the last option of each kind.
-/

namespace GizwitsSdk

open Lib

/-! ## The walk with checked reads -/

/-- How far behind its code an option is read, beside its length. -/
def optionReach (code : UInt8) : Nat :=
  if code = dhcpOptionMsgType then 2
  else if code = dhcpOptionReqIpAddr ∨ code = dhcpOptionServerId then 5
  else 1

/-- The loop of `_ParseDhcpOptions`: no result if it has not ended, or when it
reads a byte behind the message. -/
def checkedOptionsLoop (m : Mem) : Nat → Nat → DhcpOptions → Option DhcpOptions
  | 0, _, _ => none
  | fuel + 1, p, o =>
    -- `*pDhcpOptions` is read before `pDhcpOptions < pEnd` is tested
    if dhcpMsgSize ≤ p then none
    else if m p = dhcpOptionEnd then some o
    else if m p = dhcpOptionPad then checkedOptionsLoop m fuel (p + 1) o
    else if p + optionReach (m p) < dhcpMsgSize then
      checkedOptionsLoop m fuel (p + 2 + (m (p + 1)).toNat) (parseOption m p o)
    else none

/-! ## Options -/

inductive DhcpItem
  | pad
  | option (code : UInt8) (data : List UInt8)

namespace DhcpItem

def bytes : DhcpItem → List UInt8
  | pad => [dhcpOptionPad]
  | option code data => code :: .ofNat data.length :: data

/-- An option that can be laid out. -/
def ok : DhcpItem → Prop
  | pad => True
  | option code data => code ≠ dhcpOptionPad ∧ code ≠ dhcpOptionEnd ∧ data.length < 256

/-- The lengths are those of the options that the server asks for. -/
def wellFormed : DhcpItem → Prop
  | pad => True
  | option code data => (code = dhcpOptionMsgType → data.length = 1) ∧
    (code = dhcpOptionReqIpAddr ∨ code = dhcpOptionServerId → data.length = 4)

def dataOf (code : UInt8) : DhcpItem → Option (List UInt8)
  | pad => none
  | option c data => if c = code then some data else none

end DhcpItem

def layout (items : List DhcpItem) : List UInt8 := items.flatMap DhcpItem.bytes

def holdsAt (m : Mem) (p : Nat) (bs : List UInt8) : Prop := ∀ k < bs.length, m (p + k) = bs.getD k 0

/-- The message holds these options from `p` on, closed by an end mark. -/
structure OptionArea (m : Mem) (p : Nat) (items : List DhcpItem) : Prop where
  ok : ∀ i ∈ items, i.ok
  holds : holdsAt m p (layout items ++ [dhcpOptionEnd])
  inside : p + (layout items).length < dhcpMsgSize

/-- What is read of each option, whatever length it declares, is in the message. -/
def ReadsInside (p : Nat) (items : List DhcpItem) : Prop :=
  ∀ pre code data post, items = pre ++ .option code data :: post →
    p + (layout pre).length + optionReach code < dhcpMsgSize

def wordOf (data : List UInt8) : UInt32 := wordAt (fun k => data.getD k 0) 0

/-- The reference decoder: the last option of each kind. -/
def lastOption (code : UInt8) (items : List DhcpItem) : Option (List UInt8) :=
  (items.filterMap (DhcpItem.dataOf code)).getLast?

def presence (msgType reqIpAddr serverId : Bool) : UInt8 :=
  (if msgType then 0x01 else 0) ||| (if reqIpAddr then 0x02 else 0) ||| (if serverId then 0x04 else 0)

def referenceOptions (items : List DhcpItem) : DhcpOptions where
  ret :=
    presence (lastOption dhcpOptionMsgType items).isSome (lastOption dhcpOptionReqIpAddr items).isSome
      (lastOption dhcpOptionServerId items).isSome
  msgType := ((lastOption dhcpOptionMsgType items).map fun d => d.getD 0 0).getD 0xff
  reqIpAddr := ((lastOption dhcpOptionReqIpAddr items).map wordOf).getD 0
  serverId := ((lastOption dhcpOptionServerId items).map wordOf).getD 0

/-- The walk over this content ends without a read behind the message, and
well-formed options are decoded as the reference decodes them. -/
structure OptionsParsed (m : Mem) : Prop where
  inside : ∃ fuel, (checkedOptionsLoop m fuel 240 ⟨0, 0xff, 0, 0⟩).isSome
  reference : ∀ items, OptionArea m 240 items → (∀ i ∈ items, i.wellFormed) →
    parseDhcpOptions m = referenceOptions items

/-! ## Layouts in memory -/

section
variable {m : Mem} {p : Nat}

theorem holdsAt_append {a b : List UInt8} : holdsAt m p (a ++ b) ↔ holdsAt m p a ∧ holdsAt m (p + a.length) b := by
  unfold holdsAt
  rw [List.length_append]
  constructor
  · intro h
    refine ⟨fun k hk => ?_, fun k hk => ?_⟩
    · rw [h k (by omega), List.getD_append _ _ _ _ hk]
    · rw [Nat.add_assoc, h (a.length + k) (by omega), List.getD_append_right _ _ _ _ (by omega),
        Nat.add_sub_cancel_left]
  · rintro ⟨ha, hb⟩ k hk
    rcases Nat.lt_or_ge k a.length with h | h
    · rw [ha k h, List.getD_append _ _ _ _ h]
    · rw [List.getD_append_right _ _ _ _ h, ← hb (k - a.length) (by omega)]
      congr 1
      omega

theorem holdsAt_one {a : UInt8} : holdsAt m p [a] ↔ m p = a :=
  ⟨fun h => h 0 Nat.one_pos, fun h k hk => by
    obtain rfl : k = 0 := by
      change k < 1 at hk
      omega
    exact h⟩

theorem holdsAt_cons {a : UInt8} {l : List UInt8} : holdsAt m p (a :: l) ↔ m p = a ∧ holdsAt m (p + 1) l := by
  rw [← List.singleton_append, holdsAt_append, holdsAt_one]
  rfl

/-- The bytes that lie at `p`. -/
theorem holdsAt_range (n : Nat) : holdsAt m p ((List.range n).map fun k => m (p + k)) := by
  intro k hk
  rw [List.length_map, List.length_range] at hk
  rw [List.getD_eq_getElem _ _ (by rwa [List.length_map, List.length_range]), List.getElem_map,
    List.getElem_range]

theorem layout_cons (i : DhcpItem) (items : List DhcpItem) : layout (i :: items) = i.bytes ++ layout items := rfl

theorem layout_append (pre post : List DhcpItem) : layout (pre ++ post) = layout pre ++ layout post :=
  List.flatMap_append

theorem optionArea_nil : OptionArea m p [] ↔ m p = dhcpOptionEnd ∧ p < dhcpMsgSize := by
  constructor
  · exact fun h => ⟨holdsAt_one.mp h.holds, h.inside⟩
  · exact fun ⟨h, hp⟩ => ⟨fun i hi => absurd hi List.not_mem_nil, holdsAt_one.mpr h, hp⟩

theorem optionArea_cons {i : DhcpItem} {items : List DhcpItem} : OptionArea m p (i :: items) ↔
    i.ok ∧ holdsAt m p i.bytes ∧ OptionArea m (p + i.bytes.length) items := by
  constructor
  · rintro ⟨hok, hh, hin⟩
    rw [layout_cons, List.append_assoc, holdsAt_append] at hh
    rw [layout_cons, List.length_append, ← Nat.add_assoc] at hin
    exact ⟨hok i List.mem_cons_self, hh.1, fun j hj => hok j (List.mem_cons_of_mem i hj), hh.2, hin⟩
  · rintro ⟨hi, hh, hok, hh', hin⟩
    refine ⟨fun j hj => ?_, ?_, ?_⟩
    · rcases List.mem_cons.mp hj with rfl | hj
      · exact hi
      · exact hok j hj
    · rw [layout_cons, List.append_assoc, holdsAt_append]
      exact ⟨hh, hh'⟩
    · rw [layout_cons, List.length_append, ← Nat.add_assoc]
      exact hin

theorem readsInside_cons {i : DhcpItem} {items : List DhcpItem} : ReadsInside p (i :: items) ↔
    (∀ code data, i = .option code data → p + optionReach code < dhcpMsgSize) ∧
      ReadsInside (p + i.bytes.length) items := by
  constructor
  · intro h
    refine ⟨fun code data hi => h [] code data items (by rw [hi]; rfl), fun pre code data post he => ?_⟩
    have hc := h (i :: pre) code data post (by rw [he]; rfl)
    rwa [layout_cons, List.length_append, ← Nat.add_assoc] at hc
  · rintro ⟨h0, h⟩ pre code data post he
    cases pre with
    | nil =>
      obtain ⟨rfl, -⟩ := List.cons.inj he
      exact h0 code data rfl
    | cons j pre =>
      obtain ⟨rfl, hi⟩ := List.cons.inj he
      rw [layout_cons, List.length_append, ← Nat.add_assoc]
      exact h pre code data post hi

/-- Where the lengths are right, nothing is read behind an option. -/
theorem readsInside_of_wellFormed {items : List DhcpItem} (h : OptionArea m p items)
    (hw : ∀ i ∈ items, i.wellFormed) : ReadsInside p items := by
  intro pre code data post he
  have hin := h.inside
  obtain ⟨h53, haddr⟩ := hw (.option code data) (by rw [he]; exact List.mem_append_right _ List.mem_cons_self)
  have hlen : (DhcpItem.option code data).bytes.length = data.length + 2 := rfl
  rw [he, layout_append, layout_cons, List.length_append, List.length_append, hlen] at hin
  unfold optionReach
  split
  · have := h53 ‹_›
    omega
  · split
    · have := haddr ‹_›
      omega
    · omega

end

/-! ## The walk over a layout -/

def DhcpItem.apply (o : DhcpOptions) : DhcpItem → DhcpOptions
  | pad => o
  | option code data =>
    if code = dhcpOptionMsgType then { o with msgType := data.getD 0 0, ret := o.ret ||| (0x01 : UInt8) }
    else if code = dhcpOptionReqIpAddr then { o with reqIpAddr := wordOf data, ret := o.ret ||| (0x02 : UInt8) }
    else if code = dhcpOptionServerId then { o with serverId := wordOf data, ret := o.ret ||| (0x04 : UInt8) }
    else o

section
variable {m : Mem} {p : Nat} {o : DhcpOptions}

theorem parseOption_apply {code : UInt8} {data : List UInt8} (hc : m p = code) (hh : holdsAt m (p + 2) data)
    (hw : (DhcpItem.option code data).wellFormed) : parseOption m p o = (DhcpItem.option code data).apply o := by
  have hword (h4 : data.length = 4) : wordAt m (p + 2) = wordOf data := by
    unfold wordOf wordAt load32
    dsimp only
    rw [← hh 0 (by omega), Nat.zero_add, Nat.zero_add, Nat.zero_add, ← hh 1 (by omega), ← hh 2 (by omega),
      ← hh 3 (by omega), Nat.add_zero]
  unfold parseOption DhcpItem.apply
  rw [hc]
  dsimp only
  split
  · rw [← hh 0 (by rw [hw.1 ‹_›]; decide), Nat.add_zero]
  · split
    · rw [hword (hw.2 (.inl ‹_›))]
    · split
      · rw [hword (hw.2 (.inr ‹_›))]
      · rfl

theorem checkedOptionsLoop_layout {items : List DhcpItem} (ha : OptionArea m p items) (hr : ReadsInside p items) :
    ∃ fuel r, checkedOptionsLoop m fuel p o = some r ∧
      ((∀ i ∈ items, i.wellFormed) → r = items.foldl DhcpItem.apply o) := by
  induction items generalizing p o with
  | nil =>
    obtain ⟨he, hp⟩ := optionArea_nil.mp ha
    refine ⟨1, o, ?_, fun _ => rfl⟩
    unfold checkedOptionsLoop
    rw [if_neg (Nat.not_le.mpr hp), if_pos he]
  | cons i items ih =>
    obtain ⟨hok, hh, ha'⟩ := optionArea_cons.mp ha
    obtain ⟨h0, hr'⟩ := readsInside_cons.mp hr
    have hp : p < dhcpMsgSize := by
      have := ha.inside
      omega
    cases i with
    | pad =>
      obtain ⟨fuel, r, hf, hw⟩ := @ih _ o ha' hr'
      have hpad : m p = dhcpOptionPad := holdsAt_one.mp hh
      refine ⟨fuel + 1, r, ?_, fun h => hw fun j hj => h j (List.mem_cons_of_mem _ hj)⟩
      unfold checkedOptionsLoop
      rw [if_neg (Nat.not_le.mpr hp), if_neg (by rw [hpad]; decide), if_pos hpad]
      exact hf
    | option code data =>
      obtain ⟨hc, hh⟩ := holdsAt_cons.mp hh
      obtain ⟨hl, hh⟩ := holdsAt_cons.mp hh
      obtain ⟨hpad, hend, hlt⟩ := hok
      have hnext : p + 2 + (m (p + 1)).toNat = p + (DhcpItem.option code data).bytes.length := by
        rw [hl, UInt8.toNat_ofNat', Nat.mod_eq_of_lt hlt]
        show p + 2 + data.length = p + (data.length + 2)
        omega
      obtain ⟨fuel, r, hf, hw⟩ := @ih _ (parseOption m p o) ha' hr'
      refine ⟨fuel + 1, r, ?_, fun h => ?_⟩
      · unfold checkedOptionsLoop
        rw [if_neg (Nat.not_le.mpr hp), hc, if_neg hend, if_neg hpad, if_pos (h0 code data rfl), hnext]
        exact hf
      · rw [hw fun j hj => h j (List.mem_cons_of_mem _ hj), List.foldl_cons,
          parseOption_apply hc hh (h _ List.mem_cons_self)]

/-- A walk that stays inside has gone over a layout. -/
theorem layout_of_checked {fuel : Nat} (h : (checkedOptionsLoop m fuel p o).isSome) :
    ∃ items, OptionArea m p items ∧ ReadsInside p items := by
  induction fuel generalizing p o with
  | zero => cases h
  | succ fuel ih =>
    unfold checkedOptionsLoop at h
    split at h
    · cases h
    rename_i hp
    split at h
    · rename_i he
      refine ⟨[], optionArea_nil.mpr ⟨he, Nat.not_le.mp hp⟩, fun pre code data post he => ?_⟩
      exact absurd he (by simp)
    rename_i hend
    split at h
    · rename_i hpad
      obtain ⟨items, ha, hr⟩ := ih h
      refine ⟨.pad :: items, optionArea_cons.mpr ⟨trivial, holdsAt_one.mpr hpad, ha⟩, readsInside_cons.mpr ⟨?_, hr⟩⟩
      exact fun code data hi => by cases hi
    rename_i hpad
    split at h
    · rename_i hreach
      obtain ⟨items, ha, hr⟩ := ih h
      let data := (List.range (m (p + 1)).toNat).map fun k => m (p + 2 + k)
      have hlen : data.length = (m (p + 1)).toNat := by
        rw [List.length_map, List.length_range]
      have hnext : p + 2 + (m (p + 1)).toNat = p + (DhcpItem.option (m p) data).bytes.length := by
        show _ = p + (data.length + 2)
        omega
      rw [hnext] at ha hr
      refine ⟨.option (m p) data :: items, optionArea_cons.mpr ⟨⟨hpad, hend, ?_⟩, ?_, ha⟩,
        readsInside_cons.mpr ⟨?_, hr⟩⟩
      · rw [hlen]
        exact UInt8.toNat_lt _
      · refine holdsAt_cons.mpr ⟨rfl, holdsAt_cons.mpr ⟨?_, holdsAt_range _⟩⟩
        rw [hlen, UInt8.ofNat_toNat]
      · rintro code data' hi
        obtain ⟨rfl, -⟩ := DhcpItem.option.inj hi
        exact hreach
    · cases h

theorem optionsLoop_of_checked {fuel : Nat} {r : DhcpOptions} (h : checkedOptionsLoop m fuel p o = some r)
    (k : Nat) : optionsLoop m (fuel + k) p o = r := by
  induction fuel generalizing p o with
  | zero => cases h
  | succ fuel ih =>
    unfold checkedOptionsLoop at h
    rw [Nat.add_right_comm]
    unfold optionsLoop
    split at h
    · cases h
    rename_i hp
    split at h
    · rename_i he
      rw [if_neg fun hc => hc.1 he]
      exact Option.some.inj h
    rename_i hend
    rw [if_pos ⟨hend, Nat.not_le.mp hp⟩]
    split at h
    · rename_i hpad
      rw [if_pos hpad]
      exact ih h
    rename_i hpad
    rw [if_neg hpad]
    split at h
    · exact ih h
    · cases h

theorem parse_of_checked {fuel : Nat} {r : DhcpOptions}
    (h : checkedOptionsLoop m fuel 240 ⟨0, 0xff, 0, 0⟩ = some r) : parseDhcpOptions m = r := by
  rw [← optionsLoop_of_checked h 308, Nat.add_comm]
  exact (optionsLoop_fuel m 308 fuel 240 _ (by decide)).symm

end

/-! ## The last option of a kind -/

theorem lastOption_snoc (code : UInt8) (items : List DhcpItem) (i : DhcpItem) :
    lastOption code (items ++ [i]) = (i.dataOf code).or (lastOption code items) := by
  unfold lastOption
  rw [List.filterMap_append, List.getLast?_append]
  cases h : i.dataOf code <;> simp [h]

theorem presence_or : ∀ t r s, presence t r s ||| 0x01 = presence true r s ∧
    presence t r s ||| 0x02 = presence t true s ∧ presence t r s ||| 0x04 = presence t r true := by decide

theorem apply_reference (items : List DhcpItem) (i : DhcpItem) :
    i.apply (referenceOptions items) = referenceOptions (items ++ [i]) := by
  unfold referenceOptions
  simp only [lastOption_snoc]
  cases i with
  | pad => rfl
  | option code data =>
    unfold DhcpItem.apply DhcpItem.dataOf
    have hne : dhcpOptionMsgType ≠ dhcpOptionReqIpAddr ∧ dhcpOptionMsgType ≠ dhcpOptionServerId ∧
        dhcpOptionReqIpAddr ≠ dhcpOptionServerId := by decide
    by_cases h1 : code = dhcpOptionMsgType
    · simp [h1, hne.1, hne.2.1, presence_or]
    by_cases h2 : code = dhcpOptionReqIpAddr
    · simp [h2, hne.1.symm, hne.2.2, presence_or]
    by_cases h3 : code = dhcpOptionServerId
    · simp [h3, hne.2.1.symm, hne.2.2.symm, presence_or]
    · simp only [if_neg h1, if_neg h2, if_neg h3, Option.none_or]

theorem foldl_reference (items : List DhcpItem) :
    items.foldl DhcpItem.apply ⟨0, 0xff, 0, 0⟩ = referenceOptions items := by
  induction items using List.reverseRecOn with
  | nil => rfl
  | append_singleton items i ih => rw [List.foldl_append, List.foldl_cons, List.foldl_nil, ih, apply_reference]

/-- **Options**: the walk stays in the message and decodes well-formed options
exactly when the options lead to an end mark in the message and no address is
copied from behind it. -/
theorem options_parsed_iff (m : Mem) :
    OptionsParsed m ↔ ∃ items, OptionArea m 240 items ∧ ReadsInside 240 items := by
  constructor
  · rintro ⟨⟨fuel, h⟩, -⟩
    exact layout_of_checked h
  · rintro ⟨items, ha, hr⟩
    refine ⟨?_, fun items ha hw => ?_⟩
    · obtain ⟨fuel, r, h, -⟩ := checkedOptionsLoop_layout ha hr
      exact ⟨fuel, by rw [h]; rfl⟩
    · obtain ⟨fuel, r, h, hfold⟩ := checkedOptionsLoop_layout ha (readsInside_of_wellFormed ha hw)
      rw [parse_of_checked h, hfold hw]
      exact foldl_reference items

/-- Nothing but pads: the byte behind the message is read. -/
theorem options_without_end : ¬ ∀ m, OptionsParsed m := by
  intro h
  obtain ⟨fuel, hf⟩ := (h fun _ => dhcpOptionPad).inside
  obtain ⟨items, ha, -⟩ := layout_of_checked hf
  have he := (holdsAt_append.mp ha.holds).2
  exact absurd (holdsAt_one.mp he) (by decide)

end GizwitsSdk
