import GizwitsSdk.HttpReply

/-!
# The search in a string: `GAgent_strstr`

Here both strings are read from their buffers, the NUL that ends them included:
a read behind a buffer has no result. A place that is found is its index in `s1`.
-/

namespace GizwitsSdk

open Lib

/-- The loop over `n` at one place of `s1`; it returns the place, or ends with a difference. -/
def sameFrom : List UInt8 → List UInt8 → Option Bool
  | c :: s1, d :: s2 =>
    if c = d then
      match s2 with
      | [] => none
      | e :: _ => if e = 0 then some true else sameFrom s1 s2
    else some false
  | _, _ => none

/-- `while(*s1)`, from the index `i` on. -/
def strstrFrom (s2 : List UInt8) (i : Nat) : List UInt8 → Option (Option Nat)
  | [] => none
  | c :: s1 =>
    if c = 0 then some none
    else (sameFrom (c :: s1) s2).bind fun same => if same then some (some i) else strstrFrom s2 (i + 1) s1

/-- `GAgent_strstr` on two buffers. -/
def gAgentStrstrAt (s1 s2 : List UInt8) : Option (Option Nat) :=
  s2.head?.bind fun d => if d ≠ 0 then strstrFrom s2 0 s1 else some (some 0)

section
variable {t w s1 y z : List UInt8} {c d : UInt8}

theorem not_mem_cons (h : 0 ∉ c :: t) : c ≠ 0 ∧ 0 ∉ t :=
  ⟨fun hc => h (hc ▸ List.mem_cons_self), fun hm => h (List.mem_cons_of_mem c hm)⟩

theorem sameFrom_equal (s1 s2 : List UInt8) :
    sameFrom (c :: s1) (c :: d :: s2) = if d = 0 then some true else sameFrom s1 (d :: s2) := by
  rw [sameFrom, if_pos rfl]

theorem sameFrom_differ (h : c ≠ d) (s1 s2 : List UInt8) : sameFrom (c :: s1) (d :: s2) = some false := by
  unfold sameFrom
  rw [if_neg h]

/-! ## The word apart from its terminator -/

/-- The look one byte ahead sees the NUL where the word ends. -/
theorem sameFrom_word (hw : 0 ∉ w) (hne : w ≠ []) : sameFrom s1 (w ++ 0 :: z) = sameStart s1 w := by
  induction w generalizing s1 with
  | nil => exact absurd rfl hne
  | cons d w ih =>
    obtain ⟨-, hw'⟩ := not_mem_cons hw
    cases s1 with
    | nil => rfl
    | cons c s1 =>
      rw [List.cons_append, sameStart]
      by_cases hcd : c = d
      · subst hcd
        rw [if_pos rfl]
        cases w with
        | nil =>
          rw [List.nil_append, sameFrom_equal, if_pos rfl]
          cases s1 <;> rfl
        | cons e w =>
          have hnext : sameFrom s1 (e :: (w ++ 0 :: z)) = sameStart s1 (e :: w) := ih hw' (List.cons_ne_nil e w)
          rw [List.cons_append, sameFrom_equal, if_neg (not_mem_cons hw').1, hnext]
      · rw [sameFrom_differ hcd, if_neg hcd]

theorem strstrFrom_shift (s2 : List UInt8) (i : Nat) :
    strstrFrom s2 i s1 = (strstrFrom s2 0 s1).map (Option.map (· + i)) := by
  induction s1 generalizing i with
  | nil => rfl
  | cons c s1 ih =>
    rw [strstrFrom, strstrFrom]
    by_cases hc : c = 0
    · rw [if_pos hc, if_pos hc]
      rfl
    · rw [if_neg hc, if_neg hc]
      cases sameFrom (c :: s1) s2 with
      | none => rfl
      | some same =>
        cases same with
        | true => simp
        | false =>
          simp only [Option.bind_some, Bool.false_eq_true, if_false]
          rw [ih (i + 1), ih (0 + 1), Option.map_map, Option.map_comp_map]
          congr 2
          funext k
          exact Nat.add_right_comm k i 1

/-- The searches for a constant word are this search. -/
theorem gAgentStrstr_at (hw : 0 ∉ w) (s1 z : List UInt8) :
    gAgentStrstr s1 w = (gAgentStrstrAt s1 (w ++ 0 :: z)).map (Option.map s1.drop) := by
  cases w with
  | nil => rfl
  | cons d w =>
    have hd := (not_mem_cons hw).1
    rw [gAgentStrstr, if_neg (List.cons_ne_nil d w), gAgentStrstrAt, List.cons_append, List.head?_cons,
      Option.bind_some, if_pos hd, ← List.cons_append]
    induction s1 with
    | nil => rfl
    | cons c s1 ih =>
      rw [strstrLoop, strstrFrom]
      by_cases hc : c = 0
      · rw [if_pos hc, if_pos hc]
        rfl
      · rw [if_neg hc, if_neg hc, sameFrom_word hw (List.cons_ne_nil d w)]
        cases sameStart (c :: s1) (d :: w) with
        | none => rfl
        | some same =>
          cases same with
          | true => rfl
          | false =>
            simp only [Option.bind_some, Bool.false_eq_true, if_false]
            rw [ih, strstrFrom_shift _ (0 + 1), Option.map_map, Option.map_comp_map]
            rfl

/-! ## The first place -/

theorem strstrFrom_eq (ht : 0 ∉ t) (hw : 0 ∉ w) (hne : w ≠ []) (i : Nat) :
    strstrFrom (w ++ 0 :: z) i (t ++ 0 :: y) = some ((cut w t).map fun p => i + p.1.length) := by
  induction t generalizing i with
  | nil =>
    rw [cut, if_neg hne]
    rfl
  | cons c t ih =>
    obtain ⟨hc, ht'⟩ := not_mem_cons ht
    have hz : EndsText (0 :: y) := fun e he => (Option.some.inj he).symm
    rw [List.cons_append, strstrFrom, if_neg hc, ← List.cons_append, sameFrom_word hw hne, sameStart_eq hz hw]
    by_cases hp : w <+: c :: t
    · rw [if_pos hp, cut_head hp]
      rfl
    · rw [if_neg hp, if_neg (by simp), cut_step hp]
      simp only [Option.bind_some, Bool.false_eq_true, if_false]
      rw [ih ht', Option.map_map]
      congr 2
      funext p
      simp only [Function.comp_apply, List.length_cons]
      omega

theorem gAgentStrstrAt_eq (ht : 0 ∉ t) (hw : 0 ∉ w) :
    gAgentStrstrAt (t ++ 0 :: y) (w ++ 0 :: z) = some ((cut w t).map fun p => p.1.length) := by
  cases w with
  | nil =>
    rw [cut_head List.nil_prefix]
    rfl
  | cons d w =>
    have hd := (not_mem_cons hw).1
    rw [gAgentStrstrAt, List.cons_append, List.head?_cons, Option.bind_some, if_pos hd, ← List.cons_append,
      strstrFrom_eq ht hw (List.cons_ne_nil d w)]
    simp

end

/-- What is found is the first occurrence, the start for an empty `w`, and
nothing only where there is no occurrence; both buffers may end with the NUL. -/
theorem gAgentStrstrAt_search (t w y z : List UInt8) (ht : 0 ∉ t) (hw : 0 ∉ w) :
    ∃ r, gAgentStrstrAt (t ++ 0 :: y) (w ++ 0 :: z) = some r ∧ (w = [] → r = some 0) ∧
      (∀ k, r = some k → w <+: t.drop k ∧ ∀ j < k, ¬ w <+: t.drop j) ∧
      (r = none → ∀ j, ¬ w <+: t.drop j) := by
  refine ⟨_, gAgentStrstrAt_eq ht hw, fun hnil => ?_, fun k hk => ?_, fun hnone => ?_⟩
  · rw [hnil, cut_head List.nil_prefix]
    rfl
  · obtain ⟨p, hp, rfl⟩ := Option.map_eq_some_iff.mp hk
    exact cut_place hp
  · exact cut_no_place (Option.map_eq_none_iff.mp hnone)

/-- `aab` in `aaab`. -/
theorem gAgentStrstrAt_search_aab :
    ∃ r, gAgentStrstrAt [0x61, 0x61, 0x61, 0x62, 0] [0x61, 0x61, 0x62, 0] = some r ∧
      (([0x61, 0x61, 0x62] : List UInt8) = [] → r = some 0) ∧
      (∀ k, r = some k → [0x61, 0x61, 0x62] <+: ([0x61, 0x61, 0x61, 0x62] : List UInt8).drop k ∧
        ∀ j < k, ¬ [0x61, 0x61, 0x62] <+: ([0x61, 0x61, 0x61, 0x62] : List UInt8).drop j) ∧
      (r = none → ∀ j, ¬ [0x61, 0x61, 0x62] <+: ([0x61, 0x61, 0x61, 0x62] : List UInt8).drop j) :=
  gAgentStrstrAt_search [0x61, 0x61, 0x61, 0x62] [0x61, 0x61, 0x62] [] [] (by decide) (by decide)

end GizwitsSdk
