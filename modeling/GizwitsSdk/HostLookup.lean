import GizwitsSdk.Lib.Machine

/-!
# Host lookup: `adapter_ucos.c`

The resolver answers by a callback that leaves the address in `domain_ipaddr`,
whoever asked, and posts `pdomainSem`. `GAgent_GetHostByName` waits for a count
or for 1000 ticks, without a look at which of the two ended the wait. What
started lookups, what the resolver produced and what the calls returned is kept
apart from the program's own state.
-/

namespace GizwitsSdk

open Lib

abbrev Domain := List UInt8

/-- Where the caller is in `GAgent_GetHostByName`. -/
inductive LookupPc
  | idle
  /-- at `OSSemPend(pdomainSem, 1000, &Err)` -/
  | pend (domain : Domain)
  /-- at the test of `domain_flag` -/
  | test (domain : Domain)
  /-- at the copy of `domain_ipaddr` -/
  | copy (domain : Domain)

/-- What `dns_gethostbyname` returns; `ok` brings an address from the table. -/
inductive DnsResult
  | ok (ip : UInt32)
  | inProgress
  | error

structure HostLookupSt where
  domainIpaddr : UInt32
  domainFlag : Bool
  pdomainSem : Nat
  pc : LookupPc
  /-- lookups whose callback is still to come -/
  started : List Domain
  /-- what the resolver found, for which domain -/
  produced : List (Domain × UInt32)
  /-- the lookup whose callback was the last to bring an address before the present call -/
  before : Option Domain
  /-- the lookups whose callbacks have brought one since, latest first -/
  since : List Domain
  /-- the calls that returned 0, with the address whose text they stored -/
  results : List (Domain × UInt32)

def lookupStart : HostLookupSt where
  domainIpaddr := 0
  domainFlag := false
  pdomainSem := 0
  pc := .idle
  started := []
  produced := []
  before := none
  since := []
  results := []

/-- `ipaddr` is `NULL` when the lookup failed. -/
def gagentServerFound (name : Domain) (ipaddr : Option UInt32) (s : HostLookupSt) : HostLookupSt :=
  let ip := ipaddr.getD 0
  if ip ≠ 0 then
    { s with
      domainIpaddr := ip
      domainFlag := true
      pdomainSem := s.pdomainSem + 1
      produced := (name, ip) :: s.produced
      since := name :: s.since }
  else { s with domainFlag := false, pdomainSem := s.pdomainSem + 1 }

def gAgentGetHostByName (domain : Domain) (r : DnsResult) (s : HostLookupSt) : HostLookupSt :=
  match r with
  | .ok ip => { s with produced := (domain, ip) :: s.produced, results := (domain, ip) :: s.results }
  | .inProgress =>
    { s with started := domain :: s.started, pc := .pend domain, before := s.since.head?.or s.before, since := [] }
  | .error => s

/-- The caller's next step; it waits while no count is there. -/
def lookupNext (s : HostLookupSt) : HostLookupSt :=
  match s.pc with
  | .idle => s
  | .pend domain =>
    if s.pdomainSem = 0 then s else { s with pdomainSem := s.pdomainSem - 1, pc := .test domain }
  | .test domain => if s.domainFlag then { s with pc := .copy domain } else { s with pc := .idle }
  | .copy domain => { s with results := (domain, s.domainIpaddr) :: s.results, pc := .idle }

/-- The 1000 ticks are over. -/
def lookupTimeout (s : HostLookupSt) : HostLookupSt :=
  match s.pc with
  | .pend domain => if s.pdomainSem = 0 then { s with pc := .test domain } else s
  | .idle => s
  | .test _ => s
  | .copy _ => s

inductive LookupEv
  | call (domain : Domain) (r : DnsResult)
  | next
  | timeout
  | found (name : Domain) (ipaddr : Option UInt32)

def hostLookupStep (s : HostLookupSt) : LookupEv → HostLookupSt
  | .call domain r =>
    match s.pc with
    | .idle => gAgentGetHostByName domain r s
    | .pend _ => s
    | .test _ => s
    | .copy _ => s
  | .next => lookupNext s
  | .timeout => lookupTimeout s
  | .found name ipaddr =>
    if name ∈ s.started then gagentServerFound name ipaddr { s with started := s.started.erase name } else s

/-- Every call that returned 0 stored an address the resolver produced for its domain. -/
def Answered (s : HostLookupSt) : Prop := ∀ r ∈ s.results, r ∈ s.produced

/-- The test found `domain_flag` as the answer to an earlier lookup had left it,
and that lookup was for another domain. -/
def StaleFlag (s : HostLookupSt) (domain : Domain) : Prop := s.since = [] ∧ s.before ≠ some domain

/-- Of the callbacks since the call began, the last to bring an address was a
late one, for another domain. -/
def LateCallback (s : HostLookupSt) (domain : Domain) : Prop := ∃ name, s.since.head? = some name ∧ name ≠ domain

/-- No copy behind a stale flag, and none behind a late callback. -/
def ownAnswer (s : HostLookupSt) : LookupEv → Prop
  | .next =>
    match s.pc with
    | .copy domain => ¬ StaleFlag s domain ∧ ¬ LateCallback s domain
    | .idle => True
    | .pend _ => True
    | .test _ => True
  | .call _ _ => True
  | .timeout => True
  | .found _ _ => True

def HostLookupSt.latest (s : HostLookupSt) : Option Domain := s.since.head?.or s.before

/-- `domain_ipaddr` is the address of the lookup that was answered last. -/
structure LatestInv (s : HostLookupSt) : Prop where
  latest : ∀ name, s.latest = some name → (name, s.domainIpaddr) ∈ s.produced
  flag : s.domainFlag = true → s.latest ≠ none
  copies : ∀ domain, s.pc = .copy domain → s.latest ≠ none

section
variable {s s' : HostLookupSt} {domain : Domain}

theorem ownAnswer_copy (hp : s.pc = .copy domain) : ownAnswer s .next ↔ s.latest = some domain := by
  unfold ownAnswer StaleFlag LateCallback HostLookupSt.latest
  rw [hp]
  cases s.since with
  | nil => simp
  | cons name names => simp

theorem latestInv_start : LatestInv lookupStart where
  latest := fun _ h => nomatch h
  flag := fun h => nomatch h
  copies := fun _ h => nomatch h

theorem latestInv_found (h : LatestInv s) (name : Domain) (ipaddr : Option UInt32) :
    LatestInv (gagentServerFound name ipaddr s) := by
  unfold gagentServerFound
  dsimp only
  split
  · refine ⟨fun name' hn => ?_, fun _ => Option.some_ne_none name, fun _ _ => Option.some_ne_none name⟩
    obtain rfl := Option.some.inj hn
    exact List.mem_cons_self
  · exact ⟨h.latest, (fun hf => nomatch hf), h.copies⟩

theorem latestInv_call (h : LatestInv s) (domain : Domain) (r : DnsResult) :
    LatestInv (gAgentGetHostByName domain r s) := by
  cases r with
  | ok ip => exact ⟨fun name hn => List.mem_cons_of_mem _ (h.latest name hn), h.flag, h.copies⟩
  | inProgress => exact ⟨h.latest, h.flag, fun _ hc => nomatch hc⟩
  | error => exact h

theorem latestInv_timeout (h : LatestInv s) : LatestInv (lookupTimeout s) := by
  unfold lookupTimeout
  cases hp : s.pc with
  | idle => exact h
  | pend domain =>
    dsimp only
    split
    · exact ⟨h.latest, h.flag, fun _ hc => nomatch hc⟩
    · exact h
  | test domain => exact h
  | copy domain => exact h

theorem latestInv_next (h : LatestInv s) : LatestInv (lookupNext s) := by
  unfold lookupNext
  cases hp : s.pc with
  | idle => exact h
  | pend domain =>
    dsimp only
    split
    · exact h
    · exact ⟨h.latest, h.flag, fun _ hc => nomatch hc⟩
  | test domain =>
    dsimp only
    split
    · next hf => exact ⟨h.latest, h.flag, fun _ _ => h.flag hf⟩
    · exact ⟨h.latest, h.flag, fun _ hc => nomatch hc⟩
  | copy domain => exact ⟨h.latest, h.flag, fun _ hc => nomatch hc⟩

theorem latestInv_step (h : LatestInv s) (e : LookupEv) : LatestInv (hostLookupStep s e) := by
  cases e with
  | call domain r =>
    simp only [hostLookupStep]
    cases s.pc with
    | idle => exact latestInv_call h domain r
    | pend _ => exact h
    | test _ => exact h
    | copy _ => exact h
  | next => exact latestInv_next h
  | timeout => exact latestInv_timeout h
  | found name ipaddr =>
    simp only [hostLookupStep]
    split
    · have h' : LatestInv { s with started := s.started.erase name } := ⟨h.latest, h.flag, h.copies⟩
      exact latestInv_found h' name ipaddr
    · exact h

/-- Where a step leaves the results and what has been produced. -/
theorem answered_of_more (h : Answered s) (hr : s'.results = s.results) (hp : s.produced ⊆ s'.produced) :
    Answered s' := by
  intro r hm
  rw [hr] at hm
  exact hp (h r hm)

theorem answered_next (hi : LatestInv s) (h : Answered s) (hok : ownAnswer s .next) : Answered (lookupNext s) := by
  unfold lookupNext
  cases hp : s.pc with
  | idle => exact h
  | pend domain =>
    dsimp only
    split
    · exact h
    · exact h
  | test domain =>
    dsimp only
    split
    · exact h
    · exact h
  | copy domain =>
    intro r hr
    obtain rfl | hr := List.mem_cons.mp hr
    · exact hi.latest domain ((ownAnswer_copy hp).mp hok)
    · exact h r hr

theorem answered_step (hi : LatestInv s) (h : Answered s) (e : LookupEv) (hok : ownAnswer s e) :
    Answered (hostLookupStep s e) := by
  cases e with
  | call domain r =>
    simp only [hostLookupStep]
    cases s.pc with
    | idle =>
      cases r with
      | ok ip =>
        intro r hr
        obtain rfl | hr := List.mem_cons.mp hr
        · exact List.mem_cons_self
        · exact List.mem_cons_of_mem _ (h r hr)
      | inProgress => exact h
      | error => exact h
    | pend _ => exact h
    | test _ => exact h
    | copy _ => exact h
  | next => exact answered_next hi h hok
  | timeout =>
    simp only [hostLookupStep, lookupTimeout]
    cases s.pc with
    | idle => exact h
    | pend domain =>
      dsimp only
      split
      · exact h
      · exact h
    | test _ => exact h
    | copy _ => exact h
  | found name ipaddr =>
    simp only [hostLookupStep, gagentServerFound]
    split
    · split
      · exact answered_of_more h rfl (List.subset_cons_self _ _)
      · exact h
    · exact h

end

/-! ## Schedules -/

def LookupEv.timing : LookupEv → LookupEv
  | .call domain (.ok _) => .call domain (.ok 0)
  | .found name ipaddr => .found name (if ipaddr.getD 0 ≠ 0 then some 1 else none)
  | e => e

/-- The same events in the same order; the addresses they bring may differ. -/
def SameSchedule (es es' : List LookupEv) : Prop := es.map LookupEv.timing = es'.map LookupEv.timing

def HostLookupSt.timing (s : HostLookupSt) : HostLookupSt :=
  { s with domainIpaddr := 0, produced := [], results := [] }

def LookupEv.byTable (addr : Domain → UInt32) : LookupEv → LookupEv
  | .call domain (.ok _) => .call domain (.ok (addr domain))
  | .found name ipaddr => .found name (if ipaddr.getD 0 ≠ 0 then some (addr name) else none)
  | e => e

section
variable {s s' : HostLookupSt} {e e' : LookupEv} {es es' : List LookupEv}

theorem found_timing (name : Domain) (ipaddr : Option UInt32) (s : HostLookupSt) :
    (gagentServerFound name ipaddr s).timing =
      (gagentServerFound name (if ipaddr.getD 0 ≠ 0 then some 1 else none) s.timing).timing := by
  unfold gagentServerFound
  by_cases h : ipaddr.getD 0 ≠ 0
  · have h1 : (some (1 : UInt32)).getD 0 ≠ 0 := by decide
    simp only [if_pos h, if_pos h1]
    rfl
  · simp only [if_neg h]
    rfl

theorem step_timing (s : HostLookupSt) (e : LookupEv) :
    (hostLookupStep s e).timing = (hostLookupStep s.timing e.timing).timing := by
  cases e with
  | call domain r =>
    obtain ⟨ip, flag, sem, pc, started, produced, before, since, results⟩ := s
    cases pc <;> cases r <;> rfl
  | next =>
    obtain ⟨ip, flag, sem, pc, started, produced, before, since, results⟩ := s
    cases pc with
    | idle => rfl
    | pend domain => cases sem <;> rfl
    | test domain => cases flag <;> rfl
    | copy domain => rfl
  | timeout =>
    obtain ⟨ip, flag, sem, pc, started, produced, before, since, results⟩ := s
    cases pc with
    | idle => rfl
    | pend domain => cases sem <;> rfl
    | test domain => rfl
    | copy domain => rfl
  | found name ipaddr =>
    show (if name ∈ s.started then _ else s).timing = (if name ∈ s.started then _ else s.timing).timing
    split
    · exact found_timing name ipaddr { s with started := s.started.erase name }
    · rfl

theorem timing_step (hs : s.timing = s'.timing) (he : e.timing = e'.timing) :
    (hostLookupStep s e).timing = (hostLookupStep s' e').timing := by
  rw [step_timing, hs, he, ← step_timing]

/-- The condition looks at no address. -/
theorem ownAnswer_timing (s : HostLookupSt) (e : LookupEv) : ownAnswer s e ↔ ownAnswer s.timing e.timing := by
  cases e with
  | call domain r => cases r <;> exact Iff.rfl
  | next => exact Iff.rfl
  | timeout => exact Iff.rfl
  | found name ipaddr => exact Iff.rfl

theorem meets_schedule (h : SameSchedule es es') (hs : s.timing = s'.timing) :
    Meets hostLookupStep ownAnswer s es ↔ Meets hostLookupStep ownAnswer s' es' := by
  unfold SameSchedule at h
  induction es generalizing es' s s' with
  | nil =>
    obtain rfl := List.map_eq_nil_iff.mp h.symm
    exact iff_of_true meets_nil meets_nil
  | cons e es ih =>
    obtain ⟨e', es'', rfl, he, hes⟩ := List.map_eq_cons_iff.mp h.symm
    rw [meets_cons, meets_cons, ih hes.symm (timing_step hs he.symm), ownAnswer_timing s, hs, ← he,
      ← ownAnswer_timing]

theorem run_timing (h : SameSchedule es es') (hs : s.timing = s'.timing) :
    (run hostLookupStep s es).timing = (run hostLookupStep s' es').timing := by
  unfold SameSchedule at h
  induction es generalizing es' s s' with
  | nil =>
    obtain rfl := List.map_eq_nil_iff.mp h.symm
    exact hs
  | cons e es ih =>
    obtain ⟨e', es'', rfl, he, hes⟩ := List.map_eq_cons_iff.mp h.symm
    rw [run_cons, run_cons]
    exact ih hes.symm (timing_step hs he.symm)

section
variable {addr : Domain → UInt32} (h0 : ∀ d, addr d ≠ 0)
include h0

theorem byTable_timing (e : LookupEv) : (e.byTable addr).timing = e.timing := by
  cases e with
  | call domain r => cases r <;> rfl
  | next => rfl
  | timeout => rfl
  | found name ipaddr =>
    simp only [LookupEv.byTable, LookupEv.timing]
    by_cases h : ipaddr.getD 0 ≠ 0
    · rw [if_pos h, if_pos h]
      exact congrArg _ (if_pos (h0 name))
    · rw [if_neg h, if_neg h]
      rfl

theorem byTable_schedule (es : List LookupEv) : SameSchedule es (es.map (LookupEv.byTable addr)) := by
  unfold SameSchedule
  rw [List.map_map]
  exact List.map_congr_left fun e _ => (byTable_timing h0 e).symm

end

def InTable (addr : Domain → UInt32) (s : HostLookupSt) : Prop := ∀ r ∈ s.produced, r.2 = addr r.1

theorem inTable_step {addr : Domain → UInt32} (h : InTable addr s) (e : LookupEv) :
    InTable addr (hostLookupStep s (e.byTable addr)) := by
  have hmore (domain : Domain) : ∀ r ∈ (domain, addr domain) :: s.produced, r.2 = addr r.1 := by
    intro r hr
    obtain rfl | hr := List.mem_cons.mp hr
    · rfl
    · exact h r hr
  cases e with
  | call domain r =>
    cases hp : s.pc <;> cases r <;> simp only [LookupEv.byTable, hostLookupStep, hp]
    all_goals first | exact h | exact hmore domain
  | next =>
    simp only [LookupEv.byTable, hostLookupStep, lookupNext]
    cases s.pc with
    | idle => exact h
    | pend domain => dsimp only; split <;> exact h
    | test domain => dsimp only; split <;> exact h
    | copy domain => exact h
  | timeout =>
    simp only [LookupEv.byTable, hostLookupStep, lookupTimeout]
    cases s.pc with
    | idle => exact h
    | pend domain => dsimp only; split <;> exact h
    | test domain => exact h
    | copy domain => exact h
  | found name ipaddr =>
    simp only [LookupEv.byTable, hostLookupStep, gagentServerFound]
    split
    · by_cases hip : ipaddr.getD 0 ≠ 0
      · rw [if_pos hip, Option.getD_some]
        split
        · exact hmore name
        · exact h
      · rw [if_neg hip]
        exact h
    · exact h

theorem inTable_run (addr : Domain → UInt32) (es : List LookupEv) :
    InTable addr (run hostLookupStep lookupStart (es.map (LookupEv.byTable addr))) := by
  induction es using List.reverseRecOn with
  | nil => exact fun _ h => nomatch h
  | append_singleton es e ih =>
    rw [List.map_append, List.map_singleton, run_snoc]
    exact inTable_step ih e

/-- A copy that is not the asked domain's is wrong as soon as the two domains have
different addresses. -/
theorem ownAnswer_of_answered {pre : List LookupEv}
    (h : ∀ es', SameSchedule (pre ++ [e]) es' → Answered (run hostLookupStep lookupStart es')) :
    ownAnswer (run hostLookupStep lookupStart pre) e := by
  cases e with
  | call domain r => trivial
  | timeout => trivial
  | found name ipaddr => trivial
  | next =>
    cases hp : (run hostLookupStep lookupStart pre).pc with
    | idle => rw [ownAnswer, hp]; trivial
    | pend domain => rw [ownAnswer, hp]; trivial
    | test domain => rw [ownAnswer, hp]; trivial
    | copy domain =>
      have hinv : LatestInv (run hostLookupStep lookupStart pre) := run_inv latestInv_start fun _ e h => latestInv_step h e
      obtain ⟨name, hname⟩ := Option.ne_none_iff_exists'.mp (hinv.copies domain hp)
      rw [ownAnswer_copy hp, hname]
      by_contra hne
      let addr : Domain → UInt32 := fun d => if d = name then 1 else 2
      have h0 (d : Domain) : addr d ≠ 0 := by
        show (if d = name then (1 : UInt32) else 2) ≠ 0
        split <;> decide
      have hans := h _ (byTable_schedule h0 (pre ++ [.next]))
      rw [List.map_append, List.map_singleton, run_snoc] at hans
      have hsame : (run hostLookupStep lookupStart pre).timing =
          (run hostLookupStep lookupStart (pre.map (LookupEv.byTable addr))).timing :=
        run_timing (byTable_schedule h0 pre) rfl
      have htab := inTable_run addr pre
      have hinv' : LatestInv (run hostLookupStep lookupStart (pre.map (LookupEv.byTable addr))) :=
        run_inv latestInv_start fun _ e h => latestInv_step h e
      generalize run hostLookupStep lookupStart (pre.map (LookupEv.byTable addr)) = t at hans hsame htab hinv'
      have hpc : t.pc = .copy domain := (congrArg HostLookupSt.pc hsame).symm.trans hp
      have hlatest : t.latest = some name := (congrArg HostLookupSt.latest hsame).symm.trans hname
      -- the address of `name` is stored for `domain`
      have hip : t.domainIpaddr = addr name := htab _ (hinv'.latest name hlatest)
      have hm : (domain, t.domainIpaddr) ∈ t.produced := by
        have := hans (domain, t.domainIpaddr)
        simp only [LookupEv.byTable, hostLookupStep, lookupNext, hpc] at this
        exact this List.mem_cons_self
      have heq : addr name = addr domain := hip.symm.trans (htab _ hm)
      have hdom : ¬ domain = name := fun e => hne (by rw [e])
      change (if name = name then (1 : UInt32) else 2) = if domain = name then 1 else 2 at heq
      rw [if_pos rfl, if_neg hdom] at heq
      exact absurd heq (by decide)

end

structure LookupInv (s : HostLookupSt) : Prop where
  latest : LatestInv s
  answered : Answered s

theorem meets_answered {es : List LookupEv} (h : Meets hostLookupStep ownAnswer lookupStart es) :
    ∀ pre, pre <+: es → Answered (run hostLookupStep lookupStart pre) := by
  intro pre hp
  have hstart : LookupInv lookupStart := ⟨latestInv_start, fun _ hr => nomatch hr⟩
  have hstep (s : HostLookupSt) (e : LookupEv) (hi : LookupInv s) (hok : ownAnswer s e) :
      LookupInv (hostLookupStep s e) :=
    ⟨latestInv_step hi.latest e, answered_step hi.latest hi.answered e hok⟩
  exact (Meets.preserves hstart hstep h pre hp).answered

/-- **When a lookup answers for its own domain.** Whatever addresses a schedule of
calls and callbacks brings, all that are stored are the asked domain's, exactly
when no call of the schedule copies behind a stale flag or a late callback. -/
theorem lookup_answered_iff (es : List LookupEv) :
    (∀ es', SameSchedule es es' → ∀ pre, pre <+: es' → Answered (run hostLookupStep lookupStart pre)) ↔
      Meets hostLookupStep ownAnswer lookupStart es := by
  constructor
  · rintro h pre e ⟨post, rfl⟩
    refine ownAnswer_of_answered fun es' hes' => ?_
    unfold SameSchedule at hes'
    refine h (es' ++ post) ?_ es' (List.prefix_append _ _)
    unfold SameSchedule
    rw [List.map_append, hes', ← List.map_append]
  · intro hm es' hes' pre hp
    exact meets_answered ((meets_schedule hes' rfl).mp hm) pre hp

/-- The flag of the first lookup still stands when the wait of the second has
timed out: the call returns 0 with the address of the first. -/
theorem lookup_after_timeout : ¬ ∀ es pre : List LookupEv, pre <+: es →
    Answered (run hostLookupStep lookupStart pre) := by
  intro h
  have ha := h [.call [0x61] .inProgress, .found [0x61] (some 0x04030201), .next, .next, .next,
    .call [0x6d] .inProgress, .timeout, .next, .next] _ (List.prefix_refl _)
  have hm := ha ([0x6d], 0x04030201) (by decide)
  exact absurd hm (by decide)

end GizwitsSdk
