import Jetmon.CheckAccounting

/-! The limits of CheckController on checks that run at once. addCheck compares m_checking with
the capacity, but m_checking moves only when the signal is delivered: the limits hold as long
as no request announces more checks than the signals under way leave room for. -/
namespace CheckConcurrency

open CheckController
open CheckAccounting
open SlotTally
open TransitionSystem

def sitesOf (checks : List HealthCheck) : Finset (Int32 × String) :=
  (checks.map HealthCheck.site).toFinset

def newSites (s : State) (hcs : List HealthCheck) : ℕ := (sitesOf hcs \ sitesOf s.checks).card

variable (P : Settings)

/-- A request that finds a free place leaves one for each of its checks and each signal. -/
def Paced (s : State) : Event → Prop
  | .request hcs _ => s.checking < capacity P s →
      s.checking + s.pending.length + newSites s hcs ≤ capacity P s
  | .startCheck _ | .finishedCheck _ _ _ _ | .ticked => True

instance (s : State) (e : Event) : Decidable (Paced P s e) :=
  match e with
  | .request hcs _ => inferInstanceAs (Decidable (s.checking < capacity P s →
      s.checking + s.pending.length + newSites s hcs ≤ capacity P s))
  | .startCheck _ | .finishedCheck _ _ _ _ | .ticked => isTrue trivial

structure Limited (s : State) : Prop where
  committed : s.checking + s.pending.length ≤ capacity P s
  each : ∀ checking ∈ s.runners, checking ≤ P.maxChecks

theorem selectFrom_cases (min : ℤ) (minIndex index : ℕ) (runners : List ℤ) :
    (selectFrom min minIndex index runners = minIndex ∧ ∀ c ∈ runners, min ≤ c) ∨
    ∃ j, ∃ h : j < runners.length,
      selectFrom min minIndex index runners = index + j ∧ runners[j] < min := by
  induction runners generalizing min minIndex index with
  | nil => exact .inl ⟨rfl, by simp⟩
  | cons checking rest ih =>
    unfold selectFrom
    split
    case isTrue hless =>
      right
      obtain ⟨hindex, -⟩ | ⟨j, hj, hindex, hlt⟩ := ih checking index (index + 1)
      · exact ⟨0, by simp, hindex, hless⟩
      · exact ⟨j + 1, by simpa using hj, by omega, hlt.trans hless⟩
    case isFalse hleast =>
      obtain ⟨hindex, hall⟩ | ⟨j, hj, hindex, hlt⟩ := ih min minIndex (index + 1)
      · exact .inl ⟨hindex, List.forall_mem_cons.mpr ⟨by omega, hall⟩⟩
      · exact .inr ⟨j + 1, by simpa using hj, by omega, hlt⟩

variable {P}

theorem selectRunner_free {runners : List ℤ} (h : runners.sum < runners.length * P.maxChecks)
    (hi : selectRunner P runners < runners.length) :
    runners[selectRunner P runners] < P.maxChecks := by
  obtain ⟨c, hmem, hc⟩ := exists_lt_of_sum_lt h
  obtain ⟨-, hall⟩ | ⟨j, hj, hindex, hlt⟩ := selectFrom_cases P.maxChecks 0 0 runners
  · exact absurd (hall c hmem) (by omega)
  · have hselect : selectRunner P runners = j := by
      rw [selectRunner, hindex, Nat.zero_add]
    simpa only [hselect] using hlt

theorem startChecking_each {s : State} {address : ℕ} (htotal : s.checking = s.runners.sum)
    (hwidth : s.runners.length = P.maxRunners) (hfree : s.checking < capacity P s)
    (h : ∀ checking ∈ s.runners, checking ≤ P.maxChecks) :
    ∀ checking ∈ (startChecking P s address).runners, checking ≤ P.maxChecks := by
  have hi := selectRunner_lt P hwidth
  have hroom : s.runners[selectRunner P s.runners] < P.maxChecks :=
    selectRunner_free (htotal ▸ hfree) hi
  intro checking hmem
  obtain ⟨i, hlt, rfl⟩ := List.getElem_of_mem hmem
  simp only [startChecking, List.getElem_modify]
  split
  · subst i
    omega
  · exact h _ (List.getElem_mem _)

theorem sitesOf_cons (hc : HealthCheck) (checks : List HealthCheck) :
    sitesOf (hc :: checks) = insert hc.site (sitesOf checks) := by
  simp [sitesOf]

theorem sitesOf_append (checks : List HealthCheck) (hc : HealthCheck) :
    sitesOf (checks ++ [hc]) = insert hc.site (sitesOf checks) := by
  ext site
  simp [sitesOf]

theorem newSites_known {s : State} {hc : HealthCheck} (h : hc.site ∈ sitesOf s.checks)
    (rest : List HealthCheck) : newSites s (hc :: rest) = newSites s rest := by
  rw [newSites, sitesOf_cons, Finset.insert_sdiff_of_mem _ h, newSites]

theorem newSites_new {s t : State} {hc : HealthCheck} (h : hc.site ∉ sitesOf s.checks)
    (ht : sitesOf t.checks = insert hc.site (sitesOf s.checks)) (rest : List HealthCheck) :
    newSites s (hc :: rest) = newSites t rest + 1 := by
  have hsplit : sitesOf (hc :: rest) \ sitesOf s.checks =
      insert hc.site (sitesOf rest \ sitesOf t.checks) := by
    ext site
    simp only [sitesOf_cons, ht, Finset.mem_sdiff, Finset.mem_insert]
    by_cases heq : site = hc.site
    · simp [heq, h]
    · simp [heq]
  rw [newSites, hsplit, Finset.card_insert_of_notMem (by simp [ht]), newSites]

theorem addChecks_pending (hcs : List HealthCheck) (s : State) :
    (addChecks P s hcs).checking = s.checking ∧ (addChecks P s hcs).runners = s.runners ∧
      (addChecks P s hcs).pending.length =
        s.pending.length + if s.checking < capacity P s then newSites s hcs else 0 := by
  induction hcs generalizing s with
  | nil => simp [addChecks, newSites, sitesOf]
  | cons hc rest ih =>
    obtain ⟨hchecking, hrunners, hpending⟩ := ih (addCheck P s hc)
    have hmem : hc.site ∈ sitesOf s.checks ↔ hc.site ∈ s.checks.map HealthCheck.site :=
      List.mem_toFinset
    change (addChecks P (addCheck P s hc) rest).checking = _ ∧
      (addChecks P (addCheck P s hc) rest).runners = _ ∧
      (addChecks P (addCheck P s hc) rest).pending.length = _
    rw [hchecking, hrunners, hpending]
    obtain ⟨hsite, hadd⟩ | ⟨hsite, hfree, hadd⟩ | ⟨hsite, hfull, hadd⟩ := addCheck_cases P s hc
    · rw [hadd, newSites_known (hmem.mpr hsite)]
      exact ⟨rfl, rfl, rfl⟩
    · rw [newSites_new (mt hmem.mp hsite) (t := addCheck P s hc)
        (by rw [hadd, sitesOf_append]; rfl),
        hadd]
      refine ⟨rfl, rfl, ?_⟩
      have hfree' : s.checking < s.runners.length * P.maxChecks := hfree
      simp [capacity, hfree']
      omega
    · rw [hadd]
      have hfull' : ¬s.checking < s.runners.length * P.maxChecks := not_lt.mpr hfull
      simp [capacity, hfull']

theorem request_limited {s : State} {hcs : List HealthCheck} {n : ℕ} (h : Limited P s)
    (hpaced : Paced P s (.request hcs n)) : Limited P (serveRequest P s hcs n) := by
  obtain ⟨hchecking, hrunners, hpending⟩ := addChecks_pending (P := P) hcs s
  refine ⟨?_, hrunners ▸ h.each⟩
  have hcommitted := h.committed
  have hroom : s.checking < capacity P s →
      s.checking + s.pending.length + newSites s hcs ≤ capacity P s := hpaced
  have hcapacity : capacity P (serveRequest P s hcs n) = capacity P s :=
    congrArg (fun r : List ℤ => (r.length * P.maxChecks : ℤ)) hrunners
  change (addChecks P s hcs).checking + (addChecks P s hcs).pending.length ≤ _
  rw [hcapacity, hchecking, hpending]
  split
  · push_cast
    have := hroom ‹_›
    omega
  · simpa using hcommitted

theorem startChecking_capacity (s : State) (address : ℕ) :
    capacity P (startChecking P s address) = capacity P s := by
  simp [capacity, startChecking]

theorem startCheck_limited {s : State} {address : ℕ} (ha : Accounted P s.pending s)
    (h : Limited P s) (hpending : address ∈ s.pending) :
    Limited P (next P s (.startCheck address)) := by
  have hlength := List.length_erase_of_mem hpending
  have hpos := List.length_pos_of_mem hpending
  have hcommitted := h.committed
  refine ⟨?_, startChecking_each ha.total ha.width ?_ h.each⟩
  · change s.checking + 1 + ((s.pending.erase address).length : ℤ) ≤
      capacity P (startChecking P _ _)
    rw [startChecking_capacity, hlength]
    change s.checking + 1 + ((s.pending.length - 1 : ℕ) : ℤ) ≤ capacity P s
    omega
  · change s.checking < capacity P s
    omega

theorem startWaiting_limited {s : State} (ha : Accounted P s.pending s)
    (hcommitted : s.checking + 1 + s.pending.length ≤ capacity P s)
    (h : ∀ checking ∈ s.runners, checking ≤ P.maxChecks) : Limited P (startWaiting P s) := by
  obtain ⟨-, hsame⟩ | ⟨before, hc, after, -, -, -, hfree, hstart⟩ := startWaiting_cases P s
  · rw [hsame]
    exact ⟨by omega, h⟩
  · rw [hstart]
    refine ⟨?_, startChecking_each ha.total ha.width hfree h⟩
    rw [startChecking_capacity]
    exact hcommitted

theorem finishedCheck_limited {s : State} {address : ℕ} (ha : Accounted P s.pending s)
    (h : Limited P s) (hrunning : address ∈ s.running) (status httpCode rtt : Int32) :
    Limited P (finishedCheck P s address status httpCode rtt) := by
  obtain ⟨before, hc, after, i, hsplit, rfl, hindex, hi⟩ := performed_entry ha hrunning
  rw [finishedCheck_eq ha hsplit hindex]
  refine startWaiting_limited (released_accounted ha hsplit hindex hi _) ?_ ?_
  · have hcommitted := h.committed
    simp only [released, capacity, List.length_modify] at hcommitted ⊢
    omega
  · intro checking hmem
    obtain ⟨j, hj, rfl⟩ := List.getElem_of_mem hmem
    have hj' : j < s.runners.length := by simpa [released] using hj
    have hold := h.each s.runners[j] (List.getElem_mem _)
    simp only [released, List.getElem_modify]
    split <;> omega

theorem next_limited {s : State} {e : Event} (ha : Accounted P s.pending s) (h : Limited P s)
    (he : Enabled s e) (hpaced : Paced P s e) : Limited P (next P s e) := by
  cases e with
  | request hcs sentBefore => exact request_limited h hpaced
  | startCheck address => exact startCheck_limited ha h he
  | finishedCheck address status httpCode rtt => exact finishedCheck_limited ha h he _ _ _
  | ticked => exact ⟨h.committed, h.each⟩

/-- Neither the controller nor a runner performs more checks at once than it was set up for. -/
theorem limits_kept (P : Settings) {s : State} (hr : Reachable (controller P) (Paced P) s) :
    s.checking ≤ P.maxRunners * P.maxChecks ∧
      ∀ checking ∈ s.runners, checking ≤ P.maxChecks := by
  have hlimited : Limited P s := by
    apply reachable_invariant _ _ hr
    · rintro _ rfl
      refine ⟨?_, fun checking hmem => ?_⟩
      · simp only [initial, List.length_nil, capacity, List.length_replicate]
        positivity
      · rw [List.eq_of_mem_replicate hmem]
        positivity
    · intro s e hr h he hpaced
      exact next_limited (reachable_accounted hr).1 h he hpaced
  have hwidth := (reachable_accounted hr).1.width
  have hcommitted := hlimited.committed
  rw [capacity, hwidth] at hcommitted
  exact ⟨by omega, hlimited.each⟩

theorem limits_kept_sample :
    ((controller sampleSettings).exec (initial sampleSettings) sampleRun).checking ≤ 1 * 1 ∧
      ∀ checking ∈ ((controller sampleSettings).exec (initial sampleSettings) sampleRun).runners,
        checking ≤ 1 :=
  limits_kept sampleSettings (exec_reachable (.start rfl) (by decide))

def burst : List Event :=
  [.request [sampleCheck 0 1, sampleCheck 1 2] 0, .startCheck 0, .startCheck 1]

theorem burst_exceeds_limits :
    Reachable (controller sampleSettings) Unrestricted
        ((controller sampleSettings).exec (initial sampleSettings) burst) ∧
      ¬((controller sampleSettings).exec (initial sampleSettings) burst).checking ≤ 1 * 1 ∧
      ((controller sampleSettings).exec (initial sampleSettings) burst).runners = [2] :=
  ⟨exec_reachable (.start rfl) (by decide), by decide, by decide⟩

theorem deliver_all (P : Settings) {signals : List ℕ} {s : State} (h : s.pending = signals) :
    (controller P).Valid Unrestricted s (signals.map .startCheck) ∧
      ((controller P).exec s (signals.map .startCheck)).checking = s.checking + signals.length := by
  induction signals generalizing s with
  | nil => simp [Machine.Valid, Machine.exec]
  | cons address rest ih =>
    have hrest : (next P s (.startCheck address)).pending = rest := by
      simp [next, startChecking, h]
    obtain ⟨hvalid, hchecking⟩ := ih hrest
    refine ⟨⟨⟨?_, trivial⟩, hvalid⟩, hchecking.trans ?_⟩
    · change address ∈ s.pending
      rw [h]
      exact List.mem_cons_self
    · rw [List.length_cons]
      change s.checking + 1 + (rest.length : ℤ) = _
      push_cast
      omega

/-- Every request that is not paced can be followed by deliveries past the capacity. -/
theorem unpaced_exceeds (P : Settings) {s : State} {hcs : List HealthCheck} {n : ℕ}
    (h : ¬Paced P s (.request hcs n)) :
    ∃ deliveries, (controller P).Valid Unrestricted (serveRequest P s hcs n) deliveries ∧
      capacity P s < ((controller P).exec (serveRequest P s hcs n) deliveries).checking := by
  obtain ⟨hvalid, hexec⟩ := deliver_all P (s := serveRequest P s hcs n) rfl
  obtain ⟨hchecking, -, hpending⟩ := addChecks_pending (P := P) hcs s
  refine ⟨_, hvalid, ?_⟩
  rw [hexec]
  change capacity P s < (addChecks P s hcs).checking + (addChecks P s hcs).pending.length
  simp only [Paced, Classical.not_imp, not_le] at h
  rw [hchecking, hpending, if_pos h.1]
  push_cast
  omega

end CheckConcurrency
