import Jetmon.CheckController

/-! The accounting of CheckController: every entry of m_checks is waiting, announced by one
signal, or started on one runner, and the counters say how many are. `Accounted` takes the
signals that are on their way as an argument, since one emitted on the controller's own thread
is delivered within the step. -/
namespace CheckAccounting

open CheckController
open JsonValue
open SlotTally
open TransitionSystem
open scoped List

def slot (hc : HealthCheck) : Option ℕ :=
  match hc.threadIndex with
  | .runner index => some index
  | .notAssigned | .preAssigned => none

theorem slot_eq_some {hc : HealthCheck} {i : ℕ} :
    slot hc = some i ↔ hc.threadIndex = .runner i := by
  unfold slot
  cases hc.threadIndex <;> simp

def waiting (checks : List HealthCheck) : List HealthCheck :=
  checks.filter fun hc => hc.threadIndex = .notAssigned

def announced (checks : List HealthCheck) : List HealthCheck :=
  checks.filter fun hc => hc.threadIndex = .preAssigned

def started (checks : List HealthCheck) : List HealthCheck :=
  checks.filter fun hc => (slot hc).isSome

variable (P : Settings)

structure Accounted (signals : List ℕ) (s : State) : Prop where
  addresses : (s.checks.map HealthCheck.address).Nodup
  sites : (s.checks.map HealthCheck.site).Nodup
  tally : Tally slot s.checks s.runners
  width : s.runners.length = P.maxRunners
  total : s.checking = s.runners.sum
  signalled : signals.Perm ((announced s.checks).map HealthCheck.address)
  performed : s.running.Perm ((started s.checks).map HealthCheck.address)
  order : s.inserted = s.emitted ++ waiting s.checks

def Full (s : State) : Prop := waiting s.checks ≠ [] → capacity P s ≤ s.checking

theorem ne_of_nodup {before after : List HealthCheck} {hc : HealthCheck}
    (h : ((before ++ hc :: after).map HealthCheck.address).Nodup) :
    ∀ c ∈ before ++ after, c.address ≠ hc.address := by
  intro c hmem heq
  rw [List.map_append, List.map_cons, List.nodup_middle, ← List.map_append, List.nodup_cons] at h
  exact h.1 (heq ▸ List.mem_map_of_mem hmem)

theorem split_of_mem {checks : List HealthCheck} {hc : HealthCheck}
    (h : (checks.map HealthCheck.address).Nodup) (hmem : hc ∈ checks) :
    ∃ before after, checks = before ++ hc :: after ∧
      ∀ c ∈ before ++ after, c.address ≠ hc.address := by
  obtain ⟨before, after, rfl⟩ := List.append_of_mem hmem
  exact ⟨before, after, rfl, ne_of_nodup h⟩

theorem setThreadIndex_split {before after : List HealthCheck} {hc : HealthCheck}
    (h : ∀ c ∈ before ++ after, c.address ≠ hc.address) (t : ThreadIndex) :
    setThreadIndex hc.address t (before ++ hc :: after) =
      before ++ { hc with threadIndex := t } :: after := by
  have hkeep : ∀ l : List HealthCheck, (∀ c ∈ l, c.address ≠ hc.address) →
      l.map (fun c => if c.address = hc.address then { c with threadIndex := t } else c) = l := by
    intro l hl
    exact (List.map_congr_left fun c hc' => if_neg (hl c hc')).trans (List.map_id l)
  rw [setThreadIndex, List.map_append, List.map_cons, if_pos rfl,
    hkeep before fun c hc' => h c (List.mem_append_left _ hc'),
    hkeep after fun c hc' => h c (List.mem_append_right _ hc')]

theorem selectFrom_lt {runners : List ℤ} {min : ℤ} {minIndex index bound : ℕ}
    (hmin : minIndex < bound) (hindex : index + runners.length ≤ bound) :
    selectFrom min minIndex index runners < bound := by
  induction runners generalizing min minIndex index with
  | nil => exact hmin
  | cons checking rest ih =>
    rw [List.length_cons] at hindex
    unfold selectFrom
    split
    · exact ih (by omega) (by omega)
    · exact ih hmin (by omega)

theorem selectRunner_lt {runners : List ℤ} (h : runners.length = P.maxRunners) :
    selectRunner P runners < runners.length :=
  selectFrom_lt (h ▸ P.maxRunners_pos) (by omega)

variable {P}

section Middle

variable {before after : List HealthCheck} {hc : HealthCheck} {p : HealthCheck → Bool}

theorem filter_middle (h : p hc = false) :
    (before ++ hc :: after).filter p = (before ++ after).filter p := by
  rw [List.filter_append, List.filter_cons_of_neg (by simp [h]), ← List.filter_append]

theorem addresses_middle (h : p hc = true) :
    ((before ++ hc :: after).filter p).map HealthCheck.address ~
      hc.address :: ((before ++ after).filter p).map HealthCheck.address := by
  rw [List.filter_append, List.filter_cons_of_pos h, List.filter_append, List.map_append,
    List.map_append, List.map_cons]
  exact List.perm_middle

end Middle

theorem startChecking_accounted {signals : List ℕ} {s : State} {address : ℕ}
    (h : Accounted P (address :: signals) s) : Accounted P signals (startChecking P s address) := by
  obtain ⟨hc, hmem, rfl⟩ : ∃ hc ∈ announced s.checks, hc.address = address :=
    List.mem_map.mp (h.signalled.subset List.mem_cons_self)
  obtain ⟨hmem, hindex⟩ : hc ∈ s.checks ∧ hc.threadIndex = .preAssigned := by
    simpa [announced] using hmem
  obtain ⟨before, after, hsplit, hne⟩ := split_of_mem h.addresses hmem
  have hrunner := selectRunner_lt P h.width
  obtain ⟨haddresses, hsites, htally, hwidth, htotal, hsignalled, hperformed, horder⟩ := h
  rw [hsplit] at haddresses hsites htally hsignalled hperformed horder
  have hchecks : (startChecking P s hc.address).checks =
      before ++ { hc with threadIndex := .runner (selectRunner P s.runners) } :: after := by
    rw [startChecking, hsplit, setThreadIndex_split hne]
  constructor <;> try rw [hchecks]
  case addresses => simpa using haddresses
  case sites => simpa [HealthCheck.site] using hsites
  case tally => exact tally_occupy htally (by simp [slot, hindex]) rfl hrunner
  case width => exact (List.length_modify _ _ _).trans hwidth
  case total => exact (congrArg (· + 1) htotal).trans (sum_modify hrunner 1).symm
  case signalled =>
    rw [announced, filter_middle (by simp)]
    exact (hsignalled.trans (addresses_middle (by simp [hindex]))).cons_inv
  case performed =>
    rw [started, filter_middle (by simp [slot, hindex])] at hperformed
    rw [started]
    refine (hperformed.append_right [hc.address]).trans ?_
    refine (List.perm_append_singleton _ _).trans (List.Perm.symm ?_)
    exact addresses_middle rfl
  case order =>
    rw [waiting, filter_middle (by simp [hindex])] at horder
    rw [waiting, filter_middle (by simp)]
    exact horder

theorem sameSite_iff {site : Int32 × String} {hc : HealthCheck} :
    sameSite site.1 site.2 hc = true ↔ hc.site = site := by
  simp [sameSite, HealthCheck.site, Prod.ext_iff]

theorem haveCheck_iff {checks : List HealthCheck} {hc : HealthCheck} :
    haveCheck checks hc.blogId hc.monitorUrl = true ↔
      hc.site ∈ checks.map HealthCheck.site := by
  simp [haveCheck, sameSite, HealthCheck.site]

theorem addCheck_cases (P : Settings) (s : State) (hc : HealthCheck) :
    (hc.site ∈ s.checks.map HealthCheck.site ∧ addCheck P s hc = s) ∨
    (hc.site ∉ s.checks.map HealthCheck.site ∧ s.checking < capacity P s ∧
      addCheck P s hc =
        { s with
          checks := s.checks ++ [{ hc with threadIndex := .preAssigned }]
          pending := s.pending ++ [hc.address]
          inserted := s.inserted ++ [hc]
          emitted := s.emitted ++ [hc] }) ∨
    (hc.site ∉ s.checks.map HealthCheck.site ∧ capacity P s ≤ s.checking ∧
      addCheck P s hc =
        { s with checks := s.checks ++ [hc], inserted := s.inserted ++ [hc] }) := by
  unfold addCheck
  by_cases hhave : hc.site ∈ s.checks.map HealthCheck.site
  · exact .inl ⟨hhave, if_pos (haveCheck_iff.mpr hhave)⟩
  · have hnot := mt haveCheck_iff.mp hhave
    rw [if_neg hnot]
    split
    · exact .inr (.inl ⟨hhave, ‹_›, rfl⟩)
    · exact .inr (.inr ⟨hhave, by omega, rfl⟩)

theorem nodup_append_singleton {α : Type*} {l : List α} {x : α} (h : l.Nodup) (hx : x ∉ l) :
    (l ++ [x]).Nodup := by
  rw [← List.concat_eq_append]
  exact h.concat hx

theorem addCheck_accounted {s : State} {hc : HealthCheck} (h : Accounted P s.pending s)
    (hfull : Full P s) (hnew : hc.threadIndex = .notAssigned)
    (haddress : hc.address ∉ s.checks.map HealthCheck.address) :
    Accounted P (addCheck P s hc).pending (addCheck P s hc) := by
  have haddresses := nodup_append_singleton h.addresses haddress
  have hslot : slot hc = none := by simp [slot, hnew]
  obtain ⟨-, hsame⟩ | ⟨hsite, hfree, hadd⟩ | ⟨hsite, -, hadd⟩ := addCheck_cases P s hc
  · rw [hsame]
    exact h
  · have hsites := nodup_append_singleton h.sites hsite
    have hnone : waiting s.checks = [] := by
      by_contra hwaiting
      exact absurd (hfull hwaiting) (by omega)
    have horder := h.order
    rw [hnone, List.append_nil] at horder
    rw [hadd]
    exact
      { addresses := by simpa using haddresses
        sites := by simpa [HealthCheck.site] using hsites
        tally := tally_append h.tally rfl
        width := h.width
        total := h.total
        signalled := by simpa [announced] using h.signalled.append_right [hc.address]
        performed := by simpa [started, slot] using h.performed
        order := by simpa [waiting, horder] using hnone }
  · have hsites := nodup_append_singleton h.sites hsite
    rw [hadd]
    exact
      { addresses := by simpa using haddresses
        sites := by simpa using hsites
        tally := tally_append h.tally hslot
        width := h.width
        total := h.total
        signalled := by simpa [announced, hnew] using h.signalled
        performed := by simpa [started, hslot] using h.performed
        order := by simp [waiting, h.order, hnew] }

theorem addCheck_full {s : State} {hc : HealthCheck} (h : Full P s) : Full P (addCheck P s hc) := by
  obtain ⟨-, hsame⟩ | ⟨-, -, hadd⟩ | ⟨-, hfull, hadd⟩ := addCheck_cases P s hc
  · rw [hsame]
    exact h
  · rw [hadd]
    intro hwaiting
    exact h (by simpa [waiting] using hwaiting)
  · rw [hadd]
    exact fun _ => hfull

theorem addCheck_addresses (P : Settings) (s : State) (hc : HealthCheck) :
    ∀ a ∈ (addCheck P s hc).checks.map HealthCheck.address,
      a ∈ s.checks.map HealthCheck.address ∨ a = hc.address := by
  obtain ⟨-, hsame⟩ | ⟨-, -, hadd⟩ | ⟨-, -, hadd⟩ := addCheck_cases P s hc
  · rw [hsame]
    exact fun a ha => .inl ha
  · rw [hadd]
    simp
  · rw [hadd]
    simp

theorem addChecks_accounted {hcs : List HealthCheck} {s : State} (h : Accounted P s.pending s)
    (hfull : Full P s) (hnodup : (hcs.map HealthCheck.address).Nodup)
    (hnew : ∀ hc ∈ hcs, hc.threadIndex = .notAssigned ∧
      hc.address ∉ s.checks.map HealthCheck.address) :
    Accounted P (addChecks P s hcs).pending (addChecks P s hcs) ∧ Full P (addChecks P s hcs) := by
  induction hcs generalizing s with
  | nil => exact ⟨h, hfull⟩
  | cons hc rest ih =>
    rw [List.map_cons, List.nodup_cons] at hnodup
    obtain ⟨hfirst, haddress⟩ := hnew hc List.mem_cons_self
    refine ih (addCheck_accounted h hfull hfirst haddress) (addCheck_full hfull) hnodup.2 ?_
    intro c hc'
    obtain ⟨hindex, hold⟩ := hnew c (List.mem_cons_of_mem _ hc')
    refine ⟨hindex, fun hmem => ?_⟩
    rcases addCheck_addresses P s hc _ hmem with hmem | heq
    · exact hold hmem
    · exact hnodup.1 (heq ▸ List.mem_map_of_mem hc')

theorem find_site {before after : List HealthCheck} {hc : HealthCheck}
    (h : ((before ++ hc :: after).map HealthCheck.site).Nodup) :
    (before ++ hc :: after).find? (sameSite hc.site.1 hc.site.2) = some hc ∧
      (before ++ hc :: after).eraseP (sameSite hc.site.1 hc.site.2) = before ++ after := by
  have hbefore : ∀ c ∈ before, ¬sameSite hc.site.1 hc.site.2 c = true := by
    intro c hc' hsame
    rw [List.map_append, List.nodup_append] at h
    exact h.2.2 _ (List.mem_map_of_mem hc') _ (List.mem_map_of_mem List.mem_cons_self)
      (sameSite_iff.mp hsame)
  have hself : sameSite hc.site.1 hc.site.2 hc = true := sameSite_iff.mpr rfl
  constructor
  · rw [List.find?_append, List.find?_eq_none.mpr hbefore, List.find?_cons_of_pos hself]
    rfl
  · rw [List.eraseP_append_right _ hbefore, List.eraseP_cons_of_pos hself]

theorem startWaiting_cases (P : Settings) (s : State) :
    ((waiting s.checks ≠ [] → capacity P s ≤ s.checking) ∧ startWaiting P s = s) ∨
    ∃ before hc after, s.checks = before ++ hc :: after ∧ waiting before = [] ∧
      hc.threadIndex = .notAssigned ∧ s.checking < capacity P s ∧
      startWaiting P s = startChecking P
        { s with
          checks := setThreadIndex hc.address .preAssigned s.checks
          emitted := s.emitted ++ [hc] }
        hc.address := by
  unfold startWaiting
  split
  case isFalse hfull => exact .inl ⟨fun _ => by omega, rfl⟩
  case isTrue hfree =>
    cases hfind : s.checks.find? fun hc => hc.threadIndex = .notAssigned with
    | none =>
      refine .inl ⟨fun hwaiting => ?_, rfl⟩
      exact absurd (List.filter_eq_nil_iff.mpr (List.find?_eq_none.mp hfind)) hwaiting
    | some hc =>
      obtain ⟨hindex, before, after, hsplit, hbefore⟩ := List.find?_eq_some_iff_append.mp hfind
      refine .inr ⟨before, hc, after, hsplit, ?_, by simpa using hindex, hfree, rfl⟩
      exact List.filter_eq_nil_iff.mpr fun c hc' => by simpa using hbefore c hc'

theorem startWaiting_accounted {signals : List ℕ} {s : State} (h : Accounted P signals s) :
    Accounted P signals (startWaiting P s) := by
  obtain ⟨-, hsame⟩ | ⟨before, hc, after, hsplit, hbefore, hindex, -, hstart⟩ :=
    startWaiting_cases P s
  · rw [hsame]
    exact h
  · rw [hstart]
    apply startChecking_accounted
    obtain ⟨haddresses, hsites, htally, hwidth, htotal, hsignalled, hperformed, horder⟩ := h
    rw [hsplit] at haddresses hsites htally hsignalled hperformed horder
    rw [hsplit, setThreadIndex_split (ne_of_nodup haddresses)]
    constructor
    case addresses => simpa using haddresses
    case sites => simpa [HealthCheck.site] using hsites
    case tally => exact tally_replace htally (by simp [slot, hindex])
    case width => exact hwidth
    case total => exact htotal
    case signalled =>
      rw [announced, filter_middle (by simp [hindex])] at hsignalled
      exact (hsignalled.cons hc.address).trans (List.Perm.symm (addresses_middle rfl))
    case performed =>
      rw [started, filter_middle (by simp [slot, hindex])] at hperformed
      rw [started, filter_middle (by simp [slot])]
      exact hperformed
    case order =>
      simp only [waiting, List.filter_append] at hbefore horder ⊢
      simpa [hbefore, hindex] using horder

theorem startWaiting_pending (P : Settings) (s : State) :
    (startWaiting P s).pending = s.pending := by
  obtain ⟨-, hsame⟩ | ⟨_, _, _, -, -, -, -, hstart⟩ := startWaiting_cases P s
  · rw [hsame]
  · rw [hstart]
    rfl

theorem waiting_setThreadIndex {address : ℕ} {t : ThreadIndex} (h : t ≠ .notAssigned)
    (checks : List HealthCheck) : waiting (setThreadIndex address t checks) ⊆ waiting checks := by
  intro c hc
  obtain ⟨hmem, hindex⟩ := List.mem_filter.mp hc
  obtain ⟨c₀, hmem₀, rfl⟩ := List.mem_map.mp hmem
  split at hindex
  · simp [h] at hindex
  · rename_i hne
    rw [if_neg hne]
    exact List.mem_filter.mpr ⟨hmem₀, hindex⟩

theorem startChecking_full {s : State} {address : ℕ}
    (h : waiting s.checks ≠ [] → capacity P s ≤ s.checking + 1) :
    Full P (startChecking P s address) := by
  intro hwaiting
  have hold : waiting s.checks ≠ [] := fun hnil =>
    hwaiting (List.eq_nil_of_subset_nil (hnil ▸ waiting_setThreadIndex (by simp) s.checks))
  have hcapacity : capacity P (startChecking P s address) = capacity P s := by
    simp [capacity, startChecking]
  rw [hcapacity]
  exact h hold

theorem startWaiting_full {s : State} (h : waiting s.checks ≠ [] → capacity P s ≤ s.checking + 1) :
    Full P (startWaiting P s) := by
  obtain ⟨hfull, hsame⟩ | ⟨before, hc, after, hsplit, -, hindex, -, hstart⟩ :=
    startWaiting_cases P s
  · rw [hsame]
    exact hfull
  · have hwaiting : waiting s.checks ≠ [] := by
      rw [hsplit]
      simp [waiting, hindex]
    rw [hstart]
    exact startChecking_full fun _ => h hwaiting

theorem performed_entry {signals : List ℕ} {s : State} {address : ℕ} (h : Accounted P signals s)
    (hrunning : address ∈ s.running) :
    ∃ before hc after i, s.checks = before ++ hc :: after ∧ hc.address = address ∧
      hc.threadIndex = .runner i ∧ i < s.runners.length := by
  obtain ⟨hc, hmem, rfl⟩ := List.mem_map.mp (h.performed.subset hrunning)
  obtain ⟨hmem, hslot⟩ := List.mem_filter.mp hmem
  obtain ⟨before, after, hsplit, -⟩ := split_of_mem h.addresses hmem
  cases hindex : hc.threadIndex with
  | notAssigned | preAssigned => simp [slot, hindex] at hslot
  | runner i =>
    exact ⟨before, hc, after, i, hsplit, rfl, hindex,
      h.tally.bounded hc hmem i (by simp [slot, hindex])⟩

theorem find_address {before after : List HealthCheck} {hc : HealthCheck}
    (h : ((before ++ hc :: after).map HealthCheck.address).Nodup) :
    (before ++ hc :: after).find? (fun c => c.address = hc.address) = some hc := by
  have hbefore : ∀ c ∈ before, ¬decide (c.address = hc.address) = true := fun c hc' => by
    simpa using ne_of_nodup h c (List.mem_append_left _ hc')
  rw [List.find?_append, List.find?_eq_none.mpr hbefore, List.find?_cons_of_pos (by simp)]
  rfl

def released (P : Settings) (s : State) (hc : HealthCheck) (i : ℕ) (rest : List HealthCheck)
    (result : Json ℤ) : State :=
  { s with
    running := s.running.erase hc.address
    checks := rest
    checkResults := addResult P s.checkResults hc.jetmonServer result
    runners := s.runners.modify i (· - 1)
    checking := s.checking - 1
    finished := s.finished ++ [(hc.jetmonServer, result)] }

section Release

variable {signals : List ℕ} {s : State} {before after : List HealthCheck} {hc : HealthCheck} {i : ℕ}

/-- What finishedChecking does for a check that is performed. -/
theorem finishedCheck_eq (h : Accounted P signals s) (hsplit : s.checks = before ++ hc :: after)
    (hindex : hc.threadIndex = .runner i) (status httpCode rtt : Int32) :
    finishedCheck P s hc.address status httpCode rtt =
      startWaiting P
        (released P s hc i (before ++ after) (arrResult hc.site status httpCode rtt)) := by
  have haddress := find_address (hsplit ▸ h.addresses)
  obtain ⟨hsite, herase⟩ := find_site (hsplit ▸ h.sites)
  rw [← hsplit] at haddress hsite herase
  unfold finishedCheck
  rw [haddress]
  unfold finishedChecking
  simp only [hsite, herase, hindex, decrement]
  rfl

theorem released_accounted (h : Accounted P signals s) (hsplit : s.checks = before ++ hc :: after)
    (hindex : hc.threadIndex = .runner i) (hi : i < s.runners.length) (result : Json ℤ) :
    Accounted P signals (released P s hc i (before ++ after) result) := by
  obtain ⟨haddresses, hsites, htally, hwidth, htotal, hsignalled, hperformed, horder⟩ := h
  rw [hsplit] at haddresses hsites htally hsignalled hperformed horder
  have hsub : (before ++ after).Sublist (before ++ hc :: after) :=
    (List.sublist_cons_self hc after).append_left before
  constructor
  case addresses => exact (hsub.map _).nodup haddresses
  case sites => exact (hsub.map _).nodup hsites
  case tally => exact tally_release htally (slot_eq_some.mpr hindex)
  case width => exact (List.length_modify _ _ _).trans hwidth
  case total =>
    have hsum := sum_modify hi (-1)
    simp only [← sub_eq_add_neg] at hsum
    rw [← htotal] at hsum
    exact hsum.symm
  case signalled =>
    rw [announced, filter_middle (by simp [hindex])] at hsignalled
    exact hsignalled
  case performed =>
    have hfront := hperformed.trans (addresses_middle (by simp [slot, hindex]))
    have herase := hfront.erase hc.address
    rwa [List.erase_cons_head] at herase
  case order =>
    rw [waiting, filter_middle (by simp [hindex])] at horder
    exact horder

end Release

theorem finishedCheck_accounted {s : State} {address : ℕ} (h : Accounted P s.pending s)
    (hfull : Full P s) (hrunning : address ∈ s.running) (status httpCode rtt : Int32) :
    Accounted P (finishedCheck P s address status httpCode rtt).pending
        (finishedCheck P s address status httpCode rtt) ∧
      Full P (finishedCheck P s address status httpCode rtt) := by
  obtain ⟨before, hc, after, i, hsplit, rfl, hindex, hi⟩ := performed_entry h hrunning
  rw [finishedCheck_eq h hsplit hindex, startWaiting_pending]
  constructor
  · exact startWaiting_accounted (released_accounted h hsplit hindex hi _)
  · apply startWaiting_full
    intro hwaiting
    have hold : waiting s.checks ≠ [] := by
      rw [hsplit, waiting, filter_middle (by simp [hindex])]
      exact hwaiting
    have hcapacity := hfull hold
    simp only [released, capacity, List.length_modify] at hcapacity ⊢
    omega

theorem initial_accounted (P : Settings) : Accounted P [] (initial P) where
  addresses := List.nodup_nil
  sites := List.nodup_nil
  tally := tally_start fun _ hc => List.eq_of_mem_replicate hc
  width := List.length_replicate
  total := by simp [initial]
  signalled := List.Perm.refl []
  performed := List.Perm.refl []
  order := rfl

theorem next_accounted {s : State} {e : Event} (h : Accounted P s.pending s) (hfull : Full P s)
    (he : Enabled s e) :
    Accounted P (next P s e).pending (next P s e) ∧ Full P (next P s e) := by
  cases e with
  | request hcs sentBefore =>
    obtain ⟨hadded, hfull'⟩ := addChecks_accounted h hfull he.2.1 he.2.2.1
    exact ⟨⟨hadded.addresses, hadded.sites, hadded.tally, hadded.width, hadded.total,
      hadded.signalled, hadded.performed, hadded.order⟩, hfull'⟩
  | startCheck address =>
    have hsignals : (address :: s.pending.erase address).Perm
        ((announced s.checks).map HealthCheck.address) :=
      (List.perm_cons_erase he).symm.trans h.signalled
    refine ⟨startChecking_accounted ⟨h.addresses, h.sites, h.tally, h.width, h.total, hsignals,
      h.performed, h.order⟩, startChecking_full fun hwaiting => ?_⟩
    exact (hfull hwaiting).trans (by simp)
  | finishedCheck address status httpCode rtt =>
    exact finishedCheck_accounted h hfull he status httpCode rtt
  | ticked =>
    exact ⟨⟨h.addresses, h.sites, h.tally, h.width, h.total, h.signalled, h.performed, h.order⟩,
      hfull⟩

theorem reachable_accounted {C : State → Event → Prop} {s : State}
    (hr : Reachable (controller P) C s) : Accounted P s.pending s ∧ Full P s := by
  apply reachable_invariant _ _ hr
  · rintro _ rfl
    exact ⟨initial_accounted P, fun hwaiting => absurd rfl hwaiting⟩
  · intro s e _ ⟨h, hfull⟩ he _
    exact next_accounted h hfull he

structure Balanced (P : Settings) (s : State) : Prop where
  distinct : (s.checks.map HealthCheck.site).Nodup
  counted : ∀ i (h : i < s.runners.length),
    s.runners[i] = s.checks.countP fun hc => hc.threadIndex = .runner i
  total : s.checking = s.runners.sum
  nonneg : 0 ≤ s.checking ∧ ∀ checking ∈ s.runners, 0 ≤ checking
  /-- The loop of finishedChecking finds the entry whose check has finished. -/
  removed : ∀ address ∈ s.running, ∃ hc ∈ s.checks, hc.address = address ∧
    s.checks.find? (sameSite hc.site.1 hc.site.2) = some hc ∧
    ∃ i < s.runners.length, hc.threadIndex = .runner i
  served : ∀ hc ∈ s.checks, hc.threadIndex = .notAssigned →
    (P.maxRunners * P.maxChecks : ℤ) ≤ s.checking + s.pending.length
  order : s.inserted = s.emitted ++ s.checks.filter fun hc => hc.threadIndex = .notAssigned

theorem checks_accounted (P : Settings) {s : State}
    (hr : Reachable (controller P) Unrestricted s) : Balanced P s := by
  obtain ⟨h, hfull⟩ := reachable_accounted hr
  have hnonneg := tally_nonneg h.tally
  exact
    { distinct := h.sites
      counted := fun i hi => by
        rw [h.tally.exact i hi]
        simp only [slot_eq_some]
      total := h.total
      nonneg := ⟨h.total ▸ List.sum_nonneg hnonneg, hnonneg⟩
      removed := by
        intro address hrunning
        obtain ⟨before, hc, after, i, hsplit, haddress, hindex, hi⟩ := performed_entry h hrunning
        have hsite := (find_site (hsplit ▸ h.sites)).1
        rw [← hsplit] at hsite
        exact ⟨hc, hsplit ▸ List.mem_append_right _ List.mem_cons_self, haddress, hsite, i, hi,
          hindex⟩
      served := by
        intro hc hmem hindex
        have hwaiting : waiting s.checks ≠ [] :=
          List.ne_nil_of_mem (List.mem_filter.mpr ⟨hmem, by simpa using hindex⟩)
        have hcapacity := hfull hwaiting
        rw [capacity, h.width] at hcapacity
        omega
      order := h.order }

def sampleSettings : Settings where
  maxRunners := 1
  maxChecks := 1
  authToken := "token"
  maxRunners_pos := Nat.one_pos
  maxChecks_pos := Nat.one_pos

def sampleCheck (address : ℕ) (blogId : Int32) : HealthCheck :=
  ⟨address, blogId, "http://example.com", "10.0.0.1", .notAssigned⟩

def sampleRun : List Event :=
  [.request [sampleCheck 0 1] 0, .startCheck 0, .request [sampleCheck 1 2, sampleCheck 2 3] 0,
    .finishedCheck 0 1 200 35]

theorem checks_accounted_sample :
    ((controller sampleSettings).exec (initial sampleSettings) sampleRun).running = [1] ∧
      Balanced sampleSettings
        ((controller sampleSettings).exec (initial sampleSettings) sampleRun) :=
  ⟨by decide, checks_accounted sampleSettings (exec_reachable (.start rfl) (by decide))⟩

end CheckAccounting
