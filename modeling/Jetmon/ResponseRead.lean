import Jetmon.Iteration
import Jetmon.RequestBuffer

/-! HTTP_Checker::get_response of the addon: the loop that selects on the socket and reads from
it, under the clock of the machine. The clock counts milliseconds; time( NULL ) gives seconds. -/
namespace ResponseRead

open RequestBuffer

/-- `time( NULL )`. -/
def seconds (now : ℕ) : ℕ := now / 1000

/-- One select on the socket, with the milliseconds that it takes, and the read where it shows
the socket as readable. An end of the stream or an error gives nothing. -/
inductive Round where
  | silent (waited : ℕ)
  | ready (waited : ℕ) (received : List ℕ) (took : ℕ)
  deriving DecidableEq, Repr

def Round.waited : Round → ℕ
  | .silent waited => waited
  | .ready waited _ _ => waited

def Round.length : Round → ℕ
  | .silent waited => waited
  | .ready waited _ took => waited + took

def Round.Ends : Round → Prop
  | .silent _ => False
  | .ready _ received _ => received = []

def Round.Silent : Round → Prop
  | .silent _ => True
  | .ready _ _ _ => False

instance (r : Round) : Decidable r.Ends :=
  match r with
  | .silent _ => isFalse id
  | .ready _ received _ => inferInstanceAs (Decidable (received = []))

instance (r : Round) : Decidable r.Silent :=
  match r with
  | .silent _ => isTrue trivial
  | .ready _ _ _ => isFalse id

/-- The locals of get_response, with the clock at each of its reads. -/
structure Reader where
  round : ℕ
  now : ℕ
  retVal : List ℕ
  reads : List ℕ
  deriving DecidableEq, Repr

/-- What `ret_val += m_buf` appends: the buffer is read as a C string. -/
def appended (received : List ℕ) : List ℕ :=
  if received.length < maxTcpBuffer then received.takeWhile (· ≠ 0) else []

variable (cutoff : ℕ) (rounds : ℕ → Round)

/-- One round. Both waits of get_response look at the clock only when the socket is silent, and
the loop over the reads goes on as long as they give something. -/
def readStep (r : Reader) : Reader ⊕ Reader :=
  match rounds r.round with
  | .silent waited =>
    let r := { r with round := r.round + 1, now := r.now + waited }
    if seconds r.now < cutoff then .inl r else .inr r
  | .ready waited received took =>
    let r :=
      { r with
        round := r.round + 1
        now := r.now + waited + took
        reads := r.reads ++ [r.now + waited] }
    if received = [] then .inr r else .inl { r with retVal := r.retVal ++ appended received }

def started (now : ℕ) : Reader := ⟨0, now, [], []⟩

def getResponse (fuel now : ℕ) : Option Reader :=
  Iteration.run (readStep cutoff rounds) fuel (started now)

def clock (now : ℕ) : ℕ → ℕ
  | 0 => now
  | i + 1 => clock now i + (rounds i).length

def checked (now i : ℕ) : ℕ := clock rounds now i + (rounds i).waited

def Past (ms : ℕ) : Prop := cutoff ≤ seconds ms

instance (ms : ℕ) : Decidable (Past cutoff ms) := inferInstanceAs (Decidable (_ ≤ _))

def Reader.late (r : Reader) : List ℕ := r.reads.filter (Past cutoff)

/-- The first select that returns at or past the cut-off, where no read has ended the loop
before. -/
structure Reaches (now m : ℕ) : Prop where
  past : Past cutoff (checked rounds now m)
  first : ∀ i < m, ¬Past cutoff (checked rounds now i)
  going : ∀ i < m, ¬(rounds i).Ends

/-- That round gives no data, or the one after it is silent. -/
def Quiet (m : ℕ) : Prop := (rounds m).Silent ∨ (rounds m).Ends ∨ (rounds (m + 1)).Silent

def Stops (now i : ℕ) : Prop :=
  (rounds i).Silent ∧ Past cutoff (checked rounds now i) ∨ (rounds i).Ends

instance (now i : ℕ) : Decidable (Stops cutoff rounds now i) := inferInstanceAs (Decidable (_ ∨ _))

structure At (now i : ℕ) (r : Reader) : Prop where
  round : r.round = i
  clock : r.now = clock rounds now i

variable {cutoff rounds} {now i : ℕ} {r r' : Reader}

theorem started_at : At rounds now 0 (started now) := ⟨rfl, rfl⟩

theorem readStep_spec (cutoff : ℕ) (h : At rounds now i r) :
    ∃ r', At rounds now (i + 1) r' ∧
      r'.reads = r.reads ++ (if (rounds i).Silent then [] else [checked rounds now i]) ∧
      readStep cutoff rounds r = if Stops cutoff rounds now i then .inr r' else .inl r' := by
  obtain ⟨rfl, hnow⟩ := h
  have hclock : ∀ waited, (rounds r.round).waited = waited →
      r.now + waited = checked rounds now r.round := by
    rintro waited rfl
    rw [checked, hnow]
  cases hround : rounds r.round with
  | silent waited =>
    have hlater := hclock waited (by rw [hround]; rfl)
    have hlength : clock rounds now (r.round + 1) = checked rounds now r.round := by
      rw [checked, clock, hround]
      rfl
    refine ⟨{ r with round := r.round + 1, now := r.now + waited }, ⟨rfl, ?_⟩, ?_, ?_⟩
    · exact hlater.trans hlength.symm
    · simp [Round.Silent]
    · simp only [readStep, hround, Stops, Past, hlater, Round.Silent, Round.Ends, true_and,
        or_false,
        ← not_lt, ite_not]
  | ready waited received took =>
    have hlater := hclock waited (by rw [hround]; rfl)
    have hlength : clock rounds now (r.round + 1) = checked rounds now r.round + took := by
      rw [checked, clock, hround]
      exact (add_assoc _ _ _).symm
    have hstops : Stops cutoff rounds now r.round ↔ received = [] := by
      simp only [Stops, hround, Round.Silent, Round.Ends, false_and, false_or]
    have hnext : ∀ text, At rounds now (r.round + 1) ⟨r.round + 1, r.now + waited + took, text,
        r.reads ++ [checked rounds now r.round]⟩ := by
      intro text
      refine ⟨rfl, ?_⟩
      rw [hlength, ← hlater]
    by_cases hempty : received = []
    · refine ⟨_, hnext r.retVal, by simp [Round.Silent], ?_⟩
      rw [if_pos (hstops.mpr hempty)]
      simp only [readStep, hround, if_pos hempty, hlater]
    · refine ⟨_, hnext (r.retVal ++ appended received), by simp [Round.Silent], ?_⟩
      rw [if_neg (mt hstops.mp hempty)]
      simp only [readStep, hround, if_neg hempty, hlater]

theorem late_step (cutoff : ℕ) {reads : List ℕ} (h : r'.reads = r.reads ++ reads) :
    r'.late cutoff = r.late cutoff ++ reads.filter (Past cutoff) := by
  rw [Reader.late, h, List.filter_append, Reader.late]

theorem checked_le_clock : checked rounds now i ≤ clock rounds now (i + 1) := by
  rw [checked, clock]
  cases rounds i with
  | silent waited => exact le_refl _
  | ready waited received took => exact Nat.add_le_add_left (Nat.le_add_right waited took) _

theorem Past.mono {ms ms' : ℕ} (h : Past cutoff ms) (hle : ms ≤ ms') : Past cutoff ms' :=
  le_trans h (Nat.div_le_div_right hle)

theorem Past.next (h : Past cutoff (checked rounds now i)) :
    Past cutoff (checked rounds now (i + 1)) :=
  h.mono (checked_le_clock.trans (Nat.le_add_right _ _))

theorem clock_le_checked : clock rounds now i ≤ checked rounds now i := Nat.le_add_right _ _

theorem returns_of_stops (h : At rounds now i r) (hs : Stops cutoff rounds now i) :
    ∃ r', Iteration.Returns (readStep cutoff rounds) r r' ∧ r'.late cutoff = r.late cutoff ++
      (if (rounds i).Silent then [] else [checked rounds now i]).filter (Past cutoff) := by
  obtain ⟨r', -, hreads, hstep⟩ := readStep_spec cutoff h
  rw [if_pos hs] at hstep
  exact ⟨r', .done hstep, late_step cutoff hreads⟩

/-- Behind the cut-off one more read is made where the rounds are quiet. -/
theorem returns_quiet {m : ℕ} (hm : Past cutoff (checked rounds now m)) (hq : Quiet rounds m)
    (h : At rounds now m r) (hlate : r.late cutoff = []) :
    ∃ r', Iteration.Returns (readStep cutoff rounds) r r' ∧ (r'.late cutoff).length ≤ 1 := by
  by_cases hs : Stops cutoff rounds now m
  · obtain ⟨r', hr, hreads⟩ := returns_of_stops h hs
    refine ⟨r', hr, ?_⟩
    rw [hreads, hlate, List.nil_append]
    refine (List.length_filter_le _ _).trans ?_
    split <;> simp
  · -- the round gives data, so the next one is silent
    have hnext : (rounds (m + 1)).Silent := by
      rcases hq with hsilent | hends | hnext
      · exact absurd (Or.inl ⟨hsilent, hm⟩) hs
      · exact absurd (Or.inr hends) hs
      · exact hnext
    obtain ⟨r₁, hat, hreads, hstep⟩ := readStep_spec cutoff h
    rw [if_neg hs] at hstep
    obtain ⟨r', hr, hreads'⟩ := returns_of_stops hat (Or.inl ⟨hnext, hm.next⟩)
    refine ⟨r', .more hstep hr, ?_⟩
    rw [hreads', if_pos hnext, late_step cutoff hreads, hlate, List.filter_nil, List.append_nil,
      List.nil_append]
    refine (List.length_filter_le _ _).trans ?_
    split <;> simp

/-- Up to the first select past the cut-off no read is late. -/
theorem returns_of_quiet {m : ℕ} (hm : Past cutoff (checked rounds now m))
    (hfirst : ∀ i < m, ¬Past cutoff (checked rounds now i))
    (hquiet : ∀ m, Reaches cutoff rounds now m → Quiet rounds m) (k : ℕ) :
    ∀ {i : ℕ} {r : Reader}, i + k = m → At rounds now i r → r.late cutoff = [] →
      (∀ j < i, ¬(rounds j).Ends) →
      ∃ r', Iteration.Returns (readStep cutoff rounds) r r' ∧ (r'.late cutoff).length ≤ 1 := by
  induction k with
  | zero =>
    rintro i r rfl h hlate hgoing
    exact returns_quiet hm (hquiet i ⟨hm, hfirst, hgoing⟩) h hlate
  | succ k ih =>
    intro i r hk h hlate hgoing
    have hnot := hfirst i (by omega)
    have hnone : (if (rounds i).Silent then [] else [checked rounds now i]).filter (Past cutoff) =
        [] := by
      split
      · rfl
      · exact List.filter_eq_nil_iff.mpr (by simpa using hnot)
    by_cases hs : Stops cutoff rounds now i
    · obtain ⟨r', hr, hreads⟩ := returns_of_stops h hs
      refine ⟨r', hr, ?_⟩
      rw [hreads, hlate, hnone]
      exact Nat.zero_le 1
    · obtain ⟨r₁, hat, hreads, hstep⟩ := readStep_spec cutoff h
      rw [if_neg hs] at hstep
      have hlate' : r₁.late cutoff = [] := by
        rw [late_step cutoff hreads, hlate, hnone]
        rfl
      have hgoing' : ∀ j < i + 1, ¬(rounds j).Ends := by
        intro j hj
        rcases Nat.lt_succ_iff_lt_or_eq.mp hj with hlt | rfl
        · exact hgoing j hlt
        · exact fun hends => hs (Or.inr hends)
      obtain ⟨r', hr, hone⟩ := ih (by omega) hat hlate' hgoing'
      exact ⟨r', .more hstep hr, hone⟩

theorem late_mono (hr : Iteration.Returns (readStep cutoff rounds) r r') (h : At rounds now i r) :
    (r.late cutoff).length ≤ (r'.late cutoff).length := by
  induction hr generalizing i with
  | done hstep =>
    obtain ⟨r₁, -, hreads, hspec⟩ := readStep_spec cutoff h
    rw [hstep] at hspec
    split at hspec
    · obtain rfl := Sum.inr.inj hspec
      rw [late_step cutoff hreads, List.length_append]
      exact Nat.le_add_right _ _
    · contradiction
  | more hstep _ ih =>
    obtain ⟨r₁, hat, hreads, hspec⟩ := readStep_spec cutoff h
    rw [hstep] at hspec
    split at hspec
    · contradiction
    · obtain rfl := Sum.inl.inj hspec
      refine le_trans ?_ (ih hat)
      rw [late_step cutoff hreads, List.length_append]
      exact Nat.le_add_right _ _

theorem late_read (hr : Iteration.Returns (readStep cutoff rounds) r r') (h : At rounds now i r)
    (hpast : Past cutoff (checked rounds now i)) (hread : ¬(rounds i).Silent) :
    (r.late cutoff).length + 1 ≤ (r'.late cutoff).length := by
  obtain ⟨r₁, hat, hreads, hspec⟩ := readStep_spec cutoff h
  have hlate := congrArg List.length (late_step cutoff hreads)
  rw [if_neg hread, List.filter_cons_of_pos (by simpa using hpast), List.length_append] at hlate
  by_cases hs : Stops cutoff rounds now i
  · rw [if_pos hs] at hspec
    rw [hr.of_done hspec, hlate]
    exact le_refl _
  · rw [if_neg hs] at hspec
    have hmono := late_mono (hr.of_more hspec) hat
    rw [hlate] at hmono
    exact hmono

theorem reaches_at {m : ℕ} (hm : Reaches cutoff rounds now m) (k : ℕ) :
    ∀ {i : ℕ} {r : Reader}, i + k = m → At rounds now i r →
      Iteration.Returns (readStep cutoff rounds) r r' →
      ∃ s, At rounds now m s ∧ Iteration.Returns (readStep cutoff rounds) s r' := by
  induction k with
  | zero =>
    rintro i r rfl h hr
    exact ⟨r, h, hr⟩
  | succ k ih =>
    intro i r hk h hr
    have hgoes : ¬Stops cutoff rounds now i := by
      rintro (⟨-, hpast⟩ | hends)
      · exact hm.first i (by omega) hpast
      · exact hm.going i (by omega) hends
    obtain ⟨r₁, hat, -, hstep⟩ := readStep_spec cutoff h
    rw [if_neg hgoes] at hstep
    exact ih (by omega) hat (hr.of_more hstep)

/-- With a clock that passes the cut-off, get_response returns after at most one late read if and
only if the first round past the cut-off, where the stream has not ended before, gives no data or
is followed by a silent one. -/
theorem response_ends_iff (cutoff : ℕ) (rounds : ℕ → Round) (now : ℕ)
    (hclock : ∃ i, Past cutoff (clock rounds now i)) :
    (∃ fuel r, getResponse cutoff rounds fuel now = some r ∧ (r.late cutoff).length ≤ 1) ↔
      ∀ m, Reaches cutoff rounds now m → Quiet rounds m := by
  constructor
  · rintro ⟨fuel, r, hrun, hone⟩ m hm
    obtain ⟨s, hat, hr⟩ :=
      reaches_at hm m (Nat.zero_add m) started_at (Iteration.returns_of_run hrun)
    by_contra hquiet
    rw [Quiet, not_or, not_or] at hquiet
    obtain ⟨hread, hends, hread'⟩ := hquiet
    have hgoes : ¬Stops cutoff rounds now m := by
      rintro (⟨hsilent, -⟩ | h)
      · exact hread hsilent
      · exact hends h
    obtain ⟨s', hat', hreads, hstep⟩ := readStep_spec cutoff hat
    rw [if_neg hgoes] at hstep
    -- both reads, that of the round and that of the next one, are late
    have hlate := congrArg List.length (late_step cutoff hreads)
    rw [if_neg hread, List.filter_cons_of_pos (by simpa using hm.past), List.length_append] at hlate
    have hnext := late_read (hr.of_more hstep) hat' hm.past.next hread'
    simp only [List.filter_nil, List.length_singleton] at hlate
    omega
  · intro hquiet
    have hpast : ∃ i, Past cutoff (checked rounds now i) := by
      obtain ⟨i, hi⟩ := hclock
      exact ⟨i, hi.mono clock_le_checked⟩
    obtain ⟨r, hr, hone⟩ :=
      returns_of_quiet (Nat.find_spec hpast) (fun i hi => Nat.find_min hpast hi)
      hquiet (Nat.find hpast) (Nat.zero_add _) started_at rfl nofun
    obtain ⟨fuel, hrun⟩ := Iteration.returns_iff_run.mp hr
    exact ⟨fuel, r, hrun, hone⟩

def silence (_ : ℕ) : Round := .silent 500

/-- A peer that never stops sending data, with pauses shorter than the select waits. -/
def stream (_ : ℕ) : Round := .ready 400 [65] 0

theorem clock_linear {peer : ℕ → Round} (ms : ℕ) (h : ∀ i, (peer i).length = ms) (now : ℕ) :
    ∀ i, clock peer now i = now + i * ms
  | 0 => by rw [clock, Nat.zero_mul, Nat.add_zero]
  | i + 1 => by rw [clock, clock_linear ms h now i, h, Nat.succ_mul, Nat.add_assoc]

theorem response_ends_silence :
    ∃ fuel r, getResponse 20 silence fuel 0 = some r ∧ (r.late 20).length ≤ 1 := by
  have hclock : ∃ i, Past 20 (clock silence 0 i) := by
    refine ⟨40, ?_⟩
    rw [clock_linear 500 (fun _ => rfl)]
    decide
  exact (response_ends_iff 20 silence 0 hclock).mpr fun m _ => Or.inl trivial

/-- The loop over the reads does not look at the clock. -/
theorem endless_stream_never_ends : ¬∀ (rounds : ℕ → Round) (now : ℕ),
    (∃ i, Past 20 (clock rounds now i)) →
      ∃ fuel r, getResponse 20 rounds fuel now = some r ∧ (r.late 20).length ≤ 1 := by
  intro h
  have hclock : ∃ i, Past 20 (clock stream 0 i) := by
    refine ⟨50, ?_⟩
    rw [clock_linear 400 (fun _ => rfl)]
    decide
  obtain ⟨fuel, r, hrun, -⟩ := h stream 0 hclock
  have hgoes : ∀ s : Reader, True → ∃ s', readStep 20 stream s = .inl s' ∧ True :=
    fun s _ => ⟨_, rfl, trivial⟩
  exact Iteration.not_returns hgoes trivial r (Iteration.returns_of_run hrun)

end ResponseRead
