import Jetmon.RoundEnd
import Jetmon.WorkHandshake

/-! What the end of a round says about the workers. The master counts a worker as free from
its request for work on, and the request may be read before the worker is done, or while
the batches are still being fetched. -/
namespace RoundReport

open SiteModel
open TransitionSystem
open MasterState
open MasterDispatch
open MasterFrames
open MasterChannels
open WorkerState
open WorkerQueue
open WorkerFlags
open SystemModel
open WorkHandshake
open RoundEnd

variable {p : Pid} {s : System} {e : SystemModel.Event}

/-- A call of maybeEndRound in the step sets inRound to false. -/
def Declares (s : System) : SystemModel.Event → Prop
  | .master e _ => EndsRound s.master e
  | .hear p => ∃ msg ∈ (s.toMaster p).head?, EndsRound s.master (.message p msg)
  | .deliver _ _ _ | .worker _ _ | .crash _ _ => False

/-- The round is over: nothing is left to be fetched, assigned, delivered or checked. -/
structure RoundOver (s : System) : Prop where
  reported : s.master.inRound = false
  completed : s.master.endOfRound = true
  answered : s.master.queries = []
  assigned : s.master.arrObjects = []
  delivered : ∀ p, work s.master p = []
  checked : ∀ p x, s.processes p = some x → x.code = none →
    x.worker.arrCheck.drop x.worker.pointer = [] ∧ x.worker.outstanding = []

def Busy (x : Process) : Prop := x.code = none ∧ x.worker.running = true

instance (x : Process) : Decidable (Busy x) := by
  unfold Busy
  infer_instance

def Spent (s : System) (p : Pid) : Prop :=
  work s.master p = [] ∧ ∃ x ∈ s.processes p, ¬Busy x

/-- The request finds every other worker free while the fetch loop is in a round. -/
def LastBusy (m : Master) (p : Pid) : Prop :=
  (m.inRound = true ∨ m.gettingSites = false) ∧ ∀ q ∈ m.arrWorkers, q = p ∨ q ∈ m.freeWorkers

def Fetched (m : Master) : Prop := m.endOfRound = true ∧ m.queries.length = 0

/-- Where a request for work finds nothing queued, the worker is done, and if it was the
last one that is not free, so is the fetch loop. No message of a worker whose exit was seen
meets the test of maybeEndRound. -/
def Timely (s : System) (p : Pid) : ToMaster → Prop
  | .sendWork => ¬Crowded s.master → s.master.arrObjects.length = 0 →
      Spent s p ∧ (LastBusy s.master p → Fetched s.master)
  | .stopWork => (s.processes p).isNone = true → ¬Ending s.master
  | _ => True

def Punctual (s : System) : SystemModel.Event → Prop
  | .hear p => ∀ msg ∈ (s.toMaster p).head?, Timely s p msg
  | _ => True

/-- What the report itself needs: a worker may ask while it is busy, and is done when the last
one asks. -/
def Prepared (s : System) (p : Pid) : ToMaster → Prop
  | .sendWork => ¬Crowded s.master → s.master.arrObjects.length = 0 →
      work s.master p = [] ∧ (s.processes p).isSome = true ∧
        (LastBusy s.master p → Fetched s.master ∧
          ∀ q, q = p ∨ q ∈ s.master.freeWorkers → ∀ x, s.processes q = some x → ¬Busy x)
  | .stopWork => (s.processes p).isNone = true → ¬Ending s.master
  | _ => True

def Patient (s : System) : SystemModel.Event → Prop
  | .hear p => ∀ msg ∈ (s.toMaster p).head?, Prepared s p msg
  | _ => True

def SameRound (_ : System) : SystemModel.Event → Prop
  | .master e _ => ¬Begins e
  | _ => True

theorem handle_running {w : Worker} {we : WorkerState.Event} (hst : Status w)
    (he : WorkerState.Enabled w we) (hadd : ∀ payload, we ≠ .queueAdd payload)
    (hrun : w.running = false) : (WorkerState.handle w we).1.running = false := by
  cases we with
  | queueAdd payload => exact absurd rfl (hadd payload)
  | evaporate =>
    simp only [WorkerState.handle]
    split <;> exact hrun
  | checkTimer now =>
    have hflags := startChecks_flags now (min (w.pointer + w.config.numToProcess)
      w.arrCheck.length - w.pointer) { w with checkTimers := w.checkTimers - 1 }
    exact (congrArg Flags.running hflags).trans hrun
  | complete k now res =>
    -- an idle worker has no outstanding check
    have ho := List.getElem_mem he.2
    have hbusy := (running_of_outstanding (hst.1 he.1) ho).1
    rw [hrun] at hbusy
    contradiction
  | configUpdate | startup | totalsTick | statsTick => exact hrun

structure Resting (s : System) : Prop where
  calm : Calm s.master
  idle : ∀ p ∈ s.master.freeWorkers, ∀ x, s.processes p = some x → ¬Busy x

theorem listed_of_process (hr : Roster s) {x : Process} (hx : s.processes p = some x) :
    p ∈ s.master.arrWorkers := by
  have hc := ((hr p).listed x hx).2
  exact List.count_pos_iff.mp (by omega)

def Asks (s : System) (e : SystemModel.Event) (p : Pid) : Prop :=
  e = .hear p ∧ (∃ rest, s.toMaster p = .sendWork :: rest) ∧ ¬Crowded s.master ∧
    s.master.arrObjects = []

theorem Asks.prepared (h : Asks s e p) (hc : Patient s e) : Prepared s p .sendWork := by
  obtain ⟨rfl, ⟨rest, hread⟩, -, -⟩ := h
  exact hc .sendWork (by rw [hread]; exact rfl)

theorem Asks.spent (h : Asks s e p) (hc : Punctual s e) : Spent s p := by
  obtain ⟨rfl, ⟨rest, hread⟩, hcr, ha⟩ := h
  have htimely : Timely s p .sendWork := hc .sendWork (by rw [hread]; exact rfl)
  exact (htimely hcr (by rw [ha]; rfl)).1

theorem step_calm (hr : Roster s) (hset : Settled s.master) (h : Calm s.master)
    (he : SystemModel.Enabled s e) (hc : Patient s e) : Calm (SystemModel.next s e).master ∧
      ∀ p ∈ (SystemModel.next s e).master.freeWorkers, p ∈ s.master.freeWorkers ∨ Asks s e p := by
  cases e with
  | master me launch =>
    have hmsg : ∀ q, me ≠ .message q .sendWork := by
      rintro q rfl
      exact he.2.1
    obtain ⟨hcalm, hsub⟩ := handle_calm h hset fun q hq => absurd hq (hmsg q)
    exact ⟨hcalm, fun p hp => (hsub p hp).imp_right fun hn => absurd hn.1 (hmsg p)⟩
  | hear q =>
    simp only [SystemModel.next, System.hear]
    split
    · exact ⟨h, fun p hp => Or.inl hp⟩
    · rename_i msg rest hread
      have hasks : msg = .sendWork → ¬Crowded s.master → s.master.arrObjects = [] →
          Asks s (.hear q) q := by
        rintro rfl hcr ha
        exact ⟨rfl, ⟨rest, hread⟩, hcr, ha⟩
      obtain ⟨hcalm, hsub⟩ := handle_calm (e := .message q msg) h hset (by
        intro q' hq hcr ha
        injection hq with hq hmsg
        subst hq
        obtain ⟨hw, hx, -⟩ := (hasks hmsg hcr ha).prepared hc hcr (by rw [ha]; rfl)
        obtain ⟨x, hx⟩ := Option.isSome_iff_exists.mp hx
        exact ⟨listed_of_process hr hx, hw⟩)
      refine ⟨hcalm, fun p hp => (hsub p hp).imp_right ?_⟩
      rintro ⟨hq, hcr, ha⟩
      injection hq with hq hmsg
      subst hq
      exact hasks hmsg hcr ha
  | deliver q cfg seed =>
    have hread : Calm (s.read q).master := by
      refine h.shrink (List.Sublist.refl _) (fun _ _ hl => hl) (fun _ _ hh => hh) fun p hp => ?_
      have hidle := h.idle p hp
      apply Or.inr
      rw [work, List.filter_eq_nil_iff] at hidle ⊢
      intro msg hm
      simp only [System.read] at hm
      split at hm
      · exact hidle msg (List.mem_of_mem_tail hm)
      · exact hidle msg hm
    simp only [SystemModel.next]
    split
    · exact ⟨h, fun p hp => Or.inl hp⟩
    · rw [act_master]
      exact ⟨hread, fun p hp => Or.inl hp⟩
  | worker q we =>
    have hm : (SystemModel.next s (.worker q we)).master = s.master := act_master q we s
    rw [hm]
    exact ⟨h, fun p hp => Or.inl hp⟩
  | crash q code => exact ⟨h, fun p hp => Or.inl hp⟩

theorem Resting.patient (h : Resting s) (hc : Punctual s e) : Patient s e := by
  cases e with
  | hear p =>
    intro msg hmsg
    have htimely := hc msg hmsg
    cases msg with
    | sendWork =>
      intro hcr ha
      obtain ⟨⟨hw, x, hx, hidle⟩, hlast⟩ := htimely hcr ha
      refine ⟨hw, Option.isSome_iff_exists.mpr ⟨x, hx⟩, fun hl => ⟨hlast hl, ?_⟩⟩
      rintro q (rfl | hq) y hy
      · obtain rfl : x = y := Option.some.inj (hx.symm.trans hy)
        exact hidle
      · exact h.idle q hq y hy
    | stopWork => exact htimely
    | totals | recheck | notifyStatusChange | notifyStillDown | stats => exact htimely
  | master | deliver | worker | crash => trivial

theorem Resting.boot (cfg : Config) (now : ℤ) : Resting (System.boot cfg now) :=
  ⟨.none rfl, fun _ hp => absurd hp List.not_mem_nil⟩

theorem step_resting (hr : Reachable SystemModel.machine Unrestricted s) (h : Resting s)
    (he : SystemModel.Enabled s e) (hc : Punctual s e) : Resting (SystemModel.next s e) := by
  have hroster := reachable_roster hr
  obtain ⟨hcalm, hasks⟩ := step_calm hroster (reachable_settled hr) h.calm he (h.patient hc)
  have hsub : ∀ p ∈ (SystemModel.next s e).master.freeWorkers,
      p ∈ s.master.freeWorkers ∨ Spent s p :=
    fun p hp => (hasks p hp).imp_right fun hnew => hnew.spent hc
  refine ⟨hcalm, fun p hp y hy => ?_⟩
  have hold : ∀ x, s.processes p = some x → ¬Busy x := by
    intro x hx
    rcases hsub p hp with hf | ⟨_, x', hx', hb⟩
    · exact h.idle p hf x hx
    · obtain rfl : x' = x := Option.some.inj (Eq.symm hx' ▸ hx)
      exact hb
  have hwork : work s.master p = [] := (hsub p hp).elim (h.calm.idle p) fun hsp => hsp.1
  -- the worker runs a handler that brings no work
  have hacted : ∀ {x we}, s.processes p = some x → x.killed = none →
      Acted p s x we (SystemModel.next s e) → (∀ payload, we ≠ .queueAdd payload) → ¬Busy y := by
    intro x we hx hk ha hadd hb
    obtain rfl := Option.some.inj (ha.worker.symm.trans hy)
    have hexit : x.worker.exit = none := by
      have hen := ha.enabled
      cases we <;> first | exact hen | exact hen.1
    have hrun : x.worker.running = false := by
      by_contra hrun
      refine hold x hx ⟨?_, by simpa using hrun⟩
      rw [Process.code, hk, hexit]
      rfl
    have hst := reachable_status (worker_reachable hr hx)
    have hstill := handle_running hst ha.enabled hadd hrun
    exact absurd (hb.2.symm.trans hstill) (by decide)
  cases next_seen hroster he p with
  | aside hx => exact hold y (hx.symm.trans hy)
  | heard _ _ hx => exact hold y (hx.symm.trans hy)
  | stopped _ hx => exact hold y (hx.symm.trans hy)
  | @read x msg cfg seed hx hk hpipe ha hm =>
    apply hacted hx hk ha
    intro payload hadd
    have hmsg : msg = .queueAdd payload := by
      cases msg with
      | queueAdd payload' => exact congrArg ToWorker.queueAdd (by injection hadd)
      | evaporate | configUpdate => contradiction
    rw [work, hpipe, hmsg] at hwork
    contradiction
  | @own x we _ hx hk hown ha =>
    apply hacted hx hk ha
    rintro payload rfl
    exact hown
  | killed _ hx _ hx' =>
    obtain rfl := Option.some.inj (hx'.symm.trans hy)
    intro hb
    exact absurd hb.1 (by simp [Process.code])
  | born _ hnone _ hx =>
    rcases hsub p hp with hf | ⟨_, x, hx', _⟩
    · exact absurd (h.calm.listed p hf) ((hroster p).gone hnone).listed
    · rw [hnone] at hx'
      contradiction
  | left _ _ hx => exact absurd (hx.symm.trans hy) (Option.some_ne_none y).symm

theorem reachable_resting (hr : Reachable SystemModel.machine Punctual s) : Resting s := by
  refine reachable_invariant (I := Resting) ?_ ?_ hr
  · rintro s ⟨cfg, now, rfl⟩
    exact .boot cfg now
  · intro s e hr h he hc
    exact step_resting (reachable_mono (fun _ _ _ => trivial) hr) h he hc

theorem reachable_patient (hr : Reachable SystemModel.machine Punctual s) :
    Reachable SystemModel.machine Patient s := by
  induction hr with
  | start h => exact .start h
  | step hr he hc ih => exact .step ih he ((reachable_resting hr).patient hc)

theorem reachable_calm (hr : Reachable SystemModel.machine Patient s) : Calm s.master := by
  refine reachable_invariant (I := fun s => Calm s.master) ?_ ?_ hr
  · rintro s ⟨cfg, now, rfl⟩
    exact (Resting.boot cfg now).calm
  · intro s e hr h he hc
    have hany : Reachable SystemModel.machine Unrestricted s :=
      reachable_mono (fun _ _ _ => trivial) hr
    exact (step_calm (reachable_roster hany) (reachable_settled hany) h he hc).1

theorem Resting.over (h : Resting s) (hr : Reachable SystemModel.machine Unrestricted s)
    (hreport : s.master.inRound = false) (hfetched : Fetched s.master)
    (ha : s.master.arrObjects = []) (hfree : ∀ p ∈ s.master.arrWorkers, p ∈ s.master.freeWorkers) :
    RoundOver s := by
  have hroster := reachable_roster hr
  refine ⟨hreport, hfetched.1, List.length_eq_zero_iff.mp hfetched.2, ha, fun p => ?_,
    fun p x hx hcode => ?_⟩
  · by_cases hp : p ∈ s.master.arrWorkers
    · exact h.calm.idle p (hfree p hp)
    · cases hx : s.processes p with
      | none => rw [work, ((hroster p).gone hx).pipe]; rfl
      | some x => exact absurd (listed_of_process hroster hx) hp
  · have hfree := hfree p (listed_of_process hroster hx)
    have hrun : x.worker.running = false := by
      by_contra hrun
      exact h.idle p hfree x hx ⟨hcode, by simpa using hrun⟩
    have hexit : x.worker.exit = none := by
      rw [Process.code, Option.or_eq_none_iff] at hcode
      exact hcode.2
    have hinv := (reachable_status (worker_reachable hr hx)).1 hexit
    have hcheck := (hinv.idle hrun).1
    refine ⟨by rw [hcheck, List.drop_nil], ?_⟩
    rw [List.eq_nil_iff_forall_not_mem]
    intro o ho
    exact absurd ((running_of_outstanding hinv ho).1.symm.trans hrun) (by decide)

/-- The only event that ends a round is the request of the last worker that was not free, and
then the fetch loop and the workers are done. -/
theorem declares_request (h : Calm s.master) (hr : Roster s) (he : SystemModel.Enabled s e)
    (hc : Patient s e) (hd : Declares s e) : ∃ p rest, e = .hear p ∧
      s.toMaster p = .sendWork :: rest ∧ sendWorkEnds p s.master ∧ Fetched s.master ∧
      ∀ q, q = p ∨ q ∈ s.master.freeWorkers → ∀ x, s.processes q = some x → ¬Busy x := by
  cases e with
  | master me launch =>
    obtain ⟨p, msg, rfl⟩ := endsRound_message h hd
    exact he.2.1.elim
  | hear p =>
    obtain ⟨msg, hmsg, hend⟩ := hd
    have hprepared := hc msg hmsg
    obtain ⟨rest, hread⟩ : ∃ rest, s.toMaster p = msg :: rest := List.head?_eq_some_iff.mp hmsg
    cases msg with
    | sendWork =>
      obtain ⟨hw, hx, hlast⟩ := hprepared hend.1 (by rw [hend.2.1]; rfl)
      obtain ⟨x, hx⟩ := Option.isSome_iff_exists.mp hx
      have hothers := sendWorkEnds_last h (fun _ _ => ⟨listed_of_process hr hx, hw⟩) hend
      exact ⟨p, rest, rfl, hread, hend, hlast ⟨sendWorkEnds_inRound hend, hothers⟩⟩
    | stopWork =>
      cases hx : s.processes p with
      | none =>
        have hunknown : ¬Known s.master p := fun hk => ((hr p).gone hx).listed hk.2
        have hhalt : s.master.halt p = s.master := by
          rcases halt_cases p s.master with ⟨hk, _⟩ | ⟨_, he⟩
          · exact absurd hk hunknown
          · exact he
        have hnot := hprepared (by rw [hx]; rfl)
        exact absurd (hhalt ▸ hend) hnot
      | some x =>
        have hk : Known s.master p := ⟨((hr p).listed x hx).1, listed_of_process hr hx⟩
        exact absurd hend (halt_not_ending h hk)
    | totals | recheck | notifyStatusChange | notifyStillDown | stats => exact hend.elim
  | deliver | worker | crash => exact hd.elim

theorem next_hear {msg : ToMaster} {rest : List ToMaster} (hread : s.toMaster p = msg :: rest) :
    (SystemModel.next s (.hear p)).master = MasterState.handle s.master (.message p msg) := by
  simp only [SystemModel.next, System.hear, hread]

/-- Within a round, the fetch loop stays as it was when the round was reported. -/
theorem step_reported (h : Reported s.master) (he : SystemModel.Enabled s e)
    (hsame : SameRound s e) : Reported (SystemModel.next s e).master ∧ ¬Declares s e := by
  cases e with
  | master me launch => exact handle_reported h he.1 hsame
  | hear p =>
    cases hread : s.toMaster p with
    | nil =>
      have hlen : 0 < (s.toMaster p).length := he
      rw [hread] at hlen
      exact absurd hlen (Nat.lt_irrefl 0)
    | cons msg rest =>
      obtain ⟨hr, hnot⟩ := handle_reported (e := .message p msg) h trivial fun hb => hb
      rw [next_hear hread]
      refine ⟨hr, ?_⟩
      rintro ⟨msg', hmsg, hend⟩
      obtain rfl : msg = msg' := by simpa [hread] using hmsg
      exact hnot hend
  | deliver p cfg seed =>
    refine ⟨?_, fun hd => hd⟩
    simp only [SystemModel.next]
    split
    · exact h
    · rw [act_master]
      exact h.congr rfl rfl
  | worker p we =>
    have hm : (SystemModel.next s (.worker p we)).master = s.master := act_master p we s
    rw [hm]
    exact ⟨h, fun hd => hd⟩
  | crash p code => exact ⟨h, fun hd => hd⟩

theorem reported_once {es : List SystemModel.Event} : ∀ {s : System}, Reported s.master →
    SystemModel.machine.Valid SameRound s es →
    SystemModel.machine.Valid (fun s e => ¬Declares s e) s es := by
  induction es with
  | nil => exact fun _ _ => trivial
  | cons e rest ih =>
    intro s h hv
    obtain ⟨⟨he, hsame⟩, hv⟩ := hv
    obtain ⟨hnext, hnot⟩ := step_reported h he hsame
    exact ⟨⟨he, hnot⟩, ih hnext hv⟩

/-- A round whose end is reported is over, and its end is not reported again, also where workers
asked for work before they were done. -/
theorem reported_over (hr : Reachable SystemModel.machine Patient s)
    (he : SystemModel.Enabled s e) (hc : Patient s e) (hd : Declares s e) :
    RoundOver (SystemModel.next s e) ∧
      ∀ es, SystemModel.machine.Valid SameRound (SystemModel.next s e) es →
        SystemModel.machine.Valid (fun s e => ¬Declares s e) (SystemModel.next s e) es := by
  have hcalm := reachable_calm hr
  have hany : Reachable SystemModel.machine Unrestricted s :=
    reachable_mono (fun _ _ _ => trivial) hr
  have hroster := reachable_roster hany
  obtain ⟨hnext, hsub⟩ := step_calm hroster (reachable_settled hany) hcalm he hc
  obtain ⟨p, rest, rfl, hread, hend, hfetched, hidle⟩ := declares_request hcalm hroster he hc hd
  obtain ⟨hrep, hround, ha, hlen⟩ :=
    sendWorkEnds_after hend hfetched.1 (List.length_eq_zero_iff.mp hfetched.2)
  have hm : (SystemModel.next s (.hear p)).master = s.master.sendWork p := next_hear hread
  have hresting : Resting (SystemModel.next s (.hear p)) := by
    refine ⟨hnext, fun q hq x hx => ?_⟩
    have hsame : (SystemModel.next s (.hear p)).processes = s.processes := by
      simp only [SystemModel.next, System.hear, hread]
    rw [hsame] at hx
    refine hidle q ?_ x hx
    obtain hq | ⟨hasks, -⟩ := hsub q hq
    · exact .inr hq
    · injection hasks with hpq
      exact .inl hpq.symm
  have hany' : Reachable SystemModel.machine Unrestricted
      (SystemModel.machine.next s (.hear p)) := .step hany he trivial
  refine ⟨hresting.over hany' ?_ ?_ ?_ ?_, fun es => reported_once ?_⟩
  · exact hm ▸ hrep.inRound
  · exact hm ▸ ⟨hround, List.length_eq_zero_iff.mpr hrep.queries⟩
  · exact hm ▸ ha
  · exact hnext.all_free (hm ▸ hlen)
  · exact hm ▸ hrep

/-- In a run without untimely requests, a round whose end is reported is over, and its end is
not reported again. -/
theorem round_reported_truthfully (hr : Reachable SystemModel.machine Punctual s)
    (he : SystemModel.Enabled s e) (hc : Punctual s e) (hd : Declares s e) :
    RoundOver (SystemModel.next s e) ∧
      ∀ es, SystemModel.machine.Valid SameRound (SystemModel.next s e) es →
        SystemModel.machine.Valid (fun s e => ¬Declares s e) (SystemModel.next s e) es :=
  reported_over (reachable_patient hr) he ((reachable_resting hr).patient hc) hd

def oneBatch : Config := { sampleConfig with numWorkers := 2, bucketNoMax := 32 }

def startOf (cfg : Config) : Pid → Launch := fun _ => ⟨cfg, "jetmon", 0⟩

def oneSiteRound : List SystemModel.Event :=
  [.master (.ensureWorkerCount [7, 8]) (startOf oneBatch), .worker 7 .startup, .hear 7,
    .master (.queryDone 0 (.rows [⟨1, "http://example.com", .running, none⟩])) (startOf oneBatch),
    .worker 8 .startup, .hear 8, .deliver 7 oneBatch 0, .worker 7 (.checkTimer 0),
    .worker 7 (.complete 0 0 ⟨1200, 200, 0, 0⟩)]

instance (s : System) (p : Pid) : Decidable (Spent s p) := by
  unfold Spent
  infer_instance

instance (m : Master) (p : Pid) : Decidable (LastBusy m p) := by
  unfold LastBusy
  infer_instance

instance (m : Master) : Decidable (Fetched m) := by
  unfold Fetched
  infer_instance

instance (s : System) (p : Pid) : (msg : ToMaster) → Decidable (Timely s p msg)
  | .sendWork => inferInstanceAs (Decidable (_ → _ → _))
  | .stopWork => inferInstanceAs (Decidable (_ → _))
  | .totals _ | .recheck _ | .notifyStatusChange _ | .notifyStillDown _ | .stats _ _ =>
    .isTrue trivial

instance (s : System) : (e : SystemModel.Event) → Decidable (Punctual s e)
  | .hear p => inferInstanceAs (Decidable (∀ msg ∈ (s.toMaster p).head?, Timely s p msg))
  | .master _ _ | .deliver _ _ _ | .worker _ _ | .crash _ _ => .isTrue trivial

theorem round_reported_truthfully_one_site :
    let s := SystemModel.machine.exec (System.boot oneBatch 0) oneSiteRound
    RoundOver (SystemModel.next s (.hear 7)) ∧
      ∀ es, SystemModel.machine.Valid SameRound (SystemModel.next s (.hear 7)) es →
        SystemModel.machine.Valid (fun s e => ¬Declares s e) (SystemModel.next s (.hear 7)) es :=
  have hends : sendWorkEnds 7
      (SystemModel.machine.exec (System.boot oneBatch 0) oneSiteRound).master := by decide
  round_reported_truthfully (exec_reachable (.start ⟨_, _, rfl⟩) (by decide)) (by decide)
    (by decide) ⟨.sendWork, rfl, hends⟩

/-- With one worker, its first request ends the round for which it starts the first query. -/
theorem first_request_ends_round :
    ¬∀ s e, Reachable SystemModel.machine Unrestricted s → SystemModel.Enabled s e →
      Declares s e → RoundOver (SystemModel.next s e) := by
  intro h
  let cfg := { sampleConfig with numWorkers := 1 }
  let s := SystemModel.machine.exec (System.boot cfg 0)
    [.master (.ensureWorkerCount [7]) (startOf cfg), .worker 7 .startup]
  have hr : Reachable SystemModel.machine Unrestricted s :=
    exec_reachable (.start ⟨_, _, rfl⟩) (by decide)
  have hends : sendWorkEnds 7 s.master := by decide
  have hover := h s (.hear 7) hr (by decide) ⟨.sendWork, rfl, hends⟩
  exact absurd hover.completed (by decide)

end RoundReport
