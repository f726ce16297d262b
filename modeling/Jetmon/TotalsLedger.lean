import Jetmon.VoluntaryExit
import Mathlib.Algebra.BigOperators.Group.Finset.Basic

/-! Where the counts of finished checks are: with the worker that counted them, in its channel,
or with the master. A worker sends its counts from a timer; it leaves from the callback of its
last check, where the call of sendStats is commented out. -/
namespace TotalsLedger

open SiteModel
open TransitionSystem
open WorkerState
open WorkerQueue
open SystemModel

def count (t : WorkTotals) : SiteStatus → ℕ
  | .down => t.down
  | .running => t.running
  | .confirmedDown => t.confirmedDown

def totalsOf : ToMaster → Option WorkTotals
  | .totals workTotals => some workTotals
  | _ => none

def countIn (msgs : List ToMaster) (status : SiteStatus) : ℕ :=
  ((msgs.filterMap totalsOf).map fun t => count t status).sum

def completedBy (w : Worker) : WorkerState.Event → Option SiteStatus
  | .complete k now res => do
    let o ← w.outstanding[k]?
    let old ← w.arrCheck[o.index]?
    some (w.applyResult now o.since res old).siteStatus
  | _ => none

def one (status? : Option SiteStatus) (status : SiteStatus) : ℕ :=
  if status? = some status then 1 else 0

theorem countIn_append (xs ys : List ToMaster) (status : SiteStatus) :
    countIn (xs ++ ys) status = countIn xs status + countIn ys status := by
  simp [countIn]

theorem count_add (t : WorkTotals) (status status' : SiteStatus) :
    count (t.add status) status' = count t status' + one (some status) status' := by
  cases status <;> cases status' <;> rfl

theorem count_zero {t : WorkTotals} (h : t.sum = 0) (status : SiteStatus) : count t status = 0 := by
  unfold WorkTotals.sum at h
  cases status <;> simp only [count] <;> omega

theorem sum_zero {t : WorkTotals} (h : ∀ status, count t status = 0) : t.sum = 0 := by
  have hdown := h .down
  have hrunning := h .running
  have hconfirmed := h .confirmedDown
  simp only [count] at hdown hrunning hconfirmed
  unfold WorkTotals.sum
  omega

theorem startCheck_totals (now : ℤ) (w : Worker) :
    (w.startCheck now).workerTotals = w.workerTotals := by
  unfold Worker.startCheck
  split <;> rfl

theorem startChecks_totals (now : ℤ) (n : ℕ) : ∀ w : Worker,
    (w.startChecks now n).workerTotals = w.workerTotals := by
  induction n with
  | zero => exact fun _ => rfl
  | succ n ih => exact fun w => (ih _).trans (startCheck_totals now w)

theorem addToQueue_totals (payload : List Site) (w : Worker) :
    (w.addToQueue payload).workerTotals = w.workerTotals := by
  unfold Worker.addToQueue
  split <;> rfl

theorem storeStats_totals (status : SiteStatus) (res : Result) (w : Worker) :
    (w.storeStats status res).workerTotals = w.workerTotals := by
  unfold Worker.storeStats
  split <;> rfl

theorem statusMessages_count (server : Site) (status : SiteStatus) :
    countIn (statusMessages server) status = 0 := by
  unfold statusMessages
  split
  · split <;> rfl
  · rfl

theorem endOfQueue_totals (rss : ℤ) (w : Worker) (status : SiteStatus) :
    (w.endOfQueue rss).1.workerTotals = w.workerTotals ∧
      countIn (w.endOfQueue rss).2 status = 0 := by
  have hstop : (w.stopDecision rss).1.workerTotals = w.workerTotals ∧
      countIn (w.stopDecision rss).2 status = 0 := by
    unfold Worker.stopDecision
    split <;> exact ⟨rfl, rfl⟩
  have hsettle : ∀ w : Worker, w.settle.workerTotals = w.workerTotals := by
    intro w
    unfold Worker.settle
    split
    · split <;> rfl
    · rfl
  have hask : ∀ w : Worker, w.askForWork.1.workerTotals = w.workerTotals ∧
      countIn w.askForWork.2 status = 0 := by
    intro w
    unfold Worker.askForWork
    split <;> exact ⟨rfl, rfl⟩
  unfold Worker.endOfQueue
  refine ⟨((hask _).1.trans (hsettle _)).trans hstop.1, ?_⟩
  rw [countIn_append, hstop.2, (hask _).2]

theorem continueQueue_totals (now rss : ℤ) (w : Worker) (status : SiteStatus) :
    (w.continueQueue now rss).1.workerTotals = w.workerTotals ∧
      countIn (w.continueQueue now rss).2 status = 0 := by
  unfold Worker.continueQueue
  split
  · exact ⟨startCheck_totals now w, rfl⟩
  · exact endOfQueue_totals rss w status

theorem complete_totals (w : Worker) (k : ℕ) (now : ℤ) (res : Result) (status : SiteStatus) :
    count (handle w (.complete k now res)).1.workerTotals status =
        count w.workerTotals status + one (completedBy w (.complete k now res)) status ∧
      countIn (handle w (.complete k now res)).2 status = 0 := by
  cases ho : w.outstanding[k]? with
  | none =>
    have hnone : completedBy w (.complete k now res) = none := by simp [completedBy, ho]
    rw [hnone]
    simp only [handle, ho]
    exact ⟨rfl, rfl⟩
  | some o =>
    cases hold : w.arrCheck[o.index]? with
    | none =>
      have hnone : completedBy w (.complete k now res) = none := by simp [completedBy, ho, hold]
      rw [hnone]
      simp only [handle, ho, Worker.processResultsCallback, hold]
      exact ⟨rfl, rfl⟩
    | some old =>
      have hsome : completedBy w (.complete k now res) =
          some (w.applyResult now o.since res old).siteStatus := by simp [completedBy, ho, hold]
      rw [hsome]
      simp only [handle, ho, Worker.processResultsCallback, hold]
      obtain ⟨htotals, hmsgs⟩ := continueQueue_totals now res.rss
        (Worker.noteResult o.index (w.applyResult now o.since res old)
          { w with outstanding := w.outstanding.eraseIdx k, finished := w.finished ++ [o.site] })
        status
      constructor
      · rw [storeStats_totals]
        refine (congrArg (count · status) htotals).trans ?_
        exact count_add _ _ _
      · rw [countIn_append, statusMessages_count, zero_add]
        exact hmsgs

theorem handle_totals (w : Worker) (e : WorkerState.Event) (status : SiteStatus) :
    count (handle w e).1.workerTotals status + countIn (handle w e).2 status =
      count w.workerTotals status + one (completedBy w e) status := by
  cases e with
  | complete k now res =>
    obtain ⟨htotals, hmsgs⟩ := complete_totals w k now res status
    rw [htotals, hmsgs, add_zero]
  | queueAdd payload => exact congrArg (count · status) (addToQueue_totals payload _)
  | evaporate =>
    simp only [handle]
    split <;> rfl
  | configUpdate | startup | statsTick => rfl
  | checkTimer now => exact congrArg (count · status) (startChecks_totals now _ _)
  | totalsTick =>
    simp only [handle, Worker.sendStats]
    by_cases hsum : w.workerTotals.sum = 0
    · rw [if_neg (not_not.mpr hsum), count_zero hsum]
      cases status <;> rfl
    · rw [if_pos hsum]
      cases status <;> simp [count, countIn, totalsOf, one, completedBy]

/-- The callback finds that this was the last check, and that the worker is to go. -/
def Leaves (w : Worker) (rss : ℤ) : Prop :=
  w.arrCheck.length ≤ w.pointer ∧ w.outstanding.length = 1 ∧
    (w.availableForWork = false ∨ w.mustStop rss = true)

instance (w : Worker) (rss : ℤ) : Decidable (Leaves w rss) := by
  unfold Leaves
  infer_instance

theorem storeStats_exit (status : SiteStatus) (res : Result) (w : Worker) :
    (w.storeStats status res).exit = w.exit := by
  unfold Worker.storeStats
  split <;> rfl

theorem staysAvailable_iff {w : Worker} {rss : ℤ} :
    staysAvailable w rss = true ↔ ¬(w.availableForWork = false ∨ w.mustStop rss = true) := by
  unfold staysAvailable
  cases w.availableForWork <;> cases w.mustStop rss <;> simp

theorem complete_stays {w : Worker} (h : Invariant w) (hx : w.exit = none) {k : ℕ}
    (hk : k < w.outstanding.length) (now : ℤ) (res : Result) :
    (handle w (.complete k now res)).1.exit = none ↔ ¬Leaves w res.rss := by
  have hget := List.getElem?_eq_getElem hk
  rw [handle_complete h.toCore hget]
  dsimp only
  generalize hserver : w.applyResult now w.outstanding[k].since res w.outstanding[k].site = server
  generalize hw : noted w k w.outstanding[k] server = w₁
  have hc : Core w₁ := hw ▸ core_finish h.toCore hget (hserver ▸ rfl) _
  have hlen : w₁.arrCheck.length = w.arrCheck.length := by
    rw [← hw]
    simp [noted, Worker.noteResult]
  have hptr : w₁.pointer = w.pointer := hw ▸ rfl
  have hx₁ : w₁.exit = none := hw ▸ hx
  have hstay : staysAvailable w₁ res.rss = staysAvailable w res.rss := hw ▸ rfl
  have hout : w₁.outstanding = [] ↔ w.outstanding.length = 1 := by
    have herase : w₁.outstanding = w.outstanding.eraseIdx k := hw ▸ rfl
    rw [herase, ← List.length_eq_zero_iff, List.length_eraseIdx_of_lt hk]
    omega
  rw [storeStats_exit]
  unfold Leaves
  rcases continueQueue_cases hc hx₁ now res.rss with ⟨hp, he⟩ | ⟨hp, ho, he⟩ | ⟨hp, ho, hs, he⟩ |
    ⟨hp, ho, hs, he⟩ <;> rw [he]
  · rw [startCheck_eq now (List.getElem?_eq_getElem hp)]
    exact iff_of_true hx₁ fun hl => absurd hl.1 (by omega)
  · exact iff_of_true hx₁ fun hl => ho (hout.mpr hl.2.1)
  · refine iff_of_false (Option.some_ne_none _) (not_not.mpr ⟨by omega, hout.mp ho, ?_⟩)
    by_contra hnot
    rw [← staysAvailable_iff, ← hstay, hs] at hnot
    contradiction
  · refine iff_of_true hx₁ fun hl => ?_
    rw [hstay, staysAvailable_iff] at hs
    exact hs hl.2.2

def held (s : System) (p : Pid) (status : SiteStatus) : ℕ :=
  match s.processes p with
  | some x => if x.code = none then count x.worker.workerTotals status else 0
  | none => 0

def inFlight (s : System) (p : Pid) (status : SiteStatus) : ℕ := countIn (s.toMaster p) status

def completedIn (s : System) (e : SystemModel.Event) (p : Pid) : Option SiteStatus :=
  match e with
  | .worker q we => if q = p then (s.processes p).bind fun x => completedBy x.worker we else none
  | _ => none

def receivedIn (s : System) (e : SystemModel.Event) (p : Pid) : List ToMaster :=
  match e with
  | .hear q => if q = p then (s.toMaster p).take 1 else []
  | _ => []

def kept (x : Process) (status : SiteStatus) : ℕ :=
  if x.code = none then 0 else count x.worker.workerTotals status

def lost (s : System) (e : SystemModel.Event) (p : Pid) (status : SiteStatus) : ℕ :=
  match e with
  | .worker q _ | .deliver q _ _ | .crash q _ =>
    if q = p then ((SystemModel.next s e).processes p).elim 0 fun x => kept x status else 0
  | .master _ _ | .hear _ => 0

variable {s : System} {e : SystemModel.Event} {p : Pid}

theorem lost_process {status : SiteStatus} (h : lost s e p status ≠ 0) :
    ∃ x, (SystemModel.next s e).processes p = some x := by
  rw [← Option.ne_none_iff_exists']
  intro hnone
  apply h
  cases e with
  | master | hear => rfl
  | deliver | worker | crash =>
    simp only [lost, hnone]
    exact ite_self 0

theorem held_some {x : Process} (hx : s.processes p = some x) (status : SiteStatus) :
    held s p status + kept x status = count x.worker.workerTotals status := by
  simp only [held, kept, hx]
  by_cases hcode : x.code = none
  · rw [if_pos hcode, if_pos hcode, add_zero]
  · rw [if_neg hcode, if_neg hcode, zero_add]

theorem held_of_live {x : Process} (hx : s.processes p = some x) (hcode : x.code = none)
    (status : SiteStatus) : held s p status = count x.worker.workerTotals status := by
  simp only [held, hx, if_pos hcode]

theorem live_code {x : Process} (hk : x.killed = none) (hexit : x.worker.exit = none) :
    x.code = none := by
  rw [Process.code, hk, hexit]
  rfl

theorem enabled_exit {w : Worker} {we : WorkerState.Event} (h : WorkerState.Enabled w we) :
    w.exit = none := by
  cases we with
  | queueAdd | evaporate | totalsTick | statsTick => exact h
  | configUpdate | checkTimer | complete | startup => exact h.1

theorem acted_balance {x : Process} {we : WorkerState.Event} {s' : System}
    (hx : s.processes p = some x) (hk : x.killed = none) (ha : Acted p s x we s')
    (status : SiteStatus) :
    inFlight s' p status + held s' p status + (s'.processes p).elim 0 (kept · status) =
      inFlight s p status + held s p status + one (completedBy x.worker we) status := by
  have hbalance := handle_totals x.worker we status
  have hafter := held_some ha.worker status
  dsimp only at hafter
  rw [held_of_live hx (live_code hk (enabled_exit ha.enabled)), inFlight, ha.sent, countIn_append,
    ha.worker]
  simp only [Option.elim_some, inFlight]
  omega

theorem one_none (status : SiteStatus) : one none status = 0 := rfl

theorem receive_completes (w : Worker) (cfg : Config) (seed : ℤ) (msg : ToWorker) :
    completedBy w (receive cfg seed msg) = none := by
  cases msg <;> rfl

theorem master_held {me : MasterState.Event} {launch : Pid → Launch}
    (he : SystemModel.Enabled s (.master me launch)) (p : Pid) (status : SiteStatus) :
    held (SystemModel.next s (.master me launch)) p status = held s p status := by
  obtain ⟨_, hobs, _, hfresh⟩ := he
  simp only [held, SystemModel.next, System.masterStep]
  by_cases hborn : p ∈ me.spawned
  · have hnone := Option.isNone_iff_eq_none.mp (hfresh p hborn).1.2.1
    rw [if_pos hborn, hnone]
    cases status <;> rfl
  rw [if_neg hborn]
  by_cases hended : p ∈ ended me
  · rw [if_pos hended]
    cases me with
    | workerExit q code fresh =>
      obtain rfl := List.mem_singleton.mp hended
      obtain ⟨x, hx, hcode⟩ := hobs
      have hx : s.processes p = some x := hx
      have hgone : x.code ≠ none := by
        rw [hcode]
        exact Option.some_ne_none code
      simp only [hx, if_neg hgone]
    | message | wait | reload | ensureWorkerCount | queryDone | roundTimer | restartTimer
    | updateStats | processQueuedRetries | hostStatus => contradiction
  · rw [if_neg hended]

theorem act_aside {q : Pid} (h : q ≠ p) (we : WorkerState.Event) (s : System) :
    (s.act q we).processes p = s.processes p ∧ (s.act q we).toMaster p = s.toMaster p := by
  unfold System.act
  split
  · exact ⟨rfl, rfl⟩
  · exact ⟨if_neg h.symm, if_neg h.symm⟩

theorem share_congr {s' : System} (hx : s'.processes p = s.processes p)
    (hsent : s'.toMaster p = s.toMaster p) (status : SiteStatus) :
    inFlight s' p status + held s' p status = inFlight s p status + held s p status := by
  simp only [inFlight, held, hx, hsent]

/-- The account of one process in one step. -/
theorem step_balance (he : SystemModel.Enabled s e) (p : Pid) (status : SiteStatus) :
    countIn (receivedIn s e p) status + inFlight (SystemModel.next s e) p status +
        held (SystemModel.next s e) p status + lost s e p status =
      inFlight s p status + held s p status + one (completedIn s e p) status := by
  cases e with
  | master me launch =>
    rw [master_held he]
    simp [receivedIn, countIn, lost, completedIn, one_none, inFlight, SystemModel.next,
      System.masterStep]
  | hear q =>
    cases hq : s.toMaster q with
    | nil => simp [SystemModel.Enabled, hq] at he
    | cons msg rest =>
      by_cases hp : q = p
      · subst hp
        have hsplit := countIn_append [msg] rest status
        simp [receivedIn, lost, completedIn, one_none, inFlight, held, SystemModel.next,
          System.hear, hq]
          at hsplit ⊢
        omega
      · simp [receivedIn, countIn, lost, completedIn, one_none, inFlight, held, SystemModel.next,
          System.hear, hq, hp, Ne.symm hp]
  | deliver q cfg seed =>
    obtain ⟨x, hx, hk, msg, hmsg, hwe⟩ := he
    have hx : s.processes q = some x := hx
    have hnext : SystemModel.next s (.deliver q cfg seed) =
        (s.read q).act q (receive cfg seed msg) := by
      obtain ⟨rest, hpipe⟩ := List.head?_eq_some_iff.mp hmsg
      simp only [SystemModel.next, hpipe]
    simp only [receivedIn, completedIn, lost, hnext]
    by_cases hp : q = p
    · subst hp
      have hbalance := acted_balance (s := s.read q) hx hk (act_acted hx hwe) status
      rw [receive_completes] at hbalance
      simp only [↓reduceIte, countIn, List.filterMap_nil, List.map_nil, List.sum_nil, zero_add]
      exact hbalance
    · obtain ⟨hproc, hsent⟩ := act_aside hp (receive cfg seed msg) (s.read q)
      have hshare := share_congr (s := s) hproc hsent status
      simp only [if_neg hp, countIn, List.filterMap_nil, List.map_nil, List.sum_nil, one_none]
      omega
  | worker q we =>
    obtain ⟨x, hx, hk, -, hwe⟩ := he
    have hx : s.processes q = some x := hx
    simp only [receivedIn, completedIn, lost, SystemModel.next, countIn, List.filterMap_nil,
      List.map_nil, List.sum_nil, zero_add]
    by_cases hp : q = p
    · subst hp
      rw [if_pos rfl, if_pos rfl, hx, Option.bind_some]
      exact acted_balance hx hk (act_acted hx hwe) status
    · obtain ⟨hproc, hsent⟩ := act_aside hp we s
      rw [if_neg hp, if_neg hp, one_none, share_congr hproc hsent]
  | crash q code =>
    obtain ⟨x, hx, hcode⟩ := he
    have hx : s.processes q = some x := hx
    simp only [receivedIn, completedIn, lost, countIn, List.filterMap_nil, List.map_nil,
      List.sum_nil, zero_add, one_none, add_zero]
    by_cases hp : q = p
    · subst hp
      have hnext : (SystemModel.next s (.crash q code)).processes q =
          some { x with killed := some code } := by simp [SystemModel.next, System.crash, hx]
      have hafter := held_some hnext status
      rw [if_pos rfl, hnext, held_of_live hx hcode]
      simp only [Option.elim_some, inFlight, SystemModel.next, System.crash] at hafter ⊢
      omega
    · have hproc : (SystemModel.next s (.crash q code)).processes p = s.processes p :=
        if_neg (Ne.symm hp)
      rw [if_neg hp, add_zero]
      exact share_congr hproc rfl status

/-- No worker leaves after its last check, and a process that ends in another way has no counts
to send. -/
def Flushed (s : System) : SystemModel.Event → Prop
  | .worker p (.complete _ _ res) => ∀ x ∈ s.processes p, ¬Leaves x.worker res.rss
  | .deliver p _ _ => (s.master.pipe p).head? = some .evaporate →
      ∀ x ∈ s.processes p, x.worker.running = false → x.worker.workerTotals.sum = 0
  | .crash p _ => ∀ x ∈ s.processes p, x.worker.workerTotals.sum = 0
  | _ => True

instance (s : System) : (e : SystemModel.Event) → Decidable (Flushed s e)
  | .worker p (.complete _ _ res) =>
    inferInstanceAs (Decidable (∀ x ∈ s.processes p, ¬Leaves x.worker res.rss))
  | .deliver p _ _ =>
    inferInstanceAs (Decidable ((s.master.pipe p).head? = some .evaporate →
      ∀ x ∈ s.processes p, x.worker.running = false → x.worker.workerTotals.sum = 0))
  | .crash p _ => inferInstanceAs (Decidable (∀ x ∈ s.processes p, x.worker.workerTotals.sum = 0))
  | .master _ _ | .hear _ | .worker _ (.queueAdd _) | .worker _ .evaporate
  | .worker _ (.configUpdate _ _) | .worker _ (.checkTimer _) | .worker _ .startup
  | .worker _ .totalsTick | .worker _ (.statsTick _ _) => isTrue trivial

theorem forall_count {t : WorkTotals} : (∀ status, count t status = 0) ↔ t.sum = 0 :=
  ⟨sum_zero, count_zero⟩

theorem acted_kept {x : Process} {we : WorkerState.Event} {s' : System} (hk : x.killed = none)
    (ha : Acted p s x we s') (status : SiteStatus) : (s'.processes p).elim 0 (kept · status) =
      if (handle x.worker we).1.exit = none then 0
      else count (handle x.worker we).1.workerTotals status := by
  have hcode : Process.code { x with worker := (handle x.worker we).1 } =
      (handle x.worker we).1.exit := by
    rw [Process.code, hk]
    rfl
  rw [ha.worker, Option.elim_some, kept, hcode]

theorem quiet_exit {w : Worker} {we : WorkerState.Event} (hx : w.exit = none)
    (hc : ∀ k now res, we ≠ .complete k now res) (hv : we ≠ .evaporate) :
    (handle w we).1.exit = none := by
  cases we with
  | complete k now res => exact absurd rfl (hc k now res)
  | evaporate => exact absurd rfl hv
  | queueAdd payload =>
    simp only [handle, Worker.addToQueue]
    split <;> exact hx
  | checkTimer now =>
    exact (congrArg WorkerFlags.Flags.exit (WorkerFlags.startChecks_flags now _ _)).trans hx
  | configUpdate | startup | totalsTick | statsTick => exact hx

theorem evaporate_exit {w : Worker} (hx : w.exit = none) :
    (handle w .evaporate).1.exit ≠ none ↔ w.running = false := by
  cases hrun : w.running <;> simp [handle, hrun, hx]

theorem evaporate_totals (w : Worker) : (handle w .evaporate).1.workerTotals = w.workerTotals := by
  simp only [handle]
  split <;> rfl

theorem complete_counted {w : Worker} (h : Invariant w) {k : ℕ} (hk : k < w.outstanding.length)
    (now : ℤ) (res : Result) :
    (handle w (.complete k now res)).1.workerTotals.sum ≠ 0 := by
  have hsite := h.index_site _ (List.getElem_mem hk)
  have hdone : completedBy w (.complete k now res) = some
      (w.applyResult now w.outstanding[k].since res w.outstanding[k].site).siteStatus := by
    simp [completedBy, List.getElem?_eq_getElem hk, hsite]
  intro hzero
  have hone := (complete_totals w k now res
    (w.applyResult now w.outstanding[k].since res w.outstanding[k].site).siteStatus).1
  rw [count_zero hzero, hdone, one, if_pos rfl] at hone
  omega

theorem acted_flushed_iff {x : Process} {we : WorkerState.Event} {s' : System}
    (hk : x.killed = none) (ha : Acted p s x we s') :
    (∀ status, (s'.processes p).elim 0 (kept · status) = 0) ↔
      ((handle x.worker we).1.exit ≠ none → (handle x.worker we).1.workerTotals.sum = 0) := by
  simp only [acted_kept hk ha]
  by_cases hexit : (handle x.worker we).1.exit = none
  · simp [hexit]
  · simp only [if_neg hexit, forall_count]
    exact ⟨fun h _ => h, fun h => h hexit⟩

theorem worker_invariant {x : Process} (hr : Reachable SystemModel.machine Unrestricted s)
    (hx : s.processes p = some x) (hexit : x.worker.exit = none) : Invariant x.worker :=
  (reachable_status (worker_reachable hr hx)).1 hexit

theorem worker_flushed_iff (hr : Reachable SystemModel.machine Unrestricted s)
    {we : WorkerState.Event} (he : SystemModel.Enabled s (.worker p we)) :
    (∀ status, lost s (.worker p we) p status = 0) ↔ Flushed s (.worker p we) := by
  obtain ⟨x, hx, hk, hown, hwe⟩ := he
  have hx : s.processes p = some x := hx
  have hexit := enabled_exit hwe
  simp only [lost, ↓reduceIte]
  refine (acted_flushed_iff hk (act_acted hx hwe)).trans ?_
  cases we with
  | complete k now res =>
    have hi := worker_invariant hr hx hexit
    have hstays := complete_stays hi hexit hwe.2 now res
    have hcounted := complete_counted hi hwe.2 now res
    simp only [Flushed, hx, Option.mem_some_iff, forall_eq']
    rw [← hstays]
    exact ⟨fun h => by_contra fun hgone => hcounted (h hgone), fun h hgone => absurd h hgone⟩
  | queueAdd | evaporate | configUpdate => exact hown.elim
  | checkTimer now => exact iff_of_true (absurd (quiet_exit hexit nofun nofun)) trivial
  | startup | totalsTick => exact iff_of_true (absurd hexit) trivial
  | statsTick now rss => exact iff_of_true (absurd hexit) trivial

theorem deliver_flushed_iff {cfg : Config} {seed : ℤ}
    (he : SystemModel.Enabled s (.deliver p cfg seed)) :
    (∀ status, lost s (.deliver p cfg seed) p status = 0) ↔ Flushed s (.deliver p cfg seed) := by
  obtain ⟨x, hx, hk, msg, hmsg, hwe⟩ := he
  have hx : s.processes p = some x := hx
  have hmsg : (s.master.pipe p).head? = some msg := hmsg
  have hexit := enabled_exit hwe
  have hnext : SystemModel.next s (.deliver p cfg seed) =
      (s.read p).act p (receive cfg seed msg) := by
    obtain ⟨rest, hpipe⟩ := List.head?_eq_some_iff.mp hmsg
    simp only [SystemModel.next, hpipe]
  simp only [lost, ↓reduceIte, hnext, Flushed, hx, hmsg, Option.mem_some_iff, forall_eq',
    Option.some_inj]
  refine (acted_flushed_iff hk (act_acted (s := s.read p) hx hwe)).trans ?_
  cases msg with
  | evaporate =>
    rw [receive, evaporate_totals, evaporate_exit hexit]
    exact ⟨fun h _ => h, fun h => h rfl⟩
  | queueAdd payload => exact iff_of_true (absurd (quiet_exit hexit nofun nofun)) nofun
  | configUpdate => exact iff_of_true (absurd hexit) nofun

theorem crash_flushed_iff {code : ExitCode} (he : SystemModel.Enabled s (.crash p code)) :
    (∀ status, lost s (.crash p code) p status = 0) ↔ Flushed s (.crash p code) := by
  obtain ⟨x, hx, hcode⟩ := he
  have hx : s.processes p = some x := hx
  have hnext : (SystemModel.next s (.crash p code)).processes p =
      some { x with killed := some code } := by simp [SystemModel.next, System.crash, hx]
  have hkept : ∀ status, kept { x with killed := some code } status =
      count x.worker.workerTotals status := fun _ => if_neg (Option.some_ne_none code)
  simp only [lost, ↓reduceIte, hnext, Option.elim_some, hkept, forall_count, Flushed, hx,
    Option.mem_some_iff, forall_eq']

theorem flushed_iff (hr : Reachable SystemModel.machine Unrestricted s)
    (he : SystemModel.Enabled s e) : (∀ p status, lost s e p status = 0) ↔ Flushed s e := by
  -- a process that does not act loses nothing
  have hself : ∀ q : Pid, (∀ p, q ≠ p → ∀ status, lost s e p status = 0) →
      ((∀ p status, lost s e p status = 0) ↔ ∀ status, lost s e q status = 0) := by
    refine fun q haside => ⟨fun h => h q, fun h p status => ?_⟩
    by_cases hp : q = p
    · exact hp ▸ h status
    · exact haside p hp status
  cases e with
  | master | hear => exact iff_of_true (fun _ _ => rfl) trivial
  | deliver q cfg seed =>
    exact (hself q fun _ hp _ => if_neg hp).trans (deliver_flushed_iff he)
  | worker q we => exact (hself q fun _ hp _ => if_neg hp).trans (worker_flushed_iff hr he)
  | crash q code => exact (hself q fun _ hp _ => if_neg hp).trans (crash_flushed_iff he)

/-- The system, the pids of all processes so far, and per pid the checks that were completed
and the totals that the master received. -/
structure Books where
  system : System
  pids : Finset Pid
  completed : Pid → SiteStatus → ℕ
  received : Pid → SiteStatus → ℕ

def spawnedIn : SystemModel.Event → List Pid
  | .master me _ => me.spawned
  | _ => []

theorem next_processes {x : Process} (hx : (SystemModel.next s e).processes p = some x) :
    p ∈ spawnedIn e ∨ ∃ y, s.processes p = some y := by
  have hact : ∀ {s : System} {q : Pid} {we : WorkerState.Event},
      (s.act q we).processes p = some x → ∃ y, s.processes p = some y := by
    intro s q we hx
    by_cases hp : q = p
    · subst hp
      cases hq : s.processes q with
      | none => simp [System.act, hq] at hx
      | some y => exact ⟨y, rfl⟩
    · exact ⟨x, (act_aside hp we s).1 ▸ hx⟩
  cases e with
  | master me launch =>
    by_cases hborn : p ∈ me.spawned
    · exact Or.inl hborn
    · simp only [SystemModel.next, System.masterStep, if_neg hborn] at hx
      split at hx
      · contradiction
      · exact Or.inr ⟨x, hx⟩
  | hear q =>
    simp only [SystemModel.next, System.hear] at hx
    split at hx <;> exact Or.inr ⟨x, hx⟩
  | deliver q cfg seed =>
    simp only [SystemModel.next] at hx
    split at hx
    · exact Or.inr ⟨x, hx⟩
    · exact Or.inr (hact (s := s.read q) hx)
  | worker q we => exact Or.inr (hact hx)
  | crash q code =>
    simp only [SystemModel.next, System.crash] at hx
    split at hx
    · obtain ⟨y, hy, -⟩ := Option.map_eq_some_iff.mp hx
      exact Or.inr ⟨y, hy⟩
    · exact Or.inr ⟨x, hx⟩

def Books.next (b : Books) (e : SystemModel.Event) : Books where
  system := SystemModel.next b.system e
  pids := b.pids ∪ (spawnedIn e).toFinset
  completed p status := b.completed p status + one (completedIn b.system e p) status
  received p status := b.received p status + countIn (receivedIn b.system e p) status

def Books.boot (cfg : Config) (now : ℤ) : Books :=
  ⟨System.boot cfg now, ∅, fun _ _ => 0, fun _ _ => 0⟩

def books : Machine Books SystemModel.Event :=
  ⟨fun b => ∃ cfg now, b = Books.boot cfg now, fun b e => SystemModel.machine.enabled b.system e,
    Books.next⟩

instance (b : Books) (e : SystemModel.Event) : Decidable (books.enabled b e) :=
  inferInstanceAs (Decidable (SystemModel.Enabled b.system e))

/-- No finished check is missing from the counts. -/
def Conserved (b : Books) : Prop := ∀ status, ∑ p ∈ b.pids, b.completed p status =
  ∑ p ∈ b.pids, b.received p status + ∑ p ∈ b.pids, inFlight b.system p status +
    ∑ p ∈ b.pids, held b.system p status

/-- The same for each process by itself. -/
structure Balanced (b : Books) : Prop where
  reachable : Reachable SystemModel.machine Unrestricted b.system
  known : ∀ p x, b.system.processes p = some x → p ∈ b.pids
  balance : ∀ p status, b.completed p status =
    b.received p status + inFlight b.system p status + held b.system p status

theorem boot_balanced (cfg : Config) (now : ℤ) : Balanced (Books.boot cfg now) :=
  ⟨.start ⟨cfg, now, rfl⟩, fun _ x hx => absurd hx.symm (Option.some_ne_none x),
    by simp [Books.boot, System.boot, inFlight, held, countIn]⟩

theorem Balanced.conserved {b : Books} (h : Balanced b) : Conserved b := by
  intro status
  rw [← Finset.sum_add_distrib, ← Finset.sum_add_distrib]
  exact Finset.sum_congr rfl fun p _ => h.balance p status

theorem step_known {b : Books} (h : Balanced b) {e : SystemModel.Event} {p : Pid} {x : Process}
    (hx : (b.next e).system.processes p = some x) : p ∈ (b.next e).pids := by
  rcases next_processes hx with hborn | ⟨y, hy⟩
  · exact Finset.mem_union_right _ (List.mem_toFinset.mpr hborn)
  · exact Finset.mem_union_left _ (h.known p y hy)

/-- What a step loses is missing from the books of its process from then on. -/
theorem step_books {b : Books} (h : Balanced b) {e : SystemModel.Event}
    (he : SystemModel.Enabled b.system e) (p : Pid) (status : SiteStatus) :
    (b.next e).completed p status = (b.next e).received p status +
      inFlight (b.next e).system p status + held (b.next e).system p status +
        lost b.system e p status := by
  have hstep := step_balance he p status
  have hbefore := h.balance p status
  simp only [Books.next]
  omega

theorem step_balanced {b : Books} (h : Balanced b) {e : SystemModel.Event}
    (he : SystemModel.Enabled b.system e) (hflushed : Flushed b.system e) :
    Balanced (b.next e) where
  reachable := .step h.reachable he trivial
  known _ _ hx := step_known h hx
  balance p status := by
    have hstep := step_books h he p status
    rwa [(flushed_iff h.reachable he).mpr hflushed p status, add_zero] at hstep

theorem step_unbalanced {b : Books} (h : Balanced b) {e : SystemModel.Event}
    (he : SystemModel.Enabled b.system e) (hlost : ¬Flushed b.system e) :
    ¬Conserved (b.next e) := by
  rw [← flushed_iff h.reachable he] at hlost
  push Not at hlost
  obtain ⟨p, status, hp⟩ := hlost
  have hmem : p ∈ (b.next e).pids := by
    obtain ⟨x, hx⟩ := lost_process hp
    exact step_known h hx
  intro hconserved
  have hall := hconserved status
  rw [← Finset.sum_add_distrib, ← Finset.sum_add_distrib] at hall
  refine absurd hall (Nat.ne_of_gt (Finset.sum_lt_sum (fun q _ => ?_) ⟨p, hmem, ?_⟩))
  · have hstep := step_books h he q status
    omega
  · have hstep := step_books h he p status
    omega

/-- The counts are complete as long as every worker that ends has sent its own. -/
theorem totals_conserved_iff {b : Books} (hb : books.start b) {es : List SystemModel.Event}
    (hv : books.Valid Unrestricted b es) :
    books.Always Conserved b es ↔ books.Valid (fun b e => Flushed b.system e) b es := by
  obtain ⟨cfg, now, rfl⟩ := hb
  exact always_iff_valid (I := Balanced) (fun _ => Balanced.conserved)
    (fun _ _ h he _ hflushed => step_balanced h he hflushed)
    (fun _ _ h he _ hlost => step_unbalanced h he hlost) (boot_balanced cfg now) hv

def flushedRun : List SystemModel.Event :=
  VoluntaryExit.firstDataset [VoluntaryExit.siteRow 1] ++
    [.worker 7 (.complete 0 0 VoluntaryExit.siteUp), .hear 7, .worker 7 .totalsTick, .hear 7,
      .hear 7, .crash 7 .other, .master (.workerExit 7 .other 8) VoluntaryExit.launch]

theorem totals_conserved_iff_flushed_run :
    books.Always Conserved (Books.boot VoluntaryExit.recycling 0) flushedRun ↔
      books.Valid (fun b e => Flushed b.system e) (Books.boot VoluntaryExit.recycling 0)
        flushedRun :=
  totals_conserved_iff ⟨_, _, rfl⟩ (by decide)

/-- The worker reaches its limit with two sites up, and leaves with both. -/
def recycledRun : List SystemModel.Event :=
  VoluntaryExit.firstDataset [VoluntaryExit.siteRow 1, VoluntaryExit.siteRow 2] ++
    [.worker 7 (.complete 0 0 VoluntaryExit.siteUp), .worker 7 (.complete 0 0 VoluntaryExit.siteUp)]

theorem recycled_counts_lost : ¬∀ b, Reachable books Unrestricted b → Conserved b := by
  intro h
  have hr : Reachable books Unrestricted
      (books.exec (Books.boot VoluntaryExit.recycling 0) recycledRun) :=
    exec_reachable (.start ⟨_, _, rfl⟩) (by decide)
  have hequal := h _ hr .running
  exact absurd hequal (by decide)

end TotalsLedger
