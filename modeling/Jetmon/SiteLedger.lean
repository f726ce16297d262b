import Jetmon.MasterChannels
import Mathlib.Algebra.BigOperators.Group.Finset.Basic
import Mathlib.Algebra.Order.Group.Multiset

/-! The books of the master. A site comes in with a batch of the database or as a failed
check, and goes out in a payload; in between it is in arrObjects, first in first out, or in
localRetries. -/
namespace SiteLedger

open SiteModel
open TransitionSystem
open MasterState
open MasterDispatch
open MasterFrames
open MasterChannels

/-- A queue-add, in the order of the calls of `worker.send`. A `direct` one is a local
retry that goes to a free worker without having been in arrObjects. -/
structure Dispatch where
  pid : Pid
  payload : List Site
  direct : Bool

def payloadsTo (p : Pid) (ds : List Dispatch) : List ToWorker :=
  (ds.filter fun d => d.pid = p).map fun d => .queueAdd d.payload

def fromQueue (ds : List Dispatch) : List Site :=
  (ds.filter fun d => !d.direct).flatMap Dispatch.payload

def fromRetries (ds : List Dispatch) : List Site :=
  (ds.filter fun d => d.direct).flatMap Dispatch.payload

variable {m m' : Master} {ds : List Dispatch} {p : Pid}

@[simp] theorem payloadsTo_nil : payloadsTo p [] = [] := rfl
@[simp] theorem fromQueue_nil : fromQueue [] = [] := rfl
@[simp] theorem fromRetries_nil : fromRetries [] = [] := rfl

@[simp] theorem payloadsTo_append (ds ds' : List Dispatch) :
    payloadsTo p (ds ++ ds') = payloadsTo p ds ++ payloadsTo p ds' := by
  simp [payloadsTo]

@[simp] theorem fromQueue_append (ds ds' : List Dispatch) :
    fromQueue (ds ++ ds') = fromQueue ds ++ fromQueue ds' := by
  simp [fromQueue]

@[simp] theorem fromRetries_append (ds ds' : List Dispatch) :
    fromRetries (ds ++ ds') = fromRetries ds ++ fromRetries ds' := by
  simp [fromRetries]

theorem dispatched_split (ds : List Dispatch) :
    (ds.flatMap Dispatch.payload : Multiset Site) = ↑(fromQueue ds) + ↑(fromRetries ds) := by
  induction ds with
  | nil => rfl
  | cons d ds ih =>
    have hcons : (d :: ds).flatMap Dispatch.payload = d.payload ++ ds.flatMap Dispatch.payload :=
      rfl
    rw [hcons, ← Multiset.coe_add, ih, ← List.singleton_append, fromQueue_append,
      fromRetries_append,
      ← Multiset.coe_add, ← Multiset.coe_add]
    cases hd : d.direct with
    | true =>
      have hq : fromQueue [d] = [] := by simp [fromQueue, hd]
      have hr : fromRetries [d] = d.payload := by simp [fromRetries, hd]
      rw [hq, hr, Multiset.coe_nil, zero_add]
      exact add_left_comm _ _ _
    | false =>
      have hq : fromQueue [d] = d.payload := by simp [fromQueue, hd]
      have hr : fromRetries [d] = [] := by simp [fromRetries, hd]
      rw [hq, hr, Multiset.coe_nil, zero_add]
      exact (add_assoc _ _ _).symm

/-- A part of a handler that takes `received` in, puts `entered` into arrObjects and sends
`ds`, while the workers and the halted ones stay the same. -/
structure Shift (m m' : Master) (received : Multiset Site) (entered : List Site)
    (ds : List Dispatch) : Prop where
  queue : m.arrObjects ++ entered = fromQueue ds ++ m'.arrObjects
  sites :
    ↑m.localRetries + received = ↑entered + ↑(fromRetries ds) + (m'.localRetries : Multiset Site)
  sent : ∀ p, work m' p = work m p ++ payloadsTo p ds
  routed : ∀ d ∈ ds, d.payload ≠ [] ∧ d.pid ∈ m.arrWorkers ∧ d.pid ∉ m.haltedWorkers
  workers : m'.arrWorkers = m.arrWorkers
  halted : m'.haltedWorkers = m.haltedWorkers

theorem Shift.same (h : workload m' = workload m) : Shift m m' 0 [] [] where
  queue := by
    have ha : m'.arrObjects = m.arrObjects := congrArg Workload.arrObjects h
    rw [ha, List.append_nil, fromQueue_nil, List.nil_append]
  sites := by
    have hl : m'.localRetries = m.localRetries := congrArg Workload.localRetries h
    simp [hl]
  sent p := by
    have hp : m'.pipe = m.pipe := congrArg Workload.pipe h
    rw [work_congr (congrFun hp p), payloadsTo_nil, List.append_nil]
  routed := nofun
  workers := congrArg Workload.arrWorkers h
  halted := congrArg Workload.haltedWorkers h

theorem Shift.trans {m₁ m₂ m₃ : Master} {r r' : Multiset Site} {en en' : List Site}
    {ds ds' : List Dispatch} (h : Shift m₁ m₂ r en ds) (h' : Shift m₂ m₃ r' en' ds') :
    Shift m₁ m₃ (r + r') (en ++ en') (ds ++ ds') where
  queue := by
    rw [← List.append_assoc, h.queue, List.append_assoc, h'.queue, fromQueue_append,
      List.append_assoc]
  sites := by
    rw [fromRetries_append, ← Multiset.coe_add, ← Multiset.coe_add, ← add_assoc, h.sites,
      add_assoc, h'.sites]
    abel
  sent p := by rw [h'.sent, h.sent, payloadsTo_append, List.append_assoc]
  routed := by
    intro d hd
    rcases List.mem_append.mp hd with hd | hd
    · exact h.routed d hd
    · rw [← h.workers, ← h.halted]
      exact h'.routed d hd
  workers := h'.workers.trans h.workers
  halted := h'.halted.trans h.halted

theorem Shift.free (fs : List Pid) : Shift m { m with freeWorkers := fs } 0 [] [] :=
  ⟨by simp, by simp, fun _ => by simp [work], nofun, rfl, rfl⟩

theorem send_sent {q : Pid} {payload : List Site} {direct : Bool} (p : Pid) :
    work (m.send q (.queueAdd payload)) p = work m p ++ payloadsTo p [⟨q, payload, direct⟩] := by
  by_cases hq : q = p
  · subst hq
    simp [work, Master.send, payloadsTo, isWork]
  · rw [send_work q (Or.inl hq)]
    simp [payloadsTo, hq]

theorem give_shift {n : ℕ} {q : Pid} (hk : Known m q) (hh : q ∉ m.haltedWorkers) (hn : 0 < n)
    (hle : n ≤ m.arrObjects.length) :
    Shift m (give q n m) 0 [] [⟨q, m.arrObjects.take n, false⟩] where
  queue := by simp [fromQueue, give, Master.send]
  sites := by simp [fromRetries, give, Master.send]
  sent p := send_sent p
  routed := by
    intro d hd
    rw [List.mem_singleton.mp hd]
    refine ⟨?_, hk.2, hh⟩
    rw [← List.length_pos_iff, List.length_take]
    omega
  workers := rfl
  halted := rfl

theorem send_quiet {q : Pid} {msg : ToWorker} (h : isWork msg = false) :
    Shift m (m.send q msg) 0 [] [] where
  queue := List.append_nil _
  sites := by simp [Master.send]
  sent p := by rw [send_work q (Or.inr h), payloadsTo_nil, List.append_nil]
  routed := nofun
  workers := rfl
  halted := rfl

theorem move_shift (h : Move m m') : ∃ ds, Shift m m' 0 [] ds := by
  cases h with
  | evaporate => exact ⟨[], send_quiet rfl⟩
  | give hk hh hn hle => exact ⟨_, give_shift hk hh hn hle⟩
  | park => exact ⟨[], .free _⟩
  | fetch => exact ⟨[], .same (getMoreSites_workload m)⟩
  | endRound => exact ⟨[], .same (maybeEndRound_workload m)⟩

theorem moves_shift (h : Moves m m') : ∃ ds, Shift m m' 0 [] ds := by
  induction h with
  | refl => exact ⟨[], .same rfl⟩
  | tail _ hmove ih =>
    obtain ⟨ds, hds⟩ := ih
    obtain ⟨ds', hds'⟩ := move_shift hmove
    exact ⟨ds ++ ds', hds.trans hds'⟩

theorem assignWorkToWorker_shift (q : Pid) (size : Option ℤ) (m : Master) :
    ∃ ds, Shift m (m.assignWorkToWorker q size) 0 [] ds := by
  rw [assignWorkToWorker_eq]
  split
  · rename_i h
    exact ⟨_, give_shift h.1 h.2.1 (batchLength_pos h.2.2 size) (Nat.min_le_left _ _)⟩
  · exact ⟨[], .same rfl⟩

theorem reload_shift (cfg : Config) (m : Master) : Shift m (m.reload cfg) 0 [] [] := by
  refine reload_invariant (I := fun m' => Shift m m' 0 [] []) (.same rfl) ?_
  intro m' h pid _
  exact h.trans (send_quiet rfl)

theorem freeWorkersToWork_shift (m : Master) : ∃ ds, Shift m m.freeWorkersToWork 0 [] ds := by
  rcases freeWorkersToWork_cases m with ⟨_, he⟩ | ⟨_, _, hm⟩
  · rw [he]
    exact ⟨[], .same rfl⟩
  · obtain ⟨ds, hds⟩ := moves_shift hm
    have hfree : Shift m { m with freeWorkers := [] } 0 [] [] := .free []
    exact ⟨ds, hfree.trans hds⟩

def Apart (m : Master) : Prop := ∀ p ∈ m.freeWorkers, p ∉ m.haltedWorkers

theorem Apart.deleteWorker (h : Apart m) (q : Pid) : Apart (m.deleteWorker q) := by
  simp only [Master.deleteWorker]
  split
  · exact h
  · intro p hp hh
    exact h p (List.mem_filter.mp hp).1 (List.mem_filter.mp hh).1

theorem Apart.spawnWorker (h : Apart m) (q : Pid) : Apart (m.spawnWorker q) := by
  have hreset : Apart (m.resetChannel q) := h
  exact hreset.deleteWorker q

theorem Apart.ensureWorkerCount (h : Apart m) (fresh : List Pid) :
    Apart (m.ensureWorkerCount fresh) :=
  ensureWorkerCount_invariant h fun _ h q _ => h.spawnWorker q

theorem handle_apart {e : Event} (h : Apart m) : Apart (handle m e) := by
  intro p hp hh
  by_cases hb : Bystander p e
  · obtain ⟨msgs, hl, _⟩ := handle_link m hb
    have hold := hl.halted.mp hh
    exact (hl.spared hold fun hf => h p hf hold).1 hp
  · cases e with
    | message q msg =>
      cases msg with
      | stopWork =>
        obtain rfl : q = p := by simpa [Bystander] using hb
        exact (stopWork_self q m).2.2.2.2 (fun hh hf => h q hf hh) hh hp
      | totals | recheck | notifyStatusChange | notifyStillDown | sendWork | stats =>
        exact hb trivial
    | workerExit q code fresh =>
      have hreset : Apart (m.resetChannel q) := h
      have hexit : Apart (m.workerExit q code fresh) :=
        workerExit_invariant (hreset.deleteWorker q) fun _ _ h' => h'.spawnWorker fresh
      exact hexit p hp hh
    | ensureWorkerCount fresh => exact h.ensureWorkerCount fresh p hp hh
    | wait | reload | queryDone | roundTimer | restartTimer | updateStats | processQueuedRetries
    | hostStatus => exact hb trivial

theorem coe_cons_eq (server : Site) (rest : List Site) :
    ((server :: rest : List Site) : Multiset Site) = ↑rest + {server} := by
  rw [add_comm, Multiset.singleton_add, Multiset.cons_coe]

theorem retryMove_shift {server : Site} (ha : Apart m) (h : RetryMove server m m') :
    ∃ en ds, Shift m m' {server} en ds := by
  cases h with
  | keep =>
    refine ⟨[], [], by simp, ?_, fun _ => by simp [work], nofun, rfl, rfl⟩
    simp [coe_cons_eq]
  | @hand i q hd hi hk =>
    have hfree : q ∈ m.freeWorkers := List.mem_of_getElem? hi
    refine ⟨[], [⟨q, [server], true⟩], by simp [fromQueue, Master.send], ?_, send_sent, ?_, rfl,
      rfl⟩
    · simp [fromRetries, Master.send, add_comm]
    · intro d hd
      rw [List.mem_singleton.mp hd]
      exact ⟨by simp, hk.2, ha q hfree⟩
  | requeue =>
    refine ⟨[server], [], by simp, ?_, fun _ => by simp [work], nofun, rfl, rfl⟩
    simp [add_comm]

theorem retryMove_apart {server : Site} (ha : Apart m) (h : RetryMove server m m') : Apart m' := by
  cases h with
  | keep | requeue => exact ha
  | hand => exact fun p hp => ha p (List.mem_of_mem_eraseIdx hp)

/-- By induction over the servers, which come in one after the other. -/
theorem retryLoop_shift (ha : Apart m) (servers : List Site) :
    Apart (retryLoop m servers).1 ∧
      ∃ en ds, Shift { m with localRetries := [] } (retryLoop m servers).1 ↑servers en ds := by
  induction servers with
  | nil => exact ⟨ha, [], [], .same rfl⟩
  | cons server rest ih =>
    obtain ⟨hrest, en, ds, hds⟩ := ih
    have hmove := retryStep_move server (retryLoop m rest)
    obtain ⟨en', ds', hds'⟩ := retryMove_shift hrest hmove
    refine ⟨retryMove_apart hrest hmove, en ++ en', ds ++ ds', ?_⟩
    rw [coe_cons_eq]
    exact hds.trans hds'

theorem retryLocally_shift (ha : Apart m) : ∃ en ds, Shift m m.retryLocally 0 en ds := by
  obtain ⟨_, en, ds, hloop⟩ := retryLoop_shift ha m.localRetries
  have hall : Shift m (retryLoop m m.localRetries).1 0 en ds :=
    ⟨hloop.queue, by simpa using hloop.sites, hloop.sent, hloop.routed, hloop.workers, hloop.halted⟩
  rcases retryLocally_cases m with ⟨_, he⟩ | ⟨_, he⟩ <;> rw [he]
  · exact ⟨en, ds, hall⟩
  · split
    · exact ⟨en, ds, hall⟩
    · have hlast := hall.trans (Shift.free [])
      rw [add_zero, List.append_nil, List.append_nil] at hlast
      exact ⟨en, ds, hlast⟩

def Retrying (m : Master) (server : Site) : Prop :=
  ∃ s ∈ m.localRetries, s.blogId = server.blogId ∧ s.monitorUrl = server.monitorUrl

instance (m : Master) (server : Site) : Decidable (Retrying m server) := by
  unfold Retrying
  infer_instance

/-- The sites of a batch, or the failed check that is kept for a retry. -/
def received (m : Master) : Event → List Site
  | .queryDone _ (.rows rows) => rows.map Site.ofRow
  | .message _ (.recheck server) =>
    if (server.checks.length : ℤ) < m.config.numOfChecks ∧ ¬Retrying m server then
      [{ server with processed := false }] else []
  | _ => []

def payloads (m : Master) (e : Event) (p : Pid) : List ToWorker :=
  (work (handle m e) p).drop (work m p).length

def sentSites (m : Master) (e : Event) : Multiset Site :=
  ∑ p ∈ m.arrWorkers.toFinset, ↑((payloads m e p).flatMap ToWorker.sites)

/-- What one event does to the books: `ds` are the payloads in the order they are sent, to
workers that are known and not halted while the handler runs. The sites that enter arrObjects
queue up behind those that are there, and leave from the front. -/
structure Booked (m : Master) (e : Event) (entered : List Site) (ds : List Dispatch) : Prop where
  queue : m.arrObjects ++ entered = fromQueue ds ++ (handle m e).arrObjects
  sites : ↑m.localRetries + ↑(received m e) =
    ↑entered + ↑(fromRetries ds) + ((handle m e).localRetries : Multiset Site)
  sent : ∀ p, payloads m e p = payloadsTo p ds
  routed : ∀ d ∈ ds, d.payload ≠ [] ∧ d.pid ∈ m.arrWorkers ∧ d.pid ∉ m.haltedWorkers
  workers : ds ≠ [] → (handle m e).arrWorkers = m.arrWorkers ∧
    (handle m e).haltedWorkers = m.haltedWorkers

theorem Shift.booked {e : Event} {en : List Site}
    (h : Shift m (handle m e) ↑(received m e) en ds) : Booked m e en ds where
  queue := h.queue
  sites := h.sites
  sent p := by rw [payloads, h.sent, List.drop_left]
  routed := h.routed
  workers _ := ⟨h.workers, h.halted⟩

/-- No work is written, and no site comes or goes; channels may be cleared. -/
structure Silent (m m' : Master) : Prop where
  queue : m'.arrObjects = m.arrObjects
  retries : m'.localRetries = m.localRetries
  pipe : ∀ p, m'.pipe p = m.pipe p ∨ m'.pipe p = []

theorem Silent.trans {m₁ m₂ m₃ : Master} (h : Silent m₁ m₂) (h' : Silent m₂ m₃) :
    Silent m₁ m₃ := by
  refine ⟨h'.queue.trans h.queue, h'.retries.trans h.retries, fun p => ?_⟩
  rcases h'.pipe p with hp | hp
  · rw [hp]
    exact h.pipe p
  · exact Or.inr hp

theorem deleteWorker_silent (q : Pid) (m : Master) : Silent m (m.deleteWorker q) := by
  simp only [Master.deleteWorker]
  split <;> exact ⟨rfl, rfl, fun _ => Or.inl rfl⟩

theorem resetChannel_silent (q : Pid) (m : Master) : Silent m (m.resetChannel q) := by
  refine ⟨rfl, rfl, fun p => ?_⟩
  by_cases hp : p = q
  · exact Or.inr (if_pos hp)
  · exact Or.inl (if_neg hp)

theorem spawnWorker_silent (q : Pid) (m : Master) : Silent m (m.spawnWorker q) := by
  have hpush : ∀ m : Master, Silent m { m with arrWorkers := m.arrWorkers ++ [q] } :=
    fun _ => ⟨rfl, rfl, fun _ => Or.inl rfl⟩
  exact ((resetChannel_silent q m).trans (deleteWorker_silent q _)).trans (hpush _)

theorem ensureWorkerCount_silent (fresh : List Pid) (m : Master) :
    Silent m (m.ensureWorkerCount fresh) := by
  apply ensureWorkerCount_invariant (I := Silent m)
  · exact ⟨rfl, rfl, fun _ => Or.inl rfl⟩
  · exact fun m' h q _ => h.trans (spawnWorker_silent q m')

theorem workerExit_silent (q : Pid) (code : ExitCode) (fresh : Pid) (m : Master) :
    Silent m (m.workerExit q code fresh) :=
  workerExit_invariant ((resetChannel_silent q m).trans (deleteWorker_silent q _))
    fun _ _ h => h.trans (spawnWorker_silent fresh _)

theorem stopWork_silent (q : Pid) (m : Master) : Silent m (m.stopWork q) := by
  have hend := maybeEndRound_workload (m.halt q)
  have hhalt : Silent m (m.halt q) := by
    rcases halt_cases q m with ⟨_, _, he⟩ | ⟨_, he⟩ <;> rw [he] <;>
      exact ⟨rfl, rfl, fun _ => Or.inl rfl⟩
  exact hhalt.trans ⟨congrArg Workload.arrObjects hend, congrArg Workload.localRetries hend,
    fun p => Or.inl (congrFun (congrArg Workload.pipe hend) p)⟩

theorem Silent.booked {e : Event} (h : Silent m (handle m e)) (hr : received m e = []) :
    Booked m e [] [] where
  queue := by rw [h.queue, List.append_nil, fromQueue_nil, List.nil_append]
  sites := by simp [h.retries, hr]
  sent p := by
    rcases h.pipe p with hp | hp
    · rw [payloads, work_congr hp, List.drop_length, payloadsTo_nil]
    · simp [payloads, work, hp]
  routed := nofun
  workers h := absurd rfl h

theorem recheck_cases (pid : Pid) (server : Site) (m : Master) :
    ((server.checks.length : ℤ) < m.config.numOfChecks ∧ Retrying m server ∧
      handle m (.message pid (.recheck server)) = m) ∨
    ((server.checks.length : ℤ) < m.config.numOfChecks ∧ ¬Retrying m server ∧
      handle m (.message pid (.recheck server)) =
        { m with localRetries := m.localRetries ++ [{ server with processed := false }] }) ∨
    (¬(server.checks.length : ℤ) < m.config.numOfChecks ∧
      handle m (.message pid (.recheck server)) = m.hostCheckRequest server) := by
  have hany : (m.localRetries.any fun s => s.blogId == server.blogId &&
      s.monitorUrl == server.monitorUrl) = true ↔ Retrying m server := by
    simp [Retrying]
  by_cases hlt : (server.checks.length : ℤ) < m.config.numOfChecks
  · simp only [handle, Master.workerMsgCallback, if_pos hlt, Master.addServerToLocalRetries]
    by_cases hr : Retrying m server
    · exact Or.inl ⟨hlt, hr, if_pos (hany.mpr hr)⟩
    · exact Or.inr (Or.inl ⟨hlt, hr, if_neg (mt hany.mp hr)⟩)
  · exact Or.inr (Or.inr ⟨hlt, if_neg hlt⟩)

theorem recheck_booked (pid : Pid) (server : Site) (m : Master) :
    Booked m (.message pid (.recheck server)) [] [] := by
  apply Shift.booked
  rcases recheck_cases pid server m with ⟨_, hr, he⟩ | ⟨hlt, hr, he⟩ | ⟨hge, he⟩ <;> rw [he]
  · have hnone : received m (.message pid (.recheck server)) = [] := if_neg fun h => h.2 hr
    rw [hnone]
    exact .same rfl
  · have hone :
      received m (.message pid (.recheck server)) = [{ server with processed := false }] :=
      if_pos ⟨hlt, hr⟩
    rw [hone]
    refine ⟨by simp, ?_, fun p => by simp [work], nofun, rfl, rfl⟩
    rw [Multiset.coe_add, fromRetries_nil, Multiset.coe_nil, zero_add, zero_add]
  · have hnone : received m (.message pid (.recheck server)) = [] := if_neg fun h => hge h.1
    rw [hnone]
    exact .same rfl

theorem topUp_shift (pid : Pid) (stats : WorkerStats) (m : Master) :
    ∃ ds, Shift m (m.topUp pid stats) 0 [] ds := by
  simp only [Master.topUp]
  split
  · exact assignWorkToWorker_shift ..
  · exact ⟨[], .same rfl⟩

def filled (m : Master) (k : ℕ) (rows : List Row) : Master :=
  { m with
    queries := m.queries.eraseIdx k
    arrObjects := m.arrObjects ++ rows.map Site.ofRow
    gettingSites := false }

theorem filled_shift (k : ℕ) (rows : List Row) (m : Master) :
    Shift m (filled m k rows) ↑(rows.map Site.ofRow) (rows.map Site.ofRow) [] where
  queue := rfl
  sites := by
    rw [fromRetries_nil, Multiset.coe_nil, add_zero]
    exact add_comm _ _
  sent p := (List.append_nil _).symm
  routed := nofun
  workers := rfl
  halted := rfl

theorem handle_booked {e : Event} (ha : Apart m) : ∃ en ds, Booked m e en ds := by
  have hquiet : workload (handle m e) = workload m → received m e = [] →
      ∃ en ds, Booked m e en ds := by
    intro hw hr
    have hshift : Shift m (handle m e) ↑(received m e) [] [] := by
      rw [hr]
      exact .same hw
    exact ⟨[], [], hshift.booked⟩
  by_cases hd : Dispatches e
  · cases e with
    | reload cfg => exact ⟨[], [], (reload_shift cfg m).booked⟩
    | message pid msg =>
      cases msg with
      | stopWork => exact ⟨[], [], (stopWork_silent pid m).booked rfl⟩
      | sendWork =>
        obtain ⟨ds, hds⟩ := moves_shift (sendWork_moves pid m)
        exact ⟨[], ds, hds.booked⟩
      | recheck server => exact ⟨[], [], recheck_booked pid server m⟩
      | stats stats checkStats =>
        obtain ⟨ds, hds⟩ := topUp_shift pid stats (m.keepStats pid stats checkStats)
        have hkeep : Shift m (m.keepStats pid stats checkStats) 0 [] [] := .same rfl
        exact ⟨[], ds, (hkeep.trans hds).booked⟩
      | totals | notifyStatusChange | notifyStillDown => exact hd.elim
    | workerExit pid code fresh => exact ⟨[], [], (workerExit_silent pid code fresh m).booked rfl⟩
    | ensureWorkerCount fresh => exact ⟨[], [], (ensureWorkerCount_silent fresh m).booked rfl⟩
    | queryDone k answer =>
      cases answer with
      | error => exact hd.elim
      | rows rows =>
        cases rows with
        | nil => exact hd.elim
        | cons row rest =>
          obtain ⟨ds, hds⟩ := freeWorkersToWork_shift (filled m k (row :: rest))
          have hall := (filled_shift k (row :: rest) m).trans hds
          rw [add_zero, List.append_nil] at hall
          exact ⟨_, ds, hall.booked⟩
    | processQueuedRetries =>
      let swept := Master.requestRetries m.sweepRetries.1 m.sweepRetries.2
      have hswept : Apart swept := ha
      obtain ⟨en, ds, hds⟩ := retryLocally_shift hswept
      have hsweep : Shift m swept 0 [] [] := .same rfl
      exact ⟨en, ds, (hsweep.trans hds).booked⟩
    | wait | roundTimer | restartTimer | updateStats | hostStatus => exact hd.elim
  · refine hquiet (handle_workload m hd) ?_
    cases e with
    | message pid msg =>
      cases msg with
      | recheck => exact absurd trivial hd
      | totals | notifyStatusChange | notifyStillDown | stopWork | sendWork | stats => rfl
    | queryDone k answer =>
      cases answer with
      | error => rfl
      | rows rows =>
        cases rows with
        | nil => rfl
        | cons => exact absurd trivial hd
    | wait | reload | workerExit | ensureWorkerCount | roundTimer | restartTimer | updateStats
    | processQueuedRetries | hostStatus => rfl

/-- What the events of a run contribute, each seen from the state it meets. -/
def total (f : Master → Event → Multiset Site) (m : Master) : List Event → Multiset Site
  | [] => 0
  | e :: es => f m e + total f (handle m e) es

theorem sum_payloadsTo (S : Finset Pid) (ds : List Dispatch) (h : ∀ d ∈ ds, d.pid ∈ S) :
    (∑ p ∈ S, ↑((payloadsTo p ds).flatMap ToWorker.sites) : Multiset Site) =
      ↑(ds.flatMap Dispatch.payload) := by
  induction ds with
  | nil => simp
  | cons d ds ih =>
    have hrest := ih fun d' hd' => h d' (List.mem_cons_of_mem _ hd')
    have hone : ∀ p, (((payloadsTo p (d :: ds)).flatMap ToWorker.sites : List Site) :
        Multiset Site) = (if p = d.pid then ↑d.payload else 0) +
          ↑((payloadsTo p ds).flatMap ToWorker.sites) := by
      intro p
      by_cases hp : d.pid = p
      · simp [payloadsTo, hp, ToWorker.sites]
      · simp [payloadsTo, hp, Ne.symm hp]
    rw [Finset.sum_congr rfl fun p _ => hone p, Finset.sum_add_distrib, hrest,
      Finset.sum_ite_eq', if_pos (h d (List.mem_cons_self ..))]
    rfl

theorem Booked.sentSites {e : Event} {en : List Site} (h : Booked m e en ds) :
    sentSites m e = ↑(fromQueue ds) + ↑(fromRetries ds) := by
  have hsum := sum_payloadsTo m.arrWorkers.toFinset ds fun d hd =>
    List.mem_toFinset.mpr (h.routed d hd).2.1
  rw [← dispatched_split, ← hsum, SiteLedger.sentSites]
  exact Finset.sum_congr rfl fun p _ => by rw [h.sent p]

/-- What comes in or was there is sent or still there. -/
theorem step_conserves {e : Event} (ha : Apart m) :
    (m.arrObjects : Multiset Site) + ↑m.localRetries + ↑(received m e) =
      ↑(handle m e).arrObjects + ↑(handle m e).localRetries + sentSites m e := by
  obtain ⟨en, ds, h⟩ := handle_booked (e := e) ha
  have hqueue := congrArg (fun l : List Site => (l : Multiset Site)) h.queue
  have hsites := h.sites
  simp only [← Multiset.coe_add] at hqueue
  rw [h.sentSites, add_assoc, hsites]
  calc (m.arrObjects : Multiset Site) + (↑en + ↑(fromRetries ds) + ↑(handle m e).localRetries)
      = (↑m.arrObjects + ↑en) + (↑(fromRetries ds) + ↑(handle m e).localRetries) := by abel
    _ = (↑(fromQueue ds) + ↑(handle m e).arrObjects) +
          (↑(fromRetries ds) + ↑(handle m e).localRetries) := by rw [hqueue]
    _ = _ := by abel

theorem total_conserves (es : List Event) :
    ∀ m : Master, Apart m → (m.arrObjects : Multiset Site) + ↑m.localRetries +
      total (fun m e => ↑(received m e)) m es =
        ↑(machine.exec m es).arrObjects + ↑(machine.exec m es).localRetries +
          total sentSites m es := by
  induction es with
  | nil => intro m _; rfl
  | cons e es ih =>
    intro m ha
    have hstep := step_conserves (e := e) ha
    have hrest := ih (handle m e) (handle_apart ha)
    simp only [total]
    calc (m.arrObjects : Multiset Site) + ↑m.localRetries +
          (↑(received m e) + total (fun m e => ↑(received m e)) (handle m e) es)
        = (↑m.arrObjects + ↑m.localRetries + ↑(received m e)) +
            total (fun m e => ↑(received m e)) (handle m e) es := by abel
      _ = (↑(handle m e).arrObjects + ↑(handle m e).localRetries +
            total (fun m e => ↑(received m e)) (handle m e) es) + sentSites m e := by
          rw [hstep]
          abel
      _ = _ := by
          rw [hrest]
          simp only [Machine.exec]
          have hexec : machine.next m e = handle m e := rfl
          rw [hexec]
          abel

theorem exec_apart {es : List Event} : ∀ m : Master, Apart m → Apart (machine.exec m es) := by
  induction es with
  | nil => intro m h; exact h
  | cons e es ih => intro m h; exact ih _ (handle_apart h)

/-- A failed check below the limit is kept unless its site is being retried already, and one
at the limit becomes one entry of queuedRetries. -/
structure RecheckRouted (m : Master) (pid : Pid) (server : Site) : Prop where
  below : (server.checks.length : ℤ) < m.config.numOfChecks →
    (handle m (.message pid (.recheck server))).queuedRetries = m.queuedRetries ∧
      (handle m (.message pid (.recheck server))).localRetries =
        if Retrying m server then m.localRetries
        else m.localRetries ++ [{ server with processed := false }]
  limit : ¬(server.checks.length : ℤ) < m.config.numOfChecks →
    (handle m (.message pid (.recheck server))).localRetries = m.localRetries ∧
      ∃ entry, entry.server = server ∧ entry.blogId = server.blogId ∧
        entry.monitorUrl = server.monitorUrl ∧ entry.requestsSent = false ∧
        (handle m (.message pid (.recheck server))).queuedRetries = m.queuedRetries ++ [entry]

theorem recheck_routed (m : Master) (pid : Pid) (server : Site) : RecheckRouted m pid server := by
  rcases recheck_cases pid server m with ⟨hlt, hr, he⟩ | ⟨hlt, hr, he⟩ | ⟨hge, he⟩
  · refine ⟨fun _ => ?_, fun h => absurd hlt h⟩
    rw [he, if_pos hr]
    exact ⟨rfl, rfl⟩
  · refine ⟨fun _ => ?_, fun h => absurd hlt h⟩
    rw [he, if_neg hr]
    exact ⟨rfl, rfl⟩
  · refine ⟨fun h => absurd h hge, fun _ => ?_⟩
    rw [he]
    exact ⟨rfl, _, rfl, rfl, rfl, rfl, rfl⟩

/-- The books balance after every run, and every further event is booked. -/
theorem sites_conserved (cfg : Config) (now : ℤ) (es : List Event) :
    let m := machine.exec (Master.boot cfg now) es
    total (fun m e => ↑(received m e)) (Master.boot cfg now) es =
        ↑m.arrObjects + ↑m.localRetries + total sentSites (Master.boot cfg now) es ∧
      (∀ e, ∃ entered ds, Booked m e entered ds) ∧ ∀ pid server, RecheckRouted m pid server := by
  have hboot : Apart (Master.boot cfg now) := fun p hp => absurd hp List.not_mem_nil
  refine ⟨?_, fun e => handle_booked (exec_apart _ hboot),
    fun pid server => recheck_routed _ pid server⟩
  have h := total_conserves es (Master.boot cfg now) hboot
  have hempty : ((Master.boot cfg now).arrObjects : Multiset Site) +
      ↑(Master.boot cfg now).localRetries = 0 := rfl
  rwa [hempty, zero_add] at h

end SiteLedger
