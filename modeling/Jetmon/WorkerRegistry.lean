import Jetmon.SiteLedger
import Jetmon.SystemModel

/-! The four collections of the master that are keyed by the pid of a worker. spawnWorker,
deleteWorker and the case 'stop_work' look at arrWorkers; the cases 'send_work' and 'stats'
take the pid of the message as it is, also when the worker has been deleted. -/
namespace WorkerRegistry

open SiteModel
open TransitionSystem
open MasterState
open MasterDispatch
open MasterFrames

structure Registry where
  workers : List Pid
  free : List Pid
  halted : List Pid
  noted : Pid → Bool

def registry (m : Master) : Registry :=
  ⟨m.arrWorkers, m.freeWorkers, m.haltedWorkers, fun p => (m.workerStats p).isSome⟩

namespace Registry

def forget (pid : Pid) (r : Registry) : Registry where
  workers := r.workers.erase pid
  free := r.free.filter (· ≠ pid)
  halted := r.halted.filter (· ≠ pid)
  noted p := !decide (p = pid ∧ pid ∈ r.workers) && r.noted p

def enrol (pid : Pid) (r : Registry) : Registry :=
  { r.forget pid with workers := (r.forget pid).workers ++ [pid] }

def park (pid : Pid) (r : Registry) : Registry :=
  if pid ∉ r.halted ∧ pid ∉ r.free then { r with free := r.free ++ [pid] } else r

def halt (pid : Pid) (r : Registry) : Registry :=
  if pid ∉ r.halted ∧ pid ∈ r.workers then
    { r with halted := r.halted ++ [pid], free := r.free.filter (· ≠ pid) }
  else r

def note (pid : Pid) (r : Registry) : Registry :=
  { r with noted := fun p => decide (p = pid) || r.noted p }

/-- What the master relies on. -/
structure Consistent (r : Registry) : Prop where
  freeOnce : r.free.Nodup
  haltedOnce : r.halted.Nodup
  apart : ∀ p ∈ r.free, p ∉ r.halted
  free : ∀ p ∈ r.free, p ∈ r.workers
  halted : ∀ p ∈ r.halted, p ∈ r.workers
  noted : ∀ p, r.noted p = true → p ∈ r.workers
  /-- The comparison of maybeEndRound. -/
  allFree : r.workers.length = r.free.length → ∀ p ∈ r.workers, p ∈ r.free

variable {r : Registry} {pid : Pid}

theorem all_free (hfree : r.free.Nodup) (hsub : ∀ p ∈ r.free, p ∈ r.workers)
    (hlen : r.workers.length = r.free.length) : ∀ p ∈ r.workers, p ∈ r.free := by
  have hsubperm : r.free.Subperm r.workers := List.subperm_of_subset hfree hsub
  have hperm := hsubperm.perm_of_length_le (Nat.le_of_eq hlen)
  exact fun p hp => hperm.mem_iff.mpr hp

theorem consistent_of (hfree : r.free.Nodup) (hhalted : r.halted.Nodup)
    (hapart : ∀ p ∈ r.free, p ∉ r.halted) (hin : ∀ p ∈ r.free, p ∈ r.workers)
    (hin' : ∀ p ∈ r.halted, p ∈ r.workers) (hnoted : ∀ p, r.noted p = true → p ∈ r.workers) :
    r.Consistent :=
  ⟨hfree, hhalted, hapart, hin, hin', hnoted, all_free hfree hin⟩

theorem Consistent.fewer_free (h : r.Consistent) {free : List Pid} (hsub : free.Sublist r.free) :
    Consistent { r with free := free } :=
  consistent_of (h.freeOnce.sublist hsub) h.haltedOnce (fun p hp => h.apart p (hsub.subset hp))
    (fun p hp => h.free p (hsub.subset hp)) h.halted h.noted

theorem Consistent.forget (h : r.Consistent) (pid : Pid) : (r.forget pid).Consistent := by
  have hkeep : ∀ {p}, p ∈ r.workers → p ≠ pid → p ∈ r.workers.erase pid :=
    fun hp hne => (List.mem_erase_of_ne hne).mpr hp
  refine consistent_of (h.freeOnce.filter _) (h.haltedOnce.filter _) ?_ ?_ ?_ ?_
  · intro p hp hh
    exact h.apart p (List.mem_filter.mp hp).1 (List.mem_filter.mp hh).1
  · intro p hp
    obtain ⟨hp, hne⟩ := List.mem_filter.mp hp
    exact hkeep (h.free p hp) (of_decide_eq_true hne)
  · intro p hp
    obtain ⟨hp, hne⟩ := List.mem_filter.mp hp
    exact hkeep (h.halted p hp) (of_decide_eq_true hne)
  · intro p hp
    simp only [Registry.forget, Bool.and_eq_true, Bool.not_eq_true', decide_eq_false_iff_not,
      not_and] at hp
    have hin := h.noted p hp.2
    exact hkeep hin fun heq => hp.1 heq (heq ▸ hin)

theorem Consistent.push (h : r.Consistent) (pid : Pid) :
    Consistent { r with workers := r.workers ++ [pid] } :=
  consistent_of h.freeOnce h.haltedOnce h.apart
    (fun p hp => List.mem_append_left _ (h.free p hp))
    (fun p hp => List.mem_append_left _ (h.halted p hp))
    (fun p hp => List.mem_append_left _ (h.noted p hp))

theorem Consistent.enrol (h : r.Consistent) (pid : Pid) : (r.enrol pid).Consistent :=
  (h.forget pid).push pid

theorem Consistent.park (h : r.Consistent) (hpid : pid ∈ r.workers) : (r.park pid).Consistent := by
  unfold Registry.park
  split
  · rename_i hnew
    refine consistent_of ?_ h.haltedOnce ?_ ?_ h.halted h.noted
    · rw [← List.concat_eq_append]
      exact h.freeOnce.concat hnew.2
    · intro p hp
      rcases List.mem_append.mp hp with hp | hp
      · exact h.apart p hp
      · exact List.mem_singleton.mp hp ▸ hnew.1
    · intro p hp
      rcases List.mem_append.mp hp with hp | hp
      · exact h.free p hp
      · exact List.mem_singleton.mp hp ▸ hpid
  · exact h

theorem Consistent.halt (h : r.Consistent) (pid : Pid) : (r.halt pid).Consistent := by
  unfold Registry.halt
  split
  · rename_i hnew
    refine consistent_of (h.freeOnce.filter _) ?_ ?_ ?_ ?_ h.noted
    · rw [← List.concat_eq_append]
      exact h.haltedOnce.concat hnew.1
    · intro p hp hh
      obtain ⟨hp, hne⟩ := List.mem_filter.mp hp
      rcases List.mem_append.mp hh with hh | hh
      · exact h.apart p hp hh
      · exact of_decide_eq_true hne (List.mem_singleton.mp hh)
    · exact fun p hp => h.free p (List.mem_filter.mp hp).1
    · intro p hp
      rcases List.mem_append.mp hp with hp | hp
      · exact h.halted p hp
      · exact List.mem_singleton.mp hp ▸ hnew.2
  · exact h

theorem Consistent.note (h : r.Consistent) (hpid : pid ∈ r.workers) : (r.note pid).Consistent := by
  refine consistent_of h.freeOnce h.haltedOnce h.apart h.free h.halted fun p hp => ?_
  rcases Bool.or_eq_true_iff.mp hp with hp | hp
  · exact of_decide_eq_true hp ▸ hpid
  · exact h.noted p hp

theorem park_unlisted (h : r.Consistent) (hpid : pid ∉ r.workers) : ¬(r.park pid).Consistent := by
  intro hpark
  have hnew : pid ∉ r.halted ∧ pid ∉ r.free :=
    ⟨fun hh => hpid (h.halted pid hh), fun hf => hpid (h.free pid hf)⟩
  rw [Registry.park, if_pos hnew] at hpark
  exact hpid (hpark.free pid (List.mem_append_right _ (List.mem_singleton_self pid)))

theorem note_unlisted (hpid : pid ∉ r.workers) : ¬(r.note pid).Consistent :=
  fun hnote => hpid (hnote.noted pid (Bool.or_eq_true_iff.mpr (.inl (decide_eq_true rfl))))

end Registry

open Registry (consistent_of)

variable {m : Master} {pid : Pid}

theorem deleteWorker_registry (pid : Pid) (m : Master) :
    registry (m.deleteWorker pid) = if pid = 0 then registry m else (registry m).forget pid := by
  unfold Master.deleteWorker
  split
  · rfl
  · unfold registry Registry.forget
    simp only [Registry.mk.injEq, true_and]
    funext p
    by_cases hp : p = pid ∧ pid ∈ m.arrWorkers
    · simp [hp]
    · simp [hp]

theorem deleteWorker_consistent (h : (registry m).Consistent) (pid : Pid) :
    (registry (m.deleteWorker pid)).Consistent := by
  rw [deleteWorker_registry]
  split
  · exact h
  · exact h.forget pid

theorem spawnWorker_registry (pid : Pid) (m : Master) : registry (m.spawnWorker pid) =
    if pid = 0 then { registry m with workers := m.arrWorkers ++ [pid] }
    else (registry m).enrol pid := by
  have hpush : ∀ m : Master, registry { m with arrWorkers := m.arrWorkers ++ [pid] } =
      { registry m with workers := (registry m).workers ++ [pid] } := fun _ => rfl
  rw [Master.spawnWorker, hpush, deleteWorker_registry]
  split <;> rfl

theorem spawnWorker_consistent (h : (registry m).Consistent) (pid : Pid) :
    (registry (m.spawnWorker pid)).Consistent := by
  rw [spawnWorker_registry]
  split
  · exact h.push pid
  · exact h.enrol pid

theorem ensureWorkerCount_consistent (h : (registry m).Consistent) (fresh : List Pid) :
    (registry (m.ensureWorkerCount fresh)).Consistent :=
  ensureWorkerCount_invariant (I := fun m => (registry m).Consistent) h
    fun _ h pid _ => spawnWorker_consistent h pid

theorem workerExit_consistent (h : (registry m).Consistent) (pid : Pid) (code : ExitCode)
    (fresh : Pid) : (registry (m.workerExit pid code fresh)).Consistent := by
  have hreset : (registry (m.resetChannel pid)).Consistent := h
  exact workerExit_invariant (I := fun m => (registry m).Consistent)
    (deleteWorker_consistent hreset pid) fun _ _ h => spawnWorker_consistent h fresh

theorem maybeEndRound_registry (m : Master) : registry m.maybeEndRound = registry m := by
  obtain ⟨_, _, he⟩ := maybeEndRound_eq m
  rw [he]
  rfl

theorem getMoreSites_registry (m : Master) : registry m.getMoreSites = registry m := by
  simp only [Master.getMoreSites]
  split <;> rfl

theorem assignWorkToWorker_registry (pid : Pid) (size : Option ℤ) (m : Master) :
    registry (m.assignWorkToWorker pid size) = registry m := by
  rw [assignWorkToWorker_eq]
  split <;> rfl

theorem halt_consistent (h : (registry m).Consistent) (pid : Pid) :
    (registry (m.halt pid)).Consistent := by
  rcases halt_cases pid m with ⟨hk, hh, he⟩ | ⟨-, he⟩ <;> rw [he]
  · have hhalt := h.halt pid
    have hin : pid ∉ (registry m).halted ∧ pid ∈ (registry m).workers := ⟨hh, hk.2⟩
    rw [Registry.halt, if_pos hin] at hhalt
    exact hhalt
  · exact h

theorem sendWork_registry (pid : Pid) (m : Master) : registry (m.sendWork pid) =
    if m.config.numWorkers < m.arrWorkers.length ∨ m.arrObjects ≠ [] then registry m
    else (registry m).park pid := by
  have hfetch : ∀ m : Master, registry (fetch m) = registry m := by
    intro m
    unfold fetch
    split
    · rfl
    · exact getMoreSites_registry m
  rcases sendWork_cases pid m with ⟨hover, he⟩ | ⟨hle, ha, he⟩ | ⟨-, ha, he⟩ <;> rw [he]
  · rw [if_pos (Or.inl hover)]
    by_cases hk : Known m pid
    · rw [if_pos hk]
      rfl
    · rw [if_neg hk]
  · rw [if_neg (not_or.mpr ⟨Int.not_lt.mpr hle, not_not.mpr ha⟩), maybeEndRound_registry, hfetch,
      MasterDispatch.park, Registry.park]
    by_cases hnew : pid ∉ m.haltedWorkers ∧ pid ∉ m.freeWorkers
    · have hnew' : pid ∉ (registry m).halted ∧ pid ∉ (registry m).free := hnew
      rw [if_pos hnew, if_pos hnew']
      rfl
    · have hnew' : ¬(pid ∉ (registry m).halted ∧ pid ∉ (registry m).free) := hnew
      rw [if_neg hnew, if_neg hnew']
  · rw [if_pos (Or.inr ha), assignWorkToWorker_registry]

theorem sendWork_consistent (h : (registry m).Consistent)
    (hpid : pid ∈ m.arrWorkers ∨ m.config.numWorkers < m.arrWorkers.length ∨ m.arrObjects ≠ []) :
    (registry (m.sendWork pid)).Consistent := by
  rw [sendWork_registry]
  split
  · exact h
  · rename_i hnot
    exact h.park (hpid.resolve_right hnot)

theorem freeWorkersToWork_consistent (h : (registry m).Consistent) :
    (registry m.freeWorkersToWork).Consistent := by
  rcases freeWorkersToWork_cases m with ⟨-, he⟩ | ⟨-, he, -⟩ <;> rw [he]
  · exact h
  · apply freeLoop_invariant (I := fun m => (registry m).Consistent) m.freeWorkers
    · exact h.fewer_free (List.nil_sublist _)
    · exact fun m' h pid _ hk => sendWork_consistent h (.inl hk.2)

theorem retryLocally_consistent (h : (registry m).Consistent) :
    (registry m.retryLocally).Consistent := by
  have hloop : (registry (retryLoop m m.localRetries).1).Consistent := by
    refine retryLoop_invariant (I := fun m => (registry m).Consistent) h ?_
    intro server _ m₁ m₂ h hmove
    cases hmove with
    | keep => exact h
    | hand => exact h.fewer_free (List.eraseIdx_sublist ..)
    | requeue => exact h
  rcases retryLocally_cases m with ⟨-, he⟩ | ⟨-, he⟩ <;> rw [he]
  · exact hloop
  · split
    · exact hloop
    · exact hloop.fewer_free (List.nil_sublist _)

theorem reload_registry (cfg : Config) (m : Master) : registry (m.reload cfg) = registry m :=
  reload_invariant (I := fun m' => registry m' = registry m) rfl fun _ h _ _ => h

theorem keepStats_registry (pid : Pid) (stats : WorkerStats) (checkStats : CheckStats)
    (m : Master) : registry (m.keepStats pid stats checkStats) = (registry m).note pid := by
  unfold registry Registry.note Master.keepStats
  simp only [Registry.mk.injEq, true_and]
  funext p
  by_cases hp : p = pid
  · simp [hp]
  · simp [hp]

theorem stats_registry (pid : Pid) (stats : WorkerStats) (checkStats : CheckStats) (m : Master) :
    registry (MasterState.handle m (.message pid (.stats stats checkStats))) =
      (registry m).note pid := by
  rw [← keepStats_registry pid stats checkStats]
  rcases stats_cases pid stats checkStats m with ⟨-, he⟩ | he <;> rw [he]
  exact assignWorkToWorker_registry ..

/-- The run condition: the sender is listed, where it matters. -/
def Listed (m : Master) : MasterState.Event → Prop
  | .message pid (.stats _ _) => pid ∈ m.arrWorkers
  | .message pid .sendWork =>
    pid ∈ m.arrWorkers ∨ m.config.numWorkers < m.arrWorkers.length ∨ m.arrObjects ≠ []
  | _ => True

theorem queryDone_consistent (h : (registry m).Consistent) (answer : QueryAnswer) :
    (registry (m.batchCallback answer)).Consistent := by
  cases answer with
  | error => exact h
  | rows rows =>
    cases rows with
    | nil =>
      have hsame := getMoreSites_registry m
      exact hsame ▸ h
    | cons row rest => exact freeWorkersToWork_consistent h

theorem message_consistent {msg : ToMaster} (h : (registry m).Consistent)
    (hc : Listed m (.message pid msg)) : (registry (handle m (.message pid msg))).Consistent := by
  cases msg with
  | totals | notifyStatusChange | notifyStillDown => exact h
  | stopWork =>
    have hhalt := halt_consistent h pid
    rw [← maybeEndRound_registry] at hhalt
    exact hhalt
  | sendWork => exact sendWork_consistent h hc
  | stats stats checkStats =>
    rw [stats_registry]
    exact h.note hc
  | recheck server =>
    obtain ⟨_, _, _, he⟩ := recheck_eq pid server m
    rw [he]
    exact h

theorem updateStats_registry (m : Master) : registry m.updateStats = registry m := by
  have hwatch : registry m.watchdog = registry m := by
    unfold Master.watchdog
    split <;> rfl
  exact hwatch

theorem checkHostStatus_registry (data : Reply) (m : Master) :
    registry (m.checkHostStatus data) = registry m := by
  simp only [Master.checkHostStatus]
  split
  · rfl
  · split <;> rfl

theorem handle_consistent {e : MasterState.Event} (h : (registry m).Consistent) (hc : Listed m e) :
    (registry (handle m e)).Consistent := by
  have hsame : ∀ {m' : Master}, registry m' = registry m → (registry m').Consistent :=
    fun heq => heq ▸ h
  cases e with
  | wait now => exact h
  | reload cfg => exact hsame (reload_registry cfg m)
  | message pid msg => exact message_consistent h hc
  | workerExit pid code fresh => exact workerExit_consistent h pid code fresh
  | ensureWorkerCount fresh => exact ensureWorkerCount_consistent h fresh
  | queryDone k answer =>
    have hdone : (registry { m with queries := m.queries.eraseIdx k }).Consistent := h
    exact queryDone_consistent hdone answer
  | roundTimer k => exact hsame (getMoreSites_registry _)
  | restartTimer k => exact hsame (getMoreSites_registry _)
  | updateStats => exact hsame (updateStats_registry m)
  | processQueuedRetries =>
    have hswept : (registry (Master.requestRetries m.sweepRetries.1 m.sweepRetries.2)).Consistent :=
      h
    exact retryLocally_consistent hswept
  | hostStatus data => exact hsame (checkHostStatus_registry data m)

theorem unlisted_breaks {e : MasterState.Event} (h : (registry m).Consistent) (hc : ¬Listed m e) :
    ¬(registry (handle m e)).Consistent := by
  cases e with
  | message pid msg =>
    cases msg with
    | sendWork =>
      obtain ⟨hpid, hnot⟩ := not_or.mp hc
      have hpark := sendWork_registry pid m
      rw [if_neg hnot] at hpark
      exact fun hnext => Registry.park_unlisted h hpid (hpark ▸ hnext)
    | stats stats checkStats =>
      have hnote := stats_registry pid stats checkStats m
      exact fun hnext => Registry.note_unlisted hc (hnote ▸ hnext)
    | totals | recheck | notifyStatusChange | notifyStillDown | stopWork => exact absurd trivial hc
  | wait | reload | workerExit | ensureWorkerCount | queryDone | roundTimer | restartTimer
  | updateStats | processQueuedRetries | hostStatus => exact absurd trivial hc

theorem boot_consistent (cfg : Config) (now : ℤ) :
    (registry (Master.boot cfg now)).Consistent :=
  consistent_of List.nodup_nil List.nodup_nil nofun nofun nofun nofun

/-- In whatever order workers are created, send messages and are deleted, the collections stay
consistent exactly as long as no deleted worker asks for work or reports stats. -/
theorem registry_consistent_iff {m : Master} {es : List MasterState.Event}
    (h₀ : MasterState.machine.start m) (hv : MasterState.machine.Valid Unrestricted m es) :
    MasterState.machine.Always (fun m => (registry m).Consistent) m es ↔
      MasterState.machine.Valid Listed m es := by
  refine always_iff_valid (I := fun m => (registry m).Consistent) (fun _ h => h)
    (fun _ _ h _ _ hc => handle_consistent h hc) (fun _ _ h _ _ hc => unlisted_breaks h hc) ?_ hv
  obtain ⟨cfg, now, rfl⟩ := h₀
  exact boot_consistent cfg now

theorem maybeEndRound_all_free (h : (registry m).Consistent)
    (hend : m.maybeEndRound.inRound ≠ m.inRound) : ∀ p ∈ m.arrWorkers, p ∈ m.freeWorkers := by
  unfold Master.maybeEndRound at hend
  split at hend
  · rename_i hround
    exact h.allFree hround.2.2
  · exact absurd rfl hend

open SystemModel

variable {s : System}

def Hears (s : System) : SystemModel.Event → Prop
  | .hear pid => ∀ msg ∈ (s.toMaster pid).head?, Listed s.master (.message pid msg)
  | _ => True

theorem reachable_consistent (hr : Reachable SystemModel.machine Hears s) :
    (registry s.master).Consistent := by
  refine reachable_invariant (I := fun s => (registry s.master).Consistent) ?_ ?_ hr
  · rintro s ⟨cfg, now, rfl⟩
    exact boot_consistent cfg now
  · intro s e _ h he hc
    change (registry (SystemModel.next s e).master).Consistent
    cases next_ran (s := s) (e := e) he with
    | @own me _ _ hm =>
      rw [hm]
      apply handle_consistent h
      cases me with
      | message => exact he.2.1.elim
      | wait | reload | workerExit | ensureWorkerCount | queryDone | roundTimer | restartTimer
      | updateStats | processQueuedRetries | hostStatus => trivial
    | heard hread hm =>
      rw [hm]
      exact handle_consistent h (hc _ (by rw [hread]; rfl))
    | idle _ hm =>
      rw [hm]
      exact h

theorem every_process_free (hr : Reachable SystemModel.machine Hears s)
    (hlen : s.master.arrWorkers.length = s.master.freeWorkers.length) {p : Pid} {x : Process}
    (hx : s.processes p = some x) : p ∈ s.master.freeWorkers := by
  have hone := ((reachable_roster hr p).listed x hx).2
  have hin : p ∈ s.master.arrWorkers := List.count_pos_iff.mp (by omega)
  exact (reachable_consistent hr).allFree hlen p hin

def launch : Pid → Launch := fun _ => ⟨oneWorker, "jetmon", 0⟩

def firstRequest : List MasterState.Event :=
  [.ensureWorkerCount [7], .message 7 .sendWork, .message 7 .stopWork, .workerExit 7 .maxChecks 8]

theorem registry_consistent_iff_first_request :
    MasterState.machine.Always (fun m => (registry m).Consistent) (Master.boot oneWorker 0)
        firstRequest ↔
      MasterState.machine.Valid Listed (Master.boot oneWorker 0) firstRequest :=
  registry_consistent_iff ⟨_, _, rfl⟩ (by decide)

/-- The worker dies after its first request, and its exit is seen first. The two lengths agree
then, and the round is over, while the replacement is not free. -/
theorem late_request_parked :
    ¬∀ s, Reachable SystemModel.machine Unrestricted s → (registry s.master).Consistent := by
  intro h
  have hr : Reachable SystemModel.machine Unrestricted (SystemModel.machine.exec
      (System.boot oneWorker 0) [.master (.ensureWorkerCount [7]) launch, .worker 7 .startup,
        .crash 7 .other, .master (.workerExit 7 .other 8) launch, .hear 7]) :=
    exec_reachable (.start ⟨_, _, rfl⟩) (by decide)
  have hfree := (h _ hr).allFree (by decide) 8 (by decide)
  exact absurd hfree (by decide)

end WorkerRegistry
