import Jetmon.Escalation
import Jetmon.SiteLedger
import Jetmon.SystemModel

/-! Sites that are being rechecked and sites that are escalated. add_server_to_local_retries
looks whether a site is there before it adds it; host_check_request does not. -/
namespace OneEscalation

open SiteModel
open TransitionSystem
open MasterState
open MasterDispatch
open MasterFrames
open SystemModel
open Escalation

def retriedKeys (m : Master) : List Key := m.localRetries.map siteKey

def queuedKeys (m : Master) : List Key := m.queuedRetries.map entryKey

/-- Each site is there once, so that a reply is credited to the entry of its site. -/
structure OneEach (m : Master) : Prop where
  queued : (queuedKeys m).Nodup
  retried : (retriedKeys m).Nodup
  found : ∀ e ∈ m.queuedRetries, ∀ data, e.concerns data = true → credited m data = some e

/-- A failed check is not escalated while an entry of its site is queued. -/
def Unescalated (m : Master) : ToMaster → Prop
  | .recheck server =>
    (server.checks.length : ℤ) < m.config.numOfChecks ∨ siteKey server ∉ queuedKeys m
  | _ => True

/-- The run condition: what the master reads next may be escalated. -/
def Vacant (s : System) : SystemModel.Event → Prop
  | .hear pid => ∀ msg ∈ (s.toMaster pid).head?, Unescalated s.master msg
  | _ => True

def listings : List SystemModel.Event → List (List Key)
  | [] => [[]]
  | .master (.roundTimer _) _ :: es | .master (.restartTimer _) _ :: es => [] :: listings es
  | .master (.queryDone _ (.rows rows)) _ :: es =>
    (listings es).modifyHead fun listed =>
      rows.map (fun row => (row.blogId, row.monitorUrl)) ++ listed
  | _ :: es => listings es

def ListedOnce (es : List SystemModel.Event) : Prop := ∀ listed ∈ listings es, listed.Nodup

instance (es : List SystemModel.Event) : Decidable (ListedOnce es) := by
  unfold ListedOnce
  infer_instance

variable {m : Master} {s : System}

theorem entryKey_concerns {e : RetryEntry} {data : Reply} :
    e.concerns data = true ↔ entryKey e = (data.blogId, data.monitorUrl) := by
  simp [RetryEntry.concerns, entryKey]

theorem credited_of_nodup (h : (queuedKeys m).Nodup) {e : RetryEntry} (he : e ∈ m.queuedRetries)
    {data : Reply} (hd : e.concerns data = true) : credited m data = some e := by
  rcases checkHostStatus_cases data m with ⟨hnone, -⟩ | ⟨before, e', after, hq, -, hs, -⟩
  · rw [credited, List.head?_eq_none_iff, List.dropWhile_eq_nil_iff] at hnone
    have hnot := hnone e he
    rw [hd] at hnot
    contradiction
  · have hfound : e'.concerns data = true := by
      have hhead := List.head?_dropWhile_not (fun e => !e.concerns data) m.queuedRetries
      rw [← credited, hs] at hhead
      simpa using hhead
    have he' : e' ∈ m.queuedRetries := hq ▸ List.mem_append_right _ (List.mem_cons_self ..)
    rw [hs, List.inj_on_of_nodup_map h he' he
      ((entryKey_concerns.mp hfound).trans (entryKey_concerns.mp hd).symm)]

theorem oneEach_iff : OneEach m ↔ (queuedKeys m).Nodup ∧ (retriedKeys m).Nodup :=
  ⟨fun h => ⟨h.queued, h.retried⟩,
    fun h => ⟨h.1, h.2, fun _ he _ hd => credited_of_nodup h.1 he hd⟩⟩

theorem freeWorkersToWork_retries (m : Master) :
    m.freeWorkersToWork.localRetries = m.localRetries := by
  rcases freeWorkersToWork_cases m with ⟨-, he⟩ | ⟨-, -, hm⟩
  · rw [he]
  · have hretries := (moves_lists hm).2
    exact hretries

theorem assignWorkToWorker_retries (pid : Pid) (size : Option ℤ) (m : Master) :
    (m.assignWorkToWorker pid size).localRetries = m.localRetries := by
  rw [assignWorkToWorker_eq]
  split <;> rfl

theorem topUp_retries (pid : Pid) (stats : WorkerStats) (m : Master) :
    (m.topUp pid stats).localRetries = m.localRetries := by
  unfold Master.topUp
  split
  · exact assignWorkToWorker_retries ..
  · rfl

theorem retryLoop_sublist (m : Master) (servers : List Site) :
    (retryLoop m servers).1.localRetries.Sublist servers := by
  induction servers with
  | nil => exact List.Sublist.slnil
  | cons server rest ih =>
    have hturn : retryLoop m (server :: rest) = Master.retryStep server (retryLoop m rest) := rfl
    rw [hturn]
    rcases retryStep_cases server (retryLoop m rest).1 (retryLoop m rest).2 with ⟨-, he⟩ |
      ⟨-, i, pid, -, -, -, he⟩ | ⟨-, -, he⟩ <;> rw [he]
    · exact ih.cons_cons server
    · exact ih.cons server
    · exact ih.cons server

theorem retryLocally_sublist (m : Master) :
    m.retryLocally.localRetries.Sublist m.localRetries := by
  have hloop := retryLoop_sublist m m.localRetries
  rcases retryLocally_cases m with ⟨-, he⟩ | ⟨-, he⟩ <;> rw [he]
  · exact hloop
  · split <;> exact hloop

theorem reload_retries (cfg : Config) (m : Master) :
    (m.reload cfg).localRetries = m.localRetries :=
  reload_invariant (I := fun m' => m'.localRetries = m.localRetries) rfl fun _ h _ _ => h

theorem handle_retries (m : Master) (e : MasterState.Event) :
    (handle m e).localRetries.Sublist m.localRetries ∨
      ∃ pid server, e = .message pid (.recheck server) ∧
      ¬SiteLedger.Retrying m server ∧
        (handle m e).localRetries = m.localRetries ++ [{ server with processed := false }] := by
  have hsame : (handle m e).localRetries = m.localRetries →
      (handle m e).localRetries.Sublist m.localRetries := fun h => h ▸ List.Sublist.refl _
  by_cases hd : Dispatches e
  · cases e with
    | reload cfg => exact .inl (hsame (reload_retries cfg m))
    | workerExit pid code fresh =>
      exact .inl (hsame (SiteLedger.workerExit_silent pid code fresh m).retries)
    | ensureWorkerCount fresh =>
      exact .inl (hsame (SiteLedger.ensureWorkerCount_silent fresh m).retries)
    | processQueuedRetries => exact .inl (retryLocally_sublist _)
    | queryDone k answer =>
      cases answer with
      | error => exact hd.elim
      | rows rows =>
        cases rows with
        | nil => exact hd.elim
        | cons row rest => exact .inl (hsame (freeWorkersToWork_retries _))
    | message pid msg =>
      cases msg with
      | stopWork => exact .inl (hsame (SiteLedger.stopWork_silent pid m).retries)
      | sendWork => exact .inl (hsame ((moves_lists (sendWork_moves pid m)).2))
      | stats stats checkStats => exact .inl (hsame (topUp_retries pid stats _))
      | recheck server =>
        rcases SiteLedger.recheck_cases pid server m with ⟨-, -, he⟩ | ⟨-, hnew, he⟩ | ⟨-, he⟩
        · exact .inl (hsame (by rw [he]))
        · exact .inr ⟨pid, server, rfl, hnew, by rw [he]⟩
        · exact .inl (hsame (by rw [he]; rfl))
      | totals | notifyStatusChange | notifyStillDown => exact hd.elim
    | wait | roundTimer | restartTimer | updateStats | hostStatus => exact hd.elim
  · exact .inl (hsame (congrArg Workload.localRetries (handle_workload m hd)))

theorem retrying_iff {server : Site} :
    SiteLedger.Retrying m server ↔ siteKey server ∈ retriedKeys m := by
  simp [SiteLedger.Retrying, retriedKeys, siteKey]

theorem handle_retriedKeys {e : MasterState.Event} (h : (retriedKeys m).Nodup) :
    (retriedKeys (handle m e)).Nodup := by
  rcases handle_retries m e with hsub | ⟨pid, server, -, hnew, he⟩
  · exact h.sublist (hsub.map siteKey)
  · have hkeys : retriedKeys (handle m e) = (retriedKeys m).concat (siteKey server) := by
      rw [retriedKeys, he, List.map_append, List.concat_eq_append]
      rfl
    rw [hkeys]
    exact List.Nodup.concat (mt retrying_iff.mpr hnew) h

theorem crediting_keys {data : Reply} {before : List RetryEntry} {e : RetryEntry}
    {after : List RetryEntry} (hq : m.queuedRetries = before ++ e :: after) :
    queuedKeys (crediting m data before e after) = queuedKeys m := by
  unfold crediting
  dsimp only
  split <;> simp [queuedKeys, hq, entryKey, RetryEntry.count]

theorem hostCheckRequest_keys (server : Site) (m : Master) :
    queuedKeys (m.hostCheckRequest server) = (queuedKeys m).concat (siteKey server) := by
  rw [queuedKeys, Master.hostCheckRequest, List.map_append, List.concat_eq_append]
  rfl

theorem handle_queued (m : Master) (e : MasterState.Event) :
    (queuedKeys (handle m e)).Sublist (queuedKeys m) ∨ ∃ pid server,
      e = .message pid (.recheck server) ∧ ¬(server.checks.length : ℤ) < m.config.numOfChecks ∧
        queuedKeys (handle m e) = (queuedKeys m).concat (siteKey server) := by
  have hsame : queuedKeys (handle m e) = queuedKeys m →
      (queuedKeys (handle m e)).Sublist (queuedKeys m) := fun h => h ▸ List.Sublist.refl _
  cases handle_change m e with
  | same h =>
    have hq : (handle m e).queuedRetries = m.queuedRetries := congrArg Escalations.queuedRetries h
    exact .inl (hsame (by rw [queuedKeys, hq, queuedKeys]))
  | requested hlimit he =>
    exact .inr ⟨_, _, rfl, hlimit, by rw [he, hostCheckRequest_keys]⟩
  | notified _ _ he => exact .inl (hsame (by rw [he]; rfl))
  | swept hq =>
    rw [queuedKeys, hq]
    exact .inl (swept_map_sublist fun _ => rfl)
  | credited hq _ he => exact .inl (hsame (by rw [he, crediting_keys hq]))

theorem handle_oneEach {e : MasterState.Event} (h : OneEach m)
    (hvacant : ∀ pid msg, e = .message pid msg → Unescalated m msg) : OneEach (handle m e) := by
  refine oneEach_iff.mpr ⟨?_, handle_retriedKeys h.retried⟩
  rcases handle_queued m e with hsub | ⟨pid, server, rfl, hlimit, hkeys⟩
  · exact h.queued.sublist hsub
  · have hnew : siteKey server ∉ queuedKeys m :=
      (hvacant pid (.recheck server) rfl).resolve_left hlimit
    rw [hkeys]
    exact List.Nodup.concat hnew h.queued

theorem recheck_not_oneEach {pid : Pid} {msg : ToMaster} (h : ¬Unescalated m msg) :
    ¬OneEach (handle m (.message pid msg)) := by
  cases msg with
  | recheck server =>
    obtain ⟨hlimit, hmem⟩ := not_or.mp h
    intro hone
    have hnodup := hone.queued
    rcases SiteLedger.recheck_cases pid server m with ⟨hlt, -⟩ | ⟨hlt, -⟩ | ⟨-, he⟩
    · exact hlimit hlt
    · exact hlimit hlt
    · rw [he, hostCheckRequest_keys, List.nodup_concat] at hnodup
      exact hmem hnodup.1
  | totals | notifyStatusChange | notifyStillDown | stopWork | sendWork | stats =>
    exact absurd trivial h

theorem step_oneEach {e : SystemModel.Event} (h : OneEach s.master)
    (he : SystemModel.Enabled s e) (hc : Vacant s e) : OneEach (SystemModel.next s e).master := by
  cases next_ran he with
  | own hm =>
    rw [hm]
    apply handle_oneEach h
    rintro pid msg rfl
    exact he.2.1.elim
  | heard hread hm =>
    rw [hm]
    apply handle_oneEach h
    rintro _ _ ⟨⟩
    exact hc _ (by rw [hread]; rfl)
  | idle _ hm =>
    rw [hm]
    exact ⟨h.queued, h.retried, h.found⟩

/-- The master keeps at most one entry for a site exactly when it escalates no site that is
escalated already. -/
theorem one_escalation_iff {s : System} {es : List SystemModel.Event}
    (h₀ : SystemModel.machine.start s) (hv : SystemModel.machine.Valid Unrestricted s es) :
    SystemModel.machine.Always (fun s => OneEach s.master) s es ↔
      SystemModel.machine.Valid Vacant s es := by
  refine always_iff_valid (I := fun s => OneEach s.master) (fun _ h => h)
    (fun _ _ h he _ hc => step_oneEach h he hc) ?_ ?_ hv
  · intro s e _ he _ hc
    cases e with
    | hear pid =>
      simp only [Vacant, not_forall] at hc
      obtain ⟨msg, hmsg, hnot⟩ := hc
      change ¬OneEach (SystemModel.next s (.hear pid)).master
      cases next_ran (s := s) (e := .hear pid) he with
      | heard hread hm =>
        rw [hread, List.head?_cons, Option.mem_some_iff] at hmsg
        rw [hm, hmsg]
        exact recheck_not_oneEach hnot
      | idle hear => exact absurd rfl (hear pid)
    | master | deliver | worker | crash => exact absurd trivial hc
  · obtain ⟨cfg, now, rfl⟩ := h₀
    exact oneEach_iff.mpr ⟨List.nodup_nil, List.nodup_nil⟩

/-- A site that is being rechecked is rechecked once, whatever the rounds. -/
theorem reachable_retriedKeys {C : System → SystemModel.Event → Prop}
    (hr : Reachable SystemModel.machine C s) : (retriedKeys s.master).Nodup := by
  refine reachable_invariant (I := fun s => (retriedKeys s.master).Nodup) ?_ ?_ hr
  · rintro s ⟨cfg, now, rfl⟩
    exact List.nodup_nil
  · intro s e _ h he _
    cases next_ran (s := s) (e := e) he with
    | own hm => exact hm ▸ handle_retriedKeys h
    | heard _ hm => exact hm ▸ handle_retriedKeys h
    | idle _ hm => exact hm ▸ h

def oneCheck : Config :=
  { sampleConfig with
    numWorkers := 1
    bucketNoMax := 32
    numOfChecks := 1
    useVariableCheckIntervals := true }

def launch : Pid → Launch := fun _ => ⟨oneCheck, "jetmon", 0⟩

def failedCheck (now : ℤ) : List SystemModel.Event :=
  [.master (.queryDone 0 (.rows [⟨1, "http://example.com", .running, none⟩])) launch,
    .deliver 7 oneCheck 0, .worker 7 (.checkTimer now), .worker 7 (.complete 0 now ⟨0, 0, 1, 0⟩),
    .hear 7]

def firstRound : List SystemModel.Event :=
  [.master (.ensureWorkerCount [7]) launch, .worker 7 .startup, .hear 7] ++ failedCheck 0 ++
    [.hear 7, .master .processQueuedRetries launch]

theorem one_escalation_iff_first_round :
    SystemModel.machine.Always (fun s => OneEach s.master) (System.boot oneCheck 0) firstRound ↔
      SystemModel.machine.Valid Vacant (System.boot oneCheck 0) firstRound :=
  one_escalation_iff ⟨_, _, rfl⟩ (by decide)

/-- The verifliers have not answered when the next round begins a minute later. -/
def twoRounds : List SystemModel.Event :=
  firstRound ++ [.master (.wait 60000) launch, .master .processQueuedRetries launch,
    .master (.roundTimer 0) launch] ++ failedCheck 60000

theorem second_escalation :
    ¬∀ cfg now es, SystemModel.machine.Valid Unrestricted (System.boot cfg now) es →
      ListedOnce es →
        SystemModel.machine.Always (fun s => OneEach s.master) (System.boot cfg now) es := by
  intro h
  have hvalid : SystemModel.machine.Valid Unrestricted (System.boot oneCheck 0) twoRounds := by
    decide
  have hlisted : ListedOnce twoRounds := by decide
  have hlast := always_last (h oneCheck 0 twoRounds hvalid hlisted)
  have htwice : ¬(queuedKeys (SystemModel.machine.exec (System.boot oneCheck 0)
      twoRounds).master).Nodup := by decide
  exact htwice hlast.queued

end OneEscalation
