import Jetmon.SiteFlow
import Jetmon.SiteHistory

/-! What the master notifies besides SITE_DOWN: that a site is back, and that it is still down.
Each such notification is a step from the status of the row the object was built from, and rests
on a single check. TIME_BETWEEN_NOTICES_MIN is the same in every configuration that is read. -/
namespace StatusChanges

open SiteModel
open TransitionSystem
open MasterState
open MasterFrames
open Escalation hiding answer
open WorkerState
open SystemModel
open SiteFlow

inductive Posted (m : Master) : MasterState.Event → List Post → Prop where
  | nothing {e} : Posted m e []
  | back {pid server} : Posted m (.message pid (.notifyStatusChange server)) [.statusChange server]
  | stillDown {pid server} : Posted m (.message pid (.notifyStillDown server))
      [.statusChange { server with siteStatus := .confirmedDown }]
  | down {data before e after} : m.queuedRetries = before ++ e :: after →
      Posted m (.hostStatus data) [.siteDown { e.count m.clock data with siteStatus := some .down }]

theorem handle_posted (m : Master) (e : MasterState.Event) :
    ∃ new, Posted m e new ∧ (MasterState.handle m e).posted = m.posted ++ new := by
  have hquiet : (MasterState.handle m e).posted = m.posted →
      ∃ new, Posted m e new ∧ (MasterState.handle m e).posted = m.posted ++ new :=
    fun h => ⟨[], .nothing, by rw [h, List.append_nil]⟩
  by_cases hback : ∃ pid server, e = .message pid (.notifyStatusChange server)
  · obtain ⟨pid, server, rfl⟩ := hback
    exact ⟨_, .back, rfl⟩
  by_cases hstill : ∃ pid server, e = .message pid (.notifyStillDown server)
  · obtain ⟨pid, server, rfl⟩ := hstill
    exact ⟨_, .stillDown, rfl⟩
  cases handle_change m e with
  | same he => exact hquiet (congrArg Escalations.posted he)
  | requested _ he =>
    apply hquiet
    rw [he]
    rfl
  | @notified pid msg server _ _ hmsg =>
    rcases hmsg with rfl | rfl
    · exact absurd ⟨pid, server, rfl⟩ hback
    · exact absurd ⟨pid, server, rfl⟩ hstill
  | swept _ _ _ hp => exact hquiet hp
  | credited hq _ he =>
    rw [he]
    unfold crediting
    dsimp only
    split
    · exact ⟨_, .down hq, rfl⟩
    · exact ⟨[], .nothing, (List.append_nil _).symm⟩

def masterEvent (s : System) : SystemModel.Event → Option MasterState.Event
  | .master me _ => some me
  | .hear q => (s.toMaster q).head?.map (.message q)
  | .deliver _ _ _ | .worker _ _ | .crash _ _ => none

variable {s : System} {e : SystemModel.Event}

theorem next_posted (he : SystemModel.Enabled s e) : ∃ new,
    (SystemModel.next s e).master.posted = s.master.posted ++ new ∧
      (new = [] ∨ ∃ me ∈ masterEvent s e, Posted s.master me new) := by
  cases next_ran he with
  | own hm =>
    rw [hm]
    obtain ⟨new, hnew, hp⟩ := handle_posted s.master _
    exact ⟨new, hp, Or.inr ⟨_, rfl, hnew⟩⟩
  | heard hread hm =>
    rw [hm]
    obtain ⟨new, hnew, hp⟩ := handle_posted s.master _
    exact ⟨new, hp, Or.inr ⟨_, by simp [masterEvent, hread], hnew⟩⟩
  | idle _ hm =>
    rw [hm]
    exact ⟨[], (List.append_nil _).symm, Or.inl rfl⟩

/-- An object that is to be checked. It is as it was fetched, unless its site was running. -/
structure Unsettled (site : Site) : Prop where
  blogId : site.blogId = site.fetched.blogId
  monitorUrl : site.monitorUrl = site.fetched.monitorUrl
  oldStatus : site.oldStatus = site.fetched.siteStatus
  lastStatusChange : site.lastStatusChange = site.fetched.lastStatusChange.getD 0
  unchecked : site.oldStatus ≠ .running → site.history = [] ∧ site.checks = []

inductive Changed (notices : ℤ) (row : Row) (c : LocalCheck) : SiteStatus → Prop where
  | back : row.siteStatus ≠ .running → c.up = true → Changed notices row c .running
  | stillDown : row.siteStatus = .down → c.up = false →
      row.lastStatusChange.getD 0 + notices * minutes ≤ c.finished →
      Changed notices row c .confirmedDown

/-- An object whose notification is due after a single check. -/
structure Noticed (notices : ℤ) (server : Site) : Prop where
  blogId : server.blogId = server.fetched.blogId
  monitorUrl : server.monitorUrl = server.fetched.monitorUrl
  checked : ∃ c, server.history = [c] ∧ server.lastCheck = some c.finished ∧
    Changed notices server.fetched c server.siteStatus
  reported : ∃ r, server.checks = [r] ∧ r.type = .jetmonCheck ∧ r.status = server.siteStatus.code

def Reports (notices : ℤ) : ToMaster → Prop
  | .recheck server => Unsettled server ∧ server.oldStatus = .running
  | .notifyStatusChange server => Noticed notices server ∧ server.siteStatus = .running
  | .notifyStillDown server => Noticed notices server ∧ server.siteStatus = .confirmedDown
  | .totals _ | .stopWork | .sendWork | .stats _ _ => True

theorem unsettled_ofRow (row : Row) : Unsettled (Site.ofRow row) :=
  ⟨rfl, rfl, rfl, rfl, fun _ => ⟨rfl, rfl⟩⟩

variable {notices now since : ℤ} {w : Worker} {site : Site} {res : Result}

/-- A site is confirmed down when it was known to be down for long enough, or had been before. -/
theorem judge_confirmed (h : w.judge now res site = .confirmedDown)
    (hne : site.oldStatus ≠ .confirmedDown) : site.oldStatus = .down ∧
      site.lastStatusChange + w.config.timeBetweenNoticesMin * minutes ≤ now := by
  unfold Worker.judge at h
  split at h
  · contradiction
  · split at h
    · contradiction
    · rename_i hnot
      rw [not_or, not_and, Int.not_lt] at hnot
      refine ⟨?_, hnot.2 hne⟩
      cases hs : site.oldStatus with
      | down => rfl
      | running => exact absurd hs hnot.1
      | confirmedDown => exact absurd hs hne

theorem Unsettled.noticed (h : Unsettled site) (hold : site.oldStatus ≠ .running)
    (hj : w.judge now res site ≠ site.oldStatus)
    (hc : Changed notices site.fetched ⟨since, now, decide (w.judge now res site = .running)⟩
      (w.judge now res site)) : Noticed notices (w.applyResult now since res site) := by
  obtain ⟨hhistory, hchecks⟩ := h.unchecked hold
  refine ⟨h.blogId, h.monitorUrl, ⟨_, ?_, rfl, hc⟩,
    ⟨⟨.jetmonCheck, w.hostname, (w.judge now res site).code, roundRtt res.rtt, res.httpCode,
      res.errorCode⟩, ?_, rfl, rfl⟩⟩
  · simp only [Worker.applyResult, hhistory]
    rfl
  · simp only [Worker.applyResult, hchecks, if_pos hj]
    rfl

theorem Unsettled.reports (h : Unsettled site) (hn : w.config.timeBetweenNoticesMin = notices) :
    ∀ msg ∈ statusMessages (w.applyResult now since res site), Reports notices msg := by
  intro msg hmsg
  unfold statusMessages at hmsg
  split at hmsg
  case isFalse => contradiction
  case isTrue hne =>
    have hne : w.judge now res site ≠ site.oldStatus := hne
    split at hmsg <;> rename_i hj <;> rw [List.mem_singleton.mp hmsg]
    · have hj : w.judge now res site = .down := hj
      have hrun := SiteHistory.judge_down hj fun hold => hne (hj.trans hold.symm)
      exact ⟨⟨h.blogId, h.monitorUrl, h.oldStatus, h.lastStatusChange,
        fun hnot => absurd hrun hnot⟩, hrun⟩
    · have hj : w.judge now res site = .running := hj
      have hold : site.oldStatus ≠ .running := fun hold => hne (hj.trans hold.symm)
      refine ⟨h.noticed hold hne ?_, hj⟩
      rw [hj]
      exact .back (h.oldStatus ▸ hold) rfl
    · have hj : w.judge now res site = .confirmedDown := hj
      obtain ⟨hdown, htime⟩ := judge_confirmed hj fun hold => hne (hj.trans hold.symm)
      have hold : site.oldStatus ≠ .running := by
        rw [hdown]
        nofun
      refine ⟨h.noticed hold hne ?_, hj⟩
      rw [hj]
      refine .stillDown (h.oldStatus ▸ hdown) rfl ?_
      rw [← h.lastStatusChange, ← hn]
      exact htime

/-- Every configuration that a worker reads has the same TIME_BETWEEN_NOTICES_MIN. -/
def Noticing (notices : ℤ) (_ : System) : SystemModel.Event → Prop
  | .master me launch => ∀ p ∈ me.spawned, (launch p).config.timeBetweenNoticesMin = notices
  | .deliver _ cfg _ => cfg.timeBetweenNoticesMin = notices
  | .hear _ | .worker _ _ | .crash _ _ => True

instance (s : System) : (e : SystemModel.Event) → Decidable (Noticing notices s e)
  | .master me launch =>
    List.decidableBAll (fun p => (launch p).config.timeBetweenNoticesMin = notices) me.spawned
  | .deliver _ cfg _ => Int.instDecidableEq cfg.timeBetweenNoticesMin notices
  | .hear _ | .worker _ _ | .crash _ _ => isTrue trivial

theorem startCheck_config (now : ℤ) (w : Worker) : (w.startCheck now).config = w.config := by
  unfold Worker.startCheck
  split <;> rfl

theorem startChecks_config (now : ℤ) (n : ℕ) (w : Worker) :
    (w.startChecks now n).config = w.config := by
  induction n generalizing w with
  | zero => rfl
  | succ n ih => exact (ih _).trans (startCheck_config now w)

theorem settle_config (w : Worker) : w.settle.config = w.config := by
  unfold Worker.settle
  split
  · split <;> rfl
  · rfl

theorem endOfQueue_config (rss : ℤ) (w : Worker) : (w.endOfQueue rss).1.config = w.config := by
  have hstop : (w.stopDecision rss).1.config = w.config := by
    unfold Worker.stopDecision
    split <;> rfl
  have hask : ∀ v : Worker, v.askForWork.1.config = v.config := by
    intro v
    unfold Worker.askForWork
    split <;> rfl
  calc (w.endOfQueue rss).1.config = (w.stopDecision rss).1.settle.askForWork.1.config := rfl
    _ = (w.stopDecision rss).1.settle.config := hask _
    _ = w.config := (settle_config _).trans hstop

theorem processResultsCallback_config (now : ℤ) (i : ℕ) (since : ℤ) (res : Result) (w : Worker) :
    (w.processResultsCallback now i since res).1.config = w.config := by
  have hqueue : ∀ v : Worker, (v.continueQueue now res.rss).1.config = v.config := by
    intro v
    unfold Worker.continueQueue
    split
    · exact startCheck_config now v
    · exact endOfQueue_config res.rss v
  have hstore : ∀ (v : Worker) status, (v.storeStats status res).config = v.config := by
    intro v status
    unfold Worker.storeStats
    split <;> rfl
  unfold Worker.processResultsCallback
  split
  · rfl
  · exact (hstore _ _).trans (hqueue _)

theorem handle_config (w : Worker) (we : WorkerState.Event) :
    (WorkerState.handle w we).1.config = w.config ∨
      ∃ cfg seed, we = .configUpdate cfg seed ∧ (WorkerState.handle w we).1.config = cfg := by
  cases we with
  | configUpdate cfg seed => exact Or.inr ⟨cfg, seed, rfl, rfl⟩
  | queueAdd payload =>
    left
    simp only [WorkerState.handle, Worker.addToQueue]
    split <;> rfl
  | evaporate =>
    left
    simp only [WorkerState.handle]
    split <;> rfl
  | checkTimer now => exact Or.inl (startChecks_config now _ _)
  | complete k now res =>
    left
    simp only [WorkerState.handle]
    split
    · rfl
    · exact processResultsCallback_config ..
  | startup | totalsTick | statsTick => exact Or.inl rfl

structure Sound (notices : ℤ) (s : System) : Prop where
  objects : Throughout Unsettled s
  workers : ∀ p x, s.processes p = some x → x.worker.config.timeBetweenNoticesMin = notices
  messages : ∀ p, ∀ msg ∈ s.toMaster p, Reports notices msg
  posted : ∀ server, .statusChange server ∈ s.master.posted → Noticed notices server

theorem received_cases {m : Master} {me : MasterState.Event} {site : Site}
    (h : site ∈ SiteLedger.received m me) :
    (∃ k rows row, me = .queryDone k (.rows rows) ∧ row ∈ rows ∧ site = Site.ofRow row) ∨
      ∃ pid server, me = .message pid (.recheck server) ∧
        site = { server with processed := false } := by
  cases me with
  | queryDone k answer =>
    cases answer with
    | rows rows =>
      obtain ⟨row, hrow, rfl⟩ := List.mem_map.mp h
      exact Or.inl ⟨k, rows, row, rfl, hrow, rfl⟩
    | error => contradiction
  | message pid msg =>
    cases msg with
    | recheck server =>
      simp only [SiteLedger.received] at h
      split at h
      · exact Or.inr ⟨pid, server, rfl, List.mem_singleton.mp h⟩
      · contradiction
    | totals | notifyStatusChange | notifyStillDown | stopWork | sendWork | stats => contradiction
  | wait | reload | workerExit | ensureWorkerCount | roundTimer | restartTimer | updateStats
  | processQueuedRetries | hostStatus => contradiction

theorem taken_masterEvent {s : System} {e : SystemModel.Event} {site : Site}
    (h : site ∈ taken s e) :
    ∃ me ∈ masterEvent s e, site ∈ SiteLedger.received s.master me := by
  cases e with
  | master me launch => exact ⟨me, rfl, h⟩
  | hear q =>
    simp only [taken, List.mem_flatMap, Option.mem_toList] at h
    obtain ⟨msg, hmsg, hsite⟩ := h
    exact ⟨.message q msg, by simp [masterEvent, Option.mem_def.mp hmsg], hsite⟩
  | deliver | worker | crash => contradiction

theorem masterEvent_message {s : System} {e : SystemModel.Event} (he : SystemModel.Enabled s e)
    {pid : Pid} {msg : ToMaster} (h : .message pid msg ∈ masterEvent s e) :
    msg ∈ s.toMaster pid ∧ e = .hear pid := by
  cases e with
  | master me launch =>
    obtain rfl : me = .message pid msg := Option.some.inj h
    exact he.2.1.elim
  | hear q =>
    obtain ⟨msg', hmsg, heq⟩ := Option.map_eq_some_iff.mp h
    injection heq with hq hm
    subst hq hm
    exact ⟨List.mem_of_mem_head? hmsg, rfl⟩
  | deliver | worker | crash => contradiction

theorem act_config {q : Pid} {we : WorkerState.Event} {p : Pid} {y : Process}
    (h : ∀ x, s.processes p = some x → x.worker.config.timeBetweenNoticesMin = notices)
    (hread : ∀ cfg seed, we = .configUpdate cfg seed → cfg.timeBetweenNoticesMin = notices)
    (hy : (s.act q we).processes p = some y) : y.worker.config.timeBetweenNoticesMin = notices := by
  cases hx : s.processes q with
  | none =>
    have hsame : s.act q we = s := by simp only [System.act, hx]
    exact h y (hsame ▸ hy)
  | some x =>
    rw [act_eq hx] at hy
    by_cases hp : p = q
    · obtain rfl := Option.some.inj ((if_pos hp).symm.trans hy)
      rcases handle_config x.worker we with hcfg | ⟨cfg, seed, hwe, hcfg⟩
      · exact (congrArg Config.timeBetweenNoticesMin hcfg).trans (h x (hp ▸ hx))
      · exact (congrArg Config.timeBetweenNoticesMin hcfg).trans (hread cfg seed hwe)
    · exact h y ((if_neg hp).symm.trans hy)

theorem next_workers (h : ∀ p x, s.processes p = some x →
      x.worker.config.timeBetweenNoticesMin = notices)
    (he : SystemModel.Enabled s e) (hc : Noticing notices s e) :
    ∀ p x, (SystemModel.next s e).processes p = some x →
      x.worker.config.timeBetweenNoticesMin = notices := by
  intro p y hy
  cases e with
  | master me launch =>
    simp only [SystemModel.next, System.masterStep] at hy
    split at hy
    · obtain rfl := Option.some.inj hy
      exact hc p ‹_›
    · split at hy
      · contradiction
      · exact h p y hy
  | hear q =>
    have hsame : (SystemModel.next s (.hear q)).processes = s.processes := by
      simp only [SystemModel.next, System.hear]
      split <;> rfl
    exact h p y (hsame ▸ hy)
  | deliver q cfg seed =>
    simp only [SystemModel.next] at hy
    split at hy
    · exact h p y hy
    · rename_i msg _ _
      refine act_config (s := s.read q) (h p) ?_ hy
      intro cfg' seed' heq
      cases msg with
      | configUpdate =>
        injection heq with hcfg
        exact hcfg ▸ hc
      | queueAdd | evaporate => contradiction
  | worker q we =>
    refine act_config (h p) ?_ hy
    rintro cfg seed rfl
    obtain ⟨_, _, _, hown, _⟩ := he
    exact hown.elim
  | crash q code =>
    simp only [SystemModel.next, System.crash] at hy
    split at hy
    · obtain ⟨x, hx, rfl⟩ := Option.map_eq_some_iff.mp hy
      exact h p x hx
    · exact h p y hy

theorem step_sound (hr : Reachable SystemModel.machine Unrestricted s) (h : Sound notices s)
    (he : SystemModel.Enabled s e) (hc : Noticing notices s e) :
    Sound notices (SystemModel.next s e) := by
  constructor
  · apply next_throughout hr he h.objects
    intro site hsite
    obtain ⟨me, hme, hrec⟩ := taken_masterEvent hsite
    rcases received_cases hrec with ⟨k, rows, row, rfl, -, rfl⟩ | ⟨pid, server, rfl, rfl⟩
    · exact unsettled_ofRow row
    · have hreports := h.messages pid _ (masterEvent_message he hme).1
      obtain ⟨h₁, h₂, h₃, h₄, h₅⟩ := hreports.1
      exact ⟨h₁, h₂, h₃, h₄, h₅⟩
  · exact next_workers h.workers he hc
  · intro p msg hmsg
    rcases next_messages hr he hmsg with hold | ⟨x, we, rfl, hx, hsays⟩
    · exact h.messages p msg hold
    · cases hsays with
      | aside hnone =>
        cases msg with
        | recheck | notifyStatusChange | notifyStillDown => contradiction
        | totals | stopWork | sendWork | stats => trivial
      | @result k now res o hwe hk hmem =>
        have hin : o.site ∈ reported s (.worker p we) := by
          simp [reported, hx, hwe, completed, hk]
        have hobject := h.objects _ _ (reported_stock hr he o.site hin)
        exact hobject.reports (h.workers p x hx) msg hmem
  · intro server hmem
    obtain ⟨new, hposted, hnew⟩ := next_posted he
    rw [hposted] at hmem
    rcases List.mem_append.mp hmem with hmem | hmem
    · exact h.posted server hmem
    · rcases hnew with rfl | ⟨me, hme, hnew⟩
      · contradiction
      · cases hnew with
        | nothing => contradiction
        | @back pid server' =>
          obtain rfl : server = server' := by simpa using hmem
          have hreports := h.messages pid _ (masterEvent_message he hme).1
          exact hreports.1
        | @stillDown pid server' =>
          have hreports := h.messages pid _ (masterEvent_message he hme).1
          obtain rfl : server = { server' with siteStatus := .confirmedDown } := by simpa using hmem
          obtain ⟨⟨h₁, h₂, h₃, h₄⟩, hstatus⟩ := hreports
          rw [hstatus] at h₃ h₄
          exact ⟨h₁, h₂, h₃, h₄⟩
        | down => simp at hmem

theorem boot_sound (cfg : Config) (now : ℤ) : Sound notices (System.boot cfg now) where
  objects F site hsite := by
    rw [boot_stock] at hsite
    exact absurd hsite (Multiset.notMem_zero site)
  workers _ _ h := by cases h
  messages _ _ h := by cases h
  posted _ h := by cases h

/-- In every reachable state a notification other than SITE_DOWN is a step that a single check
made from the status of the row its object was built from: back to running after a check that
succeeded, or from down to confirmed down after one that failed, and then the row had been down
for TIME_BETWEEN_NOTICES_MIN when the check finished. -/
theorem changes_sound (hr : Reachable SystemModel.machine (Noticing notices) s) :
    ∀ server, .statusChange server ∈ s.master.posted → Noticed notices server := by
  have h : Sound notices s := by
    refine reachable_invariant (I := Sound notices) ?_ ?_ hr
    · rintro s ⟨cfg, now, rfl⟩
      exact boot_sound cfg now
    · intro s e hr h he hc
      exact step_sound (reachable_mono (fun _ _ _ => trivial) hr) h he hc
  exact h.posted

def stillDown : List SystemModel.Event :=
  let launch : Pid → Launch := fun _ => ⟨oneWorker, "jetmon", 0⟩
  let row : Row := ⟨1, "http://example.com", .down, some 0⟩
  [.master (.ensureWorkerCount [7]) launch, .worker 7 .startup, .hear 7,
    .master (.queryDone 0 (.rows [row])) launch, .deliver 7 oneWorker 0,
    .master (.wait 3600000) launch, .worker 7 (.checkTimer 3600000),
    .worker 7 (.complete 0 3600000 ⟨0, 0, 1, 0⟩), .hear 7]

theorem changes_sound_still_down :
    let s := SystemModel.machine.exec (System.boot oneWorker 0) stillDown
    (∀ server, .statusChange server ∈ s.master.posted → Noticed 59 server) ∧
      s.master.posted.length = 1 :=
  ⟨changes_sound (exec_reachable (.start ⟨_, _, rfl⟩) (by decide)), by decide⟩

end StatusChanges
