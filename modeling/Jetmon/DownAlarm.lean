import Jetmon.Escalation
import Jetmon.SiteHistory

/-! SITE_DOWN notifications of the whole program. An object is checked by a worker, travels
in messages and queues, and is copied into a retry entry; its history is followed all the
way. The configuration file keeps NUM_OF_CHECKS and TIME_BETWEEN_CHECKS_SEC. -/
namespace DownAlarm

open SiteModel
open TransitionSystem
open MasterState
open MasterFrames
open MasterChannels
open Escalation
open WorkerState
open WorkerQueue
open SystemModel
open SiteHistory

def gapOf (cfg : Config) : ℤ := cfg.timeBetweenChecksSec * seconds

/-- A reload keeps the two settings. -/
def Steady (s : System) : SystemModel.Event → Prop
  | .master (.reload cfg) _ => cfg.numOfChecks = s.master.config.numOfChecks ∧
      cfg.timeBetweenChecksSec = s.master.config.timeBetweenChecksSec
  | _ => True

instance (s : System) (e : SystemModel.Event) : Decidable (Steady s e) := by
  unfold Steady
  split <;> infer_instance

/-- The entry was built from the object that `origin` has for it. -/
structure Built (origin : ℕ → Site) (next : ℕ) (e : RetryEntry) : Prop where
  issued : e.serial < next
  server : e.server = origin e.serial
  blogId : e.blogId = (origin e.serial).blogId
  monitorUrl : e.monitorUrl = (origin e.serial).monitorUrl

/-- Every entry is built from an object that has exhausted its local checks, and replies
are credited to entries of the same site. -/
structure Registered (n gap : ℤ) (origin : ℕ → Site) (m : Master) : Prop where
  exhausted : ∀ k < m.nextSerial, Exhausted n gap (origin k)
  queued : ∀ e ∈ m.queuedRetries, Built origin m.nextSerial e
  alarmed : ∀ e, .siteDown e ∈ m.posted → Built origin m.nextSerial e
  silent : ∀ server, .statusChange server ∈ m.posted → server.oldStatus ≠ .running
  credited : ∀ c ∈ m.credits, c.serial < m.nextSerial ∧
    c.reply.blogId = (origin c.serial).blogId ∧ c.reply.monitorUrl = (origin c.serial).monitorUrl

variable {n gap : ℤ} {origin : ℕ → Site} {m m' : Master}

theorem Registered.congr (h : Registered n gap origin m) (he : escalations m' = escalations m) :
    Registered n gap origin m' := by
  have hq : m'.queuedRetries = m.queuedRetries := congrArg Escalations.queuedRetries he
  have hn : m'.nextSerial = m.nextSerial := congrArg Escalations.nextSerial he
  have hc : m'.credits = m.credits := congrArg Escalations.credits he
  have hp : m'.posted = m.posted := congrArg Escalations.posted he
  refine ⟨?_, ?_, ?_, ?_, ?_⟩
  · rw [hn]; exact h.exhausted
  · rw [hq, hn]; exact h.queued
  · rw [hp, hn]; exact h.alarmed
  · rw [hp]; exact h.silent
  · rw [hc, hn]; exact h.credited

theorem Registered.hostCheckRequest {server : Site} (h : Registered n gap origin m)
    (hs : Exhausted n gap server) :
    Registered n gap (fun k => if k = m.nextSerial then server else origin k)
      (m.hostCheckRequest server) := by
  have hbuilt : ∀ {e}, Built origin m.nextSerial e →
      Built (fun k => if k = m.nextSerial then server else origin k) (m.nextSerial + 1) e := by
    intro e hb
    have hne : e.serial ≠ m.nextSerial := Nat.ne_of_lt hb.issued
    exact ⟨Nat.lt_succ_of_lt hb.issued, by simpa [hne] using hb.server,
      by simpa [hne] using hb.blogId, by simpa [hne] using hb.monitorUrl⟩
  constructor
  · intro k hk
    rcases Nat.lt_succ_iff_lt_or_eq.mp hk with hk | rfl
    · simpa [Nat.ne_of_lt hk] using h.exhausted k hk
    · simpa using hs
  · intro e he
    rcases List.mem_append.mp he with he | he
    · exact hbuilt (h.queued e he)
    · rw [List.mem_singleton.mp he]
      exact ⟨Nat.lt_succ_self _, by simp, by simp, by simp⟩
  · exact fun e he => hbuilt (h.alarmed e he)
  · exact h.silent
  · intro c hc
    obtain ⟨hlt, hb, hu⟩ := h.credited c hc
    exact ⟨Nat.lt_succ_of_lt hlt, by simpa [Nat.ne_of_lt hlt] using hb,
      by simpa [Nat.ne_of_lt hlt] using hu⟩

theorem Registered.notify {server : Site} (h : Registered n gap origin m)
    (hs : server.oldStatus ≠ .running) : Registered n gap origin (m.notify server) := by
  refine ⟨h.exhausted, h.queued, ?_, ?_, h.credited⟩
  · intro e he
    rcases List.mem_append.mp he with he | he
    · exact h.alarmed e he
    · cases List.mem_singleton.mp he
  · intro server' he
    rcases List.mem_append.mp he with he | he
    · exact h.silent server' he
    · cases List.mem_singleton.mp he
      exact hs

theorem Registered.swept (h : Registered n gap origin m)
    (hq : m'.queuedRetries = m.sweepRetries.2.queuedRetries) (hn : m'.nextSerial = m.nextSerial)
    (hc : m'.credits = m.credits) (hp : m'.posted = m.posted) : Registered n gap origin m' := by
  refine ⟨?_, ?_, ?_, ?_, ?_⟩
  · rw [hn]; exact h.exhausted
  · rw [hq, hn]
    intro e he
    obtain ⟨e₀, he₀, hkeep⟩ := List.mem_filterMap.mp he
    obtain ⟨h₁, h₂, h₃, h₄⟩ := h.queued e₀ he₀
    split at hkeep
    · split at hkeep
      · contradiction
      · obtain rfl := Option.some.inj hkeep
        exact ⟨h₁, h₂, h₃, h₄⟩
    · obtain rfl := Option.some.inj hkeep
      exact ⟨h₁, h₂, h₃, h₄⟩
  · rw [hp, hn]; exact h.alarmed
  · rw [hp]; exact h.silent
  · rw [hc, hn]; exact h.credited

theorem credited_concerns {data : Reply} {e : RetryEntry}
    (h : Escalation.credited m data = some e) : e.concerns data = true := by
  have hnot := List.head?_dropWhile_not (fun e : RetryEntry => !e.concerns data) m.queuedRetries
  unfold Escalation.credited at h
  rw [h] at hnot
  simpa using hnot

theorem Registered.crediting {data : Reply} {before after : List RetryEntry} {e : RetryEntry}
    (h : Registered n gap origin m) (hq : m.queuedRetries = before ++ e :: after)
    (hs : Escalation.credited m data = some e) :
    Registered n gap origin (crediting m data before e after) := by
  have hmem : ∀ e' ∈ before ++ e :: after, Built origin m.nextSerial e' := hq ▸ h.queued
  have hbuilt := hmem e (by simp)
  have hkept : ∀ e', Built origin m.nextSerial e' →
      ∀ e'' ∈ before ++ e' :: after, Built origin m.nextSerial e'' := by
    intro e' hb e'' he''
    rcases List.mem_append.mp he'' with he'' | he''
    · exact hmem e'' (List.mem_append_left _ he'')
    · rcases List.mem_cons.mp he'' with rfl | he''
      · exact hb
      · exact hmem e'' (List.mem_append_right _ (List.mem_cons_of_mem _ he''))
  have hcredit : ∀ c ∈ m.credits ++ [⟨e.serial, data⟩], c.serial < m.nextSerial ∧
      c.reply.blogId = (origin c.serial).blogId ∧
      c.reply.monitorUrl = (origin c.serial).monitorUrl := by
    intro c hc
    rcases List.mem_append.mp hc with hc | hc
    · exact h.credited c hc
    · have hsite : e.blogId = data.blogId ∧ e.monitorUrl = data.monitorUrl := by
        simpa [RetryEntry.concerns] using credited_concerns hs
      rw [List.mem_singleton.mp hc]
      exact ⟨hbuilt.issued, hsite.1 ▸ hbuilt.blogId, hsite.2 ▸ hbuilt.monitorUrl⟩
  obtain ⟨h₁, h₂, h₃, h₄⟩ := hbuilt
  have hcounted : Built origin m.nextSerial (e.count m.clock data) := ⟨h₁, h₂, h₃, h₄⟩
  have hposted : Built origin m.nextSerial
      { e.count m.clock data with siteStatus := some .down } := ⟨h₁, h₂, h₃, h₄⟩
  unfold Escalation.crediting
  dsimp only
  split
  · refine ⟨h.exhausted, hkept _ hposted, ?_, ?_, hcredit⟩
    · intro e' he'
      rcases List.mem_append.mp he' with he' | he'
      · exact h.alarmed e' he'
      · cases List.mem_singleton.mp he'
        exact hposted
    · intro server he'
      rcases List.mem_append.mp he' with he' | he'
      · exact h.silent server he'
      · cases List.mem_singleton.mp he'
  · exact ⟨h.exhausted, hkept _ hcounted, h.alarmed, h.silent, hcredit⟩

theorem handle_registered {e : MasterState.Event} (h : Registered n gap origin m)
    (hn : n = m.config.numOfChecks) (hs : ∀ pid msg, e = .message pid msg → Sound n gap msg) :
    ∃ origin', Registered n gap origin' (MasterState.handle m e) := by
  cases handle_change m e with
  | same he => exact ⟨origin, h.congr he⟩
  | @requested pid server _ hge he =>
    have hreported : Reported n gap server := hs pid _ rfl
    rw [he]
    exact ⟨_, h.hostCheckRequest (hreported.exhausted (by rw [hn]; exact hge))⟩
  | @notified pid msg server server' _ hmsg hold he =>
    have hsound := hs pid _ rfl
    have hne : server.oldStatus ≠ .running := by
      rcases hmsg with rfl | rfl <;> exact hsound
    rw [he]
    exact ⟨origin, h.notify (hold ▸ hne)⟩
  | swept hq hn hc hp => exact ⟨origin, h.swept hq hn hc hp⟩
  | credited hq hcredited he =>
    rw [he]
    exact ⟨origin, h.crediting hq hcredited⟩

variable {p : Pid} {s s' : System} {e : SystemModel.Event}

structure Tracking (n gap : ℤ) (s : System) : Prop where
  sites : Holds (Ready n gap s.master.clock) (Waiting n gap) s.master
  workers : ∀ p x, s.processes p = some x → Tracked n gap s.master.clock x.worker
  messages : ∀ p, ∀ msg ∈ s.toMaster p, Sound n gap msg
  entries : ∃ origin, Registered n gap origin s.master

theorem next_settings (s : System) (e : SystemModel.Event) :
    settings (SystemModel.next s e).master =
      match e with
      | .master (.wait now) _ => ⟨s.master.config, now, s.master.peerOfflineLimit⟩
      | .master (.reload cfg) _ => ⟨cfg, s.master.clock, s.master.peerOfflineLimit⟩
      | _ => settings s.master := by
  cases e with
  | master me launch =>
    refine (handle_settings s.master me).trans ?_
    cases me <;> rfl
  | hear q =>
    simp only [SystemModel.next, System.hear]
    split
    · rfl
    · exact handle_settings s.master (.message q _)
  | deliver q cfg seed =>
    simp only [SystemModel.next]
    split
    · rfl
    · rw [act_master]
      rfl
  | worker q we =>
    simp only [SystemModel.next]
    rw [act_master]
  | crash => rfl

theorem next_clock (he : SystemModel.Enabled s e) :
    s.master.clock ≤ (SystemModel.next s e).master.clock := by
  have hset := congrArg Settings.clock (next_settings s e)
  cases e with
  | master me launch =>
    cases me with
    | wait now => exact he.1
    | reload | message | workerExit | ensureWorkerCount | queryDone | roundTimer | restartTimer
    | updateStats | processQueuedRetries | hostStatus => exact le_of_eq hset.symm
  | hear | deliver | worker | crash => exact le_of_eq hset.symm

theorem steady_settings (hc : Steady s e) :
    (SystemModel.next s e).master.config.numOfChecks = s.master.config.numOfChecks ∧
      gapOf (SystemModel.next s e).master.config = gapOf s.master.config := by
  have hset := congrArg Settings.config (next_settings s e)
  have hsame : (SystemModel.next s e).master.config = s.master.config →
      (SystemModel.next s e).master.config.numOfChecks = s.master.config.numOfChecks ∧
        gapOf (SystemModel.next s e).master.config = gapOf s.master.config :=
    fun h => by rw [h]; exact ⟨rfl, rfl⟩
  cases e with
  | master me launch =>
    cases me with
    | reload cfg =>
      have hset : (SystemModel.next s (.master (.reload cfg) launch)).master.config = cfg := hset
      rw [hset]
      exact ⟨hc.1, by rw [gapOf, hc.2, gapOf]⟩
    | wait | message | workerExit | ensureWorkerCount | queryDone | roundTimer | restartTimer
    | updateStats | processQueuedRetries | hostStatus => exact hsame hset
  | hear | deliver | worker | crash => exact hsame hset

theorem next_registered (h : Tracking n gap s) (hn : n = s.master.config.numOfChecks)
    (he : SystemModel.Enabled s e) :
    ∃ origin, Registered n gap origin (SystemModel.next s e).master := by
  obtain ⟨origin, hreg⟩ := h.entries
  cases e with
  | master me launch =>
    apply handle_registered hreg hn
    rintro pid msg rfl
    exact he.2.1.elim
  | hear q =>
    simp only [SystemModel.next, System.hear]
    split
    · exact h.entries
    · rename_i msg rest hq
      refine handle_registered (e := .message q msg) hreg hn ?_
      rintro pid msg' hmsg
      obtain ⟨rfl, rfl⟩ : q = pid ∧ msg = msg' := by simpa using hmsg
      exact h.messages q msg (hq ▸ List.mem_cons_self ..)
  | deliver q cfg seed =>
    simp only [SystemModel.next]
    split
    · exact h.entries
    · rw [act_master]
      have hsame : escalations (s.read q).master = escalations s.master := rfl
      exact ⟨origin, hreg.congr hsame⟩
  | worker q we =>
    simp only [SystemModel.next]
    rw [act_master]
    exact h.entries
  | crash => exact h.entries

/-- The process `p` and its messages, one case for each thing the step can be for it. -/
theorem next_tracked (hr : Reachable SystemModel.machine Unrestricted s) (h : Tracking n gap s)
    (he : SystemModel.Enabled s e) (p : Pid) :
    (∀ y, (SystemModel.next s e).processes p = some y →
      Tracked n gap s.master.clock y.worker) ∧
      ∀ msg ∈ (SystemModel.next s e).toMaster p, Sound n gap msg := by
  have hold : ∀ y, (SystemModel.next s e).processes p = s.processes p →
      (SystemModel.next s e).processes p = some y → Tracked n gap s.master.clock y.worker :=
    fun y hx hy => h.workers p y (hx.symm.trans hy)
  have hmessages := h.messages p
  cases next_seen (reachable_roster hr) he p with
  | aside hx hm => exact ⟨fun y => hold y hx, by rw [hm]; exact hmessages⟩
  | heard _ hm hx =>
    rw [hm] at hmessages
    exact ⟨fun y => hold y hx, fun msg hmem => hmessages msg (List.mem_cons_of_mem _ hmem)⟩
  | stopped hm hx =>
    rw [hm] at hmessages
    exact ⟨fun y => hold y hx, fun msg hmem => hmessages msg (List.mem_cons_of_mem _ hmem)⟩
  | @read x msg cfg seed hx _ hpipe ha =>
    have hcarry := h.sites.sent p msg (hpipe ▸ List.mem_cons_self ..)
    obtain ⟨htracked, hnone⟩ := read_tracked (h.workers p x hx)
      (reachable_status (worker_reachable hr hx)) ha.enabled hcarry
    refine ⟨fun y hy => ?_, ?_⟩
    · obtain rfl := Option.some.inj (ha.worker.symm.trans hy)
      exact htracked
    · rw [ha.sent, hnone, List.append_nil]
      exact hmessages
  | @own x we _ hx _ hown ha =>
    obtain ⟨htracked, hsent⟩ := own_tracked (h.workers p x hx)
      (reachable_status (worker_reachable hr hx)) ha.enabled hown
    refine ⟨fun y hy => ?_, fun msg hmem => ?_⟩
    · obtain rfl := Option.some.inj (ha.worker.symm.trans hy)
      exact htracked
    · rw [ha.sent] at hmem
      rcases List.mem_append.mp hmem with hmem | hmem
      · exact hmessages msg hmem
      · exact hsent msg hmem
  | @killed x code _ hx _ hx' hm =>
    refine ⟨fun y hy => ?_, by rw [hm]; exact hmessages⟩
    obtain rfl := Option.some.inj (hx'.symm.trans hy)
    exact h.workers p x hx
  | born _ _ _ hx hm =>
    refine ⟨fun y hy => ?_, by rw [hm]; exact fun _ h => absurd h List.not_mem_nil⟩
    obtain rfl := Option.some.inj (hx.symm.trans hy)
    exact boot_tracked
  | left _ _ hx hm =>
    exact ⟨fun y hy => absurd (hx.symm.trans hy) (by nofun), by rw [hm]; exact hmessages⟩

theorem step_tracking (hr : Reachable SystemModel.machine Unrestricted s) (h : Tracking n gap s)
    (hn : n = s.master.config.numOfChecks) (hgap : gap = gapOf s.master.config)
    (he : SystemModel.Enabled s e) : Tracking n gap (SystemModel.next s e) := by
  have hclock := next_clock he
  constructor
  · have hsites := next_holds h.sites he ready_ofRow (fun site hw hd => hw.ready hgap hd)
      fun pid server hmem hlt => by
        have hreported : Reported n gap server := h.messages pid _ hmem
        exact hreported.waiting (hn ▸ hlt)
    exact hsites.mono (fun _ hs => hs.mono hclock) fun _ hs => hs
  · exact fun p y hy => ((next_tracked hr h he p).1 y hy).mono hclock
  · exact fun p => (next_tracked hr h he p).2
  · exact next_registered h hn he

theorem boot_tracking (cfg : Config) (now : ℤ) : Tracking n gap (System.boot cfg now) where
  sites := boot_holds cfg now
  workers _ _ h := by cases h
  messages _ _ h := by cases h
  entries := ⟨fun _ => Site.ofRow ⟨0, "", .running, none⟩, by
    constructor <;> simp [System.boot, Master.boot]⟩

theorem reachable_tracking (hr : Reachable SystemModel.machine Steady s) :
    Tracking s.master.config.numOfChecks (gapOf s.master.config) s := by
  refine reachable_invariant (I := fun s =>
    Tracking s.master.config.numOfChecks (gapOf s.master.config) s) ?_ ?_ hr
  · rintro s ⟨cfg, now, rfl⟩
    exact boot_tracking cfg now
  · intro s e hr h he hc
    obtain ⟨hn, hgap⟩ := steady_settings hc
    have hnext := step_tracking (reachable_mono (fun _ _ _ => trivial) hr) h rfl rfl he
    rw [← hn, ← hgap] at hnext
    exact hnext

def answers (s : System) : SystemModel.Event → List (QuorumTally.Event ℕ)
  | .master me _ => answer s.master me
  | .hear q =>
    match s.toMaster q with
    | [] => []
    | msg :: _ => answer s.master (.message q msg)
  | .deliver _ _ _ | .worker _ _ | .crash _ _ => []

def systemTally :
    Simulation SystemModel.machine Unrestricted (QuorumTally.machine ℕ) Unrestricted where
  abs s := tally s.master
  answer := answers
  start := by
    rintro s ⟨cfg, now, rfl⟩
    exact refinement.start _ ⟨cfg, now, rfl⟩
  valid := by
    intro s e _ _ _ _
    have hanswer : ∀ me, (QuorumTally.machine ℕ).Valid Unrestricted (tally s.master)
        (answer s.master me) := fun me =>
      answer_valid trivial (fun _ => trivial) fun _ _ _ _ _ _ => trivial
    cases e with
    | master me launch => exact hanswer me
    | hear q =>
      simp only [answers]
      split
      · trivial
      · exact hanswer _
    | deliver | worker | crash => trivial
  commutes := by
    intro s e _ _ _
    cases e with
    | master me launch => exact tally_handle s.master me
    | hear q =>
      simp only [SystemModel.machine, SystemModel.next, System.hear, answers]
      cases hq : s.toMaster q with
      | nil => rfl
      | cons msg rest => exact tally_handle s.master (.message q msg)
    | deliver q cfg seed =>
      simp only [SystemModel.machine, SystemModel.next, answers]
      split
      · rfl
      · rw [act_master]
        rfl
    | worker q we =>
      simp only [SystemModel.machine, SystemModel.next, answers]
      rw [act_master]
      rfl
    | crash => rfl

/-- What a SITE_DOWN notification for `e` rests on. -/
structure Justified (m : Master) (e : RetryEntry) : Prop where
  fetched_running : e.server.fetched.siteStatus = .running
  checked : (e.server.history.length : ℤ) = max 1 m.config.numOfChecks
  failed : ∀ c ∈ e.server.history, c.up = false
  spaced : e.server.history.IsChain fun a b =>
    a.finished + m.config.timeBetweenChecksSec * seconds ≤ b.started
  confirmed : m.peerOfflineLimit ≤ m.credits.countP fun c =>
    c.serial == e.serial && c.reply.offline && e.concerns c.reply

/-- Notifications are justified, no object is queued or sent to a worker before it is due,
and a site that was running when it was fetched is notified in no other way. -/
structure AlarmsSound (s : System) : Prop where
  justified : ∀ e, .siteDown e ∈ s.master.posted → Justified s.master e
  queued_due : ∀ site ∈ s.master.arrObjects, ∀ c ∈ site.history.getLast?,
    c.finished + s.master.config.timeBetweenChecksSec * seconds ≤ s.master.clock
  sent_due : ∀ p, ∀ msg ∈ s.master.pipe p, ∀ site ∈ msg.sites, ∀ c ∈ site.history.getLast?,
    c.finished + s.master.config.timeBetweenChecksSec * seconds ≤ s.master.clock
  unposted : ∀ p server, .notifyStatusChange server ∈ s.toMaster p ∨
    .notifyStillDown server ∈ s.toMaster p → server.oldStatus ≠ .running
  unnotified : ∀ server, .statusChange server ∈ s.master.posted → server.oldStatus ≠ .running

theorem alarm_confirmed (hr : Reachable SystemModel.machine Unrestricted s)
    (hreg : Registered n gap origin s.master) {e : RetryEntry}
    (he : .siteDown e ∈ s.master.posted) :
    s.master.peerOfflineLimit ≤ s.master.credits.countP fun c =>
      c.serial == e.serial && c.reply.offline && e.concerns c.reply := by
  have htally := QuorumTally.reachable_tally (systemTally.reachable hr)
  have halarm : e.serial ∈ (tally s.master).alarms := List.mem_filterMap.mpr ⟨_, he, rfl⟩
  have hquorum : s.master.peerOfflineLimit ≤ offlineReplies s.master e.serial := by
    rw [← votesFor_tally]
    exact QuorumTally.quorum_of_alarm htally halarm
  refine hquorum.trans (List.countP_mono_left fun c hc h => ?_)
  -- a reply that was credited to the entry is about the same site
  obtain ⟨_, hb, hu⟩ := hreg.credited c hc
  have hbuilt := hreg.alarmed e he
  simp only [Bool.and_eq_true, beq_iff_eq] at h ⊢
  refine ⟨h, ?_⟩
  rw [h.1] at hb hu
  simp [RetryEntry.concerns, hb, hu, hbuilt.blogId, hbuilt.monitorUrl]

theorem alarms_sound {s : System} (hr : Reachable SystemModel.machine Steady s) :
    AlarmsSound s := by
  have h := reachable_tracking hr
  obtain ⟨origin, hreg⟩ := h.entries
  constructor
  · intro e he
    have hbuilt := hreg.alarmed e he
    have hex := hreg.exhausted e.serial hbuilt.issued
    rw [← hbuilt.server] at hex
    exact ⟨hex.fetched ▸ hex.running, hex.checked, hex.down, hex.spaced,
      alarm_confirmed (reachable_mono (fun _ _ _ => trivial) hr) hreg he⟩
  · exact fun site hs => (h.sites.queued site hs).due
  · intro p msg hmsg site hs
    have hcarry := h.sites.sent p msg hmsg
    cases msg with
    | queueAdd payload => exact (hcarry.2 site hs).due
    | evaporate | configUpdate => contradiction
  · intro p server hmsg
    rcases hmsg with hmsg | hmsg
    · exact h.messages p _ hmsg
    · exact h.messages p _ hmsg
  · exact hreg.silent

def twoChecks : Config :=
  { sampleConfig with numWorkers := 1, numOfChecks := 2, peerOfflineLimit := 1 }

def confirmedDown : List SystemModel.Event :=
  let launch : Pid → Launch := fun _ => ⟨twoChecks, "jetmon", 0⟩
  let row : Row := ⟨1, "http://example.com", .running, none⟩
  [.master (.ensureWorkerCount [7]) launch, .worker 7 .startup, .hear 7,
    .master (.queryDone 0 (.rows [row])) launch, .deliver 7 twoChecks 0, .worker 7 (.checkTimer 0),
    .worker 7 (.complete 0 0 ⟨0, 0, 1, 0⟩), .hear 7, .hear 7, .master (.wait 30000) launch,
    .master .processQueuedRetries launch, .deliver 7 twoChecks 0, .worker 7 (.checkTimer 30000),
    .worker 7 (.complete 0 30000 ⟨0, 0, 1, 0⟩), .hear 7, .master .processQueuedRetries launch,
    .master (.hostStatus (offlineReply 0 0)) launch]

theorem alarms_sound_confirmed_down :
    let s := SystemModel.machine.exec (System.boot twoChecks 0) confirmedDown
    AlarmsSound s ∧ s.master.posted.length = 1 :=
  ⟨alarms_sound (exec_reachable (.start ⟨_, _, rfl⟩) (by decide)), by decide⟩

end DownAlarm
