import Jetmon.MasterFrames
import Jetmon.QuorumTally

/-! Sites escalated to the verifliers. The queue of retry entries implements a tally of
ballots: an entry is called by a recheck message, gets a vote for each HOST_OFFLINE reply
that is credited to it, and is closed by the five second tick. -/
namespace Escalation

open SiteModel
open TransitionSystem
open MasterState
open MasterFrames

def ballot (e : RetryEntry) : QuorumTally.Ballot := ⟨e.serial, e.offlineConfirms⟩

def alarmOf : Post → Option ℕ
  | .siteDown e => some e.serial
  | .statusChange _ => none

/-- The votes are the offline replies, each with the veriflier that sent it. -/
def tally (m : Master) : QuorumTally.State ℕ where
  limit := m.peerOfflineLimit
  next := m.nextSerial
  running := m.queuedRetries.map ballot
  votes := (m.credits.filter fun c => c.reply.offline).map fun c => (c.serial, c.reply.peer)
  alarms := m.posted.filterMap alarmOf

def credited (m : Master) (data : Reply) : Option RetryEntry :=
  (m.queuedRetries.dropWhile fun e => !e.concerns data).head?

def crediting (m : Master) (data : Reply) (before : List RetryEntry) (e : RetryEntry)
    (after : List RetryEntry) : Master :=
  let counted := e.count m.clock data
  if data.offline = true ∧ m.peerOfflineLimit ≤ counted.offlineConfirms then
    { m with
      queuedRetries := before ++ { counted with siteStatus := some .down } :: after
      credits := m.credits ++ [⟨e.serial, data⟩]
      posted := m.posted ++ [.siteDown { counted with siteStatus := some .down }] }
  else
    { m with
      queuedRetries := before ++ counted :: after
      credits := m.credits ++ [⟨e.serial, data⟩] }

def position (m : Master) (data : Reply) : ℕ :=
  (m.queuedRetries.takeWhile fun e => !e.concerns data).length

theorem checkHostStatus_cases (data : Reply) (m : Master) :
    (credited m data = none ∧ m.checkHostStatus data = m) ∨
    ∃ before e after, m.queuedRetries = before ++ e :: after ∧ before.length = position m data ∧
      credited m data = some e ∧ m.checkHostStatus data = crediting m data before e after := by
  have happ :=
    List.takeWhile_append_dropWhile (p := fun e => !e.concerns data) (l := m.queuedRetries)
  cases hd : m.queuedRetries.dropWhile fun e => !e.concerns data with
  | nil => exact Or.inl ⟨by rw [credited, hd]; rfl, by simp only [Master.checkHostStatus, hd]⟩
  | cons e after =>
    refine Or.inr ⟨_, e, after, ?_, rfl, by rw [credited, hd]; rfl, ?_⟩
    · rw [← hd, happ]
    · simp only [Master.checkHostStatus, hd, crediting]

def answer (m : Master) : Event → List (QuorumTally.Event ℕ)
  | .message _ (.recheck server) =>
    if (server.checks.length : ℤ) < m.config.numOfChecks then [] else [.call]
  | .processQueuedRetries => [.close (m.sweepRetries.2.queuedRetries.map ballot)]
  | .hostStatus data =>
    if data.offline = true ∧ (credited m data).isSome then [.vote (position m data) data.peer]
    else []
  | _ => []

theorem tally_congr {m m' : Master} (h : escalations m' = escalations m)
    (hl : m'.peerOfflineLimit = m.peerOfflineLimit) : tally m' = tally m := by
  have hq : m'.queuedRetries = m.queuedRetries := congrArg Escalations.queuedRetries h
  have hn : m'.nextSerial = m.nextSerial := congrArg Escalations.nextSerial h
  have hc : m'.credits = m.credits := congrArg Escalations.credits h
  have hp : m'.posted = m.posted := congrArg Escalations.posted h
  simp only [tally, hq, hn, hc, hp, hl]

theorem swept_map_sublist {α : Type*} {m : Master} {f : RetryEntry → α}
    (hf : ∀ e, f (m.markSent e) = f e) :
    (m.sweepRetries.2.queuedRetries.map f).Sublist (m.queuedRetries.map f) := by
  simp only [Master.sweepRetries]
  induction m.queuedRetries with
  | nil => exact List.Sublist.slnil
  | cons e rest ih =>
    rw [List.filterMap_cons, List.map_cons]
    cases hs : e.requestsSent with
    | true =>
      cases ht : m.timedOut e with
      | true => simpa [hs, ht] using ih.cons (f e)
      | false => simpa [hs, ht] using ih.cons_cons (f e)
    | false => simpa [hs, hf] using ih.cons_cons (f e)

theorem swept_sublist (m : Master) :
    (m.sweepRetries.2.queuedRetries.map ballot).Sublist (m.queuedRetries.map ballot) :=
  swept_map_sublist fun _ => rfl

theorem processQueuedRetries_escalations (m : Master) :
    m.processQueuedRetries.queuedRetries = m.sweepRetries.2.queuedRetries ∧
      m.processQueuedRetries.nextSerial = m.nextSerial ∧
      m.processQueuedRetries.credits = m.credits ∧ m.processQueuedRetries.posted = m.posted ∧
      m.processQueuedRetries.requests =
        (Master.requestRetries m.sweepRetries.1 m.sweepRetries.2).requests := by
  have h := (retryLocally_workOnly
    (Master.requestRetries m.sweepRetries.1 m.sweepRetries.2)).escalations
  exact ⟨congrArg Escalations.queuedRetries h, congrArg Escalations.nextSerial h,
    congrArg Escalations.credits h, congrArg Escalations.posted h,
    congrArg Escalations.requests h⟩

/-- What a handler does to the escalations: nothing, one new entry, one notification, the
sweep of the five second tick, or one reply that is credited. -/
inductive Change (m : Master) : Event → Master → Prop where
  | same {e m'} : escalations m' = escalations m → Change m e m'
  | requested {pid server m'} : ¬(server.checks.length : ℤ) < m.config.numOfChecks →
      m' = m.hostCheckRequest server → Change m (.message pid (.recheck server)) m'
  | notified {pid msg server server' m'} : msg = .notifyStatusChange server ∨
      msg = .notifyStillDown server → server'.oldStatus = server.oldStatus →
      m' = m.notify server' → Change m (.message pid msg) m'
  | swept {m'} : m'.queuedRetries = m.sweepRetries.2.queuedRetries → m'.nextSerial = m.nextSerial →
      m'.credits = m.credits → m'.posted = m.posted →
      m'.requests = (Master.requestRetries m.sweepRetries.1 m.sweepRetries.2).requests →
      Change m .processQueuedRetries m'
  | credited {data before e after m'} : m.queuedRetries = before ++ e :: after →
      credited m data = some e → m' = crediting m data before e after →
      Change m (.hostStatus data) m'

theorem handle_change (m : Master) (e : Event) : Change m e (handle m e) := by
  by_cases hesc : Escalates e
  · cases e with
    | message pid msg =>
      cases msg with
      | recheck server =>
        simp only [handle, Master.workerMsgCallback]
        split
        · exact .same (addServerToLocalRetries_workOnly server m).escalations
        · exact .requested ‹_› rfl
      | notifyStatusChange server => exact .notified (Or.inl rfl) rfl rfl
      | notifyStillDown server =>
        have h : handle m (.message pid (.notifyStillDown server)) =
            m.notify { server with siteStatus := .confirmedDown } := rfl
        refine .notified (Or.inr rfl) ?_ h
        rfl
      | totals | stopWork | sendWork | stats => exact hesc.elim
    | processQueuedRetries =>
      obtain ⟨hq, hn, hc, hp, hr⟩ := processQueuedRetries_escalations m
      exact .swept hq hn hc hp hr
    | hostStatus data =>
      rcases checkHostStatus_cases data m with ⟨_, he⟩ | ⟨before, e, after, hq, _, hs, he⟩
      · exact .same (by rw [handle, he])
      · exact .credited hq hs he
    | wait | reload | workerExit | ensureWorkerCount | queryDone | roundTimer | restartTimer
    | updateStats => exact hesc.elim
  · exact .same (handle_escalations m hesc)

theorem crediting_tally (m : Master) (data : Reply) {before : List RetryEntry} {e : RetryEntry}
    {after : List RetryEntry} (hq : m.queuedRetries = before ++ e :: after) :
    tally (crediting m data before e after) =
      if data.offline then QuorumTally.next (tally m) (.vote before.length data.peer)
      else tally m := by
  have hget : (tally m).running[before.length]? = some (ballot e) := by
    simp [tally, hq]
  cases ho : data.offline with
  | false =>
    simp [crediting, ho, tally, hq, ballot, RetryEntry.count]
  | true =>
    simp only [QuorumTally.next, hget, ↓reduceIte]
    have hcount : (ballot e).count.yes = (e.count m.clock data).offlineConfirms := by
      simp [ballot, QuorumTally.Ballot.count, RetryEntry.count, ho]
    by_cases hl : m.peerOfflineLimit ≤ (e.count m.clock data).offlineConfirms
    · have hl' : (tally m).limit ≤ (ballot e).count.yes := by rw [hcount]; exact hl
      rw [if_pos hl', crediting, if_pos ⟨ho, hl⟩]
      simp [tally, hq, ballot, RetryEntry.count, ho, alarmOf, QuorumTally.Ballot.count]
    · have hl' : ¬(tally m).limit ≤ (ballot e).count.yes := by rw [hcount]; exact hl
      rw [if_neg hl', crediting, if_neg (fun h => hl h.2)]
      simp [tally, hq, ballot, RetryEntry.count, ho, QuorumTally.Ballot.count]

theorem tally_handle (m : Master) (e : Event) :
    tally (handle m e) = (QuorumTally.machine ℕ).exec (tally m) (answer m e) := by
  by_cases hesc : Escalates e
  · cases e with
    | message pid msg =>
      cases msg with
      | recheck server =>
        simp only [handle, Master.workerMsgCallback, answer]
        split
        · exact tally_congr (addServerToLocalRetries_workOnly server m).escalations
            (congrArg Settings.peerOfflineLimit
              (addServerToLocalRetries_workOnly server m).settings)
        · simp [tally, Master.hostCheckRequest, Machine.exec, QuorumTally.machine,
            QuorumTally.next, ballot]
      | notifyStatusChange | notifyStillDown =>
        simp [tally, handle, Master.workerMsgCallback, Master.notify, answer, Machine.exec, alarmOf]
      | totals | stopWork | sendWork | stats => exact hesc.elim
    | processQueuedRetries =>
      obtain ⟨hq, hn, hc, hp, _⟩ := processQueuedRetries_escalations m
      have hl := peerOfflineLimit_const m .processQueuedRetries
      simp only [handle] at hl
      simp only [tally, handle, hq, hn, hc, hp, hl, answer, Machine.exec, QuorumTally.machine,
        QuorumTally.next]
    | hostStatus data =>
      rcases checkHostStatus_cases data m with ⟨hnone, he⟩ | ⟨before, e, after, hq, hpos, hsome, he⟩
      · simp [handle, he, answer, hnone, Machine.exec]
      · rw [handle, he, crediting_tally m data hq, answer, hsome]
        cases data.offline with
        | true => simp [Machine.exec, QuorumTally.machine, hpos]
        | false => simp [Machine.exec]
    | wait | reload | workerExit | ensureWorkerCount | queryDone | roundTimer | restartTimer
    | updateStats => exact hesc.elim
  · have hnone : answer m e = [] := by
      cases e with
      | message pid msg =>
        cases msg with
        | recheck server => exact absurd trivial hesc
        | totals | notifyStatusChange | notifyStillDown | stopWork | sendWork | stats => rfl
      | processQueuedRetries | hostStatus => exact absurd trivial hesc
      | wait | reload | workerExit | ensureWorkerCount | queryDone | roundTimer | restartTimer
      | updateStats => rfl
    rw [hnone]
    exact tally_congr (handle_escalations m hesc) (peerOfflineLimit_const m e)

theorem answer_valid {C : QuorumTally.State ℕ → QuorumTally.Event ℕ → Prop} {m : Master} {e : Event}
    (hcall : C (tally m) .call) (hclose : ∀ kept, C (tally m) (.close kept))
    (hvote : ∀ data entry, e = .hostStatus data → data.offline = true →
      credited m data = some entry → (tally m).running[position m data]? = some (ballot entry) →
      C (tally m) (.vote (position m data) data.peer)) :
    (QuorumTally.machine ℕ).Valid C (tally m) (answer m e) := by
  cases e with
  | message pid msg =>
    cases msg with
    | recheck server =>
      simp only [answer]
      split
      · trivial
      · exact ⟨⟨trivial, hcall⟩, trivial⟩
    | totals | notifyStatusChange | notifyStillDown | stopWork | sendWork | stats => trivial
  | processQueuedRetries => exact ⟨⟨swept_sublist m, hclose _⟩, trivial⟩
  | hostStatus data =>
    simp only [answer]
    split
    · rename_i h
      rcases checkHostStatus_cases data m with ⟨hnone, _⟩ | ⟨before, e, after, hq, hpos, hsome, _⟩
      · simp [hnone] at h
      · have hget : (tally m).running[position m data]? = some (ballot e) := by
          rw [← hpos]
          simp [tally, hq]
        exact ⟨⟨(List.getElem?_eq_some_iff.mp hget).1, hvote data e rfl h.1 hsome hget⟩, trivial⟩
    · trivial
  | wait | reload | workerExit | ensureWorkerCount | queryDone | roundTimer | restartTimer
  | updateStats => trivial

/-- The queue of retries refines the tally. -/
def refinement : Simulation machine Unrestricted (QuorumTally.machine ℕ) Unrestricted where
  abs := tally
  answer := answer
  start := by
    rintro m ⟨cfg, now, rfl⟩
    refine ⟨_, ?_, rfl⟩
    simp only [Master.boot]
    split <;> omega
  valid := fun _ _ _ _ _ _ => answer_valid trivial (fun _ => trivial) fun _ _ _ _ _ _ => trivial
  commutes := fun m e _ _ _ => tally_handle m e

theorem reachable_tally {m : Master} (hr : Reachable machine Unrestricted m) :
    QuorumTally.Invariant (tally m) := QuorumTally.reachable_tally (refinement.reachable hr)

def offlineReplies (m : Master) (k : ℕ) : ℕ :=
  m.credits.countP fun c => c.serial == k && c.reply.offline

def alarmsFor (m : Master) (k : ℕ) : ℕ := (m.posted.filterMap alarmOf).count k

theorem votesFor_tally (m : Master) (k : ℕ) :
    QuorumTally.votesFor (tally m) k = offlineReplies m k := by
  simp only [QuorumTally.votesFor, tally, offlineReplies, List.countP_map, List.countP_filter]
  rfl

theorem alarmsFor_eq {m : Master} (hr : Reachable machine Unrestricted m) (k : ℕ) :
    alarmsFor m k = offlineReplies m k + 1 - m.peerOfflineLimit := by
  rw [← votesFor_tally]
  exact (reachable_tally hr).alarmed k

def OneAlarm (m : Master) (k : ℕ) : Prop :=
  alarmsFor m k = if m.peerOfflineLimit ≤ offlineReplies m k then 1 else 0

theorem one_alarm_iff {m : Master} (hr : Reachable machine Unrestricted m) (k : ℕ) :
    OneAlarm m k ↔ offlineReplies m k ≤ m.peerOfflineLimit := by
  rw [OneAlarm, ← votesFor_tally]
  exact QuorumTally.alarm_once_iff (reachable_tally hr) k

def withVerifliers (n limit : ℕ) : Config :=
  { sampleConfig with
    verifiers := List.replicate n ⟨"Veriflier", "veriflier", "7801", "token"⟩
    peerOfflineLimit := limit }

def failedSite : Site :=
  { Site.ofRow ⟨1, "http://example.com", .running, none⟩ with
    siteStatus := .down
    checks := List.replicate 3 ⟨.jetmonCheck, "jetmon", 0, 0, 0, 1⟩ }

def offlineReply (peer answers : ℕ) : Reply :=
  ⟨"veriflier", 1, "http://example.com", hostOffline, 0, 0, 1, peer, answers⟩

theorem one_alarm_iff_limit_reached :
    let m := machine.exec (Master.boot (withVerifliers 3 3) 0) [.message 1 (.recheck failedSite),
      .processQueuedRetries, .hostStatus (offlineReply 0 0), .hostStatus (offlineReply 1 0),
      .hostStatus (offlineReply 2 0)]
    OneAlarm m 0 ↔ offlineReplies m 0 ≤ m.peerOfflineLimit :=
  one_alarm_iff (exec_reachable (.start ⟨_, _, rfl⟩) (by decide)) 0

/-- Four verifliers confirm, the limit is three: two notifications. -/
theorem second_alarm :
    ¬ ∀ m, Reachable machine Unrestricted m → ∀ k, OneAlarm m k := by
  intro h
  have hr : Reachable machine Unrestricted (machine.exec (Master.boot (withVerifliers 4 3) 0)
      [.message 1 (.recheck failedSite), .processQueuedRetries, .hostStatus (offlineReply 0 0),
        .hostStatus (offlineReply 1 0), .hostStatus (offlineReply 2 0),
        .hostStatus (offlineReply 3 0)]) :=
    exec_reachable (.start ⟨_, _, rfl⟩) (by decide)
  exact absurd (h _ hr 0) (by unfold OneAlarm; decide)

/-- The entry was sent to the veriflier, which answered that request with HOST_OFFLINE,
and the answer was credited to the entry. -/
def Genuine (m : Master) (k peer : ℕ) : Prop :=
  (∃ q ∈ m.requests, q.peer = peer ∧ q.serial = k) ∧
    ∃ c ∈ m.credits, c.serial = k ∧ c.reply.peer = peer ∧ c.reply.answers = k ∧
      c.reply.offline = true

/-- At least `n` different verifliers confirmed the entry. -/
def Backed (m : Master) (k n : ℕ) : Prop :=
  ∃ peers : List ℕ, peers.Nodup ∧ n ≤ peers.length ∧ ∀ p ∈ peers, Genuine m k p

structure DistinctlyConfirmed (m : Master) : Prop where
  counted : ∀ e ∈ m.queuedRetries, Backed m e.serial e.offlineConfirms
  alarm : ∀ e, .siteDown e ∈ m.posted → Backed m e.serial m.peerOfflineLimit

/-- Verifliers answer the requests they got, late or repeatedly. -/
def Truthful (m : Master) : Event → Prop
  | .hostStatus data => ∃ q ∈ m.requests, q.peer = data.peer ∧ q.serial = data.answers ∧
      q.blogId = data.blogId ∧ q.monitorUrl = data.monitorUrl
  | _ => True

/-- An offline reply answers the request sent for the first queued entry of its site, and
is the first of its veriflier for that entry. -/
def Fresh (m : Master) : Event → Prop
  | .hostStatus data => data.offline = true → ∀ e ∈ credited m data, data.answers = e.serial ∧
      ∀ c ∈ m.credits, c.serial = e.serial → c.reply.offline = true → c.reply.peer ≠ data.peer
  | _ => True

def Answered (m : Master) : Prop :=
  ∀ c ∈ m.credits, c.reply.offline = true → c.reply.answers = c.serial ∧
    ∃ q ∈ m.requests, q.peer = c.reply.peer ∧ q.serial = c.serial

structure Confirmations (m : Master) : Prop where
  tally : QuorumTally.Invariant (tally m)
  distinct : (Escalation.tally m).votes.Nodup
  answered : Answered m

theorem mem_votes {m : Master} {k p : ℕ} : (k, p) ∈ (tally m).votes ↔
    ∃ c ∈ m.credits, c.serial = k ∧ c.reply.peer = p ∧ c.reply.offline = true := by
  simp only [tally, List.mem_map, List.mem_filter, Prod.mk.injEq]
  constructor
  · rintro ⟨c, ⟨hc, ho⟩, hk, hp⟩
    exact ⟨c, hc, hk, hp, ho⟩
  · rintro ⟨c, hc, hk, hp, ho⟩
    exact ⟨c, ⟨hc, ho⟩, hk, hp⟩

theorem genuine_of_vote {m : Master} (h : Answered m) {k p : ℕ} (hv : (k, p) ∈ (tally m).votes) :
    Genuine m k p := by
  obtain ⟨c, hc, rfl, rfl, ho⟩ := mem_votes.mp hv
  obtain ⟨ha, q, hq, hp, hs⟩ := h c hc ho
  exact ⟨⟨q, hq, hp, hs⟩, c, hc, rfl, rfl, ha, ho⟩

theorem backed_of_votes {m : Master} (h : Confirmations m) (k : ℕ) {n : ℕ}
    (hn : n ≤ QuorumTally.votesFor (tally m) k) : Backed m k n := by
  refine ⟨QuorumTally.votersOf (tally m) k, QuorumTally.votersOf_nodup h.distinct k, ?_, ?_⟩
  · rw [QuorumTally.length_votersOf]
    exact hn
  · intro p hp
    exact genuine_of_vote h.answered (QuorumTally.mem_votersOf.mp hp)

theorem confirmations_holds {m : Master} (h : Confirmations m) : DistinctlyConfirmed m := by
  constructor
  · intro e he
    refine backed_of_votes h e.serial (Nat.le_of_eq ?_)
    exact h.tally.tally (ballot e) (List.mem_map_of_mem he)
  · intro e he
    have halarm : e.serial ∈ (tally m).alarms := List.mem_filterMap.mpr ⟨_, he, rfl⟩
    exact backed_of_votes h e.serial (QuorumTally.quorum_of_alarm h.tally halarm)

theorem requests_subset (m : Master) (e : Event) : m.requests ⊆ (handle m e).requests := by
  cases handle_change m e with
  | same h =>
    have hr : (handle m e).requests = m.requests := congrArg Escalations.requests h
    rw [hr]
    exact List.Subset.refl _
  | swept _ _ _ _ hr =>
    rw [hr]
    exact List.subset_append_left _ _
  | credited _ _ he =>
    rw [he]
    unfold crediting
    dsimp only
    split <;> exact List.Subset.refl _
  | requested _ he => rw [he]; exact List.Subset.refl _
  | notified _ _ he => rw [he]; exact List.Subset.refl _

theorem crediting_credits (m : Master) (data : Reply) (before : List RetryEntry) (e : RetryEntry)
    (after : List RetryEntry) :
    (crediting m data before e after).credits = m.credits ++ [⟨e.serial, data⟩] := by
  unfold crediting
  dsimp only
  split <;> rfl

theorem credits_cases (m : Master) (e : Event) :
    (handle m e).credits = m.credits ∨
    ∃ data entry, e = .hostStatus data ∧ credited m data = some entry ∧
      (handle m e).credits = m.credits ++ [⟨entry.serial, data⟩] := by
  cases handle_change m e with
  | same h => exact Or.inl (congrArg Escalations.credits h)
  | swept _ _ hc => exact Or.inl hc
  | @credited data _ entry _ _ hq hs he =>
    exact Or.inr ⟨data, entry, rfl, hs, by rw [he, crediting_credits]⟩
  | requested _ he => exact Or.inl (by rw [he]; rfl)
  | notified _ _ he => exact Or.inl (by rw [he]; rfl)

theorem step_answered {m : Master} {e : Event} (h : Answered m) (ht : Truthful m e)
    (hf : Fresh m e) : Answered (handle m e) := by
  intro c hc ho
  have hsub := requests_subset m e
  rcases credits_cases m e with he | ⟨data, entry, rfl, hs, he⟩
  · rw [he] at hc
    obtain ⟨ha, q, hq, hq'⟩ := h c hc ho
    exact ⟨ha, q, hsub hq, hq'⟩
  · rw [he] at hc
    rcases List.mem_append.mp hc with hc | hc
    · obtain ⟨ha, q, hq, hq'⟩ := h c hc ho
      exact ⟨ha, q, hsub hq, hq'⟩
    · obtain ⟨q, hq, hp, hk, _⟩ := ht
      rw [List.mem_singleton.mp hc] at ho ⊢
      have ha := (hf ho entry hs).1
      exact ⟨ha, q, hsub hq, hp, hk.trans ha⟩

theorem step_confirmations {m : Master} {e : Event} (h : Confirmations m) (ht : Truthful m e)
    (hf : Fresh m e) : Confirmations (handle m e) := by
  have hv : (QuorumTally.machine ℕ).Valid QuorumTally.Once (tally m) (answer m e) := by
    refine answer_valid trivial (fun _ => trivial) ?_
    rintro data entry rfl ho hs hget b hb hvote
    rw [hget, Option.mem_some_iff] at hb
    subst hb
    obtain ⟨c, hc, hk, hp, hoc⟩ := mem_votes.mp hvote
    exact (hf ho entry hs).2 c hc hk hoc hp
  refine ⟨?_, ?_, step_answered h.answered ht hf⟩
  · rw [tally_handle]
    exact exec_invariant (I := QuorumTally.Invariant)
      (fun _ _ hi he _ => QuorumTally.step_preserves_invariant hi he) h.tally hv
  · rw [tally_handle]
    exact exec_invariant (I := fun s => s.votes.Nodup)
      (fun _ _ hn _ ho => QuorumTally.step_preserves_nodup hn ho) h.distinct hv

/-- A reply that is not fresh makes the counter larger than the number of verifliers. -/
theorem not_fresh_overcounts {m : Master} {e : Event} (h : Confirmations m)
    (hf : ¬Fresh m e) : ¬DistinctlyConfirmed (handle m e) := by
  cases e with
  | hostStatus data =>
    simp only [Fresh, Classical.not_imp] at hf
    obtain ⟨ho, hf⟩ := hf
    rcases checkHostStatus_cases data m with ⟨hnone, _⟩ | ⟨before, e, after, hq, _, hs, he⟩
    · simp [hnone] at hf
    intro hd
    have hcount :
        (e.count m.clock data).offlineConfirms = QuorumTally.votesFor (tally m) e.serial + 1 := by
      have ht := h.tally.tally (ballot e) (List.mem_map_of_mem (by rw [hq]; simp))
      simp only [RetryEntry.count, ho, ↓reduceIte]
      exact congrArg (· + 1) ht
    have hcredits : (handle m (.hostStatus data)).credits = m.credits ++ [⟨e.serial, data⟩] := by
      rw [handle, he, crediting]
      split <;> rfl
    have hbacked : Backed (handle m (.hostStatus data)) e.serial
        (QuorumTally.votesFor (tally m) e.serial + 1) := by
      rw [← hcount]
      rw [handle, he] at hd ⊢
      unfold crediting at hd ⊢
      dsimp only at hd ⊢
      split at hd
      · rename_i hl
        rw [if_pos hl]
        exact hd.counted { e.count m.clock data with siteStatus := some .down } (by simp)
      · rename_i hl
        rw [if_neg hl]
        exact hd.counted (e.count m.clock data) (by simp)
    obtain ⟨peers, hn, hlen, hall⟩ := hbacked
    have hsub : peers ⊆ QuorumTally.votersOf (tally m) e.serial := by
      intro p hp
      rw [QuorumTally.mem_votersOf, mem_votes]
      obtain ⟨_, c, hc, hk, hpeer, ha, hoc⟩ := hall p hp
      rw [hcredits] at hc
      rcases List.mem_append.mp hc with hc | hc
      · exact ⟨c, hc, hk, hpeer, hoc⟩
      · -- the new credit answers the entry, so its veriflier was counted before
        rw [List.mem_singleton.mp hc] at hpeer ha
        by_contra hnot
        refine hf fun e' he' => ?_
        rw [hs, Option.mem_some_iff] at he'
        subst he'
        refine ⟨ha, fun c' hc' hk' ho' hp' => hnot ⟨c', hc', hk', hp'.trans hpeer, ho'⟩⟩
    have hle := (List.subperm_of_subset hn hsub).length_le
    rw [QuorumTally.length_votersOf] at hle
    omega
  | wait | reload | message | workerExit | ensureWorkerCount | queryDone | roundTimer
  | restartTimer | updateStats | processQueuedRetries => exact absurd trivial hf

/-- A run confirms every alarm by distinct verifliers exactly when all its offline replies
are fresh. -/
theorem distinct_confirmation_iff {m : Master} {es : List Event} (h₀ : machine.start m)
    (hv : machine.Valid Truthful m es) :
    machine.Always DistinctlyConfirmed m es ↔ machine.Valid Fresh m es := by
  refine always_iff_valid (I := Confirmations) (fun _ => confirmations_holds)
    (fun _ _ h _ ht hf => step_confirmations h ht hf)
    (fun _ _ h _ _ hf => not_fresh_overcounts h hf) ?_ hv
  have hstart := refinement.start m h₀
  obtain ⟨cfg, now, rfl⟩ := h₀
  refine ⟨QuorumTally.reachable_tally (C := Unrestricted) (.start hstart), List.nodup_nil, ?_⟩
  simp [Answered, Master.boot]

theorem distinct_confirmation_iff_two_peers :
    let m := Master.boot (withVerifliers 2 2) 0
    let es : List Event := [.message 1 (.recheck failedSite), .processQueuedRetries,
      .hostStatus (offlineReply 0 0), .hostStatus (offlineReply 1 0)]
    machine.Always DistinctlyConfirmed m es ↔ machine.Valid Fresh m es := by
  refine distinct_confirmation_iff ⟨_, _, rfl⟩ ⟨⟨trivial, trivial⟩, ⟨trivial, trivial⟩,
    ⟨trivial, ?_⟩, ⟨trivial, ?_⟩, trivial⟩
  · exact ⟨⟨0, ⟨"Veriflier", "veriflier", "7801", "token"⟩, 0, 1, "http://example.com"⟩,
      by decide, rfl, rfl, rfl, rfl⟩
  · exact ⟨⟨1, ⟨"Veriflier", "veriflier", "7801", "token"⟩, 0, 1, "http://example.com"⟩,
      by decide, rfl, rfl, rfl, rfl⟩

/-- The site is escalated twice. The first veriflier answers the first request after that
entry has timed out, and then the second request: with limit two the alarm is raised. -/
def lateReply : List Event :=
  [.message 1 (.recheck failedSite), .processQueuedRetries, .wait 61000, .processQueuedRetries,
    .message 1 (.recheck failedSite), .processQueuedRetries, .hostStatus (offlineReply 0 0),
    .hostStatus (offlineReply 0 1)]

theorem alarm_by_one_veriflier :
    ¬ ∀ m, Reachable machine Truthful m → DistinctlyConfirmed m := by
  intro h
  have hr : Reachable machine Truthful
      (machine.exec (Master.boot (withVerifliers 2 2) 0) lateReply) := by
    refine exec_reachable (.start ⟨_, _, rfl⟩) ⟨⟨trivial, trivial⟩, ⟨trivial, trivial⟩,
      ⟨by decide, trivial⟩, ⟨trivial, trivial⟩, ⟨trivial, trivial⟩, ⟨trivial, trivial⟩,
      ⟨trivial, ?_⟩, ⟨trivial, ?_⟩, trivial⟩
    · exact ⟨⟨0, ⟨"Veriflier", "veriflier", "7801", "token"⟩, 0, 1, "http://example.com"⟩,
        by decide, rfl, rfl, rfl, rfl⟩
    · exact ⟨⟨0, ⟨"Veriflier", "veriflier", "7801", "token"⟩, 1, 1, "http://example.com"⟩,
        by decide, rfl, rfl, rfl, rfl⟩
  have hd := h _ hr
  generalize hm : machine.exec (Master.boot (withVerifliers 2 2) 0) lateReply = m at hd
  have hcredits : ∀ c ∈ m.credits, c.reply.peer = 0 := by rw [← hm]; decide
  have hposted : ∃ e, Post.siteDown e ∈ m.posted := by
    rw [← hm]
    exact ⟨_, List.mem_singleton_self _⟩
  have hlimit : m.peerOfflineLimit = 2 := by rw [← hm]; rfl
  obtain ⟨e, he⟩ := hposted
  obtain ⟨peers, hn, hlen, hall⟩ := hd.alarm e he
  have hsub : peers ⊆ [0] := by
    intro p hp
    obtain ⟨_, c, hc, _, hpeer, _⟩ := hall p hp
    rw [← hpeer, hcredits c hc]
    exact List.mem_singleton_self 0
  have hle := (List.subperm_of_subset hn hsub).length_le
  rw [List.length_singleton] at hle
  omega

end Escalation
