import Jetmon.DownAlarm
import Jetmon.PeerNetwork

/-! What a SITE_DOWN notification rests on: as many finished checks of the verifliers as the
limit asks for, each of which was performed, found the site of the notification offline, and is
counted once, however the posts of the verifliers were delayed, reordered or lost. -/
namespace AlarmEvidence

open CheckController
open Escalation
open JsonValue
open MasterState
open PeerNetwork
open ResultDelivery
open ResultReturn
open SiteModel
open TransitionSystem

/-- `site` says which site a serial number stands for. -/
def Stands (site : ℕ → ℕ × String) (next serial : ℕ) (pair : ℕ × String) : Prop :=
  serial < next ∧ pair = site serial

structure Filed (site : ℕ → ℕ × String) (m : Master) : Prop where
  queued : ∀ e ∈ m.queuedRetries, Stands site m.nextSerial e.serial (e.blogId, e.monitorUrl)
  alarmed : ∀ e, .siteDown e ∈ m.posted →
    Stands site m.nextSerial e.serial (e.blogId, e.monitorUrl)
  credited : ∀ c ∈ m.credits,
    Stands site m.nextSerial c.serial (c.reply.blogId, c.reply.monitorUrl)

variable {site : ℕ → ℕ × String} {m m' : Master}

theorem Filed.congr (h : Filed site m)
    (he : MasterFrames.escalations m' = MasterFrames.escalations m) : Filed site m' := by
  have hq : m'.queuedRetries = m.queuedRetries :=
    congrArg MasterFrames.Escalations.queuedRetries he
  have hn : m'.nextSerial = m.nextSerial := congrArg MasterFrames.Escalations.nextSerial he
  have hc : m'.credits = m.credits := congrArg MasterFrames.Escalations.credits he
  have hp : m'.posted = m.posted := congrArg MasterFrames.Escalations.posted he
  constructor
  · rw [hq, hn]; exact h.queued
  · rw [hp, hn]; exact h.alarmed
  · rw [hc, hn]; exact h.credited

theorem Stands.later {next serial : ℕ} {pair new : ℕ × String} (h : Stands site next serial pair) :
    Stands (Function.update site next new) (next + 1) serial pair := by
  refine ⟨Nat.lt_succ_of_lt h.1, ?_⟩
  rw [Function.update_of_ne (Nat.ne_of_lt h.1)]
  exact h.2

theorem Filed.hostCheckRequest (h : Filed site m) (server : Site) :
    Filed (Function.update site m.nextSerial (server.blogId, server.monitorUrl))
      (m.hostCheckRequest server) := by
  constructor
  · intro e he
    rcases List.mem_append.mp he with he | he
    · exact (h.queued e he).later
    · rw [List.mem_singleton.mp he]
      exact ⟨Nat.lt_succ_self _, by rw [Function.update_self]⟩
  · exact fun e he => (h.alarmed e he).later
  · exact fun c hc => (h.credited c hc).later

theorem Filed.notify (h : Filed site m) (server : Site) : Filed site (m.notify server) := by
  refine ⟨h.queued, ?_, h.credited⟩
  intro e he
  rcases List.mem_append.mp he with he | he
  · exact h.alarmed e he
  · cases List.mem_singleton.mp he

theorem Filed.swept (h : Filed site m) (hq : m'.queuedRetries = m.sweepRetries.2.queuedRetries)
    (hn : m'.nextSerial = m.nextSerial) (hc : m'.credits = m.credits) (hp : m'.posted = m.posted) :
    Filed site m' := by
  constructor
  · intro e he
    have hsub := swept_map_sublist (m := m) (f := fun e => (e.serial, e.blogId, e.monitorUrl))
      fun _ => rfl
    rw [hq] at he
    obtain ⟨e₀, he₀, hsame⟩ := List.mem_map.mp (hsub.subset (List.mem_map.mpr ⟨e, he, rfl⟩))
    simp only [Prod.mk.injEq] at hsame
    rw [hn, ← hsame.1, ← hsame.2.1, ← hsame.2.2]
    exact h.queued e₀ he₀
  · rw [hp, hn]; exact h.alarmed
  · rw [hc, hn]; exact h.credited

theorem Filed.crediting {data : Reply} {before after : List RetryEntry} {e : RetryEntry}
    (h : Filed site m) (hq : m.queuedRetries = before ++ e :: after)
    (hs : Escalation.credited m data = some e) :
    Filed site (Escalation.crediting m data before e after) := by
  have hmem : ∀ e' ∈ before ++ e :: after,
      Stands site m.nextSerial e'.serial (e'.blogId, e'.monitorUrl) := hq ▸ h.queued
  have hstands := hmem e (by simp)
  have hkept : ∀ e', Stands site m.nextSerial e'.serial (e'.blogId, e'.monitorUrl) →
      ∀ e'' ∈ before ++ e' :: after,
        Stands site m.nextSerial e''.serial (e''.blogId, e''.monitorUrl) := by
    intro e' hs' e'' he''
    rcases List.mem_append.mp he'' with he'' | he''
    · exact hmem e'' (List.mem_append_left _ he'')
    · rcases List.mem_cons.mp he'' with rfl | he''
      · exact hs'
      · exact hmem e'' (List.mem_append_right _ (List.mem_cons_of_mem _ he''))
  have hcredit : ∀ c ∈ m.credits ++ [⟨e.serial, data⟩],
      Stands site m.nextSerial c.serial (c.reply.blogId, c.reply.monitorUrl) := by
    intro c hc
    rcases List.mem_append.mp hc with hc | hc
    · exact h.credited c hc
    · obtain ⟨hblog, hurl⟩ : e.blogId = data.blogId ∧ e.monitorUrl = data.monitorUrl := by
        simpa [RetryEntry.concerns] using DownAlarm.credited_concerns hs
      rw [List.mem_singleton.mp hc, ← hblog, ← hurl]
      exact hstands
  unfold Escalation.crediting
  dsimp only
  split
  · refine ⟨hkept _ hstands, ?_, hcredit⟩
    intro e' he'
    rcases List.mem_append.mp he' with he' | he'
    · exact h.alarmed e' he'
    · cases List.mem_singleton.mp he'
      exact hstands
  · exact ⟨hkept _ hstands, h.alarmed, hcredit⟩

theorem handle_filed (h : Filed site m) (e : MasterState.Event) :
    ∃ site', Filed site' (handle m e) := by
  cases handle_change m e with
  | same he => exact ⟨site, h.congr he⟩
  | requested _ he =>
    rw [he]
    exact ⟨_, h.hostCheckRequest _⟩
  | notified _ _ he =>
    rw [he]
    exact ⟨site, h.notify _⟩
  | swept hq hn hc hp _ => exact ⟨site, h.swept hq hn hc hp⟩
  | credited hq hs he =>
    rw [he]
    exact ⟨site, h.crediting hq hs⟩

theorem reachable_filed (hr : Reachable MasterState.machine Unrestricted m) :
    ∃ site, Filed site m := by
  apply reachable_invariant (I := fun m => ∃ site, Filed site m) _ _ hr
  · rintro _ ⟨cfg, now, rfl⟩
    refine ⟨fun _ => (0, ""), ?_, ?_, ?_⟩
    all_goals simp [Master.boot]
  · rintro m e _ ⟨site, h⟩ _ _
    exact handle_filed h e

/-- The offline replies about the site of the entry that were counted for it. -/
def confirmations (m : Master) (e : RetryEntry) : List Reply :=
  (m.credits.map Credit.reply).filter fun reply => reply.offline && e.concerns reply

theorem limit_le_confirmations (hr : Reachable MasterState.machine Unrestricted m)
    {e : RetryEntry} (he : .siteDown e ∈ m.posted) :
    m.peerOfflineLimit ≤ (confirmations m e).length := by
  obtain ⟨site, hfiled⟩ := reachable_filed hr
  have halarm : e.serial ∈ (tally m).alarms := List.mem_filterMap.mpr ⟨_, he, rfl⟩
  have hquorum := QuorumTally.quorum_of_alarm (reachable_tally hr) halarm
  rw [votesFor_tally] at hquorum
  refine hquorum.trans ?_
  rw [confirmations, List.filter_map, List.length_map, ← List.countP_eq_length_filter]
  refine List.countP_mono_left fun c hc h => ?_
  simp only [Bool.and_eq_true, beq_iff_eq] at h
  have hsite : (e.blogId, e.monitorUrl) = (c.reply.blogId, c.reply.monitorUrl) := by
    rw [(hfiled.alarmed e he).2, (hfiled.credited c hc).2, h.1]
  obtain ⟨hblog, hurl⟩ := Prod.mk.inj hsite
  simp [RetryEntry.concerns, h.2, hblog, hurl]

variable {ι : Type*} [DecidableEq ι] {D : Deployment ι}

def FoundOffline (e : RetryEntry) (result : Json ℤ) : Prop :=
  ∃ site httpCode rtt, result = arrResult site 0 httpCode rtt ∧ site.1.toInt = e.blogId ∧
    site.2 = e.monitorUrl

theorem foundOffline_of_reply {host : String} {result : Json ℤ} {reply : Reply} {e : RetryEntry}
    (hresult : IsResult result) (hread : replyOf host result = some reply)
    (hoffline : reply.offline = true) (hconcerns : e.concerns reply = true) :
    FoundOffline e result := by
  obtain ⟨site, status, httpCode, rtt, rfl⟩ := hresult
  obtain ⟨-, hblog, hurl, hstatus, -, -⟩ := replyOf_result hread
  obtain ⟨hblog', hurl'⟩ : e.blogId = reply.blogId ∧ e.monitorUrl = reply.monitorUrl := by
    simpa [RetryEntry.concerns] using hconcerns
  have hzero : status.toInt = 0 := by
    simpa [Reply.offline, hostOffline, hstatus] using hoffline
  have hstatus' : status = 0 := Int32.toInt_inj.mp hzero
  refine ⟨site, httpCode, rtt, ?_, ?_, ?_⟩
  · rw [hstatus']
  · rw [← hblog, hblog']
  · rw [← hurl, hurl']

theorem preimage_sublist {α β : Type*} {f : α → Option β} {l : List α} {k : List β}
    (h : k.Sublist (l.filterMap f)) :
    ∃ l' : List α, l'.Sublist l ∧ l'.length = k.length ∧ ∀ a ∈ l', ∃ b ∈ k, f a = some b := by
  obtain ⟨l', hsub, rfl⟩ := List.sublist_filterMap_iff.mp h
  refine ⟨l'.filter fun a => (f a).isSome, List.filter_sublist.trans hsub, ?_, ?_⟩
  · rw [List.length_filterMap_eq_countP, List.countP_eq_length_filter]
  · intro a ha
    obtain ⟨hmem, hsome⟩ := List.mem_filter.mp ha
    obtain ⟨b, hb⟩ := Option.isSome_iff_exists.mp hsome
    exact ⟨b, List.mem_filterMap.mpr ⟨a, hmem, hb⟩, hb⟩

theorem reports_ofPeer (i : ι) (list : List (ι × Payload)) :
    ((list.flatMap reportsOf).filter fun report => report.1 == i).map Prod.snd =
      resultsIn (ofPeer i list) := by
  induction list with
  | nil => rfl
  | cons post rest ih =>
    rw [List.flatMap_cons, List.filter_append, List.map_append, ih]
    by_cases hi : post.1 = i
    · simp [reportsOf, resultsIn, ofPeer, hi, List.filter_map, Function.comp_def]
    · simp [reportsOf, resultsIn, ofPeer, hi, List.filter_map, Function.comp_def]

theorem reports_subperm {s : System ι} (hr : Reachable (machine D) Unrestricted s)
    {evidence : List (ι × Json ℤ)}
    (h : evidence.Sublist ((s.accepted.take s.received).flatMap reportsOf)) (i : ι) :
    ((evidence.filter fun report => report.1 == i).map Prod.snd).Subperm
      (finishedFor (s.peers i) D.here) := by
  have hhanded : (resultsIn (ofPeer i (s.accepted.take s.received))).Sublist
      (resultsIn (ofPeer i (posts s))) := by
    apply List.Sublist.flatMap
    apply List.Sublist.map
    apply List.Sublist.filter
    exact (List.take_sublist _ _).trans (List.sublist_append_right _ _)
  have hreports := (h.filter fun report => report.1 == i).map Prod.snd
  rw [reports_ofPeer] at hreports
  refine (hreports.trans hhanded).subperm.trans ?_
  refine List.Subperm.trans ?_ (finished_perm hr i).symm.subperm
  exact (List.sublist_append_left _ _).subperm

/-- Every SITE_DOWN notification is backed by PEER_OFFLINE_LIMIT finished checks of that site:
what is counted twice was found twice. -/
theorem alarm_evidence {s : System ι} (hr : Reachable (machine D) Unrestricted s)
    {e : RetryEntry} (he : .siteDown e ∈ s.master.posted) :
    ∃ evidence : List (ι × Json ℤ), evidence.length = s.master.peerOfflineLimit ∧
      (∀ report ∈ evidence, FoundOffline e report.2) ∧
      ∀ i, ((evidence.filter fun report => report.1 == i).map Prod.snd).Subperm
        (finishedFor (s.peers i) D.here) := by
  have hmaster := (masterSimulation D).reachable hr
  have hlimit := limit_le_confirmations hmaster he
  have hcounted : ((confirmations s.master e).take s.master.peerOfflineLimit).Sublist
      (((s.accepted.take s.received).flatMap reportsOf).filterMap (readReport D)) := by
    rw [← calls_eq hr]
    exact (List.take_sublist _ _).trans
      (List.filter_sublist.trans (reachable_carried hr).credits)
  obtain ⟨evidence, hsub, hlength, hread⟩ := preimage_sublist hcounted
  refine ⟨evidence, ?_, ?_, reports_subperm hr hsub⟩
  · rw [hlength, List.length_take]
    exact min_eq_left hlimit
  · intro report hreport
    obtain ⟨reply, hreply, hread⟩ := hread report hreport
    obtain ⟨veriflier, -, hread⟩ := Option.bind_eq_some_iff.mp hread
    have hmem := List.mem_of_mem_take hreply
    obtain ⟨-, hoffline⟩ := List.mem_filter.mp hmem
    obtain ⟨hoffline, hconcerns⟩ := Bool.and_eq_true_iff.mp hoffline
    obtain ⟨post, hpost, hcarried⟩ := List.mem_flatMap.mp (hsub.subset hreport)
    obtain ⟨results, hdocument, -, hresults⟩ := posts_written hr (reachable_carried hr)
      (show post ∈ posts s by simp [posts, List.mem_of_mem_take hpost])
    obtain ⟨result, hresult, rfl⟩ := List.mem_map.mp hcarried
    rw [hdocument, ResultRouting.checksOf_resultDocument] at hresult
    exact foundOffline_of_reply (hresults result hresult) hread hoffline hconcerns

theorem sampleHeard_posted : ∃ e, .siteDown e ∈ sampleHeard.master.posted := by
  simp only [sampleHeard_eq]
  exact ⟨_, List.Mem.head _⟩

theorem alarm_evidence_sample :
    ∃ e, .siteDown e ∈ sampleHeard.master.posted ∧
      ∃ evidence : List (Unit × Json ℤ), evidence.length = sampleHeard.master.peerOfflineLimit ∧
        (∀ report ∈ evidence, FoundOffline e report.2) ∧
        ∀ i, ((evidence.filter fun report => report.1 == i).map Prod.snd).Subperm
          (finishedFor (sampleHeard.peers i) "10.0.0.1") := by
  obtain ⟨e, he⟩ := sampleHeard_posted
  exact ⟨e, he, alarm_evidence sampleHeard_reachable he⟩

end AlarmEvidence
