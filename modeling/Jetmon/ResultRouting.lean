import Jetmon.CheckAccounting

/-! Whether a request that the veriflier acknowledged is answered to its sender. A site that is
already in m_checks is not added again, and its result goes to the server that the surviving
entry carries. -/
namespace ResultRouting

open CheckController
open CheckAccounting
open JsonValue
open TransitionSystem

def HealthCheck.asked (hc : HealthCheck) : String × (Int32 × String) := (hc.jetmonServer, hc.site)

def Concerns (site : Int32 × String) (result : Json ℤ) : Prop :=
  match result.get "blog_id", result.get "monitor_url" with
  | some (.num blogId), some (.str monitorUrl) => blogId = site.1.toInt ∧ monitorUrl = site.2
  | _, _ => False

instance (site : Int32 × String) (result : Json ℤ) : Decidable (Concerns site result) := by
  unfold Concerns
  split <;> infer_instance

/-- An entry for the site carries the server, or a result waits for it, or one was handed over
after the request. -/
def Answered (s : State) (ack : Ack) : Prop :=
  (∃ hc ∈ s.checks, hc.site = ack.site ∧ hc.jetmonServer = ack.jetmonServer) ∨
  (∃ result ∈ waitingFor s.checkResults ack.jetmonServer, Concerns ack.site result) ∨
  ∃ payload ∈ s.sent.drop ack.sentBefore, payload.jetmonServer = ack.jetmonServer ∧
    ∃ result ∈ checksOf payload.document, Concerns ack.site result

instance (s : State) (ack : Ack) : Decidable (Answered s ack) := by
  unfold Answered
  infer_instance

/-- No site of the request is being checked for another server, unless a result of it waits
for the sender or was handed over after the request was received. -/
def Undisputed (s : State) : Event → Prop
  | .request hcs sentBefore => ∀ hc ∈ hcs,
      (∀ c ∈ s.checks, c.site = hc.site → c.jetmonServer = hc.jetmonServer) ∨
      (∃ result ∈ waitingFor s.checkResults hc.jetmonServer, Concerns hc.site result) ∨
      ∃ payload ∈ s.sent.drop sentBefore, payload.jetmonServer = hc.jetmonServer ∧
        ∃ result ∈ checksOf payload.document, Concerns hc.site result
  | .startCheck _ | .finishedCheck _ _ _ _ | .ticked => True

instance (s : State) (e : Event) : Decidable (Undisputed s e) := by
  cases e <;> unfold Undisputed <;> infer_instance

variable {P : Settings}

theorem setThreadIndex_asked (address : ℕ) (t : ThreadIndex) (checks : List HealthCheck) :
    (setThreadIndex address t checks).map HealthCheck.asked = checks.map HealthCheck.asked := by
  rw [setThreadIndex, List.map_map]
  apply List.map_congr_left
  intro hc _
  simp only [Function.comp_apply]
  split <;> rfl

theorem mem_asked {checks : List HealthCheck} {ack : Ack} :
    (∃ hc ∈ checks, hc.site = ack.site ∧ hc.jetmonServer = ack.jetmonServer) ↔
      (ack.jetmonServer, ack.site) ∈ checks.map HealthCheck.asked := by
  simp [HealthCheck.asked, and_comm]

theorem startWaiting_frame (P : Settings) (s : State) :
    (startWaiting P s).checks.map HealthCheck.asked = s.checks.map HealthCheck.asked ∧
      (startWaiting P s).checkResults = s.checkResults ∧ (startWaiting P s).sent = s.sent ∧
      (startWaiting P s).finished = s.finished ∧
      (startWaiting P s).acknowledged = s.acknowledged := by
  obtain ⟨-, hsame⟩ | ⟨before, hc, after, -, -, -, -, hstart⟩ := startWaiting_cases P s
  · rw [hsame]
    exact ⟨rfl, rfl, rfl, rfl, rfl⟩
  · rw [hstart]
    refine ⟨?_, rfl, rfl, rfl, rfl⟩
    rw [startChecking, setThreadIndex_asked, setThreadIndex_asked]

theorem addCheck_frame (P : Settings) (s : State) (hc : HealthCheck) :
    s.checks ⊆ (addCheck P s hc).checks ∧ (addCheck P s hc).checkResults = s.checkResults ∧
      (addCheck P s hc).sent = s.sent ∧ (addCheck P s hc).finished = s.finished := by
  obtain ⟨-, hadd⟩ | ⟨-, -, hadd⟩ | ⟨-, -, hadd⟩ := addCheck_cases P s hc
  · rw [hadd]
    exact ⟨List.Subset.refl _, rfl, rfl, rfl⟩
  · rw [hadd]
    exact ⟨List.subset_append_left _ _, rfl, rfl, rfl⟩
  · rw [hadd]
    exact ⟨List.subset_append_left _ _, rfl, rfl, rfl⟩

theorem addChecks_frame (hcs : List HealthCheck) (s : State) :
    s.checks ⊆ (addChecks P s hcs).checks ∧
      (addChecks P s hcs).checkResults = s.checkResults ∧ (addChecks P s hcs).sent = s.sent ∧
      (addChecks P s hcs).finished = s.finished := by
  induction hcs generalizing s with
  | nil => exact ⟨List.Subset.refl _, rfl, rfl, rfl⟩
  | cons hc rest ih =>
    obtain ⟨hsub, hresults, hsent, hfinished⟩ := ih (addCheck P s hc)
    obtain ⟨hsub', hresults', hsent', hfinished'⟩ := addCheck_frame P s hc
    exact ⟨List.Subset.trans hsub' hsub, hresults.trans hresults', hsent.trans hsent',
      hfinished.trans hfinished'⟩

theorem addCheck_listed (P : Settings) (s : State) (hc : HealthCheck) :
    ∃ c ∈ (addCheck P s hc).checks, c.site = hc.site := by
  obtain ⟨hsite, hadd⟩ | ⟨-, -, hadd⟩ | ⟨-, -, hadd⟩ := addCheck_cases P s hc
  · rw [hadd]
    exact List.mem_map.mp hsite
  · exact ⟨{ hc with threadIndex := .preAssigned }, by simp [hadd], rfl⟩
  · exact ⟨hc, by simp [hadd], rfl⟩

theorem addCheck_origin (P : Settings) (s : State) (hc : HealthCheck) :
    ∀ c ∈ (addCheck P s hc).checks, c ∈ s.checks ∨ c.jetmonServer = hc.jetmonServer := by
  obtain ⟨-, hadd⟩ | ⟨-, -, hadd⟩ | ⟨-, -, hadd⟩ := addCheck_cases P s hc
  · rw [hadd]
    exact fun _ hmem => .inl hmem
  · rw [hadd]
    simp +contextual [or_imp]
  · rw [hadd]
    simp +contextual [or_imp]

theorem addChecks_listed {hcs : List HealthCheck} {server : String}
    (hserver : ∀ hc ∈ hcs, hc.jetmonServer = server) (s : State) :
    ∀ hc ∈ hcs, ∃ c ∈ (addChecks P s hcs).checks, c.site = hc.site ∧
      (c ∈ s.checks ∨ c.jetmonServer = server) := by
  induction hcs generalizing s with
  | nil => exact fun _ h => absurd h List.not_mem_nil
  | cons first rest ih =>
    obtain ⟨hfirst, hrest⟩ := List.forall_mem_cons.mp hserver
    have horigin := hfirst ▸ addCheck_origin P s first
    intro hc hmem
    rcases List.mem_cons.mp hmem with rfl | hmem
    · obtain ⟨c, hc', hsite⟩ := addCheck_listed P s hc
      exact ⟨c, (addChecks_frame rest _).1 hc', hsite, horigin c hc'⟩
    · obtain ⟨c, hc', hsite, hold | hserver'⟩ := ih hrest (addCheck P s first) hc hmem
      · exact ⟨c, hc', hsite, horigin c hold⟩
      · exact ⟨c, hc', hsite, .inr hserver'⟩

theorem checksOf_resultDocument (token : String) (checks : List (Json ℤ)) :
    checksOf (resultDocument token checks) = checks := rfl

theorem waitingFor_addResult (results : List (String × Json ℤ)) (server : String)
    (result : Json ℤ) :
    waitingFor (addResult P results server result) server =
      waitingFor results server ++ [result] := by
  rw [waitingFor, addResult, lookup_setMember]
  exact checksOf_resultDocument _ _

theorem waitingFor_addResult_ne {server server' : String} (h : server' ≠ server)
    (results : List (String × Json ℤ)) (result : Json ℤ) :
    waitingFor (addResult P results server result) server' = waitingFor results server' := by
  rw [waitingFor, addResult, lookup_setMember_ne h, waitingFor]

theorem concerns_arrResult (site : Int32 × String) (status httpCode rtt : Int32) :
    Concerns site (arrResult site status httpCode rtt) :=
  ⟨rfl, rfl⟩

theorem Answered.mono {s t : State} {ack : Ack} (h : Answered s ack)
    (hasked : s.checks.map HealthCheck.asked ⊆ t.checks.map HealthCheck.asked)
    (hwaiting : waitingFor s.checkResults ack.jetmonServer ⊆
      waitingFor t.checkResults ack.jetmonServer)
    (hsent : t.sent = s.sent) : Answered t ack := by
  obtain hentry | ⟨result, hresult, hconcerns⟩ | hpayload := h
  · exact .inl (mem_asked.mpr (hasked (mem_asked.mp hentry)))
  · exact .inr (.inl ⟨result, hwaiting hresult, hconcerns⟩)
  · exact .inr (.inr (hsent ▸ hpayload))

theorem request_answered {s : State} {hcs : List HealthCheck} {n : ℕ}
    (hserver : ∀ hc ∈ hcs, ∀ hc' ∈ hcs, hc.jetmonServer = hc'.jetmonServer)
    (hundisputed : Undisputed s (.request hcs n)) :
    ∀ hc ∈ hcs, Answered (serveRequest P s hcs n) ⟨hc.jetmonServer, hc.site, n⟩ := by
  intro hc hmem
  obtain ⟨-, hresults, hsent, -⟩ := addChecks_frame (P := P) hcs s
  rcases hundisputed hc hmem with hentry | hwaiting | hpayload
  · obtain ⟨c, hc', hsite, hold | hsame⟩ :=
      addChecks_listed (P := P) (fun c h => hserver c h hc hmem) s hc hmem
    · exact .inl ⟨c, hc', hsite, hentry c hold hsite⟩
    · exact .inl ⟨c, hc', hsite, hsame⟩
  · refine .inr (.inl ?_)
    change ∃ result ∈ waitingFor (addChecks P s hcs).checkResults hc.jetmonServer, _
    rw [hresults]
    exact hwaiting
  · refine .inr (.inr ?_)
    change ∃ payload ∈ (addChecks P s hcs).sent.drop n, _
    rw [hsent]
    exact hpayload

/-- A request for a site that is checked for another server is not answered. -/
theorem request_unanswered {s : State} {hcs : List HealthCheck} {n : ℕ}
    (hsites : ((addChecks P s hcs).checks.map HealthCheck.site).Nodup)
    (hdisputed : ¬Undisputed s (.request hcs n)) :
    ∃ hc ∈ hcs, ¬Answered (serveRequest P s hcs n) ⟨hc.jetmonServer, hc.site, n⟩ := by
  simp only [Undisputed, not_forall, not_or] at hdisputed
  obtain ⟨hc, hmem, ⟨c, hc', hsite, hserver⟩, hwaiting, hpayload⟩ := hdisputed
  obtain ⟨hsub, hresults, hsent, -⟩ := addChecks_frame (P := P) hcs s
  refine ⟨hc, hmem, ?_⟩
  rintro (⟨c', hlisted, hsite', hserver'⟩ | hresult | hhanded)
  · have hsame : c' = c :=
      List.inj_on_of_nodup_map hsites hlisted (hsub hc') (hsite'.trans hsite.symm)
    exact hserver (hsame ▸ hserver')
  · apply hwaiting
    rw [← hresults]
    exact hresult
  · apply hpayload
    rw [← hsent]
    exact hhanded

theorem finishedCheck_answered {s : State} {address : ℕ} {ack : Ack}
    (ha : Accounted P s.pending s) (hrunning : address ∈ s.running) (h : Answered s ack)
    (status httpCode rtt : Int32) :
    Answered (finishedCheck P s address status httpCode rtt) ack := by
  obtain ⟨before, hc, after, i, hsplit, rfl, hindex, hi⟩ := performed_entry ha hrunning
  rw [finishedCheck_eq ha hsplit hindex]
  obtain ⟨hasked, hresults, hsent, -, -⟩ := startWaiting_frame P
    (released P s hc i (before ++ after) (arrResult hc.site status httpCode rtt))
  refine Answered.mono ?_ (hasked ▸ List.Subset.refl _) (hresults ▸ List.Subset.refl _) hsent
  -- The result of the entry that is removed waits for the server that the entry carries.
  have hwaiting : ∀ server, waitingFor s.checkResults server ⊆
      waitingFor (addResult P s.checkResults hc.jetmonServer
        (arrResult hc.site status httpCode rtt)) server := by
    intro server
    by_cases heq : server = hc.jetmonServer
    · rw [heq, waitingFor_addResult]
      exact List.subset_append_left _ _
    · rw [waitingFor_addResult_ne heq]
      exact List.Subset.refl _
  obtain ⟨c, hmem, hsite, hserver⟩ | ⟨result, hresult, hconcerns⟩ | hpayload := h
  · by_cases hself : c = hc
    · subst hself
      refine .inr
        (.inl ⟨arrResult c.site status httpCode rtt, ?_, hsite ▸ concerns_arrResult _ _ _ _⟩)
      simp only [released, ← hserver, waitingFor_addResult]
      exact List.mem_append_right _ (List.mem_singleton_self _)
    · refine .inl ⟨c, ?_, hsite, hserver⟩
      rw [hsplit] at hmem
      simpa [released, hself] using hmem
  · exact .inr (.inl ⟨result, hwaiting _ hresult, hconcerns⟩)
  · exact .inr (.inr hpayload)

theorem sendResults_answered {s : State} {ack : Ack} (hbefore : ack.sentBefore ≤ s.sent.length)
    (h : Answered s ack) : Answered (sendResults s) ack := by
  obtain hentry | ⟨result, hresult, hconcerns⟩ | ⟨payload, hpayload, hreport⟩ := h
  · exact .inl hentry
  · right; right
    cases hlookup : lookup ack.jetmonServer s.checkResults with
    | none => simp [waitingFor, hlookup] at hresult
    | some document =>
      have hdocument : result ∈ checksOf document := by simpa [waitingFor, hlookup] using hresult
      refine ⟨⟨ack.jetmonServer, document⟩, ?_, rfl, result, hdocument, hconcerns⟩
      rw [sendResults, List.drop_append_of_le_length hbefore]
      exact List.mem_append_right _ (List.mem_map_of_mem (mem_of_lookup hlookup))
  · refine .inr (.inr ⟨payload, ?_, hreport⟩)
    rw [sendResults, List.drop_append_of_le_length hbefore]
    exact List.mem_append_left _ hpayload

def Kept (s : State) : Prop := ∀ ack ∈ s.acknowledged, Answered s ack

structure Answering (P : Settings) (s : State) : Prop where
  accounted : Accounted P s.pending s
  full : Full P s
  dated : ∀ ack ∈ s.acknowledged, ack.sentBefore ≤ s.sent.length
  kept : Kept s

theorem finishedCheck_frame {s : State} {address : ℕ} (ha : Accounted P s.pending s)
    (hrunning : address ∈ s.running) (status httpCode rtt : Int32) :
    (finishedCheck P s address status httpCode rtt).sent = s.sent ∧
      (finishedCheck P s address status httpCode rtt).acknowledged = s.acknowledged := by
  obtain ⟨before, hc, after, i, hsplit, rfl, hindex, -⟩ := performed_entry ha hrunning
  rw [finishedCheck_eq ha hsplit hindex]
  obtain ⟨-, -, hsent, -, hacknowledged⟩ := startWaiting_frame P
    (released P s hc i (before ++ after) (arrResult hc.site status httpCode rtt))
  exact ⟨hsent, hacknowledged⟩

theorem next_answering {s : State} {e : Event} (h : Answering P s) (he : Enabled s e)
    (hundisputed : Undisputed s e) : Answering P (next P s e) := by
  obtain ⟨haccounted, hfull⟩ := next_accounted h.accounted h.full he
  cases e with
  | request hcs sentBefore =>
    obtain ⟨hsub, hresults, hsent, -⟩ := addChecks_frame (P := P) hcs s
    refine ⟨haccounted, hfull, fun ack hack => ?_, fun ack hack => ?_⟩
    · change ack.sentBefore ≤ (addChecks P s hcs).sent.length
      rw [hsent]
      rcases List.mem_append.mp hack with hack | hack
      · exact h.dated ack hack
      · obtain ⟨hc, -, rfl⟩ := List.mem_map.mp hack
        exact he.1
    · rcases List.mem_append.mp hack with hack | hack
      · exact (h.kept ack hack).mono (List.map_subset _ hsub) (hresults ▸ List.Subset.refl _) hsent
      · obtain ⟨hc, hmem, rfl⟩ := List.mem_map.mp hack
        exact request_answered he.2.2.2 hundisputed hc hmem
  | startCheck address =>
    refine ⟨haccounted, hfull, h.dated, fun ack hack => ?_⟩
    refine (h.kept ack hack).mono ?_ (List.Subset.refl _) rfl
    exact (setThreadIndex_asked address _ s.checks) ▸ List.Subset.refl _
  | finishedCheck address status httpCode rtt =>
    obtain ⟨hsent, hacknowledged⟩ := finishedCheck_frame h.accounted he status httpCode rtt
    refine ⟨haccounted, hfull, fun ack hack => ?_, fun ack hack => ?_⟩
    · have hold := h.dated ack (hacknowledged ▸ hack)
      rwa [← hsent] at hold
    · exact finishedCheck_answered h.accounted he (h.kept ack (hacknowledged ▸ hack)) _ _ _
  | ticked =>
    refine ⟨haccounted, hfull, fun ack hack => ?_, fun ack hack => ?_⟩
    · exact (h.dated ack hack).trans (by simp [next, sendResults])
    · exact sendResults_answered (h.dated ack hack) (h.kept ack hack)

/-- In every state of a run the acknowledged checks are answered to their senders, if and only
if every request of the run is undisputed when its checks are added. -/
theorem answered_to_sender_iff (P : Settings) {events : List Event}
    (hv : (controller P).Valid Unrestricted (initial P) events) :
    (controller P).Always Kept (initial P) events ↔
      (controller P).Valid Undisputed (initial P) events := by
  have hstart : Answering P (initial P) :=
    ⟨initial_accounted P, fun hwaiting => absurd rfl hwaiting, by simp [initial],
      by simp [Kept, initial]⟩
  refine always_iff_valid (fun _ h => h.kept) ?_ ?_ hstart hv
  · intro s e h he _ hundisputed
    exact next_answering h he hundisputed
  · intro s e h he _ hdisputed hkept
    cases e with
    | request hcs sentBefore =>
      obtain ⟨haccounted, -⟩ := addChecks_accounted h.accounted h.full he.2.1 he.2.2.1
      obtain ⟨hc, hmem, hunanswered⟩ := request_unanswered haccounted.sites hdisputed
      exact hunanswered (hkept _ (List.mem_append_right _ (List.mem_map_of_mem hmem)))
    | startCheck | finishedCheck | ticked => exact hdisputed trivial

theorem answered_to_sender_sample :
    (controller sampleSettings).Always Kept (initial sampleSettings) sampleRun ↔
      (controller sampleSettings).Valid Undisputed (initial sampleSettings) sampleRun :=
  answered_to_sender_iff sampleSettings (by decide)

def overlapping : List Event :=
  [.request [⟨0, 1, "http://example.com", "10.0.0.1", .notAssigned⟩] 0,
    .request [⟨1, 1, "http://example.com", "10.0.0.2", .notAssigned⟩] 0]

theorem second_server_unanswered :
    (controller sampleSettings).Valid Unrestricted (initial sampleSettings) overlapping ∧
      ¬(controller sampleSettings).Always Kept (initial sampleSettings) overlapping := by
  refine ⟨by decide, fun h => ?_⟩
  have hkept := h.2.2 ⟨"10.0.0.2", (1, "http://example.com"), 0⟩ (by decide)
  exact absurd hkept (by decide)

end ResultRouting
