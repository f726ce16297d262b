import Jetmon.RetrySweep

/-! How long an escalated site stays in queuedRetries. Only the five second tick removes an
entry, and it removes one that has been sent and is answered or silent for longer than
TIMEOUT_FOR_REQUESTS_SEC. Its replies bring an entry to its end, and so does their absence. -/
namespace RetryTimeout

open Escalation
open MasterFrames
open MasterState
open RetrySweep
open SiteModel
open TransitionSystem

def Queued (k : ℕ) (m : Master) : Prop := k ∈ serials m.queuedRetries

/-- No tick finds the entry answered or silent for too long. -/
def Alive (k : ℕ) (m : Master) (e : Event) : Prop :=
  e = .processQueuedRetries → ∀ x ∈ m.queuedRetries, x.serial = k → ¬Expires m x

variable {m : Master} {k : ℕ}

theorem serials_nodup (hr : Reachable machine Unrestricted m) :
    (serials m.queuedRetries).Nodup := by
  have h := (reachable_tally hr).id_nodup
  rwa [tally, List.map_map] at h

/-- Entries are known by their serial numbers. -/
theorem entry_unique (hr : Reachable machine Unrestricted m) {x y : RetryEntry}
    (hx : x ∈ m.queuedRetries) (hy : y ∈ m.queuedRetries) (h : x.serial = y.serial) : x = y :=
  List.inj_on_of_nodup_map (serials_nodup hr) hx hy h

theorem mem_swept {x : RetryEntry} (hx : x ∈ m.processQueuedRetries.queuedRetries) :
    ∃ y ∈ m.queuedRetries, ¬Expires m y ∧ x = if y.requestsSent then y else m.markSent y := by
  rw [(sentOnce m).queued] at hx
  obtain ⟨y, hy, rfl⟩ := List.mem_map.mp hx
  obtain ⟨hmem, hstays⟩ := List.mem_filter.mp hy
  exact ⟨y, hmem, of_decide_eq_true hstays, rfl⟩

theorem swept_mem {y : RetryEntry} (hy : y ∈ m.queuedRetries) (hstays : ¬Expires m y) :
    (if y.requestsSent then y else m.markSent y) ∈ m.processQueuedRetries.queuedRetries := by
  rw [(sentOnce m).queued]
  apply List.mem_map_of_mem
  exact List.mem_filter.mpr ⟨hy, decide_eq_true hstays⟩

theorem swept_serial (y : RetryEntry) :
    (if y.requestsSent then y else m.markSent y).serial = y.serial := by
  split <;> rfl

theorem alive_stays {e : Event} (h : Queued k m) (ha : Alive k m e) : Queued k (handle m e) := by
  generalize hm : handle m e = m'
  have hchange := handle_change m e
  rw [hm] at hchange
  cases hchange with
  | same hesc =>
    have hq : m'.queuedRetries = m.queuedRetries := congrArg Escalations.queuedRetries hesc
    unfold Queued
    rwa [hq]
  | requested _ he =>
    rw [he]
    unfold Queued Master.hostCheckRequest serials
    rw [List.map_append]
    exact List.mem_append_left _ h
  | notified _ _ he =>
    rw [he]
    exact h
  | swept hq =>
    obtain ⟨y, hy, rfl⟩ := List.mem_map.mp h
    obtain ⟨hq', -⟩ := processQueuedRetries_escalations m
    refine List.mem_map.mpr ⟨_, ?_, swept_serial (m := m) y⟩
    rw [hq, ← hq']
    exact swept_mem hy (ha rfl y hy rfl)
  | credited hq _ he =>
    obtain ⟨hsame, -⟩ := crediting_same _ hq
    have hserials := congrArg (List.map Prod.fst) hsame
    rw [List.map_map, List.map_map] at hserials
    rw [he]
    have heq : serials _ = serials m.queuedRetries := hserials
    unfold Queued
    rwa [heq]

theorem expired_leaves (hr : Reachable machine Unrestricted m) {x : RetryEntry}
    (hx : x ∈ m.queuedRetries) (hexpires : Expires m x) :
    ¬Queued x.serial (handle m .processQueuedRetries) := by
  intro h
  obtain ⟨y, hy, hserial⟩ := List.mem_map.mp h
  obtain ⟨y', hy', hstays, rfl⟩ := mem_swept hy
  rw [swept_serial] at hserial
  rw [entry_unique hr hy' hx hserial] at hstays
  exact hstays hexpires

/-- An entry stays queued exactly as long as no tick finds that it was sent and is answered or
silent for too long. -/
theorem stays_queued_iff (hr : Reachable machine Unrestricted m) (hk : Queued k m) {es : List Event}
    (hv : machine.Valid Unrestricted m es) :
    machine.Always (Queued k) m es ↔ machine.Valid (Alive k) m es := by
  refine always_iff_valid (I := fun m => Reachable machine Unrestricted m ∧ Queued k m)
    (fun _ h => h.2) ?_ ?_ ⟨hr, hk⟩ hv
  · intro m e h he hd ha
    exact ⟨.step h.1 he hd, alive_stays h.2 ha⟩
  · intro m e h _ _ ha
    simp only [Alive, not_forall, not_not] at ha
    obtain ⟨rfl, x, hx, rfl, hexpires⟩ := ha
    exact expired_leaves h.1 hx hexpires

def escalated : Master :=
  machine.exec (Master.boot sampleConfig 0) [.message 1 (.recheck failedSite)]

theorem escalated_reachable : Reachable machine Unrestricted escalated :=
  exec_reachable (.start ⟨_, _, rfl⟩) (by decide)

theorem stays_queued_iff_silent :
    machine.Always (Queued 0) escalated
        [.processQueuedRetries, .wait 60001, .processQueuedRetries] ↔
      machine.Valid (Alive 0) escalated
        [.processQueuedRetries, .wait 60001, .processQueuedRetries] :=
  stays_queued_iff escalated_reachable (by unfold Queued; decide) (by decide)

def repliesFor (m : Master) (k : ℕ) : ℕ := m.credits.countP fun c => c.serial == k

/-- What has become of an entry `e` that had been sent when `start` replies were counted. -/
structure Followed (e : RetryEntry) (start : ℕ) (m : Master) : Prop where
  issued : e.serial < m.nextSerial
  grown : start ≤ repliesFor m e.serial
  kept : ∀ x ∈ m.queuedRetries, x.serial = e.serial → x.requestsSent = true ∧
    x.requestsOutstanding + repliesFor m e.serial = e.requestsOutstanding + start ∧
    (repliesFor m e.serial = start → x.lastActivity = e.lastActivity)

variable {e : RetryEntry} {start : ℕ} {m' : Master}

theorem Followed.congr (h : Followed e start m) (hq : m'.queuedRetries = m.queuedRetries)
    (hn : m'.nextSerial = m.nextSerial) (hc : m'.credits = m.credits) : Followed e start m' := by
  have hreplies : repliesFor m' e.serial = repliesFor m e.serial := by
    rw [repliesFor, hc, repliesFor]
  constructor
  · rw [hn]
    exact h.issued
  · rw [hreplies]
    exact h.grown
  · rw [hq, hreplies]
    exact h.kept

theorem Followed.requested (h : Followed e start m) (server : Site) :
    Followed e start (m.hostCheckRequest server) := by
  refine ⟨Nat.lt_succ_of_lt h.issued, h.grown, ?_⟩
  intro x hx hserial
  rcases List.mem_append.mp hx with hx | hx
  · exact h.kept x hx hserial
  · rw [List.mem_singleton.mp hx] at hserial
    exact absurd hserial (Nat.ne_of_gt h.issued)

theorem Followed.swept (h : Followed e start m)
    (hq : m'.queuedRetries = m.sweepRetries.2.queuedRetries) (hn : m'.nextSerial = m.nextSerial)
    (hc : m'.credits = m.credits) : Followed e start m' := by
  have hreplies : repliesFor m' e.serial = repliesFor m e.serial := by
    rw [repliesFor, hc, repliesFor]
  refine ⟨hn ▸ h.issued, hreplies ▸ h.grown, ?_⟩
  intro x hx hserial
  rw [hq, ← (processQueuedRetries_escalations m).1] at hx
  obtain ⟨y, hy, -, rfl⟩ := mem_swept hx
  rw [swept_serial] at hserial
  obtain ⟨hsent, hrest⟩ := h.kept y hy hserial
  rw [hreplies, if_pos hsent]
  exact ⟨hsent, hrest⟩

theorem crediting_queue (m : Master) (data : Reply) (before : List RetryEntry) (x : RetryEntry)
    (after : List RetryEntry) : ∃ counted : RetryEntry,
      (crediting m data before x after).queuedRetries = before ++ counted :: after ∧
        counted.serial = x.serial ∧ counted.requestsSent = x.requestsSent ∧
        counted.requestsOutstanding = x.requestsOutstanding - 1 := by
  unfold crediting
  dsimp only
  split
  · exact ⟨_, rfl, rfl, rfl, rfl⟩
  · exact ⟨_, rfl, rfl, rfl, rfl⟩

theorem repliesFor_crediting (m : Master) (data : Reply) (before : List RetryEntry)
    (x : RetryEntry) (after : List RetryEntry) (k : ℕ) :
    repliesFor (crediting m data before x after) k =
      repliesFor m k + if x.serial = k then 1 else 0 := by
  rw [repliesFor, crediting_credits, List.countP_append, List.countP_singleton]
  simp [repliesFor]

theorem Followed.credited (h : Followed e start m) (hn : (serials m.queuedRetries).Nodup)
    (data : Reply) {before after : List RetryEntry} {x : RetryEntry}
    (hq : m.queuedRetries = before ++ x :: after) :
    Followed e start (crediting m data before x after) := by
  obtain ⟨counted, hqueue, hserial, hsent, hleft⟩ := crediting_queue m data before x after
  have hreplies := repliesFor_crediting m data before x after e.serial
  have hothers : x.serial ∉ serials (before ++ after) := by
    rw [hq, serials, List.map_append, List.map_cons] at hn
    rw [serials, List.map_append]
    exact (List.nodup_cons.mp (List.nodup_middle.mp hn)).1
  refine ⟨?_, ?_, ?_⟩
  · rw [(crediting_same data hq).2.1]
    exact h.issued
  · rw [hreplies]
    exact h.grown.trans (Nat.le_add_right _ _)
  · intro y hy hyserial
    rw [hqueue] at hy
    obtain hy | rfl | hy : y ∈ before ∨ y = counted ∨ y ∈ after := by simpa using hy
    · have hmem : y ∈ before ++ after := List.mem_append_left _ hy
      have hne : x.serial ≠ e.serial := fun heq =>
        hothers (List.mem_map.mpr ⟨y, hmem, hyserial.trans heq.symm⟩)
      rw [hreplies, if_neg hne]
      exact h.kept y (hq ▸ by simp [hy]) hyserial
    · have heq : x.serial = e.serial := hserial.symm.trans hyserial
      obtain ⟨hxsent, hxleft, -⟩ := h.kept x (hq ▸ by simp) heq
      have hgrown := h.grown
      rw [hreplies, if_pos heq]
      refine ⟨hsent.trans hxsent, ?_, ?_⟩
      · rw [hleft]
        push_cast
        linarith
      · intro hnone
        omega
    · have hmem : y ∈ before ++ after := List.mem_append_right _ hy
      have hne : x.serial ≠ e.serial := fun heq =>
        hothers (List.mem_map.mpr ⟨y, hmem, hyserial.trans heq.symm⟩)
      rw [hreplies, if_neg hne]
      exact h.kept y (hq ▸ by simp [hy]) hyserial

theorem handle_followed (hr : Reachable machine Unrestricted m) (h : Followed e start m)
    (ev : Event) : Followed e start (handle m ev) := by
  generalize hm : handle m ev = m'
  have hchange := handle_change m ev
  rw [hm] at hchange
  cases hchange with
  | same hesc =>
    exact h.congr (congrArg Escalations.queuedRetries hesc)
      (congrArg Escalations.nextSerial hesc) (congrArg Escalations.credits hesc)
  | requested _ he =>
    rw [he]
    exact h.requested _
  | notified _ _ he =>
    rw [he]
    exact h.congr rfl rfl rfl
  | swept hq hn hc => exact h.swept hq hn hc
  | credited hq _ he =>
    rw [he]
    exact h.credited (serials_nodup hr) _ hq

theorem exec_followed (hr : Reachable machine Unrestricted m) (h : Followed e start m)
    {es : List Event} (hv : machine.Valid Unrestricted m es) :
    Followed e start (machine.exec m es) := by
  have hstep := exec_invariant (I := fun m => Reachable machine Unrestricted m ∧ Followed e start m)
    (fun m ev h he hd => ⟨.step h.1 he hd, handle_followed h.1 h.2 ev⟩) ⟨hr, h⟩ hv
  exact hstep.2

theorem reachable_ticked (hr : Reachable machine Unrestricted m) :
    Reachable machine Unrestricted (handle m .processQueuedRetries) := by
  change Reachable machine Unrestricted (machine.next m .processQueuedRetries)
  exact .step hr trivial trivial

theorem ticked_followed (hr : Reachable machine Unrestricted m)
    (he : e ∈ (handle m .processQueuedRetries).queuedRetries) :
    Followed e (repliesFor (handle m .processQueuedRetries) e.serial)
      (handle m .processQueuedRetries) := by
  have hr' := reachable_ticked hr
  refine ⟨(reachable_tally hr').id_lt _ (List.mem_map_of_mem he), le_rfl, ?_⟩
  intro x hx hserial
  obtain rfl := entry_unique hr' hx he hserial
  obtain ⟨y, -, -, rfl⟩ := mem_swept hx
  refine ⟨?_, rfl, fun _ => rfl⟩
  split
  · assumption
  · rfl

/-- What makes the next tick the last one for an entry that a tick has left in the queue: as many
replies as it has requests outstanding, or none at all for longer than the timeout. -/
def Ends (m : Master) (e : RetryEntry) (m' : Master) : Prop :=
  e.requestsOutstanding + repliesFor m e.serial ≤ repliesFor m' e.serial ∨
    (repliesFor m' e.serial = repliesFor m e.serial ∧
      e.lastActivity + m'.config.timeoutForRequestsSec * seconds < m'.clock)

/-- An entry that a tick has left in the queue is removed by a later tick once all its requests
are answered, or when none is answered for longer than the timeout. -/
theorem escalation_ends (hr : Reachable machine Unrestricted m)
    (he : e ∈ (handle m .processQueuedRetries).queuedRetries) {es : List Event}
    (hv : machine.Valid Unrestricted (handle m .processQueuedRetries) es)
    (hends : Ends (handle m .processQueuedRetries) e
      (machine.exec (handle m .processQueuedRetries) es)) :
    ¬Queued e.serial
      (handle (machine.exec (handle m .processQueuedRetries) es) .processQueuedRetries) := by
  have hr' := reachable_ticked hr
  have hfollowed := exec_followed hr' (ticked_followed hr he) hv
  intro h
  obtain ⟨x, hx, hserial⟩ := List.mem_map.mp h
  obtain ⟨y, hy, hstays, rfl⟩ := mem_swept hx
  rw [swept_serial] at hserial
  obtain ⟨hsent, hleft, hsilent⟩ := hfollowed.kept y hy hserial
  apply hstays
  refine ⟨hsent, ?_⟩
  rcases hends with hanswered | ⟨hnone, hlate⟩
  · left
    omega
  · right
    rw [hsilent hnone]
    exact hlate

theorem escalation_ends_answered :
    ¬Queued 0 (handle (machine.exec (handle escalated .processQueuedRetries)
      [.hostStatus (offlineReply 0 0)]) .processQueuedRetries) :=
  escalation_ends escalated_reachable (List.Mem.head _) (by decide) (Or.inl (by decide))

end RetryTimeout
