import Jetmon.Escalation
import Jetmon.Iteration

/-! The two loops of processQueuedRetries that send the escalated sites to the verifliers. The
first one walks the queue from its end and removes entries as it goes; the second one steps
through the entries to send by the batch size while it cuts each batch from their end. -/
namespace RetrySweep

open SiteModel
open TransitionSystem
open MasterState
open MasterFrames
open Escalation

/-- The passes of the first loop for the indices below `loop`, on queuedRetries and sendRetries. -/
def sweepLoop (m : Master) : ℕ → List RetryEntry → List RetryEntry →
    List RetryEntry × List RetryEntry
  | 0, queuedRetries, sendRetries => (queuedRetries, sendRetries)
  | loop + 1, queuedRetries, sendRetries =>
    match queuedRetries[loop]? with
    | none => sweepLoop m loop queuedRetries sendRetries
    | some e =>
      if e.requestsSent = false then
        sweepLoop m loop (queuedRetries.set loop (m.markSent e)) (sendRetries ++ [m.markSent e])
      else if m.timedOut e then sweepLoop m loop (queuedRetries.eraseIdx loop) sendRetries
      else sweepLoop m loop queuedRetries sendRetries

structure Batching where
  loop : ℤ
  sendRetries : List RetryEntry
  batches : List (List RetryEntry)
  deriving DecidableEq, Repr

def Batching.cut (batchSize : ℕ) (b : Batching) : Batching :=
  let sending := min batchSize b.sendRetries.length
  { loop := b.loop - batchSize
    sendRetries := b.sendRetries.take (b.sendRetries.length - sending)
    batches := b.batches ++ [b.sendRetries.drop (b.sendRetries.length - sending)] }

def batchStep (batchSize : ℕ) (b : Batching) : Batching ⊕ List (List RetryEntry) :=
  if 0 ≤ b.loop then .inl (b.cut batchSize) else .inr b.batches

/-- `VERIFLIER_BATCH_SIZE || 200`. -/
def batchSize (m : Master) : ℕ :=
  if m.config.veriflierBatchSize = 0 then 200 else m.config.veriflierBatchSize

def startBatching (sendRetries : List RetryEntry) : Batching :=
  ⟨(sendRetries.length : ℤ) - 1, sendRetries, []⟩

/-- The entry is removed: it has been sent, and is answered or too old. -/
def Expires (m : Master) (e : RetryEntry) : Prop :=
  e.requestsSent = true ∧ (e.requestsOutstanding ≤ 0 ∨
    e.lastActivity + m.config.timeoutForRequestsSec * seconds < m.clock)

instance (m : Master) (e : RetryEntry) : Decidable (Expires m e) :=
  inferInstanceAs (Decidable (_ ∧ _))

variable {m : Master}

theorem timedOut_iff (e : RetryEntry) : m.timedOut e = true ↔ e.requestsOutstanding ≤ 0 ∨
    e.lastActivity + m.config.timeoutForRequestsSec * seconds < m.clock := by
  rw [Master.timedOut, Bool.or_eq_true, decide_eq_true_iff, decide_eq_true_iff]

theorem expires_iff (e : RetryEntry) :
    Expires m e ↔ e.requestsSent = true ∧ m.timedOut e = true := by
  rw [Expires, timedOut_iff]

def swept (m : Master) (e : RetryEntry) : Option RetryEntry :=
  if Expires m e then none else some (if e.requestsSent then e else m.markSent e)

def unsent (queue : List RetryEntry) : List RetryEntry := queue.filter fun e => !e.requestsSent

theorem sweepLoop_front (front : List RetryEntry) : ∀ (done sendRetries : List RetryEntry),
    sweepLoop m front.length (front ++ done) sendRetries =
      (front.filterMap (swept m) ++ done,
        sendRetries ++ (unsent front).reverse.map m.markSent) := by
  induction front using List.reverseRecOn with
  | nil =>
    intro done sendRetries
    simp [sweepLoop, unsent]
  | append_singleton front e ih =>
    intro done sendRetries
    have hget : (front ++ [e] ++ done)[front.length]? = some e := by simp
    have hset : ∀ e', (front ++ [e] ++ done).set front.length e' = front ++ (e' :: done) := by simp
    have herase : (front ++ [e] ++ done).eraseIdx front.length = front ++ done := by
      rw [List.append_assoc, List.eraseIdx_append_of_length_le (Nat.le_refl _), Nat.sub_self]
      rfl
    rw [List.length_append, List.length_singleton, sweepLoop, hget]
    dsimp only
    by_cases hsent : e.requestsSent = false
    · have hswept : swept m e = some (m.markSent e) := by
        have hnot : ¬Expires m e := by
          intro h
          have hs := h.1
          rw [hsent] at hs
          contradiction
        rw [swept, if_neg hnot, hsent]
        rfl
      have hunsent : unsent (front ++ [e]) = unsent front ++ [e] := by simp [unsent, hsent]
      rw [if_pos hsent, hset, ih, List.filterMap_append, hunsent, List.reverse_append,
        List.map_append]
      simp [hswept]
    · have hsent' : e.requestsSent = true := Bool.not_eq_false _ ▸ hsent
      have hunsent : unsent (front ++ [e]) = unsent front := by simp [unsent, hsent']
      rw [if_neg hsent, hunsent, List.filterMap_append]
      by_cases hover : m.timedOut e = true
      · have hswept : swept m e = none := if_pos ((expires_iff e).mpr ⟨hsent', hover⟩)
        rw [if_pos hover, herase, ih]
        simp [hswept]
      · have hswept : swept m e = some e := by
          rw [swept, if_neg (fun h => hover ((expires_iff e).mp h).2), if_pos hsent']
        rw [if_neg hover, List.append_assoc, ih]
        simp [hswept]

/-- The first loop computes what the sweep of the model does. -/
theorem sweepLoop_eq (m : Master) : sweepLoop m m.queuedRetries.length m.queuedRetries [] =
    (m.sweepRetries.2.queuedRetries, m.sweepRetries.1) := by
  have hfront := sweepLoop_front (m := m) m.queuedRetries [] []
  rw [List.append_nil, List.append_nil, List.nil_append] at hfront
  have hswept : ∀ e, swept m e =
      if e.requestsSent then (if m.timedOut e then none else some e) else some (m.markSent e) := by
    intro e
    rw [swept, if_congr (expires_iff e) rfl rfl]
    cases e.requestsSent <;> cases m.timedOut e <;> rfl
  rw [hfront]
  exact congrArg (·, _) (List.filterMap_congr fun e _ => hswept e)

structure Aligned (b : Batching) : Prop where
  more : b.sendRetries ≠ [] → b.loop = b.sendRetries.length - 1
  done : b.sendRetries = [] → b.loop < 0

theorem startBatching_aligned (sendRetries : List RetryEntry) :
    Aligned (startBatching sendRetries) := by
  constructor
  · intro _
    rfl
  · intro h
    have hnil : sendRetries = [] := h
    simp [startBatching, hnil]

theorem cut_aligned {size : ℕ} (hsize : 0 < size) {b : Batching} (h : Aligned b)
    (hne : b.sendRetries ≠ []) : Aligned (b.cut size) := by
  have hloop := h.more hne
  have hpos := List.length_pos_of_ne_nil hne
  have hlen : (b.cut size).sendRetries.length = b.sendRetries.length - size := by
    rw [Batching.cut, List.length_take]
    omega
  have hnext : (b.cut size).loop = b.loop - size := rfl
  constructor
  · intro hne'
    have hpos' := List.length_pos_of_ne_nil hne'
    omega
  · intro hnil
    have hzero := congrArg List.length hnil
    rw [hlen, List.length_nil] at hzero
    omega

theorem batchStep_returns {size : ℕ} (hsize : 0 < size) (fuel : ℕ) : ∀ b, Aligned b →
    b.sendRetries.length ≤ fuel → Iteration.Returns (batchStep size) b
      (b.batches ++ sendBatches size fuel b.sendRetries) := by
  induction fuel with
  | zero =>
    intro b hb hlen
    have hnil : b.sendRetries = [] := List.eq_nil_of_length_eq_zero (Nat.le_zero.mp hlen)
    have hloop := hb.done hnil
    rw [sendBatches, List.append_nil]
    exact .done (if_neg (by omega))
  | succ fuel ih =>
    intro b hb hlen
    rw [sendBatches]
    by_cases hnil : b.sendRetries = []
    · have hloop := hb.done hnil
      have hzero : b.sendRetries.length = 0 := congrArg List.length hnil
      rw [if_pos hzero, List.append_nil]
      exact .done (if_neg (by omega))
    · have hloop := hb.more hnil
      have hpos : 0 < b.sendRetries.length := List.length_pos_of_ne_nil hnil
      have hless : (b.cut size).sendRetries.length ≤ fuel := by
        rw [Batching.cut, List.length_take]
        omega
      have hrest := ih (b.cut size) (cut_aligned hsize hb hnil) hless
      rw [if_neg (by omega)]
      refine .more (if_pos (by omega)) ?_
      rw [Batching.cut, List.append_assoc] at hrest
      exact hrest

/-- The second loop ends, with the batches of the model. -/
theorem batches_returned {size : ℕ} (hsize : 0 < size) (sendRetries : List RetryEntry) :
    Iteration.Returns (batchStep size) (startBatching sendRetries)
      (sendBatches size sendRetries.length sendRetries) :=
  batchStep_returns hsize _ _ (startBatching_aligned sendRetries) (Nat.le_refl _)

theorem batchSize_pos (m : Master) : 0 < batchSize m := by
  rw [batchSize]
  split <;> omega

section Batches

variable {size : ℕ}

theorem sendBatches_perm (hsize : 0 < size) (fuel : ℕ) : ∀ l : List RetryEntry,
    l.length ≤ fuel → (sendBatches size fuel l).flatten.Perm l := by
  induction fuel with
  | zero =>
    intro l hlen
    rw [List.eq_nil_of_length_eq_zero (Nat.le_zero.mp hlen)]
    exact List.Perm.refl _
  | succ fuel ih =>
    intro l hlen
    rw [sendBatches]
    split
    · have hnil : l = [] := List.eq_nil_of_length_eq_zero ‹_›
      rw [hnil]
      exact List.Perm.refl _
    · have hless : (l.take (l.length - min size l.length)).length ≤ fuel := by
        rw [List.length_take]
        omega
      rw [List.flatten_cons]
      have happ := List.take_append_drop (l.length - min size l.length) l
      have hrest := (ih _ hless).append_left (l.drop (l.length - min size l.length))
      exact hrest.trans (List.perm_append_comm.trans (List.Perm.of_eq happ))

theorem sendBatches_length (hsize : 0 < size) (fuel : ℕ) : ∀ l : List RetryEntry,
    ∀ batch ∈ sendBatches size fuel l, batch ≠ [] ∧ batch.length ≤ size := by
  induction fuel with
  | zero =>
    intro l batch h
    contradiction
  | succ fuel ih =>
    intro l batch h
    rw [sendBatches] at h
    split at h
    · contradiction
    · rcases List.mem_cons.mp h with rfl | h
      · rw [← List.length_pos_iff, List.length_drop]
        omega
      · exact ih _ batch h

end Batches

/-- One call and what its loops compute: the entries to send and the batches. -/
structure SentOnce (m : Master) (sendRetries : List RetryEntry) (batches : List (List RetryEntry)) :
    Prop where
  first : sweepLoop m m.queuedRetries.length m.queuedRetries [] =
    (m.processQueuedRetries.queuedRetries, sendRetries)
  second : Iteration.Returns (batchStep (batchSize m)) (startBatching sendRetries) batches
  once : batches.flatten.Perm ((unsent m.queuedRetries).map fun e =>
    { e with requestsSent := true, requestsOutstanding := m.config.verifiers.length })
  nonempty : ∀ batch ∈ batches, batch ≠ []
  bounded : 1 ≤ m.config.veriflierBatchSize →
    ∀ batch ∈ batches, batch.length ≤ m.config.veriflierBatchSize
  requested : m.processQueuedRetries.requests =
    m.requests ++ batches.flatMap (requestsFor m.config.verifiers)
  queued : m.processQueuedRetries.queuedRetries =
    (m.queuedRetries.filter fun e => ¬Expires m e).map fun e =>
      if e.requestsSent then e
      else { e with requestsSent := true, requestsOutstanding := m.config.verifiers.length }

theorem filterMap_swept (m : Master) (queue : List RetryEntry) : queue.filterMap (swept m) =
    (queue.filter fun e => ¬Expires m e).map fun e =>
      if e.requestsSent then e else m.markSent e := by
  induction queue with
  | nil => rfl
  | cons e rest ih =>
    by_cases h : Expires m e <;> simp [swept, h, ih]

theorem sentOnce (m : Master) : SentOnce m m.sweepRetries.1
    (sendBatches (batchSize m) m.sweepRetries.1.length m.sweepRetries.1) where
  first := by rw [(processQueuedRetries_escalations m).1, sweepLoop_eq]
  second := batches_returned (batchSize_pos m) _
  once := by
    have hperm := sendBatches_perm (batchSize_pos m) _ m.sweepRetries.1 (Nat.le_refl _)
    exact hperm.trans ((List.reverse_perm _).map _)
  nonempty := fun batch h => (sendBatches_length (batchSize_pos m) _ _ batch h).1
  bounded := by
    intro hsize batch h
    have hbound := (sendBatches_length (batchSize_pos m) _ _ batch h).2
    rwa [batchSize, if_neg (by omega)] at hbound
  requested := (processQueuedRetries_escalations m).2.2.2.2
  queued := by
    have hfront := sweepLoop_front (m := m) m.queuedRetries [] []
    rw [List.append_nil, List.append_nil, sweepLoop_eq, filterMap_swept] at hfront
    rw [(processQueuedRetries_escalations m).1]
    exact congrArg Prod.fst hfront

def asked (q : Request) : ℕ × ℕ := (q.peer, q.serial)

def serials (queue : List RetryEntry) : List ℕ := queue.map RetryEntry.serial

theorem asked_requestsFor (verifiers : List Veriflier) (batch : List RetryEntry) :
    (requestsFor verifiers batch).map asked = List.range verifiers.length ×ˢ serials batch := by
  have hpeers : verifiers.zipIdx.map Prod.snd = List.range verifiers.length := by
    rw [List.zipIdx_map_snd, List.range_eq_range']
  rw [requestsFor, List.map_flatMap, ← hpeers, SProd.sprod, List.instSProd]
  dsimp only [List.product]
  rw [List.flatMap_map]
  exact List.flatMap_congr fun v _ => by simp [asked, serials]

theorem asked_batches_nodup (verifiers : List Veriflier) {batches : List (List RetryEntry)}
    (h : (serials batches.flatten).Nodup) :
    ((batches.flatMap (requestsFor verifiers)).map asked).Nodup := by
  rw [serials, List.map_flatten, List.nodup_flatten] at h
  obtain ⟨heach, hapart⟩ := h
  rw [List.pairwise_map] at hapart
  rw [List.map_flatMap, List.nodup_flatMap]
  constructor
  · intro batch hb
    rw [asked_requestsFor]
    exact List.nodup_range.product (heach _ (List.mem_map_of_mem hb))
  · apply hapart.imp
    intro b₁ b₂ hdisjoint q h₁ h₂
    dsimp only at h₁ h₂
    rw [asked_requestsFor] at h₁ h₂
    exact hdisjoint (List.mem_product.mp h₁).2 (List.mem_product.mp h₂).2

structure Ledger (m : Master) : Prop where
  numbered : (serials m.queuedRetries).Nodup
  fresh : ∀ e ∈ m.queuedRetries, e.serial < m.nextSerial
  past : ∀ q ∈ m.requests, q.serial < m.nextSerial
  waiting : ∀ e ∈ m.queuedRetries, e.requestsSent = false → ∀ q ∈ m.requests, q.serial ≠ e.serial
  once : (m.requests.map asked).Nodup

theorem mem_requestsFor {verifiers : List Veriflier} {batch : List RetryEntry} {q : Request}
    (h : q ∈ requestsFor verifiers batch) : ∃ e ∈ batch, q.serial = e.serial := by
  obtain ⟨v, -, hv⟩ := List.mem_flatMap.mp h
  obtain ⟨e, he, rfl⟩ := List.mem_map.mp hv
  exact ⟨e, he, rfl⟩

theorem SentOnce.of_request {m : Master} {sendRetries : List RetryEntry}
    {batches : List (List RetryEntry)} (h : SentOnce m sendRetries batches) {q : Request}
    (hq : q ∈ batches.flatMap (requestsFor m.config.verifiers)) :
    ∃ e ∈ m.queuedRetries, e.requestsSent = false ∧ q.serial = e.serial := by
  obtain ⟨batch, hb, hq⟩ := List.mem_flatMap.mp hq
  obtain ⟨e, he, hs⟩ := mem_requestsFor hq
  have hmem := h.once.mem_iff.mp (List.mem_flatten.mpr ⟨batch, hb, he⟩)
  obtain ⟨e₀, he₀, rfl⟩ := List.mem_map.mp hmem
  obtain ⟨hin, hunsent⟩ := List.mem_filter.mp he₀
  exact ⟨e₀, hin, by simpa using hunsent, hs⟩

theorem SentOnce.of_queued {m : Master} {sendRetries : List RetryEntry}
    {batches : List (List RetryEntry)} (h : SentOnce m sendRetries batches) {e : RetryEntry}
    (he : e ∈ m.processQueuedRetries.queuedRetries) :
    e.requestsSent = true ∧ ∃ e₀ ∈ m.queuedRetries, e.serial = e₀.serial := by
  rw [h.queued] at he
  obtain ⟨e₀, he₀, rfl⟩ := List.mem_map.mp he
  refine ⟨?_, e₀, List.mem_of_mem_filter he₀, ?_⟩ <;> cases h₀ : e₀.requestsSent <;> simp [h₀]

theorem ledger_swept {m m' : Master} (h : Ledger m)
    (hq : m'.queuedRetries = m.processQueuedRetries.queuedRetries)
    (hr : m'.requests = m.processQueuedRetries.requests) (hn : m'.nextSerial = m.nextSerial) :
    Ledger m' := by
  have hsent := sentOnce m
  constructor
  · have hsub := swept_map_sublist (m := m) (f := RetryEntry.serial) fun _ => rfl
    rw [hq, (processQueuedRetries_escalations m).1]
    exact h.numbered.sublist hsub
  · intro e he
    obtain ⟨-, e₀, he₀, hs⟩ := hsent.of_queued (hq ▸ he)
    rw [hn, hs]
    exact h.fresh e₀ he₀
  · intro q hin
    rw [hr, hsent.requested] at hin
    rw [hn]
    rcases List.mem_append.mp hin with hold | hin
    · exact h.past q hold
    · obtain ⟨e, he, -, hs⟩ := hsent.of_request hin
      rw [hs]
      exact h.fresh e he
  · intro e he hunsent
    rw [(hsent.of_queued (hq ▸ he)).1] at hunsent
    contradiction
  · rw [hr, hsent.requested, List.map_append]
    refine h.once.append (asked_batches_nodup _ ?_) ?_
    · have hperm := hsent.once.map RetryEntry.serial
      rw [serials, hperm.nodup_iff, List.map_map]
      exact h.numbered.sublist (List.filter_sublist.map _)
    · intro k hold hin
      obtain ⟨q, hq, rfl⟩ := List.mem_map.mp hold
      obtain ⟨q', hq', heq⟩ := List.mem_map.mp hin
      obtain ⟨e, he, hunsent, hs⟩ := hsent.of_request hq'
      have hserial : q'.serial = q.serial := congrArg Prod.snd heq
      exact h.waiting e he hunsent q hq (hserial.symm.trans hs)

theorem ledger_same {m m' : Master} (h : Ledger m)
    (hq : m'.queuedRetries.map (fun e => (e.serial, e.requestsSent)) =
      m.queuedRetries.map fun e => (e.serial, e.requestsSent))
    (hn : m'.nextSerial = m.nextSerial) (hr : m'.requests = m.requests) : Ledger m' := by
  have hfrom : ∀ e ∈ m'.queuedRetries, ∃ e₀ ∈ m.queuedRetries, e₀.serial = e.serial ∧
      e₀.requestsSent = e.requestsSent := by
    intro e he
    have hmem := List.mem_map_of_mem (f := fun e => (e.serial, e.requestsSent)) he
    rw [hq] at hmem
    obtain ⟨e₀, he₀, heq⟩ := List.mem_map.mp hmem
    exact ⟨e₀, he₀, congrArg Prod.fst heq, congrArg Prod.snd heq⟩
  constructor
  · have hserials := congrArg (List.map Prod.fst) hq
    rw [List.map_map, List.map_map] at hserials
    have heq : serials m'.queuedRetries = serials m.queuedRetries := hserials
    rw [heq]
    exact h.numbered
  · intro e he
    obtain ⟨e₀, he₀, hs, -⟩ := hfrom e he
    rw [hn, ← hs]
    exact h.fresh e₀ he₀
  · rw [hn, hr]
    exact h.past
  · intro e he hunsent
    obtain ⟨e₀, he₀, hs, hsent⟩ := hfrom e he
    rw [hr, ← hs]
    exact h.waiting e₀ he₀ (hsent.trans hunsent)
  · rw [hr]
    exact h.once

theorem ledger_escalated {m : Master} (h : Ledger m) (server : Site) :
    Ledger (m.hostCheckRequest server) := by
  constructor
  · rw [serials, Master.hostCheckRequest, List.map_append]
    refine h.numbered.append (List.nodup_singleton _) ?_
    intro k hk hnew
    obtain ⟨e, he, rfl⟩ := List.mem_map.mp hk
    have hserial : e.serial = m.nextSerial := List.mem_singleton.mp hnew
    exact absurd hserial (h.fresh e he).ne
  · intro e he
    rcases List.mem_append.mp he with he | he
    · exact (h.fresh e he).trans (Nat.lt_succ_self _)
    · rw [List.mem_singleton.mp he]
      exact Nat.lt_succ_self _
  · exact fun q hq => (h.past q hq).trans (Nat.lt_succ_self _)
  · intro e he hunsent q hq
    rcases List.mem_append.mp he with he | he
    · exact h.waiting e he hunsent q hq
    · rw [List.mem_singleton.mp he]
      exact (h.past q hq).ne
  · exact h.once

theorem crediting_same {m : Master} (data : Reply) {before : List RetryEntry} {e : RetryEntry}
    {after : List RetryEntry} (hq : m.queuedRetries = before ++ e :: after) :
    ((crediting m data before e after).queuedRetries.map fun e => (e.serial, e.requestsSent)) =
      (m.queuedRetries.map fun e => (e.serial, e.requestsSent)) ∧
    (crediting m data before e after).nextSerial = m.nextSerial ∧
    (crediting m data before e after).requests = m.requests := by
  rw [hq]
  simp only [crediting]
  split <;> exact ⟨by simp [RetryEntry.count], rfl, rfl⟩

theorem ledger_step {m : Master} (h : Ledger m) (e : Event) : Ledger (handle m e) := by
  generalize hm : handle m e = m'
  have hchange := handle_change m e
  rw [hm] at hchange
  cases hchange with
  | same hesc =>
    have hq : m'.queuedRetries = m.queuedRetries := congrArg Escalations.queuedRetries hesc
    exact ledger_same h (by rw [hq]) (congrArg Escalations.nextSerial hesc)
      (congrArg Escalations.requests hesc)
  | requested _ he =>
    rw [he]
    exact ledger_escalated h _
  | notified _ _ he =>
    rw [he]
    exact ⟨h.numbered, h.fresh, h.past, h.waiting, h.once⟩
  | swept hq hn _ _ hr =>
    obtain ⟨hq', -, -, -, hr'⟩ := processQueuedRetries_escalations m
    exact ledger_swept h (hq.trans hq'.symm) (hr.trans hr'.symm) hn
  | credited hq _ he =>
    obtain ⟨hsame, hn, hr⟩ := crediting_same _ hq
    rw [he]
    exact ledger_same h hsame hn hr

theorem reachable_ledger {m : Master} (hr : Reachable machine Unrestricted m) : Ledger m := by
  induction hr with
  | start h₀ =>
    obtain ⟨cfg, now, rfl⟩ := h₀
    constructor <;> simp [Master.boot, serials]
  | step _ _ _ ih => exact ledger_step ih _

theorem unsent_stays (m : Master) (e : Event) {x : RetryEntry} (hx : x ∈ m.queuedRetries)
    (hunsent : x.requestsSent = false) : x.serial ∈ serials (handle m e).queuedRetries := by
  generalize hm : handle m e = m'
  have hchange := handle_change m e
  rw [hm] at hchange
  have hin : x.serial ∈ serials m.queuedRetries := List.mem_map_of_mem hx
  cases hchange with
  | same hesc =>
    have hq : m'.queuedRetries = m.queuedRetries := congrArg Escalations.queuedRetries hesc
    rwa [hq]
  | requested _ he =>
    rw [he, serials, Master.hostCheckRequest, List.map_append]
    exact List.mem_append_left _ hin
  | notified _ _ he =>
    rw [he]
    exact hin
  | swept hq =>
    obtain ⟨hq', -⟩ := processQueuedRetries_escalations m
    rw [hq, ← hq', (sentOnce m).queued]
    have hstays : ¬Expires m x := by
      intro h
      have hs := h.1
      rw [hunsent] at hs
      contradiction
    refine List.mem_map.mpr ⟨_, List.mem_map_of_mem (List.mem_filter.mpr ⟨hx, ?_⟩), ?_⟩
    · exact decide_eq_true hstays
    · simp [hunsent]
  | credited hq _ he =>
    obtain ⟨hsame, -⟩ := crediting_same _ hq
    have hserials := congrArg (List.map Prod.fst) hsame
    rw [List.map_map, List.map_map] at hserials
    rw [he]
    have heq : serials _ = serials m.queuedRetries := hserials
    rwa [heq]

/-- One call sends each entry that waits in one batch to every veriflier, and over a run nothing
is requested twice or dropped before it has been sent. -/
theorem sent_exactly_once (m : Master) :
    (∃ sendRetries batches, SentOnce m sendRetries batches) ∧
    (Reachable machine Unrestricted m → (m.requests.map asked).Nodup ∧
      ∀ e, machine.enabled m e → ∀ x ∈ m.queuedRetries, x.requestsSent = false →
        x.serial ∈ serials (machine.next m e).queuedRetries) := by
  refine ⟨⟨_, _, sentOnce m⟩, ?_⟩
  intro hr
  exact ⟨(reachable_ledger hr).once, fun e _ _ hx hunsent => unsent_stays m e hx hunsent⟩

theorem sent_exactly_once_to_two :
    let m := machine.exec (Master.boot (withVerifliers 2 3) 0)
      [.message 1 (.recheck failedSite), .processQueuedRetries, .processQueuedRetries]
    m.requests.map asked = [(0, 0), (1, 0)] ∧ (m.requests.map asked).Nodup := by
  refine ⟨by decide, ?_⟩
  exact ((sent_exactly_once _).2 (exec_reachable (.start ⟨_, _, rfl⟩) (by decide))).1

end RetrySweep
