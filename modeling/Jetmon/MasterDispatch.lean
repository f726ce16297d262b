import Jetmon.MasterState

/-! What the handlers of the master do to the work queue, the free and halted workers
and the channels. A call of sendWork is a sequence of moves, and so is every handler that
ends in freeWorkersToWork; what no move changes, no such handler changes. -/
namespace MasterDispatch

open SiteModel
open MasterState

/-- getWorker finds it. -/
def Known (m : Master) (pid : Pid) : Prop := pid ≠ 0 ∧ pid ∈ m.arrWorkers

instance (m : Master) (pid : Pid) : Decidable (Known m pid) := by
  unfold Known
  infer_instance

theorem getWorker_eq (m : Master) (pid : Pid) :
    m.getWorker pid = if Known m pid then some pid else none := by
  unfold Master.getWorker
  by_cases hk : Known m pid
  · rw [if_pos hk, if_neg hk.1]
    cases hf : m.arrWorkers.find? fun worker => worker == pid with
    | none => exact absurd (List.find?_eq_none.mp hf pid hk.2) (by simp)
    | some worker => simpa using List.find?_some hf
  · rw [if_neg hk]
    by_cases h₀ : pid = 0
    · rw [if_pos h₀]
    · rw [if_neg h₀, List.find?_eq_none]
      intro worker hw heq
      exact hk ⟨h₀, beq_iff_eq.mp heq ▸ hw⟩

theorem getWorker_isSome (m : Master) (pid : Pid) :
    (m.getWorker pid).isSome = true ↔ Known m pid := by
  rw [getWorker_eq]
  split <;> simp [*]

section Rules

variable {I : Master → Prop} {m : Master}

theorem reload_invariant {cfg : Config} (init : I { m with config := cfg })
    (send : ∀ m', I m' → ∀ pid ∈ m.arrWorkers, I (m'.send pid .configUpdate)) :
    I (m.reload cfg) :=
  List.foldlRecOn m.arrWorkers _ init send

theorem workerExit_invariant {pid fresh : Pid} {code : ExitCode}
    (forget : I ((m.resetChannel pid).deleteWorker pid))
    (respawn : respawns code = true → ∀ m', I m' → I (m'.spawnWorker fresh)) :
    I (m.workerExit pid code fresh) := by
  unfold Master.workerExit
  split
  · exact respawn ‹_› _ forget
  · exact forget

theorem ensureWorkerCount_invariant {fresh : List Pid} (init : I m)
    (spawn : ∀ m', I m' → ∀ pid ∈ fresh, I (m'.spawnWorker pid)) : I (m.ensureWorkerCount fresh) :=
  List.foldlRecOn fresh _ init spawn

/-- The loop of freeWorkersToWork asks getWorker before each turn. -/
theorem freeLoop_invariant (pids : List Pid) (init : I m)
    (turn : ∀ m', I m' → ∀ pid ∈ pids, Known m' pid → I (m'.sendWork pid)) :
    I (pids.foldl (fun m pid => if (m.getWorker pid).isSome then m.sendWork pid else m) m) := by
  refine List.foldlRecOn pids _ init fun m' h pid hp => ?_
  split
  · exact turn m' h pid hp ((getWorker_isSome m' pid).mp ‹_›)
  · exact h

end Rules

def give (pid : Pid) (n : ℕ) (m : Master) : Master :=
  Master.send pid (.queueAdd (m.arrObjects.take n)) { m with arrObjects := m.arrObjects.drop n }

theorem datasetLimit_pos (m : Master) (size : Option ℤ) : 0 < m.datasetLimit size := by
  have hpos := m.config.datasetSize_pos
  unfold Master.datasetLimit
  split
  · exact hpos
  · split <;> omega

def batchLength (size : Option ℤ) (m : Master) : ℕ :=
  min m.arrObjects.length (m.datasetLimit size)

theorem batchLength_pos {m : Master} (h : m.arrObjects ≠ []) (size : Option ℤ) :
    0 < batchLength size m := by
  have hlen := List.length_pos_iff.mpr h
  have hlimit := datasetLimit_pos m size
  unfold batchLength
  omega

theorem assignWorkToWorker_eq (pid : Pid) (size : Option ℤ) (m : Master) :
    m.assignWorkToWorker pid size =
      if Known m pid ∧ pid ∉ m.haltedWorkers ∧ m.arrObjects ≠ [] then
        give pid (batchLength size m) m
      else m := by
  unfold Master.assignWorkToWorker
  rw [getWorker_eq]
  by_cases hk : Known m pid
  · rw [if_pos hk]
    by_cases hh : pid ∈ m.haltedWorkers
    · simp [hh]
    by_cases ha : m.arrObjects = []
    · simp [hh, ha, Master.getWorkDataset]
    have hlen := List.length_pos_iff.mpr ha
    have hpos := batchLength_pos ha size
    have hdata : (m.arrObjects.take (batchLength size m)).length ≠ 0 := by
      rw [List.length_take]
      omega
    have hset : m.getWorkDataset size = (m.arrObjects.take (batchLength size m),
        { m with arrObjects := m.arrObjects.drop (batchLength size m) }) := by
      simp only [Master.getWorkDataset, batchLength]
      rw [if_neg (by omega)]
    simp only [hh, hset, hk, ha, ↓reduceIte, not_false_eq_true, ne_eq, and_self]
    rw [if_neg hdata, give]
  · rw [if_neg hk, if_neg (fun h => hk h.1)]

theorem stats_cases (pid : Pid) (stats : WorkerStats) (checkStats : CheckStats) (m : Master) :
    (queueLeftToProcess stats < m.config.numToProcess ∧
      handle m (.message pid (.stats stats checkStats)) =
        (m.keepStats pid stats checkStats).assignWorkToWorker pid
          (some (m.config.datasetSize - queueLeftToProcess stats))) ∨
    handle m (.message pid (.stats stats checkStats)) = m.keepStats pid stats checkStats := by
  simp only [handle, Master.workerMsgCallback, Master.topUp]
  split
  · exact Or.inl ⟨‹_›, rfl⟩
  · exact Or.inr rfl

theorem recheck_eq (pid : Pid) (server : Site) (m : Master) : ∃ retries queued serial,
    handle m (.message pid (.recheck server)) =
      { m with localRetries := retries, queuedRetries := queued, nextSerial := serial } := by
  simp only [handle, Master.workerMsgCallback, Master.addServerToLocalRetries]
  split
  · split <;> exact ⟨_, _, _, rfl⟩
  · exact ⟨_, _, _, rfl⟩

/-- One thing a call of sendWork does. -/
inductive Move : Master → Master → Prop where
  | evaporate {m pid} : Known m pid → m.config.numWorkers < m.arrWorkers.length →
      Move m (m.send pid .evaporate)
  | give {m pid n} : Known m pid → pid ∉ m.haltedWorkers → 0 < n → n ≤ m.arrObjects.length →
      m.arrWorkers.length ≤ m.config.numWorkers → Move m (give pid n m)
  | park {m pid} : m.arrObjects = [] → pid ∉ m.haltedWorkers → pid ∉ m.freeWorkers →
      Move m { m with freeWorkers := m.freeWorkers ++ [pid] }
  | fetch {m} : m.arrObjects = [] → m.gettingSites = false → Move m m.getMoreSites
  | endRound {m} : Move m m.maybeEndRound

abbrev Moves := Relation.ReflTransGen Move

theorem assignWorkToWorker_moves (pid : Pid) (size : Option ℤ) {m : Master}
    (hle : m.arrWorkers.length ≤ m.config.numWorkers) :
    Moves m (m.assignWorkToWorker pid size) := by
  rw [assignWorkToWorker_eq]
  split
  · rename_i h
    exact .single (.give h.1 h.2.1 (batchLength_pos h.2.2 size) (Nat.min_le_left _ _) hle)
  · exact .refl

theorem maybeEndRound_eq (m : Master) : ∃ inRound roundSitesCount, m.maybeEndRound =
    { m with inRound := inRound, roundSitesCount := roundSitesCount } := by
  by_cases h : m.inRound = true ∧ m.arrObjects.length = 0 ∧
      m.arrWorkers.length = m.freeWorkers.length
  · exact ⟨false, 0, if_pos h⟩
  · exact ⟨m.inRound, m.roundSitesCount, if_neg h⟩

theorem halt_cases (pid : Pid) (m : Master) :
    (Known m pid ∧ pid ∉ m.haltedWorkers ∧ m.halt pid =
      { m with
        haltedWorkers := m.haltedWorkers ++ [pid]
        freeWorkers := m.freeWorkers.filter (· ≠ pid) }) ∨
    ((Known m pid → pid ∈ m.haltedWorkers) ∧ m.halt pid = m) := by
  by_cases h : pid ∉ m.haltedWorkers ∧ (m.getWorker pid).isSome
  · exact Or.inl ⟨(getWorker_isSome m pid).mp h.2, h.1, if_pos h⟩
  · refine Or.inr ⟨fun hk => ?_, if_neg h⟩
    by_contra hh
    exact h ⟨hh, (getWorker_isSome m pid).mpr hk⟩

def park (pid : Pid) (m : Master) : Master :=
  if pid ∉ m.haltedWorkers ∧ pid ∉ m.freeWorkers then
    { m with freeWorkers := m.freeWorkers ++ [pid] } else m

def fetch (m : Master) : Master := if m.gettingSites then m else m.getMoreSites

theorem sendWork_cases (pid : Pid) (m : Master) :
    (m.config.numWorkers < m.arrWorkers.length ∧
      m.sendWork pid = if Known m pid then m.send pid .evaporate else m) ∨
    (m.arrWorkers.length ≤ m.config.numWorkers ∧ m.arrObjects = [] ∧
      m.sendWork pid = (fetch (park pid m)).maybeEndRound) ∨
    (m.arrWorkers.length ≤ m.config.numWorkers ∧ m.arrObjects ≠ [] ∧
      m.sendWork pid = m.assignWorkToWorker pid none) := by
  by_cases hover : m.config.numWorkers < m.arrWorkers.length
  · refine Or.inl ⟨hover, ?_⟩
    simp only [Master.sendWork, if_pos hover]
    rw [getWorker_eq]
    by_cases hk : Known m pid
    · simp only [hk, ↓reduceIte]
    · simp only [hk, ↓reduceIte]
  right
  by_cases ha : m.arrObjects = []
  · refine Or.inl ⟨Int.not_lt.mp hover, ha, ?_⟩
    simp only [Master.sendWork, if_neg hover]
    rw [if_pos (by simp [ha])]
    rfl
  · refine Or.inr ⟨Int.not_lt.mp hover, ha, ?_⟩
    simp only [Master.sendWork, if_neg hover]
    rw [if_neg (by simpa using ha)]

theorem sendWork_moves (pid : Pid) (m : Master) : Moves m (m.sendWork pid) := by
  rcases sendWork_cases pid m with ⟨hover, he⟩ | ⟨_, ha, he⟩ | ⟨hle, _, he⟩ <;> rw [he]
  · split
    · exact .single (.evaporate ‹_› hover)
    · exact .refl
  · have hpark : Moves m (park pid m) := by
      unfold park
      split
      · rename_i h
        exact .single (.park ha h.1 h.2)
      · exact .refl
    have ha' : (park pid m).arrObjects = [] := by
      unfold park
      split <;> exact ha
    refine Relation.ReflTransGen.tail (hpark.trans ?_) .endRound
    unfold fetch
    by_cases hg : (park pid m).gettingSites = true
    · rw [if_pos hg]
    · rw [if_neg hg]
      exact .single (.fetch ha' (by simpa using hg))
  · exact assignWorkToWorker_moves pid none hle

theorem freeLoop_moves (pids : List Pid) (m : Master) :
    Moves m (pids.foldl (fun m pid => if (m.getWorker pid).isSome then m.sendWork pid else m) m) :=
  freeLoop_invariant (I := Moves m) pids .refl fun m' h pid _ _ => h.trans (sendWork_moves pid m')

theorem freeWorkersToWork_cases (m : Master) :
    (m.arrObjects = [] ∧ m.freeWorkersToWork = m) ∨
    (m.arrObjects ≠ [] ∧ m.freeWorkersToWork = m.freeWorkers.foldl
      (fun m pid => if (m.getWorker pid).isSome then m.sendWork pid else m)
      { m with freeWorkers := [] } ∧ Moves { m with freeWorkers := [] } m.freeWorkersToWork) := by
  by_cases ha : m.arrObjects = []
  · exact Or.inl ⟨ha, by simp [Master.freeWorkersToWork, ha]⟩
  · have he : m.freeWorkersToWork = m.freeWorkers.foldl
        (fun m pid => if (m.getWorker pid).isSome then m.sendWork pid else m)
        { m with freeWorkers := [] } := by
      rw [Master.freeWorkersToWork, if_neg (by simpa using ha)]
    exact Or.inr ⟨ha, he, he ▸ freeLoop_moves _ _⟩

inductive RetryMove (server : Site) : Master → Master → Prop where
  | keep {m} : m.retryDue server = false →
      RetryMove server m { m with localRetries := server :: m.localRetries }
  | hand {m i pid} : m.retryDue server = true → m.freeWorkers[i]? = some pid → Known m pid →
      RetryMove server m
        (Master.send pid (.queueAdd [server]) { m with freeWorkers := m.freeWorkers.eraseIdx i })
  | requeue {m} : m.retryDue server = true → (∀ pid ∈ m.freeWorkers, ¬Known m pid) →
      RetryMove server m { m with arrObjects := m.arrObjects ++ [server] }

theorem filter_of_first {α : Type*} {f : α → Bool} {xs : List α} {i : ℕ} (hi : i < xs.length)
    (h : f xs[i] = true) (hbefore : ∀ j (hj : j < i), ¬f xs[j] = true) :
    xs.filter f = xs[i] :: (xs.eraseIdx i).filter f := by
  have hnone : (xs.take i).filter f = [] := by
    rw [List.filter_eq_nil_iff]
    intro x hx
    obtain ⟨j, hj, rfl⟩ := List.mem_take_iff_getElem.mp hx
    exact hbefore j (Nat.lt_of_lt_of_le hj (Nat.min_le_left _ _))
  calc xs.filter f
      = (xs.take i ++ xs[i] :: xs.drop (i + 1)).filter f := by
        rw [List.getElem_cons_drop, List.take_append_drop]
    _ = xs[i] :: (xs.drop (i + 1)).filter f := by
        rw [List.filter_append, hnone, List.nil_append, List.filter_cons_of_pos h]
    _ = xs[i] :: (xs.eraseIdx i).filter f := by
        rw [List.eraseIdx_eq_take_drop_succ, List.filter_append, hnone, List.nil_append]

/-- addedWork is set exactly by a turn that found no free worker it knows. -/
theorem retryStep_cases (server : Site) (m : Master) (added : Bool) :
    (m.retryDue server = false ∧ Master.retryStep server (m, added) =
      ({ m with localRetries := server :: m.localRetries }, added)) ∨
    (m.retryDue server = true ∧ ∃ i pid, m.freeWorkers[i]? = some pid ∧ Known m pid ∧
      m.freeWorkers.filter (fun q => Known m q) =
        pid :: (m.freeWorkers.eraseIdx i).filter (fun q => Known m q) ∧
      Master.retryStep server (m, added) =
        (Master.send pid (.queueAdd [server]) { m with freeWorkers := m.freeWorkers.eraseIdx i },
          added)) ∨
    (m.retryDue server = true ∧ (∀ pid ∈ m.freeWorkers, ¬Known m pid) ∧
      Master.retryStep server (m, added) =
        ({ m with arrObjects := m.arrObjects ++ [server] }, true)) := by
  cases hd : m.retryDue server with
  | false => exact Or.inl ⟨rfl, by simp [Master.retryStep, hd]⟩
  | true =>
    right
    cases hf : m.freeWorkers.findIdx? fun pid => (m.getWorker pid).isSome with
    | none =>
      refine Or.inr ⟨rfl, ?_, by simp [Master.retryStep, Master.dispatchRetry, hd, hf]⟩
      intro pid hpid hk
      have hnone := List.findIdx?_eq_none_iff.mp hf pid hpid
      rw [(getWorker_isSome m pid).mpr hk] at hnone
      contradiction
    | some i =>
      obtain ⟨hlt, hsome, hbefore⟩ := List.findIdx?_eq_some_iff_getElem.mp hf
      have hget := List.getElem?_eq_getElem hlt
      have hk : Known m m.freeWorkers[i] := (getWorker_isSome m _).mp hsome
      refine Or.inl ⟨rfl, i, m.freeWorkers[i], hget, hk, ?_, ?_⟩
      · apply filter_of_first hlt (decide_eq_true hk)
        intro j hj
        rw [decide_eq_true_eq, ← getWorker_isSome]
        exact hbefore j hj
      · simp [Master.retryStep, Master.dispatchRetry, hd, hf, hget]

theorem retryStep_move (server : Site) (acc : Master × Bool) :
    RetryMove server acc.1 (Master.retryStep server acc).1 := by
  rcases retryStep_cases server acc.1 acc.2 with ⟨hd, he⟩ | ⟨hd, i, pid, hi, hk, -, he⟩ |
    ⟨hd, hnone, he⟩ <;> rw [he]
  · exact .keep hd
  · exact .hand hd hi hk
  · exact .requeue hd hnone

/-- State and addedWork after the turns for `servers`, the last of them first. -/
def retryLoop (m : Master) (servers : List Site) : Master × Bool :=
  servers.foldr Master.retryStep ({ m with localRetries := [] }, false)

theorem retryLoop_invariant {I : Master → Prop} {m : Master}
    (init : I { m with localRetries := [] })
    {servers : List Site}
    (step : ∀ server ∈ servers, ∀ m₁ m₂, I m₁ → RetryMove server m₁ m₂ → I m₂) :
    I (retryLoop m servers).1 := by
  induction servers with
  | nil => exact init
  | cons server rest ih =>
    have hrest := ih fun s hs => step s (List.mem_cons_of_mem _ hs)
    exact step server (List.mem_cons_self ..) _ _ hrest (retryStep_move _ _)

theorem retryLoop_stranded (m : Master) (servers : List Site)
    (ha : (retryLoop m servers).2 = true) :
    ∀ pid ∈ (retryLoop m servers).1.freeWorkers, ¬Known (retryLoop m servers).1 pid := by
  induction servers with
  | nil => exact absurd ha (by simp [retryLoop])
  | cons server rest ih =>
    have hturn : retryLoop m (server :: rest) = Master.retryStep server (retryLoop m rest) := rfl
    rw [hturn] at ha ⊢
    rcases retryStep_cases server (retryLoop m rest).1 (retryLoop m rest).2 with ⟨_, he⟩ |
      ⟨_, i, pid, hi, hk, -, he⟩ | ⟨_, hnone, he⟩ <;> rw [he] at ha ⊢
    · exact ih ha
    · exact absurd hk (ih ha pid (List.mem_of_getElem? hi))
    · exact hnone

/-- The free workers left over by the loop are forgotten, never asked. -/
theorem freeWorkersToWork_of_unknown {m : Master} (h : ∀ pid ∈ m.freeWorkers, ¬Known m pid) :
    m.freeWorkersToWork = if m.arrObjects = [] then m else { m with freeWorkers := [] } := by
  have hloop : ∀ pids : List Pid, (∀ pid ∈ pids, ¬Known m pid) →
      pids.foldl (fun m pid => if (m.getWorker pid).isSome then m.sendWork pid else m)
        { m with freeWorkers := [] } = { m with freeWorkers := [] } := by
    intro pids hp
    refine freeLoop_invariant (I := fun m' => m' = { m with freeWorkers := [] }) pids rfl ?_
    rintro _ rfl pid hmem hk
    exact absurd hk (hp pid hmem)
  rcases freeWorkersToWork_cases m with ⟨ha, he⟩ | ⟨ha, he, _⟩
  · rw [he, if_pos ha]
  · rw [he, if_neg ha, hloop _ h]

theorem retryLocally_cases (m : Master) :
    ((retryLoop m m.localRetries).2 = false ∧ m.retryLocally = (retryLoop m m.localRetries).1) ∨
    ((retryLoop m m.localRetries).2 = true ∧ m.retryLocally =
      if (retryLoop m m.localRetries).1.arrObjects = [] then (retryLoop m m.localRetries).1
      else { (retryLoop m m.localRetries).1 with freeWorkers := [] }) := by
  have he : m.retryLocally = if (retryLoop m m.localRetries).2 then
      (retryLoop m m.localRetries).1.freeWorkersToWork else (retryLoop m m.localRetries).1 := rfl
  cases ha : (retryLoop m m.localRetries).2 with
  | false => exact Or.inl ⟨rfl, by rw [he, ha]; rfl⟩
  | true =>
    refine Or.inr ⟨rfl, ?_⟩
    rw [he, ha, if_pos rfl, freeWorkersToWork_of_unknown (retryLoop_stranded m _ ha)]

end MasterDispatch
