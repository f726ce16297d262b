import Jetmon.QueryAnswers

/-! The connections of the queries whose callBack threw. They are not released, and the pool of a
server that has lost five of them has no other. -/
namespace QueryConnections

open TransitionSystem
open DbConfigFile
open DbPools hiding Event machine next

variable {κ ρ : Type*} {L : Library κ} {nodes : κ → List Node} {serves : String → String → Bool}
  {isOne : Text → Bool} {hostname : Text} {s : Database κ ρ} {e : Event ρ} {es : List (Event ρ)}
  {k : ℕ} {c : Connection}

theorem kept_of_request {phase : Phase} {r : ℕ} (h : phase.request = some r) :
    phase.kept = none := by
  cases phase with
  | slave _ => rfl
  | failover _ => rfl
  | running _ => contradiction
  | ended _ => contradiction

structure Counted (es : List (Event ρ)) (s : Database κ ρ) : Prop where
  released : s.released.length = es.countP Event.returned
  lost : s.lost.length = es.countP Event.thrown

theorem lost_put {q : Query} (hq : s.queries[k]? = some q) (hkept : q.phase.kept = none)
    (phase : Phase) : (s.put k phase).lost.Perm (phase.kept.toList ++ s.lost) := by
  obtain ⟨rest, hold, hnew⟩ := put_filterMap Phase.kept hq phase
  rw [hkept] at hold
  exact hnew.trans (hold.symm.append_left _)

theorem lost_refuse {err : String} (he : Enabled s (.refused k err : Event ρ)) :
    (s.refuse k err).lost.Perm s.lost := by
  obtain ⟨⟨sqlQuery, phase⟩, hq, hasking⟩ := he
  cases phase with
  | slave r =>
    rw [refuse_slave hq]
    exact lost_put hq rfl _
  | failover r =>
    rw [refuse_failover hq]
    exact lost_put hq rfl _
  | running c => contradiction
  | ended kept => contradiction

theorem lost_connect (he : Enabled s (.connected k c : Event ρ)) :
    (s.connect k c).lost.Perm s.lost := by
  obtain ⟨q, hq, hasking⟩ := he
  obtain ⟨r, hr⟩ := Option.isSome_iff_exists.mp hasking
  exact lost_put hq (kept_of_request hr) (.running c)

theorem conclude_cases {error : Option String} {rows : ρ} {throws : Bool}
    (he : Enabled s (.answered k error rows throws)) :
    ∃ c, (s.conclude k error rows throws).released = s.released ++ (if throws then [] else [c]) ∧
      (s.conclude k error rows throws).lost.Perm ((if throws then [c] else []) ++ s.lost) ∧
      (s.conclude k error rows throws).live = s.live := by
  obtain ⟨⟨sqlQuery, phase⟩, hq, hrunning⟩ := he
  cases phase with
  | slave r => contradiction
  | failover r => contradiction
  | running c =>
    refine ⟨c, ?_⟩
    cases throws with
    | false =>
      rw [conclude_returned hq]
      exact ⟨rfl, lost_put hq rfl (.ended none), rfl⟩
    | true =>
      rw [conclude_thrown hq]
      exact ⟨(List.append_nil _).symm, lost_put hq rfl (.ended (some c)), rfl⟩
  | ended kept => contradiction

theorem lost_asked (s : Database κ ρ) (sqlQuery data : Text) :
    (next L isOne hostname s (.execQuery sqlQuery data)).lost = s.lost := by
  change List.filterMap _ (s.queries ++ [_]) = _
  rw [List.filterMap_append]
  exact List.append_nil _

theorem Counted.next (h : Counted es s) (he : Enabled s e) :
    Counted (es ++ [e]) (QueryConnections.next L isOne hostname s e) := by
  have hsame : ∀ {t : Database κ ρ}, t.released = s.released → t.lost.Perm s.lost →
      Event.returned e = false → Event.thrown e = false → Counted (es ++ [e]) t := by
    intro t hreleased hlost hreturned hthrown
    constructor
    · rw [hreleased, List.countP_append, List.countP_singleton, hreturned]
      exact h.released
    · rw [hlost.length_eq, List.countP_append, List.countP_singleton, hthrown]
      exact h.lost
  cases e with
  | configure d => exact hsame rfl (.refl _) rfl rfl
  | execQuery sqlQuery data => exact hsame rfl (.of_eq (lost_asked s sqlQuery data)) rfl rfl
  | refused k err =>
    refine hsame ?_ (lost_refuse he) rfl rfl
    change (s.refuse k err).released = s.released
    unfold Database.refuse
    split <;> rfl
  | connected k c => exact hsame rfl (lost_connect he) rfl rfl
  | answered k error rows throws =>
    obtain ⟨c, hreleased, hlost, -⟩ := conclude_cases he
    constructor
    · change (s.conclude k error rows throws).released.length = _
      rw [hreleased, List.length_append, h.released, List.countP_append, List.countP_singleton]
      cases throws <;> rfl
    · change (s.conclude k error rows throws).lost.length = _
      rw [hlost.length_eq, List.length_append, h.lost, List.countP_append, List.countP_singleton,
        Nat.add_comm]
      cases throws <;> rfl
  | closed c => exact hsame rfl (.refl _) rfl rfl

/-- Five open connections of one pool whose callBacks threw. -/
structure Exhausted (pool : ℕ × String) (stuck : List Connection) (s : Database κ ρ) : Prop where
  distinct : stuck.Nodup
  five : stuck.length = 5
  pool : ∀ c ∈ stuck, c.pool = pool
  lost : stuck ⊆ s.lost
  live : stuck ⊆ s.live

variable (L nodes serves) in
/-- The run condition: none of these connections is closed. -/
def KeptOpen (stuck : List Connection) (s : Database κ ρ) (e : Event ρ) : Prop :=
  Lending L nodes serves s e ∧ ∀ c ∈ stuck, e ≠ .closed c

variable {pool : ℕ × String} {stuck : List Connection}

theorem Exhausted.congr {t : Database κ ρ} (h : Exhausted pool stuck s) (hlost : s.lost ⊆ t.lost)
    (hlive : s.live ⊆ t.live) : Exhausted pool stuck t :=
  ⟨h.distinct, h.five, h.pool, fun _ hc => hlost (h.lost hc), fun _ hc => hlive (h.live hc)⟩

theorem Exhausted.next (h : Exhausted pool stuck s) (he : Enabled s e)
    (hopen : ∀ c ∈ stuck, e ≠ .closed c) :
    Exhausted pool stuck (QueryConnections.next L isOne hostname s e) := by
  cases e with
  | configure d => exact h.congr (List.Subset.refl _) (List.Subset.refl _)
  | execQuery sqlQuery data =>
    refine h.congr ?_ (List.Subset.refl _)
    rw [lost_asked]
    exact List.Subset.refl _
  | refused k err =>
    refine h.congr (lost_refuse he).symm.subset ?_
    change s.live ⊆ (s.refuse k err).live
    unfold Database.refuse
    split <;> exact List.Subset.refl _
  | connected k c =>
    refine h.congr (lost_connect he).symm.subset ?_
    change s.live ⊆ (s.connect k c).live
    unfold Database.connect
    dsimp only
    split
    · exact List.Subset.refl _
    · exact List.subset_cons_self c s.live
  | answered k error rows throws =>
    obtain ⟨c, -, hlost, hlive⟩ := conclude_cases he
    refine h.congr (fun _ hc => ?_) (hlive ▸ List.Subset.refl _)
    exact hlost.symm.subset (List.mem_append_right _ hc)
  | closed c =>
    refine ⟨h.distinct, h.five, h.pool, h.lost, fun d hd => ?_⟩
    have hne : d ≠ c := fun heq => hopen d hd (heq ▸ rfl)
    exact (List.mem_erase_of_ne hne).mpr (h.live hd)

def Database.sentTo (pool : ℕ × String) (s : Database κ ρ) : List (ℕ × Connection) :=
  s.sent.filter fun sending => sending.2.pool = pool

theorem length_le_openAt {cs : List Connection} (hdistinct : cs.Nodup)
    (hpool : ∀ c ∈ cs, c.pool = pool) (hlive : cs ⊆ s.live) : cs.length ≤ s.openAt pool := by
  rw [Database.openAt, List.countP_eq_length_filter]
  apply (List.subperm_of_subset hdistinct _).length_le
  intro c hc
  exact List.mem_filter.mpr ⟨hlive hc, decide_eq_true (hpool c hc)⟩

/-- Nothing of the pool is with the package, and it has no room for another connection. -/
theorem Exhausted.unlent (hmysql : Mysql L nodes serves) (hsound : Sound nodes s)
    (h : Exhausted pool stuck s) {request : ℕ × String}
    (hlends : Lends L nodes serves s request c) : c.pool ≠ pool := by
  rintro rfl
  have hout : stuck ⊆ s.out := by
    intro d hd
    apply hsound.lent.book.mem_iff.mpr
    exact (inUse_perm s).mem_iff.mpr (List.mem_append_right _ (h.lost hd))
  obtain hlive | ⟨-, n, hn, -, hfew⟩ := hlends.opened
  · have hnew : c ∉ stuck := fun hc => hlends.free (hout hc)
    have hsix : (c :: stuck).length ≤ s.openAt c.pool := by
      apply length_le_openAt (List.nodup_cons.mpr ⟨hnew, h.distinct⟩)
      · exact List.forall_mem_cons.mpr ⟨rfl, h.pool⟩
      · exact List.cons_subset.mpr ⟨hlive, h.live⟩
    rw [List.length_cons, h.five] at hsix
    exact absurd (hsix.trans (hsound.lent.limited _)) (by decide)
  · have hopen := length_le_openAt h.distinct h.pool h.live
    rw [h.five] at hopen
    rw [(cluster_misc hmysql hsound.nodes c.cluster n hn).limit] at hfew
    omega

theorem Exhausted.sentTo_next (hmysql : Mysql L nodes serves) (hsound : Sound nodes s)
    (h : Exhausted pool stuck s) (hlend : Lending L nodes serves s e) :
    (QueryConnections.next L isOne hostname s e).sentTo pool = s.sentTo pool := by
  cases e with
  | configure d => rfl
  | execQuery sqlQuery data => rfl
  | refused k err =>
    change (s.refuse k err).sentTo pool = _
    rw [Database.sentTo, (refuse_pools s k err).2]
    rfl
  | connected k c =>
    obtain ⟨q, -, r, -, request, -, hlends⟩ := hlend
    have hother := h.unlent hmysql hsound hlends
    change (s.sent ++ [(k, c)]).filter _ = _
    rw [List.filter_append]
    simp [Database.sentTo, hother]
  | answered k error rows throws =>
    change (s.conclude k error rows throws).sentTo pool = _
    rw [Database.sentTo, (conclude_pools s k error rows throws).2]
    rfl
  | closed c => rfl

/-- The package counts as lent what running queries have and what was lost where a callBack
threw, each once; everything else was given back, once for each callBack that returned. All of it
belongs to servers for reading. After five callBacks threw on a pool no query runs on it until one
of their connections is closed. -/
theorem connections_returned (hmysql : Mysql L nodes serves)
    (hv : (machine L isOne hostname).Valid (Lending L nodes serves) (initial L) es) :
    let s := (machine L isOne hostname).exec (initial L) es
    s.out.Perm (s.busy ++ s.lost) ∧ (s.busy ++ s.lost).Nodup ∧
      (s.sent.map Prod.snd).Perm (s.released ++ (s.busy ++ s.lost)) ∧
      s.released.length = es.countP Event.returned ∧ s.lost.length = es.countP Event.thrown ∧
      (∀ sending ∈ s.sent, IsReader sending.2.node) ∧
      ∀ pool stuck, Exhausted pool stuck s → ∀ later,
        (machine L isOne hostname).Valid (KeptOpen L nodes serves stuck) s later →
          ((machine L isOne hostname).exec s later).sentTo pool = s.sentTo pool := by
  intro s
  have hsound : Sound nodes s := exec_sound hmysql (initial_sound hmysql) (fun _ _ hc => hc) hv
  have hrecorded : Recorded es s := exec_recorded hmysql hv
  have hcounted : Counted es s :=
    exec_history ⟨rfl, rfl⟩ (fun es e h he _ => h.next he) hv
  have hperm := inUse_perm s
  refine ⟨hsound.lent.book.trans hperm, hperm.nodup hsound.lent.single,
    hsound.lent.balance.trans (hperm.append_left _), hcounted.released, hcounted.lost, ?_, ?_⟩
  · rintro ⟨k, c⟩ hsent
    have hlent : c ∈ lent k es := hrecorded.sent k ▸ mem_sentOf.mpr hsent
    have hmisc := hsound.misc c (List.mem_map_of_mem hsent)
    cases hq : s.queries[k]? with
    | none =>
      rw [lent, hrecorded.unasked k hq] at hlent
      exact absurd hlent List.not_mem_nil
    | some q => exact wants_reader ((hrecorded.stage k q hq).ran.2 c hlent).2 hmisc
  · intro pool stuck hstuck later hlater
    have hrun := exec_invariant (I := fun t => Sound nodes t ∧ Exhausted pool stuck t ∧
      t.sentTo pool = s.sentTo pool) ?_ ⟨hsound, hstuck, rfl⟩ hlater
    · exact hrun.2.2
    · rintro t e ⟨ht, hexhausted, hsame⟩ he ⟨hlend, hopen⟩
      exact ⟨ht.next hmysql hlend, hexhausted.next he hopen,
        (hexhausted.sentTo_next hmysql ht hlend).trans hsame⟩

def readers : List Connection := (List.range 5).map fun number => ⟨0, "MISC_SLAVE1", number⟩

def throwingRun : List (Event ℕ) :=
  .configure (.load twoServers) ::
    (List.replicate 6 (.execQuery "jetpack_a".toList []) ++
      ((List.range 5).map fun k => .connected k ⟨0, "MISC_SLAVE1", k⟩) ++
      (List.range 5).map fun k => .answered k none k true)

/-- The sixth query gets no connection of that server before one of the five is closed. -/
theorem connections_returned_sample :
    Mysql nodeList id servesName ∧
      ¬(machine nodeList isOneText localHost).Valid (Lending nodeList id servesName)
        (initial nodeList) (throwingRun ++ [.connected 5 ⟨0, "MISC_SLAVE1", 5⟩]) ∧
      (machine nodeList isOneText localHost).Valid (Lending nodeList id servesName)
        (initial nodeList)
        (throwingRun ++ [.closed ⟨0, "MISC_SLAVE1", 2⟩, .connected 5 ⟨0, "MISC_SLAVE1", 5⟩]) := by
  have hv : (machine nodeList isOneText localHost).Valid (Lending nodeList id servesName)
      (initial nodeList) throwingRun := by decide +kernel
  refine ⟨nodeList_mysql, fun hnext => ?_, by decide +kernel⟩
  have hlater := (valid_append.mp hnext).2
  have hexhausted : Exhausted (0, "MISC_SLAVE1") readers
      ((machine nodeList isOneText localHost).exec (initial nodeList) throwingRun) := by
    constructor <;> decide +kernel
  have hsame := (connections_returned nodeList_mysql hv).2.2.2.2.2.2 _ _ hexhausted
    [.connected 5 ⟨0, "MISC_SLAVE1", 5⟩] ⟨⟨hlater.1.1, hlater.1.2, by simp⟩, trivial⟩
  revert hsame
  decide +kernel

end QueryConnections
