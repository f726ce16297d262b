import Jetmon.ConnectionBooks

/-! The answers to the queries: each callBack is called once, with what the package gave, and each
query runs at most once and on a server for reading. -/
namespace QueryConnections

open TransitionSystem
open DbConfigFile
open DbPools hiding Event machine next

variable {κ ρ : Type*} {L : Library κ} {nodes : κ → List Node} {serves : String → String → Bool}
  {isOne : Text → Bool} {hostname : Text} {s : Database κ ρ} {e : Event ρ} {es : List (Event ρ)}
  {k : ℕ} {c : Connection}

def Phase.waits (phase : Phase) : Bool := phase.request.isSome || phase.isRunning

theorem Stage.outcomes_length {requests : List (ℕ × String)} {sqlQuery : Text} {phase : Phase}
    (h : Stage requests sqlQuery phase (refusals k es) (lent k es) (replies k es)) :
    (outcomes k es).length = if phase.waits then 0 else 1 := by
  rw [outcomes, List.length_append, List.length_map, List.length_map, List.length_drop]
  generalize refusals k es = errs at h
  generalize lent k es = cs at h
  generalize replies k es = rs at h
  cases h with
  | slave hget => rfl
  | failover err hget => rfl
  | running herrs hwants => exact Nat.sub_eq_zero_of_le herrs
  | unconnected err err' => rfl
  | concluded reply herrs hwants => rw [Nat.sub_eq_zero_of_le herrs]; rfl

theorem Stage.ran {requests : List (ℕ × String)} {sqlQuery : Text} {phase : Phase}
    {errs : List String} {cs : List Connection} {rs : List (Option String × ρ)}
    (h : Stage requests sqlQuery phase errs cs rs) :
    cs.length ≤ 1 ∧ ∀ c ∈ cs, errs.length ≤ 1 ∧ Wants sqlQuery errs.length c.node := by
  have hone : ∀ {c : Connection}, errs.length ≤ 1 → Wants sqlQuery errs.length c.node →
      [c].length ≤ 1 ∧ ∀ d ∈ [c], errs.length ≤ 1 ∧ Wants sqlQuery errs.length d.node := by
    intro c herrs hwants
    refine ⟨le_rfl, fun d hd => ?_⟩
    rw [List.mem_singleton.mp hd]
    exact ⟨herrs, hwants⟩
  cases h with
  | slave hget => exact ⟨Nat.zero_le 1, fun c hc => absurd hc List.not_mem_nil⟩
  | failover err hget => exact ⟨Nat.zero_le 1, fun c hc => absurd hc List.not_mem_nil⟩
  | running herrs hwants => exact hone herrs hwants
  | unconnected err err' => exact ⟨Nat.zero_le 1, fun c hc => absurd hc List.not_mem_nil⟩
  | concluded reply herrs hwants => exact hone herrs hwants

theorem Stage.unreached {requests : List (ℕ × String)} {sqlQuery : Text} {phase : Phase}
    (h : Stage requests sqlQuery phase (refusals k es) (lent k es) (replies k es)) {error : String}
    (herror : Answer.unconnected error ∈ outcomes k es) :
    (refusals k es).length = 2 ∧ lent k es = [] := by
  have hdropped : 1 < (refusals k es).length := by
    obtain herror | herror := List.mem_append.mp herror
    · by_contra hle
      rw [List.drop_eq_nil_of_le (Nat.not_lt.mp hle)] at herror
      exact absurd herror List.not_mem_nil
    · obtain ⟨reply, -, hreply⟩ := List.mem_map.mp herror
      contradiction
  generalize refusals k es = errs at h hdropped
  generalize lent k es = cs at h
  generalize replies k es = rs at h
  cases h with
  | slave hget => exact absurd hdropped (by decide)
  | failover err hget => exact absurd hdropped (Nat.lt_irrefl 1)
  | running herrs hwants => exact absurd herrs (Nat.not_le.mpr hdropped)
  | unconnected err err' => exact ⟨rfl, rfl⟩
  | concluded reply herrs hwants => exact absurd herrs (Nat.not_le.mpr hdropped)

theorem server_cases (errors : ℕ) : server errors = "SLAVE" ∨ server errors = "FAILOVER" := by
  cases errors with
  | zero => exact .inl rfl
  | succ n => exact .inr rfl

theorem poolPrefix_cases (sqlQuery : Text) : poolPrefix sqlQuery = "MISC_" ∧
      TextSearch.find "jetpack_".toList sqlQuery ≠ ⊤ ∨
    poolPrefix sqlQuery = "GLOBAL_" ∨ poolPrefix sqlQuery = "USER_" := by
  unfold poolPrefix
  split
  · rename_i h
    exact .inl ⟨rfl, h⟩
  · split
    · exact .inr (.inl rfl)
    · exact .inr (.inr rfl)

/-- On a node of the data set misc only a query of a table of Jetpack runs. -/
theorem wants_misc {sqlQuery : Text} {errors : ℕ} {node : String}
    (h : Wants sqlQuery errors node) (hmisc : "MISC_".toList <+: node.toList) :
    poolPrefix sqlQuery = "MISC_" ∧ TextSearch.find "jetpack_".toList sqlQuery ≠ ⊤ := by
  obtain hpool | hpool := poolPrefix_cases sqlQuery
  · exact hpool
  -- the first characters of the name would be those of two prefixes
  · exfalso
    have hstart : (poolPrefix sqlQuery).toList <+: node.toList := by
      refine List.IsPrefix.trans ?_ h
      rw [String.toList_append]
      exact List.prefix_append _ _
    have hboth := List.prefix_or_prefix_of_prefix hstart hmisc
    have hdiffer : ∀ pool ∈ ["GLOBAL_", "USER_"],
        ¬(pool.toList <+: "MISC_".toList ∨ "MISC_".toList <+: pool.toList) := by decide
    obtain hpool | hpool := hpool
    · exact hdiffer "GLOBAL_" (by simp) (hpool ▸ hboth)
    · exact hdiffer "USER_" (by simp) (hpool ▸ hboth)

/-- The servers for reading; MISC_MASTER is none. -/
def IsReader (node : String) : Prop :=
  "MISC_SLAVE".toList <+: node.toList ∨ "MISC_FAILOVER".toList <+: node.toList

theorem wants_reader {sqlQuery : Text} {errors : ℕ} {node : String}
    (h : Wants sqlQuery errors node) (hmisc : "MISC_".toList <+: node.toList) :
    IsReader node := by
  unfold Wants at h
  rw [(wants_misc h hmisc).1] at h
  obtain hserver | hserver := server_cases errors
  · rw [hserver] at h
    exact .inl h
  · rw [hserver] at h
    exact .inr h

theorem not_reader_master : ¬IsReader "MISC_MASTER" := by
  have hprefix : ∀ start ∈ ["MISC_SLAVE", "MISC_FAILOVER"],
      ¬start.toList <+: "MISC_MASTER".toList := by decide
  rintro (h | h)
  · exact hprefix "MISC_SLAVE" (by simp) h
  · exact hprefix "MISC_FAILOVER" (by simp) h

theorem mem_sentOf : c ∈ s.sentOf k ↔ (k, c) ∈ s.sent := by
  simp [Database.sentOf, ofQuery]

/-- In every order of answers the callBack of a query is called with the reply to it, or with the
second error where it got no connection: once when its last callback has come, and not before. It
runs at most once, on a server for reading, on a failover server exactly after an error. Without a
table of Jetpack it never runs. -/
theorem queries_answered (hmysql : Mysql L nodes serves)
    (hv : (machine L isOne hostname).Valid (Lending L nodes serves) (initial L) es) (k : ℕ) :
    let s := (machine L isOne hostname).exec (initial L) es
    s.callsOf k = outcomes k es ∧
      (outcomes k es).length = (s.queries[k]?.elim 0 fun q => if q.phase.waits then 0 else 1) ∧
      s.sentOf k = lent k es ∧ (lent k es).length ≤ 1 ∧
      (∀ c ∈ lent k es, ∃ sqlQuery ∈ (es.filterMap Event.text)[k]?,
        (refusals k es).length ≤ 1 ∧ Wants sqlQuery (refusals k es).length c.node ∧
          c.node ≠ "MISC_MASTER" ∧ TextSearch.find "jetpack_".toList sqlQuery ≠ ⊤) ∧
      ∀ error, Answer.unconnected error ∈ s.callsOf k →
        (refusals k es).length = 2 ∧ lent k es = [] := by
  intro s
  have h : Recorded es s := exec_recorded hmysql hv
  have hsound : Sound nodes s := exec_sound hmysql (initial_sound hmysql) (fun _ _ hc => hc) hv
  cases hq : s.queries[k]? with
  | none =>
    have hnone := h.unasked k hq
    have houtcomes : outcomes k es = [] := by
      rw [outcomes, refusals, replies, hnone]
      rfl
    have hlent : lent k es = [] := by
      rw [lent, hnone]
      rfl
    rw [h.calls, h.sent, houtcomes, hlent]
    exact ⟨rfl, rfl, rfl, Nat.zero_le 1, fun c hc => absurd hc List.not_mem_nil,
      fun error herror => absurd herror List.not_mem_nil⟩
  | some q =>
    have hstage := h.stage k q hq
    refine ⟨h.calls k, hstage.outcomes_length, h.sent k, hstage.ran.1, ?_, ?_⟩
    · intro c hc
      obtain ⟨herrs, hwants⟩ := hstage.ran.2 c hc
      have htext : (es.filterMap Event.text)[k]? = some q.sqlQuery := by
        rw [← h.texts, List.getElem?_map, hq]
        rfl
      have hmisc : "MISC_".toList <+: c.node.toList := by
        rw [← h.sent, mem_sentOf] at hc
        exact hsound.misc c (List.mem_map_of_mem hc)
      refine ⟨q.sqlQuery, htext, herrs, hwants, ?_, (wants_misc hwants hmisc).2⟩
      intro hmaster
      exact not_reader_master (hmaster ▸ wants_reader hwants hmisc)
    · intro error herror
      rw [h.calls] at herror
      exact hstage.unreached herror

/-- A pattern names a node, or the nodes that begin with it but for its last character. -/
def servesName (pattern node : String) : Bool :=
  node == pattern || pattern.toList.dropLast.isPrefixOf node.toList

theorem nodeList_mysql : Mysql nodeList id servesName where
  created := rfl
  added := by
    intro cluster n m hm
    unfold nodeList at hm
    dsimp only [id] at hm
    split at hm
    · exact List.mem_cons_of_mem n hm
    · exact List.mem_cons.mpr ((List.mem_append.mp hm).symm.imp_left List.mem_singleton.mp)
  wildcard := by
    intro start node h
    have hpattern : (start ++ "*").toList = start.toList ++ ['*'] := String.toList_append
    unfold servesName at h
    rw [Bool.or_eq_true, beq_iff_eq, List.isPrefixOf_iff_prefix, hpattern,
      List.dropLast_concat] at h
    obtain rfl | h := h
    · rw [hpattern]
      exact List.prefix_append _ _
    · exact h

def twoServers : Text :=
  fileWith "db1" ++
    "\tarray( 'bur', 1, 0, 'db2:3306', '', 'jetmon', 'user', 'secret', null, null, 30 ),\n".toList

/-- The second query is answered first, the first runs on the failover server, and the third has
no server at all. -/
def sampleRun : List (Event ℕ) :=
  [.configure (.load twoServers), .execQuery "jetpack_a".toList [],
    .execQuery "jetpack_b".toList [],
    .execQuery "users".toList [], .refused 0 "down", .connected 1 ⟨0, "MISC_SLAVE1", 0⟩,
    .refused 2 "no node", .connected 0 ⟨0, "MISC_FAILOVER1", 0⟩, .answered 1 none 7 false,
    .refused 2 "no node", .answered 0 (some "timeout") 0 true]

theorem queries_answered_sample :
    Mysql nodeList id servesName ∧
      ((machine nodeList isOneText localHost).exec (initial nodeList) sampleRun).callsOf 2 =
        outcomes 2 sampleRun := by
  have hv : (machine nodeList isOneText localHost).Valid (Lending nodeList id servesName)
      (initial nodeList) sampleRun := by decide +kernel
  exact ⟨nodeList_mysql, (queries_answered nodeList_mysql hv 2).1⟩

end QueryConnections
