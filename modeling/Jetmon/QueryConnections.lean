import Jetmon.DbPools

/-! The queries of lib/database.js that are under way. execQuery asks the pool cluster for a
connection to a read-only server, after an error for one to a failover server, runs the query
on it, calls the callBack and releases the connection. The mysql2 package answers the requests
in any order, and a connection may be closed at any time. A query that a callBack starts is an
event of its own. -/
namespace QueryConnections

open TransitionSystem
open DbConfigFile
open DbPools hiding Event machine next

structure Connection where
  cluster : ℕ
  node : String
  number : ℕ
  deriving DecidableEq, Repr

def Connection.pool (c : Connection) : ℕ × String := (c.cluster, c.node)

/-- The arguments of the callBack: the message that no server could be reached, with an empty
array, or what the package gave. -/
inductive Answer (ρ : Type*) where
  | unconnected (error : String)
  | queried (error : Option String) (rows : ρ)

/-- The callback that the package owes a query, with the position of the call of getConnection
it belongs to. `kept` is the connection where the callBack threw, before connection.release. -/
inductive Phase where
  | slave (request : ℕ)
  | failover (request : ℕ)
  | running (connection : Connection)
  | ended (kept : Option Connection)

structure Query where
  sqlQuery : Text
  phase : Phase

/-- `calls`, `sent` and `released` are what the program does: the calls of callBack and of
connection.query, with the number of the query, and of connection.release. `live` and `out` are
the books of the package: its open connections, and those it has lent and not got back. -/
structure Database (κ ρ : Type*) where
  pools : Pools κ
  queries : List Query
  calls : List (ℕ × Answer ρ)
  sent : List (ℕ × Connection)
  released : List Connection
  live : List Connection
  out : List Connection

variable {κ ρ : Type*}

def Phase.connection : Phase → Option Connection
  | .running c => some c
  | .ended kept => kept
  | .slave _ | .failover _ => none

def Phase.request : Phase → Option ℕ
  | .slave r | .failover r => some r
  | .running _ | .ended _ => none

def Phase.isRunning : Phase → Bool
  | .running _ => true
  | .slave _ | .failover _ | .ended _ => false

def Database.put (k : ℕ) (phase : Phase) (s : Database κ ρ) : Database κ ρ :=
  { s with queries := s.queries.modify k fun q => { q with phase := phase } }

def Database.refuse (k : ℕ) (err : String) (s : Database κ ρ) : Database κ ρ :=
  match s.queries[k]? with
  | some ⟨sqlQuery, .slave _⟩ =>
    { s.put k (.failover s.pools.requests.length) with
      pools := s.pools.getConnection (poolPrefix sqlQuery ++ "FAILOVER*") }
  | some ⟨_, .failover _⟩ =>
    { s.put k (.ended none) with
      calls := s.calls ++
        [(k, Answer.unconnected ("error connecting to a remote failover db: " ++ err))] }
  | _ => s

/-- The package opens a connection where it has none that is idle. -/
def Database.connect (k : ℕ) (c : Connection) (s : Database κ ρ) : Database κ ρ :=
  { s.put k (.running c) with
    sent := s.sent ++ [(k, c)]
    live := if c ∈ s.live then s.live else c :: s.live
    out := c :: s.out }

def Database.release (c : Connection) (s : Database κ ρ) : Database κ ρ :=
  { s with released := s.released ++ [c], out := s.out.erase c }

def Database.conclude (k : ℕ) (error : Option String) (rows : ρ) (throws : Bool)
    (s : Database κ ρ) : Database κ ρ :=
  match s.queries[k]? with
  | some ⟨_, .running c⟩ =>
    let s := { s with calls := s.calls ++ [(k, Answer.queried error rows)] }
    if throws then s.put k (.ended (some c)) else (s.put k (.ended none)).release c
  | _ => s

/-- `configure` is a load, a reload, a call of updateConfig or of commitUpdates. `refused`,
`connected` and `answered` are callbacks for query k, `throws` says that the callBack does, and
`closed` is the loss of a connection, whoever has it. -/
inductive Event (ρ : Type*) where
  | configure (e : DbPools.Event)
  | execQuery (sqlQuery data : Text)
  | refused (k : ℕ) (err : String)
  | connected (k : ℕ) (c : Connection)
  | answered (k : ℕ) (error : Option String) (rows : ρ) (throws : Bool)
  | closed (c : Connection)

variable (L : Library κ) (nodes : κ → List Node) (serves : String → String → Bool)
  (isOne : Text → Bool) (hostname : Text)

def next (s : Database κ ρ) : Event ρ → Database κ ρ
  | .configure e => { s with pools := DbPools.next L isOne hostname s.pools e }
  | .execQuery sqlQuery data =>
    { s with
      pools := s.pools.execQuery L isOne hostname sqlQuery data
      queries := s.queries ++ [⟨sqlQuery, .slave s.pools.requests.length⟩] }
  | .refused k err => s.refuse k err
  | .connected k c => s.connect k c
  | .answered k error rows throws => s.conclude k error rows throws
  | .closed c => { s with live := s.live.erase c }

/-- A callback is called once for each call of getConnection and of connection.query. -/
def Enabled (s : Database κ ρ) : Event ρ → Prop
  | .configure (.execQuery _ _) => False
  | .configure _ | .execQuery _ _ => s.pools.running = true
  | .refused k _ | .connected k _ => ∃ q ∈ s.queries[k]?, q.phase.request.isSome = true
  | .answered k _ _ _ => ∃ q ∈ s.queries[k]?, q.phase.isRunning = true
  | .closed c => c ∈ s.live

instance (s : Database κ ρ) : (e : Event ρ) → Decidable (Enabled s e)
  | .configure (.execQuery _ _) => isFalse id
  | .configure (.load _) | .configure (.reload _) | .configure (.updateConfig _)
  | .configure (.commitUpdates _) | .execQuery _ _ => instDecidableEqBool s.pools.running true
  | .refused k _ | .connected k _ => Option.decidableExistsMem (s.queries[k]?)
  | .answered k _ _ _ => Option.decidableExistsMem (s.queries[k]?)
  | .closed c => List.instDecidableMemOfLawfulBEq c s.live

def initial : Database κ ρ := ⟨Pools.boot L, [], [], [], [], [], []⟩

def machine : Machine (Database κ ρ) (Event ρ) :=
  ⟨fun s => s = initial L, Enabled, next L isOne hostname⟩

instance (s : Database κ ρ) (e : Event ρ) :
    Decidable ((machine L isOne hostname).enabled s e) :=
  inferInstanceAs (Decidable (Enabled s e))

/-- What the program relies on of the clusters: the nodes they have, and that a pattern with a
star at its end names the nodes that begin with the text before it. -/
structure Mysql : Prop where
  created : nodes L.createPoolCluster = []
  added : ∀ cluster n, nodes (L.add cluster n) ⊆ n :: nodes cluster
  wildcard : ∀ start node, serves (start ++ "*") node = true → start.toList <+: node.toList

def Database.openAt (pool : ℕ × String) (s : Database κ ρ) : ℕ :=
  s.live.countP fun c => c.pool = pool

/-- What may be lent for a call of getConnection: a connection of a node of the cluster that was
asked and that the pattern serves. It is open and with the pool, or it is opened now, where the
pool has fewer open connections than its limit. -/
structure Lends (s : Database κ ρ) (request : ℕ × String) (c : Connection) : Prop where
  cluster : c.cluster = request.1
  node : serves request.2 c.node = true
  free : c ∉ s.out
  opened : c ∈ s.live ∨ c ∉ s.sent.map Prod.snd ∧
    ∃ n ∈ nodes (s.pools.clusters[c.cluster]?.getD L.createPoolCluster),
      c.node = n.name ∧ s.openAt c.pool < n.config.connectionLimit

instance (s : Database κ ρ) (request : ℕ × String) (c : Connection) :
    Decidable (Lends L nodes serves s request c) :=
  decidable_of_iff
    (((c.cluster = request.1 ∧ serves request.2 c.node = true) ∧ c ∉ s.out) ∧
      (c ∈ s.live ∨ c ∉ s.sent.map Prod.snd ∧
        ∃ n ∈ nodes (s.pools.clusters[c.cluster]?.getD L.createPoolCluster),
          c.node = n.name ∧ s.openAt c.pool < n.config.connectionLimit))
    ⟨fun h => ⟨h.1.1.1, h.1.1.2, h.1.2, h.2⟩, fun h => ⟨⟨⟨h.cluster, h.node⟩, h.free⟩, h.opened⟩⟩

/-- The run condition: what the package lends for a query is lent for the call of getConnection
whose callback it owes the query. -/
def Lending (s : Database κ ρ) : Event ρ → Prop
  | .connected k c => ∃ q ∈ s.queries[k]?, ∃ r ∈ q.phase.request,
      ∃ request ∈ s.pools.requests[r]?, Lends L nodes serves s request c
  | .configure _ | .execQuery _ _ | .refused _ _ | .answered _ _ _ _ | .closed _ => True

instance (s : Database κ ρ) : (e : Event ρ) → Decidable (Lending L nodes serves s e)
  | .connected k c =>
    have : ∀ q : Query, Decidable (∃ r ∈ q.phase.request, ∃ request ∈ s.pools.requests[r]?,
        Lends L nodes serves s request c) := fun q =>
      have : ∀ r : ℕ, Decidable (∃ request ∈ s.pools.requests[r]?,
        Lends L nodes serves s request c) := fun r =>
          Option.decidableExistsMem (s.pools.requests[r]?)
      Option.decidableExistsMem q.phase.request
    Option.decidableExistsMem (s.queries[k]?)
  | .configure _ | .execQuery _ _ | .refused _ _ | .answered _ _ _ _ | .closed _ => isTrue trivial

def Event.text : Event ρ → Option Text
  | .execQuery sqlQuery _ => some sqlQuery
  | .configure _ | .refused _ _ | .connected _ _ | .answered _ _ _ _ | .closed _ => none

def Event.query : Event ρ → Option ℕ
  | .refused k _ | .connected k _ | .answered k _ _ _ => some k
  | .configure _ | .execQuery _ _ | .closed _ => none

def Event.err : Event ρ → Option String
  | .refused _ err => some err
  | .configure _ | .execQuery _ _ | .connected _ _ | .answered _ _ _ _ | .closed _ => none

def Event.connection : Event ρ → Option Connection
  | .connected _ c => some c
  | .configure _ | .execQuery _ _ | .refused _ _ | .answered _ _ _ _ | .closed _ => none

def Event.reply : Event ρ → Option (Option String × ρ)
  | .answered _ error rows _ => some (error, rows)
  | .configure _ | .execQuery _ _ | .refused _ _ | .connected _ _ | .closed _ => none

def Event.thrown : Event ρ → Bool
  | .answered _ _ _ throws => throws
  | .configure _ | .execQuery _ _ | .refused _ _ | .connected _ _ | .closed _ => false

def Event.returned : Event ρ → Bool
  | .answered _ _ _ throws => !throws
  | .configure _ | .execQuery _ _ | .refused _ _ | .connected _ _ | .closed _ => false

def about (k : ℕ) (es : List (Event ρ)) : List (Event ρ) := es.filter fun e => e.query == some k

def refusals (k : ℕ) (es : List (Event ρ)) : List String := (about k es).filterMap Event.err

def lent (k : ℕ) (es : List (Event ρ)) : List Connection := (about k es).filterMap Event.connection

def replies (k : ℕ) (es : List (Event ρ)) : List (Option String × ρ) :=
  (about k es).filterMap Event.reply

/-- What the callBack of query k is to be called with: with each error but the first, and with
each reply. -/
def outcomes (k : ℕ) (es : List (Event ρ)) : List (Answer ρ) :=
  ((refusals k es).drop 1).map
      (fun err => .unconnected ("error connecting to a remote failover db: " ++ err)) ++
    (replies k es).map fun reply => .queried reply.1 reply.2

def ofQuery {α : Type*} (k : ℕ) (xs : List (ℕ × α)) : List α :=
  xs.filterMap fun x => if x.1 = k then some x.2 else none

def Database.callsOf (k : ℕ) (s : Database κ ρ) : List (Answer ρ) := ofQuery k s.calls

def Database.sentOf (k : ℕ) (s : Database κ ρ) : List Connection := ofQuery k s.sent

def server : ℕ → String
  | 0 => "SLAVE"
  | _ + 1 => "FAILOVER"

/-- The name of a node that a query may run on after this number of errors. -/
def Wants (sqlQuery : Text) (errors : ℕ) (node : String) : Prop :=
  (poolPrefix sqlQuery ++ server errors).toList <+: node.toList

/-- The phase of a query and what the package has answered for it. -/
inductive Stage (requests : List (ℕ × String)) (sqlQuery : Text) :
    Phase → List String → List Connection → List (Option String × ρ) → Prop
  | slave {r i : ℕ} (h : requests[r]? = some (i, poolPrefix sqlQuery ++ "SLAVE*")) :
    Stage requests sqlQuery (.slave r) [] [] []
  | failover {r i : ℕ} (err : String)
      (h : requests[r]? = some (i, poolPrefix sqlQuery ++ "FAILOVER*")) :
    Stage requests sqlQuery (.failover r) [err] [] []
  | running {errs : List String} {c : Connection} (herrs : errs.length ≤ 1)
      (h : Wants sqlQuery errs.length c.node) :
    Stage requests sqlQuery (.running c) errs [c] []
  | unconnected (err err' : String) : Stage requests sqlQuery (.ended none) [err, err'] [] []
  | concluded {errs : List String} {c : Connection} (reply : Option String × ρ)
      {kept : Option Connection} (herrs : errs.length ≤ 1) (h : Wants sqlQuery errs.length c.node) :
    Stage requests sqlQuery (.ended kept) errs [c] [reply]

structure Recorded (es : List (Event ρ)) (s : Database κ ρ) : Prop where
  texts : s.queries.map Query.sqlQuery = es.filterMap Event.text
  unasked : ∀ k, s.queries[k]? = none → about k es = []
  stage : ∀ k, ∀ q ∈ s.queries[k]?,
    Stage s.pools.requests q.sqlQuery q.phase (refusals k es) (lent k es) (replies k es)
  calls : ∀ k, s.callsOf k = outcomes k es
  sent : ∀ k, s.sentOf k = lent k es

variable {L nodes serves isOne hostname} {s : Database κ ρ} {e : Event ρ} {es : List (Event ρ)}
  {k : ℕ} {c : Connection}

theorem about_append (k : ℕ) (es : List (Event ρ)) (e : Event ρ) :
    about k (es ++ [e]) = about k es ++ if e.query = some k then [e] else [] := by
  rw [about, List.filter_append]
  apply congrArg
  by_cases h : e.query = some k
  · simp [h]
  · simp [h]

theorem about_other (h : e.query ≠ some k) : about k (es ++ [e]) = about k es := by
  rw [about_append, if_neg h, List.append_nil]

theorem about_same (h : e.query = some k) : about k (es ++ [e]) = about k es ++ [e] := by
  rw [about_append, if_pos h]

theorem Stage.mono {requests requests' : List (ℕ × String)} {sqlQuery : Text} {phase : Phase}
    {errs : List String} {cs : List Connection} {rs : List (Option String × ρ)}
    (h : Stage requests sqlQuery phase errs cs rs) (hle : requests <+: requests') :
    Stage requests' sqlQuery phase errs cs rs := by
  obtain ⟨more, rfl⟩ := hle
  have hget : ∀ {r : ℕ} {request : ℕ × String}, requests[r]? = some request →
      (requests ++ more)[r]? = some request := by
    intro r request hr
    exact (List.getElem?_append_left (List.getElem?_eq_some_iff.mp hr).1).trans hr
  cases h with
  | slave hr => exact .slave (hget hr)
  | failover err hr => exact .failover err (hget hr)
  | running herrs hwants => exact .running herrs hwants
  | unconnected err err' => exact .unconnected err err'
  | concluded reply herrs hwants => exact .concluded reply herrs hwants

theorem Recorded.aside {t : Database κ ρ} (h : Recorded es s) (hquery : e.query = none)
    (htext : e.text = none) (hqueries : t.queries = s.queries) (hcalls : t.calls = s.calls)
    (hsent : t.sent = s.sent) (hrequests : s.pools.requests <+: t.pools.requests) :
    Recorded (es ++ [e]) t := by
  have hsame : ∀ k, about k (es ++ [e]) = about k es := fun k =>
    about_other (hquery ▸ Option.some_ne_none k |>.symm)
  constructor
  · rw [hqueries, h.texts, List.filterMap_append]
    simp [htext]
  · intro k hk
    rw [hsame]
    exact h.unasked k (hqueries ▸ hk)
  · intro k q hq
    rw [refusals, lent, replies, hsame]
    exact (h.stage k q (hqueries ▸ hq)).mono hrequests
  · intro k
    rw [Database.callsOf, hcalls, outcomes, refusals, replies, hsame]
    exact h.calls k
  · intro k
    rw [Database.sentOf, hsent, lent, hsame]
    exact h.sent k

theorem Recorded.asked {t : Database κ ρ} (h : Recorded es s) {sqlQuery data : Text} {i : ℕ}
    (hqueries : t.queries = s.queries ++ [⟨sqlQuery, .slave s.pools.requests.length⟩])
    (hcalls : t.calls = s.calls) (hsent : t.sent = s.sent)
    (hrequests : t.pools.requests =
      s.pools.requests ++ [(i, poolPrefix sqlQuery ++ "SLAVE*")]) :
    Recorded (es ++ [.execQuery sqlQuery data]) t := by
  have hsame : ∀ k, about k (es ++ [.execQuery sqlQuery data]) = about k es := fun k =>
    about_other nofun
  constructor
  · rw [hqueries, List.map_append, h.texts, List.filterMap_append]
    rfl
  · intro k hk
    rw [hsame]
    apply h.unasked
    rw [hqueries, List.getElem?_eq_none_iff, List.length_append] at hk
    exact List.getElem?_eq_none (Nat.le_of_succ_le hk)
  · intro k q hq
    rw [refusals, lent, replies, hsame]
    rw [hqueries, Option.mem_def] at hq
    obtain hlt | hge := Nat.lt_or_ge k s.queries.length
    · rw [List.getElem?_append_left hlt] at hq
      exact (h.stage k q hq).mono (hrequests ▸ List.prefix_append _ _)
    · rw [h.unasked k (List.getElem?_eq_none hge)]
      rw [List.getElem?_append_right hge, List.getElem?_singleton] at hq
      split at hq
      · obtain rfl := Option.some.inj hq
        apply Stage.slave
        rw [hrequests, List.getElem?_append_right le_rfl, Nat.sub_self]
        rfl
      · contradiction
  · intro k
    rw [Database.callsOf, hcalls, outcomes, refusals, replies, hsame]
    exact h.calls k
  · intro k
    rw [Database.sentOf, hsent, lent, hsame]
    exact h.sent k

theorem about_filterMap {α : Type*} (f : Event ρ → Option α) (h : e.query = some k) :
    (about k (es ++ [e])).filterMap f = (about k es).filterMap f ++ (f e).toList := by
  rw [about_same h, List.filterMap_append]
  cases hf : f e with
  | none => rw [List.filterMap_cons_none hf, List.filterMap_nil, Option.toList_none]
  | some a => rw [List.filterMap_cons_some hf, List.filterMap_nil, Option.toList_some]

theorem refusals_same (h : e.query = some k) :
    refusals k (es ++ [e]) = refusals k es ++ e.err.toList :=
  about_filterMap Event.err h

theorem lent_same (h : e.query = some k) :
    lent k (es ++ [e]) = lent k es ++ e.connection.toList :=
  about_filterMap Event.connection h

theorem replies_same (h : e.query = some k) :
    replies k (es ++ [e]) = replies k es ++ e.reply.toList :=
  about_filterMap Event.reply h

theorem ofQuery_append {α : Type*} (xs : List (ℕ × α)) (ys : List α) (j k : ℕ) :
    ofQuery j (xs ++ ys.map (k, ·)) = ofQuery j xs ++ if j = k then ys else [] := by
  rw [ofQuery, List.filterMap_append]
  apply congrArg
  by_cases hj : j = k
  · simp [hj, List.filterMap_map]
  · simp [Ne.symm hj, List.filterMap_map, hj]

/-- A callback for query k that leaves it in this phase, and calls and sends for it only. -/
theorem Recorded.callback {t : Database κ ρ} (h : Recorded es s) (calls : List (Answer ρ))
    (he : e.query = some k)
    {q : Query} (hq : s.queries[k]? = some q) {phase : Phase}
    (hqueries : t.queries = s.queries.modify k fun q => { q with phase := phase })
    (hrequests : s.pools.requests <+: t.pools.requests)
    (hstage : Stage t.pools.requests q.sqlQuery phase (refusals k es ++ e.err.toList)
      (lent k es ++ e.connection.toList) (replies k es ++ e.reply.toList))
    (hcalls : t.calls = s.calls ++ calls.map (k, ·))
    (houtcomes : outcomes k (es ++ [e]) = outcomes k es ++ calls)
    (hsent : t.sent = s.sent ++ e.connection.toList.map (k, ·)) : Recorded (es ++ [e]) t := by
  have hother : ∀ {j}, j ≠ k → about j (es ++ [e]) = about j es := by
    intro j hj
    exact about_other (he ▸ fun heq => hj (Option.some.inj heq).symm)
  have hget : ∀ {j}, j ≠ k → t.queries[j]? = s.queries[j]? := by
    intro j hj
    simp [hqueries, Ne.symm hj]
  have hgetk : t.queries[k]? = some { q with phase := phase } := by
    simp [hqueries, hq]
  constructor
  · have htexts : t.queries.map Query.sqlQuery = s.queries.map Query.sqlQuery := by
      apply List.ext_getElem?
      intro j
      rw [List.getElem?_map, List.getElem?_map]
      by_cases hj : j = k
      · rw [hj, hgetk, hq]
        rfl
      · rw [hget hj]
    have hnone : e.text = none := by cases e <;> first | rfl | contradiction
    rw [htexts, h.texts, List.filterMap_append]
    simp [hnone]
  · intro j hj
    by_cases hjk : j = k
    · rw [hjk, hgetk] at hj
      contradiction
    · rw [hother hjk]
      exact h.unasked j (hget hjk ▸ hj)
  · intro j r hr
    by_cases hjk : j = k
    · rw [hjk, hgetk] at hr
      obtain rfl := Option.some.inj hr
      rw [hjk, refusals_same he, lent_same he, replies_same he]
      exact hstage
    · rw [refusals, lent, replies, hother hjk]
      exact (h.stage j r (hget hjk ▸ hr)).mono hrequests
  · intro j
    have hold : ofQuery j s.calls = outcomes j es := h.calls j
    rw [Database.callsOf, hcalls, ofQuery_append, hold]
    by_cases hjk : j = k
    · rw [hjk, if_pos rfl, houtcomes]
    · rw [if_neg hjk, List.append_nil, outcomes, outcomes, refusals, refusals, replies, replies,
        hother hjk]
  · intro j
    have hold : ofQuery j s.sent = lent j es := h.sent j
    rw [Database.sentOf, hsent, ofQuery_append, hold]
    by_cases hjk : j = k
    · rw [hjk, if_pos rfl, lent_same he]
    · rw [if_neg hjk, List.append_nil, lent, lent, hother hjk]

theorem Stage.asking {requests : List (ℕ × String)} {sqlQuery : Text} {phase : Phase}
    {errs : List String} {cs : List Connection} {rs : List (Option String × ρ)} {r : ℕ}
    (h : Stage requests sqlQuery phase errs cs rs) (hr : phase.request = some r) :
    cs = [] ∧ rs = [] ∧ errs.length ≤ 1 ∧
      ∃ i, requests[r]? = some (i, poolPrefix sqlQuery ++ server errs.length ++ "*") := by
  cases h with
  | @slave _ i hget =>
    obtain rfl := Option.some.inj hr
    refine ⟨rfl, rfl, Nat.zero_le 1, i, ?_⟩
    rw [hget, String.append_assoc]
    rfl
  | @failover _ i err hget =>
    obtain rfl := Option.some.inj hr
    refine ⟨rfl, rfl, le_rfl, i, ?_⟩
    rw [hget, String.append_assoc]
    rfl
  | running herrs hwants => contradiction
  | unconnected err err' => contradiction
  | concluded reply herrs hwants => contradiction

theorem Stage.slave_errs {requests : List (ℕ × String)} {sqlQuery : Text} {r : ℕ}
    {errs : List String} {cs : List Connection} {rs : List (Option String × ρ)}
    (h : Stage requests sqlQuery (.slave r) errs cs rs) : errs = [] := by
  cases h
  rfl

theorem Stage.failover_errs {requests : List (ℕ × String)} {sqlQuery : Text} {r : ℕ}
    {errs : List String} {cs : List Connection} {rs : List (Option String × ρ)}
    (h : Stage requests sqlQuery (.failover r) errs cs rs) : ∃ err, errs = [err] := by
  cases h
  exact ⟨_, rfl⟩

theorem Stage.conclude {requests : List (ℕ × String)} {sqlQuery : Text} {errs : List String}
    {cs : List Connection} {rs : List (Option String × ρ)}
    (h : Stage requests sqlQuery (.running c) errs cs rs) (reply : Option String × ρ)
    (kept : Option Connection) : Stage requests sqlQuery (.ended kept) errs cs (rs ++ [reply]) := by
  cases h with
  | running herrs hwants => exact .concluded reply herrs hwants

theorem refuse_slave {sqlQuery : Text} {r : ℕ} (hq : s.queries[k]? = some ⟨sqlQuery, .slave r⟩)
    (err : String) : s.refuse k err =
      { s.put k (.failover s.pools.requests.length) with
        pools := s.pools.getConnection (poolPrefix sqlQuery ++ "FAILOVER*") } := by
  simp only [Database.refuse, hq]

theorem refuse_failover {sqlQuery : Text} {r : ℕ}
    (hq : s.queries[k]? = some ⟨sqlQuery, .failover r⟩) (err : String) : s.refuse k err =
      { s.put k (.ended none) with
        calls := s.calls ++
          [(k, .unconnected ("error connecting to a remote failover db: " ++ err))] } := by
  simp only [Database.refuse, hq]

theorem conclude_returned {sqlQuery : Text} (hq : s.queries[k]? = some ⟨sqlQuery, .running c⟩)
    (error : Option String) (rows : ρ) : s.conclude k error rows false =
      Database.release c
        ({ s with calls := s.calls ++ [(k, Answer.queried error rows)] }.put k (.ended none)) := by
  simp only [Database.conclude, hq, Bool.false_eq_true, if_false]

theorem conclude_thrown {sqlQuery : Text} (hq : s.queries[k]? = some ⟨sqlQuery, .running c⟩)
    (error : Option String) (rows : ρ) : s.conclude k error rows true =
      { s with calls := s.calls ++ [(k, Answer.queried error rows)] }.put k (.ended (some c)) := by
  simp only [Database.conclude, hq, if_true]

theorem Recorded.refused (h : Recorded es s) (err : String) (he : Enabled s (.refused k err)) :
    Recorded (es ++ [.refused k err]) (s.refuse k err) := by
  obtain ⟨⟨sqlQuery, phase⟩, hq, hasking⟩ := he
  have hquery : (Event.refused k err : Event ρ).query = some k := rfl
  have hstage := h.stage k _ hq
  have houtcomes : ∀ calls, ((refusals k es ++ [err]).drop 1).map
        (fun err => Answer.unconnected ("error connecting to a remote failover db: " ++ err)) =
        calls → replies k es = [] →
      outcomes k (es ++ [.refused k err]) = calls := by
    intro calls hcalls hnone
    rw [outcomes, refusals_same hquery, replies_same hquery, hnone]
    exact (List.append_nil _).trans hcalls
  have hold : replies k es = [] → outcomes k es = ((refusals k es).drop 1).map
      (fun err => Answer.unconnected ("error connecting to a remote failover db: " ++ err)) := by
    intro hnone
    rw [outcomes, hnone]
    exact List.append_nil _
  cases phase with
  | slave r =>
    rw [refuse_slave hq]
    obtain ⟨hlent, hreplies, -, -⟩ := hstage.asking rfl
    have hrefusals : refusals k es = [] := hstage.slave_errs
    refine h.callback [] hquery hq rfl (List.prefix_append _ _) ?_
      (List.append_nil _).symm ?_ (List.append_nil _).symm
    · rw [hrefusals, hlent, hreplies]
      apply Stage.failover
      exact (List.getElem?_append_right le_rfl).trans (by rw [Nat.sub_self]; rfl)
    · rw [hold hreplies, houtcomes _ rfl hreplies, hrefusals]
      rfl
  | failover r =>
    rw [refuse_failover hq]
    obtain ⟨hlent, hreplies, -, -⟩ := hstage.asking rfl
    obtain ⟨first, hrefusals⟩ : ∃ first, refusals k es = [first] := hstage.failover_errs
    refine h.callback [_] hquery hq rfl (List.prefix_refl _) ?_ rfl ?_ (List.append_nil _).symm
    · rw [hrefusals, hlent, hreplies]
      exact .unconnected first err
    · rw [hold hreplies, houtcomes _ rfl hreplies, hrefusals]
      rfl
  | running c => contradiction
  | ended kept => contradiction

theorem Recorded.connected (hmysql : Mysql L nodes serves) (h : Recorded es s)
    (hlend : Lending L nodes serves s (.connected k c)) :
    Recorded (es ++ [.connected k c]) (s.connect k c) := by
  obtain ⟨q, hq, r, hr, request, hrequest, hlends⟩ := hlend
  have hquery : (Event.connected k c : Event ρ).query = some k := rfl
  obtain ⟨hlent, hreplies, hrefusals, i, hasked⟩ := (h.stage k q hq).asking hr
  obtain rfl := Option.some.inj (hrequest.symm.trans hasked)
  refine h.callback [] hquery hq rfl (List.prefix_refl _) ?_ (List.append_nil _).symm ?_
    rfl
  · have herrs : refusals k es ++ (Event.connected k c : Event ρ).err.toList = refusals k es :=
      List.append_nil _
    rw [herrs, hlent, hreplies]
    exact .running hrefusals (hmysql.wildcard _ _ hlends.node)
  · rw [outcomes, outcomes, refusals_same hquery, replies_same hquery]
    simp [Event.err, Event.reply]

theorem Recorded.answered (h : Recorded es s) {error : Option String} {rows : ρ} {throws : Bool}
    (he : Enabled s (.answered k error rows throws)) :
    Recorded (es ++ [.answered k error rows throws]) (s.conclude k error rows throws) := by
  obtain ⟨⟨sqlQuery, phase⟩, hq, hrunning⟩ := he
  have hquery : (Event.answered k error rows throws : Event ρ).query = some k := rfl
  have hstage := h.stage k _ hq
  cases phase with
  | slave r => contradiction
  | failover r => contradiction
  | running c =>
    have houtcomes : outcomes k (es ++ [.answered k error rows throws]) =
        outcomes k es ++ [.queried error rows] := by
      rw [outcomes, outcomes, refusals_same hquery, replies_same hquery]
      simp [Event.err, Event.reply]
    have hended : ∀ kept, Stage s.pools.requests sqlQuery (.ended kept)
        (refusals k es ++ (Event.answered k error rows throws : Event ρ).err.toList)
        (lent k es ++ (Event.answered k error rows throws : Event ρ).connection.toList)
        (replies k es ++ (Event.answered k error rows throws : Event ρ).reply.toList) := by
      intro kept
      have hsame : ∀ {α : Type} (xs : List α), xs ++ (none : Option α).toList = xs :=
        fun xs => List.append_nil xs
      change Stage _ _ _ (refusals k es ++ (none : Option String).toList)
        (lent k es ++ (none : Option Connection).toList) _
      rw [hsame, hsame]
      exact hstage.conclude _ kept
    cases throws with
    | false =>
      rw [conclude_returned hq]
      exact h.callback [_] hquery hq rfl (List.prefix_refl _) (hended _) rfl houtcomes
        (List.append_nil _).symm
    | true =>
      rw [conclude_thrown hq]
      exact h.callback [_] hquery hq rfl (List.prefix_refl _) (hended _) rfl houtcomes
        (List.append_nil _).symm
  | ended kept => contradiction

theorem execQuery_requests (p : Pools κ) (sqlQuery data : Text) :
    (p.execQuery L isOne hostname sqlQuery data).requests =
      p.requests ++ [(p.cluster, poolPrefix sqlQuery ++ "SLAVE*")] := by
  have hreload : (p.reloadIfUpdated L isOne hostname data).requests = p.requests ∧
      (p.reloadIfUpdated L isOne hostname data).cluster = p.cluster := by
    unfold Pools.reloadIfUpdated
    split <;> exact ⟨rfl, rfl⟩
  unfold Pools.execQuery Pools.getConnection
  rw [hreload.1, hreload.2]

theorem configure_requests (p : Pools κ) (e : DbPools.Event) :
    p.requests <+: (DbPools.next L isOne hostname p e).requests := by
  have hreload : ∀ data, (p.reloadIfUpdated L isOne hostname data).requests = p.requests := by
    intro data
    unfold Pools.reloadIfUpdated
    split <;> rfl
  cases e with
  | load data => exact List.prefix_refl _
  | reload data => exact List.prefix_refl _
  | updateConfig updated => exact List.prefix_refl _
  | execQuery sqlQuery data =>
    rw [DbPools.next, execQuery_requests]
    exact List.prefix_append _ _
  | commitUpdates data =>
    simp only [DbPools.next, Pools.commitUpdates]
    split
    · exact List.prefix_refl _
    · unfold Pools.getConnection
      rw [hreload]
      exact List.prefix_append _ _

theorem Recorded.next (hmysql : Mysql L nodes serves) (h : Recorded es s) (he : Enabled s e)
    (hlend : Lending L nodes serves s e) :
    Recorded (es ++ [e]) (QueryConnections.next L isOne hostname s e) := by
  cases e with
  | configure d => exact h.aside rfl rfl rfl rfl rfl (configure_requests _ d)
  | execQuery sqlQuery data => exact h.asked rfl rfl rfl (execQuery_requests _ sqlQuery data)
  | refused k err => exact h.refused err he
  | connected k c => exact h.connected hmysql hlend
  | answered k error rows throws => exact h.answered he
  | closed c => exact h.aside rfl rfl rfl rfl rfl (List.prefix_refl _)

theorem initial_recorded : Recorded [] (initial L : Database κ ρ) where
  texts := rfl
  unasked := fun _ _ => rfl
  stage := fun _ _ hq => absurd hq (Option.not_mem_none _)
  calls := fun _ => rfl
  sent := fun _ => rfl

theorem exec_recorded (hmysql : Mysql L nodes serves)
    (hv : (machine L isOne hostname).Valid (Lending L nodes serves) (initial L) es) :
    Recorded es ((machine L isOne hostname).exec (initial L) es) := by
  refine exec_history initial_recorded ?_ hv
  intro es e h he hlend
  exact h.next hmysql he hlend

end QueryConnections
