import Jetmon.DbConfigFile
import Jetmon.TransitionSystem

/-! The pool clusters of lib/dbpools.js and the calls of lib/database.js that use them. The
module variable poolCluster and the property exports.cluster are references: the first is
assigned on every reload, the second once. -/
namespace DbPools

open TransitionSystem
open DbConfigFile

structure Library (κ : Type*) where
  createPoolCluster : κ
  add : κ → Node → κ

variable {κ : Type*}

/-- `clusters` are the clusters that were created, in order; `requests` and `registered` are
histories: the calls of getConnection, with the cluster and the pattern, and the nodes that
the most recent load added. -/
structure Pools (κ : Type*) where
  clusters : List κ
  poolCluster : ℕ
  cluster : ℕ
  reloadConfig : Bool
  arrUpdateStatements : List String
  requests : List (ℕ × String)
  registered : List Node
  running : Bool

variable (L : Library κ) (isOne : Text → Bool) (hostname : Text)

def build (nodes : List Node) : κ := nodes.foldl L.add L.createPoolCluster

def Pools.boot : Pools κ where
  clusters := [L.createPoolCluster]
  poolCluster := 0
  cluster := 0
  reloadConfig := false
  arrUpdateStatements := []
  requests := []
  registered := []
  running := true

/-- configuration.load; the flag says whether it was successful. -/
def Pools.load (data : Text) (s : Pools κ) : Bool × Pools κ :=
  let loaded := DbConfigFile.load isOne hostname data
  (!loaded.failed,
    { s with
      clusters := s.clusters.modify s.poolCluster fun c => loaded.nodes.foldl L.add c
      registered := loaded.nodes })

/-- configuration.reload, which only logs a failure. -/
def Pools.reload (data : Text) (s : Pools κ) : Pools κ :=
  let s :=
    { s with clusters := s.clusters ++ [L.createPoolCluster], poolCluster := s.clusters.length }
  (s.load L isOne hostname data).2

def Pools.reloadIfUpdated (data : Text) (s : Pools κ) : Pools κ :=
  if s.reloadConfig then { s.reload L isOne hostname data with reloadConfig := false } else s

def poolPrefix (sqlQuery : Text) : String :=
  if TextSearch.find "jetpack_".toList sqlQuery ≠ ⊤ then "MISC_"
  else if TextSearch.find "languages".toList sqlQuery ≠ ⊤ then "GLOBAL_"
  else "USER_"

def Pools.getConnection (pattern : String) (s : Pools κ) : Pools κ :=
  { s with requests := s.requests ++ [(s.cluster, pattern)] }

/-- execQuery, up to its first getConnection. -/
def Pools.execQuery (sqlQuery data : Text) (s : Pools κ) : Pools κ :=
  (s.reloadIfUpdated L isOne hostname data).getConnection (poolPrefix sqlQuery ++ "SLAVE*")

def Pools.commitUpdates (data : Text) (s : Pools κ) : Pools κ :=
  if s.arrUpdateStatements.length = 0 then s
  else (s.reloadIfUpdated L isOne hostname data).getConnection "MISC_MASTER"

def Pools.init (success : Bool) (s : Pools κ) : Pools κ :=
  { s with running := s.running && success }

/-- `data` is the text of the file at that time. `load` is the call made by database.js,
`updated` the answer that updateConfig gets from time to time. -/
inductive Event where
  | load (data : Text)
  | reload (data : Text)
  | updateConfig (updated : Bool)
  | execQuery (sqlQuery data : Text)
  | commitUpdates (data : Text)

def next (s : Pools κ) : Event → Pools κ
  | .load data => (s.load L isOne hostname data).2.init (s.load L isOne hostname data).1
  | .reload data => s.reload L isOne hostname data
  | .updateConfig updated => { s with reloadConfig := s.reloadConfig || updated }
  | .execQuery sqlQuery data => s.execQuery L isOne hostname sqlQuery data
  | .commitUpdates data => s.commitUpdates L isOne hostname data

def machine : Machine (Pools κ) Event :=
  ⟨fun s => s = Pools.boot L, fun s _ => s.running = true, next L isOne hostname⟩

instance (s : Pools κ) (e : Event) : Decidable ((machine L isOne hostname).enabled s e) :=
  inferInstanceAs (Decidable (s.running = true))

def Pools.exported (s : Pools κ) : κ := s.clusters[s.cluster]?.getD L.createPoolCluster

/-- pool.cluster has exactly the nodes of the most recent load. -/
def InEffect (s : Pools κ) : Prop := s.exported L = build L s.registered

def reads (s : Pools κ) : Event → Option Text
  | .load data | .reload data => some data
  | .updateConfig _ => none
  | .execQuery _ data => if s.reloadConfig then some data else none
  | .commitUpdates data =>
    if s.arrUpdateStatements.length ≠ 0 ∧ s.reloadConfig = true then some data else none

/-- The run condition. A file read by a reload has the nodes that pool.cluster has already. A
file read by a further load, which adds to the cluster in use, adds nothing that makes it
another cluster than one built from the file. -/
def Unchanged (s : Pools κ) (e : Event) : Prop :=
  ∀ data ∈ reads s e,
    let nodes := (DbConfigFile.load isOne hostname data).nodes
    match e with
    | .load _ =>
      if s.poolCluster = s.cluster then nodes.foldl L.add (s.exported L) = build L nodes
      else s.exported L = build L nodes
    | _ => s.exported L = build L nodes

variable {L isOne hostname} {s : Pools κ}

def Bound (s : Pools κ) : Prop := s.cluster < s.clusters.length

theorem load_bound (data : Text) (h : Bound s) : Bound (s.load L isOne hostname data).2 := by
  unfold Bound Pools.load
  rw [List.length_modify]
  exact h

theorem reload_bound (data : Text) (h : Bound s) : Bound (s.reload L isOne hostname data) := by
  apply load_bound data
  rw [Bound, List.length_append]
  exact Nat.lt_add_right _ h

theorem exported_load (data : Text) (h : Bound s) :
    (s.load L isOne hostname data).2.exported L =
      if s.poolCluster = s.cluster then
        (DbConfigFile.load isOne hostname data).nodes.foldl L.add (s.exported L)
      else s.exported L := by
  unfold Pools.exported Pools.load
  rw [List.getElem?_modify, List.getElem?_eq_getElem h]
  by_cases hsame : s.poolCluster = s.cluster
  · simp [hsame]
  · simp [hsame]

/-- A reload fills a cluster that pool.cluster does not refer to. -/
theorem exported_reload (data : Text) (h : Bound s) :
    (s.reload L isOne hostname data).exported L = s.exported L := by
  have hbound : Bound { s with
      clusters := s.clusters ++ [L.createPoolCluster], poolCluster := s.clusters.length } := by
    rw [Bound, List.length_append]
    exact Nat.lt_add_right _ h
  unfold Pools.reload
  rw [exported_load data hbound, if_neg (Nat.ne_of_gt h)]
  unfold Pools.exported
  rw [List.getElem?_append_left h]

theorem reload_inEffect (data : Text) (h : Bound s) :
    InEffect L (s.reload L isOne hostname data) ↔
      s.exported L = build L (DbConfigFile.load isOne hostname data).nodes := by
  rw [InEffect, exported_reload data h]
  rfl

theorem reloadIfUpdated_inEffect (data : Text) (h : Bound s) (hin : InEffect L s) :
    InEffect L (s.reloadIfUpdated L isOne hostname data) ↔ (s.reloadConfig = true →
      s.exported L = build L (DbConfigFile.load isOne hostname data).nodes) := by
  unfold Pools.reloadIfUpdated
  split
  · rename_i hflag
    rw [← reload_inEffect data h]
    exact ⟨fun heff _ => heff, fun heff => heff hflag⟩
  · rename_i hflag
    exact iff_of_true hin fun htrue => absurd htrue hflag

theorem reloadIfUpdated_bound (data : Text) (h : Bound s) :
    Bound (s.reloadIfUpdated L isOne hostname data) := by
  unfold Pools.reloadIfUpdated
  split
  · exact reload_bound data h
  · exact h

theorem next_bound (e : Event) (h : Bound s) : Bound (next L isOne hostname s e) := by
  cases e with
  | load data => exact load_bound data h
  | reload data => exact reload_bound data h
  | updateConfig => exact h
  | execQuery sqlQuery data => exact reloadIfUpdated_bound data h
  | commitUpdates data =>
    simp only [next, Pools.commitUpdates]
    split
    · exact h
    · exact reloadIfUpdated_bound data h

theorem next_inEffect (e : Event) (h : Bound s) (hin : InEffect L s) :
    InEffect L (next L isOne hostname s e) ↔ Unchanged L isOne hostname s e := by
  cases e with
  | load data =>
    change (s.load L isOne hostname data).2.exported L =
      build L (DbConfigFile.load isOne hostname data).nodes ↔ _
    rw [exported_load data h]
    simp only [Unchanged, reads, Option.mem_some_iff, forall_eq']
    split <;> rfl
  | reload data =>
    simp only [Unchanged, reads, Option.mem_some_iff, forall_eq']
    exact reload_inEffect data h
  | updateConfig => exact iff_of_true hin nofun
  | execQuery sqlQuery data =>
    simp only [Unchanged, reads]
    refine (reloadIfUpdated_inEffect data h hin).trans ?_
    cases s.reloadConfig <;> simp
  | commitUpdates data =>
    simp only [Unchanged, reads, next, Pools.commitUpdates]
    by_cases hnone : s.arrUpdateStatements.length = 0
    · rw [if_pos hnone, if_neg fun hboth => hboth.1 hnone]
      exact iff_of_true hin nofun
    · rw [if_neg hnone]
      refine (reloadIfUpdated_inEffect data h hin).trans ?_
      cases s.reloadConfig <;> simp [hnone]

/-- Loads take effect exactly in the runs in which no file changes the nodes. -/
theorem reload_takes_effect_iff (L : Library κ) (isOne : Text → Bool) (hostname : Text)
    {s : Pools κ} {es : List Event} (h₀ : (machine L isOne hostname).start s)
    (hv : (machine L isOne hostname).Valid Unrestricted s es) :
    (machine L isOne hostname).Always (InEffect L) s es ↔
      (machine L isOne hostname).Valid (Unchanged L isOne hostname) s es := by
  refine always_iff_valid (I := fun s => Bound s ∧ InEffect L s) (fun _ h => h.2) ?_ ?_ ?_ hv
  · exact fun s e h _ _ hc => ⟨next_bound e h.1, (next_inEffect e h.1 h.2).mpr hc⟩
  · exact fun s e h _ _ hc heff => hc ((next_inEffect e h.1 h.2).mp heff)
  · obtain rfl := h₀
    exact ⟨Nat.zero_lt_one, rfl⟩

def nodeList : Library (List Node) where
  createPoolCluster := []
  add nodes n := if n.name ∈ nodes.map Node.name then nodes else nodes ++ [n]

def fileWith (server : String) : Text :=
  "\t'misc' => array(\n\tarray( 'dfw', 1, 0, '".toList ++ server.toList ++
    ":3306', '', 'jetmon', 'user', 'secret', null, null, 30 ),\n".toList

def isOneText (text : Text) : Bool := text == ['1']

def localHost : Text := "jetmon1.dfw.example.com".toList

instance (s : Pools (List Node)) : Decidable (InEffect nodeList s) :=
  inferInstanceAs (Decidable (_ = _))

def updatedTo (server : String) : List Event :=
  [.load (fileWith "db1"), .updateConfig true, .execQuery "jetpack_".toList (fileWith server)]

theorem reload_takes_effect_iff_same_server :
    (machine nodeList isOneText localHost).Always (InEffect nodeList) (Pools.boot nodeList)
        (updatedTo "db1") ↔
      (machine nodeList isOneText localHost).Valid (Unchanged nodeList isOneText localHost)
        (Pools.boot nodeList) (updatedTo "db1") :=
  reload_takes_effect_iff nodeList isOneText localHost rfl (by decide +kernel)

/-- The query after the update still goes to the server that was replaced. -/
theorem replaced_server_stays :
    ¬∀ es, (machine nodeList isOneText localHost).Valid Unrestricted (Pools.boot nodeList) es →
      (machine nodeList isOneText localHost).Always (InEffect nodeList) (Pools.boot nodeList)
        es := by
  intro h
  have hvalid : (machine nodeList isOneText localHost).Valid Unrestricted (Pools.boot nodeList)
      (updatedTo "db2") := by decide +kernel
  have hlast := always_last (h _ hvalid)
  have hold : ¬InEffect nodeList ((machine nodeList isOneText localHost).exec
      (Pools.boot nodeList) (updatedTo "db2")) := by decide +kernel
  exact hold hlast

end DbPools
