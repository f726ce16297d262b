import Jetmon.QueryConnections

/-! The connections that queries have, and the servers they belong to: the books of the package
agree with the program, a node has at most five open connections, and all nodes are in the data
set misc. -/
namespace QueryConnections

open TransitionSystem
open DbConfigFile
open DbPools hiding Event machine next

variable {κ ρ : Type*} {L : Library κ} {nodes : κ → List Node} {serves : String → String → Bool}
  {isOne : Text → Bool} {hostname : Text} {s : Database κ ρ} {e : Event ρ} {es : List (Event ρ)}
  {k : ℕ} {c : Connection}

def Database.inUse (s : Database κ ρ) : List Connection :=
  s.queries.filterMap fun q => q.phase.connection

def Phase.kept : Phase → Option Connection
  | .ended kept => kept
  | .slave _ | .failover _ | .running _ => none

def Database.busy (s : Database κ ρ) : List Connection :=
  s.queries.filterMap fun q => if q.phase.isRunning then q.phase.connection else none

def Database.lost (s : Database κ ρ) : List Connection := s.queries.filterMap fun q => q.phase.kept

theorem inUse_perm (s : Database κ ρ) : s.inUse.Perm (s.busy ++ s.lost) := by
  unfold Database.inUse Database.busy Database.lost
  induction s.queries with
  | nil => exact List.Perm.refl _
  | cons q queries ih =>
    cases hp : q.phase with
    | slave r =>
      simpa [List.filterMap_cons, hp, Phase.connection, Phase.isRunning, Phase.kept] using ih
    | failover r =>
      simpa [List.filterMap_cons, hp, Phase.connection, Phase.isRunning, Phase.kept] using ih
    | running c =>
      simpa [List.filterMap_cons, hp, Phase.connection, Phase.isRunning, Phase.kept] using ih
    | ended kept =>
      cases kept with
      | none =>
        simpa [List.filterMap_cons, hp, Phase.connection, Phase.isRunning, Phase.kept] using ih
      | some c =>
        simp only [List.filterMap_cons, hp, Phase.connection, Phase.isRunning, Phase.kept]
        exact (ih.cons c).trans List.perm_middle.symm

theorem perm_filterMap {α β : Type*} (f : α → Option β) (front : List α) (a : α) (back : List α) :
    ((front ++ a :: back).filterMap f).Perm ((f a).toList ++ (front ++ back).filterMap f) := by
  rw [List.filterMap_append, List.filterMap_cons, List.filterMap_append]
  cases f a with
  | none => exact List.Perm.refl _
  | some b => exact List.perm_middle

theorem put_filterMap {β : Type*} (f : Phase → Option β) {q : Query}
    (hq : s.queries[k]? = some q) (phase : Phase) :
    ∃ rest, (s.queries.filterMap fun q => f q.phase).Perm ((f q.phase).toList ++ rest) ∧
      ((s.put k phase).queries.filterMap fun q => f q.phase).Perm ((f phase).toList ++ rest) := by
  obtain ⟨hk, hget⟩ := List.getElem?_eq_some_iff.mp hq
  obtain ⟨front, q', back, hold, hlength, hnew⟩ :=
    List.exists_of_modify (fun q => { q with phase := phase }) hk
  have hsame : q' = q := by
    rw [hold, ← hlength, List.getElem?_append_right le_rfl, Nat.sub_self] at hq
    exact Option.some.inj hq
  subst hsame
  refine ⟨(front ++ back).filterMap fun q => f q.phase, ?_, ?_⟩
  · rw [hold]
    exact perm_filterMap _ front q' back
  · rw [Database.put, hnew]
    exact perm_filterMap _ front { q' with phase := phase } back

structure Lent (s : Database κ ρ) : Prop where
  book : s.out.Perm s.inUse
  single : s.inUse.Nodup
  balance : (s.sent.map Prod.snd).Perm (s.released ++ s.inUse)
  opened : s.live ⊆ s.sent.map Prod.snd
  apart : s.live.Nodup
  limited : ∀ pool, s.openAt pool ≤ 5

theorem Lent.congr {t : Database κ ρ} (h : Lent s) (hinUse : t.inUse.Perm s.inUse)
    (hsent : t.sent = s.sent) (hreleased : t.released = s.released) (hlive : t.live = s.live)
    (hout : t.out = s.out) : Lent t where
  book := hout ▸ h.book.trans hinUse.symm
  single := hinUse.symm.nodup h.single
  balance := by
    rw [hsent, hreleased]
    exact h.balance.trans (hinUse.symm.append_left _)
  opened := by
    rw [hlive, hsent]
    exact h.opened
  apart := hlive ▸ h.apart
  limited := by
    intro pool
    rw [Database.openAt, hlive]
    exact h.limited pool

theorem Lent.refused (h : Lent s) (err : String) : Lent (s.refuse k err) := by
  have hput : ∀ {q : Query} {phase : Phase}, s.queries[k]? = some q →
      q.phase.connection = none → phase.connection = none →
        (s.put k phase).inUse.Perm s.inUse := by
    intro q phase hq hnone hnone'
    obtain ⟨rest, hold, hnew⟩ := put_filterMap Phase.connection hq phase
    rw [hnone] at hold
    rw [hnone'] at hnew
    exact hnew.trans hold.symm
  unfold Database.refuse
  split
  · rename_i sqlQuery r hq
    exact h.congr (hput hq rfl rfl) rfl rfl rfl rfl
  · rename_i sqlQuery r hq
    exact h.congr (hput hq rfl rfl) rfl rfl rfl rfl
  · exact h

theorem request_connection {phase : Phase} {r : ℕ} (h : phase.request = some r) :
    phase.connection = none := by
  cases phase with
  | slave _ => rfl
  | failover _ => rfl
  | running _ => contradiction
  | ended _ => contradiction

theorem openAt_cons (c : Connection) (pool : ℕ × String) :
    ({ s with live := c :: s.live } : Database κ ρ).openAt pool =
      s.openAt pool + if c.pool = pool then 1 else 0 := by
  rw [Database.openAt, List.countP_cons, Database.openAt]
  simp

theorem Lent.connected (h : Lent s) {q : Query} {r : ℕ} {request : ℕ × String}
    (hq : s.queries[k]? = some q) (hr : q.phase.request = some r)
    (hlends : Lends L nodes serves s request c)
    (hlimit : ∀ n ∈ nodes (s.pools.clusters[c.cluster]?.getD L.createPoolCluster),
      n.config.connectionLimit = 5) : Lent (s.connect k c) := by
  obtain ⟨rest, hold, hnew⟩ := put_filterMap Phase.connection hq (.running c)
  rw [request_connection hr] at hold
  have hinUse : (s.connect k c).inUse.Perm (c :: s.inUse) := hnew.trans (hold.symm.cons c)
  have hfree : c ∉ s.inUse := fun hc => hlends.free (h.book.mem_iff.mpr hc)
  have hsent : (s.connect k c).sent.map Prod.snd = s.sent.map Prod.snd ++ [c] :=
    List.map_append
  constructor
  · exact (h.book.cons c).trans hinUse.symm
  · exact hinUse.symm.nodup (List.nodup_cons.mpr ⟨hfree, h.single⟩)
  · rw [hsent]
    exact (List.perm_append_singleton c _).trans
      ((h.balance.cons c).trans (List.perm_middle.symm.trans (hinUse.symm.append_left _)))
  · rw [hsent]
    intro d hd
    simp only [Database.connect] at hd
    split at hd
    · exact List.mem_append_left _ (h.opened hd)
    · obtain rfl | hd := List.mem_cons.mp hd
      · exact List.mem_append_right _ (List.mem_singleton_self d)
      · exact List.mem_append_left _ (h.opened hd)
  · simp only [Database.connect]
    split
    · exact h.apart
    · rename_i hc
      exact List.nodup_cons.mpr ⟨hc, h.apart⟩
  · intro pool
    rw [Database.openAt]
    simp only [Database.connect]
    split
    · exact h.limited pool
    · rename_i hc
      obtain ⟨-, n, hn, -, hfew⟩ := hlends.opened.resolve_left hc
      rw [hlimit n hn] at hfew
      have hcount := openAt_cons (s := s) c pool
      rw [Database.openAt] at hcount
      rw [hcount]
      have hle := h.limited pool
      split
      · rename_i hpool
        rw [hpool] at hfew
        omega
      · omega

theorem Lent.answered (h : Lent s) {error : Option String} {rows : ρ} {throws : Bool} :
    Lent (s.conclude k error rows throws) := by
  unfold Database.conclude
  split
  · rename_i sqlQuery c hq
    cases throws with
    | false =>
      obtain ⟨rest, hold, hnew⟩ := put_filterMap Phase.connection hq (.ended none)
      have hinUse : s.inUse.Perm (c :: (s.put k (.ended none)).inUse) :=
        hold.trans (hnew.symm.cons c)
      constructor
      · have herase := (h.book.trans hinUse).erase c
        rwa [List.erase_cons_head] at herase
      · exact (List.nodup_cons.mp (hinUse.nodup h.single)).2
      · refine h.balance.trans ?_
        change (s.released ++ s.inUse).Perm ((s.released ++ [c]) ++ (s.put k (.ended none)).inUse)
        rw [List.append_assoc]
        exact hinUse.append_left _
      · exact h.opened
      · exact h.apart
      · exact h.limited
    | true =>
      obtain ⟨rest, hold, hnew⟩ := put_filterMap Phase.connection hq (.ended (some c))
      exact h.congr (hnew.trans hold.symm) rfl rfl rfl rfl
  · exact h

theorem Lent.closed (h : Lent s) (c : Connection) :
    Lent { s with live := s.live.erase c } where
  book := h.book
  single := h.single
  balance := h.balance
  opened := fun _ hd => h.opened (List.mem_of_mem_erase hd)
  apart := h.apart.erase c
  limited := fun pool => (List.erase_sublist.countP_le).trans (h.limited pool)

structure Misc (n : Node) : Prop where
  name : "MISC_".toList <+: n.name.toList
  limit : n.config.connectionLimit = 5

theorem addServer_misc (settings : List Text) {p : Load} (h : ∀ n ∈ p.nodes, Misc n) :
    ∀ n ∈ (addServer isOne hostname settings p).nodes, Misc n := by
  have hadd : ∀ n, Misc n → ∀ m ∈ p.nodes ++ [n], Misc m := by
    intro n hn m hm
    obtain hm | hm := List.mem_append.mp hm
    · exact h m hm
    · exact List.mem_singleton.mp hm ▸ hn
  have hname : ∀ server number : String,
      "MISC_".toList <+: ("MISC_" ++ server ++ number).toList := by
    intro server number
    rw [String.append_assoc, String.toList_append]
    exact List.prefix_append _ _
  unfold addServer
  split
  · have hmaster : "MISC_".toList <+: "MISC_MASTER".toList := by decide
    exact hadd _ ⟨hmaster, rfl⟩
  · dsimp only
    split
    · exact h
    · split
      · exact hadd _ ⟨hname "SLAVE" _, rfl⟩
      · split
        · exact hadd _ ⟨hname "FAILOVER" _, rfl⟩
        · exact h

theorem loadLine_misc (line : Text) {p : Load} (h : ∀ n ∈ p.nodes, Misc n) :
    ∀ n ∈ (loadLine isOne hostname p line).nodes, Misc n := by
  unfold loadLine
  split
  · exact h
  · dsimp only
    split
    · exact h
    · split
      · exact h
      · split
        · exact h
        · exact addServer_misc _ h

theorem load_misc (data : Text) : ∀ n ∈ (load isOne hostname data).nodes, Misc n := by
  have hfold : ∀ (lines : List Text) (p : Load), (∀ n ∈ p.nodes, Misc n) →
      ∀ n ∈ (lines.foldl (loadLine isOne hostname) p).nodes, Misc n := by
    intro lines
    induction lines with
    | nil => exact fun p h => h
    | cons line lines ih => exact fun p h => ih _ (loadLine_misc line h)
  exact hfold _ _ fun n hn => absurd hn List.not_mem_nil

def AllMisc (nodes : κ → List Node) (p : Pools κ) : Prop :=
  ∀ cluster ∈ p.clusters, ∀ n ∈ nodes cluster, Misc n

theorem foldl_misc (hmysql : Mysql L nodes serves) {added : List Node} (h : ∀ n ∈ added, Misc n)
    {cluster : κ} (hc : ∀ n ∈ nodes cluster, Misc n) :
    ∀ n ∈ nodes (added.foldl L.add cluster), Misc n := by
  induction added generalizing cluster with
  | nil => exact hc
  | cons m added ih =>
    obtain ⟨hm, hadded⟩ := List.forall_mem_cons.mp h
    apply ih hadded
    intro n hn
    exact List.forall_mem_cons.mpr ⟨hm, hc⟩ n (hmysql.added cluster m hn)

theorem pools_load_misc (hmysql : Mysql L nodes serves) {p : Pools κ} (h : AllMisc nodes p)
    (data : Text) : AllMisc nodes (p.load L isOne hostname data).2 := by
  intro cluster hcluster
  obtain ⟨i, hi⟩ := List.getElem?_of_mem hcluster
  simp only [Pools.load, List.getElem?_modify, Option.map_eq_map, Option.map_eq_some_iff] at hi
  obtain ⟨old, hold, rfl⟩ := hi
  have hmisc := h old (List.mem_of_getElem? hold)
  split
  · exact foldl_misc hmysql (load_misc data) hmisc
  · exact hmisc

theorem pools_reload_misc (hmysql : Mysql L nodes serves) {p : Pools κ} (h : AllMisc nodes p)
    (data : Text) : AllMisc nodes (p.reload L isOne hostname data) := by
  apply pools_load_misc hmysql
  intro cluster hcluster
  obtain hcluster | hcluster := List.mem_append.mp hcluster
  · exact h cluster hcluster
  · rw [List.mem_singleton.mp hcluster, hmysql.created]
    exact fun n hn => absurd hn List.not_mem_nil

theorem reloadIfUpdated_misc (hmysql : Mysql L nodes serves) {p : Pools κ} (h : AllMisc nodes p)
    (data : Text) : AllMisc nodes (p.reloadIfUpdated L isOne hostname data) := by
  unfold Pools.reloadIfUpdated
  split
  · exact pools_reload_misc hmysql h data
  · exact h

theorem pools_next_misc (hmysql : Mysql L nodes serves) {p : Pools κ} (h : AllMisc nodes p)
    (e : DbPools.Event) : AllMisc nodes (DbPools.next L isOne hostname p e) := by
  cases e with
  | load data => exact pools_load_misc hmysql h data
  | reload data => exact pools_reload_misc hmysql h data
  | updateConfig => exact h
  | execQuery sqlQuery data => exact reloadIfUpdated_misc hmysql h data
  | commitUpdates data =>
    simp only [DbPools.next, Pools.commitUpdates]
    split
    · exact h
    · exact reloadIfUpdated_misc hmysql h data

theorem cluster_misc (hmysql : Mysql L nodes serves) {p : Pools κ} (h : AllMisc nodes p) (i : ℕ) :
    ∀ n ∈ nodes (p.clusters[i]?.getD L.createPoolCluster), Misc n := by
  cases hget : p.clusters[i]? with
  | none =>
    rw [Option.getD_none, hmysql.created]
    exact fun n hn => absurd hn List.not_mem_nil
  | some cluster => exact h cluster (List.mem_of_getElem? hget)

structure Sound (nodes : κ → List Node) (s : Database κ ρ) : Prop where
  lent : Lent s
  nodes : AllMisc nodes s.pools
  misc : ∀ c ∈ s.sent.map Prod.snd, "MISC_".toList <+: c.node.toList

theorem initial_sound (hmysql : Mysql L nodes serves) :
    Sound nodes (initial L : Database κ ρ) where
  lent := ⟨.refl _, .nil, .refl _, fun _ h => h, .nil, fun _ => Nat.zero_le 5⟩
  nodes := by
    intro cluster hcluster
    rw [List.mem_singleton.mp hcluster, hmysql.created]
    exact fun n hn => absurd hn List.not_mem_nil
  misc := fun _ hc => absurd hc List.not_mem_nil

theorem Sound.unsent {t : Database κ ρ} (h : Sound nodes s) (hlent : Lent t)
    (hnodes : AllMisc nodes t.pools) (hsent : t.sent = s.sent) : Sound nodes t :=
  ⟨hlent, hnodes, hsent ▸ h.misc⟩

theorem refuse_pools (s : Database κ ρ) (k : ℕ) (err : String) :
    (s.refuse k err).pools.clusters = s.pools.clusters ∧ (s.refuse k err).sent = s.sent := by
  unfold Database.refuse
  split <;> exact ⟨rfl, rfl⟩

theorem conclude_pools (s : Database κ ρ) (k : ℕ) (error : Option String) (rows : ρ)
    (throws : Bool) : (s.conclude k error rows throws).pools = s.pools ∧
      (s.conclude k error rows throws).sent = s.sent := by
  unfold Database.conclude
  split
  · cases throws <;> exact ⟨rfl, rfl⟩
  · exact ⟨rfl, rfl⟩

theorem Sound.connected (hmysql : Mysql L nodes serves) (h : Sound nodes s)
    (hlend : Lending L nodes serves s (.connected k c)) : Sound nodes (s.connect k c) := by
  obtain ⟨q, hq, r, hr, request, -, hlends⟩ := hlend
  have hcluster := cluster_misc hmysql h.nodes c.cluster
  refine ⟨h.lent.connected hq hr hlends fun n hn => (hcluster n hn).limit, h.nodes, ?_⟩
  intro d hd
  have hsent : (s.connect k c).sent.map Prod.snd = s.sent.map Prod.snd ++ [c] :=
    List.map_append
  rw [hsent] at hd
  obtain hd | hd := List.mem_append.mp hd
  · exact h.misc d hd
  · rw [List.mem_singleton.mp hd]
    obtain hlive | ⟨-, n, hn, hname, -⟩ := hlends.opened
    · exact h.misc c (h.lent.opened hlive)
    · exact hname ▸ (hcluster n hn).name

theorem Sound.next (hmysql : Mysql L nodes serves) (h : Sound nodes s)
    (hlend : Lending L nodes serves s e) :
    Sound nodes (QueryConnections.next L isOne hostname s e) := by
  cases e with
  | configure d =>
    exact h.unsent (h.lent.congr (.refl _) rfl rfl rfl rfl) (pools_next_misc hmysql h.nodes d) rfl
  | execQuery sqlQuery data =>
    have hinUse : s.inUse ++ [] = s.inUse := List.append_nil _
    refine h.unsent (h.lent.congr ?_ rfl rfl rfl rfl)
      (pools_next_misc hmysql h.nodes (.execQuery sqlQuery data)) rfl
    change (List.filterMap _ (s.queries ++ [_])).Perm _
    rw [List.filterMap_append]
    exact List.Perm.of_eq hinUse
  | refused k err =>
    obtain ⟨hclusters, hsent⟩ := refuse_pools s k err
    exact h.unsent (h.lent.refused err) (fun cluster hc => h.nodes cluster (hclusters ▸ hc)) hsent
  | connected k c => exact h.connected hmysql hlend
  | answered k error rows throws =>
    obtain ⟨hpools, hsent⟩ := conclude_pools s k error rows throws
    exact h.unsent h.lent.answered (hpools ▸ h.nodes) hsent
  | closed c => exact h.unsent (h.lent.closed c) h.nodes rfl

theorem exec_sound (hmysql : Mysql L nodes serves) (h : Sound nodes s)
    {C : Database κ ρ → Event ρ → Prop} (hC : ∀ s e, C s e → Lending L nodes serves s e)
    (hv : (machine L isOne hostname).Valid C s es) :
    Sound nodes ((machine L isOne hostname).exec s es) := by
  refine exec_invariant ?_ h hv
  intro s e h _ hc
  exact h.next hmysql (hC s e hc)

end QueryConnections
