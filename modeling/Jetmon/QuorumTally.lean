import Mathlib.Data.List.Basic
import Mathlib.Data.List.Nodup
import Jetmon.TransitionSystem

/-! Counting votes towards a quorum with one counter for each running ballot. A ballot
stays open after the quorum is reached and raises the alarm at every further vote. Votes
are recorded with their voters, which the counters do not see. -/
namespace QuorumTally

open TransitionSystem

variable {V : Type*}

structure Ballot where
  id : ℕ
  yes : ℕ
  deriving DecidableEq, Repr

structure State (V : Type*) where
  limit : ℕ
  next : ℕ
  running : List Ballot
  votes : List (ℕ × V)
  alarms : List ℕ

inductive Event (V : Type*) where
  | call
  | vote (i : ℕ) (voter : V)
  | close (kept : List Ballot)

def Enabled (s : State V) : Event V → Prop
  | .call => True
  | .vote i _ => i < s.running.length
  | .close kept => kept.Sublist s.running

def Ballot.count (b : Ballot) : Ballot := { b with yes := b.yes + 1 }

def next (s : State V) : Event V → State V
  | .call => { s with next := s.next + 1, running := s.running ++ [⟨s.next, 0⟩] }
  | .vote i voter =>
    match s.running[i]? with
    | none => s
    | some b =>
      { s with
        running := s.running.set i b.count
        votes := s.votes ++ [(b.id, voter)]
        alarms := if s.limit ≤ b.count.yes then s.alarms ++ [b.id] else s.alarms }
  | .close kept => { s with running := kept }

def empty (limit : ℕ) : State V := ⟨limit, 0, [], [], []⟩

def machine (V : Type*) : Machine (State V) (Event V) :=
  ⟨fun s => ∃ limit, 0 < limit ∧ s = empty limit, Enabled, next⟩

def votesFor (s : State V) (k : ℕ) : ℕ := s.votes.countP fun v => v.1 == k

def votersOf (s : State V) (k : ℕ) : List V := (s.votes.filter fun v => v.1 == k).map Prod.snd

theorem length_votersOf (s : State V) (k : ℕ) : (votersOf s k).length = votesFor s k := by
  rw [votersOf, List.length_map, votesFor, List.countP_eq_length_filter]

theorem mem_votersOf {s : State V} {k : ℕ} {v : V} : v ∈ votersOf s k ↔ (k, v) ∈ s.votes := by
  constructor
  · intro h
    obtain ⟨⟨i, u⟩, hm, rfl⟩ := List.mem_map.mp h
    obtain ⟨hm, hi⟩ := List.mem_filter.mp hm
    rwa [← beq_iff_eq.mp hi]
  · intro h
    exact List.mem_map.mpr ⟨(k, v), List.mem_filter.mpr ⟨h, by simp⟩, rfl⟩

structure Invariant (s : State V) : Prop where
  limit_pos : 0 < s.limit
  id_lt : ∀ b ∈ s.running, b.id < s.next
  id_nodup : (s.running.map Ballot.id).Nodup
  voted_lt : ∀ v ∈ s.votes, v.1 < s.next
  tally : ∀ b ∈ s.running, b.yes = votesFor s b.id
  alarmed : ∀ k, s.alarms.count k = votesFor s k + 1 - s.limit

theorem empty_invariant {limit : ℕ} (h : 0 < limit) : Invariant (empty limit : State V) := by
  refine ⟨h, ?_, List.nodup_nil, ?_, ?_, ?_⟩
  · simp [empty]
  · simp [empty]
  · simp [empty]
  · intro k
    simp only [empty, votesFor, List.count_nil, List.countP_nil]
    omega

theorem votesFor_append (s : State V) (i k : ℕ) (voter : V) :
    (s.votes ++ [(i, voter)]).countP (fun v => v.1 == k) =
      votesFor s k + if i = k then 1 else 0 := by
  rw [List.countP_append, List.countP_singleton]
  simp [votesFor]

theorem votesFor_next {s : State V} (h : Invariant s) : votesFor s s.next = 0 := by
  rw [votesFor, List.countP_eq_zero]
  intro v hv heq
  have := h.voted_lt v hv
  rw [beq_iff_eq.mp heq] at this
  exact absurd this (Nat.lt_irrefl _)

theorem mem_set_of_nodup {bs : List Ballot} {i : ℕ} {b b' : Ballot}
    (hn : (bs.map Ballot.id).Nodup) (hi : bs[i]? = some b) {c : Ballot} (hc : c ∈ bs.set i b') :
    c = b' ∨ (c ∈ bs ∧ c.id ≠ b.id) := by
  obtain ⟨j, hj⟩ := List.mem_iff_getElem?.mp hc
  have hlt := (List.getElem?_eq_some_iff.mp hi).1
  by_cases hij : i = j
  · subst hij
    rw [List.getElem?_set_self hlt] at hj
    exact Or.inl (Option.some.inj hj).symm
  · rw [List.getElem?_set_ne hij] at hj
    refine Or.inr ⟨List.mem_of_getElem? hj, fun heq => hij ?_⟩
    have hget : (bs.map Ballot.id)[i]? = (bs.map Ballot.id)[j]? := by
      rw [List.getElem?_map, List.getElem?_map, hi, hj, Option.map_some, Option.map_some, heq]
    exact (List.getElem?_inj (by rwa [List.length_map]) hn).mp hget

theorem map_id_set {bs : List Ballot} {i : ℕ} {b b' : Ballot} (hi : bs[i]? = some b)
    (hid : b'.id = b.id) : (bs.set i b').map Ballot.id = bs.map Ballot.id := by
  obtain ⟨hlt, hb⟩ := List.getElem?_eq_some_iff.mp hi
  have hlt' : i < (bs.map Ballot.id).length := by rwa [List.length_map]
  have hget : (bs.map Ballot.id)[i] = b.id := by rw [List.getElem_map, hb]
  rw [List.map_set, hid, ← hget]
  exact List.set_getElem_self hlt'

theorem alarmed_vote {s : State V} (h : Invariant s) {i : ℕ} {b : Ballot}
    (hb : s.running[i]? = some b) (voter : V) (k : ℕ) :
    (next s (.vote i voter)).alarms.count k =
      votesFor (next s (.vote i voter)) k + 1 - s.limit := by
  have hk := h.alarmed k
  have hyes : b.count.yes = votesFor s b.id + 1 :=
    congrArg (· + 1) (h.tally b (List.mem_of_getElem? hb))
  have hvotes : votesFor (next s (.vote i voter)) k = votesFor s k + if b.id = k then 1 else 0 := by
    simp only [next, hb, votesFor]
    exact votesFor_append s b.id k voter
  rw [hvotes]
  simp only [next, hb, hyes]
  by_cases hid : b.id = k
  · subst hid
    by_cases hlim : s.limit ≤ votesFor s b.id + 1
    · rw [if_pos hlim, if_pos rfl, List.count_append, List.count_singleton_self]
      omega
    · rw [if_neg hlim, if_pos rfl]
      omega
  · have hcount : (s.alarms ++ [b.id]).count k = s.alarms.count k := by
      rw [List.count_append, List.count_singleton, if_neg (by simpa using hid), Nat.add_zero]
    rw [if_neg hid]
    split
    · rw [hcount]
      omega
    · omega

theorem step_preserves_invariant {s : State V} {e : Event V} (h : Invariant s)
    (he : Enabled s e) : Invariant (next s e) := by
  have hv₀ := votesFor_next h
  obtain ⟨hpos, hlt, hn, hvl, ht, ha⟩ := h
  cases e with
  | call =>
    refine ⟨hpos, ?_, ?_, ?_, ?_, ha⟩
    · intro b hb
      rcases List.mem_append.mp hb with hb | hb
      · exact Nat.lt_succ_of_lt (hlt b hb)
      · rw [List.mem_singleton.mp hb]
        exact Nat.lt_succ_self _
    · simp only [next, List.map_append, List.nodup_append']
      refine ⟨hn, List.nodup_singleton _, ?_⟩
      intro i hi hs
      obtain ⟨b, hb, rfl⟩ := List.mem_map.mp hi
      have := hlt b hb
      simp only [List.map_cons, List.map_nil, List.mem_singleton] at hs
      omega
    · exact fun v hv => Nat.lt_succ_of_lt (hvl v hv)
    · intro b hb
      rcases List.mem_append.mp hb with hb | hb
      · exact ht b hb
      · rw [List.mem_singleton.mp hb]
        exact hv₀.symm
  | vote i voter =>
    obtain ⟨b, hb⟩ : ∃ b, s.running[i]? = some b := ⟨_, List.getElem?_eq_getElem he⟩
    have hmem := List.mem_of_getElem? hb
    have halarm := alarmed_vote ⟨hpos, hlt, hn, hvl, ht, ha⟩ hb voter
    have hcases : ∀ c ∈ s.running.set i b.count, c = b.count ∨ (c ∈ s.running ∧ c.id ≠ b.id) :=
      fun c hc => mem_set_of_nodup hn hb hc
    simp only [next, hb] at halarm ⊢
    refine ⟨hpos, ?_, ?_, ?_, ?_, halarm⟩
    · intro c hc
      rcases hcases c hc with rfl | ⟨hc, _⟩
      · exact hlt b hmem
      · exact hlt c hc
    · have hid : (s.running.set i b.count).map Ballot.id = s.running.map Ballot.id :=
        map_id_set hb rfl
      exact hid ▸ hn
    · intro v hv
      rcases List.mem_append.mp hv with hv | hv
      · exact hvl v hv
      · rw [List.mem_singleton.mp hv]
        exact hlt b hmem
    · intro c hc
      rw [votesFor, votesFor_append]
      rcases hcases c hc with rfl | ⟨hc, hne⟩
      · simp [Ballot.count, ht b hmem]
      · rw [if_neg (Ne.symm hne)]
        exact ht c hc
  | close kept =>
    exact ⟨hpos, fun b hb => hlt b (he.subset hb), hn.sublist (he.map Ballot.id), hvl,
      fun b hb => ht b (he.subset hb), ha⟩

theorem reachable_tally {C : State V → Event V → Prop} {s : State V}
    (hr : Reachable (machine V) C s) : Invariant s := by
  refine reachable_invariant ?_ ?_ hr
  · rintro s ⟨limit, hpos, rfl⟩
    exact empty_invariant hpos
  · intro s e _ hi he _
    exact step_preserves_invariant hi he

/-- The quorum was reached whenever the alarm was raised. -/
theorem quorum_of_alarm {s : State V} (h : Invariant s) {k : ℕ} (hk : k ∈ s.alarms) :
    s.limit ≤ votesFor s k := by
  have hpos := List.count_pos_iff.mpr hk
  rw [h.alarmed k] at hpos
  omega

/-- One alarm for each ballot that reaches the quorum, and no other: the ballots that
get no vote beyond it. -/
theorem alarm_once_iff {s : State V} (h : Invariant s) (k : ℕ) :
    s.alarms.count k = (if s.limit ≤ votesFor s k then 1 else 0) ↔ votesFor s k ≤ s.limit := by
  have hpos := h.limit_pos
  rw [h.alarmed k]
  split <;> omega

/-- No voter is counted twice for one ballot. -/
def Once (s : State V) : Event V → Prop
  | .vote i voter => ∀ b ∈ s.running[i]?, (b.id, voter) ∉ s.votes
  | _ => True

theorem step_preserves_nodup {s : State V} {e : Event V} (h : s.votes.Nodup) (ho : Once s e) :
    (next s e).votes.Nodup := by
  cases e with
  | call => exact h
  | close kept => exact h
  | vote i voter =>
    cases hb : s.running[i]? with
    | none => simpa only [next, hb] using h
    | some b =>
      simp only [next, hb, List.nodup_append']
      refine ⟨h, List.nodup_singleton _, ?_⟩
      intro v hv hs
      rw [List.mem_singleton.mp hs] at hv
      exact ho b hb hv

theorem votersOf_nodup {s : State V} (h : s.votes.Nodup) (k : ℕ) : (votersOf s k).Nodup := by
  refine List.Nodup.map_on ?_ (h.filter _)
  rintro ⟨i, v⟩ hi ⟨j, u⟩ hj rfl
  have hi' := beq_iff_eq.mp (List.mem_filter.mp hi).2
  have hj' := beq_iff_eq.mp (List.mem_filter.mp hj).2
  exact Prod.ext (hi'.trans hj'.symm) rfl

end QuorumTally
