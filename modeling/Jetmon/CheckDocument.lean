import Jetmon.ClientThread

/-! The documents from which ClientThread::parse_requests makes HealthChecks. A member that is
missing is Undefined, not Null, and isNull is the only test; toInt and toString never fail.
Numbers are left open: `int` gives the integer that a number is. -/
namespace CheckDocument

open CheckController (ThreadIndex)
open ClientThread (QueryType)
open JsonValue

variable {ν : Type*} (int : ν → Option ℤ)

def isNull : Option (Json ν) → Bool
  | some .null => true
  | _ => false

def toString : Option (Json ν) → String
  | some (.str s) => s
  | _ => ""

def toInt : Option (Json ν) → Int32
  | some (.num n) =>
    match int n with
    | some i => if -2 ^ 31 ≤ i ∧ i < 2 ^ 31 then Int32.ofInt i else 0
    | none => 0
  | _ => 0

def toArray : Option (Json ν) → List (Json ν)
  | some (.arr items) => items
  | _ => []

structure HealthCheck where
  blogId : Int32
  monitorUrl : String
  jetmonServer : String
  threadIndex : ThreadIndex
  deriving DecidableEq, Repr

structure Client where
  jetmonServer : String
  checks : List HealthCheck
  errors : List String
  deriving DecidableEq, Repr

def Client.sendError (text : String) (t : Client) : Client :=
  { t with errors := t.errors ++ [text] }

def Client.append (blogId monitorUrl : Option (Json ν)) (t : Client) : Client :=
  { t with checks := t.checks ++
    [⟨toInt int blogId, toString monitorUrl, t.jetmonServer, .notAssigned⟩] }

def Client.parseElement (t : Client) (check : Json ν) : Client :=
  if isNull (check.get "blog_id") then t
  else if isNull (check.get "monitor_url") then t
  else t.append int (check.get "blog_id") (check.get "monitor_url")

/-- ClientThread::parse_requests, and what it returns. -/
def Client.parseRequests (type : QueryType) (document : Json ν) (t : Client) : Client × Bool :=
  if type = .siteStatusCheck then
    if isNull (document.get "blog_id") then (t.sendError "Missing 'blog_id' JSON value.", false)
    else if isNull (document.get "monitor_url") then
      (t.sendError "Missing 'monitor_url' JSON value.", false)
    else (t.append int (document.get "blog_id") (document.get "monitor_url"), true)
  else
    let jArr := toArray (document.get "checks")
    if jArr.isEmpty then (t.sendError "Missing 'checks' JSON array.", false)
    else (jArr.foldl (Client.parseElement int) t, true)

/-- The end of readRequest for a document that was received. -/
def Client.readDocument (type : QueryType) (document : Json ν) (t : Client) : Client × Bool :=
  if toString (document.get "auth_token") = "" then
    (t.sendError "Missing 'auth_token' JSON value.", false)
  else t.parseRequests int type document

def described (type : QueryType) (document : Json ν) : List (Json ν) :=
  if type = .siteStatusCheck then [document] else toArray (document.get "checks")

def wanted (check : Json ν) : Option (Json ν × Json ν) :=
  match check.get "blog_id", check.get "monitor_url" with
  | some .null, _ | _, some .null | none, _ | _, none => none
  | some blogId, some monitorUrl => some (blogId, monitorUrl)

def Carries (hc : HealthCheck) (members : Json ν × Json ν) : Prop :=
  (∃ n, members.1 = .num n ∧ int n = some hc.blogId.toInt) ∧ members.2 = .str hc.monitorUrl

/-- One HealthCheck is appended for each check that is described, in order, and no other. -/
def AcceptsExactly (type : QueryType) (document : Json ν) (t : Client) : Prop :=
  ∃ new, (t.readDocument int type document).1.checks = t.checks ++ new ∧
    List.Forall₂ (Carries int) new ((described type document).filterMap wanted)

def Typed (check : Json ν) : Prop :=
  (∃ n i, check.get "blog_id" = some (.num n) ∧ int n = some i ∧ -2 ^ 31 ≤ i ∧ i < 2 ^ 31) ∧
    ∃ s, check.get "monitor_url" = some (.str s)

/-- The value is turned down by isNull, or it is a check. -/
def WellFormed (check : Json ν) : Prop :=
  isNull (check.get "blog_id") = true ∨ isNull (check.get "monitor_url") = true ∨ Typed int check

def made (jetmonServer : String) (check : Json ν) : Option HealthCheck :=
  if isNull (check.get "blog_id") = true ∨ isNull (check.get "monitor_url") = true then none
  else some ⟨toInt int (check.get "blog_id"), toString (check.get "monitor_url"), jetmonServer,
    .notAssigned⟩

variable {int}

theorem parseElement_eq (t : Client) (check : Json ν) : t.parseElement int check =
    { t with checks := t.checks ++ (made int t.jetmonServer check).toList } := by
  unfold Client.parseElement made
  by_cases hb : isNull (check.get "blog_id") = true
  · simp [hb]
  · by_cases hu : isNull (check.get "monitor_url") = true
    · simp [hb, hu]
    · simp [hb, hu, Client.append]

theorem parseElements_eq (jArr : List (Json ν)) :
    ∀ t : Client, jArr.foldl (Client.parseElement int) t =
    { t with checks := t.checks ++ jArr.filterMap (made int t.jetmonServer) } := by
  induction jArr with
  | nil =>
    intro t
    simp
  | cons check rest ih =>
    intro t
    rw [List.foldl_cons, ih, parseElement_eq]
    cases hm : made int t.jetmonServer check <;> simp [hm]

theorem parseRequests_checks (type : QueryType) (document : Json ν) (t : Client) :
    (t.parseRequests int type document).1.checks =
      t.checks ++ (described type document).filterMap (made int t.jetmonServer) := by
  unfold Client.parseRequests described
  by_cases htype : type = .siteStatusCheck
  · rw [if_pos htype, if_pos htype]
    by_cases hb : isNull (document.get "blog_id") = true
    · simp [hb, made, Client.sendError]
    · by_cases hu : isNull (document.get "monitor_url") = true
      · simp [hb, hu, made, Client.sendError]
      · simp [hb, hu, made, Client.append]
  · rw [if_neg htype, if_neg htype]
    dsimp only
    by_cases hnil : toArray (document.get "checks") = []
    · simp [hnil, Client.sendError]
    · rw [if_neg (by simpa using hnil), parseElements_eq]

theorem forall₂_filterMap_iff {α β γ : Type*} {R : β → γ → Prop} {f : α → Option β}
    {g : α → Option γ} (h : ∀ a, f a = none → g a = none) (xs : List α) :
    List.Forall₂ R (xs.filterMap f) (xs.filterMap g) ↔ ∀ a ∈ xs, Option.Rel R (f a) (g a) := by
  have hle : ∀ xs : List α, (xs.filterMap g).length ≤ (xs.filterMap f).length := by
    intro xs
    induction xs with
    | nil => exact Nat.le_refl 0
    | cons a rest ih =>
      cases hf : f a with
      | none => rw [List.filterMap_cons_none hf, List.filterMap_cons_none (h a hf)]; exact ih
      | some b =>
        cases hg : g a with
        | none =>
          rw [List.filterMap_cons_some hf, List.filterMap_cons_none hg]
          exact ih.trans (Nat.le_succ _)
        | some c =>
          rw [List.filterMap_cons_some hf, List.filterMap_cons_some hg]
          exact Nat.succ_le_succ ih
  induction xs with
  | nil => simp
  | cons a rest ih =>
    refine Iff.trans ?_ (List.forall_mem_cons.trans (and_congr_right' ih.symm)).symm
    cases hf : f a with
    | none =>
      rw [List.filterMap_cons_none hf, List.filterMap_cons_none (h a hf), h a hf,
        and_iff_right Option.Rel.none]
    | some b =>
      cases hg : g a with
      | none =>
        -- one result too many
        rw [List.filterMap_cons_some hf, List.filterMap_cons_none hg]
        refine iff_of_false (fun hmatch => ?_) (fun hmatch => nomatch hmatch.1)
        have hlen := hmatch.length_eq
        have hbound := hle rest
        rw [List.length_cons] at hlen
        omega
      | some c =>
        rw [List.filterMap_cons_some hf, List.filterMap_cons_some hg, List.forall₂_cons]
        refine and_congr_left fun _ => ⟨.some, fun hrel => ?_⟩
        cases hrel
        assumption

theorem isNull_iff {v : Option (Json ν)} : isNull v = true ↔ v = some .null := by
  cases v with
  | none => simp [isNull]
  | some v => cases v <;> simp [isNull]

theorem wanted_of_made {jetmonServer : String} {check : Json ν}
    (h : made int jetmonServer check = none) : wanted check = none := by
  unfold made at h
  split at h
  · rename_i hnull
    rw [isNull_iff, isNull_iff] at hnull
    unfold wanted
    rcases hnull with hb | hu
    · rw [hb]
    · rw [hu]
      cases check.get "blog_id" with
      | none => rfl
      | some blogId => cases blogId <;> rfl
  · contradiction

theorem wanted_iff {check blogId monitorUrl : Json ν} : wanted check = some (blogId, monitorUrl) ↔
    check.get "blog_id" = some blogId ∧ check.get "monitor_url" = some monitorUrl ∧
      isNull (some blogId) = false ∧ isNull (some monitorUrl) = false := by
  unfold wanted
  cases check.get "blog_id" with
  | none => cases check.get "monitor_url" with
    | none => simp
    | some u => cases u <;> simp
  | some b =>
    cases check.get "monitor_url" with
    | none => cases b <;> simp
    | some u => cases b <;> cases u <;> simp [isNull] <;> grind

theorem toInt_carries {v : Json ν} : (∃ n, v = .num n ∧ int n = some (toInt int (some v)).toInt) ↔
    ∃ n i, v = .num n ∧ int n = some i ∧ -2 ^ 31 ≤ i ∧ i < 2 ^ 31 := by
  constructor
  · rintro ⟨n, rfl, hn⟩
    refine ⟨n, _, rfl, hn, ?_, ?_⟩
    · exact Int32.le_toInt _
    · exact Int32.toInt_lt _
  · rintro ⟨n, i, rfl, hn, hge, hlt⟩
    refine ⟨n, rfl, ?_⟩
    rw [toInt, hn]
    dsimp only
    rw [if_pos ⟨hge, hlt⟩, Int32.toInt_ofInt_of_le hge hlt]

theorem toString_carries {v : Json ν} : v = .str (toString (some v)) ↔ ∃ s, v = .str s := by
  constructor
  · exact fun h => ⟨_, h⟩
  · rintro ⟨s, rfl⟩
    rfl

theorem wanted_missing {check : Json ν}
    (h : check.get "blog_id" = none ∨ check.get "monitor_url" = none) : wanted check = none := by
  cases hw : wanted check with
  | none => rfl
  | some members =>
    obtain ⟨hb, hu, -⟩ := wanted_iff.mp hw
    rw [hb, hu] at h
    rcases h with h | h <;> contradiction

theorem carries_iff {check : Json ν} (jetmonServer : String) :
    Option.Rel (Carries int) (made int jetmonServer check) (wanted check) ↔
      WellFormed int check := by
  by_cases hnull : isNull (check.get "blog_id") = true ∨ isNull (check.get "monitor_url") = true
  · have hmade : made int jetmonServer check = none := if_pos hnull
    rw [hmade, wanted_of_made hmade]
    apply iff_of_true .none
    exact hnull.elim Or.inl fun hu => Or.inr (Or.inl hu)
  · have hmade : made int jetmonServer check = some _ := if_neg hnull
    obtain ⟨hb, hu⟩ := not_or.mp hnull
    have hform : WellFormed int check ↔ Typed int check := by
      simp [WellFormed, hb, hu]
    have hextra : wanted check = none →
        ¬Option.Rel (Carries int) (made int jetmonServer check) (wanted check) := by
      intro hw h
      rw [hmade, hw] at h
      contradiction
    rw [hform]
    cases hblog : check.get "blog_id" with
    | none =>
      refine iff_of_false (hextra (wanted_missing (Or.inl hblog))) ?_
      rintro ⟨⟨n, i, hn, -⟩, -⟩
      rw [hblog] at hn
      contradiction
    | some blogId =>
      cases hurl : check.get "monitor_url" with
      | none =>
        refine iff_of_false (hextra (wanted_missing (Or.inr hurl))) ?_
        rintro ⟨-, s, hs⟩
        rw [hurl] at hs
        contradiction
      | some monitorUrl =>
        rw [hblog, Bool.not_eq_true] at hb
        rw [hurl, Bool.not_eq_true] at hu
        have hwanted := wanted_iff.mpr ⟨hblog, hurl, hb, hu⟩
        rw [hmade, hwanted, Typed, hblog, hurl]
        have hcarries : Carries int ⟨toInt int (some blogId), toString (some monitorUrl),
            jetmonServer, .notAssigned⟩ (blogId, monitorUrl) ↔
            (∃ n i, blogId = .num n ∧ int n = some i ∧ -2 ^ 31 ≤ i ∧ i < 2 ^ 31) ∧
              ∃ s, monitorUrl = .str s := and_congr toInt_carries toString_carries
        simp only [Option.some.injEq, ← hcarries]
        constructor
        · intro h
          cases h
          assumption
        · exact .some

/-- The veriflier accepts exactly the checks of a document if and only if each value that may
describe a check has a Null as blog_id or monitor_url, or is a check. -/
theorem accepts_exactly_iff (int : ν → Option ℤ) (type : QueryType) (document : Json ν) (t : Client)
    (htoken : toString (document.get "auth_token") ≠ "") :
    AcceptsExactly int type document t ↔ ∀ check ∈ described type document,
      WellFormed int check := by
  have hread : (t.readDocument int type document).1.checks =
      t.checks ++ (described type document).filterMap (made int t.jetmonServer) := by
    rw [Client.readDocument, if_neg htoken, parseRequests_checks]
  have hlist :=
    forall₂_filterMap_iff (R := Carries int) (f := made int t.jetmonServer) (g := wanted)
    (fun _ h => wanted_of_made h) (described type document)
  rw [AcceptsExactly, hread]
  refine Iff.trans ?_ (hlist.trans (forall₂_congr fun check _ => carries_iff t.jetmonServer))
  constructor
  · rintro ⟨new, hnew, h⟩
    rwa [List.append_cancel_left hnew]
  · exact fun h => ⟨_, rfl, h⟩

def freshClient : Client := ⟨"192.0.2.1", [], []⟩

/-- One check that is a check, one that isNull turns down. -/
theorem accepts_exactly_iff_two :
    let check : Json ℤ := .obj [("blog_id", .num 7), ("monitor_url", .str "http://example.com")]
    let document : Json ℤ := .obj [("auth_token", .str "token"),
      ("checks", .arr [check, .obj [("blog_id", .null)]])]
    AcceptsExactly some .siteStatusPostCheck document freshClient ↔
      ∀ check ∈ described .siteStatusPostCheck document, WellFormed some check :=
  accepts_exactly_iff some _ _ _ (by decide)

/-- An element that is no object is Undefined in both members, and becomes a check of site 0. -/
theorem number_accepted_as_check :
    ¬∀ (type : QueryType) (document : Json ℤ) (t : Client),
      toString (document.get "auth_token") ≠ "" → AcceptsExactly some type document t := by
  intro h
  obtain ⟨new, hnew, hmatch⟩ := h .siteStatusPostCheck
    (.obj [("auth_token", .str "token"), ("checks", .arr [.num 5])]) freshClient (by decide)
  have hnil : new = [] := List.forall₂_nil_right_iff.mp hmatch
  subst hnil
  exact absurd hnew (by decide)

theorem isNull_eq (v : Option (Json ℤ)) : ClientThread.isNull v = isNull v := by
  cases v with
  | none => rfl
  | some v => cases v <;> rfl

theorem toString_eq (v : Option (Json ℤ)) : ClientThread.toString v = toString v := by
  cases v with
  | none => rfl
  | some v => cases v <;> rfl

theorem toInt_eq (v : Option (Json ℤ)) : ClientThread.toInt v = toInt some v := by
  cases v with
  | none => rfl
  | some v => cases v <;> rfl

theorem toArray_eq (v : Option (Json ℤ)) : ClientThread.toArray v = toArray v := by
  cases v with
  | none => rfl
  | some v => cases v <;> rfl

theorem made_site (jetmonServer : String) (check : Json ℤ) : made some jetmonServer check =
    (ClientThread.parseCheck check).map fun site =>
      ⟨site.1, site.2, jetmonServer, .notAssigned⟩ := by
  unfold made ClientThread.parseCheck
  simp only [isNull_eq, toInt_eq, toString_eq]
  by_cases hb : isNull (check.get "blog_id") = true
  · simp [hb]
  · by_cases hu : isNull (check.get "monitor_url") = true
    · simp [hb, hu]
    · simp [hb, hu]

/-- The HealthChecks are made of the sites that ClientThread.readDocument gives. -/
theorem readDocument_sites (type : QueryType) (document : Json ℤ) (t : Client) :
    t.readDocument some type document =
      match ClientThread.readDocument type document with
      | .ok sites =>
        ({ t with checks := t.checks ++ sites.map fun site =>
          ⟨site.1, site.2, t.jetmonServer, .notAssigned⟩ }, true)
      | .error text => (t.sendError text, false) := by
  unfold Client.readDocument ClientThread.readDocument
  rw [toString_eq]
  by_cases htoken : toString (document.get "auth_token") = ""
  · simp [htoken]
  · rw [if_neg htoken, if_neg htoken]
    unfold Client.parseRequests ClientThread.parseRequests
    simp only [isNull_eq, toInt_eq, toString_eq, toArray_eq]
    by_cases htype : type = .siteStatusCheck
    · rw [if_pos htype, if_pos htype]
      by_cases hb : isNull (document.get "blog_id") = true
      · simp [hb]
      · by_cases hu : isNull (document.get "monitor_url") = true
        · simp [hb, hu]
        · simp [hb, hu, Client.append]
    · rw [if_neg htype, if_neg htype]
      by_cases hnil : (toArray (document.get "checks")).isEmpty = true
      · rw [if_pos hnil, if_pos hnil]
      · have hsites : (toArray (document.get "checks")).filterMap (made some t.jetmonServer) =
            ((toArray (document.get "checks")).filterMap ClientThread.parseCheck).map fun site =>
              ⟨site.1, site.2, t.jetmonServer, .notAssigned⟩ := by
          rw [List.map_filterMap]
          exact List.filterMap_congr fun check _ => made_site t.jetmonServer check
        rw [if_neg hnil, if_neg hnil, parseElements_eq, hsites]

end CheckDocument
