import Jetmon.ClientThread
import Jetmon.MasterState
import Jetmon.ResultDelivery

/-! A site on its way from queuedRetries to a veriflier and back. The blog_id passes a field of
32 bits. How JSON texts are written and read is a parameter. -/
namespace SiteIdentity

open CheckController
open CheckAccounting
open ClientThread
open JsonValue
open MasterState
open ResultDelivery
open ResultRouting
open SiteModel
open TransitionSystem

/-- JSON.stringify and JSON.parse on the side of the master, with the bytes of their texts. -/
structure Wire extends Conversion where
  stringify : Json ℤ → ByteArray
  parse : ByteArray → Option (Json ℤ)

def typeCode : CheckType → ℤ
  | .jetmonCheck => 1
  | .veriflierCheck => 2

/-- Members stand in the order of their keys, which is not the order in which a script made
them; a member that is undefined is left out. -/
def checkJson (check : CheckResult) : Json ℤ :=
  .obj [("code", .num check.code), ("error_code", .num check.errorCode), ("host", .str check.host),
    ("rtt", .num check.rtt), ("status", .num check.status), ("type", .num (typeCode check.type))]

def entryJson (e : RetryEntry) : Json ℤ :=
  .obj (([("blog_id", .num e.blogId), ("checks", .arr (e.checks.map checkJson))] :
      List (String × Json ℤ)) ++
    ((e.lastCheck.toList.map fun t => ("lastCheck", .num t)) : List (String × Json ℤ)) ++
    ([("last_activity", .num e.lastActivity), ("last_status_change", .num e.lastStatusChange),
      ("monitor_url", .str e.monitorUrl), ("offline_confirms", .num e.offlineConfirms),
      ("requests_outstanding", .num e.requestsOutstanding),
      ("requests_sent", .bool e.requestsSent)] : List (String × Json ℤ)) ++
    ((e.siteStatus.toList.map fun status => ("site_status", .num status.code)) :
      List (String × Json ℤ)) ++
    ([("status_id", .num e.statusId.code)] : List (String × Json ℤ)))

def requestDocument (authToken : String) (checkArray : List RetryEntry) : Json ℤ :=
  .obj [("auth_token", .str authToken), ("checks", .arr (checkArray.map entryJson))]

/-- Requests whose numbers JSON represents, and documents of results, are read as they were
written. -/
structure Wire.Faithful (W : Wire) (representable : ℤ → Prop) : Prop where
  request : ∀ token batch, (∀ e ∈ batch, (entryJson e).AllNumbers representable) →
    W.fromJson (W.stringify (requestDocument token batch)) = some (requestDocument token batch)
  reply : ∀ token results, (∀ r ∈ results, IsResult r) →
    W.parse (W.toJson (resultDocument token results)) = some (resultDocument token results)

variable (W : Wire)

/-- The sites of the HealthChecks that a veriflier makes for a batch. -/
def requested (token : String) (batch : List RetryEntry) : List (Int32 × String) :=
  match (W.fromJson (W.stringify (requestDocument token batch))).map
      (parseRequests .siteStatusPostCheck) with
  | some (.ok sites) => sites
  | _ => []

def reported (token : String) (results : List (Json ℤ)) : List (Json ℤ) :=
  match W.parse (W.toJson (resultDocument token results)) with
  | some document => checksOf document
  | none => []

def Carries (data : Reply) (check : Json ℤ) : Prop :=
  check.get "blog_id" = some (.num data.blogId) ∧
    check.get "monitor_url" = some (.str data.monitorUrl)

/-- checkHostStatus finds that the check is about the entry. -/
def Matches (e : RetryEntry) (check : Json ℤ) : Prop :=
  ∃ data, Carries data check ∧ e.concerns data = true

def pair (e : RetryEntry) : ℕ × String := (e.blogId, e.monitorUrl)

/-- What a batch is asked to survive. -/
structure Survives (token : String) (batch : List RetryEntry) : Prop where
  /-- The result that comes back for the check of an entry is about this entry. -/
  matched : ∀ i (h : i < batch.length), ∃ site, (requested W token batch)[i]? = some site ∧
    ∀ veriflierToken results, (∀ r ∈ results, IsResult r) →
      ∀ (k : ℕ) status httpCode rtt, results[k]? = some (arrResult site status httpCode rtt) →
        ∃ check, (reported W veriflierToken results)[k]? = some check ∧ Matches batch[i] check
  /-- Entries with different pairs get different entries of m_checks. -/
  apart : ∀ i j (hi : i < batch.length) (hj : j < batch.length), pair batch[i] ≠ pair batch[j] →
    ∀ (P : Settings) (s : State) hcs n, Reachable (controller P) Unrestricted s →
      CheckController.Enabled s (.request hcs n) →
      hcs.map HealthCheck.site = requested W token batch →
        ∃ c ∈ (serveRequest P s hcs n).checks, ∃ c' ∈ (serveRequest P s hcs n).checks,
          (requested W token batch)[i]? = some c.site ∧
            (requested W token batch)[j]? = some c'.site ∧ c.address ≠ c'.address

def siteOf (e : RetryEntry) : Int32 × String := (toInt (some (.num e.blogId)), e.monitorUrl)

theorem parseCheck_entryJson (e : RetryEntry) : parseCheck (entryJson e) = some (siteOf e) := by
  have hblog : (entryJson e).get "blog_id" = some (.num e.blogId) := by
    simp [entryJson, Json.get, lookup]
  have hurl : (entryJson e).get "monitor_url" = some (.str e.monitorUrl) := by
    cases hlast : e.lastCheck <;> simp [entryJson, Json.get, lookup, hlast]
  simp [parseCheck, hblog, hurl, isNull, siteOf, ClientThread.toString]

theorem parseRequests_batch (token : String) {batch : List RetryEntry} (h : batch ≠ []) :
    parseRequests .siteStatusPostCheck (requestDocument token batch) =
      .ok (batch.map siteOf) := by
  have hchecks : toArray ((requestDocument token batch).get "checks") = batch.map entryJson := rfl
  have hsites : (batch.map entryJson).filterMap parseCheck = batch.map siteOf := by
    rw [List.filterMap_map, ← List.filterMap_eq_map]
    apply List.filterMap_congr
    intro e _
    exact parseCheck_entryJson e
  unfold parseRequests
  rw [hchecks, hsites]
  simp [h]

variable {W} {representable : ℤ → Prop}

theorem requested_eq (hW : W.Faithful representable) (token : String) {batch : List RetryEntry}
    (h : ∀ e ∈ batch, (entryJson e).AllNumbers representable) (hne : batch ≠ []) :
    requested W token batch = batch.map siteOf := by
  rw [requested, hW.request token batch h, Option.map_some, parseRequests_batch token hne]

theorem reported_eq (hW : W.Faithful representable) (token : String) {results : List (Json ℤ)}
    (h : ∀ r ∈ results, IsResult r) : reported W token results = results := by
  rw [reported, hW.reply token results h]
  rfl

theorem siteOf_toInt_iff (e : RetryEntry) :
    (siteOf e).1.toInt = e.blogId ↔ e.blogId < 2 ^ 31 := by
  simp only [siteOf, toInt_eq_iff]

theorem arrResult_blog_id (site : Int32 × String) (status httpCode rtt : Int32) :
    (arrResult site status httpCode rtt).get "blog_id" = some (.num site.1.toInt) :=
  rfl

/-- The identifier comes back if it fits the field, and only then. -/
theorem matches_iff (e : RetryEntry) (status httpCode rtt : Int32) :
    Matches e (arrResult (siteOf e) status httpCode rtt) ↔ e.blogId < 2 ^ 31 := by
  have hblog := arrResult_blog_id (siteOf e) status httpCode rtt
  rw [← siteOf_toInt_iff]
  constructor
  · rintro ⟨data, ⟨hdata, -⟩, hconcerns⟩
    have hsame : (siteOf e).1.toInt = data.blogId :=
      Json.num.inj (Option.some.inj (hblog.symm.trans hdata))
    simp only [RetryEntry.concerns, Bool.and_eq_true, beq_iff_eq] at hconcerns
    rwa [← hconcerns.1] at hsame
  · intro h
    refine ⟨⟨"", e.blogId, e.monitorUrl, status.toInt, rtt.toInt, httpCode.toInt, 0, 0, 0⟩,
      ⟨?_, rfl⟩, by simp [RetryEntry.concerns]⟩
    rw [hblog, h]

theorem fits_of_matched (hW : W.Faithful representable) (e : RetryEntry)
    (h : ∀ veriflierToken results, (∀ r ∈ results, IsResult r) →
      ∀ (k : ℕ) status httpCode rtt, results[k]? = some (arrResult (siteOf e) status httpCode rtt) →
        ∃ check, (reported W veriflierToken results)[k]? = some check ∧ Matches e check) :
    e.blogId < 2 ^ 31 := by
  have hresult : ∀ r ∈ [arrResult (siteOf e) 0 0 0], IsResult r := by
    intro r hr
    rw [List.mem_singleton.mp hr]
    exact ⟨_, _, _, _, rfl⟩
  obtain ⟨check, hcheck, hmatch⟩ := h "" _ hresult 0 0 0 0 rfl
  rw [reported_eq hW "" hresult] at hcheck
  obtain rfl : arrResult (siteOf e) 0 0 0 = check := by simpa using hcheck
  exact (matches_iff e 0 0 0).mp hmatch

theorem siteOf_injective {e e' : RetryEntry} (h : e.blogId < 2 ^ 31) (h' : e'.blogId < 2 ^ 31)
    (hsite : siteOf e = siteOf e') : pair e = pair e' := by
  have hid : (siteOf e).1.toInt = (siteOf e').1.toInt := by rw [hsite]
  have hurl : e.monitorUrl = e'.monitorUrl := congrArg Prod.snd hsite
  rw [(siteOf_toInt_iff e).mpr h, (siteOf_toInt_iff e').mpr h'] at hid
  exact Prod.ext (by exact_mod_cast hid) hurl

theorem entries_apart {P : Settings} {s : State} {hcs : List HealthCheck} {n : ℕ}
    (hr : Reachable (controller P) Unrestricted s)
    (he : CheckController.Enabled s (.request hcs n))
    {site site' : Int32 × String} (hsite : site ∈ hcs.map HealthCheck.site)
    (hsite' : site' ∈ hcs.map HealthCheck.site) (hne : site ≠ site') :
    ∃ c ∈ (serveRequest P s hcs n).checks, ∃ c' ∈ (serveRequest P s hcs n).checks,
      c.site = site ∧ c'.site = site' ∧ c.address ≠ c'.address := by
  obtain ⟨hc, hmem, rfl⟩ := List.mem_map.mp hsite
  obtain ⟨hc', hmem', rfl⟩ := List.mem_map.mp hsite'
  have hlisted := addChecks_listed (P := P) (fun x hx => he.2.2.2 x hx hc hmem) s
  obtain ⟨c, hc₁, hcsite, -⟩ := hlisted hc hmem
  obtain ⟨c', hc₂, hcsite', -⟩ := hlisted hc' hmem'
  have haccounted := (reachable_accounted (.step (e := Event.request hcs n) hr he trivial)).1
  refine ⟨c, hc₁, c', hc₂, hcsite, hcsite', fun heq => hne ?_⟩
  have hsame : c = c' := List.inj_on_of_nodup_map haccounted.addresses hc₁ hc₂ heq
  rw [← hcsite, ← hcsite', hsame]

/-- The sites of a batch survive the round trip if and only if their identifiers fit the field
of the veriflier. -/
theorem identity_survives_iff (W : Wire) (representable : ℤ → Prop)
    (hW : W.Faithful representable) (token : String) (batch : List RetryEntry)
    (hbatch : ∀ e ∈ batch, (entryJson e).AllNumbers representable) :
    Survives W token batch ↔ ∀ e ∈ batch, e.blogId < 2 ^ 31 := by
  constructor
  · intro h e hmem
    obtain ⟨i, hi, rfl⟩ := List.getElem_of_mem hmem
    obtain ⟨site, hsite, hmatched⟩ := h.matched i hi
    rw [requested_eq hW token hbatch (List.ne_nil_of_mem hmem)] at hsite
    obtain rfl : siteOf batch[i] = site := by simpa [hi] using hsite
    exact fits_of_matched hW batch[i] hmatched
  · intro hfits
    constructor
    · intro i hi
      have hne : batch ≠ [] := List.ne_nil_of_length_pos (by omega)
      refine ⟨siteOf batch[i], by simp [requested_eq hW token hbatch hne, hi], ?_⟩
      intro veriflierToken results hresults k status httpCode rtt hk
      rw [reported_eq hW veriflierToken hresults]
      exact ⟨_, hk, (matches_iff batch[i] status httpCode rtt).mpr (hfits _ (List.getElem_mem hi))⟩
    · intro i j hi hj hpair P s hcs n hr he hsites
      have hne : batch ≠ [] := List.ne_nil_of_length_pos (by omega)
      rw [requested_eq hW token hbatch hne] at hsites ⊢
      have hmem : ∀ k (hk : k < batch.length), siteOf batch[k] ∈ hcs.map HealthCheck.site := by
        intro k hk
        rw [hsites]
        exact List.mem_map_of_mem (List.getElem_mem hk)
      have hdiffer : siteOf batch[i] ≠ siteOf batch[j] := fun heq =>
        hpair (siteOf_injective (hfits _ (List.getElem_mem hi)) (hfits _ (List.getElem_mem hj)) heq)
      obtain ⟨c, hc, c', hc', hsite, hsite', haddress⟩ :=
        entries_apart hr he (hmem i hi) (hmem j hj) hdiffer
      exact ⟨c, hc, c', hc', by simp [hi, hsite], by simp [hj, hsite'], haddress⟩

/-- Texts of the script are compact, those of the veriflier indented. -/
def sampleWire : Wire where
  toConversion := sampleConversion
  stringify document := JsonText.encode (JsonText.render JsonText.compact 0 document ++ [])
  parse bytes := (JsonText.decode bytes).bind JsonText.parse

def Safe (n : ℤ) : Prop := n.natAbs < 2 ^ 53

theorem sampleWire_faithful : sampleWire.Faithful Safe where
  request token batch _ := by
    simp only [sampleWire, sampleConversion, JsonText.decode_encode, Option.bind_some]
    exact JsonText.parse_render _ _ (by simp [JsonText.Blank])
  reply token results h := sampleConversion_faithful token results h

def sampleEntry (blogId : ℕ) : RetryEntry where
  blogId := blogId
  monitorUrl := "https://example.com"
  statusId := .running
  siteStatus := none
  lastCheck := none
  lastStatusChange := 0
  checks := []
  offlineConfirms := 1
  requestsSent := false
  requestsOutstanding := 0
  lastActivity := 0
  serial := 0
  server := .ofRow ⟨blogId, "https://example.com", .running, none⟩

theorem sampleEntry_safe {blogId : ℕ} (h : blogId < 2 ^ 53) :
    (entryJson (sampleEntry blogId)).AllNumbers Safe := by
  simpa [entryJson, sampleEntry, Json.AllNumbers, AllMembers, AllItems, Safe, SiteStatus.code]
    using h

theorem identity_survives_sample :
    Survives sampleWire "token" [sampleEntry 7, sampleEntry 8] :=
  (identity_survives_iff sampleWire Safe sampleWire_faithful "token" [sampleEntry 7, sampleEntry 8]
    (by
      intro e he
      rcases List.mem_pair.mp he with rfl | rfl
      all_goals exact sampleEntry_safe (by decide))).mpr
    (by decide)

/-- Two sites with identifiers beyond 31 bits come back as one site with the identifier 0. -/
theorem wide_identifiers_merge :
    sampleWire.Faithful Safe ∧
      (∀ e ∈ [sampleEntry (2 ^ 31), sampleEntry (2 ^ 31 + 1)], (entryJson e).AllNumbers Safe) ∧
      requested sampleWire "token" [sampleEntry (2 ^ 31), sampleEntry (2 ^ 31 + 1)] =
        [(0, "https://example.com"), (0, "https://example.com")] ∧
      ¬Survives sampleWire "token" [sampleEntry (2 ^ 31), sampleEntry (2 ^ 31 + 1)] := by
  have hsafe : ∀ e ∈ [sampleEntry (2 ^ 31), sampleEntry (2 ^ 31 + 1)],
      (entryJson e).AllNumbers Safe := by
    intro e he
    rcases List.mem_pair.mp he with rfl | rfl
    all_goals exact sampleEntry_safe (by decide)
  have hrequested := requested_eq sampleWire_faithful "token" hsafe (List.cons_ne_nil _ _)
  refine ⟨sampleWire_faithful, hsafe, ?_, fun h => ?_⟩
  · rw [hrequested]
    decide
  · obtain ⟨site, hsite, hmatched⟩ := h.matched 0 (by decide)
    rw [hrequested] at hsite
    obtain rfl : siteOf (sampleEntry (2 ^ 31)) = site := Option.some.inj hsite
    exact absurd (fits_of_matched sampleWire_faithful _ hmatched) (by decide)

end SiteIdentity
