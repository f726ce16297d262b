import Jetmon.IsoDate
import Jetmon.PercentText
import Jetmon.SiteIdentity

/-! The address that notifyStatusChange (lib/wpcom.js) requests. Numbers are integers that
JSON.stringify writes in full, and texts have no halves of surrogate pairs, for which
encodeURIComponent would throw. -/
namespace NotificationUrl

open JsonValue
open MasterState
open PercentText (Safe encodeURIComponent)
open SiteModel

structure ServerObject where
  blogId : ℕ
  monitorUrl : String
  siteStatus : Option SiteStatus
  lastCheck : Option ℤ
  lastStatusChange : ℤ
  checks : List CheckResult
  deriving DecidableEq

def serverObject : Post → ServerObject
  | .siteDown e =>
    ⟨e.blogId, e.monitorUrl, e.siteStatus, e.lastCheck, e.lastStatusChange, e.checks⟩
  | .statusChange s =>
    ⟨s.blogId, s.monitorUrl, some s.siteStatus, s.lastCheck, s.lastStatusChange, s.checks⟩

/-- JSON.stringify of an object: members that are undefined are left out. -/
def written (members : List (String × Option (Json ℤ))) : Json ℤ :=
  .obj (members.filterMap fun m => m.2.map fun v => (m.1, v))

/-- JSON.stringify of `new Date( t )`. -/
def date (t : ℤ) : Json ℤ :=
  if IsoDate.Valid t then .str (String.ofList (IsoDate.toISOString t)) else .null

/-- The results that a veriflier writes have no error_code. -/
def errorCode (check : CheckResult) : Option (Json ℤ) :=
  match check.type with
  | .jetmonCheck => some (.num check.errorCode)
  | .veriflierCheck => none

def checkDocument (check : CheckResult) : Json ℤ :=
  written [("type", some (.num (SiteIdentity.typeCode check.type))),
    ("host", some (.str check.host)), ("status", some (.num check.status)),
    ("rtt", some (.num check.rtt)), ("code", some (.num check.code)),
    ("error_code", errorCode check)]

/-- `o_request`; the date of undefined is written as null. -/
def document (authToken : String) (o : ServerObject) : Json ℤ :=
  written [("blog_id", some (.num o.blogId)), ("monitor_url", some (.str o.monitorUrl)),
    ("status_id", o.siteStatus.map fun status => .num status.code),
    ("last_check", some ((o.lastCheck.map date).getD .null)),
    ("last_status_change",
      some (if o.lastStatusChange = 0 then .null else date o.lastStatusChange)),
    ("checks", some (.arr (o.checks.map checkDocument))), ("token", some (.str authToken))]

def requestText (authToken : String) (o : ServerObject) : List Char :=
  JsonText.render JsonText.compact 0 (document authToken o)

def path (authToken : String) (o : ServerObject) : List Char :=
  "/jetmon/?data=".toList ++ encodeURIComponent (requestText authToken o)

/-- How the other side reads a path: the one field of the query is JSON. -/
def readPath (path : List Char) : Option (Json ℤ) :=
  match PercentText.fields path with
  | [(name, value)] =>
    if name = "data".toList then
      ((PercentText.decode value).bind PercentText.text).bind JsonText.parse
    else none
  | _ => none

theorem path_eq (authToken : String) (o : ServerObject) :
    path authToken o = "/jetmon/".toList ++
      '?' :: ("data".toList ++ '=' :: encodeURIComponent (requestText authToken o)) := by
  have hstart : "/jetmon/?data=".toList = "/jetmon/".toList ++ '?' :: ("data".toList ++ ['=']) := by
    simp
  unfold path
  rw [hstart, List.append_assoc, List.cons_append, List.append_assoc, List.singleton_append]

theorem name_safe : ∀ c ∈ "data".toList, Safe c := by
  have hall : ("data".toList.all PercentText.isUnreserved) = true := by decide
  exact fun c hc => .inl (List.all_eq_true.mp hall c hc)

theorem readPath_path (authToken : String) (o : ServerObject) :
    readPath (path authToken o) = some (document authToken o) := by
  have hstart : ∀ c ∈ "/jetmon/".toList, c ≠ '?' ∧ c ≠ '#' := by simp
  have hfields := PercentText.fields_single hstart name_safe
    (PercentText.encodeURIComponent_safe (requestText authToken o))
  have hblank : JsonText.Blank [] := by simp [JsonText.Blank]
  have hparse := JsonText.parse_render JsonText.compact (document authToken o) hblank
  rw [List.append_nil] at hparse
  simp only [readPath, path_eq, hfields, if_true, PercentText.text_encodeURIComponent]
  exact hparse

/-- Nothing in a path ends the request line early or is taken for another field. -/
theorem path_safe (authToken : String) (o : ServerObject) :
    ∀ c ∈ path authToken o, c = '/' ∨ c = '?' ∨ c = '=' ∨ Safe c := by
  intro c hc
  rw [path_eq, List.mem_append, List.mem_cons, List.mem_append, List.mem_cons] at hc
  obtain hc | rfl | hc | rfl | hc := hc
  · have hall : ("/jetmon/".toList.all fun c => c == '/' || PercentText.isUnreserved c) = true := by
      decide
    have hc := List.all_eq_true.mp hall c hc
    rw [Bool.or_eq_true, beq_iff_eq] at hc
    exact hc.imp_right fun h => .inr (.inr (.inl h))
  · exact .inr (.inl rfl)
  · exact .inr (.inr (.inr (name_safe c hc)))
  · exact .inr (.inr (.inl rfl))
  · exact .inr (.inr (.inr (PercentText.encodeURIComponent_safe _ c hc)))

def sentCheck (check : CheckResult) : CheckResult :=
  match check.type with
  | .jetmonCheck => check
  | .veriflierCheck => { check with errorCode := 0 }

def ServerObject.sent (o : ServerObject) : ServerObject :=
  { o with checks := o.checks.map sentCheck }

/-- The times are such that a Date can hold them. -/
structure ServerObject.Dated (o : ServerObject) : Prop where
  lastCheck : ∀ t ∈ o.lastCheck, IsoDate.Valid t
  lastStatusChange : IsoDate.Valid o.lastStatusChange

theorem date_of_valid {t : ℤ} (h : IsoDate.Valid t) :
    date t = .str (String.ofList (IsoDate.toISOString t)) :=
  if_pos h

theorem date_inj {t u : ℤ} (ht : IsoDate.Valid t) (hu : IsoDate.Valid u)
    (h : date t = date u) : t = u := by
  rw [date_of_valid ht, date_of_valid hu] at h
  apply IsoDate.toISOString_inj ht hu
  exact String.ofList_injective (Json.str.inj h)

theorem date_ne_null {t : ℤ} (h : IsoDate.Valid t) : date t ≠ .null := by
  rw [date_of_valid h]
  nofun

theorem lastCheck_inj {a b : Option ℤ} (ha : ∀ t ∈ a, IsoDate.Valid t)
    (hb : ∀ t ∈ b, IsoDate.Valid t) (h : (a.map date).getD .null = (b.map date).getD .null) :
    a = b := by
  cases a with
  | none =>
    cases b with
    | none => rfl
    | some u => exact absurd h.symm (date_ne_null (hb u rfl))
  | some t =>
    cases b with
    | none => exact absurd h (date_ne_null (ha t rfl))
    | some u => exact congrArg some (date_inj (ha t rfl) (hb u rfl) h)

theorem lastStatusChange_inj {t u : ℤ} (ht : IsoDate.Valid t) (hu : IsoDate.Valid u)
    (h : (if t = 0 then .null else date t) = (if u = 0 then .null else date u)) : t = u := by
  split at h <;> split at h
  · rename_i ht₀ hu₀
    rw [ht₀, hu₀]
  · exact absurd h.symm (date_ne_null hu)
  · exact absurd h (date_ne_null ht)
  · exact date_inj ht hu h

theorem checkDocument_eq_iff (check check' : CheckResult) :
    checkDocument check = checkDocument check' ↔ sentCheck check = sentCheck check' := by
  obtain ⟨type, host, status, rtt, code, error⟩ := check
  obtain ⟨type', host', status', rtt', code', error'⟩ := check'
  cases type <;> cases type' <;>
    simp [checkDocument, written, errorCode, sentCheck, SiteIdentity.typeCode]

theorem checks_eq_iff (checks checks' : List CheckResult) :
    checks.map checkDocument = checks'.map checkDocument ↔
      checks.map sentCheck = checks'.map sentCheck := by
  induction checks generalizing checks' with
  | nil => cases checks' <;> simp
  | cons check checks ih =>
    cases checks' with
    | nil => simp
    | cons check' checks' =>
      simp only [List.map_cons, List.cons.injEq, checkDocument_eq_iff, ih]

theorem code_inj {a b : SiteStatus} (h : a.code = b.code) : a = b := by
  cases a <;> cases b <;> first | rfl | exact absurd h (by decide)

theorem document_inj {token token' : String} {o o' : ServerObject} (h : o.Dated) (h' : o'.Dated)
    (heq : document token o = document token' o') : token = token' ∧ o.sent = o'.sent := by
  obtain ⟨blogId, monitorUrl, siteStatus, lastCheck, lastStatusChange, checks⟩ := o
  obtain ⟨blogId', monitorUrl', siteStatus', lastCheck', lastStatusChange', checks'⟩ := o'
  have hstatus : siteStatus = siteStatus' := by
    cases siteStatus <;> cases siteStatus' <;> simp [document, written] at heq ⊢
    exact code_inj heq.2.2.1
  subst hstatus
  have hfields : blogId = blogId' ∧ monitorUrl = monitorUrl' ∧
      (lastCheck.map date).getD .null = (lastCheck'.map date).getD .null ∧
      (if lastStatusChange = 0 then Json.null else date lastStatusChange) =
        (if lastStatusChange' = 0 then .null else date lastStatusChange') ∧
      checks.map checkDocument = checks'.map checkDocument ∧ token = token' := by
    cases siteStatus <;> simpa [document, written] using heq
  obtain ⟨rfl, rfl, hlast, hchange, hchecks, htoken⟩ := hfields
  obtain rfl : lastCheck = lastCheck' := lastCheck_inj h.lastCheck h'.lastCheck hlast
  obtain rfl : lastStatusChange = lastStatusChange' :=
    lastStatusChange_inj h.lastStatusChange h'.lastStatusChange hchange
  refine ⟨htoken, ?_⟩
  simp only [ServerObject.sent, (checks_eq_iff checks checks').mp hchecks]

theorem document_sent (token : String) {o o' : ServerObject} (h : o.sent = o'.sent) :
    document token o = document token o' := by
  obtain ⟨blogId, monitorUrl, siteStatus, lastCheck, lastStatusChange, checks⟩ := o
  obtain ⟨blogId', monitorUrl', siteStatus', lastCheck', lastStatusChange', checks'⟩ := o'
  simp only [ServerObject.sent, ServerObject.mk.injEq] at h
  obtain ⟨rfl, rfl, rfl, rfl, rfl, hchecks⟩ := h
  simp only [document, (checks_eq_iff checks checks').mpr hchecks]

/-- The address of a notice is read as the document that was written, no character in it has a
meaning in a request line or a query, and it tells apart all that is sent. -/
theorem notice_read (token : String) (post : Post) :
    readPath (path token (serverObject post)) = some (document token (serverObject post)) ∧
      (∀ c ∈ path token (serverObject post), c = '/' ∨ c = '?' ∨ c = '=' ∨ Safe c) ∧
      ∀ token' post', (serverObject post).Dated → (serverObject post').Dated →
        (path token (serverObject post) = path token' (serverObject post') ↔
          token = token' ∧ (serverObject post).sent = (serverObject post').sent) := by
  refine ⟨readPath_path _ _, path_safe _ _, fun token' post' h h' => ⟨fun heq => ?_, ?_⟩⟩
  · have hread := readPath_path token (serverObject post)
    rw [heq, readPath_path] at hread
    exact document_inj h h' (Option.some.inj hread).symm
  · rintro ⟨rfl, hsent⟩
    unfold path requestText
    rw [document_sent token hsent]

def samplePost (lastCheck : ℤ) : Post :=
  .siteDown { SiteIdentity.sampleEntry 7 with
    siteStatus := some .down
    lastCheck := some lastCheck
    checks := [⟨.jetmonCheck, "jetmon", 0, 20, 500, 0⟩,
      ⟨.veriflierCheck, "veriflier", 0, 30, 0, 0⟩] }

/-- Two notices that differ by a millisecond in the time of the check only. -/
theorem notice_read_sample :
    path "token" (serverObject (samplePost 1709210096789)) ≠
      path "token" (serverObject (samplePost 1709210096790)) := by
  intro h
  have hiff := (notice_read "token" (samplePost 1709210096789)).2.2 "token"
    (samplePost 1709210096790)
    ⟨fun _ ht => Option.some.inj ht ▸ by decide, by decide⟩
    ⟨fun _ ht => Option.some.inj ht ▸ by decide, by decide⟩
  exact absurd (hiff.mp h).2 (by decide)

end NotificationUrl
