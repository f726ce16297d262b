import Jetmon.JsonValue
import Jetmon.SiteModel

/-! The status server, lib/server.js: what one request leads to. A run of a handler is the
list of what it does, and whether an exception leaves it. The parsers of JSON and of URLs and
the numbers of the language are parameters. The limit of the engine's call stack is left out. -/
namespace StatusServer

open JsonValue
open SiteModel

/-- JSON.parse, `none` where it throws, and the values of the parameter d that url.parse finds
in a URL. -/
structure Script (ν : Type*) where
  numbers : Numbers ν
  parse : String → Option (Json ν)
  query : String → List String

structure Request where
  method : String
  url : String
  body : String
  deriving DecidableEq, Repr

inductive Effect (ν : Type*) where
  | respond (status : ℕ) (body : String)
  | forward (msgtype : String) (payload : Json ν)

structure Run (ν : Type*) where
  effects : List (Effect ν)
  threw : Bool

variable {ν : Type*} (S : Script ν) (veriflierArray : List Veriflier)

def errorBody : String := "\x7b\"response\":-1\x7d"

def successBody : String := "\x7b\"response\":1\x7d"

/-- The loop over veriflierArray; the outer `none` is an exception of `==`. -/
def matchToken (token : Json ν) : List Veriflier → Option (Option Veriflier)
  | [] => some none
  | veriflier :: rest =>
    match token.looseEq S.numbers veriflier.authToken with
    | none => none
    | some true => some (some veriflier)
    | some false => matchToken token rest

def logThrows (req : Json ν) : Bool :=
  match req.get "auth_code" with
  | none => false
  | some code => (code.text S.numbers).isNone

def authenticate (msgtype : String) (req token : Json ν) : Run ν :=
  match matchToken S token veriflierArray with
  | none => ⟨[], true⟩
  | some none => ⟨[.respond 503 errorBody], logThrows S req⟩
  | some (some veriflier) =>
    ⟨[.respond 200 successBody,
      .forward msgtype (req.set "veriflier_host" (.str veriflier.host))], false⟩

def lengthZero (checks : Json ν) : Option Bool :=
  match checks with
  | .null => none
  | .bool _ | .num _ => some false
  | .str s => some (s == "")
  | .arr items => some items.isEmpty
  | .obj members =>
    match lookup "length" members with
    | none => some false
    | some l => l.looseZero S.numbers

def postEnd (data : String) : Run ν :=
  match S.parse data with
  | none => ⟨[], true⟩
  | some .null => ⟨[], true⟩
  | some req =>
    match req.get "auth_token", req.get "checks" with
    | some token, some checks =>
      match lengthZero S checks with
      | none => ⟨[], true⟩
      | some true => ⟨[.respond 404 errorBody], false⟩
      | some false => authenticate S veriflierArray "host_status_array" req token
    | _, _ => ⟨[.respond 404 errorBody], false⟩

/-- The argument of JSON.parse in the GET branch: a repeated parameter is an array, and a
missing one is undefined, on which JSON.parse throws. The guard before it never holds. -/
def getText (url : String) : Option String :=
  match S.query url with
  | [] => none
  | values => some (String.intercalate "," values)

def getBranch (url : String) : Run ν :=
  match (getText S url).bind S.parse with
  | none => ⟨[], true⟩
  | some .null => ⟨[], true⟩
  | some req =>
    match req.get "auth_token", req.get "blog_id", req.get "status" with
    | some token, some _, some _ => authenticate S veriflierArray "host_status" req token
    | _, _, _ => ⟨[.respond 404 errorBody], false⟩

/-- The route '/put/host-status'; the catch of the POST branch writes to the log only. -/
def putHostStatus (request : Request) : Run ν :=
  if request.method = "POST" then
    { postEnd S veriflierArray request.body with threw := false }
  else getBranch S veriflierArray request.url

/-- A request target starts with a slash, so no inherited name of `routes` is one. -/
def Request.path (request : Request) : String :=
  String.ofList (request.url.toList.takeWhile (· ≠ '?'))

def requestHandler (request : Request) : Run ν :=
  if request.path = "/" then ⟨[.respond 404 "Unsupported call\n"], false⟩
  else if request.path = "/put/host-status" then putHostStatus S veriflierArray request
  else if request.path = "/get/status" then ⟨[.respond 200 "OK"], false⟩
  else ⟨[.respond 404 "not found\n"], false⟩

def isResponse : Effect ν → Bool
  | .respond _ _ => true
  | .forward _ _ => false

/-- The message is the parsed request `req`, with the host of an entry whose token equals its
auth_token. -/
def Authentic (req payload : Json ν) : Prop :=
  ∃ token, req.get "auth_token" = some token ∧ ∃ veriflier ∈ veriflierArray,
    token.looseEq S.numbers veriflier.authToken = some true ∧
      payload = req.set "veriflier_host" (.str veriflier.host)

def requestText (request : Request) : Option String :=
  if request.method = "POST" then some request.body else getText S request.url

/-- No exception escapes, there is one response, and only authentic messages are forwarded. -/
structure Served (request : Request) (run : Run ν) : Prop where
  survived : run.threw = false
  answered : run.effects.countP isResponse = 1
  authentic : ∀ msgtype payload, .forward msgtype payload ∈ run.effects →
    ∃ req, (requestText S request).bind S.parse = some req ∧ Authentic S veriflierArray req payload

def Comparable (token : Json ν) : Prop := veriflierArray ≠ [] → token.Textual

/-- What makes a POST answerable: the checks are not null, a member "length" of theirs can be
compared with 0, and unless that makes the request invalid the token can be compared. -/
def PostAnswerable (req : Json ν) : Prop :=
  ∀ token checks, req.get "auth_token" = some token → req.get "checks" = some checks →
    checks ≠ .null ∧ (∀ l, checks.get "length" = some l → l.Textual) ∧
      (lengthZero S checks = some false → Comparable veriflierArray token)

def GetAnswerable (req : Json ν) : Prop :=
  ∀ token blogId status, req.get "auth_token" = some token → req.get "blog_id" = some blogId →
    req.get "status" = some status → Comparable veriflierArray token ∧
      ((∀ veriflier ∈ veriflierArray,
          token.looseEq S.numbers veriflier.authToken = some false) →
        ∀ code, req.get "auth_code" = some code → code.Textual)

/-- The text is JSON and not null, and the values that are converted to text for a comparison
or for the log have no own member "toString". -/
def Answerable (request : Request) : Prop :=
  ∃ req, (requestText S request).bind S.parse = some req ∧ req ≠ .null ∧
    if request.method = "POST" then PostAnswerable S veriflierArray req
    else GetAnswerable S veriflierArray req

variable {S veriflierArray}

theorem matchToken_isSome (token : Json ν) :
    (matchToken S token veriflierArray).isSome = true ↔ Comparable veriflierArray token := by
  induction veriflierArray with
  | nil => simp [matchToken, Comparable]
  | cons veriflier rest ih =>
    have hone := looseEq_isSome S.numbers token veriflier.authToken
    have htail : token.Textual → (matchToken S token rest).isSome = true :=
      fun h => ih.mpr fun _ => h
    simp only [Comparable, ne_eq, reduceCtorEq, not_false_eq_true, forall_const]
    cases heq : token.looseEq S.numbers veriflier.authToken with
    | none => simpa [matchToken, heq] using hone
    | some equal =>
      have ht : token.Textual := hone.mp (by simp [heq])
      cases equal with
      | true => simp [matchToken, heq, ht]
      | false => simp [matchToken, heq, ht, htail ht]

theorem matchToken_some {token : Json ν} {veriflier : Veriflier}
    (h : matchToken S token veriflierArray = some (some veriflier)) :
    veriflier ∈ veriflierArray ∧ token.looseEq S.numbers veriflier.authToken = some true := by
  induction veriflierArray with
  | nil => simp [matchToken] at h
  | cons first rest ih =>
    rw [matchToken] at h
    split at h
    · contradiction
    · rename_i heq
      obtain rfl : first = veriflier := by simpa using h
      exact ⟨List.mem_cons_self, heq⟩
    · obtain ⟨hmem, heq⟩ := ih h
      exact ⟨List.mem_cons_of_mem _ hmem, heq⟩

theorem matchToken_none {token : Json ν} :
    matchToken S token veriflierArray = some none ↔
      ∀ veriflier ∈ veriflierArray,
        token.looseEq S.numbers veriflier.authToken = some false := by
  induction veriflierArray with
  | nil => simp [matchToken]
  | cons first rest ih =>
    rw [matchToken, List.forall_mem_cons]
    cases token.looseEq S.numbers first.authToken with
    | none => simp
    | some equal => cases equal <;> simp [ih]

theorem lengthZero_isSome {checks : Json ν} :
    (lengthZero S checks).isSome = true ↔
      checks ≠ .null ∧ ∀ l, checks.get "length" = some l → l.Textual := by
  cases checks with
  | obj members =>
    simp only [lengthZero, Json.get, ne_eq, reduceCtorEq, not_false_eq_true, true_and]
    cases hl : lookup "length" members with
    | none => simp
    | some l => simpa using looseZero_isSome S.numbers l
  | null | bool | num | str | arr => simp [lengthZero, Json.get]

theorem logThrows_eq_false {req : Json ν} :
    logThrows S req = false ↔ ∀ code, req.get "auth_code" = some code → code.Textual := by
  unfold logThrows
  cases hc : req.get "auth_code" with
  | none => simp
  | some code =>
    have h := text_isSome S.numbers code
    rw [← Option.not_isNone, Bool.not_eq_true'] at h
    simpa using h

theorem authenticate_cases (S : Script ν) (veriflierArray : List Veriflier) (msgtype : String)
    (req token : Json ν) :
    (matchToken S token veriflierArray = none ∧
      authenticate S veriflierArray msgtype req token = ⟨[], true⟩) ∨
    (matchToken S token veriflierArray = some none ∧
      authenticate S veriflierArray msgtype req token =
        ⟨[.respond 503 errorBody], logThrows S req⟩) ∨
    ∃ veriflier, matchToken S token veriflierArray = some (some veriflier) ∧
      authenticate S veriflierArray msgtype req token =
        ⟨[.respond 200 successBody,
          .forward msgtype (req.set "veriflier_host" (.str veriflier.host))], false⟩ := by
  rcases h : matchToken S token veriflierArray with _ | _ | veriflier
  · exact .inl ⟨rfl, by rw [authenticate, h]⟩
  · exact .inr (.inl ⟨rfl, by rw [authenticate, h]⟩)
  · exact .inr (.inr ⟨veriflier, rfl, by rw [authenticate, h]⟩)

theorem authenticate_forward {msgtype m : String} {req token payload : Json ν}
    (htoken : req.get "auth_token" = some token)
    (h : .forward m payload ∈ (authenticate S veriflierArray msgtype req token).effects) :
    Authentic S veriflierArray req payload := by
  obtain ⟨-, hrun⟩ | ⟨-, hrun⟩ | ⟨veriflier, hmatch, hrun⟩ :=
    authenticate_cases S veriflierArray msgtype req token
  · simp [hrun] at h
  · simp [hrun] at h
  · obtain ⟨-, rfl⟩ : m = msgtype ∧ payload = req.set "veriflier_host" (.str veriflier.host) := by
      simpa [hrun] using h
    obtain ⟨hmem, heq⟩ := matchToken_some hmatch
    exact ⟨token, htoken, veriflier, hmem, heq, rfl⟩

theorem authenticate_answers {msgtype : String} {req token : Json ν} :
    (authenticate S veriflierArray msgtype req token).effects.countP isResponse = 1 ↔
      Comparable veriflierArray token := by
  rw [← matchToken_isSome (S := S)]
  obtain ⟨hm, hrun⟩ | ⟨hm, hrun⟩ | ⟨veriflier, hm, hrun⟩ :=
    authenticate_cases S veriflierArray msgtype req token
  · simp [hm, hrun]
  · simp [hm, hrun, isResponse]
  · simp [hm, hrun, isResponse, List.countP_cons]

theorem authenticate_survives {msgtype : String} {req token : Json ν} :
    (authenticate S veriflierArray msgtype req token).threw = false ↔
      Comparable veriflierArray token ∧
        ((∀ veriflier ∈ veriflierArray,
            token.looseEq S.numbers veriflier.authToken = some false) →
          ∀ code, req.get "auth_code" = some code → code.Textual) := by
  rw [← matchToken_isSome (S := S), ← matchToken_none, ← logThrows_eq_false (S := S)]
  obtain ⟨hm, hrun⟩ | ⟨hm, hrun⟩ | ⟨veriflier, hm, hrun⟩ :=
    authenticate_cases S veriflierArray msgtype req token
  · simp [hm, hrun]
  · simp [hm, hrun]
  · simp [hm, hrun]

theorem postEnd_forward {data m : String} {payload : Json ν}
    (h : .forward m payload ∈ (postEnd S veriflierArray data).effects) :
    ∃ req, S.parse data = some req ∧ Authentic S veriflierArray req payload := by
  unfold postEnd at h
  split at h
  · simp at h
  · simp at h
  · rename_i req _ hparse
    split at h
    · rename_i token checks htoken hchecks
      split at h
      · simp at h
      · simp at h
      · exact ⟨req, hparse, authenticate_forward htoken h⟩
    · simp at h

theorem postAnswerable_iff {req token checks : Json ν}
    (htoken : req.get "auth_token" = some token) (hchecks : req.get "checks" = some checks) :
    PostAnswerable S veriflierArray req ↔ (lengthZero S checks).isSome = true ∧
      (lengthZero S checks = some false → Comparable veriflierArray token) := by
  rw [lengthZero_isSome, and_assoc]
  constructor
  · intro h
    exact h token checks htoken hchecks
  · intro h token' checks' htoken' hchecks'
    obtain rfl : token = token' := Option.some.inj (htoken.symm.trans htoken')
    obtain rfl : checks = checks' := Option.some.inj (hchecks.symm.trans hchecks')
    exact h

theorem postEnd_answers {data : String} :
    (postEnd S veriflierArray data).effects.countP isResponse = 1 ↔
      ∃ req, S.parse data = some req ∧ req ≠ .null ∧ PostAnswerable S veriflierArray req := by
  unfold postEnd
  split
  case h_1 hparse => simp [hparse]
  case h_2 hparse => simp [hparse]
  case h_3 req hnull hparse =>
    rw [hparse]
    simp only [Option.some.injEq, exists_eq_left', ne_eq, show ¬req = .null from hnull,
      not_false_eq_true, true_and]
    split
    case h_1 token checks htoken hchecks =>
      rw [postAnswerable_iff htoken hchecks]
      cases lengthZero S checks with
      | none => simp
      | some zero =>
        cases zero with
        | true => simp [isResponse]
        | false => simp [authenticate_answers]
    case h_2 hmissing =>
      refine iff_of_true (by simp [isResponse]) fun token checks htoken hchecks => ?_
      exact absurd hchecks (hmissing token checks htoken)

theorem getAnswerable_iff {req token blogId status : Json ν}
    (htoken : req.get "auth_token" = some token) (hblog : req.get "blog_id" = some blogId)
    (hstatus : req.get "status" = some status) :
    GetAnswerable S veriflierArray req ↔ Comparable veriflierArray token ∧
      ((∀ veriflier ∈ veriflierArray,
          token.looseEq S.numbers veriflier.authToken = some false) →
        ∀ code, req.get "auth_code" = some code → code.Textual) := by
  constructor
  · intro h
    exact h token blogId status htoken hblog hstatus
  · intro h token' _ _ htoken' _ _
    obtain rfl : token = token' := Option.some.inj (htoken.symm.trans htoken')
    exact h

theorem getBranch_forward {url m : String} {payload : Json ν}
    (h : .forward m payload ∈ (getBranch S veriflierArray url).effects) :
    ∃ req, (getText S url).bind S.parse = some req ∧ Authentic S veriflierArray req payload := by
  unfold getBranch at h
  split at h
  · simp at h
  · simp at h
  · rename_i req _ hparse
    split at h
    · rename_i token blogId status htoken _ _
      exact ⟨req, hparse, authenticate_forward htoken h⟩
    · simp at h

theorem getBranch_answers {url : String} :
    (getBranch S veriflierArray url).threw = false ∧
        (getBranch S veriflierArray url).effects.countP isResponse = 1 ↔
      ∃ req, (getText S url).bind S.parse = some req ∧ req ≠ .null ∧
        GetAnswerable S veriflierArray req := by
  unfold getBranch
  split
  case h_1 hparse => simp [hparse]
  case h_2 hparse => simp [hparse]
  case h_3 req hnull hparse =>
    rw [hparse]
    simp only [Option.some.injEq, exists_eq_left', ne_eq, show ¬req = .null from hnull,
      not_false_eq_true, true_and]
    split
    case h_1 token blogId status htoken hblog hstatus =>
      rw [getAnswerable_iff htoken hblog hstatus, authenticate_survives, authenticate_answers]
      exact and_iff_left_of_imp And.left
    case h_2 hmissing =>
      refine iff_of_true (by simp [isResponse]) fun token blogId status htoken hblog hstatus => ?_
      exact absurd hstatus (hmissing token blogId status htoken hblog)

theorem putHostStatus_forward {request : Request} {m : String} {payload : Json ν}
    (h : .forward m payload ∈ (putHostStatus S veriflierArray request).effects) :
    ∃ req, (requestText S request).bind S.parse = some req ∧
      Authentic S veriflierArray req payload := by
  unfold putHostStatus at h
  unfold requestText
  split at h
  case isTrue hpost =>
    rw [if_pos hpost]
    exact postEnd_forward h
  case isFalse hget =>
    rw [if_neg hget]
    exact getBranch_forward h

theorem putHostStatus_served {request : Request} :
    Served S veriflierArray request (putHostStatus S veriflierArray request) ↔
      Answerable S veriflierArray request := by
  have hserved : Served S veriflierArray request (putHostStatus S veriflierArray request) ↔
      (putHostStatus S veriflierArray request).threw = false ∧
        (putHostStatus S veriflierArray request).effects.countP isResponse = 1 :=
    ⟨fun h => ⟨h.survived, h.answered⟩, fun h => ⟨h.1, h.2, fun _ _ => putHostStatus_forward⟩⟩
  rw [hserved]
  unfold putHostStatus Answerable requestText
  split
  · simp only [true_and, Option.bind_some]
    exact postEnd_answers
  · exact getBranch_answers

/-- Every request is served but those for '/put/host-status' whose text or values no branch is
prepared for. -/
theorem served_iff (S : Script ν) (veriflierArray : List Veriflier) (request : Request) :
    Served S veriflierArray request (requestHandler S veriflierArray request) ↔
      (request.path = "/put/host-status" → Answerable S veriflierArray request) := by
  by_cases hpath : request.path = "/put/host-status"
  · have hrun : requestHandler S veriflierArray request =
        putHostStatus S veriflierArray request := by
      rw [requestHandler, hpath, if_neg (by decide), if_pos rfl]
    rw [hrun, putHostStatus_served]
    exact ⟨fun h _ => h, fun h => h hpath⟩
  · refine iff_of_true ?_ fun h => absurd h hpath
    unfold requestHandler
    rw [if_neg hpath]
    split_ifs
    all_goals exact ⟨rfl, rfl, by simp⟩

def bareScript : Script ℕ where
  numbers :=
    { zero := 0, one := 1, equals := fun a b => a == b, toNumber := fun _ => 0, toText := toString }
  parse := fun text => if text = "null" then some .null else none
  query := fun _ => []

/-- A GET without d, and a POST of null: the first is not survived, the second not answered. -/
theorem missing_parameter_escapes :
    (requestHandler bareScript [sampleVeriflier] ⟨"GET", "/put/host-status", ""⟩).threw = true ∧
      (requestHandler bareScript [sampleVeriflier]
        ⟨"POST", "/put/host-status", "null"⟩).effects.countP isResponse = 0 ∧
      ¬Served bareScript [sampleVeriflier] ⟨"GET", "/put/host-status", ""⟩
        (requestHandler bareScript [sampleVeriflier] ⟨"GET", "/put/host-status", ""⟩) := by
  have hthrew : (requestHandler bareScript [sampleVeriflier]
      ⟨"GET", "/put/host-status", ""⟩).threw = true := by decide
  refine ⟨hthrew, by decide, fun h => ?_⟩
  rw [h.survived] at hthrew
  exact absurd hthrew (by decide)

end StatusServer
